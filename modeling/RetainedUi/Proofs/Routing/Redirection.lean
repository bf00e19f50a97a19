import RetainedUi.Proofs.Forest.Invariant
import RetainedUi.Proofs.Routing.Capture

/-!
# Redirects follow views

Every call that sets or removes a redirect is kept in a history, together with the forest at that time. The
history stands beside the state that widgets share, where nothing looks at it, with the last call in front.

Desks are reached from a fresh one by changes of the forest, calls, and passes, in any order. Receivers do
the same in the middle of a pass. What a receiver is told in the middle of its run is covered too, since a
receiver may halt at any point, and a pass that halts there leaves the desk as it is there.

A redirect is in force just if the last call for its kind named a view that was live and has survived, so it
never passes on to a later view in the same slot. Stale redirects may stay in the table until a pass finds
them, but they are of no consequence.
-/

namespace RetainedUi

variable {W D A : Type}

namespace Forest

variable {f mid g : Forest W} {v : View} {serial : Nat}

/-- The view that a handle names is live in the later forest and was so in every forest on the way. -/
def Survives (f : Forest W) (v : View) (g : Forest W) : Prop :=
  f.Reaches g ∧ ∃ serial, ∀ mid, f.Reaches mid → mid.Reaches g → mid.serial? v = some serial

/-- A serial that is carried by the same handle earlier and later is carried by it in between. -/
theorem serial?_between (hf : empty.Reaches f) (hmid : f.Reaches mid) (hg : mid.Reaches g)
    (hearly : f.serial? v = some serial) (hlate : g.serial? v = some serial) :
    mid.serial? v = some serial := by
  have hwell : f.WellFormed := reachable_wellFormed hf
  -- A view that is created on the way carries a later serial than all views of the first forest.
  rcases (hg.renews (hmid.wellFormed hwell)).old_or_new v serial hlate with hold | hnew
  · exact hold
  · have hle := hwell.serial_le v serial hearly
    have hgrown := (hmid.renews hwell).lastSerial_le
    omega

theorem survives_iff (hf : empty.Reaches f) (hfg : f.Reaches g) :
    f.Survives v g ↔ ∃ serial, f.serial? v = some serial ∧ g.serial? v = some serial := by
  constructor
  · rintro ⟨-, serial, hall⟩
    exact ⟨serial, hall f (.refl f) hfg, hall g hfg (.refl g)⟩
  · rintro ⟨serial, hearly, hlate⟩
    exact ⟨hfg, serial, fun mid hmid hg ↦ serial?_between hf hmid hg hearly hlate⟩

end Forest

/-! ## The table of redirects -/

namespace Redirects

variable {r : Redirects} {f : Forest W} {kind other : EventKind} {redirect : Redirect}

theorem mem_of_find? (h : r.find? kind = some redirect) : (kind, redirect) ∈ r.entries := by
  obtain ⟨before, behind, hentries, -⟩ := List.lookup_eq_some_iff.mp h
  simp [hentries]

/-- What is found is still found when entries are dropped, unless it is dropped itself. -/
theorem find?_filter {keep : EventKind × Redirect → Bool} (h : r.find? kind = some redirect)
    (hkeep : keep (kind, redirect) = true) : (⟨r.entries.filter keep⟩ : Redirects).find? kind = some redirect := by
  obtain ⟨before, behind, hentries, hbefore⟩ := List.lookup_eq_some_iff.mp h
  refine List.lookup_eq_some_iff.mpr ⟨before.filter keep, behind.filter keep, ?_, fun entry hentry ↦ ?_⟩
  · rw [hentries, List.filter_append, List.filter_cons_of_pos hkeep]
  · exact hbefore entry (List.mem_filter.mp hentry).1

theorem find?_erase_self (r : Redirects) (kind : EventKind) : (r.erase kind).find? kind = none := by
  refine List.lookup_eq_none_iff.mpr fun entry hentry ↦ ?_
  simpa [bne_comm] using (List.mem_filter.mp hentry).2

theorem find?_erase_of_ne (hother : other ≠ kind) (h : r.find? other = some redirect) :
    (r.erase kind).find? other = some redirect :=
  find?_filter h (by simpa using hother)

theorem find?_set_self {v : View} {serial : Nat} (hlive : f.serial? v = some serial) :
    (r.set f kind (some v)).1.find? kind = some ⟨v, serial⟩ := by
  simp [set, hlive, insert, find?]

theorem find?_set_of_ne (receiver : Option View) (hother : other ≠ kind)
    (h : r.find? other = some redirect) : (r.set f kind receiver).1.find? other = some redirect := by
  have herased := find?_erase_of_ne hother h
  cases receiver with
  | none => exact herased
  | some v =>
    unfold set
    dsimp only
    cases f.serial? v with
    | none => exact herased
    | some serial =>
      have hne : (other == kind) = false := by simpa using hother
      simpa [insert, find?, List.lookup_cons, hne] using herased

/-- After a call there are the entries of other kinds, and one of its kind if it named a live view. -/
theorem mem_set {receiver : Option View} {entry : EventKind × Redirect}
    (h : entry ∈ (r.set f kind receiver).1.entries) :
    entry.1 ≠ kind ∧ entry ∈ r.entries ∨
      entry.1 = kind ∧ receiver = some entry.2.view ∧ f.serial? entry.2.view = some entry.2.serial := by
  have herased (h : entry ∈ (r.erase kind).entries) : entry.1 ≠ kind ∧ entry ∈ r.entries := by
    obtain ⟨hmem, hne⟩ := List.mem_filter.mp h
    exact ⟨by simpa using hne, hmem⟩
  cases receiver with
  | none => exact .inl (herased h)
  | some v =>
    unfold set at h
    dsimp only at h
    cases hserial : f.serial? v with
    | none =>
      rw [hserial] at h
      exact .inl (herased h)
    | some serial =>
      rw [hserial] at h
      rcases List.mem_cons.mp h with rfl | h
      · exact .inr ⟨rfl, rfl, hserial⟩
      · exact .inl (herased h)

end Redirects

/-! ## Histories -/

/-- A call that sets or removes a redirect, and the forest at that time. -/
structure RedirectCall (W : Type) where
  kind : EventKind
  receiver : Option View
  forest : Forest W

/-- A desk that keeps the calls for redirects beside the shared state. -/
abbrev TracedDesk (W D A : Type) := Desk W D (A × List (RedirectCall W))

namespace Desk

def calls (s : TracedDesk W D A) : List (RedirectCall W) := s.ambient.shared.2

/-- The last call for a kind. -/
def lastCall? (s : TracedDesk W D A) (kind : EventKind) : Option (RedirectCall W) :=
  s.calls.find? fun call ↦ call.kind == kind

/-- A call for a redirect, which is kept in the history. -/
def calling (s : TracedDesk W D A) (kind : EventKind) (receiver : Option View) : TracedDesk W D A :=
  let calls := ⟨kind, receiver, s.forest⟩ :: s.calls
  Pass.final (redirect kind receiver
    { s with ambient := { s.ambient with shared := (s.ambient.shared.1, calls) } })

/-- A desk without views, events and redirects, and without a history. -/
def fresh (shared : A) : TracedDesk W D A :=
  { forest := .empty, queue := [], redirects := .empty, deferred := [], ambient := ⟨#[], (shared, [])⟩ }

/-- What is done outside of a pass, or by a receiver in the middle of one. -/
inductive Acts : TracedDesk W D A → TracedDesk W D A → Prop where
  | forest (s : TracedDesk W D A) {f : Forest W} (h : s.forest.Reaches f) : Acts s { s with forest := f }
  | redirect (s : TracedDesk W D A) (kind : EventKind) (receiver : Option View) :
      Acts s (s.calling kind receiver)
  /-- Events are posted, callbacks scheduled or taken, and the shared state changes. -/
  | besides (s : TracedDesk W D A) (queue : List Event) (deferred : List D) (journal : Array Note)
      (shared : A) : Acts s { s with queue, deferred, ambient := ⟨journal, (shared, s.calls)⟩ }

/-- The second desk comes from the first one by acts and passes. -/
inductive Reaches : TracedDesk W D A → TracedDesk W D A → Prop where
  | refl (s : TracedDesk W D A) : Reaches s s
  | act {s t u : TracedDesk W D A} (hst : Reaches s t) (htu : Acts t u) : Reaches s u
  /-- A pass whose receivers do to the desk what may be done to it. -/
  | dispatch {s : TracedDesk W D A} {conduct : HandlingConduct W D (A × List (RedirectCall W))}
      (hconduct : ∀ widget handle, conduct widget = some handle →
        ∀ v e t, Reaches t (Pass.final (handle v e t)))
      (steps : Nat) (root : View) (t : TracedDesk W D A) (hst : Reaches s t) :
      Reaches s (Pass.final (Routing.dispatch conduct steps root t))
  /-- The moment of a pass at which an event has been taken from the queue. -/
  | taken {s : TracedDesk W D A} {conduct : HandlingConduct W D (A × List (RedirectCall W))}
      (hconduct : ∀ widget handle, conduct widget = some handle →
        ∀ v e t, Reaches t (Pass.final (handle v e t)))
      (steps : Nat) (root : View) (t : TracedDesk W D A) (hst : Reaches s t)
      {round : Routing.Round W D (A × List (RedirectCall W))}
      (hround : round ∈ Routing.rounds conduct steps root steps t.pruned) : Reaches s round.desk

/-- A property that a step keeps. -/
def Keeps (P : TracedDesk W D A → Prop) (s t : TracedDesk W D A) : Prop := P s → P t

instance (P : TracedDesk W D A → Prop) : IsPreorder (TracedDesk W D A) (Keeps P) where
  refl _ := id
  trans _ _ _ hst htu := htu ∘ hst

/-- What acts and the moves of a pass keep is kept in every run. -/
theorem Reaches.preserves {P : TracedDesk W D A → Prop} (hacts : ∀ s t, P s → Acts s t → P t)
    (hmoves : ∀ s t, P s → Moves s t → P t) {s t : TracedDesk W D A} (h : Reaches s t) (hs : P s) : P t := by
  have hkeeps : ∀ s t : TracedDesk W D A, Moves s t → Keeps P s t := fun s t hmove hs ↦ hmoves s t hs hmove
  induction h with
  | refl => exact hs
  | act _ hact ih => exact hacts _ _ (ih hs) hact
  | dispatch _ steps root t _ hconduct ih =>
    have hpass : Pass.Carries id (Keeps P) (Routing.dispatch _ steps root) :=
      Routing.carries_dispatch hkeeps hconduct steps root
    exact hpass t (ih hs)
  | taken _ steps root t _ hround hconduct ih =>
    have hpruned : P t.pruned := hmoves _ _ (ih hs) (.prune t)
    have hrounds : ∀ round ∈ Routing.rounds _ steps root steps t.pruned, Keeps P (id t.pruned) (id round.desk) :=
      Routing.carries_rounds hkeeps hconduct steps root steps t.pruned
    exact hrounds _ hround hpruned

/-! ## The table tells the history -/

/-- All redirects stand for the last calls of their kinds, and none is missing whose view has survived. -/
structure Faithful (s : TracedDesk W D A) : Prop where
  reachable : Forest.empty.Reaches s.forest
  past : ∀ call ∈ s.calls, Forest.empty.Reaches call.forest ∧ call.forest.Reaches s.forest
  called : ∀ entry ∈ s.redirects.entries, ∃ call, s.lastCall? entry.1 = some call ∧
    call.receiver = some entry.2.view ∧ call.forest.serial? entry.2.view = some entry.2.serial
  kept : ∀ kind call v serial, s.lastCall? kind = some call → call.receiver = some v →
    call.forest.serial? v = some serial → s.forest.serial? v = some serial →
      s.redirects.find? kind = some ⟨v, serial⟩

theorem faithful_fresh (shared : A) : (fresh shared : TracedDesk W D A).Faithful where
  reachable := .refl _
  past := by simp [fresh, calls]
  called := by simp [fresh, Redirects.empty]
  kept := by simp [fresh, lastCall?, calls]

theorem mem_calls_of_lastCall? {s : TracedDesk W D A} {kind : EventKind} {call : RedirectCall W}
    (h : s.lastCall? kind = some call) : call ∈ s.calls := List.mem_of_find?_eq_some h

namespace Faithful

variable {s t : TracedDesk W D A}

/-- Redirects may be given up without a call, unless they are live. -/
theorem of_fewer (hs : s.Faithful) (hcalls : t.calls = s.calls) (hforest : s.forest.Reaches t.forest)
    (hfewer : t.redirects.entries ⊆ s.redirects.entries)
    (hlive : ∀ kind redirect, s.redirects.find? kind = some redirect → redirect.isLive s.forest = true →
      t.redirects.find? kind = some redirect) : t.Faithful := by
  have hlast (kind : EventKind) : t.lastCall? kind = s.lastCall? kind := by
    rw [lastCall?, lastCall?, hcalls]
  refine ⟨hs.reachable.trans hforest, fun call hcall ↦ ?_, fun entry hentry ↦ ?_, ?_⟩
  · obtain ⟨hearly, hlater⟩ := hs.past call (hcalls ▸ hcall)
    exact ⟨hearly, hlater.trans hforest⟩
  · rw [hlast]
    exact hs.called entry (hfewer hentry)
  · intro kind call v serial hcall hreceiver hearly hlate
    rw [hlast] at hcall
    obtain ⟨hreach, hpast⟩ := hs.past call (mem_calls_of_lastCall? hcall)
    have hmid := Forest.serial?_between hreach hpast hforest hearly hlate
    refine hlive kind ⟨v, serial⟩ (hs.kept kind call v serial hcall hreceiver hearly hmid) ?_
    simp [Redirect.isLive, hmid]

theorem of_same (hs : s.Faithful) (hcalls : t.calls = s.calls) (hforest : s.forest.Reaches t.forest)
    (hredirects : t.redirects = s.redirects) : t.Faithful :=
  hs.of_fewer hcalls hforest (by rw [hredirects]; exact List.Subset.refl _)
    fun kind redirect hfound _ ↦ by rw [hredirects, hfound]

theorem calling (hs : s.Faithful) (kind : EventKind) (receiver : Option View) :
    (s.calling kind receiver).Faithful := by
  let call : RedirectCall W := ⟨kind, receiver, s.forest⟩
  have hredirects : (s.calling kind receiver).redirects = (s.redirects.set s.forest kind receiver).1 := rfl
  have hself : (s.calling kind receiver).lastCall? kind = some call :=
    List.find?_cons_of_pos (by simp)
  have hother {other : EventKind} (hne : other ≠ kind) :
      (s.calling kind receiver).lastCall? other = s.lastCall? other :=
    List.find?_cons_of_neg (by simpa using Ne.symm hne)
  refine ⟨hs.reachable, ?_, fun entry hentry ↦ ?_, ?_⟩
  · exact List.forall_mem_cons.mpr ⟨⟨hs.reachable, .refl _⟩, hs.past⟩
  · rw [hredirects] at hentry
    rcases Redirects.mem_set hentry with ⟨hne, hold⟩ | ⟨hkind, hreceiver, hserial⟩
    · rw [hother hne]
      exact hs.called entry hold
    · exact ⟨call, hkind ▸ hself, hreceiver, hserial⟩
  · intro other found v serial hcall hreceiver hearly hlate
    rw [hredirects]
    by_cases hkind : other = kind
    · subst hkind
      obtain rfl : call = found := Option.some.inj (hself.symm.trans hcall)
      obtain rfl : receiver = some v := hreceiver
      exact Redirects.find?_set_self hearly
    · rw [hother hkind] at hcall
      exact Redirects.find?_set_of_ne receiver hkind
        (hs.kept other found v serial hcall hreceiver hearly hlate)

theorem of_acts (hs : s.Faithful) (h : Acts s t) : t.Faithful := by
  cases h with
  | forest hforest => exact hs.of_same rfl hforest rfl
  | redirect kind receiver => exact hs.calling kind receiver
  | besides => exact hs.of_same rfl (.refl _) rfl

theorem of_moves (hs : s.Faithful) (h : Moves s t) : t.Faithful := by
  cases h with
  | forest hstep => exact hs.of_same rfl ((Forest.Reaches.refl _).step hstep) rfl
  | take => exact hs.of_same rfl (.refl _) rfl
  | note => exact hs.of_same rfl (.refl _) rfl
  | prune =>
    refine hs.of_fewer rfl (.refl _) List.filter_sublist.subset fun kind redirect hfound hlive ↦ ?_
    exact Redirects.find?_filter hfound hlive
  | @forgo kind redirect hfound hdead =>
    refine hs.of_fewer rfl (.refl _) List.filter_sublist.subset fun other redirect' hfound' hlive ↦ ?_
    refine Redirects.find?_erase_of_ne ?_ hfound'
    rintro rfl
    rw [hfound, Option.some.injEq] at hfound'
    rw [← hfound', hdead] at hlive
    cases hlive

/-- A redirect is in force just if the last call named a view that has survived. -/
theorem target?_eq_some_iff (hs : s.Faithful) (kind : EventKind) (v : View) :
    s.redirects.target? s.forest kind = some v ↔
      ∃ call, s.lastCall? kind = some call ∧ call.receiver = some v ∧ call.forest.Survives v s.forest := by
  rw [Redirects.target?_eq_some_iff]
  constructor
  · rintro ⟨redirect, hfound, hlive, rfl⟩
    obtain ⟨call, hcall, hreceiver, hserial⟩ := hs.called _ (Redirects.mem_of_find? hfound)
    obtain ⟨hreach, hpast⟩ := hs.past call (mem_calls_of_lastCall? hcall)
    refine ⟨call, hcall, hreceiver, (Forest.survives_iff hreach hpast).mpr ⟨redirect.serial, hserial, ?_⟩⟩
    simpa [Redirect.isLive] using hlive
  · rintro ⟨call, hcall, hreceiver, hsurvives⟩
    obtain ⟨hreach, hpast⟩ := hs.past call (mem_calls_of_lastCall? hcall)
    obtain ⟨serial, hearly, hlate⟩ := (Forest.survives_iff hreach hpast).mp hsurvives
    refine ⟨⟨v, serial⟩, hs.kept kind call v serial hcall hreceiver hearly hlate, ?_, rfl⟩
    simp [Redirect.isLive, hlate]

end Faithful

theorem Reaches.faithful {s t : TracedDesk W D A} (h : Reaches s t) (hs : s.Faithful) : t.Faithful :=
  h.preserves (fun _ _ hs ↦ hs.of_acts) (fun _ _ hs ↦ hs.of_moves) hs

end Desk

/-! ## Routing by redirects -/

namespace Desk

/-- The last call for a kind named a view, and this very view is live still. -/
def InForce (s : TracedDesk W D A) (kind : EventKind) (v : View) : Prop :=
  ∃ call, s.lastCall? kind = some call ∧ call.receiver = some v ∧ call.forest.Survives v s.forest

/-- A desk on which a kind is not redirected. -/
def unredirected (s : Desk W D A) (kind : EventKind) (journal : Array Note) : Desk W D A :=
  { s with redirects := s.redirects.erase kind, ambient := { s.ambient with journal } }

end Desk

namespace Routing

theorem direct_of_free (conduct : HandlingConduct W D A) (steps : Nat) {s : Desk W D A} {e : Event}
    (h : s.redirects.find? e.kind = none) : direct conduct steps e s = toTarget conduct steps e s := by
  simp only [direct_eq, h]

/-- Without a live redirect an event is dispatched as if its kind were not redirected. At most it is noted
that a dead redirect is given up. -/
theorem dispatchEvent_of_uncaptured (conduct : HandlingConduct W D A) (steps : Nat) (root : View)
    {s : Desk W D A} {e : Event} (h : s.redirects.target? s.forest e.kind = none) :
    ∃ journal, dispatchEvent conduct steps root e s =
      dispatchEvent conduct steps root e (s.unredirected e.kind journal) := by
  cases hfound : s.redirects.find? e.kind with
  | none =>
    have hsame : s.unredirected e.kind s.ambient.journal = s := by
      have hentries : s.redirects.erase e.kind = s.redirects := by
        refine congrArg Redirects.mk (List.filter_eq_self.mpr fun entry hentry ↦ ?_)
        rw [bne_comm]
        exact List.lookup_eq_none_iff.mp hfound entry hentry
      rw [Desk.unredirected, hentries]
    exact ⟨s.ambient.journal, by rw [hsame]⟩
  | some redirect =>
    have hdead : redirect.isLive s.forest = false := by
      rw [Redirects.target?, hfound] at h
      by_contra hlive
      simp [hlive] at h
    let free := s.forgoing e.kind redirect
    have hfree : free.redirects.find? e.kind = none := s.redirects.find?_erase_self e.kind
    have hdirect : direct conduct steps e s = direct conduct steps e free := by
      rw [direct_of_free conduct steps hfree]
      simp only [direct_eq, hfound, hdead, Bool.false_eq_true, if_false]
      rfl
    refine ⟨free.ambient.journal, ?_⟩
    change dispatchEvent conduct steps root e s = dispatchEvent conduct steps root e free
    rw [dispatchEvent_eq, hdirect, dispatchEvent_eq]

/-- Whatever was done to a desk, a redirect is in force just if the last call for its kind named a view that
is live still, this very view and not a later one in its slot. Then events of the kind go to this view first.
Otherwise they are dispatched as if their kind were not redirected. -/
theorem redirects_follow_views {shared : A} {s : TracedDesk W D A} (h : (Desk.fresh shared).Reaches s)
    (kind : EventKind) :
    (∀ v, s.redirects.target? s.forest kind = some v ↔ s.InForce kind v) ∧
      ∀ (conduct : HandlingConduct W D (A × List (RedirectCall W))) (steps : Nat) (e : Event),
        e.kind = kind →
          (∀ v, s.InForce kind v →
            direct conduct steps e s = upwards conduct steps (some v) e e.target.toList s) ∧
          ((∀ v, ¬ s.InForce kind v) → ∀ root, ∃ journal,
            (s.unredirected kind journal).redirects.find? kind = none ∧
            dispatchEvent conduct steps root e s =
              dispatchEvent conduct steps root e (s.unredirected kind journal)) := by
  have hs : s.Faithful := h.faithful (Desk.faithful_fresh shared)
  refine ⟨hs.target?_eq_some_iff kind, ?_⟩
  rintro conduct steps e rfl
  refine ⟨fun v hforce ↦ direct_of_captor conduct steps ((hs.target?_eq_some_iff e.kind v).mpr hforce),
    fun hnone root ↦ ?_⟩
  have htarget : s.redirects.target? s.forest e.kind = none := by
    refine Option.eq_none_iff_forall_ne_some.mpr fun v hv ↦ ?_
    exact hnone v ((hs.target?_eq_some_iff e.kind v).mp hv)
  obtain ⟨journal, hjournal⟩ := dispatchEvent_of_uncaptured conduct steps root htarget
  exact ⟨journal, s.redirects.find?_erase_self e.kind, hjournal⟩

/-- In a pass a receiver destroys the view that captures resizing, and creates another one in its slot. The
new view captures nothing before a call names it. -/
theorem redirects_follow_views_reused : ∃ s : TracedDesk Unit Unit Unit, (Desk.fresh ()).Reaches s ∧
    s.forest.contains ⟨1⟩ = true ∧ (s.lastCall? .resize).bind (·.receiver) = some ⟨1⟩ ∧
    ¬ s.InForce .resize ⟨1⟩ ∧ s.InForce .move ⟨1⟩ := by
  let replace : Forest Unit → Except Halt (Forest Unit) := fun f ↦ do
    let f ← f.destroy ⟨1⟩
    return (f.create .zero).2
  let conduct : HandlingConduct Unit Unit (Unit × List (RedirectCall Unit)) := fun _ ↦ some fun _ e ↦ do
    Desk.onGrove (Grove.change replace)
    return ((), e)
  have hconduct : ∀ widget handle, conduct widget = some handle →
      ∀ v e t, Desk.Reaches t (Pass.final (handle v e t)) := by
    rintro widget handle ⟨⟩ v e t
    change t.Reaches (Pass.final ((Desk.onGrove (Grove.change replace) >>= fun _ ↦ pure ((), e)) t))
    have hrun := Desk.change_eq replace t
    cases hreplace : replace t.forest with
    | error halt =>
      rw [hreplace] at hrun
      rw [Pass.bind_of_error hrun]
      exact .refl t
    | ok f =>
      rw [hreplace] at hrun
      rw [Pass.bind_of_ok hrun]
      obtain ⟨g, hg, ⟨⟩⟩ := bind_eq_ok.mp hreplace
      exact .act (.refl t) (.forest t (((Forest.Reaches.refl _).step (.destroy hg)).step (.create g .zero)))
  let forest : Forest Unit := ((Forest.empty.create .zero).2.create .zero).2.modify ⟨2⟩ fun node ↦
    { node with widget := some () }
  have hforest : Forest.empty.Reaches forest :=
    (((Forest.Reaches.refl Forest.empty).step (.create _ .zero)).step (.create _ .zero)).step
      (.setWidget _ ⟨2⟩ (some ()))
  let start : TracedDesk Unit Unit Unit := { Desk.fresh () with forest }
  let called : TracedDesk Unit Unit Unit := start.calling .resize (some ⟨1⟩)
  let posted : TracedDesk Unit Unit Unit :=
    { called with queue := [(Event.closeRequest none).withTarget ⟨2⟩] }
  let passed : TracedDesk Unit Unit Unit := Pass.final (dispatch conduct 3 ⟨2⟩ posted)
  let s : TracedDesk Unit Unit Unit := passed.calling .move (some ⟨1⟩)
  have hposted : (Desk.fresh ()).Reaches posted :=
    (((Desk.Reaches.refl _).act (.forest _ hforest)).act (.redirect start .resize (some ⟨1⟩))).act
      (.besides called posted.queue [] #[] ())
  have hs : (Desk.fresh ()).Reaches s :=
    (hposted.dispatch hconduct 3 ⟨2⟩ posted).act (.redirect passed .move (some ⟨1⟩))
  have hresize := (redirects_follow_views hs .resize).1 ⟨1⟩
  have hmove := (redirects_follow_views hs .move).1 ⟨1⟩
  exact ⟨s, hs, by decide +kernel, by decide +kernel, mt hresize.mpr (by decide +kernel),
    hmove.mp (by decide +kernel)⟩

end Routing

end RetainedUi
