import RetainedUi.Proofs.Forest.Freeing
import RetainedUi.Proofs.Forest.Invariant
import RetainedUi.Proofs.Routing.Delivery
import RetainedUi.Proofs.Routing.Passes
import RetainedUi.Proofs.Routing.Survival

/-!
# Passes that come to their end

A walk upwards follows links that receivers may change while it is under way. It does not stop at views that have seen
the event, so the chain above it may get longer with every delivery. But no view is delivered to twice. If no receiver
creates views, then the live views that have not seen the event get fewer with each delivery, and between two
deliveries the forest stays as it is, where every chain of superviews ends. With n views, a walk takes at most n steps
to the next delivery or to its end, and there are at most n deliveries.

A pass ends when its queue is empty. If no receiver posts events, it has one round for each event that was queued. So
the pass comes to one and the same result, whatever bound is given to it beyond these.
-/

namespace RetainedUi

variable {W D A α β : Type}

namespace Forest

variable {f g h : Forest W} {v : View}

/-! ## Forests that get no new views -/

/-- The second forest is reached from the first one, and no view was created on the way. -/
structure Thins (f g : Forest W) : Prop where
  reaches : f.Reaches g
  lastSerial : g.lastSerial = f.lastSerial

/-- The live views that are not among those that have seen an event. -/
def unseen (f : Forest W) (seen : List View) : List View := f.views.filter (· ∉ seen)

theorem mem_unseen_iff {seen : List View} : v ∈ f.unseen seen ↔ f.contains v = true ∧ v ∉ seen := by
  simp [unseen, mem_views_iff]

namespace Thins

theorem refl (f : Forest W) : Thins f f := ⟨.refl f, rfl⟩

theorem trans (hfg : Thins f g) (hgh : Thins g h) : Thins f h :=
  ⟨hfg.reaches.trans hgh.reaches, hgh.lastSerial.trans hfg.lastSerial⟩

theorem setWidget (f : Forest W) (v : View) (widget : Option W) :
    Thins f (f.modify v fun node ↦ { node with widget }) :=
  ⟨(Reaches.refl f).step (.setWidget f v widget), lastSerial_modify f v _⟩

theorem leafViews {leaves : List Placed} (h : f.leafViews v = .ok (leaves, g)) : Thins f g :=
  ⟨(Reaches.refl f).step (.leafViews h), (alike_of_leafViews h).lastSerial.symm⟩

theorem removeFromSuperview (hf : f.WellFormed) (h : f.removeFromSuperview v = .ok g) : Thins f g := by
  have hreach : f.Reaches g := (Reaches.refl f).step (.removeFromSuperview h)
  obtain ⟨-, ⟨-, rfl⟩ | ⟨parent, -, frame, hrelinked⟩⟩ := removeFromSuperview_eq_ok h
  · exact .refl _
  · exact ⟨hreach, (alike_of_relinked hrelinked).lastSerial.symm.trans (by simp)⟩

/-- Adding a view to another one keeps all views. -/
theorem added (hf : f.WellFormed) (parent child : View) :
    Thins f (f.added parent child) ∧ ∀ w, (f.added parent child).contains w = f.contains w := by
  unfold Forest.added
  split
  case h_1 g hadd =>
    obtain ⟨-, -, -, -, frame, hrelinked⟩ := addView_eq_ok hf hadd
    have halike := alike_of_relinked hrelinked
    refine ⟨⟨(Reaches.refl f).step (.addView hadd), halike.lastSerial.symm.trans (by simp)⟩, fun w ↦ ?_⟩
    rw [← halike.contains, contains_link]
  case h_2 => exact ⟨.refl f, fun _ ↦ rfl⟩

variable (hfg : Thins f g) (hf : f.WellFormed)
include hfg hf

/-- Every view that is left was there before. -/
theorem contains (hv : g.contains v = true) : f.contains v = true := by
  obtain ⟨node, hnode⟩ := contains_iff.mp hv
  have hserial : g.serial? v = some node.serial := serial?_eq_some_iff.mpr ⟨node, hnode, rfl⟩
  rcases (hfg.reaches.renews hf).old_or_new v node.serial hserial with hold | hnew
  · obtain ⟨old, hold, -⟩ := serial?_eq_some_iff.mp hold
    exact contains_iff.mpr ⟨old, hold⟩
  · have hle := (hfg.reaches.wellFormed hf).serial_le v node.serial hserial
    rw [hfg.lastSerial] at hle
    exact absurd hle hnew.not_ge

theorem size_le : g.size ≤ f.size := by
  rw [(hfg.reaches.wellFormed hf).size_eq, hf.size_eq]
  refine (List.subperm_of_subset (nodup_views g) fun v hv ↦ ?_).length_le
  exact mem_views_iff.mpr (hfg.contains hf (mem_views_iff.mp hv))

/-- With every view that sees the event there are fewer left that have not. -/
theorem length_unseen_lt {seen : List View} (hv : f.contains v = true) (hnew : v ∉ seen) :
    (g.unseen (v :: seen)).length < (f.unseen seen).length := by
  have hnodup : (v :: g.unseen (v :: seen)).Nodup := by
    refine List.nodup_cons.mpr ⟨fun hmem ↦ ?_, (nodup_views g).filter _⟩
    exact (mem_unseen_iff.mp hmem).2 List.mem_cons_self
  have hsubset : v :: g.unseen (v :: seen) ⊆ f.unseen seen := by
    refine List.cons_subset.mpr ⟨mem_unseen_iff.mpr ⟨hv, hnew⟩, fun w hw ↦ ?_⟩
    obtain ⟨hlive, hout⟩ := mem_unseen_iff.mp hw
    exact mem_unseen_iff.mpr ⟨hfg.contains hf hlive, fun hmem ↦ hout (List.mem_cons_of_mem v hmem)⟩
  exact (List.subperm_of_subset hnodup hsubset).length_le

end Thins

theorem Ascends.length_le_size {start : Option View} {chain : List View} (h : f.Ascends start chain)
    (hf : f.WellFormed) : chain.length ≤ f.size := by
  rw [hf.size_eq]
  exact (List.subperm_of_subset (h.nodup hf) fun v hv ↦ mem_views_iff.mpr (h.contains v hv)).length_le

theorem WellFormed.length_unseen_le (hf : f.WellFormed) (seen : List View) : (f.unseen seen).length ≤ f.size := by
  rw [hf.size_eq]
  exact List.length_filter_le _ _

theorem WellFormed.size_pos (hf : f.WellFormed) (hv : f.contains v = true) : 0 < f.size := by
  rw [hf.size_eq]
  exact List.length_pos_of_mem (mem_views_iff.mpr hv)

/-- A walk upwards that starts at the superview of a view, if there is one. -/
theorem WellFormed.exists_ascends_superview (hf : f.WellFormed) (v : View) :
    ∃ chain, f.Ascends (f.superview? v) chain := by
  cases hup : f.superview? v with
  | none => exact ⟨[], .done⟩
  | some p => exact hf.exists_ascends (hf.contains_superview hup)

end Forest

namespace Routing

/-! ## Results that do not depend on the bound -/

/-- A run leaves the root alive and the queue as it was, and has created no views. If it halts, then for one of the
reasons in question. -/
def Keeps (P : Halt → Prop) (root : View) (s : Desk W D A) : EStateM.Result Halt (Desk W D A) α → Prop
  | .ok _ t => s.forest.Thins t.forest ∧ t.forest.contains root = true ∧ t.queue = s.queue
  | .error halt _ => P halt

/-- With every bound from the given one on, a run comes to the same result. -/
def Ends (P : Halt → Prop) (root : View) (s : Desk W D A) (bound : Nat)
    (run : Nat → EStateM.Result Halt (Desk W D A) α) : Prop :=
  ∃ result, Keeps P root s result ∧ ∀ steps, bound ≤ steps → run steps = result

/-- A pass leaves the root alive and the queue empty, and has dispatched every event that was queued. If it halts, then
for one of the reasons in question. -/
def Drained (P : Halt → Prop) (root : View) (s : Desk W D A) : EStateM.Result Halt (Desk W D A) (List Event) → Prop
  | .ok done t => s.forest.Thins t.forest ∧ t.forest.contains root = true ∧ t.queue = [] ∧
      done.length = s.queue.length
  | .error halt _ => P halt

/-- Receivers post no events, create no views and keep the root alive. They may rely on a well-formed forest in which
the root and their own view are alive, and halt for none but the reasons in question. -/
def Docile (P : Halt → Prop) (root : View) (conduct : HandlingConduct W D A) : Prop :=
  ∀ widget handle, conduct widget = some handle → ∀ v e s, s.forest.WellFormed → s.forest.contains root = true →
    s.forest.contains v = true → Keeps P root s (handle v e s)

section

variable {P : Halt → Prop} {root : View} {s t : Desk W D A} {bound : Nat}

theorem Keeps.done (answer : α) (hroot : s.forest.contains root = true) : Keeps P root s (.ok answer s) :=
  ⟨.refl s.forest, hroot, rfl⟩

/-- A run goes on from a desk that was reached before. -/
theorem Keeps.after {result : EStateM.Result Halt (Desk W D A) α} (hthins : s.forest.Thins t.forest)
    (hqueue : t.queue = s.queue) (h : Keeps P root t result) : Keeps P root s result := by
  cases result with
  | ok answer u => exact ⟨hthins.trans h.1, h.2.1, h.2.2.trans hqueue⟩
  | error halt u => exact h

namespace Ends

variable {run : Nat → EStateM.Result Halt (Desk W D A) α}

theorem of_eq {result : EStateM.Result Halt (Desk W D A) α} (hkeeps : Keeps P root s result)
    (hrun : ∀ steps, run steps = result) : Ends P root s bound run :=
  ⟨result, hkeeps, fun steps _ ↦ hrun steps⟩

theorem congr {run' : Nat → EStateM.Result Halt (Desk W D A) α} (h : Ends P root s bound run')
    (hrun : ∀ steps, run steps = run' steps) : Ends P root s bound run := by
  obtain ⟨result, hkeeps, hsteps⟩ := h
  exact ⟨result, hkeeps, fun steps hle ↦ (hrun steps).trans (hsteps steps hle)⟩

theorem succ (h : Ends P root s bound fun steps ↦ run (steps + 1)) : Ends P root s (bound + 1) run := by
  obtain ⟨result, hkeeps, hsteps⟩ := h
  refine ⟨result, hkeeps, fun steps hle ↦ ?_⟩
  obtain ⟨steps, rfl⟩ := Nat.exists_eq_succ_of_ne_zero (Nat.ne_of_gt (Nat.lt_of_lt_of_le bound.succ_pos hle))
  exact hsteps steps (Nat.le_of_succ_le_succ hle)

theorem mono {larger : Nat} (h : Ends P root s bound run) (hle : bound ≤ larger) : Ends P root s larger run := by
  obtain ⟨result, hkeeps, hsteps⟩ := h
  exact ⟨result, hkeeps, fun steps hlarger ↦ hsteps steps (hle.trans hlarger)⟩

/-- One run after another. The second one may rely on what the first one keeps. -/
theorem bind {first : Nat → EStateM.Result Halt (Desk W D A) β} (hfirst : Ends P root s bound first)
    (hf : s.forest.WellFormed) (next : β → Desk W D A → Nat → EStateM.Result Halt (Desk W D A) α)
    (hrun : ∀ steps, run steps = match first steps with
      | .ok answer t => next answer t steps
      | .error halt t => .error halt t)
    (hnext : ∀ answer t, t.forest.WellFormed → t.forest.contains root = true → s.forest.Thins t.forest →
      Ends P root t bound (next answer t)) : Ends P root s bound run := by
  obtain ⟨result, hkeeps, hsteps⟩ := hfirst
  cases result with
  | error halt t => exact ⟨.error halt t, hkeeps, fun steps hle ↦ by rw [hrun, hsteps steps hle]⟩
  | ok answer t =>
    obtain ⟨hthins, hroot, hqueue⟩ := hkeeps
    obtain ⟨last, hlast, hsteps'⟩ := hnext answer t (hthins.reaches.wellFormed hf) hroot hthins
    refine ⟨last, hlast.after hthins hqueue, fun steps hle ↦ ?_⟩
    rw [hrun, hsteps steps hle]
    exact hsteps' steps hle

end Ends

end

/-! ## The parts of a pass -/

section

variable {P : Halt → Prop} {root : View} {conduct : HandlingConduct W D A} (hdocile : Docile P root conduct)
include hdocile

theorem deliver_keeps {v : View} (e : Event) {s : Desk W D A} (hwell : s.forest.WellFormed)
    (hroot : s.forest.contains root = true) (hlive : s.forest.contains v = true) :
    Keeps P root s (deliver conduct v e s) := by
  obtain ⟨node, hnode⟩ := Forest.contains_iff.mp hlive
  rw [deliver_eq hnode]
  cases node.widget with
  | none => exact .done e hroot
  | some widget =>
    have htaken : s.forest.Thins (takeWidget s v).forest := .setWidget s.forest v none
    have hroot' : (takeWidget s v).forest.contains root = true := by simpa [takeWidget] using hroot
    have hlive' : (takeWidget s v).forest.contains v = true := by simpa [takeWidget] using hlive
    have hreceive : Keeps P root (takeWidget s v) (receive conduct widget v e (takeWidget s v)) := by
      unfold receive
      cases hhandle : conduct widget with
      | none => exact .done (widget, e) hroot'
      | some handle =>
        exact hdocile widget handle hhandle v e (takeWidget s v) (htaken.reaches.wellFormed hwell) hroot' hlive'
    refine .after htaken rfl ?_
    dsimp only
    cases hrun : receive conduct widget v e (takeWidget s v) with
    | error halt t =>
      rw [hrun] at hreceive
      exact hreceive
    | ok answer t =>
      rw [hrun] at hreceive
      obtain ⟨hthins, hroot, hqueue⟩ := hreceive
      have hback := undisturbed_putBack t v answer.1
      refine ⟨hthins.trans ⟨hback.reaches, ?_⟩, (hback.contains root).trans hroot, hqueue⟩
      exact Forest.lastSerial_modify t.forest v _

/-- The steps that are left for a walk. Every live view that has not seen the event stands for a chain of superviews
of the longest possible length. To go on upwards makes the present chain shorter. A delivery may lead to a new chain,
but takes one view off those that have not seen the event. -/
theorem upwards_ends_of_ascends {views left : Nat} {start : Option View} {chain : List View} (e : Event)
    (seen : List View) {s : Desk W D A} (hwell : s.forest.WellFormed) (hroot : s.forest.contains root = true)
    (hsize : s.forest.size ≤ views) (hchain : s.forest.Ascends start chain)
    (hleft : (s.forest.unseen seen).length * (views + 1) + chain.length ≤ left) :
    Ends P root s left fun steps ↦ upwards conduct steps start e seen s := by
  induction left generalizing start chain e seen s with
  | zero =>
    cases hchain with
    | done => exact .of_eq (.done (e, seen) hroot) fun steps ↦ by cases steps <;> rfl
    | step => simp at hleft
  | succ left ih =>
    cases hchain with
    | done => exact .of_eq (.done (e, seen) hroot) fun steps ↦ by cases steps <;> rfl
    | @step v node above hnode habove =>
      refine .succ ?_
      have hlive : s.forest.contains v = true := Forest.contains_iff.mpr ⟨node, hnode⟩
      cases hgoes : e.propagating with
      | false =>
        exact .of_eq (.done (e, seen) hroot) fun steps ↦ upwards_of_ended conduct steps (by rw [hgoes]; rfl) seen
      | true =>
        by_cases hseen : v ∈ seen
        · rw [← Forest.superview?_of_node? hnode] at habove
          rw [List.length_cons] at hleft
          refine (ih e seen hwell hroot hsize habove (by omega)).congr fun steps ↦ ?_
          rw [upwards_succ conduct steps seen hgoes hlive, if_pos (List.contains_iff_mem.mpr hseen)]
        · have hdeliver : Ends P root s left fun _ ↦ deliver conduct v e s :=
            .of_eq (deliver_keeps hdocile e hwell hroot hlive) fun _ ↦ rfl
          refine hdeliver.bind hwell (fun e' t steps ↦
            upwards conduct steps (t.forest.superview? v) e' (v :: seen) t) (fun steps ↦ ?_)
              fun e' t hwell' hroot' hthins ↦ ?_
          · rw [upwards_succ conduct steps seen hgoes hlive, if_neg (by simpa using hseen)]
            cases deliver conduct v e s <;> rfl
          · obtain ⟨higher, hhigher⟩ := hwell'.exists_ascends_superview v
            have hfewer := hthins.length_unseen_lt hwell hlive hseen
            have hsize' := (hthins.size_le hwell).trans hsize
            have hlength := (hhigher.length_le_size hwell').trans hsize'
            refine ih e' (v :: seen) hwell' hroot' hsize' hhigher (Nat.le_of_lt ?_)
            calc
              (t.forest.unseen (v :: seen)).length * (views + 1) + higher.length
                  ≤ (t.forest.unseen (v :: seen)).length * (views + 1) + views := by omega
              _ < ((t.forest.unseen (v :: seen)).length + 1) * (views + 1) := by rw [Nat.add_one_mul]; omega
              _ ≤ (s.forest.unseen seen).length * (views + 1) := Nat.mul_le_mul_right _ hfewer
              _ ≤ left := by rw [List.length_cons] at hleft; omega

/-- The most steps that a walk takes among so many views. -/
def walkSteps (views : Nat) : Nat := views * (views + 2)

/-- What a round does after its first phase: an event that goes on is offered to the leaves. -/
def toLeaves (conduct : HandlingConduct W D A) (steps : Nat) (root : View) (e : Event) (seen : List View) :
    Pass (Desk W D A) Event := fun s ↦
  if e.propagating then match s.forest.leafViews root with
    | .ok (leaves, f) => broadcast conduct steps (leaves.map (·.view)) e seen { s with forest := f }
    | .error halt => .error halt s
  else .ok e s

section

variable {views : Nat} {s : Desk W D A} (hwell : s.forest.WellFormed) (hroot : s.forest.contains root = true)
  (hsize : s.forest.size ≤ views)
include hwell hroot hsize

/-- A walk ends, wherever it starts, whatever the receivers do to the views above. -/
theorem upwards_ends (start : Option View) (e : Event) (seen : List View) :
    Ends P root s (walkSteps views) fun steps ↦ upwards conduct steps start e seen s := by
  cases start with
  | none => exact .of_eq (.done (e, seen) hroot) fun steps ↦ by cases steps <;> rfl
  | some v =>
    cases hlive : s.forest.contains v with
    | true =>
      obtain ⟨chain, hchain⟩ := hwell.exists_ascends hlive
      have hlength := (hchain.length_le_size hwell).trans hsize
      have hunseen := (hwell.length_unseen_le seen).trans hsize
      refine (upwards_ends_of_ascends hdocile e seen hwell hroot hsize hchain le_rfl).mono ?_
      calc
        (s.forest.unseen seen).length * (views + 1) + chain.length ≤ views * (views + 1) + views :=
          Nat.add_le_add (Nat.mul_le_mul_right _ hunseen) hlength
        _ = walkSteps views := by rw [walkSteps, Nat.mul_add, Nat.mul_add]; omega
    | false =>
      have hpos : 0 < walkSteps views := Nat.mul_pos ((hwell.size_pos hroot).trans_le hsize) (Nat.succ_pos _)
      obtain ⟨bound, hbound⟩ := Nat.exists_eq_succ_of_ne_zero hpos.ne'
      rw [hbound]
      refine .succ (.of_eq (.done (e, seen) hroot) fun steps ↦ upwards_of_ended conduct steps ?_ seen)
      rw [hlive, Bool.and_false]

omit hwell hroot hsize in
/-- Every leaf is offered the event by one walk. -/
theorem broadcast_ends (leaves : List View) (e : Event) (seen : List View) {s : Desk W D A}
    (hwell : s.forest.WellFormed) (hroot : s.forest.contains root = true) (hsize : s.forest.size ≤ views) :
    Ends P root s (walkSteps views) fun steps ↦ broadcast conduct steps leaves e seen s := by
  induction leaves generalizing e seen s with
  | nil => exact .of_eq (.done e hroot) fun _ ↦ rfl
  | cons leaf rest ih =>
    refine (upwards_ends hdocile hwell hroot hsize (some leaf) e seen).bind hwell
      (fun answer t steps ↦ if answer.1.propagating then broadcast conduct steps rest answer.1 answer.2 t
        else .ok answer.1 t) (fun steps ↦ ?_) fun answer t hwell' hroot' hthins ↦ ?_
    · rw [broadcast_cons]
      cases upwards conduct steps (some leaf) e seen s <;> rfl
    · cases hgoes : answer.1.propagating with
      | false => exact .of_eq (.done answer.1 hroot') fun _ ↦ rfl
      | true => exact ih answer.1 answer.2 hwell' hroot' ((hthins.size_le hwell).trans hsize)

theorem toTarget_ends (e : Event) :
    Ends P root s (walkSteps views) fun steps ↦ toTarget conduct steps e s := by
  unfold toTarget
  cases e.target with
  | none => exact .of_eq (.done (e, []) hroot) fun _ ↦ rfl
  | some target =>
    cases hlive : s.forest.contains target with
    | true =>
      refine (upwards_ends hdocile hwell hroot hsize (some target) e []).congr fun steps ↦ ?_
      dsimp only
      rw [Pass.bind_get, if_pos hlive]
    | false =>
      have hnoted : Keeps P root s (.ok (e, ([] : List View)) { s with
          ambient := s.ambient.note .warning .routing
            ("Event target " ++ target.valueText ++ " is not a live view, skipping it") }) :=
        ⟨.refl s.forest, hroot, rfl⟩
      refine .of_eq hnoted fun steps ↦ ?_
      dsimp only
      rw [Pass.bind_get, if_neg (by simp [hlive])]
      rfl

theorem direct_ends (e : Event) : Ends P root s (walkSteps views) fun steps ↦ direct conduct steps e s := by
  simp only [direct_eq]
  cases s.redirects.find? e.kind with
  | none => exact toTarget_ends hdocile hwell hroot hsize e
  | some redirect =>
    dsimp only
    split
    · exact upwards_ends hdocile hwell hroot hsize (some redirect.view) e e.target.toList
    · obtain ⟨result, hkeeps, hsteps⟩ :=
        toTarget_ends hdocile (s := s.forgoing e.kind redirect) hwell hroot hsize e
      exact ⟨result, hkeeps.after (.refl s.forest) rfl, hsteps⟩

omit hwell hroot hsize in
theorem toLeaves_ends (e : Event) (seen : List View) {s : Desk W D A} (hwell : s.forest.WellFormed)
    (hroot : s.forest.contains root = true) (hsize : s.forest.size ≤ views) :
    Ends P root s (walkSteps views) fun steps ↦ toLeaves conduct steps root e seen s := by
  cases hgoes : e.propagating with
  | false =>
    refine .of_eq (.done e hroot) fun steps ↦ ?_
    rw [toLeaves, if_neg (by simp [hgoes])]
  | true =>
    obtain ⟨leaves, f, hleaves⟩ := hwell.exists_leafViews hroot
    have hqueried : s.forest.Thins f := .leafViews hleaves
    have hroot' : f.contains root = true :=
      (((Forest.alike_of_leafViews hleaves).map Node.links).contains root).symm.trans hroot
    obtain ⟨result, hkeeps, hsteps⟩ := broadcast_ends hdocile (leaves.map (·.view)) e seen
      (s := { s with forest := f }) (hqueried.reaches.wellFormed hwell) hroot' ((hqueried.size_le hwell).trans hsize)
    have hkept : Keeps P root s result := Keeps.after (t := { s with forest := f }) hqueried rfl hkeeps
    refine ⟨result, hkept, fun steps hle ↦ ?_⟩
    simp only [toLeaves, hgoes, hleaves, if_true]
    exact hsteps steps hle

theorem dispatchEvent_ends (e : Event) :
    Ends P root s (walkSteps views) fun steps ↦ dispatchEvent conduct steps root e s := by
  refine (direct_ends hdocile hwell hroot hsize e).bind hwell
    (fun answer t steps ↦ toLeaves conduct steps root answer.1 answer.2 t) (fun steps ↦ ?_)
    fun answer t hwell' hroot' hthins ↦ ?_
  · rw [dispatchEvent_eq]
    cases direct conduct steps e s <;> rfl
  · exact toLeaves_ends hdocile answer.1 answer.2 hwell' hroot' ((hthins.size_le hwell).trans hsize)

end

omit hdocile in
/-- A pass with an event in the queue has a round for it and goes on from there. -/
theorem drain_cons {steps : Nat} {s : Desk W D A} {e : Event} {rest : List Event} (hqueue : s.queue = e :: rest)
    (events : Nat) : drain conduct steps root (events + 1) s =
      match dispatchEvent conduct steps root e { s with queue := rest } with
      | .ok e' t => match drain conduct steps root events t with
        | .ok done u => .ok (e' :: done) u
        | .error halt u => .error halt u
      | .error halt t => .error halt t := by
  cases hround : dispatchEvent conduct steps root e { s with queue := rest } with
  | error halt t => simp only [drain_succ, hqueue, hround]
  | ok e' t => cases hrest : drain conduct steps root events t <;> simp only [drain_succ, hqueue, hround, hrest]

/-- A pass has one round for each event in the queue. -/
theorem drain_ends {views : Nat} {queue : List Event} {s : Desk W D A} (hqueue : s.queue = queue)
    (hwell : s.forest.WellFormed) (hroot : s.forest.contains root = true) (hsize : s.forest.size ≤ views) :
    ∃ result : EStateM.Result Halt (Desk W D A) (List Event), Drained P root s result ∧
      ∀ steps events, walkSteps views ≤ steps → queue.length ≤ events →
        drain conduct steps root events s = result := by
  induction queue generalizing s with
  | nil =>
    refine ⟨.ok [] s, ⟨.refl s.forest, hroot, hqueue, by rw [hqueue]⟩, fun steps events _ _ ↦ ?_⟩
    cases events with
    | zero => rw [drain_zero, hqueue]; rfl
    | succ events => rw [drain_succ, hqueue]
  | cons e rest ih =>
    obtain ⟨first, hkeeps, hround⟩ : ∃ first, Keeps P root { s with queue := rest } first ∧ ∀ steps,
        walkSteps views ≤ steps → dispatchEvent conduct steps root e { s with queue := rest } = first :=
      dispatchEvent_ends hdocile (s := { s with queue := rest }) hwell hroot hsize e
    cases first with
    | error halt t =>
      refine ⟨.error halt t, hkeeps, fun steps events hsteps hevents ↦ ?_⟩
      obtain ⟨left, rfl⟩ := Nat.exists_eq_succ_of_ne_zero (Nat.ne_of_gt ((Nat.succ_pos _).trans_le hevents))
      rw [drain_cons hqueue, hround steps hsteps]
    | ok e' t =>
      obtain ⟨hthins, hroot', hqueue'⟩ := hkeeps
      obtain ⟨result, hdrained, hrest⟩ := ih hqueue' (hthins.reaches.wellFormed hwell) hroot'
        ((hthins.size_le hwell).trans hsize)
      refine ⟨match result with
        | .ok done u => .ok (e' :: done) u
        | .error halt u => .error halt u, ?_, fun steps events hsteps hevents ↦ ?_⟩
      · cases result with
        | error halt u => exact hdrained
        | ok done u =>
          obtain ⟨hthins', hroot'', hempty, hlength⟩ := hdrained
          refine ⟨hthins.trans hthins', hroot'', hempty, ?_⟩
          rw [List.length_cons, hlength, hqueue', hqueue, List.length_cons]
      · obtain ⟨left, rfl⟩ := Nat.exists_eq_succ_of_ne_zero (Nat.ne_of_gt ((Nat.succ_pos _).trans_le hevents))
        rw [drain_cons hqueue, hround steps hsteps]
        dsimp only
        rw [hrest steps left hsteps (Nat.le_of_succ_le_succ hevents)]
        cases result <;> rfl

/-- A pass over a well-formed forest with a live root ends, whatever docile receivers do to all other views: to every
bound that allows one round for each queued event, and for the steps that a walk among so many views may take, it comes
to the same result. It never runs out of the bound by itself. The queue is empty then, and every event has been
dispatched. -/
theorem dispatch_terminates {s : Desk W D A} (hwell : s.forest.WellFormed)
    (hroot : s.forest.contains root = true) :
    ∃ result, (∀ steps, walkSteps s.forest.size ≤ steps → s.queue.length ≤ steps →
        dispatch conduct steps root s = result) ∧
      match result with
      | .ok done t => t.queue = [] ∧ done.length = s.queue.length ∧ s.forest.Reaches t.forest ∧
          t.forest.contains root = true
      | .error halt _ => P halt := by
  obtain ⟨result, hdrained, hdrain⟩ := drain_ends hdocile (s := s.pruned) rfl hwell hroot le_rfl
  refine ⟨result, fun steps hsteps hevents ↦ hdrain steps steps hsteps hevents, ?_⟩
  cases result with
  | error halt t => exact hdrained
  | ok done t =>
    obtain ⟨hthins, hroot', hempty, hlength⟩ := hdrained
    exact ⟨hempty, hlength, hthins.reaches, hroot'⟩

end

/-! ## Receivers that keep moving their views -/

/-- The forest after a view is moved below the third one, or the third one below the fourth. If that would close a
chain, the view stays on its own. -/
def moved (f : Forest Unit) (v : View) : Forest Unit :=
  match f.removeFromSuperview v with
  | .ok g => g.added (if v = ⟨3⟩ then ⟨4⟩ else ⟨3⟩) v
  | .error _ => f

def moving : HandlingConduct Unit Unit Unit := fun _ ↦ some fun v e s ↦
  .ok ((), e) { s with forest := moved s.forest v }

theorem docile_moving : Docile (fun _ ↦ False) ⟨1⟩ moving := by
  rintro _ _ ⟨⟩ v e s hwell hroot -
  have hmoved : s.forest.Thins (moved s.forest v) ∧ (moved s.forest v).contains ⟨1⟩ = true := by
    unfold moved
    cases hremoved : s.forest.removeFromSuperview v with
    | error halt => exact ⟨.refl s.forest, hroot⟩
    | ok g =>
      have hdetached := Forest.Thins.removeFromSuperview hwell hremoved
      have hkept : g.contains ⟨1⟩ = true := (Forest.contains_removeFromSuperview hwell hremoved ⟨1⟩).trans hroot
      obtain ⟨hadded, hsame⟩ := Forest.Thins.added (hdetached.reaches.wellFormed hwell) (if v = ⟨3⟩ then ⟨4⟩ else ⟨3⟩) v
      exact ⟨hdetached.trans hadded, (hsame ⟨1⟩).trans hkept⟩
  exact ⟨hmoved.1, hmoved.2, rfl⟩

/-- The target of an event moves below another view, to which the walk goes on, and which then detaches itself. A leaf
moves below these two, so that its walk comes to both of them again. The pass ends. -/
theorem dispatch_terminates_moving : ∃ (s t : Desk Unit Unit Unit) (e : Event) (done : List Event),
    s.forest = standing ∧ s.queue = [e] ∧ e.target = some ⟨3⟩ ∧ s.forest.size = 4 ∧
      [⟨2⟩, ⟨3⟩, ⟨4⟩].map s.forest.superview? = [some ⟨1⟩, some ⟨2⟩, some ⟨1⟩] ∧
      dispatch moving 24 ⟨1⟩ s = .ok done t ∧ t.queue = [] ∧ done.length = 1 ∧ t.forest.contains ⟨1⟩ = true ∧
      [⟨2⟩, ⟨3⟩, ⟨4⟩].map t.forest.superview? = [some ⟨3⟩, some ⟨4⟩, none] := by
  let e : Event := (Event.closeRequest none).withTarget ⟨3⟩
  let s : Desk Unit Unit Unit :=
    { forest := standing, queue := [e], redirects := .empty, deferred := [], ambient := ⟨#[], ()⟩ }
  have hforest : s.forest = standing := rfl
  have hwell : s.forest.WellFormed := hforest ▸ Forest.reachable_wellFormed reaches_standing
  have hroot : s.forest.contains ⟨1⟩ = true := by decide +kernel
  have hsize : s.forest.size = 4 := by decide +kernel
  have hbefore : [⟨2⟩, ⟨3⟩, ⟨4⟩].map s.forest.superview? = [some ⟨1⟩, some ⟨2⟩, some ⟨1⟩] := by decide +kernel
  have hafter : (match dispatch moving 24 ⟨1⟩ s with
      | .ok _ t => [⟨2⟩, ⟨3⟩, ⟨4⟩].map t.forest.superview?
      | .error _ _ => []) = [some ⟨3⟩, some ⟨4⟩, none] := by decide +kernel
  have hqueue : s.queue = [e] := rfl
  clear_value s
  obtain ⟨result, hresult, hend⟩ := dispatch_terminates docile_moving hwell hroot
  rw [hsize, hqueue] at hresult
  have hrun : dispatch moving 24 ⟨1⟩ s = result := hresult 24 (by decide) (by decide)
  cases result with
  | error halt t => exact hend.elim
  | ok done t =>
    obtain ⟨hempty, hlength, -, hroot'⟩ := hend
    rw [hrun] at hafter
    exact ⟨s, t, e, done, hforest, hqueue, rfl, hsize, hbefore, hrun, hempty, by rw [hlength, hqueue]; rfl, hroot',
      hafter⟩

end Routing

end RetainedUi
