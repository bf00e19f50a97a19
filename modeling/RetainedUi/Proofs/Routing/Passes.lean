import RetainedUi.Proofs.Forest.Reachable
import RetainedUi.Proofs.Routing.Receipts

/-!
# What a pass does by itself

A pass runs receivers, of which nothing is known. By itself it takes events from the queue, takes widgets
out and puts them back, asks for the leaves of its root, gives up redirects to destroyed views, and notes
some of this in the journal. Hence a preorder on desks that these moves and the receivers respect is
respected by the whole pass, and by every part of it.

A pass goes in rounds, one for each event that it takes from the queue.
-/

namespace RetainedUi

variable {W D A α : Type}

namespace Desk

/-- The desk after the redirects to destroyed views are given up. -/
def pruned (s : Desk W D A) : Desk W D A :=
  let (redirects, notes) := s.redirects.prune s.forest
  { s with redirects, ambient := s.ambient.noteAll notes }

/-- The desk after one redirect is given up. -/
def forgoing (s : Desk W D A) (kind : EventKind) (redirect : Redirect) : Desk W D A :=
  { s with
    redirects := s.redirects.erase kind
    ambient := s.ambient.note .warning .routing (Redirects.droppedText kind redirect) }

/-- What a pass does between two receivers. -/
inductive Moves : Desk W D A → Desk W D A → Prop where
  | forest (s : Desk W D A) {f : Forest W} (h : Forest.Step s.forest f) : Moves s { s with forest := f }
  | take (s : Desk W D A) {e : Event} {rest : List Event} (h : s.queue = e :: rest) :
      Moves s { s with queue := rest }
  | note (s : Desk W D A) (level : Level) (text : String) :
      Moves s { s with ambient := s.ambient.note level .routing text }
  | prune (s : Desk W D A) : Moves s s.pruned
  | forgo (s : Desk W D A) {kind : EventKind} {redirect : Redirect}
      (hfound : s.redirects.find? kind = some redirect) (hdead : redirect.isLive s.forest = false) :
      Moves s (s.forgoing kind redirect)

end Desk

namespace Routing

/-- An event that a pass takes from the queue, and the desk on which it is dispatched. -/
structure Round (W D A : Type) where
  event : Event
  desk : Desk W D A

/-- The rounds of a pass. A halt ends the last one. -/
def rounds (conduct : HandlingConduct W D A) (steps : Nat) (root : View) :
    Nat → Desk W D A → List (Round W D A)
  | 0, _ => []
  | events + 1, s =>
    match s.queue with
    | [] => []
    | e :: rest =>
      let start := { s with queue := rest }
      ⟨e, start⟩ :: match dispatchEvent conduct steps root e start with
        | .ok _ t => rounds conduct steps root events t
        | .error _ _ => []

/-! ## The parts of a pass as equations -/

section

variable (conduct : HandlingConduct W D A) (steps : Nat) (root : View)

theorem direct_eq (e : Event) (s : Desk W D A) :
    direct conduct steps e s = match s.redirects.find? e.kind with
      | none => toTarget conduct steps e s
      | some redirect =>
        if redirect.isLive s.forest then upwards conduct steps (some redirect.view) e e.target.toList s
        else toTarget conduct steps e (s.forgoing e.kind redirect) := by
  unfold direct
  rw [Pass.bind_get]
  cases s.redirects.find? e.kind with
  | none => rfl
  | some redirect =>
    dsimp only
    rw [Pass.bind_get]
    cases redirect.isLive s.forest <;> rfl

theorem deliver_of_dead {v : View} {s : Desk W D A} (hdead : s.forest.node? v = none) (e : Event) :
    deliver conduct v e s = .error (.deadView v) s := by
  have hread : (Desk.onGrove (Grove.ask fun f ↦ f.read v) : Pass (Desk W D A) (Node W)) s =
      .error (.deadView v) s := by
    rw [Desk.ask_eq, Forest.read, hdead]
  unfold deliver
  exact Pass.bind_of_error hread

/-- A walk ends when the event is stopped and at a dead view. -/
theorem upwards_of_ended {v : View} {e : Event} {s : Desk W D A}
    (hended : (e.propagating && s.forest.contains v) = false) (seen : List View) :
    upwards conduct (steps + 1) (some v) e seen s = .ok (e, seen) s := by
  have hreturns : (!e.propagating || !s.forest.contains v) = true := by
    rw [← Bool.not_and, hended, Bool.not_false]
  unfold upwards
  rw [Pass.bind_get, if_pos hreturns]
  rfl

/-- A walk delivers to a live view that has not seen the event, and goes on at its superview. -/
theorem upwards_succ {v : View} {e : Event} (seen : List View) {s : Desk W D A}
    (hgoes : e.propagating = true) (hlive : s.forest.contains v = true) :
    upwards conduct (steps + 1) (some v) e seen s =
      if seen.contains v then upwards conduct steps (s.forest.superview? v) e seen s
      else match deliver conduct v e s with
        | .ok e' t => upwards conduct steps (t.forest.superview? v) e' (v :: seen) t
        | .error halt t => .error halt t := by
  rw [upwards, Pass.bind_get, hgoes, hlive]
  cases hseen : seen.contains v with
  | true => rfl
  | false =>
    cases hdeliver : deliver conduct v e s with
    | ok e' t => exact (Pass.bind_of_ok hdeliver).trans rfl
    | error halt t => exact Pass.bind_of_error hdeliver

theorem broadcast_cons (leaf : View) (rest : List View) (e : Event) (seen : List View) (s : Desk W D A) :
    broadcast conduct steps (leaf :: rest) e seen s = match upwards conduct steps (some leaf) e seen s with
      | .ok (e', seen') t =>
        if e'.propagating then broadcast conduct steps rest e' seen' t else .ok e' t
      | .error halt t => .error halt t := by
  rw [broadcast]
  cases hrun : upwards conduct steps (some leaf) e seen s with
  | error halt t => exact Pass.bind_of_error hrun
  | ok answer t =>
    rw [Pass.bind_of_ok hrun]
    cases hgoes : answer.1.propagating <;> simp only [hgoes] <;> rfl

/-- After the first phase an event that goes on is offered to the leaves that the root has by then. -/
theorem dispatchEvent_eq (e : Event) (s : Desk W D A) :
    dispatchEvent conduct steps root e s = match direct conduct steps e s with
      | .ok (e', seen) t =>
        if e'.propagating then match t.forest.leafViews root with
          | .ok (leaves, f) => broadcast conduct steps (leaves.map (·.view)) e' seen { t with forest := f }
          | .error halt => .error halt t
        else .ok e' t
      | .error halt t => .error halt t := by
  unfold dispatchEvent
  cases hrun : direct conduct steps e s with
  | error halt t => exact Pass.bind_of_error hrun
  | ok answer t =>
    rw [Pass.bind_of_ok hrun]
    cases hgoes : answer.1.propagating with
    | false =>
      simp only [hgoes]
      rfl
    | true =>
      have hquery := Desk.changeAsk_eq (fun f ↦ f.leafViews root) t
      simp only [hgoes, Bool.not_true, Bool.false_eq_true, if_false, if_true]
      cases hleaves : t.forest.leafViews root with
      | error halt =>
        rw [hleaves] at hquery
        exact Pass.bind_of_error hquery
      | ok found =>
        rw [hleaves] at hquery
        exact Pass.bind_of_ok hquery

theorem drain_zero (s : Desk W D A) :
    drain conduct steps root 0 s = if s.queue.isEmpty then .ok [] s else .error .exhausted s := by
  rw [drain, Pass.bind_get]
  split <;> rfl

theorem drain_succ (events : Nat) (s : Desk W D A) :
    drain conduct steps root (events + 1) s = match s.queue with
      | [] => .ok [] s
      | e :: rest => match dispatchEvent conduct steps root e { s with queue := rest } with
        | .ok e' t => match drain conduct steps root events t with
          | .ok done u => .ok (e' :: done) u
          | .error halt u => .error halt u
        | .error halt t => .error halt t := by
  rw [drain, Pass.bind_get]
  cases s.queue with
  | nil => rfl
  | cons e rest =>
    have htake : (modify fun s ↦ { s with queue := rest } : Pass (Desk W D A) PUnit) s =
        .ok ⟨⟩ { s with queue := rest } := rfl
    dsimp only
    rw [Pass.bind_of_ok htake]
    cases hrun : dispatchEvent conduct steps root e { s with queue := rest } with
    | error halt t => rw [Pass.bind_of_error hrun]
    | ok e' t =>
      rw [Pass.bind_of_ok hrun]
      dsimp only
      cases hrest : drain conduct steps root events t with
      | ok done u => exact Pass.bind_of_ok hrest
      | error halt u => exact Pass.bind_of_error hrest

theorem final_drain_succ (events : Nat) (s : Desk W D A) :
    Pass.final (drain conduct steps root (events + 1) s) = match s.queue with
      | [] => s
      | e :: rest => match dispatchEvent conduct steps root e { s with queue := rest } with
        | .ok _ t => Pass.final (drain conduct steps root events t)
        | .error _ t => t := by
  rw [drain_succ]
  cases s.queue with
  | nil => rfl
  | cons e rest =>
    dsimp only
    cases dispatchEvent conduct steps root e { s with queue := rest } with
    | error halt t => rfl
    | ok e' t =>
      dsimp only
      cases drain conduct steps root events t <;> rfl

theorem final_drain_zero (s : Desk W D A) : Pass.final (drain conduct steps root 0 s) = s := by
  rw [drain_zero]
  split <;> rfl

/-- A pass that ends is over when the queue is empty. Otherwise it has had a round and has gone on from there. -/
theorem drain_succ_eq_ok {events : Nat} {s t : Desk W D A} {done : List Event}
    (h : drain conduct steps root (events + 1) s = .ok done t) :
    s.queue = [] ∧ t = s ∧ rounds conduct steps root (events + 1) s = [] ∨
      ∃ e rest e' u done', s.queue = e :: rest ∧
        dispatchEvent conduct steps root e { s with queue := rest } = .ok e' u ∧
        drain conduct steps root events u = .ok done' t ∧
        rounds conduct steps root (events + 1) s =
          ⟨e, { s with queue := rest }⟩ :: rounds conduct steps root events u := by
  rw [drain_succ] at h
  rw [rounds]
  cases hqueue : s.queue with
  | nil =>
    rw [hqueue] at h
    cases h
    exact .inl ⟨rfl, rfl, rfl⟩
  | cons e rest =>
    rw [hqueue] at h
    dsimp only at h ⊢
    cases hrun : dispatchEvent conduct steps root e { s with queue := rest } with
    | error halt u =>
      rw [hrun] at h
      cases h
    | ok e' u =>
      rw [hrun] at h
      dsimp only at h
      cases hrest : drain conduct steps root events u with
      | error halt v =>
        rw [hrest] at h
        cases h
      | ok done' v =>
        rw [hrest] at h
        cases h
        exact .inr ⟨e, rest, e', u, done', rfl, hrun, hrest, rfl⟩

/-- A pass that ends leaves no event in the queue. -/
theorem queue_of_drain_eq_ok {events : Nat} {s t : Desk W D A} {done : List Event}
    (h : drain conduct steps root events s = .ok done t) : t.queue = [] := by
  induction events generalizing s done with
  | zero =>
    rw [drain_zero] at h
    split at h
    case isTrue hempty =>
      cases h
      exact List.isEmpty_iff.mp hempty
    case isFalse => cases h
  | succ events ih =>
    rcases drain_succ_eq_ok conduct steps root h with ⟨hqueue, rfl, -⟩ | ⟨_, _, _, _, _, -, -, hrest, -⟩
    · exact hqueue
    · exact ih hrest

theorem dispatch_eq (s : Desk W D A) :
    dispatch conduct steps root s = drain conduct steps root steps s.pruned := rfl

end

/-! ## What a pass carries -/

section

variable {τ : Type} {part : Desk W D A → τ} {R : τ → τ → Prop} [IsPreorder τ R]
variable {conduct : HandlingConduct W D A}

theorem carries_ask (question : Forest W → Except Halt α) :
    Pass.Carries part R (Desk.onGrove (Grove.ask question) : Pass (Desk W D A) α) := by
  intro s
  rw [Desk.ask_eq]
  cases question s.forest <;> exact refl_of R (part s)

section

variable (hmoves : ∀ s t, Desk.Moves s t → t.queue = s.queue → R (part s) (part t))
include hmoves

theorem carries_change {step : Forest W → Except Halt (Forest W)}
    (hstep : ∀ f g, step f = .ok g → Forest.Step f g) :
    Pass.Carries part R (Desk.onGrove (Grove.change step) : Pass (Desk W D A) Unit) := by
  intro s
  rw [Desk.change_eq]
  cases hrun : step s.forest with
  | ok f => exact hmoves _ _ (.forest s (hstep s.forest f hrun)) rfl
  | error halt => exact refl_of R (part s)

theorem carries_changeAsk {step : Forest W → Except Halt (α × Forest W)}
    (hstep : ∀ f a g, step f = .ok (a, g) → Forest.Step f g) :
    Pass.Carries part R (Desk.onGrove (Grove.changeAsk step) : Pass (Desk W D A) α) := by
  intro s
  rw [Desk.changeAsk_eq]
  cases hrun : step s.forest with
  | ok answer => exact hmoves _ _ (.forest s (hstep s.forest answer.1 answer.2 hrun)) rfl
  | error halt => exact refl_of R (part s)

/-! The dispatch of one event. A property that receivers cannot take away from the event is one that every
receiver may rely on. -/

variable {Q : Event → Prop} (hkept : ∀ e answer, Q e → Q (e.amended answer))
variable (hconduct : ∀ widget handle, conduct widget = some handle →
  ∀ v e, Q e → Pass.Carries part R (handle v e))
include hkept hconduct

theorem carriesTo_deliver (v : View) {e : Event} (he : Q e) : Pass.CarriesTo part R Q (deliver conduct v e) := by
  have hback (answer : W × Event) : Pass.CarriesTo part R Q (do
      Desk.onGrove (Grove.change fun f ↦ .ok (f.modify v fun node ↦
        { node with widget := some (node.widget.getD answer.1) }))
      return e.amended answer.2 : Pass (Desk W D A) Event) := by
    have hput : Pass.Carries part R (Desk.onGrove (Grove.change fun f ↦ .ok (f.modify v fun node ↦
        { node with widget := some (node.widget.getD answer.1) })) : Pass (Desk W D A) Unit) := by
      refine carries_change hmoves fun f g h ↦ ?_
      have hsame : f.modify v (fun node ↦ { node with widget := some (node.widget.getD answer.1) }) =
          f.modify v fun node ↦ { node with widget := some ((f.widget? v).getD answer.1) } :=
        Forest.modify_congr fun node hnode ↦ by simp [Forest.widget?, hnode]
      cases h
      rw [hsame]
      exact .setWidget f v _
    exact Pass.carriesTo_bind hput.to fun _ _ ↦ Pass.carriesTo_pure (hkept e answer.2 he)
  unfold deliver
  refine Pass.carriesTo_bind (carries_ask _).to fun node _ ↦ ?_
  cases node.widget with
  | none => exact Pass.carriesTo_pure he
  | some widget =>
    have htake : Pass.Carries part R (Desk.onGrove (Grove.change fun f ↦
        f.update v fun node ↦ { node with widget := none }) : Pass (Desk W D A) Unit) :=
      carries_change hmoves fun f g h ↦ (Forest.tends_setWidget h).step
    refine Pass.carriesTo_bind htake.to fun _ _ ↦ ?_
    cases hhandle : conduct widget with
    | none => exact Pass.carriesTo_bind (Pass.carries_pure (widget, e)).to fun answer _ ↦ hback answer
    | some handle =>
      exact Pass.carriesTo_bind (hconduct widget handle hhandle v e he).to fun answer _ ↦ hback answer

theorem carriesTo_upwards (steps : Nat) (start : Option View) {e : Event} (he : Q e) (seen : List View) :
    Pass.CarriesTo part R (fun answer ↦ Q answer.1) (upwards conduct steps start e seen) := by
  induction steps generalizing start e seen with
  | zero =>
    cases start with
    | none => exact Pass.carriesTo_pure he
    | some v => exact Pass.carriesTo_throw _
  | succ steps ih =>
    cases start with
    | none => exact Pass.carriesTo_pure he
    | some v =>
      have hrest {e : Event} (he : Q e) (seen : List View) : Pass.CarriesTo part R (fun answer ↦ Q answer.1) (do
          let above := ((← get).forest.node? v).bind (·.superview)
          upwards conduct steps above e seen) :=
        Pass.carriesTo_bind Pass.carries_get.to fun s _ ↦ ih _ he seen
      unfold upwards
      refine Pass.carriesTo_bind Pass.carries_get.to fun s _ ↦ ?_
      split
      · exact Pass.carriesTo_pure he
      · split
        · exact hrest he seen
        · exact Pass.carriesTo_bind (carriesTo_deliver hmoves hkept hconduct v he) fun e' he' ↦
            hrest he' (v :: seen)

theorem carriesTo_broadcast (steps : Nat) (leaves : List View) {e : Event} (he : Q e) (seen : List View) :
    Pass.CarriesTo part R Q (broadcast conduct steps leaves e seen) := by
  induction leaves generalizing e seen with
  | nil => exact Pass.carriesTo_pure he
  | cons leaf rest ih =>
    unfold broadcast
    refine Pass.carriesTo_bind (carriesTo_upwards hmoves hkept hconduct steps (some leaf) he seen) ?_
    rintro ⟨e', seen'⟩ he'
    dsimp only
    split
    · exact ih he' seen'
    · exact Pass.carriesTo_pure he'

theorem carriesTo_toTarget (steps : Nat) {e : Event} (he : Q e) :
    Pass.CarriesTo part R (fun answer ↦ Q answer.1) (toTarget conduct steps e) := by
  unfold toTarget
  cases e.target with
  | none => exact Pass.carriesTo_pure he
  | some target =>
    refine Pass.carriesTo_bind Pass.carries_get.to fun s _ ↦ ?_
    split
    · exact carriesTo_upwards hmoves hkept hconduct steps (some target) he []
    · have hnote : Pass.Carries part R (Desk.note .warning ("Event target " ++ target.valueText ++
          " is not a live view, skipping it") : Pass (Desk W D A) Unit) := fun s ↦ hmoves _ _ (.note s _ _) rfl
      exact Pass.carriesTo_bind hnote.to fun _ _ ↦ Pass.carriesTo_pure he

theorem carriesTo_direct (steps : Nat) {e : Event} (he : Q e) :
    Pass.CarriesTo part R (fun answer ↦ Q answer.1) (direct conduct steps e) := by
  have htarget := carriesTo_toTarget hmoves hkept hconduct steps he
  have hcaptor (redirect : Redirect) :=
    carriesTo_upwards hmoves hkept hconduct steps (some redirect.view) he e.target.toList
  constructor
  · intro s
    rw [direct_eq]
    split
    · exact htarget.1 s
    case _ redirect hfound =>
      split
      case isTrue => exact (hcaptor redirect).1 s
      case isFalse hdead =>
        have hforgo := hmoves _ _ (.forgo s hfound (Bool.eq_false_of_not_eq_true hdead)) rfl
        exact trans_of R hforgo (htarget.1 _)
  · intro s answer t hrun
    rw [direct_eq] at hrun
    split at hrun
    · exact htarget.2 _ _ _ hrun
    · split at hrun
      · exact (hcaptor _).2 _ _ _ hrun
      · exact htarget.2 _ _ _ hrun

theorem carriesTo_dispatchEvent (steps : Nat) (root : View) {e : Event} (he : Q e) :
    Pass.CarriesTo part R Q (dispatchEvent conduct steps root e) := by
  unfold dispatchEvent
  refine Pass.carriesTo_bind (carriesTo_direct hmoves hkept hconduct steps he) ?_
  rintro ⟨e', seen⟩ he'
  dsimp only
  split
  · exact Pass.carriesTo_pure he'
  · have hleaves : Pass.Carries part R (Desk.onGrove (Grove.changeAsk fun f ↦ f.leafViews root) :
        Pass (Desk W D A) _) := carries_changeAsk hmoves fun f leaves g h ↦ .leafViews h
    exact Pass.carriesTo_bind hleaves.to fun leaves _ ↦ carriesTo_broadcast hmoves hkept hconduct steps _ he' seen

end

/-! Whole passes, whatever the events are. -/

variable (hmoves : ∀ s t, Desk.Moves s t → R (part s) (part t))
include hmoves

variable (hconduct : ∀ widget handle, conduct widget = some handle →
  ∀ v e, Pass.Carries part R (handle v e))
include hconduct

theorem carries_upwards (steps : Nat) (start : Option View) (e : Event) (seen : List View) :
    Pass.Carries part R (upwards conduct steps start e seen) :=
  (carriesTo_upwards (Q := fun _ ↦ True) (fun s t h _ ↦ hmoves s t h) (fun _ _ _ ↦ trivial)
    (fun widget handle h v e _ ↦ hconduct widget handle h v e) steps start trivial seen).1

theorem carries_broadcast (steps : Nat) (leaves : List View) (e : Event) (seen : List View) :
    Pass.Carries part R (broadcast conduct steps leaves e seen) :=
  (carriesTo_broadcast (Q := fun _ ↦ True) (fun s t h _ ↦ hmoves s t h) (fun _ _ _ ↦ trivial)
    (fun widget handle h v e _ ↦ hconduct widget handle h v e) steps leaves trivial seen).1

theorem carries_dispatchEvent (steps : Nat) (root : View) (e : Event) :
    Pass.Carries part R (dispatchEvent conduct steps root e) :=
  (carriesTo_dispatchEvent (Q := fun _ ↦ True) (fun s t h _ ↦ hmoves s t h) (fun _ _ _ ↦ trivial)
    (fun widget handle h v e _ ↦ hconduct widget handle h v e) steps root trivial).1

theorem carries_drain (steps : Nat) (root : View) (events : Nat) :
    Pass.Carries part R (drain conduct steps root events) := by
  induction events with
  | zero =>
    intro s
    rw [final_drain_zero]
    exact refl_of R (part s)
  | succ events ih =>
    intro s
    rw [final_drain_succ]
    cases hqueue : s.queue with
    | nil => exact refl_of R (part s)
    | cons e rest =>
      have htaken := hmoves _ _ (.take s hqueue)
      have hrun := carries_dispatchEvent hmoves hconduct steps root e { s with queue := rest }
      dsimp only
      cases hresult : dispatchEvent conduct steps root e { s with queue := rest } with
      | error halt t =>
        rw [hresult] at hrun
        exact trans_of R htaken hrun
      | ok e' t =>
        rw [hresult] at hrun
        exact trans_of R (trans_of R htaken hrun) (ih t)

/-- A pass carries what its own moves and the receivers carry. -/
theorem carries_dispatch (steps : Nat) (root : View) :
    Pass.Carries part R (dispatch conduct steps root) := by
  intro s
  rw [dispatch_eq]
  exact trans_of R (hmoves _ _ (.prune s)) (carries_drain hmoves hconduct steps root steps s.pruned)

/-- So does every beginning of a pass that ends where an event is taken from the queue. -/
theorem carries_rounds (steps : Nat) (root : View) (events : Nat) (s : Desk W D A) :
    ∀ round ∈ rounds conduct steps root events s, R (part s) (part round.desk) := by
  induction events generalizing s with
  | zero => simp [rounds]
  | succ events ih =>
    unfold rounds
    cases hqueue : s.queue with
    | nil => simp
    | cons e rest =>
      have htaken := hmoves _ _ (.take s hqueue)
      refine List.forall_mem_cons.mpr ⟨htaken, fun round hround ↦ ?_⟩
      have hrun := carries_dispatchEvent hmoves hconduct steps root e { s with queue := rest }
      cases hresult : dispatchEvent conduct steps root e { s with queue := rest } with
      | error halt t => simp [hresult] at hround
      | ok e' t =>
        rw [hresult] at hrun hround
        exact trans_of R (trans_of R htaken hrun) (ih t round hround)

end

end Routing

end RetainedUi
