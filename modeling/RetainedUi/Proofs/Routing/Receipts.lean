import RetainedUi.Proofs.Pass
import RetainedUi.Routing.Dispatch

/-!
# Receipts

To speak of the receivers that are run for an event, each of them leaves a receipt: the view, the event
as it was received, and the receiver's answer, if it came to one. The receipts are kept beside the state
that widgets share, where nothing looks at them.

A dispatch with receipts is the dispatch without them, once they are dropped. The same is true of any other log
that receivers keep in that place.
-/

namespace RetainedUi

/-- The trace of one run of a receiver. -/
structure Receipt where
  view : View
  event : Event
  answer : Option Event

variable {W D A L α β : Type}

namespace Ambient

def plain (a : Ambient (A × L)) : Ambient A := { journal := a.journal, shared := a.shared.1 }

end Ambient

namespace Desk

def receipts (s : Desk W D (A × List Receipt)) : List Receipt := s.ambient.shared.2

/-- A desk without its receipts, or without another log. -/
def plain (s : Desk W D (A × L)) : Desk W D A := { s with ambient := s.ambient.plain }

/-- A desk with receipts. -/
def withReceipts (s : Desk W D A) (receipts : List Receipt) : Desk W D (A × List Receipt) :=
  { s with ambient := { s.ambient with shared := (s.ambient.shared, receipts) } }

theorem ask_eq (question : Forest W → Except Halt α) (s : Desk W D A) :
    (onGrove (Grove.ask question) : Pass (Desk W D A) α) s =
      match question s.forest with
      | .ok answer => .ok answer s
      | .error halt => .error halt s := by
  unfold onGrove Grove.ask
  rw [Pass.bind_get]
  cases question s.forest <;> rfl

theorem change_eq (step : Forest W → Except Halt (Forest W)) (s : Desk W D A) :
    (onGrove (Grove.change step) : Pass (Desk W D A) Unit) s =
      match step s.forest with
      | .ok forest => .ok () { s with forest }
      | .error halt => .error halt s := by
  unfold onGrove Grove.change
  cases step s.forest <;> rfl

theorem changeAsk_eq (step : Forest W → Except Halt (α × Forest W)) (s : Desk W D A) :
    (onGrove (Grove.changeAsk step) : Pass (Desk W D A) α) s =
      match step s.forest with
      | .ok (answer, forest) => .ok answer { s with forest }
      | .error halt => .error halt s := by
  unfold onGrove Grove.changeAsk
  cases step s.forest <;> rfl

@[simp]
theorem forest_plain (s : Desk W D (A × L)) : s.plain.forest = s.forest := rfl

@[simp]
theorem redirects_plain (s : Desk W D (A × L)) : s.plain.redirects = s.redirects := rfl

@[simp]
theorem queue_plain (s : Desk W D (A × L)) : s.plain.queue = s.queue := rfl

end Desk

/-- A receiver that leaves a receipt, also if it halts. -/
def leavingReceipt (handle : View → Event → Pass (Desk W D A) (W × Event)) (v : View) (e : Event) :
    Pass (Desk W D (A × List Receipt)) (W × Event) := fun s ↦
  match handle v e s.plain with
  | .ok answer t => .ok answer (t.withReceipts (s.receipts ++ [⟨v, e, some answer.2⟩]))
  | .error halt t => .error halt (t.withReceipts (s.receipts ++ [⟨v, e, none⟩]))

/-- The same widgets, whose receivers leave receipts. -/
def HandlingConduct.recorded (conduct : HandlingConduct W D A) : HandlingConduct W D (A × List Receipt) :=
  fun widget ↦ (conduct widget).map leavingReceipt

theorem HandlingConduct.recorded_eq {conduct : HandlingConduct W D A} {widget : W}
    {handle : Option (View → Event → Pass (Desk W D A) (W × Event))} (h : conduct widget = handle) :
    conduct.recorded widget = handle.map leavingReceipt :=
  congrArg (Option.map leavingReceipt) h

/-! ## Dropping the receipts -/

/-- The result of a run without receipts. -/
def dropReceipts : EStateM.Result Halt (Desk W D (A × L)) α → EStateM.Result Halt (Desk W D A) α
  | .ok answer s => .ok answer s.plain
  | .error halt s => .error halt s.plain

/-- A computation with receipts comes to the same as one without. -/
def Erases (recorded : Pass (Desk W D (A × L)) α) (plain : Pass (Desk W D A) α) : Prop :=
  ∀ s, dropReceipts (recorded s) = plain s.plain

namespace Erases

theorem pure (a : α) :
    Erases (Pure.pure a : Pass (Desk W D (A × L)) α) (Pure.pure a) :=
  fun _ ↦ rfl

theorem throw (halt : Halt) :
    Erases (MonadExcept.throw halt : Pass (Desk W D (A × L)) α) (MonadExcept.throw halt) :=
  fun _ ↦ rfl

/-- Receipts are a part of the state that is forgotten. -/
theorem iff_forgets {recorded : Pass (Desk W D (A × L)) α} {plain : Pass (Desk W D A) α} :
    Erases recorded plain ↔ Pass.Forgets Desk.plain recorded plain := by
  have hdrop (s : Desk W D (A × L)) : dropReceipts (recorded s) = Pass.mapState Desk.plain (recorded s) := by
    cases recorded s <;> rfl
  exact forall_congr' fun s ↦ by rw [hdrop]

theorem bind {first : Pass (Desk W D (A × L)) α} {first' : Pass (Desk W D A) α}
    {next : α → Pass (Desk W D (A × L)) β} {next' : α → Pass (Desk W D A) β}
    (hfirst : Erases first first') (hnext : ∀ a, Erases (next a) (next' a)) :
    Erases (first >>= next) (first' >>= next') :=
  iff_forgets.mpr (Pass.forgets_bind (iff_forgets.mp hfirst) fun a ↦ iff_forgets.mp (hnext a))

/-- What is read off the desk does not depend on the receipts. -/
theorem bind_get {next : Desk W D (A × L) → Pass (Desk W D (A × L)) α}
    {next' : Desk W D A → Pass (Desk W D A) α} (hnext : ∀ s, Erases (next s) (next' s.plain)) :
    Erases (get >>= next) (get >>= next') :=
  fun s ↦ hnext s s

theorem modify {change : Desk W D (A × L) → Desk W D (A × L)}
    {change' : Desk W D A → Desk W D A} (hchange : ∀ s, (change s).plain = change' s.plain) :
    Erases (modify change) (modify change') :=
  fun s ↦ congrArg (EStateM.Result.ok PUnit.unit) (hchange s)

theorem note (level : Level) (text : String) :
    Erases (Desk.note level text : Pass (Desk W D (A × L)) Unit) (Desk.note level text) :=
  modify fun _ ↦ rfl

theorem ask (question : Forest W → Except Halt α) :
    Erases (Desk.onGrove (Grove.ask question) : Pass (Desk W D (A × L)) α)
      (Desk.onGrove (Grove.ask question)) := by
  intro s
  rw [Desk.ask_eq, Desk.ask_eq, Desk.forest_plain]
  cases question s.forest <;> rfl

theorem change (step : Forest W → Except Halt (Forest W)) :
    Erases (Desk.onGrove (Grove.change step) : Pass (Desk W D (A × L)) Unit)
      (Desk.onGrove (Grove.change step)) := by
  intro s
  rw [Desk.change_eq, Desk.change_eq, Desk.forest_plain]
  cases step s.forest <;> rfl

theorem changeAsk (step : Forest W → Except Halt (α × Forest W)) :
    Erases (Desk.onGrove (Grove.changeAsk step) : Pass (Desk W D (A × L)) α)
      (Desk.onGrove (Grove.changeAsk step)) := by
  intro s
  rw [Desk.changeAsk_eq, Desk.changeAsk_eq, Desk.forest_plain]
  cases step s.forest <;> rfl

end Erases

/-- The same widgets, except that the receivers of the first ones keep a log. -/
def HandlingConduct.Echoes (logging : HandlingConduct W D (A × L)) (conduct : HandlingConduct W D A) : Prop :=
  ∀ widget, Option.Rel (fun handle handle' ↦ ∀ v e, Erases (handle v e) (handle' v e)) (logging widget)
    (conduct widget)

/-! ## Dispatching with a log -/

namespace HandlingConduct.Echoes

open Routing

variable {logging : HandlingConduct W D (A × L)} {conduct : HandlingConduct W D A} (h : logging.Echoes conduct)
include h

/-- A view has a receiver that keeps a log just if it has one that does not. -/
theorem cases (widget : W) : logging widget = none ∧ conduct widget = none ∨
    ∃ handle handle', logging widget = some handle ∧ conduct widget = some handle' ∧
      ∀ v e, Erases (handle v e) (handle' v e) := by
  have hrel := h widget
  cases hlogging : logging widget with
  | none =>
    cases hconduct : conduct widget with
    | none => exact .inl ⟨rfl, rfl⟩
    | some handle' =>
      rw [hlogging, hconduct] at hrel
      cases hrel
  | some handle =>
    cases hconduct : conduct widget with
    | none =>
      rw [hlogging, hconduct] at hrel
      cases hrel
    | some handle' =>
      rw [hlogging, hconduct] at hrel
      cases hrel with
      | some herases => exact .inr ⟨handle, handle', rfl, rfl, herases⟩

theorem erases_deliver (v : View) (e : Event) :
    Erases (deliver logging v e) (deliver conduct v e) := by
  unfold deliver
  refine .bind (.ask _) fun node ↦ ?_
  cases node.widget with
  | none => exact .pure e
  | some widget =>
    refine .bind (.change _) fun _ ↦ ?_
    rcases h.cases widget with ⟨hlogging, hconduct⟩ | ⟨handle, handle', hlogging, hconduct, herases⟩
    · rw [hlogging, hconduct]
      exact .bind (.pure (widget, e)) fun answer ↦ .bind (.change _) fun _ ↦ .pure _
    · rw [hlogging, hconduct]
      exact .bind (herases v e) fun answer ↦ .bind (.change _) fun _ ↦ .pure _

theorem erases_upwards (steps : Nat) (start : Option View) (e : Event) (seen : List View) :
    Erases (upwards logging steps start e seen) (upwards conduct steps start e seen) := by
  induction steps generalizing start e seen with
  | zero =>
    cases start with
    | none => exact .pure _
    | some v => exact .throw _
  | succ steps ih =>
    cases start with
    | none => exact .pure _
    | some v =>
      have hrest (e : Event) (seen : List View) : Erases
          (get >>= fun s ↦ upwards logging steps ((s.forest.node? v).bind (·.superview)) e seen)
          (get >>= fun s ↦ upwards conduct steps ((s.forest.node? v).bind (·.superview)) e seen) :=
        .bind_get fun s ↦ ih _ e seen
      unfold upwards
      refine .bind_get fun s ↦ ?_
      rw [Desk.forest_plain]
      split
      · exact .pure _
      · split
        · exact hrest e seen
        · exact .bind (h.erases_deliver v e) fun answer ↦ hrest answer (v :: seen)

theorem erases_broadcast (steps : Nat) (leaves : List View) (e : Event) (seen : List View) :
    Erases (broadcast logging steps leaves e seen) (broadcast conduct steps leaves e seen) := by
  induction leaves generalizing e seen with
  | nil => exact .pure e
  | cons leaf rest ih =>
    unfold broadcast
    refine .bind (h.erases_upwards steps (some leaf) e seen) fun answer ↦ ?_
    split
    split
    · exact ih _ _
    · exact .pure _

theorem erases_toTarget (steps : Nat) (e : Event) :
    Erases (toTarget logging steps e) (toTarget conduct steps e) := by
  unfold toTarget
  cases e.target with
  | none => exact .pure _
  | some target =>
    refine .bind_get fun s ↦ ?_
    rw [Desk.forest_plain]
    split
    · exact h.erases_upwards steps (some target) e []
    · exact .bind (.note _ _) fun _ ↦ .pure _

theorem erases_direct (steps : Nat) (e : Event) :
    Erases (direct logging steps e) (direct conduct steps e) := by
  unfold direct
  refine .bind_get fun s ↦ ?_
  rw [Desk.redirects_plain]
  cases s.redirects.find? e.kind with
  | none => exact h.erases_toTarget steps e
  | some redirect =>
    refine .bind_get fun t ↦ ?_
    rw [Desk.forest_plain]
    split
    · exact h.erases_upwards steps (some redirect.view) e e.target.toList
    · refine .bind (.note _ _) fun _ ↦ ?_
      exact .bind (.modify fun _ ↦ rfl) fun _ ↦ h.erases_toTarget steps e

/-- A log changes nothing about the dispatch of an event. -/
theorem erases_dispatchEvent (steps : Nat) (root : View) (e : Event) :
    Erases (dispatchEvent logging steps root e) (dispatchEvent conduct steps root e) := by
  unfold dispatchEvent
  refine .bind (h.erases_direct steps e) fun answer ↦ ?_
  split
  split
  · exact .pure _
  · exact .bind (.changeAsk _) fun leaves ↦ h.erases_broadcast steps _ _ _

theorem erases_drain (steps : Nat) (root : View) (events : Nat) :
    Erases (drain logging steps root events) (drain conduct steps root events) := by
  induction events with
  | zero =>
    unfold drain
    refine .bind_get fun s ↦ ?_
    rw [Desk.queue_plain]
    split
    · exact .pure _
    · exact .throw _
  | succ events ih =>
    unfold drain
    refine .bind_get fun s ↦ ?_
    rw [Desk.queue_plain]
    cases s.queue with
    | nil => exact .pure _
    | cons e rest =>
      refine .bind (.modify fun _ ↦ rfl) fun _ ↦ ?_
      exact .bind (h.erases_dispatchEvent steps root e) fun _ ↦ .bind ih fun _ ↦ .pure _

/-- Nor does it change anything about a whole pass. -/
theorem erases_dispatch (steps : Nat) (root : View) :
    Erases (dispatch logging steps root) (dispatch conduct steps root) :=
  .bind (.modify fun _ ↦ rfl) fun _ ↦ h.erases_drain steps root steps

end HandlingConduct.Echoes

namespace Routing

variable (conduct : HandlingConduct W D A)

theorem erases_leavingReceipt (handle : View → Event → Pass (Desk W D A) (W × Event)) (v : View)
    (e : Event) : Erases (leavingReceipt handle v e) (handle v e) := by
  intro s
  unfold leavingReceipt
  cases handle v e s.plain <;> rfl

theorem recorded_echoes : conduct.recorded.Echoes conduct := by
  intro widget
  cases hhandle : conduct widget with
  | none =>
    rw [HandlingConduct.recorded_eq hhandle]
    exact .none
  | some handle =>
    rw [HandlingConduct.recorded_eq hhandle]
    exact .some (erases_leavingReceipt handle)

theorem erases_dispatchEvent (steps : Nat) (root : View) (e : Event) :
    Erases (dispatchEvent conduct.recorded steps root e) (dispatchEvent conduct steps root e) :=
  (recorded_echoes conduct).erases_dispatchEvent steps root e

theorem erases_dispatch (steps : Nat) (root : View) :
    Erases (dispatch conduct.recorded steps root) (dispatch conduct steps root) :=
  (recorded_echoes conduct).erases_dispatch steps root

end Routing

end RetainedUi
