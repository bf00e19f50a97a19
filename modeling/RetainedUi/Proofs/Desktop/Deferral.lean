import RetainedUi.Proofs.Desktop.Ticks

/-!
# Deferred callbacks

A phase runs what was scheduled since the phase before it has begun, in the order in which it was scheduled, and
nothing else. So what is scheduled while a phase or a tick is under way is left for the next phase, nothing is
lost and nothing is run twice.

What waits at the beginning of the phases, one after the other, can be read off a history. That the phases do run
these batches is an induction along the course.
-/

namespace RetainedUi

variable {W D A : Type}

/-! ## Batches -/

/-- What waits when a phase begins, for one phase after the other. The first list is what waits at first. -/
def batches : List (Task W D) → List (Moment W D) → List (List (Task W D))
  | _, [] => []
  | tasks, moment :: h =>
    if moment.begins then tasks :: batches [] h else batches (tasks ++ moment.task?.toList) h

/-- The batch of a phase, given the number of the phase with the first batch. -/
def turn (n : Nat) (bs : List (List (Task W D))) (number : Nat) : List (Task W D) :=
  if number < n then [] else bs[number - n]?.getD []

/-- The tasks that were run, whatever the phase. -/
def performed (h : List (Moment W D)) : List (Task W D) :=
  h.filterMap fun
    | .performed _ task => some task
    | _ => none

section

variable (tasks : List (Task W D)) (h h' : List (Moment W D))

theorem length_batches : (batches tasks h).length = phases h := by
  induction h generalizing tasks with
  | nil => rfl
  | cons moment h ih =>
    rw [batches]
    cases hbegins : moment.begins with
    | true => simp [phases, hbegins, ih]
    | false => simp [phases, hbegins, ih]

theorem batches_performed (phase : Nat) (task : Task W D) :
    batches tasks (.performed phase task :: h) = batches tasks h :=
  congrArg (batches · h) (List.append_nil tasks)

theorem batches_append : batches tasks (h ++ h') = batches tasks h ++ batches (pending tasks h) h' := by
  induction h generalizing tasks with
  | nil => rfl
  | cons moment h ih =>
    rw [List.cons_append, batches, batches, pending]
    cases moment.begins with
    | true => exact congrArg _ (ih [])
    | false => exact ih _

/-- All that is scheduled comes into a batch, or waits still. -/
theorem append_scheduled : tasks ++ scheduled h = (batches tasks h).flatten ++ pending tasks h := by
  induction h generalizing tasks with
  | nil => simp [scheduled, batches, pending]
  | cons moment h ih =>
    have hscheduled : scheduled (moment :: h) = moment.task?.toList ++ scheduled h := by
      cases hmoment : moment.task? <;> simp [scheduled, hmoment]
    rw [hscheduled, batches, pending]
    cases moment with
    | began =>
      change tasks ++ ([] ++ scheduled h) = (tasks :: batches [] h).flatten ++ pending [] h
      rw [ih [], List.flatten_cons, List.append_assoc]
    | posted | left | opened | worked | performed => exact (List.append_assoc ..).symm.trans (ih _)

end

theorem turn_append (n : Nat) (bs bs' : List (List (Task W D))) (number : Nat) :
    turn n (bs ++ bs') number = turn n bs number ++ turn (n + bs.length) bs' number := by
  unfold turn
  by_cases hbefore : number < n
  · rw [if_pos hbefore, if_pos hbefore, if_pos (by omega)]
    rfl
  · rw [if_neg hbefore, if_neg hbefore]
    by_cases hfirst : number < n + bs.length
    · rw [if_pos hfirst, List.getElem?_append_left (by omega), List.append_nil]
    · have hbeyond : bs[number - n]? = none := List.getElem?_eq_none (by omega)
      rw [if_neg hfirst, List.getElem?_append_right (by omega), hbeyond, Nat.sub_sub]
      rfl

theorem turn_singleton (n : Nat) (b : List (Task W D)) (number : Nat) :
    turn n [b] number = if number = n then b else [] := by
  unfold turn
  by_cases hnumber : number = n
  · simp [hnumber]
  · rw [if_neg hnumber]
    split
    · rfl
    · have hbeyond : ([b] : List _)[number - n]? = none := List.getElem?_eq_none (by simp; omega)
      rw [hbeyond]
      rfl

theorem turn_batches_append (n : Nat) (tasks : List (Task W D)) (h h' : List (Moment W D)) (number : Nat) :
    turn n (batches tasks (h ++ h')) number = turn n (batches tasks h) number ++
      turn (n + phases h) (batches (pending tasks h) h') number := by
  rw [batches_append, turn_append, length_batches]

theorem turn_nil (n number : Nat) : turn n ([] : List (List (Task W D))) number = [] := by
  simp [turn]

theorem turn_batches_eq_nil {n number : Nat} {tasks : List (Task W D)} {h : List (Moment W D)}
    (hphases : phases h = 0) : turn n (batches tasks h) number = [] := by
  rw [List.eq_nil_of_length_eq_zero ((length_batches tasks h).trans hphases), turn_nil]

/-- No phase runs a task before it has begun. The number is that of the next phase to begin. -/
def Begun : Nat → List (Moment W D) → Prop
  | _, [] => True
  | n, .performed number _ :: h => number < n ∧ Begun n h
  | n, .began :: h => Begun (n + 1) h
  | n, _ :: h => Begun n h

theorem begun_append {n : Nat} {h h' : List (Moment W D)} :
    Begun n (h ++ h') ↔ Begun n h ∧ Begun (n + phases h) h' := by
  induction h generalizing n with
  | nil => simp [Begun, phases]
  | cons moment h ih =>
    cases moment with
    | performed number task =>
      change number < n ∧ Begun n (h ++ h') ↔ (number < n ∧ Begun n h) ∧ Begun (n + phases h) h'
      rw [ih, and_assoc]
    | began =>
      rw [phases_began, Nat.add_comm (phases h), ← Nat.add_assoc]
      exact ih
    | posted | left | opened | worked => exact ih

theorem Begun.performedBy_eq_nil {n number : Nat} {h : List (Moment W D)} (hbegun : Begun n h)
    (hnumber : n + phases h ≤ number) : performedBy number h = [] := by
  induction h generalizing n with
  | nil => rfl
  | cons moment h ih =>
    cases moment with
    | performed earlier task =>
      have hearlier : earlier ≠ number := by
        have hlt : earlier < n := hbegun.1
        omega
      have hnone : Moment.performedBy? number (.performed earlier task : Moment W D) = none := if_neg hearlier
      rw [performedBy, List.filterMap_cons_none hnone]
      exact ih hbegun.2 hnumber
    | began =>
      rw [phases_began] at hnumber
      exact ih (n := n + 1) hbegun (by omega)
    | posted | left | opened | worked => exact ih (n := n) hbegun hnumber

theorem performedBy_singleton (number phase : Nat) (task : Task W D) :
    performedBy number [.performed phase task] = if number = phase then [task] else [] := by
  by_cases hnumber : phase = number
  · simp [performedBy, Moment.performedBy?, hnumber]
  · simp [performedBy, Moment.performedBy?, hnumber, Ne.symm hnumber]

namespace Desktop

/-! ## Courses -/

theorem deferred_onWindow {α : Type} {d e : Desktop W D A} {id : WindowId} {pass : Pass (Pane W A) α}
    {found : Option α} (h : onWindow id pass d = .ok found e) : e.deferred = d.deferred := by
  obtain ⟨-, rfl, -⟩ | ⟨_, _, _, _, -, -, -, -, rfl⟩ := onWindow_eq_ok h <;> rfl

theorem deferred_releaseWindow {d e : Desktop W D A} {window : Window W}
    (h : releaseWindow window d = .ok () e) : e.deferred = d.deferred := by
  obtain ⟨-, rfl⟩ | ⟨_, _, -, rfl⟩ := releaseWindow_eq_ok h <;> rfl

theorem Act.deferred_eq {d e : Desktop W D A} {own : List (Moment W D)} (hact : Act d own e) :
    e.deferred = pending d.deferred own := by
  cases hact with
  | post => rfl
  | openWindow h =>
    obtain ⟨_, hanswer, -⟩ | ⟨mid, screen, -, hadds, rfl | ⟨_, hshown⟩⟩ := openWindow_eq_ok h
    · cases hanswer
    · rw [pending_cons_of_quiet rfl rfl]
      exact hadds.deferred
    · rw [pending_cons_of_quiet rfl rfl]
      exact (deferred_onWindow hshown).trans hadds.deferred
  | closeWindow hwindow h =>
    rw [Desktop.closeWindow, Pass.bind_get, hwindow] at h
    cases h
    rfl
  | work _ _ h =>
    rw [pending_cons_of_quiet rfl rfl]
    exact deferred_onWindow h
  | adjust _ _ _ hdeferred => exact hdeferred

section

variable {program : Program W D A} {scope : Scope W D} {n : Nat} {d e : Desktop W D A} {h : List (Moment W D)}

namespace Course

theorem deferred_eq (hcourse : Course program scope n d h e) : e.deferred = pending d.deferred h := by
  induction hcourse with
  | rest | finished => rfl
  | act hact _ ih => rw [pending_append, ← hact.deferred_eq, ih]
  | phase _ _ ih ih' => exact ih'.trans ((congrArg (pending · _) ih).trans (pending_append _ _ _).symm)
  | callback _ _ _ ih ih' =>
    rw [ih', ih, pending_cons_of_quiet rfl rfl, pending_append]
  | release hrun _ ih =>
    rw [ih, deferred_releaseWindow hrun, pending_cons_of_quiet rfl rfl]

end Course

/-- What the phase that a course is in has still to run. -/
def Scope.own : Scope W D → Nat → List (Task W D)
  | .free, _ => []
  | .phase current tasks, number => if number = current then tasks else []

/-- The phase that a course is in comes before those that the course tells. -/
def Scope.Before : Scope W D → Nat → Prop
  | .free, _ => True
  | .phase current _, n => current < n

theorem Act.performedBy_eq_nil (hact : Act d h e) (number : Nat) : performedBy number h = [] := by
  cases hact <;> rfl

theorem Act.begun (hact : Act d h e) : Begun n h := by
  cases hact <;> trivial

namespace Course

theorem begun (hcourse : Course program scope n d h e) (hscope : scope.Before n) : Begun n h := by
  induction hcourse with
  | rest | finished => trivial
  | act hact _ ih => exact begun_append.mpr ⟨hact.begun, hact.phases_eq ▸ ih trivial⟩
  | @phase n _ _ _ own _ _ _ ih ih' => exact begun_append (n := n + 1).mpr ⟨ih (Nat.lt_succ_self n), ih' trivial⟩
  | callback _ _ _ ih ih' =>
    exact ⟨hscope, begun_append.mpr ⟨ih trivial, ih' (Nat.lt_of_lt_of_le hscope (Nat.le_add_right _ _))⟩⟩
  | release _ _ ih => exact ⟨hscope, ih hscope⟩

/-- Phases run what waits when they begin, and a phase that has begun already runs what is left of it. -/
theorem performedBy_eq (hcourse : Course program scope n d h e) (hscope : scope.Before n) (number : Nat) :
    performedBy number h = scope.own number ++ turn n (batches d.deferred h) number := by
  induction hcourse with
  | rest | finished => simp [Scope.own, batches, turn_nil, performedBy]
  | act hact _ ih =>
    rw [performedBy_append, hact.performedBy_eq_nil, ih trivial, turn_batches_append, hact.deferred_eq,
      turn_batches_eq_nil hact.phases_eq, hact.phases_eq]
    rfl
  | @phase n d _ _ own rest hphase _ ih ih' =>
    change performedBy number (own ++ rest) = turn n ([d.deferred] ++ batches [] (own ++ rest)) number
    rw [performedBy_append, ih (Nat.lt_succ_self n), ih' trivial, turn_append, turn_singleton,
      turn_batches_append, hphase.deferred_eq]
    exact List.append_assoc _ _ _
  | @callback current n d _ _ callback tasks own rest _ hown _ ih ih' =>
    have hbefore : current < n := hscope
    rw [batches_performed]
    change performedBy number ([.performed current (.callback callback)] ++ (own ++ rest)) = _
    have hlater := ih' (Nat.lt_of_lt_of_le hbefore (Nat.le_add_right _ _))
    rw [performedBy_append, performedBy_append, ih trivial, hlater, turn_batches_append, hown.deferred_eq,
      performedBy_singleton]
    -- What is run on the way is told by later phases, so it does not come between.
    by_cases hnumber : number = current
    · simp [Scope.own, hnumber, turn, hbefore]
    · simp [Scope.own, hnumber]
  | @release current n d _ _ window tasks rest hrun _ ih =>
    rw [batches_performed]
    change performedBy number ([.performed current (.release window)] ++ rest) = _
    rw [performedBy_append, ih hscope, performedBy_singleton, deferred_releaseWindow hrun, ← List.append_assoc]
    refine congrArg (· ++ _) ?_
    by_cases hnumber : number = current
    · simp [Scope.own, hnumber]
    · simp [Scope.own, hnumber]

end Course

end

end Desktop

/-! ## Histories in order -/

namespace Desktop

variable {program : Program W D A} {config : PainterConfig} {shared : A}

/-- From a desktop without tasks, each phase runs its batch. -/
theorem Course.performedBy_eq_turn {d e : Desktop W D A} {h : List (Moment W D)} (hd : d.deferred = [])
    (hcourse : Course program .free 0 d h e) (number : Nat) :
    performedBy number h = turn 0 (batches [] h) number := by
  rw [hcourse.performedBy_eq trivial, hd]
  rfl

section

variable {steps n : Nat} {perTick : Pass (Desktop W D A) Unit} {present : List (Moment W D)} {d e : Desktop W D A}
variable {answer : Except Fault Unit} (hticked : Ticked program steps perTick n d present answer e)
variable (hpresent : Course program .free n d present e)
include hticked

theorem Ticked.exists_batches : ∃ later, batches d.deferred present = d.deferred :: later := by
  cases hticked
  exact ⟨_, rfl⟩

include hpresent

/-- The phase with which a tick begins runs what was scheduled before the tick. -/
theorem Ticked.performedBy_eq : performedBy n present = d.deferred := by
  obtain ⟨later, hbatches⟩ := hticked.exists_batches
  rw [hpresent.performedBy_eq trivial, hbatches]
  simp [Scope.own, turn]

end

end Desktop

end RetainedUi
