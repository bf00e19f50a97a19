import RetainedUi.Proofs.Desktop.Lifetime

/-!
# What the last phase of a run leaves behind

A run that ends without a fault ends with one more phase. So a window that has left the list by then has been given
back when the run returns. A window that leaves while the last phase is under way is not: its release is scheduled,
and waits for the next phase, unless one begins within the last phase.
-/

namespace RetainedUi

variable {W D A : Type}

/-- What waits from before is gone as soon as a phase begins. -/
theorem pending_eq_of_begun {tasks : List (Task W D)} {h : List (Moment W D)} (hphases : phases h ≠ 0) :
    pending tasks h = pending [] h := by
  induction h generalizing tasks with
  | nil => exact absurd rfl hphases
  | cons moment h ih =>
    rw [pending, pending]
    cases hbegins : moment.begins with
    | true => rfl
    | false =>
      have hrest : phases h ≠ 0 := by simpa [phases, hbegins] using hphases
      simp only [Bool.false_eq_true, if_false]
      exact (ih hrest).trans (ih hrest).symm

/-- Without a phase, everything that is scheduled waits. -/
theorem pending_eq_append {tasks : List (Task W D)} {h : List (Moment W D)} (hphases : phases h = 0) :
    pending tasks h = tasks ++ scheduled h := by
  have hnone : batches tasks h = [] := List.eq_nil_of_length_eq_zero ((length_batches tasks h).trans hphases)
  rw [append_scheduled, hnone]
  rfl

namespace Desktop

variable {program : Program W D A} {config : PainterConfig} {shared : A} {d e : Desktop W D A}

/-- Whether a window has still to be given back by a task. -/
def owed (d : Desktop W D A) (id : WindowId) : Bool := d.deferred.any (Task.releases id)

section

variable {before behind : List (Moment W D)} {window : Window W}
  (hcourse : Course program .free 0 (fresh config shared) (before ++ .left window :: behind) e)
include hcourse

/-- A window that has left has been given back just if a phase has begun since. -/
theorem Course.givenBack_of_left : e.givenBack window.id = true ↔ phases behind ≠ 0 := by
  have hfresh : (fresh config shared : Desktop W D A).Registered := .fresh config shared
  have hnothing : (fresh config shared : Desktop W D A).Owes [] := fun _ hwindow ↦ by cases hwindow
  have hnever : (fresh config shared : Desktop W D A).givenBack window.id ≠ true := by
    simp [givenBack, Headless.screen?, fresh, Headless.fresh]
  rw [hcourse.givenBack_iff hfresh hnothing hnothing, or_iff_right hnever, hcourse.releasePhases_eq hfresh rfl]
  by_cases hphases : phases behind = 0
  · simp [hphases]
  · simp [hphases]

/-- Until then its release waits, and after that it does not. -/
theorem Course.owed_of_left : e.owed window.id = true ↔ phases behind = 0 := by
  have hfresh : (fresh config shared : Desktop W D A).Registered := .fresh config shared
  have hwaiting : e.deferred = pending (pending [] before ++ [.release window]) behind :=
    hcourse.deferred_eq.trans (pending_append _ _ _)
  rw [owed, hwaiting]
  by_cases hphases : phases behind = 0
  · simp [pending_eq_append hphases, hphases, Task.releases]
  · have hlater : window.id ∉ leftIn behind := by
      intro hleft
      obtain ⟨other, hmem, hid⟩ := mem_leftIn_iff.mp hleft
      exact (hcourse.enrolls.left_once hfresh.bounded).2 _ hmem (congrArg some hid)
    have hnone := countP_pending (countP_scheduled hlater)
    rw [pending_eq_of_begun hphases]
    simpa [hphases, List.countP_eq_zero] using hnone

end

/-- Of the windows that have left, those that are not given back are still to be given back. -/
theorem Course.givenBack_iff_not_owed {h : List (Moment W D)}
    (hcourse : Course program .free 0 (fresh config shared) h e) {id : WindowId} (hleft : id ∈ leftIn h) :
    e.givenBack id = true ↔ e.owed id = false := by
  obtain ⟨window, hmem, rfl⟩ := mem_leftIn_iff.mp hleft
  obtain ⟨before, behind, rfl⟩ := List.append_of_mem hmem
  rw [hcourse.givenBack_of_left, ← Bool.not_eq_true, hcourse.owed_of_left]

/-- Windows that have left are given back when a phase begins. -/
theorem Course.givenBack_of_begun {h later : List (Moment W D)}
    (hcourse : Course program .free 0 (fresh config shared) (h ++ later) e) (hlater : phases later ≠ 0)
    {id : WindowId} (hleft : id ∈ leftIn h) : e.givenBack id = true := by
  obtain ⟨window, hmem, rfl⟩ := mem_leftIn_iff.mp hleft
  obtain ⟨before, behind, rfl⟩ := List.append_of_mem hmem
  rw [List.append_assoc] at hcourse
  have hphases : phases (behind ++ later) = phases behind + phases later := phases_append behind later
  refine hcourse.givenBack_of_left.mpr ?_
  change phases (behind ++ later) ≠ 0
  omega

/-- When a run returns without a fault, every window that left the list before the last phase has been given back.
A window that left while the last phase was under way has been given back just if yet another phase has begun since;
otherwise its release is all that is still owed, and the next tick sees to it. So if nothing leaves during the last
phase, no window that is off the list is left with the windowing system. -/
theorem run_gives_back (hprogram : ∀ callback, Tells program (program.perform callback))
    (hhandling : program.handling.Appends) {past : List (Moment W D)}
    (hpast : Course program .free 0 (fresh config shared) past d) {steps : Nat}
    {perTick : Nat → Pass (Desktop W D A) Unit} (hperTick : ∀ number, Tells program (perTick number)) {done : Nat}
    (hrun : runWith program steps perTick d = .ok (.ok (), done) e) :
    ∃ ticked drained,
      Ran program steps perTick (phases past) d (ticked ++ .began :: drained) (.ok (), done) e ∧
      Course program .free 0 (fresh config shared) (past ++ (ticked ++ .began :: drained)) e ∧
      e.windowIds = (openedIn (past ++ (ticked ++ .began :: drained))).filter
        (· ∉ leftIn (past ++ (ticked ++ .began :: drained))) ∧
      (∀ id ∈ leftIn (past ++ ticked), e.givenBack id = true) ∧
      (∀ before window behind, drained = before ++ .left window :: behind →
        (e.givenBack window.id = true ↔ phases behind ≠ 0)) ∧
      (∀ id ∈ leftIn (past ++ (ticked ++ .began :: drained)), e.givenBack id = true ↔ e.owed id = false) ∧
      (leftIn drained = [] → ∀ id ∈ openedIn (past ++ (ticked ++ .began :: drained)),
        id ∈ e.windowIds ∨ e.givenBack id = true) ∧
      ∀ steps perTick answer f, Tells program perTick → tickWith program steps perTick e = .ok answer f →
        ∀ id ∈ leftIn (past ++ (ticked ++ .began :: drained)), f.givenBack id = true := by
  have hd : d.Registered := hpast.registered (.fresh config shared)
  obtain ⟨present, hran⟩ := exists_ran (n := phases past) hhandling hprogram hperTick hd hrun
  obtain ⟨ticked, drained, rfl⟩ : ∃ ticked drained, present = ticked ++ .began :: drained := by
    cases hran
    exact ⟨_, _, rfl⟩
  have hcourse := hpast.followed (hran.course hhandling hd)
  have hlife := hcourse.lifecycle
  have hearlier : ∀ id ∈ leftIn (past ++ ticked), e.givenBack id = true := fun id hid ↦ by
    rw [← List.append_assoc] at hcourse
    exact hcourse.givenBack_of_begun (by simp) hid
  refine ⟨ticked, drained, hran, hcourse, hlife.listed, hearlier, ?_,
    fun id hid ↦ hcourse.givenBack_iff_not_owed hid, fun hdrained id hopened ↦ ?_,
    fun steps perTick answer f hperTick htick id hid ↦ ?_⟩
  · rintro before window behind rfl
    have hsplit : past ++ (ticked ++ .began :: (before ++ .left window :: behind)) =
        (past ++ (ticked ++ .began :: before)) ++ .left window :: behind := by simp
    rw [hsplit] at hcourse
    exact hcourse.givenBack_of_left
  · by_cases hleft : id ∈ leftIn (past ++ (ticked ++ .began :: drained))
    · refine .inr (hearlier id ?_)
      have hlast : leftIn (.began :: drained) = leftIn drained := rfl
      have hsplit : leftIn (past ++ (ticked ++ .began :: drained)) = leftIn (past ++ ticked) ++ leftIn drained := by
        rw [← hlast, ← List.append_assoc]
        exact List.filterMap_append
      rwa [hsplit, hdrained, List.append_nil] at hleft
    · refine .inl ?_
      rw [hlife.listed]
      exact List.mem_filter.mpr ⟨hopened, by simpa using hleft⟩
  · have he := hcourse.registered (.fresh config shared)
    obtain ⟨next, hticked⟩ := exists_ticked (n := phases (past ++ (ticked ++ .began :: drained))) hhandling hprogram
      hperTick he htick
    refine (hcourse.followed (hticked.course hhandling he)).givenBack_of_begun ?_ hid
    cases hticked
    simp

/-- The number of ticks of a run that has ended without a fault. -/
def ticksOf? : EStateM.Result Halt (Desktop W D A) (Except Fault Unit × Nat) → Option Nat
  | .ok (.ok (), done) _ => some done
  | _ => none

theorem eq_ok_of_ticksOf? {outcome : EStateM.Result Halt (Desktop W D A) (Except Fault Unit × Nat)} {done : Nat}
    (h : ticksOf? outcome = some done) : outcome = .ok (.ok (), done) (Pass.final outcome) := by
  obtain ⟨_ | _, _⟩ | _ := outcome
  · cases h
  · cases h
    rfl
  · cases h

/-- A program without widgets, whose callbacks take the first window off the list. -/
def dropping : Program Unit Unit Unit :=
  { layout := fun _ ↦ none
    handling := fun _ ↦ none
    drawing := fun _ ↦ none
    perform := fun _ ↦ closeWindow ⟨1⟩ }

/-- The window is dropped by a callback of the first tick, and has been given back when the run returns. -/
theorem run_gives_back_dropped : ∃ (past : List (Moment Unit Unit)) (d e : Desktop Unit Unit Unit),
    Course dropping .free 0 (fresh ⟨4, 4⟩ ()) past d ∧ d.windowIds = [⟨1⟩] ∧
      runWith dropping 8 (fun _ ↦ pure ()) d = .ok (.ok (), 1) e ∧
      (∃ ticked drained, Ran dropping 8 (fun _ ↦ pure ()) (phases past) d (ticked ++ .began :: drained)
        (.ok (), 1) e ∧ ∀ id ∈ leftIn (past ++ ticked), e.givenBack id = true) ∧
      e.windowIds = [] ∧ e.givenBack ⟨1⟩ = true := by
  have hprogram : ∀ callback, Tells dropping (dropping.perform callback) := fun _ ↦ tells_closeWindow ⟨1⟩
  have hhandling : dropping.handling.Appends := by
    rintro widget handle ⟨⟩
  let d : Desktop Unit Unit Unit := Pass.final (post (.callback ()) hidden)
  have hpast : Course dropping .free 0 (fresh ⟨4, 4⟩ ()) [.opened ⟨1⟩, .posted ()] d :=
    .act (.openWindow (eq_ok_of_answer? (by decide +kernel))) (.of_act (.post hidden ()))
  have hrun := eq_ok_of_ticksOf? (show ticksOf? (runWith dropping 8 (fun _ ↦ pure ()) d) = some 1 by decide +kernel)
  obtain ⟨ticked, drained, hran, -, -, hearlier, -⟩ :=
    run_gives_back hprogram hhandling hpast (fun _ ↦ tellsOnly_pure ()) hrun
  exact ⟨_, d, _, hpast, by decide +kernel, hrun, ⟨ticked, drained, hran, hearlier⟩, by decide +kernel,
    by decide +kernel⟩

/-- A window that is dropped by a callback of the last phase has left the list when the run returns, but it has not
been given back. Its caller posts the callback in the first tick, and asks the run to end. -/
theorem run_leaves_dropped : ∃ e : Desktop Unit Unit Unit,
    runWith dropping 8 (fun _ ↦ post (.callback ()) >>= fun _ ↦ quit) hidden = .ok (.ok (), 1) e ∧
      hidden.windowIds = [⟨1⟩] ∧ e.windowIds = [] ∧ e.givenBack ⟨1⟩ = false := by
  exact ⟨_, eq_ok_of_ticksOf? (by decide +kernel), by decide +kernel, by decide +kernel, by decide +kernel⟩

end Desktop

end RetainedUi
