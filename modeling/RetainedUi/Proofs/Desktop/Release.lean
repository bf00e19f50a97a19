import RetainedUi.Proofs.Desktop.Deferral
import RetainedUi.Proofs.Desktop.Roll

/-!
# When windows are given back

A window that leaves the list is given back to the windowing system by a task, so the order in which tasks are run
says when: in the first phase that begins after it has left, and once. What has to be shown for that is that a
window leaves at most once, which follows from the numbering of windows.
-/

namespace RetainedUi

variable {W D A : Type}

/-! ## Releases in a history -/

/-- Whether the task gives a window back. -/
def Task.releases (id : WindowId) : Task W D → Bool
  | .callback _ => false
  | .release window => window.id = id

/-- The phases that have given a window back, in order. -/
def releasePhases (id : WindowId) (h : List (Moment W D)) : List Nat :=
  h.filterMap fun
    | .performed phase task => if task.releases id then some phase else none
    | _ => none

@[simp]
theorem releasePhases_append (id : WindowId) (h h' : List (Moment W D)) :
    releasePhases id (h ++ h') = releasePhases id h ++ releasePhases id h' :=
  List.filterMap_append

theorem count_releasePhases (id : WindowId) (h : List (Moment W D)) (phase : Nat) :
    (releasePhases id h).count phase = (performedBy phase h).countP (Task.releases id) := by
  induction h with
  | nil => rfl
  | cons moment h ih =>
    cases moment with
    | performed number task =>
      change (releasePhases id ([.performed number task] ++ h)).count phase =
        (performedBy phase ([.performed number task] ++ h)).countP _
      rw [releasePhases_append, performedBy_append, performedBy_singleton, List.count_append, List.countP_append,
        ih]
      refine congrArg (· + _) ?_
      by_cases hnumber : phase = number
      · cases hreleases : task.releases id <;> simp [releasePhases, hreleases, hnumber]
      · cases hreleases : task.releases id <;> simp [releasePhases, hreleases, hnumber, Ne.symm hnumber]
    | posted | left | opened | worked | began => exact ih

theorem Begun.lt_of_mem_releasePhases {n phase : Nat} {h : List (Moment W D)} (hbegun : Begun n h) {id : WindowId}
    (hphase : phase ∈ releasePhases id h) : phase < n + phases h := by
  by_contra hnumber
  have hcount := count_releasePhases id h phase
  rw [hbegun.performedBy_eq_nil (Nat.not_lt.mp hnumber), List.countP_nil, List.count_eq_zero] at hcount
  exact hcount hphase

theorem mem_scheduled_release {window : Window W} {h : List (Moment W D)} :
    .release window ∈ scheduled h ↔ .left window ∈ h := by
  constructor
  · intro htask
    obtain ⟨moment, hmem, hmoment⟩ := List.mem_filterMap.mp htask
    cases moment <;> cases hmoment
    exact hmem
  · exact fun hmem ↦ List.mem_filterMap.mpr ⟨_, hmem, rfl⟩

theorem mem_of_mem_pending {task : Task W D} {tasks : List (Task W D)} {h : List (Moment W D)}
    (htask : task ∈ pending tasks h) : task ∈ tasks ∨ task ∈ scheduled h := by
  rw [← List.mem_append, append_scheduled]
  exact List.mem_append_right _ htask

/-- A window that does not leave is not scheduled to be given back. -/
theorem countP_scheduled {id : WindowId} {h : List (Moment W D)} (hleft : id ∉ leftIn h) :
    (scheduled h).countP (Task.releases id) = 0 := by
  refine List.countP_eq_zero.mpr fun task htask hreleases ↦ ?_
  cases task with
  | callback => simp [Task.releases] at hreleases
  | release window =>
    have hid : window.id = id := by simpa [Task.releases] using hreleases
    exact hleft (mem_leftIn_iff.mpr ⟨window, mem_scheduled_release.mp htask, hid⟩)

theorem countP_turn_le (p : Task W D → Bool) (n : Nat) (bs : List (List (Task W D))) (number : Nat) :
    (turn n bs number).countP p ≤ bs.flatten.countP p := by
  unfold turn
  split
  · exact Nat.zero_le _
  · cases hbatch : bs[number - n]? with
    | none => exact Nat.zero_le _
    | some batch => exact (List.sublist_flatten_of_mem (List.mem_of_getElem? hbatch)).countP_le

/-- What is not scheduled does not come into a batch. -/
theorem countP_turn_batches {p : Task W D → Bool} {h : List (Moment W D)} (hnone : (scheduled h).countP p = 0)
    (n number : Nat) : (turn n (batches [] h) number).countP p = 0 := by
  have hscheduled := congrArg (List.countP p) (append_scheduled [] h)
  rw [List.nil_append, hnone, List.countP_append] at hscheduled
  have hle := countP_turn_le p n (batches [] h) number
  omega

theorem countP_pending {p : Task W D → Bool} {h : List (Moment W D)} (hnone : (scheduled h).countP p = 0) :
    (pending [] h).countP p = 0 := by
  have hscheduled := congrArg (List.countP p) (append_scheduled [] h)
  rw [List.nil_append, hnone, List.countP_append] at hscheduled
  omega

/-- What waits at first comes into the first batch. -/
theorem batches_eq (tasks : List (Task W D)) (h : List (Moment W D)) :
    batches tasks h = (batches [] h).modifyHead (tasks ++ ·) := by
  induction h generalizing tasks with
  | nil => rfl
  | cons moment h ih =>
    rw [batches, batches]
    cases moment.begins with
    | true => simp
    | false =>
      simp only [Bool.false_eq_true, if_false]
      rw [ih (tasks ++ _), ih ([] ++ _), List.modifyHead_modifyHead]
      simp [Function.comp_def]

theorem turn_batches (n : Nat) (tasks : List (Task W D)) (h : List (Moment W D)) (number : Nat) :
    turn n (batches tasks h) number =
      (if number = n ∧ phases h ≠ 0 then tasks else []) ++ turn n (batches [] h) number := by
  rw [batches_eq, ← length_batches [] h]
  cases batches [] h with
  | nil => simp [turn_nil]
  | cons b bs =>
    change turn n ([tasks ++ b] ++ bs) number = _ ++ turn n ([b] ++ bs) number
    rw [turn_append, turn_append, turn_singleton, turn_singleton]
    by_cases hnumber : number = n
    · simp [hnumber]
    · simp [hnumber]

namespace Desktop

section

variable {program : Program W D A} {d e : Desktop W D A} (hd : d.Registered) (hdeferred : d.deferred = [])
include hdeferred

/-- A window that has not left is not given back. -/
theorem Course.releasePhases_eq_nil {h : List (Moment W D)} (hcourse : Course program .free 0 d h e)
    {id : WindowId} (hleft : id ∉ leftIn h) : releasePhases id h = [] := by
  refine List.eq_nil_iff_forall_not_mem.mpr fun phase ↦ ?_
  rw [← List.count_eq_zero, count_releasePhases, hcourse.performedBy_eq_turn hdeferred]
  exact countP_turn_batches (countP_scheduled hleft) 0 phase

variable {before behind : List (Moment W D)} {window : Window W}
  (hcourse : Course program .free 0 d (before ++ .left window :: behind) e)
include hd hcourse

/-- A window that has left is given back by the first phase that begins then. -/
theorem Course.releasePhases_eq : releasePhases window.id (before ++ .left window :: behind) =
    if phases behind = 0 then [] else [phases before] := by
  obtain ⟨hbefore, hbehind⟩ := hcourse.enrolls.left_once hd.bounded
  have hlater : window.id ∉ leftIn behind := by
    intro hleft
    obtain ⟨other, hmem, hid⟩ := mem_leftIn_iff.mp hleft
    exact hbehind _ hmem (congrArg some hid)
  have hcount (phase : Nat) : (releasePhases window.id (before ++ .left window :: behind)).count phase =
      if phase = phases before ∧ phases behind ≠ 0 then 1 else 0 := by
    have hmoments : batches (pending [] before) (.left window :: behind) =
        batches (pending [] before ++ [.release window]) behind := rfl
    rw [count_releasePhases, hcourse.performedBy_eq_turn hdeferred, batches_append, turn_append, length_batches,
      hmoments, Nat.zero_add, turn_batches (phases before), List.countP_append, List.countP_append,
      countP_turn_batches (countP_scheduled hbefore), countP_turn_batches (countP_scheduled hlater)]
    split
    · rw [List.countP_append, countP_pending (countP_scheduled hbefore)]
      simp [Task.releases]
    · rfl
  split
  · refine List.eq_nil_iff_forall_not_mem.mpr fun phase ↦ List.count_eq_zero.mp ?_
    rw [hcount, if_neg fun hboth ↦ hboth.2 ‹_›]
  · refine List.perm_singleton.mp (List.perm_iff_count.mpr fun phase ↦ ?_)
    rw [hcount, List.count_singleton]
    by_cases hphase : phase = phases before
    · simp [hphase, ‹¬ phases behind = 0›]
    · simp [hphase, Ne.symm hphase]

/-- It is not given back before that phase begins. -/
theorem Course.not_released {rest : List (Moment W D)} (hrest : rest <+: behind) (hphases : phases rest = 0) :
    releasePhases window.id (before ++ .left window :: rest) = [] := by
  obtain ⟨later, rfl⟩ := hrest
  have hbegun : Begun 0 ((before ++ .left window :: rest) ++ later) := by
    simpa using hcourse.begun trivial
  have hall := hcourse.releasePhases_eq hd hdeferred
  refine List.eq_nil_iff_forall_not_mem.mpr fun phase hphase ↦ ?_
  have hlt := (begun_append.mp hbegun).1.lt_of_mem_releasePhases hphase
  have hmem : phase ∈ releasePhases window.id (before ++ .left window :: (rest ++ later)) := by
    have hsplit : before ++ .left window :: (rest ++ later) = (before ++ .left window :: rest) ++ later := by simp
    rw [hsplit, releasePhases_append]
    exact List.mem_append_left _ hphase
  have hnumber : phases (before ++ .left window :: rest) = phases before := by
    rw [phases_append]
    exact congrArg (phases before + ·) hphases
  rw [hall] at hmem
  split at hmem
  · cases hmem
  · rw [List.mem_singleton.mp hmem, hnumber] at hlt
    omega

end

end Desktop

end RetainedUi
