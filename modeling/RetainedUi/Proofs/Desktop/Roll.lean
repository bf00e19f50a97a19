import RetainedUi.Proofs.Desktop.Course

/-!
# The list of open windows along a run

Windows are numbered in the order of opening, and only windows that are listed are worked on or leave the list. So
a history tells which windows are listed at its end: those that were opened and did not leave, in the order of
opening. A window that has left is not mentioned again.
-/

namespace RetainedUi

variable {W D A : Type}

namespace Moment

/-- The window that something happened to. -/
def window? : Moment W D → Option WindowId
  | opened id => some id
  | worked id => some id
  | left window => some window.id
  | _ => none

end Moment

/-- The windows that were opened, in order. -/
def openedIn (h : List (Moment W D)) : List WindowId :=
  h.filterMap fun
    | .opened id => some id
    | _ => none

/-- The windows that left the list, in order. -/
def leftIn (h : List (Moment W D)) : List WindowId :=
  h.filterMap fun
    | .left window => some window.id
    | _ => none

theorem mem_leftIn_iff {id : WindowId} {h : List (Moment W D)} :
    id ∈ leftIn h ↔ ∃ window, .left window ∈ h ∧ window.id = id := by
  constructor
  · intro hid
    obtain ⟨moment, hmem, hmoment⟩ := List.mem_filterMap.mp hid
    cases moment with
    | left window => exact ⟨window, hmem, Option.some.inj hmoment⟩
    | _ => cases hmoment
  · rintro ⟨window, hmem, rfl⟩
    exact List.mem_filterMap.mpr ⟨_, hmem, rfl⟩

/-- The listed windows, and the number of the one that is opened next. -/
structure Roll where
  next : Nat
  ids : List WindowId

/-- No number is ahead of those that were given. -/
def Roll.Bounded (r : Roll) : Prop := ∀ id ∈ r.ids, id.number < r.next

/-- How a history changes the list. -/
inductive Enrolls : Roll → List (Moment W D) → Roll → Prop where
  | nil (r : Roll) : Enrolls r [] r
  | opened {next : Nat} {ids : List WindowId} {h : List (Moment W D)} {r : Roll}
      (hrest : Enrolls ⟨next + 1, ids ++ [⟨next⟩]⟩ h r) : Enrolls ⟨next, ids⟩ (.opened ⟨next⟩ :: h) r
  | worked {s r : Roll} {id : WindowId} {h : List (Moment W D)} (hid : id ∈ s.ids) (hrest : Enrolls s h r) :
      Enrolls s (.worked id :: h) r
  | left {next : Nat} {ids : List WindowId} {window : Window W} {h : List (Moment W D)} {r : Roll}
      (hid : window.id ∈ ids) (hrest : Enrolls ⟨next, ids.filter (· != window.id)⟩ h r) :
      Enrolls ⟨next, ids⟩ (.left window :: h) r
  /-- Callbacks and phases leave the list alone. -/
  | other {s r : Roll} {moment : Moment W D} {h : List (Moment W D)} (hmoment : moment.window? = none)
      (hrest : Enrolls s h r) : Enrolls s (moment :: h) r

namespace Enrolls

variable {r s t : Roll} {h h' : List (Moment W D)}

theorem trans (hfirst : Enrolls r h s) (hrest : Enrolls s h' t) : Enrolls r (h ++ h') t := by
  induction hfirst with
  | nil => exact hrest
  | opened _ ih => exact .opened (ih hrest)
  | worked hid _ ih => exact .worked hid (ih hrest)
  | left hid _ ih => exact .left hid (ih hrest)
  | other hmoment _ ih => exact .other hmoment (ih hrest)

theorem exists_of_append (hall : Enrolls r (h ++ h') t) : ∃ s, Enrolls r h s ∧ Enrolls s h' t := by
  induction h generalizing r with
  | nil => exact ⟨r, .nil r, hall⟩
  | cons moment h ih =>
    cases hall with
    | opened hrest =>
      obtain ⟨s, hfirst, hrest⟩ := ih hrest
      exact ⟨s, .opened hfirst, hrest⟩
    | worked hid hrest =>
      obtain ⟨s, hfirst, hrest⟩ := ih hrest
      exact ⟨s, .worked hid hfirst, hrest⟩
    | left hid hrest =>
      obtain ⟨s, hfirst, hrest⟩ := ih hrest
      exact ⟨s, .left hid hfirst, hrest⟩
    | other hmoment hrest =>
      obtain ⟨s, hfirst, hrest⟩ := ih hrest
      exact ⟨s, .other hmoment hfirst, hrest⟩

theorem bounded_opened {next : Nat} {ids : List WindowId} (hbounded : Roll.Bounded ⟨next, ids⟩) :
    Roll.Bounded ⟨next + 1, ids ++ [⟨next⟩]⟩ := by
  intro id hid
  rcases List.mem_append.mp hid with hold | hnew
  · exact Nat.lt_succ_of_lt (hbounded id hold)
  · rw [List.mem_singleton.mp hnew]
    exact Nat.lt_succ_self next

theorem bounded_left {next : Nat} {ids : List WindowId} (hbounded : Roll.Bounded ⟨next, ids⟩) (id : WindowId) :
    Roll.Bounded ⟨next, ids.filter (· != id)⟩ :=
  fun other hother ↦ hbounded other (List.mem_of_mem_filter hother)

theorem bounded (hrolls : Enrolls r h s) (hr : r.Bounded) : s.Bounded := by
  induction hrolls with
  | nil => exact hr
  | opened _ ih => exact ih (bounded_opened hr)
  | worked _ _ ih => exact ih hr
  | left _ _ ih => exact ih (bounded_left hr _)
  | other _ _ ih => exact ih hr

/-- Windows are numbered in the order of opening. -/
theorem openedIn_eq (hrolls : Enrolls r h s) :
    openedIn h = (List.range' r.next (openedIn h).length).map WindowId.mk ∧
      s.next = r.next + (openedIn h).length := by
  induction hrolls with
  | nil => exact ⟨rfl, rfl⟩
  | @opened next _ h _ _ ih =>
    obtain ⟨hids, hnext⟩ := ih
    have hopened : openedIn (.opened ⟨next⟩ :: h) = ⟨next⟩ :: openedIn h := rfl
    rw [hopened, List.length_cons, List.range'_succ, List.map_cons, ← hids, hnext]
    exact ⟨rfl, by dsimp only; omega⟩
  | worked _ _ ih => exact ih
  | left _ _ ih => exact ih
  | @other _ _ moment h hmoment _ ih =>
    have hopened : openedIn (moment :: h) = openedIn h := by cases moment <;> first | rfl | cases hmoment
    rw [hopened]
    exact ih

/-- A window that is not listed and was opened before is not mentioned. -/
theorem not_mentioned (hrolls : Enrolls r h s) {id : WindowId} (hid : id ∉ r.ids) (hnumber : id.number < r.next) :
    (∀ moment ∈ h, moment.window? ≠ some id) ∧ id ∉ s.ids := by
  induction hrolls with
  | nil => exact ⟨by simp, hid⟩
  | @opened next ids h _ _ ih =>
    have hne : id ≠ ⟨next⟩ := fun heq ↦ Nat.ne_of_lt hnumber (congrArg WindowId.number heq)
    obtain ⟨hrest, hlisted⟩ := ih (by simpa using ⟨hid, hne⟩) (Nat.lt_succ_of_lt hnumber)
    refine ⟨List.forall_mem_cons.mpr ⟨?_, hrest⟩, hlisted⟩
    exact fun hsome ↦ hne (Option.some.inj hsome).symm
  | worked hlisted _ ih =>
    obtain ⟨hrest, hend⟩ := ih hid hnumber
    refine ⟨List.forall_mem_cons.mpr ⟨fun hsome ↦ hid ?_, hrest⟩, hend⟩
    exact Option.some.inj hsome ▸ hlisted
  | left hlisted _ ih =>
    obtain ⟨hrest, hend⟩ := ih (fun hmem ↦ hid (List.mem_of_mem_filter hmem)) hnumber
    refine ⟨List.forall_mem_cons.mpr ⟨fun hsome ↦ hid ?_, hrest⟩, hend⟩
    exact Option.some.inj hsome ▸ hlisted
  | other hmoment _ ih =>
    obtain ⟨hrest, hend⟩ := ih hid hnumber
    exact ⟨List.forall_mem_cons.mpr ⟨by simp [hmoment], hrest⟩, hend⟩

/-- Windows stay in the order of opening, and stay unless they leave. -/
theorem ids_eq (hrolls : Enrolls r h s) (hr : r.Bounded) :
    s.ids = (r.ids ++ openedIn h).filter (· ∉ leftIn h) := by
  induction hrolls with
  | nil r => simp [openedIn, leftIn]
  | @opened next ids h _ _ ih =>
    have hopened : openedIn (.opened ⟨next⟩ :: h) = ⟨next⟩ :: openedIn h := rfl
    rw [ih (bounded_opened hr), hopened, List.append_assoc]
    rfl
  | worked _ _ ih => exact ih hr
  | @left next ids window h _ hid hrest ih =>
    have hopened : openedIn (.left window :: h) = openedIn h := rfl
    have hleft : leftIn (.left window :: h) = window.id :: leftIn h := rfl
    have hlater : window.id ∉ openedIn h := by
      rw [hrest.openedIn_eq.1]
      intro hmem
      obtain ⟨number, hnumber, heq⟩ := List.mem_map.mp hmem
      have hlow : next ≤ number := (List.mem_range'_1.mp hnumber).1
      have hhigh : window.id.number < next := hr _ hid
      rw [← heq] at hhigh
      exact Nat.not_lt.mpr hlow hhigh
    have hkept : ids.filter (· != window.id) ++ openedIn h = (ids ++ openedIn h).filter (· != window.id) := by
      rw [List.filter_append]
      refine congrArg _ (List.filter_eq_self.mpr fun id hmem ↦ ?_).symm
      simpa using fun heq : id = window.id ↦ hlater (heq ▸ hmem)
    rw [ih (bounded_left hr _), hopened, hleft, hkept, List.filter_filter]
    refine List.filter_congr fun id _ ↦ ?_
    rw [Bool.eq_iff_iff]
    simp [and_comm]
  | @other _ _ moment h hmoment _ ih =>
    have hopened : openedIn (moment :: h) = openedIn h := by cases moment <;> first | rfl | cases hmoment
    have hleft : leftIn (moment :: h) = leftIn h := by cases moment <;> first | rfl | cases hmoment
    rw [hopened, hleft]
    exact ih hr

theorem left_listed {window : Window W} (hrolls : Enrolls r (.left window :: h) s) : window.id ∈ r.ids := by
  cases hrolls with
  | left hid => exact hid
  | other hmoment => cases hmoment

/-- A window that leaves the list has not left before, and it is not mentioned again. -/
theorem left_once {window : Window W} {before behind : List (Moment W D)}
    (hrolls : Enrolls r (before ++ .left window :: behind) s) (hr : r.Bounded) :
    window.id ∉ leftIn before ∧ (∀ moment ∈ behind, moment.window? ≠ some window.id) := by
  obtain ⟨mid, hbefore, hrest⟩ := exists_of_append hrolls
  have hmid := hbefore.bounded hr
  cases hrest with
  | @left next ids _ _ _ hid hbehind =>
    constructor
    · have hids : ids = _ := hbefore.ids_eq hr
      rw [hids] at hid
      simpa using List.of_mem_filter hid
    · exact (hbehind.not_mentioned (by simp) (hmid _ hid)).1
  | other hmoment => cases hmoment

end Enrolls

namespace Desktop

/-! ## Courses -/

/-- The list of a desktop. -/
def roll (d : Desktop W D A) : Roll := ⟨d.nextWindow, d.windowIds⟩

theorem Registered.bounded {d : Desktop W D A} (hd : d.Registered) : d.roll.Bounded :=
  fun id hid ↦ hd.lt_next id (hd.subset hid)

theorem roll_onWindow {α : Type} {d e : Desktop W D A} {id : WindowId} {pass : Pass (Pane W A) α}
    (hpass : Pane.KeepsId pass) {found : Option α} (h : onWindow id pass d = .ok found e) : e.roll = d.roll := by
  obtain ⟨-, rfl, -⟩ | ⟨answer, window, screen, pane, -, hwindow, -, hrun, rfl⟩ := onWindow_eq_ok h
  · rfl
  · have hid : window.id = id := by simpa using List.find?_some hwindow
    have hkept := hpass ⟨window, screen, d.ambient⟩
    rw [hrun] at hkept
    exact congrArg (Roll.mk d.nextWindow) (Registered.windowIds_putPane id (hkept.symm.trans hid))

theorem roll_releaseWindow {d e : Desktop W D A} {window : Window W}
    (h : releaseWindow window d = .ok () e) : e.roll = d.roll := by
  obtain ⟨-, rfl⟩ | ⟨_, _, -, rfl⟩ := releaseWindow_eq_ok h <;> rfl

theorem Act.enrolls {d e : Desktop W D A} {own : List (Moment W D)} (hact : Act d own e) :
    Enrolls d.roll own e.roll := by
  cases hact with
  | post => exact .other rfl (.nil _)
  | openWindow h =>
    obtain ⟨_, hanswer, -⟩ | ⟨mid, screen, hanswer, hadds, hend⟩ := openWindow_eq_ok h
    · cases hanswer
    · cases hanswer
      have hmid : mid.roll = ⟨d.nextWindow + 1, d.windowIds ++ [⟨d.nextWindow⟩]⟩ := by
        obtain ⟨window, hwindows, hid⟩ := hadds.windows
        rw [roll, hadds.nextWindow, windowIds, hwindows, List.map_append, List.map_singleton, hid]
        rfl
      have hsame : e.roll = mid.roll := by
        obtain rfl | ⟨_, hshown⟩ := hend
        · rfl
        · exact roll_onWindow Pane.keepsIdentity_reveal.keepsId hshown
      rw [hsame, hmid]
      exact .opened (.nil _)
  | @closeWindow _ _ id window hwindow h =>
    have hid : window.id = id := by simpa using List.find?_some hwindow
    have hlisted : id ∈ d.windowIds := hid ▸ List.mem_map_of_mem (List.mem_of_find?_eq_some hwindow)
    have hclose : window.close.1.id = id := by
      rw [← hid]
      unfold Window.close
      split <;> rfl
    rw [Desktop.closeWindow, Pass.bind_get, hwindow] at h
    cases h
    refine .left (hclose ▸ hlisted) ?_
    have hkept : (d.windows.filter (·.id != id)).map Window.id = d.windowIds.filter (· != window.close.1.id) := by
      rw [windowIds, List.filter_map, hclose]
      rfl
    rw [← hkept]
    exact .nil _
  | @work _ _ _ id _ _ hkeeps _ h =>
    rw [roll_onWindow hkeeps h]
    obtain ⟨hnone, -⟩ | ⟨_, window, _, _, -, hwindow, -⟩ := onWindow_eq_ok h
    · cases hnone
    · have hid : window.id = id := by simpa using List.find?_some hwindow
      exact .worked (hid ▸ List.mem_map_of_mem (List.mem_of_find?_eq_some hwindow)) (.nil _)
  | adjust hwindows _ hnext _ =>
    have hsame : e.roll = d.roll := by rw [roll, roll, windowIds, hwindows, hnext]; rfl
    rw [hsame]
    exact .nil _

theorem Act.left_listed {d e : Desktop W D A} {own : List (Moment W D)} (hact : Act d own e) {window : Window W}
    (hleft : .left window ∈ own) : window.id ∈ d.windowIds := by
  have hrolls := hact.enrolls
  cases hact with
  | closeWindow =>
    cases List.mem_singleton.mp hleft
    exact hrolls.left_listed
  | post | openWindow | work => cases List.mem_singleton.mp hleft
  | adjust => cases hleft

theorem Course.enrolls {program : Program W D A} {scope : Scope W D} {n : Nat} {d e : Desktop W D A}
    {h : List (Moment W D)} (hcourse : Course program scope n d h e) : Enrolls d.roll h e.roll := by
  induction hcourse with
  | rest | finished => exact .nil _
  | act hact _ ih => exact hact.enrolls.trans ih
  | phase _ _ ih ih' => exact .other rfl (ih.trans ih')
  | callback _ _ _ ih ih' => exact .other rfl (ih.trans ih')
  | release hrun _ ih => exact .other rfl (roll_releaseWindow hrun ▸ ih)

end Desktop

end RetainedUi
