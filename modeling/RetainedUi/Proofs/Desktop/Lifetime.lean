import RetainedUi.Proofs.Desktop.Release

/-!
# The life of a window

Windows are numbered in the order of opening, and are listed until they leave. Once a window has left the list,
nothing happens to it any more, except that its screen is told once that the window is given back. That is done by
the first phase that begins then.
-/

namespace RetainedUi

variable {W D A α : Type}

namespace Headless

theorem screen?_setScreen (p : Headless) (id : WindowId) (screen : Screen) (other : WindowId) :
    (p.setScreen id screen).screen? other =
      if other = id then (p.screen? other).map fun _ ↦ screen else p.screen? other := by
  unfold screen? setScreen
  induction p.screens with
  | nil => simp
  | cons entry screens ih =>
    obtain ⟨key, first⟩ := entry
    dsimp only at ih ⊢
    rw [List.map_cons]
    by_cases hkey : key = id
    · rw [if_pos hkey, List.lookup_cons, List.lookup_cons, ih, hkey]
      cases hother : other == id with
      | true => simp [eq_of_beq hother]
      | false => simp [ne_of_beq_false hother]
    · rw [if_neg hkey, List.lookup_cons, List.lookup_cons, ih]
      cases hother : other == key with
      | true => simp [eq_of_beq hother, hkey]
      | false => rfl

end Headless

namespace Screen

/-- All that the second screen got to know beyond the first is that textures are not needed any more. -/
def Fades (s t : Screen) : Prop :=
  ∃ calls, t.recorder.log.toList = s.recorder.log.toList ++ calls ∧
    ∀ call ∈ calls, ∃ texture, call = .releaseTexture texture

theorem Fades.refl (s : Screen) : s.Fades s := ⟨[], (List.append_nil _).symm, by simp⟩

theorem Fades.trans {s t u : Screen} (h : s.Fades t) (h' : t.Fades u) : s.Fades u := by
  obtain ⟨calls, hlog, hcalls⟩ := h
  obtain ⟨calls', hlog', hcalls'⟩ := h'
  exact ⟨calls ++ calls', by rw [hlog', hlog, List.append_assoc], fun call hcall ↦
    (List.mem_append.mp hcall).elim (hcalls call) (hcalls' call)⟩

theorem Fades.release (w : Window W) (s : Screen) : s.Fades (w.release s).1 := by
  have hfold (entries : List (String × CachedTexture)) (r : Recorder) : ∃ calls,
      (entries.foldl (fun r entry ↦ r.releaseTexture entry.2.texture) r).log.toList = r.log.toList ++ calls ∧
        ∀ call ∈ calls, ∃ texture, call = .releaseTexture texture := by
    induction entries generalizing r with
    | nil => exact ⟨[], (List.append_nil _).symm, by simp⟩
    | cons entry entries ih =>
      obtain ⟨calls, hlog, hcalls⟩ := ih (r.releaseTexture entry.2.texture)
      refine ⟨.releaseTexture entry.2.texture :: calls, ?_, List.forall_mem_cons.mpr ⟨⟨_, rfl⟩, hcalls⟩⟩
      rw [List.foldl_cons, hlog, Recorder.releaseTexture, Recorder.record, Array.toList_push, List.append_assoc]
      rfl
  exact hfold w.textures.entries s.recorder

end Screen

namespace Desktop

/-- Whether a window was given back to the windowing system. -/
def givenBack (d : Desktop W D A) (id : WindowId) : Bool := (d.platform.screen? id).any (·.released)

/-- All windows that tasks give back have screens. -/
def Owes (d : Desktop W D A) (tasks : List (Task W D)) : Prop :=
  ∀ window, .release window ∈ tasks → window.id ∈ d.screenIds

/-- What the phase that a course is in has still to run. -/
def Scope.tasks : Scope W D → List (Task W D)
  | .free => []
  | .phase _ tasks => tasks

variable {d e : Desktop W D A}

theorem Registered.screen?_nextId (hd : d.Registered) : d.platform.screen? d.nextId = none := by
  cases hscreen : d.platform.screen? d.nextId with
  | none => rfl
  | some screen => exact absurd (hd.lt_next _ (exists_screen_iff.mp ⟨screen, hscreen⟩)) (Nat.lt_irrefl _)

theorem Adds.screen?_eq {screen : Screen} (hadds : Adds d e screen) (id : WindowId) :
    e.platform.screen? id = (d.platform.screen? id).or (if id = d.nextId then some screen else none) := by
  rw [Headless.screen?, hadds.screens, List.lookup_append, List.lookup_cons]
  refine congrArg (Option.or _) ?_
  cases hid : id == d.nextId with
  | true => rw [if_pos (eq_of_beq hid)]
  | false => rw [if_neg (ne_of_beq_false hid), List.lookup_nil]

theorem screen?_onWindow {id other : WindowId} {pass : Pass (Pane W A) α} {found : Option α}
    (h : onWindow id pass d = .ok found e) (hother : other ≠ id) :
    e.platform.screen? other = d.platform.screen? other := by
  obtain ⟨-, rfl, -⟩ | ⟨_, _, _, pane, -, -, -, -, rfl⟩ := onWindow_eq_ok h
  · rfl
  · exact (Headless.screen?_setScreen _ _ _ _).trans (if_neg hother)

theorem screenIds_onWindow {id : WindowId} {pass : Pass (Pane W A) α} {found : Option α}
    (h : onWindow id pass d = .ok found e) : e.screenIds = d.screenIds := by
  obtain ⟨-, rfl, -⟩ | ⟨_, _, _, pane, -, -, -, -, rfl⟩ := onWindow_eq_ok h
  · rfl
  · exact Registered.screenIds_setScreen _ _ _

theorem screenIds_releaseWindow {window : Window W} (h : releaseWindow window d = .ok () e) :
    e.screenIds = d.screenIds := by
  obtain ⟨-, rfl⟩ | ⟨_, _, -, rfl⟩ := releaseWindow_eq_ok h
  · rfl
  · exact Registered.screenIds_setScreen _ _ _

theorem givenBack_onWindow {id : WindowId} {pass : Pass (Pane W A) α} {found : Option α}
    (hreleased : Pane.KeepsReleased pass) (h : onWindow id pass d = .ok found e) (other : WindowId) :
    e.givenBack other = d.givenBack other := by
  by_cases hother : other = id
  · subst hother
    obtain ⟨-, rfl, -⟩ | ⟨_, window, screen, pane, -, -, hscreen, hrun, rfl⟩ := onWindow_eq_ok h
    · rfl
    · have hkept := hreleased ⟨window, screen, d.ambient⟩
      rw [hrun] at hkept
      change (((d.platform.setScreen other pane.screen).screen? other).any _) = _
      rw [Headless.screen?_setScreen, if_pos rfl, givenBack, hscreen]
      exact hkept.symm
  · rw [givenBack, givenBack, screen?_onWindow h hother]

theorem screen?_releaseWindow {window : Window W} (h : releaseWindow window d = .ok () e) (other : WindowId) :
    e.platform.screen? other =
      if other = window.id then (d.platform.screen? other).map fun screen ↦ (window.release screen).1
      else d.platform.screen? other := by
  obtain ⟨hscreen, rfl⟩ | ⟨screen, _, hscreen, rfl⟩ := releaseWindow_eq_ok h
  · by_cases hother : other = window.id
    · rw [if_pos hother, hother, hscreen]
      rfl
    · rw [if_neg hother]
  · refine (Headless.screen?_setScreen _ _ _ _).trans ?_
    by_cases hother : other = window.id
    · rw [if_pos hother, if_pos hother, hother, hscreen]
      rfl
    · rw [if_neg hother, if_neg hother]

theorem givenBack_releaseWindow {window : Window W} (hwindow : window.id ∈ d.screenIds)
    (h : releaseWindow window d = .ok () e) (other : WindowId) :
    e.givenBack other = (d.givenBack other || decide (window.id = other)) := by
  rw [givenBack, screen?_releaseWindow h]
  by_cases hother : other = window.id
  · obtain ⟨screen, hscreen⟩ := exists_screen_iff.mpr hwindow
    simp [hother, hscreen, Window.release]
  · simp [hother, Ne.symm hother, givenBack]

/-! ## Screens along a course -/

namespace Act

variable {own : List (Moment W D)} (hact : Act d own e)
include hact

theorem screenIds_subset : d.screenIds ⊆ e.screenIds := by
  cases hact with
  | post => exact List.Subset.refl _
  | openWindow h =>
    obtain ⟨_, hanswer, -⟩ | ⟨mid, screen, -, hadds, hend⟩ := openWindow_eq_ok h
    · cases hanswer
    · have hmid : d.screenIds ⊆ mid.screenIds := by
        rw [screenIds, screenIds, hadds.screens, List.map_append]
        exact List.subset_append_left _ _
      obtain rfl | ⟨_, hshown⟩ := hend
      · exact hmid
      · rwa [screenIds_onWindow hshown]
  | closeWindow hwindow h =>
    rw [Desktop.closeWindow, Pass.bind_get, hwindow] at h
    cases h
    exact List.Subset.refl _
  | work _ _ h =>
    rw [screenIds_onWindow h]
    exact List.Subset.refl _
  | adjust _ hscreens =>
    rw [screenIds, screenIds, hscreens]
    exact List.Subset.refl _

/-- Nothing happens to the screens of other windows. -/
theorem screen?_eq {id : WindowId} (hid : ∀ moment ∈ own, moment.window? ≠ some id) :
    e.platform.screen? id = d.platform.screen? id := by
  cases hact with
  | post => rfl
  | openWindow h =>
    obtain ⟨_, hanswer, -⟩ | ⟨mid, screen, hanswer, hadds, hend⟩ := openWindow_eq_ok h
    · cases hanswer
    · cases hanswer
      have hother : id ≠ d.nextId := by simpa [Moment.window?] using (hid _ (List.mem_singleton_self _)).symm
      have hmid : mid.platform.screen? id = d.platform.screen? id := by
        rw [hadds.screen?_eq, if_neg hother, Option.or_none]
      obtain rfl | ⟨_, hshown⟩ := hend
      · exact hmid
      · exact (screen?_onWindow hshown hother).trans hmid
  | closeWindow hwindow h =>
    rw [Desktop.closeWindow, Pass.bind_get, hwindow] at h
    cases h
    rfl
  | @work _ _ _ worked _ _ _ _ h =>
    have hother : id ≠ worked := by simpa [Moment.window?] using (hid _ (List.mem_singleton_self _)).symm
    exact screen?_onWindow h hother
  | adjust _ hscreens => exact congrArg (List.lookup id) hscreens

theorem givenBack_eq (hd : d.Registered) (id : WindowId) : e.givenBack id = d.givenBack id := by
  cases hact with
  | post => rfl
  | openWindow h =>
    obtain ⟨_, hanswer, -⟩ | ⟨mid, screen, -, hadds, hend⟩ := openWindow_eq_ok h
    · cases hanswer
    · have hmid : mid.givenBack id = d.givenBack id := by
        rw [givenBack, hadds.screen?_eq, givenBack]
        by_cases hnew : id = d.nextId
        · have hnone : d.platform.screen? id = none := hnew ▸ hd.screen?_nextId
          rw [hnone, if_pos hnew]
          exact hadds.released
        · rw [if_neg hnew, Option.or_none]
      obtain rfl | ⟨_, hshown⟩ := hend
      · exact hmid
      · exact (givenBack_onWindow Pane.keepsIdentity_reveal.keepsReleased hshown id).trans hmid
  | closeWindow hwindow h =>
    rw [Desktop.closeWindow, Pass.bind_get, hwindow] at h
    cases h
    rfl
  | work _ hreleased h => exact givenBack_onWindow hreleased h id
  | adjust _ hscreens => exact congrArg (fun screens ↦ (List.lookup id screens).any _) hscreens

theorem releasePhases_eq_nil (id : WindowId) : releasePhases id own = [] := by
  cases hact <;> rfl

/-- The windows that are scheduled to be given back have screens. -/
theorem owes (hd : d.Registered) (howes : d.Owes d.deferred) : e.Owes e.deferred := by
  intro window hwindow
  refine hact.screenIds_subset ?_
  rw [hact.deferred_eq] at hwindow
  rcases mem_of_mem_pending hwindow with hold | hnew
  · exact howes window hold
  · exact hd.subset (hact.left_listed (mem_scheduled_release.mp hnew))

end Act

namespace Course

variable {program : Program W D A} {scope : Scope W D} {n : Nat} {h : List (Moment W D)}
  (hcourse : Course program scope n d h e) (hd : d.Registered)
include hcourse

theorem screenIds_subset : d.screenIds ⊆ e.screenIds := by
  induction hcourse with
  | rest | finished => exact List.Subset.refl _
  | act hact _ ih => exact List.Subset.trans hact.screenIds_subset ih
  | phase _ _ ih ih' => exact List.Subset.trans ih ih'
  | callback _ _ _ ih ih' => exact List.Subset.trans ih ih'
  | release hrun _ ih =>
    rw [screenIds_releaseWindow hrun] at ih
    exact ih

include hd

/-- A window that is off the list stays so. -/
theorem not_listed {id : WindowId} (hid : id ∉ d.windowIds) (hscreen : id ∈ d.screenIds) :
    (∀ moment ∈ h, moment.window? ≠ some id) ∧ id ∉ e.windowIds :=
  hcourse.enrolls.not_mentioned hid (hd.lt_next id hscreen)

/-- Once a window is off the list, all that its screen gets to know is that it is given back. -/
theorem exists_fades {id : WindowId} {screen : Screen} (hid : id ∉ d.windowIds)
    (hscreen : d.platform.screen? id = some screen) :
    ∃ after, e.platform.screen? id = some after ∧ screen.Fades after := by
  induction hcourse generalizing screen with
  | rest | finished => exact ⟨screen, hscreen, .refl screen⟩
  | @act _ d mid _ own _ hact _ ih =>
    obtain ⟨hown, hmid⟩ := hact.enrolls.not_mentioned hid (hd.lt_next id (exists_screen_iff.mp ⟨screen, hscreen⟩))
    exact ih (hd.steps hact.steps) hmid ((hact.screen?_eq hown).trans hscreen)
  | phase hphase _ ih ih' =>
    obtain ⟨_, hmid⟩ := hphase.not_listed hd.taken hid (exists_screen_iff.mp ⟨screen, hscreen⟩)
    obtain ⟨between, hbetween, hfirst⟩ := ih hd.taken hid hscreen
    obtain ⟨after, hafter, hlast⟩ := ih' (hphase.registered hd.taken) hmid hbetween
    exact ⟨after, hafter, hfirst.trans hlast⟩
  | callback _ hown _ ih ih' =>
    obtain ⟨_, hmid⟩ := hown.not_listed hd hid (exists_screen_iff.mp ⟨screen, hscreen⟩)
    obtain ⟨between, hbetween, hfirst⟩ := ih hd hid hscreen
    obtain ⟨after, hafter, hlast⟩ := ih' (hown.registered hd) hmid hbetween
    exact ⟨after, hafter, hfirst.trans hlast⟩
  | @release _ _ d mid _ window _ _ hrun _ ih =>
    have hlisted : id ∉ mid.windowIds := by
      have hids : mid.windowIds = d.windowIds := congrArg Roll.ids (roll_releaseWindow hrun)
      rwa [hids]
    obtain ⟨between, hbetween, hfirst⟩ :
        ∃ between, mid.platform.screen? id = some between ∧ screen.Fades between := by
      rw [screen?_releaseWindow hrun, hscreen]
      by_cases hwindow : id = window.id
      · exact ⟨_, if_pos hwindow, .release window screen⟩
      · exact ⟨screen, if_neg hwindow, .refl screen⟩
    obtain ⟨after, hafter, hlast⟩ := ih (hd.of_released hrun) hlisted hbetween
    exact ⟨after, hafter, hfirst.trans hlast⟩

theorem owes (howes : d.Owes d.deferred) : e.Owes e.deferred := by
  induction hcourse with
  | rest | finished => exact howes
  | act hact _ ih => exact ih (hd.steps hact.steps) (hact.owes hd howes)
  | phase hphase _ ih ih' =>
    exact ih' (hphase.registered hd.taken) (ih hd.taken fun _ hwindow ↦ by cases hwindow)
  | callback _ hown _ ih ih' => exact ih' (hown.registered hd) (ih hd howes)
  | release hrun _ ih =>
    refine ih (hd.of_released hrun) ?_
    rw [deferred_releaseWindow hrun]
    intro window hwindow
    rw [screenIds_releaseWindow hrun]
    exact howes window hwindow

/-- A window has been given back just if a phase has done so. -/
theorem givenBack_iff (howes : d.Owes d.deferred) (hscope : d.Owes scope.tasks) (id : WindowId) :
    e.givenBack id = true ↔ d.givenBack id = true ∨ releasePhases id h ≠ [] := by
  have hnone (d : Desktop W D A) : d.Owes [] := fun _ hwindow ↦ by cases hwindow
  have happend (own rest : List (Moment W D)) :
      releasePhases id (own ++ rest) ≠ [] ↔ releasePhases id own ≠ [] ∨ releasePhases id rest ≠ [] := by
    rw [releasePhases_append, ne_eq, List.append_eq_nil_iff, not_and_or]
  induction hcourse with
  | rest | finished => simp [releasePhases]
  | act hact _ ih =>
    refine (ih (hd.steps hact.steps) (hact.owes hd howes) (hnone _)).trans ?_
    rw [hact.givenBack_eq hd, releasePhases_append, hact.releasePhases_eq_nil, List.nil_append]
  | @phase _ d _ _ own rest hphase _ ih ih' =>
    change _ ↔ d.givenBack id = true ∨ releasePhases id (own ++ rest) ≠ []
    rw [happend, ← or_assoc]
    exact (ih' (hphase.registered hd.taken) (hphase.owes hd.taken (hnone _)) (hnone _)).trans
      (or_congr_left (ih hd.taken (hnone _) howes))
  | @callback _ _ d mid _ _ tasks own rest _ hown _ ih ih' =>
    have hrest : mid.Owes tasks := fun window hwindow ↦
      hown.screenIds_subset (hscope window (List.mem_cons_of_mem _ hwindow))
    change _ ↔ d.givenBack id = true ∨ releasePhases id (own ++ rest) ≠ []
    rw [happend, ← or_assoc]
    exact (ih' (hown.registered hd) (hown.owes hd howes) hrest).trans (or_congr_left (ih hd howes (hnone _)))
  | @release current _ d mid _ window tasks rest hrun _ ih =>
    have howes' (others : List (Task W D)) (hothers : d.Owes others) : mid.Owes others := fun window hwindow ↦
      (screenIds_releaseWindow hrun).symm ▸ hothers window hwindow
    have hrest := howes' tasks fun window hwindow ↦ hscope window (List.mem_cons_of_mem _ hwindow)
    have hdeferred : mid.Owes mid.deferred := deferred_releaseWindow hrun ▸ howes' _ howes
    refine (ih (hd.of_released hrun) hdeferred hrest).trans ?_
    rw [givenBack_releaseWindow (hscope window List.mem_cons_self) hrun]
    by_cases hid : window.id = id
    · simp [releasePhases, Task.releases, hid]
    · simp [releasePhases, Task.releases, hid]

end Course

end Desktop

/-! ## Histories of windows -/

/-- A history of windows that are opened, listed and given back in order, given the desktop at its end. -/
structure Lifecycle (h : List (Moment W D)) (d : Desktop W D A) : Prop where
  /-- Windows are numbered in the order of opening, so no number is used again. -/
  numbered : openedIn h = (List.range' 1 (openedIn h).length).map WindowId.mk
  distinct : d.windowIds.Nodup
  /-- Listed are the windows that were opened and have not left, in the order of opening. -/
  listed : d.windowIds = (openedIn h).filter (· ∉ leftIn h)
  /-- Nothing happens to a window that has left the list: it is not handed any input, its events are not
  dispatched, it is not laid out or drawn, and it does not leave again. -/
  gone : ∀ before window behind, h = before ++ .left window :: behind →
    ∀ moment ∈ behind, moment.window? ≠ some window.id
  /-- It is given back once, by the first phase that begins after it has left. -/
  released : ∀ before window behind, h = before ++ .left window :: behind →
    releasePhases window.id h = if phases behind = 0 then [] else [phases before]
  /-- It is not given back before it leaves, nor by what is under way then. -/
  unreleased : ∀ before window rest later, h = before ++ .left window :: (rest ++ later) → phases rest = 0 →
    releasePhases window.id (before ++ .left window :: rest) = []
  /-- A window that has not left is not given back. -/
  kept : ∀ id, id ∉ leftIn h → releasePhases id h = []
  /-- The windowing system has got those windows back that were given back, and no others. -/
  screens : ∀ id screen, d.platform.screen? id = some screen →
    (screen.released = true ↔ releasePhases id h ≠ [])

namespace Desktop

variable {program : Program W D A} {config : PainterConfig} {shared : A}

theorem Course.lifecycle {h : List (Moment W D)} {d : Desktop W D A}
    (hcourse : Course program .free 0 (fresh config shared) h d) : Lifecycle h d := by
  have hfresh : (fresh config shared : Desktop W D A).Registered := .fresh config shared
  have hrolls := hcourse.enrolls
  constructor
  · exact hrolls.openedIn_eq.1
  · exact (hcourse.registered hfresh).windows_nodup
  · exact hrolls.ids_eq hfresh.bounded
  · rintro before window behind rfl
    exact (hrolls.left_once hfresh.bounded).2
  · rintro before window behind rfl
    exact hcourse.releasePhases_eq hfresh rfl
  · rintro before window rest later rfl hrest
    exact hcourse.not_released hfresh rfl (List.prefix_append rest later) hrest
  · exact fun id hid ↦ hcourse.releasePhases_eq_nil rfl hid
  · intro id screen hscreen
    have howes : (fresh config shared : Desktop W D A).Owes [] := fun _ hwindow ↦ by cases hwindow
    have hiff := hcourse.givenBack_iff hfresh howes howes id
    have hflag : d.givenBack id = screen.released := by rw [givenBack, hscreen, Option.any_some]
    rw [← hflag]
    exact hiff.trans (or_iff_right (by simp [givenBack, Headless.screen?, fresh, Headless.fresh]))

/-- Windows live in order, whatever happens: they may be closed by requests, by callbacks, between ticks, and
several at once. A tick that shows all windows takes the closed ones off the list and leaves the others as they are.
The screen of a window that is off the list gets to know nothing but that its textures are not needed any more.

A callback or a caller may tick in turn, and then the first phase that begins may be the one of such a tick. -/
theorem window_lifecycle (hprogram : ∀ callback, Tells program (program.perform callback))
    (hhandling : program.handling.Appends) {past : List (Moment W D)} {d : Desktop W D A}
    (hpast : Course program .free 0 (fresh config shared) past d) :
    Lifecycle past d ∧
      (∀ steps perTick answer e, Tells program perTick → tickWith program steps perTick d = .ok answer e →
        ∃ present, Ticked program steps perTick (phases past) d present answer e ∧
          Course program .free 0 (fresh config shared) (past ++ present) e ∧ Lifecycle (past ++ present) e ∧
          (answer = .ok () → ∃ shown presented, Course program .free (phases past) d shown presented ∧
            present = shown ++ (presented.windows.filter (·.isClosed)).map .left ∧
            e.windows = presented.windows.filter (!·.isClosed))) ∧
      (∀ steps perTick answer e, (∀ number, Tells program (perTick number)) →
        runWith program steps perTick d = .ok answer e →
          ∃ present, Ran program steps perTick (phases past) d present answer e ∧
            Course program .free 0 (fresh config shared) (past ++ present) e ∧ Lifecycle (past ++ present) e) ∧
      ∀ n present e, Course program .free n d present e → ∀ id screen, id ∉ d.windowIds →
        d.platform.screen? id = some screen →
          ∃ after, e.platform.screen? id = some after ∧ screen.Fades after := by
  have hd : d.Registered := hpast.registered (.fresh config shared)
  refine ⟨hpast.lifecycle, fun steps perTick answer e hperTick hrun ↦ ?_,
    fun steps perTick answer e hperTick hrun ↦ ?_, fun n present e hpresent id screen hid hscreen ↦ ?_⟩
  · obtain ⟨present, hticked⟩ := exists_ticked (n := phases past) hhandling hprogram hperTick hd hrun
    have hcourse := hpast.followed (hticked.course hhandling hd)
    refine ⟨present, hticked, hcourse, hcourse.lifecycle, ?_⟩
    rintro rfl
    obtain ⟨shown, swept, presented, rfl, hshown, hswept⟩ := hticked.exists_swept hhandling hd
    cases hswept
    exact ⟨shown, presented, hshown, rfl, rfl⟩
  · obtain ⟨present, hran⟩ := exists_ran (n := phases past) hhandling hprogram hperTick hd hrun
    have hcourse := hpast.followed (hran.course hhandling hd)
    exact ⟨present, hran, hcourse, hcourse.lifecycle⟩
  · exact hpresent.exists_fades hd hid hscreen

/-- A desktop with a hidden window. -/
def hidden : Desktop Unit Unit Unit := Pass.final (openWindow ⟨"", .ofSides 0 0 100 100, false⟩ (fresh ⟨4, 4⟩ ()))

/-- The window is asked to close. -/
def asked : Desktop Unit Unit Unit := { hidden with platform := hidden.platform.push ⟨1⟩ .closeRequested }

/-- The window leaves the list in the first tick, and is given back in the second. -/
theorem window_lifecycle_asked : ∃ (past first second : List (Moment Unit Unit)) (e f : Desktop Unit Unit Unit),
    Course closing .free 0 (fresh ⟨4, 4⟩ ()) past asked ∧ asked.windowIds = [⟨1⟩] ∧
      tick closing 8 asked = .ok (.ok ()) e ∧ Lifecycle (past ++ first) e ∧ e.windowIds = [] ∧
      e.givenBack ⟨1⟩ = false ∧ tick closing 8 e = .ok (.ok ()) f ∧ Lifecycle (past ++ first ++ second) f ∧
      f.givenBack ⟨1⟩ = true := by
  have hprogram : ∀ callback, Tells closing (closing.perform callback) := fun _ ↦
    tellsOnly_bind (tellsOnly_onWindow Pane.keepsIdentity_close trivial) fun _ ↦
      tellsOnly_pure ()
  have hhandling : closing.handling.Appends := by
    rintro widget handle ⟨⟩
  have hpast : Course closing .free 0 (fresh ⟨4, 4⟩ ()) [.opened ⟨1⟩] asked := by
    have hopened : Course closing .free 0 (fresh ⟨4, 4⟩ ()) [.opened ⟨1⟩] hidden :=
      .of_act (.openWindow (eq_ok_of_answer? (by decide +kernel)))
    exact hopened.followed (.of_act (.adjust rfl rfl rfl rfl))
  have hfirst := eq_ok_of_answer? (show answer? (tick closing 8 asked) = some () by decide +kernel)
  have hsecond := eq_ok_of_answer? (show answer? (tick closing 8 (Pass.final (tick closing 8 asked))) = some () by
    decide +kernel)
  obtain ⟨-, hticks, -⟩ := window_lifecycle hprogram hhandling hpast
  obtain ⟨first, -, hcourse, hlife, -⟩ := hticks 8 _ _ _ (tellsOnly_pure ()) hfirst
  obtain ⟨-, hticks, -⟩ := window_lifecycle hprogram hhandling hcourse
  obtain ⟨second, -, -, hlife', -⟩ := hticks 8 _ _ _ (tellsOnly_pure ()) hsecond
  exact ⟨_, first, second, _, _, hpast, by decide +kernel, hfirst, hlife, by decide +kernel, by decide +kernel,
    hsecond, hlife', by decide +kernel⟩

end Desktop

end RetainedUi
