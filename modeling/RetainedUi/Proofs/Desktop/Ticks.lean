import RetainedUi.Proofs.Desktop.Course
import RetainedUi.Proofs.Desktop.Idle
import RetainedUi.Proofs.Routing.Queue

/-!
# What ticks tell

A tick begins with a phase. Then it hands input to windows, dispatches their events, calls back, presents windows
and sweeps the closed ones off the list, and each of these parts tells moments of its own. The callbacks that are
posted while events are dispatched are those that the receivers schedule, in the order in which they were run.

A run tells what its ticks tell, and what its last phase tells if it ends without a fault.
-/

namespace RetainedUi

variable {W D A α : Type}

namespace Pane

/-- What the receivers of the window start from. -/
def desk (s : Pane W A) : Desk W D A := ⟨s.window.forest, s.window.queue, s.window.redirects, [], s.ambient⟩

/-- The callbacks of a dispatch are those that the receivers schedule. -/
theorem dispatch_eq_ok {conduct : HandlingConduct W D A} (hconduct : conduct.Appends) {steps : Nat}
    {s t : Pane W A} {callbacks : List D} (h : dispatch conduct steps s = .ok callbacks t) :
    callbacks = (Routing.deliveries conduct steps s.window.root s.desk).flatMap Delivery.deferred := by
  unfold dispatch at h
  rw [Pass.bind_get] at h
  obtain ⟨answer, mid, hdesk, hanswer⟩ := Pass.bind_eq_ok.mp h
  cases hanswer
  unfold onDesk at hdesk
  cases hrun : Routing.dispatch conduct steps s.window.root s.desk with
  | error halt after =>
    rw [desk] at hrun
    rw [hrun] at hdesk
    cases hdesk
  | ok done after =>
    have hdeferred := Routing.deferred_dispatch hconduct hrun
    rw [desk] at hrun
    rw [hrun] at hdesk
    cases hdesk
    exact hdeferred

end Pane

namespace Desktop

/-! ## Phases -/

section

variable {program : Program W D A} {d e : Desktop W D A}

theorem performAll_cons_eq_ok {task : Task W D} {tasks : List (Task W D)} :
    performAll program (task :: tasks) d = .ok () e ↔
      ∃ mid, perform program task d = .ok () mid ∧ performAll program tasks mid = .ok () e := by
  rw [performAll, Pass.bind_eq_ok]
  constructor
  · rintro ⟨⟨⟩, mid, hfirst, hrest⟩
    refine ⟨mid, ?_, hrest⟩
    change EStateM.tryCatch _ _ d = _ at hfirst
    unfold EStateM.tryCatch at hfirst
    cases hrun : perform program task d with
    | ok _ after =>
      rw [hrun] at hfirst
      exact hfirst
    | error halt after =>
      -- What is left is given up, and then the tasks halt all the same.
      rw [hrun] at hfirst
      obtain ⟨_, _, -, hthrow⟩ := Pass.bind_eq_ok.mp hfirst
      cases hthrow
  · rintro ⟨mid, hfirst, hrest⟩
    refine ⟨(), mid, ?_, hrest⟩
    change EStateM.tryCatch _ _ d = _
    rw [EStateM.tryCatch, hfirst]

variable (hprogram : ∀ callback, Tells program (program.perform callback))
include hprogram

theorem exists_course_performAll {tasks : List (Task W D)} (number n : Nat) (hd : d.Registered)
    (hrun : performAll program tasks d = .ok () e) :
    ∃ h, Course program (.phase number tasks) n d h e := by
  induction tasks generalizing d n with
  | nil =>
    cases hrun
    exact ⟨[], .finished number n _⟩
  | cons task tasks ih =>
    obtain ⟨mid, hfirst, hrest⟩ := performAll_cons_eq_ok.mp hrun
    cases task with
    | callback callback =>
      obtain ⟨own, hown, -⟩ := hprogram callback n d hd () mid hfirst
      obtain ⟨rest, hcourse⟩ := ih _ (hown.registered hd) hrest
      exact ⟨_, .callback hfirst hown hcourse⟩
    | release window =>
      obtain ⟨rest, hcourse⟩ := ih n (hd.of_released hfirst) hrest
      exact ⟨_, .release hfirst hcourse⟩

end

/-! ## Input and presentation -/

section

variable {program : Program W D A}

theorem tellsOnly_takeInput (P : Moment W D → Prop) : TellsOnly program P takeInput := by
  intro n d _ events e hrun
  rw [takeInput_eq] at hrun
  cases hbusy : d.busy with
  | error halt =>
    rw [hbusy] at hrun
    cases hrun
  | ok busy =>
    rw [hbusy] at hrun
    cases busy <;>
    · cases hrun
      exact ⟨[], .of_act (.adjust rfl rfl rfl rfl), by simp⟩

theorem tellsOnly_handInput (events : List (WindowId × ScreenEvent)) :
    TellsOnly program Moment.IsWork (handInput events) :=
  tellsOnly_forM (fun event ↦ tellsOnly_bind
    (tellsOnly_onWindow (Pane.keepsIdentity_receive event.2) ⟨event.1, rfl⟩) fun _ ↦ tellsOnly_pure _) events

theorem tellsOnly_presentWindows (program : Program W D A) (steps : Nat) (ids : List WindowId) :
    TellsOnly program Moment.IsWork (presentWindows program steps ids) := by
  induction ids with
  | nil => exact tellsOnly_pure _
  | cons id ids ih =>
    refine tellsOnly_bind tellsOnly_get fun d ↦ ?_
    refine tellsOnly_bind (tellsOnly_onWindow
      (Pane.keepsIdentity_layoutIfNeeded_present program steps d.platform.outage) ⟨id, rfl⟩) fun answer ↦ ?_
    split
    · exact tellsOnly_pure _
    · exact ih

end

/-! ## Dispatch -/

/-- What the receivers of a window schedule when its events are dispatched. -/
def callbacksOf (program : Program W D A) (steps : Nat) (d : Desktop W D A) (w : Window W) : List D :=
  (Routing.deliveries program.handling steps w.root ⟨w.forest, w.queue, w.redirects, [], d.ambient⟩).flatMap
    Delivery.deferred

/-- What is told of the dispatch in a window. -/
def dispatchMoments (program : Program W D A) (steps : Nat) (d : Desktop W D A) (id : WindowId) :
    List (Moment W D) :=
  match d.window? id with
  | none => []
  | some w => .worked id :: (callbacksOf program steps d w).map .posted

/-- What is told of the dispatch in some windows, one after the other. -/
def dispatchAllMoments (program : Program W D A) (steps : Nat) :
    List WindowId → Desktop W D A → List (Moment W D)
  | [], _ => []
  | id :: ids, d => dispatchMoments program steps d id ++
      dispatchAllMoments program steps ids (Pass.final (dispatchWindow program steps id d))

section

variable {program : Program W D A} {steps n : Nat} {d e : Desktop W D A}

theorem course_posted (callbacks : List D) : Course program .free n d (callbacks.map .posted)
    { d with deferred := d.deferred ++ callbacks.map .callback } := by
  induction callbacks generalizing d with
  | nil =>
    rw [List.map_nil, List.map_nil, List.append_nil]
    exact .rest n d
  | cons callback callbacks ih =>
    have hrest := ih (d := { d with deferred := d.deferred ++ [.callback callback] })
    rw [List.append_assoc] at hrest
    exact .act (.post d callback) hrest

theorem phases_dispatchMoments (id : WindowId) : phases (dispatchMoments program steps d id) = 0 := by
  unfold dispatchMoments
  cases d.window? id with
  | none => rfl
  | some w => simp [phases, Moment.begins, List.countP_eq_zero]

theorem phases_dispatchAllMoments (ids : List WindowId) : phases (dispatchAllMoments program steps ids d) = 0 := by
  induction ids generalizing d with
  | nil => rfl
  | cons id ids ih => rw [dispatchAllMoments, phases_append, phases_dispatchMoments, ih]

variable (hhandling : program.handling.Appends)
include hhandling

theorem course_dispatchWindow (hd : d.Registered) {id : WindowId}
    (hrun : dispatchWindow program steps id d = .ok () e) :
    Course program .free n d (dispatchMoments program steps d id) e := by
  obtain ⟨found, mid, hwork, hposted⟩ := Pass.bind_eq_ok.mp hrun
  cases hposted
  cases hwindow : d.window? id with
  | none =>
    rw [dispatchMoments, hwindow]
    obtain ⟨rfl, rfl, -⟩ | ⟨_, w, _, _, -, hsome, -⟩ := onWindow_eq_ok hwork
    · change Course program .free n mid [] { mid with deferred := mid.deferred ++ [] }
      rw [List.append_nil]
      exact .rest n mid
    · cases hwindow.symm.trans hsome
  | some w =>
    obtain rfl : w.id = id := by simpa using List.find?_some hwindow
    obtain ⟨screen, hscreen⟩ := hd.exists_screen (List.mem_of_find?_eq_some hwindow)
    obtain ⟨-, -, hnone | hnone⟩ | ⟨callbacks, _, _, _, rfl, hwindow', -, hpass, -⟩ := onWindow_eq_ok hwork
    · cases hwindow.symm.trans hnone
    · cases hscreen.symm.trans hnone
    · cases hwindow.symm.trans hwindow'
      have hcallbacks := Pane.dispatch_eq_ok hhandling hpass
      have hkept := Pane.keepsIdentity_dispatch (A := A) program.handling steps
      have hwork' : Act d [.worked w.id] mid := .work hkept.keepsId hkept.keepsReleased hwork
      have hmoments : dispatchMoments program steps d w.id = [.worked w.id] ++ callbacks.map .posted := by
        rw [dispatchMoments, hwindow, hcallbacks]
        rfl
      rw [hmoments]
      exact .act hwork' (course_posted callbacks)

theorem course_dispatchWindows (hd : d.Registered) (ws : List (Window W))
    (hrun : ws.forM (fun w ↦ dispatchWindow program steps w.id) d = .ok ⟨⟩ e) :
    Course program .free n d (dispatchAllMoments program steps (ws.map Window.id) d) e := by
  induction ws generalizing d with
  | nil =>
    cases hrun
    exact .rest n _
  | cons w ws ih =>
    obtain ⟨_, mid, hfirst, hrest⟩ := Pass.bind_eq_ok.mp hrun
    have hcourse : Course program .free n d (dispatchMoments program steps d w.id) mid :=
      course_dispatchWindow hhandling hd hfirst
    have hfinal : Pass.final (dispatchWindow program steps w.id d) = mid := congrArg Pass.final hfirst
    rw [List.map_cons, dispatchAllMoments, hfinal]
    refine hcourse.trans ?_
    rw [phases_dispatchMoments]
    exact ih (hcourse.registered hd) hrest

end

/-! ## Sweeping -/

/-- A tick that shows all windows takes the closed ones off the list and schedules their release. One that meets
with a fault ends there. -/
inductive Swept : Except Fault Unit → Desktop W D A → List (Moment W D) → Desktop W D A → Prop where
  | closed (d : Desktop W D A) : Swept (.ok ()) d ((d.windows.filter (·.isClosed)).map .left)
      { d with
        windows := d.windows.filter (!·.isClosed)
        deferred := d.deferred ++ (d.windows.filter (·.isClosed)).map .release }
  | fault (fault : Fault) (d : Desktop W D A) : Swept (.error fault) d [] d

/-- A sweep that looks at one window after the other. Where a closed window is taken out, the next one takes its
place, and that place is looked at again. -/
def scan : Nat → Nat → Pass (Desktop W D A) Unit
  | 0, _ => pure ()
  | left + 1, place => do
    match (← get).windows[place]? with
    | none => return
    | some window =>
      if window.isClosed then do
        closeWindow window.id
        scan left place
      else scan left (place + 1)

theorem scan_eq {d : Desktop W D A} (hd : d.Registered) {kept rest : List (Window W)}
    (hwindows : d.windows = kept ++ rest) :
    scan rest.length kept.length d = .ok () { d with
      windows := kept ++ rest.filter (!·.isClosed)
      deferred := d.deferred ++ (rest.filter (·.isClosed)).map .release } := by
  induction rest generalizing d kept with
  | nil =>
    change EStateM.Result.ok () d = .ok () { d with windows := kept ++ [], deferred := d.deferred ++ [] }
    rw [List.append_nil d.deferred, ← hwindows]
  | cons w rest ih =>
    have hplace : d.windows[kept.length]? = some w := by
      rw [hwindows, List.getElem?_append_right (Nat.le_refl _), Nat.sub_self]
      rfl
    rw [List.length_cons, scan, Pass.bind_get, hplace]
    dsimp only
    cases hclosed : w.isClosed with
    | true =>
      have hw : w ∈ d.windows := by simp [hwindows]
      have hothers : d.windows.filter (·.id != w.id) = kept ++ rest := by
        rw [hwindows, List.filter_append, List.filter_cons_of_neg (by simp), ← List.filter_append]
        exact List.filter_eq_self.mpr fun x hx ↦ by simpa using hd.id_ne_of_append hwindows x hx
      have hmid : Registered { d with
          windows := d.windows.filter (·.id != w.id)
          deferred := d.deferred ++ [.release w] } := hd.of_fewer (List.filter_sublist.map Window.id) rfl rfl
      rw [if_pos rfl]
      refine (Pass.bind_of_ok (closeWindow_of_closed hd hw hclosed)).trans ?_
      rw [ih hmid hothers]
      simp [hclosed]
    | false =>
      have hkept : d.windows = (kept ++ [w]) ++ rest := by rw [hwindows, List.append_assoc]; rfl
      have hrest := ih hd hkept
      rw [List.length_append, List.length_singleton] at hrest
      rw [if_neg Bool.false_ne_true, hrest]
      simp [hclosed]

theorem scan_eq_sweep {d : Desktop W D A} (hd : d.Registered) : scan d.windows.length 0 d = sweep d := by
  rw [sweep_eq hd]
  exact scan_eq hd (List.nil_append d.windows).symm

theorem course_closeWindows {program : Program W D A} {n : Nat} {d e : Desktop W D A} (hd : d.Registered)
    {ws : List (Window W)} (hws : ws ⊆ d.windows) (hnodup : (ws.map Window.id).Nodup)
    (hclosed : ∀ w ∈ ws, w.isClosed = true) (hrun : ws.forM (fun w ↦ closeWindow w.id) d = .ok ⟨⟩ e) :
    Course program .free n d (ws.map .left) e := by
  induction ws generalizing d with
  | nil =>
    cases hrun
    exact .rest n _
  | cons w ws ih =>
    obtain ⟨hw, hrest⟩ := List.cons_subset.mp hws
    obtain ⟨hout, hnodup⟩ := List.nodup_cons.mp hnodup
    obtain ⟨hwclosed, hclosed⟩ := List.forall_mem_cons.mp hclosed
    have hclose : w.close.1 = w := by rw [Window.close, if_pos hwclosed]
    have hfirst := closeWindow_of_closed hd hw hwclosed
    obtain ⟨_, mid, hmid, hlast⟩ := Pass.bind_eq_ok.mp hrun
    cases hfirst.symm.trans hmid
    have hact : Act d [.left w] _ := hclose ▸ Act.closeWindow (hd.window?_eq hw) hfirst
    refine .act hact (ih (hd.steps hact.steps) ?_ hnodup hclosed hlast)
    intro x hx
    have hne : x.id ≠ w.id := fun hid ↦ hout (hid ▸ List.mem_map_of_mem hx)
    exact List.mem_filter.mpr ⟨hrest hx, by simpa using hne⟩

theorem Swept.course {program : Program W D A} {n : Nat} {answer : Except Fault Unit} {d e : Desktop W D A}
    {h : List (Moment W D)} (hswept : Swept answer d h e) (hd : d.Registered) :
    Course program .free n d h e := by
  cases hswept with
  | fault => exact .rest n d
  | closed =>
    have hrun := sweep_eq hd
    rw [sweep, Pass.bind_get] at hrun
    refine course_closeWindows hd List.filter_sublist.subset ?_ (fun w hw ↦ (List.mem_filter.mp hw).2) hrun
    exact (List.filter_sublist.map Window.id).nodup hd.windows_nodup

/-! ## Ticks -/

/-- What a tick tells, part by part. The number is that of the phase with which the tick begins. -/
inductive Ticked (program : Program W D A) (steps : Nat) (perTick : Pass (Desktop W D A) Unit) (n : Nat)
    (d : Desktop W D A) : List (Moment W D) → Except Fault Unit → Desktop W D A → Prop where
  | intro {performed handed called shown swept : List (Moment W D)} {answer : Except Fault Unit}
      {events : List (WindowId × ScreenEvent)} {afterPhase afterInput handedOver dispatched afterCall presented e :
        Desktop W D A}
      (hperform : performAll program d.deferred { d with deferred := [] } = .ok () afterPhase)
      (hperformed : Course program (.phase n d.deferred) (n + 1) { d with deferred := [] } performed afterPhase)
      (hinput : takeInput afterPhase = .ok events afterInput)
      (hhand : handInput events afterInput = .ok () handedOver)
      (hhanded : Course program .free (n + 1 + phases performed) afterPhase handed handedOver)
      (hhandedWork : ∀ moment ∈ handed, moment.IsWork)
      (hdispatch : handedOver.windows.forM (fun w ↦ dispatchWindow program steps w.id) handedOver =
        .ok ⟨⟩ dispatched)
      (hcall : perTick dispatched = .ok () afterCall)
      (hcalled : Course program .free (n + 1 + phases performed) dispatched called afterCall)
      (hpresent : presentWindows program steps afterCall.windowIds afterCall = .ok answer presented)
      (hshown : Course program .free (n + 1 + phases performed + phases called) afterCall shown presented)
      (hshownWork : ∀ moment ∈ shown, moment.IsWork)
      (hswept : Swept answer presented swept e) :
      Ticked program steps perTick n d (.began :: (performed ++ (handed ++
        (dispatchAllMoments program steps handedOver.windowIds handedOver ++ (called ++ (shown ++ swept))))))
        answer e

/-- The ticks of a run, given how many there have been and the number of the next phase. -/
inductive Looped (program : Program W D A) (steps : Nat) (perTick : Nat → Pass (Desktop W D A) Unit) :
    Nat → Nat → Desktop W D A → List (Moment W D) → Except Fault Unit × Nat → Desktop W D A → Prop where
  | stop {done n : Nat} {d : Desktop W D A} (hstop : (d.quitRequested || d.windows.isEmpty) = true) :
      Looped program steps perTick done n d [] (.ok (), done) d
  | fault {done n : Nat} {d e : Desktop W D A} {h : List (Moment W D)} {fault : Fault}
      (hgo : (d.quitRequested || d.windows.isEmpty) = false)
      (hticked : Ticked program steps (perTick (done + 1)) n d h (.error fault) e) :
      Looped program steps perTick done n d h (.error fault, done + 1) e
  | tick {done n : Nat} {d e f : Desktop W D A} {own rest : List (Moment W D)} {answer : Except Fault Unit × Nat}
      (hgo : (d.quitRequested || d.windows.isEmpty) = false)
      (hticked : Ticked program steps (perTick (done + 1)) n d own (.ok ()) e)
      (hrest : Looped program steps perTick (done + 1) (n + phases own) e rest answer f) :
      Looped program steps perTick done n d (own ++ rest) answer f

/-- What a run tells. The last phase is left out if a tick meets with a fault. -/
inductive Ran (program : Program W D A) (steps : Nat) (perTick : Nat → Pass (Desktop W D A) Unit) (n : Nat)
    (d : Desktop W D A) : List (Moment W D) → Except Fault Unit × Nat → Desktop W D A → Prop where
  | fault {h : List (Moment W D)} {fault : Fault} {done : Nat} {e : Desktop W D A}
      (hlooped : Looped program steps perTick 0 n { d with quitRequested := false } h (.error fault, done) e) :
      Ran program steps perTick n d h (.error fault, done) e
  | drained {h performed : List (Moment W D)} {done : Nat} {mid e : Desktop W D A}
      (hlooped : Looped program steps perTick 0 n { d with quitRequested := false } h (.ok (), done) mid)
      (hperform : performAll program mid.deferred { mid with quitRequested := false, deferred := [] } = .ok () e)
      (hperformed : Course program (.phase (n + phases h) mid.deferred) (n + phases h + 1)
        { mid with quitRequested := false, deferred := [] } performed e) :
      Ran program steps perTick n d (h ++ .began :: performed) (.ok (), done) e

theorem phases_of_isWork {h : List (Moment W D)} (hwork : ∀ moment ∈ h, moment.IsWork) : phases h = 0 := by
  refine List.countP_eq_zero.mpr fun moment hmem ↦ ?_
  obtain ⟨id, rfl⟩ := hwork moment hmem
  simp [Moment.begins]

section

variable {program : Program W D A} (hhandling : program.handling.Appends) {steps n : Nat} {d e : Desktop W D A}
variable {h : List (Moment W D)}
include hhandling

/-- What comes before the sweep, and the sweep. -/
theorem Ticked.exists_swept {perTick : Pass (Desktop W D A) Unit} {answer : Except Fault Unit}
    (hticked : Ticked program steps perTick n d h answer e) (hd : d.Registered) :
    ∃ shown swept presented, h = shown ++ swept ∧ Course program .free n d shown presented ∧
      Swept answer presented swept e := by
  cases hticked with
  | @intro performed handed called shown swept _ _ _ _ handedOver _ _ presented _ _ hperformed _ _ hhanded
      hhandedWork hdispatch _ hcalled _ hshown _ hswept =>
    have hhandedOver := hhanded.registered (hperformed.registered hd.taken)
    have hdispatched := course_dispatchWindows (n := n + 1 + phases performed + phases handed) hhandling
      hhandedOver _ hdispatch
    refine ⟨.began :: (performed ++ (handed ++ (dispatchAllMoments program steps handedOver.windowIds handedOver ++
      (called ++ shown)))), swept, presented, by simp, ?_, hswept⟩
    refine .phase hperformed (hhanded.trans (hdispatched.trans ?_))
    rw [phases_of_isWork hhandedWork, phases_dispatchAllMoments]
    exact hcalled.trans hshown

theorem Ticked.course {perTick : Pass (Desktop W D A) Unit} {answer : Except Fault Unit}
    (hticked : Ticked program steps perTick n d h answer e) (hd : d.Registered) :
    Course program .free n d h e := by
  obtain ⟨shown, swept, presented, rfl, hshown, hswept⟩ := hticked.exists_swept hhandling hd
  exact hshown.trans (hswept.course (hshown.registered hd))

theorem Looped.course {perTick : Nat → Pass (Desktop W D A) Unit} {done : Nat} {answer : Except Fault Unit × Nat}
    (hlooped : Looped program steps perTick done n d h answer e) (hd : d.Registered) :
    Course program .free n d h e := by
  induction hlooped with
  | stop => exact .rest _ _
  | fault _ hticked => exact hticked.course hhandling hd
  | tick _ hticked _ ih =>
    have hcourse := hticked.course hhandling hd
    exact hcourse.trans (ih (hcourse.registered hd))

theorem Ran.course {perTick : Nat → Pass (Desktop W D A) Unit} {answer : Except Fault Unit × Nat}
    (hran : Ran program steps perTick n d h answer e) (hd : d.Registered) : Course program .free n d h e := by
  have hstart : Registered { d with quitRequested := false } := hd.of_fewer (List.Sublist.refl _) rfl rfl
  -- Whether a quit was requested is noted outside of what is told.
  have hadjust (f : Desktop W D A) : Course program .free n f [] { f with quitRequested := false } :=
    .of_act (.adjust rfl rfl rfl rfl)
  cases hran with
  | fault hlooped => exact (hadjust d).trans (hlooped.course hhandling hstart)
  | @drained h performed _ mid _ hlooped _ hperformed =>
    have hphase : Course program .free (n + phases h) { mid with quitRequested := false }
        (.began :: (performed ++ [])) e := .phase hperformed (.rest _ _)
    rw [List.append_nil] at hphase
    have hquit : Course program .free (n + phases h) mid [] { mid with quitRequested := false } :=
      .of_act (.adjust rfl rfl rfl rfl)
    exact ((hadjust d).trans (hlooped.course hhandling hstart)).trans (hquit.trans hphase)

variable (hprogram : ∀ callback, Tells program (program.perform callback))
include hprogram

/-- Every tick that comes to an answer tells its parts. -/
theorem exists_ticked {perTick : Pass (Desktop W D A) Unit} (hperTick : Tells program perTick) (hd : d.Registered)
    {answer : Except Fault Unit} (hrun : tickWith program steps perTick d = .ok answer e) :
    ∃ h, Ticked program steps perTick n d h answer e := by
  unfold tickWith at hrun
  obtain ⟨_, afterPhase, hphase, hrun⟩ := Pass.bind_eq_ok.mp hrun
  obtain ⟨events, afterInput, hinput, hrun⟩ := Pass.bind_eq_ok.mp hrun
  obtain ⟨_, handedOver, hhand, hrun⟩ := Pass.bind_eq_ok.mp hrun
  rw [Pass.bind_get] at hrun
  obtain ⟨_, dispatched, hdispatch, hrun⟩ := Pass.bind_eq_ok.mp hrun
  obtain ⟨_, afterCall, hcall, hrun⟩ := Pass.bind_eq_ok.mp hrun
  rw [Pass.bind_get] at hrun
  obtain ⟨shownAll, presented, hpresent, hrun⟩ := Pass.bind_eq_ok.mp hrun
  obtain ⟨performed, hperformed⟩ := exists_course_performAll hprogram n (n + 1) hd.taken hphase
  have hafterPhase := hperformed.registered hd.taken
  have htakes : TellsOnly program Moment.IsWork (takeInput >>= handInput) :=
    tellsOnly_bind (tellsOnly_takeInput Moment.IsWork) tellsOnly_handInput
  obtain ⟨handed, hhanded, hhandedWork⟩ := htakes (n + 1 + phases performed) afterPhase hafterPhase () handedOver
    (Pass.bind_eq_ok.mpr ⟨events, afterInput, hinput, hhand⟩)
  have hhandedOver := hhanded.registered hafterPhase
  have hdispatched : dispatched.Registered :=
    (course_dispatchWindows (n := 0) hhandling hhandedOver _ hdispatch).registered hhandedOver
  obtain ⟨called, hcalled, -⟩ := hperTick (n + 1 + phases performed) dispatched hdispatched () afterCall hcall
  have hafterCall := hcalled.registered hdispatched
  obtain ⟨shown, hshown, hshownWork⟩ := tellsOnly_presentWindows program steps afterCall.windowIds
    (n + 1 + phases performed + phases called) afterCall hafterCall shownAll presented hpresent
  have hswept : answer = shownAll ∧ ∃ swept, Swept shownAll presented swept e := by
    cases shownAll with
    | error fault =>
      cases hrun
      exact ⟨rfl, [], .fault fault _⟩
    | ok _ =>
      dsimp only at hrun
      rw [Pass.bind_of_ok (sweep_eq (hshown.registered hafterCall))] at hrun
      cases hrun
      exact ⟨rfl, _, .closed presented⟩
  obtain ⟨rfl, swept, hswept⟩ := hswept
  exact ⟨_, .intro hphase hperformed hinput hhand hhanded hhandedWork hdispatch hcall hcalled hpresent hshown
    hshownWork hswept⟩

theorem tells_tickWith {perTick : Pass (Desktop W D A) Unit} (hperTick : Tells program perTick) :
    Tells program (tickWith program steps perTick) := by
  intro n d hd answer e hrun
  obtain ⟨h, hticked⟩ := exists_ticked (n := n) hhandling hprogram hperTick hd hrun
  exact ⟨h, hticked.course hhandling hd, fun _ _ ↦ trivial⟩

variable {perTick : Nat → Pass (Desktop W D A) Unit} (hperTick : ∀ number, Tells program (perTick number))
include hperTick

theorem exists_looped {left done : Nat} (hd : d.Registered) {answer : Except Fault Unit × Nat}
    (hrun : ticks program steps perTick left done d = .ok answer e) :
    ∃ h, Looped program steps perTick done n d h answer e := by
  induction left generalizing done n d with
  | zero =>
    rw [ticks, Pass.bind_get] at hrun
    split at hrun
    · cases hrun
      exact ⟨[], .stop ‹_›⟩
    · cases hrun
  | succ left ih =>
    rw [ticks, Pass.bind_get] at hrun
    split at hrun
    · cases hrun
      exact ⟨[], .stop ‹_›⟩
    · have hgo : (d.quitRequested || d.windows.isEmpty) = false := Bool.eq_false_iff.mpr ‹_›
      obtain ⟨outcome, mid, htick, hrun⟩ := Pass.bind_eq_ok.mp hrun
      obtain ⟨own, hticked⟩ := exists_ticked (n := n) hhandling hprogram (hperTick (done + 1)) hd htick
      cases outcome with
      | error fault =>
        cases hrun
        exact ⟨own, .fault hgo hticked⟩
      | ok _ =>
        obtain ⟨rest, hrest⟩ := ih ((hticked.course hhandling hd).registered hd) hrun
        exact ⟨own ++ rest, .tick hgo hticked hrest⟩

/-- Every run that comes to an answer tells its ticks and its last phase. -/
theorem exists_ran (hd : d.Registered) {answer : Except Fault Unit × Nat}
    (hrun : runWith program steps perTick d = .ok answer e) : ∃ h, Ran program steps perTick n d h answer e := by
  have hstart : Registered { d with quitRequested := false } := hd.of_fewer (List.Sublist.refl _) rfl rfl
  obtain ⟨outcome, mid, hloop, hrun⟩ := Pass.bind_eq_ok.mp (show (ticks program steps perTick steps 0 >>= _)
    { d with quitRequested := false } = _ from hrun)
  obtain ⟨h, hlooped⟩ := exists_looped (n := n) hhandling hprogram hperTick hstart hloop
  obtain ⟨_ | _, done⟩ := outcome
  · cases hrun
    exact ⟨h, .fault hlooped⟩
  · obtain ⟨_, after, hphase, hrun⟩ := Pass.bind_eq_ok.mp (show (runDeferred program >>= _)
      { mid with quitRequested := false } = _ from hrun)
    cases hrun
    have hmid := (hlooped.course hhandling hstart).registered hstart
    have htaken : Registered { mid with quitRequested := false, deferred := [] } :=
      hmid.of_fewer (List.Sublist.refl _) rfl rfl
    obtain ⟨performed, hperformed⟩ := exists_course_performAll hprogram (n + phases h)
      (n + phases h + 1) htaken hphase
    exact ⟨_, .drained hlooped hphase hperformed⟩

theorem tells_runWith : Tells program (runWith program steps perTick) := by
  intro n d hd answer e hrun
  obtain ⟨h, hran⟩ := exists_ran (n := n) hhandling hprogram hperTick hd hrun
  exact ⟨h, hran.course hhandling hd, fun _ _ ↦ trivial⟩

end

end Desktop

end RetainedUi
