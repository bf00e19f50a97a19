import RetainedUi.Proofs.Desktop.Course
import RetainedUi.Proofs.Desktop.Upkeep

/-!
# Ticks that leave nothing to be done

A tick dispatches the events of every window before it lays out and presents the first one. Each window is idle when
its turn is over, and the turns of the others do not concern it. Hence if nothing is scheduled and no window is
closed, nothing is left to be done behind a tick that ends without a fault, and the next one waits for input.

A device that refuses a request ends the tick early, with the rest of its work undone.
-/

namespace RetainedUi

variable {W D A α : Type}

namespace Desktop

/-! ## What stays in a tick -/

/-- The windows in the list stay the same ones, nothing is scheduled, no input is added or taken, and the devices
refuse the same. -/
structure Keeps (d e : Desktop W D A) : Prop where
  registered : d.Registered → e.Registered
  windowIds : e.windowIds = d.windowIds
  deferred : e.deferred = d.deferred
  queued : e.platform.queued = d.platform.queued
  outage : e.platform.outage = d.platform.outage

instance : IsPreorder (Desktop W D A) Keeps where
  refl _ := ⟨id, rfl, rfl, rfl, rfl⟩
  trans _ _ _ hfirst hlater :=
    { registered := hlater.registered ∘ hfirst.registered
      windowIds := hlater.windowIds.trans hfirst.windowIds
      deferred := hlater.deferred.trans hfirst.deferred
      queued := hlater.queued.trans hfirst.queued
      outage := hlater.outage.trans hfirst.outage }

/-- A computation in which all of this stays. -/
abbrev Conserves (pass : Pass (Desktop W D A) α) : Prop := Pass.Carries id Keeps pass

variable {d e : Desktop W D A}

theorem conserves_onWindow (id : WindowId) {pass : Pass (Pane W A) α} (hpass : Pane.KeepsId pass) :
    Conserves (onWindow id pass : Pass (Desktop W D A) (Option α)) := by
  intro d
  have hput {pane : Pane W A} (hpane : pane.window.id = id) :
      (d.putPane id pane).windowIds = d.windowIds := Registered.windowIds_putPane id hpane
  have hkeeps : (Pass.final (onWindow id pass d)).windowIds = d.windowIds ∧
      (Pass.final (onWindow id pass d)).deferred = d.deferred ∧
        (Pass.final (onWindow id pass d)).platform.queued = d.platform.queued ∧
          (Pass.final (onWindow id pass d)).platform.outage = d.platform.outage := by
    unfold onWindow
    cases hwindow : d.window? id with
    | none => exact ⟨rfl, rfl, rfl, rfl⟩
    | some window =>
      cases d.platform.screen? id with
      | none => exact ⟨rfl, rfl, rfl, rfl⟩
      | some screen =>
        have hid : window.id = id := by simpa using List.find?_some hwindow
        have hkept := hpass ⟨window, screen, d.ambient⟩
        dsimp only
        cases hrun : pass ⟨window, screen, d.ambient⟩ with
        | ok answer pane =>
          rw [hrun] at hkept
          exact ⟨hput (hkept.symm.trans hid), rfl, rfl, rfl⟩
        | error halt pane =>
          rw [hrun] at hkept
          exact ⟨hput (hkept.symm.trans hid), rfl, rfl, rfl⟩
  exact ⟨fun h ↦ h.onWindow id hpass, hkeeps.1, hkeeps.2.1, hkeeps.2.2.1, hkeeps.2.2.2⟩

theorem conserves_handInput (events : List (WindowId × ScreenEvent)) :
    Conserves (handInput events : Pass (Desktop W D A) Unit) :=
  Pass.carries_forM (fun event ↦ Pass.carries_bind
    (conserves_onWindow event.1 (Pane.keepsIdentity_receive event.2).keepsId) fun _ ↦ Pass.carries_pure _) events

theorem eq_or_mem_of_mem_putPane {id : WindowId} {pane : Pane W A} {w : Window W}
    (hw : w ∈ (d.putPane id pane).windows) : w = pane.window ∨ w ∈ d.windows ∧ w.id ≠ id := by
  obtain ⟨x, hx, hsame⟩ := List.mem_map.mp hw
  split at hsame
  · exact .inl hsame.symm
  · rw [← hsame]
    exact .inr ⟨hx, ‹_›⟩

/-- Work on a window in the list is done. -/
theorem Registered.onWindow_ok (h : d.Registered) {id : WindowId} (hid : id ∈ d.windowIds)
    {pass : Pass (Pane W A) α} {found : Option α} (hrun : Desktop.onWindow id pass d = .ok found e) :
    ∃ answer window screen pane, found = some answer ∧ window ∈ d.windows ∧ window.id = id ∧
      pass ⟨window, screen, d.ambient⟩ = .ok answer pane ∧ e = d.putPane id pane := by
  obtain ⟨w, hw, rfl⟩ := List.mem_map.mp hid
  obtain ⟨screen, hscreen⟩ := h.exists_screen hw
  rcases onWindow_eq_ok hrun with ⟨-, -, hnone | hnone⟩ |
    ⟨answer, window, screen', pane, hfound, hwindow, -, hpass, hput⟩
  · rw [h.window?_eq hw] at hnone
    cases hnone
  · rw [hscreen] at hnone
    cases hnone
  · rw [h.window?_eq hw] at hwindow
    cases hwindow
    exact ⟨answer, w, screen', pane, hfound, hw, rfl, hpass, hput⟩

/-! ## Input -/

theorem wellFormed_handInput (events : List (WindowId × ScreenEvent)) (hwell : ∀ w ∈ d.windows, w.forest.WellFormed)
    (h : handInput events d = .ok ⟨⟩ e) : ∀ w ∈ e.windows, w.forest.WellFormed := by
  induction events generalizing d with
  | nil =>
    cases h
    exact hwell
  | cons event events ih =>
    obtain ⟨_, mid, hfirst, hlater⟩ := Pass.bind_eq_ok.mp h
    refine ih ?_ hlater
    obtain ⟨found, _, hrun, hpure⟩ := Pass.bind_eq_ok.mp hfirst
    cases hpure
    rcases onWindow_eq_ok hrun with ⟨-, rfl, -⟩ | ⟨answer, window, screen, pane, -, hwindow, -, hpass, rfl⟩
    · exact hwell
    · have hsteps := Pane.carries_forest_receive event.2 ⟨window, screen, d.ambient⟩
      rw [hpass] at hsteps
      intro w hw
      rcases eq_or_mem_of_mem_putPane hw with rfl | hw
      · exact (Forest.reaches_iff.mpr hsteps).wellFormed (hwell window (List.mem_of_find?_eq_some hwindow))
      · exact hwell w hw.1

/-! ## All windows -/

section

variable {program : Program W D A} (hquiet : program.Quiet) {steps : Nat}
include hquiet

theorem dispatchWindow_ok (hd : d.Registered) (hwell : ∀ w ∈ d.windows, w.forest.WellFormed) {id : WindowId}
    (hid : id ∈ d.windowIds) (h : dispatchWindow program steps id d = .ok () e) :
    Keeps d e ∧ ∀ w ∈ e.windows, w.forest.WellFormed ∧ (w.queue = [] ∨ w ∈ d.windows ∧ w.id ≠ id) := by
  obtain ⟨found, mid, hrun, hmodify⟩ := Pass.bind_eq_ok.mp h
  have hkeeps := conserves_onWindow (D := D) id (Pane.keepsIdentity_dispatch program.handling steps).keepsId d
  rw [hrun] at hkeeps
  obtain ⟨callbacks, window, screen, pane, rfl, hwindow, -, hdispatch, rfl⟩ := hd.onWindow_ok hid hrun
  obtain ⟨hpane, hempty, rfl⟩ := Pane.dispatched (hwell window hwindow) hquiet.handling hdispatch
  have hnone : e = d.putPane id pane := by
    cases hmodify
    simp [putPane]
  subst hnone
  constructor
  · exact hkeeps
  · intro w hw
    rcases eq_or_mem_of_mem_putPane hw with rfl | hw
    · exact ⟨hpane, .inl hempty⟩
    · exact ⟨hwell w hw.1, .inr hw⟩

/-- When every window had its turn, there are no events left. -/
theorem dispatchWindows_ok (hd : d.Registered) (hwell : ∀ w ∈ d.windows, w.forest.WellFormed) {ws : List (Window W)}
    (hws : ws.map Window.id ⊆ d.windowIds) (hdone : ∀ w ∈ d.windows, w.id ∉ ws.map Window.id → w.queue = [])
    (h : ws.forM (fun w ↦ dispatchWindow program steps w.id) d = .ok ⟨⟩ e) :
    Keeps d e ∧ ∀ w ∈ e.windows, w.forest.WellFormed ∧ w.queue = [] := by
  induction ws generalizing d with
  | nil =>
    cases h
    exact ⟨refl_of Keeps _, fun w hw ↦ ⟨hwell w hw, hdone w hw (by simp)⟩⟩
  | cons first ws ih =>
    obtain ⟨hid, hrest⟩ := List.cons_subset.mp hws
    obtain ⟨_, mid, hfirst, hlater⟩ := Pass.bind_eq_ok.mp h
    obtain ⟨hkeeps, hmid⟩ := dispatchWindow_ok hquiet hd hwell hid hfirst
    have hnext := ih (hkeeps.registered hd) (fun w hw ↦ (hmid w hw).1) (hkeeps.windowIds ▸ hrest) ?_ hlater
    · exact ⟨trans_of Keeps hkeeps hnext.1, hnext.2⟩
    · intro w hw hout
      rcases (hmid w hw).2 with hempty | ⟨hold, hne⟩
      · exact hempty
      · exact hdone w hold (by simpa [hne] using hout)

/-- The turn of one window to be laid out and presented. -/
theorem presentWindow_ok (hd : d.Registered) (hready : ∀ w ∈ d.windows, w.forest.WellFormed ∧ w.queue = [])
    {id : WindowId} (hid : id ∈ d.windowIds) {found : Option (Except Fault Unit)} (h : onWindow id (do
      Pane.layoutIfNeeded program.layout steps
      Pane.present program.drawing d.platform.outage) d = .ok found e) :
    Keeps d e ∧ ∃ answer, found = some answer ∧ ∀ w ∈ e.windows, (w.forest.WellFormed ∧ w.queue = []) ∧
      (w.id = id ∧ w.LeftBy d.platform.outage answer ∨ w.id ≠ id ∧ w ∈ d.windows) := by
  have hkeepsId := (Pane.keepsIdentity_layoutIfNeeded_present program steps d.platform.outage).keepsId
  have hkeeps := conserves_onWindow (D := D) id hkeepsId d
  rw [h] at hkeeps
  obtain ⟨answer, window, screen, pane, rfl, hwindow, rfl, hturn, rfl⟩ := hd.onWindow_ok hid h
  obtain ⟨hforest, hqueue⟩ := hready window hwindow
  obtain ⟨hwell, hempty, hleft⟩ := Pane.leftBy_of_turn hforest hquiet hqueue hturn
  have hsame := hkeepsId ⟨window, screen, d.ambient⟩
  rw [hturn] at hsame
  refine ⟨hkeeps, answer, rfl, fun w hw ↦ ?_⟩
  rcases eq_or_mem_of_mem_putPane hw with rfl | ⟨hold, hne⟩
  · exact ⟨⟨hwell, hempty⟩, .inl ⟨hsame.symm, hleft⟩⟩
  · exact ⟨hready w hold, .inr ⟨hne, hold⟩⟩

/-- When every window was laid out and presented without a fault, all of them are idle. -/
theorem presentWindows_ok (hd : d.Registered) (hready : ∀ w ∈ d.windows, w.forest.WellFormed ∧ w.queue = [])
    {ids : List WindowId} (hids : ids ⊆ d.windowIds) (hdone : ∀ w ∈ d.windows, w.id ∉ ids → w.Idle)
    (h : presentWindows program steps ids d = .ok (.ok ()) e) : Keeps d e ∧ ∀ w ∈ e.windows, w.Idle := by
  induction ids generalizing d with
  | nil =>
    cases h
    exact ⟨refl_of Keeps _, fun w hw ↦ hdone w hw (by simp)⟩
  | cons id ids ih =>
    obtain ⟨hid, hrest⟩ := List.cons_subset.mp hids
    rw [presentWindows, Pass.bind_get] at h
    obtain ⟨found, mid, hrun, hlater⟩ := Pass.bind_eq_ok.mp h
    obtain ⟨hkeeps, answer, rfl, hmid⟩ := presentWindow_ok hquiet hd hready hid hrun
    cases answer with
    | error fault => cases hlater
    | ok _ =>
      have hnext := ih (hkeeps.registered hd) (fun w hw ↦ (hmid w hw).1) (hkeeps.windowIds ▸ hrest) ?_ hlater
      · exact ⟨trans_of Keeps hkeeps hnext.1, hnext.2⟩
      · intro w hw hout
        rcases (hmid w hw).2 with ⟨-, hidle⟩ | ⟨hne, hold⟩
        · exact hidle
        · exact hdone w hold (by simp [hne, hout])

end

/-! ## The whole tick -/

theorem runDeferred_of_nil (program : Program W D A) (hnone : d.deferred = []) :
    runDeferred program d = .ok () d := by
  cases d
  cases hnone
  rfl

/-- Taking input changes nothing but the input that is left, and what is told about polls and waits. -/
theorem takeInput_eq_ok {events : List (WindowId × ScreenEvent)} (h : takeInput d = .ok events e) :
    ∃ platform : Headless, e = { d with platform } ∧ platform.screens = d.platform.screens ∧
      platform.queued = [] ∧ platform.outage = d.platform.outage := by
  rw [takeInput_eq] at h
  cases hbusy : d.busy with
  | error halt =>
    rw [hbusy] at h
    cases h
  | ok busy =>
    rw [hbusy] at h
    cases h
    cases busy <;> exact ⟨_, rfl, rfl, rfl, rfl⟩

/-- The part of a tick before the windows have their turns to be laid out and presented. -/
def getReady (program : Program W D A) (steps : Nat) : Pass (Desktop W D A) Unit := do
  runDeferred program
  handInput (← takeInput)
  (← get).windows.forM fun window ↦ dispatchWindow program steps window.id

theorem tick_eq (program : Program W D A) (steps : Nat) : tick program steps = (do
    getReady program steps
    match ← presentWindows program steps (← get).windowIds with
    | .error fault => return .error fault
    | .ok () =>
      sweep
      return .ok ()) := by
  unfold tick tickWith getReady
  simp only [bind_assoc, pure_bind]
  rfl

/-- Before the turns of the windows, the same ones are in the list, and no events are left in their queues. -/
structure Ready (d e : Desktop W D A) : Prop where
  registered : e.Registered
  windowIds : e.windowIds = d.windowIds
  deferred : e.deferred = []
  queued : e.platform.queued = []
  outage : e.platform.outage = d.platform.outage
  windows : ∀ w ∈ e.windows, w.forest.WellFormed ∧ w.queue = []

theorem ready_of_getReady {program : Program W D A} (hquiet : program.Quiet) {steps : Nat} (hd : d.Registered)
    (hwell : ∀ w ∈ d.windows, w.forest.WellFormed) (hnone : d.deferred = [])
    (h : getReady program steps d = .ok () e) : Ready d e := by
  unfold getReady at h
  rw [Pass.bind_of_ok (runDeferred_of_nil program hnone)] at h
  obtain ⟨events, taken, htake, h⟩ := Pass.bind_eq_ok.mp h
  obtain ⟨_, handed, hhand, hsend⟩ := Pass.bind_eq_ok.mp h
  rw [Pass.bind_get] at hsend
  obtain ⟨platform, rfl, hscreens, hqueued, houtage⟩ := takeInput_eq_ok htake
  have htaken : Registered { d with platform } :=
    hd.of_fewer (List.Sublist.refl _) (congrArg (List.map Prod.fst) hscreens) rfl
  have hinput := conserves_handInput events { d with platform }
  rw [hhand] at hinput
  obtain ⟨hdispatch, hready⟩ := dispatchWindows_ok hquiet (hinput.registered htaken)
    (wellFormed_handInput (d := { d with platform }) events hwell hhand) (List.Subset.refl _)
    (fun w hw hout ↦ absurd (List.mem_map_of_mem hw) hout) hsend
  have hsent : Keeps { d with platform } e := trans_of Keeps hinput hdispatch
  exact ⟨hsent.registered htaken, hsent.windowIds, hsent.deferred.trans hnone, hsent.queued.trans hqueued,
    hsent.outage.trans houtage, hready⟩

/-- If no window was taken off the list, none was closed, and nothing was done. -/
theorem Registered.sweep_of_kept (hd : d.Registered) (h : Desktop.sweep d = .ok () e)
    (hkept : e.windowIds = d.windowIds) : e = d ∧ ∀ w ∈ d.windows, w.isClosed = false := by
  rw [sweep_eq hd] at h
  cases h
  have hlength : (d.windows.filter (!·.isClosed)).length = d.windows.length := by
    simpa [windowIds] using congrArg List.length hkept
  have hopen : ∀ w ∈ d.windows, w.isClosed = false := by
    simpa using List.length_filter_eq_length_iff.mp hlength
  have hall : d.windows.filter (!·.isClosed) = d.windows :=
    List.filter_eq_self.mpr fun w hw ↦ by simp [hopen w hw]
  have hnone : d.windows.filter (·.isClosed) = [] :=
    List.filter_eq_nil_iff.mpr fun w hw ↦ by simp [hopen w hw]
  refine ⟨?_, hopen⟩
  rw [hall, hnone, List.map_nil, List.append_nil]

/-- A quiet tick leaves idle windows that are open, and nothing else to be done. -/
theorem idle_of_tick {program : Program W D A} (hquiet : program.Quiet) {steps : Nat} (hd : d.Registered)
    (hwell : ∀ w ∈ d.windows, w.forest.WellFormed) (hnone : d.deferred = [])
    (htick : tick program steps d = .ok (.ok ()) e) (hkept : e.windowIds = d.windowIds) :
    e.Registered ∧ (∀ w ∈ e.windows, w.Idle ∧ w.isClosed = false) ∧ e.deferred = [] ∧ e.platform.queued = [] := by
  rw [tick_eq] at htick
  obtain ⟨_, sent, hsend, h⟩ := Pass.bind_eq_ok.mp htick
  rw [Pass.bind_get] at h
  obtain ⟨answer, shown, hpresent, h⟩ := Pass.bind_eq_ok.mp h
  cases answer with
  | error fault => cases h
  | ok _ =>
    obtain ⟨_, swept, hsweep, hpure⟩ := Pass.bind_eq_ok.mp h
    cases hpure
    have hready := ready_of_getReady hquiet hd hwell hnone hsend
    obtain ⟨hkeeps, hidle⟩ := presentWindows_ok hquiet hready.registered hready.windows (List.Subset.refl _)
      (fun w hw hout ↦ absurd (List.mem_map_of_mem hw) hout) hpresent
    have hregistered : shown.Registered := hkeeps.registered hready.registered
    obtain ⟨rfl, hopen⟩ := hregistered.sweep_of_kept hsweep
      (hkept.trans (hkeeps.windowIds.trans hready.windowIds).symm)
    exact ⟨hregistered, fun w hw ↦ ⟨hidle w hw, hopen w hw⟩, hkeeps.deferred.trans hready.deferred,
      hkeeps.queued.trans hready.queued⟩

/-- When a quiet tick without callbacks has ended without a fault and with all windows, nothing is left to be
done. Unless there is new input, the next tick does not touch a screen, a forest or a painter, whatever the
widgets are like, and outside of realtime mode it waits. -/
theorem tick_converges {program : Program W D A} (hquiet : program.Quiet) {steps : Nat} {d e : Desktop W D A}
    (hd : d.Registered) (hwell : ∀ w ∈ d.windows, w.forest.WellFormed) (hnone : d.deferred = [])
    (htick : tick program steps d = .ok (.ok ()) e) (hkept : e.windowIds = d.windowIds) :
    (∀ w ∈ e.windows, w.Idle) ∧ e.hasPendingWork = .ok false ∧ e.platform.queued = [] ∧
      ∃ f : Desktop W D A, f.windows = e.windows.map Window.pruned ∧ f.deferred = [] ∧
        f.platform.screens = e.platform.screens ∧ (e.realtime = 0 → f.platform.waits = e.platform.waits + 1) ∧
        ∀ (later : Program W D A) (steps' : Nat), (∀ w ∈ e.windows, w.forest.slots.size ≤ steps') →
          tick later steps' e = .ok (.ok ()) f := by
  obtain ⟨hregistered, hwindows, hrest, hqueued⟩ := idle_of_tick hquiet hd hwell hnone htick hkept
  have hidle : ∀ w ∈ e.windows, w.Idle := fun w hw ↦ (hwindows w hw).1
  have hdone : e.hasPendingWork = .ok false := hasPendingWork_eq_false_iff.mpr ⟨hrest, hidle⟩
  have hbusy : e.busy = .ok (decide (0 < e.realtime)) := by
    unfold busy
    split <;> simp [*]
  let taken : Desktop W D A :=
    { e with platform := (if decide (0 < e.realtime) then e.platform.poll else e.platform.wait).2 }
  have hinput : takeInput e = .ok [] taken := by
    rw [takeInput_eq, hbusy]
    dsimp only [taken]
    split <;> simp [Headless.poll, Headless.wait, hqueued]
  have hscreens : taken.platform.screens = e.platform.screens := by
    dsimp only [taken]
    split <;> rfl
  have htaken : taken.Registered :=
    hregistered.of_fewer (List.Sublist.refl _) (congrArg (List.map Prod.fst) hscreens) rfl
  have hopen : ∀ w ∈ e.windows.map Window.pruned, w.isClosed = false := by
    intro w hw
    obtain ⟨x, hx, rfl⟩ := List.mem_map.mp hw
    exact (hwindows x hx).2
  refine ⟨hidle, hdone, hqueued, taken.idled, ?_, ?_, hscreens, ?_, ?_⟩
  · exact List.filter_eq_self.mpr fun w hw ↦ by simp [hopen w hw]
  · have hout : (e.windows.map Window.pruned).filter (·.isClosed) = [] :=
      List.filter_eq_nil_iff.mpr fun w hw ↦ by simp [hopen w hw]
    change e.deferred ++ ((e.windows.map Window.pruned).filter (·.isClosed)).map Task.release = []
    rw [hout, hrest]
    rfl
  · intro hrealtime
    change taken.platform.waits = _
    simp [taken, hrealtime, Headless.wait]
  · intro later steps' hsteps
    unfold tick tickWith
    rw [Pass.bind_of_ok (runDeferred_of_nil later hrest), Pass.bind_of_ok hinput]
    exact settle_tick htaken later hidle hsteps

/-- A view gets a subview and is to be laid out again. -/
def grown (f : Forest Unit) (v : View) : Forest Unit :=
  let joined := (f.create .zero).2.added v (f.create .zero).1
  match joined.requestLayout v with
  | .ok g => g
  | .error _ => joined

/-- The first subview of a view gets a frame. -/
def spread (f : Forest Unit) (v : View) : Forest Unit :=
  match f.subviewsOf v with
  | [] => f
  | sub :: _ => match f.setFrame sub (.ofSides 10 10 20 20) with
    | .ok g => g
    | .error _ => f

/-- Widgets that answer to a new size with a subview and with another event. -/
def growing : Program Unit Unit Unit :=
  { layout := fun _ ↦ some fun v s ↦ .ok () { s with forest := spread s.forest v }
    handling := fun _ ↦ some fun v e s ↦
      if e.kind = .resize then .ok ((), e) { s with
        forest := grown s.forest v
        queue := s.queue ++ [(Event.closeRequest v).withTarget v] }
      else .ok ((), e) s
    drawing := fun _ ↦ some fun _ _ ↦ pure ((), false)
    perform := fun _ ↦ pure () }

theorem quiet_growing : growing.Quiet where
  handling := by
    rintro _ _ ⟨⟩ v e s
    dsimp only
    split
    case isFalse => exact ⟨.refl s.forest, rfl⟩
    case isTrue =>
      refine ⟨?_, rfl⟩
      change s.forest.Reaches (grown s.forest v)
      have hjoined := ((Forest.Reaches.refl s.forest).step (.create _ .zero)).added v (s.forest.create .zero).1
      unfold grown
      dsimp only
      split
      case h_1 g hrequest => exact hjoined.step (.requestLayout hrequest)
      case h_2 => exact hjoined
  layout := by
    rintro _ _ ⟨⟩ v s
    change Forest.Arranges v s.forest (spread s.forest v)
    unfold spread
    split
    case h_1 => exact .refl
    case h_2 sub subs hsubs =>
      split
      case h_1 g hframe => exact .single ⟨sub, by simp [hsubs], _, hframe⟩
      case h_2 => exact .refl
  drawing := by
    rintro _ _ ⟨⟩ v frame s answer t h
    cases h
    rfl

/-- A root with a widget. -/
def planted : Forest Unit := (Forest.empty.createWindow (.ofSides 0 0 100 100)).2.equipped () [⟨1⟩]

/-- Shows a window that gets another size with the next tick. -/
def stretch : Pass (Desktop Unit Unit Unit) Unit := do
  let _ ← openWindow ⟨"", .ofSides 0 0 100 100, true⟩
  let _ ← onWindow ⟨1⟩ (Pane.changeWindow fun w ↦ w.changeForest fun _ ↦ .ok planted)
  modify fun d ↦ { d with platform := d.platform.push ⟨1⟩ (.resized ⟨50, 50⟩) }

def stretched : Desktop Unit Unit Unit := Pass.final (stretch (fresh ⟨4, 4⟩ ()))

theorem operates_stretch : Operates stretch := by
  refine Pass.carries_bind (fun d ↦ .single (.openWindow d _)) fun _ ↦ ?_
  refine Pass.carries_bind (operates_onWindow _ (Pane.keepsIdentity_changeWindow
    fun _ _ ↦ Pane.id_changeForest).keepsId) fun _ ↦ ?_
  exact operates_modify (fun _ ↦ rfl) (fun _ ↦ rfl) fun _ ↦ rfl

theorem wellFormed_stretched : ∀ w ∈ stretched.windows, w.forest.WellFormed := by
  have hplanted : planted.WellFormed := Forest.reachable_wellFormed
    (((Forest.Reaches.refl Forest.empty).step (.createWindow _ _)).equipped () [⟨1⟩])
  have hforests : stretched.windows.map Window.forest = [planted] := rfl
  intro w hw
  have hmem : w.forest ∈ [planted] := hforests ▸ List.mem_map_of_mem hw
  rwa [List.mem_singleton.mp hmem]

/-- The window gets its new size. Its widget adds a subview and posts another event, the subview gets a frame, and
all of it is painted. After that nothing is left to be done. -/
theorem tick_converges_stretched : ∃ e f : Desktop Unit Unit Unit, Steps (fresh ⟨4, 4⟩ ()) stretched ∧
    growing.Quiet ∧ (∀ w ∈ stretched.windows, w.forest.WellFormed) ∧ stretched.deferred = [] ∧
      tick growing 9 stretched = .ok (.ok ()) e ∧ e.windowIds = stretched.windowIds ∧
        e.windows.map (fun w ↦ w.forest.size) = [2] ∧ e.hasPendingWork = .ok false ∧
          tick growing 9 e = .ok (.ok ()) f ∧ f.platform.screens = e.platform.screens ∧
            f.platform.waits = e.platform.waits + 1 := by
  have hsteps : Steps (fresh ⟨4, 4⟩ ()) stretched := operates_stretch _
  obtain ⟨e, htick, hkept, hrealtime, hsize, hslots⟩ : ∃ e, tick growing 9 stretched = .ok (.ok ()) e ∧
      e.windowIds = stretched.windowIds ∧ e.realtime = 0 ∧ e.windows.map (fun w ↦ w.forest.size) = [2] ∧
        ∀ w ∈ e.windows, w.forest.slots.size ≤ 9 :=
    ⟨_, eq_ok_of_answer? (by decide +kernel), by decide +kernel, by decide +kernel, by decide +kernel,
      by decide +kernel⟩
  obtain ⟨-, hdone, -, f, -, -, hscreens, hwaits, hnext⟩ := tick_converges quiet_growing
    ((Registered.fresh _ _).steps hsteps) wellFormed_stretched rfl htick hkept
  exact ⟨e, f, hsteps, quiet_growing, wellFormed_stretched, rfl, htick, hkept, hsize, hdone,
    hnext growing 9 hslots, hscreens, hwaits hrealtime⟩

/-- The same desktop, with a device that refuses to be bound. -/
def obstructed : Desktop Unit Unit Unit :=
  { stretched with platform := { stretched.platform with outage := { Outage.none with bind := some "lost" } } }

/-- The fault at which a computation has come to an end. -/
def fault? : EStateM.Result Halt (Desktop W D A) (Except Fault α) → Option Fault
  | .ok (.error fault) _ => some fault
  | _ => none

theorem eq_ok_of_fault? {outcome : EStateM.Result Halt (Desktop W D A) (Except Fault α)} {fault : Fault}
    (h : fault? outcome = some fault) : outcome = .ok (.error fault) (Pass.final outcome) := by
  obtain (_ | _) | _ := outcome
  · cases h
    rfl
  · cases h
  · cases h

/-- A quiet tick ends at a fault and leaves work behind. -/
theorem tick_obstructed : ∃ e : Desktop Unit Unit Unit, Steps (fresh ⟨4, 4⟩ ()) obstructed ∧
    growing.Quiet ∧ (∀ w ∈ obstructed.windows, w.forest.WellFormed ∧ w.forest.contains w.root = true) ∧
      obstructed.deferred = [] ∧ tick growing 9 obstructed = .ok (.error (.gpu "lost")) e ∧
        e.windowIds = obstructed.windowIds ∧ e.deferred = [] ∧ e.hasPendingWork = .ok true := by
  have hroots : ∀ w ∈ obstructed.windows, w.forest.contains w.root = true := by decide +kernel
  have hsteps : Steps (fresh ⟨4, 4⟩ ()) obstructed := (operates_stretch _).tail (.adjust rfl rfl rfl)
  have htick := eq_ok_of_fault? (show fault? (tick growing 9 obstructed) = some (.gpu "lost") by decide +kernel)
  exact ⟨_, hsteps, quiet_growing, fun w hw ↦ ⟨wellFormed_stretched w hw, hroots w hw⟩, rfl, htick,
    by decide +kernel, List.length_eq_zero_iff.mp (by decide +kernel), by decide +kernel⟩

end Desktop

end RetainedUi
