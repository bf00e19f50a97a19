import Mathlib.Data.List.Nodup
import RetainedUi.Desktop.Tick
import RetainedUi.Proofs.Desktop.Presentation

/-!
# Open windows and their screens

Windows are numbered in the order of opening. Every open window has a screen of its own, the windowing system
keeps one screen for each number, and no number is used again. All that a desktop can do keeps this: opening,
closing and releasing windows, work on one window, ticks, and callbacks that do the same things in turn.
-/

namespace RetainedUi

variable {W D A α : Type}

namespace Pane

/-! ## Work on a window does not exchange it -/

/-- What makes a window the one that it is, and whether it was given back. -/
def identity (s : Pane W A) : WindowId × Bool := (s.window.id, s.screen.released)

/-- What keeps the number of the window, and neither releases it nor takes a release back. -/
abbrev KeepsIdentity (pass : Pass (Pane W A) α) : Prop := Pass.Carries identity (· = ·) pass

/-- What keeps the number of the window. -/
abbrev KeepsId (pass : Pass (Pane W A) α) : Prop := Pass.Carries (fun s : Pane W A ↦ s.window.id) (· = ·) pass

/-- What neither releases the window nor takes a release back. -/
abbrev KeepsReleased (pass : Pass (Pane W A) α) : Prop :=
  Pass.Carries (fun s : Pane W A ↦ s.screen.released) (· = ·) pass

theorem KeepsIdentity.keepsId {pass : Pass (Pane W A) α} (h : KeepsIdentity pass) : KeepsId pass :=
  fun s ↦ congrArg Prod.fst (h s)

theorem KeepsIdentity.keepsReleased {pass : Pass (Pane W A) α} (h : KeepsIdentity pass) : KeepsReleased pass :=
  fun s ↦ congrArg Prod.snd (h s)

theorem keepsIdentity_onGrove (pass : Pass (Grove W A) α) : KeepsIdentity (onGrove pass : Pass (Pane W A) α) := by
  intro s
  unfold onGrove
  cases pass ⟨s.window.forest, s.ambient⟩ <;> rfl

theorem keepsIdentity_onStudio (pass : Pass (Studio W A) α) : KeepsIdentity (onStudio pass : Pass (Pane W A) α) := by
  intro s
  unfold onStudio
  cases pass ⟨s.window.forest, s.window.painter, s.ambient⟩ <;> rfl

theorem keepsIdentity_onDesk (pass : Pass (Desk W D A) α) :
    KeepsIdentity (onDesk pass : Pass (Pane W A) (α × List D)) := by
  intro s
  unfold onDesk
  cases pass ⟨s.window.forest, s.window.queue, s.window.redirects, [], s.ambient⟩ <;> rfl

theorem keepsIdentity_changeWindow {step : Window W → Except Halt (Window W)}
    (hstep : ∀ w w', step w = .ok w' → w'.id = w.id) : KeepsIdentity (changeWindow step : Pass (Pane W A) Unit) := by
  intro s
  unfold changeWindow
  cases hrun : step s.window with
  | ok window => exact congrArg (·, s.screen.released) (hstep s.window window hrun).symm
  | error halt => rfl

theorem id_changeForest {step : Forest W → Except Halt (Forest W)} {w w' : Window W}
    (h : w.changeForest step = .ok w') : w'.id = w.id := by
  obtain ⟨forest, -, hforest⟩ := bind_eq_ok.mp h
  cases hforest
  rfl

theorem keepsIdentity_modify {change : Pane W A → Pane W A} (h : ∀ s, (change s).identity = s.identity) :
    KeepsIdentity (modify change : Pass (Pane W A) Unit) :=
  fun s ↦ (h s).symm

theorem keepsIdentity_repaint : KeepsIdentity (repaint : Pass (Pane W A) Unit) :=
  keepsIdentity_changeWindow fun _ _ ↦ id_changeForest

theorem keepsIdentity_reveal : KeepsIdentity (reveal : Pass (Pane W A) Unit) := by
  unfold reveal
  refine Pass.carries_bind Pass.carries_get fun s ↦ ?_
  split
  · exact Pass.carries_pure ()
  · exact Pass.carries_bind (keepsIdentity_modify fun _ ↦ rfl) fun _ ↦
      Pass.carries_bind (keepsIdentity_modify fun _ ↦ rfl) fun _ ↦ keepsIdentity_repaint

theorem keepsIdentity_hide : KeepsIdentity (hide : Pass (Pane W A) Unit) := by
  unfold hide
  refine Pass.carries_bind Pass.carries_get fun s ↦ ?_
  split
  · exact Pass.carries_pure ()
  · exact Pass.carries_bind (keepsIdentity_modify fun _ ↦ rfl) fun _ ↦ keepsIdentity_modify fun _ ↦ rfl

theorem keepsIdentity_close : KeepsIdentity (close : Pass (Pane W A) Unit) := by
  intro s
  change s.identity = (s.window.close.1.id, s.screen.released)
  unfold Window.close
  split <;> rfl

theorem keepsIdentity_adoptFrame (change : Rect → Rect) :
    KeepsIdentity (adoptFrame change : Pass (Pane W A) Unit) := by
  refine keepsIdentity_changeWindow fun w w' h ↦ ?_
  obtain ⟨frame, -, hforest⟩ := bind_eq_ok.mp h
  exact id_changeForest hforest

theorem keepsIdentity_receive (event : ScreenEvent) : KeepsIdentity (receive event : Pass (Pane W A) Unit) := by
  have henqueue (e : View → Event) : KeepsIdentity (enqueue e : Pass (Pane W A) Unit) :=
    keepsIdentity_modify fun _ ↦ rfl
  cases event with
  | resized size => exact Pass.carries_bind (keepsIdentity_adoptFrame _) fun _ ↦ henqueue _
  | moved position => exact Pass.carries_bind (keepsIdentity_adoptFrame _) fun _ ↦ henqueue _
  | closeRequested =>
    refine Pass.carries_bind (henqueue _) fun _ ↦ Pass.carries_bind Pass.carries_get fun s ↦ ?_
    split
    · exact keepsIdentity_close
    · exact Pass.carries_pure ()
  | cursorMoved position => exact Pass.carries_bind (keepsIdentity_modify fun _ ↦ rfl) fun _ ↦ henqueue _
  | mouseButton button state => exact Pass.carries_bind Pass.carries_get fun _ ↦ henqueue _
  | modifiersChanged modifiers => exact keepsIdentity_modify fun _ ↦ rfl
  | scaleFactorChanged factor =>
    exact Pass.carries_bind (keepsIdentity_changeWindow fun _ _ ↦ id_changeForest) fun _ ↦ keepsIdentity_repaint
  | redrawRequested => exact keepsIdentity_repaint

theorem keepsIdentity_dispatch (conduct : HandlingConduct W D A) (steps : Nat) :
    KeepsIdentity (dispatch conduct steps : Pass (Pane W A) (List D)) := by
  unfold dispatch
  exact Pass.carries_bind Pass.carries_get fun _ ↦
    Pass.carries_bind (keepsIdentity_onDesk _) fun _ ↦ Pass.carries_pure _

theorem keepsIdentity_layoutIfNeeded (conduct : LayoutConduct W A) (steps : Nat) :
    KeepsIdentity (layoutIfNeeded conduct steps : Pass (Pane W A) Unit) :=
  Pass.carries_bind Pass.carries_get fun _ ↦ keepsIdentity_onGrove _

theorem keepsIdentity_drawRound (conduct : DrawingConduct W A) (outage : Outage) (bounds region : Rect) :
    KeepsIdentity (drawRound conduct outage bounds region : Pass (Pane W A) _) := by
  have hflush : KeepsIdentity (flush outage : Pass (Pane W A) _) := fun s ↦ rfl
  exact Pass.carries_bind (keepsIdentity_modify fun _ ↦ rfl) fun _ ↦ Pass.carries_bind Pass.carries_get fun _ ↦
    Pass.carries_bind (keepsIdentity_onStudio _) fun _ ↦ hflush

theorem keepsIdentity_present (conduct : DrawingConduct W A) (outage : Outage) :
    KeepsIdentity (present conduct outage : Pass (Pane W A) _) :=
  Presentable.present
    { record _ _ := rfl
      takePending := Pass.carries_bind Pass.carries_get fun _ ↦ keepsIdentity_onGrove _
      giveUp _ := Pass.carries_bind (keepsIdentity_modify fun _ ↦ rfl) fun _ ↦
        keepsIdentity_changeWindow fun _ _ ↦ id_changeForest
      drawRound := keepsIdentity_drawRound conduct outage }

/-- A window is laid out and then presented in every tick. -/
theorem keepsIdentity_layoutIfNeeded_present (program : Program W D A) (steps : Nat) (outage : Outage) :
    KeepsIdentity (do
      layoutIfNeeded program.layout steps
      present program.drawing outage : Pass (Pane W A) (Except Fault Unit)) :=
  Pass.carries_bind (keepsIdentity_layoutIfNeeded program.layout steps) fun _ ↦
    keepsIdentity_present program.drawing outage

end Pane

namespace Desktop

/-! ## What a desktop can do -/

/-- A single operation on a desktop. -/
inductive Step : Desktop W D A → Desktop W D A → Prop where
  | openWindow (d : Desktop W D A) (config : WindowConfig) : Step d (Pass.final (openWindow config d))
  | closeWindow (d : Desktop W D A) (id : WindowId) : Step d (Pass.final (closeWindow id d))
  /-- Work on one window, whatever it does to the window and its screen. -/
  | onWindow {α : Type} (d : Desktop W D A) (id : WindowId) {pass : Pass (Pane W A) α}
      (hpass : Pane.KeepsId pass) : Step d (Pass.final (onWindow id pass d))
  | releaseWindow (d : Desktop W D A) (window : Window W) : Step d (Pass.final (releaseWindow window d))
  /-- Everything else: input that comes and goes, callbacks, requests, notes. -/
  | adjust {d e : Desktop W D A} (hwindows : e.windows = d.windows)
      (hscreens : e.platform.screens = d.platform.screens) (hnext : e.nextWindow = d.nextWindow) : Step d e

/-- Operations one after the other. -/
abbrev Steps : Desktop W D A → Desktop W D A → Prop := Relation.ReflTransGen Step

/-- A computation that consists of operations. -/
abbrev Operates (pass : Pass (Desktop W D A) α) : Prop := Pass.Carries id Steps pass

theorem operates_modify {change : Desktop W D A → Desktop W D A} (hwindows : ∀ d, (change d).windows = d.windows)
    (hscreens : ∀ d, (change d).platform.screens = d.platform.screens)
    (hnext : ∀ d, (change d).nextWindow = d.nextWindow) :
    Operates (modify change : Pass (Desktop W D A) Unit) :=
  fun d ↦ .single (.adjust (hwindows d) (hscreens d) (hnext d))

theorem operates_onWindow (id : WindowId) {pass : Pass (Pane W A) α} (hpass : Pane.KeepsId pass) :
    Operates (onWindow id pass : Pass (Desktop W D A) _) :=
  fun d ↦ .single (.onWindow d id hpass)

section

variable {program : Program W D A} (hprogram : ∀ callback, Operates (program.perform callback))
include hprogram

theorem operates_perform (task : Task W D) : Operates (perform program task) := by
  cases task with
  | callback callback => exact hprogram callback
  | release window => exact fun d ↦ .single (.releaseWindow d window)

theorem operates_performAll (tasks : List (Task W D)) : Operates (performAll program tasks) := by
  induction tasks with
  | nil => exact Pass.carries_pure ()
  | cons task tasks ih =>
    refine Pass.carries_bind (Pass.carries_tryCatch (operates_perform hprogram task) fun halt ↦ ?_) fun _ ↦ ih
    refine Pass.carries_bind (Pass.carries_forM (fun task ↦ ?_) tasks) fun _ ↦ Pass.carries_throw halt
    cases task with
    | callback callback => exact Pass.carries_pure ()
    | release window => exact fun d ↦ .single (.releaseWindow d window)

theorem operates_runDeferred : Operates (runDeferred program) :=
  Pass.carries_bind Pass.carries_get fun d ↦
    Pass.carries_bind (operates_modify (fun _ ↦ rfl) (fun _ ↦ rfl) fun _ ↦ rfl) fun _ ↦
      operates_performAll hprogram d.deferred

end

/-- Whether a desktop would only poll for input. -/
def busy (d : Desktop W D A) : Except Halt Bool := if 0 < d.realtime then .ok true else d.hasPendingWork

theorem takeInput_eq (d : Desktop W D A) :
    takeInput d = match d.busy with
      | .error halt => .error halt d
      | .ok busy =>
        let taken := if busy then d.platform.poll else d.platform.wait
        .ok taken.1 { d with platform := taken.2 } := by
  unfold busy takeInput
  rw [Pass.bind_get]
  dsimp only
  split
  · rfl
  · cases d.hasPendingWork <;> rfl

theorem operates_takeInput : Operates (takeInput : Pass (Desktop W D A) _) := by
  intro d
  rw [takeInput_eq]
  cases d.busy with
  | error halt => exact .refl
  | ok busy => cases busy <;> exact .single (.adjust rfl rfl rfl)

theorem operates_handInput (events : List (WindowId × ScreenEvent)) :
    Operates (handInput events : Pass (Desktop W D A) Unit) :=
  Pass.carries_forM (fun event ↦ Pass.carries_bind
    (operates_onWindow event.1 (Pane.keepsIdentity_receive event.2).keepsId) fun _ ↦ Pass.carries_pure _) events

theorem operates_dispatchWindow (program : Program W D A) (steps : Nat) (id : WindowId) :
    Operates (dispatchWindow program steps id) :=
  Pass.carries_bind (operates_onWindow id (Pane.keepsIdentity_dispatch program.handling steps).keepsId) fun _ ↦
    operates_modify (fun _ ↦ rfl) (fun _ ↦ rfl) fun _ ↦ rfl

theorem operates_presentWindows (program : Program W D A) (steps : Nat) (ids : List WindowId) :
    Operates (presentWindows program steps ids) := by
  induction ids with
  | nil => exact Pass.carries_pure _
  | cons id ids ih =>
    refine Pass.carries_bind Pass.carries_get fun d ↦ ?_
    refine Pass.carries_bind (operates_onWindow id
      (Pane.keepsIdentity_layoutIfNeeded_present program steps d.platform.outage).keepsId) fun answer ↦ ?_
    split
    · exact Pass.carries_pure _
    · exact ih

theorem operates_sweep : Operates (sweep : Pass (Desktop W D A) Unit) :=
  Pass.carries_bind Pass.carries_get fun _ ↦
    Pass.carries_forM (fun window d ↦ .single (.closeWindow d window.id)) _

/-- A tick consists of operations if its callbacks do. So a callback may tick in turn. -/
theorem operates_tickWith {program : Program W D A}
    (hprogram : ∀ callback, Operates (program.perform callback)) (steps : Nat)
    {perTick : Pass (Desktop W D A) Unit} (hperTick : Operates perTick) :
    Operates (tickWith program steps perTick) := by
  unfold tickWith
  refine Pass.carries_bind (operates_runDeferred hprogram) fun _ ↦ ?_
  refine Pass.carries_bind operates_takeInput fun events ↦ ?_
  refine Pass.carries_bind (operates_handInput events) fun _ ↦ ?_
  refine Pass.carries_bind Pass.carries_get fun d ↦ ?_
  refine Pass.carries_bind (Pass.carries_forM
    (fun window ↦ operates_dispatchWindow program steps window.id) d.windows) fun _ ↦ ?_
  refine Pass.carries_bind hperTick fun _ ↦ ?_
  refine Pass.carries_bind Pass.carries_get fun d ↦ ?_
  refine Pass.carries_bind (operates_presentWindows program steps _) fun answer ↦ ?_
  cases answer with
  | error fault => exact Pass.carries_pure _
  | ok _ => exact Pass.carries_bind operates_sweep fun _ ↦ Pass.carries_pure _

/-! ## Windows and screens -/

def windowIds (d : Desktop W D A) : List WindowId := d.windows.map Window.id

def screenIds (d : Desktop W D A) : List WindowId := d.platform.screens.map Prod.fst

/-- The number of the window that is opened next. -/
def nextId (d : Desktop W D A) : WindowId := ⟨d.nextWindow⟩

/-- Every open window has a screen, and numbers are given once. -/
structure Registered (d : Desktop W D A) : Prop where
  windows_nodup : d.windowIds.Nodup
  screens_nodup : d.screenIds.Nodup
  subset : d.windowIds ⊆ d.screenIds
  lt_next : ∀ id ∈ d.screenIds, id.number < d.nextWindow

namespace Registered

variable {d e : Desktop W D A}

theorem fresh (painterConfig : PainterConfig) (shared : A) :
    (fresh painterConfig shared : Desktop W D A).Registered where
  windows_nodup := List.nodup_nil
  screens_nodup := List.nodup_nil
  subset := List.nil_subset _
  lt_next _ h := by cases h

/-- Windows may go while the screens stay. -/
theorem of_fewer (h : d.Registered) (hwindows : e.windowIds.Sublist d.windowIds)
    (hscreens : e.screenIds = d.screenIds) (hnext : e.nextWindow = d.nextWindow) : e.Registered where
  windows_nodup := hwindows.nodup h.windows_nodup
  screens_nodup := hscreens ▸ h.screens_nodup
  subset := by
    rw [hscreens]
    exact List.Subset.trans hwindows.subset h.subset
  lt_next := by
    rw [hscreens, hnext]
    exact h.lt_next

/-- A new screen gets the next number, and so does its window if there is one. -/
theorem of_opened (h : d.Registered) (hwindows : e.windowIds.Sublist (d.windowIds ++ [d.nextId]))
    (hscreens : e.screenIds = d.screenIds ++ [d.nextId]) (hnext : e.nextWindow = d.nextWindow + 1) :
    e.Registered := by
  have hnew : d.nextId ∉ d.screenIds := fun hmem ↦ Nat.lt_irrefl d.nextWindow (h.lt_next d.nextId hmem)
  have hwindows_nodup : (d.windowIds ++ [d.nextId]).Nodup := by
    rw [List.nodup_append]
    refine ⟨h.windows_nodup, List.nodup_singleton _, fun id hid last hlast heq ↦ hnew ?_⟩
    rw [← List.mem_singleton.mp hlast, ← heq]
    exact h.subset hid
  constructor
  · exact hwindows.nodup hwindows_nodup
  · rw [hscreens, List.nodup_append]
    refine ⟨h.screens_nodup, List.nodup_singleton _, fun id hid last hlast heq ↦ hnew ?_⟩
    rw [← List.mem_singleton.mp hlast, ← heq]
    exact hid
  · rw [hscreens]
    intro id hid
    rcases List.mem_append.mp (hwindows.subset hid) with hold | hlast
    · exact List.mem_append_left _ (h.subset hold)
    · exact List.mem_append_right _ hlast
  · rw [hscreens, hnext]
    intro id hid
    rcases List.mem_append.mp hid with hold | hlast
    · exact Nat.lt_succ_of_lt (h.lt_next id hold)
    · rw [List.mem_singleton.mp hlast]
      exact Nat.lt_succ_self _

theorem screenIds_setScreen (platform : Headless) (id : WindowId) (screen : Screen) :
    (platform.setScreen id screen).screens.map Prod.fst = platform.screens.map Prod.fst := by
  simp only [Headless.setScreen, List.map_map]
  refine List.map_congr_left fun entry _ ↦ ?_
  simp only [Function.comp_apply]
  split
  · exact ‹entry.1 = id›.symm
  · rfl

theorem windowIds_putPane (id : WindowId) {pane : Pane W A} (hpane : pane.window.id = id) :
    (d.putPane id pane).windowIds = d.windowIds := by
  simp only [windowIds, putPane, List.map_map]
  refine List.map_congr_left fun w _ ↦ ?_
  simp only [Function.comp_apply]
  split
  · rw [hpane]
    exact ‹w.id = id›.symm
  · rfl

theorem onWindow (h : d.Registered) (id : WindowId) {pass : Pass (Pane W A) α} (hpass : Pane.KeepsId pass) :
    (Pass.final (Desktop.onWindow id pass d)).Registered := by
  unfold Desktop.onWindow
  cases hwindow : d.window? id with
  | none => exact h
  | some window =>
    cases hscreen : d.platform.screen? id with
    | none => exact h
    | some screen =>
      have hid : window.id = id := by simpa using List.find?_some hwindow
      have hkept := hpass ⟨window, screen, d.ambient⟩
      have hput {pane : Pane W A} (hpane : pane.window.id = id) : (d.putPane id pane).Registered :=
        h.of_fewer (by rw [windowIds_putPane id hpane]) (screenIds_setScreen _ _ _) rfl
      dsimp only
      cases hrun : pass ⟨window, screen, d.ambient⟩ with
      | ok answer pane =>
        rw [hrun] at hkept
        exact hput (hkept.symm.trans hid)
      | error halt pane =>
        rw [hrun] at hkept
        exact hput (hkept.symm.trans hid)

theorem openWindow (h : d.Registered) (config : WindowConfig) :
    (Pass.final (Desktop.openWindow config d)).Registered := by
  unfold Desktop.openWindow
  rw [Pass.bind_get]
  dsimp only
  cases hcreate : d.platform.createWindow ⟨d.nextWindow⟩ config with
  | error fault => exact h
  | ok created =>
    obtain ⟨screen, platform⟩ := created
    have hscreens : platform.screens.map Prod.fst = d.screenIds ++ [d.nextId] := by
      unfold Headless.createWindow at hcreate
      cases hrefused : d.platform.outage.create with
      | some reason =>
        rw [hrefused] at hcreate
        cases hcreate
      | none =>
        rw [hrefused] at hcreate
        cases hcreate
        exact List.map_append
    dsimp only
    cases hpainter : Painter.create d.painterConfig with
    | error halt => exact h.of_opened (List.sublist_append_left _ _) hscreens rfl
    | ok painter =>
      have hopened {window : Window W} (hid : window.id = d.nextId) {e : Desktop W D A}
          (hwindows : e.windows = d.windows ++ [window]) (hsame : e.platform = platform)
          (hnext : e.nextWindow = d.nextWindow + 1) : e.Registered := by
        refine h.of_opened ?_ ?_ hnext
        · rw [windowIds, hwindows, List.map_append, List.map_singleton, hid]
          exact List.Sublist.refl _
        · rw [screenIds, hsame, hscreens]
      by_cases hvisible : config.visible = true
      · simp only [hvisible, if_true]
        change (Pass.final ((Desktop.onWindow _ Pane.reveal >>= fun _ ↦ pure _ :
          Pass (Desktop W D A) (Except Fault WindowId)) _)).Registered
        rw [Pass.final_bind_pure]
        exact (hopened rfl rfl rfl rfl).onWindow _ Pane.keepsIdentity_reveal.keepsId
      · simp only [hvisible]
        exact hopened rfl rfl rfl rfl

theorem closeWindow (h : d.Registered) (id : WindowId) :
    (Pass.final (Desktop.closeWindow id d)).Registered := by
  unfold Desktop.closeWindow
  rw [Pass.bind_get]
  cases hwindow : d.window? id with
  | none => exact h
  | some window =>
    refine h.of_fewer ?_ rfl rfl
    exact List.filter_sublist.map Window.id

theorem releaseWindow (h : d.Registered) (window : Window W) :
    (Pass.final (Desktop.releaseWindow window d)).Registered := by
  unfold Desktop.releaseWindow
  rw [Pass.final_modify]
  cases d.platform.screen? window.id with
  | none => exact h
  | some screen => exact h.of_fewer (List.Sublist.refl _) (screenIds_setScreen _ _ _) rfl

theorem step (h : d.Registered) (hstep : Step d e) : e.Registered := by
  cases hstep with
  | openWindow _ config => exact h.openWindow config
  | closeWindow _ id => exact h.closeWindow id
  | onWindow _ id hpass => exact h.onWindow id hpass
  | releaseWindow _ window => exact h.releaseWindow window
  | adjust hwindows hscreens hnext =>
    refine h.of_fewer ?_ ?_ hnext
    · rw [windowIds, hwindows]
      exact List.Sublist.refl _
    · rw [screenIds, hscreens]
      rfl

theorem steps (h : d.Registered) (hsteps : Steps d e) : e.Registered := by
  induction hsteps with
  | refl => exact h
  | tail _ hstep ih => exact ih.step hstep

end Registered

end Desktop

end RetainedUi
