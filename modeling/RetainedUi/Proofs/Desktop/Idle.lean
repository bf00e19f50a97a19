import RetainedUi.Proofs.Desktop.Registry
import RetainedUi.Proofs.Forest.Walks
import RetainedUi.Proofs.Routing.Passes

/-!
# Ticks without work

A tick waits for input only if no callback is scheduled and no window has events, a region to be painted or views
to be laid out. If no input comes then, the rest of the tick has little left to do: it gives up dead redirects,
which is all that a dispatch without events does, and takes the closed windows off the list. Nothing is laid out
or drawn, and no widget is asked for anything.

That closed windows are still in the list is not counted as work. A callback that closes a window can leave one
there, and then the tick waits before it gives the window back.
-/

namespace RetainedUi

variable {W D A : Type}

namespace Forest

variable {f : Forest W}

/-- Views that are found by a walk downwards and bear no mark have been settled. -/
theorem Descends.settle_eq {stack found : List Placed} (h : f.Descends stack found)
    (hclean : ∀ p ∈ found, (f.node? p.view).any (·.needsLayout) = false) (conduct : LayoutConduct W A)
    {depth : Nat} (hdepth : found.length ≤ depth) {s : Grove W A} (hforest : s.forest = f) :
    ∀ p ∈ stack, settle conduct depth false p.view s = .ok () s := by
  induction h generalizing depth with
  | done => simp
  | @step p rest found hlive _ ih =>
    obtain ⟨hp, hfound⟩ := List.forall_mem_cons.mp hclean
    -- One step down takes one off the bound, and one view off those that are still to be found.
    obtain ⟨depth, rfl⟩ := Nat.exists_eq_add_of_le' (Nat.le_trans (Nat.le_add_left 1 _) hdepth)
    have hbelow : found.length ≤ depth := Nat.le_of_succ_le_succ hdepth
    obtain ⟨node, hnode⟩ := contains_iff.mp hlive
    have hunmarked : node.needsLayout = false := by simpa [hnode] using hp
    have hread : Grove.ask (fun g ↦ g.read p.view) s = .ok node s := by
      change Pass.lift (s.forest.read p.view) s = _
      rw [hforest, read_eq_ok.mpr hnode]
      rfl
    have hsubviews : node.subviews.forM (fun sub ↦ settle conduct depth false sub) s = .ok ⟨⟩ s := by
      refine Pass.forM_eq_ok _ fun sub hsub ↦ ?_
      rw [← subviewsOf_of_node? hnode] at hsub
      exact ih hfound hbelow ⟨sub, p.depth + 1⟩
        (List.mem_append_left _ (mem_placedSubviews_iff.mpr ⟨hsub, rfl⟩))
    rw [List.forall_mem_cons]
    constructor
    · unfold settle
      rw [Pass.bind_of_ok hread]
      simp only [hunmarked, Bool.or_self, Bool.false_eq_true, if_false]
      exact (Pass.bind_of_ok hread).trans hsubviews
    · intro q hq
      exact ih hfound (Nat.le_succ_of_le hbelow) q (List.mem_append_right _ hq)

end Forest

namespace Window

/-- A window without events, without a region to be painted and without views to be laid out. -/
structure Idle (w : Window W) : Prop where
  queue : w.queue = []
  needsRedraw : w.needsRedraw = .ok false
  needsLayout : w.needsLayout = .ok false

/-- The window without its dead redirects. -/
def pruned (w : Window W) : Window W := { w with redirects := (w.redirects.prune w.forest).1 }

/-- The notes about the dead redirects. -/
def pruneNotes (w : Window W) : List Note := (w.redirects.prune w.forest).2

theorem Idle.pruned {w : Window W} (h : w.Idle) : w.pruned.Idle := ⟨h.queue, h.needsRedraw, h.needsLayout⟩

end Window

namespace Pane

/-! ## One window -/

variable {s : Pane W A} (h : s.window.Idle)
include h

theorem dispatch_of_idle (conduct : HandlingConduct W D A) (steps : Nat) :
    dispatch conduct steps s = .ok [] { s with
      window := s.window.pruned
      ambient := s.ambient.noteAll s.window.pruneNotes } := by
  let desk : Desk W D A := ⟨s.window.forest, s.window.queue, s.window.redirects, [], s.ambient⟩
  have hqueue : desk.pruned.queue = [] := h.queue
  have hdrain : Routing.drain conduct steps s.window.root steps desk.pruned = .ok [] desk.pruned := by
    cases steps with
    | zero =>
      change (ite (desk.pruned.queue.isEmpty = true) _ _ : Pass (Desk W D A) _) desk.pruned = _
      rw [hqueue]
      rfl
    | succ steps =>
      rw [Routing.drain, Pass.bind_get, hqueue]
      rfl
  have hdesk : onDesk (Routing.dispatch conduct steps s.window.root) s = .ok ([], []) { s with
      window := s.window.pruned
      ambient := s.ambient.noteAll s.window.pruneNotes } := by
    unfold onDesk
    rw [Routing.dispatch_eq, hdrain]
    rfl
  exact Pass.bind_of_ok hdesk

theorem layoutIfNeeded_of_idle (conduct : LayoutConduct W A) {steps : Nat}
    (hsteps : s.window.forest.slots.size ≤ steps) : layoutIfNeeded conduct steps s = .ok () s := by
  obtain ⟨found, hfound, hclean⟩ := bind_eq_ok.mp h.needsLayout
  obtain ⟨hdescends, hlength⟩ := Forest.descend_eq_ok_iff.mp hfound
  have hunmarked : ∀ p ∈ found, (s.window.forest.node? p.view).any (·.needsLayout) = false := by
    have hnone := List.any_eq_false.mp (Except.ok.inj hclean)
    simpa using hnone
  have hsettled := hdescends.settle_eq hunmarked conduct (Nat.le_trans hlength hsteps)
    (show Grove.forest ⟨s.window.forest, s.ambient⟩ = _ from rfl) _ (List.mem_singleton_self _)
  change onGrove (Forest.settle conduct steps false s.window.root) s = _
  unfold onGrove
  rw [hsettled]

theorem present_of_idle (conduct : DrawingConduct W A) (outage : Outage) :
    present conduct outage s = .ok (.ok ()) s := by
  have hclean : s.window.needsRedraw ≠ .ok true := by
    rw [h.needsRedraw]
    simp
  rw [present_of_not_needsRedraw conduct outage hclean, h.needsRedraw]

end Pane

namespace Desktop

/-- A question is put only while the answers are negative. -/
theorem bind_eq_ok_false_iff {question : Except Halt Bool} {others : Bool → Except Halt Bool}
    (h : others true = .ok true) :
    question >>= others = .ok false ↔ question = .ok false ∧ others false = .ok false := by
  constructor
  · intro hno
    obtain ⟨answer, hquestion, hothers⟩ := bind_eq_ok.mp hno
    cases answer with
    | true => cases h.symm.trans hothers
    | false => exact ⟨hquestion, hothers⟩
  · rintro ⟨hquestion, hothers⟩
    exact bind_eq_ok.mpr ⟨false, hquestion, hothers⟩

theorem windowHasWork_eq_false_iff {w : Window W} : windowHasWork w = .ok false ↔ w.Idle := by
  unfold windowHasWork
  cases hqueue : w.queue with
  | cons e queue =>
    constructor
    · intro h
      cases h
    · intro h
      cases hqueue.symm.trans h.queue
  | nil =>
    change (w.needsRedraw >>= fun redraw ↦ if redraw then pure true else w.needsLayout) = _ ↔ _
    rw [bind_eq_ok_false_iff (by rfl)]
    constructor
    · rintro ⟨hredraw, hlayout⟩
      exact ⟨hqueue, hredraw, hlayout⟩
    · intro h
      exact ⟨h.needsRedraw, h.needsLayout⟩

theorem hasPendingWork_eq_false_iff {d : Desktop W D A} :
    d.hasPendingWork = .ok false ↔ d.deferred = [] ∧ ∀ w ∈ d.windows, w.Idle := by
  have hwindows : ∀ ws : List (Window W), ws.anyM windowHasWork = .ok false ↔ ∀ w ∈ ws, w.Idle := by
    intro ws
    induction ws with
    | nil => simp [pure, Except.pure]
    | cons w ws ih =>
      rw [List.forall_mem_cons, ← ih, ← windowHasWork_eq_false_iff, List.anyM]
      exact bind_eq_ok_false_iff (by rfl)
  unfold hasPendingWork
  cases hdeferred : d.deferred with
  | nil => simpa using hwindows d.windows
  | cons task tasks => simp [pure, Except.pure]

/-! ## All windows -/

variable {d : Desktop W D A}

theorem exists_screen_iff {id : WindowId} :
    (∃ screen, d.platform.screen? id = some screen) ↔ id ∈ d.screenIds := by
  rw [← Option.isSome_iff_exists, Option.isSome_iff_ne_none, ne_eq, Headless.screen?, List.lookup_eq_none_iff]
  simp [screenIds]

namespace Registered

variable (h : d.Registered)
include h

theorem eq_of_id_eq {w x : Window W} (hw : w ∈ d.windows) (hx : x ∈ d.windows) (hid : w.id = x.id) : w = x :=
  List.inj_on_of_nodup_map h.windows_nodup hw hx hid

theorem window?_eq {w : Window W} (hw : w ∈ d.windows) : d.window? w.id = some w := by
  unfold window?
  cases hfound : d.windows.find? (·.id == w.id) with
  | none =>
    have hnone := List.find?_eq_none.mp hfound w hw
    simp at hnone
  | some x =>
    have hid : x.id = w.id := by simpa using List.find?_some hfound
    rw [h.eq_of_id_eq (List.mem_of_find?_eq_some hfound) hw hid]

theorem exists_screen {w : Window W} (hw : w ∈ d.windows) : ∃ screen, d.platform.screen? w.id = some screen :=
  exists_screen_iff.mpr (h.subset (List.mem_map_of_mem hw))

/-- Putting a screen back that has not changed. -/
theorem setScreen_eq {id : WindowId} {screen : Screen} (hscreen : d.platform.screen? id = some screen) :
    d.platform.setScreen id screen = d.platform := by
  obtain ⟨before, behind, hscreens, -⟩ := List.lookup_eq_some_iff.mp hscreen
  have hmem : (id, screen) ∈ d.platform.screens := by simp [hscreens]
  have hsame : d.platform.screens.map (fun entry ↦ if entry.1 = id then (id, screen) else entry) =
      d.platform.screens := by
    refine (List.map_congr_left fun entry hentry ↦ ?_).trans (List.map_id _)
    split
    · exact (List.inj_on_of_nodup_map h.screens_nodup hentry hmem ‹entry.1 = id›).symm
    · rfl
  rw [Headless.setScreen, hsame]

theorem id_ne_of_append {before behind : List (Window W)} {w : Window W}
    (hwindows : d.windows = before ++ w :: behind) : ∀ x ∈ before ++ behind, x.id ≠ w.id := by
  have hnodup := h.windows_nodup
  rw [windowIds, hwindows, List.map_append, List.map_cons, List.nodup_middle, List.nodup_cons,
    ← List.map_append] at hnodup
  intro x hx hid
  exact hnodup.1 (hid ▸ List.mem_map_of_mem hx)

/-- Work on one window that leaves its screen alone. -/
theorem onWindow_eq {α : Type} {before behind : List (Window W)} {w w' : Window W}
    (hwindows : d.windows = before ++ w :: behind) {pass : Pass (Pane W A) α} {answer : α} {ambient : Ambient A}
    (hpass : ∀ screen, pass ⟨w, screen, d.ambient⟩ = .ok answer ⟨w', screen, ambient⟩) :
    Desktop.onWindow w.id pass d =
      .ok (some answer) { d with windows := before ++ w' :: behind, ambient } := by
  have hw : w ∈ d.windows := by simp [hwindows]
  obtain ⟨screen, hscreen⟩ := h.exists_screen hw
  have hothers := h.id_ne_of_append hwindows
  have hmap (others : List (Window W)) (hsub : others ⊆ before ++ behind) :
      others.map (fun x ↦ if x.id = w.id then w' else x) = others := by
    refine (List.map_congr_left fun x hx ↦ ?_).trans (List.map_id _)
    rw [if_neg (hothers x (hsub hx)), id]
  have hput : d.putPane w.id ⟨w', screen, ambient⟩ = { d with windows := before ++ w' :: behind, ambient } := by
    simp only [putPane, h.setScreen_eq hscreen, hwindows, List.map_append, List.map_cons, if_true,
      hmap before (List.subset_append_left _ _), hmap behind (List.subset_append_right _ _)]
  unfold Desktop.onWindow
  rw [h.window?_eq hw, hscreen]
  dsimp only
  rw [hpass screen]
  dsimp only
  rw [hput]

end Registered

/-! ## The parts of a tick -/

theorem dispatchWindow_of_idle (h : d.Registered) (program : Program W D A) (steps : Nat)
    {before behind : List (Window W)} {w : Window W} (hwindows : d.windows = before ++ w :: behind)
    (hidle : w.Idle) : dispatchWindow program steps w.id d = .ok () { d with
      windows := before ++ w.pruned :: behind
      ambient := d.ambient.noteAll w.pruneNotes } := by
  have hpass (screen : Screen) : Pane.dispatch program.handling steps ⟨w, screen, d.ambient⟩ =
      .ok [] ⟨w.pruned, screen, d.ambient.noteAll w.pruneNotes⟩ :=
    Pane.dispatch_of_idle hidle program.handling steps
  refine (Pass.bind_of_ok (h.onWindow_eq hwindows hpass)).trans ?_
  change EStateM.Result.ok () { d with
    windows := before ++ w.pruned :: behind
    ambient := d.ambient.noteAll w.pruneNotes
    deferred := d.deferred ++ [] } = _
  rw [List.append_nil]

theorem dispatchWindows_of_idle (h : d.Registered) (program : Program W D A) (steps : Nat)
    {before behind : List (Window W)} (hwindows : d.windows = before ++ behind) (hidle : ∀ w ∈ behind, w.Idle) :
    behind.forM (fun w ↦ dispatchWindow program steps w.id) d = .ok ⟨⟩ { d with
      windows := before ++ behind.map Window.pruned
      ambient := behind.foldl (fun ambient w ↦ ambient.noteAll w.pruneNotes) d.ambient } := by
  induction behind generalizing d before with
  | nil =>
    change EStateM.Result.ok PUnit.unit d = .ok ⟨⟩ { d with windows := before ++ [] }
    rw [← hwindows]
  | cons w behind ih =>
    obtain ⟨hw, hbehind⟩ := List.forall_mem_cons.mp hidle
    -- The windows that have been dispatched are pruned, so the rest runs on another desktop than this one.
    refine (Pass.bind_of_ok (dispatchWindow_of_idle h program steps hwindows hw)).trans ?_
    have hnext : Registered { d with
        windows := before ++ w.pruned :: behind
        ambient := d.ambient.noteAll w.pruneNotes } := by
      refine h.of_fewer ?_ rfl rfl
      simp [windowIds, hwindows, Window.pruned]
    have hdone : before ++ w.pruned :: behind = (before ++ [w.pruned]) ++ behind := by simp
    rw [ih hnext hdone hbehind]
    simp

theorem presentWindows_of_idle (h : d.Registered) (program : Program W D A) {steps : Nat}
    (hidle : ∀ w ∈ d.windows, w.Idle) (hsteps : ∀ w ∈ d.windows, w.forest.slots.size ≤ steps)
    {ids : List WindowId} (hids : ids ⊆ d.windowIds) :
    presentWindows program steps ids d = .ok (.ok ()) d := by
  induction ids with
  | nil => rfl
  | cons id ids ih =>
    obtain ⟨hid, hrest⟩ := List.cons_subset.mp hids
    obtain ⟨w, hw, rfl⟩ := List.mem_map.mp hid
    obtain ⟨before, behind, hwindows⟩ := List.append_of_mem hw
    have hpass (screen : Screen) : (do
        Pane.layoutIfNeeded program.layout steps
        Pane.present program.drawing d.platform.outage : Pass (Pane W A) _) ⟨w, screen, d.ambient⟩ =
          .ok (.ok ()) ⟨w, screen, d.ambient⟩ :=
      (Pass.bind_of_ok (Pane.layoutIfNeeded_of_idle (hidle w hw) program.layout (hsteps w hw))).trans
        (Pane.present_of_idle (hidle w hw) program.drawing d.platform.outage)
    have hround := h.onWindow_eq hwindows hpass
    rw [← hwindows] at hround
    rw [presentWindows, Pass.bind_get]
    exact (Pass.bind_of_ok hround).trans (ih hrest)

theorem closeWindow_of_closed (h : d.Registered) {w : Window W} (hw : w ∈ d.windows) (hclosed : w.isClosed = true) :
    closeWindow w.id d = .ok () { d with
      windows := d.windows.filter (·.id != w.id)
      deferred := d.deferred ++ [.release w] } := by
  have hclose : w.close = (w, []) := if_pos hclosed
  rw [closeWindow, Pass.bind_get, h.window?_eq hw]
  dsimp only
  rw [hclose]
  change EStateM.Result.ok () { d with
    windows := d.windows.filter (·.id != w.id)
    ambient := d.ambient.noteAll []
    deferred := d.deferred ++ [Task.release w] } = _
  simp [Ambient.noteAll]

theorem closeWindows_of_closed (h : d.Registered) {ws : List (Window W)} (hws : ws ⊆ d.windows)
    (hnodup : (ws.map Window.id).Nodup) (hclosed : ∀ w ∈ ws, w.isClosed = true) :
    ws.forM (fun w ↦ closeWindow w.id) d = .ok ⟨⟩ { d with
      windows := d.windows.filter fun w ↦ w.id ∉ ws.map Window.id
      deferred := d.deferred ++ ws.map .release } := by
  induction ws generalizing d with
  | nil =>
    change EStateM.Result.ok PUnit.unit d = .ok ⟨⟩ { d with
      windows := d.windows.filter fun w ↦ w.id ∉ []
      deferred := d.deferred ++ [] }
    simp
  | cons w ws ih =>
    obtain ⟨hw, hrest⟩ := List.cons_subset.mp hws
    obtain ⟨hout, hnodup⟩ := List.nodup_cons.mp hnodup
    obtain ⟨hwclosed, hclosed⟩ := List.forall_mem_cons.mp hclosed
    refine (Pass.bind_of_ok (closeWindow_of_closed h hw hwclosed)).trans ?_
    have hnext : Registered { d with
        windows := d.windows.filter (·.id != w.id)
        deferred := d.deferred ++ [.release w] } :=
      h.of_fewer (List.filter_sublist.map Window.id) rfl rfl
    have hleft : ws ⊆ d.windows.filter (·.id != w.id) := by
      intro x hx
      refine List.mem_filter.mpr ⟨hrest hx, ?_⟩
      have hne : x.id ≠ w.id := fun hid ↦ hout (hid ▸ List.mem_map_of_mem hx)
      simpa using hne
    have hkept : (d.windows.filter (·.id != w.id)).filter (fun x ↦ x.id ∉ ws.map Window.id) =
        d.windows.filter fun x ↦ x.id ∉ (w :: ws).map Window.id := by
      rw [List.filter_filter]
      refine List.filter_congr fun x _ ↦ ?_
      rw [Bool.eq_iff_iff, List.map_cons]
      simp [and_comm]
    rw [ih hnext hleft hnodup hclosed]
    dsimp only
    rw [hkept, List.append_assoc]
    rfl

theorem sweep_eq (h : d.Registered) : sweep d = .ok () { d with
    windows := d.windows.filter (!·.isClosed)
    deferred := d.deferred ++ (d.windows.filter (·.isClosed)).map .release } := by
  have hclosed : ∀ w ∈ d.windows.filter (·.isClosed), w.isClosed = true := fun w hw ↦ (List.mem_filter.mp hw).2
  have hnodup : ((d.windows.filter (·.isClosed)).map Window.id).Nodup :=
    (List.filter_sublist.map Window.id).nodup h.windows_nodup
  have hkept : d.windows.filter (fun w ↦ w.id ∉ (d.windows.filter (·.isClosed)).map Window.id) =
      d.windows.filter (!·.isClosed) := by
    refine List.filter_congr fun w hw ↦ ?_
    have hmem : w.id ∈ (d.windows.filter (·.isClosed)).map Window.id ↔ w.isClosed = true := by
      constructor
      · intro hid
        obtain ⟨x, hx, hid⟩ := List.mem_map.mp hid
        obtain ⟨hx, hxclosed⟩ := List.mem_filter.mp hx
        rwa [h.eq_of_id_eq hw hx hid.symm]
      · exact fun hwclosed ↦ List.mem_map_of_mem (List.mem_filter.mpr ⟨hw, hwclosed⟩)
    rw [Bool.eq_iff_iff]
    simp [hmem]
  rw [sweep, Pass.bind_get]
  rw [closeWindows_of_closed h List.filter_sublist.subset hnodup hclosed, hkept]

/-! ## The whole tick -/

/-- What is left after a tick without work: the windows that are not closed, without their dead redirects. The
closed ones are given back later. -/
def idled (d : Desktop W D A) : Desktop W D A :=
  { d with
    windows := (d.windows.map Window.pruned).filter (!·.isClosed)
    deferred := d.deferred ++ ((d.windows.map Window.pruned).filter (·.isClosed)).map .release
    ambient := d.windows.foldl (fun ambient w ↦ ambient.noteAll w.pruneNotes) d.ambient }

/-- Waiting for input means that nothing counts as work. -/
theorem idle_of_waits {after : Desktop W D A} {events : List (WindowId × ScreenEvent)}
    (hinput : takeInput d = .ok events after) (hwaits : after.platform.waits = d.platform.waits + 1) :
    (d.deferred = [] ∧ ∀ w ∈ d.windows, w.Idle) ∧ after = { d with platform := d.platform.wait.2 } := by
  rw [takeInput_eq] at hinput
  cases hbusy : d.busy with
  | error halt =>
    rw [hbusy] at hinput
    cases hinput
  | ok busy =>
    rw [hbusy] at hinput
    cases busy with
    | true =>
      cases hinput
      exact absurd hwaits (Nat.succ_ne_self _).symm
    | false =>
      cases hinput
      refine ⟨hasPendingWork_eq_false_iff.mp ?_, rfl⟩
      unfold busy at hbusy
      split at hbusy
      · cases hbusy
      · exact hbusy

theorem idle_of_mem_pruned {ws : List (Window W)} (hidle : ∀ w ∈ ws, w.Idle) :
    ∀ w ∈ ws.map Window.pruned, w.Idle := by
  intro w hw
  obtain ⟨x, hx, rfl⟩ := List.mem_map.mp hw
  exact (hidle x hx).pruned

theorem windowIds_idled : d.idled.windowIds = (d.windows.filter (!·.isClosed)).map Window.id := by
  rw [windowIds, idled, List.filter_map, List.map_map]
  rfl

theorem deferred_idled :
    d.idled.deferred = d.deferred ++ ((d.windows.filter (·.isClosed)).map Window.pruned).map .release := by
  change d.deferred ++ ((d.windows.map Window.pruned).filter (·.isClosed)).map Task.release = _
  rw [List.filter_map]
  rfl

/-- Nothing leaves the list and nothing is scheduled just if no window is closed. -/
theorem idled_keeps_iff : d.idled.windowIds = d.windowIds ∧ d.idled.deferred = d.deferred ↔
    ∀ w ∈ d.windows, w.isClosed = false := by
  rw [windowIds_idled, deferred_idled]
  constructor
  · rintro ⟨hids, -⟩ w hw
    have hlength : (d.windows.filter (!·.isClosed)).length = d.windows.length := by
      simpa [windowIds] using congrArg List.length hids
    simpa using List.length_filter_eq_length_iff.mp hlength w hw
  · intro hopen
    have hkept : d.windows.filter (!·.isClosed) = d.windows :=
      List.filter_eq_self.mpr fun w hw ↦ by simp [hopen w hw]
    have hnone : d.windows.filter (·.isClosed) = [] :=
      List.filter_eq_nil_iff.mpr fun w hw ↦ by simp [hopen w hw]
    rw [hkept, hnone]
    exact ⟨rfl, List.append_nil _⟩

/-- The part of a tick behind its input, if no input came. -/
theorem settle_tick (h : d.Registered) (program : Program W D A) {steps : Nat} (hidle : ∀ w ∈ d.windows, w.Idle)
    (hsteps : ∀ w ∈ d.windows, w.forest.slots.size ≤ steps) : (do
      handInput []
      (← get).windows.forM fun window ↦ dispatchWindow program steps window.id
      match ← presentWindows program steps ((← get).windows.map (·.id)) with
      | .error fault => return .error fault
      | .ok () =>
        sweep
        return .ok () : Pass (Desktop W D A) (Except Fault Unit)) d = .ok (.ok ()) d.idled := by
  let dispatched : Desktop W D A := { d with
    windows := d.windows.map Window.pruned
    ambient := d.windows.foldl (fun ambient w ↦ ambient.noteAll w.pruneNotes) d.ambient }
  have hdispatch : d.windows.forM (fun w ↦ dispatchWindow program steps w.id) d = .ok ⟨⟩ dispatched :=
    dispatchWindows_of_idle h program steps (List.nil_append d.windows).symm hidle
  have hids : dispatched.windowIds = d.windowIds := List.map_map
  have hdispatched : dispatched.Registered := h.of_fewer (by rw [hids]) rfl rfl
  have hpresent : presentWindows program steps dispatched.windowIds dispatched = .ok (.ok ()) dispatched := by
    refine presentWindows_of_idle hdispatched program (idle_of_mem_pruned hidle) ?_ (List.Subset.refl _)
    intro w hw
    obtain ⟨x, hx, rfl⟩ := List.mem_map.mp hw
    exact hsteps x hx
  have hinput : handInput [] d = .ok ⟨⟩ d := rfl
  rw [Pass.bind_of_ok hinput, Pass.bind_get, Pass.bind_of_ok hdispatch, Pass.bind_get]
  refine (Pass.bind_of_ok hpresent).trans ?_
  refine (Pass.bind_of_ok (sweep_eq hdispatched)).trans ?_
  rfl

/-- A tick that waits in vain leaves the windows alone that are open, and lets the others go. What the widgets
do does not matter, nor does the bound on the depth of layouts once it is no less than the number of slots. -/
theorem tick_idle {program : Program W D A} (hprogram : ∀ callback, Operates (program.perform callback))
    {config : PainterConfig} {shared : A} {d mid after : Desktop W D A} (hd : Steps (fresh config shared) d)
    (hrun : runDeferred program d = .ok () mid) (hinput : takeInput mid = .ok [] after)
    (hwaits : after.platform.waits = mid.platform.waits + 1) {steps : Nat}
    (hsteps : ∀ w ∈ mid.windows, w.forest.slots.size ≤ steps) :
    tick program steps d = .ok (.ok ()) after.idled ∧
      after.idled.platform.screens = mid.platform.screens ∧
      (after.idled.windowIds = mid.windowIds ∧ after.idled.deferred = mid.deferred ↔
        ∀ w ∈ mid.windows, w.isClosed = false) := by
  have hmid : mid.Registered := by
    have hsteps := operates_runDeferred hprogram d
    rw [hrun] at hsteps
    exact (Registered.fresh config shared).steps (hd.trans hsteps)
  obtain ⟨⟨-, hidle⟩, rfl⟩ := idle_of_waits hinput hwaits
  have hafter : Registered { mid with platform := mid.platform.wait.2 } :=
    hmid.of_fewer (List.Sublist.refl _) rfl rfl
  refine ⟨?_, rfl, idled_keeps_iff⟩
  unfold tick tickWith
  rw [Pass.bind_of_ok hrun, Pass.bind_of_ok hinput]
  exact settle_tick hafter program hidle hsteps

/-- A program without widgets, whose only callback closes the first window. -/
def closing : Program Unit Unit Unit :=
  { layout := fun _ ↦ none
    handling := fun _ ↦ none
    drawing := fun _ ↦ none
    perform := fun _ ↦ do let _ ← onWindow ⟨1⟩ Pane.close }

/-- The same program with a callback that only hides the window. -/
def concealing : Program Unit Unit Unit :=
  { closing with perform := fun _ ↦ do let _ ← onWindow ⟨1⟩ Pane.hide }

/-- A window is shown and painted and is to be painted again, and then the callback is scheduled. -/
def repaints : Pass (Desktop Unit Unit Unit) Unit := do
  let _ ← openWindow ⟨"", .ofSides 0 0 100 100, true⟩
  let _ ← tick concealing 8
  let _ ← onWindow ⟨1⟩ Pane.repaint
  post (.callback ())

def repainted : Desktop Unit Unit Unit := Pass.final (repaints (fresh ⟨4, 4⟩ ()))

theorem operates_concealing (callback : Unit) : Operates (concealing.perform callback) :=
  Pass.carries_bind (operates_onWindow _ Pane.keepsIdentity_hide.keepsId) fun _ ↦ Pass.carries_pure _

theorem operates_repaints : Operates repaints :=
  Pass.carries_bind (fun d ↦ .single (.openWindow d _)) fun _ ↦
    Pass.carries_bind (operates_tickWith operates_concealing 8 (Pass.carries_pure ())) fun _ ↦
      Pass.carries_bind (operates_onWindow _ Pane.keepsIdentity_repaint.keepsId) fun _ ↦
        operates_modify (fun _ ↦ rfl) (fun _ ↦ rfl) fun _ ↦ rfl

/-- Before a tick that would paint a window, a callback hides it. The tick waits for input, and the window stays. -/
theorem tick_idle_hidden : ∃ mid after, repainted.deferred.length = 1 ∧
    repainted.windows.map Window.needsRedraw = [.ok true] ∧ runDeferred concealing repainted = .ok () mid ∧
      takeInput mid = .ok [] after ∧ after.platform.waits = mid.platform.waits + 1 ∧
        (∀ w ∈ mid.windows, w.forest.slots.size ≤ 8) ∧
        tick concealing 8 repainted = .ok (.ok ()) after.idled ∧ after.idled.windowIds = [⟨1⟩] := by
  have hscheduled : repainted.deferred.length = 1 := by decide +kernel
  have hredraw : repainted.windows.map Window.needsRedraw = [.ok true] := by decide +kernel
  have hends : (match runDeferred concealing repainted with
      | .ok _ mid => decide (mid.busy = .ok false ∧ mid.platform.queued = [] ∧ mid.windowIds = [⟨1⟩] ∧
          ∀ w ∈ mid.windows, w.forest.slots.size ≤ 8 ∧ w.isClosed = false)
      | .error _ _ => false) = true := by decide +kernel
  cases hrun : runDeferred concealing repainted with
  | error halt mid =>
    rw [hrun] at hends
    cases hends
  | ok answer mid =>
    rw [hrun] at hends
    obtain ⟨hbusy, hqueued, hids, hwindows⟩ := of_decide_eq_true hends
    have hinput : takeInput mid = .ok [] { mid with platform := mid.platform.wait.2 } := by
      rw [takeInput_eq, hbusy, ← hqueued]
      rfl
    obtain ⟨htick, -, hkeeps⟩ := tick_idle operates_concealing (operates_repaints _) hrun hinput rfl
      fun w hw ↦ (hwindows w hw).1
    exact ⟨mid, _, hscheduled, hredraw, rfl, hinput, rfl, fun w hw ↦ (hwindows w hw).1, htick,
      (hkeeps.mpr fun w hw ↦ (hwindows w hw).2).1.trans hids⟩

/-- A hidden window that has been laid out. -/
def settled : Desktop Unit Unit Unit :=
  Pass.final (tick closing 8 (Pass.final (openWindow ⟨"", .ofSides 0 0 100 100, false⟩ (fresh ⟨4, 4⟩ ()))))

theorem operates_closing (callback : Unit) : Operates (closing.perform callback) :=
  Pass.carries_bind (operates_onWindow _ Pane.keepsIdentity_close.keepsId) fun _ ↦ Pass.carries_pure _

theorem steps_settled : Steps (fresh ⟨4, 4⟩ ()) settled := by
  have hopened : Steps (fresh ⟨4, 4⟩ ()) (Pass.final (openWindow ⟨"", .ofSides 0 0 100 100, false⟩
    (fresh ⟨4, 4⟩ () : Desktop Unit Unit Unit))) := .single (.openWindow _ _)
  exact hopened.trans (operates_tickWith operates_closing 8 (Pass.carries_pure ()) _)

/-- A callback closes a hidden window. The tick waits for input, and then the window leaves the list. -/
theorem tick_waits_closed : ∃ posted : Desktop Unit Unit Unit, Steps (fresh ⟨4, 4⟩ ()) posted ∧
    posted.platform.queued = [] ∧ (Pass.final (runDeferred closing posted)).windowIds = [⟨1⟩] ∧
      (Pass.final (tick closing 8 posted)).platform.waits = posted.platform.waits + 1 ∧
        (Pass.final (tick closing 8 posted)).windowIds = [] := by
  let posted : Desktop Unit Unit Unit := Pass.final (post (.callback ()) settled)
  have hsteps : Steps (fresh ⟨4, 4⟩ ()) posted := steps_settled.tail (.adjust rfl rfl rfl)
  exact ⟨posted, hsteps, by decide +kernel, by decide +kernel, by decide +kernel, by decide +kernel⟩

end Desktop

end RetainedUi
