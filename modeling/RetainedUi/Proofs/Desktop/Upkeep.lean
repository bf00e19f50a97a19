import RetainedUi.Proofs.Desktop.Idle
import RetainedUi.Proofs.Forest.Settling

/-!
# What one window gets done in a tick

A window is dispatched until its queue is empty, then it is laid out, and then it is presented. None of this makes
work for what came before it, as long as layouts do no more than to arrange subviews: painting changes neither links
nor marks. One round of painting is enough if no drawing is to be repeated at once, because nothing else makes a
clean root dirty again. So the window is idle behind its presentation.

This holds for a presentation that ends at a fault as well, because the pending region of the root is taken before
anything is drawn, and is not put back. Only a device that cannot be bound is found out before that.
-/

namespace RetainedUi

variable {W D A α : Type}

namespace Forest

/-- What a view looks like to a layout: its links, and whether it is to be laid out. -/
def upkeep (node : Node W) : (Nat × Option View × List View) × Bool := (node.links, node.needsLayout)

/-- No view has a pending region that had none before. -/
def StaysClean (f g : Forest W) : Prop := ∀ v, f.pending? v = none → g.pending? v = none

instance : IsPreorder (Forest W) StaysClean where
  refl _ _ h := h
  trans _ _ _ hfg hgh v h := hgh v (hfg v h)

/-- Drawing that is not to be repeated leaves clean what is clean. -/
theorem Paints.staysClean {f g : Forest W} (h : Paints False f g) : StaysClean f g := by
  intro w hw
  cases h with
  | setWidget v widget =>
    rw [pending?_modify]
    split <;> exact hw
  | takeInvalidated h =>
    simp only [Forest.takeInvalidated, bind_eq_ok, read_eq_ok, pure, Except.pure, Except.ok.injEq, Prod.mk.injEq] at h
    obtain ⟨-, -, -, rfl⟩ := h
    rw [pending?_modify]
    split
    · cases f.node? w <;> rfl
    · exact hw
  | invalidate hagain => exact hagain.elim

/-- Painting is no matter of layout. -/
theorem Paints.alike_upkeep {again : Prop} {f g : Forest W} (h : Paints again f g) : Alike upkeep f g := by
  cases h with
  | setWidget v widget => exact .modify (fun _ ↦ by rfl) f v
  | takeInvalidated h => exact (alike_of_takeInvalidated h).map upkeep
  | invalidate _ h => exact (alike_of_invalidate h).map upkeep

/-- Whether layout is needed does not depend on what painting changes. -/
theorem needsLayoutBelow_of_alike {f g : Forest W} (h : Alike upkeep f g) (hf : f.WellFormed) {v : View}
    (hclean : f.needsLayoutBelow v = .ok false) : g.needsLayoutBelow v = .ok false := by
  have hlinks : Alike Node.links f g := h.map Prod.fst
  have hmarks : Alike Node.needsLayout f g := h.map Prod.snd
  obtain ⟨hlive, hunmarked⟩ := hf.needsLayoutBelow_eq_false_iff.mp hclean
  refine (hlinks.wellFormed hf).needsLayoutBelow_eq_false_iff.mpr ⟨(hlinks.contains v).symm.trans hlive, ?_⟩
  exact fun w hw ↦ (hmarks.marked w).trans (hunmarked w ((hlinks.inFamily v w).mpr hw))

end Forest

/-- Widgets whose drawings are not to be repeated at once. -/
def DrawingConduct.Restful (conduct : DrawingConduct W A) : Prop :=
  ∀ widget draw, conduct widget = some draw → ∀ v frame s answer t, draw v frame s = .ok answer t → answer.2 = false

/-- Receivers that do to the forest what a run may do to it, and schedule no callback. -/
def HandlingConduct.Unhurried (conduct : HandlingConduct W D A) : Prop :=
  ∀ widget handle, conduct widget = some handle → ∀ v e s,
    s.forest.Reaches (Pass.final (handle v e s)).forest ∧ (Pass.final (handle v e s)).deferred = s.deferred

/-- Widgets that make no work for a later tick. -/
structure Program.Quiet (program : Program W D A) : Prop where
  handling : program.handling.Unhurried
  layout : Forest.Arranging program.layout
  drawing : program.drawing.Restful

/-- A window that is to be painted, and of which nothing else is left to be done. -/
structure Window.Unpainted (w : Window W) : Prop where
  queue : w.queue = []
  needsRedraw : w.needsRedraw = .ok true
  needsLayout : w.needsLayout = .ok false

/-- How a window is left by its turn to be laid out and presented: idle, also if the turn ended at a fault, unless its
device could not be bound. -/
def Window.LeftBy (w : Window W) (outage : Outage) : Except Fault Unit → Prop
  | .ok _ => w.Idle
  | .error fault => match outage.bind with
    | some reason => fault = .gpu reason ∧ w.Unpainted
    | none => w.Idle

namespace Pane

/-! ## What a presentation leaves alone -/

/-- A change of the window relates every part of it as the change does. -/
theorem carries_changeWindow {β : Type} (part : Window W → β) {R : β → β → Prop} [IsPreorder β R]
    {step : Window W → Except Halt (Window W)} (hstep : ∀ w w', step w = .ok w' → R (part w) (part w')) :
    Pass.Carries (fun s : Pane W A ↦ part s.window) R (changeWindow step) := by
  intro s
  unfold changeWindow
  cases hrun : step s.window with
  | ok window => exact hstep s.window window hrun
  | error halt => exact refl_of R (part s.window)

theorem changeForest_eq_ok {step : Forest W → Except Halt (Forest W)} {w w' : Window W}
    (h : w.changeForest step = .ok w') : ∃ f, step w.forest = .ok f ∧ w' = { w with forest := f } := by
  obtain ⟨f, hstep, hw'⟩ := bind_eq_ok.mp h
  cases hw'
  exact ⟨f, hstep, rfl⟩

section

variable {R : Forest W → Forest W → Prop}

theorem carries_forest_onGrove {pass : Pass (Grove W A) α} (h : Pass.Carries Grove.forest R pass) :
    Pass.Carries (fun s : Pane W A ↦ s.window.forest) R (onGrove pass) := by
  intro s
  have hs := h ⟨s.window.forest, s.ambient⟩
  unfold onGrove
  cases hrun : pass ⟨s.window.forest, s.ambient⟩ <;> simpa [hrun] using hs

theorem carries_forest_onStudio {pass : Pass (Studio W A) α} (h : Pass.Carries Studio.forest R pass) :
    Pass.Carries (fun s : Pane W A ↦ s.window.forest) R (onStudio pass) := by
  intro s
  have hs := h ⟨s.window.forest, s.window.painter, s.ambient⟩
  unfold onStudio
  cases hrun : pass ⟨s.window.forest, s.window.painter, s.ambient⟩ <;> simpa [hrun] using hs

variable [IsPreorder (Forest W) R]

theorem carries_forest_changeForest {step : Window W → Forest W → Except Halt (Forest W)}
    (hstep : ∀ w f g, step w f = .ok g → R f g) :
    Pass.Carries (fun s : Pane W A ↦ s.window.forest) R (changeWindow fun w ↦ w.changeForest (step w)) :=
  carries_changeWindow Window.forest fun w w' h ↦ by
    obtain ⟨f, hf, rfl⟩ := changeForest_eq_ok h
    exact hstep w w.forest f hf

end

/-- Everything about a window that neither layout nor painting changes. -/
def standing (s : Pane W A) : View × WindowState × List Event := (s.window.root, s.window.state, s.window.queue)

theorem standing_onGrove (pass : Pass (Grove W A) α) :
    Pass.Carries standing (· = ·) (onGrove pass : Pass (Pane W A) α) := by
  intro s
  unfold onGrove
  cases pass ⟨s.window.forest, s.ambient⟩ <;> rfl

theorem standing_onStudio (pass : Pass (Studio W A) α) :
    Pass.Carries standing (· = ·) (onStudio pass : Pass (Pane W A) α) := by
  intro s
  unfold onStudio
  cases pass ⟨s.window.forest, s.window.painter, s.ambient⟩ <;> rfl

theorem standing_changeForest (step : Window W → Forest W → Except Halt (Forest W)) :
    Pass.Carries standing (· = ·) (changeWindow fun w ↦ w.changeForest (step w) : Pass (Pane W A) Unit) :=
  carries_changeWindow (fun w ↦ (w.root, w.state, w.queue)) fun w w' h ↦ by
    obtain ⟨f, -, rfl⟩ := changeForest_eq_ok h
    rfl

section

variable (conduct : DrawingConduct W A) (outage : Outage)

theorem presentable_standing : Presentable conduct outage standing (· = ·) where
  record _ _ := rfl
  takePending := Pass.carries_bind Pass.carries_get fun _ ↦ standing_onGrove _
  giveUp _ := Pass.carries_bind (fun _ ↦ rfl) fun _ ↦ standing_changeForest _
  drawRound _ _ := Pass.carries_bind (fun _ ↦ rfl) fun _ ↦ Pass.carries_bind Pass.carries_get fun _ ↦
    Pass.carries_bind (standing_onStudio _) fun _ ↦ fun _ ↦ rfl

/-- A round changes the forest by drawing only. -/
theorem carries_forest_drawRound {R : Forest W → Forest W → Prop} [IsPreorder (Forest W) R] {again : Prop}
    (hR : ∀ f g, Forest.Paints again f g → R f g) (hconduct : ∀ widget draw, conduct widget = some draw →
      ∀ v frame s answer t, draw v frame s = .ok answer t → answer.2 = true → again) (bounds region : Rect) :
    Pass.Carries (fun s : Pane W A ↦ s.window.forest) R (drawRound conduct outage bounds region) :=
  Pass.carries_bind (fun s ↦ refl_of R s.window.forest) fun _ ↦ Pass.carries_bind Pass.carries_get fun s ↦
    Pass.carries_bind (carries_forest_onStudio (Studio.carries_draw_of_paints hR hconduct s.window.root)) fun _ ↦
      fun s ↦ refl_of R s.window.forest

theorem presentable_upkeep :
    Presentable conduct outage (fun s : Pane W A ↦ s.window.forest) (Forest.Alike Forest.upkeep) where
  record s _ := refl_of _ s.window.forest
  takePending := Pass.carries_bind Pass.carries_get fun _ ↦ carries_forest_onGrove
    (Grove.carries_changeAsk fun _ _ _ h ↦ (Forest.alike_of_takeInvalidated h).map Forest.upkeep)
  giveUp _ := Pass.carries_bind (fun s ↦ refl_of _ s.window.forest) fun _ ↦
    carries_forest_changeForest fun _ _ _ h ↦ (Forest.alike_of_invalidate h).map Forest.upkeep
  drawRound bounds region := carries_forest_drawRound conduct outage
    (fun _ _ (h : Forest.Paints True _ _) ↦ h.alike_upkeep) (fun _ _ _ _ _ _ _ _ _ _ ↦ trivial) bounds region

/-! ## What a presentation finishes -/

theorem needsRedraw_of_clean {s : Pane W A} (hroot : s.window.forest.contains s.window.root = true)
    (hclean : s.pending? = none) : s.window.needsRedraw = .ok false := by
  obtain ⟨node, hnode⟩ := Forest.contains_iff.mp hroot
  have hnone : node.invalidated = none := by simpa [pending?, hnode] using hclean
  unfold Window.needsRedraw
  split
  · rw [Forest.read_eq_ok.mpr hnode]
    exact congrArg (fun region ↦ Except.ok (Option.isSome region)) hnone
  · rfl

/-- Rounds over a clean root end at once, however many are left. -/
theorem rounds_of_clean {s : Pane W A} (hroot : s.window.forest.contains s.window.root = true)
    (hclean : s.pending? = none) (bounds : Rect) (left : Nat) (drew : Bool) :
    rounds conduct outage bounds left drew s = .ok (.ok drew) s.taken := by
  cases left with
  | zero =>
    refine (Pass.bind_of_ok (takePending_eq hroot)).trans ?_
    rw [hclean]
    rfl
  | succ left => rw [rounds_eq conduct outage bounds left drew hroot, hclean]

variable {conduct} (hrestful : conduct.Restful)
include hrestful

/-- A round over a clean root leaves it clean. -/
theorem clean_of_drawRound {bounds region : Rect} {s t : Pane W A} {answer : Except Fault Unit}
    (hroot : s.window.forest.contains s.window.root = true) (hclean : s.pending? = none)
    (h : drawRound conduct outage bounds region s = .ok answer t) :
    t.window.forest.contains t.window.root = true ∧ t.pending? = none := by
  have hstanding := (presentable_standing conduct outage).drawRound bounds region s
  have hlinks := (presentable_upkeep conduct outage).drawRound bounds region s
  have hstays := carries_forest_drawRound conduct outage
    (fun _ _ (h : Forest.Paints False _ _) ↦ h.staysClean) (fun widget draw hdraw v frame s answer t hrun hagain ↦ by
      rw [hrestful widget draw hdraw v frame s answer t hrun] at hagain
      cases hagain) bounds region s
  rw [h] at hstanding hlinks hstays
  have hsame : t.window.root = s.window.root := (congrArg Prod.fst hstanding).symm
  refine ⟨?_, ?_⟩
  · rw [hsame]
    exact (hlinks.contains s.window.root).symm.trans hroot
  · change t.window.forest.pending? t.window.root = none
    rw [hsame]
    exact hstays s.window.root hclean

/-- Rounds leave the root clean, also if a fault ends them. One of them is enough. -/
theorem clean_of_rounds {bounds : Rect} {left : Nat} {drew : Bool} {answer : Except Fault Bool} {s t : Pane W A}
    (hroot : s.window.forest.contains s.window.root = true)
    (h : rounds conduct outage bounds (left + 1) drew s = .ok answer t) :
    t.window.forest.contains t.window.root = true ∧ t.pending? = none := by
  have htaken : s.taken.window.forest.contains s.taken.window.root = true := contains_taken.trans hroot
  have hend {u : Pane W A} {left : Nat} {drew : Bool} (hroot : u.window.forest.contains u.window.root = true)
      (hclean : u.pending? = none) (h : rounds conduct outage bounds left drew u = .ok answer t) :
      t.window.forest.contains t.window.root = true ∧ t.pending? = none := by
    rw [rounds_of_clean conduct outage hroot hclean] at h
    cases h
    exact ⟨contains_taken.trans hroot, pending?_taken⟩
  rw [rounds_eq conduct outage bounds left drew hroot] at h
  cases hpending : s.pending? with
  | none =>
    rw [hpending] at h
    cases h
    exact ⟨htaken, pending?_taken⟩
  | some region =>
    rw [hpending] at h
    dsimp only at h
    split at h
    · exact hend htaken pending?_taken h
    · obtain ⟨flushed, u, hround, h⟩ := Pass.bind_eq_ok.mp h
      obtain ⟨hroot, hclean⟩ := clean_of_drawRound outage hrestful htaken pending?_taken hround
      cases flushed with
      | error fault =>
        cases h
        exact ⟨hroot, hclean⟩
      | ok _ => exact hend hroot hclean h

omit hrestful in
theorem window_finish (answer : Except Fault Bool) :
    Pass.Carries (fun s : Pane W A ↦ s.window) (· = ·) (finish outage answer : Pass (Pane W A) _) := by
  cases answer with
  | error fault => exact Pass.carries_pure _
  | ok drew =>
    cases drew with
    | false => exact Pass.carries_pure _
    | true =>
      refine Pass.carries_bind Pass.carries_get fun s ↦ ?_
      cases s.screen.swap outage with
      | error fault => exact Pass.carries_pure _
      | ok screen => exact Pass.carries_bind (fun _ ↦ rfl) fun _ ↦ Pass.carries_pure _

/-- After a presentation a window needs no redraw, unless its device could not be bound. Whatever is refused behind
that, what was pending in the root is taken by then. -/
theorem present_leaves {s t : Pane W A} {answer : Except Fault Unit} (h : present conduct outage s = .ok answer t) :
    match answer with
    | .ok _ => t.window.needsRedraw = .ok false
    | .error fault => s.window.needsRedraw = .ok true ∧ match outage.bind with
      | some reason => fault = .gpu reason ∧ t = s
      | none => t.window.needsRedraw = .ok false := by
  by_cases hredraw : s.window.needsRedraw = .ok true
  · cases hbind : outage.bind with
    | some reason =>
      rw [present_of_refused conduct outage hredraw hbind] at h
      cases h
      exact ⟨hredraw, rfl, rfl⟩
    | none =>
      obtain ⟨-, region, hpending⟩ := needsRedraw_eq_true_iff.mp hredraw
      obtain ⟨bounds, hpresent⟩ := present_of_bound conduct outage hredraw hbind
      rw [hpresent] at h
      obtain ⟨drawn, u, hrounds, hfinish⟩ := Pass.bind_eq_ok.mp h
      have hroot : s.bound.window.forest.contains s.bound.window.root = true := contains_of_pending? hpending
      obtain ⟨hroot, hclean⟩ := clean_of_rounds outage hrestful hroot hrounds
      have hsame : u.window = t.window := by simpa [hfinish] using window_finish outage drawn u
      have hdone : t.window.needsRedraw = .ok false := hsame ▸ needsRedraw_of_clean hroot hclean
      cases answer with
      | ok _ => exact hdone
      | error fault => exact ⟨hredraw, hdone⟩
  · rw [present_of_not_needsRedraw conduct outage hredraw] at h
    cases hanswer : s.window.needsRedraw with
    | error halt =>
      rw [hanswer] at h
      cases h
    | ok redraw =>
      rw [hanswer] at h hredraw
      cases h
      cases redraw with
      | true => exact absurd rfl hredraw
      | false => exact hanswer

end

/-! ## One window in a tick -/

/-- Input does to the views of a window what a run may do to them. -/
theorem carries_forest_receive (event : ScreenEvent) :
    Pass.Carries (fun s : Pane W A ↦ s.window.forest) Forest.Steps (receive event) := by
  have hmodify {change : Pane W A → Pane W A} (h : ∀ s, (change s).window.forest = s.window.forest) :
      Pass.Carries (fun s : Pane W A ↦ s.window.forest) Forest.Steps (modify change : Pass (Pane W A) Unit) := by
    intro s
    change Forest.Steps s.window.forest (change s).window.forest
    rw [h s]
  have henqueue (e : View → Event) :
      Pass.Carries (fun s : Pane W A ↦ s.window.forest) Forest.Steps (enqueue e) := hmodify fun _ ↦ rfl
  have hrepaint : Pass.Carries (fun s : Pane W A ↦ s.window.forest) Forest.Steps repaint :=
    carries_forest_changeForest fun _ _ _ h ↦ .single (.invalidate h)
  have hclose : Pass.Carries (fun s : Pane W A ↦ s.window.forest) Forest.Steps close := by
    intro s
    change Forest.Steps s.window.forest s.window.close.1.forest
    unfold Window.close
    split <;> exact .refl
  have hadopt (change : Rect → Rect) :
      Pass.Carries (fun s : Pane W A ↦ s.window.forest) Forest.Steps (adoptFrame change) := by
    refine carries_changeWindow Window.forest fun w w' h ↦ ?_
    obtain ⟨frame, -, h⟩ := bind_eq_ok.mp h
    obtain ⟨f, hf, rfl⟩ := changeForest_eq_ok h
    exact .single (.setFrame hf)
  cases event with
  | resized size => exact Pass.carries_bind (hadopt _) fun _ ↦ henqueue _
  | moved position => exact Pass.carries_bind (hadopt _) fun _ ↦ henqueue _
  | closeRequested =>
    refine Pass.carries_bind (henqueue _) fun _ ↦ Pass.carries_bind Pass.carries_get fun s ↦ ?_
    split
    · exact hclose
    · exact Pass.carries_pure ()
  | cursorMoved position => exact Pass.carries_bind (hmodify fun _ ↦ rfl) fun _ ↦ henqueue _
  | mouseButton button state => exact Pass.carries_bind Pass.carries_get fun _ ↦ henqueue _
  | modifiersChanged modifiers => exact hmodify fun _ ↦ rfl
  | scaleFactorChanged factor =>
    refine Pass.carries_bind (carries_forest_changeForest fun _ f _ h ↦ ?_) fun _ ↦ hrepaint
    cases h
    exact .single (.setScaleFactor f factor)
  | redrawRequested => exact hrepaint

section

variable {s t : Pane W A} (hwell : s.window.forest.WellFormed)
include hwell

/-- A window whose events were dispatched has no event left, and nothing was scheduled. -/
theorem dispatched {conduct : HandlingConduct W D A} (hunhurried : conduct.Unhurried) {steps : Nat}
    {callbacks : List D} (h : dispatch conduct steps s = .ok callbacks t) :
    t.window.forest.WellFormed ∧ t.window.queue = [] ∧ callbacks = [] := by
  let desk : Desk W D A := ⟨s.window.forest, s.window.queue, s.window.redirects, [], s.ambient⟩
  change (onDesk (Routing.dispatch conduct steps s.window.root) >>= fun found ↦ pure found.2) s = _ at h
  obtain ⟨answer, mid, hrun, hanswer⟩ := Pass.bind_eq_ok.mp h
  cases hanswer
  have hforest : Pass.Carries Desk.forest Forest.Steps (Routing.dispatch conduct steps s.window.root) :=
    Routing.carries_dispatch
      (fun s t h ↦ by cases h with
        | forest h => exact .single h
        | take | note | prune | forgo => exact .refl)
      (fun widget handle hhandle v e s ↦ Forest.reaches_iff.mp (hunhurried widget handle hhandle v e s).1) _ _
  have hdeferred : Pass.Carries Desk.deferred (· = ·) (Routing.dispatch conduct steps s.window.root) :=
    Routing.carries_dispatch (fun s t h ↦ by cases h <;> rfl)
      (fun widget handle hhandle v e s ↦ (hunhurried widget handle hhandle v e s).2.symm) _ _
  replace hforest := hforest desk
  replace hdeferred := hdeferred desk
  unfold onDesk at hrun
  cases hdispatch : Routing.dispatch conduct steps s.window.root desk with
  | error halt after =>
    rw [show Routing.dispatch conduct steps s.window.root _ = _ from hdispatch] at hrun
    cases hrun
  | ok done after =>
    rw [show Routing.dispatch conduct steps s.window.root _ = _ from hdispatch] at hrun
    rw [hdispatch] at hforest hdeferred
    cases hrun
    refine ⟨(Forest.reaches_iff.mpr hforest).wellFormed hwell, ?_, hdeferred.symm⟩
    exact Routing.queue_of_drain_eq_ok conduct steps s.window.root hdispatch

/-- How a window without events is left by its turn to be laid out and presented. -/
theorem leftBy_of_turn {program : Program W D A} (hquiet : program.Quiet) {steps : Nat} {outage : Outage}
    (hqueue : s.window.queue = []) {answer : Except Fault Unit} (h : (do
      layoutIfNeeded program.layout steps
      present program.drawing outage : Pass (Pane W A) (Except Fault Unit)) s = .ok answer t) :
    t.window.forest.WellFormed ∧ t.window.queue = [] ∧ t.window.LeftBy outage answer := by
  obtain ⟨_, mid, hlayout, hpresent⟩ := Pass.bind_eq_ok.mp h
  have hstanding : s.standing = t.standing := by
    have hfirst := standing_onGrove (Forest.layoutIfNeeded program.layout steps s.window.root) s
    have hlater := (presentable_standing program.drawing outage).present mid
    rw [show onGrove _ s = _ from hlayout] at hfirst
    rw [hpresent] at hlater
    exact hfirst.trans hlater
  -- The layout leaves no mark below the root, and the presentation sets none.
  have hlaid : mid.window.forest.WellFormed ∧ mid.window.forest.needsLayoutBelow s.window.root = .ok false := by
    change onGrove (Forest.layoutIfNeeded program.layout steps s.window.root) s = _ at hlayout
    unfold onGrove at hlayout
    cases hsettle : Forest.layoutIfNeeded program.layout steps s.window.root ⟨s.window.forest, s.ambient⟩ with
    | error halt grove =>
      rw [hsettle] at hlayout
      cases hlayout
    | ok _ grove =>
      rw [hsettle] at hlayout
      cases hlayout
      obtain ⟨hsettled, hclean⟩ := Forest.settled_layoutIfNeeded hquiet.layout hwell hsettle
      exact ⟨hsettled.links.wellFormed hwell, hclean⟩
  have hupkeep := (presentable_upkeep program.drawing outage).present mid
  rw [hpresent] at hupkeep
  have hlinks : Forest.Alike Node.links mid.window.forest t.window.forest := hupkeep.map Prod.fst
  obtain ⟨hroot, hrest⟩ := Prod.mk.inj hstanding
  have hempty : t.window.queue = [] := (Prod.mk.inj hrest).2.symm.trans hqueue
  have hsettled : t.window.needsLayout = .ok false := by
    have hclean := Forest.needsLayoutBelow_of_alike hupkeep hlaid.1 hlaid.2
    rwa [hroot] at hclean
  have hidle (hclean : t.window.needsRedraw = .ok false) : t.window.Idle := ⟨hempty, hclean, hsettled⟩
  refine ⟨hlinks.wellFormed hlaid.1, hempty, ?_⟩
  have hleaves := present_leaves outage hquiet.drawing hpresent
  unfold Window.LeftBy
  cases answer with
  | ok _ => exact hidle hleaves
  | error fault =>
    obtain ⟨hredraw, hrefused⟩ := hleaves
    cases hbind : outage.bind with
    | none =>
      rw [hbind] at hrefused
      exact hidle hrefused
    | some reason =>
      rw [hbind] at hrefused
      obtain ⟨hfault, rfl⟩ := hrefused
      exact ⟨hfault, hempty, hredraw, hsettled⟩

end

end Pane

end RetainedUi
