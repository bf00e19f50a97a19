import Mathlib.Data.List.Infix
import RetainedUi.Desktop.Tick
import RetainedUi.Proofs.Desktop.Presentation
import RetainedUi.Proofs.Forest.Fields
import RetainedUi.Proofs.Paint.Flushing

/-!
# When a presentation draws

To draw is to clear a region and then to walk the tree from the root. A window needs a redraw if it is shown and
its root has a pending region. A presentation then binds the device, but it draws only what is not empty, and an
empty region may well be pending: a region that lies outside of a view is clipped to nothing and kept. So a window
that needs a redraw is drawn just if its device can be bound and the pending region of its root is not empty.

Calls are never taken back from the record of a device, so it is enough to look at the first round.
-/

namespace RetainedUi

variable {W A α : Type}

theorem Painter.log_prefix_flush (p : Painter) (refusal : Refusal) (r : Recorder) :
    r.log.toList <+: (p.flush refusal r).2.recorder.log.toList := by
  obtain ⟨transfers, -, ⟨-, hlog⟩ | ⟨_, -, -, hlog⟩⟩ := p.flush_cases refusal r
  · exact ⟨_, hlog.symm⟩
  · exact ⟨_, hlog.symm⟩

namespace Pane

/-- The calls that the device of a window has received. -/
def calls (s : Pane W A) : List DeviceCall := s.screen.recorder.log.toList

section

variable (conduct : DrawingConduct W A) (outage : Outage)

/-- A presentation clears a region. -/
def Clears (s : Pane W A) : Prop :=
  ∃ sent region, (Pass.final (present conduct outage s)).calls = s.calls ++ sent ∧ .clear region ∈ sent

/-- What is left of a presentation once a region is cleared: all views are drawn from the root down, what was drawn
is flushed, and then come the rounds that are left and the swap. -/
def drawAll (bounds : Rect) (left : Nat) : Pass (Pane W A) (Except Fault Unit) := do
  let root := (← get).window.root
  onStudio (Studio.draw conduct root)
  let answer ← flush outage
  let answer ← goOn conduct outage bounds left answer
  finish outage answer

/-- A presentation comes from the first state to the second one, in which it has just cleared a region, and goes on
with a walk over the same tree from the same root. -/
structure DrawsFrom (s t : Pane W A) : Prop where
  cleared : ∃ sent region, t.calls = s.calls ++ sent ++ [.clear region]
  root : t.window.root = s.window.root
  tree : Forest.Alike Node.withoutRegion s.window.forest t.window.forest
  goesOn : ∃ bounds left, present conduct outage s = drawAll conduct outage bounds left t

/-- A presentation clears a region and walks the tree. -/
def Draws (s : Pane W A) : Prop := ∃ t, DrawsFrom conduct outage s t

end

/-- What adds no call that clears does not clear. -/
theorem not_clears_of_calls {conduct : DrawingConduct W A} {outage : Outage} {s : Pane W A}
    {sent : List DeviceCall} (hcalls : (Pass.final (present conduct outage s)).calls = s.calls ++ sent)
    (hsent : ∀ region, .clear region ∉ sent) : ¬ Clears conduct outage s := by
  rintro ⟨others, region, hothers, hclear⟩
  have hsame : others = sent := List.append_cancel_left (hothers.symm.trans hcalls)
  exact hsent region (hsame ▸ hclear)

theorem not_clears_of_final_eq {conduct : DrawingConduct W A} {outage : Outage} {s : Pane W A}
    (h : Pass.final (present conduct outage s) = s) : ¬ Clears conduct outage s := by
  have hcalls : (Pass.final (present conduct outage s)).calls = s.calls ++ [] := by rw [h, List.append_nil]
  exact not_clears_of_calls hcalls fun _ ↦ List.not_mem_nil

/-! ## The record of the device grows -/

theorem screen_onGrove (pass : Pass (Grove W A) α) (s : Pane W A) :
    (Pass.final (onGrove pass s)).screen = s.screen := by
  unfold onGrove
  cases pass ⟨s.window.forest, s.ambient⟩ <;> rfl

theorem screen_onStudio (pass : Pass (Studio W A) α) (s : Pane W A) :
    (Pass.final (onStudio pass s)).screen = s.screen := by
  unfold onStudio
  cases pass ⟨s.window.forest, s.window.painter, s.ambient⟩ <;> rfl

theorem screen_changeWindow (step : Window W → Except Halt (Window W)) (s : Pane W A) :
    (Pass.final (changeWindow step s)).screen = s.screen := by
  unfold changeWindow
  cases step s.window <;> rfl

/-- What leaves the screen alone adds no call. -/
theorem carries_calls_of_screen {pass : Pass (Pane W A) α}
    (h : ∀ s, (Pass.final (pass s)).screen = s.screen) : Pass.Carries calls (· <+: ·) pass := by
  intro s
  rw [calls, calls, h s]

theorem prefix_calls_record (s : Pane W A) (call : DeviceCall) :
    s.calls <+: ({ s with screen := s.screen.record call } : Pane W A).calls := by
  change s.calls <+: (s.screen.recorder.log.push call).toList
  rw [Array.toList_push]
  exact List.prefix_append _ _

theorem carries_calls_flush (outage : Outage) :
    Pass.Carries calls (· <+: ·) (flush outage : Pass (Pane W A) _) :=
  fun s ↦ s.window.painter.log_prefix_flush outage.refusal s.screen.recorder

section

variable (conduct : DrawingConduct W A) (outage : Outage)

/-- The views are drawn and the painter is flushed, once a region is cleared. -/
theorem carries_calls_drawRound (bounds region : Rect) :
    Pass.Carries calls (· <+: ·) (drawRound conduct outage bounds region) := by
  refine Pass.carries_bind (fun s ↦ ?_) fun _ ↦ Pass.carries_bind Pass.carries_get fun t ↦
    Pass.carries_bind (carries_calls_of_screen (screen_onStudio _)) fun _ ↦ carries_calls_flush outage
  exact prefix_calls_record s _

theorem presentable_calls : Presentable conduct outage calls (· <+: ·) where
  record := prefix_calls_record
  takePending := carries_calls_of_screen fun s ↦ screen_onGrove _ s
  giveUp _ := Pass.carries_bind (carries_calls_of_screen fun _ ↦ rfl) fun _ ↦
    carries_calls_of_screen (screen_changeWindow _)
  drawRound := carries_calls_drawRound conduct outage

theorem carries_calls_drawAll (bounds : Rect) (left : Nat) :
    Pass.Carries calls (· <+: ·) (drawAll conduct outage bounds left) := by
  have hparts := presentable_calls conduct outage
  exact Pass.carries_bind Pass.carries_get fun _ ↦
    Pass.carries_bind (carries_calls_of_screen (screen_onStudio _)) fun _ ↦
      Pass.carries_bind (carries_calls_flush outage) fun _ ↦ Pass.carries_bind (hparts.goOn bounds left _) hparts.finish

/-! ## The first round -/

variable {s : Pane W A} {region : Rect}

theorem calls_bound (s : Pane W A) : s.bound.calls = s.calls ++ [.bind] := Array.toList_push

/-- An empty region is taken without being drawn. -/
theorem calls_present_of_empty (h : s.window.needsRedraw = .ok true) (hbind : outage.bind = none)
    (hpending : s.pending? = some region) (hempty : region.isEmpty = true) :
    (Pass.final (present conduct outage s)).calls = s.calls ++ [.bind] := by
  obtain ⟨bounds, hpresent⟩ := present_of_bound conduct outage h hbind
  have hroot : s.bound.window.forest.contains s.bound.window.root = true := contains_of_pending? hpending
  have hregion : s.bound.pending? = some region := hpending
  have hrounds : rounds conduct outage bounds roundLimit false s.bound =
      .ok (.ok false) s.bound.taken.taken := by
    rw [roundLimit, rounds_eq conduct outage bounds 4 false hroot, hregion]
    dsimp only
    rw [if_pos hempty, rounds_eq conduct outage bounds 3 false (contains_taken.trans hroot), pending?_taken]
  rw [hpresent, Pass.bind_of_ok hrounds]
  exact calls_bound s

/-- A region that is not empty is cleared in the first round, and then the tree is walked. -/
theorem draws_of_nonempty (h : s.window.needsRedraw = .ok true) (hbind : outage.bind = none)
    (hpending : s.pending? = some region) (hregion : region.isEmpty = false) : Draws conduct outage s := by
  obtain ⟨bounds, hpresent⟩ := present_of_bound conduct outage h hbind
  have hroot : s.bound.window.forest.contains s.bound.window.root = true := contains_of_pending? hpending
  let cleared := if s.bound.taken.screen.preservesContents then region else bounds
  let t : Pane W A := { s.bound.taken with screen := s.bound.taken.screen.record (.clear cleared) }
  have hfirst : rounds conduct outage bounds roundLimit false s.bound =
      (drawRound conduct outage bounds region >>= goOn conduct outage bounds 4) s.bound.taken := by
    rw [roundLimit, rounds_eq conduct outage bounds 4 false hroot, show s.bound.pending? = _ from hpending]
    dsimp only
    rw [if_neg (by simp [hregion])]
  have hcalls : t.calls = s.calls ++ [.bind] ++ [.clear cleared] := calc
    t.calls = (s.bound.screen.recorder.log.push (.clear cleared)).toList := rfl
    _ = s.bound.calls ++ [.clear cleared] := Array.toList_push
    _ = s.calls ++ [.bind] ++ [.clear cleared] := by rw [calls_bound]
  refine ⟨t, ⟨_, cleared, hcalls⟩, rfl, .modify (fun _ ↦ by rfl) s.window.forest s.window.root, bounds, 4, ?_⟩
  calc
    present conduct outage s = (rounds conduct outage bounds roundLimit false >>= finish outage) s.bound := hpresent
    _ = ((drawRound conduct outage bounds region >>= goOn conduct outage bounds 4) >>= finish outage)
        s.bound.taken := Pass.bind_congr hfirst _
    _ = drawAll conduct outage bounds 4 t := by
      rw [bind_assoc]
      unfold drawRound drawAll
      simp only [bind_assoc]
      rfl

variable {conduct outage}

/-- What is cleared before a walk stays in the record of the device. -/
theorem Draws.clears (h : Draws conduct outage s) : Clears conduct outage s := by
  obtain ⟨t, ⟨sent, region, hcleared⟩, -, -, bounds, left, hpresent⟩ := h
  obtain ⟨rest, hrest⟩ := carries_calls_drawAll conduct outage bounds left t
  refine ⟨sent ++ [.clear region] ++ rest, region, ?_, by simp⟩
  calc
    (Pass.final (present conduct outage s)).calls = t.calls ++ rest := by rw [hpresent, hrest]
    _ = s.calls ++ (sent ++ [.clear region] ++ rest) := by simp [hcleared]

/-- Nothing is cleared unless the window needs a redraw, its device can be bound, and what is pending in its root is
not empty. -/
theorem pending_of_clears (h : Clears conduct outage s) : s.window.needsRedraw = .ok true ∧ outage.bind = none ∧
    ∃ region, s.pending? = some region ∧ region.isEmpty = false := by
  by_contra hnot
  revert h
  by_cases hredraw : s.window.needsRedraw = .ok true
  · cases hbind : outage.bind with
    | some reason =>
      exact not_clears_of_final_eq (congrArg Pass.final (present_of_refused conduct outage hredraw hbind))
    | none =>
      obtain ⟨-, region, hpending⟩ := needsRedraw_eq_true_iff.mp hredraw
      have hempty : region.isEmpty = true := by
        by_contra hregion
        exact hnot ⟨hredraw, hbind, region, hpending, by simpa using hregion⟩
      exact not_clears_of_calls (calls_present_of_empty conduct outage hredraw hbind hpending hempty) (by simp)
  · apply not_clears_of_final_eq
    rw [present_of_not_needsRedraw conduct outage hredraw]
    cases s.window.needsRedraw <;> rfl

end

/-- A presentation draws just if the window needs a redraw, its device can be bound, and what is pending in its
root is not empty. Otherwise it does not even clear. -/
theorem present_draws_iff (conduct : DrawingConduct W A) (outage : Outage) (s : Pane W A) :
    (Draws conduct outage s ↔ s.window.needsRedraw = .ok true ∧ outage.bind = none ∧
      ∃ region, s.pending? = some region ∧ region.isEmpty = false) ∧
    (Draws conduct outage s ↔ Clears conduct outage s) := by
  have hdraws (h : s.window.needsRedraw = .ok true ∧ outage.bind = none ∧
      ∃ region, s.pending? = some region ∧ region.isEmpty = false) : Draws conduct outage s := by
    obtain ⟨hredraw, hbind, region, hpending, hregion⟩ := h
    exact draws_of_nonempty conduct outage hredraw hbind hpending hregion
  exact ⟨⟨fun h ↦ pending_of_clears h.clears, hdraws⟩, Draws.clears, fun h ↦ hdraws (pending_of_clears h)⟩

/-- Nothing of a shown window is left to be painted, and then a region outside of it is invalidated. -/
def strayed : Desktop Unit Unit Unit :=
  let steps : Pass (Desktop Unit Unit Unit) Unit := do
    let _ ← Desktop.openWindow ⟨"", .ofSides 0 0 100 100, true⟩
    let _ ← Desktop.tick ⟨fun _ ↦ none, fun _ ↦ none, fun _ ↦ none, fun _ ↦ pure ()⟩ 8
    let _ ← Desktop.onWindow ⟨1⟩ (changeWindow fun w ↦ w.changeForest fun f ↦
      f.invalidate w.root (some (.ofSides 200 200 10 10)))
  Pass.final (steps (.fresh ⟨4, 4⟩ ()))

/-- A window needs a redraw that neither clears nor draws anything. -/
theorem present_idle_outside : ∃ s : Pane Unit Unit, strayed.window? ⟨1⟩ = some s.window ∧
    strayed.platform.screen? ⟨1⟩ = some s.screen ∧ s.window.needsRedraw = .ok true ∧
      ∀ conduct, ¬ Draws conduct .none s ∧ ¬ Clears conduct .none s := by
  have hwindow : (strayed.window? ⟨1⟩).map (fun w ↦
      (w.needsRedraw, do (← w.forest.node? w.root).invalidated)) =
        some (.ok true, some (.ofSides 200 200 0 0)) := by decide +kernel
  have hscreen : (strayed.platform.screen? ⟨1⟩).isSome = true := by decide +kernel
  have hempty : (Rect.ofSides 200 200 0 0).isEmpty = true := by decide +kernel
  obtain ⟨w, hw, hstate⟩ := Option.map_eq_some_iff.mp hwindow
  obtain ⟨screen, hscreen⟩ := Option.isSome_iff_exists.mp hscreen
  obtain ⟨hredraw, hpending⟩ := Prod.mk.inj hstate
  let s : Pane Unit Unit := ⟨w, screen, strayed.ambient⟩
  refine ⟨s, hw, hscreen, hredraw, fun conduct ↦ ?_⟩
  have hcalls := calls_present_of_empty conduct .none (show s.window.needsRedraw = .ok true from hredraw) rfl
    hpending hempty
  have hkept := not_clears_of_calls hcalls (by simp)
  exact ⟨fun hdraws ↦ hkept hdraws.clears, hkept⟩

end Pane

end RetainedUi
