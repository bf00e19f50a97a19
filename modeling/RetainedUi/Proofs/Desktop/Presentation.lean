import RetainedUi.Desktop.Present
import RetainedUi.Proofs.Forest.Lookup
import RetainedUi.Proofs.Pass

/-!
# The course of a presentation

A presentation looks at the window and leaves it alone if it needs no redraw or its device cannot be bound. Else
it goes through its rounds, each of which takes what the root has pending, and shows the result at the end. What
the parts of a presentation carry is carried by the whole.
-/

namespace RetainedUi.Pane

variable {W A τ : Type} {s : Pane W A} {region : Rect}

/-- The pending region of the root. -/
def pending? (s : Pane W A) : Option Rect := do (← s.window.forest.node? s.window.root).invalidated

theorem needsRedraw_eq_true_iff :
    s.window.needsRedraw = .ok true ↔ s.window.state = .shown ∧ ∃ region, s.pending? = some region := by
  unfold Window.needsRedraw pending? Forest.read
  by_cases hshown : s.window.state = .shown
  · cases hroot : s.window.forest.node? s.window.root with
    | none => simp [hshown, bind, Except.bind]
    | some node => simp [hshown, bind, Except.bind, pure, Except.pure, Option.isSome_iff_exists]
  · simp [hshown, pure, Except.pure]

theorem contains_of_pending? (hpending : s.pending? = some region) :
    s.window.forest.contains s.window.root = true := by
  obtain ⟨node, hnode, -⟩ := Option.bind_eq_some_iff.mp hpending
  exact Forest.contains_iff.mpr ⟨node, hnode⟩

/-! ## Rounds -/

/-- A window whose pending region was taken. -/
def taken (s : Pane W A) : Pane W A :=
  { s with window.forest := s.window.forest.modify s.window.root fun node ↦ { node with invalidated := none } }

theorem takePending_eq (hroot : s.window.forest.contains s.window.root = true) :
    takePending s = .ok s.pending? s.taken := by
  obtain ⟨node, hnode⟩ := Forest.contains_iff.mp hroot
  have htaken : s.window.forest.takeInvalidated s.window.root = .ok (node.invalidated,
      s.window.forest.modify s.window.root fun node ↦ { node with invalidated := none }) := by
    rw [Forest.takeInvalidated, Forest.read_eq_ok.mpr hnode]
    rfl
  change onGrove (Grove.changeAsk fun f ↦ f.takeInvalidated s.window.root) s = _
  simp only [onGrove, Grove.changeAsk, htaken, pending?, hnode]
  rfl

theorem contains_taken : s.taken.window.forest.contains s.taken.window.root =
    s.window.forest.contains s.window.root :=
  Forest.contains_modify _ _ _ _

theorem pending?_taken : s.taken.pending? = none := by
  unfold pending? taken
  rw [Forest.node?_modify]
  cases s.window.forest.node? s.window.root <;> simp

section

variable (conduct : DrawingConduct W A) (outage : Outage)

/-- What follows a round in which a region was cleared. -/
def goOn (bounds : Rect) (left : Nat) : Except Fault Unit → Pass (Pane W A) (Except Fault Bool)
  | .error fault => return .error fault
  | .ok () => rounds conduct outage bounds left true

/-- A round on a live root: nothing is pending, or an empty region is passed over, or a region is drawn. -/
theorem rounds_eq (bounds : Rect) (left : Nat) (drew : Bool)
    (hroot : s.window.forest.contains s.window.root = true) :
    rounds conduct outage bounds (left + 1) drew s = match s.pending? with
      | none => .ok (.ok drew) s.taken
      | some region =>
        if region.isEmpty then rounds conduct outage bounds left drew s.taken
        else (drawRound conduct outage bounds region >>= goOn conduct outage bounds left) s.taken := by
  refine (Pass.bind_of_ok (takePending_eq hroot)).trans ?_
  cases hpending : s.pending? with
  | none => rfl
  | some region =>
    dsimp only
    split <;> rfl

/-! ## The whole -/

/-- A window that needs no redraw is left alone. So is one without a root, but then the run ends. -/
theorem present_of_not_needsRedraw (h : s.window.needsRedraw ≠ .ok true) :
    present conduct outage s = match s.window.needsRedraw with
      | .ok _ => .ok (.ok ()) s
      | .error halt => .error halt s := by
  change (ite (s.window.state ≠ .shown) _ _ : Pass (Pane W A) _) s = _
  by_cases hshown : s.window.state = .shown
  · rw [if_neg (not_not_intro hshown)]
    unfold Window.needsRedraw at h ⊢
    rw [if_pos hshown] at h ⊢
    cases hroot : s.window.forest.read s.window.root with
    | error halt => rfl
    | ok node =>
      rw [hroot] at h
      have hclean : node.invalidated.isSome = false := by
        rw [← Bool.not_eq_true]
        exact fun hpending ↦ h (congrArg Except.ok hpending)
      change (ite (node.invalidated.isNone = true) _ _ : Pass (Pane W A) _) s =
        EStateM.Result.ok (Except.ok ()) s
      rw [if_pos (by simpa using hclean)]
      rfl
  · rw [if_pos hshown]
    simp only [Window.needsRedraw, if_neg hshown]
    rfl

/-- A device that cannot be bound receives nothing. -/
theorem present_of_refused (h : s.window.needsRedraw = .ok true) {reason : String}
    (hrefused : outage.bind = some reason) : present conduct outage s = .ok (.error (.gpu reason)) s := by
  obtain ⟨hshown, region, hpending⟩ := needsRedraw_eq_true_iff.mp h
  obtain ⟨node, hroot, hregion⟩ := Option.bind_eq_some_iff.mp hpending
  change (ite (s.window.state ≠ .shown) _ _ : Pass (Pane W A) _) s = _
  rw [if_neg (not_not_intro hshown), Forest.read_eq_ok.mpr hroot]
  change (ite (node.invalidated.isNone = true) _ _ : Pass (Pane W A) _) s = _
  rw [if_neg (by simp [hregion]), Screen.bind, hrefused]
  rfl

/-- What comes behind the rounds. -/
def finish (outage : Outage) : Except Fault Bool → Pass (Pane W A) (Except Fault Unit)
  | .error fault => return .error fault
  | .ok false => return .ok ()
  | .ok true => do
    match (← get).screen.swap outage with
    | .error fault => return .error fault
    | .ok screen =>
      modify fun s ↦ { s with screen }
      return .ok ()

/-- The state before the first round. -/
def bound (s : Pane W A) : Pane W A := { s with screen := s.screen.record .bind }

theorem present_of_node {node : Node W} (hshown : s.window.state = .shown)
    (hroot : s.window.forest.node? s.window.root = some node) (hregion : node.invalidated = some region)
    (hbind : outage.bind = none) : present conduct outage s =
      (rounds conduct outage node.bounds roundLimit false >>= finish outage) s.bound := by
  change (ite (s.window.state ≠ .shown) _ _ : Pass (Pane W A) _) s = _
  rw [if_neg (not_not_intro hshown), Forest.read_eq_ok.mpr hroot]
  change (ite (node.invalidated.isNone = true) _ _ : Pass (Pane W A) _) s = _
  rw [if_neg (by simp [hregion]), Screen.bind, hbind]
  rfl

theorem present_of_bound (h : s.window.needsRedraw = .ok true) (hbind : outage.bind = none) :
    ∃ bounds, present conduct outage s =
      (rounds conduct outage bounds roundLimit false >>= finish outage) s.bound := by
  obtain ⟨hshown, region, hpending⟩ := needsRedraw_eq_true_iff.mp h
  obtain ⟨node, hroot, hregion⟩ := Option.bind_eq_some_iff.mp hpending
  exact ⟨node.bounds, present_of_node conduct outage hshown hroot hregion hbind⟩

/-! ## What is carried -/

variable (part : Pane W A → τ) (R : τ → τ → Prop) [IsPreorder τ R]

/-- A relation that is carried by everything a presentation consists of. -/
structure Presentable : Prop where
  record : ∀ s call, R (part s) (part { s with screen := s.screen.record call })
  takePending : Pass.Carries part R (takePending : Pass (Pane W A) _)
  giveUp : ∀ region, Pass.Carries part R (giveUp region : Pass (Pane W A) Unit)
  drawRound : ∀ bounds region, Pass.Carries part R (drawRound conduct outage bounds region)

namespace Presentable

variable {conduct outage part R} (h : Presentable conduct outage part R)
include h

theorem rounds (bounds : Rect) (left : Nat) (drew : Bool) :
    Pass.Carries part R (Pane.rounds conduct outage bounds left drew) := by
  induction left generalizing drew with
  | zero =>
    unfold Pane.rounds
    refine Pass.carries_bind h.takePending fun region ↦ ?_
    cases region with
    | none => exact Pass.carries_pure _
    | some region => exact Pass.carries_bind (h.giveUp region) fun _ ↦ Pass.carries_pure _
  | succ left ih =>
    unfold Pane.rounds
    refine Pass.carries_bind h.takePending fun region ↦ ?_
    cases region with
    | none => exact Pass.carries_pure _
    | some region =>
      dsimp only
      split
      · exact ih drew
      · refine Pass.carries_bind (h.drawRound bounds region) fun answer ↦ ?_
        cases answer with
        | error fault => exact Pass.carries_pure _
        | ok _ => exact ih true

theorem goOn (bounds : Rect) (left : Nat) (answer : Except Fault Unit) :
    Pass.Carries part R (Pane.goOn conduct outage bounds left answer) := by
  cases answer with
  | error fault => exact Pass.carries_pure _
  | ok _ => exact h.rounds bounds left true

theorem finish (answer : Except Fault Bool) :
    Pass.Carries part R (Pane.finish outage answer : Pass (Pane W A) _) := by
  cases answer with
  | error fault => exact Pass.carries_pure _
  | ok drew =>
    cases drew with
    | false => exact Pass.carries_pure _
    | true =>
      intro s
      change R (part s) (part (Pass.final ((match s.screen.swap outage with
        | .error fault => pure (.error fault)
        | .ok screen => do
          modify fun s ↦ { s with screen }
          pure (.ok ()) : Pass (Pane W A) (Except Fault Unit)) s)))
      unfold Screen.swap
      cases outage.swap with
      | some reason => exact refl_of R (part s)
      | none => exact h.record s .swap

theorem present : Pass.Carries part R (Pane.present conduct outage) := by
  intro s
  by_cases hredraw : s.window.needsRedraw = .ok true
  · cases hbind : outage.bind with
    | some reason =>
      rw [present_of_refused conduct outage hredraw hbind]
      exact refl_of R (part s)
    | none =>
      obtain ⟨bounds, hpresent⟩ := present_of_bound conduct outage hredraw hbind
      rw [hpresent]
      have hrounds := Pass.carries_bind (h.rounds bounds roundLimit false) h.finish
      exact trans_of R (h.record s .bind) (hrounds s.bound)
  · rw [present_of_not_needsRedraw conduct outage hredraw]
    cases s.window.needsRedraw <;> exact refl_of R (part s)

end Presentable

end

end RetainedUi.Pane
