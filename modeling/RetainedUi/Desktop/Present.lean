import RetainedUi.Desktop.Window

/-!
# Presenting a window

A shown window with a pending region is bound, drawn in rounds, and then shown. A round takes the
pending region of the root, clears it, draws all views and flushes the painter. Drawing may make the
root pending again, which asks for another round, but after a fixed number of rounds what is left has
to wait for the next time. A pending region that is empty uses up a round without drawing.
-/

namespace RetainedUi

namespace Pane

variable {W A : Type}

/-- How many rounds one presentation has at most. -/
def roundLimit : Nat := 5

/-- Takes the pending region of the root. -/
def takePending : Pass (Pane W A) (Option Rect) := do
  let root := (← get).window.root
  onGrove (Grove.changeAsk fun f ↦ f.takeInvalidated root)

/-- Flushes the painter to the device and forgets its quads, whether or not the flush succeeded. -/
def flush (outage : Outage) : Pass (Pane W A) (Except Fault Unit) := do
  let s ← get
  let (answer, sent) := s.window.painter.flush outage.refusal s.screen.recorder
  set { s with
    window := { s.window with painter := sent.painter.clear }
    screen := { s.screen with recorder := sent.recorder }
    ambient := s.ambient.noteAll sent.notes }
  return answer

/-- Clears a region, draws all views and flushes. Where a shown frame does not stay, all of the window
is cleared. -/
def drawRound (conduct : DrawingConduct W A) (outage : Outage) (bounds region : Rect) :
    Pass (Pane W A) (Except Fault Unit) := do
  changeScreen fun screen ↦
    screen.record (.clear (if screen.preservesContents then region else bounds))
  let root := (← get).window.root
  onStudio (Studio.draw conduct root)
  flush outage

/-- What follows the last round: a region that is pending still is put back, and that is noted. -/
def giveUp (region : Rect) : Pass (Pane W A) Unit := do
  noteAll [⟨.warning, .windows,
    "Terminating window invalidation loop after " ++ toString roundLimit ++ " runs"⟩]
  changeWindow fun w ↦ w.changeForest fun f ↦ f.invalidate w.root (some region)

/-- The rounds that are left, given how many there may be and whether one has drawn already. The answer
is whether any has drawn. -/
def rounds (conduct : DrawingConduct W A) (outage : Outage) (bounds : Rect) :
    Nat → Bool → Pass (Pane W A) (Except Fault Bool)
  | 0, drew => do
    match ← takePending with
    | none => return .ok drew
    | some region =>
      giveUp region
      return .ok drew
  | left + 1, drew => do
    match ← takePending with
    | none => return .ok drew
    | some region =>
      if region.isEmpty then rounds conduct outage bounds left drew
      else
        match ← drawRound conduct outage bounds region with
        | .error fault => return .error fault
        | .ok () => rounds conduct outage bounds left true

/-- Draws a shown window with a pending region, and shows the result if anything was drawn. -/
def present (conduct : DrawingConduct W A) (outage : Outage) : Pass (Pane W A) (Except Fault Unit) := do
  let s ← get
  if s.window.state ≠ .shown then return .ok ()
  let root ← Pass.lift (s.window.forest.read s.window.root)
  if root.invalidated.isNone then return .ok ()
  match s.screen.bind outage with
  | .error fault => return .error fault
  | .ok screen =>
    set { s with screen }
    match ← rounds conduct outage root.bounds roundLimit false with
    | .error fault => return .error fault
    | .ok false => return .ok ()
    | .ok true =>
      match (← get).screen.swap outage with
      | .error fault => return .error fault
      | .ok screen =>
        modify fun s ↦ { s with screen }
        return .ok ()

end Pane

end RetainedUi
