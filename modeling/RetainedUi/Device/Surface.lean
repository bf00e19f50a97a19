import RetainedUi.Color.Basic

/-!
# Surfaces

A surface is what a graphics device shows in a window. How it is set up does not depend on the device:
the color it is cleared to, and when a finished frame takes the place of the last one.
-/

namespace RetainedUi

/-- When a finished frame is shown. -/
inductive FramePacing where
  /-- In turn, one for each refresh of the screen. -/
  | queued
  /-- In turn, but a late frame does not wait for the next refresh. -/
  | queuedUnlessLate
  /-- At the next refresh, instead of any frame that waits for it. -/
  | newest
  /-- At once. -/
  | immediate
  deriving DecidableEq, Repr

def FramePacing.valueText : FramePacing → String
  | queued => "Fifo"
  | queuedUnlessLate => "FifoRelaxed"
  | newest => "Mailbox"
  | immediate => "Immediate"

structure SurfaceConfig where
  /-- What the window is cleared to before drawing. -/
  clearColor : Color
  pacing : FramePacing
  deriving DecidableEq, Repr

/-- A bright surface that never shows a torn frame. -/
def SurfaceConfig.standard : SurfaceConfig := { clearColor := .nearWhite, pacing := .queued }

end RetainedUi
