import RetainedUi.Event.Info
import RetainedUi.Paint.Flush

/-!
# The headless windowing system

A windowing system creates windows, tells what happened to them, and gives each a device to draw on.
The headless one shows nothing: its input is scripted, its windows are records that can be looked at,
and its devices are recorders. Waiting for input never blocks.

Parts of it can be made to fail. An outage gives the reason with which a request is refused, and a
refused request leaves no trace.
-/

namespace RetainedUi

/-- The handle of a window, counted from one and never given twice. -/
structure WindowId where
  number : Nat
  deriving DecidableEq, Repr

def WindowId.valueText (id : WindowId) : String := "WindowId(" ++ toString id.number ++ ")"

/-- How a window is opened. The frame is its place on the screen and the size of its contents. -/
structure WindowConfig where
  title : String
  frame : Rect
  visible : Bool
  deriving DecidableEq, Repr

/-- A hidden window of usual size. -/
def WindowConfig.standard : WindowConfig := ⟨"Trellis", .ofSides 0 0 800 600, false⟩

/-- What happened to a window. -/
inductive ScreenEvent where
  | resized (size : Vec)
  | moved (position : Vec)
  | closeRequested
  | cursorMoved (position : Vec)
  | mouseButton (button : MouseButton) (state : ButtonState)
  | modifiersChanged (modifiers : Modifiers)
  | scaleFactorChanged (factor : Float32)
  | redrawRequested
  deriving DecidableEq, Repr

/-- The requests that are refused, each with the reason. -/
structure Outage where
  create : Option String
  bind : Option String
  swap : Option String
  allocate : Option String

def Outage.none : Outage := ⟨Option.none, Option.none, Option.none, Option.none⟩

/-- Every allocation is refused for the same reason. -/
def Outage.refusal (o : Outage) : Refusal := fun _ ↦ o.allocate

/-- A window as the windowing system knows it, and its device. -/
structure Screen where
  title : String
  frame : Rect
  visible : Bool
  scaleFactor : Float32
  /-- Whether the window was given back. -/
  released : Bool
  /-- How often the window was moved or resized by request. -/
  frameUpdates : Nat
  /-- Whether what was drawn before stays when a frame is shown. -/
  preservesContents : Bool
  recorder : Recorder

namespace Screen

def reveal (s : Screen) : Screen := { s with visible := true }
def hide (s : Screen) : Screen := { s with visible := false }
def setTitle (s : Screen) (title : String) : Screen := { s with title }
def setFrame (s : Screen) (frame : Rect) : Screen := { s with frame, frameUpdates := s.frameUpdates + 1 }

def record (s : Screen) (call : DeviceCall) : Screen := { s with recorder := s.recorder.record call }

/-- Makes the window the one that is drawn into. -/
def bind (s : Screen) (o : Outage) : Except Fault Screen :=
  match o.bind with
  | some reason => .error (.gpu reason)
  | none => .ok (s.record .bind)

/-- Shows what was drawn. -/
def swap (s : Screen) (o : Outage) : Except Fault Screen :=
  match o.swap with
  | some reason => .error (.gpu reason)
  | none => .ok (s.record .swap)

end Screen

/-- The headless windowing system. -/
structure Headless where
  /-- The scripted input that was not asked for yet. -/
  queued : List (WindowId × ScreenEvent)
  /-- All windows ever created, in the order of creation. -/
  screens : List (WindowId × Screen)
  polls : Nat
  waits : Nat
  /-- Given to the windows created from now on, like the scale factor. -/
  preservesContents : Bool
  scaleFactor : Float32
  outage : Outage

namespace Headless

def fresh : Headless :=
  { queued := [], screens := [], polls := 0, waits := 0, preservesContents := true, scaleFactor := 1,
    outage := .none }

/-- The window of a handle, released or not. -/
def screen? (h : Headless) (id : WindowId) : Option Screen := h.screens.lookup id

def setScreen (h : Headless) (id : WindowId) (screen : Screen) : Headless :=
  { h with screens := h.screens.map fun entry ↦ if entry.1 = id then (id, screen) else entry }

def modifyScreen (h : Headless) (id : WindowId) (change : Screen → Screen) : Headless :=
  { h with screens := h.screens.map fun entry ↦ if entry.1 = id then (id, change entry.2) else entry }

/-- Creates a window, hidden at first. -/
def createWindow (h : Headless) (id : WindowId) (config : WindowConfig) : Except Fault (Screen × Headless) :=
  match h.outage.create with
  | some reason => .error (.platform reason)
  | none =>
    let screen : Screen :=
      { title := config.title
        frame := config.frame
        visible := false
        scaleFactor := h.scaleFactor
        released := false
        frameUpdates := 0
        preservesContents := h.preservesContents
        recorder := .fresh }
    .ok (screen, { h with screens := h.screens ++ [(id, screen)] })

/-- Scripts one input. -/
def push (h : Headless) (id : WindowId) (event : ScreenEvent) : Headless :=
  { h with queued := h.queued ++ [(id, event)] }

/-- Takes the input there is. -/
def poll (h : Headless) : List (WindowId × ScreenEvent) × Headless :=
  (h.queued, { h with queued := [], polls := h.polls + 1 })

/-- Takes the input there is, even if there is none. -/
def wait (h : Headless) : List (WindowId × ScreenEvent) × Headless :=
  (h.queued, { h with queued := [], waits := h.waits + 1 })

end Headless

end RetainedUi
