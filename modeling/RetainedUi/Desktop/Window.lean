import RetainedUi.Desktop.Screen
import RetainedUi.Paint.Draw
import RetainedUi.Routing.Dispatch
import RetainedUi.Texture.Cache

/-!
# Windows

A window joins a forest of views, a queue of events, a painter and its textures to one window of the
windowing system. Its root view has the frame of the window on the screen. A closed window never
becomes anything else.
-/

namespace RetainedUi

inductive WindowState where
  | hidden
  | shown
  | closed
  deriving DecidableEq, Repr

def WindowState.valueText : WindowState → String
  | hidden => "Hidden"
  | shown => "Shown"
  | closed => "Closed"

/-- What a request to close the window does, beside the event for the root that it always posts. -/
inductive ClosePolicy where
  | close
  | ignore
  deriving DecidableEq, Repr

def ClosePolicy.valueText : ClosePolicy → String
  | close => "Close"
  | ignore => "Ignore"

/-- The policy of a window until it is given another. -/
def ClosePolicy.standard : ClosePolicy := .close

structure Window (W : Type) where
  id : WindowId
  title : String
  forest : Forest W
  root : View
  queue : List Event
  redirects : Redirects
  painter : Painter
  textures : TextureCache
  state : WindowState
  closePolicy : ClosePolicy
  cursor : Vec
  modifiers : Modifiers

/-- What an operation on a window works on: the window, its counterpart in the windowing system, and
what surrounds them. -/
structure Pane (W A : Type) where
  window : Window W
  screen : Screen
  ambient : Ambient A

namespace Window

variable {W : Type}

def isClosed (w : Window W) : Bool := w.state = .closed

/-- The frame of the window, which is the one of its root. -/
def frame (w : Window W) : Except Halt Rect := do return (← w.forest.read w.root).frame

/-- Whether a shown window has a region to be painted. -/
def needsRedraw (w : Window W) : Except Halt Bool := do
  if w.state = .shown then return (← w.forest.read w.root).invalidated.isSome else return false

/-- Whether some view of the window has to be laid out. -/
def needsLayout (w : Window W) : Except Halt Bool := w.forest.needsLayoutBelow w.root

/-- Puts an event into the queue. A target has to be a view of the window. -/
def post (w : Window W) (e : Event) : Except Fault (Window W) :=
  match e.target with
  | some target =>
    if w.forest.contains target then .ok { w with queue := w.queue ++ [e] } else .error (.invalidTarget target)
  | none => .ok { w with queue := w.queue ++ [e] }

/-- Puts an event into the queue without a look at its target. -/
def enqueue (w : Window W) (e : Event) : Window W := { w with queue := w.queue ++ [e] }

def changeForest (w : Window W) (step : Forest W → Except Halt (Forest W)) : Except Halt (Window W) := do
  return { w with forest := (← step w.forest) }

/-- Closes the window, which is noted once. -/
def close (w : Window W) : Window W × List Note :=
  if w.isClosed then (w, [])
  else ({ w with state := .closed },
    [⟨.debug, .windows, "Closing window " ++ w.id.valueText ++ " (" ++ Quoted.quote w.title ++ ")"⟩])

/-- Gives the window back to the windowing system, with all its textures. -/
def release (w : Window W) (screen : Screen) : Screen × List Note :=
  let (_, recorder) := w.textures.releaseAll screen.recorder
  ({ screen with recorder, released := true },
    [⟨.debug, .windows, "Released platform window of " ++ w.id.valueText⟩])

end Window

namespace Pane

variable {W D A α : Type}

def noteAll (notes : List Note) : Pass (Pane W A) Unit :=
  modify fun s ↦ { s with ambient := s.ambient.noteAll notes }

def changeScreen (step : Screen → Screen) : Pass (Pane W A) Unit :=
  modify fun s ↦ { s with screen := step s.screen }

def changeWindow (step : Window W → Except Halt (Window W)) : Pass (Pane W A) Unit := fun s ↦
  match step s.window with
  | .ok window => .ok () { s with window }
  | .error halt => .error halt s

/-- A computation on the forest of the window. -/
def onGrove (pass : Pass (Grove W A) α) : Pass (Pane W A) α := fun s ↦
  match pass ⟨s.window.forest, s.ambient⟩ with
  | .ok answer grove =>
    .ok answer { s with window := { s.window with forest := grove.forest }, ambient := grove.ambient }
  | .error halt grove =>
    .error halt { s with window := { s.window with forest := grove.forest }, ambient := grove.ambient }

/-- A computation on the forest and the painter of the window. -/
def onStudio (pass : Pass (Studio W A) α) : Pass (Pane W A) α := fun s ↦
  let back (studio : Studio W A) : Pane W A :=
    { s with
      window := { s.window with forest := studio.forest, painter := studio.painter }
      ambient := studio.ambient }
  match pass ⟨s.window.forest, s.window.painter, s.ambient⟩ with
  | .ok answer studio => .ok answer (back studio)
  | .error halt studio => .error halt (back studio)

/-- A computation on what receivers of events work on. It starts without callbacks, and the ones it
schedules are answered with. -/
def onDesk (pass : Pass (Desk W D A) α) : Pass (Pane W A) (α × List D) := fun s ↦
  let back (desk : Desk W D A) : Pane W A :=
    { s with
      window := { s.window with forest := desk.forest, queue := desk.queue, redirects := desk.redirects }
      ambient := desk.ambient }
  match pass ⟨s.window.forest, s.window.queue, s.window.redirects, [], s.ambient⟩ with
  | .ok answer desk => .ok (answer, desk.deferred) (back desk)
  | .error halt desk => .error halt (back desk)

/-! ## Showing, moving, naming -/

/-- Shows the window, unless it is closed. All of it is to be painted. -/
def reveal : Pass (Pane W A) Unit := do
  if (← get).window.isClosed then return
  changeScreen Screen.reveal
  modify fun s ↦ { s with window := { s.window with state := .shown } }
  changeWindow fun w ↦ w.changeForest fun f ↦ f.invalidate w.root none

/-- Hides the window, unless it is closed. -/
def hide : Pass (Pane W A) Unit := do
  if (← get).window.isClosed then return
  changeScreen Screen.hide
  modify fun s ↦ { s with window := { s.window with state := .hidden } }

def close : Pass (Pane W A) Unit := do
  let (window, notes) := (← get).window.close
  modify fun s ↦ { s with window }
  noteAll notes

def setTitle (title : String) : Pass (Pane W A) Unit := do
  modify fun s ↦ { s with window := { s.window with title } }
  changeScreen fun screen ↦ screen.setTitle title

/-- Moves and resizes the window by request. -/
def setFrame (frame : Rect) : Pass (Pane W A) Unit := do
  changeScreen fun screen ↦ screen.setFrame frame
  changeWindow fun w ↦ w.changeForest fun f ↦ f.setFrame w.root frame

/-- Sets or removes a redirect. -/
def redirect (kind : EventKind) (receiver : Option View) : Pass (Pane W A) Unit := do
  let _ ← onDesk (D := Unit) (Desk.redirect kind receiver)

/-! ## Input -/

/-- Takes over a frame that the windowing system has changed by itself, so it is not told. -/
def adoptFrame (change : Rect → Rect) : Pass (Pane W A) Unit :=
  changeWindow fun w ↦ do
    let frame ← w.frame
    w.changeForest fun f ↦ f.setFrame w.root (change frame)

def enqueue (e : View → Event) : Pass (Pane W A) Unit :=
  modify fun s ↦ { s with window := s.window.enqueue (e s.window.root) }

def repaint : Pass (Pane W A) Unit :=
  changeWindow fun w ↦ w.changeForest fun f ↦ f.invalidate w.root none

/-- Turns what happened to the window into changes of its views and into events. -/
def receive (event : ScreenEvent) : Pass (Pane W A) Unit := do
  match event with
  | .resized size =>
    adoptFrame fun frame ↦ frame.withSize size
    enqueue fun root ↦ (Event.resize (some root) size).withTarget root
  | .moved position =>
    adoptFrame fun frame ↦ frame.withOrigin position
    enqueue fun root ↦ (Event.moved (some root) position).withTarget root
  | .closeRequested =>
    enqueue fun root ↦ (Event.closeRequest (some root)).withTarget root
    if (← get).window.closePolicy = .close then close
  | .cursorMoved position =>
    modify fun s ↦ { s with window := { s.window with cursor := position } }
    enqueue fun root ↦ Event.cursorMoved (some root) position
  | .mouseButton button state =>
    let window := (← get).window
    enqueue fun root ↦ Event.mouseButton (some root) button state window.modifiers window.cursor
  | .modifiersChanged modifiers =>
    modify fun s ↦ { s with window := { s.window with modifiers } }
  | .scaleFactorChanged factor =>
    changeWindow fun w ↦ w.changeForest fun f ↦ .ok { f with scaleFactor := factor }
    repaint
  | .redrawRequested => repaint

/-- Dispatches the events of the window, and answers with the callbacks that were scheduled. -/
def dispatch (conduct : HandlingConduct W D A) (steps : Nat) : Pass (Pane W A) (List D) := do
  let root := (← get).window.root
  return (← onDesk (Routing.dispatch conduct steps root)).2

/-- Lays out whatever needs it. -/
def layoutIfNeeded (conduct : LayoutConduct W A) (steps : Nat) : Pass (Pane W A) Unit := do
  let root := (← get).window.root
  onGrove (Forest.layoutIfNeeded conduct steps root)

/-! ## Textures -/

/-- Requests a texture from the device of the window. -/
def requestTexture (name : String) (picture : Option Picture) : Pass (Pane W A) (Except Fault Texture) := do
  let s ← get
  let (answer, textures, recorder) ← Pass.lift (s.window.textures.request s.screen.recorder name picture)
  set { s with window := { s.window with textures }, screen := { s.screen with recorder } }
  return answer

/-- Drops a reference to a texture. -/
def releaseTexture (name : String) : Pass (Pane W A) Bool := do
  let s ← get
  let (answer, textures, recorder, notes) := s.window.textures.release s.screen.recorder name
  set { s with window := { s.window with textures }, screen := { s.screen with recorder } }
  noteAll notes
  return answer

end Pane

end RetainedUi
