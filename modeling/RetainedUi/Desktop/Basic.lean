import RetainedUi.Desktop.Present

/-!
# The desktop

The desktop owns the windowing system and every open window. Callbacks can be scheduled for later; a
window that leaves the list is given back to the windowing system by such a callback as well, so that
nobody loses it in the middle of something.
-/

namespace RetainedUi

/-- Something to be done later. -/
inductive Task (W D : Type) where
  | callback (callback : D)
  /-- Gives a window back that has left the list. -/
  | release (window : Window W)

structure Desktop (W D A : Type) where
  platform : Headless
  /-- The open windows, in the order of opening. -/
  windows : List (Window W)
  nextWindow : Nat
  painterConfig : PainterConfig
  /-- What is to be done at the start of the next tick, in order. -/
  deferred : List (Task W D)
  /-- How many requests for realtime mode are in force. -/
  realtime : Nat
  quitRequested : Bool
  ambient : Ambient A

/-- What the user of the library provides: the conduct of widgets, and what callbacks do. -/
structure Program (W D A : Type) where
  layout : LayoutConduct W A
  handling : HandlingConduct W D A
  drawing : DrawingConduct W A
  perform : D → Pass (Desktop W D A) Unit

namespace Desktop

variable {W D A α : Type}

/-- The desktop without windows. -/
def fresh (painterConfig : PainterConfig) (shared : A) : Desktop W D A :=
  { platform := .fresh
    windows := []
    nextWindow := 1
    painterConfig
    deferred := []
    realtime := 0
    quitRequested := false
    ambient := ⟨#[], shared⟩ }

def window? (d : Desktop W D A) (id : WindowId) : Option (Window W) := d.windows.find? (·.id == id)

def note (level : Level) (text : String) : Pass (Desktop W D A) Unit :=
  modify fun s ↦ { s with ambient := s.ambient.note level .loop text }

/-- Schedules a task. -/
def post (task : Task W D) : Pass (Desktop W D A) Unit :=
  modify fun s ↦ { s with deferred := s.deferred ++ [task] }

/-- Puts a window and its counterpart back into their places. -/
def putPane (d : Desktop W D A) (id : WindowId) (pane : Pane W A) : Desktop W D A :=
  { d with
    platform := d.platform.setScreen id pane.screen
    windows := d.windows.map fun w ↦ if w.id = id then pane.window else w
    ambient := pane.ambient }

/-- A computation on an open window. There is no answer if the window is not in the list. -/
def onWindow (id : WindowId) (pass : Pass (Pane W A) α) : Pass (Desktop W D A) (Option α) := fun s ↦
  match s.window? id, s.platform.screen? id with
  | some window, some screen =>
    match pass ⟨window, screen, s.ambient⟩ with
    | .ok answer pane => .ok (some answer) (s.putPane id pane)
    | .error halt pane => .error halt (s.putPane id pane)
  | _, _ => .ok none s

/-- Opens a window with a root view of the same frame. If the windowing system refuses, nothing has
happened. -/
def openWindow (config : WindowConfig) : Pass (Desktop W D A) (Except Fault WindowId) := do
  let s ← get
  let id : WindowId := ⟨s.nextWindow⟩
  match s.platform.createWindow id config with
  | .error fault => return .error fault
  | .ok (screen, platform) =>
    set { s with platform, nextWindow := s.nextWindow + 1 }
    note .debug ("Opened window " ++ id.valueText ++ " (" ++ Quoted.quote config.title ++ ")")
    let (root, forest) := Forest.empty.createWindow config.frame
    modify fun s ↦ { s with ambient := s.ambient.noteAll s.painterConfig.notes }
    let painter ← Pass.lift (Painter.create s.painterConfig)
    let window : Window W :=
      { id
        title := config.title
        forest := { forest with scaleFactor := screen.scaleFactor }
        root
        queue := []
        redirects := .empty
        painter
        textures := .empty
        state := .hidden
        closePolicy := .standard
        cursor := .zero
        modifiers := .none }
    modify fun s ↦ { s with windows := s.windows ++ [window] }
    if config.visible then let _ ← onWindow id Pane.reveal
    return .ok id

/-- Closes a window and takes it off the list. It is given back later. -/
def closeWindow (id : WindowId) : Pass (Desktop W D A) Unit := do
  match (← get).window? id with
  | none => return
  | some window =>
    let (window, notes) := window.close
    modify fun s ↦
      { s with windows := s.windows.filter (·.id != id), ambient := s.ambient.noteAll notes }
    post (.release window)

/-- Takes every closed window off the list. -/
def sweep : Pass (Desktop W D A) Unit := do
  let closed := (← get).windows.filter (·.isClosed)
  closed.forM fun window ↦ closeWindow window.id

def enableRealtime : Pass (Desktop W D A) Unit := modify fun s ↦ { s with realtime := s.realtime + 1 }

def disableRealtime : Pass (Desktop W D A) (Except Fault Unit) := do
  match (← get).realtime with
  | 0 => return .error .realtimeUnderflow
  | rest + 1 =>
    modify fun s ↦ { s with realtime := rest }
    return .ok ()

/-- Lets a run end after the current tick. -/
def quit : Pass (Desktop W D A) Unit := modify fun s ↦ { s with quitRequested := true }

/-- Gives a window back to the windowing system. -/
def releaseWindow (window : Window W) : Pass (Desktop W D A) Unit := modify fun s ↦
  match s.platform.screen? window.id with
  | none => s
  | some screen =>
    let (screen, notes) := window.release screen
    { s with platform := s.platform.setScreen window.id screen, ambient := s.ambient.noteAll notes }

/-! ## Textures of windows -/

/-- Loads an image file into a texture of a window. -/
def requestTexture (id : WindowId) (name path : String) (contents : Option (List UInt8)) :
    Pass (Desktop W D A) (Except Fault Texture) := do
  let answer ← onWindow id do
    Pane.noteAll ((← get).window.textures.loadingNotes name path)
    Pane.requestTexture name ((ImageSize.ofFile? path contents).map Picture.ofSize)
  return answer.getD (.error (.platform ("no open window " ++ id.valueText)))

/-- Drops a reference to a texture of a window. -/
def releaseTexture (id : WindowId) (name : String) : Pass (Desktop W D A) Bool := do
  return (← onWindow id (Pane.releaseTexture name)).getD false

end Desktop

end RetainedUi
