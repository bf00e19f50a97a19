import RetainedUi.Desktop.Tick
import RetainedUi.Script.Scene

/-!
# Sessions

A session drives a desktop with scripted widgets and callbacks. Callbacks perform steps of the desktop,
ticks and runs included, so steps nest, and a number bounds how deep.
-/

namespace RetainedUi.Script

abbrev Session := Desktop Widget Callback Notebook

namespace Session

abbrev SessionPass := Pass Session

/-- The reply to a step on a window that is not open. -/
def noWindow : Reply := .text "no window"

/-- The reasons that stand for requests which are made to fail by name. -/
def outageOf (names : List String) : Outage :=
  let reason (name : String) : Option String := if names.contains name then some ("injected " ++ name) else none
  ⟨reason "create", reason "bind", reason "swap", reason "allocate"⟩

/-- What a script is told about a window. -/
def windowInfo (w : Window Widget) : Except Halt Reply := do
  let root ← w.forest.read w.root
  return .record
    [("id", .text w.id.valueText), ("root", .view w.root), ("title", .text w.title),
      ("state", .text w.state.valueText), ("closed", .flag w.isClosed),
      ("policy", .text w.closePolicy.valueText), ("frame", .rect root.frame),
      ("scale_factor", .scalar w.forest.scaleFactor), ("cursor", .vec w.cursor),
      ("pending", .count w.queue.length), ("needs_redraw", .flag (← w.needsRedraw)),
      ("needs_layout", .flag (← w.needsLayout)), ("invalidated", .option .rect root.invalidated),
      ("views", .count w.forest.size), ("textures", .count w.textures.size),
      ("driver", .painter w.painter)]

/-- What a script is told about a window of the windowing system. -/
def screenInfo (s : Screen) : Reply :=
  .record
    [("title", .text s.title), ("frame", .rect s.frame), ("visible", .flag s.visible),
      ("scale_factor", .scalar s.scaleFactor), ("released", .flag s.released),
      ("frame_updates", .count s.frameUpdates)]

/-- The conduct of the widgets, and the callbacks that are given. -/
def programOf (perform : Callback → SessionPass Unit) : Program Widget Callback Notebook :=
  { layout := Scene.layouts
    handling := handlingConduct Scene.layouts Scene.bound
    drawing := drawingConduct
    perform }

/-- A step on an open window. -/
def onOpen (id : WindowId) (pass : Pass (Pane Widget Notebook) Reply) : SessionPass Reply := do
  return (← Desktop.onWindow id pass).getD noWindow

/-- Requests a texture and binds its label. -/
def bindAnswer (label : Option Label) (answer : Except Fault Texture) : SessionPass Reply := do
  HasNotebook.edit fun n ↦ n.bindTexture label answer
  return .attempt .texture answer

/-- Puts an event into the queue of a window. -/
def postTo (e : Event) : Pass (Pane Widget Notebook) Reply := do
  match (← get).window.post e with
  | .error fault => return .fault fault
  | .ok window =>
    modify fun s ↦ { s with window }
    return .ok

/-- One step on a window. -/
def windowStep (label : Label) (action : WindowAction) : SessionPass Reply := do
  let notebook ← HasNotebook.notebook
  let id := notebook.window label
  let s ← get
  match action with
  | .closeAndRemove =>
    Desktop.closeWindow id
    return .ok
  | .script event =>
    modify fun s ↦ { s with platform := s.platform.push id event }
    return .ok
  | .screen => return .option screenInfo (s.platform.screen? id)
  | .calls =>
    return .calls ((s.platform.screen? id).map fun screen ↦ screen.recorder.log.toList).toList.flatten
  | .clearCalls =>
    modify fun s ↦ { s with platform := s.platform.modifyScreen id fun screen ↦
      { screen with recorder := { screen.recorder with log := #[] } } }
    return .ok
  | .requestFile name file as => bindAnswer as (← Desktop.requestTexture id name file none)
  | .releaseFile name => return .flag (← Desktop.releaseTexture id name)
  | .info => onOpen id do Pass.lift (windowInfo (← get).window)
  | .reveal => onOpen id do
    Pane.reveal
    return .ok
  | .hide => onOpen id do
    Pane.hide
    return .ok
  | .close => onOpen id do
    Pane.close
    return .ok
  | .layout => onOpen id do
    Pane.layoutIfNeeded Scene.layouts Scene.bound
    return .ok
  | .present => onOpen id do return .done (← Pane.present drawingConduct s.platform.outage)
  | .setTitle title => onOpen id do
    Pane.setTitle title
    return .ok
  | .setFrame frame => onOpen id do
    Pane.setFrame frame
    return .ok
  | .setClosePolicy policy => onOpen id do
    modify fun s ↦ { s with window := { s.window with closePolicy := policy } }
    return .ok
  | .receive event => onOpen id do
    Pane.receive event
    return .ok
  | .post draft => onOpen id (postTo (notebook.event draft))
  | .redirect kind receiver => onOpen id do
    Pane.redirect kind (receiver.map notebook.view)
    return .ok
  | .redirectTarget kind => onOpen id do
    let window := (← get).window
    return .option .view (window.redirects.target? window.forest kind)
  | .requestPicture name picture as =>
    let request : Pass (Pane Widget Notebook) (Except Fault Texture) := do
      Pass.lift (Memory.claim picture.bytes)
      Pane.requestTexture name (some picture)
    match ← Desktop.onWindow id request with
    | none => return noWindow
    | some answer => bindAnswer as answer
  | .releaseTexture name => onOpen id do return .flag (← Pane.releaseTexture name)
  | .textureInfo name => onOpen id do return .textureInfo (← get).window.textures name

/-- Opens a window and binds its labels and that of its root. What is not given has its usual value. -/
def openStep (label rootLabel : Label) (config : WindowConfig) : SessionPass Reply := do
  match ← Desktop.openWindow config with
  | .error fault => return .fault fault
  | .ok id =>
    match (← get).window? id with
    | none => return noWindow
    | some window =>
      HasNotebook.edit fun n ↦
        let n := (n.bindWindow label id).bindView rootLabel window.root
        { n with opened := n.opened ++ [⟨label, id, 0⟩] }
      return .list [.text id.valueText, .view window.root]

/-- One step on the desktop. The number bounds how deep steps nest. -/
def step : Nat → DesktopStep → SessionPass Reply
  | 0, _ => throw .exhausted
  | nesting + 1, action => do
    let program := programOf fun acts ↦ do
      HasNotebook.enter (.list [.text "deferred"])
      HasNotebook.perform (step nesting) acts
    match action with
    | .openWindow label root title frame visible =>
      let usual := WindowConfig.standard
      openStep label root ⟨title.getD usual.title, frame.getD usual.frame, visible.getD usual.visible⟩
    | .tick => return .done (← Desktop.tick program Scene.bound)
    | .run => return .done (← Desktop.run program Scene.bound)
    | .runWith quitAfter ticks =>
      let (answer, calls) ← Desktop.runWith program Scene.bound fun number ↦ do
        HasNotebook.enter (.list [.text "tick"])
        HasNotebook.perform (step nesting) (ticks[number - 1]?.getD [])
        if quitAfter ≤ number then Desktop.quit
      return .list [.done answer, .count calls]
    | .defer acts =>
      Desktop.post (.callback acts)
      return .ok
    | .quit =>
      Desktop.quit
      return .ok
    | .enableRealtime =>
      Desktop.enableRealtime
      return .flag (0 < (← get).realtime)
    | .disableRealtime =>
      let answer ← Desktop.disableRealtime
      return .list [.done answer, .flag (0 < (← get).realtime)]
    | .windows => return .many (fun w ↦ .text w.id.valueText) (← get).windows
    | .foreign label number =>
      HasNotebook.edit fun n ↦ n.bindWindow label ⟨number⟩
      return .text (WindowId.valueText ⟨number⟩)
    | .counts =>
      let platform := (← get).platform
      return .record [("polls", .count platform.polls), ("waits", .count platform.waits)]
    | .setPreservesContents value =>
      modify fun s ↦ { s with platform := { s.platform with preservesContents := value } }
      return .ok
    | .setScaleFactor value =>
      modify fun s ↦ { s with platform := { s.platform with scaleFactor := value } }
      return .ok
    | .faults names =>
      modify fun s ↦ { s with platform := { s.platform with outage := outageOf names } }
      return .ok
    | .onWindow label action => windowStep label action
    | .onTree label action =>
      let id := (← HasNotebook.notebook).window label
      onOpen id (Pane.onGrove (action.run Scene.layouts Scene.bound))

/-! ## Reports -/

/-- The calls that the device of a window received since they were reported last. Where calls were
cleared in between, the report goes on from the end. -/
def newCalls (s : Session) (w : OpenedWindow) : List DeviceCall :=
  match s.platform.screen? w.id with
  | some screen => (screen.recorder.log.extract w.reported screen.recorder.log.size).toList
  | none => []

/-- All calls of the devices count as reported. -/
def markReported (s : Session) : Session :=
  HasNotebook.write s fun n ↦ { n with opened := n.opened.map fun w ↦
    { w with reported := ((s.platform.screen? w.id).map (·.recorder.log.size)).getD 0 } }

/-- The report on a step that ended with the given reply. -/
def report (reply : Reply) (s : Session) : Reply :=
  let calls := s.ambient.shared.opened.filterMap fun w ↦
    let calls := newCalls s w
    if calls.isEmpty then none else some (.list [.text w.label, .calls calls])
  .record (("r", reply) :: Scene.reported
    [("log", s.ambient.shared.log.toList), ("warn", Scene.warnings s.ambient.journal.toList),
      ("gpu", calls)])

/-- Runs the steps of a session. -/
def runSteps : List DesktopStep → Session → List Reply
  | [], _ => []
  | action :: rest, s =>
    let s := { s with
      ambient := { s.ambient with journal := #[], shared := { s.ambient.shared with log := #[] } } }
    match step Scene.bound action s with
    | .error halt s => [report (.halt halt) s]
    | .ok reply s => report reply s :: runSteps rest (markReported s)

/-- The reports on all steps of a session, up to the first halt. -/
def run (config : Option PainterConfig) (steps : List DesktopStep) : Reply :=
  .list (runSteps steps (Desktop.fresh (config.getD .standard) .blank))

end Session

end RetainedUi.Script
