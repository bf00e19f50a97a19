import RetainedUi.Paint.Flush
import RetainedUi.Script.Widget

/-!
# Scenes

A scene is a forest, an event queue, a painter, a device and a texture cache, driven step by step
without any window. After each step the script is told what the step answered, what the widgets logged,
the warnings, the device calls, and, if it wants to, which views have changed. A halt ends the scene.
-/

namespace RetainedUi.Script

structure Scene where
  forest : Forest Widget
  queue : List Event
  redirects : Redirects
  painter : Painter
  recorder : Recorder
  textures : TextureCache
  ambient : Ambient Notebook

namespace Scene

instance : HasNotebook Scene where
  read s := s.ambient.shared
  write s change := { s with ambient := inAmbient s.ambient change }

/-- A scene without views. The painter's note about its configuration stands in the journal. -/
def fresh (config : PainterConfig) : Except Halt Scene := do
  return {
    forest := .empty
    queue := []
    redirects := .empty
    painter := (← Painter.create config)
    recorder := .fresh
    textures := .empty
    ambient := ⟨config.notes.toArray, .blank⟩ }

abbrev ScenePass := Pass Scene

/-- How deep layouts go and nest, and how many events and steps upwards a dispatch has. No script comes
close. -/
def bound : Nat := 1000000

def layouts : LayoutConduct Widget Notebook := layoutConduct bound bound

def onGrove {α : Type} (pass : Pass (Grove Widget Notebook) α) : ScenePass α := fun s ↦
  match pass ⟨s.forest, s.ambient⟩ with
  | .ok answer grove => .ok answer { s with forest := grove.forest, ambient := grove.ambient }
  | .error halt grove => .error halt { s with forest := grove.forest, ambient := grove.ambient }

def onDesk {α : Type} (pass : HandlePass α) : ScenePass (α × List Callback) := fun s ↦
  let back (desk : Desk Widget Callback Notebook) : Scene :=
    { s with forest := desk.forest, queue := desk.queue, redirects := desk.redirects, ambient := desk.ambient }
  match pass ⟨s.forest, s.queue, s.redirects, [], s.ambient⟩ with
  | .ok answer desk => .ok (answer, desk.deferred) (back desk)
  | .error halt desk => .error halt (back desk)

def onStudio {α : Type} (pass : Pass (Studio Widget Notebook) α) : ScenePass α := fun s ↦
  let back (studio : Studio Widget Notebook) : Scene :=
    { s with forest := studio.forest, painter := studio.painter, ambient := studio.ambient }
  match pass ⟨s.forest, s.painter, s.ambient⟩ with
  | .ok answer studio => .ok answer (back studio)
  | .error halt studio => .error halt (back studio)

def noteAll (notes : List Note) : ScenePass Unit :=
  modify fun s ↦ { s with ambient := s.ambient.noteAll notes }

/-- A change of the device. -/
def onRecorder (step : Recorder → Recorder) : ScenePass Reply := do
  modify fun s ↦ { s with recorder := step s.recorder }
  return .ok

/-- Sees to it that the pixels of a picture can be in memory. -/
def claimPixels (picture : Picture) : ScenePass Unit := Pass.lift (Memory.claim picture.bytes)

/-- Requests a texture and binds its label. -/
def request (name : String) (picture : Option Picture) (label : Option Label) : ScenePass Reply := do
  let s ← get
  let (answer, textures, recorder) ← Pass.lift (s.textures.request s.recorder name picture)
  set { s with textures, recorder }
  HasNotebook.edit fun n ↦ n.bindTexture label answer
  return .attempt .texture answer

/-- Stages, vertices and saved pens after a drawing. -/
def drawn : ScenePass Reply := do
  let p := (← get).painter
  return .many .count [p.stages.size, p.vertices.size, p.saved.length]

/-- Flushes to a device that refuses one kind of buffer, or none. -/
def flush (refused : Option BufferKind) : ScenePass Reply := do
  let s ← get
  let refusal : Refusal := fun kind ↦ if refused = some kind then some "injected" else none
  let (answer, sent) := s.painter.flush refusal s.recorder
  set { s with painter := sent.painter, recorder := sent.recorder }
  noteAll sent.notes
  return .done answer

def hexText (bytes : ByteArray) : String :=
  let digit (n : UInt8) : Char := Nat.digitChar n.toNat
  String.ofList (bytes.toList.flatMap fun b ↦ [digit (b / 16), digit (b % 16)])

/-- One step. -/
def step (action : SceneStep) : ScenePass Reply := do
  let notebook ← HasNotebook.notebook
  match action with
  | .tree action => onGrove (action.run layouts bound)
  | .paint action =>
    modifyGet fun s ↦
      let (reply, painter) := action.run notebook.texture? s.painter
      (reply, { s with painter })
  | .post draft =>
    modify fun s ↦ { s with queue := s.queue ++ [notebook.event draft] }
    return .count (← get).queue.length
  | .redirect kind receiver =>
    let _ ← onDesk (Desk.redirect kind (receiver.map notebook.view))
    return .ok
  | .redirectTarget kind => return .option .view (← onDesk (redirectTarget kind)).1
  | .pendingEvents => return .count (← get).queue.length
  | .dispatch root =>
    let (_, deferred) ← onDesk
      (Routing.dispatch (handlingConduct layouts bound) bound (notebook.view root))
    return .record [("deferred", .count deferred.length), ("pending", .count (← get).queue.length)]
  | .draw label =>
    onStudio (Studio.draw drawingConduct (notebook.view label))
    drawn
  | .drawSubviews label =>
    onStudio (Studio.drawSubviews drawingConduct (notebook.view label))
    drawn
  | .flush refused => flush refused
  | .newPainter config =>
    let config := config.getD .standard
    noteAll config.notes
    let painter ← Pass.lift (Painter.create config)
    modify fun s ↦ { s with painter }
    return .painter painter
  | .newDevice => onRecorder fun r ↦ .withLog r.log
  | .allocate kind size =>
    Pass.lift (Memory.claim size)
    onRecorder fun r ↦ r.allocate kind size
  | .upload kind offset bytes =>
    let _ ← Pass.lift (Memory.counted (offset + bytes.size))
    let (recorder, notes) := (← get).recorder.upload kind offset bytes
    modify fun s ↦ { s with recorder }
    noteAll notes
    return .ok
  | .buffer kind => return .text (hexText ((← get).recorder.buffer kind))
  | .bindTexture label => onRecorder fun r ↦ r.bindTexture (notebook.texture? label)
  | .boundTexture => return .option .texture (← get).recorder.bound
  | .drawIndexed first count base => onRecorder fun r ↦ r.draw first count base
  | .createTexture label picture =>
    claimPixels picture
    let (answer, recorder) ←
      Pass.lift ((← get).recorder.createTexture picture.width picture.height picture.bytes)
    modify fun s ↦ { s with recorder }
    HasNotebook.edit fun n ↦ n.bindTexture label answer
    return .attempt .texture answer
  | .destroyTexture label =>
    match notebook.texture? label with
    | some texture => onRecorder fun r ↦ r.releaseTexture texture
    | none => return .ok
  | .liveTextures => return .count (← get).recorder.live.length
  | .requestPicture name picture label =>
    claimPixels picture
    request name (some picture) label
  | .requestEncoded name bytes label => request name ((ImageSize.ofBytes? bytes).map .ofSize) label
  | .requestFile name file bytes label =>
    noteAll ((← get).textures.loadingNotes name file)
    request name ((ImageSize.ofFile? file bytes).map .ofSize) label
  | .retain name =>
    let (answer, textures) := (← get).textures.retain name
    modify fun s ↦ { s with textures }
    return .option .texture answer
  | .release name =>
    let s ← get
    let (answer, textures, recorder, notes) := s.textures.release s.recorder name
    set { s with textures, recorder }
    noteAll notes
    return .flag answer
  | .releaseAll =>
    let s ← get
    let (textures, recorder) := s.textures.releaseAll s.recorder
    set { s with textures, recorder }
    return .ok
  | .textureInfo name => return .textureInfo (← get).textures name
  | .newCache =>
    modify fun s ↦ { s with textures := .empty }
    return .ok

/-! ## Reports -/

/-- The fields of a report that are not empty. -/
def reported (fields : List (String × List Reply)) : List (String × Reply) :=
  fields.filterMap fun (name, items) ↦ if items.isEmpty then none else some (name, .list items)

/-- The texts of the warnings among notes. -/
def warnings (notes : List Note) : List Reply :=
  (notes.filter (·.level = .warning)).map fun note ↦ .text note.text

/-- The rows of all labelled slots. -/
def rows (s : Scene) : List Row := s.ambient.shared.slots.map (Row.ofForest s.forest)

/-- The rows that are new or different. A vacant slot is told only where a view was told before, so a
view that comes and goes within one step is never told at all. -/
def changedRows (before after : List Row) : List Row :=
  after.filter fun row ↦
    if row.live.isSome then !before.contains row
    else before.any fun told ↦ told.index == row.index && told.live.isSome

/-- Forgets what was reported. -/
def forgetReported (s : Scene) : Scene :=
  { s with
    recorder := { s.recorder with log := #[] }
    ambient := { s.ambient with journal := #[], shared := { s.ambient.shared with log := #[] } } }

/-- Runs the steps of a scene, given the rows told so far if the script wants them. -/
def runSteps : List SceneStep → Option (List Row) → Scene → List Reply
  | [], _, _ => []
  | action :: rest, told, s =>
    let report (reply : Reply) (s : Scene) (changed : List Row) : Reply :=
      .record (("r", reply) :: reported
        [("log", s.ambient.shared.log.toList), ("warn", warnings s.ambient.journal.toList),
          ("gpu", (Reply.sortReleases s.recorder.log.toList).map Reply.call),
          ("views", changed.map Row.reply)])
    match step action s with
    | .error halt s => [report (.halt halt) s []]
    | .ok reply s =>
      let now := told.map fun _ ↦ rows s
      report reply s (changedRows (told.getD []) (now.getD [])) :: runSteps rest now (forgetReported s)

/-- The reports on all steps of a scene, up to the first halt. A painter that cannot be created is a
halt before the first step. -/
def run (config : Option PainterConfig) (trace : Bool) (steps : List SceneStep) : Reply :=
  match fresh (config.getD .standard) with
  | .error halt => .halt halt
  | .ok s => .list (runSteps steps (if trace then some [] else none) s)

end Scene

end RetainedUi.Script
