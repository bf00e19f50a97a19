import RetainedUi.Clicker.Run
import RetainedUi.Script.Reply

/-!
# The report on a run of the clicker

What reached the windowing system is told as a list, in which every upload of vertices is followed by
the vertices it uploaded, read back from their bytes. Lines of the journal name the part of the program
that wrote them.
-/

namespace RetainedUi.Clicker

/-- A list cut into so many pieces of the same length. -/
def pieces {α : Type} (length : Nat) : Nat → List α → List (List α)
  | 0, _ => []
  | count + 1, xs => xs.take length :: pieces length count (xs.drop length)

/-- The scalars whose bytes, the lowest first, make up an array. -/
def scalarsOf (bytes : ByteArray) : List Float32 :=
  (pieces 4 (bytes.size / 4) bytes.toList).map fun piece ↦
    Float32.ofBits (piece.foldr (fun b word ↦ word <<< 8 ||| b.toUInt32) 0)

/-- The vertices that a call uploads. -/
def uploaded : DeviceCall → List Reply
  | .upload .vertex _ data =>
    (pieces 8 (data.size / Batch.vertexSize) (scalarsOf data)).map fun vertex ↦
      .list [.text "vertex", .many .scalar vertex]
  | _ => []

def reachedReply : Reached → List Reply
  | .opened config =>
    [.list [.text "open", .text config.title, .rect config.frame, .flag config.visible]]
  | .shown => [.list [.text "show"]]
  | .polled => [.list [.text "poll"]]
  | .waited => [.list [.text "wait"]]
  | .called call => .call call :: uploaded call
  | .released => [.list [.text "released"]]

/-- The name of a part of the program in the journal. -/
def subsystemText : Subsystem → String
  | .painting => "trellis::driver"
  | .device => "trellis::headless"
  | .routing => "trellis::event_dispatch"
  | .textures => "trellis::texture"
  | .windows => "trellis::window"
  | .loop => "trellis::context"
  | .program => "hello_views"

def levelText : Level → String
  | .debug => "DEBUG"
  | .info => "INFO"
  | .warning => "WARN"

def noteReply (note : Note) : Reply :=
  .list [.text (levelText note.level), .text (subsystemText note.subsystem), .text note.text]

/-- The line that a fault leaves, and the exit code. -/
def ending : Except Fault Unit → List Reply × Nat
  | .ok () => ([], 0)
  | .error fault => ([.text ("Error: " ++ fault.valueText)], 1)

def reportFields (calls : Reply) (notes : List Note) (answer : Except Fault Unit) : Reply :=
  let (lines, code) := ending answer
  .record [("exit", .count code), ("calls", calls), ("log", .many noteReply notes), ("stderr", .list lines)]

/-- The report on a run. Without a windowing system there is no run, and nothing is reached. -/
def report (input : List (List ScreenEvent)) (preservesContents : Bool) (missing : Option String)
    (outage : Outage) : Reply :=
  match missing with
  | some reason => reportFields .nothing [] (.error (.platform reason))
  | none =>
    match run input preservesContents outage with
    | .error halt => .halt halt
    | .ok outcome =>
      reportFields (.list (outcome.reached.flatMap reachedReply)) outcome.notes outcome.answer

end RetainedUi.Clicker
