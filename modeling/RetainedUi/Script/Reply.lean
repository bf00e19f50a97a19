import RetainedUi.Forest.Text
import RetainedUi.Paint.Painter
import RetainedUi.Routing.Dispatch
import RetainedUi.Texture.Cache

/-!
# Replies

A script asks for things of every kind, and a reply is what it is told: a tree of plain values, in
which a view stands by its index, a texture by its number and a window by its text.
-/

namespace RetainedUi

inductive Reply where
  | nothing
  | flag (value : Bool)
  | number (value : Int)
  | scalar (value : Float32)
  | text (value : String)
  | list (items : List Reply)
  | record (fields : List (String × Reply))

namespace Reply

def ok : Reply := text "ok"

def count (n : Nat) : Reply := number n

def option {α : Type} (reply : α → Reply) : Option α → Reply
  | some a => reply a
  | none => nothing

def many {α : Type} (reply : α → Reply) (items : List α) : Reply := list (items.map reply)

def view (v : View) : Reply := count v.index
def texture (t : Texture) : Reply := count t.number
def vec (v : Vec) : Reply := many scalar [v.x, v.y]
def rect (r : Rect) : Reply := many scalar [r.origin.x, r.origin.y, r.size.x, r.size.y]
def color (c : Color) : Reply := many scalar [c.red, c.green, c.blue, c.alpha]

def fault (f : Fault) : Reply :=
  record ([("error", text f.name)] ++ (f.message?.map fun message ↦ ("message", text message)).toList)

/-- The reply of an operation that may be refused. -/
def attempt {α : Type} (reply : α → Reply) : Except Fault α → Reply
  | .ok a => reply a
  | .error f => fault f

def done : Except Fault Unit → Reply := attempt fun _ ↦ ok

/-- The reply that ends a script. A walk without an end never happens to a forest. -/
def halt : Halt → Reply
  | .deadView _ | .oversized _ => record [("error", text "panic")]
  | .exhausted => record [("error", text "exhausted")]

def placed (p : Placed) : Reply := list [view p.view, count p.depth]

/-! ## Painter and device -/

def vertex (v : Vertex) : Reply :=
  many scalar [v.position.x, v.position.y, v.texcoord.x, v.texcoord.y, v.color.red, v.color.green,
    v.color.blue, v.color.alpha]

def face (f : Face) : Reply := many (fun index ↦ count index.toNat) [f.first, f.second, f.third]

def stage (s : Stage) : Reply :=
  list [option texture s.texture, count s.vertices, count s.faces, count s.baseVertex, count s.baseFace]

def bufferKind : BufferKind → Reply
  | .vertex => text "vertex"
  | .index => text "index"

def call : DeviceCall → Reply
  | .allocate kind size => list [text "allocate", bufferKind kind, count size]
  | .upload kind offset data => list [text "upload", bufferKind kind, count offset, count data.size]
  | .bindTexture t => list [text "bind_texture", option texture t]
  | .draw first n base => list [text "draw", count first, count n, number base]
  | .createTexture t width height => list [text "create_texture", texture t, count width, count height]
  | .releaseTexture t => list [text "release_texture", texture t]
  | .bind => list [text "bind"]
  | .clear region => list [text "clear", rect region]
  | .swap => list [text "swap"]

/-- The number of the texture that a call releases, if it releases one. -/
def released? : DeviceCall → Option Nat
  | .releaseTexture t => some t.number
  | _ => none

/-- Inserts a release in front, but behind the releases of smaller numbers there. -/
def insertRelease (t : Texture) : List DeviceCall → List DeviceCall
  | [] => [.releaseTexture t]
  | c :: rest =>
    if (released? c).any (· < t.number) then c :: insertRelease t rest else .releaseTexture t :: c :: rest

/-- Calls with every run of consecutive releases in the order of their numbers. -/
def sortReleases (calls : List DeviceCall) : List DeviceCall :=
  calls.foldr (fun c rest ↦
    match c with
    | .releaseTexture t => insertRelease t rest
    | _ => c :: rest) []

def calls (calls : List DeviceCall) : Reply := many call (sortReleases calls)

def painter (p : Painter) : Reply :=
  record
    [("scale", vec p.pen.scale), ("origin", vec p.pen.origin), ("handle", vec p.pen.handle),
      ("rotation", scalar p.pen.rotation), ("color", color p.pen.color), ("depth", count p.saved.length),
      ("stages", count p.stages.size), ("vertices", count p.vertices.size), ("faces", count p.faces.size),
      ("vertex_capacity", count p.vertexRoom), ("vertex_bytes", count p.vertexDataSize),
      ("index_bytes", count p.indexDataSize),
      ("config", list [count p.config.initialQuads, count p.config.stageLimit])]

def textureInfo (c : TextureCache) (name : String) : Reply :=
  let size := (c.find? name).map fun cached ↦
    list [count cached.width.toNat, count cached.height.toNat]
  list [option texture (c.texture? name), option id size, count (c.references name), count c.size,
    flag (c.size = 0)]

/-! ## Events -/

def event (e : Event) : Reply :=
  let payload := [
    match e.payload? with
    | some (.word value) => count value.toNat
    | _ => nothing,
    match e.payload? with
    | some (.integer value) => number value
    | _ => nothing,
    match e.payload? with
    | some (.text value) => text value
    | _ => nothing]
  record
    [("display", text e.text), ("kind", text e.kind.text), ("info", text e.info.valueText),
      ("sender", option view e.sender), ("target", option view e.target),
      ("original_target", option view e.addressee), ("position", option vec e.position?),
      ("cancellable", flag e.cancellable), ("cancelled", flag e.cancelled),
      ("propagating", flag e.propagating), ("payload", list payload)]

/-! ## Views -/

def node {W : Type} (n : Node W) : Reply :=
  record
    [("frame", rect n.frame), ("bounds", rect n.bounds), ("tag", option text n.tag),
      ("role", text n.role.valueText), ("superview", option view n.superview),
      ("subviews", many view n.subviews), ("invalidated", option rect n.invalidated),
      ("needs_layout", flag n.needsLayout), ("debug", text n.valueText)]

end Reply

/-- What a script is told of one slot: the links and marks of the view in it, if there is one. -/
structure Row where
  index : Nat
  live : Option (Option View × List View × Bool × Rect × Option Rect)
  deriving DecidableEq

namespace Row

def ofForest {W : Type} (f : Forest W) (index : Nat) : Row :=
  { index
    live := (f.node? ⟨index⟩).map fun node ↦
      (node.superview, node.subviews, node.needsLayout, node.frame, node.invalidated) }

def reply (row : Row) : Reply :=
  .list (.count row.index :: match row.live with
    | none => []
    | some (superview, subviews, needsLayout, frame, invalidated) =>
      [.option .view superview, .many .view subviews, .flag needsLayout, .rect frame,
        .option .rect invalidated])

end Row

end RetainedUi
