import RetainedUi.Device.Recorder
import RetainedUi.Paint.Pen

/-!
# Batches of quads

A quad becomes four vertices and two triangles. Triangles refer to vertices by 16-bit indices that
count from the base of their stage, a run of consecutive quads with one texture that is drawn by one
call.
-/

namespace RetainedUi

/-- A corner of a quad as the device receives it. -/
structure Vertex where
  position : Vec
  texcoord : Vec
  color : Color
  deriving DecidableEq, Repr

/-- A triangle, by the indices of its corners within the stage. -/
structure Face where
  first : UInt16
  second : UInt16
  third : UInt16
  deriving DecidableEq, Repr

/-- A run of quads that is drawn by one call. -/
structure Stage where
  texture : Option Texture
  vertices : Nat
  faces : Nat
  baseVertex : Nat
  baseFace : Nat
  deriving DecidableEq, Repr

/-- What a quad is drawn from. Position and size are required. -/
structure Quad where
  position : Option Vec
  size : Option Vec
  color : Option Color
  uvMin : Option Vec
  uvMax : Option Vec
  deriving DecidableEq, Repr

namespace Quad

/-- A quad of which nothing is given. -/
def blank : Quad := ⟨none, none, none, none, none⟩

/-- The quad that covers a rectangle. -/
def ofRect (r : Rect) : Quad := { blank with position := some r.origin, size := some r.size }

def withColor (q : Quad) (color : Color) : Quad := { q with color := some color }

/-- The whole texture. -/
def defaultUvMin : Vec := .zero
def defaultUvMax : Vec := .one

/-- The position and the size, or the fault that names the first one missing. -/
def geometry (q : Quad) : Except Fault (Vec × Vec) :=
  match q.position, q.size with
  | none, _ => .error (.missingGeometry "position")
  | some _, none => .error (.missingGeometry "size")
  | some position, some size => .ok (position, size)

/-- The four corners of a quad, from the top left clockwise: each is moved by the map around the
handle, and then to the place of the quad. -/
def corners (q : Quad) (pen : Pen) (map : LinearMap2) (position size : Vec) : List Vertex :=
  let color := q.color.getD pen.color
  let uvMin := q.uvMin.getD defaultUvMin
  let uvMax := q.uvMax.getD defaultUvMax
  let anchor := position + pen.origin
  let topLeft := -(pen.handle * size)
  let bottomRight := topLeft + size
  let vertex (corner texcoord : Vec) : Vertex := ⟨anchor + map.apply corner, texcoord, color⟩
  [vertex topLeft ⟨uvMin.x, uvMin.y⟩,
    vertex ⟨bottomRight.x, topLeft.y⟩ ⟨uvMax.x, uvMin.y⟩,
    vertex bottomRight ⟨uvMax.x, uvMax.y⟩,
    vertex ⟨topLeft.x, bottomRight.y⟩ ⟨uvMin.x, uvMax.y⟩]

/-- The two triangles of a quad whose first corner has the given index. -/
def triangles (first : UInt16) : List Face :=
  [⟨first, first + 1, first + 2⟩, ⟨first + 2, first + 3, first⟩]

def vertexCount : Nat := 4
def faceCount : Nat := 2

end Quad

/-! ## Bytes -/

namespace Batch

/-- The bytes of a word, the lowest first. -/
def pushWord (bytes : ByteArray) (word : UInt32) : ByteArray :=
  (((bytes.push word.toUInt8).push (word >>> 8).toUInt8).push (word >>> 16).toUInt8).push
    (word >>> 24).toUInt8

def pushScalar (bytes : ByteArray) (x : Float32) : ByteArray := pushWord bytes x.toBits

def pushVertex (bytes : ByteArray) (v : Vertex) : ByteArray :=
  [v.position.x, v.position.y, v.texcoord.x, v.texcoord.y, v.color.red, v.color.green, v.color.blue,
    v.color.alpha].foldl pushScalar bytes

def pushIndex (bytes : ByteArray) (index : UInt16) : ByteArray :=
  (bytes.push index.toUInt8).push (index >>> 8).toUInt8

def pushFace (bytes : ByteArray) (face : Face) : ByteArray :=
  [face.first, face.second, face.third].foldl pushIndex bytes

/-- The number of bytes of a vertex and of a face. -/
def vertexSize : Nat := 32
def faceSize : Nat := 6

def vertexBytes (vertices : Array Vertex) : ByteArray :=
  vertices.foldl pushVertex (.emptyWithCapacity (vertexSize * vertices.size))

def faceBytes (faces : Array Face) : ByteArray :=
  faces.foldl pushFace (.emptyWithCapacity (faceSize * faces.size))

/-- The room for a needed number of things: the same if it is enough, else twice as much, or just
what is needed if twice is not enough. -/
def grownRoom (current needed : Nat) : Nat :=
  if needed ≤ current then current else max needed (current * 2)

end Batch

end RetainedUi
