import RetainedUi.Paint.Batch

/-!
# The painter

The painter collects quads until they are flushed to a device. Quads with one texture that follow
each other share a stage as long as the stage has room, and a new stage begins where the last one
ends. Two quads with the same texture that are separated by another one stay in different stages, so
the order of drawing is kept.

The map that places the corners depends on the scale and the rotation of the pen. It is computed when
it is needed for the first time after one of them was given a value different from the one it had.
-/

namespace RetainedUi

structure PainterConfig where
  /-- The number of quads for which there is room at the start. -/
  initialQuads : Nat
  /-- The number of vertices in a stage, of which a 16-bit index can tell 65536 apart. -/
  stageLimit : Nat
  deriving DecidableEq, Repr

namespace PainterConfig

def largestStageLimit : Nat := 65536

def standard : PainterConfig := { initialQuads := 64, stageLimit := largestStageLimit }

/-- The limit that is really used: room for one quad at least. -/
def clampedLimit (c : PainterConfig) : Nat := max Quad.vertexCount (min c.stageLimit largestStageLimit)

/-- The note that the limit had to be changed. -/
def notes (c : PainterConfig) : List Note :=
  if c.clampedLimit = c.stageLimit then []
  else [⟨.warning, .painting, "max_vertices_per_stage " ++ toString c.stageLimit
    ++ " is out of range, using " ++ toString c.clampedLimit⟩]

/-- The number of vertices for which there is room at the start. -/
def initialRoom (c : PainterConfig) : Nat := c.initialQuads * Quad.vertexCount

end PainterConfig

/-- The quads collected so far and the state that the next one is drawn with. -/
structure Painter where
  config : PainterConfig
  pen : Pen
  /-- The saved pens, the last one in front. -/
  saved : List SavedPen
  map : LinearMap2
  mapStale : Bool
  vertices : Array Vertex
  faces : Array Face
  stages : Array Stage
  /-- The number of vertices for which there is room. -/
  vertexRoom : Nat
  /-- The sizes of the buffers that the painter allocated on the device. -/
  vertexBuffer : Nat
  indexBuffer : Nat
  /-- Whether a quad was drawn since the last upload. -/
  unsent : Bool

namespace Painter

/-- The painter that a configuration asks for. -/
def ofConfig (config : PainterConfig) : Painter :=
  { config := { config with stageLimit := config.clampedLimit }
    pen := .initial
    saved := []
    map := .identity
    mapStale := true
    vertices := #[]
    faces := #[]
    stages := #[]
    vertexRoom := config.initialRoom
    vertexBuffer := 0
    indexBuffer := 0
    unsent := false }

/-- Creates a painter. One block of memory has to hold the vertices for which there is room at the
start; the faces need less. -/
def create (config : PainterConfig) : Except Halt Painter := do
  Memory.claim (config.initialRoom * Batch.vertexSize)
  return ofConfig config

/-- The painter with a given number of quads at the start and the largest stages. -/
def standard : Painter := ofConfig .standard

/-! ## The pen -/

def setScale (p : Painter) (scale : Vec) : Painter :=
  { p with mapStale := p.mapStale || !(scale == p.pen.scale), pen := { p.pen with scale } }

def setRotation (p : Painter) (rotation : Float32) : Painter :=
  { p with mapStale := p.mapStale || !(rotation == p.pen.rotation), pen := { p.pen with rotation } }

def setOrigin (p : Painter) (origin : Vec) : Painter := { p with pen := { p.pen with origin } }
def setHandle (p : Painter) (handle : Vec) : Painter := { p with pen := { p.pen with handle } }
def setColor (p : Painter) (color : Color) : Painter := { p with pen := { p.pen with color } }

/-- Saves the pen. The mask says what of it will be restored. -/
def save (p : Painter) (mask : PenMask) : Painter := { p with saved := ⟨mask, p.pen⟩ :: p.saved }

/-- Brings back the selected components of a saved pen. -/
def restore (p : Painter) (s : SavedPen) : Painter :=
  let p := if s.mask.scale then p.setScale s.pen.scale else p
  let p := if s.mask.origin then p.setOrigin s.pen.origin else p
  let p := if s.mask.handle then p.setHandle s.pen.handle else p
  let p := if s.mask.rotation then p.setRotation s.pen.rotation else p
  if s.mask.color then p.setColor s.pen.color else p

/-- Takes the last saved pen off the stack and restores it. -/
def pop (p : Painter) : Except Fault Painter :=
  match p.saved with
  | [] => .error .stateUnderflow
  | s :: rest => .ok ({ p with saved := rest }.restore s)

/-- Restores saved pens until the stack is no deeper than given. -/
def unwind (p : Painter) (depth : Nat) : Painter :=
  let above := p.saved.length - depth
  (p.saved.take above).foldl restore { p with saved := p.saved.drop above }

/-- The map of the current scale and rotation: first the rotation, then the scaling. -/
def transform (p : Painter) : LinearMap2 × Painter :=
  if p.mapStale then
    let map := (LinearMap2.scaling p.pen.scale).compose (LinearMap2.rotation p.pen.rotation)
    (map, { p with map, mapStale := false })
  else (p.map, p)

/-! ## Quads -/

/-- The stage for the next quad with a texture: the last one if it has the same texture and room for
a quad, and else a new one behind it. -/
def stageFor (p : Painter) (texture : Option Texture) : Nat × Painter :=
  let opened (baseVertex baseFace : Nat) : Nat × Painter :=
    (p.stages.size, { p with stages := p.stages.push ⟨texture, 0, 0, baseVertex, baseFace⟩ })
  match p.stages.back? with
  | none => opened 0 0
  | some last =>
    if last.texture = texture ∧ last.vertices + Quad.vertexCount ≤ p.config.stageLimit then
      (p.stages.size - 1, p)
    else opened (last.baseVertex + last.vertices) (last.baseFace + last.faces)

/-- Appends a quad whose geometry is known. -/
def place (p : Painter) (texture : Option Texture) (quad : Quad) (position size : Vec) : Painter :=
  let (map, p) := p.transform
  let (stage, p) := p.stageFor texture
  let first := UInt16.ofNat ((p.stages[stage]?.map (·.vertices)).getD 0)
  let vertices := (quad.corners p.pen map position size).foldl Array.push p.vertices
  { p with
    vertexRoom := Batch.grownRoom p.vertexRoom vertices.size
    unsent := true
    vertices
    faces := (Quad.triangles first).foldl Array.push p.faces
    stages := p.stages.modify stage fun s ↦
      { s with vertices := s.vertices + Quad.vertexCount, faces := s.faces + Quad.faceCount } }

/-- Draws a quad, unless a part of its geometry is missing. -/
def drawQuad (p : Painter) (texture : Option Texture) (quad : Quad) : Except Fault Unit × Painter :=
  match quad.geometry with
  | .error fault => (.error fault, p)
  | .ok (position, size) => (.ok (), p.place texture quad position size)

/-- Forgets all quads. The room for them stays. -/
def clear (p : Painter) : Painter := { p with stages := #[], vertices := #[], faces := #[] }

/-- The bytes of the vertices collected so far. -/
def vertexDataSize (p : Painter) : Nat :=
  ((p.stages.back?.map fun s ↦ s.baseVertex + s.vertices).getD 0) * Batch.vertexSize

/-- The bytes of the indices collected so far. -/
def indexDataSize (p : Painter) : Nat :=
  ((p.stages.back?.map fun s ↦ s.baseFace + s.faces).getD 0) * Batch.faceSize

end Painter

end RetainedUi
