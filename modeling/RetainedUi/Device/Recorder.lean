import RetainedUi.Fault
import RetainedUi.Geometry.Rect
import RetainedUi.Journal
import RetainedUi.Memory

/-!
# The recording device

A device draws indexed triangles out of one vertex buffer and one index buffer, with at most one
texture bound. The recorder is the device that draws nothing: it keeps the contents of the buffers,
knows which textures are alive, and records every call in order.

A device may refuse to allocate a buffer. Which requests it refuses is given with the request, so that
a refusal leaves no trace in the recorder.
-/

namespace RetainedUi

/-- The handle of a texture, counted from one. -/
structure Texture where
  number : Nat
  deriving DecidableEq, Repr, Inhabited

inductive BufferKind where
  | vertex
  | index
  deriving DecidableEq, Repr

def BufferKind.valueText : BufferKind → String
  | vertex => "Vertex"
  | index => "Index"

/-- Data is the same if all its bytes are. -/
instance decidableEqData : DecidableEq ByteArray := ByteArray.instDecidableEq

/-- One call that a device received. -/
inductive DeviceCall where
  | allocate (kind : BufferKind) (size : Nat)
  | upload (kind : BufferKind) (offset : Nat) (data : ByteArray)
  | bindTexture (texture : Option Texture)
  /-- Draws a number of indices as triangles. The base is added to each index. -/
  | draw (firstIndex count : Nat) (baseVertex : Int)
  | createTexture (texture : Texture) (width height : Nat)
  | releaseTexture (texture : Texture)
  /-- The window becomes the one that is drawn into. -/
  | bind
  | clear (region : Rect)
  /-- What was drawn is shown. -/
  | swap
  deriving DecidableEq

/-- The reason for which a device refuses to allocate a buffer, if it does. -/
abbrev Refusal := BufferKind → Option String

def Refusal.never : Refusal := fun _ ↦ none

/-- The device that records its calls. -/
structure Recorder where
  log : Array DeviceCall
  bound : Option Texture
  /-- The number of textures created so far, which is the number of the last one. -/
  created : Nat
  live : List Texture
  vertexBuffer : ByteArray
  indexBuffer : ByteArray

namespace Recorder

/-- A fresh device that continues a given record. -/
def withLog (log : Array DeviceCall) : Recorder :=
  { log, bound := none, created := 0, live := [], vertexBuffer := .empty, indexBuffer := .empty }

def fresh : Recorder := withLog #[]

def record (r : Recorder) (call : DeviceCall) : Recorder := { r with log := r.log.push call }

def buffer (r : Recorder) : BufferKind → ByteArray
  | .vertex => r.vertexBuffer
  | .index => r.indexBuffer

def setBuffer (r : Recorder) (kind : BufferKind) (data : ByteArray) : Recorder :=
  match kind with
  | .vertex => { r with vertexBuffer := data }
  | .index => { r with indexBuffer := data }

/-- A buffer of zeros. -/
def zeros (size : Nat) : ByteArray := size.fold (fun _ _ bytes ↦ bytes.push 0) (.emptyWithCapacity size)

/-- Gives the device a new buffer of zeros. -/
def allocate (r : Recorder) (kind : BufferKind) (size : Nat) : Recorder :=
  (r.setBuffer kind (zeros size)).record (.allocate kind size)

/-- Writes data into a buffer. Data that does not fit is noted and dropped as a whole. -/
def upload (r : Recorder) (kind : BufferKind) (offset : Nat) (data : ByteArray) : Recorder × List Note :=
  let size := (r.buffer kind).size
  if size < offset + data.size then
    (r, [⟨.warning, .device, "Upload of " ++ toString data.size ++ " bytes at " ++ toString offset
      ++ " overflows the " ++ kind.valueText ++ " buffer (" ++ toString size ++ " bytes)"⟩])
  else
    ((r.setBuffer kind (data.copySlice 0 (r.buffer kind) offset data.size)).record
      (.upload kind offset data), [])

def bindTexture (r : Recorder) (texture : Option Texture) : Recorder :=
  { r with bound := texture }.record (.bindTexture texture)

def draw (r : Recorder) (firstIndex count : Nat) (baseVertex : Int) : Recorder :=
  r.record (.draw firstIndex count baseVertex)

/-- The number of bytes of a picture with four bytes for each point. -/
def pictureBytes (width height : UInt32) : Nat := width.toNat * height.toNat * 4

/-- Creates a texture from so many bytes of pixels, which have to be as many as the size asks for. -/
def createTexture (r : Recorder) (width height : UInt32) (bytes : Nat) :
    Except Halt (Except Fault Texture × Recorder) := do
  let expected ← Memory.counted (pictureBytes width height)
  if bytes ≠ expected then
    return (.error (.gpu ("expected " ++ toString expected ++ " bytes of RGBA data, got "
      ++ toString bytes)), r)
  else
    let texture : Texture := ⟨r.created + 1⟩
    return (.ok texture, { r with created := r.created + 1, live := texture :: r.live }.record
      (.createTexture texture width.toNat height.toNat))

def releaseTexture (r : Recorder) (texture : Texture) : Recorder :=
  { r with live := r.live.filter (· != texture) }.record (.releaseTexture texture)

end Recorder

end RetainedUi
