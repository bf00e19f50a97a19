import RetainedUi.Paint.Painter

/-!
# Flushing

A flush sends the collected quads to a device. The arrays are uploaded only if a quad was drawn since
the last upload, into buffers that grow like the arrays do. Then every stage that has triangles is
drawn by one call with its texture bound, and the texture that was bound before is bound again.

A refused allocation ends the flush. What was done until then stays done.
-/

namespace RetainedUi

/-- What a flush works on. -/
structure Submission where
  painter : Painter
  recorder : Recorder
  notes : List Note

namespace Submission

/-- A step of a flush, which ends at a fault. -/
abbrev Step := EStateM Fault Submission Unit

/-- The size of the painter's buffer on the device. -/
def bufferSize (p : Painter) : BufferKind → Nat
  | .vertex => p.vertexBuffer
  | .index => p.indexBuffer

def setBufferSize (p : Painter) (kind : BufferKind) (size : Nat) : Painter :=
  match kind with
  | .vertex => { p with vertexBuffer := size }
  | .index => { p with indexBuffer := size }

/-- Allocates a larger buffer if the data does not fit into the one there is. -/
def ensureBuffer (refusal : Refusal) (kind : BufferKind) (needed : Nat) : Step := do
  let s ← get
  let size := Batch.grownRoom (bufferSize s.painter kind) needed
  if size = bufferSize s.painter kind then return
  match refusal kind with
  | some reason => throw (.gpu reason)
  | none =>
    set { s with recorder := s.recorder.allocate kind size, painter := setBufferSize s.painter kind size }

def upload (kind : BufferKind) (data : ByteArray) : Step := modify fun s ↦
  let (recorder, notes) := s.recorder.upload kind 0 data
  { s with recorder, notes := s.notes ++ notes }

/-- Uploads both arrays. -/
def send (refusal : Refusal) : Step := do
  let vertexData := Batch.vertexBytes (← get).painter.vertices
  let indexData := Batch.faceBytes (← get).painter.faces
  ensureBuffer refusal .vertex vertexData.size
  ensureBuffer refusal .index indexData.size
  upload .vertex vertexData
  upload .index indexData
  modify fun s ↦ { s with painter := { s.painter with unsent := false } }

/-- The calls that draw one stage. A stage without triangles needs none. -/
def drawStage (r : Recorder) (s : Stage) : Recorder :=
  if s.faces = 0 then r
  else (r.bindTexture s.texture).draw (s.baseFace * 3) (s.faces * 3) s.baseVertex

/-- Draws all stages and binds the former texture again. -/
def drawStages (r : Recorder) (stages : Array Stage) : Recorder :=
  if stages.isEmpty then r else (stages.foldl drawStage r).bindTexture r.bound

def run (refusal : Refusal) : Step := do
  if (← get).painter.unsent then send refusal
  modify fun s ↦ { s with recorder := drawStages s.recorder s.painter.stages }

end Submission

/-- Sends the collected quads to a device that refuses some allocations. -/
def Painter.flush (p : Painter) (refusal : Refusal) (r : Recorder) : Except Fault Unit × Submission :=
  match Submission.run refusal ⟨p, r, []⟩ with
  | .ok _ s => (.ok (), s)
  | .error fault s => (.error fault, s)

end RetainedUi
