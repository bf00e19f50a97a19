import RetainedUi.Script.Notebook

/-!
# Painter steps

What each step of the painter does, and what it is told.
-/

namespace RetainedUi.Script.PaintStep

/-- The part of an array between two positions, both cut to its length. -/
def slice {α : Type} (xs : Array α) (first last : Option Nat) : List α :=
  (xs.extract (first.getD 0) (last.getD xs.size)).toList

/-- Draws a quad a number of times, up to the first fault. -/
def repeated (texture : Option Texture) (quad : Quad) : Nat → Painter → Except Fault Unit × Painter
  | 0, p => (.ok (), p)
  | times + 1, p =>
    match p.drawQuad texture quad with
    | (.ok (), p) => repeated texture quad times p
    | (.error fault, p) => (.error fault, p)

mutual

/-- One step. Labels of textures are looked up by the given function. -/
def run (texture? : Option Label → Option Texture) : PaintStep → Painter → Reply × Painter
  | setScale value, p => (.ok, p.setScale value)
  | setOrigin value, p => (.ok, p.setOrigin value)
  | setHandle value, p => (.ok, p.setHandle value)
  | setRotation value, p => (.ok, p.setRotation value)
  | setColor value, p => (.ok, p.setColor value)
  | save mask, p => (.ok, p.save mask)
  | pop, p =>
    match p.pop with
    | .ok p => (.ok, p)
    | .error fault => (.fault fault, p)
  | nested mask steps, p =>
    let depth := p.saved.length
    let p := p.save mask
    let opened := Reply.count p.saved.length
    let (replies, p) := runAll texture? steps p
    (.list (opened :: replies), p.unwind depth)
  | transform, p =>
    let (map, p) := p.transform
    (.many .scalar [map.xAxis.x, map.xAxis.y, map.yAxis.x, map.yAxis.y], p)
  | stageFor texture, p =>
    let (stage, p) := p.stageFor (texture? texture)
    (.count stage, p)
  | quad draft, p =>
    let before := p.vertices.size
    match p.drawQuad (texture? draft.texture) draft.quad with
    | (.ok (), p) => (.many .vertex (slice p.vertices (some before) none), p)
    | (.error fault, p) => (.fault fault, p)
  | quads draft times, p =>
    match repeated (texture? draft.texture) draft.quad times p with
    | (.ok (), p) => (.many .count [p.stages.size, p.vertices.size, p.vertexRoom], p)
    | (.error fault, p) => (.fault fault, p)
  | clear, p => (.ok, p.clear)
  | stages, p => (.many .stage p.stages.toList, p)
  | vertices first last, p => (.many .vertex (slice p.vertices first last), p)
  | faces first last, p => (.many .face (slice p.faces first last), p)
  | info, p => (.painter p, p)

/-- Steps one after the other. -/
def runAll (texture? : Option Label → Option Texture) : List PaintStep → Painter → List Reply × Painter
  | [], p => ([], p)
  | step :: rest, p =>
    let (reply, p) := run texture? step p
    let (replies, p) := runAll texture? rest p
    (reply :: replies, p)

end

end RetainedUi.Script.PaintStep
