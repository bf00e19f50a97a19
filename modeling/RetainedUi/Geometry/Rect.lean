import RetainedUi.Geometry.Vec

/-!
# Rectangles

An axis-aligned rectangle is an origin, its top left corner, and a size. Containment is half-open,
touching rectangles intersect, and a rectangle with a side of no length is empty: it contributes
nothing to a union. The intersection of disjoint rectangles is empty because its size is cut off at
zero.
-/

namespace RetainedUi

/-- An axis-aligned rectangle in logical pixels. -/
structure Rect where
  origin : Vec
  size : Vec
  deriving DecidableEq, Repr, Inhabited

namespace Rect

/-- Equality of numbers in all four components. -/
instance : BEq Rect where
  beq a b := a.origin == b.origin && a.size == b.size

def zero : Rect := ⟨.zero, .zero⟩

/-- The rectangle with the given left, top, width and height. -/
def ofSides (x y width height : Float32) : Rect := ⟨⟨x, y⟩, ⟨width, height⟩⟩

def left (r : Rect) : Float32 := r.origin.x
def top (r : Rect) : Float32 := r.origin.y
def right (r : Rect) : Float32 := r.origin.x + r.size.x
def bottom (r : Rect) : Float32 := r.origin.y + r.size.y

def withOrigin (r : Rect) (origin : Vec) : Rect := { r with origin }
def withSize (r : Rect) (size : Vec) : Rect := { r with size }
def translated (r : Rect) (offset : Vec) : Rect := { r with origin := r.origin + offset }
def scaled (r : Rect) (factor : Float32) : Rect := ⟨r.origin.scale factor, r.size.scale factor⟩

/-- A side counts as having no length up to the gap after one. -/
def isEmpty (r : Rect) : Bool := r.size.x ≤ Single.epsilon || r.size.y ≤ Single.epsilon

/-- The left and top edges are inside, the right and bottom edges are outside. -/
def contains (r : Rect) (p : Vec) : Bool :=
  r.left ≤ p.x && r.top ≤ p.y && p.x < r.right && p.y < r.bottom

/-- Rectangles that only touch count as intersecting. -/
def intersects (a b : Rect) : Bool :=
  !(b.right < a.left || a.right < b.left || b.bottom < a.top || a.bottom < b.top)

/-- The overlap. On an axis where there is none its size is zero. -/
def intersection (a b : Rect) : Rect :=
  let low := a.origin.larger b.origin
  let high : Vec := ⟨Single.smaller a.right b.right, Single.smaller a.bottom b.bottom⟩
  ⟨low, (high - low).larger .zero⟩

/-- The smallest rectangle around both. An empty one adds nothing. -/
def union (a b : Rect) : Rect :=
  if b.isEmpty then a
  else if a.isEmpty then b
  else
    let low := a.origin.smaller b.origin
    let high : Vec := ⟨Single.larger a.right b.right, Single.larger a.bottom b.bottom⟩
    ⟨low, high - low⟩

/-- The text of a rectangle for people. -/
def text (r : Rect) : String :=
  let spell := Spelling.plain.text
  "(rect " ++ spell r.origin.x ++ " " ++ spell r.origin.y ++ " " ++ spell r.size.x ++ " "
    ++ spell r.size.y ++ ")"

/-- The text of a rectangle as a value. -/
def valueText (r : Rect) : String :=
  "Rect \x7b origin: " ++ r.origin.valueText ++ ", size: " ++ r.size.valueText ++ " \x7d"

end Rect

end RetainedUi
