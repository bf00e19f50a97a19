import RetainedUi.Geometry.Vec

/-!
# Linear maps of the plane

A linear map is stored by its columns, the images of the two axes. The order of additions and
multiplications below is part of the meaning, since scalars round after each of them.
-/

namespace RetainedUi

/-- A linear map, given by the images of the x axis and of the y axis. -/
structure LinearMap2 where
  xAxis : Vec
  yAxis : Vec
  deriving DecidableEq, Repr

namespace LinearMap2

def identity : LinearMap2 := ⟨⟨1, 0⟩, ⟨0, 1⟩⟩

/-- Scaling of each axis by its own factor. -/
def scaling (factors : Vec) : LinearMap2 := ⟨⟨factors.x, 0⟩, ⟨0, factors.y⟩⟩

/-- Rotation by an angle in radians, clockwise on the screen since y points down. -/
def rotation (angle : Float32) : LinearMap2 :=
  let sine := angle.sin
  let cosine := angle.cos
  ⟨⟨cosine, sine⟩, ⟨-sine, cosine⟩⟩

/-- The image of a vector. -/
def apply (m : LinearMap2) (v : Vec) : Vec :=
  ⟨m.xAxis.x * v.x + m.yAxis.x * v.y, m.xAxis.y * v.x + m.yAxis.y * v.y⟩

/-- The right map first, then the left one. -/
def compose (m n : LinearMap2) : LinearMap2 := ⟨m.apply n.xAxis, m.apply n.yAxis⟩

end LinearMap2

end RetainedUi
