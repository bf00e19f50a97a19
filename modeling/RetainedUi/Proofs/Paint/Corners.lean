import RetainedUi.Proofs.Numeral.Whole
import RetainedUi.Proofs.Paint.Reading

/-!
# Where the corners of a quad lie

A quad is the image of the unit square. A corner of the square is moved by the handle of the pen and stretched to the
size of the quad, so that the handle comes to lie at zero. From there it is mapped, and moved to the position of the
quad and by the origin of the pen. The same corner is looked up in the part of the texture that is shown. The color is
that of the quad, or else that of the pen, at all corners.

Scalars are rounded at every step. The place of a corner is exact where nothing has to be rounded: for whole numbers
that are not too large.
-/

namespace RetainedUi

/-! ## Whole numbers in bounds -/

/-- A scalar that is a whole number of no more than a given amount. -/
structure Single.Bounded (x : Float32) (n : Int) (limit : Nat) : Prop where
  stands : Single.Stands x n
  le : n.natAbs ≤ limit

namespace Single.Bounded

variable {x y : Float32} {m n : Int} {k l : Nat}

theorem mono (hx : Bounded x m k) (hkl : k ≤ l) : Bounded x m l := ⟨hx.stands, hx.le.trans hkl⟩

theorem neg (hx : Bounded x m k) : Bounded (-x) (-m) k := ⟨hx.stands.neg, (Int.natAbs_neg m).trans_le hx.le⟩

theorem add (hx : Bounded x m k) (hy : Bounded y n l) (hlimit : k + l < 2 ^ 24) : Bounded (x + y) (m + n) (k + l) := by
  have hle : (m + n).natAbs ≤ k + l := (Int.natAbs_add_le m n).trans (Nat.add_le_add hx.le hy.le)
  exact ⟨hx.stands.add hy.stands (hle.trans_lt hlimit), hle⟩

theorem mul (hx : Bounded x m k) (hy : Bounded y n l) (hlimit : k * l < 2 ^ 24) : Bounded (x * y) (m * n) (k * l) := by
  have hle : (m * n).natAbs ≤ k * l := (Int.natAbs_mul m n).trans_le (Nat.mul_le_mul hx.le hy.le)
  exact ⟨hx.stands.mul hy.stands (hle.trans_lt hlimit), hle⟩

/-- One side of a stretched interval from zero to one, of which some point comes to lie at zero. -/
theorem side {handle size : Float32} {k s : Int} (hhandle : Bounded handle k 4) (hsize : Bounded size s (2 ^ 18))
    (far : Bool) :
    Bounded (cond far (-(handle * size) + size) (-(handle * size))) ((far.toInt - k) * s) (5 * 2 ^ 18) := by
  have hnear : Bounded (-(handle * size)) (-(k * s)) (4 * 2 ^ 18) := (hhandle.mul hsize (by norm_num)).neg
  cases far with
  | false =>
    have hplace : (false.toInt - k) * s = -(k * s) := by simp
    rw [hplace]
    exact hnear.mono (by norm_num)
  | true =>
    have hplace : (true.toInt - k) * s = -(k * s) + s := by
      simp only [Bool.toInt_true]
      ring
    rw [hplace]
    exact hnear.add hsize (by norm_num)

end Single.Bounded

/-- The same for both scalars of a vector. -/
structure Vec.Bounded (v : Vec) (n : Int × Int) (limit : Nat) : Prop where
  x : Single.Bounded v.x n.1 limit
  y : Single.Bounded v.y n.2 limit

namespace Vec.Bounded

variable {u v : Vec} {m n : Int × Int} {k l : Nat}

theorem add (hu : u.Bounded m k) (hv : v.Bounded n l) (hlimit : k + l < 2 ^ 24) :
    (u + v).Bounded (m + n) (k + l) :=
  ⟨hu.x.add hv.x hlimit, hu.y.add hv.y hlimit⟩

/-- The image of a vector of whole numbers. -/
theorem apply {map : LinearMap2} {a b : Int × Int} (hx : map.xAxis.Bounded a k) (hy : map.yAxis.Bounded b k)
    (hv : v.Bounded n l) (hlimit : k * l + k * l < 2 ^ 24) :
    (map.apply v).Bounded (n.1 • a + n.2 • b) (k * l + k * l) := by
  have hpart : k * l < 2 ^ 24 := (Nat.le_add_right _ _).trans_lt hlimit
  have hplace : n.1 • a + n.2 • b = (a.1 * n.1 + b.1 * n.2, a.2 * n.1 + b.2 * n.2) := by
    ext <;> simp [mul_comm]
  rw [hplace]
  exact ⟨(hx.x.mul hv.x hpart).add (hy.x.mul hv.y hpart) hlimit, (hx.y.mul hv.x hpart).add (hy.y.mul hv.y hpart) hlimit⟩

end Vec.Bounded

namespace Quad

/-! ## Corners -/

/-- A corner of the unit square. -/
structure Corner where
  right : Bool
  bottom : Bool
  deriving DecidableEq, Repr

namespace Corner

/-- All corners, from the top left on. -/
def clockwise : List Corner := [⟨false, false⟩, ⟨true, false⟩, ⟨true, true⟩, ⟨false, true⟩]

/-- The point of a rectangle at the corner. -/
def pick (c : Corner) (topLeft bottomRight : Vec) : Vec :=
  ⟨cond c.right bottomRight.x topLeft.x, cond c.bottom bottomRight.y topLeft.y⟩

end Corner

section

variable (q : Quad) (pen : Pen) (map : LinearMap2) (position size : Vec)

/-- The vertex of a quad at a corner. -/
def vertex (c : Corner) : Vertex where
  position := position + pen.origin + map.apply (c.pick (-(pen.handle * size)) (-(pen.handle * size) + size))
  texcoord := c.pick (q.uvMin.getD defaultUvMin) (q.uvMax.getD defaultUvMax)
  color := q.color.getD pen.color

/-- A quad has a vertex at every corner. -/
theorem corners_eq : q.corners pen map position size =
    Corner.clockwise.map (q.vertex pen map position size) := rfl

end

variable {q : Quad} {pen : Pen} {map : LinearMap2} {position size : Vec} {p s o k a b : Int × Int}

theorem Corner.bounded_pick (c : Corner) (hhandle : pen.handle.Bounded k 4) (hsize : size.Bounded s (2 ^ 18)) :
    (c.pick (-(pen.handle * size)) (-(pen.handle * size) + size)).Bounded
      ((c.right.toInt - k.1) * s.1, (c.bottom.toInt - k.2) * s.2) (5 * 2 ^ 18) :=
  ⟨hhandle.x.side hsize.x c.right, hhandle.y.side hsize.y c.bottom⟩

/-- Where nothing has to be rounded, the corners of a quad are those of the unit square: without the handle, stretched
to the size, mapped, and moved. -/
theorem bounded_vertex (hposition : position.Bounded p (2 ^ 18)) (hsize : size.Bounded s (2 ^ 18))
    (horigin : pen.origin.Bounded o (2 ^ 18)) (hhandle : pen.handle.Bounded k 4) (hx : map.xAxis.Bounded a 4)
    (hy : map.yAxis.Bounded b 4) (c : Corner) : (q.vertex pen map position size c).position.Bounded
      (p + o + (((c.right.toInt - k.1) * s.1) • a + ((c.bottom.toInt - k.2) * s.2) • b)) (42 * 2 ^ 18) := by
  have hpoint := c.bounded_pick hhandle hsize
  have hmapped := hx.apply hy hpoint (by norm_num)
  exact (hposition.add horigin (by norm_num)).add hmapped (by norm_num)

/-- A rectangle with a pen at rest. -/
example : ((ofRect (.ofSides 10 20 30 40)).corners .initial .identity ⟨10, 20⟩ ⟨30, 40⟩).map Vertex.position =
    [⟨10, 20⟩, ⟨40, 20⟩, ⟨40, 60⟩, ⟨10, 60⟩] := by
  decide +kernel

end Quad

/-- A quad is shown as two triangles on either side of the line from its top left to its bottom right corner. -/
theorem Painter.triangles_drawn (p : Painter) (texture : Option Texture) (quad : Quad) (position size : Vec) :
    (p.drawn texture quad position size).triangles =
      let vertex := quad.vertex p.pen p.transform.1 position size
      [⟨texture, vertex ⟨false, false⟩, vertex ⟨true, false⟩, vertex ⟨true, true⟩⟩,
        ⟨texture, vertex ⟨true, true⟩, vertex ⟨false, true⟩, vertex ⟨false, false⟩⟩] := rfl

end RetainedUi
