import RetainedUi.Geometry.Rect
import RetainedUi.Proofs.Numeral.Whole

/-!
# Rectangles with whole coordinates

A rectangle whose coordinates are whole numbers of moderate size is handled without rounding: its edges,
its overlap with another one, the rectangle around two of them and its translations are what they are
over the integers. So questions about such rectangles become questions of linear arithmetic.

What clipping needs is stated on rectangles again: clipping to the bounds of a view leaves nothing or a
part of these bounds, and the rectangle around two parts of the bounds is a part of them.
-/

namespace RetainedUi

/-- A rectangle with whole coordinates. -/
structure Box where
  left : Int
  top : Int
  width : Int
  height : Int
  deriving DecidableEq, Repr

namespace Box

def right (b : Box) : Int := b.left + b.width
def bottom (b : Box) : Int := b.top + b.height

/-- The box with its corner at the origin. -/
def atOrigin (b : Box) : Box := ⟨0, 0, b.width, b.height⟩

/-- The box farther right and down by as much as the corner of another one. -/
def translated (b offset : Box) : Box := { b with left := b.left + offset.left, top := b.top + offset.top }

/-- The overlap, of which no side is shorter than zero. -/
def intersection (a b : Box) : Box where
  left := max a.left b.left
  top := max a.top b.top
  width := max (min a.right b.right - max a.left b.left) 0
  height := max (min a.bottom b.bottom - max a.top b.top) 0

/-- The smallest box around both. -/
def hull (a b : Box) : Box where
  left := min a.left b.left
  top := min a.top b.top
  width := max a.right b.right - min a.left b.left
  height := max a.bottom b.bottom - min a.top b.top

/-- The corner lies at most as far from the origin as the limit says on each axis, and the sides are not
shorter than zero nor longer than the limit. -/
structure Fits (b : Box) (limit : Nat) : Prop where
  left : b.left.natAbs ≤ limit
  top : b.top.natAbs ≤ limit
  width : 0 ≤ b.width ∧ b.width ≤ limit
  height : 0 ≤ b.height ∧ b.height ≤ limit

variable {a b : Box} {limit : Nat}

theorem Fits.mono (h : b.Fits limit) {larger : Nat} (hle : limit ≤ larger) : b.Fits larger where
  left := h.left.trans hle
  top := h.top.trans hle
  width := ⟨h.width.1, h.width.2.trans (by exact_mod_cast hle)⟩
  height := ⟨h.height.1, h.height.2.trans (by exact_mod_cast hle)⟩

theorem Fits.right (h : b.Fits limit) : b.right.natAbs ≤ 2 * limit := by
  have hleft := h.left
  have hwidth := h.width
  unfold Box.right
  omega

theorem Fits.bottom (h : b.Fits limit) : b.bottom.natAbs ≤ 2 * limit := by
  have htop := h.top
  have hheight := h.height
  unfold Box.bottom
  omega

theorem Fits.atOrigin (h : b.Fits limit) : b.atOrigin.Fits limit :=
  ⟨Nat.zero_le limit, Nat.zero_le limit, h.width, h.height⟩

theorem Fits.translated (h : b.Fits limit) {offset : Box} (hoffset : offset.Fits limit) :
    (b.translated offset).Fits (2 * limit) := by
  have hleft := h.left
  have htop := h.top
  have hwidth := h.width
  have hheight := h.height
  have hright := hoffset.left
  have hdown := hoffset.top
  constructor <;> dsimp only [Box.translated] <;> omega

/-- The box lies in the bounds of a view, whose frame is the second box. -/
structure Inside (b frame : Box) : Prop where
  left : 0 ≤ b.left
  top : 0 ≤ b.top
  width : 0 ≤ b.width
  height : 0 ≤ b.height
  right : b.right ≤ frame.width
  bottom : b.bottom ≤ frame.height

theorem Inside.fits {frame : Box} (h : b.Inside frame) (hframe : frame.Fits limit) : b.Fits limit := by
  have hwidth := hframe.width
  have hheight := hframe.height
  obtain ⟨hleft, htop, hw, hh, hright, hbottom⟩ := h
  unfold Box.right at hright
  unfold Box.bottom at hbottom
  constructor <;> omega

end Box

namespace Rect

/-- No edge of the first rectangle lies outside of the second one. -/
structure Within (inner outer : Rect) : Prop where
  left : outer.left ≤ inner.left
  top : outer.top ≤ inner.top
  right : inner.right ≤ outer.right
  bottom : inner.bottom ≤ outer.bottom

/-- The first rectangle is neither wider nor higher than the second one. -/
structure NoLarger (r room : Rect) : Prop where
  width : r.size.x ≤ room.size.x
  height : r.size.y ≤ room.size.y

/-- The coordinates of the rectangle are those of the box. -/
structure Stands (r : Rect) (b : Box) : Prop where
  left : Single.Stands r.origin.x b.left
  top : Single.Stands r.origin.y b.top
  width : Single.Stands r.size.x b.width
  height : Single.Stands r.size.y b.height

/-- The coordinates are whole numbers up to the limit, and no side is shorter than zero. -/
def IsWhole (r : Rect) (limit : Nat) : Prop := ∃ b : Box, r.Stands b ∧ b.Fits limit

theorem IsWhole.mono {r : Rect} {limit larger : Nat} (h : r.IsWhole limit) (hle : limit ≤ larger) :
    r.IsWhole larger := by
  obtain ⟨b, hb, hfits⟩ := h
  exact ⟨b, hb, hfits.mono hle⟩

namespace Stands

variable {r s : Rect} {a b : Box}

/-! ## Geometry over the integers -/

section

variable (hr : r.Stands a) (hs : s.Stands b) (ha : a.Fits (2 ^ 21)) (hb : b.Fits (2 ^ 21))
include hr

theorem isEmpty_iff : r.isEmpty = true ↔ a.width ≤ 0 ∨ a.height ≤ 0 := by
  simp [Rect.isEmpty, hr.width.le_epsilon_iff, hr.height.le_epsilon_iff]

theorem bounds : (r.withOrigin .zero).Stands a.atOrigin :=
  ⟨.zero, .zero, hr.width, hr.height⟩

include ha

theorem right : Single.Stands r.right a.right :=
  hr.left.add hr.width (ha.right.trans_lt (by decide))

theorem bottom : Single.Stands r.bottom a.bottom :=
  hr.top.add hr.height (ha.bottom.trans_lt (by decide))

include hs hb

theorem within_iff : r.Within s ↔
    b.left ≤ a.left ∧ b.top ≤ a.top ∧ a.right ≤ b.right ∧ a.bottom ≤ b.bottom := by
  have hleft : s.left ≤ r.left ↔ b.left ≤ a.left := hs.left.le_iff hr.left
  have htop : s.top ≤ r.top ↔ b.top ≤ a.top := hs.top.le_iff hr.top
  have hright := (hr.right ha).le_iff (hs.right hb)
  have hbottom := (hr.bottom ha).le_iff (hs.bottom hb)
  constructor
  · intro h
    exact ⟨hleft.mp h.left, htop.mp h.top, hright.mp h.right, hbottom.mp h.bottom⟩
  · rintro ⟨h₁, h₂, h₃, h₄⟩
    exact ⟨hleft.mpr h₁, htop.mpr h₂, hright.mpr h₃, hbottom.mpr h₄⟩

theorem intersection : (r.intersection s).Stands (a.intersection b) := by
  have hx : (min a.right b.right - max a.left b.left).natAbs < 2 ^ 24 := by
    have := ha.left; have := hb.left; have := ha.right; have := hb.right
    omega
  have hy : (min a.bottom b.bottom - max a.top b.top).natAbs < 2 ^ 24 := by
    have := ha.top; have := hb.top; have := ha.bottom; have := hb.bottom
    omega
  have hleft := hr.left.larger hs.left
  have htop := hr.top.larger hs.top
  have hright := (hr.right ha).smaller (hs.right hb)
  have hbottom := (hr.bottom ha).smaller (hs.bottom hb)
  exact ⟨hleft, htop, (hright.sub hleft hx).larger .zero, (hbottom.sub htop hy).larger .zero⟩

theorem union (hrs : r.isEmpty = false) (hsr : s.isEmpty = false) : (r.union s).Stands (a.hull b) := by
  have hx : (max a.right b.right - min a.left b.left).natAbs < 2 ^ 24 := by
    have := ha.left; have := hb.left; have := ha.right; have := hb.right
    omega
  have hy : (max a.bottom b.bottom - min a.top b.top).natAbs < 2 ^ 24 := by
    have := ha.top; have := hb.top; have := ha.bottom; have := hb.bottom
    omega
  have hleft := hr.left.smaller hs.left
  have htop := hr.top.smaller hs.top
  have hright := (hr.right ha).larger (hs.right hb)
  have hbottom := (hr.bottom ha).larger (hs.bottom hb)
  unfold Rect.union
  rw [hrs, hsr]
  exact ⟨hleft, htop, hright.sub hleft hx, hbottom.sub htop hy⟩

end

theorem translated (hr : r.Stands a) (hs : s.Stands b) (ha : a.Fits (2 ^ 20)) (hb : b.Fits (2 ^ 20)) :
    (r.translated s.origin).Stands (a.translated b) := by
  have hx : (a.left + b.left).natAbs < 2 ^ 24 := by
    have := ha.left; have := hb.left
    omega
  have hy : (a.top + b.top).natAbs < 2 ^ 24 := by
    have := ha.top; have := hb.top
    omega
  exact ⟨hr.left.add hs.left hx, hr.top.add hs.top hy, hr.width, hr.height⟩

end Stands

/-! ## Parts of the bounds of a frame -/

/-- Nothing is left of the rectangle, or it is a part of the bounds of a view with the frame. -/
def Confined (r frame : Rect) : Prop :=
  r.isEmpty = true ∨ r.IsWhole (2 ^ 20) ∧ r.Within (frame.withOrigin .zero)

section

variable {r s frame room : Rect} {a b : Box}

theorem Stands.within_bounds_iff (hr : r.Stands a) (hframe : frame.Stands b) (ha : a.Fits (2 ^ 20))
    (hb : b.Fits (2 ^ 20)) : r.Within (frame.withOrigin .zero) ↔ a.Inside b := by
  have hright : b.atOrigin.right = b.width := zero_add _
  have hbottom : b.atOrigin.bottom = b.height := zero_add _
  rw [hr.within_iff hframe.bounds (ha.mono (by decide)) (hb.atOrigin.mono (by decide)), hright, hbottom]
  constructor
  · rintro ⟨h₁, h₂, h₃, h₄⟩
    exact ⟨h₁, h₂, ha.width.1, ha.height.1, h₃, h₄⟩
  · intro h
    exact ⟨h.left, h.top, h.right, h.bottom⟩

theorem Stands.confined (hr : r.Stands a) (hframe : frame.Stands b) (hb : b.Fits (2 ^ 20))
    (h : a.Inside b) : r.Confined frame :=
  .inr ⟨⟨a, hr, h.fits hb⟩, (hr.within_bounds_iff hframe (h.fits hb) hb).mpr h⟩

/-- A part of the bounds that is not empty is a box inside. -/
theorem Confined.exists_inside (h : r.Confined frame) (hr : r.isEmpty = false) (hframe : frame.Stands b)
    (hb : b.Fits (2 ^ 20)) : ∃ a : Box, r.Stands a ∧ a.Inside b := by
  obtain hempty | ⟨⟨a, ha, hfits⟩, hwithin⟩ := h
  · rw [hr] at hempty
    cases hempty
  · exact ⟨a, ha, (ha.within_bounds_iff hframe hfits hb).mp hwithin⟩

theorem IsWhole.bounds {limit : Nat} (h : frame.IsWhole limit) : (frame.withOrigin .zero).IsWhole limit := by
  obtain ⟨b, hb, hfits⟩ := h
  exact ⟨b.atOrigin, hb.bounds, hfits.atOrigin⟩

/-- A square at the origin, as large as a small whole number. -/
theorem isWhole_square {side : Float32} {n : Nat} (hside : Single.Stands side n) (hn : n ≤ 2 ^ 20) :
    (Rect.ofSides 0 0 side side).IsWhole (2 ^ 20) := by
  have hlength : 0 ≤ (n : Int) ∧ (n : Int) ≤ (2 ^ 20 : Nat) := ⟨Int.natCast_nonneg n, Int.ofNat_le.mpr hn⟩
  exact ⟨⟨0, 0, n, n⟩, ⟨.zero, .zero, hside, hside⟩, Nat.zero_le _, Nat.zero_le _, hlength, hlength⟩

theorem confined_bounds (hframe : frame.IsWhole (2 ^ 20)) : (frame.withOrigin .zero).Confined frame := by
  obtain ⟨b, hb, hfits⟩ := hframe
  apply hb.bounds.confined hb hfits
  exact ⟨le_rfl, le_rfl, hfits.width.1, hfits.height.1, (zero_add _).le, (zero_add _).le⟩

/-- Clipping to the bounds leaves a part of them. -/
theorem confined_intersection (hr : r.IsWhole (2 ^ 21)) (hframe : frame.IsWhole (2 ^ 20)) :
    (r.intersection (frame.withOrigin .zero)).Confined frame := by
  obtain ⟨a, ha, hafits⟩ := hr
  obtain ⟨b, hb, hbfits⟩ := hframe
  have hclipped := ha.intersection hb.bounds hafits (hbfits.atOrigin.mono (by decide))
  cases hempty : (r.intersection (frame.withOrigin .zero)).isEmpty with
  | true => exact .inl hempty
  | false =>
    have hsides := hclipped.isEmpty_iff.not.mp (by simp [hempty])
    apply hclipped.confined hb hbfits
    simp only [Box.intersection, Box.atOrigin, Box.right, Box.bottom, not_or] at hsides
    constructor <;> simp only [Box.intersection, Box.atOrigin, Box.right, Box.bottom] <;> omega

/-- The rectangle around two parts of the bounds is a part of them. -/
theorem Confined.union (hr : r.Confined frame) (hs : s.Confined frame) (hframe : frame.IsWhole (2 ^ 20)) :
    (r.union s).Confined frame := by
  cases hsempty : s.isEmpty with
  | true => simpa [Rect.union, hsempty] using hr
  | false =>
    cases hrempty : r.isEmpty with
    | true => simpa [Rect.union, hsempty, hrempty] using hs
    | false =>
      obtain ⟨b, hb, hbfits⟩ := hframe
      obtain ⟨a, ha, hainside⟩ := hr.exists_inside hrempty hb hbfits
      obtain ⟨c, hc, hcinside⟩ := hs.exists_inside hsempty hb hbfits
      have hle : 2 ^ 20 ≤ 2 ^ 21 := by decide
      have hunion := ha.union hc ((hainside.fits hbfits).mono hle) ((hcinside.fits hbfits).mono hle)
        hrempty hsempty
      apply hunion.confined hb hbfits
      obtain ⟨hl, ht, hw, hh, hright, hbottom⟩ := hainside
      obtain ⟨hl', ht', hw', hh', hright', hbottom'⟩ := hcinside
      unfold Box.right at hright hright'
      unfold Box.bottom at hbottom hbottom'
      constructor <;> simp only [Box.hull, Box.right, Box.bottom] <;> omega

/-- A part of the bounds is a part of the bounds of every frame with more room. -/
theorem Confined.mono (hr : r.Confined frame) (hframe : frame.IsWhole (2 ^ 20))
    (hroom : room.IsWhole (2 ^ 20)) (hle : frame.NoLarger room) : r.Confined room := by
  cases hempty : r.isEmpty with
  | true => exact .inl hempty
  | false =>
    obtain ⟨b, hb, hbfits⟩ := hframe
    obtain ⟨c, hc, hcfits⟩ := hroom
    obtain ⟨a, ha, hinside⟩ := hr.exists_inside hempty hb hbfits
    have hwidth : b.width ≤ c.width := (hb.width.le_iff hc.width).mp hle.width
    have hheight : b.height ≤ c.height := (hb.height.le_iff hc.height).mp hle.height
    exact ha.confined hc hcfits
      ⟨hinside.left, hinside.top, hinside.width, hinside.height, hinside.right.trans hwidth,
        hinside.bottom.trans hheight⟩

/-- What is passed on to the superview of a region that is not empty. -/
theorem Confined.isWhole_translated (hr : r.Confined frame) (hempty : r.isEmpty = false)
    (hframe : frame.IsWhole (2 ^ 20)) : (r.translated frame.origin).IsWhole (2 ^ 21) := by
  obtain ⟨b, hb, hbfits⟩ := hframe
  obtain ⟨a, ha, hinside⟩ := hr.exists_inside hempty hb hbfits
  have hafits := hinside.fits hbfits
  exact ⟨a.translated b, ha.translated hb hafits hbfits, hafits.translated hbfits⟩

end

end Rect

end RetainedUi
