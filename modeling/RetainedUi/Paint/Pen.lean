import RetainedUi.Color.Basic
import RetainedUi.Geometry.Matrix

/-!
# The pen

The pen is the part of the drawing state that can be saved and restored. A mask selects the
components that a restore brings back.
-/

namespace RetainedUi

/-- How quads are placed and colored. -/
structure Pen where
  scale : Vec
  /-- Added to the position of every quad. -/
  origin : Vec
  /-- The fixed point of scaling and rotation, from zero to one across the quad. -/
  handle : Vec
  rotation : Float32
  /-- The color of quads that have none of their own. -/
  color : Color
  deriving DecidableEq, Repr

def Pen.initial : Pen := { scale := .one, origin := .zero, handle := .zero, rotation := 0, color := .standard }

/-- A selection of the components of a pen. -/
structure PenMask where
  scale : Bool
  origin : Bool
  handle : Bool
  rotation : Bool
  color : Bool
  deriving DecidableEq, Repr

namespace PenMask

def all : PenMask := ⟨true, true, true, true, true⟩
def none : PenMask := ⟨false, false, false, false, false⟩
def originOnly : PenMask := { none with origin := true }

/-- The components selected by either mask. -/
def union (a b : PenMask) : PenMask :=
  ⟨a.scale || b.scale, a.origin || b.origin, a.handle || b.handle, a.rotation || b.rotation,
    a.color || b.color⟩

/-- The mask as a number, one bit for each component. -/
def bits (m : PenMask) : Nat :=
  m.scale.toNat + 2 * m.origin.toNat + 4 * m.handle.toNat + 8 * m.rotation.toNat + 16 * m.color.toNat

end PenMask

/-- A pen on the stack of saved pens, with the components that are restored from it. -/
structure SavedPen where
  mask : PenMask
  pen : Pen
  deriving DecidableEq, Repr

end RetainedUi
