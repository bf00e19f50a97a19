/-!
# Single-precision scalars

Every coordinate, angle and color channel is a binary32 number. This module holds the operations
on them that the core library lacks or leaves opaque: the smaller and larger of two scalars with a
rule for NaN, clamping, the byte nearest to a scalar, and the whole number a scalar stands for.
-/

namespace RetainedUi.Single

/-- The gap between one and the next larger scalar. -/
def epsilon : Float32 := Float32.ofBits 0x34000000

/-- The larger of two scalars. A NaN beside a number yields the number. -/
def larger (a b : Float32) : Float32 :=
  if a.isNaN then b else if b.isNaN then a else if a < b then b else a

/-- The smaller of two scalars. A NaN beside a number yields the number. -/
def smaller (a b : Float32) : Float32 :=
  if a.isNaN then b else if b.isNaN then a else if b < a then b else a

/-- A scalar moved into the interval from low to high. A NaN stays a NaN. -/
def clamp (low high x : Float32) : Float32 :=
  let raised := if x < low then low else x
  if high < raised then high else raised

/-- The whole number nearest to a non-negative scalar, a half going up. Below zero and for NaN the
answer is zero, and it stops at the largest 32-bit word. -/
def nearestWord (x : Float32) : UInt32 :=
  let whole := x.toUInt32
  if 0.5 ≤ x - whole.toFloat32 then (if whole = 0xffffffff then whole else whole + 1) else whole

/-- The sign, the integer significand and the binary exponent of a finite scalar: its magnitude is
the significand times two to the exponent. -/
structure Parts where
  negative : Bool
  significand : Nat
  exponent : Int
  deriving DecidableEq, Repr

/-- The leading bit of the significand of a normal number, which its bits leave out. -/
def leadingBit : Nat := 0x800000

/-- Splits the bits of a finite scalar. The exponent field zero marks the subnormal numbers, which
have no implicit leading bit. -/
def parts (x : Float32) : Parts :=
  let bits : Nat := x.toBits.toNat
  let fraction : Nat := bits % leadingBit
  let field : Nat := bits / leadingBit % 0x100
  { negative := 0x80000000 ≤ bits
    significand := if field = 0 then fraction else fraction + leadingBit
    exponent := (if field = 0 then 1 else (field : Int)) - 150 }

/-- The whole number that a scalar stands for, if it is one of magnitude at most 2 ^ 24. Negative
zero is none of them, since no whole number has its sign. -/
def wholeNumber? (x : Float32) : Option Int :=
  if !x.isFinite then none
  else
    let p := parts x
    let magnitude? : Option Nat :=
      if p.exponent ≥ 0 then some (p.significand * Nat.pow 2 p.exponent.toNat)
      else
        let unit := Nat.pow 2 (-p.exponent).toNat
        if p.significand % unit = 0 then some (p.significand / unit) else none
    match magnitude? with
    | none => none
    | some magnitude =>
      if 2 * leadingBit < magnitude then none
      else if p.negative then (if magnitude = 0 then none else some (-(magnitude : Int)))
      else some magnitude

end RetainedUi.Single
