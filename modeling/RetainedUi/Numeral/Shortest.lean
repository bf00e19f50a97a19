import RetainedUi.Numeral.Single

/-!
# Shortest decimals

The shortest decimal of a finite scalar is the decimal with the fewest digits that still reads back
as that scalar. The reals that read back as a scalar form an interval around it, and a decimal with
fewer digits is a multiple of a larger power of ten. So the search runs over the powers of ten from
above and stops at the first one of which some multiple lies in the interval. Only the two multiples
next to the scalar have to be tried, and of two hits the nearer one is taken, a tie going up.

All arithmetic is exact: the scalar, the ends of the interval and the power of ten are brought to
one denominator and compared as natural numbers.
-/

namespace RetainedUi

/-- A decimal: an integer of significant digits times a power of ten. -/
structure Decimal where
  digits : Nat
  exponent : Int
  deriving DecidableEq, Repr

namespace Decimal

open Single (Parts)

/-- The reals that read back as one scalar, in units of two to the power of scale. The ends belong
to the interval exactly if the significand is even, since a tie is read as the even neighbour. -/
structure Interval where
  low : Nat
  middle : Nat
  high : Nat
  scale : Int
  closed : Bool
  deriving DecidableEq, Repr

/-- The interval of a positive scalar. Below a power of two the neighbours are closer together, so
there the lower end lies at a quarter instead of a half. -/
def Interval.ofParts (p : Parts) : Interval :=
  let belowGap := if p.significand = Single.leadingBit ∧ p.exponent > -149 then 1 else 2
  { low := 4 * p.significand - belowGap
    middle := 4 * p.significand
    high := 4 * p.significand + 2
    scale := p.exponent - 2
    closed := p.significand % 2 = 0 }

/-- The multiple of ten to the exponent that lies in the interval and is nearest to its middle. -/
def Interval.multiple? (i : Interval) (exponent : Int) : Option Nat :=
  let factor := Nat.pow 2 i.scale.toNat * Nat.pow 10 (-exponent).toNat
  let unit := Nat.pow 2 (-i.scale).toNat * Nat.pow 10 exponent.toNat
  let inside (n : Nat) : Bool :=
    let value := n * unit
    if i.closed then i.low * factor ≤ value && value ≤ i.high * factor
    else i.low * factor < value && value < i.high * factor
  let below := i.middle * factor / unit
  let above := below + 1
  match inside below, inside above with
  | false, false => none
  | true, false => some below
  | false, true => some above
  | true, true =>
    if i.middle * factor - below * unit < above * unit - i.middle * factor then some below
    else some above

/-- Tries the powers of ten downwards from the given one. -/
def Interval.search (i : Interval) : Nat → Int → Decimal
  | 0, exponent => ⟨0, exponent⟩
  | tries + 1, exponent =>
    match i.multiple? exponent with
    | some n => ⟨n, exponent⟩
    | none => i.search tries (exponent - 1)

/-- The shortest decimal of the magnitude of a finite scalar. All finite magnitudes lie below ten to
the 39, and every one of them is a multiple of ten to the -149. -/
def shortest (p : Parts) : Decimal :=
  if p.significand = 0 then ⟨0, 0⟩ else (Interval.ofParts p).search 190 39

end Decimal

end RetainedUi
