import RetainedUi.Numeral.Shortest

/-!
# How scalars are read

A text is read by way of a double. Its digits are taken together as one whole number, as many of them
as a word of 64 bits can tell. That number becomes a double, one product or quotient brings the double
to the power of ten that the text asks for, and the result becomes a scalar. Every step rounds, so a
text close to the middle between two scalars may be read as the one that is farther away.
-/

namespace RetainedUi.Reading

/-- The number that digits with one more digit behind them make, if a word can tell it. -/
def append? (digits : Nat) (c : Char) : Option Nat :=
  let next := digits * 10 + (c.toNat - '0'.toNat)
  if next < UInt64.size then some next else none

/-- Reads the digits before the point behind digits read already. From the first one that a word cannot
tell on, they only count as powers of ten. -/
def whole : List Char → Nat → Decimal
  | [], digits => ⟨digits, 0⟩
  | c :: rest, digits =>
    match append? digits c with
    | some digits => whole rest digits
    | none => ⟨digits, rest.length + 1⟩

/-- Reads the digits behind the point, up to the first one that a word cannot tell. -/
def fraction : List Char → Decimal → Decimal
  | [], d => d
  | c :: rest, d =>
    match append? d.digits c with
    | some digits => fraction rest ⟨digits, d.exponent - 1⟩
    | none => d

/-- The whole number that a nonempty list of digits stands for. -/
def natural? (cs : List Char) : Option Nat :=
  if cs.isEmpty ∨ !cs.all Char.isDigit then none
  else some (cs.foldl (fun n c ↦ n * 10 + (c.toNat - '0'.toNat)) 0)

/-- The power of ten behind the letter that announces it. -/
def power? : List Char → Option Int
  | '-' :: cs => (natural? cs).map fun n ↦ -(n : Int)
  | '+' :: cs => (natural? cs).map fun n ↦ (n : Int)
  | cs => (natural? cs).map fun n ↦ (n : Int)

/-- Reads what follows the digits: nothing, or a power of ten. -/
def scaled? (d : Decimal) : List Char → Option Decimal
  | [] => some d
  | c :: cs =>
    if c = 'e' ∨ c = 'E' then (power? cs).map fun power ↦ { d with exponent := d.exponent + power }
    else none

/-- The decimal that a text without a sign stands for. A point has digits on both sides. -/
def decimal? (cs : List Char) : Option Decimal :=
  let before := cs.takeWhile Char.isDigit
  if before.isEmpty then none
  else
    let d := whole before 0
    match cs.drop before.length with
    | '.' :: cs =>
      let places := cs.takeWhile Char.isDigit
      if places.isEmpty then none else scaled? (fraction places d) (cs.drop places.length)
    | cs => scaled? d cs

/-- The largest power of ten that is a double. -/
def largestPower : Nat := 308

def tenTo (power : Nat) : Float := Float.ofScientific 1 false power

/-- Divides by a power of ten, in several steps if that is no double. Zero ends the steps early. -/
def divided (x : Float) (power : Nat) : Float :=
  if power ≤ largestPower then x / tenTo power
  else if x == 0 then x
  else divided (x / tenTo largestPower) (power - largestPower)
termination_by power
decreasing_by
  have : 0 < largestPower := by decide
  omega

/-- The double of a decimal, unless it is too large for one. -/
def double? (d : Decimal) : Option Float :=
  let x := Float.ofNat d.digits
  if d.exponent < 0 then some (divided x (-d.exponent).toNat)
  else if d.digits = 0 then some x
  else if largestPower < d.exponent.toNat then none
  else
    let product := x * tenTo d.exponent.toNat
    if product.isInf then none else some product

/-- The scalar that a text stands for. The sign is read of zeros too. -/
def scalar? (text : String) : Option Float32 :=
  match text.toList with
  | '-' :: cs => ((decimal? cs).bind double?).map fun x ↦ (-x).toFloat32
  | cs => ((decimal? cs).bind double?).map Float.toFloat32

end RetainedUi.Reading
