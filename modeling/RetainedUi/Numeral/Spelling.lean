import RetainedUi.Numeral.Shortest

/-!
# How scalars are written

A spelling says how the digits of a shortest decimal become text. There are two of them: the plain
one writes every number positionally and as short as it gets, and the marked one always shows that
the number is no integer type, by a fraction or by an exponent.
-/

namespace RetainedUi

/-- The decisions that a text of a scalar needs beside its digits. -/
structure Spelling where
  /-- Whether a number without a fraction is given one. -/
  keepsFraction : Bool
  /-- Nonzero magnitudes below the first bound, or not below the second, get an exponent. -/
  scientific : Option (Float32 × Float32)
  deriving Repr

namespace Spelling

/-- Digits before the point, then the fraction if there is one. -/
def positional (s : Spelling) (d : Decimal) : String :=
  let digits := toString d.digits
  if d.exponent ≥ 0 then
    digits ++ "".pushn '0' d.exponent.toNat ++ (if s.keepsFraction then ".0" else "")
  else
    let places := (-d.exponent).toNat
    let padded := "".pushn '0' (places + 1 - digits.length) ++ digits
    let whole := padded.length - places
    String.ofList (padded.toList.take whole) ++ "." ++ String.ofList (padded.toList.drop whole)

/-- One digit before the point, the other digits behind it, and the exponent of ten. -/
def exponential (d : Decimal) : String :=
  let digits := (toString d.digits).toList
  let fraction := digits.drop 1
  let power := d.exponent + fraction.length
  String.ofList (digits.take 1) ++ (if fraction.isEmpty then "" else "." ++ String.ofList fraction)
    ++ "e" ++ toString power

/-- The text of a scalar. The sign is written of zeros too, and of infinities, never of NaN. -/
def text (s : Spelling) (x : Float32) : String :=
  if x.isNaN then "NaN"
  else
    let p := Single.parts x
    let magnitude := x.abs
    let body :=
      if x.isInf then "inf"
      else
        let d := Decimal.shortest p
        match s.scientific with
        | some (least, bound) =>
          if p.significand ≠ 0 ∧ (magnitude < least ∨ bound ≤ magnitude) then exponential d
          else s.positional d
        | none => s.positional d
    if p.negative then "-" ++ body else body

/-- The spelling for texts read by people: as short as it gets, and never an exponent. -/
def plain : Spelling := { keepsFraction := false, scientific := none }

/-- The spelling for the texts of values: always a fraction or an exponent, the latter below 1e-4
and from 1e16 on. -/
def marked : Spelling := { keepsFraction := true, scientific := some (1e-4, 1e16) }

end Spelling

end RetainedUi
