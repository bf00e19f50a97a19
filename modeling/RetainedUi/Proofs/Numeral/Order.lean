import Mathlib
import RetainedUi.Numeral.Single

/-!
# Equality and order of scalars

Scalars are compared as numbers. A NaN compares to nothing and the zeros are equal to each other, so the order is
total only where no NaN is, and the smaller and the larger one of two scalars do not depend on which of them comes
first, up to the sign of zero.

A sum or a difference is a NaN only if one of its sides is one or if infinities meet in it: sums of scalars that are
not negative and differences from a finite scalar are numbers.
-/

namespace RetainedUi.Single

open Float32 (nan)
open Float.Model
open Float.Model.UnpackedFloat

variable {x y : Float32}

/-! ## Taking scalars apart -/

theorem unpack_eq_notANumber_iff : x.toModel.unpack = .notANumber ↔ x = nan := by
  have hnan : x.isNaN = true ↔ x.toModel.unpack = .notANumber := isNaN_iff
  rw [← hnan, Float32.isNaN_eq_decide_eq_nan, decide_eq_true_iff]

/-- Nothing but a NaN is put together to a NaN. -/
theorem pack_ne_packedNaN {u : UnpackedFloat} (hu : u ≠ .notANumber) :
    UnpackedFloat.pack .binary32 u ≠ packedNaN .binary32 := by
  intro hpack
  have hexponent : unpackExponent (UnpackedFloat.pack .binary32 u) = -1#8 := by
    rw [hpack, packedNaN, unpackExponent_packComponents]
  have hmantissa : unpackMantissa (UnpackedFloat.pack .binary32 u) ≠ 0#23 := by
    rw [hpack, packedNaN, unpackMantissa_packComponents]
    decide
  -- What is too large becomes an infinity, which has the exponent of a NaN, but a mantissa of zeros. All else has a
  -- smaller exponent.
  cases u with
  | notANumber => exact hu rfl
  | infinity sign => exact hmantissa unpackMantissa_packComponents
  | zero sign => exact hmantissa unpackMantissa_packComponents
  | finite sign m e hpos =>
    unfold UnpackedFloat.pack at hexponent hmantissa
    dsimp only at hexponent hmantissa
    split_ifs at hexponent hmantissa with hlarge hnormal
    · exact hmantissa unpackMantissa_packComponents
    · rw [unpackExponent_packComponents, ← BitVec.toNat_inj, BitVec.toNat_ofNat] at hexponent
      rw [Nat.mod_eq_of_lt (by omega)] at hexponent
      have hones : (-1#8).toNat = 255 := by decide
      omega
    · rw [unpackExponent_packComponents] at hexponent
      exact absurd hexponent (by decide)

/-- What an operation returns is a NaN only if its result is one before it is put together. -/
theorem ofModel_pack_ne_nan {u : UnpackedFloat} (hu : u ≠ .notANumber) :
    Float32.ofModel (.pack u) ≠ nan := by
  rw [Ne, ← unpack_eq_notANumber_iff]
  exact fun h ↦ pack_ne_packedNaN hu ((unpack_eq_notANumber_iff_of_valid valid_pack).mp h)

/-! ## Comparisons -/

/-- The order of two scalars taken apart, the other way round. -/
theorem compare_swap (u v : UnpackedFloat) :
    UnpackedFloat.compare v u = (UnpackedFloat.compare u v).map Ordering.swap := by
  fun_cases UnpackedFloat.compare u v with
  | case1 v => cases v <;> rfl
  | case3 s t => cases s <;> cases t <;> rfl
  -- In these two cases both numbers have the same sign, so their exponents and mantissas decide.
  | case13 m e hm n k hn => simp [UnpackedFloat.compare, Ordering.swap_then, Int.compare_swap, Nat.compare_swap]
  | case16 m e hm n k hn => simp [UnpackedFloat.compare, Ordering.swap_then, Int.compare_swap, Nat.compare_swap]
  | _ => simp_all [UnpackedFloat.compare]

theorem compare_eq_none_iff (u v : UnpackedFloat) :
    UnpackedFloat.compare u v = none ↔ u = .notANumber ∨ v = .notANumber := by
  fun_cases UnpackedFloat.compare u v <;> simp_all

theorem lt_iff_compare : x < y ↔ UnpackedFloat.compare x.toModel.unpack y.toModel.unpack = some .lt :=
  calc
    x < y ↔ UnpackedFloat.lt x.toModel.unpack y.toModel.unpack = true := decide_eq_true_iff
    _ ↔ _ := beq_iff_eq

theorem le_iff_compare : x ≤ y ↔ (UnpackedFloat.compare x.toModel.unpack y.toModel.unpack).any (·.isLE) = true :=
  decide_eq_true_iff

theorem beq_iff_compare : (x == y) = true ↔ UnpackedFloat.compare x.toModel.unpack y.toModel.unpack = some .eq :=
  calc
    (x == y) = true ↔ UnpackedFloat.beq x.toModel.unpack y.toModel.unpack = true := Iff.rfl
    _ ↔ _ := beq_iff_eq

/-- Two numbers stand in one of three orders. -/
theorem exists_ordering (hx : x ≠ nan) (hy : y ≠ nan) : ∃ order : Ordering,
    (x < y ↔ order = .lt) ∧ ((x == y) = true ↔ order = .eq) ∧ (y < x ↔ order = .gt) ∧ (y ≤ x ↔ order ≠ .lt) := by
  cases horder : UnpackedFloat.compare x.toModel.unpack y.toModel.unpack with
  | none =>
    rw [compare_eq_none_iff, unpack_eq_notANumber_iff, unpack_eq_notANumber_iff] at horder
    exact (horder.elim hx hy).elim
  | some order =>
    refine ⟨order, ?_, ?_, ?_, ?_⟩
    · rw [lt_iff_compare, horder, Option.some.injEq]
    · rw [beq_iff_compare, horder, Option.some.injEq]
    · rw [lt_iff_compare, compare_swap, horder]
      cases order <;> decide
    · rw [le_iff_compare, compare_swap, horder]
      cases order <;> decide

/-- Numbers taken apart that are equal are the same, or zeros. -/
def Agree (u v : UnpackedFloat) : Prop := u = v ∨ ∃ s t, u = .zero s ∧ v = .zero t

theorem agree_of_beq (h : (x == y) = true) : Agree x.toModel.unpack y.toModel.unpack := by
  obtain ⟨-, -, rfl | ⟨rfl, rfl⟩ | ⟨rfl, rfl⟩⟩ := Float32.beq_iff_ne_nan_and_eq.mp h
  · exact .inl rfl
  · exact .inr ⟨.positive, .negative, rfl, rfl⟩
  · exact .inr ⟨.negative, .positive, rfl, rfl⟩

/-- Of equal numbers that are put together, none is a NaN, or both are. -/
theorem Agree.beq {u v : UnpackedFloat} (h : Agree u v) (hu : u ≠ .notANumber) :
    (Float32.ofModel (.pack u) == Float32.ofModel (.pack v)) = true := by
  rcases h with rfl | ⟨s, t, rfl, rfl⟩
  · exact Float32.beq_self_iff.mpr (ofModel_pack_ne_nan hu)
  · cases s <;> cases t <;> decide +kernel

/-- Equal scalars are at most the same scalars. -/
theorem le_congr (h : (x == y) = true) (z : Float32) : x ≤ z ↔ y ≤ z := by
  rw [le_iff_compare, le_iff_compare]
  rcases agree_of_beq h with hsame | ⟨s, t, hx, hy⟩
  · rw [hsame]
  · rw [hx, hy]
    cases z.toModel.unpack with
    | infinity r => cases r <;> rfl
    | finite r m e hm => cases r <;> rfl
    | _ => rfl

/-! ## The smaller and the larger one -/

theorem larger_of_ne_nan (hx : x ≠ nan) (hy : y ≠ nan) : larger x y = if x < y then y else x := by
  simp [larger, hx, hy]

theorem smaller_of_ne_nan (hx : x ≠ nan) (hy : y ≠ nan) : smaller x y = if y < x then y else x := by
  simp [smaller, hx, hy]

theorem larger_eq (hx : x ≠ nan) (hy : y ≠ nan) : larger x y = x ∨ larger x y = y := by
  rw [larger_of_ne_nan hx hy]
  split_ifs <;> simp

theorem smaller_eq (hx : x ≠ nan) (hy : y ≠ nan) : smaller x y = x ∨ smaller x y = y := by
  rw [smaller_of_ne_nan hx hy]
  split_ifs <;> simp

theorem larger_beq_comm (hx : x ≠ nan) (hy : y ≠ nan) : (larger x y == larger y x) = true := by
  obtain ⟨order, hlt, heq, hgt, -⟩ := exists_ordering hx hy
  rw [larger_of_ne_nan hx hy, larger_of_ne_nan hy hx]
  cases order <;> simp_all

theorem smaller_beq_comm (hx : x ≠ nan) (hy : y ≠ nan) : (smaller x y == smaller y x) = true := by
  obtain ⟨order, hlt, heq, hgt, -⟩ := exists_ordering hx hy
  rw [smaller_of_ne_nan hx hy, smaller_of_ne_nan hy hx]
  cases order <;> simp_all

/-- What is cut off at zero is not negative, also where it was a NaN. -/
theorem zero_le_larger (x : Float32) : 0 ≤ larger x 0 := by
  have hzero : (0 : Float32) ≠ nan := by decide +kernel
  by_cases hx : x = nan
  · rw [hx]
    decide +kernel
  · obtain ⟨order, hlt, -, -, hle⟩ := exists_ordering hx hzero
    rw [larger_of_ne_nan hx hzero]
    split_ifs with hneg
    · decide +kernel
    · exact hle.mpr fun heq ↦ hneg (hlt.mpr heq)

/-! ## Sums and differences -/

theorem ne_nan_of_nonneg (hx : 0 ≤ x) : x ≠ nan := by
  rintro rfl
  exact absurd hx (by decide +kernel)

/-- A scalar that is not negative has a positive sign unless it is a zero. -/
inductive Nonneg : UnpackedFloat → Prop where
  | zero (sign : Sign) : Nonneg (.zero sign)
  | finite (m : Nat) (e : Int) (hm : 0 < m) : Nonneg (.finite .positive m e hm)
  | infinity : Nonneg (.infinity .positive)

theorem nonneg_of_zero_le (hx : 0 ≤ x) : Nonneg x.toModel.unpack := by
  have hzero : (0 : Float32).toModel.unpack = .zero .positive := rfl
  rw [le_iff_compare, hzero] at hx
  cases hu : x.toModel.unpack with
  | notANumber => simp [hu, UnpackedFloat.compare] at hx
  | zero s => exact .zero s
  | infinity s =>
    cases s with
    | negative => simp [hu, UnpackedFloat.compare] at hx
    | positive => exact .infinity
  | finite s m e hm =>
    cases s with
    | negative => simp [hu, UnpackedFloat.compare] at hx
    | positive => exact .finite m e hm

theorem normalize_ne_notANumber (format : Format) (m e : Int) (sign : Sign) :
    UnpackedFloat.normalize format m e sign ≠ .notANumber := by
  have hround (sign : Sign) (m : Nat) : UnpackedFloat.round format sign m e ≠ .notANumber := by
    unfold UnpackedFloat.round roundWithAccuracy
    dsimp only
    split <;> simp
  unfold UnpackedFloat.normalize
  split
  · exact hround _ _
  · simp
  · exact hround _ _

theorem add_ne_nan (hx : 0 ≤ x) (hy : 0 ≤ y) : x + y ≠ nan := by
  have hsum : UnpackedFloat.add .binary32 x.toModel.unpack y.toModel.unpack ≠ .notANumber := by
    have hu := nonneg_of_zero_le hx
    have hv := nonneg_of_zero_le hy
    generalize x.toModel.unpack = u at hu
    generalize y.toModel.unpack = v at hv
    cases hu with
    | zero s =>
      cases hv with
      | zero t => cases s <;> cases t <;> nofun
      | _ => nofun
    | finite m e hm =>
      cases hv with
      | finite n k hn => exact normalize_ne_notANumber _ _ _ _
      | _ => nofun
    | infinity => cases hv <;> nofun
  exact ofModel_pack_ne_nan hsum

theorem sub_ne_nan (hx : x ≠ nan) (hy : y.isFinite = true) : x - y ≠ nan := by
  have hdifference : UnpackedFloat.sub .binary32 x.toModel.unpack y.toModel.unpack ≠ .notANumber := by
    have hu := mt unpack_eq_notANumber_iff.mp hx
    change UnpackedFloat.isFinite y.toModel.unpack = true at hy
    generalize x.toModel.unpack = u at hu
    generalize y.toModel.unpack = v at hy
    cases v with
    | notANumber => cases hy
    | infinity t => cases hy
    | zero t =>
      cases u with
      | notANumber => exact (hu rfl).elim
      | zero s => cases s <;> cases t <;> nofun
      | _ => nofun
    | finite t n k hn =>
      cases u with
      | notANumber => exact (hu rfl).elim
      | finite s m e hm => exact normalize_ne_notANumber _ _ _ _
      | _ => nofun
  exact ofModel_pack_ne_nan hdifference

/-- Nothing is above infinity: what lies between an infinite scalar that is not negative and any other one has no
length. -/
theorem isFinite_of_length (hy : 0 ≤ y) (hlength : ¬ larger (x - y) 0 ≤ epsilon) : y.isFinite = true := by
  have hv := nonneg_of_zero_le hy
  change UnpackedFloat.isFinite y.toModel.unpack = true
  cases hunpack : y.toModel.unpack with
  | zero t => rfl
  | finite t n k hn => rfl
  | notANumber =>
    rw [hunpack] at hv
    cases hv
  | infinity t =>
    rw [hunpack] at hv
    obtain rfl : t = .positive := by cases hv; rfl
    have hdifference : UnpackedFloat.sub .binary32 x.toModel.unpack (.infinity .positive) = .notANumber ∨
        UnpackedFloat.sub .binary32 x.toModel.unpack (.infinity .positive) = .infinity .negative := by
      cases x.toModel.unpack with
      | infinity s =>
        cases s with
        | negative => exact .inr rfl
        | positive => exact .inl rfl
      | notANumber => exact .inl rfl
      | _ => exact .inr rfl
    refine (hlength ?_).elim
    change larger (.ofModel (.pack (UnpackedFloat.sub .binary32 x.toModel.unpack y.toModel.unpack))) 0 ≤ epsilon
    rw [hunpack]
    rcases hdifference with hnan | hneg
    · rw [hnan]
      decide +kernel
    · rw [hneg]
      decide +kernel

theorem Agree.sub {u u' v v' : UnpackedFloat} (hu : Agree u u') (hv : Agree v v') :
    Agree (UnpackedFloat.sub .binary32 u v) (UnpackedFloat.sub .binary32 u' v') := by
  have hzeros (s t r q : Sign) : Agree (UnpackedFloat.sub .binary32 (.zero s) (.zero t))
      (UnpackedFloat.sub .binary32 (.zero r) (.zero q)) := by
    right
    cases s <;> cases t <;> cases r <;> cases q <;> exact ⟨_, _, rfl, rfl⟩
  rcases hu with rfl | ⟨s, t, rfl, rfl⟩ <;> rcases hv with rfl | ⟨r, q, rfl, rfl⟩
  · exact .inl rfl
  · cases u with
    | zero s => exact hzeros s r s q
    | _ => exact .inl rfl
  · cases v with
    | zero r => exact hzeros s r t r
    | _ => exact .inl rfl
  · exact hzeros s r t q

theorem sub_congr {x y x' y' : Float32} (hx : (x == x') = true) (hy : (y == y') = true) (hnan : x - y ≠ nan) :
    (x - y == x' - y') = true := by
  refine ((agree_of_beq hx).sub (agree_of_beq hy)).beq fun hdifference ↦ hnan ?_
  change Float32.ofModel (.pack (UnpackedFloat.sub .binary32 x.toModel.unpack y.toModel.unpack)) = nan
  rw [hdifference]
  decide +kernel

end RetainedUi.Single
