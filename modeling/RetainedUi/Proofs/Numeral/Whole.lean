import RetainedUi.Proofs.Numeral.Order

/-!
# Whole numbers among the scalars

A scalar has 24 bits of mantissa, so a whole number of that many bits is a scalar, and a sum, a difference
or a product that has no more bits again is exact. Comparisons of such scalars are those of the numbers.
Zero stands for itself with either sign.

Sums and differences are rounded from a mantissa that is brought to the smaller of two exponents. A
whole number keeps its value on this way, whatever the exponent is: the bits that are shifted out are
zeros. What is proved of arithmetic is therefore proved of the scalars taken apart into sign, mantissa and
exponent, and carried over to scalars since no whole number is lost when they are put together again.
-/

namespace RetainedUi.Single

open Float.Model
open Float.Model.UnpackedFloat

/-- Whether a scalar taken apart has the value of a whole number. -/
def hasValue : UnpackedFloat → Int → Bool
  | .zero _, n => n == 0
  | .finite sign mantissa exponent _, n =>
    sign.apply mantissa * 2 ^ exponent.toNat == n * 2 ^ (-exponent).toNat
  | _, _ => false

/-- The scalar is a whole number of at most 24 bits. -/
def Stands (x : Float32) (n : Int) : Prop := n.natAbs < 2 ^ 24 ∧ hasValue x.toModel.unpack n = true

instance (x : Float32) (n : Int) : Decidable (Stands x n) :=
  inferInstanceAs (Decidable (n.natAbs < 2 ^ 24 ∧ hasValue x.toModel.unpack n = true))

/-! ## The normal form -/

/-- A whole number in the form that all operations return: the mantissa has 24 bits. -/
inductive Whole : UnpackedFloat → Int → Prop where
  | zero (sign : Sign) : Whole (.zero sign) 0
  | finite (sign : Sign) {n k : Nat} (hpos : 0 < n * 2 ^ k) (hbits : (n * 2 ^ k).log2 = 23) :
      Whole (.finite sign (n * 2 ^ k) (-k) hpos) (sign.apply n)

@[simp]
theorem natAbs_apply (sign : Sign) (n : Int) : (sign.apply n).natAbs = n.natAbs := by
  cases sign <;> simp [Sign.apply]

theorem apply_mul (sign : Sign) (m n : Int) : sign.apply (m * n) = sign.apply m * n := by
  cases sign <;> simp [Sign.apply]

theorem apply_neg (sign : Sign) (n : Int) : (-sign).apply n = -sign.apply n := by
  cases sign with
  | negative => exact (neg_neg n).symm
  | positive => rfl

theorem apply_mul_apply (s t : Sign) (m n : Int) : s.apply m * t.apply n = (s * t).apply (m * n) := by
  cases s <;> cases t <;> simp [Sign.apply]

theorem log2_mul_two_pow {n : Nat} (hn : n ≠ 0) (k : Nat) : (n * 2 ^ k).log2 = n.log2 + k := by
  obtain ⟨hlow, hhigh⟩ := (Nat.log2_eq_iff hn).mp rfl
  have hpos : 0 < 2 ^ k := Nat.two_pow_pos k
  refine (Nat.log2_eq_iff (Nat.mul_ne_zero hn hpos.ne')).mpr ⟨?_, ?_⟩
  · rw [pow_add]
    exact Nat.mul_le_mul_right _ hlow
  · rw [Nat.add_right_comm, pow_add]
    exact Nat.mul_lt_mul_of_pos_right hhigh hpos

/-! ## Rounding -/

/-- Zeros that are shifted out leave no rounding to do. -/
theorem shiftRight_mul_two_pow (m k : Nat) :
    (ExtendedMantissa.mk (m * 2 ^ k) false false) >>> k = ExtendedMantissa.mk m false false := by
  change k.repeat ExtendedMantissa.shiftRightOne _ = _
  induction k generalizing m with
  | zero => simp [Nat.repeat]
  | succ k ih =>
    have hsplit : m * 2 ^ (k + 1) = m * 2 * 2 ^ k := by ring
    rw [Nat.repeat, hsplit, ih]
    simp [ExtendedMantissa.shiftRightOne]

theorem targetExponent_binary32 (t : Int) : Format.binary32.targetExponent t = max (t - 24) (-149) := rfl

theorem targetExponent_eq {n k : Nat} (hn : n ≠ 0) (hbits : n.log2 ≤ 23) :
    Format.binary32.targetExponent (totalExponent (n * 2 ^ k) (-k)) = n.log2 - 23 := by
  unfold totalExponent
  rw [targetExponent_binary32, log2_mul_two_pow hn]
  omega

/-- A mantissa with enough zeros at its end is cut to 24 bits. -/
theorem shiftToTargetExponent_eq {n j : Nat} (hn : n ≠ 0) (hbits : n.log2 ≤ 23) (hj : 23 - n.log2 ≤ j) :
    shiftToTargetExponent .binary32 (n * 2 ^ j) (-j) .exact =
      (⟨n * 2 ^ (23 - n.log2), false, false⟩, -((23 - n.log2 : Nat) : Int)) := by
  obtain ⟨surplus, rfl⟩ : ∃ surplus, j = 23 - n.log2 + surplus := ⟨j - (23 - n.log2), by omega⟩
  have hamount : ((n.log2 : Int) - 23 - -((23 - n.log2 + surplus : Nat) : Int)).toNat = surplus := by omega
  have hexponent : -((23 - n.log2 + surplus : Nat) : Int) + surplus = -((23 - n.log2 : Nat) : Int) := by
    omega
  unfold shiftToTargetExponent shiftToExponent
  simp only [targetExponent_eq hn hbits, hamount, hexponent, ExtendedMantissa.ofMantissaAndAccuracy]
  rw [pow_add, ← Nat.mul_assoc, shiftRight_mul_two_pow]

/-- Bringing a mantissa with enough zeros to 24 bits is exact. -/
theorem whole_roundWithAccuracy (sign : Sign) {n j : Nat} (hn : n ≠ 0) (hbits : n.log2 ≤ 23)
    (hj : 23 - n.log2 ≤ j) : Whole (roundWithAccuracy .binary32 sign (n * 2 ^ j) (-j) .exact) (sign.apply n) := by
  have hpos : 0 < n * 2 ^ (23 - n.log2) := Nat.mul_pos (Nat.pos_of_ne_zero hn) (Nat.two_pow_pos _)
  have hround : roundWithAccuracy .binary32 sign (n * 2 ^ j) (-j) .exact =
      .finite sign (n * 2 ^ (23 - n.log2)) (-((23 - n.log2 : Nat) : Int)) hpos := by
    unfold roundWithAccuracy
    simp only [shiftToTargetExponent_eq hn hbits hj, ExtendedMantissa.roundedMantissa,
      ExtendedMantissa.accuracy, Accuracy.roundToNearestEven, shiftToTargetExponent_eq hn hbits le_rfl,
      dif_neg hpos.ne']
  rw [hround]
  refine .finite sign hpos ?_
  rw [log2_mul_two_pow hn]
  omega

/-- Rounding a whole number changes its mantissa and exponent only. -/
theorem whole_round (sign : Sign) {n : Nat} (hn : n ≠ 0) (hbits : n.log2 ≤ 23) (k : Nat) :
    Whole (UnpackedFloat.round .binary32 sign (n * 2 ^ k) (-k)) (sign.apply n) := by
  -- If the mantissa has too few bits, zeros are added first. Then all that is left to do is to cut zeros.
  let added := (-(k : Int) - (n.log2 - 23)).toNat
  have hexponent : -(k : Int) - added = -((k + added : Nat) : Int) := by omega
  unfold UnpackedFloat.round decreaseExponent
  simp only [targetExponent_eq hn hbits, Nat.shiftLeft_eq, Nat.mul_assoc, ← pow_add]
  change Whole (roundWithAccuracy _ _ (n * 2 ^ (k + added)) (-(k : Int) - added) _) _
  rw [hexponent]
  exact whole_roundWithAccuracy sign hn hbits (by omega)

theorem whole_normalize {n : Int} (hn : n.natAbs < 2 ^ 24) (k : Nat) :
    Whole (UnpackedFloat.normalize .binary32 (n * 2 ^ k) (-k) .positive) n := by
  have hbits : n.natAbs ≠ 0 → n.natAbs.log2 ≤ 23 := fun hne ↦
    Nat.le_of_lt_succ ((Nat.log2_lt hne).mpr hn)
  have hpow : (0 : Int) < 2 ^ k := Int.pow_pos (by decide)
  unfold UnpackedFloat.normalize
  rcases lt_trichotomy n 0 with hneg | rfl | hpos
  · obtain ⟨m, rfl⟩ : ∃ m : Nat, n = -m := ⟨n.natAbs, by omega⟩
    have hproduct : -(m : Int) * 2 ^ k < 0 := mul_neg_of_neg_of_pos hneg hpow
    have hmantissa : (-(-(m : Int) * 2 ^ k)).toNat = m * 2 ^ k := by
      rw [neg_mul, neg_neg]
      exact_mod_cast Int.toNat_natCast (m * 2 ^ k)
    rw [compare_lt_iff_lt.mpr hproduct, hmantissa]
    exact whole_round .negative (by omega) (by simpa using hbits (by omega)) k
  · simpa using Whole.zero .positive
  · obtain ⟨m, rfl⟩ : ∃ m : Nat, n = m := ⟨n.natAbs, by omega⟩
    have hproduct : (m : Int) * 2 ^ k > 0 := mul_pos hpos hpow
    have hmantissa : ((m : Int) * 2 ^ k).toNat = m * 2 ^ k := by
      exact_mod_cast Int.toNat_natCast (m * 2 ^ k)
    rw [compare_gt_iff_gt.mpr hproduct, hmantissa]
    exact whole_round .positive (by omega) (by simpa using hbits (by omega)) k

/-! ## Sums, differences and products -/

/-- A signed mantissa of a whole number, brought to a smaller exponent. -/
theorem apply_decreaseExponent (sign : Sign) (n : Nat) {k j : Nat} (hkj : k ≤ j) :
    sign.apply (decreaseExponent (n * 2 ^ k) (-k) (-j)).1 = sign.apply n * 2 ^ j := by
  obtain ⟨added, rfl⟩ := Nat.exists_eq_add_of_le hkj
  have hamount : (-(k : Int) - -((k + added : Nat) : Int)).toNat = added := by omega
  unfold decreaseExponent
  simp only [hamount, Nat.shiftLeft_eq, Nat.mul_assoc, ← pow_add]
  rw [← apply_mul]
  push_cast
  rfl

theorem min_neg (k j : Nat) : min (-(k : Int)) (-(j : Int)) = -((max k j : Nat) : Int) := by omega

namespace Whole

variable {a b : UnpackedFloat} {m n : Int}

theorem natAbs_lt (ha : Whole a m) : m.natAbs < 2 ^ 24 := by
  cases ha with
  | zero => decide
  | @finite sign n k hpos hbits =>
    have hlt : n * 2 ^ k < 2 ^ 24 := (Nat.log2_lt hpos.ne').mp (by omega)
    have hle : n ≤ n * 2 ^ k := Nat.le_mul_of_pos_right n (Nat.two_pow_pos k)
    rw [natAbs_apply]
    omega

theorem add (ha : Whole a m) (hb : Whole b n) (hsum : (m + n).natAbs < 2 ^ 24) :
    Whole (UnpackedFloat.add .binary32 a b) (m + n) := by
  cases ha with
  | zero s =>
    cases hb with
    | zero t => cases s <;> cases t <;> exact .zero _
    | finite t hpos hbits => simpa [UnpackedFloat.add] using Whole.finite t hpos hbits
  | @finite s m k hposa hbitsa =>
    cases hb with
    | zero t => simpa [UnpackedFloat.add] using Whole.finite s hposa hbitsa
    | @finite t n j hposb hbitsb =>
      unfold UnpackedFloat.add
      simp only [min_neg, apply_decreaseExponent s m (le_max_left k j),
        apply_decreaseExponent t n (le_max_right k j), ← add_mul]
      exact whole_normalize hsum _

theorem sub (ha : Whole a m) (hb : Whole b n) (hdifference : (m - n).natAbs < 2 ^ 24) :
    Whole (UnpackedFloat.sub .binary32 a b) (m - n) := by
  cases ha with
  | zero s =>
    cases hb with
    | zero t => cases s <;> cases t <;> exact .zero _
    | @finite t n j hpos hbits =>
      rw [zero_sub, ← apply_neg]
      exact .finite (-t) hpos hbits
  | @finite s m k hposa hbitsa =>
    cases hb with
    | zero t => simpa [UnpackedFloat.sub] using Whole.finite s hposa hbitsa
    | @finite t n j hposb hbitsb =>
      unfold UnpackedFloat.sub
      simp only [min_neg, apply_decreaseExponent s m (le_max_left k j),
        apply_decreaseExponent t n (le_max_right k j), ← sub_mul]
      exact whole_normalize hdifference _

theorem neg (ha : Whole a m) : Whole (UnpackedFloat.neg a) (-m) := by
  cases ha with
  | zero sign => exact .zero (-sign)
  | @finite sign m k hpos hbits =>
    rw [← apply_neg]
    exact .finite (-sign) hpos hbits

/-- The product of the mantissas ends in so many zeros that nothing else is cut. -/
theorem mul (ha : Whole a m) (hb : Whole b n) (hproduct : (m * n).natAbs < 2 ^ 24) :
    Whole (UnpackedFloat.mul .binary32 a b) (m * n) := by
  cases ha with
  | zero s =>
    rw [Int.zero_mul]
    cases hb <;> exact .zero _
  | @finite s m k hposa hbitsa =>
    cases hb with
    | zero t =>
      rw [Int.mul_zero]
      exact .zero _
    | @finite t n j hposb hbitsb =>
      have hm : m ≠ 0 := (Nat.pos_of_mul_pos_right hposa).ne'
      have hn : n ≠ 0 := (Nat.pos_of_mul_pos_right hposb).ne'
      rw [log2_mul_two_pow hm] at hbitsa
      rw [log2_mul_two_pow hn] at hbitsb
      rw [apply_mul_apply, natAbs_apply] at hproduct
      have hmn : m * n ≠ 0 := Nat.mul_ne_zero hm hn
      have hbits : (m * n).log2 ≤ 23 := Nat.le_of_lt_succ ((Nat.log2_lt hmn).mpr (by exact_mod_cast hproduct))
      have hzeros : m.log2 + n.log2 ≤ (m * n).log2 := by
        rw [Nat.le_log2 hmn, pow_add]
        exact Nat.mul_le_mul (Nat.log2_self_le hm) (Nat.log2_self_le hn)
      have hmantissa : m * 2 ^ k * (n * 2 ^ j) = m * n * 2 ^ (k + j) := by ring
      have hexponent : -(k : Int) + -(j : Int) = -((k + j : Nat) : Int) := by omega
      change Whole (roundWithAccuracy .binary32 (s * t) (m * 2 ^ k * (n * 2 ^ j)) (-(k : Int) + -(j : Int)) .exact) _
      rw [hmantissa, hexponent, apply_mul_apply]
      exact_mod_cast whole_roundWithAccuracy (s * t) hmn hbits (by omega)

end Whole

/-! ## Comparisons -/

/-- Of two mantissas with 24 bits the exponents decide first. -/
theorem compare_mantissas {m n k j : Nat} (hm : (m * 2 ^ k).log2 = 23) (hn : (n * 2 ^ j).log2 = 23)
    (hmpos : 0 < m) (hnpos : 0 < n) :
    (compare (-(k : Int)) (-(j : Int))).then (compare (m * 2 ^ k) (n * 2 ^ j)) = compare m n := by
  rw [log2_mul_two_pow hmpos.ne'] at hm
  rw [log2_mul_two_pow hnpos.ne'] at hn
  rcases lt_trichotomy k j with hlt | rfl | hgt
  · have hbits : n < 2 ^ m.log2 := (Nat.log2_lt hnpos.ne').mp (by omega)
    have hmn : m > n := hbits.trans_le (Nat.log2_self_le hmpos.ne')
    rw [compare_gt_iff_gt.mpr (by omega), compare_gt_iff_gt.mpr hmn]
    rfl
  · have hpow : 0 < 2 ^ k := Nat.two_pow_pos k
    simp [Nat.compare_eq_ite_lt, hpow]
  · have hbits : m < 2 ^ n.log2 := (Nat.log2_lt hmpos.ne').mp (by omega)
    have hmn : m < n := hbits.trans_le (Nat.log2_self_le hnpos.ne')
    rw [compare_lt_iff_lt.mpr (by omega), compare_lt_iff_lt.mpr hmn]
    rfl

theorem Whole.compare {a b : UnpackedFloat} {m n : Int} (ha : Whole a m) (hb : Whole b n) :
    UnpackedFloat.compare a b = some (compare m n) := by
  cases ha with
  | zero s =>
    cases hb with
    | zero t => rfl
    | @finite t n j hpos hbits =>
      have hn : 0 < n := Nat.pos_of_mul_pos_right hpos
      cases t with
      | negative => exact congrArg some (compare_gt_iff_gt.mpr (by simp [Sign.apply, hn])).symm
      | positive => exact congrArg some (compare_lt_iff_lt.mpr (by simp [Sign.apply, hn])).symm
  | @finite s m k hposa hbitsa =>
    have hm : 0 < m := Nat.pos_of_mul_pos_right hposa
    cases hb with
    | zero t =>
      cases s with
      | negative => exact congrArg some (compare_lt_iff_lt.mpr (by simp [Sign.apply, hm])).symm
      | positive => exact congrArg some (compare_gt_iff_gt.mpr (by simp [Sign.apply, hm])).symm
    | @finite t n j hposb hbitsb =>
      have hn : 0 < n := Nat.pos_of_mul_pos_right hposb
      have hmantissas := compare_mantissas hbitsa hbitsb hm hn
      cases s <;> cases t <;> simp only [UnpackedFloat.compare, hmantissas, Sign.apply, Option.some.injEq]
      · rw [Nat.compare_swap]
        simp [Nat.compare_eq_ite_lt, Int.compare_eq_ite_lt]
      · exact (compare_lt_iff_lt.mpr (by omega)).symm
      · exact (compare_gt_iff_gt.mpr (by omega)).symm
      · simp [Nat.compare_eq_ite_lt, Int.compare_eq_ite_lt]

/-! ## Packing -/

/-- The leading bit that packing leaves out. -/
theorem toNat_leading (mantissa : BitVec 23) : (1#1 ++ mantissa).toNat = 2 ^ 23 + mantissa.toNat := by
  rw [BitVec.toNat_append, ← Nat.shiftLeft_add_eq_or_of_lt mantissa.isLt]
  rfl

/-- Taking apart what was put together from an exponent that marks neither zeros, subnormal numbers nor
what is not finite. -/
theorem unpack_packComponents (sign : Sign) {exponent : Nat} (hlow : 0 < exponent) (hhigh : exponent < 255)
    (mantissa : BitVec 23) (hpos : 0 < 2 ^ 23 + mantissa.toNat) :
    unpack .binary32 (packComponents .binary32 sign (BitVec.ofNat 8 exponent) mantissa) =
      .finite sign (2 ^ 23 + mantissa.toNat) (exponent - 150) hpos := by
  have hexponent : (BitVec.ofNat 8 exponent).toNat = exponent := by
    rw [BitVec.toNat_ofNat, Nat.mod_eq_of_lt (by omega)]
  have hones : BitVec.ofNat 8 exponent ≠ -1#8 := by
    rw [Ne, ← BitVec.toNat_inj, hexponent]
    exact hhigh.ne
  have hzeros : BitVec.ofNat 8 exponent ≠ 0#8 := by
    rw [Ne, ← BitVec.toNat_inj, hexponent]
    exact hlow.ne'
  have hbias : Format.binary32.exponentBias = 127 := by decide
  unfold UnpackedFloat.unpack
  simp only [unpackMantissa_packComponents, unpackExponent_packComponents, unpackSign_packComponents,
    Sign.ofBitVec_toBitVec, if_neg hones, if_neg hzeros, toNat_leading, hexponent, hbias]
  rfl

/-- Nothing is lost of a mantissa with 24 bits whose exponent is neither too small nor too large. -/
theorem unpack_pack_finite (sign : Sign) {m : Nat} {e : Int} (hpos : 0 < m) (hbits : m.log2 = 23) (hlow : -149 ≤ e)
    (hhigh : e ≤ 104) : unpack .binary32 (pack .binary32 (.finite sign m e hpos)) = .finite sign m e hpos := by
  obtain ⟨hleast, hmost⟩ := (Nat.log2_eq_iff hpos.ne').mp hbits
  have hbias : Format.binary32.exponentBias = 127 := by decide
  obtain ⟨biased, rfl⟩ : ∃ biased : Nat, e = biased - 150 := ⟨(e + 150).toNat, by omega⟩
  have hbiased : ((biased : Int) - 150 + (127 : Nat) + (23 : Nat)).toNat = biased := by omega
  have hmantissa : 2 ^ 23 + (BitVec.ofNat 23 m).toNat = m := by
    rw [BitVec.toNat_ofNat]
    omega
  have hpacked : pack .binary32 (.finite sign m (biased - 150) hpos) =
      packComponents .binary32 sign (BitVec.ofNat 8 biased) (BitVec.ofNat 23 m) := by
    unfold UnpackedFloat.pack
    simp only [hbits, hbias, hbiased]
    rw [if_neg (by omega)]
    rfl
  rw [hpacked, unpack_packComponents sign (by omega) (by omega) _ (by omega)]
  congr 1

theorem Whole.unpack_pack {a : UnpackedFloat} {n : Int} (ha : Whole a n) :
    unpack .binary32 (pack .binary32 a) = a := by
  cases ha with
  | zero sign => exact unpack_packedZero
  | @finite sign n k hpos hbits =>
    have hk : n.log2 + k = 23 := by
      rw [← log2_mul_two_pow (Nat.pos_of_mul_pos_right hpos).ne', hbits]
    exact unpack_pack_finite sign hpos hbits (by omega) (by omega)

/-- The mantissa of a finite scalar has 24 bits unless the exponent is the smallest one. -/
theorem mantissa_unpack {bits : BitVec 32} {sign : Sign} {m : Nat} {e : Int} {hpos : 0 < m}
    (h : unpack .binary32 bits = .finite sign m e hpos) :
    m < 2 ^ 24 ∧ (2 ^ 23 ≤ m ∨ e = -149) := by
  have hbias : Format.binary32.exponentBias = 127 := by decide
  have hmantissa : (@unpackMantissa .binary32 bits).toNat < 2 ^ 23 := BitVec.isLt _
  unfold UnpackedFloat.unpack at h
  simp only [hbias] at h
  split_ifs at h with hones hinfinite hsubnormal hzero
  · injection h with hsign hm he
    rw [hsubnormal, BitVec.toNat_zero] at he
    omega
  · injection h with hsign hm he
    have hleading : _ = 2 ^ 23 + (@unpackMantissa .binary32 bits).toNat := toNat_leading _
    omega

/-- The mantissa of a small whole number has 24 bits. -/
theorem whole_of_magnitude {n : Int} {sign : Sign} {m : Nat} {e : Int} {hpos : 0 < m}
    (hbits : n.natAbs < 2 ^ 24) (hhigh : m < 2 ^ 24) (hlow : 2 ^ 23 ≤ m ∨ e = -149)
    (hvalue : sign.apply m * 2 ^ e.toNat = n * 2 ^ (-e).toNat) : Whole (.finite sign m e hpos) n := by
  have hmagnitude : m * 2 ^ e.toNat = n.natAbs * 2 ^ (-e).toNat := by
    simpa [Int.natAbs_mul, Int.natAbs_pow] using congrArg Int.natAbs hvalue
  -- With a positive exponent the number would have more than 24 bits.
  have he : e ≤ 0 := by
    by_contra hlarge
    have hdouble : 2 ^ 1 ≤ 2 ^ e.toNat := Nat.pow_le_pow_right (by decide) (by omega)
    have hsame : m * 2 ^ e.toNat = n.natAbs := by
      rw [hmagnitude, show (-e).toNat = 0 by omega, pow_zero, mul_one]
    have hproduct : m * 2 ^ 1 ≤ m * 2 ^ e.toNat := Nat.mul_le_mul_left m hdouble
    omega
  obtain ⟨k, rfl⟩ : ∃ k : Nat, e = -k := ⟨(-e).toNat, by omega⟩
  obtain rfl : m = n.natAbs * 2 ^ k := by simpa using hmagnitude
  have hsigned : sign.apply n.natAbs = n := by
    have hpow : (2 : Int) ^ k ≠ 0 := (Int.pow_pos (by decide)).ne'
    apply mul_right_cancel₀ hpow
    rw [← apply_mul]
    simpa using hvalue
  have hlow : 2 ^ 23 ≤ n.natAbs * 2 ^ k := by
    rcases hlow with hlow | hsmallest
    · exact hlow
    · -- With the smallest exponent, the mantissa of a whole number would have far more than 24 bits.
      obtain rfl : k = 149 := by omega
      omega
  have hlog : (n.natAbs * 2 ^ k).log2 = 23 := (Nat.log2_eq_iff hpos.ne').mpr ⟨hlow, hhigh⟩
  have hwhole := Whole.finite sign hpos hlog
  rwa [hsigned] at hwhole

theorem Whole.hasValue {a : UnpackedFloat} {n : Int} (h : Whole a n) : hasValue a n = true := by
  cases h with
  | zero sign => rfl
  | @finite sign n k hpos hbits =>
    have hvalue : sign.apply (n * 2 ^ k : Nat) = sign.apply n * 2 ^ k := by
      push_cast
      exact apply_mul sign n (2 ^ k)
    rw [Single.hasValue, hvalue]
    simp

/-- A scalar stands for a whole number exactly if it has the normal form of that number. -/
theorem stands_iff {x : Float32} {n : Int} : Stands x n ↔ Whole x.toModel.unpack n := by
  unfold Stands
  constructor
  · rintro ⟨hbits, hvalue⟩
    cases hx : x.toModel.unpack with
    | infinity sign => simp [hx, Single.hasValue] at hvalue
    | notANumber => simp [hx, Single.hasValue] at hvalue
    | zero sign =>
      obtain rfl : n = 0 := by simpa [hx, Single.hasValue] using hvalue
      exact .zero sign
    | finite sign m e hpos =>
      obtain ⟨hhigh, hlow⟩ := mantissa_unpack hx
      exact whole_of_magnitude hbits hhigh hlow (by simpa [hx, Single.hasValue] using hvalue)
  · intro hwhole
    exact ⟨hwhole.natAbs_lt, hwhole.hasValue⟩

/-! ## Scalars -/

namespace Stands

variable {x y : Float32} {m n : Int}

theorem add (hx : Stands x m) (hy : Stands y n) (hsum : (m + n).natAbs < 2 ^ 24) :
    Stands (x + y) (m + n) := by
  have hwhole := (stands_iff.mp hx).add (stands_iff.mp hy) hsum
  have hunpack : (x + y).toModel.unpack = unpack .binary32
    (pack .binary32 (UnpackedFloat.add .binary32 x.toModel.unpack y.toModel.unpack)) := rfl
  rwa [stands_iff, hunpack, hwhole.unpack_pack]

theorem sub (hx : Stands x m) (hy : Stands y n) (hdifference : (m - n).natAbs < 2 ^ 24) :
    Stands (x - y) (m - n) := by
  have hwhole := (stands_iff.mp hx).sub (stands_iff.mp hy) hdifference
  have hunpack : (x - y).toModel.unpack = unpack .binary32
    (pack .binary32 (UnpackedFloat.sub .binary32 x.toModel.unpack y.toModel.unpack)) := rfl
  rwa [stands_iff, hunpack, hwhole.unpack_pack]

theorem neg (hx : Stands x m) : Stands (-x) (-m) := by
  have hwhole := (stands_iff.mp hx).neg
  have hunpack : (-x).toModel.unpack = unpack .binary32 (pack .binary32 (UnpackedFloat.neg x.toModel.unpack)) := rfl
  rwa [stands_iff, hunpack, hwhole.unpack_pack]

theorem mul (hx : Stands x m) (hy : Stands y n) (hproduct : (m * n).natAbs < 2 ^ 24) :
    Stands (x * y) (m * n) := by
  have hwhole := (stands_iff.mp hx).mul (stands_iff.mp hy) hproduct
  have hunpack : (x * y).toModel.unpack = unpack .binary32
    (pack .binary32 (UnpackedFloat.mul .binary32 x.toModel.unpack y.toModel.unpack)) := rfl
  rwa [stands_iff, hunpack, hwhole.unpack_pack]

theorem lt_iff (hx : Stands x m) (hy : Stands y n) : x < y ↔ m < n := by
  rw [lt_iff_compare, (stands_iff.mp hx).compare (stands_iff.mp hy), Option.some.injEq]
  exact compare_lt_iff_lt

theorem le_iff (hx : Stands x m) (hy : Stands y n) : x ≤ y ↔ m ≤ n := by
  rw [le_iff_compare, (stands_iff.mp hx).compare (stands_iff.mp hy), Option.any_some]
  exact Int.isLE_compare

theorem ne_nan (hx : Stands x m) : x ≠ Float32.nan := by
  have hwhole := stands_iff.mp hx
  rw [Ne, ← unpack_eq_notANumber_iff]
  generalize x.toModel.unpack = a at hwhole
  cases hwhole <;> nofun

theorem larger (hx : Stands x m) (hy : Stands y n) : Stands (larger x y) (max m n) := by
  rw [larger_of_ne_nan hx.ne_nan hy.ne_nan]
  simp only [hx.lt_iff hy]
  split_ifs with hlt
  · rwa [max_eq_right hlt.le]
  · rwa [max_eq_left (not_lt.mp hlt)]

theorem smaller (hx : Stands x m) (hy : Stands y n) : Stands (smaller x y) (min m n) := by
  rw [smaller_of_ne_nan hx.ne_nan hy.ne_nan]
  simp only [hy.lt_iff hx]
  split_ifs with hlt
  · rwa [min_eq_right hlt.le]
  · rwa [min_eq_left (not_lt.mp hlt)]

theorem zero : Stands 0 0 := by decide +kernel

/-- No positive whole number is as small as the gap between one and the next larger scalar. -/
theorem le_epsilon_iff (hx : Stands x m) : x ≤ epsilon ↔ m ≤ 0 := by
  have hepsilon : epsilon.toModel.unpack = .finite .positive (2 ^ 23) (-46) (by decide) := rfl
  have hwhole := stands_iff.mp hx
  rw [le_iff_compare, hepsilon]
  generalize x.toModel.unpack = a at hwhole
  cases hwhole with
  | zero sign => simp [UnpackedFloat.compare]
  | @finite sign n k hpos hbits =>
    have hn : 0 < n := Nat.pos_of_mul_pos_right hpos
    have hk : compare (-(k : Int)) (-46) = .gt := by
      rw [log2_mul_two_pow hn.ne'] at hbits
      exact compare_gt_iff_gt.mpr (by omega)
    cases sign with
    | negative => simp [UnpackedFloat.compare, Sign.apply]
    | positive => simp [UnpackedFloat.compare, Sign.apply, hk, hn.ne']

end Stands

end RetainedUi.Single
