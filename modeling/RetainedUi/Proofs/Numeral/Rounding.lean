import RetainedUi.Proofs.Numeral.Whole

/-!
# Rounding to the nearest scalar

A product or a quotient of two scalars is a scalar by chance only. What an operation returns is a scalar next to the
exact number. It is off by at most half of its last bit, which is at most the 2 ^ 24th part of it.

A number is cut off behind the mantissa that it is to have, and two bits are kept of what was cut off. They tell on
which side of the middle between two mantissas the number lies. A shift preserves what they tell, and it is all that
has to be known to round.

Only positive numbers far from the smallest and the largest scalars are looked at here. Nothing is lost of their
results when they are put together.
-/

namespace RetainedUi.Single

open Float.Model
open Float.Model.UnpackedFloat

/-! ## What is cut off -/

section

variable {em : ExtendedMantissa} {x : ℚ}

/-- Whether a mantissa with two bits is what is left of a number. -/
def IsCut (em : ExtendedMantissa) (x : ℚ) : Prop :=
  match em.roundBit, em.stickyBit with
  | false, false => x = em.mantissa
  | false, true => em.mantissa < x ∧ x < em.mantissa + 1 / 2
  | true, false => x = em.mantissa + 1 / 2
  | true, true => em.mantissa + 1 / 2 < x ∧ x < em.mantissa + 1

theorem isCut_exact (m : Nat) : IsCut (.ofMantissaAndAccuracy m .exact) m := rfl

/-- The remainder of a division tells the two bits. -/
theorem isCut_div (m : Nat) {n : Nat} (hn : 0 < n) :
    IsCut (.ofMantissaAndAccuracy (m / n) (accuracyOfFraction (m % n) n)) (m / n) := by
  have hpos : (0 : ℚ) < n := by exact_mod_cast hn
  have hsplit : (m : ℚ) / n = (m / n : Nat) + (m % n : Nat) / n := by
    rw [eq_comm, ← mul_left_inj' hpos.ne', add_mul, div_mul_cancel₀ _ hpos.ne', div_mul_cancel₀ _ hpos.ne']
    exact_mod_cast Nat.div_add_mod' m n
  have hless : ((m % n : Nat) : ℚ) / n < 1 := by
    rw [div_lt_one hpos]
    exact_mod_cast Nat.mod_lt m hn
  rw [hsplit]
  unfold accuracyOfFraction
  split_ifs with hzero
  · simp [hzero, IsCut, ExtendedMantissa.ofMantissaAndAccuracy]
  · have hrest : (0 : ℚ) < ((m % n : Nat) : ℚ) / n := by
      apply div_pos _ hpos
      exact_mod_cast Nat.pos_of_ne_zero hzero
    rcases lt_trichotomy (2 * (m % n)) n with hlt | heq | hgt
    · have hhalf : ((m % n : Nat) : ℚ) / n < 1 / 2 := by
        rw [div_lt_div_iff₀ hpos two_pos]
        exact_mod_cast (by omega : m % n * 2 < 1 * n)
      rw [compare_lt_iff_lt.mpr hlt]
      exact ⟨lt_add_of_pos_right _ hrest, by dsimp only [ExtendedMantissa.ofMantissaAndAccuracy]; linarith⟩
    · have hhalf : ((m % n : Nat) : ℚ) / n = 1 / 2 := by
        rw [div_eq_div_iff hpos.ne' two_ne_zero]
        exact_mod_cast (by omega : m % n * 2 = 1 * n)
      rw [compare_eq_iff_eq.mpr heq, hhalf]
      rfl
    · have hhalf : (1 / 2 : ℚ) < ((m % n : Nat) : ℚ) / n := by
        rw [div_lt_div_iff₀ two_pos hpos]
        exact_mod_cast (by omega : 1 * n < m % n * 2)
      rw [compare_gt_iff_gt.mpr hgt]
      constructor <;> dsimp only [ExtendedMantissa.ofMantissaAndAccuracy] <;> linarith

namespace IsCut

theorem shiftRightOne (h : IsCut em x) : IsCut em.shiftRightOne (x / 2) := by
  obtain ⟨m, roundBit, stickyBit⟩ := em
  obtain ⟨half, rfl | rfl⟩ := Nat.even_or_odd' m
  · have hshift : 2 * half / 2 = half ∧ (2 * half % 2 != 0) = false := by simp
    cases roundBit <;> cases stickyBit <;>
      simp only [IsCut, ExtendedMantissa.shiftRightOne, hshift, Bool.or_false, Bool.or_true] at h ⊢ <;>
      push_cast at h
    · linarith
    · constructor <;> linarith
    · constructor <;> linarith
    · constructor <;> linarith
  · -- The last bit is the first one that is cut off now, so the number is not below the middle.
    have hshift : (2 * half + 1) / 2 = half ∧ ((2 * half + 1) % 2 != 0) = true := by
      constructor
      · omega
      · simp
    cases roundBit <;> cases stickyBit <;>
      simp only [IsCut, ExtendedMantissa.shiftRightOne, hshift, Bool.or_false, Bool.or_true] at h ⊢ <;>
      push_cast at h
    · linarith
    · constructor <;> linarith
    · constructor <;> linarith
    · constructor <;> linarith

theorem shiftRight (h : IsCut em x) (k : Nat) : IsCut (em >>> k) (x / 2 ^ k) := by
  change IsCut (k.repeat ExtendedMantissa.shiftRightOne em) _
  induction k with
  | zero => simpa [Nat.repeat] using h
  | succ k ih =>
    rw [Nat.repeat, pow_succ, ← div_div]
    exact ih.shiftRightOne

theorem le_and_lt (h : IsCut em x) : (em.mantissa : ℚ) ≤ x ∧ x < em.mantissa + 1 := by
  obtain ⟨m, roundBit, stickyBit⟩ := em
  cases roundBit <;> cases stickyBit <;> simp only [IsCut] at h ⊢ <;> constructor <;> linarith

/-- The mantissa is what is left of the number as a whole number. -/
theorem floor_eq (h : IsCut em x) : ⌊x⌋₊ = em.mantissa := by
  obtain ⟨hle, hlt⟩ := h.le_and_lt
  exact (Nat.floor_eq_iff ((Nat.cast_nonneg _).trans hle)).mpr ⟨hle, hlt⟩

/-- A rounded mantissa is off by half of its last bit at most. -/
theorem abs_roundedMantissa_sub_le (h : IsCut em x) : |(em.roundedMantissa : ℚ) - x| ≤ 1 / 2 := by
  obtain ⟨m, roundBit, stickyBit⟩ := em
  rw [abs_le]
  cases roundBit <;> cases stickyBit <;>
    simp only [IsCut, ExtendedMantissa.roundedMantissa, ExtendedMantissa.accuracy,
      Accuracy.roundToNearestEven] at h ⊢
  · constructor <;> linarith
  · constructor <;> linarith
  · -- In the middle the even one of the two mantissas is taken, and both are as far.
    obtain hbit | hbit := Nat.mod_two_eq_zero_or_one m <;> rw [hbit] <;> push_cast <;> constructor <;> linarith
  · push_cast
    constructor <;> linarith

end IsCut

theorem mantissa_le_roundedMantissa (em : ExtendedMantissa) :
    em.mantissa ≤ em.roundedMantissa ∧ em.roundedMantissa ≤ em.mantissa + 1 := by
  obtain ⟨m, roundBit, stickyBit⟩ := em
  cases roundBit <;> cases stickyBit <;>
    simp only [ExtendedMantissa.roundedMantissa, ExtendedMantissa.accuracy, Accuracy.roundToNearestEven] <;> omega

end

/-! ## Normal scalars -/

/-- A positive scalar taken apart whose mantissa has 24 bits, and the number it stands for. -/
inductive Normal : UnpackedFloat → ℚ → Prop where
  | finite {m : Nat} {e : Int} (hpos : 0 < m) (hbits : m.log2 = 23) (hlow : -149 ≤ e) (hhigh : e ≤ 104) :
      Normal (.finite .positive m e hpos) (m * 2 ^ e)

/-- Numbers that are far from the smallest and the largest scalars. -/
def Moderate (x : ℚ) : Prop := 2 ^ (-100 : Int) ≤ x ∧ x ≤ 2 ^ (100 : Int)

/-- Whether a scalar taken apart is a number, rounded. -/
def Rounded (x : ℚ) (u : UnpackedFloat) : Prop := ∃ v, Normal u v ∧ |v - x| ≤ v / 2 ^ 24

theorem two_zpow_pos (e : Int) : (0 : ℚ) < 2 ^ e := zpow_pos two_pos e

/-- A number that a mantissa is left of tells the exponent of the mantissa's leading bit. -/
theorem Moderate.exponent {x : ℚ} (hx : Moderate x) {m : Nat} {e : Int} (hm : m ≠ 0) (hle : (m : ℚ) ≤ x / 2 ^ e)
    (hlt : x / 2 ^ e < m + 1) : -101 ≤ m.log2 + e ∧ m.log2 + e ≤ 100 := by
  obtain ⟨hlow, hhigh⟩ := (Nat.log2_eq_iff hm).mp rfl
  have hleading : (2 : ℚ) ^ (m.log2 + e : Int) ≤ x := by
    rw [zpow_add₀ two_ne_zero, zpow_natCast, ← le_div_iff₀ (two_zpow_pos e)]
    exact (by exact_mod_cast hlow : (2 : ℚ) ^ m.log2 ≤ m).trans hle
  have habove : x < (2 : ℚ) ^ (m.log2 + 1 + e : Int) := by
    rw [zpow_add₀ two_ne_zero, ← div_lt_iff₀ (two_zpow_pos e)]
    exact hlt.trans_le (by exact_mod_cast hhigh)
  have hmost := (zpow_le_zpow_iff_right₀ one_lt_two).mp (hleading.trans hx.2)
  have hleast := (zpow_lt_zpow_iff_right₀ one_lt_two).mp (hx.1.trans_lt habove)
  omega

/-! ## Rounding -/

/-- A mantissa with bits enough is cut to 24 of them. -/
theorem shiftToTargetExponent_of_bits {m k : Nat} {e : Int} (hbits : m.log2 = 23 + k) (hlow : -149 ≤ e + k)
    (accuracy : Accuracy) : shiftToTargetExponent .binary32 m e accuracy =
      (ExtendedMantissa.ofMantissaAndAccuracy m accuracy >>> k, e + k) := by
  have hamount : (max (m.log2 + 1 + e - 24) (-149) - e).toNat = k := by omega
  unfold shiftToTargetExponent shiftToExponent totalExponent
  simp only [targetExponent_binary32, hamount]

/-- A rounded mantissa may have been carried over to one more bit, which is a zero then. -/
theorem normal_of_mantissa {m : Nat} {e : Int} (hleast : 2 ^ 23 ≤ m) (hmost : m ≤ 2 ^ 24) (hlow : -149 ≤ e)
    (hhigh : e ≤ 103) : ∃ n f, ∃ hpos : 0 < n,
      shiftToTargetExponent .binary32 m e .exact = (⟨n, false, false⟩, f) ∧
        Normal (.finite .positive n f hpos) (m * 2 ^ e) := by
  rcases hmost.lt_or_eq with hless | rfl
  · have hbits : m.log2 = 23 + 0 := (Nat.log2_eq_iff (by omega)).mpr ⟨hleast, hless⟩
    have hshift := shiftToTargetExponent_of_bits (e := e) hbits (by omega) .exact
    rw [Nat.cast_zero, add_zero] at hshift
    exact ⟨m, e, by omega, hshift, .finite _ hbits hlow (by omega)⟩
  · have hbits : (2 ^ 24).log2 = 23 + 1 := Nat.log2_two_pow
    have hshift := shiftToTargetExponent_of_bits (e := e) hbits (by omega) .exact
    have hcut : ExtendedMantissa.ofMantissaAndAccuracy (2 ^ 24) .exact >>> 1 = ⟨2 ^ 23, false, false⟩ := by
      rw [show (2 : Nat) ^ 24 = 2 ^ 23 * 2 ^ 1 by norm_num]
      exact shiftRight_mul_two_pow (2 ^ 23) 1
    have hvalue : ((2 ^ 24 : Nat) : ℚ) * 2 ^ e = ((2 ^ 23 : Nat) : ℚ) * 2 ^ (e + 1) := by
      rw [zpow_add_one₀ two_ne_zero]
      push_cast
      ring
    rw [hcut, Nat.cast_one] at hshift
    refine ⟨2 ^ 23, e + 1, by decide, hshift, ?_⟩
    rw [hvalue]
    exact .finite _ Nat.log2_two_pow (by omega) (by omega)

section

variable {m k : Nat} {e : Int} {accuracy : Accuracy} {x : ℚ}

theorem ne_zero_of_bits (hbits : m.log2 = 23 + k) : m ≠ 0 := by
  rintro rfl
  rw [Nat.log2_zero] at hbits
  omega

theorem mantissa_ofMantissaAndAccuracy (m : Nat) (accuracy : Accuracy) :
    (ExtendedMantissa.ofMantissaAndAccuracy m accuracy).mantissa = m := by
  cases accuracy with
  | exact => rfl
  | inexact order => cases order <;> rfl

/-- Cutting leaves as many bits as it should, of which rounding may make one more. -/
theorem IsCut.roundedMantissa_shiftRight (h : IsCut (.ofMantissaAndAccuracy m accuracy) x)
    (hbits : m.log2 = 23 + k) :
    let em := ExtendedMantissa.ofMantissaAndAccuracy m accuracy >>> k
    2 ^ 23 ≤ em.roundedMantissa ∧ em.roundedMantissa ≤ 2 ^ 24 := by
  intro em
  have hkept : em.mantissa = m / 2 ^ k := by
    have hpower : x / 2 ^ k = x / (2 ^ k : Nat) := by rw [Nat.cast_pow, Nat.cast_ofNat]
    rw [← (h.shiftRight k).floor_eq, hpower, Nat.floor_div_natCast, h.floor_eq, mantissa_ofMantissaAndAccuracy]
  have hleast : 2 ^ 23 ≤ m / 2 ^ k := by
    rw [Nat.le_div_iff_mul_le (Nat.two_pow_pos k), ← pow_add, ← hbits]
    exact Nat.log2_self_le (ne_zero_of_bits hbits)
  have hmost : m / 2 ^ k < 2 ^ 24 := by
    rw [Nat.div_lt_iff_lt_mul (Nat.two_pow_pos k), ← pow_add, show 24 + k = m.log2 + 1 by omega]
    exact Nat.lt_log2_self
  have hrounded := mantissa_le_roundedMantissa em
  omega

/-- What is rounded to 24 bits is off by at most half of the last one. -/
theorem rounded_roundWithAccuracy (hcut : IsCut (.ofMantissaAndAccuracy m accuracy) (x / 2 ^ e))
    (hbits : 23 ≤ m.log2) (hx : Moderate x) : Rounded x (roundWithAccuracy .binary32 .positive m e accuracy) := by
  obtain ⟨k, hk⟩ : ∃ k, m.log2 = 23 + k := ⟨m.log2 - 23, by omega⟩
  have hwindow := hcut.le_and_lt
  rw [mantissa_ofMantissaAndAccuracy] at hwindow
  obtain ⟨hlow, hhigh⟩ := hx.exponent (ne_zero_of_bits hk) hwindow.1 hwindow.2
  have hfirst := shiftToTargetExponent_of_bits (e := e) hk (by omega) accuracy
  have herror := (hcut.shiftRight k).abs_roundedMantissa_sub_le
  obtain ⟨hleast, hmost⟩ := hcut.roundedMantissa_shiftRight hk
  generalize (ExtendedMantissa.ofMantissaAndAccuracy m accuracy >>> k) = em at hfirst herror hleast hmost
  obtain ⟨n, f, hpos, hcarried, hnormal⟩ := normal_of_mantissa (e := e + k) hleast hmost (by omega) (by omega)
  have hround : roundWithAccuracy .binary32 .positive m e accuracy = .finite .positive n f hpos := by
    unfold roundWithAccuracy
    simp only [hfirst, hcarried, dif_neg hpos.ne']
  have hpower : (2 : ℚ) ^ (e + k : Int) = 2 ^ e * 2 ^ k := by rw [zpow_add₀ two_ne_zero, zpow_natCast]
  have hunit : (0 : ℚ) < 2 ^ e * 2 ^ k := mul_pos (two_zpow_pos e) (pow_pos two_pos k)
  have hlarge : (2 : ℚ) ^ 23 ≤ em.roundedMantissa := by exact_mod_cast hleast
  rw [hround]
  refine ⟨em.roundedMantissa * 2 ^ (e + k : Int), hnormal, ?_⟩
  rw [hpower]
  calc
    |em.roundedMantissa * (2 ^ e * 2 ^ k) - x| = |em.roundedMantissa - x / 2 ^ e / 2 ^ k| * (2 ^ e * 2 ^ k) := by
      rw [← abs_of_pos hunit, ← abs_mul, abs_of_pos hunit, sub_mul, div_div, div_mul_cancel₀ _ hunit.ne']
    _ ≤ 1 / 2 * (2 ^ e * 2 ^ k) := by gcongr
    _ = 2 ^ 23 * (2 ^ e * 2 ^ k) / 2 ^ 24 := by ring
    _ ≤ em.roundedMantissa * (2 ^ e * 2 ^ k) / 2 ^ 24 := by gcongr

end

/-! ## Products, quotients and differences -/

section

variable {m n : Nat} {e f : Int}

theorem pow_le_of_bits (hbits : m.log2 = 23) : 2 ^ 23 ≤ m ∧ m < 2 ^ 24 := by
  have hm : m ≠ 0 := ne_zero_of_bits (k := 0) hbits
  exact (Nat.log2_eq_iff hm).mp hbits

/-- Of two mantissas with 24 bits the exponents decide first. -/
theorem value_lt_value (hm : m.log2 = 23) (hn : n.log2 = 23) (hlt : e < f) : (m : ℚ) * 2 ^ e < n * 2 ^ f := by
  have hless : (m : ℚ) < 2 ^ 24 := by exact_mod_cast (pow_le_of_bits hm).2
  have hleast : (2 : ℚ) ^ 23 ≤ n := by exact_mod_cast (pow_le_of_bits hn).1
  calc
    (m : ℚ) * 2 ^ e < 2 ^ 24 * 2 ^ e := mul_lt_mul_of_pos_right hless (two_zpow_pos e)
    _ = 2 ^ 23 * 2 ^ (e + 1) := by
      rw [zpow_add_one₀ two_ne_zero]
      ring
    _ ≤ 2 ^ 23 * 2 ^ f := by
      gcongr
      · exact one_le_two
      · exact hlt
    _ ≤ n * 2 ^ f := by gcongr

/-- Exponents and mantissas are compared as the values are. -/
theorem compare_values (hm : m.log2 = 23) (hn : n.log2 = 23) :
    (compare e f).then (compare m n) = compare ((m : ℚ) * 2 ^ e) (n * 2 ^ f) := by
  rcases lt_trichotomy e f with hlt | rfl | hgt
  · rw [compare_lt_iff_lt.mpr hlt, compare_lt_iff_lt.mpr (value_lt_value hm hn hlt)]
    rfl
  · rw [compare_eq_iff_eq.mpr rfl, Ordering.eq_then]
    have hunit := two_zpow_pos e
    rcases lt_trichotomy m n with hless | rfl | hmore
    · have hvalue : (m : ℚ) * 2 ^ e < n * 2 ^ e := mul_lt_mul_of_pos_right (by exact_mod_cast hless) hunit
      rw [compare_lt_iff_lt.mpr hless, compare_lt_iff_lt.mpr hvalue]
    · rw [compare_eq_iff_eq.mpr rfl, compare_eq_iff_eq.mpr rfl]
    · have hvalue : (n : ℚ) * 2 ^ e < m * 2 ^ e := mul_lt_mul_of_pos_right (by exact_mod_cast hmore) hunit
      rw [compare_gt_iff_gt.mpr hmore, compare_gt_iff_gt.mpr hvalue]
  · rw [compare_gt_iff_gt.mpr hgt, compare_gt_iff_gt.mpr (value_lt_value hn hm hgt)]
    rfl

/-- A quotient has 24 bits or one more before it is rounded. -/
theorem divCore_eq (hm : m.log2 = 23) (hn : n.log2 = 23) (hlow : -125 ≤ e - f) :
    divCore .binary32 m e n f =
      (m * 2 ^ 24 / n, e - f - 24, accuracyOfFraction (m * 2 ^ 24 % n) n) := by
  have htarget : min (e - f) (max ((m.log2 + 1 + e) - (n.log2 + 1 + f) - 24) (-149)) = e - f - 24 := by omega
  have hamount : (e - f - (e - f - 24)).toNat = 24 := by omega
  unfold divCore totalExponent
  simp only [targetExponent_binary32, htarget, hamount, Nat.shiftLeft_eq]

theorem value_decreaseExponent (m : Nat) (hfe : f ≤ e) :
    ((decreaseExponent m e f).1 : ℚ) * 2 ^ f = m * 2 ^ e := by
  obtain ⟨k, rfl⟩ := Int.le.dest hfe
  have hamount : (f + k - f).toNat = k := by omega
  unfold decreaseExponent
  simp only [hamount, Nat.shiftLeft_eq]
  rw [zpow_add₀ two_ne_zero, zpow_natCast]
  push_cast
  ring

theorem rounded_round (hx : Moderate (m * 2 ^ e)) :
    Rounded (m * 2 ^ e) (UnpackedFloat.round .binary32 .positive m e) := by
  have hexact : (m : ℚ) * 2 ^ e / 2 ^ e = m := mul_div_cancel_right₀ _ (two_zpow_pos e).ne'
  have hm : m ≠ 0 := by
    rintro rfl
    have hpos := (two_zpow_pos (-100)).trans_le hx.1
    simp at hpos
  obtain ⟨hlow, hhigh⟩ := hx.exponent hm hexact.ge (by rw [hexact]; exact lt_add_one _)
  -- Zeros are added to a mantissa that has too few bits.
  let k := (e - (m.log2 + e - 23)).toNat
  have htarget : max ((m.log2 : Int) + 1 + e - 24) (-149) = m.log2 + e - 23 := by omega
  have hround : UnpackedFloat.round .binary32 .positive m e =
      roundWithAccuracy .binary32 .positive (m * 2 ^ k) (e - k) .exact := by
    unfold UnpackedFloat.round decreaseExponent totalExponent
    simp only [targetExponent_binary32, htarget, Nat.shiftLeft_eq]
    rfl
  have hvalue : (m : ℚ) * 2 ^ e / 2 ^ (e - k) = (m * 2 ^ k : Nat) := by
    rw [zpow_sub₀ two_ne_zero, zpow_natCast, mul_div_assoc, div_div_cancel₀ (two_zpow_pos e).ne']
    push_cast
    rfl
  rw [hround]
  apply rounded_roundWithAccuracy _ _ hx
  · rw [hvalue]
    exact isCut_exact _
  · rw [log2_mul_two_pow hm]
    omega

end

namespace Normal

variable {a b : UnpackedFloat} {v w : ℚ}

theorem unpack_pack (h : Normal a v) : unpack .binary32 (pack .binary32 a) = a := by
  cases h with
  | finite hpos hbits hlow hhigh => exact unpack_pack_finite .positive hpos hbits hlow hhigh

theorem pos (h : Normal a v) : 0 < v := by
  cases h with
  | finite hpos _ _ _ => exact mul_pos (by exact_mod_cast hpos) (two_zpow_pos _)

theorem compare (ha : Normal a v) (hb : Normal b w) : UnpackedFloat.compare a b = some (compare v w) := by
  cases ha with
  | finite hm hmbits _ _ =>
    cases hb with
    | finite hn hnbits _ _ =>
      simp only [UnpackedFloat.compare, compare_values hmbits hnbits]

theorem mul (ha : Normal a v) (hb : Normal b w) (hx : Moderate (v * w)) :
    Rounded (v * w) (UnpackedFloat.mul .binary32 a b) := by
  cases ha with
  | @finite m e hm hmbits _ _ =>
    cases hb with
    | @finite n f hn hnbits _ _ =>
      have hvalue : (m : ℚ) * 2 ^ e * (n * 2 ^ f) / 2 ^ (e + f) = (m * n : Nat) := by
        rw [div_eq_iff (two_zpow_pos _).ne', zpow_add₀ two_ne_zero]
        push_cast
        ring
      change Rounded _ (roundWithAccuracy .binary32 .positive (m * n) (e + f) .exact)
      apply rounded_roundWithAccuracy _ _ hx
      · rw [hvalue]
        exact isCut_exact _
      · rw [Nat.le_log2 (Nat.mul_pos hm hn).ne']
        exact (pow_le_of_bits hmbits).1.trans (Nat.le_mul_of_pos_right m hn)

theorem div (ha : Normal a v) (hb : Normal b w) (hx : Moderate (v / w)) :
    Rounded (v / w) (UnpackedFloat.div .binary32 a b) := by
  cases ha with
  | @finite m e hm hmbits _ _ =>
    cases hb with
    | @finite n f hn hnbits _ _ =>
      have hmbounds := pow_le_of_bits hmbits
      have hnbounds := pow_le_of_bits hnbits
      have hnpos : (0 : ℚ) < n := by exact_mod_cast hn
      have hratio : (m : ℚ) / n < 2 := by
        rw [div_lt_iff₀ hnpos]
        exact_mod_cast (by omega : m < 2 * n)
      have hpower : (m : ℚ) * 2 ^ e / (n * 2 ^ f) = m / n * 2 ^ (e - f) := by
        rw [zpow_sub₀ two_ne_zero, mul_div_mul_comm]
      have hlow : -125 ≤ e - f := by
        have hless : (2 : ℚ) ^ (-100 : Int) < 2 ^ (1 + (e - f)) := by
          rw [zpow_add₀ two_ne_zero, zpow_one]
          exact hx.1.trans_lt (hpower ▸ mul_lt_mul_of_pos_right hratio (two_zpow_pos _))
        have hexponent := (zpow_lt_zpow_iff_right₀ one_lt_two).mp hless
        omega
      have hvalue : (m : ℚ) * 2 ^ e / (n * 2 ^ f) / 2 ^ (e - f - 24) = (m * 2 ^ 24 : Nat) / n := by
        have hshift : (2 : ℚ) ^ (24 : Int) = (2 ^ 24 : Nat) := by norm_num
        rw [hpower, zpow_sub₀ two_ne_zero (e - f), mul_div_assoc, div_div_cancel₀ (two_zpow_pos _).ne', hshift,
          div_mul_eq_mul_div, Nat.cast_mul]
      change Rounded _ (let (q, g, accuracy) := divCore .binary32 m e n f
        roundWithAccuracy .binary32 .positive q g accuracy)
      rw [divCore_eq hmbits hnbits hlow]
      apply rounded_roundWithAccuracy _ _ hx
      · rw [hvalue]
        exact isCut_div _ hn
      · have hquotient : 2 ^ 23 ≤ m * 2 ^ 24 / n := by
          rw [Nat.le_div_iff_mul_le hn]
          omega
        rw [Nat.le_log2 (by omega)]
        exact hquotient

/-- A difference is computed at the smaller one of the two exponents. -/
theorem exists_sub_eq_normalize (ha : Normal a v) (hb : Normal b w) : ∃ d g : Int, v - w = d * 2 ^ g ∧
    UnpackedFloat.sub .binary32 a b = UnpackedFloat.normalize .binary32 d g .positive := by
  cases ha with
  | @finite m e hm hmbits _ _ =>
    cases hb with
    | @finite n f hn hnbits _ _ =>
      refine ⟨(decreaseExponent m e (min e f)).1 - (decreaseExponent n f (min e f)).1, min e f, ?_, rfl⟩
      rw [← value_decreaseExponent m (min_le_left e f), ← value_decreaseExponent n (min_le_right e f), ← sub_mul]
      push_cast
      rfl

theorem sub (ha : Normal a v) (hb : Normal b w) (hx : Moderate (v - w)) :
    Rounded (v - w) (UnpackedFloat.sub .binary32 a b) := by
  obtain ⟨d, g, hvalue, hsub⟩ := ha.exists_sub_eq_normalize hb
  have hpos : 0 < d := by
    have hdifference : (0 : ℚ) < d * 2 ^ g := hvalue ▸ (two_zpow_pos _).trans_le hx.1
    exact_mod_cast (mul_pos_iff_of_pos_right (two_zpow_pos g)).mp hdifference
  obtain ⟨m, rfl⟩ := Int.eq_ofNat_of_zero_le hpos.le
  have hround : UnpackedFloat.normalize .binary32 m g .positive = UnpackedFloat.round .binary32 .positive m g := by
    unfold UnpackedFloat.normalize
    rw [compare_gt_iff_gt.mpr hpos]
    rfl
  rw [hvalue, Int.cast_natCast] at hx ⊢
  rw [hsub, hround]
  exact rounded_round hx

theorem sub_self (ha : Normal a v) (hb : Normal b v) : UnpackedFloat.sub .binary32 a b = .zero .positive := by
  obtain ⟨d, g, hvalue, hsub⟩ := ha.exists_sub_eq_normalize hb
  have hzero : d = 0 := by
    rw [sub_eq_zero_of_eq rfl, eq_comm, mul_eq_zero_iff_right (two_zpow_pos g).ne'] at hvalue
    exact_mod_cast hvalue
  rw [hsub, hzero]
  rfl

/-- The whole part of a normal number. -/
theorem toInt (ha : Normal a v) (low high : Int) : a.toInt low high = ⌊v⌋₊ := by
  cases ha with
  | @finite m e hm hmbits _ _ =>
    obtain ⟨k, rfl | rfl⟩ := Int.eq_nat_or_neg e
    · have hwhole : (m : ℚ) * 2 ^ (k : Int) = (m * 2 ^ k : Nat) := by
        rw [zpow_natCast]
        push_cast
        rfl
      have hkept : (ExtendedMantissa.ofMantissaAndAccuracy (m * 2 ^ k) .exact >>> 0).mantissa = m * 2 ^ k := rfl
      rw [hwhole, Nat.floor_natCast]
      simp [UnpackedFloat.toInt, roundToInt, decreaseExponent, shiftToExponent, Nat.shiftLeft_eq, hkept, Sign.apply]
    · have hcut := (isCut_exact m).shiftRight k
      have hpart : (m : ℚ) * 2 ^ (-(k : Int)) = m / 2 ^ k := by
        rw [zpow_neg, zpow_natCast, div_eq_mul_inv]
      rw [hpart, hcut.floor_eq]
      simp [UnpackedFloat.toInt, roundToInt, decreaseExponent, shiftToExponent, Sign.apply]

end Normal

theorem Rounded.unpack_pack {x : ℚ} {u : UnpackedFloat} (h : Rounded x u) :
    Rounded x (unpack .binary32 (pack .binary32 u)) := by
  obtain ⟨v, hnormal, herror⟩ := h
  rw [hnormal.unpack_pack]
  exact ⟨v, hnormal, herror⟩

end RetainedUi.Single
