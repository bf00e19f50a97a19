import RetainedUi.Proofs.Numeral.Rounding

/-!
# The word nearest to a scalar

The nearest word is found by cutting off the fraction and by asking whether what was cut off is a half at least. What
was cut off is itself a difference of scalars, so it is rounded. For a scalar that is close to a whole number this
does not matter: the fraction is far from the half on either side.
-/

namespace RetainedUi.Single

open Float.Model
open Float.Model.UnpackedFloat

/-- The scalar is a normal one, and this is the positive number it stands for. -/
def Amounts (x : Float32) (v : ℚ) : Prop := Normal x.toModel.unpack v

variable {x y : Float32} {v w : ℚ} {n : Int}

/-- A positive whole number amounts to itself. -/
theorem Stands.amounts (hx : Stands x n) (hpos : 0 < n) : Amounts x n := by
  have hwhole := stands_iff.mp hx
  unfold Amounts
  generalize x.toModel.unpack = a at hwhole
  cases hwhole with
  | zero sign => exact absurd hpos (lt_irrefl 0)
  | @finite sign m k hm hbits =>
    have hk : k ≤ 23 := by
      rw [log2_mul_two_pow (Nat.pos_of_mul_pos_right hm).ne'] at hbits
      omega
    cases sign with
    | negative =>
      simp only [Sign.apply] at hpos
      omega
    | positive =>
      have hvalue : (((m : Int)) : ℚ) = (m * 2 ^ k : Nat) * 2 ^ (-(k : Int)) := by
        rw [zpow_neg, zpow_natCast]
        push_cast
        rw [mul_inv_cancel_right₀ (pow_ne_zero k two_ne_zero)]
      change Normal _ (((m : Int)) : ℚ)
      rw [hvalue]
      exact .finite hm hbits (by omega) (by omega)

theorem amounts_one : Amounts 1 1 := by
  have hone : Stands 1 1 := by decide +kernel
  exact_mod_cast hone.amounts one_pos

theorem amounts_half : Amounts 0.5 (1 / 2) := by
  have hunpack : (0.5 : Float32).toModel.unpack = .finite .positive (2 ^ 23) (-24) (by decide) := rfl
  have hvalue : (1 / 2 : ℚ) = (2 ^ 23 : Nat) * 2 ^ (-24 : Int) := by norm_num
  unfold Amounts
  rw [hunpack, hvalue]
  exact .finite _ Nat.log2_two_pow (by decide) (by decide)

/-- A number of 24 bits becomes the scalar that stands for it. -/
theorem whole_ofNat {k : Nat} (hbits : k < 2 ^ 24) :
    Whole (unpack .binary32 (pack .binary32 (UnpackedFloat.ofNat .binary32 k))) k := by
  have hwhole := whole_normalize (n := k) (by simpa using hbits) 0
  rw [pow_zero, mul_one, Nat.cast_zero, neg_zero] at hwhole
  unfold UnpackedFloat.ofNat UnpackedFloat.ofInt
  rwa [hwhole.unpack_pack]

theorem stands_toFloat32 {k : UInt32} (hbits : k.toNat < 2 ^ 24) : Stands k.toFloat32 k.toNat :=
  stands_iff.mpr (whole_ofNat hbits)

theorem stands_byte (byte : UInt8) : Stands byte.toFloat32 byte.toNat :=
  stands_iff.mpr (whole_ofNat (byte.toNat_lt.trans (by decide)))

theorem Whole.exists_zero {a : UnpackedFloat} (ha : Whole a n) (hn : n = 0) : ∃ sign, a = .zero sign := by
  cases ha with
  | zero sign => exact ⟨sign, rfl⟩
  | @finite sign m k hm hbits =>
    have hmagnitude := natAbs_apply sign m
    rw [hn] at hmagnitude
    exact absurd hmagnitude.symm (by simpa using (Nat.pos_of_mul_pos_right hm).ne')

namespace Amounts

theorem pos (hx : Amounts x v) : 0 < v := Normal.pos hx

theorem lt_iff (hx : Amounts x v) (hy : Amounts y w) : x < y ↔ v < w := by
  rw [lt_iff_compare, Normal.compare hx hy, Option.some.injEq]
  exact compare_lt_iff_lt

theorem le_iff (hx : Amounts x v) (hy : Amounts y w) : x ≤ y ↔ v ≤ w := by
  rw [le_iff_compare, Normal.compare hx hy, Option.any_some, ← compare_le_iff_le]
  cases compare v w <;> decide

theorem mul (hx : Amounts x v) (hy : Amounts y w) (h : Moderate (v * w)) :
    ∃ p, Amounts (x * y) p ∧ |p - v * w| ≤ p / 2 ^ 24 :=
  (Normal.mul hx hy h).unpack_pack

theorem div (hx : Amounts x v) (hy : Amounts y w) (h : Moderate (v / w)) :
    ∃ q, Amounts (x / y) q ∧ |q - v / w| ≤ q / 2 ^ 24 :=
  (Normal.div hx hy h).unpack_pack

theorem sub (hx : Amounts x v) (hy : Amounts y w) (h : Moderate (v - w)) :
    ∃ d, Amounts (x - y) d ∧ |d - (v - w)| ≤ d / 2 ^ 24 :=
  (Normal.sub hx hy h).unpack_pack

/-- A whole number that is not negative, taken off a greater one. -/
theorem sub_stands (hx : Amounts x v) (hy : Stands y n) (hn : 0 ≤ n) (h : Moderate (v - n)) :
    ∃ d, Amounts (x - y) d ∧ |d - (v - n)| ≤ d / 2 ^ 24 := by
  rcases hn.lt_or_eq with hpos | rfl
  · exact hx.sub (hy.amounts hpos) h
  · -- Nothing is taken off, with either sign.
    obtain ⟨sign, hzero⟩ := (stands_iff.mp hy).exists_zero rfl
    have hsame : UnpackedFloat.sub .binary32 x.toModel.unpack y.toModel.unpack = x.toModel.unpack := by
      unfold Amounts at hx
      rw [hzero]
      generalize x.toModel.unpack = a at hx
      cases hx with
      | finite hm _ _ _ => rfl
    refine ⟨v, ?_, ?_⟩
    · have hkept : (x - y).toModel.unpack = x.toModel.unpack := calc
        (x - y).toModel.unpack = unpack .binary32 (pack .binary32 x.toModel.unpack) := by
          rw [← hsame]
          rfl
        _ = x.toModel.unpack := Normal.unpack_pack hx
      unfold Amounts
      rw [hkept]
      exact hx
    · rw [Int.cast_zero, sub_zero, sub_self, abs_zero]
      exact div_nonneg hx.pos.le (by norm_num)

theorem toNat_toUInt32 (hx : Amounts x v) (hv : v < 2 ^ 32) : x.toUInt32.toNat = ⌊v⌋₊ := by
  have hfloor : ⌊v⌋₊ < UInt32.size := (Nat.floor_lt hx.pos.le).mpr (by exact_mod_cast hv)
  change (UInt32.ofNatClamp (x.toModel.unpack.toInt 0 (UInt32.size - 1)).toNat).toNat = _
  rw [Normal.toInt hx, Int.toNat_natCast, UInt32.ofNatClamp_eq_ofNat _ hfloor]
  exact UInt32.toNat_ofNat_of_lt hfloor

/-- A scalar is a multiple of the last bit of a power of two that is not above it. -/
theorem exists_eq_mul (hx : Amounts x v) {i : Int} (hv : 2 ^ i ≤ v) : ∃ k : Int, v = k * 2 ^ (i - 23) := by
  unfold Amounts at hx
  generalize x.toModel.unpack = a at hx
  cases hx with
  | @finite m e hm hbits _ _ =>
    have hless : (m : ℚ) < 2 ^ (24 : Int) := by exact_mod_cast (pow_le_of_bits hbits).2
    have hpower : (2 : ℚ) ^ i < 2 ^ (24 + e) := calc
      (2 : ℚ) ^ i ≤ m * 2 ^ e := hv
      _ < 2 ^ (24 : Int) * 2 ^ e := mul_lt_mul_of_pos_right hless (two_zpow_pos e)
      _ = 2 ^ (24 + e) := (zpow_add₀ two_ne_zero 24 e).symm
    have hexponent := (zpow_lt_zpow_iff_right₀ one_lt_two).mp hpower
    obtain ⟨l, hl⟩ := Int.le.dest (show i - 23 ≤ e by omega)
    refine ⟨m * 2 ^ l, ?_⟩
    rw [← hl, zpow_add₀ two_ne_zero, zpow_natCast]
    push_cast
    ring

end Amounts

/-! ## What is cut off -/

/-- What is left of a scalar above a whole number is no half if it is a quarter at most. -/
theorem not_half_le_sub (hx : Amounts x v) (hy : Stands y n) (hpos : 0 < n) (hle : n ≤ v) (hclose : v - n ≤ 1 / 4) :
    ¬ 0.5 ≤ x - y := by
  have hone : (1 : ℚ) ≤ n := by exact_mod_cast hpos
  rcases hle.lt_or_eq with hlt | rfl
  · have hmoderate : Moderate (v - n) := by
      constructor
      · obtain ⟨k, hk⟩ := hx.exists_eq_mul (i := -1) (by norm_num; linarith)
        have hunit : (2 : ℚ) ^ (-1 - 23 : Int) = 1 / 2 ^ 24 := by norm_num
        rw [hunit, mul_one_div] at hk
        rw [hk, lt_div_iff₀ (by norm_num)] at hlt
        have hnext : ((n * 2 ^ 24 + 1 : Int) : ℚ) ≤ k := by exact_mod_cast Int.add_one_le_of_lt (by exact_mod_cast hlt)
        calc
          (2 : ℚ) ^ (-100 : Int) ≤ 1 / 2 ^ 24 := by norm_num
          _ = ((n * 2 ^ 24 + 1 : Int) : ℚ) / 2 ^ 24 - n := by
            push_cast
            ring
          _ ≤ k / 2 ^ 24 - n := by gcongr
          _ = v - n := by rw [hk]
      · exact hclose.trans (by norm_num)
    obtain ⟨d, hd, herror⟩ := hx.sub (hy.amounts hpos) hmoderate
    rw [abs_le] at herror
    rw [amounts_half.le_iff hd]
    linarith
  · have hzero : (x - y).toModel.unpack = unpack .binary32 (pack .binary32 (.zero .positive)) := by
      rw [← Normal.sub_self hx (hy.amounts hpos)]
      rfl
    rw [le_iff_compare, hzero]
    decide +kernel

/-- What is left of a scalar above a whole number is a half at least if it is three quarters. -/
theorem half_le_sub (hx : Amounts x v) (hy : Stands y n) (hn : 0 ≤ n) (hclose : 3 / 4 ≤ v - n) (hv : v ≤ 2 ^ 24) :
    0.5 ≤ x - y := by
  have hmoderate : Moderate (v - n) := by
    constructor
    · exact le_trans (by norm_num) hclose
    · have hn' : (0 : ℚ) ≤ n := by exact_mod_cast hn
      have hlarge : (2 : ℚ) ^ 24 ≤ 2 ^ (100 : Int) := by norm_num
      linarith
  obtain ⟨d, hd, herror⟩ := hx.sub_stands hy hn hmoderate
  rw [abs_le] at herror
  rw [amounts_half.le_iff hd]
  linarith

/-- A scalar close to a positive whole number has that number as the nearest word. -/
theorem nearestWord_of_close {k : Nat} (hx : Amounts x v) (hpos : 0 < k) (hbits : k < 2 ^ 23)
    (hclose : |v - k| ≤ 1 / 4) : (nearestWord x).toNat = k := by
  rw [abs_le] at hclose
  have hk : (1 : ℚ) ≤ k := by exact_mod_cast hpos
  have hk' : (k : ℚ) ≤ 2 ^ 23 := by exact_mod_cast hbits.le
  have hword := hx.toNat_toUInt32 (by linarith)
  have hstands := stands_toFloat32 (k := x.toUInt32)
  unfold nearestWord
  dsimp only
  rcases le_or_gt (k : ℚ) v with hle | hlt
  · have hfloor : ⌊v⌋₊ = k := (Nat.floor_eq_iff hx.pos.le).mpr ⟨hle, by linarith⟩
    rw [hword, hfloor] at hstands
    have hrest := not_half_le_sub hx (hstands (by omega)) (by exact_mod_cast hpos) (by exact_mod_cast hle)
      (by exact_mod_cast hclose.2)
    rw [if_neg hrest, hword, hfloor]
  · -- The fraction is cut off one below the whole number, and the half gives that one back.
    obtain ⟨l, rfl⟩ := Nat.exists_eq_add_one_of_ne_zero hpos.ne'
    rw [Nat.cast_add_one] at hclose hlt hk'
    have hfloor : ⌊v⌋₊ = l := (Nat.floor_eq_iff hx.pos.le).mpr ⟨by linarith, hlt⟩
    rw [hfloor] at hword
    rw [hword] at hstands
    have hrest := half_le_sub hx (hstands (by omega)) (Int.natCast_nonneg l) (by rw [Int.cast_natCast]; linarith)
      (by linarith)
    have hless : x.toUInt32 ≠ 0xffffffff := by
      intro hmost
      rw [hmost, show (0xffffffff : UInt32).toNat = 4294967295 from rfl] at hword
      omega
    rw [if_pos hrest, if_neg hless, UInt32.toNat_add, hword, UInt32.toNat_one]
    omega

end RetainedUi.Single
