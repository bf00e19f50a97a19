import RetainedUi.Color.Packed
import RetainedUi.Proofs.Numeral.Nearest

/-!
# Packed colors

A byte becomes a channel by a division and a channel becomes a byte by a product, and either one is rounded. Both
errors together are far below a half, so the byte nearest to the product is the byte that was divided. The four bytes
of a word do not overlap, so none of them is lost when they are put together.
-/

namespace RetainedUi

namespace Single

variable {x y : Float32} {v : ℚ} {k n : Nat}

/-- What is not above one is not moved by clamping. -/
theorem clamp_of_le_one (hx : Amounts x v) (hv : v ≤ 1) : clamp 0 1 x = x := by
  have hlow : ¬ x < 0 := by
    have hzero : (0 : Float32).toModel.unpack = .zero .positive := rfl
    rw [lt_iff_compare, hzero]
    unfold Amounts at hx
    generalize x.toModel.unpack = a at hx
    cases hx with
    | finite _ _ _ _ => nofun
  have hhigh : ¬ 1 < x := by
    rw [amounts_one.lt_iff hx]
    exact hv.not_gt
  unfold clamp
  dsimp only
  rw [if_neg hlow, if_neg hhigh]

/-- A scalar above one is above it by a bit at least, which is more than rounding can be off. -/
theorem Amounts.le_one (hx : Amounts x v) {w : ℚ} (herror : |v - w| ≤ v / 2 ^ 24) (hw : w ≤ 1) : v ≤ 1 := by
  by_contra hmore
  rw [not_le] at hmore
  rw [abs_le] at herror
  obtain ⟨l, hl⟩ := hx.exists_eq_mul (i := 0) (by rw [zpow_zero]; exact hmore.le)
  have hunit : (2 : ℚ) ^ (0 - 23 : Int) = 1 / 2 ^ 23 := by norm_num
  rw [hunit, mul_one_div] at hl
  have hless : (2 ^ 23 : ℚ) < l := by
    rw [hl, one_lt_div (by norm_num)] at hmore
    exact hmore
  have hnext : (2 ^ 23 + 1 : ℚ) ≤ l := by
    have hwhole : (2 : Int) ^ 23 < l := by exact_mod_cast hless
    exact_mod_cast Int.add_one_le_of_lt hwhole
  have hbit : (2 ^ 23 + 1 : ℚ) / 2 ^ 23 ≤ v := by
    rw [hl]
    gcongr
  linarith

section

variable (hx : Stands x k) (hy : Stands y n) (hpos : 0 < k) (hle : k ≤ n) (hbits : n < 2 ^ 16)
include hx hy hpos hle hbits

/-- A part of a whole number is off by a little only, and it is no more than the whole. -/
theorem exists_amounts_div : ∃ q, Amounts (x / y) q ∧ q ≤ 1 ∧ |q - k / n| ≤ q / 2 ^ 24 := by
  have hk : (1 : ℚ) ≤ k := by exact_mod_cast hpos
  have hn : (0 : ℚ) < n := by exact_mod_cast hpos.trans_le hle
  have hn' : (n : ℚ) ≤ 2 ^ 16 := by exact_mod_cast hbits.le
  have hone : (k : ℚ) / n ≤ 1 := (div_le_one hn).mpr (by exact_mod_cast hle)
  have hmoderate : Moderate (((k : Int) : ℚ) / ((n : Int) : ℚ)) := by
    push_cast
    constructor
    · calc
        (2 : ℚ) ^ (-100 : Int) ≤ 1 / 2 ^ 16 := by norm_num
        _ ≤ k / n := by gcongr
    · exact hone.trans (by norm_num)
  obtain ⟨q, hq, herror⟩ := (hx.amounts (by exact_mod_cast hpos)).div (hy.amounts (by omega)) hmoderate
  push_cast at herror
  exact ⟨q, hq, hq.le_one herror hone, herror⟩

/-- A part of a whole number is not clamped, and taken as often as the whole has parts it is close to the number
that was divided. -/
theorem clamp_div_and_nearestWord_mul : clamp 0 1 (x / y) = x / y ∧ (nearestWord (x / y * y)).toNat = k := by
  obtain ⟨q, hq, hq1, herror⟩ := exists_amounts_div hx hy hpos hle hbits
  refine ⟨clamp_of_le_one hq hq1, ?_⟩
  have hk : (1 : ℚ) ≤ k := by exact_mod_cast hpos
  have hn : (0 : ℚ) < n := by exact_mod_cast hpos.trans_le hle
  have hn' : (n : ℚ) ≤ 2 ^ 16 := by exact_mod_cast hbits.le
  have hmost : q * n ≤ 1 * 2 ^ 16 := mul_le_mul hq1 hn' hn.le zero_le_one
  have hfirst : |q * n - k| ≤ q * n / 2 ^ 24 := calc
    |q * n - k| = |q - k / n| * n := by
      rw [← abs_of_pos hn, ← abs_mul, abs_of_pos hn, sub_mul, div_mul_cancel₀ _ hn.ne']
    _ ≤ q / 2 ^ 24 * n := by gcongr
    _ = q * n / 2 ^ 24 := by ring
  have hleast : 1 / 2 ≤ q * n := by
    rw [abs_le] at hfirst
    linarith
  have hmoderate : Moderate (q * (n : Int)) := by
    rw [Int.cast_natCast]
    constructor
    · exact le_trans (by norm_num) hleast
    · exact hmost.trans (by norm_num)
  obtain ⟨p, hp, hsecond⟩ := hq.mul (hy.amounts (by omega)) hmoderate
  rw [Int.cast_natCast] at hsecond
  have hp' : p ≤ 2 ^ 17 := by
    rw [abs_le] at hsecond
    linarith
  apply nearestWord_of_close hp hpos (by omega)
  calc
    |p - k| ≤ |p - q * n| + |q * n - k| := abs_sub_le _ _ _
    _ ≤ p / 2 ^ 24 + q * n / 2 ^ 24 := add_le_add hsecond hfirst
    _ ≤ 2 ^ 17 / 2 ^ 24 + 1 * 2 ^ 16 / 2 ^ 24 := by gcongr
    _ ≤ 1 / 4 := by norm_num

end

end Single

namespace Color

open Single

/-- A byte comes back from its channel. -/
theorem channelByte_byte (byte : UInt8) : (channelByte (clamp 0 1 (byte.toFloat32 / 255))).toNat = byte.toNat := by
  have hwhole : Stands 255 255 := by decide +kernel
  have hmost : byte.toNat ≤ 255 := Nat.le_of_lt_succ byte.toNat_lt
  rcases Nat.eq_zero_or_pos byte.toNat with hzero | hpos
  · obtain rfl : byte = 0 := UInt8.toNat_inj.mp hzero
    decide +kernel
  · obtain ⟨hclamp, hnearest⟩ :=
      clamp_div_and_nearestWord_mul (n := 255) (stands_byte byte) hwhole hpos hmost (by decide)
    have hmask : (0xff : UInt32).toNat = 2 ^ 8 - 1 := rfl
    unfold channelByte
    rw [hclamp, UInt32.toNat_and, hnearest, hmask, Nat.and_two_pow_sub_one_of_lt_two_pow byte.toNat_lt]

/-- Bytes at different places of a word do not overlap. -/
theorem shiftLeft_or_bytes (alpha : Nat) {blue green red : Nat} (hblue : blue < 2 ^ 8) (hgreen : green < 2 ^ 8)
    (hred : red < 2 ^ 8) : alpha <<< 24 ||| blue <<< 16 ||| green <<< 8 ||| red =
      alpha * 2 ^ 24 + blue * 2 ^ 16 + green * 2 ^ 8 + red := by
  have hlowest : green <<< 8 ||| red = green * 2 ^ 8 + red := by
    rw [← Nat.shiftLeft_add_eq_or_of_lt hred, Nat.shiftLeft_eq]
  have hlower : blue <<< 16 ||| (green * 2 ^ 8 + red) = blue * 2 ^ 16 + (green * 2 ^ 8 + red) := by
    rw [← Nat.shiftLeft_add_eq_or_of_lt (by omega), Nat.shiftLeft_eq]
  have hall : alpha <<< 24 ||| (blue * 2 ^ 16 + (green * 2 ^ 8 + red)) =
      alpha * 2 ^ 24 + (blue * 2 ^ 16 + (green * 2 ^ 8 + red)) := by
    rw [← Nat.shiftLeft_add_eq_or_of_lt (by omega), Nat.shiftLeft_eq]
  rw [Nat.or_assoc, Nat.or_assoc, hlowest, hlower, hall, Nat.add_assoc, Nat.add_assoc]

theorem toNat_shiftLeft_byte (byte : UInt8) {word places : UInt32} (hword : word.toNat = byte.toNat)
    (hplaces : places.toNat ≤ 24) : (word <<< places).toNat = byte.toNat <<< places.toNat := by
  have hless : byte.toNat <<< places.toNat < 2 ^ 32 := calc
    byte.toNat <<< places.toNat = byte.toNat * 2 ^ places.toNat := Nat.shiftLeft_eq _ _
    _ < 2 ^ 8 * 2 ^ places.toNat := Nat.mul_lt_mul_of_pos_right byte.toNat_lt (Nat.two_pow_pos _)
    _ ≤ 2 ^ 8 * 2 ^ 24 := Nat.mul_le_mul_left _ (Nat.pow_le_pow_right (by decide) hplaces)
  rw [UInt32.toNat_shiftLeft, Nat.mod_eq_of_lt (by omega : places.toNat < 32), hword, Nat.mod_eq_of_lt hless]

theorem toNat_toPacked_ofBytes (red green blue alpha : UInt8) :
    (ofBytes red green blue alpha).toPacked.toNat =
      alpha.toNat * 2 ^ 24 + blue.toNat * 2 ^ 16 + green.toNat * 2 ^ 8 + red.toNat := by
  rw [← shiftLeft_or_bytes _ blue.toNat_lt green.toNat_lt red.toNat_lt]
  unfold toPacked clamped Color.map ofBytes
  simp only [UInt32.toNat_or]
  rw [toNat_shiftLeft_byte alpha (channelByte_byte alpha) (by decide),
    toNat_shiftLeft_byte blue (channelByte_byte blue) (by decide),
    toNat_shiftLeft_byte green (channelByte_byte green) (by decide), channelByte_byte red]
  rfl

/-- The byte of a word at a place. -/
theorem toNat_byteAt {word places : UInt32} (hplaces : places.toNat < 32) :
    (word >>> places).toUInt8.toNat = word.toNat / 2 ^ places.toNat % 2 ^ 8 := by
  rw [UInt32.toNat_toUInt8, UInt32.toNat_shiftRight, Nat.mod_eq_of_lt hplaces, Nat.shiftRight_eq_div_pow]

/-- The digits of a word in base 256 are its bytes, lowest first. -/
theorem toNat_eq_bytes_iff {word : UInt32} {red green blue alpha : UInt8} :
    word.toNat = alpha.toNat * 2 ^ 24 + blue.toNat * 2 ^ 16 + green.toNat * 2 ^ 8 + red.toNat ↔
      word.toUInt8 = red ∧ (word >>> 8).toUInt8 = green ∧ (word >>> 16).toUInt8 = blue ∧
        (word >>> 24).toUInt8 = alpha := by
  have hgreen : (word >>> 8).toUInt8.toNat = word.toNat / 2 ^ 8 % 2 ^ 8 := toNat_byteAt (by decide)
  have hblue : (word >>> 16).toUInt8.toNat = word.toNat / 2 ^ 16 % 2 ^ 8 := toNat_byteAt (by decide)
  have halpha : (word >>> 24).toUInt8.toNat = word.toNat / 2 ^ 24 % 2 ^ 8 := toNat_byteAt (by decide)
  simp only [← UInt8.toNat_inj, UInt32.toNat_toUInt8, hgreen, hblue, halpha]
  have hword := word.toNat_lt
  have hred := red.toNat_lt
  have hgreen := green.toNat_lt
  have hblue := blue.toNat_lt
  have halpha := alpha.toNat_lt
  omega

/-- Packed colors come back with each byte at its place. Every word is the packed form of the color that it unpacks
to. Alpha is in the highest byte of a packed color, then follow blue, green, and red in the lowest. -/
theorem toPacked_ofPacked (word : UInt32) (red green blue alpha : UInt8) :
    (ofPacked word).toPacked = word ∧
    (ofBytes red green blue alpha).toPacked.toNat =
      alpha.toNat * 2 ^ 24 + blue.toNat * 2 ^ 16 + green.toNat * 2 ^ 8 + red.toNat ∧
    ofPacked (ofBytes red green blue alpha).toPacked = ofBytes red green blue alpha := by
  have hpacked := toNat_toPacked_ofBytes red green blue alpha
  refine ⟨?_, hpacked, ?_⟩
  · apply UInt32.toNat_inj.mp
    calc
      (ofPacked word).toPacked.toNat = _ := toNat_toPacked_ofBytes _ _ _ _
      _ = word.toNat := (toNat_eq_bytes_iff.mpr ⟨rfl, rfl, rfl, rfl⟩).symm
  · obtain ⟨hred, hgreen, hblue, halpha⟩ := toNat_eq_bytes_iff.mp hpacked
    unfold ofPacked
    rw [hred, hgreen, hblue, halpha]

end Color

end RetainedUi
