import EspressioCommand.Library.NearestEven
import EspressioCommand.Value.Platform
import Mathlib.Data.Int.Log
import Mathlib.Tactic

/-!
# `long double` as `double`

`static_cast<double>` rounds to the nearest binary64 number, to the even one half way,
and to an infinity beyond the largest.  `Double.ofLongDouble_toLongDouble` says that what
came from a `double` goes back to it.

`LongDouble` has one zero and one NaN, so that a negative zero and the payload of a NaN
do not come back.
-/

namespace EspressioCommand

open Library

/-- The whole number nearest to `q`, the even one half way between two; `0 ≤ q`. -/
def nearestWhole (q : ℚ) : ℕ := nearestEven q.den q.num.toNat / q.den

theorem nearestWhole_natCast (n : ℕ) : nearestWhole n = n := by
  have h := nearestEven_mul Nat.one_pos n
  rw [nearestWhole, Rat.den_natCast, Rat.num_natCast, Int.toNat_natCast, Nat.div_one]
  rwa [Nat.mul_one] at h

namespace Double

/-- The exponent of the last place of the binary64 numbers about `magnitude`. -/
def lastPlace (magnitude : ℚ) : ℤ := max (Int.log 2 magnitude - 52) (-1074)

/-- The bits of the binary64 number nearest to a magnitude, or those of the infinity.  A
significand of 53 bits carries its leading one into the exponent field. -/
def magnitudeBits (magnitude : ℚ) : ℕ :=
  let place := lastPlace magnitude
  if magnitude = 0 then 0
  else
    min ((place + 1074).toNat * 2 ^ 52 + nearestWhole (magnitude / (2 : ℚ) ^ place))
      (2047 * 2 ^ 52)

/-- `static_cast<double>` of a `long double`. -/
def ofLongDouble : LongDouble → Double
  | .nan => ⟨BitVec.ofNat 64 (2047 * 2 ^ 52 + 2 ^ 51)⟩
  | .negInf => ⟨BitVec.ofNat 64 (2 ^ 63 + 2047 * 2 ^ 52)⟩
  | .posInf => ⟨BitVec.ofNat 64 (2047 * 2 ^ 52)⟩
  | .finite q =>
      ⟨BitVec.ofNat 64 ((if q < 0 then 2 ^ 63 else 0) + magnitudeBits |q|)⟩

/-! ### There and back -/

/-- The significand of a finite number, with its leading one if there is one. -/
def significand (d : Double) : ℕ := if d.exponent = 0 then d.fraction else 2 ^ 52 + d.fraction

/-- The exponent of its last place. -/
def power (d : Double) : ℤ := if d.exponent = 0 then -1074 else (d.exponent : ℤ) - 1075

theorem toLongDouble_of_finite {d : Double} (h : d.exponent ≠ 2047) :
    d.toLongDouble = .finite (if d.negative then -(d.significand * (2 : ℚ) ^ d.power)
      else d.significand * (2 : ℚ) ^ d.power) := by
  rw [toLongDouble, if_neg h]
  rfl

theorem fraction_lt (d : Double) : d.fraction < 2 ^ 52 := Nat.mod_lt _ (by norm_num)

theorem exponent_lt (d : Double) : d.exponent < 2048 := Nat.mod_lt _ (by norm_num)

/-- The three fields make up the bits. -/
theorem toNat_bits (d : Double) :
    d.bits.toNat = (if d.negative then 2 ^ 63 else 0) + (d.exponent * 2 ^ 52 + d.fraction) := by
  have hlt := d.bits.isLt
  rw [negative, exponent, fraction]
  split_ifs with hsign
  · have hsign : 2 ^ 63 ≤ d.bits.toNat := by simpa using hsign
    omega
  · have hsign : ¬ 2 ^ 63 ≤ d.bits.toNat := by simpa using hsign
    omega

/-- A power of two moves the logarithm. -/
theorem log_mul_zpow {n : ℕ} (hn : 0 < n) (p : ℤ) :
    Int.log 2 ((n : ℚ) * (2 : ℚ) ^ p) = (Nat.log 2 n : ℤ) + p := by
  have hpower : (0 : ℚ) < 2 ^ p := zpow_pos (by norm_num) p
  have hpos : (0 : ℚ) < n * 2 ^ p := mul_pos (by exact_mod_cast hn) hpower
  have hlow : (2 ^ Nat.log 2 n : ℚ) ≤ n := by
    exact_mod_cast Nat.pow_log_le_self 2 (by omega)
  have hhigh : (n : ℚ) < 2 ^ (Nat.log 2 n + 1) := by
    exact_mod_cast Nat.lt_pow_succ_log_self (by norm_num) n
  apply le_antisymm
  · apply Int.lt_add_one_iff.mp
    apply (Int.lt_zpow_iff_log_lt (by norm_num) hpos).mp
    calc (n : ℚ) * 2 ^ p < 2 ^ (Nat.log 2 n + 1) * 2 ^ p := mul_lt_mul_of_pos_right hhigh hpower
      _ = ((2 : ℕ) : ℚ) ^ ((Nat.log 2 n : ℤ) + p + 1) := by
          rw [Nat.cast_ofNat, ← zpow_natCast, ← zpow_add₀ (by norm_num)]
          congr 1
          push_cast
          ring
  · apply (Int.zpow_le_iff_le_log (by norm_num) hpos).mp
    calc ((2 : ℕ) : ℚ) ^ ((Nat.log 2 n : ℤ) + p) = 2 ^ Nat.log 2 n * 2 ^ p := by
          rw [Nat.cast_ofNat, zpow_add₀ (by norm_num), zpow_natCast]
      _ ≤ n * 2 ^ p := mul_le_mul_of_nonneg_right hlow hpower.le

/-- The last place of a number is what its exponent field says. -/
theorem lastPlace_eq {d : Double} (hpos : 0 < d.significand) :
    lastPlace (d.significand * (2 : ℚ) ^ d.power) = d.power := by
  have hfraction := d.fraction_lt
  rw [lastPlace, log_mul_zpow hpos]
  by_cases hzero : d.exponent = 0
  · -- a subnormal number has fewer digits
    have hsignificand : d.significand = d.fraction := if_pos hzero
    have hpower : d.power = -1074 := if_pos hzero
    have hlog : Nat.log 2 d.significand < 52 :=
      Nat.log_lt_of_lt_pow (by omega) (by omega)
    omega
  · have hsignificand : d.significand = 2 ^ 52 + d.fraction := if_neg hzero
    have hpower : d.power = (d.exponent : ℤ) - 1075 := if_neg hzero
    have hlog : Nat.log 2 d.significand = 52 :=
      Nat.log_eq_of_pow_le_of_lt_pow (by omega) (by omega)
    omega

/-- The magnitude of a finite number has the bits of its two fields. -/
theorem magnitudeBits_eq {d : Double} (hfinite : d.exponent ≠ 2047) (hpos : 0 < d.significand) :
    magnitudeBits (d.significand * (2 : ℚ) ^ d.power) = d.exponent * 2 ^ 52 + d.fraction := by
  have hfraction := d.fraction_lt
  have hexponent := d.exponent_lt
  have hwhole : (d.significand : ℚ) * 2 ^ d.power / 2 ^ d.power = (d.significand : ℕ) :=
    mul_div_cancel_right₀ _ (zpow_ne_zero _ (by norm_num))
  have hne : (d.significand : ℚ) * 2 ^ d.power ≠ 0 :=
    mul_ne_zero (by exact_mod_cast hpos.ne') (zpow_ne_zero _ (by norm_num))
  rw [magnitudeBits, if_neg hne]
  simp only [lastPlace_eq hpos, hwhole, nearestWhole_natCast]
  by_cases hzero : d.exponent = 0
  · have hsignificand : d.significand = d.fraction := if_pos hzero
    have hpower : d.power = -1074 := if_pos hzero
    omega
  · have hsignificand : d.significand = 2 ^ 52 + d.fraction := if_neg hzero
    have hpower : d.power = (d.exponent : ℤ) - 1075 := if_neg hzero
    have hplace : (d.power + 1074).toNat = d.exponent - 1 := by omega
    rw [hplace]
    omega

/-- A `double` is its bits. -/
theorem eq_of_bits_toNat {d : Double} {bits : ℕ} (h : d.bits.toNat = bits) :
    (⟨BitVec.ofNat 64 bits⟩ : Double) = d := by
  obtain ⟨bv⟩ := d
  rw [← h, BitVec.ofNat_toNat, BitVec.setWidth_eq]

/-- **What was a `double` is one again**, unless it is a NaN or a negative zero. -/
theorem ofLongDouble_toLongDouble {d : Double} (hnan : d.toLongDouble ≠ .nan)
    (hzero : d.negative = true → d.toLongDouble ≠ .finite 0) :
    ofLongDouble d.toLongDouble = d := by
  have hbits := d.toNat_bits
  have hfraction := d.fraction_lt
  by_cases hfinite : d.exponent = 2047
  · -- an infinity
    rw [toLongDouble, if_pos hfinite] at hnan ⊢
    split_ifs at hnan ⊢ with hpayload hsign
    · exact absurd rfl hnan
    · exact eq_of_bits_toNat (by rw [hbits, hsign]; simp; omega)
    · exact eq_of_bits_toNat (by rw [hbits, if_neg hsign]; omega)
  · rw [toLongDouble_of_finite hfinite] at hzero ⊢
    have hpower : (0 : ℚ) < 2 ^ d.power := zpow_pos (by norm_num) _
    rcases Nat.eq_zero_or_pos d.significand with hnil | hpos
    · -- zero, and then a positive one
      have hsign : ¬ d.negative = true := by
        intro hsign
        apply hzero hsign
        simp [hnil]
      have hfields : d.exponent = 0 ∧ d.fraction = 0 := by
        rw [significand] at hnil
        split_ifs at hnil with hexponent
        · exact ⟨hexponent, hnil⟩
        · omega
      rw [if_neg hsign, hnil, Nat.cast_zero, zero_mul]
      exact eq_of_bits_toNat (by
        rw [abs_zero, magnitudeBits, if_pos rfl, hbits, if_neg hsign, hfields.1, hfields.2]
        simp)
    · have hmagnitude : (0 : ℚ) < d.significand * 2 ^ d.power :=
        mul_pos (by exact_mod_cast hpos) hpower
      have heq := magnitudeBits_eq hfinite hpos
      cases hsign : d.negative with
      | true =>
          refine eq_of_bits_toNat ?_
          rw [if_pos rfl, if_pos (by linarith), abs_neg, abs_of_pos hmagnitude, heq, hbits,
            if_pos hsign]
      | false =>
          refine eq_of_bits_toNat ?_
          rw [if_neg Bool.false_ne_true, if_neg (by linarith), abs_of_pos hmagnitude, heq, hbits,
            if_neg (by simp [hsign])]

end Double

end EspressioCommand
