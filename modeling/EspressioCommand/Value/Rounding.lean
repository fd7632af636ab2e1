import EspressioCommand.Library.NearestEven
import EspressioCommand.Value.Platform

/-!
# Integers as `long double`

Every integer is compared with the limits of its target as a `long double`, and both
sides of the comparison are rounded.  Rounding keeps the order, the lower limit of a type
is never rounded, and the upper one is rounded up or not at all.
-/

namespace EspressioCommand

open Library

/-! ### Rounding -/

/-- Rounding is symmetric about zero. -/
theorem roundToDigits_eq (digits : ℕ) (n : ℤ) :
    roundToDigits digits n =
      if n < 0 then -(toSignificant digits n.natAbs : ℤ) else toSignificant digits n.natAbs := rfl

theorem roundToDigits_natCast (digits n : ℕ) :
    roundToDigits digits n = (toSignificant digits n : ℤ) := by
  rw [roundToDigits_eq, if_neg (by omega), Int.natAbs_natCast]

theorem roundToDigits_neg_natCast (digits n : ℕ) :
    roundToDigits digits (-n) = -(toSignificant digits n : ℤ) := by
  rw [roundToDigits_eq, Int.natAbs_neg, Int.natAbs_natCast]
  split_ifs with hsign
  · rfl
  · -- only zero is left
    obtain rfl : n = 0 := by omega
    rw [toSignificant_zero]
    rfl

/-- An integer is a natural number or the negative of one. -/
theorem exists_natCast_or_neg (n : ℤ) : (∃ m : ℕ, n = m) ∨ ∃ m : ℕ, n = -m := by
  obtain hsign | hsign := lt_or_ge n 0
  · exact Or.inr ⟨n.natAbs, by omega⟩
  · exact Or.inl ⟨n.natAbs, by omega⟩

/-- What has the digits is not rounded, and nothing else. -/
theorem roundToDigits_eq_self_iff {digits : ℕ} {n : ℤ} :
    roundToDigits digits n = n ↔ Representable digits n.natAbs := by
  rw [← toSignificant_eq_self_iff]
  obtain ⟨m, rfl⟩ | ⟨m, rfl⟩ := exists_natCast_or_neg n
  · rw [roundToDigits_natCast, Int.natAbs_natCast]
    omega
  · rw [roundToDigits_neg_natCast, Int.natAbs_neg, Int.natAbs_natCast]
    omega

/-- **Rounding keeps the order.** -/
theorem roundToDigits_mono {digits : ℕ} (hdigits : 0 < digits) {m n : ℤ} (h : m ≤ n) :
    roundToDigits digits m ≤ roundToDigits digits n := by
  obtain ⟨a, rfl⟩ | ⟨a, rfl⟩ := exists_natCast_or_neg m
  · obtain ⟨b, rfl⟩ : ∃ b : ℕ, n = b := ⟨n.natAbs, by omega⟩
    have hmono := toSignificant_mono hdigits (show a ≤ b by omega)
    rw [roundToDigits_natCast, roundToDigits_natCast]
    omega
  · obtain ⟨b, rfl⟩ | ⟨b, rfl⟩ := exists_natCast_or_neg n
    · rw [roundToDigits_neg_natCast, roundToDigits_natCast]
      omega
    · have hmono := toSignificant_mono hdigits (show b ≤ a by omega)
      rw [roundToDigits_neg_natCast, roundToDigits_neg_natCast]
      omega

/-- A number that is not rounded, nor the next one, has the same numbers above it after
rounding. -/
theorem lt_roundToDigits_iff {digits : ℕ} (hdigits : 0 < digits) {b n : ℤ}
    (hb : roundToDigits digits b = b) (hnext : roundToDigits digits (b + 1) = b + 1) :
    b < roundToDigits digits n ↔ b < n := by
  constructor
  · intro h
    by_contra hle
    have hmono := roundToDigits_mono hdigits (not_lt.mp hle)
    omega
  · intro h
    have hmono := roundToDigits_mono hdigits (show b + 1 ≤ n by omega)
    omega

/-- The same below. -/
theorem roundToDigits_lt_iff {digits : ℕ} (hdigits : 0 < digits) {b n : ℤ}
    (hb : roundToDigits digits b = b) (hprevious : roundToDigits digits (b - 1) = b - 1) :
    roundToDigits digits n < b ↔ n < b := by
  constructor
  · intro h
    by_contra hle
    have hmono := roundToDigits_mono hdigits (not_lt.mp hle)
    omega
  · intro h
    have hmono := roundToDigits_mono hdigits (show n ≤ b - 1 by omega)
    omega

/-! ### The limits of a type -/

namespace IntegralType

/-- The bits of a value besides the sign. -/
def valueBits (T : IntegralType) : ℕ := if T.signed then T.width - 1 else T.width

theorem max_eq (T : IntegralType) : T.max = ((2 ^ T.valueBits - 1 : ℕ) : ℤ) := by
  rw [Nat.cast_sub Nat.one_le_two_pow, max, valueBits]
  split_ifs <;> simp

theorem min_eq (T : IntegralType) :
    T.min = if T.signed then -((2 ^ T.valueBits : ℕ) : ℤ) else 0 := by
  rw [min, valueBits]
  split_ifs <;> simp

/-- The lower limit is zero or a power of two, and is not rounded. -/
theorem roundToDigits_min {digits : ℕ} (hdigits : 0 < digits) (T : IntegralType) :
    roundToDigits digits T.min = T.min := by
  rw [min_eq]
  split_ifs
  · rw [roundToDigits_neg_natCast, toSignificant_two_pow hdigits]
  · rw [roundToDigits_eq_self_iff]
    exact ⟨0, 0, rfl, Nat.two_pow_pos _⟩

/-- The upper limit is rounded to the next power of two, when it has too many digits. -/
theorem roundToDigits_max {digits : ℕ} (hdigits : 0 < digits) (T : IntegralType) :
    roundToDigits digits T.max =
      if T.valueBits ≤ digits then T.max else ((2 ^ T.valueBits : ℕ) : ℤ) := by
  split_ifs with hbits
  · rw [roundToDigits_eq_self_iff, max_eq, Int.natAbs_natCast]
    have hpow := Nat.pow_le_pow_right (show 0 < 2 by omega) hbits
    have hpos := Nat.two_pow_pos T.valueBits
    exact ⟨2 ^ T.valueBits - 1, 0, by simp, by omega⟩
  · rw [max_eq, roundToDigits_natCast, toSignificant_two_pow_sub_one hdigits (by omega)]

theorem max_le_roundToDigits_max {digits : ℕ} (hdigits : 0 < digits) (T : IntegralType) :
    T.max ≤ roundToDigits digits T.max := by
  rw [roundToDigits_max hdigits]
  split_ifs
  · exact le_refl _
  · rw [max_eq]
    exact_mod_cast Nat.sub_le _ _

/-- The limits of an integral type of at most 64 bits. -/
theorem limits {T : IntegralType} (hT : T.width ≤ 64) :
    (-2 ^ 63 ≤ T.min ∧ T.min ≤ 0) ∧ (0 ≤ T.max ∧ T.max < 2 ^ 64) ∧
      (T.signed = true → T.max < 2 ^ 63) ∧ (T.signed = false → T.min = 0) := by
  have hwidth : (2 : ℤ) ^ T.width ≤ 2 ^ 64 := pow_le_pow_right₀ (by norm_num) hT
  have hhalf : (2 : ℤ) ^ (T.width - 1) ≤ 2 ^ 63 := pow_le_pow_right₀ (by norm_num) (by omega)
  have hpos : 0 < (2 : ℤ) ^ T.width ∧ 0 < (2 : ℤ) ^ (T.width - 1) := by
    constructor <;> positivity
  rw [IntegralType.min, IntegralType.max]
  cases T.signed <;> simp <;> omega

/-- The number is greater than the upper limit, and by more than half a unit where the limit
has more digits than are kept. -/
def PastMax (T : IntegralType) (digits : ℕ) (n : ℤ) : Prop :=
  T.max < n ∧ (T.valueBits ≤ digits ∨ 2 ^ T.valueBits + 2 ^ (T.valueBits - digits) < n)

/-- The number is less than the lower limit, and by more than half a unit where the limit has
more digits than are kept. -/
def BelowMin (T : IntegralType) (digits : ℕ) (n : ℤ) : Prop :=
  n < T.min ∧ (T.signed = true → T.valueBits < digits ∨
    n < -(2 ^ T.valueBits + 2 ^ (T.valueBits - digits)))

/-- A number is rounded past the upper limit when it is far enough above it: the limit itself
may be rounded up. -/
theorem roundToDigits_max_lt_iff {digits : ℕ} (hdigits : 2 ≤ digits) (T : IntegralType) (n : ℤ) :
    roundToDigits digits T.max < roundToDigits digits n ↔ T.PastMax digits n := by
  unfold PastMax
  have hround := T.roundToDigits_max (show 0 < digits by omega)
  have hmax := T.max_eq
  rw [Nat.cast_sub Nat.one_le_two_pow] at hmax
  push_cast at hmax
  by_cases hbits : T.valueBits ≤ digits
  · -- the next number is a power of two
    have hnext : roundToDigits digits (T.max + 1) = T.max + 1 := by
      have hpower : T.max + 1 = ((2 ^ T.valueBits : ℕ) : ℤ) := by
        push_cast
        omega
      rw [hpower, roundToDigits_natCast, toSignificant_two_pow (by omega)]
    rw [if_pos hbits] at hround
    rw [hround, lt_roundToDigits_iff (by omega) hround hnext]
    simp only [hbits, true_or, and_true]
  · have hpos : (0 : ℤ) < 2 ^ T.valueBits ∧ (0 : ℤ) < 2 ^ (T.valueBits - digits) := by
      constructor <;> positivity
    rw [hround, if_neg hbits]
    simp only [hbits, false_or]
    obtain ⟨m, rfl⟩ | ⟨m, rfl⟩ := exists_natCast_or_neg n
    · have hthreshold := toSignificant_le_two_pow_iff hdigits
        (k := T.valueBits) (by omega) (n := m)
      rw [roundToDigits_natCast]
      push_cast
      zify at hthreshold
      omega
    · rw [roundToDigits_neg_natCast]
      push_cast
      omega

/-- The number below the lower limit has its digits, unless the limit has too many. -/
theorem roundToDigits_min_sub_one {digits : ℕ} (hdigits : 2 ≤ digits) {T : IntegralType}
    (hbits : T.signed = true → T.valueBits < digits) :
    roundToDigits digits (T.min - 1) = T.min - 1 := by
  rw [roundToDigits_eq_self_iff, min_eq]
  have hfour : 2 ^ 2 ≤ 2 ^ digits := Nat.pow_le_pow_right (by omega) hdigits
  cases hsigned : T.signed with
  | false => exact ⟨1, 0, by simp, by omega⟩
  | true =>
      have hpos := Nat.two_pow_pos T.valueBits
      have hpow : 2 * 2 ^ T.valueBits ≤ 2 ^ digits := by
        rw [← pow_succ']
        exact Nat.pow_le_pow_right (by omega) (hbits hsigned)
      simp only [if_true]
      exact ⟨2 ^ T.valueBits + 1, 0, by omega, by omega⟩

/-- The same below: the lower limit is never rounded, but a number just below it is rounded
to it where the limit has more digits than are kept. -/
theorem roundToDigits_lt_min_iff {digits : ℕ} (hdigits : 2 ≤ digits) (T : IntegralType) (n : ℤ) :
    roundToDigits digits n < roundToDigits digits T.min ↔ T.BelowMin digits n := by
  unfold BelowMin
  have hround := T.roundToDigits_min (show 0 < digits by omega)
  by_cases hbits : T.signed = true → T.valueBits < digits
  · rw [hround, roundToDigits_lt_iff (by omega) hround (roundToDigits_min_sub_one hdigits hbits)]
    exact (and_iff_left fun hsigned => Or.inl (hbits hsigned)).symm
  · rw [Classical.not_imp] at hbits
    obtain ⟨hsigned, hlarge⟩ := hbits
    have hhalf : (0 : ℤ) < 2 ^ (T.valueBits - digits) := by positivity
    rw [hround, min_eq, hsigned]
    simp only [if_true, true_implies, hlarge, false_or]
    obtain ⟨m, rfl⟩ | ⟨m, rfl⟩ := exists_natCast_or_neg n
    · have hpos := Nat.two_pow_pos T.valueBits
      rw [roundToDigits_natCast]
      omega
    · have hthreshold := toSignificant_le_two_pow_iff hdigits
        (k := T.valueBits) (by omega) (n := m)
      rw [roundToDigits_neg_natCast]
      push_cast
      zify at hthreshold
      omega

end IntegralType

/-! ### Exact integers -/

/-- `long double` holds every 64-bit integer. -/
def Platform.ExactIntegers (platform : Platform) : Prop :=
  ∀ n : ℤ, -2 ^ 63 ≤ n → n < 2 ^ 64 → platform.ofInt n = .finite n

/-- A significand of 64 bits is enough. -/
theorem Platform.exactIntegers_of_digits {platform : Platform}
    (h : 64 ≤ platform.longDoubleDigits) : platform.ExactIntegers := by
  intro n hmin hmax
  have hpow : 2 ^ 64 ≤ 2 ^ platform.longDoubleDigits := Nat.pow_le_pow_right (by omega) h
  have hexact : roundToDigits platform.longDoubleDigits n = n :=
    roundToDigits_eq_self_iff.mpr ⟨n.natAbs, 0, by simp, by omega⟩
  rw [Platform.ofInt, hexact]

end EspressioCommand
