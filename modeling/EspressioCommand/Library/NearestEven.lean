import Mathlib.Algebra.Order.Group.Nat
import Mathlib.Tactic.Ring

/-!
# Rounding to nearest, ties to even

`nearestEven unit n` is the multiple of `unit` nearest to `n`; half way between two
multiples it is the one with the even quotient.  `toSignificant digits n` takes as unit
the weight of the last of that many binary digits, so that the unit grows with the
number.

Both are monotone and fix what they can represent, and `nearestEven_le_iff` gives the
exact threshold above a multiple with an even quotient.
-/

namespace EspressioCommand
namespace Library

/-- The multiple of `unit` nearest to `n`. -/
def nearestEven (unit n : ℕ) : ℕ :=
  (if unit < 2 * (n % unit) ∨ (unit = 2 * (n % unit) ∧ n / unit % 2 = 1) then n / unit + 1
    else n / unit) * unit

/-- `n` rounded to that many significant binary digits. -/
def toSignificant (digits n : ℕ) : ℕ := nearestEven (2 ^ (n.log2 + 1 - digits)) n

/-- `n` has that many significant binary digits, up to a power of two. -/
def Representable (digits n : ℕ) : Prop := ∃ m e, n = m * 2 ^ e ∧ m < 2 ^ digits

/-! ### One unit -/

variable {unit : ℕ}

theorem dvd_nearestEven (unit n : ℕ) : unit ∣ nearestEven unit n := Nat.dvd_mul_left _ _

/-- The quotient is that of the number, or one more. -/
theorem nearestEven_quotient (unit n : ℕ) :
    ∃ q, nearestEven unit n = q * unit ∧ n / unit ≤ q ∧ q ≤ n / unit + 1 := by
  rw [nearestEven]
  split_ifs
  · exact ⟨n / unit + 1, rfl, by omega, le_refl _⟩
  · exact ⟨n / unit, rfl, le_refl _, by omega⟩

@[simp] theorem nearestEven_mul (hunit : 0 < unit) (q : ℕ) :
    nearestEven unit (q * unit) = q * unit := by
  rw [nearestEven, Nat.mul_mod_left, Nat.mul_div_cancel q hunit, if_neg (by omega)]

/-- The multiples of the unit are what rounding leaves alone. -/
theorem nearestEven_eq_self_iff (hunit : 0 < unit) {n : ℕ} :
    nearestEven unit n = n ↔ unit ∣ n := by
  constructor
  · intro h
    rw [← h]
    exact dvd_nearestEven unit n
  · intro h
    obtain ⟨q, rfl⟩ := h
    rw [Nat.mul_comm]
    exact nearestEven_mul hunit q

/-- The multiple that is taken is no further away than half a unit. -/
theorem nearestEven_near (hunit : 0 < unit) (n : ℕ) :
    2 * n ≤ 2 * nearestEven unit n + unit ∧ 2 * nearestEven unit n ≤ 2 * n + unit := by
  have hn := Nat.div_add_mod n unit
  have hr := Nat.mod_lt n hunit
  rw [Nat.mul_comm] at hn
  rw [nearestEven]
  split_ifs with hup
  · rw [Nat.add_mul]
    omega
  · omega

/-- Rounding respects the order. -/
theorem nearestEven_mono (unit : ℕ) {m n : ℕ} (h : m ≤ n) :
    nearestEven unit m ≤ nearestEven unit n := by
  have hquotient : m / unit ≤ n / unit := Nat.div_le_div_right h
  obtain hless | hsame := lt_or_eq_of_le hquotient
  · -- one above the smaller quotient is still no more than the greater one
    obtain ⟨q, hq, -, hqm⟩ := nearestEven_quotient unit m
    obtain ⟨r, hr, hrn, -⟩ := nearestEven_quotient unit n
    rw [hq, hr]
    exact Nat.mul_le_mul_right unit (by omega)
  · have hm := Nat.div_add_mod m unit
    have hn := Nat.div_add_mod n unit
    rw [hsame] at hm
    rw [nearestEven, nearestEven, hsame]
    apply Nat.mul_le_mul_right unit
    split_ifs <;> omega

/-- **The threshold above an even multiple**: half a unit is still rounded down. -/
theorem nearestEven_le_iff (hunit : 0 < unit) {n q : ℕ} (heven : q % 2 = 0) :
    nearestEven unit n ≤ q * unit ↔ 2 * n ≤ (2 * q + 1) * unit := by
  have hn := Nat.div_add_mod n unit
  have hr := Nat.mod_lt n hunit
  constructor
  · intro h
    by_contra hlarge
    -- beyond the half, the number is rounded to the next multiple or is past it already
    have hexpand : (2 * q + 1) * unit = 2 * (q * unit) + unit := by ring
    have hquotient : q ≤ n / unit := by
      rw [Nat.le_div_iff_mul_le hunit]
      omega
    obtain hless | hsame := lt_or_eq_of_le hquotient
    · obtain ⟨p, hp, hlow, -⟩ := nearestEven_quotient unit n
      rw [hp] at h
      have hcancel := Nat.le_of_mul_le_mul_right h hunit
      omega
    · rw [← hsame] at hn
      have hcommute : unit * q = q * unit := Nat.mul_comm unit q
      rw [nearestEven, if_pos (Or.inl (by omega))] at h
      have hcancel := Nat.le_of_mul_le_mul_right h hunit
      omega
  · intro h
    have hexpand : (2 * q + 1) * unit = 2 * (q * unit) + unit := by ring
    have hquotient : n / unit ≤ q := by
      have hless : n / unit < q + 1 := by
        rw [Nat.div_lt_iff_lt_mul hunit, Nat.add_mul, Nat.one_mul]
        omega
      omega
    obtain hless | hsame := lt_or_eq_of_le hquotient
    · obtain ⟨p, hp, -, hhigh⟩ := nearestEven_quotient unit n
      rw [hp]
      exact Nat.mul_le_mul_right unit (by omega)
    · rw [hsame] at hn
      have hcommute : unit * q = q * unit := Nat.mul_comm unit q
      rw [nearestEven, hsame, if_neg (by omega)]

/-! ### Significant digits -/

variable {digits : ℕ}

/-- A power of two is a multiple of the unit of the numbers it starts. -/
theorem toSignificant_two_pow (hdigits : 0 < digits) (k : ℕ) :
    toSignificant digits (2 ^ k) = 2 ^ k := by
  rw [toSignificant, nearestEven_eq_self_iff (Nat.two_pow_pos _), Nat.log2_two_pow]
  exact pow_dvd_pow 2 (by omega)

/-- What has the digits is not rounded, and nothing else. -/
theorem toSignificant_eq_self_iff {n : ℕ} :
    toSignificant digits n = n ↔ Representable digits n := by
  rw [toSignificant, nearestEven_eq_self_iff (Nat.two_pow_pos _)]
  constructor
  · intro h
    obtain ⟨q, hq⟩ := h
    refine ⟨q, n.log2 + 1 - digits, by rw [Nat.mul_comm]; exact hq, ?_⟩
    have hbound : n < 2 ^ (n.log2 + 1) := Nat.lt_log2_self
    have hpow : 2 ^ (n.log2 + 1) ≤ 2 ^ (n.log2 + 1 - digits) * 2 ^ digits := by
      rw [← pow_add]
      exact Nat.pow_le_pow_right (by omega) (by omega)
    have hless : 2 ^ (n.log2 + 1 - digits) * q < 2 ^ (n.log2 + 1 - digits) * 2 ^ digits := by
      omega
    exact Nat.lt_of_mul_lt_mul_left hless
  · intro h
    obtain ⟨m, e, hn, hm⟩ := h
    by_cases hzero : n = 0
    · rw [hzero]
      exact dvd_zero _
    · have hbound : n < 2 ^ (digits + e) := by
        rw [hn, pow_add]
        exact Nat.mul_lt_mul_of_pos_right hm (Nat.two_pow_pos _)
      have hlog := (Nat.log2_lt hzero).mpr hbound
      have hdvd : 2 ^ (n.log2 + 1 - digits) ∣ 2 ^ e := pow_dvd_pow 2 (by omega)
      rw [hn] at hdvd ⊢
      exact dvd_mul_of_dvd_right hdvd m

@[simp] theorem toSignificant_zero (digits : ℕ) : toSignificant digits 0 = 0 :=
  toSignificant_eq_self_iff.mpr ⟨0, 0, rfl, Nat.two_pow_pos _⟩

/-- A number keeps its place between two powers of two. -/
theorem two_pow_le_toSignificant (hdigits : 0 < digits) {n : ℕ} (h : n ≠ 0) :
    2 ^ n.log2 ≤ toSignificant digits n := by
  have hdvd : 2 ^ (n.log2 + 1 - digits) ∣ 2 ^ n.log2 := pow_dvd_pow 2 (by omega)
  rw [← (nearestEven_eq_self_iff (Nat.two_pow_pos _)).mpr hdvd, toSignificant]
  exact nearestEven_mono _ (Nat.log2_self_le h)

theorem toSignificant_le_two_pow (digits n : ℕ) : toSignificant digits n ≤ 2 ^ (n.log2 + 1) := by
  have hdvd : 2 ^ (n.log2 + 1 - digits) ∣ 2 ^ (n.log2 + 1) := pow_dvd_pow 2 (by omega)
  rw [← (nearestEven_eq_self_iff (Nat.two_pow_pos _)).mpr hdvd, toSignificant]
  exact nearestEven_mono _ (le_of_lt Nat.lt_log2_self)

/-- **Rounding to significant digits respects the order**, although the unit changes from
one power of two to the next. -/
theorem toSignificant_mono (hdigits : 0 < digits) {m n : ℕ} (h : m ≤ n) :
    toSignificant digits m ≤ toSignificant digits n := by
  by_cases hzero : m = 0
  · subst hzero
    rw [toSignificant_zero]
    exact Nat.zero_le _
  · have hlog : m.log2 ≤ n.log2 := by
      rw [Nat.le_log2 (by omega)]
      exact le_trans (Nat.log2_self_le hzero) h
    obtain hless | hsame := lt_or_eq_of_le hlog
    · calc toSignificant digits m ≤ 2 ^ (m.log2 + 1) := toSignificant_le_two_pow digits m
        _ ≤ 2 ^ n.log2 := Nat.pow_le_pow_right (by omega) (by omega)
        _ ≤ toSignificant digits n := two_pow_le_toSignificant hdigits (by omega)
    · rw [toSignificant, toSignificant, hsame]
      exact nearestEven_mono _ h

/-- **The threshold above a power of two** with more digits than are kept: half of the
unit that begins there. -/
theorem toSignificant_le_two_pow_iff (hdigits : 2 ≤ digits) {k : ℕ} (hk : digits ≤ k) {n : ℕ} :
    toSignificant digits n ≤ 2 ^ k ↔ n ≤ 2 ^ k + 2 ^ (k - digits) := by
  obtain hbelow | habove := Nat.lt_or_ge n (2 ^ k)
  · have hmono := toSignificant_mono (show 0 < digits by omega) (le_of_lt hbelow)
    rw [toSignificant_two_pow (by omega)] at hmono
    exact ⟨fun _ => le_trans (le_of_lt hbelow) (Nat.le_add_right _ _), fun _ => hmono⟩
  · have hlog : k ≤ n.log2 := by
      rw [Nat.le_log2 (by have := Nat.two_pow_pos k; omega)]
      exact habove
    have hunit : 2 ^ (k + 1 - digits) = 2 * 2 ^ (k - digits) := by
      rw [← pow_succ']
      congr 1
      omega
    have hpower : 2 ^ k = 2 ^ (digits - 1) * 2 ^ (k + 1 - digits) := by
      rw [← pow_add]
      congr 1
      omega
    obtain hless | hsame := lt_or_eq_of_le hlog
    · -- past the next power of two, both sides fail
      have hnext : 2 ^ (k + 1) ≤ 2 ^ n.log2 := Nat.pow_le_pow_right (by omega) hless
      have hn : n ≠ 0 := by
        have := Nat.two_pow_pos k
        omega
      have hround := two_pow_le_toSignificant (show 0 < digits by omega) hn
      have hself := Nat.log2_self_le hn
      have hdouble : 2 ^ (k + 1) = 2 * 2 ^ k := pow_succ' 2 k
      have hhalf : 2 ^ (k - digits) < 2 ^ k := Nat.pow_lt_pow_right (by omega) (by omega)
      constructor
      · intro h
        omega
      · intro h
        omega
    · have heven : 2 ^ (digits - 1) % 2 = 0 := by
        obtain ⟨d, rfl⟩ : ∃ d, digits = d + 2 := ⟨digits - 2, by omega⟩
        rw [show d + 2 - 1 = d + 1 by omega, pow_succ]
        omega
      rw [toSignificant, ← hsame, hpower, nearestEven_le_iff (Nat.two_pow_pos _) heven, ← hpower]
      have hexpand : (2 * 2 ^ (digits - 1) + 1) * 2 ^ (k + 1 - digits) =
          2 * (2 ^ (digits - 1) * 2 ^ (k + 1 - digits)) + 2 ^ (k + 1 - digits) := by ring
      rw [hexpand, ← hpower, hunit]
      omega

/-- Just below a power of two with more digits than are kept, rounding reaches the power. -/
theorem toSignificant_two_pow_sub_one (hdigits : 0 < digits) {k : ℕ} (hk : digits < k) :
    toSignificant digits (2 ^ k - 1) = 2 ^ k := by
  have hpos := Nat.two_pow_pos k
  have hlog : (2 ^ k - 1).log2 = k - 1 := by
    rw [Nat.log2_eq_iff (by have := Nat.one_lt_two_pow (n := k) (by omega); omega)]
    have hdouble : 2 ^ k = 2 * 2 ^ (k - 1) := by
      rw [← pow_succ']
      congr 1
      omega
    have hhalf := Nat.two_pow_pos (k - 1)
    rw [Nat.sub_add_cancel (by omega)]
    omega
  have hunit : k - 1 + 1 - digits = (k - digits - 1) + 1 := by omega
  have hpower : 2 ^ k = 2 ^ digits * 2 ^ (k - digits - 1 + 1) := by
    rw [← pow_add]
    congr 1
    omega
  rw [toSignificant, hlog, hunit, hpower]
  -- the quotient is odd, and the remainder is as large as it can be
  have heven : 2 ^ digits % 2 = 0 := by
    obtain ⟨d, rfl⟩ : ∃ d, digits = d + 1 := ⟨digits - 1, by omega⟩
    rw [pow_succ]
    omega
  have hodd := Nat.two_pow_pos digits
  have hdouble : 2 ^ (k - digits - 1 + 1) = 2 * 2 ^ (k - digits - 1) := pow_succ' 2 _
  have hhalf := Nat.two_pow_pos (k - digits - 1)
  generalize 2 ^ (k - digits - 1 + 1) = unit at *
  generalize 2 ^ digits = q at *
  have hsplit : q * unit - 1 = (unit - 1) + unit * (q - 1) := by
    rw [Nat.mul_sub, Nat.mul_one, Nat.mul_comm unit q]
    have : unit ≤ q * unit := Nat.le_mul_of_pos_left unit hodd
    omega
  have hquotient : (q * unit - 1) / unit = q - 1 := by
    rw [hsplit, Nat.add_mul_div_left _ _ (by omega), Nat.div_eq_of_lt (by omega), Nat.zero_add]
  have hremainder : (q * unit - 1) % unit = unit - 1 := by
    rw [hsplit, Nat.add_mul_mod_self_left, Nat.mod_eq_of_lt (by omega)]
  rw [nearestEven, hquotient, hremainder, if_pos (by omega)]
  congr 1
  omega

end Library
end EspressioCommand
