import Mathlib.Algebra.Order.Round
import Mathlib.Data.Int.Log
import Mathlib.Tactic

/-!
# Numbers with significant digits

`HasDigits base digits x` says that `x` is written with that many significant digits in the
base, and `Nearest base digits x q` that `q` is a number so written to which no other is
nearer to `x`.  The exponents are not bounded.

* `Nearest.near`: a nearest number is near.
* `HasDigits.eq_of_abs_sub_lt`: two numbers with the same digits are not too near.
* `HasDigits.nearest_of_near`: and one as near as that is a nearest one.
* `Nearest.eq_of_back`: a number survives the way into another base and back, when that
  base has a digit to spare.
-/

namespace EspressioCommand
namespace Library

/-- `x` has that many significant digits in the base. -/
def HasDigits (base digits : ℕ) (x : ℚ) : Prop :=
  ∃ m e : ℤ, x = m * (base : ℚ) ^ e ∧ |m| ≤ (base : ℤ) ^ digits

/-- `q` has the digits, and no number that has them is nearer to `x`. -/
structure Nearest (base digits : ℕ) (x q : ℚ) : Prop where
  written : HasDigits base digits q
  nearest : ∀ z, HasDigits base digits z → |q - x| ≤ |z - x|

variable {base digits : ℕ} {x y q : ℚ}

theorem HasDigits.neg (h : HasDigits base digits x) : HasDigits base digits (-x) := by
  obtain ⟨m, e, rfl, hm⟩ := h
  exact ⟨-m, e, by push_cast; ring, by rwa [abs_neg]⟩

theorem HasDigits.absolute (h : HasDigits base digits x) : HasDigits base digits |x| := by
  rcases abs_choice x with habs | habs
  · rwa [habs]
  · rw [habs]
    exact h.neg

theorem HasDigits.mono (hbase : 0 < base) {more : ℕ} (hmore : digits ≤ more)
    (h : HasDigits base digits x) : HasDigits base more x := by
  obtain ⟨m, e, hx, hm⟩ := h
  exact ⟨m, e, hx, hm.trans (by exact_mod_cast Nat.pow_le_pow_right hbase hmore)⟩

/-- Signs play no part. -/
theorem Nearest.absolute (h : Nearest base digits x q) : Nearest base digits |x| |q| := by
  refine ⟨h.written.absolute, fun z hz => ?_⟩
  calc abs (|q| - |x|) ≤ |q - x| := abs_abs_sub_abs_le _ _
    _ ≤ abs (z - |x|) := by
      rcases abs_choice x with habs | habs
      · rw [habs]
        exact h.nearest z hz
      · have hnegated := h.nearest (-z) hz.neg
        have hswap : abs (z - -x) = |-z - x| := by
          rw [← abs_neg (-z - x)]
          congr 1
          ring
        rw [habs, hswap]
        exact hnegated

/-- A number that has the digits is not passed. -/
theorem Nearest.le_of_le (h : Nearest base digits x q) (hy : HasDigits base digits y)
    (hle : x ≤ y) : q ≤ y := by
  by_contra hnot
  have hnear := h.nearest y hy
  rw [abs_of_nonneg (by linarith), abs_of_nonneg (by linarith)] at hnear
  linarith

/-- The nearest integer to a number between `-n` and `n` is between them too. -/
theorem abs_round_le {n : ℤ} (h : |x| ≤ n) : |round x| ≤ n := by
  have hnear := abs_le.mp (abs_sub_round x)
  have hbounds := abs_le.mp h
  have hlow : (-n : ℚ) - 1 < round x := by linarith
  have hhigh : (round x : ℚ) < n + 1 := by linarith
  have hlow : -n - 1 < round x := by exact_mod_cast hlow
  have hhigh : round x < n + 1 := by exact_mod_cast hhigh
  exact abs_le.mpr ⟨by omega, by omega⟩

/-- Every number has one with the digits near it. -/
theorem exists_hasDigits_near (hbase : 1 < base) (digits : ℕ) (hx : x ≠ 0) :
    ∃ z, HasDigits base (digits + 1) z ∧ |z - x| ≤ |x| / (2 * base ^ digits) := by
  have hb : (1 : ℚ) < base := by exact_mod_cast hbase
  have hpos : 0 < |x| := abs_pos.mpr hx
  let place : ℤ := Int.log base |x| - digits
  have hunit : (0 : ℚ) < (base : ℚ) ^ place := zpow_pos (by linarith) _
  have hsplit : (base : ℚ) ^ place * base ^ digits = (base : ℚ) ^ Int.log base |x| := by
    rw [← zpow_natCast, ← zpow_add₀ (by linarith)]
    congr 1
    omega
  have hlow : (base : ℚ) ^ Int.log base |x| ≤ |x| := Int.zpow_log_le_self hbase hpos
  have hhigh : |x| < (base : ℚ) ^ (Int.log base |x| + 1) := Int.lt_zpow_succ_log_self hbase _
  refine ⟨round (x / (base : ℚ) ^ place) * (base : ℚ) ^ place, ⟨_, place, rfl, ?_⟩, ?_⟩
  · apply abs_round_le
    rw [abs_div, abs_of_pos hunit, div_le_iff₀ hunit]
    push_cast
    calc |x| ≤ (base : ℚ) ^ (Int.log base |x| + 1) := hhigh.le
      _ = base ^ (digits + 1) * (base : ℚ) ^ place := by
        rw [zpow_add₀ (by linarith), zpow_one, ← hsplit, pow_succ]
        ring
  · have hnear := abs_sub_round (x / (base : ℚ) ^ place)
    have hscaled : |round (x / (base : ℚ) ^ place) * (base : ℚ) ^ place - x| =
        |x / (base : ℚ) ^ place - round (x / (base : ℚ) ^ place)| * (base : ℚ) ^ place := by
      rw [← abs_of_pos hunit, ← abs_mul, abs_of_pos hunit, abs_sub_comm, sub_mul,
        div_mul_cancel₀ _ hunit.ne']
    rw [hscaled, le_div_iff₀ (by positivity)]
    calc |x / (base : ℚ) ^ place - round (x / (base : ℚ) ^ place)| * (base : ℚ) ^ place *
          (2 * base ^ digits) ≤ 1 / 2 * (base : ℚ) ^ place * (2 * base ^ digits) := by
          gcongr
      _ = (base : ℚ) ^ place * base ^ digits := by ring
      _ ≤ |x| := by
        rw [hsplit]
        exact hlow

/-- **A nearest number is near.** -/
theorem Nearest.near (hbase : 1 < base) (hx : x ≠ 0) (h : Nearest base (digits + 1) x q) :
    |q - x| ≤ |x| / (2 * base ^ digits) := by
  obtain ⟨z, hz, hnear⟩ := exists_hasDigits_near hbase digits hx
  exact (h.nearest z hz).trans hnear

/-- Multiples of a unit that differ do so by the unit. -/
theorem le_abs_sub_of_multiples {unit : ℚ} (hunit : 0 < unit) {m n : ℤ} (h : m ≠ n) :
    unit ≤ |m * unit - n * unit| := by
  have hstep : (1 : ℚ) ≤ |(m - n : ℚ)| := by
    exact_mod_cast Int.one_le_abs (sub_ne_zero.mpr h)
  rw [← sub_mul, abs_mul, abs_of_pos hunit]
  nlinarith

/-- A multiple of a higher unit is one of a lower unit. -/
theorem mul_zpow_add (hbase : 1 < base) (n e : ℤ) (k : ℕ) :
    (n : ℚ) * (base : ℚ) ^ (e + k) = ((n * base ^ k : ℤ) : ℚ) * (base : ℚ) ^ e := by
  have hb : (1 : ℚ) < base := by exact_mod_cast hbase
  rw [zpow_add₀ (by linarith), zpow_natCast]
  push_cast
  ring

/-- A multiple of the base with one digit more than `n` is not near `n`: it would have to be
the next number behind the largest, which is a multiple of the base itself. -/
theorem eq_of_dvd_of_near (hbase : 1 < base) (hdigits : 0 < digits) {M n : ℤ}
    (hdvd : (base : ℤ) ∣ M) (hn : |n| ≤ base ^ digits)
    (h : |M - n| * (base : ℤ) ^ digits < |M|) : M = n := by
  by_contra hne
  have hdivides : (base : ℤ) ∣ (base : ℤ) ^ digits := dvd_pow_self _ (by omega)
  have hdistinct : 1 ≤ |M - n| := Int.one_le_abs (sub_ne_zero.mpr hne)
  have htriangle : |M| ≤ |n| + |M - n| := by
    have hsum := abs_add_le n (M - n)
    rwa [add_sub_cancel] at hsum
  have htwo : 2 ≤ (base : ℤ) ^ digits := by
    have hle := Nat.pow_le_pow_right (show 0 < base by omega) (show 1 ≤ digits by omega)
    rw [pow_one] at hle
    exact_mod_cast le_trans hbase hle
  generalize (base : ℤ) ^ digits = B at h hn htwo hdivides
  have hone : |M - n| = 1 := by
    by_contra hmore
    have hstep : 2 ≤ |M - n| := by omega
    nlinarith
  rw [hone] at h htriangle
  have hlast : |M| = B + 1 := by omega
  have hbad : (base : ℤ) ∣ 1 := by
    have hdifference := dvd_sub ((dvd_abs _ _).mpr hdvd) hdivides
    rwa [hlast, add_sub_cancel_left] at hdifference
  have hunit := Int.le_of_dvd one_pos hbad
  omega

/-- **Numbers with the same digits are apart.** -/
theorem HasDigits.eq_of_abs_sub_lt (hbase : 1 < base) (hdigits : 0 < digits)
    (hx : HasDigits base digits x) (hy : HasDigits base digits y)
    (h : |x - y| < |x| / base ^ digits) : x = y := by
  obtain ⟨m, e, rfl, hm⟩ := hx
  obtain ⟨n, f, rfl, hn⟩ := hy
  have hb : (1 : ℚ) < base := by exact_mod_cast hbase
  have hpower (p : ℤ) : (0 : ℚ) < (base : ℚ) ^ p := zpow_pos (by linarith) p
  have hpositive : (0 : ℚ) < (base : ℚ) ^ digits := pow_pos (by linarith) _
  rw [lt_div_iff₀ hpositive] at h
  rcases le_or_gt e f with hle | hlt
  · -- both are multiples of the unit of the first
    obtain ⟨k, rfl⟩ : ∃ k : ℕ, f = e + k := ⟨(f - e).toNat, by omega⟩
    have hmq : |(m : ℚ)| ≤ (base : ℚ) ^ digits := by exact_mod_cast hm
    rw [mul_zpow_add hbase, abs_mul _ ((base : ℚ) ^ e), abs_of_pos (hpower e)] at h
    rw [mul_zpow_add hbase]
    by_contra hne
    have hapart := le_abs_sub_of_multiples (hpower e) (m := m) (n := n * base ^ k) (by
      rintro heq
      rw [← heq] at hne
      exact hne rfl)
    nlinarith [hpower e]
  · -- both are multiples of the unit of the second, and the first of its next one
    obtain ⟨k, rfl⟩ : ∃ k : ℕ, e = f + (k + 1 : ℕ) := ⟨(e - f - 1).toNat, by omega⟩
    have hdvd : (base : ℤ) ∣ m * base ^ (k + 1) :=
      dvd_mul_of_dvd_right (dvd_pow_self _ (by omega)) m
    rw [mul_zpow_add hbase, ← sub_mul, abs_mul, abs_mul _ ((base : ℚ) ^ f),
      abs_of_pos (hpower f), mul_right_comm] at h
    have hcancel := lt_of_mul_lt_mul_right h (hpower f).le
    rw [mul_zpow_add hbase, eq_of_dvd_of_near hbase hdigits hdvd hn (by exact_mod_cast hcancel)]

/-- Half of that distance makes a number a nearest one. -/
theorem HasDigits.nearest_of_near (hbase : 1 < base) (hdigits : 0 < digits)
    (hq : HasDigits base digits q) (h : |q - x| ≤ |q| / base ^ digits / 2) :
    Nearest base digits x q := by
  refine ⟨hq, fun z hz => ?_⟩
  by_cases hsame : q = z
  · rw [hsame]
  · have hapart : |q| / base ^ digits ≤ |q - z| := by
      by_contra hless
      exact hsame (hq.eq_of_abs_sub_lt hbase hdigits hz (not_le.mp hless))
    have htriangle : |q - z| ≤ |q - x| + |x - z| := abs_sub_le _ _ _
    rw [abs_sub_comm x z] at htriangle
    linarith

/-- **Into another base and back.**  A number with `digits` digits survives being written in
base `other` with one digit more than the powers of that base need to pass it. -/
theorem Nearest.eq_of_back {other written : ℕ} (hbase : 1 < base) (hother : 1 < other)
    (hdigits : 0 < digits) (hspare : base ^ digits < other ^ written) (hx : x ≠ 0)
    (hwritten : HasDigits base digits x) (hthere : Nearest other (written + 1) x q)
    (hback : Nearest base digits q y) : y = x := by
  have hb : (1 : ℚ) < base := by exact_mod_cast hbase
  have ho : (1 : ℚ) < other := by exact_mod_cast hother
  have hpositive : (0 : ℚ) < (base : ℚ) ^ digits := pow_pos (by linarith) _
  have hspareq : (base : ℚ) ^ digits < (other : ℚ) ^ written := by exact_mod_cast hspare
  have hpos : 0 < |x| := abs_pos.mpr hx
  have hnear := hthere.near hother hx
  have hback' := hback.nearest x hwritten
  have hdistance : |x - y| ≤ |x| / (other : ℚ) ^ written := by
    calc |x - y| ≤ |x - q| + |q - y| := abs_sub_le _ _ _
      _ ≤ |q - x| + |q - x| := by
        rw [abs_sub_comm x q, abs_sub_comm q y]
        rw [abs_sub_comm x q] at hback'
        linarith
      _ ≤ |x| / (other : ℚ) ^ written := by
        rw [mul_comm, ← div_div] at hnear
        linarith
  refine (hwritten.eq_of_abs_sub_lt hbase hdigits hback.written ?_).symm
  exact lt_of_le_of_lt hdistance (div_lt_div_of_pos_left hpos hpositive hspareq)

end Library
end EspressioCommand
