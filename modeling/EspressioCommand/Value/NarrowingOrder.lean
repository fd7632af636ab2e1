import EspressioCommand.Value.Narrowing

/-!
# The order of rounded numbers

`static_cast<double>` never turns two numbers round: `not_lt_ofLongDouble`.  With
`ofLongDouble_toLongDouble` a `double` stays on its side of a number that is rounded,
unless the two become equal (`toLongDouble_ofLongDouble_toLongDouble`).
-/

namespace EspressioCommand

open Library

namespace LongDouble

theorem lt_irrefl (x : LongDouble) : x.lt x = false := by
  cases x <;> simp [lt]

/-- Two numbers are the same, or one of them is the smaller. -/
theorem lt_or_eq_or_lt {x y : LongDouble} (hx : x ≠ nan) (hy : y ≠ nan) :
    x.lt y = true ∨ x = y ∨ y.lt x = true := by
  cases x <;> cases y <;> simp_all [lt]
  exact lt_trichotomy _ _

theorem eq_of_not_lt {x y : LongDouble} (hx : x ≠ nan) (hy : y ≠ nan) (h : x.lt y = false)
    (h' : y.lt x = false) : x = y := by
  rcases lt_or_eq_or_lt hx hy with hless | heq | hless
  · exact absurd hless (by simp [h])
  · exact heq
  · exact absurd hless (by simp [h'])

/-- Nothing is above or below NaN. -/
theorem ne_nan_of_lt {x y : LongDouble} (h : x.lt y = true) : x ≠ nan ∧ y ≠ nan := by
  constructor
  · rintro rfl
    cases h
  · rintro rfl
    cases x <;> cases h

end LongDouble

/-! ### Magnitudes -/

/-- The whole number that is taken is no further away than a half. -/
theorem nearestWhole_near {q : ℚ} (hq : 0 ≤ q) :
    q - 1 / 2 ≤ nearestWhole q ∧ (nearestWhole q : ℚ) ≤ q + 1 / 2 := by
  obtain ⟨k, hk⟩ := dvd_nearestEven q.den q.num.toNat
  have hnear := nearestEven_near q.den_pos q.num.toNat
  have hden : (0 : ℚ) < q.den := by exact_mod_cast q.den_pos
  have hwhole : nearestWhole q = k := by
    rw [nearestWhole, hk, Nat.mul_div_cancel_left _ q.den_pos]
  have hnum : (q.num.toNat : ℚ) = q * q.den := by
    have hcast : ((q.num.toNat : ℤ) : ℚ) = q.num := by
      rw [Int.toNat_of_nonneg (Rat.num_nonneg.mpr hq)]
    rw [Rat.mul_den_eq_num, ← hcast, Int.cast_natCast]
  rw [hk] at hnear
  have hlow : (2 * (q * q.den) : ℚ) ≤ 2 * (q.den * k) + q.den := by
    rw [← hnum]
    exact_mod_cast hnear.1
  have hhigh : (2 * (q.den * k) : ℚ) ≤ 2 * (q * q.den) + q.den := by
    rw [← hnum]
    exact_mod_cast hnear.2
  rw [hwhole]
  constructor
  · nlinarith
  · nlinarith

/-- Rounding to whole numbers respects the order. -/
theorem nearestWhole_mono {q r : ℚ} (hq : 0 ≤ q) (h : q ≤ r) : nearestWhole q ≤ nearestWhole r := by
  obtain rfl | hless := eq_or_lt_of_le h
  · exact le_refl _
  · obtain ⟨hlow, -⟩ := nearestWhole_near (le_trans hq h)
    obtain ⟨-, hhigh⟩ := nearestWhole_near hq
    by_contra hnot
    have hstep : (nearestWhole r : ℚ) + 1 ≤ nearestWhole q := by exact_mod_cast not_le.mp hnot
    linarith

namespace Double

/-- The greater number has the greater bits. -/
theorem magnitudeBits_mono {a b : ℚ} (ha : 0 ≤ a) (h : a ≤ b) :
    magnitudeBits a ≤ magnitudeBits b := by
  obtain rfl | hpos := eq_or_lt_of_le ha
  · rw [magnitudeBits, if_pos rfl]
    exact Nat.zero_le _
  · have hb : 0 < b := lt_of_lt_of_le hpos h
    have hlog : Int.log 2 a ≤ Int.log 2 b := Int.log_mono_right hpos h
    have hplace : lastPlace a ≤ lastPlace b := by
      rw [lastPlace, lastPlace]
      omega
    have hleast : -1074 ≤ lastPlace a := le_max_right _ _
    rw [magnitudeBits, magnitudeBits, if_neg hpos.ne', if_neg hb.ne']
    refine min_le_min_right _ ?_
    have hpower (p : ℤ) : (0 : ℚ) < 2 ^ p := zpow_pos (by norm_num) p
    obtain hsame | hless := eq_or_lt_of_le hplace
    · rw [hsame]
      have hscaled : a / 2 ^ lastPlace b ≤ b / 2 ^ lastPlace b :=
        div_le_div_of_nonneg_right h (hpower _).le
      have hwhole := nearestWhole_mono (div_nonneg ha (hpower _).le) hscaled
      omega
    · -- the smaller number ends below the power of two at which the greater one starts
      have hsmall : nearestWhole (a / 2 ^ lastPlace a) ≤ 2 ^ 53 := by
        have hbound : a / 2 ^ lastPlace a < 2 ^ 53 := by
          rw [div_lt_iff₀ (hpower _), ← zpow_natCast, ← zpow_add₀ (by norm_num)]
          refine (Int.lt_zpow_iff_log_lt (b := 2) (by norm_num) hpos).mpr ?_
          have hle : Int.log 2 a - 52 ≤ lastPlace a := le_max_left _ _
          push_cast
          omega
        obtain ⟨-, hhigh⟩ := nearestWhole_near (div_nonneg ha (hpower (lastPlace a)).le)
        have hcast : (nearestWhole (a / 2 ^ lastPlace a) : ℚ) < 2 ^ 53 + 1 := by linarith
        exact Nat.lt_succ_iff.mp (by exact_mod_cast hcast)
      have hlarge : 2 ^ 52 ≤ nearestWhole (b / 2 ^ lastPlace b) := by
        have heq : lastPlace b = Int.log 2 b - 52 := by
          have hgreater : lastPlace b = max (Int.log 2 b - 52) (-1074) := rfl
          omega
        have hbound : 2 ^ 52 ≤ b / 2 ^ lastPlace b := by
          rw [le_div_iff₀ (hpower _), ← zpow_natCast, ← zpow_add₀ (by norm_num)]
          refine (Int.zpow_le_iff_le_log (b := 2) (by norm_num) hb).mpr ?_
          push_cast
          omega
        obtain ⟨hlow, -⟩ := nearestWhole_near (div_nonneg hb.le (hpower (lastPlace b)).le)
        have hcast : ((2 ^ 52 : ℕ) : ℚ) < nearestWhole (b / 2 ^ lastPlace b) + 1 := by
          push_cast
          linarith
        exact Nat.lt_succ_iff.mp (by exact_mod_cast hcast)
      have hsteps : (lastPlace a + 1074).toNat + 1 ≤ (lastPlace b + 1074).toNat := by omega
      omega

theorem magnitudeBits_le (magnitude : ℚ) : magnitudeBits magnitude ≤ 2047 * 2 ^ 52 := by
  rw [magnitudeBits]
  split_ifs
  · exact Nat.zero_le _
  · exact Nat.min_le_right _ _

/-! ### Bits -/

/-- The magnitude with these exponent and fraction bits, in units of the smallest one. -/
def units (bits : ℕ) : ℕ :=
  if bits / 2 ^ 52 = 0 then bits % 2 ^ 52
  else (2 ^ 52 + bits % 2 ^ 52) * 2 ^ (bits / 2 ^ 52 - 1)

theorem units_mono {m n : ℕ} (h : m ≤ n) : units m ≤ units n := by
  have hm := Nat.div_add_mod m (2 ^ 52)
  have hn := Nat.div_add_mod n (2 ^ 52)
  have hfraction := Nat.mod_lt m (show 0 < 2 ^ 52 by norm_num)
  have hexponent : m / 2 ^ 52 ≤ n / 2 ^ 52 := Nat.div_le_div_right h
  rw [units, units]
  obtain hsame | hless := eq_or_lt_of_le hexponent
  · rw [hsame] at hm ⊢
    have hle : m % 2 ^ 52 ≤ n % 2 ^ 52 := by omega
    split_ifs
    · exact hle
    · exact Nat.mul_le_mul_right _ (by omega)
  · rw [if_neg (show n / 2 ^ 52 ≠ 0 by omega)]
    split_ifs with hzero
    · calc m % 2 ^ 52 ≤ (2 ^ 52 + n % 2 ^ 52) * 1 := by omega
        _ ≤ (2 ^ 52 + n % 2 ^ 52) * 2 ^ (n / 2 ^ 52 - 1) :=
          Nat.mul_le_mul_left _ (Nat.two_pow_pos _)
    · -- the next exponent starts where this one ends
      calc (2 ^ 52 + m % 2 ^ 52) * 2 ^ (m / 2 ^ 52 - 1)
          ≤ 2 ^ 53 * 2 ^ (m / 2 ^ 52 - 1) := Nat.mul_le_mul_right _ (by omega)
        _ = 2 ^ 52 * 2 ^ (m / 2 ^ 52 - 1 + 1) := by rw [pow_succ _ (m / 2 ^ 52 - 1)]; ring
        _ ≤ 2 ^ 52 * 2 ^ (n / 2 ^ 52 - 1) :=
          Nat.mul_le_mul_left _ (Nat.pow_le_pow_right (by norm_num) (by omega))
        _ ≤ (2 ^ 52 + n % 2 ^ 52) * 2 ^ (n / 2 ^ 52 - 1) := Nat.mul_le_mul_right _ (by omega)

/-- The datum with a sign and a magnitude. -/
def ofMagnitude (sign : Bool) (bits : ℕ) : Double :=
  ⟨BitVec.ofNat 64 ((if sign then 2 ^ 63 else 0) + bits)⟩

theorem fields_ofMagnitude (sign : Bool) {bits : ℕ} (h : bits ≤ 2047 * 2 ^ 52) :
    (ofMagnitude sign bits).negative = sign ∧
      (ofMagnitude sign bits).exponent = bits / 2 ^ 52 ∧
      (ofMagnitude sign bits).fraction = bits % 2 ^ 52 := by
  have hbits : (ofMagnitude sign bits).bits.toNat = (if sign then 2 ^ 63 else 0) + bits := by
    rw [ofMagnitude, BitVec.toNat_ofNat, Nat.mod_eq_of_lt]
    cases sign <;> simp <;> omega
  rw [negative, exponent, fraction, hbits]
  cases sign with
  | true =>
      refine ⟨by simp, ?_, ?_⟩
      · rw [if_pos rfl]
        omega
      · rw [if_pos rfl]
        omega
  | false =>
      refine ⟨by simp; omega, ?_, ?_⟩
      · rw [if_neg Bool.false_ne_true]
        omega
      · rw [if_neg Bool.false_ne_true]
        omega

/-- The value of a finite one. -/
theorem toLongDouble_ofMagnitude {sign : Bool} {bits : ℕ} (h : bits < 2047 * 2 ^ 52) :
    (ofMagnitude sign bits).toLongDouble =
      .finite (if sign then -(units bits * (2 : ℚ) ^ (-1074 : ℤ))
        else units bits * (2 : ℚ) ^ (-1074 : ℤ)) := by
  obtain ⟨hnegative, hexponent, hfraction⟩ := fields_ofMagnitude sign (le_of_lt h)
  have hvalue : ((ofMagnitude sign bits).significand : ℚ) * 2 ^ (ofMagnitude sign bits).power =
      units bits * (2 : ℚ) ^ (-1074 : ℤ) := by
    rw [significand, power, units, hexponent, hfraction]
    split_ifs with hzero
    · rfl
    · have hsum : ((bits / 2 ^ 52 : ℕ) : ℤ) - 1075 =
          ((bits / 2 ^ 52 - 1 : ℕ) : ℤ) + -1074 := by omega
      rw [hsum, zpow_add₀ (by norm_num), zpow_natCast]
      generalize (2 : ℚ) ^ (-1074 : ℤ) = smallest
      push_cast
      ring
  rw [toLongDouble_of_finite (by omega), hnegative, hvalue]

/-- The value of an infinity. -/
theorem toLongDouble_ofMagnitude_infinity (sign : Bool) :
    (ofMagnitude sign (2047 * 2 ^ 52)).toLongDouble = if sign then .negInf else .posInf := by
  cases sign <;> decide

/-- **Signed magnitudes** are ordered as their bits are. -/
theorem not_lt_ofMagnitude {m n : ℕ} (hn : n ≤ 2047 * 2 ^ 52) (h : m ≤ n) :
    (ofMagnitude false n).toLongDouble.lt (ofMagnitude false m).toLongDouble = false ∧
      (ofMagnitude true m).toLongDouble.lt (ofMagnitude true n).toLongDouble = false := by
  have hunit : (0 : ℚ) ≤ 2 ^ (-1074 : ℤ) := zpow_nonneg (by norm_num) _
  obtain rfl | hfinite := eq_or_lt_of_le hn
  · rw [toLongDouble_ofMagnitude_infinity, toLongDouble_ofMagnitude_infinity]
    constructor
    · rfl
    · cases (ofMagnitude true m).toLongDouble <;> rfl
  · have hscaled : (units m * (2 : ℚ) ^ (-1074 : ℤ)) ≤ units n * 2 ^ (-1074 : ℤ) :=
      mul_le_mul_of_nonneg_right (by exact_mod_cast units_mono h) hunit
    have hsmaller : m < 2047 * 2 ^ 52 := lt_of_le_of_lt h hfinite
    simp only [toLongDouble_ofMagnitude hfinite, toLongDouble_ofMagnitude hsmaller,
      LongDouble.lt, if_true, Bool.false_eq_true, if_false, decide_eq_false_iff_not, not_lt]
    exact ⟨hscaled, neg_le_neg hscaled⟩

/-- A number with a sign is not above one without. -/
theorem not_lt_ofMagnitude_of_signs {m n : ℕ} (hm : m ≤ 2047 * 2 ^ 52) (hn : n ≤ 2047 * 2 ^ 52) :
    (ofMagnitude false n).toLongDouble.lt (ofMagnitude true m).toLongDouble = false := by
  have hunit : (0 : ℚ) ≤ 2 ^ (-1074 : ℤ) := zpow_nonneg (by norm_num) _
  obtain rfl | hfinite := eq_or_lt_of_le hm
  · rw [toLongDouble_ofMagnitude_infinity, if_pos rfl]
    cases (ofMagnitude false n).toLongDouble <;> rfl
  · rw [toLongDouble_ofMagnitude hfinite, if_pos rfl]
    obtain rfl | hfinite' := eq_or_lt_of_le hn
    · rw [toLongDouble_ofMagnitude_infinity]
      rfl
    · rw [toLongDouble_ofMagnitude hfinite', if_neg Bool.false_ne_true, LongDouble.lt,
        decide_eq_false_iff_not, not_lt]
      exact le_trans (neg_nonpos.mpr (mul_nonneg (Nat.cast_nonneg _) hunit))
        (mul_nonneg (Nat.cast_nonneg _) hunit)

theorem ofLongDouble_finite (q : ℚ) :
    ofLongDouble (.finite q) = ofMagnitude (decide (q < 0)) (magnitudeBits |q|) := by
  rw [ofLongDouble, ofMagnitude]
  by_cases hsign : q < 0 <;> simp [hsign]

/-- **Rounding turns no two numbers round.** -/
theorem not_lt_ofLongDouble {x y : LongDouble} (h : x.lt y = true) :
    (ofLongDouble y).toLongDouble.lt (ofLongDouble x).toLongDouble = false := by
  have hleast : (ofLongDouble .negInf).toLongDouble = .negInf := by decide
  have hgreatest : (ofLongDouble .posInf).toLongDouble = .posInf := by decide
  cases x with
  | nan => cases h
  | posInf => cases y <;> cases h
  | negInf =>
      rw [hleast]
      cases (ofLongDouble y).toLongDouble <;> rfl
  | finite a =>
      cases y with
      | nan => cases h
      | negInf => cases h
      | posInf =>
          rw [hgreatest]
          rfl
      | finite b =>
          have hab : a < b := of_decide_eq_true h
          rw [ofLongDouble_finite, ofLongDouble_finite]
          rcases lt_or_ge a 0 with ha | ha
          · rcases lt_or_ge b 0 with hb | hb
            · rw [decide_eq_true ha, decide_eq_true hb]
              refine (not_lt_ofMagnitude (magnitudeBits_le _)
                (magnitudeBits_mono (abs_nonneg _) ?_)).2
              rw [abs_of_neg ha, abs_of_neg hb]
              linarith
            · rw [decide_eq_true ha, decide_eq_false (not_lt.mpr hb)]
              exact not_lt_ofMagnitude_of_signs (magnitudeBits_le _) (magnitudeBits_le _)
          · have hb : 0 ≤ b := le_trans ha hab.le
            rw [decide_eq_false (not_lt.mpr ha), decide_eq_false (not_lt.mpr hb)]
            refine (not_lt_ofMagnitude (magnitudeBits_le _)
              (magnitudeBits_mono (abs_nonneg _) ?_)).1
            rw [abs_of_nonneg ha, abs_of_nonneg hb]
            exact hab.le

/-! ### A `double` beside a rounded number -/

/-- The value of a `double` survives, whatever its sign or payload. -/
theorem toLongDouble_ofLongDouble_toLongDouble (d : Double) :
    (ofLongDouble d.toLongDouble).toLongDouble = d.toLongDouble := by
  by_cases hnan : d.toLongDouble = .nan
  · rw [hnan]
    decide
  · by_cases hzero : d.toLongDouble = .finite 0
    · rw [hzero]
      have hbits : magnitudeBits |0| = 0 := by rw [abs_zero, magnitudeBits, if_pos rfl]
      rw [ofLongDouble_finite, hbits, toLongDouble_ofMagnitude (by norm_num)]
      simp [units]
    · rw [ofLongDouble_toLongDouble hnan fun _ => hzero]

variable {d : Double} {x : LongDouble}

/-- A `double` that is not below a number is not below the rounded one. -/
theorem not_lt_round_of_not_lt (h : d.toLongDouble.lt x = false) :
    d.toLongDouble.lt (ofLongDouble x).toLongDouble = false := by
  by_cases hd : d.toLongDouble = .nan
  · rw [hd]
    rfl
  by_cases hx : x = .nan
  · subst hx
    have hnan : (ofLongDouble .nan).toLongDouble = .nan := by decide
    rw [hnan]
    cases d.toLongDouble <;> rfl
  rcases LongDouble.lt_or_eq_or_lt hd hx with hless | rfl | hless
  · rw [h] at hless
    cases hless
  · rw [toLongDouble_ofLongDouble_toLongDouble]
    exact LongDouble.lt_irrefl _
  · have hround := not_lt_ofLongDouble hless
    rwa [toLongDouble_ofLongDouble_toLongDouble] at hround

/-- Nor is one that is not above it. -/
theorem not_round_lt_of_not_lt (h : x.lt d.toLongDouble = false) :
    (ofLongDouble x).toLongDouble.lt d.toLongDouble = false := by
  by_cases hd : d.toLongDouble = .nan
  · rw [hd]
    cases (ofLongDouble x).toLongDouble <;> rfl
  by_cases hx : x = .nan
  · subst hx
    have hnan : (ofLongDouble .nan).toLongDouble = .nan := by decide
    rw [hnan]
    rfl
  rcases LongDouble.lt_or_eq_or_lt hd hx with hless | rfl | hless
  · have hround := not_lt_ofLongDouble hless
    rwa [toLongDouble_ofLongDouble_toLongDouble] at hround
  · rw [toLongDouble_ofLongDouble_toLongDouble]
    exact LongDouble.lt_irrefl _
  · rw [h] at hless
    cases hless

/-- Only NaN becomes NaN. -/
theorem eq_nan_of_round_eq_nan (h : (ofLongDouble x).toLongDouble = .nan) : x = .nan := by
  have hmagnitude (sign : Bool) {bits : ℕ} (hbits : bits ≤ 2047 * 2 ^ 52) :
      (ofMagnitude sign bits).toLongDouble ≠ .nan := by
    obtain rfl | hfinite := eq_or_lt_of_le hbits
    · cases sign <;> decide
    · rw [toLongDouble_ofMagnitude hfinite]
      exact fun h => LongDouble.noConfusion h
  cases x with
  | nan => rfl
  | negInf => exact absurd h (by decide)
  | posInf => exact absurd h (by decide)
  | finite q =>
      rw [ofLongDouble_finite] at h
      exact absurd h (hmagnitude _ (magnitudeBits_le _))

/-- A `double` below a number and not below the rounded one is the rounded one. -/
theorem eq_round_of_lt (h : d.toLongDouble.lt x = true)
    (hround : d.toLongDouble.lt (ofLongDouble x).toLongDouble = false) :
    d.toLongDouble = (ofLongDouble x).toLongDouble := by
  obtain ⟨hd, hx⟩ := LongDouble.ne_nan_of_lt h
  have hturn := not_lt_ofLongDouble h
  rw [toLongDouble_ofLongDouble_toLongDouble] at hturn
  exact LongDouble.eq_of_not_lt hd (fun hnan => hx (eq_nan_of_round_eq_nan hnan)) hround hturn

/-- And so is one above a number and not above the rounded one. -/
theorem eq_round_of_gt (h : x.lt d.toLongDouble = true)
    (hround : (ofLongDouble x).toLongDouble.lt d.toLongDouble = false) :
    d.toLongDouble = (ofLongDouble x).toLongDouble := by
  obtain ⟨hx, hd⟩ := LongDouble.ne_nan_of_lt h
  have hturn := not_lt_ofLongDouble h
  rw [toLongDouble_ofLongDouble_toLongDouble] at hturn
  exact LongDouble.eq_of_not_lt hd (fun hnan => hx (eq_nan_of_round_eq_nan hnan)) hturn hround

end Double

end EspressioCommand
