import EspressioCommand.Library.SignificantDigits
import EspressioCommand.Value.CommandValue
import EspressioCommand.Value.NarrowingOrder

/-!
# A `double` and its text

`ToString` prints a `double` with 17 significant digits, and `As<double>` reads a text
through `long double`.  `asDouble_toString`: a normal number comes back, on targets whose
`long double` is `double` and on those where it has 64 digits or more.

In between, the text is read as a `long double` that need not be the number, and it is
rounded a second time.  `magnitudeBits_eq_of_near` is what makes that harmless.
-/

namespace EspressioCommand

open Library

/-! ### Rounding what is near a `double` -/

/-- A whole number less than a half away is the nearest. -/
theorem nearestWhole_eq_of_near {q : ℚ} (hq : 0 ≤ q) {n : ℕ} (hlow : n - 1 / 2 < q)
    (hhigh : q < n + 1 / 2) : nearestWhole q = n := by
  obtain ⟨hbelow, habove⟩ := nearestWhole_near hq
  have hless : (nearestWhole q : ℚ) < n + 1 := by linarith
  have hmore : (n : ℚ) < nearestWhole q + 1 := by linarith
  have hless : nearestWhole q < n + 1 := by exact_mod_cast hless
  have hmore : n < nearestWhole q + 1 := by exact_mod_cast hmore
  omega

namespace Double

/-- The logarithm of a number between two powers. -/
theorem log_eq_of_bounds {b : ℚ} {p : ℤ} (hlow : (2 : ℚ) ^ p ≤ b) (hhigh : b < 2 ^ (p + 1)) :
    Int.log 2 b = p := by
  have hpos : 0 < b := lt_of_lt_of_le (zpow_pos (by norm_num) p) hlow
  have hle := (Int.zpow_le_iff_le_log (b := 2) (by norm_num) hpos).mp hlow
  have hlt := (Int.lt_zpow_iff_log_lt (b := 2) (by norm_num) hpos).mp hhigh
  omega

/-- The last place of a number with 53 digits, if numbers have that place. -/
theorem lastPlace_of_bounds {b : ℚ} {p : ℤ} (hleast : -1074 ≤ p)
    (hlow : (2 : ℚ) ^ 52 * 2 ^ p ≤ b) (hhigh : b < (2 : ℚ) ^ 53 * 2 ^ p) : lastPlace b = p := by
  have hpowers (k : ℕ) : (2 : ℚ) ^ (p + k) = 2 ^ k * 2 ^ p := by
    rw [zpow_add₀ (by norm_num), zpow_natCast, mul_comm]
  have hlog : Int.log 2 b = p + (52 : ℕ) := by
    apply log_eq_of_bounds
    · rw [hpowers]
      exact hlow
    · rw [add_assoc, show ((52 : ℕ) : ℤ) + 1 = (53 : ℕ) by norm_num, hpowers]
      exact hhigh
  rw [lastPlace, hlog]
  push_cast
  omega

/-- The bits of a number with a known last place and significand. -/
theorem magnitudeBits_of_lastPlace {b : ℚ} {p : ℤ} {n : ℕ} (hb : 0 < b) (hplace : lastPlace b = p)
    (hlow : ((n : ℚ) - 1 / 2) * 2 ^ p < b) (hhigh : b < (n + 1 / 2) * 2 ^ p) :
    magnitudeBits b = min ((p + 1074).toNat * 2 ^ 52 + n) (2047 * 2 ^ 52) := by
  have hpower : (0 : ℚ) < 2 ^ p := zpow_pos (by norm_num) p
  rw [magnitudeBits, if_neg hb.ne', hplace, nearestWhole_eq_of_near (div_nonneg hb.le hpower.le)]
  · rwa [lt_div_iff₀ hpower]
  · rwa [div_lt_iff₀ hpower]

variable {d : Double}

/-- The fields of a normal number. -/
theorem significand_bounds (hnormal : d.exponent ≠ 0) :
    2 ^ 52 ≤ d.significand ∧ d.significand < 2 ^ 53 ∧
      d.significand = 2 ^ 52 + d.fraction ∧ d.power = (d.exponent : ℤ) - 1075 := by
  have hfraction := d.fraction_lt
  have hsignificand : d.significand = 2 ^ 52 + d.fraction := if_neg hnormal
  have hpower : d.power = (d.exponent : ℤ) - 1075 := if_neg hnormal
  exact ⟨by omega, by omega, hsignificand, hpower⟩

/-- **Near a normal number** everything is rounded to it: also below a power of two, where
its neighbour is only half as far away. -/
theorem magnitudeBits_eq_of_near (hnormal : d.exponent ≠ 0) (hfinite : d.exponent ≠ 2047) {b : ℚ}
    (h : |b - d.significand * (2 : ℚ) ^ d.power| <
      d.significand * (2 : ℚ) ^ d.power / 2 ^ 54) :
    magnitudeBits b = magnitudeBits (d.significand * (2 : ℚ) ^ d.power) := by
  obtain ⟨hlow, hhigh, hsignificand, hpower⟩ := significand_bounds hnormal
  have hexponent := d.exponent_lt
  have hfraction := d.fraction_lt
  rw [magnitudeBits_eq hfinite (by omega)]
  have hlowq : (2 ^ 52 : ℚ) ≤ d.significand := by exact_mod_cast hlow
  have hhighq : (d.significand : ℚ) ≤ 2 ^ 53 - 1 := by
    have hle : d.significand + 1 ≤ 2 ^ 53 := hhigh
    have hcast : (d.significand : ℚ) + 1 ≤ 2 ^ 53 := by exact_mod_cast hle
    linarith
  have hunit : (0 : ℚ) < 2 ^ d.power := zpow_pos (by norm_num) _
  obtain ⟨hbelow, habove⟩ := abs_lt.mp h
  have hb : 0 < b := by nlinarith
  rcases le_or_gt ((2 : ℚ) ^ 52 * 2 ^ d.power) b with hlarge | hsmall
  · -- the last place is that of the number
    have hplace : lastPlace b = d.power := lastPlace_of_bounds (by omega) hlarge (by nlinarith)
    rw [magnitudeBits_of_lastPlace hb hplace (n := d.significand) (by nlinarith) (by nlinarith)]
    omega
  · -- the number is a power of two, and `b` is below it
    have hfirst : d.significand = 2 ^ 52 := by
      have hless : (d.significand : ℚ) < 2 ^ 52 + 1 := by nlinarith
      have hless : d.significand < 2 ^ 52 + 1 := by exact_mod_cast hless
      omega
    have hfirstq : (d.significand : ℚ) = 2 ^ 52 := by exact_mod_cast hfirst
    rw [hfirstq] at hbelow habove
    rcases eq_or_ne d.exponent 1 with hleast | hmore
    · -- there are no numbers with more places
      have hplace : lastPlace b = d.power := by
        rw [← zpow_natCast, ← zpow_add₀ (by norm_num)] at hsmall
        have hlog := (Int.lt_zpow_iff_log_lt (b := 2) (by norm_num) hb).mp hsmall
        rw [lastPlace]
        omega
      rw [magnitudeBits_of_lastPlace hb hplace (n := 2 ^ 52) (by push_cast; nlinarith)
        (by push_cast; nlinarith)]
      omega
    · have hhalf : (2 : ℚ) ^ (d.power - 1) = 2 ^ d.power / 2 := zpow_sub_one₀ (by norm_num) _
      have hplace : lastPlace b = d.power - 1 :=
        lastPlace_of_bounds (by omega) (by rw [hhalf]; nlinarith) (by rw [hhalf]; linarith)
      rw [magnitudeBits_of_lastPlace hb hplace (n := 2 ^ 53) (by push_cast; rw [hhalf]; nlinarith)
        (by push_cast; rw [hhalf]; nlinarith)]
      omega

/-! ### The largest `double` -/

/-- `std::numeric_limits<double>::max()`. -/
def largest : ℚ := (2 ^ 53 - 1) * 2 ^ 971

/-- The text of the largest number, which is below it. -/
def largestText : ℚ := 17976931348623157 * 10 ^ 292

theorem hasDigits_largest {digits : ℕ} (hdigits : 53 ≤ digits) : HasDigits 2 digits largest := by
  refine HasDigits.mono (by norm_num) hdigits ⟨2 ^ 53 - 1, 971, ?_, ?_⟩
  · rw [largest]
    norm_num
  · norm_num

theorem hasDigits_largestText : HasDigits 10 17 largestText := by
  refine ⟨17976931348623157, 292, ?_, ?_⟩
  · rw [largestText]
    norm_num
  · norm_num

theorem largest_eq : largest = ((9007199254740991 * 2 ^ 971 : ℕ) : ℚ) := by
  rw [largest, Nat.cast_mul, Nat.cast_pow, Nat.cast_ofNat, Nat.cast_ofNat]
  congr 1
  norm_num

theorem largestText_eq : largestText = ((17976931348623157 * 10 ^ 292 : ℕ) : ℚ) := by
  rw [largestText, Nat.cast_mul, Nat.cast_pow, Nat.cast_ofNat, Nat.cast_ofNat]

theorem largestText_le_largest : largestText ≤ largest := by
  rw [largest_eq, largestText_eq]
  exact Nat.cast_le.mpr (by decide +kernel)

/-- The two are nearer than numbers with 17 digits can be. -/
theorem largest_sub_largestText : 2 * (largest - largestText) < largestText / 10 ^ 17 := by
  have hnat : 2 * 10 ^ 17 * (9007199254740991 * 2 ^ 971) <
      (2 * 10 ^ 17 + 1) * (17976931348623157 * 10 ^ 292) := by decide +kernel
  rw [lt_div_iff₀ (by norm_num), largest_eq, largestText_eq]
  generalize 9007199254740991 * 2 ^ 971 = M at hnat ⊢
  generalize 17976931348623157 * 10 ^ 292 = T at hnat ⊢
  have hcast : (2 * 10 ^ 17 * M : ℚ) < (2 * 10 ^ 17 + 1) * T := by exact_mod_cast hnat
  linarith

/-- A number with 17 digits that is nearest to one within the limits is within them. -/
theorem printed_le_largest {a q : ℚ} (h : Nearest 10 17 a q) (ha : a ≤ largest) : q ≤ largest := by
  rcases le_or_gt a largestText with hbelow | habove
  · exact (h.le_of_le hasDigits_largestText hbelow).trans largestText_le_largest
  · -- there is no other number with the digits so near
    have hnear := h.nearest largestText hasDigits_largestText
    have hdistance : |largestText - a| = a - largestText := by
      rw [abs_sub_comm, abs_of_pos (sub_pos.mpr habove)]
    have hpositive : |largestText| = largestText :=
      abs_of_pos (mul_pos (by norm_num) (pow_pos (by norm_num) _))
    have hsame : largestText = q := by
      refine hasDigits_largestText.eq_of_abs_sub_lt (by norm_num) (by norm_num) h.written ?_
      calc |largestText - q| ≤ |largestText - a| + |q - a| := by
            rw [abs_sub_comm q a]
            exact abs_sub_le _ _ _
        _ ≤ 2 * (largest - largestText) := by linarith
        _ < |largestText| / (10 : ℕ) ^ 17 := by
          rw [hpositive]
          exact_mod_cast largest_sub_largestText
    rw [← hsame]
    exact largestText_le_largest

/-- The value of a normal number, without its sign. -/
theorem abs_value {x : ℚ} (hfinite : d.exponent ≠ 2047) (hvalue : d.toLongDouble = .finite x) :
    |x| = d.significand * (2 : ℚ) ^ d.power := by
  have hnonneg : (0 : ℚ) ≤ d.significand * 2 ^ d.power :=
    mul_nonneg (Nat.cast_nonneg _) (zpow_nonneg (by norm_num) _)
  rw [toLongDouble_of_finite hfinite] at hvalue
  obtain rfl := LongDouble.finite.inj hvalue
  split_ifs
  · rw [abs_neg, abs_of_nonneg hnonneg]
  · exact abs_of_nonneg hnonneg

theorem hasDigits_value {x : ℚ} (hnormal : d.exponent ≠ 0) (hfinite : d.exponent ≠ 2047)
    (hvalue : d.toLongDouble = .finite x) : HasDigits 2 53 x := by
  obtain ⟨-, hhigh, -, -⟩ := significand_bounds hnormal
  have hmagnitude : HasDigits 2 53 |x| := by
    rw [abs_value hfinite hvalue]
    refine ⟨d.significand, d.power, by norm_num, ?_⟩
    rw [Nat.abs_cast]
    exact_mod_cast hhigh.le
  rcases abs_choice x with habs | habs
  · rwa [habs] at hmagnitude
  · rw [habs] at hmagnitude
    rw [← neg_neg x]
    exact hmagnitude.neg

theorem abs_value_pos {x : ℚ} (hnormal : d.exponent ≠ 0) (hfinite : d.exponent ≠ 2047)
    (hvalue : d.toLongDouble = .finite x) : 0 < |x| := by
  obtain ⟨hlow, -, -, -⟩ := significand_bounds hnormal
  rw [abs_value hfinite hvalue]
  exact mul_pos (Nat.cast_pos.mpr (by omega)) (zpow_pos (by norm_num) _)

theorem abs_value_le_largest {x : ℚ} (hnormal : d.exponent ≠ 0) (hfinite : d.exponent ≠ 2047)
    (hvalue : d.toLongDouble = .finite x) : |x| ≤ largest := by
  obtain ⟨-, hhigh, -, hpower⟩ := significand_bounds hnormal
  have hexponent := d.exponent_lt
  have hsignificand : (d.significand : ℚ) ≤ 2 ^ 53 - 1 := by
    have hle : d.significand + 1 ≤ 2 ^ 53 := hhigh
    have hcast : (d.significand : ℚ) + 1 ≤ 2 ^ 53 := by exact_mod_cast hle
    linarith
  have hplace : (2 : ℚ) ^ d.power ≤ 2 ^ (971 : ℤ) :=
    zpow_le_zpow_right₀ (by norm_num) (by omega)
  rw [abs_value hfinite hvalue, largest, ← zpow_natCast (2 : ℚ) 971]
  exact mul_le_mul hsignificand hplace (zpow_nonneg (by norm_num) _) (by norm_num)

/-- **Near a normal number** everything is rounded to it, with its sign. -/
theorem ofLongDouble_eq_of_near {x y : ℚ} (hnormal : d.exponent ≠ 0) (hfinite : d.exponent ≠ 2047)
    (hvalue : d.toLongDouble = .finite x) (h : |y - x| < |x| / 2 ^ 54) :
    ofLongDouble (.finite y) = d := by
  have hpos := abs_value_pos hnormal hfinite hvalue
  have hself : ofLongDouble (.finite x) = d := by
    rw [← hvalue]
    apply ofLongDouble_toLongDouble
    · rw [hvalue]
      exact fun h => LongDouble.noConfusion h
    · rw [hvalue]
      intro _ hzero
      rw [LongDouble.finite.inj hzero, abs_zero] at hpos
      exact lt_irrefl _ hpos
  have hless : |y - x| < |x| := lt_of_lt_of_le h (div_le_self hpos.le (by norm_num))
  have hsign : (y < 0) ↔ (x < 0) := by
    obtain ⟨hlow, hhigh⟩ := abs_lt.mp hless
    rcases abs_cases x with ⟨habs, hx⟩ | ⟨habs, hx⟩
    · exact iff_of_false (by linarith) (by linarith)
    · exact iff_of_true (by linarith) hx
  have hmagnitude : magnitudeBits |y| = magnitudeBits |x| := by
    have hnear := lt_of_le_of_lt (abs_abs_sub_abs_le y x) h
    rw [abs_value hfinite hvalue] at hnear ⊢
    exact magnitudeBits_eq_of_near hnormal hfinite hnear
  rw [← hself, ofLongDouble_finite, ofLongDouble_finite, hmagnitude]
  simp only [hsign]

end Double

/-! ### There and back -/

namespace CommandValue

/-- The branch of `As<T>` for floating-point types: `limit` is the largest value of `T`, and
`cast` the conversion to it. -/
def asFloating {α : Type} (platform : Platform) (limit : ℚ) (cast : LongDouble → α)
    (value : CommandValue) : Except Thrown α := do
  let numeric ← (match value with
    | floatingPoint value => .ok value.toLongDouble
    | signedInteger value => .ok (platform.ofInt value.toInt)
    | unsignedInteger value => .ok (platform.ofInt value.toNat)
    | boolean value => .ok (.finite (if value then 1 else 0))
    | string value =>
        let parsed := platform.strtold value
        if parsed.erange then outOfRange "Floating-point command value is out of range"
        else if parsed.consumed ≠ value.length then invalidArgument "Expected numeric value"
        else .ok parsed.value
    | null => invalidArgument "Null command value cannot be converted to number"
      : Except Thrown LongDouble)
  if numeric.lt (LongDouble.finite limit).neg || (LongDouble.finite limit).lt numeric then
    outOfRange "Floating-point command value is out of range"
  else .ok (cast numeric)

/-- `As<long double>` is that branch without a cast. -/
theorem asLongDouble_eq (platform : Platform) (value : CommandValue) :
    value.asLongDouble platform = value.asFloating platform platform.longDoubleMax id := rfl

/-- `As<double>()`. -/
def asDouble (platform : Platform) (value : CommandValue) : Except Thrown Double :=
  value.asFloating platform Double.largest Double.ofLongDouble

/-- A number within the limits passes them. -/
theorem within_largest {y : ℚ} (h : |y| ≤ Double.largest) :
    ((LongDouble.finite y).lt (LongDouble.finite Double.largest).neg ||
      (LongDouble.finite Double.largest).lt (LongDouble.finite y)) = false := by
  obtain ⟨hlow, hhigh⟩ := abs_le.mp h
  simp [LongDouble.lt, LongDouble.neg, hlow, hhigh]

end CommandValue

/-- What `%.17g` and `strtold` do to the number `x` of a `double`, when both are correctly
rounded: the text denotes a number with 17 digits nearest to `x`, and it is read to its
end, as a `long double` nearest to that. -/
def Platform.PrintsAndReads (platform : Platform) (d : Double) (x : ℚ) : Prop :=
  ∃ q y, Nearest 10 17 x q ∧ Nearest 2 platform.longDoubleDigits q y ∧
    platform.strtold (platform.formatDouble d) =
      ⟨.finite y, (platform.formatDouble d).length, false⟩

namespace CommandValue

variable {platform : Platform} {d : Double} {x q y : ℚ}

/-- What is read is near the number, or is the number. -/
theorem read_near (hdigits : platform.longDoubleDigits = 53 ∨ 64 ≤ platform.longDoubleDigits)
    (hx : HasDigits 2 53 x) (hpos : 0 < |x|) (hprinted : Nearest 10 17 x q)
    (hread : Nearest 2 platform.longDoubleDigits q y) : |y - x| < |x| / 2 ^ 54 := by
  have hzero : x ≠ 0 := abs_pos.mp hpos
  rcases hdigits with hdouble | hextended
  · -- the only number with 53 digits so near is the number itself
    rw [hdouble] at hread
    have hspare : 2 ^ 53 < 10 ^ 16 := by norm_num
    have hsame : y = x :=
      Nearest.eq_of_back (by norm_num) (by norm_num) (by norm_num) hspare hzero hx hprinted hread
    rw [hsame, sub_self, abs_zero]
    exact div_pos hpos (by norm_num)
  · have hfar : |q - x| ≤ |x| / (2 * (10 : ℕ) ^ 16) := hprinted.near (by norm_num) hzero
    have hq : |q| ≤ |x| + |q - x| := by
      have hsum := abs_add_le x (q - x)
      rwa [add_sub_cancel] at hsum
    have hqzero : q ≠ 0 := by
      rintro rfl
      rw [zero_sub, abs_neg] at hfar
      norm_num at hfar
      linarith
    obtain ⟨k, hk⟩ : ∃ k, platform.longDoubleDigits = k + 1 :=
      ⟨platform.longDoubleDigits - 1, by omega⟩
    rw [hk] at hread
    have hpower : (2 ^ 63 : ℚ) ≤ (2 : ℕ) ^ k := by
      push_cast
      exact pow_le_pow_right₀ (by norm_num) (by omega)
    have hround : |y - q| ≤ |q| / 2 ^ 64 := by
      have hnear : |y - q| ≤ |q| / (2 * (2 : ℕ) ^ k) := hread.near (by norm_num) hqzero
      refine hnear.trans (div_le_div_of_nonneg_left (abs_nonneg _) (by norm_num) ?_)
      linarith
    have htriangle : |y - x| ≤ |y - q| + |q - x| := abs_sub_le _ _ _
    norm_num at hfar hround ⊢
    linarith

/-- What is read is within the limits of `double`. -/
theorem read_le_largest
    (hdigits : platform.longDoubleDigits = 53 ∨ 64 ≤ platform.longDoubleDigits)
    (hx : |x| ≤ Double.largest) (hprinted : Nearest 10 17 x q)
    (hread : Nearest 2 platform.longDoubleDigits q y) : |y| ≤ Double.largest := by
  have hq : |q| ≤ Double.largest := Double.printed_le_largest hprinted.absolute hx
  exact hread.absolute.le_of_le (Double.hasDigits_largest (by omega)) hq

/-- **A `double` survives its text.**  Where printing and reading are correctly rounded, a
normal number and its text are read as one and the same `double`. -/
theorem asDouble_toString (hnormal : d.exponent ≠ 0) (hfinite : d.exponent ≠ 2047)
    (hdigits : platform.longDoubleDigits = 53 ∨ 64 ≤ platform.longDoubleDigits)
    (hvalue : d.toLongDouble = .finite x) (hcorrect : platform.PrintsAndReads d x) :
    (string ((floatingPoint d).toString platform)).asDouble platform = .ok d ∧
      (floatingPoint d).asDouble platform = .ok d := by
  obtain ⟨q, y, hprinted, hread, hstrtold⟩ := hcorrect
  have hx := Double.hasDigits_value hnormal hfinite hvalue
  have hpos := Double.abs_value_pos hnormal hfinite hvalue
  have hlargest := Double.abs_value_le_largest hnormal hfinite hvalue
  constructor
  · have hnear := read_near hdigits hx hpos hprinted hread
    have hwithin := within_largest (read_le_largest hdigits hlargest hprinted hread)
    rw [asDouble, asFloating, toString, hstrtold]
    simp only [Bool.false_eq_true, if_false, ne_eq, not_true_eq_false]
    show (if _ then _ else _) = _
    rw [hwithin, if_neg Bool.false_ne_true,
      Double.ofLongDouble_eq_of_near hnormal hfinite hvalue hnear]
  · have hself : |x - x| < |x| / 2 ^ 54 := by
      rw [sub_self, abs_zero]
      exact div_pos hpos (by norm_num)
    rw [asDouble, asFloating, hvalue]
    show (if _ then _ else _) = _
    rw [within_largest hlargest, if_neg Bool.false_ne_true,
      Double.ofLongDouble_eq_of_near hnormal hfinite hvalue hself]

/-- The `double` next to nine tenths, and its value. -/
def nineTenths : Double := ⟨0x3FECCCCCCCCCCCCD⟩

def nineTenthsValue : ℚ := 8106479329266893 / 2 ^ 53

/-- A target on which `long double` is `double`, as far as this number goes. -/
def nineTenthsPlatform : Platform :=
  { Platform.withoutFloatingText with
    strtold := fun input => ⟨.finite nineTenthsValue, input.length, false⟩
    formatDouble := fun _ => text "0.90000000000000002" }

/-- Nine tenths, from a text and from a number. -/
theorem asDouble_toString_nineTenths :
    (string (text "0.90000000000000002")).asDouble nineTenthsPlatform = .ok nineTenths ∧
      (floatingPoint nineTenths).asDouble nineTenthsPlatform = .ok nineTenths := by
  have hprinted : Nearest 10 17 nineTenthsValue (90000000000000002 / 10 ^ 17) := by
    refine HasDigits.nearest_of_near (by norm_num) (by norm_num)
      ⟨90000000000000002, -17, by norm_num, by norm_num⟩ ?_
    norm_num [nineTenthsValue, abs_le]
  have hread : Nearest 2 53 (90000000000000002 / 10 ^ 17) nineTenthsValue := by
    refine HasDigits.nearest_of_near (by norm_num) (by norm_num)
      ⟨8106479329266893, -53, by norm_num [nineTenthsValue], by norm_num⟩ ?_
    norm_num [nineTenthsValue, abs_le]
  have hcorrect : nineTenthsPlatform.PrintsAndReads nineTenths nineTenthsValue :=
    ⟨_, _, hprinted, hread, rfl⟩
  exact asDouble_toString (by decide) (by decide) (Or.inl rfl) (by decide +kernel) hcorrect

end CommandValue

end EspressioCommand
