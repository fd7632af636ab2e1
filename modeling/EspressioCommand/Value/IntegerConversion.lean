import EspressioCommand.Value.IntegerText
import EspressioCommand.Value.Rounding

/-!
# Integers through `long double`

`As<T>` takes every integer through `long double`: the value is rounded, compared with
the rounded limits of `T`, and cast.  With the 64 significant bits of the extended format
nothing is rounded.  With the 53 of a `long double` that is `double`, numbers in the range
come back changed, and numbers just outside the range of a 64-bit type pass the comparison
with a limit that was rounded up, so that the cast is undefined.

`convertsExactly_iff` says which numbers come through.
-/

namespace EspressioCommand

open Library

namespace CommandValue

/-- The number of an integer value. -/
def wholeNumber : CommandValue → Option ℤ
  | signedInteger value => some value.toInt
  | unsignedInteger value => some value.toNat
  | _ => none

variable {platform : Platform} {v : CommandValue} {n : ℤ}

/-- The text of an integer value is that of its number, which has 64 bits. -/
theorem wholeNumber_spec (platform : Platform) (hv : v.wholeNumber = some n) :
    -2 ^ 63 ≤ n ∧ n < 2 ^ 64 ∧ v.toString platform = formatInteger n := by
  cases v with
  | signedInteger value =>
      obtain rfl := Option.some.inj hv
      have hmin := value.le_toInt
      have hmax := value.toInt_lt
      exact ⟨hmin, by omega, rfl⟩
  | unsignedInteger value =>
      obtain rfl := Option.some.inj hv
      have hmax := value.toNat_lt
      exact ⟨by omega, by omega, rfl⟩
  | _ => cases hv

theorem integralNumeric_of_wholeNumber (platform : Platform) (hv : v.wholeNumber = some n)
    (T : IntegralType) :
    v.integralNumeric platform T = .ok (platform.ofInt n) := by
  cases v with
  | signedInteger value =>
      obtain rfl := Option.some.inj hv
      rfl
  | unsignedInteger value =>
      obtain rfl := Option.some.inj hv
      rfl
  | _ => cases hv

/-! ### The integral branch -/

/-- What is compared with the limits is always an integer. -/
theorem exists_int_of_integralNumeric {platform : Platform} {T : IntegralType}
    {v : CommandValue} {x : LongDouble} (h : v.integralNumeric platform T = .ok x) :
    ∃ m : ℤ, x = .finite m := by
  cases v with
  | null => cases h
  | boolean value => exact ⟨if value then 1 else 0, by rw [← Except.ok.inj h]; cases value <;> simp⟩
  | signedInteger value => exact ⟨_, (Except.ok.inj h).symm⟩
  | unsignedInteger value => exact ⟨_, (Except.ok.inj h).symm⟩
  | floatingPoint value =>
      simp only [integralNumeric] at h
      split at h
      · next q _ =>
          split_ifs at h with hwhole
          · exact ⟨⌊q⌋, by rw [hwhole]; exact (Except.ok.inj h).symm⟩
          · cases h
      · cases h
  | string value =>
      simp only [integralNumeric] at h
      split_ifs at h
      all_goals first
        | exact ⟨_, (Except.ok.inj h).symm⟩
        | cases h

/-- The comparison with the limits, in terms of the rounded numbers. -/
theorem asIntegral_eq_ok_iff {platform : Platform} {T : IntegralType} {v : CommandValue}
    {n : ℤ} :
    v.asIntegral platform T = .ok n ↔
      ∃ m : ℤ, v.integralNumeric platform T = .ok (.finite m) ∧
        roundToDigits platform.longDoubleDigits T.min ≤ m ∧
        m ≤ roundToDigits platform.longDoubleDigits T.max ∧
        platform.castTo T (.finite m) = n := by
  rw [asIntegral, integralInRange]
  cases hnumeric : v.integralNumeric platform T with
  | error e => simp [bind, Except.bind]
  | ok x =>
      obtain ⟨m, rfl⟩ := exists_int_of_integralNumeric hnumeric
      simp only [bind, Except.bind, Platform.ofInt, LongDouble.lt, Bool.or_eq_true,
        decide_eq_true_eq, Int.cast_lt]
      split_ifs with hlimit
      · refine iff_of_false (by simp [outOfRange]) ?_
        intro h
        obtain ⟨k, hk, hmin, hmax, -⟩ := h
        obtain rfl : m = k := by simpa using hk
        omega
      · simp only [Except.ok.injEq, LongDouble.finite.injEq, Int.cast_inj, exists_eq_left']
        refine ⟨fun h => ⟨by omega, by omega, h⟩, fun h => h.2.2⟩

/-! ### Integer values -/

/-- The comparison with the limits, for an integer value. -/
theorem integralInRange_of_wholeNumber (platform : Platform) (hv : v.wholeNumber = some n)
    (T : IntegralType) :
    v.integralInRange platform T =
      if roundToDigits platform.longDoubleDigits n <
            roundToDigits platform.longDoubleDigits T.min ∨
          roundToDigits platform.longDoubleDigits T.max <
            roundToDigits platform.longDoubleDigits n then
        outOfRange "Integer command value is out of range"
      else .ok (.finite (roundToDigits platform.longDoubleDigits n)) := by
  rw [integralInRange, integralNumeric_of_wholeNumber platform hv]
  simp only [bind, Except.bind, Platform.ofInt, LongDouble.lt, Bool.or_eq_true,
    decide_eq_true_eq, Int.cast_lt]

/-- The cast leaves an integer in the range of its target alone. -/
theorem castTo_of_inRange (platform : Platform) {T : IntegralType} {m : ℤ} (hmin : T.min ≤ m)
    (hmax : m ≤ T.max) : platform.castTo T (.finite m) = m := by
  simp [Platform.castTo, hmin, hmax]

/-- With exact integers the conversion returns the number that was read, when it is in the
range of the target. -/
theorem asIntegral_eq_ok_iff_of_exact {platform : Platform} (hexact : platform.ExactIntegers)
    {T : IntegralType} (hT : T.width ≤ 64) {v : CommandValue} {n : ℤ} :
    v.asIntegral platform T = .ok n ↔
      v.integralNumeric platform T = .ok (.finite n) ∧ T.min ≤ n ∧ n ≤ T.max := by
  obtain ⟨⟨hlow, hzero⟩, ⟨hzero', hhigh⟩, -⟩ := IntegralType.limits hT
  have hround : ∀ k : ℤ, -2 ^ 63 ≤ k → k < 2 ^ 64 →
      roundToDigits platform.longDoubleDigits k = k := by
    intro k hmin hmax
    simpa [Platform.ofInt] using hexact k hmin hmax
  rw [asIntegral_eq_ok_iff, hround T.min hlow (by omega), hround T.max (by omega) hhigh]
  constructor
  · intro h
    obtain ⟨m, hnumeric, hmin, hmax, hcast⟩ := h
    rw [castTo_of_inRange platform hmin hmax] at hcast
    subst hcast
    exact ⟨hnumeric, hmin, hmax⟩
  · intro h
    obtain ⟨hnumeric, hmin, hmax⟩ := h
    exact ⟨n, hnumeric, hmin, hmax, castTo_of_inRange platform hmin hmax⟩

/-! ### Which integers come through -/

/-- A number in the range of the target is converted to itself, any other is refused as out
of range, and the cast is never applied to a number outside the range. -/
structure ConvertsExactly (platform : Platform) (T : IntegralType) (v : CommandValue)
    (n : ℤ) : Prop where
  inRange : T.min ≤ n → n ≤ T.max → v.asIntegral platform T = .ok n
  beyond : n < T.min ∨ T.max < n → ∃ what, v.asIntegral platform T = .error (.std .outOfRange what)
  castDefined : ∀ numeric, v.integralInRange platform T = .ok numeric →
    ∃ q : ℚ, numeric = .finite q ∧ T.min ≤ q ∧ q ≤ T.max

/-- The number is in the range and has no more significant bits than `long double` keeps;
or it is outside, and not so close to a limit with too many bits that it is rounded to it. -/
def SurvivesRounding (digits : ℕ) (T : IntegralType) (n : ℤ) : Prop :=
  (T.min ≤ n ∧ n ≤ T.max ∧ Representable digits n.natAbs) ∨
    T.PastMax digits n ∨ T.BelowMin digits n

/-- Rounding keeps the order, so that nothing in the range is refused. -/
theorem not_refused_of_inRange {digits : ℕ} (hdigits : 0 < digits) {T : IntegralType} {n : ℤ}
    (hmin : T.min ≤ n) (hmax : n ≤ T.max) :
    ¬ (roundToDigits digits n < roundToDigits digits T.min ∨
      roundToDigits digits T.max < roundToDigits digits n) := by
  have hlow := roundToDigits_mono hdigits hmin
  have hhigh := roundToDigits_mono hdigits hmax
  omega

/-- In the range the number has to be its own rounding. -/
theorem convertsExactly_iff_of_inRange {platform : Platform}
    (hdigits : 0 < platform.longDoubleDigits) (hv : v.wholeNumber = some n) {T : IntegralType}
    (hmin : T.min ≤ n) (hmax : n ≤ T.max) :
    ConvertsExactly platform T v n ↔ Representable platform.longDoubleDigits n.natAbs := by
  have hcompare := integralInRange_of_wholeNumber platform hv T
  rw [if_neg (not_refused_of_inRange hdigits hmin hmax)] at hcompare
  constructor
  · intro h
    have hvalue := h.inRange hmin hmax
    -- the rounded number is the one that is cast, and the cast changes nothing in the range
    obtain ⟨q, hq, hqmin, hqmax⟩ := h.castDefined _ hcompare
    obtain rfl := LongDouble.finite.inj hq
    rw [asIntegral, hcompare] at hvalue
    have hcast := Except.ok.inj hvalue
    rw [castTo_of_inRange platform (by exact_mod_cast hqmin) (by exact_mod_cast hqmax)] at hcast
    exact roundToDigits_eq_self_iff.mp hcast
  · intro h
    rw [roundToDigits_eq_self_iff.mpr h] at hcompare
    refine ⟨?_, ?_, ?_⟩
    · intro _ _
      rw [asIntegral, hcompare]
      exact congrArg Except.ok (castTo_of_inRange platform hmin hmax)
    · intro hbeyond
      omega
    · intro numeric hnumeric
      rw [hcompare] at hnumeric
      exact ⟨n, (Except.ok.inj hnumeric).symm, by exact_mod_cast hmin, by exact_mod_cast hmax⟩

/-- Outside, the rounded number has to be refused. -/
theorem convertsExactly_iff_of_beyond {platform : Platform} (hv : v.wholeNumber = some n)
    {T : IntegralType} (hbeyond : n < T.min ∨ T.max < n) :
    ConvertsExactly platform T v n ↔
      roundToDigits platform.longDoubleDigits n < roundToDigits platform.longDoubleDigits T.min ∨
        roundToDigits platform.longDoubleDigits T.max <
          roundToDigits platform.longDoubleDigits n := by
  have hcompare := integralInRange_of_wholeNumber platform hv T
  constructor
  · intro h
    obtain ⟨what, hthrows⟩ := h.beyond hbeyond
    by_contra haccepted
    rw [if_neg haccepted] at hcompare
    rw [asIntegral, hcompare] at hthrows
    cases hthrows
  · intro hrefused
    rw [if_pos hrefused] at hcompare
    refine ⟨fun _ _ => by omega, fun _ => ⟨_, by rw [asIntegral, hcompare]; rfl⟩, ?_⟩
    intro numeric hnumeric
    rw [hcompare] at hnumeric
    cases hnumeric

/-- **Integers through `long double`.**  On a target with any number of significant bits,
an integer value converts exactly when it survives the rounding, and not otherwise. -/
theorem convertsExactly_iff {platform : Platform} (hdigits : 2 ≤ platform.longDoubleDigits)
    {v : CommandValue} {n : ℤ} (hv : v.wholeNumber = some n) (T : IntegralType) :
    ConvertsExactly platform T v n ↔ SurvivesRounding platform.longDoubleDigits T n := by
  unfold SurvivesRounding
  by_cases hin : T.min ≤ n ∧ n ≤ T.max
  · obtain ⟨hmin, hmax⟩ := hin
    have hnotPast : ¬ T.PastMax platform.longDoubleDigits n := by
      intro hpast
      exact absurd hpast.1 (not_lt.mpr hmax)
    have hnotBelow : ¬ T.BelowMin platform.longDoubleDigits n := by
      intro hbelow
      exact absurd hbelow.1 (not_lt.mpr hmin)
    rw [convertsExactly_iff_of_inRange (by omega) hv hmin hmax]
    simp only [hmin, hmax, true_and, hnotPast, hnotBelow, or_false]
  · have hnotInside : ¬ (T.min ≤ n ∧ n ≤ T.max ∧
        Representable platform.longDoubleDigits n.natAbs) := by
      intro hinside
      exact hin ⟨hinside.1, hinside.2.1⟩
    rw [convertsExactly_iff_of_beyond hv (by omega), T.roundToDigits_max_lt_iff hdigits,
      T.roundToDigits_lt_min_iff hdigits, or_iff_right hnotInside, or_comm]

/-- Where `long double` is `double`, `2 ^ 62` comes back as it is, and the number after the
greatest `long long` is taken, since the limit is rounded to it. -/
theorem convertsExactly_iff_pastMax :
    ConvertsExactly Platform.withoutFloatingText .longLong
        (unsignedInteger 4611686018427387904) 4611686018427387904 ∧
      ¬ ConvertsExactly Platform.withoutFloatingText .longLong
        (unsignedInteger 9223372036854775808) 9223372036854775808 := by
  constructor
  · refine (convertsExactly_iff (by decide) rfl .longLong).mpr (Or.inl ?_)
    exact ⟨by decide, by decide, 1, 62, by decide, by decide⟩
  · rw [convertsExactly_iff (by decide) rfl .longLong]
    intro hsurvives
    rcases hsurvives with ⟨-, hmax, -⟩ | ⟨-, hpast⟩ | ⟨hbelow, -⟩
    · exact absurd hmax (by decide)
    · exact absurd hpast (by decide)
    · exact absurd hbelow (by decide)

/-- Where `long double` is `double`, the number after `2 ^ 53` comes back even. -/
theorem not_convertsExactly_of_double :
    ¬ ConvertsExactly Platform.withoutFloatingText .longLong
      (signedInteger 9007199254740993) 9007199254740993 := by
  intro h
  have hvalue := h.inRange (by decide) (by decide)
  have hcompare := integralInRange_of_wholeNumber Platform.withoutFloatingText
    (show (signedInteger 9007199254740993).wholeNumber = some 9007199254740993 from rfl) .longLong
  have hround : roundToDigits Platform.withoutFloatingText.longDoubleDigits 9007199254740993 =
      9007199254740992 := by decide
  rw [hround, if_neg (by decide)] at hcompare
  rw [asIntegral, hcompare] at hvalue
  have hcast := Except.ok.inj hvalue
  rw [castTo_of_inRange _ (by decide) (by decide)] at hcast
  exact absurd hcast (by decide)

/-- A target with the extended format of 64 significant bits. -/
def extendedPlatform : Platform :=
  { Platform.withoutFloatingText with
    longDoubleDigits := 64
    longDoubleMax := (2 ^ 64 - 1) * 2 ^ (16383 - 63) }

/-- With 64 significant bits every 64-bit number converts, to every type of up to 64 bits. -/
theorem convertsExactly_of_extended {platform : Platform}
    (hdigits : 64 ≤ platform.longDoubleDigits) {v : CommandValue} {n : ℤ}
    (hv : v.wholeNumber = some n) {T : IntegralType} (hT : T.width ≤ 64) :
    ConvertsExactly platform T v n := by
  rw [convertsExactly_iff (by omega) hv]
  obtain ⟨hmin, hmax, -⟩ := wholeNumber_spec platform hv
  have hpow : 2 ^ 64 ≤ 2 ^ platform.longDoubleDigits := Nat.pow_le_pow_right (by omega) hdigits
  have hbits : T.valueBits ≤ T.width := by
    rw [IntegralType.valueBits]
    split_ifs <;> omega
  have hsignBit : T.signed = true → T.valueBits < platform.longDoubleDigits := by
    intro hsigned
    rw [IntegralType.valueBits, if_pos hsigned]
    omega
  obtain hlow | hrest := lt_or_ge n T.min
  · exact Or.inr (Or.inr ⟨hlow, fun hsigned => Or.inl (hsignBit hsigned)⟩)
  · obtain hhigh | hin := lt_or_ge T.max n
    · exact Or.inr (Or.inl ⟨hhigh, Or.inl (by omega)⟩)
    · exact Or.inl ⟨hrest, hin, n.natAbs, 0, by simp, by omega⟩

end CommandValue
end EspressioCommand
