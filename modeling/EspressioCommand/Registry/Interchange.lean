import EspressioCommand.Registry.Validation

/-!
# Typed and textual integers

A callback cannot tell whether an integer argument came typed, from a structured caller,
or as the text that `ToString` makes of it.  The typed path compares the number with the
limits of the target; the textual path goes through `strtoll` or `strtoull`, by the
signedness of the target, and rejects some numbers earlier and with other texts.
`integers_interchangeable` says that the outcome is the same, and `Validate`'s with it.
-/

namespace EspressioCommand

namespace CommandValue

/-! ### Outcomes -/

/-- Both return the same value, or both throw. -/
def SameOutcome {α : Type} (x y : Except Thrown α) : Prop :=
  (∃ a, x = .ok a ∧ y = .ok a) ∨ ∃ e e', x = .error e ∧ y = .error e'

theorem SameOutcome.refl {α : Type} (x : Except Thrown α) : SameOutcome x x := by
  cases x with
  | error e => exact Or.inr ⟨e, e, rfl, rfl⟩
  | ok a => exact Or.inl ⟨a, rfl, rfl⟩

theorem SameOutcome.bind {α β : Type} {x y : Except Thrown α} (h : SameOutcome x y)
    (f : α → Except Thrown β) : SameOutcome (x >>= f) (y >>= f) := by
  rcases h with ⟨a, rfl, rfl⟩ | ⟨e, e', rfl, rfl⟩
  · exact SameOutcome.refl _
  · exact Or.inr ⟨e, e', rfl, rfl⟩

theorem SameOutcome.symm {α : Type} {x y : Except Thrown α} (h : SameOutcome x y) :
    SameOutcome y x := by
  rcases h with ⟨a, hx, hy⟩ | ⟨e, e', hx, hy⟩
  · exact Or.inl ⟨a, hy, hx⟩
  · exact Or.inr ⟨e', e, hy, hx⟩

variable {platform : Platform} {v : CommandValue} {n : ℤ}

/-- What the textual path makes of a number, before the comparison with the limits of
the target: `strtoll` and `strtoull` have limits of their own. -/
theorem integralNumeric_formatInteger (platform : Platform) (hmin : -2 ^ 63 ≤ n)
    (hmax : n < 2 ^ 64) (T : IntegralType) :
    SameOutcome ((string (formatInteger n)).integralNumeric platform T)
      (if (if T.signed then n < 2 ^ 63 else 0 ≤ n) then .ok (platform.ofInt n)
        else outOfRange "Integer command value is out of range") := by
  simp only [integralNumeric]
  cases T.signed with
  | true =>
      rw [strtoll_formatInteger hmin]
      by_cases hlow : n < 2 ^ 63
      · simp only [hlow, if_true, Bool.false_eq_true, if_false, ne_eq, not_true_eq_false]
        exact SameOutcome.refl _
      · simp only [hlow, if_true, if_false]
        exact SameOutcome.refl _
  | false =>
      simp only [Bool.false_eq_true, if_false]
      by_cases hsign : n < 0
      · rw [if_pos ((head?_formatInteger n).mpr hsign), if_neg (by omega)]
        exact Or.inr ⟨_, _, rfl, rfl⟩
      · have hhead : (formatInteger n).head? ≠ some 45 :=
          fun h => hsign ((head?_formatInteger n).mp h)
        have hnonneg : 0 ≤ n := by omega
        rw [if_neg hhead, strtoull_formatInteger hnonneg hmax]
        simp only [hnonneg, Bool.false_eq_true, if_false, if_true, ne_eq, not_true_eq_false]
        exact SameOutcome.refl _

/-- **Integral targets.**  The comparison with the limits of the target rejects what
`strtoll` and `strtoull` reject, and decides the rest as for the typed value. -/
theorem asIntegral_sameOutcome (hexact : platform.ExactIntegers) (hv : v.wholeNumber = some n)
    {T : IntegralType} (hT : T.width ≤ 64) :
    SameOutcome (v.asIntegral platform T)
      ((string (v.toString platform)).asIntegral platform T) := by
  obtain ⟨hmin, hmax, htext⟩ := wholeNumber_spec platform hv
  obtain ⟨⟨hlow, hzero⟩, ⟨hzero', hhigh⟩, hsigned, hunsigned⟩ := IntegralType.limits hT
  have hnumeric := integralNumeric_of_wholeNumber platform hv T
  have hparsed := integralNumeric_formatInteger platform hmin hmax T
  refine SameOutcome.bind ?_ _
  rw [htext, integralInRange, integralInRange, hnumeric]
  by_cases hparses : if T.signed then n < 2 ^ 63 else 0 ≤ n
  · rw [if_pos hparses] at hparsed
    exact (hparsed.bind _).symm
  · -- the text is rejected before the comparison, and the number by it
    have houtside : n < T.min ∨ T.max < n := by
      cases hkind : T.signed with
      | true =>
          have := hsigned hkind
          simp only [hkind, if_true] at hparses
          omega
      | false =>
          have := hunsigned hkind
          simp only [hkind, Bool.false_eq_true, if_false] at hparses
          omega
    rw [if_neg hparses] at hparsed
    obtain ⟨e, hthrows⟩ :
        ∃ e, (string (formatInteger n)).integralNumeric platform T = .error e := by
      rcases hparsed with ⟨a, -, hok⟩ | ⟨e, -, he, -⟩
      · cases hok
      · exact ⟨e, he⟩
    have hcompare : ((platform.ofInt n).lt (platform.ofInt T.min) ||
        (platform.ofInt T.max).lt (platform.ofInt n)) = true := by
      rw [hexact n hmin hmax, hexact T.min hlow (by omega), hexact T.max (by omega) hhigh]
      simpa [LongDouble.lt] using houtside
    rw [hthrows]
    refine Or.inr ⟨.std .outOfRange (text "Integer command value is out of range"), e, ?_, rfl⟩
    show (if _ then _ else _) = _
    rw [if_pos hcompare]
    rfl

/-- A printed integer is none of the words that stand for a truth value. -/
theorem equalsIgnoreCase_formatInteger (n : ℤ) (expected : String) (c : UInt8)
    (hexpected : ((text expected).map toLower).head? = some c) (hc : 97 ≤ c) :
    equalsIgnoreCase (formatInteger n) expected = false := by
  obtain ⟨d, rest, hformat, hd⟩ : ∃ d rest, formatInteger n = d :: rest ∧ toLower d < 97 := by
    rw [formatInteger]
    split_ifs with hsign
    · exact ⟨45, decimal n.natAbs, rfl, by decide⟩
    · obtain ⟨d, rest, hdecimal⟩ := List.exists_cons_of_ne_nil (decimal_ne_nil n.natAbs)
      obtain ⟨k, hk, rfl⟩ := exists_digit_of_mem_decimal (hdecimal ▸ List.mem_cons_self)
      refine ⟨_, rest, hdecimal, ?_⟩
      interval_cases k <;> decide
  rw [equalsIgnoreCase, hformat, beq_eq_false_iff_ne]
  intro heq
  rw [← heq] at hexpected
  obtain rfl := Option.some.inj hexpected
  exact absurd hc (UInt8.not_le.mpr hd)

theorem beq_formatInteger (n m : ℤ) :
    (formatInteger n == formatInteger m) = decide (n = m) := by
  rw [Bool.eq_iff_iff, beq_iff_eq, formatInteger_injective.eq_iff, decide_eq_true_iff]

/-- A number stands for a truth value when it is 0 or 1. -/
theorem asBool_of_wholeNumber (hv : v.wholeNumber = some n) :
    v.asBool =
      if n = 0 ∨ n = 1 then .ok (n == 1)
      else invalidArgument "Expected boolean-compatible integer 0 or 1" := by
  cases v with
  | signedInteger value =>
      obtain rfl := Option.some.inj hv
      have hzero : value = 0 ↔ value.toInt = 0 := Int64.toInt_inj.symm
      have hone : value = 1 ↔ value.toInt = 1 := Int64.toInt_inj.symm
      have hbool : (value == 1) = (value.toInt == 1) := by
        rw [Bool.eq_iff_iff, beq_iff_eq, beq_iff_eq, hone]
      simp only [asBool, hzero, hone, hbool]
  | unsignedInteger value =>
      obtain rfl := Option.some.inj hv
      have hzero : value = 0 ↔ (value.toNat : ℤ) = 0 := by
        rw [← UInt64.toNat_inj]
        exact Int.ofNat_inj.symm
      have hone : value = 1 ↔ (value.toNat : ℤ) = 1 := by
        rw [← UInt64.toNat_inj]
        exact Int.ofNat_inj.symm
      have hbool : (value == 1) = ((value.toNat : ℤ) == 1) := by
        rw [Bool.eq_iff_iff, beq_iff_eq, beq_iff_eq, hone]
      simp only [asBool, hzero, hone, hbool]
  | _ => cases hv

/-- So does its text: none of the words is a printed integer. -/
theorem asBool_formatInteger (n : ℤ) :
    (string (formatInteger n)).asBool =
      if n = 1 then .ok true else if n = 0 then .ok false
      else invalidArgument "Expected boolean value" := by
  have hone : (formatInteger n == text "1") = decide (n = 1) := beq_formatInteger n 1
  have hzero : (formatInteger n == text "0") = decide (n = 0) := beq_formatInteger n 0
  have hword := equalsIgnoreCase_formatInteger n
  simp only [asBool, hone, hzero, hword "true" 116 (by decide) (by decide),
    hword "yes" 121 (by decide) (by decide), hword "on" 111 (by decide) (by decide),
    hword "high" 104 (by decide) (by decide), hword "false" 102 (by decide) (by decide),
    hword "no" 110 (by decide) (by decide), hword "off" 111 (by decide) (by decide),
    hword "low" 108 (by decide) (by decide), Bool.or_false, Bool.false_or,
    decide_eq_true_iff]

/-- **Truth values.**  Only 0 and 1 stand for one, typed or printed. -/
theorem asBool_sameOutcome (platform : Platform) (hv : v.wholeNumber = some n) :
    SameOutcome v.asBool (string (v.toString platform)).asBool := by
  obtain ⟨-, -, htext⟩ := wholeNumber_spec platform hv
  rw [htext, asBool_of_wholeNumber hv, asBool_formatInteger]
  by_cases hone : n = 1
  · subst hone
    exact SameOutcome.refl _
  · by_cases hzero : n = 0
    · subst hzero
      exact SameOutcome.refl _
    · simp only [hone, hzero, or_self, if_false]
      exact Or.inr ⟨_, _, rfl, rfl⟩

/-- Texts are what they are. -/
theorem asString_eq (platform : Platform) (hv : v.wholeNumber = some n) :
    v.asString platform = (string (v.toString platform)).asString platform := by
  cases v with
  | signedInteger value => rfl
  | unsignedInteger value => rfl
  | _ => cases hv

end CommandValue

/-! ### Validation -/

namespace CommandParameter

open CommandValue

variable {σ : Type} {platform : Platform} {v : CommandValue} {n : ℤ}

/-- The `try` block of `Validate`, for every kind but the floating-point one. -/
theorem checkKind_sameOutcome (hexact : platform.ExactIntegers) (hv : v.wholeNumber = some n)
    {parameter : CommandParameter σ} (hkind : parameter.kind ≠ .floatingPoint) :
    SameOutcome (parameter.checkKind platform v)
      (parameter.checkKind platform (.string (v.toString platform))) := by
  have hstring := asString_eq platform hv
  unfold checkKind
  cases h : parameter.kind with
  | string =>
      simp only [← hstring]
      exact SameOutcome.refl _
  | enumeration =>
      simp only [← hstring]
      exact SameOutcome.refl _
  | boolean => exact (asBool_sameOutcome platform hv).bind _
  | signedInteger => exact (asIntegral_sameOutcome hexact hv (Nat.le_refl 64)).bind _
  | unsignedInteger => exact (asIntegral_sameOutcome hexact hv (Nat.le_refl 64)).bind _
  | floatingPoint => exact absurd h hkind

/-- `Validate` accepts an integer exactly when it accepts its text. -/
theorem validate_returns_nil_iff (hexact : platform.ExactIntegers)
    (hv : v.wholeNumber = some n) {parameter : CommandParameter σ}
    (hkind : parameter.kind ≠ .floatingPoint) (state after : σ) :
    (parameter.validate platform v).Returns state [] after ↔
      (parameter.validate platform (.string (v.toString platform))).Returns state [] after := by
  rcases checkKind_sameOutcome hexact hv hkind with ⟨early, hone, htwo⟩ | ⟨e, e', hone, htwo⟩
  · have hsame : parameter.validate platform v =
        parameter.validate platform (.string (v.toString platform)) := by
      unfold validate
      rw [hone, htwo]
      rfl
    rw [hsame]
  · constructor
    · intro h
      exact absurd ⟨after, h⟩ (not_accepts_of_error hone state)
    · intro h
      exact absurd ⟨after, h⟩ (not_accepts_of_error htwo state)

end CommandParameter

namespace CommandValue

/-- **Typed and textual integers are interchangeable.**  For every target, the value and
its text convert to the same, or both throw; and a parameter of any kind but the
floating-point one accepts both or neither. -/
theorem integers_interchangeable {platform : Platform} (hexact : platform.ExactIntegers)
    {v : CommandValue} {n : ℤ} (hv : v.wholeNumber = some n) :
    (∀ T : IntegralType, T.width ≤ 64 →
        SameOutcome (v.asIntegral platform T)
          ((string (v.toString platform)).asIntegral platform T)) ∧
      SameOutcome v.asBool (string (v.toString platform)).asBool ∧
      SameOutcome (v.asString platform) ((string (v.toString platform)).asString platform) ∧
      ∀ (σ : Type) (parameter : CommandParameter σ), parameter.kind ≠ .floatingPoint →
        ∀ state after, (parameter.validate platform v).Returns state [] after ↔
          (parameter.validate platform (.string (v.toString platform))).Returns state [] after := by
  refine ⟨?_, asBool_sameOutcome platform hv, ?_, ?_⟩
  · intro T hT
    exact asIntegral_sameOutcome hexact hv hT
  · rw [← asString_eq platform hv]
    exact SameOutcome.refl _
  · intro σ parameter hkind state after
    exact CommandParameter.validate_returns_nil_iff hexact hv hkind state after

/-- The greatest unsigned number is out of range for `long long`, typed and printed. -/
theorem integers_interchangeable_max :
    SameOutcome ((unsignedInteger 18446744073709551615).asIntegral extendedPlatform .longLong)
      ((string (text "18446744073709551615")).asIntegral extendedPlatform .longLong) :=
  (integers_interchangeable (Platform.exactIntegers_of_digits (Nat.le_refl 64))
    (show wholeNumber (unsignedInteger 18446744073709551615) = some 18446744073709551615 from
      rfl)).1 .longLong (by decide)

end CommandValue

end EspressioCommand
