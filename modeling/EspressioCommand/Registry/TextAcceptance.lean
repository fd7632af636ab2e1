import EspressioCommand.Registry.Validation
import EspressioCommand.Value.IntegerLiteral

/-!
# Integer text that is accepted

`As<T>` for a signed `T` returns exactly the integers that the grammar of the text denotes,
but takes the empty text for zero: the library stopped where the text ends.

For an unsigned `T` a text with a minus sign is refused when the sign comes first.  Behind
white space only the library sees it, and negates in the unsigned type: what is left is as
large as the type, unless the magnitude was.
-/

namespace EspressioCommand

open TextCommandParser

namespace CommandValue

/-! ### Signed targets -/

/-- `strtoll` reads the signed number of the scan, when `long long` has it. -/
theorem strtoll_eq (input : CommandString) :
    strtoll input =
      if (scanInteger input).signed < IntegralType.longLong.min then
        ⟨IntegralType.longLong.min, (scanInteger input).consumed, true⟩
      else if IntegralType.longLong.max < (scanInteger input).signed then
        ⟨IntegralType.longLong.max, (scanInteger input).consumed, true⟩
      else ⟨(scanInteger input).signed, (scanInteger input).consumed, false⟩ := rfl

/-- The range of a signed type of at most 64 bits is within that of `long long`. -/
theorem signed_limits {T : IntegralType} (hsigned : T.signed = true) (hT : T.width ≤ 64) :
    IntegralType.longLong.min ≤ T.min ∧ T.max ≤ IntegralType.longLong.max := by
  obtain ⟨⟨hlow, -⟩, -, hhigh, -⟩ := IntegralType.limits hT
  have hmax := hhigh hsigned
  have hlimits : IntegralType.longLong.min = -2 ^ 63 ∧
      IntegralType.longLong.max = 2 ^ 63 - 1 := ⟨rfl, rfl⟩
  rw [hlimits.1, hlimits.2]
  omega

/-- The conversion of a text to a signed type, in terms of the scan. -/
theorem asIntegral_string_iff {platform : Platform} (hexact : platform.ExactIntegers)
    {T : IntegralType} (hsigned : T.signed = true) (hT : T.width ≤ 64) (input : CommandString)
    (n : ℤ) :
    (string input).asIntegral platform T = .ok n ↔
      (scanInteger input).consumed = input.length ∧ (scanInteger input).signed = n ∧
        T.min ≤ n ∧ n ≤ T.max := by
  obtain ⟨hlow, hhigh⟩ := signed_limits hsigned hT
  have hlimits : IntegralType.longLong.min = -2 ^ 63 ∧
      IntegralType.longLong.max = 2 ^ 63 - 1 := ⟨rfl, rfl⟩
  rw [asIntegral_eq_ok_iff_of_exact hexact hT]
  simp only [integralNumeric, hsigned, if_true]
  by_cases hbelow : (scanInteger input).signed < IntegralType.longLong.min
  · rw [strtoll_eq, if_pos hbelow]
    refine iff_of_false (fun h => by cases h.1) ?_
    intro h
    obtain ⟨-, rfl, hmin, -⟩ := h
    omega
  · by_cases habove : IntegralType.longLong.max < (scanInteger input).signed
    · rw [strtoll_eq, if_neg hbelow, if_pos habove]
      refine iff_of_false (fun h => by cases h.1) ?_
      intro h
      obtain ⟨-, rfl, -, hmax⟩ := h
      omega
    · rw [strtoll_eq, if_neg hbelow, if_neg habove]
      simp only [Bool.false_eq_true, if_false]
      by_cases hconsumed : (scanInteger input).consumed = input.length
      · rw [if_neg (not_not.mpr hconsumed), hexact _ (by omega) (by omega)]
        simp only [Except.ok.injEq, LongDouble.finite.injEq, Int.cast_inj, hconsumed, true_and]
      · rw [if_pos hconsumed]
        exact iff_of_false (fun h => by cases h.1) fun h => hconsumed h.1

/-- **Signed integer text.**  With exact integers, and for every signed type of up to 64
bits, `As<T>` returns exactly the integers in range that the text denotes; except for the
empty text, which denotes none and is returned as zero. -/
theorem asIntegral_iff_denotesInteger_iff {platform : Platform} (hexact : platform.ExactIntegers)
    {T : IntegralType} (hsigned : T.signed = true) (hT : T.width ≤ 64) (input : CommandString) :
    (∀ n, (string input).asIntegral platform T = .ok n ↔
        DenotesInteger input n ∧ T.min ≤ n ∧ n ≤ T.max) ↔
      input ≠ [] := by
  constructor
  · intro h hempty
    subst hempty
    obtain ⟨⟨-, hmin⟩, ⟨hmax, -⟩, -⟩ := IntegralType.limits hT
    have hzero := (asIntegral_string_iff hexact hsigned hT [] 0).mpr ⟨rfl, rfl, hmin, hmax⟩
    obtain ⟨hdenotes, -⟩ := (h 0).mp hzero
    exact hdenotes.ne_nil rfl
  · intro hinput n
    rw [asIntegral_string_iff hexact hsigned hT, denotesInteger_iff hinput, and_assoc]

/-- A signed byte reaches as far as minus 128, and not as far as 128. -/
theorem asIntegral_iff_denotesInteger_iff_byte :
    (string (text "-0x80")).asIntegral extendedPlatform ⟨true, 8⟩ = .ok (-128) ∧
      ∀ n, (string (text "0x80")).asIntegral extendedPlatform ⟨true, 8⟩ ≠ .ok n := by
  have hexact := Platform.exactIntegers_of_digits
    (show 64 ≤ extendedPlatform.longDoubleDigits from le_refl 64)
  have hminus : DenotesInteger (text "-0x80") (-128) :=
    (denotesInteger_iff (by decide) _).mpr ⟨by decide, by decide⟩
  constructor
  · refine ((asIntegral_iff_denotesInteger_iff hexact rfl (by decide) _).mpr ?_ _).mpr ?_
    · decide
    · exact ⟨hminus, by decide, by decide⟩
  · intro n hreturns
    have hnonempty : text "0x80" ≠ [] := by decide
    obtain ⟨hdenotes, -, hmax⟩ :=
      ((asIntegral_iff_denotesInteger_iff hexact rfl (by decide) _).mpr hnonempty n).mp hreturns
    obtain ⟨-, rfl⟩ := (denotesInteger_iff hnonempty n).mp hdenotes
    exact absurd hmax (by decide)

/-- The empty text is returned as zero, and denotes nothing. -/
theorem not_asIntegral_iff_denotesInteger_empty :
    ¬ ∀ n, (string []).asIntegral extendedPlatform .longLong = .ok n ↔
      DenotesInteger [] n ∧ IntegralType.longLong.min ≤ n ∧ n ≤ IntegralType.longLong.max := by
  intro h
  have hzero : (string []).asIntegral extendedPlatform .longLong = .ok 0 := by
    rw [asIntegral_string_iff (Platform.exactIntegers_of_digits (le_refl 64)) rfl (by decide)]
    decide
  exact ((h 0).mp hzero).1.ne_nil rfl

/-! ### Unsigned targets -/

/-- A minus sign negates in the unsigned type. -/
theorem strtoull_minus {blanks literal : CommandString} {m : ℕ} (hblanks : Blank blanks)
    (hliteral : IntegerLiteral literal m) :
    strtoull (blanks ++ 45 :: literal) =
      if 2 ^ 64 ≤ m then ⟨2 ^ 64 - 1, (blanks ++ 45 :: literal).length, true⟩
      else ⟨((2 ^ 64 - m) % 2 ^ 64 : ℕ), (blanks ++ 45 :: literal).length, false⟩ := by
  have hlength : blanks.length + 1 + literal.length = (blanks ++ 45 :: literal).length := by
    rw [List.length_append, List.length_cons]
    omega
  rw [strtoull, scanInteger_minus hblanks, hliteral.scanLiteral_eq, hlength]
  rfl

/-- The first character is the sign when no white space comes before it. -/
theorem head?_eq_minus_iff {blanks literal : CommandString} (hblanks : Blank blanks) :
    (blanks ++ 45 :: literal).head? = some 45 ↔ blanks = [] := by
  cases blanks with
  | nil => simp
  | cons c blanks =>
      have hspace := hblanks c List.mem_cons_self
      refine iff_of_false ?_ (List.cons_ne_nil c blanks)
      intro h
      obtain rfl : c = 45 := Option.some.inj h
      exact absurd hspace (by decide)

/-- What an unsigned target compares with its limits: the negated number, where neither the
sign nor the magnitude is refused. -/
theorem integralNumeric_minus (platform : Platform) {T : IntegralType} (hsigned : T.signed = false)
    {blanks literal : CommandString} {m : ℕ} (hblanks : Blank blanks)
    (hliteral : IntegerLiteral literal m) (hm : m ≠ 0) :
    (string (blanks ++ 45 :: literal)).integralNumeric platform T =
      if blanks = [] then outOfRange "Unsigned integer cannot be negative"
      else if 2 ^ 64 ≤ m then outOfRange "Integer command value is out of range"
      else .ok (platform.ofInt (2 ^ 64 - m)) := by
  simp only [integralNumeric, hsigned, Bool.false_eq_true, if_false,
    head?_eq_minus_iff hblanks, strtoull_minus hblanks hliteral]
  by_cases hfirst : blanks = []
  · rw [if_pos hfirst, if_pos hfirst]
  · by_cases hlarge : 2 ^ 64 ≤ m
    · simp only [hfirst, hlarge, if_false, if_true]
    · have hwrapped : (((2 ^ 64 - m) % 2 ^ 64 : ℕ) : ℤ) = 2 ^ 64 - m := by omega
      simp only [hfirst, hlarge, if_false, Bool.false_eq_true, ne_eq, not_true_eq_false, hwrapped]

/-- A negative text throws for an unsigned target where the sign comes first, where its
magnitude has no 64 bits, or where the negated number is past the target's limit. -/
theorem asIntegral_minus_throws_iff {platform : Platform}
    (hdigits : 2 ≤ platform.longDoubleDigits) {T : IntegralType} (hsigned : T.signed = false)
    {blanks literal : CommandString} {m : ℕ} (hblanks : Blank blanks)
    (hliteral : IntegerLiteral literal m) (hm : m ≠ 0) :
    (∃ e, (string (blanks ++ 45 :: literal)).asIntegral platform T = .error e) ↔
      blanks = [] ∨ 2 ^ 64 ≤ m ∨ T.PastMax platform.longDoubleDigits (2 ^ 64 - m) := by
  have hnumeric := integralNumeric_minus platform hsigned hblanks hliteral hm
  by_cases hfirst : blanks = []
  · rw [if_pos hfirst] at hnumeric
    exact iff_of_true ⟨_, by rw [asIntegral, integralInRange, hnumeric]; rfl⟩ (Or.inl hfirst)
  · by_cases hlarge : 2 ^ 64 ≤ m
    · rw [if_neg hfirst, if_pos hlarge] at hnumeric
      exact iff_of_true ⟨_, by rw [asIntegral, integralInRange, hnumeric]; rfl⟩
        (Or.inr (Or.inl hlarge))
    · rw [if_neg hfirst, if_neg hlarge] at hnumeric
      have hnonneg : T.min ≤ 2 ^ 64 - m := by
        rw [T.min_eq, hsigned]
        simp only [Bool.false_eq_true, if_false]
        omega
      have hmin := roundToDigits_mono (show 0 < platform.longDoubleDigits by omega) hnonneg
      rw [← IntegralType.roundToDigits_max_lt_iff hdigits]
      simp only [hfirst, hlarge, false_or]
      constructor
      · intro h
        obtain ⟨e, he⟩ := h
        by_contra hfits
        have hreturns := (asIntegral_eq_ok_iff (T := T)).mpr
          ⟨_, hnumeric, hmin, not_lt.mp hfits, rfl⟩
        rw [hreturns] at he
        cases he
      · intro hpast
        cases hresult : (string (blanks ++ 45 :: literal)).asIntegral platform T with
        | error e => exact ⟨e, rfl⟩
        | ok n =>
            obtain ⟨k, hk, -, hmax, -⟩ := asIntegral_eq_ok_iff.mp hresult
            rw [hnumeric, Platform.ofInt, Except.ok.injEq, LongDouble.finite.injEq,
              Int.cast_inj] at hk
            omega

/-- No unsigned parameter accepts a value that does not convert to the widest type, and one
without a range accepts every other. -/
theorem unsigned_parameters_refuse_iff (platform : Platform) (value : CommandValue) :
    (∀ (σ : Type) (parameter : CommandParameter σ) (state : σ),
        parameter.kind = .unsignedInteger → ¬ parameter.Accepts platform value state) ↔
      ∃ e, value.asIntegral platform .unsignedLongLong = .error e := by
  constructor
  · intro h
    by_contra hreturns
    cases hresult : value.asIntegral platform .unsignedLongLong with
    | error e => exact hreturns ⟨e, hresult⟩
    | ok n =>
        refine h Unit { name := [], kind := .unsignedInteger } () rfl ?_
        rw [CommandParameter.accepts_iff,
          CommandParameter.checkKind_eq_none_iff_converts (by decide)]
        refine ⟨⟨⟨n, hresult⟩, fun _ _ => rfl⟩, Or.inl rfl, Or.inl ?_⟩
        intro validator hvalidator
        cases hvalidator
  · intro h σ parameter state hkind haccepts
    obtain ⟨e, he⟩ := h
    rw [CommandParameter.accepts_iff,
      CommandParameter.checkKind_eq_none_iff_converts (by rw [hkind]; decide)] at haccepts
    obtain ⟨⟨hconverts, -⟩, -⟩ := haccepts
    rw [hkind] at hconverts
    obtain ⟨n, hn⟩ := hconverts
    rw [hn] at he
    cases he

/-- **Negative text and unsigned values.**  For every text of white space, a minus sign and a
literal of a number other than zero: `As<T>` refuses it under the condition above, and the
unsigned parameters refuse it where the sign comes first or the magnitude has no 64 bits, and
not otherwise. -/
theorem negative_text_refused_iff {platform : Platform} (hdigits : 2 ≤ platform.longDoubleDigits)
    {blanks literal : CommandString} {m : ℕ} (hblanks : Blank blanks)
    (hliteral : IntegerLiteral literal m) (hm : m ≠ 0) :
    (∀ T : IntegralType, T.signed = false →
        ((∃ e, (string (blanks ++ 45 :: literal)).asIntegral platform T = .error e) ↔
          blanks = [] ∨ 2 ^ 64 ≤ m ∨ T.PastMax platform.longDoubleDigits (2 ^ 64 - m))) ∧
      ((∀ (σ : Type) (parameter : CommandParameter σ) (state : σ),
          parameter.kind = .unsignedInteger →
          ¬ parameter.Accepts platform (.string (blanks ++ 45 :: literal)) state) ↔
        blanks = [] ∨ 2 ^ 64 ≤ m) := by
  -- nothing is past the limit of the widest type
  have hwidest : ¬ IntegralType.unsignedLongLong.PastMax platform.longDoubleDigits
      (2 ^ 64 - m) := by
    intro hpast
    have hmax : (2 : ℤ) ^ 64 - 1 < 2 ^ 64 - m := hpast.1
    omega
  constructor
  · intro T hsigned
    exact asIntegral_minus_throws_iff hdigits hsigned hblanks hliteral hm
  · rw [unsigned_parameters_refuse_iff, asIntegral_minus_throws_iff hdigits rfl hblanks hliteral hm,
      or_iff_left hwidest]

/-- The number one is a literal. -/
theorem integerLiteral_one : IntegerLiteral (text "1") 1 := by
  have hdigits : ∀ c ∈ (49 : UInt8) :: [], isDigit 10 c = true := by
    intro c hc
    obtain rfl := List.mem_singleton.mp hc
    rfl
  exact .decimal (by decide) hdigits

/-- Minus one is refused as it stands; behind a space it is refused as a byte, and some unsigned
parameter accepts it. -/
theorem negative_text_refused_iff_minusOne :
    (∃ e, (string (text "-1")).asIntegral extendedPlatform .unsignedLongLong = .error e) ∧
      (∃ e, (string (text " -1")).asIntegral extendedPlatform ⟨false, 8⟩ = .error e) ∧
      ∃ (σ : Type) (parameter : CommandParameter σ) (state : σ),
        parameter.kind = .unsignedInteger ∧
          parameter.Accepts extendedPlatform (.string (text " -1")) state := by
  have hfront : text "" ++ 45 :: text "1" = text "-1" := by decide
  have hbehind : text " " ++ 45 :: text "1" = text " -1" := by decide
  have hdigits : 2 ≤ extendedPlatform.longDoubleDigits := by decide
  rw [← hfront, ← hbehind]
  refine ⟨?_, ?_, ?_⟩
  · exact ((negative_text_refused_iff hdigits (by decide) integerLiteral_one (by decide)).1 _
      rfl).mpr (Or.inl (by decide))
  · refine ((negative_text_refused_iff hdigits (by decide) integerLiteral_one (by decide)).1 _
      rfl).mpr (Or.inr (Or.inr ?_))
    exact ⟨by decide, Or.inl (by decide)⟩
  · by_contra hnone
    have hblank : Blank (text " ") := by decide
    have hrefused := (negative_text_refused_iff hdigits hblank integerLiteral_one (by decide)).2.mp
      fun σ parameter state hkind haccepts => hnone ⟨σ, parameter, state, hkind, haccepts⟩
    exact absurd hrefused (by decide)

/-- Minus one behind a space is the greatest number of 64 bits. -/
theorem not_asIntegral_minusOne_throws :
    ¬ ∀ T : IntegralType, T.signed = false → T.width ≤ 64 →
      ∃ e, (string (text " -1")).asIntegral extendedPlatform T = .error e := by
  intro h
  obtain ⟨e, he⟩ := h .unsignedLongLong rfl (by decide)
  have hnumeric := integralNumeric_minus extendedPlatform
    (show IntegralType.unsignedLongLong.signed = false from rfl)
    (show Blank (text " ") by decide) integerLiteral_one (by decide)
  have hexact := Platform.exactIntegers_of_digits
    (show 64 ≤ extendedPlatform.longDoubleDigits from le_refl 64)
  rw [if_neg (by decide), if_neg (by decide), hexact _ (by decide) (by decide)] at hnumeric
  have hreturns := (asIntegral_eq_ok_iff_of_exact hexact (by decide)).mpr
    ⟨hnumeric, by decide, by decide⟩
  have htext : text " " ++ 45 :: text "1" = text " -1" := by decide
  rw [htext, he] at hreturns
  cases hreturns

end CommandValue

end EspressioCommand
