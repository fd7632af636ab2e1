import EspressioCommand.Registry.CommandParameter
import EspressioCommand.Value.IntegerConversion

/-!
# What `Validate` accepts

`Validate` answers with a text, and the empty text means valid.  Four stages can end it:
the conversion to the parameter's kind with the range test behind it, the choices, and the
validator.  `accepts_iff` names what has to come out of each stage for the answer to be
empty, and with it two ways in which it can be empty wrongly: a validator that refuses
without a message, and a range test that NaN passes.
-/

namespace EspressioCommand

namespace LongDouble

/-- The order of the extended reals, in which NaN has no place. -/
def AtMost (x y : LongDouble) : Prop := x.lt y = true ∨ (x = y ∧ x ≠ nan)

instance (x y : LongDouble) : Decidable (x.AtMost y) :=
  inferInstanceAs (Decidable (x.lt y = true ∨ (x = y ∧ x ≠ nan)))

/-- Away from NaN the order is total. -/
theorem not_lt_iff_atMost {x y : LongDouble} (hx : x ≠ nan) (hy : y ≠ nan) :
    y.lt x = false ↔ x.AtMost y := by
  cases x <;> cases y <;> simp_all [AtMost, lt, le_iff_lt_or_eq]

/-- A number that is not outside finite limits lies between them, or is no number. -/
theorem not_outside_iff {a b : ℚ} {x : LongDouble} :
    (x.lt (finite a) = false ∧ (finite b).lt x = false) ↔
      x = nan ∨ ∃ q, x = finite q ∧ a ≤ q ∧ q ≤ b := by
  cases x with
  | nan => simp [lt]
  | negInf => simp [lt]
  | posInf => simp [lt]
  | finite q => simp [lt]

end LongDouble

/-- The type that the number of an integer parameter is read as. -/
def ParameterKind.integral? : ParameterKind → Option IntegralType
  | .signedInteger => some .longLong
  | .unsignedInteger => some .unsignedLongLong
  | _ => none

namespace CommandParameter

variable {σ : Type}

/-! ### The stages -/

/-- Started in `state`, `Validate` answers with the empty text. -/
def Accepts (parameter : CommandParameter σ) (platform : Platform) (value : CommandValue)
    (state : σ) : Prop :=
  ∃ after, (parameter.validate platform value).Returns state [] after

/-- The value converts to the kind. -/
def Converts (platform : Platform) (value : CommandValue) : ParameterKind → Prop
  | .boolean => ∃ b, value.asBool = .ok b
  | .signedInteger => ∃ n, value.asIntegral platform .longLong = .ok n
  | .unsignedInteger => ∃ n, value.asIntegral platform .unsignedLongLong = .ok n
  | .floatingPoint => ∃ x, value.asLongDouble platform = .ok x
  | .string | .enumeration => ∃ s, value.asString platform = .ok s

/-- The text of the value is one of the choices, where there are any. -/
def Chosen (parameter : CommandParameter σ) (platform : Platform) (value : CommandValue) : Prop :=
  parameter.choices = [] ∨ value.toString platform ∈ parameter.choices

/-- The validator, where there is one, answers true. -/
def ValidatorAgrees (parameter : CommandParameter σ) (view : CommandString) (state : σ) : Prop :=
  ∀ validator, parameter.validator = some validator →
    ∃ after, (validator view).Returns state true after

/-- The validator answers false, and there is no message to say so. -/
def RefusesSilently (parameter : CommandParameter σ) (view : CommandString) (state : σ) : Prop :=
  parameter.validatorMessage = [] ∧
    ∃ validator after, parameter.validator = some validator ∧
      (validator view).Returns state false after

theorem RefusesSilently.not_agrees {parameter : CommandParameter σ} {view : CommandString}
    {state : σ} (h : parameter.RefusesSilently view state) :
    ¬ parameter.ValidatorAgrees view state := by
  obtain ⟨-, validator, after, hvalidator, hfalse⟩ := h
  intro hagrees
  obtain ⟨after', htrue⟩ := hagrees validator hvalidator
  have hboth := hfalse.symm.trans htrue
  cases hboth

/-- A message that names the parameter is not empty. -/
theorem namedError_ne_nil (parameter : CommandParameter σ) {pre : String} (hpre : text pre ≠ [])
    (suffix : String) : parameter.namedError pre suffix ≠ [] := by
  intro hnil
  rw [namedError, buildCommandMessage, List.append_eq_nil_iff, List.append_eq_nil_iff] at hnil
  exact hpre hnil.1.1

/-- The number that is compared with the range, where the kind has one. -/
def comparedNumber (platform : Platform) (value : CommandValue) :
    ParameterKind → Except Thrown (Option LongDouble)
  | .boolean => value.asBool.map fun _ => none
  | .signedInteger =>
      (value.asIntegral platform .longLong).map fun n => some (platform.ofInt n)
  | .unsignedInteger =>
      (value.asIntegral platform .unsignedLongLong).map fun n => some (platform.ofInt n)
  | .floatingPoint => (value.asLongDouble platform).map some
  | .string | .enumeration => (value.asString platform).map fun _ => none

/-- The conversion stage: an exception, or the range test of the number. -/
theorem checkKind_eq (parameter : CommandParameter σ) (platform : Platform)
    (value : CommandValue) :
    parameter.checkKind platform value =
      (comparedNumber platform value parameter.kind).map fun compared =>
        compared.bind fun numeric =>
          if parameter.outsideRange numeric then
            some (parameter.namedError "Value for '" "' is outside the allowed range")
          else none := by
  unfold checkKind comparedNumber
  cases parameter.kind with
  | boolean => cases value.asBool <;> rfl
  | signedInteger => cases value.asIntegral platform .longLong <;> rfl
  | unsignedInteger => cases value.asIntegral platform .unsignedLongLong <;> rfl
  | floatingPoint => cases value.asLongDouble platform <;> rfl
  | string => cases value.asString platform <;> rfl
  | enumeration => cases value.asString platform <;> rfl

/-- The conversion stage is passed where the value converts and the number is not outside
the range. -/
theorem checkKind_eq_none_iff (parameter : CommandParameter σ) (platform : Platform)
    (value : CommandValue) :
    parameter.checkKind platform value = .ok none ↔
      ∃ compared, comparedNumber platform value parameter.kind = .ok compared ∧
        ∀ numeric, compared = some numeric → parameter.outsideRange numeric = false := by
  rw [checkKind_eq]
  cases comparedNumber platform value parameter.kind with
  | error e => simp [Except.map]
  | ok compared => cases compared <;> simp [Except.map]

/-- The range test speaks up where it fails. -/
theorem ne_nil_of_checkKind {parameter : CommandParameter σ} {platform : Platform}
    {value : CommandValue} {message : CommandString}
    (h : parameter.checkKind platform value = .ok (some message)) : message ≠ [] := by
  rw [checkKind_eq] at h
  cases hcompared : comparedNumber platform value parameter.kind with
  | error e =>
      rw [hcompared] at h
      cases h
  | ok compared =>
      rw [hcompared] at h
      cases compared with
      | none => cases h
      | some numeric =>
          have hmessage := Except.ok.inj h
          simp only [Option.bind_some] at hmessage
          split_ifs at hmessage
          rw [← Option.some.inj hmessage]
          exact parameter.namedError_ne_nil (by decide) _

/-- The call of the validator answers with the empty text where it returns true, or false
without a message. -/
theorem validator_returns_nil_iff (call : Eff σ Bool) (message : CommandString) (state : σ) :
    (∃ after, (call >>= fun accepted =>
        if accepted then pure [] else pure message).Returns state [] after) ↔
      (∃ after, call.Returns state true after) ∨
        message = [] ∧ ∃ after, call.Returns state false after := by
  simp only [Eff.Returns, Eff.runFrom_bind]
  obtain ⟨outcome, between⟩ := call.runFrom state
  cases outcome with
  | error e => simp
  | ok accepted => cases accepted <;> simp

/-- A message of its own is not the empty text. -/
theorem not_returns_nil {message : CommandString} (h : message ≠ []) (state after : σ) :
    ¬ (pure message : Eff σ CommandString).Returns state [] after := by
  intro hreturns
  exact h (Except.ok.inj (congrArg Prod.fst hreturns))

/-- Where the conversion throws, the value is not accepted. -/
theorem not_accepts_of_error {parameter : CommandParameter σ} {platform : Platform}
    {value : CommandValue} {e : Thrown} (h : parameter.checkKind platform value = .error e)
    (state : σ) : ¬ parameter.Accepts platform value state := by
  unfold Accepts validate
  rw [h]
  intro haccepts
  obtain ⟨after, hreturns⟩ := haccepts
  cases e with
  | foreign => cases hreturns
  | std kind what =>
      refine not_returns_nil ?_ state after hreturns
      intro hnil
      exact parameter.namedError_ne_nil (by decide) _ (List.append_eq_nil_iff.mp hnil).1

/-- Nor is it where the range test speaks up. -/
theorem not_accepts_of_message {parameter : CommandParameter σ} {platform : Platform}
    {value : CommandValue} {message : CommandString}
    (h : parameter.checkKind platform value = .ok (some message)) (state : σ) :
    ¬ parameter.Accepts platform value state := by
  unfold Accepts validate
  rw [h]
  intro haccepts
  obtain ⟨after, hreturns⟩ := haccepts
  exact not_returns_nil (ne_nil_of_checkKind h) state after hreturns

/-- Behind the conversion stage come the choices and the validator. -/
theorem accepts_iff_of_converted {parameter : CommandParameter σ} {platform : Platform}
    {value : CommandValue} (h : parameter.checkKind platform value = .ok none) (state : σ) :
    parameter.Accepts platform value state ↔
      parameter.Chosen platform value ∧
        (parameter.ValidatorAgrees (value.toString platform) state ∨
          parameter.RefusesSilently (value.toString platform) state) := by
  unfold Accepts validate
  rw [h]
  by_cases hchosen : parameter.Chosen platform value
  · have hnot : ¬ (parameter.choices ≠ [] ∧ value.toString platform ∉ parameter.choices) := by
      intro hoffered
      exact hchosen.elim hoffered.1 hoffered.2
    simp only [hnot, if_false, hchosen, true_and]
    unfold ValidatorAgrees RefusesSilently
    cases hvalidator : parameter.validator with
    | none => exact iff_of_true ⟨state, rfl⟩ (Or.inl fun _ h => by cases h)
    | some validator =>
        simp only [Option.some.injEq, forall_eq', exists_and_left, exists_eq_left']
        exact validator_returns_nil_iff (validator (value.toString platform))
          parameter.validatorMessage state
  · have hoffered : parameter.choices ≠ [] ∧ value.toString platform ∉ parameter.choices :=
      not_or.mp hchosen
    simp only [hchosen, false_and, iff_false]
    intro haccepts
    obtain ⟨after, hreturns⟩ := haccepts
    rw [if_pos hoffered] at hreturns
    exact not_returns_nil (parameter.namedError_ne_nil (by decide) _) state after hreturns

/-- **What `Validate` accepts.**  The value passes the conversion stage, is among the
choices, and the validator agrees or has nothing to say. -/
theorem accepts_iff (parameter : CommandParameter σ) (platform : Platform)
    (value : CommandValue) (state : σ) :
    parameter.Accepts platform value state ↔
      parameter.checkKind platform value = .ok none ∧ parameter.Chosen platform value ∧
        (parameter.ValidatorAgrees (value.toString platform) state ∨
          parameter.RefusesSilently (value.toString platform) state) := by
  cases hkind : parameter.checkKind platform value with
  | error e => exact iff_of_false (not_accepts_of_error hkind state) (by simp)
  | ok early =>
      cases early with
      | some message => exact iff_of_false (not_accepts_of_message hkind state) (by simp)
      | none => simpa only [true_and] using accepts_iff_of_converted hkind state

/-! ### The range of a floating-point parameter -/

/-- The value is NaN, or a text that `strtold` reads as NaN to its end. -/
def DenotesNaN (platform : Platform) : CommandValue → Prop
  | .floatingPoint value => value.toLongDouble = .nan
  | .string value =>
      (platform.strtold value).value = .nan ∧
        (platform.strtold value).consumed = value.length ∧
        (platform.strtold value).erange = false
  | _ => False

/-- The comparison with the limits of `long double` lets NaN pass, and makes none. -/
theorem limited_eq_nan_iff (platform : Platform) (x : LongDouble) :
    (if x.lt (LongDouble.finite platform.longDoubleMax).neg ||
          (LongDouble.finite platform.longDoubleMax).lt x then
        CommandValue.outOfRange "Floating-point command value is out of range"
      else .ok x : Except Thrown LongDouble) = .ok .nan ↔ x = .nan := by
  split_ifs with hlimit
  · refine iff_of_false (by simp [CommandValue.outOfRange]) ?_
    intro hnan
    subst hnan
    simp [LongDouble.lt] at hlimit
  · exact Except.ok.injEq x .nan ▸ Iff.rfl

/-- `As<long double>` returns NaN for what denotes it. -/
theorem asLongDouble_eq_nan_iff (platform : Platform) (value : CommandValue) :
    value.asLongDouble platform = .ok .nan ↔ DenotesNaN platform value := by
  unfold CommandValue.asLongDouble DenotesNaN
  cases value with
  | null => exact iff_of_false (by intro h; cases h) id
  | boolean value => exact (limited_eq_nan_iff platform _).trans (by simp)
  | signedInteger value => exact (limited_eq_nan_iff platform _).trans (by simp [Platform.ofInt])
  | unsignedInteger value => exact (limited_eq_nan_iff platform _).trans (by simp [Platform.ofInt])
  | floatingPoint value => exact limited_eq_nan_iff platform _
  | string value =>
      simp only
      split_ifs with herange hconsumed
      · exact iff_of_false (by intro h; cases h) (by simp [herange])
      · exact iff_of_false (by intro h; cases h) (by simp [hconsumed])
      · refine (limited_eq_nan_iff platform _).trans ?_
        simpa [herange] using fun _ => not_not.mp hconsumed

/-- **The range of a floating-point parameter.**  An accepted value is a number between the
limits, unless it is NaN and nothing but the range stands against it: both range tests
compare in order to reject, and no comparison with NaN holds. -/
theorem floatingPoint_range_iff {parameter : CommandParameter σ} {platform : Platform} {a b : ℚ}
    (hkind : parameter.kind = .floatingPoint) (hrange : parameter.hasRange = true)
    (hmin : parameter.minimum = .finite a) (hmax : parameter.maximum = .finite b)
    (value : CommandValue) (state : σ) :
    (parameter.Accepts platform value state →
        ∃ q : ℚ, value.asLongDouble platform = .ok (.finite q) ∧ a ≤ q ∧ q ≤ b) ↔
      ¬ (DenotesNaN platform value ∧ parameter.Chosen platform value ∧
        (parameter.ValidatorAgrees (value.toString platform) state ∨
          parameter.RefusesSilently (value.toString platform) state)) := by
  have houtside : ∀ x : LongDouble, parameter.outsideRange x = false ↔
      x = .nan ∨ ∃ q, x = .finite q ∧ a ≤ q ∧ q ≤ b := by
    intro x
    rw [← LongDouble.not_outside_iff, outsideRange, hrange, hmin, hmax, Bool.true_and,
      Bool.or_eq_false_iff]
  rw [accepts_iff, checkKind_eq_none_iff, hkind, comparedNumber, ← asLongDouble_eq_nan_iff]
  cases hconverted : value.asLongDouble platform with
  | error e => simp [Except.map]
  | ok x =>
      simp only [Except.map, Except.ok.injEq, exists_eq_left', Option.some.injEq, forall_eq',
        houtside]
      constructor
      · intro h hnan
        obtain ⟨rfl, hrest⟩ := hnan
        obtain ⟨q, hq, -⟩ := h ⟨Or.inl rfl, hrest⟩
        cases hq
      · intro h haccepts
        obtain ⟨hnan | hnumber, hrest⟩ := haccepts
        · exact absurd ⟨hnan, hrest⟩ h
        · exact hnumber

/-- A duty cycle between zero and one. -/
def dutyParameter : CommandParameter Unit where
  name := text "duty"
  kind := .floatingPoint
  hasRange := true
  minimum := .finite 0
  maximum := .finite 1

/-- A duty cycle that is accepted is a number between the limits for `true`, and is not for
NaN. -/
theorem floatingPoint_range_iff_duty :
    (dutyParameter.Accepts .withoutFloatingText (.boolean true) () →
        ∃ q : ℚ, CommandValue.asLongDouble .withoutFloatingText (.boolean true) =
          .ok (.finite q) ∧ 0 ≤ q ∧ q ≤ 1) ∧
      ¬ (dutyParameter.Accepts .withoutFloatingText (.floatingPoint ⟨0x7FF8000000000000⟩) () →
        ∃ q : ℚ, CommandValue.asLongDouble .withoutFloatingText
          (.floatingPoint ⟨0x7FF8000000000000⟩) = .ok (.finite q) ∧ 0 ≤ q ∧ q ≤ 1) := by
  constructor
  · rw [floatingPoint_range_iff rfl rfl rfl rfl]
    intro hpasses
    exact hpasses.1
  · rw [floatingPoint_range_iff rfl rfl rfl rfl, not_not]
    have hnan : Double.toLongDouble ⟨0x7FF8000000000000⟩ = .nan := by decide
    refine ⟨hnan, Or.inl rfl, Or.inl ?_⟩
    intro validator hvalidator
    cases hvalidator

/-- NaN is accepted as a duty cycle. -/
theorem dutyParameter_accepts_nan :
    ¬ (dutyParameter.Accepts .withoutFloatingText (.floatingPoint ⟨0x7FF8000000000000⟩) () →
      ∃ q : ℚ, CommandValue.asLongDouble .withoutFloatingText
        (.floatingPoint ⟨0x7FF8000000000000⟩) = .ok (.finite q) ∧ 0 ≤ q ∧ q ≤ 1) := by
  have hnan : CommandValue.asLongDouble .withoutFloatingText
      (.floatingPoint ⟨0x7FF8000000000000⟩) = .ok .nan := by
    rw [asLongDouble_eq_nan_iff]
    show Double.toLongDouble ⟨0x7FF8000000000000⟩ = .nan
    decide
  have haccepts : dutyParameter.Accepts .withoutFloatingText
      (.floatingPoint ⟨0x7FF8000000000000⟩) () := by
    rw [accepts_iff, checkKind_eq_none_iff]
    refine ⟨⟨some .nan, by rw [dutyParameter, comparedNumber, hnan]; rfl, ?_⟩, Or.inl rfl,
      Or.inl ?_⟩
    · intro numeric hnumeric
      obtain rfl := Option.some.inj hnumeric
      rfl
    · intro validator hvalidator
      cases hvalidator
  intro h
  obtain ⟨q, hq, -⟩ := h haccepts
  rw [hnan] at hq
  cases hq

/-! ### The declared contract -/

/-- `n` is what the value converts to for an integer parameter. -/
def IntegerOf (platform : Platform) (value : CommandValue) (kind : ParameterKind) (n : ℤ) : Prop :=
  ∃ T, kind.integral? = some T ∧ value.asIntegral platform T = .ok n

/-- The range, where one is set, holds the number of an integer parameter. -/
def InRange (parameter : CommandParameter σ) (platform : Platform) (value : CommandValue) : Prop :=
  parameter.hasRange = true → ∀ n, IntegerOf platform value parameter.kind n →
    parameter.minimum.AtMost (.finite n) ∧ (LongDouble.finite n).AtMost parameter.maximum

/-- The test of the range, which compares the number rounded to `long double`. -/
def PassesRangeTest (parameter : CommandParameter σ) (platform : Platform)
    (value : CommandValue) : Prop :=
  ∀ n, IntegerOf platform value parameter.kind n →
    parameter.outsideRange (platform.ofInt n) = false

/-- What the descriptor of a parameter declares: the value converts to the kind, lies in the
range, has one of the choices as its text, and pleases the validator. -/
structure MeetsContract (parameter : CommandParameter σ) (platform : Platform)
    (value : CommandValue) (state : σ) : Prop where
  converts : Converts platform value parameter.kind
  range : parameter.InRange platform value
  choice : parameter.Chosen platform value
  validator : parameter.ValidatorAgrees (value.toString platform) state

/-- The conversion stage of a parameter whose number, if any, is an integer. -/
theorem checkKind_eq_none_iff_converts {parameter : CommandParameter σ}
    (hkind : parameter.kind ≠ .floatingPoint) (platform : Platform) (value : CommandValue) :
    parameter.checkKind platform value = .ok none ↔
      Converts platform value parameter.kind ∧ parameter.PassesRangeTest platform value := by
  rw [checkKind_eq_none_iff]
  unfold PassesRangeTest IntegerOf
  cases hparameter : parameter.kind with
  | floatingPoint => exact absurd hparameter hkind
  | boolean => cases hbool : value.asBool <;>
      simp [comparedNumber, Converts, ParameterKind.integral?, Except.map, hbool]
  | string => cases hstring : value.asString platform <;>
      simp [comparedNumber, Converts, ParameterKind.integral?, Except.map, hstring]
  | enumeration => cases hstring : value.asString platform <;>
      simp [comparedNumber, Converts, ParameterKind.integral?, Except.map, hstring]
  | signedInteger => cases hnumber : value.asIntegral platform .longLong <;>
      simp [comparedNumber, Converts, ParameterKind.integral?, Except.map, hnumber]
  | unsignedInteger => cases hnumber : value.asIntegral platform .unsignedLongLong <;>
      simp [comparedNumber, Converts, ParameterKind.integral?, Except.map, hnumber]

/-- **`Validate` against the contract.**  Acceptance and the contract differ for two reasons
only: the validator refuses without a message what passes everything else, or the test of
the range disagrees with the range over a number that nothing else rejects. -/
theorem accepts_iff_meetsContract_iff {parameter : CommandParameter σ}
    (hkind : parameter.kind ≠ .floatingPoint) (platform : Platform) (value : CommandValue)
    (state : σ) :
    (parameter.Accepts platform value state ↔
        parameter.MeetsContract platform value state) ↔
      ¬ (Converts platform value parameter.kind ∧ parameter.Chosen platform value ∧
        ((parameter.RefusesSilently (value.toString platform) state ∧
            parameter.PassesRangeTest platform value) ∨
          (parameter.ValidatorAgrees (value.toString platform) state ∧
            ¬ (parameter.PassesRangeTest platform value ↔
              parameter.InRange platform value)))) := by
  have hcontract : parameter.MeetsContract platform value state ↔
      Converts platform value parameter.kind ∧ parameter.InRange platform value ∧
        parameter.Chosen platform value ∧
        parameter.ValidatorAgrees (value.toString platform) state :=
    ⟨fun h => ⟨h.converts, h.range, h.choice, h.validator⟩,
      fun h => ⟨h.1, h.2.1, h.2.2.1, h.2.2.2⟩⟩
  have hexclusive : parameter.RefusesSilently (value.toString platform) state →
      ¬ parameter.ValidatorAgrees (value.toString platform) state := RefusesSilently.not_agrees
  rw [accepts_iff, checkKind_eq_none_iff_converts hkind, hcontract]
  by_cases hfront : Converts platform value parameter.kind ∧ parameter.Chosen platform value
  · obtain ⟨hconverts, hchosen⟩ := hfront
    simp only [hconverts, hchosen, true_and]
    by_cases hagrees : parameter.ValidatorAgrees (value.toString platform) state
    · have hspeaks : ¬ parameter.RefusesSilently (value.toString platform) state := by
        intro hsilent
        exact hexclusive hsilent hagrees
      simp only [hagrees, hspeaks, true_or, and_true, false_and, false_or, true_and, not_not]
    · simp only [hagrees, false_or, and_false, false_and, or_false, iff_false]
      rw [and_comm]
  · -- then it is neither accepted nor in the contract
    refine iff_of_true (iff_of_false ?_ ?_) ?_
    · intro h
      exact hfront ⟨h.1.1, h.2.1⟩
    · intro h
      exact hfront ⟨h.1, h.2.2.1⟩
    · intro h
      exact hfront ⟨h.1, h.2.1⟩

/-- Where `long double` holds the number and neither limit is NaN, the test of the range is
the range, and the silent refusal is what remains. -/
theorem passesRangeTest_iff_inRange {parameter : CommandParameter σ} {platform : Platform}
    (hexact : platform.ExactIntegers) (hmin : parameter.minimum ≠ .nan)
    (hmax : parameter.maximum ≠ .nan) (value : CommandValue) :
    parameter.PassesRangeTest platform value ↔ parameter.InRange platform value := by
  have htest : ∀ n, IntegerOf platform value parameter.kind n →
      (parameter.outsideRange (platform.ofInt n) = false ↔
        (parameter.hasRange = true → parameter.minimum.AtMost (.finite n) ∧
          (LongDouble.finite n).AtMost parameter.maximum)) := by
    intro n hn
    obtain ⟨T, hT, hconverts⟩ := hn
    have hwidth : T.width ≤ 64 := by
      cases hkind : parameter.kind <;> simp [ParameterKind.integral?, hkind] at hT <;>
        rw [← hT] <;> decide
    obtain ⟨⟨hlow, -⟩, ⟨-, hhigh⟩, -⟩ := IntegralType.limits hwidth
    obtain ⟨-, hge, hle⟩ := (CommandValue.asIntegral_eq_ok_iff_of_exact hexact hwidth).mp hconverts
    rw [hexact n (by omega) (by omega), outsideRange, Bool.and_eq_false_imp,
      Bool.or_eq_false_iff, LongDouble.not_lt_iff_atMost hmin (by simp),
      LongDouble.not_lt_iff_atMost (by simp) hmax]
  constructor
  · intro h hrange n hn
    exact (htest n hn).mp (h n hn) hrange
  · intro h n hn
    exact (htest n hn).mpr fun hrange => h hrange n hn

/-- A word that its validator refuses, installed with an empty message. -/
def mutedParameter : CommandParameter Unit where
  name := text "word"
  validator := some fun _ => pure false

/-- A refused word: acceptance and the contract agree where the validator has a message, and
differ where it has none. -/
theorem accepts_iff_meetsContract_iff_muted :
    (CommandParameter.Accepts { mutedParameter with validatorMessage := text "No" }
        .withoutFloatingText (.string (text "x")) () ↔
      CommandParameter.MeetsContract { mutedParameter with validatorMessage := text "No" }
        .withoutFloatingText (.string (text "x")) ()) ∧
      ¬ (mutedParameter.Accepts .withoutFloatingText (.string (text "x")) () ↔
        mutedParameter.MeetsContract .withoutFloatingText (.string (text "x")) ()) := by
  constructor
  · rw [accepts_iff_meetsContract_iff (by decide)]
    intro hdiffer
    obtain ⟨-, -, ⟨⟨hmessage, -⟩, -⟩ | ⟨hagrees, -⟩⟩ := hdiffer
    · cases hmessage
    · obtain ⟨after, htrue⟩ := hagrees _ rfl
      cases htrue
  · rw [accepts_iff_meetsContract_iff (by decide), not_not]
    refine ⟨⟨text "x", rfl⟩, Or.inl rfl, Or.inl ⟨⟨rfl, _, (), rfl, rfl⟩, ?_⟩⟩
    intro n hinteger
    obtain ⟨T, hT, -⟩ := hinteger
    cases hT

/-- The refused word is accepted. -/
theorem mutedParameter_accepts_refused :
    ¬ (mutedParameter.Accepts .withoutFloatingText (.string (text "x")) () ↔
      mutedParameter.MeetsContract .withoutFloatingText (.string (text "x")) ()) := by
  have haccepts : mutedParameter.Accepts .withoutFloatingText (.string (text "x")) () :=
    ⟨(), rfl⟩
  intro h
  obtain ⟨after, hagrees⟩ := (h.mp haccepts).validator _ rfl
  cases hagrees

end CommandParameter
end EspressioCommand
