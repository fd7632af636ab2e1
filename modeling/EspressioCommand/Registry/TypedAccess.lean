import EspressioCommand.Registry.Binding
import EspressioCommand.Registry.Validation

/-!
# Reading a parameter with its declared type

`CommandNode::Parameter<T>` keeps only a kind of `T`, and the integer kinds stand for all
widths.  `Validate` converts to the widest type of the kind, the callback converts the same
value again, to `T`.  `readsWhatPasses_iff` says when the second conversion can fail on a
value that passed the first.
-/

namespace EspressioCommand

open Library

/-- The widest type of the same signedness. -/
def IntegralType.widest (T : IntegralType) : IntegralType := ⟨T.signed, 64⟩

/-- A type that a parameter is declared with and read as. -/
inductive ReadType
  | boolean
  | integral (T : IntegralType)
  | string
deriving DecidableEq, Repr

/-- What `Get<T>` returns. -/
inductive ReadValue
  | boolean (value : Bool)
  | integer (value : ℤ)
  | string (value : CommandString)
deriving DecidableEq, Repr

namespace ReadType

/-- The kind that `CommandNode::Parameter<T>` infers. -/
def kind : ReadType → ParameterKind
  | boolean => .boolean
  | integral T => if T.signed then .signedInteger else .unsignedInteger
  | string => .string

/-- The type that `Validate` converts to for the kind. -/
def validated : ReadType → ReadType
  | boolean => boolean
  | integral T => integral T.widest
  | string => string

/-- `As<T>`. -/
def convert (T : ReadType) (platform : Platform) (value : CommandValue) :
    Except Thrown ReadValue :=
  match T with
  | boolean => value.asBool.map .boolean
  | integral T => (value.asIntegral platform T).map .integer
  | string => (value.asString platform).map .string

/-- The type has a value that the command value denotes. -/
def Holds (T : ReadType) (platform : Platform) (value : CommandValue) : Prop :=
  match T with
  | boolean => ∃ b, value.asBool = .ok b
  | integral T => ∃ m : ℤ, value.integralNumeric platform T = .ok (.finite m) ∧
      T.min ≤ m ∧ m ≤ T.max
  | string => ∃ s, value.asString platform = .ok s

end ReadType

/-- `CommandContext::Get`. -/
def CommandContext.get (context : CommandContext) (platform : Platform) (T : ReadType)
    (name : CommandString) : Except Thrown ReadValue := do
  T.convert platform (← context.value name)

/-! ### The two conversions -/

/-- What is compared with the limits depends on the signedness only. -/
theorem CommandValue.integralNumeric_widest (platform : Platform) (T : IntegralType)
    (v : CommandValue) : v.integralNumeric platform T.widest = v.integralNumeric platform T := by
  cases v <;> rfl

/-- The widest type holds what the type holds. -/
theorem IntegralType.widest_limits {T : IntegralType} (hT : T.width ≤ 64) :
    T.widest.min ≤ T.min ∧ T.max ≤ T.widest.max := by
  have hwidth : (2 : ℤ) ^ T.width ≤ 2 ^ 64 := pow_le_pow_right₀ (by norm_num) hT
  have hhalf : (2 : ℤ) ^ (T.width - 1) ≤ 2 ^ 63 := pow_le_pow_right₀ (by norm_num) (by omega)
  unfold IntegralType.widest IntegralType.min IntegralType.max
  cases T.signed <;> simp <;> omega

/-- A number in the range of the type is what both conversions return. -/
theorem CommandValue.asIntegral_of_inRange {platform : Platform}
    (hdigits : 0 < platform.longDoubleDigits) {T : IntegralType} {v : CommandValue} {m : ℤ}
    (hnumeric : v.integralNumeric platform T = .ok (.finite m)) (hmin : T.min ≤ m)
    (hmax : m ≤ T.max) : v.asIntegral platform T = .ok m := by
  rw [CommandValue.asIntegral_eq_ok_iff]
  refine ⟨m, hnumeric, ?_, ?_, CommandValue.castTo_of_inRange platform hmin hmax⟩
  · rw [T.roundToDigits_min hdigits]
    exact hmin
  · exact le_trans hmax (T.max_le_roundToDigits_max hdigits)

namespace ReadType

/-- The inferred kind is never the floating-point one. -/
theorem kind_ne_floatingPoint (T : ReadType) : T.kind ≠ .floatingPoint := by
  cases T with
  | boolean => decide
  | string => decide
  | integral T =>
      rw [kind]
      split_ifs <;> decide

/-- `Validate` makes the conversion to the widest type. -/
theorem converts_kind_iff (T : ReadType) (platform : Platform) (value : CommandValue) :
    CommandParameter.Converts platform value T.kind ↔
      ∃ r, T.validated.convert platform value = .ok r := by
  cases T with
  | boolean => cases hbool : value.asBool <;>
      simp [kind, validated, convert, CommandParameter.Converts, Except.map, hbool]
  | string => cases hstring : value.asString platform <;>
      simp [kind, validated, convert, CommandParameter.Converts, Except.map, hstring]
  | integral T =>
      obtain ⟨signed, width⟩ := T
      cases signed with
      | true => cases hnumber : value.asIntegral platform .longLong <;>
          simp_all [kind, validated, convert, CommandParameter.Converts, Except.map,
            IntegralType.widest, IntegralType.longLong]
      | false => cases hnumber : value.asIntegral platform .unsignedLongLong <;>
          simp_all [kind, validated, convert, CommandParameter.Converts, Except.map,
            IntegralType.widest, IntegralType.unsignedLongLong]

/-- A type that holds the value reads what the validated type reads. -/
theorem convert_of_holds {T : ReadType} {platform : Platform} {value : CommandValue}
    (hdigits : 0 < platform.longDoubleDigits)
    (hwidth : ∀ I, T = integral I → I.width ≤ 64) (h : T.Holds platform value) :
    ∃ r, T.validated.convert platform value = .ok r ∧ T.convert platform value = .ok r := by
  cases T with
  | boolean =>
      obtain ⟨b, hb⟩ := h
      exact ⟨.boolean b, by rw [validated, convert, hb]; rfl, by rw [convert, hb]; rfl⟩
  | string =>
      obtain ⟨s, hs⟩ := h
      exact ⟨.string s, by rw [validated, convert, hs]; rfl, by rw [convert, hs]; rfl⟩
  | integral T =>
      obtain ⟨m, hnumeric, hmin, hmax⟩ := h
      obtain ⟨hwidestMin, hwidestMax⟩ := IntegralType.widest_limits (hwidth T rfl)
      have hwidest : value.asIntegral platform T.widest = .ok m := by
        apply CommandValue.asIntegral_of_inRange hdigits
        · rw [CommandValue.integralNumeric_widest, hnumeric]
        · exact le_trans hwidestMin hmin
        · exact le_trans hmax hwidestMax
      have hnarrow := CommandValue.asIntegral_of_inRange hdigits hnumeric hmin hmax
      exact ⟨.integer m, by rw [validated, convert, hwidest]; rfl,
        by rw [convert, hnarrow]; rfl⟩

end ReadType

/-! ### No stage before the checks -/

namespace CommandRegistry

variable {σ : Type}

/-- When the values are found in order, each was accepted in its turn. -/
theorem accepts_of_checkValues {platform : Platform} {registry : CommandRegistry σ}
    {invocation : CommandInvocation} {values : List (CommandParameter σ × Option CommandValue)}
    {state after : σ}
    (h : (checkValues platform registry invocation values).Returns state none after) :
    ∀ parameter value, (parameter, some value) ∈ values →
      ∃ turn, parameter.Accepts platform value turn := by
  induction values generalizing state with
  | nil =>
      intro parameter value hmem
      cases hmem
  | cons head rest ih =>
      obtain ⟨first, chosen⟩ := head
      intro parameter value hmem
      rw [List.mem_cons] at hmem
      cases chosen with
      | none =>
          rw [checkValues] at h
          split_ifs at h with hrequired
          · cases h
          · obtain hhead | htail := hmem
            · cases hhead
            · exact ih h parameter value htail
      | some found =>
          rw [checkValues] at h
          obtain ⟨validation, between, hvalidate, hrest⟩ := Eff.runFrom_bind_eq_ok.mp h
          by_cases hempty : validation = []
          · subst hempty
            rw [if_neg (by simp)] at hrest
            obtain hhead | htail := hmem
            · cases hhead
              exact ⟨state, between, hvalidate⟩
            · exact ih hrest parameter value htail
          · rw [if_pos hempty] at hrest
            cases hrest

/-- **The gate.**  Where a context is made for the stages, every value in it was accepted. -/
theorem accepts_of_bindInvocation {platform : Platform} {registry : CommandRegistry σ}
    {node : CommandNode σ} {invocation : CommandInvocation} {state after : σ}
    {bound : CommandContext × Callback σ}
    (h : (bindInvocation platform registry node invocation).Returns state (.ok bound) after)
    {j : ℕ} {parameter : CommandParameter σ} {value : CommandValue}
    (hparameter : node.label.parameters[j]? = some parameter)
    (hvalue : parameterValue node.label.parameters invocation j = some value) :
    ∃ turn, parameter.Accepts platform value turn := by
  apply accepts_of_checkValues (bindInvocation_eq_ok h).1
  rw [valuedParameters, List.mem_map]
  exact ⟨(parameter, j), List.mem_zipIdx_iff_getElem?.mpr hparameter, by rw [hvalue]⟩

end CommandRegistry

/-! ### Which parameters can be read -/

namespace CommandParameter

variable {σ : Type}

/-- What `Validate` accepts, `Get<T>` returns as it was validated; and what `T` cannot hold
is rejected, and never reaches a hook or the callback. -/
structure ReadsWhatPasses (parameter : CommandParameter σ) (platform : Platform) (T : ReadType)
    (value : CommandValue) : Prop where
  reads : ∀ state, parameter.Accepts platform value state →
    ∀ (context : CommandContext) (name : CommandString), context.value name = .ok value →
      ∃ r, T.validated.convert platform value = .ok r ∧ context.get platform T name = .ok r
  rejects : ¬ T.Holds platform value → ∀ state, ¬ parameter.Accepts platform value state
  gate : ¬ T.Holds platform value →
    ∀ (registry : CommandRegistry σ) (node : CommandNode σ) (invocation : CommandInvocation)
      (j : ℕ), node.label.parameters[j]? = some parameter →
      CommandRegistry.parameterValue node.label.parameters invocation j = some value →
      ∀ state bound after,
        ¬ (CommandRegistry.bindInvocation platform registry node invocation).Returns state
          (.ok bound) after

/-- **Reading with the declared type.**  It fails exactly for a value that converts to the
widest type and not to the declared one, when no range, choice or validator of the parameter
happens to stand in its way. -/
theorem readsWhatPasses_iff {platform : Platform} (hdigits : 0 < platform.longDoubleDigits)
    {parameter : CommandParameter σ} {T : ReadType} (hkind : parameter.kind = T.kind)
    (hwidth : ∀ I, T = .integral I → I.width ≤ 64) (value : CommandValue) :
    parameter.ReadsWhatPasses platform T value ↔
      ¬ (¬ T.Holds platform value ∧ Converts platform value parameter.kind ∧
        parameter.PassesRangeTest platform value ∧ parameter.Chosen platform value ∧
        ∃ state, parameter.ValidatorAgrees (value.toString platform) state ∨
          parameter.RefusesSilently (value.toString platform) state) := by
  have hstages : ∀ state, parameter.Accepts platform value state ↔
      (Converts platform value parameter.kind ∧ parameter.PassesRangeTest platform value) ∧
        parameter.Chosen platform value ∧
        (parameter.ValidatorAgrees (value.toString platform) state ∨
          parameter.RefusesSilently (value.toString platform) state) := by
    intro state
    rw [accepts_iff, checkKind_eq_none_iff_converts (hkind ▸ T.kind_ne_floatingPoint)]
  constructor
  · intro h hslips
    obtain ⟨hunheld, hconverts, hrange, hchosen, state, hvalidator⟩ := hslips
    exact h.rejects hunheld state ((hstages state).mpr ⟨⟨hconverts, hrange⟩, hchosen, hvalidator⟩)
  · intro h
    have hheld : ∀ state, parameter.Accepts platform value state → T.Holds platform value := by
      intro state haccepts
      obtain ⟨⟨hconverts, hrange⟩, hchosen, hvalidator⟩ := (hstages state).mp haccepts
      by_contra hunheld
      exact h ⟨hunheld, hconverts, hrange, hchosen, state, hvalidator⟩
    refine ⟨?_, fun hunheld state haccepts => hunheld (hheld state haccepts), ?_⟩
    · intro state haccepts context name hbound
      obtain ⟨r, hvalidated, hconvert⟩ :=
        ReadType.convert_of_holds hdigits hwidth (hheld state haccepts)
      refine ⟨r, hvalidated, ?_⟩
      rw [CommandContext.get, hbound]
      exact hconvert
    · intro hunheld registry node invocation j hparameter hvalue state bound after hreturns
      obtain ⟨turn, haccepts⟩ :=
        CommandRegistry.accepts_of_bindInvocation hreturns hparameter hvalue
      exact hunheld (hheld turn haccepts)

/-- `Parameter<uint8_t>("level")`. -/
def levelParameter : CommandParameter Unit where
  name := text "level"
  kind := .unsignedInteger

/-- The greatest level of one byte is read as it was validated. -/
theorem readsWhatPasses_iff_level :
    levelParameter.ReadsWhatPasses .withoutFloatingText (.integral ⟨false, 8⟩)
      (.unsignedInteger 255) := by
  have hround : roundToDigits Platform.withoutFloatingText.longDoubleDigits
      ((255 : UInt64).toNat : ℤ) = 255 := by decide
  have hnumeric : CommandValue.integralNumeric .withoutFloatingText ⟨false, 8⟩
      (.unsignedInteger 255) = .ok (.finite (255 : ℤ)) := by
    show Except.ok (Platform.withoutFloatingText.ofInt _) = _
    rw [Platform.ofInt, hround]
  refine (readsWhatPasses_iff (by decide) rfl (fun I hI => by cases hI; decide) _).mpr ?_
  intro hslips
  obtain ⟨hunheld, -⟩ := hslips
  exact hunheld ⟨255, hnumeric, by decide, by decide⟩

/-- `Validate` accepts 256 as a byte, and the callback cannot read it. -/
theorem levelParameter_not_readsWhatPasses :
    ¬ levelParameter.ReadsWhatPasses .withoutFloatingText (.integral ⟨false, 8⟩)
      (.unsignedInteger 256) := by
  have hnumeric : ∀ T : IntegralType, CommandValue.integralNumeric .withoutFloatingText T
      (.unsignedInteger 256) = .ok (.finite (256 : ℤ)) := by
    intro T
    have hround : roundToDigits Platform.withoutFloatingText.longDoubleDigits
        ((256 : UInt64).toNat : ℤ) = 256 := by decide
    show Except.ok (Platform.withoutFloatingText.ofInt _) = _
    rw [Platform.ofInt, hround]
  have hwidest : CommandValue.asIntegral .withoutFloatingText .unsignedLongLong
      (.unsignedInteger 256) = .ok 256 :=
    CommandValue.asIntegral_of_inRange (by decide) (hnumeric _) (by decide) (by decide)
  have haccepts : levelParameter.Accepts .withoutFloatingText (.unsignedInteger 256) () := by
    rw [accepts_iff, checkKind_eq_none_iff_converts (by decide)]
    refine ⟨⟨⟨256, hwidest⟩, fun _ _ => rfl⟩, Or.inl rfl, Or.inl ?_⟩
    intro validator hvalidator
    cases hvalidator
  have hunheld : ¬ (ReadType.integral ⟨false, 8⟩).Holds .withoutFloatingText
      (.unsignedInteger 256) := by
    intro hholds
    obtain ⟨m, hm, -, hmax⟩ := hholds
    rw [hnumeric] at hm
    obtain rfl : 256 = m := Int.cast_injective (LongDouble.finite.inj (Except.ok.inj hm))
    exact absurd hmax (by decide)
  intro h
  exact h.rejects hunheld () haccepts

end CommandParameter

end EspressioCommand
