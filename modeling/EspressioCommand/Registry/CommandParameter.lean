import EspressioCommand.Registry.Effect
import EspressioCommand.Value.CommandValue

/-!
# `CommandParameter`

A parameter descriptor and `Validate`.  The conversions of the value are the
library's own and their exceptions are caught; the validator is user code, and is
called behind the `try` block.
-/

namespace EspressioCommand

/-- `ParameterKind`. -/
inductive ParameterKind
  | string
  | boolean
  | signedInteger
  | unsignedInteger
  | floatingPoint
  | enumeration
deriving DecidableEq, Repr

/-- The fields of `CommandParameter`. -/
structure CommandParameter (σ : Type) where
  name : CommandString
  description : CommandString := []
  defaultValue : CommandString := []
  validatorMessage : CommandString := []
  kind : ParameterKind := .string
  required : Bool := true
  namedOnly : Bool := false
  hasDefault : Bool := false
  hasRange : Bool := false
  minimum : LongDouble := .finite 0
  maximum : LongDouble := .finite 0
  aliases : List CommandString := []
  choices : List CommandString := []
  validator : Option (CommandString → Eff σ Bool) := none

namespace CommandParameter

variable {σ : Type}

/-- `CommandParameter::Matches`. -/
def matchesKey (parameter : CommandParameter σ) (key : CommandString) : Bool :=
  key == parameter.name || parameter.aliases.any fun candidate => key == candidate

/-- The lambda `namedError` of `Validate`. -/
def namedError (parameter : CommandParameter σ) (pre suffix : String) : CommandString :=
  buildCommandMessage (text pre) parameter.name (text suffix)

/-- `hasRange_ && (numeric < minimum_ || numeric > maximum_)`. -/
def outsideRange (parameter : CommandParameter σ) (numeric : LongDouble) : Bool :=
  parameter.hasRange &&
    (numeric.lt parameter.minimum || parameter.maximum.lt numeric)

/-- The body of the `try` block of `Validate`: `some` message where it returns
from the function, `none` where it falls out of the `switch`. -/
def checkKind (parameter : CommandParameter σ) (platform : Platform) (value : CommandValue) :
    Except Thrown (Option CommandString) := do
  let ranged (numeric : LongDouble) : Option CommandString :=
    if parameter.outsideRange numeric then
      some (parameter.namedError "Value for '" "' is outside the allowed range")
    else none
  match parameter.kind with
  | .boolean =>
      let _ ← value.asBool
      return none
  | .signedInteger =>
      let numeric ← value.asIntegral platform IntegralType.longLong
      return ranged (platform.ofInt numeric)
  | .unsignedInteger =>
      let numeric ← value.asIntegral platform IntegralType.unsignedLongLong
      return ranged (platform.ofInt numeric)
  | .floatingPoint =>
      let numeric ← value.asLongDouble platform
      return ranged numeric
  | .string | .enumeration =>
      let _ ← value.asString platform
      return none

/-- `CommandParameter::Validate`: the empty text when the value is valid.  The
validator runs after the `try` block, so what it throws is not translated. -/
def validate (parameter : CommandParameter σ) (platform : Platform) (value : CommandValue) :
    Eff σ CommandString :=
  match parameter.checkKind platform value with
  -- `catch (const std::exception&)`: anything else that is thrown passes through
  | .error (.std _ what) => pure (parameter.namedError "Invalid value for '" "': " ++ what)
  | .error .foreign => throw .foreign
  | .ok (some message) => pure message
  | .ok none =>
      let view := value.toString platform
      if parameter.choices ≠ [] ∧ view ∉ parameter.choices then
        pure (parameter.namedError "Invalid value for '" "'")
      else
        match parameter.validator with
        | none => pure []
        | some validator => do
            let accepted ← validator view
            if accepted then return [] else return parameter.validatorMessage

/-- The validator, if there is one, is a function of its text: it neither
touches the state nor throws. -/
def PureValidator (parameter : CommandParameter σ) : Prop :=
  ∀ validator, parameter.validator = some validator →
    ∀ view, ∃ accepted : Bool, validator view = pure accepted

theorem throwsStd_checkKind (parameter : CommandParameter σ) (platform : Platform)
    (value : CommandValue) : CommandValue.ThrowsStd (parameter.checkKind platform value) := by
  unfold checkKind
  cases parameter.kind with
  | string => exact (value.throwsStd_asString platform).bind fun _ => CommandValue.throwsStd_ok _
  | boolean => exact value.throwsStd_asBool.bind fun _ => CommandValue.throwsStd_ok _
  | signedInteger =>
      exact (value.throwsStd_asIntegral platform _).bind fun _ => CommandValue.throwsStd_ok _
  | unsignedInteger =>
      exact (value.throwsStd_asIntegral platform _).bind fun _ => CommandValue.throwsStd_ok _
  | floatingPoint =>
      exact (value.throwsStd_asLongDouble platform).bind fun _ => CommandValue.throwsStd_ok _
  | enumeration =>
      exact (value.throwsStd_asString platform).bind fun _ => CommandValue.throwsStd_ok _

/-- With a pure validator, `Validate` is a function of the value. -/
theorem validate_eq_pure {parameter : CommandParameter σ} (hpure : parameter.PureValidator)
    (platform : Platform) (value : CommandValue) :
    ∃ message, parameter.validate platform value = pure message := by
  -- the conversions throw nothing but standard exceptions, which are caught
  have hstd := parameter.throwsStd_checkKind platform value
  unfold validate
  cases hkind : parameter.checkKind platform value with
  | error e =>
      cases e with
      | std kind what => exact ⟨_, rfl⟩
      | foreign => exact absurd hkind hstd
  | ok early =>
      cases early with
      | some message => exact ⟨_, rfl⟩
      | none =>
          simp only
          split_ifs with hchoice
          · exact ⟨_, rfl⟩
          · cases hvalidator : parameter.validator with
            | none => exact ⟨_, rfl⟩
            | some validator =>
                obtain ⟨accepted, haccepted⟩ :=
                  hpure validator hvalidator (value.toString platform)
                simp only [haccepted, pure_bind]
                cases accepted with
                | true => exact ⟨_, rfl⟩
                | false => exact ⟨_, rfl⟩

/-! ### The fluent calls -/

/-- The calls that describe a parameter. -/
inductive ParameterSetter (σ : Type)
  | description (value : CommandString)
  | required (value : Bool)
  | optional
  | default (value : CommandString)
  | addAlias (value : CommandString)
  | namedOnly (value : Bool)
  | range (minimum maximum : LongDouble)
  | oneOf (values : List CommandString)
  | validator (check : Option (CommandString → Eff σ Bool)) (message : CommandString)

namespace ParameterSetter

/-- What the call leaves in the fields of the parameter. -/
def apply : ParameterSetter σ → CommandParameter σ → CommandParameter σ
  | .description value, parameter => { parameter with description := value }
  | .required value, parameter => { parameter with required := value }
  | .optional, parameter => { parameter with required := false }
  | .default value, parameter =>
      { parameter with defaultValue := value, hasDefault := true, required := false }
  | .addAlias value, parameter => { parameter with aliases := parameter.aliases ++ [value] }
  | .namedOnly value, parameter => { parameter with namedOnly := value }
  | .range minimum maximum, parameter =>
      { parameter with hasRange := true, minimum := minimum, maximum := maximum }
  | .oneOf values, parameter => { parameter with choices := values }
  | .validator check message, parameter =>
      { parameter with validator := check, validatorMessage := message }

end ParameterSetter

/-- `CommandParameter::CommandParameter`. -/
def create (name : CommandString) (kind : ParameterKind) : CommandParameter σ :=
  { name := name, kind := kind }

/-- The parameter after the calls, in order. -/
def describedBy (name : CommandString) (kind : ParameterKind) (calls : List (ParameterSetter σ)) :
    CommandParameter σ :=
  calls.foldl (fun parameter call => call.apply parameter) (create name kind)

/-- What every description keeps: a value of a default or of a limit was set together with
the flag that announces it. -/
structure Describable (parameter : CommandParameter σ) : Prop where
  defaultValue : parameter.hasDefault = false → parameter.defaultValue = []
  minimum : parameter.hasRange = false → parameter.minimum = .finite 0
  maximum : parameter.hasRange = false → parameter.maximum = .finite 0

/-- **Step lemma.** -/
theorem Describable.apply {parameter : CommandParameter σ} (h : Describable parameter)
    (call : ParameterSetter σ) : Describable (call.apply parameter) := by
  obtain ⟨hdefault, hminimum, hmaximum⟩ := h
  cases call with
  | default value => exact ⟨nofun, hminimum, hmaximum⟩
  | range minimum maximum => exact ⟨hdefault, nofun, nofun⟩
  | _ => exact ⟨hdefault, hminimum, hmaximum⟩

/-- **Run lemma.** -/
theorem describable_foldl {parameter : CommandParameter σ} (h : Describable parameter)
    (calls : List (ParameterSetter σ)) :
    Describable (calls.foldl (fun parameter call => call.apply parameter) parameter) := by
  induction calls generalizing parameter with
  | nil => exact h
  | cons call calls ih => exact ih (h.apply call)

/-- The aliases that are added stand in the order of the calls. -/
theorem foldl_addAlias (parameter : CommandParameter σ) (aliases : List CommandString) :
    (aliases.map ParameterSetter.addAlias).foldl (fun parameter call => call.apply parameter)
        parameter = { parameter with aliases := parameter.aliases ++ aliases } := by
  induction aliases generalizing parameter with
  | nil => simp
  | cons first rest ih =>
      rw [List.map_cons, List.foldl_cons, ih]
      simp [ParameterSetter.apply]

/-- **The parameters that can be described.**  These calls reach every combination of the
fields, save for the values that a flag leaves unset: in particular a parameter that is
required although it has a default. -/
theorem exists_describedBy_iff (parameter : CommandParameter σ) :
    (∃ calls, describedBy parameter.name parameter.kind calls = parameter) ↔
      Describable parameter := by
  constructor
  · rintro ⟨calls, hcalls⟩
    rw [← hcalls]
    exact describable_foldl ⟨fun _ => rfl, fun _ => rfl, fun _ => rfl⟩ calls
  · rintro ⟨hdefault, hminimum, hmaximum⟩
    -- the requirement is set last, behind the default that would clear it
    refine ⟨parameter.aliases.map .addAlias ++ [.description parameter.description,
      .namedOnly parameter.namedOnly, .oneOf parameter.choices,
      .validator parameter.validator parameter.validatorMessage] ++
      (if parameter.hasRange then [.range parameter.minimum parameter.maximum] else []) ++
      (if parameter.hasDefault then [.default parameter.defaultValue] else []) ++
      [.required parameter.required], ?_⟩
    simp only [describedBy, List.foldl_append, foldl_addAlias]
    obtain ⟨name, description, defaultValue, validatorMessage, kind, required, namedOnly,
      hasDefault, hasRange, minimum, maximum, aliases, choices, validator⟩ := parameter
    cases hasDefault <;> cases hasRange <;>
      simp_all [ParameterSetter.apply, create]

end CommandParameter

end EspressioCommand
