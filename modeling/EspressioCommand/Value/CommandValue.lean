import EspressioCommand.Value.Platform

/-!
# `CommandValue`

A command scalar and its conversions.  `As<T>` is one function template in the
source; here each branch of its `if constexpr` is a definition of its own:
`asString`, `asBool`, `asIntegral` and `asLongDouble`.  A conversion that throws
returns the exception, which is always a `std::exception`.
-/

namespace EspressioCommand

/-- A command scalar: the alternatives of `CommandValue::Storage` in order. -/
inductive CommandValue
  | null
  | string (value : CommandString)
  | boolean (value : Bool)
  | signedInteger (value : Int64)
  | unsignedInteger (value : UInt64)
  | floatingPoint (value : Double)
deriving DecidableEq

namespace CommandValue

/-- `CommandValue::TryGetString`. -/
def tryGetString : CommandValue → Option CommandString
  | string value => some value
  | _ => none

/-- `CommandValue::EqualsIgnoreCase`; the expected texts contain no NUL. -/
def equalsIgnoreCase (value : CommandString) (expected : String) : Bool :=
  value.map toLower == (text expected).map toLower

/-- `CommandValue::ToString`. -/
def toString (platform : Platform) : CommandValue → CommandString
  | string value => value
  | boolean value => if value then text "true" else text "false"
  | signedInteger value => formatInteger value.toInt
  | unsignedInteger value => formatInteger value.toNat
  | floatingPoint value => platform.formatDouble value
  | null => text "null"

/-- `WithCommandValueText`.  The buffers have room for every text that `snprintf` writes,
so `written` is the length of the view. -/
def withCommandValueText {α : Type} (platform : Platform) (value : CommandValue)
    (callback : CommandString → α) : α :=
  match value.tryGetString with
  | some stored => callback stored
  | none =>
      match value with
      | null => callback (text "null")
      | boolean value => callback (if value then text "true" else text "false")
      | signedInteger value => callback (formatInteger value.toInt)
      | unsignedInteger value => callback (formatInteger value.toNat)
      | floatingPoint value => callback (platform.formatDouble value)
      | string _ => callback []

/-- The text that is lent to the callback is the text that `ToString` copies. -/
theorem withCommandValueText_eq {α : Type} (platform : Platform) (value : CommandValue)
    (callback : CommandString → α) :
    value.withCommandValueText platform callback = callback (value.toString platform) := by
  cases value <;> rfl

/-- `throw std::invalid_argument(what)`. -/
def invalidArgument {α : Type} (what : String) : Except Thrown α :=
  .error (.std .invalidArgument (text what))

/-- `throw std::out_of_range(what)`. -/
def outOfRange {α : Type} (what : String) : Except Thrown α :=
  .error (.std .outOfRange (text what))

/-- `As<CommandString>()`. -/
def asString (platform : Platform) (value : CommandValue) : Except Thrown CommandString :=
  if value = null then invalidArgument "Null command value cannot be converted to string"
  else .ok (value.toString platform)

/-- `As<bool>()`. -/
def asBool : CommandValue → Except Thrown Bool
  | boolean value => .ok value
  | signedInteger value =>
      if value = 0 ∨ value = 1 then .ok (value == 1)
      else invalidArgument "Expected boolean-compatible integer 0 or 1"
  | unsignedInteger value =>
      if value = 0 ∨ value = 1 then .ok (value == 1)
      else invalidArgument "Expected boolean-compatible integer 0 or 1"
  | string value =>
      if equalsIgnoreCase value "true" || value == text "1" || equalsIgnoreCase value "yes" ||
          equalsIgnoreCase value "on" || equalsIgnoreCase value "high" then .ok true
      else if equalsIgnoreCase value "false" || value == text "0" ||
          equalsIgnoreCase value "no" || equalsIgnoreCase value "off" ||
          equalsIgnoreCase value "low" then .ok false
      else invalidArgument "Expected boolean value"
  | floatingPoint _ => invalidArgument "Command value cannot be converted to boolean"
  | null => invalidArgument "Command value cannot be converted to boolean"

/-- The variable `numeric` of the integral branch of `As<T>()`, before its range
check. -/
def integralNumeric (platform : Platform) (T : IntegralType) :
    CommandValue → Except Thrown LongDouble
  | signedInteger value => .ok (platform.ofInt value.toInt)
  | unsignedInteger value => .ok (platform.ofInt value.toNat)
  | boolean value => .ok (.finite (if value then 1 else 0))
  | floatingPoint value =>
      match value.toLongDouble with
      | .finite q =>
          if (⌊q⌋ : ℚ) = q then .ok (.finite q)
          else invalidArgument "Floating-point command value is not an integer"
      | _ => invalidArgument "Floating-point command value is not an integer"
  | string value =>
      if T.signed then
        let parsed := strtoll value
        if parsed.erange then outOfRange "Integer command value is out of range"
        else if parsed.consumed ≠ value.length then invalidArgument "Expected integer value"
        else .ok (platform.ofInt parsed.value)
      -- The sign is looked for in the first character only.
      else if value.head? = some 45 then outOfRange "Unsigned integer cannot be negative"
      else
        let parsed := strtoull value
        if parsed.erange then outOfRange "Integer command value is out of range"
        else if parsed.consumed ≠ value.length then invalidArgument "Expected integer value"
        else .ok (platform.ofInt parsed.value)
  | null => invalidArgument "Null command value cannot be converted to integer"

/-- The integral branch up to the final cast: `numeric`, compared with the limits
of the target converted to `long double`. -/
def integralInRange (platform : Platform) (T : IntegralType) (value : CommandValue) :
    Except Thrown LongDouble := do
  let numeric ← value.integralNumeric platform T
  if numeric.lt (platform.ofInt T.min) || (platform.ofInt T.max).lt numeric then
    outOfRange "Integer command value is out of range"
  else .ok numeric

/-- `As<T>()` for an integral `T` other than `bool`. -/
def asIntegral (platform : Platform) (T : IntegralType) (value : CommandValue) :
    Except Thrown ℤ := do
  let numeric ← value.integralInRange platform T
  .ok (platform.castTo T numeric)

/-- `As<long double>()`. -/
def asLongDouble (platform : Platform) (value : CommandValue) : Except Thrown LongDouble := do
  let numeric ← (match value with
    | floatingPoint value => .ok value.toLongDouble
    | signedInteger value => .ok (platform.ofInt value.toInt)
    | unsignedInteger value => .ok (platform.ofInt value.toNat)
    | boolean value => .ok (.finite (if value then 1 else 0))
    | string value =>
        let parsed := platform.strtold value
        if parsed.erange then outOfRange "Floating-point command value is out of range"
        else if parsed.consumed ≠ value.length then invalidArgument "Expected numeric value"
        else .ok parsed.value
    | null => invalidArgument "Null command value cannot be converted to number"
      : Except Thrown LongDouble)
  if numeric.lt (LongDouble.finite platform.longDoubleMax).neg ||
      (LongDouble.finite platform.longDoubleMax).lt numeric then
    outOfRange "Floating-point command value is out of range"
  else .ok numeric

/-! ### The exceptions of a conversion -/

/-- The computation does not throw, or throws a `std::exception`. -/
def ThrowsStd {α : Type} (x : Except Thrown α) : Prop := x ≠ .error .foreign

theorem throwsStd_ok {α : Type} (a : α) : ThrowsStd (.ok a) := by
  intro h
  cases h

theorem throwsStd_invalidArgument {α : Type} (what : String) :
    ThrowsStd (invalidArgument what : Except Thrown α) := by
  intro h
  cases h

theorem throwsStd_outOfRange {α : Type} (what : String) :
    ThrowsStd (outOfRange what : Except Thrown α) := by
  intro h
  cases h

theorem ThrowsStd.bind {α β : Type} {x : Except Thrown α} {f : α → Except Thrown β}
    (hx : ThrowsStd x) (hf : ∀ a, ThrowsStd (f a)) : ThrowsStd (x >>= f) := by
  cases x with
  | error e => exact fun h => hx (congrArg Except.error (Except.error.inj h))
  | ok a => exact hf a

theorem throwsStd_asString (platform : Platform) (value : CommandValue) :
    ThrowsStd (value.asString platform) := by
  unfold asString
  split_ifs
  · exact throwsStd_invalidArgument _
  · exact throwsStd_ok _

theorem throwsStd_asBool (value : CommandValue) : ThrowsStd value.asBool := by
  unfold asBool
  split
  all_goals first
    | exact throwsStd_ok _
    | exact throwsStd_invalidArgument _
    | split_ifs <;> first | exact throwsStd_ok _ | exact throwsStd_invalidArgument _

theorem throwsStd_integralNumeric (platform : Platform) (T : IntegralType)
    (value : CommandValue) : ThrowsStd (value.integralNumeric platform T) := by
  cases value with
  | null => exact throwsStd_invalidArgument _
  | string value =>
      simp only [integralNumeric]
      split_ifs
      all_goals first
        | exact throwsStd_ok _
        | exact throwsStd_outOfRange _
        | exact throwsStd_invalidArgument _
  | boolean value => exact throwsStd_ok _
  | signedInteger value => exact throwsStd_ok _
  | unsignedInteger value => exact throwsStd_ok _
  | floatingPoint value =>
      simp only [integralNumeric]
      split
      · split_ifs
        · exact throwsStd_ok _
        · exact throwsStd_invalidArgument _
      · exact throwsStd_invalidArgument _

theorem throwsStd_asIntegral (platform : Platform) (T : IntegralType) (value : CommandValue) :
    ThrowsStd (value.asIntegral platform T) := by
  refine ThrowsStd.bind ?_ fun _ => throwsStd_ok _
  refine ThrowsStd.bind (throwsStd_integralNumeric platform T value) fun numeric => ?_
  split_ifs
  · exact throwsStd_outOfRange _
  · exact throwsStd_ok _

theorem throwsStd_asLongDouble (platform : Platform) (value : CommandValue) :
    ThrowsStd (value.asLongDouble platform) := by
  refine ThrowsStd.bind ?_ fun numeric => ?_
  · cases value with
    | string value =>
        simp only
        split_ifs
        · exact throwsStd_outOfRange _
        · exact throwsStd_invalidArgument _
        · exact throwsStd_ok _
    | null => exact throwsStd_invalidArgument _
    | boolean value => exact throwsStd_ok _
    | signedInteger value => exact throwsStd_ok _
    | unsignedInteger value => exact throwsStd_ok _
    | floatingPoint value => exact throwsStd_ok _
  · split_ifs
    · exact throwsStd_outOfRange _
    · exact throwsStd_ok _

end CommandValue

end EspressioCommand
