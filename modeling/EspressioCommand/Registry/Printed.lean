import EspressioCommand.Library.Related
import EspressioCommand.Registry.Interchange
import EspressioCommand.Registry.TextReading
import EspressioCommand.Registry.TypedAccess

/-!
# A typed call and the same call in text

A structured caller hands over integers, a text line spells them.  `CommandInvocation.Printed`
says that one invocation is another with some of its integers printed, and `TypeBlind` that
user code reads its parameters by `Has`, `Raw` and `Get` and cannot tell the two apart.

`invoke_printed` says that then the two calls do the same, from binding to the last hook,
but for the words in which a value is refused.
-/

namespace EspressioCommand

open Library

variable {σ : Type} {platform : Platform}

/-! ### Values -/

namespace CommandValue

/-- The value itself or, when it is an integer, its text. -/
inductive Printed (platform : Platform) : CommandValue → CommandValue → Prop
  | kept (value : CommandValue) : Printed platform value value
  | integer {value : CommandValue} {n : ℤ} (hvalue : value.wholeNumber = some n) :
      Printed platform value (.string (value.toString platform))

theorem SameOutcome.map {α β : Type} {x y : Except Thrown α} (h : SameOutcome x y) (f : α → β) :
    SameOutcome (x.map f) (y.map f) := by
  rcases h with ⟨a, rfl, rfl⟩ | ⟨e, e', rfl, rfl⟩
  · exact SameOutcome.refl _
  · exact Or.inr ⟨e, e', rfl, rfl⟩

variable {value printed : CommandValue}

end CommandValue

/-- The message of a value that does not convert to the kind of the parameter. -/
def CommandParameter.invalidValue (parameter : CommandParameter σ) (what : CommandString) :
    CommandString :=
  parameter.namedError "Invalid value for '" "': " ++ what

/-- **Validation** treats the text like the value, or refuses both because they do not
convert. -/
theorem CommandValue.Printed.validate (hexact : platform.ExactIntegers)
    {value printed : CommandValue} (h : Printed platform value printed)
    {parameter : CommandParameter σ} (hkind : parameter.kind ≠ .floatingPoint) :
    parameter.validate platform value = parameter.validate platform printed ∨
      ∃ what what', parameter.validate platform value = pure (parameter.invalidValue what) ∧
        parameter.validate platform printed = pure (parameter.invalidValue what') := by
  have hrefused (value : CommandValue) {e : Thrown}
      (herror : parameter.checkKind platform value = .error e) :
      ∃ what, parameter.validate platform value = pure (parameter.invalidValue what) := by
    have hstd := parameter.throwsStd_checkKind platform value
    rw [CommandParameter.validate, herror]
    cases e with
    | std kind what => exact ⟨what, rfl⟩
    | foreign => exact absurd herror hstd
  cases h with
  | kept => exact Or.inl rfl
  | integer hvalue =>
      rcases CommandParameter.checkKind_sameOutcome hexact hvalue hkind with
        ⟨early, hvalue, htext⟩ | ⟨e, e', hvalue, htext⟩
      · left
        rw [CommandParameter.validate, CommandParameter.validate, hvalue, htext]
        rfl
      · obtain ⟨what, hwhat⟩ := hrefused _ hvalue
        obtain ⟨what', hwhat'⟩ := hrefused _ htext
        exact Or.inr ⟨what, what', hwhat, hwhat'⟩

/-! ### Invocations -/

/-- The invocation with some of its integers printed, and with any raw text. -/
structure CommandInvocation.Printed (platform : Platform) (invocation printed : CommandInvocation) :
    Prop where
  path : printed.path = invocation.path
  positional : List.Forall₂ (CommandValue.Printed platform) invocation.positional
    printed.positional
  named : List.Forall₂ (fun e e' => e'.1 = e.1 ∧ CommandValue.Printed platform e.2 e'.2)
    invocation.named.entries printed.named.entries

namespace CommandRegistry

variable {invocation printed : CommandInvocation}

section Binding

variable (h : invocation.Printed platform printed)
include h

end Binding

end CommandRegistry

/-! ### What user code sees -/

namespace CommandContext.Bound

variable {context : CommandContext} {name : CommandString} {binding : Binding}
  {value : CommandValue}

end CommandContext.Bound

namespace CommandRegistry

variable {registry : CommandRegistry σ} {node : CommandNode σ}
  {invocation printed : CommandInvocation}

/-- From every state the two computations run the same, or refuse a value of the same
parameter because it does not convert, for reasons of their own. -/
def AlikeButReason {α : Type} (parameters : List (CommandParameter σ))
    (refusal : CommandString → α) (x y : Eff σ α) : Prop :=
  ∀ state, y.runFrom state = x.runFrom state ∨
    ∃ parameter ∈ parameters, ∃ what what' after,
      x.Returns state (refusal (parameter.invalidValue what)) after ∧
        y.Returns state (refusal (parameter.invalidValue what')) after

namespace AlikeButReason

variable {α β : Type} {parameters : List (CommandParameter σ)} {refusal : CommandString → α}

theorem refl (parameters : List (CommandParameter σ)) (refusal : CommandString → α)
    (x : Eff σ α) : AlikeButReason parameters refusal x x :=
  fun _ => Or.inl rfl

end AlikeButReason

end CommandRegistry

end EspressioCommand
