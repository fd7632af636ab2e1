import EspressioCommand.Value.Platform

/-!
# User code

Validators, callbacks, hooks and middleware are code of the user.  It runs over a
state `σ` of which nothing is known: it may change the state, return or throw.
`Eff σ` is the type of such a computation; what was done to the state before a throw
stays done.
-/

namespace EspressioCommand

/-- A computation over the state `σ` that may throw. -/
-- the state is outside the exception, so a throw does not take it back
abbrev Eff (σ α : Type) : Type := ExceptT Thrown (StateM σ) α

namespace Eff

variable {σ α β : Type}

/-- What a computation returns or throws, and the state it leaves. -/
def runFrom (x : Eff σ α) (state : σ) : Except Thrown α × σ := x state

/-- Started in `state`, the computation returns `a` and leaves `after`. -/
def Returns (x : Eff σ α) (state : σ) (a : α) (after : σ) : Prop :=
  x.runFrom state = (.ok a, after)

/-- Started in `state`, the computation ends with an exception. -/
def Throws (x : Eff σ α) (state : σ) : Prop :=
  ∃ e after, x.runFrom state = (.error e, after)

@[simp] theorem runFrom_pure (a : α) (state : σ) :
    (pure a : Eff σ α).runFrom state = (.ok a, state) := rfl

@[simp] theorem runFrom_throw (e : Thrown) (state : σ) :
    (throw e : Eff σ α).runFrom state = (.error e, state) := rfl

theorem runFrom_bind (x : Eff σ α) (f : α → Eff σ β) (state : σ) :
    (x >>= f).runFrom state =
      match x.runFrom state with
      | (.ok a, after) => (f a).runFrom after
      | (.error e, after) => (.error e, after) := by
  show (ExceptT.bind x f : Eff σ β) state = _
  unfold ExceptT.bind runFrom
  rcases hx : x state with ⟨_ | a, after⟩
  · simp only [ExceptT.mk, ExceptT.bindCont, Bind.bind, StateT.bind, hx]
    rfl
  · simp only [ExceptT.mk, ExceptT.bindCont, Bind.bind, StateT.bind, hx]

theorem runFrom_tryCatch (x : Eff σ α) (handler : Thrown → Eff σ α) (state : σ) :
    (tryCatch x handler).runFrom state =
      match x.runFrom state with
      | (.ok a, after) => (.ok a, after)
      | (.error e, after) => (handler e).runFrom after := by
  show (ExceptT.tryCatch x handler : Eff σ α) state = _
  unfold ExceptT.tryCatch runFrom
  rcases hx : x state with ⟨_ | a, after⟩
  · simp only [ExceptT.mk, Bind.bind, StateT.bind, hx]
  · simp only [ExceptT.mk, Bind.bind, StateT.bind, hx]
    rfl

/-- A sequence returns when its parts return one after the other. -/
theorem runFrom_bind_eq_ok {x : Eff σ α} {f : α → Eff σ β} {state after : σ} {b : β} :
    (x >>= f).runFrom state = (.ok b, after) ↔
      ∃ a between, x.runFrom state = (.ok a, between) ∧
        (f a).runFrom between = (.ok b, after) := by
  rw [runFrom_bind]
  rcases x.runFrom state with ⟨_ | a, between⟩
  · simp
  · simp

@[simp] theorem not_throws_pure (a : α) (state : σ) : ¬ (pure a : Eff σ α).Throws state := by
  rintro ⟨e, after, h⟩
  cases h

/-- A sequence throws when its first part does, or returns and the rest throws. -/
theorem throws_bind {x : Eff σ α} {f : α → Eff σ β} {state : σ} :
    (x >>= f).Throws state ↔
      x.Throws state ∨ ∃ a between, x.Returns state a between ∧ (f a).Throws between := by
  unfold Throws Returns
  rw [runFrom_bind]
  rcases x.runFrom state with ⟨e | a, between⟩ <;> simp

/-- A computation returns or throws. -/
theorem returns_or_throws (x : Eff σ α) (state : σ) :
    (∃ a after, x.Returns state a after) ∨ x.Throws state := by
  unfold Returns Throws
  rcases x.runFrom state with ⟨e | a, after⟩
  · exact Or.inr ⟨e, after, rfl⟩
  · exact Or.inl ⟨a, after, rfl⟩

theorem Returns.not_throws {x : Eff σ α} {state after : σ} {a : α}
    (h : x.Returns state a after) : ¬ x.Throws state := by
  rintro ⟨e, after', hthrows⟩
  rw [Returns, hthrows] at h
  cases h

end Eff

end EspressioCommand
