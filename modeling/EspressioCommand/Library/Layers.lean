import Mathlib.Data.List.Basic

/-!
# Layers around a computation

A `Layer` is code that runs another computation once or not at all.  What it does before
that ends with an answer, with an exception, or with the rest of its code, which keeps its
locals and is given what the computation inside ended with, a result or an exception.
`nest` puts a list of layers around a computation, the first outermost.

`run_nest` says what order that makes: down through the layers up to the first that does not
go on, then back through those that were passed, the last one first.
-/

namespace EspressioCommand
namespace Library

universe u

variable {ε : Type u} {m : Type u → Type u} {β : Type u}

/-- Code around a computation that gives a `β` or throws an `ε`. -/
structure Layer (ε : Type u) (m : Type u → Type u) (β : Type u) where
  enter : ExceptT ε m (β ⊕ (Except ε β → ExceptT ε m β))

namespace Layer

section

variable [Monad m]

/-- One layer around a computation. -/
def wrap (layer : Layer ε m β) (inner : ExceptT ε m β) : ExceptT ε m β := do
  match ← layer.enter with
  | .inl answer => return answer
  -- the layer may catch what `inner` throws
  | .inr back => back (← ExceptT.lift inner.run)

/-- The layers around a computation, the first of them outermost. -/
def nest (inner : ExceptT ε m β) (layers : List (Layer ε m β)) : ExceptT ε m β :=
  layers.foldr wrap inner

/-- The way down: the rests of the layers that were passed, and what ended it, if it did not
come to the computation. -/
def enterAll :
    List (Layer ε m β) → m (List (Except ε β → ExceptT ε m β) × Option (Except ε β))
  | [] => return ([], none)
  | layer :: rest => do
      match ← layer.enter.run with
      | .error e => return ([], some (.error e))
      | .ok (.inl answer) => return ([], some (.ok answer))
      | .ok (.inr back) =>
          let reached ← enterAll rest
          return (back :: reached.1, reached.2)

/-- The way back, the last layer first, each with what the one before it ended with. -/
def leaveAll (backs : List (Except ε β → ExceptT ε m β)) (ended : Except ε β) :
    m (Except ε β) :=
  backs.foldrM (fun back ended => (back ended).run) ended

/-- What the way down leads to: what ended it, or the computation. -/
def innermost (inner : ExceptT ε m β) : Option (Except ε β) → m (Except ε β)
  | some ended => return ended
  | none => inner.run

/-- Down, to the computation unless a layer ends it, and back. -/
def downAndBack (inner : ExceptT ε m β) (layers : List (Layer ε m β)) : m (Except ε β) := do
  let reached ← enterAll layers
  let ended ← innermost inner reached.2
  leaveAll reached.1 ended

end

variable [Monad m] [LawfulMonad m]

theorem leaveAll_cons (back : Except ε β → ExceptT ε m β)
    (backs : List (Except ε β → ExceptT ε m β)) (ended : Except ε β) :
    leaveAll (back :: backs) ended = leaveAll backs ended >>= fun ended => (back ended).run :=
  List.foldrM_cons

theorem run_wrap (layer : Layer ε m β) (inner : ExceptT ε m β) :
    (layer.wrap inner).run = layer.enter.run >>= fun entered =>
      match entered with
      | .error e => pure (.error e)
      | .ok (.inl answer) => pure (.ok answer)
      | .ok (.inr back) => inner.run >>= fun ended => (back ended).run := by
  rw [wrap, ExceptT.run_bind]
  refine bind_congr fun entered => ?_
  rcases entered with e | answer | back
  · rfl
  · rfl
  · show (ExceptT.lift inner.run >>= back).run = _
    rw [ExceptT.run_bind, ExceptT.run_lift, bind_map_left]

/-- **Nested layers are a way down and a way back.** -/
theorem run_nest (inner : ExceptT ε m β) (layers : List (Layer ε m β)) :
    (nest inner layers).run = downAndBack inner layers := by
  induction layers with
  | nil =>
      rw [downAndBack, enterAll, pure_bind]
      exact (bind_pure inner.run).symm
  | cons layer rest ih =>
      show (layer.wrap (nest inner rest)).run = enterAll (layer :: rest) >>= _
      rw [run_wrap, ih, enterAll.eq_def, bind_assoc]
      refine bind_congr fun entered => ?_
      rcases entered with e | answer | back
      · simp only [innermost, pure_bind]
        rfl
      · simp only [innermost, pure_bind]
        rfl
      · -- the layer's own way back is the last step of the way back
        simp only [downAndBack, bind_assoc, pure_bind, leaveAll_cons]

end Layer

end Library
end EspressioCommand
