import EspressioCommand.Library.Layers
import EspressioCommand.Registry.TextInvocation

/-!
# The order of middleware

`chain` calls the first middleware with a function that calls the second, and so on down to
the command.  A middleware that calls this function at most once is a layer of the library.
`invoke_layered` says what an invocation does then: the middleware comes first in the
order in which it was registered, and again in the opposite order behind the command; one
that answers or throws keeps everything further in from running, and the command with it.
-/

namespace EspressioCommand
namespace CommandRegistry

open Library

variable {σ : Type}

/-- Middleware that calls the next stage at most once.  Its code up to that call answers,
throws, or leaves the code behind the call, with its locals; that code is given the result of
the next stage or the exception, which it may let through, replace or catch. -/
def layered (layer : CommandInvocation → Layer Thrown (StateM σ) CommandResult) :
    Middleware σ :=
  fun invocation next => (layer invocation).wrap next

/-- The layers of an invocation. -/
def layersOf (layers : List (CommandInvocation → Layer Thrown (StateM σ) CommandResult))
    (invocation : CommandInvocation) : List (Layer Thrown (StateM σ) CommandResult) :=
  layers.map fun layer => layer invocation

theorem chain_layered (invocation : CommandInvocation) (final : Eff σ CommandResult)
    (layers : List (CommandInvocation → Layer Thrown (StateM σ) CommandResult)) :
    chain invocation final (layers.map layered) =
      Layer.nest final (layersOf layers invocation) := by
  induction layers with
  | nil => rfl
  | cons layer rest ih =>
      show layered layer invocation (chain invocation final (rest.map layered)) = _
      rw [ih]
      rfl

/-- The layers that were passed are the first ones, and they are all of them exactly when
nothing has ended the way down. -/
theorem length_enterAll (layers : List (Layer Thrown (StateM σ) CommandResult)) (state : σ) :
    ((Layer.enterAll layers).run state).1.1.length ≤ layers.length ∧
      (((Layer.enterAll layers).run state).1.2 = none ↔
        ((Layer.enterAll layers).run state).1.1.length = layers.length) := by
  induction layers generalizing state with
  | nil => exact ⟨Nat.le_refl 0, iff_of_true rfl rfl⟩
  | cons layer rest ih =>
      rw [Layer.enterAll.eq_def, StateT.run_bind]
      rcases layer.enter.run.run state with ⟨e | answer | back, between⟩
      · exact ⟨Nat.zero_le _, iff_of_false (Option.some_ne_none _) (Nat.succ_ne_zero _).symm⟩
      · exact ⟨Nat.zero_le _, iff_of_false (Option.some_ne_none _) (Nat.succ_ne_zero _).symm⟩
      · obtain ⟨hle, hall⟩ := ih between
        exact ⟨Nat.succ_le_succ hle, hall.trans Nat.succ_inj.symm⟩

/-- **The order of an invocation.**  Once the arguments are bound, the middleware is entered
in the order of registration, up to the first that answers or throws; the command runs when
none does; and what this ends with, a result or an exception, goes through those that were
passed in the opposite order. -/
theorem invoke_layered (platform : Platform) {registry : CommandRegistry σ}
    {layers : List (CommandInvocation → Layer Thrown (StateM σ) CommandResult)}
    (hmiddleware : registry.middleware = layers.map layered) {node : CommandNode σ}
    {invocation : CommandInvocation} (hpath : invocation.path ≠ [])
    (hresolve : registry.resolve invocation.path = some node) :
    registry.invoke platform invocation =
        (do
          match ← bindInvocation platform registry node invocation with
          | .error result => return result
          | .ok (context, callback) =>
              ExceptT.mk (Layer.downAndBack (execute node.label callback context)
                (layersOf layers invocation))) ∧
      ∀ state,
        ((Layer.enterAll (layersOf layers invocation)).run state).1.1.length ≤ layers.length ∧
          (((Layer.enterAll (layersOf layers invocation)).run state).1.2 = none ↔
            ((Layer.enterAll (layersOf layers invocation)).run state).1.1.length =
              layers.length) := by
  constructor
  · rw [invoke, if_neg hpath, hresolve]
    show invokeResolved platform registry node invocation = _
    rw [invokeResolved, hmiddleware]
    refine bind_congr fun bound => ?_
    rcases bound with result | ⟨context, callback⟩
    · rfl
    · show chain invocation (execute node.label callback context) (layers.map layered) =
        ExceptT.mk (Layer.downAndBack (execute node.label callback context)
          (layersOf layers invocation))
      rw [chain_layered, ← Layer.run_nest]
      rfl
  · intro state
    have hlength : (layersOf layers invocation).length = layers.length := List.length_map _
    rw [← hlength]
    exact length_enterAll _ state

/-- A guard that throws at everything but `on`, inside a recorder, which keeps the count it
began with, puts it back when the call fails, and turns an exception into an answer. -/
def guardedLayers : List (CommandInvocation → Layer Thrown (StateM ℕ) CommandResult) :=
  [fun _ =>
      { enter := do
          let start ← get
          modify fun count => count + 1
          return .inr fun ended =>
            match ended with
            | .ok result => pure result
            | .error _ => do
                set start
                return .error (text "failed") },
    fun invocation =>
      { enter :=
          if invocation.positional = [.string (text "on")] then return .inr fun ended => ended
          else throw .foreign }]

/-- A command behind these layers. -/
def guardedRegistry : CommandRegistry ℕ where
  root := .node { object := 0, name := [] }
    [.node
      { object := 1
        name := text "relay"
        parameters := [{ name := text "state", kind := .boolean }]
        callback := some fun _ => do
          modify fun count => count + 10
          return .ok [] } []]
  created := 2
  middleware := guardedLayers.map layered

/-- The guard throws for `relay off`: the command does not run, and the recorder answers. -/
theorem invoke_layered_denied :
    (guardedRegistry.invoke .withoutFloatingText
      { CommandInvocation.empty with
        path := [text "relay"], positional := [.string (text "off")] }).runFrom 3 =
      (.ok (.error (text "failed")), 3) := by
  rw [(@invoke_layered _ .withoutFloatingText guardedRegistry guardedLayers rfl _
    { CommandInvocation.empty with
      path := [text "relay"], positional := [.string (text "off")] } (by decide) rfl).1]
  rfl

end CommandRegistry
end EspressioCommand
