import EspressioCommand.Library.TreeRemoval
import EspressioCommand.Registry.Mutation

/-!
# What `UnregisterCommand` removes

`UnregisterCommand` does not call `Resolve`: it walks to the parent in a loop of its
own and leaves the last token to `RemoveCommand`.  `unregisterCommand_resolve` says that
the two agree, in any tree, and that everything but the removed node stays.
-/

namespace EspressioCommand

open Library

variable {σ : Type}

namespace CommandNode

theorem removeCommand_of_findChild_eq_none {node : CommandNode σ} {name : CommandString}
    (h : node.findChild name = none) : node.removeCommand name = none := by
  rw [removeCommand, (findChild_eq_none_iff node name).mp h]
  rfl

/-- `RemoveCommand` cuts the child that `FindChild` finds. -/
theorem removeCommand_of_findChild_eq_some {node child : CommandNode σ} {name : CommandString}
    (h : node.findChild name = some child) :
    ∃ after, node.removeCommand name = some after ∧ Cut child node after := by
  refine ⟨_, ?_, cut_eraseP h⟩
  rw [removeCommand, if_pos (hasChild_of_findChild_eq_some h)]

end CommandNode

namespace CommandRegistry

/-- The nodes that the lookup of a path visits. -/
def visited (registry : CommandRegistry σ) (path : CommandPath) : List (CommandNode σ) :=
  registry.root.trail NodeData.matchesValue path

/-- What `UnregisterCommand` does, as a function of what `Resolve` returns. -/
theorem unregisterCommand_spec (registry : CommandRegistry σ) {path : CommandPath}
    (hpath : path ≠ []) :
    (registry.resolve path = none → registry.unregisterCommand path = (false, registry)) ∧
      ∀ node, registry.resolve path = some node →
        ∃ root, Cut node registry.root root ∧
          registry.unregisterCommand path =
            (true,
              { registry with
                root := root
                notifications := registry.notifications ++ [.unregistered path] }) := by
  obtain ⟨hnone, hsome⟩ := updateAlong_cut NodeData.matchesValue
    (fun node : CommandNode σ => node.removeCommand (path.getLast hpath))
    (path.getLast hpath)
    (fun _ h => CommandNode.removeCommand_of_findChild_eq_none h)
    (fun _ _ h => CommandNode.removeCommand_of_findChild_eq_some h)
    registry.root path.dropLast
  rw [List.dropLast_append_getLast hpath] at hnone hsome
  have hlast := List.getLast?_eq_some_getLast hpath
  constructor
  · intro h
    simp only [unregisterCommand, hlast, hnone h]
  · intro node hnode
    obtain ⟨root, hroot, hcut⟩ := hsome node hnode
    refine ⟨root, hcut, ?_⟩
    simp only [unregisterCommand, hlast, hroot]

/-- **Removal agrees with resolution.**  In a tree of distinct objects, and for a path
that is not empty, `UnregisterCommand` returns true exactly when the path resolves.  Then
the node it resolves to is cut out of the tree, the observers are told once, and a
path whose lookup did not visit that node resolves to the same node as before, or still
to none.  When it returns false, nothing has changed. -/
theorem unregisterCommand_resolve {registry : CommandRegistry σ}
    (hdistinct : (registry.root.labels.map NodeData.object).Nodup) {path : CommandPath}
    (hpath : path ≠ []) :
    ((registry.unregisterCommand path).1 = true ↔ registry.resolve path ≠ none) ∧
      (∀ node, registry.resolve path = some node →
        ∃ root, Cut node registry.root root ∧
          (registry.unregisterCommand path).2 =
            { registry with
              root := root
              notifications := registry.notifications ++ [.unregistered path] } ∧
          ∀ other, (∀ visitedNode ∈ registry.visited other,
              visitedNode.label.object ≠ node.label.object) →
            (registry.unregisterCommand path).2.resolve other =
              (registry.resolve other).map
                (RoseTree.without fun data => data.object == node.label.object)) ∧
      ((registry.unregisterCommand path).1 = false →
        (registry.unregisterCommand path).2 = registry) := by
  obtain ⟨hnone, hsome⟩ := registry.unregisterCommand_spec hpath
  refine ⟨?_, ?_, ?_⟩
  · cases hresolve : registry.resolve path with
    | none => simp [hnone hresolve]
    | some node =>
        obtain ⟨root, -, hcall⟩ := hsome node hresolve
        simp [hcall]
  · intro node hresolve
    obtain ⟨root, hcut, hcall⟩ := hsome node hresolve
    rw [hcall]
    refine ⟨root, hcut, rfl, ?_⟩
    intro other havoid
    exact hcut.walk_eq hdistinct havoid
  · intro hfalse
    cases hresolve : registry.resolve path with
    | none => rw [hnone hresolve]
    | some node =>
        obtain ⟨root, -, hcall⟩ := hsome node hresolve
        rw [hcall] at hfalse
        cases hfalse

/-- The nodes of the removed subtree stood together, and the others keep their order. -/
theorem unregisterCommand_labels {registry : CommandRegistry σ} {path : CommandPath}
    (hpath : path ≠ []) {node : CommandNode σ} (hnode : registry.resolve path = some node) :
    ∃ before after, registry.root.labels = before ++ node.labels ++ after ∧
      (registry.unregisterCommand path).2.root.labels = before ++ after := by
  obtain ⟨-, hsome⟩ := registry.unregisterCommand_spec hpath
  obtain ⟨root, hcut, hcall⟩ := hsome node hnode
  rw [hcall]
  exact hcut.labels_eq

/-- `relay on` and `relay off`, of which the second is also called `on`. -/
def relaySwitch : CommandRegistry Unit :=
  ((((initial.command (text "relay")).2.nodeCommand 1 (text "on")).nodeCommand 1
    (text "off")).configure 3 (.addAlias (text "on")))

/-- The first of the two goes, and the lookup of `relay off` is not disturbed. -/
theorem unregisterCommand_resolve_relaySwitch :
    (relaySwitch.unregisterCommand [text "relay", text "on"]).1 = true ∧
      (relaySwitch.unregisterCommand [text "relay", text "on"]).2.resolve
          [text "relay", text "off"] =
        (relaySwitch.resolve [text "relay", text "off"]).map
          (RoseTree.without fun data => data.object == 2) := by
  obtain ⟨htrue, hremoved, -⟩ := @unregisterCommand_resolve _ relaySwitch (by decide) _
    (List.cons_ne_nil (text "relay") [text "on"])
  have hobject : (relaySwitch.resolve [text "relay", text "on"]).map
      (fun node => node.label.object) = some 2 := by decide
  obtain ⟨node, hnode, hlabel⟩ := Option.map_eq_some_iff.mp hobject
  obtain ⟨-, -, -, hframe⟩ := hremoved node hnode
  refine ⟨htrue.mpr (by rw [hnode]; exact Option.some_ne_none node), ?_⟩
  rw [hframe [text "relay", text "off"] (by rw [hlabel]; decide), hlabel]

end CommandRegistry

end EspressioCommand
