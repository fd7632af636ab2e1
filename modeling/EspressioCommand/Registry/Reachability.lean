import EspressioCommand.Registry.Handles

/-!
# Reaching nodes by their own names

`AllReachable` says that `Resolve`, given the canonical names from the root down to a
node, returns that very node.  It holds exactly when no child anywhere answers to the
name of a later sibling (`allReachable_iff`).

`Command` and `RegisterCommand` add a child only where none answers to its name, and
removals only take nodes away, so they keep this.  `Alias` checks nothing:
`allReachable_iff_run` says that every node stays reachable all along a run exactly when
no alias is the name of a later sibling of its node.
-/

namespace EspressioCommand

open Library

variable {σ : Type}

theorem selfAnswering_matchesValue :
    RoseTree.SelfAnswering (NodeData.matchesValue (σ := σ)) NodeData.name := by
  intro node
  simp [NodeData.matchesValue]

/-- A setter that adds no alias does not change what a node answers to. -/
theorem NodeSetter.matchesValue_apply {setter : NodeSetter σ}
    (h : ∀ value, setter ≠ .addAlias value) (node : NodeData σ) (token : CommandString) :
    (setter.apply node).matchesValue token = node.matchesValue token := by
  cases setter with
  | addAlias value => exact absurd rfl (h value)
  | _ => rfl

namespace CommandRegistry

/-- `Resolve` finds every node along the canonical names that lead to it. -/
def AllReachable (registry : CommandRegistry σ) : Prop :=
  ∀ path node, RoseTree.Occurs NodeData.name path node registry.root →
    registry.resolve path = some node

/-- No child answers to the name of a later sibling. -/
def Unambiguous (registry : CommandRegistry σ) : Prop :=
  registry.root.ClearThroughout NodeData.matchesValue NodeData.name

/-- **Every node is reachable exactly when no child answers to the name of a later
sibling.** -/
theorem allReachable_iff {registry : CommandRegistry σ} (hinv : registry.TreeInvariant) :
    registry.AllReachable ↔ registry.Unambiguous := by
  rw [Unambiguous, RoseTree.clearThroughout_iff_walk_eq selfAnswering_matchesValue
    fun node hnode => (hinv.nodup_children hnode).of_map]
  rfl

theorem allReachable_initial : (initial : CommandRegistry σ).AllReachable := by
  rw [allReachable_iff treeInvariant_initial]
  apply RoseTree.clearThroughout_iff.mpr
  simp [initial, RoseTree.Clear]

/-- Setting a field of a node: the tree is unambiguous afterwards if no child, as it
then is, answers to the name of a later sibling. -/
theorem unambiguous_configure_iff {registry : CommandRegistry σ} (object : ℕ)
    (setter : NodeSetter σ) :
    (registry.configure object setter).Unambiguous ↔
      ∀ node, RoseTree.Subtree node registry.root →
        node.children.Pairwise fun child later =>
          (if child.label.object = object then setter.apply child.label
            else child.label).matchesValue later.label.name = false := by
  rw [Unambiguous, configure, RoseTree.clearThroughout_map_iff]
  have hname (node : NodeData σ) :
      (if node.object = object then setter.apply node else node).name = node.name := by
    split_ifs <;> simp
  simp only [hname]

/-- A new alias keeps an unambiguous tree so exactly when it is not the name of a later
sibling. -/
theorem unambiguous_addAlias_iff {registry : CommandRegistry σ} (h : registry.Unambiguous)
    (object : ℕ) (value : CommandString) :
    (registry.configure object (.addAlias value)).Unambiguous ↔
      ∀ node, RoseTree.Subtree node registry.root →
        node.children.Pairwise fun child later =>
          child.label.object = object → later.label.name ≠ value := by
  rw [unambiguous_configure_iff]
  refine forall_congr' fun node => forall_congr' fun hnode => ?_
  -- what the child answered to before is clear by `h`, so only the alias is at stake
  have hbefore := h node hnode
  constructor
  · intro hafter
    refine hafter.imp ?_
    intro child later hanswers hobject
    rw [if_pos hobject, NodeSetter.matchesValue_addAlias] at hanswers
    simpa using (Bool.or_eq_false_iff.mp hanswers).2
  · intro hfree
    refine (hbefore.and hfree).imp ?_
    rintro child later ⟨hclear, hvalue⟩
    split_ifs with hobject
    · rw [NodeSetter.matchesValue_addAlias, hclear]
      simpa using hvalue hobject
    · exact hclear

/-- The other setters keep an unambiguous tree so. -/
theorem unambiguous_configure {registry : CommandRegistry σ} (h : registry.Unambiguous)
    (object : ℕ) {setter : NodeSetter σ} (hsetter : ∀ value, setter ≠ .addAlias value) :
    (registry.configure object setter).Unambiguous := by
  rw [unambiguous_configure_iff]
  intro node hnode
  refine (h node hnode).imp ?_
  intro child later hclear
  split_ifs
  · rwa [NodeSetter.matchesValue_apply hsetter]
  · exact hclear

theorem unambiguous_command {registry : CommandRegistry σ} (h : registry.Unambiguous)
    (name : CommandString) : (registry.command name).2.Unambiguous := by
  cases hchild : registry.root.hasChild name with
  | true => rwa [command_of_hasChild hchild]
  | false =>
      rw [command_of_not_hasChild hchild]
      exact CommandNode.command_clearThroughout name registry.created h

theorem unambiguous_unregisterCommand {registry : CommandRegistry σ}
    (h : registry.Unambiguous) (path : CommandPath) :
    (registry.unregisterCommand path).2.Unambiguous := by
  rcases registry.unregisterCommand_cases path with hsame | ⟨_, root, -, -, hprune, hafter⟩
  · rwa [hsame]
  · rw [hafter]
    exact hprune.clearThroughout h

end CommandRegistry

/-- Where the call adds an alias, no later sibling of the node has it as its name. -/
def RegistryCall.AliasIsFree (registry : CommandRegistry σ) (call : RegistryCall σ) : Prop :=
  ∀ object value, call = .configure object (.addAlias value) →
    ∀ node, RoseTree.Subtree node registry.root →
      node.children.Pairwise fun child later =>
        child.label.object = object → later.label.name ≠ value

theorem RegistryCall.aliasIsFree_addAlias_iff (registry : CommandRegistry σ) (object : ℕ)
    (value : CommandString) :
    (RegistryCall.configure object (.addAlias value)).AliasIsFree registry ↔
      ∀ node, RoseTree.Subtree node registry.root →
        node.children.Pairwise fun child later =>
          child.label.object = object → later.label.name ≠ value := by
  constructor
  · intro hfree
    exact hfree object value rfl
  · intro hfree _ _ heq
    cases heq
    exact hfree

namespace CommandRegistry

/-- One call keeps an unambiguous tree so exactly when it adds no alias that is the name
of a later sibling. -/
theorem unambiguous_perform_iff {registry : CommandRegistry σ} (h : registry.Unambiguous)
    (call : RegistryCall σ) :
    (call.perform registry).Unambiguous ↔ call.AliasIsFree registry := by
  -- calls that add no alias keep the tree unambiguous in any case
  have hother (hcalls : ∀ object value, call ≠ .configure object (.addAlias value))
      (hright : (call.perform registry).Unambiguous) :
      (call.perform registry).Unambiguous ↔ call.AliasIsFree registry :=
    ⟨fun _ object value hcall => absurd hcall (hcalls object value), fun _ => hright⟩
  cases call with
  | command name => exact hother (by simp) (unambiguous_command h name)
  | unregisterCommand path => exact hother (by simp) (unambiguous_unregisterCommand h path)
  | use middleware => exact hother (by simp) h
  | configure object setter =>
      by_cases hsetter : ∃ value, setter = .addAlias value
      · obtain ⟨value, rfl⟩ := hsetter
        rw [RegistryCall.perform, unambiguous_addAlias_iff h, RegistryCall.aliasIsFree_addAlias_iff]
      · apply hother
        · intro _ value heq
          cases heq
          exact hsetter ⟨value, rfl⟩
        · exact unambiguous_configure h object fun value heq => hsetter ⟨value, heq⟩
  | nodeCommand object name =>
      refine hother (by simp) ?_
      apply RoseTree.clearThroughout_updateAt
      · exact fun node => CommandNode.command_label node name registry.created
      · exact fun node hnode => CommandNode.command_clearThroughout name registry.created hnode
      · exact h
  | nodeRemoveCommand object name =>
      refine hother (by simp) ?_
      exact (CommandRegistry.nodeRemoveCommand_pruning registry object name).clearThroughout h

end CommandRegistry

instance (registry : CommandRegistry σ) (call : RegistryCall σ) :
    Decidable (call.AliasIsFree registry) :=
  match call with
  | .configure object (.addAlias value) =>
      decidable_of_iff (∀ node, RoseTree.Subtree node registry.root →
        node.children.Pairwise fun child later =>
          child.label.object = object → later.label.name ≠ value)
        (RegistryCall.aliasIsFree_addAlias_iff registry object value).symm
  | .command _ => isTrue (by rintro _ _ ⟨⟩)
  | .unregisterCommand _ => isTrue (by rintro _ _ ⟨⟩)
  | .use _ => isTrue (by rintro _ _ ⟨⟩)
  | .configure _ (.description _) => isTrue (by rintro _ _ ⟨⟩)
  | .configure _ (.hidden _) => isTrue (by rintro _ _ ⟨⟩)
  | .configure _ (.deprecated _) => isTrue (by rintro _ _ ⟨⟩)
  | .configure _ (.onExecute _) => isTrue (by rintro _ _ ⟨⟩)
  | .configure _ (.before _) => isTrue (by rintro _ _ ⟨⟩)
  | .configure _ (.after _) => isTrue (by rintro _ _ ⟨⟩)
  | .configure _ (.parameter _) => isTrue (by rintro _ _ ⟨⟩)
  | .nodeCommand _ _ => isTrue (by rintro _ _ ⟨⟩)
  | .nodeRemoveCommand _ _ => isTrue (by rintro _ _ ⟨⟩)

namespace RegistrySystem

/-- An action that adds an alias adds one that no later sibling has as its name. -/
def AliasIsFree (s : RegistrySystem σ) (action : RegistryAction σ) : Prop :=
  ∀ call, s.registryCall action = some call → call.AliasIsFree s.registry

instance (s : RegistrySystem σ) (action : RegistryAction σ) :
    Decidable (s.AliasIsFree action) :=
  decidable_of_iff
    ((s.registryCall action).all fun call => decide (call.AliasIsFree s.registry)) <| by
    rw [AliasIsFree]
    cases s.registryCall action <;> simp

/-- **Every node is reachable under its own name all along a run** exactly when the run
gives no node an alias that is the name of a later sibling. -/
theorem allReachable_iff_run
    {trace : List (Transition (RegistrySystem σ) (RegistryAction σ))}
    {final : RegistrySystem σ} (hrun : Run Step {} trace final) :
    (∀ τ ∈ trace, τ.after.registry.AllReachable) ↔
      ∀ τ ∈ trace, τ.before.AliasIsFree τ.label := by
  refine Run.good_iff_allowed SystemInvariant (fun s => s.registry.AllReachable)
    systemInvariant_initial ?_ (fun _ _ _ => SystemInvariant.step) ?_ hrun
  · exact CommandRegistry.allReachable_initial
  · intro s action after hinv h hstep
    -- reachability is unambiguity on both sides, and a step is one call at most
    rw [CommandRegistry.allReachable_iff (hinv.step hstep).tree]
    rw [CommandRegistry.allReachable_iff hinv.tree] at h
    obtain ⟨-, rfl⟩ := hstep
    rw [perform_registry, AliasIsFree]
    cases s.registryCall action with
    | none => simpa using h
    | some call => simpa using CommandRegistry.unambiguous_perform_iff h call

/-- `relay` is registered, then `pump`, then `relay` is given the alias `pump`: the node
registered as `pump` is not found any more. -/
theorem not_allReachable_relay :
    ¬ ∀ (trace : List (Transition (RegistrySystem Unit) (RegistryAction Unit)))
        (final : RegistrySystem Unit), Run Step {} trace final →
        ∀ τ ∈ trace, τ.after.registry.AllReachable := by
  intro h
  have hrun := @Run.of_schedule _ _ Enabled perform ({} : RegistrySystem Unit)
    [.call (.command (text "relay")), .call (.command (text "pump")),
      .call (.configure 1 (.addAlias (text "pump")))] (by decide)
  have hreach := h _ _ hrun _ (List.getLast_mem (by simp [schedule]))
  have hfound := hreach [text "pump"] (CommandNode.create (text "pump") 2)
    (@RoseTree.Occurs.child _ _ NodeData.name [] _ (CommandNode.create (text "pump") 2) _
      (List.mem_cons_of_mem _ (List.mem_singleton_self _)) (RoseTree.Occurs.here _))
  have hobject := congrArg (Option.map fun node => (RoseTree.label node).object) hfound
  revert hobject
  decide

/-- Neither an alias that no sibling has as its name, nor one that only an earlier
sibling has, hides a node. -/
theorem allReachable_iff_run_relay :
    (∀ τ ∈ schedule perform ({} : RegistrySystem Unit)
      [.call (.command (text "relay")), .call (.command (text "pump")),
        .call (.configure 1 (.addAlias (text "r"))), .call (.nodeCommand 2 (text "on")),
        .call (.configure 2 (.addAlias (text "relay")))],
      τ.after.registry.AllReachable) ∧
    (CommandRegistry.initial (σ := Unit)).AllReachable :=
  ⟨(allReachable_iff_run (@Run.of_schedule _ _ Enabled perform _ _ (by decide))).mpr (by decide),
    CommandRegistry.allReachable_initial⟩

end RegistrySystem

end EspressioCommand
