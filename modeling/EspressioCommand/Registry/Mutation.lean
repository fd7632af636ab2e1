import EspressioCommand.Library.TreeUpdates
import EspressioCommand.Registry.CommandNode

/-!
# Changing the command tree

The mutators of `CommandNode` and `CommandRegistry`.  Every one of them acts on the
registry as a `RegistryCall`; `RegistryCall.perform` is that action.

* `CommandRegistry.TreeInvariant`: node objects are distinct and were all created.
  Every call keeps it (`RegistryCall.treeInvariant`).
* `topLevel_perform` says what each call makes of the list of top-level nodes, and
  `notifications_perform` what it tells the observers.
-/

namespace EspressioCommand

open Library

variable {σ : Type}

/-- The member functions of `CommandNode` that set its own fields. -/
inductive NodeSetter (σ : Type)
  | description (value : CommandString)
  | addAlias (value : CommandString)
  | hidden (value : Bool)
  | deprecated (message : CommandString)
  | onExecute (callback : Option (Callback σ))
  | before (callback : Callback σ)
  | after (callback : Callback σ)
  | parameter (descriptor : CommandParameter σ)

namespace NodeSetter

/-- What the setter leaves in the fields of the node. -/
def apply : NodeSetter σ → NodeData σ → NodeData σ
  | .description value, node => { node with description := value }
  | .addAlias value, node => { node with aliases := node.aliases ++ [value] }
  | .hidden value, node => { node with hidden := value }
  | .deprecated message, node => { node with deprecated := true, deprecationMessage := message }
  | .onExecute callback, node => { node with callback := callback }
  | .before callback, node => { node with before := node.before ++ [callback] }
  | .after callback, node => { node with after := node.after ++ [callback] }
  | .parameter descriptor, node =>
      { node with parameters := node.parameters ++ [descriptor] }

@[simp] theorem apply_object (setter : NodeSetter σ) (node : NodeData σ) :
    (setter.apply node).object = node.object := by
  cases setter <;> rfl

@[simp] theorem apply_name (setter : NodeSetter σ) (node : NodeData σ) :
    (setter.apply node).name = node.name := by
  cases setter <;> rfl

/-- A node answers to a new alias, and goes on answering to what it answered to. -/
theorem matchesValue_addAlias (value : CommandString) (node : NodeData σ)
    (token : CommandString) :
    ((addAlias value).apply node).matchesValue token =
      (node.matchesValue token || token == value) := by
  simp [apply, NodeData.matchesValue, Bool.or_assoc]

end NodeSetter

namespace CommandNode

/-- `CommandNode::CommandNode`. -/
def create (name : CommandString) (object : ℕ) : CommandNode σ :=
  .node { object := object, name := name } []

/-- Some child matches the name. -/
def hasChild (node : CommandNode σ) (name : CommandString) : Bool :=
  node.children.any fun child => child.label.matchesValue name

/-- `CommandNode::Command`: the child, found or created, and the node afterwards.
A new child becomes `object`. -/
def command (node : CommandNode σ) (name : CommandString) (object : ℕ) :
    ℕ × CommandNode σ :=
  match node.findChild name with
  | some child => (child.label.object, node)
  | none => (object, .node node.label (node.children ++ [create name object]))

/-- `CommandNode::RemoveCommand`: the node afterwards, or `none` for `false`. -/
def removeCommand (node : CommandNode σ) (name : CommandString) : Option (CommandNode σ) :=
  if node.hasChild name then
    some (.node node.label (node.children.eraseP fun child => child.label.matchesValue name))
  else none

theorem findChild_eq_none_iff (node : CommandNode σ) (name : CommandString) :
    node.findChild name = none ↔ node.hasChild name = false := by
  rw [findChild, RoseTree.firstAnswer, hasChild, List.find?_eq_none, List.any_eq_false]

theorem hasChild_of_findChild_eq_some {node child : CommandNode σ} {name : CommandString}
    (h : node.findChild name = some child) : node.hasChild name = true := by
  rw [← Bool.not_eq_false, ← findChild_eq_none_iff, h]
  exact Option.some_ne_none child

theorem command_of_hasChild {node : CommandNode σ} {name : CommandString}
    (h : node.hasChild name = true) (object : ℕ) : (node.command name object).2 = node := by
  rw [command]
  cases hfound : node.findChild name with
  | none =>
      rw [findChild_eq_none_iff, h] at hfound
      cases hfound
  | some child => rfl

theorem command_of_not_hasChild {node : CommandNode σ} {name : CommandString}
    (h : node.hasChild name = false) (object : ℕ) :
    node.command name object =
      (object, .node node.label (node.children ++ [create name object])) := by
  rw [command, (findChild_eq_none_iff node name).mpr h]

theorem command_label (node : CommandNode σ) (name : CommandString) (object : ℕ) :
    (node.command name object).2.label = node.label := by
  cases h : node.hasChild name with
  | true => rw [command_of_hasChild h]
  | false => rw [command_of_not_hasChild h, RoseTree.label_node]

/-- `Command` adds at most one node to the tree. -/
theorem command_labels (node : CommandNode σ) (name : CommandString) (object : ℕ) :
    (node.command name object).2.labels.Subperm
      ({ object := object, name := name } :: node.labels) := by
  cases h : node.hasChild name with
  | true =>
      rw [command_of_hasChild h]
      exact List.Subperm.cons_self
  | false =>
      rw [command_of_not_hasChild h]
      cases node with
      | node a cs =>
          simp only [RoseTree.labels, RoseTree.label_node, RoseTree.children_node,
            RoseTree.labelsForest_append, RoseTree.labelsForest, create, List.append_nil]
          refine List.Perm.subperm ?_
          exact (List.perm_append_singleton _ _).cons _ |>.trans (List.Perm.swap _ _ _)

/-- `Command` leaves a clear tree clear: it adds a child only where none answers to
the name. -/
theorem command_clearThroughout {node : CommandNode σ} (name : CommandString) (object : ℕ)
    (h : node.ClearThroughout NodeData.matchesValue NodeData.name) :
    (node.command name object).2.ClearThroughout NodeData.matchesValue NodeData.name := by
  cases hname : node.hasChild name with
  | true => rwa [command_of_hasChild hname]
  | false =>
      rw [command_of_not_hasChild hname]
      obtain ⟨hroot, hbelow⟩ := RoseTree.clearThroughout_iff.mp h
      apply RoseTree.clearThroughout_iff.mpr
      constructor
      · -- the new child is the last, and none before it answers to its name
        show (node.children ++ [create name object]).Pairwise _
        rw [List.pairwise_append]
        refine ⟨hroot, List.pairwise_singleton _ _, ?_⟩
        intro child hchild new hnew
        obtain rfl := List.mem_singleton.mp hnew
        simpa [create] using List.any_eq_false.mp hname child hchild
      · intro child hchild
        rcases List.mem_append.mp hchild with hold | hnew
        · exact hbelow child hold
        · obtain rfl := List.mem_singleton.mp hnew
          apply RoseTree.clearThroughout_iff.mpr
          simp [create, RoseTree.Clear]

theorem removeCommand_eq_some {node after : CommandNode σ} {name : CommandString}
    (h : node.removeCommand name = some after) :
    node.hasChild name = true ∧ after = .node node.label
      (node.children.eraseP fun child => child.label.matchesValue name) := by
  rw [removeCommand] at h
  split_ifs at h with hchild
  exact ⟨hchild, (Option.some.inj h).symm⟩

theorem removeCommand_label {node after : CommandNode σ} {name : CommandString}
    (h : node.removeCommand name = some after) : after.label = node.label := by
  rw [(removeCommand_eq_some h).2, RoseTree.label_node]

theorem removeCommand_pruning {node after : CommandNode σ} {name : CommandString}
    (h : node.removeCommand name = some after) : Pruning after node := by
  rw [(removeCommand_eq_some h).2]
  cases node with
  | node a cs => exact Pruning.node (PruningForest.of_sublist List.eraseP_sublist)

end CommandNode

/-- `CommandRegistrationHandle`.  An active handle remembers a path; `object`, which
the source does not store, is the node that `RegisterCommand` created for it. -/
inductive CommandRegistrationHandle
  | inactive
  | active (path : CommandPath) (object : ℕ)
deriving DecidableEq, Repr

namespace CommandRegistry

/-- `CommandRegistry::Command`: the node, found or created. -/
def command (registry : CommandRegistry σ) (name : CommandString) :
    ℕ × CommandRegistry σ :=
  -- whether to notify is settled before the node is looked up or made
  let existed := registry.root.hasChild name
  let result := registry.root.command name registry.created
  if existed then (result.1, { registry with root := result.2 })
  else
    (result.1,
      { registry with
        root := result.2
        notifications := registry.notifications ++ [.registered [name]]
        created := registry.created + 1 })

/-- `CommandRegistry::RegisterCommand`. -/
def registerCommand (registry : CommandRegistry σ) (name : CommandString) :
    CommandRegistrationHandle × CommandRegistry σ :=
  if name.isEmpty then (.inactive, registry)
  else if registry.root.hasChild name then (.inactive, registry)
  else
    let result := registry.root.command name registry.created
    (.active [name] result.1,
      { registry with
        root := result.2
        notifications := registry.notifications ++ [.registered [name]]
        created := registry.created + 1 })

/-- `CommandRegistry::UnregisterCommand`. -/
def unregisterCommand (registry : CommandRegistry σ) (path : CommandPath) :
    Bool × CommandRegistry σ :=
  match path.getLast? with
  | none => (false, registry)
  | some last =>
      -- the parent is found as `Resolve` finds it, and `RemoveCommand` called on it
      match registry.root.updateAlong NodeData.matchesValue
        (fun node => CommandNode.removeCommand node last) path.dropLast with
      | none => (false, registry)
      | some root =>
          (true,
            { registry with
              root := root
              notifications := registry.notifications ++ [.unregistered path] })

/-- `CommandRegistry::Use`. -/
def use (registry : CommandRegistry σ) (middleware : Middleware σ) : CommandRegistry σ :=
  { registry with middleware := registry.middleware ++ [middleware] }

/-- A setter of a node, called through a reference to it. -/
def configure (registry : CommandRegistry σ) (object : ℕ) (setter : NodeSetter σ) :
    CommandRegistry σ :=
  { registry with
    root := registry.root.map fun node =>
      if node.object = object then setter.apply node else node }

/-- `CommandNode::Command`, called through a reference to the node. -/
def nodeCommand (registry : CommandRegistry σ) (object : ℕ) (name : CommandString) :
    CommandRegistry σ :=
  { registry with
    root := registry.root.updateAt (fun node => node.object == object)
      fun node => (CommandNode.command node name registry.created).2
    created := registry.created + 1 }

/-- `CommandNode::RemoveCommand`, called through a reference to the node. -/
def nodeRemoveCommand (registry : CommandRegistry σ) (object : ℕ) (name : CommandString) :
    CommandRegistry σ :=
  { registry with
    root := registry.root.updateAt (fun node => node.object == object)
      fun node => (CommandNode.removeCommand node name).getD node }

/-- The nodes directly below the root. -/
def topLevel (registry : CommandRegistry σ) : List (NodeData σ) :=
  registry.root.children.map RoseTree.label

theorem mem_labels_of_topLevel {registry : CommandRegistry σ} {node : NodeData σ}
    (hnode : node ∈ registry.topLevel) : node ∈ registry.root.labels := by
  obtain ⟨child, hchild, rfl⟩ := List.mem_map.mp hnode
  exact (RoseTree.Subtree.child hchild (RoseTree.Subtree.refl child)).label_mem

/-- Objects tell nodes apart, the root is the first, and new ones get new numbers. -/
structure TreeInvariant (registry : CommandRegistry σ) : Prop where
  root : registry.root.label.object = 0
  distinct : (registry.root.labels.map NodeData.object).Nodup
  numbered : ∀ node ∈ registry.root.labels, node.object < registry.created

theorem treeInvariant_initial : (initial : CommandRegistry σ).TreeInvariant where
  root := rfl
  distinct := by simp [initial, RoseTree.labels, RoseTree.labelsForest]
  numbered := by simp [initial, RoseTree.labels, RoseTree.labelsForest]

namespace TreeInvariant

variable {registry : CommandRegistry σ}

/-- A tree with one new node at most, whose number is the next one. -/
theorem of_subperm (h : registry.TreeInvariant) {after : CommandRegistry σ}
    (name : CommandString) (hroot : after.root.label = registry.root.label)
    (hlabels : after.root.labels.Subperm
      ({ object := registry.created, name := name } :: registry.root.labels))
    (hcreated : after.created = registry.created + 1) : after.TreeInvariant where
  root := by rw [hroot, h.root]
  distinct := by
    obtain ⟨labels, hperm, hsub⟩ := hlabels
    refine (hperm.map NodeData.object).nodup_iff.mp ((hsub.map NodeData.object).nodup ?_)
    rw [List.map_cons, List.nodup_cons]
    refine ⟨?_, h.distinct⟩
    intro hmem
    -- an old node has a lesser number than the new one
    obtain ⟨node, hnode, heq⟩ := List.mem_map.mp hmem
    have heq : node.object = registry.created := heq
    have hlt := h.numbered node hnode
    omega
  numbered := by
    intro node hnode
    rw [hcreated]
    rcases List.mem_cons.mp (hlabels.subset hnode) with hnew | hold
    · rw [hnew]
      exact Nat.lt_succ_self _
    · have hlt := h.numbered node hold
      omega

theorem of_pruning (h : registry.TreeInvariant) {root : CommandNode σ}
    (hprune : Pruning root registry.root) {notifications : List Notification} :
    ({ registry with root := root, notifications := notifications } :
      CommandRegistry σ).TreeInvariant where
  root := by
    show root.label.object = 0
    rw [hprune.label_eq, h.root]
  distinct := (hprune.labels_sublist.map _).nodup h.distinct
  numbered := fun node hnode => h.numbered node (hprune.labels_sublist.subset hnode)

theorem configure (h : registry.TreeInvariant) (object : ℕ) (setter : NodeSetter σ) :
    (registry.configure object setter).TreeInvariant := by
  have hobject (node : NodeData σ) :
      (if node.object = object then setter.apply node else node).object = node.object := by
    split_ifs <;> simp
  refine ⟨?_, ?_, ?_⟩
  · rw [CommandRegistry.configure, RoseTree.label_map, hobject, h.root]
  · simpa [CommandRegistry.configure, RoseTree.labels_map, Function.comp_def, hobject]
      using h.distinct
  · simpa [CommandRegistry.configure, RoseTree.labels_map, hobject] using h.numbered

/-- No more than one node is a given object. -/
theorem countP_le_one (h : registry.TreeInvariant) (object : ℕ) :
    registry.root.labels.countP (fun node => node.object == object) ≤ 1 := by
  have hcount := List.nodup_iff_count_le_one.mp h.distinct object
  rwa [List.count, List.countP_map] at hcount

/-- Siblings differ, in their objects to begin with. -/
theorem nodup_children (h : registry.TreeInvariant) {node : CommandNode σ}
    (hnode : RoseTree.Subtree node registry.root) :
    (node.children.map fun child => child.label.object).Nodup := by
  cases node with
  | node a cs =>
      have hsub := hnode.labels_sublist.map NodeData.object
      rw [RoseTree.labels, List.map_cons] at hsub
      have hforest := ((List.sublist_cons_self _ _).trans hsub).nodup h.distinct
      have hroots :=
        ((RoseTree.map_label_sublist_labelsForest cs).map NodeData.object).nodup hforest
      rwa [List.map_map] at hroots

end TreeInvariant

/-! ### The effect of each operation -/

theorem hasChild_root_iff (registry : CommandRegistry σ) (name : CommandString) :
    registry.root.hasChild name = registry.topLevel.any fun node => node.matchesValue name := by
  rw [CommandNode.hasChild, topLevel, List.any_map]
  rfl

theorem resolve_singleton (registry : CommandRegistry σ) (name : CommandString) :
    registry.resolve [name] = registry.root.findChild name := by
  rw [resolve, RoseTree.walk_cons]
  exact Option.bind_fun_some _

theorem command_of_hasChild {registry : CommandRegistry σ} {name : CommandString}
    (h : registry.root.hasChild name = true) : (registry.command name).2 = registry := by
  rw [command, if_pos h, CommandNode.command_of_hasChild h]

theorem command_of_not_hasChild {registry : CommandRegistry σ} {name : CommandString}
    (h : registry.root.hasChild name = false) :
    (registry.command name).2 =
      { registry with
        root := (registry.root.command name registry.created).2
        notifications := registry.notifications ++ [.registered [name]]
        created := registry.created + 1 } := by
  rw [command, h]
  rfl

/-- For a name that is not empty, `RegisterCommand` changes the registry as
`Command` does. -/
theorem registerCommand_snd (registry : CommandRegistry σ) {name : CommandString}
    (hname : name.isEmpty = false) :
    (registry.registerCommand name).2 = (registry.command name).2 := by
  rw [registerCommand, hname]
  cases h : registry.root.hasChild name with
  | true => rw [command_of_hasChild h]; rfl
  | false => rw [command_of_not_hasChild h]; rfl

/-- The handle is active only for a new node, and then it is that node's. -/
theorem registerCommand_eq_active {registry : CommandRegistry σ} {name : CommandString}
    {path : CommandPath} {object : ℕ}
    (h : (registry.registerCommand name).1 = .active path object) :
    name.isEmpty = false ∧ registry.root.hasChild name = false ∧ path = [name] ∧
      object = registry.created := by
  rw [registerCommand] at h
  split_ifs at h with hempty hchild
  rw [CommandNode.command_of_not_hasChild (by simpa using hchild)] at h
  cases h
  exact ⟨by simpa using hempty, by simpa using hchild, rfl, rfl⟩

/-- What `UnregisterCommand` does to a path of one token. -/
theorem unregisterCommand_singleton (registry : CommandRegistry σ) (token : CommandString) :
    registry.unregisterCommand [token] =
      if registry.root.hasChild token then
        (true,
          { registry with
            root := .node registry.root.label
              (registry.root.children.eraseP fun child => child.label.matchesValue token)
            notifications := registry.notifications ++ [.unregistered [token]] })
      else (false, registry) := by
  rw [unregisterCommand]
  simp only [List.getLast?_singleton, List.dropLast_singleton, RoseTree.updateAlong_nil,
    CommandNode.removeCommand]
  cases registry.root.hasChild token <;> rfl

/-- `UnregisterCommand` does nothing, or prunes the tree and notifies. -/
theorem unregisterCommand_cases (registry : CommandRegistry σ) (path : CommandPath) :
    (registry.unregisterCommand path).2 = registry ∨
      ∃ last root, path.getLast? = some last ∧
        registry.root.updateAlong NodeData.matchesValue
          (fun node => CommandNode.removeCommand node last) path.dropLast = some root ∧
        Pruning root registry.root ∧
        (registry.unregisterCommand path).2 =
          { registry with
            root := root
            notifications := registry.notifications ++ [.unregistered path] } := by
  rw [unregisterCommand]
  split
  next => exact Or.inl rfl
  next last hlast =>
    split
    next => exact Or.inl rfl
    next root hroot =>
      refine Or.inr ⟨last, root, hlast, hroot, ?_, rfl⟩
      exact updateAlong_pruning (fun _ _ h => CommandNode.removeCommand_pruning h) hroot

theorem nodeRemoveCommand_pruning (registry : CommandRegistry σ) (object : ℕ)
    (name : CommandString) :
    Pruning (registry.nodeRemoveCommand object name).root registry.root := by
  apply updateAt_pruning
  intro node
  cases h : CommandNode.removeCommand node name with
  | none => exact Pruning.refl node
  | some after => exact CommandNode.removeCommand_pruning h

/-! ### The top-level nodes after each operation -/

theorem topLevel_command (registry : CommandRegistry σ) (name : CommandString) :
    (registry.command name).2.topLevel =
      if registry.root.hasChild name then registry.topLevel
      else registry.topLevel ++ [{ object := registry.created, name := name }] := by
  cases h : registry.root.hasChild name with
  | true =>
      rw [command_of_hasChild h]
      rfl
  | false =>
      rw [command_of_not_hasChild h, CommandNode.command_of_not_hasChild h]
      simp [topLevel, CommandNode.create]

theorem topLevel_unregisterCommand_singleton {registry : CommandRegistry σ}
    {token : CommandString} (h : registry.root.hasChild token = true) :
    (registry.unregisterCommand [token]).2.topLevel =
      registry.topLevel.eraseP fun node => node.matchesValue token := by
  rw [unregisterCommand_singleton, h]
  show List.map _ (List.eraseP _ _) = List.eraseP _ (List.map _ _)
  rw [List.eraseP_map]
  rfl

/-- `UnregisterCommand` does nothing, or it takes one token and removes the first
top-level node that matches it, or it takes more tokens and keeps the top level. -/
theorem topLevel_unregisterCommand (registry : CommandRegistry σ) (path : CommandPath) :
    (registry.unregisterCommand path).2 = registry ∨
      (∃ token, path = [token] ∧ registry.root.hasChild token = true ∧
        (registry.unregisterCommand path).2.topLevel =
          registry.topLevel.eraseP fun node => node.matchesValue token) ∨
      (path.length ≠ 1 ∧ (registry.unregisterCommand path).2.topLevel = registry.topLevel) := by
  rcases registry.unregisterCommand_cases path with hsame | ⟨last, root, hlast, hroot, -, hafter⟩
  · exact Or.inl hsame
  · match path, hlast with
    | [token], _ =>
        cases h : registry.root.hasChild token with
        | false =>
            rw [unregisterCommand_singleton, h]
            exact Or.inl rfl
        | true =>
            exact Or.inr (Or.inl ⟨token, rfl, h, topLevel_unregisterCommand_singleton h⟩)
    | token :: next :: rest, _ =>
        refine Or.inr (Or.inr ⟨by simp, ?_⟩)
        rw [hafter]
        -- the parent is below the root, so the root's children keep their labels
        rw [List.dropLast_cons_cons] at hroot
        exact RoseTree.map_label_updateAlong
          (fun _ _ h => CommandNode.removeCommand_label h) hroot

theorem topLevel_configure (registry : CommandRegistry σ) (object : ℕ) (setter : NodeSetter σ) :
    (registry.configure object setter).topLevel = registry.topLevel.map fun node =>
      if node.object = object then setter.apply node else node := by
  simp [topLevel, configure]

/-- An update of a node other than the root that keeps its label keeps the top level. -/
theorem topLevel_updateAt {registry : CommandRegistry σ} (hinv : registry.TreeInvariant)
    {object : ℕ} (hobject : object ≠ 0) {f : CommandNode σ → CommandNode σ}
    (hf : ∀ node, (f node).label = node.label) :
    (registry.root.updateAt (fun node => node.object == object) f).children.map RoseTree.label =
      registry.topLevel := by
  have hroot : (registry.root.label.object == object) = false := by
    rw [hinv.root]
    simpa using hobject.symm
  rw [RoseTree.updateAt_of_neg f (p := fun node => node.object == object) hroot]
  simp [topLevel, RoseTree.label_updateAt hf]

theorem topLevel_nodeCommand {registry : CommandRegistry σ} (hinv : registry.TreeInvariant)
    {object : ℕ} (hobject : object ≠ 0) (name : CommandString) :
    (registry.nodeCommand object name).topLevel = registry.topLevel :=
  topLevel_updateAt hinv hobject fun node => CommandNode.command_label node name _

theorem label_getD_removeCommand (node : CommandNode σ) (name : CommandString) :
    ((node.removeCommand name).getD node).label = node.label := by
  cases h : node.removeCommand name with
  | none => rfl
  | some after => exact CommandNode.removeCommand_label h

theorem topLevel_nodeRemoveCommand {registry : CommandRegistry σ}
    (hinv : registry.TreeInvariant) {object : ℕ} (hobject : object ≠ 0)
    (name : CommandString) :
    (registry.nodeRemoveCommand object name).topLevel = registry.topLevel :=
  topLevel_updateAt hinv hobject fun node => label_getD_removeCommand node name

end CommandRegistry

/-! ### Calls that change the registry -/

/-- A call that changes the registry, or a node through a reference to it. -/
inductive RegistryCall (σ : Type)
  | command (name : CommandString)
  | unregisterCommand (path : CommandPath)
  | use (middleware : Middleware σ)
  | configure (object : ℕ) (setter : NodeSetter σ)
  | nodeCommand (object : ℕ) (name : CommandString)
  | nodeRemoveCommand (object : ℕ) (name : CommandString)

namespace RegistryCall

open CommandRegistry

/-- The registry after the call. -/
def perform (registry : CommandRegistry σ) : RegistryCall σ → CommandRegistry σ
  | .command name => (registry.command name).2
  | .unregisterCommand path => (registry.unregisterCommand path).2
  | .use middleware => registry.use middleware
  | .configure object setter => registry.configure object setter
  | .nodeCommand object name => registry.nodeCommand object name
  | .nodeRemoveCommand object name => registry.nodeRemoveCommand object name

/-- The node that the call is made on, where it is made through a reference. -/
def reference : RegistryCall σ → Option ℕ
  | .configure object _ => some object
  | .nodeCommand object _ => some object
  | .nodeRemoveCommand object _ => some object
  | _ => none

/-- References lead to nodes of the tree, and never to the root, of which the
registry shows only a constant reference. -/
def Enabled (registry : CommandRegistry σ) (call : RegistryCall σ) : Prop :=
  ∀ object ∈ call.reference,
    object ≠ 0 ∧ object ∈ registry.root.labels.map NodeData.object

instance (registry : CommandRegistry σ) (call : RegistryCall σ) :
    Decidable (call.Enabled registry) := by
  unfold Enabled
  infer_instance

/-- **Every call keeps the objects distinct.** -/
theorem treeInvariant {registry : CommandRegistry σ} (hinv : registry.TreeInvariant)
    (call : RegistryCall σ) (hcall : call.Enabled registry) :
    (call.perform registry).TreeInvariant := by
  cases call with
  | command name =>
      cases h : registry.root.hasChild name with
      | true =>
          show ((registry.command name).2).TreeInvariant
          rwa [command_of_hasChild h]
      | false =>
          show ((registry.command name).2).TreeInvariant
          rw [command_of_not_hasChild h]
          refine hinv.of_subperm name ?_ (CommandNode.command_labels _ name registry.created) rfl
          rw [CommandNode.command_label]
  | unregisterCommand path =>
      show ((registry.unregisterCommand path).2).TreeInvariant
      rcases registry.unregisterCommand_cases path with hsame | ⟨_, root, -, -, hprune, hafter⟩
      · rwa [hsame]
      · rw [hafter]
        exact hinv.of_pruning hprune
  | use middleware => exact ⟨hinv.root, hinv.distinct, hinv.numbered⟩
  | configure object setter => exact hinv.configure object setter
  | nodeCommand object name =>
      refine hinv.of_subperm name ?_ ?_ rfl
      · exact RoseTree.label_updateAt (fun node => CommandNode.command_label node name _) _
      · apply RoseTree.labels_updateAt_subperm
        · exact fun node => CommandNode.command_labels node name registry.created
        · exact hinv.countP_le_one object
  | nodeRemoveCommand object name =>
      exact hinv.of_pruning (nodeRemoveCommand_pruning registry object name)

/-- A top-level node after a call is new, or was a top-level node of that name. -/
theorem mem_topLevel_perform {registry : CommandRegistry σ} (hinv : registry.TreeInvariant)
    {call : RegistryCall σ} (hcall : call.Enabled registry) {node : NodeData σ}
    (hnode : node ∈ (call.perform registry).topLevel) :
    node.object = registry.created ∨
      ∃ old ∈ registry.topLevel, old.object = node.object ∧ old.name = node.name := by
  cases call with
  | command name =>
      rw [perform, topLevel_command] at hnode
      split_ifs at hnode
      · exact Or.inr ⟨node, hnode, rfl, rfl⟩
      · rcases List.mem_append.mp hnode with hold | hnew
        · exact Or.inr ⟨node, hold, rfl, rfl⟩
        · rw [List.mem_singleton.mp hnew]
          exact Or.inl rfl
  | unregisterCommand path =>
      rw [perform] at hnode
      rcases topLevel_unregisterCommand registry path with hsame | ⟨_, -, -, herase⟩ | ⟨-, hsame⟩
      · rw [hsame] at hnode
        exact Or.inr ⟨node, hnode, rfl, rfl⟩
      · rw [herase] at hnode
        exact Or.inr ⟨node, List.eraseP_subset hnode, rfl, rfl⟩
      · rw [hsame] at hnode
        exact Or.inr ⟨node, hnode, rfl, rfl⟩
  | use middleware => exact Or.inr ⟨node, hnode, rfl, rfl⟩
  | configure object setter =>
      rw [perform, topLevel_configure] at hnode
      obtain ⟨old, hold, rfl⟩ := List.mem_map.mp hnode
      refine Or.inr ⟨old, hold, ?_, ?_⟩ <;> split_ifs <;> simp
  | nodeCommand object name =>
      rw [perform, topLevel_nodeCommand hinv (hcall object rfl).1] at hnode
      exact Or.inr ⟨node, hnode, rfl, rfl⟩
  | nodeRemoveCommand object name =>
      rw [perform, topLevel_nodeRemoveCommand hinv (hcall object rfl).1] at hnode
      exact Or.inr ⟨node, hnode, rfl, rfl⟩

/-- Object numbers are not given out again. -/
theorem created_le_perform (registry : CommandRegistry σ) (call : RegistryCall σ) :
    registry.created ≤ (call.perform registry).created := by
  cases call with
  | command name =>
      rw [perform]
      cases h : registry.root.hasChild name with
      | true => rw [command_of_hasChild h]
      | false =>
          rw [command_of_not_hasChild h]
          exact Nat.le_succ _
  | unregisterCommand path =>
      rw [perform]
      rcases registry.unregisterCommand_cases path with hsame | ⟨_, _, -, -, -, hafter⟩
      · rw [hsame]
      · rw [hafter]
  | use middleware => exact Nat.le_refl _
  | configure object setter => exact Nat.le_refl _
  | nodeCommand object name => exact Nat.le_succ _
  | nodeRemoveCommand object name => exact Nat.le_refl _

end RegistryCall

end EspressioCommand
