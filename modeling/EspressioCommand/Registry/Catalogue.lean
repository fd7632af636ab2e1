import EspressioCommand.Library.Catalogue
import EspressioCommand.Registry.Handles
import EspressioCommand.Registry.Reachability
import EspressioCommand.Registry.Removal

/-!
# The registry as a catalogue of commands

What a command registry is for, without its tree: a set of commands, each entered under
the list of its names, with what was set of it.  `CommandCatalogue.perform` says what a
call does to that set.  A command is declared below another unless one there already
answers to its name, and removing a path removes all that is entered at or below the
names the path spells.

`resolve_iff_finds_of_run` says that the registry is this catalogue along every run in
which no alias is given that a sibling already answers to.
-/

namespace EspressioCommand

open Library

variable {σ : Type}

/-- A call that adds an alias: to which node, and which. -/
def RegistryCall.newAlias : RegistryCall σ → Option (ℕ × CommandString)
  | .configure object (.addAlias value) => some (object, value)
  | _ => none

/-- Two nodes answer to a token in common. -/
def NodeData.sharesToken (node other : NodeData σ) : Bool :=
  (node.name :: node.aliases).any other.matchesValue

theorem shares_sharesToken :
    RoseTree.Shares (NodeData.matchesValue (σ := σ)) NodeData.sharesToken := by
  intro node other token hnode hother
  rw [NodeData.sharesToken, List.any_eq_true]
  refine ⟨token, ?_, hother⟩
  simpa [NodeData.matchesValue] using hnode

/-! ### The abstract registry -/

/-- The commands of a registry under their names, with what observers were told. -/
structure CommandCatalogue (σ : Type) where
  entries : Set (CommandPath × NodeData σ)
  notifications : List Notification
  created : ℕ

namespace CommandCatalogue

/-- The nameless root alone. -/
def initial : CommandCatalogue σ where
  entries := {([], { object := 0, name := [] })}
  notifications := []
  created := 1

/-- Directly below the names, some command answers to the token. -/
def Answered (catalogue : CommandCatalogue σ) (front : CommandPath) (token : CommandString) :
    Prop :=
  ∃ last node, (front ++ [last], node) ∈ catalogue.entries ∧ node.matchesValue token = true

/-- The path, through names or aliases, leads to the command. -/
def Finds (catalogue : CommandCatalogue σ) (path : CommandPath) (node : NodeData σ) : Prop :=
  Catalogue.Finds NodeData.matchesValue catalogue.entries path node

/-- The names are at or below those that the path spells. -/
def Covers (catalogue : CommandCatalogue σ) (path names : CommandPath) : Prop :=
  ∃ front, Catalogue.Spells NodeData.matchesValue catalogue.entries path front ∧ front <+: names

/-- The names are at or below those of a child, of the node that is `object`, which
answers to the token. -/
def CoversChild (catalogue : CommandCatalogue σ) (object : ℕ) (token : CommandString)
    (names : CommandPath) : Prop :=
  ∃ front node last child, (front, node) ∈ catalogue.entries ∧ node.object = object ∧
    (front ++ [last], child) ∈ catalogue.entries ∧ child.matchesValue token = true ∧
      front ++ [last] <+: names

open Classical in
/-- The catalogue after a call. -/
noncomputable def perform (catalogue : CommandCatalogue σ) : RegistryCall σ → CommandCatalogue σ
  | .command name =>
      if catalogue.Answered [] name then catalogue
      else
        { entries := insert ([name], { object := catalogue.created, name := name })
            catalogue.entries
          notifications := catalogue.notifications ++ [.registered [name]]
          created := catalogue.created + 1 }
  | .unregisterCommand path =>
      if path ≠ [] ∧ ∃ node, catalogue.Finds path node then
        { catalogue with
          entries := {entry ∈ catalogue.entries | ¬ catalogue.Covers path entry.1}
          notifications := catalogue.notifications ++ [.unregistered path] }
      else catalogue
  | .use _ => catalogue
  | .configure object setter =>
      { catalogue with
        entries := (fun entry => (entry.1,
          if entry.2.object = object then setter.apply entry.2 else entry.2)) ''
            catalogue.entries }
  | .nodeCommand object name =>
      { catalogue with
        entries := catalogue.entries ∪
          {entry | ∃ front node, (front, node) ∈ catalogue.entries ∧ node.object = object ∧
            ¬ catalogue.Answered front name ∧
            entry = (front ++ [name], { object := catalogue.created, name := name })}
        created := catalogue.created + 1 }
  | .nodeRemoveCommand object name =>
      { catalogue with
        entries := {entry ∈ catalogue.entries | ¬ catalogue.CoversChild object name entry.1} }

end CommandCatalogue

/-! ### Siblings that share no token -/

namespace CommandRegistry

/-- No two siblings answer to one token. -/
def Separate (registry : CommandRegistry σ) : Prop :=
  registry.root.ClearThroughout NodeData.sharesToken id

theorem separate_initial : (initial : CommandRegistry σ).Separate := by
  apply RoseTree.clearThroughout_iff.mpr
  simp [initial, RoseTree.Clear]

end CommandRegistry

/-- Where the call adds an alias, no sibling of the node answers to it. -/
def RegistryCall.AliasIsFresh (registry : CommandRegistry σ) (call : RegistryCall σ) : Prop :=
  ∀ added ∈ call.newAlias, ∀ node, RoseTree.Subtree node registry.root →
    node.children.Pairwise fun child later =>
      (child.label.object = added.1 → later.label.matchesValue added.2 = false) ∧
        (later.label.object = added.1 → child.label.matchesValue added.2 = false)

instance (registry : CommandRegistry σ) (call : RegistryCall σ) :
    Decidable (call.AliasIsFresh registry) := by
  unfold RegistryCall.AliasIsFresh
  infer_instance

namespace CommandNode

/-- `Command` separates the node it makes from the siblings. -/
theorem command_separate {node : CommandNode σ} (name : CommandString) (object : ℕ)
    (h : node.ClearThroughout NodeData.sharesToken id) :
    (node.command name object).2.ClearThroughout NodeData.sharesToken id := by
  cases hname : node.hasChild name with
  | true => rwa [command_of_hasChild hname]
  | false =>
      rw [command_of_not_hasChild hname]
      obtain ⟨hroot, hbelow⟩ := RoseTree.clearThroughout_iff.mp h
      apply RoseTree.clearThroughout_iff.mpr
      constructor
      · show (node.children ++ [create name object]).Pairwise _
        rw [List.pairwise_append]
        refine ⟨hroot, List.pairwise_singleton _ _, ?_⟩
        intro child hchild new hnew
        obtain rfl := List.mem_singleton.mp hnew
        -- the new node answers to its name alone, and the child does not
        have hanswer := List.any_eq_false.mp hname child hchild
        rw [Bool.not_eq_true] at hanswer
        simp only [NodeData.sharesToken, create, RoseTree.label_node, id,
          NodeData.matchesValue, List.any_nil, Bool.or_false, List.any_eq_false, beq_iff_eq]
        rintro token htoken rfl
        simp only [NodeData.matchesValue, Bool.or_eq_false_iff, beq_eq_false_iff_ne] at hanswer
        rcases List.mem_cons.mp htoken with hsame | halias
        · exact hanswer.1 hsame
        · simpa using List.any_eq_false.mp hanswer.2 token halias
      · intro child hchild
        rcases List.mem_append.mp hchild with hold | hnew
        · exact hbelow child hold
        · obtain rfl := List.mem_singleton.mp hnew
          apply RoseTree.clearThroughout_iff.mpr
          simp [create, RoseTree.Clear]

end CommandNode

namespace NodeSetter

/-- What a setter makes of the tokens a node shares with another. -/
theorem sharesToken_apply {setter : NodeSetter σ} (h : ∀ value, setter ≠ .addAlias value)
    (node other : NodeData σ) :
    (setter.apply node).sharesToken other = node.sharesToken other := by
  cases setter with
  | addAlias value => exact absurd rfl (h value)
  | _ => rfl

theorem sharesToken_apply_right {setter : NodeSetter σ} (h : ∀ value, setter ≠ .addAlias value)
    (node other : NodeData σ) :
    node.sharesToken (setter.apply other) = node.sharesToken other := by
  have hanswers : (setter.apply other).matchesValue = other.matchesValue := by
    ext token
    rw [matchesValue_apply h]
  rw [NodeData.sharesToken, hanswers, NodeData.sharesToken]

theorem sharesToken_addAlias (value : CommandString) (node other : NodeData σ) :
    ((addAlias value).apply node).sharesToken other =
      (node.sharesToken other || other.matchesValue value) := by
  simp [NodeData.sharesToken, apply, Bool.or_assoc]

theorem sharesToken_addAlias_right (value : CommandString) (node other : NodeData σ) :
    node.sharesToken ((addAlias value).apply other) =
      (node.sharesToken other || node.matchesValue value) := by
  have hanswers : ((addAlias value).apply other).matchesValue =
      fun token => other.matchesValue token || token == value := by
    ext token
    rw [matchesValue_addAlias]
  rw [NodeData.sharesToken, hanswers, NodeData.sharesToken, Bool.eq_iff_iff]
  simp only [List.any_eq_true, Bool.or_eq_true, beq_iff_eq, NodeData.matchesValue,
    List.mem_cons]
  constructor
  · rintro ⟨token, htoken, hanswers | rfl⟩
    · exact Or.inl ⟨token, htoken, hanswers⟩
    · rcases htoken with rfl | halias
      · exact Or.inr (Or.inl rfl)
      · exact Or.inr (Or.inr ⟨token, halias, rfl⟩)
  · rintro (⟨token, htoken, hanswers⟩ | hname | ⟨token, halias, rfl⟩)
    · exact ⟨token, htoken, Or.inl hanswers⟩
    · exact ⟨value, Or.inl hname, Or.inr rfl⟩
    · exact ⟨_, Or.inr halias, Or.inr rfl⟩

end NodeSetter

namespace CommandRegistry

/-- A fresh alias keeps siblings separate. -/
theorem separate_addAlias {registry : CommandRegistry σ} (hinv : registry.TreeInvariant)
    (h : registry.Separate) {object : ℕ} {value : CommandString}
    (hfresh : (RegistryCall.configure object (.addAlias value)).AliasIsFresh registry) :
    (registry.configure object (.addAlias value)).Separate := by
  rw [Separate, configure, RoseTree.clearThroughout_map_iff]
  intro node hnode
  have hobjects := List.pairwise_map.mp (hinv.nodup_children hnode)
  refine ((h node hnode).and ((hfresh _ rfl node hnode).and hobjects)).imp ?_
  rintro child later ⟨hclear, ⟨hlater, hchild⟩, hne⟩
  have hclear : child.label.sharesToken later.label = false := hclear
  show NodeData.sharesToken _ (ite _ _ _) = false
  split_ifs with hfirst hsecond hsecond
  · exact absurd (hfirst.trans hsecond.symm) hne
  · rw [NodeSetter.sharesToken_addAlias, hclear, hlater hfirst]
    rfl
  · rw [NodeSetter.sharesToken_addAlias_right, hclear, hchild hsecond]
    rfl
  · exact hclear

/-- The other setters keep siblings separate. -/
theorem separate_configure {registry : CommandRegistry σ} (h : registry.Separate)
    (object : ℕ) {setter : NodeSetter σ} (hsetter : ∀ value, setter ≠ .addAlias value) :
    (registry.configure object setter).Separate := by
  rw [Separate, configure, RoseTree.clearThroughout_map_iff]
  intro node hnode
  refine (h node hnode).imp ?_
  intro child later hclear
  have hclear : child.label.sharesToken later.label = false := hclear
  show NodeData.sharesToken _ (ite _ _ _) = false
  split_ifs <;> simp only [NodeSetter.sharesToken_apply hsetter,
    NodeSetter.sharesToken_apply_right hsetter, hclear]

/-- **Every call with a fresh alias, if any, keeps siblings separate.** -/
theorem separate_perform {registry : CommandRegistry σ} (hinv : registry.TreeInvariant)
    (h : registry.Separate) {call : RegistryCall σ} (hfresh : call.AliasIsFresh registry) :
    (call.perform registry).Separate := by
  cases call with
  | command name =>
      show ((registry.command name).2).Separate
      cases hchild : registry.root.hasChild name with
      | true => rwa [command_of_hasChild hchild]
      | false =>
          rw [command_of_not_hasChild hchild]
          exact CommandNode.command_separate name registry.created h
  | unregisterCommand path =>
      show ((registry.unregisterCommand path).2).Separate
      rcases registry.unregisterCommand_cases path with hsame | ⟨_, root, -, -, hprune, hafter⟩
      · rwa [hsame]
      · rw [hafter]
        exact hprune.clearThroughout h
  | use middleware => exact h
  | configure object setter =>
      by_cases hsetter : ∃ value, setter = .addAlias value
      · obtain ⟨value, rfl⟩ := hsetter
        exact separate_addAlias hinv h hfresh
      · exact separate_configure h object fun value heq => hsetter ⟨value, heq⟩
  | nodeCommand object name =>
      apply RoseTree.clearThroughout_updateAt
      · exact fun node => CommandNode.command_label node name registry.created
      · exact fun node hnode => CommandNode.command_separate name registry.created hnode
      · exact h
  | nodeRemoveCommand object name =>
      exact (nodeRemoveCommand_pruning registry object name).clearThroughout h

end CommandRegistry

/-! ### Refinement -/

/-- The catalogue holds what the registry holds. -/
structure CommandCatalogue.Represents (catalogue : CommandCatalogue σ)
    (registry : CommandRegistry σ) : Prop where
  entries : catalogue.entries = registry.root.entries NodeData.name
  notifications : catalogue.notifications = registry.notifications
  created : catalogue.created = registry.created

namespace CommandNode

/-- What `Command` enters: a new node under its name, unless there is one. -/
theorem entries_command (node : CommandNode σ) (name : CommandString) (object : ℕ) :
    (node.command name object).2.entries NodeData.name = node.entries NodeData.name ∪
      if node.hasChild name then ∅ else {([name], { object := object, name := name })} := by
  cases h : node.hasChild name with
  | true => simp [command_of_hasChild h]
  | false =>
      rw [command_of_not_hasChild h]
      ext ⟨names, data⟩
      rw [Set.mem_union, if_neg (by simp), Set.mem_singleton_iff]
      cases names with
      | nil => simp [RoseTree.nil_mem_entries]
      | cons first names =>
          rw [RoseTree.cons_mem_entries, RoseTree.cons_mem_entries, RoseTree.children_node]
          constructor
          · rintro ⟨child, hchild, rfl, hdata⟩
            rcases List.mem_append.mp hchild with hold | hnew
            · exact Or.inl ⟨child, hold, rfl, hdata⟩
            · obtain rfl := List.mem_singleton.mp hnew
              cases names with
              | nil =>
                  rw [← RoseTree.nil_mem_entries.mp hdata]
                  exact Or.inr rfl
              | cons second names =>
                  obtain ⟨below, hbelow, -⟩ := RoseTree.cons_mem_entries.mp hdata
                  cases hbelow
          · rintro (⟨child, hchild, rfl, hdata⟩ | heq)
            · exact ⟨child, List.mem_append_left _ hchild, rfl, hdata⟩
            · cases heq
              exact ⟨create name object, List.mem_append_right _ (List.mem_singleton_self _), rfl,
                RoseTree.nil_mem_entries.mpr rfl⟩

end CommandNode

namespace CommandCatalogue

variable {catalogue : CommandCatalogue σ} {registry : CommandRegistry σ}

theorem represents_initial : (initial : CommandCatalogue σ).Represents .initial where
  entries := by
    ext ⟨names, data⟩
    cases names with
    | nil => simp [initial, CommandRegistry.initial, RoseTree.nil_mem_entries, eq_comm]
    | cons name names => simp [initial, CommandRegistry.initial, RoseTree.cons_mem_entries]
  notifications := rfl
  created := rfl

namespace Represents

/-- What is answered below some names is what `FindChild` finds there. -/
theorem answered_iff (h : catalogue.Represents registry) (hseparate : registry.Separate)
    {front : CommandPath} {node : CommandNode σ}
    (hnode : RoseTree.Occurs NodeData.name front node registry.root) (token : CommandString) :
    catalogue.Answered front token ↔ node.hasChild token = true := by
  rw [Answered, h.entries, CommandNode.hasChild, List.any_eq_true]
  simp only [RoseTree.append_mem_entries selfAnswering_matchesValue shares_sharesToken hseparate
    hnode, RoseTree.singleton_mem_entries]
  constructor
  · rintro ⟨last, data, ⟨child, hchild, rfl, rfl⟩, hanswers⟩
    exact ⟨child, hchild, hanswers⟩
  · rintro ⟨child, hchild, hanswers⟩
    exact ⟨_, _, ⟨child, hchild, rfl, rfl⟩, hanswers⟩

/-- **What a path leads to.** -/
theorem finds_iff (h : catalogue.Represents registry) (hseparate : registry.Separate)
    {path : CommandPath} {data : NodeData σ} :
    catalogue.Finds path data ↔ (registry.resolve path).map RoseTree.label = some data := by
  rw [Finds, h.entries]
  exact RoseTree.finds_entries_iff selfAnswering_matchesValue shares_sharesToken hseparate

theorem command (h : catalogue.Represents registry) (hseparate : registry.Separate)
    (name : CommandString) :
    (catalogue.perform (.command name)).Represents (registry.command name).2 := by
  have hanswered := h.answered_iff hseparate (RoseTree.Occurs.here _) name
  rw [perform]
  cases hchild : registry.root.hasChild name with
  | true =>
      rw [if_pos (hanswered.mpr hchild), CommandRegistry.command_of_hasChild hchild]
      exact h
  | false =>
      rw [if_neg (by rw [hanswered, hchild]; simp),
        CommandRegistry.command_of_not_hasChild hchild]
      refine ⟨?_, ?_, ?_⟩
      · show insert _ _ = RoseTree.entries NodeData.name _
        rw [CommandNode.entries_command, hchild, if_neg (by simp), h.entries, h.created,
          Set.insert_eq, Set.union_comm]
      · rw [h.notifications]
      · rw [h.created]

/-- What the names cover that a path spells is what `UnregisterCommand` takes out. -/
theorem unregisterCommand (h : catalogue.Represents registry) (hinv : registry.TreeInvariant)
    (hseparate : registry.Separate) (path : CommandPath) :
    (catalogue.perform (.unregisterCommand path)).Represents
      (registry.unregisterCommand path).2 := by
  rw [perform]
  by_cases hpath : path = []
  · subst hpath
    rw [if_neg (by simp)]
    exact h
  · obtain ⟨hnone, hsome⟩ := registry.unregisterCommand_spec hpath
    cases hresolve : registry.resolve path with
    | none =>
        rw [hnone hresolve, if_neg]
        · exact h
        · rintro ⟨-, data, hdata⟩
          rw [h.finds_iff hseparate, hresolve] at hdata
          cases hdata
    | some node =>
        have hfinds : catalogue.Finds path node.label := by
          rw [h.finds_iff hseparate, hresolve]
          rfl
        obtain ⟨root, hcut, hafter⟩ := hsome node hresolve
        rw [hafter, if_pos ⟨hpath, node.label, hfinds⟩]
        refine ⟨?_, ?_, h.created⟩
        · obtain ⟨names, hspells, hentry⟩ := hfinds
          rw [h.entries] at hspells hentry
          rw [RoseTree.entries_cut selfAnswering_matchesValue shares_sharesToken hseparate
            hinv.distinct hcut hentry, h.entries]
          ext ⟨ks, data⟩
          refine and_congr_right fun _ => not_congr ⟨?_, ?_⟩
          · rintro ⟨front, hfront, hprefix⟩
            rw [h.entries] at hfront
            rwa [RoseTree.names_eq_of_spells selfAnswering_matchesValue shares_sharesToken
              hseparate hspells hfront]
          · intro hprefix
            refine ⟨names, ?_, hprefix⟩
            rwa [h.entries]
        · rw [h.notifications]

theorem configure (h : catalogue.Represents registry) (object : ℕ) (setter : NodeSetter σ) :
    (catalogue.perform (.configure object setter)).Represents
      (registry.configure object setter) := by
  refine ⟨?_, h.notifications, h.created⟩
  show _ '' _ = RoseTree.entries _ (RoseTree.map _ _)
  rw [RoseTree.entries_map, h.entries]
  intro node
  split_ifs <;> simp

theorem nodeCommand (h : catalogue.Represents registry) (hinv : registry.TreeInvariant)
    (hseparate : registry.Separate) (object : ℕ) (name : CommandString) :
    (catalogue.perform (.nodeCommand object name)).Represents
      (registry.nodeCommand object name) := by
  refine ⟨?_, h.notifications, by simp [perform, CommandRegistry.nodeCommand, h.created]⟩
  ext ⟨names, data⟩
  show _ ↔ _ ∈ RoseTree.entries _ (RoseTree.updateAt _ _ _)
  rw [RoseTree.mem_entries_updateAt
    (fun node => CommandNode.command_label node name registry.created)
    (fun node => CommandNode.entries_command node name registry.created)
    (hinv.countP_le_one object), ← h.entries]
  refine or_congr_right ⟨?_, ?_⟩
  · rintro ⟨front, node, hnode, hobject, hfree, heq⟩
    rw [h.entries] at hnode
    obtain ⟨s, hs, rfl⟩ := hnode
    rw [h.answered_iff hseparate hs] at hfree
    cases heq
    refine ⟨front, [name], s, hs, by simpa using hobject, rfl, ?_⟩
    rw [if_neg hfree, h.created]
    exact Set.mem_singleton _
  · rintro ⟨front, back, s, hs, hobject, rfl, hnew⟩
    cases hchild : CommandNode.hasChild s name with
    | true =>
        rw [hchild] at hnew
        exact absurd hnew (Set.notMem_empty _)
    | false =>
        rw [hchild, if_neg (by simp), Set.mem_singleton_iff] at hnew
        cases hnew
        refine ⟨front, s.label, ?_, by simpa using hobject, ?_, by rw [h.created]⟩
        · rw [h.entries]
          exact ⟨s, hs, rfl⟩
        · rw [h.answered_iff hseparate hs, hchild]
          simp

theorem nodeRemoveCommand (h : catalogue.Represents registry) (hinv : registry.TreeInvariant)
    (hseparate : registry.Separate) {object : ℕ}
    (hobject : object ∈ registry.root.labels.map NodeData.object) (name : CommandString) :
    (catalogue.perform (.nodeRemoveCommand object name)).Represents
      (registry.nodeRemoveCommand object name) := by
  obtain ⟨data, hdata, rfl⟩ := List.mem_map.mp hobject
  obtain ⟨names, node, hnode, rfl⟩ := RoseTree.exists_occurs_of_mem_labels NodeData.name hdata
  have hone := hinv.countP_le_one node.label.object
  have hsub := hnode.subtree
  -- the names of the node are no other node's
  have hnames (front : CommandPath) (data : NodeData σ)
      (hfront : (front, data) ∈ registry.root.entries NodeData.name)
      (hsame : data.object = node.label.object) : front = names :=
    RoseTree.names_eq_of_identity_eq hinv.distinct hfront ⟨node, hnode, rfl⟩ hsame
  refine ⟨?_, h.notifications, h.created⟩
  show {entry ∈ catalogue.entries | _} = RoseTree.entries _ (RoseTree.updateAt _ _ _)
  cases hfound : CommandNode.findChild node name with
  | none =>
      rw [RoseTree.updateAt_eq_self hone hsub (by simp)
        (by rw [CommandNode.removeCommand_of_findChild_eq_none hfound]; rfl), ← h.entries,
        Set.sep_eq_self_iff_mem_true]
      rintro entry - ⟨front, data, last, child, hfront, hsame, hchild, hanswers, -⟩
      rw [h.entries] at hfront
      obtain rfl := hnames front data hfront hsame
      have hanswered := (h.answered_iff hseparate hnode name).mp ⟨last, child, hchild, hanswers⟩
      rw [(CommandNode.findChild_eq_none_iff node name).mp hfound] at hanswered
      cases hanswered
  | some child =>
      obtain ⟨hchild, hanswers⟩ := (RoseTree.firstAnswer_eq_some_iff shares_sharesToken
        (hseparate node hsub)).mp hfound
      obtain ⟨after, hremove, hcut⟩ := CommandNode.removeCommand_of_findChild_eq_some hfound
      have hcut := RoseTree.cut_updateAt (p := fun data => data.object == node.label.object)
        (f := fun node => (CommandNode.removeCommand node name).getD node) hone hsub (by simp)
        (by rwa [hremove])
      have hentry : (names ++ [child.label.name], child.label) ∈
          registry.root.entries NodeData.name := ⟨child, hnode.snoc hchild, rfl⟩
      rw [RoseTree.entries_cut selfAnswering_matchesValue shares_sharesToken hseparate
        hinv.distinct hcut hentry, h.entries]
      ext ⟨ks, data⟩
      refine and_congr_right fun _ => not_congr ⟨?_, ?_⟩
      · rintro ⟨front, data, last, other, hfront, hsame, hother, hanswers', hprefix⟩
        rw [h.entries] at hfront hother
        obtain rfl := hnames front data hfront hsame
        rw [RoseTree.append_mem_entries selfAnswering_matchesValue shares_sharesToken hseparate
          hnode] at hother
        obtain ⟨c, hc, rfl, rfl⟩ := RoseTree.singleton_mem_entries.mp hother
        rwa [RoseTree.eq_of_answers shares_sharesToken (hseparate node hsub) hchild hc hanswers
          hanswers']
      · intro hprefix
        refine ⟨names, node.label, child.label.name, child.label, ?_, rfl, ?_, hanswers, hprefix⟩
        · rw [h.entries]
          exact ⟨node, hnode, rfl⟩
        · rw [h.entries]
          exact hentry

/-- **One call.**  What it does to the registry it does to the catalogue. -/
theorem step (h : catalogue.Represents registry) (hinv : registry.TreeInvariant)
    (hseparate : registry.Separate) {call : RegistryCall σ} (hcall : call.Enabled registry) :
    (catalogue.perform call).Represents (call.perform registry) := by
  cases call with
  | command name => exact h.command hseparate name
  | unregisterCommand path => exact h.unregisterCommand hinv hseparate path
  | use middleware => exact ⟨h.entries, h.notifications, h.created⟩
  | configure object setter => exact h.configure object setter
  | nodeCommand object name => exact h.nodeCommand hinv hseparate object name
  | nodeRemoveCommand object name =>
      exact h.nodeRemoveCommand hinv hseparate (hcall object rfl).2 name

end Represents

end CommandCatalogue

namespace RegistrySystem

/-- An action that adds an alias adds one that no sibling answers to. -/
def AliasIsFresh (s : RegistrySystem σ) (action : RegistryAction σ) : Prop :=
  ∀ call ∈ s.registryCall action, call.AliasIsFresh s.registry

instance (s : RegistrySystem σ) (action : RegistryAction σ) :
    Decidable (s.AliasIsFresh action) := by
  unfold AliasIsFresh
  infer_instance

/-- The calls on the registry that a run comes to, in order. -/
def registryCalls (trace : List (Transition (RegistrySystem σ) (RegistryAction σ))) :
    List (RegistryCall σ) :=
  trace.filterMap fun τ => τ.before.registryCall τ.label

/-- The catalogue of the calls of a run represents the registry, whose siblings stay
separate. -/
theorem represents_of_run {trace : List (Transition (RegistrySystem σ) (RegistryAction σ))}
    {final : RegistrySystem σ} (hrun : Run Step {} trace final)
    (hfresh : ∀ τ ∈ trace, τ.before.AliasIsFresh τ.label) :
    ((registryCalls trace).foldl CommandCatalogue.perform .initial).Represents final.registry ∧
      final.registry.Separate := by
  induction hrun with
  | start => exact ⟨CommandCatalogue.represents_initial, CommandRegistry.separate_initial⟩
  | @next trace s after action hrun hstep ih =>
      rw [List.forall_mem_append, List.forall_mem_singleton] at hfresh
      obtain ⟨hrepresents, hseparate⟩ := ih hfresh.1
      obtain ⟨henabled, rfl⟩ := hstep
      have htree := (systemInvariant_of_run hrun).tree
      rw [registryCalls, List.filterMap_append, List.foldl_append, perform_registry]
      cases hcall : s.registryCall action with
      | none =>
          simp only [List.filterMap_cons, hcall, List.filterMap_nil, List.foldl_nil]
          exact ⟨hrepresents, hseparate⟩
      | some call =>
          simp only [List.filterMap_cons, hcall, List.filterMap_nil, List.foldl_cons,
            List.foldl_nil]
          refine ⟨hrepresents.step htree hseparate
            (SystemInvariant.registryCall_enabled henabled hcall), ?_⟩
          exact CommandRegistry.separate_perform htree hseparate (hfresh.2 call hcall)

/-- **The registry is a catalogue.**  Along a run in which no alias is given that a
sibling answers to, `Resolve` leads to a node with some data exactly when the path finds
that data in the catalogue of the calls made, and the observers were told what the
catalogue says. -/
theorem resolve_iff_finds_of_run
    {trace : List (Transition (RegistrySystem σ) (RegistryAction σ))}
    {final : RegistrySystem σ} (hrun : Run Step {} trace final)
    (hfresh : ∀ τ ∈ trace, τ.before.AliasIsFresh τ.label) :
    let catalogue := (registryCalls trace).foldl CommandCatalogue.perform .initial
    (∀ path data, (∃ node, final.registry.resolve path = some node ∧ node.label = data) ↔
        catalogue.Finds path data) ∧
      final.registry.notifications = catalogue.notifications := by
  intro catalogue
  obtain ⟨hrepresents, hseparate⟩ := represents_of_run hrun hfresh
  refine ⟨?_, hrepresents.notifications.symm⟩
  intro path data
  rw [hrepresents.finds_iff hseparate, Option.map_eq_some_iff]

/-- `relay` with the subcommands `on` and `off` is given the alias `r`, and the command
`r on` is unregistered. -/
def aliasSession : List (RegistryAction Unit) :=
  [.call (.command (text "relay")), .call (.nodeCommand 1 (text "on")),
    .call (.nodeCommand 1 (text "off")), .call (.configure 1 (.addAlias (text "r"))),
    .call (.unregisterCommand [text "r", text "on"])]

/-- The catalogue of that session finds `relay off` and does not find `relay on`. -/
theorem resolve_iff_finds_of_aliasSession :
    let catalogue :=
      (registryCalls (schedule perform {} aliasSession)).foldl CommandCatalogue.perform .initial
    (∃ data, catalogue.Finds [text "r", text "off"] data) ∧
      ¬ ∃ data, catalogue.Finds [text "relay", text "on"] data := by
  have hrun := @Run.of_schedule _ _ Enabled perform ({} : RegistrySystem Unit) aliasSession
    (by decide)
  have hiff := (resolve_iff_finds_of_run hrun (by decide)).1
  constructor
  · have hsome : ((aliasSession.foldl perform {}).registry.resolve
        [text "r", text "off"]).isSome = true := by decide
    obtain ⟨node, hnode⟩ := Option.isSome_iff_exists.mp hsome
    exact ⟨node.label, (hiff _ _).mp ⟨node, hnode, rfl⟩⟩
  · rintro ⟨data, hdata⟩
    obtain ⟨node, hnode, -⟩ := (hiff _ _).mpr hdata
    have hnone : ((aliasSession.foldl perform {}).registry.resolve
        [text "relay", text "on"]).isSome = false := by decide
    rw [hnode] at hnone
    cases hnone

end RegistrySystem

end EspressioCommand
