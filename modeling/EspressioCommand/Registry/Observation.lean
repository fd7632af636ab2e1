import Mathlib.Data.Finset.Basic
import EspressioCommand.Registry.Handles

/-!
# Replaying the notifications of a registry

An observer that was there from the start and keeps a set of names: it enters `n` on
`OnCommandRegistered([n])` and strikes it out on `OnCommandUnregistered([n])`.
`ReplaysToTree` says that the set is that of the names of the top-level nodes.

`replaysToTree_iff` gives the runs in which it always is.  `UnregisterCommand` reports
the path it was called with, while the lookup goes through aliases: the observer is
told the name of the node removed exactly when the caller spelled it so.
-/

namespace EspressioCommand

open Library

variable {σ : Type}

/-- The set an observer keeps, after a notification. -/
def Notification.replay (names : Finset CommandString) : Notification → Finset CommandString
  | .registered [name] => insert name names
  | .unregistered [name] => names.erase name
  | _ => names

/-- Striking out the first match strikes out its name, where names are distinct. -/
theorem toFinset_map_eraseP {α β : Type*} [DecidableEq β] {f : α → β} {p : α → Bool}
    {xs : List α} (hdistinct : (xs.map f).Nodup) {x : α} (hfound : xs.find? p = some x) :
    ((xs.eraseP p).map f).toFinset = (xs.map f).toFinset.erase (f x) := by
  obtain ⟨before, after, rfl, herase⟩ := exists_eraseP_eq_append hfound
  rw [herase]
  have hmiddle : (before ++ x :: after).Perm (x :: (before ++ after)) := List.perm_middle
  have hperm := hmiddle.map f
  have hnodup := hperm.nodup_iff.mp hdistinct
  rw [List.map_cons, List.nodup_cons] at hnodup
  rw [List.toFinset_eq_of_perm _ _ hperm, List.map_cons, List.toFinset_cons,
    Finset.erase_insert]
  simpa using hnodup.1

namespace CommandRegistry

/-- The canonical names of the top-level nodes, in order. -/
def topLevelNames (registry : CommandRegistry σ) : List CommandString :=
  registry.topLevel.map NodeData.name

/-- The names an observer from the start now holds. -/
def observedNames (registry : CommandRegistry σ) : Finset CommandString :=
  registry.notifications.foldl Notification.replay ∅

/-- The observer holds exactly the names of the top-level nodes. -/
def ReplaysToTree (registry : CommandRegistry σ) : Prop :=
  registry.observedNames = registry.topLevelNames.toFinset

instance (registry : CommandRegistry σ) : Decidable registry.ReplaysToTree := by
  unfold ReplaysToTree
  infer_instance

theorem find?_topLevel (registry : CommandRegistry σ) (token : CommandString) :
    (registry.topLevel.find? fun node => node.matchesValue token) =
      (registry.root.findChild token).map RoseTree.label := by
  rw [topLevel, List.find?_map]
  rfl

/-- A name that no top-level node matches is not the name of one. -/
theorem not_mem_topLevelNames {registry : CommandRegistry σ} {name : CommandString}
    (h : registry.root.hasChild name = false) : name ∉ registry.topLevelNames := by
  intro hmem
  obtain ⟨node, hnode, rfl⟩ := List.mem_map.mp hmem
  rw [hasChild_root_iff] at h
  have hanswer := List.any_eq_false.mp h node hnode
  simp [NodeData.matchesValue] at hanswer

theorem topLevelNames_command (registry : CommandRegistry σ) (name : CommandString) :
    (registry.command name).2.topLevelNames =
      if registry.root.hasChild name then registry.topLevelNames
      else registry.topLevelNames ++ [name] := by
  rw [topLevelNames, topLevel_command]
  split_ifs
  · rfl
  · simp [topLevelNames]

theorem topLevelNames_configure (registry : CommandRegistry σ) (object : ℕ)
    (setter : NodeSetter σ) :
    (registry.configure object setter).topLevelNames = registry.topLevelNames := by
  rw [topLevelNames, topLevel_configure, List.map_map]
  apply List.map_congr_left
  intro node _
  show NodeData.name (if node.object = object then setter.apply node else node) = node.name
  split_ifs <;> simp

/-- Every call keeps the top-level names distinct. -/
theorem nodup_topLevelNames_perform {registry : CommandRegistry σ}
    (hinv : registry.TreeInvariant) (hnodup : registry.topLevelNames.Nodup)
    {call : RegistryCall σ} (hcall : call.Enabled registry) :
    (call.perform registry).topLevelNames.Nodup := by
  cases call with
  | command name =>
      rw [RegistryCall.perform, topLevelNames_command]
      cases h : registry.root.hasChild name with
      | true => exact hnodup
      | false => exact List.nodup_append.mpr ⟨hnodup, List.nodup_singleton _, by
          rintro other hother _ hname rfl
          obtain rfl := List.mem_singleton.mp hname
          exact not_mem_topLevelNames h hother⟩
  | unregisterCommand path =>
      rw [RegistryCall.perform]
      rcases topLevel_unregisterCommand registry path with hsame | ⟨_, -, -, herase⟩ | ⟨-, hsame⟩
      · rwa [hsame]
      · rw [topLevelNames, herase]
        exact (List.eraseP_sublist.map _).nodup hnodup
      · rwa [topLevelNames, hsame]
  | use middleware => exact hnodup
  | configure object setter =>
      rw [RegistryCall.perform, topLevelNames_configure]
      exact hnodup
  | nodeCommand object name =>
      rw [RegistryCall.perform, topLevelNames, topLevel_nodeCommand hinv (hcall object rfl).1]
      exact hnodup
  | nodeRemoveCommand object name =>
      rw [RegistryCall.perform, topLevelNames,
        topLevel_nodeRemoveCommand hinv (hcall object rfl).1]
      exact hnodup

theorem replaysToTree_command {registry : CommandRegistry σ} (h : registry.ReplaysToTree)
    (name : CommandString) : (registry.command name).2.ReplaysToTree := by
  cases hchild : registry.root.hasChild name with
  | true => rwa [command_of_hasChild hchild]
  | false =>
      have hnotified : (registry.command name).2.observedNames =
          insert name registry.observedNames := by
        rw [command_of_not_hasChild hchild, observedNames, List.foldl_append]
        rfl
      rw [ReplaysToTree, hnotified, topLevelNames_command, hchild, h]
      ext other
      simp

/-- Unregistering one token keeps the observer right exactly when the token is the
name of the node it leads to. -/
theorem replaysToTree_unregisterCommand_singleton {registry : CommandRegistry σ}
    (hnodup : registry.topLevelNames.Nodup) (h : registry.ReplaysToTree)
    (token : CommandString) :
    (registry.unregisterCommand [token]).2.ReplaysToTree ↔
      ∀ node, registry.root.findChild token = some node → node.label.name = token := by
  cases hfound : registry.root.findChild token with
  | none =>
      have hchild := (CommandNode.findChild_eq_none_iff registry.root token).mp hfound
      rw [unregisterCommand_singleton, hchild]
      simpa using h
  | some node =>
      have hchild := CommandNode.hasChild_of_findChild_eq_some hfound
      have hfirst : (registry.topLevel.find? fun node => node.matchesValue token) =
          some node.label := by
        rw [find?_topLevel, hfound]
        rfl
      have hafter : (registry.unregisterCommand [token]).2.topLevelNames.toFinset =
          registry.topLevelNames.toFinset.erase node.label.name := by
        rw [topLevelNames, topLevel_unregisterCommand_singleton hchild]
        exact toFinset_map_eraseP hnodup hfirst
      have hnotified : (registry.unregisterCommand [token]).2.observedNames =
          registry.observedNames.erase token := by
        rw [unregisterCommand_singleton, hchild]
        show List.foldl _ _ (registry.notifications ++ _) = _
        rw [List.foldl_append]
        rfl
      have hmem : node.label.name ∈ registry.topLevelNames.toFinset := by
        rw [List.mem_toFinset]
        exact List.mem_map_of_mem (List.mem_of_find?_eq_some hfirst)
      rw [ReplaysToTree, hnotified, hafter, h]
      constructor
      · intro heq found hsome
        cases hsome
        by_contra hne
        -- the node is gone, but the observer struck out another name than its own
        have hkept := Finset.mem_erase.mpr ⟨hne, hmem⟩
        rw [heq] at hkept
        exact (Finset.notMem_erase _ _) hkept
      · intro hname
        rw [hname node rfl]

/-- Paths of other lengths are neither top-level nor heeded. -/
theorem replaysToTree_unregisterCommand_of_length {registry : CommandRegistry σ}
    (h : registry.ReplaysToTree) {path : CommandPath} (hlength : path.length ≠ 1) :
    (registry.unregisterCommand path).2.ReplaysToTree := by
  have hignored (names : Finset CommandString) :
      Notification.replay names (.unregistered path) = names := by
    match path, hlength with
    | [], _ => rfl
    | _ :: _ :: _, _ => rfl
  have hobserved : (registry.unregisterCommand path).2.observedNames =
      registry.observedNames := by
    rcases registry.unregisterCommand_cases path with hsame | ⟨_, _, -, -, -, hafter⟩
    · rw [hsame]
    · rw [hafter, observedNames, List.foldl_append]
      exact hignored _
  -- the observer ignores the path, and the top level stays as it is
  rcases topLevel_unregisterCommand registry path with hsame | ⟨token, rfl, -, -⟩ | ⟨-, hsame⟩
  · rwa [hsame]
  · exact absurd rfl hlength
  · rw [ReplaysToTree, hobserved, topLevelNames, hsame]
    exact h

/-- One call keeps the observer right exactly when it does not unregister a node by
another token than its name. -/
theorem replaysToTree_perform {registry : CommandRegistry σ} (hinv : registry.TreeInvariant)
    (hnodup : registry.topLevelNames.Nodup) (h : registry.ReplaysToTree)
    {call : RegistryCall σ} (hcall : call.Enabled registry) :
    (call.perform registry).ReplaysToTree ↔
      ∀ token, call = .unregisterCommand [token] →
        ∀ node, registry.root.findChild token = some node → node.label.name = token := by
  -- no other call but that of `UnregisterCommand` with one token can go wrong
  have hother (hcalls : ∀ token, call ≠ .unregisterCommand [token])
      (hright : (call.perform registry).ReplaysToTree) :
      (call.perform registry).ReplaysToTree ↔
        ∀ token, call = .unregisterCommand [token] →
          ∀ node, registry.root.findChild token = some node → node.label.name = token :=
    ⟨fun _ token htoken => absurd htoken (hcalls token), fun _ => hright⟩
  cases call with
  | command name => exact hother (by simp) (replaysToTree_command h name)
  | unregisterCommand path =>
      by_cases hlength : path.length = 1
      · obtain ⟨token, rfl⟩ := List.length_eq_one_iff.mp hlength
        rw [RegistryCall.perform, replaysToTree_unregisterCommand_singleton hnodup h]
        simp
      · apply hother
        · intro token heq
          cases heq
          exact hlength rfl
        · exact replaysToTree_unregisterCommand_of_length h hlength
  | use middleware => exact hother (by simp) h
  | configure object setter =>
      refine hother (by simp) ?_
      rw [RegistryCall.perform, ReplaysToTree, topLevelNames_configure]
      exact h
  | nodeCommand object name =>
      refine hother (by simp) ?_
      rw [RegistryCall.perform, ReplaysToTree, topLevelNames,
        topLevel_nodeCommand hinv (hcall object rfl).1]
      exact h
  | nodeRemoveCommand object name =>
      refine hother (by simp) ?_
      rw [RegistryCall.perform, ReplaysToTree, topLevelNames,
        topLevel_nodeRemoveCommand hinv (hcall object rfl).1]
      exact h

end CommandRegistry

namespace RegistrySystem

/-- If the action unregisters a path of one token, the token is the canonical name of
the node it leads to. -/
def UnregistersByName (s : RegistrySystem σ) (action : RegistryAction σ) : Prop :=
  ∀ token, s.registryCall action = some (.unregisterCommand [token]) →
    ∀ node, s.registry.resolve [token] = some node → node.label.name = token

instance (s : RegistrySystem σ) (action : RegistryAction σ) :
    Decidable (s.UnregistersByName action) :=
  match h : s.registryCall action with
  | some (.unregisterCommand [token]) =>
      decidable_of_iff ((s.registry.resolve [token]).all fun node => node.label.name == token) <| by
        rw [UnregistersByName, h]
        cases hfound : s.registry.resolve [token] <;> simp [hfound]
  | none => isTrue (by simp [UnregistersByName, h])
  | some (.unregisterCommand []) => isTrue (by simp [UnregistersByName, h])
  | some (.unregisterCommand (_ :: _ :: _)) => isTrue (by simp [UnregistersByName, h])
  | some (.command _) => isTrue (by simp [UnregistersByName, h])
  | some (.use _) => isTrue (by simp [UnregistersByName, h])
  | some (.configure _ _) => isTrue (by simp [UnregistersByName, h])
  | some (.nodeCommand _ _) => isTrue (by simp [UnregistersByName, h])
  | some (.nodeRemoveCommand _ _) => isTrue (by simp [UnregistersByName, h])

/-- One step keeps the observer right exactly when it unregisters by name. -/
theorem replaysToTree_step {s after : RegistrySystem σ} {action : RegistryAction σ}
    (hinv : SystemInvariant s) (hnodup : s.registry.topLevelNames.Nodup)
    (h : s.registry.ReplaysToTree) (hstep : Step s action after) :
    after.registry.ReplaysToTree ↔ s.UnregistersByName action := by
  obtain ⟨henabled, rfl⟩ := hstep
  rw [perform_registry, UnregistersByName]
  simp only [CommandRegistry.resolve_singleton]
  cases hcall : s.registryCall action with
  | none => simpa using h
  | some call =>
      have henabledCall := SystemInvariant.registryCall_enabled henabled hcall
      simpa using CommandRegistry.replaysToTree_perform hinv.tree hnodup h henabledCall

/-- **The notifications replay to the tree all along a run** exactly when no step of
the run unregisters a top-level node by a token that is not its name. -/
theorem replaysToTree_iff
    {trace : List (Transition (RegistrySystem σ) (RegistryAction σ))}
    {final : RegistrySystem σ} (hrun : Run Step {} trace final) :
    (∀ τ ∈ trace, τ.after.registry.ReplaysToTree) ↔
      ∀ τ ∈ trace, τ.before.UnregistersByName τ.label := by
  refine Run.good_iff_allowed
    (fun s => SystemInvariant s ∧ s.registry.topLevelNames.Nodup)
    (fun s => s.registry.ReplaysToTree) ?_ ?_ ?_ ?_ hrun
  · exact ⟨systemInvariant_initial, List.nodup_nil⟩
  · rfl
  · rintro s action after ⟨hinv, hnodup⟩ hstep
    refine ⟨hinv.step hstep, ?_⟩
    obtain ⟨henabled, rfl⟩ := hstep
    exact SystemInvariant.registry_perform (P := fun r => r.topLevelNames.Nodup) henabled hnodup
      fun call hcall => CommandRegistry.nodup_topLevelNames_perform hinv.tree hnodup hcall
  · rintro s action after ⟨hinv, hnodup⟩ h hstep
    exact replaysToTree_step hinv hnodup h hstep

/-- A command unregistered by its alias stays in the observer's set. -/
theorem not_replaysToTree_diagnostics :
    ¬ ∀ (trace : List (Transition (RegistrySystem Unit) (RegistryAction Unit)))
        (final : RegistrySystem Unit), Run Step {} trace final →
        ∀ τ ∈ trace, τ.after.registry.ReplaysToTree := by
  intro h
  have hrun := @Run.of_schedule _ _ Enabled perform ({} : RegistrySystem Unit)
    [.call (.command (text "diagnostics")), .call (.configure 1 (.addAlias (text "diag"))),
      .call (.unregisterCommand [text "diag"])] (by decide)
  have hlast := h _ _ hrun _ (List.getLast_mem (by simp [schedule]))
  revert hlast
  decide

/-- A command with an alias is unregistered by its name, and another by its handle. -/
theorem replaysToTree_iff_diagnostics :
    (∀ τ ∈ schedule perform ({} : RegistrySystem Unit)
      [.call (.command (text "diagnostics")), .call (.configure 1 (.addAlias (text "diag"))),
        .registerCommand 0 (text "pump"), .call (.unregisterCommand [text "diagnostics"]),
        .destroy 0],
      τ.after.registry.ReplaysToTree) ∧
    (CommandRegistry.command (CommandRegistry.initial (σ := Unit))
      (text "diagnostics")).2.observedNames = {text "diagnostics"} :=
  ⟨(replaysToTree_iff (@Run.of_schedule _ _ Enabled perform _ _ (by decide))).mpr (by decide),
    by decide⟩

end RegistrySystem

end EspressioCommand
