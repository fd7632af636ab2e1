import EspressioCommand.Registry.Handles

/-!
# What a registration handle removes

A handle remembers the path it was made with and gives it to `UnregisterCommand`,
which removes the first top-level node that matches.  `OwnsRegistrations` says of a
run that handles remove the nodes they were made for and nothing else.

`ownsRegistrations_iff` gives the runs in which they do: those where the path of every
handle given up leads to its own node or nowhere.  In between, another owner may have
unregistered the node and registered one of the same name, or a sibling that comes
first may have been given the name as an alias.
-/

namespace EspressioCommand

open Library

variable {σ : Type}

/-- Removing the first match is dropping one object, exactly when it is the object of
the first match. -/
theorem eraseP_eq_filter_iff {α : Type*} {key : α → ℕ} {p : α → Bool} {xs : List α}
    (hdistinct : (xs.map key).Nodup) {x : α} (hfound : xs.find? p = some x) (k : ℕ) :
    xs.eraseP p = xs.filter (fun y => key y != k) ↔ key x = k := by
  obtain ⟨before, after, rfl, herase⟩ := exists_eraseP_eq_append hfound
  have hmiddle : (before ++ x :: after).Perm (x :: (before ++ after)) := List.perm_middle
  rw [herase]
  constructor
  · intro heq
    by_contra hne
    -- `x` would be kept by the filter, and it is in neither part of the list
    have hmem : x ∈ before ++ after := by
      rw [heq]
      simp [hne]
    have hnodup := hmiddle.nodup_iff.mp hdistinct.of_map
    exact (List.nodup_cons.mp hnodup).1 hmem
  · rintro rfl
    have hnodup := (hmiddle.map key).nodup_iff.mp hdistinct
    rw [List.map_cons, List.nodup_cons] at hnodup
    have hkeep : ∀ y ∈ before ++ after, (key y != key x) = true := by
      intro y hy
      simp only [bne_iff_ne]
      intro heq
      exact hnodup.1 (heq ▸ List.mem_map_of_mem hy)
    rw [List.filter_append, List.filter_cons_of_neg (by simp), ← List.filter_append,
      List.filter_eq_self.mpr hkeep]

namespace CommandRegistry

/-- The tree without the top-level node that is `object`. -/
def without (registry : CommandRegistry σ) (object : ℕ) : CommandNode σ :=
  .node registry.root.label
    (registry.root.children.filter fun child => child.label.object != object)

/-- Unregistering a name removes one top-level node of that name, if it is there, and
nothing else, exactly when the name leads to that node or to none. -/
theorem unregisterCommand_root_iff {registry : CommandRegistry σ}
    (hinv : registry.TreeInvariant) {name : CommandString} {object : ℕ}
    (hname : ∀ node ∈ registry.topLevel, node.object = object → node.name = name) :
    (registry.unregisterCommand [name]).2.root = registry.without object ↔
      ∀ node, registry.resolve [name] = some node → node.label.object = object := by
  rw [resolve_singleton, unregisterCommand_singleton]
  cases hfound : registry.root.findChild name with
  | none =>
      have hnone := (CommandNode.findChild_eq_none_iff registry.root name).mp hfound
      have hkeep : registry.root.children.filter
          (fun child => child.label.object != object) = registry.root.children := by
        apply List.filter_eq_self.mpr
        intro child hchild
        simp only [bne_iff_ne]
        intro hobject
        have hsame := hname child.label (List.mem_map_of_mem hchild) hobject
        have hanswer := List.any_eq_false.mp hnone child hchild
        simp [NodeData.matchesValue, hsame] at hanswer
      rw [hnone, without, hkeep]
      simp
  | some found =>
      have hchild := CommandNode.hasChild_of_findChild_eq_some hfound
      have hlist := eraseP_eq_filter_iff (hinv.nodup_children (RoseTree.Subtree.refl _))
        hfound object
      rw [hchild, without]
      simpa using hlist

end CommandRegistry

namespace RegistrySystem

/-- A step that gives up a registration takes its own node out of the tree, if it is
still there, and changes nothing else. -/
def RemovesOwn (τ : Transition (RegistrySystem σ) (RegistryAction σ)) : Prop :=
  ∀ path object, τ.before.releases τ.label = some (path, object) →
    τ.after.registry.root = τ.before.registry.without object

/-- Handles remove their own registrations and nothing else, each at most once. -/
structure OwnsRegistrations
    (trace : List (Transition (RegistrySystem σ) (RegistryAction σ))) : Prop where
  own : ∀ τ ∈ trace, RemovesOwn τ
  once : (releasedObjects trace).Nodup

/-- The path of a handle that the action gives up leads to the handle's own node, or
to no node. -/
def ResolvesToOwn (s : RegistrySystem σ) (action : RegistryAction σ) : Prop :=
  ∀ path object, s.releases action = some (path, object) →
    ∀ node, s.registry.resolve path = some node → node.label.object = object

instance (s : RegistrySystem σ) (action : RegistryAction σ) :
    Decidable (s.ResolvesToOwn action) :=
  decidable_of_iff
    ((s.releases action).all fun registration =>
      (s.registry.resolve registration.1).all fun node =>
        node.label.object == registration.2) <| by
    rw [ResolvesToOwn]
    cases s.releases action with
    | none => simp
    | some registration =>
        obtain ⟨path, object⟩ := registration
        cases h : s.registry.resolve path <;> simp [h]

theorem perform_registry_of_releases {s : RegistrySystem σ} {action : RegistryAction σ}
    {registration : CommandPath × ℕ} (h : s.releases action = some registration) :
    (s.perform action).registry = (s.registry.unregisterCommand registration.1).2 := by
  rw [perform_registry]
  cases action with
  | call call => cases h
  | registerCommand target name => cases h
  | construct target => cases h
  | moveConstruct target source => cases h
  | moveAssign target source =>
      rw [registryCall, h]
      · rfl
      all_goals simp
  | reset target =>
      rw [registryCall, h]
      · rfl
      all_goals simp
  | destroy target =>
      rw [registryCall, h]
      · rfl
      all_goals simp

/-- One step removes its own exactly when the path leads there or nowhere. -/
theorem removesOwn_iff {s : RegistrySystem σ} (hinv : SystemInvariant s)
    (action : RegistryAction σ) :
    RemovesOwn ⟨s, action, s.perform action⟩ ↔ s.ResolvesToOwn action := by
  refine forall_congr' fun path => forall_congr' fun object => imp_congr_right fun h => ?_
  obtain ⟨target, hheld⟩ := releases_held h
  obtain ⟨-, name, rfl, hname⟩ := hinv.named target path object hheld
  rw [perform_registry_of_releases h]
  exact CommandRegistry.unregisterCommand_root_iff hinv.tree hname

/-- **Handles own their registrations in a run** exactly when, at each step that gives
one up, the path of the handle leads to the node it was made for or to no node. -/
theorem ownsRegistrations_iff
    {trace : List (Transition (RegistrySystem σ) (RegistryAction σ))}
    {final : RegistrySystem σ} (hrun : Run Step {} trace final) :
    OwnsRegistrations trace ↔ ∀ τ ∈ trace, τ.before.ResolvesToOwn τ.label := by
  have hsteps : ∀ τ ∈ trace, RemovesOwn τ ↔ τ.before.ResolvesToOwn τ.label := by
    intro τ hτ
    obtain ⟨⟨-, hafter⟩, hinv, -⟩ := hrun.transition_spec systemInvariant_initial
      (fun _ _ _ => SystemInvariant.step) τ hτ
    obtain ⟨before, action, after⟩ := τ
    obtain rfl : after = before.perform action := hafter
    exact removesOwn_iff hinv action
  constructor
  · intro h τ hτ
    exact (hsteps τ hτ).mp (h.own τ hτ)
  · intro h
    exact ⟨fun τ hτ => (hsteps τ hτ).mpr (h τ hτ), released_nodup hrun⟩

/-- One owner registers `pump`, a second unregisters it and makes a `pump` of its own,
and the first owner's handle removes that one when it goes. -/
theorem not_ownsRegistrations_pump :
    ¬ ∀ (trace : List (Transition (RegistrySystem Unit) (RegistryAction Unit)))
        (final : RegistrySystem Unit), Run Step {} trace final → OwnsRegistrations trace := by
  intro h
  have hrun := @Run.of_schedule _ _ Enabled perform ({} : RegistrySystem Unit)
    [.registerCommand 0 (text "pump"), .call (.unregisterCommand [text "pump"]),
      .call (.command (text "pump")), .destroy 0] (by decide)
  have hown := (h _ _ hrun).own _ (List.getLast_mem (by simp [schedule]))
  have hroot := hown [text "pump"] 1 (by decide)
  have hlength := congrArg (fun root => (RoseTree.children root).length) hroot
  revert hlength
  decide

/-- A handle that is moved and reset before anybody else uses the name. -/
theorem ownsRegistrations_iff_pump :
    OwnsRegistrations (schedule perform ({} : RegistrySystem Unit)
      [.registerCommand 0 (text "pump"), .moveConstruct 1 0, .reset 0, .reset 1]) :=
  (ownsRegistrations_iff (@Run.of_schedule _ _ Enabled perform _ _ (by decide))).mpr (by decide)

end RegistrySystem

end EspressioCommand
