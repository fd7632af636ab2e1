import Mathlib.Logic.Equiv.Basic
import EspressioCommand.Library.Transitions
import EspressioCommand.Registry.Mutation

/-!
# Registration handles and the registry they belong to

`RegistrySystem` is one `CommandRegistry` with the `CommandRegistrationHandle`
variables of its users.  A step is a call on the registry or one of its nodes, or an
operation of a handle.  Any number of owners may interleave their steps.

* `perform_registry`: each action makes at most one `RegistryCall`.
* `SystemInvariant`: no two handles hold one registration, and a top-level node with
  the object of a handle has the name in the handle's path.
* `released_nodup`: no registration is given up twice in a run.
-/

namespace EspressioCommand

open Library

variable {σ : Type}

/-- The path and the object of an active handle. -/
def CommandRegistrationHandle.registration :
    CommandRegistrationHandle → Option (CommandPath × ℕ)
  | .inactive => none
  | .active path object => some (path, object)

/-- A registry and the handle variables that exist; the others are `none`. -/
structure RegistrySystem (σ : Type) where
  registry : CommandRegistry σ := CommandRegistry.initial
  handles : ℕ → Option CommandRegistrationHandle := fun _ => none

/-- What a user of the registry can do next. -/
inductive RegistryAction (σ : Type)
  | call (call : RegistryCall σ)
  | registerCommand (target : ℕ) (name : CommandString)
  | construct (target : ℕ)
  | moveConstruct (target source : ℕ)
  | moveAssign (target source : ℕ)
  | reset (target : ℕ)
  | destroy (target : ℕ)

namespace RegistrySystem

/-- What the handle variable holds: the registration of an active handle. -/
def held (s : RegistrySystem σ) (target : ℕ) : Option (CommandPath × ℕ) :=
  (s.handles target).bind CommandRegistrationHandle.registration

/-- Give the variable a new value, or end its life with `none`. -/
def store (s : RegistrySystem σ) (target : ℕ) (handle : Option CommandRegistrationHandle) :
    RegistrySystem σ :=
  { s with handles := Function.update s.handles target handle }

/-- `CommandRegistrationHandle::Reset`. -/
def reset (s : RegistrySystem σ) (target : ℕ) : RegistrySystem σ :=
  match s.held target with
  | none => s
  -- the result of `UnregisterCommand` is ignored
  | some (path, _) =>
      { s with registry := (s.registry.unregisterCommand path).2 }.store target (some .inactive)

/-- The members of `source` go to `target`, and `source` becomes inactive. -/
def move (s : RegistrySystem σ) (target source : ℕ) : RegistrySystem σ :=
  (s.store target (s.handles source)).store source (some .inactive)

/-- The system after an action. -/
def perform (s : RegistrySystem σ) : RegistryAction σ → RegistrySystem σ
  | .call call => { s with registry := call.perform s.registry }
  | .registerCommand target name =>
      let result := s.registry.registerCommand name
      { s with registry := result.2 }.store target (some result.1)
  | .construct target => s.store target (some .inactive)
  | .moveConstruct target source => s.move target source
  | .moveAssign target source =>
      if target = source then s else (s.reset target).move target source
  | .reset target => s.reset target
  | .destroy target => (s.reset target).store target none

/-- Calls need a live node, constructors a new variable, the other operations
variables that exist. -/
def Enabled (s : RegistrySystem σ) : RegistryAction σ → Prop
  | .call call => call.Enabled s.registry
  | .registerCommand target _ => s.handles target = none
  | .construct target => s.handles target = none
  | .moveConstruct target source => s.handles target = none ∧ s.handles source ≠ none
  | .moveAssign target source => s.handles target ≠ none ∧ s.handles source ≠ none
  | .reset target => s.handles target ≠ none
  | .destroy target => s.handles target ≠ none

instance (s : RegistrySystem σ) (action : RegistryAction σ) : Decidable (s.Enabled action) := by
  cases action <;> unfold Enabled <;> infer_instance

/-- The step relation. -/
def Step (s : RegistrySystem σ) (action : RegistryAction σ) (after : RegistrySystem σ) : Prop :=
  s.Enabled action ∧ after = s.perform action

/-- The registration given up by the action: that of an active handle which is reset,
destroyed or assigned to. -/
def releases (s : RegistrySystem σ) : RegistryAction σ → Option (CommandPath × ℕ)
  | .moveAssign target source => if target = source then none else s.held target
  | .reset target => s.held target
  | .destroy target => s.held target
  | _ => none

/-- The call on the registry that the action amounts to. -/
def registryCall (s : RegistrySystem σ) (action : RegistryAction σ) : Option (RegistryCall σ) :=
  match action with
  | .call call => some call
  | .registerCommand _ name => if name.isEmpty then none else some (.command name)
  | action => (s.releases action).map fun registration => .unregisterCommand registration.1

/-! ### What handles hold after each operation -/

@[simp] theorem move_registry (s : RegistrySystem σ) (target source : ℕ) :
    (s.move target source).registry = s.registry := rfl

theorem held_store_self (s : RegistrySystem σ) (target : ℕ)
    (handle : Option CommandRegistrationHandle) :
    (s.store target handle).held target = handle.bind CommandRegistrationHandle.registration := by
  simp [held, store]

theorem held_store_of_ne (s : RegistrySystem σ) {target v : ℕ} (hne : v ≠ target)
    (handle : Option CommandRegistrationHandle) :
    (s.store target handle).held v = s.held v := by
  simp [held, store, Function.update_of_ne hne]

/-- A variable that holds nothing afterwards takes nothing from the others. -/
theorem held_store_of_none {s : RegistrySystem σ} {target : ℕ}
    {handle : Option CommandRegistrationHandle}
    (hnone : handle.bind CommandRegistrationHandle.registration = none) {v : ℕ}
    {registration : CommandPath × ℕ}
    (h : (s.store target handle).held v = some registration) :
    v ≠ target ∧ s.held v = some registration := by
  by_cases hv : v = target
  · subst hv
    rw [held_store_self, hnone] at h
    cases h
  · rw [held_store_of_ne s hv] at h
    exact ⟨hv, h⟩

theorem reset_of_held {s : RegistrySystem σ} {target : ℕ} {path : CommandPath} {object : ℕ}
    (h : s.held target = some (path, object)) :
    s.reset target =
      { s with registry := (s.registry.unregisterCommand path).2 }.store target
        (some .inactive) := by
  rw [reset, h]

theorem reset_of_not_held {s : RegistrySystem σ} {target : ℕ} (h : s.held target = none) :
    s.reset target = s := by
  rw [reset, h]

/-- `Reset` leaves the variable without a registration, and the other ones as they are. -/
theorem held_reset {s : RegistrySystem σ} {target v : ℕ} {registration : CommandPath × ℕ}
    (h : (s.reset target).held v = some registration) :
    v ≠ target ∧ s.held v = some registration := by
  cases hheld : s.held target with
  | none =>
      rw [reset_of_not_held hheld] at h
      refine ⟨?_, h⟩
      rintro rfl
      rw [hheld] at h
      cases h
  | some own =>
      rw [reset_of_held hheld] at h
      exact held_store_of_none rfl h

/-- After a move the target holds what the source held. -/
theorem held_move {s : RegistrySystem σ} {target source v : ℕ}
    {registration : CommandPath × ℕ}
    (h : (s.move target source).held v = some registration) :
    v ≠ source ∧
      (v = target ∧ s.held source = some registration ∨
        v ≠ target ∧ s.held v = some registration) := by
  obtain ⟨hsource, h⟩ := held_store_of_none rfl h
  refine ⟨hsource, ?_⟩
  by_cases htarget : v = target
  · subst htarget
    rw [held_store_self] at h
    exact Or.inl ⟨rfl, h⟩
  · rw [held_store_of_ne s htarget] at h
    exact Or.inr ⟨htarget, h⟩

theorem reset_registry (s : RegistrySystem σ) (target : ℕ) :
    (s.reset target).registry = ((s.held target).map fun registration =>
      (s.registry.unregisterCommand registration.1).2).getD s.registry := by
  cases h : s.held target with
  | none => rw [reset_of_not_held h]; rfl
  | some registration => rw [reset_of_held h]; rfl

/-- **Each action makes at most one call on the registry.** -/
theorem perform_registry (s : RegistrySystem σ) (action : RegistryAction σ) :
    (s.perform action).registry =
      ((s.registryCall action).map fun call => call.perform s.registry).getD s.registry := by
  have hreset (target : ℕ) : (s.reset target).registry =
      (((s.held target).map fun registration =>
        RegistryCall.unregisterCommand (σ := σ) registration.1).map
          fun call => call.perform s.registry).getD s.registry := by
    rw [reset_registry, Option.map_map]
    rfl
  cases action with
  | call call => rfl
  | registerCommand target name =>
      show (s.registry.registerCommand name).2 = _
      cases hname : name.isEmpty with
      | true => simp [registryCall, hname, CommandRegistry.registerCommand]
      | false =>
          rw [CommandRegistry.registerCommand_snd _ hname]
          simp [registryCall, hname, RegistryCall.perform]
  | construct target => rfl
  | moveConstruct target source => rfl
  | moveAssign target source =>
      by_cases heq : target = source
      · simp [perform, registryCall, releases, heq]
      · rw [perform, if_neg heq, move_registry, hreset]
        simp [registryCall, releases, heq]
  | reset target => exact hreset target
  | destroy target => exact hreset target

/-! ### The invariant -/

/-- What holds of the handles over the tree of a registry: objects are distinct, each
registration is held once, and top-level nodes have the names handles know them by. -/
structure SystemInvariant (s : RegistrySystem σ) : Prop where
  tree : s.registry.TreeInvariant
  /-- A registration is of a path with one name, and of a node created before. -/
  named : ∀ v path object, s.held v = some (path, object) →
    object < s.registry.created ∧ ∃ name, path = [name] ∧
      ∀ node ∈ s.registry.topLevel, node.object = object → node.name = name
  distinct : ∀ v w registration registration', s.held v = some registration →
    s.held w = some registration' → registration.2 = registration'.2 → v = w

theorem systemInvariant_initial : SystemInvariant ({} : RegistrySystem σ) where
  tree := CommandRegistry.treeInvariant_initial
  named := by
    intro v path object h
    cases h
  distinct := by
    intro v w registration registration' h
    cases h

namespace SystemInvariant

/-- Every call of an action on the registry is one its node allows. -/
theorem registryCall_enabled {s : RegistrySystem σ} {action : RegistryAction σ}
    (henabled : s.Enabled action) {call : RegistryCall σ}
    (hcall : s.registryCall action = some call) : call.Enabled s.registry := by
  have hunregister {held : Option (CommandPath × ℕ)}
      (h : (held.map fun registration =>
        RegistryCall.unregisterCommand (σ := σ) registration.1) = some call) :
      call.Enabled s.registry := by
    obtain ⟨registration, -, rfl⟩ := Option.map_eq_some_iff.mp h
    intro object hobject
    cases hobject
  cases action with
  | call own =>
      obtain rfl : own = call := Option.some.inj hcall
      exact henabled
  | registerCommand target name =>
      rw [registryCall] at hcall
      split_ifs at hcall
      obtain rfl := Option.some.inj hcall
      intro object hobject
      cases hobject
  | construct target => cases hcall
  | moveConstruct target source => cases hcall
  | moveAssign target source => exact hunregister hcall
  | reset target => exact hunregister hcall
  | destroy target => exact hunregister hcall

/-- The registry after an action: a fact kept by every call is kept. -/
theorem registry_perform {P : CommandRegistry σ → Prop} {s : RegistrySystem σ}
    {action : RegistryAction σ} (henabled : s.Enabled action) (h : P s.registry)
    (hkeep : ∀ call : RegistryCall σ, call.Enabled s.registry → P (call.perform s.registry)) :
    P (s.perform action).registry := by
  rw [perform_registry]
  cases hcall : s.registryCall action with
  | none => exact h
  | some call => exact hkeep call (registryCall_enabled henabled hcall)

/-- Which variable held before the action what a variable holds after it.  A move
empties its source; giving it the target's content makes a permutation. -/
def origin : RegistryAction σ → Equiv.Perm ℕ
  | .moveConstruct target source => Equiv.swap target source
  | .moveAssign target source => Equiv.swap target source
  | _ => 1

theorem held_move_origin {s : RegistrySystem σ} {target source v : ℕ}
    {registration : CommandPath × ℕ}
    (h : (s.move target source).held v = some registration) :
    s.held (Equiv.swap target source v) = some registration ∧
      Equiv.swap target source v ≠ target := by
  obtain ⟨hsource, ⟨rfl, hheld⟩ | ⟨htarget, hheld⟩⟩ := held_move h
  · rw [Equiv.swap_apply_left]
    exact ⟨hheld, hsource.symm⟩
  · rw [Equiv.swap_apply_of_ne_of_ne htarget hsource]
    exact ⟨hheld, htarget⟩

/-- **What handles hold after a step**: a registration that a handle held before and
that was not given up, or that of a node just created. -/
theorem held_perform {s : RegistrySystem σ} (hinv : SystemInvariant s)
    {action : RegistryAction σ} {v : ℕ} {registration : CommandPath × ℕ}
    (h : (s.perform action).held v = some registration) :
    (s.held (origin action v) = some registration ∧
        ∀ released, s.releases action = some released → released.2 ≠ registration.2) ∨
      registration.2 = s.registry.created ∧ ∃ name, registration.1 = [name] ∧
        action = .registerCommand v name ∧ s.registry.root.hasChild name = false ∧
        (s.perform action).registry = (s.registry.command name).2 := by
  -- a registration held by another variable than the one given up is another one
  have hother {target w : ℕ} (hne : w ≠ target) (hw : s.held w = some registration)
      (released : CommandPath × ℕ) (hreleased : s.held target = some released) :
      released.2 ≠ registration.2 := fun heq =>
    hne (hinv.distinct w target _ _ hw hreleased heq.symm)
  cases action with
  | call call =>
      refine Or.inl ⟨h, ?_⟩
      intro released hreleased
      cases hreleased
  | registerCommand target name =>
      by_cases hv : v = target
      · subst hv
        rw [perform, held_store_self, Option.bind_some] at h
        cases hhandle : (s.registry.registerCommand name).1 with
        | inactive =>
            rw [hhandle] at h
            cases h
        | active path object =>
            rw [hhandle] at h
            obtain rfl : (path, object) = registration := Option.some.inj h
            obtain ⟨hname, hchild, hpath, hobject⟩ :=
              CommandRegistry.registerCommand_eq_active hhandle
            refine Or.inr ⟨hobject, name, hpath, rfl, hchild, ?_⟩
            exact CommandRegistry.registerCommand_snd s.registry hname
      · rw [perform, held_store_of_ne _ hv] at h
        refine Or.inl ⟨h, ?_⟩
        intro released hreleased
        cases hreleased
  | construct target =>
      refine Or.inl ⟨(held_store_of_none rfl h).2, ?_⟩
      intro released hreleased
      cases hreleased
  | moveConstruct target source =>
      refine Or.inl ⟨(held_move_origin h).1, ?_⟩
      intro released hreleased
      cases hreleased
  | moveAssign target source =>
      rw [perform] at h
      split_ifs at h with heq
      · subst heq
        refine Or.inl ⟨?_, by simp [releases]⟩
        rwa [origin, Equiv.swap_self, Equiv.refl_apply]
      · obtain ⟨hreset, -⟩ := held_move_origin h
        obtain ⟨hne, hheld⟩ := held_reset hreset
        rw [releases, if_neg heq]
        exact Or.inl ⟨hheld, hother hne hheld⟩
  | reset target =>
      obtain ⟨hne, hheld⟩ := held_reset h
      exact Or.inl ⟨hheld, hother hne hheld⟩
  | destroy target =>
      obtain ⟨hne, hheld⟩ := held_reset (held_store_of_none rfl h).2
      exact Or.inl ⟨hheld, hother hne hheld⟩

theorem created_le_perform {s : RegistrySystem σ} {action : RegistryAction σ}
    (henabled : s.Enabled action) :
    s.registry.created ≤ (s.perform action).registry.created :=
  registry_perform (P := fun registry => s.registry.created ≤ registry.created) henabled
    (Nat.le_refl _) fun call _ => call.created_le_perform s.registry

/-- **Every step keeps the invariant.** -/
theorem step {s after : RegistrySystem σ} {action : RegistryAction σ}
    (hinv : SystemInvariant s) (hstep : Step s action after) : SystemInvariant after := by
  obtain ⟨henabled, rfl⟩ := hstep
  have hcreated := created_le_perform henabled
  -- top-level nodes are never renamed
  have htop : ∀ node ∈ (s.perform action).registry.topLevel, node.object = s.registry.created ∨
      ∃ old ∈ s.registry.topLevel, old.object = node.object ∧ old.name = node.name :=
    registry_perform
      (P := fun registry => ∀ node ∈ registry.topLevel, node.object = s.registry.created ∨
        ∃ old ∈ s.registry.topLevel, old.object = node.object ∧ old.name = node.name)
      henabled (fun node hnode => Or.inr ⟨node, hnode, rfl, rfl⟩)
      fun call hcall node hnode => RegistryCall.mem_topLevel_perform hinv.tree hcall hnode
  refine ⟨?_, ?_, ?_⟩
  · exact registry_perform henabled hinv.tree fun call hcall =>
      RegistryCall.treeInvariant hinv.tree call hcall
  · intro v path object hheld
    rcases hinv.held_perform hheld with ⟨hold, -⟩ | ⟨hobject, name, hpath, -, hchild, hregistry⟩
    · obtain ⟨hlt, name, hpath, hname⟩ := hinv.named _ _ _ hold
      refine ⟨by omega, name, hpath, ?_⟩
      rintro node hnode rfl
      rcases htop node hnode with hnew | ⟨old, hmem, hobject, hsame⟩
      · omega
      · rw [← hsame]
        exact hname old hmem hobject
    · -- the node is the new one at the end of the top level
      have hobject : object = s.registry.created := hobject
      refine ⟨?_, name, hpath, ?_⟩
      · rw [hregistry, CommandRegistry.command_of_not_hasChild hchild, hobject]
        exact Nat.lt_succ_self _
      · intro node hnode hsame
        rw [hregistry, CommandRegistry.topLevel_command, hchild] at hnode
        rcases List.mem_append.mp hnode with hold | hnew
        · have hlt := hinv.tree.numbered node (CommandRegistry.mem_labels_of_topLevel hold)
          omega
        · rw [List.mem_singleton.mp hnew]
  · intro v w registration registration' hv hw heq
    -- what two variables hold now, two different ones held before, or one of the two
    -- registrations is new and its object has a number that no old one has
    apply (origin action).injective
    rcases hinv.held_perform hv with ⟨hv, -⟩ | ⟨hv, name, -, haction, -, -⟩ <;>
      rcases hinv.held_perform hw with ⟨hw, -⟩ | ⟨hw, name', -, haction', -, -⟩
    · exact hinv.distinct _ _ _ _ hv hw heq
    · have hlt := (hinv.named _ _ _ hv).1
      omega
    · have hlt := (hinv.named _ _ _ hw).1
      omega
    · rw [haction] at haction'
      cases haction'
      rfl

end SystemInvariant

/-! ### Runs -/

theorem systemInvariant_of_run {trace : List (Transition (RegistrySystem σ) (RegistryAction σ))}
    {final : RegistrySystem σ} (hrun : Run Step {} trace final) : SystemInvariant final :=
  hrun.invariant systemInvariant_initial fun _ _ _ => SystemInvariant.step

/-- The objects whose registrations were given up in the course of a run. -/
def releasedObjects (trace : List (Transition (RegistrySystem σ) (RegistryAction σ))) : List ℕ :=
  trace.filterMap fun τ => (τ.before.releases τ.label).map Prod.snd

theorem releases_held {s : RegistrySystem σ} {action : RegistryAction σ}
    {registration : CommandPath × ℕ} (h : s.releases action = some registration) :
    ∃ target, s.held target = some registration := by
  cases action with
  | moveAssign target source =>
      rw [releases] at h
      split_ifs at h
      exact ⟨target, h⟩
  | reset target => exact ⟨target, h⟩
  | destroy target => exact ⟨target, h⟩
  | call call => cases h
  | registerCommand target name => cases h
  | construct target => cases h
  | moveConstruct target source => cases h

/-- **No registration is given up twice**, however often its handle was moved. -/
theorem released_nodup {trace : List (Transition (RegistrySystem σ) (RegistryAction σ))}
    {final : RegistrySystem σ} (hrun : Run Step {} trace final) :
    (releasedObjects trace).Nodup := by
  -- a registration given up is old, and no handle holds it any more
  suffices hledger : (releasedObjects trace).Nodup ∧ ∀ object ∈ releasedObjects trace,
      object < final.registry.created ∧
        ∀ v registration, final.held v = some registration → registration.2 ≠ object from
    hledger.1
  induction hrun with
  | start => simp [releasedObjects]
  | @next trace s after action hrun hstep ih =>
      obtain ⟨hnodup, hgone⟩ := ih
      have hinv := systemInvariant_of_run hrun
      obtain ⟨henabled, rfl⟩ := hstep
      have hcreated := SystemInvariant.created_le_perform henabled
      have hlast : releasedObjects (trace ++ [⟨s, action, s.perform action⟩]) =
          releasedObjects trace ++ ((s.releases action).map Prod.snd).toList := by
        rw [releasedObjects, List.filterMap_append]
        cases h : s.releases action <;> simp [releasedObjects, h]
      rw [hlast]
      refine ⟨?_, ?_⟩
      · rw [List.nodup_append]
        refine ⟨hnodup, by cases s.releases action <;> simp, ?_⟩
        intro object hobject other hother
        obtain ⟨released, hreleased, rfl⟩ : ∃ released, s.releases action = some released ∧
            released.2 = other := by simpa using hother
        obtain ⟨target, hheld⟩ := releases_held hreleased
        exact ((hgone object hobject).2 target released hheld).symm
      · intro object hobject
        rcases List.mem_append.mp hobject with hold | hnew
        · obtain ⟨hlt, hnone⟩ := hgone object hold
          refine ⟨by omega, ?_⟩
          intro v registration hheld
          rcases hinv.held_perform hheld with ⟨hbefore, -⟩ | ⟨hcreate, -⟩
          · exact hnone _ registration hbefore
          · omega
        · obtain ⟨released, hreleased, rfl⟩ : ∃ released, s.releases action = some released ∧
              released.2 = object := by simpa using hnew
          obtain ⟨target, hheld⟩ := releases_held hreleased
          have hlt := (hinv.named target _ _ hheld).1
          refine ⟨by omega, ?_⟩
          intro v registration hafter
          rcases hinv.held_perform hafter with ⟨-, hother⟩ | ⟨hcreate, -⟩
          · exact (hother released hreleased).symm
          · omega

end RegistrySystem

end EspressioCommand
