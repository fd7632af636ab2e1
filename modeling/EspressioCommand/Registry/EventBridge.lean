import EspressioCommand.Registry.Observation

/-!
# `CommandRegistryEventBridge`

The bridge observes one registry at a time and queues an event for each notification.
`BridgedSystem` is the bridge among any number of registries, whose users go on as in
`RegistrySystem`.

A reader of the queue who comes late starts from the top-level names of the moment.
`follows_iff_of_run`: what it reads from then on is what happens to the registry the bridge
was attached to, whatever other registries `Initialize` is called with, and its names are
those of the tree as long as nothing is unregistered by an alias.
-/

namespace EspressioCommand

open Library

variable {ι σ : Type}

/-- `CommandRegisteredEvent` and `CommandUnregisteredEvent`, with their `Path`. -/
inductive RegistryEvent
  | commandRegistered (path : CommandPath)
  | commandUnregistered (path : CommandPath)
deriving DecidableEq

/-- `OnCommandRegistered` and `OnCommandUnregistered`: the event that is queued. -/
def Notification.event : Notification → RegistryEvent
  | .registered path => .commandRegistered path
  | .unregistered path => .commandUnregistered path

/-- The members of the bridge; of the handle, the registry it came from. -/
structure CommandRegistryEventBridge (ι : Type) where
  observerHandle : Option ι := none
  initialized : Bool := false
deriving DecidableEq

namespace CommandRegistryEventBridge

/-- `Initialize`; `granted` says whether `RegisterObserver` hands out a handle. -/
def initializeWith (bridge : CommandRegistryEventBridge ι) (registry : ι) (granted : Bool) :
    Bool × CommandRegistryEventBridge ι :=
  if bridge.initialized then (true, bridge)
  else
    (granted,
      { observerHandle := if granted then some registry else none
        initialized := granted })

/-- `Shutdown`. -/
def shutdown (_ : CommandRegistryEventBridge ι) : CommandRegistryEventBridge ι where
  observerHandle := none
  initialized := false

end CommandRegistryEventBridge

/-- Registries with their users, the bridge, and what it has queued. -/
structure BridgedSystem (ι σ : Type) where
  registries : ι → RegistrySystem σ := fun _ => {}
  bridge : CommandRegistryEventBridge ι := {}
  queued : List RegistryEvent := []

/-- A call of the bridge, or of a registry. -/
inductive BridgedAction (ι σ : Type)
  | initializeWith (registry : ι) (granted : Bool)
  | shutdown
  | act (registry : ι) (action : RegistryAction σ)

/-! ### The history of a registry -/

/-- **No call reads the notifications** made before; it only adds to them. -/
theorem RegistryCall.perform_history (call : RegistryCall σ) (registry : CommandRegistry σ) :
    ∃ new, ∀ history, call.perform { registry with notifications := history } =
      { call.perform registry with notifications := history ++ new } := by
  have hsame {after : List Notification → CommandRegistry σ}
      (h : ∀ history, after history = { after registry.notifications with
        notifications := history }) :
      ∃ new, ∀ history, after history = { after registry.notifications with
        notifications := history ++ new } := by
    refine ⟨[], fun history => ?_⟩
    rw [List.append_nil]
    exact h history
  cases call with
  | command name =>
      simp only [perform, CommandRegistry.command]
      cases registry.root.hasChild name with
      | true => exact ⟨[], fun history => by simp⟩
      | false => exact ⟨[.registered [name]], fun history => by simp⟩
  | unregisterCommand path =>
      simp only [perform, CommandRegistry.unregisterCommand]
      cases path.getLast? with
      | none => exact ⟨[], fun history => by rw [List.append_nil]⟩
      | some last =>
          simp only
          cases registry.root.updateAlong NodeData.matchesValue
              (fun node => CommandNode.removeCommand node last) path.dropLast with
          | none => exact ⟨[], fun history => by rw [List.append_nil]⟩
          | some root => exact ⟨[.unregistered path], fun history => rfl⟩
  | use middleware => exact hsame fun history => rfl
  | configure object setter => exact hsame fun history => rfl
  | nodeCommand object name => exact hsame fun history => rfl
  | nodeRemoveCommand object name => exact hsame fun history => rfl

namespace CommandRegistry

/-- The registry as it would be had it only just been given its top-level names: what was
notified before `start` is replaced by their registrations. -/
def restarted (names : List CommandString) (registry : CommandRegistry σ)
    (new : List Notification) : CommandRegistry σ :=
  { registry with notifications := (names.map fun name => .registered [name]) ++ new }

theorem foldl_registrations (names : List CommandString) (held : Finset CommandString) :
    (names.map fun name => Notification.registered [name]).foldl Notification.replay held =
      held ∪ names.toFinset := by
  induction names generalizing held with
  | nil => simp
  | cons name names ih =>
      rw [List.map_cons, List.foldl_cons, ih, List.toFinset_cons]
      ext other
      simp [Notification.replay]

/-- Then an observer from the start is one that began with the names. -/
theorem replaysToTree_restarted_iff (names : List CommandString) (registry : CommandRegistry σ)
    (new : List Notification) :
    (restarted names registry new).ReplaysToTree ↔
      new.foldl Notification.replay names.toFinset = registry.topLevelNames.toFinset := by
  rw [ReplaysToTree, observedNames, restarted, List.foldl_append, foldl_registrations,
    Finset.empty_union]
  rfl

theorem TreeInvariant.restarted {registry : CommandRegistry σ} (h : registry.TreeInvariant)
    (names : List CommandString) (new : List Notification) :
    (registry.restarted names new).TreeInvariant :=
  ⟨h.root, h.distinct, h.numbered⟩

end CommandRegistry

/-- **What an action adds** to the notifications, and when they replay to the tree still. -/
theorem RegistrySystem.SystemInvariant.exists_added {s : RegistrySystem σ}
    (hinv : s.SystemInvariant) (hnodup : s.registry.topLevelNames.Nodup)
    {action : RegistryAction σ} (henabled : s.Enabled action) :
    ∃ added, (s.perform action).registry.notifications = s.registry.notifications ++ added ∧
      ∀ {names new}, (s.registry.restarted names new).ReplaysToTree →
        (((s.perform action).registry.restarted names (new ++ added)).ReplaysToTree ↔
          s.UnregistersByName action) := by
  rw [perform_registry, UnregistersByName]
  simp only [CommandRegistry.resolve_singleton]
  cases hcall : s.registryCall action with
  | none =>
      refine ⟨[], (List.append_nil _).symm, fun {names new} hright => iff_of_true ?_ (by simp)⟩
      rw [List.append_nil]
      exact hright
  | some call =>
      obtain ⟨added, hadded⟩ := call.perform_history s.registry
      refine ⟨added, congrArg CommandRegistry.notifications (hadded s.registry.notifications), ?_⟩
      intro names new hright
      have hrestarted : (call.perform s.registry).restarted names (new ++ added) =
          call.perform (s.registry.restarted names new) := by
        rw [CommandRegistry.restarted, ← List.append_assoc]
        exact (hadded _).symm
      rw [Option.map_some, Option.getD_some, hrestarted,
        CommandRegistry.replaysToTree_perform (hinv.tree.restarted names new) hnodup hright
          (registryCall_enabled henabled hcall)]
      simp [CommandRegistry.restarted]

/-! ### The bridge among registries -/

namespace RegistryEvent

/-- What a reader of the queue makes of an event. -/
def replay (names : Finset CommandString) : RegistryEvent → Finset CommandString
  | .commandRegistered [name] => insert name names
  | .commandUnregistered [name] => names.erase name
  | _ => names

theorem replay_event (names : Finset CommandString) (notification : Notification) :
    replay names notification.event = notification.replay names := by
  cases notification with
  | registered path => rcases path with _ | ⟨name, _ | _⟩ <;> rfl
  | unregistered path => rcases path with _ | ⟨name, _ | _⟩ <;> rfl

theorem foldl_replay_event (names : Finset CommandString) (new : List Notification) :
    (new.map Notification.event).foldl replay names = new.foldl Notification.replay names := by
  rw [List.foldl_map]
  congr 1
  ext names notification
  rw [replay_event]

end RegistryEvent

namespace BridgedSystem

/-- The system after an action. -/
def perform [DecidableEq ι] (s : BridgedSystem ι σ) : BridgedAction ι σ → BridgedSystem ι σ
  | .initializeWith registry granted =>
      { s with bridge := (s.bridge.initializeWith registry granted).2 }
  | .shutdown => { s with bridge := s.bridge.shutdown }
  | .act registry action =>
      let before := s.registries registry
      let after := before.perform action
      let new := after.registry.notifications.drop before.registry.notifications.length
      { s with
        registries := Function.update s.registries registry after
        queued := s.queued ++
          -- the bridge is told only what happens to the registry it observes
          if s.bridge.observerHandle = some registry then new.map Notification.event else [] }

def Enabled (s : BridgedSystem ι σ) : BridgedAction ι σ → Prop
  | .act registry action => (s.registries registry).Enabled action
  | _ => True

instance (s : BridgedSystem ι σ) (action : BridgedAction ι σ) : Decidable (s.Enabled action) := by
  cases action <;> unfold Enabled <;> infer_instance

/-- The step relation. -/
def Step [DecidableEq ι] (s : BridgedSystem ι σ) (action : BridgedAction ι σ)
    (after : BridgedSystem ι σ) : Prop :=
  s.Enabled action ∧ after = s.perform action

/-- What every registry is like, and `IsInitialized`. -/
structure Sound (s : BridgedSystem ι σ) : Prop where
  registries : ∀ registry, RegistrySystem.SystemInvariant (s.registries registry)
  names : ∀ registry, (s.registries registry).registry.topLevelNames.Nodup
  initialized : s.bridge.initialized = s.bridge.observerHandle.isSome

theorem sound_initial : Sound ({} : BridgedSystem ι σ) where
  registries := fun _ => RegistrySystem.systemInvariant_initial
  names := fun _ => List.nodup_nil
  initialized := rfl

/-- **One step** keeps the registries as they should be, and the bridge initialized exactly
while it has a handle. -/
theorem Sound.step [DecidableEq ι] {s after : BridgedSystem ι σ} {action : BridgedAction ι σ}
    (h : s.Sound) (hstep : Step s action after) : after.Sound := by
  obtain ⟨henabled, rfl⟩ := hstep
  cases action with
  | initializeWith registry granted =>
      refine ⟨h.registries, h.names, ?_⟩
      rw [perform, CommandRegistryEventBridge.initializeWith]
      by_cases hinitialized : s.bridge.initialized = true
      · rw [if_pos hinitialized]
        exact h.initialized
      · rw [if_neg hinitialized]
        cases granted <;> rfl
  | shutdown => exact ⟨h.registries, h.names, rfl⟩
  | act registry action =>
      have hother (P : RegistrySystem σ → Prop) (hall : ∀ other, P (s.registries other))
          (hone : P ((s.registries registry).perform action)) (other : ι) :
          P (Function.update s.registries registry ((s.registries registry).perform action)
            other) := by
        by_cases heq : other = registry
        · rw [heq, Function.update_self]
          exact hone
        · rw [Function.update_of_ne heq]
          exact hall other
      refine ⟨hother _ h.registries ?_, ?_, h.initialized⟩
      · exact (h.registries registry).step ⟨henabled, rfl⟩
      · refine hother (fun s => s.registry.topLevelNames.Nodup) h.names ?_
        exact RegistrySystem.SystemInvariant.registry_perform
          (P := fun registry => registry.topLevelNames.Nodup) henabled (h.names registry)
          fun call hcall => CommandRegistry.nodup_topLevelNames_perform (h.registries registry).tree
            (h.names registry) hcall

/-! ### A late reader -/

/-- The names held by a reader that took those of the registry at `start`, and then read
the queue. -/
def readNames (start s : BridgedSystem ι σ) (registry : ι) : Finset CommandString :=
  (s.queued.drop start.queued.length).foldl RegistryEvent.replay
    (start.registries registry).registry.topLevelNames.toFinset

/-- They are the names of the top-level nodes. -/
def Follows (start s : BridgedSystem ι σ) (registry : ι) : Prop :=
  readNames start s registry = (s.registries registry).registry.topLevelNames.toFinset

/-- A step of this registry unregisters a node by its name, if it unregisters one. -/
def UnregistersByName (s : BridgedSystem ι σ) (registry : ι) : BridgedAction ι σ → Prop
  | .act other action =>
      other = registry → (s.registries registry).UnregistersByName action
  | _ => True

instance [DecidableEq ι] (s : BridgedSystem ι σ) (registry : ι) (action : BridgedAction ι σ) :
    Decidable (s.UnregistersByName registry action) := by
  cases action <;> unfold UnregistersByName <;> infer_instance

/-- What has happened since `start`, to whose registry the bridge is attached. -/
structure Attached (start : BridgedSystem ι σ) (registry : ι) (s : BridgedSystem ι σ) : Prop where
  sound : s.Sound
  bridge : s.bridge = start.bridge
  events : ∃ new, (s.registries registry).registry.notifications =
      (start.registries registry).registry.notifications ++ new ∧
    s.queued = start.queued ++ new.map Notification.event

variable {start : BridgedSystem ι σ} {registry : ι}

/-- The reader follows when a registry that began with the names replays to its tree. -/
theorem follows_iff_restarted {s : BridgedSystem ι σ} {new : List Notification}
    (hqueued : s.queued = start.queued ++ new.map Notification.event) :
    Follows start s registry ↔
      ((s.registries registry).registry.restarted
        (start.registries registry).registry.topLevelNames new).ReplaysToTree := by
  rw [CommandRegistry.replaysToTree_restarted_iff, Follows, readNames, hqueued,
    List.drop_left, RegistryEvent.foldl_replay_event]

/-- **One step** of an attached bridge: the events are those of the registry, and a reader
that follows goes on following exactly when nothing is unregistered by an alias. -/
theorem Attached.step [DecidableEq ι] {s after : BridgedSystem ι σ} {action : BridgedAction ι σ}
    (hattached : start.bridge.observerHandle = some registry) (h : Attached start registry s)
    (hstep : Step s action after) (hkept : action ≠ .shutdown) :
    Attached start registry after ∧
      (Follows start s registry →
        (Follows start after registry ↔ s.UnregistersByName registry action)) := by
  have hsound := h.sound.step hstep
  obtain ⟨new, hnotifications, hqueued⟩ := h.events
  obtain ⟨henabled, rfl⟩ := hstep
  have hhandle : s.bridge.observerHandle = some registry := by rw [h.bridge, hattached]
  cases action with
  | shutdown => exact absurd rfl hkept
  | initializeWith other granted =>
      -- it is initialized already
      have hinitialized : s.bridge.initialized = true := by
        rw [h.sound.initialized, hhandle]
        rfl
      have hsame : s.perform (.initializeWith other granted) = s := by
        rw [perform, CommandRegistryEventBridge.initializeWith, if_pos hinitialized]
      rw [hsame]
      exact ⟨h, fun hfollows => iff_of_true hfollows trivial⟩
  | act other action =>
      by_cases heq : other = registry
      · subst heq
        have hregistry : (s.perform (.act other action)).registries other =
            (s.registries other).perform action := Function.update_self _ _ _
        obtain ⟨added, happended, hfollowed⟩ := (h.sound.registries other).exists_added
          (h.sound.names other) henabled
        have hevents : (s.perform (.act other action)).queued =
            start.queued ++ (new ++ added).map Notification.event := by
          rw [perform, if_pos hhandle, happended, List.drop_left, hqueued, List.append_assoc,
            ← List.map_append]
        refine ⟨⟨hsound, h.bridge, new ++ added, ?_, hevents⟩, fun hfollows => ?_⟩
        · rw [hregistry, happended, hnotifications, List.append_assoc]
        · rw [follows_iff_restarted hqueued] at hfollows
          rw [follows_iff_restarted hevents, hregistry, hfollowed hfollows]
          exact ⟨fun hname _ => hname, fun hname => hname rfl⟩
      · have hregistry : (s.perform (.act other action)).registries registry =
            s.registries registry := Function.update_of_ne (fun h => heq h.symm) _ _
        have hevents : (s.perform (.act other action)).queued = s.queued := by
          have hnone : ¬ some registry = some other := by
            intro hsame
            exact heq (Option.some.inj hsame).symm
          rw [perform, hhandle, if_neg hnone, List.append_nil]
        refine ⟨⟨hsound, h.bridge, new, ?_, ?_⟩, fun hfollows => iff_of_true ?_ ?_⟩
        · rw [hregistry, hnotifications]
        · rw [hevents, hqueued]
        · rw [Follows, readNames, hregistry, hevents]
          exact hfollows
        · exact fun hsame => absurd hsame heq

/-- **A late reader.**  In every run from a state in which the bridge is attached to a
registry, as long as it is not shut down, the events queued are those of the notifications
of that registry, in order; and a reader who took the top-level names at the start has them
right all along exactly when no step unregisters a node of the registry by an alias. -/
theorem follows_iff_of_run [DecidableEq ι]
    {earlier : List (Transition (BridgedSystem ι σ) (BridgedAction ι σ))}
    (hreach : Run Step {} earlier start) (hattached : start.bridge.observerHandle = some registry)
    {trace : List (Transition (BridgedSystem ι σ) (BridgedAction ι σ))}
    {final : BridgedSystem ι σ} (hrun : Run Step start trace final)
    (hkept : ∀ τ ∈ trace, τ.label ≠ .shutdown) :
    (final.bridge.initialized = true ∧ final.bridge = start.bridge ∧
      ∃ new, (final.registries registry).registry.notifications =
          (start.registries registry).registry.notifications ++ new ∧
        final.queued = start.queued ++ new.map Notification.event) ∧
      ((∀ τ ∈ trace, Follows start τ.after registry) ↔
        ∀ τ ∈ trace, τ.before.UnregistersByName registry τ.label) := by
  have hsound : start.Sound :=
    hreach.invariant sound_initial fun _ _ _ hsound hstep => hsound.step hstep
  have hstart : Attached start registry start :=
    ⟨hsound, rfl, [], (List.append_nil _).symm, (List.append_nil _).symm⟩
  have hrestricted := hrun.restrict (P := fun action => action ≠ .shutdown) hkept
  have hfinal : Attached start registry final :=
    hrestricted.invariant hstart fun _ _ _ h hstep => (h.step hattached hstep.1 hstep.2).1
  refine ⟨⟨?_, hfinal.bridge, hfinal.events⟩, ?_⟩
  · rw [hfinal.sound.initialized, hfinal.bridge, hattached]
    rfl
  · have hexact (s : BridgedSystem ι σ) (action : BridgedAction ι σ) (after : BridgedSystem ι σ)
        (h : Attached start registry s) (hfollows : Follows start s registry)
        (hstep : Step s action after ∧ action ≠ .shutdown) :
        Follows start after registry ↔ s.UnregistersByName registry action :=
      (h.step hattached hstep.1 hstep.2).2 hfollows
    refine Run.good_iff_allowed _ (fun s => Follows start s registry) hstart ?_ ?_ hexact
      hrestricted
    · rw [Follows, readNames, List.drop_length, List.foldl_nil]
    · exact fun _ _ _ h hstep => (h.step hattached hstep.1 hstep.2).1

/-- The bridge observes the registry `true`, which has a command already. -/
def lampSystem : BridgedSystem Bool Unit :=
  [.act true (.call (.command (text "lamp"))), .initializeWith true true].foldl perform {}

def fanSession : List (BridgedAction Bool Unit) :=
  [.initializeWith false true, .act true (.registerCommand 0 (text "fan")),
    .act false (.call (.command (text "pump"))), .act true (.destroy 0)]

/-- A reader that knows of the lamp sees the fan come and go, and nothing of the pump. -/
theorem follows_iff_of_run_fanSession :
    (∀ τ ∈ schedule perform lampSystem fanSession, Follows lampSystem τ.after true) ∧
      (fanSession.foldl perform lampSystem).queued =
        [.commandRegistered [text "fan"], .commandUnregistered [text "fan"]] := by
  have hreach := @Run.of_schedule _ _ Enabled perform ({} : BridgedSystem Bool Unit)
    [.act true (.call (.command (text "lamp"))), .initializeWith true true] (by decide)
  have hrun := @Run.of_schedule _ _ Enabled perform lampSystem fanSession (by decide)
  have hkept : ∀ τ ∈ schedule perform lampSystem fanSession, τ.label ≠ .shutdown := by
    simp [schedule, fanSession]
  exact ⟨(follows_iff_of_run hreach rfl hrun hkept).2.mpr (by decide), by decide⟩

end BridgedSystem

end EspressioCommand
