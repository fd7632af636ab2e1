import EspressioCommand.Executor.ProcessWork
import EspressioCommand.Library.PartialMap
import EspressioCommand.Library.Transitions

/-!
# Responses go back to their origin

Runs of the route registry together with the executor.  Calls of the registry come
in any order; a call of `Register` draws its identifier before it takes the lock,
so the two halves are separate steps.  So are those of a call of `Route`: it looks the
object up under the lock, and hands the response over when the lock is released.  In
between it holds the object by a shared pointer.  A work item is accepted, invokes its
command, which may make any of the other calls meanwhile, and then routes its
response or fails.

Next to the table, the state records what is meant by it: `registered` is the map
from identifiers to the objects registered under them and not unregistered since.
`RouteInvariant` ties the two together: every entry of the table is registered, and
every registered object that is alive has its entry, however far a pruning search
has come.  What a call of `Route` has looked up is traced back to the step that did so:
`delivered_to_origin` says that the object owned the identifier then, and owns it still when
the response is handed over, unless `Unregister` came in between.
-/

namespace EspressioCommand

open Library CommandEventExecutor

variable {limits : EnvelopeLimits}

/-! ### The system -/

/-- A call of `Route` that has found an object, and the work item that makes it, if any. -/
structure RouteCall (limits : EnvelopeLimits) where
  event : Option ℕ
  delivery : Delivery limits
deriving DecidableEq

/-- The route registry, the executor's work items, and what has happened. -/
structure RouteSystem (limits : EnvelopeLimits) where
  registry : CommandResponseRouteRegistry := {}
  alive : ℕ → Bool := fun _ => true
  /-- The calls of `Register` that have drawn an identifier and not entered it yet. -/
  drawn : List (CommandTransportRouteId × ℕ) := []
  registerCalls : ℕ := 0
  /-- The identifiers that calls of `Register` have returned, with the route objects. -/
  returned : List (CommandTransportRouteId × ℕ) := []
  /-- The route objects registered and not unregistered since. -/
  registered : PartialMap CommandTransportRouteId ℕ := PartialMap.empty
  /-- The work items whose command has not returned, numbered as they were accepted. -/
  processing : List (ℕ × CommandRequestEnvelope limits) := []
  accepted : ℕ := 0
  /-- The calls of `Route` between their look-up and `SendCommandResponse`. -/
  sending : List (RouteCall limits) := []
  /-- The calls that have handed their response over. -/
  delivered : List (RouteCall limits) := []

/-- One step of the system.  `Resolve` holds the lock, but an object may go in the meantime: one
that goes between `expired` and `lock` makes the call return null, and leaves the table as
`resolve` and then `destroy` do. -/
inductive RouteAction (limits : EnvelopeLimits)
  /-- A call of `Register`, for a null route or up to its lock. -/
  | register (route : Option ℕ)
  /-- The rest of such a call, which then returns `id`. -/
  | enter (id : CommandTransportRouteId) (route : ℕ)
  | unregister (id : CommandTransportRouteId)
  | destroy (route : ℕ)
  | resolve (id : CommandTransportRouteId)
  /-- A call of `Route`, up to the return of its `Resolve`. -/
  | route (origin : CommandOrigin limits) (response : CommandResponseEnvelope limits)
  /-- The executor starts on an event. -/
  | accept (request : CommandRequestEnvelope limits)
  /-- The command of a work item has returned `result`; the item calls `Route`, up to the
  return of its `Resolve`, or is done with the registry. -/
  | respond (event : ℕ) (request : CommandRequestEnvelope limits) (result : CommandResult)
  /-- Such a call of `Route` calls `SendCommandResponse`. -/
  | send (call : RouteCall limits)
  /-- The command of a work item has thrown. -/
  | fail (event : ℕ) (request : CommandRequestEnvelope limits)

namespace RouteSystem

/-- What a step can be taken on.  A route object exists as long as a call of `Route` holds a
shared pointer to it. -/
def Enabled (s : RouteSystem limits) : RouteAction limits → Prop
  | .register (some route) => s.alive route = true
  | .enter id route => (id, route) ∈ s.drawn
  | .destroy route => ∀ call ∈ s.sending, call.delivery.route ≠ route
  | .respond event request _ => (event, request) ∈ s.processing
  | .send call => call ∈ s.sending
  | .fail event request => (event, request) ∈ s.processing
  | _ => True

/-- The call of `Route` that a step begins, when it finds an object. -/
def lookedUp (s : RouteSystem limits) : RouteAction limits → Option (RouteCall limits)
  | .route origin response => (s.registry.route s.alive origin response).1.map (RouteCall.mk none)
  | .respond event request result =>
      (routeResponse s.registry s.alive request result).1.map (RouteCall.mk (some event))
  | _ => none

/-- The state after a step. -/
def perform (s : RouteSystem limits) : RouteAction limits → RouteSystem limits
  | .register none => { s with registerCalls := s.registerCalls + 1 }
  | .register (some route) =>
      { s with
        registry := s.registry.drawId.2
        drawn := s.drawn ++ [(s.registry.drawId.1, route)]
        registerCalls := s.registerCalls + 1 }
  | .enter id route =>
      { s with
        registry := s.registry.enter id route
        drawn := s.drawn.erase (id, route)
        returned := s.returned ++ [(id, route)]
        registered := Function.update s.registered id (some route) }
  | .unregister id =>
      { s with
        registry := s.registry.unregister id
        registered := Function.update s.registered id none }
  | .destroy route => { s with alive := Function.update s.alive route false }
  | .resolve id => { s with registry := (s.registry.resolve s.alive id).2 }
  | .route origin response =>
      { s with
        registry := (s.registry.route s.alive origin response).2
        sending := s.sending ++ (s.lookedUp (.route origin response)).toList }
  | .accept request =>
      { s with
        processing := s.processing ++ [(s.accepted, request)]
        accepted := s.accepted + 1 }
  | .respond event request result =>
      { s with
        registry := (routeResponse s.registry s.alive request result).2
        processing := s.processing.erase (event, request)
        sending := s.sending ++ (s.lookedUp (.respond event request result)).toList }
  | .send call =>
      { s with sending := s.sending.erase call, delivered := s.delivered ++ [call] }
  | .fail event request => { s with processing := s.processing.erase (event, request) }

/-- The step relation. -/
def Step (s : RouteSystem limits) (action : RouteAction limits) (after : RouteSystem limits) :
    Prop :=
  s.Enabled action ∧ after = s.perform action

/-! ### The table and what it means -/

/-- The table holds the registered routes, apart from some that no longer exist,
under identifiers that are not given out again. -/
structure RouteInvariant (s : RouteSystem limits) : Prop where
  counter : s.registry.nextId.toNat = s.returned.length + s.drawn.length + 1
  calls : s.returned.length + s.drawn.length ≤ s.registerCalls
  below : ∀ p ∈ s.returned ++ s.drawn, p.1 ≠ 0 ∧ p.1.toNat < s.registry.nextId.toNat
  distinct : ((s.returned ++ s.drawn).map Prod.fst).Nodup
  entries : ∀ entry ∈ s.registry.routes, s.registered entry.id = some entry.route
  entriesDistinct : (s.registry.routes.map RouteEntry.id).Nodup
  live : ∀ id route, s.registered id = some route → s.alive route = true →
    (⟨id, route⟩ : RouteEntry) ∈ s.registry.routes
  source : ∀ id route, s.registered id = some route → (id, route) ∈ s.returned

theorem routeInvariant_initial : RouteInvariant ({} : RouteSystem limits) where
  counter := rfl
  calls := Nat.le_refl 0
  below := by simp
  distinct := by simp
  entries := by simp
  entriesDistinct := by simp
  live := by
    intro id route h
    cases h
  source := by
    intro id route h
    cases h

/-- A table that keeps the live entries keeps the invariant. -/
theorem RouteInvariant.of_pruned {s : RouteSystem limits} (h : RouteInvariant s)
    {registry : CommandResponseRouteRegistry} (hnext : registry.nextId = s.registry.nextId)
    (hsublist : registry.routes.Sublist s.registry.routes)
    (halive : ∀ entry ∈ s.registry.routes, s.alive entry.route = true →
      entry ∈ registry.routes)
    {processing : List (ℕ × CommandRequestEnvelope limits)} {accepted : ℕ}
    {sending delivered : List (RouteCall limits)} :
    RouteInvariant
      { s with
        registry := registry
        processing := processing
        accepted := accepted
        sending := sending
        delivered := delivered } where
  counter := hnext ▸ h.counter
  calls := h.calls
  below := by
    intro p hp
    rw [hnext]
    exact h.below p hp
  distinct := h.distinct
  entries := fun entry hentry => h.entries entry (hsublist.subset hentry)
  entriesDistinct := (hsublist.map _).nodup h.entriesDistinct
  live := fun id route hid hroute => halive _ (h.live id route hid hroute) hroute
  source := h.source

theorem RouteInvariant.resolve {s : RouteSystem limits} (h : RouteInvariant s)
    (id : CommandTransportRouteId) {processing : List (ℕ × CommandRequestEnvelope limits)}
    {accepted : ℕ} {sending delivered : List (RouteCall limits)} :
    RouteInvariant
      { s with
        registry := (s.registry.resolve s.alive id).2
        processing := processing
        accepted := accepted
        sending := sending
        delivered := delivered } :=
  h.of_pruned (s.registry.resolve_nextId s.alive id)
    (s.registry.resolve_routes_sublist s.alive id)
    fun _ hentry halive =>
      CommandResponseRouteRegistry.mem_resolve_routes_of_alive hentry halive

theorem RouteInvariant.route {s : RouteSystem limits} (h : RouteInvariant s)
    (origin : CommandOrigin limits) (response : CommandResponseEnvelope limits)
    {processing : List (ℕ × CommandRequestEnvelope limits)} {accepted : ℕ}
    {sending delivered : List (RouteCall limits)} :
    RouteInvariant
      { s with
        registry := (s.registry.route s.alive origin response).2
        processing := processing
        accepted := accepted
        sending := sending
        delivered := delivered } := by
  rw [CommandResponseRouteRegistry.route_snd]
  split_ifs with hlocal
  · exact h.of_pruned rfl (List.Sublist.refl _) fun entry hentry _ => hentry
  · exact h.resolve origin.transportRoute

theorem RouteInvariant.register {s : RouteSystem limits} (h : RouteInvariant s) (route : ℕ)
    (hcalls : s.registerCalls + 1 < 2 ^ 32 - 1) :
    RouteInvariant (s.perform (.register (some route))) := by
  have hbound := h.calls
  have hcounter := h.counter
  have hnext : (s.registry.nextId + 1).toNat = s.registry.nextId.toNat + 1 := by
    rw [UInt32.toNat_add, UInt32.toNat_one]
    omega
  -- the counter has not wrapped round, so it is not the invalid identifier
  have hnonzero : s.registry.nextId ≠ 0 := by
    intro hzero
    rw [hzero, UInt32.toNat_zero] at hcounter
    omega
  refine ⟨?_, ?_, ?_, ?_, h.entries, h.entriesDistinct, h.live, h.source⟩
  · simp only [perform, CommandResponseRouteRegistry.drawId, hnext, List.length_append,
      List.length_singleton]
    omega
  · simp only [perform, List.length_append, List.length_singleton]
    omega
  · intro p hp
    simp only [perform, CommandResponseRouteRegistry.drawId, hnext] at hp ⊢
    rw [← List.append_assoc] at hp
    rcases List.mem_append.mp hp with hold | hnew
    · obtain ⟨hzero, hlt⟩ := h.below p hold
      exact ⟨hzero, by omega⟩
    · obtain rfl := List.mem_singleton.mp hnew
      exact ⟨hnonzero, Nat.lt_succ_self _⟩
  · simp only [perform, CommandResponseRouteRegistry.drawId]
    rw [← List.append_assoc, List.map_append, List.nodup_append]
    refine ⟨h.distinct, by simp, ?_⟩
    intro id hid other hother
    obtain ⟨p, hp, rfl⟩ := List.mem_map.mp hid
    obtain rfl : other = s.registry.nextId := by simpa using hother
    -- the counter is above every identifier drawn so far
    have hlt := (h.below p hp).2
    intro heq
    rw [heq] at hlt
    omega

/-- Nothing is registered under an identifier that was drawn and not returned yet. -/
theorem RouteInvariant.registered_of_mem_drawn {s : RouteSystem limits} (h : RouteInvariant s)
    {id : CommandTransportRouteId} {route : ℕ} (hdrawn : (id, route) ∈ s.drawn) :
    s.registered id = none := by
  by_contra hsome
  obtain ⟨other, hother⟩ := Option.ne_none_iff_exists'.mp hsome
  have hreturned : id ∈ s.returned.map Prod.fst :=
    List.mem_map.mpr ⟨_, h.source id other hother, rfl⟩
  have hid : id ∈ s.drawn.map Prod.fst := List.mem_map.mpr ⟨_, hdrawn, rfl⟩
  have hdistinct := h.distinct
  rw [List.map_append] at hdistinct
  exact (List.disjoint_of_nodup_append hdistinct) hreturned hid

theorem RouteInvariant.enter {s : RouteSystem limits} (h : RouteInvariant s)
    {id : CommandTransportRouteId} {route : ℕ} (hdrawn : (id, route) ∈ s.drawn) :
    RouteInvariant (s.perform (.enter id route)) := by
  have hperm : (s.returned ++ [(id, route)] ++ s.drawn.erase (id, route)).Perm
      (s.returned ++ s.drawn) :=
    perm_move hdrawn
  have hfree := h.registered_of_mem_drawn hdrawn
  have hnotEntry : ∀ entry ∈ s.registry.routes, entry.id ≠ id := by
    rintro entry hentry rfl
    have hsome := h.entries entry hentry
    rw [hfree] at hsome
    cases hsome
  have hlength := hperm.length_eq
  simp only [List.length_append, List.length_singleton] at hlength
  have hcounter := h.counter
  have hcalls := h.calls
  refine ⟨?_, ?_, ?_, ?_, ?_, ?_, ?_, ?_⟩
  · simp only [perform, CommandResponseRouteRegistry.enter, List.length_append,
      List.length_singleton]
    omega
  · simp only [perform, List.length_append, List.length_singleton]
    omega
  · intro p hp
    exact h.below p (hperm.subset hp)
  · exact (hperm.map Prod.fst).nodup_iff.mpr h.distinct
  · intro entry hentry
    rcases List.mem_append.mp hentry with hold | hnew
    · simp only [perform, Function.update_of_ne (hnotEntry entry hold)]
      exact h.entries entry hold
    · obtain rfl := List.mem_singleton.mp hnew
      simp [perform]
  · simp only [perform, CommandResponseRouteRegistry.enter, List.map_append, List.map_cons,
      List.map_nil]
    rw [List.nodup_append]
    refine ⟨h.entriesDistinct, by simp, ?_⟩
    intro other hother same hsame
    obtain ⟨entry, hentry, rfl⟩ := List.mem_map.mp hother
    obtain rfl := List.mem_singleton.mp hsame
    exact hnotEntry entry hentry
  · intro other found hfound halive
    simp only [perform, CommandResponseRouteRegistry.enter] at hfound ⊢
    rcases PartialMap.update_some_eq_some_iff.mp hfound with ⟨rfl, rfl⟩ | ⟨-, hold⟩
    · exact List.mem_append_right _ (by simp)
    · exact List.mem_append_left _ (h.live other found hold halive)
  · intro other found hfound
    simp only [perform] at hfound ⊢
    rcases PartialMap.update_some_eq_some_iff.mp hfound with ⟨rfl, rfl⟩ | ⟨-, hold⟩
    · exact List.mem_append_right _ (by simp)
    · exact List.mem_append_left _ (h.source other found hold)

/-- `Unregister` removes the entry of its identifier and no other. -/
theorem RouteInvariant.unregister {s : RouteSystem limits} (h : RouteInvariant s)
    (id : CommandTransportRouteId) : RouteInvariant (s.perform (.unregister id)) := by
  have hnotZero : ∀ entry ∈ s.registry.routes, entry.id ≠ 0 := by
    intro entry hentry
    have hreturned := h.source _ _ (h.entries entry hentry)
    exact (h.below _ (List.mem_append_left _ hreturned)).1
  have hsublist := s.registry.unregister_routes_sublist id
  have hgone : ∀ entry ∈ (s.registry.unregister id).routes, entry.id ≠ id := by
    rintro entry hentry rfl
    exact CommandResponseRouteRegistry.id_ne_of_mem_unregister h.entriesDistinct
      (hnotZero entry (hsublist.subset hentry)) hentry rfl
  refine ⟨?_, h.calls, ?_, h.distinct, ?_, (hsublist.map _).nodup h.entriesDistinct, ?_, ?_⟩
  · rw [perform, CommandResponseRouteRegistry.unregister_nextId]
    exact h.counter
  · intro p hp
    rw [perform, CommandResponseRouteRegistry.unregister_nextId]
    exact h.below p hp
  · intro entry hentry
    simp only [perform, Function.update_of_ne (hgone entry hentry)]
    exact h.entries entry (hsublist.subset hentry)
  · intro other found hfound halive
    simp only [perform] at hfound ⊢
    obtain ⟨hother, hold⟩ := PartialMap.update_none_eq_some_iff.mp hfound
    exact CommandResponseRouteRegistry.mem_unregister_routes_of_ne
      (h.live other found hold halive) hother
  · intro other found hfound
    simp only [perform] at hfound ⊢
    obtain ⟨-, hold⟩ := PartialMap.update_none_eq_some_iff.mp hfound
    exact h.source other found hold

theorem RouteInvariant.destroy {s : RouteSystem limits} (h : RouteInvariant s) (route : ℕ) :
    RouteInvariant (s.perform (.destroy route)) := by
  refine ⟨h.counter, h.calls, h.below, h.distinct, h.entries, h.entriesDistinct, ?_, h.source⟩
  intro id found hfound halive
  refine h.live id found hfound ?_
  simp only [perform] at halive
  by_cases hsame : found = route
  · subst hsame
    simp at halive
  · rwa [Function.update_of_ne hsame] at halive

/-- Every step keeps the invariant, as long as the identifiers last. -/
theorem Step.routeInvariant {s after : RouteSystem limits} {action : RouteAction limits}
    (hstep : Step s action after) (h : RouteInvariant s)
    (hcalls : after.registerCalls < 2 ^ 32 - 1) : RouteInvariant after := by
  obtain ⟨henabled, rfl⟩ := hstep
  cases action with
  | register route =>
      cases route with
      | none => exact ⟨h.counter, h.calls.trans (Nat.le_succ _), h.below, h.distinct, h.entries,
          h.entriesDistinct, h.live, h.source⟩
      | some route => exact h.register route hcalls
  | enter id route => exact h.enter henabled
  | unregister id => exact h.unregister id
  | destroy route => exact h.destroy route
  | resolve id => exact h.resolve id
  | route origin response => exact h.route origin response
  | accept request => exact h.of_pruned rfl (List.Sublist.refl _) fun _ hentry _ => hentry
  -- a response that is not routed leaves the table alone
  | respond event request result =>
      by_cases hshould : shouldRoute request = true
      · have hregistry : (routeResponse s.registry s.alive request result).2 =
            (s.registry.route s.alive request.origin (makeResponse request result)).2 := by
          rw [routeResponse, if_pos hshould]
        simp only [perform, hregistry]
        exact h.route request.origin (makeResponse request result)
      · have hregistry : (routeResponse s.registry s.alive request result).2 = s.registry := by
          rw [routeResponse, if_neg hshould]
        simp only [perform, hregistry]
        exact h.of_pruned rfl (List.Sublist.refl _) fun _ hentry _ => hentry
  | send call => exact h.of_pruned rfl (List.Sublist.refl _) fun _ hentry _ => hentry
  | fail event request =>
      exact h.of_pruned rfl (List.Sublist.refl _) fun _ hentry _ => hentry

/-! ### Work items -/

/-- The work items that have not returned, route their response or have handed it over. -/
def workItems (s : RouteSystem limits) : List ℕ :=
  s.delivered.filterMap RouteCall.event ++ s.sending.filterMap RouteCall.event ++
    s.processing.map Prod.fst

/-- No work item is in two of these places, nor twice in one. -/
structure WorkInvariant (s : RouteSystem limits) : Prop where
  distinct : s.workItems.Nodup
  below : ∀ event ∈ s.workItems, event < s.accepted

/-- A step that makes no new work items keeps them apart. -/
theorem WorkInvariant.of_subperm {s after : RouteSystem limits} (h : WorkInvariant s)
    (hitems : after.workItems.Subperm s.workItems) (haccepted : after.accepted = s.accepted) :
    WorkInvariant after := by
  refine ⟨?_, fun event hevent => ?_⟩
  · obtain ⟨items, hperm, hsublist⟩ := hitems
    exact hperm.nodup_iff.mp (hsublist.nodup h.distinct)
  · rw [haccepted]
    exact h.below event (hitems.subset hevent)

/-- A work item that is done with its command, and may route a response. -/
theorem workItems_finish {s : RouteSystem limits} {event : ℕ}
    {request : CommandRequestEnvelope limits} (hmem : (event, request) ∈ s.processing)
    (registry : CommandResponseRouteRegistry) (response : Option (Delivery limits)) :
    (workItems
        { s with
          registry := registry
          processing := s.processing.erase (event, request)
          sending := s.sending ++ (response.map (RouteCall.mk (some event))).toList }).Subperm
      s.workItems := by
  have hperm : s.workItems.Perm
      (s.delivered.filterMap RouteCall.event ++ s.sending.filterMap RouteCall.event ++
        (event :: (s.processing.erase (event, request)).map Prod.fst)) :=
    ((List.perm_cons_erase hmem).map Prod.fst).append_left _
  refine List.Subperm.trans (List.Sublist.subperm ?_) hperm.symm.subperm
  rw [workItems, List.filterMap_append, List.append_assoc, List.append_assoc, List.append_assoc]
  refine (List.Sublist.refl _).append ((List.Sublist.refl _).append ?_)
  cases response with
  | none => exact List.sublist_cons_self _ _
  | some delivery => exact List.Sublist.refl _

/-- Handing a response over moves its work item. -/
theorem workItems_send {s : RouteSystem limits} {call : RouteCall limits}
    (hmem : call ∈ s.sending) : (s.perform (.send call)).workItems.Subperm s.workItems := by
  have hperm : (s.delivered ++ [call] ++ s.sending.erase call).Perm (s.delivered ++ s.sending) :=
    perm_move hmem
  have hevents := (hperm.filterMap RouteCall.event).append_right (s.processing.map Prod.fst)
  simp only [List.filterMap_append] at hevents
  simp only [workItems, perform, List.filterMap_append]
  exact hevents.subperm

theorem Step.workInvariant {s after : RouteSystem limits} {action : RouteAction limits}
    (hstep : Step s action after) (h : WorkInvariant s) : WorkInvariant after := by
  obtain ⟨henabled, rfl⟩ := hstep
  cases action with
  | register route => cases route <;> exact ⟨h.distinct, h.below⟩
  | enter id route => exact ⟨h.distinct, h.below⟩
  | unregister id => exact ⟨h.distinct, h.below⟩
  | destroy route => exact ⟨h.distinct, h.below⟩
  | resolve id => exact ⟨h.distinct, h.below⟩
  | route origin response =>
      -- a call that no work item makes
      have hsame : (s.perform (.route origin response)).workItems = s.workItems := by
        rw [workItems, workItems, perform, lookedUp, List.filterMap_append]
        cases (s.registry.route s.alive origin response).1 with
        | none => simp
        | some delivery => simp
      exact h.of_subperm (by rw [hsame]) rfl
  | accept request =>
      have hitems : (s.perform (.accept request)).workItems = s.workItems ++ [s.accepted] := by
        simp [workItems, perform]
      have hnew : ∀ event ∈ s.workItems, event ≠ s.accepted :=
        fun event hevent => (h.below event hevent).ne
      refine ⟨?_, ?_⟩
      · rw [hitems, List.nodup_append]
        refine ⟨h.distinct, by simp, ?_⟩
        intro event hevent other hother
        obtain rfl := List.mem_singleton.mp hother
        exact hnew event hevent
      · intro event hevent
        rw [hitems] at hevent
        rcases List.mem_append.mp hevent with hold | hlast
        · exact (h.below event hold).trans (Nat.lt_succ_self _)
        · obtain rfl := List.mem_singleton.mp hlast
          exact Nat.lt_succ_self _
  | respond event request result => exact h.of_subperm (workItems_finish henabled _ _) rfl
  | send call => exact h.of_subperm (workItems_send henabled) rfl
  | fail event request =>
      have hitems := workItems_finish henabled s.registry none
      rw [Option.map_none, Option.toList_none, List.append_nil] at hitems
      exact h.of_subperm hitems rfl

/-! ### The law of delivery -/

/-- The object is registered under the identifier that a call of `Register` returned
for it, has not been unregistered, and exists. -/
def Owns (s : RouteSystem limits) (id : CommandTransportRouteId) (route : ℕ) : Prop :=
  (id, route) ∈ s.returned ∧ s.registered id = some route ∧ s.alive route = true

theorem RouteInvariant.owns_of_resolve {s : RouteSystem limits} (h : RouteInvariant s)
    {id : CommandTransportRouteId} {route : ℕ}
    (hresolve : (s.registry.resolve s.alive id).1 = some route) : s.Owns id route := by
  obtain ⟨hmem, halive⟩ := CommandResponseRouteRegistry.exists_of_resolve_eq_some hresolve
  have hregistered := h.entries _ hmem
  exact ⟨h.source id route hregistered, hregistered, halive⟩

theorem RouteInvariant.resolve_of_registered {s : RouteSystem limits} (h : RouteInvariant s)
    {id : CommandTransportRouteId} {route : ℕ} (hregistered : s.registered id = some route)
    (halive : s.alive route = true) : (s.registry.resolve s.alive id).1 = some route := by
  have hmem := h.live id route hregistered halive
  have hnonzero : id ≠ 0 := (h.below _ (List.mem_append_left _ (h.source id route hregistered))).1
  exact CommandResponseRouteRegistry.resolve_eq_some h.entriesDistinct hmem hnonzero halive

theorem registerCalls_le_of_step {s after : RouteSystem limits} {action : RouteAction limits}
    (hstep : Step s action after) : s.registerCalls ≤ after.registerCalls := by
  obtain ⟨-, rfl⟩ := hstep
  cases action with
  | register route => cases route <;> exact Nat.le_succ _
  | _ => exact Nat.le_refl _

/-- Every step but `Unregister` leaves an object its identifier, as long as the object is
there. -/
theorem Owns.perform {s : RouteSystem limits} {id : CommandTransportRouteId} {route : ℕ}
    (howns : s.Owns id route) (h : RouteInvariant s) {action : RouteAction limits}
    (henabled : s.Enabled action) (hkept : action ≠ .destroy route) :
    (s.perform action).Owns id route ∨ action = .unregister id := by
  obtain ⟨hreturned, hregistered, halive⟩ := howns
  cases action with
  | register other => cases other <;> exact Or.inl ⟨hreturned, hregistered, halive⟩
  | enter other object =>
      have hne : id ≠ other := by
        rintro rfl
        have hnone := h.registered_of_mem_drawn henabled
        rw [hregistered] at hnone
        cases hnone
      refine Or.inl ⟨List.mem_append_left _ hreturned, ?_, halive⟩
      exact (Function.update_of_ne hne _ _).trans hregistered
  | unregister other =>
      by_cases hsame : other = id
      · subst hsame
        exact Or.inr rfl
      · refine Or.inl ⟨hreturned, ?_, halive⟩
        exact (Function.update_of_ne (Ne.symm hsame) _ _).trans hregistered
  | destroy other =>
      have hne : route ≠ other := by
        rintro rfl
        exact hkept rfl
      exact Or.inl ⟨hreturned, hregistered, (Function.update_of_ne hne _ _).trans halive⟩
  | _ => exact Or.inl ⟨hreturned, hregistered, halive⟩

/-- The object was looked up for `id` by this action, when it owned the identifier; and it
still does, unless `Unregister` was called for it since. -/
def ResolvedBy (action : RouteAction limits) (id : CommandTransportRouteId) (route : ℕ) :
    List (Transition (RouteSystem limits) (RouteAction limits)) → RouteSystem limits → Prop :=
  Established (fun σ => σ.label = action ∧ σ.before.Owns id route) (fun s => s.Owns id route)
    fun label => label = .unregister id

/-- What a call of `Route` is made for: the completion request of its work item, or the
origin and the response that somebody else has given it. -/
def Accounts (trace : List (Transition (RouteSystem limits) (RouteAction limits)))
    (s : RouteSystem limits) (call : RouteCall limits) : Prop :=
  match call.event with
  | some event => ∃ request result, request.responseExpectation = .completion ∧
      request.origin.isLocal = false ∧ call.delivery.destination = request.origin.address ∧
      call.delivery.response.requestId = request.requestId ∧
      ResolvedBy (.respond event request result) request.origin.transportRoute
        call.delivery.route trace s
  | none => ∃ origin, origin.isLocal = false ∧ call.delivery.destination = origin.address ∧
      ResolvedBy (.route origin call.delivery.response) origin.transportRoute
        call.delivery.route trace s

section Accounts

variable {trace : List (Transition (RouteSystem limits) (RouteAction limits))}
  {s : RouteSystem limits} {action : RouteAction limits} {call : RouteCall limits}

/-- The step that looks an object up accounts for the call. -/
theorem accounts_of_lookedUp (h : RouteInvariant s) (hcall : s.lookedUp action = some call) :
    s.alive call.delivery.route = true ∧
      Accounts (trace ++ [⟨s, action, s.perform action⟩]) (s.perform action) call := by
  cases action with
  | route origin response =>
      obtain ⟨delivery, hdelivery, rfl⟩ := Option.map_eq_some_iff.mp hcall
      obtain ⟨hlocal, hdestination, hresponse, hresolve⟩ :=
        CommandResponseRouteRegistry.route_eq_some hdelivery
      have howns := h.owns_of_resolve hresolve
      refine ⟨howns.2.2, origin, hlocal, hdestination, ?_⟩
      exact established_last ⟨by rw [hresponse], howns⟩ howns
  | respond event request result =>
      obtain ⟨delivery, hdelivery, rfl⟩ := Option.map_eq_some_iff.mp hcall
      obtain ⟨hexpectation, hlocal, hdestination, hresponse, hresolve⟩ :=
        routeResponse_eq_some hdelivery
      have howns := h.owns_of_resolve hresolve
      refine ⟨howns.2.2, request, result, hexpectation, hlocal, hdestination, ?_, ?_⟩
      · show delivery.response.requestId = request.requestId
        rw [hresponse, makeResponse_requestId]
      · exact established_last ⟨rfl, howns⟩ howns
  | _ => cases hcall

/-- While the call holds the object, every step leaves it accounted for. -/
theorem Accounts.next (haccounts : Accounts trace s call) (h : RouteInvariant s)
    (henabled : s.Enabled action) (hkept : action ≠ .destroy call.delivery.route) :
    Accounts (trace ++ [⟨s, action, s.perform action⟩]) (s.perform action) call := by
  obtain ⟨event, delivery⟩ := call
  cases event with
  | none =>
      obtain ⟨origin, hlocal, hdestination, hresolved⟩ := haccounts
      exact ⟨origin, hlocal, hdestination,
        hresolved.next fun howns => howns.perform h henabled hkept⟩
  | some event =>
      obtain ⟨request, result, hexpectation, hlocal, hdestination, hid, hresolved⟩ := haccounts
      exact ⟨request, result, hexpectation, hlocal, hdestination, hid,
        hresolved.next fun howns => howns.perform h henabled hkept⟩

/-- The calls under way are those from before, or the one that a step begins. -/
theorem mem_sending_perform (hcall : call ∈ (s.perform action).sending) :
    call ∈ s.sending ∨ s.lookedUp action = some call := by
  cases action with
  | register route => cases route <;> exact Or.inl hcall
  | route origin response => simpa [perform] using hcall
  | respond event request result => simpa [perform] using hcall
  | send other => exact Or.inl (List.mem_of_mem_erase hcall)
  | _ => exact Or.inl hcall

/-- **Step lemma.**  The objects of the calls under way exist, and the calls are accounted
for. -/
theorem accounts_perform (h : RouteInvariant s) (henabled : s.Enabled action)
    (hsending : ∀ call ∈ s.sending, s.alive call.delivery.route = true ∧ Accounts trace s call)
    (hcall : call ∈ (s.perform action).sending) :
    (s.perform action).alive call.delivery.route = true ∧
      Accounts (trace ++ [⟨s, action, s.perform action⟩]) (s.perform action) call := by
  have hkept : call ∈ s.sending → action ≠ .destroy call.delivery.route := by
    rintro hold rfl
    exact henabled call hold rfl
  have halive : s.alive call.delivery.route = true →
      action ≠ .destroy call.delivery.route →
      (s.perform action).alive call.delivery.route = true := by
    intro halive hne
    cases action with
    | register route => cases route <;> exact halive
    | destroy route =>
        have hother : call.delivery.route ≠ route := by
          rintro rfl
          exact hne rfl
        exact (Function.update_of_ne hother _ _).trans halive
    | _ => exact halive
  rcases mem_sending_perform hcall with hold | hnew
  · obtain ⟨hlives, haccounts⟩ := hsending call hold
    exact ⟨halive hlives (hkept hold), haccounts.next h henabled (hkept hold)⟩
  · obtain ⟨hlives, haccounts⟩ := accounts_of_lookedUp h hnew
    refine ⟨halive hlives ?_, haccounts⟩
    rintro rfl
    cases hnew

end Accounts

/-- **Run lemma.**  In a run that does not exhaust the identifiers the table keeps its
meaning, and the calls of `Route` that are under way are accounted for. -/
theorem routeInvariant_of_run {trace : List (Transition (RouteSystem limits) (RouteAction limits))}
    {s : RouteSystem limits} (hrun : Run Step {} trace s)
    (hcalls : s.registerCalls < 2 ^ 32 - 1) :
    RouteInvariant s ∧
      ∀ call ∈ s.sending, s.alive call.delivery.route = true ∧ Accounts trace s call := by
  induction hrun with
  | start => exact ⟨routeInvariant_initial, by simp⟩
  | next _ hstep ih =>
      have hbefore := (registerCalls_le_of_step hstep).trans_lt hcalls
      obtain ⟨hstate, hsending⟩ := ih hbefore
      refine ⟨hstep.routeInvariant hstate hcalls, fun call hcall => ?_⟩
      obtain ⟨henabled, rfl⟩ := hstep
      exact accounts_perform hstate henabled hsending hcall

theorem registerCalls_le_of_run
    {trace : List (Transition (RouteSystem limits) (RouteAction limits))} {s : RouteSystem limits}
    (hrun : Run Step {} trace s) :
    ∀ τ ∈ trace, τ.before.registerCalls ≤ s.registerCalls := by
  induction hrun with
  | start => simp
  | next _ hstep ih =>
      have hle := registerCalls_le_of_step hstep
      rw [List.forall_mem_append, List.forall_mem_singleton]
      exact ⟨fun τ hτ => (ih τ hτ).trans hle, hle⟩

/-- **Responses only go back to their origin.**  In every run with fewer than
`2 ^ 32 - 1` calls of `Register`: a response that is handed to a route object goes to an
object that exists; where a work item hands it over, it answers a completion request,
carries its identifier, goes to its address, and the item has looked the object up under the
request's route identifier, which the object owned at that moment and owns still, unless
`Unregister` was called for the identifier in between; a work item hands over at most
one response; an identifier is returned by one call of `Register` only; and a
registered route that is alive is what its identifier resolves to. -/
theorem delivered_to_origin {trace : List (Transition (RouteSystem limits) (RouteAction limits))}
    {s : RouteSystem limits} (hrun : Run Step {} trace s)
    (hcalls : s.registerCalls < 2 ^ 32 - 1) :
    (∀ front τ rest event delivery, trace = front ++ τ :: rest →
        τ.label = .send ⟨some event, delivery⟩ →
          τ.before.alive delivery.route = true ∧
            ∃ request result, request.responseExpectation = .completion ∧
              request.origin.isLocal = false ∧
              delivery.destination = request.origin.address ∧
              delivery.response.requestId = request.requestId ∧
              ResolvedBy (.respond event request result) request.origin.transportRoute
                delivery.route front τ.before) ∧
      (∀ front τ rest delivery, trace = front ++ τ :: rest → τ.label = .send ⟨none, delivery⟩ →
          τ.before.alive delivery.route = true ∧
            ∃ origin, origin.isLocal = false ∧ delivery.destination = origin.address ∧
              ResolvedBy (.route origin delivery.response) origin.transportRoute
                delivery.route front τ.before) ∧
      (s.delivered.filterMap RouteCall.event).Nodup ∧
      (s.returned.map Prod.fst).Nodup ∧
      ∀ id route, s.registered id = some route → s.alive route = true →
        (s.registry.resolve s.alive id).1 = some route := by
  have hinvariant := (routeInvariant_of_run hrun hcalls).1
  have hwork : WorkInvariant s :=
    hrun.invariant ⟨by simp [workItems], by simp [workItems]⟩
      fun _ _ _ h hstep => hstep.workInvariant h
  -- the call was under way when it handed its response over
  have hsent {front rest : List (Transition (RouteSystem limits) (RouteAction limits))}
      {τ : Transition (RouteSystem limits) (RouteAction limits)} {call : RouteCall limits}
      (hsplit : trace = front ++ τ :: rest) (hlabel : τ.label = .send call) :
      τ.before.alive call.delivery.route = true ∧ Accounts front τ.before call := by
    obtain ⟨hfront, henabled, -⟩ := hrun.split hsplit
    rw [hlabel] at henabled
    have hless := registerCalls_le_of_run hrun τ (by simp [hsplit])
    exact (routeInvariant_of_run hfront (hless.trans_lt hcalls)).2 call henabled
  refine ⟨?_, ?_, ?_, ?_, fun id route => hinvariant.resolve_of_registered⟩
  · intro front τ rest event delivery hsplit hlabel
    exact hsent hsplit hlabel
  · intro front τ rest delivery hsplit hlabel
    exact hsent hsplit hlabel
  · have hdistinct := hwork.distinct
    rw [workItems, List.append_assoc] at hdistinct
    exact (List.nodup_append.mp hdistinct).1
  · have hdistinct := hinvariant.distinct
    rw [List.map_append, List.nodup_append] at hdistinct
    exact hdistinct.1

/-- The capacities of a device with little memory. -/
def deviceLimits : EnvelopeLimits := ⟨48, 6, 24, by decide, by decide, by decide⟩

/-- A completion request that comes in over the route with the identifier 1. -/
def remoteRequest : CommandRequestEnvelope deviceLimits where
  requestId := 9
  origin := { transportRoute := 1 }

/-- The response to it, on the way to the object 5. -/
def remoteCall : RouteCall deviceLimits :=
  ⟨some 0, 5, remoteRequest.origin.address, makeResponse remoteRequest (.ok [])⟩

/-- The objects 5 and 6 are registered, 6 goes, and a work item looks up 5. -/
def lookUpSession : List (RouteAction deviceLimits) :=
  [.register (some 5), .register (some 6), .enter 2 6, .enter 1 5, .accept remoteRequest,
    .destroy 6, .respond 0 remoteRequest (.ok [])]

theorem run_lookUpSession :
    Run Step {} (schedule perform {} lookUpSession)
      (lookUpSession.foldl perform ({} : RouteSystem deviceLimits)) := by
  refine @Run.of_schedule _ _ Enabled perform {} lookUpSession ?_
  simp [lookUpSession, schedule, Enabled, perform, CommandResponseRouteRegistry.drawId,
    CommandResponseRouteRegistry.enter]

/-- Handed over at once, the response goes to the object that has the identifier. -/
theorem delivered_to_origin_run :
    ∃ (trace : List (Transition (RouteSystem deviceLimits) (RouteAction deviceLimits)))
        (s : RouteSystem deviceLimits),
      Run Step {} trace s ∧ s.delivered = [remoteCall] ∧
        (∃ request result, remoteCall.delivery.destination = request.origin.address ∧
          remoteCall.delivery.response.requestId = request.requestId ∧
          ResolvedBy (.respond 0 request result) request.origin.transportRoute 5
            (schedule perform {} lookUpSession) (lookUpSession.foldl perform {})) ∧
        (s.registry.resolve s.alive 1).1 = some 5 := by
  have hrun := run_lookUpSession.next
    (show Step _ (.send remoteCall) _ from ⟨List.mem_singleton.mpr rfl, rfl⟩)
  obtain ⟨hwork, -, -, -, hresolve⟩ := delivered_to_origin hrun (by decide)
  obtain ⟨-, request, result, -, -, hdestination, hid, hresolved⟩ :=
    hwork _ _ [] 0 remoteCall.delivery rfl rfl
  exact ⟨_, _, hrun, rfl, ⟨request, result, hdestination, hid, hresolved⟩, hresolve 1 5 rfl rfl⟩

/-- Between the look-up and the hand-over `Unregister` may return: the response goes to an
object that is not registered any more. -/
theorem not_owns_when_sent :
    ¬ ∀ (trace : List (Transition (RouteSystem deviceLimits) (RouteAction deviceLimits)))
        (s : RouteSystem deviceLimits),
      Run Step {} trace s → s.registerCalls < 2 ^ 32 - 1 →
        ∀ front τ rest, trace = front ++ τ :: rest →
          ∀ σ ∈ front, ∀ event request result delivery,
            σ.label = .respond event request result → τ.label = .send ⟨some event, delivery⟩ →
              τ.before.Owns request.origin.transportRoute delivery.route := by
  intro h
  have hunregistered := run_lookUpSession.next (show Step _ (.unregister 1) _ from ⟨trivial, rfl⟩)
  have hrun := hunregistered.next
    (show Step _ (.send remoteCall) _ from ⟨List.mem_singleton.mpr rfl, rfl⟩)
  have howns := h _ _ hrun (by decide) _ _ [] rfl _
    (List.mem_append_left _ (List.getLast_mem (List.cons_ne_nil _ _))) 0 remoteRequest (.ok [])
    remoteCall.delivery rfl rfl
  cases howns.2.1

end RouteSystem

end EspressioCommand
