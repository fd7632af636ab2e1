import Mathlib.Data.List.Nodup
import EspressioCommand.Envelope

/-!
# `CommandResponseRouteRegistry`

The table of response routes.  An entry holds its route weakly: the route object is
given here by its number, and whether it still exists is a question put to the
world, `alive`.  `Resolve` drops the expired entries it passes on its way and stops
at the first live one with the identifier.

`resolveEntries_fst` says what is found and `mem_resolveEntries_of_alive` that no live
entry is dropped.
-/

namespace EspressioCommand

variable {limits : EnvelopeLimits}

/-- `CommandResponseRouteRegistry::Entry`; `route` is the number of the object. -/
structure RouteEntry where
  id : CommandTransportRouteId
  route : ℕ
deriving DecidableEq, Repr

/-- `CommandResponseRouteRegistry`. -/
structure CommandResponseRouteRegistry where
  routes : List RouteEntry := []
  nextId : CommandTransportRouteId := 1

/-- A response handed to a route object: a call of `SendCommandResponse`. -/
structure Delivery (limits : EnvelopeLimits) where
  route : ℕ
  destination : CommandOriginAddress limits
  response : CommandResponseEnvelope limits
deriving DecidableEq

namespace CommandResponseRouteRegistry

/-- The first half of `Register`, for a route that is not null: `fetch_add`. -/
def drawId (registry : CommandResponseRouteRegistry) :
    CommandTransportRouteId × CommandResponseRouteRegistry :=
  (registry.nextId, { registry with nextId := registry.nextId + 1 })

/-- The second half of `Register`, under the lock: `push_back`. -/
def enter (registry : CommandResponseRouteRegistry) (id : CommandTransportRouteId)
    (route : ℕ) : CommandResponseRouteRegistry :=
  { registry with routes := registry.routes ++ [⟨id, route⟩] }

/-- `Unregister`: the first entry with the identifier goes. -/
def unregister (registry : CommandResponseRouteRegistry) (id : CommandTransportRouteId) :
    CommandResponseRouteRegistry :=
  if id = 0 then registry
  else { registry with routes := registry.routes.eraseP fun entry => entry.id == id }

/-- The loop of `Resolve`: the route found, and the entries left. -/
def resolveEntries (alive : ℕ → Bool) (id : CommandTransportRouteId) :
    List RouteEntry → Option ℕ × List RouteEntry
  | [] => (none, [])
  | entry :: rest =>
      -- an expired entry is erased, whatever its identifier
      if !alive entry.route then resolveEntries alive id rest
      else if entry.id = id then (some entry.route, entry :: rest)
      else
        let found := resolveEntries alive id rest
        (found.1, entry :: found.2)

/-- `Resolve`. -/
def resolve (registry : CommandResponseRouteRegistry) (alive : ℕ → Bool)
    (id : CommandTransportRouteId) : Option ℕ × CommandResponseRouteRegistry :=
  if id = 0 then (none, registry)
  else
    let found := resolveEntries alive id registry.routes
    (found.1, { registry with routes := found.2 })

/-- `Route`, up to the call of `SendCommandResponse` that it ends in, if any. -/
def route (registry : CommandResponseRouteRegistry) (alive : ℕ → Bool)
    (origin : CommandOrigin limits) (response : CommandResponseEnvelope limits) :
    Option (Delivery limits) × CommandResponseRouteRegistry :=
  if origin.isLocal then (none, registry)
  else
    let found := registry.resolve alive origin.transportRoute
    (found.1.map fun object => ⟨object, origin.address, response⟩, found.2)

/-! ### What `Unregister` removes -/

theorem unregister_routes_sublist (registry : CommandResponseRouteRegistry)
    (id : CommandTransportRouteId) :
    (registry.unregister id).routes.Sublist registry.routes := by
  unfold unregister
  split_ifs
  · exact List.Sublist.refl _
  · exact List.eraseP_sublist

@[simp] theorem unregister_nextId (registry : CommandResponseRouteRegistry)
    (id : CommandTransportRouteId) : (registry.unregister id).nextId = registry.nextId := by
  unfold unregister
  split_ifs <;> rfl

/-- Entries with another identifier stay. -/
theorem mem_unregister_routes_of_ne {registry : CommandResponseRouteRegistry}
    {id : CommandTransportRouteId} {entry : RouteEntry} (hmem : entry ∈ registry.routes)
    (hne : entry.id ≠ id) : entry ∈ (registry.unregister id).routes := by
  unfold unregister
  split_ifs
  · exact hmem
  · exact (List.mem_eraseP_of_neg (by simpa using hne)).mpr hmem

/-- When no identifier occurs twice, none is left of the one unregistered. -/
theorem id_ne_of_mem_unregister {registry : CommandResponseRouteRegistry}
    (hdistinct : (registry.routes.map RouteEntry.id).Nodup) {id : CommandTransportRouteId}
    (hid : id ≠ 0) {entry : RouteEntry} (hmem : entry ∈ (registry.unregister id).routes) :
    entry.id ≠ id := by
  intro hsame
  have hold := (registry.unregister_routes_sublist id).subset hmem
  rw [unregister, if_neg hid] at hmem
  -- two entries with the identifier would be needed
  obtain ⟨found, before, after, hbefore, hfound, hsplit, herased⟩ :=
    List.exists_of_eraseP (p := fun entry : RouteEntry => entry.id == id) hold
      (by simpa using hsame)
  simp only [herased] at hmem
  rw [hsplit] at hdistinct
  simp only [List.map_append, List.map_cons] at hdistinct
  have hfoundId : found.id = id := by simpa using hfound
  rw [List.nodup_append] at hdistinct
  rcases List.mem_append.mp hmem with hin | hin
  · exact hbefore entry hin (by simpa using hsame)
  · have htail := (List.nodup_cons.mp hdistinct.2.1).1
    exact htail (List.mem_map.mpr ⟨entry, hin, hsame.trans hfoundId.symm⟩)

/-! ### What `Resolve` finds and what it drops -/

/-- `Resolve` finds the first live entry with the identifier. -/
theorem resolveEntries_fst (alive : ℕ → Bool) (id : CommandTransportRouteId)
    (entries : List RouteEntry) :
    (resolveEntries alive id entries).1 =
      (entries.find? fun entry => alive entry.route && entry.id == id).map RouteEntry.route := by
  induction entries with
  | nil => rfl
  | cons entry rest ih =>
      rw [resolveEntries, List.find?_cons]
      cases halive : alive entry.route with
      | false => simpa using ih
      | true =>
          by_cases hid : entry.id = id
          · simp [hid]
          · have hne : (entry.id == id) = false := by simpa using hid
            simpa [hid, hne] using ih

theorem resolveEntries_sublist (alive : ℕ → Bool) (id : CommandTransportRouteId)
    (entries : List RouteEntry) : (resolveEntries alive id entries).2.Sublist entries := by
  induction entries with
  | nil => exact List.Sublist.refl _
  | cons entry rest ih =>
      rw [resolveEntries]
      split_ifs
      · exact ih.cons entry
      · exact List.Sublist.refl _
      · exact ih.cons_cons entry

/-- Only expired entries are dropped. -/
theorem mem_resolveEntries_of_alive {alive : ℕ → Bool} {id : CommandTransportRouteId}
    {entries : List RouteEntry} {entry : RouteEntry} (hmem : entry ∈ entries)
    (halive : alive entry.route = true) : entry ∈ (resolveEntries alive id entries).2 := by
  induction entries with
  | nil => cases hmem
  | cons head rest ih =>
      rw [resolveEntries]
      rcases List.mem_cons.mp hmem with rfl | hrest
      · simp only [halive, Bool.not_true, Bool.false_eq_true, if_false]
        split_ifs <;> simp
      · split_ifs
        · exact ih hrest
        · exact hmem
        · exact List.mem_cons_of_mem _ (ih hrest)

/-- What is found is a live entry of the table with the identifier. -/
theorem exists_of_resolve_eq_some {registry : CommandResponseRouteRegistry} {alive : ℕ → Bool}
    {id : CommandTransportRouteId} {object : ℕ}
    (h : (registry.resolve alive id).1 = some object) :
    (⟨id, object⟩ : RouteEntry) ∈ registry.routes ∧ alive object = true := by
  unfold resolve at h
  split_ifs at h
  simp only [resolveEntries_fst] at h
  obtain ⟨entry, hfind, rfl⟩ := Option.map_eq_some_iff.mp h
  have hmem := List.mem_of_find?_eq_some hfind
  have hboth := List.find?_some hfind
  simp only [Bool.and_eq_true, beq_iff_eq] at hboth
  obtain ⟨halive, rfl⟩ := hboth
  exact ⟨hmem, halive⟩

/-- When no identifier occurs twice, a live entry is what its identifier resolves
to. -/
theorem resolve_eq_some {registry : CommandResponseRouteRegistry} {alive : ℕ → Bool}
    (hdistinct : (registry.routes.map RouteEntry.id).Nodup) {entry : RouteEntry}
    (hmem : entry ∈ registry.routes) (hid : entry.id ≠ 0)
    (halive : alive entry.route = true) :
    (registry.resolve alive entry.id).1 = some entry.route := by
  rw [resolve, if_neg hid]
  simp only [resolveEntries_fst]
  obtain ⟨found, hfound⟩ : ∃ found, registry.routes.find?
      (fun other => alive other.route && other.id == entry.id) = some found := by
    rw [← Option.isSome_iff_exists, List.find?_isSome]
    exact ⟨entry, hmem, by simp [halive]⟩
  have hboth := List.find?_some hfound
  simp only [Bool.and_eq_true, beq_iff_eq] at hboth
  -- the search stops at the first live entry, and there is only one to stop at
  have hsame : found = entry :=
    List.inj_on_of_nodup_map hdistinct (List.mem_of_find?_eq_some hfound) hmem hboth.2
  rw [hfound, hsame, Option.map_some]

theorem resolve_routes_sublist (registry : CommandResponseRouteRegistry) (alive : ℕ → Bool)
    (id : CommandTransportRouteId) :
    (registry.resolve alive id).2.routes.Sublist registry.routes := by
  unfold resolve
  split_ifs
  · exact List.Sublist.refl _
  · exact resolveEntries_sublist alive id registry.routes

theorem mem_resolve_routes_of_alive {registry : CommandResponseRouteRegistry}
    {alive : ℕ → Bool} {id : CommandTransportRouteId} {entry : RouteEntry}
    (hmem : entry ∈ registry.routes) (halive : alive entry.route = true) :
    entry ∈ (registry.resolve alive id).2.routes := by
  unfold resolve
  split_ifs
  · exact hmem
  · exact mem_resolveEntries_of_alive hmem halive

@[simp] theorem resolve_nextId (registry : CommandResponseRouteRegistry) (alive : ℕ → Bool)
    (id : CommandTransportRouteId) : (registry.resolve alive id).2.nextId = registry.nextId := by
  unfold resolve
  split_ifs <;> rfl

/-- Routing changes the table as resolving does, or not at all. -/
theorem route_snd (registry : CommandResponseRouteRegistry) (alive : ℕ → Bool)
    (origin : CommandOrigin limits) (response : CommandResponseEnvelope limits) :
    (registry.route alive origin response).2 =
      if origin.isLocal then registry else (registry.resolve alive origin.transportRoute).2 := by
  unfold route
  split_ifs <;> rfl

/-- What is routed goes to the resolved route, at the origin's address. -/
theorem route_eq_some {registry : CommandResponseRouteRegistry} {alive : ℕ → Bool}
    {origin : CommandOrigin limits} {response : CommandResponseEnvelope limits}
    {delivery : Delivery limits}
    (h : (registry.route alive origin response).1 = some delivery) :
    origin.isLocal = false ∧ delivery.destination = origin.address ∧
      delivery.response = response ∧
      (registry.resolve alive origin.transportRoute).1 = some delivery.route := by
  unfold route at h
  split_ifs at h with hlocal
  obtain ⟨object, hobject, rfl⟩ := Option.map_eq_some_iff.mp h
  exact ⟨by simpa using hlocal, rfl, rfl, hobject⟩

end CommandResponseRouteRegistry

end EspressioCommand
