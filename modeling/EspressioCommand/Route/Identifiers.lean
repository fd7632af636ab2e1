import EspressioCommand.Library.Transitions
import EspressioCommand.Route.RouteRegistry

/-!
# The identifiers that `Register` returns

`Register` takes its identifier from a counter of 32 bits, outside the lock, and
never looks at the table.  The calls for a route that is not null are numbered here,
from 1, in the order of their `fetch_add`: the call with number `n` returns `n`
modulo `2 ^ 32`.

So a run of any length is sound exactly as far as the numbers tell: no number may be
a multiple of `2 ^ 32`, and none may agree modulo `2 ^ 32` with the number under
which another live route stands in the table (`identifiersUsable_iff`).  The call
with number `2 ^ 32` returns 0, which marks a local origin
(`not_identifiersUsable_overflow`).
-/

namespace EspressioCommand

open Library

/-! ### The system -/

/-- The registry under calls from any threads. -/
structure IdentifierSystem where
  registry : CommandResponseRouteRegistry := {}
  alive : ℕ → Bool := fun _ => true
  /-- The calls of `Register` that have drawn an identifier. -/
  draws : ℕ := 0
  /-- Those of them that have not returned, with their numbers. -/
  drawn : List (ℕ × RouteEntry) := []
  /-- What has been entered into the table, with the number of the call. -/
  entered : List (ℕ × RouteEntry) := []

/-- One step. -/
inductive IdentifierAction
  /-- A call of `Register`, for a null route or up to its lock. -/
  | register (route : Option ℕ)
  /-- The rest of the call with this number, which then returns the identifier. -/
  | enter (number : ℕ) (entry : RouteEntry)
  | unregister (id : CommandTransportRouteId)
  | resolve (id : CommandTransportRouteId)
  | destroy (route : ℕ)

namespace IdentifierSystem

/-- What a step can be taken on. -/
def Enabled (s : IdentifierSystem) : IdentifierAction → Prop
  | .register (some route) => s.alive route = true
  | .enter number entry => (number, entry) ∈ s.drawn
  | _ => True

/-- The state after a step. -/
def perform (s : IdentifierSystem) : IdentifierAction → IdentifierSystem
  | .register none => s
  | .register (some route) =>
      { s with
        registry := s.registry.drawId.2
        draws := s.draws + 1
        drawn := s.drawn ++ [(s.draws + 1, ⟨s.registry.drawId.1, route⟩)] }
  | .enter number entry =>
      { s with
        registry := s.registry.enter entry.id entry.route
        drawn := s.drawn.erase (number, entry)
        entered := s.entered ++ [(number, entry)] }
  | .unregister id => { s with registry := s.registry.unregister id }
  | .resolve id => { s with registry := (s.registry.resolve s.alive id).2 }
  | .destroy route => { s with alive := Function.update s.alive route false }

/-- The step relation. -/
def Step (s : IdentifierSystem) (action : IdentifierAction) (after : IdentifierSystem) : Prop :=
  s.Enabled action ∧ after = s.perform action

/-! ### Identifiers and numbers -/

/-- The identifier is not that of local origins, and no other live route has it. -/
def Usable (s : IdentifierSystem) (returned : RouteEntry) : Prop :=
  returned.id ≠ 0 ∧
    ∀ entry ∈ s.registry.routes, s.alive entry.route = true → entry.route ≠ returned.route →
      entry.id ≠ returned.id

/-- Every call of `Register` returns a usable identifier. -/
def IdentifiersUsable (trace : List (Transition IdentifierSystem IdentifierAction)) : Prop :=
  ∀ τ ∈ trace, ∀ number entry, τ.label = .enter number entry → τ.after.Usable entry

/-- The number is no multiple of `2 ^ 32`, and no other live route of the table has been
entered under a number that agrees with it modulo `2 ^ 32`. -/
def Fresh (s : IdentifierSystem) (number route : ℕ) : Prop :=
  number % 2 ^ 32 ≠ 0 ∧
    ∀ earlier entry, (earlier, entry) ∈ s.entered → entry ∈ s.registry.routes →
      s.alive entry.route = true → entry.route ≠ route → earlier % 2 ^ 32 ≠ number % 2 ^ 32

/-- The counter and the identifiers follow the numbers. -/
structure NumberInvariant (s : IdentifierSystem) : Prop where
  counter : s.registry.nextId = UInt32.ofNat (s.draws + 1)
  numbers : ∀ p ∈ s.entered ++ s.drawn, p.2.id = UInt32.ofNat p.1
  bounds : ∀ p ∈ s.entered ++ s.drawn, 0 < p.1 ∧ p.1 ≤ s.draws
  distinct : ((s.entered ++ s.drawn).map Prod.fst).Nodup
  recorded : ∀ entry ∈ s.registry.routes, ∃ number, (number, entry) ∈ s.entered

theorem numberInvariant_initial : NumberInvariant {} where
  counter := rfl
  numbers := by simp
  bounds := by simp
  distinct := by simp
  recorded := by simp

/-- A table with fewer entries is still recorded. -/
theorem NumberInvariant.of_sublist {s : IdentifierSystem} (h : NumberInvariant s)
    {registry : CommandResponseRouteRegistry} (hnext : registry.nextId = s.registry.nextId)
    (hsublist : registry.routes.Sublist s.registry.routes) :
    NumberInvariant { s with registry := registry } where
  counter := hnext.trans h.counter
  numbers := h.numbers
  bounds := h.bounds
  distinct := h.distinct
  recorded := fun entry hentry => h.recorded entry (hsublist.subset hentry)

theorem NumberInvariant.register {s : IdentifierSystem} (h : NumberInvariant s) (route : ℕ) :
    NumberInvariant (s.perform (.register (some route))) := by
  refine ⟨?_, ?_, ?_, ?_, h.recorded⟩
  · show s.registry.nextId + 1 = UInt32.ofNat (s.draws + 1 + 1)
    rw [h.counter, UInt32.ofNat_add (s.draws + 1) 1]
    rfl
  · intro p hp
    rw [perform, ← List.append_assoc] at hp
    rcases List.mem_append.mp hp with hold | hnew
    · exact h.numbers p hold
    · obtain rfl := List.mem_singleton.mp hnew
      exact h.counter
  · intro p hp
    rw [perform, ← List.append_assoc] at hp
    rcases List.mem_append.mp hp with hold | hnew
    · obtain ⟨hpos, hle⟩ := h.bounds p hold
      exact ⟨hpos, Nat.le_succ_of_le hle⟩
    · obtain rfl := List.mem_singleton.mp hnew
      exact ⟨Nat.succ_pos _, Nat.le_refl _⟩
  · rw [perform, ← List.append_assoc, List.map_append, List.nodup_append]
    refine ⟨h.distinct, by simp, ?_⟩
    intro number hnumber other hother
    obtain ⟨p, hp, rfl⟩ := List.mem_map.mp hnumber
    obtain rfl : other = s.draws + 1 := by simpa using hother
    -- the numbers handed out so far are smaller
    have hle := (h.bounds p hp).2
    omega

theorem NumberInvariant.enter {s : IdentifierSystem} (h : NumberInvariant s) {number : ℕ}
    {entry : RouteEntry} (hdrawn : (number, entry) ∈ s.drawn) :
    NumberInvariant (s.perform (.enter number entry)) := by
  have hperm : (s.entered ++ [(number, entry)] ++ s.drawn.erase (number, entry)).Perm
      (s.entered ++ s.drawn) :=
    perm_move hdrawn
  refine ⟨h.counter, ?_, ?_, ?_, ?_⟩
  · intro p hp
    exact h.numbers p (hperm.subset hp)
  · intro p hp
    exact h.bounds p (hperm.subset hp)
  · exact (hperm.map Prod.fst).nodup_iff.mpr h.distinct
  · intro found hfound
    rcases List.mem_append.mp hfound with hold | hnew
    · obtain ⟨earlier, hearlier⟩ := h.recorded found hold
      exact ⟨earlier, List.mem_append_left _ hearlier⟩
    · obtain rfl := List.mem_singleton.mp hnew
      exact ⟨number, List.mem_append_right _ (List.mem_singleton_self _)⟩

theorem Step.numberInvariant {s after : IdentifierSystem} {action : IdentifierAction}
    (hstep : Step s action after) (h : NumberInvariant s) : NumberInvariant after := by
  obtain ⟨henabled, rfl⟩ := hstep
  cases action with
  | register route =>
      cases route with
      | none => exact h
      | some route => exact h.register route
  | enter number entry => exact h.enter henabled
  | unregister id =>
      exact h.of_sublist (s.registry.unregister_nextId id)
        (s.registry.unregister_routes_sublist id)
  | resolve id =>
      exact h.of_sublist (s.registry.resolve_nextId s.alive id)
        (s.registry.resolve_routes_sublist s.alive id)
  | destroy route => exact ⟨h.counter, h.numbers, h.bounds, h.distinct, h.recorded⟩

/-! ### Which identifiers are usable -/

theorem ofNat_eq_ofNat_iff (first second : ℕ) :
    UInt32.ofNat first = UInt32.ofNat second ↔ first % 2 ^ 32 = second % 2 ^ 32 := by
  rw [← UInt32.toNat_inj, UInt32.toNat_ofNat', UInt32.toNat_ofNat']

/-- A call returns a usable identifier exactly when its number is fresh. -/
theorem usable_iff_fresh {s : IdentifierSystem} (h : NumberInvariant s) {number : ℕ}
    {entry : RouteEntry} (hdrawn : (number, entry) ∈ s.drawn) :
    (s.perform (.enter number entry)).Usable entry ↔ s.Fresh number entry.route := by
  have hid : entry.id = UInt32.ofNat number :=
    h.numbers _ (List.mem_append_right _ hdrawn)
  have hearlierId : ∀ earlier found, (earlier, found) ∈ s.entered →
      found.id = UInt32.ofNat earlier :=
    fun earlier found hentered => h.numbers _ (List.mem_append_left _ hentered)
  unfold Usable Fresh
  refine and_congr ?_ ?_
  · have hzero := ofNat_eq_ofNat_iff number 0
    rw [Nat.zero_mod] at hzero
    rw [hid]
    exact not_congr hzero
  · constructor
    · intro husable earlier found hentered hfound halive hother
      have hne := husable found (List.mem_append_left _ hfound) halive hother
      rw [hid, hearlierId earlier found hentered] at hne
      exact fun hsame => hne ((ofNat_eq_ofNat_iff _ _).mpr hsame)
    · intro hfresh found hfound halive hother
      rcases List.mem_append.mp hfound with hold | hnew
      · obtain ⟨earlier, hentered⟩ := h.recorded found hold
        have hne := hfresh earlier found hentered hold halive hother
        rw [hid, hearlierId earlier found hentered]
        exact fun hsame => hne ((ofNat_eq_ofNat_iff _ _).mp hsame)
      · obtain rfl := List.mem_singleton.mp hnew
        exact absurd rfl hother

variable {trace : List (Transition IdentifierSystem IdentifierAction)} {s : IdentifierSystem}

theorem numberInvariant_of_run (hrun : Run Step {} trace s) :
    ∀ τ ∈ trace, Step τ.before τ.label τ.after ∧ NumberInvariant τ.before := by
  intro τ hτ
  obtain ⟨hstep, hbefore, -⟩ := hrun.transition_spec numberInvariant_initial
    (fun _ _ _ h hstep => hstep.numberInvariant h) τ hτ
  exact ⟨hstep, hbefore⟩

/-- **When the identifiers are usable.**  In a run of any length, every call of
`Register` returns a usable identifier if and only if every call has a fresh number
when it returns. -/
theorem identifiersUsable_iff (hrun : Run Step {} trace s) :
    IdentifiersUsable trace ↔ ∀ τ ∈ trace, ∀ number entry,
      τ.label = .enter number entry → τ.before.Fresh number entry.route := by
  unfold IdentifiersUsable
  refine forall₂_congr fun τ hτ => ?_
  obtain ⟨⟨henabled, hafter⟩, hinvariant⟩ := numberInvariant_of_run hrun τ hτ
  refine forall₂_congr fun number entry => ?_
  constructor
  · intro husable hlabel
    rw [hlabel] at henabled hafter
    rw [hafter] at husable
    exact (usable_iff_fresh hinvariant henabled).mp (husable hlabel)
  · intro hfresh hlabel
    rw [hlabel] at henabled hafter
    rw [hafter]
    exact (usable_iff_fresh hinvariant henabled).mpr (hfresh hlabel)

/-- Two live routes, entered in the opposite order of their numbers: both identifiers are
usable. -/
theorem identifiersUsable_iff_first :
    IdentifiersUsable
      (schedule perform {} [.register (some 5), .register (some 6), .enter 2 ⟨2, 6⟩,
        .enter 1 ⟨1, 5⟩, .resolve 1]) := by
  have hrun : Run Step {} _ _ :=
    @Run.of_schedule _ _ Enabled perform {}
      [.register (some 5), .register (some 6), .enter 2 ⟨2, 6⟩, .enter 1 ⟨1, 5⟩, .resolve 1]
      (by simp [schedule, Enabled, perform, CommandResponseRouteRegistry.drawId])
  refine (identifiersUsable_iff hrun).mpr ?_
  intro τ hτ number entry hlabel
  simp only [schedule, List.mem_cons, List.not_mem_nil, or_false] at hτ
  rcases hτ with rfl | rfl | rfl | rfl | rfl
  · cases hlabel
  · cases hlabel
  · cases hlabel
    exact ⟨by decide, by simp [perform]⟩
  · cases hlabel
    refine ⟨by decide, ?_⟩
    intro earlier found hentered _ _ _
    -- the other route stands there under the number 2
    obtain ⟨rfl, rfl⟩ : earlier = 2 ∧ found = ⟨2, 6⟩ := by simpa [perform] using hentered
    decide
  · cases hlabel

/-- As long as fewer than `2 ^ 32` calls have drawn an identifier, all are usable. -/
theorem identifiersUsable_of_draws_lt (hrun : Run Step {} trace s)
    (hdraws : ∀ τ ∈ trace, τ.before.draws < 2 ^ 32) : IdentifiersUsable trace := by
  intro τ hτ number entry hlabel
  obtain ⟨⟨henabled, hafter⟩, hinvariant⟩ := numberInvariant_of_run hrun τ hτ
  have hbound := hdraws τ hτ
  rw [hlabel] at henabled hafter
  rw [hafter, usable_iff_fresh hinvariant henabled]
  have hmem : (number, entry) ∈ τ.before.entered ++ τ.before.drawn :=
    List.mem_append_right _ henabled
  obtain ⟨hpos, hle⟩ := hinvariant.bounds _ hmem
  simp only at hpos hle
  refine ⟨by omega, ?_⟩
  intro earlier found hentered hfound halive hother hsame
  have hearlier := (hinvariant.bounds _ (List.mem_append_left _ hentered)).2
  simp only at hearlier
  obtain rfl : earlier = number := by omega
  -- a number is not both in the table's history and still to be entered
  have hdistinct := hinvariant.distinct
  rw [List.map_append] at hdistinct
  exact List.disjoint_of_nodup_append hdistinct (List.mem_map.mpr ⟨_, hentered, rfl⟩)
    (List.mem_map.mpr ⟨_, henabled, rfl⟩)

/-! ### The overflow -/

/-- A route that registers and unregisters over and over. -/
theorem exists_run_draws (count : ℕ) :
    ∃ trace s, Run Step {} trace s ∧ s.draws = count ∧ s.drawn = [] ∧ s.alive 0 = true := by
  induction count with
  | zero => exact ⟨[], {}, Run.start, rfl, rfl, rfl⟩
  | succ count ih =>
      obtain ⟨trace, s, hrun, hdraws, hdrawn, halive⟩ := ih
      have h₁ := hrun.next (show Step s (.register (some 0)) _ from ⟨halive, rfl⟩)
      have h₂ := h₁.next
        (show Step _ (.enter (s.draws + 1) ⟨s.registry.nextId, 0⟩) _ from
          ⟨by simp [Enabled, perform, CommandResponseRouteRegistry.drawId], rfl⟩)
      have h₃ := h₂.next (show Step _ (.unregister s.registry.nextId) _ from ⟨trivial, rfl⟩)
      refine ⟨_, _, h₃, by simp [perform, hdraws], ?_, halive⟩
      simp [perform, hdrawn, CommandResponseRouteRegistry.drawId]

/-- The call with number `2 ^ 32` returns 0. -/
theorem not_identifiersUsable_overflow :
    ∃ trace s, Run Step {} trace s ∧
      (∃ τ ∈ trace, τ.label = .enter (2 ^ 32) ⟨0, 0⟩) ∧ ¬ IdentifiersUsable trace := by
  obtain ⟨trace, s, hrun, hdraws, hdrawn, halive⟩ := exists_run_draws (2 ^ 32 - 1)
  have hinvariant : NumberInvariant s :=
    hrun.invariant numberInvariant_initial fun _ _ _ h hstep => hstep.numberInvariant h
  -- the counter has come round
  have hnext : s.registry.nextId = 0 := by
    rw [hinvariant.counter, hdraws]
    rfl
  have h₁ := hrun.next (show Step s (.register (some 0)) _ from ⟨halive, rfl⟩)
  have h₂ := h₁.next
    (show Step _ (.enter (2 ^ 32) ⟨0, 0⟩) _ from
      ⟨by simp [Enabled, perform, CommandResponseRouteRegistry.drawId, hdraws, hnext], rfl⟩)
  refine ⟨_, _, h₂, ⟨_, List.mem_append_right _ (List.mem_singleton_self _), rfl⟩, ?_⟩
  intro husable
  exact (husable _ (List.mem_append_right _ (List.mem_singleton_self _)) _ _ rfl).1 rfl

end IdentifierSystem

end EspressioCommand
