import Mathlib.Data.List.Induction
import EspressioCommand.Library.Transitions
import EspressioCommand.Pending.Pool

/-!
# The pending-request pool is a bounded map

What the pool is for, without slots: a map from request identifiers to what is
remembered about them, with at most `capacity` entries.  `MapStep` says for each
call which answer the map allows and what it becomes; the order in which an
expiry reports its entries is the only thing it leaves open.

`perform_mapStep` matches one call of the pool by a step of the map, whatever
slots the pool happens to use, and `performAll_refines` follows for every sequence
of calls on a new pool.
-/

namespace EspressioCommand

open Library

variable {limits : EnvelopeLimits} {capacity : ℕ}

/-! ### Calls and answers -/

/-- The calls of the pool with their arguments. -/
inductive PendingCall (limits : EnvelopeLimits)
  | add (requestId : CommandRequestId) (request : PendingData limits)
  | complete (requestId : CommandRequestId) (finalResponse : Bool)
  | expire (nowMilliseconds : UInt64)
  | activeCount

/-- What a call answers; for `Expire` this is what it told the callback and the
number it returned. -/
inductive PendingAnswer (limits : EnvelopeLimits)
  | status (status : CommandPendingStatus)
  | expired (reports : List (CommandRequestId × PendingData limits)) (count : ℕ)
  | count (count : ℕ)

namespace CommandPendingRequestPool

/-- One call of the pool. -/
def perform (pool : CommandPendingRequestPool limits capacity) :
    PendingCall limits → PendingAnswer limits × CommandPendingRequestPool limits capacity
  | .add requestId request =>
      (.status (pool.add requestId request).1, (pool.add requestId request).2)
  | .complete requestId finalResponse =>
      (.status (pool.complete requestId finalResponse).1,
        (pool.complete requestId finalResponse).2)
  | .expire nowMilliseconds =>
      (.expired
          ((pool.expire nowMilliseconds).1.map fun entry => (entry.requestId, entry.data))
          (pool.expire nowMilliseconds).1.length,
        (pool.expire nowMilliseconds).2)
  | .activeCount => (.count pool.activeCount, pool)

/-- A sequence of calls: each with its answer, and the pool at the end. -/
def performAll (pool : CommandPendingRequestPool limits capacity)
    (calls : List (PendingCall limits)) :
    List (PendingCall limits × PendingAnswer limits) ×
      CommandPendingRequestPool limits capacity :=
  calls.foldl
    (fun done call =>
      (done.1 ++ [(call, (done.2.perform call).1)], (done.2.perform call).2))
    ([], pool)

end CommandPendingRequestPool

/-! ### The bounded map -/

/-- The contents of a map of pending requests. -/
abbrev PendingMap (limits : EnvelopeLimits) := PartialMap CommandRequestId (PendingData limits)

/-- `MapStep capacity m (call, answer) m'`: on the map `m` the call may answer so and
turn the map into `m'`. -/
def MapStep (capacity : ℕ) (m : PendingMap limits) :
    PendingCall limits × PendingAnswer limits → PendingMap limits → Prop
  | (.add requestId request, answer), m' =>
      (m requestId ≠ none ∧ answer = .status .duplicateRequestId ∧ m' = m) ∨
        (m requestId = none ∧ m.size = capacity ∧ answer = .status .capacityExhausted ∧
          m' = m) ∨
        (m requestId = none ∧ m.size < capacity ∧ answer = .status .success ∧
          m' = Function.update m requestId (some request))
  | (.complete requestId finalResponse, answer), m' =>
      (m requestId = none ∧ answer = .status .notFound ∧ m' = m) ∨
        ∃ request, m requestId = some request ∧ answer = .status .success ∧
          m' =
            if request.responseMode = .single ∨ finalResponse = true
            then Function.update m requestId none else m
  | (.expire nowMilliseconds, answer), m' =>
      ∃ reports, answer = .expired reports reports.length ∧
        (reports.map Prod.fst).Nodup ∧
        (∀ requestId request, (requestId, request) ∈ reports ↔
          m requestId = some request ∧ request.deadlineMilliseconds ≤ nowMilliseconds) ∧
        m' = fun requestId => (m requestId).filter fun request =>
          ¬ request.deadlineMilliseconds ≤ nowMilliseconds
  | (.activeCount, answer), m' => answer = .count m.size ∧ m' = m

/-! ### The refinement -/

namespace CommandPendingRequestPool

theorem size_contents (pool : CommandPendingRequestPool limits capacity) :
    pool.contents.size = pool.pendingIds.length :=
  PartialMap.size_eq_length pool.distinct pool.mem_pendingIds

/-- `ActiveCount` is the size of the map. -/
theorem activeCount_eq_size (pool : CommandPendingRequestPool limits capacity) :
    pool.activeCount = pool.contents.size := by
  rw [activeCount_eq_length, size_contents]

theorem not_mem_pendingIds {pool : CommandPendingRequestPool limits capacity}
    {requestId : CommandRequestId} (h : requestId ∉ pool.pendingIds) :
    pool.contents requestId = none := by
  by_contra hsome
  exact h ((pool.mem_pendingIds requestId).mpr hsome)

theorem add_mapStep (pool : CommandPendingRequestPool limits capacity)
    (requestId : CommandRequestId) (request : PendingData limits) :
    MapStep capacity pool.contents
      (.add requestId request, .status (pool.add requestId request).1)
      (pool.add requestId request).2.contents := by
  rcases pool.add_spec requestId request with
    ⟨hstatus, hpending, hsame, -⟩ | ⟨hstatus, habsent, hfull, hsame, -⟩ |
      ⟨hstatus, habsent, hroom, hupdate, -⟩
  · exact Or.inl ⟨(pool.mem_pendingIds requestId).mp hpending, by rw [hstatus], hsame⟩
  · refine Or.inr (Or.inl ⟨not_mem_pendingIds habsent, ?_, by rw [hstatus], hsame⟩)
    rw [size_contents, hfull]
  · refine Or.inr (Or.inr ⟨not_mem_pendingIds habsent, ?_, by rw [hstatus], hupdate⟩)
    rw [size_contents]
    exact hroom

theorem complete_mapStep (pool : CommandPendingRequestPool limits capacity)
    (requestId : CommandRequestId) (finalResponse : Bool) :
    MapStep capacity pool.contents
      (.complete requestId finalResponse, .status (pool.complete requestId finalResponse).1)
      (pool.complete requestId finalResponse).2.contents := by
  rcases pool.complete_spec requestId finalResponse with
    ⟨hstatus, habsent, hsame, -⟩ |
      ⟨request, hstatus, hrequest, ⟨hfinal, hupdate, -⟩ | ⟨hfinal, hsame, -⟩⟩
  · exact Or.inl ⟨not_mem_pendingIds habsent, by rw [hstatus], hsame⟩
  · refine Or.inr ⟨request, hrequest, by rw [hstatus], ?_⟩
    rw [if_pos hfinal, hupdate]
  · refine Or.inr ⟨request, hrequest, by rw [hstatus], ?_⟩
    rw [if_neg hfinal, hsame]

theorem expire_mapStep (pool : CommandPendingRequestPool limits capacity)
    (nowMilliseconds : UInt64) :
    MapStep capacity pool.contents
      (.expire nowMilliseconds,
        .expired
          ((pool.expire nowMilliseconds).1.map fun entry => (entry.requestId, entry.data))
          (pool.expire nowMilliseconds).1.length)
      (pool.expire nowMilliseconds).2.contents := by
  obtain ⟨hperm, hdata, hexpired, hafter⟩ := pool.expire_spec nowMilliseconds
  refine ⟨_, by rw [List.length_map], ?_, ?_, ?_⟩
  · rw [List.map_map]
    exact (List.nodup_append.mp (hperm.nodup_iff.mp pool.distinct)).1
  · intro requestId request
    constructor
    · intro hmem
      obtain ⟨entry, hentry, heq⟩ := List.mem_map.mp hmem
      obtain ⟨rfl, rfl⟩ := Prod.mk.inj heq
      have hcontents := hdata entry hentry
      exact ⟨hcontents, (hexpired _ _ hcontents).mp (List.mem_map_of_mem hentry)⟩
    · rintro ⟨hcontents, hdeadline⟩
      obtain ⟨entry, hentry, rfl⟩ :=
        List.mem_map.mp ((hexpired requestId request hcontents).mpr hdeadline)
      obtain rfl : entry.data = request :=
        Option.some.inj ((hdata entry hentry).symm.trans hcontents)
      exact List.mem_map.mpr ⟨entry, hentry, rfl⟩
  · -- what is left of the map is what did not expire, one identifier at a time
    ext requestId : 1
    rw [hafter requestId]
    cases hcontents : pool.contents requestId with
    | none => simp
    | some request =>
        have hiff := hexpired requestId request hcontents
        by_cases hdeadline : request.deadlineMilliseconds ≤ nowMilliseconds
        · rw [if_pos (hiff.mpr hdeadline), Option.filter_some, if_neg (by simpa using hdeadline)]
        · rw [if_neg fun hmem => hdeadline (hiff.mp hmem), Option.filter_some,
            if_pos (by simpa using hdeadline)]

/-- One call of the pool is a step of the map. -/
theorem perform_mapStep (pool : CommandPendingRequestPool limits capacity)
    (call : PendingCall limits) :
    MapStep capacity pool.contents (call, (pool.perform call).1)
      (pool.perform call).2.contents := by
  cases call with
  | add requestId request => exact pool.add_mapStep requestId request
  | complete requestId finalResponse => exact pool.complete_mapStep requestId finalResponse
  | expire nowMilliseconds => exact pool.expire_mapStep nowMilliseconds
  | activeCount => exact ⟨congrArg _ pool.activeCount_eq_size, rfl⟩

/-- The pool as a transition system: a step is a call with its answer. -/
def PoolStep (pool : CommandPendingRequestPool limits capacity)
    (label : PendingCall limits × PendingAnswer limits)
    (after : CommandPendingRequestPool limits capacity) : Prop :=
  pool.perform label.1 = (label.2, after)

/-- A sequence of calls is a run of that system. -/
theorem run_performAll (pool : CommandPendingRequestPool limits capacity)
    (calls : List (PendingCall limits)) :
    ∃ trace, Run PoolStep pool trace (pool.performAll calls).2 ∧
      trace.map Transition.label = (pool.performAll calls).1 := by
  induction calls using List.reverseRecOn with
  | nil => exact ⟨[], Run.start, rfl⟩
  | append_singleton calls call ih =>
      obtain ⟨trace, hrun, hlabels⟩ := ih
      have hsnoc : pool.performAll (calls ++ [call]) =
          ((pool.performAll calls).1 ++
              [(call, ((pool.performAll calls).2.perform call).1)],
            ((pool.performAll calls).2.perform call).2) := by
        simp [performAll, List.foldl_append]
      have hstep : PoolStep (pool.performAll calls).2
          (call, ((pool.performAll calls).2.perform call).1)
          ((pool.performAll calls).2.perform call).2 := rfl
      rw [hsnoc]
      exact ⟨_, Run.next hrun hstep, by simp [hlabels]⟩

/-- **The pool refines the bounded map.**  However many slots there are and
whatever the calls on a new pool, its answers are those of a run of the map, which
ends with the contents of the pool. -/
theorem performAll_refines (capacity : ℕ) (calls : List (PendingCall limits)) :
    ∃ (trace : List (Transition (PendingMap limits)
        (PendingCall limits × PendingAnswer limits))) (m : PendingMap limits),
      Run (MapStep capacity) PartialMap.empty trace m ∧
        trace.map Transition.label =
          ((initial : CommandPendingRequestPool limits capacity).performAll calls).1 ∧
        m =
          ((initial : CommandPendingRequestPool limits capacity).performAll calls).2.contents := by
  -- the map related to a pool is its contents; the calls and answers are the same
  obtain ⟨concrete, hrun, hlabels⟩ :=
    run_performAll (initial : CommandPendingRequestPool limits capacity) calls
  have hempty : (PartialMap.empty : PendingMap limits) =
      (initial : CommandPendingRequestPool limits capacity).contents := rfl
  have hmatch : ∀ (pool : CommandPendingRequestPool limits capacity)
      (label : PendingCall limits × PendingAnswer limits)
      (after : CommandPendingRequestPool limits capacity) (m : PendingMap limits),
      m = pool.contents → PoolStep pool label after →
        ∃ m', MapStep capacity m (id label) m' ∧ m' = after.contents := by
    rintro pool ⟨call, answer⟩ after _ rfl hstep
    have hmatched := pool.perform_mapStep call
    rw [show pool.perform call = (answer, after) from hstep] at hmatched
    exact ⟨_, hmatched, rfl⟩
  obtain ⟨trace, m, hrun', hm, hlabels'⟩ :=
    hrun.simulate (fun pool m => m = pool.contents) id hempty hmatch
  exact ⟨trace, m, hrun', hlabels'.trans hlabels, hm⟩

end CommandPendingRequestPool

end EspressioCommand
