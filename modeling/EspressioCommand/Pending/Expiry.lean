import EspressioCommand.Library.Transitions
import EspressioCommand.Pending.Pool

/-!
# Responses against timeouts

Any number of threads share one pool.  Each call of `Add` and `Complete` is one
critical section; a call of `Expire` is one critical section that takes a snapshot,
and then a loop that runs the callback on its items outside the lock.  Between two
of these any other thread may run, and the callback itself may make calls, further
ones of `Expire` included.

`PoolSystem` holds the pool and the calls of `Expire` under way, as a list of
frames with the thread each belongs to; the frame of a thread nearest to the
front is the one it executes.  A `History` records what has happened:
registrations are numbered in the order of the successful calls of `Add`, and
`owner` tells for an identifier the last registration made under it.

The invariant is two conservation laws and a law of identity.

* Every registration is in exactly one place: completed, moved into a snapshot, or
  pending (`Invariant.registrations`).
* Every snapshotted item is in exactly one place: delivered, in a frame, or dropped
  with a frame that an exception has left (`Invariant.items`).
* What is pending under an identifier is what its owner registered
  (`Invariant.owned`).
-/

namespace EspressioCommand

open Library

variable {ι : Type*} {limits : EnvelopeLimits} {capacity : ℕ}

/-! ### The system -/

/-- An item of a snapshot, with the number of the registration it comes from. -/
structure ExpiredItem (limits : EnvelopeLimits) where
  registration : ℕ
  request : CommandPendingRequest limits

/-- A call of `Expire` behind its critical section: the items the loop has not
reached yet, and whether it is inside the callback. -/
structure ExpireFrame (limits : EnvelopeLimits) where
  call : ℕ
  remaining : List (ExpiredItem limits)
  inCallback : Bool

/-- What has happened to the registrations so far. -/
structure History (limits : EnvelopeLimits) where
  /-- What the successful calls of `Add` registered, in order. -/
  registered : List (CommandRequestId × PendingData limits) := []
  /-- The last registration under an identifier. -/
  owner : CommandRequestId → ℕ := fun _ => 0
  /-- The registrations that a call of `Complete` removed. -/
  completed : List ℕ := []
  /-- The registrations moved into a snapshot, with the call of `Expire`. -/
  snapshotted : List (ℕ × ℕ) := []
  /-- The items the callback was run on, with the call of `Expire`. -/
  delivered : List (ExpiredItem limits × ℕ) := []
  /-- The registrations whose snapshot an exception of the callback dropped. -/
  dropped : List (ℕ × ℕ) := []
  /-- How many calls of `Expire` took a snapshot with items. -/
  calls : ℕ := 0
  /-- Those that have returned. -/
  returned : List ℕ := []
  /-- Those that an exception of the callback has left. -/
  unwound : List ℕ := []

/-- The shared pool, the calls of `Expire` under way, and the history. -/
structure PoolSystem (ι : Type*) (limits : EnvelopeLimits) (capacity : ℕ) where
  pool : CommandPendingRequestPool limits capacity
  frames : List (ι × ExpireFrame limits) := []
  history : History limits := {}

/-- What a thread does next. -/
inductive PoolAction (ι : Type*) (limits : EnvelopeLimits)
  | add (thread : ι) (requestId : CommandRequestId) (request : PendingData limits)
  | complete (thread : ι) (requestId : CommandRequestId) (finalResponse : Bool)
  | expire (thread : ι) (nowMilliseconds : UInt64)
  | enterCallback (thread : ι)
  | leaveCallback (thread : ι)
  | returnExpire (thread : ι)
  | unwind (thread : ι)

namespace History

/-- A call of `Add` succeeded. -/
def register (history : History limits) (requestId : CommandRequestId)
    (request : PendingData limits) : History limits :=
  { history with
    registered := history.registered ++ [(requestId, request)]
    owner := Function.update history.owner requestId history.registered.length }

/-- A call of `Complete` removed what is pending under the identifier. -/
def complete (history : History limits) (requestId : CommandRequestId) : History limits :=
  { history with completed := history.completed ++ [history.owner requestId] }

/-- The items of a snapshot. -/
def items (history : History limits) (expired : List (CommandPendingRequest limits)) :
    List (ExpiredItem limits) :=
  expired.map fun request => ⟨history.owner request.requestId, request⟩

/-- A call of `Expire` took a snapshot. -/
def snapshot (history : History limits) (expired : List (CommandPendingRequest limits)) :
    History limits :=
  { history with
    snapshotted := history.snapshotted ++
      (history.items expired).map fun item => (item.registration, history.calls)
    calls := history.calls + 1 }

end History

namespace PoolSystem

/-- No call has been made yet. -/
def initial : PoolSystem ι limits capacity where
  pool := .initial

/-- The thread executes `frame`: no later frame of its own is in front of it. -/
def Top (frames : List (ι × ExpireFrame limits)) (thread : ι)
    (before : List (ι × ExpireFrame limits)) (frame : ExpireFrame limits)
    (after : List (ι × ExpireFrame limits)) : Prop :=
  frames = before ++ (thread, frame) :: after ∧ ∀ other ∈ before, other.1 ≠ thread

/-- The thread is not inside the pool's own code: it has no call of `Expire` under
way, or is in the callback of the latest one. -/
def Outside (s : PoolSystem ι limits capacity) (thread : ι) : Prop :=
  ∀ before frame after, Top s.frames thread before frame after → frame.inCallback = true

theorem outside_of_frames_nil {s : PoolSystem ι limits capacity} (h : s.frames = [])
    (thread : ι) : s.Outside thread := by
  intro before frame after htop
  have hframes := htop.1
  rw [h] at hframes
  simp at hframes

/-- The critical section of a call of `Add`. -/
def add (s : PoolSystem ι limits capacity) (requestId : CommandRequestId)
    (request : PendingData limits) : PoolSystem ι limits capacity :=
  { s with
    pool := (s.pool.add requestId request).2
    history :=
      if (s.pool.add requestId request).1 = .success then s.history.register requestId request
      else s.history }

/-- The critical section of a call of `Complete`.  It has removed a registration when
it succeeds and leaves nothing under the identifier. -/
def complete (s : PoolSystem ι limits capacity) (requestId : CommandRequestId)
    (finalResponse : Bool) : PoolSystem ι limits capacity :=
  { s with
    pool := (s.pool.complete requestId finalResponse).2
    history :=
      if (s.pool.complete requestId finalResponse).1 = .success ∧
          (s.pool.complete requestId finalResponse).2.contents requestId = none
      then s.history.complete requestId
      else s.history }

theorem add_of_success {s : PoolSystem ι limits capacity} {requestId : CommandRequestId}
    {request : PendingData limits} (h : (s.pool.add requestId request).1 = .success) :
    s.add requestId request =
      { s with
        pool := (s.pool.add requestId request).2
        history := s.history.register requestId request } := by
  rw [add, if_pos h]

theorem add_of_ne_success {s : PoolSystem ι limits capacity} {requestId : CommandRequestId}
    {request : PendingData limits} (h : (s.pool.add requestId request).1 ≠ .success) :
    s.add requestId request = { s with pool := (s.pool.add requestId request).2 } := by
  rw [add, if_neg h]

theorem complete_of_removed {s : PoolSystem ι limits capacity} {requestId : CommandRequestId}
    {finalResponse : Bool} (hstatus : (s.pool.complete requestId finalResponse).1 = .success)
    (hnone : (s.pool.complete requestId finalResponse).2.contents requestId = none) :
    s.complete requestId finalResponse =
      { s with
        pool := (s.pool.complete requestId finalResponse).2
        history := s.history.complete requestId } := by
  rw [complete, if_pos ⟨hstatus, hnone⟩]

theorem complete_of_kept {s : PoolSystem ι limits capacity} {requestId : CommandRequestId}
    {finalResponse : Bool}
    (h : ¬ ((s.pool.complete requestId finalResponse).1 = .success ∧
      (s.pool.complete requestId finalResponse).2.contents requestId = none)) :
    s.complete requestId finalResponse =
      { s with pool := (s.pool.complete requestId finalResponse).2 } := by
  rw [complete, if_neg h]

/-- The critical section of a call of `Expire`, which returns at once when nothing
has expired. -/
def expire (s : PoolSystem ι limits capacity) (thread : ι) (nowMilliseconds : UInt64) :
    PoolSystem ι limits capacity :=
  if (s.pool.expire nowMilliseconds).1 = [] then
    -- `count == 0`: no snapshot is made and no callback runs
    { s with pool := (s.pool.expire nowMilliseconds).2 }
  else
    { pool := (s.pool.expire nowMilliseconds).2
      frames :=
        (thread,
          { call := s.history.calls
            remaining := s.history.items (s.pool.expire nowMilliseconds).1
            inCallback := false }) :: s.frames
      history := s.history.snapshot (s.pool.expire nowMilliseconds).1 }

/-- What the threads may do. -/
inductive Step : PoolSystem ι limits capacity → PoolAction ι limits →
    PoolSystem ι limits capacity → Prop
  | add {s : PoolSystem ι limits capacity} {thread : ι} {requestId : CommandRequestId}
      {request : PendingData limits} (houtside : s.Outside thread) :
      Step s (.add thread requestId request) (s.add requestId request)
  | complete {s : PoolSystem ι limits capacity} {thread : ι} {requestId : CommandRequestId}
      {finalResponse : Bool} (houtside : s.Outside thread) :
      Step s (.complete thread requestId finalResponse) (s.complete requestId finalResponse)
  | expire {s : PoolSystem ι limits capacity} {thread : ι} {nowMilliseconds : UInt64}
      (houtside : s.Outside thread) :
      Step s (.expire thread nowMilliseconds) (s.expire thread nowMilliseconds)
  /-- The loop takes the next item and calls the callback. -/
  | enterCallback {s : PoolSystem ι limits capacity} {thread : ι}
      {before after : List (ι × ExpireFrame limits)} {call : ℕ} {item : ExpiredItem limits}
      {remaining : List (ExpiredItem limits)}
      (htop : Top s.frames thread before ⟨call, item :: remaining, false⟩ after) :
      Step s (.enterCallback thread)
        { s with
          frames := before ++ (thread, ⟨call, remaining, true⟩) :: after
          history := { s.history with delivered := s.history.delivered ++ [(item, call)] } }
  | leaveCallback {s : PoolSystem ι limits capacity} {thread : ι}
      {before after : List (ι × ExpireFrame limits)} {call : ℕ}
      {remaining : List (ExpiredItem limits)}
      (htop : Top s.frames thread before ⟨call, remaining, true⟩ after) :
      Step s (.leaveCallback thread)
        { s with frames := before ++ (thread, ⟨call, remaining, false⟩) :: after }
  /-- The loop is done. -/
  | returnExpire {s : PoolSystem ι limits capacity} {thread : ι}
      {before after : List (ι × ExpireFrame limits)} {call : ℕ}
      (htop : Top s.frames thread before ⟨call, [], false⟩ after) :
      Step s (.returnExpire thread)
        { s with
          frames := before ++ after
          history := { s.history with returned := s.history.returned ++ [call] } }
  /-- The callback throws, and the exception leaves `Expire`. -/
  | unwind {s : PoolSystem ι limits capacity} {thread : ι}
      {before after : List (ι × ExpireFrame limits)} {call : ℕ}
      {remaining : List (ExpiredItem limits)}
      (htop : Top s.frames thread before ⟨call, remaining, true⟩ after) :
      Step s (.unwind thread)
        { s with
          frames := before ++ after
          history :=
            { s.history with
              unwound := s.history.unwound ++ [call]
              dropped := s.history.dropped ++
                remaining.map fun item => (item.registration, call) } }

/-! ### The invariant -/

/-- The item is what was registered under its number. -/
def Faithful (registered : List (CommandRequestId × PendingData limits))
    (item : ExpiredItem limits) : Prop :=
  registered[item.registration]? = some (item.request.requestId, item.request.data)

/-- The items of the frames that no callback has been run on, with their calls. -/
def framesItems (frames : List (ι × ExpireFrame limits)) : List (ℕ × ℕ) :=
  frames.flatMap fun frame =>
    frame.2.remaining.map fun item => (item.registration, frame.2.call)

/-- The calls of `Expire` under way. -/
def framesCalls (frames : List (ι × ExpireFrame limits)) : List ℕ :=
  frames.map fun frame => frame.2.call

structure Invariant (s : PoolSystem ι limits capacity) : Prop where
  registrations :
    (s.history.completed ++ s.history.snapshotted.map Prod.fst ++
      s.pool.pendingIds.map s.history.owner).Perm (List.range s.history.registered.length)
  owned : ∀ requestId request, s.pool.contents requestId = some request →
    s.history.registered[s.history.owner requestId]? = some (requestId, request)
  items :
    s.history.snapshotted.Perm
      (s.history.delivered.map (fun d => (d.1.registration, d.2)) ++ framesItems s.frames ++
        s.history.dropped)
  faithfulFrames : ∀ frame ∈ s.frames, ∀ item ∈ frame.2.remaining,
    Faithful s.history.registered item
  faithfulDelivered : ∀ d ∈ s.history.delivered, Faithful s.history.registered d.1
  calls :
    (framesCalls s.frames ++ s.history.returned ++ s.history.unwound).Perm
      (List.range s.history.calls)
  dropped : ∀ p ∈ s.history.dropped, p.2 ∈ s.history.unwound

theorem invariant_initial : Invariant (initial : PoolSystem ι limits capacity) where
  registrations := .refl _
  owned := by
    intro requestId request h
    cases h
  items := .refl _
  faithfulFrames := by simp [initial]
  faithfulDelivered := by simp [initial]
  calls := .refl _
  dropped := by simp [initial]

theorem Faithful.mono {registered : List (CommandRequestId × PendingData limits)}
    {item : ExpiredItem limits} (h : Faithful registered item)
    (added : List (CommandRequestId × PendingData limits)) :
    Faithful (registered ++ added) item := by
  have hlt := (List.getElem?_eq_some_iff.mp h).1
  rw [Faithful, List.getElem?_append_left hlt]
  exact h

/-- A pool with the same contents, wherever its slots are, keeps the invariant. -/
theorem Invariant.of_same_contents {s : PoolSystem ι limits capacity} (h : Invariant s)
    {pool : CommandPendingRequestPool limits capacity}
    (hcontents : pool.contents = s.pool.contents)
    (hids : s.pool.pendingIds.Perm pool.pendingIds) : Invariant { s with pool := pool } where
  registrations := ((hids.symm.map _).append_left _).trans h.registrations
  owned := by
    intro requestId request hrequest
    exact h.owned requestId request (hcontents ▸ hrequest)
  items := h.items
  faithfulFrames := h.faithfulFrames
  faithfulDelivered := h.faithfulDelivered
  calls := h.calls
  dropped := h.dropped

theorem Invariant.add {s : PoolSystem ι limits capacity} (h : Invariant s)
    (requestId : CommandRequestId) (request : PendingData limits) :
    Invariant (s.add requestId request) := by
  rcases s.pool.add_spec requestId request with
    ⟨hstatus, -, hsame, hids⟩ | ⟨hstatus, -, -, hsame, hids⟩ |
      ⟨hstatus, habsent, -, hupdate, hperm⟩
  · rw [add_of_ne_success (by simp [hstatus])]
    exact h.of_same_contents hsame (hids ▸ .refl _)
  · rw [add_of_ne_success (by simp [hstatus])]
    exact h.of_same_contents hsame (hids ▸ .refl _)
  · rw [add_of_success hstatus]
    refine ⟨?_, ?_, h.items, ?_, ?_, h.calls, h.dropped⟩
    · -- the new registration is pending, and the others are where they were
      have howner : s.pool.pendingIds.map
          (Function.update s.history.owner requestId s.history.registered.length) =
            s.pool.pendingIds.map s.history.owner := by
        refine List.map_congr_left fun other hother => ?_
        rw [Function.update_of_ne]
        rintro rfl
        exact habsent hother
      have hpending := hperm.map
        (Function.update s.history.owner requestId s.history.registered.length)
      rw [List.map_cons, Function.update_self, howner] at hpending
      simp only [History.register, List.length_append, List.length_singleton, List.range_succ]
      refine (hpending.append_left _).trans ?_
      exact List.perm_middle.trans
        ((h.registrations.cons _).trans (List.perm_append_singleton _ _).symm)
    · intro other found hfound
      simp only [hupdate] at hfound
      rcases PartialMap.update_some_eq_some_iff.mp hfound with ⟨rfl, rfl⟩ | ⟨hother, hold⟩
      · simp [History.register]
      · have howned := h.owned other found hold
        have hlt := (List.getElem?_eq_some_iff.mp howned).1
        simp only [History.register, Function.update_of_ne hother]
        rw [List.getElem?_append_left hlt]
        exact howned
    · exact fun frame hframe item hitem => (h.faithfulFrames frame hframe item hitem).mono _
    · exact fun d hd => (h.faithfulDelivered d hd).mono _

theorem Invariant.complete {s : PoolSystem ι limits capacity} (h : Invariant s)
    (requestId : CommandRequestId) (finalResponse : Bool) :
    Invariant (s.complete requestId finalResponse) := by
  rcases s.pool.complete_spec requestId finalResponse with
    ⟨hstatus, -, hsame, hids⟩ |
      ⟨request, hstatus, hrequest, ⟨-, hupdate, hperm⟩ | ⟨-, hsame, hids⟩⟩
  · rw [complete_of_kept (by simp [hstatus])]
    exact h.of_same_contents hsame (hids ▸ .refl _)
  · have hnone : (s.pool.complete requestId finalResponse).2.contents requestId = none := by
      rw [hupdate, Function.update_self]
    rw [complete_of_removed hstatus hnone]
    refine ⟨?_, ?_, h.items, h.faithfulFrames, h.faithfulDelivered, h.calls, h.dropped⟩
    · -- the owner moves from the pending ones to the completed ones
      have hpending := hperm.map s.history.owner
      have hregistrations := h.registrations
      rw [List.perm_iff_count] at hpending hregistrations ⊢
      intro n
      have hcount := hpending n
      have htotal := hregistrations n
      simp only [List.map_cons, List.count_cons, List.count_append, History.complete,
        List.count_nil] at hcount htotal ⊢
      omega
    · intro other found hfound
      simp only [hupdate] at hfound
      exact h.owned other found (PartialMap.update_none_eq_some_iff.mp hfound).2
  · have hsome : (s.pool.complete requestId finalResponse).2.contents requestId ≠ none := by
      rw [hsame, hrequest]
      exact Option.some_ne_none _
    rw [complete_of_kept fun h => hsome h.2]
    exact h.of_same_contents hsame (hids ▸ .refl _)

theorem Invariant.expire {s : PoolSystem ι limits capacity} (h : Invariant s) (thread : ι)
    (nowMilliseconds : UInt64) : Invariant (s.expire thread nowMilliseconds) := by
  obtain ⟨hperm, hdata, -, hafter⟩ := s.pool.expire_spec nowMilliseconds
  unfold PoolSystem.expire
  split_ifs with hempty
  · rw [hempty] at hperm hafter
    refine h.of_same_contents ?_ hperm
    funext requestId
    rw [hafter requestId, if_neg (by simp)]
  · have hregistration :
        (s.history.items (s.pool.expire nowMilliseconds).1).map
            (fun item => (item.registration, s.history.calls)) =
          (s.pool.expire nowMilliseconds).1.map
            (fun request => (s.history.owner request.requestId, s.history.calls)) := by
      simp [History.items]
    refine ⟨?_, ?_, ?_, ?_, h.faithfulDelivered, ?_, h.dropped⟩
    · -- the owners of the snapshot move from the pending ones to the snapshotted ones
      have hpending := hperm.map s.history.owner
      have hregistrations := h.registrations
      have hfst : ((s.pool.expire nowMilliseconds).1.map
            (fun request => (s.history.owner request.requestId, s.history.calls))).map
              Prod.fst =
          ((s.pool.expire nowMilliseconds).1.map fun request => request.requestId).map
            s.history.owner := by
        simp
      rw [List.perm_iff_count] at hpending hregistrations ⊢
      intro n
      have hcount := hpending n
      have htotal := hregistrations n
      simp only [History.snapshot, hregistration, List.map_append, hfst, List.count_append]
        at hcount htotal ⊢
      omega
    · intro other found hfound
      rw [hafter other] at hfound
      split_ifs at hfound with hmem
      exact h.owned other found hfound
    · have hitems := h.items
      rw [List.perm_iff_count] at hitems ⊢
      intro p
      have hcount := hitems p
      simp only [History.snapshot, framesItems, List.flatMap_cons, List.count_append]
        at hcount ⊢
      omega
    · intro frame hframe item hitem
      rcases List.mem_cons.mp hframe with rfl | hold
      · obtain ⟨request, hrequest, rfl⟩ := List.mem_map.mp hitem
        exact h.owned _ _ (hdata request hrequest)
      · exact h.faithfulFrames frame hold item hitem
    · simp only [History.snapshot, framesCalls, List.map_cons, List.range_succ,
        List.cons_append]
      exact (h.calls.cons _).trans (List.perm_append_singleton _ _).symm

/-! The steps of the loop only move items and calls around. -/

theorem count_framesItems_top {frames before after : List (ι × ExpireFrame limits)} {thread : ι}
    {frame : ExpireFrame limits} (htop : Top frames thread before frame after) (p : ℕ × ℕ) :
    (framesItems frames).count p =
      (framesItems (before ++ after)).count p +
        (frame.remaining.map fun item => (item.registration, frame.call)).count p := by
  rw [htop.1]
  simp only [framesItems, List.flatMap_append, List.flatMap_cons, List.count_append]
  omega

theorem count_framesCalls_top {frames before after : List (ι × ExpireFrame limits)} {thread : ι}
    {frame : ExpireFrame limits} (htop : Top frames thread before frame after) (call : ℕ) :
    (framesCalls frames).count call =
      (framesCalls (before ++ after)).count call + [frame.call].count call := by
  rw [htop.1]
  simp only [framesCalls, List.map_append, List.map_cons, List.count_append, List.count_cons,
    List.count_nil]
  omega

theorem framesCalls_replace {frames before after : List (ι × ExpireFrame limits)} {thread : ι}
    {frame : ExpireFrame limits} (htop : Top frames thread before frame after)
    (other : ExpireFrame limits) (hcall : other.call = frame.call) :
    framesCalls (before ++ (thread, other) :: after) = framesCalls frames := by
  rw [htop.1, framesCalls, framesCalls, List.map_append, List.map_append, List.map_cons,
    List.map_cons, hcall]

/-- What holds of the items of all frames still does without the frame in execution. -/
theorem forall_frames_remove {P : ExpiredItem limits → Prop}
    {frames before after : List (ι × ExpireFrame limits)} {thread : ι}
    {frame : ExpireFrame limits} (htop : Top frames thread before frame after)
    (hframes : ∀ frame ∈ frames, ∀ item ∈ frame.2.remaining, P item) :
    ∀ frame ∈ before ++ after, ∀ item ∈ frame.2.remaining, P item := by
  intro other hother
  apply hframes other
  rw [htop.1]
  rcases List.mem_append.mp hother with hbefore | hafter
  · exact List.mem_append_left _ hbefore
  · exact List.mem_append_right _ (List.mem_cons_of_mem _ hafter)

/-- It does when the frame in execution keeps some of its items. -/
theorem forall_frames_replace {P : ExpiredItem limits → Prop}
    {frames before after : List (ι × ExpireFrame limits)} {thread : ι}
    {frame other : ExpireFrame limits} (htop : Top frames thread before frame after)
    (hframes : ∀ frame ∈ frames, ∀ item ∈ frame.2.remaining, P item)
    (hother : ∀ item ∈ other.remaining, item ∈ frame.remaining) :
    ∀ frame ∈ before ++ (thread, other) :: after, ∀ item ∈ frame.2.remaining, P item := by
  intro found hfound item hitem
  rcases List.mem_append.mp hfound with hbefore | hrest
  · exact forall_frames_remove htop hframes found (List.mem_append_left _ hbefore) item hitem
  · rcases List.mem_cons.mp hrest with rfl | hafter
    · apply hframes (thread, frame) _ item (hother item hitem)
      rw [htop.1]
      exact List.mem_append_right _ List.mem_cons_self
    · exact forall_frames_remove htop hframes found (List.mem_append_right _ hafter) item hitem

theorem top_replace {before after : List (ι × ExpireFrame limits)} {thread : ι}
    {frame : ExpireFrame limits} {frames : List (ι × ExpireFrame limits)}
    (htop : Top frames thread before frame after) (other : ExpireFrame limits) :
    Top (before ++ (thread, other) :: after) thread before other after :=
  ⟨rfl, htop.2⟩

theorem Invariant.enterCallback {s : PoolSystem ι limits capacity} (h : Invariant s)
    {thread : ι} {before after : List (ι × ExpireFrame limits)} {call : ℕ}
    {item : ExpiredItem limits} {remaining : List (ExpiredItem limits)}
    (htop : Top s.frames thread before ⟨call, item :: remaining, false⟩ after) :
    Invariant
      { s with
        frames := before ++ (thread, ⟨call, remaining, true⟩) :: after
        history := { s.history with delivered := s.history.delivered ++ [(item, call)] } } := by
  refine ⟨h.registrations, h.owned, ?_, ?_, ?_, ?_, h.dropped⟩
  · have hitems := h.items
    rw [List.perm_iff_count] at hitems ⊢
    intro p
    have hcount := hitems p
    have hold := count_framesItems_top htop p
    have hnew := count_framesItems_top (top_replace htop ⟨call, remaining, true⟩) p
    simp only [List.map_append, List.map_cons, List.map_nil, List.count_append,
      List.count_cons, List.count_nil] at hcount hold hnew ⊢
    omega
  · apply forall_frames_replace htop h.faithfulFrames
    intro found hfound
    exact List.mem_cons_of_mem _ hfound
  · intro d hd
    rcases List.mem_append.mp hd with hold | hnew
    · exact h.faithfulDelivered d hold
    · obtain rfl := List.mem_singleton.mp hnew
      refine h.faithfulFrames (thread, ⟨call, item :: remaining, false⟩) ?_ item ?_
      · simp [htop.1]
      · exact List.mem_cons_self
  · simpa only [framesCalls_replace htop ⟨call, remaining, true⟩ rfl] using h.calls

theorem Invariant.leaveCallback {s : PoolSystem ι limits capacity} (h : Invariant s)
    {thread : ι} {before after : List (ι × ExpireFrame limits)} {call : ℕ}
    {remaining : List (ExpiredItem limits)}
    (htop : Top s.frames thread before ⟨call, remaining, true⟩ after) :
    Invariant { s with frames := before ++ (thread, ⟨call, remaining, false⟩) :: after } := by
  have hitems : framesItems (before ++ (thread, ⟨call, remaining, false⟩) :: after) =
      framesItems s.frames := by
    rw [htop.1]
    simp [framesItems]
  refine ⟨h.registrations, h.owned, ?_, ?_, h.faithfulDelivered, ?_, h.dropped⟩
  · simpa only [hitems] using h.items
  · exact forall_frames_replace htop h.faithfulFrames fun _ hfound => hfound
  · simpa only [framesCalls_replace htop ⟨call, remaining, false⟩ rfl] using h.calls

theorem Invariant.returnExpire {s : PoolSystem ι limits capacity} (h : Invariant s)
    {thread : ι} {before after : List (ι × ExpireFrame limits)} {call : ℕ}
    (htop : Top s.frames thread before ⟨call, [], false⟩ after) :
    Invariant
      { s with
        frames := before ++ after
        history := { s.history with returned := s.history.returned ++ [call] } } := by
  refine ⟨h.registrations, h.owned, ?_, ?_, h.faithfulDelivered, ?_, h.dropped⟩
  · have hitems := h.items
    rw [List.perm_iff_count] at hitems ⊢
    intro p
    have hcount := hitems p
    have hold := count_framesItems_top htop p
    simp only [List.map_nil, List.count_append, List.count_nil] at hcount hold ⊢
    omega
  · exact forall_frames_remove htop h.faithfulFrames
  · have hcalls := h.calls
    rw [List.perm_iff_count] at hcalls ⊢
    intro c
    have hcount := hcalls c
    have hold := count_framesCalls_top htop c
    simp only [List.count_append] at hcount hold ⊢
    omega

theorem Invariant.unwind {s : PoolSystem ι limits capacity} (h : Invariant s) {thread : ι}
    {before after : List (ι × ExpireFrame limits)} {call : ℕ}
    {remaining : List (ExpiredItem limits)}
    (htop : Top s.frames thread before ⟨call, remaining, true⟩ after) :
    Invariant
      { s with
        frames := before ++ after
        history :=
          { s.history with
            unwound := s.history.unwound ++ [call]
            dropped := s.history.dropped ++
              remaining.map fun item => (item.registration, call) } } := by
  refine ⟨h.registrations, h.owned, ?_, ?_, h.faithfulDelivered, ?_, ?_⟩
  · have hitems := h.items
    rw [List.perm_iff_count] at hitems ⊢
    intro p
    have hcount := hitems p
    have hold := count_framesItems_top htop p
    simp only [List.count_append] at hcount hold ⊢
    omega
  · exact forall_frames_remove htop h.faithfulFrames
  · have hcalls := h.calls
    rw [List.perm_iff_count] at hcalls ⊢
    intro c
    have hcount := hcalls c
    have hold := count_framesCalls_top htop c
    simp only [List.count_append] at hcount hold ⊢
    omega
  · intro p hp
    rcases List.mem_append.mp hp with hold | hnew
    · exact List.mem_append_left _ (h.dropped p hold)
    · obtain ⟨item, -, rfl⟩ := List.mem_map.mp hnew
      exact List.mem_append_right _ (by simp)

/-- Every step keeps the invariant. -/
theorem Step.invariant {s after : PoolSystem ι limits capacity} {action : PoolAction ι limits}
    (hstep : Step s action after) (h : Invariant s) : Invariant after := by
  cases hstep with
  | add => exact h.add _ _
  | complete => exact h.complete _ _
  | expire => exact h.expire _ _
  | enterCallback htop => exact h.enterCallback htop
  | leaveCallback htop => exact h.leaveCallback htop
  | returnExpire htop => exact h.returnExpire htop
  | unwind htop => exact h.unwind htop

/-! ### Exclusivity -/

/-- The law of responses and timeouts, in one state. -/
structure Exclusive (s : PoolSystem ι limits capacity) : Prop where
  /-- A registration ends in one removing response or one expiry callback, if at all. -/
  once : ∀ n, s.history.completed.count n +
    (s.history.delivered.map fun d => d.1.registration).count n ≤ 1
  /-- A callback is run on what was registered. -/
  faithful : ∀ d ∈ s.history.delivered, Faithful s.history.registered d.1
  /-- No registration is lost. -/
  conserved : s.history.registered.length =
    s.history.completed.length + s.history.snapshotted.length + s.pool.activeCount
  /-- A call of `Expire` that has returned has run the callback on its snapshot. -/
  delivered : ∀ n call, (n, call) ∈ s.history.snapshotted → call ∈ s.history.returned →
    (s.history.delivered.map fun d => d.1.registration).count n = 1

theorem Invariant.exclusive {s : PoolSystem ι limits capacity} (h : Invariant s) :
    Exclusive s := by
  have hnodup := h.registrations.nodup_iff.mpr List.nodup_range
  -- a delivered item is a snapshotted one
  have hdelivered : ∀ n, (s.history.delivered.map fun d => d.1.registration).count n ≤
      (s.history.snapshotted.map Prod.fst).count n := by
    intro n
    have hcount := (h.items.map Prod.fst).count_eq n
    simp only [List.map_append, List.map_map, List.count_append] at hcount
    have hsame : (s.history.delivered.map (Prod.fst ∘ fun d => (d.1.registration, d.2))) =
        s.history.delivered.map fun d => d.1.registration := rfl
    rw [hsame] at hcount
    omega
  have honce : ∀ n, s.history.completed.count n +
      (s.history.snapshotted.map Prod.fst).count n ≤ 1 := by
    intro n
    have hle := List.nodup_iff_count_le_one.mp hnodup n
    simp only [List.count_append] at hle
    omega
  refine ⟨fun n => ?_, h.faithfulDelivered, ?_, ?_⟩
  · have hle := hdelivered n
    have hsum := honce n
    omega
  · have hlength := h.registrations.length_eq
    simp only [List.length_append, List.length_map, List.length_range] at hlength
    rw [CommandPendingRequestPool.activeCount_eq_length]
    omega
  · intro n call hmem hreturned
    have hcalls := h.calls.nodup_iff.mpr List.nodup_range
    -- the item is in no frame and was not dropped, for its call has returned
    have hplaces := h.items.subset hmem
    simp only [List.mem_append] at hplaces
    have hin : (n, call) ∈ s.history.delivered.map fun d => (d.1.registration, d.2) := by
      rcases hplaces with (hdone | hframe) | hdropped
      · exact hdone
      · obtain ⟨frame, hunderWay, hitem⟩ := List.mem_flatMap.mp hframe
        obtain ⟨item, -, heq⟩ := List.mem_map.mp hitem
        obtain ⟨-, rfl⟩ := Prod.mk.inj heq
        have hunder : frame.2.call ∈ framesCalls s.frames := List.mem_map_of_mem hunderWay
        rw [List.append_assoc] at hcalls
        exact absurd (List.mem_append_left _ hreturned)
          ((List.disjoint_of_nodup_append hcalls) hunder)
      · have hunwound := h.dropped _ hdropped
        exact absurd hunwound
          ((List.disjoint_of_nodup_append hcalls) (List.mem_append_right _ hreturned))
    have hpos : 0 < (s.history.delivered.map fun d => d.1.registration).count n := by
      rw [List.count_pos_iff]
      obtain ⟨d, hd, heq⟩ := List.mem_map.mp hin
      exact List.mem_map.mpr ⟨d, hd, congrArg Prod.fst heq⟩
    have hle := hdelivered n
    have hsum := honce n
    omega

/-- **Response-versus-timeout exclusivity.**  In every state that any number of
threads reach by any interleaving of their calls, each registration has ended in
at most one removing response or callback with its own data, none is lost, and
every returned call of `Expire` has delivered its snapshot exactly once. -/
theorem exclusive_of_run
    {trace : List (Transition (PoolSystem ι limits capacity) (PoolAction ι limits))}
    {s : PoolSystem ι limits capacity} (hrun : Run Step initial trace s) : Exclusive s :=
  (hrun.invariant invariant_initial fun _ _ _ h hstep => hstep.invariant h).exclusive

/-- A request expires, and its callback registers it anew. -/
theorem exclusive_of_run_readd :
    ∃ s : PoolSystem Unit {} 1,
      s.history.registered.length = 2 ∧ s.history.delivered.length = 1 ∧ Exclusive s := by
  have houtside : (initial : PoolSystem Unit {} 1).Outside () := outside_of_frames_nil rfl _
  let first : PoolSystem Unit {} 1 := initial.add 7 ⟨{}, 100, .single⟩
  let second : PoolSystem Unit {} 1 := first.expire () 100
  have hadded : Run Step initial _ first := Run.next .start (.add houtside)
  have hexpired : Run Step initial _ second :=
    Run.next hadded (.expire (outside_of_frames_nil rfl _))
  have htop : Top second.frames () [] ⟨0, [⟨0, ⟨true, 7, {}, 100, .single, 0⟩⟩], false⟩ [] :=
    ⟨rfl, by simp⟩
  have hentered := Run.next hexpired (.enterCallback htop)
  have hagain := Run.next hentered
    (show Step _ (.add () 7 ⟨{}, 200, .single⟩) _ from .add (by
      rintro before frame after ⟨hframes, -⟩
      rcases before with _ | ⟨head, before⟩
      · obtain ⟨heq, -⟩ := List.cons.inj hframes
        exact (Prod.mk.inj heq).2 ▸ rfl
      · obtain ⟨-, hrest⟩ := List.cons.inj hframes
        simp at hrest))
  exact ⟨_, rfl, rfl, exclusive_of_run hagain⟩

end PoolSystem

end EspressioCommand
