import EspressioCommand.Pending.Expiry

/-!
# The count of responses

A slot counts the responses to the request it holds in 16 bits.  The slot is cleared
and reused, other requests come and go in between, and a request with a stream of
responses stays as long as its deadline allows.

`responses` counts in the trace of a run what the slot should count: the successful calls of
`Complete` that met a registration.  `Counted` says that the slots, and the snapshots taken
of them, hold these numbers modulo `2 ^ 16`; a callback is told the number itself exactly
when it is below.
-/

namespace EspressioCommand

open Library

variable {ι : Type*} {limits : EnvelopeLimits} {capacity : ℕ}

/-! ### Where a pending slot comes from -/

namespace CommandPendingRequestPool

open CommandPendingRequest

/-- The allocation adds no pending slot. -/
theorem mem_of_mem_ensureEntries {entries : List (CommandPendingRequest limits)}
    {entry : CommandPendingRequest limits} (h : entry ∈ ensureEntries capacity entries)
    (hactive : entry.active = true) : entry ∈ entries := by
  unfold ensureEntries at h
  split_ifs at h
  · obtain rfl := List.eq_of_mem_replicate h
    cases hactive
  · exact h

/-- A slot pending after `Add` was pending before, or is the one that was filled. -/
theorem mem_entries_add {pool : CommandPendingRequestPool limits capacity}
    {requestId : CommandRequestId} {request : PendingData limits}
    {entry : CommandPendingRequest limits}
    (h : entry ∈ (pool.add requestId request).2.entries) (hactive : entry.active = true) :
    entry ∈ pool.entries ∨
      (pool.add requestId request).1 = .success ∧ entry.requestId = requestId ∧
        entry.responseCount = 0 := by
  simp only [add, addEntries] at h ⊢
  cases hslot : findSlot requestId 0 none (ensureEntries capacity pool.entries) with
  | error status =>
      simp only [hslot] at h
      exact Or.inl (mem_of_mem_ensureEntries h hactive)
  | ok slot =>
      simp only [hslot] at h
      rcases List.mem_or_eq_of_mem_set h with hold | rfl
      · exact Or.inl (mem_of_mem_ensureEntries hold hactive)
      · exact Or.inr ⟨rfl, rfl, rfl⟩

/-- A slot pending after `Complete` was so before and belongs to another request, or is the
one the response was counted in. -/
theorem mem_entries_complete {pool : CommandPendingRequestPool limits capacity}
    {requestId : CommandRequestId} {finalResponse : Bool}
    {entry : CommandPendingRequest limits}
    (h : entry ∈ (pool.complete requestId finalResponse).2.entries)
    (hactive : entry.active = true) :
    (entry ∈ pool.entries ∧ entry.requestId ≠ requestId) ∨
      ∃ old ∈ pool.entries, old.isPending requestId = true ∧
        entry = { old with responseCount := old.responseCount + 1 } := by
  have hdistinct := pool.distinct
  have hentries : (pool.complete requestId finalResponse).2.entries =
      (completeEntries requestId finalResponse pool.entries).2 := rfl
  rw [hentries] at h
  rcases completeEntries_eq requestId finalResponse pool.entries with
    ⟨habsent, heq⟩ | ⟨before, found, rest, hsplit, hbefore, hpending, heq⟩
  · rw [heq] at h
    refine Or.inl ⟨h, ?_⟩
    intro hsame
    exact habsent (mem_pendingIdsOf.mpr ⟨entry, h, isPending_iff.mpr ⟨hactive, hsame⟩⟩)
  · obtain ⟨hfound, rfl⟩ := isPending_iff.mp hpending
    rw [hsplit, pendingIdsOf_append, pendingIdsOf_cons, if_pos hfound] at hdistinct
    rw [heq] at h
    rcases List.mem_append.mp h with hfront | hback
    · refine Or.inl ⟨hsplit ▸ List.mem_append_left _ hfront, ?_⟩
      intro hsame
      exact hbefore (mem_pendingIdsOf.mpr ⟨entry, hfront, isPending_iff.mpr ⟨hactive, hsame⟩⟩)
    · rcases List.mem_cons.mp hback with rfl | hrest
      · -- the slot is the one under the identifier, and it was not cleared
        unfold completedEntry at hactive ⊢
        split_ifs at hactive ⊢
        exact Or.inr ⟨found, by rw [hsplit]; simp, hpending, rfl⟩
      · refine Or.inl ⟨by rw [hsplit]; simp [hrest], ?_⟩
        intro hsame
        have hnodup := (List.nodup_cons.mp (List.nodup_append.mp hdistinct).2.1).1
        exact hnodup (mem_pendingIdsOf.mpr
          ⟨entry, hrest, isPending_iff.mpr ⟨hactive, hsame⟩⟩)

/-- A slot pending after `Expire` was pending before. -/
theorem mem_entries_expire {pool : CommandPendingRequestPool limits capacity}
    {nowMilliseconds : UInt64} {entry : CommandPendingRequest limits}
    (h : entry ∈ (pool.expire nowMilliseconds).2.entries) (hactive : entry.active = true) :
    entry ∈ pool.entries := by
  have hentries : (pool.expire nowMilliseconds).2.entries =
      (expireEntries nowMilliseconds pool.entries).2 := rfl
  rw [hentries, expireEntries_eq] at h
  obtain ⟨old, hold, rfl⟩ := List.mem_map.mp h
  unfold clearExpired at hactive ⊢
  split_ifs at hactive ⊢
  exact hold

/-- A snapshot is made of pending slots. -/
theorem mem_snapshot_expire {pool : CommandPendingRequestPool limits capacity}
    {nowMilliseconds : UInt64} {entry : CommandPendingRequest limits}
    (h : entry ∈ (pool.expire nowMilliseconds).1) :
    entry ∈ pool.entries ∧ entry.active = true := by
  have hexpired : (pool.expire nowMilliseconds).1 =
      (expireEntries nowMilliseconds pool.entries).1 := rfl
  rw [hexpired, expireEntries_eq] at h
  obtain ⟨hold, hdue⟩ := List.mem_filter.mp h
  exact ⟨hold, (isExpired_iff.mp hdue).1⟩

/-- What is added was not pending before. -/
theorem not_mem_pendingIds_of_add_success {pool : CommandPendingRequestPool limits capacity}
    {requestId : CommandRequestId} {request : PendingData limits}
    (h : (pool.add requestId request).1 = .success) : requestId ∉ pool.pendingIds := by
  rcases pool.add_spec requestId request with
    ⟨hstatus, -⟩ | ⟨hstatus, -⟩ | ⟨-, habsent, -⟩
  · rw [hstatus] at h
    cases h
  · rw [hstatus] at h
    cases h
  · exact habsent

/-- A response is accepted exactly while a request is pending under its identifier. -/
theorem complete_success_iff (pool : CommandPendingRequestPool limits capacity)
    (requestId : CommandRequestId) (finalResponse : Bool) :
    (pool.complete requestId finalResponse).1 = .success ↔ requestId ∈ pool.pendingIds := by
  rcases pool.complete_spec requestId finalResponse with
    ⟨hstatus, habsent, -⟩ | ⟨request, hstatus, hrequest, -⟩
  · rw [hstatus]
    exact iff_of_false (by decide) habsent
  · rw [hstatus, mem_pendingIds, hrequest]
    exact iff_of_true rfl (Option.some_ne_none _)

theorem mem_pendingIds_of_mem {pool : CommandPendingRequestPool limits capacity}
    {entry : CommandPendingRequest limits} (h : entry ∈ pool.entries)
    (hactive : entry.active = true) : entry.requestId ∈ pool.pendingIds :=
  mem_pendingIdsOf.mpr ⟨entry, h, isPending_iff.mpr ⟨hactive, rfl⟩⟩

end CommandPendingRequestPool

namespace PoolSystem

open CommandPendingRequestPool

/-! ### Responses in a trace -/

/-- What the threads have done. -/
abbrev PoolTrace (ι : Type*) (limits : EnvelopeLimits) (capacity : ℕ) :=
  List (Transition (PoolSystem ι limits capacity) (PoolAction ι limits))

/-- The transition is a call of `Complete` that succeeds for the registration. -/
def responds (registration : ℕ)
    (τ : Transition (PoolSystem ι limits capacity) (PoolAction ι limits)) : Bool :=
  match τ.label with
  | .complete _ requestId finalResponse =>
      (τ.before.pool.complete requestId finalResponse).1 = .success ∧
        τ.before.history.owner requestId = registration
  | _ => false

/-- How many calls of `Complete` have succeeded for the registration. -/
def responses (trace : PoolTrace ι limits capacity) (registration : ℕ) : ℕ :=
  trace.countP (responds registration)

theorem responses_snoc (trace : PoolTrace ι limits capacity)
    (τ : Transition (PoolSystem ι limits capacity) (PoolAction ι limits)) (registration : ℕ) :
    responses (trace ++ [τ]) registration =
      responses trace registration + if responds registration τ then 1 else 0 := by
  rw [responses, List.countP_append, List.countP_singleton]
  rfl

/-! ### The invariant -/

/-- The item is in a snapshot: the callback has been run on it, or has yet to be. -/
def Taken (s : PoolSystem ι limits capacity) (item : ExpiredItem limits) : Prop :=
  (∃ frame ∈ s.frames, item ∈ frame.2.remaining) ∨ ∃ call, (item, call) ∈ s.history.delivered

theorem Taken.of_frame {s : PoolSystem ι limits capacity} {frame : ι × ExpireFrame limits}
    (hframe : frame ∈ s.frames) {item : ExpiredItem limits} (hitem : item ∈ frame.2.remaining) :
    s.Taken item :=
  Or.inl ⟨frame, hframe, hitem⟩

theorem Taken.of_delivered {s : PoolSystem ι limits capacity} {item : ExpiredItem limits}
    {call : ℕ} (h : (item, call) ∈ s.history.delivered) : s.Taken item :=
  Or.inr ⟨call, h⟩

/-- Slots and snapshots hold the given counts, modulo `2 ^ 16`. -/
structure Counted (counts : ℕ → ℕ) (s : PoolSystem ι limits capacity) : Prop where
  pending : ∀ entry ∈ s.pool.entries, entry.active = true →
    entry.responseCount = UInt16.ofNat (counts (s.history.owner entry.requestId))
  taken : ∀ item, s.Taken item →
    item.request.responseCount = UInt16.ofNat (counts item.registration)
  /-- Nothing has been counted for the registrations to come. -/
  unused : ∀ n, s.history.registered.length ≤ n → counts n = 0

/-- A registration that is pending is in no snapshot. -/
theorem Invariant.owner_ne_of_taken {s : PoolSystem ι limits capacity} (h : Invariant s)
    {requestId : CommandRequestId} (hpending : requestId ∈ s.pool.pendingIds)
    {item : ExpiredItem limits} (htaken : s.Taken item) :
    s.history.owner requestId ≠ item.registration := by
  have hnodup := h.registrations.nodup_iff.mpr List.nodup_range
  have hsnapshotted : item.registration ∈ s.history.snapshotted.map Prod.fst := by
    obtain ⟨call, hplace⟩ : ∃ call, (item.registration, call) ∈
        s.history.delivered.map (fun d => (d.1.registration, d.2)) ++ framesItems s.frames := by
      rcases htaken with ⟨frame, hframe, hitem⟩ | ⟨call, hdelivered⟩
      · refine ⟨frame.2.call, List.mem_append_right _ ?_⟩
        exact List.mem_flatMap.mpr ⟨frame, hframe, List.mem_map_of_mem hitem⟩
      · exact ⟨call, List.mem_append_left _ (List.mem_map_of_mem hdelivered)⟩
    have hmem := h.items.symm.subset (List.mem_append_left _ hplace)
    exact List.mem_map_of_mem hmem
  intro hsame
  have howner : s.history.owner requestId ∈ s.pool.pendingIds.map s.history.owner :=
    List.mem_map_of_mem hpending
  rw [hsame] at howner
  exact (List.disjoint_of_nodup_append hnodup)
    (List.mem_append_right _ hsnapshotted) howner

/-- Two pending requests are two registrations. -/
theorem Invariant.owner_injective {s : PoolSystem ι limits capacity} (h : Invariant s)
    {first second : CommandRequestId} (hfirst : first ∈ s.pool.pendingIds)
    (hsecond : second ∈ s.pool.pendingIds)
    (hsame : s.history.owner first = s.history.owner second) : first = second := by
  have hnodup := h.registrations.nodup_iff.mpr List.nodup_range
  exact List.inj_on_of_nodup_map (List.nodup_append.mp hnodup).2.1 hfirst hsecond hsame

theorem Invariant.owner_lt {s : PoolSystem ι limits capacity} (h : Invariant s)
    {requestId : CommandRequestId} (hpending : requestId ∈ s.pool.pendingIds) :
    s.history.owner requestId < s.history.registered.length := by
  have hmem := h.registrations.subset
    (List.mem_append_right _ (List.mem_map_of_mem hpending))
  exact List.mem_range.mp hmem

/-! The critical sections. -/

theorem Counted.add {counts : ℕ → ℕ} {s : PoolSystem ι limits capacity} (h : Counted counts s)
    (requestId : CommandRequestId) (request : PendingData limits) :
    Counted counts (s.add requestId request) := by
  by_cases hstatus : (s.pool.add requestId request).1 = .success
  · have habsent := not_mem_pendingIds_of_add_success hstatus
    rw [add_of_success hstatus]
    refine ⟨?_, h.taken, ?_⟩
    · intro entry hentry hactive
      show entry.responseCount = UInt16.ofNat (counts
        (Function.update s.history.owner requestId s.history.registered.length entry.requestId))
      rcases mem_entries_add hentry hactive with hold | ⟨-, hid, hcount⟩
      · have hother : entry.requestId ≠ requestId := by
          rintro rfl
          exact habsent (mem_pendingIds_of_mem hold hactive)
        rw [Function.update_of_ne hother]
        exact h.pending entry hold hactive
      · rw [hid, Function.update_self, h.unused _ le_rfl, hcount]
        rfl
    · intro n hn
      refine h.unused n ?_
      rw [History.register, List.length_append] at hn
      omega
  · rw [add_of_ne_success hstatus]
    refine ⟨?_, h.taken, h.unused⟩
    intro entry hentry hactive
    rcases mem_entries_add hentry hactive with hold | ⟨hsuccess, -⟩
    · exact h.pending entry hold hactive
    · exact absurd hsuccess hstatus

theorem Counted.expire {counts : ℕ → ℕ} {s : PoolSystem ι limits capacity}
    (h : Counted counts s) (thread : ι) (nowMilliseconds : UInt64) :
    Counted counts (s.expire thread nowMilliseconds) := by
  unfold PoolSystem.expire
  split_ifs with hempty
  · refine ⟨?_, h.taken, h.unused⟩
    intro entry hentry hactive
    exact h.pending entry (mem_entries_expire hentry hactive) hactive
  · refine ⟨?_, ?_, h.unused⟩
    · intro entry hentry hactive
      exact h.pending entry (mem_entries_expire hentry hactive) hactive
    · intro item htaken
      rcases htaken with ⟨frame, hframe, hitem⟩ | hdelivered
      · rcases List.mem_cons.mp hframe with rfl | hold
        · -- the new frame has what the slots had
          obtain ⟨entry, hentry, rfl⟩ := List.mem_map.mp hitem
          obtain ⟨hslot, hactive⟩ := mem_snapshot_expire hentry
          exact h.pending entry hslot hactive
        · exact h.taken item (.of_frame hold hitem)
      · exact h.taken item (Or.inr hdelivered)

/-- A response is counted for the request it is for, and for no other one. -/
theorem Counted.complete {counts counts' : ℕ → ℕ} {s : PoolSystem ι limits capacity}
    (h : Counted counts s) (hinv : Invariant s) (requestId : CommandRequestId)
    (finalResponse : Bool)
    (hcounts : ∀ n, counts' n = counts n +
      if (s.pool.complete requestId finalResponse).1 = .success ∧ s.history.owner requestId = n
      then 1 else 0) :
    Counted counts' (s.complete requestId finalResponse) := by
  have howner : (s.complete requestId finalResponse).history.owner = s.history.owner := by
    unfold PoolSystem.complete
    split_ifs <;> rfl
  have htaken (item : ExpiredItem limits) (h : (s.complete requestId finalResponse).Taken item) :
      s.Taken item := by
    unfold PoolSystem.complete at h
    split_ifs at h <;> exact h
  have hregistered : (s.complete requestId finalResponse).history.registered =
      s.history.registered := by
    unfold PoolSystem.complete
    split_ifs <;> rfl
  have hkept {n : ℕ} (hn : requestId ∈ s.pool.pendingIds → s.history.owner requestId ≠ n) :
      counts' n = counts n := by
    rw [hcounts, if_neg, Nat.add_zero]
    intro hresponds
    exact hn ((complete_success_iff _ _ _).mp hresponds.1) hresponds.2
  refine ⟨?_, ?_, ?_⟩
  · intro entry hentry hactive
    rw [howner]
    rcases mem_entries_complete hentry hactive with ⟨hold, hother⟩ | ⟨old, hold, hpending, rfl⟩
    · rw [hkept]
      · exact h.pending entry hold hactive
      · intro hmem hsame
        exact hother (hinv.owner_injective hmem (mem_pendingIds_of_mem hold hactive) hsame).symm
    · -- the slot the response is for
      obtain ⟨hwas, rfl⟩ := CommandPendingRequest.isPending_iff.mp hpending
      have hsuccess := (complete_success_iff s.pool old.requestId finalResponse).mpr
        (mem_pendingIds_of_mem hold hwas)
      show old.responseCount + 1 = UInt16.ofNat (counts' (s.history.owner old.requestId))
      rw [hcounts, if_pos ⟨hsuccess, rfl⟩, UInt16.ofNat_add, h.pending old hold hwas]
      rfl
  · intro item hitem
    rw [hkept]
    · exact h.taken item (htaken item hitem)
    · intro hmem
      exact hinv.owner_ne_of_taken hmem (htaken item hitem)
  · intro n hn
    rw [hregistered] at hn
    rw [hkept]
    · exact h.unused n hn
    · intro hmem
      have hlt := hinv.owner_lt hmem
      omega

/-- The steps of the loop leave the pool alone, and take no new snapshot. -/
theorem Counted.of_loop {counts : ℕ → ℕ} {s after : PoolSystem ι limits capacity}
    (h : Counted counts s) (hpool : after.pool = s.pool)
    (howner : after.history.owner = s.history.owner)
    (hregistered : after.history.registered = s.history.registered)
    (hframes : ∀ frame ∈ after.frames, ∀ item ∈ frame.2.remaining, s.Taken item)
    (hdelivered : ∀ item call, (item, call) ∈ after.history.delivered → s.Taken item) :
    Counted counts after := by
  refine ⟨?_, ?_, ?_⟩
  · rw [hpool, howner]
    exact h.pending
  · intro item htaken
    rcases htaken with ⟨frame, hframe, hitem⟩ | ⟨call, hcall⟩
    · exact h.taken item (hframes frame hframe item hitem)
    · exact h.taken item (hdelivered item call hcall)
  · rw [hregistered]
    exact h.unused

theorem Counted.enterCallback {counts : ℕ → ℕ} {s : PoolSystem ι limits capacity}
    (h : Counted counts s) {thread : ι} {before after : List (ι × ExpireFrame limits)} {call : ℕ}
    {item : ExpiredItem limits} {remaining : List (ExpiredItem limits)}
    (htop : Top s.frames thread before ⟨call, item :: remaining, false⟩ after) :
    Counted counts
      { s with
        frames := before ++ (thread, ⟨call, remaining, true⟩) :: after
        history := { s.history with delivered := s.history.delivered ++ [(item, call)] } } := by
  have htaken : ∀ frame ∈ s.frames, ∀ item ∈ frame.2.remaining, s.Taken item :=
    fun _ hframe _ hitem => .of_frame hframe hitem
  refine h.of_loop rfl rfl rfl ?_ ?_
  · apply forall_frames_replace htop htaken
    intro found hfound
    exact List.mem_cons_of_mem _ hfound
  · intro found other hfound
    rcases List.mem_append.mp hfound with hold | hnew
    · exact .of_delivered hold
    · -- the item the callback is run on was the next one of the frame
      obtain ⟨rfl, -⟩ := Prod.mk.inj (List.mem_singleton.mp hnew)
      refine htaken (thread, ⟨call, found :: remaining, false⟩) ?_ found List.mem_cons_self
      simp [htop.1]

/-- What a step adds to the counts. -/
theorem Step.counted {s after : PoolSystem ι limits capacity} {action : PoolAction ι limits}
    (hstep : Step s action after) (hinv : Invariant s) {trace : PoolTrace ι limits capacity}
    (h : Counted (responses trace) s) :
    Counted (responses (trace ++ [⟨s, action, after⟩])) after := by
  have hsame (hother : ∀ n, responds n ⟨s, action, after⟩ = false) :
      responses (trace ++ [⟨s, action, after⟩]) = responses trace := by
    ext n
    rw [responses_snoc, hother]
    rfl
  have htaken : ∀ frame ∈ s.frames, ∀ item ∈ frame.2.remaining, s.Taken item :=
    fun _ hframe _ hitem => .of_frame hframe hitem
  have hdelivered : ∀ item call, (item, call) ∈ s.history.delivered → s.Taken item :=
    fun _ _ hcall => .of_delivered hcall
  cases hstep with
  | add =>
      rw [hsame fun _ => rfl]
      exact h.add _ _
  | complete =>
      apply h.complete hinv
      intro n
      rw [responses_snoc]
      simp only [responds, decide_eq_true_eq]
  | expire =>
      rw [hsame fun _ => rfl]
      exact h.expire _ _
  | enterCallback htop =>
      rw [hsame fun _ => rfl]
      exact h.enterCallback htop
  | leaveCallback htop =>
      rw [hsame fun _ => rfl]
      refine h.of_loop rfl rfl rfl ?_ hdelivered
      exact forall_frames_replace htop htaken fun _ hfound => hfound
  | returnExpire htop =>
      rw [hsame fun _ => rfl]
      exact h.of_loop rfl rfl rfl (forall_frames_remove htop htaken) hdelivered
  | unwind htop =>
      rw [hsame fun _ => rfl]
      exact h.of_loop rfl rfl rfl (forall_frames_remove htop htaken) hdelivered

/-- Slots and snapshots hold the counts of the trace, after every run. -/
theorem counted_of_run {trace : PoolTrace ι limits capacity}
    {s : PoolSystem ι limits capacity} (hrun : Run Step initial trace s) :
    Invariant s ∧ Counted (responses trace) s := by
  induction hrun with
  | start =>
      refine ⟨invariant_initial, ?_, ?_, fun _ _ => rfl⟩
      · intro entry hentry
        cases hentry
      · intro item htaken
        rcases htaken with ⟨frame, hframe, -⟩ | ⟨call, hcall⟩
        · cases hframe
        · cases hcall
  | next _ hstep ih =>
      obtain ⟨hinv, hcounted⟩ := ih
      exact ⟨hstep.invariant hinv, hstep.counted hinv hcounted⟩

/-! ### What a callback is told -/

/-- The item holds the number of responses, and so zero only if there was none. -/
def TellsResponses (trace : PoolTrace ι limits capacity) (item : ExpiredItem limits) : Prop :=
  item.request.responseCount.toNat = responses trace item.registration ∧
    (item.request.responseCount = 0 → responses trace item.registration = 0)

/-- A count is kept exactly when it has sixteen bits. -/
theorem toNat_ofNat_eq_iff (n : ℕ) : (UInt16.ofNat n).toNat = n ↔ n < 2 ^ 16 := by
  rw [UInt16.toNat_ofNat', Nat.mod_eq_iff_lt (by decide)]

/-! A stream of any length. -/

/-- A request whose deadline is 100 is pending, with so many responses so far. -/
structure Streaming (k : ℕ) (s : PoolSystem Unit limits 1) : Prop where
  entries : s.pool.entries = [⟨true, 7, {}, 100, .multiple, UInt16.ofNat k⟩]
  frames : s.frames = []
  owner : s.history.owner 7 = 0

theorem Streaming.complete {k : ℕ} {s : PoolSystem Unit limits 1} (h : Streaming k s) :
    Streaming (k + 1) (s.complete 7 false) := by
  have hentries : (s.pool.complete 7 false).2.entries =
      [⟨true, 7, {}, 100, .multiple, UInt16.ofNat (k + 1)⟩] := by
    show (completeEntries 7 false s.pool.entries).2 = _
    rw [h.entries, UInt16.ofNat_add]
    rfl
  have hpending : (s.pool.complete 7 false).2.contents 7 ≠ none := by
    rw [contents, hentries]
    exact Option.some_ne_none _
  rw [complete_of_kept fun h => hpending h.2]
  exact ⟨hentries, h.frames, h.owner⟩

theorem exists_run_streaming (limits : EnvelopeLimits) (k : ℕ) :
    ∃ trace : PoolTrace Unit limits 1, ∃ s, Run Step initial trace s ∧ Streaming k s ∧
      responses trace 0 = k := by
  induction k with
  | zero =>
      have houtside : (initial : PoolSystem Unit limits 1).Outside () :=
        outside_of_frames_nil rfl _
      have hadded := Run.next Run.start
        (show Step _ (.add () 7 ⟨{}, 100, .multiple⟩) _ from .add houtside)
      exact ⟨_, _, hadded, ⟨rfl, rfl, rfl⟩, rfl⟩
  | succ k ih =>
      obtain ⟨trace, s, hrun, hstream, hcount⟩ := ih
      have hcompleted := Run.next hrun
        (show Step s (.complete () 7 false) _ from
          .complete (outside_of_frames_nil hstream.frames _))
      have hsuccess : (s.pool.complete 7 false).1 = .success := by
        show (completeEntries 7 false s.pool.entries).1 = .success
        rw [hstream.entries]
        rfl
      refine ⟨_, _, hcompleted, hstream.complete, ?_⟩
      rw [responses_snoc, hcount]
      simp [responds, hsuccess, hstream.owner]

/-- The request expires, and the callback is told the count of its slot. -/
theorem exists_run_told (limits : EnvelopeLimits) (k : ℕ) :
    ∃ trace : PoolTrace Unit limits 1, ∃ s, Run Step initial trace s ∧
      ∃ d ∈ s.history.delivered, d.1.request.responseMode = .multiple ∧
        d.1.request.responseCount = UInt16.ofNat k ∧ responses trace d.1.registration = k := by
  obtain ⟨trace, s, hrun, hstream, hcount⟩ := exists_run_streaming limits k
  have hexpired : (s.pool.expire 100).1 = [⟨true, 7, {}, 100, .multiple, UInt16.ofNat k⟩] := by
    show (expireEntries 100 s.pool.entries).1 = _
    rw [hstream.entries]
    rfl
  have hframes : (s.expire () 100).frames =
      [((), ⟨s.history.calls, [⟨0, ⟨true, 7, {}, 100, .multiple, UInt16.ofNat k⟩⟩],
        false⟩)] := by
    simp [PoolSystem.expire, hexpired, History.items, hstream.owner, hstream.frames]
  have hsnapshot := Run.next hrun
    (show Step s (.expire () 100) _ from .expire (outside_of_frames_nil hstream.frames _))
  have hentered := Run.next hsnapshot (.enterCallback (show Top _ () [] _ [] from
    ⟨hframes, by simp⟩))
  refine ⟨_, _, hentered, _, List.mem_append_right _ (List.mem_singleton_self _), rfl, rfl, ?_⟩
  rw [responses_snoc, responses_snoc, hcount]
  rfl

/-- **The response count on expiry.**  In every run, whatever the other threads do, a
callback for a request with a stream of responses is told how many have arrived, exactly
when they are fewer than `2 ^ 16`. -/
theorem tellsResponses_iff_of_run {trace : PoolTrace ι limits capacity}
    {s : PoolSystem ι limits capacity} (hrun : Run Step initial trace s) :
    ∀ d ∈ s.history.delivered, d.1.request.responseMode = .multiple →
      (TellsResponses trace d.1 ↔ responses trace d.1.registration < 2 ^ 16) := by
  intro d hd _
  have hcount : d.1.request.responseCount = UInt16.ofNat (responses trace d.1.registration) :=
    (counted_of_run hrun).2.taken d.1 (.of_delivered hd)
  rw [TellsResponses, hcount, toNat_ofNat_eq_iff, and_iff_left_iff_imp]
  intro hshort hzero
  have hvalue := (toNat_ofNat_eq_iff _).mpr hshort
  rw [hzero] at hvalue
  exact hvalue.symm

/-- Three responses are reported as three. -/
theorem tellsResponses_streaming :
    ∃ trace : PoolTrace Unit {} 1, ∃ s, Run Step initial trace s ∧
      ∃ d ∈ s.history.delivered,
        responses trace d.1.registration = 3 ∧ TellsResponses trace d.1 := by
  obtain ⟨trace, s, hrun, d, hd, hmode, -, hresponses⟩ := exists_run_told {} 3
  refine ⟨trace, s, hrun, d, hd, hresponses, (tellsResponses_iff_of_run hrun d hd hmode).mpr ?_⟩
  rw [hresponses]
  decide

/-- After `2 ^ 16` responses the callback is told that there was none. -/
theorem not_tellsResponses_streaming :
    ¬ (∀ trace : PoolTrace Unit {} 1, ∀ s, Run Step initial trace s →
      ∀ d ∈ s.history.delivered, d.1.request.responseMode = .multiple →
        TellsResponses trace d.1) := by
  intro h
  obtain ⟨trace, s, hrun, d, hd, hmode, hcount, hresponses⟩ := exists_run_told {} (2 ^ 16)
  have hzero : d.1.request.responseCount = 0 := by
    rw [hcount]
    decide
  have hnone := (h trace s hrun d hd hmode).2 hzero
  rw [hresponses] at hnone
  omega

end PoolSystem

end EspressioCommand
