import Mathlib.Data.List.Nodup
import Mathlib.Data.List.Perm.Basic
import EspressioCommand.Envelope
import EspressioCommand.Library.PartialMap

/-!
# `CommandPendingRequestPool`

A table of `Capacity` slots, allocated by the first `Add`.  A slot is reused by
whoever finds it inactive, and a cleared slot looks like a pending request with
identifier 0 but for its `Active` flag.

The loops of the three calls are functions on the list of slots
(`addEntries`, `completeEntries`, `expireEntries`); the pool itself carries the two
facts that make them work, that the table is absent or complete and that no
identifier is active twice.  The contents of a pool are the map from identifiers
to what was asked to be remembered; the lemmas named after the calls say what each
does to the contents and to the list of pending identifiers.
-/

namespace EspressioCommand

open Library

/-- `CommandPendingStatus`. -/
inductive CommandPendingStatus
  | success
  | duplicateRequestId
  | capacityExhausted
  | notFound
deriving DecidableEq, Repr

/-- `CommandPendingRequest`. -/
structure CommandPendingRequest (limits : EnvelopeLimits) where
  active : Bool := false
  requestId : CommandRequestId := 0
  destination : CommandOriginAddress limits := {}
  deadlineMilliseconds : UInt64 := 0
  responseMode : CommandResponseMode := .single
  responseCount : UInt16 := 0
deriving DecidableEq

/-- What the pool is asked to remember about a request. -/
structure PendingData (limits : EnvelopeLimits) where
  destination : CommandOriginAddress limits
  deadlineMilliseconds : UInt64
  responseMode : CommandResponseMode
deriving DecidableEq

namespace CommandPendingRequest

variable {limits : EnvelopeLimits}

/-- The slot holds a pending request with this identifier. -/
def isPending (requestId : CommandRequestId) (entry : CommandPendingRequest limits) : Bool :=
  entry.active && entry.requestId == requestId

/-- The slot holds a pending request whose deadline has elapsed. -/
def isExpired (nowMilliseconds : UInt64) (entry : CommandPendingRequest limits) : Bool :=
  entry.active && entry.deadlineMilliseconds ≤ nowMilliseconds

theorem isPending_iff {requestId : CommandRequestId} {entry : CommandPendingRequest limits} :
    entry.isPending requestId = true ↔ entry.active = true ∧ entry.requestId = requestId := by
  simp [isPending]

theorem isExpired_iff {nowMilliseconds : UInt64} {entry : CommandPendingRequest limits} :
    entry.isExpired nowMilliseconds = true ↔
      entry.active = true ∧ entry.deadlineMilliseconds ≤ nowMilliseconds := by
  simp [isExpired]

/-- What the slot remembers. -/
def data (entry : CommandPendingRequest limits) : PendingData limits :=
  ⟨entry.destination, entry.deadlineMilliseconds, entry.responseMode⟩

end CommandPendingRequest

namespace CommandPendingRequestPool

open CommandPendingRequest

variable {limits : EnvelopeLimits}

/-! ### The loops -/

/-- `EnsureEntriesLocked`. -/
def ensureEntries (capacity : ℕ) (entries : List (CommandPendingRequest limits)) :
    List (CommandPendingRequest limits) :=
  if entries = [] ∧ capacity ≠ 0 then List.replicate capacity {} else entries

/-- The loop of `Add` from slot `index` on: the status it returns with, or the index
of the first inactive slot. -/
def findSlot (requestId : CommandRequestId) :
    ℕ → Option ℕ → List (CommandPendingRequest limits) → Except CommandPendingStatus ℕ
  | _, none, [] => .error .capacityExhausted
  | _, some slot, [] => .ok slot
  | index, freeEntry, entry :: rest =>
      -- the loop looks at every slot before one is taken
      if entry.isPending requestId then .error .duplicateRequestId
      else
        findSlot requestId (index + 1)
          (if !entry.active && freeEntry.isNone then some index else freeEntry) rest

/-- `Add`, on the slots. -/
def addEntries (capacity : ℕ) (entries : List (CommandPendingRequest limits))
    (requestId : CommandRequestId) (request : PendingData limits) :
    CommandPendingStatus × List (CommandPendingRequest limits) :=
  let entries := ensureEntries capacity entries
  match findSlot requestId 0 none entries with
  -- the allocation stays, also when nothing is added
  | .error status => (status, entries)
  | .ok slot =>
      (.success, entries.set slot
        { active := true
          requestId := requestId
          destination := request.destination
          deadlineMilliseconds := request.deadlineMilliseconds
          responseMode := request.responseMode })

/-- `Complete`, on the slots. -/
def completeEntries (requestId : CommandRequestId) (finalResponse : Bool) :
    List (CommandPendingRequest limits) →
      CommandPendingStatus × List (CommandPendingRequest limits)
  | [] => (.notFound, [])
  | entry :: rest =>
      if !entry.isPending requestId then
        let result := completeEntries requestId finalResponse rest
        (result.1, entry :: result.2)
      else if entry.responseMode = .single || finalResponse then (.success, {} :: rest)
      -- a stream goes on: the response is counted, modulo `2 ^ 16`
      else (.success, { entry with responseCount := entry.responseCount + 1 } :: rest)

/-- The critical section of `Expire`, on the slots: the snapshot, and the slots with
the expired ones cleared. -/
def expireEntries (nowMilliseconds : UInt64) (entries : List (CommandPendingRequest limits)) :
    List (CommandPendingRequest limits) × List (CommandPendingRequest limits) :=
  if entries.countP (isExpired nowMilliseconds) = 0 then ([], entries)
  else
    (entries.filter (isExpired nowMilliseconds),
      entries.map fun entry => if entry.isExpired nowMilliseconds then {} else entry)

/-- The identifiers of the active slots, slot by slot. -/
def pendingIdsOf (entries : List (CommandPendingRequest limits)) : List CommandRequestId :=
  (entries.filter fun entry => entry.active).map fun entry => entry.requestId

/-- What is remembered under an identifier. -/
def contentsOf (entries : List (CommandPendingRequest limits)) :
    PartialMap CommandRequestId (PendingData limits) :=
  fun requestId => (entries.find? (isPending requestId)).map data

/-! ### Slots, contents and pending identifiers -/

theorem pendingIdsOf_append (first second : List (CommandPendingRequest limits)) :
    pendingIdsOf (first ++ second) = pendingIdsOf first ++ pendingIdsOf second := by
  simp [pendingIdsOf]

theorem pendingIdsOf_cons (entry : CommandPendingRequest limits)
    (rest : List (CommandPendingRequest limits)) :
    pendingIdsOf (entry :: rest) =
      if entry.active then entry.requestId :: pendingIdsOf rest else pendingIdsOf rest := by
  cases hactive : entry.active <;> simp [pendingIdsOf, hactive]

theorem mem_pendingIdsOf {entries : List (CommandPendingRequest limits)}
    {requestId : CommandRequestId} :
    requestId ∈ pendingIdsOf entries ↔ ∃ entry ∈ entries, isPending requestId entry = true := by
  simp [pendingIdsOf, isPending, and_assoc]

theorem mem_pendingIdsOf_iff_contentsOf {entries : List (CommandPendingRequest limits)}
    {requestId : CommandRequestId} :
    requestId ∈ pendingIdsOf entries ↔ contentsOf entries requestId ≠ none := by
  rw [mem_pendingIdsOf, contentsOf, ne_eq, Option.map_eq_none_iff, List.find?_eq_none]
  push Not
  exact Iff.rfl

/-- The first slot that is pending under an identifier is what the identifier leads to. -/
theorem contentsOf_append_of_active {before after : List (CommandPendingRequest limits)}
    {entry : CommandPendingRequest limits} (hactive : entry.active = true)
    (hbefore : entry.requestId ∉ pendingIdsOf before) :
    contentsOf (before ++ entry :: after) entry.requestId = some entry.data := by
  have hnone : before.find? (isPending entry.requestId) = none := by
    rw [List.find?_eq_none]
    intro other hother hsame
    exact hbefore (mem_pendingIdsOf.mpr ⟨other, hother, hsame⟩)
  have hpending : isPending entry.requestId entry = true := isPending_iff.mpr ⟨hactive, rfl⟩
  simp [contentsOf, List.find?_append, hnone, hpending]

/-- With distinct active identifiers, an active slot is what its identifier leads
to, and nothing else is. -/
theorem contentsOf_eq_some_iff {entries : List (CommandPendingRequest limits)}
    (hdistinct : (pendingIdsOf entries).Nodup) {requestId : CommandRequestId}
    {request : PendingData limits} :
    contentsOf entries requestId = some request ↔
      ∃ entry ∈ entries, isPending requestId entry = true ∧ entry.data = request := by
  constructor
  · intro h
    obtain ⟨entry, hfind, hdata⟩ := Option.map_eq_some_iff.mp h
    exact ⟨entry, List.mem_of_find?_eq_some hfind, List.find?_some hfind, hdata⟩
  · rintro ⟨entry, hmem, hpending, rfl⟩
    obtain ⟨before, after, rfl⟩ := List.append_of_mem hmem
    obtain ⟨hactive, rfl⟩ := isPending_iff.mp hpending
    apply contentsOf_append_of_active hactive
    -- no earlier slot is active under the same identifier
    intro hbefore
    rw [pendingIdsOf_append, pendingIdsOf_cons, if_pos hactive] at hdistinct
    exact (List.disjoint_of_nodup_append hdistinct) hbefore (by simp)

/-- Replacing a slot does not affect what is found under the identifiers that
neither the old nor the new slot is pending under. -/
theorem contentsOf_replace {before after : List (CommandPendingRequest limits)}
    {old new : CommandPendingRequest limits} {requestId : CommandRequestId}
    (hold : isPending requestId old = false) (hnew : isPending requestId new = false) :
    contentsOf (before ++ new :: after) requestId =
      contentsOf (before ++ old :: after) requestId := by
  simp [contentsOf, List.find?_append, hold, hnew]

theorem isPending_of_ne {entry : CommandPendingRequest limits} {requestId : CommandRequestId}
    (hne : requestId ≠ entry.requestId) : isPending requestId entry = false := by
  have hid : (entry.requestId == requestId) = false := by simpa using hne.symm
  simp [isPending, hid]

theorem isPending_of_not_active {entry : CommandPendingRequest limits}
    (hactive : entry.active = false) (requestId : CommandRequestId) :
    isPending requestId entry = false := by
  simp [isPending, hactive]

/-- A slot that becomes pending, or stays so, and was pending under no other identifier. -/
theorem contentsOf_replace_active {before after : List (CommandPendingRequest limits)}
    {old new : CommandPendingRequest limits} (hactive : new.active = true)
    (hbefore : new.requestId ∉ pendingIdsOf before)
    (hold : ∀ other, other ≠ new.requestId → isPending other old = false) :
    contentsOf (before ++ new :: after) =
      Function.update (contentsOf (before ++ old :: after)) new.requestId (some new.data) := by
  ext other : 1
  by_cases hother : other = new.requestId
  · rw [hother, Function.update_self]
    exact contentsOf_append_of_active hactive hbefore
  · rw [Function.update_of_ne hother]
    exact contentsOf_replace (hold other hother) (isPending_of_ne hother)

/-- Splitting a table around the slot that a search finds. -/
theorem exists_split_of_findIdx? {entries : List (CommandPendingRequest limits)}
    {p : CommandPendingRequest limits → Bool} {slot : ℕ}
    (hslot : entries.findIdx? p = some slot) :
    ∃ before old rest, entries = before ++ old :: rest ∧ p old = true ∧
      ∀ new, entries.set slot new = before ++ new :: rest := by
  obtain ⟨hlt, hfound, -⟩ := List.findIdx?_eq_some_iff_getElem.mp hslot
  refine ⟨entries.take slot, entries[slot], entries.drop (slot + 1), ?_, hfound, ?_⟩
  · rw [List.getElem_cons_drop, List.take_append_drop]
  · intro new
    rw [List.set_eq_take_append_cons_drop, if_pos hlt]

/-! ### `Add` -/

/-- What the loop of `Add` finds: a duplicate anywhere in the table wins, and
otherwise the first inactive slot. -/
theorem findSlot_eq (requestId : CommandRequestId) (index : ℕ) (freeEntry : Option ℕ)
    (entries : List (CommandPendingRequest limits)) :
    findSlot requestId index freeEntry entries =
      if requestId ∈ pendingIdsOf entries then .error .duplicateRequestId
      else
        match freeEntry.or
          ((entries.findIdx? fun entry => !entry.active).map fun slot => slot + index) with
        | none => .error .capacityExhausted
        | some slot => .ok slot := by
  induction entries generalizing index freeEntry with
  | nil => cases freeEntry <;> rfl
  | cons entry rest ih =>
      have hcons : requestId ∈ pendingIdsOf (entry :: rest) ↔
          isPending requestId entry = true ∨ requestId ∈ pendingIdsOf rest := by
        simp [mem_pendingIdsOf]
      by_cases hpending : isPending requestId entry = true
      · rw [findSlot, if_pos hpending, if_pos (hcons.mpr (Or.inl hpending))]
      · rw [findSlot, if_neg hpending, ih]
        by_cases hrest : requestId ∈ pendingIdsOf rest
        · rw [if_pos hrest, if_pos (hcons.mpr (Or.inr hrest))]
        · rw [if_neg hrest, if_neg fun h => (hcons.mp h).elim hpending hrest,
            List.findIdx?_cons]
          cases hactive : entry.active with
          | false => cases freeEntry <;> simp
          | true =>
              have hshift : (rest.findIdx? fun entry => !entry.active).map
                    (fun slot => slot + (index + 1)) =
                  ((rest.findIdx? fun entry => !entry.active).map fun slot => slot + 1).map
                    fun slot => slot + index := by
                rw [Option.map_map]
                congr 1
                ext slot
                simp only [Function.comp_apply]
                omega
              simp [hshift]

/-- The allocation adds inactive slots only. -/
theorem pendingIdsOf_ensureEntries (capacity : ℕ)
    (entries : List (CommandPendingRequest limits)) :
    pendingIdsOf (ensureEntries capacity entries) = pendingIdsOf entries := by
  unfold ensureEntries
  split_ifs with hempty
  · rw [hempty.1]
    simp [pendingIdsOf]
  · rfl

theorem contentsOf_ensureEntries (capacity : ℕ)
    (entries : List (CommandPendingRequest limits)) :
    contentsOf (ensureEntries capacity entries) = contentsOf entries := by
  unfold ensureEntries
  split_ifs with hempty
  · funext requestId
    rw [hempty.1]
    simp [contentsOf, isPending]
  · rfl

theorem length_ensureEntries {capacity : ℕ} {entries : List (CommandPendingRequest limits)}
    (hsized : entries = [] ∨ entries.length = capacity) :
    (ensureEntries capacity entries).length = capacity := by
  unfold ensureEntries
  split_ifs with hempty
  · simp
  · rcases hsized with hnil | hlength
    · have hzero : capacity = 0 := by
        by_contra hne
        exact hempty ⟨hnil, hne⟩
      rw [hnil, hzero, List.length_nil]
    · exact hlength

/-- No slot of a table is inactive exactly when all of them are pending. -/
theorem length_pendingIdsOf_eq_iff (entries : List (CommandPendingRequest limits)) :
    (pendingIdsOf entries).length = entries.length ↔
      ∀ entry ∈ entries, entry.active = true := by
  rw [pendingIdsOf, List.length_map]
  exact List.length_filter_eq_length_iff

theorem length_pendingIdsOf_le (entries : List (CommandPendingRequest limits)) :
    (pendingIdsOf entries).length ≤ entries.length := by
  rw [pendingIdsOf, List.length_map]
  exact List.length_filter_le _ _

/-- What a table remembers once an inactive slot is filled. -/
theorem fillSlot_spec {before rest : List (CommandPendingRequest limits)}
    {old : CommandPendingRequest limits} (hold : old.active = false)
    (entry : CommandPendingRequest limits) (hactive : entry.active = true)
    (habsent : entry.requestId ∉ pendingIdsOf (before ++ old :: rest)) :
    contentsOf (before ++ entry :: rest) =
        Function.update (contentsOf (before ++ old :: rest)) entry.requestId
          (some entry.data) ∧
      (pendingIdsOf (before ++ entry :: rest)).Perm
        (entry.requestId :: pendingIdsOf (before ++ old :: rest)) := by
  have hids : pendingIdsOf (before ++ old :: rest) = pendingIdsOf before ++ pendingIdsOf rest := by
    rw [pendingIdsOf_append, pendingIdsOf_cons, hold]
    rfl
  rw [hids] at habsent ⊢
  constructor
  · have hbefore : entry.requestId ∉ pendingIdsOf before := by
      intro hmem
      exact habsent (List.mem_append_left _ hmem)
    exact contentsOf_replace_active hactive hbefore fun other _ =>
      isPending_of_not_active hold other
  · rw [pendingIdsOf_append, pendingIdsOf_cons, if_pos hactive]
    exact List.perm_middle

/-- **What `Add` does.** -/
theorem addEntries_spec {capacity : ℕ} {entries : List (CommandPendingRequest limits)}
    (hsized : entries = [] ∨ entries.length = capacity) (requestId : CommandRequestId)
    (request : PendingData limits) {status : CommandPendingStatus}
    {after : List (CommandPendingRequest limits)}
    (hadd : addEntries capacity entries requestId request = (status, after)) :
    after.length = capacity ∧
      ((status = .duplicateRequestId ∧ requestId ∈ pendingIdsOf entries ∧
          contentsOf after = contentsOf entries ∧ pendingIdsOf after = pendingIdsOf entries) ∨
        (status = .capacityExhausted ∧ requestId ∉ pendingIdsOf entries ∧
          (pendingIdsOf entries).length = capacity ∧
          contentsOf after = contentsOf entries ∧ pendingIdsOf after = pendingIdsOf entries) ∨
        (status = .success ∧ requestId ∉ pendingIdsOf entries ∧
          (pendingIdsOf entries).length < capacity ∧
          contentsOf after = Function.update (contentsOf entries) requestId (some request) ∧
          (pendingIdsOf after).Perm (requestId :: pendingIdsOf entries))) := by
  have hlength := length_ensureEntries hsized
  have hids := pendingIdsOf_ensureEntries capacity entries
  have hcontents := contentsOf_ensureEntries capacity entries
  rw [addEntries] at hadd
  simp only [findSlot_eq, hids] at hadd
  split_ifs at hadd with hpending
  · obtain ⟨rfl, rfl⟩ := Prod.mk.inj hadd
    exact ⟨hlength, Or.inl ⟨rfl, hpending, hcontents, hids⟩⟩
  · cases hslot : (ensureEntries capacity entries).findIdx? fun entry => !entry.active with
    | none =>
        simp only [hslot, Option.map_none, Option.or_none] at hadd
        obtain ⟨rfl, rfl⟩ := Prod.mk.inj hadd
        have hall : ∀ entry ∈ ensureEntries capacity entries, entry.active = true := by
          simpa using List.findIdx?_eq_none_iff.mp hslot
        have hfull := (length_pendingIdsOf_eq_iff _).mpr hall
        rw [hids, hlength] at hfull
        exact ⟨hlength, Or.inr (Or.inl ⟨rfl, hpending, hfull, hcontents, hids⟩)⟩
    | some slot =>
        simp only [hslot, Option.map_some, Option.none_or, Nat.add_zero] at hadd
        obtain ⟨rfl, rfl⟩ := Prod.mk.inj hadd
        -- the table around the slot that is reused
        obtain ⟨before, old, rest, hsplit, hinactive, hset⟩ := exists_split_of_findIdx? hslot
        have hold : old.active = false := by simpa using hinactive
        rw [hset]
        rw [hsplit] at hlength hids hcontents
        have hcount : (pendingIdsOf entries).length < capacity := by
          have hbefore := length_pendingIdsOf_le before
          have hrest := length_pendingIdsOf_le rest
          rw [← hids, pendingIdsOf_append, pendingIdsOf_cons, hold]
          simp only [Bool.false_eq_true, if_false]
          rw [List.length_append]
          rw [List.length_append, List.length_cons] at hlength
          omega
        rw [← hids] at hpending
        obtain ⟨hfilled, hperm⟩ := fillSlot_spec hold
          { active := true
            requestId := requestId
            destination := request.destination
            deadlineMilliseconds := request.deadlineMilliseconds
            responseMode := request.responseMode } rfl hpending
        rw [hcontents] at hfilled
        rw [hids] at hpending hperm
        exact ⟨by simpa using hlength,
          Or.inr (Or.inr ⟨rfl, hpending, hcount, hfilled, hperm⟩)⟩

/-! ### `Complete` -/

/-- The slot that `Complete` leaves behind. -/
def completedEntry (finalResponse : Bool) (entry : CommandPendingRequest limits) :
    CommandPendingRequest limits :=
  if entry.responseMode = .single || finalResponse then {}
  else { entry with responseCount := entry.responseCount + 1 }

/-- `Complete` finds the first slot pending under the identifier, or none. -/
theorem completeEntries_eq (requestId : CommandRequestId) (finalResponse : Bool)
    (entries : List (CommandPendingRequest limits)) :
    (requestId ∉ pendingIdsOf entries ∧
        completeEntries requestId finalResponse entries = (.notFound, entries)) ∨
      ∃ before entry rest, entries = before ++ entry :: rest ∧
        requestId ∉ pendingIdsOf before ∧ entry.isPending requestId = true ∧
        completeEntries requestId finalResponse entries =
          (.success, before ++ completedEntry finalResponse entry :: rest) := by
  induction entries with
  | nil => exact Or.inl ⟨by simp [pendingIdsOf], rfl⟩
  | cons entry rest ih =>
      have hcons (others : List (CommandPendingRequest limits)) :
          requestId ∈ pendingIdsOf (entry :: others) ↔
            entry.isPending requestId = true ∨ requestId ∈ pendingIdsOf others := by
        simp [mem_pendingIdsOf]
      by_cases hpending : entry.isPending requestId = true
      · refine Or.inr ⟨[], entry, rest, rfl, by simp [pendingIdsOf], hpending, ?_⟩
        rw [completeEntries, hpending, completedEntry]
        split_ifs <;> simp_all
      · have hstep : completeEntries requestId finalResponse (entry :: rest) =
            ((completeEntries requestId finalResponse rest).1,
              entry :: (completeEntries requestId finalResponse rest).2) := by
          rw [completeEntries, if_pos (by simpa using hpending)]
        rcases ih with ⟨habsent, hrest⟩ | ⟨before, found, after, hsplit, hbefore, hfound, hrest⟩
        · refine Or.inl ⟨fun h => ((hcons rest).mp h).elim hpending habsent, ?_⟩
          rw [hstep, hrest]
        · refine Or.inr ⟨entry :: before, found, after, by rw [hsplit]; rfl,
            fun h => ((hcons before).mp h).elim hpending hbefore, hfound, ?_⟩
          rw [hstep, hrest]
          rfl

/-- What a table remembers once a pending slot is cleared. -/
theorem clearSlot_spec {before rest : List (CommandPendingRequest limits)}
    {entry : CommandPendingRequest limits} (hactive : entry.active = true)
    (hdistinct : (pendingIdsOf (before ++ entry :: rest)).Nodup) :
    contentsOf (before ++ ({} : CommandPendingRequest limits) :: rest) =
        Function.update (contentsOf (before ++ entry :: rest)) entry.requestId none ∧
      (pendingIdsOf (before ++ entry :: rest)).Perm
        (entry.requestId ::
          pendingIdsOf (before ++ ({} : CommandPendingRequest limits) :: rest)) := by
  have hperm : (pendingIdsOf (before ++ entry :: rest)).Perm
      (entry.requestId ::
        pendingIdsOf (before ++ ({} : CommandPendingRequest limits) :: rest)) := by
    rw [pendingIdsOf_append, pendingIdsOf_append, pendingIdsOf_cons, pendingIdsOf_cons,
      if_pos hactive]
    exact List.perm_middle
  refine ⟨?_, hperm⟩
  ext other : 1
  by_cases hother : other = entry.requestId
  · subst hother
    rw [Function.update_self]
    by_contra hsome
    -- the cleared identifier cannot be pending in another slot
    have hmem := mem_pendingIdsOf_iff_contentsOf.mpr hsome
    exact (List.nodup_cons.mp (hperm.nodup_iff.mp hdistinct)).1 hmem
  · rw [Function.update_of_ne hother]
    exact contentsOf_replace (isPending_of_ne hother) (isPending_of_not_active rfl other)

/-- The count of responses is no part of what is remembered. -/
theorem countSlot_spec {before rest : List (CommandPendingRequest limits)}
    {entry : CommandPendingRequest limits} (hactive : entry.active = true)
    (hbefore : entry.requestId ∉ pendingIdsOf before)
    (hcontents : contentsOf (before ++ entry :: rest) entry.requestId = some entry.data)
    (count : UInt16) :
    contentsOf (before ++ { entry with responseCount := count } :: rest) =
        contentsOf (before ++ entry :: rest) ∧
      pendingIdsOf (before ++ { entry with responseCount := count } :: rest) =
        pendingIdsOf (before ++ entry :: rest) := by
  have hreplaced : contentsOf (before ++ { entry with responseCount := count } :: rest) =
      Function.update (contentsOf (before ++ entry :: rest)) entry.requestId
        (some entry.data) :=
    contentsOf_replace_active hactive hbefore fun other hother => isPending_of_ne hother
  constructor
  · rw [hreplaced, Function.update_eq_self_iff, hcontents]
  · rw [pendingIdsOf_append, pendingIdsOf_append, pendingIdsOf_cons, pendingIdsOf_cons]

/-- **What `Complete` does.** -/
theorem completeEntries_spec {entries : List (CommandPendingRequest limits)}
    (hdistinct : (pendingIdsOf entries).Nodup) (requestId : CommandRequestId)
    (finalResponse : Bool) {status : CommandPendingStatus}
    {after : List (CommandPendingRequest limits)}
    (hcomplete : completeEntries requestId finalResponse entries = (status, after)) :
    after.length = entries.length ∧
      ((status = .notFound ∧ requestId ∉ pendingIdsOf entries ∧ after = entries) ∨
        ∃ request, status = .success ∧ contentsOf entries requestId = some request ∧
          (((request.responseMode = .single ∨ finalResponse = true) ∧
              contentsOf after = Function.update (contentsOf entries) requestId none ∧
              (pendingIdsOf entries).Perm (requestId :: pendingIdsOf after)) ∨
            (¬ (request.responseMode = .single ∨ finalResponse = true) ∧
              contentsOf after = contentsOf entries ∧
              pendingIdsOf after = pendingIdsOf entries))) := by
  rcases completeEntries_eq requestId finalResponse entries with
    ⟨habsent, heq⟩ | ⟨before, entry, rest, hsplit, hbefore, hpending, heq⟩
  · rw [heq] at hcomplete
    obtain ⟨rfl, rfl⟩ := Prod.mk.inj hcomplete
    exact ⟨rfl, Or.inl ⟨rfl, habsent, rfl⟩⟩
  · rw [heq] at hcomplete
    obtain ⟨rfl, rfl⟩ := Prod.mk.inj hcomplete
    subst hsplit
    obtain ⟨hactive, rfl⟩ := isPending_iff.mp hpending
    have hcontents : contentsOf (before ++ entry :: rest) entry.requestId = some entry.data :=
      (contentsOf_eq_some_iff hdistinct).mpr ⟨entry, by simp, hpending, rfl⟩
    refine ⟨by simp, Or.inr ⟨entry.data, rfl, hcontents, ?_⟩⟩
    by_cases hfinal : entry.responseMode = .single ∨ finalResponse = true
    · have hcleared : completedEntry finalResponse entry = {} := by
        simp [completedEntry, hfinal]
      rw [hcleared]
      exact Or.inl ⟨hfinal, clearSlot_spec hactive hdistinct⟩
    · have hkept : completedEntry finalResponse entry =
          { entry with responseCount := entry.responseCount + 1 } := by
        simp [completedEntry, hfinal]
      rw [hkept]
      exact Or.inr ⟨hfinal, countSlot_spec hactive hbefore hcontents _⟩

/-! ### `Expire` -/

/-- The slot as `Expire` leaves it. -/
def clearExpired (nowMilliseconds : UInt64) (entry : CommandPendingRequest limits) :
    CommandPendingRequest limits :=
  if entry.isExpired nowMilliseconds then {} else entry

/-- Without the early return, which only saves the allocation. -/
theorem expireEntries_eq (nowMilliseconds : UInt64)
    (entries : List (CommandPendingRequest limits)) :
    expireEntries nowMilliseconds entries =
      (entries.filter (isExpired nowMilliseconds),
        entries.map (clearExpired nowMilliseconds)) := by
  unfold expireEntries
  split_ifs with hcount
  · have hnone : ∀ entry ∈ entries, ¬ entry.isExpired nowMilliseconds = true :=
      List.countP_eq_zero.mp hcount
    have hfilter : entries.filter (isExpired nowMilliseconds) = [] :=
      List.filter_eq_nil_iff.mpr hnone
    have hmap : entries.map (clearExpired nowMilliseconds) = entries := by
      refine (List.map_congr_left fun entry hentry => ?_).trans (List.map_id _)
      rw [clearExpired, if_neg (hnone entry hentry), id]
    rw [hfilter, hmap]
  · rfl

/-- A cleared slot is not pending; any other is as it was. -/
theorem isPending_clearExpired (nowMilliseconds : UInt64) (requestId : CommandRequestId)
    (entry : CommandPendingRequest limits) :
    (clearExpired nowMilliseconds entry).isPending requestId = true ↔
      entry.isExpired nowMilliseconds = false ∧ entry.isPending requestId = true := by
  unfold clearExpired
  split_ifs with hexpired
  · simp [hexpired, isPending]
  · simp [Bool.eq_false_of_not_eq_true hexpired]

/-- The pending identifiers are those of the snapshot and those that stay. -/
theorem pendingIdsOf_perm_expired (nowMilliseconds : UInt64)
    (entries : List (CommandPendingRequest limits)) :
    (pendingIdsOf entries).Perm
      ((entries.filter (isExpired nowMilliseconds)).map (fun entry => entry.requestId) ++
        pendingIdsOf (entries.map (clearExpired nowMilliseconds))) := by
  induction entries with
  | nil => exact .refl _
  | cons entry rest ih =>
      rw [List.map_cons, pendingIdsOf_cons, pendingIdsOf_cons]
      cases hexpired : entry.isExpired nowMilliseconds with
      | true =>
          have hactive : entry.active = true := (isExpired_iff.mp hexpired).1
          have hcleared : clearExpired nowMilliseconds entry = {} := by
            rw [clearExpired, if_pos hexpired]
          rw [List.filter_cons_of_pos hexpired, hcleared, if_pos hactive]
          exact ih.cons _
      | false =>
          have hkept : clearExpired nowMilliseconds entry = entry := by
            simp [clearExpired, hexpired]
          rw [List.filter_cons_of_neg (by simp [hexpired]), hkept]
          split_ifs
          · exact (ih.cons _).trans List.perm_middle.symm
          · exact ih

/-- A slot of the snapshot is due, and is what its identifier led to. -/
theorem contentsOf_of_mem_expired {entries : List (CommandPendingRequest limits)}
    (hdistinct : (pendingIdsOf entries).Nodup) {nowMilliseconds : UInt64}
    {entry : CommandPendingRequest limits}
    (hentry : entry ∈ entries.filter (isExpired nowMilliseconds)) :
    contentsOf entries entry.requestId = some entry.data ∧
      entry.deadlineMilliseconds ≤ nowMilliseconds := by
  obtain ⟨hmem, hexpired⟩ := List.mem_filter.mp hentry
  obtain ⟨hactive, hdeadline⟩ := isExpired_iff.mp hexpired
  have hpending := isPending_iff.mpr ⟨hactive, rfl⟩
  exact ⟨(contentsOf_eq_some_iff hdistinct).mpr ⟨entry, hmem, hpending, rfl⟩, hdeadline⟩

/-- A pending identifier is in the snapshot exactly when its deadline has come. -/
theorem mem_expired_iff {entries : List (CommandPendingRequest limits)}
    (hdistinct : (pendingIdsOf entries).Nodup) {nowMilliseconds : UInt64}
    {requestId : CommandRequestId} {request : PendingData limits}
    (hcontents : contentsOf entries requestId = some request) :
    requestId ∈ (entries.filter (isExpired nowMilliseconds)).map (fun entry => entry.requestId) ↔
      request.deadlineMilliseconds ≤ nowMilliseconds := by
  constructor
  · intro hmem
    obtain ⟨entry, hentry, rfl⟩ := List.mem_map.mp hmem
    obtain ⟨hdata, hdeadline⟩ := contentsOf_of_mem_expired hdistinct hentry
    obtain rfl : entry.data = request := Option.some.inj (hdata.symm.trans hcontents)
    exact hdeadline
  · intro hdeadline
    obtain ⟨entry, hmem, hpending, rfl⟩ := (contentsOf_eq_some_iff hdistinct).mp hcontents
    obtain ⟨hactive, rfl⟩ := isPending_iff.mp hpending
    have hexpired := isExpired_iff.mpr ⟨hactive, hdeadline⟩
    exact List.mem_map_of_mem (List.mem_filter.mpr ⟨hmem, hexpired⟩)

/-- **What the critical section of `Expire` does.** -/
theorem expireEntries_spec {entries : List (CommandPendingRequest limits)}
    (hdistinct : (pendingIdsOf entries).Nodup) (nowMilliseconds : UInt64)
    {expired after : List (CommandPendingRequest limits)}
    (hexpire : expireEntries nowMilliseconds entries = (expired, after)) :
    after.length = entries.length ∧
      (pendingIdsOf entries).Perm
        (expired.map (fun entry => entry.requestId) ++ pendingIdsOf after) ∧
      (∀ entry ∈ expired, contentsOf entries entry.requestId = some entry.data) ∧
      (∀ requestId request, contentsOf entries requestId = some request →
        (requestId ∈ expired.map (fun entry => entry.requestId) ↔
          request.deadlineMilliseconds ≤ nowMilliseconds)) ∧
      ∀ requestId, contentsOf after requestId =
        if requestId ∈ expired.map (fun entry => entry.requestId) then none
        else contentsOf entries requestId := by
  rw [expireEntries_eq] at hexpire
  obtain ⟨rfl, rfl⟩ := Prod.mk.inj hexpire
  have hperm := pendingIdsOf_perm_expired nowMilliseconds entries
  have hnodup := hperm.nodup_iff.mp hdistinct
  have hafter : (pendingIdsOf (entries.map (clearExpired nowMilliseconds))).Nodup :=
    (List.nodup_append.mp hnodup).2.1
  refine ⟨List.length_map _, hperm,
    fun entry hentry => (contentsOf_of_mem_expired hdistinct hentry).1,
    fun requestId request hcontents => mem_expired_iff hdistinct hcontents,
    fun requestId => ?_⟩
  split_ifs with hmem
  · by_contra hsome
    have hstays := mem_pendingIdsOf_iff_contentsOf.mpr hsome
    exact (List.disjoint_of_nodup_append hnodup) hmem hstays
  · -- the slots that stay are those that are pending and not expired
    ext request
    rw [contentsOf_eq_some_iff hafter, contentsOf_eq_some_iff hdistinct]
    constructor
    · intro h
      obtain ⟨cleared, hcleared, hpending, rfl⟩ := h
      obtain ⟨entry, hentry, rfl⟩ := List.mem_map.mp hcleared
      obtain ⟨hexpired, hpending'⟩ :=
        (isPending_clearExpired nowMilliseconds requestId entry).mp hpending
      refine ⟨entry, hentry, hpending', ?_⟩
      simp [clearExpired, hexpired]
    · intro h
      obtain ⟨entry, hentry, hpending, rfl⟩ := h
      have hexpired : entry.isExpired nowMilliseconds = false := by
        by_contra hexp
        obtain ⟨-, rfl⟩ := isPending_iff.mp hpending
        refine hmem ?_
        exact List.mem_map_of_mem (List.mem_filter.mpr ⟨hentry, Bool.not_eq_false _ ▸ hexp⟩)
      refine ⟨clearExpired nowMilliseconds entry, List.mem_map_of_mem hentry,
        (isPending_clearExpired nowMilliseconds requestId entry).mpr ⟨hexpired, hpending⟩, ?_⟩
      simp [clearExpired, hexpired]

end CommandPendingRequestPool

/-! ### The pool -/

/-- `CommandPendingRequestPool<Capacity>`: a table that is absent or has `capacity`
slots, no two of them active under one identifier. -/
structure CommandPendingRequestPool (limits : EnvelopeLimits) (capacity : ℕ) where
  entries : List (CommandPendingRequest limits)
  sized : entries = [] ∨ entries.length = capacity
  distinct : (CommandPendingRequestPool.pendingIdsOf entries).Nodup

namespace CommandPendingRequestPool

variable {limits : EnvelopeLimits} {capacity : ℕ}

/-- A new pool: the table is not allocated yet. -/
def initial : CommandPendingRequestPool limits capacity :=
  ⟨[], Or.inl rfl, by simp [pendingIdsOf]⟩

/-- What the pool remembers. -/
def contents (pool : CommandPendingRequestPool limits capacity) :
    PartialMap CommandRequestId (PendingData limits) :=
  contentsOf pool.entries

/-- The pending identifiers, slot by slot. -/
def pendingIds (pool : CommandPendingRequestPool limits capacity) : List CommandRequestId :=
  pendingIdsOf pool.entries

/-- `CommandPendingRequestPool::Add`. -/
def add (pool : CommandPendingRequestPool limits capacity) (requestId : CommandRequestId)
    (request : PendingData limits) :
    CommandPendingStatus × CommandPendingRequestPool limits capacity :=
  let result := addEntries capacity pool.entries requestId request
  (result.1,
    { entries := result.2
      sized := Or.inr (addEntries_spec pool.sized requestId request rfl).1
      distinct := by
        rcases (addEntries_spec pool.sized requestId request rfl).2 with
          ⟨-, -, -, hids⟩ | ⟨-, -, -, -, hids⟩ | ⟨-, habsent, -, -, hperm⟩
        · exact hids ▸ pool.distinct
        · exact hids ▸ pool.distinct
        · exact hperm.nodup_iff.mpr (List.nodup_cons.mpr ⟨habsent, pool.distinct⟩) })

/-- `CommandPendingRequestPool::Complete`. -/
def complete (pool : CommandPendingRequestPool limits capacity) (requestId : CommandRequestId)
    (finalResponse : Bool) :
    CommandPendingStatus × CommandPendingRequestPool limits capacity :=
  let result := completeEntries requestId finalResponse pool.entries
  have hlength := (completeEntries_spec pool.distinct requestId finalResponse rfl).1
  (result.1,
    { entries := result.2
      sized := by
        rcases pool.sized with hnil | hsized
        · refine Or.inl (List.length_eq_zero_iff.mp ?_)
          rw [hlength, hnil, List.length_nil]
        · exact Or.inr (hlength.trans hsized)
      distinct := by
        rcases (completeEntries_spec pool.distinct requestId finalResponse rfl).2 with
          ⟨-, -, hsame⟩ | ⟨-, -, -, ⟨-, -, hperm⟩ | ⟨-, -, hids⟩⟩
        · exact hsame ▸ pool.distinct
        · exact (List.nodup_cons.mp (hperm.nodup_iff.mp pool.distinct)).2
        · exact hids ▸ pool.distinct })

/-- The critical section of `CommandPendingRequestPool::Expire`: the snapshot that
the callbacks are then run on, and the pool without it. -/
def expire (pool : CommandPendingRequestPool limits capacity) (nowMilliseconds : UInt64) :
    List (CommandPendingRequest limits) × CommandPendingRequestPool limits capacity :=
  let result := expireEntries nowMilliseconds pool.entries
  have hspec := expireEntries_spec pool.distinct nowMilliseconds
    (show expireEntries nowMilliseconds pool.entries = (result.1, result.2) from rfl)
  (result.1,
    { entries := result.2
      sized := by
        rcases pool.sized with hnil | hsized
        · refine Or.inl (List.length_eq_zero_iff.mp ?_)
          rw [hspec.1, hnil, List.length_nil]
        · exact Or.inr (hspec.1.trans hsized)
      distinct := (List.nodup_append.mp (hspec.2.1.nodup_iff.mp pool.distinct)).2.1 })

/-- `CommandPendingRequestPool::ActiveCount`. -/
def activeCount (pool : CommandPendingRequestPool limits capacity) : ℕ :=
  pool.entries.countP fun entry => entry.active

/-- What a call of `Add` does to the contents and the pending identifiers. -/
theorem add_spec (pool : CommandPendingRequestPool limits capacity)
    (requestId : CommandRequestId) (request : PendingData limits) :
    ((pool.add requestId request).1 = .duplicateRequestId ∧ requestId ∈ pool.pendingIds ∧
        (pool.add requestId request).2.contents = pool.contents ∧
        (pool.add requestId request).2.pendingIds = pool.pendingIds) ∨
      ((pool.add requestId request).1 = .capacityExhausted ∧ requestId ∉ pool.pendingIds ∧
        pool.pendingIds.length = capacity ∧
        (pool.add requestId request).2.contents = pool.contents ∧
        (pool.add requestId request).2.pendingIds = pool.pendingIds) ∨
      ((pool.add requestId request).1 = .success ∧ requestId ∉ pool.pendingIds ∧
        pool.pendingIds.length < capacity ∧
        (pool.add requestId request).2.contents =
          Function.update pool.contents requestId (some request) ∧
        (pool.add requestId request).2.pendingIds.Perm (requestId :: pool.pendingIds)) :=
  (addEntries_spec pool.sized requestId request rfl).2

/-- What a call of `Complete` does to the contents and the pending identifiers. -/
theorem complete_spec (pool : CommandPendingRequestPool limits capacity)
    (requestId : CommandRequestId) (finalResponse : Bool) :
    ((pool.complete requestId finalResponse).1 = .notFound ∧ requestId ∉ pool.pendingIds ∧
        (pool.complete requestId finalResponse).2.contents = pool.contents ∧
        (pool.complete requestId finalResponse).2.pendingIds = pool.pendingIds) ∨
      ∃ request, (pool.complete requestId finalResponse).1 = .success ∧
        pool.contents requestId = some request ∧
        (((request.responseMode = .single ∨ finalResponse = true) ∧
            (pool.complete requestId finalResponse).2.contents =
              Function.update pool.contents requestId none ∧
            pool.pendingIds.Perm
              (requestId :: (pool.complete requestId finalResponse).2.pendingIds)) ∨
          (¬ (request.responseMode = .single ∨ finalResponse = true) ∧
            (pool.complete requestId finalResponse).2.contents = pool.contents ∧
            (pool.complete requestId finalResponse).2.pendingIds = pool.pendingIds)) := by
  rcases (completeEntries_spec pool.distinct requestId finalResponse rfl).2 with
    ⟨hstatus, habsent, hsame⟩ | hfound
  · exact Or.inl ⟨hstatus, habsent, congrArg contentsOf hsame, congrArg pendingIdsOf hsame⟩
  · exact Or.inr hfound

/-- What the critical section of `Expire` does to the contents and the pending
identifiers. -/
theorem expire_spec (pool : CommandPendingRequestPool limits capacity)
    (nowMilliseconds : UInt64) :
    pool.pendingIds.Perm
        ((pool.expire nowMilliseconds).1.map (fun entry => entry.requestId) ++
          (pool.expire nowMilliseconds).2.pendingIds) ∧
      (∀ entry ∈ (pool.expire nowMilliseconds).1,
        pool.contents entry.requestId = some entry.data) ∧
      (∀ requestId request, pool.contents requestId = some request →
        (requestId ∈ (pool.expire nowMilliseconds).1.map (fun entry => entry.requestId) ↔
          request.deadlineMilliseconds ≤ nowMilliseconds)) ∧
      ∀ requestId, (pool.expire nowMilliseconds).2.contents requestId =
        if requestId ∈ (pool.expire nowMilliseconds).1.map (fun entry => entry.requestId)
        then none else pool.contents requestId :=
  (expireEntries_spec pool.distinct nowMilliseconds rfl).2

theorem mem_pendingIds (pool : CommandPendingRequestPool limits capacity)
    (requestId : CommandRequestId) :
    requestId ∈ pool.pendingIds ↔ pool.contents requestId ≠ none :=
  mem_pendingIdsOf_iff_contentsOf

theorem activeCount_eq_length (pool : CommandPendingRequestPool limits capacity) :
    pool.activeCount = pool.pendingIds.length := by
  rw [activeCount, pendingIds, pendingIdsOf, List.length_map, List.countP_eq_length_filter]

end CommandPendingRequestPool

end EspressioCommand
