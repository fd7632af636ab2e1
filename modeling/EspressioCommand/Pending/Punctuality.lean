import EspressioCommand.Pending.Expiry

/-!
# Timeouts are neither early nor skipped

A request is due in a call of `Expire` when its deadline has come by the time that call is
given.  `Swept` says that it was due in some call since it was registered, whichever thread
made it, and whatever the others did meanwhile.

`reported_iff_of_run` says what becomes of a registration by that: it stays pending exactly
as long as it is neither completed nor swept, and a sweep that comes before its last response
is what runs the callback on it.
-/

namespace EspressioCommand

open Library

variable {ι : Type*} {limits : EnvelopeLimits} {capacity : ℕ}

namespace PoolSystem

/-! ### Where a registration is -/

/-- The registration is in the pool. -/
def Pending (s : PoolSystem ι limits capacity) (n : ℕ) : Prop :=
  n ∈ s.pool.pendingIds.map s.history.owner

/-- The registration has left the pool. -/
def Settled (s : PoolSystem ι limits capacity) (n : ℕ) : Prop :=
  n ∈ s.history.completed ∨ n ∈ s.history.snapshotted.map Prod.fst

/-- What was registered under the number is due at the time. -/
def Due (s : PoolSystem ι limits capacity) (n : ℕ) (nowMilliseconds : UInt64) : Prop :=
  ∃ p, s.history.registered[n]? = some p ∧ p.2.deadlineMilliseconds ≤ nowMilliseconds

namespace Invariant

variable {s : PoolSystem ι limits capacity}

/-- A registration is in one place. -/
theorem count_places (h : Invariant s) {n : ℕ} (hn : n < s.history.registered.length) :
    s.history.completed.count n + (s.history.snapshotted.map Prod.fst).count n +
      (s.pool.pendingIds.map s.history.owner).count n = 1 := by
  have hcount := h.registrations.count_eq n
  rw [List.count_append, List.count_append] at hcount
  rw [hcount]
  exact List.count_eq_one_of_mem List.nodup_range (List.mem_range.mpr hn)

theorem pending_iff (h : Invariant s) {n : ℕ} (hn : n < s.history.registered.length) :
    s.Pending n ↔ ¬ s.Settled n := by
  have hcount := h.count_places hn
  rw [Pending, Settled, ← List.count_pos_iff, ← List.count_pos_iff, ← List.count_pos_iff]
  omega

/-- No registration is both completed and in a snapshot. -/
theorem not_mem_completed (h : Invariant s) {n : ℕ} (hn : n < s.history.registered.length)
    (hsnapshot : n ∈ s.history.snapshotted.map Prod.fst) : n ∉ s.history.completed := by
  have hcount := h.count_places hn
  rw [← List.count_pos_iff] at hsnapshot ⊢
  omega

/-- **What a call of `Expire` takes**: the registrations that are pending and due. -/
theorem mem_snapshotted_expire (h : Invariant s) (thread : ι) (nowMilliseconds : UInt64)
    (n call : ℕ) :
    (n, call) ∈ (s.expire thread nowMilliseconds).history.snapshotted ↔
      (n, call) ∈ s.history.snapshotted ∨
        s.history.calls = call ∧ s.Pending n ∧ s.Due n nowMilliseconds := by
  obtain ⟨-, hdata, hdue, -⟩ := s.pool.expire_spec nowMilliseconds
  -- the slots of the snapshot are those of the registrations that are pending and due
  have htaken : (∃ entry ∈ (s.pool.expire nowMilliseconds).1,
      s.history.owner entry.requestId = n) ↔ s.Pending n ∧ s.Due n nowMilliseconds := by
    constructor
    · rintro ⟨entry, hentry, rfl⟩
      have hcontents := hdata entry hentry
      have hmem := (s.pool.mem_pendingIds entry.requestId).mpr (by simp [hcontents])
      refine ⟨List.mem_map_of_mem hmem, _, h.owned _ _ hcontents, ?_⟩
      exact (hdue _ _ hcontents).mp (List.mem_map_of_mem hentry)
    · rintro ⟨hpending, p, hregistered, hdeadline⟩
      obtain ⟨requestId, hmem, rfl⟩ := List.mem_map.mp hpending
      obtain ⟨request, hcontents⟩ :=
        Option.ne_none_iff_exists'.mp ((s.pool.mem_pendingIds requestId).mp hmem)
      rw [h.owned _ _ hcontents, Option.some.injEq] at hregistered
      obtain rfl := hregistered
      obtain ⟨entry, hentry, rfl⟩ := List.mem_map.mp ((hdue _ _ hcontents).mpr hdeadline)
      exact ⟨entry, hentry, rfl⟩
  rw [← htaken, PoolSystem.expire]
  split_ifs with hempty
  · rw [hempty]
    simp
  · simp only [History.snapshot, History.items, List.mem_append, List.mem_map, List.map_map,
      Function.comp_apply, Prod.mk.injEq]
    refine or_congr_right ⟨?_, ?_⟩
    · rintro ⟨entry, hentry, howner, hcall⟩
      exact ⟨hcall, entry, hentry, howner⟩
    · rintro ⟨hcall, entry, hentry, howner⟩
      exact ⟨entry, hentry, howner, hcall⟩

end Invariant

/-! ### What a step keeps -/

/-- What has been registered, completed and taken is never forgotten. -/
theorem Step.history_grows {s after : PoolSystem ι limits capacity} {action : PoolAction ι limits}
    (hstep : Step s action after) :
    s.history.registered <+: after.history.registered ∧
      s.history.completed ⊆ after.history.completed ∧
      s.history.snapshotted ⊆ after.history.snapshotted := by
  have hsame := List.prefix_refl s.history.registered
  cases hstep with
  | add =>
      rw [PoolSystem.add]
      split_ifs
      · exact ⟨List.prefix_append _ _, List.Subset.refl _, List.Subset.refl _⟩
      · exact ⟨hsame, List.Subset.refl _, List.Subset.refl _⟩
  | complete =>
      rw [PoolSystem.complete]
      split_ifs
      · exact ⟨hsame, List.subset_append_left _ _, List.Subset.refl _⟩
      · exact ⟨hsame, List.Subset.refl _, List.Subset.refl _⟩
  | expire =>
      rw [PoolSystem.expire]
      split_ifs
      · exact ⟨hsame, List.Subset.refl _, List.Subset.refl _⟩
      · exact ⟨hsame, List.Subset.refl _, List.subset_append_left _ _⟩
  | enterCallback | leaveCallback | returnExpire | unwind =>
      exact ⟨hsame, List.Subset.refl _, List.Subset.refl _⟩

theorem Step.settled {s after : PoolSystem ι limits capacity} {action : PoolAction ι limits}
    (hstep : Step s action after) {n : ℕ} (h : s.Settled n) : after.Settled n := by
  obtain ⟨-, hcompleted, hsnapshotted⟩ := hstep.history_grows
  exact h.imp (fun hmem => hcompleted hmem) fun hmem => List.map_subset _ hsnapshotted hmem

/-- Only a call of `Expire` takes registrations. -/
theorem Step.snapshotted_eq {s after : PoolSystem ι limits capacity}
    {action : PoolAction ι limits} (hstep : Step s action after)
    (hother : ∀ thread nowMilliseconds, action ≠ .expire thread nowMilliseconds) :
    after.history.snapshotted = s.history.snapshotted := by
  cases hstep with
  | add =>
      rw [PoolSystem.add]
      split_ifs <;> rfl
  | complete =>
      rw [PoolSystem.complete]
      split_ifs <;> rfl
  | expire => exact absurd rfl (hother _ _)
  | enterCallback | leaveCallback | returnExpire | unwind => rfl

/-! ### Runs -/

/-- The transition is the critical section of the call of `Expire` with the number, and finds
the registration pending and due. -/
def Sweeps (τ : Transition (PoolSystem ι limits capacity) (PoolAction ι limits)) (n call : ℕ) :
    Prop :=
  ∃ thread nowMilliseconds, τ.label = .expire thread nowMilliseconds ∧
    τ.before.history.calls = call ∧ τ.before.Pending n ∧ τ.before.Due n nowMilliseconds

/-- The registration was due in a call of `Expire`. -/
def Swept (trace : List (Transition (PoolSystem ι limits capacity) (PoolAction ι limits)))
    (n : ℕ) : Prop :=
  ∃ τ ∈ trace, ∃ thread nowMilliseconds, τ.label = .expire thread nowMilliseconds ∧
    τ.before.Due n nowMilliseconds

theorem Sweeps.swept {trace : List (Transition (PoolSystem ι limits capacity)
    (PoolAction ι limits))} {τ : Transition (PoolSystem ι limits capacity) (PoolAction ι limits)}
    (hτ : τ ∈ trace) {n call : ℕ} (h : Sweeps τ n call) : Swept trace n := by
  obtain ⟨thread, nowMilliseconds, hlabel, -, -, hdue⟩ := h
  exact ⟨τ, hτ, thread, nowMilliseconds, hlabel, hdue⟩

/-- **A step**: what was due before it has left the pool after it, and what is taken
was pending and due. -/
theorem Step.swept {s after : PoolSystem ι limits capacity} {action : PoolAction ι limits}
    (hstep : Step s action after) (h : Invariant s)
    {trace : List (Transition (PoolSystem ι limits capacity) (PoolAction ι limits))}
    (hsettled : ∀ n, Swept trace n → s.Settled n)
    (hsweeps : ∀ n call, (n, call) ∈ s.history.snapshotted → ∃ τ ∈ trace, Sweeps τ n call) :
    (∀ n, Swept (trace ++ [⟨s, action, after⟩]) n → after.Settled n) ∧
      ∀ n call, (n, call) ∈ after.history.snapshotted →
        ∃ τ ∈ trace ++ [⟨s, action, after⟩], Sweeps τ n call := by
  constructor
  · rintro n ⟨τ, hτ, thread, nowMilliseconds, hlabel, hdue⟩
    rcases List.mem_append.mp hτ with hold | hnew
    · exact hstep.settled (hsettled n ⟨τ, hold, thread, nowMilliseconds, hlabel, hdue⟩)
    · obtain rfl := List.mem_singleton.mp hnew
      obtain rfl : action = .expire thread nowMilliseconds := hlabel
      by_cases hpending : s.Pending n
      · cases hstep with
        | expire =>
            have htaken := (h.mem_snapshotted_expire thread nowMilliseconds n _).mpr
              (Or.inr ⟨rfl, hpending, hdue⟩)
            exact Or.inr (List.mem_map_of_mem htaken)
      · have hn : n < s.history.registered.length := by
          obtain ⟨p, hregistered, -⟩ := hdue
          exact (List.getElem?_eq_some_iff.mp hregistered).1
        rw [h.pending_iff hn, not_not] at hpending
        exact hstep.settled hpending
  · intro n call hmem
    by_cases hexpire : ∃ thread nowMilliseconds, action = .expire thread nowMilliseconds
    · obtain ⟨thread, nowMilliseconds, rfl⟩ := hexpire
      cases hstep with
      | expire =>
          rcases (h.mem_snapshotted_expire thread nowMilliseconds n call).mp hmem with
            hold | ⟨hcall, hpending, hdue⟩
          · obtain ⟨τ, hτ, hsweep⟩ := hsweeps n call hold
            exact ⟨τ, List.mem_append_left _ hτ, hsweep⟩
          · exact ⟨_, List.mem_append_right _ (List.mem_singleton_self _), thread,
              nowMilliseconds, rfl, hcall, hpending, hdue⟩
    · rw [hstep.snapshotted_eq fun thread nowMilliseconds heq =>
        hexpire ⟨thread, nowMilliseconds, heq⟩] at hmem
      obtain ⟨τ, hτ, hsweep⟩ := hsweeps n call hmem
      exact ⟨τ, List.mem_append_left _ hτ, hsweep⟩

theorem swept_of_run
    {trace : List (Transition (PoolSystem ι limits capacity) (PoolAction ι limits))}
    {s : PoolSystem ι limits capacity} (hrun : Run Step initial trace s) :
    Invariant s ∧ (∀ n, Swept trace n → s.Settled n) ∧
      ∀ n call, (n, call) ∈ s.history.snapshotted → ∃ τ ∈ trace, Sweeps τ n call := by
  induction hrun with
  | start =>
      refine ⟨invariant_initial, ?_, ?_⟩
      · rintro n ⟨τ, hτ, -⟩
        cases hτ
      · intro n call hmem
        cases hmem
  | next _ hstep ih =>
      obtain ⟨h, hsettled, hsweeps⟩ := ih
      exact ⟨hstep.invariant h, hstep.swept h hsettled hsweeps⟩

/-- When no call of `Expire` is under way or was left by an exception, the callback has been
run on all that was taken. -/
theorem Invariant.mem_delivered_iff {s : PoolSystem ι limits capacity} (h : Invariant s)
    (hidle : s.frames = []) (hreturned : s.history.unwound = []) (n : ℕ) :
    (∃ d ∈ s.history.delivered, d.1.registration = n) ↔
      n ∈ s.history.snapshotted.map Prod.fst := by
  have hdropped : s.history.dropped = [] := by
    rw [List.eq_nil_iff_forall_not_mem]
    intro p hp
    have hmem := h.dropped p hp
    rw [hreturned] at hmem
    cases hmem
  have hitems := h.items
  rw [hidle, hdropped, framesItems, List.flatMap_nil, List.append_nil, List.append_nil] at hitems
  rw [(hitems.map Prod.fst).mem_iff, List.map_map, List.mem_map]
  rfl

/-- **Timeouts are punctual.**  After every run of any number of threads: a registration is
pending exactly when it is not completed and was due in no call of `Expire`; the callback is
run only on requests that were pending and due in the very call that runs it; and when all
calls of `Expire` have returned it has been run on a registration, once, exactly when this was
due in one of them and not completed. -/
theorem reported_iff_of_run
    {trace : List (Transition (PoolSystem ι limits capacity) (PoolAction ι limits))}
    {s : PoolSystem ι limits capacity} (hrun : Run Step initial trace s) :
    (∀ n, n < s.history.registered.length →
      (s.Pending n ↔ n ∉ s.history.completed ∧ ¬ Swept trace n)) ∧
    (∀ d ∈ s.history.delivered, ∃ τ ∈ trace, Sweeps τ d.1.registration d.2) ∧
    (s.frames = [] → s.history.unwound = [] → ∀ n, n < s.history.registered.length →
      ((∃ d ∈ s.history.delivered, d.1.registration = n) ↔
        n ∉ s.history.completed ∧ Swept trace n) ∧
      (s.history.delivered.map fun d => d.1.registration).count n ≤ 1) := by
  obtain ⟨h, hsettled, hsweeps⟩ := swept_of_run hrun
  have hswept (n : ℕ) (hmem : n ∈ s.history.snapshotted.map Prod.fst) : Swept trace n := by
    obtain ⟨p, htaken, rfl⟩ := List.mem_map.mp hmem
    obtain ⟨τ, hτ, hsweep⟩ := hsweeps p.1 p.2 htaken
    exact hsweep.swept hτ
  refine ⟨?_, ?_, ?_⟩
  · intro n hn
    rw [h.pending_iff hn, Settled, not_or]
    refine and_congr_right fun hcompleted => not_congr ⟨hswept n, ?_⟩
    intro hsweep
    exact (hsettled n hsweep).resolve_left hcompleted
  · intro d hd
    apply hsweeps
    apply h.items.symm.subset
    exact List.mem_append_left _ (List.mem_append_left _ (List.mem_map_of_mem hd))
  · intro hidle hreturned n hn
    constructor
    · rw [h.mem_delivered_iff hidle hreturned]
      constructor
      · intro hmem
        exact ⟨h.not_mem_completed hn hmem, hswept n hmem⟩
      · rintro ⟨hcompleted, hsweep⟩
        exact (hsettled n hsweep).resolve_left hcompleted
    · have honce := h.exclusive.once n
      omega

/-- A request with the deadline 100 is reported by a call of `Expire` at 100. -/
theorem reported_iff_of_run_due :
    ∃ s : PoolSystem Unit {} 1, s.frames = [] ∧
      ∃ d ∈ s.history.delivered, d.1.registration = 0 := by
  let first : PoolSystem Unit {} 1 := initial.add 7 ⟨{}, 100, .single⟩
  have hadded : Run Step initial _ first :=
    Run.next .start (.add (outside_of_frames_nil rfl ()))
  have hexpired : Run Step initial _ (first.expire () 100) :=
    Run.next hadded (.expire (outside_of_frames_nil rfl ()))
  have htop : Top (first.expire () 100).frames () []
      ⟨0, [⟨0, ⟨true, 7, {}, 100, .single, 0⟩⟩], false⟩ [] := ⟨rfl, by simp⟩
  have hentered := Run.next hexpired (.enterCallback htop)
  have hleft := Run.next hentered (.leaveCallback (show Top _ () [] _ [] from ⟨rfl, by simp⟩))
  have hreturned := Run.next hleft (.returnExpire (show Top _ () [] _ [] from ⟨rfl, by simp⟩))
  have hreports := (reported_iff_of_run hreturned).2.2 rfl rfl 0 (by decide)
  refine ⟨_, show [] = [] from rfl, hreports.1.mpr ⟨by decide, ?_⟩⟩
  refine ⟨⟨first, .expire () 100, first.expire () 100⟩, by simp, (), 100, rfl, ?_⟩
  exact ⟨(7, ⟨{}, 100, .single⟩), rfl, by decide⟩

end PoolSystem

end EspressioCommand
