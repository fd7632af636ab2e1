import Mathlib.Data.List.Count
import Mathlib.Logic.Function.Basic
import EspressioCommand.Library.Transitions

/-!
# The event references of the executor

`SubmitEvent` acquires a reference of an event and gives it to a work item;
`ProcessWork`, `ReleaseWork` or the rejection path of `SubmitEvent` releases it.
Any number of calls run at the same time, so a call is a point in its function, and
a step of the system is one step of one call or of one work item.  `Prepare` and
`ShutdownExecutor` change the prepared flag and the registry pointer under them.

`Task::TaskExecutor` is not part of this repository.  It is taken as anything that
keeps two rules: an item whose `Submit` returns `Success` goes to one of the two
callbacks, once, and `Stop` does not return before that, though it may return while
the callback still runs; and `Submit` returns `Success` only between a `Start` and
the next return of `Stop`, as nobody would take the item otherwise.

`perform_held` says that a step keeps the references balanced against those who
hold them, and `references_balanced` what that means for whole runs.
-/

namespace EspressioCommand

open Library

variable {ε ρ : Type}

/-- `CommandEventExecutor::WorkItem`. -/
structure WorkItem (ε : Type) where
  event : Option ε := none
deriving DecidableEq

/-- `Task::TaskExecutionStatus`, as far as the executor tells its values apart. -/
inductive TaskExecutionStatus
  | success
  | alreadyInitialized
  | alreadyStarted
  | other
deriving DecidableEq

/-- How the body of `ProcessWork` is left. -/
inductive WorkExit
  /-- A foreign type, or the registry is cleared. -/
  | skipped
  | completed
  /-- Something was thrown, and `catch (...)` has it. -/
  | caught
deriving DecidableEq

/-- What a call of `ProcessWork` does next. -/
inductive WorkPoint
  | test
  | invoke
  /-- Run the destructor of the reference guard. -/
  | leave (exit : WorkExit)
deriving DecidableEq

/-- What a call of `SubmitEvent`, `Prepare` or `ShutdownExecutor` does next. -/
inductive CallPoint (ε ρ : Type)
  -- `SubmitEvent`, behind its test
  | dispatch (event : ε)
  | ref (event : ε)
  | submit (event : ε)
  | unref (event : ε)
  -- `Prepare`, behind its test
  | bindRegistry (registry : ρ)
  | initializeExecutor
  | startExecutor
  | stopFailed
  | unbindRegistry
  | storePrepared
  | registerReceiver
  -- `ShutdownExecutor`, when the executor was not prepared
  | clearRegistry
  | stopUnprepared
  -- and when it was
  | unregisterReceiver
  | stopPrepared
  | clearStopped
deriving DecidableEq

/-- The executor, with the calls that are under way. -/
structure ExecutorSystem (ε ρ : Type) where
  /-- `_registry`. -/
  registry : Option ρ := none
  prepared : Bool := false
  /-- The event manager knows the receiver. -/
  registered : Bool := false
  /-- `_executor` is between a `Start` and the return of a `Stop`. -/
  running : Bool := false
  /-- The accepted items that have not been handed to a callback. -/
  queued : List (WorkItem ε) := []
  processing : List (WorkItem ε × WorkPoint) := []
  calls : List (CallPoint ε ρ) := []
  /-- The calls of `__ref` and of `__unref` that the executor has made. -/
  refs : ε → ℕ := fun _ => 0
  unrefs : ε → ℕ := fun _ => 0

/-- One step. -/
inductive ExecutorAction (ε ρ : Type)
  /-- A call of `SubmitEvent`, up to its test. -/
  | submitEvent (event : Option ε)
  | prepare (registry : ρ)
  | shutdownExecutor
  /-- A step of a call; `status` is what the task executor returns, where it is asked. -/
  | proceed (point : CallPoint ε ρ) (status : TaskExecutionStatus)
  /-- An item is handed to `ProcessWork`. -/
  | take (work : WorkItem ε)
  /-- A step of `ProcessWork`; `thrown` tells how the command ends. -/
  | work (work : WorkItem ε) (point : WorkPoint) (thrown : Bool)
  /-- An item is handed to `ReleaseWork`. -/
  | reclaim (work : WorkItem ε)

namespace ExecutorSystem

variable [DecidableEq ε]

/-! ### The functions -/

/-- `IsInboundCommandEvent`; `inbound` compares the type key. -/
def isInboundCommandEvent (inbound : ε → Bool) : Option ε → Bool
  | none => false
  | some event => inbound event

/-- `__ref`. -/
def ref (s : ExecutorSystem ε ρ) (event : ε) : ExecutorSystem ε ρ :=
  { s with refs := Function.update s.refs event (s.refs event + 1) }

/-- `__unref`. -/
def unref (s : ExecutorSystem ε ρ) (event : ε) : ExecutorSystem ε ρ :=
  { s with unrefs := Function.update s.unrefs event (s.unrefs event + 1) }

/-- `ReleaseWork`, and the destructor of the guard in `ProcessWork`. -/
def releaseWork (s : ExecutorSystem ε ρ) (work : WorkItem ε) : ExecutorSystem ε ρ :=
  match work.event with
  | none => s
  | some event => s.unref event

/-- A step of `ProcessWork` at `point`, and where it goes on. -/
def processWork (inbound : ε → Bool) (s : ExecutorSystem ε ρ) (work : WorkItem ε)
    (thrown : Bool) : WorkPoint → ExecutorSystem ε ρ × Option WorkPoint
  | .test =>
      if !isInboundCommandEvent inbound work.event || s.registry.isNone then
        (s, some (.leave .skipped))
      else (s, some .invoke)
  -- whatever the command does, it ends inside the `try` block
  | .invoke => (s, some (.leave (if thrown then .caught else .completed)))
  | .leave _ => (s.releaseWork work, none)

/-- A step of a call at `point`, and where it goes on.  After its last step with an
effect a call has only to return. -/
def proceed (s : ExecutorSystem ε ρ) (status : TaskExecutionStatus) :
    CallPoint ε ρ → ExecutorSystem ε ρ × Option (CallPoint ε ρ)
  | .dispatch event => (s, some (.ref event))
  | .ref event => (s.ref event, some (.submit event))
  | .submit event =>
      if status = .success then ({ s with queued := s.queued ++ [⟨some event⟩] }, none)
      else (s, some (.unref event))
  | .unref event => (s.unref event, none)
  | .bindRegistry registry => ({ s with registry := some registry }, some .initializeExecutor)
  | .initializeExecutor =>
      if status ≠ .success ∧ status ≠ .alreadyInitialized then (s, some .unbindRegistry)
      else (s, some .startExecutor)
  | .startExecutor =>
      if status = .success then ({ s with running := true }, some .storePrepared)
      else if status = .alreadyStarted then (s, some .storePrepared)
      else (s, some .stopFailed)
  | .stopFailed => ({ s with running := false }, some .unbindRegistry)
  | .unbindRegistry => ({ s with registry := none }, none)
  | .storePrepared => ({ s with prepared := true }, some .registerReceiver)
  | .registerReceiver => ({ s with registered := true }, none)
  | .clearRegistry => ({ s with registry := none }, some .stopUnprepared)
  | .stopUnprepared => ({ s with running := false }, none)
  | .unregisterReceiver => ({ s with registered := false }, some .stopPrepared)
  | .stopPrepared => ({ s with running := false }, some .clearStopped)
  | .clearStopped => ({ s with registry := none }, none)

/-! ### The system -/

/-- What the task executor may return, and when its `Stop` returns. -/
def Permits (s : ExecutorSystem ε ρ) (status : TaskExecutionStatus) : CallPoint ε ρ → Prop
  | .submit _ => status = .success → s.running = true
  | .stopFailed | .stopUnprepared | .stopPrepared => s.queued = []
  | _ => True

instance (s : ExecutorSystem ε ρ) (status : TaskExecutionStatus) (point : CallPoint ε ρ) :
    Decidable (s.Permits status point) :=
  match point with
  | .submit _ => inferInstanceAs (Decidable (_ → _))
  | .stopFailed | .stopUnprepared | .stopPrepared => inferInstanceAs (Decidable (_ = _))
  | .dispatch _ | .ref _ | .unref _ | .bindRegistry _ | .initializeExecutor
  | .startExecutor | .unbindRegistry | .storePrepared | .registerReceiver
  | .clearRegistry | .unregisterReceiver | .clearStopped => .isTrue trivial

/-- What a step can be taken on. -/
def Enabled (s : ExecutorSystem ε ρ) : ExecutorAction ε ρ → Prop
  | .proceed point status => point ∈ s.calls ∧ s.Permits status point
  | .take work => work ∈ s.queued
  | .work work point _ => (work, point) ∈ s.processing
  | .reclaim work => work ∈ s.queued
  | _ => True

instance [DecidableEq ρ] (s : ExecutorSystem ε ρ) (action : ExecutorAction ε ρ) :
    Decidable (s.Enabled action) :=
  match action with
  | .submitEvent _ | .prepare _ | .shutdownExecutor => .isTrue trivial
  | .proceed _ _ => inferInstanceAs (Decidable (_ ∧ _))
  | .take _ => inferInstanceAs (Decidable (_ ∈ _))
  | .work _ _ _ => inferInstanceAs (Decidable (_ ∈ _))
  | .reclaim _ => inferInstanceAs (Decidable (_ ∈ _))

/-- The state after a step. -/
def perform [DecidableEq ρ] (inbound : ε → Bool) (s : ExecutorSystem ε ρ) :
    ExecutorAction ε ρ → ExecutorSystem ε ρ
  | .submitEvent event =>
      if !s.prepared || !isInboundCommandEvent inbound event then s
      else { s with calls := s.calls ++ (event.map CallPoint.dispatch).toList }
  | .prepare registry =>
      if s.prepared then s else { s with calls := s.calls ++ [.bindRegistry registry] }
  | .shutdownExecutor =>
      -- the exchange stores `false` in any case
      if !s.prepared then { s with calls := s.calls ++ [.clearRegistry] }
      else { s with prepared := false, calls := s.calls ++ [.unregisterReceiver] }
  | .proceed point status =>
      let result := s.proceed status point
      { result.1 with calls := s.calls.erase point ++ result.2.toList }
  | .take work =>
      { s with
        queued := s.queued.erase work
        processing := s.processing ++ [(work, .test)] }
  | .work work point thrown =>
      let result := s.processWork inbound work thrown point
      { result.1 with
        processing := s.processing.erase (work, point) ++
          (result.2.map fun next => (work, next)).toList }
  | .reclaim work => { s.releaseWork work with queued := s.queued.erase work }

/-- The step relation. -/
def Step [DecidableEq ρ] (inbound : ε → Bool) (s : ExecutorSystem ε ρ)
    (action : ExecutorAction ε ρ) (after : ExecutorSystem ε ρ) : Prop :=
  s.Enabled action ∧ after = s.perform inbound action

/-! ### Who holds a reference -/

/-- The calls of `__ref` minus the calls of `__unref`. -/
def balance (s : ExecutorSystem ε ρ) (event : ε) : ℤ := s.refs event - s.unrefs event

/-- The work items of an event that are queued or being processed. -/
def items (s : ExecutorSystem ε ρ) (event : ε) : ℕ :=
  s.queued.countP (fun work => work.event = some event) +
    s.processing.countP fun entry => entry.1.event = some event

/-- A call of `SubmitEvent` that is behind its `__ref`, and before its `__unref` or its
return. -/
def Acquired (event : ε) : CallPoint ε ρ → Bool
  | .submit other => other = event
  | .unref other => other = event
  | _ => false

/-- The calls of `SubmitEvent` that have acquired an event and not passed it on. -/
def acquired (s : ExecutorSystem ε ρ) (event : ε) : ℕ := s.calls.countP (Acquired event)

/-- Every reference is held by a work item or by a call of `SubmitEvent`, and a stopped
task executor has no items left. -/
structure ReferenceInvariant (s : ExecutorSystem ε ρ) : Prop where
  balanced : ∀ event, s.refs event = s.unrefs event + s.items event + s.acquired event
  drained : s.running = false → s.queued = []

theorem referenceInvariant_initial : ReferenceInvariant ({} : ExecutorSystem ε ρ) where
  balanced := by
    intro event
    rfl
  drained := fun _ => rfl

@[simp] theorem refs_ref (s : ExecutorSystem ε ρ) (event other : ε) :
    (s.ref event).refs other = s.refs other + if event = other then 1 else 0 := by
  by_cases h : other = event
  · subst h
    simp [ref]
  · simp [ref, h, Ne.symm h]

@[simp] theorem unrefs_unref (s : ExecutorSystem ε ρ) (event other : ε) :
    (s.unref event).unrefs other = s.unrefs other + if event = other then 1 else 0 := by
  by_cases h : other = event
  · subst h
    simp [unref]
  · simp [unref, h, Ne.symm h]

@[simp] theorem unrefs_ref (s : ExecutorSystem ε ρ) (event : ε) :
    (s.ref event).unrefs = s.unrefs := rfl

@[simp] theorem refs_unref (s : ExecutorSystem ε ρ) (event : ε) :
    (s.unref event).refs = s.refs := rfl

@[simp] theorem items_ref (s : ExecutorSystem ε ρ) (event : ε) :
    (s.ref event).items = s.items := rfl

@[simp] theorem items_unref (s : ExecutorSystem ε ρ) (event : ε) :
    (s.unref event).items = s.items := rfl

@[simp] theorem unrefs_releaseWork (s : ExecutorSystem ε ρ) (work : WorkItem ε) (event : ε) :
    (s.releaseWork work).unrefs event =
      s.unrefs event + if work.event = some event then 1 else 0 := by
  unfold releaseWork
  cases work.event <;> simp

/-- Releasing an item changes a count and nothing else. -/
theorem releaseWork_eq (s : ExecutorSystem ε ρ) (work : WorkItem ε) :
    s.releaseWork work = { s with unrefs := (s.releaseWork work).unrefs } := by
  unfold releaseWork
  cases work.event <;> rfl

/-- A step of a call moves references between the counters, the queue and the call. -/
theorem proceed_balanced (s : ExecutorSystem ε ρ) (status : TaskExecutionStatus)
    (point : CallPoint ε ρ) (event : ε) :
    (s.proceed status point).1.refs event + s.unrefs event + s.items event +
        (if Acquired event point then 1 else 0) =
      s.refs event + (s.proceed status point).1.unrefs event +
        (s.proceed status point).1.items event +
          (s.proceed status point).2.toList.countP (Acquired event) := by
  cases point with
  | dispatch other => simp [proceed, Acquired]
  | ref other =>
      simp only [proceed, Acquired, refs_ref, unrefs_ref, items_ref, Option.toList_some,
        List.countP_singleton, decide_eq_true_eq, Bool.false_eq_true, if_false]
      omega
  | submit other =>
      by_cases hstatus : status = .success
      · -- the item has the reference now
        simp [proceed, hstatus, Acquired, items]
        omega
      · simp [proceed, hstatus, Acquired]
  | unref other =>
      simp [proceed, Acquired]
      omega
  | initializeExecutor =>
      simp only [proceed, Acquired, Bool.false_eq_true, if_false]
      split_ifs <;> simp [Acquired]
  | startExecutor =>
      simp only [proceed, Acquired, Bool.false_eq_true, if_false]
      split_ifs <;> simp [Acquired, items]
  | _ => simp [proceed, Acquired, items]

/-- A step of `ProcessWork` releases a reference exactly when the call is over. -/
theorem processWork_balanced (inbound : ε → Bool) (s : ExecutorSystem ε ρ) (work : WorkItem ε)
    (thrown : Bool) (point : WorkPoint) (event : ε) :
    (s.processWork inbound work thrown point).1.unrefs event +
        ((s.processWork inbound work thrown point).2.map fun next =>
          (work, next)).toList.countP (fun entry => entry.1.event = some event) =
      s.unrefs event + if work.event = some event then 1 else 0 := by
  cases point with
  | test =>
      simp only [processWork]
      split_ifs <;> simp [*]
  | invoke => simp [processWork, List.countP_singleton]
  | leave exit => simp [processWork]

theorem processWork_fst_eq (inbound : ε → Bool) (s : ExecutorSystem ε ρ) (work : WorkItem ε)
    (thrown : Bool) (point : WorkPoint) :
    (s.processWork inbound work thrown point).1 =
      { s with unrefs := (s.processWork inbound work thrown point).1.unrefs } := by
  cases point with
  | test =>
      simp only [processWork]
      split_ifs <;> rfl
  | invoke => rfl
  | leave exit => exact releaseWork_eq s work

/-- `Stop` returns only when the queue is empty, and nothing is queued behind it. -/
theorem proceed_drained {s : ExecutorSystem ε ρ} {status : TaskExecutionStatus}
    {point : CallPoint ε ρ} (hpermits : s.Permits status point)
    (hdrained : s.running = false → s.queued = []) :
    (s.proceed status point).1.running = false → (s.proceed status point).1.queued = [] := by
  cases point with
  | submit event =>
      by_cases hstatus : status = .success
      · subst hstatus
        have hrunning : s.running = true := hpermits rfl
        simp [proceed, hrunning]
      · simpa [proceed, hstatus] using hdrained
  | stopFailed => exact fun _ => hpermits
  | stopUnprepared => exact fun _ => hpermits
  | stopPrepared => exact fun _ => hpermits
  | initializeExecutor =>
      simp only [proceed]
      split_ifs <;> exact hdrained
  | startExecutor =>
      simp only [proceed]
      split_ifs with hsuccess hstarted
      · intro hstopped
        cases hstopped
      · exact hdrained
      · exact hdrained
  | _ => exact hdrained

variable [DecidableEq ρ] {inbound : ε → Bool}

/-- **Conservation of references.** -/
theorem ReferenceInvariant.proceed {s : ExecutorSystem ε ρ} (h : ReferenceInvariant s)
    {point : CallPoint ε ρ} {status : TaskExecutionStatus} (hmem : point ∈ s.calls)
    (hpermits : s.Permits status point) :
    ReferenceInvariant (s.perform inbound (.proceed point status)) where
  balanced := by
    intro event
    have hbefore := h.balanced event
    have hstep := proceed_balanced s status point event
    have hcalls := countP_eq_erase_add hmem (Acquired event)
    simp only [perform, acquired, items, List.countP_append] at hbefore hstep ⊢
    omega
  drained := proceed_drained hpermits h.drained

theorem ReferenceInvariant.work {s : ExecutorSystem ε ρ} (h : ReferenceInvariant s)
    {work : WorkItem ε} {point : WorkPoint} (hmem : (work, point) ∈ s.processing)
    (thrown : Bool) :
    ReferenceInvariant (s.perform inbound (.work work point thrown)) := by
  have hframe := processWork_fst_eq inbound s work thrown point
  constructor
  · intro event
    have hbefore := h.balanced event
    have hstep := processWork_balanced inbound s work thrown point event
    have hprocessing := countP_eq_erase_add hmem fun entry => entry.1.event = some event
    simp only [perform, acquired, items, List.countP_append] at hbefore hstep ⊢
    rw [hframe]
    simp only [decide_eq_true_eq] at *
    omega
  · simp only [perform]
    rw [hframe]
    exact h.drained

theorem ReferenceInvariant.take {s : ExecutorSystem ε ρ} (h : ReferenceInvariant s)
    {work : WorkItem ε} (hmem : work ∈ s.queued) :
    ReferenceInvariant (s.perform inbound (.take work)) where
  balanced := by
    intro event
    have hbefore := h.balanced event
    have hqueued := countP_eq_erase_add hmem fun work => work.event = some event
    simp only [perform, acquired, items, List.countP_append, List.countP_singleton] at hbefore ⊢
    omega
  drained := by
    intro hstopped
    rw [h.drained hstopped] at hmem
    cases hmem

theorem ReferenceInvariant.reclaim {s : ExecutorSystem ε ρ} (h : ReferenceInvariant s)
    {work : WorkItem ε} (hmem : work ∈ s.queued) :
    ReferenceInvariant (s.perform inbound (.reclaim work)) := by
  have hframe := releaseWork_eq s work
  constructor
  · intro event
    have hbefore := h.balanced event
    have hqueued := countP_eq_erase_add hmem fun work => work.event = some event
    have hrelease := unrefs_releaseWork s work event
    simp only [perform, acquired, items, decide_eq_true_eq] at hbefore hqueued ⊢
    rw [hframe]
    simp only
    omega
  · intro hstopped
    rw [perform, hframe] at hstopped
    rw [h.drained hstopped] at hmem
    cases hmem

/-- The three actions that begin a call. -/
def Begins : ExecutorAction ε ρ → Prop
  | .submitEvent _ | .prepare _ | .shutdownExecutor => True
  | _ => False

variable (inbound) in
/-- A call that begins changes the flag at most, and holds nothing yet. -/
theorem perform_of_begins (s : ExecutorSystem ε ρ) {action : ExecutorAction ε ρ}
    (hbegins : Begins action) :
    ∃ prepared points, (∀ event, points.countP (Acquired event) = 0) ∧
      s.perform inbound action =
        { s with prepared := prepared, calls := s.calls ++ points } := by
  have hnothing : s = { s with prepared := s.prepared, calls := s.calls ++ [] } := by
    rw [List.append_nil]
  cases action with
  | submitEvent event =>
      simp only [perform]
      split_ifs
      · exact ⟨s.prepared, [], fun _ => rfl, hnothing⟩
      · refine ⟨s.prepared, _, fun other => ?_, rfl⟩
        cases event <;> rfl
  | prepare registry =>
      simp only [perform]
      split_ifs
      · exact ⟨s.prepared, [], fun _ => rfl, hnothing⟩
      · exact ⟨s.prepared, [.bindRegistry registry], fun _ => rfl, rfl⟩
  | shutdownExecutor =>
      simp only [perform]
      split_ifs
      · exact ⟨s.prepared, [.clearRegistry], fun _ => rfl, rfl⟩
      · exact ⟨false, [.unregisterReceiver], fun _ => rfl, rfl⟩
  | _ => exact absurd hbegins id

theorem ReferenceInvariant.begins {s : ExecutorSystem ε ρ} (h : ReferenceInvariant s)
    {action : ExecutorAction ε ρ} (hbegins : Begins action) :
    ReferenceInvariant (s.perform inbound action) := by
  obtain ⟨prepared, points, hpoints, hperform⟩ := perform_of_begins inbound s hbegins
  rw [hperform]
  refine ⟨?_, h.drained⟩
  intro event
  have hbefore := h.balanced event
  simp only [acquired, items, List.countP_append, hpoints event, Nat.add_zero] at hbefore ⊢
  exact hbefore

/-- Every step keeps the references balanced. -/
theorem Step.referenceInvariant {s after : ExecutorSystem ε ρ} {action : ExecutorAction ε ρ}
    (hstep : Step inbound s action after) (h : ReferenceInvariant s) :
    ReferenceInvariant after := by
  obtain ⟨henabled, rfl⟩ := hstep
  cases action with
  | submitEvent event => exact h.begins trivial
  | prepare registry => exact h.begins trivial
  | shutdownExecutor => exact h.begins trivial
  | proceed point status => exact h.proceed henabled.1 henabled.2
  | take work => exact h.take henabled
  | work work point thrown => exact h.work henabled thrown
  | reclaim work => exact h.reclaim henabled

/-! ### Whole runs -/

/-- A step releases a reference of the event. -/
def Releases (τ : Transition (ExecutorSystem ε ρ) (ExecutorAction ε ρ)) (event : ε) : Prop :=
  τ.before.unrefs event < τ.after.unrefs event

/-- The `Stop` of a call of `ShutdownExecutor` returns. -/
def ShutsDown (action : ExecutorAction ε ρ) : Prop :=
  ∃ status, action = .proceed .stopUnprepared status ∨ action = .proceed .stopPrepared status

/-- `ShutdownExecutor` has stopped the task executor, and no `Prepare` has started it
since. -/
def AfterShutdown (trace : List (Transition (ExecutorSystem ε ρ) (ExecutorAction ε ρ))) : Prop :=
  ∃ earlier τ later, trace = earlier ++ τ :: later ∧ ShutsDown τ.label ∧
    ∀ σ ∈ later, σ.label ≠ .proceed .startExecutor .success

/-- No call is in progress, of `ProcessWork` neither. -/
def Idle (s : ExecutorSystem ε ρ) : Prop := s.calls = [] ∧ s.processing = []

omit [DecidableEq ρ] in
/-- No step of a call both acquires and releases. -/
theorem proceed_refs_or_unrefs (s : ExecutorSystem ε ρ) (status : TaskExecutionStatus)
    (point : CallPoint ε ρ) :
    (s.proceed status point).1.refs = s.refs ∨
      (s.proceed status point).1.unrefs = s.unrefs := by
  cases point with
  | ref event => exact Or.inr rfl
  | submit event =>
      simp only [proceed]
      split_ifs <;> exact Or.inl rfl
  | initializeExecutor =>
      simp only [proceed]
      split_ifs <;> exact Or.inl rfl
  | startExecutor =>
      simp only [proceed]
      split_ifs <;> exact Or.inl rfl
  | _ => exact Or.inl rfl

theorem perform_refs_or_unrefs (s : ExecutorSystem ε ρ) (action : ExecutorAction ε ρ) :
    (s.perform inbound action).refs = s.refs ∨ (s.perform inbound action).unrefs = s.unrefs := by
  by_cases hbegins : Begins action
  · obtain ⟨prepared, points, -, hperform⟩ := perform_of_begins inbound s hbegins
    rw [hperform]
    exact Or.inl rfl
  · cases action with
    | proceed point status => exact s.proceed_refs_or_unrefs status point
    | take work => exact Or.inl rfl
    | work work point thrown =>
        refine Or.inl ?_
        rw [perform, processWork_fst_eq]
    | reclaim work =>
        refine Or.inl ?_
        rw [perform, releaseWork_eq]
    | _ => exact absurd trivial hbegins

omit [DecidableEq ρ] in
theorem proceed_running_eq_false {s : ExecutorSystem ε ρ} {status : TaskExecutionStatus}
    {point : CallPoint ε ρ} (hstopped : s.running = false)
    (hstart : ¬ (point = .startExecutor ∧ status = .success)) :
    (s.proceed status point).1.running = false := by
  cases point with
  | submit event =>
      simp only [proceed]
      split_ifs <;> exact hstopped
  | initializeExecutor =>
      simp only [proceed]
      split_ifs <;> exact hstopped
  | startExecutor =>
      have hstatus : status ≠ .success := fun hsuccess => hstart ⟨rfl, hsuccess⟩
      simp only [proceed, if_neg hstatus]
      split_ifs <;> exact hstopped
  | stopFailed => rfl
  | stopUnprepared => rfl
  | stopPrepared => rfl
  | _ => exact hstopped

/-- Only a successful `Start` gets a stopped task executor going. -/
theorem Step.running_eq_false {s after : ExecutorSystem ε ρ} {action : ExecutorAction ε ρ}
    (hstep : Step inbound s action after) (hstopped : s.running = false)
    (hstart : action ≠ .proceed .startExecutor .success) : after.running = false := by
  obtain ⟨-, rfl⟩ := hstep
  by_cases hbegins : Begins action
  · obtain ⟨prepared, points, -, hperform⟩ := perform_of_begins inbound s hbegins
    rw [hperform]
    exact hstopped
  · cases action with
    | proceed point status =>
        refine proceed_running_eq_false hstopped ?_
        rintro ⟨rfl, rfl⟩
        exact hstart rfl
    | take work => exact hstopped
    | work work point thrown =>
        rw [perform, processWork_fst_eq]
        exact hstopped
    | reclaim work =>
        rw [perform, releaseWork_eq]
        exact hstopped
    | _ => exact absurd trivial hbegins

theorem Step.running_of_shutsDown {s after : ExecutorSystem ε ρ} {action : ExecutorAction ε ρ}
    (hstep : Step inbound s action after) (hshut : ShutsDown action) :
    after.running = false := by
  obtain ⟨-, rfl⟩ := hstep
  obtain ⟨status, rfl | rfl⟩ := hshut <;> rfl

omit [DecidableEq ρ] in
/-- The balance of an event is what its work items and the calls hold. -/
theorem ReferenceInvariant.balance_eq {s : ExecutorSystem ε ρ} (h : ReferenceInvariant s)
    (event : ε) : s.balance event = s.items event + s.acquired event := by
  have hbalanced := h.balanced event
  simp only [balance]
  omega

/-- A step that releases acquires nothing, so what it releases was acquired before. -/
theorem Step.balance_pos {τ : Transition (ExecutorSystem ε ρ) (ExecutorAction ε ρ)}
    (hstep : Step inbound τ.before τ.label τ.after) (hafter : ReferenceInvariant τ.after)
    {event : ε} (hreleases : Releases τ event) : 0 < τ.before.balance event := by
  have hbalanced := hafter.balanced event
  have hrefs : τ.after.refs = τ.before.refs := by
    simp only [Releases] at hreleases
    rw [hstep.2] at hreleases ⊢
    rcases perform_refs_or_unrefs τ.before τ.label with hrefs | hunrefs
    · exact hrefs
    · rw [hunrefs] at hreleases
      exact absurd hreleases (Nat.lt_irrefl _)
  rw [hrefs] at hbalanced
  simp only [Releases] at hreleases
  simp only [balance]
  omega

variable {trace : List (Transition (ExecutorSystem ε ρ) (ExecutorAction ε ρ))}
  {final : ExecutorSystem ε ρ}

/-- Behind `ShutdownExecutor` the task executor stands still. -/
theorem running_eq_false_of_afterShutdown
    (hrun : Run (Step inbound) ({} : ExecutorSystem ε ρ) trace final)
    (hafter : AfterShutdown trace) : final.running = false := by
  obtain ⟨earlier, τ, later, hsplit, hshut, hlater⟩ := hafter
  have hstop : ∀ (s : ExecutorSystem ε ρ) action after, Step inbound s action after →
      ShutsDown action → after.running = false :=
    fun _ _ _ hstep => hstep.running_of_shutsDown
  have hstay : ∀ (s : ExecutorSystem ε ρ) action after, s.running = false →
      Step inbound s action after → action ≠ .proceed .startExecutor .success →
        after.running = false :=
    fun _ _ _ h hstep => hstep.running_eq_false h
  exact hrun.since (P := fun s => s.running = false) hstop hstay hsplit hshut hlater

/-- **The references are balanced.**  However the calls and the work items are
interleaved and whatever becomes of them: what has been acquired of an event and not
released is what its work items and the calls of `SubmitEvent` hold; a reference is
released only when one is held; and nothing is held behind `ShutdownExecutor`, when
no call is in progress. -/
theorem references_balanced
    (hrun : Run (Step inbound) ({} : ExecutorSystem ε ρ) trace final) :
    (∀ event, final.balance event = final.items event + final.acquired event) ∧
      (∀ τ ∈ trace, ∀ event, Releases τ event → 0 < τ.before.balance event) ∧
      (AfterShutdown trace → final.Idle → ∀ event, final.balance event = 0) := by
  have hkeep : ∀ (s : ExecutorSystem ε ρ) action after, ReferenceInvariant s →
      Step inbound s action after → ReferenceInvariant after :=
    fun _ _ _ h hstep => hstep.referenceInvariant h
  have hfinal := hrun.invariant referenceInvariant_initial hkeep
  refine ⟨hfinal.balance_eq, ?_, ?_⟩
  · intro τ hτ event hreleases
    obtain ⟨hstep, -, hafter⟩ := hrun.transition_spec referenceInvariant_initial hkeep τ hτ
    exact hstep.balance_pos hafter hreleases
  · intro hafter hidle event
    have hqueued := hfinal.drained (running_eq_false_of_afterShutdown hrun hafter)
    obtain ⟨hcalls, hprocessing⟩ := hidle
    rw [hfinal.balance_eq event]
    simp [items, acquired, hqueued, hprocessing, hcalls]

/-- The executor is prepared and gets event 7 three times: the command of the first
throws, the second is rejected, and the third is still queued when the executor is shut
down.  Event 12 has a foreign type. -/
def shutdownSession : List (ExecutorAction ℕ Unit) :=
  [.prepare (), .proceed (.bindRegistry ()) .other, .proceed .initializeExecutor .success,
    .proceed .startExecutor .success, .proceed .storePrepared .other,
    .proceed .registerReceiver .other, .submitEvent none, .submitEvent (some 12),
    .submitEvent (some 7), .proceed (.dispatch 7) .other, .proceed (.ref 7) .other,
    .proceed (.submit 7) .success, .take ⟨some 7⟩, .submitEvent (some 7),
    .proceed (.dispatch 7) .other, .proceed (.ref 7) .other, .proceed (.submit 7) .other,
    .proceed (.unref 7) .other, .work ⟨some 7⟩ .test false, .submitEvent (some 7),
    .proceed (.dispatch 7) .other, .proceed (.ref 7) .other, .proceed (.submit 7) .success,
    .shutdownExecutor, .proceed .unregisterReceiver .other, .reclaim ⟨some 7⟩,
    .work ⟨some 7⟩ .invoke true, .work ⟨some 7⟩ (.leave .caught) false,
    .proceed .stopPrepared .success, .proceed .clearStopped .other]

/-- The end of that session: three references acquired, three released. -/
theorem references_balanced_session :
    ∃ final : ExecutorSystem ℕ Unit,
      final = shutdownSession.foldl (perform fun event => event < 10) {} ∧
        final.refs 7 = 3 ∧ final.unrefs 7 = 3 ∧ final.refs 12 = 0 ∧
        ∀ event, final.balance event = 0 := by
  have hrun := @Run.of_schedule _ _ Enabled (perform fun event => event < 10)
    ({} : ExecutorSystem ℕ Unit) shutdownSession (by decide)
  refine ⟨_, rfl, by decide, by decide, by decide, ?_⟩
  refine (references_balanced hrun).2.2 ?_ ⟨by decide, by decide⟩
  -- the session ends with the `Stop` of `ShutdownExecutor` and the step behind it
  refine ⟨schedule _ _ (shutdownSession.take 28), ⟨_, _, _⟩, [⟨_, _, _⟩], rfl,
    ⟨.success, Or.inr rfl⟩, ?_⟩
  simp

end ExecutorSystem

end EspressioCommand
