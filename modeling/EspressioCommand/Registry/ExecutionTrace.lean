import EspressioCommand.Registry.Invoke

/-!
# The execution trace of a command

The lambda `execute` runs the `Before` hooks, the callback and the `After` hooks of a
node.  To see which of them it calls, every one is wrapped so that it writes its
`Stage` down; `Executes` is the order and the outcome that the hooks are documented to
have, stated without `execute`.

`follows_iff` says when the two agree: not when the callback throws and there is an
`After` hook to run or a deprecation to announce, since the handler returns past both.
-/

namespace EspressioCommand
namespace CommandRegistry

variable {σ : Type}

/-! ### Recording calls -/

/-- A call that `execute` makes: a hook by its index, or the callback. -/
inductive Stage
  | before (index : ℕ)
  | callback
  | after (index : ℕ)
deriving DecidableEq, Repr

/-- The hook or callback, writing down that it was called. -/
def traced (stage : Stage) (callback : Callback σ) : Callback (σ × List Stage) :=
  fun context state =>
    let ended := (callback context).runFrom state.1
    (ended.1, ended.2, state.2 ++ [stage])

theorem runFrom_traced (stage : Stage) (callback : Callback σ) (context : CommandContext)
    (state : σ) (calls : List Stage) :
    (traced stage callback context).runFrom (state, calls) =
      (((callback context).runFrom state).1, ((callback context).runFrom state).2,
        calls ++ [stage]) := rfl

/-- The hooks of a list, with their indices from `first` on. -/
def tracedHooks (stage : ℕ → Stage) : ℕ → List (Callback σ) → List (Callback (σ × List Stage))
  | _, [] => []
  | first, hook :: rest => traced (stage first) hook :: tracedHooks stage (first + 1) rest

/-- The node whose hooks write down that they were called.  `execute` reads no parameter
of the node. -/
def tracedNode (data : NodeData σ) : NodeData (σ × List Stage) where
  object := data.object
  name := data.name
  description := data.description
  deprecationMessage := data.deprecationMessage
  hidden := data.hidden
  deprecated := data.deprecated
  aliases := data.aliases
  before := tracedHooks .before 0 data.before
  after := tracedHooks .after 0 data.after

/-- Consecutive stages. -/
def stages (stage : ℕ → Stage) (first count : ℕ) : List Stage :=
  (List.range' first count).map stage

theorem stages_succ (stage : ℕ → Stage) (first count : ℕ) :
    stages stage first (count + 1) = stage first :: stages stage (first + 1) count := rfl

/-! ### The documented order -/

/-- The hooks return success one after the other. -/
inductive AllSucceed (context : CommandContext) : List (Callback σ) → σ → σ → Prop
  | nil (state : σ) : AllSucceed context [] state state
  | cons {hook : Callback σ} {rest : List (Callback σ)} {state between final : σ}
      {result : CommandResult} (hreturns : (hook context).Returns state result between)
      (hsuccess : result.success = true) (hrest : AllSucceed context rest between final) :
      AllSucceed context (hook :: rest) state final

/-- The hooks return these results one after the other. -/
inductive AllReturn (context : CommandContext) :
    List (Callback σ) → σ → List CommandResult → σ → Prop
  | nil (state : σ) : AllReturn context [] state [] state
  | cons {hook : Callback σ} {rest : List (Callback σ)} {state between final : σ}
      {result : CommandResult} {results : List CommandResult}
      (hreturns : (hook context).Returns state result between)
      (hrest : AllReturn context rest between results final) :
      AllReturn context (hook :: rest) state (result :: results) final

/-- The callback returns the result, or throws and the result is an error with the text of
the exception. -/
def CallbackEnds (callback : Callback σ) (context : CommandContext) (state : σ)
    (result : CommandResult) (final : σ) : Prop :=
  (callback context).Returns state result final ∨
    ∃ kind what, (callback context).runFrom state = (.error (.std kind what), final) ∧
      result = .error what

/-- The callback's failure, else the first failure of an `After` hook, else the callback's
result. -/
def settle (result : CommandResult) (afterResults : List CommandResult) : CommandResult :=
  if result.success then
    (afterResults.find? fun afterResult => !afterResult.success).getD result
  else result

/-- The outcome with the deprecation prefix, on a deprecated node. -/
def announce (data : NodeData σ) (result : CommandResult) : CommandResult :=
  if data.deprecated then { result with message := deprecationWarning data result.message }
  else result

/-- **The documented order**: the calls, the outcome and the state of an execution. -/
inductive Executes (data : NodeData σ) (callback : Callback σ) (context : CommandContext)
    (state : σ) : List Stage → CommandResult → σ → Prop
  /-- The first `Before` hook that fails ends the execution. -/
  | stopped {front rest : List (Callback σ)} {failing : Callback σ} {between final : σ}
      {result : CommandResult} (hbefore : data.before = front ++ failing :: rest)
      (hfront : AllSucceed context front state between)
      (hreturns : (failing context).Returns between result final)
      (hfails : result.success = false) :
      Executes data callback context state (stages .before 0 (front.length + 1)) result final
  /-- The callback runs, and every `After` hook whatever became of it. -/
  | completed {between called final : σ} {result : CommandResult}
      {afterResults : List CommandResult}
      (hbefore : AllSucceed context data.before state between)
      (hcallback : CallbackEnds callback context between result called)
      (hafter : AllReturn context data.after called afterResults final) :
      Executes data callback context state
        (stages .before 0 data.before.length ++ .callback :: stages .after 0 data.after.length)
        (announce data (settle result afterResults)) final

/-- The code keeps to the documented order. -/
def Follows (data : NodeData σ) (callback : Callback σ) (context : CommandContext)
    (state : σ) : Prop :=
  ∃ calls result final, Executes data callback context state calls result final ∧
    (execute (tracedNode data) (traced .callback callback) context).Returns (state, [])
      result (final, calls)

/-! ### The two hook loops -/

theorem AllSucceed.unique {context : CommandContext} {hooks : List (Callback σ)}
    {state one two : σ} (hone : AllSucceed context hooks state one)
    (htwo : AllSucceed context hooks state two) : one = two := by
  induction hone with
  | nil => cases htwo; rfl
  | cons hreturns _ _ ih =>
      cases htwo with
      | cons hreturns' _ hrest' =>
          have hsame := hreturns.symm.trans hreturns'
          simp only [Prod.mk.injEq, Except.ok.injEq] at hsame
          obtain ⟨-, rfl⟩ := hsame
          exact ih hrest'

/-- Hooks that return succeed one after the other, up to one that fails if any does. -/
theorem allSucceed_or_fails {context : CommandContext} {hooks : List (Callback σ)}
    (hreturn : ∀ hook ∈ hooks, ∀ state, ¬ (hook context).Throws state) (state : σ) :
    (∃ final, AllSucceed context hooks state final) ∨
      ∃ front failing rest between result final, hooks = front ++ failing :: rest ∧
        AllSucceed context front state between ∧
        (failing context).Returns between result final ∧ result.success = false := by
  induction hooks generalizing state with
  | nil => exact Or.inl ⟨state, .nil state⟩
  | cons hook rest ih =>
      rw [List.forall_mem_cons] at hreturn
      rcases Eff.returns_or_throws (hook context) state with ⟨result, between, hresult⟩ | hthrows
      · cases hsuccess : result.success with
        | false =>
            exact Or.inr ⟨[], hook, rest, state, result, between, rfl, .nil state, hresult,
              hsuccess⟩
        | true =>
            rcases ih hreturn.2 between with ⟨final, hrest⟩ | hfails
            · exact Or.inl ⟨final, .cons hresult hsuccess hrest⟩
            · obtain ⟨front, failing, later, last, failure, final, rfl, hfront, hlast, hfailure⟩ :=
                hfails
              exact Or.inr ⟨hook :: front, failing, later, last, failure, final, rfl,
                .cons hresult hsuccess hfront, hlast, hfailure⟩
      · exact absurd hthrows (hreturn.1 state)

theorem exists_allReturn {context : CommandContext} {hooks : List (Callback σ)}
    (hreturn : ∀ hook ∈ hooks, ∀ state, ¬ (hook context).Throws state) (state : σ) :
    ∃ results final, AllReturn context hooks state results final := by
  induction hooks generalizing state with
  | nil => exact ⟨[], state, .nil state⟩
  | cons hook rest ih =>
      rw [List.forall_mem_cons] at hreturn
      rcases Eff.returns_or_throws (hook context) state with ⟨result, between, hresult⟩ | hthrows
      · obtain ⟨results, final, hrest⟩ := ih hreturn.2 between
        exact ⟨result :: results, final, .cons hresult hrest⟩
      · exact absurd hthrows (hreturn.1 state)

/-- A hook that succeeds is followed by the rest of the `Before` loop. -/
theorem runFrom_runBefore_of_success {context : CommandContext} {hook : Callback σ}
    {state between : σ} {result : CommandResult}
    (hreturns : (hook context).Returns state result between) (hsuccess : result.success = true)
    (stage : Stage) (rest : List (Callback (σ × List Stage))) (calls : List Stage) :
    (runBefore context (traced stage hook :: rest)).runFrom (state, calls) =
      (runBefore context rest).runFrom (between, calls ++ [stage]) := by
  rw [runBefore, Eff.runFrom_bind, runFrom_traced, hreturns]
  simp only [hsuccess, if_true]

/-- **The `Before` loop**, behind hooks that succeed. -/
theorem AllSucceed.runFrom_runBefore {context : CommandContext} {hooks : List (Callback σ)}
    {state final : σ} (h : AllSucceed context hooks state final) (rest : List (Callback σ))
    (first : ℕ) (calls : List Stage) :
    (runBefore context (tracedHooks .before first (hooks ++ rest))).runFrom (state, calls) =
      (runBefore context (tracedHooks .before (first + hooks.length) rest)).runFrom
        (final, calls ++ stages .before first hooks.length) := by
  induction h generalizing first calls with
  | nil state => simp [stages]
  | cons hreturns hsuccess _ ih =>
      rw [List.cons_append, tracedHooks, runFrom_runBefore_of_success hreturns hsuccess, ih,
        List.length_cons, stages_succ, List.append_assoc]
      congr 2
      · congr 1
        omega

/-- The `After` loop replaces the result as it goes; what is left is the settled one. -/
theorem settle_cons (result afterResult : CommandResult) (rest : List CommandResult) :
    settle (if !afterResult.success && result.success then afterResult else result) rest =
      settle result (afterResult :: rest) := by
  cases hresult : result.success <;> cases hafter : afterResult.success <;>
    simp [settle, hresult, hafter]

/-- **The `After` loop** runs to its end. -/
theorem AllReturn.runFrom_runAfter {context : CommandContext} {hooks : List (Callback σ)}
    {state final : σ} {results : List CommandResult}
    (h : AllReturn context hooks state results final) (result : CommandResult) (first : ℕ)
    (calls : List Stage) :
    (runAfter context (tracedHooks .after first hooks) result).runFrom (state, calls) =
      (.ok (settle result results), final, calls ++ stages .after first hooks.length) := by
  induction h generalizing result first calls with
  | nil state => simp [tracedHooks, runAfter, stages, settle]
  | cons hreturns _ ih =>
      rw [tracedHooks, runAfter, Eff.runFrom_bind, runFrom_traced, hreturns]
      simp only
      rw [ih, settle_cons, List.length_cons, stages_succ, List.append_assoc]
      rfl

/-! ### The code's order -/

variable {data : NodeData σ} {callback : Callback σ} {context : CommandContext}
  {state between called final : σ}

/-- A `Before` hook that fails ends the execution. -/
theorem execute_of_fails {front rest : List (Callback σ)} {failing : Callback σ}
    {result : CommandResult} (hbefore : data.before = front ++ failing :: rest)
    (hfront : AllSucceed context front state between)
    (hreturns : (failing context).Returns between result final)
    (hfails : result.success = false) :
    (execute (tracedNode data) (traced .callback callback) context).Returns (state, []) result
      (final, stages .before 0 (front.length + 1)) := by
  have hloop : (runBefore context (tracedNode data).before).runFrom (state, []) =
      (.ok (some result), final, stages .before 0 (front.length + 1)) := by
    rw [tracedNode, hbefore, hfront.runFrom_runBefore, tracedHooks, runBefore,
      Eff.runFrom_bind, runFrom_traced, hreturns]
    simp [hfails, stages, List.range'_concat]
  rw [Eff.Returns, execute, Eff.runFrom_bind, hloop]
  rfl

/-- Behind `Before` hooks that succeed, `execute` goes on with the callback. -/
theorem runFrom_execute (hbefore : AllSucceed context data.before state between) :
    (runBefore context (tracedNode data).before).runFrom (state, []) =
      (.ok none, between, stages .before 0 data.before.length) := by
  have hloop := hbefore.runFrom_runBefore [] 0 []
  rw [List.append_nil] at hloop
  rw [tracedNode, hloop]
  rfl

/-- The callback returns, and the `After` hooks run. -/
theorem execute_of_returns {result : CommandResult} {afterResults : List CommandResult}
    (hbefore : AllSucceed context data.before state between)
    (hcallback : (callback context).Returns between result called)
    (hafter : AllReturn context data.after called afterResults final) :
    (execute (tracedNode data) (traced .callback callback) context).Returns (state, [])
      (announce data (settle result afterResults))
      (final, stages .before 0 data.before.length ++
        .callback :: stages .after 0 data.after.length) := by
  have hrun : (runCallback (traced .callback callback) context).runFrom
      (between, stages .before 0 data.before.length) =
        (.ok (.ok result), called, stages .before 0 data.before.length ++ [.callback]) := by
    rw [runCallback, Eff.runFrom_tryCatch, Eff.runFrom_bind, runFrom_traced, hcallback]
    rfl
  rw [Eff.Returns, execute, Eff.runFrom_bind, runFrom_execute hbefore]
  simp only
  rw [Eff.runFrom_bind, hrun]
  simp only
  rw [Eff.runFrom_bind, show (tracedNode data).after = tracedHooks .after 0 data.after from rfl,
    hafter.runFrom_runAfter]
  simp only [List.append_assoc, List.singleton_append, announce]
  show Eff.runFrom (if data.deprecated then _ else _) _ = _
  split_ifs <;> rfl

/-- The callback throws, and the handler returns from `execute`. -/
theorem execute_of_throws {kind : ExceptionKind} {what : CommandString}
    (hbefore : AllSucceed context data.before state between)
    (hcallback : (callback context).runFrom between = (.error (.std kind what), called)) :
    (execute (tracedNode data) (traced .callback callback) context).Returns (state, [])
      (.error what) (called, stages .before 0 data.before.length ++ [.callback]) := by
  have hrun : (runCallback (traced .callback callback) context).runFrom
      (between, stages .before 0 data.before.length) =
        (.ok (.error what), called, stages .before 0 data.before.length ++ [.callback]) := by
    rw [runCallback, Eff.runFrom_tryCatch, Eff.runFrom_bind, runFrom_traced, hcallback]
    rfl
  rw [Eff.Returns, execute, Eff.runFrom_bind, runFrom_execute hbefore]
  simp only
  rw [Eff.runFrom_bind, hrun]
  rfl

/-! ### When the code keeps to the documented order -/

/-- Where the callback is called and throws, nothing is left to do: there is no `After`
hook, and no deprecation to announce. -/
def NothingSkipped (data : NodeData σ) (callback : Callback σ) (context : CommandContext)
    (state : σ) : Prop :=
  ∀ between kind what called, AllSucceed context data.before state between →
    (callback context).runFrom between = (.error (.std kind what), called) →
    data.after = [] ∧ data.deprecated = false

theorem deprecationWarning_ne (data : NodeData σ) (message : CommandString) :
    deprecationWarning data message ≠ message := by
  intro h
  have hlength := congrArg List.length h
  have hpos : 0 < (text "Deprecated command").length := by decide
  rw [deprecationWarning, List.length_append, List.length_append] at hlength
  by_cases hmessage : message = []
  · rw [hmessage, List.length_nil] at hlength
    omega
  · rw [if_pos hmessage, List.length_cons] at hlength
    omega

theorem settle_error (what : CommandString) (afterResults : List CommandResult) :
    settle (.error what) afterResults = .error what := rfl

/-- Code that keeps to the documented order skips nothing. -/
theorem Follows.nothingSkipped (h : Follows data callback context state) :
    NothingSkipped data callback context state := by
  obtain ⟨calls, result, final, hexecutes, hcode⟩ := h
  intro between kind what called hall hthrows
  have hskip := execute_of_throws hall hthrows
  have hsame := hcode.symm.trans hskip
  simp only [Prod.mk.injEq, Except.ok.injEq] at hsame
  obtain ⟨hresult, -, hcalls⟩ := hsame
  cases hexecutes with
  | stopped hfront _ _ _ =>
      -- this execution never gets to the callback
      have hmem : Stage.callback ∈ stages .before 0 data.before.length ++ [.callback] := by simp
      rw [← hcalls, stages, List.mem_map] at hmem
      obtain ⟨index, -, hindex⟩ := hmem
      cases hindex
  | @completed between' called' _ ended afterResults hall' hends hreturn =>
      obtain rfl := hall.unique hall'
      obtain rfl : ended = .error what := by
        rcases hends with hreturns | ⟨kind', what', hthrows', rfl⟩
        · rw [Eff.Returns, hthrows] at hreturns
          cases hreturns
        · rw [hthrows] at hthrows'
          cases hthrows'
          rfl
      constructor
      · have hlength := congrArg List.length hcalls
        simp only [stages, List.length_append, List.length_cons, List.length_map,
          List.length_range', List.length_nil] at hlength
        exact List.length_eq_zero_iff.mp (by omega)
      · by_contra hdeprecated
        rw [Bool.not_eq_false] at hdeprecated
        rw [settle_error, announce, if_pos hdeprecated] at hresult
        exact deprecationWarning_ne data what (congrArg CommandResult.message hresult)

/-- **When the code keeps to the documented order.**  For hooks that return, and a
callback that returns or throws a `std::exception`: exactly when a throw skips nothing. -/
theorem follows_iff (hbefore : ∀ hook ∈ data.before, ∀ state, ¬ (hook context).Throws state)
    (hafter : ∀ hook ∈ data.after, ∀ state, ¬ (hook context).Throws state)
    (hcallback : ∀ state final, (callback context).runFrom state ≠ (.error .foreign, final)) :
    Follows data callback context state ↔ NothingSkipped data callback context state := by
  refine ⟨Follows.nothingSkipped, ?_⟩
  intro hskipped
  rcases allSucceed_or_fails hbefore state with
    ⟨between, hall⟩ | ⟨front, failing, rest, between, result, final, hsplit, hfront, hreturns,
      hfails⟩
  · rcases hended : (callback context).runFrom between with ⟨_ | result, called⟩
    · next e =>
        cases e with
        | foreign => exact absurd hended (hcallback between called)
        | std kind what =>
            obtain ⟨hnone, hdeprecated⟩ := hskipped between kind what called hall hended
            have hcode := execute_of_throws hall hended
            have hdocumented := Executes.completed hall (Or.inr ⟨kind, what, hended, rfl⟩)
              (show AllReturn context data.after called [] called by
                rw [hnone]
                exact .nil called)
            rw [settle_error, announce, hdeprecated, hnone] at hdocumented
            exact ⟨_, _, _, hdocumented, hcode⟩
    · obtain ⟨afterResults, final, hreturn⟩ := exists_allReturn hafter called
      exact ⟨_, _, _, .completed hall (Or.inl hended) hreturn,
        execute_of_returns hall hended hreturn⟩
  · exact ⟨_, _, _, .stopped hsplit hfront hreturns hfails,
      execute_of_fails hsplit hfront hreturns hfails⟩

/-- A callback that throws. -/
def throwing : Callback Unit := fun _ => throw (.std .other (text "sensor offline"))

/-- A node with one `After` hook. -/
def cleanedNode : NodeData Unit where
  object := 1
  name := text "measure"
  after := [fun _ => pure (.ok [])]

/-- The `After` hook is not run when the callback throws. -/
theorem not_follows_throwing :
    ¬ ∀ (data : NodeData Unit) (callback : Callback Unit) (context : CommandContext)
        (state : Unit),
        (∀ hook ∈ data.before, ∀ state, ¬ (hook context).Throws state) →
        (∀ hook ∈ data.after, ∀ state, ¬ (hook context).Throws state) →
        (∀ state final, (callback context).runFrom state ≠ (.error .foreign, final)) →
        Follows data callback context state := by
  intro h
  have hfollows := h cleanedNode throwing ⟨[], .empty⟩ () (by simp [cleanedNode])
    (by simp [cleanedNode]) (by simp [throwing])
  obtain ⟨hnone, -⟩ := hfollows.nothingSkipped () .other (text "sensor offline") ()
    (.nil ()) rfl
  exact List.cons_ne_nil _ _ hnone

/-- A callback that fails without throwing is followed by the `After` hook. -/
theorem follows_iff_failing :
    Follows cleanedNode (fun _ => pure (.error (text "sensor offline"))) ⟨[], .empty⟩ () := by
  refine (follows_iff (by simp [cleanedNode]) (by simp [cleanedNode]) (by simp)).mpr ?_
  intro between kind what called _ hthrows
  cases hthrows

end CommandRegistry
end EspressioCommand
