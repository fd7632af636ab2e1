import EspressioCommand.Executor.ProcessWork
import EspressioCommand.Registry.Binding

/-!
# When a completion request is answered

`ProcessWork` sends its response behind `Invoke`, so a request is answered exactly
when `Invoke` returns.  Only one of the five places where user code runs is in a
handler of its own, and that handler is for `std::exception` alone.

`UserCodeThrows` lists the ways an exception leaves `Invoke`, following the stages in
order: a validator during binding; behind it the outermost middleware, and without
middleware a `Before` hook, the callback with something that is no
`std::exception`, or an `After` hook.  `invokeText_throws_iff` says the list is
complete, and `answeredOnce_iff` draws the conclusion for `ProcessWork`.
-/

namespace EspressioCommand

open Library

namespace CommandRegistry

open TextCommandParser

variable {σ : Type}

/-! ### The stages -/

/-- A validator throws while the parameters are bound: the values before it have
passed. -/
inductive ValidatorThrows (platform : Platform) :
    List (CommandParameter σ × Option CommandValue) → σ → Prop
  | here {parameter : CommandParameter σ} {value : CommandValue}
      {rest : List (CommandParameter σ × Option CommandValue)} {state : σ}
      {validator : CommandString → Eff σ Bool}
      (hvalidator : parameter.validator = some validator)
      (hkind : parameter.checkKind platform value = .ok none)
      (hchoice : parameter.choices = [] ∨ value.toString platform ∈ parameter.choices)
      (hthrows : (validator (value.toString platform)).Throws state) :
      ValidatorThrows platform ((parameter, some value) :: rest) state
  | absent {parameter : CommandParameter σ}
      {rest : List (CommandParameter σ × Option CommandValue)} {state : σ}
      (hoptional : parameter.required = false) (hrest : ValidatorThrows platform rest state) :
      ValidatorThrows platform ((parameter, none) :: rest) state
  | later {parameter : CommandParameter σ} {value : CommandValue}
      {rest : List (CommandParameter σ × Option CommandValue)} {state between : σ}
      (hpasses : (parameter.validate platform value).Returns state [] between)
      (hrest : ValidatorThrows platform rest between) :
      ValidatorThrows platform ((parameter, some value) :: rest) state

/-- A `Before` hook throws: the hooks before it have succeeded. -/
inductive BeforeThrows (context : CommandContext) : List (Callback σ) → σ → Prop
  | here {hook : Callback σ} {rest : List (Callback σ)} {state : σ}
      (hthrows : (hook context).Throws state) : BeforeThrows context (hook :: rest) state
  | later {hook : Callback σ} {rest : List (Callback σ)} {state between : σ}
      {result : CommandResult} (hreturns : (hook context).Returns state result between)
      (hsuccess : result.success = true) (hrest : BeforeThrows context rest between) :
      BeforeThrows context (hook :: rest) state

/-- An `After` hook throws: the hooks before it have returned, whatever they returned. -/
inductive AfterThrows (context : CommandContext) : List (Callback σ) → σ → Prop
  | here {hook : Callback σ} {rest : List (Callback σ)} {state : σ}
      (hthrows : (hook context).Throws state) : AfterThrows context (hook :: rest) state
  | later {hook : Callback σ} {rest : List (Callback σ)} {state between : σ}
      {result : CommandResult} (hreturns : (hook context).Returns state result between)
      (hrest : AfterThrows context rest between) : AfterThrows context (hook :: rest) state

/-- The callback throws something its handler does not catch. -/
def CallbackEscapes (callback : Callback σ) (context : CommandContext) (state : σ) : Prop :=
  ∃ after, (callback context).runFrom state = (.error .foreign, after)

/-- An exception leaves the hooks and the callback of a command. -/
inductive ExecuteThrows (data : NodeData σ) (callback : Callback σ) (context : CommandContext)
    (state : σ) : Prop
  | before (hbefore : BeforeThrows context data.before state)
  | callback {between : σ}
      (hbefore : (runBefore context data.before).Returns state none between)
      (hcallback : CallbackEscapes callback context between)
  | after {between done : σ} {result : CommandResult}
      (hbefore : (runBefore context data.before).Returns state none between)
      (hcallback : (runCallback callback context).Returns between (.ok result) done)
      (hafter : AfterThrows context data.after done)

/-- An exception leaves the stages behind the binding: the outermost middleware
throws, or there is none and the command does. -/
def StagesThrow (middleware : List (Middleware σ)) (data : NodeData σ) (callback : Callback σ)
    (context : CommandContext) (state : σ) : Prop :=
  match middleware with
  | [] => ExecuteThrows data callback context state
  | outermost :: rest =>
      (outermost context.invocation
        (chain context.invocation (execute data callback context) rest)).Throws state

/-- The text names a command and splits into an invocation of it. -/
inductive Reaches (registry : CommandRegistry σ) (line : CommandString) (node : CommandNode σ)
    (invocation : CommandInvocation) : Prop
  | intro {token : CommandString} {rest path arguments : CommandPath}
      (htokens : tokenize line = ⟨token :: rest, []⟩) (hhelp : isHelpToken token = false)
      (hdescend : descend registry.root (token :: rest) = (node, path, arguments))
      (hpath : path ≠ [])
      (hcomplete : (!node.children.isEmpty && node.label.callback.isNone &&
        arguments.isEmpty) = false)
      (hsplit : splitArguments arguments
        { CommandInvocation.empty with path := path, raw := line } = .ok invocation)

/-- An exception of user code leaves `Invoke`. -/
inductive UserCodeThrows (platform : Platform) (registry : CommandRegistry σ)
    (line : CommandString) (state : σ) : Prop
  | binding {node : CommandNode σ} {invocation : CommandInvocation}
      (hreach : Reaches registry line node invocation)
      (hvalidator : ValidatorThrows platform
        (valuedParameters node.label.parameters invocation) state)
  | stages {node : CommandNode σ} {invocation : CommandInvocation} {context : CommandContext}
      {callback : Callback σ} {between : σ}
      (hreach : Reaches registry line node invocation)
      (hbound : (bindInvocation platform registry node invocation).Returns state
        (.ok (context, callback)) between)
      (hstages : StagesThrow registry.middleware node.label callback context between)

/-! ### Nothing else throws -/

/-- `Validate` throws exactly when it reaches a validator that does. -/
theorem validate_throws_iff (platform : Platform) (parameter : CommandParameter σ)
    (value : CommandValue) (state : σ) :
    (parameter.validate platform value).Throws state ↔
      ∃ validator, parameter.validator = some validator ∧
        parameter.checkKind platform value = .ok none ∧
        (parameter.choices = [] ∨ value.toString platform ∈ parameter.choices) ∧
        (validator (value.toString platform)).Throws state := by
  -- what the conversions throw is caught before the validator is called
  have hstd := parameter.throwsStd_checkKind platform value
  unfold CommandParameter.validate
  cases hkind : parameter.checkKind platform value with
  | error e =>
      cases e with
      | std kind what => simp
      | foreign => exact absurd hkind hstd
  | ok early =>
      cases early with
      | some message => simp
      | none =>
          simp only
          split_ifs with hchoice
          · simp only [Eff.not_throws_pure, false_iff]
            rintro ⟨validator, -, -, hempty | hmem, -⟩
            · exact hchoice.1 hempty
            · exact hchoice.2 hmem
          · have hallowed :
                parameter.choices = [] ∨ value.toString platform ∈ parameter.choices := by
              by_cases hempty : parameter.choices = []
              · exact Or.inl hempty
              · refine Or.inr ?_
                by_contra hnot
                exact hchoice ⟨hempty, hnot⟩
            cases hvalidator : parameter.validator with
            | none => simp
            | some validator =>
                rw [Eff.throws_bind]
                constructor
                · rintro (hthrows | ⟨accepted, between, -, hthrows⟩)
                  · exact ⟨validator, rfl, trivial, hallowed, hthrows⟩
                  · split_ifs at hthrows <;> exact absurd hthrows (Eff.not_throws_pure _ _)
                · intro h
                  obtain ⟨found, hfound, -, -, hthrows⟩ := h
                  obtain rfl := Option.some.inj hfound
                  exact Or.inl hthrows

theorem checkValues_throws_iff (platform : Platform) (registry : CommandRegistry σ)
    (invocation : CommandInvocation) (values : List (CommandParameter σ × Option CommandValue))
    (state : σ) :
    (checkValues platform registry invocation values).Throws state ↔
      ValidatorThrows platform values state := by
  induction values generalizing state with
  | nil =>
      simp only [checkValues, Eff.not_throws_pure, false_iff]
      intro h
      cases h
  | cons head rest ih =>
      obtain ⟨parameter, value⟩ := head
      cases value with
      | none =>
          rw [checkValues]
          split_ifs with hrequired
          · simp only [Eff.not_throws_pure, false_iff]
            intro h
            cases h with
            | absent hoptional hrest => simp [hoptional] at hrequired
          · rw [ih]
            constructor
            · exact .absent (Bool.eq_false_of_not_eq_true hrequired)
            · intro h
              cases h with
              | absent hoptional hrest => exact hrest
      | some value =>
          rw [checkValues, Eff.throws_bind]
          constructor
          · rintro (hthrows | ⟨validation, between, hreturns, hthrows⟩)
            · obtain ⟨validator, hvalidator, hkind, hchoice, hthrows⟩ :=
                (validate_throws_iff platform parameter value state).mp hthrows
              exact .here hvalidator hkind hchoice hthrows
            · split_ifs at hthrows with hempty
              · exact absurd hthrows (Eff.not_throws_pure _ _)
              · obtain rfl : validation = [] := not_not.mp hempty
                exact .later hreturns ((ih between).mp hthrows)
          · intro h
            cases h with
            | here hvalidator hkind hchoice hthrows =>
                exact Or.inl ((validate_throws_iff platform parameter value state).mpr
                  ⟨_, hvalidator, hkind, hchoice, hthrows⟩)
            | later hpasses hrest =>
                refine Or.inr ⟨_, _, hpasses, ?_⟩
                rw [if_neg (by simp)]
                exact (ih _).mpr hrest

/-- The binding and its checks throw where a validator does. -/
theorem bindInvocation_throws_iff (platform : Platform) (registry : CommandRegistry σ)
    (node : CommandNode σ) (invocation : CommandInvocation) (state : σ) :
    (bindInvocation platform registry node invocation).Throws state ↔
      ValidatorThrows platform (valuedParameters node.label.parameters invocation) state := by
  rw [bindInvocation_eq, Eff.throws_bind, checkValues_throws_iff]
  refine or_iff_left ?_
  intro h
  obtain ⟨checked, between, -, hthrows⟩ := h
  -- behind the validators there are only checks
  cases checked with
  | some result => exact Eff.not_throws_pure _ _ hthrows
  | none => exact Eff.not_throws_pure _ _ hthrows

theorem runBefore_throws_iff (context : CommandContext) (hooks : List (Callback σ)) (state : σ) :
    (runBefore context hooks).Throws state ↔ BeforeThrows context hooks state := by
  induction hooks generalizing state with
  | nil =>
      simp only [runBefore, Eff.not_throws_pure, false_iff]
      intro h
      cases h
  | cons hook rest ih =>
      rw [runBefore, Eff.throws_bind]
      constructor
      · rintro (hthrows | ⟨result, between, hreturns, hthrows⟩)
        · exact .here hthrows
        · split_ifs at hthrows with hsuccess
          · exact .later hreturns hsuccess ((ih between).mp hthrows)
          · exact absurd hthrows (Eff.not_throws_pure _ _)
      · intro h
        cases h with
        | here hthrows => exact Or.inl hthrows
        | later hreturns hsuccess hrest =>
            refine Or.inr ⟨_, _, hreturns, ?_⟩
            rw [if_pos hsuccess]
            exact (ih _).mpr hrest

theorem runAfter_throws_iff (context : CommandContext) (hooks : List (Callback σ))
    (result : CommandResult) (state : σ) :
    (runAfter context hooks result).Throws state ↔ AfterThrows context hooks state := by
  induction hooks generalizing result state with
  | nil =>
      simp only [runAfter, Eff.not_throws_pure, false_iff]
      intro h
      cases h
  | cons hook rest ih =>
      rw [runAfter, Eff.throws_bind]
      constructor
      · rintro (hthrows | ⟨afterResult, between, hreturns, hthrows⟩)
        · exact .here hthrows
        · exact .later hreturns ((ih _ between).mp hthrows)
      · intro h
        cases h with
        | here hthrows => exact Or.inl hthrows
        | later hreturns hrest => exact Or.inr ⟨_, _, hreturns, (ih _ _).mpr hrest⟩

/-- The `try` block of the callback turns a `std::exception` into a value. -/
theorem runCallback_throws_iff (callback : Callback σ) (context : CommandContext) (state : σ) :
    (runCallback callback context).Throws state ↔ CallbackEscapes callback context state := by
  unfold runCallback Eff.Throws CallbackEscapes
  rw [Eff.runFrom_tryCatch, Eff.runFrom_bind]
  rcases (callback context).runFrom state with ⟨e | result, after⟩
  · cases e with
    | std kind what => simp
    | foreign => simp
  · simp

theorem execute_throws_iff (data : NodeData σ) (callback : Callback σ)
    (context : CommandContext) (state : σ) :
    (execute data callback context).Throws state ↔ ExecuteThrows data callback context state := by
  rw [execute, Eff.throws_bind, runBefore_throws_iff]
  constructor
  · rintro (hbefore | ⟨failed, between, hbefore, hthrows⟩)
    · exact .before hbefore
    · cases failed with
      | some result => exact absurd hthrows (Eff.not_throws_pure _ _)
      | none =>
          simp only [Eff.throws_bind, runCallback_throws_iff] at hthrows
          rcases hthrows with hcallback | ⟨outcome, done, hcallback, hthrows⟩
          · exact .callback hbefore hcallback
          · cases outcome with
            | error what => exact absurd hthrows (Eff.not_throws_pure _ _)
            | ok result =>
                simp only [Eff.throws_bind, runAfter_throws_iff] at hthrows
                rcases hthrows with hafter | ⟨final, last, -, hthrows⟩
                · exact .after hbefore hcallback hafter
                · split_ifs at hthrows <;> exact absurd hthrows (Eff.not_throws_pure _ _)
  · intro h
    cases h with
    | before hbefore => exact Or.inl hbefore
    | callback hbefore hcallback =>
        refine Or.inr ⟨none, _, hbefore, ?_⟩
        simp only [Eff.throws_bind, runCallback_throws_iff]
        exact Or.inl hcallback
    | after hbefore hcallback hafter =>
        refine Or.inr ⟨none, _, hbefore, ?_⟩
        simp only [Eff.throws_bind]
        refine Or.inr ⟨_, _, hcallback, ?_⟩
        simp only [Eff.throws_bind, runAfter_throws_iff]
        exact Or.inl hafter

theorem chain_throws_iff (middleware : List (Middleware σ)) (data : NodeData σ)
    (callback : Callback σ) (context : CommandContext) (state : σ) :
    (chain context.invocation (execute data callback context) middleware).Throws state ↔
      StagesThrow middleware data callback context state := by
  cases middleware with
  | nil => exact execute_throws_iff data callback context state
  | cons outermost rest => exact Iff.rfl

/-- The context handed to the stages is that of the invocation. -/
theorem bindInvocation_returns_invocation {platform : Platform} {registry : CommandRegistry σ}
    {node : CommandNode σ} {invocation : CommandInvocation} {context : CommandContext}
    {callback : Callback σ} {state after : σ}
    (h : (bindInvocation platform registry node invocation).Returns state
      (.ok (context, callback)) after) : context.invocation = invocation := by
  obtain ⟨-, hcontext, -⟩ := bindInvocation_eq_ok h
  exact congrArg CommandContext.invocation hcontext

theorem invokeResolved_throws_iff (platform : Platform) (registry : CommandRegistry σ)
    (node : CommandNode σ) (invocation : CommandInvocation) (state : σ) :
    (invokeResolved platform registry node invocation).Throws state ↔
      ValidatorThrows platform (valuedParameters node.label.parameters invocation) state ∨
        ∃ context callback between,
          (bindInvocation platform registry node invocation).Returns state
              (.ok (context, callback)) between ∧
            StagesThrow registry.middleware node.label callback context between := by
  rw [invokeResolved, Eff.throws_bind, bindInvocation_throws_iff]
  refine or_congr_right ?_
  constructor
  · intro h
    obtain ⟨bound, between, hbound, hthrows⟩ := h
    cases bound with
    | error result => exact absurd hthrows (Eff.not_throws_pure _ _)
    | ok entered =>
        obtain ⟨context, callback⟩ := entered
        have hinvocation := bindInvocation_returns_invocation hbound
        subst hinvocation
        exact ⟨context, callback, between, hbound,
          (chain_throws_iff _ _ _ _ _).mp hthrows⟩
  · intro h
    obtain ⟨context, callback, between, hbound, hstages⟩ := h
    have hinvocation := bindInvocation_returns_invocation hbound
    subst hinvocation
    exact ⟨_, between, hbound, (chain_throws_iff _ _ _ _ _).mpr hstages⟩

/-- A text that names a command is an invocation of it. -/
theorem Reaches.invokeText_eq {registry : CommandRegistry σ} {line : CommandString}
    {node : CommandNode σ} {invocation : CommandInvocation}
    (h : Reaches registry line node invocation) (platform : Platform) :
    registry.invokeText platform line = registry.invokeResolved platform node invocation := by
  obtain ⟨htokens, hhelp, hdescend, hpath, hcomplete, hsplit⟩ := h
  rw [invokeText, htokens]
  simp only [hhelp, invokeTokens, hdescend]
  rw [hcomplete, hsplit]
  simp [hpath]

/-- A text is answered at once, or names a command. -/
theorem invokeText_cases (platform : Platform) (registry : CommandRegistry σ)
    (line : CommandString) :
    (∃ result, registry.invokeText platform line = pure result) ∨
      ∃ node invocation, Reaches registry line node invocation := by
  -- the early returns of `Invoke` and `InvokeTokens` in their order
  rcases htokenized : tokenize line with ⟨tokens, error⟩
  by_cases herror : error = []
  · subst herror
    cases tokens with
    | nil =>
        rw [invokeText, htokenized]
        exact Or.inl ⟨_, rfl⟩
    | cons token rest =>
        by_cases hhelp : isHelpToken token = true
        · rw [invokeText, htokenized]
          simp only [hhelp]
          exact Or.inl ⟨_, rfl⟩
        · have hnot : isHelpToken token = false := Bool.eq_false_of_not_eq_true hhelp
          rcases hdescend : descend registry.root (token :: rest) with ⟨node, path, arguments⟩
          have htext : registry.invokeText platform line =
              registry.invokeTokens platform (token :: rest) line := by
            rw [invokeText, htokenized]
            simp only [hnot]
            rfl
          rw [htext, invokeTokens, hdescend]
          dsimp only
          by_cases hpath : path = []
          · rw [if_pos hpath]
            exact Or.inl ⟨_, rfl⟩
          · rw [if_neg hpath]
            by_cases hcomplete : (!node.children.isEmpty && node.label.callback.isNone &&
                arguments.isEmpty) = true
            · rw [if_pos hcomplete]
              exact Or.inl ⟨_, rfl⟩
            · rw [if_neg hcomplete]
              cases hsplit : splitArguments arguments
                  { CommandInvocation.empty with path := path, raw := line } with
              | error result => exact Or.inl ⟨result, rfl⟩
              | ok invocation =>
                  exact Or.inr ⟨node, invocation, .intro htokenized hnot hdescend hpath
                    (Bool.eq_false_of_not_eq_true hcomplete) hsplit⟩
  · refine Or.inl ⟨.error error, ?_⟩
    rw [invokeText, htokenized]
    exact if_pos herror

/-- **What leaves `Invoke` is an exception of user code.** -/
theorem invokeText_throws_iff (platform : Platform) (registry : CommandRegistry σ)
    (line : CommandString) (state : σ) :
    (registry.invokeText platform line).Throws state ↔
      UserCodeThrows platform registry line state := by
  constructor
  · intro hthrows
    rcases invokeText_cases platform registry line with ⟨result, hpure⟩ | ⟨node, invocation, hreach⟩
    · rw [hpure] at hthrows
      exact absurd hthrows (Eff.not_throws_pure _ _)
    · rw [hreach.invokeText_eq, invokeResolved_throws_iff] at hthrows
      rcases hthrows with hvalidator | ⟨context, callback, between, hbound, hstages⟩
      · exact .binding hreach hvalidator
      · exact .stages hreach hbound hstages
  · intro h
    cases h with
    | binding hreach hvalidator =>
        rw [hreach.invokeText_eq, invokeResolved_throws_iff]
        exact Or.inl hvalidator
    | stages hreach hbound hstages =>
        rw [hreach.invokeText_eq, invokeResolved_throws_iff]
        exact Or.inr ⟨_, _, _, hbound, hstages⟩

end CommandRegistry

namespace CommandEventExecutor

variable {σ : Type} {limits : EnvelopeLimits}

/-! ### The answer -/

/-- The outcome of the command of a request: what `Invoke` returns, or any failure
when something threw. -/
def CommandOutcome (platform : Platform) (registry : CommandRegistry (World σ))
    (request : CommandRequestEnvelope limits) (world : World σ) (result : CommandResult) : Prop :=
  (∃ after, (registry.invokeText platform request.rawString).Returns world result after) ∨
    ((registry.invokeText platform request.rawString).Throws world ∧ result.success = false)

/-- One response is sent, with the outcome of the command, and one completion event
queued, with that response and what the route returned. -/
def AnsweredOnce (platform : Platform) (registry : CommandRegistry (World σ))
    (send : Delivery limits → World σ → Bool × World σ)
    (request : CommandRequestEnvelope limits) (world : World σ) : Prop :=
  ∃ result delivery accepted, CommandOutcome platform registry request world result ∧
    (processWork platform (some registry) send request world).1.sent = [(delivery, accepted)] ∧
    delivery.response.requestId = request.requestId ∧
    delivery.response.success = result.success ∧ delivery.response.code = result.code ∧
    (processWork platform (some registry) send request world).1.queued =
      [⟨request, delivery.response, accepted⟩]

/-- A returned command whose route resolves is answered once. -/
theorem answeredOnce_of_returns {platform : Platform} {registry : CommandRegistry (World σ)}
    {send : Delivery limits → World σ → Bool × World σ}
    {request : CommandRequestEnvelope limits} {world after : World σ} {result : CommandResult}
    (hexpectation : request.responseExpectation = .completion)
    (hremote : request.origin.isLocal = false)
    (hreturns : (registry.invokeText platform request.rawString).Returns world result after)
    (hroute : (after.routes.resolve after.alive request.origin.transportRoute).1 ≠ none) :
    AnsweredOnce platform registry send request world := by
  obtain ⟨object, hobject⟩ := Option.ne_none_iff_exists'.mp hroute
  have hshould : shouldRoute request = true := by simp [shouldRoute, hexpectation, hremote]
  have hrouting : (routeResponse after.routes after.alive request result).1 =
      some ⟨object, request.origin.address, makeResponse request result⟩ := by
    simp [routeResponse, hshould, CommandResponseRouteRegistry.route, hremote, hobject]
  have hwork : processWork platform (some registry) send request world =
      respond send request result after := by
    rw [processWork]
    simp only [show (registry.invokeText platform request.rawString).runFrom world =
      (.ok result, after) from hreturns]
  refine ⟨result, ⟨object, request.origin.address, makeResponse request result⟩,
    (send ⟨object, request.origin.address, makeResponse request result⟩
      { after with
        routes := (routeResponse after.routes after.alive request result).2 }).1,
    Or.inl ⟨after, hreturns⟩, ?_, rfl, rfl, rfl, ?_⟩
  · rw [hwork, respond]
    simp only [hrouting]
  · rw [hwork, respond]
    simp only [hrouting]

/-- A command that throws is not answered at all. -/
theorem processWork_of_throws {platform : Platform} {registry : CommandRegistry (World σ)}
    (send : Delivery limits → World σ → Bool × World σ)
    {request : CommandRequestEnvelope limits} {world : World σ}
    (hthrows : (registry.invokeText platform request.rawString).Throws world) :
    (processWork platform (some registry) send request world).1 = {} := by
  obtain ⟨e, after, hrun⟩ := hthrows
  rw [processWork]
  simp only [hrun]

/-- **When a completion request is answered.**  For a request that asks for its
completion over a route that is there when the command has returned, one response
and one completion event go out if and only if no exception of user code leaves
`Invoke`. -/
theorem answeredOnce_iff (platform : Platform) (registry : CommandRegistry (World σ))
    (send : Delivery limits → World σ → Bool × World σ)
    (request : CommandRequestEnvelope limits) (world : World σ)
    (hexpectation : request.responseExpectation = .completion)
    (hremote : request.origin.isLocal = false)
    (hroute : ∀ result after,
      (registry.invokeText platform request.rawString).Returns world result after →
        (after.routes.resolve after.alive request.origin.transportRoute).1 ≠ none) :
    AnsweredOnce platform registry send request world ↔
      ¬ CommandRegistry.UserCodeThrows platform registry request.rawString world := by
  rw [← CommandRegistry.invokeText_throws_iff]
  constructor
  · rintro ⟨result, delivery, accepted, -, hsent, -⟩ hthrows
    rw [processWork_of_throws send hthrows] at hsent
    cases hsent
  · intro hnot
    rcases Eff.returns_or_throws (registry.invokeText platform request.rawString) world with
      ⟨result, after, hreturns⟩ | hthrows
    · exact answeredOnce_of_returns hexpectation hremote hreturns
        (hroute result after hreturns)
    · exact absurd hthrows hnot

/-- A command that reads a sensor; the hook in front of it looks for the sensor. -/
def sensorNode (look : Callback (World Unit)) : CommandNode (World Unit) :=
  .node
    { object := 1
      name := text "sensor"
      callback := some fun _ => pure (.ok (text "21"))
      before := [look] } []

/-- A registry with the command `sensor` alone. -/
def sensorRegistry (look : Callback (World Unit)) : CommandRegistry (World Unit) where
  root := .node { object := 0, name := [] } [sensorNode look]
  created := 2

/-- The request for `sensor`, come in over route 1. -/
def sensorRequest : CommandRequestEnvelope { rawLength := 8 } where
  requestId := 7
  origin := { transportRoute := 1 }
  rawLength := 6
  raw := storeTerminated (.replicate _ 0) (text "sensor") 6

/-- Route 1 is registered and alive. -/
def sensorWorld : World Unit where
  user := ()
  routes := { routes := [⟨1, 5⟩], nextId := 2 }
  alive := fun _ => true

/-- A route that accepts every response. -/
def acceptAll (_ : Delivery { rawLength := 8 }) (world : World Unit) : Bool × World Unit :=
  (true, world)

/-- The hook throws a `std::exception`, and the request is never answered. -/
theorem not_answeredOnce_sensor :
    sensorRequest.responseExpectation = .completion ∧ sensorRequest.origin.isLocal = false ∧
      (sensorWorld.routes.resolve sensorWorld.alive 1).1 = some 5 ∧
      (processWork .withoutFloatingText
        (some (sensorRegistry fun _ => throw (.std .other (text "no sensor"))))
        acceptAll sensorRequest sensorWorld).1 = {} ∧
      ¬ AnsweredOnce .withoutFloatingText
        (sensorRegistry fun _ => throw (.std .other (text "no sensor")))
        acceptAll sensorRequest sensorWorld := by
  have hthrows : ((sensorRegistry fun _ =>
      throw (.std .other (text "no sensor"))).invokeText .withoutFloatingText
        sensorRequest.rawString).Throws sensorWorld :=
    ⟨.std .other (text "no sensor"), sensorWorld, rfl⟩
  have hwork := processWork_of_throws acceptAll hthrows
  refine ⟨rfl, rfl, rfl, hwork, ?_⟩
  intro h
  obtain ⟨result, delivery, accepted, -, hsent, -⟩ := h
  rw [hwork] at hsent
  cases hsent

theorem answeredOnce_iff_sensor :
    AnsweredOnce .withoutFloatingText (sensorRegistry fun _ => pure (.ok []))
      acceptAll sensorRequest sensorWorld := by
  have hreturns : ((sensorRegistry fun _ => pure (.ok [])).invokeText .withoutFloatingText
      sensorRequest.rawString).Returns sensorWorld (.ok (text "21")) sensorWorld := rfl
  refine (answeredOnce_iff _ _ acceptAll _ _ rfl rfl ?_).mpr ?_
  · intro result after h
    obtain ⟨-, rfl⟩ := Prod.mk.inj (hreturns.symm.trans h)
    decide
  · rw [← CommandRegistry.invokeText_throws_iff]
    exact hreturns.not_throws

end CommandEventExecutor

end EspressioCommand
