import EspressioCommand.Registry.Invoke

/-!
# What `InvokeResolved` binds, and when it runs the command

The loop of `InvokeResolved` takes values from four places and moves a cursor
over the positional arguments.  The specification names the value of the `j`-th
parameter without any cursor: `parameterChoice` counts, among the earlier
parameters, those that take a positional argument (`positionalRank`).

`bindParameters_eq` is the loop invariant as an equation: the cursor is the count
over the parameters already handled, cut off at the number of positional
arguments, so that the loop is a validation of the specified values in order
(`checkValues`) followed by the specified bindings.  From it,
`invokeResolved_gate` is the gate: with pure validators the stages run
exactly when the invocation is `Admissible`, and otherwise an error is returned
and the state is untouched.
-/

namespace EspressioCommand
namespace CommandRegistry

open Library

variable {σ : Type}

/-! ### The value of a parameter -/

/-- A parameter that takes a positional argument if there is one left. -/
def consumesPositional (invocation : CommandInvocation) (parameter : CommandParameter σ) : Bool :=
  !parameter.namedOnly && (namedArgument parameter invocation).isNone

/-- How many of the parameters before the `j`-th take a positional argument. -/
def positionalRank (parameters : List (CommandParameter σ)) (invocation : CommandInvocation)
    (j : ℕ) : ℕ :=
  (parameters.take j).countP (consumesPositional invocation)

/-- The default of a parameter, as a value it owns. -/
def defaultChoice (parameter : CommandParameter σ) : Option (ValuePointer × CommandValue) :=
  if parameter.hasDefault then some (.owned, .string parameter.defaultValue) else none

/-- The value of a parameter before which `rank` parameters take a positional
argument: the first matching named argument, else the positional argument with
that index, else the default. -/
def choiceAtRank (invocation : CommandInvocation) (rank : ℕ) (parameter : CommandParameter σ) :
    Option (ValuePointer × CommandValue) :=
  match namedArgument parameter invocation with
  | some pair => some (.named pair.1, pair.2)
  | none =>
      if parameter.namedOnly then defaultChoice parameter
      else
        match invocation.positional[rank]? with
        | some value => some (.positional rank, value)
        | none => defaultChoice parameter

/-- The value of the `j`-th parameter with the pointer that reaches it. -/
def parameterChoice (parameters : List (CommandParameter σ)) (invocation : CommandInvocation)
    (j : ℕ) : Option (ValuePointer × CommandValue) :=
  parameters[j]?.bind (choiceAtRank invocation (positionalRank parameters invocation j))

/-- The value of the `j`-th parameter. -/
def parameterValue (parameters : List (CommandParameter σ)) (invocation : CommandInvocation)
    (j : ℕ) : Option CommandValue :=
  (parameterChoice parameters invocation j).map Prod.snd

/-- The bindings of the parameters that have a value, in declaration order. -/
def expectedBindings (platform : Platform) (parameters : List (CommandParameter σ))
    (invocation : CommandInvocation) : List Binding :=
  parameters.zipIdx.filterMap fun p =>
    (parameterChoice parameters invocation p.2).map fun choice =>
      makeBinding platform p.1 choice.1 choice.2

/-- Validation of values in order, up to the first that is missing or refused. -/
def checkValues (platform : Platform) (registry : CommandRegistry σ)
    (invocation : CommandInvocation) :
    List (CommandParameter σ × Option CommandValue) → Eff σ (Option CommandResult)
  | [] => pure none
  | (parameter, none) :: rest =>
      if parameter.required then
        pure (some (registry.missingParameter parameter invocation))
      else checkValues platform registry invocation rest
  | (parameter, some value) :: rest => do
      let validation ← parameter.validate platform value
      if validation ≠ [] then return some (.error validation)
      else checkValues platform registry invocation rest

/-- Each parameter with its value, in declaration order. -/
def valuedParameters (parameters : List (CommandParameter σ)) (invocation : CommandInvocation) :
    List (CommandParameter σ × Option CommandValue) :=
  parameters.zipIdx.map fun p => (p.1, parameterValue parameters invocation p.2)

/-! ### The loop invariant -/

/-- The selection of the loop, with its cursor at the rank cut off at the number
of positional arguments, is the specified one and keeps the cursor so. -/
theorem selectValue_eq (parameter : CommandParameter σ) (invocation : CommandInvocation)
    (rank : ℕ) :
    selectValue parameter invocation (min rank invocation.positional.length) =
      (choiceAtRank invocation rank parameter,
        min (rank + if consumesPositional invocation parameter then 1 else 0)
          invocation.positional.length) := by
  cases hnamed : namedArgument parameter invocation with
  | some pair => simp [selectValue, choiceAtRank, consumesPositional, hnamed]
  | none =>
      cases honly : parameter.namedOnly with
      | true =>
          simp [selectValue, choiceAtRank, consumesPositional, defaultChoice, hnamed, honly]
      | false =>
          -- the cursor stops at the end of the positional arguments, the rank does not
          rcases Nat.lt_or_ge rank invocation.positional.length with hlt | hge
          · have hmin : min rank invocation.positional.length = rank := by omega
            have hnext : min (rank + 1) invocation.positional.length = rank + 1 := by omega
            simp [selectValue, choiceAtRank, consumesPositional, hnamed, honly, hmin, hnext,
              List.getElem?_eq_getElem hlt]
          · have hmin : min rank invocation.positional.length =
                invocation.positional.length := by omega
            have hnext : min (rank + 1) invocation.positional.length =
                invocation.positional.length := by omega
            simp [selectValue, choiceAtRank, consumesPositional, defaultChoice, hnamed, honly,
              hmin, hnext, List.getElem?_eq_none hge]

/-- **The loop invariant.**  With the parameters `done` handled and the cursor at
their count, the rest of the loop checks the specified values of `rest` in order
and then adds the specified bindings. -/
theorem bindParameters_eq_of_append (platform : Platform) (registry : CommandRegistry σ)
    (invocation : CommandInvocation) {parameters : List (CommandParameter σ)}
    (done rest : List (CommandParameter σ)) (hsplit : parameters = done ++ rest)
    (bindings : List Binding) :
    bindParameters platform registry invocation rest
        (min (done.countP (consumesPositional invocation)) invocation.positional.length)
        bindings =
      (do
        match ← checkValues platform registry invocation
            ((rest.zipIdx done.length).map fun p =>
              (p.1, parameterValue parameters invocation p.2)) with
        | some result => return .error result
        | none =>
            return .ok
              (min (parameters.countP (consumesPositional invocation))
                  invocation.positional.length,
                bindings ++ (rest.zipIdx done.length).filterMap fun p =>
                  (parameterChoice parameters invocation p.2).map fun choice =>
                    makeBinding platform p.1 choice.1 choice.2)) := by
  induction rest generalizing done bindings with
  | nil => simp [bindParameters, checkValues, hsplit]
  | cons parameter rest ih =>
      have hsplit' : parameters = (done ++ [parameter]) ++ rest := by simp [hsplit]
      have hchoice : parameterChoice parameters invocation done.length =
          choiceAtRank invocation (done.countP (consumesPositional invocation)) parameter := by
        simp [parameterChoice, positionalRank, hsplit]
      have hcursor : done.countP (consumesPositional invocation) +
          (if consumesPositional invocation parameter then 1 else 0) =
            (done ++ [parameter]).countP (consumesPositional invocation) := by
        simp [List.countP_append, List.countP_singleton]
      -- one turn of the loop: the cursor is at the rank of `parameter`
      rw [bindParameters, selectValue_eq, hcursor, ← hchoice]
      simp only [List.zipIdx_cons, List.map_cons, List.filterMap_cons, parameterValue]
      cases hvalue : parameterChoice parameters invocation done.length with
      | none =>
          simp only [Option.map_none, checkValues]
          split_ifs with hrequired
          · simp
          · rw [ih (done ++ [parameter]) hsplit']
            simp [parameterValue]
      | some choice =>
          simp only [Option.map_some, checkValues, bind_assoc]
          refine bind_congr fun validation => ?_
          split_ifs with hvalid
          · simp
          · rw [ih (done ++ [parameter]) hsplit']
            simp [parameterValue]

/-- The loop of `InvokeResolved`, without its cursor. -/
theorem bindParameters_eq (platform : Platform) (registry : CommandRegistry σ)
    (invocation : CommandInvocation) (parameters : List (CommandParameter σ)) :
    bindParameters platform registry invocation parameters 0 [] =
      (do
        match ← checkValues platform registry invocation
            (valuedParameters parameters invocation) with
        | some result => return .error result
        | none =>
            return .ok
              (min (parameters.countP (consumesPositional invocation))
                  invocation.positional.length,
                expectedBindings platform parameters invocation)) := by
  have h := bindParameters_eq_of_append platform registry invocation [] parameters
    (List.nil_append parameters).symm []
  simpa [valuedParameters, expectedBindings] using h

/-- `InvokeResolved` up to its last check, without the cursor. -/
theorem bindInvocation_eq (platform : Platform) (registry : CommandRegistry σ)
    (node : CommandNode σ) (invocation : CommandInvocation) :
    bindInvocation platform registry node invocation =
      (do
        match ← checkValues platform registry invocation
            (valuedParameters node.label.parameters invocation) with
        | some result => return .error result
        | none =>
            return (registry.finalChecks node invocation
              (min (node.label.parameters.countP (consumesPositional invocation))
                invocation.positional.length)).map fun callback =>
                  (⟨expectedBindings platform node.label.parameters invocation, invocation⟩,
                    callback)) := by
  rw [bindInvocation, bindParameters_eq, bind_assoc]
  refine bind_congr fun checked => ?_
  cases checked with
  | some result => simp
  | none =>
      simp only [pure_bind]
      cases registry.finalChecks node invocation _ <;> rfl

/-- Where a context is made for the stages: every check before it has passed. -/
theorem bindInvocation_eq_ok {platform : Platform} {registry : CommandRegistry σ}
    {node : CommandNode σ} {invocation : CommandInvocation} {state after : σ}
    {bound : CommandContext × Callback σ}
    (h : (bindInvocation platform registry node invocation).runFrom state =
      (.ok (.ok bound), after)) :
    (checkValues platform registry invocation
        (valuedParameters node.label.parameters invocation)).runFrom state = (.ok none, after) ∧
      bound.1 = ⟨expectedBindings platform node.label.parameters invocation, invocation⟩ ∧
      registry.finalChecks node invocation
          (min (node.label.parameters.countP (consumesPositional invocation))
            invocation.positional.length) = .ok bound.2 := by
  rw [bindInvocation_eq] at h
  obtain ⟨checked, between, hchecks, hrest⟩ := Eff.runFrom_bind_eq_ok.mp h
  cases checked with
  | some result => cases hrest
  | none =>
      cases hfinal : registry.finalChecks node invocation
          (min (node.label.parameters.countP (consumesPositional invocation))
            invocation.positional.length) with
      | error result =>
          rw [hfinal] at hrest
          cases hrest
      | ok callback =>
          rw [hfinal] at hrest
          cases hrest
          exact ⟨hchecks, rfl, rfl⟩

/-! ### The gate -/

/-- What an invocation must satisfy for the stages behind the checks to run. -/
structure Admissible (platform : Platform) (node : CommandNode σ)
    (invocation : CommandInvocation) : Prop where
  required : ∀ j parameter, node.label.parameters[j]? = some parameter →
    parameter.required = true → parameterValue node.label.parameters invocation j ≠ none
  valid : ∀ j parameter value, node.label.parameters[j]? = some parameter →
    parameterValue node.label.parameters invocation j = some value →
    parameter.validate platform value = pure []
  positional : invocation.positional.length ≤
    node.label.parameters.countP (consumesPositional invocation)
  known : ∀ pair ∈ invocation.named.entries,
    ∃ parameter ∈ node.label.parameters, parameter.matchesKey pair.1 = true
  executable : node.label.callback ≠ none

/-- A value passes: nothing is missing, or `Validate` is empty. -/
def Passes (platform : Platform) : CommandParameter σ × Option CommandValue → Prop
  | (parameter, none) => parameter.required = false
  | (parameter, some value) => parameter.validate platform value = pure []

/-- Over a state type without elements there is nothing to compute. -/
theorem eff_eq_of_isEmpty {α : Type} [IsEmpty σ] (x y : Eff σ α) : x = y :=
  funext fun state => isEmptyElim state

/-- Returning is injective. -/
theorem eff_pure_inj {α : Type} [Nonempty σ] {a b : α}
    (h : (pure a : Eff σ α) = pure b) : a = b := by
  obtain ⟨state⟩ := ‹Nonempty σ›
  have hstate : (Except.ok a, state) = ((Except.ok b, state) : Except Thrown α × σ) :=
    congrFun h state
  injection hstate with hvalue
  exact Except.ok.inj hvalue

/-- **Validation with pure validators** ends without touching the state: with
nothing to report exactly when every value passes, else with an error result. -/
theorem checkValues_of_pure [Nonempty σ] (platform : Platform) (registry : CommandRegistry σ)
    (invocation : CommandInvocation) {values : List (CommandParameter σ × Option CommandValue)}
    (hpure : ∀ p ∈ values, p.1.PureValidator) :
    (checkValues platform registry invocation values = pure none ∧
        ∀ p ∈ values, Passes platform p) ∨
      ((∃ message, checkValues platform registry invocation values =
          pure (some (.error message))) ∧ ¬ ∀ p ∈ values, Passes platform p) := by
  induction values with
  | nil => exact Or.inl ⟨rfl, by simp⟩
  | cons p rest ih =>
      obtain ⟨parameter, value⟩ := p
      have hrest := ih fun q hq => hpure q (List.mem_cons_of_mem _ hq)
      -- the rest of the list decides when the head passes
      have hpassed (hhead : checkValues platform registry invocation ((parameter, value) :: rest) =
            checkValues platform registry invocation rest)
          (hpasses : Passes platform (parameter, value)) :
          (checkValues platform registry invocation ((parameter, value) :: rest) = pure none ∧
              ∀ p ∈ (parameter, value) :: rest, Passes platform p) ∨
            ((∃ message, checkValues platform registry invocation ((parameter, value) :: rest) =
                pure (some (.error message))) ∧
              ¬ ∀ p ∈ (parameter, value) :: rest, Passes platform p) := by
        rw [hhead, List.forall_mem_cons]
        simpa [hpasses] using hrest
      have hrefused (hfails : ¬ Passes platform (parameter, value)) :
          ¬ ∀ p ∈ (parameter, value) :: rest, Passes platform p :=
        fun hall => hfails (hall _ List.mem_cons_self)
      cases value with
      | none =>
          cases hrequired : parameter.required with
          | true =>
              refine Or.inr ⟨⟨(registry.missingParameter parameter invocation).message, ?_⟩,
                hrefused (by simp [Passes, hrequired])⟩
              rw [checkValues, if_pos hrequired]
              rfl
          | false =>
              refine hpassed ?_ hrequired
              rw [checkValues, hrequired]
              rfl
      | some value =>
          obtain ⟨message, hmessage⟩ :=
            CommandParameter.validate_eq_pure (hpure _ List.mem_cons_self) platform value
          by_cases hempty : message = []
          · subst hempty
            refine hpassed ?_ hmessage
            rw [checkValues, hmessage]
            simp
          · refine Or.inr ⟨⟨message, ?_⟩, hrefused ?_⟩
            · rw [checkValues, hmessage]
              simp [hempty]
            · intro hpasses
              exact hempty (eff_pure_inj (hmessage.symm.trans hpasses))

theorem finalChecks_eq_ok_iff {registry : CommandRegistry σ} {node : CommandNode σ}
    {invocation : CommandInvocation} {positionalIndex : ℕ} {callback : Callback σ} :
    registry.finalChecks node invocation positionalIndex = .ok callback ↔
      invocation.positional.length ≤ positionalIndex ∧
        (∀ pair ∈ invocation.named.entries,
          ∃ parameter ∈ node.label.parameters, parameter.matchesKey pair.1 = true) ∧
        node.label.callback = some callback := by
  unfold finalChecks
  split_ifs with hsurplus
  · simp [hsurplus]
  · have hle : invocation.positional.length ≤ positionalIndex := Nat.le_of_not_lt hsurplus
    cases hunknown : invocation.named.entries.find? fun pair =>
        !node.label.parameters.any fun parameter => parameter.matchesKey pair.1 with
    | some pair =>
        have hmem := List.mem_of_find?_eq_some hunknown
        have hnone := List.find?_some hunknown
        simp only [Bool.not_eq_true', List.any_eq_false] at hnone
        simp only [reduceCtorEq, false_iff, not_and]
        intro _ hall
        obtain ⟨parameter, hparameter, hmatches⟩ := hall pair hmem
        exact absurd hmatches (hnone parameter hparameter)
    | none =>
        simp only [List.find?_eq_none, Bool.not_eq_true', Bool.not_eq_false,
          List.any_eq_true] at hunknown
        cases hcallback : node.label.callback with
        | none => simp
        | some found => simpa [hle] using fun _ => hunknown

theorem finalChecks_eq_error {registry : CommandRegistry σ} {node : CommandNode σ}
    {invocation : CommandInvocation} {positionalIndex : ℕ} {result : CommandResult}
    (h : registry.finalChecks node invocation positionalIndex = .error result) :
    ∃ message, result = .error message := by
  unfold finalChecks at h
  split_ifs at h with hsurplus
  · exact ⟨_, (Except.error.inj h).symm⟩
  · split at h
    · exact ⟨_, (Except.error.inj h).symm⟩
    · split at h
      · exact ⟨_, (Except.error.inj h).symm⟩
      · cases h

/-- Every value passes exactly when nothing required is missing and `Validate` is
empty for every value. -/
theorem forall_passes_iff (platform : Platform) (parameters : List (CommandParameter σ))
    (invocation : CommandInvocation) :
    (∀ p ∈ valuedParameters parameters invocation, Passes platform p) ↔
      (∀ j parameter, parameters[j]? = some parameter → parameter.required = true →
          parameterValue parameters invocation j ≠ none) ∧
        ∀ j parameter value, parameters[j]? = some parameter →
          parameterValue parameters invocation j = some value →
          parameter.validate platform value = pure [] := by
  simp only [valuedParameters, List.forall_mem_map]
  constructor
  · intro h
    constructor
    · intro j parameter hj hrequired hnone
      have hpasses := h (parameter, j) (List.mem_zipIdx_iff_getElem?.mpr hj)
      simp [Passes, hnone, hrequired] at hpasses
    · intro j parameter value hj hvalue
      have hpasses := h (parameter, j) (List.mem_zipIdx_iff_getElem?.mpr hj)
      simpa [Passes, hvalue] using hpasses
  · rintro ⟨hrequired, hvalid⟩ ⟨parameter, j⟩ hp
    have hj : parameters[j]? = some parameter := List.mem_zipIdx_iff_getElem?.mp hp
    show Passes platform (parameter, parameterValue parameters invocation j)
    cases hvalue : parameterValue parameters invocation j with
    | none =>
        by_contra hreq
        exact hrequired j parameter hj (by simpa [Passes] using hreq) hvalue
    | some value => exact hvalid j parameter value hj hvalue

/-- The three ways a parameter gets a value. -/
theorem choiceAtRank_eq_some {invocation : CommandInvocation} {rank : ℕ}
    {parameter : CommandParameter σ} {pointer : ValuePointer} {value : CommandValue}
    (h : choiceAtRank invocation rank parameter = some (pointer, value)) :
    (∃ key, namedArgument parameter invocation = some (key, value) ∧ pointer = .named key) ∨
      (consumesPositional invocation parameter = true ∧ pointer = .positional rank ∧
        invocation.positional[rank]? = some value) ∨
      (pointer = .owned ∧ value = .string parameter.defaultValue) := by
  have hdefault {choice : ValuePointer × CommandValue}
      (hd : defaultChoice parameter = some choice) :
      choice.1 = .owned ∧ choice.2 = .string parameter.defaultValue := by
    unfold defaultChoice at hd
    split_ifs at hd
    obtain rfl := Option.some.inj hd
    exact ⟨rfl, rfl⟩
  unfold choiceAtRank at h
  cases hnamed : namedArgument parameter invocation with
  | some pair =>
      rw [hnamed] at h
      obtain ⟨rfl, rfl⟩ := Prod.mk.inj (Option.some.inj h)
      exact Or.inl ⟨pair.1, rfl, rfl⟩
  | none =>
      rw [hnamed] at h
      cases honly : parameter.namedOnly with
      | true =>
          simp only [honly, if_true] at h
          exact Or.inr (Or.inr (hdefault h))
      | false =>
          simp only [honly, Bool.false_eq_true, if_false] at h
          cases hpositional : invocation.positional[rank]? with
          | none =>
              rw [hpositional] at h
              exact Or.inr (Or.inr (hdefault h))
          | some found =>
              rw [hpositional] at h
              obtain ⟨rfl, rfl⟩ := Prod.mk.inj (Option.some.inj h)
              exact Or.inr (Or.inl ⟨by simp [consumesPositional, hnamed, honly], rfl, rfl⟩)

/-- The binding made of a choice has the chosen value. -/
theorem pointee_makeBinding (platform : Platform) {invocation : CommandInvocation} {rank : ℕ}
    {parameter : CommandParameter σ} {pointer : ValuePointer} {value : CommandValue}
    (h : choiceAtRank invocation rank parameter = some (pointer, value)) :
    CommandContext.pointee invocation
      (makeBinding platform parameter pointer value).ownedValue pointer = some value := by
  rcases choiceAtRank_eq_some h with ⟨key, hnamed, rfl⟩ | ⟨-, rfl, hpositional⟩ | ⟨rfl, -⟩
  · have hmem : (key, value) ∈ invocation.named.entries := List.mem_of_find?_eq_some hnamed
    rw [CommandContext.pointee, invocation.named.find?_key hmem fun e => beq_iff_eq]
    rfl
  · exact hpositional
  · simp [CommandContext.pointee, makeBinding]

/-- The bindings of the specification, read back: each parameter with a value is
bound under its name to that value, in declaration order. -/
theorem expectedBindings_values (platform : Platform) (parameters : List (CommandParameter σ))
    (invocation : CommandInvocation) :
    (expectedBindings platform parameters invocation).map (fun binding =>
        (binding.name, CommandContext.pointee invocation binding.ownedValue binding.value)) =
      parameters.zipIdx.filterMap fun p =>
        (parameterValue parameters invocation p.2).map fun value => (p.1.name, some value) := by
  rw [expectedBindings, List.map_filterMap]
  refine List.filterMap_congr fun p hp => ?_
  rw [parameterValue, Option.map_map, Option.map_map]
  cases hchoice : parameterChoice parameters invocation p.2 with
  | none => rfl
  | some choice =>
      obtain ⟨pointer, value⟩ := choice
      rw [parameterChoice, List.mem_zipIdx_iff_getElem?.mp hp, Option.bind_some] at hchoice
      have hpointee := pointee_makeBinding platform hchoice
      simp only [Option.map_some, Function.comp_apply, Option.some.injEq, Prod.mk.injEq]
      exact ⟨rfl, hpointee⟩

/-- The gate conditions, spread over the three loops of the source. -/
theorem admissible_iff (platform : Platform) (registry : CommandRegistry σ)
    (node : CommandNode σ) (invocation : CommandInvocation) :
    Admissible platform node invocation ↔
      (∀ p ∈ valuedParameters node.label.parameters invocation, Passes platform p) ∧
        ∃ callback, registry.finalChecks node invocation
          (min (node.label.parameters.countP (consumesPositional invocation))
            invocation.positional.length) = .ok callback := by
  simp only [forall_passes_iff, finalChecks_eq_ok_iff]
  constructor
  · intro h
    obtain ⟨hrequired, hvalid, hpositional, hknown, hexecutable⟩ := h
    obtain ⟨callback, hcallback⟩ := Option.ne_none_iff_exists'.mp hexecutable
    exact ⟨⟨hrequired, hvalid⟩, callback, by omega, hknown, hcallback⟩
  · intro h
    obtain ⟨⟨hrequired, hvalid⟩, callback, hpositional, hknown, hcallback⟩ := h
    exact ⟨hrequired, hvalid, by omega, hknown, by simp [hcallback]⟩

/-- **The gate of `InvokeResolved`.**  With pure validators, an admissible
invocation enters the middleware chain with every parameter bound to its
specified value; any other returns an error and leaves the state as it was. -/
theorem invokeResolved_gate (platform : Platform) (registry : CommandRegistry σ)
    (node : CommandNode σ) (invocation : CommandInvocation)
    (hpure : ∀ parameter ∈ node.label.parameters, parameter.PureValidator) :
    (Admissible platform node invocation →
        ∃ callback context, node.label.callback = some callback ∧
          context.invocation = invocation ∧
          context.bindings.map (fun binding => (binding.name, context.valueOf binding)) =
            node.label.parameters.zipIdx.filterMap (fun p =>
              (parameterValue node.label.parameters invocation p.2).map fun value =>
                (p.1.name, some value)) ∧
          invokeResolved platform registry node invocation =
            chain invocation (execute node.label callback context) registry.middleware) ∧
      (¬ Admissible platform node invocation →
        ∃ message, invokeResolved platform registry node invocation =
          pure (CommandResult.error message)) := by
  have hvalued : ∀ p ∈ valuedParameters node.label.parameters invocation,
      p.1.PureValidator := by
    simp only [valuedParameters, List.forall_mem_map]
    intro p hp
    exact hpure p.1 (List.mem_of_getElem? (List.mem_zipIdx_iff_getElem?.mp hp))
  have hbindings := expectedBindings_values platform node.label.parameters invocation
  have hgate := admissible_iff platform registry node invocation
  rcases isEmpty_or_nonempty σ with hempty | hnonempty
  · -- without states every computation is every other one
    refine ⟨fun hadmissible => ?_, fun _ => ⟨[], eff_eq_of_isEmpty _ _⟩⟩
    obtain ⟨callback, hcallback⟩ := Option.ne_none_iff_exists'.mp hadmissible.executable
    exact ⟨callback, ⟨expectedBindings platform node.label.parameters invocation, invocation⟩,
      hcallback, rfl, hbindings, eff_eq_of_isEmpty _ _⟩
  · rcases checkValues_of_pure platform registry invocation hvalued with
      ⟨hnone, hpasses⟩ | ⟨⟨message, hmessage⟩, hfails⟩
    · cases hfinal : registry.finalChecks node invocation
          (min (node.label.parameters.countP (consumesPositional invocation))
            invocation.positional.length) with
      | ok callback =>
          refine ⟨fun _ => ?_, fun hnot => absurd (hgate.mpr ⟨hpasses, _, hfinal⟩) hnot⟩
          refine ⟨callback,
            ⟨expectedBindings platform node.label.parameters invocation, invocation⟩,
            (finalChecks_eq_ok_iff.mp hfinal).2.2, rfl, hbindings, ?_⟩
          simp [invokeResolved, bindInvocation_eq, hnone, hfinal, Except.map]
      | error result =>
          obtain ⟨message, rfl⟩ := finalChecks_eq_error hfinal
          refine ⟨fun hadmissible => ?_, fun _ => ⟨message, ?_⟩⟩
          · obtain ⟨callback, hcallback⟩ := (hgate.mp hadmissible).2
            rw [hfinal] at hcallback
            cases hcallback
          · simp [invokeResolved, bindInvocation_eq, hnone, hfinal, Except.map]
    · refine ⟨fun hadmissible => absurd (hgate.mp hadmissible).1 hfails, fun _ => ⟨message, ?_⟩⟩
      simp [invokeResolved, bindInvocation_eq, hmessage]

/-- A command with a switch and a mode that defaults to `fast`. -/
def relayNode : CommandNode Unit :=
  .node
    { object := 1
      name := text "relay"
      parameters :=
        [{ name := text "state", kind := .boolean },
          { name := text "mode", required := false, hasDefault := true,
            defaultValue := text "fast", choices := [text "fast", text "slow"] }]
      callback := some fun _ => pure (.ok []) } []

/-- `relay on`. -/
def relayOn : CommandInvocation :=
  { CommandInvocation.empty with
    path := [text "relay"], positional := [.string (text "on")] }

theorem admissible_relayOn : Admissible .withoutFloatingText relayNode relayOn where
  required := by
    intro j parameter hj _
    rcases j with _ | _ | j
    · decide
    · decide
    · cases hj
  valid := by
    intro j parameter value hj hvalue
    rcases j with _ | _ | j
    · obtain rfl := Option.some.inj hj
      obtain rfl := Option.some.inj hvalue
      rfl
    · obtain rfl := Option.some.inj hj
      obtain rfl := Option.some.inj hvalue
      rfl
    · cases hj
  positional := by decide
  known := by
    intro pair hpair
    cases hpair
  executable := by simp [relayNode]

theorem invokeResolved_gate_relayOn :
    ∃ callback context, relayNode.label.callback = some callback ∧
      context.bindings.map (fun binding => (binding.name, context.valueOf binding)) =
        [(text "state", some (.string (text "on"))),
          (text "mode", some (.string (text "fast")))] ∧
      invokeResolved .withoutFloatingText .initial relayNode relayOn =
        chain relayOn (execute relayNode.label callback context) [] := by
  have hpure : ∀ parameter ∈ relayNode.label.parameters, parameter.PureValidator := by
    intro parameter hparameter validator hvalidator
    simp only [relayNode, RoseTree.label_node, List.mem_cons, List.not_mem_nil, or_false]
      at hparameter
    rcases hparameter with rfl | rfl <;> cases hvalidator
  obtain ⟨callback, context, hcallback, -, hbindings, hchain⟩ :=
    (invokeResolved_gate .withoutFloatingText .initial relayNode relayOn hpure).1
      admissible_relayOn
  exact ⟨callback, context, hcallback, hbindings, hchain⟩

end CommandRegistry
end EspressioCommand
