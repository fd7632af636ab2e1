import EspressioCommand.Json.Describe
import EspressioCommand.Library.Related
import EspressioCommand.Registry.Binding
import EspressioCommand.Registry.Validation
import EspressioCommand.Value.NarrowingOrder

/-!
# A description as a contract

A client that knows a command by its JSON description can check a call before it is sent,
against parameters of its own that are described by the same document.  Those have no
validator, and their limits are `double`s because the document has no others.

`admissible_iff_of_described` compares that check with the command's own.  They differ in
two ways only: a validator is not described, and a limit that is no `double` is described
by its neighbour, which the command refuses when it lies outside.
-/

namespace EspressioCommand

open Library CommandRegistry

variable {σ σ' : Type}

/-! ### One value -/

namespace CommandParameter

/-- A number that is compared with the range, if there is one, is the value of a `double`. -/
def ReadsDouble (platform : Platform) (value : CommandValue) (kind : ParameterKind) : Prop :=
  ∀ x, comparedNumber platform value kind = .ok (some x) → ∃ d : Double, x = d.toLongDouble

/-- The number is a limit as it is described, and is outside the limit as it was given. -/
def PastLimit (parameter : CommandParameter σ) (x : LongDouble) : Prop :=
  parameter.hasRange = true ∧
    ((x.lt parameter.minimum = true ∧
        x = (Double.ofLongDouble parameter.minimum).toLongDouble) ∨
      (parameter.maximum.lt x = true ∧
        x = (Double.ofLongDouble parameter.maximum).toLongDouble))

/-- The value is such a number. -/
def OnRoundedLimit (parameter : CommandParameter σ) (platform : Platform) (value : CommandValue) :
    Prop :=
  ∃ x, comparedNumber platform value parameter.kind = .ok (some x) ∧ parameter.PastLimit x

/-- The validator, where there is one, has nothing to say, throws nothing and leaves the
state alone. -/
def ValidatorSilent (parameter : CommandParameter σ) (view : CommandString) : Prop :=
  ∀ validator, parameter.validator = some validator →
    (do
      let accepted ← validator view
      if accepted then return [] else return parameter.validatorMessage) =
    (pure [] : Eff σ CommandString)

/-- What can be said of a parameter that was made from a description. -/
structure FromDescription (parameter : CommandParameter σ) : Prop where
  minimum : (Double.ofLongDouble parameter.minimum).toLongDouble = parameter.minimum
  maximum : (Double.ofLongDouble parameter.maximum).toLongDouble = parameter.maximum
  validator : parameter.validator = none

/-- The stages of `Validate`, where it is to answer without an effect. -/
theorem validate_eq_nil_iff [Nonempty σ] (parameter : CommandParameter σ) (platform : Platform)
    (value : CommandValue) :
    parameter.validate platform value = pure [] ↔
      parameter.checkKind platform value = .ok none ∧ parameter.Chosen platform value ∧
        parameter.ValidatorSilent (value.toString platform) := by
  have hspeaks {message : CommandString} (hmessage : message ≠ []) :
      ¬ (pure message : Eff σ CommandString) = pure [] := by
    intro h
    exact hmessage (eff_pure_inj h)
  rw [validate]
  cases hkind : parameter.checkKind platform value with
  | error e =>
      cases e with
      | foreign => exact absurd hkind (parameter.throwsStd_checkKind platform value)
      | std kind what =>
          refine iff_of_false (hspeaks ?_) (by simp)
          exact List.append_ne_nil_of_left_ne_nil (parameter.namedError_ne_nil (by decide) _) _
  | ok early =>
      cases early with
      | some message => exact iff_of_false (hspeaks (ne_nil_of_checkKind hkind)) (by simp)
      | none =>
          by_cases hchosen : parameter.Chosen platform value
          · have hnot : ¬ (parameter.choices ≠ [] ∧
                value.toString platform ∉ parameter.choices) := by
              intro hoffered
              exact hchosen.elim hoffered.1 hoffered.2
            simp only [hnot, if_false, hchosen, true_and, ValidatorSilent]
            cases parameter.validator with
            | none => simp
            | some validator => simp
          · have hoffered : parameter.choices ≠ [] ∧
                value.toString platform ∉ parameter.choices := not_or.mp hchosen
            refine iff_of_false ?_ (by simp [hchosen])
            rw [if_pos hoffered]
            exact hspeaks (parameter.namedError_ne_nil (by decide) _)

section Described

variable {parameter : CommandParameter σ} {client : CommandParameter σ'}
  (h : client.outline = parameter.outline)
include h

theorem matchesKey_of_outline_eq : client.matchesKey = parameter.matchesKey := by
  simp only [outline, ParameterOutline.mk.injEq] at h
  ext key
  rw [matchesKey, matchesKey, h.1, h.2.2.2.2.2.2.2.1]

/-- **The range.**  The client's test of a number is the test of the parameter, but for a
described limit that lies outside; where there is a range, the number is a `double`. -/
theorem outsideRange_iff_of_described (hclient : client.FromDescription) {x : LongDouble}
    (hdouble : parameter.hasRange = true → ∃ d : Double, x = d.toLongDouble) :
    parameter.outsideRange x = false ↔
      client.outsideRange x = false ∧ ¬ parameter.PastLimit x := by
  simp only [outline, ParameterOutline.mk.injEq] at h
  obtain ⟨-, -, -, -, -, -, hrange, -, -⟩ := h
  rw [outsideRange, outsideRange, PastLimit]
  cases hhas : parameter.hasRange with
  | false =>
      have hnone : client.hasRange = false := by
        rw [hhas] at hrange
        by_contra hnot
        simp [hnot] at hrange
      simp [hnone]
  | true =>
      obtain ⟨d, rfl⟩ := hdouble hhas
      have hsome : client.hasRange = true := by
        rw [hhas] at hrange
        by_contra hnot
        simp [hnot] at hrange
      rw [hhas, hsome, if_pos rfl, if_pos rfl, Option.some.injEq, Prod.mk.injEq] at hrange
      rw [hsome, ← hclient.minimum, ← hclient.maximum, hrange.1, hrange.2, Bool.true_and,
        Bool.true_and, Bool.or_eq_false_iff, Bool.or_eq_false_iff]
      constructor
      · rintro ⟨hlow, hhigh⟩
        refine ⟨⟨Double.not_lt_round_of_not_lt hlow, Double.not_round_lt_of_not_lt hhigh⟩, ?_⟩
        rintro ⟨-, ⟨hbelow, -⟩ | ⟨habove, -⟩⟩
        · rw [hlow] at hbelow
          cases hbelow
        · rw [hhigh] at habove
          cases habove
      · rintro ⟨⟨hlow, hhigh⟩, hpast⟩
        constructor
        · by_contra hnot
          have hbelow := Bool.eq_true_of_not_eq_false hnot
          exact hpast ⟨rfl, Or.inl ⟨hbelow, Double.eq_round_of_lt hbelow hlow⟩⟩
        · by_contra hnot
          have habove := Bool.eq_true_of_not_eq_false hnot
          exact hpast ⟨rfl, Or.inr ⟨habove, Double.eq_round_of_gt habove hhigh⟩⟩

/-- **One value.**  The parameter takes what the client's takes, unless it is on a rounded
limit or the validator objects. -/
theorem validate_iff_of_described [Nonempty σ] [Nonempty σ'] (hclient : client.FromDescription)
    {platform : Platform} {value : CommandValue}
    (hread : parameter.hasRange = true → ReadsDouble platform value parameter.kind) :
    parameter.validate platform value = pure [] ↔
      client.validate platform value = pure [] ∧ ¬ parameter.OnRoundedLimit platform value ∧
        parameter.ValidatorSilent (value.toString platform) := by
  have hrange {x : LongDouble} := outsideRange_iff_of_described h hclient (x := x)
  simp only [outline, ParameterOutline.mk.injEq] at h
  obtain ⟨-, -, hkind, -, -, -, -, -, hchoices⟩ := h
  have hsilent : client.ValidatorSilent (value.toString platform) := by
    intro validator hvalidator
    rw [hclient.validator] at hvalidator
    cases hvalidator
  have hchosen : client.Chosen platform value ↔ parameter.Chosen platform value := by
    rw [Chosen, Chosen, hchoices]
  have hchecked : parameter.checkKind platform value = .ok none ↔
      client.checkKind platform value = .ok none ∧ ¬ parameter.OnRoundedLimit platform value := by
    rw [checkKind_eq_none_iff, checkKind_eq_none_iff, hkind, OnRoundedLimit]
    cases hcompared : comparedNumber platform value parameter.kind with
    | error e => simp
    | ok compared =>
        cases compared with
        | none => simp
        | some x =>
            simpa using hrange fun hhas => hread hhas x hcompared
  rw [validate_eq_nil_iff, validate_eq_nil_iff, hchecked, hchosen]
  tauto

end Described

end CommandParameter

/-! ### One call -/

namespace CommandRegistry

section Described

variable {invocation : CommandInvocation}

theorem choiceAtRank_of_outline_eq {parameter : CommandParameter σ} {client : CommandParameter σ'}
    (h : client.outline = parameter.outline) (rank : ℕ) :
    choiceAtRank invocation rank client = choiceAtRank invocation rank parameter := by
  have hnamed : namedArgument client invocation = namedArgument parameter invocation := by
    rw [namedArgument, namedArgument, CommandParameter.matchesKey_of_outline_eq h]
  simp only [CommandParameter.outline, ParameterOutline.mk.injEq] at h
  obtain ⟨-, -, -, -, hnamedOnly, hdefault, -, -, -⟩ := h
  have hchoice : defaultChoice client = defaultChoice parameter := by
    have hmapped := congrArg
      (Option.map fun value => (ValuePointer.owned, CommandValue.string value)) hdefault
    rw [apply_ite (Option.map _), apply_ite (Option.map _)] at hmapped
    exact hmapped
  rw [choiceAtRank, choiceAtRank, hnamed, hnamedOnly, hchoice]

theorem consumesPositional_of_outline_eq {parameter : CommandParameter σ}
    {client : CommandParameter σ'} (h : client.outline = parameter.outline) :
    consumesPositional invocation client = consumesPositional invocation parameter := by
  rw [consumesPositional, consumesPositional, namedArgument, namedArgument,
    CommandParameter.matchesKey_of_outline_eq h]
  simp only [CommandParameter.outline, ParameterOutline.mk.injEq] at h
  rw [h.2.2.2.2.1]

variable {parameters : List (CommandParameter σ)} {clients : List (CommandParameter σ')}
  (h : List.Forall₂ (fun client parameter => client.outline = parameter.outline) clients parameters)
include h

/-- The values of a call go to the same parameters. -/
theorem parameterValue_of_outlines_eq (j : ℕ) :
    parameterValue clients invocation j = parameterValue parameters invocation j := by
  have hrank : positionalRank clients invocation j = positionalRank parameters invocation j :=
    countP_related (fun _ _ houtline => consumesPositional_of_outline_eq houtline)
      (List.forall₂_take j h)
  rw [parameterValue, parameterValue, parameterChoice, parameterChoice, hrank]
  rcases rel_cases (getElem?_related h j) with ⟨hclient, hparameter⟩ |
    ⟨client, parameter, hclient, hparameter, houtline⟩
  · rw [hclient, hparameter]
    rfl
  · rw [hclient, hparameter, Option.bind_some, Option.bind_some,
      choiceAtRank_of_outline_eq houtline]

end Described

/-- **One call** that is checked against parameters of the same description. -/
theorem admissible_iff_of_outlines_eq [Nonempty σ] [Nonempty σ'] {platform : Platform}
    {node : CommandNode σ} {client : CommandNode σ'}
    (h : List.Forall₂ (fun client parameter => client.outline = parameter.outline)
      client.label.parameters node.label.parameters)
    (hexecutable : client.label.callback.isSome = node.label.callback.isSome)
    (hclient : ∀ parameter ∈ client.label.parameters, parameter.FromDescription)
    {invocation : CommandInvocation}
    (hread : ∀ j parameter value, node.label.parameters[j]? = some parameter →
      parameterValue node.label.parameters invocation j = some value →
      parameter.hasRange = true → CommandParameter.ReadsDouble platform value parameter.kind) :
    Admissible platform node invocation ↔
      Admissible platform client invocation ∧
        ∀ j parameter value, node.label.parameters[j]? = some parameter →
          parameterValue node.label.parameters invocation j = some value →
          ¬ parameter.OnRoundedLimit platform value ∧
            parameter.ValidatorSilent (value.toString platform) := by
  have hvalue : ∀ j, parameterValue client.label.parameters invocation j =
      parameterValue node.label.parameters invocation j := parameterValue_of_outlines_eq h
  have hpositional : client.label.parameters.countP (consumesPositional invocation) =
      node.label.parameters.countP (consumesPositional invocation) :=
    countP_related (fun _ _ houtline => consumesPositional_of_outline_eq houtline) h
  have hknown (key : CommandString) :
      (∃ parameter ∈ client.label.parameters, parameter.matchesKey key = true) ↔
        ∃ parameter ∈ node.label.parameters, parameter.matchesKey key = true := by
    rw [← List.countP_pos_iff, ← List.countP_pos_iff, countP_related _ h]
    intro _ _ houtline
    rw [CommandParameter.matchesKey_of_outline_eq houtline]
  have hcallback : client.label.callback ≠ none ↔ node.label.callback ≠ none := by
    rw [← Option.isSome_iff_ne_none, ← Option.isSome_iff_ne_none, hexecutable]
  -- a value for the parameters at one place
  have hone {j : ℕ} {described : CommandParameter σ'} {parameter : CommandParameter σ}
      {value : CommandValue} (hdescribed : client.label.parameters[j]? = some described)
      (hparameter : node.label.parameters[j]? = some parameter)
      (houtline : described.outline = parameter.outline)
      (hj : parameterValue node.label.parameters invocation j = some value) :=
    CommandParameter.validate_iff_of_described houtline
      (hclient described (List.mem_of_getElem? hdescribed)) (hread j parameter value hparameter hj)
  constructor
  · intro hadmissible
    refine ⟨⟨?_, ?_, ?_, ?_, hcallback.mpr hadmissible.executable⟩, ?_⟩
    · intro j described hdescribed hneeded
      obtain ⟨parameter, hparameter, houtline⟩ := exists_getElem?_of_left h hdescribed
      have hrequired : described.required = parameter.required :=
        congrArg ParameterOutline.required houtline
      rw [hvalue]
      rw [hrequired] at hneeded
      exact hadmissible.required j parameter hparameter hneeded
    · intro j described value hdescribed hj
      obtain ⟨parameter, hparameter, houtline⟩ := exists_getElem?_of_left h hdescribed
      rw [hvalue] at hj
      have hvalid := hadmissible.valid j parameter value hparameter hj
      exact ((hone hdescribed hparameter houtline hj).mp hvalid).1
    · rw [hpositional]
      exact hadmissible.positional
    · intro pair hpair
      exact (hknown pair.1).mpr (hadmissible.known pair hpair)
    · intro j parameter value hparameter hj
      obtain ⟨described, hdescribed, houtline⟩ := exists_getElem?_of_right h hparameter
      have hvalid := hadmissible.valid j parameter value hparameter hj
      exact ((hone hdescribed hparameter houtline hj).mp hvalid).2
  · rintro ⟨hadmissible, hrest⟩
    refine ⟨?_, ?_, ?_, ?_, hcallback.mp hadmissible.executable⟩
    · intro j parameter hparameter hneeded
      obtain ⟨described, hdescribed, houtline⟩ := exists_getElem?_of_right h hparameter
      have hrequired : described.required = parameter.required :=
        congrArg ParameterOutline.required houtline
      rw [← hvalue]
      rw [← hrequired] at hneeded
      exact hadmissible.required j described hdescribed hneeded
    · intro j parameter value hparameter hj
      obtain ⟨described, hdescribed, houtline⟩ := exists_getElem?_of_right h hparameter
      have hvalid := hadmissible.valid j described value hdescribed (by rw [hvalue, hj])
      exact (hone hdescribed hparameter houtline hj).mpr
        ⟨hvalid, hrest j parameter value hparameter hj⟩
    · rw [← hpositional]
      exact hadmissible.positional
    · intro pair hpair
      exact (hknown pair.1).mp (hadmissible.known pair hpair)

end CommandRegistry

/-! ### By the document -/

namespace JsonCommandInterpreter

/-- **A description is a contract.**  A client whose own command is described by the same
document admits every call that the command admits; and of the calls that the client
admits, the command refuses those with a number on a rounded limit and those that one of
its validators objects to. -/
theorem admissible_iff_of_described [Nonempty σ] [Nonempty σ'] {platform : Platform}
    {registry : CommandRegistry σ} {clients : CommandRegistry σ'} {path : CommandPath}
    (hpath : path ≠ []) {includeHidden : Bool}
    (hdocument : describeDocument clients path includeHidden =
      describeDocument registry path includeHidden)
    {node : CommandNode σ} {client : CommandNode σ'} (hnode : registry.resolve path = some node)
    (hclient : clients.resolve path = some client)
    (hplain : ∀ parameter ∈ client.label.parameters, parameter.FromDescription)
    {invocation : CommandInvocation}
    (hread : ∀ j parameter value, node.label.parameters[j]? = some parameter →
      parameterValue node.label.parameters invocation j = some value →
      parameter.hasRange = true → CommandParameter.ReadsDouble platform value parameter.kind) :
    Admissible platform node invocation ↔
      Admissible platform client invocation ∧
        ∀ j parameter value, node.label.parameters[j]? = some parameter →
          parameterValue node.label.parameters invocation j = some value →
          ¬ parameter.OnRoundedLimit platform value ∧
            parameter.ValidatorSilent (value.toString platform) := by
  rw [describeDocument_eq, describeDocument_eq, if_neg hpath, if_neg hpath, hnode, hclient]
    at hdocument
  simp only [Json.object.injEq, List.cons.injEq, Prod.mk.injEq, true_and, and_true,
    writeNode_eq_iff] at hdocument
  cases node with
  | node data children =>
      cases client with
      | node data' children' =>
          rw [CommandNode.outline, CommandNode.outline, RoseTree.node.injEq] at hdocument
          have hdata := hdocument.1
          simp only [NodeData.outline, NodeOutline.mk.injEq] at hdata
          obtain ⟨-, -, hexecutable, -, -, -, -, hparameters, -⟩ := hdata
          refine admissible_iff_of_outlines_eq ?_ ?_ hplain hread
          · exact forall₂_of_map_eq hparameters
          · exact hexecutable

/-- A command with a share of at least `limit`. -/
def mixNode (limit : LongDouble) : CommandNode Unit :=
  .node
    { object := 1
      name := text "mix"
      parameters :=
        [{ name := text "share", kind := .floatingPoint, hasRange := true, minimum := limit,
            maximum := .finite 1 }]
      callback := some fun _ => pure (.ok []) } []

def mixRegistry (limit : LongDouble) : CommandRegistry Unit where
  root := .node { object := 0, name := [] } [mixNode limit]
  created := 2

/-- Three tenths, and the `double` by which a description gives them. -/
def threeTenths : LongDouble := .finite (3 / 10)

def describedThreeTenths : Double := ⟨4599075939470750515⟩

/-- The described limit is refused. -/
theorem admissible_iff_of_described_mix :
    ¬ Admissible .withoutFloatingText (mixNode threeTenths)
      ⟨[text "mix"], [.floatingPoint describedThreeTenths], OrderedMap.empty, []⟩ := by
  have hlimit : Double.ofLongDouble threeTenths = describedThreeTenths := by decide +kernel
  have hsame : Double.ofLongDouble describedThreeTenths.toLongDouble = describedThreeTenths := by
    decide +kernel
  have hdocument : describeDocument (mixRegistry describedThreeTenths.toLongDouble) [text "mix"]
      false = describeDocument (mixRegistry threeTenths) [text "mix"] false := by
    have hnode : writeNode false (mixNode describedThreeTenths.toLongDouble) =
        writeNode false (mixNode threeTenths) := by
      rw [writeNode_eq_iff]
      simp [mixNode, CommandNode.outline, NodeData.outline, CommandParameter.outline, hlimit, hsame]
    have hresolve (limit : LongDouble) :
        (mixRegistry limit).resolve [text "mix"] = some (mixNode limit) := rfl
    rw [describeDocument_eq, describeDocument_eq, hresolve, hresolve, if_neg (by decide),
      if_neg (by decide)]
    simp only [hnode]
  have hcompared : CommandParameter.comparedNumber .withoutFloatingText
      (.floatingPoint describedThreeTenths) .floatingPoint =
        .ok (some describedThreeTenths.toLongDouble) := by decide +kernel
  intro hadmissible
  have hrefused := ((admissible_iff_of_described (by decide) hdocument rfl rfl ?_ ?_).mp
    hadmissible).2 0 _ (.floatingPoint describedThreeTenths) rfl rfl
  · refine hrefused.1 ⟨_, hcompared, rfl, Or.inl ⟨by decide +kernel, ?_⟩⟩
    show _ = (Double.ofLongDouble threeTenths).toLongDouble
    rw [hlimit]
  · intro parameter hparameter
    obtain rfl := List.mem_singleton.mp hparameter
    exact ⟨by decide +kernel, by decide +kernel, rfl⟩
  · intro j parameter value hparameter hvalue _ x hx
    rcases j with _ | j
    · obtain rfl := Option.some.inj hparameter
      obtain rfl := Option.some.inj hvalue
      rw [hcompared] at hx
      exact ⟨_, (Option.some.inj (Except.ok.inj hx)).symm⟩
    · cases hparameter

end JsonCommandInterpreter

end EspressioCommand
