import Mathlib.Data.List.Induction
import EspressioCommand.Registry.TextInvocation

/-!
# What becomes of the supplied arguments

An invocation brings positional values and named values.  A text line may write a
key several times; the invocation's map keeps the first of them.  The loop of
`InvokeResolved` then gives each parameter the least key of the map that it
matches, so a key may be taken by several parameters or by none.

* `Supplied`: how a call brings its arguments to `InvokeResolved`.
* `Conserves`: each of them is the value of exactly one binding.
* `conserves_iff`: for the invocations that get as far as the user's code, this is
  so exactly when no key is written twice and each key is the least match of
  exactly one parameter.  Positional values are never lost.
-/

namespace EspressioCommand
namespace CommandRegistry

open Library TextCommandParser

variable {σ : Type}

/-! ### The arguments a caller supplied -/

/-- The named arguments written in the tokens behind the path. -/
def writtenNamed : CommandPath → List (CommandString × CommandValue)
  | [] => []
  | token :: rest =>
      if dashes.isPrefixOf token then
        match token.idxOf? equalsSign with
        | some equals =>
            ((token.drop 2).take (equals - 2), .string (token.drop (equals + 1))) ::
              writtenNamed rest
        | none =>
            match rest with
            | [] => []
            | value :: rest => (token.drop 2, .string value) :: writtenNamed rest
      else writtenNamed rest

/-- The positional arguments written in the tokens behind the path. -/
def writtenPositional : CommandPath → List CommandValue
  | [] => []
  | token :: rest =>
      if dashes.isPrefixOf token then
        match token.idxOf? equalsSign with
        | some _ => writtenPositional rest
        | none =>
            match rest with
            | [] => []
            | _ :: rest => writtenPositional rest
      else .string token :: writtenPositional rest

/-- What the splitting loop makes of the written arguments. -/
theorem splitArguments_eq_ok {arguments : CommandPath} {invocation split : CommandInvocation}
    (h : splitArguments arguments invocation = .ok split) :
    split = { invocation with
      positional := invocation.positional ++ writtenPositional arguments
      named := invocation.named.emplaceAll (writtenNamed arguments) } := by
  induction arguments using writtenNamed.induct generalizing invocation with
  | case1 =>
      obtain rfl := Except.ok.inj h
      simp [writtenPositional, writtenNamed]
  | case2 token rest hdash equals hequals ih =>
      rw [splitArguments_assigned hdash hequals] at h
      rw [ih h, writtenPositional.eq_def (token :: rest), writtenNamed.eq_def (token :: rest)]
      simp [hdash, hequals]
  | case3 token hdash hequals =>
      have hdash' : (text "--").isPrefixOf token = true := hdash
      rw [splitArguments] at h
      simp [hdash', hequals] at h
  | case4 token hdash hequals value rest ih =>
      rw [splitArguments_separate hdash hequals] at h
      rw [ih h, writtenPositional, writtenNamed]
      simp [hdash, hequals]
  | case5 token rest hdash ih =>
      have hplain : dashes.isPrefixOf token = false := Bool.eq_false_of_not_eq_true hdash
      rw [splitArguments_positional hplain] at h
      rw [ih h, writtenPositional.eq_def (token :: rest), writtenNamed.eq_def (token :: rest)]
      simp [hplain]

/-- `Supplied platform registry named positional node invocation call`: the call brings
the arguments `named` and `positional` to the command `node`, as `invocation`. -/
inductive Supplied (platform : Platform) (registry : CommandRegistry σ) :
    List (CommandString × CommandValue) → List CommandValue → CommandNode σ →
      CommandInvocation → Eff σ CommandResult → Prop
  | structured {node : CommandNode σ} {invocation : CommandInvocation}
      (hpath : invocation.path ≠ []) (hresolve : registry.resolve invocation.path = some node) :
      Supplied platform registry invocation.named.entries invocation.positional node invocation
        (registry.invoke platform invocation)
  | textual {line token : CommandString} {rest path arguments : CommandPath}
      {node : CommandNode σ} {invocation : CommandInvocation}
      (htokens : tokenize line = ⟨token :: rest, []⟩) (hhelp : isHelpToken token = false)
      (hdescend : descend registry.root (token :: rest) = (node, path, arguments))
      (hpath : path ≠ [])
      (hsplit : splitArguments arguments
        { CommandInvocation.empty with path := path, raw := line } = .ok invocation) :
      Supplied platform registry (writtenNamed arguments) (writtenPositional arguments) node
        invocation (registry.invokeText platform line)

/-- The supplied named arguments fill the map, the positional ones the list. -/
theorem Supplied.invocation_eq {platform : Platform} {registry : CommandRegistry σ}
    {named : List (CommandString × CommandValue)} {positional : List CommandValue}
    {node : CommandNode σ} {invocation : CommandInvocation} {call : Eff σ CommandResult}
    (h : Supplied platform registry named positional node invocation call) :
    invocation.named = OrderedMap.empty.emplaceAll named ∧
      invocation.positional = positional := by
  cases h with
  | structured hpath hresolve =>
      exact ⟨(OrderedMap.emplaceAll_of_perm (.refl _)).symm, rfl⟩
  | textual htokens hhelp hdescend hpath hsplit =>
      rw [splitArguments_eq_ok hsplit]
      exact ⟨rfl, rfl⟩

/-- Once its arguments are there, an executable command is invoked with them. -/
theorem Supplied.call_eq {platform : Platform} {registry : CommandRegistry σ}
    {named : List (CommandString × CommandValue)} {positional : List CommandValue}
    {node : CommandNode σ} {invocation : CommandInvocation} {call : Eff σ CommandResult}
    (h : Supplied platform registry named positional node invocation call)
    (hexecutable : node.label.callback ≠ none) :
    call = registry.invokeResolved platform node invocation := by
  cases h with
  | structured hpath hresolve => rw [invoke, if_neg hpath, hresolve]
  | textual htokens hhelp hdescend hpath hsplit =>
      have hcallback : node.label.callback.isNone = false :=
        Option.isNone_eq_false_iff.mpr (Option.isSome_iff_ne_none.mpr hexecutable)
      rw [invokeText, htokens]
      simp [hhelp, invokeTokens, hdescend, hpath, hcallback, hsplit]

/-! ### Conservation -/

/-- The key is free when the turn comes to insert the `i`-th named argument. -/
def keyFree (named : List (CommandString × CommandValue)) (i : ℕ) (key : CommandString) : Bool :=
  (OrderedMap.empty.emplaceAll (named.take i)).entries.all fun e => e.1 ≠ key

/-- The binding has for its value the `i`-th named argument, which `emplace` did
not drop. -/
def holdsNamed (named : List (CommandString × CommandValue)) (context : CommandContext) (i : ℕ)
    (binding : Binding) : Bool :=
  match named[i]? with
  | none => false
  | some (key, value) =>
      keyFree named i key && (binding.value = .named key && context.valueOf binding = some value)

/-- The binding has for its value the `i`-th positional argument. -/
def holdsPositional (positional : List CommandValue) (context : CommandContext) (i : ℕ)
    (binding : Binding) : Bool :=
  binding.value = .positional i && context.valueOf binding = positional[i]?

/-- Every supplied argument is the value of exactly one binding. -/
structure Conserves (named : List (CommandString × CommandValue))
    (positional : List CommandValue) (context : CommandContext) : Prop where
  named : ∀ i < named.length, context.bindings.countP (holdsNamed named context i) = 1
  positional : ∀ i < positional.length,
    context.bindings.countP (holdsPositional positional context i) = 1

/-- The parameter matches `key` and no lesser one of the keys. -/
def leastMatch (keys : List CommandString) (key : CommandString)
    (parameter : CommandParameter σ) : Bool :=
  parameter.matchesKey key && keys.all fun other => !parameter.matchesKey other || key ≤ other

/-- The keys that the binding loop does justice to: none is written twice, and each
is the least match of exactly one parameter. -/
structure KeysApart (parameters : List (CommandParameter σ)) (keys : List CommandString) :
    Prop where
  nodup : keys.Nodup
  matched : ∀ key ∈ keys, parameters.countP (leastMatch keys key) = 1

/-- Exactly one selected element of a list has a given rank among the selected
elements, as long as the rank is less than their number. -/
theorem countP_zipIdx_rank {α : Type*} (selected : α → Bool) (l : List α) (rank : ℕ) :
    l.zipIdx.countP (fun a => selected a.1 && (l.take a.2).countP selected == rank) =
      if rank < l.countP selected then 1 else 0 := by
  -- from the right, since an element's rank depends on those before it
  induction l using List.reverseRecOn with
  | nil => simp
  | append_singleton l a ih =>
      have hearlier : l.zipIdx.countP
          (fun b => selected b.1 && ((l ++ [a]).take b.2).countP selected == rank) =
            l.zipIdx.countP fun b => selected b.1 && (l.take b.2).countP selected == rank := by
        refine List.countP_congr fun b hb => ?_
        have hlt : b.2 < l.length := List.snd_lt_of_mem_zipIdx hb
        rw [List.take_append_of_le_length hlt.le]
      rw [List.zipIdx_append, List.countP_append, hearlier, ih, List.countP_append]
      simp only [List.zipIdx_cons, List.zipIdx_nil, List.countP_singleton, Nat.zero_add]
      rw [List.take_left]
      cases hselected : selected a with
      | false => simp
      | true =>
          by_cases hrank : rank < l.countP selected
          · have hne : l.countP selected ≠ rank := by omega
            have hlt : rank < l.countP selected + 1 := by omega
            simp [hrank, hne, hlt]
          · by_cases heq : l.countP selected = rank
            · simp [heq]
            · have hge : ¬ rank < l.countP selected + 1 := by omega
              simp [hrank, heq, hge]

/-- The pointers of the specified bindings, counted over the parameters. -/
theorem countP_expectedBindings (platform : Platform) (parameters : List (CommandParameter σ))
    (invocation : CommandInvocation) (p : Binding → Bool) :
    (expectedBindings platform parameters invocation).countP p =
      parameters.zipIdx.countP fun a =>
        (choiceAtRank invocation (positionalRank parameters invocation a.2) a.1).any
          fun choice => p (makeBinding platform a.1 choice.1 choice.2) := by
  rw [expectedBindings, List.countP_filterMap]
  refine List.countP_congr fun a ha => ?_
  have hchoice : parameterChoice parameters invocation a.2 =
      choiceAtRank invocation (positionalRank parameters invocation a.2) a.1 := by
    rw [parameterChoice, List.mem_zipIdx_iff_getElem?.mp ha, Option.bind_some]
  rw [hchoice]
  cases choiceAtRank invocation (positionalRank parameters invocation a.2) a.1 with
  | none => exact Iff.rfl
  | some choice => exact Iff.rfl

/-- A positional value is taken by the parameter of its rank. -/
theorem any_holdsPositional (platform : Platform) (invocation : CommandInvocation)
    (parameter : CommandParameter σ) (bindings : List Binding) (rank : ℕ) {i : ℕ}
    (hi : i < invocation.positional.length) :
    ((choiceAtRank invocation rank parameter).any fun choice =>
        holdsPositional invocation.positional ⟨bindings, invocation⟩ i
          (makeBinding platform parameter choice.1 choice.2)) =
      (consumesPositional invocation parameter && rank == i) := by
  rw [Bool.eq_iff_iff, Option.any_eq_true]
  constructor
  · rintro ⟨⟨pointer, value⟩, hchoice, hholds⟩
    rcases choiceAtRank_eq_some hchoice with ⟨key, -, rfl⟩ | ⟨hconsumes, rfl, -⟩ | ⟨rfl, -⟩
    · simp [holdsPositional, makeBinding] at hholds
    · have hrank : rank = i := by
        have hand := (Bool.and_eq_true _ _ ▸ hholds).1
        simpa [makeBinding] using hand
      simp [hconsumes, hrank]
    · simp [holdsPositional, makeBinding] at hholds
  · intro h
    obtain ⟨hconsumes, hrank⟩ := Bool.and_eq_true _ _ ▸ h
    obtain rfl : rank = i := by simpa using hrank
    have hvalue : invocation.positional[rank]? = some invocation.positional[rank] :=
      List.getElem?_eq_getElem hi
    have hparts : (namedArgument parameter invocation).isNone = true ∧
        parameter.namedOnly = false := by
      simpa [consumesPositional, and_comm] using hconsumes
    have hnone : namedArgument parameter invocation = none := by
      simpa using hparts.1
    refine ⟨(.positional rank, invocation.positional[rank]), ?_, ?_⟩
    · simp [choiceAtRank, hnone, hparts.2, hvalue]
    · simp [holdsPositional, makeBinding, CommandContext.valueOf, CommandContext.pointee]

theorem keyFree_iff (named : List (CommandString × CommandValue)) (i : ℕ)
    (key : CommandString) : keyFree named i key = true ↔ ∀ e ∈ named.take i, e.1 ≠ key := by
  have hkeys := OrderedMap.exists_mem_emplaceAll_empty_iff (named.take i) key
  rw [← not_iff_not] at hkeys
  push Not at hkeys
  rw [← hkeys, keyFree, List.all_eq_true]
  simp only [decide_eq_true_eq]

/-- An argument whose key was free is the one the map keeps. -/
theorem find?_of_keyFree {named : List (CommandString × CommandValue)} {i : ℕ}
    {key : CommandString} {value : CommandValue} (hi : named[i]? = some (key, value))
    (hfree : keyFree named i key = true) :
    named.find? (fun e => e.1 = key) = some (key, value) := by
  obtain ⟨hlt, hget⟩ := List.getElem?_eq_some_iff.mp hi
  have hsplit : named = named.take i ++ (key, value) :: named.drop (i + 1) := by
    rw [← hget, List.getElem_cons_drop, List.take_append_drop]
  have hbefore : (named.take i).find? (fun e => decide (e.1 = key)) = none := by
    rw [List.find?_eq_none]
    intro e he
    simpa using (keyFree_iff named i key).mp hfree e he
  rw [hsplit, List.find?_append, hbefore]
  simp

/-- A parameter takes the entry of a key exactly when the key is its least match among
the supplied keys. -/
theorem namedArgument_eq_some_iff {invocation : CommandInvocation}
    {named : List (CommandString × CommandValue)}
    (hnamed : invocation.named = OrderedMap.empty.emplaceAll named)
    (parameter : CommandParameter σ) (key : CommandString) (found : CommandValue) :
    namedArgument parameter invocation = some (key, found) ↔
      (key, found) ∈ invocation.named.entries ∧
        leastMatch (named.map Prod.fst) key parameter = true := by
  -- a key dropped by `emplace` is there all the same, with its first value
  have hentries (other : CommandString) :
      (∃ e ∈ invocation.named.entries, e.1 = other) ↔ ∃ e ∈ named, e.1 = other := by
    rw [hnamed]
    exact OrderedMap.exists_mem_emplaceAll_empty_iff named other
  rw [namedArgument, OrderedMap.find?_eq_some_iff_least]
  refine and_congr_right fun _ => ?_
  rw [leastMatch, Bool.and_eq_true, List.all_eq_true]
  refine and_congr_right fun _ => ?_
  constructor
  · intro hall other hother
    obtain ⟨e, he, rfl⟩ := List.mem_map.mp hother
    obtain ⟨e', he', hkey⟩ := (hentries e.1).mpr ⟨e, he, rfl⟩
    have hle := hall e' he'
    rw [hkey] at hle
    by_cases hmatches : parameter.matchesKey e.1 = true
    · simp [hle hmatches]
    · simp [hmatches]
  · intro hall e he hmatches
    obtain ⟨e', he', hkey⟩ := (hentries e.1).mp ⟨e, he, rfl⟩
    have hor := hall e'.1 (List.mem_map_of_mem he')
    rw [hkey] at hor
    simpa [hmatches] using hor

/-- An argument whose key was free is taken by the parameters for which its key is
the least match; another one by no parameter. -/
theorem any_holdsNamed (platform : Platform) {invocation : CommandInvocation}
    {named : List (CommandString × CommandValue)}
    (hnamed : invocation.named = OrderedMap.empty.emplaceAll named)
    (parameter : CommandParameter σ) (bindings : List Binding) (rank : ℕ) {i : ℕ}
    {key : CommandString} {value : CommandValue} (hi : named[i]? = some (key, value)) :
    ((choiceAtRank invocation rank parameter).any fun choice =>
        holdsNamed named ⟨bindings, invocation⟩ i
          (makeBinding platform parameter choice.1 choice.2)) =
      (keyFree named i key && leastMatch (named.map Prod.fst) key parameter) := by
  have hleast := namedArgument_eq_some_iff hnamed parameter key
  rw [Bool.eq_iff_iff, Option.any_eq_true, Bool.and_eq_true]
  constructor
  · intro h
    obtain ⟨⟨pointer, found⟩, hchoice, hholds⟩ := h
    simp only [holdsNamed, hi, Bool.and_eq_true, decide_eq_true_eq] at hholds
    obtain ⟨hfree, hpointer, -⟩ := hholds
    obtain rfl : pointer = .named key := hpointer
    rcases choiceAtRank_eq_some hchoice with ⟨key', hargument, hkey'⟩ | ⟨-, hne, -⟩ | ⟨hne, -⟩
    · obtain rfl : key = key' := ValuePointer.named.inj hkey'
      exact ⟨hfree, ((hleast found).mp hargument).2⟩
    · cases hne
    · cases hne
  · intro h
    obtain ⟨hfree, hmatch⟩ := h
    have hmem : (key, value) ∈ invocation.named.entries := by
      rw [hnamed, OrderedMap.mem_emplaceAll_empty]
      convert find?_of_keyFree hi hfree
    have hargument := (hleast value).mpr ⟨hmem, hmatch⟩
    have hchoice : choiceAtRank invocation rank parameter = some (.named key, value) := by
      simp [choiceAtRank, hargument]
    refine ⟨_, hchoice, ?_⟩
    simp only [holdsNamed, hi, hfree, Bool.true_and, Bool.and_eq_true, decide_eq_true_eq]
    exact ⟨rfl, pointee_makeBinding platform hchoice⟩

/-- When the checks pass, the bindings are the specified ones and no positional
value is left over. -/
theorem bindInvocation_ok {platform : Platform} {registry : CommandRegistry σ}
    {node : CommandNode σ} {invocation : CommandInvocation} {context : CommandContext}
    {callback : Callback σ} {state after : σ}
    (h : (bindInvocation platform registry node invocation).runFrom state =
      (.ok (.ok (context, callback)), after)) :
    context = ⟨expectedBindings platform node.label.parameters invocation, invocation⟩ ∧
      invocation.positional.length ≤
        node.label.parameters.countP (consumesPositional invocation) ∧
      (∀ pair ∈ invocation.named.entries,
        ∃ parameter ∈ node.label.parameters, parameter.matchesKey pair.1 = true) ∧
      node.label.callback = some callback := by
  obtain ⟨-, hcontext, hfinal⟩ := bindInvocation_eq_ok h
  obtain ⟨hcount, hknown, hcallback⟩ := finalChecks_eq_ok_iff.mp hfinal
  exact ⟨hcontext, by omega, hknown, hcallback⟩

/-- Positional values are never lost: each is the value of exactly one binding. -/
theorem countP_holdsPositional (platform : Platform) (parameters : List (CommandParameter σ))
    (invocation : CommandInvocation)
    (hcount : invocation.positional.length ≤
      parameters.countP (consumesPositional invocation)) {i : ℕ}
    (hi : i < invocation.positional.length) :
    (expectedBindings platform parameters invocation).countP
      (holdsPositional invocation.positional
        ⟨expectedBindings platform parameters invocation, invocation⟩ i) = 1 := by
  have hlt : i < parameters.countP (consumesPositional invocation) := by omega
  rw [countP_expectedBindings]
  simp only [any_holdsPositional platform invocation _ _ _ hi, positionalRank]
  rw [countP_zipIdx_rank, if_pos hlt]

/-- A named value is the value of as many bindings as there are parameters whose
least match is its key, or of none when `emplace` dropped it. -/
theorem countP_holdsNamed (platform : Platform) (parameters : List (CommandParameter σ))
    {invocation : CommandInvocation} {named : List (CommandString × CommandValue)}
    (hnamed : invocation.named = OrderedMap.empty.emplaceAll named) {i : ℕ}
    {key : CommandString} {value : CommandValue} (hi : named[i]? = some (key, value)) :
    (expectedBindings platform parameters invocation).countP
        (holdsNamed named ⟨expectedBindings platform parameters invocation, invocation⟩ i) =
      if keyFree named i key then parameters.countP (leastMatch (named.map Prod.fst) key)
      else 0 := by
  rw [countP_expectedBindings]
  simp only [any_holdsNamed platform hnamed _ _ _ hi]
  split_ifs with hfree
  · simp only [hfree, Bool.true_and]
    have hfst : parameters.zipIdx.map Prod.fst = parameters := List.zipIdx_map_fst 0 parameters
    nth_rewrite 2 [← hfst]
    rw [List.countP_map]
    rfl
  · have hfalse : keyFree named i key = false := Bool.eq_false_of_not_eq_true hfree
    simp [hfalse]

/-- No argument was dropped exactly when no key is written twice. -/
theorem forall_keyFree_iff (named : List (CommandString × CommandValue)) :
    (∀ (i : ℕ) key value, named[i]? = some (key, value) → keyFree named i key = true) ↔
      (named.map Prod.fst).Nodup := by
  rw [List.Nodup, List.pairwise_map, List.pairwise_iff_getElem]
  constructor
  · intro hfree i j hi hj hij hkey
    have hnot := (keyFree_iff named j named[j].1).mp
      (hfree j _ named[j].2 (List.getElem?_eq_getElem hj))
    refine hnot named[i] ?_ hkey
    exact List.mem_take_iff_getElem.mpr ⟨i, by omega, rfl⟩
  · intro hnodup j key value hj
    obtain ⟨hlt, hget⟩ := List.getElem?_eq_some_iff.mp hj
    rw [keyFree_iff]
    intro e he hkey
    -- an earlier argument with the key would have another index
    obtain ⟨i, hi, rfl⟩ := List.mem_take_iff_getElem.mp he
    have hne := hnodup i j (by omega) hlt (by omega)
    rw [hget] at hne
    exact hne hkey

/-- **When no argument is lost or duplicated.**  For a call that brings its
arguments past the checks of `InvokeResolved`, each is the value of exactly one
binding if and only if no key is written twice and each key is the least match
of exactly one parameter. -/
theorem conserves_iff {platform : Platform} {registry : CommandRegistry σ}
    {named : List (CommandString × CommandValue)} {positional : List CommandValue}
    {node : CommandNode σ} {invocation : CommandInvocation} {call : Eff σ CommandResult}
    {context : CommandContext} {callback : Callback σ} {state after : σ}
    (hsupplied : Supplied platform registry named positional node invocation call)
    (hbound : (bindInvocation platform registry node invocation).runFrom state =
      (.ok (.ok (context, callback)), after)) :
    Conserves named positional context ↔
      KeysApart node.label.parameters (named.map Prod.fst) := by
  obtain ⟨hnamed, rfl⟩ := hsupplied.invocation_eq
  obtain ⟨rfl, hcount, -, -⟩ := bindInvocation_ok hbound
  have hcounts (i : ℕ) (key : CommandString) (value : CommandValue)
      (hi : named[i]? = some (key, value)) :=
    countP_holdsNamed platform node.label.parameters hnamed hi
  constructor
  · intro h
    obtain ⟨hall, -⟩ := h
    -- an argument counted once was not dropped, and its key has one parameter
    have hone : ∀ (i : ℕ) key value, named[i]? = some (key, value) →
        keyFree named i key = true ∧
          node.label.parameters.countP (leastMatch (named.map Prod.fst) key) = 1 := by
      intro i key value hi
      have hlt : i < named.length := (List.getElem?_eq_some_iff.mp hi).1
      have hcounted := hall i hlt
      simp only [hcounts i key value hi] at hcounted
      split_ifs at hcounted with hfree
      exact ⟨hfree, hcounted⟩
    refine ⟨(forall_keyFree_iff named).mp fun i key value hi => (hone i key value hi).1, ?_⟩
    intro key hkey
    obtain ⟨⟨key, value⟩, hmem, rfl⟩ := List.mem_map.mp hkey
    obtain ⟨i, hi⟩ := List.mem_iff_getElem?.mp hmem
    exact (hone i key value hi).2
  · intro h
    obtain ⟨hnodup, hmatched⟩ := h
    refine ⟨fun i hi => ?_, fun i hi => countP_holdsPositional platform _ _ hcount hi⟩
    have hget : named[i]? = some (named[i].1, named[i].2) := List.getElem?_eq_getElem hi
    have hfree := (forall_keyFree_iff named).mpr hnodup i _ _ hget
    simp only [hcounts i _ _ hget, if_pos hfree]
    exact hmatched _ (List.mem_map_of_mem (List.getElem_mem hi))

/-! ### A lost argument -/

/-- A command that counts its executions; its first parameter has an alias. -/
def motorNode : CommandNode ℕ :=
  .node
    { object := 1
      name := text "motor"
      parameters := [{ name := text "speed", aliases := [text "s"] },
        { name := text "ramp", required := false }]
      callback := some fun _ => do
        modify Nat.succ
        return .ok [] } []

/-- A registry with the command `motor` alone. -/
def motorRegistry : CommandRegistry ℕ where
  root := .node { object := 0, name := [] } [motorNode]
  created := 2

/-- What the tokens behind `motor` say. -/
def motorNamed : List (CommandString × CommandValue) :=
  [(text "speed", .string (text "9")), (text "s", .string (text "1"))]

/-- What `motor --speed 9 --s 1` is split into. -/
def motorInvocation : CommandInvocation where
  path := [text "motor"]
  positional := []
  named := OrderedMap.empty.emplaceAll motorNamed
  raw := text "motor --speed 9 --s 1"

/-- The context the command is run with: `speed` is bound to the value of `s`. -/
def motorContext : CommandContext where
  bindings := [{ name := text "speed", value := .named (text "s") }]
  invocation := motorInvocation

theorem supplied_motor :
    Supplied .withoutFloatingText motorRegistry motorNamed [] motorNode motorInvocation
      (motorRegistry.invokeText .withoutFloatingText (text "motor --speed 9 --s 1")) := by
  have htokens : tokenize (text "motor --speed 9 --s 1") =
      ⟨[text "motor", text "--speed", text "9", text "--s", text "1"], []⟩ := by decide
  have hdescend : descend motorRegistry.root
      [text "motor", text "--speed", text "9", text "--s", text "1"] =
        (motorNode, [text "motor"], [text "--speed", text "9", text "--s", text "1"]) := rfl
  have hsplit : splitArguments [text "--speed", text "9", text "--s", text "1"]
      { CommandInvocation.empty with
        path := [text "motor"], raw := text "motor --speed 9 --s 1" } =
      .ok motorInvocation := rfl
  exact Supplied.textual htokens (by decide) hdescend (by decide) hsplit

theorem bindInvocation_motor :
    ∃ callback, (bindInvocation .withoutFloatingText motorRegistry motorNode
      motorInvocation).runFrom 0 = (.ok (.ok (motorContext, callback)), 0) :=
  ⟨_, rfl⟩

/-- The key and its alias together: the command runs, and the value written under
the key is the value of no binding. -/
theorem not_conserves_motor :
    (∃ call callback,
      Supplied .withoutFloatingText motorRegistry motorNamed [] motorNode motorInvocation call ∧
        (bindInvocation .withoutFloatingText motorRegistry motorNode motorInvocation).runFrom 0 =
          (.ok (.ok (motorContext, callback)), 0) ∧
        call.runFrom 0 = (.ok (.ok []), 1)) ∧
      motorContext.bindings.countP (holdsNamed motorNamed motorContext 0) = 0 ∧
      ¬ Conserves motorNamed [] motorContext := by
  obtain ⟨callback, hbound⟩ := bindInvocation_motor
  refine ⟨⟨_, callback, supplied_motor, hbound, ?_⟩, by decide, ?_⟩
  · rw [supplied_motor.call_eq (by simp [motorNode])]
    rfl
  · intro h
    exact absurd (h.named 0 (by decide)) (by decide)

/-- What the tokens behind `motor` say when they mean two parameters. -/
def rampNamed : List (CommandString × CommandValue) :=
  [(text "s", .string (text "9")), (text "ramp", .string (text "1"))]

/-- What `motor --s 9 --ramp 1` is split into. -/
def rampInvocation : CommandInvocation :=
  { motorInvocation with
    named := OrderedMap.empty.emplaceAll rampNamed
    raw := text "motor --s 9 --ramp 1" }

/-- The context of this call, with one value for each parameter. -/
def rampContext : CommandContext where
  bindings := [{ name := text "speed", value := .named (text "s") },
    { name := text "ramp", value := .named (text "ramp") }]
  invocation := rampInvocation

theorem supplied_ramp :
    Supplied .withoutFloatingText motorRegistry rampNamed [] motorNode rampInvocation
      (motorRegistry.invokeText .withoutFloatingText (text "motor --s 9 --ramp 1")) := by
  have htokens : tokenize (text "motor --s 9 --ramp 1") =
      ⟨[text "motor", text "--s", text "9", text "--ramp", text "1"], []⟩ := by decide
  have hdescend : descend motorRegistry.root
      [text "motor", text "--s", text "9", text "--ramp", text "1"] =
        (motorNode, [text "motor"], [text "--s", text "9", text "--ramp", text "1"]) := rfl
  have hsplit : splitArguments [text "--s", text "9", text "--ramp", text "1"]
      { CommandInvocation.empty with
        path := [text "motor"], raw := text "motor --s 9 --ramp 1" } =
      .ok rampInvocation := rfl
  exact Supplied.textual htokens (by decide) hdescend (by decide) hsplit

theorem bindInvocation_ramp :
    ∃ callback, (bindInvocation .withoutFloatingText motorRegistry motorNode
      rampInvocation).runFrom 0 = (.ok (.ok (rampContext, callback)), 0) :=
  ⟨_, rfl⟩

/-- Two keys for one parameter lose a value; an alias and a name of different parameters are
both conserved. -/
theorem conserves_iff_motor :
    ¬ KeysApart motorNode.label.parameters (motorNamed.map Prod.fst) ∧
      Conserves rampNamed [] rampContext := by
  constructor
  · obtain ⟨callback, hbound⟩ := bindInvocation_motor
    rw [← conserves_iff supplied_motor hbound]
    intro h
    exact absurd (h.named 0 (by decide)) (by decide)
  · obtain ⟨callback, hbound⟩ := bindInvocation_ramp
    exact (conserves_iff supplied_ramp hbound).mpr ⟨by decide, by decide⟩

end CommandRegistry
end EspressioCommand
