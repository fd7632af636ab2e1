import EspressioCommand.Registry.Binding

/-!
# Text and structured invocation

A text line is cut into tokens, the tokens into a path and arguments, and the
arguments into positional and named values.  A structured invocation brings the
last of these along.  This file proves that the two entry points agree.

* `Interleaves positional named arguments`: the tokens `arguments` are the
  positional ones in order, with the named ones anywhere between them, each
  written as `--key=value` or as `--key` and `value`.
* `splitArguments_interleaves`: the splitting loop undoes every interleaving.
* `descend_resolve`: below a leaf the descent stops, so the path ends where
  `Resolve` ends.
* `invokeText_rendersLine` puts these behind the tokenizer round trip.

A text invocation differs from the structured one in its `raw` field alone.  The
binding loop does not look at it (`bindInvocation_withRaw`); that user code does
not is the assumption `IgnoresRaw`.
-/

namespace EspressioCommand
namespace CommandRegistry

open Library TextCommandParser

variable {σ : Type}

/-! ### Arguments as tokens -/

/-- The two dashes before a key. -/
def dashes : CommandString := text "--"

/-- The positional tokens in order, with named arguments anywhere between them. -/
inductive Interleaves :
    List CommandString → List (CommandString × CommandString) → CommandPath → Prop
  | nil : Interleaves [] [] []
  | positional {positional : List CommandString} {named : List (CommandString × CommandString)}
      {arguments : CommandPath} (token : CommandString)
      (hrest : Interleaves positional named arguments) :
      Interleaves (token :: positional) named (token :: arguments)
  /-- One token `--key=value`. -/
  | assigned {positional : List CommandString} {named : List (CommandString × CommandString)}
      {arguments : CommandPath} (key value : CommandString)
      (hrest : Interleaves positional named arguments) :
      Interleaves positional ((key, value) :: named)
        ((dashes ++ key ++ equalsSign :: value) :: arguments)
  /-- Two tokens `--key` and `value`. -/
  | separate {positional : List CommandString} {named : List (CommandString × CommandString)}
      {arguments : CommandPath} (key value : CommandString) (hvalue : value ≠ [])
      (hrest : Interleaves positional named arguments) :
      Interleaves positional ((key, value) :: named) ((dashes ++ key) :: value :: arguments)

/-- The named arguments of a text line, as entries of the invocation. -/
def stringEntries (named : List (CommandString × CommandString)) :
    List (CommandString × CommandValue) :=
  named.map fun pair => (pair.1, .string pair.2)

theorem Interleaves.ne_nil {positional : List CommandString}
    {named : List (CommandString × CommandString)} {arguments : CommandPath}
    (h : Interleaves positional named arguments) (hpositional : ∀ token ∈ positional, token ≠ []) :
    ∀ token ∈ arguments, token ≠ [] := by
  induction h with
  | nil => simp
  | positional token _ ih =>
      rw [List.forall_mem_cons] at hpositional ⊢
      exact ⟨hpositional.1, ih hpositional.2⟩
  | assigned key value _ ih =>
      rw [List.forall_mem_cons]
      exact ⟨by simp, ih hpositional⟩
  | separate key value hvalue _ ih =>
      rw [List.forall_mem_cons, List.forall_mem_cons]
      exact ⟨by simp [dashes, text], hvalue, ih hpositional⟩

/-- A byte that does not occur in `before` is found right behind it. -/
theorem idxOf?_append_cons {c : UInt8} {before : CommandString} (hc : c ∉ before)
    (after : CommandString) : (before ++ c :: after).idxOf? c = some before.length := by
  induction before with
  | nil => simp [List.idxOf?_cons]
  | cons d before ih =>
      rw [List.mem_cons, not_or] at hc
      have hne : (d == c) = false := by simpa using fun h => hc.1 h.symm
      rw [List.cons_append, List.idxOf?_cons, hne, ih hc.2]
      rfl

/-- No equals sign comes before the end of `--key`. -/
theorem equalsSign_not_mem {key : CommandString} (hkey : equalsSign ∉ key) :
    equalsSign ∉ dashes ++ key := by
  rw [List.mem_append]
  rintro (hdash | hmem)
  · exact absurd hdash (by decide)
  · exact hkey hmem

/-! The three ways the splitting loop takes a step. -/

theorem splitArguments_positional {token : CommandString}
    (hdash : dashes.isPrefixOf token = false) (rest : CommandPath)
    (invocation : CommandInvocation) :
    splitArguments (token :: rest) invocation =
      splitArguments rest
        { invocation with positional := invocation.positional ++ [.string token] } := by
  have hdash' : (text "--").isPrefixOf token = false := hdash
  rw [splitArguments.eq_def]
  simp only [hdash', Bool.false_eq_true, if_false]

theorem splitArguments_assigned {token : CommandString}
    (hdash : dashes.isPrefixOf token = true) {equals : ℕ}
    (hequals : token.idxOf? equalsSign = some equals) (rest : CommandPath)
    (invocation : CommandInvocation) :
    splitArguments (token :: rest) invocation =
      splitArguments rest
        { invocation with
          named := invocation.named.emplace ((token.drop 2).take (equals - 2))
            (.string (token.drop (equals + 1))) } := by
  have hdash' : (text "--").isPrefixOf token = true := hdash
  rw [splitArguments.eq_def]
  simp only [hdash', hequals, if_true]

theorem splitArguments_separate {token : CommandString}
    (hdash : dashes.isPrefixOf token = true) (hequals : token.idxOf? equalsSign = none)
    (value : CommandString) (rest : CommandPath) (invocation : CommandInvocation) :
    splitArguments (token :: value :: rest) invocation =
      splitArguments rest
        { invocation with named := invocation.named.emplace (token.drop 2) (.string value) } := by
  have hdash' : (text "--").isPrefixOf token = true := hdash
  rw [splitArguments]
  simp only [hdash', hequals, if_true]

/-- **The splitting loop undoes an interleaving.**  It appends the positional
arguments in order and inserts the named ones one after the other. -/
theorem splitArguments_interleaves {positional : List CommandString}
    {named : List (CommandString × CommandString)} {arguments : CommandPath}
    (h : Interleaves positional named arguments)
    (hpositional : ∀ token ∈ positional, dashes.isPrefixOf token = false)
    (hkeys : ∀ pair ∈ named, equalsSign ∉ pair.1) (invocation : CommandInvocation) :
    splitArguments arguments invocation =
      .ok { invocation with
        positional := invocation.positional ++ positional.map CommandValue.string
        named := invocation.named.emplaceAll (stringEntries named) } := by
  induction h generalizing invocation with
  | nil => simp [splitArguments, stringEntries]
  | @positional positional named arguments token _ ih =>
      rw [List.forall_mem_cons] at hpositional
      rw [splitArguments_positional hpositional.1, ih hpositional.2 hkeys]
      simp
  | @assigned positional named arguments key value _ ih =>
      rw [List.forall_mem_cons] at hkeys
      have hdash : dashes.isPrefixOf (dashes ++ key ++ equalsSign :: value) = true := by
        simp
      have hequals : (dashes ++ key ++ equalsSign :: value).idxOf? equalsSign =
          some (dashes ++ key).length :=
        idxOf?_append_cons (equalsSign_not_mem hkeys.1) value
      -- `substr(2, equals - 2)` is the key and `substr(equals + 1)` the value
      have hkey : ((dashes ++ key ++ equalsSign :: value).drop 2).take
          ((dashes ++ key).length - 2) = key := by
        have hlength : (dashes ++ key).length - 2 = key.length := by
          rw [List.length_append]
          have hdashes : dashes.length = 2 := rfl
          omega
        rw [hlength]
        simp [dashes, text]
      have hvalue : (dashes ++ key ++ equalsSign :: value).drop ((dashes ++ key).length + 1) =
          value := by
        rw [← List.singleton_append, ← List.append_assoc]
        refine List.drop_left' ?_
        rw [List.length_append, List.length_singleton]
      rw [splitArguments_assigned hdash hequals, hkey, hvalue, ih hpositional hkeys.2]
      rfl
  | @separate positional named arguments key value _ _ ih =>
      rw [List.forall_mem_cons] at hkeys
      have hdash : dashes.isPrefixOf (dashes ++ key) = true := by simp
      have hequals : (dashes ++ key).idxOf? equalsSign = none :=
        List.idxOf?_eq_none_iff.mpr (equalsSign_not_mem hkeys.1)
      have hkey : (dashes ++ key).drop 2 = key := rfl
      rw [splitArguments_separate hdash hequals, hkey, ih hpositional hkeys.2]
      rfl

/-! ### The descent -/

/-- **The descent along a resolved path** ends at the resolved node, and stops
there when that node has no children. -/
theorem descend_resolve {root node : CommandNode σ} {path : CommandPath}
    (hresolve : root.walk NodeData.matchesValue path = some node) (hleaf : node.children = [])
    (rest : CommandPath) : descend root (path ++ rest) = (node, path, rest) := by
  induction path generalizing root with
  | nil =>
      obtain rfl : root = node := Option.some.inj hresolve
      cases rest with
      | nil => rfl
      | cons token rest =>
          have hnone : CommandNode.findChild root token = none := by
            simp [CommandNode.findChild, RoseTree.firstAnswer, hleaf]
          rw [List.nil_append, descend, hnone]
  | cons token path ih =>
      rw [RoseTree.walk_cons] at hresolve
      obtain ⟨child, hchild, hwalk⟩ := Option.bind_eq_some_iff.mp hresolve
      have hfound : CommandNode.findChild root token = some child := hchild
      rw [List.cons_append, descend, hfound]
      simp only [ih hwalk]

/-! ### The raw text -/

/-- Neither a stage of the command nor the middleware looks at
`CommandInvocation::raw`. -/
structure IgnoresRaw (registry : CommandRegistry σ) (node : CommandNode σ) : Prop where
  stages : ∀ stage, stage ∈ node.label.before ∨ node.label.callback = some stage ∨
    stage ∈ node.label.after → ∀ bindings invocation raw,
      stage ⟨bindings, { invocation with raw := raw }⟩ = stage ⟨bindings, invocation⟩
  middleware : ∀ middleware ∈ registry.middleware, ∀ invocation raw next,
    middleware { invocation with raw := raw } next = middleware invocation next

theorem bindParameters_withRaw (platform : Platform) (registry : CommandRegistry σ)
    (invocation : CommandInvocation) (raw : CommandString)
    (parameters : List (CommandParameter σ)) (positionalIndex : ℕ) (bindings : List Binding) :
    bindParameters platform registry { invocation with raw := raw } parameters
        positionalIndex bindings =
      bindParameters platform registry invocation parameters positionalIndex bindings := by
  induction parameters generalizing positionalIndex bindings with
  | nil => rfl
  | cons parameter rest ih =>
      have hselect : selectValue parameter { invocation with raw := raw } positionalIndex =
          selectValue parameter invocation positionalIndex := rfl
      rw [bindParameters, bindParameters, hselect]
      rcases selectValue parameter invocation positionalIndex with ⟨_ | ⟨pointer, value⟩, next⟩
      · simp only [ih]
        rfl
      · simp only [ih]

/-- The checks do not look at the raw text; it is handed on in the context. -/
theorem bindInvocation_withRaw (platform : Platform) (registry : CommandRegistry σ)
    (node : CommandNode σ) (invocation : CommandInvocation) (raw : CommandString) :
    bindInvocation platform registry node { invocation with raw := raw } =
      (do
        match ← bindInvocation platform registry node invocation with
        | .error result => return .error result
        | .ok (context, callback) =>
            return .ok (⟨context.bindings, { invocation with raw := raw }⟩, callback)) := by
  rw [bindInvocation, bindInvocation, bindParameters_withRaw, bind_assoc]
  refine bind_congr fun bound => ?_
  rcases bound with result | ⟨positionalIndex, bindings⟩
  · simp
  · have hchecks : registry.finalChecks node { invocation with raw := raw } positionalIndex =
        registry.finalChecks node invocation positionalIndex := rfl
    simp only [hchecks]
    cases registry.finalChecks node invocation positionalIndex <;> simp

/-- Stages that ignore the raw text do the same with and without it. -/
theorem execute_withRaw {registry : CommandRegistry σ} {node : CommandNode σ}
    (hraw : IgnoresRaw registry node) {callback : Callback σ}
    (hcallback : node.label.callback = some callback) (bindings : List Binding)
    (invocation : CommandInvocation) (raw : CommandString) :
    execute node.label callback ⟨bindings, { invocation with raw := raw }⟩ =
      execute node.label callback ⟨bindings, invocation⟩ := by
  have hbefore : ∀ stages : List (Callback σ), (∀ stage ∈ stages, stage ∈ node.label.before) →
      runBefore ⟨bindings, { invocation with raw := raw }⟩ stages =
        runBefore ⟨bindings, invocation⟩ stages := by
    intro stages hstages
    induction stages with
    | nil => rfl
    | cons stage rest ih =>
        rw [List.forall_mem_cons] at hstages
        rw [runBefore, runBefore, hraw.stages stage (Or.inl hstages.1), ih hstages.2]
  have hafter : ∀ stages : List (Callback σ), (∀ stage ∈ stages, stage ∈ node.label.after) →
      ∀ result, runAfter ⟨bindings, { invocation with raw := raw }⟩ stages result =
        runAfter ⟨bindings, invocation⟩ stages result := by
    intro stages hstages
    induction stages with
    | nil => exact fun _ => rfl
    | cons stage rest ih =>
        intro result
        rw [List.forall_mem_cons] at hstages
        rw [runAfter, runAfter, hraw.stages stage (Or.inr (Or.inr hstages.1))]
        simp only [ih hstages.2]
  have hmain : runCallback callback ⟨bindings, { invocation with raw := raw }⟩ =
      runCallback callback ⟨bindings, invocation⟩ := by
    rw [runCallback, runCallback, hraw.stages callback (Or.inr (Or.inl hcallback))]
  rw [execute, execute, hbefore _ fun _ h => h, hmain]
  simp only [hafter _ fun _ h => h]

theorem chain_withRaw {registry : CommandRegistry σ} {node : CommandNode σ}
    (hraw : IgnoresRaw registry node) (invocation : CommandInvocation) (raw : CommandString)
    (final : Eff σ CommandResult) :
    chain { invocation with raw := raw } final registry.middleware =
      chain invocation final registry.middleware := by
  have hchain : ∀ stages : List (Middleware σ), (∀ stage ∈ stages, stage ∈ registry.middleware) →
      chain { invocation with raw := raw } final stages = chain invocation final stages := by
    intro stages hstages
    induction stages with
    | nil => rfl
    | cons stage rest ih =>
        rw [List.forall_mem_cons] at hstages
        rw [chain, chain, hraw.middleware stage hstages.1, ih hstages.2]
  exact hchain _ fun _ h => h

/-- With user code that ignores the raw text, so does the whole invocation. -/
theorem invokeResolved_withRaw (platform : Platform) {registry : CommandRegistry σ}
    {node : CommandNode σ} (hraw : IgnoresRaw registry node) (invocation : CommandInvocation)
    (raw : CommandString) :
    invokeResolved platform registry node { invocation with raw := raw } =
      invokeResolved platform registry node invocation := by
  rw [invokeResolved, invokeResolved, bindInvocation_withRaw, bindInvocation_eq]
  simp only [bind_assoc]
  refine bind_congr fun checked => ?_
  cases checked with
  | some result => simp
  | none =>
      cases hfinal : registry.finalChecks node invocation
          (min (node.label.parameters.countP (consumesPositional invocation))
            invocation.positional.length) with
      | error result => simp [Except.map]
      | ok callback =>
          have hcallback := (finalChecks_eq_ok_iff.mp hfinal).2.2
          simp only [Except.map, pure_bind]
          rw [chain_withRaw hraw, execute_withRaw hraw hcallback]

/-! ### The two entry points -/

/-- **Text and structured invocation agree.**  A line that spells the path of an
invocation and then its arguments, in any interleaving and any quoting, is
tokenized and split back into that invocation; the command it runs is the one
`Resolve` finds, and user code that does not look at the raw text makes the two
calls the same computation. -/
theorem invokeText_rendersLine (platform : Platform) (registry : CommandRegistry σ)
    {node : CommandNode σ} {invocation : CommandInvocation}
    {positional : List CommandString} {named : List (CommandString × CommandString)}
    {arguments : CommandPath} {line : CommandString}
    (hpath : invocation.path ≠ []) (htokens : ∀ token ∈ invocation.path, token ≠ [])
    (hhelp : ∀ token, invocation.path.head? = some token → isHelpToken token = false)
    (hresolve : registry.resolve invocation.path = some node) (hleaf : node.children = [])
    (hpositional : invocation.positional = positional.map CommandValue.string)
    (hplain : ∀ token ∈ positional, token ≠ [] ∧ dashes.isPrefixOf token = false)
    (hnamed : (stringEntries named).Perm invocation.named.entries)
    (hkeys : ∀ pair ∈ named, equalsSign ∉ pair.1)
    (harguments : Interleaves positional named arguments)
    (hline : RendersLine (invocation.path ++ arguments) line) :
    tokenize line = ⟨invocation.path ++ arguments, []⟩ ∧
      descend registry.root (invocation.path ++ arguments) =
        (node, invocation.path, arguments) ∧
      splitArguments arguments
          { CommandInvocation.empty with path := invocation.path, raw := line } =
        .ok { invocation with raw := line } ∧
      invokeText platform registry line =
        invokeResolved platform registry node { invocation with raw := line } ∧
      (IgnoresRaw registry node →
        invokeText platform registry line = invoke platform registry invocation) := by
  have htokenize : tokenize line = ⟨invocation.path ++ arguments, []⟩ := by
    refine tokenize_rendersLine hline fun token htoken => ?_
    rcases List.mem_append.mp htoken with hmem | hmem
    · exact htokens token hmem
    · exact harguments.ne_nil (fun t ht => (hplain t ht).1) token hmem
  have hdescend : descend registry.root (invocation.path ++ arguments) =
      (node, invocation.path, arguments) := descend_resolve hresolve hleaf arguments
  have hsplit : splitArguments arguments
      { CommandInvocation.empty with path := invocation.path, raw := line } =
        .ok { invocation with raw := line } := by
    rw [splitArguments_interleaves harguments (fun t ht => (hplain t ht).2) hkeys]
    simp [CommandInvocation.empty, OrderedMap.emplaceAll_of_perm hnamed, hpositional]
  have htext : invokeText platform registry line =
      invokeResolved platform registry node { invocation with raw := line } := by
    obtain ⟨token, path, hsplitPath⟩ := List.exists_cons_of_ne_nil hpath
    have hhead : isHelpToken token = false := hhelp token (by simp [hsplitPath])
    have hcons : invocation.path ++ arguments = token :: (path ++ arguments) := by
      simp [hsplitPath]
    have htokensEq : invokeTokens platform registry (invocation.path ++ arguments) line =
        invokeResolved platform registry node { invocation with raw := line } := by
      rw [invokeTokens, hdescend]
      simp [hpath, hleaf, hsplit]
    rw [invokeText, htokenize, hcons]
    simp only [hhead]
    rw [← hcons, htokensEq]
    rfl
  refine ⟨htokenize, hdescend, hsplit, htext, fun hraw => ?_⟩
  rw [htext, invokeResolved_withRaw platform hraw, invoke, if_neg hpath, hresolve]

/-- A registry with the command `relay` alone. -/
def relayRegistry : CommandRegistry Unit where
  root := .node { object := 0, name := [] } [relayNode]
  created := 2

/-- `relay on` with the named argument `mode`. -/
def relaySlow : CommandInvocation :=
  { relayOn with named := OrderedMap.empty.emplace (text "mode") (.string (text "slow")) }

theorem rendersLine_relaySlow :
    RendersLine (relaySlow.path ++ [dashes ++ text "mode" ++ equalsSign :: text "slow",
      text "on"]) (text "relay --mode=slow 'on'") := by
  have hrelay : Encodes 0 (text "relay") (text "relay") := .of_ordinary (by decide)
  have hmode : Encodes 0 (text "--mode=slow") (text "--mode=slow") := .of_ordinary (by decide)
  have hon : Encodes 0 (text "'on'") (text "on") :=
    .openQuote (Or.inl rfl) <| .quoted (Or.inl rfl) (by decide) (by decide) <|
      .quoted (Or.inl rfl) (by decide) (by decide) <| .closeQuote (Or.inl rfl) .done
  have hgap : Blank [space] := by decide
  refine ⟨[], _, by decide, ?_, rfl⟩
  exact .cons hrelay hgap (by decide) (.cons hmode hgap (by decide) (.last hon (by decide)))

theorem invokeText_rendersLine_relaySlow :
    invokeText .withoutFloatingText relayRegistry (text "relay --mode=slow 'on'") =
      invoke .withoutFloatingText relayRegistry relaySlow := by
  have hraw : IgnoresRaw relayRegistry relayNode := by
    refine ⟨?_, fun middleware hmem => by cases hmem⟩
    rintro stage (hmem | hcallback | hmem) bindings invocation raw
    · cases hmem
    · obtain rfl := Option.some.inj hcallback
      rfl
    · cases hmem
  exact (@invokeText_rendersLine _ .withoutFloatingText relayRegistry relayNode relaySlow
    [text "on"] [(text "mode", text "slow")] _ _ (by decide) (by decide)
    (fun token htoken => by obtain rfl := Option.some.inj htoken; decide) rfl rfl rfl
    (by decide) (.refl _) (by decide)
    (.assigned _ _ (.positional _ .nil)) rendersLine_relaySlow).2.2.2.2 hraw

end CommandRegistry
end EspressioCommand
