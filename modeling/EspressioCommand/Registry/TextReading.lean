import EspressioCommand.Registry.TextInvocation

/-!
# What a text line means

A line is either answered on the spot, or it is an invocation: the longest beginning of its
tokens that resolves is the path, and the tokens behind it are the arguments.

`Splits` says how arguments are read, `LongestPrefix` what the path is and `Reads` what
the whole line is taken for.  `invokeText_reads` says that every line has exactly one
reading, and that `Invoke` does what the reading says: it answers without touching
anything, or makes the structured call.
-/

namespace EspressioCommand
namespace CommandRegistry

open Library TextCommandParser

variable {σ : Type}

/-! ### Arguments -/

/-- `Splits arguments positional named`: read from the left, each token is a positional
argument, or a named one alone or with the token behind it. -/
inductive Splits :
    CommandPath → List CommandString → List (CommandString × CommandString) → Prop
  | nil : Splits [] [] []
  | positional {token : CommandString} {rest : CommandPath} {positional : List CommandString}
      {named : List (CommandString × CommandString)} (hplain : ¬ dashes <+: token)
      (hrest : Splits rest positional named) :
      Splits (token :: rest) (token :: positional) named
  /-- One token `--key=value`, cut at the first equals sign. -/
  | assigned {key : CommandString} {rest : CommandPath} {positional : List CommandString}
      {named : List (CommandString × CommandString)} (hkey : equalsSign ∉ key)
      (value : CommandString) (hrest : Splits rest positional named) :
      Splits ((dashes ++ key ++ equalsSign :: value) :: rest) positional ((key, value) :: named)
  /-- Two tokens `--key` and `value`, whatever the value looks like. -/
  | separate {key : CommandString} {rest : CommandPath} {positional : List CommandString}
      {named : List (CommandString × CommandString)} (hkey : equalsSign ∉ key)
      (value : CommandString) (hrest : Splits rest positional named) :
      Splits ((dashes ++ key) :: value :: rest) positional ((key, value) :: named)

/-- The last of the arguments is a key that waits for its value. -/
def Dangles (arguments : CommandPath) (key : CommandString) : Prop :=
  ∃ front positional named, Splits front positional named ∧ equalsSign ∉ key ∧
    arguments = front ++ [dashes ++ key]

/-- A token behind dashes has an equals sign or has none. -/
theorem exists_key_of_prefix {token : CommandString} (h : dashes <+: token) :
    (∃ key value, equalsSign ∉ key ∧ token = dashes ++ key ++ equalsSign :: value) ∨
      ∃ key, equalsSign ∉ key ∧ token = dashes ++ key := by
  obtain ⟨body, rfl⟩ := h
  by_cases hequals : equalsSign ∈ body
  · obtain ⟨key, value, rfl, hkey⟩ := List.eq_append_cons_of_mem hequals
    exact Or.inl ⟨key, value, hkey, by rw [List.append_assoc]⟩
  · exact Or.inr ⟨body, hequals, rfl⟩

/-- The arguments can be read, or they stop behind a key. -/
theorem splits_or_dangles : ∀ arguments : CommandPath,
    (∃ positional named, Splits arguments positional named) ∨ ∃ key, Dangles arguments key
  | [] => Or.inl ⟨[], [], .nil⟩
  | token :: rest => by
      by_cases hdash : dashes <+: token
      · rcases exists_key_of_prefix hdash with ⟨key, value, hkey, rfl⟩ | ⟨key, hkey, rfl⟩
        · rcases splits_or_dangles rest with ⟨positional, named, h⟩ |
            ⟨last, front, positional, named, h, hlast, rfl⟩
          · exact Or.inl ⟨_, _, .assigned hkey value h⟩
          · exact Or.inr ⟨last, _, _, _, .assigned hkey value h, hlast, rfl⟩
        · cases rest with
          | nil => exact Or.inr ⟨key, [], [], [], .nil, hkey, rfl⟩
          | cons value rest =>
              rcases splits_or_dangles rest with ⟨positional, named, h⟩ |
                ⟨last, front, positional, named, h, hlast, rfl⟩
              · exact Or.inl ⟨_, _, .separate hkey value h⟩
              · exact Or.inr ⟨last, _, _, _, .separate hkey value h, hlast, rfl⟩
      · rcases splits_or_dangles rest with ⟨positional, named, h⟩ |
          ⟨last, front, positional, named, h, hlast, rfl⟩
        · exact Or.inl ⟨_, _, .positional hdash h⟩
        · exact Or.inr ⟨last, _, _, _, .positional hdash h, hlast, rfl⟩

theorem isPrefixOf_eq_false {token : CommandString} (h : ¬ dashes <+: token) :
    dashes.isPrefixOf token = false := by
  rw [← Bool.not_eq_true, List.isPrefixOf_iff_prefix]
  exact h

/-- `substr(2, equals - 2)` is the key and `substr(equals + 1)` the value. -/
theorem splitArguments_cons_assigned {key : CommandString} (hkey : equalsSign ∉ key)
    (value : CommandString) (rest : CommandPath) (invocation : CommandInvocation) :
    splitArguments ((dashes ++ key ++ equalsSign :: value) :: rest) invocation =
      splitArguments rest
        { invocation with named := invocation.named.emplace key (.string value) } := by
  have hdash : dashes.isPrefixOf (dashes ++ key ++ equalsSign :: value) = true := by simp
  have hequals := idxOf?_append_cons (equalsSign_not_mem hkey) value
  have hlength : (dashes ++ key).length = key.length + 2 := by
    rw [List.length_append, Nat.add_comm]
    rfl
  rw [splitArguments_assigned hdash hequals, hlength]
  have htake : ((dashes ++ key ++ equalsSign :: value).drop 2).take (key.length + 2 - 2) = key := by
    show (key ++ equalsSign :: value).take key.length = key
    exact List.take_left
  have hdrop : (dashes ++ key ++ equalsSign :: value).drop (key.length + 2 + 1) = value := by
    show (key ++ equalsSign :: value).drop (key.length + 1) = value
    rw [← List.drop_drop, List.drop_left]
    rfl
  rw [htake, hdrop]

theorem splitArguments_cons_separate {key : CommandString} (hkey : equalsSign ∉ key)
    (value : CommandString) (rest : CommandPath) (invocation : CommandInvocation) :
    splitArguments ((dashes ++ key) :: value :: rest) invocation =
      splitArguments rest
        { invocation with named := invocation.named.emplace key (.string value) } := by
  have hdash : dashes.isPrefixOf (dashes ++ key) = true := by simp
  exact splitArguments_separate hdash (List.idxOf?_eq_none_iff.mpr (equalsSign_not_mem hkey))
    value rest invocation

/-- What the splitting loop does on arguments that can be read, with more of them behind. -/
theorem Splits.splitArguments_append {arguments : CommandPath} {positional : List CommandString}
    {named : List (CommandString × CommandString)} (h : Splits arguments positional named)
    (rest : CommandPath) (invocation : CommandInvocation) :
    splitArguments (arguments ++ rest) invocation =
      splitArguments rest
        { invocation with
          positional := invocation.positional ++ positional.map CommandValue.string
          named := invocation.named.emplaceAll (stringEntries named) } := by
  induction h generalizing invocation with
  | nil => simp [stringEntries]
  | positional hplain _ ih =>
      rw [List.cons_append, splitArguments_positional (isPrefixOf_eq_false hplain), ih]
      simp
  | assigned hkey value _ ih =>
      rw [List.cons_append, splitArguments_cons_assigned hkey, ih]
      rfl
  | separate hkey value _ ih =>
      rw [List.cons_append, List.cons_append, splitArguments_cons_separate hkey, ih]
      rfl

theorem Splits.splitArguments_eq {arguments : CommandPath} {positional : List CommandString}
    {named : List (CommandString × CommandString)} (h : Splits arguments positional named)
    (invocation : CommandInvocation) :
    splitArguments arguments invocation =
      .ok { invocation with
        positional := invocation.positional ++ positional.map CommandValue.string
        named := invocation.named.emplaceAll (stringEntries named) } := by
  have hall := h.splitArguments_append [] invocation
  rw [List.append_nil] at hall
  exact hall

theorem Dangles.splitArguments_eq {arguments : CommandPath} {key : CommandString}
    (h : Dangles arguments key) (invocation : CommandInvocation) :
    splitArguments arguments invocation = .error (.error (text "Missing value for --" ++ key)) := by
  obtain ⟨front, positional, named, hfront, hkey, rfl⟩ := h
  rw [hfront.splitArguments_append]
  have hdash : (text "--").isPrefixOf (dashes ++ key) = true := by
    show dashes.isPrefixOf (dashes ++ key) = true
    simp
  have hequals : (dashes ++ key).idxOf? equalsSign = none :=
    List.idxOf?_eq_none_iff.mpr (equalsSign_not_mem hkey)
  rw [splitArguments]
  simp only [hdash, hequals, if_true]
  rfl

/-! ### The path -/

/-- `path` is the longest beginning of the tokens that resolves, and `rest` is behind it. -/
structure LongestPrefix (registry : CommandRegistry σ) (tokens path rest : CommandPath)
    (node : CommandNode σ) : Prop where
  split : tokens = path ++ rest
  resolve : registry.resolve path = some node
  longest : ∀ longer, longer <+: tokens → path.length < longer.length →
    registry.resolve longer = none

/-- The descent stops where no child answers to the next token. -/
theorem descend_spec (root : CommandNode σ) (tokens : CommandPath) :
    tokens = (descend root tokens).2.1 ++ (descend root tokens).2.2 ∧
      root.walk NodeData.matchesValue (descend root tokens).2.1 = some (descend root tokens).1 ∧
      ∀ token rest, (descend root tokens).2.2 = token :: rest →
        (descend root tokens).1.findChild token = none := by
  induction tokens generalizing root with
  | nil =>
      refine ⟨rfl, rfl, ?_⟩
      intro token rest h
      cases h
  | cons token tokens ih =>
      cases hchild : root.findChild token with
      | none =>
          rw [descend, hchild]
          refine ⟨rfl, rfl, ?_⟩
          intro next rest h
          obtain ⟨rfl, rfl⟩ := List.cons.inj h
          exact hchild
      | some child =>
          obtain ⟨hsplit, hwalk, hstop⟩ := ih child
          rw [descend, hchild]
          refine ⟨congrArg (token :: ·) hsplit, ?_, hstop⟩
          show root.walk NodeData.matchesValue (token :: (descend child tokens).2.1) = _
          rw [RoseTree.walk_cons]
          have hfirst : root.firstAnswer NodeData.matchesValue token = some child := hchild
          rw [hfirst]
          exact hwalk

/-- A beginning of the tokens that is longer than the path leads over the next token. -/
theorem exists_of_longer {path rest longer : CommandPath} (hlonger : longer <+: path ++ rest)
    (hlength : path.length < longer.length) :
    ∃ token front back, rest = token :: front ++ back ∧ longer = path ++ token :: front := by
  obtain ⟨back, hback⟩ := hlonger
  have hpath : path <+: longer := by
    refine List.prefix_of_prefix_length_le (List.prefix_append path rest) ?_ hlength.le
    exact ⟨back, hback⟩
  obtain ⟨front, rfl⟩ := hpath
  rw [List.append_assoc, List.append_cancel_left_eq] at hback
  cases front with
  | nil => simp at hlength
  | cons token front => exact ⟨token, front, back, hback.symm, rfl⟩

theorem longestPrefix_descend (registry : CommandRegistry σ) (tokens : CommandPath) :
    LongestPrefix registry tokens (descend registry.root tokens).2.1
      (descend registry.root tokens).2.2 (descend registry.root tokens).1 := by
  obtain ⟨hsplit, hwalk, hstop⟩ := descend_spec registry.root tokens
  refine ⟨hsplit, hwalk, ?_⟩
  intro longer hlonger hlength
  rw [hsplit] at hlonger
  obtain ⟨token, front, back, hrest, rfl⟩ := exists_of_longer hlonger hlength
  have hnone : (descend registry.root tokens).1.firstAnswer NodeData.matchesValue token = none :=
    hstop token (front ++ back) hrest
  rw [resolve, RoseTree.walk_append, hwalk, Option.bind_some, RoseTree.walk_cons, hnone]
  rfl

/-- There is one longest beginning, so the descent has found it. -/
theorem LongestPrefix.descend_eq {registry : CommandRegistry σ} {tokens path rest : CommandPath}
    {node : CommandNode σ} (h : LongestPrefix registry tokens path rest node) :
    descend registry.root tokens = (node, path, rest) := by
  have hfound := longestPrefix_descend registry tokens
  -- neither of the two is longer than the other
  have hlength : (descend registry.root tokens).2.1.length = path.length := by
    rcases lt_trichotomy (descend registry.root tokens).2.1.length path.length with
      hlt | heq | hgt
    · have hnone := hfound.longest path ⟨rest, h.split.symm⟩ hlt
      rw [h.resolve] at hnone
      cases hnone
    · exact heq
    · have hnone := h.longest _ ⟨_, hfound.split.symm⟩ hgt
      rw [hfound.resolve] at hnone
      cases hnone
  obtain ⟨hpath, hrest⟩ := List.append_inj (hfound.split.symm.trans h.split) hlength
  have hnode := hfound.resolve
  rw [hpath, h.resolve] at hnode
  obtain hnode := Option.some.inj hnode
  exact Prod.ext hnode.symm (Prod.ext hpath hrest)

/-! ### The line -/

/-- What a line is taken for. -/
inductive Reading
  | answer (result : CommandResult)
  | call (invocation : CommandInvocation)

/-- An answer touches nothing; a call is the structured one. -/
def Reading.perform (platform : Platform) (registry : CommandRegistry σ) :
    Reading → Eff σ CommandResult
  | answer result => pure result
  | call invocation => registry.invoke platform invocation

/-- The tokens of the line, the first of which is not the built-in help. -/
structure HasWords (line : CommandString) (tokens : CommandPath) : Prop where
  tokenize : tokenize line = ⟨tokens, []⟩
  ne_nil : tokens ≠ []
  notHelp : ∀ token, tokens.head? = some token → isHelpToken token = false

/-- The command is one of several below a path, and the line does not say which. -/
def IsIncomplete (node : CommandNode σ) (rest : CommandPath) : Prop :=
  node.children ≠ [] ∧ node.label.callback = none ∧ rest = []

/-- **What a text line means.** -/
inductive Reads (registry : CommandRegistry σ) (line : CommandString) : Reading → Prop
  | malformed (herror : (tokenize line).error ≠ []) :
      Reads registry line (.answer (.error (tokenize line).error))
  | blank (htokens : tokenize line = ⟨[], []⟩) :
      Reads registry line (.answer (.error (text "No command supplied")))
  | help {token : CommandString} {path : CommandPath}
      (htokens : tokenize line = ⟨token :: path, []⟩) (hhelp : isHelpToken token = true) :
      Reads registry line (.answer (.ok (registry.help path)))
  | unknown {token : CommandString} {rest : CommandPath} (hwords : HasWords line (token :: rest))
      (hunknown : registry.resolve [token] = none) :
      Reads registry line (.answer (.error
        (buildCommandMessage (text "Unknown command '") token (text "'.\n") ++
          suggest registry.root token)))
  | incomplete {tokens path rest : CommandPath} {node : CommandNode σ}
      (hwords : HasWords line tokens) (hfront : LongestPrefix registry tokens path rest node)
      (hpath : path ≠ []) (hincomplete : IsIncomplete node rest) :
      Reads registry line (.answer (.error (text "Incomplete command.\n" ++ registry.help path)))
  | missingValue {tokens path rest : CommandPath} {node : CommandNode σ} {key : CommandString}
      (hwords : HasWords line tokens) (hfront : LongestPrefix registry tokens path rest node)
      (hpath : path ≠ []) (hdangles : Dangles rest key) :
      Reads registry line (.answer (.error (text "Missing value for --" ++ key)))
  | command {tokens path rest : CommandPath} {node : CommandNode σ}
      {positional : List CommandString} {named : List (CommandString × CommandString)}
      (hwords : HasWords line tokens) (hfront : LongestPrefix registry tokens path rest node)
      (hpath : path ≠ []) (hcomplete : ¬ IsIncomplete node rest)
      (hsplits : Splits rest positional named) :
      Reads registry line (.call ⟨path, positional.map CommandValue.string,
        OrderedMap.empty.emplaceAll (stringEntries named), line⟩)

/-- The reading, computed. -/
def read (registry : CommandRegistry σ) (line : CommandString) : Reading :=
  if (tokenize line).error ≠ [] then .answer (.error (tokenize line).error)
  else
    match (tokenize line).tokens with
    | [] => .answer (.error (text "No command supplied"))
    | token :: rest =>
        if isHelpToken token then .answer (.ok (registry.help rest))
        else
          let found := descend registry.root (token :: rest)
          if found.2.1 = [] then
            .answer (.error (buildCommandMessage (text "Unknown command '") token (text "'.\n") ++
              suggest registry.root token))
          else if !found.1.children.isEmpty && found.1.label.callback.isNone &&
              found.2.2.isEmpty then
            .answer (.error (text "Incomplete command.\n" ++ registry.help found.2.1))
          else
            match splitArguments found.2.2
                { CommandInvocation.empty with path := found.2.1, raw := line } with
            | .error result => .answer result
            | .ok invocation => .call invocation

theorem isIncomplete_iff (node : CommandNode σ) (rest : CommandPath) :
    (!node.children.isEmpty && node.label.callback.isNone && rest.isEmpty) = true ↔
      IsIncomplete node rest := by
  simp only [IsIncomplete, Bool.and_eq_true, Bool.not_eq_true', List.isEmpty_eq_false_iff,
    Option.isNone_iff_eq_none, List.isEmpty_iff, and_assoc]

theorem Dangles.not_isIncomplete {rest : CommandPath} {key : CommandString}
    (h : Dangles rest key) (node : CommandNode σ) : ¬ IsIncomplete node rest := by
  rintro ⟨-, -, rfl⟩
  obtain ⟨front, -, -, -, -, hnil⟩ := h
  simp at hnil

/-- Behind the tokenizer and the built-in help, the descent decides. -/
theorem HasWords.read_eq {registry : CommandRegistry σ} {line : CommandString}
    {tokens path rest : CommandPath} {node : CommandNode σ} (hwords : HasWords line tokens)
    (hfront : LongestPrefix registry tokens path rest node) :
    registry.read line =
      if path = [] then
        .answer (.error (buildCommandMessage (text "Unknown command '") (tokens.headD [])
          (text "'.\n") ++ suggest registry.root (tokens.headD [])))
      else if !node.children.isEmpty && node.label.callback.isNone && rest.isEmpty then
        .answer (.error (text "Incomplete command.\n" ++ registry.help path))
      else
        match splitArguments rest { CommandInvocation.empty with path := path, raw := line } with
        | .error result => .answer result
        | .ok invocation => .call invocation := by
  obtain ⟨token, tail, rfl⟩ := List.exists_cons_of_ne_nil hwords.ne_nil
  have hhelp : isHelpToken token = false := hwords.notHelp token rfl
  rw [read, hwords.tokenize]
  simp only [ne_eq, not_true_eq_false, if_false, hhelp, Bool.false_eq_true, hfront.descend_eq,
    List.headD_cons]

/-- Where the first token does not resolve, no beginning of the tokens but the empty one
does. -/
theorem longestPrefix_nil_iff {registry : CommandRegistry σ} {token : CommandString}
    {rest : CommandPath} :
    LongestPrefix registry (token :: rest) [] (token :: rest) registry.root ↔
      registry.resolve [token] = none := by
  constructor
  · intro h
    exact h.longest [token] ⟨rest, rfl⟩ (by simp)
  · intro h
    refine ⟨rfl, rfl, ?_⟩
    intro longer hlonger hlength
    obtain ⟨next, front, back, hrest, rfl⟩ := exists_of_longer hlonger hlength
    obtain ⟨rfl, -⟩ := List.cons.inj hrest
    rw [List.nil_append, ← List.singleton_append, resolve, RoseTree.walk_append]
    have hnone : registry.root.walk NodeData.matchesValue [token] = none := h
    rw [hnone]
    rfl

/-- A line is read in one way only. -/
theorem Reads.read_eq {registry : CommandRegistry σ} {line : CommandString} {reading : Reading}
    (h : Reads registry line reading) : registry.read line = reading := by
  cases h with
  | malformed herror => rw [read, if_pos herror]
  | blank htokens => simp [read, htokens]
  | help htokens hhelp => simp [read, htokens, hhelp]
  | unknown hwords hunknown =>
      rw [hwords.read_eq (longestPrefix_nil_iff.mpr hunknown), if_pos rfl]
      rfl
  | incomplete hwords hfront hpath hincomplete =>
      rw [hwords.read_eq hfront, if_neg hpath, if_pos ((isIncomplete_iff _ _).mpr hincomplete)]
  | @missingValue _ path rest node key hwords hfront hpath hdangles =>
      have hrest : ¬ IsIncomplete node rest := hdangles.not_isIncomplete node
      rw [hwords.read_eq hfront, if_neg hpath, if_neg (mt (isIncomplete_iff _ _).mp hrest),
        hdangles.splitArguments_eq]
  | command hwords hfront hpath hcomplete hsplits =>
      rw [hwords.read_eq hfront, if_neg hpath,
        if_neg (mt (isIncomplete_iff _ _).mp hcomplete), hsplits.splitArguments_eq]
      rfl

/-- Words that do not ask for help are read as a command, or refused as one. -/
theorem HasWords.reads_read {line : CommandString} {tokens : CommandPath}
    (hwords : HasWords line tokens) (registry : CommandRegistry σ) :
    Reads registry line (registry.read line) := by
  have hfront := longestPrefix_descend registry tokens
  rw [hwords.read_eq hfront]
  split_ifs with hpath hincomplete
  · -- the descent took no step
    cases tokens with
    | nil => exact absurd rfl hwords.ne_nil
    | cons token rest =>
        have hunknown : registry.resolve [token] = none :=
          hfront.longest [token] ⟨rest, rfl⟩ (by rw [hpath]; simp)
        exact .unknown hwords hunknown
  · exact .incomplete hwords hfront hpath ((isIncomplete_iff _ _).mp hincomplete)
  · rcases splits_or_dangles (descend registry.root tokens).2.2 with
      ⟨positional, named, hsplits⟩ | ⟨key, hdangles⟩
    · rw [hsplits.splitArguments_eq]
      exact .command hwords hfront hpath (mt (isIncomplete_iff _ _).mpr hincomplete) hsplits
    · rw [hdangles.splitArguments_eq]
      exact .missingValue hwords hfront hpath hdangles

/-- Every line is read in some way. -/
theorem reads_read (registry : CommandRegistry σ) (line : CommandString) :
    Reads registry line (registry.read line) := by
  by_cases herror : (tokenize line).error = []
  · have htokenize : tokenize line = ⟨(tokenize line).tokens, []⟩ := by
      rw [← herror]
    cases htokens : (tokenize line).tokens with
    | nil =>
        rw [htokens] at htokenize
        have hread : registry.read line =
            .answer (.error (text "No command supplied")) := by
          simp [read, htokenize]
        rw [hread]
        exact .blank htokenize
    | cons token rest =>
        rw [htokens] at htokenize
        by_cases hhelp : isHelpToken token = true
        · have hread : registry.read line = .answer (.ok (registry.help rest)) := by
            simp [read, htokenize, hhelp]
          rw [hread]
          exact .help htokenize hhelp
        · have hwords : HasWords line (token :: rest) := by
            refine ⟨htokenize, List.cons_ne_nil _ _, ?_⟩
            intro first hfirst
            obtain rfl := Option.some.inj hfirst
            exact Bool.eq_false_of_not_eq_true hhelp
          exact hwords.reads_read registry
  · have hread : registry.read line = .answer (.error (tokenize line).error) := by
      rw [read, if_pos herror]
    rw [hread]
    exact .malformed herror

/-- **The reading is the only one.** -/
theorem reads_iff {registry : CommandRegistry σ} {line : CommandString} {reading : Reading} :
    Reads registry line reading ↔ registry.read line = reading := by
  constructor
  · exact Reads.read_eq
  · rintro rfl
    exact reads_read registry line

/-- With a path found, `Invoke` looks for what is missing and then calls the command. -/
theorem HasWords.invokeText_eq {registry : CommandRegistry σ} {line : CommandString}
    {tokens path rest : CommandPath} {node : CommandNode σ} (hwords : HasWords line tokens)
    (hfront : LongestPrefix registry tokens path rest node) (hpath : path ≠ [])
    (platform : Platform) :
    registry.invokeText platform line =
      if !node.children.isEmpty && node.label.callback.isNone && rest.isEmpty then
        pure (.error (text "Incomplete command.\n" ++ registry.help path))
      else
        match splitArguments rest { CommandInvocation.empty with path := path, raw := line } with
        | .error result => pure result
        | .ok invocation => invokeResolved platform registry node invocation := by
  obtain ⟨token, tail, rfl⟩ := List.exists_cons_of_ne_nil hwords.ne_nil
  have hhelp : isHelpToken token = false := hwords.notHelp token rfl
  have htokens : registry.invokeText platform line =
      invokeTokens platform registry (token :: tail) line := by
    rw [invokeText, hwords.tokenize]
    simp [hhelp]
  rw [htokens, invokeTokens, hfront.descend_eq]
  exact if_neg hpath

/-- What `Invoke` does with a line is what the reading says. -/
theorem Reads.invokeText_eq {registry : CommandRegistry σ} {line : CommandString}
    {reading : Reading} (h : Reads registry line reading) (platform : Platform) :
    registry.invokeText platform line = reading.perform platform registry := by
  cases h with
  | malformed herror =>
      rw [invokeText]
      simp [herror, Reading.perform]
  | blank htokens => simp [invokeText, htokens, Reading.perform]
  | help htokens hhelp => simp [invokeText, htokens, hhelp, Reading.perform]
  | unknown hwords hunknown =>
      rw [invokeText, hwords.tokenize]
      simp [hwords.notHelp _ rfl, invokeTokens,
        (longestPrefix_nil_iff.mpr hunknown).descend_eq, Reading.perform]
  | incomplete hwords hfront hpath hincomplete =>
      rw [hwords.invokeText_eq hfront hpath, if_pos ((isIncomplete_iff _ _).mpr hincomplete)]
      rfl
  | @missingValue _ path rest node key hwords hfront hpath hdangles =>
      have hrest : ¬ IsIncomplete node rest := hdangles.not_isIncomplete node
      rw [hwords.invokeText_eq hfront hpath, if_neg (mt (isIncomplete_iff _ _).mp hrest),
        hdangles.splitArguments_eq]
      rfl
  | @command _ path rest node positional named hwords hfront hpath hcomplete hsplits =>
      rw [hwords.invokeText_eq hfront hpath, if_neg (mt (isIncomplete_iff _ _).mp hcomplete),
        hsplits.splitArguments_eq, Reading.perform, invoke, if_neg hpath, hfront.resolve]
      rfl

/-- **Every line has one reading**, and `Invoke` performs it: either the line is answered
with nothing touched, or it is the structured call of the command at its longest beginning
that resolves, with the arguments behind it. -/
theorem invokeText_reads (platform : Platform) (registry : CommandRegistry σ)
    (line : CommandString) :
    ∃ reading, Reads registry line reading ∧
      registry.invokeText platform line = reading.perform platform registry ∧
      ∀ other, Reads registry line other → other = reading := by
  have hreads : Reads registry line (registry.read line) := reads_iff.mpr rfl
  refine ⟨registry.read line, hreads, hreads.invokeText_eq platform, ?_⟩
  intro other hother
  exact (reads_iff.mp hother).symm

end CommandRegistry
end EspressioCommand
