import EspressioCommand.Registry.Help

/-!
# What `Complete` takes for a finished token

`Complete` decides whether the last token is finished by the raw last character, the
tokenizer by the state of its scan.  On a line without an error the two differ in one case
(`space_at_end`): the last character is white space behind a backslash, which the tokenizer
reads into the token.  Then `Complete` lists what is below the token instead of what begins
with it.
-/

namespace EspressioCommand

open Library

namespace TextCommandParser

/-! ### The last character -/

/-- The last character is white space that the scanner takes for a separator. -/
def EndsAtSeparator (input : CommandString) : Prop :=
  ∃ front c, input = front ++ [c] ∧ isSpace c = true ∧
    (Scanner.initial.scan front).escape = false ∧ (Scanner.initial.scan front).quote = 0

/-- The last character is white space behind a backslash, outside quotes. -/
def EndsEscaped (input : CommandString) : Prop :=
  ∃ front c, input = front ++ [c] ∧ isSpace c = true ∧
    (Scanner.initial.scan front).escape = true ∧ (Scanner.initial.scan front).quote = 0

/-- The open quote is one of the two quote characters. -/
theorem Scanner.quote_step {s : Scanner}
    (h : s.quote = 0 ∨ s.quote = singleQuote ∨ s.quote = doubleQuote) (c : UInt8) :
    (s.step c).quote = 0 ∨ (s.step c).quote = singleQuote ∨ (s.step c).quote = doubleQuote := by
  unfold Scanner.step
  split_ifs with hescape hbackslash hquote hclose hopen
  · exact h
  · exact h
  · exact Or.inl rfl
  · exact h
  · exact Or.inr hopen
  · exact h
  · exact h
  · exact h

theorem Scanner.quote_scan {s : Scanner}
    (h : s.quote = 0 ∨ s.quote = singleQuote ∨ s.quote = doubleQuote) (input : CommandString) :
    (s.scan input).quote = 0 ∨ (s.scan input).quote = singleQuote ∨
      (s.scan input).quote = doubleQuote := by
  induction input generalizing s with
  | nil => exact h
  | cons c input ih => exact ih (s.quote_step h c)

/-- A line without an error closes its quotes. -/
theorem error_eq_nil_iff (input : CommandString) :
    (tokenize input).error = [] ↔ (Scanner.initial.scan input).quote = 0 := by
  rw [tokenize, Scanner.finish]
  by_cases hquote : (Scanner.initial.scan input).quote = 0
  · simp only [hquote, ne_eq, not_true_eq_false, if_false]
    split_ifs <;> simp
  · rw [if_pos hquote]
    exact iff_of_false (show text "Unterminated quoted string" ≠ [] by decide) hquote

/-- **White space at the end** of a line without an error is a separator or is escaped. -/
theorem space_at_end {input : CommandString} (herror : (tokenize input).error = [])
    (hspace : input.getLast?.any isSpace = true) : EndsAtSeparator input ∨ EndsEscaped input := by
  rw [error_eq_nil_iff] at herror
  obtain ⟨c, hlast, hc⟩ := Option.any_eq_true _ _ |>.mp hspace
  obtain ⟨front, rfl⟩ := List.getLast?_eq_some_iff.mp hlast
  have hquotes := Scanner.initial.quote_scan (Or.inl rfl) front
  rw [Scanner.scan_append, Scanner.scan_cons, Scanner.scan_nil] at herror
  cases hescape : (Scanner.initial.scan front).escape with
  | true =>
      rw [Scanner.step, if_pos hescape] at herror
      exact Or.inr ⟨front, c, rfl, hc, hescape, herror⟩
  | false =>
      by_cases hquote : (Scanner.initial.scan front).quote = 0
      · exact Or.inl ⟨front, c, rfl, hc, hescape, hquote⟩
      · -- white space closes no quote, so the quote would still be open
        have hclose : c ≠ (Scanner.initial.scan front).quote := by
          obtain h | h | h := hquotes
          · exact absurd h hquote
          · rw [h]
            exact ne_of_isSpace hc rfl
          · rw [h]
            exact ne_of_isSpace hc rfl
        rw [Scanner.step, if_neg (by simp [hescape]), if_neg (ne_of_isSpace hc rfl),
          if_pos hquote, if_neg hclose] at herror
        exact absurd herror hquote

/-- A separator and an escaped character are told apart by the scan before them. -/
theorem EndsAtSeparator.not_escaped {input : CommandString} (h : EndsAtSeparator input) :
    ¬ EndsEscaped input := by
  obtain ⟨front, c, rfl, -, hescape, -⟩ := h
  intro hescaped
  obtain ⟨front', c', heq, -, hescape', -⟩ := hescaped
  obtain ⟨rfl, -⟩ := List.append_inj' heq rfl
  rw [hescape] at hescape'
  cases hescape'

theorem EndsAtSeparator.space {input : CommandString} (h : EndsAtSeparator input) :
    input.getLast?.any isSpace = true := by
  obtain ⟨front, c, rfl, hc, -⟩ := h
  simpa using hc

/-- An escaped character is part of a token, and leaves no error. -/
theorem EndsEscaped.spec {input : CommandString} (h : EndsEscaped input) :
    input.getLast?.any isSpace = true ∧ (tokenize input).error = [] ∧
      (tokenize input).tokens ≠ [] := by
  obtain ⟨front, c, rfl, hc, hescape, hquote⟩ := h
  have hscan : Scanner.initial.scan (front ++ [c]) =
      { Scanner.initial.scan front with
        current := (Scanner.initial.scan front).current ++ [c], escape := false } := by
    rw [Scanner.scan_append, Scanner.scan_cons, Scanner.scan_nil, Scanner.step, if_pos hescape]
  refine ⟨by simpa using hc, ?_, ?_⟩
  · rw [error_eq_nil_iff, hscan]
    exact hquote
  · rw [tokenize, hscan, Scanner.finish]
    simp [hquote]

end TextCommandParser

namespace CommandRegistry

open TextCommandParser

variable {σ : Type}

/-! ### The two readings -/

/-- The names of the visible children at the path that start with the word, in registration
order; none where the path leads nowhere. -/
def listing (registry : CommandRegistry σ) (path : CommandPath) (word : CommandString) :
    CommandPath :=
  ((registry.resolve path).map fun node =>
    (node.children.filter fun child =>
      !child.label.hidden && word.isPrefixOf child.label.name).map fun child =>
        child.label.name).getD []

/-- `Complete` lists what the tokens ask for: everything below them when the last one is
finished, and what it begins otherwise. -/
structure CompletesAsTokenized (registry : CommandRegistry σ) (input : CommandString) : Prop where
  finished : (tokenize input).error = [] →
    (tokenize input).tokens = [] ∨ EndsAtSeparator input →
    registry.complete input = registry.listing (tokenize input).tokens []
  unfinished : (tokenize input).error = [] →
    (tokenize input).tokens ≠ [] → ¬ EndsAtSeparator input →
    registry.complete input =
      registry.listing (tokenize input).tokens.dropLast ((tokenize input).tokens.getLastD [])

/-- Where the last character is white space, or there is no token. -/
theorem complete_of_finished (registry : CommandRegistry σ) {input : CommandString}
    (herror : (tokenize input).error = [])
    (h : (tokenize input).tokens = [] ∨ input.getLast?.any isSpace = true) :
    registry.complete input = registry.listing (tokenize input).tokens [] := by
  have hword : completionWord input (tokenize input).tokens = ((tokenize input).tokens, []) := by
    rw [completionWord, if_neg]
    obtain h | h := h <;> simp [h]
  unfold complete listing
  simp only [herror, ne_eq, not_true_eq_false, if_false, hword]
  cases registry.resolve (tokenize input).tokens <;> rfl

/-- Where there is a token up to the last character. -/
theorem complete_of_unfinished (registry : CommandRegistry σ) {input : CommandString}
    (herror : (tokenize input).error = []) (htokens : (tokenize input).tokens ≠ [])
    (hspace : input.getLast?.any isSpace = false) :
    registry.complete input =
      registry.listing (tokenize input).tokens.dropLast
        ((tokenize input).tokens.getLastD []) := by
  have hword : completionWord input (tokenize input).tokens =
      ((tokenize input).tokens.dropLast, (tokenize input).tokens.getLastD []) := by
    rw [completionWord, if_pos]
    simp [hspace, htokens]
  unfold complete listing
  simp only [herror, ne_eq, not_true_eq_false, if_false, hword]
  cases registry.resolve (tokenize input).tokens.dropLast <;> rfl

/-- Of one registry: only an escaped character at the end can make a difference. -/
theorem completesAsTokenized_iff (registry : CommandRegistry σ) (input : CommandString) :
    registry.CompletesAsTokenized input ↔
      (EndsEscaped input →
        registry.listing (tokenize input).tokens [] =
          registry.listing (tokenize input).tokens.dropLast
            ((tokenize input).tokens.getLastD [])) := by
  constructor
  · intro h hescaped
    obtain ⟨hspace, herror, htokens⟩ := hescaped.spec
    rw [← complete_of_finished registry herror (Or.inr hspace)]
    exact h.unfinished herror htokens fun hseparator => hseparator.not_escaped hescaped
  · intro h
    refine ⟨?_, ?_⟩
    · intro herror hfinished
      exact complete_of_finished registry herror
        (hfinished.imp_right EndsAtSeparator.space)
    · intro herror htokens hseparator
      cases hspace : input.getLast?.any isSpace with
      | false => exact complete_of_unfinished registry herror htokens hspace
      | true =>
          rw [complete_of_finished registry herror (Or.inr hspace)]
          exact h ((space_at_end herror hspace).resolve_left hseparator)

/-! ### A registry for every line -/

/-- A command below which the tokens stand one below the other. -/
def lineage (name : CommandString) : CommandPath → CommandNode σ
  | [] => .node { object := 0, name := name } []
  | token :: rest => .node { object := 0, name := name } [lineage token rest]

@[simp] theorem name_lineage (name : CommandString) (tokens : CommandPath) :
    (lineage name tokens : CommandNode σ).label.name = name := by
  cases tokens <;> rfl

/-- The tokens lead down the line. -/
theorem walk_lineage (name : CommandString) (front back : CommandPath) :
    (lineage name (front ++ back) : CommandNode σ).walk NodeData.matchesValue front =
      some (lineage (front.getLastD name) back) := by
  induction front generalizing name with
  | nil => rfl
  | cons token front ih =>
      have hmatches : NodeData.matchesValue (lineage token (front ++ back) : CommandNode σ).label
          token = true := by
        rw [NodeData.matchesValue, name_lineage, beq_self_eq_true, Bool.true_or]
      have hfirst : (lineage name (token :: (front ++ back)) : CommandNode σ).firstAnswer
          NodeData.matchesValue token = some (lineage token (front ++ back)) := by
        simp [RoseTree.firstAnswer, lineage, hmatches]
      rw [List.cons_append, RoseTree.walk_cons, hfirst, Option.bind_some, ih token,
        List.getLastD_cons]

/-- The registry of one line of commands. -/
def lineageRegistry (σ : Type) (tokens : CommandPath) : CommandRegistry σ where
  root := lineage [] tokens
  created := 1

/-- In the registry of its own tokens a line has different completions in the two readings. -/
theorem listing_lineage_ne {tokens : CommandPath} (htokens : tokens ≠ []) :
    (lineageRegistry σ tokens).listing tokens [] ≠
      (lineageRegistry σ tokens).listing tokens.dropLast (tokens.getLastD []) := by
  obtain ⟨front, token, rfl⟩ : ∃ front token, tokens = front ++ [token] :=
    ⟨tokens.dropLast, tokens.getLast htokens, (List.dropLast_append_getLast htokens).symm⟩
  have hbelow : (lineageRegistry σ (front ++ [token])).resolve (front ++ [token]) =
      some (lineage token []) := by
    have hwalk := walk_lineage (σ := σ) [] (front ++ [token]) []
    rw [List.append_nil] at hwalk
    simpa [resolve, lineageRegistry] using hwalk
  have hat : (lineageRegistry σ (front ++ [token])).resolve front =
      some (lineage (front.getLastD []) [token]) :=
    walk_lineage [] front [token]
  have hlast : (front ++ [token]).getLastD [] = token := by simp
  rw [listing, listing, List.dropLast_concat, hlast, hbelow, hat]
  simp [lineage]

/-- **Completion and the tokenizer.**  In each registry `Complete` reads a line as the
tokenizer does, unless the line ends in white space behind a backslash and the two readings
list different names; and for each such line there is a registry in which they do. -/
theorem complete_reads_tokens_iff (input : CommandString) :
    (∀ registry : CommandRegistry σ, registry.CompletesAsTokenized input ↔
        (EndsEscaped input →
          registry.listing (tokenize input).tokens [] =
            registry.listing (tokenize input).tokens.dropLast
              ((tokenize input).tokens.getLastD []))) ∧
      ((∀ registry : CommandRegistry σ, registry.CompletesAsTokenized input) ↔
        ¬ EndsEscaped input) := by
  refine ⟨fun registry => completesAsTokenized_iff registry input, ?_⟩
  constructor
  · intro h hescaped
    obtain ⟨-, -, htokens⟩ := hescaped.spec
    have hsame := (completesAsTokenized_iff _ input).mp
      (h (lineageRegistry σ (tokenize input).tokens)) hescaped
    exact listing_lineage_ne htokens hsame
  · intro h registry
    exact (completesAsTokenized_iff registry input).mpr fun hescaped => absurd hescaped h

/-- The command `foo bar` is not offered behind `foo` and an escaped space. -/
theorem not_completesAsTokenized_fooBar :
    ¬ (lineageRegistry Unit [text "foo bar"]).CompletesAsTokenized (text "foo\\ ") := by
  intro h
  have hescaped : EndsEscaped (text "foo\\ ") :=
    ⟨text "foo\\", space, by decide, by decide, by decide, by decide⟩
  have hlisting := (completesAsTokenized_iff _ _).mp h hescaped
  exact absurd hlisting (by decide)

end CommandRegistry

end EspressioCommand
