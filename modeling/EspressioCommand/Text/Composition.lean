import EspressioCommand.Text.Tokenizer

/-!
# Composing command lines

Two ways to build a line from parts, and what `Tokenize` makes of it.

* Quoting: every token between quotation marks, with the mark and the backslash
  escaped inside.  `tokenize_joinsQuoted_iff` says that the line gives its tokens back
  exactly when none of them is empty: `Tokenize` recognises a token by its characters
  and drops one that has none, also when it was written as a pair of marks.
* Juxtaposition: a line, a white-space character and another line.
  `tokenize_append_of_isSpace` says that the tokens are those of the two lines, unless
  the first ends in a quote or in a backslash.
-/

namespace EspressioCommand
namespace TextCommandParser

/-! ### Quoting -/

/-- The two kinds of quotes. -/
inductive QuoteStyle
  | single
  | double
deriving DecidableEq, Repr

/-- The quotation mark. -/
def QuoteStyle.mark : QuoteStyle → UInt8
  | single => singleQuote
  | double => doubleQuote

theorem QuoteStyle.mark_eq (style : QuoteStyle) :
    style.mark = singleQuote ∨ style.mark = doubleQuote := by
  cases style with
  | single => exact Or.inl rfl
  | double => exact Or.inr rfl

/-- A character as it is written between the marks. -/
def escapeCharacter (mark character : UInt8) : CommandString :=
  if character = mark ∨ character = backslash then [backslash, character] else [character]

/-- A token between quotation marks. -/
def QuoteStyle.quote (style : QuoteStyle) (token : CommandString) : CommandString :=
  style.mark :: (token.flatMap (escapeCharacter style.mark) ++ [style.mark])

/-- Quoted tokens, each in a style of its own, with non-empty white space between them. -/
inductive JoinsQuoted : CommandPath → CommandString → Prop
  | nil : JoinsQuoted [] []
  | last (style : QuoteStyle) (token : CommandString) :
      JoinsQuoted [token] (style.quote token)
  | cons (style : QuoteStyle) (token : CommandString) {gap line next : CommandString}
      {tokens : CommandPath} (hgap : Blank gap) (hsep : gap ≠ [])
      (hrest : JoinsQuoted (next :: tokens) line) :
      JoinsQuoted (token :: next :: tokens) (style.quote token ++ gap ++ line)

/-- From inside the quotes, the escaped characters and the closing mark spell the token. -/
theorem encodes_escapeCharacters (style : QuoteStyle) (token : CommandString) :
    Encodes style.mark (token.flatMap (escapeCharacter style.mark) ++ [style.mark]) token := by
  induction token with
  | nil => exact .closeQuote style.mark_eq .done
  | cons c token ih =>
      rw [List.flatMap_cons, List.append_assoc]
      by_cases hspecial : c = style.mark ∨ c = backslash
      · rw [escapeCharacter, if_pos hspecial]
        exact .escaped ih
      · rw [escapeCharacter, if_neg hspecial]
        push Not at hspecial
        exact .quoted style.mark_eq hspecial.1 hspecial.2 ih

theorem encodes_quote (style : QuoteStyle) (token : CommandString) :
    Encodes 0 (style.quote token) token :=
  .openQuote style.mark_eq (encodes_escapeCharacters style token)

/-- Joined quoted tokens are a line that spells these tokens. -/
theorem JoinsQuoted.rendersTokens {tokens : CommandPath} {line : CommandString}
    (h : JoinsQuoted tokens line) (hne : tokens ≠ []) : RendersTokens tokens line := by
  induction h with
  | nil => exact absurd rfl hne
  | last style token =>
      have hlast := RendersTokens.last (encodes_quote style token)
        (show Blank [] by intro c hc; cases hc)
      rwa [List.append_nil] at hlast
  | cons style token hgap hsep _ ih =>
      exact .cons (encodes_quote style token) hgap hsep (ih (List.cons_ne_nil _ _))

/-- What joined quoted tokens tokenize to. -/
theorem tokenize_joinsQuoted {tokens : CommandPath} {line : CommandString}
    (h : JoinsQuoted tokens line) : tokenize line = ⟨tokens.filter (· ≠ []), []⟩ := by
  by_cases htokens : tokens = []
  · subst htokens
    cases h
    rfl
  · refine tokenize_rendersLine_eq_filter ⟨[], line, ?_, h.rendersTokens htokens, rfl⟩
    intro c hc
    cases hc

/-- **When quoting gives the tokens back.**  Quoted tokens, joined by white space,
tokenize without error to exactly these tokens if and only if none of them is empty. -/
theorem tokenize_joinsQuoted_iff {tokens : CommandPath} {line : CommandString}
    (h : JoinsQuoted tokens line) :
    tokenize line = ⟨tokens, []⟩ ↔ ∀ token ∈ tokens, token ≠ [] := by
  rw [tokenize_joinsQuoted h, Tokenized.mk.injEq]
  simp [List.filter_eq_self]

/-- A quoted label with a quotation mark in it. -/
theorem tokenize_joinsQuoted_iff_label :
    tokenize (text "\"label\" 'Bob\\'s bench'") = ⟨[text "label", text "Bob's bench"], []⟩ :=
  (tokenize_joinsQuoted_iff
    (.cons .double (text "label") (show Blank [space] by decide) (by decide)
      (.last .single (text "Bob's bench")))).mpr (by decide)

/-- An empty argument between two others is lost. -/
theorem not_tokenize_joinsQuoted_empty :
    ¬ ∀ (tokens : CommandPath) (line : CommandString), JoinsQuoted tokens line →
      tokenize line = ⟨tokens, []⟩ := by
  intro h
  have hlost := h [text "label", [], text "x"] (text "\"label\" \"\" \"x\"")
    (.cons .double (text "label") (show Blank [space] by decide) (by decide)
      (.cons .double [] (show Blank [space] by decide) (by decide) (.last .double (text "x"))))
  revert hlost
  decide

/-! ### Word boundaries -/

/-- The scanner with more finished tokens in front. -/
def Scanner.prepend (tokens : CommandPath) (s : Scanner) : Scanner :=
  { s with output := tokens ++ s.output }

/-- The finished tokens are only ever added to. -/
theorem Scanner.step_prepend (tokens : CommandPath) (s : Scanner) (c : UInt8) :
    (s.prepend tokens).step c = (s.step c).prepend tokens := by
  unfold Scanner.step Scanner.prepend
  split_ifs <;> simp

theorem Scanner.scan_prepend (tokens : CommandPath) (s : Scanner) (input : CommandString) :
    (s.prepend tokens).scan input = (s.scan input).prepend tokens := by
  induction input generalizing s with
  | nil => rfl
  | cons c input ih => rw [Scanner.scan_cons, Scanner.scan_cons, Scanner.step_prepend, ih]

theorem Scanner.finish_prepend (tokens : CommandPath) (s : Scanner) :
    (s.prepend tokens).finish =
      if s.quote ≠ 0 then s.finish else ⟨tokens ++ s.finish.tokens, []⟩ := by
  by_cases hquote : s.quote = 0
  · by_cases hescape : s.escape = true <;> by_cases hcurrent : s.current = [] <;>
      simp [Scanner.finish, Scanner.prepend, hquote, hescape, hcurrent]
  · simp [Scanner.finish, Scanner.prepend, hquote]

/-- A call fails exactly when the scan ends inside a quote. -/
theorem Scanner.finish_error_ne_nil_iff (s : Scanner) : s.finish.error ≠ [] ↔ s.quote ≠ 0 := by
  by_cases hquote : s.quote = 0
  · by_cases hescape : s.escape = true <;> by_cases hcurrent : s.current = [] <;>
      simp [Scanner.finish, hquote, hescape, hcurrent]
  · have hmessage : text "Unterminated quoted string" ≠ [] := by decide
    simp [Scanner.finish, hquote, hmessage]

/-- A failing call reports the error and returns no tokens. -/
theorem tokenize_of_error {input : CommandString} (h : (tokenize input).error ≠ []) :
    tokenize input = ⟨[], text "Unterminated quoted string"⟩ := by
  have hquote := (Scanner.finish_error_ne_nil_iff _).mp h
  rw [tokenize, Scanner.finish, if_pos hquote]

/-- White space after a line that ends outside quotes, with no backslash pending, leaves
a scanner that has finished the tokens of the line. -/
theorem Scanner.step_of_isSpace {s : Scanner} (hquote : s.quote = 0) (hescape : s.escape = false)
    {w : UInt8} (hw : isSpace w = true) :
    s.step w = Scanner.initial.prepend s.finish.tokens := by
  obtain ⟨output, current, quote, escape⟩ := s
  obtain rfl : quote = 0 := hquote
  obtain rfl : escape = false := hescape
  by_cases hcurrent : current = [] <;>
    simp [Scanner.step, Scanner.finish, Scanner.prepend, Scanner.initial, hw, hcurrent,
      ne_of_isSpace hw (d := backslash) rfl, ne_of_isSpace hw (d := singleQuote) rfl,
      ne_of_isSpace hw (d := doubleQuote) rfl]

/-- **Tokenizing is compositional at word boundaries.**  If the first line tokenizes and
its scan ends with no backslash pending, then the two lines with a white-space character
between them fail exactly when the second does, and otherwise have the tokens of the
first followed by those of the second; and every failing call reports the error and
returns no tokens. -/
theorem tokenize_append_of_isSpace {first : CommandString} (second : CommandString) {w : UInt8}
    (hfirst : (tokenize first).error = [])
    (hescape : (Scanner.initial.scan first).escape = false) (hw : isSpace w = true) :
    ((tokenize (first ++ w :: second)).error ≠ [] ↔ (tokenize second).error ≠ []) ∧
      ((tokenize second).error = [] →
        tokenize (first ++ w :: second) =
          ⟨(tokenize first).tokens ++ (tokenize second).tokens, []⟩) ∧
      ∀ input, (tokenize input).error ≠ [] →
        tokenize input = ⟨[], text "Unterminated quoted string"⟩ := by
  have hquote : (Scanner.initial.scan first).quote = 0 := by
    by_contra hopen
    exact (Scanner.finish_error_ne_nil_iff _).mpr hopen hfirst
  have hboth : tokenize (first ++ w :: second) =
      ((Scanner.initial.scan second).prepend (tokenize first).tokens).finish := by
    rw [tokenize, Scanner.scan_append, Scanner.scan_cons,
      Scanner.step_of_isSpace hquote hescape hw, Scanner.scan_prepend]
    rfl
  refine ⟨?_, ?_, fun input => tokenize_of_error⟩
  · rw [hboth, Scanner.finish_error_ne_nil_iff]
    exact (Scanner.finish_error_ne_nil_iff (Scanner.initial.scan second)).symm
  · intro hsecond
    have hsecondQuote : ¬ (Scanner.initial.scan second).quote ≠ 0 := fun hopen =>
      (Scanner.finish_error_ne_nil_iff _).mpr hopen hsecond
    rw [hboth, Scanner.finish_prepend, if_neg hsecondQuote]
    rfl

/-- The seam between a quoted and a bare word. -/
theorem tokenize_append_of_isSpace_label :
    tokenize (text "label 'Main Controller'" ++ space :: text "x") =
      ⟨(tokenize (text "label 'Main Controller'")).tokens ++ (tokenize (text "x")).tokens, []⟩ :=
  (tokenize_append_of_isSpace (text "x") (by decide) (by decide) (by decide)).2.1 (by decide)

end TextCommandParser
end EspressioCommand
