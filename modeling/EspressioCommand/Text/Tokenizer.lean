import EspressioCommand.Text.Bytes

/-!
# `TextCommandParser::Tokenize`

The tokenizer walks the line once with four local variables: the finished
tokens, the token being read, the open quote character (zero when none is open)
and a flag for a pending backslash.  `Scanner` holds them, `Scanner.step` is the
loop body and `tokenize` the whole function.

The other direction is a relation, since one token has many spellings.
`Encodes quote written token` says that `written` is a way of writing `token`
from inside the quote `quote`, with any mixture of backslashes and of quoted and
bare stretches; `RendersLine` puts such spellings on a line with white space
between them.  `tokenize_rendersLine` is the round trip: whatever the spelling,
the tokenizer gives the tokens back, provided none of them is empty.
-/

namespace EspressioCommand
namespace TextCommandParser

/-- The local variables of the scanning loop. -/
structure Scanner where
  output : CommandPath
  current : CommandString
  /-- The open quote character, or zero. -/
  quote : UInt8
  escape : Bool
deriving DecidableEq, Repr

/-- The variables before the first character. -/
def Scanner.initial : Scanner := ⟨[], [], 0, false⟩

/-- The loop body: one character of the input. -/
def Scanner.step (s : Scanner) (character : UInt8) : Scanner :=
  -- behind a backslash every character is literal, whatever the quote
  if s.escape then { s with current := s.current ++ [character], escape := false }
  else if character = backslash then { s with escape := true }
  else if s.quote ≠ 0 then
    if character = s.quote then { s with quote := 0 }
    else { s with current := s.current ++ [character] }
  else if character = singleQuote ∨ character = doubleQuote then
    { s with quote := character }
  else if isSpace character then
    -- white space in a row makes no empty tokens
    if s.current ≠ [] then { s with output := s.output ++ [s.current], current := [] }
    else s
  else { s with current := s.current ++ [character] }

/-- What `Tokenize` hands back: the tokens, and the text it stores through the
error pointer (empty when it stores none). -/
structure Tokenized where
  tokens : CommandPath
  error : CommandString
deriving DecidableEq, Repr

/-- The code after the loop: a pending backslash stands for itself, an open
quote is an error, and a token still being read is complete. -/
def Scanner.finish (s : Scanner) : Tokenized :=
  let current := if s.escape then s.current ++ [backslash] else s.current
  if s.quote ≠ 0 then ⟨[], text "Unterminated quoted string"⟩
  else if current ≠ [] then ⟨s.output ++ [current], []⟩
  else ⟨s.output, []⟩

/-- The scanner after the characters of `input`. -/
def Scanner.scan (s : Scanner) (input : CommandString) : Scanner :=
  input.foldl Scanner.step s

/-- `TextCommandParser::Tokenize`. -/
def tokenize (input : CommandString) : Tokenized :=
  (Scanner.initial.scan input).finish

@[simp] theorem Scanner.scan_nil (s : Scanner) : s.scan [] = s := rfl

@[simp] theorem Scanner.scan_cons (s : Scanner) (c : UInt8) (input : CommandString) :
    s.scan (c :: input) = (s.step c).scan input := rfl

theorem Scanner.scan_append (s : Scanner) (first second : CommandString) :
    s.scan (first ++ second) = (s.scan first).scan second :=
  List.foldl_append

/-- A white-space character is none of the characters the scanner treats
specially. -/
theorem ne_of_isSpace {c d : UInt8} (hc : isSpace c = true) (hd : isSpace d = false) :
    c ≠ d := by
  rintro rfl
  rw [hc] at hd
  exact Bool.noConfusion hd

/-! ### Spellings of a token -/

/-- `Encodes quote written token`: read from inside `quote` (zero outside any
quote), `written` spells `token` and leaves no quote open. -/
inductive Encodes : UInt8 → CommandString → CommandString → Prop
  | done : Encodes 0 [] []
  /-- A backslash makes any character literal, inside and outside quotes. -/
  | escaped {quote c : UInt8} {written token : CommandString}
      (hrest : Encodes quote written token) :
      Encodes quote (backslash :: c :: written) (c :: token)
  | bare {c : UInt8} {written token : CommandString}
      (hbackslash : c ≠ backslash) (hsingle : c ≠ singleQuote) (hdouble : c ≠ doubleQuote)
      (hspace : isSpace c = false) (hrest : Encodes 0 written token) :
      Encodes 0 (c :: written) (c :: token)
  | openQuote {quote : UInt8} {written token : CommandString}
      (hquote : quote = singleQuote ∨ quote = doubleQuote)
      (hrest : Encodes quote written token) : Encodes 0 (quote :: written) token
  | quoted {quote c : UInt8} {written token : CommandString}
      (hopen : quote = singleQuote ∨ quote = doubleQuote) (hquote : c ≠ quote)
      (hbackslash : c ≠ backslash) (hrest : Encodes quote written token) :
      Encodes quote (c :: written) (c :: token)
  | closeQuote {quote : UInt8} {written token : CommandString}
      (hopen : quote = singleQuote ∨ quote = doubleQuote)
      (hrest : Encodes 0 written token) : Encodes quote (quote :: written) token

/-- A character that neither ends a token nor means anything but itself. -/
def isOrdinary (c : UInt8) : Bool :=
  c != backslash && c != singleQuote && c != doubleQuote && !isSpace c

/-- A token of ordinary characters spells itself. -/
theorem Encodes.of_ordinary {token : CommandString} (h : token.all isOrdinary = true) :
    Encodes 0 token token := by
  induction token with
  | nil => exact .done
  | cons c token ih =>
      rw [List.all_cons, Bool.and_eq_true] at h
      obtain ⟨hc, hrest⟩ := h
      simp only [isOrdinary, Bool.and_eq_true, bne_iff_ne, Bool.not_eq_true'] at hc
      obtain ⟨⟨⟨hbackslash, hsingle⟩, hdouble⟩, hspace⟩ := hc
      exact .bare hbackslash hsingle hdouble hspace (ih hrest)

/-- Only white space. -/
def Blank (gap : CommandString) : Prop := ∀ c ∈ gap, isSpace c = true

instance (gap : CommandString) : Decidable (Blank gap) :=
  decidable_of_iff (gap.all isSpace = true) List.all_eq_true

/-- Spelled tokens with non-empty white space between them and any white space
after the last. -/
inductive RendersTokens : CommandPath → CommandString → Prop
  | last {token written gap : CommandString} (htoken : Encodes 0 written token)
      (hgap : Blank gap) : RendersTokens [token] (written ++ gap)
  | cons {token written gap line : CommandString} {tokens : CommandPath}
      (htoken : Encodes 0 written token) (hgap : Blank gap) (hsep : gap ≠ [])
      (hrest : RendersTokens tokens line) :
      RendersTokens (token :: tokens) (written ++ gap ++ line)

/-- A whole line: spelled tokens, after any white space. -/
def RendersLine (tokens : CommandPath) (line : CommandString) : Prop :=
  ∃ gap body, Blank gap ∧ RendersTokens tokens body ∧ line = gap ++ body

/-! ### The round trip -/

/-- **Scanning a spelling.**  From inside its quote, a spelling appends exactly
its token to the token being read, and leaves no quote and no escape pending. -/
theorem scan_encodes {quote : UInt8} {written token : CommandString}
    (h : Encodes quote written token) (output : CommandPath) (current : CommandString) :
    Scanner.scan ⟨output, current, quote, false⟩ written =
      ⟨output, current ++ token, 0, false⟩ := by
  have hquoteNe : ∀ {q : UInt8}, q = singleQuote ∨ q = doubleQuote → q ≠ backslash ∧ q ≠ 0 := by
    rintro q (rfl | rfl) <;> decide
  -- the induction follows the spelling; the token read so far varies with it
  induction h generalizing current with
  | done => simp
  | escaped _ ih => simp [Scanner.step, ih]
  | bare hbackslash hsingle hdouble hspace _ ih =>
      simp [Scanner.step, hbackslash, hsingle, hdouble, hspace, ih]
  | openQuote hquote _ ih => simp [Scanner.step, hquote, (hquoteNe hquote).1, ih]
  | quoted hopen hquote hbackslash _ ih =>
      simp [Scanner.step, hquote, hbackslash, (hquoteNe hopen).2, ih]
  | closeQuote hopen _ ih =>
      simp [Scanner.step, (hquoteNe hopen).1, (hquoteNe hopen).2, ih]

/-- White space outside quotes, with no token being read, changes nothing. -/
theorem scan_blank {gap : CommandString} (h : Blank gap) (output : CommandPath) :
    Scanner.scan ⟨output, [], 0, false⟩ gap = ⟨output, [], 0, false⟩ := by
  induction gap with
  | nil => rfl
  | cons c gap ih =>
      have hc : isSpace c = true := h c (by simp)
      have hstep : Scanner.step ⟨output, [], 0, false⟩ c = ⟨output, [], 0, false⟩ := by
        simp [Scanner.step, hc, ne_of_isSpace hc (d := backslash) rfl,
          ne_of_isSpace hc (d := singleQuote) rfl, ne_of_isSpace hc (d := doubleQuote) rfl]
      rw [Scanner.scan_cons, hstep]
      exact ih fun d hd => h d (by simp [hd])

/-- Non-empty white space finishes the token being read, if it has any character. -/
theorem scan_blank_of_ne_nil {gap : CommandString} (h : Blank gap) (hgap : gap ≠ [])
    (output : CommandPath) (current : CommandString) :
    Scanner.scan ⟨output, current, 0, false⟩ gap =
      ⟨output ++ [current].filter (· ≠ []), [], 0, false⟩ := by
  obtain ⟨c, gap, rfl⟩ := List.exists_cons_of_ne_nil hgap
  have hc : isSpace c = true := h c (by simp)
  have hstep : Scanner.step ⟨output, current, 0, false⟩ c =
      ⟨output ++ [current].filter (· ≠ []), [], 0, false⟩ := by
    by_cases hcurrent : current = [] <;>
      simp [Scanner.step, hc, hcurrent, ne_of_isSpace hc (d := backslash) rfl,
        ne_of_isSpace hc (d := singleQuote) rfl, ne_of_isSpace hc (d := doubleQuote) rfl]
  rw [Scanner.scan_cons, hstep]
  exact scan_blank (fun d hd => h d (by simp [hd])) _

/-- Scanning spelled tokens adds those of them to the output that are not empty. -/
theorem finish_scan_rendersTokens {tokens : CommandPath} {line : CommandString}
    (h : RendersTokens tokens line) (output : CommandPath) :
    (Scanner.scan ⟨output, [], 0, false⟩ line).finish =
      ⟨output ++ tokens.filter (· ≠ []), []⟩ := by
  induction h generalizing output with
  | @last token written gap htoken hgap =>
      rw [Scanner.scan_append, scan_encodes htoken, List.nil_append]
      -- the last token is finished by a gap, or else by the end of the line
      by_cases hgapNil : gap = []
      · subst hgapNil
        by_cases htokenNil : token = [] <;> simp [Scanner.finish, htokenNil]
      · rw [scan_blank_of_ne_nil hgap hgapNil output token]
        simp [Scanner.finish]
  | @cons token written gap line tokens htoken hgap hsep _ ih =>
      rw [Scanner.scan_append, Scanner.scan_append, scan_encodes htoken, List.nil_append,
        scan_blank_of_ne_nil hgap hsep output token, ih, List.append_assoc,
        ← List.filter_append]
      rfl

/-- What a spelled line tokenizes to: its tokens without the empty ones. -/
theorem tokenize_rendersLine_eq_filter {tokens : CommandPath} {line : CommandString}
    (h : RendersLine tokens line) : tokenize line = ⟨tokens.filter (· ≠ []), []⟩ := by
  obtain ⟨gap, body, hgap, hbody, rfl⟩ := h
  rw [tokenize, Scanner.scan_append, Scanner.initial, scan_blank hgap,
    finish_scan_rendersTokens hbody, List.nil_append]

/-- **The tokenizer round trip.**  A line that spells non-empty tokens, in
whatever mixture of quotes, backslashes and white space, tokenizes without error
to these tokens. -/
theorem tokenize_rendersLine {tokens : CommandPath} {line : CommandString}
    (h : RendersLine tokens line) (hne : ∀ token ∈ tokens, token ≠ []) :
    tokenize line = ⟨tokens, []⟩ := by
  rw [tokenize_rendersLine_eq_filter h, List.filter_eq_self.mpr]
  intro token htoken
  simpa using hne token htoken

example : tokenize (text "gpio 'write to' 8\\ 9") =
    ⟨[text "gpio", text "write to", text "8 9"], []⟩ := by decide

end TextCommandParser
end EspressioCommand
