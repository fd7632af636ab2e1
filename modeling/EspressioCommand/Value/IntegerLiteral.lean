import EspressioCommand.Text.Tokenizer
import EspressioCommand.Value.IntegerConversion

/-!
# Integer literals as text

The grammar of the texts that denote an integer: white space, an optional sign and an
integer literal of C in base 8, 10 or 16.  `scanInteger` takes such a text to its end and
finds the sign and the number (`scanInteger_of_literal`), and what it takes to the end is
such a text, or empty (`exists_literal_of_scanInteger`).

Between the two lies what `As<T>` makes of text: it asks only where the library stopped,
so the empty text is a zero; and it looks for the minus sign in the first character, before
the library has skipped any white space.
-/

namespace EspressioCommand

open TextCommandParser

/-! ### The grammar -/

/-- An integer literal and the number it denotes. -/
inductive IntegerLiteral : CommandString → ℕ → Prop
  | decimal {d : UInt8} {digits : CommandString} (hd : d ≠ 48)
      (hdigits : ∀ c ∈ d :: digits, isDigit 10 c = true) :
      IntegerLiteral (d :: digits) (digitsValue 10 (d :: digits))
  | octal {digits : CommandString} (hdigits : ∀ c ∈ digits, isDigit 8 c = true) :
      IntegerLiteral (48 :: digits) (digitsValue 8 digits)
  | hexadecimal {x : UInt8} {digits : CommandString} (hx : x = 120 ∨ x = 88)
      (hne : digits ≠ []) (hdigits : ∀ c ∈ digits, isDigit 16 c = true) :
      IntegerLiteral (48 :: x :: digits) (digitsValue 16 digits)

/-- White space, an optional sign, and a literal. -/
inductive DenotesInteger : CommandString → ℤ → Prop
  | unsigned {blanks literal : CommandString} {m : ℕ} (hblanks : Blank blanks)
      (hliteral : IntegerLiteral literal m) : DenotesInteger (blanks ++ literal) m
  | plus {blanks literal : CommandString} {m : ℕ} (hblanks : Blank blanks)
      (hliteral : IntegerLiteral literal m) : DenotesInteger (blanks ++ 43 :: literal) m
  | minus {blanks literal : CommandString} {m : ℕ} (hblanks : Blank blanks)
      (hliteral : IntegerLiteral literal m) : DenotesInteger (blanks ++ 45 :: literal) (-m)

/-! ### Digits -/

/-- A digit of any base up to ten is one of the ten figures. -/
theorem digit_bounds {base : ℕ} (hbase : base ≤ 10) {c : UInt8} (hc : isDigit base c = true) :
    48 ≤ c ∧ c ≤ 57 := by
  rw [isDigit, Option.any_eq_true] at hc
  obtain ⟨v, hv, hless⟩ := hc
  rw [digitValue] at hv
  simp only [decide_eq_true_eq] at hless
  split_ifs at hv with hfigure hlower hupper
  · exact hfigure
  · have hlow : 97 ≤ c.toNat := hlower.1
    simp at hv
    omega
  · have hlow : 65 ≤ c.toNat := hupper.1
    simp at hv
    omega

/-- A figure is neither white space nor a sign. -/
theorem figure_spec {c : UInt8} (h : 48 ≤ c ∧ c ≤ 57) :
    isSpace c = false ∧ c ≠ 43 ∧ c ≠ 45 ∧ c ≠ 120 ∧ c ≠ 88 := by
  have hlow : 48 ≤ c.toNat := h.1
  have hhigh : c.toNat ≤ 57 := h.2
  have hne : ∀ d : UInt8, (d.toNat < 48 ∨ 57 < d.toNat) → c ≠ d := by
    intro d hd heq
    subst heq
    omega
  refine ⟨?_, hne 43 (by decide), hne 45 (by decide), hne 120 (by decide), hne 88 (by decide)⟩
  rw [isSpace, Bool.or_eq_false_iff, beq_eq_false_iff_ne, Bool.and_eq_false_imp]
  refine ⟨hne 32 (by decide), ?_⟩
  intro _
  simp only [decide_eq_false_iff_not, UInt8.not_le]
  show (13 : UInt8).toNat < c.toNat
  exact lt_of_lt_of_le (by decide) hlow

/-- A literal begins with a figure. -/
theorem IntegerLiteral.exists_figure {literal : CommandString} {m : ℕ}
    (h : IntegerLiteral literal m) :
    ∃ c rest, literal = c :: rest ∧ 48 ≤ c ∧ c ≤ 57 := by
  cases h with
  | @decimal d digits hd hdigits =>
      obtain ⟨hlow, hhigh⟩ := digit_bounds (le_refl 10) (hdigits d List.mem_cons_self)
      exact ⟨d, digits, rfl, hlow, hhigh⟩
  | @octal digits hdigits => exact ⟨48, digits, rfl, by decide, by decide⟩
  | @hexadecimal x digits hx hne hdigits => exact ⟨48, x :: digits, rfl, by decide, by decide⟩

theorem DenotesInteger.ne_nil {input : CommandString} {n : ℤ} (h : DenotesInteger input n) :
    input ≠ [] := by
  cases h with
  | unsigned _ hliteral =>
      obtain ⟨c, rest, rfl, -⟩ := hliteral.exists_figure
      simp
  | plus _ _ => simp
  | minus _ _ => simp

/-! ### The literal -/

/-- The digits that are taken of a literal, behind the prefix of its base. -/
def literalDigits (literal : CommandString) : CommandString :=
  (literal.drop (basePrefix literal).2).takeWhile (isDigit (basePrefix literal).1)

/-- The three ways in which the base is found. -/
theorem basePrefix_cases (literal : CommandString) :
    (∃ x d rest, literal = 48 :: x :: d :: rest ∧ (x = 120 ∨ x = 88) ∧
        basePrefix literal = (16, 2)) ∨
      (∃ rest, literal = 48 :: rest ∧ basePrefix literal = (8, 0)) ∨
      (literal.head? ≠ some 48 ∧ basePrefix literal = (10, 0)) := by
  unfold basePrefix
  split
  · next x d rest =>
      split_ifs with hx
      · exact Or.inl ⟨x, d, rest, rfl, hx.1, rfl⟩
      · exact Or.inr (Or.inl ⟨_, rfl, rfl⟩)
  · next rest _ => exact Or.inr (Or.inl ⟨rest, rfl, rfl⟩)
  · next hnot =>
      refine Or.inr (Or.inr ⟨?_, rfl⟩)
      intro hhead
      cases literal with
      | nil => cases hhead
      | cons c rest =>
          obtain rfl : c = 48 := Option.some.inj hhead
          exact hnot rest rfl

/-- A list that is all taken consists of digits. -/
theorem forall_isDigit_of_length {base : ℕ} {digits : CommandString}
    (h : (digits.takeWhile (isDigit base)).length = digits.length) :
    ∀ c ∈ digits, isDigit base c = true := by
  rw [← List.takeWhile_eq_self_iff]
  exact (List.takeWhile_prefix (isDigit base)).eq_of_length h

/-- What is taken to its end is a literal. -/
theorem literal_of_taken {literal : CommandString} (hne : literalDigits literal ≠ [])
    (hlength : (basePrefix literal).2 + (literalDigits literal).length = literal.length) :
    IntegerLiteral literal (digitsValue (basePrefix literal).1 (literalDigits literal)) := by
  unfold literalDigits at *
  obtain ⟨x, d, rest, rfl, hx, hbase⟩ | ⟨rest, rfl, hbase⟩ | ⟨hhead, hbase⟩ :=
    basePrefix_cases literal
  · rw [hbase] at hne hlength ⊢
    simp only [List.drop_succ_cons, List.drop_zero] at hne hlength ⊢
    have hdigits : ∀ c ∈ d :: rest, isDigit 16 c = true := by
      apply forall_isDigit_of_length
      simp only [List.length_cons] at hlength ⊢
      omega
    rw [List.takeWhile_eq_self_iff.mpr hdigits]
    exact .hexadecimal hx (List.cons_ne_nil d rest) hdigits
  · rw [hbase] at hne hlength ⊢
    simp only [List.drop_zero, Nat.zero_add] at hne hlength ⊢
    have hdigits := forall_isDigit_of_length hlength
    rw [List.takeWhile_eq_self_iff.mpr hdigits]
    -- the leading zero adds nothing
    exact .octal fun c hc => hdigits c (List.mem_cons_of_mem _ hc)
  · rw [hbase] at hne hlength ⊢
    simp only [List.drop_zero, Nat.zero_add] at hne hlength ⊢
    have hdigits := forall_isDigit_of_length hlength
    rw [List.takeWhile_eq_self_iff.mpr hdigits]
    cases literal with
    | nil => exact absurd rfl hne
    | cons d rest => exact .decimal (fun hd => hhead (congrArg some hd)) hdigits

/-- A literal is taken to its end, with its number. -/
theorem IntegerLiteral.taken {literal : CommandString} {m : ℕ} (h : IntegerLiteral literal m) :
    literalDigits literal ≠ [] ∧
      (basePrefix literal).2 + (literalDigits literal).length = literal.length ∧
      digitsValue (basePrefix literal).1 (literalDigits literal) = m := by
  unfold literalDigits
  cases h with
  | @decimal d digits hd hdigits =>
      have hbase : basePrefix (d :: digits) = (10, 0) := by
        obtain ⟨x, e, rest, h, -⟩ | ⟨rest, h, -⟩ | ⟨-, hbase⟩ := basePrefix_cases (d :: digits)
        · exact absurd (List.cons.inj h).1 hd
        · exact absurd (List.cons.inj h).1 hd
        · exact hbase
      rw [hbase, List.drop_zero, List.takeWhile_eq_self_iff.mpr hdigits]
      exact ⟨List.cons_ne_nil _ _, Nat.zero_add _, rfl⟩
  | @octal digits hdigits =>
      have hzero : ∀ c ∈ 48 :: digits, isDigit 8 c = true := by
        rw [List.forall_mem_cons]
        exact ⟨by decide, hdigits⟩
      have hbase : basePrefix (48 :: digits) = (8, 0) := by
        obtain ⟨x, e, rest, h, hx, -⟩ | ⟨rest, -, hbase⟩ | ⟨hhead, -⟩ :=
          basePrefix_cases (48 :: digits)
        · -- the letter of a hexadecimal prefix is no octal digit
          obtain rfl := (List.cons.inj h).2
          obtain ⟨-, -, -, hlower, hupper⟩ := figure_spec
            (digit_bounds (show 8 ≤ 10 by omega) (hdigits x List.mem_cons_self))
          exact (hx.elim hlower hupper).elim
        · exact hbase
        · exact absurd rfl hhead
      rw [hbase, List.drop_zero, List.takeWhile_eq_self_iff.mpr hzero]
      exact ⟨List.cons_ne_nil _ _, Nat.zero_add _, rfl⟩
  | @hexadecimal x digits hx hne hdigits =>
      obtain ⟨d, rest, rfl⟩ := List.exists_cons_of_ne_nil hne
      have hbase : basePrefix (48 :: x :: d :: rest) = (16, 2) :=
        if_pos ⟨hx, hdigits d List.mem_cons_self⟩
      rw [hbase]
      simp only [List.drop_succ_cons, List.drop_zero]
      rw [List.takeWhile_eq_self_iff.mpr hdigits]
      refine ⟨hne, ?_, rfl⟩
      simp only [List.length_cons]
      omega

/-! ### The scan -/

/-- The scan of a literal behind that many characters. -/
def scanLiteral (negative : Bool) (before : ℕ) (literal : CommandString) : IntegerScan :=
  if literalDigits literal = [] then ⟨false, 0, 0⟩
  else ⟨negative, digitsValue (basePrefix literal).1 (literalDigits literal),
    before + (basePrefix literal).2 + (literalDigits literal).length⟩

/-- The white space before a character that is none is skipped. -/
theorem takeWhile_isSpace_append {blanks rest : CommandString} (hblanks : Blank blanks)
    (hrest : ∀ c, rest.head? = some c → isSpace c = false) :
    (blanks ++ rest).takeWhile isSpace = blanks := by
  rw [List.takeWhile_append_of_pos hblanks]
  cases rest with
  | nil => simp
  | cons c rest =>
      rw [List.takeWhile_cons_of_neg (by rw [hrest c rfl]; decide), List.append_nil]

theorem scanInteger_minus {blanks literal : CommandString} (hblanks : Blank blanks) :
    scanInteger (blanks ++ 45 :: literal) = scanLiteral true (blanks.length + 1) literal := by
  unfold scanInteger
  rw [takeWhile_isSpace_append hblanks (by intro c hc; cases hc; rfl)]
  simp only [List.drop_left]
  rfl

theorem scanInteger_plus {blanks literal : CommandString} (hblanks : Blank blanks) :
    scanInteger (blanks ++ 43 :: literal) = scanLiteral false (blanks.length + 1) literal := by
  unfold scanInteger
  rw [takeWhile_isSpace_append hblanks (by intro c hc; cases hc; rfl)]
  simp only [List.drop_left]
  rfl

theorem scanInteger_unsigned {blanks literal : CommandString} (hblanks : Blank blanks)
    (hhead : ∀ c, literal.head? = some c → isSpace c = false ∧ c ≠ 43 ∧ c ≠ 45) :
    scanInteger (blanks ++ literal) = scanLiteral false blanks.length literal := by
  unfold scanInteger
  rw [takeWhile_isSpace_append hblanks fun c hc => (hhead c hc).1]
  simp only [List.drop_left]
  cases literal with
  | nil => rfl
  | cons c rest =>
      obtain ⟨-, hplus, hminus⟩ := hhead c rfl
      split
      · next h => exact absurd (List.cons.inj h).1 hminus
      · next h => exact absurd (List.cons.inj h).1 hplus
      · rfl

/-- Every text is white space, then a sign or none. -/
theorem sign_cases (input : CommandString) :
    ∃ blanks rest, Blank blanks ∧
      (input = blanks ++ 45 :: rest ∨ input = blanks ++ 43 :: rest ∨
        (input = blanks ++ rest ∧
          ∀ c, rest.head? = some c → isSpace c = false ∧ c ≠ 43 ∧ c ≠ 45)) := by
  have hsplit := (List.takeWhile_append_dropWhile (p := isSpace) (l := input)).symm
  have hblanks : Blank (input.takeWhile isSpace) := fun c hc => List.mem_takeWhile_imp hc
  cases hrest : input.dropWhile isSpace with
  | nil =>
      rw [hrest] at hsplit
      refine ⟨_, [], hblanks, Or.inr (Or.inr ⟨hsplit, ?_⟩)⟩
      intro c hc
      cases hc
  | cons c rest =>
      have hspace : isSpace c = false := by
        have hhead := List.head?_dropWhile_not isSpace input
        simpa [hrest] using hhead
      rw [hrest] at hsplit
      by_cases hminus : c = 45
      · subst hminus
        exact ⟨_, rest, hblanks, Or.inl hsplit⟩
      · by_cases hplus : c = 43
        · subst hplus
          exact ⟨_, rest, hblanks, Or.inr (Or.inl hsplit)⟩
        · refine ⟨_, c :: rest, hblanks, Or.inr (Or.inr ⟨hsplit, ?_⟩)⟩
          intro d hd
          obtain rfl := Option.some.inj hd
          exact ⟨hspace, hplus, hminus⟩

/-- A literal is scanned to the end, with its number. -/
theorem IntegerLiteral.scanLiteral_eq {literal : CommandString} {m : ℕ}
    (h : IntegerLiteral literal m) (negative : Bool) (before : ℕ) :
    scanLiteral negative before literal = ⟨negative, m, before + literal.length⟩ := by
  obtain ⟨hne, hlength, hvalue⟩ := h.taken
  rw [scanLiteral, if_neg hne, hvalue, Nat.add_assoc, hlength]

/-- What is scanned to the end is a literal, or nothing at all. -/
theorem literal_of_scanLiteral {negative : Bool} {before : ℕ} {literal : CommandString}
    (h : (scanLiteral negative before literal).consumed = before + literal.length)
    (hne : before + literal.length ≠ 0) :
    ∃ m, IntegerLiteral literal m ∧
      scanLiteral negative before literal = ⟨negative, m, before + literal.length⟩ := by
  by_cases hdigits : literalDigits literal = []
  · rw [scanLiteral, if_pos hdigits] at h
    exact absurd h.symm hne
  · rw [scanLiteral, if_neg hdigits] at h
    have hliteral := literal_of_taken hdigits (by simp only at h; omega)
    exact ⟨_, hliteral, hliteral.scanLiteral_eq negative before⟩

/-- The number of a scan, with its sign. -/
def IntegerScan.signed (scan : IntegerScan) : ℤ :=
  if scan.negative then -scan.magnitude else scan.magnitude

/-- **The scan and the grammar.**  Of a text that is not empty, the scan reaches the end
exactly when it denotes an integer, and that integer is what was found. -/
theorem denotesInteger_iff {input : CommandString} (hinput : input ≠ []) (n : ℤ) :
    DenotesInteger input n ↔
      (scanInteger input).consumed = input.length ∧ (scanInteger input).signed = n := by
  constructor
  · intro h
    cases h with
    | @unsigned blanks literal m hblanks hliteral =>
        obtain ⟨c, rest, hc, hfigure⟩ := hliteral.exists_figure
        have hhead : ∀ d, literal.head? = some d → isSpace d = false ∧ d ≠ 43 ∧ d ≠ 45 := by
          intro d hd
          subst hc
          obtain rfl := Option.some.inj hd
          obtain ⟨hspace, hplus, hminus, -⟩ := figure_spec hfigure
          exact ⟨hspace, hplus, hminus⟩
        rw [scanInteger_unsigned hblanks hhead, hliteral.scanLiteral_eq, List.length_append]
        exact ⟨rfl, rfl⟩
    | @plus blanks literal m hblanks hliteral =>
        rw [scanInteger_plus hblanks, hliteral.scanLiteral_eq, List.length_append,
          List.length_cons]
        exact ⟨by simp only; omega, rfl⟩
    | @minus blanks literal m hblanks hliteral =>
        rw [scanInteger_minus hblanks, hliteral.scanLiteral_eq, List.length_append,
          List.length_cons]
        exact ⟨by simp only; omega, rfl⟩
  · intro h
    obtain ⟨hconsumed, rfl⟩ := h
    obtain ⟨blanks, rest, hblanks, rfl | rfl | ⟨rfl, hhead⟩⟩ := sign_cases input
    · rw [scanInteger_minus hblanks] at hconsumed ⊢
      rw [List.length_append, List.length_cons, Nat.add_comm rest.length, ← Nat.add_assoc]
        at hconsumed
      obtain ⟨m, hliteral, hscan⟩ := literal_of_scanLiteral hconsumed (by omega)
      rw [hscan]
      exact .minus hblanks hliteral
    · rw [scanInteger_plus hblanks] at hconsumed ⊢
      rw [List.length_append, List.length_cons, Nat.add_comm rest.length, ← Nat.add_assoc]
        at hconsumed
      obtain ⟨m, hliteral, hscan⟩ := literal_of_scanLiteral hconsumed (by omega)
      rw [hscan]
      exact .plus hblanks hliteral
    · rw [scanInteger_unsigned hblanks hhead] at hconsumed ⊢
      have hlength := List.length_pos_of_ne_nil hinput
      rw [List.length_append] at hconsumed hlength
      obtain ⟨m, hliteral, hscan⟩ := literal_of_scanLiteral hconsumed (by omega)
      rw [hscan]
      exact .unsigned hblanks hliteral

end EspressioCommand
