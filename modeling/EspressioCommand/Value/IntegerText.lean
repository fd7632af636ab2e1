import EspressioCommand.Value.CommandValue
import Mathlib.Data.List.TakeWhile
import Mathlib.Data.Nat.Digits.Lemmas

/-!
# Integers as text

What `FormatInteger` prints, `strtoll` and `strtoull` read back.  With base 0 a leading
zero would select octal; a printed number starts with one only when it is zero, where
octal and decimal agree.

`scanInteger_formatInteger` is the round trip, `strtoll_formatInteger` and
`strtoull_formatInteger` are what the two conversions make of it.
-/

namespace EspressioCommand

/-- The character of a decimal digit. -/
def digitCharacter (d : ℕ) : UInt8 := UInt8.ofNat (48 + d)

theorem digitValue_digitCharacter {d : ℕ} (h : d < 10) :
    digitValue (digitCharacter d) = some d := by
  interval_cases d <;> decide

theorem isDigit_digitCharacter {d : ℕ} (h : d < 10) :
    isDigit 10 (digitCharacter d) = true := by
  rw [isDigit, digitValue_digitCharacter h]
  simpa using h

theorem isSpace_digitCharacter {d : ℕ} (h : d < 10) : isSpace (digitCharacter d) = false := by
  interval_cases d <;> decide

/-- The digits of a positive number, with the leading one first. -/
theorem decimal_of_pos {n : ℕ} (h : n ≠ 0) :
    decimal n = (Nat.digits 10 n).reverse.map digitCharacter := by
  rw [decimal, if_neg h]
  rfl

/-- Every character is a decimal digit. -/
theorem exists_digit_of_mem_decimal {n : ℕ} {c : UInt8} (hc : c ∈ decimal n) :
    ∃ d, d < 10 ∧ c = digitCharacter d := by
  by_cases hn : n = 0
  · subst hn
    rw [decimal, if_pos rfl, List.mem_singleton] at hc
    exact ⟨0, by omega, hc⟩
  · rw [decimal_of_pos hn, List.mem_map] at hc
    obtain ⟨d, hd, rfl⟩ := hc
    exact ⟨d, Nat.digits_lt_base (by omega) (List.mem_reverse.mp hd), rfl⟩

theorem decimal_ne_nil (n : ℕ) : decimal n ≠ [] := by
  by_cases hn : n = 0
  · rw [decimal, if_pos hn]
    exact List.cons_ne_nil _ _
  · rw [decimal_of_pos hn, ne_eq, List.map_eq_nil_iff, List.reverse_eq_nil_iff]
    exact Nat.digits_ne_nil_iff_ne_zero.mpr hn

/-- A positive number has no leading zero. -/
theorem decimal_eq_cons {n : ℕ} (hn : n ≠ 0) :
    ∃ d rest, decimal n = digitCharacter d :: rest ∧ 0 < d ∧ d < 10 := by
  have hdigits : Nat.digits 10 n ≠ [] := Nat.digits_ne_nil_iff_ne_zero.mpr hn
  have hlast := Nat.getLast_digit_ne_zero 10 hn
  have hmem := List.getLast_mem hdigits
  refine ⟨(Nat.digits 10 n).getLast hdigits,
    (Nat.digits 10 n).dropLast.reverse.map digitCharacter, ?_, Nat.pos_of_ne_zero hlast,
    Nat.digits_lt_base (by omega) hmem⟩
  rw [decimal_of_pos hn]
  conv_lhs => rw [← List.dropLast_append_getLast hdigits]
  rw [List.reverse_append, List.reverse_singleton, List.map_append]
  rfl

/-- The digits denote the number. -/
theorem digitsValue_decimal (n : ℕ) : digitsValue 10 (decimal n) = n := by
  by_cases hn : n = 0
  · subst hn
    decide
  · rw [decimal_of_pos hn, digitsValue, List.foldl_map, List.foldl_reverse]
    have hfold : ∀ ds : List ℕ, (∀ d ∈ ds, d < 10) →
        ds.foldr (fun d value => value * 10 + (digitValue (digitCharacter d)).getD 0) 0 =
          Nat.ofDigits 10 ds := by
      intro ds
      induction ds with
      | nil => intro _; rfl
      | cons d ds ih =>
          intro hds
          rw [List.forall_mem_cons] at hds
          rw [List.foldr_cons, ih hds.2, digitValue_digitCharacter hds.1, Option.getD_some,
            Nat.ofDigits_cons]
          show Nat.ofDigits 10 ds * 10 + d = d + 10 * Nat.ofDigits 10 ds
          omega
    rw [hfold _ fun d hd => Nat.digits_lt_base (by omega) hd, Nat.ofDigits_digits]

/-- Neither a digit nor a minus sign is white space. -/
theorem takeWhile_isSpace_formatInteger (n : ℤ) :
    (formatInteger n).takeWhile isSpace = [] := by
  rw [formatInteger]
  split_ifs
  · rfl
  · obtain ⟨c, rest, hdecimal⟩ := List.exists_cons_of_ne_nil (decimal_ne_nil n.natAbs)
    obtain ⟨d, hd, rfl⟩ := exists_digit_of_mem_decimal (hdecimal ▸ List.mem_cons_self)
    rw [hdecimal, List.takeWhile_cons, isSpace_digitCharacter hd]
    rfl

/-- The base and the digits that are found in a printed magnitude. -/
theorem scan_decimal (n : ℕ) :
    (basePrefix (decimal n)).2 = 0 ∧
      (decimal n).takeWhile (isDigit (basePrefix (decimal n)).1) = decimal n ∧
      digitsValue (basePrefix (decimal n)).1 (decimal n) = n := by
  by_cases hn : n = 0
  · subst hn
    decide
  · obtain ⟨d, rest, hdecimal, hpos, hlt⟩ := decimal_eq_cons hn
    have hbase : basePrefix (decimal n) = (10, 0) := by
      have hne : digitCharacter d ≠ 48 := by
        interval_cases d <;> decide
      rw [hdecimal]
      unfold basePrefix
      split
      · simp_all
      · simp_all
      · rfl
    rw [hbase]
    refine ⟨rfl, ?_, digitsValue_decimal n⟩
    rw [List.takeWhile_eq_self_iff]
    intro c hc
    obtain ⟨e, he, rfl⟩ := exists_digit_of_mem_decimal hc
    exact isDigit_digitCharacter he

/-- **The round trip of the digits.**  What is printed of an integer is read back as its
sign and its magnitude, to the last character. -/
theorem scanInteger_formatInteger (n : ℤ) :
    scanInteger (formatInteger n) =
      ⟨decide (n < 0), n.natAbs, (formatInteger n).length⟩ := by
  obtain ⟨hskip, hdigits, hvalue⟩ := scan_decimal n.natAbs
  have hne := decimal_ne_nil n.natAbs
  unfold scanInteger
  rw [takeWhile_isSpace_formatInteger]
  by_cases hsign : n < 0
  · rw [formatInteger, if_pos hsign]
    simp [hskip, hdigits, hvalue, hne, hsign, Nat.add_comm]
  · -- the first character is a digit, so there is no sign to skip
    obtain ⟨c, rest, hdecimal⟩ := List.exists_cons_of_ne_nil hne
    obtain ⟨d, hd, hc⟩ := exists_digit_of_mem_decimal (hdecimal ▸ List.mem_cons_self)
    have hunsigned : c ≠ 45 ∧ c ≠ 43 := by
      subst hc
      interval_cases d <;> decide
    rw [formatInteger, if_neg hsign]
    simp only [List.length_nil, List.drop_zero]
    split
    · simp_all
    · simp_all
    · simp [hskip, hdigits, hvalue, hne, hsign]

/-- Different integers are printed differently. -/
theorem formatInteger_injective : Function.Injective formatInteger := by
  intro m n h
  have hscan := congrArg scanInteger h
  rw [scanInteger_formatInteger, scanInteger_formatInteger, IntegerScan.mk.injEq] at hscan
  obtain ⟨hsign, hmagnitude, -⟩ := hscan
  rw [decide_eq_decide] at hsign
  omega

theorem strtoll_formatInteger {n : ℤ} (hmin : -2 ^ 63 ≤ n) :
    strtoll (formatInteger n) =
      if n < 2 ^ 63 then ⟨n, (formatInteger n).length, false⟩
      else ⟨2 ^ 63 - 1, (formatInteger n).length, true⟩ := by
  have hvalue : (if decide (n < 0) = true then -(n.natAbs : ℤ) else n.natAbs) = n := by
    by_cases hsign : n < 0
    · rw [if_pos (by simpa using hsign)]
      omega
    · rw [if_neg (by simpa using hsign)]
      omega
  rw [strtoll, scanInteger_formatInteger]
  simp only [hvalue]
  have hrange : IntegralType.longLong.min = -2 ^ 63 ∧
      IntegralType.longLong.max = 2 ^ 63 - 1 := ⟨rfl, rfl⟩
  rw [hrange.1, hrange.2, if_neg (by omega)]
  by_cases hmax : n < 2 ^ 63
  · rw [if_neg (by omega), if_pos hmax]
  · rw [if_pos (by omega), if_neg hmax]

theorem strtoull_formatInteger {n : ℤ} (hmin : 0 ≤ n) (hmax : n < 2 ^ 64) :
    strtoull (formatInteger n) = ⟨n, (formatInteger n).length, false⟩ := by
  rw [strtoull, scanInteger_formatInteger]
  simp only
  rw [if_neg (by omega), if_neg (by simpa using hmin)]
  congr 1
  omega

/-- The first character is a minus sign exactly for a negative integer. -/
theorem head?_formatInteger (n : ℤ) : (formatInteger n).head? = some 45 ↔ n < 0 := by
  rw [formatInteger]
  by_cases hsign : n < 0
  · simp [hsign]
  · obtain ⟨c, rest, hdecimal⟩ := List.exists_cons_of_ne_nil (decimal_ne_nil n.natAbs)
    obtain ⟨d, hd, rfl⟩ := exists_digit_of_mem_decimal (hdecimal ▸ List.mem_cons_self)
    have hdigit : digitCharacter d ≠ 45 := by
      interval_cases d <;> decide
    rw [if_neg hsign, hdecimal]
    simp [hsign, hdigit]

end EspressioCommand
