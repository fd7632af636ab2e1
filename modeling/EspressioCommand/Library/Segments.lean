import Mathlib.Data.List.Basic

/-!
# Segments of a list

A separator cuts a list into segments.  All but the last are ended by a separator
(`terminated`); the last is what follows the last separator (`unterminated`).  The lemmas
say how the two change when one element is put at the end.
-/

namespace EspressioCommand
namespace Library

variable {α : Type*} [DecidableEq α]

/-- The segments that a separator ends. -/
def terminated (separator : α) (xs : List α) : List (List α) :=
  (xs.splitOn separator).dropLast

/-- What follows the last separator. -/
def unterminated (separator : α) (xs : List α) : List α :=
  (xs.splitOn separator).getLastD []

@[simp] theorem terminated_nil (separator : α) : terminated separator [] = [] := by
  rw [terminated, List.splitOn_nil]
  rfl

@[simp] theorem unterminated_nil (separator : α) : unterminated separator [] = [] := by
  rw [unterminated, List.splitOn_nil]
  rfl

theorem splitOn_eq (separator : α) (xs : List α) :
    xs.splitOn separator = terminated separator xs ++ [unterminated separator xs] := by
  have hne := List.splitOn_ne_nil separator xs
  rw [terminated, unterminated, List.getLastD_eq_getLast?, List.getLast?_eq_some_getLast hne,
    Option.getD_some, List.dropLast_append_getLast]

theorem eq_of_splitOn_eq {separator : α} {xs : List α} {segments : List (List α)}
    {last : List α} (h : xs.splitOn separator = segments ++ [last]) :
    terminated separator xs = segments ∧ unterminated separator xs = last := by
  rw [splitOn_eq] at h
  obtain ⟨hsegments, hlast⟩ := List.append_inj' h rfl
  exact ⟨hsegments, List.singleton_inj.mp hlast⟩

/-- A separator at the end ends the last segment. -/
theorem splitOn_concat_self (separator : α) (xs : List α) :
    (xs ++ [separator]).splitOn separator =
      terminated separator xs ++ [unterminated separator xs] ++ [[]] := by
  rw [List.splitOn_append_cons_self, List.splitOn_nil, splitOn_eq]

/-- Any other element is put at the end of the last segment. -/
theorem splitOn_concat_of_ne {separator c : α} (h : c ≠ separator) (xs : List α) :
    (xs ++ [c]).splitOn separator =
      terminated separator xs ++ [unterminated separator xs ++ [c]] := by
  induction xs with
  | nil =>
      rw [List.nil_append, List.splitOn_eq_singleton (by simpa using h.symm), terminated_nil,
        unterminated_nil]
      rfl
  | cons x xs ih =>
      have hsplit := List.splitOn_cons_eq_if_modifyHead (a := separator) x xs
      rw [List.cons_append, List.splitOn_cons_eq_if_modifyHead, ih]
      rw [splitOn_eq separator xs] at hsplit
      by_cases hx : x = separator
      · rw [if_pos (by simpa using hx)] at hsplit ⊢
        have hcut : (x :: xs).splitOn separator =
            ([] :: terminated separator xs) ++ [unterminated separator xs] := hsplit
        obtain ⟨hfront, hback⟩ := eq_of_splitOn_eq hcut
        rw [hfront, hback]
        rfl
      · rw [if_neg (by simpa using hx)] at hsplit ⊢
        cases hsegments : terminated separator xs with
        | nil =>
            rw [hsegments] at hsplit
            have hcut : (x :: xs).splitOn separator =
                [] ++ [x :: unterminated separator xs] := hsplit
            obtain ⟨hfront, hback⟩ := eq_of_splitOn_eq hcut
            rw [hfront, hback]
            rfl
        | cons segment segments =>
            rw [hsegments] at hsplit
            have hcut : (x :: xs).splitOn separator =
                ((x :: segment) :: segments) ++ [unterminated separator xs] := hsplit
            obtain ⟨hfront, hback⟩ := eq_of_splitOn_eq hcut
            rw [hfront, hback]
            rfl

@[simp] theorem terminated_concat_self (separator : α) (xs : List α) :
    terminated separator (xs ++ [separator]) =
      terminated separator xs ++ [unterminated separator xs] :=
  (eq_of_splitOn_eq (splitOn_concat_self separator xs)).1

@[simp] theorem unterminated_concat_self (separator : α) (xs : List α) :
    unterminated separator (xs ++ [separator]) = [] :=
  (eq_of_splitOn_eq (splitOn_concat_self separator xs)).2

theorem terminated_concat_of_ne {separator c : α} (h : c ≠ separator) (xs : List α) :
    terminated separator (xs ++ [c]) = terminated separator xs :=
  (eq_of_splitOn_eq (splitOn_concat_of_ne h xs)).1

theorem unterminated_concat_of_ne {separator c : α} (h : c ≠ separator) (xs : List α) :
    unterminated separator (xs ++ [c]) = unterminated separator xs ++ [c] :=
  (eq_of_splitOn_eq (splitOn_concat_of_ne h xs)).2

/-- Segments without a separator in them are read back from the list they make. -/
theorem terminated_flatMap {separator : α} {segments : List (List α)}
    (h : ∀ segment ∈ segments, separator ∉ segment) :
    terminated separator (segments.flatMap fun segment => segment ++ [separator]) = segments := by
  have hsplit : (segments.flatMap fun segment => segment ++ [separator]).splitOn separator =
      segments ++ [[]] := by
    induction segments with
    | nil => rw [List.flatMap_nil, List.splitOn_nil, List.nil_append]
    | cons segment segments ih =>
        rw [List.forall_mem_cons] at h
        rw [List.flatMap_cons, List.append_assoc, List.singleton_append,
          List.splitOn_append_cons_self, List.splitOn_eq_singleton h.1, ih h.2]
        rfl
  exact (eq_of_splitOn_eq hsplit).1

end Library
end EspressioCommand
