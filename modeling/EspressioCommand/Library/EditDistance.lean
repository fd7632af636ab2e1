import Mathlib.Data.List.Basic
import Mathlib.Order.Bounds.Basic
import Mathlib.Order.MinMax

/-!
# Edit distance

An *edit* inserts, deletes or substitutes a single element anywhere in a list.
`EditsTo n xs ys` says that `n` edits, one after another, turn `xs` into `ys`.

`editDistance` is the recurrence over the first elements of two lists.  The two
meet in `Aligned`, a derivation that pays for each column in which the lists
differ: an edit can be pushed into an alignment at the price of one, and the
recurrence takes the cheapest last rule.  `isLeast_editDistance` is the result.
-/

namespace EspressioCommand
namespace Library

variable {α : Type*}

/-- A single element is inserted, deleted or substituted. -/
inductive Edit : List α → List α → Prop
  | insert (before after : List α) (a : α) : Edit (before ++ after) (before ++ a :: after)
  | delete (before after : List α) (a : α) : Edit (before ++ a :: after) (before ++ after)
  | substitute (before after : List α) (a b : α) :
      Edit (before ++ a :: after) (before ++ b :: after)

/-- That many edits in a row lead from one list to the other. -/
inductive EditsTo : ℕ → List α → List α → Prop
  | done (xs : List α) : EditsTo 0 xs xs
  | step {n : ℕ} {xs ys zs : List α} (hedit : Edit xs ys) (hrest : EditsTo n ys zs) :
      EditsTo (n + 1) xs zs

/-- Two lists laid side by side, with the number of columns in which they differ. -/
inductive Aligned : ℕ → List α → List α → Prop
  | nil : Aligned 0 [] []
  | keep {n : ℕ} {xs ys : List α} (a : α) (hrest : Aligned n xs ys) :
      Aligned n (a :: xs) (a :: ys)
  | insert {n : ℕ} {xs ys : List α} (b : α) (hrest : Aligned n xs ys) :
      Aligned (n + 1) xs (b :: ys)
  | delete {n : ℕ} {xs ys : List α} (a : α) (hrest : Aligned n xs ys) :
      Aligned (n + 1) (a :: xs) ys
  | substitute {n : ℕ} {xs ys : List α} (a b : α) (hrest : Aligned n xs ys) :
      Aligned (n + 1) (a :: xs) (b :: ys)

/-! ### Edits -/

/-- An edit is at the front, or behind a first element that it leaves alone. -/
theorem Edit.front_or_behind {xs ys : List α} (h : Edit xs ys) :
    (∃ a, ys = a :: xs) ∨ (∃ a, xs = a :: ys) ∨
      (∃ a b rest, xs = a :: rest ∧ ys = b :: rest) ∨
      ∃ c xs' ys', xs = c :: xs' ∧ ys = c :: ys' ∧ Edit xs' ys' := by
  cases h with
  | insert before after a =>
      cases before with
      | nil => exact Or.inl ⟨a, rfl⟩
      | cons c before => exact Or.inr (Or.inr (Or.inr ⟨c, _, _, rfl, rfl, .insert before after a⟩))
  | delete before after a =>
      cases before with
      | nil => exact Or.inr (Or.inl ⟨a, rfl⟩)
      | cons c before => exact Or.inr (Or.inr (Or.inr ⟨c, _, _, rfl, rfl, .delete before after a⟩))
  | substitute before after a b =>
      cases before with
      | nil => exact Or.inr (Or.inr (Or.inl ⟨a, b, after, rfl, rfl⟩))
      | cons c before =>
          exact Or.inr (Or.inr (Or.inr ⟨c, _, _, rfl, rfl, .substitute before after a b⟩))

theorem Edit.behind {xs ys : List α} (h : Edit xs ys) (c : α) : Edit (c :: xs) (c :: ys) := by
  cases h with
  | insert before after a => exact .insert (c :: before) after a
  | delete before after a => exact .delete (c :: before) after a
  | substitute before after a b => exact .substitute (c :: before) after a b

theorem Edit.reverse {xs ys : List α} (h : Edit xs ys) : Edit xs.reverse ys.reverse := by
  cases h with
  | insert before after a => simpa using Edit.insert after.reverse before.reverse a
  | delete before after a => simpa using Edit.delete after.reverse before.reverse a
  | substitute before after a b => simpa using Edit.substitute after.reverse before.reverse a b

theorem EditsTo.behind {n : ℕ} {xs ys : List α} (h : EditsTo n xs ys) (c : α) :
    EditsTo n (c :: xs) (c :: ys) := by
  induction h with
  | done xs => exact .done (c :: xs)
  | step hedit _ ih => exact .step (hedit.behind c) ih

theorem EditsTo.reverse {n : ℕ} {xs ys : List α} (h : EditsTo n xs ys) :
    EditsTo n xs.reverse ys.reverse := by
  induction h with
  | done xs => exact .done xs.reverse
  | step hedit _ ih => exact .step hedit.reverse ih

/-- Reading both lists from the other end changes nothing. -/
theorem editsTo_reverse_iff {n : ℕ} {xs ys : List α} :
    EditsTo n xs.reverse ys.reverse ↔ EditsTo n xs ys := by
  constructor
  · intro h
    simpa using h.reverse
  · exact EditsTo.reverse

/-! ### Alignments -/

theorem Aligned.refl (xs : List α) : Aligned 0 xs xs := by
  induction xs with
  | nil => exact .nil
  | cons a xs ih => exact .keep a ih

/-- An alignment, read column by column, is a sequence of edits. -/
theorem Aligned.editsTo {n : ℕ} {xs ys : List α} (h : Aligned n xs ys) : EditsTo n xs ys := by
  induction h with
  | nil => exact .done []
  | keep a _ ih => exact ih.behind a
  | @insert n xs ys b _ ih => exact .step (.insert [] xs b) (ih.behind b)
  | @delete n xs ys a _ ih => exact .step (.delete [] xs a) ih
  | @substitute n xs ys a b _ ih => exact .step (.substitute [] xs a b) (ih.behind b)

/-- **Pushing an edit into an alignment** costs at most one column. -/
theorem Aligned.of_edit {n : ℕ} {xs ys zs : List α} (hedit : Edit xs ys)
    (h : Aligned n ys zs) : ∃ m, m ≤ n + 1 ∧ Aligned m xs zs := by
  -- the induction follows the alignment; an edit behind the first column goes on into the rest
  induction h generalizing xs with
  | nil =>
      obtain ⟨a, h⟩ | ⟨a, rfl⟩ | ⟨a, b, rest, -, h⟩ | ⟨c, xs', ys', -, h, -⟩ :=
        hedit.front_or_behind
      · cases h
      · exact ⟨1, le_refl 1, .delete a .nil⟩
      · cases h
      · cases h
  | @keep n ys zs c hrest ih =>
      obtain ⟨a, h⟩ | ⟨a, rfl⟩ | ⟨a, b, rest, rfl, h⟩ | ⟨c', xs', ys', rfl, h, hedit'⟩ :=
        hedit.front_or_behind
      · cases h
        exact ⟨n + 1, le_refl _, .insert c hrest⟩
      · exact ⟨n + 1, le_refl _, .delete a (.keep c hrest)⟩
      · cases h
        exact ⟨n + 1, le_refl _, .substitute a c hrest⟩
      · cases h
        obtain ⟨m, hm, haligned⟩ := ih hedit'
        exact ⟨m, hm, .keep c haligned⟩
  | @insert n ys zs b _ ih =>
      obtain ⟨m, hm, haligned⟩ := ih hedit
      exact ⟨m + 1, by omega, .insert b haligned⟩
  | @delete n ys zs c hrest ih =>
      obtain ⟨a, h⟩ | ⟨a, rfl⟩ | ⟨a, b, rest, rfl, h⟩ | ⟨c', xs', ys', rfl, h, hedit'⟩ :=
        hedit.front_or_behind
      · cases h
        exact ⟨n, by omega, hrest⟩
      · exact ⟨n + 2, le_refl _, .delete a (.delete c hrest)⟩
      · cases h
        exact ⟨n + 1, by omega, .delete a hrest⟩
      · cases h
        obtain ⟨m, hm, haligned⟩ := ih hedit'
        exact ⟨m + 1, by omega, .delete c haligned⟩
  | @substitute n ys zs c d hrest ih =>
      obtain ⟨a, h⟩ | ⟨a, rfl⟩ | ⟨a, b, rest, rfl, h⟩ | ⟨c', xs', ys', rfl, h, hedit'⟩ :=
        hedit.front_or_behind
      · cases h
        exact ⟨n + 1, by omega, .insert d hrest⟩
      · exact ⟨n + 2, le_refl _, .delete a (.substitute c d hrest)⟩
      · cases h
        exact ⟨n + 1, by omega, .substitute a d hrest⟩
      · cases h
        obtain ⟨m, hm, haligned⟩ := ih hedit'
        exact ⟨m + 1, by omega, .substitute c d haligned⟩

/-- A sequence of edits is matched by an alignment that is no dearer. -/
theorem EditsTo.exists_aligned {n : ℕ} {xs ys : List α} (h : EditsTo n xs ys) :
    ∃ m, m ≤ n ∧ Aligned m xs ys := by
  induction h with
  | done xs => exact ⟨0, le_refl 0, .refl xs⟩
  | @step n xs ys zs hedit _ ih =>
      obtain ⟨m, hm, haligned⟩ := ih
      obtain ⟨k, hk, haligned'⟩ := haligned.of_edit hedit
      exact ⟨k, by omega, haligned'⟩

/-! ### The recurrence -/

variable [DecidableEq α]

/-- The distance, by the first elements of the two lists. -/
def editDistance : List α → List α → ℕ
  | [], ys => ys.length
  | x :: xs, [] => (x :: xs).length
  | x :: xs, y :: ys =>
      min (min (editDistance (x :: xs) ys + 1) (editDistance xs (y :: ys) + 1))
        (editDistance xs ys + if x = y then 0 else 1)
termination_by xs ys => xs.length + ys.length

@[simp] theorem editDistance_nil_left (ys : List α) : editDistance [] ys = ys.length := by
  rw [editDistance]

@[simp] theorem editDistance_nil_right (xs : List α) : editDistance xs [] = xs.length := by
  cases xs with
  | nil => rw [editDistance_nil_left]
  | cons x xs => rw [editDistance]

theorem editDistance_cons_cons (x y : α) (xs ys : List α) :
    editDistance (x :: xs) (y :: ys) =
      min (min (editDistance (x :: xs) ys + 1) (editDistance xs (y :: ys) + 1))
        (editDistance xs ys + if x = y then 0 else 1) := by
  rw [editDistance]

/-- One more element on the right costs at most one. -/
theorem editDistance_cons_right_le (xs ys : List α) (b : α) :
    editDistance xs (b :: ys) ≤ editDistance xs ys + 1 := by
  cases xs with
  | nil => simp
  | cons x xs =>
      rw [editDistance_cons_cons]
      omega

/-- One more element on the left costs at most one. -/
theorem editDistance_cons_left_le (xs ys : List α) (a : α) :
    editDistance (a :: xs) ys ≤ editDistance xs ys + 1 := by
  cases ys with
  | nil => simp
  | cons y ys =>
      rw [editDistance_cons_cons]
      omega

/-- No alignment is cheaper than the recurrence. -/
theorem Aligned.editDistance_le {n : ℕ} {xs ys : List α} (h : Aligned n xs ys) :
    editDistance xs ys ≤ n := by
  induction h with
  | nil => simp
  | keep a _ ih =>
      rw [editDistance_cons_cons, if_pos rfl]
      omega
  | @insert n xs ys b _ ih =>
      have hstep := editDistance_cons_right_le xs ys b
      omega
  | @delete n xs ys a _ ih =>
      have hstep := editDistance_cons_left_le xs ys a
      omega
  | @substitute n xs ys a b _ ih =>
      rw [editDistance_cons_cons]
      split_ifs <;> omega

/-- The recurrence is the cost of an alignment. -/
theorem aligned_editDistance (xs ys : List α) : Aligned (editDistance xs ys) xs ys := by
  induction xs, ys using editDistance.induct with
  | case1 ys =>
      rw [editDistance_nil_left]
      induction ys with
      | nil => exact .nil
      | cons y ys ih => exact .insert y ih
  | case2 x xs =>
      rw [editDistance_nil_right]
      induction x :: xs with
      | nil => exact .nil
      | cons x xs ih => exact .delete x ih
  | case3 x xs y ys hinsert hdelete hdiagonal =>
      rw [editDistance_cons_cons]
      -- the minimum is one of its three arguments, and each has its rule
      rcases min_choice (min (editDistance (x :: xs) ys + 1) (editDistance xs (y :: ys) + 1))
        (editDistance xs ys + if x = y then 0 else 1) with h | h
      · rw [h]
        rcases min_choice (editDistance (x :: xs) ys + 1) (editDistance xs (y :: ys) + 1)
          with h | h
        · rw [h]
          exact .insert y hinsert
        · rw [h]
          exact .delete x hdelete
      · rw [h]
        by_cases hxy : x = y
        · subst hxy
          rw [if_pos rfl]
          exact .keep x hdiagonal
        · rw [if_neg hxy]
          exact .substitute x y hdiagonal

/-- **The recurrence computes the least number of edits.** -/
theorem isLeast_editDistance (xs ys : List α) :
    IsLeast {n | EditsTo n xs ys} (editDistance xs ys) := by
  constructor
  · exact (aligned_editDistance xs ys).editsTo
  · intro n hn
    obtain ⟨m, hm, haligned⟩ := hn.exists_aligned
    exact le_trans haligned.editDistance_le hm

/-- The distance is the same from either end. -/
theorem editDistance_reverse (xs ys : List α) :
    editDistance xs.reverse ys.reverse = editDistance xs ys := by
  have hreverse := isLeast_editDistance xs.reverse ys.reverse
  simp only [editsTo_reverse_iff] at hreverse
  exact hreverse.unique (isLeast_editDistance xs ys)

end Library
end EspressioCommand
