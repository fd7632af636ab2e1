import EspressioCommand.Library.EditDistance
import EspressioCommand.Registry.Help

/-!
# `Distance` and `Suggest`

`Distance` keeps one row of the table of prefix distances and overwrites it from left
to right.  In the middle of a pass the entries up to `previous` belong to the new row,
those from `old` on to the old one, and `diagonal` is the old entry that was overwritten
last.  `rowFrom` is the part of a row to the right of such a position, and
`distanceRow_rowFrom` says that the inner loop turns the rest of the old row into the
rest of the new one.

The table is about prefixes, so its entries are distances of reversed lists.
-/

namespace EspressioCommand
namespace CommandRegistry

open Library

variable {σ : Type}

/-! ### The row of `Distance` -/

/-- The entries of the row of `left` behind the column of `done`; both prefixes are
written backwards. -/
def rowFrom (left : CommandString) : CommandString → CommandString → List ℕ
  | _, [] => []
  | done, r :: right => editDistance left (r :: done) :: rowFrom left (r :: done) right

/-- **The inner loop.**  With the last new entry in `previous` and the old one above it in
`diagonal`, the rest of the old row becomes the rest of the new row. -/
theorem distanceRow_rowFrom (letter : UInt8) (left done right : CommandString) :
    distanceRow letter (editDistance (letter :: left) done) (editDistance left done) right
        (rowFrom left done right) =
      rowFrom (letter :: left) done right := by
  induction right generalizing done with
  | nil => rfl
  | cons r right ih =>
      have hcell : min (min (editDistance (letter :: left) done + 1)
          (editDistance left (r :: done) + 1))
          (editDistance left done + if letter = r then 0 else 1) =
            editDistance (letter :: left) (r :: done) :=
        (editDistance_cons_cons letter r left done).symm
      rw [rowFrom, distanceRow, hcell, ih (r :: done)]
      rfl

/-- **The outer loop.**  From the row of the letters already read to the row of all. -/
theorem distanceRows_rowFrom (right left done : CommandString) :
    distanceRows right (done.length + 1) left (done.length :: rowFrom done [] right) =
      (left.reverse ++ done).length :: rowFrom (left.reverse ++ done) [] right := by
  induction left generalizing done with
  | nil => rfl
  | cons letter left ih =>
      have hinner := distanceRow_rowFrom letter done [] right
      rw [editDistance_nil_right, editDistance_nil_right] at hinner
      have hrest := ih (letter :: done)
      rw [List.length_cons] at hinner hrest
      rw [distanceRows, hinner, hrest, List.reverse_cons, List.append_assoc]
      rfl

/-- The first row counts the letters of `right`. -/
theorem rowFrom_nil (done right : CommandString) :
    rowFrom [] done right = List.range' (done.length + 1) right.length := by
  induction right generalizing done with
  | nil => rfl
  | cons r right ih =>
      rw [rowFrom, ih, editDistance_nil_left, List.length_cons, List.length_cons,
        List.range'_succ]

/-- The last entry of a row is that of the whole of `right`. -/
theorem getLastD_rowFrom (left done right : CommandString) :
    (rowFrom left done right).getLastD (editDistance left done) =
      editDistance left (right.reverse ++ done) := by
  induction right generalizing done with
  | nil => rfl
  | cons r right ih =>
      rw [rowFrom, List.getLastD_cons, ih, List.reverse_cons, List.append_assoc]
      rfl

/-- The single row computes the recurrence. -/
theorem distance_eq (left right : CommandString) :
    distance left right = editDistance left right := by
  have hfirst : List.range (right.length + 1) =
      ([] : CommandString).length :: rowFrom [] [] right := by
    rw [rowFrom_nil, List.range_eq_range', List.range'_succ]
    rfl
  have hloop := distanceRows_rowFrom right left []
  have hlast := getLastD_rowFrom left.reverse [] right
  rw [List.length_nil, List.append_nil] at hloop
  rw [editDistance_nil_right, List.append_nil, editDistance_reverse] at hlast
  rw [distance, hfirst, List.length_nil, hloop, List.getLastD_cons, hlast]

/-- **`Distance` is the least number of edits.** -/
theorem isLeast_distance (left right : CommandString) :
    IsLeast {n | EditsTo n left right} (distance left right) := by
  rw [distance_eq]
  exact isLeast_editDistance left right

/-! ### The search of `Suggest` -/

/-- `best` is the first of the children whose names are nearest to the token, and `edits`
is how near. -/
def FirstNearest (children : List (CommandNode σ)) (token : CommandString)
    (best : CommandNode σ) (edits : ℕ) : Prop :=
  ∃ before after, children = before ++ best :: after ∧
    IsLeast {n | EditsTo n best.label.name token} edits ∧
    (∀ child ∈ before, ∀ n, EditsTo n child.label.name token → edits < n) ∧
    ∀ child ∈ after, ∀ n, EditsTo n child.label.name token → edits ≤ n

/-- The loop invariant: no child was seen, or the best of those seen is kept. -/
def KeepsNearest (token : CommandString) (seen : List (CommandNode σ)) :
    Option (CommandNode σ × ℕ) → Prop
  | none => seen = []
  | some (best, score) => FirstNearest seen token best score

/-- One pass of the loop, at a child that is nearer than all before it. -/
theorem FirstNearest.of_nearer {token : CommandString} {seen : List (CommandNode σ)}
    {best child : CommandNode σ} {edits : ℕ} (h : FirstNearest seen token best edits)
    (hless : distance child.label.name token < edits) :
    FirstNearest (seen ++ [child]) token child (distance child.label.name token) := by
  obtain ⟨before, after, rfl, hleast, hbefore, hafter⟩ := h
  refine ⟨before ++ best :: after, [], rfl, isLeast_distance _ _, ?_, by simp⟩
  intro other hother n hn
  rw [List.mem_append, List.mem_cons] at hother
  obtain hother | rfl | hother := hother
  · exact lt_trans hless (hbefore other hother n hn)
  · exact lt_of_lt_of_le hless (hleast.2 hn)
  · exact lt_of_lt_of_le hless (hafter other hother n hn)

/-- One pass of the loop, at a child that is no nearer than the best. -/
theorem FirstNearest.of_not_nearer {token : CommandString} {seen : List (CommandNode σ)}
    {best child : CommandNode σ} {edits : ℕ} (h : FirstNearest seen token best edits)
    (hless : ¬ distance child.label.name token < edits) :
    FirstNearest (seen ++ [child]) token best edits := by
  obtain ⟨before, after, rfl, hleast, hbefore, hafter⟩ := h
  refine ⟨before, after ++ [child], by simp, hleast, hbefore, ?_⟩
  intro other hother n hn
  rw [List.mem_append, List.mem_singleton] at hother
  obtain hother | rfl := hother
  · exact hafter other hother n hn
  · have hchild := (isLeast_distance other.label.name token).2 hn
    omega

/-- The loop keeps the nearest child. -/
theorem keepsNearest_bestMatch {token : CommandString} (children : List (CommandNode σ))
    {seen : List (CommandNode σ)} {best : Option (CommandNode σ × ℕ)}
    (h : KeepsNearest token seen best) :
    KeepsNearest token (seen ++ children) (bestMatch token best children) := by
  induction children generalizing seen best with
  | nil =>
      rw [List.append_nil, bestMatch]
      exact h
  | cons child rest ih =>
      rw [List.append_cons]
      cases best with
      | none =>
          obtain rfl : seen = [] := h
          apply @ih _ (some (child, distance child.label.name token))
          exact ⟨[], [], rfl, isLeast_distance _ _, by simp, by simp⟩
      | some kept =>
          obtain ⟨node, least⟩ := kept
          rw [bestMatch]
          split_ifs with hless
          · exact ih (FirstNearest.of_nearer h hless)
          · exact ih (FirstNearest.of_not_nearer h hless)

/-- **`Distance` and `Suggest`.**  The single row computes the least number of insertions,
deletions and substitutions between two texts; and the suggestion names the first of the
nearest children, when it is near enough, and nothing otherwise. -/
theorem distance_and_suggest :
    (∀ left right : CommandString, IsLeast {n | EditsTo n left right} (distance left right)) ∧
      ∀ (node : CommandNode σ) (token : CommandString),
        (node.children = [] ∧ suggest node token = []) ∨
          ∃ best edits, FirstNearest node.children token best edits ∧
            suggest node token =
              if edits ≤ max 2 (token.length / 2) then
                text "Did you mean '" ++ best.label.name ++ text "'?"
              else [] := by
  refine ⟨isLeast_distance, ?_⟩
  intro node token
  have hloop := @keepsNearest_bestMatch σ token node.children [] none rfl
  rw [List.nil_append] at hloop
  cases hbest : bestMatch token none node.children with
  | none =>
      rw [hbest] at hloop
      exact Or.inl ⟨hloop, by rw [suggest, hbest]⟩
  | some kept =>
      obtain ⟨best, score⟩ := kept
      rw [hbest] at hloop
      refine Or.inr ⟨best, score, hloop, ?_⟩
      rw [suggest, hbest]
      by_cases hnear : score ≤ max 2 (token.length / 2)
      · simp [hnear, Nat.not_lt.mpr hnear]
      · simp [hnear, Nat.lt_of_not_le hnear]

end CommandRegistry
end EspressioCommand
