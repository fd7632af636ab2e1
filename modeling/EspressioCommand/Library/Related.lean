import Mathlib.Data.List.Forall2

/-!
# Searches in related lists

Two lists that are related element by element, `List.Forall₂ R`, are searched alike: what is
found in them, by a test or by a position, is `Option.Rel R`.
-/

namespace EspressioCommand
namespace Library

variable {α β : Type*} {R : α → β → Prop}

/-- Related options are both empty or hold related elements. -/
theorem rel_cases {x : Option α} {y : Option β} (h : Option.Rel R x y) :
    (x = none ∧ y = none) ∨ ∃ a b, x = some a ∧ y = some b ∧ R a b := by
  cases h with
  | none => exact Or.inl ⟨rfl, rfl⟩
  | some hab => exact Or.inr ⟨_, _, rfl, rfl, hab⟩

theorem getElem?_related {xs : List α} {ys : List β} (h : List.Forall₂ R xs ys) (i : ℕ) :
    Option.Rel R xs[i]? ys[i]? := by
  induction h generalizing i with
  | nil => exact .none
  | cons hhead _ ih =>
      cases i with
      | zero => exact .some hhead
      | succ i => exact ih i

/-- What stands at a position of the first list is related to what stands there in the
second. -/
theorem exists_getElem?_of_left {xs : List α} {ys : List β} (h : List.Forall₂ R xs ys) {i : ℕ}
    {a : α} (ha : xs[i]? = some a) : ∃ b, ys[i]? = some b ∧ R a b := by
  have hi := getElem?_related h i
  rw [ha] at hi
  generalize ys[i]? = y at hi
  cases hi with
  | some hab => exact ⟨_, rfl, hab⟩

theorem exists_getElem?_of_right {xs : List α} {ys : List β} (h : List.Forall₂ R xs ys) {i : ℕ}
    {b : β} (hb : ys[i]? = some b) : ∃ a, xs[i]? = some a ∧ R a b := by
  have hi := getElem?_related h i
  rw [hb] at hi
  generalize xs[i]? = x at hi
  cases hi with
  | some hab => exact ⟨_, rfl, hab⟩

/-- Such a test holds of as many of the one as of the other. -/
theorem countP_related {p : α → Bool} {q : β → Bool} (hpq : ∀ a b, R a b → p a = q b)
    {xs : List α} {ys : List β} (h : List.Forall₂ R xs ys) : xs.countP p = ys.countP q := by
  induction h with
  | nil => rfl
  | @cons a b _ _ hhead _ ih => rw [List.countP_cons, List.countP_cons, ih, hpq a b hhead]

/-- Lists with the same images are related by having the same image. -/
theorem forall₂_of_map_eq {γ : Type*} {f : α → γ} {g : β → γ} {xs : List α} {ys : List β}
    (h : xs.map f = ys.map g) : List.Forall₂ (fun a b => f a = g b) xs ys := by
  rw [← List.forall₂_eq_eq_eq, List.forall₂_map_left_iff, List.forall₂_map_right_iff] at h
  exact h

end Library
end EspressioCommand
