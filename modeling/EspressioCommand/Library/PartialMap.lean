import Mathlib.Data.Set.Card
import Mathlib.Data.Finset.Card

/-!
# Partial maps

Finite contents of a store, as a function to `Option`.  A map has a domain and a
size; a store that keeps a list of the present keys without repetition has as many
of them as the size of its map (`PartialMap.size_eq_length`).
-/

namespace EspressioCommand
namespace Library

/-- A map from keys to values, undefined at `none`. -/
abbrev PartialMap (κ ν : Type*) := κ → Option ν

namespace PartialMap

variable {κ ν : Type*}

/-- The keys that have a value. -/
def domain (m : PartialMap κ ν) : Set κ := {k | m k ≠ none}

/-- How many keys have a value; zero when there are infinitely many. -/
noncomputable def size (m : PartialMap κ ν) : ℕ := m.domain.ncard

/-- The map without entries. -/
def empty : PartialMap κ ν := fun _ => none

/-- Counting a set along a list of its members without repetition. -/
theorem ncard_eq_length {s : Set κ} {keys : List κ} (hnodup : keys.Nodup)
    (hmem : ∀ k, k ∈ keys ↔ k ∈ s) : s.ncard = keys.length := by
  classical
  have hset : s = ↑keys.toFinset := by
    ext k
    simp [hmem k]
  rw [hset, Set.ncard_coe_finset, List.toFinset_card_of_nodup hnodup]

/-- **The size of a listed map.**  A list of the present keys without repetition is
as long as the map is large. -/
theorem size_eq_length {m : PartialMap κ ν} {keys : List κ} (hnodup : keys.Nodup)
    (hmem : ∀ k, k ∈ keys ↔ m k ≠ none) : m.size = keys.length :=
  ncard_eq_length hnodup hmem

section Update

variable [DecidableEq κ] {m : PartialMap κ ν} {k other : κ} {v found : ν}

/-- What an updated map holds: the new entry, and the old ones under other keys. -/
theorem update_some_eq_some_iff :
    Function.update m k (some v) other = some found ↔
      other = k ∧ v = found ∨ other ≠ k ∧ m other = some found := by
  by_cases hother : other = k
  · subst hother
    simp
  · rw [Function.update_of_ne hother]
    simp [hother]

/-- What is left when a key is struck out: the entries under other keys. -/
theorem update_none_eq_some_iff :
    Function.update m k none other = some found ↔ other ≠ k ∧ m other = some found := by
  by_cases hother : other = k
  · subst hother
    simp
  · rw [Function.update_of_ne hother]
    simp [hother]

end Update

end PartialMap

end Library
end EspressioCommand
