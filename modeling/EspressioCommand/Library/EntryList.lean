import EspressioCommand.Library.PartialMap
import Mathlib.Data.List.Nodup
import Mathlib.Data.List.Basic

/-!
# Lists of entries under keys

A store that keeps its entries in a list, overwrites the entry of a key in place and puts
an entry with a new key at the end.  `entryAt` reads the list as a partial map, and
`entryAt_put` says that writing is `Function.update`.  That each key stands once
(`nodup_keys_put`) is what a search needs that asks for more than the key: it stops at the
first entry that passes, which is the only one to try (`find?_key_and`).
-/

namespace EspressioCommand
namespace Library

variable {ε κ : Type*} [DecidableEq κ] (key : ε → κ)

/-- Overwrite the first entry with the key of `new`, or put `new` at the end. -/
def put (new : ε) : List ε → List ε
  | [] => [new]
  | entry :: rest => if key entry = key new then new :: rest else entry :: put new rest

/-- The first entry of each key. -/
def entryAt (entries : List ε) : PartialMap κ ε :=
  fun k => entries.find? fun entry => key entry = k

/-- Writing does not move the keys that are there. -/
theorem keys_put (new : ε) (entries : List ε) :
    (put key new entries).map key =
      if key new ∈ entries.map key then entries.map key else entries.map key ++ [key new] := by
  induction entries with
  | nil => rfl
  | cons entry rest ih =>
      rw [put, List.map_cons]
      by_cases hkey : key entry = key new
      · rw [if_pos hkey, if_pos (hkey ▸ List.mem_cons_self), List.map_cons, hkey]
      · have hmem : key new ∈ key entry :: rest.map key ↔ key new ∈ rest.map key := by
          rw [List.mem_cons]
          exact or_iff_right fun h => hkey h.symm
        rw [if_neg hkey, List.map_cons, ih]
        split_ifs with hrest hall hall
        · rfl
        · exact absurd (hmem.mpr hrest) hall
        · exact absurd (hmem.mp hall) hrest
        · rfl

/-- **No key comes to stand twice.** -/
theorem nodup_keys_put {entries : List ε} (h : (entries.map key).Nodup) (new : ε) :
    ((put key new entries).map key).Nodup := by
  rw [keys_put]
  split_ifs with hmem
  · exact h
  · rw [← List.concat_eq_append]
    exact h.concat hmem

/-- **Writing is an update of the map.** -/
theorem entryAt_put (new : ε) (entries : List ε) :
    entryAt key (put key new entries) =
      Function.update (entryAt key entries) (key new) (some new) := by
  ext k : 1
  induction entries with
  | nil =>
      by_cases hk : k = key new
      · subst hk
        simp [entryAt, put]
      · rw [Function.update_of_ne hk]
        simp [entryAt, put, Ne.symm hk]
  | cons entry rest ih =>
      rw [put]
      by_cases hk : k = key new
      · subst hk
        rw [Function.update_self] at ih ⊢
        split_ifs with hkey
        · simp [entryAt]
        · rw [entryAt, List.find?_cons_of_neg (by simpa using hkey)]
          exact ih
      · rw [Function.update_of_ne hk] at ih ⊢
        split_ifs with hkey
        · -- the entry that is overwritten has another key as well
          rw [entryAt, entryAt, List.find?_cons_of_neg (by simpa using Ne.symm hk),
            List.find?_cons_of_neg (by simpa [hkey] using Ne.symm hk)]
        · by_cases hentry : key entry = k
          · rw [entryAt, entryAt, List.find?_cons_of_pos (by simpa using hentry),
              List.find?_cons_of_pos (by simpa using hentry)]
          · rw [entryAt, entryAt, List.find?_cons_of_neg (by simpa using hentry),
              List.find?_cons_of_neg (by simpa using hentry)]
            exact ih

/-- Where each key stands once, a search for a key and a property finds the entry of the key
or nothing. -/
theorem find?_key_and {entries : List ε} (h : (entries.map key).Nodup) (k : κ) (p : ε → Bool) :
    (entries.find? fun entry => key entry = k ∧ p entry = true) =
      (entryAt key entries k).filter p := by
  induction entries with
  | nil => rfl
  | cons entry rest ih =>
      rw [List.map_cons, List.nodup_cons] at h
      rw [entryAt]
      by_cases hkey : key entry = k
      · -- no later entry has the key
        have hrest : ∀ other ∈ rest, ¬ key other = k := by
          intro other hother hsame
          rw [← hkey] at hsame
          exact h.1 (hsame ▸ List.mem_map_of_mem hother)
        have hfirst : ((entry :: rest).find? fun other => key other = k) = some entry :=
          List.find?_cons_of_pos (by simpa using hkey)
        rw [hfirst, Option.filter_some]
        split_ifs with hp
        · exact List.find?_cons_of_pos (by simpa using ⟨hkey, hp⟩)
        · rw [List.find?_cons_of_neg (by simpa [hkey] using hp), List.find?_eq_none]
          intro other hother
          simpa using fun hsame => absurd hsame (hrest other hother)
      · have hskip : ((entry :: rest).find? fun other => key other = k) =
            rest.find? fun other => key other = k :=
          List.find?_cons_of_neg (by simpa using hkey)
        rw [hskip, List.find?_cons_of_neg (by simp [hkey])]
        exact ih h.2

end Library
end EspressioCommand
