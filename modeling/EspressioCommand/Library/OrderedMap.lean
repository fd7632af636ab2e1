import Mathlib.Data.List.Nodup
import Mathlib.Data.List.Perm.Basic
import Mathlib.Data.List.Pairwise
import Mathlib.Order.Lattice
import Mathlib.Tactic.Push
import Mathlib.Tactic.Tauto
import Mathlib.Tactic.SplitIfs

/-!
# Ordered maps

A map held as the list of its entries in strictly increasing key order, as an
iteration over a `std::map` meets them.  The order is a field of the structure,
so a map cannot hold a key twice and two maps with the same entries are equal.

`emplace` inserts an entry unless its key is present.  `mem_emplaceAll` says what
a sequence of insertions leaves: for each key its first entry, the later ones
being dropped.  `emplaceAll_of_perm` is the loss-free case: inserting the entries
of a map, in any order, gives the map back.
-/

namespace EspressioCommand
namespace Library

/-- Entries in strictly increasing key order. -/
structure OrderedMap (κ ν : Type*) [LinearOrder κ] where
  entries : List (κ × ν)
  sorted : entries.Pairwise fun a b => a.1 < b.1

namespace OrderedMap

variable {κ ν : Type*} [LinearOrder κ]

/-- The map without entries. -/
def empty : OrderedMap κ ν := ⟨[], List.Pairwise.nil⟩

/-- Insert `(k, v)` at its place, unless an entry has the key already. -/
def emplaceEntries (k : κ) (v : ν) : List (κ × ν) → List (κ × ν)
  | [] => [(k, v)]
  | entry :: rest =>
      if k < entry.1 then (k, v) :: entry :: rest
      else if k = entry.1 then entry :: rest
      else entry :: emplaceEntries k v rest

/-- In a sorted list, insertion adds the entry exactly when its key is new. -/
theorem mem_emplaceEntries {k : κ} {v : ν} {l : List (κ × ν)}
    (hsorted : l.Pairwise fun a b => a.1 < b.1) (e : κ × ν) :
    e ∈ emplaceEntries k v l ↔ e ∈ l ∨ (e = (k, v) ∧ ∀ e' ∈ l, e'.1 ≠ k) := by
  induction l with
  | nil => simp [emplaceEntries]
  | cons entry rest ih =>
      obtain ⟨hhead, htail⟩ := List.pairwise_cons.mp hsorted
      rw [emplaceEntries]
      split_ifs with hlt heq
      · -- the new key precedes every key of the list
        have hnew : ∀ e' ∈ entry :: rest, e'.1 ≠ k := by
          intro e' he'
          rcases List.mem_cons.mp he' with rfl | hrest
          · exact hlt.ne'
          · exact (hlt.trans (hhead e' hrest)).ne'
        simp only [List.mem_cons] at hnew ⊢
        tauto
      · -- the key is there already, and nothing changes
        have hpresent : ¬ ∀ e' ∈ entry :: rest, e'.1 ≠ k := fun h =>
          h entry (by simp) heq.symm
        tauto
      · have hentry : entry.1 ≠ k := fun h => heq h.symm
        simp only [List.mem_cons, ih htail, forall_eq_or_imp]
        tauto

theorem sorted_emplaceEntries {k : κ} {v : ν} {l : List (κ × ν)}
    (hsorted : l.Pairwise fun a b => a.1 < b.1) :
    (emplaceEntries k v l).Pairwise fun a b => a.1 < b.1 := by
  induction l with
  | nil => simp [emplaceEntries]
  | cons entry rest ih =>
      obtain ⟨hhead, htail⟩ := List.pairwise_cons.mp hsorted
      rw [emplaceEntries]
      split_ifs with hlt heq
      · refine List.pairwise_cons.mpr ⟨?_, hsorted⟩
        intro e he
        rcases List.mem_cons.mp he with rfl | hrest
        · exact hlt
        · exact hlt.trans (hhead e hrest)
      · exact hsorted
      · refine List.pairwise_cons.mpr ⟨?_, ih htail⟩
        intro e he
        rcases (mem_emplaceEntries htail e).mp he with hrest | ⟨rfl, -⟩
        · exact hhead e hrest
        · exact lt_of_le_of_ne (not_lt.mp hlt) fun h => heq h.symm

/-- `std::map::emplace`: the entry is dropped when its key is present. -/
def emplace (m : OrderedMap κ ν) (k : κ) (v : ν) : OrderedMap κ ν :=
  ⟨emplaceEntries k v m.entries, sorted_emplaceEntries m.sorted⟩

/-- Insert the entries of a list one after the other. -/
def emplaceAll (m : OrderedMap κ ν) (l : List (κ × ν)) : OrderedMap κ ν :=
  l.foldl (fun m e => m.emplace e.1 e.2) m

@[simp] theorem emplaceAll_nil (m : OrderedMap κ ν) : m.emplaceAll [] = m := rfl

@[simp] theorem emplaceAll_cons (m : OrderedMap κ ν) (e : κ × ν) (l : List (κ × ν)) :
    m.emplaceAll (e :: l) = (m.emplace e.1 e.2).emplaceAll l := rfl

theorem nodup_keys (m : OrderedMap κ ν) : (m.entries.map Prod.fst).Nodup :=
  List.pairwise_map.mpr (m.sorted.imp ne_of_lt)

/-- No two entries of a map have the same key. -/
theorem eq_of_mem_of_key_eq (m : OrderedMap κ ν) {e e' : κ × ν} (he : e ∈ m.entries)
    (he' : e' ∈ m.entries) (hkey : e.1 = e'.1) : e = e' :=
  List.inj_on_of_nodup_map m.nodup_keys he he' hkey

/-- A search finds something where something qualifies. -/
theorem exists_find?_eq_some {α : Type*} {p : α → Bool} {l : List α} {x : α} (hx : x ∈ l)
    (hp : p x = true) : ∃ found, l.find? p = some found := by
  rw [← Option.isSome_iff_exists, List.find?_isSome]
  exact ⟨x, hx, hp⟩

/-- Searching for the key of an entry finds that entry. -/
theorem find?_key (m : OrderedMap κ ν) {e : κ × ν} (he : e ∈ m.entries)
    {p : κ × ν → Bool} (hp : ∀ e', p e' = true ↔ e'.1 = e.1) :
    m.entries.find? p = some e := by
  obtain ⟨found, hfound⟩ := exists_find?_eq_some he ((hp e).mpr rfl)
  have hkey : found.1 = e.1 := (hp found).mp (List.find?_some hfound)
  rw [hfound, m.eq_of_mem_of_key_eq (List.mem_of_find?_eq_some hfound) he hkey]

/-- Searching an ordered map finds the least key that qualifies. -/
theorem find?_eq_some_iff_least (m : OrderedMap κ ν) (p : κ → Bool) (e : κ × ν) :
    m.entries.find? (fun e' => p e'.1) = some e ↔
      e ∈ m.entries ∧ p e.1 = true ∧ ∀ e' ∈ m.entries, p e'.1 = true → e.1 ≤ e'.1 := by
  constructor
  · intro hfind
    have hqualifies : p e.1 = true := List.find?_some (p := fun e' : κ × ν => p e'.1) hfind
    refine ⟨List.mem_of_find?_eq_some hfind, hqualifies, fun e' he' hp => ?_⟩
    obtain ⟨-, before, after, hsplit, hbefore⟩ := List.find?_eq_some_iff_append.mp hfind
    have hsorted := m.sorted
    rw [hsplit] at he' hsorted
    rcases List.mem_append.mp he' with hmem | hmem
    · -- an entry before `e` does not qualify
      have hnot := hbefore e' hmem
      rw [hp] at hnot
      exact absurd hnot (by decide)
    · rcases List.mem_cons.mp hmem with rfl | hafter
      · exact le_refl _
      · have htail := (List.pairwise_append.mp hsorted).2.1
        exact ((List.pairwise_cons.mp htail).1 e' hafter).le
  · intro h
    obtain ⟨hmem, hp, hleast⟩ := h
    obtain ⟨found, hfound⟩ := exists_find?_eq_some (p := fun e' : κ × ν => p e'.1) hmem hp
    obtain ⟨-, before, after, hsplit, hbefore⟩ := List.find?_eq_some_iff_append.mp hfound
    have hqualifies : p found.1 = true :=
      List.find?_some (p := fun e' : κ × ν => p e'.1) hfound
    have hle : e.1 ≤ found.1 :=
      hleast found (List.mem_of_find?_eq_some hfound) hqualifies
    have hsorted := m.sorted
    rw [hsplit] at hmem hsorted
    -- the entry found is `e`: it is not behind it, and neither is `e` behind the least
    rcases List.mem_append.mp hmem with hearly | hlate
    · have hnot := hbefore e hearly
      rw [hp] at hnot
      exact absurd hnot (by decide)
    · rcases List.mem_cons.mp hlate with rfl | hafter
      · exact hfound
      · have htail := (List.pairwise_append.mp hsorted).2.1
        have hlt := (List.pairwise_cons.mp htail).1 e hafter
        exact absurd hle hlt.not_ge

theorem nodup_entries (m : OrderedMap κ ν) : m.entries.Nodup :=
  m.nodup_keys.of_map _

/-- Maps with the same entries are equal. -/
theorem ext_mem {m m' : OrderedMap κ ν} (h : ∀ e, e ∈ m.entries ↔ e ∈ m'.entries) :
    m = m' := by
  have hperm : m.entries.Perm m'.entries :=
    (List.perm_ext_iff_of_nodup m.nodup_entries m'.nodup_entries).mpr h
  have hentries : m.entries = m'.entries :=
    hperm.eq_of_pairwise (fun _ _ _ _ hab hba => absurd hba hab.asymm) m.sorted m'.sorted
  cases m
  cases m'
  simpa using hentries

/-- **What a sequence of insertions leaves.**  The old entries, and for each new
key the first of the inserted entries that has it. -/
theorem mem_emplaceAll (m : OrderedMap κ ν) (l : List (κ × ν)) (e : κ × ν) :
    e ∈ (m.emplaceAll l).entries ↔
      e ∈ m.entries ∨
        ((∀ e' ∈ m.entries, e'.1 ≠ e.1) ∧ l.find? (fun e' => e'.1 = e.1) = some e) := by
  induction l generalizing m with
  | nil => simp
  | cons head l ih =>
      rw [emplaceAll_cons, ih]
      simp only [emplace, mem_emplaceEntries m.sorted, List.find?_cons]
      by_cases hkey : head.1 = e.1
      · -- `head` decides the key of `e`, so no later entry does
        have hhead : ¬ ∀ e' : κ × ν, (e' ∈ m.entries ∨
            (e' = (head.1, head.2) ∧ ∀ e'' ∈ m.entries, e''.1 ≠ head.1)) → e'.1 ≠ e.1 := by
          intro hall
          by_cases hnew : ∀ e'' ∈ m.entries, e''.1 ≠ head.1
          · exact hall head (Or.inr ⟨rfl, hnew⟩) hkey
          · push Not at hnew
            obtain ⟨e'', he'', hkey''⟩ := hnew
            exact hall e'' (Or.inl he'') (hkey''.trans hkey)
        simp only [hkey] at hhead ⊢
        have hhead' : head = e ↔ e = (e.1, head.2) := by
          constructor
          · rintro rfl
            rfl
          · intro h
            rw [h, ← hkey]
        simp only [decide_true, Option.some.injEq, hhead']
        tauto
      · have hne : e ≠ (head.1, head.2) := fun h => hkey (congrArg Prod.fst h).symm
        have hall : (∀ e' : κ × ν, (e' ∈ m.entries ∨
            (e' = (head.1, head.2) ∧ ∀ e'' ∈ m.entries, e''.1 ≠ head.1)) → e'.1 ≠ e.1) ↔
            ∀ e' ∈ m.entries, e'.1 ≠ e.1 := by
          constructor
          · exact fun h e' he' => h e' (Or.inl he')
          · rintro h e' (he' | ⟨rfl, -⟩)
            · exact h e' he'
            · exact hkey
        simp only [hkey, decide_false, hne, hall]
        tauto

theorem mem_emplaceAll_empty (l : List (κ × ν)) (e : κ × ν) :
    e ∈ ((empty : OrderedMap κ ν).emplaceAll l).entries ↔
      l.find? (fun e' => e'.1 = e.1) = some e := by
  simp [mem_emplaceAll, empty]

/-- Entries with different keys are all kept. -/
theorem entries_emplaceAll_perm {l : List (κ × ν)} (hdistinct : (l.map Prod.fst).Nodup) :
    ((empty : OrderedMap κ ν).emplaceAll l).entries.Perm l := by
  refine (List.perm_ext_iff_of_nodup (nodup_entries _) hdistinct.of_map).mpr ?_
  intro e
  rw [mem_emplaceAll_empty]
  constructor
  · exact List.mem_of_find?_eq_some
  · intro he
    obtain ⟨found, hfound⟩ :=
      exists_find?_eq_some (p := fun e' : κ × ν => e'.1 = e.1) he (by simp)
    have hkey : found.1 = e.1 := by simpa using List.find?_some hfound
    have hmem := List.mem_of_find?_eq_some hfound
    rw [hfound, List.inj_on_of_nodup_map hdistinct hmem he hkey]

/-- Inserting entries one after the other keeps all their keys. -/
theorem exists_mem_emplaceAll_empty_iff (l : List (κ × ν)) (k : κ) :
    (∃ e ∈ ((empty : OrderedMap κ ν).emplaceAll l).entries, e.1 = k) ↔ ∃ e ∈ l, e.1 = k := by
  constructor
  · intro h
    obtain ⟨e, he, hkey⟩ := h
    exact ⟨e, List.mem_of_find?_eq_some ((mem_emplaceAll_empty l e).mp he), hkey⟩
  · intro h
    obtain ⟨e, he, rfl⟩ := h
    obtain ⟨found, hfound⟩ :=
      exists_find?_eq_some (p := fun e' : κ × ν => e'.1 = e.1) he (by simp)
    have hkey : found.1 = e.1 := by simpa using List.find?_some hfound
    exact ⟨found, (mem_emplaceAll_empty l found).mpr (by rw [hkey]; exact hfound), hkey⟩

/-- **Insertion without loss.**  The entries of a map, inserted in any order into
the empty map, give the map back. -/
theorem emplaceAll_of_perm {m : OrderedMap κ ν} {l : List (κ × ν)}
    (hperm : l.Perm m.entries) : (empty : OrderedMap κ ν).emplaceAll l = m := by
  refine ext_mem fun e => ?_
  rw [mem_emplaceAll_empty]
  constructor
  · intro hfind
    exact hperm.subset (List.mem_of_find?_eq_some hfind)
  · intro he
    obtain ⟨found, hfound⟩ :=
      exists_find?_eq_some (p := fun e' : κ × ν => e'.1 = e.1) (hperm.symm.subset he) (by simp)
    have hkey : found.1 = e.1 := by simpa using List.find?_some hfound
    have hmem : found ∈ m.entries := hperm.subset (List.mem_of_find?_eq_some hfound)
    rw [hfound, m.eq_of_mem_of_key_eq hmem he hkey]

end OrderedMap

end Library
end EspressioCommand
