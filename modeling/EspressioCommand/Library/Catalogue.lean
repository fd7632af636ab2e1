import EspressioCommand.Library.TreeRemoval
import Mathlib.Data.List.Pairwise
import Mathlib.Data.Set.Basic

/-!
# Rose trees as sets of entries

What a tree stores, without the tree: its labels, each under the list of own keys that
leads to it.  `RoseTree.entries key t` is that set.  On any set of entries,
`Spells answers entries tokens names` says that the tokens are answered, level by level,
by entries under the names, `Finds` what a list of tokens leads to, and `remove` takes out
everything at and below that place.

* `finds_entries_iff`: the walk along a list of keys ends at what they find in the set.
* `entries_updateAt`, `entries_map`: how the set grows and changes with the tree.
* `entries_cut`: a cut takes out the entries that extend one list of names.

Siblings must not share keys.  A relation `shares` between labels says when they would,
and `ClearThroughout shares id` that they do not.
-/

namespace EspressioCommand
namespace Library

variable {α κ ι : Type*}

/-! ### Sets of entries -/

namespace Catalogue

/-- What is entered below the key `k`. -/
def below (entries : Set (List κ × α)) (k : κ) : Set (List κ × α) :=
  {entry | (k :: entry.1, entry.2) ∈ entries}

/-- At each level the token is answered by an entry under the name. -/
def Spells (answers : α → κ → Bool) : Set (List κ × α) → List κ → List κ → Prop
  | _, [], [] => True
  | entries, token :: tokens, name :: names =>
      (∃ a, ([name], a) ∈ entries ∧ answers a token = true) ∧
        Spells answers (below entries name) tokens names
  | _, _, _ => False

/-- `a` is entered under names that the tokens spell. -/
def Finds (answers : α → κ → Bool) (entries : Set (List κ × α)) (tokens : List κ) (a : α) :
    Prop :=
  ∃ names, Spells answers entries tokens names ∧ (names, a) ∈ entries

/-- The entries that do not extend the names. -/
def outside (entries : Set (List κ × α)) (names : List κ) : Set (List κ × α) :=
  {entry | entry ∈ entries ∧ ¬ names <+: entry.1}

theorem Spells.length_eq {answers : α → κ → Bool} {entries : Set (List κ × α)}
    {tokens names : List κ} (h : Spells answers entries tokens names) :
    tokens.length = names.length := by
  induction tokens generalizing entries names with
  | nil =>
      cases names with
      | nil => rfl
      | cons name names => cases h
  | cons token tokens ih =>
      cases names with
      | nil => cases h
      | cons name names =>
          rw [List.length_cons, List.length_cons, ih h.2]

end Catalogue

namespace RoseTree

open Catalogue

/-! ### The entries of a tree -/

/-- The labels of a tree, each with the own keys on the way to it. -/
def entries (key : α → κ) (t : RoseTree α) : Set (List κ × α) :=
  {entry | ∃ s, Occurs key entry.1 s t ∧ s.label = entry.2}

theorem nil_mem_entries {key : α → κ} {t : RoseTree α} {a : α} :
    ([], a) ∈ t.entries key ↔ t.label = a := by
  constructor
  · rintro ⟨s, hs, rfl⟩
    cases hs
    rfl
  · intro h
    exact ⟨t, Occurs.here t, h⟩

theorem cons_mem_entries {key : α → κ} {t : RoseTree α} {k : κ} {ks : List κ} {a : α} :
    (k :: ks, a) ∈ t.entries key ↔
      ∃ c ∈ t.children, key c.label = k ∧ (ks, a) ∈ c.entries key := by
  constructor
  · rintro ⟨s, hs, rfl⟩
    cases hs with
    | child hc hs => exact ⟨_, hc, rfl, s, hs, rfl⟩
  · rintro ⟨c, hc, rfl, s, hs, rfl⟩
    exact ⟨s, Occurs.child hc hs, rfl⟩

theorem singleton_mem_entries {key : α → κ} {t : RoseTree α} {k : κ} {a : α} :
    ([k], a) ∈ t.entries key ↔ ∃ c ∈ t.children, key c.label = k ∧ c.label = a := by
  rw [cons_mem_entries]
  simp only [nil_mem_entries]

theorem Occurs.subtree {key : α → κ} {names : List κ} {s t : RoseTree α}
    (h : Occurs key names s t) : Subtree s t := by
  induction h with
  | here t => exact Subtree.refl t
  | child hc _ ih => exact Subtree.child hc ih

/-- Below all names but the last stands the parent. -/
theorem Occurs.exists_parent {key : α → κ} {names : List κ} {k : κ} {s t : RoseTree α}
    (h : Occurs key (names ++ [k]) s t) :
    ∃ r, Occurs key names r t ∧ s ∈ r.children ∧ key s.label = k := by
  induction names generalizing t with
  | nil =>
      cases h with
      | child hc hs =>
          cases hs
          exact ⟨t, .here t, hc, rfl⟩
  | cons name names ih =>
      cases h with
      | child hc hs =>
          obtain ⟨r, hr, hparent⟩ := ih hs
          exact ⟨r, .child hc hr, hparent⟩

theorem mem_labels_of_mem_entries {key : α → κ} {t : RoseTree α} {ks : List κ} {a : α}
    (h : (ks, a) ∈ t.entries key) : a ∈ t.labels := by
  obtain ⟨s, hs, hlabel⟩ := h
  have hlabel : s.label = a := hlabel
  rw [← hlabel]
  exact hs.subtree.label_mem

theorem mem_labelsForest_iff {a : α} {cs : List (RoseTree α)} :
    a ∈ labelsForest cs ↔ ∃ c ∈ cs, a ∈ c.labels := by
  induction cs with
  | nil => simp [labelsForest]
  | cons c cs ih => simp [labelsForest, ih]

/-- Every label of a tree is entered somewhere. -/
theorem exists_occurs_of_mem_labels (key : α → κ) {t : RoseTree α} {a : α}
    (h : a ∈ t.labels) : ∃ names s, Occurs key names s t ∧ s.label = a := by
  induction t using inductionOn with
  | node b cs ih =>
      rw [labels] at h
      rcases List.mem_cons.mp h with rfl | hbelow
      · exact ⟨[], _, Occurs.here _, rfl⟩
      · obtain ⟨c, hc, ha⟩ := mem_labelsForest_iff.mp hbelow
        obtain ⟨names, s, hs, hlabel⟩ := ih c hc ha
        exact ⟨_, s, Occurs.child (t := node b cs) hc hs, hlabel⟩

/-- An entry other than the root's is the label of a tree of the forest below. -/
theorem mem_labelsForest_of_cons_mem_entries {key : α → κ} {t : RoseTree α} {k : κ}
    {ks : List κ} {a : α} (h : (k :: ks, a) ∈ t.entries key) :
    a ∈ labelsForest t.children := by
  obtain ⟨c, hc, -, hbelow⟩ := cons_mem_entries.mp h
  exact (labels_sublist_labelsForest hc).subset (mem_labels_of_mem_entries hbelow)

/-- Two trees of a forest that have a label in common are one. -/
theorem eq_of_mem_labels {identity : α → ι} {cs : List (RoseTree α)}
    (hforest : ((labelsForest cs).map identity).Nodup) {c c' : RoseTree α} (hc : c ∈ cs)
    (hc' : c' ∈ cs) {a b : α} (ha : a ∈ c.labels) (hb : b ∈ c'.labels)
    (heq : identity a = identity b) : c = c' := by
  induction cs with
  | nil => cases hc
  | cons d ds ih =>
      rw [labelsForest, List.map_append] at hforest
      obtain ⟨-, hrest, hapart⟩ := List.nodup_append.mp hforest
      rcases List.mem_cons.mp hc with rfl | hcs <;> rcases List.mem_cons.mp hc' with rfl | hcs'
      · rfl
      · have hbelow := (labels_sublist_labelsForest hcs').subset hb
        exact absurd heq (hapart _ (List.mem_map_of_mem ha) _ (List.mem_map_of_mem hbelow))
      · have hbelow := (labels_sublist_labelsForest hcs).subset ha
        exact absurd heq.symm (hapart _ (List.mem_map_of_mem hb) _ (List.mem_map_of_mem hbelow))
      · exact ih hrest hcs hcs'

theorem nodup_labelsForest {identity : α → ι} {t : RoseTree α}
    (hdistinct : (t.labels.map identity).Nodup) :
    ((labelsForest t.children).map identity).Nodup := by
  cases t with
  | node a cs =>
      rw [labels, List.map_cons, List.nodup_cons] at hdistinct
      exact hdistinct.2

/-- The root's label is none of those below it. -/
theorem identity_label_ne {identity : α → ι} {t : RoseTree α}
    (hdistinct : (t.labels.map identity).Nodup) {a : α} (ha : a ∈ labelsForest t.children) :
    identity t.label ≠ identity a := by
  cases t with
  | node b cs =>
      rw [labels, List.map_cons, List.nodup_cons] at hdistinct
      rintro heq
      rw [label_node] at heq
      exact hdistinct.1 (heq ▸ List.mem_map_of_mem ha)

/-- **One place for each identity.**  Where an identity tells the labels apart, it also
tells apart the names they are entered under. -/
theorem names_eq_of_identity_eq {key : α → κ} {identity : α → ι} {t : RoseTree α}
    (hdistinct : (t.labels.map identity).Nodup) {names names' : List κ} {a b : α}
    (ha : (names, a) ∈ t.entries key) (hb : (names', b) ∈ t.entries key)
    (heq : identity a = identity b) : names = names' := by
  induction names generalizing t names' with
  | nil =>
      obtain rfl := nil_mem_entries.mp ha
      cases names' with
      | nil => rfl
      | cons k ks =>
          have hb := mem_labelsForest_of_cons_mem_entries hb
          exact absurd heq (identity_label_ne hdistinct hb)
  | cons k ks ih =>
      cases names' with
      | nil =>
          obtain rfl := nil_mem_entries.mp hb
          have ha := mem_labelsForest_of_cons_mem_entries ha
          exact absurd heq.symm (identity_label_ne hdistinct ha)
      | cons k' ks' =>
          obtain ⟨c, hc, hkey, ha'⟩ := cons_mem_entries.mp ha
          obtain ⟨c', hc', hkey', hb'⟩ := cons_mem_entries.mp hb
          have hforest := nodup_labelsForest hdistinct
          obtain rfl := eq_of_mem_labels hforest hc hc' (mem_labels_of_mem_entries ha')
            (mem_labels_of_mem_entries hb') heq
          have hbelow := ((labels_sublist_labelsForest hc).map identity).nodup hforest
          rw [← hkey, ← hkey', ih hbelow ha' hb']

/-! ### Lookups -/

section Separated

variable {answers : α → κ → Bool} {key : α → κ} {shares : α → α → Bool} {t : RoseTree α}

/-- Two labels that answer to one key share it. -/
def Shares (answers : α → κ → Bool) (shares : α → α → Bool) : Prop :=
  ∀ a b k, answers a k = true → answers b k = true → shares a b = true

/-- Where siblings share no key, one child at most answers to a key. -/
theorem eq_of_answers (hshares : Shares answers shares) (hclear : t.Clear shares id)
    {c d : RoseTree α} {k : κ} (hc : c ∈ t.children) (hd : d ∈ t.children)
    (hck : answers c.label k = true) (hdk : answers d.label k = true) : c = d := by
  let Apart (c d : RoseTree α) : Prop :=
    ¬ (answers c.label k = true ∧ answers d.label k = true)
  have hsymm : Std.Symm Apart := ⟨fun _ _ h h' => h ⟨h'.2, h'.1⟩⟩
  have hapart : t.children.Pairwise Apart := by
    refine hclear.imp ?_
    rintro c d hcd ⟨hck, hdk⟩
    rw [id, hshares _ _ k hck hdk] at hcd
    cases hcd
  by_contra hne
  exact hapart.forall hc hd hne ⟨hck, hdk⟩

theorem eq_of_key_eq (hself : SelfAnswering answers key) (hshares : Shares answers shares)
    (hclear : t.Clear shares id) {c d : RoseTree α} (hc : c ∈ t.children)
    (hd : d ∈ t.children) (heq : key c.label = key d.label) : c = d :=
  eq_of_answers hshares hclear hc hd (hself c.label) (heq ▸ hself d.label)

/-- Below the key of a child the entries are those of the child. -/
theorem below_entries (hself : SelfAnswering answers key) (hshares : Shares answers shares)
    (hclear : t.Clear shares id) {c : RoseTree α} (hc : c ∈ t.children) :
    below (t.entries key) (key c.label) = c.entries key := by
  ext ⟨ks, a⟩
  show (key c.label :: ks, a) ∈ t.entries key ↔ _
  rw [cons_mem_entries]
  constructor
  · rintro ⟨d, hd, hkey, hbelow⟩
    rwa [eq_of_key_eq hself hshares hclear hc hd hkey.symm]
  · intro hbelow
    exact ⟨c, hc, rfl, hbelow⟩

/-- Below the names of a subtree the entries are those of the subtree. -/
theorem append_mem_entries (hself : SelfAnswering answers key) (hshares : Shares answers shares)
    (hclear : t.ClearThroughout shares id) {front back : List κ} {s : RoseTree α} {a : α}
    (hs : Occurs key front s t) :
    (front ++ back, a) ∈ t.entries key ↔ (back, a) ∈ s.entries key := by
  induction hs with
  | here t => rfl
  | @child names s c t hc _ ih =>
      obtain ⟨hroot, hbelow⟩ := clearThroughout_iff.mp hclear
      show (names ++ back, a) ∈ below (t.entries key) (key c.label) ↔ _
      rw [below_entries hself hshares hroot hc]
      exact ih (hbelow c hc)

theorem firstAnswer_eq_some_iff (hshares : Shares answers shares) (hclear : t.Clear shares id)
    {c : RoseTree α} {k : κ} :
    t.firstAnswer answers k = some c ↔ c ∈ t.children ∧ answers c.label k = true := by
  constructor
  · intro h
    exact ⟨List.mem_of_find?_eq_some h, by simpa using List.find?_some h⟩
  · rintro ⟨hc, hck⟩
    cases hfound : t.firstAnswer answers k with
    | none => exact absurd hck (by simpa using List.find?_eq_none.mp hfound c hc)
    | some d =>
        have hd := List.mem_of_find?_eq_some hfound
        have hdk : answers d.label k = true := by simpa using List.find?_some hfound
        rw [eq_of_answers hshares hclear hd hc hdk hck]

/-- **Lookups.**  Where siblings share no key, the walk along a list of keys ends at the
label that they find among the entries. -/
theorem finds_entries_iff (hself : SelfAnswering answers key) (hshares : Shares answers shares)
    (hclear : t.ClearThroughout shares id) {tokens : List κ} {a : α} :
    Finds answers (t.entries key) tokens a ↔
      (t.walk answers tokens).map label = some a := by
  induction tokens generalizing t with
  | nil =>
      rw [walk_nil, Option.map_some, Option.some.injEq]
      constructor
      · rintro ⟨names, hspells, ha⟩
        cases names with
        | nil => exact nil_mem_entries.mp ha
        | cons name names => cases hspells
      · intro ha
        exact ⟨[], trivial, nil_mem_entries.mpr ha⟩
  | cons token tokens ih =>
      obtain ⟨hroot, hbelow⟩ := clearThroughout_iff.mp hclear
      rw [walk_cons]
      constructor
      · rintro ⟨names, hspells, ha⟩
        cases names with
        | nil => cases hspells
        | cons name names =>
            obtain ⟨⟨b, hb, hanswers⟩, hspells⟩ := hspells
            obtain ⟨c, hc, rfl, rfl⟩ := singleton_mem_entries.mp hb
            rw [(firstAnswer_eq_some_iff hshares hroot).mpr ⟨hc, hanswers⟩, Option.bind_some]
            have hsub := below_entries hself hshares hroot hc
            rw [hsub] at hspells
            refine (ih (hbelow c hc)).mp ⟨names, hspells, ?_⟩
            rw [← hsub]
            exact ha
      · intro h
        obtain ⟨s, hs, rfl⟩ := Option.map_eq_some_iff.mp h
        obtain ⟨c, hfound, hwalk⟩ := Option.bind_eq_some_iff.mp hs
        obtain ⟨hc, hanswers⟩ := (firstAnswer_eq_some_iff hshares hroot).mp hfound
        obtain ⟨names, hspells, ha⟩ := (ih (hbelow c hc)).mpr (by rw [hwalk]; rfl)
        have hsub := below_entries hself hshares hroot hc
        refine ⟨key c.label :: names, ⟨⟨c.label, ?_, hanswers⟩, ?_⟩, ?_⟩
        · exact singleton_mem_entries.mpr ⟨c, hc, rfl, rfl⟩
        · rwa [hsub]
        · rw [← hsub] at ha
          exact ha

/-- Tokens spell one list of names at most. -/
theorem names_eq_of_spells (hself : SelfAnswering answers key) (hshares : Shares answers shares)
    (hclear : t.ClearThroughout shares id) {tokens names names' : List κ}
    (h : Spells answers (t.entries key) tokens names)
    (h' : Spells answers (t.entries key) tokens names') : names = names' := by
  induction tokens generalizing t names names' with
  | nil =>
      rw [List.length_eq_zero_iff.mp h.length_eq.symm,
        List.length_eq_zero_iff.mp h'.length_eq.symm]
  | cons token tokens ih =>
      obtain ⟨hroot, hbelow⟩ := clearThroughout_iff.mp hclear
      cases names with
      | nil => cases h
      | cons name names =>
          cases names' with
          | nil => cases h'
          | cons name' names' =>
              obtain ⟨⟨a, ha, hanswers⟩, h⟩ := h
              obtain ⟨⟨b, hb, hanswers'⟩, h'⟩ := h'
              obtain ⟨c, hc, rfl, rfl⟩ := singleton_mem_entries.mp ha
              obtain ⟨d, hd, rfl, rfl⟩ := singleton_mem_entries.mp hb
              obtain rfl := eq_of_answers hshares hroot hc hd hanswers hanswers'
              rw [below_entries hself hshares hroot hc] at h h'
              rw [ih (hbelow c hc) h h']

/-! ### Removals -/

/-- **Restrictions.**  An entry is left when no label on the way to it is taken out. -/
theorem mem_entries_without (hself : SelfAnswering answers key)
    (hshares : Shares answers shares) (hclear : t.ClearThroughout shares id) {p : α → Bool}
    {names : List κ} {a : α} :
    (names, a) ∈ (t.without p).entries key ↔ (names, a) ∈ t.entries key ∧
      ∀ front b, front ≠ [] → front <+: names → (front, b) ∈ t.entries key → p b = false := by
  induction names generalizing t with
  | nil =>
      rw [nil_mem_entries, nil_mem_entries, label_without]
      refine ⟨fun h => ⟨h, ?_⟩, fun h => h.1⟩
      intro front b hne hfront
      exact absurd (List.prefix_nil.mp hfront) hne
  | cons name names ih =>
      obtain ⟨hroot, hbelow⟩ := clearThroughout_iff.mp hclear
      rw [cons_mem_entries, cons_mem_entries, children_without, withoutForest_eq]
      constructor
      · rintro ⟨d, hd, rfl, ha⟩
        obtain ⟨c, hc, rfl⟩ := List.mem_map.mp hd
        obtain ⟨hc, hkept⟩ := List.mem_filter.mp hc
        obtain ⟨ha, hfronts⟩ := (ih (hbelow c hc)).mp ha
        rw [label_without]
        refine ⟨⟨c, hc, rfl, ha⟩, ?_⟩
        intro front b hne hfront hb
        cases front with
        | nil => exact absurd rfl hne
        | cons first front =>
            obtain ⟨rfl, hrest⟩ := List.cons_prefix_cons.mp hfront
            have hb : (front, b) ∈ below (t.entries key) (key c.label) := hb
            rw [below_entries hself hshares hroot hc] at hb
            by_cases hempty : front = []
            · subst hempty
              obtain rfl := nil_mem_entries.mp hb
              simpa using hkept
            · exact hfronts front b hempty hrest hb
      · rintro ⟨⟨c, hc, rfl, ha⟩, hfronts⟩
        have hsub := below_entries hself hshares hroot hc
        have hkept : p c.label = false := by
          refine hfronts [key c.label] c.label (List.cons_ne_nil _ _) ?_ ?_
          · exact List.cons_prefix_cons.mpr ⟨rfl, List.nil_prefix⟩
          · exact singleton_mem_entries.mpr ⟨c, hc, rfl, rfl⟩
        refine ⟨c.without p, ?_, by rw [label_without], (ih (hbelow c hc)).mpr ⟨ha, ?_⟩⟩
        · exact List.mem_map_of_mem (List.mem_filter.mpr ⟨hc, by simp [hkept]⟩)
        · intro front b hne hfront hb
          refine hfronts (key c.label :: front) b (List.cons_ne_nil _ _) ?_ ?_
          · exact List.cons_prefix_cons.mpr ⟨rfl, hfront⟩
          · show (front, b) ∈ below (t.entries key) (key c.label)
            rwa [hsub]

/-- **Cuts.**  They take out the entries that extend the names of what is cut. -/
theorem entries_cut [DecidableEq ι] {identity : α → ι} (hself : SelfAnswering answers key)
    (hshares : Shares answers shares) (hclear : t.ClearThroughout shares id)
    (hdistinct : (t.labels.map identity).Nodup) {s t' : RoseTree α} (hcut : Cut s t t')
    {names : List κ} (hnames : (names, s.label) ∈ t.entries key) :
    t'.entries key = outside (t.entries key) names := by
  have hne : names ≠ [] := by
    rintro rfl
    exact identity_label_ne hdistinct hcut.label_mem
      (congrArg identity (nil_mem_entries.mp hnames))
  rw [hcut.eq_without hdistinct]
  ext ⟨ks, a⟩
  rw [mem_entries_without hself hshares hclear]
  refine and_congr_right fun _ => ?_
  constructor
  · intro h hprefix
    simpa using h names s.label hne hprefix hnames
  · intro h front b _ hfront hb
    -- an entry with the identity of what is cut has its names
    rw [beq_eq_false_iff_ne]
    intro heq
    rw [names_eq_of_identity_eq hdistinct hb hnames heq] at hfront
    exact h hfront

end Separated

/-! ### Additions and changes -/

/-- Relabelling keeps the names when it keeps the keys. -/
theorem entries_map {key : α → κ} {g : α → α} (hkey : ∀ a, key (g a) = key a)
    (t : RoseTree α) :
    (t.map g).entries key = (fun entry => (entry.1, g entry.2)) '' t.entries key := by
  have hmem (ks : List κ) (b : α) : (ks, b) ∈ (t.map g).entries key ↔
      ∃ a, (ks, a) ∈ t.entries key ∧ g a = b := by
    induction ks generalizing t with
    | nil =>
        simp only [nil_mem_entries, label_map]
        constructor
        · rintro rfl
          exact ⟨_, rfl, rfl⟩
        · rintro ⟨a, rfl, rfl⟩
          rfl
    | cons k ks ih =>
        simp only [cons_mem_entries, children_map]
        constructor
        · rintro ⟨d, hd, rfl, hb⟩
          obtain ⟨c, hc, rfl⟩ := List.mem_map.mp hd
          obtain ⟨a, ha, rfl⟩ := (ih c).mp hb
          exact ⟨a, ⟨c, hc, by rw [label_map, hkey], ha⟩, rfl⟩
        · rintro ⟨a, ⟨c, hc, rfl, ha⟩, rfl⟩
          exact ⟨c.map g, List.mem_map_of_mem hc, by rw [label_map, hkey],
            (ih c).mpr ⟨a, ha, rfl⟩⟩
  ext ⟨ks, b⟩
  rw [hmem]
  constructor
  · rintro ⟨a, ha, rfl⟩
    exact ⟨(ks, a), ha, rfl⟩
  · rintro ⟨⟨ks, a⟩, ha, heq⟩
    cases heq
    exact ⟨a, ha, rfl⟩

/-- Above a target of an update there is no other, where at most one label is one. -/
theorem neg_of_mem_labelsForest {p : α → Bool} {t : RoseTree α}
    (hone : t.labels.countP p ≤ 1) {a : α} (ha : a ∈ labelsForest t.children)
    (hp : p a = true) : p t.label = false := by
  cases t with
  | node b cs =>
      rw [labels, List.countP_cons] at hone
      have hpos : 0 < (labelsForest cs).countP p := List.countP_pos_iff.mpr ⟨a, ha, hp⟩
      by_contra hb
      rw [label_node, Bool.not_eq_false] at hb
      rw [if_pos hb] at hone
      omega

theorem countP_labels_le_one {p : α → Bool} {t c : RoseTree α}
    (hone : t.labels.countP p ≤ 1) (hc : c ∈ t.children) : c.labels.countP p ≤ 1 :=
  ((Subtree.child hc (Subtree.refl c)).labels_sublist.countP_le).trans hone

/-- **Updates that add.**  When `f` adds `extra s` to the entries of its target `s`, an
update adds them below the names of `s`. -/
theorem mem_entries_updateAt {key : α → κ} {p : α → Bool} {f : RoseTree α → RoseTree α}
    {extra : RoseTree α → Set (List κ × α)} (hlabel : ∀ s, (f s).label = s.label)
    (hf : ∀ s, (f s).entries key = s.entries key ∪ extra s) {t : RoseTree α}
    (hone : t.labels.countP p ≤ 1) {ks : List κ} {b : α} :
    (ks, b) ∈ (t.updateAt p f).entries key ↔ (ks, b) ∈ t.entries key ∨
      ∃ front back s, Occurs key front s t ∧ p s.label = true ∧ ks = front ++ back ∧
        (back, b) ∈ extra s := by
  induction t using inductionOn generalizing ks with
  | node a cs ih =>
      cases hp : p a with
      | true =>
          rw [updateAt_of_pos f (t := node a cs) hp, hf, Set.mem_union]
          refine or_congr_right ⟨?_, ?_⟩
          · intro h
            exact ⟨[], ks, node a cs, Occurs.here _, hp, rfl, h⟩
          · rintro ⟨front, back, s, hs, hps, rfl, h⟩
            cases hs with
            | here => exact h
            | @child names _ c _ hc hs =>
                -- a second target below the root
                have hentry : (key c.label :: names, s.label) ∈ (node a cs).entries key :=
                  ⟨s, Occurs.child hc hs, rfl⟩
                have hroot := neg_of_mem_labelsForest hone
                  (mem_labelsForest_of_cons_mem_entries hentry) hps
                rw [label_node, hp] at hroot
                cases hroot
      | false =>
          rw [updateAt_of_neg f (t := node a cs) hp]
          cases ks with
          | nil =>
              rw [nil_mem_entries, nil_mem_entries, label_node]
              refine ⟨Or.inl, ?_⟩
              rintro (h | ⟨front, back, s, hs, hps, hnil, -⟩)
              · exact h
              · obtain ⟨rfl, rfl⟩ := List.append_eq_nil_iff.mp hnil.symm
                cases hs
                rw [label_node, hp] at hps
                cases hps
          | cons k ks =>
              rw [cons_mem_entries, cons_mem_entries]
              constructor
              · rintro ⟨d, hd, rfl, hb⟩
                obtain ⟨c, hc, rfl⟩ := List.mem_map.mp hd
                rw [label_updateAt hlabel]
                rcases (ih c hc (countP_labels_le_one hone hc)).mp hb with
                  hold | ⟨front, back, s, hs, hps, rfl, hnew⟩
                · exact Or.inl ⟨c, hc, rfl, hold⟩
                · exact Or.inr ⟨key c.label :: front, back, s, Occurs.child hc hs, hps, rfl, hnew⟩
              · rintro (⟨c, hc, rfl, hb⟩ | ⟨front, back, s, hs, hps, heq, hnew⟩)
                · refine ⟨updateAt p f c, List.mem_map_of_mem hc, ?_, ?_⟩
                  · rw [label_updateAt hlabel]
                  · exact (ih c hc (countP_labels_le_one hone hc)).mpr (Or.inl hb)
                · cases hs with
                  | here =>
                      rw [label_node, hp] at hps
                      cases hps
                  | @child names _ c _ hc hs =>
                      obtain ⟨rfl, rfl⟩ := List.cons_eq_cons.mp heq
                      refine ⟨updateAt p f c, List.mem_map_of_mem hc, ?_, ?_⟩
                      · rw [label_updateAt hlabel]
                      · exact (ih c hc (countP_labels_le_one hone hc)).mpr
                          (Or.inr ⟨names, back, s, hs, hps, rfl, hnew⟩)

/-- Where the target of an update is below one child, the other children stay. -/
theorem updateAt_split {p : α → Bool} (f : RoseTree α → RoseTree α) {s t c : RoseTree α}
    (hone : t.labels.countP p ≤ 1) (hc : c ∈ t.children) (hs : Subtree s c)
    (hp : p s.label = true) :
    ∃ before after, t = node t.label (before ++ c :: after) ∧
      updateAt p f t = node t.label (before ++ updateAt p f c :: after) := by
  obtain ⟨before, after, hsplit⟩ := List.append_of_mem hc
  have hroot : p t.label = false :=
    neg_of_mem_labelsForest hone ((labels_sublist_labelsForest hc).subset hs.label_mem) hp
  have hcount : (labelsForest before).countP p + (c.labels.countP p +
      (labelsForest after).countP p) ≤ 1 := by
    cases t with
    | node a cs =>
        obtain rfl : cs = before ++ c :: after := hsplit
        rw [labels, List.countP_cons, labelsForest_append, labelsForest, List.countP_append,
          List.countP_append] at hone
        omega
  have hpos : 0 < c.labels.countP p := List.countP_pos_iff.mpr ⟨s.label, hs.label_mem, hp⟩
  have hkeep (ds : List (RoseTree α)) (hds : (labelsForest ds).countP p = 0) :
      ds.map (updateAt p f) = ds := by
    refine (List.map_congr_left fun d hd => ?_).trans (List.map_id _)
    apply updateAt_of_forall_neg
    intro b hb
    simpa using List.countP_eq_zero.mp hds b ((labels_sublist_labelsForest hd).subset hb)
  refine ⟨before, after, ?_, ?_⟩
  · rw [← hsplit, node_label_children]
  · rw [updateAt_of_neg f hroot, hsplit, List.map_append, List.map_cons,
      hkeep before (by omega), hkeep after (by omega)]

/-- An update that leaves its target as it is leaves the tree as it is. -/
theorem updateAt_eq_self {p : α → Bool} {f : RoseTree α → RoseTree α} {s t : RoseTree α}
    (hone : t.labels.countP p ≤ 1) (hs : Subtree s t) (hp : p s.label = true)
    (hf : f s = s) : updateAt p f t = t := by
  induction hs with
  | refl => rw [updateAt_of_pos f hp, hf]
  | @child c t hc hs ih =>
      obtain ⟨before, after, hold, hnew⟩ := updateAt_split f hone hc hs hp
      rw [hnew, ih (countP_labels_le_one hone hc), ← hold]

/-- An update that cuts below its target cuts below the root. -/
theorem cut_updateAt {p : α → Bool} {f : RoseTree α → RoseTree α} {r s t : RoseTree α}
    (hone : t.labels.countP p ≤ 1) (hs : Subtree s t) (hp : p s.label = true)
    (hf : Cut r s (f s)) : Cut r t (updateAt p f t) := by
  induction hs with
  | refl => rwa [updateAt_of_pos f hp]
  | @child c t hc hs ih =>
      obtain ⟨before, after, hold, hnew⟩ := updateAt_split f hone hc hs hp
      have hbelow := ih (countP_labels_le_one hone hc)
      rw [hnew]
      have hcut := Cut.inside t.label before after hbelow
      rwa [← hold] at hcut

end RoseTree
end Library
end EspressioCommand
