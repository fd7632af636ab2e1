import Mathlib.Data.List.Perm.Basic
import Mathlib.Data.List.Nodup
import Mathlib.Tactic.Tauto

/-!
# Rose trees with first-match lookup

Finite ordered trees, and the walk that follows a list of keys from the root by
taking at each level the first child that answers to the key.  Which children
answer is a parameter `answers : α → κ → Bool`; each label also has a key of its
own, `key : α → κ`.

* `RoseTree.Occurs key names s t`: `s` is found in `t` below labels with the keys `names`.
* `RoseTree.clearThroughout_iff_walk_eq`: the walk along the own keys of every
  subtree finds that very subtree, exactly when no child anywhere answers to the
  own key of a later sibling.  One direction needs siblings to differ.
-/

namespace EspressioCommand
namespace Library

variable {α κ : Type*}

/-- A finite ordered tree with a label at every node. -/
inductive RoseTree (α : Type*) where
  | node (label : α) (children : List (RoseTree α))

namespace RoseTree

/-- The label of the root. -/
def label : RoseTree α → α
  | node a _ => a

/-- The subtrees directly below the root. -/
def children : RoseTree α → List (RoseTree α)
  | node _ cs => cs

@[simp] theorem label_node (a : α) (cs : List (RoseTree α)) : (node a cs).label = a := rfl

@[simp] theorem children_node (a : α) (cs : List (RoseTree α)) : (node a cs).children = cs := rfl

@[simp] theorem node_label_children (t : RoseTree α) : node t.label t.children = t := by
  cases t
  rfl

/-- A property inherited from the children holds of every tree. -/
@[elab_as_elim]
theorem inductionOn {motive : RoseTree α → Prop} (t : RoseTree α)
    (node : ∀ a cs, (∀ c ∈ cs, motive c) → motive (node a cs)) : motive t := by
  refine RoseTree.rec (motive_1 := motive) (motive_2 := fun cs => ∀ c ∈ cs, motive c)
    (fun a cs ih => node a cs ih) (by simp) (fun c cs ihc ihcs => ?_) t
  simpa using ⟨ihc, ihcs⟩

/-! ### Subtrees and walks -/

/-- `Subtree s t`: `s` is `t` or below it. -/
inductive Subtree : RoseTree α → RoseTree α → Prop
  | refl (t : RoseTree α) : Subtree t t
  | child {s c t : RoseTree α} (hc : c ∈ t.children) (hs : Subtree s c) : Subtree s t

/-- `Occurs key names s t`: `s` is below `t`, and `names` are the own keys of
the labels on the way down, that of `s` last. -/
inductive Occurs (key : α → κ) : List κ → RoseTree α → RoseTree α → Prop
  | here (t : RoseTree α) : Occurs key [] t t
  | child {names : List κ} {s c t : RoseTree α} (hc : c ∈ t.children)
      (hs : Occurs key names s c) : Occurs key (key c.label :: names) s t

theorem Subtree.trans {r s t : RoseTree α} (hrs : Subtree r s) (hst : Subtree s t) :
    Subtree r t := by
  induction hst with
  | refl => exact hrs
  | child hc _ ih => exact Subtree.child hc ih

theorem Subtree.occurs (key : α → κ) {s t : RoseTree α} (h : Subtree s t) :
    ∃ names, Occurs key names s t := by
  induction h with
  | refl => exact ⟨[], Occurs.here _⟩
  | child hc _ ih =>
      obtain ⟨names, hnames⟩ := ih
      exact ⟨_, Occurs.child hc hnames⟩

theorem Occurs.snoc {key : α → κ} {names : List κ} {s t c : RoseTree α}
    (h : Occurs key names s t) (hc : c ∈ s.children) :
    Occurs key (names ++ [key c.label]) c t := by
  induction h with
  | here t => exact Occurs.child hc (Occurs.here c)
  | child hmem _ ih => exact Occurs.child hmem (ih hc)

mutual

/-- The subtrees of a tree, itself first. -/
def subtrees : RoseTree α → List (RoseTree α)
  | node a cs => node a cs :: subtreesForest cs

/-- The subtrees of the trees of a forest. -/
def subtreesForest : List (RoseTree α) → List (RoseTree α)
  | [] => []
  | c :: cs => subtrees c ++ subtreesForest cs

end

theorem mem_subtreesForest {s : RoseTree α} {cs : List (RoseTree α)} :
    s ∈ subtreesForest cs ↔ ∃ c ∈ cs, s ∈ subtrees c := by
  induction cs with
  | nil => simp [subtreesForest]
  | cons c cs ih => simp [subtreesForest, ih]

theorem mem_subtrees_iff {s t : RoseTree α} : s ∈ t.subtrees ↔ Subtree s t := by
  induction t using inductionOn with
  | node a cs ih =>
      rw [subtrees, List.mem_cons, mem_subtreesForest]
      constructor
      · rintro (rfl | ⟨c, hc, hs⟩)
        · exact Subtree.refl _
        · exact Subtree.child hc ((ih c hc).mp hs)
      · intro h
        cases h with
        | refl => exact Or.inl rfl
        | child hc hs => exact Or.inr ⟨_, hc, (ih _ hc).mpr hs⟩

instance decidableForallSubtree {P : RoseTree α → Prop} [DecidablePred P] (t : RoseTree α) :
    Decidable (∀ r, Subtree r t → P r) :=
  decidable_of_iff (∀ r ∈ t.subtrees, P r) <| by
    simp only [mem_subtrees_iff]

/-- The first child that answers to `k`. -/
def firstAnswer (answers : α → κ → Bool) (t : RoseTree α) (k : κ) : Option (RoseTree α) :=
  t.children.find? fun c => answers c.label k

/-- Follow a list of keys, taking the first child that answers at each level. -/
def walk (answers : α → κ → Bool) : RoseTree α → List κ → Option (RoseTree α)
  | t, [] => some t
  | t, k :: ks =>
      match t.firstAnswer answers k with
      | none => none
      | some c => walk answers c ks

@[simp] theorem walk_nil (answers : α → κ → Bool) (t : RoseTree α) :
    t.walk answers [] = some t := rfl

theorem walk_cons (answers : α → κ → Bool) (t : RoseTree α) (k : κ) (ks : List κ) :
    t.walk answers (k :: ks) = (t.firstAnswer answers k).bind fun c => c.walk answers ks := by
  rw [walk]
  cases t.firstAnswer answers k <;> rfl

theorem walk_append (answers : α → κ → Bool) (t : RoseTree α) (ks ks' : List κ) :
    t.walk answers (ks ++ ks') = (t.walk answers ks).bind fun s => s.walk answers ks' := by
  induction ks generalizing t with
  | nil => rfl
  | cons k ks ih =>
      rw [List.cons_append, walk_cons, walk_cons]
      cases t.firstAnswer answers k with
      | none => rfl
      | some c => exact ih c

/-! ### When own keys lead home -/

/-- No child answers to the own key of a later sibling. -/
def Clear (answers : α → κ → Bool) (key : α → κ) (t : RoseTree α) : Prop :=
  t.children.Pairwise fun c d => answers c.label (key d.label) = false

/-- The same at every node of the tree. -/
def ClearThroughout (answers : α → κ → Bool) (key : α → κ) (t : RoseTree α) : Prop :=
  ∀ r, Subtree r t → r.Clear answers key

theorem ClearThroughout.subtree {answers : α → κ → Bool} {key : α → κ} {s t : RoseTree α}
    (h : t.ClearThroughout answers key) (hs : Subtree s t) : s.ClearThroughout answers key :=
  fun r hr => h r (hr.trans hs)

/-- A tree is clear throughout when its root and its children are. -/
theorem clearThroughout_iff {answers : α → κ → Bool} {key : α → κ} {t : RoseTree α} :
    t.ClearThroughout answers key ↔
      t.Clear answers key ∧ ∀ c ∈ t.children, c.ClearThroughout answers key := by
  constructor
  · intro h
    exact ⟨h t (Subtree.refl t), fun c hc => h.subtree (Subtree.child hc (Subtree.refl c))⟩
  · rintro ⟨hroot, hbelow⟩ r hr
    cases hr with
    | refl => exact hroot
    | child hc hs => exact hbelow _ hc r hs

/-- Every label answers to its own key. -/
def SelfAnswering (answers : α → κ → Bool) (key : α → κ) : Prop :=
  ∀ a, answers a (key a) = true

/-- Below a clear node, the own key of a child finds that child. -/
theorem firstAnswer_of_clear {answers : α → κ → Bool} {key : α → κ}
    (hself : SelfAnswering answers key) {t c : RoseTree α} (hclear : t.Clear answers key)
    (hc : c ∈ t.children) : t.firstAnswer answers (key c.label) = some c := by
  obtain ⟨before, after, hsplit⟩ := List.append_of_mem hc
  rw [Clear, hsplit, List.pairwise_append] at hclear
  rw [firstAnswer, hsplit, List.find?_append]
  have hnone : before.find? (fun d => answers d.label (key c.label)) = none := by
    simp only [List.find?_eq_none]
    intro d hd
    simp [hclear.2.2 d hd c (by simp)]
  simp [hnone, hself c.label]

/-- **Own keys lead home.**  In a tree that is clear throughout, the walk along
the own keys of a subtree ends at that subtree. -/
theorem walk_eq_of_clear {answers : α → κ → Bool} {key : α → κ}
    (hself : SelfAnswering answers key) {names : List κ} {s t : RoseTree α}
    (hclear : t.ClearThroughout answers key) (h : Occurs key names s t) :
    t.walk answers names = some s := by
  induction h with
  | here t => rfl
  | child hc _ ih =>
      rw [walk_cons, firstAnswer_of_clear hself (hclear _ (Subtree.refl _)) hc,
        Option.bind_some]
      exact ih (hclear.subtree (Subtree.child hc (Subtree.refl _)))

/-- Without equal siblings, a tree whose own keys all lead home is clear
throughout. -/
theorem clear_of_walk_eq {answers : α → κ → Bool} {key : α → κ} {t : RoseTree α}
    (hdistinct : ∀ r, Subtree r t → r.children.Nodup)
    (hhome : ∀ names s, Occurs key names s t → t.walk answers names = some s) :
    t.ClearThroughout answers key := by
  intro r hr
  obtain ⟨names, hnames⟩ := hr.occurs key
  refine List.pairwise_iff_getElem.mpr ?_
  intro i j hi hj hij
  by_contra hanswers
  -- the earlier child at `i` answers to the key of the child at `j`
  have hmem : r.children[j] ∈ r.children := List.getElem_mem hj
  have hwalk := hhome _ _ (hnames.snoc hmem)
  rw [walk_append, hhome _ _ hnames, Option.bind_some, walk_cons] at hwalk
  obtain ⟨c, hfound, hc⟩ := Option.bind_eq_some_iff.mp hwalk
  obtain rfl : c = r.children[j] := Option.some.inj hc
  obtain ⟨-, k, hk, hck, hbefore⟩ := List.find?_eq_some_iff_getElem.mp hfound
  have hkj : k = j :=
    ((hdistinct r hr).getElem_inj_iff).mp hck
  subst hkj
  have := hbefore i hij
  simp_all

/-- **Own keys lead home exactly in trees that are clear throughout**, provided
that siblings differ. -/
theorem clearThroughout_iff_walk_eq {answers : α → κ → Bool} {key : α → κ}
    (hself : SelfAnswering answers key) {t : RoseTree α}
    (hdistinct : ∀ r, Subtree r t → r.children.Nodup) :
    t.ClearThroughout answers key ↔
      ∀ names s, Occurs key names s t → t.walk answers names = some s :=
  ⟨fun hclear _ _ h => walk_eq_of_clear hself hclear h, clear_of_walk_eq hdistinct⟩

/-! ### Labels in preorder -/

mutual

/-- The labels of a tree, the root's first. -/
def labels : RoseTree α → List α
  | node a cs => a :: labelsForest cs

/-- The labels of a forest, tree by tree. -/
def labelsForest : List (RoseTree α) → List α
  | [] => []
  | c :: cs => labels c ++ labelsForest cs

end

theorem labelsForest_append (cs ds : List (RoseTree α)) :
    labelsForest (cs ++ ds) = labelsForest cs ++ labelsForest ds := by
  induction cs with
  | nil => rfl
  | cons c cs ih => simp [labelsForest, ih]

theorem labels_sublist_labelsForest {c : RoseTree α} {cs : List (RoseTree α)} (hc : c ∈ cs) :
    c.labels.Sublist (labelsForest cs) := by
  obtain ⟨before, after, rfl⟩ := List.append_of_mem hc
  rw [labelsForest_append, labelsForest]
  exact (List.sublist_append_left _ _).trans (List.sublist_append_right _ _)

theorem Subtree.labels_sublist {s t : RoseTree α} (h : Subtree s t) :
    s.labels.Sublist t.labels := by
  induction h with
  | refl => exact List.Sublist.refl _
  | @child c t hc _ ih =>
      cases t with
      | node a cs =>
          rw [labels]
          exact (ih.trans (labels_sublist_labelsForest hc)).trans (List.sublist_cons_self _ _)

theorem label_mem_labels (t : RoseTree α) : t.label ∈ t.labels := by
  cases t with
  | node a cs => simp [labels]

theorem Subtree.label_mem {s t : RoseTree α} (h : Subtree s t) : s.label ∈ t.labels :=
  h.labels_sublist.subset s.label_mem_labels

/-- The root labels of a forest are among its labels, in order. -/
theorem map_label_sublist_labelsForest (cs : List (RoseTree α)) :
    (cs.map label).Sublist (labelsForest cs) := by
  induction cs with
  | nil => exact List.Sublist.refl _
  | cons c cs ih =>
      cases c with
      | node a ds =>
          simp only [List.map_cons, label_node, labelsForest, labels, List.cons_append]
          exact (ih.trans (List.sublist_append_right _ _)).cons_cons _

end RoseTree

end Library
end EspressioCommand
