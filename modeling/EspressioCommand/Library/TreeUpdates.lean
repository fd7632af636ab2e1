import EspressioCommand.Library.RoseTree
import Mathlib.Data.List.Perm.Subperm

/-!
# Changing rose trees

Four ways to change a tree, and what each does to its labels and to the walks in it.

* `RoseTree.map g` relabels every node.
* `RoseTree.updateAt p f` applies `f` to the topmost subtrees whose label satisfies `p`.
* `RoseTree.updateAlong answers f t ks` applies `f` to the subtree where the walk
  along `ks` ends, and fails when the walk or `f` does.
* `Pruning s t`: `s` is `t` after the removal of some subtrees.  Both kinds of
  update prune when `f` does (`updateAt_pruning`, `updateAlong_pruning`), and a pruned
  tree has fewer labels (`Pruning.labels_sublist`) and is clear where the old one was
  (`Pruning.clearThroughout`).
-/

namespace EspressioCommand
namespace Library

variable {α β κ : Type*}

/-- Erasing the first match takes what a search finds out of its place. -/
theorem exists_eraseP_eq_append {p : α → Bool} {xs : List α} {x : α}
    (hfound : xs.find? p = some x) :
    ∃ before after, xs = before ++ x :: after ∧ xs.eraseP p = before ++ after := by
  obtain ⟨hx, before, after, rfl, hbefore⟩ := List.find?_eq_some_iff_append.mp hfound
  have hnone : ∀ y ∈ before, ¬p y = true := by simpa using hbefore
  refine ⟨before, after, rfl, ?_⟩
  rw [List.eraseP_append_right _ hnone, List.eraseP_cons_of_pos hx]

namespace RoseTree

/-! ### Relabelling -/

mutual

/-- Relabel every node. -/
def map (g : α → β) : RoseTree α → RoseTree β
  | node a cs => node (g a) (mapForest g cs)

/-- Relabel every tree of a forest. -/
def mapForest (g : α → β) : List (RoseTree α) → List (RoseTree β)
  | [] => []
  | c :: cs => map g c :: mapForest g cs

end

theorem mapForest_eq_map (g : α → β) (cs : List (RoseTree α)) :
    mapForest g cs = cs.map (map g) := by
  induction cs with
  | nil => rfl
  | cons c cs ih => rw [mapForest, ih, List.map_cons]

@[simp] theorem label_map (g : α → β) (t : RoseTree α) : (t.map g).label = g t.label := by
  cases t
  rfl

@[simp] theorem children_map (g : α → β) (t : RoseTree α) :
    (t.map g).children = t.children.map (map g) := by
  cases t with
  | node a cs => exact mapForest_eq_map g cs

mutual

theorem labels_map (g : α → β) : ∀ t : RoseTree α, (t.map g).labels = t.labels.map g
  | node a cs => by rw [map, labels, labelsForest_map g cs, labels, List.map_cons]

theorem labelsForest_map (g : α → β) :
    ∀ cs : List (RoseTree α), labelsForest (mapForest g cs) = (labelsForest cs).map g
  | [] => rfl
  | c :: cs => by
      rw [mapForest, labelsForest, labels_map g c, labelsForest_map g cs, labelsForest,
        List.map_append]

end

/-- The subtrees of a relabelled tree are the relabelled subtrees. -/
theorem subtree_map_iff {g : α → β} {s : RoseTree β} {t : RoseTree α} :
    Subtree s (t.map g) ↔ ∃ r, Subtree r t ∧ s = r.map g := by
  constructor
  · intro h
    induction t using inductionOn with
    | node a cs ih =>
        cases h with
        | refl => exact ⟨_, Subtree.refl _, rfl⟩
        | child hc hs =>
            rw [children_map, children_node] at hc
            obtain ⟨c, hmem, rfl⟩ := List.mem_map.mp hc
            obtain ⟨r, hr, rfl⟩ := ih c hmem hs
            exact ⟨r, Subtree.child hmem hr, rfl⟩
  · rintro ⟨r, hr, rfl⟩
    induction hr with
    | refl => exact Subtree.refl _
    | child hc _ ih =>
        refine Subtree.child ?_ ih
        rw [children_map]
        exact List.mem_map_of_mem hc

/-- Where the new labels answer as the old ones did, walks end at the same places. -/
theorem walk_map {answers : α → κ → Bool} {answers' : β → κ → Bool} {g : α → β}
    (h : ∀ a k, answers' (g a) k = answers a k) (t : RoseTree α) (ks : List κ) :
    (t.map g).walk answers' ks = (t.walk answers ks).map (map g) := by
  induction ks generalizing t with
  | nil => rfl
  | cons k ks ih =>
      have hfirst : (t.map g).firstAnswer answers' k = (t.firstAnswer answers k).map (map g) := by
        rw [firstAnswer, children_map, List.find?_map, firstAnswer]
        simp only [Function.comp_def, label_map, h]
      rw [walk_cons, walk_cons, hfirst]
      cases t.firstAnswer answers k with
      | none => rfl
      | some c => exact ih c

/-- A relabelled tree is clear throughout when the new labels of siblings are. -/
theorem clearThroughout_map_iff {answers : β → κ → Bool} {key : β → κ} {g : α → β}
    {t : RoseTree α} :
    (t.map g).ClearThroughout answers key ↔
      ∀ r, Subtree r t →
        r.children.Pairwise fun c d => answers (g c.label) (key (g d.label)) = false := by
  constructor
  · intro h r hr
    have := h _ (subtree_map_iff.mpr ⟨r, hr, rfl⟩)
    simpa [Clear, List.pairwise_map] using this
  · intro h s hs
    obtain ⟨r, hr, rfl⟩ := subtree_map_iff.mp hs
    simpa [Clear, List.pairwise_map] using h r hr

/-! ### Updates in place -/

mutual

/-- Apply `f` to the topmost subtrees whose label satisfies `p`. -/
def updateAt (p : α → Bool) (f : RoseTree α → RoseTree α) : RoseTree α → RoseTree α
  | node a cs => if p a then f (node a cs) else node a (updateForest p f cs)

/-- The same in every tree of a forest. -/
def updateForest (p : α → Bool) (f : RoseTree α → RoseTree α) :
    List (RoseTree α) → List (RoseTree α)
  | [] => []
  | c :: cs => updateAt p f c :: updateForest p f cs

end

theorem updateForest_eq_map (p : α → Bool) (f : RoseTree α → RoseTree α)
    (cs : List (RoseTree α)) :
    updateForest p f cs = cs.map (updateAt p f) := by
  induction cs with
  | nil => rfl
  | cons c cs ih => rw [updateForest, ih, List.map_cons]

theorem updateAt_node (p : α → Bool) (f : RoseTree α → RoseTree α) (a : α)
    (cs : List (RoseTree α)) :
    updateAt p f (node a cs) =
      if p a then f (node a cs) else node a (cs.map (updateAt p f)) := by
  rw [updateAt, updateForest_eq_map]

theorem updateAt_of_pos {p : α → Bool} (f : RoseTree α → RoseTree α) {t : RoseTree α}
    (h : p t.label = true) : updateAt p f t = f t := by
  cases t with
  | node a cs =>
      rw [label_node] at h
      rw [updateAt_node, if_pos h]

theorem updateAt_of_neg {p : α → Bool} (f : RoseTree α → RoseTree α) {t : RoseTree α}
    (h : p t.label = false) :
    updateAt p f t = node t.label (t.children.map (updateAt p f)) := by
  cases t with
  | node a cs =>
      rw [label_node] at h
      rw [updateAt_node, h]
      rfl

theorem label_updateAt {p : α → Bool} {f : RoseTree α → RoseTree α}
    (hf : ∀ s, (f s).label = s.label) (t : RoseTree α) : (updateAt p f t).label = t.label := by
  cases hp : p t.label with
  | true => rw [updateAt_of_pos f hp, hf]
  | false => rw [updateAt_of_neg f hp, label_node]

/-- An update that has no target changes nothing. -/
theorem updateAt_of_forall_neg {p : α → Bool} {f : RoseTree α → RoseTree α} {t : RoseTree α}
    (h : ∀ a ∈ t.labels, p a = false) : updateAt p f t = t := by
  induction t using inductionOn with
  | node a cs ih =>
      rw [updateAt_of_neg f (h a (by simp [labels]))]
      have hmap : cs.map (updateAt p f) = cs := by
        refine (List.map_congr_left fun c hc => ih c hc fun b hb => h b ?_).trans (List.map_id _)
        rw [labels]
        exact List.mem_cons_of_mem _ ((labels_sublist_labelsForest hc).subset hb)
      rw [children_node, hmap, label_node]

/-- **The labels after an update.**  If at most one label of the tree satisfies `p`
and `f` adds at most the label `new`, the updated tree has no label but the old
ones and `new`, each no more often. -/
theorem labels_updateAt_subperm {p : α → Bool} {f : RoseTree α → RoseTree α} {new : α}
    (hf : ∀ s, (f s).labels.Subperm (new :: s.labels)) (t : RoseTree α)
    (hone : t.labels.countP p ≤ 1) : (updateAt p f t).labels.Subperm (new :: t.labels) := by
  induction t using inductionOn with
  | node a cs ih =>
      cases hp : p a with
      | true =>
          rw [updateAt_of_pos f (t := node a cs) hp]
          exact hf _
      | false =>
          rw [updateAt_of_neg f (t := node a cs) hp]
          -- stated for the trees of any part of the forest, to be proved tree by tree
          have hforest : ∀ ds : List (RoseTree α), (∀ d ∈ ds, d ∈ cs) →
              (labelsForest ds).countP p ≤ 1 →
              (labelsForest (ds.map (updateAt p f))).Subperm (new :: labelsForest ds) := by
            intro ds
            induction ds with
            | nil => simp [labelsForest]
            | cons d ds ihds =>
                intro hds hcount
                have hd : d ∈ cs := hds d (by simp)
                have hrest : ∀ e ∈ ds, e ∈ cs := fun e he => hds e (by simp [he])
                rw [labelsForest, List.countP_append] at hcount
                rw [List.map_cons, labelsForest, labelsForest]
                by_cases hzero : d.labels.countP p = 0
                · -- the target, if there is one, is in a later tree
                  have hkeep : updateAt p f d = d := by
                    apply updateAt_of_forall_neg
                    intro b hb
                    simpa using List.countP_eq_zero.mp hzero b hb
                  rw [hkeep]
                  have htail := ihds hrest (by omega)
                  exact ((List.subperm_append_left d.labels).mpr htail).trans
                    List.perm_middle.subperm
                · -- the target is in the first tree, and the later ones keep as they are
                  have hnone : (labelsForest ds).countP p = 0 := by omega
                  have hkeep : ds.map (updateAt p f) = ds := by
                    refine (List.map_congr_left fun e he => ?_).trans (List.map_id _)
                    apply updateAt_of_forall_neg
                    intro b hb
                    simpa using List.countP_eq_zero.mp hnone b
                      ((labels_sublist_labelsForest he).subset hb)
                  rw [hkeep]
                  exact (List.subperm_append_right (labelsForest ds)).mpr (ih d hd (by omega))
          have hcs : (labelsForest cs).countP p ≤ 1 := by
            simpa [labels, List.countP_cons, hp] using hone
          rw [label_node, children_node, labels, labels]
          exact ((List.subperm_cons a).mpr (hforest cs (fun _ h => h) hcs)).trans
            (List.Perm.swap _ _ _).subperm

/-- An update that keeps the label of its target, and leaves it clear, leaves the
tree clear. -/
theorem clearThroughout_updateAt {answers : α → κ → Bool} {key : α → κ} {p : α → Bool}
    {f : RoseTree α → RoseTree α} (hlabel : ∀ s, (f s).label = s.label)
    (hclear : ∀ s, s.ClearThroughout answers key → (f s).ClearThroughout answers key)
    {t : RoseTree α} (h : t.ClearThroughout answers key) :
    (updateAt p f t).ClearThroughout answers key := by
  induction t using inductionOn with
  | node a cs ih =>
      cases hp : p a with
      | true =>
          rw [updateAt_of_pos f (t := node a cs) hp]
          exact hclear _ h
      | false =>
          obtain ⟨hroot, hbelow⟩ := clearThroughout_iff.mp h
          rw [updateAt_of_neg f (t := node a cs) hp]
          refine clearThroughout_iff.mpr ⟨?_, ?_⟩
          · -- the root's children keep their labels
            rw [Clear, children_node, List.pairwise_map]
            simp only [label_updateAt hlabel]
            exact hroot
          · intro d hd
            obtain ⟨c, hc, rfl⟩ := List.mem_map.mp hd
            exact ih c hc (hbelow c hc)

/-! ### Updates at the end of a walk -/

/-- Apply a partial function to the first element that satisfies `p`; fail when
there is none or the function fails. -/
def replaceFirst (p : α → Bool) (f : α → Option α) : List α → Option (List α)
  | [] => none
  | x :: xs =>
      if p x then (f x).map fun y => y :: xs
      else (replaceFirst p f xs).map fun ys => x :: ys

theorem replaceFirst_eq_some {p : α → Bool} {f : α → Option α} {xs ys : List α}
    (h : replaceFirst p f xs = some ys) :
    ∃ before x y after, xs = before ++ x :: after ∧ ys = before ++ y :: after ∧
      f x = some y := by
  induction xs generalizing ys with
  | nil => simp [replaceFirst] at h
  | cons x xs ih =>
      rw [replaceFirst] at h
      split at h
      · obtain ⟨y, hy, rfl⟩ := Option.map_eq_some_iff.mp h
        exact ⟨[], x, y, xs, rfl, rfl, hy⟩
      · obtain ⟨zs, hzs, rfl⟩ := Option.map_eq_some_iff.mp h
        obtain ⟨before, z, y, after, rfl, rfl, hy⟩ := ih hzs
        exact ⟨x :: before, z, y, after, rfl, rfl, hy⟩

theorem replaceFirst_eq_none_of_find? {p : α → Bool} {f : α → Option α} {xs : List α}
    (h : xs.find? p = none) : replaceFirst p f xs = none := by
  induction xs with
  | nil => rfl
  | cons x xs ih =>
      rw [List.find?_cons] at h
      split at h
      · cases h
      next hx => rw [replaceFirst, hx, ih h]; rfl

/-- Where the first match is, the function takes effect. -/
theorem replaceFirst_append {p : α → Bool} {f : α → Option α} {before : List α} {x : α}
    (after : List α) (hbefore : ∀ y ∈ before, p y = false) (hx : p x = true) :
    replaceFirst p f (before ++ x :: after) = (f x).map fun y => before ++ y :: after := by
  induction before with
  | nil => rw [List.nil_append, replaceFirst, if_pos hx]; rfl
  | cons y before ih =>
      rw [List.forall_mem_cons] at hbefore
      rw [List.cons_append, replaceFirst, hbefore.1, ih hbefore.2]
      cases f x <;> rfl

/-- Apply a partial function to the subtree where the walk along a list of keys
ends. -/
def updateAlong (answers : α → κ → Bool) (f : RoseTree α → Option (RoseTree α)) :
    RoseTree α → List κ → Option (RoseTree α)
  | t, [] => f t
  | t, k :: ks =>
      (replaceFirst (fun c => answers c.label k) (fun c => updateAlong answers f c ks)
        t.children).map (node t.label)

@[simp] theorem updateAlong_nil (answers : α → κ → Bool)
    (f : RoseTree α → Option (RoseTree α)) (t : RoseTree α) :
    updateAlong answers f t [] = f t := rfl

theorem updateAlong_cons_eq_some {answers : α → κ → Bool}
    {f : RoseTree α → Option (RoseTree α)} {t t' : RoseTree α} {k : κ} {ks : List κ}
    (h : updateAlong answers f t (k :: ks) = some t') :
    ∃ before c c' after, t = node t.label (before ++ c :: after) ∧
      t' = node t.label (before ++ c' :: after) ∧ updateAlong answers f c ks = some c' := by
  rw [updateAlong] at h
  obtain ⟨cs, hcs, rfl⟩ := Option.map_eq_some_iff.mp h
  obtain ⟨before, c, c', after, hold, rfl, hc⟩ := replaceFirst_eq_some hcs
  refine ⟨before, c, c', after, ?_, rfl, hc⟩
  cases t with
  | node a ds => rw [← hold, label_node, children_node]

/-- An update along a walk keeps the label of the root. -/
theorem label_updateAlong {answers : α → κ → Bool} {f : RoseTree α → Option (RoseTree α)}
    (hf : ∀ s s', f s = some s' → s'.label = s.label) {t t' : RoseTree α} {ks : List κ}
    (h : updateAlong answers f t ks = some t') : t'.label = t.label := by
  cases ks with
  | nil => exact hf t t' h
  | cons k ks =>
      obtain ⟨before, c, c', after, -, rfl, -⟩ := updateAlong_cons_eq_some h
      rw [label_node]

/-- An update below the root keeps the labels of the root's children. -/
theorem map_label_updateAlong {answers : α → κ → Bool}
    {f : RoseTree α → Option (RoseTree α)}
    (hf : ∀ s s', f s = some s' → s'.label = s.label) {t t' : RoseTree α} {k : κ} {ks : List κ}
    (h : updateAlong answers f t (k :: ks) = some t') :
    t'.children.map label = t.children.map label := by
  obtain ⟨before, c, c', after, hold, hnew, hc⟩ := updateAlong_cons_eq_some h
  rw [hold, hnew]
  simp [label_updateAlong hf hc]

end RoseTree

/-! ### Pruning -/

mutual

/-- `Pruning s t`: removing subtrees of `t` below its root leaves `s`. -/
inductive Pruning : RoseTree α → RoseTree α → Prop
  | node {a : α} {cs ds : List (RoseTree α)} (h : PruningForest cs ds) :
      Pruning (.node a cs) (.node a ds)

/-- Removing trees of a forest, and pruning those that stay. -/
inductive PruningForest : List (RoseTree α) → List (RoseTree α) → Prop
  | nil : PruningForest [] []
  | remove {d : RoseTree α} {cs ds : List (RoseTree α)} (h : PruningForest cs ds) :
      PruningForest cs (d :: ds)
  | keep {c d : RoseTree α} {cs ds : List (RoseTree α)} (hroot : Pruning c d)
      (h : PruningForest cs ds) : PruningForest (c :: cs) (d :: ds)

end

open RoseTree

theorem PruningForest.of_forall₂ {cs ds : List (RoseTree α)} (h : List.Forall₂ Pruning cs ds) :
    PruningForest cs ds := by
  induction h with
  | nil => exact PruningForest.nil
  | cons hroot _ ih => exact PruningForest.keep hroot ih

theorem Pruning.refl (t : RoseTree α) : Pruning t t := by
  induction t using inductionOn with
  | node a cs ih => exact Pruning.node (PruningForest.of_forall₂ (List.forall₂_same.mpr ih))

theorem PruningForest.of_sublist {cs ds : List (RoseTree α)} (h : cs.Sublist ds) :
    PruningForest cs ds := by
  induction h with
  | slnil => exact PruningForest.nil
  | cons d _ ih => exact PruningForest.remove ih
  | cons_cons d _ ih => exact PruningForest.keep (Pruning.refl d) ih

theorem Pruning.label_eq {s t : RoseTree α} (h : Pruning s t) : s.label = t.label := by
  cases h
  rfl

mutual

theorem Pruning.labels_sublist {s t : RoseTree α} :
    Pruning s t → s.labels.Sublist t.labels
  | .node h => by
      rw [labels, labels]
      exact h.labels_sublist.cons_cons _

theorem PruningForest.labels_sublist {cs ds : List (RoseTree α)} :
    PruningForest cs ds → (labelsForest cs).Sublist (labelsForest ds)
  | .nil => List.Sublist.refl _
  | .remove h => h.labels_sublist.trans (List.sublist_append_right _ _)
  | .keep hroot h => hroot.labels_sublist.append h.labels_sublist

end

/-- The root labels of a pruned forest are among the old ones, in order. -/
theorem PruningForest.map_label_sublist {cs ds : List (RoseTree α)}
    (h : PruningForest cs ds) : (cs.map label).Sublist (ds.map label) := by
  induction ds generalizing cs with
  | nil =>
      cases h
      exact List.Sublist.refl _
  | cons d ds ih =>
      cases h with
      | remove h => exact (ih h).cons _
      | keep hroot h =>
          rw [List.map_cons, List.map_cons, hroot.label_eq]
          exact (ih h).cons_cons _

mutual

/-- Pruning keeps a tree clear throughout. -/
theorem Pruning.clearThroughout {answers : α → κ → Bool} {key : α → κ} {s t : RoseTree α} :
    Pruning s t → t.ClearThroughout answers key → s.ClearThroughout answers key
  | .node h, hclear => by
      obtain ⟨hroot, hbelow⟩ := clearThroughout_iff.mp hclear
      -- among fewer siblings there are fewer pairs to be clear of each other
      refine clearThroughout_iff.mpr ⟨?_, h.clearThroughout hbelow⟩
      have hlabels := h.map_label_sublist
      rw [Clear, ← List.pairwise_map (R := fun a b => answers a (key b) = false)] at hroot ⊢
      exact hroot.sublist hlabels

theorem PruningForest.clearThroughout {answers : α → κ → Bool} {key : α → κ}
    {cs ds : List (RoseTree α)} :
    PruningForest cs ds → (∀ d ∈ ds, d.ClearThroughout answers key) →
      ∀ c ∈ cs, c.ClearThroughout answers key
  | .nil, _ => by simp
  | .remove h, hclear => h.clearThroughout fun d hd => hclear d (List.mem_cons_of_mem _ hd)
  | .keep hroot h, hclear => by
      rw [List.forall_mem_cons] at hclear ⊢
      exact ⟨hroot.clearThroughout hclear.1, h.clearThroughout hclear.2⟩

end

/-- An update whose target is pruned prunes the tree. -/
theorem updateAt_pruning {p : α → Bool} {f : RoseTree α → RoseTree α}
    (hf : ∀ s, Pruning (f s) s) (t : RoseTree α) : Pruning (updateAt p f t) t := by
  induction t using inductionOn with
  | node a cs ih =>
      cases hp : p a with
      | true =>
          rw [updateAt_of_pos f (t := .node a cs) hp]
          exact hf _
      | false =>
          rw [updateAt_of_neg f (t := .node a cs) hp]
          refine Pruning.node (PruningForest.of_forall₂ ?_)
          rw [List.forall₂_map_left_iff]
          exact List.forall₂_same.mpr ih

/-- An update along a walk whose target is pruned prunes the tree. -/
theorem updateAlong_pruning {answers : α → κ → Bool} {f : RoseTree α → Option (RoseTree α)}
    (hf : ∀ s s', f s = some s' → Pruning s' s) {t t' : RoseTree α} {ks : List κ}
    (h : updateAlong answers f t ks = some t') : Pruning t' t := by
  induction ks generalizing t t' with
  | nil => exact hf t t' h
  | cons k ks ih =>
      obtain ⟨before, c, c', after, hold, hnew, hc⟩ := updateAlong_cons_eq_some h
      rw [hold, hnew]
      refine Pruning.node (PruningForest.of_forall₂ ?_)
      have hsame (cs : List (RoseTree α)) : List.Forall₂ Pruning cs cs :=
        List.forall₂_same.mpr fun d _ => Pruning.refl d
      exact List.rel_append (hsame before) (List.Forall₂.cons (ih hc) (hsame after))

end Library
end EspressioCommand
