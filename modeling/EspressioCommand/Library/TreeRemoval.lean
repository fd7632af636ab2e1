import EspressioCommand.Library.TreeUpdates

/-!
# Taking subtrees out of a rose tree

* `Cut s t t'`: `t'` is `t` without one occurrence of `s` below the root.
* `RoseTree.without p t`: the tree without the subtrees below its root whose label
  satisfies `p`.
* `RoseTree.trail answers t ks`: the subtrees that the walk along `ks` steps onto.

Where the labels are told apart by an identity, a cut is such a restriction
(`Cut.eq_without`), and a walk whose trail avoids what is taken out ends where it did
before (`walk_without`).
-/

namespace EspressioCommand
namespace Library

variable {α β κ ι : Type*}

/-- A further condition that the first match meets does not change a search. -/
theorem find?_and_of_find? {p q : α → Bool} {xs : List α}
    (h : ∀ x, xs.find? q = some x → p x = true) :
    xs.find? (fun x => p x && q x) = xs.find? q := by
  induction xs with
  | nil => rfl
  | cons x xs ih =>
      rw [List.find?_cons, List.find?_cons]
      cases hq : q x with
      | true =>
          have hp : p x = true := h x (by rw [List.find?_cons, hq])
          simp [hp]
      | false =>
          simp only [Bool.and_false]
          apply ih
          intro y hy
          exact h y (by rw [List.find?_cons, hq]; exact hy)

namespace RoseTree

/-! ### Walks -/

/-- The subtrees that the walk along the keys steps onto, the root left out. -/
def trail (answers : α → κ → Bool) : RoseTree α → List κ → List (RoseTree α)
  | _, [] => []
  | t, k :: ks =>
      match t.firstAnswer answers k with
      | none => []
      | some c => c :: trail answers c ks

theorem trail_cons_of_some {answers : α → κ → Bool} {t c : RoseTree α} {k : κ}
    (h : t.firstAnswer answers k = some c) (ks : List κ) :
    t.trail answers (k :: ks) = c :: c.trail answers ks := by
  rw [trail, h]

/-- Every subtree on the trail is where the walk along some first keys ends. -/
theorem exists_walk_of_mem_trail {answers : α → κ → Bool} {s t : RoseTree α} {ks : List κ}
    (h : s ∈ t.trail answers ks) : ∃ front, front <+: ks ∧ t.walk answers front = some s := by
  induction ks generalizing t with
  | nil => cases h
  | cons k ks ih =>
      cases hfound : t.firstAnswer answers k with
      | none =>
          rw [trail, hfound] at h
          cases h
      | some c =>
          rw [trail_cons_of_some hfound] at h
          rcases List.mem_cons.mp h with rfl | hbelow
          · refine ⟨[k], List.prefix_append [k] ks, ?_⟩
            rw [walk_cons, hfound]
            rfl
          · obtain ⟨front, hfront, hwalk⟩ := ih hbelow
            refine ⟨k :: front, List.cons_prefix_cons.mpr ⟨rfl, hfront⟩, ?_⟩
            rw [walk_cons, hfound]
            exact hwalk

/-! ### Restriction -/

mutual

/-- The tree without the subtrees below its root whose label satisfies `p`. -/
def without (p : α → Bool) : RoseTree α → RoseTree α
  | node a cs => node a (withoutForest p cs)

/-- The forest without the trees, and the subtrees below them, whose label satisfies
`p`. -/
def withoutForest (p : α → Bool) : List (RoseTree α) → List (RoseTree α)
  | [] => []
  | c :: cs =>
      if p c.label then withoutForest p cs else without p c :: withoutForest p cs

end

theorem withoutForest_eq (p : α → Bool) (cs : List (RoseTree α)) :
    withoutForest p cs = (cs.filter fun c => !p c.label).map (without p) := by
  induction cs with
  | nil => rfl
  | cons c cs ih => cases hp : p c.label <;> simp [withoutForest, hp, ih]

theorem withoutForest_append (p : α → Bool) (cs ds : List (RoseTree α)) :
    withoutForest p (cs ++ ds) = withoutForest p cs ++ withoutForest p ds := by
  rw [withoutForest_eq, withoutForest_eq, withoutForest_eq, List.filter_append, List.map_append]

@[simp] theorem label_without (p : α → Bool) (t : RoseTree α) :
    (t.without p).label = t.label := by
  cases t
  rfl

@[simp] theorem children_without (p : α → Bool) (t : RoseTree α) :
    (t.without p).children = withoutForest p t.children := by
  cases t
  rfl

/-- A forest in which no label satisfies `p` stays as it is. -/
theorem withoutForest_of_forall_neg {p : α → Bool} {cs : List (RoseTree α)}
    (h : ∀ a ∈ labelsForest cs, p a = false) : withoutForest p cs = cs := by
  have htree (t : RoseTree α) : (∀ a ∈ t.labels, p a = false) → t.without p = t := by
    induction t using inductionOn with
    | node a ds ih =>
        intro hds
        have hkeep : ∀ d ∈ ds, p d.label = false ∧ d.without p = d := by
          intro d hd
          have hbelow : ∀ b ∈ d.labels, p b = false := by
            intro b hb
            refine hds b ?_
            rw [labels]
            exact List.mem_cons_of_mem _ ((labels_sublist_labelsForest hd).subset hb)
          exact ⟨hbelow _ d.label_mem_labels, ih d hd hbelow⟩
        rw [without, withoutForest_eq, List.filter_eq_self.mpr (by simpa using
          fun d hd => (hkeep d hd).1)]
        congr 1
        exact (List.map_congr_left fun d hd => (hkeep d hd).2).trans (List.map_id _)
  rw [withoutForest_eq, List.filter_eq_self.mpr]
  · refine (List.map_congr_left fun c hc => htree c fun a ha => h a ?_).trans (List.map_id _)
    exact (labels_sublist_labelsForest hc).subset ha
  · intro c hc
    simp [h c.label ((labels_sublist_labelsForest hc).subset c.label_mem_labels)]

/-- The first child that answers is still the first when it is not taken out. -/
theorem firstAnswer_without {answers : α → κ → Bool} {p : α → Bool} {t : RoseTree α} {k : κ}
    (h : ∀ c, t.firstAnswer answers k = some c → p c.label = false) :
    (t.without p).firstAnswer answers k = (t.firstAnswer answers k).map (without p) := by
  rw [firstAnswer, children_without, withoutForest_eq, List.find?_map, List.find?_filter]
  congr 1
  have hkept : ∀ c, t.children.find? (fun c => answers c.label k) = some c →
      (!p c.label) = true := by
    intro c hc
    simp [h c hc]
  have hsame := find?_and_of_find? hkept
  simpa [Function.comp_def, firstAnswer] using hsame

/-- **Walks that avoid what is taken out.**  They end where they did before. -/
theorem walk_without {answers : α → κ → Bool} {p : α → Bool} {t : RoseTree α} {ks : List κ}
    (h : ∀ s ∈ t.trail answers ks, p s.label = false) :
    (t.without p).walk answers ks = (t.walk answers ks).map (without p) := by
  induction ks generalizing t with
  | nil => rfl
  | cons k ks ih =>
      have hfirst : ∀ c, t.firstAnswer answers k = some c → p c.label = false := by
        intro c hc
        exact h c (by rw [trail_cons_of_some hc]; exact List.mem_cons_self)
      rw [walk_cons, walk_cons, firstAnswer_without hfirst]
      cases hc : t.firstAnswer answers k with
      | none => rfl
      | some c =>
          refine ih ?_
          intro s hs
          exact h s (by rw [trail_cons_of_some hc]; exact List.mem_cons_of_mem _ hs)

end RoseTree

/-! ### Cuts -/

open RoseTree

/-- `Cut s t t'`: one occurrence of `s` below the root of `t`, with all that is below
it, is taken out, and everything else stays in its place. -/
inductive Cut (s : RoseTree α) : RoseTree α → RoseTree α → Prop
  | child (a : α) (before after : List (RoseTree α)) :
      Cut s (node a (before ++ s :: after)) (node a (before ++ after))
  | inside (a : α) (before after : List (RoseTree α)) {c c' : RoseTree α} (h : Cut s c c') :
      Cut s (node a (before ++ c :: after)) (node a (before ++ c' :: after))

namespace Cut

variable {s t t' : RoseTree α}

/-- **What a cut does to the labels.**  Those of the subtree go, which stand together,
and the others stay in their order. -/
theorem labels_eq (h : Cut s t t') :
    ∃ before after, t.labels = before ++ s.labels ++ after ∧ t'.labels = before ++ after := by
  induction h with
  | child a before after =>
      refine ⟨a :: labelsForest before, labelsForest after, ?_, ?_⟩ <;>
        simp [labels, labelsForest_append, labelsForest]
  | inside a before after _ ih =>
      obtain ⟨first, last, hold, hnew⟩ := ih
      refine ⟨a :: labelsForest before ++ first, last ++ labelsForest after, ?_, ?_⟩ <;>
        simp [labels, labelsForest_append, labelsForest, hold, hnew]

theorem label_mem (h : Cut s t t') : s.label ∈ labelsForest t.children := by
  induction h with
  | child a before after =>
      rw [children_node, labelsForest_append, labelsForest]
      simp [s.label_mem_labels]
  | @inside a before after c c' _ ih =>
      rw [children_node, labelsForest_append, labelsForest]
      have hc : s.label ∈ c.labels := by
        cases c with
        | node b cs => exact List.mem_cons_of_mem _ ih
      simp [hc]

/-- **A cut by identity.**  When an identity tells the labels apart, a cut takes out
the subtrees whose label has the identity of the one that was cut. -/
theorem eq_without [DecidableEq ι] {identity : α → ι} (h : Cut s t t')
    (hdistinct : (t.labels.map identity).Nodup) :
    t' = t.without fun a => identity a == identity s.label := by
  -- no label of another tree of the forest has the identity of `s`
  have hother (before after : List (RoseTree α)) (c : RoseTree α)
      (hforest : ((labelsForest (before ++ c :: after)).map identity).Nodup)
      (hc : s.label ∈ c.labels) (ds : List (RoseTree α)) (hds : ds = before ∨ ds = after) :
      ∀ a ∈ labelsForest ds, (identity a == identity s.label) = false := by
    rw [labelsForest_append, labelsForest, List.map_append, List.map_append] at hforest
    obtain ⟨-, hrest, hbefore⟩ := List.nodup_append.mp hforest
    obtain ⟨-, -, hafter⟩ := List.nodup_append.mp hrest
    intro a ha
    rw [beq_eq_false_iff_ne]
    rcases hds with rfl | rfl
    · exact hbefore _ (List.mem_map_of_mem ha) _
        (List.mem_append_left _ (List.mem_map_of_mem hc))
    · exact (hafter _ (List.mem_map_of_mem hc) _ (List.mem_map_of_mem ha)).symm
  induction h with
  | child a before after =>
      rw [labels, List.map_cons, List.nodup_cons] at hdistinct
      have hstay := hother before after s hdistinct.2 s.label_mem_labels
      rw [without, withoutForest_append, withoutForest, if_pos (by simp),
        withoutForest_of_forall_neg (hstay before (Or.inl rfl)),
        withoutForest_of_forall_neg (hstay after (Or.inr rfl))]
  | @inside a before after c c' hcut ih =>
      rw [labels, List.map_cons, List.nodup_cons] at hdistinct
      have hc : s.label ∈ c.labels := by
        cases c with
        | node b cs => exact List.mem_cons_of_mem _ hcut.label_mem
      have hmem : c ∈ before ++ c :: after := by simp
      have hlabels := ((labels_sublist_labelsForest hmem).map identity).nodup hdistinct.2
      have hroot : (identity c.label == identity s.label) = false := by
        cases c with
        | node b cs =>
            rw [labels, List.map_cons, List.nodup_cons] at hlabels
            rw [beq_eq_false_iff_ne]
            intro heq
            exact hlabels.1 (heq ▸ List.mem_map_of_mem hcut.label_mem)
      have hstay := hother before after c hdistinct.2 hc
      rw [without, withoutForest_append, withoutForest, hroot, ih hlabels,
        withoutForest_of_forall_neg (hstay before (Or.inl rfl)),
        withoutForest_of_forall_neg (hstay after (Or.inr rfl))]
      rfl

/-- **Cuts and walks.**  A walk that does not step onto the subtree that was cut ends
where it did before. -/
theorem walk_eq [DecidableEq ι] {identity : α → ι} {answers : α → κ → Bool} {ks : List κ}
    (h : Cut s t t') (hdistinct : (t.labels.map identity).Nodup)
    (havoid : ∀ r ∈ t.trail answers ks, identity r.label ≠ identity s.label) :
    t'.walk answers ks =
      (t.walk answers ks).map (without fun a => identity a == identity s.label) := by
  rw [h.eq_without hdistinct]
  apply walk_without
  intro r hr
  rw [beq_eq_false_iff_ne]
  exact havoid r hr

end Cut

/-- Erasing the first child that answers cuts it. -/
theorem cut_eraseP {answers : α → κ → Bool} {s t : RoseTree α} {k : κ}
    (h : t.firstAnswer answers k = some s) :
    Cut s t (node t.label (t.children.eraseP fun c => answers c.label k)) := by
  obtain ⟨before, after, hold, hnew⟩ := exists_eraseP_eq_append h
  rw [hnew]
  have hcut := Cut.child (s := s) t.label before after
  rwa [← hold, node_label_children] at hcut

/-- **Updates that cut.**  If `f` cuts the child that answers to the last key, and
fails where there is none, then the update along the other keys cuts what the whole
walk leads to, and fails where it leads nowhere. -/
theorem updateAlong_cut (answers : α → κ → Bool) (f : RoseTree α → Option (RoseTree α))
    (last : κ) (hnone : ∀ t, t.firstAnswer answers last = none → f t = none)
    (hsome : ∀ t s, t.firstAnswer answers last = some s → ∃ t', f t = some t' ∧ Cut s t t')
    (t : RoseTree α) (ks : List κ) :
    (t.walk answers (ks ++ [last]) = none → updateAlong answers f t ks = none) ∧
      ∀ s, t.walk answers (ks ++ [last]) = some s →
        ∃ t', updateAlong answers f t ks = some t' ∧ Cut s t t' := by
  -- the induction follows the walk down; the cut is made below the child it takes
  induction ks generalizing t with
  | nil =>
      rw [List.nil_append, walk_cons]
      simp only [walk_nil, Option.bind_fun_some, updateAlong_nil]
      exact ⟨hnone t, hsome t⟩
  | cons k ks ih =>
      rw [List.cons_append, walk_cons, updateAlong]
      cases hfound : t.firstAnswer answers k with
      | none =>
          have hreplace := replaceFirst_eq_none_of_find? (f := fun c => updateAlong answers f c ks)
            hfound
          simp [hreplace]
      | some c =>
          obtain ⟨hanswers, before, after, hsplit, hbefore⟩ :=
            List.find?_eq_some_iff_append.mp hfound
          have hreplace := replaceFirst_append (f := fun c => updateAlong answers f c ks) after
            (by simpa using hbefore) hanswers
          rw [← hsplit] at hreplace
          obtain ⟨ihnone, ihsome⟩ := ih c
          rw [Option.bind_some, hreplace]
          constructor
          · intro h
            rw [ihnone h]
            rfl
          · intro s hs
            obtain ⟨c', hc', hcut⟩ := ihsome s hs
            refine ⟨node t.label (before ++ c' :: after), by rw [hc']; rfl, ?_⟩
            have hbelow := Cut.inside t.label before after hcut
            rwa [← hsplit, node_label_children] at hbelow

end Library
end EspressioCommand
