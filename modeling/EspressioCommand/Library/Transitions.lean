import Mathlib.Tactic

/-!
# Runs of a labelled transition system

A step relation `step : State → Label → State → Prop` and its finite runs.  A
run keeps the list of its transitions, each with the state before and after it,
so that a law about single steps can be stated of every step of a run and a law
about states of every state the run passes.

* `Run.invariant` lifts a fact kept by one step to every state of a run.
* `Run.good_iff_allowed` is the form used where a law fails on some steps: if a
  law survives a step exactly when the step meets a condition, then it holds all
  along a run exactly when every step of the run meets that condition.
* `Run.simulate` turns a step-by-step simulation into one of whole runs.
* `Run.since` is for what a step brings about and the steps behind it leave alone, and
  `Established` for what some of these may undo.
* `Run.of_schedule` makes a run of a list of labels, for systems with a step function.

What is under way in a system is often kept in a list, from which a step takes one
element out: `perm_move` and `countP_eq_erase_add` say what becomes of the rest.
-/

namespace EspressioCommand
namespace Library

variable {State Label : Type*}

/-- One executed step with the states around it. -/
structure Transition (State Label : Type*) where
  before : State
  label : Label
  after : State

/-- Finite runs from `init`, with their transitions in order of execution. -/
inductive Run (step : State → Label → State → Prop) (init : State) :
    List (Transition State Label) → State → Prop
  | start : Run step init [] init
  | next {trace : List (Transition State Label)} {state after : State} {label : Label}
      (hrun : Run step init trace state) (hstep : step state label after) :
      Run step init (trace ++ [⟨state, label, after⟩]) after

namespace Run

variable {step : State → Label → State → Prop} {init final : State}
  {trace : List (Transition State Label)}

/-- A fact of the initial state that every step keeps holds at the end. -/
theorem invariant {Inv : State → Prop} (hinit : Inv init)
    (hkeep : ∀ state label after, Inv state → step state label after → Inv after)
    (hrun : Run step init trace final) : Inv final := by
  induction hrun with
  | start => exact hinit
  | next _ hstep ih => exact hkeep _ _ _ ih hstep

/-- The transitions of a run are steps, and an invariant holds around each of them. -/
theorem transition_spec {Inv : State → Prop} (hinit : Inv init)
    (hkeep : ∀ state label after, Inv state → step state label after → Inv after)
    (hrun : Run step init trace final) :
    ∀ τ ∈ trace, step τ.before τ.label τ.after ∧ Inv τ.before ∧ Inv τ.after := by
  induction hrun with
  | start => simp
  | next hprefix hstep ih =>
      intro τ hτ
      rcases List.mem_append.mp hτ with hold | hlast
      · exact ih τ hold
      · obtain rfl := List.mem_singleton.mp hlast
        have hbefore := hprefix.invariant hinit hkeep
        exact ⟨hstep, hbefore, hkeep _ _ _ hbefore hstep⟩

/-- A run all of whose labels are of one kind is a run of the steps of that kind. -/
theorem restrict {P : Label → Prop} (hrun : Run step init trace final)
    (h : ∀ τ ∈ trace, P τ.label) :
    Run (fun state label after => step state label after ∧ P label) init trace final := by
  induction hrun with
  | start => exact Run.start
  | next _ hstep ih =>
      rw [List.forall_mem_append, List.forall_mem_singleton] at h
      exact Run.next (ih h.1) ⟨hstep, h.2⟩

/-- The last state of a run is the initial one or the state after its last transition. -/
theorem final_eq_or_mem (hrun : Run step init trace final) :
    final = init ∨ ∃ τ ∈ trace, final = τ.after := by
  cases hrun with
  | start => exact Or.inl rfl
  | next _ _ => exact Or.inr ⟨_, List.mem_append_right _ (List.mem_singleton_self _), rfl⟩

/-- What a step brings about still holds at the end, when the later steps keep it. -/
theorem since {P : State → Prop} {Sets Keeps : Label → Prop}
    (hset : ∀ state label after, step state label after → Sets label → P after)
    (hkeep : ∀ state label after, P state → step state label after → Keeps label → P after)
    (hrun : Run step init trace final) {earlier later : List (Transition State Label)}
    {τ : Transition State Label} (hsplit : trace = earlier ++ τ :: later)
    (hsets : Sets τ.label) (hlater : ∀ σ ∈ later, Keeps σ.label) : P final := by
  induction hrun generalizing later with
  | start => simp at hsplit
  | @next trace state after label hprefix hstep ih =>
      -- the last transition is the one that sets, or one of the later ones
      rcases List.eq_nil_or_concat' later with rfl | ⟨between, last, rfl⟩
      · obtain ⟨-, hlast⟩ := List.append_inj' hsplit rfl
        obtain rfl := List.singleton_inj.mp hlast
        exact hset _ _ _ hstep hsets
      · rw [← List.cons_append, ← List.append_assoc] at hsplit
        obtain ⟨rfl, hlast⟩ := List.append_inj' hsplit rfl
        obtain rfl := List.singleton_inj.mp hlast
        have hbefore := ih rfl fun σ hσ => hlater σ (List.mem_append_left _ hσ)
        exact hkeep _ _ _ hbefore hstep
          (hlater _ (List.mem_append_right _ (List.mem_singleton_self _)))

/-- A run passes each of its transitions, from a state to which the transitions before it
lead. -/
theorem split (hrun : Run step init trace final) {front rest : List (Transition State Label)}
    {τ : Transition State Label} (hsplit : trace = front ++ τ :: rest) :
    Run step init front τ.before ∧ step τ.before τ.label τ.after := by
  induction hrun generalizing rest with
  | start => simp at hsplit
  | next hbefore hstep ih =>
      rcases List.eq_nil_or_concat' rest with rfl | ⟨middle, last, rfl⟩
      · obtain ⟨rfl, hlast⟩ := List.append_inj' hsplit rfl
        obtain rfl := List.singleton_inj.mp hlast
        exact ⟨hbefore, hstep⟩
      · rw [← List.cons_append, ← List.append_assoc] at hsplit
        obtain ⟨hfront, -⟩ := List.append_inj' hsplit rfl
        exact ih hfront

/-- **A law that survives exactly the allowed steps.**  `Inv` is kept by every
step; `Good` holds initially and, from a state where it holds, survives a step
if and only if the step is `Allowed`.  Then `Good` holds after every step of a
run if and only if every step of the run is allowed. -/
theorem good_iff_allowed (Inv Good : State → Prop) {Allowed : State → Label → Prop}
    (hinv : Inv init) (hgood : Good init)
    (hkeep : ∀ state label after, Inv state → step state label after → Inv after)
    (hexact : ∀ state label after, Inv state → Good state → step state label after →
      (Good after ↔ Allowed state label))
    (hrun : Run step init trace final) :
    (∀ τ ∈ trace, Good τ.after) ↔ ∀ τ ∈ trace, Allowed τ.before τ.label := by
  induction hrun with
  | start => simp
  | next hprefix hstep ih =>
      have hbefore := hprefix.invariant hinv hkeep
      simp only [List.forall_mem_append, List.forall_mem_singleton, ih]
      refine and_congr_right fun hallowed => ?_
      refine hexact _ _ _ hbefore ?_ hstep
      rcases hprefix.final_eq_or_mem with rfl | ⟨τ, hτ, rfl⟩
      · exact hgood
      · exact ih.mpr hallowed τ hτ

/-- **Forward simulation.**  If every concrete step from a related state is
matched by an abstract step whose label is the image of the concrete one, then
every concrete run is matched by an abstract run with the image trace of labels. -/
theorem simulate {State' Label' : Type*} {step' : State' → Label' → State' → Prop}
    {init' : State'} (Rel : State → State' → Prop) (image : Label → Label')
    (hinit : Rel init init')
    (hmatch : ∀ state label after state', Rel state state' → step state label after →
      ∃ after', step' state' (image label) after' ∧ Rel after after')
    (hrun : Run step init trace final) :
    ∃ trace' final', Run step' init' trace' final' ∧ Rel final final' ∧
      trace'.map Transition.label = trace.map fun τ => image τ.label := by
  induction hrun with
  | start => exact ⟨[], init', Run.start, hinit, rfl⟩
  | next _ hstep ih =>
      obtain ⟨trace', state', hrun', hrel, hlabels⟩ := ih
      obtain ⟨after', hstep', hrel'⟩ := hmatch _ _ _ _ hrel hstep
      exact ⟨_, after', Run.next hrun' hstep', hrel', by simp [hlabels]⟩

end Run

/-! ### Facts of an earlier step -/

section Established

variable {Sets : Transition State Label → Prop} {Fact : State → Prop} {Breaks : Label → Prop}
  {trace : List (Transition State Label)} {state after : State} {label : Label}

/-- Some transition of the trace sets the fact up, and it still holds in `state` unless a
transition behind that one breaks it. -/
def Established (Sets : Transition State Label → Prop) (Fact : State → Prop)
    (Breaks : Label → Prop) (trace : List (Transition State Label)) (state : State) : Prop :=
  ∃ earlier σ later, trace = earlier ++ σ :: later ∧ Sets σ ∧
    (Fact state ∨ ∃ υ ∈ later, Breaks υ.label)

/-- The last transition sets it up. -/
theorem established_last (hsets : Sets ⟨state, label, after⟩) (hfact : Fact after) :
    Established Sets Fact Breaks (trace ++ [⟨state, label, after⟩]) after :=
  ⟨trace, _, [], rfl, hsets, Or.inl hfact⟩

/-- A further transition keeps it or breaks it. -/
theorem Established.next (h : Established Sets Fact Breaks trace state)
    (hkeep : Fact state → Fact after ∨ Breaks label) :
    Established Sets Fact Breaks (trace ++ [⟨state, label, after⟩]) after := by
  obtain ⟨earlier, σ, later, rfl, hsets, hstate⟩ := h
  refine ⟨earlier, σ, later ++ [⟨state, label, after⟩], by simp, hsets, ?_⟩
  rcases hstate with hfact | ⟨υ, hυ, hbreaks⟩
  · rcases hkeep hfact with hafter | hbroken
    · exact Or.inl hafter
    · exact Or.inr ⟨_, List.mem_append_right _ (List.mem_singleton_self _), hbroken⟩
  · exact Or.inr ⟨υ, List.mem_append_left _ hυ, hbreaks⟩

end Established

/-! ### Schedules -/

/-- The transitions of a system with a step function along a list of labels. -/
def schedule (perform : State → Label → State) (s : State) :
    List Label → List (Transition State Label)
  | [] => []
  | label :: labels =>
      ⟨s, label, perform s label⟩ :: schedule perform (perform s label) labels

theorem schedule_snoc (perform : State → Label → State) (s : State) (labels : List Label)
    (label : Label) :
    schedule perform s (labels ++ [label]) = schedule perform s labels ++
      [⟨labels.foldl perform s, label, perform (labels.foldl perform s) label⟩] := by
  induction labels generalizing s with
  | nil => rfl
  | cons first labels ih =>
      rw [List.cons_append, schedule, ih, schedule]
      rfl

/-- A schedule whose steps are all enabled is a run. -/
theorem Run.of_schedule {enabled : State → Label → Prop} {perform : State → Label → State}
    {init : State} {labels : List Label}
    (h : ∀ τ ∈ schedule perform init labels, enabled τ.before τ.label) :
    Run (fun s label after => enabled s label ∧ after = perform s label) init
      (schedule perform init labels) (labels.foldl perform init) := by
  induction labels using List.reverseRecOn with
  | nil => exact Run.start
  | append_singleton labels label ih =>
      rw [schedule_snoc, List.forall_mem_append, List.forall_mem_singleton] at h
      rw [schedule_snoc, List.foldl_append]
      exact Run.next (ih h.1) ⟨h.2, rfl⟩

/-! ### What is under way -/

section UnderWay

variable {α : Type*} [BEq α] [LawfulBEq α]

/-- An element that moves from one list to another is still in one of them. -/
theorem perm_move {xs ys : List α} {x : α} (h : x ∈ ys) :
    (xs ++ [x] ++ ys.erase x).Perm (xs ++ ys) := by
  rw [List.append_assoc]
  exact (List.perm_cons_erase h).symm.append_left _

/-- Taking one element out of a list takes it out of a count. -/
theorem countP_eq_erase_add {xs : List α} {x : α} (h : x ∈ xs) (p : α → Bool) :
    xs.countP p = (xs.erase x).countP p + if p x then 1 else 0 := by
  rw [(List.perm_cons_erase h).countP_eq, List.countP_cons]

end UnderWay

end Library
end EspressioCommand
