import EspressioCommand.Library.TreeRemoval
import EspressioCommand.Registry.Invoke
import EspressioCommand.Registry.Mutation
import EspressioCommand.Text.Composition
import Mathlib.Data.List.Infix
import Mathlib.Data.List.MinMax

/-!
# What discovery shows of hidden commands

`Complete` and the child list of `Help` leave hidden commands out.  The tests of `Help`
for "has children" and the search of `Suggest` do not, so that hidden commands can be
told from the texts.

`CommandNode.view` is a tree without its hidden nodes.  `indistinguishable_iff` takes two
registries with one view and gives the inputs on which no text tells them apart.
-/

namespace EspressioCommand

open Library TextCommandParser

variable {σ : Type}

/-! ### The visible tree -/

/-- The fields of a node without the identity of the object. -/
def NodeData.fields (node : NodeData σ) : NodeData σ := { node with object := 0 }

namespace CommandNode

/-- The tree once every hidden node is deleted with its subtree. -/
def view (node : CommandNode σ) : CommandNode σ :=
  (node.without NodeData.hidden).map NodeData.fields

@[simp] theorem label_view (node : CommandNode σ) : node.view.label = node.label.fields := by
  rw [view, RoseTree.label_map, RoseTree.label_without]

@[simp] theorem children_view (node : CommandNode σ) :
    node.view.children =
      (node.children.filter fun child => !child.label.hidden).map view := by
  rw [view, RoseTree.children_map, RoseTree.children_without, RoseTree.withoutForest_eq,
    List.map_map]
  rfl

end CommandNode

namespace CommandRegistry

/-- No beginning of the path resolves to a hidden node. -/
def NamesNothingHidden (registry : CommandRegistry σ) (path : CommandPath) : Prop :=
  ∀ front, front <+: path → ∀ node, registry.resolve front = some node →
    node.label.hidden = false

instance (registry : CommandRegistry σ) (path : CommandPath) :
    Decidable (registry.NamesNothingHidden path) :=
  decidable_of_iff
    (∀ front ∈ path.inits, (registry.resolve front).all (fun node => !node.label.hidden) = true) <|
    by simp [NamesNothingHidden, Option.all_eq_true, List.mem_inits]

theorem NamesNothingHidden.of_prefix {registry : CommandRegistry σ} {path front : CommandPath}
    (h : registry.NamesNothingHidden path) (hfront : front <+: path) :
    registry.NamesNothingHidden front :=
  fun first hfirst => h first (hfirst.trans hfront)

/-- What a path resolves to can be told from the view, up to what is hidden below. -/
theorem walk_view {registry : CommandRegistry σ} {path : CommandPath}
    (h : registry.NamesNothingHidden path) :
    registry.root.view.walk NodeData.matchesValue path =
      (registry.resolve path).map CommandNode.view := by
  have hmatches : ∀ (node : NodeData σ) (token : CommandString),
      node.fields.matchesValue token = node.matchesValue token := fun _ _ => rfl
  have hvisible : ∀ node ∈ registry.root.trail NodeData.matchesValue path,
      node.label.hidden = false := by
    intro node hnode
    obtain ⟨front, hfront, hresolve⟩ := RoseTree.exists_walk_of_mem_trail hnode
    exact h front hfront node hresolve
  rw [CommandNode.view, RoseTree.walk_map hmatches, RoseTree.walk_without hvisible,
    Option.map_map]
  rfl

variable {first second : CommandRegistry σ}

/-- In registries with one view, a path leads to nodes with one view, or nowhere. -/
theorem resolve_view_eq (hview : first.root.view = second.root.view) {path : CommandPath}
    (hfirst : first.NamesNothingHidden path) (hsecond : second.NamesNothingHidden path) :
    (first.resolve path).map CommandNode.view = (second.resolve path).map CommandNode.view := by
  rw [← walk_view hfirst, ← walk_view hsecond, hview]

theorem resolve_eq_none_iff (hview : first.root.view = second.root.view) {path : CommandPath}
    (hfirst : first.NamesNothingHidden path) (hsecond : second.NamesNothingHidden path) :
    first.resolve path = none ↔ second.resolve path = none := by
  rw [← Option.map_eq_none_iff (f := CommandNode.view), resolve_view_eq hview hfirst hsecond,
    Option.map_eq_none_iff]

/-! ### Completion -/

/-- The names that `Complete` offers at a node are those its view has. -/
theorem completions_view (node : CommandNode σ) (word : CommandString) :
    ((node.children.filter fun child =>
        !child.label.hidden && word.isPrefixOf child.label.name).map
      fun child => child.label.name) =
      (node.view.children.map fun child => child.label.name).filter word.isPrefixOf := by
  rw [CommandNode.children_view, List.map_map, List.filter_map, ← List.filter_filter]
  simp [Function.comp_def, NodeData.fields, Bool.and_comm]

theorem completionWord_fst_prefix (input : CommandString) (tokens : CommandPath) :
    (completionWord input tokens).1 <+: tokens := by
  rw [completionWord]
  split_ifs
  · exact List.dropLast_prefix tokens
  · exact List.prefix_rfl

/-- **Completion shows nothing of what is hidden.** -/
theorem complete_eq (hview : first.root.view = second.root.view) {input : CommandString}
    (hfirst : first.NamesNothingHidden (tokenize input).tokens)
    (hsecond : second.NamesNothingHidden (tokenize input).tokens) :
    first.complete input = second.complete input := by
  have hpath := completionWord_fst_prefix input (tokenize input).tokens
  have hresolve := resolve_view_eq hview (hfirst.of_prefix hpath) (hsecond.of_prefix hpath)
  rw [complete, complete]
  by_cases herror : (tokenize input).error = []
  · simp only [herror, ne_eq, not_true_eq_false, if_false, completions_view]
    cases hone : first.resolve (completionWord input (tokenize input).tokens).1 <;>
      cases htwo : second.resolve (completionWord input (tokenize input).tokens).1 <;>
      simp_all
  · simp only [herror, ne_eq, not_false_eq_true, if_true]

/-! ### Help -/

/-- The line of a child in `HelpChildren`. -/
def helpLine (child : NodeData σ) : CommandString :=
  if child.hidden then []
  else
    text "  " ++ child.name ++
      (if child.description ≠ [] then tab :: child.description else []) ++ [newline]

/-- Elements that contribute nothing may be left out of a concatenation. -/
theorem flatMap_filter_of_eq_nil {α β : Type*} {p : α → Bool} {f : α → List β}
    (h : ∀ x, p x = false → f x = []) (xs : List α) : (xs.filter p).flatMap f = xs.flatMap f := by
  induction xs with
  | nil => rfl
  | cons x xs ih =>
      cases hp : p x with
      | true => rw [List.filter_cons_of_pos hp, List.flatMap_cons, List.flatMap_cons, ih]
      | false =>
          rw [List.filter_cons_of_neg (by simp [hp]), List.flatMap_cons, h x hp, ih]
          rfl

/-- The child list is that of the view. -/
theorem helpChildren_view (node : CommandNode σ) : helpChildren node.view = helpChildren node := by
  show node.view.children.flatMap (fun child => helpLine child.label) =
    node.children.flatMap fun child => helpLine child.label
  have hhidden : ∀ child : CommandNode σ, (!child.label.hidden) = false →
      helpLine child.label = [] := by
    intro child h
    rw [helpLine, if_pos (by simpa using h)]
  rw [CommandNode.children_view, List.flatMap_map, ← flatMap_filter_of_eq_nil hhidden]
  simp only [CommandNode.label_view]
  rfl

/-- What the help text says of a node's own fields is in the view. -/
theorem fields_eq_of_view_eq {one two : CommandNode σ} (hview : one.view = two.view) :
    one.label.name = two.label.name ∧ one.label.description = two.label.description ∧
      one.label.parameters = two.label.parameters := by
  have hfields : one.label.fields = two.label.fields := by
    rw [← CommandNode.label_view, hview, CommandNode.label_view]
  show one.label.fields.name = two.label.fields.name ∧
    one.label.fields.description = two.label.fields.description ∧
    one.label.fields.parameters = two.label.fields.parameters
  rw [hfields]
  exact ⟨rfl, rfl, rfl⟩

theorem helpChildren_eq_of_view_eq {one two : CommandNode σ} (hview : one.view = two.view) :
    helpChildren one = helpChildren two := by
  rw [← helpChildren_view one, hview, helpChildren_view]

/-- The heading of the child list makes a help text longer. -/
theorem length_helpText_lt {one two : CommandNode σ} (hview : one.view = two.view)
    (hone : one.children = []) (htwo : two.children ≠ []) (full : CommandString)
    (isRoot : Bool) : (helpText one full isRoot).length < (helpText two full isRoot).length := by
  obtain ⟨hname, hdescription, hparameters⟩ := fields_eq_of_view_eq hview
  have hheading : 0 < (text "\nCommands:\n").length := by decide
  have hempty : two.children.isEmpty = false := by
    rw [Bool.eq_false_iff, ne_eq, List.isEmpty_iff]
    exact htwo
  rw [helpText, helpText, hname, hdescription, hparameters, helpChildren_eq_of_view_eq hview,
    hone, hempty]
  simp only [List.length_append, List.isEmpty_nil, if_true, Bool.false_eq_true, if_false,
    List.length_nil]
  split_ifs <;> simp only [List.length_append, List.length_nil] <;> omega

/-- **The help texts of nodes with one view.**  They are the same exactly when both
nodes have children, or neither has: a heading is written for children that are all
hidden. -/
theorem helpText_eq_iff {one two : CommandNode σ} (hview : one.view = two.view)
    (full : CommandString) (isRoot : Bool) :
    helpText one full isRoot = helpText two full isRoot ↔
      (one.children = [] ↔ two.children = []) := by
  constructor
  · intro h
    by_contra hdiffer
    by_cases htwo : two.children = []
    · have hlt := length_helpText_lt hview.symm htwo (fun hone => hdiffer (by simp [hone, htwo]))
        full isRoot
      rw [h] at hlt
      omega
    · have hone : one.children = [] := by tauto
      have hlt := length_helpText_lt hview hone htwo full isRoot
      rw [h] at hlt
      omega
  · intro h
    obtain ⟨hname, hdescription, hparameters⟩ := fields_eq_of_view_eq hview
    have hempty : one.children.isEmpty = two.children.isEmpty := by
      rw [Bool.eq_iff_iff, List.isEmpty_iff, List.isEmpty_iff, h]
    rw [helpText, helpText, hname, hdescription, hparameters,
      helpChildren_eq_of_view_eq hview, hempty]

/-- `Help` of a path tells two registries with one view apart exactly when the path leads
to a node that has children in one of them only. -/
theorem help_eq_iff (hview : first.root.view = second.root.view) {path : CommandPath}
    (hfirst : first.NamesNothingHidden path) (hsecond : second.NamesNothingHidden path) :
    first.help path = second.help path ↔
      ∀ one two, first.resolve path = some one → second.resolve path = some two →
        (one.children = [] ↔ two.children = []) := by
  have hresolve := resolve_view_eq hview hfirst hsecond
  rw [help, help]
  cases hone : first.resolve path with
  | none =>
      rw [(resolve_eq_none_iff hview hfirst hsecond).mp hone]
      simp
  | some one =>
      cases htwo : second.resolve path with
      | none =>
          rw [(resolve_eq_none_iff hview hfirst hsecond).mpr htwo] at hone
          cases hone
      | some two =>
          rw [hone, htwo] at hresolve
          have hiff := helpText_eq_iff (Option.some.inj hresolve) (joinPath path) path.isEmpty
          simpa using hiff

/-! ### Suggestions -/

/-- The name nearest to the token among the node's children, hidden ones included: the
first of the least distance, unless that is more than `Suggest` bridges. -/
def nearestName (node : CommandNode σ) (token : CommandString) : Option CommandString :=
  ((node.children.map fun child => child.label.name).argmin fun name =>
    distance name token).filter fun name => distance name token ≤ max 2 (token.length / 2)

theorem score_candidate (child : CommandNode σ) (token : CommandString) :
    ∀ r ∈ some (child, distance child.label.name token),
      r.2 = distance r.1.label.name token := by
  intro r hr
  obtain rfl := Option.mem_some.mp hr
  rfl

/-- The best child so far is kept with its score. -/
theorem bestMatch_score {token : CommandString} (children : List (CommandNode σ))
    {best : Option (CommandNode σ × ℕ)}
    (hbest : ∀ r ∈ best, r.2 = distance r.1.label.name token) :
    ∀ r ∈ bestMatch token best children, r.2 = distance r.1.label.name token := by
  induction children generalizing best with
  | nil => exact hbest
  | cons child rest ih =>
      cases best with
      | none => exact ih (score_candidate child token)
      | some kept =>
          rw [bestMatch]
          split_ifs with hless
          · exact ih (score_candidate child token)
          · exact ih hbest

/-- The loop of `Suggest` ends at the child of the nearest name. -/
theorem map_name_bestMatch {token : CommandString} (children : List (CommandNode σ))
    {best : Option (CommandNode σ × ℕ)}
    (hbest : ∀ r ∈ best, r.2 = distance r.1.label.name token) :
    (bestMatch token best children).map (fun r => r.1.label.name) =
      (children.map fun child => child.label.name).foldl
        (List.argAux fun name name' => distance name token < distance name' token)
        (best.map fun r => r.1.label.name) := by
  induction children generalizing best with
  | nil => rfl
  | cons child rest ih =>
      rw [List.map_cons, List.foldl_cons]
      cases best with
      | none => exact ih (score_candidate child token)
      | some kept =>
          have hkept := hbest kept rfl
          rw [bestMatch, hkept]
          show _ = List.foldl _ (if distance child.label.name token <
            distance kept.1.label.name token then _ else _) _
          split_ifs with hless
          · exact ih (score_candidate child token)
          · have := ih hbest
            rwa [← hkept]

/-- `Suggest` names the nearest child. -/
theorem suggest_eq (node : CommandNode σ) (token : CommandString) :
    suggest node token =
      match nearestName node token with
      | none => []
      | some name => text "Did you mean '" ++ name ++ text "'?" := by
  have hnone : ∀ r ∈ (none : Option (CommandNode σ × ℕ)),
      r.2 = distance r.1.label.name token := by
    intro r hr
    cases hr
  have hname := map_name_bestMatch node.children hnone
  have hscore := bestMatch_score node.children hnone
  rw [suggest, nearestName, List.argmin]
  rw [Option.map_none] at hname
  rw [← hname]
  cases hbest : bestMatch token none node.children with
  | none => rfl
  | some r =>
      have hr := hscore r (by rw [hbest]; rfl)
      obtain ⟨best, score⟩ := r
      obtain rfl : score = distance best.label.name token := hr
      rw [Option.map_some, Option.filter_some]
      by_cases hnear : distance best.label.name token ≤ max 2 (token.length / 2)
      · simp [hnear, Nat.not_lt.mpr hnear]
      · simp [hnear, Nat.lt_of_not_le hnear]

theorem suggest_eq_iff (one two : CommandNode σ) (token : CommandString) :
    suggest one token = suggest two token ↔ nearestName one token = nearestName two token := by
  rw [suggest_eq, suggest_eq]
  cases hone : nearestName one token <;> cases htwo : nearestName two token <;> simp [text]

/-! ### Two registries with one view -/

/-- The input names an unknown command: its first token is neither a spelling of the help
command nor leads to a node. -/
def NamesUnknown (registry : CommandRegistry σ) (input : CommandString) (token : CommandString) :
    Prop :=
  (tokenize input).tokens.head? = some token ∧ isHelpToken token = false ∧
    registry.resolve [token] = none

/-- The error for an unknown command. -/
def unknownCommand (registry : CommandRegistry σ) (token : CommandString) : CommandResult :=
  .error (buildCommandMessage (text "Unknown command '") token (text "'.\n") ++
    suggest registry.root token)

/-- A call that returns tokens has not failed. -/
theorem tokenize_error_of_head? {input token : CommandString}
    (h : (tokenize input).tokens.head? = some token) : (tokenize input).error = [] := by
  by_contra herror
  rw [tokenize_of_error herror] at h
  cases h

theorem invokeText_of_namesUnknown {registry : CommandRegistry σ} {input token : CommandString}
    (h : registry.NamesUnknown input token) (platform : Platform) :
    registry.invokeText platform input = pure (registry.unknownCommand token) := by
  obtain ⟨hhead, hhelp, hresolve⟩ := h
  obtain ⟨rest, htokens⟩ := List.head?_eq_some_iff.mp hhead
  have hdescend : descend registry.root (token :: rest) = (registry.root, [], token :: rest) := by
    rw [resolve_singleton] at hresolve
    rw [descend, hresolve]
  rw [invokeText]
  simp only [tokenize_error_of_head? hhead, htokens, hhelp, ne_eq, not_true_eq_false, if_false,
    Bool.false_eq_true]
  rw [invokeTokens, hdescend]
  rfl

/-- **What a user can tell apart**: the completions of the input, the help on its tokens,
and the error message of its invocation, from `state`, where it names an unknown
command. -/
structure Indistinguishable (platform : Platform) (state : σ) (first second : CommandRegistry σ)
    (input : CommandString) : Prop where
  complete : first.complete input = second.complete input
  help : first.help (tokenize input).tokens = second.help (tokenize input).tokens
  unknown : ∀ token, first.NamesUnknown input token ∨ second.NamesUnknown input token →
    ∃ message, (first.invokeText platform input).Returns state (.error message) state ∧
      (second.invokeText platform input).Returns state (.error message) state

/-- Where the tokens lead, there are children in both registries or in neither; and of an
unknown first token, the nearest name at the top level is the same in both. -/
structure Discreet (first second : CommandRegistry σ) (input : CommandString) : Prop where
  ends : ∀ one two, first.resolve (tokenize input).tokens = some one →
    second.resolve (tokenize input).tokens = some two → (one.children = [] ↔ two.children = [])
  nearest : ∀ token, first.NamesUnknown input token →
    nearestName first.root token = nearestName second.root token

/-- An unknown command is unknown in both. -/
theorem namesUnknown_iff (hview : first.root.view = second.root.view) {input : CommandString}
    (hfirst : first.NamesNothingHidden (tokenize input).tokens)
    (hsecond : second.NamesNothingHidden (tokenize input).tokens) (token : CommandString) :
    first.NamesUnknown input token ↔ second.NamesUnknown input token := by
  refine and_congr_right fun hhead => and_congr_right fun _ => ?_
  obtain ⟨rest, htokens⟩ := List.head?_eq_some_iff.mp hhead
  have hfront : [token] <+: (tokenize input).tokens := by
    rw [htokens]
    exact List.prefix_append [token] rest
  exact resolve_eq_none_iff hview (hfirst.of_prefix hfront) (hsecond.of_prefix hfront)

/-- Of a name unknown in both, equal messages suggest the same command. -/
theorem Indistinguishable.nearestName_eq {platform : Platform} {state : σ}
    {input token : CommandString} (h : Indistinguishable platform state first second input)
    (hone : first.NamesUnknown input token) (htwo : second.NamesUnknown input token) :
    nearestName first.root token = nearestName second.root token := by
  obtain ⟨message, hfirst, hsecond⟩ := h.unknown token (Or.inl hone)
  rw [invokeText_of_namesUnknown hone, Eff.Returns, Eff.runFrom_pure] at hfirst
  rw [invokeText_of_namesUnknown htwo, Eff.Returns, Eff.runFrom_pure] at hsecond
  simp only [Prod.mk.injEq, Except.ok.injEq, and_true] at hfirst hsecond
  have hmessage := congrArg CommandResult.message (hfirst.trans hsecond.symm)
  exact (suggest_eq_iff _ _ token).mp (List.append_cancel_left hmessage)

/-- **When hidden commands do not show.**  For registries that become equal once every
hidden node is deleted, and an input that names none, the texts are the same exactly when
the input is discreet. -/
theorem indistinguishable_iff (platform : Platform) (state : σ)
    (hview : first.root.view = second.root.view) {input : CommandString}
    (hfirst : first.NamesNothingHidden (tokenize input).tokens)
    (hsecond : second.NamesNothingHidden (tokenize input).tokens) :
    Indistinguishable platform state first second input ↔ Discreet first second input := by
  have hhelp := help_eq_iff hview hfirst hsecond
  have hunknown := namesUnknown_iff hview hfirst hsecond
  constructor
  · intro h
    refine ⟨hhelp.mp h.help, ?_⟩
    intro token htoken
    exact h.nearestName_eq htoken ((hunknown token).mp htoken)
  · intro h
    refine ⟨complete_eq hview hfirst hsecond, hhelp.mpr h.ends, ?_⟩
    intro token htoken
    have hone : first.NamesUnknown input token := htoken.elim id (hunknown token).mpr
    have htwo := (hunknown token).mp hone
    have hsuggest := (suggest_eq_iff _ _ token).mpr (h.nearest token hone)
    rw [invokeText_of_namesUnknown hone, invokeText_of_namesUnknown htwo]
    refine ⟨(first.unknownCommand token).message, rfl, ?_⟩
    rw [unknownCommand, unknownCommand, hsuggest]
    rfl

/-- The registry with the hidden command `secret`. -/
def secretRegistry : CommandRegistry Unit :=
  (initial.command (text "secret")).2.configure 1 (.hidden true)

/-- A slip of the keyboard gives the hidden name away. -/
theorem not_indistinguishable_secret :
    ¬ ∀ (platform : Platform) (state : Unit) (first second : CommandRegistry Unit)
        (input : CommandString), first.root.view = second.root.view →
        first.NamesNothingHidden (tokenize input).tokens →
        second.NamesNothingHidden (tokenize input).tokens →
        Indistinguishable platform state first second input := by
  intro h
  have hsecret := h .withoutFloatingText () secretRegistry initial (text "secrat") rfl
    (by decide) (by decide)
  have hnearest := hsecret.nearestName_eq
    (show NamesUnknown _ _ (text "secrat") from ⟨by decide, by decide, rfl⟩)
    (show NamesUnknown _ _ (text "secrat") from ⟨by decide, by decide, rfl⟩)
  revert hnearest
  decide

/-- A visible command in both, and an input nearer to it than to the hidden one. -/
theorem indistinguishable_iff_pump :
    Indistinguishable .withoutFloatingText () (secretRegistry.command (text "pump")).2
      ((initial : CommandRegistry Unit).command (text "pump")).2 (text "pumq") := by
  have hdiscreet : Discreet (secretRegistry.command (text "pump")).2
      ((initial : CommandRegistry Unit).command (text "pump")).2 (text "pumq") := by
    constructor
    · intro one two hone
      cases hone
    · intro token htoken
      have hhead : (tokenize (text "pumq")).tokens.head? = some (text "pumq") := by decide
      obtain rfl := Option.some.inj (htoken.1.symm.trans hhead)
      decide
  have hview : (secretRegistry.command (text "pump")).2.root.view =
      ((initial : CommandRegistry Unit).command (text "pump")).2.root.view := rfl
  have hnames : (secretRegistry.command (text "pump")).2.NamesNothingHidden
        (tokenize (text "pumq")).tokens ∧
      ((initial : CommandRegistry Unit).command (text "pump")).2.NamesNothingHidden
        (tokenize (text "pumq")).tokens := by decide
  exact (indistinguishable_iff _ _ hview hnames.1 hnames.2).mpr hdiscreet

end CommandRegistry

end EspressioCommand
