import EspressioCommand.Json.Describe
import EspressioCommand.Registry.Removal

/-!
# Discovery through descriptions

A client that has the description of a registry can look a path up in it: `follow` goes
down the lists of subcommands, and takes at each level the first whose name or alias is
the token.  `follow_describeDocument` says that it ends at the document that `Describe`
gives for the path, as long as no hidden command stands on the way.

`describeDocument_view_iff` is about what descriptions keep back: of two registries with
one visible tree, they differ only where a command has subcommands that are all hidden.
-/

namespace EspressioCommand

open Library

variable {σ : Type}

/-- The text of a JSON string. -/
def Json.string? : Json → Option CommandString
  | .string value => some value
  | _ => none

namespace JsonCommandInterpreter

/-- The documents of the subcommands that a description lists. -/
def subcommands (document : Json) : List Json :=
  ((document.object?.bind fun members => (jsonMember members "commands").array?)).getD []

/-- A described command has the token as its name or one of its aliases. -/
def answersTo (document : Json) (token : CommandString) : Bool :=
  match document.object? with
  | none => false
  | some members =>
      (jsonMember members "name").string? == some token ||
        ((jsonMember members "aliases").array?.getD []).any fun item => item.string? == some token

/-- Following a path through the lists of subcommands: at each level the first that
answers. -/
def follow : Json → CommandPath → Option Json
  | document, [] => some document
  | document, token :: rest =>
      match (subcommands document).find? fun command => answersTo command token with
      | none => none
      | some command => follow command rest

theorem nodup_nodeMembers (node : NodeData σ) (commands : Option (List Json)) :
    ((nodeMembers node commands).map fun member => text member.1).Nodup := by
  show [text "name", text "description", text "executable", text "hidden", text "deprecated",
    text "deprecationMessage", text "aliases", text "parameters", text "commands"].Nodup
  decide

/-- The aliases that a description lists are those of the command. -/
theorem aliases_nodeMembers (node : NodeData σ) (commands : Option (List Json)) :
    (jsonMember (presentMembers (nodeMembers node commands)) "aliases").array?.getD [] =
      node.aliases.map .string := by
  have hmember : ("aliases", if node.aliases ≠ [] then some (writeStringArray node.aliases)
      else none) ∈ nodeMembers node commands := by
    simp [nodeMembers]
  rw [jsonMember_presentMembers (nodup_nodeMembers node commands) hmember]
  split_ifs with hempty
  · rfl
  · rw [not_not.mp hempty]
    rfl

theorem commands_nodeMembers (node : NodeData σ) (commands : Option (List Json)) :
    (jsonMember (presentMembers (nodeMembers node commands)) "commands").array?.getD [] =
      commands.getD [] := by
  have hmember : ("commands", commands.map Json.array) ∈ nodeMembers node commands := by
    simp [nodeMembers]
  rw [jsonMember_presentMembers (nodup_nodeMembers node commands) hmember]
  cases commands <;> rfl

/-- A described command answers to what the command answers to. -/
theorem answersTo_writeNode (includeHidden : Bool) (node : CommandNode σ)
    (token : CommandString) :
    answersTo (writeNode includeHidden node) token = node.label.matchesValue token := by
  cases node with
  | node data children =>
      have hname : ("name", some (Json.string data.name)) ∈ nodeMembers data
          (if children.isEmpty then none else some (writeNodes includeHidden children)) :=
        List.mem_cons_self
      show ((jsonMember (presentMembers _) "name").string? == some token ||
        ((jsonMember (presentMembers _) "aliases").array?.getD []).any _) = _
      rw [jsonMember_presentMembers (nodup_nodeMembers _ _) hname, aliases_nodeMembers,
        List.any_map]
      show (some data.name == some token || data.aliases.any fun candidate =>
        some candidate == some token) = _
      have hcomm (candidate : CommandString) :
          (candidate == token) = (token == candidate) := BEq.comm
      simp only [NodeData.matchesValue, RoseTree.label_node, Option.some_beq_some, hcomm]

theorem subcommands_writeNode (includeHidden : Bool) (node : CommandNode σ) :
    subcommands (writeNode includeHidden node) = writeNodes includeHidden node.children := by
  cases node with
  | node data children =>
      have hcommands := commands_nodeMembers data
        (if children.isEmpty then none else some (writeNodes includeHidden children))
      show (jsonMember (presentMembers _) "commands").array?.getD [] = _
      rw [hcommands]
      cases children <;> rfl

theorem subcommands_describeDocument (registry : CommandRegistry σ) (includeHidden : Bool) :
    subcommands (describeDocument registry [] includeHidden) =
      writeNodes includeHidden registry.root.children := by
  rw [describeDocument_eq]
  rfl

/-- The first described child that answers is that of the first child that does, when
this one is shown. -/
theorem find?_writeNodes {includeHidden : Bool} {node : CommandNode σ} {token : CommandString}
    (h : ∀ child, node.findChild token = some child →
      (includeHidden || !child.label.hidden) = true) :
    ((writeNodes includeHidden node.children).find? fun command => answersTo command token) =
      (node.findChild token).map (writeNode includeHidden) := by
  rw [writeNodes_eq, List.find?_map, List.find?_filter, CommandNode.findChild,
    RoseTree.firstAnswer]
  congr 1
  simp only [Function.comp_def, answersTo_writeNode, Bool.decide_and, Bool.decide_eq_true]
  exact find?_and_of_find? h

/-- **Following a path in a description.**  It ends where `Describe` of the path starts,
if the commands on the way are shown. -/
theorem follow_eq {includeHidden : Bool} {document : Json} {node : CommandNode σ}
    {token : CommandString} {rest : CommandPath}
    (hdocument : subcommands document = writeNodes includeHidden node.children)
    (hshown : ∀ child ∈ node.trail NodeData.matchesValue (token :: rest),
      (includeHidden || !child.label.hidden) = true) :
    follow document (token :: rest) =
      (node.walk NodeData.matchesValue (token :: rest)).map (writeNode includeHidden) := by
  induction rest generalizing document node token with
  | nil =>
      have hfirst : ∀ child, node.findChild token = some child →
          (includeHidden || !child.label.hidden) = true := by
        intro child hchild
        exact hshown child (by rw [RoseTree.trail_cons_of_some hchild]; exact List.mem_cons_self)
      rw [follow, hdocument, find?_writeNodes hfirst, RoseTree.walk_cons]
      show _ = ((CommandNode.findChild node token).bind some).map _
      cases CommandNode.findChild node token <;> rfl
  | cons next rest ih =>
      have hfirst : ∀ child, node.findChild token = some child →
          (includeHidden || !child.label.hidden) = true := by
        intro child hchild
        exact hshown child (by rw [RoseTree.trail_cons_of_some hchild]; exact List.mem_cons_self)
      rw [follow, hdocument, find?_writeNodes hfirst, RoseTree.walk_cons]
      cases hchild : CommandNode.findChild node token with
      | none =>
          have hnone : node.firstAnswer NodeData.matchesValue token = none := hchild
          rw [hnone]
          rfl
      | some child =>
          have hsome : node.firstAnswer NodeData.matchesValue token = some child := hchild
          rw [hsome]
          refine ih (subcommands_writeNode includeHidden child) ?_
          intro below hbelow
          refine hshown below ?_
          rw [RoseTree.trail_cons_of_some hsome]
          exact List.mem_cons_of_mem _ hbelow

/-- **Descriptions are compositional.**  What `Describe` says of a path is what a client
finds that looks the path up in the description of the whole registry, if the commands on
the way are shown. -/
theorem follow_describeDocument (registry : CommandRegistry σ) {path : CommandPath}
    (hpath : path ≠ []) {includeHidden : Bool}
    (hshown : ∀ node ∈ registry.visited path, (includeHidden || !node.label.hidden) = true) :
    follow (describeDocument registry [] includeHidden) path =
        (registry.resolve path).map (writeNode includeHidden) ∧
      ((describeDocument registry path includeHidden).object?.map fun members =>
          jsonMember members "command") =
        some ((follow (describeDocument registry [] includeHidden) path).getD .null) := by
  have hfollow : follow (describeDocument registry [] includeHidden) path =
      (registry.resolve path).map (writeNode includeHidden) := by
    cases path with
    | nil => exact absurd rfl hpath
    | cons token rest => exact follow_eq (subcommands_describeDocument registry _) hshown
  refine ⟨hfollow, ?_⟩
  rw [hfollow, describeDocument_eq, if_neg hpath]
  cases registry.resolve path with
  | none => rfl
  | some node => rfl

/-- `relay on` is found in the description of the registry without hidden commands. -/
theorem follow_describeDocument_relaySwitch :
    follow (describeDocument CommandRegistry.relaySwitch [] false) [text "relay", text "on"] =
      (CommandRegistry.relaySwitch.resolve [text "relay", text "on"]).map (writeNode false) :=
  (follow_describeDocument CommandRegistry.relaySwitch
    (List.cons_ne_nil (text "relay") [text "on"]) (by decide)).1

end JsonCommandInterpreter

/-! ### What stays hidden -/

namespace CommandNode

mutual

/-- For a command and those below it that are not hidden: whether it has subcommands. -/
def groups : CommandNode σ → RoseTree Bool
  | .node _ children => .node (!children.isEmpty) (groupsForest children)

/-- The same for the commands of a list that are not hidden. -/
def groupsForest : List (CommandNode σ) → List (RoseTree Bool)
  | [] => []
  | child :: rest =>
      if child.label.hidden then groupsForest rest else groups child :: groupsForest rest

end

theorem groupsForest_eq (children : List (CommandNode σ)) :
    groupsForest children = (children.filter fun child => !child.label.hidden).map groups := by
  induction children with
  | nil => rfl
  | cons child rest ih =>
      rw [groupsForest, ih]
      cases hhidden : child.label.hidden <;> simp [hhidden]

/-- The outline of a node without what is hidden, in two parts. -/
theorem outline_eq_iff_of_view_eq {one two : CommandNode σ} (hview : one.view = two.view) :
    one.outline false = two.outline false ↔ one.groups = two.groups := by
  induction one using RoseTree.inductionOn generalizing two with
  | node a cs ih =>
      cases two with
      | node b ds =>
          have hfields : a.fields = b.fields := by
            have := congrArg RoseTree.label hview
            rwa [label_view, label_view] at this
          have houtline (grouped : Bool) : a.outline grouped = b.outline grouped := by
            show a.fields.outline grouped = b.fields.outline grouped
            rw [hfields]
          have hchildren := congrArg RoseTree.children hview
          rw [children_view, children_view, RoseTree.children_node,
            RoseTree.children_node] at hchildren
          rw [outline, outline, groups, groups, RoseTree.node.injEq, RoseTree.node.injEq,
            outlines_eq, outlines_eq, groupsForest_eq, groupsForest_eq]
          simp only [Bool.false_or]
          refine and_congr ?_ ?_
          · rw [houtline]
            constructor
            · intro h
              exact congrArg NodeOutline.grouped h
            · intro h
              rw [h]
          · refine map_eq_map_iff_of_map_eq hchildren fun c hc d _ hcd => ?_
            exact ih c (List.mem_of_mem_filter hc) hcd

theorem outlines_eq_iff_of_view_eq {cs ds : List (CommandNode σ)}
    (hview : (cs.filter fun child => !child.label.hidden).map view =
      (ds.filter fun child => !child.label.hidden).map view) :
    outlines false cs = outlines false ds ↔ groupsForest cs = groupsForest ds := by
  rw [outlines_eq, outlines_eq, groupsForest_eq, groupsForest_eq]
  exact map_eq_map_iff_of_map_eq hview fun _ _ _ _ hcd => outline_eq_iff_of_view_eq hcd

end CommandNode

/-- What a description of the path shows of which commands have subcommands. -/
def CommandRegistry.groups (registry : CommandRegistry σ) (path : CommandPath) :
    Option (List (RoseTree Bool)) :=
  if path = [] then some (CommandNode.groupsForest registry.root.children)
  else (registry.resolve path).map fun node => [node.groups]

namespace JsonCommandInterpreter

/-- **What descriptions keep back.**  Where two registries become equal once every hidden
node is deleted, and the path names none, the descriptions without hidden commands differ
exactly when some command that is shown has subcommands in one registry and none in the
other: the empty list of its subcommands is written when they are all hidden. -/
theorem describeDocument_view_iff {first second : CommandRegistry σ}
    (hview : first.root.view = second.root.view) {path : CommandPath}
    (hfirst : first.NamesNothingHidden path) (hsecond : second.NamesNothingHidden path) :
    describeDocument first path false = describeDocument second path false ↔
      first.groups path = second.groups path := by
  rw [describeDocument_eq_iff, CommandRegistry.outline, CommandRegistry.outline,
    CommandRegistry.groups, CommandRegistry.groups]
  simp only [true_and]
  by_cases hpath : path = []
  · simp only [hpath, if_true, Option.some.injEq]
    have hchildren := congrArg RoseTree.children hview
    rw [CommandNode.children_view, CommandNode.children_view] at hchildren
    exact CommandNode.outlines_eq_iff_of_view_eq hchildren
  · simp only [hpath, if_false]
    have hresolve := CommandRegistry.resolve_view_eq hview hfirst hsecond
    cases hone : first.resolve path with
    | none =>
        rw [(CommandRegistry.resolve_eq_none_iff hview hfirst hsecond).mp hone]
        simp
    | some one =>
        cases htwo : second.resolve path with
        | none =>
            rw [(CommandRegistry.resolve_eq_none_iff hview hfirst hsecond).mpr htwo] at hone
            cases hone
        | some two =>
            rw [hone, htwo] at hresolve
            simpa using CommandNode.outline_eq_iff_of_view_eq (Option.some.inj hresolve)

/-- Next to a visible command, a hidden one does not show at the top level. -/
theorem describeDocument_view_iff_pump :
    describeDocument (CommandRegistry.secretRegistry.command (text "pump")).2 [] false =
      describeDocument ((.initial : CommandRegistry Unit).command (text "pump")).2 [] false :=
  (describeDocument_view_iff rfl (by decide) (by decide)).mpr rfl

end JsonCommandInterpreter

end EspressioCommand
