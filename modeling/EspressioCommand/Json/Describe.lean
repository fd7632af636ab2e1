import EspressioCommand.Json.JsonCommandInterpreter
import EspressioCommand.Registry.Visibility
import EspressioCommand.Value.Narrowing

/-!
# `JsonCommandInterpreter::Describe`

The document that `Describe` hands to `serializeJson`, and `SerializeResult`.  An
`output[key] = value` behind an `if` is an optional member here: `presentMembers` keeps
those that are there.  Texts are stored with their size, so all their bytes count.

`CommandNode.outline` is what a description says of a command, without JSON:
`writeNode_eq_iff` and `describe_eq_iff` say that it says no more and no less.
-/

namespace EspressioCommand

open Library

variable {σ σ' : Type}

/-- Two functions tell the same elements apart, and then the same lists of them. -/
theorem map_eq_map_iff {α β γ δ : Type*} {f : α → γ} {g : β → γ} {f' : α → δ} {g' : β → δ}
    {xs : List α} {ys : List β} (h : ∀ x ∈ xs, ∀ y ∈ ys, (f x = g y ↔ f' x = g' y)) :
    xs.map f = ys.map g ↔ xs.map f' = ys.map g' := by
  induction xs generalizing ys with
  | nil => simp only [List.map_nil, List.nil_eq, List.map_eq_nil_iff]
  | cons x xs ih =>
      cases ys with
      | nil => simp
      | cons y ys =>
          rw [List.map_cons, List.map_cons, List.map_cons, List.map_cons, List.cons.injEq,
            List.cons.injEq, h x (by simp) y (by simp),
            ih fun z hz w hw => h z (by simp [hz]) w (by simp [hw])]

/-- The same for elements that a third function does not tell apart. -/
theorem map_eq_map_iff_of_map_eq {α β γ δ : Type*} {f : α → β} {g : α → γ} {v : α → δ}
    {xs ys : List α} (hv : xs.map v = ys.map v)
    (h : ∀ x ∈ xs, ∀ y ∈ ys, v x = v y → (f x = f y ↔ g x = g y)) :
    xs.map f = ys.map f ↔ xs.map g = ys.map g := by
  induction xs generalizing ys with
  | nil =>
      rw [List.map_eq_nil_iff.mp hv.symm]
      exact iff_of_true rfl rfl
  | cons x xs ih =>
      cases ys with
      | nil => cases hv
      | cons y ys =>
          obtain ⟨hx, hxs⟩ := List.cons_eq_cons.mp hv
          rw [List.map_cons, List.map_cons, List.map_cons, List.map_cons, List.cons.injEq,
            List.cons.injEq, h x (by simp) y (by simp) hx,
            ih hxs fun z hz w hw => h z (by simp [hz]) w (by simp [hw])]

/-! ### Writing objects -/

/-- The members of an object whose keys are assigned in this order, where they are. -/
def presentMembers (members : List (String × Option Json)) : List (CommandString × Json) :=
  members.filterMap fun member => member.2.map fun value => (text member.1, value)

/-- Objects with the same keys, none of them twice, are the same only member by
member. -/
theorem presentMembers_inj {members members' : List (String × Option Json)}
    (hkeys : members.map Prod.fst = members'.map Prod.fst)
    (hdistinct : (members.map fun member => text member.1).Nodup)
    (h : presentMembers members = presentMembers members') : members = members' := by
  -- a later member has another key, so that it does not stand in for a missing one
  have hother {key : String} {rest : List (String × Option Json)}
      (hkey : text key ∉ rest.map fun member => text member.1) (value : Json) :
      ∀ tail, presentMembers rest ≠ (text key, value) :: tail := by
    rintro tail heq
    have hmem : (text key, value) ∈ presentMembers rest := heq ▸ List.mem_cons_self
    obtain ⟨member, hmember, hvalue⟩ := List.mem_filterMap.mp hmem
    obtain ⟨_, -, heq⟩ := Option.map_eq_some_iff.mp hvalue
    exact hkey (List.mem_map.mpr ⟨member, hmember, (congrArg Prod.fst heq)⟩)
  induction members generalizing members' with
  | nil => exact (List.map_eq_nil_iff.mp hkeys.symm).symm
  | cons member members ih =>
      cases members' with
      | nil => cases hkeys
      | cons member' members' =>
          obtain ⟨key, value⟩ := member
          obtain ⟨key', value'⟩ := member'
          obtain ⟨hkey, hrest⟩ := List.cons_eq_cons.mp hkeys
          obtain rfl : key = key' := hkey
          obtain ⟨hfresh, hnodup⟩ := List.nodup_cons.mp hdistinct
          have hfresh' : text key ∉ members'.map fun member => text member.1 := by
            have hmap : (members.map Prod.fst).map text = (members'.map Prod.fst).map text :=
              congrArg _ hrest
            rw [List.map_map, List.map_map] at hmap
            show text key ∉ members'.map (text ∘ Prod.fst)
            rw [← hmap]
            exact hfresh
          cases value with
          | none =>
              cases value' with
              | none => rw [ih hrest hnodup h]
              | some value' => exact absurd h (hother hfresh value' _)
          | some value =>
              cases value' with
              | none => exact absurd h.symm (hother hfresh' value _)
              | some value' =>
                  obtain ⟨heq, htail⟩ := List.cons_eq_cons.mp h
                  obtain rfl : value = value' := congrArg Prod.snd heq
                  rw [ih hrest hnodup htail]

theorem jsonMember_presentMembers {members : List (String × Option Json)}
    (hdistinct : (members.map fun member => text member.1).Nodup) {key : String}
    {value : Option Json} (hmember : (key, value) ∈ members) :
    jsonMember (presentMembers members) key = value.getD .null := by
  induction members with
  | nil => cases hmember
  | cons member members ih =>
      obtain ⟨hfresh, hnodup⟩ := List.nodup_cons.mp hdistinct
      rcases List.mem_cons.mp hmember with rfl | hrest
      · cases value with
        | some value =>
            simp [jsonMember, presentMembers]
        | none =>
            -- no later member has the key
            have hnone : (presentMembers members).find?
                (fun member => member.1 == text key) = none := by
              rw [List.find?_eq_none]
              rintro ⟨key', value'⟩ hmem heq
              obtain ⟨member, hmember, hvalue⟩ := List.mem_filterMap.mp hmem
              obtain ⟨_, -, hpair⟩ := Option.map_eq_some_iff.mp hvalue
              obtain rfl : text member.1 = key' := congrArg Prod.fst hpair
              exact hfresh (List.mem_map.mpr ⟨member, hmember, by simpa using heq⟩)
            show ((presentMembers members).find? _ |>.map Prod.snd).getD .null = _
            rw [hnone]
            rfl
      · have hkey : (text member.1 == text key) = false := by
          rw [beq_eq_false_iff_ne]
          intro heq
          exact hfresh (List.mem_map.mpr ⟨_, hrest, heq.symm⟩)
        rw [← ih hnodup hrest]
        obtain ⟨key', value'⟩ := member
        cases value' with
        | none => rfl
        | some value' => simp [jsonMember, presentMembers, hkey]

namespace JsonCommandInterpreter

/-- `WriteStringArray`. -/
def writeStringArray (values : List CommandString) : Json := .array (values.map .string)

/-- `KindName`; its last line is not reached. -/
def kindName : ParameterKind → String
  | .string => "string"
  | .boolean => "boolean"
  | .signedInteger => "signed-integer"
  | .unsignedInteger => "unsigned-integer"
  | .floatingPoint => "floating-point"
  | .enumeration => "enumeration"

/-- The members that `WriteParameter` assigns. -/
def parameterMembers (parameter : CommandParameter σ) : List (String × Option Json) :=
  [("name", some (.string parameter.name)),
    ("description", some (.string parameter.description)),
    ("type", some (.string (text (kindName parameter.kind)))),
    ("required", some (.boolean parameter.required)),
    ("namedOnly", some (.boolean parameter.namedOnly)),
    ("default", if parameter.hasDefault then some (.string parameter.defaultValue) else none),
    ("minimum",
      if parameter.hasRange then some (.floating (Double.ofLongDouble parameter.minimum))
      else none),
    ("maximum",
      if parameter.hasRange then some (.floating (Double.ofLongDouble parameter.maximum))
      else none),
    ("aliases",
      if parameter.aliases ≠ [] then some (writeStringArray parameter.aliases) else none),
    ("choices",
      if parameter.choices ≠ [] then some (writeStringArray parameter.choices) else none)]

/-- `WriteParameter`. -/
def writeParameter (parameter : CommandParameter σ) : Json :=
  .object (presentMembers (parameterMembers parameter))

/-- The members that `WriteNode` assigns, the last of them from the children's objects. -/
def nodeMembers (node : NodeData σ) (commands : Option (List Json)) :
    List (String × Option Json) :=
  [("name", some (.string node.name)),
    ("description", some (.string node.description)),
    ("executable", some (.boolean node.callback.isSome)),
    ("hidden", some (.boolean node.hidden)),
    ("deprecated", some (.boolean node.deprecated)),
    ("deprecationMessage",
      if node.deprecated && !node.deprecationMessage.isEmpty then
        some (.string node.deprecationMessage)
      else none),
    ("aliases", if node.aliases ≠ [] then some (writeStringArray node.aliases) else none),
    ("parameters",
      if node.parameters ≠ [] then some (.array (node.parameters.map writeParameter)) else none),
    ("commands", commands.map .array)]

mutual

/-- `WriteNode`. -/
def writeNode (includeHidden : Bool) : CommandNode σ → Json
  | .node data children =>
      .object (presentMembers (nodeMembers data
        -- the test is on all children, shown or not
        (if children.isEmpty then none else some (writeNodes includeHidden children))))

/-- The loop over children in `WriteNode` and `Describe`. -/
def writeNodes (includeHidden : Bool) : List (CommandNode σ) → List Json
  | [] => []
  | child :: rest =>
      if !includeHidden && child.label.hidden then writeNodes includeHidden rest
      else writeNode includeHidden child :: writeNodes includeHidden rest

end

/-- The document that `Describe` serializes. -/
def describeDocument (registry : CommandRegistry σ) (path : CommandPath)
    (includeHidden : Bool) : Json :=
  let node := if path.isEmpty then some registry.root else registry.resolve path
  .object (presentMembers
    (("path", some (writeStringArray path)) ::
      match node with
      | none =>
          [("success", some (.boolean false)),
            ("error", some (.string (text "Unknown command path")))]
      | some node =>
          [("success", some (.boolean true)),
            if path.isEmpty then
              ("commands", some (.array (writeNodes includeHidden node.children)))
            else ("command", some (writeNode includeHidden node))]))

/-- `Describe`. -/
def describe (serializeJson : Json → CommandString) (registry : CommandRegistry σ)
    (path : CommandPath) (includeHidden : Bool) : CommandString :=
  serializeJson (describeDocument registry path includeHidden)

end JsonCommandInterpreter

/-! ### What a description says -/

/-- What a description says of a parameter. -/
structure ParameterOutline where
  name : CommandString
  description : CommandString
  kind : ParameterKind
  required : Bool
  namedOnly : Bool
  defaultValue : Option CommandString
  range : Option (Double × Double)
  aliases : List CommandString
  choices : List CommandString
deriving DecidableEq

/-- What a description says of a command, apart from its subcommands; of those it tells
whether there are any. -/
structure NodeOutline where
  name : CommandString
  description : CommandString
  executable : Bool
  hidden : Bool
  deprecated : Bool
  /-- Empty as well when the command is not deprecated. -/
  deprecationMessage : CommandString
  aliases : List CommandString
  parameters : List ParameterOutline
  grouped : Bool
deriving DecidableEq

/-- The limits of a range as they are written. -/
def CommandParameter.outline (parameter : CommandParameter σ) : ParameterOutline where
  name := parameter.name
  description := parameter.description
  kind := parameter.kind
  required := parameter.required
  namedOnly := parameter.namedOnly
  defaultValue := if parameter.hasDefault then some parameter.defaultValue else none
  range :=
    if parameter.hasRange then
      some (Double.ofLongDouble parameter.minimum, Double.ofLongDouble parameter.maximum)
    else none
  aliases := parameter.aliases
  choices := parameter.choices

def NodeData.outline (node : NodeData σ) (grouped : Bool) : NodeOutline where
  name := node.name
  description := node.description
  executable := node.callback.isSome
  hidden := node.hidden
  deprecated := node.deprecated
  deprecationMessage := if node.deprecated then node.deprecationMessage else []
  aliases := node.aliases
  parameters := node.parameters.map CommandParameter.outline
  grouped := grouped

namespace CommandNode

mutual

/-- What a description says of a command and of the commands below it that it shows. -/
def outline (includeHidden : Bool) : CommandNode σ → RoseTree NodeOutline
  | .node data children =>
      .node (data.outline !children.isEmpty) (outlines includeHidden children)

/-- The same of the commands of a list that are shown. -/
def outlines (includeHidden : Bool) : List (CommandNode σ) → List (RoseTree NodeOutline)
  | [] => []
  | child :: rest =>
      if !includeHidden && child.label.hidden then outlines includeHidden rest
      else outline includeHidden child :: outlines includeHidden rest

end

end CommandNode

namespace JsonCommandInterpreter

theorem writeStringArray_injective : Function.Injective writeStringArray := by
  intro values values' h
  have hstring : Function.Injective Json.string := fun _ _ h => Json.string.inj h
  exact hstring.list_map (Json.array.inj h)

theorem text_kindName_injective :
    Function.Injective fun kind : ParameterKind => text (kindName kind) := by
  intro kind kind'
  cases kind <;> cases kind' <;> decide

/-- A list that is written only when it is not empty is written as what it is. -/
theorem writeUnlessEmpty_inj {α β : Type*} {f : List α → β} (hf : Function.Injective f)
    {xs ys : List α} [Decidable (xs ≠ [])] [Decidable (ys ≠ [])]
    (h : (if xs ≠ [] then some (f xs) else none) = if ys ≠ [] then some (f ys) else none) :
    xs = ys := by
  split_ifs at h with hxs hys hys
  · exact hf (Option.some.inj h)
  · rw [not_not.mp hxs, not_not.mp hys]

/-- An optional value is written as what it is. -/
theorem writeIf_inj {α β : Type*} {f : α → β} (hf : Function.Injective f) {c c' : Bool}
    {x y : α} (h : (if c then some (f x) else none) = if c' then some (f y) else none) :
    (if c then some x else none) = if c' then some y else none := by
  cases c <;> cases c' <;> simp_all [hf.eq_iff]

theorem parameterMembers_eq_of_outline_eq {parameter : CommandParameter σ}
    {parameter' : CommandParameter σ'} (h : parameter.outline = parameter'.outline) :
    parameterMembers parameter = parameterMembers parameter' := by
  simp only [CommandParameter.outline, ParameterOutline.mk.injEq] at h
  obtain ⟨hname, hdescription, hkind, hrequired, hnamedOnly, hdefault, hrange, haliases,
    hchoices⟩ := h
  have hdefault := congrArg (Option.map Json.string) hdefault
  have hminimum := congrArg (Option.map fun range => Json.floating range.1) hrange
  have hmaximum := congrArg (Option.map fun range => Json.floating range.2) hrange
  simp only [apply_ite (Option.map _), Option.map_some, Option.map_none]
    at hdefault hminimum hmaximum
  rw [parameterMembers, hname, hdescription, hkind, hrequired, hnamedOnly, hdefault, hminimum,
    hmaximum, haliases, hchoices]
  rfl

/-- **Parameters.**  Two are described alike exactly when they have one outline. -/
theorem writeParameter_eq_iff (parameter : CommandParameter σ) (parameter' : CommandParameter σ') :
    writeParameter parameter = writeParameter parameter' ↔
      parameter.outline = parameter'.outline := by
  constructor
  · intro h
    have hmembers : parameterMembers parameter = parameterMembers parameter' :=
      presentMembers_inj rfl
        (by
          show [text "name", text "description", text "type", text "required",
            text "namedOnly", text "default", text "minimum", text "maximum", text "aliases",
            text "choices"].Nodup
          decide) (Json.object.inj h)
    simp only [parameterMembers, List.cons.injEq, Prod.mk.injEq, true_and, and_true,
      Option.some.injEq, Json.string.injEq, Json.boolean.injEq] at hmembers
    obtain ⟨hname, hdescription, hkind, hrequired, hnamedOnly, hdefault, hminimum, hmaximum,
      haliases, hchoices⟩ := hmembers
    have hdefault := writeIf_inj (fun _ _ h => Json.string.inj h) hdefault
    have hminimum := writeIf_inj (fun _ _ h => Json.floating.inj h) hminimum
    have hmaximum := writeIf_inj (fun _ _ h => Json.floating.inj h) hmaximum
    have haliases := writeUnlessEmpty_inj writeStringArray_injective haliases
    have hchoices := writeUnlessEmpty_inj writeStringArray_injective hchoices
    have hrange : parameter.outline.range = parameter'.outline.range := by
      rw [CommandParameter.outline, CommandParameter.outline]
      cases hhas : parameter.hasRange <;> cases hhas' : parameter'.hasRange <;>
        simp_all
    rw [CommandParameter.outline, CommandParameter.outline] at *
    simp only [ParameterOutline.mk.injEq]
    exact ⟨hname, hdescription, text_kindName_injective hkind, hrequired, hnamedOnly, hdefault,
      hrange, haliases, hchoices⟩
  · intro h
    rw [writeParameter, parameterMembers_eq_of_outline_eq h]
    rfl

theorem map_writeParameter_eq_iff (parameters : List (CommandParameter σ))
    (parameters' : List (CommandParameter σ')) :
    parameters.map writeParameter = parameters'.map writeParameter ↔
      parameters.map CommandParameter.outline = parameters'.map CommandParameter.outline :=
  map_eq_map_iff fun parameter _ parameter' _ => writeParameter_eq_iff parameter parameter'

/-- The message is written where it says something: for a deprecated node, if not empty. -/
theorem writeMessage_eq_iff (deprecated : Bool) (message message' : CommandString) :
    ((if deprecated && !message.isEmpty then some (Json.string message) else none) =
        if deprecated && !message'.isEmpty then some (Json.string message') else none) ↔
      (if deprecated then message else []) = if deprecated then message' else [] := by
  cases deprecated with
  | false => exact iff_of_true rfl rfl
  | true => cases message <;> cases message' <;> simp

/-- The members of a node: its own fields and, if it has children, their objects. -/
theorem nodeMembers_eq_iff (node : NodeData σ) (node' : NodeData σ')
    (commands commands' : Option (List Json)) :
    presentMembers (nodeMembers node commands) = presentMembers (nodeMembers node' commands') ↔
      node.outline commands.isSome = node'.outline commands'.isSome ∧ commands = commands' := by
  constructor
  · intro h
    have hmembers : nodeMembers node commands = nodeMembers node' commands' :=
      presentMembers_inj rfl
        (by
          show [text "name", text "description", text "executable", text "hidden",
            text "deprecated", text "deprecationMessage", text "aliases", text "parameters",
            text "commands"].Nodup
          decide) h
    simp only [nodeMembers, List.cons.injEq, Prod.mk.injEq, true_and, and_true,
      Option.some.injEq, Json.string.injEq, Json.boolean.injEq] at hmembers
    obtain ⟨hname, hdescription, hexecutable, hhidden, hdeprecated, hmessage, haliases,
      hparameters, hcommands⟩ := hmembers
    have haliases := writeUnlessEmpty_inj writeStringArray_injective haliases
    have hcommands : commands = commands' :=
      Option.map_injective (fun _ _ h => Json.array.inj h) hcommands
    have hparameters : node.parameters.map CommandParameter.outline =
        node'.parameters.map CommandParameter.outline := by
      rw [← map_writeParameter_eq_iff]
      split_ifs at hparameters with hone htwo htwo
      · exact Json.array.inj (Option.some.inj hparameters)
      · rw [not_not.mp hone, not_not.mp htwo]
        rfl
    rw [hdeprecated, writeMessage_eq_iff] at hmessage
    refine ⟨?_, hcommands⟩
    rw [NodeData.outline, NodeData.outline, hname, hdescription, hexecutable, hhidden,
      hdeprecated, hmessage, haliases, hparameters, hcommands]
  · rintro ⟨houtline, rfl⟩
    simp only [NodeData.outline, NodeOutline.mk.injEq] at houtline
    obtain ⟨hname, hdescription, hexecutable, hhidden, hdeprecated, hmessage, haliases,
      hparameters, -⟩ := houtline
    have hparameters' := (map_writeParameter_eq_iff _ _).mpr hparameters
    have hnone : node.parameters ≠ [] ↔ node'.parameters ≠ [] := by
      rw [← not_iff_not, not_not, not_not, ← List.map_eq_nil_iff (f := CommandParameter.outline),
        hparameters, List.map_eq_nil_iff]
    rw [hdeprecated, ← writeMessage_eq_iff] at hmessage
    simp only [nodeMembers, hname, hdescription, hexecutable, hhidden, hdeprecated, hmessage,
      haliases, hparameters', hnone]

/-- The objects of the children that are shown. -/
theorem writeNodes_eq (includeHidden : Bool) (children : List (CommandNode σ)) :
    writeNodes includeHidden children =
      (children.filter fun child => includeHidden || !child.label.hidden).map
        (writeNode includeHidden) := by
  induction children with
  | nil => rfl
  | cons child rest ih =>
      rw [writeNodes, ih]
      cases includeHidden <;> cases hhidden : child.label.hidden <;> simp [hhidden]

end JsonCommandInterpreter

theorem CommandNode.outlines_eq (includeHidden : Bool) (children : List (CommandNode σ)) :
    outlines includeHidden children =
      (children.filter fun child => includeHidden || !child.label.hidden).map
        (outline includeHidden) := by
  induction children with
  | nil => rfl
  | cons child rest ih =>
      rw [outlines, ih]
      cases includeHidden <;> cases hhidden : child.label.hidden <;> simp [hhidden]

namespace JsonCommandInterpreter

/-- **Commands.**  Two are described alike exactly when they have one outline: nothing
else is told of them, and nothing of that is lost. -/
theorem writeNode_eq_iff (includeHidden includeHidden' : Bool) (node : CommandNode σ)
    (node' : CommandNode σ') :
    writeNode includeHidden node = writeNode includeHidden' node' ↔
      node.outline includeHidden = node'.outline includeHidden' := by
  induction node using RoseTree.inductionOn generalizing node' with
  | node a cs ih =>
      cases node' with
      | node b ds =>
          have hlists : writeNodes includeHidden cs = writeNodes includeHidden' ds ↔
              CommandNode.outlines includeHidden cs = CommandNode.outlines includeHidden' ds := by
            rw [writeNodes_eq, writeNodes_eq, CommandNode.outlines_eq, CommandNode.outlines_eq]
            exact map_eq_map_iff fun c hc d _ => ih c (List.mem_of_mem_filter hc) d
          rw [writeNode, writeNode, Json.object.injEq, nodeMembers_eq_iff, CommandNode.outline,
            CommandNode.outline, RoseTree.node.injEq, ← hlists]
          cases hcs : cs.isEmpty <;> cases hds : ds.isEmpty
          · simp
          · simp [NodeData.outline]
          · simp [NodeData.outline]
          · rw [List.isEmpty_iff.mp hcs, List.isEmpty_iff.mp hds]
            simp [writeNodes]

end JsonCommandInterpreter

namespace CommandRegistry

/-- What a description of a path says: the outlines of the top-level commands, or that
of the command at the path. -/
def outline (registry : CommandRegistry σ) (path : CommandPath) (includeHidden : Bool) :
    Option (List (RoseTree NodeOutline)) :=
  if path = [] then some (CommandNode.outlines includeHidden registry.root.children)
  else (registry.resolve path).map fun node => [node.outline includeHidden]

end CommandRegistry

namespace JsonCommandInterpreter

theorem writeNodes_eq_iff (includeHidden includeHidden' : Bool)
    (children : List (CommandNode σ)) (children' : List (CommandNode σ')) :
    writeNodes includeHidden children = writeNodes includeHidden' children' ↔
      CommandNode.outlines includeHidden children =
        CommandNode.outlines includeHidden' children' := by
  rw [writeNodes_eq, writeNodes_eq, CommandNode.outlines_eq, CommandNode.outlines_eq]
  exact map_eq_map_iff fun child _ child' _ => writeNode_eq_iff _ _ child child'

/-- The members of a description. -/
theorem describeDocument_eq (registry : CommandRegistry σ) (path : CommandPath)
    (includeHidden : Bool) :
    describeDocument registry path includeHidden =
      .object ((text "path", writeStringArray path) ::
        if path = [] then
          [(text "success", .boolean true),
            (text "commands", .array (writeNodes includeHidden registry.root.children))]
        else
          match registry.resolve path with
          | none =>
              [(text "success", .boolean false),
                (text "error", .string (text "Unknown command path"))]
          | some node =>
              [(text "success", .boolean true),
                (text "command", writeNode includeHidden node)]) := by
  rw [describeDocument]
  cases path with
  | nil => rfl
  | cons token rest =>
      cases registry.resolve (token :: rest) with
      | none => rfl
      | some node => rfl

/-- **A description says what the outline says.**  Two descriptions are one document
exactly when they are of one path and there the registries have one outline. -/
theorem describeDocument_eq_iff (registry : CommandRegistry σ) (registry' : CommandRegistry σ')
    (path path' : CommandPath) (includeHidden includeHidden' : Bool) :
    describeDocument registry path includeHidden =
        describeDocument registry' path' includeHidden' ↔
      path = path' ∧ registry.outline path includeHidden =
        registry'.outline path' includeHidden' := by
  rw [describeDocument_eq, describeDocument_eq, Json.object.injEq, List.cons.injEq,
    Prod.mk.injEq, writeStringArray_injective.eq_iff, and_assoc]
  simp only [true_and]
  refine and_congr_right ?_
  rintro rfl
  rw [CommandRegistry.outline, CommandRegistry.outline]
  by_cases hpath : path = []
  · simp only [hpath, if_true, List.cons.injEq, Prod.mk.injEq, Json.array.injEq, true_and,
      and_true, Option.some.injEq]
    exact writeNodes_eq_iff _ _ _ _
  · simp only [hpath, if_false]
    cases registry.resolve path with
    | none => cases registry'.resolve path <;> simp
    | some node =>
        cases registry'.resolve path with
        | none => simp
        | some node' => simp [writeNode_eq_iff]

/-- The limits of a range that was given in `double` are described as they were given. -/
theorem outline_range (parameter : CommandParameter σ) {minimum maximum : Double}
    (hminimum : minimum.toLongDouble ≠ .nan ∧
      (minimum.negative = true → minimum.toLongDouble ≠ .finite 0))
    (hmaximum : maximum.toLongDouble ≠ .nan ∧
      (maximum.negative = true → maximum.toLongDouble ≠ .finite 0)) :
    ({ parameter with
        hasRange := true
        minimum := minimum.toLongDouble
        maximum := maximum.toLongDouble } : CommandParameter σ).outline.range =
      some (minimum, maximum) := by
  rw [CommandParameter.outline, if_pos rfl,
    Double.ofLongDouble_toLongDouble hminimum.1 hminimum.2,
    Double.ofLongDouble_toLongDouble hmaximum.1 hmaximum.2]

end JsonCommandInterpreter

end EspressioCommand
