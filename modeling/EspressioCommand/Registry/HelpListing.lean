import EspressioCommand.Library.Segments
import EspressioCommand.Registry.Visibility

/-!
# The lines of a help text

`Help` puts its text together from five sections, each with a condition of its own.
`helpLines` is the text as a list of lines that know what they list, and `help_eq_lines`
says that the text is these lines.  Each section but one is written for the node at the end
of the path; the last one is written for the root, whose children the second section
has listed already.
-/

namespace EspressioCommand

open Library

namespace CommandRegistry

variable {σ : Type}

/-- A line of a help text: the entry of a child, the entry of a parameter, or neither. -/
inductive HelpLine (σ : Type) where
  | heading (words : CommandString)
  | command (child : CommandNode σ)
  | parameter (entry : CommandParameter σ)

namespace HelpLine

/-- The text of the line, up to its newline. -/
def content : HelpLine σ → CommandString
  | .heading words => words
  | .command child =>
      text "  " ++ child.label.name ++
        (if child.label.description ≠ [] then tab :: child.label.description else [])
  | .parameter entry =>
      text "  " ++ entry.name ++
        text (if entry.required then " (required)" else " (optional)") ++
        (if entry.description ≠ [] then tab :: entry.description else []) ++
        (if entry.hasDefault then text " [default: " ++ entry.defaultValue ++ text "]" else [])

def written (line : HelpLine σ) : CommandString := line.content ++ [newline]

/-- The child that the line lists. -/
def listedCommand : HelpLine σ → Option (CommandNode σ)
  | .command child => some child
  | _ => none

/-- The parameter that the line lists. -/
def listedParameter : HelpLine σ → Option (CommandParameter σ)
  | .parameter entry => some entry
  | _ => none

end HelpLine

/-- The children that are not hidden, in registration order. -/
def visibleChildren (node : CommandNode σ) : List (CommandNode σ) :=
  node.children.filter fun child => !child.label.hidden

def commandLines (node : CommandNode σ) : List (HelpLine σ) :=
  (visibleChildren node).map .command

def parameterLines (node : CommandNode σ) : List (HelpLine σ) :=
  node.label.parameters.map .parameter

/-- The first section of `HelpImpl`. -/
def usageLines (node : CommandNode σ) (full : CommandString) : List (HelpLine σ) :=
  if node.label.name ≠ [] then
    [.heading full] ++
      (if node.label.description ≠ [] then [.heading node.label.description] else []) ++
      [.heading [], .heading (text "Usage:"), .heading (text "  " ++ full ++
        (if node.children.isEmpty then [] else text " <command>") ++
        node.label.parameters.flatMap usageMark)]
  else []

/-- The lines of `helpText`, section by section. -/
def helpLines (node : CommandNode σ) (full : CommandString) (isRoot : Bool) :
    List (HelpLine σ) :=
  usageLines node full ++
    (if node.children.isEmpty then []
      else .heading [] :: .heading (text "Commands:") :: commandLines node) ++
    (if node.label.parameters.isEmpty then []
      else .heading [] :: .heading (text "Parameters:") :: parameterLines node) ++
    (if isRoot then .heading (text "Commands:") :: commandLines node else [])

/-! ### The text is its lines -/

theorem written_commandLines (node : CommandNode σ) :
    (commandLines node).flatMap HelpLine.written = helpChildren node := by
  have hhidden : ∀ child : CommandNode σ, (!child.label.hidden) = false →
      helpLine child.label = [] := by
    intro child h
    rw [helpLine, if_pos (by simpa using h)]
  have hvisible : ∀ child ∈ visibleChildren node,
      (HelpLine.command child).written = helpLine child.label := by
    intro child hchild
    obtain ⟨-, h⟩ := List.mem_filter.mp hchild
    rw [helpLine, if_neg (by simpa using h)]
    rfl
  show _ = node.children.flatMap fun child => helpLine child.label
  rw [commandLines, List.flatMap_map, ← flatMap_filter_of_eq_nil hhidden]
  exact List.flatMap_congr hvisible

theorem written_parameterLines (node : CommandNode σ) :
    (parameterLines node).flatMap HelpLine.written =
      node.label.parameters.flatMap parameterLine := by
  rw [parameterLines, List.flatMap_map]
  rfl

theorem written_usageLines (node : CommandNode σ) (full : CommandString) :
    (usageLines node full).flatMap HelpLine.written =
      if node.label.name ≠ [] then
        full ++
          (if node.label.description ≠ [] then newline :: node.label.description else []) ++
          text "\n\nUsage:\n  " ++ full ++
          (if node.children.isEmpty then [] else text " <command>") ++
          node.label.parameters.flatMap usageMark ++ [newline]
      else [] := by
  have husage : text "\n\nUsage:\n  " =
      [newline, newline] ++ text "Usage:" ++ [newline] ++ text "  " := by decide
  rw [usageLines, husage]
  split_ifs <;>
    simp only [List.flatMap_cons, List.flatMap_nil, HelpLine.written, HelpLine.content,
      List.append_assoc, List.nil_append, List.append_nil, List.cons_append]

/-- A heading with the empty line before it. -/
theorem written_heading (words : CommandString) (lines : List (HelpLine σ)) :
    (HelpLine.heading [] :: .heading words :: lines).flatMap HelpLine.written =
      newline :: words ++ [newline] ++ lines.flatMap HelpLine.written := by
  simp [HelpLine.written, HelpLine.content]

/-- **The help text is its lines**, each ended by a newline. -/
theorem helpText_eq_lines (node : CommandNode σ) (full : CommandString) (isRoot : Bool) :
    helpText node full isRoot = (helpLines node full isRoot).flatMap HelpLine.written := by
  have hcommands : text "\nCommands:\n" = newline :: text "Commands:" ++ [newline] := by decide
  have hparameters : text "\nParameters:\n" = newline :: text "Parameters:" ++ [newline] := by
    decide
  have hroot : text "Commands:\n" = text "Commands:" ++ [newline] := by decide
  have hlast : (if isRoot then text "Commands:\n" ++ helpChildren node else []) =
      (if isRoot then .heading (text "Commands:") :: commandLines node
        else []).flatMap HelpLine.written := by
    rw [hroot]
    split_ifs
    · rw [List.flatMap_cons, written_commandLines]
      rfl
    · rfl
  rw [helpText, helpLines, hlast, List.flatMap_append, List.flatMap_append, List.flatMap_append,
    written_usageLines, hcommands, hparameters]
  congr 2
  · congr 1
    split_ifs
    · rfl
    · rw [written_heading, written_commandLines]
  · split_ifs
    · rfl
    · rw [written_heading, written_parameterLines]

/-! ### What the lines list -/

theorem commandLines_of_isEmpty {node : CommandNode σ} (h : node.children.isEmpty = true) :
    commandLines node = [] := by
  rw [commandLines, visibleChildren, List.isEmpty_iff.mp h]
  rfl

theorem parameterLines_of_isEmpty {node : CommandNode σ}
    (h : node.label.parameters.isEmpty = true) : parameterLines node = [] := by
  rw [parameterLines, List.isEmpty_iff.mp h, List.map_nil]

/-- What is read off the lines without the headings: the children, the parameters, and of the
root the children once more. -/
theorem filterMap_helpLines {β : Type} {list : HelpLine σ → Option β}
    (hheading : ∀ words, list (.heading words) = none) (node : CommandNode σ)
    (full : CommandString) (isRoot : Bool) :
    (helpLines node full isRoot).filterMap list =
      (commandLines node).filterMap list ++ (parameterLines node).filterMap list ++
        if isRoot then (commandLines node).filterMap list else [] := by
  have husage : (usageLines node full).filterMap list = [] := by
    rw [usageLines]
    split_ifs <;> simp [hheading]
  have hcommands : (if node.children.isEmpty then []
      else .heading [] :: .heading (text "Commands:") :: commandLines node).filterMap list =
        (commandLines node).filterMap list := by
    split_ifs with hempty
    · rw [commandLines_of_isEmpty hempty]
    · rw [List.filterMap_cons_none (hheading _), List.filterMap_cons_none (hheading _)]
  have hparameters : (if node.label.parameters.isEmpty then []
      else .heading [] :: .heading (text "Parameters:") :: parameterLines node).filterMap list =
        (parameterLines node).filterMap list := by
    split_ifs with hempty
    · rw [parameterLines_of_isEmpty hempty]
    · rw [List.filterMap_cons_none (hheading _), List.filterMap_cons_none (hheading _)]
  have hroot : (if isRoot then .heading (text "Commands:") :: commandLines node
      else []).filterMap list = if isRoot then (commandLines node).filterMap list else [] := by
    split_ifs
    · rw [List.filterMap_cons_none (hheading _)]
    · rfl
  rw [helpLines, List.filterMap_append, List.filterMap_append, List.filterMap_append, husage,
    hcommands, hparameters, hroot, List.nil_append]

theorem listedCommand_commandLines (node : CommandNode σ) :
    (commandLines node).filterMap HelpLine.listedCommand = visibleChildren node := by
  rw [commandLines, List.filterMap_map]
  exact List.filterMap_some

theorem listedParameter_commandLines (node : CommandNode σ) :
    (commandLines node).filterMap HelpLine.listedParameter = [] := by
  rw [commandLines, List.filterMap_map]
  exact List.filterMap_eq_nil_iff.mpr fun child _ => rfl

theorem listedCommand_parameterLines (node : CommandNode σ) :
    (parameterLines node).filterMap HelpLine.listedCommand = [] := by
  rw [parameterLines, List.filterMap_map]
  exact List.filterMap_eq_nil_iff.mpr fun entry _ => rfl

theorem listedParameter_parameterLines (node : CommandNode σ) :
    (parameterLines node).filterMap HelpLine.listedParameter = node.label.parameters := by
  rw [parameterLines, List.filterMap_map]
  exact List.filterMap_some

/-- The children are listed by the second section, and of the root by the last one too. -/
theorem listedCommand_helpLines (node : CommandNode σ) (full : CommandString) (isRoot : Bool) :
    (helpLines node full isRoot).filterMap HelpLine.listedCommand =
      visibleChildren node ++ if isRoot then visibleChildren node else [] := by
  rw [filterMap_helpLines fun _ => rfl, listedCommand_commandLines, listedCommand_parameterLines,
    List.append_nil]

/-- The parameters are listed by the third section alone. -/
theorem listedParameter_helpLines (node : CommandNode σ) (full : CommandString)
    (isRoot : Bool) :
    (helpLines node full isRoot).filterMap HelpLine.listedParameter = node.label.parameters := by
  rw [filterMap_helpLines fun _ => rfl, listedParameter_commandLines,
    listedParameter_parameterLines, ite_self, List.append_nil, List.nil_append]

/-! ### Help as a listing -/

/-- The help of the node that the path leads to lists its visible children and its
parameters, one line each, in order.  Where no entry has a newline of its own, the lines
are those that the text is cut into. -/
structure ListsFaithfully (registry : CommandRegistry σ) (path : CommandPath)
    (node : CommandNode σ) (lines : List (HelpLine σ)) : Prop where
  written : registry.help path = lines.flatMap HelpLine.written
  read : (∀ line ∈ lines, newline ∉ line.content) →
    terminated newline (registry.help path) = lines.map HelpLine.content
  commands : lines.filterMap HelpLine.listedCommand = visibleChildren node
  parameters : lines.filterMap HelpLine.listedParameter = node.label.parameters

/-- **Help is a listing, but for the root.**  At a path that resolves, help lists each
visible child and each parameter once, unless the path is empty and the root has a child
that is not hidden. -/
theorem listsFaithfully_iff {registry : CommandRegistry σ} {path : CommandPath}
    {node : CommandNode σ} (hnode : registry.resolve path = some node) :
    registry.ListsFaithfully path node (helpLines node (joinPath path) path.isEmpty) ↔
      path ≠ [] ∨ ∀ child ∈ registry.root.children, child.label.hidden = true := by
  have hwritten : registry.help path =
      (helpLines node (joinPath path) path.isEmpty).flatMap HelpLine.written := by
    rw [help, hnode]
    exact helpText_eq_lines node _ _
  have hroot : path = [] → registry.root = node := by
    intro hpath
    rw [hpath] at hnode
    exact Option.some.inj hnode
  constructor
  · intro h
    by_cases hpath : path = []
    · -- the root is listed twice, so there is nothing to list
      obtain rfl := hroot hpath
      have htwice := h.commands
      rw [listedCommand_helpLines, hpath, List.isEmpty_nil, if_pos rfl,
        List.append_right_eq_self, visibleChildren, List.filter_eq_nil_iff] at htwice
      exact Or.inr fun child hchild => by simpa using htwice child hchild
    · exact Or.inl hpath
  · intro h
    refine ⟨hwritten, ?_, ?_, listedParameter_helpLines node _ _⟩
    · intro hfree
      have hcontents : ∀ content ∈ (helpLines node (joinPath path) path.isEmpty).map
          HelpLine.content, newline ∉ content := by
        simpa using hfree
      have hread := terminated_flatMap hcontents
      rw [List.flatMap_map] at hread
      rw [hwritten]
      exact hread
    · rw [listedCommand_helpLines]
      obtain hpath | hhidden := h
      · rw [if_neg (by simpa using hpath), List.append_nil]
      · by_cases hpath : path = []
        · obtain rfl := hroot hpath
          have hnone : visibleChildren registry.root = [] := by
            rw [visibleChildren, List.filter_eq_nil_iff]
            intro child hchild
            simp [hhidden child hchild]
          rw [hnone, ite_self, List.append_nil]
        · rw [if_neg (by simpa using hpath), List.append_nil]

/-- The registry with the one command `led`. -/
def ledRegistry : CommandRegistry Unit := (initial.command (text "led")).2

/-- The help of the empty path has the command `led` twice. -/
theorem not_listsFaithfully_root :
    ledRegistry.resolve [] = some ledRegistry.root ∧
      ledRegistry.help [] = text "\nCommands:\n  led\nCommands:\n  led\n" ∧
      ¬ ledRegistry.ListsFaithfully [] ledRegistry.root
        (helpLines ledRegistry.root (joinPath []) true) := by
  refine ⟨rfl, by decide, ?_⟩
  intro h
  have hcommands := congrArg List.length h.commands
  exact absurd hcommands (by decide)

theorem listsFaithfully_iff_led :
    ledRegistry.ListsFaithfully [text "led"] (.node { object := 1, name := text "led" } [])
      (helpLines (.node { object := 1, name := text "led" } []) (joinPath [text "led"])
        false) := by
  have hled : ledRegistry.resolve [text "led"] =
      some (.node { object := 1, name := text "led" } []) := rfl
  exact (listsFaithfully_iff hled).mpr (Or.inl (by decide))

end CommandRegistry

end EspressioCommand
