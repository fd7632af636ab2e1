import EspressioCommand.Registry.CommandNode
import EspressioCommand.Text.Tokenizer

/-!
# Texts about the tree

`Complete`, `Help` and the two helpers that error messages are made with: `JoinPath`,
and `Suggest` with its edit distance.
-/

namespace EspressioCommand
namespace CommandRegistry

open TextCommandParser

variable {σ : Type}

/-- The path that `Complete` descends along, and the start of the word to complete: the
last token, unless the input ends in white space. -/
def completionWord (input : CommandString) (tokens : CommandPath) :
    CommandPath × CommandString :=
  if !(input.getLast?.any isSpace) && !tokens.isEmpty then (tokens.dropLast, tokens.getLastD [])
  else (tokens, [])

/-- `CommandRegistry::Complete`.  Its descent is that of `Resolve`. -/
def complete (registry : CommandRegistry σ) (input : CommandString) : CommandPath :=
  let tokenized := tokenize input
  if tokenized.error ≠ [] then []
  else
    let (path, word) := completionWord input tokenized.tokens
    match registry.resolve path with
    | none => []
    | some node =>
        (node.children.filter fun child =>
          !child.label.hidden && word.isPrefixOf child.label.name).map fun child =>
            child.label.name

/-- `CommandRegistry::HelpChildren`. -/
def helpChildren (node : CommandNode σ) : CommandString :=
  node.children.flatMap fun child =>
    if child.label.hidden then []
    else
      text "  " ++ child.label.name ++
        (if child.label.description ≠ [] then tab :: child.label.description else []) ++
        [newline]

/-- One step of the loop that spells the path in `HelpImpl` and `JoinPath`: a
space first, unless nothing has been written yet. -/
def appendToken (full token : CommandString) : CommandString :=
  (if full ≠ [] then full ++ [space] else full) ++ token

/-- `CommandRegistry::JoinPath`. -/
def joinPath (path : CommandPath) : CommandString := path.foldl appendToken []

/-- The usage mark of a parameter in the first section of `HelpImpl`. -/
def usageMark (parameter : CommandParameter σ) : CommandString :=
  text (if parameter.required then " <" else " [") ++ parameter.name ++
    text (if parameter.required then ">" else "]")

/-- The line of a parameter in the "Parameters" section of `HelpImpl`. -/
def parameterLine (parameter : CommandParameter σ) : CommandString :=
  text "  " ++ parameter.name ++
    text (if parameter.required then " (required)" else " (optional)") ++
    (if parameter.description ≠ [] then tab :: parameter.description else []) ++
    (if parameter.hasDefault then
      text " [default: " ++ parameter.defaultValue ++ text "]" else []) ++
    [newline]

/-- What `HelpImpl` writes for the node its walk ended at.  `isRoot` is its test
`node == &root_`: the walk ends at the root only when it took no step. -/
def helpText (node : CommandNode σ) (full : CommandString) (isRoot : Bool) : CommandString :=
  (if node.label.name ≠ [] then
    full ++
      (if node.label.description ≠ [] then newline :: node.label.description else []) ++
      text "\n\nUsage:\n  " ++ full ++
      (if node.children.isEmpty then [] else text " <command>") ++
      node.label.parameters.flatMap usageMark ++ [newline]
  else []) ++
  (if node.children.isEmpty then [] else text "\nCommands:\n" ++ helpChildren node) ++
  (if node.label.parameters.isEmpty then []
    else text "\nParameters:\n" ++ node.label.parameters.flatMap parameterLine) ++
  (if isRoot then text "Commands:\n" ++ helpChildren node else [])

/-- `CommandRegistry::Help`. -/
def help (registry : CommandRegistry σ) (path : CommandPath) : CommandString :=
  match registry.resolve path with
  | none => text "Unknown command path"
  | some node => helpText node (joinPath path) path.isEmpty

/-- One pass of the outer loop of `Distance`, from the second column on: the row
is overwritten from left to right, `previous` being the entry just written and
`diagonal` the old value to its left. -/
def distanceRow (letter : UInt8) : ℕ → ℕ → CommandString → List ℕ → List ℕ
  | previous, diagonal, r :: right, old :: row =>
      let cell := min (min (previous + 1) (old + 1)) (diagonal + if letter = r then 0 else 1)
      cell :: distanceRow letter cell old right row
  | _, _, _, _ => []

/-- The outer loop of `Distance`: `leftIndex` counts the letters of `left`. -/
def distanceRows (right : CommandString) : ℕ → CommandString → List ℕ → List ℕ
  | leftIndex, letter :: left, diagonal :: row =>
      distanceRows right (leftIndex + 1) left
        (leftIndex :: distanceRow letter leftIndex diagonal right row)
  | _, _, row => row

/-- `CommandRegistry::Distance`. -/
def distance (left right : CommandString) : ℕ :=
  (distanceRows right 1 left (List.range (right.length + 1))).getLastD 0

/-- The loop of `Suggest`: the best child so far with its score.  No child yet
stands for the score `numeric_limits<size_t>::max()`. -/
def bestMatch (token : CommandString) :
    Option (CommandNode σ × ℕ) → List (CommandNode σ) → Option (CommandNode σ × ℕ)
  | best, [] => best
  | best, child :: rest =>
      let score := distance child.label.name token
      match best with
      | none => bestMatch token (some (child, score)) rest
      | some (node, least) =>
          if score < least then bestMatch token (some (child, score)) rest
          else bestMatch token (some (node, least)) rest

/-- `CommandRegistry::Suggest`. -/
def suggest (node : CommandNode σ) (token : CommandString) : CommandString :=
  match bestMatch token none node.children with
  | none => []
  | some (best, score) =>
      if score > max 2 (token.length / 2) then []
      else text "Did you mean '" ++ best.label.name ++ text "'?"

example : distance (text "kitten") (text "sitting") = 3 := by decide

end CommandRegistry
end EspressioCommand
