import EspressioCommand.Registry.Help
import EspressioCommand.Text.Tokenizer

/-!
# `CommandRegistry::Invoke`

The two entry points, text and structured, and what both end in.
`InvokeResolved` is cut in two along its text: `bindInvocation` is everything up
to the last check, and either ends the invocation with an error result or hands
over the context; `chain` and `execute` are the lambdas that then run the
user-supplied stages.
-/

namespace EspressioCommand
namespace CommandRegistry

open Library TextCommandParser

variable {σ : Type}

/-! ### Binding and checks -/

/-- The first named argument whose key matches the parameter. -/
def namedArgument (parameter : CommandParameter σ) (invocation : CommandInvocation) :
    Option (CommandString × CommandValue) :=
  invocation.named.entries.find? fun pair => parameter.matchesKey pair.1

/-- How the loop of `InvokeResolved` picks the value of a parameter: the pointer,
the value it leads to, and the value a default would own.  With it comes the new
`positionalIndex`. -/
def selectValue (parameter : CommandParameter σ) (invocation : CommandInvocation)
    (positionalIndex : ℕ) : Option (ValuePointer × CommandValue) × ℕ :=
  match namedArgument parameter invocation with
  -- a named argument leaves the cursor where it is
  | some pair => (some (.named pair.1, pair.2), positionalIndex)
  | none =>
      let default : Option (ValuePointer × CommandValue) :=
        if parameter.hasDefault then some (.owned, .string parameter.defaultValue) else none
      if parameter.namedOnly then (default, positionalIndex)
      else
        match invocation.positional[positionalIndex]? with
        | some value => (some (.positional positionalIndex, value), positionalIndex + 1)
        | none => (default, positionalIndex)

/-- The binding that `InvokeResolved` stores for a validated value. -/
def makeBinding (platform : Platform) (parameter : CommandParameter σ) (pointer : ValuePointer)
    (value : CommandValue) : Binding where
  name := parameter.name
  value := pointer
  ownedValue := if pointer = .owned then value else .null
  raw := if value.tryGetString.isNone then value.toString platform else []
  ownsValue := pointer = .owned

/-- The error for a required parameter without a value. -/
def missingParameter (registry : CommandRegistry σ) (parameter : CommandParameter σ)
    (invocation : CommandInvocation) : CommandResult :=
  .error (buildCommandMessage (text "Missing required parameter '") parameter.name
    (text "'.\n") ++ registry.help invocation.path)

/-- The first loop of `InvokeResolved`, over the parameters.  It returns from the
function with an error result, or ends with the cursor and the bindings. -/
def bindParameters (platform : Platform) (registry : CommandRegistry σ)
    (invocation : CommandInvocation) :
    List (CommandParameter σ) → ℕ → List Binding →
      Eff σ (Except CommandResult (ℕ × List Binding))
  | [], positionalIndex, bindings => pure (.ok (positionalIndex, bindings))
  | parameter :: rest, positionalIndex, bindings =>
      match selectValue parameter invocation positionalIndex with
      | (none, positionalIndex) =>
          if parameter.required then
            pure (.error (registry.missingParameter parameter invocation))
          else bindParameters platform registry invocation rest positionalIndex bindings
      | (some (pointer, value), positionalIndex) => do
          -- defaults are validated as well
          let validation ← parameter.validate platform value
          if validation ≠ [] then return .error (.error validation)
          else
            bindParameters platform registry invocation rest positionalIndex
              (bindings ++ [makeBinding platform parameter pointer value])

/-- The checks between the binding loop and the user-supplied stages.  The last one
looks for the callback, which is what the stages need. -/
def finalChecks (registry : CommandRegistry σ) (node : CommandNode σ)
    (invocation : CommandInvocation) (positionalIndex : ℕ) :
    Except CommandResult (Callback σ) :=
  if positionalIndex < invocation.positional.length then
    .error (.error (text "Too many positional parameters"))
  else
    -- a key is known when some parameter matches it, whichever took its value
    match invocation.named.entries.find? fun pair =>
      !node.label.parameters.any fun parameter => parameter.matchesKey pair.1 with
    | some pair => .error (.error (text "Unknown parameter '--" ++ pair.1 ++ text "'"))
    | none =>
        match node.label.callback with
        | none =>
            .error (.error (text "Command is not executable.\n" ++ registry.help invocation.path))
        | some callback => .ok callback

/-- `InvokeResolved` up to its last check. -/
def bindInvocation (platform : Platform) (registry : CommandRegistry σ) (node : CommandNode σ)
    (invocation : CommandInvocation) :
    Eff σ (Except CommandResult (CommandContext × Callback σ)) := do
  match ← bindParameters platform registry invocation node.label.parameters 0 [] with
  | .error result => return .error result
  | .ok (positionalIndex, bindings) =>
      match registry.finalChecks node invocation positionalIndex with
      | .error result => return .error result
      | .ok callback => return .ok (⟨bindings, invocation⟩, callback)

/-! ### The user-supplied stages -/

/-- The `Before` loop: the first result that is a failure, if any. -/
def runBefore (context : CommandContext) :
    List (Callback σ) → Eff σ (Option CommandResult)
  | [] => pure none
  | before :: rest => do
      let result ← before context
      if result.success then runBefore context rest else return some result

/-- The `After` loop: the first failure replaces a successful result. -/
def runAfter (context : CommandContext) :
    List (Callback σ) → CommandResult → Eff σ CommandResult
  | [], result => pure result
  | after :: rest, result => do
      let afterResult ← after context
      runAfter context rest
        (if !afterResult.success && result.success then afterResult else result)

/-- The primary callback in its `try` block: `none` and the exception's text
where the handler returns from `execute`.  Only a `std::exception` is caught. -/
def runCallback (callback : Callback σ) (context : CommandContext) :
    Eff σ (Except CommandString CommandResult) :=
  tryCatch (callback context >>= fun result => pure (.ok result)) fun
    | .std _ what => pure (.error what)
    -- not a `std::exception`: the handler lets it pass
    | .foreign => throw .foreign

/-- The rewriting of the message of a deprecated command. -/
def deprecationWarning (data : NodeData σ) (message : CommandString) : CommandString :=
  text "Deprecated command" ++
    (if data.deprecationMessage ≠ [] then text ": " ++ data.deprecationMessage else []) ++
    (if message ≠ [] then newline :: message else [])

/-- The lambda `execute`, for a node whose callback is `callback`. -/
def execute (data : NodeData σ) (callback : Callback σ) (context : CommandContext) :
    Eff σ CommandResult := do
  match ← runBefore context data.before with
  -- the callback and the `After` hooks are skipped
  | some failed => return failed
  | none =>
      match ← runCallback callback context with
      -- the handler returns from `execute`, past the `After` hooks
      | .error what => return .error what
      | .ok result =>
          let result ← runAfter context data.after result
          if data.deprecated then
            return { result with message := deprecationWarning data result.message }
          else return result

/-- The lambda `chain`, on the middleware that is still to run. -/
def chain (invocation : CommandInvocation) (execute : Eff σ CommandResult) :
    List (Middleware σ) → Eff σ CommandResult
  | [] => execute
  | middleware :: rest => middleware invocation (chain invocation execute rest)

/-- `CommandRegistry::InvokeResolved`. -/
def invokeResolved (platform : Platform) (registry : CommandRegistry σ) (node : CommandNode σ)
    (invocation : CommandInvocation) : Eff σ CommandResult := do
  match ← bindInvocation platform registry node invocation with
  | .error result => return result
  | .ok (context, callback) =>
      chain invocation (execute node.label callback context) registry.middleware

/-! ### The entry points -/

/-- `CommandRegistry::Invoke(const CommandInvocation&)`. -/
def invoke (platform : Platform) (registry : CommandRegistry σ)
    (invocation : CommandInvocation) : Eff σ CommandResult :=
  if invocation.path = [] then pure (.error (text "No command path supplied"))
  else
    match registry.resolve invocation.path with
    | none =>
        pure (.error (buildCommandMessage (text "Unknown command path '")
          (joinPath invocation.path) (text "'")))
    | some node => invokeResolved platform registry node invocation

/-- The descent of `InvokeTokens`: the node reached, the tokens that led there and
the tokens left. -/
def descend : CommandNode σ → CommandPath → CommandNode σ × CommandPath × CommandPath
  | node, [] => (node, [], [])
  | node, token :: rest =>
      match node.findChild token with
      | none => (node, [], token :: rest)
      | some child =>
          let reached := descend child rest
          (reached.1, token :: reached.2.1, reached.2.2)

/-- The loop of `InvokeTokens` over the tokens behind the path.  A token that
starts with `--` is a named argument, and takes the next token for its value when
it contains no equals sign.  A key that occurs again is dropped by `emplace`. -/
def splitArguments : CommandPath → CommandInvocation → Except CommandResult CommandInvocation
  | [], invocation => .ok invocation
  | token :: rest, invocation =>
      if (text "--").isPrefixOf token then
        match token.idxOf? equalsSign with
        -- `--key=value`, cut at the first equals sign
        | some equals =>
            splitArguments rest
              { invocation with
                named := invocation.named.emplace ((token.drop 2).take (equals - 2))
                  (.string (token.drop (equals + 1))) }
        -- `--key value`: the next token is the value, whatever it looks like
        | none =>
            match rest with
            | [] => .error (.error (text "Missing value for --" ++ token.drop 2))
            | value :: rest =>
                splitArguments rest
                  { invocation with
                    named := invocation.named.emplace (token.drop 2) (.string value) }
      else
        splitArguments rest
          { invocation with positional := invocation.positional ++ [.string token] }

/-- `CommandRegistry::InvokeTokens`.  Its test `node == &root_` holds exactly when
the descent took no step. -/
def invokeTokens (platform : Platform) (registry : CommandRegistry σ) (tokens : CommandPath)
    (raw : CommandString) : Eff σ CommandResult :=
  let (node, path, rest) := descend registry.root tokens
  if path = [] then
    -- `node` is the root
    let token := tokens.headD []
    pure (.error (buildCommandMessage (text "Unknown command '") token (text "'.\n") ++
      suggest registry.root token))
  else if !node.children.isEmpty && node.label.callback.isNone && rest.isEmpty then
    pure (.error (text "Incomplete command.\n" ++ registry.help path))
  else
    match splitArguments rest { CommandInvocation.empty with path := path, raw := raw } with
    | .error result => pure result
    | .ok invocation => invokeResolved platform registry node invocation

/-- The two spellings of the built-in help command. -/
def isHelpToken (token : CommandString) : Bool := token == text "help" || token == text "?"

/-- `CommandRegistry::Invoke(std::string_view)`. -/
def invokeText (platform : Platform) (registry : CommandRegistry σ) (input : CommandString) :
    Eff σ CommandResult :=
  let tokenized := tokenize input
  if tokenized.error ≠ [] then pure (.error tokenized.error)
  else
    match tokenized.tokens with
    | [] => pure (.error (text "No command supplied"))
    | token :: rest =>
        if isHelpToken token then pure (.ok (registry.help rest))
        else invokeTokens platform registry (token :: rest) input

end CommandRegistry
end EspressioCommand
