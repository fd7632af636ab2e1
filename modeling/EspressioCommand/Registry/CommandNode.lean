import EspressioCommand.Library.RoseTree
import EspressioCommand.Library.OrderedMap
import EspressioCommand.Registry.CommandParameter

/-!
# Results, invocations and the command tree

`CommandResult`, `CommandInvocation`, `CommandContext` and `CommandNode`.  A node
is a rose tree: `NodeData` holds the node's own fields and the subtrees are
its children.  C++ nodes are objects with an address, so `NodeData` also carries
`object`, a number that its registry gives out once.
-/

namespace EspressioCommand

open Library

/-- `CommandResult`. -/
structure CommandResult where
  success : Bool := true
  code : Int32 := 0
  message : CommandString := []
deriving DecidableEq

/-- `CommandResult::Ok`. -/
def CommandResult.ok (message : CommandString) : CommandResult := ⟨true, 0, message⟩

/-- `CommandResult::Error`. -/
def CommandResult.error (message : CommandString) (code : Int32 := 1) : CommandResult :=
  ⟨false, code, message⟩

/-- `CommandNamedValues`, the ordered map of named arguments. -/
abbrev CommandNamedValues := OrderedMap CommandString CommandValue

/-- `CommandInvocation`. -/
structure CommandInvocation where
  path : CommandPath
  positional : List CommandValue
  named : CommandNamedValues
  raw : CommandString

/-- An invocation before anything is stored in it. -/
def CommandInvocation.empty : CommandInvocation := ⟨[], [], OrderedMap.empty, []⟩

/-- Where the pointer `Binding::Value` points: to a named argument of the
invocation, to a positional one, or to the binding's own `OwnedValue`. -/
inductive ValuePointer
  | named (key : CommandString)
  | positional (index : ℕ)
  | owned
deriving DecidableEq, Repr

/-- `CommandContext::Binding`. -/
structure Binding where
  name : CommandString
  value : ValuePointer
  ownedValue : CommandValue := .null
  raw : CommandString := []
  ownsValue : Bool := false
deriving DecidableEq

/-- `CommandContext`. -/
structure CommandContext where
  bindings : List Binding
  invocation : CommandInvocation

namespace CommandContext

/-- The value a pointer leads to. -/
def pointee (invocation : CommandInvocation) (ownedValue : CommandValue) :
    ValuePointer → Option CommandValue
  | .named key => (invocation.named.entries.find? fun e => e.1 == key).map Prod.snd
  | .positional index => invocation.positional[index]?
  | .owned => some ownedValue

/-- The value of a binding. -/
def valueOf (context : CommandContext) (binding : Binding) : Option CommandValue :=
  pointee context.invocation binding.ownedValue binding.value

/-- `CommandContext::Find`. -/
def find (context : CommandContext) (name : CommandString) : Option Binding :=
  context.bindings.find? fun binding => binding.name == name

/-- `CommandContext::Value`. -/
def value (context : CommandContext) (name : CommandString) : Except Thrown CommandValue :=
  match (context.find name).bind context.valueOf with
  | none => CommandValue.outOfRange "Unknown command parameter"
  | some value => .ok value

/-- `CommandContext::Raw`. -/
def raw (context : CommandContext) (name : CommandString) : Except Thrown CommandString :=
  match context.find name with
  | none => CommandValue.outOfRange "Unknown command parameter"
  | some binding =>
      match context.valueOf binding with
      | none => CommandValue.outOfRange "Unknown command parameter"
      | some value =>
          match value.tryGetString with
          | some text => .ok text
          | none => .ok binding.raw

end CommandContext

/-- `CommandNode::Callback`. -/
abbrev Callback (σ : Type) := CommandContext → Eff σ CommandResult

/-- The fields of one `CommandNode`, apart from its children. -/
structure NodeData (σ : Type) where
  /-- The object's identity: no other node of its registry ever has this number. -/
  object : ℕ
  name : CommandString
  description : CommandString := []
  deprecationMessage : CommandString := []
  hidden : Bool := false
  deprecated : Bool := false
  aliases : List CommandString := []
  parameters : List (CommandParameter σ) := []
  callback : Option (Callback σ) := none
  before : List (Callback σ) := []
  after : List (Callback σ) := []

/-- `CommandNode::Matches`. -/
def NodeData.matchesValue {σ : Type} (node : NodeData σ) (token : CommandString) : Bool :=
  token == node.name || node.aliases.any fun candidate => token == candidate

/-- `CommandNode`: a node with its children. -/
abbrev CommandNode (σ : Type) := RoseTree (NodeData σ)

/-- `CommandRegistry::FindChild`: the first child that matches. -/
def CommandNode.findChild {σ : Type} (node : CommandNode σ) (name : CommandString) :
    Option (CommandNode σ) :=
  node.firstAnswer NodeData.matchesValue name

/-- `CommandRegistry::Middleware`. -/
abbrev Middleware (σ : Type) :=
  CommandInvocation → Eff σ CommandResult → Eff σ CommandResult

/-- What an observer is told: `OnCommandRegistered` or `OnCommandUnregistered`. -/
inductive Notification
  | registered (path : CommandPath)
  | unregistered (path : CommandPath)
deriving DecidableEq, Repr

/-- `CommandRegistry`.  In place of the observer list, `notifications` records
what the observers have been told so far; `created` is the number the next node
gets. -/
structure CommandRegistry (σ : Type) where
  root : CommandNode σ
  middleware : List (Middleware σ) := []
  notifications : List Notification := []
  created : ℕ

namespace CommandRegistry

variable {σ : Type}

/-- The constructor: a nameless root without children. -/
def initial : CommandRegistry σ where
  root := .node { object := 0, name := [] } []
  created := 1

/-- `CommandRegistry::Resolve`. -/
def resolve (registry : CommandRegistry σ) (path : CommandPath) : Option (CommandNode σ) :=
  registry.root.walk NodeData.matchesValue path

end CommandRegistry

end EspressioCommand
