import EspressioCommand.Registry.CommandNode
import EspressioCommand.Text.Tokenizer

/-!
# `JsonCommandInterpreter::Parse`

ArduinoJson delivers a document as a tree.  A test `is<T>()` and the `as<T>()` behind it
are one definition here, which gives the value where the test holds.  Text comes out as
`const char*`: up to the first NUL, whatever the JSON string holds.

`readPath`, `readNamed` and `readPositional` are the loops of `Parse`, `parseObject` is its
part behind the deserializer and `parse` the whole.  What a failed call leaves in the
invocation is not part of the model.
-/

namespace EspressioCommand

open TextCommandParser

/-- An integer as ArduinoJson stores one: it fits `int64_t` or `uint64_t`. -/
structure JsonInteger where
  value : ℤ
  ge : -2 ^ 63 ≤ value
  lt : value < 2 ^ 64
deriving DecidableEq

/-- A document.  The members of an object stand in their order. -/
inductive Json
  | null
  | boolean (value : Bool)
  | integer (value : JsonInteger)
  | floating (value : Double)
  | string (value : CommandString)
  | array (items : List Json)
  | object (members : List (CommandString × Json))

/-- The text that a C string of these bytes is read as. -/
def cString (bytes : CommandString) : CommandString :=
  bytes.takeWhile fun c => c != 0

namespace Json

/-- `isNull()`. -/
def isNull : Json → Bool
  | null => true
  | _ => false

/-- `is<bool>()`. -/
def bool? : Json → Option Bool
  | boolean value => some value
  | _ => none

/-- `is<int64_t>()`. -/
def int64? : Json → Option Int64
  | integer n => if n.value < 2 ^ 63 then some (Int64.ofInt n.value) else none
  | _ => none

/-- `is<uint64_t>()`. -/
def uint64? : Json → Option UInt64
  | integer n => if 0 ≤ n.value then some (UInt64.ofNat n.value.toNat) else none
  | _ => none

/-- `is<double>()`, for a number that is neither of the two. -/
def double? : Json → Option Double
  | floating value => some value
  | _ => none

/-- `is<const char*>()`. -/
def cString? : Json → Option CommandString
  | string value => some (cString value)
  | _ => none

/-- `is<JsonArrayConst>()`. -/
def array? : Json → Option (List Json)
  | array items => some items
  | _ => none

/-- `is<JsonObjectConst>()`. -/
def object? : Json → Option (List (CommandString × Json))
  | object members => some members
  | _ => none

end Json

/-- `object[key]`: null where there is no such member. -/
def jsonMember (object : List (CommandString × Json)) (key : String) : Json :=
  ((object.find? fun member => member.1 == text key).map Prod.snd).getD .null

namespace JsonCommandInterpreter

/-- `JsonCommandInterpreter::ReadScalar`: the tests in their order. -/
def readScalar (input : Json) : Option CommandValue :=
  if input.isNull then none
  else
    match input.bool? with
    | some value => some (.boolean value)
    | none =>
        match input.int64? with
        | some value => some (.signedInteger value)
        | none =>
            match input.uint64? with
            | some value => some (.unsignedInteger value)
            | none =>
                match input.double? with
                | some value => some (.floatingPoint value)
                | none => input.cString?.map .string

/-- The loop over the items of `path`. -/
def readPath : List Json → Except CommandString CommandPath
  | [] => .ok []
  | item :: rest =>
      match item.cString? with
      | none => .error (text "Every 'path' element must be a string")
      | some token => do return token :: (← readPath rest)

/-- The path of the invocation, from `path` or from `command`. -/
def parsePath (object : List (CommandString × Json)) : Except CommandString CommandPath :=
  match (jsonMember object "path").array?, (jsonMember object "command").cString? with
  | some items, none => readPath items
  | none, some line =>
      let tokenized := tokenize line
      if tokenized.error ≠ [] then .error tokenized.error else .ok tokenized.tokens
  | _, _ => .error (text "JSON command must contain exactly one of 'path' or 'command'")

/-- The loop over the members of `parameters` or `named`. -/
def readNamed :
    List (CommandString × Json) → CommandNamedValues → Except CommandString CommandNamedValues
  | [], named => .ok named
  | (key, input) :: rest, named =>
      match readScalar input with
      | none =>
          .error (buildCommandMessage (text "Parameter '") (cString key)
            (text "' must be a JSON scalar value"))
      | some value => readNamed rest (named.emplace (cString key) value)

/-- The named arguments of the invocation. -/
def parseNamed (object : List (CommandString × Json)) : Except CommandString CommandNamedValues :=
  match (jsonMember object "parameters").object?, (jsonMember object "named").object? with
  | some _, some _ => .error (text "Use either 'parameters' or 'named', not both")
  | some parameters, none => readNamed parameters Library.OrderedMap.empty
  | none, some named => readNamed named Library.OrderedMap.empty
  | none, none => .ok Library.OrderedMap.empty

/-- The loop over the items of `positional`. -/
def readPositional : List Json → Except CommandString (List CommandValue)
  | [] => .ok []
  | item :: rest =>
      match readScalar item with
      | none => .error (text "Every positional parameter must be a JSON scalar value")
      | some value => do return value :: (← readPositional rest)

/-- The positional arguments of the invocation. -/
def parsePositional (object : List (CommandString × Json)) :
    Except CommandString (List CommandValue) :=
  if (jsonMember object "positional").isNull then .ok []
  else
    match (jsonMember object "positional").array? with
    | none => .error (text "'positional' must be an array")
    | some items => readPositional items

/-- `Parse` behind the deserializer; `json` goes into `raw` with all its bytes. -/
def parseObject (object : List (CommandString × Json)) (json : CommandString) :
    Except CommandString CommandInvocation := do
  let path ← parsePath object
  if path = [] then .error (text "JSON command path cannot be empty")
  else
    let named ← parseNamed object
    let positional ← parsePositional object
    return ⟨path, positional, named, json⟩

/-- `JsonCommandInterpreter::Parse`, over `deserializeJson` and the text of its errors. -/
def parse (deserializeJson : CommandString → Except CommandString Json) (json : CommandString) :
    Except CommandString CommandInvocation :=
  match deserializeJson json with
  | .error what => .error (buildCommandMessage (text "Invalid JSON: ") what [])
  | .ok (.object object) => parseObject object json
  | .ok _ => .error (text "JSON command must be an object")

/-! ### What the loops read -/

/-- `readScalar` reads a value as `CommandValue`, where it is a boolean, a number or a
string. -/
theorem readScalar_eq (input : Json) :
    readScalar input =
      match input with
      | .boolean value => some (.boolean value)
      | .integer n =>
          if n.value < 2 ^ 63 then some (.signedInteger (Int64.ofInt n.value))
          else some (.unsignedInteger (UInt64.ofNat n.value.toNat))
      | .floating value => some (.floatingPoint value)
      | .string value => some (.string (cString value))
      | _ => none := by
  cases input with
  | integer n =>
      have hge := n.ge
      by_cases hlow : n.value < 2 ^ 63
      · rw [readScalar]
        simp only [Json.isNull, Json.bool?, Json.int64?, hlow, if_true, Bool.false_eq_true,
          if_false]
      · have hnonneg : 0 ≤ n.value := by omega
        rw [readScalar]
        simp only [Json.isNull, Json.bool?, Json.int64?, Json.uint64?, hlow, hnonneg, if_true,
          Bool.false_eq_true, if_false]
  | _ => rfl

/-- The path loop succeeds when every item is a string, and takes the texts. -/
theorem readPath_eq_ok_iff (items : List Json) (path : CommandPath) :
    readPath items = .ok path ↔
      List.Forall₂ (fun item token => item.cString? = some token) items path := by
  induction items generalizing path with
  | nil => cases path <;> simp [readPath]
  | cons item items ih =>
      rw [readPath]
      cases htoken : item.cString? with
      | none => cases path <;> simp [htoken]
      | some token =>
          cases hrest : readPath items with
          | error what => cases path <;> simp [← ih, hrest, bind, Except.bind]
          | ok rest =>
              cases path <;> simp [← ih, hrest, htoken, bind, Except.bind, pure, Except.pure]

theorem readPositional_eq_ok_iff (items : List Json) (values : List CommandValue) :
    readPositional items = .ok values ↔
      List.Forall₂ (fun item value => readScalar item = some value) items values := by
  induction items generalizing values with
  | nil => cases values <;> simp [readPositional]
  | cons item items ih =>
      rw [readPositional]
      cases hvalue : readScalar item with
      | none => cases values <;> simp [hvalue]
      | some value =>
          cases hrest : readPositional items with
          | error what => cases values <;> simp [← ih, hrest, bind, Except.bind]
          | ok rest =>
              cases values <;> simp [← ih, hrest, hvalue, bind, Except.bind, pure, Except.pure]

/-- The loop over named arguments inserts what it reads, one after the other. -/
theorem readNamed_eq_ok_iff (members : List (CommandString × Json))
    (named result : CommandNamedValues) :
    readNamed members named = .ok result ↔
      ∃ entries, List.Forall₂ (fun member entry =>
          cString member.1 = entry.1 ∧ readScalar member.2 = some entry.2) members entries ∧
        result = named.emplaceAll entries := by
  induction members generalizing named with
  | nil =>
      rw [readNamed]
      constructor
      · intro h
        exact ⟨[], .nil, (Except.ok.inj h).symm⟩
      · rintro ⟨entries, hentries, rfl⟩
        cases hentries
        rfl
  | cons member members ih =>
      obtain ⟨key, input⟩ := member
      rw [readNamed]
      cases hvalue : readScalar input with
      | none =>
          constructor
          · intro h
            cases h
          · rintro ⟨entries, hentries, -⟩
            cases hentries with
            | cons hentry _ =>
                have := hentry.2
                rw [hvalue] at this
                cases this
      | some value =>
          show readNamed members (named.emplace (cString key) value) = .ok result ↔ _
          rw [ih]
          constructor
          · rintro ⟨entries, hentries, rfl⟩
            exact ⟨(cString key, value) :: entries, .cons ⟨rfl, hvalue⟩ hentries, rfl⟩
          · rintro ⟨entries, hentries, rfl⟩
            cases hentries with
            | @cons _ entry _ entries hentry hrest =>
                obtain ⟨hkey, hread⟩ := hentry
                rw [hvalue] at hread
                obtain rfl := Option.some.inj hread
                obtain ⟨entryKey, entryValue⟩ := entry
                obtain rfl : cString key = entryKey := hkey
                exact ⟨entries, hrest, rfl⟩

/-- A document is accepted when each of its three parts is read and the path is not
empty. -/
theorem parseObject_eq_ok_iff (object : List (CommandString × Json)) (json : CommandString)
    (invocation : CommandInvocation) :
    parseObject object json = .ok invocation ↔
      invocation.path ≠ [] ∧ parsePath object = .ok invocation.path ∧
        parseNamed object = .ok invocation.named ∧
        parsePositional object = .ok invocation.positional ∧ invocation.raw = json := by
  obtain ⟨path, positional, named, raw⟩ := invocation
  rw [parseObject]
  cases hpath : parsePath object with
  | error what => simp [bind, Except.bind]
  | ok tokens =>
      by_cases htokens : tokens = []
      · simp [bind, Except.bind, htokens]
        intro hne hnil
        exact absurd hnil hne
      · cases hnamed : parseNamed object with
        | error what => simp [bind, Except.bind, htokens]
        | ok entries =>
            cases hpositional : parsePositional object with
            | error what => simp [bind, Except.bind, htokens]
            | ok values =>
                simp only [bind, Except.bind, htokens, if_false, pure, Except.pure,
                  Except.ok.injEq, CommandInvocation.mk.injEq]
                constructor
                · intro h
                  obtain ⟨rfl, rfl, rfl, rfl⟩ := h
                  exact ⟨htokens, rfl, rfl, rfl, rfl⟩
                · intro h
                  obtain ⟨-, rfl, rfl, rfl, rfl⟩ := h
                  exact ⟨rfl, rfl, rfl, rfl⟩

end JsonCommandInterpreter

end EspressioCommand
