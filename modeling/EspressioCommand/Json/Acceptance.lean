import EspressioCommand.Json.JsonCommandInterpreter
import Mathlib.Data.List.Forall2

/-!
# Which JSON requests are accepted

`Documented` is the documented shape of a request.  `Parse` tests `path`, `command`,
`parameters` and `named` for their type before it asks whether they are there: a member
of another type counts as absent.  Only `positional` is tested the other way round.

`parse_ok_iff_asRead` says what `Parse` accepts: the requests that have the documented
shape once their mistyped members are taken out and their command is cut at a NUL.
`parse_ok_iff_documented` says of which requests this is the documented shape itself.
-/

namespace EspressioCommand
namespace JsonCommandInterpreter

open TextCommandParser

/-- The members that `Parse` looks up. -/
structure Members where
  path : Json
  command : Json
  parameters : Json
  named : Json
  positional : Json

/-- The members of an object. -/
def Members.of (object : List (CommandString × Json)) : Members where
  path := jsonMember object "path"
  command := jsonMember object "command"
  parameters := jsonMember object "parameters"
  named := jsonMember object "named"
  positional := jsonMember object "positional"

/-- A boolean, a number or a string. -/
def IsScalar : Json → Prop
  | .boolean _ => True
  | .integer _ => True
  | .floating _ => True
  | .string _ => True
  | _ => False

/-- `Tokenize` splits the line without error into at least one token. -/
def NamesCommand (line : CommandString) : Prop :=
  (tokenize line).error = [] ∧ (tokenize line).tokens ≠ []

instance (line : CommandString) : Decidable (NamesCommand line) :=
  inferInstanceAs (Decidable (_ ∧ _))

/-- An object all of whose values are scalars. -/
def IsArguments (input : Json) : Prop :=
  ∃ members, input = .object members ∧ ∀ member ∈ members, IsScalar member.2

/-- **The documented shape**, up to what the command is: a null member is an absent one. -/
structure Shaped (m : Members) : Prop where
  exactlyOne : m.path.isNull ≠ m.command.isNull
  path : m.path.isNull = false →
    ∃ items, m.path = .array items ∧ items ≠ [] ∧ ∀ item ∈ items, ∃ token, item = .string token
  command : m.command.isNull = false → ∃ line, m.command = .string line
  notBoth : m.parameters.isNull = true ∨ m.named.isNull = true
  parameters : m.parameters.isNull = false → IsArguments m.parameters
  named : m.named.isNull = false → IsArguments m.named
  positional : m.positional.isNull = false →
    ∃ items, m.positional = .array items ∧ ∀ item ∈ items, IsScalar item

/-- **The documented shape.** -/
def Documented (m : Members) : Prop :=
  Shaped m ∧ ∀ line, m.command = .string line → NamesCommand line

/-- A member that is tested for its type first is there with another type. -/
def Mistyped (m : Members) : Prop :=
  (m.path.isNull = false ∧ m.path.array? = none) ∨
    (m.command.isNull = false ∧ m.command.cString? = none) ∨
    (m.parameters.isNull = false ∧ m.parameters.object? = none) ∨
    (m.named.isNull = false ∧ m.named.object? = none)

instance (m : Members) : Decidable (Mistyped m) := by
  unfold Mistyped
  infer_instance

/-- The request as `Parse` sees it: without the mistyped members, and with the command up
to its first NUL. -/
def Members.asRead (m : Members) : Members where
  path := if m.path.array?.isSome then m.path else .null
  command := (m.command.cString?.map Json.string).getD .null
  parameters := if m.parameters.object?.isSome then m.parameters else .null
  named := if m.named.object?.isSome then m.named else .null
  positional := m.positional

/-! ### What is accepted -/

theorem array?_eq_some_iff {input : Json} {items : List Json} :
    input.array? = some items ↔ input = .array items := by
  cases input <;> simp [Json.array?]

theorem object?_eq_some_iff {input : Json} {members : List (CommandString × Json)} :
    input.object? = some members ↔ input = .object members := by
  cases input <;> simp [Json.object?]

theorem cString?_eq_some_iff {input : Json} {line : CommandString} :
    input.cString? = some line ↔ ∃ bytes, input = .string bytes ∧ cString bytes = line := by
  cases input <;> simp [Json.cString?]

/-- The scalars are what `ReadScalar` reads. -/
theorem isScalar_iff (input : Json) : IsScalar input ↔ ∃ value, readScalar input = some value := by
  rw [readScalar_eq]
  cases input with
  | integer n =>
      refine iff_of_true trivial ?_
      show ∃ value, (if n.value < 2 ^ 63 then _ else _) = some value
      split_ifs
      · exact ⟨_, rfl⟩
      · exact ⟨_, rfl⟩
  | _ => simp [IsScalar]

/-- A list can be related element by element when every element can. -/
theorem exists_forall₂_iff {α β : Type*} {R : α → β → Prop} (xs : List α) :
    (∃ ys, List.Forall₂ R xs ys) ↔ ∀ x ∈ xs, ∃ y, R x y := by
  induction xs with
  | nil => simp
  | cons x xs ih =>
      rw [List.forall_mem_cons, ← ih]
      constructor
      · intro h
        obtain ⟨ys, hys⟩ := h
        obtain ⟨y, rest, hy, hrest, -⟩ := List.forall₂_cons_left_iff.mp hys
        exact ⟨⟨y, hy⟩, rest, hrest⟩
      · intro h
        obtain ⟨⟨y, hy⟩, rest, hrest⟩ := h
        exact ⟨y :: rest, .cons hy hrest⟩

/-- `path` is read when every item is a string. -/
theorem exists_readPath_iff (items : List Json) :
    (∃ path, path ≠ [] ∧ readPath items = .ok path) ↔
      items ≠ [] ∧ ∀ item ∈ items, ∃ token, item = .string token := by
  have hitems : (∃ path, readPath items = .ok path) ↔
      ∀ item ∈ items, ∃ token, item = .string token := by
    simp only [readPath_eq_ok_iff, exists_forall₂_iff, cString?_eq_some_iff]
    refine forall_congr' fun item => imp_congr_right fun _ => ?_
    constructor
    · intro h
      obtain ⟨-, bytes, hbytes, -⟩ := h
      exact ⟨bytes, hbytes⟩
    · intro h
      obtain ⟨bytes, hbytes⟩ := h
      exact ⟨cString bytes, bytes, hbytes, rfl⟩
  rw [← hitems]
  constructor
  · intro h
    obtain ⟨path, hne, hpath⟩ := h
    refine ⟨?_, path, hpath⟩
    rintro rfl
    exact hne (Except.ok.inj hpath).symm
  · intro h
    obtain ⟨hne, path, hpath⟩ := h
    refine ⟨path, ?_, hpath⟩
    rintro rfl
    exact hne (List.forall₂_nil_right_iff.mp ((readPath_eq_ok_iff _ _).mp hpath))

theorem exists_readNamed_iff (members : List (CommandString × Json)) :
    (∃ named, readNamed members Library.OrderedMap.empty = .ok named) ↔
      ∀ member ∈ members, IsScalar member.2 := by
  have hentries : (∃ named, readNamed members Library.OrderedMap.empty = .ok named) ↔
      ∃ entries : List (CommandString × CommandValue), List.Forall₂ (fun member entry =>
        cString member.1 = entry.1 ∧ readScalar member.2 = some entry.2) members entries := by
    simp only [readNamed_eq_ok_iff]
    constructor
    · intro h
      obtain ⟨-, entries, hentries, -⟩ := h
      exact ⟨entries, hentries⟩
    · intro h
      obtain ⟨entries, hentries⟩ := h
      exact ⟨_, entries, hentries, rfl⟩
  rw [hentries, exists_forall₂_iff]
  refine forall_congr' fun member => imp_congr_right fun _ => ?_
  rw [isScalar_iff]
  constructor
  · intro h
    obtain ⟨entry, -, hvalue⟩ := h
    exact ⟨entry.2, hvalue⟩
  · intro h
    obtain ⟨value, hvalue⟩ := h
    exact ⟨(cString member.1, value), rfl, hvalue⟩

theorem exists_readPositional_iff (items : List Json) :
    (∃ values, readPositional items = .ok values) ↔ ∀ item ∈ items, IsScalar item := by
  simp only [readPositional_eq_ok_iff, exists_forall₂_iff, isScalar_iff]

/-- The path is read, and not empty, from the one of `path` and `command` that is there
with its type. -/
theorem exists_parsePath_iff (object : List (CommandString × Json)) :
    (∃ path, path ≠ [] ∧ parsePath object = .ok path) ↔
      (∃ items, (jsonMember object "path").array? = some items ∧
          (jsonMember object "command").cString? = none ∧
          items ≠ [] ∧ ∀ item ∈ items, ∃ token, item = .string token) ∨
        ∃ line, (jsonMember object "path").array? = none ∧
          (jsonMember object "command").cString? = some line ∧ NamesCommand line := by
  rw [parsePath]
  cases hpath : (jsonMember object "path").array? with
  | some items =>
      cases hcommand : (jsonMember object "command").cString? with
      | some line => simp
      | none => simpa using exists_readPath_iff items
  | none =>
      cases hcommand : (jsonMember object "command").cString? with
      | none => simp
      | some line =>
          by_cases herror : (tokenize line).error = [] <;> simp [herror, NamesCommand]

theorem exists_parseNamed_iff (object : List (CommandString × Json)) :
    (∃ named, parseNamed object = .ok named) ↔
      ((jsonMember object "parameters").object? = none ∨
          (jsonMember object "named").object? = none) ∧
        (∀ members, (jsonMember object "parameters").object? = some members →
          ∀ member ∈ members, IsScalar member.2) ∧
        ∀ members, (jsonMember object "named").object? = some members →
          ∀ member ∈ members, IsScalar member.2 := by
  rw [parseNamed]
  cases hparameters : (jsonMember object "parameters").object? with
  | some parameters =>
      cases hnamed : (jsonMember object "named").object? with
      | some named => simp
      | none => simpa using exists_readNamed_iff parameters
  | none =>
      cases hnamed : (jsonMember object "named").object? with
      | some named => simpa using exists_readNamed_iff named
      | none => simp

theorem exists_parsePositional_iff (object : List (CommandString × Json)) :
    (∃ values, parsePositional object = .ok values) ↔
      ((jsonMember object "positional").isNull = false →
        ∃ items, jsonMember object "positional" = .array items ∧
          ∀ item ∈ items, IsScalar item) := by
  rw [parsePositional]
  cases hnull : (jsonMember object "positional").isNull with
  | true => simp
  | false =>
      simp only [Bool.false_eq_true, if_false, forall_const]
      cases hitems : (jsonMember object "positional").array? with
      | none =>
          have hother : ∀ items, jsonMember object "positional" ≠ .array items := by
            intro items h
            rw [h] at hitems
            cases hitems
          simp [hother]
      | some items =>
          have harray := array?_eq_some_iff.mp hitems
          simp only [harray, Json.array.injEq, exists_eq_left', exists_readPositional_iff]

/-! ### The request as it is read -/

/-- A member that passes the test, or is null, is left as it is. -/
theorem masked_eq_self {α : Type} {read : Json → Option α} {input : Json}
    (h : input.isNull = false → read input ≠ none) :
    (if (read input).isSome then input else .null) = input := by
  cases input with
  | null => split_ifs <;> rfl
  | _ => rw [if_pos (Option.isSome_iff_ne_none.mpr (h rfl))]

section Masked

variable {α : Type} {read : Json → Option α} {make : α → Json}
  (hread : ∀ input x, read input = some x ↔ input = make x)
  (hmake : ∀ x, (make x).isNull = false)
include hread hmake

/-- What is left of a member after the test for its type is null when the test fails. -/
theorem masked_isNull (input : Json) :
    (if (read input).isSome then input else .null).isNull = (read input).isNone := by
  cases h : read input with
  | none => rfl
  | some x =>
      obtain rfl := (hread input x).mp h
      simpa using hmake x

theorem masked_eq_iff (input : Json) (x : α) :
    (if (read input).isSome then input else .null) = make x ↔ read input = some x := by
  cases h : read input with
  | none =>
      have hnull : Json.null ≠ make x := by
        intro hmade
        have hnotNull := hmake x
        rw [← hmade] at hnotNull
        cases hnotNull
      simpa using hnull
  | some y =>
      rw [if_pos Option.isSome_some, ← h]
      exact (hread input x).symm

end Masked

theorem asRead_command_isNull (m : Members) :
    m.asRead.command.isNull = m.command.cString?.isNone := by
  rw [Members.asRead]
  cases m.command <;> rfl

theorem asRead_command_eq_iff (m : Members) (line : CommandString) :
    m.asRead.command = .string line ↔ m.command.cString? = some line := by
  rw [Members.asRead]
  cases m.command <;> simp [Json.cString?]

/-- The shape of `path` and `command`, as they are read. -/
theorem asRead_path_iff (m : Members) :
    (m.asRead.path.isNull ≠ m.asRead.command.isNull ∧
        (m.asRead.path.isNull = false → ∃ items, m.asRead.path = .array items ∧ items ≠ [] ∧
          ∀ item ∈ items, ∃ token, item = .string token) ∧
        (m.asRead.command.isNull = false → ∃ line, m.asRead.command = .string line) ∧
        ∀ line, m.asRead.command = .string line → NamesCommand line) ↔
      (∃ items, m.path.array? = some items ∧ m.command.cString? = none ∧ items ≠ [] ∧
          ∀ item ∈ items, ∃ token, item = .string token) ∨
        ∃ line, m.path.array? = none ∧ m.command.cString? = some line ∧ NamesCommand line := by
  have hnull : m.asRead.path.isNull = m.path.array?.isNone :=
    masked_isNull (fun _ _ => array?_eq_some_iff) (fun _ => rfl) m.path
  have hitems : ∀ items, m.asRead.path = .array items ↔ m.path.array? = some items :=
    masked_eq_iff (fun _ _ => array?_eq_some_iff) (fun _ => rfl) m.path
  simp only [hnull, hitems, asRead_command_isNull, asRead_command_eq_iff]
  cases m.path.array? <;> cases m.command.cString? <;> simp

/-- The shape of `parameters` and `named`, as they are read. -/
theorem asRead_named_iff (m : Members) :
    ((m.asRead.parameters.isNull = true ∨ m.asRead.named.isNull = true) ∧
        (m.asRead.parameters.isNull = false → IsArguments m.asRead.parameters) ∧
        (m.asRead.named.isNull = false → IsArguments m.asRead.named)) ↔
      (m.parameters.object? = none ∨ m.named.object? = none) ∧
        (∀ members, m.parameters.object? = some members →
          ∀ member ∈ members, IsScalar member.2) ∧
        ∀ members, m.named.object? = some members → ∀ member ∈ members, IsScalar member.2 := by
  have hnull := masked_isNull (fun _ _ => object?_eq_some_iff) (fun _ => rfl)
  have hentries := masked_eq_iff (fun _ _ => object?_eq_some_iff) (fun _ => rfl)
  simp only [IsArguments, Members.asRead, hnull, hentries]
  cases m.parameters.object? <;> cases m.named.object? <;> simp

/-- **What is accepted.**  `Parse` returns true exactly for the requests that have the
documented shape as it reads them. -/
theorem parseObject_ok_iff (object : List (CommandString × Json)) (json : CommandString) :
    (∃ invocation, parseObject object json = .ok invocation) ↔
      Documented (Members.of object).asRead := by
  have hparts : (∃ invocation, parseObject object json = .ok invocation) ↔
      (∃ path, path ≠ [] ∧ parsePath object = .ok path) ∧
        (∃ named, parseNamed object = .ok named) ∧
        ∃ values, parsePositional object = .ok values := by
    simp only [parseObject_eq_ok_iff]
    constructor
    · rintro ⟨invocation, hne, hpath, hnamed, hpositional, -⟩
      exact ⟨⟨_, hne, hpath⟩, ⟨_, hnamed⟩, _, hpositional⟩
    · rintro ⟨⟨path, hne, hpath⟩, ⟨named, hnamed⟩, positional, hpositional⟩
      exact ⟨⟨path, positional, named, json⟩, hne, hpath, hnamed, hpositional, rfl⟩
  have hpath := asRead_path_iff (Members.of object)
  have hnamed := asRead_named_iff (Members.of object)
  rw [hparts, exists_parsePath_iff, exists_parseNamed_iff, exists_parsePositional_iff]
  constructor
  · intro h
    obtain ⟨hone, hitems, hline, hnames⟩ := hpath.mpr h.1
    obtain ⟨hnotBoth, hparameters, hentries⟩ := hnamed.mpr h.2.1
    exact ⟨⟨hone, hitems, hline, hnotBoth, hparameters, hentries, h.2.2⟩, hnames⟩
  · intro h
    obtain ⟨hshaped, hnames⟩ := h
    exact ⟨hpath.mp ⟨hshaped.exactlyOne, hshaped.path, hshaped.command, hnames⟩,
      hnamed.mp ⟨hshaped.notBoth, hshaped.parameters, hshaped.named⟩, hshaped.positional⟩

/-! ### When that is the documented shape -/

/-- A request with a mistyped member has not the documented shape. -/
theorem Mistyped.not_shaped {m : Members} (h : Mistyped m) : ¬ Shaped m := by
  intro hshaped
  rcases h with ⟨hpresent, htype⟩ | ⟨hpresent, htype⟩ | ⟨hpresent, htype⟩ | ⟨hpresent, htype⟩
  · obtain ⟨items, hitems, -⟩ := hshaped.path hpresent
    rw [hitems] at htype
    cases htype
  · obtain ⟨line, hline⟩ := hshaped.command hpresent
    rw [hline] at htype
    cases htype
  · obtain ⟨members, hmembers, -⟩ := hshaped.parameters hpresent
    rw [hmembers] at htype
    cases htype
  · obtain ⟨members, hmembers, -⟩ := hshaped.named hpresent
    rw [hmembers] at htype
    cases htype

/-- Without mistyped members, the request is read as it is, but for the text of the
command. -/
theorem asRead_of_not_mistyped {m : Members} (h : ¬ Mistyped m) :
    (m.command = .null ∧ m.asRead = m) ∨
      ∃ line, m.command = .string line ∧
        m.asRead = { m with command := .string (cString line) } := by
  rw [Mistyped] at h
  push Not at h
  obtain ⟨hpath, hcommand, hparameters, hnamed⟩ := h
  obtain ⟨path, command, parameters, named, positional⟩ := m
  simp only [Members.asRead, masked_eq_self hpath, masked_eq_self hparameters,
    masked_eq_self hnamed]
  cases command with
  | null => exact Or.inl ⟨rfl, rfl⟩
  | string line => exact Or.inr ⟨line, rfl, rfl⟩
  | _ => simp [Json.cString?, Json.isNull] at hcommand

/-- The shape does not depend on the text of the command. -/
theorem shaped_command_iff {m : Members} {line line' : CommandString}
    (h : m.command = .string line) :
    Shaped { m with command := .string line' } ↔ Shaped m := by
  constructor
  · intro hs
    refine ⟨?_, hs.path, fun _ => ⟨line, h⟩, hs.notBoth, hs.parameters, hs.named, hs.positional⟩
    rw [h]
    exact hs.exactlyOne
  · intro hs
    refine ⟨?_, hs.path, fun _ => ⟨line', rfl⟩, hs.notBoth, hs.parameters, hs.named,
      hs.positional⟩
    have hone := hs.exactlyOne
    rw [h] at hone
    exact hone

/-- Nothing goes unnoticed in the request.  If a member is mistyped, then what is left of
the request has not the documented shape either; and a NUL in the command of a request
of that shape makes no difference to whether the command names something. -/
def Noticed (m : Members) : Prop :=
  (Mistyped m → ¬ Documented m.asRead) ∧
    (¬ Mistyped m → Shaped m → ∀ line, m.command = .string line →
      (NamesCommand line ↔ NamesCommand (cString line)))

/-- **When acceptance is the documented shape.**  For every JSON object that the
deserializer delivers. -/
theorem parse_ok_iff_documented {deserializeJson : CommandString → Except CommandString Json}
    {json : CommandString} {object : List (CommandString × Json)}
    (hdocument : deserializeJson json = .ok (.object object)) :
    ((∃ invocation, parse deserializeJson json = .ok invocation) ↔
        Documented (Members.of object)) ↔ Noticed (Members.of object) := by
  have haccepts : (∃ invocation, parse deserializeJson json = .ok invocation) ↔
      Documented (Members.of object).asRead := by
    rw [← parseObject_ok_iff object json, parse, hdocument]
  rw [haccepts, Noticed]
  by_cases hmistyped : Mistyped (Members.of object)
  · have hnot : ¬ Documented (Members.of object) := fun h => hmistyped.not_shaped h.1
    tauto
  · rcases asRead_of_not_mistyped hmistyped with ⟨hnull, hsame⟩ | ⟨line, hline, hcut⟩
    · rw [hsame, hnull]
      simp [hmistyped]
    · -- both sides ask for the rest of the shape, and then for the command to name something
      have hnames (line' : CommandString) :
          (∀ bytes, Json.string line' = .string bytes → NamesCommand bytes) ↔
            NamesCommand line' := by
        simp
      rw [hcut, Documented, Documented, shaped_command_iff hline, hline, hnames, hnames]
      simp only [Json.string.injEq, forall_eq', hmistyped, not_false_eq_true, true_implies,
        false_implies, true_and]
      tauto

/-- `{"path": ["motor"], "parameters": [5]}`: the arguments are an array. -/
def mistypedRequest : List (CommandString × Json) :=
  [(text "path", .array [.string (text "motor")]),
    (text "parameters", .array [.integer ⟨5, by decide, by decide⟩])]

/-- The command runs without its arguments. -/
theorem not_parse_ok_iff_documented_motor :
    ¬ ∀ (deserializeJson : CommandString → Except CommandString Json) (json : CommandString)
        (object : List (CommandString × Json)), deserializeJson json = .ok (.object object) →
        ((∃ invocation, parse deserializeJson json = .ok invocation) ↔
          Documented (Members.of object)) := by
  intro h
  have haccepted := (h (fun _ => .ok (.object mistypedRequest))
    (text "\x7b\"path\":[\"motor\"],\"parameters\":[5]\x7d") mistypedRequest rfl).mp ⟨_, rfl⟩
  obtain ⟨members, hmembers, -⟩ := haccepted.1.parameters rfl
  cases hmembers

/-- `{"command": "relay on"}`. -/
theorem parse_ok_iff_documented_relay :
    (∃ invocation, parse
        (fun _ => .ok (.object [(text "command", .string (text "relay on"))]))
        (text "\x7b\"command\":\"relay on\"\x7d") = .ok invocation) ↔
      Documented (Members.of [(text "command", .string (text "relay on"))]) := by
  refine (parse_ok_iff_documented rfl).mpr ⟨?_, ?_⟩
  · intro hmistyped
    exact absurd hmistyped (by decide)
  · intro _ _ line hline
    cases hline
    decide

end JsonCommandInterpreter
end EspressioCommand
