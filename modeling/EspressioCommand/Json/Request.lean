import EspressioCommand.Json.Acceptance
import EspressioCommand.Json.Describe
import EspressioCommand.Json.Lossless
import EspressioCommand.Registry.TextInvocation

/-!
# Calling a command through JSON

`JsonCommandInterpreter::Invoke`, `InvokeToJson` and `SerializeResult`.

`exists_parseObject_iff` says which invocations `Parse` can deliver: those that are
`Transportable`.  `writeRequest` is a request for each of them.  `invokeToJson_requests`
is the whole call: a request that spells an invocation runs as the structured invocation
does, and its result can be read off the reply.
-/

namespace EspressioCommand

open Library TextCommandParser

namespace TextCommandParser

/-! ### Tokens without a NUL -/

/-- Nothing that was read so far contains a NUL. -/
structure Scanner.NulFree (s : Scanner) : Prop where
  output : ∀ token ∈ s.output, 0 ∉ token
  current : 0 ∉ s.current

theorem Scanner.NulFree.step {s : Scanner} (h : s.NulFree) {c : UInt8} (hc : c ≠ 0) :
    (s.step c).NulFree := by
  have hpush : 0 ∉ s.current ++ [c] := by
    simpa using ⟨h.current, hc.symm⟩
  have hdone : ∀ token ∈ s.output ++ [s.current], 0 ∉ token := by
    intro token htoken
    rcases List.mem_append.mp htoken with hold | hnew
    · exact h.output token hold
    · obtain rfl := List.mem_singleton.mp hnew
      exact h.current
  rw [Scanner.step]
  split_ifs
  · exact ⟨h.output, hpush⟩
  · exact ⟨h.output, h.current⟩
  · exact ⟨h.output, h.current⟩
  · exact ⟨h.output, hpush⟩
  · exact ⟨h.output, h.current⟩
  · exact ⟨hdone, List.not_mem_nil⟩
  · exact h
  · exact ⟨h.output, hpush⟩

theorem Scanner.NulFree.scan {s : Scanner} (h : s.NulFree) {input : CommandString}
    (hinput : 0 ∉ input) : (s.scan input).NulFree := by
  induction input generalizing s with
  | nil => exact h
  | cons c input ih =>
      rw [List.mem_cons, not_or] at hinput
      exact ih (h.step (Ne.symm hinput.1)) hinput.2

/-- A line without a NUL has tokens without one: what the tokenizer adds to the bytes of
the line is at most a backslash. -/
theorem tokenize_nulFree {input : CommandString} (hinput : 0 ∉ input) :
    ∀ token ∈ (tokenize input).tokens, 0 ∉ token := by
  have hscan : (Scanner.initial.scan input).NulFree :=
    Scanner.NulFree.scan ⟨by simp [Scanner.initial], by simp [Scanner.initial]⟩ hinput
  rw [tokenize]
  generalize Scanner.initial.scan input = s at hscan
  have hcurrent : 0 ∉ if s.escape then s.current ++ [backslash] else s.current := by
    split_ifs
    · have hbackslash : (0 : UInt8) ≠ backslash := by decide
      simpa using ⟨hscan.current, hbackslash⟩
    · exact hscan.current
  rw [Scanner.finish]
  generalize (if s.escape then s.current ++ [backslash] else s.current) = current at hcurrent
  intro token htoken
  split_ifs at htoken
  · cases htoken
  · rcases List.mem_append.mp htoken with hold | hnew
    · exact hscan.output token hold
    · obtain rfl := List.mem_singleton.mp hnew
      exact hcurrent
  · exact hscan.output token htoken

end TextCommandParser

namespace JsonCommandInterpreter

variable {σ : Type}

/-- `JsonCommandInterpreter::Invoke`. -/
def invoke (platform : Platform) (deserializeJson : CommandString → Except CommandString Json)
    (registry : CommandRegistry σ) (json : CommandString) : Eff σ CommandResult :=
  match parse deserializeJson json with
  | .error what => pure (.error what)
  | .ok invocation => registry.invoke platform invocation

/-- The members that `SerializeResult` assigns. -/
def resultMembers (result : CommandResult) : List (String × Option Json) :=
  [("success", some (.boolean result.success)),
    ("code", some (jsonOf (.signedInteger (Int64.ofInt result.code.toInt)))),
    ("message", some (.string result.message))]

/-- The document that `SerializeResult` serializes. -/
def resultDocument (result : CommandResult) : Json :=
  .object (presentMembers (resultMembers result))

/-- `SerializeResult`. -/
def serializeResult (serializeJson : Json → CommandString) (result : CommandResult) :
    CommandString :=
  serializeJson (resultDocument result)

/-- `InvokeToJson`. -/
def invokeToJson (platform : Platform)
    (deserializeJson : CommandString → Except CommandString Json)
    (serializeJson : Json → CommandString) (registry : CommandRegistry σ)
    (json : CommandString) : Eff σ CommandString := do
  return serializeResult serializeJson (← invoke platform deserializeJson registry json)

/-! ### What `Parse` can deliver -/

/-- A value that `ReadScalar` can deliver: no null, no NUL in a string, and an unsigned
integer only where a signed one cannot hold it. -/
def TransportableValue : CommandValue → Prop
  | .null => False
  | .string bytes => NoNul bytes
  | .unsignedInteger value => 2 ^ 63 ≤ value.toNat
  | _ => True

/-- An invocation that `Parse` can deliver. -/
structure Transportable (invocation : CommandInvocation) : Prop where
  path_ne_nil : invocation.path ≠ []
  path : ∀ token ∈ invocation.path, NoNul token
  named : ∀ entry ∈ invocation.named.entries, NoNul entry.1 ∧ TransportableValue entry.2
  positional : ∀ value ∈ invocation.positional, TransportableValue value

theorem readScalar_jsonOf {value : CommandValue} (h : TransportableValue value) :
    readScalar (jsonOf value) = some value := by
  rw [readScalar_eq]
  cases value with
  | null => exact h.elim
  | string bytes =>
      simp only [jsonOf]
      rw [(cString_eq_self_iff bytes).mpr h]
  | boolean b => rfl
  | signedInteger n =>
      have hlt := n.toInt_lt
      simp only [jsonOf]
      rw [if_pos (by omega), Int64.ofInt_toInt]
  | unsignedInteger n =>
      have hge : 2 ^ 63 ≤ n.toNat := h
      simp only [jsonOf]
      rw [if_neg (by omega), Int.toNat_natCast, UInt64.ofNat_toNat]
  | floatingPoint d => rfl

theorem transportableValue_of_readScalar {input : Json} {value : CommandValue}
    (h : readScalar input = some value) : TransportableValue value := by
  cases value with
  | null =>
      rw [readScalar_eq] at h
      cases input with
      | integer n =>
          simp only at h
          split_ifs at h <;> cases h
      | _ => cases h
  | string bytes => exact noNul_of_readScalar h
  | unsignedInteger n =>
      rw [readScalar_eq] at h
      cases input with
      | integer number =>
          have hlt := number.lt
          simp only at h
          split_ifs at h with hrange
          · cases h
          · obtain rfl := CommandValue.unsignedInteger.inj (Option.some.inj h)
            show 2 ^ 63 ≤ (UInt64.ofNat number.value.toNat).toNat
            rw [UInt64.toNat_ofNat_of_lt' (show number.value.toNat < 2 ^ 64 by omega)]
            omega
      | _ => cases h
  | _ => trivial

/-- A text that was read as a C string contains no NUL. -/
theorem noNul_of_cString? {input : Json} {line : CommandString} (h : input.cString? = some line) :
    NoNul line := by
  obtain ⟨bytes, -, rfl⟩ := cString?_eq_some_iff.mp h
  exact noNul_cString bytes

/-- The path comes out of strings, or out of the tokens of one. -/
theorem noNul_of_parsePath {object : List (CommandString × Json)} {path : CommandPath}
    (h : parsePath object = .ok path) : ∀ token ∈ path, NoNul token := by
  rw [parsePath] at h
  cases hpath : (jsonMember object "path").array? with
  | some items =>
      cases hcommand : (jsonMember object "command").cString? with
      | some line =>
          rw [hpath, hcommand] at h
          cases h
      | none =>
          rw [hpath, hcommand] at h
          have hread := (readPath_eq_ok_iff _ _).mp h
          intro token htoken
          obtain ⟨item, -, hitem⟩ := exists_of_forall₂ hread.flip htoken
          exact noNul_of_cString? hitem
  | none =>
      cases hcommand : (jsonMember object "command").cString? with
      | none =>
          rw [hpath, hcommand] at h
          cases h
      | some line =>
          rw [hpath, hcommand] at h
          simp only at h
          split_ifs at h
          obtain rfl := Except.ok.inj h
          exact tokenize_nulFree (noNul_of_cString? hcommand)

/-- The values come out of scalars. -/
theorem transportableValue_of_parsePositional {object : List (CommandString × Json)}
    {values : List CommandValue} (h : parsePositional object = .ok values) :
    ∀ value ∈ values, TransportableValue value := by
  have hread : List.Forall₂ (fun item value => readScalar item = some value)
      (positionalOf object) values := by
    rw [parsePositional] at h
    rw [positionalOf]
    cases hinput : jsonMember object "positional" with
    | array items =>
        rw [hinput] at h
        exact (readPositional_eq_ok_iff _ _).mp h
    | null =>
        rw [hinput] at h
        obtain rfl := Except.ok.inj h
        exact .nil
    | _ =>
        rw [hinput] at h
        cases h
  intro value hvalue
  obtain ⟨item, -, hitem⟩ := exists_of_forall₂ hread.flip hvalue
  exact transportableValue_of_readScalar hitem

/-- So do the named ones, and their keys are C strings. -/
theorem transportable_of_parseNamed {object : List (CommandString × Json)}
    {named : CommandNamedValues} (h : parseNamed object = .ok named) :
    ∀ entry ∈ named.entries, NoNul entry.1 ∧ TransportableValue entry.2 := by
  obtain ⟨entries, hread, rfl⟩ := exists_entries_of_parseNamed h
  intro entry hentry
  have hmem : entry ∈ entries :=
    List.mem_of_find?_eq_some ((OrderedMap.mem_emplaceAll_empty _ _).mp hentry)
  obtain ⟨member, -, hkey, hvalue⟩ := exists_of_forall₂ hread.flip hmem
  constructor
  · rw [← hkey]
    exact noNul_cString _
  · exact transportableValue_of_readScalar hvalue

/-! ### A request for each of them -/

/-- The members of a request, those of `Parse` that it does without among them. -/
def requestMembers (invocation : CommandInvocation) : List (String × Option Json) :=
  [("path", some (writeStringArray invocation.path)),
    ("command", none),
    ("parameters", none),
    ("named", some (.object
      (invocation.named.entries.map fun entry => (entry.1, jsonOf entry.2)))),
    ("positional", some (.array (invocation.positional.map jsonOf)))]

/-- A request of this path and these arguments. -/
def writeRequest (invocation : CommandInvocation) : List (CommandString × Json) :=
  presentMembers (requestMembers invocation)

/-- `Requests object invocation`: the request spells the path, as an array or as a line,
and gives the named arguments in either member and in any order. -/
structure Requests (object : List (CommandString × Json)) (invocation : CommandInvocation) :
    Prop where
  path :
    (jsonMember object "path" = writeStringArray invocation.path ∧
        (jsonMember object "command").cString? = none) ∨
      ((jsonMember object "path").array? = none ∧ ∃ line, NoNul line ∧
        (∀ token ∈ invocation.path, token ≠ []) ∧ RendersLine invocation.path line ∧
        jsonMember object "command" = .string line)
  notBoth : (jsonMember object "parameters").object? = none ∨
    (jsonMember object "named").object? = none
  named : (argumentsOf object).Perm
    (invocation.named.entries.map fun entry => (entry.1, jsonOf entry.2))
  positional : jsonMember object "positional" = .array (invocation.positional.map jsonOf)

theorem Requests.parsePath {object : List (CommandString × Json)}
    {invocation : CommandInvocation} (hrequest : Requests object invocation)
    (h : Transportable invocation) : parsePath object = .ok invocation.path := by
  rw [JsonCommandInterpreter.parsePath]
  rcases hrequest.path with ⟨hpath, hcommand⟩ | ⟨hpath, line, hline, htokens, hrenders, hcommand⟩
  · rw [hpath, hcommand]
    refine (readPath_eq_ok_iff _ _).mpr ?_
    rw [List.forall₂_map_left_iff, List.forall₂_same]
    intro token htoken
    exact congrArg some ((cString_eq_self_iff token).mpr (h.path token htoken))
  · have htokenize : tokenize line = ⟨invocation.path, []⟩ :=
      tokenize_rendersLine hrenders htokens
    rw [hpath, hcommand]
    show (if (tokenize (cString line)).error ≠ [] then _ else _) = _
    rw [(cString_eq_self_iff line).mpr hline, htokenize]
    rfl

theorem Requests.parseNamed {object : List (CommandString × Json)}
    {invocation : CommandInvocation} (hrequest : Requests object invocation)
    (h : Transportable invocation) : parseNamed object = .ok invocation.named := by
  -- the members are read into the entries, in the order of the members
  obtain ⟨entries, hentries, hmembers⟩ :
      ∃ entries : List (CommandString × CommandValue), entries.Perm invocation.named.entries ∧
        argumentsOf object = entries.map fun entry => (entry.1, jsonOf entry.2) := by
    have hcomp := congrFun (congrFun (List.eq_map_comp_perm
      fun entry : CommandString × CommandValue => (entry.1, jsonOf entry.2)) (argumentsOf object))
      invocation.named.entries
    obtain ⟨entries, hmap, hperm⟩ := hcomp.mpr hrequest.named
    exact ⟨entries, hperm, hmap⟩
  have hread : readNamed (argumentsOf object) OrderedMap.empty = .ok invocation.named := by
    refine (readNamed_eq_ok_iff _ _ _).mpr ⟨entries, ?_, ?_⟩
    · rw [hmembers, List.forall₂_map_left_iff, List.forall₂_same]
      intro entry hentry
      obtain ⟨hkey, hvalue⟩ := h.named entry (hentries.subset hentry)
      exact ⟨(cString_eq_self_iff _).mpr hkey, readScalar_jsonOf hvalue⟩
    · exact (OrderedMap.emplaceAll_of_perm hentries).symm
  rw [JsonCommandInterpreter.parseNamed]
  rw [argumentsOf] at hread
  cases hparameters : (jsonMember object "parameters").object? with
  | some parameters =>
      have hnamed : (jsonMember object "named").object? = none := by
        rcases hrequest.notBoth with hnone | hnone
        · rw [hparameters] at hnone
          cases hnone
        · exact hnone
      rw [hparameters] at hread
      rw [hnamed]
      exact hread
  | none =>
      rw [hparameters] at hread
      cases hnamed : (jsonMember object "named").object? with
      | some named =>
          rw [hnamed] at hread
          exact hread
      | none =>
          rw [hnamed] at hread
          exact hread

theorem Requests.parsePositional {object : List (CommandString × Json)}
    {invocation : CommandInvocation} (hrequest : Requests object invocation)
    (h : Transportable invocation) : parsePositional object = .ok invocation.positional := by
  rw [JsonCommandInterpreter.parsePositional, hrequest.positional]
  refine (readPositional_eq_ok_iff _ _).mpr ?_
  rw [List.forall₂_map_left_iff, List.forall₂_same]
  intro value hvalue
  exact readScalar_jsonOf (h.positional value hvalue)

/-- What `Parse` delivers is transportable. -/
theorem transportable_of_parseObject {object : List (CommandString × Json)}
    {json : CommandString} {invocation : CommandInvocation}
    (h : parseObject object json = .ok invocation) : Transportable invocation := by
  obtain ⟨hne, hpath, hnamed, hpositional, -⟩ := (parseObject_eq_ok_iff _ _ _).mp h
  exact ⟨hne, noNul_of_parsePath hpath, transportable_of_parseNamed hnamed,
    transportableValue_of_parsePositional hpositional⟩

/-- A request of a transportable invocation is parsed to it. -/
theorem Requests.parseObject {object : List (CommandString × Json)}
    {invocation : CommandInvocation} (hrequest : Requests object invocation)
    (h : Transportable invocation) (json : CommandString) :
    parseObject object json = .ok { invocation with raw := json } :=
  (parseObject_eq_ok_iff _ _ _).mpr ⟨h.path_ne_nil, hrequest.parsePath h,
    hrequest.parseNamed h, hrequest.parsePositional h, rfl⟩

theorem nodup_requestMembers (invocation : CommandInvocation) :
    ((requestMembers invocation).map fun member => text member.1).Nodup := by
  show List.Nodup [text "path", text "command", text "parameters", text "named",
    text "positional"]
  decide

theorem requests_writeRequest (invocation : CommandInvocation) :
    Requests (writeRequest invocation) invocation := by
  have hmember {key : String} {value : Option Json}
      (hmember : (key, value) ∈ requestMembers invocation) :
      jsonMember (writeRequest invocation) key = value.getD .null :=
    jsonMember_presentMembers (nodup_requestMembers invocation) hmember
  have hpath := hmember (.head _)
  have hcommand := hmember (.tail _ (.head _))
  have hparameters := hmember (.tail _ (.tail _ (.head _)))
  have hnamed := hmember (.tail _ (.tail _ (.tail _ (.head _))))
  have hpositional := hmember (.tail _ (.tail _ (.tail _ (.tail _ (.head _)))))
  refine ⟨Or.inl ⟨hpath, by rw [hcommand]; rfl⟩, Or.inl (by rw [hparameters]; rfl), ?_,
    hpositional⟩
  rw [argumentsOf, hparameters, hnamed]
  exact .refl _

/-- **What can be requested.**  Some request is parsed to an invocation exactly when this is
transportable, and then every request that spells it is. -/
theorem exists_parseObject_iff (invocation : CommandInvocation) (json : CommandString) :
    ((∃ object, parseObject object json = .ok { invocation with raw := json }) ↔
        Transportable invocation) ∧
      ∀ object, Requests object invocation →
        (parseObject object json = .ok { invocation with raw := json } ↔
          Transportable invocation) := by
  have hrange {object : List (CommandString × Json)}
      (h : parseObject object json = .ok { invocation with raw := json }) :
      Transportable invocation := by
    obtain ⟨hne, hpath, hnamed, hpositional⟩ := transportable_of_parseObject h
    exact ⟨hne, hpath, hnamed, hpositional⟩
  refine ⟨⟨?_, ?_⟩, ?_⟩
  · rintro ⟨object, h⟩
    exact hrange h
  · intro h
    exact ⟨writeRequest invocation, (requests_writeRequest invocation).parseObject h json⟩
  · intro object hrequest
    exact ⟨hrange, fun h => hrequest.parseObject h json⟩

/-! ### The whole call -/

/-- What a client reads off the reply. -/
def readReply : Json → Option CommandResult
  | .object members =>
      match jsonMember members "success", jsonMember members "code",
          jsonMember members "message" with
      | .boolean success, .integer code, .string message =>
          some ⟨success, Int32.ofInt code.value, message⟩
      | _, _, _ => none
  | _ => none

theorem nodup_resultMembers (result : CommandResult) :
    ((resultMembers result).map fun member => text member.1).Nodup := by
  show List.Nodup [text "success", text "code", text "message"]
  decide

theorem readReply_resultDocument (result : CommandResult) :
    readReply (resultDocument result) = some result := by
  have hcode : (Int64.ofInt result.code.toInt).toInt = result.code.toInt := by
    have hge := result.code.le_toInt
    have hlt := result.code.toInt_lt
    exact Int64.toInt_ofInt_of_le (by omega) (by omega)
  have hmember {key : String} {value : Option Json}
      (hmember : (key, value) ∈ resultMembers result) :
      jsonMember (presentMembers (resultMembers result)) key = value.getD .null :=
    jsonMember_presentMembers (nodup_resultMembers result) hmember
  rw [resultDocument, readReply, hmember (.head _), hmember (.tail _ (.head _)),
    hmember (.tail _ (.tail _ (.head _)))]
  show some (⟨result.success, Int32.ofInt (Int64.ofInt result.code.toInt).toInt,
    result.message⟩ : CommandResult) = some result
  rw [hcode, Int32.ofInt_toInt]

/-- **A call through JSON** is the structured call: whichever way the request spells the
invocation, the same command does the same, and the reply tells its result. -/
theorem invokeToJson_requests (platform : Platform)
    {deserializeJson : CommandString → Except CommandString Json}
    (serializeJson : Json → CommandString) {registry : CommandRegistry σ}
    {node : CommandNode σ} {object : List (CommandString × Json)} {json : CommandString}
    {invocation : CommandInvocation}
    (hdocument : deserializeJson json = .ok (.object object))
    (hrequest : Requests object invocation) (h : Transportable invocation)
    (hresolve : registry.resolve invocation.path = some node)
    (hraw : CommandRegistry.IgnoresRaw registry node) :
    invokeToJson platform deserializeJson serializeJson registry json =
        (fun result => serializeJson (resultDocument result)) <$>
          registry.invoke platform invocation ∧
      ∀ result, readReply (resultDocument result) = some result := by
  refine ⟨?_, readReply_resultDocument⟩
  have hparse : parse deserializeJson json = .ok { invocation with raw := json } := by
    rw [parse, hdocument]
    exact hrequest.parseObject h json
  have hinvoke : invoke platform deserializeJson registry json =
      registry.invoke platform invocation := by
    rw [invoke, hparse]
    show registry.invoke platform { invocation with raw := json } = _
    rw [CommandRegistry.invoke, CommandRegistry.invoke]
    simp only [h.path_ne_nil, if_false, hresolve]
    exact CommandRegistry.invokeResolved_withRaw platform hraw invocation json
  rw [invokeToJson, hinvoke, map_eq_pure_bind]
  rfl

/-- `{"command": "relay", "parameters": {"mode": "slow"}, "positional": ["on"]}`. -/
def relayRequest : List (CommandString × Json) :=
  [(text "command", .string (text "relay")),
    (text "parameters", .object [(text "mode", .string (text "slow"))]),
    (text "positional", .array [.string (text "on")])]

theorem requests_relayRequest : Requests relayRequest CommandRegistry.relaySlow where
  path := by
    have hrelay : Encodes 0 (text "relay") (text "relay") := .of_ordinary (by decide)
    exact Or.inr ⟨rfl, text "relay", by decide, by decide,
      ⟨[], text "relay", by decide, @RendersTokens.last _ _ [] hrelay (by decide), rfl⟩, rfl⟩
  notBoth := Or.inr rfl
  named := .refl _
  positional := rfl

/-- The bytes of that request. -/
def relayRequestText : CommandString :=
  text ("\x7b\"command\":\"relay\",\"parameters\":\x7b\"mode\":\"slow\"\x7d," ++
    "\"positional\":[\"on\"]\x7d")

/-- The reply to a success without a message. -/
def successText : CommandString :=
  text "\x7b\"success\":true,\"code\":0,\"message\":\"\"\x7d"

theorem invokeToJson_requests_relay :
    invokeToJson .withoutFloatingText (fun _ => .ok (.object relayRequest))
        (fun _ => successText) CommandRegistry.relayRegistry relayRequestText =
      (fun _ => successText) <$>
        CommandRegistry.relayRegistry.invoke .withoutFloatingText CommandRegistry.relaySlow := by
  have hraw : CommandRegistry.IgnoresRaw CommandRegistry.relayRegistry
      CommandRegistry.relayNode := by
    refine ⟨?_, fun middleware hmem => by cases hmem⟩
    rintro stage (hmem | hcallback | hmem) bindings invocation raw
    · cases hmem
    · obtain rfl := Option.some.inj hcallback
      rfl
    · cases hmem
  have htransportable : Transportable CommandRegistry.relaySlow := by
    refine ⟨by decide, by decide, ?_, ?_⟩
    · intro entry hentry
      obtain rfl := List.mem_singleton.mp hentry
      exact ⟨by decide, show NoNul (text "slow") by decide⟩
    · intro value hvalue
      obtain rfl := List.mem_singleton.mp hvalue
      exact (show NoNul (text "on") by decide)
  exact (invokeToJson_requests .withoutFloatingText _ rfl requests_relayRequest htransportable rfl
    hraw).1

end JsonCommandInterpreter
end EspressioCommand
