import EspressioCommand.Json.JsonCommandInterpreter
import Mathlib.Data.List.Forall2
import Mathlib.Data.List.TakeWhile

/-!
# What a JSON request loses on the way

`Lossless` relates an accepted request to its invocation: the path, the named arguments
and the positional ones are carried over, each with its type and its value.  Every text
passes through a `const char*`, so a NUL cuts it short, and keys that differ only behind
one fall together.  `parse_lossless_iff` says that this is the only loss.
-/

namespace EspressioCommand
namespace JsonCommandInterpreter

open Library

/-- `Carries input value`: the value has the type and the value of the JSON scalar. -/
inductive Carries : Json → CommandValue → Prop
  | boolean (value : Bool) : Carries (.boolean value) (.boolean value)
  | signed {n : JsonInteger} {value : Int64} (hrange : n.value < 2 ^ 63)
      (hvalue : value.toInt = n.value) : Carries (.integer n) (.signedInteger value)
  | unsigned {n : JsonInteger} {value : UInt64} (hrange : 2 ^ 63 ≤ n.value)
      (hvalue : (value.toNat : ℤ) = n.value) : Carries (.integer n) (.unsignedInteger value)
  | floating (value : Double) : Carries (.floating value) (.floatingPoint value)
  | string (bytes : CommandString) : Carries (.string bytes) (.string bytes)

/-- The members of the object that the named arguments are read from. -/
def argumentsOf (object : List (CommandString × Json)) : List (CommandString × Json) :=
  match (jsonMember object "parameters").object? with
  | some parameters => parameters
  | none => (jsonMember object "named").object?.getD []

/-- The items that the positional arguments are read from. -/
def positionalOf (object : List (CommandString × Json)) : List Json :=
  (jsonMember object "positional").array?.getD []

/-- **Nothing is lost**: the path has the strings of `path`, there is one named argument
for each member, with its key and value, and the positional arguments are the items. -/
structure Lossless (object : List (CommandString × Json)) (items : List Json)
    (invocation : CommandInvocation) : Prop where
  path : List.Forall₂ (fun item token => item = .string token) items invocation.path
  named : ∃ entries, entries.Perm invocation.named.entries ∧
    List.Forall₂ (fun member entry => member.1 = entry.1 ∧ Carries member.2 entry.2)
      (argumentsOf object) entries
  positional : List.Forall₂ Carries (positionalOf object) invocation.positional

/-- The bytes contain no NUL. -/
def NoNul (bytes : CommandString) : Prop := 0 ∉ bytes

instance (bytes : CommandString) : Decidable (NoNul bytes) :=
  inferInstanceAs (Decidable (0 ∉ bytes))

/-- If it is a string, it contains no NUL. -/
def TextNoNul (input : Json) : Prop := ∀ bytes, input = .string bytes → NoNul bytes

/-- No text of the path or the arguments contains a NUL. -/
structure NulFree (object : List (CommandString × Json)) (items : List Json) : Prop where
  path : ∀ item ∈ items, TextNoNul item
  named : ∀ member ∈ argumentsOf object, NoNul member.1 ∧ TextNoNul member.2
  positional : ∀ item ∈ positionalOf object, TextNoNul item

/-! ### Texts -/

/-- A C string is the whole text exactly where there is no NUL. -/
theorem cString_eq_self_iff (bytes : CommandString) : cString bytes = bytes ↔ NoNul bytes := by
  rw [cString, List.takeWhile_eq_self_iff, NoNul]
  constructor
  · intro h hmem
    simpa using h 0 hmem
  · intro h c hc
    simp only [bne_iff_ne]
    rintro rfl
    exact h hc

theorem noNul_cString (bytes : CommandString) : NoNul (cString bytes) := by
  intro hmem
  simpa using List.mem_takeWhile_imp hmem

/-- A string is carried over exactly when it contains no NUL. -/
theorem eq_string_iff {item : Json} {token : CommandString} (h : item.cString? = some token) :
    item = .string token ↔ TextNoNul item := by
  cases item with
  | string bytes =>
      obtain rfl := Option.some.inj h
      rw [Json.string.injEq, TextNoNul, eq_comm, cString_eq_self_iff]
      simp
  | _ => cases h

/-- What is read of a scalar carries it exactly when it contains no NUL. -/
theorem carries_iff {input : Json} {value : CommandValue} (h : readScalar input = some value) :
    Carries input value ↔ TextNoNul input := by
  rw [readScalar_eq] at h
  cases input with
  | null => cases h
  | array items => cases h
  | object members => cases h
  | boolean b =>
      obtain rfl := Option.some.inj h
      exact iff_of_true (.boolean b) (by intro bytes hbytes; cases hbytes)
  | floating d =>
      obtain rfl := Option.some.inj h
      exact iff_of_true (.floating d) (by intro bytes hbytes; cases hbytes)
  | integer n =>
      refine iff_of_true ?_ (by intro bytes hbytes; cases hbytes)
      have hge := n.ge
      have hlt := n.lt
      simp only at h
      split_ifs at h with hrange
      · obtain rfl := Option.some.inj h
        exact .signed hrange (Int64.toInt_ofInt_of_le hge hrange)
      · obtain rfl := Option.some.inj h
        refine .unsigned (by omega) ?_
        rw [UInt64.toNat_ofNat_of_lt' (show n.value.toNat < 2 ^ 64 by omega)]
        omega
  | string bytes =>
      obtain rfl := Option.some.inj h
      have hsame : Carries (.string bytes) (.string (cString bytes)) ↔ cString bytes = bytes := by
        constructor
        · intro hcarries
          generalize htext : cString bytes = token at hcarries
          cases hcarries
          rfl
        · intro heq
          rw [heq]
          exact .string bytes
      rw [hsame, cString_eq_self_iff, TextNoNul]
      simp

/-- Two relations that agree up to a condition on the left differ by that condition. -/
theorem forall₂_iff_forall {α β : Type*} {R S : α → β → Prop} {P : α → Prop} {xs : List α}
    {ys : List β} (hiff : ∀ x y, R x y → (S x y ↔ P x)) (h : List.Forall₂ R xs ys) :
    List.Forall₂ S xs ys ↔ ∀ x ∈ xs, P x := by
  induction h with
  | nil => simp
  | cons hxy _ ih => rw [List.forall₂_cons, List.forall_mem_cons, hiff _ _ hxy, ih]

/-- Every element of the left list has its partner. -/
theorem exists_of_forall₂ {α β : Type*} {R : α → β → Prop} {xs : List α} {ys : List β}
    (h : List.Forall₂ R xs ys) {x : α} (hx : x ∈ xs) : ∃ y ∈ ys, R x y := by
  induction h with
  | nil => cases hx
  | @cons _ y _ _ hxy _ ih =>
      rcases List.mem_cons.mp hx with rfl | hrest
      · exact ⟨y, List.mem_cons_self, hxy⟩
      · obtain ⟨y', hy', hxy'⟩ := ih hrest
        exact ⟨y', List.mem_cons_of_mem _ hy', hxy'⟩

/-! ### The three parts -/

variable {object : List (CommandString × Json)} {items : List Json}

theorem parsePath_lossless_iff {path : CommandPath}
    (hpath : jsonMember object "path" = .array items) (h : parsePath object = .ok path) :
    List.Forall₂ (fun item token => item = .string token) items path ↔
      ∀ item ∈ items, TextNoNul item := by
  rw [parsePath, hpath] at h
  cases hcommand : (jsonMember object "command").cString? with
  | some line =>
      rw [hcommand] at h
      cases h
  | none =>
      rw [hcommand] at h
      exact forall₂_iff_forall (fun _ _ => eq_string_iff) ((readPath_eq_ok_iff _ _).mp h)

theorem parsePositional_lossless_iff {values : List CommandValue}
    (h : parsePositional object = .ok values) :
    List.Forall₂ Carries (positionalOf object) values ↔
      ∀ item ∈ positionalOf object, TextNoNul item := by
  have hread : List.Forall₂ (fun item value => readScalar item = some value)
      (positionalOf object) values := by
    rw [parsePositional] at h
    rw [positionalOf]
    cases hinput : jsonMember object "positional" with
    | array items =>
        rw [hinput] at h
        exact (readPositional_eq_ok_iff _ _).mp h
    | null =>
        rw [hinput] at h
        obtain rfl := Except.ok.inj h
        exact .nil
    | _ =>
        rw [hinput] at h
        cases h
  exact forall₂_iff_forall (fun _ _ => carries_iff) hread

/-- The named arguments are read from the members, and inserted one after the other. -/
theorem exists_entries_of_parseNamed {named : CommandNamedValues}
    (h : parseNamed object = .ok named) :
    ∃ entries, List.Forall₂ (fun member entry =>
        cString member.1 = entry.1 ∧ readScalar member.2 = some entry.2)
        (argumentsOf object) entries ∧ named = OrderedMap.empty.emplaceAll entries := by
  rw [parseNamed] at h
  rw [argumentsOf]
  cases hparameters : (jsonMember object "parameters").object? with
  | some parameters =>
      cases hnamed : (jsonMember object "named").object? with
      | some members =>
          rw [hparameters, hnamed] at h
          cases h
      | none =>
          rw [hparameters, hnamed] at h
          exact (readNamed_eq_ok_iff _ _ _).mp h
  | none =>
      cases hnamed : (jsonMember object "named").object? with
      | some members =>
          rw [hparameters, hnamed] at h
          exact (readNamed_eq_ok_iff _ _ _).mp h
      | none =>
          rw [hparameters, hnamed] at h
          obtain rfl := Except.ok.inj h
          exact ⟨[], .nil, rfl⟩

/-- What is read of a scalar contains no NUL. -/
theorem noNul_of_readScalar {input : Json} {bytes : CommandString}
    (h : readScalar input = some (.string bytes)) : NoNul bytes := by
  rw [readScalar_eq] at h
  cases input with
  | string value =>
      obtain rfl := CommandValue.string.inj (Option.some.inj h)
      exact noNul_cString value
  | integer n =>
      simp only at h
      split_ifs at h <;> cases h
  | _ => cases h

theorem parseNamed_lossless_iff {named : CommandNamedValues}
    (hdistinct : ((argumentsOf object).map Prod.fst).Nodup) (h : parseNamed object = .ok named) :
    (∃ entries, entries.Perm named.entries ∧
        List.Forall₂ (fun member entry => member.1 = entry.1 ∧ Carries member.2 entry.2)
          (argumentsOf object) entries) ↔
      ∀ member ∈ argumentsOf object, NoNul member.1 ∧ TextNoNul member.2 := by
  obtain ⟨entries, hread, rfl⟩ := exists_entries_of_parseNamed h
  have hkept : List.Forall₂ (fun member entry => member.1 = entry.1 ∧ Carries member.2 entry.2)
        (argumentsOf object) entries ↔
      ∀ member ∈ argumentsOf object, NoNul member.1 ∧ TextNoNul member.2 := by
    refine forall₂_iff_forall ?_ hread
    intro member entry hentry
    obtain ⟨hkey, hvalue⟩ := hentry
    rw [← hkey, carries_iff hvalue, eq_comm, cString_eq_self_iff]
  constructor
  · rintro ⟨carried, hperm, hcarried⟩ member hmember
    -- the entries of the map are among those read, and these are C strings
    obtain ⟨entry, hentry, hkey, hvalue⟩ := exists_of_forall₂ hcarried hmember
    have hmem : entry ∈ entries := List.mem_of_find?_eq_some
      ((OrderedMap.mem_emplaceAll_empty _ _).mp (hperm.subset hentry))
    obtain ⟨source, -, hsourceKey, hsourceValue⟩ :=
      exists_of_forall₂ hread.flip hmem
    constructor
    · rw [hkey, ← hsourceKey]
      exact noNul_cString _
    · intro bytes hbytes
      rw [hbytes] at hvalue
      generalize htext : entry.2 = value at hvalue
      cases hvalue
      rw [htext] at hsourceValue
      exact noNul_of_readScalar hsourceValue
  · intro hfree
    refine ⟨entries, ?_, hkept.mpr hfree⟩
    have hkeys : entries.map Prod.fst = (argumentsOf object).map Prod.fst := by
      have hsame := List.forall₂_map_right_iff.mpr <| List.forall₂_map_left_iff.mpr <|
        (hkept.mpr hfree).imp fun member entry hentry => (hentry.1 : Prod.fst member = entry.1)
      exact (List.forall₂_eq_eq_eq ▸ hsame : (_ : List CommandString) = _).symm
    exact (OrderedMap.entries_emplaceAll_perm (by rw [hkeys]; exact hdistinct)).symm

/-! ### The whole request -/

/-- The JSON scalar that a value was read from, if nothing was lost. -/
def jsonOf : CommandValue → Json
  | .null => .null
  | .string bytes => .string bytes
  | .boolean value => .boolean value
  | .signedInteger value =>
      .integer ⟨value.toInt, value.le_toInt, by have := value.toInt_lt; omega⟩
  | .unsignedInteger value =>
      .integer ⟨value.toNat, by omega, by have := value.toNat_lt; omega⟩
  | .floatingPoint value => .floating value

theorem Carries.eq_jsonOf {input : Json} {value : CommandValue} (h : Carries input value) :
    input = jsonOf value := by
  cases h with
  | @signed n value _ hvalue =>
      obtain ⟨number, hge, hlt⟩ := n
      obtain rfl : value.toInt = number := hvalue
      rfl
  | @unsigned n value _ hvalue =>
      obtain ⟨number, hge, hlt⟩ := n
      obtain rfl : (value.toNat : ℤ) = number := hvalue
      rfl
  | _ => rfl

/-- A list is the image of its partner list, where the relation is a function. -/
theorem eq_map_of_forall₂ {α β : Type*} {R : α → β → Prop} {f : β → α}
    (hf : ∀ x y, R x y → x = f y) {xs : List α} {ys : List β} (h : List.Forall₂ R xs ys) :
    xs = ys.map f := by
  induction h with
  | nil => rfl
  | cons hxy _ ih => rw [List.map_cons, ← hf _ _ hxy, ← ih]

/-- Where nothing is lost, the invocation tells the request, up to the order of its named
arguments. -/
theorem Lossless.request_eq {invocation : CommandInvocation}
    (h : Lossless object items invocation) :
    items = invocation.path.map Json.string ∧
      (argumentsOf object).Perm
        (invocation.named.entries.map fun entry => (entry.1, jsonOf entry.2)) ∧
      positionalOf object = invocation.positional.map jsonOf := by
  obtain ⟨entries, hperm, hentries⟩ := h.named
  refine ⟨eq_map_of_forall₂ (fun _ _ heq => heq) h.path, ?_,
    eq_map_of_forall₂ (fun _ _ hcarries => hcarries.eq_jsonOf) h.positional⟩
  have hmembers : argumentsOf object = entries.map fun entry => (entry.1, jsonOf entry.2) := by
    refine eq_map_of_forall₂ ?_ hentries
    intro member entry hentry
    exact Prod.ext hentry.1 hentry.2.eq_jsonOf
  rw [hmembers]
  exact hperm.map _

variable {deserializeJson : CommandString → Except CommandString Json} {json : CommandString}
  {invocation : CommandInvocation}

/-- An accepted request with a path loses nothing exactly when its texts have no NUL. -/
theorem lossless_iff_nulFree (hdocument : deserializeJson json = .ok (.object object))
    (hpath : jsonMember object "path" = .array items)
    (hdistinct : ((argumentsOf object).map Prod.fst).Nodup)
    (hparse : parse deserializeJson json = .ok invocation) :
    Lossless object items invocation ↔ NulFree object items := by
  have haccepted : parseObject object json = .ok invocation := by
    rw [parse, hdocument] at hparse
    exact hparse
  obtain ⟨-, htokens, hentries, hvalues, -⟩ := (parseObject_eq_ok_iff _ _ _).mp haccepted
  constructor
  · intro h
    exact ⟨(parsePath_lossless_iff hpath htokens).mp h.path,
      (parseNamed_lossless_iff hdistinct hentries).mp h.named,
      (parsePositional_lossless_iff hvalues).mp h.positional⟩
  · intro h
    exact ⟨(parsePath_lossless_iff hpath htokens).mpr h.path,
      (parseNamed_lossless_iff hdistinct hentries).mpr h.named,
      (parsePositional_lossless_iff hvalues).mpr h.positional⟩

/-- **What is lost.**  An accepted request with a path, and with different keys, is carried
over without loss exactly when none of its texts has a NUL; and two such requests without
a NUL that parse to the same path and arguments have the same path and arguments. -/
theorem parse_lossless_iff (hdocument : deserializeJson json = .ok (.object object))
    (hpath : jsonMember object "path" = .array items)
    (hdistinct : ((argumentsOf object).map Prod.fst).Nodup)
    (hparse : parse deserializeJson json = .ok invocation) :
    (Lossless object items invocation ↔ NulFree object items) ∧
      ∀ json' object' items' invocation', deserializeJson json' = .ok (.object object') →
        jsonMember object' "path" = .array items' →
        ((argumentsOf object').map Prod.fst).Nodup →
        parse deserializeJson json' = .ok invocation' →
        NulFree object items → NulFree object' items' →
        invocation.path = invocation'.path → invocation.named = invocation'.named →
        invocation.positional = invocation'.positional →
        items = items' ∧ (argumentsOf object).Perm (argumentsOf object') ∧
          positionalOf object = positionalOf object' := by
  have hiff := lossless_iff_nulFree hdocument hpath hdistinct hparse
  refine ⟨hiff, ?_⟩
  intro json' object' items' invocation' hdocument' hpath' hdistinct' hparse' hfree hfree'
    hsamePath hsameNamed hsamePositional
  have hiff' := lossless_iff_nulFree hdocument' hpath' hdistinct' hparse'
  obtain ⟨hitems, harguments, hpositional⟩ := (hiff.mpr hfree).request_eq
  obtain ⟨hitems', harguments', hpositional'⟩ := (hiff'.mpr hfree').request_eq
  rw [hsamePath] at hitems
  rw [hsameNamed] at harguments
  rw [hsamePositional] at hpositional
  exact ⟨hitems.trans hitems'.symm, harguments.trans harguments'.symm,
    hpositional.trans hpositional'.symm⟩

/-- `{"path": ["label"], "positional": [bytes]}`. -/
def labelRequest (bytes : CommandString) : List (CommandString × Json) :=
  [(text "path", .array [.string (text "label")]),
    (text "positional", .array [.string bytes])]

/-- The text `a\u0000b` arrives as `a`. -/
theorem not_lossless_label :
    ¬ ∀ (deserializeJson : CommandString → Except CommandString Json) (json : CommandString)
        (object : List (CommandString × Json)) (items : List Json)
        (invocation : CommandInvocation), deserializeJson json = .ok (.object object) →
        jsonMember object "path" = .array items →
        ((argumentsOf object).map Prod.fst).Nodup →
        parse deserializeJson json = .ok invocation → Lossless object items invocation := by
  intro h
  have hlossless := h (fun _ => .ok (.object (labelRequest [97, 0, 98])))
    (text "\x7b\"path\":[\"label\"],\"positional\":[\"a\\u0000b\"]\x7d") _
    [.string (text "label")] _ rfl rfl List.nodup_nil rfl
  have hitems : [Json.string [97, 0, 98]] = [Json.string [97]] := hlossless.request_eq.2.2
  exact absurd (Json.string.inj (List.cons.inj hitems).1) (by decide)

/-- `{"path": ["label"], "positional": ["a"]}`. -/
theorem parse_lossless_iff_label :
    Lossless (labelRequest (text "a")) [.string (text "label")]
      ⟨[text "label"], [.string (text "a")], OrderedMap.empty,
        text "\x7b\"path\":[\"label\"],\"positional\":[\"a\"]\x7d"⟩ := by
  have htext {item : Json} {bytes : CommandString} (hbytes : NoNul bytes)
      (hitem : item ∈ [Json.string bytes]) : TextNoNul item := by
    obtain rfl := List.mem_singleton.mp hitem
    intro bytes' h
    cases h
    exact hbytes
  refine (@parse_lossless_iff _ _ (fun _ => .ok (.object (labelRequest (text "a"))))
    (text "\x7b\"path\":[\"label\"],\"positional\":[\"a\"]\x7d") _ rfl rfl List.nodup_nil
    rfl).1.mpr ⟨?_, ?_, ?_⟩
  · intro item hitem
    exact htext (by decide) hitem
  · intro member hmember
    cases hmember
  · intro item hitem
    exact htext (by decide) hitem

end JsonCommandInterpreter
end EspressioCommand
