import EspressioCommand.Envelope
import Mathlib.Tactic

/-!
# Bounded fields without loss

The capacities of the three arrays are chosen by the build, the lengths beside them have 8
and 16 bits, and the casts between the two keep the low bits only.  The tests for room look
at the capacity alone, so that in a large array a text can be stored whole under a length
that says otherwise.  `envelopes_lossless_iff` gives the inputs and the capacities for
which what is read back is what was stored.
-/

namespace EspressioCommand

variable {limits : EnvelopeLimits}

/-! ### The arrays -/

theorem getElem_store {capacity : ℕ} (array : Vector UInt8 capacity) (data : List UInt8) {i : ℕ}
    (h : i < capacity) : (store array data)[i] = data.getD i array[i] :=
  Vector.getElem_ofFn h

theorem getElem_storeTerminated {capacity : ℕ} (array : Vector UInt8 capacity)
    (data : CommandString) (length : ℕ) {i : ℕ} (h : i < capacity) :
    (storeTerminated array data length)[i] =
      if i < length then data.getD i 0 else if i = length then 0 else array[i] :=
  Vector.getElem_ofFn h

theorem toList_store {capacity : ℕ} (array : Vector UInt8 capacity) {data : List UInt8}
    (h : data.length ≤ capacity) :
    (store array data).toList = data ++ array.toList.drop data.length := by
  apply List.ext_getElem
  · rw [List.length_append, List.length_drop, Vector.length_toList, Vector.length_toList]
    omega
  · intro i hi hi'
    rw [Vector.length_toList] at hi
    rw [Vector.getElem_toList, getElem_store]
    by_cases hdata : i < data.length
    · rw [List.getElem_append_left hdata]
      simp [hdata]
    · have hback : data.length + (i - data.length) = i := by omega
      rw [List.getElem_append_right (by omega), List.getElem_drop, Vector.getElem_toList]
      simp [List.getD_eq_getElem?_getD, List.getElem?_eq_none (show data.length ≤ i by omega),
        hback]

theorem toList_storeTerminated {capacity : ℕ} (array : Vector UInt8 capacity)
    {data : CommandString} {length : ℕ} (hdata : length ≤ data.length) (h : length < capacity) :
    (storeTerminated array data length).toList =
      data.take length ++ 0 :: array.toList.drop (length + 1) := by
  apply List.ext_getElem
  · rw [List.length_append, List.length_cons, List.length_drop, List.length_take,
      Vector.length_toList, Vector.length_toList]
    omega
  · intro i hi hi'
    rw [Vector.length_toList] at hi
    have hfront : (data.take length).length = length := by
      rw [List.length_take]
      omega
    rw [Vector.getElem_toList, getElem_storeTerminated]
    by_cases hless : i < length
    · rw [if_pos hless, List.getElem_append_left (by omega), List.getElem_take]
      simp [show i < data.length by omega]
    · rw [if_neg hless, List.getElem_append_right (by omega)]
      by_cases hend : i = length
      · subst hend
        simp [hfront]
      · have hback : length + 1 + (i - length - 1) = i := by omega
        rw [if_neg hend, List.getElem_cons, dif_neg (by omega), List.getElem_drop,
          Vector.getElem_toList]
        simp [hfront, hback]

/-- The front that a narrowed length leaves of a text. -/
theorem take_mod_eq_iff {m : ℕ} (hm : 0 < m) (data rest : List UInt8) :
    (data ++ rest).take (data.length % m) = data ↔ data.length < m := by
  have hless := Nat.mod_lt data.length hm
  constructor
  · intro h
    have hlength := congrArg List.length h
    rw [List.length_take, List.length_append] at hlength
    omega
  · intro h
    rw [Nat.mod_eq_of_lt h]
    exact List.take_left

theorem take_store_iff {capacity : ℕ} (array : Vector UInt8 capacity) {data : List UInt8}
    (h : data.length ≤ capacity) :
    (store array data).toList.take (UInt8.ofNat data.length).toNat = data ↔
      data.length < 2 ^ 8 := by
  rw [toList_store array h, UInt8.toNat_ofNat']
  exact take_mod_eq_iff (Nat.two_pow_pos 8) data _

theorem take_storeTerminated_iff {capacity : ℕ} (array : Vector UInt8 capacity)
    {data : CommandString} {length : ℕ} (hdata : length ≤ data.length) (h : length < capacity) :
    (storeTerminated array data length).toList.take (UInt16.ofNat length).toNat =
      data.take length ↔ length < 2 ^ 16 := by
  have hlength : (data.take length).length = length := by
    rw [List.length_take]
    omega
  have hfront := take_mod_eq_iff (Nat.two_pow_pos 16) (data.take length)
    (0 :: array.toList.drop (length + 1))
  rw [hlength] at hfront
  rw [toList_storeTerminated array hdata h, UInt16.toNat_ofNat']
  exact hfront

theorem getElem?_storeTerminated {capacity : ℕ} (array : Vector UInt8 capacity)
    (data : CommandString) {length : ℕ} (h : length < capacity) :
    (storeTerminated array data length)[length]? = some 0 := by
  rw [Vector.getElem?_eq_getElem h, getElem_storeTerminated, if_neg (lt_irrefl _), if_pos rfl]

/-! ### Origin addresses -/

namespace CommandOriginAddress

/-- `Assign` keeps the data whole, or refuses and changes nothing. -/
structure AssignLossless (address : CommandOriginAddress limits)
    (data : Option (List UInt8)) : Prop where
  accepted : ∀ bytes, data = some bytes → bytes ≠ [] → (address.assign data).2 = true →
    (address.assign data).1.bytes.toList.take (address.assign data).1.length.toNat = bytes
  refused : (address.assign data).2 = false → (address.assign data).1 = address

/-- Without data the address is cleared, and nothing is promised. -/
theorem assignLossless_of_empty (address : CommandOriginAddress limits)
    {data : Option (List UInt8)} (h : ∀ bytes, data = some bytes → bytes = []) :
    address.AssignLossless data := by
  have hassign : address.assign data = ({ address with length := 0 }, true) := by
    cases data with
    | none => rfl
    | some bytes =>
        obtain rfl := h bytes rfl
        rfl
  refine ⟨?_, ?_⟩
  · intro bytes hbytes hne
    exact absurd (h bytes hbytes) hne
  · intro hrefused
    rw [hassign] at hrefused
    cases hrefused

/-- Data without room is refused. -/
theorem assignLossless_of_large (address : CommandOriginAddress limits) {bytes : List UInt8}
    (h : limits.originAddressLength < bytes.length) : address.AssignLossless (some bytes) := by
  have hassign : address.assign (some bytes) = (address, false) := by
    rw [assign, if_neg (by omega), if_pos h]
  refine ⟨?_, ?_⟩
  · intro stored _ _ haccepted
    rw [hassign] at haccepted
    cases haccepted
  · intro _
    rw [hassign]

/-- Data with room is stored, under a length of eight bits. -/
theorem assignLossless_iff_of_fits (address : CommandOriginAddress limits) {bytes : List UInt8}
    (hne : bytes ≠ []) (h : bytes.length ≤ limits.originAddressLength) :
    address.AssignLossless (some bytes) ↔ bytes.length < 2 ^ 8 := by
  have hassign : address.assign (some bytes) =
      ({ bytes := store address.bytes bytes, length := UInt8.ofNat bytes.length }, true) := by
    rw [assign, if_neg (by simpa using hne), if_neg (not_lt.mpr h)]
  rw [← take_store_iff address.bytes h]
  constructor
  · intro hlossless
    have haccepted := hlossless.accepted bytes rfl hne
    rw [hassign] at haccepted
    exact haccepted rfl
  · intro hview
    refine ⟨?_, ?_⟩
    · intro stored hstored _ _
      obtain rfl := Option.some.inj hstored
      rw [hassign]
      exact hview
    · intro hrefused
      rw [hassign] at hrefused
      cases hrefused

theorem assignLossless_iff (address : CommandOriginAddress limits) (data : Option (List UInt8)) :
    address.AssignLossless data ↔
      ∀ bytes, data = some bytes →
        bytes.length < 2 ^ 8 ∨ limits.originAddressLength < bytes.length := by
  by_cases hempty : ∀ bytes, data = some bytes → bytes = []
  · refine iff_of_true (address.assignLossless_of_empty hempty) ?_
    intro bytes hbytes
    rw [hempty bytes hbytes]
    exact Or.inl (by decide)
  · push Not at hempty
    obtain ⟨bytes, rfl, hne⟩ := hempty
    simp only [Option.some.injEq, forall_eq']
    obtain hlarge | hfits := Nat.lt_or_ge limits.originAddressLength bytes.length
    · exact iff_of_true (address.assignLossless_of_large hlarge) (Or.inr hlarge)
    · rw [address.assignLossless_iff_of_fits hne hfits, or_iff_left (not_lt.mpr hfits)]

end CommandOriginAddress

/-! ### Command texts -/

namespace CommandRequestEnvelope

/-- `SetRaw` keeps the text whole with a NUL behind it, or refuses and changes nothing. -/
structure SetRawLossless (request : CommandRequestEnvelope limits)
    (data : Option CommandString) : Prop where
  accepted : ∀ bytes, data = some bytes → (request.setRaw data).2 = true →
    (request.setRaw data).1.rawView = bytes ∧
      (request.setRaw data).1.raw[(request.setRaw data).1.rawView.length]? = some 0
  refused : (request.setRaw data).2 = false → (request.setRaw data).1 = request

theorem setRawLossless_of_refused {request : CommandRequestEnvelope limits}
    {data : Option CommandString} (h : request.setRaw data = (request, false)) :
    request.SetRawLossless data := by
  refine ⟨?_, ?_⟩
  · intro bytes _ haccepted
    rw [h] at haccepted
    cases haccepted
  · intro _
    rw [h]

/-- A text with room is stored, under a length of sixteen bits. -/
theorem setRawLossless_iff_of_fits (request : CommandRequestEnvelope limits)
    {bytes : CommandString} (hne : bytes ≠ []) (h : bytes.length < limits.rawLength) :
    request.SetRawLossless (some bytes) ↔ bytes.length < 2 ^ 16 := by
  have hsetRaw : request.setRaw (some bytes) =
      ({ request with
          raw := storeTerminated request.raw bytes bytes.length
          rawLength := UInt16.ofNat bytes.length }, true) := by
    rw [setRaw, if_neg]
    rintro (hempty | hlarge)
    · exact hne (List.length_eq_zero_iff.mp hempty)
    · omega
  have hview := take_storeTerminated_iff request.raw (le_refl bytes.length) h
  rw [List.take_length] at hview
  rw [← hview]
  constructor
  · intro hlossless
    have haccepted := hlossless.accepted bytes rfl
    rw [hsetRaw] at haccepted
    exact (haccepted rfl).1
  · intro hwhole
    refine ⟨?_, ?_⟩
    · intro stored hstored _
      obtain rfl := Option.some.inj hstored
      have hraw : (request.setRaw (some bytes)).1.rawView = bytes := by
        rw [hsetRaw]
        exact hwhole
      rw [hraw, hsetRaw]
      exact ⟨rfl, getElem?_storeTerminated request.raw bytes h⟩
    · intro hrefused
      rw [hsetRaw] at hrefused
      cases hrefused

theorem setRawLossless_iff (request : CommandRequestEnvelope limits)
    (data : Option CommandString) :
    request.SetRawLossless data ↔
      ∀ bytes, data = some bytes →
        bytes.length < 2 ^ 16 ∨ limits.rawLength ≤ bytes.length := by
  cases data with
  | none => exact iff_of_true (setRawLossless_of_refused rfl) fun bytes hbytes => by cases hbytes
  | some bytes =>
      simp only [Option.some.injEq, forall_eq']
      by_cases hne : bytes = []
      · subst hne
        exact iff_of_true (setRawLossless_of_refused rfl) (Or.inl (by decide))
      · obtain hfits | hlarge := Nat.lt_or_ge bytes.length limits.rawLength
        · rw [request.setRawLossless_iff_of_fits hne hfits, or_iff_left (not_le.mpr hfits)]
        · refine iff_of_true (setRawLossless_of_refused ?_) (Or.inr hlarge)
          rw [setRaw, if_pos (Or.inr hlarge)]

end CommandRequestEnvelope

/-! ### Messages -/

namespace CommandResponseEnvelope

/-- `SetMessage` keeps the longest beginning that fits with a NUL behind it, and says whether
this is all. -/
structure SetMessageLongest (response : CommandResponseEnvelope limits)
    (value : CommandString) : Prop where
  front : (response.setMessage value).1.messageView <+: value
  terminated : (response.setMessage value).1.message[
    (response.setMessage value).1.messageView.length]? = some 0
  longest : ∀ other, other <+: value → other.length < limits.resultMessageLength →
    other.length ≤ (response.setMessage value).1.messageView.length
  whole : (response.setMessage value).2 = true ↔
    (response.setMessage value).1.messageView = value

/-- How much of a message there is room for. -/
theorem setMessage_eq (response : CommandResponseEnvelope limits) (value : CommandString) :
    response.setMessage value =
      ({ response with
          message := storeTerminated response.message value
            (min value.length (limits.resultMessageLength - 1))
          messageLength := UInt16.ofNat (min value.length (limits.resultMessageLength - 1)) },
        min value.length (limits.resultMessageLength - 1) == value.length) := by
  have hlength : (if value.length < limits.resultMessageLength - 1 then value.length
      else limits.resultMessageLength - 1) =
        min value.length (limits.resultMessageLength - 1) := by
    split_ifs <;> omega
  rw [← hlength]
  rfl

theorem setMessageLongest_iff (response : CommandResponseEnvelope limits)
    (value : CommandString) :
    response.SetMessageLongest value ↔
      min value.length (limits.resultMessageLength - 1) < 2 ^ 16 := by
  have hpos := limits.resultMessageLength_pos
  have hfits : min value.length (limits.resultMessageLength - 1) < limits.resultMessageLength := by
    omega
  have hmost : min value.length (limits.resultMessageLength - 1) ≤ value.length := by omega
  have hview := take_storeTerminated_iff response.message hmost hfits
  have hlength : (value.take (min value.length (limits.resultMessageLength - 1))).length =
      min value.length (limits.resultMessageLength - 1) := by
    rw [List.length_take]
    omega
  constructor
  · intro h
    -- the stored beginning is as long as the longest that fits, and so its length was kept
    have hlongest := h.longest _ (List.take_prefix _ value) (hlength ▸ hfits)
    rw [hlength, setMessage_eq, messageView, List.length_take, UInt16.toNat_ofNat'] at hlongest
    have hless := Nat.mod_lt (min value.length (limits.resultMessageLength - 1))
      (Nat.two_pow_pos 16)
    omega
  · intro hshort
    have hmessage : (response.setMessage value).1.messageView =
        value.take (min value.length (limits.resultMessageLength - 1)) := by
      rw [setMessage_eq]
      exact hview.mpr hshort
    refine ⟨?_, ?_, ?_, ?_⟩
    · rw [hmessage]
      exact List.take_prefix _ value
    · rw [hmessage, hlength, setMessage_eq]
      exact getElem?_storeTerminated response.message value hfits
    · intro other hother hroom
      have hle := hother.length_le
      rw [hmessage, hlength]
      omega
    · rw [hmessage, setMessage_eq, beq_iff_eq]
      constructor
      · intro hwhole
        exact List.take_of_length_le hwhole.ge
      · intro hwhole
        rw [← hlength, hwhole]

end CommandResponseEnvelope

/-! ### Which capacities are safe -/

/-- **Bounded fields are lossless or refuse**, exactly where the stored length has the bits
for the length that was accepted; and for all inputs exactly where the capacities have no more
than these lengths. -/
theorem envelopes_lossless_iff (limits : EnvelopeLimits) :
    (∀ (address : CommandOriginAddress limits) (data : Option (List UInt8)),
        address.AssignLossless data ↔ ∀ bytes, data = some bytes →
          bytes.length < 2 ^ 8 ∨ limits.originAddressLength < bytes.length) ∧
      (∀ (request : CommandRequestEnvelope limits) (data : Option CommandString),
        request.SetRawLossless data ↔ ∀ bytes, data = some bytes →
          bytes.length < 2 ^ 16 ∨ limits.rawLength ≤ bytes.length) ∧
      (∀ (response : CommandResponseEnvelope limits) (value : CommandString),
        response.SetMessageLongest value ↔
          min value.length (limits.resultMessageLength - 1) < 2 ^ 16) ∧
      ((∀ (address : CommandOriginAddress limits) (data : Option (List UInt8)),
            address.AssignLossless data) ∧
          (∀ (request : CommandRequestEnvelope limits) (data : Option CommandString),
            request.SetRawLossless data) ∧
          (∀ (response : CommandResponseEnvelope limits) (value : CommandString),
            response.SetMessageLongest value) ↔
        limits.originAddressLength < 2 ^ 8 ∧ limits.rawLength ≤ 2 ^ 16 ∧
          limits.resultMessageLength ≤ 2 ^ 16) := by
  refine ⟨CommandOriginAddress.assignLossless_iff, CommandRequestEnvelope.setRawLossless_iff,
    CommandResponseEnvelope.setMessageLongest_iff, ?_⟩
  simp only [CommandOriginAddress.assignLossless_iff, CommandRequestEnvelope.setRawLossless_iff,
    CommandResponseEnvelope.setMessageLongest_iff]
  constructor
  · intro h
    obtain ⟨haddress, hraw, hmessage⟩ := h
    -- the longest input that is accepted is the one to look at
    have hfull := haddress {} (some (List.replicate limits.originAddressLength 0)) _ rfl
    have hlast := hraw {} (some (List.replicate (limits.rawLength - 1) 0)) _ rfl
    have hlong := hmessage {} (List.replicate limits.resultMessageLength 0)
    have hpos := limits.rawLength_pos
    rw [List.length_replicate] at hfull hlast hlong
    omega
  · intro h
    obtain ⟨haddress, hraw, hmessage⟩ := h
    refine ⟨?_, ?_, ?_⟩
    · intro _ _ bytes _
      omega
    · intro _ _ bytes _
      omega
    · intro _ value
      omega

/-- In a build with room for 256 bytes, an address of that many is accepted and stored as an
empty one. -/
theorem not_assignLossless_wide :
    ¬ (∀ (address : CommandOriginAddress { originAddressLength := 256 })
      (data : Option (List UInt8)), address.AssignLossless data) := by
  intro h
  have hne : List.replicate 256 (7 : UInt8) ≠ [] := by
    apply List.ne_nil_of_length_pos
    rw [List.length_replicate]
    omega
  have hfits : (List.replicate 256 (7 : UInt8)).length ≤ 256 := by
    rw [List.length_replicate]
  have hshort := (CommandOriginAddress.assignLossless_iff_of_fits {} hne hfits).mp (h _ _)
  rw [List.length_replicate] at hshort
  omega

end EspressioCommand
