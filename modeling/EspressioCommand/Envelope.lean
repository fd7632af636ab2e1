import EspressioCommand.Text.Bytes

/-!
# Request and response envelopes

The bounded records that carry a command between devices.  Their arrays have the
capacities of the three `ESPRESSIO_COMMAND_MAX_…` macros, which a build may
override; `EnvelopeLimits` holds them.  The identifiers and lengths keep the widths
the source gives them.
-/

namespace EspressioCommand

/-- The capacities a build compiles in. -/
structure EnvelopeLimits where
  rawLength : ℕ := 256
  originAddressLength : ℕ := 32
  resultMessageLength : ℕ := 192
  rawLength_pos : 0 < rawLength := by decide
  originAddressLength_pos : 0 < originAddressLength := by decide
  resultMessageLength_pos : 0 < resultMessageLength := by decide

/-- `CommandRequestId`. -/
abbrev CommandRequestId := UInt64

/-- `CommandTransportRouteId`. -/
abbrev CommandTransportRouteId := UInt32

/-- `CommandResponseExpectation`. -/
inductive CommandResponseExpectation
  | none
  | acceptance
  | completion
deriving DecidableEq, Repr

/-- `CommandResponseMode`. -/
inductive CommandResponseMode
  | single
  | multiple
deriving DecidableEq, Repr

/-- `CommandOriginAddress`. -/
structure CommandOriginAddress (limits : EnvelopeLimits) where
  bytes : Vector UInt8 limits.originAddressLength := .replicate _ 0
  length : UInt8 := 0
deriving DecidableEq

/-- `CommandOrigin`. -/
structure CommandOrigin (limits : EnvelopeLimits) where
  transportRoute : CommandTransportRouteId := 0
  address : CommandOriginAddress limits := {}
deriving DecidableEq

/-- `CommandOrigin::IsLocal`. -/
def CommandOrigin.isLocal {limits : EnvelopeLimits} (origin : CommandOrigin limits) : Bool :=
  origin.transportRoute == 0

/-- `CommandRequestEnvelope`. -/
structure CommandRequestEnvelope (limits : EnvelopeLimits) where
  requestId : CommandRequestId := 0
  origin : CommandOrigin limits := {}
  responseExpectation : CommandResponseExpectation := .completion
  responseMode : CommandResponseMode := .single
  responseTimeoutMilliseconds : UInt32 := 0
  rawLength : UInt16 := 0
  raw : Vector UInt8 limits.rawLength := .replicate _ 0
deriving DecidableEq

/-- `CommandResponseEnvelope`; the code is an `int32_t`. -/
structure CommandResponseEnvelope (limits : EnvelopeLimits) where
  requestId : CommandRequestId := 0
  success : Bool := false
  code : Int32 := 0
  messageLength : UInt16 := 0
  message : Vector UInt8 limits.resultMessageLength := .replicate _ 0
deriving DecidableEq

variable {limits : EnvelopeLimits}

/-- `memcpy` of the first `length` bytes of `data` to the front of an array, and a
zero byte behind them. -/
def storeTerminated {capacity : ℕ} (array : Vector UInt8 capacity) (data : CommandString)
    (length : ℕ) : Vector UInt8 capacity :=
  Vector.ofFn fun i =>
    if i.val < length then data.getD i.val 0
    else if i.val = length then 0
    else array[i.val]

/-- `memcpy` of all of `data` to the front of an array with room for it. -/
def store {capacity : ℕ} (array : Vector UInt8 capacity) (data : List UInt8) :
    Vector UInt8 capacity :=
  Vector.ofFn fun i => data.getD i.val array[i.val]

/-- `CommandOriginAddress::Assign`, where `none` is a null pointer: the address, and
whether it was assigned or cleared. -/
def CommandOriginAddress.assign (address : CommandOriginAddress limits)
    (data : Option (List UInt8)) : CommandOriginAddress limits × Bool :=
  match data with
  | none => ({ address with length := 0 }, true)
  | some data =>
      if data.length = 0 then ({ address with length := 0 }, true)
      else if data.length > limits.originAddressLength then (address, false)
      else
        -- the cast keeps the low eight bits of the length
        ({ bytes := store address.bytes data, length := UInt8.ofNat data.length }, true)

/-- `CommandRequestEnvelope::SetRaw`, where `none` is a null pointer. -/
def CommandRequestEnvelope.setRaw (request : CommandRequestEnvelope limits)
    (data : Option CommandString) : CommandRequestEnvelope limits × Bool :=
  match data with
  | none => (request, false)
  | some data =>
      if data.length = 0 ∨ data.length ≥ limits.rawLength then (request, false)
      else
        ({ request with
            raw := storeTerminated request.raw data data.length
            rawLength := UInt16.ofNat data.length },
          true)

/-- `CommandRequestEnvelope::RawView`. -/
def CommandRequestEnvelope.rawView (request : CommandRequestEnvelope limits) : CommandString :=
  request.raw.toList.take request.rawLength.toNat

/-- `CommandRequestEnvelope::RawString`. -/
def CommandRequestEnvelope.rawString (request : CommandRequestEnvelope limits) : CommandString :=
  request.raw.toList.take request.rawLength.toNat

/-- `CommandResponseEnvelope::SetMessage`: the response, and whether the whole
message fitted. -/
def CommandResponseEnvelope.setMessage (response : CommandResponseEnvelope limits)
    (value : CommandString) : CommandResponseEnvelope limits × Bool :=
  let length :=
    if value.length < limits.resultMessageLength - 1 then value.length
    else limits.resultMessageLength - 1
  ({ response with
      message := storeTerminated response.message value length
      messageLength := UInt16.ofNat length },
    length == value.length)

/-- `CommandResponseEnvelope::MessageView`. -/
def CommandResponseEnvelope.messageView (response : CommandResponseEnvelope limits) :
    CommandString :=
  response.message.toList.take response.messageLength.toNat

end EspressioCommand
