import EspressioCommand.Envelope.Lossless
import EspressioCommand.Executor.ProcessWork

/-!
# A remote session is a local session

Commands that arrive in envelopes are worked off one after the other.  `runSession` is what
the same lines do when they are typed at the device; `processAll_session` says that the
device is left in the same state, and that each response tells the local result, with as
much of its message as there is room for.

This takes user code that leaves the transports alone, transports that leave the user's
state alone, and capacities whose lengths the envelopes can hold.
-/

namespace EspressioCommand

variable {σ : Type} {limits : EnvelopeLimits}

/-! ### The two sessions -/

/-- The lines one after the other, with what each returned or threw. -/
def runSession (session : CommandString → Eff σ CommandResult) :
    List CommandString → σ → List (Except Thrown CommandResult) × σ
  | [], state => ([], state)
  | line :: rest, state =>
      let ended := (session line).runFrom state
      let after := runSession session rest ended.2
      (ended.1 :: after.1, after.2)

/-- A request and the line that is stored in it, which has room there. -/
structure RemoteCall (limits : EnvelopeLimits) where
  request : CommandRequestEnvelope limits
  line : CommandString
  ne_nil : line ≠ []
  fits : line.length < limits.rawLength

/-- The request as it arrives. -/
def RemoteCall.envelope (call : RemoteCall limits) : CommandRequestEnvelope limits :=
  (call.request.setRaw (some call.line)).1

namespace CommandEventExecutor

/-- The work items one after the other. -/
def processAll (platform : Platform) (registry : CommandRegistry (World σ))
    (send : Delivery limits → World σ → Bool × World σ) :
    List (CommandRequestEnvelope limits) → World σ → List (WorkOutcome limits) × World σ
  | [], world => ([], world)
  | request :: rest, world =>
      let worked := processWork platform (some registry) send request world
      let after := processAll platform registry send rest worked.2
      (worked.1 :: after.1, after.2)

/-- The line runs as it does in the session, whatever the routes are, and leaves them
alone. -/
def RunsLocally (platform : Platform) (registry : CommandRegistry (World σ))
    (session : CommandString → Eff σ CommandResult) (line : CommandString) : Prop :=
  ∀ world, (registry.invokeText platform line).runFrom world =
    (((session line).runFrom world.user).1,
      { world with user := ((session line).runFrom world.user).2 })

/-- The response tells the result, with the beginning of its message. -/
structure Tells (requestId : CommandRequestId) (result : CommandResult)
    (response : CommandResponseEnvelope limits) : Prop where
  requestId : response.requestId = requestId
  success : response.success = result.success
  code : response.code = result.code
  message : response.messageView = result.message.take (limits.resultMessageLength - 1)

/-- What becomes of a call that ended this way: after an exception nothing, and else one
event, with what was sent, if anything, to the origin of the request. -/
inductive Reports (call : RemoteCall limits) :
    Except Thrown CommandResult → WorkOutcome limits → Prop
  | threw (e : Thrown) : Reports call (.error e) {}
  | kept {result : CommandResult} {response : CommandResponseEnvelope limits}
      (htells : Tells call.request.requestId result response) :
      Reports call (.ok result) { queued := [⟨call.envelope, response, false⟩] }
  | sent {result : CommandResult} {delivery : Delivery limits} {accepted : Bool}
      (htells : Tells call.request.requestId result delivery.response)
      (hexpectation : call.request.responseExpectation = .completion)
      (hremote : call.request.origin.isLocal = false)
      (hdestination : delivery.destination = call.request.origin.address) :
      Reports call (.ok result)
        { sent := [(delivery, accepted)]
          queued := [⟨call.envelope, delivery.response, accepted⟩] }

/-- The same for the calls of a session. -/
inductive ReportsAll :
    List (RemoteCall limits) → List (Except Thrown CommandResult) → List (WorkOutcome limits) →
      Prop
  | nil : ReportsAll [] [] []
  | cons {call : RemoteCall limits} {ended : Except Thrown CommandResult}
      {outcome : WorkOutcome limits} {calls : List (RemoteCall limits)}
      {endeds : List (Except Thrown CommandResult)} {outcomes : List (WorkOutcome limits)}
      (hcall : Reports call ended outcome) (hrest : ReportsAll calls endeds outcomes) :
      ReportsAll (call :: calls) (ended :: endeds) (outcome :: outcomes)

/-! ### Envelopes -/

theorem envelope_eq (call : RemoteCall limits) :
    call.envelope = { call.request with
      raw := storeTerminated call.request.raw call.line call.line.length
      rawLength := UInt16.ofNat call.line.length } := by
  have hroom : ¬ (call.line.length = 0 ∨ call.line.length ≥ limits.rawLength) := by
    rintro (hempty | hlarge)
    · exact call.ne_nil (List.length_eq_zero_iff.mp hempty)
    · exact absurd call.fits (not_lt.mpr hlarge)
  rw [RemoteCall.envelope, CommandRequestEnvelope.setRaw, if_neg hroom]

/-- The line arrives as it was stored. -/
theorem rawString_envelope (hcapacity : limits.rawLength ≤ 2 ^ 16) (call : RemoteCall limits) :
    call.envelope.rawString = call.line := by
  have hview := take_storeTerminated_iff call.request.raw (le_refl call.line.length) call.fits
  rw [List.take_length] at hview
  rw [envelope_eq]
  exact hview.mpr (lt_of_lt_of_le call.fits hcapacity)

/-- A response tells the result it was made from. -/
theorem tells_makeResponse (hcapacity : limits.resultMessageLength ≤ 2 ^ 16)
    (request : CommandRequestEnvelope limits) (result : CommandResult) :
    Tells request.requestId result (makeResponse request result) := by
  have hpos := limits.resultMessageLength_pos
  have hmost : min result.message.length (limits.resultMessageLength - 1) ≤
      result.message.length := by omega
  have hfits : min result.message.length (limits.resultMessageLength - 1) <
      limits.resultMessageLength := by omega
  have hshort : min result.message.length (limits.resultMessageLength - 1) < 2 ^ 16 := by omega
  refine ⟨rfl, rfl, rfl, ?_⟩
  rw [makeResponse, CommandResponseEnvelope.setMessage_eq]
  refine ((take_storeTerminated_iff _ hmost hfits).mpr hshort).trans ?_
  -- a text that is shorter than the room is its own beginning
  rw [Nat.min_comm, ← List.take_eq_take_min]

/-! ### The step and the run -/

variable {platform : Platform} {registry : CommandRegistry (World σ)}
  {send : Delivery limits → World σ → Bool × World σ}
  {session : CommandString → Eff σ CommandResult}

/-- What a returned result leads to. -/
theorem respond_reports (hmessage : limits.resultMessageLength ≤ 2 ^ 16)
    (htransport : ∀ delivery world, (send delivery world).2.user = world.user)
    (call : RemoteCall limits) (result : CommandResult) (world : World σ) :
    (respond send call.envelope result world).2.user = world.user ∧
      Reports call (.ok result) (respond send call.envelope result world).1 := by
  have htells := tells_makeResponse hmessage call.envelope result
  have hid : call.envelope.requestId = call.request.requestId := by rw [envelope_eq]
  rw [hid] at htells
  rw [respond]
  cases hrouting :
      (routeResponse world.routes world.alive call.envelope result).1 with
  | none =>
      exact ⟨rfl, .kept htells⟩
  | some delivery =>
      obtain ⟨hexpectation, hremote, hdestination, hresponse, -⟩ := routeResponse_eq_some hrouting
      rw [envelope_eq] at hexpectation hremote hdestination
      refine ⟨htransport _ _, ?_⟩
      rw [← hresponse] at htells ⊢
      exact .sent htells hexpectation hremote hdestination

/-- **Step lemma.**  One work item does to the user's state what the line does locally, and
reports how the line ended. -/
theorem processWork_reports (hraw : limits.rawLength ≤ 2 ^ 16)
    (hmessage : limits.resultMessageLength ≤ 2 ^ 16)
    (htransport : ∀ delivery world, (send delivery world).2.user = world.user)
    {call : RemoteCall limits} (hlocal : RunsLocally platform registry session call.line)
    (world : World σ) :
    (processWork platform (some registry) send call.envelope world).2.user =
        ((session call.line).runFrom world.user).2 ∧
      Reports call ((session call.line).runFrom world.user).1
        (processWork platform (some registry) send call.envelope world).1 := by
  have hrun := hlocal world
  rw [processWork, rawString_envelope hraw]
  simp only [hrun]
  cases ((session call.line).runFrom world.user).1 with
  | error e => exact ⟨rfl, .threw e⟩
  | ok result => exact respond_reports hmessage htransport call result _

/-- **A remote session is a local session.**  The lines that arrive in envelopes leave the
user's state as they do when they are typed, and every response tells the local result. -/
theorem processAll_session (hraw : limits.rawLength ≤ 2 ^ 16)
    (hmessage : limits.resultMessageLength ≤ 2 ^ 16)
    (htransport : ∀ delivery world, (send delivery world).2.user = world.user)
    {calls : List (RemoteCall limits)}
    (hlocal : ∀ call ∈ calls, RunsLocally platform registry session call.line)
    (world : World σ) :
    (processAll platform registry send (calls.map RemoteCall.envelope) world).2.user =
        (runSession session (calls.map RemoteCall.line) world.user).2 ∧
      ReportsAll calls (runSession session (calls.map RemoteCall.line) world.user).1
        (processAll platform registry send (calls.map RemoteCall.envelope) world).1 := by
  induction calls generalizing world with
  | nil => exact ⟨rfl, .nil⟩
  | cons call calls ih =>
      rw [List.forall_mem_cons] at hlocal
      obtain ⟨huser, hcall⟩ := processWork_reports hraw hmessage htransport hlocal.1 world
      obtain ⟨hfinal, hrest⟩ :=
        ih hlocal.2 (processWork platform (some registry) send call.envelope world).2
      rw [huser] at hfinal hrest
      exact ⟨hfinal, .cons hcall hrest⟩

/-- A command that counts its calls. -/
def tickRegistry : CommandRegistry (World ℕ) where
  root := .node { object := 0, name := [] }
    [.node
      { object := 1
        name := text "tick"
        callback := some fun _ => do
          modify fun world => { world with user := world.user + 1 }
          return .ok (text "done") } []]
  created := 2

/-- The same typed at the device. -/
def tick : CommandString → Eff ℕ CommandResult := fun _ => do
  modify fun count => count + 1
  return .ok (text "done")

/-- The capacities of a build with small envelopes. -/
def smallLimits : EnvelopeLimits := ⟨12, 2, 20, by decide, by decide, by decide⟩

/-- A request from the transport with the identifier 1. -/
def tickCall (id : CommandRequestId) : RemoteCall smallLimits where
  request := { requestId := id, origin := { transportRoute := 1 } }
  line := text "tick"
  ne_nil := by decide
  fits := by decide

theorem processAll_session_ticks :
    (processAll .withoutFloatingText tickRegistry (fun _ world => (true, world))
        ([tickCall 7, tickCall 8].map RemoteCall.envelope)
        ⟨0, ⟨[⟨1, 5⟩], 2⟩, fun _ => true⟩).2.user = 2 ∧
      ReportsAll [tickCall 7, tickCall 8] [.ok (.ok (text "done")), .ok (.ok (text "done"))]
        (processAll .withoutFloatingText tickRegistry (fun _ world => (true, world))
          ([tickCall 7, tickCall 8].map RemoteCall.envelope)
          ⟨0, ⟨[⟨1, 5⟩], 2⟩, fun _ => true⟩).1 := by
  have hlocal : ∀ call ∈ [tickCall 7, tickCall 8],
      RunsLocally .withoutFloatingText tickRegistry tick call.line := by
    intro call hcall
    have hline : call.line = text "tick" := by
      simp only [List.mem_cons, List.not_mem_nil, or_false] at hcall
      rcases hcall with rfl | rfl <;> rfl
    intro world
    rw [hline]
    rfl
  exact processAll_session (by decide) (by decide) (fun _ _ => rfl) hlocal _

end CommandEventExecutor

end EspressioCommand
