import EspressioCommand.Registry.Invoke
import EspressioCommand.Route.RouteRegistry

/-!
# `CommandEventExecutor::ProcessWork`

The work item of one inbound request: invoke the command, fill in the response,
route it when the request asks for that, and queue a completion event.  All of it
is inside one `catch (...)`, which drops what has not been done yet.

The user's code runs in a `World`: a state of its own, of any type, and the route
registry with the route objects, which it may also use.  `SendCommandResponse` is
such code too, given as a parameter.
-/

namespace EspressioCommand

variable {σ : Type} {limits : EnvelopeLimits}

/-- What user code can see and change. -/
structure World (σ : Type) where
  user : σ
  routes : CommandResponseRouteRegistry
  alive : ℕ → Bool

/-- `CommandCompletedEvent`. -/
structure CommandCompletedEvent (limits : EnvelopeLimits) where
  request : CommandRequestEnvelope limits
  response : CommandResponseEnvelope limits
  responseRouted : Bool
deriving DecidableEq

/-- What a work item does outside the world: the calls of `SendCommandResponse`, each
with what it returned, and the events it queues. -/
structure WorkOutcome (limits : EnvelopeLimits) where
  sent : List (Delivery limits × Bool) := []
  queued : List (CommandCompletedEvent limits) := []
deriving DecidableEq

namespace CommandEventExecutor

/-- The test of `ProcessWork` for a response to be routed. -/
def shouldRoute (request : CommandRequestEnvelope limits) : Bool :=
  request.responseExpectation = .completion && !request.origin.isLocal

/-- The response to a request whose command has returned. -/
def makeResponse (request : CommandRequestEnvelope limits) (result : CommandResult) :
    CommandResponseEnvelope limits :=
  (CommandResponseEnvelope.setMessage
    { requestId := request.requestId, success := result.success, code := result.code }
    result.message).1

/-- The routing of that response: what is handed to a route object, if anything, and
the registry afterwards. -/
def routeResponse (routes : CommandResponseRouteRegistry) (alive : ℕ → Bool)
    (request : CommandRequestEnvelope limits) (result : CommandResult) :
    Option (Delivery limits) × CommandResponseRouteRegistry :=
  if shouldRoute request then routes.route alive request.origin (makeResponse request result)
  else (none, routes)

/-- `ProcessWork` from the returned result on.  `send` is `SendCommandResponse`,
which says whether it accepts the response. -/
def respond (send : Delivery limits → World σ → Bool × World σ)
    (request : CommandRequestEnvelope limits) (result : CommandResult) (world : World σ) :
    WorkOutcome limits × World σ :=
  let routing := routeResponse world.routes world.alive request result
  let world := { world with routes := routing.2 }
  match routing.1 with
  -- no response is due, or `Route` found no live route
  | none => ({ queued := [⟨request, makeResponse request result, false⟩] }, world)
  | some delivery =>
      let accepted := send delivery world
      ({ sent := [(delivery, accepted.1)]
         queued := [⟨request, makeResponse request result, accepted.1⟩] },
        accepted.2)

/-- `ProcessWork`, for the event that carries `request`. -/
def processWork (platform : Platform) (registry : Option (CommandRegistry (World σ)))
    (send : Delivery limits → World σ → Bool × World σ)
    (request : CommandRequestEnvelope limits) (world : World σ) :
    WorkOutcome limits × World σ :=
  match registry with
  -- `_registry` is null before `Prepare`
  | none => ({}, world)
  | some registry =>
      match (registry.invokeText platform request.rawString).runFrom world with
      | (.ok result, world) => respond send request result world
      -- the outer `catch (...)`: nothing is sent and nothing is queued
      | (.error _, world) => ({}, world)

@[simp] theorem makeResponse_requestId (request : CommandRequestEnvelope limits)
    (result : CommandResult) : (makeResponse request result).requestId = request.requestId := rfl

/-- What is handed over answers the request at its origin. -/
theorem routeResponse_eq_some {routes : CommandResponseRouteRegistry} {alive : ℕ → Bool}
    {request : CommandRequestEnvelope limits} {result : CommandResult}
    {delivery : Delivery limits}
    (h : (routeResponse routes alive request result).1 = some delivery) :
    request.responseExpectation = .completion ∧ request.origin.isLocal = false ∧
      delivery.destination = request.origin.address ∧
      delivery.response = makeResponse request result ∧
      (routes.resolve alive request.origin.transportRoute).1 = some delivery.route := by
  unfold routeResponse at h
  split_ifs at h with hshould
  obtain ⟨hlocal, hdestination, hresponse, hroute⟩ :=
    CommandResponseRouteRegistry.route_eq_some h
  have hexpectation : request.responseExpectation = .completion := by
    simpa [shouldRoute, hlocal] using hshould
  exact ⟨hexpectation, hlocal, hdestination, hresponse, hroute⟩

end CommandEventExecutor

end EspressioCommand
