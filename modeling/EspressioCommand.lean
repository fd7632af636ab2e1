import EspressioCommand.Pending.Refinement
import EspressioCommand.Pending.Expiry
import EspressioCommand.Registry.Conservation
import EspressioCommand.Registry.Ownership
import EspressioCommand.Registry.Observation
import EspressioCommand.Registry.Reachability
import EspressioCommand.Route.Delivery
import EspressioCommand.Route.Identifiers
import EspressioCommand.Executor.Answer
import EspressioCommand.Executor.References
import EspressioCommand.Text.Composition
import EspressioCommand.Registry.Removal
import EspressioCommand.Registry.Visibility
import EspressioCommand.Registry.Interchange
import EspressioCommand.Registry.ExecutionTrace
import EspressioCommand.Json.Acceptance
import EspressioCommand.Json.Lossless
import EspressioCommand.Registry.Suggestion
import EspressioCommand.Registry.TypedAccess
import EspressioCommand.Registry.TextAcceptance
import EspressioCommand.Registry.Completion
import EspressioCommand.Registry.HelpListing
import EspressioCommand.CommandLine
import EspressioCommand.Pending.TimeoutRegistry
import EspressioCommand.Envelope.Lossless
import EspressioCommand.Pending.ResponseCount
import EspressioCommand.Registry.Catalogue
import EspressioCommand.Json.Discovery
import EspressioCommand.Json.Request
import EspressioCommand.Registry.TextReading
import EspressioCommand.Registry.Middleware
import EspressioCommand.Executor.RemoteSession
import EspressioCommand.CommandLine.Session
import EspressioCommand.Registry.CompletionWalk
import EspressioCommand.Pending.Punctuality
import EspressioCommand.Library.Related
import EspressioCommand.Registry.Printed
import EspressioCommand.Value.NarrowingOrder
import EspressioCommand.Json.Contract
import EspressioCommand.Registry.EventBridge
import EspressioCommand.Library.SignificantDigits
import EspressioCommand.Value.FloatingText
