import Recursant.Lib.Compaction
import Recursant.Lib.Delimited
import Recursant.Lib.FencedMap
import Recursant.Lib.Metered
import Recursant.Lib.Trace
import Recursant.Json
import Recursant.Provider.Adapters
import Recursant.Compliance.Complete
import Recursant.Compliance.Atomicity
import Recursant.Compliance.Memo
import Recursant.Attempts.Exactness
import Recursant.Context.Refinement
import Recursant.Gateway.Authority
import Recursant.Gateway.Capacity
import Recursant.Gateway.Identities
import Recursant.Gateway.Pins
import Recursant.Gateway.Restriction
import Recursant.Gateway.Resend
import Recursant.Gateway.Usable
import Recursant.Bridge.Exactness
import Recursant.Bridge.Delivery
import Recursant.Bridge.ScopeFence
import Recursant.Startup.Migration
import Recursant.Gateway.Selector
import Recursant.Compliance.Identifiers
import Recursant.Context.Envelope
import Recursant.Context.Window
import Recursant.Context.Closure
import Recursant.Context.Assembly
import Recursant.Lib.Lines
import Recursant.Context.ResponseObserver
import Recursant.Context.Chunking
import Recursant.Context.Acceptance
import Recursant.Compliance.ProvenanceRing
import Recursant.Context.ReasoningRecord
import Recursant.Gateway.Cooldown
import Recursant.Compliance.Escapes
import Recursant.Lib.Definitions
import Recursant.Cli.EnvFile
import Recursant.Cli.Configure
import Recursant.Document.Strings
import Recursant.Number
import Recursant.Http.Relay
import Recursant.Http.Delivery
import Recursant.Lib.JsonText
import Recursant.Document.Parser
import Recursant.Document.Binding
import Recursant.Document.Acceptance
import Recursant.Document.Schema
import Recursant.Document.Validation
import Recursant.Startup.Allowlists
import Recursant.JsonSchema
import Recursant.Interpreter.Trajectory
import Recursant.Interpreter.Slots
import Recursant.Interpreter.View
import Recursant.Gateway.Allowance
import Recursant.Gateway.Budgets
import Recursant.Tracer.Head
import Recursant.Tracer.Relay
import Recursant.Tracer.Framing
import Recursant.Tracer.Safety
import Recursant.Context.Prompt
import Recursant.Context.PromptReference
import Recursant.Context.WordpieceExactness
import Recursant.Context.EfficiencyAgreement
import Recursant.Gateway.Meters
import Recursant.Cli.Unit
