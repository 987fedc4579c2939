import Recursant.Compliance.Gate
import Recursant.Gateway.Request
import Recursant.Gateway.Selection

/-!
# The configured gateway

What `rc_gateway_configure` leaves fixed, and the neighbouring modules the gateway asks: the signal
classifier, the advisory models and the tool boundary answer by functions of what they are given.
-/

namespace Recursant.Gateway

open Compliance (Runtime)

/-! ## Settings -/

/-- `context.health`. -/
structure Health where
  cooldownMs : Nat
  minRequests : Nat
  maxRetries : Nat
  ratio : Rat

/-- `context.reasoning`. -/
inductive Reasoning where
  | off
  | signals
  | steps
  deriving DecidableEq

/-- `context.budgets`; zero is no limit. -/
structure Budget where
  sessionUsd : Rat
  downshiftAt : Rat
  sessionRequests : Nat
  rpm : Nat

/-- `context.shadow`, for one of `count` candidates. -/
structure Shadow (count : Nat) where
  candidate : Fin count
  sample : Rat
  usdCap : Rat
  maxInflight : Nat

/-- `context.housekeeping`. -/
structure Housekeeping (count : Nat) where
  candidate : Fin count
  markers : List Text

/-- The candidates name different aliases, one of them the baseline's, and cost one unit. -/
structure Settings where
  count : Nat
  candidate : Fin count → Candidate
  distinct : Function.Injective fun i => (candidate i).aliasIndex
  baseline : Fin count
  priced : Bool
  uniform : ∀ i, (candidate i).cost.isPriced = priced
  active : Bool
  tenant : Text
  project : Text
  ttl : Nat
  attemptTtl : Nat
  expectedOutput : Nat
  signals : Bool
  implicit : Bool
  repeatEscalation : Bool
  phase : Bool
  reasoning : Reasoning
  health : Option Health
  budget : Budget
  shadow : Option (Shadow count)
  housekeeping : Option (Housekeeping count)
  /-- `breaker_ms` of `context.judge`; absent without a judge. -/
  judgeBreakerMs : Option Nat
  authorization : Text

/-! ## Neighbours -/

/-- `rc_signal_scope`. -/
structure SignalScope where
  completedTurns : Nat
  repeatEscalation : Bool
  phase : Bool

/-- `context.efficiency`; no score without features. -/
structure Efficiency where
  score : Json → Option Rat
  downshiftMin : Rat
  vetoBelow : Rat

/-- `context.prompt`. -/
structure Prompt where
  score : Json → Option Rat
  simpleMin : Rat
  agentTurns : Bool

/-- `rc_tool_status`. -/
inductive ToolStatus where
  | complete
  | incomplete
  | invalid
  deriving DecidableEq

/-- A captured tool boundary: the texts it was captured from and the reasoning set later. -/
structure Boundary where
  history : Text
  assistant : Text
  reasoning : Option Json
  deriving DecidableEq

/-- What the judge answered: whether a call was started, and the decision rule on a usable
answer. -/
structure Judgement where
  attempted : Bool
  routine : Option Bool
  deriving DecidableEq

structure Neighbours where
  classify : Json → SignalScope → UInt64
  recentFailure : Json → Bool
  efficiency : Option Efficiency
  prompt : Option Prompt
  capture : Text → Text → Option Boundary
  replay : Boundary → List Json → ToolStatus
  boundaryRequirements : Boundary → UInt32
  setReasoning : Boundary → Json → Option Boundary

/-! ## Router -/

/-- A loaded runtime with its gateway; every candidate stands for an alias of the
configuration. -/
structure Router where
  runtime : Runtime
  settings : Settings
  neighbours : Neighbours
  aliased : ∀ i, runtime.config.aliases[(settings.candidate i).aliasIndex]? =
    some (settings.candidate i).destination

namespace Router

variable (ρ : Router)

abbrev Index : Type := Fin ρ.settings.count

def candidate (i : ρ.Index) : Candidate := ρ.settings.candidate i

def indices : List ρ.Index := List.finRange ρ.settings.count

def jansson : Jansson := ρ.runtime.jansson

/-- The runtime with the given record of public output. -/
def runtimeAt (provenance : Provenance) : Runtime :=
  { ρ.runtime with policy := ρ.runtime.policy.map fun p => { p with provenance } }

/-- `candidate_of`: the first candidate serving exactly this trust class and model. -/
def candidateOf (endpoint : Endpoint) (model : Option Text) : Option ρ.Index :=
  ρ.indices.find? fun i =>
    (ρ.candidate i).destination.endpoint = endpoint && model = some (ρ.candidate i).destination.model

end Router

end Recursant.Gateway
