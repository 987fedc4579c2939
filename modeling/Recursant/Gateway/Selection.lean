import Recursant.Lib.Scan
import Recursant.Provider.Adapters

/-!
# Costs and the selector

`cost.c` and `selector.c`, with prices and costs as exact rationals.
-/

namespace Recursant.Gateway

/-! ## Costs -/

def defaultOutputTokens : Nat := 512

structure Price where
  inputPerMtok : Rat
  outputPerMtok : Rat
  cachedInputPerMtok : Rat
  deriving DecidableEq

def priceValid (p : Price) : Bool :=
  0 ≤ p.inputPerMtok && 0 ≤ p.outputPerMtok && 0 ≤ p.cachedInputPerMtok &&
    p.cachedInputPerMtok ≤ p.inputPerMtok

/-- Provider usage of the last completed turn, when it is known. -/
structure UsageObservation where
  promptTokens : Nat
  completionTokens : Nat
  cachedTokens : Nat
  deriving DecidableEq

/-- Saturating addition. -/
def addTokens (a b : Nat) : Nat := min (a + b) uint64Max

def quarter (bytes : Nat) : Nat := bytes / 4 + if bytes % 4 ≠ 0 then 1 else 0

def estimatePromptTokens (last : Option UsageObservation) (appendedBytes requestBytes : Nat) : Nat :=
  match last with
  | some usage =>
      addTokens (addTokens usage.promptTokens usage.completionTokens) (quarter appendedBytes)
  | none => quarter requestBytes

def estimateOutputTokens (maxTokens expectedOutput : Nat) : Nat :=
  min maxTokens (if expectedOutput = 0 then defaultOutputTokens else expectedOutput)

/-- Only the owner keeps a cache, and only where the provider reported one. -/
def cachedInputTokens (isOwner : Bool) (last : Option UsageObservation) (promptTokens : Nat) : Nat :=
  match last with
  | some usage =>
      if isOwner && usage.cachedTokens ≠ 0 then min usage.promptTokens promptTokens else 0
  | none => 0

/-- USD of one turn; `none` for an invalid price. -/
def turnCost (p : Price) (promptTokens cachedTokens outputTokens : Nat) : Option Rat :=
  if priceValid p then
    let cached := min cachedTokens promptTokens
    some ((((promptTokens - cached : Nat) : Rat) * p.inputPerMtok +
      (cached : Rat) * p.cachedInputPerMtok + (outputTokens : Rat) * p.outputPerMtok) / 1000000)
  else none

/-- A declared legacy cost or a price. -/
inductive CandidateCost where
  | fixed (expectedTaskCost : Rat)
  | priced (price : Price)
  deriving DecidableEq

def CandidateCost.isPriced : CandidateCost → Bool
  | .priced _ => true
  | .fixed _ => false

/-! ## Task classes -/

def taskFormatSimple : UInt64 := 1

def taskToolFollowupOk : UInt64 := 2

def taskFinalAnswer : UInt64 := 4

def taskRecovery : UInt64 := 8

def taskDelegatedStart : UInt64 := 16

def taskSimplePrompt : UInt64 := 32

/-! ## Candidates -/

/-- The request field that carries a destination's reasoning effort. -/
inductive Family where
  | openai
  | openrouter
  | vllmThinking
  deriving DecidableEq

/-- A candidate's effort for routine and for hard steps; an empty token is none. -/
structure Efforts where
  family : Family
  low : Text
  high : Text
  deriving DecidableEq

structure Candidate where
  aliasIndex : Nat
  destination : Alias
  qualifiedTasks : UInt64
  contextLimit : Nat
  cost : CandidateCost
  maxInflight : Nat
  capKnown : UInt32
  capSupported : UInt32
  efforts : List Text
  effortsBySignal : Option Efforts
  deriving DecidableEq

/-- Candidates cost legacy units or USD per million input tokens where the selector is bypassed. -/
def Candidate.rankCost (c : Candidate) : Rat :=
  match c.cost with
  | .priced price => price.inputPerMtok
  | .fixed cost => cost

def Candidate.zeroPrice (c : Candidate) : Bool :=
  match c.cost with
  | .priced price => price.inputPerMtok = 0 && price.outputPerMtok = 0
  | .fixed _ => false

/-- The candidate declares every requirement bit and the exact effort token. -/
def Candidate.declares (c : Candidate) (required : UInt32) (effort : Text) : Bool :=
  c.capKnown &&& required = required && c.capSupported &&& required = required &&
    (effort = [] || c.efforts.contains effort)

def Candidate.qualified (c : Candidate) (task : UInt64) : Bool := c.qualifiedTasks &&& task ≠ 0

/-! ## Selection -/

structure Quote where
  permitted : Bool
  expectedTaskCost : Rat
  deriving DecidableEq

/-- The fields of `rc_selection_request` that the gateway sets: continuity is always
`REPLAYABLE`, the minimum saving and the required capabilities are zero. -/
structure SelectionRequest where
  baselineAlias : Nat
  contextUsable : Bool
  now : Nat
  contextObservedAt : Nat
  contextExpiresAt : Nat
  taskClass : UInt64
  contextTokens : Nat
  signalClass : UInt64
  escalationClass : UInt64

inductive SelectionReason where
  | baseline
  | cheapest
  | pin
  | escalate
  deriving DecidableEq

/-- A selected candidate. -/
structure Selection (count : Nat) where
  index : Fin count
  reason : SelectionReason
  deriving DecidableEq

inductive SelectStatus (count : Nat) where
  | ok (selection : Selection count)
  | invalid
  | blocked
  deriving DecidableEq

section Select

variable {count : Nat} (candidate : Fin count → Candidate) (quotes : Fin count → Quote)
  (q : SelectionRequest)

def eligible (i : Fin count) : Bool :=
  (quotes i).permitted && (candidate i).contextLimit ≥ q.contextTokens

/-- At most one bit. -/
def oneClass (c : UInt64) : Bool := c &&& (c - 1) = 0

/-- Cheaper, and at one cost the smaller alias index. -/
def cheaper (i j : Fin count) : Bool :=
  (quotes i).expectedTaskCost < (quotes j).expectedTaskCost ||
    ((quotes i).expectedTaskCost = (quotes j).expectedTaskCost &&
      (candidate i).aliasIndex < (candidate j).aliasIndex)

/-- The downshift loop starts at the baseline, which a tie never replaces. -/
def downshift (baseline : Fin count) (taskClass : UInt64) : Fin count :=
  (List.finRange count).foldl (fun best i =>
    if eligible candidate quotes q i && (candidate i).qualified taskClass &&
        ((quotes i).expectedTaskCost < (quotes best).expectedTaskCost ||
          (best ≠ baseline && cheaper candidate quotes i best)) then i else best) baseline

/-- The class bits a downshift may use: the signal, and fresh interpreted context. -/
def offeredClass : UInt64 :=
  if q.contextUsable && q.contextObservedAt ≤ q.now && q.now < q.contextExpiresAt then
    q.signalClass ||| q.taskClass
  else q.signalClass

/-- `rc_select` for a replayable request. -/
def select : SelectStatus count :=
  if q.contextTokens = 0 || !oneClass q.taskClass || !oneClass q.signalClass ||
      !oneClass q.escalationClass ||
      (List.finRange count).any fun i => (quotes i).expectedTaskCost < 0 then .invalid
  else
    match (List.finRange count).reverse.find? fun i => (candidate i).aliasIndex = q.baselineAlias with
    | none => .blocked
    | some baseline =>
        if !eligible candidate quotes q baseline then .blocked
        else
          let up := if q.escalationClass = 0 then none else
            Scan.best
              (fun i => eligible candidate quotes q i && (candidate i).qualified q.escalationClass)
              (cheaper candidate quotes) (List.finRange count)
          match up with
          | some i => .ok ⟨i, if i = baseline then .baseline else .escalate⟩
          | none =>
              let best := if offeredClass q = 0 then baseline
                else downshift candidate quotes q baseline (offeredClass q)
              if best = baseline ||
                  (quotes baseline).expectedTaskCost ≤ (quotes best).expectedTaskCost then
                .ok ⟨baseline, .baseline⟩
              else .ok ⟨best, .cheapest⟩

end Select

end Recursant.Gateway
