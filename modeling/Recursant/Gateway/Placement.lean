import Recursant.Gateway.Prepare

/-!
# Choosing a destination

The automatic half of `prepare`: the estimate of a request, the task class it is offered under, the
quotes of the candidates, and the choice among them.
-/

namespace Recursant.Gateway

open Compliance (Gated)

variable {ρ : Router}

/-! ## Estimates -/

/-- What is known of the size of a request; it is bounded when its output is. -/
structure Estimate where
  tokens : Nat
  prompt : Nat
  output : Nat
  bounded : Bool

/-- The bytes of the messages appended since the usage was observed. -/
def appendedBytes (jansson : Jansson) (messages : List Json) : Option Nat :=
  messages.foldlM (fun n m => (jsonBytes jansson m).map (n + ·)) 0

/-- The observed usage that still describes the request, with the bytes appended since. -/
def observedUsage (s : Scope) (body : Json) : Option (UsageObservation × Nat) :=
  let messages := elementsAt body "messages"
  match s.usage with
  | none => none
  | some usage =>
      if messages.length < s.usageMessages then none
      else (appendedBytes ρ.jansson (messages.drop s.usageMessages)).map fun n => (usage, n)

/-- A priced registry estimates tokens; a legacy one counts bytes.  A context overflow raises the
floor. -/
def estimate (s : Scope) (body : Json) : Estimate :=
  let wire := (jsonBytes ρ.jansson body).getD 0
  let prompt :=
    match observedUsage (ρ := ρ) s body with
    | some (usage, appended) => estimatePromptTokens (some usage) appended 0
    | none => estimatePromptTokens none 0 wire
  let demand := if ρ.settings.priced then prompt else wire
  let tokens := (outputBound body).elim demand (addTokens demand)
  { tokens := if s.contextFloor ≠ 0 && tokens ≤ s.contextFloor then s.contextFloor + 1 else tokens
    prompt := if ρ.settings.priced then prompt else 0
    output := estimateOutputTokens ((outputBound body).getD 0) ρ.settings.expectedOutput
    bounded := (outputBound body).isSome }

/-! ## Task classes -/

/-- Fresh interpreted context of the last exchange, exactly attributed, with its expiry. -/
def usableContext (i : Slot) (now : Nat) : Prepare ρ (Option Nat) := do
  let s ← scopeAt i
  let snapshot ← fun p =>
    let (snapshot, contexts) := Context.get p.gateway.contexts s.key now
    EStateM.Result.ok snapshot { p with gateway := { p.gateway with contexts } }
  match snapshot.filter fun v => v.interpretation.isSome && v.revision = s.interpretation.revision with
  | none => return none
  | some v =>
      if ← exactRow s.evidenceRow now then
        return if s.evidenceRow = s.lastRow then some v.expiresAt else none
      else return none

/-- The invocation was seen before. -/
def replayedInvocation (g : GatewayContext ρ.settings.count) (h : GatewayHeaders) : Bool :=
  g.rows.any fun r => r.inUse && sameHeaders h.invocation r.headers

/-- The advisory models on an unclassified or classified structural turn. -/
def efficiencyClass (s : Scope) (body : Json) (signal : UInt64) : UInt64 :=
  match ρ.neighbours.efficiency with
  | none => signal
  | some model =>
      match model.score body with
      | none => signal
      | some p =>
          if signal ≠ 0 && p < model.vetoBelow then 0
          else if signal = 0 && s.turns ≠ 0 && p ≥ model.downshiftMin then taskToolFollowupOk
          else signal

def promptClass (body : Json) : UInt64 :=
  match ρ.neighbours.prompt with
  | none => 0
  | some model =>
      let tools := sizeAt "tools" body > 0
      match if !tools || model.agentTurns then model.score body else none with
      | none => 0
      | some p => if p ≥ model.simpleMin then taskSimplePrompt else 0

/-- The signal class and the escalation class of the step. -/
def signalClass (s : Scope) (body : Json) (structural : Bool) (judged : Judgement) :
    UInt64 × UInt64 :=
  let facts := ⟨s.turns, ρ.settings.repeatEscalation, ρ.settings.phase⟩
  let signal := if structural then ρ.neighbours.classify body facts else 0
  let escalation := if signal = taskRecovery then taskRecovery else 0
  let signal := if escalation ≠ 0 then 0 else signal
  let advised := structural && escalation = 0 && !s.privateOnly
  let signal :=
    if judged.attempted && advised && signal = 0 && s.turns ≠ 0 && judged.routine = some true then
      taskToolFollowupOk
    else signal
  let signal := if advised then efficiencyClass (ρ := ρ) s body signal else signal
  let signal := if advised && signal = 0 then promptClass (ρ := ρ) body else signal
  let signal :=
    if structural && signal = 0 && escalation = 0 && s.turns = 0 && s.delegated then
      taskDelegatedStart
    else signal
  -- an orchestrator integrates its delegates' work on the baseline
  let signal :=
    if s.awaitingDelegates && signal ≠ 0 && signal ≠ taskDelegatedStart then 0 else signal
  (signal, escalation)

/-! ## Quotes -/

section Choice

variable (g : GatewayContext ρ.settings.count) (vetting : Json → Endpoint → Gated) (s : Scope)
  (body : Json)

/-- Only the current owner keeps a measured warm prompt cache. -/
def ownsCache (i : ρ.Index) : Bool :=
  let a := (ρ.candidate i).destination
  s.owner && s.usage.isSome && a.endpoint = s.endpoint && a.model = s.model && s.usageModel = s.model

def quoteCost (e : Estimate) (i : ρ.Index) : Option Rat :=
  match (ρ.candidate i).cost with
  | .fixed cost => some cost
  | .priced price =>
      turnCost price e.prompt (cachedInputTokens (ownsCache s i) s.usage e.prompt) e.output

/-- M2 for this exact request, on the private side only for a private-only scope. -/
def permitted (i : ρ.Index) : Bool :=
  let a := (ρ.candidate i).destination
  (!s.privateOnly || a.endpoint = .priv) && permits vetting body a

/-- What else a candidate other than the baseline must be. -/
def offered (now : Nat) (i : ρ.Index) : Bool :=
  permitted vetting s body i &&
    (i = ρ.settings.baseline ||
      (!g.full ρ i && !g.cooling ρ i now && (ρ.candidate i).declares s.requirements s.effort))

/-! ## The choice -/

/-- How a step was placed: the candidate, the reason, and the effort asked of it (`true` for
high). -/
structure Choice (ρ : Router) where
  index : ρ.Index
  reason : Text
  effort : Option Bool

def SelectionReason.name : SelectionReason → Text
  | .baseline => "baseline"
  | .cheapest => "cheapest"
  | .pin => "pin"
  | .escalate => "escalate"

/-- Near the cap: the cheapest offered candidate that fits; at the cap only a free one. -/
def budgetPlacement (quotes : ρ.Index → Quote) (tokens : Nat) (spend : Rat) : Option ρ.Index :=
  if ρ.settings.budget.sessionUsd > 0 && spend ≥ ρ.settings.budget.downshiftAt then
    Scan.best
      (fun i => (quotes i).permitted && (ρ.candidate i).contextLimit ≥ tokens &&
        (spend < 1 || (ρ.candidate i).zeroPrice))
      (fun i j => (quotes i).expectedTaskCost < (quotes j).expectedTaskCost) ρ.indices
  else none

/-- The baseline cannot hold the request: the cheapest escalation candidate that can. -/
def contextPlacement (quotes : ρ.Index → Quote) (tokens : Nat) : Option ρ.Index :=
  if (quotes ρ.settings.baseline).permitted &&
      (ρ.candidate ρ.settings.baseline).contextLimit < tokens then
    Scan.best
      (fun i => i ≠ ρ.settings.baseline && (quotes i).permitted &&
        (ρ.candidate i).qualified taskRecovery && (ρ.candidate i).contextLimit ≥ tokens)
      (fun i j => (quotes i).expectedTaskCost < (quotes j).expectedTaskCost) ρ.indices
  else none

/-- `compliant_candidate`: M2 vetoes the baseline for this exact request. -/
def compliantCandidate (tokens : Nat) : Option ρ.Index :=
  Scan.best
    (fun i => (ρ.candidate i).declares s.requirements s.effort &&
      (ρ.candidate i).contextLimit ≥ tokens &&
      (!s.privateOnly || (ρ.candidate i).destination.endpoint = .priv) &&
      permits vetting body (ρ.candidate i).destination)
    (fun i j => (ρ.candidate i).rankCost < (ρ.candidate j).rankCost) ρ.indices

/-- The effort of a step that the selector chose. -/
def stepEffort (selection : Selection ρ.settings.count) (signal escalation : UInt64) : Option Bool :=
  if !ρ.settings.active || s.pinned then none
  else
    match ρ.settings.reasoning with
    | .off => none
    | .signals =>
        match selection.reason with
        | .escalate => some true
        | .cheapest => some false
        | _ => none
    | .steps =>
        let routine := escalation = 0 && selection.reason ≠ .escalate &&
          signal &&& (taskToolFollowupOk ||| taskFinalAnswer ||| taskSimplePrompt) ≠ 0
        some (!routine)

/-- The choice of a step; the error is the status of a denial. -/
def choose (quotes : ρ.Index → Quote) (q : SelectionRequest) (e : Estimate) (spend : Rat) :
    Except Nat (Choice ρ) :=
  let baseline := ρ.settings.baseline
  let tokens := e.tokens
  match budgetPlacement quotes tokens spend with
  | some i => .ok ⟨i, "budget", none⟩
  | none =>
      match contextPlacement quotes tokens with
      | some i => .ok ⟨i, "context", none⟩
      | none =>
          let stay : Selection ρ.settings.count := ⟨baseline, .baseline⟩
          if (quotes baseline).permitted then
            match select ρ.candidate quotes q with
            | .ok selection => .ok ⟨selection.index, selection.reason.name,
                stepEffort s selection q.signalClass q.escalationClass⟩
            | _ =>
                -- a failed proposal has no dispatch authority in shadow mode
                if ρ.settings.active then .error 403
                else .ok ⟨baseline, "baseline", none⟩
          else
            match compliantCandidate vetting s body tokens with
            | some i => .ok ⟨i, "compliance", none⟩
            | none => .ok ⟨baseline, "baseline",
                stepEffort s stay q.signalClass q.escalationClass⟩

end Choice

/-! ## The automatic request -/

/-- The effort of the step with the candidate it was chosen for. -/
abbrev EffortStep (ρ : Router) := Option (Bool × ρ.Index)

/-- A pinned session is never moved, by selection or by M2. -/
def placePinned (s : Scope) : Prepare ρ Unit := do
  modify fun p => { p with endpoint := s.endpoint }
  setModel (some s.model)
  modifyTicket fun t => { t with reason := "pin" }

/-- The selected request is addressed in active mode only. -/
def placeSelected (c : Call) (vetting : Json → Endpoint → Gated) (i : Slot) (spend : Rat) :
    Prepare ρ (EffortStep ρ) := do
  let context ← usableContext i c.now
  let p ← get
  let s := p.gateway.scopes i
  let fresh := !replayedInvocation p.gateway c.headers
  let e := estimate (ρ := ρ) s p.body
  let usable := context.filter fun _ => fresh && e.bounded
  let structural := ρ.settings.signals && !s.pinned && fresh && e.bounded
  let (signal, escalation) := signalClass (ρ := ρ) s p.body structural c.judged
  let task := if usable.isSome && s.interpretation.nextAction = text "format_result" &&
      s.interpretation.difficultyBand = text "simple" &&
      s.interpretation.coverage = text "partial" then taskFormatSimple else 0
  ensure (ρ.indices.all fun k => (quoteCost s e k).isSome) 500
  let quotes k : Quote :=
    ⟨offered p.gateway vetting s p.body c.now k, (quoteCost s e k).getD 0⟩
  let q : SelectionRequest :=
    { baselineAlias := (ρ.candidate ρ.settings.baseline).aliasIndex
      contextUsable := usable.isSome && !s.pinned
      now := c.now
      contextObservedAt := s.observed
      contextExpiresAt := usable.getD 0
      taskClass := task
      contextTokens := if e.tokens = 0 then 1 else e.tokens
      signalClass := signal
      escalationClass := escalation }
  match choose vetting s p.body quotes q e spend with
  | .error status => throw status
  | .ok choice =>
      if ρ.settings.active then
        modifyTicket fun t => { t with
          reason := choice.reason
          cost := if ρ.settings.priced then some (quotes choice.index).expectedTaskCost else t.cost }
        place (ρ.candidate choice.index).destination
        return choice.effort.map fun high => (high, choice.index)
      else return none

/-- The session's spend as a fraction of its budget. -/
def spendOf (s : Scope) : Rat :=
  if ρ.settings.budget.sessionUsd > 0 then s.spent / ρ.settings.budget.sessionUsd else 0

/-- The scoped automatic request. -/
def placeAutomatic (c : Call) (vetting : Json → Endpoint → Gated) (i : Slot) (spend : Rat) :
    Prepare ρ (EffortStep ρ) := do
  let s ← scopeAt i
  if s.pinned && s.owner then
    placePinned s
    return none
  else placeSelected c vetting i spend

end Recursant.Gateway
