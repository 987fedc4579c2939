import Recursant.Gateway.Commit
import Recursant.Lib.Rounding

/-!
# An exchange after its placement

Failover after a failed dispatch, the outcomes that cool candidates down, the shadow copy, and the
end of the exchange.
-/

namespace Recursant.Gateway

open Compliance (Gated)

variable {ρ : Router}

/-- The nearest `double`.  Nothing that is rounded here overflows, and a sum or a product with an
integer that is below the normal numbers is exact. -/
def double (x : Rat) : Rat := Rounding.round 53 x

/-! ## Failover -/

/-- The capacity that a moved ticket gives back and takes. -/
def moveCapacity (g : GatewayContext ρ.settings.count) (held target : Option ρ.Index) :
    (ρ.Index → Nat) × Option ρ.Index :=
  let inflight :=
    match held with
    | none => g.inflight
    | some i => Function.update g.inflight i (g.inflight i - 1)
  match target.filter fun i => (ρ.candidate i).maxInflight ≠ 0 with
  | none => (inflight, none)
  | some i => (Function.update inflight i (inflight i + 1), some i)

/-- The scope and the ticket of a request that was moved. -/
def moved (p : Prep ρ) (limit : Nat) : Prep ρ :=
  let model := modelOf p.body
  let (inflight, capacity) :=
    moveCapacity p.gateway p.ticket.capacity (ρ.candidateOf p.endpoint model)
  let g := { p.gateway with inflight }
  { p with
    gateway :=
      match p.ticket.scope with
      | none => g
      | some i => g.setScope i { g.scopes i with
          contextFloor := max (g.scopes i).contextFloor limit
          endpoint := p.endpoint
          model := model.getD [] }
    ticket := { p.ticket with reason := "failover", cost := none, capacity } }

/-- The failed destination's reasoning field is not the target's. -/
def withdrawEffort (p : Prep ρ) : Prep ρ :=
  match p.ticket.scope with
  | none => p
  | some i =>
      let s := p.gateway.scopes i
      { p with
        body := removeEffort p.body s.reasoningAdded
        gateway := p.gateway.setScope i { s with reasoningAdded := none } }

/-- `rc_gateway_failover`; `context` is set when the provider reported a context overflow. -/
def failover (vetting : Json → Endpoint → Gated) (automatic : Bool) (h : GatewayHeaders)
    (context : Bool) (now : Nat) (p : Prep ρ) : Bool × Prep ρ :=
  if ρ.settings.health.isNone || !ρ.settings.active || !automatic || !p.ticket.begun ||
      p.ticket.finished then (false, p)
  else
    match ρ.candidateOf p.endpoint (modelOf p.body) with
    | none => (false, p)
    | some source =>
        let p := withdrawEffort p
        let restricted := p.gateway.mustBePrivate ρ.settings.implicit p.ticket.scope h
        let limit := if context then (ρ.candidate source).contextLimit else 0
        match failOver ρ p.gateway vetting p.ticket.scope restricted p.body source limit now with
        | none => (false, p)
        | some (body, endpoint) => (true, moved { p with body, endpoint } limit)

/-! ## Outcomes -/

/-- Rate limits, authorization, unknown models, timeouts and transport failures cool down at
once. -/
def immediate (status : Nat) : Bool :=
  status = 0 || status = 401 || status = 404 || status = 408 || status = 429

/-- The failures are above the ratio, as the `double`s compare. -/
def exceeds (ratio : Rat) (failures requests : Nat) : Bool :=
  double failures > double (ratio * double requests)

def recordOutcome (health : Health) (status retryAfterMs now : Nat) (o : Outcome) : Outcome :=
  let o := if o.requests = 0 || now - o.window ≥ 60000 then { o with
    window := now, requests := 0, failures := 0 } else o
  let o := { o with requests := o.requests + 1 }
  if immediate status || status ≥ 500 then
    let o := { o with failures := o.failures + 1 }
    if immediate status ||
        (o.requests ≥ health.minRequests && exceeds health.ratio o.failures o.requests) then
      { o with untilMs := now + max retryAfterMs health.cooldownMs }
    else o
  else o

/-- `rc_gateway_outcome`. -/
def noteOutcome (g : GatewayContext ρ.settings.count) (endpoint : Endpoint) (model : Option Text)
    (status retryAfterMs now : Nat) : GatewayContext ρ.settings.count :=
  match ρ.settings.health, ρ.candidateOf endpoint model with
  | some health, some i => { g with
      outcome := Function.update g.outcome i
        (recordOutcome health status retryAfterMs now (g.outcome i)) }
  | _, _ => g

/-! ## Shadow copies -/

/-- The request as the shadow's own non-streamed one. -/
def shadowBody (s : Scope) (a : Alias) (body : Json) : Option Json := do
  let copy ← (removeEffort body s.reasoningAdded).set? "model" (some (.string a.model))
  let copy ← copy.set? "stream" (some (.bool false))
  return copy.del "stream_options"

/-- The vetted copy with the destination it goes to. -/
def shadowCopy (vetting : Json → Endpoint → Gated) (s : Scope) (a : Alias) (body : Json) :
    Option (Json × Endpoint) := do
  let copy ← shadowBody s a body
  let gated := vetting copy a.endpoint
  guard (gated.admitted && gated.endpoint = a.endpoint && eq gated.body "model" a.model &&
    (dispatchProvider ρ.runtime.config a.endpoint (some a.model)).isSome)
  return (gated.body, a.endpoint)

/-- The step may be copied at all. -/
def shadowEligible (shadow : Shadow ρ.settings.count) (g : GatewayContext ρ.settings.count)
    (h : GatewayHeaders) (s : Scope) (endpoint : Endpoint) (body : Json) : Bool :=
  !s.pinned && !s.privateOnly && !g.labelled h &&
    (ρ.candidateOf endpoint (modelOf body)).any (· ≠ shadow.candidate)

/-- `1-1e-9` -/
def wholeSample : Rat := double (1 - double (1 / 1000000000))

/-- The spend cap, the running copies and the sampling accumulator. -/
def shadowSample (shadow : Shadow ρ.settings.count) (g : GatewayContext ρ.settings.count) :
    Bool × GatewayContext ρ.settings.count :=
  if g.shadowSpent ≥ shadow.usdCap then (false, { g with shadowCapped := true })
  else if g.shadowInflight ≥ shadow.maxInflight then (false, g)
  else
    let acc := double (g.shadowAcc + shadow.sample)
    if acc ≥ wholeSample then (true, { g with shadowAcc := double (acc - 1) })
    else (false, { g with shadowAcc := acc })

/-- `rc_gateway_shadow`: the copy that is dispatched, if its thread starts. -/
def shadow (vetting : Json → Endpoint → Gated) (automatic : Bool) (h : GatewayHeaders)
    (started : Bool) (p : Prep ρ) : Option (Json × Endpoint) × Prep ρ :=
  match ρ.settings.shadow, p.ticket.scope with
  | some config, some i =>
      if !automatic || !ρ.settings.active then (none, p)
      else
        let s := p.gateway.scopes i
        if !shadowEligible config p.gateway h s p.endpoint p.body then (none, p)
        else
          let (go, g) := shadowSample config p.gateway
          let copy := if go then
              shadowCopy (ρ := ρ) vetting s (ρ.candidate config.candidate).destination p.body
            else none
          match copy.filter fun _ => started with
          | none => (none, { p with gateway := g })
          | some copy => (some copy, { p with
              gateway := { g with shadowInflight := g.shadowInflight + 1 }
              ticket := { p.ticket with shadowed := true } })
  | _, _ => (none, p)

/-- The end of a shadow dispatch; a cost that is not known counts as nothing. -/
def shadowDone (cost : Rat) (g : GatewayContext ρ.settings.count) :
    GatewayContext ρ.settings.count :=
  { g with
    shadowInflight := g.shadowInflight - 1
    shadowSpent := double (g.shadowSpent + max cost 0) }

/-! ## Finish -/

/-- What the observer of a stream reports when it is asked: validated usage, the normalized
message and the merged reasoning. -/
structure Observation where
  usage : Option UsageObservation
  message : Option Json
  reasoning : Option Json

structure Finish where
  complete : Bool
  sse : Bool
  response : Option Text
  observer : Observation

def isCount (v : Json) : Bool :=
  match v with
  | .integer n => 0 ≤ n
  | _ => false

def counters (o : Json) (allowed : Text) : Bool :=
  keys o allowed &&
    match o with
    | .object members => members.all fun (_, v) => isCount v
    | _ => false

def usageDetails : Text :=
  "|reasoning_tokens||audio_tokens||accepted_prediction_tokens||rejected_prediction_tokens|"

def envelopeUsage (usage : Json) : Bool :=
  keys usage (text "|prompt_tokens||completion_tokens||total_tokens|" ++
    text "|prompt_tokens_details||completion_tokens_details|") &&
    [text "prompt_tokens", text "completion_tokens", text "total_tokens"].all
      (fun key => (usage.get? key).any isCount) &&
    (usage.get? "prompt_tokens_details").all
      (fun d => d = .null || counters d "|cached_tokens||audio_tokens|") &&
    (usage.get? "completion_tokens_details").all
      (fun d => d = .null || counters d usageDetails)

def toolEnvelope (root choice : Json) : Bool :=
  choice.get? "index" = some (.integer 0) &&
    ((root.get? "id").isNone || (token root "id" 128).isSome) &&
    ((root.get? "model").isNone || (token root "model" 128).isSome) &&
    ((root.get? "object").isNone || eq root "object" "chat.completion") &&
    (root.get? "created").all isCount &&
    (root.get? "usage").all fun usage => usage = .null || envelopeUsage usage

def rootNullable : Text :=
  text "|service_tier||prompt_logprobs||prompt_token_ids||prompt_text||kv_transfer_params|" ++
  text "|ec_transfer_params||metrics|"

/-- A response of exactly one choice in the portable shape. -/
def safeResponse (root choice : Json) : Bool :=
  nullableKeys root "|id||object||created||model||choices||usage||system_fingerprint|"
      rootNullable &&
    (root.get? "system_fingerprint").all Json.isString &&
    (elementsAt root "choices").length = 1 &&
    nullableKeys choice "|index||message||finish_reason||stop_reason|"
      "|logprobs||token_ids||routed_experts|" &&
    (choice.get? "stop_reason").all isCount

def natAt (o : Json) (key : Text) : Option Nat :=
  match o.get? key with
  | some (.integer n) => if 0 ≤ n then some n.toNat else none
  | _ => none

/-- The usage of a response, and whether its cached count is bounded. -/
def responseUsage (root : Json) : Option UsageObservation × Bool :=
  let usage := (root.get? "usage").getD .null
  let details := (usage.get? "prompt_tokens_details").getD .null
  match natAt usage "prompt_tokens", natAt usage "completion_tokens" with
  | some prompt, some completion =>
      (some ⟨prompt, completion, (natAt details "cached_tokens").getD 0⟩,
        (details.get? "cached_tokens").isNone ||
          (natAt details "cached_tokens").any (· ≤ prompt))
  | _, _ => (none, true)

/-- The name of a call is one of the offered tools. -/
def offeredTool (tools : Json) (name : Text) : Bool :=
  tools.elements.any fun t => (t.get? "function").any fun f => eq f "name" name

/-- The calls of the message are ones the pending request allowed. -/
def callsAllowed (s : Scope) (calls tools : Json) : Bool :=
  calls.size > 0 && (s.pendingParallel || calls.size = 1) &&
    s.pendingChoice ≠ some (.string "none") &&
    calls.elements.all fun call =>
      let name := (call.get? "function").bind fun f => token f "name" 64
      name.any (offeredTool tools) &&
        (s.pendingChoice.filter Json.isObject).all fun choice =>
          name.any fun name => (choice.get? "function").any fun f => eq f "name" name

/-- The tool boundary of a turn that ends in calls, with the calls. -/
def captureBoundary (s : Scope) (message : Json) : Option (Boundary × Json) := do
  let pending ← s.pending
  let tools ← s.pendingTools
  let calls ← message.get? "tool_calls"
  guard (callsAllowed s calls tools)
  let history ← ρ.jansson.dumps pending
  let assistant ← ρ.jansson.dumps message
  return (← ρ.neighbours.capture history assistant, calls)

/-- A harness may replay the turn's reasoning; a boundary that cannot record it is dropped. -/
def keepBoundary (boundary : Boundary) (reasoning : Option Json) (s : Scope) : Scope :=
  match reasoning.elim (some boundary) (ρ.neighbours.setReasoning boundary) with
  | some boundary => { s with boundary := some boundary }
  | none => { s with pinned := true }

/-- `json_array_append`. -/
def append (v element : Json) : Option Json :=
  match v with
  | .array elements => some (.array (elements ++ [element]))
  | _ => none

/-- The turn's continuity: a captured boundary, extended history, or a pin. -/
def closeTurn (s : Scope) (toolResponse safe : Bool) (message : Option Json)
    (reasoning : Option Json) : Scope :=
  let captured :=
    if toolResponse && !s.pinned then message.bind (captureBoundary (ρ := ρ) s) else none
  let s :=
    match captured with
    | some (boundary, calls) => keepBoundary (ρ := ρ) boundary reasoning { s with
        requirements := s.requirements ||| ρ.neighbours.boundaryRequirements boundary
        observedCalls := some calls }
    | none =>
        match if safe then message.bind fun m => s.pending.bind (append · m) else none with
        | none => { s with pinned := true }
        | some history => if s.pinned then s else { s with history := some history }
  { s with pendingChoice := none, pendingTools := none, pending := none }

/-- Usage kept as cost evidence, and the spend of the exchange. -/
def noteUsage (s : Scope) (seen : Option UsageObservation) (cachedBounded : Bool) : Scope :=
  let s := { s with usage := none, usageMessages := 0, usageModel := [] }
  let s := if cachedBounded && s.requestMessages ≠ 0 && !s.pinned && seen.isSome then
      { s with usage := seen, usageMessages := s.requestMessages + 1, usageModel := s.model }
    else s
  match seen, ρ.candidateOf s.endpoint (some s.model) with
  | some usage, some served =>
      match (ρ.candidate served).cost with
      | .priced price =>
          let cost := turnCost price usage.promptTokens usage.cachedTokens usage.completionTokens
          if ρ.settings.budget.sessionUsd > 0 && cost.any (· > 0) then
            { s with spent := s.spent + cost.getD 0 }
          else s
      | .fixed _ => s
  | _, _ => s

/-- The scope after its exchange, and the reasoning that a public candidate streamed. -/
def finishScope (f : Finish) (now : Nat) (s : Scope) : Scope × Option Json :=
  let s := { s with active := now, turns := if f.complete then s.turns + 1 else s.turns }
  let root :=
    ((f.response.filter fun t => f.complete && !f.sse && t ≠ []).bind ρ.jansson.loadb).getD .null
  let choice := ((elementsAt root "choices").head?).getD .null
  let envelope := toolEnvelope root choice
  let safe := safeResponse root choice && (s.requirements = 0 || envelope)
  let (seen, cachedBounded) :=
    if f.sse then (f.observer.usage.filter fun _ => f.complete, true) else responseUsage root
  let s := noteUsage (ρ := ρ) s seen cachedBounded
  let stream := if f.complete && f.sse then f.observer.message else none
  let reasoning := stream.bind fun _ => f.observer.reasoning
  let recorded := reasoning.filter fun _ =>
    s.endpoint = .pub && (ρ.candidateOf .pub (some s.model)).isSome
  let message := if f.sse then stream else choice.get? "message"
  let toolResponse :=
    if f.sse then stream.any fun m => (m.get? "tool_calls").isSome
    else safe && eq choice "finish_reason" "tool_calls" && envelope
  let plain := (if f.sse then stream.isSome else safe && eq choice "finish_reason" "stop") &&
    !toolResponse && message.any fun m => plainMessage m && eq m "role" "assistant"
  (closeTurn (ρ := ρ) s toolResponse plain message reasoning, recorded)

/-- The exchange gives its capacity and its row back. -/
def settleTicket (g : GatewayContext ρ.settings.count) (t : Ticket ρ.settings.count)
    (complete : Bool) (now : Nat) : GatewayContext ρ.settings.count :=
  { g with
    inflight :=
      match t.capacity with
      | none => g.inflight
      | some i => Function.update g.inflight i (g.inflight i - 1)
    ledger :=
      match t.id with
      | none => g.ledger
      | some id => Attempts.attemptFinish g.ledger id complete now
    rows :=
      match t.row with
      | none => g.rows
      | some k => g.rows.modify k fun r => { r with complete, settled := true } }

/-- `rc_gateway_finish`, with the public reasoning it records. -/
def finish (f : Finish) (now : Nat) (g : GatewayContext ρ.settings.count)
    (t : Ticket ρ.settings.count) :
    GatewayContext ρ.settings.count × Ticket ρ.settings.count × Option Json :=
  if !t.begun || t.finished then (g, t, none)
  else
    let g := settleTicket g t f.complete now
    let t' := { t with begun := false, finished := true }
    match t.scope with
    | none => (g, t', none)
    | some i =>
        let s := g.scopes i
        let (s', recorded) := finishScope (ρ := ρ) f now s
        (g.setScope i { s' with toHolder := { s.toHolder with inflight := false } }, t', recorded)

end Recursant.Gateway
