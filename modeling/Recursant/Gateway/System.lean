import Recursant.Gateway.Events
import Recursant.Lib.Trace

/-!
# The router as a reacting machine

Requests and context events in any order.  A request goes through the judge, its placement with the
first dispatch, failovers with their dispatches, and its end; other requests and events may come
between any two of these.
-/

namespace Recursant.Gateway

open Compliance (Runtime Verdict gate)

/-! ## Requests -/

/-- A chat request as `handle` passes it on: a parsed object, so without a key twice, that names
the physical model its destination was resolved to. -/
structure Request where
  automatic : Bool
  fields : List (Text × Option Text)
  members : List (Text × Json)
  endpoint : Endpoint
  nodup : (members.map Prod.fst).Nodup
  addressed : (members.lookup (text "model")).any Json.isString = true

def Request.body (q : Request) : Json := .object q.members

def Request.headers (q : Request) : GatewayHeaders := collectHeaders q.fields

/-- A request with its ticket.  It is live while its retry loop runs; `attempt` counts the retries
and `sampled` is set once the shadow was considered.  `vetted` and `serial`, the number of the
ticket's scope, are not in the source. -/
structure Exchange (count : Nat) where
  request : Request
  judged : Judgement
  body : Json
  endpoint : Endpoint
  ticket : Ticket count
  vetted : Vetted
  serial : Nat
  prepared : Bool
  live : Bool
  attempt : Nat
  sampled : Bool

structure State (ρ : Router) where
  gateway : GatewayContext ρ.settings.count
  provenance : Provenance
  exchanges : List (Exchange ρ.settings.count)

/-! ## Events and answers -/

inductive Event where
  | open (body : Json) (now : Nat)
  | close (body : Json) (now : Nat)
  | hint (body : Json) (now : Nat)
  | ingest (body : Json) (now : Nat) (submitted : Bool)
  | poll (now : Nat) (results : List InterpreterResult)
  | arrive (request : Request) (now : Nat) (answer : Judgement)
  | prepare (id now : Nat) (verdict : Json → Option Text → Verdict)
      (polled : List InterpreterResult)
  | shadow (id : Nat) (started : Bool)
  | shadowDone (cost : Rat)
  | outcome (endpoint : Endpoint) (model : Option Text) (status retryAfterMs now : Nat)
  | failover (id : Nat) (context : Bool) (now : Nat)
  | finish (id : Nat) (f : Finish) (now : Nat)

inductive Answer where
  | status (status : Nat)
  | opened (status : Nat) (generation : Option Text)
  | judged (asked : Bool)
  | denied (status : Nat)
  | dispatched (body : Json) (endpoint : Endpoint)
  | copied (copy : Option (Json × Endpoint))
  | done
  deriving DecidableEq

/-! ## Steps -/

section Steps

variable {ρ : Router} (s : State ρ)

/-- The runtime with the public output recorded so far. -/
def State.runtime : Runtime := ρ.runtimeAt s.provenance

/-- Every gate outside `prepare`. -/
def State.vetting : Json → Endpoint → Compliance.Gated := gate s.runtime

def State.setExchange (id : Nat) (e : Exchange ρ.settings.count)
    (g : GatewayContext ρ.settings.count) : State ρ :=
  { s with gateway := g, exchanges := s.exchanges.set id e }

/-- The serialization of a body for the provider of its destination; without one it is denied. -/
def dispatch (body : Json) (endpoint : Endpoint) : Answer :=
  if (dispatchProvider ρ.runtime.config endpoint (modelOf body)).isSome then
    .dispatched body endpoint
  else .denied 403

def Answer.isDispatch : Answer → Bool
  | .dispatched _ _ => true
  | _ => false

/-- The judge's part of a request. -/
def arriveStep (request : Request) (now : Nat) (answer : Judgement) : Answer × State ρ :=
  let asked :=
    asks s.runtime request.automatic request.headers request.body now s.gateway
  let judged := if asked then answer else ⟨false, none⟩
  (.judged asked, { s with
    gateway := recordJudgement judged now s.gateway
    exchanges := s.exchanges ++
      [⟨request, judged, request.body, request.endpoint, .fresh, ⟨.null, .priv, none⟩, 0, false,
        false, 0, false⟩] })

/-- What `prepare` starts from. -/
def Exchange.prep (e : Exchange ρ.settings.count) (g : GatewayContext ρ.settings.count) : Prep ρ :=
  ⟨g, e.body, e.endpoint, e.ticket, e.vetted⟩

/-- The exchange with what an action left of it. -/
def Exchange.after (e : Exchange ρ.settings.count) (p : Prep ρ) : Exchange ρ.settings.count :=
  { e with body := p.body, endpoint := p.endpoint, ticket := p.ticket, vetted := p.vetted }

/-- The number of the scope that the ticket names. -/
def Prep.serial (p : Prep ρ) : Nat :=
  (p.ticket.scope.map fun i => (p.gateway.scopes i).serial).getD 0

/-- The placement of a request and its first dispatch. -/
def prepareStep (id : Nat) (e : Exchange ρ.settings.count) (c : Call) : Answer × State ρ :=
  match (prepare c (vet s.runtime c.verdict)).run (e.prep s.gateway) with
  | .error status p =>
      (.denied status, s.setExchange id { e.after p with prepared := true } p.gateway)
  | .ok () p =>
      let answer := dispatch (ρ := ρ) p.body p.endpoint
      (answer, s.setExchange id { e.after p with
        serial := p.serial
        prepared := true
        live := answer.isDispatch } p.gateway)

/-- A retry of the loop: the failover and the dispatch to its target. -/
def failoverStep (id : Nat) (e : Exchange ρ.settings.count) (context : Bool) (now : Nat) :
    Answer × State ρ :=
  let (moved, p) :=
    failover s.vetting e.request.automatic e.request.headers context now (e.prep s.gateway)
  let answer := if moved then dispatch (ρ := ρ) p.body p.endpoint else .denied 502
  (answer, s.setExchange id { e.after p with attempt := e.attempt + 1, live := answer.isDispatch }
    p.gateway)

def shadowStep (id : Nat) (e : Exchange ρ.settings.count) (started : Bool) : Answer × State ρ :=
  let (copy, p) :=
    shadow s.vetting e.request.automatic e.request.headers started (e.prep s.gateway)
  (.copied copy, s.setExchange id { e.after p with sampled := true } p.gateway)

def finishStep (id : Nat) (e : Exchange ρ.settings.count) (f : Finish) (now : Nat) : State ρ :=
  let (g, ticket, recorded) := finish f now s.gateway e.ticket
  let s := s.setExchange id { e with ticket, live := false } g
  match recorded with
  | none => s
  | some reasoning => { s with provenance := s.provenance.add ρ.jansson reasoning }

def maxRetries : Nat := (ρ.settings.health.map Health.maxRetries).getD 0

/-- One step.  A request is prepared once, its shadow is considered once, before any retry, and
retries stop at the configured number. -/
def step (s : State ρ) : Event → Answer × State ρ
  | .open body now =>
      let ((status, generation), g) := openScope body now s.gateway
      (.opened status generation, { s with gateway := g })
  | .close body now =>
      let (status, g) := close body now s.gateway
      (.status status, { s with gateway := g })
  | .hint body now =>
      let (status, g) := hint body now s.gateway
      (.status status, { s with gateway := g })
  | .ingest body now submitted =>
      let (status, g) := ingest s.runtime body now submitted s.gateway
      (.status status, { s with gateway := g })
  | .poll now results =>
      (.done, { s with gateway := s.gateway.pollLocked ρ.settings.authorization now results })
  | .arrive request now answer => arriveStep s request now answer
  | .prepare id now verdict polled =>
      match s.exchanges[id]?.filter fun e => !e.prepared with
      | none => (.done, s)
      | some e => prepareStep s id e
          ⟨e.request.automatic, e.request.headers, now, verdict, e.judged, polled⟩
  | .shadow id started =>
      match s.exchanges[id]?.filter fun e => e.ticket.begun && !e.sampled && e.attempt = 0 with
      | none => (.done, s)
      | some e => shadowStep s id e started
  | .shadowDone cost => (.done, { s with gateway := shadowDone cost s.gateway })
  | .outcome endpoint model status retryAfterMs now =>
      (.done, { s with gateway := noteOutcome s.gateway endpoint model status retryAfterMs now })
  | .failover id context now =>
      match s.exchanges[id]?.filter fun e => e.live && e.attempt < maxRetries (ρ := ρ) with
      | none => (.done, s)
      | some e => failoverStep s id e context now
  | .finish id f now =>
      match s.exchanges[id]? with
      | none => (.done, s)
      | some e => (.done, finishStep s id e f now)

end Steps

/-! ## The start -/

/-- What `rc_gateway_start` leaves behind. -/
structure Started (ρ : Router) (s : State ρ) : Prop where
  ledger : ∃ auth boot, s.gateway.ledger =
    ⟨auth, Attempts.maxRows, boot, 0, ρ.settings.attemptTtl, 0, 0, false, []⟩
  contexts : s.gateway.contexts = Context.create Context.maxSlots 1
  inflight : s.gateway.inflight = fun _ => 0
  provenance : s.provenance.ring = []
  scopes : s.gateway.scopes = fun _ => {}
  labels : s.gateway.labels = []
  hints : s.gateway.hints = []
  rows : s.gateway.rows = []
  generations : s.gateway.generations = 0
  opened : s.gateway.opened = 0
  exchanges : s.exchanges = []

/-- The histories of a router from its start. -/
def Reaches (ρ : Router) (history : List (Event × Answer)) (s : State ρ) : Prop :=
  ∃ start : State ρ, Started ρ start ∧ Trace.Runs step start history s

end Recursant.Gateway
