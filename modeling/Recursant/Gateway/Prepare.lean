import Recursant.Gateway.Sessions

/-!
# Placing a request

`rc_gateway_prepare` under the gateway lock: the steps in the order of the source, as actions on the
gateway, the request body, its endpoint and its ticket.  An action stops with the status of the
denial; what it changed before stays changed.
-/

namespace Recursant.Gateway

open Compliance (Runtime Verdict Gated gateWith)

/-! ## Final M2 -/

/-- The dispatch gate over a verdict function. -/
def vet (r : Runtime) (verdict : Json → Option Text → Verdict) (body : Json)
    (endpoint : Endpoint) : Gated :=
  if !r.complianceEnabled then ⟨true, body, endpoint⟩
  else if r.policy.isNone then ⟨false, body, endpoint⟩
  else gateWith r verdict body endpoint

/-- `permits`: final M2 lets a copy of the body go to the destination unchanged. -/
def permits (vetting : Json → Endpoint → Gated) (body : Json) (a : Alias) : Bool :=
  match body.set? "model" (some (.string a.model)) with
  | none => false
  | some probe =>
      let gated := vetting probe a.endpoint
      gated.admitted && gated.endpoint = a.endpoint && eq gated.body "model" a.model

/-! ## Reasoning effort -/

def Family.field : Family → Text
  | .openai => "reasoning_effort"
  | .openrouter => "reasoning"
  | .vllmThinking => "chat_template_kwargs"

def Family.value (f : Family) (t : Text) : Json :=
  match f with
  | .openai => .string t
  | .openrouter => .object [("effort", .string t)]
  | .vllmThinking => .object [("enable_thinking", .bool (t = text "on"))]

/-- The request sets the destination's own control already. -/
def Family.controlled (f : Family) (body : Json) : Bool :=
  match f with
  | .vllmThinking => (body.get? "chat_template_kwargs").isSome
  | _ => (body.get? "reasoning_effort").isSome || (body.get? "reasoning").isSome

/-- In "steps" mode the harness's own effort fields go first. -/
def clearEffort (f : Family) (override : Bool) (body : Json) : Json :=
  if override && f ≠ .vllmThinking then (body.del "reasoning_effort").del "reasoning" else body

/-- `add_effort`: the family whose field was added, and the body with it. -/
def addEffort (c : Candidate) (high override : Bool) (body : Json) : Option Family × Json :=
  match c.effortsBySignal with
  | none => (none, body)
  | some efforts =>
      let t := if high then efforts.high else efforts.low
      if t = [] then (none, body)
      else
        let body := clearEffort efforts.family override body
        if efforts.family.controlled body then (none, body)
        else
          match body.set? efforts.family.field (some (efforts.family.value t)) with
          | none => (none, body)
          | some body => (some efforts.family, body)

/-- `remove_effort`. -/
def removeEffort (body : Json) : Option Family → Json
  | none => body
  | some f => body.del f.field

/-! ## Failover targets -/

section Targets

variable (ρ : Router) (g : GatewayContext ρ.settings.count) (vetting : Json → Endpoint → Gated)

/-- What a failover target must be before it is vetted: `largerThan` is the context limit that an
overflow exceeded, zero for any other failure. -/
def failoverClass (source : ρ.Index) (largerThan : Nat) (i : ρ.Index) : Bool :=
  let recovery := (ρ.candidate i).qualified taskRecovery
  if largerThan ≠ 0 then
    (ρ.candidate i).contextLimit > largerThan && (i = ρ.settings.baseline || recovery)
  else if source = ρ.settings.baseline then recovery
  else i = ρ.settings.baseline

/-- `failover_target`. -/
def failoverTarget (scope : Option Slot) (restricted : Bool) (body : Json) (source : ρ.Index)
    (largerThan now : Nat) : Option ρ.Index :=
  Scan.best
    (fun i => i ≠ source && !g.cooling ρ i now && !g.full ρ i &&
      failoverClass ρ source largerThan i &&
      (!restricted || (ρ.candidate i).destination.endpoint = .priv) &&
      (scope.all fun j => i = ρ.settings.baseline ||
        (ρ.candidate i).declares (g.scopes j).requirements (g.scopes j).effort) &&
      permits vetting body (ρ.candidate i).destination)
    (fun i j => (ρ.candidate i).rankCost < (ρ.candidate j).rankCost) ρ.indices

/-- `fail_over`: the body readdressed to the target. -/
def failOver (scope : Option Slot) (restricted : Bool) (body : Json) (source : ρ.Index)
    (largerThan now : Nat) : Option (Json × Endpoint) :=
  match failoverTarget ρ g vetting scope restricted body source largerThan now with
  | none => none
  | some i =>
      let a := (ρ.candidate i).destination
      (body.set? "model" (some (.string a.model))).map fun body => (body, a.endpoint)

end Targets

/-! ## The action -/

/-- What final M2 was given, and the reasoning field that the body had been given before. -/
structure Vetted where
  body : Json
  endpoint : Endpoint
  effort : Option Family

/-- What `prepare` works on.  `vetted` is not in the source: it keeps what final M2 was given. -/
structure Prep (ρ : Router) where
  gateway : GatewayContext ρ.settings.count
  body : Json
  endpoint : Endpoint
  ticket : Ticket ρ.settings.count
  vetted : Vetted

abbrev Prepare (ρ : Router) := EStateM Nat (Prep ρ)

/-- What one call of `prepare` is given besides the state: the headers, the time it read under the
lock, the verdicts of its final M2, the judge's answer and the interpreter results it polls. -/
structure Call where
  automatic : Bool
  headers : GatewayHeaders
  now : Nat
  verdict : Json → Option Text → Verdict
  judged : Judgement
  polled : List InterpreterResult

section Actions

variable {ρ : Router}

def modifyGateway (f : GatewayContext ρ.settings.count → GatewayContext ρ.settings.count) :
    Prepare ρ Unit :=
  modify fun p => { p with gateway := f p.gateway }

def scopeAt (i : Slot) : Prepare ρ Scope := return (← get).gateway.scopes i

/-- Changes the working fields of a scope; who holds it is not among them. -/
def work (i : Slot) (f : Scope → Scope) : Prepare ρ Unit :=
  modifyGateway fun g =>
    g.setScope i { f (g.scopes i) with toHolder := (g.scopes i).toHolder }

def modifyTicket (f : Ticket ρ.settings.count → Ticket ρ.settings.count) : Prepare ρ Unit :=
  modify fun p => { p with ticket := f p.ticket }

/-- Denies the request unless the condition holds. -/
def ensure (p : Bool) (status : Nat) : Prepare ρ Unit := if p then pure () else throw status

/-- `json_object_set_new(body, "model", json_string(model))`. -/
def setModel (model : Option Text) : Prepare ρ Unit := fun p =>
  match p.body.set? "model" (model.map .string) with
  | none => .error 500 p
  | some body => .ok () { p with body }

/-- Addresses the request. -/
def place (a : Alias) : Prepare ρ Unit := do
  modify fun p => { p with endpoint := a.endpoint }
  setModel (some a.model)

def exactRow (row : Option Nat) (now : Nat) : Prepare ρ Bool := fun p =>
  let (answer, gateway) := p.gateway.exact ρ.settings.authorization row now
  .ok answer { p with gateway }

end Actions

/-! ## Entry -/

section Entry

variable {ρ : Router} (c : Call)

/-- `requests_per_minute` of the budget. -/
def rateLimit : Prepare ρ Unit := do
  if ρ.settings.budget.rpm ≠ 0 then
    modifyGateway fun g =>
      if g.rpmCount = 0 || c.now - g.rpmWindow ≥ 60000 then
        { g with rpmWindow := c.now, rpmCount := 0 }
      else g
    ensure ((← get).gateway.rpmCount < ρ.settings.budget.rpm) 429
    modifyGateway fun g => { g with rpmCount := g.rpmCount + 1 }

/-- The capacity fence: an unrecordable request is a windowed loss. -/
def capacityFence : Prepare ρ (Option Nat) := fun p =>
  let (freeRow, g) := p.gateway.rowSlot ρ.settings.attemptTtl c.now
  let (room, ledger) :=
    if freeRow.isSome then Attempts.attemptCapacity g.ledger c.now else (false, g.ledger)
  let h := c.headers.invocation
  let ledger :=
    if !room || h.invalid || h.mask ≠ 31 then Attempts.attemptLostAt ledger c.now else ledger
  .ok freeRow { p with gateway := { g with ledger } }

def unregistered : Bool := c.headers.generation = [] && c.headers.branch = []

section

local instance neZero_values : NeZero 5 := inferInstance

/-- Diagnostic identity may denote a registered workflow; it is a fence, never a join. -/
def diagnosticFence : Prepare ρ Unit := do
  let g := (← get).gateway
  ensure (!(unregistered c && slots.any fun i =>
    (g.scopes i).isOpen && !(g.scopes i).implicit &&
      ((g.scopes i).task = c.headers.invocation.values 0 ||
        (g.scopes i).session = c.headers.invocation.values 1))) 403

/-- The registered scope that the headers address. -/
def registeredScope : Prepare ρ (Option Slot) := do
  let g := (← get).gateway
  match if c.headers.invalid then none
    else g.scopeFind c.headers.generation c.headers.branch with
  | none => throw 403
  | some i =>
      ensure ((g.scopes i).task = c.headers.invocation.values 0 &&
        (g.scopes i).session = c.headers.invocation.values 1) 403
      ensure (!(g.scopes i).inflight) 409
      return some i

end

/-- The request opens like a housekeeping call and has no tools. -/
def housekeepingMarker (k : Housekeeping ρ.settings.count) (body : Json) : Bool :=
  (body.get? "tools").isNone &&
    ((((elementsAt body "messages").head?).bind (·.get? "content")).bind Json.text?).any
      fun t => k.markers.any fun marker => marker.isPrefixOf t

/-- Housekeeping is never a session; a restricted label wins.  The answer is whether it was
placed. -/
def housekeeping (vetting : Json → Endpoint → Gated) : Prepare ρ Bool := do
  match ρ.settings.housekeeping with
  | none => return false
  | some k =>
      let p ← get
      let a := (ρ.candidate k.candidate).destination
      if c.automatic && ρ.settings.active && housekeepingMarker k p.body &&
          !p.gateway.labelled c.headers && permits vetting p.body a then
        place a
        modifyTicket fun t => { t with reason := "housekeeping" }
        return true
      else return false

/-- The session of an unregistered automatic request. -/
def requestSession : Prepare ρ (Option Slot) := fun p =>
  if ρ.settings.implicit && c.automatic then
    let (slot, gateway) := p.gateway.implicitScope p.body c.headers c.now
    .ok slot { p with gateway }
  else .ok none p

/-- The scope of the request, if it has one. -/
def resolve (vetting : Json → Endpoint → Gated) : Prepare ρ (Option Slot) := do
  if !unregistered c || c.headers.invalid then registeredScope c
  else if ← housekeeping c vetting then return none
  else requestSession c

end Entry

/-! ## The scope's contract -/

section Contract

variable {ρ : Router} (c : Call) (i : Slot)

/-- `session_requests` of the budget. -/
def countRequest : Prepare ρ Unit := do
  let s ← scopeAt i
  ensure (ρ.settings.budget.sessionRequests = 0 ||
    s.requests < ρ.settings.budget.sessionRequests) 429
  work i fun s => { s with requests := s.requests + 1 }

/-- The sticky contract: a later request that differs from the first pins a profiled scope. -/
def bindContract (own : UInt32) (effort : Text) (projection : Json) (s : Scope) : Scope :=
  let profile := effort ≠ [] || own &&& (reqStreamTools ||| reqNestedSchemas) ≠ 0
  match s.contract with
  | none => { s with contract := some projection, profile, effort }
  | some contract =>
      if (s.profile || profile) && (!projection.equal contract || effort ≠ s.effort) then
        { s with pinned := true }
      else s

/-- Messages that a scope without a boundary can be replayed from. -/
def replayable (s : Scope) (messages : List Json) : Bool :=
  let history := (s.history.map Json.elements).getD []
  messages ≠ [] && messages.length ≤ 4096 && history.length < messages.length &&
    ((messages.zipIdx).all fun (m, k) =>
      match history[k]? with
      | some old =>
          if s.requirements &&& capHistory ≠ 0 then m.equal old
          else plainMessage m && plainMessage old &&
            ((m.get? "role").getD .null).equal ((old.get? "role").getD .null) &&
            ((m.get? "content").getD .null).equal ((old.get? "content").getD .null)
      | none =>
          plainMessage m &&
            (eq m "role" "user" || (k = 0 && !s.owner && eq m "role" "system"))) &&
    (jsonBytes ρ.jansson (.array messages)).any (· ≤ 4194304)

/-- Continuity of the scope: a boundary must be replayed completely, history must be extended. -/
def checkContinuity (own : UInt32) : Prepare ρ Unit := do
  let s ← scopeAt i
  let messages := elementsAt (← get).body "messages"
  let required := s.requirements ||| own
  match if s.pinned then none else s.boundary with
  | some boundary =>
      -- a request-stream session was found by this very replay
      let replay := if s.implicit then .complete else ρ.neighbours.replay boundary messages
      ensure (replay ≠ .incomplete || s.implicit) 409
      work i fun s => { s with
        pinned := s.pinned || replay ≠ .complete
        requirements := required ||| ρ.neighbours.boundaryRequirements boundary }
  | none =>
      work i fun s => { s with
        pinned := s.pinned || !replayable (ρ := ρ) s messages
        requirements := required }

/-- What a scoped request is held to before it is placed. -/
def contract : Prepare ρ Unit := do
  work i fun s => { s with reasoningAdded := none }
  modifyTicket fun t => { t with scope := some i }
  countRequest i
  let body := (← get).body
  let options := requestOptions ρ.jansson body
  let (own, effort) := options.getD (0, [])
  work i fun s =>
    let s := if s.implicit then { s with seenMessages := (elementsAt body "messages").length } else s
    if options.isNone then { s with pinned := true }
    else if s.pinned then s
    else bindContract own effort (contractProjection body) s
  checkContinuity i own

end Contract

end Recursant.Gateway
