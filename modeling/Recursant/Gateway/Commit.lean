import Recursant.Gateway.Placement

/-!
# The final checks

The second half of `prepare`: the cooldown move, the restricted override, the reasoning effort, final
M2, and the commitment of the scope, the candidate's capacity and the attempt.
-/

namespace Recursant.Gateway

open Compliance (Gated)

variable {ρ : Router} (c : Call) (vetting : Json → Endpoint → Gated)

/-! ## Before the gate -/

/-- An automatic request is moved off a cooling candidate when there is a target. -/
def leaveCooling (scope : Option Slot) : Prepare ρ Bool := do
  let p ← get
  match ρ.candidateOf p.endpoint (modelOf p.body) with
  | none => return false
  | some source =>
      if !(c.automatic && ρ.settings.active && p.gateway.cooling ρ source c.now) then return false
      else
        let restricted := p.gateway.mustBePrivate ρ.settings.implicit scope c.headers
        match failOver ρ p.gateway vetting scope restricted p.body source 0 c.now with
        | none => return false
        | some (body, endpoint) =>
            modify fun p => { p with body, endpoint }
            modifyTicket fun t => { t with reason := "cooldown", cost := none }
            return true

/-- The destination that the checks below compare with; an unscoped request has none. -/
def requested (scope : Option Slot) : Prepare ρ (Option (Endpoint × Text)) := do
  if scope.isNone then return none
  else
    let p ← get
    match (modelOf p.body).filter (·.length ≤ 128) with
    | none => throw 403
    | some model => return some (p.endpoint, model)

/-- A restricted request is never public: an explicit alias is refused, an automatic request goes to
the private model. -/
def restrict (scope : Option Slot) : Prepare ρ Unit := do
  let p ← get
  if p.gateway.mustBePrivate ρ.settings.implicit scope c.headers then
    if !c.automatic then ensure (p.endpoint = .priv) 403
    else
      modify fun p => { p with endpoint := .priv }
      setModel ρ.runtime.config.privateModel
      modifyTicket fun t => { t with reason := "restricted", cost := none }

/-- The effort of the step, unless the request was moved to another candidate meanwhile. -/
def askEffort (scope : Option Slot) (step : EffortStep ρ) : Prepare ρ Unit := do
  match scope, step with
  | some i, some (high, k) =>
      let p ← get
      if ρ.candidateOf p.endpoint (modelOf p.body) = some k then
        let (added, body) :=
          addEffort (ρ.candidate k) high (ρ.settings.reasoning = .steps) p.body
        modify fun p => { p with body }
        work i fun s => { s with reasoningAdded := added }
  | _, _ => pure ()

/-! ## The gate -/

def finalGate : Prepare ρ Unit := do
  let p ← get
  let gated := vetting p.body p.endpoint
  modify fun p => { p with
    body := gated.body
    endpoint := gated.endpoint
    vetted := ⟨p.body, p.endpoint,
      p.ticket.scope.bind fun i => (p.gateway.scopes i).reasoningAdded⟩ }
  ensure gated.admitted 403

/-! ## After the gate -/

/-- At the session's budget only a free destination is left. -/
def checkSpend (scope : Option Slot) (spend : Rat) : Prepare ρ Unit := do
  if scope.isSome && ρ.settings.budget.sessionUsd > 0 && spend ≥ 1 then
    let p ← get
    ensure ((ρ.candidateOf p.endpoint (modelOf p.body)).any fun i => (ρ.candidate i).zeroPrice) 429

/-- An explicit alias and a session at a tool boundary are not retargeted, and a pinned session
stays with its owner. -/
def consistent (automatic healthMoved : Bool) (request : Option (Endpoint × Text)) (s : Scope)
    (endpoint : Endpoint) (model : Text) : Bool :=
  let owned := decide (endpoint = s.endpoint) && decide (model = s.model)
  let bound := s.requirements ≠ 0 && s.owner
  ((automatic && !bound) || request = some (endpoint, model)) &&
    (automatic || !bound || owned) && (!(s.pinned && s.owner && !healthMoved) || owned)

/-- The scope while its exchange is in flight. -/
def commitScope (body : Json) (now : Nat) (endpoint : Endpoint) (model : Text) (s : Scope) : Scope :=
  let s := { s with
    endpoint, model
    owner := true
    active := now
    awaitingDelegates := false
    boundary := none
    observedCalls := none
    callbackSeen := [] }
  if s.pinned then { s with history := none }
  else { s with
    pending := body.get? "messages"
    requestMessages := (elementsAt body "messages").length
    pendingTools := body.get? "tools"
    pendingChoice := body.get? "tool_choice"
    pendingParallel := body.get? "parallel_tool_calls" ≠ some (.bool false)
    pinned := (body.get? "messages").isNone }

/-- The scope takes the exchange on. -/
def takeOn (i : Slot) : Prepare ρ Unit :=
  modifyGateway fun g => g.setScope i { g.scopes i with inflight := true }

def commit (scope : Option Slot) (healthMoved : Bool) (request : Option (Endpoint × Text)) :
    Prepare ρ Unit := do
  match scope with
  | none => pure ()
  | some i =>
      let p ← get
      match (modelOf p.body).filter (·.length ≤ 128) with
      | none => throw 403
      | some model =>
          ensure (consistent c.automatic healthMoved request (p.gateway.scopes i) p.endpoint model)
            403
          work i (commitScope p.body c.now p.endpoint model)
          takeOn i

/-- Every dispatch to a limited candidate's model is counted. -/
def countDispatch : Prepare ρ Unit :=
  modify fun p =>
    match ρ.indices.find? fun i => (ρ.candidate i).maxInflight ≠ 0 &&
        (ρ.candidate i).destination.endpoint = p.endpoint &&
        modelOf p.body = some (ρ.candidate i).destination.model with
    | none => p
    | some i => { p with
        gateway := { p.gateway with
          inflight := Function.update p.gateway.inflight i (p.gateway.inflight i + 1) }
        ticket := { p.ticket with capacity := some i } }

def setRow (rows : List Physical) (k : Nat) (r : Physical) : List Physical :=
  if k < rows.length then rows.set k r else rows ++ [r]

/-- The attempt begins; a tracked one gets the mirror row, without which it is a loss. -/
def beginAttempt (freeRow : Option Nat) : Prepare ρ Unit := fun p =>
  let ((result, id), ledger) := Attempts.attemptBegin p.gateway.ledger
    (some ρ.settings.authorization) c.headers.invocation c.now true
  let g := { p.gateway with ledger }
  let t := { p.ticket with id, begun := true }
  .ok () <|
    match result, id, freeRow with
    | .tracked, some id, some k => { p with
        gateway := { g with
          rows := setRow g.rows k ⟨c.headers.invocation, id, t.scope, false, true, false, c.now⟩ }
        ticket := { t with row := some k } }
    | .tracked, _, none => { p with
        gateway := { g with ledger := Attempts.attemptLostAt g.ledger c.now }
        ticket := t }
    | _, _, _ => { p with gateway := g, ticket := t }

/-- The scope remembers the row of its exchange. -/
def recordRow (scope : Option Slot) : Prepare ρ Unit := do
  match scope with
  | none => pure ()
  | some i =>
      let row := (← get).ticket.row
      work i fun s => { s with lastRow := row }

/-! ## The whole -/

def startTicket : Prepare ρ Unit :=
  modifyTicket fun _ =>
    { Ticket.fresh with reason := if c.automatic then "baseline" else "fixed" }

/-- Everything up to the gate: the request's scope, its destination and what the checks after the
gate need. -/
structure Placed where
  freeRow : Option Nat
  scope : Option Slot
  spend : Rat
  healthMoved : Bool
  request : Option (Endpoint × Text)

def enter : Prepare ρ (Option Nat) := do
  startTicket c
  modifyGateway fun g => g.pollLocked ρ.settings.authorization c.now c.polled
  rateLimit c
  let freeRow ← capacityFence c
  diagnosticFence c
  return freeRow

/-- The effort step and the spend of a scoped request. -/
def placeScoped : Option Slot → Prepare ρ (EffortStep ρ × Rat)
  | none => return (none, 0)
  | some i => do
      let spend := spendOf (ρ := ρ) (← scopeAt i)
      contract i
      let effort ← if c.automatic then placeAutomatic c vetting i spend else pure none
      return (effort, spend)

def settle (freeRow : Option Nat) (scope : Option Slot) : Prepare ρ Placed := do
  let (effort, spend) ← placeScoped c vetting scope
  let healthMoved ← leaveCooling c vetting scope
  let request ← requested scope
  restrict c scope
  askEffort scope effort
  return ⟨freeRow, scope, spend, healthMoved, request⟩

def conclude (placed : Placed) : Prepare ρ Unit := do
  checkSpend placed.scope placed.spend
  commit c placed.scope placed.healthMoved placed.request
  countDispatch
  beginAttempt c placed.freeRow
  recordRow placed.scope

/-- `prepare`. -/
def prepare : Prepare ρ Unit := do
  let freeRow ← enter c
  let scope ← resolve c vetting
  let placed ← settle c vetting freeRow scope
  finalGate vetting
  conclude c placed

end Recursant.Gateway
