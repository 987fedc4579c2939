import Recursant.Gateway.Exchange

/-!
# Context events

`rc_gateway_event`: opening and closing registered scopes, harness hints and labels, and source
events; and the judge, which is asked before the gateway lock is taken.
-/

namespace Recursant.Gateway

open Attempts (AttemptHeaders)
open Compliance (Runtime gate)

variable {ρ : Router}

/-! ## Close -/

/-- `/v1/context/close`. -/
def close (body : Json) (now : Nat) (g : GatewayContext ρ.settings.count) :
    Nat × GatewayContext ρ.settings.count :=
  match token body "generation" 32, token body "branch" 63 with
  | some generation, some branch =>
      if !keys body "|generation||branch|" then (400, g)
      else
        match g.scopeFind generation branch with
        | none => (403, g)
        | some i => if (g.scopes i).inflight then (409, g) else (200, g.scopeReclaim i now)
  | _, _ => (400, g)

/-! ## Open -/

def hexDigit (n : Nat) : Byte := (if n < 10 then 48 + n else 87 + n).toUInt8

/-- `%016llx`. -/
def hex16 (n : Nat) : Text := (List.range 16).reverse.map fun k => hexDigit (n / 16 ^ k % 16)

/-- Server-unique: the boot entropy and a counter. -/
def generationName (boot n : Nat) : Text := hex16 boot ++ hex16 n

/-- A slot for a registered scope: an unused one while their share lasts, else that of the scope idle
for longest. -/
def registeredSlot (now : Nat) (g : GatewayContext ρ.settings.count) :
    Option Slot × GatewayContext ρ.settings.count :=
  let registered := slots.countP fun i => (g.scopes i).isOpen && !(g.scopes i).implicit
  let unused := slots.find? fun i => !(g.scopes i).isOpen
  g.vacantSlot ρ.settings.ttl now false (unused.filter fun _ => registered < explicitScopes)

def register (i : Slot) (task session branch : Text) (now : Nat)
    (g : GatewayContext ρ.settings.count) : GatewayContext ρ.settings.count :=
  let generation := generationName g.boot (g.generations + 1)
  { g with
    generations := g.generations + 1
    opened := g.opened + 1
    scopes := Function.update g.scopes i { g.scopes i with
      isOpen := true
      active := now
      task, session, branch, generation
      serial := g.opened + 1
      lastRow := none
      evidenceRow := none
      key := ⟨ρ.settings.tenant, ρ.settings.project, generation, branch, "trajectory",
        "aggregate"⟩ } }

/-- `/v1/context/open`; the generation is answered. -/
def openScope (body : Json) (now : Nat) (g : GatewayContext ρ.settings.count) :
    (Nat × Option Text) × GatewayContext ρ.settings.count :=
  match token body "task_id" 63, token body "session_id" 63, token body "branch" 63 with
  | some task, some session, some branch =>
      if !keys body "|task_id||session_id||branch|" then ((400, none), g)
      else if slots.any fun i => (g.scopes i).isOpen && (g.scopes i).task = task &&
          (g.scopes i).session = session && (g.scopes i).branch = branch then ((409, none), g)
      else
        match registeredSlot now g with
        | (none, g) => ((503, none), g)
        | (some i, g) =>
            if g.generations = uint64Max then ((503, none), g)
            else
              let g := register i task session branch now g
              ((201, some (g.scopes i).generation), g)
  | _, _, _ => ((400, none), g)

/-! ## Hints and labels -/

/-- The label is kept for good; a full table refuses a new one. -/
def addLabel (session : Text) (labels : List Text) : Option (List Text) :=
  if labels.contains session then some labels
  else if labels.length < maxLabels then some (labels ++ [session])
  else none

/-- Open sessions of the ident become private. -/
def restrictSessions (session : Text) (g : GatewayContext ρ.settings.count) :
    GatewayContext ρ.settings.count :=
  { g with scopes := fun i =>
      let s := g.scopes i
      if s.isOpen && s.implicit && s.ident = session then { s with privateOnly := true } else s }

/-- A hint replaces the session's own, takes a free slot, or replaces the oldest. -/
def addHint (hint : Hint) (hints : List Hint) : List Hint :=
  match hints.findIdx? fun other => other.session = hint.session with
  | some k => hints.set k hint
  | none =>
      if hints.length < maxHints then hints ++ [hint]
      else
        let oldest := (List.range hints.length).foldl (fun oldest k =>
          if ((hints[k]?).map Hint.at_).getD 0 < ((hints[oldest]?).map Hint.at_).getD 0 then k
          else oldest) 0
        hints.set oldest hint

/-- A well-formed hint: the session, the role (`true` for a leaf) and whether it restricts. -/
def parseHint (body : Json) : Option (Text × Option Bool × Bool) := do
  let session ← token body "session_id" 128
  let leaf := eq body "role" "leaf"
  let restricted := eq body "data" "restricted"
  guard (keys body "|session_id||role||parent_session_id||data|" &&
    ((body.get? "role").isSome || (body.get? "data").isSome) &&
    ((body.get? "role").isNone || leaf || eq body "role" "orchestrator") &&
    ((body.get? "data").isNone || restricted) &&
    ((body.get? "parent_session_id").isNone || (token body "parent_session_id" 128).isSome))
  return (session, (body.get? "role").map fun _ => leaf, restricted)

/-- The part of a hint that restricts. -/
def restrictHint (session : Text) (restricted : Bool) (g : GatewayContext ρ.settings.count) :
    Option (GatewayContext ρ.settings.count) :=
  if restricted then
    (addLabel session g.labels).map fun labels => restrictSessions session { g with labels }
  else some g

/-- `/v1/context/hint`. -/
def hint (body : Json) (now : Nat) (g : GatewayContext ρ.settings.count) :
    Nat × GatewayContext ρ.settings.count :=
  if !ρ.settings.implicit then (404, g)
  else
    match parseHint body with
    | none => (400, g)
    | some (session, role, restricted) =>
        match restrictHint session restricted g with
        | none => (503, g)
        | some g =>
            (202, { g with hints := match role with
              | none => g.hints
              | some leaf => addHint ⟨session, now, leaf⟩ g.hints })

/-! ## Source events -/

def commonEventKeys : Text :=
  text "|schema||kind||task_id||session_id||turn_id||api_request_id||attempt||sequence||dropped|" ++
  text "|upstream_gaps||association||routing_eligible||association_scope|" ++
  text "|physical_routing_eligible||physical_attempt_uniqueness|"

def eventKeys (tool : Bool) : Text :=
  commonEventKeys ++
    if tool then text "|tool_call_id||status||text||text_truncated|"
    else text "|stream_association||text||text_truncated|"

/-- The association a source event must claim, no more and no less. -/
def associationOk (event : Json) (tool : Bool) : Bool :=
  (tool || eq event "kind" "response") && eq event "upstream_gaps" "unknown" &&
    eq event "association" "exact" && event.get? "routing_eligible" = some (.bool true) &&
    eq event "association_scope" "middleware_invocation" &&
    event.get? "physical_routing_eligible" = some (.bool false) &&
    eq event "physical_attempt_uniqueness" "unproven" &&
    (tool || eq event "stream_association" "unsupported")

def eventHeaders (event : Json) : Option AttemptHeaders := do
  let task ← token event "task_id" 128
  let session ← token event "session_id" 128
  let turn ← token event "turn_id" 128
  let request ← token event "api_request_id" 128
  let attempt ← token event "attempt" 128
  return ⟨![task, session, turn, request, attempt], 31, false⟩

/-- The one mirror row with the event's headers; two are a conflict. -/
def eventRow (rows : List Physical) (h : AttemptHeaders) : Except Nat Nat :=
  match (List.range rows.length).filter fun k =>
      rows[k]?.any fun r => r.inUse && sameHeaders h r.headers with
  | [] => .error 403
  | [k] => .ok k
  | _ => .error 409

/-- Which observed call a tool event reports on. -/
def eventCallback (s : Scope) (event : Json) : Except Nat Nat :=
  let id := (event.get? "tool_call_id").filter fun v => v.text?.any fun t =>
    t ≠ [] && t.length ≤ 128
  match id.filter fun _ =>
      [text "ok", text "success", text "error", text "blocked", text "cancelled",
        text "unknown"].any (eq event "status") with
  | none => .error 400
  | some id =>
      let calls := (s.observedCalls.map Json.elements).getD []
      let found := (List.range calls.length).reverse.find? fun k =>
        ((calls[k]?).bind (·.get? "id")).any id.equal
      match found.filter fun _ => s.boundary.isSome with
      | none => .error 403
      | some k => if s.callbackSeen.contains k then .error 409 else .ok k

/-- One text of an event: short, whole, without an embedded NUL. -/
def evidenceOk (truncated : Json) (k : Text) (v : Json) : Bool :=
  v.text?.any fun t => t ≠ [] && t.length ≤ 1024 && !t.contains 0 &&
    truncated.get? k = some (.bool false)

/-- The texts of an event that M2 is asked about; an event without texts is metadata only. -/
def eventEvidence (event : Json) (tool : Bool) : Option (List Text) :=
  match event.get? "text", event.get? "text_truncated" with
  | none, none => some []
  | some content, some truncated =>
      let allowed : Text := if tool then "|tool_result|" else "|assistant_plan||reasoning|"
      match content, truncated with
      | .object texts, .object marks =>
          if keys content allowed && keys truncated allowed && texts ≠ [] &&
              texts.length = marks.length &&
              texts.all fun (k, v) => evidenceOk truncated k v then
            some (texts.filterMap (fun (_, v) => v.text?) ++
              if tool then ((event.get? "status").bind Json.text?).toList else [])
          else none
      | _, _ => none
  | _, _ => none

def evidenceProbe (r : Runtime) (evidence : List Text) : Option Json :=
  Json.set? (.object []) "model" (r.config.privateModel.map .string) |>.bind fun probe =>
    probe.set? "messages" (some (.array (evidence.map fun t =>
      .object [("role", .string "user"), ("content", .string t)])))

/-- Source text that M2 would keep off a public destination restricts its scope. -/
def derivesPrivate (r : Runtime) (evidence : List Text) : Bool :=
  r.complianceEnabled &&
    match evidenceProbe r evidence with
    | none => true
    | some probe =>
        let gated := gate r probe .pub
        !gated.admitted || gated.endpoint ≠ .pub

/-- What the checks of an event find: its sequence, headers, row, callback and texts. -/
structure Evidence where
  sequence : Nat
  headers : AttemptHeaders
  row : Nat
  callback : Option Nat
  texts : List Text
  metadataOnly : Bool

def orElse {α : Type} (status : Nat) : Option α → Except Nat α
  | none => .error status
  | some a => .ok a

def check (p : Bool) (status : Nat) : Except Nat Unit := if p then .ok () else .error status

/-- The event reports losses, which end the ledger's exactness. -/
def eventLoss (event : Json) : Bool :=
  event.get? "dropped" ≠ some (.integer 0) || eq event "kind" "invalidation"

/-- The checks before the loss test. -/
def eventShape (s : Scope) (event : Json) (tool : Bool) : Except Nat Unit := do
  check (keys event (eventKeys tool)) 400
  check (eq event "schema" "recursant.context.v1" && eq event "task_id" s.task &&
    eq event "session_id" s.session) 403

/-- The checks after the loss test. -/
def eventEvidenceOf (g : GatewayContext ρ.settings.count) (i : Slot) (event : Json) (tool : Bool)
    (revision : Nat) : Except Nat Evidence := do
  let s := g.scopes i
  let sequence ← orElse 409 (integer event "sequence" 9007199254740991)
  check (revision > s.revision && sequence > s.sequence) 409
  check (associationOk event tool) 400
  let headers ← orElse 400 (eventHeaders event)
  let row ← eventRow g.rows headers
  check (((g.rows[row]?).bind Physical.scope) = some i) 403
  check (!s.inflight && (g.rows[row]?).any Physical.complete && s.lastRow = some row) 409
  let callback ← if tool then (eventCallback s event).map some else .ok none
  let texts ← orElse 400 (eventEvidence event tool)
  return ⟨sequence, headers, row, callback, texts,
    (event.get? "text").isNone && (event.get? "text_truncated").isNone⟩

/-- A newer revision clears the advice of the one before. -/
def supersede (revision : Nat) (s : Scope) : Scope :=
  if revision > s.revision then { s with evidenceRow := none, interpretation := {} } else s

/-- The authority that M2 on the event's texts leaves with the scope. -/
def deriveAuthority (r : Runtime) (i : Slot) (texts : List Text)
    (g : GatewayContext ρ.settings.count) : GatewayContext ρ.settings.count :=
  if derivesPrivate r texts then g.setScope i { g.scopes i with privateOnly := true } else g

/-- The accepted event. -/
def acceptEvidence (i : Slot) (e : Evidence) (revision now : Nat) (submitted : Bool)
    (g : GatewayContext ρ.settings.count) : Nat × GatewayContext ρ.settings.count :=
  let g := { g with
    ledger := Attempts.attemptSourceComplete g.ledger (some ρ.settings.authorization) e.headers now }
  match g.exact ρ.settings.authorization (some e.row) now with
  | (false, g) => (409, g)
  | (true, g) =>
      let s := g.scopes i
      let (status, contexts) := Context.put g.contexts s.key revision now ρ.settings.ttl
        "authorized source response" false
      let g := { g with contexts }
      if status ≠ .ok then (409, g)
      else
        (if e.metadataOnly || submitted then 202 else 503,
          g.setScope i { s with
            callbackSeen := (e.callback.toList) ++ s.callbackSeen
            revision
            sequence := e.sequence
            observed := now
            active := now
            evidenceRow := some e.row
            interpretation := {} })

/-- `/v1/context`; `submitted` is the worker's answer to the submission. -/
def ingest (r : Runtime) (body : Json) (now : Nat) (submitted : Bool)
    (g : GatewayContext ρ.settings.count) : Nat × GatewayContext ρ.settings.count :=
  match token body "generation" 32, token body "branch" 63,
      integer body "revision" 9007199254740991 with
  | some generation, some branch, some revision =>
      if !keys body "|generation||branch||revision||event|" then (400, g)
      else
        match g.scopeFind generation branch with
        | none => (403, g)
        | some i =>
            let g := g.setScope i (supersede revision (g.scopes i))
            let event := (body.get? "event").getD .null
            let tool := eq event "kind" "tool"
            match eventShape (g.scopes i) event tool with
            | .error status => (status, g)
            | .ok () =>
                if eventLoss event then (409, { g with ledger := Attempts.attemptLost g.ledger })
                else
                  match eventEvidenceOf g i event tool revision with
                  | .error status => (status, g)
                  | .ok e =>
                      acceptEvidence i e revision now submitted (deriveAuthority r i e.texts g)
  | _, _, _ => (400, g)

/-! ## The judge -/

/-- The deterministic signals leave the turn unclassified. -/
def unclassified (body : Json) : Bool :=
  ρ.neighbours.classify body ⟨1, false, false⟩ = 0 && !ρ.neighbours.recentFailure body

/-- Final M2 permits the request on the baseline's public destination. -/
def judgeable (r : Runtime) (body : Json) : Bool :=
  let b := (ρ.candidate ρ.settings.baseline).destination
  (body.set? "model" (some (.string b.model))).any fun probe =>
    let gated := gate r probe b.endpoint
    gated.admitted && gated.endpoint = .pub

/-- The judge is asked about the request. -/
def asks (r : Runtime) (automatic : Bool) (h : GatewayHeaders) (body : Json) (now : Nat)
    (g : GatewayContext ρ.settings.count) : Bool :=
  ρ.settings.judgeBreakerMs.isSome && automatic && ρ.settings.active &&
    unclassified (ρ := ρ) body && judgeable (ρ := ρ) r body &&
    !(ρ.settings.implicit && g.labelled h) && g.judgeOpenUntil ≤ now

/-- The breaker opens after three unusable answers in a row. -/
def recordJudgement (j : Judgement) (now : Nat) (g : GatewayContext ρ.settings.count) :
    GatewayContext ρ.settings.count :=
  if !j.attempted then g
  else if j.routine.isSome then { g with judgeFailures := 0 }
  else if g.judgeFailures + 1 ≥ 3 then { g with
    judgeFailures := 0
    judgeOpenUntil := now + ρ.settings.judgeBreakerMs.getD 0 }
  else { g with judgeFailures := g.judgeFailures + 1 }

end Recursant.Gateway
