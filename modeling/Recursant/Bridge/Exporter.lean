import Recursant.Bridge.Adapter
import Recursant.Lib.Trace
import Recursant.Text

/-!
# The gateway bridge

An adapter for one registered task, session and branch.  It adds the registration's headers to the
requests of its session and queues its events for a worker, which posts them one at a time.  An event
that cannot be queued or posted is counted, and the count goes with every payload that the worker takes
later.  The sections under the lock are the steps; a post ends with the status the router answered,
or with none.
-/

namespace Recursant.Bridge

/-! ## Text -/

/-- The bytes of a code point; surrogates have none. -/
def utf8Char (c : Nat) : Option Text :=
  if c < 0x80 then some [c.toUInt8]
  else if c < 0x800 then some [(0xC0 + c / 64).toUInt8, (0x80 + c % 64).toUInt8]
  else if 0xD800 ≤ c ∧ c ≤ 0xDFFF then none
  else if c < 0x10000 then
    some [(0xE0 + c / 4096).toUInt8, (0x80 + c / 64 % 64).toUInt8, (0x80 + c % 64).toUInt8]
  else if c < 0x110000 then
    some [(0xF0 + c / 262144).toUInt8, (0x80 + c / 4096 % 64).toUInt8,
      (0x80 + c / 64 % 64).toUInt8, (0x80 + c % 64).toUInt8]
  else none

/-- `s.encode('utf-8')` -/
def utf8 (s : Str) : Option Text := (s.mapM utf8Char).map List.flatten

/-! ## Registration -/

def isHex (s : Str) : Bool := s.all fun c => (48 ≤ c && c ≤ 57) || (97 ≤ c && c ≤ 102)

/-- The scope of a bridge and the generation that the router opened for it. -/
structure Registration where
  task : Str
  session : Str
  branch : Str
  generation : Str
  taskOk : isToken 63 task = true
  sessionOk : isToken 63 session = true
  branchOk : isToken 63 branch = true
  generationOk : generation.length = 32 ∧ isHex generation = true

/-- `known_scope` -/
def Registration.known (scope : Registration) : List (Str × Str) :=
  [("X-Recursant-generation", scope.generation), ("X-Recursant-branch", scope.branch),
    ("X-Recursant-task-id", scope.task), ("X-Recursant-session-id", scope.session)]

/-! ## State -/

/-- An event as it is posted, with the count of losses known when the worker took it. -/
structure Sent where
  event : Event
  sequence : Nat
  dropped : Nat
  deriving DecidableEq

structure Payload where
  revision : Nat
  event : Sent
  deriving DecidableEq

/-- `inflight` is the payload that the worker posts; `running` until its thread ends. -/
structure GatewayBridge extends Adapter where
  scope : Registration
  capacity : Nat
  queue : List Payload
  pendingLoss : Option Event
  sequence : Nat
  dropped : Nat
  closed : Bool
  inflight : Option Payload
  running : Bool

def GatewayBridge.init (endpoint : Value) (contentEnabled : Bool) (scope : Registration)
    (capacity : Nat) : GatewayBridge :=
  { Adapter.init endpoint contentEnabled with
    scope, capacity, queue := [], pendingLoss := none, sequence := 0, dropped := 0,
    closed := false, inflight := none, running := true }

/-- What `emit` made of an event of the scope. -/
structure Emission where
  sequence : Nat
  event : Event
  lost : Bool
  deriving DecidableEq

/-- What a step did, as far as it can be told from outside. -/
inductive Report where
  | called (returned : Option Request) (raised : Bool) (emissions : List Emission)
  | took (payload : Payload)
  | ended (payload : Payload) (status : Option Nat)
  | discarded (payloads : List Payload)
  | idle

namespace GatewayBridge

/-! ## Export -/

def isExportable (attempt : Option Str) : Bool := attempt.any (isToken 128)

/-- The metadata-only event for a loss of a known invocation. -/
def lossMarker (k : Identity) (attempt : Str) : Event :=
  { kind := .invalidation, attempt := some attempt, association := .ambiguous,
    routingEligible := false, identity := some k }

/-- `_record_loss` -/
def recordLoss (b : GatewayBridge) (event : Event) : GatewayBridge :=
  { b with
    dropped := b.dropped + 1
    pendingLoss :=
      match event.identity, event.attempt.filter (isToken 128) with
      | some k, some attempt => some (lossMarker k attempt)
      | _, _ => b.pendingLoss }

/-- The names of the segments that an event of the kind may expose. -/
def allowed : Kind → List Str
  | .tool => ["tool_result"]
  | _ => ["assistant_plan", "reasoning"]

/-- The text of the event is absent, or whole short segments of the allowed names. -/
def validText (event : Event) : Bool :=
  match event.text with
  | none => true
  | some text =>
      let truncated := event.textTruncated.getD []
      !text.isEmpty && text.all (fun p => (allowed event.kind).contains p.1) &&
        truncated.all (fun p => (text.get? p.1).isSome) &&
        text.all fun p => (utf8 p.2).any (fun bytes => 0 < bytes.length && bytes.length ≤ 1024) &&
          !p.2.contains 0 && truncated.get? p.1 = some false

/-- `emit`; nothing is said of an event of another task or session. -/
def emit (b : GatewayBridge) (event : Event) : Option Emission × GatewayBridge :=
  if event.identity.any fun k => k.taskId ≠ b.scope.task || k.sessionId ≠ b.scope.session then
    (none, b)
  else
    let b := { b with sequence := b.sequence + 1 }
    let lost := (some ⟨b.sequence, event, true⟩, b.recordLoss event)
    if event.identity.isNone || !isExportable event.attempt || !validText event then lost
    else if b.closed then lost
    else if b.capacity ≤ b.queue.length then lost
    else
      (some ⟨b.sequence, event, false⟩,
        { b with queue := b.queue ++ [⟨b.sequence, ⟨event, b.sequence, b.dropped⟩⟩] })

def emitAll : GatewayBridge → List Event → List Emission × GatewayBridge
  | b, [] => ([], b)
  | b, event :: events =>
      let (emission, b) := b.emit event
      let (emissions, b) := b.emitAll events
      (emission.toList ++ emissions, b)

/-- The adapter's part of a callback, whose events are exported. -/
def handOn (b : GatewayBridge) (a : Adapter) (events : List Event) :
    List Emission × GatewayBridge :=
  { b with toAdapter := a }.emitAll events

/-! ## Callbacks -/

/-- The occurrence is a reserved name with another value than the scope's. -/
def conflicts (lower : Str → Str) (scope : Registration) (name : Name) (value : Value) : Bool :=
  Adapter.reserved lower name &&
    !scope.known.any fun e => lower e.1 = lower name.shown && value.eq (.str e.2)

/-- Two occurrences are of one name, or one conflicts. -/
def conflicting (lower : Str → Str) (scope : Registration) (pairs : List (Name × Value)) : Bool :=
  !decide (pairs.map fun p => lower p.1.shown).Nodup ||
    pairs.any fun p => conflicts lower scope p.1 p.2

def scopeHeaders (scope : Registration) : List (Name × Value) :=
  scope.known.map fun e => (.str e.1, .str e.2)

/-- The caller's other headers, the scope, and a second generation that no request may have. -/
def fenceHeaders (lower : Str → Str) (scope : Registration) (supplied : Dict Name Value) :
    Dict Name Value :=
  let headers := supplied.filter fun e => !Adapter.reserved lower e.1
  (Dict.update headers (scopeHeaders scope)).set "x-recursant-generation" (.str "bridge conflict")

/-- The headers with what they lack of the scope. -/
def completeHeaders (lower : Str → Str) (scope : Registration) (headers : Dict Name Value) :
    Dict Name Value :=
  let present := headers.map fun e => lower e.1.shown
  Dict.update headers ((scopeHeaders scope).filter fun e => !present.contains (lower e.1.shown))

def request (lower : Str → Str) (b : GatewayBridge) (r : Request) (c : Context) (token : Str) :
    Report × GatewayBridge :=
  if !c.baseUrl.eq b.endpoint then
    let (answer, a) := b.toAdapter.request lower r c token
    let (emissions, b) := b.handOn a answer.events
    (.called answer.returned answer.raised emissions, b)
  else if !c.taskId.eq (.str b.scope.task) || !c.sessionId.eq (.str b.scope.session) then
    (.called none false [], b)
  else
    match r.extraHeaders with
    | .failing => (.called none true [], b)
    | .malformed =>
        let (events, a) := b.toAdapter.invalidate (identity c)
        let (emissions, b) := b.handOn a events
        (.called none true emissions, b)
    | .pairs items =>
        let supplied : Dict Name Value := .ofPairs items
        if conflicting lower b.scope items then
          let (events, a) := b.toAdapter.invalidate (identity c)
          let (emissions, b) := b.handOn a events
          let headers := fenceHeaders lower b.scope supplied
          (.called (some { r with extraHeaders := .pairs headers }) false emissions,
            { b with dropped := b.dropped + 1 })
        else
          let (answer, a) :=
            b.toAdapter.request lower { r with extraHeaders := .pairs supplied } c token
          let (emissions, b) := b.handOn a answer.events
          match answer.returned.map Request.extraHeaders with
          | some (Headers.pairs headers) =>
              let headers := completeHeaders lower b.scope headers
              (.called (some { r with extraHeaders := .pairs headers }) false emissions, b)
          | _ =>
              -- Incomplete correlation keeps the scope; the attempt is not made up.
              let headers := completeHeaders lower b.scope supplied
              (.called (some { r with extraHeaders := .pairs headers }) false emissions,
                { b with dropped := b.dropped + 1 })

/-- A callback that the bridge inherits. -/
def inherited (b : GatewayBridge) (result : Answer × Adapter) : Report × GatewayBridge :=
  let (emissions, b) := b.handOn result.2 result.1.events
  (.called result.1.returned result.1.raised emissions, b)

/-! ## The worker -/

/-- The first section of the worker's loop: the next payload, or the marker of a loss once the queue
is empty. -/
def take (b : GatewayBridge) : Report × GatewayBridge :=
  if !b.running || b.inflight.isSome then (.idle, b)
  else if b.closed then (.idle, { b with running := false })
  else
    match b.queue, b.pendingLoss with
    | payload :: queue, _ =>
        -- Losses since the payload was queued show on it.
        let payload := { payload with event := { payload.event with dropped := b.dropped } }
        (.took payload, { b with queue, inflight := some payload })
    | [], some event =>
        let sequence := b.sequence + 1
        let payload : Payload := ⟨sequence, ⟨event, sequence, b.dropped⟩⟩
        (.took payload, { b with sequence, pendingLoss := none, inflight := some payload })
    | [], none => (.idle, b)

/-- The second section: the post ended.  An exception that the worker does not catch ends it. -/
def finish (b : GatewayBridge) (status : Option Nat) (uncaught : Bool) : Report × GatewayBridge :=
  match b.inflight with
  | none => (.idle, b)
  | some payload =>
      let b := { b with inflight := none, running := b.running && !uncaught }
      (.ended payload status,
        if status ≠ some 202 ∧ payload.event.event.kind ≠ .invalidation then
          b.recordLoss payload.event.event
        else b)

def close (b : GatewayBridge) : Report × GatewayBridge :=
  (.discarded b.queue,
    b.queue.foldl (fun b payload => b.recordLoss payload.event.event)
      { b with closed := true, queue := [] })

end GatewayBridge

/-! ## Steps -/

inductive Action where
  | call (call : Call)
  | take
  | finish (status : Option Nat) (uncaught : Bool)
  | close

def bridgeStep (lower : Str → Str) (b : GatewayBridge) : Action → Report × GatewayBridge
  | .call (.request r c token) => b.request lower r c token
  | .call (.response c) => b.inherited (b.toAdapter.response c)
  | .call (.tool c) => b.inherited (b.toAdapter.tool c)
  | .call (.error c) => b.inherited (b.toAdapter.error c)
  | .take => b.take
  | .finish status uncaught => b.finish status uncaught
  | .close => b.close

end Recursant.Bridge
