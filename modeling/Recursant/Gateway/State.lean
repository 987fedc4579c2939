import Recursant.Context.Registry
import Recursant.Gateway.Settings

/-!
# The state of the gateway

The scope table, the data labels and hints, the mirror rows of the attempt ledger and the counters
of the candidates, with the functions that look things up in them.
-/

namespace Recursant.Gateway

open Attempts (AttemptHeaders AttemptId AttemptLedger)
open Context (Registry)

def scopeSlots : Nat := 160

def explicitScopes : Nat := 32

def maxLabels : Nat := 256

def maxHints : Nat := 64

def hintTtlMs : Nat := 600000

abbrev Slot := Fin scopeSlots

def slots : List Slot := List.finRange scopeSlots

/-! ## Scopes -/

/-- Who holds a scope and what authority it has.  `serial` is not in the source: it numbers the
times a scope was opened, so that a slot that is opened anew is another scope. -/
structure Holder where
  isOpen : Bool := false
  implicit : Bool := false
  task : Text := []
  session : Text := []
  branch : Text := []
  generation : Text := []
  ident : Text := []
  inflight : Bool := false
  privateOnly : Bool := false
  serial : Nat := 0
  deriving DecidableEq

/-- A result of the interpreter, with the key and revision it was submitted for. -/
structure InterpreterResult where
  generation : Text := []
  branch : Text := []
  revision : Nat := 0
  valid : Bool := false
  nextAction : Text := []
  difficultyBand : Text := []
  coverage : Text := []
  deriving DecidableEq

/-- `struct scope`; a zeroed slot is the default value. -/
structure Scope extends Holder where
  pinned : Bool := false
  owner : Bool := false
  endpoint : Endpoint := .priv
  model : Text := []
  history : Option Json := none
  pending : Option Json := none
  pendingTools : Option Json := none
  observedCalls : Option Json := none
  callbackSeen : List Nat := []
  boundary : Option Boundary := none
  requirements : UInt32 := 0
  pendingParallel : Bool := false
  pendingChoice : Option Json := none
  lastRow : Option Nat := none
  evidenceRow : Option Nat := none
  revision : Nat := 0
  sequence : Nat := 0
  observed : Nat := 0
  active : Nat := 0
  key : Context.Key := {}
  interpretation : InterpreterResult := {}
  usage : Option UsageObservation := none
  usageMessages : Nat := 0
  requestMessages : Nat := 0
  usageModel : Text := []
  turns : Nat := 0
  contract : Option Json := none
  profile : Bool := false
  effort : Text := []
  delegated : Bool := false
  anchor : UInt64 := 0
  seenMessages : Nat := 0
  awaitingDelegates : Bool := false
  contextFloor : Nat := 0
  reasoningAdded : Option Family := none
  spent : Rat := 0
  requests : Nat := 0

/-- A harness hint for one session. -/
structure Hint where
  session : Text
  at_ : Nat
  delegated : Bool
  deriving DecidableEq

/-- A mirror row of the ledger; a freed row is not in use. -/
structure Physical where
  headers : AttemptHeaders
  id : AttemptId
  scope : Option Slot
  complete : Bool
  inUse : Bool
  settled : Bool
  begun : Nat
  deriving DecidableEq

def Physical.free : Physical := ⟨AttemptHeaders.empty, ⟨(0, 0), 0⟩, none, false, false, false, 0⟩

/-- The outcomes of a candidate in its window and its cooldown deadline. -/
structure Outcome where
  window : Nat
  requests : Nat
  failures : Nat
  untilMs : Nat
  deriving DecidableEq

/-- `struct rc_gateway_context` for `count` candidates.  The rows beyond the used ones are not
stored; the labels are those set, in order.  `opened` numbers the scopes. -/
structure GatewayContext (count : Nat) where
  ledger : AttemptLedger
  contexts : Registry
  rows : List Physical
  scopes : Slot → Scope
  labels : List Text
  hints : List Hint
  boot : Nat
  generations : Nat
  inflight : Fin count → Nat
  outcome : Fin count → Outcome
  rpmWindow : Nat
  rpmCount : Nat
  shadowCapped : Bool
  shadowAcc : Rat
  shadowSpent : Rat
  shadowInflight : Nat
  judgeFailures : Nat
  judgeOpenUntil : Nat
  opened : Nat

/-- `rc_gateway_ticket`; `cost` is the estimate of a costed ticket. -/
structure Ticket (count : Nat) where
  id : Option AttemptId
  scope : Option Slot
  row : Option Nat
  begun : Bool
  finished : Bool
  capacity : Option (Fin count)
  reason : Text
  cost : Option Rat
  shadowed : Bool

def Ticket.fresh {count : Nat} : Ticket count :=
  ⟨none, none, none, false, false, none, [], none, false⟩

namespace GatewayContext

variable {count : Nat} (g : GatewayContext count)

def setScope (i : Slot) (s : Scope) : GatewayContext count :=
  { g with scopes := Function.update g.scopes i s }

/-! ## Lookups -/

/-- `scope_find`: the open registered scope of a generation and branch. -/
def scopeFind (generation branch : Text) : Option Slot :=
  slots.find? fun i => (g.scopes i).isOpen && !(g.scopes i).implicit &&
    (g.scopes i).generation = generation && (g.scopes i).branch = branch

/-- `labelled`: the request names a session the harness labelled restricted. -/
def labelled (h : GatewayHeaders) : Bool := (sessionIdent h).any g.labels.contains

/-- `must_be_private`: the session's own authority, or a label on a request without a session. -/
def mustBePrivate (implicit : Bool) (scope : Option Slot) (h : GatewayHeaders) : Bool :=
  match scope with
  | some i => (g.scopes i).privateOnly
  | none => implicit && g.labelled h

/-- `cooling`. -/
def cooling (ρ : Router) (g : GatewayContext ρ.settings.count) (i : ρ.Index) (now : Nat) : Bool :=
  ρ.settings.health.isSome && (g.outcome i).untilMs > now

/-- The candidate has a limit and as many requests running. -/
def full (ρ : Router) (g : GatewayContext ρ.settings.count) (i : ρ.Index) : Bool :=
  (ρ.candidate i).maxInflight ≠ 0 && g.inflight i ≥ (ρ.candidate i).maxInflight

/-! ## Reclaiming scopes -/

/-- `scope_reclaim`: rows of the slot are cut loose and the slot is zeroed. -/
def scopeReclaim (slot : Slot) (now : Nat) : GatewayContext count :=
  let s := g.scopes slot
  { g with
    contexts := if s.implicit then g.contexts else (Context.close g.contexts s.key now).2
    rows := g.rows.map fun r =>
      if r.inUse && r.scope = some slot then { r with scope := none } else r
    scopes := Function.update g.scopes slot {} }

/-- An open scope of the given kind that is idle past the ttl.  A registered one must not wait at a
tool boundary, and one with private authority is never timed out. -/
def idle (ttl now : Nat) (implicit : Bool) (i : Slot) : Bool :=
  let s := g.scopes i
  s.isOpen && s.implicit = implicit && !s.inflight && s.active ≤ now && now - s.active > ttl &&
    (implicit || (s.boundary.isNone && !s.privateOnly))

/-- `scope_idle`: the one that is idle for longest. -/
def scopeIdle (ttl now : Nat) (implicit : Bool) : Option Slot :=
  Scan.best (g.idle ttl now implicit) (fun i j => (g.scopes i).active < (g.scopes j).active) slots

/-- A slot for a new scope: an unused one, or that of the scope of its kind idle for longest. -/
def vacantSlot (ttl now : Nat) (implicit : Bool) :
    Option Slot → Option Slot × GatewayContext count
  | some i => (some i, g)
  | none =>
      match g.scopeIdle ttl now implicit with
      | none => (none, g)
      | some i => (some i, g.scopeReclaim i now)

/-! ## Mirror rows -/

/-- The row is live: its age is below the ledger's ttl. -/
def Live (attemptTtl now : Nat) (r : Physical) : Prop := now < r.begun ∨ now - r.begun < attemptTtl

instance (attemptTtl now : Nat) (r : Physical) : Decidable (Live attemptTtl now r) :=
  inferInstanceAs (Decidable (_ ∨ _))

/-- A settled expired row that no open scope names and whose key no live row carries. -/
def rowReclaimable (attemptTtl now i : Nat) (r : Physical) : Bool :=
  r.settled && !decide (Live attemptTtl now r) &&
    (slots.all fun j => !((g.scopes j).isOpen &&
      ((g.scopes j).lastRow = some i || (g.scopes j).evidenceRow = some i))) &&
    g.rows.all fun o =>
      !(o.inUse && decide (Live attemptTtl now o) && sameHeaders o.headers r.headers)

/-- `row_slot`: the row for the next attempt.  Under pressure every reclaimable row is freed and the
first of them is used. -/
def rowSlot (attemptTtl now : Nat) : Option Nat × GatewayContext count :=
  if g.rows.length < Attempts.maxRows then (some g.rows.length, g)
  else
    match g.rows.findIdx? fun r => !r.inUse with
    | some i => (some i, g)
    | none =>
        let freed := g.rows.mapIdx fun i r =>
          if g.rowReclaimable attemptTtl now i r then .free else r
        (freed.findIdx? fun r => !r.inUse, { g with rows := freed })

/-! ## Attempts -/

/-- `exact`: the ledger reports the attempt of the row as the exact and only one. -/
def exact (authorization : Text) (row : Option Nat) (now : Nat) : Bool × GatewayContext count :=
  match row.bind (g.rows[·]?) with
  | none => (false, g)
  | some r =>
      if !r.inUse then (false, g)
      else
        let (view, ledger) := Attempts.attemptGet g.ledger (some authorization) r.headers r.id now
        (view.any fun v => v.exact && v.countKnown && v.physicalCount = 1, { g with ledger })

/-! ## Interpreter results -/

/-- One result of `poll_locked`: it is published for its own revision of an exactly attributed
turn. -/
def publish (authorization : Text) (now : Nat) (result : InterpreterResult) : GatewayContext count :=
  match g.scopeFind result.generation result.branch with
  | none => g
  | some i =>
      let s := g.scopes i
      if !result.valid || s.revision ≠ result.revision then g
      else
        match g.exact authorization s.evidenceRow now with
        | (false, g) => g
        | (true, g) =>
            let (status, contexts) :=
              Context.interpret g.contexts s.key result.revision now result.nextAction
            let g := { g with contexts }
            if status = .ok then g.setScope i { s with interpretation := result } else g

def interpreterCapacity : Nat := 4

/-- `poll_locked`. -/
def pollLocked (authorization : Text) (now : Nat) (results : List InterpreterResult) :
    GatewayContext count :=
  (results.take interpreterCapacity).foldl (fun g result => publish g authorization now result) g

end GatewayContext

end Recursant.Gateway
