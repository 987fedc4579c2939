import Recursant.Lib.Compaction
import Recursant.Text

/-!
# The attempt ledger

`attempts.c`: a bounded table of physical attempts, a monotone caller clock and two kinds of loss.
A permanent loss (`lost`) ends exactness for the whole ledger; a windowed loss (`lostUntil`) only
for attempts begun before it closes.
-/

namespace Recursant.Attempts

def maxRows : Nat := 256

def tokenSize : Nat := 129

/-! ## Invocation headers -/

/-- The five opaque tokens with the mask of those received. -/
structure AttemptHeaders where
  values : Fin 5 → Text
  mask : Nat
  invalid : Bool
  deriving DecidableEq

def AttemptHeaders.empty : AttemptHeaders := ⟨fun _ => [], 0, false⟩

def headerName : Fin 5 → Text
  | 0 => "X-Recursant-task-id"
  | 1 => "X-Recursant-session-id"
  | 2 => "X-Recursant-turn-id"
  | 3 => "X-Recursant-api-request-id"
  | 4 => "X-Recursant-attempt"

/-- A token that fits its slot: nonempty, shorter than `tokenSize`, printable without blanks. -/
def tokenOk (value : Text) : Bool :=
  value ≠ [] && value.length < tokenSize && value.all isgraph

def attemptHeader (h : AttemptHeaders) (name : Text) (value : Option Text) : AttemptHeaders :=
  match (List.finRange 5).find? fun i => caseEq name (headerName i) with
  | none => h
  | some i =>
      match value with
      | none => { h with invalid := true }
      | some v =>
          if h.mask &&& (1 <<< i.val) ≠ 0 || !tokenOk v then { h with invalid := true }
          else { h with values := Function.update h.values i v, mask := h.mask ||| (1 <<< i.val) }

def valid (h : AttemptHeaders) : Bool :=
  !h.invalid && h.mask == 31 && (List.finRange 5).all fun i => tokenOk (h.values i)

/-! ## Bearer authorization -/

/-- One bearer token per project; a project without a token authorizes nobody. -/
abbrev AuthTable := List (Option Text)

def authBearer (auth : AuthTable) (authorization : Option Text) : Option Nat :=
  match authorization with
  | none => none
  | some a =>
      if (a.take 6).map tolower == text "bearer" && a[6]? == some 32 && a.drop 7 ≠ [] then
        auth.findIdx? fun candidate => candidate == some (a.drop 7)
      else none

/-! ## Rows and ledger -/

structure AttemptId where
  boot : Nat × Nat
  serial : Nat
  deriving DecidableEq

structure Row where
  headers : AttemptHeaders
  project : Nat
  id : AttemptId
  begun : Nat
  expires : Nat
  finished : Bool
  source : Bool
  failed : Bool
  settled : Bool
  deriving DecidableEq

structure AttemptLedger where
  auth : AuthTable
  capacity : Nat
  boot : Nat × Nat
  serial : Nat
  ttl : Nat
  now : Nat
  lostUntil : Nat
  lost : Bool
  rows : List Row

def attemptCreate (auth : AuthTable) (capacity ttl : Nat) (boot : Nat × Nat) :
    Option AttemptLedger :=
  if capacity = 0 || capacity > maxRows || ttl = 0 || boot = (0, 0) then none
  else some ⟨auth, capacity, boot, 0, ttl, 0, 0, false, []⟩

def attemptLost (l : AttemptLedger) : AttemptLedger := { l with lost := true }

/-- A backwards clock is a permanent loss; otherwise the ledger clock advances. -/
def clockOk (l : AttemptLedger) (now : Nat) : Bool × AttemptLedger :=
  if now < l.now then (false, { l with lost := true }) else (true, { l with now := now })

def loseWindow (l : AttemptLedger) (now : Nat) : AttemptLedger :=
  if now > uint64Max - l.ttl then { l with lost := true }
  else if now + l.ttl > l.lostUntil then { l with lostUntil := now + l.ttl }
  else l

def attemptLostAt (l : AttemptLedger) (now : Nat) : AttemptLedger :=
  match clockOk l now with
  | (true, l) => loseWindow l now
  | (false, l) => l

def key (r : Row) (project : Nat) (h : AttemptHeaders) : Bool :=
  r.project == project && (List.finRange 5).all fun i => r.headers.values i == h.values i

/-! ## Reclamation -/

/-- The row is settled and expired, and no live row of the array carries its key. -/
def reclaimable (now : Nat) (rows : List Row) (r : Row) : Bool :=
  r.settled && now ≥ r.expires &&
    rows.all fun other => !(now < other.expires && key other r.project r.headers)

/-- The source compacts the array in place; rows beyond the kept ones are cleared. -/
def reclaim (l : AttemptLedger) (now : Nat) : AttemptLedger :=
  { l with rows := Compaction.compact (reclaimable now) l.rows }

/-- Capacity pressure: only a full table is reclaimed. -/
def reclaimIfFull (l : AttemptLedger) (now : Nat) : AttemptLedger :=
  if l.rows.length = l.capacity then reclaim l now else l

def attemptCapacity (l : AttemptLedger) (now : Nat) : Bool × AttemptLedger :=
  match clockOk l now with
  | (false, l) => (false, l)
  | (true, l) => (decide ((reclaimIfFull l now).rows.length < l.capacity), reclaimIfFull l now)

/-! ## Attempts -/

inductive AttemptResult where
  | unauthorized
  | untracked
  | tracked
  deriving DecidableEq

def Row.fresh (h : AttemptHeaders) (project : Nat) (id : AttemptId) (now ttl : Nat) : Row :=
  ⟨h, project, id, now, now + ttl, false, false, false, false⟩

/-- `wantsId` is false when the caller passes no place for the id. -/
def attemptBegin (l : AttemptLedger) (authorization : Option Text) (h : AttemptHeaders)
    (now : Nat) (wantsId : Bool) : (AttemptResult × Option AttemptId) × AttemptLedger :=
  match authBearer l.auth authorization with
  | none => ((.unauthorized, none), l)
  | some p =>
      if !wantsId || l.serial = uint64Max then ((.untracked, none), { l with lost := true })
      else
        let id : AttemptId := ⟨l.boot, l.serial + 1⟩
        match clockOk { l with serial := l.serial + 1 } now with
        | (false, l) => ((.untracked, some id), l)
        | (true, l) =>
            if now > uint64Max - l.ttl then ((.untracked, some id), { l with lost := true })
            else if !valid h then ((.untracked, some id), loseWindow l now)
            else
              let l := reclaimIfFull l now
              if l.rows.length = l.capacity then ((.untracked, some id), loseWindow l now)
              else ((.tracked, some id),
                { l with rows := l.rows ++ [Row.fresh h p id now l.ttl] })

/-- A finish after expiry settles the row without recording how the attempt ended. -/
def Row.finish (r : Row) (complete : Bool) (now : Nat) : Row :=
  if now ≥ r.expires then { r with settled := true }
  else { r with settled := true, finished := complete, failed := r.failed || !complete }

def attemptFinish (l : AttemptLedger) (id : AttemptId) (complete : Bool) (now : Nat) :
    AttemptLedger :=
  match clockOk l now with
  | (false, l) => l
  | (true, l) =>
      { l with rows := l.rows.map fun r => if r.id = id then r.finish complete now else r }

def attemptSourceComplete (l : AttemptLedger) (authorization : Option Text) (h : AttemptHeaders)
    (now : Nat) : AttemptLedger :=
  if !valid h then l
  else
    match authBearer l.auth authorization with
    | none => l
    | some p =>
        match clockOk l now with
        | (false, l) => l
        | (true, l) =>
            { l with rows := l.rows.map fun r =>
                if key r p h && now < r.expires then { r with source := true } else r }

structure AttemptView where
  physicalCount : Nat
  ambiguous : Bool
  exact : Bool
  countKnown : Bool
  deriving DecidableEq

def AttemptLedger.view (l : AttemptLedger) (r : Row) (project : Nat) (h : AttemptHeaders) :
    AttemptView :=
  let count := l.rows.countP fun other => key other project h
  let ambiguous := decide (count > 1)
  let countKnown := !l.lost && decide (r.begun ≥ l.lostUntil)
  ⟨count, ambiguous, countKnown && !ambiguous && !r.failed && r.finished && r.source, countKnown⟩

def attemptGet (l : AttemptLedger) (authorization : Option Text) (h : AttemptHeaders)
    (id : AttemptId) (now : Nat) : Option AttemptView × AttemptLedger :=
  if !valid h then (none, l)
  else
    match authBearer l.auth authorization with
    | none => (none, l)
    | some p =>
        match clockOk l now with
        | (false, l) => (none, l)
        | (true, l) =>
            ((l.rows.find? fun r => key r p h && r.id = id && now < r.expires).map
              fun r => l.view r p h, l)

/-! ## The ledger as a reacting machine -/

inductive Call where
  | begin (authorization : Option Text) (h : AttemptHeaders) (now : Nat) (wantsId : Bool)
  | finish (id : AttemptId) (complete : Bool) (now : Nat)
  | sourceComplete (authorization : Option Text) (h : AttemptHeaders) (now : Nat)
  | get (authorization : Option Text) (h : AttemptHeaders) (id : AttemptId) (now : Nat)
  | lost
  | lostAt (now : Nat)
  | capacity (now : Nat)

inductive Answer where
  | done
  | begun (result : AttemptResult) (id : Option AttemptId)
  | view (v : Option AttemptView)
  | room (free : Bool)
  deriving DecidableEq

def step (l : AttemptLedger) : Call → Answer × AttemptLedger
  | .begin authorization h now wantsId =>
      let ((result, id), l) := attemptBegin l authorization h now wantsId
      (.begun result id, l)
  | .finish id complete now => (.done, attemptFinish l id complete now)
  | .sourceComplete authorization h now => (.done, attemptSourceComplete l authorization h now)
  | .get authorization h id now =>
      let (v, l) := attemptGet l authorization h id now
      (.view v, l)
  | .lost => (.done, attemptLost l)
  | .lostAt now => (.done, attemptLostAt l now)
  | .capacity now =>
      let (free, l) := attemptCapacity l now
      (.room free, l)

end Recursant.Attempts
