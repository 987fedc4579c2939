import Recursant.Lib.RingBuffer
import Recursant.Number

/-!
# The relay queue

The callbacks of one proxied request: `header` and `receive` run in the thread of the transfer,
`read_response` in that of the connection, and `lock` is held from one wait to the next.  The queue
is a ring of the request; what it holds is a list of bytes.
-/

namespace Recursant.Http

open RingBuffer

/-- `QUEUE_SIZE` -/
def queueSize : Nat := 65536

/-- The size of `error`. -/
def errorSize : Nat := 4096

structure Request where
  queue : Nat → Byte := fun _ => 0
  head : Nat := 0
  count : Nat := 0
  done : Bool := false
  cancel : Bool := false
  headers : Bool := false
  failed : Bool := false
  sse : Bool := false
  status : Int := 0
  retryAfterMs : Nat := 0
  error : Text := []
  errorOverflow : Bool := false

/-- What the queue holds, in order. -/
def Request.queued (r : Request) : Text := contents r.queue queueSize r.head r.count

/-- The ring stays inside its array. -/
def Request.Ring (r : Request) : Prop := r.head < queueSize ∧ r.count ≤ queueSize

/-- A status of the second class. -/
def success (status : Int) : Bool := 200 ≤ status && status < 300

/-! ## Headers -/

def isStatusLine (line : Text) : Bool := 5 < line.length && (text "HTTP/").isPrefixOf line

/-- The number behind the first blank. -/
def statusOf (line : Text) : Int :=
  match line.dropWhile (· ≠ 32) with
  | [] => 0
  | _ :: rest => (strtol rest).value

/-- The delay of a `Retry-After` line in whole seconds, at most a minute. -/
def retryAfter (line : Text) : Option Nat :=
  if 12 < line.length ∧ line.length < 64 ∧ caseEq (line.take 12) (text "Retry-After:") then
    let delay := strtol ((line.drop 12).takeWhile (· ≠ 0))
    if (delay.rest.dropWhile fun c => c = 32 ∨ c = 13 ∨ c = 10) = [] ∧ 0 < delay.value then
      some (if 60 < delay.value then 60000 else delay.value.toNat * 1000)
    else none
  else none

/-- Whether a `Content-Type` line names an event stream. -/
def eventStream (line : Text) : Option Bool :=
  if 19 ≤ line.length ∧ caseEq (line.take 13) (text "Content-Type:") ∧ line.length < 256 then
    some (hasText (text "text/event-stream") (line.takeWhile (· ≠ 0)))
  else none

def header (line : Text) (r : Request) : Request :=
  let status := if isStatusLine line then statusOf line else r.status
  { r with
    status
    retryAfterMs := (retryAfter line).getD r.retryAfterMs
    sse := (eventStream line).getD r.sse
    headers := r.headers || (line == [13, 10] && 200 ≤ status) }

/-! ## The transfer -/

/-- How a section of `receive` ends: it returns a number of bytes, or waits for room in front of
an offset. -/
inductive Received where
  | returned (n : Nat)
  | waiting (offset : Nat)

/-- One `memcpy` into the queue. -/
def copy (data : Text) (r : Request) (offset : Nat) : Request × Nat :=
  let tail := (r.head + r.count) % queueSize
  let take := min (min (queueSize - tail) (queueSize - r.count)) (data.length - offset)
  ({ r with queue := write r.queue tail ((data.drop offset).take take), count := r.count + take },
    offset + take)

/-- The loop of `receive`, up to the next wait. -/
def copyLoop (data : Text) : Nat → Request → Nat → Request × Received
  | 0, r, offset => (r, .returned offset)
  | fuel + 1, r, offset =>
      if offset < data.length ∧ r.cancel = false then
        if r.count = queueSize then (r, .waiting offset)
        else copyLoop data fuel (copy data r offset).1 (copy data r offset).2
      else (r, .returned offset)

/-- A body that is not relayed is kept up to the size of `error`. -/
def receiveError (data : Text) (r : Request) : Request × Received :=
  if errorSize - 1 - r.error.length < data.length then
    ({ r with errorOverflow := true }, .returned 0)
  else ({ r with error := r.error ++ data }, .returned data.length)

def receive (data : Text) (r : Request) : Request × Received :=
  if success r.status then copyLoop data (data.length + 1) r 0 else receiveError data r

/-- `receive` after a wait; the caller has set `cancel` if the time was over. -/
def receiveAgain (data : Text) (offset : Nat) (r : Request) : Request × Received :=
  copyLoop data (data.length + 1) r offset

/-! ## The response -/

inductive Ending where
  | endOfStream
  | endWithError
  deriving DecidableEq

inductive Answer where
  | bytes (t : Text)
  | ended (ending : Ending)

/-- `read_response` up to its wait or its answer. -/
def readResponse (max : Nat) (r : Request) : Option (Answer × Request) :=
  if r.count = 0 then
    if r.done = false ∧ r.cancel = false then none
    else some (.ended (if r.failed || r.cancel then .endWithError else .endOfStream), r)
  else
    let n := min (min (queueSize - r.head) r.count) max
    some (.bytes ((List.range n).map fun i => r.queue (r.head + i)),
      { r with head := (r.head + n) % queueSize, count := r.count - n })

/-! ## What the callbacks do to the queue -/

theorem success_def {status : Int} : success status = true ↔ 200 ≤ status ∧ status < 300 := by
  unfold success
  rw [Bool.and_eq_true, decide_eq_true_eq, decide_eq_true_eq]

/-- One `memcpy` moves the next bytes of the chunk to the end of the queue. -/
theorem copy_spec {data : Text} {r : Request} {offset : Nat} (h : r.Ring)
    (hoffset : offset ≤ data.length) :
    ∃ queue count, (copy data r offset).1 = { r with queue, count } ∧ count ≤ queueSize ∧
      (copy data r offset).2 ≤ data.length ∧
      contents queue queueSize r.head count ++ data.drop (copy data r offset).2 =
        r.queued ++ data.drop offset := by
  obtain ⟨hhead, hcount⟩ := h
  have htail : (r.head + r.count) % queueSize < queueSize :=
    Nat.mod_lt _ (Nat.zero_lt_of_lt hhead)
  have hlength : (data.drop offset).length = data.length - offset := List.length_drop
  unfold copy
  dsimp only
  generalize htake : min (min (queueSize - (r.head + r.count) % queueSize) (queueSize - r.count))
    (data.length - offset) = take
  have hmoved : ((data.drop offset).take take).length = take := by
    rw [List.length_take, hlength]
    omega
  refine ⟨_, _, rfl, by omega, by omega, ?_⟩
  have hroom : r.count + ((data.drop offset).take take).length ≤ queueSize := by omega
  have hwrap : (r.head + r.count) % queueSize + ((data.drop offset).take take).length ≤
      queueSize := by omega
  have hcontents := contents_write r.queue _ hroom hwrap
  rw [hmoved] at hcontents
  rw [hcontents, List.append_assoc, ← List.drop_drop, List.take_append_drop]
  rfl

/-- What a section of the loop leaves to do. -/
def Received.offset : Received → Nat
  | .returned n => n
  | .waiting offset => offset

theorem copyLoop_spec {data : Text} {fuel : Nat} {r : Request} {offset : Nat} (h : r.Ring)
    (hoffset : offset ≤ data.length) :
    ∃ queue count, (copyLoop data fuel r offset).1 = { r with queue, count } ∧
      count ≤ queueSize ∧ (copyLoop data fuel r offset).2.offset ≤ data.length ∧
      contents queue queueSize r.head count ++
        data.drop (copyLoop data fuel r offset).2.offset = r.queued ++ data.drop offset := by
  induction fuel generalizing r offset with
  | zero => exact ⟨r.queue, r.count, rfl, h.2, hoffset, rfl⟩
  | succ fuel ih =>
      unfold copyLoop
      split
      next =>
          split
          next => exact ⟨r.queue, r.count, rfl, h.2, hoffset, rfl⟩
          next =>
              obtain ⟨queue, count, hcopy, hcount, hnext, hqueued⟩ := copy_spec h hoffset
              rw [hcopy]
              obtain ⟨queue', count', hloop, hcount', hend, hqueued'⟩ :=
                ih (r := { r with queue, count }) ⟨h.1, hcount⟩ hnext
              refine ⟨queue', count', hloop, hcount', hend, ?_⟩
              rw [← hqueued]
              exact hqueued'
      next => exact ⟨r.queue, r.count, rfl, h.2, hoffset, rfl⟩

/-- The loop only ends because the chunk is copied, the request is cancelled, or the queue is
full. -/
theorem copyLoop_stops {data : Text} {fuel : Nat} {r : Request} {offset : Nat} (h : r.Ring)
    (hoffset : offset ≤ data.length) (hfuel : data.length - offset < fuel) :
    match (copyLoop data fuel r offset).2 with
    | .returned n => n = data.length ∨ r.cancel = true
    | .waiting n => n < data.length ∧ r.cancel = false ∧
        (copyLoop data fuel r offset).1.count = queueSize := by
  induction fuel generalizing r offset with
  | zero => omega
  | succ fuel ih =>
      unfold copyLoop
      by_cases hgoes : offset < data.length ∧ r.cancel = false
      · rw [if_pos hgoes]
        by_cases hfull : r.count = queueSize
        · rw [if_pos hfull]
          exact ⟨hgoes.1, hgoes.2, hfull⟩
        · rw [if_neg hfull]
          have hcount := h.2
          have htail : (r.head + r.count) % queueSize < queueSize :=
            Nat.mod_lt _ (Nat.zero_lt_of_lt h.1)
          obtain ⟨queue, count, hcopy, hcount', hnext, -⟩ := copy_spec h hoffset
          have hmore : offset < (copy data r offset).2 := by
            unfold copy
            dsimp only
            omega
          rw [hcopy]
          exact ih (r := { r with queue, count }) ⟨h.1, hcount'⟩ hnext (by omega)
      · rw [if_neg hgoes]
        show offset = data.length ∨ r.cancel = true
        cases hcancel : r.cancel with
        | true => exact .inr rfl
        | false =>
            rw [hcancel] at hgoes
            left
            simp only [and_true, Nat.not_lt] at hgoes
            omega

/-- What is handed over comes from the front of the queue. -/
theorem readResponse_bytes {max : Nat} {r r' : Request} {t : Text} (h : r.Ring)
    (hread : readResponse max r = some (.bytes t, r')) :
    ∃ head count, r' = { r with head, count } ∧ r'.Ring ∧ r.queued = t ++ r'.queued := by
  unfold readResponse at hread
  split at hread
  next =>
      split at hread
      next => cases hread
      next => cases hread
  next hcount =>
      dsimp only at hread
      generalize hn : min (min (queueSize - r.head) r.count) max = n at hread
      obtain ⟨hhead, hle⟩ := h
      have hn' : n ≤ r.count := by omega
      have hwrap : r.head + n ≤ queueSize := by omega
      have heq := Option.some.inj hread
      rw [Prod.mk.injEq, Answer.bytes.injEq] at heq
      obtain ⟨rfl, rfl⟩ := heq
      refine ⟨_, _, rfl, ⟨Nat.mod_lt _ (Nat.zero_lt_of_lt hhead), ?_⟩, ?_⟩
      · show r.count - n ≤ queueSize
        omega
      · show contents r.queue queueSize r.head r.count = _ ++
          contents r.queue queueSize ((r.head + n) % queueSize) (r.count - n)
        rw [contents_take hn' hwrap, contents_drop, List.take_append_drop]

theorem readResponse_ended {max : Nat} {r r' : Request} {ending : Ending}
    (hread : readResponse max r = some (.ended ending, r')) :
    r' = r ∧ r.count = 0 ∧ (ending = .endOfStream → r.done = true ∧ r.failed = false) := by
  unfold readResponse at hread
  split at hread
  next hcount =>
      split at hread
      next => cases hread
      next hends =>
          have heq := Option.some.inj hread
          rw [Prod.mk.injEq, Answer.ended.injEq] at heq
          obtain ⟨rfl, rfl⟩ := heq
          refine ⟨rfl, hcount, fun hstream => ?_⟩
          cases hfailed : r.failed with
          | true =>
              rw [hfailed] at hstream
              cases hstream
          | false =>
              cases hcancel : r.cancel with
              | true =>
                  rw [hfailed, hcancel] at hstream
                  cases hstream
              | false =>
                  rw [hcancel] at hends
                  exact ⟨by simpa using hends, rfl⟩
  next => cases hread

end Recursant.Http
