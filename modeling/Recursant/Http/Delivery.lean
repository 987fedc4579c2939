import Mathlib.Logic.Relation
import Recursant.Http.Relay

/-!
# What the client is handed

The thread of the transfer, the thread of the connection and the clock take turns; a turn is what
one of them does under `lock`, from where it takes or gets back the lock to where it releases it or
waits.  A failed attempt is followed by another one until one is relayed.
-/

namespace Recursant.Http

/-! ## The upstream server -/

/-- A response as the transfer library hands it over: the lines before the body, the body in any
chunks, and the lines behind it.  `header` is given all of the lines. -/
structure Response where
  lines : List Text
  chunks : List Text
  trailers : List Text

def Response.body (r : Response) : Text := r.chunks.flatten

/-- What an attempt has made of so many lines. -/
def heard (lines : List Text) : Request := lines.foldl (fun r line => header line r) {}

/-- The body comes under a status of success. -/
def Response.relayed (r : Response) : Bool := success (heard r.lines).status

/-- An attempt that can be accepted after some of its lines is one whose body is relayed. -/
def Response.Honest (r : Response) : Prop :=
  ∀ before ∈ (r.lines ++ r.trailers).inits, (heard before).headers = true →
    success (heard before).status = true → r.relayed = true

instance (r : Response) : Decidable r.Honest := inferInstanceAs (Decidable (∀ _ ∈ _, _))

/-- The transfer of one attempt: what is still to come, the chunk whose `receive` waits, whether a
callback has refused to go on, and the result once there is one. -/
structure Upstream where
  lines : List Text
  chunks : List Text
  trailers : List Text
  calling : Option (Text × Nat) := none
  aborted : Bool := false
  result : Option Bool := none

def Upstream.start (r : Response) : Upstream :=
  { lines := r.lines, chunks := r.chunks, trailers := r.trailers }

/-- The thread runs and is in no callback. -/
def Upstream.Between (u : Upstream) : Prop := u.calling = none ∧ u.result = none

/-- The library goes on to call back. -/
def Upstream.Ready (u : Upstream) : Prop := u.Between ∧ u.aborted = false

/-- Everything was handed over, so the transfer can succeed. -/
def Upstream.Complete (u : Upstream) : Prop :=
  u.lines = [] ∧ u.chunks = [] ∧ u.trailers = [] ∧ u.calling = none ∧ u.aborted = false

/-- The body bytes that are still to come. -/
def Upstream.pending (u : Upstream) : Text :=
  (match u.calling with
    | none => []
    | some (data, offset) => data.drop offset) ++ u.chunks.flatten

/-! ## The system -/

/-- Where `handle` is: it waits for headers, or for the body of a 400, or has decided. -/
inductive Handler where
  | waiting
  | waiting400
  | retrying
  | accepted
  | refused
  deriving DecidableEq

structure System where
  request : Request
  upstream : Upstream
  attempt : Nat
  handler : Handler
  /-- The size of the buffer of a `read_response` that waits. -/
  reading : Option Nat
  completed : Bool
  /-- What the client was handed, and how its response ended. -/
  delivered : Text
  ended : Option Ending

def System.start (responses : Nat → Response) : System where
  request := {}
  upstream := .start (responses 0)
  attempt := 0
  handler := .waiting
  reading := none
  completed := false
  delivered := []
  ended := none

/-- Cancels the request if `b`: a wait is over time, or the client is gone. -/
def Request.cancelIf (b : Bool) (r : Request) : Request := { r with cancel := r.cancel || b }

/-- What `receive` of a chunk leaves behind; a short count makes the library give up. -/
def System.received (s : System) (data : Text) (chunks : List Text) (r : Request × Received) :
    System :=
  match r.2 with
  | .returned n =>
      { s with
        request := r.1
        upstream :=
          { s.upstream with chunks, calling := none, aborted := decide (n ≠ data.length) } }
  | .waiting offset =>
      { s with
        request := r.1
        upstream := { s.upstream with chunks, calling := some (data, offset) } }

/-- The wait of `handle`, from one wakeup to the next. -/
def Request.verdict (r : Request) : Handler → Handler
  | .waiting =>
      if r.headers = false ∧ r.done = false ∧ r.cancel = false then .waiting
      -- a 400 may report an overflow of the context window, so its text is waited for
      else if r.cancel = false ∧ r.headers = true ∧ r.status = 400 ∧ r.done = false then .waiting400
      else if r.cancel = false ∧ r.headers = true ∧ success r.status = true then .accepted
      else if r.cancel = true then .refused else .retrying
  | .waiting400 =>
      if r.done = false ∧ r.cancel = false then .waiting400
      else if r.cancel = false ∧ r.headers = true ∧ success r.status = true then .accepted
      else if r.cancel = true then .refused else .retrying
  | handler => handler

/-- The reset between two attempts; the queue's bytes stay where they are. -/
def Request.reset (r : Request) : Request :=
  { r with
    status := 0, headers := false, done := false, failed := false, sse := false, retryAfterMs := 0,
    head := 0, count := 0, error := [], errorOverflow := false }

def System.read (s : System) (max : Nat) (r : Request) : System :=
  match readResponse max r with
  | none => { s with request := r, reading := some max }
  | some (.bytes t, r) =>
      { s with request := r, reading := none, delivered := s.delivered ++ t }
  | some (.ended ending, r) => { s with request := r, reading := none, ended := some ending }

/-- The turns.  `late` says that a wait was over time. -/
inductive Step (responses : Nat → Response) : System → System → Prop where
  | header {s : System} {line : Text} {lines : List Text} : s.upstream.Ready →
      s.upstream.lines = line :: lines →
      Step responses s
        { s with request := header line s.request, upstream := { s.upstream with lines } }
  | trailer {s : System} {line : Text} {trailers : List Text} : s.upstream.Ready →
      s.upstream.lines = [] → s.upstream.chunks = [] → s.upstream.trailers = line :: trailers →
      Step responses s
        { s with request := header line s.request, upstream := { s.upstream with trailers } }
  | receive {s : System} {data : Text} {chunks : List Text} : s.upstream.Ready →
      s.upstream.lines = [] → s.upstream.chunks = data :: chunks →
      Step responses s (s.received data chunks (receive data s.request))
  | receiveAgain {s : System} {data : Text} {offset : Nat} (late : Bool) :
      s.upstream.calling = some (data, offset) →
      Step responses s (s.received data s.upstream.chunks
        (receiveAgain data offset (s.request.cancelIf late)))
  | progress {s : System} (disconnected : Bool) : s.upstream.Between →
      Step responses s
        { s with
          request := s.request.cancelIf disconnected
          upstream :=
            { s.upstream with
              aborted := s.upstream.aborted || (s.request.cancelIf disconnected).cancel } }
  | finish {s : System} (ok : Bool) : s.upstream.Between → (ok = true → s.upstream.Complete) →
      Step responses s
        { s with
          request := { s.request with failed := !ok, done := true }
          upstream := { s.upstream with result := some ok } }
  | handle {s : System} (late : Bool) : s.handler = .waiting ∨ s.handler = .waiting400 →
      Step responses s
        { s with
          request := s.request.cancelIf late
          handler := (s.request.cancelIf late).verdict s.handler }
  | giveUp {s : System} : s.handler = .retrying → Step responses s { s with handler := .refused }
  | retry {s : System} : s.handler = .retrying → s.upstream.result ≠ none →
      Step responses s
        { s with
          request := s.request.reset
          upstream := .start (responses (s.attempt + 1))
          attempt := s.attempt + 1
          handler := .waiting }
  | read {s : System} (max : Nat) : s.handler = .accepted → s.ended = none → s.reading = none →
      s.completed = false → Step responses s (s.read max s.request)
  | readAgain {s : System} {max : Nat} (late : Bool) : s.reading = some max →
      Step responses s (s.read max (s.request.cancelIf late))
  | completed {s : System} : s.handler = .accepted ∨ s.handler = .refused → s.reading = none →
      s.completed = false →
      Step responses s { s with request := s.request.cancelIf true, completed := true }

/-- A state that some order of turns leads to. -/
def Reachable (responses : Nat → Response) : System → Prop :=
  Relation.ReflTransGen (Step responses) (.start responses)

/-! ## The invariant -/

/-- The status and the headers are those of the lines so far, and while there is a body to come the
trailers are. -/
structure Heard (r : Response) (u : Upstream) (q : Request) : Prop where
  read : ∃ before, before ++ (u.lines ++ u.trailers) = r.lines ++ r.trailers ∧
    q.status = (heard before).status ∧ q.headers = (heard before).headers
  trailers : u.chunks ≠ [] → u.trailers = r.trailers

/-- The bytes of the accepted body are handed over, queued or still to come, in this order; before
its first byte and after a refusal nothing is queued. -/
structure Faithful (responses : Nat → Response) (s : System) : Prop where
  ring : s.request.Ring
  heard : Heard (responses s.attempt) s.upstream s.request
  fresh : s.upstream.lines ≠ [] → s.upstream.calling = none ∧
    s.upstream.chunks.flatten = (responses s.attempt).body ∧ s.request.count = 0 ∧ s.delivered = []
  calling : ∀ data offset, s.upstream.calling = some (data, offset) → offset ≤ data.length ∧
    (responses s.attempt).relayed = true ∧ s.upstream.result = none ∧ s.upstream.aborted = false
  refused : (responses s.attempt).relayed = false → s.request.count = 0 ∧ s.delivered = []
  flow : (responses s.attempt).relayed = true →
    ∃ rest, s.delivered ++ s.request.queued ++ rest = (responses s.attempt).body ∧
      (s.upstream.aborted = false → rest = s.upstream.pending)
  running : s.upstream.result = none → s.request.done = false
  result : ∀ ok, s.upstream.result = some ok → s.request.failed = !ok
  complete : s.upstream.result = some true → s.upstream.Complete
  accepted : s.handler = .accepted → (responses s.attempt).relayed = true
  unaccepted : s.handler ≠ .accepted → s.delivered = [] ∧ s.reading = none ∧ s.ended = none
  reading : s.reading ≠ none → s.ended = none
  ended : s.ended = some .endOfStream →
    s.delivered = (responses s.attempt).body ∧ s.upstream.result = some true

/-! ## One turn -/

theorem header_status (line : Text) (r : Request) :
    (header line r).status = if isStatusLine line then statusOf line else r.status := rfl

theorem heard_append (lines : List Text) (line : Text) :
    heard (lines ++ [line]) = header line (heard lines) := by
  unfold heard
  rw [List.foldl_append]
  rfl

/-- A line changes the status and the headers by what they were. -/
theorem header_congr {line : Text} {q r : Request} (hstatus : q.status = r.status)
    (hheaders : q.headers = r.headers) :
    (header line q).status = (header line r).status ∧
      (header line q).headers = (header line r).headers := by
  unfold header
  dsimp only
  rw [hstatus, hheaders]
  exact ⟨rfl, rfl⟩

theorem heard_status_append {before more : List Text}
    (h : ∀ line ∈ more, isStatusLine line = false) :
    (heard (before ++ more)).status = (heard before).status := by
  induction more using List.reverseRecOn with
  | nil => rw [List.append_nil]
  | append_singleton more line ih =>
      rw [← List.append_assoc, heard_append, header_status, h line (by simp), if_neg (by decide)]
      exact ih fun l hl => h l (List.mem_append_left _ hl)

/-- A status that is not zero is that of a status line. -/
theorem heard_status_mem {lines : List Text} (h : (heard lines).status ≠ 0) :
    ∃ line ∈ lines, isStatusLine line = true ∧ statusOf line = (heard lines).status := by
  induction lines using List.reverseRecOn with
  | nil => exact absurd rfl h
  | append_singleton lines line ih =>
      rw [heard_append, header_status] at h ⊢
      cases hline : isStatusLine line with
      | true => exact ⟨line, by simp, hline, rfl⟩
      | false =>
          rw [hline, if_neg Bool.false_ne_true] at h
          obtain ⟨found, hfound, hstatus⟩ := ih h
          exact ⟨found, List.mem_append_left _ hfound, hstatus⟩

/-- Where only an interim response is followed by another status line and a trailer is none, the
attempt is accepted for the status of its body. -/
theorem Response.honest_of_plain {r : Response}
    (hinterim : r.lines.Pairwise fun a b =>
      isStatusLine a = true → isStatusLine b = true → statusOf a < 200)
    (hplain : ∀ line ∈ r.trailers, isStatusLine line = false) : r.Honest := by
  intro before hbefore _ hsuccess
  obtain ⟨rest, hsplit⟩ := (List.mem_inits before _).mp hbefore
  have hstatus : (heard r.lines).status = (heard before).status := by
    cases List.append_eq_append_iff.mp hsplit with
    -- a prefix of the header lines: no status line follows one of success
    | inl hearly =>
        obtain ⟨more, hlines, -⟩ := hearly
        have hfinal := (success_def.mp hsuccess).1
        obtain ⟨final, hin, hline, hvalue⟩ := @heard_status_mem before (by omega)
        rw [hlines] at hinterim ⊢
        refine heard_status_append fun line hmore => ?_
        rw [Bool.eq_false_iff]
        intro hagain
        have hlow := (List.pairwise_append.mp hinterim).2.2 final hin line hmore hline hagain
        omega
    -- all the header lines and some trailers, which are no status lines
    | inr hlate =>
        obtain ⟨more, hbefore, htrailers⟩ := hlate
        rw [hbefore]
        refine (heard_status_append fun line hmore => hplain line ?_).symm
        rw [htrailers]
        exact List.mem_append_left _ hmore
  unfold Response.relayed
  rw [hstatus]
  exact hsuccess

namespace Heard

variable {r : Response} {u : Upstream} {q : Request}

theorem start (r : Response) : Heard r (.start r) {} := ⟨⟨[], rfl, rfl, rfl⟩, fun _ => rfl⟩

theorem step {line : Text} {more : List Text} {v : Upstream} (h : Heard r u q)
    (hlines : u.lines ++ u.trailers = line :: more) (hleft : v.lines ++ v.trailers = more)
    (htrailers : v.chunks ≠ [] → v.trailers = r.trailers) : Heard r v (header line q) := by
  obtain ⟨before, hsplit, hstatus, hheaders⟩ := h.read
  obtain ⟨hstatus', hheaders'⟩ := @header_congr line _ _ hstatus hheaders
  refine ⟨⟨before ++ [line], ?_, ?_, ?_⟩, htrailers⟩
  · rw [← hsplit, hlines, hleft, List.append_assoc]
    rfl
  · rw [heard_append, hstatus']
  · rw [heard_append, hheaders']

/-- The body comes under the status of the lines in front of it. -/
theorem relayed (h : Heard r u q) (hlines : u.lines = []) (hchunks : u.chunks ≠ []) :
    success q.status = r.relayed := by
  obtain ⟨before, hsplit, hstatus, -⟩ := h.read
  rw [hlines, h.trailers hchunks, List.nil_append] at hsplit
  rw [hstatus, List.append_cancel_right hsplit]
  rfl

theorem honest (h : Heard r u q) (hhonest : r.Honest) (hheaders : q.headers = true)
    (hsuccess : success q.status = true) : r.relayed = true := by
  obtain ⟨before, hsplit, hstatus, hread⟩ := h.read
  refine hhonest before ?_ (hread ▸ hheaders) (hstatus ▸ hsuccess)
  rw [List.mem_inits, ← hsplit]
  exact List.prefix_append _ _

end Heard

namespace Faithful

variable {responses : Nat → Response} {s : System}

theorem start : Faithful responses (.start responses) where
  ring := ⟨Nat.zero_lt_succ _, Nat.zero_le _⟩
  heard := .start _
  fresh := fun _ => ⟨rfl, rfl, rfl, rfl⟩
  calling := nofun
  refused := fun _ => ⟨rfl, rfl⟩
  flow := fun _ => ⟨_, rfl, fun _ => rfl⟩
  running := fun _ => rfl
  result := nofun
  complete := nofun
  accepted := nofun
  unaccepted := fun _ => ⟨rfl, rfl, rfl⟩
  reading := fun _ => rfl
  ended := nofun

/-- Nothing depends on whether the request is cancelled. -/
theorem cancelIf (h : Faithful responses s) (b : Bool) :
    Faithful responses { s with request := s.request.cancelIf b } :=
  { h with heard := ⟨h.heard.read, h.heard.trailers⟩ }

theorem header {line : Text} {lines : List Text} (h : Faithful responses s)
    (hready : s.upstream.Ready) (hlines : s.upstream.lines = line :: lines) :
    Faithful responses
      { s with
        request := Http.header line s.request
        upstream := { s.upstream with lines } } :=
  have hrunning : s.upstream.result = none := hready.1.2
  { h with
    heard := h.heard.step (by rw [hlines]; rfl) rfl h.heard.trailers
    fresh := fun _ => h.fresh (by rw [hlines]; nofun)
    complete := fun hresult => absurd (hrunning.symm.trans hresult) (by decide) }

theorem trailer {line : Text} {trailers : List Text} (h : Faithful responses s)
    (hready : s.upstream.Ready) (hlines : s.upstream.lines = []) (hchunks : s.upstream.chunks = [])
    (htrailers : s.upstream.trailers = line :: trailers) :
    Faithful responses
      { s with
        request := Http.header line s.request
        upstream := { s.upstream with trailers } } :=
  have hrunning : s.upstream.result = none := hready.1.2
  { h with
    heard := h.heard.step (by rw [hlines, htrailers]; rfl) (by rw [hlines]; rfl)
      fun hne => absurd hchunks hne
    complete := fun hresult => absurd (hrunning.symm.trans hresult) (by decide) }

/-- A section of the loop with `data.drop offset` still to copy. -/
theorem copied {data rest : Text} {chunks : List Text} {fuel offset : Nat}
    (h : Faithful responses s) (hlines : s.upstream.lines = [])
    (hrelayed : (responses s.attempt).relayed = true) (hrunning : s.upstream.result = none)
    (hoffset : offset ≤ data.length)
    (htrailers : chunks ≠ [] → s.upstream.trailers = (responses s.attempt).trailers)
    (hbody : s.delivered ++ s.request.queued ++ rest = (responses s.attempt).body)
    (hrest : s.upstream.aborted = false → rest = data.drop offset ++ chunks.flatten)
    (hgoes : s.upstream.aborted = false) :
    Faithful responses (s.received data chunks (copyLoop data fuel s.request offset)) := by
  obtain ⟨queue, count, hloop, hcount, hend, hqueued⟩ :=
    @copyLoop_spec _ fuel _ _ h.ring hoffset
  have hflow : s.delivered ++ RingBuffer.contents queue queueSize s.request.head count ++
      (data.drop (copyLoop data fuel s.request offset).2.offset ++ chunks.flatten) =
        (responses s.attempt).body := by
    rw [← hbody, hrest hgoes, ← List.append_assoc, List.append_assoc s.delivered, hqueued,
      ← List.append_assoc, List.append_assoc]
  generalize copyLoop data fuel s.request offset = out at hloop hend hflow
  obtain ⟨r, received⟩ := out
  dsimp only at hloop
  subst hloop
  cases received with
  | returned n =>
      exact {
        ring := ⟨h.ring.1, hcount⟩
        heard := ⟨h.heard.read, htrailers⟩
        fresh := fun hne => absurd hlines hne
        calling := nofun
        refused := fun hrefused => absurd (hrelayed.symm.trans hrefused) (by decide)
        flow := fun _ => by
          refine ⟨_, hflow, fun hwhole => ?_⟩
          have hn : n = data.length := Decidable.not_not.mp (of_decide_eq_false hwhole)
          show data.drop n ++ chunks.flatten = [] ++ chunks.flatten
          rw [hn, List.drop_length]
        running := h.running
        result := h.result
        complete := fun hresult => absurd (hrunning.symm.trans hresult) (by decide)
        accepted := h.accepted
        unaccepted := h.unaccepted
        reading := h.reading
        ended := h.ended }
  | waiting n =>
      exact {
        ring := ⟨h.ring.1, hcount⟩
        heard := ⟨h.heard.read, htrailers⟩
        fresh := fun hne => absurd hlines hne
        calling := fun data' offset' hsome => by
          have hpair := Option.some.inj hsome
          rw [Prod.mk.injEq] at hpair
          obtain ⟨rfl, rfl⟩ := hpair
          exact ⟨hend, hrelayed, hrunning, hgoes⟩
        refused := fun hrefused => absurd (hrelayed.symm.trans hrefused) (by decide)
        flow := fun _ => ⟨_, hflow, fun _ => rfl⟩
        running := h.running
        result := h.result
        complete := fun hresult => absurd (hrunning.symm.trans hresult) (by decide)
        accepted := h.accepted
        unaccepted := h.unaccepted
        reading := h.reading
        ended := h.ended }

theorem receive {data : Text} {chunks : List Text} (h : Faithful responses s)
    (hready : s.upstream.Ready) (hlines : s.upstream.lines = [])
    (hchunks : s.upstream.chunks = data :: chunks) :
    Faithful responses (s.received data chunks (Http.receive data s.request)) := by
  obtain ⟨⟨hcalling, hrunning⟩, hgoes⟩ := hready
  have hbody : s.upstream.chunks ≠ [] := by
    rw [hchunks]
    nofun
  have htrailers : chunks ≠ [] → s.upstream.trailers = (responses s.attempt).trailers :=
    fun _ => h.heard.trailers hbody
  unfold Http.receive
  rw [h.heard.relayed hlines hbody]
  cases hrelayed : (responses s.attempt).relayed with
  | true =>
      rw [if_pos rfl]
      obtain ⟨rest, hbody, hrest⟩ := h.flow hrelayed
      refine h.copied hlines hrelayed hrunning (Nat.zero_le _) htrailers hbody
        (fun haborted => ?_) hgoes
      rw [hrest haborted]
      unfold Upstream.pending
      rw [hcalling, hchunks]
      rfl
  | false =>
      -- The queue is not touched; only the flags of the transfer and `error` change.
      rw [if_neg (by decide)]
      unfold receiveError
      split
      all_goals exact {
        ring := h.ring
        heard := ⟨h.heard.read, htrailers⟩
        fresh := fun hne => absurd hlines hne
        calling := nofun
        refused := h.refused
        flow := fun hsucceeds => absurd (hrelayed.symm.trans hsucceeds) (by decide)
        running := h.running
        result := h.result
        complete := fun hresult => absurd (hrunning.symm.trans hresult) (by decide)
        accepted := h.accepted
        unaccepted := h.unaccepted
        reading := h.reading
        ended := h.ended }

theorem receiveAgain {data : Text} {offset : Nat} (h : Faithful responses s) (late : Bool)
    (hcalling : s.upstream.calling = some (data, offset)) :
    Faithful responses (s.received data s.upstream.chunks
      (Http.receiveAgain data offset (s.request.cancelIf late))) := by
  obtain ⟨hoffset, hrelayed, hrunning, hgoes⟩ := h.calling data offset hcalling
  obtain ⟨rest, hbody, hrest⟩ := h.flow hrelayed
  have hlines : s.upstream.lines = [] := by
    by_contra hne
    rw [(h.fresh hne).1] at hcalling
    cases hcalling
  have hcopied := @copied _ _ _ _ s.upstream.chunks (data.length + 1) _ (h.cancelIf late)
    hlines hrelayed hrunning hoffset h.heard.trailers hbody (fun haborted => by
      rw [hrest haborted]
      unfold Upstream.pending
      rw [hcalling]) hgoes
  exact hcopied

theorem progress (h : Faithful responses s) (disconnected : Bool)
    (hbetween : s.upstream.Between) :
    Faithful responses
      { s with
        request := s.request.cancelIf disconnected
        upstream :=
          { s.upstream with
            aborted := s.upstream.aborted || (s.request.cancelIf disconnected).cancel } } :=
  { h with
    heard := ⟨h.heard.read, h.heard.trailers⟩
    flow := fun hrelayed => by
      obtain ⟨rest, hbody, hrest⟩ := h.flow hrelayed
      refine ⟨rest, hbody, fun hgoes => hrest ?_⟩
      exact (Bool.or_eq_false_iff.mp hgoes).1
    calling := fun _ _ hsome => absurd (hbetween.1.symm.trans hsome) nofun
    complete := fun hresult => absurd (hbetween.2.symm.trans hresult) (by decide) }

theorem finish (h : Faithful responses s) {ok : Bool} (hbetween : s.upstream.Between)
    (hok : ok = true → s.upstream.Complete) :
    Faithful responses
      { s with
        request := { s.request with failed := !ok, done := true }
        upstream := { s.upstream with result := some ok } } :=
  { h with
    heard := ⟨h.heard.read, h.heard.trailers⟩
    calling := fun _ _ hsome => absurd (hbetween.1.symm.trans hsome) nofun
    running := nofun
    result := fun ok' hresult => by rw [Option.some.inj hresult]
    complete := fun hresult => hok (Option.some.inj hresult)
    ended := fun hended => absurd (hbetween.2.symm.trans (h.ended hended).2) (by decide) }

theorem verdict_accepted {r : Request} {handler : Handler}
    (hwaits : handler = .waiting ∨ handler = .waiting400) (h : r.verdict handler = .accepted) :
    r.headers = true ∧ success r.status = true := by
  rcases hwaits with rfl | rfl
  · unfold Request.verdict at h
    dsimp only at h
    split at h
    next => cases h
    next =>
        split at h
        next => cases h
        next =>
            split at h
            next haccepts => exact haccepts.2
            next => split at h <;> cases h
  · unfold Request.verdict at h
    dsimp only at h
    split at h
    next => cases h
    next =>
        split at h
        next haccepts => exact haccepts.2
        next => split at h <;> cases h

theorem handle (h : Faithful responses s) (hhonest : (responses s.attempt).Honest) (late : Bool)
    (hwaits : s.handler = .waiting ∨ s.handler = .waiting400) :
    Faithful responses
      { s with
        request := s.request.cancelIf late
        handler := (s.request.cancelIf late).verdict s.handler } :=
  { h with
    heard := ⟨h.heard.read, h.heard.trailers⟩
    accepted := fun haccepted => by
      obtain ⟨hheaders, hsuccess⟩ := verdict_accepted hwaits haccepted
      exact h.heard.honest hhonest hheaders hsuccess
    unaccepted := fun _ => by
      refine h.unaccepted fun haccepted => ?_
      rw [haccepted] at hwaits
      cases hwaits with
      | inl hwaits => cases hwaits
      | inr hwaits => cases hwaits }

theorem giveUp (h : Faithful responses s) (hretrying : s.handler = .retrying) :
    Faithful responses { s with handler := .refused } :=
  { h with
    accepted := nofun
    unaccepted := fun _ => h.unaccepted (by rw [hretrying]; decide) }

/-- A failed attempt leaves nothing in the queue. -/
theorem retry (h : Faithful responses s) (hretrying : s.handler = .retrying) :
    Faithful responses
      { s with
        request := s.request.reset
        upstream := .start (responses (s.attempt + 1))
        attempt := s.attempt + 1
        handler := .waiting } := by
  obtain ⟨hdelivered, hreading, hended⟩ := h.unaccepted (by rw [hretrying]; decide)
  exact {
    ring := ⟨Nat.zero_lt_succ _, Nat.zero_le _⟩
    heard := ⟨⟨[], rfl, rfl, rfl⟩, fun _ => rfl⟩
    fresh := fun _ => ⟨rfl, rfl, rfl, hdelivered⟩
    calling := nofun
    refused := fun _ => ⟨rfl, hdelivered⟩
    flow := fun _ => ⟨_, by rw [hdelivered]; rfl, fun _ => rfl⟩
    running := fun _ => rfl
    result := nofun
    complete := nofun
    accepted := nofun
    unaccepted := fun _ => ⟨hdelivered, hreading, hended⟩
    reading := fun _ => hended
    ended := fun hstream => absurd (hended.symm.trans hstream) (by decide) }

/-- What is handed over was the front of the queue, and the stream ends when there is no more. -/
theorem read (h : Faithful responses s) (max : Nat) (haccepted : s.handler = .accepted)
    (hended : s.ended = none) : Faithful responses (s.read max s.request) := by
  have hrelayed := h.accepted haccepted
  unfold System.read
  split
  next =>
      exact { h with
        unaccepted := fun hne => absurd haccepted hne
        reading := fun _ => hended }
  next t r hread =>
      obtain ⟨head, count, hr, hring, hqueued⟩ := readResponse_bytes h.ring hread
      obtain ⟨rest, hbody, hrest⟩ := h.flow hrelayed
      rw [hqueued] at hbody
      subst hr
      exact {
        ring := hring
        heard := ⟨h.heard.read, h.heard.trailers⟩
        fresh := fun hne => by
          obtain ⟨hcalling, hchunks, hcount, hdelivered⟩ := h.fresh hne
          have hempty : s.request.queued = [] := by
            unfold Request.queued
            rw [hcount, RingBuffer.contents_zero]
          rw [hempty] at hqueued
          obtain ⟨ht, hnone⟩ := List.append_eq_nil_iff.mp hqueued.symm
          refine ⟨hcalling, hchunks, ?_, ?_⟩
          · have hlength := congrArg List.length hnone
            unfold Request.queued at hlength
            rw [RingBuffer.contents_length] at hlength
            exact hlength
          · show s.delivered ++ t = []
            rw [hdelivered, ht]
            rfl
        calling := h.calling
        refused := fun hrefused => absurd (hrelayed.symm.trans hrefused) (by decide)
        flow := fun _ => by
          refine ⟨rest, ?_, hrest⟩
          rw [← List.append_assoc s.delivered] at hbody
          exact hbody
        running := h.running
        result := h.result
        complete := h.complete
        accepted := h.accepted
        unaccepted := fun hne => absurd haccepted hne
        reading := fun hsome => absurd rfl hsome
        ended := fun hstream => absurd (hended.symm.trans hstream) (by decide) }
  next ending r hread =>
      obtain ⟨rfl, hcount, hstream⟩ := readResponse_ended hread
      exact { h with
        unaccepted := fun hne => absurd haccepted hne
        reading := fun hsome => absurd rfl hsome
        ended := fun hsome => by
          obtain ⟨hdone, hfailed⟩ := hstream (Option.some.inj hsome)
          have hresult : s.upstream.result = some true := by
            cases hcase : s.upstream.result with
            | none =>
                rw [h.running hcase] at hdone
                cases hdone
            | some ok =>
                have hok := h.result ok hcase
                rw [hfailed] at hok
                cases ok with
                | true => rfl
                | false => cases hok
          obtain ⟨hlines, hchunks, -, hcalling, hgoes⟩ := h.complete hresult
          obtain ⟨rest, hbody, hrest⟩ := h.flow hrelayed
          have hnone : rest = [] := by
            rw [hrest hgoes]
            unfold Upstream.pending
            rw [hcalling, hchunks]
            rfl
          have hempty : s.request.queued = [] := by
            unfold Request.queued
            rw [hcount, RingBuffer.contents_zero]
          rw [hempty, hnone, List.append_nil, List.append_nil] at hbody
          exact ⟨hbody, hresult⟩ }

theorem readAgain {max : Nat} (h : Faithful responses s) (late : Bool)
    (hreading : s.reading = some max) :
    Faithful responses (s.read max (s.request.cancelIf late)) := by
  have haccepted : s.handler = .accepted := by
    by_contra hne
    rw [(h.unaccepted hne).2.1] at hreading
    cases hreading
  exact (h.cancelIf late).read max haccepted (h.reading (by rw [hreading]; nofun))

theorem step {t : System} (h : Faithful responses s) (hhonest : (responses s.attempt).Honest)
    (hstep : Step responses s t) : Faithful responses t := by
  cases hstep with
  | header hready hlines => exact h.header hready hlines
  | trailer hready hlines hchunks htrailers => exact h.trailer hready hlines hchunks htrailers
  | receive hready hlines hchunks => exact h.receive hready hlines hchunks
  | receiveAgain late hcalling => exact h.receiveAgain late hcalling
  | progress disconnected hbetween => exact h.progress disconnected hbetween
  | finish ok hbetween hok => exact h.finish hbetween hok
  | handle late hwaits => exact h.handle hhonest late hwaits
  | giveUp hretrying => exact h.giveUp hretrying
  | retry hretrying => exact h.retry hretrying
  | read max haccepted hended => exact h.read max haccepted hended
  | readAgain late hreading => exact h.readAgain late hreading
  | completed => exact { h.cancelIf true with }

theorem reachable (hhonest : ∀ n, (responses n).Honest) (h : Reachable responses s) :
    Faithful responses s := by
  induction h with
  | refl => exact start
  | tail _ hstep ih => exact ih.step (hhonest _) hstep

end Faithful

/-! ## Whole runs -/

theorem System.received_kept (s : System) (data : Text) (chunks : List Text)
    (r : Request × Received) : (s.received data chunks r).handler = s.handler ∧
      (s.received data chunks r).attempt = s.attempt ∧
      (s.received data chunks r).delivered = s.delivered := by
  unfold System.received
  split <;> exact ⟨rfl, rfl, rfl⟩

theorem System.read_kept (s : System) (max : Nat) (r : Request) :
    (s.read max r).handler = s.handler ∧ (s.read max r).attempt = s.attempt ∧
      s.delivered <+: (s.read max r).delivered := by
  unfold System.read
  split
  · exact ⟨rfl, rfl, List.prefix_refl _⟩
  · exact ⟨rfl, rfl, List.prefix_append _ _⟩
  · exact ⟨rfl, rfl, List.prefix_refl _⟩

/-- An accepted attempt stays the accepted one, and what was handed over stays handed over. -/
theorem Step.accepted {responses : Nat → Response} {s t : System} (h : Step responses s t)
    (haccepted : s.handler = .accepted) :
    t.handler = .accepted ∧ t.attempt = s.attempt ∧ s.delivered <+: t.delivered := by
  cases h with
  | receive =>
      obtain ⟨hhandler, hattempt, hdelivered⟩ := s.received_kept _ _ _
      exact ⟨hhandler.trans haccepted, hattempt, by rw [hdelivered]⟩
  | receiveAgain =>
      obtain ⟨hhandler, hattempt, hdelivered⟩ := s.received_kept _ _ _
      exact ⟨hhandler.trans haccepted, hattempt, by rw [hdelivered]⟩
  | read =>
      obtain ⟨hhandler, hattempt, hdelivered⟩ := s.read_kept _ _
      exact ⟨hhandler.trans haccepted, hattempt, hdelivered⟩
  | readAgain =>
      obtain ⟨hhandler, hattempt, hdelivered⟩ := s.read_kept _ _
      exact ⟨hhandler.trans haccepted, hattempt, hdelivered⟩
  | handle late hwaits =>
      rw [haccepted] at hwaits
      cases hwaits with
      | inl hwaits => cases hwaits
      | inr hwaits => cases hwaits
  | giveUp hretrying =>
      rw [haccepted] at hretrying
      cases hretrying
  | retry hretrying =>
      rw [haccepted] at hretrying
      cases hretrying
  | header | trailer | progress | finish | completed =>
      exact ⟨haccepted, rfl, List.prefix_refl _⟩

theorem accepted_later {responses : Nat → Response} {s t : System}
    (h : Relation.ReflTransGen (Step responses) s t) (haccepted : s.handler = .accepted) :
    t.handler = .accepted ∧ t.attempt = s.attempt ∧ s.delivered <+: t.delivered := by
  induction h with
  | refl => exact ⟨haccepted, rfl, List.prefix_refl _⟩
  | tail _ hstep ih =>
      obtain ⟨hhandler, hattempt, hdelivered⟩ := ih
      obtain ⟨hhandler', hattempt', hdelivered'⟩ := hstep.accepted hhandler
      exact ⟨hhandler', hattempt'.trans hattempt, hdelivered.trans hdelivered'⟩

/-- When no attempt is accepted for a status that its body does not come under, then in every state
that any order of turns leads to, the client was handed a prefix of the body of
the accepted attempt and nothing of another one; what it was not handed is queued or still to come,
unless the transfer was given up; and the stream only ends when it was handed everything and the
transfer succeeded.  From its acceptance on the attempt stays the same one, and the client is only
handed more. -/
theorem relay_delivers (responses : Nat → Response) (hhonest : ∀ n, (responses n).Honest)
    (s : System) (h : Reachable responses s) :
    (s.handler ≠ .accepted → s.delivered = []) ∧
    s.delivered <+: (responses s.attempt).body ∧
    (s.handler = .accepted → s.upstream.aborted = false →
      s.delivered ++ s.request.queued ++ s.upstream.pending = (responses s.attempt).body) ∧
    (s.ended = some .endOfStream →
      s.delivered = (responses s.attempt).body ∧ s.upstream.result = some true) ∧
    (s.handler = .accepted → ∀ t, Relation.ReflTransGen (Step responses) s t →
      t.handler = .accepted ∧ t.attempt = s.attempt ∧ s.delivered <+: t.delivered) := by
  have hfaithful := Faithful.reachable hhonest h
  refine ⟨fun hne => (hfaithful.unaccepted hne).1, ?_, fun haccepted hgoes => ?_, hfaithful.ended,
    fun haccepted t hlater => accepted_later hlater haccepted⟩
  · by_cases haccepted : s.handler = .accepted
    · obtain ⟨rest, hbody, -⟩ := hfaithful.flow (hfaithful.accepted haccepted)
      rw [List.append_assoc] at hbody
      exact ⟨_, hbody⟩
    · rw [(hfaithful.unaccepted haccepted).1]
      exact List.nil_prefix
  · obtain ⟨rest, hbody, hrest⟩ := hfaithful.flow (hfaithful.accepted haccepted)
    rw [← hrest hgoes]
    exact hbody

/-- An attempt that fails and one that is relayed. -/
def failThenRelay : Nat → Response
  | 0 => ⟨[text "HTTP/1.1 500 x", [13, 10]], [text "no"], []⟩
  | _ + 1 => ⟨[text "HTTP/1.1 200 OK", [13, 10]], [text "ab", text "c"], []⟩

theorem failThenRelay_run : ∃ s, Reachable failThenRelay s ∧ s.ended = some .endOfStream ∧
    s.attempt = 1 := by
  have ready {u : Upstream} (h₁ : u.calling = none) (h₂ : u.result = none)
      (h₃ : u.aborted = false) : u.Ready := ⟨⟨h₁, h₂⟩, h₃⟩
  have h₀ : Reachable failThenRelay (.start failThenRelay) := .refl
  have h₁ := h₀.tail (Step.header (ready rfl rfl rfl) rfl)
  have h₂ := h₁.tail (Step.header (ready rfl rfl rfl) rfl)
  have h₃ := h₂.tail (Step.handle false (.inl rfl))
  have h₄ := h₃.tail (Step.receive (ready rfl rfl rfl) rfl rfl)
  have h₅ := h₄.tail (Step.finish true ⟨rfl, rfl⟩ fun _ => ⟨rfl, rfl, rfl, rfl, rfl⟩)
  have h₆ := h₅.tail (Step.retry rfl nofun)
  have h₇ := h₆.tail (Step.header (ready rfl rfl rfl) rfl)
  have h₈ := h₇.tail (Step.header (ready rfl rfl rfl) rfl)
  have h₉ := h₈.tail (Step.handle false (.inl rfl))
  have h₁₀ := h₉.tail (Step.receive (ready rfl rfl rfl) rfl rfl)
  have h₁₁ := h₁₀.tail (Step.read 1 rfl rfl rfl rfl)
  have h₁₂ := h₁₁.tail (Step.receive (ready rfl rfl rfl) rfl rfl)
  have h₁₃ := h₁₂.tail (Step.finish true ⟨rfl, rfl⟩ fun _ => ⟨rfl, rfl, rfl, rfl, rfl⟩)
  have h₁₄ := h₁₃.tail (Step.read 16384 rfl rfl rfl rfl)
  have h₁₅ := h₁₄.tail (Step.read 16384 rfl rfl rfl rfl)
  exact ⟨_, h₁₅, rfl, rfl⟩

theorem relay_delivers_sample : ∃ s, Reachable failThenRelay s ∧ s.delivered = text "abc" := by
  obtain ⟨s, hrun, hended, hattempt⟩ := failThenRelay_run
  have hhonest : ∀ n, (failThenRelay n).Honest := by
    intro n
    cases n with
    | zero => exact (by decide +kernel : (failThenRelay 0).Honest)
    | succ n => exact (by decide +kernel : (failThenRelay 1).Honest)
  have hall := (relay_delivers failThenRelay hhonest s hrun).2.2.2.1 hended
  rw [hattempt] at hall
  exact ⟨s, hrun, hall.1⟩

/-- A refusal whose trailer looks like a status line. -/
def trailed : Nat → Response := fun _ =>
  ⟨[text "HTTP/1.1 400 Bad Request", [13, 10]], [text "no"], [text "HTTP/1.1 200: x"]⟩

/-- The refusal is accepted for its trailer: the stream ends as a whole one, and nothing of the body
was handed over. -/
theorem trailer_accepted : ∃ s, Reachable trailed s ∧ s.ended = some .endOfStream ∧
    s.upstream.result = some true ∧ s.delivered = [] ∧
    (trailed s.attempt).body = text "no" := by
  have ready {u : Upstream} (h₁ : u.calling = none) (h₂ : u.result = none)
      (h₃ : u.aborted = false) : u.Ready := ⟨⟨h₁, h₂⟩, h₃⟩
  have h₀ : Reachable trailed (.start trailed) := .refl
  have h₁ := h₀.tail (Step.header (ready rfl rfl rfl) rfl)
  have h₂ := h₁.tail (Step.header (ready rfl rfl rfl) rfl)
  -- the handler waits for the whole body of a 400
  have h₃ := h₂.tail (Step.handle false (.inl rfl))
  have h₄ := h₃.tail (Step.receive (ready rfl rfl rfl) rfl rfl)
  have h₅ := h₄.tail (Step.trailer (ready rfl rfl rfl) rfl rfl rfl)
  have h₆ := h₅.tail (Step.finish true ⟨rfl, rfl⟩ fun _ => ⟨rfl, rfl, rfl, rfl, rfl⟩)
  have h₇ := h₆.tail (Step.handle false (.inr rfl))
  have h₈ := h₇.tail (Step.read 16384 rfl rfl rfl rfl)
  exact ⟨_, h₈, rfl, rfl, rfl, rfl⟩

end Recursant.Http
