import Recursant.Auth.Admission
import Recursant.Tracer.Framing
import Recursant.Tracer.Request

/-!
# One connection

`handle_connection` of `recursant-tracer` as the steps of its thread.  What `recv`, `connect`,
`send` and the counter of connections give comes from outside; everything that is written to the two
sockets is kept.
-/

namespace Recursant.Tracer

open Attempts (AuthTable authBearer)
open Auth

/-- What the process was started with; there is no table without `--config`. -/
structure Server where
  host : Text
  port : Text
  maxBody : Int
  auth : Option AuthTable
  policy : AdmissionPolicy
  deriving DecidableEq

/-! ## Decisions -/

/-- The status of a refused admission. -/
def admitStatus : AdmitResult → Nat
  | .denyAuth => 401
  | .denyMalformed => 400
  | .denyTooLarge => 413
  | .denyOverload => 503
  | _ => 400

/-- An empty header counts as none. -/
def ReqInfo.credentials (ri : ReqInfo) : Option Text :=
  if ri.authorization = [] then none else some ri.authorization

/-- Admission with the counter of connections: the project, or the status of the refusal. -/
def admission (srv : Server) (ri : ReqInfo) (active : Int) : Except Nat (Option Int) :=
  match srv.auth with
  | none => .ok none
  | some tokens =>
      match admitRequest (some tokens) srv.policy ri.credentials (if ri.isPost then ri.cl else 0)
          (active - 1) with
      | .ok project => .ok (some project)
      | refused => .error (admitStatus refused)

/-- The checks of the framing, with the bytes behind the head; zero when they pass. -/
def framingStatus (srv : Server) (ri : ReqInfo) (rest : Text) : Nat :=
  if ri.isPost && (ri.chunked || !ri.hasCl) then 400
  else if ri.isPost && srv.maxBody < ri.cl then 413
  else if !ri.isPost && rest ≠ [] then 400
  else 0

/-- The head that goes upstream. -/
def upstreamHead (srv : Server) (ri : ReqInfo) : Text :=
  ri.method ++ text " " ++ ri.path ++ text " HTTP/1.1" ++ crlf ++
    text "Host: " ++ srv.host ++ text ":" ++ srv.port ++ crlf ++
    (if ri.isPost then text "Content-Length: " ++ printLong ri.cl ++ crlf else []) ++
    text "Connection: close" ++ crlf ++ crlf

/-! ## The thread -/

/-- Where the thread is.  `reading` and `awaiting` are in `read_head` for the client and for the
upstream, `finishing` has the status of a bare reply or zero. -/
inductive Stage where
  | reading (buf : Text)
  | routed (ri : ReqInfo) (rest : Text)
  | cleared (ri : ReqInfo) (rest : Text)
  | connected (ri : ReqInfo) (rest : Text)
  | carrying (ri : ReqInfo) (rest : Text)
  | forwarding (ri : ReqInfo) (remaining : Int)
  | awaiting (buf : Text)
  | relaying (head : Text) (d : Delivery)
  | finishing (code : Nat)
  | finished

/-- A connection with what was received from the client as its request, the project it was admitted
for, and what was written to the upstream and to the client.  What a relay writes is entered when it
is over. -/
structure Connection where
  stage : Stage
  received : Text
  project : Option Int
  upstream : Text
  client : Text

def Connection.fresh : Connection := ⟨.reading [], [], none, [], []⟩

def Connection.go (c : Connection) (stage : Stage) : Connection := { c with stage }

/-- After the whole head: what is left of the buffer is the start of the body. -/
def parsedStage (buf : Text) (n : Nat) : Stage :=
  match parseRequestHead (buf.take n) with
  | .error .unsupported => .finishing 405
  | .error .malformed => .finishing 400
  | .ok ri => if routeStatus ri ≠ 0 then .finishing (routeStatus ri) else .routed ri (buf.drop n)

/-- The framing checks behind the admission. -/
def framedStage (srv : Server) (ri : ReqInfo) (rest : Text) : Stage :=
  if framingStatus srv ri rest ≠ 0 then .finishing (framingStatus srv ri rest)
  else .cleared ri rest

/-- Once the body is through, the answer is read. -/
def bodyStage (ri : ReqInfo) (remaining : Int) : Stage :=
  if 0 < remaining then .forwarding ri remaining else .awaiting []

/-- `write_all` upstream of which `taken` bytes go out: the stage is reached when these are all. -/
def Connection.send (c : Connection) (bytes : Text) (taken code : Nat) (next : Stage) :
    Connection :=
  { c with
    upstream := c.upstream ++ bytes.take taken
    stage := if bytes.length ≤ taken then next else .finishing code }

/-- The head buffer has room and no whole head. -/
def Incomplete (buf : Text) : Prop := headEnd buf = none ∧ buf.length < headBuf

/-- Bytes that `recv` can give for a room. -/
def Fits (bytes : Text) (room : Nat) : Prop := bytes ≠ [] ∧ bytes.length ≤ room

/-- The steps of the thread.  `active` is the counter of connections; an interrupted call is made
again and is no step. -/
inductive Act (srv : Server) (active : Int) (c : Connection) : Connection → Prop where
  | receive {buf bytes : Text} : c.stage = .reading buf → Incomplete buf →
      Fits bytes (headBuf - buf.length) → Act srv active c
        { c with stage := .reading (buf ++ bytes), received := c.received ++ bytes }
  | lost {buf : Text} : c.stage = .reading buf → Incomplete buf →
      Act srv active c (c.go (.finishing 0))
  | oversized {buf : Text} : c.stage = .reading buf → headEnd buf = none → headBuf ≤ buf.length →
      Act srv active c (c.go (.finishing 400))
  | parse {buf : Text} {n : Nat} : c.stage = .reading buf → headEnd buf = some n →
      Act srv active c (c.go (parsedStage buf n))
  | refuse {ri : ReqInfo} {rest : Text} {code : Nat} : c.stage = .routed ri rest →
      admission srv ri active = .error code → Act srv active c (c.go (.finishing code))
  | grant {ri : ReqInfo} {rest : Text} {project : Option Int} : c.stage = .routed ri rest →
      admission srv ri active = .ok project →
      Act srv active c { c with stage := framedStage srv ri rest, project }
  | unconnected {ri : ReqInfo} {rest : Text} : c.stage = .cleared ri rest →
      Act srv active c (c.go (.finishing 502))
  | connect {ri : ReqInfo} {rest : Text} : c.stage = .cleared ri rest →
      Act srv active c (c.go (.connected ri rest))
  | unprintable {ri : ReqInfo} {rest : Text} : c.stage = .connected ri rest →
      1024 ≤ (upstreamHead srv ri).length → Act srv active c (c.go (.finishing 502))
  | sendHead {ri : ReqInfo} {rest : Text} (taken : Nat) : c.stage = .connected ri rest →
      (upstreamHead srv ri).length < 1024 → Act srv active c
        (c.send (upstreamHead srv ri) taken 502
          (if ri.isPost then .carrying ri rest else .awaiting []))
  | carry {ri : ReqInfo} {rest : Text} (taken : Nat) : c.stage = .carrying ri rest →
      Act srv active c (c.send (rest.take ri.cl.toNat) taken 0
        (bodyStage ri (ri.cl - (rest.take ri.cl.toNat).length)))
  | forward {ri : ReqInfo} {remaining : Int} {bytes : Text} (taken : Nat) :
      c.stage = .forwarding ri remaining → Fits bytes (min remaining.toNat relayChunk) →
      Act srv active c { c.send bytes taken 0 (bodyStage ri (remaining - bytes.length)) with
        received := c.received ++ bytes }
  | closed {ri : ReqInfo} {remaining : Int} : c.stage = .forwarding ri remaining →
      Act srv active c (c.go (.finishing 0))
  | answer {buf bytes : Text} : c.stage = .awaiting buf → Incomplete buf →
      Fits bytes (headBuf - buf.length) → Act srv active c (c.go (.awaiting (buf ++ bytes)))
  | unanswered {buf : Text} : c.stage = .awaiting buf → headEnd buf = none →
      Act srv active c (c.go (.finishing 502))
  | relay {buf : Text} {n : Nat} (headTaken leftoverTaken : Bool) : c.stage = .awaiting buf →
      headEnd buf = some n → Act srv active c
        (c.go (.relaying (buf.take n) ⟨headTaken, buf.drop n, leftoverTaken, []⟩))
  | wake {head : Text} {d : Delivery} {relay : Relay} (w : Wake) : c.stage = .relaying head d →
      relayResponse head d = .running relay →
      Act srv active c (c.go (.relaying head { d with wakes := d.wakes ++ [w] }))
  | relayed {head : Text} {d : Delivery} {code : Int} {written : Text} :
      c.stage = .relaying head d → relayResponse head d = .ended code written →
      Act srv active c { c with stage := .finishing 0, client := written }

/-- `finish`: the bare reply, of which `taken` bytes go out, and the end of the connection. -/
inductive Release (c : Connection) : Connection → Prop where
  | release {code : Nat} (taken : Nat) : c.stage = .finishing code → Release c { c with
      stage := .finished
      client := c.client ++ if code = 0 then [] else (simpleReply code).take taken }

/-! ## What goes upstream -/

/-- What was received is the head and so much of a body. -/
def Requested (received : Text) (ri : ReqInfo) (body : Text) : Prop :=
  ∃ head, received = head ++ body ∧ headEnd received = some head.length ∧
    parseRequestHead head = .ok ri

/-- A request for what the server serves. -/
structure Parsed (received : Text) (ri : ReqInfo) (body : Text) : Prop where
  head : Requested received ri body
  routed : routeStatus ri = 0

/-- The admission that let the request through, with the project it found. -/
def Admitted (srv : Server) (ri : ReqInfo) (project : Option Int) : Prop :=
  ∃ active, admission srv ri active = .ok project

/-- A request that may go upstream. -/
structure Cleared (srv : Server) (c : Connection) (ri : ReqInfo) (body : Text) : Prop where
  parsed : Parsed c.received ri body
  admitted : Admitted srv ri c.project
  framed : ∃ rest, framingStatus srv ri rest = 0

/-- The part of the body that belongs to the request. -/
def content (ri : ReqInfo) (body : Text) : Text := if ri.isPost then body.take ri.cl.toNat else []

/-- Nothing went upstream, or a part of the request's own head with its content. -/
def Forwarded (srv : Server) (c : Connection) : Prop :=
  c.upstream = [] ∨ ∃ ri body, Cleared srv c ri body ∧
    c.upstream <+: upstreamHead srv ri ++ content ri body

/-- The whole request went upstream. -/
def Sent (srv : Server) (c : Connection) : Prop :=
  ∃ ri body, Cleared srv c ri body ∧ c.upstream = upstreamHead srv ri ++ content ri body ∧
    (ri.isPost = true → (content ri body).length = ri.cl)

/-- What holds of a connection at each stage. -/
def SoundAt (srv : Server) (c : Connection) : Stage → Prop
  | .reading buf => c.received = buf ∧ c.upstream = [] ∧ c.client = []
  | .routed ri rest => Parsed c.received ri rest ∧ c.upstream = [] ∧ c.client = []
  | .cleared ri rest => Cleared srv c ri rest ∧ c.upstream = [] ∧ c.client = []
  | .connected ri rest => Cleared srv c ri rest ∧ c.upstream = [] ∧ c.client = []
  | .carrying ri rest => Cleared srv c ri rest ∧ ri.isPost = true ∧
      c.upstream = upstreamHead srv ri ∧ c.client = []
  | .forwarding ri remaining => ∃ body, Cleared srv c ri body ∧ ri.isPost = true ∧
      0 < remaining ∧ body.length + remaining = ri.cl ∧
      c.upstream = upstreamHead srv ri ++ body ∧ c.client = []
  | .awaiting _ => Sent srv c ∧ c.client = []
  | .relaying _ _ => Sent srv c ∧ c.client = []
  | .finishing code => Forwarded srv c ∧
      (c.client = [] ∨ code = 0 ∧ Sent srv c ∧ ∃ head d, c.client = (relayResponse head d).written)
  | .finished => Forwarded srv c ∧ ((∃ code, c.client <+: simpleReply code) ∨
      Sent srv c ∧ ∃ head d, c.client = (relayResponse head d).written)

def Sound (srv : Server) (c : Connection) : Prop := SoundAt srv c c.stage

variable {srv : Server} {c d : Connection} {active : Int}

theorem Sent.forwarded (h : Sent srv c) : Forwarded srv c := by
  obtain ⟨ri, body, hcleared, hupstream, -⟩ := h
  exact .inr ⟨ri, body, hcleared, hupstream ▸ List.prefix_rfl⟩

theorem forwarded_nil (h : c.upstream = []) : Forwarded srv c := .inl h

theorem sound_fresh : Sound srv .fresh := ⟨rfl, rfl, rfl⟩

theorem headEndFrom_le {passed n : Nat} {buf : Text} (h : headEndFrom passed buf = some n) :
    n ≤ passed + buf.length := by
  induction buf generalizing passed with
  | nil => cases h
  | cons b buf ih =>
      rw [headEndFrom] at h
      rw [List.length_cons]
      by_cases hstarts : (crlf ++ crlf).isPrefixOf (b :: buf) = true
      · have hfour := (List.isPrefixOf_iff_prefix.mp hstarts).length_le
        rw [if_pos hstarts] at h
        have hn := Option.some.inj h
        change 4 ≤ buf.length + 1 at hfour
        omega
      · rw [if_neg hstarts] at h
        have hlater := ih h
        omega

theorem parsed_of_headEnd {buf : Text} {n : Nat} {ri : ReqInfo} (hend : headEnd buf = some n)
    (hparse : parseRequestHead (buf.take n) = .ok ri) (hroute : routeStatus ri = 0) :
    Parsed buf ri (buf.drop n) := by
  refine ⟨⟨buf.take n, (List.take_append_drop n buf).symm, ?_, hparse⟩, hroute⟩
  have hle := headEndFrom_le hend
  rw [hend, List.length_take]
  congr 1
  omega

theorem Parsed.more {received body : Text} {ri : ReqInfo} (h : Parsed received ri body)
    (bytes : Text) : Parsed (received ++ bytes) ri (body ++ bytes) := by
  obtain ⟨head, hreceived, hend, hparse⟩ := h.head
  refine ⟨⟨head, ?_, (headEndFrom_append hend bytes).1, hparse⟩, h.routed⟩
  rw [hreceived, List.append_assoc]

/-- Written bytes are a part of what there was to write. -/
theorem take_prefix_append {whole before bytes : Text} {taken : Nat}
    (h : before ++ bytes <+: whole) : before ++ bytes.take taken <+: whole :=
  ((List.prefix_append_right_inj before).mpr (List.take_prefix taken bytes)).trans h

theorem Sent.of_go (h : Sent srv c) (stage : Stage) : Sent srv (c.go stage) := by
  obtain ⟨ri, body, hcleared, hsent⟩ := h
  exact ⟨ri, body, ⟨hcleared.parsed, hcleared.admitted, hcleared.framed⟩, hsent⟩

theorem content_post {ri : ReqInfo} (h : ri.isPost = true) (body : Text) :
    content ri body = body.take ri.cl.toNat := if_pos h

theorem content_get {ri : ReqInfo} (h : ri.isPost = false) (body : Text) : content ri body = [] :=
  if_neg (by rw [h]; decide)

/-! ## Writing upstream -/

section Send

variable {bytes : Text} {taken code : Nat} {next : Stage}

@[simp] theorem send_client : (c.send bytes taken code next).client = c.client := rfl

@[simp] theorem send_received : (c.send bytes taken code next).received = c.received := rfl

@[simp] theorem send_project : (c.send bytes taken code next).project = c.project := rfl

theorem send_stage (h : bytes.length ≤ taken) : (c.send bytes taken code next).stage = next :=
  if_pos h

theorem send_stage_short (h : ¬ bytes.length ≤ taken) :
    (c.send bytes taken code next).stage = .finishing code := if_neg h

theorem send_upstream (h : bytes.length ≤ taken) :
    (c.send bytes taken code next).upstream = c.upstream ++ bytes := by
  show c.upstream ++ bytes.take taken = _
  rw [List.take_of_length_le h]

end Send

theorem Cleared.of_same {ri : ReqInfo} {body : Text} (h : Cleared srv c ri body)
    (hreceived : d.received = c.received) (hproject : d.project = c.project) :
    Cleared srv d ri body :=
  ⟨hreceived ▸ h.parsed, hproject ▸ h.admitted, h.framed⟩

theorem Cleared.send {ri : ReqInfo} {body : Text} (h : Cleared srv c ri body) (bytes : Text)
    (taken code : Nat) (next : Stage) : Cleared srv (c.send bytes taken code next) ri body :=
  h.of_same rfl rfl

theorem Cleared.more {ri : ReqInfo} {body bytes : Text} (h : Cleared srv c ri body)
    (hreceived : d.received = c.received ++ bytes) (hproject : d.project = c.project) :
    Cleared srv d ri (body ++ bytes) :=
  ⟨hreceived ▸ h.parsed.more bytes, hproject ▸ h.admitted, h.framed⟩

theorem Cleared.nonneg {ri : ReqInfo} {body : Text} (h : Cleared srv c ri body) : 0 ≤ ri.cl := by
  obtain ⟨head, -, -, hparse⟩ := h.parsed.head
  exact parseRequestHead_nonneg hparse

/-- A short write is the end of the connection. -/
theorem soundAt_short {ri : ReqInfo} {body bytes : Text} {taken code : Nat}
    (hcleared : Cleared srv d ri body) (hupstream : d.upstream = c.upstream ++ bytes.take taken)
    (hclient : d.client = [])
    (hpart : c.upstream ++ bytes <+: upstreamHead srv ri ++ content ri body) :
    SoundAt srv d (.finishing code) := by
  refine ⟨.inr ⟨ri, body, hcleared, ?_⟩, .inl hclient⟩
  rw [hupstream]
  exact take_prefix_append hpart

/-- The head is followed by the content of a POST only. -/
theorem sound_sendHead {ri : ReqInfo} {rest : Text} (taken : Nat) (hcleared : Cleared srv c ri rest)
    (hupstream : c.upstream = []) (hclient : c.client = []) :
    Sound srv (c.send (upstreamHead srv ri) taken 502
      (if ri.isPost then .carrying ri rest else .awaiting [])) := by
  unfold Sound
  by_cases hall : (upstreamHead srv ri).length ≤ taken
  · rw [send_stage hall]
    have hwritten : ∀ next, (c.send (upstreamHead srv ri) taken 502 next).upstream =
        upstreamHead srv ri := by
      intro next
      rw [send_upstream hall, hupstream, List.nil_append]
    have hsame := hcleared.send (upstreamHead srv ri) taken 502
    by_cases hpost : ri.isPost = true
    · rw [if_pos hpost]
      exact ⟨hsame _, hpost, hwritten _, send_client.trans hclient⟩
    · rw [if_neg hpost]
      refine ⟨⟨ri, rest, hsame _, ?_, fun h => absurd h hpost⟩, send_client.trans hclient⟩
      rw [hwritten, content_get (Bool.eq_false_iff.mpr hpost), List.append_nil]
  · rw [send_stage_short hall]
    refine soundAt_short (hcleared.send _ _ _ _) rfl (send_client.trans hclient) ?_
    rw [hupstream, List.nil_append]
    exact List.prefix_append _ _

/-- What came with the head goes out first, cut to the length of the content. -/
theorem sound_carry {ri : ReqInfo} {rest : Text} (taken : Nat) (hcleared : Cleared srv c ri rest)
    (hpost : ri.isPost = true) (hupstream : c.upstream = upstreamHead srv ri)
    (hclient : c.client = []) :
    Sound srv (c.send (rest.take ri.cl.toNat) taken 0
      (bodyStage ri (ri.cl - (rest.take ri.cl.toNat).length))) := by
  have hnonneg := hcleared.nonneg
  have hlength : (rest.take ri.cl.toNat).length = min ri.cl.toNat rest.length := List.length_take
  unfold Sound
  by_cases hall : (rest.take ri.cl.toNat).length ≤ taken
  · rw [send_stage hall]
    have hwritten : ∀ next, (c.send (rest.take ri.cl.toNat) taken 0 next).upstream =
        upstreamHead srv ri ++ rest.take ri.cl.toNat := by
      intro next
      rw [send_upstream hall, hupstream]
    by_cases hleft : 0 < ri.cl - ((rest.take ri.cl.toNat).length : Int)
    · -- the buffer had less than the content
      have hshort : rest.length < ri.cl.toNat := by omega
      rw [bodyStage, if_pos hleft]
      refine ⟨rest, hcleared.send _ _ _ _, hpost, hleft, by omega, ?_, send_client.trans hclient⟩
      rw [hwritten, List.take_of_length_le (by omega)]
    · rw [bodyStage, if_neg hleft]
      refine ⟨⟨ri, rest, hcleared.send _ _ _ _, ?_, fun _ => ?_⟩, send_client.trans hclient⟩
      · rw [content_post hpost]
        exact hwritten _
      · rw [content_post hpost]
        omega
  · rw [send_stage_short hall]
    refine soundAt_short (hcleared.send _ _ _ _) rfl (send_client.trans hclient) ?_
    rw [hupstream, content_post hpost]

/-- The next bytes of the content go out as they come. -/
theorem sound_forward {ri : ReqInfo} {body bytes : Text} {remaining : Int} (taken : Nat)
    (hcleared : Cleared srv c ri body) (hpost : ri.isPost = true)
    (hlength : body.length + remaining = ri.cl) (hbytes : bytes.length ≤ remaining.toNat)
    (hpos : 0 < remaining) (hupstream : c.upstream = upstreamHead srv ri ++ body)
    (hclient : c.client = []) :
    Sound srv { c.send bytes taken 0 (bodyStage ri (remaining - bytes.length)) with
      received := c.received ++ bytes } := by
  have hfits : (body ++ bytes).length ≤ ri.cl.toNat := by
    rw [List.length_append]
    omega
  have hcontent : content ri (body ++ bytes) = body ++ bytes := by
    rw [content_post hpost, List.take_of_length_le hfits]
  show SoundAt srv _ (c.send bytes taken 0 (bodyStage ri (remaining - bytes.length))).stage
  by_cases hall : bytes.length ≤ taken
  · rw [send_stage hall]
    have hwritten : ∀ next, (c.send bytes taken 0 next).upstream =
        upstreamHead srv ri ++ (body ++ bytes) := by
      intro next
      rw [send_upstream hall, hupstream, List.append_assoc]
    by_cases hleft : 0 < remaining - (bytes.length : Int)
    · rw [bodyStage, if_pos hleft]
      refine ⟨body ++ bytes, hcleared.more rfl rfl, hpost, hleft, ?_, ?_, hclient⟩
      · rw [List.length_append]
        omega
      · exact hwritten (.forwarding ri (remaining - bytes.length))
    · rw [bodyStage, if_neg hleft]
      refine ⟨⟨ri, body ++ bytes, hcleared.more rfl rfl, ?_, fun _ => ?_⟩, hclient⟩
      · rw [hcontent]
        exact hwritten (.awaiting [])
      · rw [hcontent, List.length_append]
        omega
  · rw [send_stage_short hall]
    refine soundAt_short (hcleared.more rfl rfl) rfl (hclient) ?_
    rw [hcontent, hupstream, List.append_assoc]

/-! ## The steps -/

/-- Every step keeps what holds at its stage. -/
theorem Sound.act (h : Sound srv c) (hact : Act srv active c d) : Sound srv d := by
  unfold Sound at h
  cases hact with
  | receive hstage hroom hfits =>
      rw [hstage] at h
      obtain ⟨hreceived, hupstream, hclient⟩ := h
      exact ⟨by rw [hreceived], hupstream, hclient⟩
  | lost hstage hroom =>
      rw [hstage] at h
      exact ⟨forwarded_nil h.2.1, .inl h.2.2⟩
  | oversized hstage hend hfull =>
      rw [hstage] at h
      exact ⟨forwarded_nil h.2.1, .inl h.2.2⟩
  | @parse buf n hstage hend =>
      rw [hstage] at h
      obtain ⟨hreceived, hupstream, hclient⟩ := h
      have hrefused : ∀ code, parsedStage buf n = .finishing code →
          Sound srv (c.go (parsedStage buf n)) := by
        intro code hcode
        show SoundAt srv _ (parsedStage buf n)
        rw [hcode]
        exact ⟨forwarded_nil hupstream, .inl hclient⟩
      cases hparse : parseRequestHead (buf.take n) with
      | error e =>
          cases e with
          | malformed => exact hrefused 400 (by rw [parsedStage, hparse])
          | unsupported => exact hrefused 405 (by rw [parsedStage, hparse])
      | ok ri =>
          by_cases hroute : routeStatus ri = 0
          · have hnext : parsedStage buf n = .routed ri (buf.drop n) := by
              rw [parsedStage, hparse]
              exact if_neg (not_not.mpr hroute)
            show SoundAt srv _ (parsedStage buf n)
            rw [hnext]
            refine ⟨?_, hupstream, hclient⟩
            show Parsed c.received ri (buf.drop n)
            rw [hreceived]
            exact parsed_of_headEnd hend hparse hroute
          · refine hrefused (routeStatus ri) ?_
            rw [parsedStage, hparse]
            exact if_pos hroute
  | refuse hstage hrefused =>
      rw [hstage] at h
      exact ⟨forwarded_nil h.2.1, .inl h.2.2⟩
  | @grant ri rest project hstage hadmitted =>
      rw [hstage] at h
      obtain ⟨hparsed, hupstream, hclient⟩ := h
      show SoundAt srv _ (framedStage srv ri rest)
      unfold framedStage
      by_cases hframed : framingStatus srv ri rest = 0
      · rw [if_neg (not_not.mpr hframed)]
        exact ⟨⟨hparsed, ⟨active, hadmitted⟩, ⟨rest, hframed⟩⟩, hupstream, hclient⟩
      · rw [if_pos hframed]
        exact ⟨forwarded_nil hupstream, .inl hclient⟩
  | unconnected hstage =>
      rw [hstage] at h
      exact ⟨forwarded_nil h.2.1, .inl h.2.2⟩
  | connect hstage =>
      rw [hstage] at h
      exact ⟨h.1.of_same rfl rfl, h.2⟩
  | unprintable hstage hlong =>
      rw [hstage] at h
      exact ⟨forwarded_nil h.2.1, .inl h.2.2⟩
  | sendHead taken hstage hshort =>
      rw [hstage] at h
      exact sound_sendHead taken h.1 h.2.1 h.2.2
  | carry taken hstage =>
      rw [hstage] at h
      exact sound_carry taken h.1 h.2.1 h.2.2.1 h.2.2.2
  | forward taken hstage hfits =>
      rw [hstage] at h
      obtain ⟨body, hcleared, hpost, hpos, hlength, hupstream, hclient⟩ := h
      have hbytes := hfits.2.trans (Nat.min_le_left _ _)
      exact sound_forward taken hcleared hpost hlength hbytes hpos hupstream hclient
  | closed hstage =>
      rw [hstage] at h
      obtain ⟨body, hcleared, hpost, hpos, hlength, hupstream, hclient⟩ := h
      refine ⟨.inr ⟨_, body, hcleared.of_same rfl rfl, ?_⟩, .inl hclient⟩
      show c.upstream <+: _
      rw [hupstream, content_post hpost, List.take_of_length_le (by omega)]
  | answer hstage hroom hfits =>
      rw [hstage] at h
      exact ⟨h.1.of_go _, h.2⟩
  | unanswered hstage hend =>
      rw [hstage] at h
      exact ⟨(h.1.of_go _).forwarded, .inl h.2⟩
  | relay headTaken leftoverTaken hstage hend =>
      rw [hstage] at h
      exact ⟨h.1.of_go _, h.2⟩
  | wake w hstage hrunning =>
      rw [hstage] at h
      exact ⟨h.1.of_go _, h.2⟩
  | @relayed head delivery code written hstage hended =>
      rw [hstage] at h
      obtain ⟨ri, body, hcleared, hsent⟩ := h.1
      have hsent' : Sent srv { c with stage := .finishing 0, client := written } :=
        ⟨ri, body, hcleared.of_same rfl rfl, hsent⟩
      refine ⟨hsent'.forwarded, .inr ⟨rfl, hsent', head, delivery, ?_⟩⟩
      show written = _
      rw [hended]
      rfl

/-- The bare reply is the only one. -/
theorem Sound.release (h : Sound srv c) (hrelease : Release c d) : Sound srv d := by
  unfold Sound at h
  cases hrelease with
  | @release code taken hstage =>
      rw [hstage] at h
      obtain ⟨hforwarded, hclient⟩ := h
      have hsame : Forwarded srv { c with
          stage := .finished
          client := c.client ++ if code = 0 then [] else (simpleReply code).take taken } := by
        cases hforwarded with
        | inl hnil => exact .inl hnil
        | inr hsome =>
            obtain ⟨ri, body, hcleared, hpart⟩ := hsome
            exact .inr ⟨ri, body, hcleared.of_same rfl rfl, hpart⟩
      refine ⟨hsame, ?_⟩
      cases hclient with
      | inl hnil =>
          refine .inl ⟨code, ?_⟩
          show c.client ++ _ <+: _
          rw [hnil, List.nil_append]
          split
          · exact List.nil_prefix
          · exact List.take_prefix _ _
      | inr hrelayed =>
          obtain ⟨rfl, ⟨ri, body, hcleared, hsent⟩, head, delivery, hwritten⟩ := hrelayed
          refine .inr ⟨⟨ri, body, hcleared.of_same rfl rfl, hsent⟩, head, delivery, ?_⟩
          show c.client ++ _ = _
          rw [if_pos rfl, List.append_nil]
          exact hwritten

end Recursant.Tracer
