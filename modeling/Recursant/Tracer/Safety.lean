import Recursant.Tracer.Server

/-!
# What the server lets through

Whatever the connections do and in whatever order: how many there are and how many are admitted, the
bytes that go upstream, whose requests these come from, and what a caller without a token is told.
-/

namespace Recursant.Tracer

open Attempts (AuthTable authBearer)
open Auth Document Holders Startup

variable {srv : Server} {c d : Connection} {active : Int} {t : House Connection}

/-! ## The connections -/

/-- The counter is exact and never above 64; the limit of the policy holds for those admitted. -/
theorem connections_accounted (h : Serves srv t) :
    t.count = t.members.countP Connection.live + t.acceptor.pending ∧
      0 ≤ t.count ∧ t.count ≤ 64 ∧
      (t.members.countP Connection.admitted : Int) ≤ max 0 srv.policy.maxInflight := by
  have haccounted := h.accounted
  exact ⟨haccounted.exact, haccounted.nonneg, haccounted.bounded, haccounted.inside⟩

theorem one_started (srv : Server) : Serves srv ⟨1, .waiting, [.fresh]⟩ :=
  .step (.step (.step .empty (.clear rfl (by decide))) (.count rfl)) (.start rfl)

/-- A configured server with one project. -/
def sampleServer : Server where
  host := "h"
  port := "80"
  maxBody := 8388608
  auth := some [some (text "s")]
  policy := ⟨8388608, 64⟩

/-! ## Every connection is sound -/

theorem sound_member (h : Serves srv t) : ∀ c ∈ t.members, Sound srv c :=
  h.member sound_fresh (fun _ _ _ _ _ hsound hact => hsound.act hact)
    fun _ _ hsound hrelease => hsound.release hrelease

theorem Sound.forwarded (h : Sound srv c) : Forwarded srv c := by
  unfold Sound at h
  cases hstage : c.stage with
  | reading buf => exact .inl (hstage ▸ h).2.1
  | routed ri rest | cleared ri rest | connected ri rest =>
      rw [hstage] at h
      exact .inl h.2.1
  | carrying ri rest =>
      rw [hstage] at h
      exact .inr ⟨ri, rest, h.1, h.2.2.1 ▸ List.prefix_append _ _⟩
  | forwarding ri remaining =>
      rw [hstage] at h
      obtain ⟨body, hcleared, hpost, hpos, hlength, hupstream, -⟩ := h
      refine .inr ⟨ri, body, hcleared, ?_⟩
      rw [hupstream, content_post hpost, List.take_of_length_le (by omega)]
  | awaiting buf | relaying head delivery =>
      rw [hstage] at h
      exact h.1.forwarded
  | finishing code | finished =>
      rw [hstage] at h
      exact h.1

/-! ## The bytes that go upstream -/

def postHead (srv : Server) (n : Int) : Text :=
  text "POST /v1/chat/completions HTTP/1.1" ++ crlf ++
    text "Host: " ++ srv.host ++ text ":" ++ srv.port ++ crlf ++
    (text "Content-Length: " ++ printLong n ++ crlf) ++ text "Connection: close" ++ crlf ++ crlf

def getHead (srv : Server) : Text :=
  text "GET /v1/models HTTP/1.1" ++ crlf ++
    text "Host: " ++ srv.host ++ text ":" ++ srv.port ++ crlf ++ [] ++
    text "Connection: close" ++ crlf ++ crlf

theorem upstreamHead_post {ri : ReqInfo} (hmethod : ri.method = text "POST")
    (hpath : ri.path = chatPath) : upstreamHead srv ri = postHead srv ri.cl := by
  have hline : text "POST" ++ text " " ++ chatPath ++ text " HTTP/1.1" =
      text "POST /v1/chat/completions HTTP/1.1" := by decide
  have hpost : ri.isPost = true := decide_eq_true hmethod
  unfold upstreamHead postHead
  rw [hpost, if_pos rfl, hmethod, hpath, hline]

theorem upstreamHead_get {ri : ReqInfo} (hmethod : ri.method = text "GET")
    (hpath : ri.path = modelsPath) : upstreamHead srv ri = getHead srv := by
  have hline : text "GET" ++ text " " ++ modelsPath ++ text " HTTP/1.1" =
      text "GET /v1/models HTTP/1.1" := by decide
  have hpost : ri.isPost = false := by
    unfold ReqInfo.isPost
    rw [hmethod]
    decide
  unfold upstreamHead getHead
  rw [hpost, if_neg Bool.false_ne_true, hmethod, hpath, hline]

/-- All that may go upstream for a request: a head that has nothing from the client but the length,
and so many bytes of its body. -/
def Upstream (srv : Server) (ri : ReqInfo) (body whole : Text) : Prop :=
  (ri.method = text "POST" ∧ ri.path = chatPath ∧ ri.hasCl = true ∧ ri.chunked = false ∧
      0 ≤ ri.cl ∧ ri.cl ≤ srv.maxBody ∧ whole = postHead srv ri.cl ++ body.take ri.cl.toNat) ∨
    (ri.method = text "GET" ∧ ri.path = modelsPath ∧ whole = getHead srv)

theorem Cleared.upstream {ri : ReqInfo} {body : Text} (h : Cleared srv c ri body) :
    Upstream srv ri body (upstreamHead srv ri ++ content ri body) := by
  obtain ⟨rest, hframed⟩ := h.framed
  cases routeStatus_eq_zero h.parsed.routed with
  | inl hroute =>
      obtain ⟨hmethod, hpath⟩ := hroute
      have hpost : ri.isPost = true := decide_eq_true hmethod
      unfold framingStatus at hframed
      rw [hpost, Bool.true_and, Bool.true_and] at hframed
      split at hframed
      · cases hframed
      next hkind =>
        split at hframed
        · cases hframed
        next hsize =>
          rw [Bool.or_eq_true, not_or, Bool.not_eq_true, Bool.not_eq_true,
            Bool.not_eq_false'] at hkind
          rw [decide_eq_true_eq] at hsize
          refine .inl ⟨hmethod, hpath, hkind.2, hkind.1, h.nonneg, by omega, ?_⟩
          rw [upstreamHead_post hmethod hpath, content_post hpost]
  | inr hroute =>
      obtain ⟨hmethod, hpath⟩ := hroute
      have hpost : ri.isPost = false := by
        unfold ReqInfo.isPost
        rw [hmethod]
        decide
      refine .inr ⟨hmethod, hpath, ?_⟩
      rw [upstreamHead_get hmethod hpath, content_get hpost, List.append_nil]

/-- The stages in which an answer is expected. -/
def Stage.answering : Stage → Bool
  | .awaiting _ => true
  | .relaying _ _ => true
  | _ => false

/-- What a connection wrote upstream is a part of that for its request; before an answer is read it
is all of it, with a body of the whole length. -/
theorem upstream_canonical (h : Serves srv t) (hc : c ∈ t.members) :
    (c.upstream = [] ∨ ∃ ri body whole, Parsed c.received ri body ∧ Upstream srv ri body whole ∧
      c.upstream <+: whole) ∧
    (c.stage.answering = true → ∃ ri body, Parsed c.received ri body ∧
      Upstream srv ri body c.upstream ∧
      (ri.isPost = true → (body.take ri.cl.toNat).length = ri.cl)) := by
  have hsound := sound_member h c hc
  constructor
  · cases hsound.forwarded with
    | inl hnil => exact .inl hnil
    | inr hsome =>
        obtain ⟨ri, body, hcleared, hpart⟩ := hsome
        exact .inr ⟨ri, body, _, hcleared.parsed, hcleared.upstream, hpart⟩
  · intro hanswering
    have hsent : Sent srv c := by
      unfold Sound at hsound
      cases hstage : c.stage with
      | awaiting buf | relaying head delivery =>
          rw [hstage] at hsound
          exact hsound.1
      | _ =>
          rw [hstage] at hanswering
          cases hanswering
    obtain ⟨ri, body, hcleared, hupstream, hlength⟩ := hsent
    refine ⟨ri, body, hcleared.parsed, hupstream ▸ hcleared.upstream, fun hpost => ?_⟩
    rw [← content_post hpost]
    exact hlength hpost

/-! ### One request -/

def sampleHead : Text :=
  text "POST /v1/chat/completions HTTP/1.1" ++ crlf ++ text "authorization: Bearer s" ++ crlf ++
    text "X-Trace: 1" ++ crlf ++ text "Content-Length: 2" ++ crlf ++ crlf

def sampleInfo : ReqInfo where
  method := "POST"
  path := chatPath
  authorization := "Bearer s"
  hasCl := true
  cl := 2

/-- The connection once its request is through. -/
def sampleConnection : Connection where
  stage := .awaiting []
  received := sampleHead ++ text "hi"
  project := some 0
  upstream := postHead sampleServer 2 ++ text "hi"
  client := []

/-- The last connection goes on after the others. -/
theorem serves_last {others : List Connection} {c' : Connection}
    (h : Serves srv ⟨1, .waiting, others ++ [c]⟩) (hact : Act srv 1 c c') (heq : c' = d) :
    Serves srv ⟨1, .waiting, others ++ [d]⟩ := by
  have hfound : (others ++ [c])[others.length]? = some c := by simp
  have hset : (others ++ [c]).set others.length c' = others ++ [d] := by simp [heq]
  have hstep := @Step.act _ (crew srv) 64 ⟨1, .waiting, others ++ [c]⟩ others.length c c' hfound hact
  rw [hset] at hstep
  exact .step h hstep

theorem serves_act {c' : Connection} (h : Serves srv ⟨1, .waiting, [c]⟩) (hact : Act srv 1 c c')
    (heq : c' = d) : Serves srv ⟨1, .waiting, [d]⟩ :=
  @serves_last _ _ _ [] _ h hact heq

theorem sample_facts : parseRequestHead sampleHead = .ok sampleInfo ∧
    headEnd (sampleHead ++ text "hi") = some sampleHead.length ∧
    admission sampleServer sampleInfo 1 = .ok (some 0) ∧
    (postHead sampleServer 2).length < 1024 := by
  decide +kernel

theorem sample_head : upstreamHead sampleServer sampleInfo = postHead sampleServer 2 :=
  upstreamHead_post rfl rfl

/-- The request is served after others that have ended. -/
theorem serves_sample {others : List Connection}
    (h : Serves sampleServer ⟨1, .waiting, others ++ [.fresh]⟩) :
    Serves sampleServer ⟨1, .waiting, others ++ [sampleConnection]⟩ := by
  obtain ⟨hparsed, hend, hadmitted, hshort⟩ := sample_facts
  have hread : Serves sampleServer ⟨1, .waiting,
      others ++ [⟨.reading (sampleHead ++ text "hi"), sampleHead ++ text "hi", none, [], []⟩]⟩ :=
    serves_last h (.receive rfl ⟨rfl, by decide⟩ ⟨by decide, by decide⟩) rfl
  have hrouted : Serves sampleServer ⟨1, .waiting,
      others ++ [⟨.routed sampleInfo (text "hi"), sampleHead ++ text "hi", none, [], []⟩]⟩ := by
    refine serves_last hread (.parse rfl hend) ?_
    unfold Connection.go parsedStage
    rw [List.take_left, List.drop_left, hparsed]
    rfl
  have hcleared : Serves sampleServer ⟨1, .waiting,
      others ++ [⟨.cleared sampleInfo (text "hi"), sampleHead ++ text "hi", some 0, [], []⟩]⟩ :=
    serves_last hrouted (.grant rfl hadmitted) rfl
  have hconnected : Serves sampleServer ⟨1, .waiting,
      others ++ [⟨.connected sampleInfo (text "hi"), sampleHead ++ text "hi", some 0, [], []⟩]⟩ :=
    serves_last hcleared (.connect rfl) rfl
  have hcarrying : Serves sampleServer ⟨1, .waiting,
      others ++ [⟨.carrying sampleInfo (text "hi"), sampleHead ++ text "hi", some 0,
        postHead sampleServer 2, []⟩]⟩ := by
    refine serves_last hconnected (.sendHead 1024 rfl (by rw [sample_head]; exact hshort)) ?_
    rw [sample_head]
    unfold Connection.send
    rw [if_pos hshort.le, List.take_of_length_le hshort.le]
    rfl
  exact serves_last hcarrying (.carry 2 rfl) rfl

theorem sample_served : Serves sampleServer ⟨1, .waiting, [sampleConnection]⟩ :=
  @serves_sample [] (one_started sampleServer)

theorem sample_canonical : sampleConnection.upstream = [] ∨ ∃ ri body whole,
    Parsed sampleConnection.received ri body ∧ Upstream sampleServer ri body whole ∧
      sampleConnection.upstream <+: whole :=
  (upstream_canonical sample_served List.mem_cons_self).1

/-! ## Whose requests go upstream -/

section

variable {getenv : Text → Option Text} {cfg : RcConfig} {o : Options} {doc : Text}

/-- The table has the tokens of the projects, in their order. -/
theorem tokens_of_init {tokens : List Text} (h : authTableInit getenv cfg = .ok tokens) :
    List.Forall₂ (fun p token => getenv p.tokenEnv = some token) cfg.projects tokens := by
  unfold authTableInit at h
  generalize cfg.projects = projects at h ⊢
  induction projects generalizing tokens with
  | nil =>
      cases h
      exact .nil
  | cons p ps ih =>
      rw [List.mapM_cons, bind_eq_ok] at h
      obtain ⟨token, htoken, h⟩ := h
      rw [bind_eq_ok] at h
      obtain ⟨rest, hrest, h⟩ := h
      cases h
      refine .cons ?_ (ih hrest)
      unfold projectToken at htoken
      rw [need_eq_ok] at htoken
      exact (Option.filter_eq_some_iff.mp htoken).1

/-- The project is the first one with the token. -/
def IssuedTo (getenv : Text → Option Text) (cfg : RcConfig) (token : Text) (p : Nat) : Prop :=
  (∃ project, cfg.projects[p]? = some project ∧ getenv project.tokenEnv = some token) ∧
    ∀ q < p, ∀ project, cfg.projects[q]? = some project → getenv project.tokenEnv ≠ some token

theorem issuedTo_of_table {tokens : List Text} {token : Text} {p : Nat}
    (h : List.Forall₂ (fun p token => getenv p.tokenEnv = some token) cfg.projects tokens)
    (hp : (tokens.map some)[p]? = some (some token))
    (hfirst : ∀ q < p, (tokens.map some)[q]? ≠ some (some token)) :
    IssuedTo getenv cfg token p := by
  have hget : ∀ q : Nat, (tokens.map some)[q]? = some (some token) ↔
      ∃ project : Project, cfg.projects[q]? = some project ∧
        getenv project.tokenEnv = some token := by
    intro q
    rw [List.getElem?_map, Option.map_eq_some_iff]
    simp only [Option.some.injEq, exists_eq_right]
    have hlength := h.length_eq
    constructor
    · intro htoken
      obtain ⟨hlt, heq⟩ := List.getElem?_eq_some_iff.mp htoken
      have hq : q < cfg.projects.length := by omega
      refine ⟨cfg.projects[q], List.getElem?_eq_getElem hq, ?_⟩
      rw [← heq]
      exact h.get hq hlt
    · rintro ⟨project, hproject, htoken⟩
      obtain ⟨hlt, heq⟩ := List.getElem?_eq_some_iff.mp hproject
      have hq : q < tokens.length := by omega
      have hsame := h.get hlt hq
      rw [List.get_eq_getElem, List.get_eq_getElem] at hsame
      change getenv cfg.projects[q].tokenEnv = some tokens[q] at hsame
      rw [heq, htoken] at hsame
      rw [List.getElem?_eq_getElem hq, Option.some.inj hsame]
  refine ⟨(hget p).mp hp, fun q hq project hproject htoken => ?_⟩
  exact hfirst q hq ((hget q).mpr ⟨project, hproject, htoken⟩)

/-- A configured server has the table of its configuration. -/
theorem startServer_config (h : startServer getenv o = .ok srv) (hconfig : o.config = some doc) :
    ∃ cfg tokens, Configures doc cfg ∧ srv.auth = some (tokens.map some) ∧
      authTableInit getenv cfg = .ok tokens := by
  unfold startServer at h
  rw [bind_ok] at h
  obtain ⟨⟨host, port⟩, -, h⟩ := h
  rw [hconfig] at h
  dsimp only at h
  rw [bind_ok] at h
  obtain ⟨⟨cfg, tokens⟩, htracer, h⟩ := h
  cases h
  unfold tracerConfig at htracer
  split at htracer
  · cases htracer
  rw [bind_ok] at htracer
  obtain ⟨cfg', hcfg, htracer⟩ := htracer
  rw [bind_ok] at htracer
  obtain ⟨tokens', htokens, htracer⟩ := htracer
  cases htracer
  rw [told_eq_ok, bind_ok] at hcfg
  obtain ⟨loaded, hload, hcfg⟩ := hcfg
  rw [bind_ok] at hcfg
  obtain ⟨u, hvalid, hcfg⟩ := hcfg
  cases hcfg
  rw [told_eq_ok, checked_eq_ok] at htokens
  exact ⟨cfg, tokens, ⟨hload, checked_eq_ok.mp hvalid⟩, rfl, htokens⟩

/-- With a configuration, no byte goes upstream but for a request whose last `Authorization` names
the token of a project, and that project is the one that it is admitted for. -/
theorem forwarded_bearer (hstart : startServer getenv o = .ok srv) (hconfig : o.config = some doc)
    (h : Serves srv t) (hc : c ∈ t.members) (hupstream : c.upstream ≠ []) :
    ∃ cfg ri body token, ∃ p : Nat, Configures doc cfg ∧ Parsed c.received ri body ∧
      Presents (some ri.authorization) token ∧ IssuedTo getenv cfg token p ∧
      c.project = some (p : Int) := by
  obtain ⟨cfg, tokens, hconfigures, hauth, hinit⟩ := startServer_config hstart hconfig
  cases (sound_member h c hc).forwarded with
  | inl hnil => exact absurd hnil hupstream
  | inr hsome =>
      obtain ⟨ri, body, hcleared, -⟩ := hsome
      obtain ⟨active, hadmitted⟩ := hcleared.admitted
      cases hproject : c.project with
      | none =>
          -- with a table there is a project for everything that is admitted
          rw [hproject] at hadmitted
          unfold admission at hadmitted
          rw [hauth] at hadmitted
          dsimp only at hadmitted
          split at hadmitted <;> cases hadmitted
      | some project =>
          rw [hproject] at hadmitted
          obtain ⟨table, htable, hok⟩ := admission_some hadmitted
          rw [hauth] at htable
          cases htable
          obtain ⟨-, ⟨p, rfl, hbearer⟩, -⟩ := admitRequest_ok.mp hok
          obtain ⟨token, -, hpresents, hp, hfirst⟩ := authBearer_eq_some.mp hbearer
          refine ⟨cfg, ri, body, token, p, hconfigures, hcleared.parsed, ?_,
            issuedTo_of_table (tokens_of_init hinit) hp hfirst, rfl⟩
          obtain ⟨scheme, hscheme, hcredentials⟩ := hpresents
          refine ⟨scheme, hscheme, ?_⟩
          unfold ReqInfo.credentials at hcredentials
          split at hcredentials
          · cases hcredentials
          · exact hcredentials

theorem sample_bearer : ∃ cfg ri body token, ∃ p : Nat, Configures tokenDocument cfg ∧
    Parsed sampleConnection.received ri body ∧ Presents (some ri.authorization) token ∧
    IssuedTo (fun _ => some (text "s")) cfg token p ∧
    sampleConnection.project = some (p : Int) := by
  have hstart : startServer (fun _ => some (text "s"))
      { upstreamBase := "http://h/v1", config := some tokenDocument } = .ok sampleServer := by
    decide +kernel
  exact forwarded_bearer hstart rfl sample_served List.mem_cons_self (by decide)

end

/-! ## Callers without a token -/

theorem Requested.unique {received body more body' : Text} {ri ri' : ReqInfo}
    (h : Requested received ri body) (h' : Requested (received ++ more) ri' body') : ri' = ri := by
  obtain ⟨head, hreceived, hend, hparse⟩ := h
  obtain ⟨head', hreceived', hend', hparse'⟩ := h'
  have hlater := (headEndFrom_append hend more).1
  have hlength : head'.length = head.length :=
    Option.some.inj (hend'.symm.trans hlater)
  have hsame : head' = head := by
    have htake := congrArg (List.take head'.length) hreceived'
    rw [List.take_left, hlength, hreceived, List.append_assoc, List.take_left] at htake
    exact htake.symm
  rw [hsame, hparse] at hparse'
  exact (Except.ok.inj hparse').symm

theorem Requested.same {received body body' : Text} {ri ri' : ReqInfo}
    (h : Requested received ri body) (h' : Requested received ri' body') : ri' = ri := by
  refine h.unique (show Requested (received ++ []) ri' body' from ?_)
  rw [List.append_nil]
  exact h'

/-- What was admitted has a token. -/
theorem Admitted.authenticated {tokens : AuthTable} {ri : ReqInfo} {project : Option Int}
    (h : Admitted srv ri project) (hauth : srv.auth = some tokens) :
    authBearer tokens ri.credentials ≠ none := by
  obtain ⟨active, hadmitted⟩ := h
  intro hnone
  unfold admission at hadmitted
  rw [hauth] at hadmitted
  dsimp only at hadmitted
  rw [admitRequest_unauthenticated hnone] at hadmitted
  split at hadmitted
  next hok =>
      split at hok <;> cases hok
  next => cases hadmitted

theorem Cleared.authenticated {tokens : AuthTable} {ri ri' : ReqInfo} {body body' more : Text}
    (h : Cleared srv c ri body) (hauth : srv.auth = some tokens)
    (hrequested : Requested (c.received ++ more) ri' body') :
    authBearer tokens ri'.credentials ≠ none := by
  rw [h.parsed.head.unique hrequested]
  exact h.admitted.authenticated hauth

/-- The status for a caller without a token.  Only a request for what the server serves comes to
the admission, where 400 shows that the policy is not met. -/
def RefusedBy (srv : Server) (ri : ReqInfo) (code : Nat) : Prop :=
  if routeStatus ri = 0 then
    code = 401 ∨ code = 400 ∧ (srv.policy.maxBodyBytes ≤ 0 ∨ srv.policy.maxInflight < 63)
  else code = routeStatus ri

theorem admission_unauthenticated {tokens : AuthTable} {ri : ReqInfo} {code : Nat}
    (hauth : srv.auth = some tokens) (hnone : authBearer tokens ri.credentials = none)
    (hrouted : routeStatus ri = 0) (hcounted : 1 ≤ active) (hbounded : active ≤ 64)
    (h : admission srv ri active = .error code) : RefusedBy srv ri code := by
  unfold RefusedBy
  rw [if_pos hrouted]
  unfold admission at h
  rw [hauth] at h
  dsimp only at h
  rw [admitRequest_unauthenticated hnone] at h
  cases hinvalid : srv.policy.invalid (active - 1) with
  | false =>
      rw [hinvalid] at h
      cases h
      exact .inl rfl
  | true =>
      rw [hinvalid] at h
      cases h
      refine .inr ⟨rfl, ?_⟩
      unfold AdmissionPolicy.invalid at hinvalid
      simp only [Bool.or_eq_true, decide_eq_true_eq] at hinvalid
      omega

/-- What is told to a caller without a token. -/
def Told (srv : Server) (tokens : AuthTable) (c : Connection) : Prop :=
  ∀ ri body, Requested c.received ri body → authBearer tokens ri.credentials = none →
    match c.stage with
    | .reading _ => True
    | .routed _ _ => True
    | .finishing code => c.upstream = [] ∧ c.client = [] ∧ RefusedBy srv ri code
    | .finished => c.upstream = [] ∧ ∃ code, RefusedBy srv ri code ∧ c.client <+: simpleReply code
    | _ => False

/-- Only the refusal ends the thread of such a caller. -/
theorem Act.refused {tokens : AuthTable} {ri : ReqInfo} {body : Text} {code : Nat}
    (hact : Act srv active c d) (hsound : Sound srv c) (hauth : srv.auth = some tokens)
    (hcounted : 1 ≤ active) (hbounded : active ≤ 64) (hcode : d.stage = .finishing code)
    (hrequested : Requested d.received ri body)
    (hnone : authBearer tokens ri.credentials = none) :
    d.upstream = [] ∧ d.client = [] ∧ RefusedBy srv ri code := by
  have hcontra : ∀ {ri' : ReqInfo} {body' : Text}, Cleared srv c ri' body' →
      ∀ more, d.received = c.received ++ more → False := by
    intro ri' body' hcleared more hreceived
    rw [hreceived] at hrequested
    exact hcleared.authenticated hauth hrequested hnone
  have hsame : d.received = c.received → d.received = c.received ++ [] := by
    intro h
    rw [h, List.append_nil]
  unfold Sound at hsound
  cases hact with
  | receive | answer | connect | relay | wake => cases hcode
  | lost hstage hroom =>
      rw [hstage] at hsound
      obtain ⟨head, -, hend, -⟩ := hrequested
      change headEnd c.received = _ at hend
      rw [hsound.1, hroom.1] at hend
      cases hend
  | oversized hstage hend' hfull =>
      rw [hstage] at hsound
      obtain ⟨head, -, hend, -⟩ := hrequested
      change headEnd c.received = _ at hend
      rw [hsound.1, hend'] at hend
      cases hend
  | @parse buf n hstage hend' =>
      rw [hstage] at hsound
      obtain ⟨head, hreceived, hend, hparse⟩ := hrequested
      change c.received = _ at hreceived
      change headEnd c.received = _ at hend
      rw [hsound.1] at hreceived hend
      rw [hend'] at hend
      cases hend
      change parsedStage buf head.length = _ at hcode
      unfold parsedStage at hcode
      rw [hreceived, List.take_left, hparse] at hcode
      dsimp only at hcode
      by_cases hrouted : routeStatus ri = 0
      · rw [if_neg (not_not.mpr hrouted)] at hcode
        cases hcode
      · -- the admission is not asked for a path or a method that is not served
        rw [if_pos hrouted] at hcode
        cases hcode
        refine ⟨hsound.2.1, hsound.2.2, ?_⟩
        unfold RefusedBy
        rw [if_neg hrouted]
  | @refuse ri' rest code' hstage hrefused =>
      rw [hstage] at hsound
      obtain ⟨hparsed', hupstream, hclient⟩ := hsound
      obtain rfl := hparsed'.head.same hrequested
      cases hcode
      exact ⟨hupstream, hclient, admission_unauthenticated hauth hnone hparsed'.routed hcounted
        hbounded hrefused⟩
  | @grant ri' rest project hstage hadmitted =>
      rw [hstage] at hsound
      have htoken : authBearer tokens ri'.credentials ≠ none :=
        Admitted.authenticated ⟨active, hadmitted⟩ hauth
      rw [hsound.1.head.same hrequested] at hnone
      exact absurd hnone htoken
  | unconnected hstage | unprintable hstage =>
      rw [hstage] at hsound
      exact (hcontra hsound.1 _ (hsame rfl)).elim
  | sendHead _ hstage | carry _ hstage =>
      rw [hstage] at hsound
      exact (hcontra hsound.1 _ (hsame send_received)).elim
  | forward taken hstage =>
      rw [hstage] at hsound
      obtain ⟨body', hcleared, -⟩ := hsound
      exact (hcontra hcleared _ rfl).elim
  | closed hstage =>
      rw [hstage] at hsound
      obtain ⟨body', hcleared, -⟩ := hsound
      exact (hcontra hcleared _ (hsame rfl)).elim
  | unanswered hstage | relayed hstage =>
      rw [hstage] at hsound
      obtain ⟨ri', body', hcleared, -⟩ := hsound.1
      exact (hcontra hcleared _ (hsame rfl)).elim

theorem told_of_sound {tokens : AuthTable} (hauth : srv.auth = some tokens)
    (hnext : ∀ code, d.stage = .finishing code → ∀ ri body, Requested d.received ri body →
      authBearer tokens ri.credentials = none →
        d.upstream = [] ∧ d.client = [] ∧ RefusedBy srv ri code)
    (hlive : d.live = true) (hsound : Sound srv d) : Told srv tokens d := by
  intro ri body hrequested hnone
  have hcontra : ∀ {ri' : ReqInfo} {body' : Text}, ¬ Cleared srv d ri' body' := by
    intro ri' body' hcleared
    refine hcleared.authenticated hauth (show Requested (d.received ++ []) ri body from ?_) hnone
    rw [List.append_nil]
    exact hrequested
  unfold Sound at hsound
  cases hstage : d.stage with
  | reading buf | routed ri rest => exact trivial
  | finishing code => exact hnext code hstage ri body hrequested hnone
  | cleared ri rest | connected ri rest | carrying ri rest =>
      rw [hstage] at hsound
      exact hcontra hsound.1
  | forwarding ri remaining =>
      rw [hstage] at hsound
      obtain ⟨body', hcleared, -⟩ := hsound
      exact hcontra hcleared
  | awaiting buf | relaying head delivery =>
      rw [hstage] at hsound
      obtain ⟨ri', body', hcleared, -⟩ := hsound.1
      exact hcontra hcleared
  | finished =>
      unfold Connection.live at hlive
      rw [hstage] at hlive
      cases hlive

theorem Told.release {tokens : AuthTable} (h : Told srv tokens c) (hrelease : Release c d) :
    Told srv tokens d := by
  cases hrelease with
  | @release code taken hstage =>
      intro ri body hrequested hnone
      have hrefused := h ri body hrequested hnone
      rw [hstage] at hrefused
      obtain ⟨hupstream, hclient, hcode⟩ := hrefused
      refine ⟨hupstream, code, hcode, ?_⟩
      show c.client ++ _ <+: _
      rw [hclient, List.nil_append]
      split
      · exact List.nil_prefix
      · exact List.take_prefix _ _

/-- A caller without the token of a project gets nothing upstream.  Asking for what the server
serves it is told 401, however full the server is and whatever the length of its body; a policy that
has room for fewer than 64 connections, or none for a body, may tell it 400 instead.  Another path
or method it is told about before its token is looked at. -/
theorem unauthenticated_told {tokens : AuthTable} (hauth : srv.auth = some tokens)
    (h : Serves srv t) (hc : c ∈ t.members) {ri : ReqInfo} {body : Text}
    (hrequested : Requested c.received ri body)
    (hnone : authBearer tokens ri.credentials = none) :
    c.upstream = [] ∧ (c.stage = .finished →
      ∃ code, RefusedBy srv ri code ∧ c.client <+: simpleReply code) := by
  have htold : ∀ c ∈ t.members, Sound srv c ∧ Told srv tokens c := by
    refine h.member ⟨sound_fresh, fun _ _ _ _ => trivial⟩ ?_ ?_
    · rintro n x y hcounted hbounded ⟨hsound, -⟩ hact
      refine ⟨hsound.act hact, told_of_sound hauth ?_ hact.live.2 (hsound.act hact)⟩
      intro code hcode ri body hrequested hnone
      exact hact.refused hsound hauth hcounted hbounded hcode hrequested hnone
    · rintro x y ⟨hsound, htold⟩ hrelease
      exact ⟨hsound.release hrelease, htold.release hrelease⟩
  obtain ⟨hsound, htold⟩ := htold c hc
  have hsaid := htold ri body hrequested hnone
  unfold Sound at hsound
  cases hstage : c.stage with
  | reading buf | routed ri rest =>
      rw [hstage] at hsound
      exact ⟨hsound.2.1, fun hfinished => by cases hfinished⟩
  | finishing code =>
      rw [hstage] at hsaid
      exact ⟨hsaid.1, fun hfinished => by cases hfinished⟩
  | finished =>
      rw [hstage] at hsaid
      exact ⟨hsaid.1, fun _ => hsaid.2⟩
  | _ =>
      rw [hstage] at hsaid
      exact hsaid.elim

def strangerHead : Text :=
  text "GET /v1/models HTTP/1.1" ++ crlf ++ text "Authorization: Bearer t" ++ crlf ++ crlf

def strangerInfo : ReqInfo where
  method := "GET"
  path := modelsPath
  authorization := "Bearer t"

def strangerConnection : Connection where
  stage := .finished
  received := strangerHead
  project := none
  upstream := []
  client := simpleReply 401

theorem stranger_facts : parseRequestHead strangerHead = .ok strangerInfo ∧
    headEnd strangerHead = some strangerHead.length ∧
    admission sampleServer strangerInfo 1 = .error 401 ∧ (simpleReply 401).length ≤ 200 ∧
    authBearer [some (text "s")] strangerInfo.credentials = none := by
  decide +kernel

theorem stranger_served : Serves sampleServer ⟨0, .waiting, [strangerConnection]⟩ := by
  obtain ⟨hparsed, hend, hadmitted, hshort, -⟩ := stranger_facts
  have hread : Serves sampleServer ⟨1, .waiting,
      [⟨.reading strangerHead, strangerHead, none, [], []⟩]⟩ :=
    serves_act (one_started _) (.receive rfl ⟨rfl, by decide⟩ ⟨by decide, by decide⟩) rfl
  have hrouted : Serves sampleServer ⟨1, .waiting,
      [⟨.routed strangerInfo [], strangerHead, none, [], []⟩]⟩ := by
    refine serves_act hread (.parse rfl hend) ?_
    unfold Connection.go parsedStage
    rw [List.take_length, List.drop_length, hparsed]
    rfl
  have hrefused : Serves sampleServer ⟨1, .waiting,
      [⟨.finishing 401, strangerHead, none, [], []⟩]⟩ :=
    serves_act hrouted (.refuse rfl hadmitted) rfl
  have hended : strangerConnection = ⟨.finished, strangerHead, none, [],
      [] ++ if 401 = 0 then [] else (simpleReply 401).take 200⟩ := by
    rw [if_neg (by decide), List.take_of_length_le hshort]
    rfl
  have hrelease : Release ⟨.finishing 401, strangerHead, none, [], []⟩ strangerConnection := by
    rw [hended]
    exact .release 200 rfl
  exact .step hrefused (@Step.release _ (crew sampleServer) _
    ⟨1, .waiting, [⟨.finishing 401, strangerHead, none, [], []⟩]⟩ 0 _ strangerConnection rfl
    hrelease)

/-- A connection that has ended and one that is served. -/
theorem connections_accounted_sample :
    (1 : Int) = [strangerConnection, sampleConnection].countP Connection.live +
        Acceptor.waiting.pending ∧ (0 : Int) ≤ 1 ∧ (1 : Int) ≤ 64 ∧
      ([strangerConnection, sampleConnection].countP Connection.admitted : Int) ≤
        max 0 sampleServer.policy.maxInflight :=
  have hnext : Serves sampleServer ⟨1, .waiting, [strangerConnection] ++ [.fresh]⟩ :=
    .step (.step (.step stranger_served (.clear rfl (by decide))) (.count rfl)) (.start rfl)
  connections_accounted (serves_sample hnext)

theorem stranger_told : strangerConnection.upstream = [] ∧ (strangerConnection.stage = .finished →
    ∃ code, RefusedBy sampleServer strangerInfo code ∧
      strangerConnection.client <+: simpleReply code) :=
  unauthenticated_told rfl stranger_served List.mem_cons_self
    ⟨strangerHead, (List.append_nil _).symm, stranger_facts.2.1, stranger_facts.1⟩
    stranger_facts.2.2.2.2

end Recursant.Tracer
