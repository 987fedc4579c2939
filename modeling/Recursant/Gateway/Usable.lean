import Recursant.Gateway.Advice
import Recursant.Gateway.Restriction

/-!
# The use of advice

What a preparation finds when it asks for the usable context of its scope.
-/

namespace Recursant.Gateway

open Compliance (Gated Runtime Verdict)
open Stateful Trace

variable {ρ : Router} {start s : State ρ} {w v : Worker} {history : List (Event × Answer)} {i : Slot}
  {id now : Nat} {verdict : Json → Option Text → Verdict} {polled : List InterpreterResult}

/-! ## The question -/

/-- The preparation of the exchange comes, in `m`, to place the request of scope `i`. -/
structure Consults (s : State ρ) (id now : Nat) (verdict : Json → Option Text → Verdict)
    (polled : List InterpreterResult) (i : Slot) (m : Prep ρ) : Prop where
  course : ∃ e freeRow a b, s.exchanges[id]? = some e ∧ e.prepared = false ∧
    (enter (e.call now verdict polled)).run (e.prep s.gateway) = .ok freeRow a ∧
    (resolve (e.call now verdict polled) (vet s.runtime verdict)).run a = .ok (some i) b ∧
    (contract i).run b = .ok () m

theorem Consults.edits {u : Intake} {m : Prep ρ} (h : Consults s id now verdict polled i m)
    (hpoised : Poised s) (hpolled : ∀ r ∈ polled, u.polled r) :
    Edits ρ u s.gateway m.gateway ∧ (m.gateway.scopes i).isOpen = true := by
  obtain ⟨e, freeRow, a, b, he, hfresh, henter, hresolve, hcontract⟩ := h.course
  have htidy : Tidy (e.prep s.gateway).gateway := hpoised.tidy
  have hsound : Roster.Sound ρ.settings.implicit (e.prep s.gateway).gateway.roster :=
    hpoised.fenced.sound
  have hpolled : ∀ r ∈ (e.call now verdict polled).polled, u.polled r := hpolled
  obtain ⟨hbefore, -, hseated, -, -⟩ := resolve_course hpolled htidy hsound henter hresolve
  have hdrafts := drafts_contract (w := u) i b
  rw [hcontract] at hdrafts
  have hdrafts : Drafts u (some i) b m := hdrafts
  obtain ⟨hedits, hsteady⟩ := hdrafts.edits hseated
  exact ⟨Edits.trans hbefore hedits, hsteady.isOpen i rfl⟩

/-- What was found when the context is usable. -/
structure Usable (m : Prep ρ) (i : Slot) (now expires : Nat) (k : Nat) : Prop where
  snapshot : ∃ snapshot, (Context.get m.gateway.contexts (m.gateway.scopes i).key now).1 =
    some snapshot ∧ snapshot.revision = (m.gateway.scopes i).interpretation.revision ∧
    snapshot.expiresAt = expires
  evidence : (m.gateway.scopes i).evidenceRow = some k
  last : (m.gateway.scopes i).lastRow = some k
  exact : (m.gateway.exact ρ.settings.authorization (some k) now).1 = true

/-- The exactness of a row does not depend on the contexts. -/
theorem exact_contexts {count : Nat} (g : GatewayContext count) (contexts : Context.Registry)
    (authorization : Text) (row : Option Nat) (now : Nat) :
    ({ g with contexts }.exact authorization row now).1 = (g.exact authorization row now).1 := by
  unfold GatewayContext.exact
  dsimp only
  split
  · rfl
  · split <;> rfl

theorem usableContext_eq_some {m m' : Prep ρ} {expires : Nat}
    (h : (usableContext i now).run m = .ok (some expires) m') : ∃ k, Usable m i now expires k := by
  unfold usableContext at h
  obtain ⟨u, p₁, hscope, h₁⟩ := bind_eq_ok.mp h
  cases hscope
  obtain ⟨found, p₂, hget, h₂⟩ := bind_eq_ok.mp h₁
  cases hget
  split at h₂
  · cases h₂
  · next snapshot hsnapshot =>
      obtain ⟨hsnapshot, hadvised⟩ := Option.filter_eq_some_iff.mp hsnapshot
      rw [Bool.and_eq_true, decide_eq_true_eq] at hadvised
      obtain ⟨answer, p₃, hexact, h₃⟩ := bind_eq_ok.mp h₂
      obtain ⟨hanswer, -⟩ := EStateM.Result.ok.inj hexact
      cases answer with
      | false => cases h₃
      | true =>
          rw [if_pos rfl] at h₃
          split at h₃
          · next hlast =>
              obtain ⟨hexpires, -⟩ := EStateM.Result.ok.inj h₃
              have hanswer : ({ m.gateway with
                  contexts := (Context.get m.gateway.contexts (m.gateway.scopes i).key now).2 }.exact
                  ρ.settings.authorization (m.gateway.scopes i).evidenceRow now).1 = true := hanswer
              have hlast : (m.gateway.scopes i).evidenceRow = (m.gateway.scopes i).lastRow := hlast
              rw [exact_contexts] at hanswer
              cases hrow : (m.gateway.scopes i).evidenceRow with
              | none =>
                  rw [hrow] at hanswer
                  cases hanswer
              | some k =>
                  rw [hrow] at hanswer hlast
                  exact ⟨k, ⟨snapshot, hsnapshot, hadvised.2, Option.some.inj hexpires⟩, hrow,
                    hlast.symm, hanswer⟩
          · cases h₃

/-- Only a registered scope has usable context. -/
theorem Usable.registered {m : Prep ρ} {expires k : Nat} (h : Usable m i now expires k)
    (hkeyless : Keyless m.gateway) (hopen : (m.gateway.scopes i).isOpen = true) :
    Registered (m.gateway.scopes i) := by
  refine ⟨hopen, ?_⟩
  cases himplicit : (m.gateway.scopes i).implicit with
  | false => rfl
  | true =>
      obtain ⟨snapshot, hget, -⟩ := h.snapshot
      rw [hkeyless i himplicit] at hget
      cases hget

/-- The advice that is used has a revision. -/
theorem Usable.revision {m : Prep ρ} {expires k : Nat} (h : Usable m i now expires k)
    (hnumbered : m.gateway.contexts.Numbered) :
    (m.gateway.scopes i).interpretation.revision ≠ 0 := by
  obtain ⟨snapshot, hget, hrevision, -⟩ := h.snapshot
  rw [← hrevision]
  unfold Context.get at hget
  split at hget
  · cases hget
  · next r hentered =>
      exact Context.numbered_find (Context.numbered_entered hnumbered hentered) hget

/-! ## The source of the advice that is used -/

/-- The advice that scope `i` is placed by was made from one accepted event of the same scope, which
came after the latest exchange of the scope had ended and is tied to the row of that exchange. -/
structure Sourced (start : State ρ) (history : List (Event × Answer)) (s : State ρ) (m : Prep ρ)
    (i : Slot) (now k : Nat) : Prop where
  last : (m.gateway.scopes i).lastRow = some k
  exact : (m.gateway.exact ρ.settings.authorization (some k) now).1 = true
  latest : LatestRow start history s i k
  source : Since step start (fun x event _ _ u => ∃ body t e input response,
    event = .ingest body t true ∧ submission x.runtime body t x.gateway = some input ∧
    Accepted x.gateway body i e (m.gateway.scopes i).revision ∧ e.row = k ∧
    SameTitle (x.gateway.scopes i) (m.gateway.scopes i) ∧
    (m.gateway.scopes i).serial = (x.gateway.scopes i).serial ∧
    JobOf input (m.gateway.scopes i) ∧
    (m.gateway.scopes i).interpretation = perform ρ.jansson input response ∧
    (∃ r r' : Physical, x.gateway.rows[k]? = some r ∧ m.gateway.rows[k]? = some r' ∧
      r'.attempt = r.attempt ∧ r.inUse = true) ∧
    ∀ (n : Nat) (o : Exchange ρ.settings.count), u.exchanges[n]? = some o →
      o.Ran (m.gateway.scopes i).serial → ∃ o' : Exchange ρ.settings.count,
        x.exchanges[n]? = some o' ∧ o'.Ran (m.gateway.scopes i).serial ∧
        o'.ticket.begun = false) history s

/-- An exchange that ran without a scope has no scope's number. -/
theorem Reaches.unscoped (h : Reaches ρ history s) {n : Nat} {o : Exchange ρ.settings.count}
    (ho : s.exchanges[n]? = some o) (hran : o.ticket.begun = true ∨ o.ticket.finished = true)
    (hscope : o.ticket.scope = none) : o.serial = 0 := by
  have hall : ∀ (n : Nat) (o : Exchange ρ.settings.count), s.exchanges[n]? = some o →
      o.ticket.begun = true ∨ o.ticket.finished = true → o.ticket.scope = none → o.serial = 0 := by
    refine h.invariant (P := fun s => ∀ (n : Nat) (o : Exchange ρ.settings.count),
      s.exchanges[n]? = some o → o.ticket.begun = true ∨ o.ticket.finished = true →
      o.ticket.scope = none → o.serial = 0) (fun start hstart n o ho => ?_)
      fun u event answer x _ hbefore hturn n o ho hran hscope => ?_
    · rw [hstart.exchanges] at ho
      cases ho
    · rcases hturn.exchange ho with ⟨o', ho', hsame⟩ | hnot | hfree | ⟨j, hbegins⟩
      · rw [hsame.serial]
        exact hbefore n o' ho' (hsame.ran.mp hran) (hsame.scope.symm.trans hscope)
      · exact absurd hran hnot
      · exact hfree.2
      · have hplaced := (begins_ran hbegins).2.2
        rw [hscope] at hplaced
        cases hplaced
  exact hall n o ho hran hscope

/-- No exchange of a scope that is between two exchanges is running. -/
theorem Reaches.ended (h : Reaches ρ history s) (hopen : (s.gateway.scopes i).isOpen = true)
    (hidle : (s.gateway.scopes i).inflight = false) {n : Nat} {o : Exchange ρ.settings.count}
    (ho : s.exchanges[n]? = some o) (hran : o.Ran (s.gateway.scopes i).serial) :
    o.ticket.begun = false := by
  cases hbegun : o.ticket.begun with
  | false => rfl
  | true =>
      exfalso
      have hfenced := h.fenced
      have hrunning := (hfenced.fit n o ho).begun hbegun
      have hserial : 0 < (s.gateway.scopes i).serial := (hfenced.sound.bounded i hopen).1
      cases hscope : o.ticket.scope with
      | none =>
          have hzero := h.unscoped ho hran.1 hscope
          have hsame := hran.2
          omega
      | some j =>
          have hholds := hrunning.holds j hscope
          have hsame : (s.gateway.scopes j).serial = (s.gateway.scopes i).serial :=
            hholds.2.trans hran.2
          have hji := hfenced.sound.serials j i hholds.1 hopen hsame
          have hinflight : (s.gateway.scopes j).inflight = true := hrunning.inflight j hscope
          rw [hji, hidle] at hinflight
          cases hinflight

/-- Advice that is used for a request of a scope was made from evidence that was accepted for the
same generation and branch, at the scope's current revision, after the latest exchange of the scope
had ended; the evidence is tied to the row of just that exchange, and the row is exact now. -/
theorem advice_fenced (hstart : Started ρ start) (h : Joint start history s w)
    (hfeeds : Feeds s w (.prepare id now verdict polled) v) {m m' : Prep ρ} {expires : Nat}
    (hconsults : Consults s id now verdict polled i m)
    (husable : (usableContext i now).run m = .ok (some expires) m') :
    ∃ k, (m.gateway.scopes i).evidenceRow = some k ∧ Sourced start history s m i now k := by
  have run := h.runs
  have hreaches : Reaches ρ history s := ⟨start, hstart, run⟩
  have hpoised := hreaches.poised
  obtain ⟨hinformed, hheld⟩ := h.informed hstart
  -- whatever the preparation polls is the answer to a job
  have hresults : ∀ r ∈ polled, ∃ input response, Submitted start history s input ∧
      r = perform ρ.jansson input response := by
    generalize hevent : Event.prepare id now verdict polled = event at hfeeds
    cases hfeeds with
    | prepare id' now' verdict' polled' _ hpolls =>
        obtain ⟨-, -, -, rfl⟩ := Event.prepare.inj hevent
        exact (hheld.polls hpolls).2
    | other hnone _ =>
        rw [← hevent] at hnone
        have hempty : polled = [] := hnone
        rw [hempty]
        exact nofun
    | _ => cases hevent
  let u : Intake := ⟨fun _ _ _ => False, fun r => ∃ input response,
    Submitted start history s input ∧ r = perform ρ.jansson input response⟩
  obtain ⟨hedits, hopen⟩ := hconsults.edits (u := u) hpoised hresults
  obtain ⟨k, hfound⟩ := usableContext_eq_some husable
  have hregistered := hfound.registered (hedits.keyless hpoised.tidy hreaches.keyless) hopen
  have hrevision := hfound.revision (hedits.numbered hreaches.numbered)
  refine ⟨k, hfound.evidence, ?_⟩
  cases hedits.keeps (fun _ _ _ hnever => hnever) hpoised.tidy hregistered with
  | inr hfresh =>
      have hnone := hfresh.1.evidence
      rw [hfound.evidence] at hnone
      cases hnone
  | inl hkeeps =>
      have hheard := hkeeps.heard
      have hbefore := hheard.title.registered hregistered
      have hlast : (s.gateway.scopes i).lastRow = some k := hkeeps.lastRow.symm.trans hfound.last
      have hevidence : (s.gateway.scopes i).evidenceRow = some k := by
        cases hheard.evidence with
        | inl hsame => exact hsame.symm.trans hfound.evidence
        | inr hgone =>
            rw [hfound.evidence] at hgone
            cases hgone
      -- the advice answers a job for the scope's own revision
      have hadvice : ∃ input response, Submitted start history s input ∧
          JobOf input (s.gateway.scopes i) ∧
          (m.gateway.scopes i).interpretation = perform ρ.jansson input response := by
        rcases hheard.advice with hsame | hzero | ⟨hresult, hpublishable⟩
        · rw [hsame] at hrevision ⊢
          exact (hinformed.advised i hbefore hrevision).answers
        · exact absurd hzero hrevision
        · obtain ⟨input, response, hsubmitted, hanswer⟩ := hresult
          have hresultOf := perform_resultOf ρ.jansson input response
          rw [← hanswer] at hresultOf
          have hjob : JobOf input (m.gateway.scopes i) :=
            ⟨hresultOf.generation.symm.trans hpublishable.generation.symm,
              hresultOf.branch.symm.trans hpublishable.branch.symm,
              hresultOf.revision.symm.trans hpublishable.revision.symm⟩
          exact ⟨input, response, hsubmitted, hjob.heard hheard, hanswer⟩
      obtain ⟨input, response, hsubmitted, hjob, hanswer⟩ := hadvice
      refine ⟨hfound.last, hfound.exact, hinformed.latest i k hbefore hlast, ?_⟩
      obtain ⟨earlier, event, answer, later, x, y, hhistory, hearlier, hmarked, hlater, hbears⟩ :=
        hinformed.attested i k hbefore hevidence
      obtain ⟨body, t, submitted, e, hevent, hties, hrow, hsource⟩ := hbears
      obtain ⟨hsent, hsubmission⟩ := hsource input hsubmitted hjob
      refine ⟨earlier, event, answer, later, x, y, hhistory, hearlier, hmarked, hlater, body, t, e,
        input, response, hsent ▸ hevent, hsubmission, ?_, hrow, hties.title.trans hheard.title,
        hheard.serial.trans hties.serial, hjob.later hheard, hanswer, ?_, fun n o ho hran => ?_⟩
      · rw [hheard.revision]
        exact hties.accepted
      · obtain ⟨r, r', hr, hr', hsame, hused⟩ := hties.row
        rw [hrow] at hr hr'
        obtain ⟨r'', hr'', hsame'⟩ := hkeeps.row k r' (.inr hfound.evidence) hr'
        exact ⟨r, r'', hr, hr'', hsame'.trans hsame, hused⟩
      · rw [hheard.serial] at hran ⊢
        obtain ⟨o', ho', hran'⟩ := hties.latest (hrow ▸ hlast) n o ho hran
        have hacceptable := hties.accepted.acceptable
        refine ⟨o', ho', hran', Reaches.ended ⟨start, hstart, hearlier⟩ hacceptable.isOpen
          hacceptable.idle ho' ?_⟩
        rw [← hties.serial]
        exact hran'

/-! ### A turn that is advised -/

/-- Events that the worker takes no part in. -/
theorem Joint.idle (h : Joint start history s w) (events : List Event)
    (hidle : ∀ event ∈ events, event.polled = [] ∧
      ∀ body now submitted, event ≠ .ingest body now submitted) :
    Joint start (history ++ (feed step s events).1) (feed step s events).2 w := by
  induction events generalizing history s with
  | nil =>
      show Joint start (history ++ []) s w
      rw [List.append_nil]
      exact h
  | cons event events ih =>
      obtain ⟨hpolled, hingest⟩ := hidle event List.mem_cons_self
      have hnext : Joint start (history ++ [(event, (step s event).1)]) (step s event).2 w :=
        .next h (.other hpolled hingest) Prod.mk.eta.symm
      have hrest := ih hnext fun other hother => hidle other (List.mem_cons_of_mem _ hother)
      rw [List.append_assoc] at hrest
      exact hrest

def adviceState : Json := .object [("schema_version", .string "trajectory.v1"),
  ("input_revision", .string "1"), ("phase", .string "formatting"),
  ("next_action", .string "format_result"), ("difficulty_band", .string "simple"),
  ("progress_state", .string "advancing"), ("coverage", .string "partial"),
  ("evidence_refs", .array [.string "assistant_plan"])]

def adviceText : Text := compact adviceState

/-- The completion that holds the text of the state, with its quotes escaped. -/
def adviceCompletion : Text :=
  text "\x7b\"choices\":[\x7b\"finish_reason\":\"stop\",\"message\":\x7b\"role\":\"assistant\"," ++
    text "\"content\":\"" ++ adviceText.flatMap (fun c => if c = 34 then [92, 34] else [c]) ++
    text "\"\x7d\x7d]\x7d"

/-- A reader of these two texts. -/
def adviceJansson : Jansson where
  loadb t :=
    if t = adviceCompletion then
      some (.object [("choices", .array [.object [("finish_reason", .string "stop"),
        ("message", .object [("role", .string "assistant"), ("content", .string adviceText)])]])])
    else if t = adviceText then some adviceState
    else none
  dumps := sampleJansson.dumps
  dumpsSorted := sampleJansson.dumpsSorted

def adviceRouter : Router where
  runtime := { sampleRuntime "openai-compatible" "openai-compatible" with jansson := adviceJansson }
  settings := sampleSettings
  neighbours := sampleNeighbours
  aliased := by decide

/-- A request of the registered scope. -/
def adviceRequest (turn : Text) : Request := sampleRequest
  [("X-Recursant-generation", some (generationName 1 1)), ("X-Recursant-branch", some (text "b")),
    ("X-Recursant-task-id", some (text "t")), ("X-Recursant-session-id", some (text "s")),
    ("X-Recursant-turn-id", some turn), ("X-Recursant-api-request-id", some (text "r")),
    ("X-Recursant-attempt", some (text "a"))]

/-- The source event of the turn `u`. -/
def adviceEvent : Json := .object [("schema", .string "recursant.context.v1"),
  ("kind", .string "response"), ("task_id", .string "t"), ("session_id", .string "s"),
  ("turn_id", .string "u"), ("api_request_id", .string "r"), ("attempt", .string "a"),
  ("sequence", .integer 1), ("dropped", .integer 0), ("upstream_gaps", .string "unknown"),
  ("association", .string "exact"), ("routing_eligible", .bool true),
  ("association_scope", .string "middleware_invocation"),
  ("physical_routing_eligible", .bool false),
  ("physical_attempt_uniqueness", .string "unproven"),
  ("stream_association", .string "unsupported"),
  ("text", .object [("assistant_plan", .string "x")]),
  ("text_truncated", .object [("assistant_plan", .bool false)])]

def adviceBody : Json := .object [("generation", .string (generationName 1 1)),
  ("branch", .string "b"), ("revision", .integer 1), ("event", adviceEvent)]

/-- A registered scope with one exchange that has ended. -/
def adviceEvents : List Event :=
  [.open (.object [("task_id", .string "t"), ("session_id", .string "s"), ("branch", .string "b")]) 1,
    .arrive (adviceRequest "u") 2 ⟨false, none⟩, .prepare 0 3 (fun _ _ => .unscanned) [],
    .finish 0 ⟨true, false, none, ⟨none, none, none⟩⟩ 4]

def adviceInput : InterpreterInput :=
  ⟨⟨"t", "p", generationName 1 1, "b", "trajectory", "aggregate"⟩, 1,
    [⟨"assistant_plan", "model_claim", "x"⟩]⟩

def adviceResult : InterpreterResult := perform adviceJansson adviceInput (some adviceCompletion)

/-- The state before the source event, after it, and after the result is polled. -/
def answeredState : State adviceRouter := (feed step (sampleStart adviceRouter) adviceEvents).2

def ingested (s : State adviceRouter) : State adviceRouter := (step s (.ingest adviceBody 5 true)).2

def ingestedState : State adviceRouter := ingested answeredState

def advisedState : State adviceRouter :=
  (feed step (step ingestedState (.poll 6 [adviceResult])).2
    [.arrive (adviceRequest "v") 7 ⟨false, none⟩]).2

theorem step_ingested (s : State adviceRouter) : step s (.ingest adviceBody 5 true) =
    ((step s (.ingest adviceBody 5 true)).1, ingested s) := by
  unfold ingested
  exact Prod.mk.eta.symm

/-- The event is submitted, and the second request finds the advice usable. -/
theorem advice_facts :
    submission answeredState.runtime adviceBody 5 answeredState.gateway = some adviceInput ∧
    (advisedState.exchanges[1]?).any (fun e => !e.prepared &&
      passes (fun _ a => passes (fun scope b => decide (scope = some firstSlot) &&
          passes (fun _ m => passes (fun usable _ => usable.isSome)
            ((usableContext firstSlot 8).run m)) ((contract firstSlot).run b))
        ((resolve (e.call 8 (fun _ _ => .unscanned) [])
          (vet advisedState.runtime fun _ _ => .unscanned)).run a))
        ((enter (e.call 8 (fun _ _ => .unscanned) [])).run (e.prep advisedState.gateway))) = true := by
  decide +kernel

/-- The slot that the worker uses. -/
def workerSlot : Fin GatewayContext.interpreterCapacity := ⟨0, by decide⟩

def holding (job : Job) : Worker := Function.update Worker.idle workerSlot job

theorem submit_advice : Worker.idle.submit adviceInput = some (holding (.pending adviceInput)) := by
  have hvalid : Worker.inputValid adviceInput = true := by decide +kernel
  unfold Worker.submit
  rw [if_pos hvalid]
  rfl

theorem holding_holding (first second : Job) :
    Function.update (holding first) workerSlot second = holding second :=
  Function.update_idem ..

theorem moves_advice : Worker.Moves adviceJansson (holding (.pending adviceInput))
    (holding (.running adviceInput)) := by
  have htake := Worker.Moves.take (J := adviceJansson) (w := holding (.pending adviceInput)) workerSlot
    adviceInput (fun j other => ?_) (Function.update_self ..) fun j hj => absurd hj (Nat.not_lt_zero _)
  · rw [holding_holding] at htake
    exact htake
  · by_cases hj : j = workerSlot
    · rw [hj, holding, Function.update_self]
      exact nofun
    · rw [holding, Function.update_of_ne hj]
      exact nofun

theorem poll_advice : (holding (.done adviceInput adviceResult)).poll =
    some (adviceResult, holding .free) := by
  have hpoll : (holding (.done adviceInput adviceResult)).poll = some (adviceResult,
      Function.update (holding (.done adviceInput adviceResult)) workerSlot .free) := rfl
  rw [hpoll, holding_holding]

theorem joint_advised :
    ∃ history, Joint (sampleStart adviceRouter) history advisedState (holding .free) := by
  have hquiet : ∀ event ∈ adviceEvents, event.polled = [] ∧
      ∀ body now submitted, event ≠ .ingest body now submitted := by
    intro event hevent
    simp only [adviceEvents, List.mem_cons, List.not_mem_nil, or_false] at hevent
    rcases hevent with rfl | rfl | rfl | rfl
    all_goals exact ⟨rfl, nofun⟩
  have hanswered : Joint (sampleStart adviceRouter)
      ([] ++ (feed step (sampleStart adviceRouter) adviceEvents).1) answeredState Worker.idle :=
    Joint.init.idle adviceEvents hquiet
  have hsubmitted : Feeds answeredState Worker.idle (.ingest adviceBody 5 true)
      (holding (.pending adviceInput)) :=
    .submitted adviceBody 5 advice_facts.1 submit_advice
  have hingested := hanswered.next hsubmitted (step_ingested answeredState)
  have hleave : Worker.Moves adviceJansson (holding (.running adviceInput))
      (holding (.done adviceInput adviceResult)) := by
    have hleft := Worker.Moves.leave (J := adviceJansson) (w := holding (.running adviceInput))
      workerSlot adviceInput (some adviceCompletion) (Function.update_self ..)
    rw [holding_holding] at hleft
    exact hleft
  have hdone := (hingested.work moves_advice).work hleave
  have hpolled := hdone.next (.poll 6 [adviceResult] (by decide) (.next poll_advice (.stop _)))
    Prod.mk.eta.symm
  exact ⟨_, hpolled.idle [.arrive (adviceRequest "v") 7 ⟨false, none⟩] fun event hevent =>
    List.mem_singleton.mp hevent ▸ ⟨rfl, nofun⟩⟩

/-- The second request of the scope is advised by the event of the first turn. -/
theorem advice_fenced_sample : ∃ history m k,
    Joint (sampleStart adviceRouter) history advisedState (holding .free) ∧
    (m.gateway.scopes firstSlot).evidenceRow = some k ∧
    Sourced (sampleStart adviceRouter) history advisedState m firstSlot 8 k := by
  obtain ⟨e, he, hchecked⟩ := (Option.any_eq_true _ _).mp advice_facts.2
  rw [Bool.and_eq_true, Bool.not_eq_true'] at hchecked
  obtain ⟨freeRow, a, henter, hchecked'⟩ := ok_of_passes hchecked.2
  obtain ⟨scope, b, hresolve, hchecked'⟩ := ok_of_passes hchecked'
  rw [Bool.and_eq_true, decide_eq_true_eq] at hchecked'
  obtain ⟨rfl, hchecked'⟩ := hchecked'
  obtain ⟨_, m, hcontract, hchecked'⟩ := ok_of_passes hchecked'
  obtain ⟨usable, m', husable, hsome⟩ := ok_of_passes hchecked'
  obtain ⟨expires, rfl⟩ := Option.isSome_iff_exists.mp hsome
  obtain ⟨history, hjoint⟩ := joint_advised
  have hfeeds : Feeds advisedState (holding .free) (.prepare 1 8 (fun _ _ => .unscanned) [])
      (holding .free) := .prepare 1 8 _ [] (Nat.zero_le _) (.stop _)
  obtain ⟨k, hevidence, hsourced⟩ := advice_fenced (started_sampleStart adviceRouter) hjoint hfeeds
    ⟨e, freeRow, a, b, he, hchecked.1, henter, hresolve, hcontract⟩ husable
  exact ⟨history, m, k, hjoint, hevidence, hsourced⟩

end Recursant.Gateway
