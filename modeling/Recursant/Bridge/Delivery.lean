import Recursant.Bridge.Exactness
import Recursant.Bridge.Losses
import Recursant.Bridge.Wire
import Recursant.Gateway.Authority

/-!
# The bridge and the router together

Payloads reach `/v1/context` in any order and as often as the network likes, while the bridge and
the router go on.  What the router accepts carries no loss, so nothing that the bridge lost came
before it.
-/

namespace Recursant.Bridge

open Trace Gateway

/-! ## Events of the scope -/

namespace Adapter

theorem invalidate_shaped (a : Adapter) (key : Option Identity) :
    ∀ e ∈ (a.invalidate key).1, e.Shaped := by
  unfold invalidate
  split
  · simp
  · split
    · simp
    · intro e he
      rw [List.mem_singleton.mp he]
      exact ⟨by nofun, fun _ => ⟨rfl, rfl⟩⟩

theorem request_shaped (lower : Str → Str) (a : Adapter) (r : Request) (c : Context) (token : Str) :
    ∀ e ∈ (a.request lower r c token).1.events, e.Shaped := by
  have hshaped := a.invalidate_shaped (identity c)
  unfold request
  generalize a.invalidate (identity c) = first at hshaped
  obtain ⟨revoked, b⟩ := first
  dsimp only at hshaped ⊢
  split
  · split
    · exact hshaped
    · split
      · exact hshaped
      · exact hshaped
      · split
        · intro e he
          cases List.mem_append.mp he with
          | inl hfirst => exact hshaped e hfirst
          | inr hagain => exact b.invalidate_shaped _ e hagain
        · exact hshaped
  · exact hshaped

theorem associate_shaped (a : Adapter) (key : Option Identity) (m : Message) :
    ∀ e ∈ (a.associate key m).1.events, e.Shaped := by
  unfold associate
  split
  · split
    · simp
    · intro e he
      rw [List.mem_singleton.mp he]
      exact ⟨by nofun, fun _ => ⟨rfl, rfl⟩⟩
  · intro e he
    rw [List.mem_singleton.mp he]
    exact ⟨by nofun, fun _ => ⟨rfl, rfl⟩⟩

theorem response_shaped (a : Adapter) (c : Context) :
    ∀ e ∈ (a.response c).1.events, e.Shaped := by
  unfold response
  dsimp only
  split
  · exact a.invalidate_shaped _
  · intro e he
    cases List.mem_append.mp he with
    | inl hrevoked =>
        split at hrevoked
        · exact a.invalidate_shaped _ e hrevoked
        · cases hrevoked
    | inr hlast => exact associate_shaped _ _ _ e hlast

theorem tool_shaped (a : Adapter) (c : Context) : ∀ e ∈ (a.tool c).1.events, e.Shaped := by
  unfold tool
  split
  all_goals
    intro e he
    rw [List.mem_singleton.mp he]
    exact ⟨fun _ => rfl, fun h => absurd rfl h⟩

end Adapter

/-- The event names the task and the session of the scope. -/
def Registration.Covers (scope : Registration) (e : Event) : Prop :=
  ∃ k, e.identity = some k ∧ k.taskId = scope.task ∧ k.sessionId = scope.session

/-- What is queued or marked is of the scope. -/
structure Scoped (scope : Registration) (b : GatewayBridge) : Prop where
  same : b.scope = scope
  queue : ∀ p ∈ b.queue, scope.Covers p.event.event ∧ p.event.event.Shaped ∧ 0 < p.revision
  pending : ∀ e ∈ b.pendingLoss, scope.Covers e ∧ e.Shaped
  inflight : ∀ p ∈ b.inflight, scope.Covers p.event.event

namespace Scoped

variable {scope : Registration} {b : GatewayBridge}

theorem recordLoss (h : Scoped scope b) {event : Event}
    (hevent : ∀ k, event.identity = some k → scope.Covers event) :
    Scoped scope (b.recordLoss event) := by
  refine ⟨h.same, h.queue, ?_, h.inflight⟩
  unfold GatewayBridge.recordLoss
  dsimp only
  split
  · rename_i k attempt hk _
    obtain ⟨k', hk', htask, hsession⟩ := hevent k hk
    obtain rfl := Option.some.inj (hk'.symm.trans hk)
    intro e he
    obtain rfl := Option.mem_some_iff.mp he
    exact ⟨⟨k', rfl, htask, hsession⟩, by nofun, fun _ => ⟨rfl, rfl⟩⟩
  · exact h.pending

theorem emit (h : Scoped scope b) {event : Event} (hshaped : event.Shaped) :
    Scoped scope (b.emit event).2 := by
  unfold GatewayBridge.emit
  split
  · exact h
  · rename_i hscope
    have hcovers : ∀ k, event.identity = some k → scope.Covers event := by
      intro k hk
      rw [hk] at hscope
      simp only [Option.any_some, h.same, Bool.or_eq_true, decide_eq_true_eq, not_or, ne_eq,
        not_not] at hscope
      exact ⟨k, hk, hscope⟩
    have hnext : Scoped scope { b with sequence := b.sequence + 1 } :=
      ⟨h.same, h.queue, h.pending, h.inflight⟩
    dsimp only
    split
    · exact hnext.recordLoss hcovers
    · rename_i hvalid
      split
      · exact hnext.recordLoss hcovers
      · split
        · exact hnext.recordLoss hcovers
        · refine ⟨h.same, ?_, h.pending, h.inflight⟩
          intro p hp
          cases List.mem_append.mp hp with
          | inl hold => exact h.queue p hold
          | inr hlast =>
              rw [List.mem_singleton.mp hlast]
              refine ⟨?_, hshaped, Nat.succ_pos _⟩
              cases hidentity : event.identity with
              | none => simp [hidentity] at hvalid
              | some k => exact hcovers k hidentity

theorem emitAll (h : Scoped scope b) {events : List Event} (hshaped : ∀ e ∈ events, e.Shaped) :
    Scoped scope (b.emitAll events).2 := by
  induction events generalizing b with
  | nil => exact h
  | cons event events ih =>
      exact ih (h.emit (hshaped event List.mem_cons_self)) fun e he =>
        hshaped e (List.mem_cons_of_mem _ he)

theorem handOn (h : Scoped scope b) (a : Adapter) {events : List Event}
    (hshaped : ∀ e ∈ events, e.Shaped) : Scoped scope (b.handOn a events).2 :=
  emitAll (b := { b with toAdapter := a }) ⟨h.same, h.queue, h.pending, h.inflight⟩ hshaped

theorem countMore (h : Scoped scope b) : Scoped scope { b with dropped := b.dropped + 1 } :=
  ⟨h.same, h.queue, h.pending, h.inflight⟩

theorem request (h : Scoped scope b) (lower : Str → Str) (r : Request) (c : Context)
    (token : Str) : Scoped scope (b.request lower r c token).2 := by
  have hinvalidate := b.toAdapter.invalidate_shaped (identity c)
  unfold GatewayBridge.request
  split
  · exact h.handOn _ (Adapter.request_shaped _ _ _ _ _)
  · split
    · exact h
    · split
      · exact h
      · exact h.handOn _ hinvalidate
      · dsimp only
        split
        · exact (h.handOn _ hinvalidate).countMore
        · split
          · exact h.handOn _ (Adapter.request_shaped _ _ _ _ _)
          · exact (h.handOn _ (Adapter.request_shaped _ _ _ _ _)).countMore

theorem inherited (h : Scoped scope b) (result : Answer × Adapter)
    (hshaped : ∀ e ∈ result.1.events, e.Shaped) : Scoped scope (b.inherited result).2 :=
  h.handOn result.2 hshaped

theorem take (h : Scoped scope b) : Scoped scope b.take.2 ∧
    ∀ p ∈ b.take.1.taken, scope.Covers p.event.event ∧ p.event.event.Shaped ∧ 0 < p.revision := by
  unfold GatewayBridge.take
  split
  · exact ⟨h, by simp [Report.taken]⟩
  · split
    · exact ⟨⟨h.same, h.queue, h.pending, h.inflight⟩, by simp [Report.taken]⟩
    · split
      · rename_i payload queue hqueue
        obtain ⟨hcovers, hshaped, hpos⟩ := h.queue payload (by rw [hqueue]; exact .head _)
        refine ⟨⟨h.same, ?_, h.pending, ?_⟩, ?_⟩
        · intro p hp
          exact h.queue p (by rw [hqueue]; exact .tail _ hp)
        · intro p hp
          rw [← Option.mem_some_iff.mp hp]
          exact hcovers
        · intro p hp
          rw [List.mem_singleton.mp hp]
          exact ⟨hcovers, hshaped, hpos⟩
      · rename_i event hqueue hpending
        obtain ⟨hcovers, hshaped⟩ := h.pending event hpending
        refine ⟨⟨h.same, h.queue, by simp, ?_⟩, ?_⟩
        · intro p hp
          rw [← Option.mem_some_iff.mp hp]
          exact hcovers
        · intro p hp
          rw [List.mem_singleton.mp hp]
          exact ⟨hcovers, hshaped, Nat.succ_pos _⟩
      · exact ⟨h, by simp [Report.taken]⟩

theorem finish (h : Scoped scope b) (status : Option Nat) (uncaught : Bool) :
    Scoped scope (b.finish status uncaught).2 := by
  unfold GatewayBridge.finish
  split
  · exact h
  · rename_i payload hinflight
    have hended : Scoped scope
        { b with inflight := none, running := b.running && !uncaught } :=
      ⟨h.same, h.queue, h.pending, by simp⟩
    dsimp only
    split
    · exact hended.recordLoss fun _ _ => h.inflight payload hinflight
    · exact hended

theorem discard (h : Scoped scope b) (payloads : List Payload)
    (hpayloads : ∀ p ∈ payloads, scope.Covers p.event.event) :
    Scoped scope (payloads.foldl (fun b p => b.recordLoss p.event.event) b) := by
  induction payloads generalizing b with
  | nil => exact h
  | cons payload payloads ih =>
      exact ih (h.recordLoss fun _ _ => hpayloads payload (.head _)) fun p hp =>
        hpayloads p (.tail _ hp)

theorem close (h : Scoped scope b) : Scoped scope b.close.2 :=
  discard (b := { b with closed := true, queue := [] }) ⟨h.same, by simp, h.pending, h.inflight⟩
    b.queue fun p hp => (h.queue p hp).1

theorem step (h : Scoped scope b) (lower : Str → Str) (action : Action) :
    Scoped scope (bridgeStep lower b action).2 ∧ ∀ p ∈ (bridgeStep lower b action).1.taken,
      scope.Covers p.event.event ∧ p.event.event.Shaped ∧ 0 < p.revision := by
  have hnone : ∀ report : Report, report.taken = [] → ∀ p ∈ report.taken,
      scope.Covers p.event.event ∧ p.event.event.Shaped ∧ 0 < p.revision := by
    intro report hreport p hp
    rw [hreport] at hp
    cases hp
  cases action with
  | call call =>
      cases call with
      | request r c token =>
          exact ⟨h.request lower r c token, hnone _ (Accounts.request_taken b lower r c token)⟩
      | response c => exact ⟨h.inherited _ (b.toAdapter.response_shaped c), hnone _ rfl⟩
      | tool c => exact ⟨h.inherited _ (b.toAdapter.tool_shaped c), hnone _ rfl⟩
      | error c => exact ⟨h.inherited _ (b.toAdapter.invalidate_shaped _), hnone _ rfl⟩
  | take => exact h.take
  | finish status uncaught =>
      exact ⟨h.finish status uncaught, hnone _ (Accounts.finish_taken b status uncaught)⟩
  | close => exact ⟨h.close, hnone _ rfl⟩

end Scoped

/-! ## The joint machine -/

variable {ρ : Router}

/-- A bridge, a router, and the payloads that were posted so far. -/
structure Joint (ρ : Router) where
  bridge : GatewayBridge
  router : State ρ
  posted : List Payload

/-- A step of the bridge, the router's receipt of a posted payload, or any other event of the
router. -/
inductive JointAction where
  | bridge (action : Action)
  | deliver (k now : Nat) (submitted : Bool)
  | router (event : Gateway.Event)

inductive JointAnswer where
  | bridge (report : Report)
  | router (answer : Gateway.Answer)
  | idle

def jointStep (lower : Str → Str) (s : Joint ρ) : JointAction → JointAnswer × Joint ρ
  | .bridge action =>
      let (report, bridge) := bridgeStep lower s.bridge action
      (.bridge report, { s with bridge, posted := s.posted ++ report.taken })
  | .deliver k now submitted =>
      match s.posted[k]?.bind (Payload.body s.bridge.scope) with
      | none => (.idle, s)
      | some body =>
          let (answer, router) := Gateway.step s.router (.ingest body now submitted)
          (.router answer, { s with router })
  | .router event =>
      let (answer, router) := Gateway.step s.router event
      (.router answer, { s with router })

abbrev JointHistory := List (JointAction × JointAnswer)

/-- The bridge's part of a history. -/
def journal (history : JointHistory) : Journal :=
  history.filterMap fun s =>
    match s.1, s.2 with
    | .bridge action, .bridge report => some (action, report)
    | _, _ => none

@[simp] theorem journal_append (history later : JointHistory) :
    journal (history ++ later) = journal history ++ journal later :=
  List.filterMap_append ..

@[simp] theorem taken_append (early late : Journal) :
    taken (early ++ late) = taken early ++ taken late :=
  List.flatMap_append

/-- The run of the bridge in a joint run. -/
theorem joint_journal {lower : Str → Str} {start s : Joint ρ} {history : JointHistory}
    (run : Runs (jointStep lower) start history s) :
    Runs (bridgeStep lower) start.bridge (journal history) s.bridge ∧
      s.posted = start.posted ++ taken (journal history) := by
  induction run with
  | init => exact ⟨.init, by simp [journal, taken]⟩
  | @next before t u action answer run hstep ih =>
      obtain ⟨hrun, hposted⟩ := ih
      rw [journal_append]
      cases action with
      | bridge action =>
          cases hstep
          refine ⟨hrun.next (by rfl), ?_⟩
          show t.posted ++ _ = _
          rw [hposted, List.append_assoc]
          simp [journal, taken]
      | deliver k now submitted =>
          simp only [jointStep] at hstep
          have hnone : journal [(JointAction.deliver k now submitted, answer)] = [] := rfl
          rw [hnone, List.append_nil]
          split at hstep
          · cases hstep
            exact ⟨hrun, hposted⟩
          · cases hstep
            exact ⟨hrun, hposted⟩
      | router event =>
          have hnone : journal [(JointAction.router event, answer)] = [] := rfl
          rw [hnone, List.append_nil]
          cases hstep
          exact ⟨hrun, hposted⟩

variable {lower : Str → Str} {endpoint : Value} {contentEnabled : Bool} {scope : Registration}
  {capacity : Nat} {router : State ρ} {history : JointHistory} {s : Joint ρ}

/-- The start of a joint run: a new bridge, and a router in any state. -/
def Joint.init (endpoint : Value) (contentEnabled : Bool) (scope : Registration) (capacity : Nat)
    (router : State ρ) : Joint ρ :=
  ⟨.init endpoint contentEnabled scope capacity, router, []⟩

theorem scoped_init : Scoped scope (.init endpoint contentEnabled scope capacity) :=
  ⟨rfl, by simp [GatewayBridge.init], by simp [GatewayBridge.init], by simp [GatewayBridge.init]⟩

theorem runs_scoped {journal : Journal} {b : GatewayBridge}
    (run : Runs (bridgeStep lower) (.init endpoint contentEnabled scope capacity) journal b) :
    Scoped scope b ∧ ∀ p ∈ taken journal,
      scope.Covers p.event.event ∧ p.event.event.Shaped ∧ 0 < p.revision := by
  induction run with
  | init => exact ⟨scoped_init, by simp [taken]⟩
  | @next before t u action report run hstep ih =>
      obtain ⟨hscoped, htaken⟩ := ih
      have hnext := hscoped.step lower action
      rw [hstep] at hnext
      refine ⟨hnext.1, ?_⟩
      intro p hp
      simp only [taken, List.flatMap_append, List.flatMap_singleton] at hp
      cases List.mem_append.mp hp with
      | inl hold => exact htaken p hold
      | inr hlast => exact hnext.2 p hlast

/-- Nothing that the bridge lost goes unnoticed by the router. -/
structure Noticed (ρ : Router) (start : Joint ρ) (lower : Str → Str) (scope : Registration)
    (history : JointHistory) : Prop where
  accounted : Accounted (journal history)
  accepted : ∀ earlier k now submitted later,
    history = earlier ++ (.deliver k now submitted, .router (.status 202)) :: later →
    ∃ p, (taken (journal earlier))[k]? = some p ∧ ∀ n ∈ lost (journal history), p.revision ≤ n
  refused : ∀ earlier k now submitted answer later p,
    history = earlier ++ (.deliver k now submitted, answer) :: later →
    (taken (journal earlier))[k]? = some p → 1 ≤ p.event.dropped → answer ≠ .router (.status 202)
  declared : ∀ earlier k now submitted answer later p s t i body,
    history = earlier ++ (.deliver k now submitted, answer) :: later →
    Runs (jointStep lower) start earlier s →
    jointStep lower s (.deliver k now submitted) = (answer, t) →
    (taken (journal earlier))[k]? = some p → 1 ≤ p.event.dropped →
    p.body scope = some body → p.revision ≤ 9007199254740991 →
    Registers scope s.router.gateway i →
    answer = .router (.status 409) ∧ t.router.gateway.ledger.lost = true

/-- In every joint run whose invalidations are heeded, losses are noticed. -/
theorem losses_noticed (lower : Str → Str) (endpoint : Value) (contentEnabled : Bool)
    (scope : Registration) (capacity : Nat) (router : State ρ) (history : JointHistory) (s : Joint ρ)
    (run : Runs (jointStep lower) (.init endpoint contentEnabled scope capacity router) history s)
    (hheeded : Heeded (journal history)) :
    Noticed ρ (.init endpoint contentEnabled scope capacity router) lower scope history := by
  have haccounted : Accounted (journal history) := accounted_of_heeded (joint_journal run).1 hheeded
  -- What is delivered was taken, and its body is the payload's.
  have hdelivered : ∀ earlier k now submitted answer later,
      history = earlier ++ (.deliver k now submitted, answer) :: later →
      ∃ t u, Runs (jointStep lower) (.init endpoint contentEnabled scope capacity router) earlier t ∧
        jointStep lower t (.deliver k now submitted) = (answer, u) ∧
        t.posted = taken (journal earlier) ∧ t.bridge.scope = scope := by
    rintro earlier k now submitted answer later rfl
    obtain ⟨t, hearlier, hlater⟩ := run.unappend
    obtain ⟨u, hstep, _⟩ := hlater.uncons
    obtain ⟨hrun, hposted⟩ := joint_journal hearlier
    exact ⟨t, u, hearlier, hstep, hposted, (runs_scoped hrun).1.same⟩
  have hclean : ∀ earlier k now submitted later,
      history = earlier ++ (.deliver k now submitted, .router (.status 202)) :: later →
      ∃ p, (taken (journal earlier))[k]? = some p ∧ p.event.dropped = 0 := by
    intro earlier k now submitted later hsplit
    obtain ⟨t, u, _, hstep, hposted, hscope⟩ := hdelivered _ _ _ _ _ _ hsplit
    simp only [jointStep] at hstep
    split at hstep
    · cases hstep
    · rename_i body hbody
      obtain ⟨p, hp, hbody⟩ := Option.bind_eq_some_iff.mp hbody
      rw [hposted] at hp
      rw [hscope] at hbody
      have hstatus : (ingest t.router.runtime body now submitted t.router.gateway).1 = 202 := by
        have hanswer := (Prod.mk.inj hstep).1
        exact Gateway.Answer.status.inj (JointAnswer.router.inj hanswer)
      exact ⟨p, hp, dropped_of_accepted hbody hstatus⟩
  refine ⟨haccounted, ?_, ?_, ?_⟩
  · intro earlier k now submitted later hsplit
    obtain ⟨p, hp, hzero⟩ := hclean _ _ _ _ _ hsplit
    refine ⟨p, hp, haccounted.clean p ?_ hzero⟩
    rw [hsplit, journal_append, taken_append]
    exact List.mem_append_left _ (List.mem_of_getElem? hp)
  · rintro earlier k now submitted answer later p hsplit hp hdropped rfl
    obtain ⟨q, hq, hzero⟩ := hclean _ _ _ _ _ hsplit
    obtain rfl := Option.some.inj (hp.symm.trans hq)
    omega
  · intro earlier k now submitted answer later p s t i body hsplit hrun hstep hp hdropped hbody
      hrevision hregisters
    obtain ⟨hjournal, hposted⟩ := joint_journal hrun
    obtain ⟨hscoped, htaken⟩ := runs_scoped hjournal
    obtain ⟨⟨k', hk', htask, hsession⟩, hshaped, hpos⟩ := htaken p (List.mem_of_getElem? hp)
    obtain ⟨hstatus, hlost⟩ := ingest_declares hbody hregisters hk' htask hsession hshaped hpos
      hrevision hdropped s.router.runtime now submitted
    have hposted' : s.posted = taken (journal earlier) := hposted
    simp only [jointStep, hposted', hp, Option.bind_some, hscoped.same, hbody] at hstep
    cases hstep
    refine ⟨?_, hlost⟩
    show JointAnswer.router (.status (ingest _ body now submitted _).1) = _
    rw [hstatus]

/-! ## Runs with losses -/

def sampleScope : Registration where
  task := sampleIdentity.taskId
  session := sampleIdentity.sessionId
  branch := "main"
  generation := "00000000000000010000000000000001"
  taskOk := by decide
  sessionOk := by decide
  branchOk := by decide
  generationOk := by decide

def sampleJoint : Joint sampleRouter :=
  .init sampleEndpoint false sampleScope 32 (sampleStart sampleRouter)

/-- The router refuses the first response; the marker of its loss follows. -/
def refusedActions : List JointAction :=
  [.router (.open (.object [("task_id", .string "task"), ("session_id", .string "session"),
      ("branch", .string "main")]) 1),
    .bridge (.call (.request ⟨[], .pairs []⟩ (sampleContext 1) "a")),
    .bridge (.call (.response (sampleContext 1))), .bridge .take, .deliver 0 2 true,
    .bridge (.finish (some 403) false), .bridge .take, .deliver 1 3 true,
    .bridge (.finish (some 409) false)]

def refused : JointHistory × Joint sampleRouter :=
  feed (jointStep asciiLower) sampleJoint refusedActions

theorem losses_noticed_sample : Noticed sampleRouter sampleJoint asciiLower sampleScope refused.1 ∧
    (taken (journal refused.1)).map (·.event.dropped) = [0, 1] ∧ lost (journal refused.1) = [1, 2] ∧
    refused.2.router.gateway.ledger.lost = true := by
  have hseen : Heeded (journal refused.1) ∧ (taken (journal refused.1)).map (·.event.dropped) =
      [0, 1] ∧ lost (journal refused.1) = [1, 2] ∧
        refused.2.router.gateway.ledger.lost = true := by
    unfold Heeded
    decide +kernel
  exact ⟨losses_noticed asciiLower sampleEndpoint false sampleScope 32 (sampleStart sampleRouter)
    refused.1 refused.2 (Runs.feed refusedActions _) hseen.1, hseen.2⟩

/-- The post of an invalidation fails; then a response of another invocation is queued. -/
def unheededActions : List JointAction :=
  [.bridge (.call (.request ⟨[], .pairs []⟩ (sampleContext 1) "a")),
    .bridge (.call (.error (sampleContext 1))), .bridge .take, .bridge (.finish none false),
    .bridge (.call (.request ⟨[], .pairs []⟩
      { sampleContext 1 with apiRequestId := .str "next" } "b")),
    .bridge (.call (.response { sampleContext 1 with apiRequestId := .str "next" }))]

def unheeded : JointHistory × Joint sampleRouter :=
  feed (jointStep asciiLower) sampleJoint unheededActions

/-- An invalidation that the router never gets leaves no trace on what is posted after it. -/
theorem unheeded_invalidation_unnoticed : ¬ ∀ (ρ : Router) (lower : Str → Str) (endpoint : Value)
    (contentEnabled : Bool) (scope : Registration) (capacity : Nat) (router : State ρ)
    (history : JointHistory) (s : Joint ρ),
    Runs (jointStep lower) (.init endpoint contentEnabled scope capacity router) history s →
    Noticed ρ (.init endpoint contentEnabled scope capacity router) lower scope history := by
  intro h
  have hrun : Runs (jointStep asciiLower) sampleJoint unheeded.1 unheeded.2 :=
    Runs.feed unheededActions _
  have hnoticed := h sampleRouter asciiLower sampleEndpoint false sampleScope 32 _ _ _ (hrun.next
    (show jointStep asciiLower unheeded.2 (.bridge .take) = (_, _) from rfl))
  have hlost : lost (journal unheeded.1) = [1] := by decide +kernel
  have htaken : (unheeded.2.bridge.take.1.taken).map (·.event.dropped) = [0] := by decide +kernel
  have hshown := hnoticed.accounted.shown (journal unheeded.1) .take
  rw [journal_append] at hshown
  cases hreport : unheeded.2.bridge.take.1 with
  | took p =>
      rw [hreport] at htaken
      have hdropped : p.event.dropped = 0 := (List.cons.inj htaken).1
      have hone := hshown p [] (by rw [← hreport]; rfl) (by rw [hlost]; simp)
      omega
  | _ =>
      rw [hreport] at htaken
      cases htaken

end Recursant.Bridge
