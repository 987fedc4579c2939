import Recursant.Gateway.Course
import Recursant.Gateway.Reachable

/-!
# Turns of the router

Every step of a reachable router is one of a few kinds: a series of changes, the beginning of an
exchange or the denial of one, its shadow, a retry, and its end.
-/

namespace Recursant.Gateway

open Compliance (Gated gate)

variable {ρ : Router}

/-! ## Retries -/

/-- What a retry does: without a target it withdraws the reasoning field at most, and with one it
moves the request. -/
inductive Retreat (vetting : Json → Endpoint → Gated) (h : GatewayHeaders) (now : Nat)
    (p : Prep ρ) : Bool → Prep ρ → Prop where
  | refused : Retreat vetting h now p false p
  | stranded : p.ticket.begun = true → Retreat vetting h now p false (withdrawEffort p)
  | moved (source : ρ.Index) (limit : Nat) (body : Json) (endpoint : Endpoint) :
      p.ticket.begun = true → p.ticket.finished = false →
      ρ.candidateOf p.endpoint (modelOf p.body) = some source →
      failOver ρ (withdrawEffort p).gateway vetting p.ticket.scope
        ((withdrawEffort p).gateway.mustBePrivate ρ.settings.implicit p.ticket.scope h)
        (withdrawEffort p).body source limit now = some (body, endpoint) →
      Retreat vetting h now p true (moved { withdrawEffort p with body, endpoint } limit)

theorem withdrawEffort_ticket (p : Prep ρ) : (withdrawEffort p).ticket = p.ticket :=
  (withdrawEffort_spec p).ticket

theorem failover_retreat (vetting : Json → Endpoint → Gated) (automatic : Bool)
    (h : GatewayHeaders) (context : Bool) (now : Nat) (p : Prep ρ) :
    Retreat vetting h now p (failover vetting automatic h context now p).1
      (failover vetting automatic h context now p).2 := by
  unfold failover
  split
  · exact .refused
  · next hgo =>
      simp only [Bool.or_eq_true, Bool.not_eq_true', not_or, Bool.not_eq_false,
        Bool.not_eq_true] at hgo
      split
      · exact .refused
      · next source hsource =>
          dsimp only
          split
          · exact .stranded hgo.1.2
          · next body endpoint hover =>
              rw [withdrawEffort_ticket] at hover
              exact .moved source _ body endpoint hgo.1.2 hgo.2 hsource hover

/-- The scope of a retried request is the same one. -/
theorem withdrawEffort_kept (p : Prep ρ) (i : Slot) :
    Kept (p.gateway.scopes i) ((withdrawEffort p).gateway.scopes i) := by
  unfold withdrawEffort
  split
  · exact .refl _
  · next j _ =>
      by_cases hij : i = j
      · rw [hij]
        show Kept _ ((p.gateway.setScope j _).scopes j)
        rw [scopes_setScope_self]
        exact ⟨rfl, id, id⟩
      · show Kept _ ((p.gateway.setScope j _).scopes i)
        rw [scopes_setScope_of_ne _ _ hij]
        exact .refl _

/-! ## Turns -/

/-- The interpreter results that come with an event. -/
def Event.polled : Event → List InterpreterResult
  | .poll _ results => results
  | .prepare _ _ _ polled => polled
  | _ => []

/-- What the event brings along is among the intake. -/
structure Takes (w : Intake) (s : State ρ) (event : Event) : Prop where
  polled : ∀ r ∈ event.polled, w.polled r
  accepted : ∀ body now submitted, event = .ingest body now submitted → ∀ i e revision,
    Ingested s.gateway body i e revision → w.accepted i e revision

/-- Whatever comes. -/
def Intake.any : Intake := ⟨fun _ _ _ => True, fun _ => True⟩

theorem takes_any (s : State ρ) (event : Event) : Takes .any s event :=
  ⟨fun _ _ => trivial, fun _ _ _ _ _ _ _ _ => trivial⟩

/-- The call that prepares an exchange. -/
def Exchange.call (e : Exchange ρ.settings.count) (now : Nat)
    (verdict : Json → Option Text → Compliance.Verdict) (polled : List InterpreterResult) : Call :=
  ⟨e.request.automatic, e.request.headers, now, verdict, e.judged, polled⟩

/-- The exchange that a preparation leaves when it goes through. -/
def Exchange.begin (e : Exchange ρ.settings.count) (q : Prep ρ) : Exchange ρ.settings.count :=
  { e.after q with
    serial := q.serial
    prepared := true
    live := (dispatch (ρ := ρ) q.body q.endpoint).isDispatch }

/-- One step, by its kind. -/
inductive Turn (w : Intake) (s : State ρ) : Event → Answer → State ρ → Prop where
  | edited {event : Event} {answer : Answer} {t : State ρ} : Edits ρ w s.gateway t.gateway →
      t.exchanges = s.exchanges → t.provenance = s.provenance →
      answer.isDispatch = false → Turn w s event answer t
  | arrived {request : Request} {now : Nat} {judged : Judgement} {answer : Answer} {t : State ρ} :
      Edits ρ w s.gateway t.gateway →
      t.exchanges = s.exchanges ++ [⟨request, (if asks s.runtime request.automatic request.headers
        request.body now s.gateway then judged else ⟨false, none⟩), request.body,
        request.endpoint, .fresh, ⟨.null, .priv, none⟩, 0, false, false, 0, false⟩] →
      t.provenance = s.provenance → answer.isDispatch = false →
      Turn w s (.arrive request now judged) answer t
  | denied {id now : Nat} {verdict : Json → Option Text → Compliance.Verdict}
      {polled : List InterpreterResult} {e : Exchange ρ.settings.count} {status : Nat}
      {q : Prep ρ} : s.exchanges[id]? = some e → e.prepared = false →
      (prepare (e.call now verdict polled) (vet s.runtime verdict)).run (e.prep s.gateway) =
        .error status q →
      Denied w (e.prep s.gateway) q →
      Turn w s (.prepare id now verdict polled) (.denied status)
        (s.setExchange id { e.after q with prepared := true } q.gateway)
  | began {id now : Nat} {verdict : Json → Option Text → Compliance.Verdict}
      {polled : List InterpreterResult} {e : Exchange ρ.settings.count} {placed : Placed}
      {a b d q : Prep ρ} : s.exchanges[id]? = some e → e.prepared = false →
      Course (e.call now verdict polled) (vet s.runtime verdict) w placed (e.prep s.gateway) a b d
        q →
      Turn w s (.prepare id now verdict polled) (dispatch (ρ := ρ) q.body q.endpoint)
        (s.setExchange id (e.begin q) q.gateway)
  | shadowed {id : Nat} {started : Bool} {e : Exchange ρ.settings.count} {q : Prep ρ}
      {copy : Option (Json × Endpoint)} : s.exchanges[id]? = some e →
      (copy, q) = shadow s.vetting e.request.automatic e.request.headers started
        (e.prep s.gateway) →
      Aside s.gateway q.gateway → Beside (e.prep s.gateway) q → Untaken e.ticket q.ticket →
      Turn w s (.shadow id started) (.copied copy)
        (s.setExchange id { e.after q with sampled := true } q.gateway)
  | retried {id now : Nat} {context : Bool} {e : Exchange ρ.settings.count} {moved : Bool}
      {q : Prep ρ} {answer : Answer} : s.exchanges[id]? = some e → e.live = true →
      Retreat s.vetting e.request.headers now (e.prep s.gateway) moved q →
      answer = (if moved then dispatch (ρ := ρ) q.body q.endpoint else .denied 502) →
      Turn w s (.failover id context now) answer
        (s.setExchange id { e.after q with
          attempt := e.attempt + 1
          live := answer.isDispatch } q.gateway)
  | ended {id now : Nat} {f : Finish} {e : Exchange ρ.settings.count} :
      s.exchanges[id]? = some e → e.ticket.begun = true → e.ticket.finished = false →
      Turn w s (.finish id f now) .done (finishStep s id e f now)

theorem Turn.idle {w : Intake} {s : State ρ} {event : Event} {answer : Answer}
    (h : answer.isDispatch = false) : Turn w s event answer s :=
  .edited (.refl _) rfl rfl h

/-- What every turn finds. -/
structure Poised (s : State ρ) : Prop where
  fenced : Fenced s
  tidy : Tidy s.gateway

section Steps

variable {w : Intake} {s : State ρ}

theorem prepareStep_turn (hpoised : Poised s) {id now : Nat} {e : Exchange ρ.settings.count}
    {verdict : Json → Option Text → Compliance.Verdict} {polled : List InterpreterResult}
    (he : s.exchanges[id]? = some e) (hfresh : e.prepared = false)
    (hpolled : ∀ r ∈ polled, w.polled r) :
    Turn w s (.prepare id now verdict polled)
      (prepareStep s id e (e.call now verdict polled)).1
      (prepareStep s id e (e.call now verdict polled)).2 := by
  unfold prepareStep
  have hpolled : ∀ r ∈ (e.call now verdict polled).polled, w.polled r := hpolled
  have hsound : Roster.Sound ρ.settings.implicit (e.prep s.gateway).gateway.roster :=
    hpoised.fenced.sound
  have htidy : Tidy (e.prep s.gateway).gateway := hpoised.tidy
  split
  · next status q hrun =>
      exact .denied he hfresh hrun (prepare_denied hpolled htidy hsound hrun)
  · next q hrun =>
      obtain ⟨placed, a, b, d, hcourse⟩ := prepare_course hpolled htidy hsound hrun
      exact .began he hfresh hcourse

theorem step_prepare {id : Nat} {e : Exchange ρ.settings.count} (he : s.exchanges[id]? = some e)
    (hfresh : e.prepared = false) (now : Nat) (verdict : Json → Option Text → Compliance.Verdict)
    (polled : List InterpreterResult) : step s (.prepare id now verdict polled) =
      prepareStep s id e (e.call now verdict polled) := by
  unfold step
  dsimp only
  rw [he, Option.filter_some, hfresh]
  rfl

theorem shadow_untaken (vetting : Json → Endpoint → Gated) (automatic : Bool)
    (h : GatewayHeaders) (started : Bool) (p : Prep ρ) :
    Aside p.gateway (shadow vetting automatic h started p).2.gateway ∧
      Untaken p.ticket (shadow vetting automatic h started p).2.ticket := by
  unfold shadow
  split
  · next config i _ _ =>
      split
      · exact ⟨.refl _, .refl _⟩
      · dsimp only
        split
        · exact ⟨.refl _, .refl _⟩
        · have hsample := aside_shadowSample config p.gateway
          split
          · exact ⟨hsample, .refl _⟩
          · exact ⟨⟨hsample.rows, hsample.scopes, hsample.labels, hsample.boot,
              hsample.generations, hsample.inflight, hsample.opened, hsample.numbered⟩,
              ⟨rfl, rfl, rfl, rfl, rfl⟩⟩
  · exact ⟨.refl _, .refl _⟩

theorem finishStep_idle {id now : Nat} {e : Exchange ρ.settings.count} (f : Finish)
    (hfenced : Fenced s) (he : s.exchanges[id]? = some e)
    (hidle : ¬(e.ticket.begun = true ∧ e.ticket.finished = false)) :
    finishStep s id e f now = s := by
  have hfit := hfenced.fit id e he
  have hbegun : e.ticket.begun = false := by
    cases hbegun : e.ticket.begun with
    | false => rfl
    | true => exact absurd ⟨hbegun, (hfit.begun hbegun).finished⟩ hidle
  have hlive : e.live = false := by
    cases hlive : e.live with
    | false => rfl
    | true =>
        have hnow := hfit.live hlive
        rw [hbegun] at hnow
        cases hnow
  have hfinish : finish f now s.gateway e.ticket = (s.gateway, e.ticket, none) := by
    unfold finish
    rw [hbegun]
    rfl
  have hsame : { e with ticket := e.ticket, live := false } = e := by
    rw [← hlive]
  have hset : s.exchanges.set id e = s.exchanges := by
    obtain ⟨hlt, hget⟩ := List.getElem?_eq_some_iff.mp he
    rw [← hget, List.set_getElem_self]
  unfold finishStep
  rw [hfinish]
  dsimp only
  rw [hsame]
  unfold State.setExchange
  rw [hset]

/-- Every step is a turn. -/
theorem step_turn {t : State ρ} {event : Event} {answer : Answer} (hpoised : Poised s)
    (htakes : Takes w s event) (hstep : step s event = (answer, t)) : Turn w s event answer t := by
  have hedits : ∀ {event answer} {g : GatewayContext ρ.settings.count}, Edits ρ w s.gateway g →
      answer.isDispatch = false → Turn w s event answer { s with gateway := g } :=
    fun h hanswer => .edited h rfl rfl hanswer
  cases event with
  | «open» body now =>
      cases hstep
      exact hedits (shifts_openScope hpoised.tidy body now).edits rfl
  | close body now =>
      cases hstep
      exact hedits (shifts_close s.gateway body now).edits rfl
  | hint body now =>
      cases hstep
      exact hedits (shifts_hint s.gateway body now).edits rfl
  | ingest body now submitted =>
      cases hstep
      exact hedits (shifts_ingest s.gateway s.runtime body now submitted
        (htakes.accepted body now submitted rfl)).edits rfl
  | poll now results =>
      cases hstep
      exact hedits (shifts_pollLocked s.gateway _ now results htakes.polled).edits rfl
  | arrive request now judged =>
      cases hstep
      exact .arrived (.single (.aside (aside_recordJudgement s.gateway _ now))) rfl rfl rfl
  | prepare id now verdict polled =>
      unfold step at hstep
      dsimp only at hstep
      split at hstep
      · cases hstep
        exact .idle rfl
      · next e he =>
          obtain ⟨he, hfresh⟩ := Option.filter_eq_some_iff.mp he
          have hpolled : ∀ r ∈ polled, w.polled r := htakes.polled
          have hturn : Turn w s (.prepare id now verdict polled) _ _ :=
            prepareStep_turn hpoised he (by simpa using hfresh) hpolled
          have hcall : prepareStep s id e (e.call now verdict polled) = (answer, t) := hstep
          rw [hcall] at hturn
          exact hturn
  | shadow id started =>
      unfold step at hstep
      dsimp only at hstep
      split at hstep
      · cases hstep
        exact .idle rfl
      · next e he =>
          obtain ⟨he, -⟩ := Option.filter_eq_some_iff.mp he
          cases hstep
          have huntaken := shadow_untaken s.vetting e.request.automatic e.request.headers started
            (e.prep s.gateway)
          exact .shadowed he rfl huntaken.1 (shadow_beside ..) huntaken.2
  | shadowDone cost =>
      cases hstep
      exact hedits (.single (.aside (aside_shadowDone cost s.gateway))) rfl
  | outcome endpoint model status retryAfterMs now =>
      cases hstep
      exact hedits (.single (.aside (aside_noteOutcome s.gateway endpoint model status
        retryAfterMs now))) rfl
  | failover id context now =>
      unfold step at hstep
      dsimp only at hstep
      split at hstep
      · cases hstep
        exact .idle rfl
      · next e he =>
          obtain ⟨he, hgo⟩ := Option.filter_eq_some_iff.mp he
          rw [Bool.and_eq_true] at hgo
          cases hstep
          exact .retried he hgo.1 (failover_retreat ..) rfl
  | finish id f now =>
      unfold step at hstep
      dsimp only at hstep
      split at hstep
      · cases hstep
        exact .idle rfl
      · next e he =>
          by_cases hgo : e.ticket.begun = true ∧ e.ticket.finished = false
          · cases hstep
            exact .ended he hgo.1 hgo.2
          · rw [finishStep_idle f hpoised.fenced he hgo] at hstep
            cases hstep
            exact .idle rfl

end Steps

/-! ## What retries and ends write -/

/-- A retry writes no more of a scope than the field, the floor and the destination. -/
def Rerouted (s t : Scope) : Prop :=
  t = { s with
    reasoningAdded := t.reasoningAdded
    contextFloor := t.contextFloor
    endpoint := t.endpoint
    model := t.model }

theorem Rerouted.refl (s : Scope) : Rerouted s s := rfl

structure Retreated (p q : Prep ρ) : Prop where
  gateway : q.gateway = { p.gateway with
    scopes := q.gateway.scopes
    inflight := q.gateway.inflight }
  scopes : ∀ i, Rerouted (p.gateway.scopes i) (q.gateway.scopes i)
  others : ∀ i, p.ticket.scope ≠ some i → q.gateway.scopes i = p.gateway.scopes i
  ticket : q.ticket = { p.ticket with
    reason := q.ticket.reason
    cost := q.ticket.cost
    capacity := q.ticket.capacity }

theorem Retreated.refl (p : Prep ρ) : Retreated p p :=
  ⟨rfl, fun _ => .refl _, fun _ _ => rfl, rfl⟩

/-- A write to the ticket's own scope. -/
theorem Retreated.write {p q : Prep ρ} {i : Slot} {s : Scope} (hi : p.ticket.scope = some i)
    (hgateway : q.gateway = { p.gateway.setScope i s with inflight := q.gateway.inflight })
    (hticket : q.ticket = { p.ticket with
      reason := q.ticket.reason
      cost := q.ticket.cost
      capacity := q.ticket.capacity })
    (hrerouted : Rerouted (p.gateway.scopes i) s) : Retreated p q := by
  have hscopes : q.gateway.scopes = (p.gateway.setScope i s).scopes := by rw [hgateway]
  refine ⟨?_, fun j => ?_, fun j hj => ?_, hticket⟩
  · rw [hgateway]
    rfl
  · rw [hscopes]
    by_cases hji : j = i
    · rw [hji, scopes_setScope_self]
      exact hrerouted
    · rw [scopes_setScope_of_ne _ _ hji]
      exact .refl _
  · rw [hscopes]
    apply scopes_setScope_of_ne
    intro hji
    exact hj (hji ▸ hi)

theorem Retreated.trans {p q o : Prep ρ} (first : Retreated p q) (second : Retreated q o) :
    Retreated p o := by
  have hscope : q.ticket.scope = p.ticket.scope := by rw [first.ticket]
  refine ⟨?_, fun i => ?_, fun i hi => ?_, ?_⟩
  · rw [second.gateway, first.gateway]
  · have hfirst := first.scopes i
    have hsecond := second.scopes i
    unfold Rerouted at hfirst hsecond ⊢
    rw [hsecond, hfirst]
  · rw [second.others i (hscope ▸ hi), first.others i hi]
  · rw [second.ticket, first.ticket]

theorem withdrawEffort_retreated (p : Prep ρ) : Retreated p (withdrawEffort p) := by
  unfold withdrawEffort
  split
  · exact .refl p
  · next i hi => exact .write hi rfl rfl rfl

theorem moved_retreated (p : Prep ρ) (limit : Nat) : Retreated p (moved p limit) := by
  unfold moved
  dsimp only
  split
  · exact ⟨rfl, fun _ => .refl _, fun _ _ => rfl, rfl⟩
  · next i hi => exact .write hi rfl rfl rfl

theorem Retreat.retreated {vetting : Json → Endpoint → Gated} {h : GatewayHeaders} {now : Nat}
    {p q : Prep ρ} {went : Bool} (hretreat : Retreat vetting h now p went q) : Retreated p q := by
  cases hretreat with
  | refused => exact .refl p
  | stranded _ => exact withdrawEffort_retreated p
  | moved source limit body endpoint _ _ _ _ =>
      have hreaddressed : Retreated (withdrawEffort p) { withdrawEffort p with body, endpoint } :=
        ⟨rfl, fun _ => .refl _, fun _ _ => rfl, rfl⟩
      exact ((withdrawEffort_retreated p).trans hreaddressed).trans (moved_retreated _ limit)

/-- A scope without what the end of its exchange writes. -/
def Scope.unfinished (s : Scope) : Scope :=
  { s with
    inflight := false
    active := 0
    turns := 0
    usage := none
    usageMessages := 0
    usageModel := []
    spent := 0
    boundary := none
    requirements := 0
    observedCalls := none
    pinned := false
    history := none
    pending := none
    pendingTools := none
    pendingChoice := none }

/-- What the end of its exchange does to a scope. -/
structure Finished (s t : Scope) : Prop where
  rest : t.unfinished = s.unfinished
  pinned : s.pinned = true → t.pinned = true

theorem Finished.trans {s t u : Scope} (first : Finished s t) (second : Finished t u) :
    Finished s u :=
  ⟨second.rest.trans first.rest, second.pinned ∘ first.pinned⟩

theorem Finished.get {s t : Scope} (h : Finished s t) {α : Type} (view : Scope → α)
    (hview : ∀ u : Scope, view u.unfinished = view u) : view t = view s := by
  rw [← hview t, ← hview s, h.rest]

theorem noteUsage_finished (s : Scope) (seen : Option UsageObservation) (cachedBounded : Bool) :
    Finished s (noteUsage (ρ := ρ) s seen cachedBounded) := by
  unfold noteUsage
  dsimp only
  repeat' split
  all_goals exact ⟨rfl, id⟩

theorem keepBoundary_finished (boundary : Boundary) (reasoning : Option Json) (s : Scope) :
    Finished s (keepBoundary (ρ := ρ) boundary reasoning s) := by
  unfold keepBoundary
  split
  · exact ⟨rfl, id⟩
  · exact ⟨rfl, fun _ => rfl⟩

theorem closeTurn_finished (s : Scope) (toolResponse safe : Bool) (message reasoning : Option Json) :
    Finished s (closeTurn (ρ := ρ) s toolResponse safe message reasoning) := by
  have hcleared : ∀ t, Finished s t →
      Finished s { t with pendingChoice := none, pendingTools := none, pending := none } :=
    fun t h => ⟨h.rest, h.pinned⟩
  unfold closeTurn
  apply hcleared
  split
  · next boundary calls _ =>
      have hcaptured : Finished s { s with
          requirements := s.requirements ||| ρ.neighbours.boundaryRequirements boundary
          observedCalls := some calls } := ⟨rfl, id⟩
      exact hcaptured.trans (keepBoundary_finished boundary reasoning _)
  · split
    · exact ⟨rfl, fun _ => rfl⟩
    · split
      · exact ⟨rfl, id⟩
      · exact ⟨rfl, id⟩

theorem finishScope_finished (f : Finish) (now : Nat) (s : Scope) :
    Finished s (finishScope (ρ := ρ) f now s).1 := by
  have hstart : Finished s { s with
      active := now
      turns := if f.complete then s.turns + 1 else s.turns } := ⟨rfl, id⟩
  unfold finishScope
  exact (hstart.trans (noteUsage_finished _ _ _)).trans (closeTurn_finished _ _ _ _ _)

/-- The scope whose exchange has ended. -/
def Scope.finish (ρ : Router) (f : Finish) (now : Nat) (s : Scope) : Scope :=
  { (finishScope (ρ := ρ) f now s).1 with toHolder := { s.toHolder with inflight := false } }

theorem finish_finished (f : Finish) (now : Nat) (s : Scope) : Finished s (s.finish ρ f now) := by
  have hfinished := finishScope_finished (ρ := ρ) f now s
  refine ⟨?_, hfinished.pinned⟩
  have hrest : ({ (finishScope (ρ := ρ) f now s).1 with
      toHolder := { s.toHolder with inflight := false } } : Scope).unfinished =
      { (finishScope (ρ := ρ) f now s).1.unfinished with
        toHolder := { s.toHolder with inflight := false } } := rfl
  unfold Scope.finish
  rw [hrest, hfinished.rest]
  rfl

/-- The end of an exchange that runs. -/
structure Ended (f : Finish) (now : Nat) (g : GatewayContext ρ.settings.count)
    (t : Ticket ρ.settings.count) (k : GatewayContext ρ.settings.count)
    (u : Ticket ρ.settings.count) : Prop where
  gateway : k = { settleTicket g t f.complete now with scopes := k.scopes }
  own : ∀ i, t.scope = some i → k.scopes i = (g.scopes i).finish ρ f now
  others : ∀ i, t.scope ≠ some i → k.scopes i = g.scopes i
  ticket : u = { t with begun := false, finished := true }

theorem finish_ended (f : Finish) (now : Nat) (g : GatewayContext ρ.settings.count)
    {t : Ticket ρ.settings.count} (hbegun : t.begun = true) (hunfinished : t.finished = false) :
    Ended f now g t (finish f now g t).1 (finish f now g t).2.1 := by
  unfold finish
  rw [hbegun, hunfinished, if_neg (by decide)]
  dsimp only
  split
  · next hnone =>
      refine ⟨rfl, fun i hi => ?_, fun _ _ => rfl, rfl⟩
      rw [hnone] at hi
      cases hi
  · next i hi =>
      refine ⟨rfl, fun j hj => ?_, fun j hj => ?_, rfl⟩
      · obtain rfl := Option.some.inj (hi.symm.trans hj)
        exact scopes_setScope_self _ i _
      · exact scopes_setScope_of_ne _ _ fun hji => hj (hji ▸ hi)

/-- The gateway and the exchanges after the end of an exchange; besides them only the provenance
store may change. -/
theorem finishStep_eq (s : State ρ) (id : Nat) (e : Exchange ρ.settings.count) (f : Finish)
    (now : Nat) :
    (finishStep s id e f now).gateway = (finish f now s.gateway e.ticket).1 ∧
      (finishStep s id e f now).exchanges =
        s.exchanges.set id { e with
          ticket := (finish f now s.gateway e.ticket).2.1
          live := false } := by
  unfold finishStep
  dsimp only
  split <;> exact ⟨rfl, rfl⟩

theorem finishStep_ended (s : State ρ) (id : Nat) {e : Exchange ρ.settings.count} (f : Finish)
    (now : Nat) (hbegun : e.ticket.begun = true) (hunfinished : e.ticket.finished = false) :
    Ended f now s.gateway e.ticket (finishStep s id e f now).gateway
      (finish f now s.gateway e.ticket).2.1 := by
  rw [(finishStep_eq s id e f now).1]
  exact finish_ended f now s.gateway hbegun hunfinished

end Recursant.Gateway
