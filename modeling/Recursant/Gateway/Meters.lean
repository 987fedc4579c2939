import Recursant.Gateway.System
import Recursant.Lib.Stateful
import Recursant.Lib.Windowed

/-!
# The meters of the gateway

The request counter of the budget and the accumulators of the shadow, and which steps of the router
move them: a preparation counts one request, a considered shadow samples, and the end of a copy
settles its cost.
-/

namespace Recursant.Gateway

open Stateful
open Windowed (Meter)

variable {ρ : Router}

/-! ## What the meters are -/

/-- The budgets' own fields of the gateway. -/
structure Meters where
  rate : Meter
  sampled : Rat
  spent : Rat
  running : Nat

def GatewayContext.meters {count : Nat} (g : GatewayContext count) : Meters :=
  ⟨⟨g.rpmWindow, g.rpmCount⟩, g.shadowAcc, g.shadowSpent, g.shadowInflight⟩

def Prep.meters (p : Prep ρ) : Meters := p.gateway.meters

def State.meters (s : State ρ) : Meters := s.gateway.meters

/-! ## Functions that leave them alone -/

section Gateway

variable (g : GatewayContext ρ.settings.count)

theorem meters_exact (authorization : Text) (row : Option Nat) (now : Nat) :
    (g.exact authorization row now).2.meters = g.meters := by
  unfold GatewayContext.exact
  split
  · rfl
  · split
    · rfl
    · rfl

theorem meters_publish (authorization : Text) (now : Nat) (result : InterpreterResult) :
    (g.publish authorization now result).meters = g.meters := by
  unfold GatewayContext.publish
  split
  · rfl
  · next i _ =>
      have hexact := meters_exact g authorization (g.scopes i).evidenceRow now
      dsimp only
      split
      · rfl
      · split
        · next heq =>
            rw [heq] at hexact
            exact hexact
        · next heq =>
            rw [heq] at hexact
            split
            · exact hexact
            · exact hexact

theorem meters_pollLocked (authorization : Text) (now : Nat) (results : List InterpreterResult) :
    (g.pollLocked authorization now results).meters = g.meters := by
  unfold GatewayContext.pollLocked
  generalize results.take GatewayContext.interpreterCapacity = polled
  induction polled generalizing g with
  | nil => rfl
  | cons result polled ih =>
      rw [List.foldl_cons, ih]
      exact meters_publish g authorization now result

theorem meters_rowSlot (attemptTtl now : Nat) :
    (g.rowSlot attemptTtl now).2.meters = g.meters := by
  unfold GatewayContext.rowSlot
  split
  · rfl
  · split
    · rfl
    · rfl

theorem meters_vacantSlot (ttl now : Nat) (implicit : Bool) (unused : Option Slot) :
    (g.vacantSlot ttl now implicit unused).2.meters = g.meters := by
  unfold GatewayContext.vacantSlot
  split
  · rfl
  · split
    · rfl
    · rfl

theorem meters_lineage (i : Slot) (newcomer : Newcomer) (first : Option Text) :
    (g.lineage i newcomer first).meters = g.meters := by
  have hhanded : (g.handedOut first).2.meters = g.meters := by
    unfold GatewayContext.handedOut
    split
    · rfl
    · rfl
  exact hhanded

theorem meters_implicitScope (body : Json) (h : GatewayHeaders) (now : Nat) :
    (g.implicitScope body h now).2.meters = g.meters := by
  unfold GatewayContext.implicitScope
  dsimp only
  split
  · rfl
  · split
    · rfl
    · have hslot : (g.sessionSlot now).2.meters = g.meters := meters_vacantSlot ..
      split
      · next heq =>
          rw [heq] at hslot
          exact hslot
      · next heq =>
          rw [heq] at hslot
          split
          · rw [meters_lineage]
            exact hslot
          · exact hslot

theorem meters_openScope (body : Json) (now : Nat) :
    (openScope body now g).2.meters = g.meters := by
  unfold openScope
  split
  · split
    · rfl
    · split
      · rfl
      · have hslot : (registeredSlot now g).2.meters = g.meters := meters_vacantSlot ..
        split
        · next heq =>
            rw [heq] at hslot
            exact hslot
        · next heq =>
            rw [heq] at hslot
            split
            · exact hslot
            · exact hslot
  · rfl

theorem meters_close (body : Json) (now : Nat) : (close body now g).2.meters = g.meters := by
  unfold close
  split
  · split
    · rfl
    · split
      · rfl
      · split
        · rfl
        · rfl
  · rfl

theorem meters_hint (body : Json) (now : Nat) : (hint body now g).2.meters = g.meters := by
  unfold hint
  split
  · rfl
  · split
    · rfl
    · split
      · rfl
      · next restricted _ _ _ hrestrict =>
          unfold restrictHint at hrestrict
          split at hrestrict
          · obtain ⟨labels, -, rfl⟩ := Option.map_eq_some_iff.mp hrestrict
            rfl
          · rw [← Option.some.inj hrestrict]
            rfl

theorem meters_acceptEvidence (i : Slot) (e : Evidence) (revision now : Nat) (submitted : Bool) :
    (acceptEvidence i e revision now submitted g).2.meters = g.meters := by
  unfold acceptEvidence
  have hexact (ledger : Attempts.AttemptLedger) :
      (({ g with ledger } : GatewayContext ρ.settings.count).exact ρ.settings.authorization
        (some e.row) now).2.meters = g.meters := meters_exact _ _ _ _
  dsimp only
  split
  · next heq =>
      have hmeters := hexact (Attempts.attemptSourceComplete g.ledger
        (some ρ.settings.authorization) e.headers now)
      rw [heq] at hmeters
      exact hmeters
  · next heq =>
      have hmeters := hexact (Attempts.attemptSourceComplete g.ledger
        (some ρ.settings.authorization) e.headers now)
      rw [heq] at hmeters
      split
      · exact hmeters
      · exact hmeters

theorem meters_ingest (r : Compliance.Runtime) (body : Json) (now : Nat) (submitted : Bool) :
    (ingest r body now submitted g).2.meters = g.meters := by
  unfold ingest
  split
  · split
    · rfl
    · split
      · rfl
      · dsimp only
        split
        · rfl
        · split
          · rfl
          · split
            · rfl
            · rw [meters_acceptEvidence]
              unfold deriveAuthority
              split
              · rfl
              · rfl
  · rfl

theorem meters_recordJudgement (j : Judgement) (now : Nat) :
    (recordJudgement j now g).meters = g.meters := by
  unfold recordJudgement
  split
  · rfl
  · split
    · rfl
    · split
      · rfl
      · rfl

theorem meters_noteOutcome (endpoint : Endpoint) (model : Option Text)
    (status retryAfterMs now : Nat) :
    (noteOutcome g endpoint model status retryAfterMs now).meters = g.meters := by
  unfold noteOutcome
  split
  · rfl
  · rfl

theorem meters_finish (f : Finish) (now : Nat) (t : Ticket ρ.settings.count) :
    (finish f now g t).1.meters = g.meters := by
  unfold finish
  split
  · rfl
  · dsimp only
    split
    · rfl
    · rfl

theorem meters_failover (vetting : Json → Endpoint → Compliance.Gated) (automatic : Bool)
    (h : GatewayHeaders) (context : Bool) (now : Nat) (p : Prep ρ) :
    (failover vetting automatic h context now p).2.meters = p.meters := by
  have hwithdraw : (withdrawEffort p).meters = p.meters := by
    unfold withdrawEffort
    split
    · rfl
    · rfl
  unfold failover
  split
  · rfl
  · split
    · rfl
    · dsimp only
      split
      · exact hwithdraw
      · rw [← hwithdraw]
        unfold moved Prep.meters
        dsimp only
        split
        · rfl
        · rfl

end Gateway

/-! ## A preparation -/

section Preparation

variable (c : Call) (vetting : Json → Endpoint → Compliance.Gated) (scope : Option Slot)

theorem meters_ensure (b : Bool) (status : Nat) :
    Within (Same Prep.meters) (ensure (ρ := ρ) b status) :=
  within_ite (fun _ => within_pure _) fun _ => within_throw _

theorem meters_scopeAt (i : Slot) : Within (Same Prep.meters) (scopeAt (ρ := ρ) i) := fun _ => rfl

theorem meters_work (i : Slot) (f : Scope → Scope) :
    Within (Same Prep.meters) (work (ρ := ρ) i f) := fun _ => rfl

theorem meters_modifyTicket (f : Ticket ρ.settings.count → Ticket ρ.settings.count) :
    Within (Same Prep.meters) (modifyTicket (ρ := ρ) f) := fun _ => rfl

theorem meters_setModel (model : Option Text) :
    Within (Same Prep.meters) (setModel (ρ := ρ) model) := by
  intro p
  show (final (setModel model p)).meters = p.meters
  unfold setModel
  split
  · rfl
  · rfl

theorem meters_place (a : Alias) : Within (Same Prep.meters) (place (ρ := ρ) a) :=
  Within.bind (fun _ => rfl) fun _ => meters_setModel _

theorem meters_exactRow (row : Option Nat) (now : Nat) :
    Within (Same Prep.meters) (exactRow (ρ := ρ) row now) :=
  fun p => meters_exact p.gateway ρ.settings.authorization row now

theorem meters_capacityFence : Within (Same Prep.meters) (capacityFence (ρ := ρ) c) :=
  fun p => meters_rowSlot p.gateway ρ.settings.attemptTtl c.now

theorem meters_resolve : Within (Same Prep.meters) (resolve (ρ := ρ) c vetting) := by
  unfold resolve
  apply within_ite
  · intro _
    unfold registeredScope
    refine Within.bind within_get ?_
    intro p
    dsimp only
    split
    · exact within_throw _
    · exact (meters_ensure _ _).bind fun _ => (meters_ensure _ _).bind fun _ => within_pure _
  · intro _
    have hkeeping : Within (Same Prep.meters) (housekeeping (ρ := ρ) c vetting) := by
      unfold housekeeping
      split
      · exact within_pure _
      · refine Within.bind within_get ?_
        intro p
        apply within_ite
        · intro _
          exact (meters_place _).bind fun _ => (meters_modifyTicket _).bind fun _ => within_pure _
        · exact fun _ => within_pure _
    apply hkeeping.bind
    intro placed
    apply within_ite
    · exact fun _ => within_pure _
    · intro _ p
      show (final (requestSession c p)).meters = p.meters
      unfold requestSession
      split
      · exact meters_implicitScope p.gateway p.body c.headers c.now
      · rfl

theorem meters_contract (i : Slot) : Within (Same Prep.meters) (contract (ρ := ρ) i) := by
  unfold contract
  apply (meters_work i _).bind
  intro _
  apply (meters_modifyTicket _).bind
  intro _
  have hcount : Within (Same Prep.meters) (countRequest (ρ := ρ) i) :=
    (meters_scopeAt i).bind fun _ => (meters_ensure _ _).bind fun _ => meters_work i _
  apply hcount.bind
  intro _
  refine Within.bind within_get ?_
  intro p
  apply (meters_work i _).bind
  intro _
  unfold checkContinuity
  apply (meters_scopeAt i).bind
  intro s
  refine Within.bind within_get ?_
  intro q
  dsimp only
  split
  · exact (meters_ensure _ _).bind fun _ => meters_work i _
  · exact meters_work i _

theorem meters_placeAutomatic (i : Slot) (spend : Rat) :
    Within (Same Prep.meters) (placeAutomatic (ρ := ρ) c vetting i spend) := by
  unfold placeAutomatic
  apply (meters_scopeAt i).bind
  intro s
  apply within_ite
  · intro _
    have hpinned : Within (Same Prep.meters) (placePinned (ρ := ρ) s) :=
      Within.bind (fun _ => rfl) fun _ => (meters_setModel _).bind fun _ => meters_modifyTicket _
    exact hpinned.bind fun _ => within_pure _
  · intro _
    have hcontext : Within (Same Prep.meters) (usableContext (ρ := ρ) i c.now) := by
      unfold usableContext
      apply (meters_scopeAt i).bind
      intro s
      refine Within.bind (fun _ => rfl) fun snapshot => ?_
      split
      · exact within_pure _
      · apply (meters_exactRow _ _).bind
        intro answer
        exact within_ite (fun _ => within_pure _) fun _ => within_pure _
    unfold placeSelected
    apply hcontext.bind
    intro context
    refine Within.bind within_get ?_
    intro p
    apply (meters_ensure _ _).bind
    intro _
    dsimp only
    split
    · exact within_throw _
    · apply within_ite
      · intro _
        exact (meters_modifyTicket _).bind fun _ => (meters_place _).bind fun _ => within_pure _
      · exact fun _ => within_pure _

theorem meters_settle (freeRow : Option Nat) :
    Within (Same Prep.meters) (settle (ρ := ρ) c vetting freeRow scope) := by
  unfold settle
  have hscoped : Within (Same Prep.meters) (placeScoped (ρ := ρ) c vetting scope) := by
    unfold placeScoped
    split
    · exact within_pure _
    · next i =>
        apply (meters_scopeAt i).bind
        intro s
        apply (meters_contract i).bind
        intro _
        apply within_ite
        · exact fun _ => (meters_placeAutomatic c vetting i _).bind fun _ => within_pure _
        · exact fun _ => (within_pure _).bind fun _ => within_pure _
  apply hscoped.bind
  intro placed
  have hcooling : Within (Same Prep.meters) (leaveCooling (ρ := ρ) c vetting scope) := by
    unfold leaveCooling
    refine Within.bind within_get ?_
    intro p
    split
    · exact within_pure _
    · split
      · exact within_pure _
      · dsimp only
        split
        · exact within_pure _
        · refine Within.bind (fun _ => rfl) fun _ => ?_
          exact (meters_modifyTicket _).bind fun _ => within_pure _
  apply hcooling.bind
  intro healthMoved
  have hrequested : Within (Same Prep.meters) (requested (ρ := ρ) scope) := by
    unfold requested
    apply within_ite
    · exact fun _ => within_pure _
    · intro _
      refine Within.bind within_get ?_
      intro p
      split
      · exact within_throw _
      · exact within_pure _
  apply hrequested.bind
  intro request
  have hrestrict : Within (Same Prep.meters) (restrict (ρ := ρ) c scope) := by
    unfold restrict
    refine Within.bind within_get ?_
    intro p
    apply within_ite
    · intro _
      apply within_ite
      · exact fun _ => meters_ensure _ _
      · intro _
        refine Within.bind (fun _ => rfl) fun _ => ?_
        exact (meters_setModel _).bind fun _ => meters_modifyTicket _
    · exact fun _ => within_pure _
  apply hrestrict.bind
  intro _
  have heffort : Within (Same Prep.meters) (askEffort (ρ := ρ) scope placed.1) := by
    unfold askEffort
    split
    · refine Within.bind within_get ?_
      intro p
      apply within_ite
      · exact fun _ => Within.bind (fun _ => rfl) fun _ => meters_work _ _
      · exact fun _ => within_pure _
    · exact within_pure _
  exact heffort.bind fun _ => within_pure _

theorem meters_conclude (placed : Placed) :
    Within (Same Prep.meters) (conclude (ρ := ρ) c placed) := by
  unfold conclude
  have hspend : Within (Same Prep.meters) (checkSpend (ρ := ρ) placed.scope placed.spend) := by
    unfold checkSpend
    apply within_ite
    · exact fun _ => within_get.bind fun _ => meters_ensure _ _
    · exact fun _ => within_pure _
  apply hspend.bind
  intro _
  have hcommit : Within (Same Prep.meters)
      (commit (ρ := ρ) c placed.scope placed.healthMoved placed.request) := by
    unfold commit
    split
    · exact within_pure _
    · refine Within.bind within_get ?_
      intro p
      split
      · exact within_throw _
      · exact (meters_ensure _ _).bind fun _ => (meters_work _ _).bind fun _ => fun _ => rfl
  apply hcommit.bind
  intro _
  have hdispatch : Within (Same Prep.meters) (countDispatch (ρ := ρ)) := by
    apply within_modify
    intro p
    show Prep.meters _ = p.meters
    split
    · rfl
    · rfl
  apply hdispatch.bind
  intro _
  have hattempt : Within (Same Prep.meters) (beginAttempt (ρ := ρ) c placed.freeRow) := by
    intro p
    show (final (beginAttempt c placed.freeRow p)).meters = p.meters
    unfold beginAttempt
    dsimp only [final]
    split
    · rfl
    · rfl
    · rfl
  apply hattempt.bind
  intro _
  unfold recordRow
  split
  · exact within_pure _
  · exact within_get.bind fun _ => meters_work _ _

/-- The window that a request falls into. -/
def GatewayContext.rolled {count : Nat} (now : Nat) (g : GatewayContext count) :
    GatewayContext count :=
  if g.rpmCount = 0 || now - g.rpmWindow ≥ 60000 then { g with rpmWindow := now, rpmCount := 0 }
  else g

/-- Counting a request against the budget. -/
theorem rateLimit_run (p : Prep ρ) (hrpm : ρ.settings.budget.rpm ≠ 0) :
    (final ((rateLimit c).run p)).meters =
        { p.meters with rate := (p.meters.rate.pass 60000 ρ.settings.budget.rpm c.now).2 } ∧
      ((∃ a q, (rateLimit c).run p = .ok a q) →
        (p.meters.rate.pass 60000 ρ.settings.budget.rpm c.now).1 = true) := by
  unfold rateLimit
  rw [if_pos hrpm]
  -- the window of the request, then the count against the budget
  have hroll : (modifyGateway (fun g => if g.rpmCount = 0 || c.now - g.rpmWindow ≥ 60000 then
      { g with rpmWindow := c.now, rpmCount := 0 } else g)).run p =
        .ok () { p with gateway := p.gateway.rolled c.now } := rfl
  rw [run_bind_ok hroll]
  have hrolled : (p.gateway.rolled c.now).meters =
      { p.meters with rate := p.meters.rate.roll 60000 c.now } := by
    show GatewayContext.meters (if p.gateway.rpmCount = 0 || c.now - p.gateway.rpmWindow ≥ 60000
        then { p.gateway with rpmWindow := c.now, rpmCount := 0 } else p.gateway) =
      { p.meters with
        rate := if p.gateway.rpmCount = 0 || c.now - p.gateway.rpmWindow ≥ 60000 then ⟨c.now, 0⟩
          else p.meters.rate }
    split
    · rfl
    · rfl
  have hcount : (p.gateway.rolled c.now).rpmCount = (p.meters.rate.roll 60000 c.now).count :=
    congrArg (fun m => m.rate.count) hrolled
  have hget : ∀ q : Prep ρ, (get : Prepare ρ (Prep ρ)).run q = .ok q q := fun _ => rfl
  rw [run_bind_ok (hget _)]
  unfold Meter.pass ensure
  dsimp only
  rw [← hcount]
  by_cases hroom : (p.gateway.rolled c.now).rpmCount < ρ.settings.budget.rpm
  · rw [if_pos hroom, decide_eq_true hroom, if_pos rfl]
    refine ⟨?_, fun _ => rfl⟩
    show { (p.gateway.rolled c.now).meters with
      rate := ⟨(p.gateway.rolled c.now).rpmWindow, (p.gateway.rolled c.now).rpmCount + 1⟩ } = _
    rw [hrolled, hcount]
    exact congrArg (fun r : Meter => ({ p.meters with rate := ⟨r.start, _⟩ } : Meters))
      (congrArg Meters.rate hrolled)
  · rw [if_neg hroom, decide_eq_false hroom, if_neg Bool.false_ne_true]
    refine ⟨hrolled, ?_⟩
    intro hok
    obtain ⟨a, q, hok⟩ := hok
    cases hok

/-- The state that a request is counted in. -/
def Prep.polled (p : Prep ρ) (c : Call) : Prep ρ :=
  { p with
    gateway := p.gateway.pollLocked ρ.settings.authorization c.now c.polled
    ticket := { Ticket.fresh with reason := if c.automatic then "baseline" else "fixed" } }

/-- The whole preparation counts the request and moves no other meter. -/
theorem meters_prepare (p : Prep ρ) :
    (final ((prepare c vetting).run p)).meters = (final ((rateLimit c).run (p.polled c))).meters ∧
      ((∃ a q, (prepare c vetting).run p = .ok a q) →
        ∃ a q, (rateLimit c).run (p.polled c) = .ok a q) := by
  have hticket : (startTicket c).run p = .ok () { p with
      ticket := { Ticket.fresh with reason := if c.automatic then "baseline" else "fixed" } } := rfl
  have hpoll : (modifyGateway fun g =>
      g.pollLocked ρ.settings.authorization c.now c.polled).run { p with
        ticket := { Ticket.fresh with reason := if c.automatic then "baseline" else "fixed" } } =
      .ok () (p.polled c) := rfl
  have hgate : Within (Same Prep.meters) (finalGate (ρ := ρ) vetting) := by
    unfold finalGate
    refine Within.bind within_get fun p => ?_
    exact Within.bind (fun _ => rfl) fun _ => meters_ensure _ _
  have hfence : Within (Same Prep.meters) (diagnosticFence (ρ := ρ) c) :=
    within_get.bind fun _ => meters_ensure _ _
  constructor
  · -- what comes after the entry moves no meter, nor does what comes after the count in it
    unfold prepare
    refine Eq.trans (final_bind_same (fun freeRow => ?_) p) ?_
    · apply (meters_resolve c vetting).bind
      intro scope
      apply (meters_settle c vetting scope freeRow).bind
      intro placed
      exact hgate.bind fun _ => meters_conclude c placed
    · unfold enter
      rw [run_bind_ok hticket, run_bind_ok hpoll]
      refine final_bind_same (fun _ => ?_) (p.polled c)
      refine (meters_capacityFence c).bind fun freeRow => ?_
      exact hfence.bind fun _ => within_pure _
  · intro hok
    obtain ⟨a, q, hok⟩ := hok
    unfold prepare at hok
    obtain ⟨freeRow, r, henter, -⟩ := bind_eq_ok.mp hok
    unfold enter at henter
    rw [run_bind_ok hticket, run_bind_ok hpoll] at henter
    obtain ⟨b, t, hlimit, -⟩ := bind_eq_ok.mp henter
    exact ⟨b, t, hlimit⟩

end Preparation

/-! ## One step of the router -/

/-- The tick that the preparation of an event reads. -/
def Event.preparation : Event → Option Nat
  | .prepare _ now _ _ => some now
  | _ => none

/-- The cost that an event settles. -/
def Event.settled : Event → Option Rat
  | .shadowDone cost => some (max cost 0)
  | _ => none

/-- The event considers a copy of a step. -/
def Event.considers : Event → Bool
  | .shadow _ _ => true
  | _ => false

/-- A copy of a step was dispatched. -/
def Answer.isCopy : Answer → Bool
  | .copied copy => copy.isSome
  | _ => false

theorem isCopy_dispatch (body : Json) (endpoint : Endpoint) :
    (dispatch (ρ := ρ) body endpoint).isCopy = false := by
  unfold dispatch
  split
  · rfl
  · rfl

theorem meters_prepareStep {s t : State ρ} {id : Nat} {e : Exchange ρ.settings.count} {c : Call}
    {answer : Answer} (h : prepareStep s id e c = (answer, t)) :
    answer.isCopy = false ∧
      ((ρ.settings.budget.rpm = 0 ∧ t.meters = s.meters) ∨
        t.meters = { s.meters with
          rate := (s.meters.rate.pass 60000 ρ.settings.budget.rpm c.now).2 } ∧
        (answer.isDispatch = true →
          (s.meters.rate.pass 60000 ρ.settings.budget.rpm c.now).1 = true)) := by
  obtain ⟨hfinal, hok⟩ := meters_prepare c (vet s.runtime c.verdict) (e.prep s.gateway)
  have hpolled : ((e.prep s.gateway).polled c).meters = s.meters :=
    meters_pollLocked s.gateway _ _ _
  have hstate : answer.isCopy = false ∧ t.meters =
        (final ((prepare c (vet s.runtime c.verdict)).run (e.prep s.gateway))).meters ∧
      (answer.isDispatch = true →
        ∃ a q, (prepare c (vet s.runtime c.verdict)).run (e.prep s.gateway) = .ok a q) := by
    unfold prepareStep at h
    cases hrun : (prepare c (vet s.runtime c.verdict)).run (e.prep s.gateway) with
    | error status p =>
        rw [hrun] at h
        obtain ⟨rfl, rfl⟩ := Prod.mk.inj h
        exact ⟨rfl, rfl, nofun⟩
    | ok a p =>
        rw [hrun] at h
        obtain ⟨rfl, rfl⟩ := Prod.mk.inj h
        exact ⟨isCopy_dispatch _ _, rfl, fun _ => ⟨a, p, rfl⟩⟩
  rw [hfinal] at hstate
  refine ⟨hstate.1, ?_⟩
  by_cases hrpm : ρ.settings.budget.rpm = 0
  · left
    refine ⟨hrpm, hstate.2.1.trans ?_⟩
    unfold rateLimit
    rw [if_neg (not_not.mpr hrpm)]
    exact hpolled
  · right
    obtain ⟨hmeters, hadmitted⟩ := rateLimit_run c ((e.prep s.gateway).polled c) hrpm
    rw [hpolled] at hmeters hadmitted
    exact ⟨hstate.2.1.trans hmeters, fun hdispatch => hadmitted (hok (hstate.2.2 hdispatch))⟩

/-- What a considered shadow does to the meters: nothing, a sample, or a sample with a copy. -/
structure Sampled (shadow : Shadow ρ.settings.count) (m n : Meters) (copied : Bool) : Prop where
  rate : n.rate = m.rate
  spent : n.spent = m.spent
  running : n.running = m.running + if copied then 1 else 0
  room : copied = true → m.spent < shadow.usdCap ∧ m.running < shadow.maxInflight
  sampled : n.sampled = m.sampled ∧ copied = false ∨
    n.sampled = double (m.sampled + shadow.sample) ∧ n.sampled < wholeSample ∧ copied = false ∨
    n.sampled = double (double (m.sampled + shadow.sample) - 1) ∧
      wholeSample ≤ double (m.sampled + shadow.sample)

theorem meters_shadowSample (config : Shadow ρ.settings.count)
    (g : GatewayContext ρ.settings.count) :
    Sampled config g.meters (shadowSample config g).2.meters false ∧
      ((shadowSample config g).1 = true → g.shadowSpent < config.usdCap ∧
        g.shadowInflight < config.maxInflight ∧
        (shadowSample config g).2.meters.sampled =
          double (double (g.shadowAcc + config.sample) - 1) ∧
        wholeSample ≤ double (g.shadowAcc + config.sample)) := by
  unfold shadowSample
  by_cases hcap : g.shadowSpent ≥ config.usdCap
  · rw [if_pos hcap]
    exact ⟨⟨rfl, rfl, rfl, nofun, .inl ⟨rfl, rfl⟩⟩, nofun⟩
  · rw [if_neg hcap]
    by_cases hfull : g.shadowInflight ≥ config.maxInflight
    · rw [if_pos hfull]
      exact ⟨⟨rfl, rfl, rfl, nofun, .inl ⟨rfl, rfl⟩⟩, nofun⟩
    · rw [if_neg hfull]
      dsimp only
      by_cases hgo : double (g.shadowAcc + config.sample) ≥ wholeSample
      · rw [if_pos hgo]
        refine ⟨⟨rfl, rfl, rfl, nofun, .inr (.inr ⟨rfl, hgo⟩)⟩, fun _ => ?_⟩
        exact ⟨not_le.mp hcap, Nat.lt_of_not_le hfull, rfl, hgo⟩
      · rw [if_neg hgo]
        exact ⟨⟨rfl, rfl, rfl, nofun, .inr (.inl ⟨rfl, not_le.mp hgo, rfl⟩)⟩, nofun⟩

theorem meters_shadow (vetting : Json → Endpoint → Compliance.Gated) (automatic : Bool)
    (h : GatewayHeaders) (started : Bool) (p : Prep ρ) :
    ((shadow vetting automatic h started p).2.meters = p.meters ∧
        (shadow vetting automatic h started p).1 = none) ∨
      ∃ config, ρ.settings.shadow = some config ∧
        Sampled config p.meters (shadow vetting automatic h started p).2.meters
          (shadow vetting automatic h started p).1.isSome := by
  unfold shadow
  split
  · next config i hconfig _ =>
      split
      · exact .inl ⟨rfl, rfl⟩
      · dsimp only
        split
        · exact .inl ⟨rfl, rfl⟩
        · right
          refine ⟨config, hconfig, ?_⟩
          obtain ⟨hsampled, hgo⟩ := meters_shadowSample config p.gateway
          cases hcopy : (if (shadowSample config p.gateway).1 = true then
              shadowCopy (ρ := ρ) vetting (p.gateway.scopes i)
                (ρ.candidate config.candidate).destination p.body else none).filter
                  fun _ => started with
          | none => exact hsampled
          | some copy =>
              -- a copy was made, so the sample was taken
              have htaken : (shadowSample config p.gateway).1 = true := by
                by_contra hnot
                rw [if_neg hnot] at hcopy
                cases hcopy
              obtain ⟨hspent, hrunning, haccumulated, hwhole⟩ := hgo htaken
              refine ⟨hsampled.rate, hsampled.spent, ?_, fun _ => ⟨hspent, hrunning⟩, ?_⟩
              · exact congrArg (· + 1) hsampled.running
              · exact .inr (.inr ⟨haccumulated, hwhole⟩)
  · exact .inl ⟨rfl, rfl⟩

theorem meters_shadowStep {s t : State ρ} {id : Nat} {e : Exchange ρ.settings.count}
    {started : Bool} {answer : Answer} (h : shadowStep s id e started = (answer, t)) :
    (t.meters = s.meters ∧ answer.isCopy = false) ∨
      ∃ config, ρ.settings.shadow = some config ∧
        Sampled config s.meters t.meters answer.isCopy := by
  have hshadow := meters_shadow s.vetting e.request.automatic e.request.headers started
    (e.prep s.gateway)
  unfold shadowStep at h
  obtain ⟨rfl, rfl⟩ := Prod.mk.inj h
  cases hshadow with
  | inl hsame => exact .inl ⟨hsame.1, congrArg Option.isSome hsame.2⟩
  | inr hconsidered => exact .inr hconsidered

/-- A step moves the meters by a counted request, a considered shadow or the cost of a copy. -/
inductive Metered (ρ : Router) (m : Meters) : Event → Answer → Meters → Prop
  | same {event : Event} {answer : Answer} {n : Meters} : n = m →
      (event.preparation = none ∨ ρ.settings.budget.rpm = 0 ∨ answer.isDispatch = false) →
      event.settled = none → answer.isCopy = false → Metered ρ m event answer n
  | counted {event : Event} {answer : Answer} {now : Nat} {n : Meters} :
      n = { m with rate := (m.rate.pass 60000 ρ.settings.budget.rpm now).2 } →
      event.preparation = some now → event.settled = none → answer.isCopy = false →
      (answer.isDispatch = true → (m.rate.pass 60000 ρ.settings.budget.rpm now).1 = true) →
      Metered ρ m event answer n
  | considered {event : Event} {answer : Answer} {config : Shadow ρ.settings.count} {n : Meters} :
      event.preparation = none → event.settled = none → event.considers = true →
      ρ.settings.shadow = some config → Sampled config m n answer.isCopy → Metered ρ m event answer n
  | settled {event : Event} {answer : Answer} {cost : Rat} : event.preparation = none →
      event.settled = some cost → answer.isCopy = false →
      Metered ρ m event answer { m with running := m.running - 1, spent := double (m.spent + cost) }

theorem metered_step {s t : State ρ} {event : Event} {answer : Answer}
    (h : step s event = (answer, t)) : Metered ρ s.meters event answer t.meters := by
  cases event with
  | «open» body now =>
      obtain ⟨rfl, rfl⟩ := Prod.mk.inj h
      exact .same (meters_openScope s.gateway body now) (.inl rfl) rfl rfl
  | close body now =>
      obtain ⟨rfl, rfl⟩ := Prod.mk.inj h
      exact .same (meters_close s.gateway body now) (.inl rfl) rfl rfl
  | hint body now =>
      obtain ⟨rfl, rfl⟩ := Prod.mk.inj h
      exact .same (meters_hint s.gateway body now) (.inl rfl) rfl rfl
  | ingest body now submitted =>
      obtain ⟨rfl, rfl⟩ := Prod.mk.inj h
      exact .same (meters_ingest s.gateway s.runtime body now submitted) (.inl rfl) rfl rfl
  | poll now results =>
      obtain ⟨rfl, rfl⟩ := Prod.mk.inj h
      exact .same (meters_pollLocked s.gateway _ now results) (.inl rfl) rfl rfl
  | arrive request now answer =>
      obtain ⟨rfl, rfl⟩ := Prod.mk.inj h
      exact .same (meters_recordJudgement s.gateway _ now) (.inl rfl) rfl rfl
  | prepare id now verdict polled =>
      simp only [step] at h
      cases hfind : s.exchanges[id]?.filter fun e => !e.prepared with
      | none =>
          rw [hfind] at h
          obtain ⟨rfl, rfl⟩ := Prod.mk.inj h
          exact .same rfl (.inr (.inr rfl)) rfl rfl
      | some e =>
          rw [hfind] at h
          obtain ⟨hcopy, hmeters⟩ := meters_prepareStep h
          cases hmeters with
          | inl hunlimited => exact .same hunlimited.2 (.inr (.inl hunlimited.1)) rfl hcopy
          | inr hcounted => exact .counted hcounted.1 rfl rfl hcopy hcounted.2
  | shadow id started =>
      simp only [step] at h
      split at h
      · obtain ⟨rfl, rfl⟩ := Prod.mk.inj h
        exact .same rfl (.inl rfl) rfl rfl
      · cases meters_shadowStep h with
        | inl hsame => exact .same hsame.1 (.inl rfl) rfl hsame.2
        | inr hconsidered =>
            obtain ⟨config, hconfig, hsampled⟩ := hconsidered
            exact .considered rfl rfl rfl hconfig hsampled
  | shadowDone cost =>
      obtain ⟨rfl, rfl⟩ := Prod.mk.inj h
      exact .settled rfl rfl rfl
  | outcome endpoint model status retryAfterMs now =>
      obtain ⟨rfl, rfl⟩ := Prod.mk.inj h
      exact .same (meters_noteOutcome s.gateway endpoint model status retryAfterMs now) (.inl rfl)
        rfl rfl
  | failover id context now =>
      simp only [step] at h
      split at h
      · obtain ⟨rfl, rfl⟩ := Prod.mk.inj h
        exact .same rfl (.inl rfl) rfl rfl
      · next e _ =>
          unfold failoverStep at h
          obtain ⟨rfl, rfl⟩ := Prod.mk.inj h
          have hcopy : ∀ (moved : Bool) (body : Json) (endpoint : Endpoint),
              (if moved then dispatch (ρ := ρ) body endpoint else .denied 502).isCopy = false := by
            intro moved body endpoint
            cases moved with
            | true => exact isCopy_dispatch body endpoint
            | false => rfl
          exact .same (meters_failover _ _ _ _ _ (e.prep s.gateway)) (.inl rfl) rfl (hcopy _ _ _)
  | finish id f now =>
      simp only [step] at h
      split at h
      · obtain ⟨rfl, rfl⟩ := Prod.mk.inj h
        exact .same rfl (.inl rfl) rfl rfl
      · next e _ =>
          obtain ⟨rfl, rfl⟩ := Prod.mk.inj h
          have hfinish := meters_finish s.gateway f now e.ticket
          refine .same (Eq.trans ?_ hfinish) (.inl rfl) rfl rfl
          unfold finishStep
          dsimp only
          split
          · rfl
          · rfl

end Recursant.Gateway
