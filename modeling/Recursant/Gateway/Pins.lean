import Recursant.Gateway.Fence
import Recursant.Gateway.Settlement

/-!
# Pinned sessions

A pinned scope with an owner is served by its recorded destination only.  The record is changed by a
move off a cooling candidate and by a failover, and by nothing else.
-/

namespace Recursant.Gateway

open Compliance (Gated Verdict question)
open Stateful

variable {ρ : Router}

/-! ## Records -/

/-- The destination that a scope records. -/
def Scope.record (s : Scope) : Endpoint × Text := (s.endpoint, s.model)

def Candidate.record (k : Candidate) : Endpoint × Text :=
  (k.destination.endpoint, k.destination.model)

/-- A failover target for the request of slot `i`, which is not restricted. -/
structure Target (vetting : Json → Endpoint → Gated) (g : GatewayContext ρ.settings.count)
    (i : Slot) (body : Json) (source : ρ.Index) (limit now : Nat) (target : ρ.Index)
    (request : Json) : Prop where
  chosen : failoverTarget ρ g vetting (some i) false body source limit now = some target
  request : body.set? "model" (some (.string (ρ.candidate target).destination.model)) =
    some request

/-- How one step may change the record of slot `i`.  A health move is vetted with the very request
that it readdresses. -/
inductive Redirected (i : Slot) (u t : State ρ) : Event → Prop where
  | kept {event : Event} : (t.gateway.scopes i).record = (u.gateway.scopes i).record →
      Redirected i u t event
  | cooled {id now : Nat} {verdict : Json → Option Text → Verdict}
      {polled : List InterpreterResult} {e e' : Exchange ρ.settings.count}
      {g : GatewayContext ρ.settings.count} {source target : ρ.Index} {body request : Json} :
      u.exchanges[id]? = some e → t.exchanges[id]? = some e' → e.request.automatic = true →
      Edits ρ .any u.gateway g →
      ρ.candidateOf (u.gateway.scopes i).endpoint (some (u.gateway.scopes i).model) = some source →
      g.cooling ρ source now = true →
      Target (vet u.runtime verdict) g i body source 0 now target request →
      vet u.runtime verdict request (ρ.candidate target).destination.endpoint =
        ⟨true, e'.body, (ρ.candidate target).destination.endpoint⟩ →
      (t.gateway.scopes i).record = (ρ.candidate target).record →
      Redirected i u t (.prepare id now verdict polled)
  | failedOver {id now : Nat} {context : Bool} {e : Exchange ρ.settings.count}
      {source target : ρ.Index} {limit : Nat} {request : Json} :
      u.exchanges[id]? = some e → e.ticket.scope = some i →
      ρ.candidateOf e.endpoint (modelOf e.body) = some source →
      Target u.vetting (withdrawEffort (e.prep u.gateway)).gateway i
        (withdrawEffort (e.prep u.gateway)).body source limit now target request →
      (t.gateway.scopes i).record = (ρ.candidate target).record →
      Redirected i u t (.failover id context now)

theorem Kept.record {s t : Scope} (h : Kept s t) : t.record = s.record :=
  h.get Scope.record fun _ => rfl

theorem Finished.record {s t : Scope} (h : Finished s t) : t.record = s.record :=
  h.get Scope.record fun _ => rfl

/-! ## Preparations -/

section Prepares

variable {w : Intake} {c : Call} {vetting : Json → Endpoint → Gated} {placed : Placed}
  {p a b d q : Prep ρ} {i : Slot}

theorem begin_record (s : Scope) (body : Json) (now : Nat) (endpoint : Endpoint) (model : Text)
    (row : Option Nat) : (s.begin body now endpoint model row).record = (endpoint, model) := by
  unfold Scope.begin commitScope
  dsimp only
  split <;> rfl

/-- A scoped request goes to what its scope records then. -/
theorem Course.recorded (h : Course c vetting w placed p a b d q) (hscope : placed.scope = some i) :
    (q.gateway.scopes i).endpoint = q.endpoint ∧
      modelOf q.body = some (q.gateway.scopes i).model := by
  obtain ⟨model, hcommits⟩ := h.concluded.own i hscope
  have hrecord : (q.gateway.scopes i).record = (q.endpoint, model) := by
    rw [hcommits.scope]
    exact begin_record ..
  exact ⟨congrArg Prod.fst hrecord, hcommits.addressed.trans
    (congrArg some (congrArg Prod.snd hrecord).symm)⟩

/-- The checks after the gate let a pinned session that was not moved go to its owner only. -/
theorem Course.owned (h : Course c vetting w placed p a b d q) (hscope : placed.scope = some i)
    (hpinned : (d.gateway.scopes i).pinned = true) (howner : (d.gateway.scopes i).owner = true)
    (hstays : placed.healthMoved = false) :
    (q.gateway.scopes i).record = (d.gateway.scopes i).record := by
  obtain ⟨model, hcommits⟩ := h.concluded.own i hscope
  have hconsistent : consistent c.automatic placed.healthMoved placed.request (d.gateway.scopes i)
      q.endpoint model = true := hcommits.consistent
  unfold consistent at hconsistent
  rw [hpinned, howner, hstays] at hconsistent
  simp only [Bool.not_false, Bool.and_self, Bool.not_true, Bool.false_or, Bool.and_eq_true,
    decide_eq_true_eq] at hconsistent
  have hrecord : (q.gateway.scopes i).record = (q.endpoint, model) := by
    rw [hcommits.scope]
    exact begin_record ..
  rw [hrecord]
  exact Prod.ext hconsistent.2.1 hconsistent.2.2

/-- What the settling leaves of a pinned session: its scope under the contract, and the request as
it was placed or as it was moved off the cooling owner. -/
inductive PinSettled (c : Call) (vetting : Json → Endpoint → Gated) (i : Slot) (b d : Prep ρ) :
    Bool → Prop where
  | stays : d.gateway = (b.inScope i ((b.gateway.scopes i).contracted ρ b.body)).gateway →
      PinSettled c vetting i b d false
  | moved {source target : ρ.Index} {body : Json} :
      d.gateway = (b.inScope i ((b.gateway.scopes i).contracted ρ b.body)).gateway →
      c.automatic = true →
      ρ.candidateOf (b.gateway.scopes i).endpoint (some (b.gateway.scopes i).model) = some source →
      d.gateway.cooling ρ source c.now = true →
      Target vetting d.gateway i body source 0 c.now target d.body →
      d.endpoint = (ρ.candidate target).destination.endpoint →
      permits vetting body (ρ.candidate target).destination = true → PinSettled c vetting i b d true

theorem settle_pinned {freeRow : Option Nat}
    (h : (settle c vetting freeRow (some i)).run b = .ok placed d)
    (hpinned : (b.gateway.scopes i).pinned = true) (howner : (b.gateway.scopes i).owner = true)
    (hfree : (b.gateway.scopes i).privateOnly = false) :
    PinSettled c vetting i b d placed.healthMoved := by
  obtain ⟨effort, p₁, p₂, p₃, hplaced, hcooling, -, hrestrict, heffort⟩ := settle_eq_ok h
  obtain ⟨-, -, hplaced⟩ := placeScoped_eq_ok hplaced
  have hdrawn := drawn_contracted (ρ := ρ) b.body (b.gateway.scopes i)
  have hcontracted := scopes_inScope b i ((b.gateway.scopes i).contracted ρ b.body)
  have hrecord : ((b.gateway.scopes i).contracted ρ b.body).record = (b.gateway.scopes i).record :=
    hdrawn.kept.record
  generalize hstart : b.inScope i ((b.gateway.scopes i).contracted ρ b.body) = start at *
  -- neither way of placing a pinned session asks for an effort or writes to the gateway
  have hkept : effort = none ∧ p₁.gateway = start.gateway ∧ (c.automatic = true →
      p₁.endpoint = (b.gateway.scopes i).endpoint ∧
        modelOf p₁.body = some (b.gateway.scopes i).model) := by
    cases hplaced with
    | explicit hexplicit =>
        refine ⟨rfl, rfl, fun hautomatic => ?_⟩
        rw [hexplicit] at hautomatic
        cases hautomatic
    | pinned body hautomatic _ _ hbody =>
        rw [hcontracted] at hbody ⊢
        refine ⟨rfl, rfl, fun _ => ⟨congrArg Prod.fst hrecord, ?_⟩⟩
        rw [modelOf_set? hbody]
        exact congrArg some (congrArg Prod.snd hrecord)
    | selected _ hselected _ =>
        rw [hcontracted, hdrawn.pinned hpinned, Bool.true_and] at hselected
        have howned : ((b.gateway.scopes i).contracted ρ b.body).owner =
            (b.gateway.scopes i).owner := hdrawn.kept.get (fun s => s.owner) fun _ => rfl
        rw [howned, howner] at hselected
        cases hselected
  obtain ⟨rfl, hgateway, haddressed⟩ := hkept
  have hd : d = p₃ := by
    cases askEffort_eq_ok heffort with
    | plain => rfl
    | added high k hstep _ => cases hstep
  have hprivate : ∀ {o : Prep ρ}, o.gateway = start.gateway →
      o.gateway.mustBePrivate ρ.settings.implicit (some i) c.headers = false := by
    intro o ho
    show (o.gateway.scopes i).privateOnly = false
    rw [ho, hcontracted, hdrawn.holder]
    exact hfree
  have hunrestricted : p₂.gateway = start.gateway → p₃ = p₂ := by
    intro ho
    cases restrict_eq_ok hrestrict with
    | free _ => rfl
    | explicit hmust _ _ => exact absurd (hmust.symm.trans (hprivate ho)) (by decide)
    | rewritten body hmust _ _ => exact absurd (hmust.symm.trans (hprivate ho)) (by decide)
  cases leaveCooling_eq_ok hcooling with
  | inl hstays =>
      obtain ⟨hmoved, rfl⟩ := hstays
      rw [hmoved, hd, hunrestricted hgateway]
      exact .stays (hgateway.trans (congrArg Prep.gateway hstart.symm))
  | inr hleft =>
      obtain ⟨hmoved, body, endpoint, source, hcooled, rfl⟩ := hleft
      obtain ⟨hendpoint, hmodel⟩ := haddressed hcooled.automatic
      rw [hmoved, hd, hunrestricted hgateway]
      obtain ⟨target, hchosen, hbody, rfl⟩ := failOver_eq_some hcooled.target
      rw [hprivate hgateway] at hchosen
      have hserves := hcooled.serves
      rw [hendpoint, hmodel] at hserves
      exact .moved (hgateway.trans (congrArg Prep.gateway hstart.symm)) hcooled.automatic hserves
        hcooled.cooling ⟨hchosen, hbody⟩ rfl (failoverTarget_eq_some hchosen).2

end Prepares

/-! ## Turns -/

/-- A scope that is still there was kept by every change in between. -/
theorem Edits.still {w : Intake} {g k : GatewayContext ρ.settings.count} (h : Edits ρ w g k)
    {i : Slot} (hopen : (g.scopes i).isOpen = true) (hserial : (g.scopes i).serial ≤ g.opened)
    (hstill : (k.scopes i).isOpen = true) (hsame : (k.scopes i).serial = (g.scopes i).serial) :
    Kept (g.scopes i) (k.scopes i) := by
  cases h.scope hopen hserial with
  | inl hkept => exact hkept.2
  | inr hleft =>
      have hlater := hleft.2 hstill
      omega

theorem Course.after {w : Intake} {c : Call} {vetting : Json → Endpoint → Gated} {placed : Placed}
    {p a b d q : Prep ρ} (h : Course c vetting w placed p a b d q) :
    Edits ρ w b.gateway d.gateway := by
  have hdrafts := drafts_settle (w := w) c vetting placed.scope placed.freeRow b
  rw [h.settled] at hdrafts
  have hdrafts : Drafts w placed.scope b d := hdrafts
  exact (hdrafts.edits h.seated).1

/-- A health move is vetted as it was tried: the gate leaves the request with the target. -/
theorem Course.moved {w : Intake} {c : Call} {vetting : Json → Endpoint → Gated} {placed : Placed}
    {p a b d q : Prep ρ} {i : Slot} (h : Course c vetting w placed p a b d q)
    (hscope : placed.scope = some i) {target : ρ.Index} {body : Json}
    (hbody : body.set? "model" (some (.string (ρ.candidate target).destination.model)) = some d.body)
    (hendpoint : d.endpoint = (ρ.candidate target).destination.endpoint)
    (hpermits : permits vetting body (ρ.candidate target).destination = true) :
    vetting d.body (ρ.candidate target).destination.endpoint =
        ⟨true, q.body, (ρ.candidate target).destination.endpoint⟩ ∧
      (q.gateway.scopes i).record = (ρ.candidate target).record := by
  have hgated := h.gated
  rw [hendpoint] at hgated
  obtain ⟨request, hrequest, -, hstays, hmodel⟩ := permits_eq_true hpermits
  obtain rfl := Option.some.inj (hbody.symm.trans hrequest)
  rw [hgated] at hstays hmodel
  have hstays : q.endpoint = (ρ.candidate target).destination.endpoint := hstays
  have hmodel := modelOf_eq hmodel
  obtain ⟨hrecorded, haddressed⟩ := h.recorded hscope
  have hsame := Option.some.inj (haddressed.symm.trans hmodel)
  exact ⟨by rw [hgated, hstays], Prod.ext (hrecorded.trans hstays) hsame⟩

/-- The scope of a request in the course of its preparation. -/
structure Along (i : Slot) (p b d q : Prep ρ) : Prop where
  before : Kept (p.gateway.scopes i) (b.gateway.scopes i)
  after : Kept (b.gateway.scopes i) (d.gateway.scopes i)
  privateOnly : (q.gateway.scopes i).privateOnly = (d.gateway.scopes i).privateOnly

theorem Course.along {w : Intake} {c : Call} {vetting : Json → Endpoint → Gated} {placed : Placed}
    {p a b d q : Prep ρ} {i : Slot} (h : Course c vetting w placed p a b d q)
    (hscope : placed.scope = some i) (hopen : (p.gateway.scopes i).isOpen = true)
    (hserial : (p.gateway.scopes i).serial ≤ p.gateway.opened)
    (hsame : (q.gateway.scopes i).serial = (p.gateway.scopes i).serial) : Along i p b d q := by
  obtain ⟨model, hcommits⟩ := h.concluded.own i hscope
  have hholder : (q.gateway.scopes i).toHolder =
      { (d.gateway.scopes i).toHolder with inflight := true } := by
    rw [hcommits.scope]
    exact begin_holder ..
  have hdserial : (d.gateway.scopes i).serial = (p.gateway.scopes i).serial := by
    rw [← hsame, hholder]
  have hdopen := h.steady.isOpen i hscope
  have hbopen := h.seated.isOpen i hscope
  -- a scope that left before the contract cannot be back at the gate
  have hbserial : (b.gateway.scopes i).serial = (p.gateway.scopes i).serial := by
    cases h.before.scope hopen hserial with
    | inl hkept => exact hkept.2.get (fun s => s.serial) fun _ => rfl
    | inr hleft =>
        have hlater := (hleft.edits h.after).2 hdopen
        omega
  have hbefore := h.before.still hopen hserial hbopen hbserial
  have hopened := h.before.opened_le
  refine ⟨hbefore, h.after.still hbopen ?_ hdopen (hdserial.trans hbserial.symm), ?_⟩
  · rw [hbserial]
    exact hserial.trans hopened
  · rw [hholder]

theorem moved_record (p : Prep ρ) (limit : Nat) {i : Slot} (hscope : p.ticket.scope = some i) :
    ((moved p limit).gateway.scopes i).record = (p.endpoint, (modelOf p.body).getD []) := by
  unfold moved
  dsimp only
  rw [hscope]
  dsimp only
  rw [scopes_setScope_self]
  rfl

section Turns

variable {w : Intake} {s t : State ρ} {event : Event} {answer : Answer} {i : Slot}

/-- Over one turn the record of a pinned session changes by a move only. -/
theorem Turn.redirected (h : Turn .any s event answer t) (hfenced : Fenced s)
    (hopen : (s.gateway.scopes i).isOpen = true) (hpinned : (s.gateway.scopes i).pinned = true)
    (howner : (s.gateway.scopes i).owner = true)
    (hstill : (t.gateway.scopes i).isOpen = true)
    (hsame : (t.gateway.scopes i).serial = (s.gateway.scopes i).serial)
    (hfree : (t.gateway.scopes i).privateOnly = false) : Redirected i s t event := by
  have hserial := (hfenced.sound.bounded i hopen).2
  cases h with
  | edited hedits _ _ _ => exact .kept (hedits.still hopen hserial hstill hsame).record
  | arrived hedits _ _ _ => exact .kept (hedits.still hopen hserial hstill hsame).record
  | denied _ _ _ hdenied => exact .kept (hdenied.edits.still hopen hserial hstill hsame).record
  | shadowed _ _ haside _ _ =>
      have hscope := congrFun haside.scopes i
      exact .kept (congrArg Scope.record hscope)
  | @ended id now f e _ hbegun hunfinished =>
      have hended := finishStep_ended s id f now hbegun hunfinished
      apply Redirected.kept
      by_cases hown : e.ticket.scope = some i
      · rw [hended.own i hown]
        exact (finish_finished f now _).record
      · rw [hended.others i hown]
  | @retried id now context e went q _ he _ hretreat _ =>
      rw [gateway_setExchange] at hfree
      have hrerouted := hretreat.retreated.scopes i
      have hothers := hretreat.retreated.others i
      cases hretreat with
      | refused => exact .kept rfl
      | stranded _ => exact .kept (withdrawEffort_kept (e.prep s.gateway) i).record
      | moved source limit body endpoint _ _ hsource htarget =>
          by_cases hown : e.ticket.scope = some i
          · obtain ⟨target, hchosen, hbody, rfl⟩ := failOver_eq_some htarget
            have hprivate : (withdrawEffort (e.prep s.gateway)).gateway.mustBePrivate
                ρ.settings.implicit (e.prep s.gateway).ticket.scope e.request.headers = false := by
              show (withdrawEffort (e.prep s.gateway)).gateway.mustBePrivate ρ.settings.implicit
                e.ticket.scope e.request.headers = false
              rw [hown]
              rw [hrerouted] at hfree
              have hwithdrawn := (withdrawEffort_retreated (e.prep s.gateway)).scopes i
              show ((withdrawEffort (e.prep s.gateway)).gateway.scopes i).privateOnly = false
              rw [hwithdrawn]
              exact hfree
            rw [hprivate] at hchosen
            have hscope : (e.prep s.gateway).ticket.scope = some i := hown
            rw [hscope] at hchosen
            refine .failedOver he hown hsource ⟨hchosen, hbody⟩ ?_
            rw [gateway_setExchange]
            have hmoved := moved_record { withdrawEffort (e.prep s.gateway) with
              body, endpoint := (ρ.candidate target).destination.endpoint } limit
              ((withdrawEffort_ticket _).symm ▸ hscope)
            rw [hmoved, modelOf_set? hbody]
            rfl
          · exact .kept (congrArg Scope.record (hothers hown))
  | @began id now verdict polled e placed a b d q he _ hcourse =>
      rw [gateway_setExchange] at hstill hsame hfree
      by_cases hown : placed.scope = some i
      · have halong := hcourse.along hown hopen hserial hsame
        have hrecord := halong.before.record
        have hbowner : (b.gateway.scopes i).owner = (s.gateway.scopes i).owner :=
          halong.before.get (fun s => s.owner) fun _ => rfl
        have hbfree : (b.gateway.scopes i).privateOnly = false := by
          cases hprivate : (b.gateway.scopes i).privateOnly with
          | false => rfl
          | true =>
              have hd := halong.after.privateOnly hprivate
              rw [← halong.privateOnly, hfree] at hd
              exact hd.symm
        have hsettled := hcourse.settled
        rw [hown] at hsettled
        have hpin := settle_pinned hsettled (halong.before.pinned hpinned) (hbowner.trans howner)
          hbfree
        generalize hmoved : placed.healthMoved = healthMoved at hpin
        cases hpin with
        | stays _ =>
            have hdowner : (d.gateway.scopes i).owner = (b.gateway.scopes i).owner :=
              halong.after.get (fun s => s.owner) fun _ => rfl
            have howned := hcourse.owned hown
              (halong.after.pinned (halong.before.pinned hpinned))
              (hdowner.trans (hbowner.trans howner)) hmoved
            exact .kept (howned.trans (halong.after.record.trans hrecord))
        | @moved source target body _ hautomatic hsource hcooling htarget hendpoint hpermits =>
            have hsource : ρ.candidateOf (s.gateway.scopes i).endpoint
                (some (s.gateway.scopes i).model) = some source := by
              rw [← hsource]
              exact congrArg (fun r : Endpoint × Text => ρ.candidateOf r.1 (some r.2)) hrecord.symm
            obtain ⟨hgated, hrecorded⟩ := hcourse.moved hown htarget.request hendpoint hpermits
            exact .cooled he (getElem?_setExchange_self he) hautomatic hcourse.edits hsource
              hcooling htarget hgated hrecorded
      · have hsame' := hcourse.concluded.others i hown
        refine .kept ?_
        rw [gateway_setExchange, hsame']
        exact (hcourse.edits.still hopen hserial (hsame' ▸ hstill) (hsame' ▸ hsame)).record

end Turns

/-- A dispatch for a scope goes to what the scope records after it. -/
theorem Turn.recorded {w : Intake} {s t : State ρ} {event : Event} {body : Json}
    {endpoint : Endpoint} {i : Slot} (h : Turn w s event (.dispatched body endpoint) t) {id : Nat}
    {e : Exchange ρ.settings.count} (hid : event.id? = some id) (he : t.exchanges[id]? = some e)
    (hscope : e.ticket.scope = some i) :
    endpoint = (t.gateway.scopes i).endpoint ∧
      modelOf body = some (t.gateway.scopes i).model := by
  generalize hanswer : Answer.dispatched body endpoint = answer at h
  cases h with
  | edited _ _ _ hnone =>
      rw [← hanswer] at hnone
      cases hnone
  | arrived _ _ _ hnone =>
      rw [← hanswer] at hnone
      cases hnone
  | denied _ _ _ _ => cases hanswer
  | shadowed _ _ _ _ _ => cases hanswer
  | ended _ _ _ => cases hanswer
  | @began _ now verdict polled o placed a b d q ho _ hcourse =>
      obtain rfl := Option.some.inj hid
      obtain rfl := Option.some.inj ((getElem?_setExchange_self ho).symm.trans he)
      have hplaced : placed.scope = some i := hcourse.scope.symm.trans hscope
      obtain ⟨rfl, rfl⟩ := dispatch_eq hanswer.symm
      obtain ⟨hendpoint, hmodel⟩ := hcourse.recorded hplaced
      exact ⟨hendpoint.symm, hmodel⟩
  | @retried _ now context o went q _ ho _ hretreat hdispatch =>
      obtain rfl := Option.some.inj hid
      obtain rfl := Option.some.inj ((getElem?_setExchange_self ho).symm.trans he)
      rw [hdispatch] at hanswer
      cases hretreat with
      | refused => cases hanswer
      | stranded _ => cases hanswer
      | moved source limit request ep _ _ _ htarget =>
          rw [if_pos rfl] at hanswer
          obtain ⟨hsent, hto⟩ := dispatch_eq hanswer.symm
          obtain ⟨target, -, hbody, rfl⟩ := failOver_eq_some htarget
          have hown : ({ withdrawEffort (o.prep s.gateway) with
              body := request, endpoint := (ρ.candidate target).destination.endpoint } :
              Prep ρ).ticket.scope = some i := hscope
          have hrecord := moved_record _ limit hown
          have hmodel := modelOf_set? hbody
          rw [gateway_setExchange, hsent, hto]
          refine ⟨(congrArg Prod.fst hrecord).symm, hmodel.trans ?_⟩
          have hname := congrArg Prod.snd hrecord
          dsimp only at hname
          rw [hmodel] at hname
          exact congrArg some hname.symm

theorem shadow_pinned (vetting : Json → Endpoint → Gated) (automatic : Bool) (h : GatewayHeaders)
    (started : Bool) {p : Prep ρ} {i : Slot} (hscope : p.ticket.scope = some i)
    (hpinned : (p.gateway.scopes i).pinned = true) :
    shadow vetting automatic h started p = (none, p) := by
  unfold shadow
  split
  · next config j _ hj =>
      obtain rfl := Option.some.inj (hscope.symm.trans hj)
      have hineligible : shadowEligible config p.gateway h (p.gateway.scopes i) p.endpoint p.body =
          false := by
        unfold shadowEligible
        rw [hpinned]
        rfl
      dsimp only
      rw [hineligible]
      split <;> rfl
  · rfl

/-- No copy of a pinned session's step is dispatched. -/
theorem step_uncopied {s t : State ρ} {id : Nat} {started : Bool} {copy : Option (Json × Endpoint)}
    {i : Slot} (hstep : step s (.shadow id started) = (.copied copy, t))
    (hpinned : (s.gateway.scopes i).pinned = true) {e : Exchange ρ.settings.count}
    (he : t.exchanges[id]? = some e) (hscope : e.ticket.scope = some i) : copy = none := by
  unfold step at hstep
  dsimp only at hstep
  split at hstep
  · cases hstep
  · next o ho =>
      obtain ⟨ho, -⟩ := Option.filter_eq_some_iff.mp ho
      obtain ⟨hcopied, rfl⟩ := Prod.mk.inj hstep
      obtain rfl := Option.some.inj ((getElem?_setExchange_self ho).symm.trans he)
      have hbeside := shadow_beside s.vetting o.request.automatic o.request.headers started
        (o.prep s.gateway)
      have hown : (o.prep s.gateway).ticket.scope = some i := hbeside.ticket.scope.symm.trans hscope
      have hnone := shadow_pinned s.vetting o.request.automatic o.request.headers started hown hpinned
      have hcopied : Answer.copied (shadow s.vetting o.request.automatic o.request.headers started
          (o.prep s.gateway)).1 = .copied copy := hcopied
      rw [hnone] at hcopied
      cases hcopied
      rfl

/-! ## Pins -/

/-- A pin is permanent.  While the scope is there it stays pinned, its record changes by a health
move or a failover only, its requests are dispatched to what it records, and no copy of them is
dispatched. -/
theorem pins_permanent {history later : List (Event × Answer)} {s u t : State ρ}
    (h : Reaches ρ history s) {i : Slot} (hopen : (s.gateway.scopes i).isOpen = true)
    (hpinned : (s.gateway.scopes i).pinned = true) (howner : (s.gateway.scopes i).owner = true)
    (run : Trace.Runs step s later u) {event : Event} {answer : Answer}
    (hstep : step u event = (answer, t)) (hstill : (t.gateway.scopes i).isOpen = true)
    (hsame : (t.gateway.scopes i).serial = (s.gateway.scopes i).serial)
    (hfree : (t.gateway.scopes i).privateOnly = false) :
    (t.gateway.scopes i).pinned = true ∧ (t.gateway.scopes i).owner = true ∧
      Redirected i u t event ∧
      (∀ id e body endpoint, event.id? = some id → t.exchanges[id]? = some e →
        e.ticket.scope = some i → answer = .dispatched body endpoint →
          endpoint = (t.gateway.scopes i).endpoint ∧
            modelOf body = some (t.gateway.scopes i).model) ∧
      ∀ id started e copy, event = .shadow id started → t.exchanges[id]? = some e →
        e.ticket.scope = some i → answer = .copied copy → copy = none := by
  obtain ⟨hpoised, hrun⟩ := h.poised.scope_run run hopen
  have hturn := step_turn hpoised (takes_any u event) hstep
  cases hrun with
  | inr hleft =>
      have hlater := (hturn.left hleft).2 hstill
      omega
  | inl hpersists =>
      have hopen' : (u.gateway.scopes i).isOpen = true := hpersists.isOpen.trans hopen
      have hpinned' := hpersists.pinned hpinned
      have howner' := hpersists.owner howner
      have hsame' := hsame.trans hpersists.serial.symm
      cases hturn.scope hpoised.fenced hopen' with
      | inr hleft =>
          have hlater := hleft.2 hstill
          omega
      | inl hnext =>
          refine ⟨hnext.pinned hpinned', hnext.owner howner', ?_, ?_, ?_⟩
          · exact hturn.redirected hpoised.fenced hopen' hpinned' howner' hstill hsame' hfree
          · intro id e body endpoint hid he hscope hanswer
            subst hanswer
            exact hturn.recorded hid he hscope
          · intro id started e copy hevent he hscope hanswer
            subst hevent hanswer
            exact step_uncopied hstep hpinned' he hscope

/-- The second request of a conversation. -/
def secondRequest (fields : List (Text × Option Text)) : Request where
  automatic := true
  fields := fields
  members := [("model", .string "p"),
    ("messages", .array [question, .object [("role", .string "assistant")], question]),
    ("max_tokens", .integer 9)]
  endpoint := .pub
  nodup := by decide
  addressed := by decide

/-- A session whose first exchange failed, and a second request that arrives for it. -/
def pinnedEvents : List Event :=
  [.arrive (sampleRequest [sessionHeader]) 2 ⟨false, none⟩, .prepare 0 3 (fun _ _ => .unscanned) [],
    .finish 0 ⟨false, false, none, ⟨none, none, none⟩⟩ 4,
    .arrive (secondRequest [sessionHeader]) 5 ⟨false, none⟩]

def pinnedRun : List (Event × Answer) × State sampleRouter :=
  Trace.feed step (sampleStart sampleRouter) pinnedEvents

def secondPrepare : Event := .prepare 1 6 (fun _ _ => .unscanned) []

theorem reaches_pinnedRun : Reaches sampleRouter pinnedRun.1 pinnedRun.2 :=
  ⟨_, started_sampleStart sampleRouter, Trace.Runs.feed pinnedEvents _⟩

theorem pins_permanent_sample :
    ((step pinnedRun.2 secondPrepare).2.gateway.scopes firstSlot).pinned = true ∧
      Redirected firstSlot pinnedRun.2 (step pinnedRun.2 secondPrepare).2 secondPrepare := by
  have hstep : step pinnedRun.2 secondPrepare =
      ((step pinnedRun.2 secondPrepare).1, (step pinnedRun.2 secondPrepare).2) := Prod.mk.eta.symm
  have hrun : Trace.Runs step pinnedRun.2 [] pinnedRun.2 := .init
  have hpins := pins_permanent (i := firstSlot) reaches_pinnedRun (by decide +kernel)
    (by decide +kernel) (by decide +kernel) hrun hstep (by decide +kernel) (by decide +kernel)
    (by decide +kernel)
  exact ⟨hpins.1, hpins.2.2.1⟩

end Recursant.Gateway
