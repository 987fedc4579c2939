import Recursant.Gateway.Fence

/-!
# The capacity of the candidates

How many requests a candidate has in flight is how many running exchanges hold it, whatever was
denied, moved or ended in between.
-/

namespace Recursant.Gateway

open Compliance (Gated)

variable {ρ : Router} {w : Intake} {s t : State ρ} {event : Event} {answer : Answer}

/-! ## Counts -/

/-- One request less is counted for a candidate. -/
def released {n : Nat} (inflight : Fin n → Nat) : Option (Fin n) → Fin n → Nat
  | none => inflight
  | some i => Function.update inflight i (inflight i - 1)

theorem counted_apply {n : Nat} (inflight : Fin n → Nat) (held : Option (Fin n)) (i : Fin n) :
    counted inflight held i = inflight i + if held = some i then 1 else 0 := by
  cases held with
  | none => rfl
  | some j =>
      show Function.update inflight j (inflight j + 1) i = _
      rw [Function.update_apply]
      by_cases hij : i = j
      · rw [if_pos hij, if_pos (congrArg some hij.symm), hij]
      · rw [if_neg hij, if_neg fun h => hij (Option.some.inj h).symm, Nat.add_zero]

theorem released_apply {n : Nat} (inflight : Fin n → Nat) (held : Option (Fin n)) (i : Fin n) :
    released inflight held i = inflight i - if held = some i then 1 else 0 := by
  cases held with
  | none => rfl
  | some j =>
      show Function.update inflight j (inflight j - 1) i = _
      rw [Function.update_apply]
      by_cases hij : i = j
      · rw [if_pos hij, if_pos (congrArg some hij.symm), hij]
      · rw [if_neg hij, if_neg fun h => hij (Option.some.inj h).symm, Nat.sub_zero]

theorem moveCapacity_eq (g : GatewayContext ρ.settings.count) (held target : Option ρ.Index) :
    moveCapacity g held target =
      (counted (released g.inflight held)
        (target.filter fun i => decide ((ρ.candidate i).maxInflight ≠ 0)),
        target.filter fun i => decide ((ρ.candidate i).maxInflight ≠ 0)) := by
  unfold moveCapacity
  cases held <;> cases target.filter fun i => decide ((ρ.candidate i).maxInflight ≠ 0) <;> rfl

/-! ## The candidate of a destination -/

/-- The candidate serves exactly this trust class and model. -/
def Serves (ρ : Router) (i : ρ.Index) (endpoint : Endpoint) (model : Option Text) : Prop :=
  (ρ.candidate i).destination.endpoint = endpoint ∧
    model = some (ρ.candidate i).destination.model

theorem candidateOf_serves {endpoint : Endpoint} {model : Option Text} {i : ρ.Index}
    (h : ρ.candidateOf endpoint model = some i) : Serves ρ i endpoint model := by
  have hserves := List.find?_some h
  rwa [Bool.and_eq_true, decide_eq_true_eq, decide_eq_true_eq] at hserves

theorem limited_serves {endpoint : Endpoint} {model : Option Text} {i : ρ.Index}
    (h : limited ρ endpoint model = some i) : Serves ρ i endpoint model := by
  have hserves := List.find?_some h
  simp only [Bool.and_eq_true, decide_eq_true_eq] at hserves
  exact ⟨hserves.1.2, hserves.2⟩

/-- The only candidate that serves a destination is the one that is found for it. -/
theorem candidateOf_sole {endpoint : Endpoint} {model : Option Text} {i : ρ.Index}
    (hserves : Serves ρ i endpoint model) (hsole : ∀ j, Serves ρ j endpoint model → j = i) :
    ρ.candidateOf endpoint model = some i := by
  cases hfound : ρ.candidateOf endpoint model with
  | some j => rw [hsole j (candidateOf_serves hfound)]
  | none =>
      have hnone := List.find?_eq_none.mp hfound i (List.mem_finRange i)
      rw [Bool.and_eq_true, decide_eq_true_eq, decide_eq_true_eq] at hnone
      exact absurd hserves hnone

theorem limited_sole {endpoint : Endpoint} {model : Option Text} {i : ρ.Index}
    (hserves : Serves ρ i endpoint model) (hsole : ∀ j, Serves ρ j endpoint model → j = i)
    (hlimit : (ρ.candidate i).maxInflight ≠ 0) : limited ρ endpoint model = some i := by
  cases hfound : limited ρ endpoint model with
  | some j => rw [hsole j (limited_serves hfound)]
  | none =>
      have hnone := List.find?_eq_none.mp hfound i (List.mem_finRange i)
      simp only [Bool.and_eq_true, decide_eq_true_eq] at hnone
      exact absurd ⟨⟨hlimit, hserves.1⟩, hserves.2⟩ hnone

theorem modelOf_removeEffort (body : Json) (added : Option Family) :
    modelOf (removeEffort body added) = modelOf body := by
  unfold modelOf
  rw [get?_removeEffort, if_neg]
  cases added with
  | none => exact fun h => nomatch h
  | some f => cases f <;> decide

/-! ## Holding -/

/-- The exchange runs and holds the candidate. -/
def Exchange.holds (i : ρ.Index) (e : Exchange ρ.settings.count) : Bool :=
  e.ticket.begun && decide (e.ticket.capacity = some i)

/-- The candidate that an exchange holds is one that serves its destination, and the only one that
does if it is limited. -/
structure Holding (e : Exchange ρ.settings.count) : Prop where
  serves : ∀ i, e.ticket.capacity = some i → Serves ρ i e.endpoint (modelOf e.body)
  sole : ∀ i, Serves ρ i e.endpoint (modelOf e.body) →
    (∀ j, Serves ρ j e.endpoint (modelOf e.body) → j = i) →
    (ρ.candidate i).maxInflight ≠ 0 → e.ticket.capacity = some i

structure Conserved (s : State ρ) : Prop where
  count : ∀ i, s.gateway.inflight i = s.exchanges.countP (Exchange.holds i)
  holding : ∀ (id : Nat) (e : Exchange ρ.settings.count), s.exchanges[id]? = some e →
    e.ticket.begun = true → Holding e

/-- One exchange is replaced, with the count that goes with it. -/
theorem Conserved.replace (h : Conserved s) {id : Nat} {e e' : Exchange ρ.settings.count}
    {g : GatewayContext ρ.settings.count} (he : s.exchanges[id]? = some e)
    (hcount : ∀ i, g.inflight i + (if e.holds i then 1 else 0) =
      s.gateway.inflight i + if e'.holds i then 1 else 0)
    (hholding : e'.ticket.begun = true → Holding e') : Conserved (s.setExchange id e' g) := by
  refine ⟨fun i => ?_, fun k o ho hbegun => ?_⟩
  · have hreplace := Tally.countP_replace (p := Exchange.holds i) (y := e') he
    have hsame := hcount i
    rw [h.count i] at hsame
    show g.inflight i = (s.exchanges.set id e').countP (Exchange.holds i)
    omega
  · cases getElem?_setExchange he ho with
    | inl hnew =>
        rw [hnew.2] at hbegun ⊢
        exact hholding hbegun
    | inr hold => exact h.holding k o hold.2 hbegun

theorem holds_idle {e : Exchange ρ.settings.count} (h : e.ticket.begun = false) (i : ρ.Index) :
    e.holds i = false := by
  unfold Exchange.holds
  rw [h, Bool.false_and]

theorem holds_begun {e : Exchange ρ.settings.count} (h : e.ticket.begun = true) (i : ρ.Index) :
    e.holds i = decide (e.ticket.capacity = some i) := by
  unfold Exchange.holds
  rw [h, Bool.true_and]

theorem holds_count {e : Exchange ρ.settings.count} (h : e.ticket.begun = true) (i : ρ.Index) :
    (if e.holds i = true then 1 else 0) = if e.ticket.capacity = some i then 1 else 0 := by
  rw [holds_begun h]
  by_cases hi : e.ticket.capacity = some i
  · rw [decide_eq_true hi, if_pos rfl, if_pos hi]
  · rw [decide_eq_false hi, if_neg Bool.false_ne_true, if_neg hi]

/-- Exchanges with tickets that agree hold the same candidates. -/
theorem holds_congr {e e' : Exchange ρ.settings.count} (hbegun : e'.ticket.begun = e.ticket.begun)
    (hcapacity : e'.ticket.capacity = e.ticket.capacity) (i : ρ.Index) :
    e'.holds i = e.holds i := by
  unfold Exchange.holds
  simp only [hbegun, hcapacity]

/-- A candidate that is held is counted. -/
theorem Conserved.positive (h : Conserved s) {id : Nat} {e : Exchange ρ.settings.count}
    {i : ρ.Index} (he : s.exchanges[id]? = some e) (hbegun : e.ticket.begun = true)
    (hi : e.ticket.capacity = some i) : 0 < s.gateway.inflight i := by
  rw [h.count i]
  apply List.countP_pos_iff.mpr
  refine ⟨e, List.mem_of_getElem? he, ?_⟩
  rw [holds_begun hbegun, hi, decide_eq_true rfl]

/-! ## Turns -/

/-- A request that is prepared does not hold anything yet. -/
theorem Fenced.fresh (h : Fenced s) {id : Nat} {e : Exchange ρ.settings.count}
    (he : s.exchanges[id]? = some e) (hfresh : e.prepared = false) : e.ticket = .fresh :=
  ((h.fit id e he).unprepared hfresh).2.2

theorem Course.holding {c : Call} {vetting : Json → Endpoint → Gated} {placed : Placed}
    {e : Exchange ρ.settings.count} {p a b d q : Prep ρ}
    (h : Course c vetting w placed p a b d q) : Holding (e.begin q) ∧
      q.ticket.capacity = limited ρ q.endpoint (modelOf q.body) ∧
      q.gateway.inflight = counted p.gateway.inflight (limited ρ q.endpoint (modelOf q.body)) := by
  have hcapacity : q.ticket.capacity = limited ρ q.endpoint (modelOf q.body) := by
    have hconcluded := h.concluded.capacity
    dsimp only at hconcluded
    rw [h.ticket.capacity] at hconcluded
    exact hconcluded.trans (Option.or_none ..)
  have hinflight := h.concluded.inflight
  dsimp only at hinflight
  rw [h.edits.capacity] at hinflight
  refine ⟨⟨fun i hi => ?_, fun i hserves hsole hlimit => ?_⟩, hcapacity, hinflight⟩
  · exact limited_serves (hcapacity.symm.trans hi)
  · exact hcapacity.trans (limited_sole hserves hsole hlimit)

/-- What a retry does to the capacity that its ticket holds. -/
theorem Retreat.capacity {vetting : Json → Endpoint → Gated} {h : GatewayHeaders} {now : Nat}
    {p q : Prep ρ} {went : Bool} (hretreat : Retreat vetting h now p went q) :
    (q.gateway.inflight = p.gateway.inflight ∧ q.ticket.capacity = p.ticket.capacity ∧
        q.endpoint = p.endpoint ∧ modelOf q.body = modelOf p.body) ∨
      q.ticket.capacity = (ρ.candidateOf q.endpoint (modelOf q.body)).filter
          (fun i => decide ((ρ.candidate i).maxInflight ≠ 0)) ∧
        q.gateway.inflight = counted (released p.gateway.inflight p.ticket.capacity)
          q.ticket.capacity := by
  have hwithdrawn : (withdrawEffort p).gateway.inflight = p.gateway.inflight ∧
      modelOf (withdrawEffort p).body = modelOf p.body := by
    unfold withdrawEffort
    split
    · exact ⟨rfl, rfl⟩
    · exact ⟨rfl, modelOf_removeEffort _ _⟩
  have hspec := withdrawEffort_spec p
  cases hretreat with
  | refused => exact .inl ⟨rfl, rfl, rfl, rfl⟩
  | stranded _ =>
      exact .inl ⟨hwithdrawn.1, congrArg Ticket.capacity hspec.ticket, hspec.endpoint,
        hwithdrawn.2⟩
  | moved source limit body endpoint _ _ _ _ =>
      have hmove := moveCapacity_eq (withdrawEffort p).gateway (withdrawEffort p).ticket.capacity
        (ρ.candidateOf endpoint (modelOf body))
      rw [hwithdrawn.1, hspec.ticket] at hmove
      refine .inr ⟨?_, ?_⟩
      · unfold Gateway.moved
        dsimp only
        rw [hspec.ticket, hmove]
      · unfold Gateway.moved
        dsimp only
        rw [hspec.ticket, hmove]
        split <;> rfl

theorem Turn.conserved (h : Turn w s event answer t) (hfenced : Fenced s)
    (hconserved : Conserved s) : Conserved t := by
  have hedits : ∀ {g : GatewayContext ρ.settings.count} {exchanges}, Edits ρ w s.gateway g →
      t.gateway = g → t.exchanges = exchanges →
      (∀ i, exchanges.countP (Exchange.holds i) = s.exchanges.countP (Exchange.holds i)) →
      (∀ (id : Nat) (e : Exchange ρ.settings.count), exchanges[id]? = some e →
        e.ticket.begun = true → Holding e) → Conserved t := by
    intro g exchanges hedits hg hexchanges hcount hholding
    refine ⟨fun i => ?_, ?_⟩
    · rw [hg, hedits.capacity, hconserved.count i, hexchanges, hcount i]
    · rw [hexchanges]
      exact hholding
  cases h with
  | edited hchanges hexchanges _ _ =>
      exact hedits hchanges rfl hexchanges (fun _ => rfl) hconserved.holding
  | arrived hchanges hexchanges _ _ =>
      apply hedits hchanges rfl hexchanges
      · intro i
        rw [List.countP_append, List.countP_singleton]
        rfl
      · intro id e he hbegun
        by_cases hlt : id < s.exchanges.length
        · rw [List.getElem?_append_left hlt] at he
          exact hconserved.holding id e he hbegun
        · rw [List.getElem?_append_right (by omega)] at he
          rw [List.mem_singleton.mp (List.mem_of_getElem? he)] at hbegun
          cases hbegun
  | @denied _ _ _ _ _ _ q he hfresh _ hdenied =>
      have hidle : q.ticket.begun = false := hdenied.ticket.begun
      apply hconserved.replace he
      · intro i
        rw [holds_idle (by rw [hfenced.fresh he hfresh]; rfl), holds_idle (by exact hidle),
          hdenied.edits.capacity]
        rfl
      · intro hbegun
        exact absurd (hidle.symm.trans hbegun) (by decide)
  | @began _ _ _ _ e _ _ _ _ q he hfresh hcourse =>
      obtain ⟨hholding, hcapacity, hinflight⟩ := hcourse.holding (e := e)
      apply hconserved.replace he
      · intro i
        rw [holds_idle (by rw [hfenced.fresh he hfresh]; rfl),
          holds_count hcourse.concluded.begun, hinflight, counted_apply, ← hcapacity,
          if_neg Bool.false_ne_true, Nat.add_zero]
        rfl
      · exact fun _ => hholding
  | @shadowed _ _ e q _ he _ haside hbeside huntaken =>
      have hholds : ∀ i, ({ e.after q with sampled := true } : Exchange _).holds i = e.holds i :=
        holds_congr huntaken.begun huntaken.capacity
      apply hconserved.replace he
      · intro i
        rw [hholds, haside.inflight]
      · intro hbegun
        have hold := hconserved.holding _ e he (huntaken.begun.symm.trans hbegun)
        refine ⟨?_, ?_⟩
        all_goals
          dsimp only [Exchange.after]
          rw [hbeside.body, hbeside.endpoint, huntaken.capacity]
        · exact hold.serves
        · exact hold.sole
  | @retried _ _ _ e _ q answer he hlive hretreat _ =>
      have hbegun := hfenced.live he hlive
      have hold := hconserved.holding _ e he hbegun
      have hticket := hretreat.retreated.ticket
      have hstill : q.ticket.begun = true := by
        rw [hticket]
        exact hbegun
      cases hretreat.capacity with
      | inl hsame =>
          obtain ⟨hinflight, hcapacity, hendpoint, hmodel⟩ := hsame
          have hcapacity : q.ticket.capacity = e.ticket.capacity := hcapacity
          have hendpoint : q.endpoint = e.endpoint := hendpoint
          have hmodel : modelOf q.body = modelOf e.body := hmodel
          have hholds : ∀ i, ({ e.after q with
              attempt := e.attempt + 1
              live := answer.isDispatch } : Exchange _).holds i = e.holds i :=
            holds_congr (hstill.trans hbegun.symm) hcapacity
          apply hconserved.replace he
          · intro i
            rw [hholds, hinflight]
            rfl
          · intro _
            refine ⟨?_, ?_⟩
            all_goals
              dsimp only [Exchange.after]
              rw [hmodel, hendpoint, hcapacity]
            · exact hold.serves
            · exact hold.sole
      | inr hmoved =>
          obtain ⟨hcapacity, hinflight⟩ := hmoved
          apply hconserved.replace he
          · intro i
            rw [holds_count hbegun, holds_count (by exact hstill), hinflight, counted_apply,
              released_apply]
            dsimp only [Exchange.after, Exchange.prep]
            -- what is given back was counted
            have hheld := hconserved.positive (i := i) he hbegun
            split_ifs with hi <;> grind
          · intro _
            refine ⟨fun i hi => ?_, fun i hserves hsole hlimit => ?_⟩
            · obtain ⟨hfound, -⟩ := Option.filter_eq_some_iff.mp (hcapacity.symm.trans hi)
              exact candidateOf_serves hfound
            · have hfound : ρ.candidateOf q.endpoint (modelOf q.body) = some i :=
                candidateOf_sole hserves hsole
              refine hcapacity.trans ?_
              rw [hfound, Option.filter_some, decide_eq_true hlimit]
              rfl
  | @ended id now f o ho hbegun hunfinished =>
      have hended := finish_ended f now s.gateway hbegun hunfinished
      have hidle : (finish f now s.gateway o.ticket).2.1.begun = false :=
        congrArg Ticket.begun hended.ticket
      have hinflight : (finish f now s.gateway o.ticket).1.inflight =
          released s.gateway.inflight o.ticket.capacity := by
        rw [hended.gateway]
        show (settleTicket s.gateway o.ticket f.complete now).inflight = _
        unfold settleTicket
        cases o.ticket.capacity <;> rfl
      have hreplaced : Conserved (s.setExchange id { o with
          ticket := (finish f now s.gateway o.ticket).2.1
          live := false } (finish f now s.gateway o.ticket).1) := by
        apply hconserved.replace ho
        · intro i
          rw [holds_count hbegun, holds_idle (by exact hidle), hinflight, released_apply,
            if_neg Bool.false_ne_true]
          have hheld : (if o.ticket.capacity = some i then 1 else 0) ≤ s.gateway.inflight i := by
            by_cases hi : o.ticket.capacity = some i
            · rw [if_pos hi]
              exact hconserved.positive ho hbegun hi
            · rw [if_neg hi]
              exact Nat.zero_le _
          omega
        · intro hnow
          exact absurd (hidle.symm.trans hnow) (by decide)
      refine ⟨?_, ?_⟩
      · rw [(finishStep_eq s id o f now).1, (finishStep_eq s id o f now).2]
        exact hreplaced.count
      · rw [(finishStep_eq s id o f now).2]
        exact hreplaced.holding

/-! ## Reachable routers -/

theorem Reaches.conserved {history : List (Event × Answer)} (h : Reaches ρ history s) :
    Conserved s := by
  refine h.invariant (fun start hstarted => ⟨fun i => ?_, fun id e he => ?_⟩)
    fun u event answer v hpoised hconserved hturn => hturn.conserved hpoised.fenced hconserved
  · rw [hstarted.inflight, hstarted.exchanges]
    rfl
  · rw [hstarted.exchanges] at he
    cases he

/-- The capacity of every candidate is conserved: its count is that of the running exchanges that
hold it, an exchange holds the candidate of its own destination, and no held candidate is counted
as free. -/
theorem capacity_conserved {history : List (Event × Answer)} (h : Reaches ρ history s) :
    (∀ i, s.gateway.inflight i = s.exchanges.countP fun e =>
      e.ticket.begun && !e.ticket.finished && decide (e.ticket.capacity = some i)) ∧
    (∀ (id : Nat) (e : Exchange ρ.settings.count), s.exchanges[id]? = some e →
      e.ticket.begun = true →
      (∀ i, e.ticket.capacity = some i →
        Serves ρ i e.endpoint (modelOf e.body) ∧ 0 < s.gateway.inflight i) ∧
      ∀ i, Serves ρ i e.endpoint (modelOf e.body) →
        (∀ j, Serves ρ j e.endpoint (modelOf e.body) → j = i) →
        (ρ.candidate i).maxInflight ≠ 0 → e.ticket.capacity = some i) ∧
    ((∀ e ∈ s.exchanges, e.ticket.begun = true → e.ticket.finished = true) →
      ∀ i, s.gateway.inflight i = 0) := by
  have hconserved := h.conserved
  have hcount : ∀ i, s.gateway.inflight i = s.exchanges.countP fun e =>
      e.ticket.begun && !e.ticket.finished && decide (e.ticket.capacity = some i) := by
    intro i
    rw [hconserved.count i]
    apply List.countP_congr
    intro e he
    obtain ⟨id, hid⟩ := List.getElem?_of_mem he
    unfold Exchange.holds
    cases hbegun : e.ticket.begun with
    | false => rfl
    | true => rw [((h.poised.fenced.fit id e hid).begun hbegun).finished]; rfl
  refine ⟨hcount, fun id e he hbegun => ⟨fun i hi => ⟨?_, hconserved.positive he hbegun hi⟩, ?_⟩,
    fun hdone i => ?_⟩
  · exact (hconserved.holding id e he hbegun).serves i hi
  · exact (hconserved.holding id e he hbegun).sole
  · rw [hcount i, List.countP_eq_zero]
    intro e he hruns
    simp only [Bool.and_eq_true, Bool.not_eq_true'] at hruns
    rw [hdone e he hruns.1.1] at hruns
    cases hruns.1.2

/-- Every candidate serves two requests at a time. -/
def limitedSettings : Settings :=
  { sampleSettings with
    candidate := fun i => { sampleSettings.candidate i with maxInflight := 2 }
    distinct := sampleSettings.distinct
    uniform := sampleSettings.uniform }

def limitedRouter : Router where
  runtime := sampleRuntime "openai-compatible" "openai-compatible"
  settings := limitedSettings
  neighbours := sampleNeighbours
  aliased := by decide

def heldCandidate : Fin limitedRouter.settings.count := ⟨1, by decide⟩

def otherHeader : Text × Option Text := ("X-Recursant-session-id", some (text "o"))

/-- Two requests are dispatched to the baseline, and the first one fails over. -/
def heldEvents : List Event :=
  [.arrive (sampleRequest [sessionHeader]) 1 ⟨false, none⟩, .prepare 0 2 (fun _ _ => .unscanned) [],
    .arrive (sampleRequest [otherHeader]) 3 ⟨false, none⟩, .prepare 1 4 (fun _ _ => .unscanned) [],
    .failover 0 false 5]

def heldRun : List (Event × Answer) × State limitedRouter :=
  Trace.feed step (sampleStart limitedRouter) heldEvents

/-- The failover has moved one of the two requests from the baseline to the private candidate. -/
theorem capacity_conserved_sample :
    heldRun.2.gateway.inflight limitedSettings.baseline = 1 ∧
    heldRun.2.gateway.inflight heldCandidate = 1 ∧
    (heldRun.2.exchanges.countP fun e => e.ticket.begun && !e.ticket.finished &&
      decide (e.ticket.capacity = some heldCandidate)) = 1 := by
  have hheld : heldRun.2.gateway.inflight limitedSettings.baseline = 1 ∧
      heldRun.2.gateway.inflight heldCandidate = 1 := by decide +kernel
  have hreaches : Reaches limitedRouter heldRun.1 heldRun.2 :=
    ⟨_, started_sampleStart limitedRouter, Trace.Runs.feed heldEvents _⟩
  have hcount := (capacity_conserved hreaches).1 heldCandidate
  exact ⟨hheld.1, hheld.2, hcount.symm.trans hheld.2⟩

end Recursant.Gateway
