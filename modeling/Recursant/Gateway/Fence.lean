import Recursant.Gateway.Authority
import Recursant.Gateway.Turns

/-!
# The fence around an exchange

A scope is in flight exactly while one exchange that has begun holds it.  Until that exchange ends,
nothing takes its slot or its mirror row away, and once it has ended its end is without effect.
-/

namespace Recursant.Gateway

open Compliance (Gated)

variable {ρ : Router} {w : Intake} {s t : State ρ} {event : Event} {answer : Answer}

/-! ## Exchanges that run -/

/-- What a running exchange holds of the scope table. -/
structure Seats (g : GatewayContext ρ.settings.count) (e : Exchange ρ.settings.count) (i : Slot) :
    Prop where
  isOpen : (g.scopes i).isOpen = true
  inflight : (g.scopes i).inflight = true
  serial : (g.scopes i).serial = e.serial

theorem Fenced.seats (h : Fenced s) {id : Nat} {e : Exchange ρ.settings.count} {i : Slot}
    (he : s.exchanges[id]? = some e) (hbegun : e.ticket.begun = true)
    (hi : e.ticket.scope = some i) : Seats s.gateway e i := by
  have hfit := (h.fit id e he).begun hbegun
  have hholds := hfit.holds i hi
  exact ⟨hholds.1, hfit.inflight i hi, hholds.2⟩

theorem Fenced.live (h : Fenced s) {id : Nat} {e : Exchange ρ.settings.count}
    (he : s.exchanges[id]? = some e) (hlive : e.live = true) : e.ticket.begun = true :=
  (h.fit id e he).live hlive

/-- The exchange of a number after one exchange was replaced. -/
theorem getElem?_setExchange {id k : Nat} {e e' o : Exchange ρ.settings.count}
    {g : GatewayContext ρ.settings.count} (he : s.exchanges[id]? = some e)
    (ho : (s.setExchange id e' g).exchanges[k]? = some o) :
    (k = id ∧ o = e') ∨ (k ≠ id ∧ s.exchanges[k]? = some o) := by
  have hset : (s.exchanges.set id e')[k]? = some o := ho
  by_cases hk : id = k
  · obtain ⟨hlt, -⟩ := List.getElem?_eq_some_iff.mp he
    rw [← hk, List.getElem?_set_self hlt] at hset
    exact .inl ⟨hk.symm, (Option.some.inj hset).symm⟩
  · rw [List.getElem?_set_ne hk] at hset
    exact .inr ⟨Ne.symm hk, hset⟩

theorem getElem?_setExchange_self {id : Nat} {e e' : Exchange ρ.settings.count}
    {g : GatewayContext ρ.settings.count} (he : s.exchanges[id]? = some e) :
    (s.setExchange id e' g).exchanges[id]? = some e' :=
  List.getElem?_set_self (List.getElem?_eq_some_iff.mp he).1

theorem getElem?_setExchange_of_ne {id k : Nat} {e' : Exchange ρ.settings.count}
    {g : GatewayContext ρ.settings.count} (hk : k ≠ id) :
    (s.setExchange id e' g).exchanges[k]? = s.exchanges[k]? :=
  List.getElem?_set_ne (Ne.symm hk)

@[simp] theorem gateway_setExchange (id : Nat) (e : Exchange ρ.settings.count)
    (g : GatewayContext ρ.settings.count) : (s.setExchange id e g).gateway = g := rfl

/-! ## The table over a turn -/

/-- Writes that open and close no scope keep the table tidy. -/
theorem Tidy.written {count : Nat} {g k : GatewayContext count} (htidy : Tidy g)
    (hholder : ∀ i, (k.scopes i).isOpen = (g.scopes i).isOpen ∧
      (k.scopes i).implicit = (g.scopes i).implicit)
    (hclosed : ∀ i, (g.scopes i).isOpen = false → k.scopes i = g.scopes i) : Tidy k := by
  refine ⟨fun i hi => ?_, fun implicit => ?_⟩
  · rw [(hholder i).1] at hi
    rw [hclosed i hi]
    exact htidy.blank i hi
  · refine (openOf_le implicit fun j hj => ?_).trans (htidy.quota implicit)
    rw [(hholder j).1] at hj
    exact ⟨hj, (hholder j).2⟩

theorem Concluded.scopes {c : Call} {placed : Placed} {d q : Prep ρ}
    (h : Concluded c placed d q) (i : Slot) :
    (placed.scope = some i ∧ ∃ model, q.gateway.scopes i =
      (d.gateway.scopes i).begin d.body c.now d.endpoint model q.ticket.row) ∨
    (placed.scope ≠ some i ∧ q.gateway.scopes i = d.gateway.scopes i) := by
  by_cases hi : placed.scope = some i
  · obtain ⟨model, hcommits⟩ := h.own i hi
    exact .inl ⟨hi, model, hcommits.scope⟩
  · exact .inr ⟨hi, h.others i hi⟩

/-- What the beginning of an exchange leaves of its scope. -/
theorem begin_holder (s : Scope) (body : Json) (now : Nat) (endpoint : Endpoint) (model : Text)
    (row : Option Nat) :
    (s.begin body now endpoint model row).toHolder = { s.toHolder with inflight := true } := by
  unfold Scope.begin commitScope
  dsimp only
  split <;> rfl

theorem Turn.tidy (h : Turn w s event answer t) (hfenced : Fenced s) (htidy : Tidy s.gateway) :
    Tidy t.gateway := by
  cases h with
  | edited hedits _ _ _ => exact hedits.tidy htidy
  | arrived hedits _ _ _ => exact hedits.tidy htidy
  | denied _ _ _ hdenied => exact hdenied.edits.tidy htidy
  | @began _ _ _ _ _ placed a b d q _ _ hcourse =>
      have hsame : ∀ i, (q.gateway.scopes i).isOpen = (d.gateway.scopes i).isOpen ∧
          (q.gateway.scopes i).implicit = (d.gateway.scopes i).implicit := by
        intro i
        cases hcourse.concluded.scopes i with
        | inl hown =>
            obtain ⟨-, model, hscope⟩ := hown
            rw [hscope, begin_holder]
            exact ⟨rfl, rfl⟩
        | inr hother =>
            rw [hother.2]
            exact ⟨rfl, rfl⟩
      apply hcourse.steady.tidy.written hsame
      intro i hclosed
      cases hcourse.concluded.scopes i with
      | inl hown =>
          rw [hcourse.steady.isOpen i hown.1] at hclosed
          cases hclosed
      | inr hother => exact hother.2
  | shadowed _ _ haside _ _ =>
      have hedits : Edits ρ w s.gateway _ := .single (.aside haside)
      exact hedits.tidy htidy
  | @retried _ _ _ e _ q _ he hlive hretreat _ =>
      have hretreated := hretreat.retreated
      have hholder : ∀ i, (q.gateway.scopes i).toHolder = (s.gateway.scopes i).toHolder := by
        intro i
        rw [hretreated.scopes i]
        rfl
      apply htidy.written fun i => ⟨congrArg Holder.isOpen (hholder i),
        congrArg Holder.implicit (hholder i)⟩
      intro i hclosed
      apply hretreated.others
      intro hi
      rw [(hfenced.seats he (hfenced.live he hlive) hi).isOpen] at hclosed
      cases hclosed
  | @ended id now f e he hbegun hunfinished =>
      have hended := finishStep_ended s id f now hbegun hunfinished
      have hholder : ∀ i, ((finishStep s id e f now).gateway.scopes i).isOpen =
          (s.gateway.scopes i).isOpen ∧
          ((finishStep s id e f now).gateway.scopes i).implicit =
            (s.gateway.scopes i).implicit := by
        intro i
        by_cases hi : e.ticket.scope = some i
        · rw [hended.own i hi]
          exact ⟨rfl, rfl⟩
        · rw [hended.others i hi]
          exact ⟨rfl, rfl⟩
      apply htidy.written hholder
      intro i hclosed
      apply hended.others
      intro hi
      rw [(hfenced.seats he hbegun hi).isOpen] at hclosed
      cases hclosed

/-! ## The same scope over a turn -/

/-- What says which scope a slot holds. -/
def Scope.identity (s : Scope) : Holder × UInt64 × Context.Key :=
  ({ s.toHolder with inflight := false, privateOnly := false }, s.anchor, s.key)

/-- The slot holds the same scope, with no less authority and no less continuity to keep. -/
structure Persists (s t : Scope) : Prop where
  identity : t.identity = s.identity
  privateOnly : s.privateOnly = true → t.privateOnly = true
  pinned : s.pinned = true → t.pinned = true
  owner : s.owner = true → t.owner = true

theorem Persists.refl (s : Scope) : Persists s s := ⟨rfl, id, id, id⟩

theorem Persists.trans {s t u : Scope} (first : Persists s t) (second : Persists t u) :
    Persists s u :=
  ⟨second.identity.trans first.identity, second.privateOnly ∘ first.privateOnly,
    second.pinned ∘ first.pinned, second.owner ∘ first.owner⟩

/-- What does not depend on the exchange in flight or the authority is the same. -/
theorem Persists.get {s t : Scope} (h : Persists s t) {α : Type} (view : Holder → α)
    (hview : ∀ u, view { u with inflight := false, privateOnly := false } = view u) :
    view t.toHolder = view s.toHolder := by
  rw [← hview t.toHolder, ← hview s.toHolder]
  exact congrArg view (Prod.mk.inj h.identity).1

theorem Persists.isOpen {s t : Scope} (h : Persists s t) : t.isOpen = s.isOpen :=
  h.get Holder.isOpen fun _ => rfl

theorem Persists.serial {s t : Scope} (h : Persists s t) : t.serial = s.serial :=
  h.get Holder.serial fun _ => rfl

theorem Kept.persists {s t : Scope} (h : Kept s t) : Persists s t := by
  have howner : t.owner = s.owner := h.get (fun s => s.owner) fun _ => rfl
  refine ⟨h.get Scope.identity fun _ => rfl, h.privateOnly, h.pinned, fun hs => ?_⟩
  rw [howner]
  exact hs

theorem Rerouted.persists {s t : Scope} (h : Rerouted s t) : Persists s t := by
  rw [h]
  exact ⟨rfl, id, id, id⟩

theorem finish_persists (f : Finish) (now : Nat) (s : Scope) :
    Persists s (s.finish ρ f now) := by
  have hfinished := finish_finished (ρ := ρ) f now s
  have howner : (s.finish ρ f now).owner = s.owner := hfinished.get (fun s => s.owner) fun _ => rfl
  refine ⟨?_, id, hfinished.pinned, fun hs => howner.trans hs⟩
  have hanchor : (s.finish ρ f now).anchor = s.anchor := hfinished.get (fun s => s.anchor) fun _ => rfl
  have hkey : (s.finish ρ f now).key = s.key := hfinished.get (fun s => s.key) fun _ => rfl
  show (_, (s.finish ρ f now).anchor, (s.finish ρ f now).key) = (_, s.anchor, s.key)
  rw [hanchor, hkey]
  rfl

theorem begin_persists (s : Scope) (body : Json) (now : Nat) (endpoint : Endpoint) (model : Text)
    (row : Option Nat) : Persists s (s.begin body now endpoint model row) := by
  unfold Scope.begin commitScope
  by_cases hpinned : s.pinned = true
  · dsimp only
    rw [if_pos hpinned]
    exact ⟨rfl, id, id, fun _ => rfl⟩
  · dsimp only
    rw [if_neg hpinned]
    exact ⟨rfl, id, fun h => absurd h hpinned, fun _ => rfl⟩

/-- Writes to scopes that stay. -/
structure Written {count : Nat} (g k : GatewayContext count) : Prop where
  opened : k.opened = g.opened
  boot : k.boot = g.boot
  generations : k.generations = g.generations
  persists : ∀ i, Persists (g.scopes i) (k.scopes i)

theorem Written.refl {count : Nat} (g : GatewayContext count) : Written g g :=
  ⟨rfl, rfl, rfl, fun _ => .refl _⟩

/-- A turn is a series of changes and then writes to scopes that stay. -/
theorem Turn.written (h : Turn w s event answer t) :
    ∃ g, Edits ρ w s.gateway g ∧ Written g t.gateway := by
  cases h with
  | edited hedits _ _ _ => exact ⟨_, hedits, .refl _⟩
  | arrived hedits _ _ _ => exact ⟨_, hedits, .refl _⟩
  | denied _ _ _ hdenied => exact ⟨_, hdenied.edits, .refl _⟩
  | began _ _ hcourse =>
      have hconcluded := hcourse.concluded
      refine ⟨_, hcourse.edits, hconcluded.opened, hconcluded.boot, hconcluded.generations,
        fun i => ?_⟩
      cases hconcluded.scopes i with
      | inl hown =>
          obtain ⟨-, model, hscope⟩ := hown
          rw [gateway_setExchange, hscope]
          exact begin_persists ..
      | inr hother =>
          rw [gateway_setExchange, hother.2]
          exact .refl _
  | shadowed _ _ haside _ _ => exact ⟨_, .single (.aside haside), .refl _⟩
  | retried _ _ hretreat _ =>
      have hretreated := hretreat.retreated
      refine ⟨_, .refl _, ?_, ?_, ?_, fun i => (hretreated.scopes i).persists⟩
      all_goals
        rw [gateway_setExchange, hretreated.gateway]
        rfl
  | @ended id now f e he hbegun hunfinished =>
      have hended := finishStep_ended s id f now hbegun hunfinished
      refine ⟨_, .refl _, ?_, ?_, ?_, fun i => ?_⟩
      · rw [hended.gateway]
        rfl
      · rw [hended.gateway]
        rfl
      · rw [hended.gateway]
        rfl
      · by_cases hi : e.ticket.scope = some i
        · rw [hended.own i hi]
          exact finish_persists f now _
        · rw [hended.others i hi]
          exact .refl _

theorem Left.written {count : Nat} {g k : GatewayContext count} {i : Slot} {serial : Nat}
    (h : Left g i serial) (hwritten : Written g k) : Left k i serial := by
  unfold Left
  rw [hwritten.opened, (hwritten.persists i).isOpen, (hwritten.persists i).serial]
  exact h

theorem Left.edits {g k : GatewayContext ρ.settings.count} {i : Slot} {serial : Nat}
    (h : Left g i serial) (hedits : Edits ρ w g k) : Left k i serial := by
  induction hedits with
  | refl => exact h
  | tail _ hlast ih => exact ih.edit hlast

theorem Turn.left (h : Turn w s event answer t) {i : Slot} {serial : Nat}
    (hleft : Left s.gateway i serial) : Left t.gateway i serial := by
  obtain ⟨g, hedits, hwritten⟩ := h.written
  exact (hleft.edits hedits).written hwritten

/-- Over a turn a scope persists, or has left its slot. -/
theorem Turn.scope (h : Turn w s event answer t) (hfenced : Fenced s) {i : Slot}
    (hopen : (s.gateway.scopes i).isOpen = true) :
    Persists (s.gateway.scopes i) (t.gateway.scopes i) ∨
      Left t.gateway i (s.gateway.scopes i).serial := by
  obtain ⟨g, hedits, hwritten⟩ := h.written
  have hserial := (hfenced.sound.bounded i hopen).2
  cases hedits.scope hopen hserial with
  | inl hkept => exact .inl (hkept.2.persists.trans (hwritten.persists i))
  | inr hleft => exact .inr (hleft.written hwritten)

/-! ## Reachable routers -/

theorem Turn.numbered (h : Turn w s event answer t) (hnumbered : s.gateway.contexts.Numbered) :
    t.gateway.contexts.Numbered := by
  cases h with
  | edited hedits _ _ _ => exact hedits.numbered hnumbered
  | arrived hedits _ _ _ => exact hedits.numbered hnumbered
  | denied _ _ _ hdenied => exact hdenied.edits.numbered hnumbered
  | began _ _ hcourse =>
      rw [gateway_setExchange, hcourse.concluded.contexts]
      exact hcourse.edits.numbered hnumbered
  | shadowed _ _ haside _ _ => exact haside.numbered hnumbered
  | retried _ _ hretreat _ =>
      rw [gateway_setExchange, hretreat.retreated.gateway]
      exact hnumbered
  | @ended id now f e he hbegun hunfinished =>
      have hended := finishStep_ended s id f now hbegun hunfinished
      rw [hended.gateway]
      exact hnumbered

theorem poised_start (h : Started ρ s) : Poised s := by
  refine ⟨fenced_start h, fun i _ => ?_, fun implicit => ?_⟩
  · rw [h.scopes]
  · have hnone : s.gateway.openOf implicit = 0 := by
      unfold GatewayContext.openOf
      rw [h.scopes, List.countP_eq_zero]
      intro i _
      exact Bool.false_ne_true
    rw [hnone]
    exact Nat.zero_le _

theorem Poised.next (h : Poised s) (hstep : step s event = (answer, t)) : Poised t :=
  ⟨(step_fenced h.fenced hstep).1,
    (step_turn h (takes_any s event) hstep).tidy h.fenced h.tidy⟩

theorem Reaches.poised {history : List (Event × Answer)} (h : Reaches ρ history s) : Poised s := by
  obtain ⟨start, hstart, run⟩ := h
  exact run.invariant (fun t event answer u ht hstep => ht.next hstep) (poised_start hstart)

/-- What every turn keeps, every reachable router has. -/
theorem Reaches.invariant {P : State ρ → Prop} {history : List (Event × Answer)}
    (hstart : ∀ start, Started ρ start → P start)
    (hturn : ∀ s event answer t, Poised s → P s → Turn .any s event answer t → P t)
    (h : Reaches ρ history s) : P s := by
  obtain ⟨start, hstarted, run⟩ := h
  have hboth : Poised s ∧ P s := by
    refine run.invariant (P := fun u => Poised u ∧ P u) ?_ ⟨poised_start hstarted, hstart _ hstarted⟩
    intro t event answer u ht hstep
    exact ⟨ht.1.next hstep, hturn t event answer u ht.1 ht.2 (step_turn ht.1 (takes_any _ _) hstep)⟩
  exact hboth.2

/-- Whether a run keeps a scope or it leaves its slot. -/
theorem Poised.scope_run {history : List (Event × Answer)} (hpoised : Poised s)
    (run : Trace.Runs step s history t) {i : Slot} (hopen : (s.gateway.scopes i).isOpen = true) :
    Poised t ∧ (Persists (s.gateway.scopes i) (t.gateway.scopes i) ∨
      Left t.gateway i (s.gateway.scopes i).serial) := by
  refine run.invariant (P := fun u => Poised u ∧ (Persists (s.gateway.scopes i)
    (u.gateway.scopes i) ∨ Left u.gateway i (s.gateway.scopes i).serial)) ?_
    ⟨hpoised, .inl (.refl _)⟩
  intro u event answer v hu hstep
  have hturn := step_turn hu.1 (takes_any u event) hstep
  refine ⟨hu.1.next hstep, ?_⟩
  cases hu.2 with
  | inr hleft => exact .inr (hturn.left hleft)
  | inl hpersists =>
      cases hturn.scope hu.1.fenced (hpersists.isOpen.trans hopen) with
      | inl hlater => exact .inl (hpersists.trans hlater)
      | inr hleft => exact .inr (hpersists.serial ▸ hleft)

/-! ## Exchanges over a turn -/

/-- The exchange goes on: its ticket names the same scope, row and attempt. -/
structure GoesOn (e e' : Exchange ρ.settings.count) : Prop where
  request : e'.request = e.request
  serial : e'.serial = e.serial
  prepared : e'.prepared = e.prepared
  id : e'.ticket.id = e.ticket.id
  scope : e'.ticket.scope = e.ticket.scope
  row : e'.ticket.row = e.ticket.row
  begun : e'.ticket.begun = e.ticket.begun
  finished : e'.ticket.finished = e.ticket.finished

theorem GoesOn.refl (e : Exchange ρ.settings.count) : GoesOn e e :=
  ⟨rfl, rfl, rfl, rfl, rfl, rfl, rfl, rfl⟩

theorem GoesOn.trans {e e' e'' : Exchange ρ.settings.count} (first : GoesOn e e')
    (second : GoesOn e' e'') : GoesOn e e'' :=
  ⟨second.request.trans first.request, second.serial.trans first.serial,
    second.prepared.trans first.prepared, second.id.trans first.id,
    second.scope.trans first.scope, second.row.trans first.row, second.begun.trans first.begun,
    second.finished.trans first.finished⟩

/-- Only its own preparation and its own end stop an exchange from going on. -/
theorem Turn.goesOn (h : Turn w s event answer t) {id : Nat} {e : Exchange ρ.settings.count}
    (he : s.exchanges[id]? = some e) (hprepared : e.prepared = true)
    (hend : e.ticket.begun = true → ∀ f now, event ≠ .finish id f now) :
    ∃ e', t.exchanges[id]? = some e' ∧ GoesOn e e' := by
  -- an exchange of another number is left alone, and of this one the ticket is kept
  have hset : ∀ {id' : Nat} {o o' : Exchange ρ.settings.count}
      {g : GatewayContext ρ.settings.count}, s.exchanges[id']? = some o →
      (id = id' → GoesOn o o') →
      ∃ e', (s.setExchange id' o' g).exchanges[id]? = some e' ∧ GoesOn e e' := by
    intro id' o o' g ho hgoes
    by_cases hid : id = id'
    · subst hid
      obtain rfl := Option.some.inj (ho.symm.trans he)
      exact ⟨o', getElem?_setExchange_self ho, hgoes rfl⟩
    · exact ⟨e, (getElem?_setExchange_of_ne hid).trans he, .refl e⟩
  have hother : ∀ {id' : Nat} {o : Exchange ρ.settings.count}, s.exchanges[id']? = some o →
      o.prepared = false → id ≠ id' := by
    intro id' o ho hfresh hid
    subst hid
    rw [Option.some.inj (ho.symm.trans he), hprepared] at hfresh
    cases hfresh
  cases h with
  | edited _ hexchanges _ _ => exact ⟨e, hexchanges ▸ he, .refl e⟩
  | arrived _ hexchanges _ _ =>
      obtain ⟨hlt, -⟩ := List.getElem?_eq_some_iff.mp he
      exact ⟨e, by rw [hexchanges, List.getElem?_append_left hlt, he], .refl e⟩
  | denied ho hfresh _ _ => exact hset ho fun hid => absurd hid (hother ho hfresh)
  | began ho hfresh _ => exact hset ho fun hid => absurd hid (hother ho hfresh)
  | shadowed ho _ _ hbeside huntaken =>
      exact hset ho fun _ => ⟨rfl, rfl, rfl, huntaken.id, hbeside.ticket.scope, huntaken.row,
        huntaken.begun, huntaken.finished⟩
  | retried ho _ hretreat _ =>
      have hticket := hretreat.retreated.ticket
      refine hset ho fun _ => ⟨rfl, rfl, rfl, ?_, ?_, ?_, ?_, ?_⟩
      all_goals
        dsimp only [Exchange.after]
        rw [hticket]
        rfl
  | @ended id' now f o ho hbegun hunfinished =>
      by_cases hid : id = id'
      · subst hid
        rw [Option.some.inj (ho.symm.trans he)] at hbegun
        exact absurd rfl (hend hbegun f now)
      · refine ⟨e, ?_, .refl e⟩
        rw [(finishStep_eq s id' o f now).2, List.getElem?_set_ne (Ne.symm hid)]
        exact he

/-! ## Scopes in flight -/

/-- Every scope in flight is held by an exchange that has begun. -/
def Occupied (s : State ρ) : Prop :=
  ∀ i, (s.gateway.scopes i).inflight = true → ∃ (id : Nat) (e : Exchange ρ.settings.count),
    s.exchanges[id]? = some e ∧ e.ticket.begun = true ∧ e.ticket.scope = some i

/-- A scope in flight was so before and its exchange goes on, or its exchange begins. -/
theorem Turn.inflight (h : Turn w s event answer t) (hfenced : Fenced s) {i : Slot}
    (hinflight : (t.gateway.scopes i).inflight = true) :
    ((s.gateway.scopes i).inflight = true ∧ ∀ (id : Nat) (e : Exchange ρ.settings.count),
      s.exchanges[id]? = some e → e.ticket.begun = true → e.ticket.scope = some i →
        ∃ e', t.exchanges[id]? = some e' ∧ GoesOn e e') ∨
      ∃ (id : Nat) (e : Exchange ρ.settings.count), t.exchanges[id]? = some e ∧
        e.ticket.begun = true ∧ e.ticket.scope = some i := by
  have hgoesOn : (∀ id f now, event ≠ .finish id f now) →
      ∀ (id : Nat) (e : Exchange ρ.settings.count), s.exchanges[id]? = some e →
        e.ticket.begun = true → e.ticket.scope = some i →
        ∃ e', t.exchanges[id]? = some e' ∧ GoesOn e e' := fun hevent id e he hbegun _ =>
    h.goesOn he ((hfenced.fit id e he).prepared hbegun) fun _ f now => hevent id f now
  cases h with
  | edited hedits hexchanges _ _ =>
      rw [hedits.inflight i] at hinflight
      exact .inl ⟨hinflight, fun id e he _ _ => ⟨e, hexchanges ▸ he, .refl e⟩⟩
  | arrived hedits _ _ _ =>
      rw [hedits.inflight i] at hinflight
      exact .inl ⟨hinflight, hgoesOn nofun⟩
  | denied _ _ _ hdenied =>
      rw [gateway_setExchange, hdenied.edits.inflight i] at hinflight
      exact .inl ⟨hinflight, hgoesOn nofun⟩
  | began ho _ hcourse =>
      cases hcourse.concluded.scopes i with
      | inl hown =>
          refine .inr ⟨_, _, getElem?_setExchange_self ho, hcourse.concluded.begun, ?_⟩
          exact hcourse.scope.trans hown.1
      | inr hother =>
          rw [gateway_setExchange, hother.2, hcourse.edits.inflight i] at hinflight
          exact .inl ⟨hinflight, hgoesOn nofun⟩
  | shadowed _ _ haside _ _ =>
      rw [gateway_setExchange, haside.scopes] at hinflight
      exact .inl ⟨hinflight, hgoesOn nofun⟩
  | retried _ _ hretreat _ =>
      rw [gateway_setExchange, hretreat.retreated.scopes i] at hinflight
      exact .inl ⟨hinflight, hgoesOn nofun⟩
  | @ended id now f o ho hbegun hunfinished =>
      have hended := finishStep_ended s id f now hbegun hunfinished
      by_cases hi : o.ticket.scope = some i
      · rw [hended.own i hi] at hinflight
        cases hinflight
      · rw [hended.others i hi] at hinflight
        refine .inl ⟨hinflight, fun id' e he _ hscope => ⟨e, ?_, .refl e⟩⟩
        rw [(finishStep_eq s id o f now).2, List.getElem?_set_ne, he]
        intro hid
        subst hid
        rw [Option.some.inj (ho.symm.trans he)] at hi
        exact hi hscope

theorem Turn.occupied (h : Turn w s event answer t) (hfenced : Fenced s)
    (hoccupied : Occupied s) : Occupied t := by
  intro i hinflight
  cases h.inflight hfenced hinflight with
  | inr hbegins => exact hbegins
  | inl hwas =>
      obtain ⟨id, e, he, hbegun, hi⟩ := hoccupied i hwas.1
      obtain ⟨e', he', hgoes⟩ := hwas.2 id e he hbegun hi
      exact ⟨id, e', he', hgoes.begun.trans hbegun, hgoes.scope.trans hi⟩

/-! ## Mirror rows -/

/-- The row that the exchange has in the mirror of the ledger. -/
structure Mirrors (g : GatewayContext ρ.settings.count) (e : Exchange ρ.settings.count) (k : Nat)
    (r : Physical) : Prop where
  row : g.rows[k]? = some r
  inUse : r.inUse = true
  unsettled : r.settled = false
  scope : r.scope = e.ticket.scope
  id : e.ticket.id = some r.id
  headers : r.headers = e.request.headers.invocation

/-- Every exchange that has begun has its row to itself. -/
structure Rowed (s : State ρ) : Prop where
  row : ∀ (id : Nat) (e : Exchange ρ.settings.count) (k : Nat), s.exchanges[id]? = some e →
    e.ticket.begun = true → e.ticket.row = some k → ∃ r, Mirrors s.gateway e k r
  alone : ∀ (id id' : Nat) (e e' : Exchange ρ.settings.count) (k : Nat),
    s.exchanges[id]? = some e → s.exchanges[id']? = some e' → e.ticket.begun = true →
    e'.ticket.begun = true → e.ticket.row = some k → e'.ticket.row = some k → id = id'

theorem getElem?_setRow (rows : List Physical) (k n : Nat) (r : Physical) (hk : k ≤ rows.length) :
    (setRow rows k r)[n]? = if n = k then some r else rows[n]? := by
  unfold setRow
  split
  · next hlt =>
      rw [List.getElem?_set]
      by_cases hn : k = n
      · rw [if_pos hn, if_pos hn.symm, if_pos hlt]
      · rw [if_neg hn, if_neg (Ne.symm hn)]
  · next hlt =>
      have hend : k = rows.length := by omega
      subst hend
      by_cases hn : n = rows.length
      · rw [if_pos hn, hn, List.getElem?_concat_length]
      · rw [if_neg hn]
        by_cases hless : n < rows.length
        · exact List.getElem?_append_left hless
        · rw [List.getElem?_eq_none (by simp; omega), List.getElem?_eq_none (by omega)]

theorem Vacant.le {count : Nat} {g : GatewayContext count} {n : Nat} (h : Vacant g n) :
    n ≤ g.rows.length := by
  cases h with
  | inl hend => exact hend.le
  | inr hrow =>
      obtain ⟨r, hr, -⟩ := hrow
      exact (List.getElem?_eq_some_iff.mp hr).1.le

/-- A row that is in use is not given away. -/
theorem Vacant.ne {count : Nat} {g : GatewayContext count} {n k : Nat} {r : Physical}
    (h : Vacant g n) (hr : g.rows[k]? = some r) (hused : r.inUse = true) : k ≠ n := by
  intro hkn
  subst hkn
  cases h with
  | inl hend =>
      have hlt := (List.getElem?_eq_some_iff.mp hr).1
      omega
  | inr hrow =>
      obtain ⟨r', hr', hunused⟩ := hrow
      rw [Option.some.inj (hr.symm.trans hr'), hunused] at hused
      cases hused

/-- The row of an exchange stays as it is until the exchange ends. -/
theorem Turn.mirrors (h : Turn w s event answer t) (hfenced : Fenced s) (hrowed : Rowed s)
    {id k : Nat} {e : Exchange ρ.settings.count} {r : Physical}
    (he : s.exchanges[id]? = some e) (hbegun : e.ticket.begun = true)
    (hk : e.ticket.row = some k) (hr : Mirrors s.gateway e k r) :
    (∃ f now e', event = .finish id f now ∧ t.exchanges[id]? = some e' ∧
      e'.ticket.begun = false) ∨ t.gateway.rows[k]? = some r := by
  have hscope : ∀ i, r.scope = some i → (s.gateway.scopes i).inflight = true := by
    intro i hi
    rw [hr.scope] at hi
    exact (hfenced.seats he hbegun hi).inflight
  have hedits : ∀ {g : GatewayContext ρ.settings.count}, Edits ρ w s.gateway g →
      g.rows[k]? = some r := fun hedits => hedits.row hr.row hr.unsettled hscope
  cases h with
  | edited hchanges _ _ _ => exact .inr (hedits hchanges)
  | arrived hchanges _ _ _ => exact .inr (hedits hchanges)
  | denied _ _ _ hdenied => exact .inr (hedits hdenied.edits)
  | @began _ _ _ _ _ _ _ _ d q _ _ hcourse =>
      have hbefore := hedits hcourse.edits
      refine .inr ?_
      rw [gateway_setExchange]
      have hrows := hcourse.concluded.rows hcourse.ticket.row
      generalize q.gateway.rows = rows at hrows ⊢
      cases hrows with
      | untracked _ => exact hbefore
      | tracked n rowId hfree _ _ =>
          have hvacant := hcourse.vacant n hfree
          rw [getElem?_setRow _ _ _ _ hvacant.le, if_neg (hvacant.ne hbefore hr.inUse)]
          exact hbefore
  | shadowed _ _ haside _ _ => exact .inr (hedits (.single (.aside haside)))
  | retried _ _ hretreat _ =>
      refine .inr ?_
      rw [gateway_setExchange, hretreat.retreated.gateway]
      exact hr.row
  | @ended id' now f o ho hbegun' hunfinished =>
      have hended := finishStep_ended s id' f now hbegun' hunfinished
      by_cases hid : id' = id
      · subst hid
        have hstopped := congrArg Ticket.begun hended.ticket
        refine .inl ⟨f, now, { o with
          ticket := (finish f now s.gateway o.ticket).2.1
          live := false }, rfl, ?_, hstopped⟩
        rw [(finishStep_eq s id' o f now).2]
        exact List.getElem?_set_self (List.getElem?_eq_some_iff.mp he).1
      · refine .inr ?_
        rw [hended.gateway]
        show (settleTicket s.gateway o.ticket f.complete now).rows[k]? = some r
        unfold settleTicket
        dsimp only
        split
        · exact hr.row
        · next n hn =>
            have hnk : n ≠ k := by
              intro hnk
              subst hnk
              exact hid (hrowed.alone id' id o e n ho he hbegun' hbegun hn hk)
            rw [List.getElem?_modify, hr.row]
            exact congrArg some (if_neg hnk)

/-- An exchange that has begun had begun before, or it is the one of the turn. -/
theorem Turn.begun (h : Turn w s event answer t) {id : Nat} {e' : Exchange ρ.settings.count}
    (he' : t.exchanges[id]? = some e') (hbegun : e'.ticket.begun = true) :
    (∃ e, s.exchanges[id]? = some e ∧ e.ticket.begun = true ∧ GoesOn e e') ∨
      ∃ now verdict polled e placed a b d q, event = .prepare id now verdict polled ∧
        s.exchanges[id]? = some e ∧ e.prepared = false ∧ e' = e.begin q ∧ t.gateway = q.gateway ∧
        Course (e.call now verdict polled) (vet s.runtime verdict) w placed (e.prep s.gateway) a b
          d q := by
  have hkept : ∀ {e o : Exchange ρ.settings.count} {id' : Nat} {g : GatewayContext ρ.settings.count},
      s.exchanges[id']? = some e → (s.setExchange id' o g).exchanges[id]? = some e' →
      (id = id' → o = e' → GoesOn e o) →
      ∃ e, s.exchanges[id]? = some e ∧ e.ticket.begun = true ∧ GoesOn e e' := by
    intro e o id' g he ho hgoes
    cases getElem?_setExchange he ho with
    | inl hnew =>
        obtain ⟨rfl, rfl⟩ := hnew
        exact ⟨e, he, (hgoes rfl rfl).begun.symm.trans hbegun, hgoes rfl rfl⟩
    | inr hold => exact ⟨e', hold.2, hbegun, .refl e'⟩
  cases h with
  | edited _ hexchanges _ _ => exact .inl ⟨e', hexchanges ▸ he', hbegun, .refl e'⟩
  | arrived _ hexchanges _ _ =>
      rw [hexchanges] at he'
      by_cases hlt : id < s.exchanges.length
      · rw [List.getElem?_append_left hlt] at he'
        exact .inl ⟨e', he', hbegun, .refl e'⟩
      · rw [List.getElem?_append_right (by omega)] at he'
        have hmem := List.mem_of_getElem? he'
        rw [List.mem_singleton.mp hmem] at hbegun
        cases hbegun
  | @denied _ _ _ _ _ _ q he _ _ hdenied =>
      refine .inl (hkept he he' fun _ hsame => ?_)
      have hstopped : q.ticket.begun = false := hdenied.ticket.begun
      rw [← hsame] at hbegun
      exact absurd (hstopped.symm.trans hbegun) (by decide)
  | began he hfresh hcourse =>
      cases getElem?_setExchange he he' with
      | inl hnew =>
          obtain ⟨rfl, rfl⟩ := hnew
          exact .inr ⟨_, _, _, _, _, _, _, _, _, rfl, he, hfresh, rfl, rfl, hcourse⟩
      | inr hold => exact .inl ⟨e', hold.2, hbegun, .refl e'⟩
  | shadowed he _ _ hbeside huntaken =>
      exact .inl (hkept he he' fun _ _ => ⟨rfl, rfl, rfl, huntaken.id, hbeside.ticket.scope,
        huntaken.row, huntaken.begun, huntaken.finished⟩)
  | retried he _ hretreat _ =>
      have hticket := hretreat.retreated.ticket
      refine .inl (hkept he he' fun _ _ => ⟨rfl, rfl, rfl, ?_, ?_, ?_, ?_, ?_⟩)
      all_goals
        dsimp only [Exchange.after]
        rw [hticket]
        rfl
  | @ended id' now f o ho hbegun' hunfinished =>
      have hended := finish_ended f now s.gateway hbegun' hunfinished
      rw [(finishStep_eq s id' o f now).2] at he'
      refine .inl (hkept (g := s.gateway) ho he' fun _ hsame => ?_)
      have hstopped : (finish f now s.gateway o.ticket).2.1.begun = false :=
        congrArg Ticket.begun hended.ticket
      rw [← hsame] at hbegun
      exact absurd (hstopped.symm.trans hbegun) (by decide)

/-- What an exchange that begins has in the mirror. -/
theorem Course.mirrors {c : Call} {vetting : Json → Endpoint → Gated} {placed : Placed}
    {e : Exchange ρ.settings.count} {p a b d q : Prep ρ} (h : Course c vetting w placed p a b d q)
    (hheaders : c.headers = e.request.headers) {k : Nat} (hk : q.ticket.row = some k) :
    placed.freeRow = some k ∧ ∃ r, Mirrors q.gateway (e.begin q) k r := by
  have hrows := h.concluded.rows h.ticket.row
  generalize hq : q.gateway.rows = rows at hrows
  cases hrows with
  | untracked hnone =>
      rw [hk] at hnone
      cases hnone
  | tracked n rowId hfree hrow hid =>
      obtain rfl := Option.some.inj (hk.symm.trans hrow)
      have hget := getElem?_setRow d.gateway.rows k k
        ⟨c.headers.invocation, rowId, q.ticket.scope, false, true, false, c.now⟩
        (h.vacant k hfree).le
      rw [if_pos rfl] at hget
      rw [hheaders] at hget hq
      have hmirrors : Mirrors q.gateway (e.begin q) k
          ⟨e.request.headers.invocation, rowId, q.ticket.scope, false, true, false, c.now⟩ :=
        ⟨hq ▸ hget, rfl, rfl, rfl, hid, rfl⟩
      exact ⟨hfree, _, hmirrors⟩

theorem Turn.rowed (h : Turn w s event answer t) (hfenced : Fenced s) (hrowed : Rowed s) :
    Rowed t := by
  -- the row of an exchange that goes on
  have hkept : ∀ (id : Nat) (e e' : Exchange ρ.settings.count) (k : Nat),
      s.exchanges[id]? = some e → e.ticket.begun = true → t.exchanges[id]? = some e' →
      e'.ticket.begun = true → GoesOn e e' → e'.ticket.row = some k →
      ∃ r, Mirrors s.gateway e k r ∧ Mirrors t.gateway e' k r := by
    intro id e e' k he hbegun he' hbegun' hgoes hk
    have hk' : e.ticket.row = some k := hgoes.row.symm.trans hk
    obtain ⟨r, hr⟩ := hrowed.row id e k he hbegun hk'
    refine ⟨r, hr, ?_⟩
    cases h.mirrors hfenced hrowed he hbegun hk' hr with
    | inr hrow =>
        exact ⟨hrow, hr.inUse, hr.unsettled, hr.scope.trans hgoes.scope.symm,
          hgoes.id.trans hr.id, hr.headers.trans (congrArg (·.headers.invocation) hgoes.request.symm)⟩
    | inl hstopped =>
        obtain ⟨f, now, o, -, ho, hstopped⟩ := hstopped
        rw [Option.some.inj (he'.symm.trans ho), hstopped] at hbegun'
        cases hbegun'
  -- the row of an exchange that begins was used by none that goes on
  have hnew : ∀ (id : Nat) (e : Exchange ρ.settings.count) (k : Nat) {now verdict polled}
      {o : Exchange ρ.settings.count} {placed : Placed} {a b d q : Prep ρ},
      Course (o.call now verdict polled) (vet s.runtime verdict) w placed (o.prep s.gateway) a b d
        q → q.ticket.row = some k → s.exchanges[id]? = some e → e.ticket.begun = true →
      e.ticket.row ≠ some k := by
    intro id e k now verdict polled o placed a b d q hcourse hk he hbegun hek
    obtain ⟨hfree, -⟩ := hcourse.mirrors (e := o) rfl hk
    obtain ⟨r, hr⟩ := hrowed.row id e k he hbegun hek
    have hbefore := hcourse.edits.row hr.row hr.unsettled fun i hi =>
      (hfenced.seats he hbegun (hr.scope.symm.trans hi)).inflight
    exact (hcourse.vacant k hfree).ne hbefore hr.inUse rfl
  refine ⟨fun id e' k he' hbegun' hk => ?_, fun id id' e e' k he he' hbegun hbegun' hk hk' => ?_⟩
  · cases h.begun he' hbegun' with
    | inl hwas =>
        obtain ⟨e, he, hbegun, hgoes⟩ := hwas
        obtain ⟨r, -, hr⟩ := hkept id e e' k he hbegun he' hbegun' hgoes hk
        exact ⟨r, hr⟩
    | inr hbegins =>
        obtain ⟨now, verdict, polled, e, placed, a, b, d, q, -, -, -, rfl, hgateway, hcourse⟩ :=
          hbegins
        rw [hgateway]
        exact (hcourse.mirrors rfl hk).2
  · cases h.begun he hbegun with
    | inl hwas =>
        obtain ⟨o, ho, hobegun, hgoes⟩ := hwas
        cases h.begun he' hbegun' with
        | inl hwas' =>
            obtain ⟨o', ho', hobegun', hgoes'⟩ := hwas'
            exact hrowed.alone id id' o o' k ho ho' hobegun hobegun' (hgoes.row.symm.trans hk)
              (hgoes'.row.symm.trans hk')
        | inr hbegins =>
            obtain ⟨_, _, _, _, _, _, _, _, q, -, -, -, rfl, -, hcourse⟩ := hbegins
            exact absurd (hgoes.row.symm.trans hk) (hnew id o k hcourse hk' ho hobegun)
    | inr hbegins =>
        obtain ⟨now, verdict, polled, e₁, _, _, _, _, q, hevent, he₁, hfresh, rfl, -, hcourse⟩ := hbegins
        cases h.begun he' hbegun' with
        | inl hwas' =>
            obtain ⟨o', ho', hobegun', hgoes'⟩ := hwas'
            exact absurd (hgoes'.row.symm.trans hk') (hnew id' o' k hcourse hk ho' hobegun')
        | inr hbegins' =>
            obtain ⟨now', verdict', polled', e₂, _, _, _, _, _, hevent', -, -, -, -, -⟩ := hbegins'
            exact (Event.prepare.inj (hevent.symm.trans hevent')).1

/-! ## Reachable routers -/

/-- What holds of the exchanges of every reachable router. -/
structure Settled (s : State ρ) : Prop where
  occupied : Occupied s
  rowed : Rowed s

theorem Reaches.settled {history : List (Event × Answer)} (h : Reaches ρ history s) : Settled s := by
  refine h.invariant (fun start hstart => ?_) fun u event answer v hpoised hsettled hturn =>
    ⟨hturn.occupied hpoised.fenced hsettled.occupied, hturn.rowed hpoised.fenced hsettled.rowed⟩
  refine ⟨fun i hi => ?_, fun id e k he => ?_, fun id id' e e' k he => ?_⟩
  · rw [hstart.scopes] at hi
    cases hi
  · rw [hstart.exchanges] at he
    cases he
  · rw [hstart.exchanges] at he
    cases he

/-! ## The fence -/

/-- The ticket of a prepared request that does not run: its end has no effect, now or later. -/
def Stopped (s : State ρ) (id : Nat) : Prop :=
  ∃ e, s.exchanges[id]? = some e ∧ e.prepared = true ∧ e.ticket.begun = false

theorem Stopped.turn {id : Nat} (hstopped : Stopped s id) (h : Turn w s event answer t) :
    Stopped t id := by
  obtain ⟨e, he, hprepared, hidle⟩ := hstopped
  obtain ⟨e', he', hgoes⟩ := h.goesOn he hprepared fun hbegun => by
    rw [hidle] at hbegun
    cases hbegun
  exact ⟨e', he', hgoes.prepared.trans hprepared, hgoes.begun.trans hidle⟩

theorem Stopped.finish {id : Nat} (hstopped : Stopped s id) (hfenced : Fenced s) (f : Finish)
    (now : Nat) : step s (.finish id f now) = (.done, s) := by
  obtain ⟨e, he, -, hidle⟩ := hstopped
  have hnot : ¬(e.ticket.begun = true ∧ e.ticket.finished = false) := by
    rw [hidle]
    exact fun h => Bool.false_ne_true h.1
  unfold step
  dsimp only
  rw [he]
  exact congrArg (Prod.mk _) (finishStep_idle f hfenced he hnot)

/-- The end of a prepared request stops it. -/
theorem stopped_finish (hpoised : Poised s) {id : Nat} {e : Exchange ρ.settings.count}
    (he : s.exchanges[id]? = some e) (hprepared : e.prepared = true) (f : Finish) (now : Nat) :
    Stopped (step s (.finish id f now)).2 id := by
  cases hbegun : e.ticket.begun with
  | false =>
      have hstopped : Stopped s id := ⟨e, he, hprepared, hbegun⟩
      rw [hstopped.finish hpoised.fenced f now]
      exact hstopped
  | true =>
      have hunfinished := ((hpoised.fenced.fit id e he).begun hbegun).finished
      have hended := finish_ended f now s.gateway hbegun hunfinished
      have hstep : (step s (.finish id f now)).2 = finishStep s id e f now := by
        unfold step
        dsimp only
        rw [he]
      have hidle := congrArg Ticket.begun hended.ticket
      refine ⟨{ e with ticket := (finish f now s.gateway e.ticket).2.1, live := false }, ?_,
        hprepared, hidle⟩
      rw [hstep, (finishStep_eq s id e f now).2]
      exact List.getElem?_set_self (List.getElem?_eq_some_iff.mp he).1

/-- What a running exchange keeps until it ends. -/
structure Undisturbed (s t : State ρ) (id : Nat) (e : Exchange ρ.settings.count) : Prop where
  goesOn : ∃ e', t.exchanges[id]? = some e' ∧ GoesOn e e'
  scope : ∀ i, e.ticket.scope = some i → (t.gateway.scopes i).isOpen = true ∧
    (t.gateway.scopes i).inflight = true ∧
    (t.gateway.scopes i).serial = (s.gateway.scopes i).serial
  row : ∀ k, e.ticket.row = some k → t.gateway.rows[k]? = s.gateway.rows[k]? ∧
    ∃ r, Mirrors s.gateway e k r

/-- A running exchange is undisturbed by every run without its end. -/
theorem undisturbed_run {history later : List (Event × Answer)} (hs : Reaches ρ history s)
    (run : Trace.Runs step s later t) {id : Nat} {e : Exchange ρ.settings.count}
    (he : s.exchanges[id]? = some e) (hbegun : e.ticket.begun = true)
    (hends : ∀ f now, .finish id f now ∉ later.map Prod.fst) : Undisturbed s t id e := by
  have hpoised := hs.poised
  have hinvariant : Poised t ∧ Rowed t ∧ Undisturbed s t id e := by
    revert hends
    refine run.induct (P := fun later u => (∀ f now, .finish id f now ∉ later.map Prod.fst) →
      Poised u ∧ Rowed u ∧ Undisturbed s u id e) (fun _ => ?_) ?_
    · refine ⟨hpoised, hs.settled.rowed, ⟨e, he, .refl e⟩, fun i hi => ?_, fun k hk => ⟨rfl, ?_⟩⟩
      · have hseats := hpoised.fenced.seats he hbegun hi
        exact ⟨hseats.isOpen, hseats.inflight, rfl⟩
      · exact hs.settled.rowed.row id e k he hbegun hk
    · intro later u event answer v _ hbefore hstep hends
      have hmap : (later ++ [(event, answer)]).map Prod.fst = later.map Prod.fst ++ [event] := by
        rw [List.map_append]
        rfl
      rw [hmap] at hends
      obtain ⟨hu, hrowed, ⟨o, ho, hgoes⟩, hscope, hrow⟩ :=
        hbefore fun f now hmem => hends f now (List.mem_append_left _ hmem)
      have hnot : ∀ f now, event ≠ .finish id f now := fun f now heq =>
        hends f now (List.mem_append_right _ (heq ▸ List.mem_singleton_self _))
      have hturn := step_turn hu (takes_any u event) hstep
      have hobegun : o.ticket.begun = true := hgoes.begun.trans hbegun
      obtain ⟨o', ho', hgoes'⟩ :=
        hturn.goesOn ho ((hu.fenced.fit id o ho).prepared hobegun) fun _ f now => hnot f now
      have hv := hu.next hstep
      refine ⟨hv, hturn.rowed hu.fenced hrowed, ⟨o', ho', hgoes.trans hgoes'⟩, fun i hi => ?_,
        fun k hk => ⟨?_, (hrow k hk).2⟩⟩
      · have hi' : o.ticket.scope = some i := hgoes.scope.trans hi
        have hseats := hu.fenced.seats ho hobegun hi'
        have hseats' := hv.fenced.seats ho' (hgoes'.begun.trans hobegun) (hgoes'.scope.trans hi')
        refine ⟨hseats'.isOpen, hseats'.inflight, ?_⟩
        rw [hseats'.serial, hgoes'.serial, ← hseats.serial]
        exact (hscope i hi).2.2
      · obtain ⟨r, hr⟩ := hrowed.row id o k ho hobegun (hgoes.row.trans hk)
        cases hturn.mirrors hu.fenced hrowed ho hobegun (hgoes.row.trans hk) hr with
        | inl hstopped =>
            obtain ⟨f, now, -, heq, -⟩ := hstopped
            exact absurd heq (hnot f now)
        | inr hsame => exact (hsame.trans hr.row.symm).trans (hrow k hk).1
  exact hinvariant.2.2

/-- The fence holds in every reachable state: a scope is in flight exactly while one running
exchange names it, what an exchange names stays until it ends, an end has effect once, and a denied
preparation takes nothing. -/
theorem exchanges_fenced {history : List (Event × Answer)} (h : Reaches ρ history s) :
    (∀ i, (s.gateway.scopes i).inflight = true ↔ ∃! id : Nat, ∃ e : Exchange ρ.settings.count,
      s.exchanges[id]? = some e ∧ e.ticket.begun = true ∧ e.ticket.finished = false ∧
        e.ticket.scope = some i) ∧
    (∀ (id : Nat) (e : Exchange ρ.settings.count), s.exchanges[id]? = some e →
      e.ticket.begun = true → ∀ later t, Trace.Runs step s later t →
        (∀ f now, .finish id f now ∉ later.map Prod.fst) → Undisturbed s t id e) ∧
    (∀ (id : Nat) (e : Exchange ρ.settings.count), s.exchanges[id]? = some e →
      e.prepared = true → ∀ f now later t,
        Trace.Runs step (step s (.finish id f now)).2 later t →
          ∀ f' now', step t (.finish id f' now') = (.done, t)) ∧
    ∀ (id : Nat) (e : Exchange ρ.settings.count) now verdict polled status q,
      s.exchanges[id]? = some e → e.prepared = false →
      (prepare (e.call now verdict polled) (vet s.runtime verdict)).run (e.prep s.gateway) =
        .error status q →
      Stopped (step s (.prepare id now verdict polled)).2 id ∧
        ∀ i, ((step s (.prepare id now verdict polled)).2.gateway.scopes i).inflight =
          (s.gateway.scopes i).inflight := by
  have hpoised := h.poised
  refine ⟨fun i => ⟨fun hi => ?_, fun hheld => ?_⟩, fun id e he hbegun later t run hends =>
    undisturbed_run h run he hbegun hends, fun id e he hprepared f now later t run f' now' => ?_,
    fun id e now verdict polled status q he hfresh hdenied => ?_⟩
  · obtain ⟨id, e, he, hbegun, hscope⟩ := h.settled.occupied i hi
    have hunfinished := ((hpoised.fenced.fit id e he).begun hbegun).finished
    refine ⟨id, ⟨e, he, hbegun, hunfinished, hscope⟩, fun id' hheld => ?_⟩
    obtain ⟨e', he', hbegun', -, hscope'⟩ := hheld
    exact hpoised.fenced.alone id' id e' e i he' he hbegun' hbegun hscope' hscope
  · obtain ⟨id, ⟨e, he, hbegun, -, hscope⟩, -⟩ := hheld
    exact (hpoised.fenced.seats he hbegun hscope).inflight
  · have hfirst : Poised (step s (.finish id f now)).2 :=
      hpoised.next (Prod.mk.eta (p := step s (.finish id f now))).symm
    have hlast : Poised t ∧ Stopped t id :=
      run.invariant (P := fun u => Poised u ∧ Stopped u id)
        (fun u event answer v hu hstep =>
          ⟨hu.1.next hstep, hu.2.turn (step_turn hu.1 (takes_any u event) hstep)⟩)
        ⟨hfirst, stopped_finish hpoised he hprepared f now⟩
    exact hlast.2.finish hlast.1.fenced f' now'
  · have hstep : (step s (.prepare id now verdict polled)).2 =
        s.setExchange id { e.after q with prepared := true } q.gateway := by
      rw [step_prepare he hfresh]
      unfold prepareStep
      rw [show (e.call now verdict polled).verdict = verdict from rfl, hdenied]
    have hpolled : ∀ r ∈ (e.call now verdict polled).polled, Intake.any.polled r :=
      fun _ _ => trivial
    have hnothing := prepare_denied (w := .any) (p := e.prep s.gateway) hpolled hpoised.tidy
      hpoised.fenced.sound hdenied
    rw [hstep]
    refine ⟨⟨_, getElem?_setExchange_self he, rfl, hnothing.ticket.begun⟩, fun i => ?_⟩
    exact hnothing.edits.inflight i

theorem reaches_labelledRun : Reaches sampleRouter labelledRun.1 labelledRun.2 :=
  ⟨_, started_sampleStart sampleRouter, Trace.Runs.feed labelledEvents _⟩

theorem exchanges_fenced_sample : (labelledRun.2.gateway.scopes firstSlot).inflight = true ∧
    ∀ i, (labelledRun.2.gateway.scopes i).inflight = true ↔ ∃! id : Nat,
      ∃ e : Exchange sampleRouter.settings.count, labelledRun.2.exchanges[id]? = some e ∧
        e.ticket.begun = true ∧ e.ticket.finished = false ∧ e.ticket.scope = some i :=
  ⟨by decide +kernel, (exchanges_fenced reaches_labelledRun).1⟩

end Recursant.Gateway
