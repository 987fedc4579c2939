import Recursant.Gateway.Preparation
import Recursant.Gateway.Series

/-!
# A preparation before it commits

Up to its commitment a preparation only makes changes of the list, and its ticket holds neither a
row nor a candidate's capacity.  So a request that is denied leaves no more than that behind.
-/

namespace Recursant.Gateway

open Compliance (Gated)
open Stateful

variable {ρ : Router} {w : Intake}

/-! ## Drafts -/

/-- The ticket holds what it held. -/
structure Untaken {count : Nat} (t u : Ticket count) : Prop where
  id : u.id = t.id
  row : u.row = t.row
  capacity : u.capacity = t.capacity
  begun : u.begun = t.begun
  finished : u.finished = t.finished

theorem Untaken.refl {count : Nat} (t : Ticket count) : Untaken t t := ⟨rfl, rfl, rfl, rfl, rfl⟩

theorem Untaken.trans {count : Nat} {t u v : Ticket count} (first : Untaken t u)
    (second : Untaken u v) : Untaken t v :=
  ⟨second.id.trans first.id, second.row.trans first.row, second.capacity.trans first.capacity,
    second.begun.trans first.begun, second.finished.trans first.finished⟩

/-- The table is tidy, and the scope of the request is open and between two exchanges. -/
structure Steady {count : Nat} (scope : Option Slot) (g : GatewayContext count) : Prop where
  tidy : Tidy g
  isOpen : ∀ i, scope = some i → (g.scopes i).isOpen = true
  idle : ∀ i, scope = some i → (g.scopes i).inflight = false

/-- From a steady gateway only changes of the list are made. -/
structure Drafts (w : Intake) (scope : Option Slot) (p q : Prep ρ) : Prop where
  edits : Steady scope p.gateway → Edits ρ w p.gateway q.gateway ∧ Steady scope q.gateway
  ticket : Untaken p.ticket q.ticket

theorem Drafts.refl (scope : Option Slot) (p : Prep ρ) : Drafts w scope p p :=
  ⟨fun hsteady => ⟨.refl _, hsteady⟩, .refl _⟩

theorem Drafts.trans {scope : Option Slot} {p q o : Prep ρ} (first : Drafts w scope p q)
    (second : Drafts w scope q o) : Drafts w scope p o := by
  refine ⟨fun hsteady => ?_, first.ticket.trans second.ticket⟩
  obtain ⟨hfirst, hmiddle⟩ := first.edits hsteady
  obtain ⟨hsecond, hlast⟩ := second.edits hmiddle
  exact ⟨hfirst.trans hsecond, hlast⟩

instance (scope : Option Slot) : Std.Refl (Drafts (ρ := ρ) w scope) := ⟨Drafts.refl scope⟩

instance (scope : Option Slot) : IsTrans (Prep ρ) (Drafts w scope) := ⟨fun _ _ _ => Drafts.trans⟩

theorem Steady.aside {g k : GatewayContext ρ.settings.count} {scope : Option Slot}
    (h : Steady scope g) (haside : Aside g k) : Edits ρ w g k ∧ Steady scope k := by
  have hedit : Edit ρ w g k := .aside haside
  refine ⟨.single hedit, hedit.tidy h.tidy, ?_, ?_⟩
  · rw [haside.scopes]
    exact h.isOpen
  · rw [haside.scopes]
    exact h.idle

/-! ## Actions -/

section Actions

variable (c : Call) (vetting : Json → Endpoint → Gated) (scope : Option Slot)

theorem drafts_aside {f : GatewayContext ρ.settings.count → GatewayContext ρ.settings.count}
    (h : ∀ g, Aside g (f g)) : Within (Drafts w scope) (modifyGateway (ρ := ρ) f) :=
  within_modify fun p => ⟨fun hsteady => hsteady.aside (h p.gateway), .refl _⟩

/-- An action that works on the request and what the ticket says of it. -/
theorem drafts_request {f : Prep ρ → Prep ρ} (hgateway : ∀ p, (f p).gateway = p.gateway)
    (hticket : ∀ p, Untaken p.ticket (f p).ticket) :
    Within (Drafts w scope) (modify f : Prepare ρ Unit) := by
  apply within_modify
  intro p
  refine ⟨fun hsteady => ?_, hticket p⟩
  rw [hgateway]
  exact ⟨.refl _, hsteady⟩

theorem drafts_modifyTicket {f : Ticket ρ.settings.count → Ticket ρ.settings.count}
    (h : ∀ t, Untaken t (f t)) : Within (Drafts w scope) (modifyTicket (ρ := ρ) f) :=
  drafts_request scope (fun _ => rfl) fun p => h p.ticket

theorem drafts_endpoint (endpoint : Endpoint) :
    Within (Drafts w scope) (modify fun p => { p with endpoint } : Prepare ρ Unit) :=
  drafts_request scope (fun _ => rfl) fun _ => .refl _

theorem drafts_ensure (p : Bool) (status : Nat) :
    Within (Drafts w scope) (ensure (ρ := ρ) p status) :=
  within_ite (fun _ => within_pure _) fun _ => within_throw _

theorem drafts_scopeAt (i : Slot) : Within (Drafts w scope) (scopeAt (ρ := ρ) i) :=
  within_get.bind fun _ => within_pure _

theorem drafts_setModel (model : Option Text) :
    Within (Drafts w scope) (setModel (ρ := ρ) model) := by
  intro p
  show Drafts w scope p (final (setModel model p))
  unfold setModel
  split
  · exact .refl scope p
  · exact ⟨fun hsteady => ⟨.refl _, hsteady⟩, .refl _⟩

theorem drafts_place (a : Alias) : Within (Drafts w scope) (place (ρ := ρ) a) :=
  (drafts_endpoint scope a.endpoint).bind fun _ => drafts_setModel scope _

theorem drafts_exactRow (row : Option Nat) (now : Nat) :
    Within (Drafts w scope) (exactRow (ρ := ρ) row now) := fun p =>
  ⟨fun hsteady => hsteady.aside (aside_exact p.gateway _ row now), .refl _⟩

/-! ### Entry -/

theorem drafts_pollLocked (hpolled : ∀ r ∈ c.polled, w.polled r) :
    Within (Drafts w none)
      (modifyGateway (ρ := ρ) fun g => g.pollLocked ρ.settings.authorization c.now c.polled) := by
  apply within_modify
  intro p
  refine ⟨fun hsteady => ?_, .refl _⟩
  have hedits : Edits ρ w p.gateway (p.gateway.pollLocked ρ.settings.authorization c.now c.polled) :=
    (shifts_pollLocked p.gateway _ c.now c.polled hpolled).edits
  exact ⟨hedits, hedits.tidy hsteady.tidy, nofun, nofun⟩

theorem drafts_rateLimit : Within (Drafts w scope) (rateLimit (ρ := ρ) c) := by
  unfold rateLimit
  apply within_ite
  · intro _
    refine Within.bind (drafts_aside scope fun g => ?_) fun _ => ?_
    · split
      · exact ⟨rfl, rfl, rfl, rfl, rfl, rfl, rfl, id⟩
      · exact .refl g
    · refine Within.bind within_get fun p => ?_
      refine (drafts_ensure scope _ _).bind fun _ => drafts_aside scope fun g => ?_
      exact ⟨rfl, rfl, rfl, rfl, rfl, rfl, rfl, id⟩
  · exact fun _ => within_pure _

theorem drafts_capacityFence : Within (Drafts w none) (capacityFence (ρ := ρ) c) := by
  intro p
  refine ⟨fun hsteady => ?_, .refl _⟩
  have hrow : Edits ρ w p.gateway (p.gateway.rowSlot ρ.settings.attemptTtl c.now).2 :=
    (shifts_rowSlot p.gateway _ _).edits
  have hedits : Edits ρ w p.gateway (final ((capacityFence (ρ := ρ) c).run p)).gateway :=
    hrow.tail (.aside ⟨rfl, rfl, rfl, rfl, rfl, rfl, rfl, id⟩)
  exact ⟨hedits, hedits.tidy hsteady.tidy, nofun, nofun⟩

theorem drafts_diagnosticFence : Within (Drafts w scope) (diagnosticFence (ρ := ρ) c) :=
  within_get.bind fun _ => drafts_ensure scope _ _

theorem drafts_registeredScope : Within (Drafts w scope) (registeredScope (ρ := ρ) c) := by
  unfold registeredScope
  refine Within.bind within_get fun p => ?_
  dsimp only
  split
  · exact within_throw _
  · refine (drafts_ensure scope _ _).bind fun _ => ?_
    exact (drafts_ensure scope _ _).bind fun _ => within_pure _

theorem drafts_housekeeping : Within (Drafts w scope) (housekeeping (ρ := ρ) c vetting) := by
  unfold housekeeping
  split
  · exact within_pure _
  · refine Within.bind within_get fun p => ?_
    apply within_ite
    · intro _
      refine (drafts_place scope _).bind fun _ => ?_
      refine Within.bind (drafts_modifyTicket scope ?_) fun _ => within_pure _
      exact fun _ => ⟨rfl, rfl, rfl, rfl, rfl⟩
    · exact fun _ => within_pure _

theorem drafts_requestSession : Within (Drafts w none) (requestSession (ρ := ρ) c) := by
  intro p
  show Drafts w none p (final (requestSession c p))
  unfold requestSession
  split
  · next hgo =>
      rw [Bool.and_eq_true] at hgo
      refine ⟨fun hsteady => ?_, .refl _⟩
      have hedits : Edits ρ w p.gateway (p.gateway.implicitScope p.body c.headers c.now).2 :=
        (shifts_implicitScope hgo.1 hsteady.tidy p.body c.headers c.now).edits
      exact ⟨hedits, hedits.tidy hsteady.tidy, nofun, nofun⟩
  · exact .refl none p

theorem drafts_resolve : Within (Drafts w none) (resolve (ρ := ρ) c vetting) := by
  unfold resolve
  apply within_ite
  · exact fun _ => drafts_registeredScope c none
  · intro _
    refine (drafts_housekeeping c vetting none).bind fun placed => ?_
    exact within_ite (fun _ => within_pure _) fun _ => drafts_requestSession c

/-! ### The contract -/

/-- A preparation draws on its own scope only. -/
theorem drafts_work (i : Slot) {f : Scope → Scope}
    (h : ∀ s, Drawn s { f s with toHolder := s.toHolder }) :
    Within (Drafts w (some i)) (work (ρ := ρ) i f) := by
  apply within_modify
  intro p
  refine ⟨fun hsteady => ?_, .refl _⟩
  have hedit : Edit ρ w p.gateway (p.gateway.setScope i
      { f (p.gateway.scopes i) with toHolder := (p.gateway.scopes i).toHolder }) :=
    .draw i _ (hsteady.isOpen i rfl) (hsteady.idle i rfl) (h _)
  refine ⟨.single hedit, hedit.tidy hsteady.tidy, fun j hj => ?_, fun j hj => ?_⟩
  · obtain rfl := Option.some.inj hj
    rw [scopes_setScope_self]
    exact hsteady.isOpen i rfl
  · obtain rfl := Option.some.inj hj
    rw [scopes_setScope_self]
    exact hsteady.idle i rfl

theorem drafts_countRequest (i : Slot) : Within (Drafts w (some i)) (countRequest (ρ := ρ) i) := by
  refine (drafts_scopeAt (some i) i).bind fun _ => ?_
  refine (drafts_ensure (some i) _ _).bind fun _ => drafts_work i fun _ => ⟨rfl, id⟩

theorem drawn_bindContract (own : UInt32) (effort : Text) (projection : Json) (s : Scope) :
    Drawn s (bindContract own effort projection s) := by
  unfold bindContract
  dsimp only
  split
  · exact ⟨rfl, id⟩
  · split
    · exact ⟨rfl, fun _ => rfl⟩
    · exact ⟨rfl, id⟩

theorem Drawn.trans {s t u : Scope} (first : Drawn s t) (second : Drawn t u) : Drawn s u :=
  ⟨second.rest.trans first.rest, second.pinned ∘ first.pinned⟩

theorem Drawn.hold {s t : Scope} (h : Drawn s t) : Drawn s { t with toHolder := s.toHolder } := by
  rw [← h.holder]
  exact h

theorem drafts_checkContinuity (i : Slot) (own : UInt32) :
    Within (Drafts w (some i)) (checkContinuity (ρ := ρ) i own) := by
  unfold checkContinuity
  refine (drafts_scopeAt (some i) i).bind fun s => ?_
  refine Within.bind within_get fun p => ?_
  have hpinned : ∀ b c : Bool, b = true → (b || c) = true := by
    intro b c hb
    rw [hb, Bool.true_or]
  dsimp only
  split
  · refine (drafts_ensure (some i) _ _).bind fun _ => drafts_work i fun t => ?_
    exact ⟨rfl, hpinned _ _⟩
  · exact drafts_work i fun t => ⟨rfl, hpinned _ _⟩

theorem drafts_contract (i : Slot) : Within (Drafts w (some i)) (contract (ρ := ρ) i) := by
  unfold contract
  refine Within.bind (drafts_work i fun _ => ⟨rfl, id⟩) fun _ => ?_
  refine Within.bind (drafts_modifyTicket (some i) fun _ => ⟨rfl, rfl, rfl, rfl, rfl⟩) fun _ => ?_
  refine (drafts_countRequest i).bind fun _ => ?_
  refine Within.bind within_get fun p => ?_
  dsimp only
  refine Within.bind (drafts_work i fun s => ?_) fun _ => drafts_checkContinuity i _
  have hseen : Drawn s (if s.implicit then
      { s with seenMessages := (elementsAt p.body "messages").length } else s) := by
    split
    · exact ⟨rfl, id⟩
    · exact ⟨rfl, id⟩
  generalize (if s.implicit then
    { s with seenMessages := (elementsAt p.body "messages").length } else s) = t at hseen
  apply Drawn.hold
  split
  · exact hseen.trans ⟨rfl, fun _ => rfl⟩
  · split
    · exact hseen
    · exact hseen.trans (drawn_bindContract _ _ _ t)

/-! ### Placement -/

theorem drafts_usableContext (i : Slot) (now : Nat) :
    Within (Drafts w scope) (usableContext (ρ := ρ) i now) := by
  unfold usableContext
  refine (drafts_scopeAt scope i).bind fun s => ?_
  refine Within.bind (fun p => ?_) fun snapshot => ?_
  · exact ⟨fun hsteady => hsteady.aside ⟨rfl, rfl, rfl, rfl, rfl, rfl, rfl,
      fun h => Context.numbered_get h _ _⟩, .refl _⟩
  · split
    · exact within_pure _
    · refine (drafts_exactRow scope _ _).bind fun answer => ?_
      exact within_ite (fun _ => within_pure _) fun _ => within_pure _

theorem drafts_placePinned (s : Scope) : Within (Drafts w scope) (placePinned (ρ := ρ) s) := by
  refine (drafts_endpoint scope _).bind fun _ => ?_
  refine (drafts_setModel scope _).bind fun _ => drafts_modifyTicket scope fun _ => ?_
  exact ⟨rfl, rfl, rfl, rfl, rfl⟩

theorem drafts_placeSelected (i : Slot) (spend : Rat) :
    Within (Drafts w scope) (placeSelected (ρ := ρ) c vetting i spend) := by
  unfold placeSelected
  refine (drafts_usableContext scope i c.now).bind fun context => ?_
  refine Within.bind within_get fun p => ?_
  refine (drafts_ensure scope _ _).bind fun _ => ?_
  dsimp only
  split
  · exact within_throw _
  · apply within_ite
    · intro _
      refine Within.bind (drafts_modifyTicket scope ?_) fun _ => ?_
      · exact fun _ => ⟨rfl, rfl, rfl, rfl, rfl⟩
      · exact (drafts_place scope _).bind fun _ => within_pure _
    · exact fun _ => within_pure _

theorem drafts_placeAutomatic (i : Slot) (spend : Rat) :
    Within (Drafts w scope) (placeAutomatic (ρ := ρ) c vetting i spend) := by
  refine (drafts_scopeAt scope i).bind fun s => ?_
  apply within_ite
  · exact fun _ => (drafts_placePinned scope s).bind fun _ => within_pure _
  · exact fun _ => drafts_placeSelected c vetting scope i spend

theorem drafts_placeScoped : Within (Drafts w scope) (placeScoped (ρ := ρ) c vetting scope) := by
  cases scope with
  | none => exact within_pure _
  | some i =>
      refine (drafts_scopeAt (some i) i).bind fun s => ?_
      refine (drafts_contract i).bind fun _ => ?_
      dsimp only
      apply within_ite
      · exact fun _ => (drafts_placeAutomatic c vetting (some i) i _).bind fun _ => within_pure _
      · exact fun _ => (within_pure _).bind fun _ => within_pure _

theorem drafts_leaveCooling :
    Within (Drafts w scope) (leaveCooling (ρ := ρ) c vetting scope) := by
  refine within_get_bind fun p => ?_
  split
  · exact .refl scope p
  · split
    · exact .refl scope p
    · dsimp only
      split
      · exact .refl scope p
      · apply final_bind
        · exact ⟨fun hsteady => ⟨.refl _, hsteady⟩, .refl _⟩
        · intro _
          refine Within.bind (drafts_modifyTicket scope ?_) fun _ => within_pure _
          exact fun _ => ⟨rfl, rfl, rfl, rfl, rfl⟩

theorem drafts_requested : Within (Drafts w scope) (requested (ρ := ρ) scope) := by
  apply within_ite
  · exact fun _ => within_pure _
  · intro _
    refine Within.bind within_get fun p => ?_
    split
    · exact within_throw _
    · exact within_pure _

theorem drafts_restrict : Within (Drafts w scope) (restrict (ρ := ρ) c scope) := by
  refine Within.bind within_get fun p => ?_
  apply within_ite
  · intro _
    apply within_ite
    · exact fun _ => drafts_ensure scope _ _
    · intro _
      refine (drafts_endpoint scope _).bind fun _ => ?_
      refine (drafts_setModel scope _).bind fun _ => drafts_modifyTicket scope fun _ => ?_
      exact ⟨rfl, rfl, rfl, rfl, rfl⟩
  · exact fun _ => within_pure _

theorem drafts_askEffort (step : EffortStep ρ) :
    Within (Drafts w scope) (askEffort (ρ := ρ) scope step) := by
  unfold askEffort
  split
  · next i high k =>
      refine Within.bind within_get fun p => ?_
      apply within_ite
      · intro _
        refine Within.bind (drafts_request (some i) (fun _ => rfl) fun _ => .refl _) fun _ => ?_
        exact drafts_work i fun _ => ⟨rfl, id⟩
      · exact fun _ => within_pure _
  · exact within_pure _

theorem drafts_settle (freeRow : Option Nat) :
    Within (Drafts w scope) (settle (ρ := ρ) c vetting freeRow scope) := by
  unfold settle
  refine (drafts_placeScoped c vetting scope).bind fun placed => ?_
  refine (drafts_leaveCooling c vetting scope).bind fun moved => ?_
  refine (drafts_requested scope).bind fun request => ?_
  refine (drafts_restrict c scope).bind fun _ => ?_
  exact (drafts_askEffort scope placed.1).bind fun _ => within_pure _

theorem drafts_finalGate : Within (Drafts w scope) (finalGate (ρ := ρ) vetting) := by
  refine Within.bind within_get fun p => ?_
  refine Within.bind (drafts_request scope ?_ ?_) fun _ => drafts_ensure scope _ _
  · exact fun _ => rfl
  · exact fun _ => .refl _

end Actions

end Recursant.Gateway
