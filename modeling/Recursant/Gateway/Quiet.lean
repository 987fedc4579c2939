import Recursant.Gateway.Frame

/-!
# Actions that only readdress a request

Most of `prepare` changes neither the roster nor how far the request is; the rest, up to the
reasoning effort, changes the body at its model only.
-/

namespace Recursant.Gateway

open Compliance (Gated)
open Stateful

/-! ## Readdressed bodies -/

/-- The bodies differ at most in the model, and keys stay distinct. -/
structure Readdressed (a b : Json) : Prop where
  get? : ∀ k, k ≠ text "model" → b.get? k = a.get? k
  distinct : a.Distinct → b.Distinct

theorem Readdressed.refl (a : Json) : Readdressed a a := ⟨fun _ _ => rfl, id⟩

theorem Readdressed.trans {a b d : Json} (first : Readdressed a b) (second : Readdressed b d) :
    Readdressed a d :=
  ⟨fun k hk => (second.get? k hk).trans (first.get? k hk), second.distinct ∘ first.distinct⟩

theorem Readdressed.set {a b : Json} {model : Json} (h : a.set? "model" (some model) = some b) :
    Readdressed a b where
  get? k hk := by rw [Json.get?_set? h, if_neg hk]
  distinct hdistinct := hdistinct.set? h

variable {ρ : Router}

instance : Std.Refl (Beside (ρ := ρ)) := ⟨Beside.refl⟩

instance : IsTrans (Prep ρ) Beside := ⟨fun _ _ _ => Beside.trans⟩

structure Quiet (p q : Prep ρ) : Prop where
  roster : q.gateway.roster = p.gateway.roster
  body : Readdressed p.body q.body
  ticket : SameTicket p.ticket q.ticket
  vetted : q.vetted = p.vetted

theorem Quiet.refl (p : Prep ρ) : Quiet p p := ⟨rfl, .refl _, .refl _, rfl⟩

theorem Quiet.trans {p q o : Prep ρ} (first : Quiet p q) (second : Quiet q o) : Quiet p o :=
  ⟨second.roster.trans first.roster, first.body.trans second.body,
    first.ticket.trans second.ticket, second.vetted.trans first.vetted⟩

instance : Std.Refl (Quiet (ρ := ρ)) := ⟨Quiet.refl⟩

instance : IsTrans (Prep ρ) Quiet := ⟨fun _ _ _ => Quiet.trans⟩

theorem quiet_of_beside {α : Type} {m : Prepare ρ α} (h : Within Beside m) : Within Quiet m :=
  h.weaken fun p _ hpq => ⟨hpq.roster, hpq.body ▸ .refl p.body, hpq.ticket, hpq.vetted⟩

/-! ## Actions beside the request -/

section Beside

variable (c : Call) (i : Slot) (scope : Option Slot)

theorem beside_modifyGateway
    {f : GatewayContext ρ.settings.count → GatewayContext ρ.settings.count}
    (h : ∀ g, (f g).roster = g.roster) : Within Beside (modifyGateway (ρ := ρ) f) :=
  within_modify fun p => ⟨h p.gateway, rfl, rfl, .refl _, rfl⟩

theorem beside_work {f : Scope → Scope} (h : ∀ s, (f s).reasoningAdded = s.reasoningAdded) :
    Within Beside (work (ρ := ρ) i f) :=
  beside_modifyGateway fun g => GatewayContext.roster_setScope_same g rfl (h _)

theorem beside_modifyTicket {f : Ticket ρ.settings.count → Ticket ρ.settings.count}
    (h : ∀ t, SameTicket t (f t)) : Within Beside (modifyTicket (ρ := ρ) f) :=
  within_modify fun p => ⟨rfl, rfl, rfl, h p.ticket, rfl⟩

theorem beside_scopeAt : Within Beside (scopeAt (ρ := ρ) i) :=
  within_get.bind fun _ => within_pure _

theorem beside_ensure (p : Bool) (status : Nat) : Within Beside (ensure (ρ := ρ) p status) :=
  within_ite (fun _ => within_pure _) fun _ => within_throw _

theorem beside_exactRow (row : Option Nat) (now : Nat) :
    Within Beside (exactRow (ρ := ρ) row now) := fun p =>
  ⟨GatewayContext.roster_exact p.gateway _ row now, rfl, rfl, .refl _, rfl⟩

theorem beside_rateLimit : Within Beside (rateLimit (ρ := ρ) c) := by
  unfold rateLimit
  apply within_ite
  · intro _
    refine Within.bind (beside_modifyGateway fun g => ?_) fun _ => ?_
    · split <;> rfl
    · refine Within.bind within_get fun _ => ?_
      exact (beside_ensure _ _).bind fun _ => beside_modifyGateway fun _ => rfl
  · exact fun _ => within_pure _

theorem beside_capacityFence : Within Beside (capacityFence (ρ := ρ) c) := fun p =>
  ⟨GatewayContext.roster_rowSlot p.gateway ρ.settings.attemptTtl c.now, rfl, rfl, .refl _, rfl⟩

theorem beside_diagnosticFence : Within Beside (diagnosticFence (ρ := ρ) c) :=
  within_get.bind fun _ => beside_ensure _ _

theorem beside_countRequest : Within Beside (countRequest (ρ := ρ) i) := by
  refine (beside_scopeAt i).bind fun _ => ?_
  exact (beside_ensure _ _).bind fun _ => beside_work i fun _ => rfl

theorem bindContract_effort (own : UInt32) (effort : Text) (projection : Json) (s : Scope) :
    (bindContract own effort projection s).reasoningAdded = s.reasoningAdded := by
  unfold bindContract
  dsimp only
  split
  · rfl
  · split <;> rfl

theorem beside_checkContinuity (own : UInt32) :
    Within Beside (checkContinuity (ρ := ρ) i own) := by
  unfold checkContinuity
  refine (beside_scopeAt i).bind fun s => ?_
  refine Within.bind within_get fun p => ?_
  dsimp only
  split
  · exact (beside_ensure _ _).bind fun _ => beside_work i fun _ => rfl
  · exact beside_work i fun _ => rfl

theorem beside_usableContext (now : Nat) : Within Beside (usableContext (ρ := ρ) i now) := by
  unfold usableContext
  refine (beside_scopeAt i).bind fun s => ?_
  refine Within.bind (fun p => ⟨rfl, rfl, rfl, .refl _, rfl⟩) fun snapshot => ?_
  split
  · exact within_pure _
  · refine (beside_exactRow _ _).bind fun answer => ?_
    exact within_ite (fun _ => within_pure _) fun _ => within_pure _

theorem beside_requested : Within Beside (requested (ρ := ρ) scope) := by
  apply within_ite
  · exact fun _ => within_pure _
  · intro _
    refine Within.bind within_get fun p => ?_
    split
    · exact within_throw _
    · exact within_pure _

theorem beside_checkSpend (spend : Rat) : Within Beside (checkSpend (ρ := ρ) scope spend) := by
  apply within_ite
  · exact fun _ => within_get.bind fun _ => beside_ensure _ _
  · exact fun _ => within_pure _

theorem beside_countDispatch : Within Beside (countDispatch (ρ := ρ)) := by
  apply within_modify
  intro p
  split
  · exact .refl p
  · exact ⟨rfl, rfl, rfl, ⟨rfl, rfl, rfl⟩, rfl⟩

theorem beside_recordRow : Within Beside (recordRow (ρ := ρ) scope) := by
  unfold recordRow
  split
  · exact within_pure _
  · exact within_get.bind fun _ => beside_work _ fun _ => rfl

end Beside

/-! ## Actions that address the request -/

section Quiet

variable (c : Call) (vetting : Json → Endpoint → Gated) (i : Slot) (scope : Option Slot)

theorem quiet_setModel (model : Option Text) : Within Quiet (setModel (ρ := ρ) model) := by
  intro p
  show Quiet p (final (setModel model p))
  unfold setModel
  split
  · exact .refl p
  · next body hset =>
      cases model with
      | none =>
          unfold Json.set? at hset
          split at hset
          · next hsome => cases hsome
          · cases hset
      | some model => exact ⟨rfl, .set hset, .refl _, rfl⟩

theorem quiet_endpoint (endpoint : Endpoint) :
    Within Quiet (modify fun p => { p with endpoint } : Prepare ρ Unit) :=
  within_modify fun _ => ⟨rfl, .refl _, .refl _, rfl⟩

theorem quiet_modifyTicket {f : Ticket ρ.settings.count → Ticket ρ.settings.count}
    (h : ∀ t, SameTicket t (f t)) : Within Quiet (modifyTicket (ρ := ρ) f) :=
  quiet_of_beside (beside_modifyTicket h)

theorem quiet_place (a : Alias) : Within Quiet (place (ρ := ρ) a) :=
  (quiet_endpoint a.endpoint).bind fun _ => quiet_setModel _

theorem quiet_housekeeping : Within Quiet (housekeeping (ρ := ρ) c vetting) := by
  unfold housekeeping
  split
  · exact within_pure _
  · refine Within.bind within_get fun p => ?_
    apply within_ite
    · intro _
      refine (quiet_place _).bind fun _ => ?_
      refine Within.bind (quiet_modifyTicket ?_) fun _ => within_pure _
      exact fun _ => ⟨rfl, rfl, rfl⟩
    · exact fun _ => within_pure _

theorem quiet_placePinned (s : Scope) : Within Quiet (placePinned (ρ := ρ) s) := by
  refine (quiet_endpoint _).bind fun _ => ?_
  exact (quiet_setModel _).bind fun _ => quiet_modifyTicket fun _ => ⟨rfl, rfl, rfl⟩

theorem quiet_placeSelected (spend : Rat) :
    Within Quiet (placeSelected (ρ := ρ) c vetting i spend) := by
  unfold placeSelected
  refine Within.bind (quiet_of_beside (beside_usableContext i c.now)) fun context => ?_
  refine Within.bind within_get fun p => ?_
  refine Within.bind (quiet_of_beside (beside_ensure _ _)) fun _ => ?_
  dsimp only
  split
  · exact within_throw _
  · apply within_ite
    · intro _
      refine Within.bind (quiet_modifyTicket ?_) fun _ => ?_
      · exact fun _ => ⟨rfl, rfl, rfl⟩
      · exact (quiet_place _).bind fun _ => within_pure _
    · exact fun _ => within_pure _

theorem quiet_placeAutomatic (spend : Rat) :
    Within Quiet (placeAutomatic (ρ := ρ) c vetting i spend) := by
  refine Within.bind (quiet_of_beside (beside_scopeAt i)) fun s => ?_
  apply within_ite
  · exact fun _ => (quiet_placePinned s).bind fun _ => within_pure _
  · exact fun _ => quiet_placeSelected c vetting i spend

theorem quiet_leaveCooling : Within Quiet (leaveCooling (ρ := ρ) c vetting scope) := by
  refine within_get_bind fun p => ?_
  split
  · exact .refl p
  · next source _ =>
      split
      · exact .refl p
      · dsimp only
        split
        · exact .refl p
        · next body endpoint hover =>
            obtain ⟨i, -, hset, -⟩ := failOver_eq_some hover
            apply final_bind
            · exact ⟨rfl, .set hset, .refl _, rfl⟩
            · intro _
              refine Within.bind (quiet_modifyTicket ?_) fun _ => within_pure _
              exact fun _ => ⟨rfl, rfl, rfl⟩

theorem quiet_restrict : Within Quiet (restrict (ρ := ρ) c scope) := by
  refine Within.bind within_get fun p => ?_
  apply within_ite
  · intro _
    apply within_ite
    · exact fun _ => quiet_of_beside (beside_ensure _ _)
    · intro _
      refine (quiet_endpoint _).bind fun _ => ?_
      exact (quiet_setModel _).bind fun _ => quiet_modifyTicket fun _ => ⟨rfl, rfl, rfl⟩
  · exact fun _ => within_pure _

end Quiet

end Recursant.Gateway
