import Recursant.Gateway.Quiet

/-!
# What a preparation leaves behind

One specification of `prepare`.  A request that is stopped has changed the roster only by seating a
scope; one that goes through has its scope to itself, goes where the scope's authority lets it, and
its body differs from the client's by what the final checks were shown.
-/

namespace Recursant.Gateway

open Compliance (Gated)
open Stateful

variable {ρ : Router}

/-! ## Named scopes -/

/-- How the headers of a request name the scope it is given. -/
inductive Named (h : GatewayHeaders) (k : Holder) : Prop where
  | session : k.implicit = true → k.ident = (sessionIdent h).getD [] → Named h k
  | registered : k.implicit = false → h.invalid = false → k.generation = h.generation →
      k.branch = h.branch → Named h k

/-- The scope of a request while nothing is in flight on it. -/
structure Seat (h : GatewayHeaders) (r : Roster) (i : Slot) : Prop where
  isOpen : (r.holder i).isOpen = true
  idle : (r.holder i).inflight = false
  named : Named h (r.holder i)

def Seated (h : GatewayHeaders) (scope : Option Slot) (r : Roster) : Prop :=
  ∀ i, scope = some i → Seat h r i

/-- Nothing was added to the scope's request yet. -/
def Rested (h : GatewayHeaders) (scope : Option Slot) (r : Roster) : Prop :=
  Seated h scope r ∧ ∀ i, scope = some i → r.effort i = none

/-! ## Changes of a preparation -/

/-- The change seats a scope, or works on a slot that was idle at the start. -/
def Change.Proper (r : Roster) (c : Change) : Prop :=
  c.Seats ∨ ∃ i, c.Works i ∧ (r.holder i).inflight = false

theorem Change.Seats.not_works {c : Change} (h : c.Seats) (i : Slot) : ¬ c.Works i := by
  cases c with
  | register _ _ _ _ _ => exact id
  | adopt _ _ => exact id
  | vacate _ _ => exact id
  | _ => exact h.elim

theorem Change.Works.unique {d : Change} {i j : Slot} (hi : d.Works i) (hj : d.Works j) : i = j := by
  cases d with
  | takeOn k => exact (show k = i from hi).symm.trans hj
  | release k => exact (show k = i from hi).symm.trans hj
  | effort k _ => exact (show k = i from hi).symm.trans hj
  | _ => exact hi.elim

/-- A proper change works on an idle slot only. -/
theorem Change.Proper.idle {r : Roster} {d : Change} {i : Slot} (h : d.Proper r)
    (hworks : d.Works i) : (r.holder i).inflight = false := by
  cases h with
  | inl hseats => exact absurd hworks (hseats.not_works i)
  | inr hidle =>
      obtain ⟨j, hj, hidle⟩ := hidle
      rw [hworks.unique hj]
      exact hidle

/-- Proper changes, oldest first. -/
def Proceeds (ρ : Router) (r t : Roster) : Prop :=
  ∃ cs, Roster.Path ρ.settings.implicit r cs t ∧ ∀ c ∈ cs, c.Proper r

theorem Proceeds.refl (r : Roster) : Proceeds ρ r r :=
  ⟨[], .nil _, fun _ hc => (List.not_mem_nil hc).elim⟩

theorem Proceeds.snoc {r t : Roster} {c : Change} (h : Proceeds ρ r t)
    (hallowed : Roster.Allowed ρ.settings.implicit t c) (hproper : c.Proper r) :
    Proceeds ρ r (t.apply c) := by
  obtain ⟨cs, path, hcs⟩ := h
  refine ⟨cs ++ [c], path.append (.single hallowed), fun d hd => ?_⟩
  rw [List.mem_append, List.mem_singleton] at hd
  exact hd.elim (hcs d) fun heq => heq ▸ hproper

theorem Proceeds.sound {r t : Roster} (h : Proceeds ρ r t)
    (hsound : Roster.Sound ρ.settings.implicit r) : Roster.Sound ρ.settings.implicit t := by
  obtain ⟨cs, path, -⟩ := h
  exact path.sound hsound

/-- An exchange in flight is not touched. -/
theorem Proceeds.inflight {r t : Roster} (h : Proceeds ρ r t)
    (hsound : Roster.Sound ρ.settings.implicit r) {i : Slot} {serial : Nat}
    (hholds : r.Holds i serial) (hinflight : (r.holder i).inflight = true) :
    t.Holds i serial ∧ (t.holder i).inflight = true ∧
      Roster.SameScope (r.holder i) (t.holder i) ∧ t.effort i = r.effort i := by
  obtain ⟨cs, path, hproper⟩ := h
  refine path.inflight hsound hholds hinflight fun c hc hworks => ?_
  rw [(hproper c hc).idle hworks] at hinflight
  cases hinflight

/-- A slot that is idle was idle before. -/
theorem Proceeds.idle {r t : Roster} (h : Proceeds ρ r t)
    (hsound : Roster.Sound ρ.settings.implicit r) {i : Slot}
    (hidle : (t.holder i).inflight = false) : (r.holder i).inflight = false := by
  cases hinflight : (r.holder i).inflight with
  | false => rfl
  | true =>
      have hopen : (r.holder i).isOpen = true := by
        cases hopen : (r.holder i).isOpen with
        | true => rfl
        | false =>
            rw [hsound.empty i hopen] at hinflight
            cases hinflight
      have hlater := (h.inflight hsound ⟨hopen, rfl⟩ hinflight).2.1
      rw [hidle] at hlater
      cases hlater

/-! ## Stages -/

/-- A request on its way to the final checks, with its ticket's scope and a fact about the
roster. -/
structure Underway (start : Prep ρ) (scope : Option Slot) (fact : Roster → Prop) (q : Prep ρ) :
    Prop where
  path : Proceeds ρ start.gateway.roster q.gateway.roster
  ticket : SameTicket { Ticket.fresh with scope } q.ticket
  body : Readdressed start.body q.body
  vetted : q.vetted = start.vetted
  fact : fact q.gateway.roster

/-- What a request that was stopped leaves behind. -/
structure Halts (start q : Prep ρ) : Prop where
  path : Proceeds ρ start.gateway.roster q.gateway.roster
  begun : q.ticket.begun = false
  finished : q.ticket.finished = false

section Stages

variable {start : Prep ρ} {scope : Option Slot} {fact : Roster → Prop}

theorem Underway.halts {q : Prep ρ} (h : Underway start scope fact q) : Halts start q :=
  ⟨h.path, h.ticket.begun, h.ticket.finished⟩

theorem Underway.quiet {p q : Prep ρ} (h : Underway start scope fact p) (hquiet : Quiet p q) :
    Underway start scope fact q where
  path := hquiet.roster ▸ h.path
  ticket := h.ticket.trans hquiet.ticket
  body := h.body.trans hquiet.body
  vetted := hquiet.vetted.trans h.vetted
  fact := hquiet.roster ▸ h.fact

theorem quiet_triple {α : Type} {m : Prepare ρ α} (hm : Within Quiet m) :
    Triple (Underway start scope fact) m (fun _ => Underway start scope fact) (Halts start) :=
  (hm.triple fun _ _ h hquiet => h.quiet hquiet).weaken (fun _ h => h) (fun _ _ h => h)
    fun _ h => h.halts

theorem beside_triple {α : Type} {m : Prepare ρ α} (hm : Within Beside m) :
    Triple (Underway start scope fact) m (fun _ => Underway start scope fact) (Halts start) :=
  quiet_triple (quiet_of_beside hm)

theorem triple_ensure {p e : Prep ρ → Prop} (b : Bool) (status : Nat) (h : ∀ s, p s → e s) :
    Triple p (ensure (ρ := ρ) b status) (fun _ s => p s ∧ b = true) e := by
  apply triple_ite
  · exact fun hb => triple_pure fun _ hs => ⟨hs, hb⟩
  · exact fun _ => triple_throw h

end Stages

/-! ## The scope -/

section Scope

variable (c : Call) (vetting : Json → Endpoint → Gated) (start : Prep ρ)

theorem enter_triple :
    Triple (· = start) (enter (ρ := ρ) c) (fun _ => Underway start none fun _ => True)
      (Halts start) := by
  unfold enter
  have hstart : Triple (· = start) (startTicket (ρ := ρ) c)
      (fun _ => Underway start none fun _ => True) (Halts start) := by
    apply triple_modify
    intro p hp
    rw [hp]
    exact ⟨.refl _, ⟨rfl, rfl, rfl⟩, .refl _, rfl, trivial⟩
  refine hstart.bind fun _ => ?_
  refine Triple.bind (beside_triple (beside_modifyGateway fun g =>
    GatewayContext.roster_pollLocked g _ _ _)) fun _ => ?_
  refine Triple.bind (beside_triple (beside_rateLimit c)) fun _ => ?_
  refine Triple.bind (beside_triple (beside_capacityFence c)) fun _ => ?_
  exact Triple.bind (beside_triple (beside_diagnosticFence c)) fun _ => triple_pure fun _ h => h

theorem registeredScope_triple :
    Triple (Underway start none fun _ => True) (registeredScope (ρ := ρ) c)
      (fun scope => Underway start none (Seated c.headers scope)) (Halts start) := by
  refine triple_get_bind fun p hp => ?_
  have hhalts : ∀ s, s = p → Halts start s := fun s hs => hs ▸ hp.halts
  dsimp only
  split
  · exact triple_throw hhalts
  · next i hfind =>
      by_cases hinvalid : c.headers.invalid = true
      · rw [if_pos hinvalid] at hfind
        cases hfind
      · rw [if_neg hinvalid] at hfind
        obtain ⟨hopen, himplicit, hgeneration, hbranch⟩ := GatewayContext.scopeFind_eq_some hfind
        refine Triple.bind (triple_ensure _ _ hhalts) fun _ => ?_
        refine Triple.bind (triple_ensure _ _ fun s hs => hhalts s hs.1) fun _ => ?_
        apply triple_pure
        intro s hs
        obtain ⟨⟨rfl, -⟩, hidle⟩ := hs
        refine ⟨hp.path, hp.ticket, hp.body, hp.vetted, fun j hj => ?_⟩
        obtain rfl := Option.some.inj hj
        refine ⟨hopen, ?_, .registered himplicit (Bool.not_eq_true _ ▸ hinvalid) hgeneration hbranch⟩
        show (s.gateway.scopes i).inflight = false
        simpa using hidle

theorem requestSession_triple (hsound : Roster.Sound ρ.settings.implicit start.gateway.roster) :
    Triple (Underway start none fun _ => True) (requestSession (ρ := ρ) c)
      (fun scope => Underway start none (Seated c.headers scope)) (Halts start) := by
  intro p hp
  show Ends _ _ (requestSession c p)
  unfold requestSession
  split
  · next hgo =>
      rw [Bool.and_eq_true] at hgo
      obtain ⟨cs, path, hseats, hsession⟩ := p.gateway.implicitScope_path hgo.1
        (hp.path.sound hsound) p.body c.headers c.now
      obtain ⟨ds, before, hproper⟩ := hp.path
      refine ⟨⟨ds ++ cs, before.append path, fun d hd => ?_⟩, hp.ticket, hp.body, hp.vetted, ?_⟩
      · rw [List.mem_append] at hd
        exact hd.elim (hproper d) fun hd => .inl (hseats d hd)
      · intro i hi
        have hfound := hsession i hi
        exact ⟨hfound.isOpen, hfound.idle, .session hfound.implicit hfound.ident⟩
  · exact ⟨hp.path, hp.ticket, hp.body, hp.vetted, fun i hi => nomatch hi⟩

theorem resolve_triple (hsound : Roster.Sound ρ.settings.implicit start.gateway.roster) :
    Triple (Underway start none fun _ => True) (resolve (ρ := ρ) c vetting)
      (fun scope => Underway start none (Seated c.headers scope)) (Halts start) := by
  apply triple_ite
  · exact fun _ => registeredScope_triple c start
  · intro _
    refine Triple.bind (quiet_triple (quiet_housekeeping c vetting)) fun placed => ?_
    apply triple_ite
    · intro _
      apply triple_pure
      exact fun p hp => ⟨hp.path, hp.ticket, hp.body, hp.vetted, fun i hi => nomatch hi⟩
    · exact fun _ => requestSession_triple c start hsound

/-- The reasoning field of the scope is cleared. -/
theorem clear_triple {i : Slot} (hsound : Roster.Sound ρ.settings.implicit start.gateway.roster) :
    Triple (Underway start none (Seated c.headers (some i)))
      (work (ρ := ρ) i fun s => { s with reasoningAdded := none })
      (fun _ => Underway start none (Rested c.headers (some i))) (Halts start) := by
  apply triple_modify
  intro p hp
  have hroster := GatewayContext.roster_setScope_effort p.gateway (i := i)
    (s := { p.gateway.scopes i with reasoningAdded := none }) rfl
  have hidle := (hp.fact i rfl).idle
  have hproper : (Change.effort i none).Proper start.gateway.roster :=
    .inr ⟨i, rfl, hp.path.idle hsound hidle⟩
  refine ⟨?_, hp.ticket, hp.body, hp.vetted, ?_⟩
  · show Proceeds ρ _ (p.gateway.setScope i _).roster
    rw [hroster]
    exact hp.path.snoc trivial hproper
  · show Rested _ _ (p.gateway.setScope i _).roster
    rw [hroster]
    refine ⟨fun j hj => ?_, fun j hj => ?_⟩
    · exact ⟨(hp.fact j hj).isOpen, (hp.fact j hj).idle, (hp.fact j hj).named⟩
    · obtain rfl := Option.some.inj hj
      exact Function.update_self ..

theorem contract_triple {i : Slot}
    (hsound : Roster.Sound ρ.settings.implicit start.gateway.roster) :
    Triple (Underway start none (Seated c.headers (some i))) (contract (ρ := ρ) i)
      (fun _ => Underway start (some i) (Rested c.headers (some i))) (Halts start) := by
  unfold contract
  refine (clear_triple c start hsound).bind fun _ => ?_
  have hname : Triple (Underway start none (Rested c.headers (some i)))
      (modifyTicket (ρ := ρ) fun t => { t with scope := some i })
      (fun _ => Underway start (some i) (Rested c.headers (some i))) (Halts start) :=
    triple_modify fun p hp => ⟨hp.path, ⟨rfl, hp.ticket.begun, hp.ticket.finished⟩, hp.body,
      hp.vetted, hp.fact⟩
  refine hname.bind fun _ => ?_
  refine Triple.bind (beside_triple (beside_countRequest i)) fun _ => ?_
  refine beside_triple (Within.bind within_get fun p => ?_)
  dsimp only
  refine (beside_work i fun s => ?_).bind fun _ => beside_checkContinuity i _
  simp only [apply_ite Scope.reasoningAdded, bindContract_effort, ite_self]

theorem placeScoped_triple (scope : Option Slot)
    (hsound : Roster.Sound ρ.settings.implicit start.gateway.roster) :
    Triple (Underway start none (Seated c.headers scope)) (placeScoped (ρ := ρ) c vetting scope)
      (fun _ => Underway start scope (Rested c.headers scope)) (Halts start) := by
  cases scope with
  | none =>
      apply triple_pure
      exact fun p hp => ⟨hp.path, hp.ticket, hp.body, hp.vetted, hp.fact, fun i hi => nomatch hi⟩
  | some i =>
      refine Triple.bind (beside_triple (beside_scopeAt i)) fun s => ?_
      refine (contract_triple c start hsound).bind fun _ => ?_
      refine quiet_triple ?_
      apply within_ite
      · exact fun _ => (quiet_placeAutomatic c vetting i _).bind fun _ => within_pure _
      · exact fun _ => (within_pure _).bind fun _ => within_pure _

end Scope

/-! ## The reasoning effort -/

/-- The client's own effort fields are displaced by one of the same kind. -/
def displaced (added : Option Family) (k : Text) : Bool :=
  (added = some .openai || added = some .openrouter) &&
    (k = text "reasoning_effort" || k = text "reasoning")

/-- The body that final M2 is shown, against the client's: with the added field taken back only the
displaced fields are missing. -/
structure Lent (a b : Json) (added : Option Family) : Prop where
  withdrawn : ∀ k, k ≠ text "model" →
    (removeEffort b added).get? k = if displaced added k then none else a.get? k
  distinct : a.Distinct → b.Distinct

theorem Readdressed.lent {a b : Json} (h : Readdressed a b) : Lent a b none :=
  ⟨h.get?, h.distinct⟩

theorem get?_clearEffort (f : Family) (override : Bool) (body : Json) (k : Text) :
    (clearEffort f override body).get? k =
      if override && displaced (some f) k then none else body.get? k := by
  unfold clearEffort displaced
  by_cases hclear : (override && decide (f ≠ .vllmThinking)) = true
  · rw [if_pos hclear, Json.get?_del, Json.get?_del]
    rw [Bool.and_eq_true, decide_eq_true_eq] at hclear
    have hfamily : (decide (some f = some Family.openai) || decide (some f = some .openrouter)) =
        true := by
      cases f with
      | vllmThinking => exact absurd rfl hclear.2
      | openai => rfl
      | openrouter => rfl
    rw [hclear.1, hfamily, Bool.true_and, Bool.true_and]
    by_cases hreasoning : k = text "reasoning"
    · simp [hreasoning]
    · by_cases heffort : k = text "reasoning_effort"
      · simp [heffort]
      · simp [hreasoning, heffort]
  · rw [if_neg hclear, if_neg]
    intro hdisplaced
    rw [Bool.and_eq_true] at hdisplaced
    apply hclear
    rw [hdisplaced.1, Bool.true_and, decide_eq_true_eq]
    intro hfamily
    rw [hfamily] at hdisplaced
    exact absurd hdisplaced.2 (by simp)

/-- A family's control is absent once its clients' fields are displaced. -/
theorem get?_field_of_uncontrolled {f : Family} {body : Json} (h : f.controlled body = false) :
    body.get? f.field = none ∧ ∀ k, displaced (some f) k = true → body.get? k = none := by
  unfold Family.controlled at h
  cases f with
  | vllmThinking =>
      refine ⟨?_, fun k hk => ?_⟩
      · rwa [Option.isSome_eq_false_iff, Option.isNone_iff_eq_none] at h
      · simp [displaced] at hk
  | openai =>
      simp only [Bool.or_eq_false_iff, Option.isSome_eq_false_iff, Option.isNone_iff_eq_none] at h
      refine ⟨h.1, fun k hk => ?_⟩
      simp only [displaced, Bool.and_eq_true, Bool.or_eq_true, decide_eq_true_eq] at hk
      exact hk.2.elim (fun hk => hk ▸ h.1) fun hk => hk ▸ h.2
  | openrouter =>
      simp only [Bool.or_eq_false_iff, Option.isSome_eq_false_iff, Option.isNone_iff_eq_none] at h
      refine ⟨h.2, fun k hk => ?_⟩
      simp only [displaced, Bool.and_eq_true, Bool.or_eq_true, decide_eq_true_eq] at hk
      exact hk.2.elim (fun hk => hk ▸ h.1) fun hk => hk ▸ h.2

theorem distinct_clearEffort {f : Family} {override : Bool} {body : Json} (h : body.Distinct) :
    (clearEffort f override body).Distinct := by
  unfold clearEffort
  split
  · exact (h.del _).del _
  · exact h

/-- A body that is controlled even without its displaced fields was not cleared. -/
theorem clearEffort_of_controlled {f : Family} {override : Bool} {body : Json}
    (h : f.controlled (clearEffort f override body) = true) : clearEffort f override body = body := by
  unfold clearEffort at h ⊢
  by_cases hclear : (override && decide (f ≠ .vllmThinking)) = true
  · rw [if_pos hclear] at h
    rw [Bool.and_eq_true, decide_eq_true_eq] at hclear
    have hnone : ∀ k, k = text "reasoning_effort" ∨ k = text "reasoning" →
        ((body.del "reasoning_effort").del "reasoning").get? k = none := by
      intro k hk
      rw [Json.get?_del, Json.get?_del]
      cases hk with
      | inl hk => simp [hk]
      | inr hk => simp [hk]
    unfold Family.controlled at h
    cases f with
    | vllmThinking => exact absurd rfl hclear.2
    | openai => simp [hnone] at h
    | openrouter => simp [hnone] at h
  · rw [if_neg hclear]

theorem isObject_clearEffort {f : Family} {override : Bool} {body : Json} {v : Json} {key : Text}
    (h : (clearEffort f override body).set? key (some v) = none) : clearEffort f override body = body := by
  unfold clearEffort at h ⊢
  split at h
  · next hclear =>
      rw [if_pos hclear]
      cases body with
      | object members => cases h
      | _ => rfl
  · next hclear => rw [if_neg hclear]

/-- What asking an effort of a readdressed body lends it. -/
theorem lent_addEffort {a b : Json} (hbody : Readdressed a b) (k : Candidate) (high override : Bool) :
    Lent a (addEffort k high override b).2 (addEffort k high override b).1 := by
  unfold addEffort
  split
  · exact hbody.lent
  · next efforts _ =>
      generalize (if high then efforts.high else efforts.low) = t
      dsimp only
      split
      · exact hbody.lent
      · split
        · next hcontrolled =>
            dsimp only
            rw [clearEffort_of_controlled hcontrolled]
            exact hbody.lent
        · next huncontrolled =>
            split
            · next hset =>
                dsimp only
                rw [isObject_clearEffort hset]
                exact hbody.lent
            · next changed hset =>
                have hnone := get?_field_of_uncontrolled (Bool.not_eq_true _ ▸ huncontrolled)
                refine ⟨fun key hkey => ?_, fun hdistinct =>
                  (distinct_clearEffort (hbody.distinct hdistinct)).set? hset⟩
                -- taking the added field back leaves the cleared body
                have hcleared : (changed.del efforts.family.field).get? key =
                    (clearEffort efforts.family override b).get? key := by
                  rw [Json.get?_del]
                  by_cases hfield : key = efforts.family.field
                  · rw [if_pos hfield, hfield, hnone.1]
                  · rw [if_neg hfield, Json.get?_set? hset, if_neg hfield]
                show (changed.del efforts.family.field).get? key = _
                rw [hcleared]
                by_cases hdisplaced : displaced (some efforts.family) key = true
                · rw [if_pos hdisplaced, hnone.2 key hdisplaced]
                · rw [if_neg hdisplaced, get?_clearEffort, if_neg, hbody.get? key hkey]
                  rw [Bool.and_eq_true]
                  exact fun h => hdisplaced h.2

/-! ## Authority -/

section Final

variable (c : Call) (vetting : Json → Endpoint → Gated) (start : Prep ρ) (scope : Option Slot)

/-- A request that must be private is on its way to a private destination. -/
def Bound (h : GatewayHeaders) (q : Prep ρ) (endpoint : Endpoint) : Prop :=
  q.gateway.mustBePrivate ρ.settings.implicit scope h = true → endpoint = .priv

theorem mustBePrivate_of_roster {g k : GatewayContext ρ.settings.count}
    (h : k.roster = g.roster) (headers : GatewayHeaders) :
    k.mustBePrivate ρ.settings.implicit scope headers =
      g.mustBePrivate ρ.settings.implicit scope headers :=
  GatewayContext.mustBePrivate_congr (congrArg Roster.holder h) (congrArg Roster.labels h) _ _ _

theorem mustBePrivate_of_effort {g k : GatewayContext ρ.settings.count} {i : Slot}
    {family : Option Family} (h : k.roster = g.roster.apply (.effort i family))
    (headers : GatewayHeaders) :
    k.mustBePrivate ρ.settings.implicit scope headers =
      g.mustBePrivate ρ.settings.implicit scope headers := by
  have hholder : k.roster.holder = g.roster.holder := by
    rw [h]
    rfl
  have hlabels : k.roster.labels = g.roster.labels := by
    rw [h]
    rfl
  exact GatewayContext.mustBePrivate_congr hholder hlabels _ _ _

/-- A request that is addressed and waits for its reasoning effort. -/
structure Addressed (q : Prep ρ) : Prop where
  underway : Underway start scope (Rested c.headers scope) q
  bound : Bound scope c.headers q q.endpoint

theorem setModel_triple (model : Option Text) :
    Triple (Addressed c start scope) (setModel (ρ := ρ) model) (fun _ => Addressed c start scope)
      (Halts start) := by
  intro p hp
  have hquiet : Quiet p (final (setModel model p)) := quiet_setModel model p
  show Ends _ _ (setModel model p)
  unfold setModel at hquiet ⊢
  split at hquiet
  · exact hp.underway.halts
  · exact ⟨hp.underway.quiet hquiet, hp.bound⟩

theorem restrict_triple :
    Triple (Underway start scope (Rested c.headers scope)) (restrict (ρ := ρ) c scope)
      (fun _ => Addressed c start scope) (Halts start) := by
  refine triple_get_bind fun p hp => ?_
  have hhalts : ∀ s, s = p → Halts start s := fun s hs => hs ▸ hp.halts
  apply triple_ite
  · intro hprivate
    apply triple_ite
    · intro _
      refine (triple_ensure _ _ hhalts).weaken (fun _ h => h) (fun _ s hs => ?_) fun _ h => h
      obtain ⟨rfl, hendpoint⟩ := hs
      exact ⟨hp, fun _ => by simpa using hendpoint⟩
    · intro _
      have hendpoint : Triple (· = p) (modify fun q => { q with endpoint := .priv } : Prepare ρ Unit)
          (fun _ => Addressed c start scope) (Halts start) := by
        apply triple_modify
        intro s hs
        rw [hs]
        exact ⟨⟨hp.path, hp.ticket, hp.body, hp.vetted, hp.fact⟩, fun _ => rfl⟩
      refine hendpoint.bind fun _ => ?_
      refine (setModel_triple c start scope _).bind fun _ => ?_
      apply triple_modify
      intro s hs
      exact ⟨hs.underway.quiet ⟨rfl, .refl _, ⟨rfl, rfl, rfl⟩, rfl⟩, hs.bound⟩
  · intro hpublic
    apply triple_pure
    intro s hs
    rw [hs]
    exact ⟨hp, fun h => absurd h hpublic⟩

/-- A request before final M2. -/
structure Ready (q : Prep ρ) : Prop where
  path : Proceeds ρ start.gateway.roster q.gateway.roster
  ticket : SameTicket { Ticket.fresh with scope } q.ticket
  seat : Seated c.headers scope q.gateway.roster
  lent : Lent start.body q.body (scope.bind q.gateway.roster.effort)
  bound : Bound scope c.headers q q.endpoint

theorem Addressed.ready {q : Prep ρ} (h : Addressed c start scope q) : Ready c start scope q := by
  refine ⟨h.underway.path, h.underway.ticket, h.underway.fact.1, ?_, h.bound⟩
  have hnone : scope.bind q.gateway.roster.effort = none := by
    cases scope with
    | none => rfl
    | some i => exact h.underway.fact.2 i rfl
  rw [hnone]
  exact h.underway.body.lent

theorem askEffort_triple (step : EffortStep ρ)
    (hsound : Roster.Sound ρ.settings.implicit start.gateway.roster) :
    Triple (Addressed c start scope) (askEffort scope step) (fun _ => Ready c start scope)
      (Halts start) := by
  unfold askEffort
  split
  · next i high k =>
      refine triple_get_bind fun p hp => ?_
      apply triple_ite
      · intro _ s hs
        rw [hs]
        let added := (addEffort (ρ.candidate k) high (ρ.settings.reasoning = .steps) p.body).1
        have hroster := GatewayContext.roster_setScope_effort p.gateway (i := i)
          (s := { p.gateway.scopes i with reasoningAdded := added }) rfl
        have hidle := (hp.underway.fact.1 i rfl).idle
        have hproper : (Change.effort i added).Proper start.gateway.roster :=
          .inr ⟨i, rfl, hp.underway.path.idle hsound hidle⟩
        have hadded : (p.gateway.roster.apply (.effort i added)).effort i = added :=
          Function.update_self ..
        have hseated : Seated c.headers (some i) (p.gateway.roster.apply (.effort i added)) := by
          intro j hj
          have hseat := hp.underway.fact.1 j hj
          exact ⟨hseat.isOpen, hseat.idle, hseat.named⟩
        have hlent : Lent start.body (addEffort (ρ.candidate k) high
            (ρ.settings.reasoning = .steps) p.body).2
            ((p.gateway.roster.apply (.effort i added)).effort i) := by
          rw [hadded]
          exact lent_addEffort hp.underway.body _ _ _
        have hauthority := mustBePrivate_of_effort (some i) hroster c.headers
        have hpath := hp.underway.path.snoc (c := .effort i added) trivial hproper
        rw [← hroster] at hpath hseated hlent
        exact ⟨hpath, hp.underway.ticket, hseated, hlent,
          fun hprivate => hp.bound (hauthority.symm.trans hprivate)⟩
      · intro _
        apply triple_pure
        intro s hs
        rw [hs]
        exact hp.ready
  · exact triple_pure fun q hq => hq.ready

theorem settle_triple (freeRow : Option Nat)
    (hsound : Roster.Sound ρ.settings.implicit start.gateway.roster) :
    Triple (Underway start none (Seated c.headers scope)) (settle (ρ := ρ) c vetting freeRow scope)
      (fun placed q => placed.scope = scope ∧ Ready c start scope q) (Halts start) := by
  unfold settle
  refine (placeScoped_triple c vetting start scope hsound).bind fun placed => ?_
  refine Triple.bind (quiet_triple (quiet_leaveCooling c vetting scope)) fun moved => ?_
  refine Triple.bind (beside_triple (beside_requested scope)) fun request => ?_
  refine (restrict_triple c start scope).bind fun _ => ?_
  refine (askEffort_triple c start scope placed.1 hsound).bind fun _ => ?_
  exact triple_pure fun q hq => ⟨rfl, hq⟩

/-! ## After the gate -/

/-- A request that passed final M2.  Its scope is taken once `taken` is set, and its ticket has
begun once `begun` is. -/
structure Cleared (taken begun : Bool) (q : Prep ρ) : Prop where
  path : Proceeds ρ start.gateway.roster q.gateway.roster
  ticket : SameTicket { Ticket.fresh with scope, begun } q.ticket
  isOpen : ∀ i, scope = some i → (q.gateway.roster.holder i).isOpen = true
  inflight : ∀ i, scope = some i → (q.gateway.roster.holder i).inflight = taken
  named : ∀ i, scope = some i → Named c.headers (q.gateway.roster.holder i)
  idle : ∀ i, scope = some i → (start.gateway.roster.holder i).inflight = false
  gated : vetting q.vetted.body q.vetted.endpoint = ⟨true, q.body, q.endpoint⟩
  effort : scope.bind q.gateway.roster.effort = q.vetted.effort
  lent : Lent start.body q.vetted.body q.vetted.effort
  bound : Bound scope c.headers q q.vetted.endpoint

theorem finalGate_triple (hsound : Roster.Sound ρ.settings.implicit start.gateway.roster) :
    Triple (Ready c start scope) (finalGate vetting)
      (fun _ => Cleared c vetting start scope false false) (Halts start) := by
  refine triple_get_bind fun p hp => ?_
  let q : Prep ρ := { p with
    body := (vetting p.body p.endpoint).body
    endpoint := (vetting p.body p.endpoint).endpoint
    vetted := ⟨p.body, p.endpoint,
      p.ticket.scope.bind fun i => (p.gateway.scopes i).reasoningAdded⟩ }
  have hhalts : Halts start q := ⟨hp.path, hp.ticket.begun, hp.ticket.finished⟩
  have hmodify : Triple (· = p) (modify fun p' => { p' with
      body := (vetting p.body p.endpoint).body
      endpoint := (vetting p.body p.endpoint).endpoint
      vetted := ⟨p'.body, p'.endpoint,
        p'.ticket.scope.bind fun i => (p'.gateway.scopes i).reasoningAdded⟩ } : Prepare ρ Unit)
      (fun _ s => s = q) (Halts start) := by
    apply triple_modify
    intro s hs
    rw [hs]
  refine hmodify.bind fun _ => ?_
  refine (triple_ensure _ _ fun s hs => hs ▸ hhalts).weaken (fun _ h => h) (fun _ s hs => ?_)
    fun _ h => h
  obtain ⟨rfl, hadmitted⟩ := hs
  have hscope : scope.bind p.gateway.roster.effort =
      p.ticket.scope.bind fun i => (p.gateway.scopes i).reasoningAdded := by
    rw [hp.ticket.scope]
    rfl
  have hlent := hp.lent
  rw [hscope] at hlent
  refine ⟨hp.path, hp.ticket, fun i hi => (hp.seat i hi).isOpen, fun i hi => (hp.seat i hi).idle,
    fun i hi => (hp.seat i hi).named, fun i hi => hp.path.idle hsound (hp.seat i hi).idle, ?_,
    hscope, hlent, hp.bound⟩
  show vetting p.body p.endpoint = _
  rw [← hadmitted]

theorem Cleared.beside {taken begun : Bool} {p q : Prep ρ}
    (h : Cleared c vetting start scope taken begun p) (hbeside : Beside p q) :
    Cleared c vetting start scope taken begun q := by
  obtain ⟨hroster, hbody, hendpoint, hticket, hvetted⟩ := hbeside
  constructor
  · exact hroster ▸ h.path
  · exact h.ticket.trans hticket
  · exact hroster ▸ h.isOpen
  · exact hroster ▸ h.inflight
  · exact hroster ▸ h.named
  · exact h.idle
  · rw [hvetted, hbody, hendpoint]
    exact h.gated
  · rw [hroster, hvetted]
    exact h.effort
  · rw [hvetted]
    exact h.lent
  · unfold Bound
    rw [mustBePrivate_of_roster scope hroster, hvetted]
    exact h.bound

theorem Cleared.halts {taken : Bool} {q : Prep ρ} (h : Cleared c vetting start scope taken false q) :
    Halts start q := ⟨h.path, h.ticket.begun, h.ticket.finished⟩

theorem cleared_triple {α : Type} {m : Prepare ρ α} {taken : Bool} (hm : Within Beside m) :
    Triple (Cleared c vetting start scope taken false) m
      (fun _ => Cleared c vetting start scope taken false) (Halts start) :=
  (hm.triple fun _ _ h hbeside => h.beside c vetting start scope hbeside).weaken (fun _ h => h)
    (fun _ _ h => h) fun _ h => h.halts

theorem takeOn_triple (i : Slot) :
    Triple (Cleared c vetting start (some i) false false) (takeOn (ρ := ρ) i)
      (fun _ => Cleared c vetting start (some i) true false) (Halts start) := by
  apply triple_modify
  intro p hp
  let k := p.gateway.setScope i { p.gateway.scopes i with inflight := true }
  have hroster : k.roster = p.gateway.roster.apply (.takeOn i) :=
    GatewayContext.roster_setScope_put p.gateway rfl
  have hholder : k.roster.holder i = { p.gateway.roster.holder i with inflight := true } := by
    rw [hroster]
    exact Roster.holder_put_self ..
  have hproper : (Change.takeOn i).Proper start.gateway.roster := .inr ⟨i, rfl, hp.idle i rfl⟩
  have hpath : Proceeds ρ start.gateway.roster k.roster := by
    rw [hroster]
    exact hp.path.snoc (hp.isOpen i rfl) hproper
  refine ⟨hpath, hp.ticket, ?_, ?_, ?_, hp.idle, hp.gated, ?_, hp.lent, ?_⟩
  · intro j hj
    obtain rfl := Option.some.inj hj
    exact (congrArg Holder.isOpen hholder).trans (hp.isOpen i rfl)
  · intro j hj
    obtain rfl := Option.some.inj hj
    exact congrArg Holder.inflight hholder
  · intro j hj
    obtain rfl := Option.some.inj hj
    show Named c.headers (k.roster.holder i)
    rw [hholder]
    cases hp.named i rfl with
    | session himplicit hident => exact .session himplicit hident
    | registered himplicit hinvalid hgeneration hbranch =>
        exact .registered himplicit hinvalid hgeneration hbranch
  · show k.roster.effort i = p.vetted.effort
    rw [hroster]
    exact hp.effort
  · intro hprivate
    apply hp.bound
    exact (congrArg Holder.privateOnly hholder).symm.trans hprivate

theorem commit_triple (healthMoved : Bool) (request : Option (Endpoint × Text)) :
    Triple (Cleared c vetting start scope false false) (commit c scope healthMoved request)
      (fun _ => Cleared c vetting start scope true false) (Halts start) := by
  unfold commit
  split
  · apply triple_pure
    intro p hp
    exact ⟨hp.path, hp.ticket, nofun, nofun, nofun, nofun, hp.gated, hp.effort, hp.lent, hp.bound⟩
  · next i =>
      refine triple_get_bind fun p hp => ?_
      have hhalts : ∀ s, s = p → Halts start s := fun s hs => hs ▸ hp.halts
      split
      · exact triple_throw hhalts
      · next model _ =>
          refine Triple.bind (triple_ensure _ _ hhalts) fun _ => ?_
          refine Triple.bind (q := fun _ => Cleared c vetting start (some i) false false) ?_
            fun _ => takeOn_triple c vetting start i
          refine (cleared_triple c vetting start (some i) (beside_work i fun s => ?_)).weaken
            (fun s hs => hs.1 ▸ hp) (fun _ _ h => h) fun _ h => h
          unfold commitScope
          simp only [apply_ite Scope.reasoningAdded, ite_self]

theorem beginAttempt_triple (freeRow : Option Nat) :
    Triple (Cleared c vetting start scope true false) (beginAttempt (ρ := ρ) c freeRow)
      (fun _ => Cleared c vetting start scope true true) (Halts start) := by
  intro p hp
  show Ends _ _ (beginAttempt c freeRow p)
  unfold beginAttempt
  simp only
  split
  · exact ⟨hp.path, ⟨hp.ticket.scope, rfl, hp.ticket.finished⟩, hp.isOpen, hp.inflight, hp.named,
      hp.idle, hp.gated, hp.effort, hp.lent, hp.bound⟩
  · exact ⟨hp.path, ⟨hp.ticket.scope, rfl, hp.ticket.finished⟩, hp.isOpen, hp.inflight, hp.named,
      hp.idle, hp.gated, hp.effort, hp.lent, hp.bound⟩
  · exact ⟨hp.path, ⟨hp.ticket.scope, rfl, hp.ticket.finished⟩, hp.isOpen, hp.inflight, hp.named,
      hp.idle, hp.gated, hp.effort, hp.lent, hp.bound⟩

theorem conclude_triple (placed : Placed) (hplaced : placed.scope = scope) :
    Triple (Cleared c vetting start scope false false) (conclude (ρ := ρ) c placed)
      (fun _ => Cleared c vetting start scope true true) (Halts start) := by
  unfold conclude
  rw [hplaced]
  refine (cleared_triple c vetting start scope (beside_checkSpend scope _)).bind fun _ => ?_
  refine (commit_triple c vetting start scope _ _).bind fun _ => ?_
  refine (cleared_triple c vetting start scope beside_countDispatch).bind fun _ => ?_
  refine (beginAttempt_triple c vetting start scope _).bind fun _ => ?_
  -- what comes last never stops the request
  intro p hp
  have hbeside : Beside p (final ((recordRow scope).run p)) := beside_recordRow scope p
  cases hrun : (recordRow scope).run p with
  | ok _ q =>
      rw [hrun] at hbeside
      exact hp.beside c vetting start scope hbeside
  | error status q =>
      cases scope with
      | none => cases hrun
      | some i => cases hrun

end Final

/-! ## The whole -/

/-- What a request that went through leaves behind: its scope was idle and is its own now. -/
structure Prepared (c : Call) (vetting : Json → Endpoint → Gated) (start q : Prep ρ) : Prop where
  begun : q.ticket.begun = true
  finished : q.ticket.finished = false
  cleared : Cleared c vetting start q.ticket.scope true true q

theorem prepare_triple (c : Call) (vetting : Json → Endpoint → Gated) (start : Prep ρ)
    (hsound : Roster.Sound ρ.settings.implicit start.gateway.roster) :
    Triple (· = start) (prepare c vetting) (fun _ => Prepared c vetting start) (Halts start) := by
  unfold prepare
  refine (enter_triple c start).bind fun freeRow => ?_
  refine (resolve_triple c vetting start hsound).bind fun scope => ?_
  refine (settle_triple c vetting start scope freeRow hsound).bind fun placed => ?_
  intro p hp
  obtain ⟨hplaced, hready⟩ := hp
  refine (((finalGate_triple c vetting start scope hsound).bind fun _ =>
    conclude_triple c vetting start scope placed hplaced).weaken (fun _ h => h) (fun _ q hq => ?_)
    fun _ h => h) p hready
  have hscope : q.ticket.scope = scope := hq.ticket.scope
  exact ⟨hq.ticket.begun, hq.ticket.finished, hscope ▸ hq⟩

end Recursant.Gateway
