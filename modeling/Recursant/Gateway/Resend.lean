import Recursant.Gateway.Restriction

/-!
# Sending a denied request again

A request of a session is held to the session's contract before it is known to be admitted.  What
the contract leaves behind decides whether the session is found when the same request comes again.
-/

namespace Recursant.Gateway

open Compliance (Gated Runtime Verdict)
open Stateful

variable {ρ : Router}

/-! ## Entering -/

/-- A scope without the interpreter's advice. -/
def Scope.unread (s : Scope) : Scope := { s with interpretation := {} }

/-- Entering keeps the request, the labels and what the scopes are. -/
structure Peeked (p q : Prep ρ) : Prop where
  body : q.body = p.body
  labels : q.gateway.labels = p.gateway.labels
  opened : q.gateway.opened = p.gateway.opened
  scopes : ∀ i, (q.gateway.scopes i).unread = (p.gateway.scopes i).unread

theorem Peeked.refl (p : Prep ρ) : Peeked p p := ⟨rfl, rfl, rfl, fun _ => rfl⟩

theorem Peeked.trans {p q o : Prep ρ} (first : Peeked p q) (second : Peeked q o) : Peeked p o :=
  ⟨second.body.trans first.body, second.labels.trans first.labels,
    second.opened.trans first.opened, fun i => (second.scopes i).trans (first.scopes i)⟩

instance : Std.Refl (Peeked (ρ := ρ)) := ⟨Peeked.refl⟩

instance : IsTrans (Prep ρ) Peeked := ⟨fun _ _ _ => Peeked.trans⟩

theorem Peeked.of_aside {p q : Prep ρ} (hbody : q.body = p.body)
    (h : Aside p.gateway q.gateway) : Peeked p q :=
  ⟨hbody, h.labels, h.opened, fun i => congrArg Scope.unread (congrFun h.scopes i)⟩

theorem peeked_publish (p : Prep ρ) (authorization : Text) (now : Nat) (result : InterpreterResult) :
    Peeked p { p with gateway := p.gateway.publish authorization now result } := by
  unfold GatewayContext.publish
  split
  · exact .refl p
  · next i _ =>
      dsimp only
      split
      · exact .refl p
      · have haside := aside_exact p.gateway authorization (p.gateway.scopes i).evidenceRow now
        split
        · next k hk =>
            rw [hk] at haside
            exact .of_aside rfl haside
        · next k hk =>
            rw [hk] at haside
            have hset : ∀ contexts, Peeked p { p with
                gateway := GatewayContext.setScope { k with contexts } i
                  { p.gateway.scopes i with interpretation := result } } := by
              intro contexts
              refine ⟨rfl, haside.labels, haside.opened, fun j => ?_⟩
              by_cases hji : j = i
              · rw [hji, scopes_setScope_self]
                rfl
              · rw [scopes_setScope_of_ne _ _ hji]
                exact congrArg Scope.unread (congrFun haside.scopes j)
            split
            · exact hset _
            · exact ⟨rfl, haside.labels, haside.opened,
                fun j => congrArg Scope.unread (congrFun haside.scopes j)⟩

theorem peeked_pollLocked (p : Prep ρ) (authorization : Text) (now : Nat)
    (results : List InterpreterResult) :
    Peeked p { p with gateway := p.gateway.pollLocked authorization now results } := by
  unfold GatewayContext.pollLocked
  generalize results.take GatewayContext.interpreterCapacity = taken
  induction taken generalizing p with
  | nil => exact .refl p
  | cons result results ih =>
      exact (peeked_publish p authorization now result).trans
        (ih { p with gateway := p.gateway.publish authorization now result })

theorem peeked_enter (c : Call) : Within Peeked (enter (ρ := ρ) c) := by
  have haside : ∀ {f : GatewayContext ρ.settings.count → GatewayContext ρ.settings.count},
      (∀ g, Aside g (f g)) → Within Peeked (modifyGateway (ρ := ρ) f) :=
    fun h p => .of_aside rfl (h p.gateway)
  have hensure : ∀ b status, Within Peeked (ensure (ρ := ρ) b status) :=
    fun b status => within_ite (fun _ => within_pure _) fun _ => within_throw _
  unfold enter
  refine Within.bind (fun p => .of_aside rfl (.refl _)) fun _ => ?_
  refine Within.bind (fun p => peeked_pollLocked p _ c.now c.polled) fun _ => ?_
  refine Within.bind ?_ fun _ => ?_
  · unfold rateLimit
    apply within_ite
    · intro _
      refine Within.bind (haside fun g => ?_) fun _ => ?_
      · split
        · exact ⟨rfl, rfl, rfl, rfl, rfl, rfl, rfl, id⟩
        · exact .refl g
      · refine Within.bind within_get fun p => ?_
        refine (hensure _ _).bind fun _ => haside fun g => ?_
        exact ⟨rfl, rfl, rfl, rfl, rfl, rfl, rfl, id⟩
    · exact fun _ => within_pure _
  · refine Within.bind ?_ fun freeRow => ?_
    · intro p
      have hrow : ∀ g : GatewayContext ρ.settings.count,
          (g.rowSlot ρ.settings.attemptTtl c.now).2 =
            { g with rows := (g.rowSlot ρ.settings.attemptTtl c.now).2.rows } := by
        intro g
        unfold GatewayContext.rowSlot
        split
        · rfl
        · split <;> rfl
      have hrows := hrow p.gateway
      have hlabels : (p.gateway.rowSlot ρ.settings.attemptTtl c.now).2.labels = p.gateway.labels := by
        rw [hrows]
      have hopened : (p.gateway.rowSlot ρ.settings.attemptTtl c.now).2.opened = p.gateway.opened := by
        rw [hrows]
      have hscopes : (p.gateway.rowSlot ρ.settings.attemptTtl c.now).2.scopes = p.gateway.scopes := by
        rw [hrows]
      exact ⟨rfl, hlabels, hopened, fun i => congrArg Scope.unread (congrFun hscopes i)⟩
    · refine Within.bind ?_ fun _ => within_pure _
      exact within_get.bind fun _ => hensure _ _

/-! ## Finding the session -/

section Resolving

variable {c : Call} {vetting : Json → Endpoint → Gated} {a b : Prep ρ} {i : Slot}

/-- The request is placed as housekeeping. -/
def marked (c : Call) (vetting : Json → Endpoint → Gated) (p : Prep ρ) : Bool :=
  ρ.settings.housekeeping.any fun k =>
    c.automatic && ρ.settings.active && housekeepingMarker k p.body &&
      !p.gateway.labelled c.headers && permits vetting p.body (ρ.candidate k.candidate).destination

theorem housekeeping_unmarked :
    (housekeeping c vetting).run a = .ok false b ↔ marked c vetting a = false ∧ b = a := by
  unfold housekeeping marked
  cases ρ.settings.housekeeping with
  | none =>
      constructor
      · intro h
        cases h
        exact ⟨rfl, rfl⟩
      · intro h
        rw [h.2]
        rfl
  | some k =>
      rw [Option.any_some]
      dsimp only
      rw [run_bind_ok (run_get a)]
      by_cases hmarked : (c.automatic && ρ.settings.active && housekeepingMarker k a.body &&
          !a.gateway.labelled c.headers &&
          permits vetting a.body (ρ.candidate k.candidate).destination) = true
      · rw [if_pos hmarked]
        constructor
        · intro h
          obtain ⟨_, p₁, -, h₁⟩ := bind_eq_ok.mp h
          obtain ⟨_, p₂, -, h₂⟩ := bind_eq_ok.mp h₁
          cases h₂
        · intro h
          exact absurd (hmarked.symm.trans h.1) (by decide)
      · rw [if_neg hmarked]
        constructor
        · intro h
          cases h
          exact ⟨(Bool.not_eq_true _).mp hmarked, rfl⟩
        · intro h
          rw [h.2]
          rfl

/-- The request continues the session of the slot. -/
structure Rejoins (c : Call) (vetting : Json → Endpoint → Gated) (a : Prep ρ) (i : Slot) : Prop where
  plain : (!unregistered c || c.headers.invalid) = false
  unmarked : marked c vetting a = false
  sessions : (ρ.settings.implicit && c.automatic) = true
  continued : ∃ o, opening ρ.jansson (elementsAt a.body "messages") = some o ∧ o.start = false ∧
    a.gateway.continuation o.anchor ((sessionIdent c.headers).getD [])
      (elementsAt a.body "messages") = some i
  idle : (a.gateway.scopes i).inflight = false

theorem Rejoins.resolves (h : Rejoins c vetting a i) :
    (resolve c vetting).run a = .ok (some i) a := by
  obtain ⟨o, hopening, hstart, hfound⟩ := h.continued
  have hhousekeeping := housekeeping_unmarked.mpr ⟨h.unmarked, rfl⟩
  unfold resolve
  rw [if_neg (ne_true_of_eq_false h.plain), run_bind_ok hhousekeeping, if_neg Bool.false_ne_true]
  show requestSession c a = .ok (some i) a
  unfold requestSession GatewayContext.implicitScope
  rw [if_pos h.sessions]
  dsimp only
  rw [hopening]
  dsimp only
  rw [hstart, if_neg Bool.false_ne_true, hfound]
  dsimp only
  rw [h.idle, if_neg Bool.false_ne_true]

theorem opened_sessionSlot (g : GatewayContext ρ.settings.count) (now : Nat) :
    (g.sessionSlot now).2.opened = g.opened := by
  unfold GatewayContext.sessionSlot
  dsimp only
  generalize (slots.find? _).filter _ = unused
  unfold GatewayContext.vacantSlot
  split
  · rfl
  · split <;> rfl

/-- A session that is not continued is numbered anew. -/
theorem implicitScope_serial {g : GatewayContext ρ.settings.count} {body : Json}
    {h : GatewayHeaders} {now : Nat} (hfound : (g.implicitScope body h now).1 = some i) :
    (∃ o, opening ρ.jansson (elementsAt body "messages") = some o ∧ o.start = false ∧
      g.continuation o.anchor ((sessionIdent h).getD []) (elementsAt body "messages") = some i ∧
      (g.scopes i).inflight = false ∧ (g.implicitScope body h now).2 = g) ∨
    g.opened < ((g.implicitScope body h now).2.scopes i).serial := by
  unfold GatewayContext.implicitScope at hfound ⊢
  dsimp only at hfound ⊢
  cases hopening : opening ρ.jansson (elementsAt body "messages") with
  | none =>
      rw [hopening] at hfound
      cases hfound
  | some o =>
      rw [hopening] at hfound
      dsimp only at hfound ⊢
      cases hcontinued : (if o.start = true then none else g.continuation o.anchor
          ((sessionIdent h).getD []) (elementsAt body "messages")) with
      | some found =>
          rw [hcontinued] at hfound
          dsimp only at hfound ⊢
          have hstart : o.start = false := by
            cases hstart : o.start with
            | false => rfl
            | true =>
                rw [hstart, if_pos rfl] at hcontinued
                cases hcontinued
          rw [hstart, if_neg Bool.false_ne_true] at hcontinued
          by_cases hidle : (g.scopes found).inflight = true
          · rw [if_pos hidle] at hfound
            cases hfound
          · rw [if_neg hidle] at hfound
            obtain rfl := Option.some.inj hfound
            exact .inl ⟨o, rfl, hstart, hcontinued, (Bool.not_eq_true _).mp hidle, rfl⟩
      | none =>
          rw [hcontinued] at hfound
          dsimp only at hfound ⊢
          have hopened := opened_sessionSlot g now
          cases hslot : g.sessionSlot now with
          | mk slot k =>
              rw [hslot] at hfound hopened
              dsimp only at hfound hopened ⊢
              cases slot with
              | none => cases hfound
              | some j =>
                  obtain rfl := Option.some.inj hfound
                  right
                  have hadopted : ((k.adopt j ⟨o.anchor, (sessionIdent h).getD [], now⟩).scopes
                      j).serial = k.opened + 1 := by
                    have hscope : (k.adopt j ⟨o.anchor, (sessionIdent h).getD [], now⟩).scopes j =
                        _ := Function.update_self ..
                    rw [hscope]
                  have hlineage := congrArg (fun r : Roster => (r.holder j).serial)
                    (GatewayContext.roster_lineage (k.adopt j
                      ⟨o.anchor, (sessionIdent h).getD [], now⟩) j
                      ⟨o.anchor, (sessionIdent h).getD [], now⟩ o.first)
                  have hserial : ((if o.start = true then (k.adopt j
                      ⟨o.anchor, (sessionIdent h).getD [], now⟩).lineage j
                        ⟨o.anchor, (sessionIdent h).getD [], now⟩ o.first
                      else k.adopt j ⟨o.anchor, (sessionIdent h).getD [], now⟩).scopes j).serial =
                      k.opened + 1 := by
                    split
                    · exact hlineage.trans hadopted
                    · exact hadopted
                  rw [hserial]
                  omega

/-- Only a continued session is an older one. -/
theorem resolve_rejoins (h : (resolve c vetting).run a = .ok (some i) b)
    (himplicit : (a.gateway.scopes i).implicit = true)
    (hsame : (b.gateway.scopes i).serial ≤ a.gateway.opened) : Rejoins c vetting a i ∧ b = a := by
  unfold resolve at h
  by_cases hplain : (!unregistered c || c.headers.invalid) = true
  · rw [if_pos hplain] at h
    exfalso
    obtain ⟨_, p₁, hget, h₁⟩ := bind_eq_ok.mp h
    cases hget
    dsimp only at h₁
    split at h₁
    · cases h₁
    · next j hj =>
        obtain ⟨_, p₂, hfirst, h₂⟩ := bind_eq_ok.mp h₁
        obtain ⟨_, p₃, hsecond, h₃⟩ := bind_eq_ok.mp h₂
        cases h₃
        split at hj
        · cases hj
        · have hregistered := (GatewayContext.scopeFind_eq_some hj).2.1
          exact absurd (himplicit.symm.trans hregistered) (by decide)
  · rw [if_neg hplain] at h
    obtain ⟨placed, p₁, hhousekeeping, h₁⟩ := bind_eq_ok.mp h
    cases placed with
    | true => cases h₁
    | false =>
        obtain ⟨hunmarked, rfl⟩ := housekeeping_unmarked.mp hhousekeeping
        have hrun : requestSession c p₁ = .ok (some i) b := h₁
        unfold requestSession at hrun
        by_cases hsessions : (ρ.settings.implicit && c.automatic) = true
        · rw [if_pos hsessions] at hrun
          obtain ⟨hfound, hb⟩ := EStateM.Result.ok.inj hrun
          have hb : { p₁ with gateway := (p₁.gateway.implicitScope p₁.body c.headers c.now).2 } =
            b := hb
          cases implicitScope_serial hfound with
          | inl hcontinued =>
              obtain ⟨o, hopening, hstart, hcontinued, hidle, hkept⟩ := hcontinued
              rw [hkept] at hb
              exact ⟨⟨(Bool.not_eq_true _).mp hplain, hunmarked, hsessions,
                ⟨o, hopening, hstart, hcontinued⟩, hidle⟩, hb.symm⟩
          | inr hlater =>
              rw [← hb] at hsame
              exact absurd hsame (Nat.not_le.mpr hlater)
        · rw [if_neg hsessions] at hrun
          cases hrun

end Resolving

/-! ## What a denial leaves -/

section Denials

variable {c : Call} {vetting : Json → Endpoint → Gated} {a : Prep ρ} {i : Slot}

/-- A scope without the reasoning field of its step. -/
def Scope.unasked (s : Scope) : Scope := { s with reasoningAdded := none }

def Prep.unasked (p : Prep ρ) : List Text × Nat × (Slot → Scope) :=
  (p.gateway.labels, p.gateway.opened, fun i => (p.gateway.scopes i).unasked)

theorem unasked_of_table {α : Type} {m : Prepare ρ α} (h : Within (Same Prep.table) m) :
    Within (Same Prep.unasked) m := fun p =>
  congrArg (fun table : List Text × Nat × (Slot → Scope) =>
    (table.1, table.2.1, fun i => (table.2.2 i).unasked)) (h p)

theorem table_ensure (b : Bool) (status : Nat) :
    Within (Same Prep.table) (ensure (ρ := ρ) b status) :=
  within_ite (fun _ => within_pure _) fun _ => within_throw _

theorem table_placeAutomatic (i : Slot) (spend : Rat) :
    Within (Same Prep.table) (placeAutomatic (ρ := ρ) c vetting i spend) := by
  refine Within.bind (fun p => rfl) fun s => ?_
  apply within_ite
  · intro _
    refine Within.bind ?_ fun _ => within_pure _
    exact Within.bind (fun p => rfl) fun _ => (table_setModel _).bind fun _ => fun p => rfl
  · exact fun _ => table_placeSelected i spend

theorem table_leaveCooling (scope : Option Slot) :
    Within (Same Prep.table) (leaveCooling (ρ := ρ) c vetting scope) := by
  refine within_get_bind fun p => ?_
  split
  · rfl
  · split
    · rfl
    · dsimp only
      split <;> rfl

theorem table_requested (scope : Option Slot) :
    Within (Same Prep.table) (requested (ρ := ρ) scope) := by
  apply within_ite
  · exact fun _ => within_pure _
  · intro _
    refine Within.bind within_get fun p => ?_
    split
    · exact within_throw _
    · exact within_pure _

theorem table_restrict (scope : Option Slot) :
    Within (Same Prep.table) (restrict (ρ := ρ) c scope) := by
  refine Within.bind within_get fun p => ?_
  apply within_ite
  · intro _
    apply within_ite
    · exact fun _ => table_ensure _ _
    · intro _
      exact Within.bind (fun p => rfl) fun _ => (table_setModel _).bind fun _ => fun p => rfl
  · exact fun _ => within_pure _

theorem table_finalGate : Within (Same Prep.table) (finalGate (ρ := ρ) vetting) := by
  refine Within.bind within_get fun p => ?_
  exact Within.bind (fun p => rfl) fun _ => table_ensure _ _

theorem unasked_askEffort (scope : Option Slot) (step : EffortStep ρ) :
    Within (Same Prep.unasked) (askEffort (ρ := ρ) scope step) := by
  intro p
  obtain ⟨q, hrun, -⟩ := askEffort_goes scope step p
  rw [hrun]
  show q.unasked = p.unasked
  cases scope with
  | none =>
      cases hrun
      rfl
  | some i =>
      cases askEffort_eq_ok hrun with
      | plain => rfl
      | added high k _ _ =>
          refine Prod.ext rfl (Prod.ext rfl (funext fun j => ?_))
          show ((p.gateway.setScope i _).scopes j).unasked = (p.gateway.scopes j).unasked
          by_cases hji : j = i
          · rw [hji, scopes_setScope_self]
            rfl
          · rw [scopes_setScope_of_ne _ _ hji]

/-- The scope as a denial leaves it: the contract holds the request once it is counted. -/
def Scope.denied (ρ : Router) (body : Json) (s : Scope) : Scope :=
  if withinRequests ρ s = true then s.contracted ρ body else s

/-- A session breaks nothing off: it was found by its replay. -/
theorem breaksOff_implicit {s : Scope} (h : s.implicit = true) (messages : List Json) :
    breaksOff ρ s messages = false := by
  unfold breaksOff
  rw [h]
  cases (if s.pinned then none else s.boundary) <;> rfl

theorem unasked_contract (himplicit : (a.gateway.scopes i).implicit = true) :
    (final ((contract i).run a)).unasked =
      (a.inScope i ((a.gateway.scopes i).denied ρ a.body)).unasked := by
  have hbound : ((a.gateway.scopes i).counting.bound ρ a.body).implicit = true := by
    have hdrawn := drawn_bound (ρ := ρ) a.body (a.gateway.scopes i).counting
    rw [hdrawn.holder]
    exact himplicit
  rw [run_contract]
  unfold Scope.denied
  by_cases hwithin : withinRequests ρ (a.gateway.scopes i) = true
  · rw [if_pos hwithin, if_pos hwithin, breaksOff_implicit hbound, if_neg Bool.false_ne_true]
    rfl
  · rw [if_neg hwithin, if_neg hwithin]
    refine Prod.ext rfl (Prod.ext rfl (funext fun j => ?_))
    show ((a.gateway.setScope i _).scopes j).unasked = ((a.gateway.setScope i _).scopes j).unasked
    rw [scopes_setScope, scopes_setScope]
    split <;> rfl

theorem unasked_placeScoped (himplicit : (a.gateway.scopes i).implicit = true) :
    (final ((placeScoped c vetting (some i)).run a)).unasked =
      (a.inScope i ((a.gateway.scopes i).denied ρ a.body)).unasked := by
  have hscope : (scopeAt i).run a = .ok (a.gateway.scopes i) a := rfl
  unfold placeScoped
  dsimp only
  rw [run_bind_ok hscope]
  refine Eq.trans (final_bind_same (fun _ => ?_) a) (unasked_contract himplicit)
  split
  · exact (unasked_of_table (table_placeAutomatic i _)).bind fun _ => within_pure _
  · exact (within_pure _).bind fun _ => within_pure _

theorem unasked_settle (himplicit : (a.gateway.scopes i).implicit = true) (freeRow : Option Nat) :
    (final ((settle c vetting freeRow (some i)).run a)).unasked =
      (a.inScope i ((a.gateway.scopes i).denied ρ a.body)).unasked := by
  unfold settle
  refine Eq.trans (final_bind_same (fun found => ?_) a) (unasked_placeScoped himplicit)
  refine (unasked_of_table (table_leaveCooling (some i))).bind fun healthMoved => ?_
  refine (unasked_of_table (table_requested (some i))).bind fun request => ?_
  refine (unasked_of_table (table_restrict (some i))).bind fun _ => ?_
  exact (unasked_askEffort (some i) _).bind fun _ => within_pure _

/-- A denied request of a session leaves the other scopes alone, and its own under the contract. -/
theorem unasked_denied {p q : Prep ρ} {freeRow : Option Nat} {status : Nat}
    (henter : (enter c).run p = .ok freeRow a) (hresolve : (resolve c vetting).run a = .ok (some i) a)
    (himplicit : (a.gateway.scopes i).implicit = true)
    (hdenied : (prepare c vetting).run p = .error status q) :
    q.unasked = (a.inScope i ((a.gateway.scopes i).denied ρ a.body)).unasked := by
  have hsettled : (final ((settle c vetting freeRow (some i)).run a)).unasked = _ :=
    unasked_settle himplicit freeRow
  unfold prepare at hdenied
  rw [run_bind_ok henter, run_bind_ok hresolve] at hdenied
  cases bind_eq_error.mp hdenied with
  | inl hsettle =>
      rw [hsettle] at hsettled
      exact hsettled
  | inr hrest =>
      obtain ⟨placed, d, hsettle, hrest⟩ := hrest
      rw [hsettle] at hsettled
      have hgating : Within (Same Prep.unasked) (finalGate (ρ := ρ) vetting) :=
        unasked_of_table table_finalGate
      have hgated := hgating d
      cases bind_eq_error.mp hrest with
      | inl hgate =>
          rw [hgate] at hgated
          exact Eq.trans hgated hsettled
      | inr hconclude =>
          obtain ⟨_, o, hgate, hconclude⟩ := hconclude
          rw [hgate] at hgated
          rw [(conclude_eq_error hconclude).1]
          exact Eq.trans hgated hsettled

end Denials

/-! ## The same request again -/

/-- The two scopes are found by the same conversations. -/
structure Alike (ρ : Router) (messages : List Json) (s t : Scope) : Prop where
  holder : t.toHolder = s.toHolder
  anchor : t.anchor = s.anchor
  pinned : t.pinned = s.pinned
  active : t.active = s.active
  continues : continues ρ t messages = continues ρ s messages

theorem Alike.trans {messages : List Json} {s t u : Scope} (first : Alike ρ messages s t)
    (second : Alike ρ messages t u) : Alike ρ messages s u :=
  ⟨second.holder.trans first.holder, second.anchor.trans first.anchor,
    second.pinned.trans first.pinned, second.active.trans first.active,
    second.continues.trans first.continues⟩

theorem alike_of_unasked {messages : List Json} {s t : Scope}
    (h : t.unasked.unread = s.unasked.unread) : Alike ρ messages s t := by
  have hview : ∀ {α : Type} (view : Scope → α), (∀ u, view u.unasked.unread = view u) →
      view t = view s := by
    intro α view hview
    rw [← hview t, ← hview s, h]
  exact ⟨hview Scope.toHolder fun _ => rfl, hview Scope.anchor fun _ => rfl,
    hview Scope.pinned fun _ => rfl, hview Scope.active fun _ => rfl,
    hview (fun u => continues ρ u messages) fun _ => rfl⟩

/-- A contract that leaves the session unpinned leaves it as it was found. -/
theorem alike_of_drawn {messages : List Json} {s t : Scope} (h : Drawn s t)
    (ht : t.pinned = false) : Alike ρ messages s t := by
  have hs : s.pinned = false := by
    cases hs : s.pinned with
    | false => rfl
    | true => exact (h.pinned hs).symm.trans ht
  have hboundary : t.boundary = s.boundary := h.kept.get (fun u => u.boundary) fun _ => rfl
  have hhistory : t.history = s.history := h.kept.get (fun u => u.history) fun _ => rfl
  have hanchor : t.anchor = s.anchor := h.kept.get (fun u => u.anchor) fun _ => rfl
  have hactive := congrArg Scope.active h.rest
  refine ⟨h.holder, hanchor, ht.trans hs.symm, hactive, ?_⟩
  unfold continues
  rw [hs, ht, hboundary, hhistory]
  rfl

theorem continuation_congr {g k : GatewayContext ρ.settings.count} {messages : List Json}
    (h : ∀ i, Alike ρ messages (g.scopes i) (k.scopes i)) (anchor : UInt64) (ident : Text) :
    k.continuation anchor ident messages = g.continuation anchor ident messages := by
  have hholder : ∀ i, (k.scopes i).toHolder = (g.scopes i).toHolder := fun i => (h i).holder
  unfold GatewayContext.continuation
  simp only [hholder, (h _).anchor, (h _).pinned, (h _).active, (h _).continues]

theorem seen_contracted {body : Json} {s : Scope} (h : s.implicit = true) :
    (s.contracted ρ body).seenMessages = (elementsAt body "messages").length := by
  have hbound : (s.counting.bound ρ body).seenMessages = (elementsAt body "messages").length := by
    have hcounting : s.counting.implicit = true := h
    unfold Scope.bound
    rw [hcounting, if_pos rfl]
    dsimp only
    split
    · rfl
    · split
      · rfl
      · unfold bindContract
        dsimp only
        split
        · rfl
        · split <;> rfl
  unfold Scope.contracted Scope.continued
  split <;> exact hbound

/-- A session that its contract pinned has seen the request already. -/
theorem continues_contracted {body : Json} {s : Scope} (himplicit : s.implicit = true)
    (hpinned : (s.contracted ρ body).pinned = true) :
    continues ρ (s.contracted ρ body) (elementsAt body "messages") = false := by
  unfold continues
  rw [hpinned, if_pos rfl, seen_contracted himplicit]
  exact decide_eq_false (Nat.lt_irrefl _)

/-- The contract does not read the interpreter's advice. -/
theorem contracted_unread (body : Json) (s : Scope) :
    (s.unread.contracted ρ body).pinned = (s.contracted ρ body).pinned := by
  have hbound : s.unread.counting.bound ρ body = (s.counting.bound ρ body).unread := by
    have hseen : ∀ b : Bool, (if b = true then { s.unread.counting with
          seenMessages := (elementsAt body "messages").length } else s.unread.counting) =
        (if b = true then { s.counting with
          seenMessages := (elementsAt body "messages").length } else s.counting).unread := by
      intro b
      cases b <;> rfl
    have himplicit : s.unread.counting.implicit = s.counting.implicit := rfl
    unfold Scope.bound
    rw [himplicit, hseen]
    generalize (if s.counting.implicit = true then { s.counting with
      seenMessages := (elementsAt body "messages").length } else s.counting) = t
    dsimp only
    split
    · rfl
    · have hpinned : t.unread.pinned = t.pinned := rfl
      rw [hpinned]
      split
      · rfl
      · have hcontract : t.unread.contract = t.contract := rfl
        unfold bindContract
        rw [hcontract]
        dsimp only
        split
        · rfl
        · have hprofile : t.unread.profile = t.profile := rfl
          have heffort : t.unread.effort = t.effort := rfl
          rw [hprofile, heffort]
          split <;> rfl
  unfold Scope.contracted
  rw [hbound]
  generalize s.counting.bound ρ body = t
  unfold Scope.continued
  have hsame : (if t.unread.pinned then none else t.unread.boundary) =
      if t.pinned then none else t.boundary := rfl
  rw [hsame]
  split <;> rfl

/-- The request continues an open session, the one with the number, and is let in. -/
def Matched (c : Call) (vetting : Json → Endpoint → Gated) (p : Prep ρ) (i : Slot) (serial : Nat) :
    Prop :=
  ∃ freeRow a b, (enter c).run p = .ok freeRow a ∧ (resolve c vetting).run a = .ok (some i) b ∧
    (a.gateway.scopes i).isOpen = true ∧ (a.gateway.scopes i).implicit = true ∧
    (a.gateway.scopes i).serial = serial ∧ (b.gateway.scopes i).serial = serial

section Again

variable {s : State ρ} {e : Exchange ρ.settings.count} {id now later : Nat}
  {verdict : Json → Option Text → Verdict} {polled : List InterpreterResult} {judged : Judgement}

/-- The state in which a denied request arrives again. -/
def resent (s : State ρ) (e : Exchange ρ.settings.count) (id now : Nat)
    (verdict : Json → Option Text → Verdict) (polled : List InterpreterResult) (later : Nat)
    (judged : Judgement) : State ρ :=
  (step (step s (.prepare id now verdict polled)).2 (.arrive e.request later judged)).2

/-- What the denial and the second arrival leave for the second preparation. -/
structure Resent (s : State ρ) (e : Exchange ρ.settings.count) (q : Prep ρ) (t : State ρ) :
    Prop where
  runtime : t.runtime = s.runtime
  gateway : Aside q.gateway t.gateway
  request : ∀ o, t.exchanges[s.exchanges.length]? = some o →
    o.request = e.request ∧ o.body = e.request.body

theorem resent_spec (he : s.exchanges[id]? = some e) (hfresh : e.prepared = false) {status : Nat}
    {q : Prep ρ} (hdenied : (prepare (e.call now verdict polled) (vet s.runtime verdict)).run
      (e.prep s.gateway) = .error status q) :
    Resent s e q (resent s e id now verdict polled later judged) := by
  have hfirst : (step s (.prepare id now verdict polled)).2 =
      s.setExchange id { e.after q with prepared := true } q.gateway := by
    rw [step_prepare he hfresh]
    unfold prepareStep
    rw [show (e.call now verdict polled).verdict = verdict from rfl, hdenied]
  unfold resent
  rw [hfirst]
  refine ⟨rfl, aside_recordJudgement _ _ _, fun o ho => ?_⟩
  have hlast : ((s.exchanges.set id { e.after q with prepared := true }) ++
      [⟨e.request, _, e.request.body, e.request.endpoint, .fresh, ⟨.null, .priv, none⟩, 0, false,
        false, 0, false⟩])[s.exchanges.length]? = some o := ho
  rw [List.getElem?_append_right (by rw [List.length_set]), List.length_set, Nat.sub_self] at hlast
  cases hlast
  exact ⟨rfl, rfl⟩

/-- What a matched request shows of the state that it came in. -/
structure Joined (c : Call) (vetting : Json → Endpoint → Gated) (p a : Prep ρ) (i : Slot) : Prop where
  peeked : Peeked p a
  isOpen : (a.gateway.scopes i).isOpen = true
  implicit : (a.gateway.scopes i).implicit = true
  rejoins : Rejoins c vetting a i
  serial : (a.gateway.scopes i).serial = (p.gateway.scopes i).serial

/-- `Matched` as a test of the two runs. -/
def rejoining (c : Call) (vetting : Json → Endpoint → Gated) (p : Prep ρ) (i : Slot) (serial : Nat) :
    Bool :=
  passes (fun _ a => (a.gateway.scopes i).isOpen && (a.gateway.scopes i).implicit &&
    decide ((a.gateway.scopes i).serial = serial) &&
    passes (fun j b => decide (j = some i) && decide ((b.gateway.scopes i).serial = serial))
      ((resolve c vetting).run a)) ((enter c).run p)

theorem matched_iff {c : Call} {vetting : Json → Endpoint → Gated} {p : Prep ρ} {i : Slot}
    {serial : Nat} : Matched c vetting p i serial ↔ rejoining c vetting p i serial = true := by
  constructor
  · intro h
    obtain ⟨freeRow, a, b, henter, hresolve, hopen, himplicit, hserial, hlater⟩ := h
    unfold rejoining
    rw [henter]
    show (_ && _ && _ && passes _ ((resolve c vetting).run a)) = true
    rw [hresolve, hopen, himplicit, decide_eq_true hserial]
    show (decide (some i = some i) && decide ((b.gateway.scopes i).serial = serial)) = true
    rw [decide_eq_true rfl, decide_eq_true hlater, Bool.and_self]
  · intro h
    obtain ⟨freeRow, a, henter, hchecks⟩ := ok_of_passes h
    simp only [Bool.and_eq_true, decide_eq_true_eq] at hchecks
    obtain ⟨⟨⟨hopen, himplicit⟩, hserial⟩, hresolves⟩ := hchecks
    obtain ⟨j, b, hresolve, hlater⟩ := ok_of_passes hresolves
    rw [Bool.and_eq_true, decide_eq_true_eq, decide_eq_true_eq] at hlater
    rw [hlater.1] at hresolve
    exact ⟨freeRow, a, b, henter, hresolve, hopen, himplicit, hserial, hlater.2⟩

instance {c : Call} {vetting : Json → Endpoint → Gated} {p : Prep ρ} {i : Slot} {serial : Nat} :
    Decidable (Matched c vetting p i serial) := decidable_of_iff' _ matched_iff

theorem enter_peeked {c : Call} {p a : Prep ρ} {freeRow : Option Nat}
    (h : (enter c).run p = .ok freeRow a) : Peeked p a := by
  have hpeeked := peeked_enter c p
  rw [h] at hpeeked
  exact hpeeked

theorem Peeked.holder {p q : Prep ρ} (h : Peeked p q) (i : Slot) :
    (q.gateway.scopes i).toHolder = (p.gateway.scopes i).toHolder := by
  have hunread := congrArg Scope.toHolder (h.scopes i)
  exact hunread

/-- A match with a scope that was open before is a continuation. -/
theorem Matched.joined {c : Call} {vetting : Json → Endpoint → Gated} {p : Prep ρ} {i : Slot}
    {serial : Nat} (hbounded : (p.gateway.scopes i).isOpen = true →
      (p.gateway.scopes i).serial ≤ p.gateway.opened) (h : Matched c vetting p i serial) :
    ∃ freeRow a, (enter c).run p = .ok freeRow a ∧
      (resolve c vetting).run a = .ok (some i) a ∧ Joined c vetting p a i := by
  obtain ⟨freeRow, a, b, henter, hresolve, hopen, himplicit, hserial, hlater⟩ := h
  have hpeeked := enter_peeked henter
  have hholder := hpeeked.holder i
  have hold : (p.gateway.scopes i).serial ≤ p.gateway.opened := hbounded (by rw [← hholder]; exact hopen)
  have hsame : (a.gateway.scopes i).serial = (p.gateway.scopes i).serial :=
    congrArg Holder.serial hholder
  have holder : (b.gateway.scopes i).serial ≤ a.gateway.opened := by
    rw [hlater, ← hserial, hsame, hpeeked.opened]
    exact hold
  obtain ⟨hrejoins, hb⟩ := resolve_rejoins hresolve himplicit holder
  rw [hb] at hresolve
  exact ⟨freeRow, a, henter, hresolve, hpeeked, hopen, himplicit, hrejoins, hsame⟩

/-- What a denial of a request for slot `i` and entering again leave of the state it came in. -/
structure Aftermath (a a' : Prep ρ) (i : Slot) : Prop where
  body : a'.body = a.body
  labels : a'.gateway.labels = a.gateway.labels
  others : ∀ j, j ≠ i → (a'.gateway.scopes j).unasked.unread = (a.gateway.scopes j).unasked.unread
  own : (a'.gateway.scopes i).unasked.unread =
    ((a.gateway.scopes i).denied ρ a.body).unasked.unread

theorem Aftermath.alike {a a' : Prep ρ} {i : Slot} (h : Aftermath a a' i)
    (hcond : withinRequests ρ (a.gateway.scopes i) = false ∨
      ((a.gateway.scopes i).contracted ρ a.body).pinned = false) (messages : List Json) (j : Slot) :
    Alike ρ messages (a.gateway.scopes j) (a'.gateway.scopes j) := by
  by_cases hji : j = i
  · rw [hji]
    have hown : Alike ρ messages ((a.gateway.scopes i).denied ρ a.body) (a'.gateway.scopes i) :=
      alike_of_unasked h.own
    have hdenied : Alike ρ messages (a.gateway.scopes i) ((a.gateway.scopes i).denied ρ a.body) := by
      unfold Scope.denied
      by_cases hwithin : withinRequests ρ (a.gateway.scopes i) = true
      · rw [if_pos hwithin]
        have hunpinned := hcond.resolve_left fun hover =>
          absurd (hwithin.symm.trans hover) (by decide)
        exact alike_of_drawn (drawn_contracted a.body _) hunpinned
      · rw [if_neg hwithin]
        exact alike_of_unasked rfl
    exact hdenied.trans hown
  · exact alike_of_unasked (h.others j hji)

/-- The session is found again exactly when it was left as it can be found. -/
theorem Aftermath.rejoins_iff {c c' : Call} {vetting : Json → Endpoint → Gated} {a a' : Prep ρ}
    {i : Slot} (h : Aftermath a a' i) (hrejoins : Rejoins c vetting a i)
    (himplicit : (a.gateway.scopes i).implicit = true) (hautomatic : c'.automatic = c.automatic)
    (hheaders : c'.headers = c.headers) :
    Rejoins c' vetting a' i ↔ withinRequests ρ (a.gateway.scopes i) = false ∨
      ((a.gateway.scopes i).contracted ρ a.body).pinned = false := by
  obtain ⟨o, hopening, hstart, hfound⟩ := hrejoins.continued
  constructor
  · intro hagain
    by_contra hneither
    rw [not_or, Bool.not_eq_false, Bool.not_eq_false] at hneither
    obtain ⟨hwithin, hpinned⟩ := hneither
    obtain ⟨o', -, -, hfound'⟩ := hagain.continued
    -- the pinned session was found, although it has seen as many messages
    have htest := (Scan.best_eq_some hfound').2
    rw [Bool.and_eq_true] at htest
    have hown : Alike ρ (elementsAt a.body "messages") ((a.gateway.scopes i).denied ρ a.body)
        (a'.gateway.scopes i) := alike_of_unasked h.own
    have hcontinues := hown.continues
    unfold Scope.denied at hcontinues
    rw [if_pos hwithin, continues_contracted himplicit hpinned, ← h.body, htest.2] at hcontinues
    cases hcontinues
  · intro hcond
    have halike := h.alike hcond (elementsAt a.body "messages")
    refine ⟨?_, ?_, ?_, ⟨o, ?_, hstart, ?_⟩, ?_⟩
    · unfold unregistered
      rw [hheaders]
      exact hrejoins.plain
    · have hunmarked := hrejoins.unmarked
      unfold marked GatewayContext.labelled at hunmarked ⊢
      rw [hautomatic, hheaders, h.body, h.labels]
      exact hunmarked
    · rw [hautomatic]
      exact hrejoins.sessions
    · rw [h.body]
      exact hopening
    · rw [h.body, hheaders, continuation_congr halike]
      exact hfound
    · rw [(halike i).holder]
      exact hrejoins.idle

/-- A denied request that comes again is matched to its session again exactly when the denial left
the session as it can be found: the request was over the session's number of requests, or the
contract did not pin the session. -/
theorem denied_rematched {history : List (Event × Answer)} (h : Reaches ρ history s)
    (he : s.exchanges[id]? = some e) (hfresh : e.prepared = false) {i : Slot}
    (hmatched : Matched (e.call now verdict polled) (vet s.runtime verdict) (e.prep s.gateway) i
      (s.gateway.scopes i).serial) {status : Nat} {q : Prep ρ}
    (hdenied : (prepare (e.call now verdict polled) (vet s.runtime verdict)).run
      (e.prep s.gateway) = .error status q) {t : State ρ}
    (ht : t = resent s e id now verdict polled later judged)
    {o : Exchange ρ.settings.count} (ho : t.exchanges[s.exchanges.length]? = some o)
    {again : Nat} {results : List InterpreterResult} {freeRow : Option Nat} {a' : Prep ρ}
    (hentered : (enter (o.call again verdict results)).run (o.prep t.gateway) = .ok freeRow a') :
    Matched (o.call again verdict results) (vet t.runtime verdict) (o.prep t.gateway) i
        (s.gateway.scopes i).serial ↔
      withinRequests ρ (s.gateway.scopes i) = false ∨
        ((s.gateway.scopes i).contracted ρ e.request.body).pinned = false := by
  have hresent : Resent s e q t := by
    rw [ht]
    exact resent_spec he hfresh hdenied
  have hfenced : Fenced t := by
    rw [ht]
    exact (step_fenced (step_fenced h.fenced Prod.mk.eta.symm).1 Prod.mk.eta.symm).1
  have hbounded : (s.gateway.scopes i).isOpen = true → (s.gateway.scopes i).serial ≤ s.gateway.opened :=
    fun hopen => (h.fenced.sound.bounded i hopen).2
  obtain ⟨freeRow₁, a, henter, hresolve, hjoined⟩ := hmatched.joined hbounded
  have hrequest := hresent.request o ho
  have hbody : e.body = e.request.body := ((h.fenced.fit id e he).unprepared hfresh).1
  have hleft := unasked_denied henter hresolve hjoined.implicit hdenied
  have hpeeked := enter_peeked hentered
  have hsame : a'.body = a.body := by
    rw [hpeeked.body, hjoined.peeked.body]
    exact hrequest.2.trans hbody.symm
  have hscope : ∀ j, (a'.gateway.scopes j).unasked.unread =
      ((a.inScope i ((a.gateway.scopes i).denied ρ a.body)).gateway.scopes j).unasked.unread := by
    intro j
    have hmoved := congrArg Scope.unasked (hpeeked.scopes j)
    have hkept : t.gateway.scopes j = q.gateway.scopes j := congrFun hresent.gateway.scopes j
    have hdenial := congrFun (congrArg (fun table => table.2.2) hleft) j
    exact hmoved.trans ((congrArg (fun u => u.unread.unasked) hkept).trans
      (congrArg Scope.unread hdenial))
  have haftermath : Aftermath a a' i := by
    refine ⟨hsame, ?_, ?_, ?_⟩
    · have hdenial : q.gateway.labels = a.gateway.labels := congrArg (fun table => table.1) hleft
      exact hpeeked.labels.trans (hresent.gateway.labels.trans hdenial)
    · intro j hji
      rw [hscope j]
      show ((a.gateway.setScope i _).scopes j).unasked.unread = _
      rw [scopes_setScope_of_ne _ _ hji]
    · rw [hscope i]
      show ((a.gateway.setScope i _).scopes i).unasked.unread = _
      rw [scopes_setScope_self]
  have hvetting : vet t.runtime verdict = vet s.runtime verdict := by rw [hresent.runtime]
  rw [hvetting]
  have hautomatic : (o.call again verdict results).automatic = (e.call now verdict polled).automatic :=
    congrArg Request.automatic hrequest.1
  have hheaders : (o.call again verdict results).headers = (e.call now verdict polled).headers :=
    congrArg Request.headers hrequest.1
  have hiff := haftermath.rejoins_iff hjoined.rejoins hjoined.implicit hautomatic hheaders
  -- what the condition reads of the session is as it was before the request came in
  have hunread : (a.gateway.scopes i).unread = (s.gateway.scopes i).unread := hjoined.peeked.scopes i
  have hrequests : (a.gateway.scopes i).unread.requests = (s.gateway.scopes i).unread.requests :=
    congrArg Scope.requests hunread
  have hwithin : withinRequests ρ (a.gateway.scopes i) = withinRequests ρ (s.gateway.scopes i) := by
    unfold withinRequests
    rw [show (a.gateway.scopes i).requests = (s.gateway.scopes i).requests from hrequests]
  have hcontracted : ((a.gateway.scopes i).contracted ρ a.body).pinned =
      ((s.gateway.scopes i).contracted ρ e.request.body).pinned := by
    have hasked : a.body = e.request.body := hjoined.peeked.body.trans hbody
    rw [← contracted_unread, hunread, contracted_unread, hasked]
  rw [hwithin, hcontracted] at hiff
  rw [← hiff]
  constructor
  · intro hagain
    obtain ⟨_, a'', henter'', -, hjoined''⟩ := hagain.joined fun hopen =>
      (hfenced.sound.bounded i hopen).2
    rw [hentered] at henter''
    cases henter''
    exact hjoined''.rejoins
  · intro hrejoins
    have hholder : (a'.gateway.scopes i).toHolder = (a.gateway.scopes i).toHolder := by
      have hcond := hiff.mp hrejoins
      rw [← hwithin, ← hcontracted] at hcond
      exact (haftermath.alike hcond [] i).holder
    have hserial : (a'.gateway.scopes i).serial = (s.gateway.scopes i).serial := by
      rw [hholder]
      exact hjoined.serial
    refine ⟨freeRow, a', a', hentered, hrejoins.resolves, ?_, ?_, hserial, hserial⟩
    · rw [hholder]
      exact hjoined.isOpen
    · rw [hholder]
      exact hjoined.implicit

end Again

/-! ### A retry that leaves its session -/

/-- The result of a run that fails, fails with the status. -/
def failsWith {α : Type} (status : Nat) : EStateM.Result Nat (Prep ρ) α → Bool
  | .ok _ _ => false
  | .error found _ => found = status

theorem error_of_failsWith {α : Type} {status : Nat} {r : EStateM.Result Nat (Prep ρ) α}
    (h : failsWith status r = true) : ∃ q, r = .error status q := by
  cases r with
  | ok a q => cases h
  | error found q => exact ⟨q, by rw [of_decide_eq_true h]⟩

/-- The second request of a conversation, with a member that M2 does not know. -/
def unknownRequest : Request where
  automatic := true
  fields := [sessionHeader]
  members := [("model", .string "p"),
    ("messages", .array [Compliance.question, .object [("role", .string "assistant")],
      Compliance.question]),
    ("max_tokens", .integer 9), ("x", .null)]
  endpoint := .pub
  nodup := by decide
  addressed := by decide

/-- The verdicts of the sample policy. -/
def sampleVerdict : Json → Option Text → Verdict :=
  Compliance.classify sampleRouter.runtime ⟨[], [], ⟨[], 4096, 1000000⟩⟩

/-- A session pinned by a failed exchange, and a second request for it. -/
def secondEvents (request : Request) : List Event :=
  [.arrive (sampleRequest [sessionHeader]) 2 ⟨false, none⟩, .prepare 0 3 sampleVerdict [],
    .finish 0 ⟨false, false, none, ⟨none, none, none⟩⟩ 4, .arrive request 5 ⟨false, none⟩]

def secondRun (ρ : Router) (request : Request) : List (Event × Answer) × State ρ :=
  Trace.feed step (sampleStart ρ) (secondEvents request)

theorem reaches_secondRun (ρ : Router) (request : Request) :
    Reaches ρ (secondRun ρ request).1 (secondRun ρ request).2 :=
  ⟨_, started_sampleStart ρ, Trace.Runs.feed (secondEvents request) _⟩

def unknownRun : List (Event × Answer) × State sampleRouter := secondRun sampleRouter unknownRequest

/-- The state in which the second request arrives again. -/
def retried (s : State ρ) (e : Exchange ρ.settings.count) : State ρ :=
  resent s e 1 6 sampleVerdict [] 7 ⟨false, none⟩

/-- The session of the first slot is found for a request of `s` by the exchange `e` of `t`. -/
def Found (s t : State ρ) (e : Exchange ρ.settings.count) (now : Nat) : Prop :=
  Matched (e.call now sampleVerdict []) (vet t.runtime sampleVerdict) (e.prep t.gateway) firstSlot
    (s.gateway.scopes firstSlot).serial

instance {s t : State ρ} {e : Exchange ρ.settings.count} {now : Nat} : Decidable (Found s t e now) :=
  inferInstanceAs (Decidable (Matched ..))

/-- The denied request of a pinned session is let through in a new session when it comes again. -/
theorem denied_shed : Reaches sampleRouter unknownRun.1 unknownRun.2 ∧
    ∃ e o q, unknownRun.2.exchanges[1]? = some e ∧ e.request.automatic = true ∧
      Found unknownRun.2 unknownRun.2 e 6 ∧
      (prepare (e.call 6 sampleVerdict []) (vet unknownRun.2.runtime sampleVerdict)).run
        (e.prep unknownRun.2.gateway) = .error 403 q ∧
      (retried unknownRun.2 e).exchanges[2]? = some o ∧
      ¬ Found unknownRun.2 (retried unknownRun.2 e) o 8 ∧
      (step (retried unknownRun.2 e) (.prepare 2 8 sampleVerdict [])).1.isDispatch = true := by
  refine ⟨reaches_secondRun sampleRouter unknownRequest, ?_⟩
  have hfound : (unknownRun.2.exchanges[1]?).any (fun e => e.request.automatic &&
      decide (Found unknownRun.2 unknownRun.2 e 6) &&
      failsWith 403 ((prepare (e.call 6 sampleVerdict [])
        (vet unknownRun.2.runtime sampleVerdict)).run (e.prep unknownRun.2.gateway)) &&
      (step (retried unknownRun.2 e) (.prepare 2 8 sampleVerdict [])).1.isDispatch &&
      ((retried unknownRun.2 e).exchanges[2]?).any fun o =>
        !decide (Found unknownRun.2 (retried unknownRun.2 e) o 8)) = true := by
    decide +kernel
  obtain ⟨e, he, hchecks⟩ := (Option.any_eq_true _ _).mp hfound
  simp only [Bool.and_eq_true, decide_eq_true_eq] at hchecks
  obtain ⟨⟨⟨⟨hautomatic, hmatched⟩, hfails⟩, hdispatched⟩, hagain⟩ := hchecks
  obtain ⟨q, hdenied⟩ := error_of_failsWith hfails
  obtain ⟨o, ho, hlost⟩ := (Option.any_eq_true _ _).mp hagain
  rw [Bool.not_eq_true', decide_eq_false_iff_not] at hlost
  exact ⟨e, o, q, he, hautomatic, hmatched, hdenied, ho, hlost, hdispatched⟩

/-- A router whose sessions may send one request. -/
def cappedRouter : Router where
  runtime := sampleRuntime "openai-compatible" "openai-compatible"
  settings := { sampleSettings with budget := ⟨0, 0, 1, 0⟩ }
  neighbours := sampleNeighbours
  aliased := by decide

def cappedRun : List (Event × Answer) × State cappedRouter :=
  secondRun cappedRouter (secondRequest [sessionHeader])

/-- A request over the session's number of requests finds the session again. -/
theorem denied_rematched_sample :
    ∃ e o, cappedRun.2.exchanges[1]? = some e ∧
      (retried cappedRun.2 e).exchanges[2]? = some o ∧ Found cappedRun.2 (retried cappedRun.2 e) o 8 := by
  have hfound : (cappedRun.2.exchanges[1]?).any (fun e => !e.prepared &&
      decide (cappedRun.2.exchanges.length = 2) &&
      !withinRequests cappedRouter (cappedRun.2.gateway.scopes firstSlot) &&
      decide (Found cappedRun.2 cappedRun.2 e 6) &&
      failsWith 429 ((prepare (e.call 6 sampleVerdict [])
        (vet cappedRun.2.runtime sampleVerdict)).run (e.prep cappedRun.2.gateway)) &&
      ((retried cappedRun.2 e).exchanges[2]?).any fun o =>
        passes (fun _ _ => true) ((enter (o.call 8 sampleVerdict [])).run
          (o.prep (retried cappedRun.2 e).gateway))) = true := by
    decide +kernel
  obtain ⟨e, he, hchecks⟩ := (Option.any_eq_true _ _).mp hfound
  simp only [Bool.and_eq_true, decide_eq_true_eq, Bool.not_eq_true'] at hchecks
  obtain ⟨⟨⟨⟨⟨hfresh, hlast⟩, hover⟩, hmatched⟩, hfails⟩, hagain⟩ := hchecks
  obtain ⟨q, hdenied⟩ := error_of_failsWith hfails
  obtain ⟨o, ho, henters⟩ := (Option.any_eq_true _ _).mp hagain
  obtain ⟨freeRow, a', hentered, -⟩ := ok_of_passes henters
  have hretried : retried cappedRun.2 e = resent cappedRun.2 e 1 6 sampleVerdict [] 7 ⟨false, none⟩ :=
    rfl
  have hlater : (retried cappedRun.2 e).exchanges[cappedRun.2.exchanges.length]? = some o := by
    rw [hlast]
    exact ho
  have hreaches : Reaches cappedRouter cappedRun.1 cappedRun.2 :=
    reaches_secondRun cappedRouter (secondRequest [sessionHeader])
  unfold Found at hmatched ⊢
  have hrematched := denied_rematched hreaches he hfresh hmatched hdenied hretried hlater hentered
  exact ⟨e, o, he, ho, hrematched.mpr (.inl hover)⟩

end Recursant.Gateway
