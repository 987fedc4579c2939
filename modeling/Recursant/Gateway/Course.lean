import Recursant.Gateway.Drafts

/-!
# The course of a preparation

A preparation that goes through: the changes up to the gate, and after it, exactly, what it takes
for its exchange.
-/

namespace Recursant.Gateway

open Compliance (Gated)
open Stateful

variable {ρ : Router} {w : Intake}

/-! ## Runs of single actions -/

theorem ensure_eq_ok {b : Bool} {status : Nat} {p q : Prep ρ}
    (h : (ensure b status).run p = .ok () q) : b = true ∧ q = p := by
  unfold ensure at h
  by_cases hb : b = true
  · rw [if_pos hb] at h
    cases h
    exact ⟨hb, rfl⟩
  · rw [if_neg hb] at h
    cases h

theorem ensure_eq_error {b : Bool} {status x : Nat} {p q : Prep ρ}
    (h : (ensure b status).run p = .error x q) : b = false ∧ x = status ∧ q = p := by
  unfold ensure at h
  by_cases hb : b = true
  · rw [if_pos hb] at h
    cases h
  · rw [if_neg hb] at h
    cases h
    exact ⟨Bool.not_eq_true _ ▸ hb, rfl, rfl⟩

theorem diagnosticFence_eq_ok {c : Call} {p q : Prep ρ}
    (h : (diagnosticFence c).run p = .ok () q) : q = p := (ensure_eq_ok h).2

theorem vacant_capacityFence {c : Call} {p q : Prep ρ} {freeRow : Option Nat}
    (h : (capacityFence c).run p = .ok freeRow q) :
    ∀ n, freeRow = some n → Vacant q.gateway n := by
  intro n hn
  have hvacant := vacant_rowSlot p.gateway ρ.settings.attemptTtl c.now n
  cases h
  exact hvacant hn

theorem vacant_enter {c : Call} {p q : Prep ρ} {freeRow : Option Nat}
    (h : (enter c).run p = .ok freeRow q) : ∀ n, freeRow = some n → Vacant q.gateway n := by
  unfold enter at h
  obtain ⟨_, p₁, -, h⟩ := bind_eq_ok.mp h
  obtain ⟨_, p₂, -, h⟩ := bind_eq_ok.mp h
  obtain ⟨_, p₃, -, h⟩ := bind_eq_ok.mp h
  obtain ⟨found, p₄, hfound, h⟩ := bind_eq_ok.mp h
  obtain ⟨_, p₅, hfence, h⟩ := bind_eq_ok.mp h
  cases h
  rw [diagnosticFence_eq_ok hfence]
  exact vacant_capacityFence hfound

/-- Entering starts a ticket that holds nothing. -/
theorem enter_drafts {c : Call} {p : Prep ρ} (hpolled : ∀ r ∈ c.polled, w.polled r)
    (htidy : Tidy p.gateway) :
    Edits ρ w p.gateway (final ((enter c).run p)).gateway ∧
      Untaken Ticket.fresh (final ((enter c).run p)).ticket := by
  let started : Prep ρ := { p with
    ticket := { Ticket.fresh with reason := if c.automatic then "baseline" else "fixed" } }
  have hrest : Within (Drafts w none) (do
      modifyGateway (ρ := ρ) fun g => g.pollLocked ρ.settings.authorization c.now c.polled
      rateLimit c
      let freeRow ← capacityFence c
      diagnosticFence c
      return freeRow) := by
    refine (drafts_pollLocked c hpolled).bind fun _ => ?_
    refine (drafts_rateLimit c none).bind fun _ => ?_
    refine (drafts_capacityFence c).bind fun _ => ?_
    exact (drafts_diagnosticFence c none).bind fun _ => within_pure _
  have hdrafts := hrest started
  have hsteady : Steady none started.gateway := ⟨htidy, nofun, nofun⟩
  have hticket : Untaken Ticket.fresh started.ticket := ⟨rfl, rfl, rfl, rfl, rfl⟩
  exact ⟨(hdrafts.edits hsteady).1, hticket.trans hdrafts.ticket⟩

/-! ## After the gate -/

/-- The first limited candidate that serves the destination. -/
def limited (ρ : Router) (endpoint : Endpoint) (model : Option Text) : Option ρ.Index :=
  ρ.indices.find? fun i => (ρ.candidate i).maxInflight ≠ 0 &&
    (ρ.candidate i).destination.endpoint = endpoint &&
    model = some (ρ.candidate i).destination.model

/-- One request more is counted for a candidate. -/
def counted {n : Nat} (inflight : Fin n → Nat) : Option (Fin n) → Fin n → Nat
  | none => inflight
  | some i => Function.update inflight i (inflight i + 1)

/-- The row that the attempt was given, if it was tracked and there was one. -/
inductive RowTaken (c : Call) (freeRow : Option Nat) (rows : List Physical)
    (t : Ticket ρ.settings.count) : List Physical → Prop
  | untracked : t.row = none → RowTaken c freeRow rows t rows
  | tracked (n : Nat) (id : Attempts.AttemptId) : freeRow = some n → t.row = some n →
      t.id = some id → RowTaken c freeRow rows t
        (setRow rows n ⟨c.headers.invocation, id, t.scope, false, true, false, c.now⟩)

/-- The scope of an exchange that begins. -/
def Scope.begin (s : Scope) (body : Json) (now : Nat) (endpoint : Endpoint) (model : Text)
    (row : Option Nat) : Scope :=
  { commitScope body now endpoint model s with inflight := true, lastRow := row }

/-- What commits the scope of a request. -/
structure Commits (c : Call) (placed : Placed) (s t : Scope) (endpoint : Endpoint)
    (body : Json) (row : Option Nat) (model : Text) : Prop where
  addressed : modelOf body = some model
  short : model.length ≤ 128
  consistent : consistent c.automatic placed.healthMoved placed.request s endpoint model = true
  scope : t = s.begin body c.now endpoint model row

/-- What a preparation takes once it has passed the gate with `body` and `endpoint`. -/
structure Concluded (c : Call) (placed : Placed) (d q : Prep ρ) : Prop where
  body : q.body = d.body
  endpoint : q.endpoint = d.endpoint
  vetted : q.vetted = d.vetted
  spend : placed.scope.isSome = true → ρ.settings.budget.sessionUsd > 0 → placed.spend ≥ 1 →
    (ρ.candidateOf d.endpoint (modelOf d.body)).any (fun i => (ρ.candidate i).zeroPrice) = true
  own : ∀ i, placed.scope = some i → ∃ model, Commits c placed (d.gateway.scopes i)
    (q.gateway.scopes i) d.endpoint d.body q.ticket.row model
  others : ∀ i, placed.scope ≠ some i → q.gateway.scopes i = d.gateway.scopes i
  begun : q.ticket.begun = true
  finished : q.ticket.finished = d.ticket.finished
  scope : q.ticket.scope = d.ticket.scope
  capacity : q.ticket.capacity = (limited ρ d.endpoint (modelOf d.body)).or d.ticket.capacity
  inflight : q.gateway.inflight = counted d.gateway.inflight (limited ρ d.endpoint (modelOf d.body))
  rows : d.ticket.row = none → RowTaken c placed.freeRow d.gateway.rows q.ticket q.gateway.rows
  labels : q.gateway.labels = d.gateway.labels
  boot : q.gateway.boot = d.gateway.boot
  generations : q.gateway.generations = d.gateway.generations
  opened : q.gateway.opened = d.gateway.opened
  contexts : q.gateway.contexts = d.gateway.contexts

theorem checkSpend_eq_ok {scope : Option Slot} {spend : Rat} {p q : Prep ρ}
    (h : (checkSpend scope spend).run p = .ok () q) :
    q = p ∧ (scope.isSome = true → ρ.settings.budget.sessionUsd > 0 → spend ≥ 1 →
      (ρ.candidateOf p.endpoint (modelOf p.body)).any (fun i => (ρ.candidate i).zeroPrice) =
        true) := by
  unfold checkSpend at h
  split at h
  · obtain ⟨hfree, rfl⟩ := ensure_eq_ok h
    exact ⟨rfl, fun _ _ _ => hfree⟩
  · next hunder =>
      cases h
      refine ⟨rfl, fun hscope hbudget hspend => absurd ?_ hunder⟩
      simp only [Bool.and_eq_true, decide_eq_true_eq]
      exact ⟨⟨hscope, hbudget⟩, hspend⟩

/-- A scope is committed by a write to its slot. -/
theorem commit_eq_ok {c : Call} {i : Slot} {healthMoved : Bool}
    {request : Option (Endpoint × Text)} {p q : Prep ρ}
    (h : (commit c (some i) healthMoved request).run p = .ok () q) :
    ∃ model, modelOf p.body = some model ∧ model.length ≤ 128 ∧
      consistent c.automatic healthMoved request (p.gateway.scopes i) p.endpoint model = true ∧
      q = { p with
        gateway := p.gateway.setScope i
          { commitScope p.body c.now p.endpoint model (p.gateway.scopes i) with
            inflight := true } } := by
  unfold commit at h
  dsimp only at h
  obtain ⟨_, p₁, hget, h⟩ := bind_eq_ok.mp h
  cases hget
  split at h
  · cases h
  · next model hmodel =>
      obtain ⟨_, p₂, hensure, h⟩ := bind_eq_ok.mp h
      obtain ⟨hconsistent, rfl⟩ := ensure_eq_ok hensure
      obtain ⟨_, p₃, hwork, h⟩ := bind_eq_ok.mp h
      cases hwork
      cases h
      obtain ⟨hmodel, hshort⟩ := Option.filter_eq_some_iff.mp hmodel
      refine ⟨model, hmodel, by simpa using hshort, hconsistent, ?_⟩
      unfold GatewayContext.setScope
      have hholder : (commitScope p₂.body c.now p₂.endpoint model (p₂.gateway.scopes i)).toHolder =
          (p₂.gateway.scopes i).toHolder := by
        unfold commitScope
        dsimp only
        split <;> rfl
      simp only [Function.update_self, Function.update_idem, hholder]

theorem countDispatch_eq_ok {p q : Prep ρ} (h : (countDispatch (ρ := ρ)).run p = .ok () q) :
    q = { p with
      gateway := { p.gateway with
        inflight := counted p.gateway.inflight (limited ρ p.endpoint (modelOf p.body)) }
      ticket := { p.ticket with
        capacity := (limited ρ p.endpoint (modelOf p.body)).or p.ticket.capacity } } := by
  cases h
  unfold limited
  dsimp only
  split
  · next hnone =>
      rw [hnone]
      rfl
  · next i hi =>
      rw [hi]
      rfl

/-- An attempt begins: the ledger, the rows and the ticket are all that changes. -/
theorem beginAttempt_eq_ok {c : Call} {freeRow : Option Nat} {p q : Prep ρ}
    (h : (beginAttempt c freeRow).run p = .ok () q) :
    ∃ ledger rows id row, q = { p with
        gateway := { p.gateway with ledger, rows }
        ticket := { p.ticket with id, begun := true, row } } ∧
      (p.ticket.row = none → RowTaken c freeRow p.gateway.rows q.ticket rows) := by
  have hrun : beginAttempt c freeRow p = .ok () q := h
  unfold beginAttempt at hrun
  dsimp only at hrun
  split at hrun
  · next id n hresult hid =>
      cases hrun
      exact ⟨_, _, _, _, rfl, fun _ => .tracked n id rfl rfl hid⟩
  · cases hrun
    exact ⟨_, _, _, _, rfl, fun hrow => .untracked hrow⟩
  · cases hrun
    exact ⟨_, _, _, _, rfl, fun hrow => .untracked hrow⟩

theorem conclude_eq_ok {c : Call} {placed : Placed} {d q : Prep ρ}
    (h : (conclude c placed).run d = .ok () q) : Concluded c placed d q := by
  unfold conclude at h
  obtain ⟨_, p₁, hspend, h₁⟩ := bind_eq_ok.mp h
  obtain ⟨_, p₂, hcommit, h₂⟩ := bind_eq_ok.mp h₁
  obtain ⟨_, p₃, hcount, h₃⟩ := bind_eq_ok.mp h₂
  obtain ⟨_, p₄, hbegin, hrecord⟩ := bind_eq_ok.mp h₃
  clear h h₁ h₂ h₃
  obtain ⟨rfl, hspend⟩ := checkSpend_eq_ok hspend
  obtain rfl := countDispatch_eq_ok hcount
  obtain ⟨ledger, rows, id, row, rfl, hrows⟩ := beginAttempt_eq_ok hbegin
  cases hscope : placed.scope with
  | none =>
      rw [hscope] at hcommit hrecord
      cases hcommit
      cases hrecord
      constructor
      any_goals rfl
      · exact hscope ▸ hspend
      · intro i hi
        rw [hscope] at hi
        cases hi
      · exact fun _ _ => rfl
      · exact hrows
  | some i =>
      rw [hscope] at hcommit hrecord
      obtain ⟨model, hmodel, hshort, hconsistent, rfl⟩ := commit_eq_ok hcommit
      cases hrecord
      constructor
      any_goals rfl
      · exact hscope ▸ hspend
      · intro j hj
        obtain rfl := Option.some.inj (hscope.symm.trans hj)
        refine ⟨model, hmodel, hshort, hconsistent, ?_⟩
        refine (Function.update_self ..).trans ?_
        have hwritten := scopes_setScope_self p₁.gateway i
          { commitScope p₁.body c.now p₁.endpoint model (p₁.gateway.scopes i) with inflight := true }
        exact congrArg (fun s : Scope => { s with lastRow := row }) hwritten
      · intro j hj
        have hji : j ≠ i := fun heq => hj (heq ▸ hscope)
        exact (Function.update_of_ne hji ..).trans (scopes_setScope_of_ne p₁.gateway _ hji)
      · exact hrows

/-- Why a request is denied after the gate. -/
inductive Unconcluded (c : Call) (placed : Placed) (d : Prep ρ) : Nat → Prop where
  | overspent : placed.scope.isSome = true → ρ.settings.budget.sessionUsd > 0 → placed.spend ≥ 1 →
      (ρ.candidateOf d.endpoint (modelOf d.body)).any (fun i => (ρ.candidate i).zeroPrice) = false →
      Unconcluded c placed d 429
  | unnamed (i : Slot) : placed.scope = some i →
      (modelOf d.body).filter (·.length ≤ 128) = none → Unconcluded c placed d 403
  | inconsistent (i : Slot) (model : Text) : placed.scope = some i → modelOf d.body = some model →
      consistent c.automatic placed.healthMoved placed.request (d.gateway.scopes i) d.endpoint model =
        false → Unconcluded c placed d 403

theorem checkSpend_eq_error {scope : Option Slot} {spend : Rat} {p q : Prep ρ} {status : Nat}
    (h : (checkSpend scope spend).run p = .error status q) :
    q = p ∧ status = 429 ∧ scope.isSome = true ∧ ρ.settings.budget.sessionUsd > 0 ∧ spend ≥ 1 ∧
      (ρ.candidateOf p.endpoint (modelOf p.body)).any (fun i => (ρ.candidate i).zeroPrice) =
        false := by
  unfold checkSpend at h
  split at h
  · next hover =>
      simp only [Bool.and_eq_true, decide_eq_true_eq] at hover
      obtain ⟨hfree, rfl, rfl⟩ := ensure_eq_error h
      exact ⟨rfl, rfl, hover.1.1, hover.1.2, hover.2, hfree⟩
  · cases h

theorem commit_eq_error {c : Call} {scope : Option Slot} {healthMoved : Bool}
    {request : Option (Endpoint × Text)} {p q : Prep ρ} {status : Nat}
    (h : (commit c scope healthMoved request).run p = .error status q) :
    q = p ∧ status = 403 ∧ ∃ i, scope = some i ∧
      ((modelOf p.body).filter (·.length ≤ 128) = none ∨ ∃ model, modelOf p.body = some model ∧
        consistent c.automatic healthMoved request (p.gateway.scopes i) p.endpoint model = false) := by
  unfold commit at h
  split at h
  · cases h
  · next i =>
      cases bind_eq_error.mp h with
      | inl hget => cases hget
      | inr h =>
          obtain ⟨_, p₁, hget, h⟩ := h
          cases hget
          split at h
          · next hnone =>
              cases h
              exact ⟨rfl, rfl, i, rfl, .inl hnone⟩
          · next model hmodel =>
              cases bind_eq_error.mp h with
              | inl hensure =>
                  obtain ⟨hfalse, rfl, rfl⟩ := ensure_eq_error hensure
                  have hmodel := (Option.filter_eq_some_iff.mp hmodel).1
                  exact ⟨rfl, rfl, i, rfl, .inr ⟨model, hmodel, hfalse⟩⟩
              | inr htaken =>
                  -- nothing is denied once the scope is committed
                  obtain ⟨_, p₂, -, htaken⟩ := htaken
                  cases bind_eq_error.mp htaken with
                  | inl hwork => cases hwork
                  | inr htake =>
                      obtain ⟨_, p₃, -, htake⟩ := htake
                      cases htake

/-- A request that is denied after the gate leaves everything as the gate left it. -/
theorem conclude_eq_error {c : Call} {placed : Placed} {d q : Prep ρ} {status : Nat}
    (h : (conclude c placed).run d = .error status q) : q = d ∧ Unconcluded c placed d status := by
  unfold conclude at h
  cases bind_eq_error.mp h with
  | inl hspend =>
      obtain ⟨rfl, rfl, hscope, hbudget, hspend, hpriced⟩ := checkSpend_eq_error hspend
      exact ⟨rfl, .overspent hscope hbudget hspend hpriced⟩
  | inr hrest =>
      obtain ⟨_, p₁, hspend, hrest⟩ := hrest
      obtain ⟨rfl, -⟩ := checkSpend_eq_ok hspend
      cases bind_eq_error.mp hrest with
      | inl hcommit =>
          obtain ⟨rfl, rfl, i, hi, hwhy⟩ := commit_eq_error hcommit
          refine ⟨rfl, ?_⟩
          cases hwhy with
          | inl hnone => exact .unnamed i hi hnone
          | inr hfalse =>
              obtain ⟨model, hmodel, hfalse⟩ := hfalse
              exact .inconsistent i model hi hmodel hfalse
      | inr hrest =>
          obtain ⟨_, p₂, -, hrest⟩ := hrest
          cases bind_eq_error.mp hrest with
          | inl hcount => cases hcount
          | inr hrest =>
              obtain ⟨_, p₃, -, hrest⟩ := hrest
              cases bind_eq_error.mp hrest with
              | inl hbegin => cases hbegin
              | inr hrecord =>
                  obtain ⟨_, p₄, -, hrecord⟩ := hrecord
                  unfold recordRow at hrecord
                  split at hrecord <;> cases hrecord

/-! ## The whole -/

theorem settle_placed {c : Call} {vetting : Json → Endpoint → Gated} {freeRow : Option Nat}
    {scope : Option Slot} {placed : Placed} {p q : Prep ρ}
    (h : (settle c vetting freeRow scope).run p = .ok placed q) :
    placed.freeRow = freeRow ∧ placed.scope = scope := by
  unfold settle at h
  obtain ⟨_, p₁, -, h₁⟩ := bind_eq_ok.mp h
  obtain ⟨_, p₂, -, h₂⟩ := bind_eq_ok.mp h₁
  obtain ⟨_, p₃, -, h₃⟩ := bind_eq_ok.mp h₂
  obtain ⟨_, p₄, -, h₄⟩ := bind_eq_ok.mp h₃
  obtain ⟨_, p₅, -, h₅⟩ := bind_eq_ok.mp h₄
  cases h₅
  exact ⟨rfl, rfl⟩

theorem finalGate_eq_ok {vetting : Json → Endpoint → Gated} {d e : Prep ρ}
    (h : (finalGate vetting).run d = .ok () e) :
    vetting d.body d.endpoint = ⟨true, e.body, e.endpoint⟩ ∧
      e = { d with body := e.body, endpoint := e.endpoint, vetted := e.vetted } := by
  unfold finalGate at h
  obtain ⟨_, p₁, hget, h₁⟩ := bind_eq_ok.mp h
  cases hget
  obtain ⟨_, p₂, hmodify, h₂⟩ := bind_eq_ok.mp h₁
  cases hmodify
  obtain ⟨hadmitted, rfl⟩ := ensure_eq_ok h₂
  refine ⟨?_, rfl⟩
  rw [← hadmitted]

/-- A preparation that went through: the states after entry, with the scope found, and before the
gate, and what was taken after it. -/
structure Course (c : Call) (vetting : Json → Endpoint → Gated) (w : Intake) (placed : Placed)
    (p a b d q : Prep ρ) : Prop where
  entered : (enter c).run p = .ok placed.freeRow a
  resolved : (resolve c vetting).run a = .ok placed.scope b
  settled : (settle c vetting placed.freeRow placed.scope).run b = .ok placed d
  before : Edits ρ w p.gateway b.gateway
  edits : Edits ρ w p.gateway d.gateway
  seated : Steady placed.scope b.gateway
  steady : Steady placed.scope d.gateway
  ticket : Untaken Ticket.fresh d.ticket
  vacant : ∀ n, placed.freeRow = some n → Vacant d.gateway n
  gated : vetting d.body d.endpoint = ⟨true, q.body, q.endpoint⟩
  scope : q.ticket.scope = placed.scope
  concluded : Concluded c placed
    { d with body := q.body, endpoint := q.endpoint, vetted := q.vetted } q

/-- A request that is denied has made changes of the list, and its ticket holds nothing. -/
structure Denied (w : Intake) (p q : Prep ρ) : Prop where
  edits : Edits ρ w p.gateway q.gateway
  ticket : Untaken Ticket.fresh q.ticket

section Whole

variable {c : Call} {vetting : Json → Endpoint → Gated} {p q : Prep ρ}

/-- What the resolved scope is when the request enters its contract. -/
theorem resolve_course (hpolled : ∀ r ∈ c.polled, w.polled r) (htidy : Tidy p.gateway)
    (hsound : Roster.Sound ρ.settings.implicit p.gateway.roster) {freeRow : Option Nat}
    {scope : Option Slot} {a b : Prep ρ} (henter : (enter c).run p = .ok freeRow a)
    (hresolve : (resolve c vetting).run a = .ok scope b) :
    Edits ρ w p.gateway b.gateway ∧ Untaken Ticket.fresh b.ticket ∧ Steady scope b.gateway ∧
      Underway p none (Seated c.headers scope) b ∧ Edits ρ w a.gateway b.gateway := by
  have hentered := enter_drafts (w := w) hpolled htidy
  rw [henter] at hentered
  have hfirst : Edits ρ w p.gateway a.gateway := hentered.1
  have hdrafts := drafts_resolve (w := w) c vetting a
  rw [hresolve] at hdrafts
  have hdrafts : Drafts w none a b := hdrafts
  have hsecond := hdrafts.edits ⟨hfirst.tidy htidy, nofun, nofun⟩
  have hunderway := (resolve_triple c vetting p hsound).ok ((enter_triple c p).ok rfl henter) hresolve
  refine ⟨hfirst.trans hsecond.1, hentered.2.trans hdrafts.ticket, ⟨hsecond.2.tidy, ?_, ?_⟩,
    hunderway, hsecond.1⟩
  · exact fun i hi => (hunderway.fact i hi).isOpen
  · exact fun i hi => (hunderway.fact i hi).idle

theorem prepare_course (hpolled : ∀ r ∈ c.polled, w.polled r) (htidy : Tidy p.gateway)
    (hsound : Roster.Sound ρ.settings.implicit p.gateway.roster)
    (h : (prepare c vetting).run p = .ok () q) :
    ∃ placed a b d, Course c vetting w placed p a b d q := by
  unfold prepare at h
  obtain ⟨freeRow, a, henter, h₁⟩ := bind_eq_ok.mp h
  obtain ⟨scope, b, hresolve, h₂⟩ := bind_eq_ok.mp h₁
  obtain ⟨placed, d, hsettle, h₃⟩ := bind_eq_ok.mp h₂
  obtain ⟨_, e, hgate, hconclude⟩ := bind_eq_ok.mp h₃
  obtain ⟨hbefore, hticket, hseated, hunderway, hresolved⟩ :=
    resolve_course (w := w) hpolled htidy hsound henter hresolve
  obtain ⟨hrow, hscope⟩ := settle_placed hsettle
  have hready := ((settle_triple c vetting p scope freeRow hsound).ok hunderway hsettle).2
  have hdrafts := drafts_settle (w := w) c vetting scope freeRow b
  rw [hsettle] at hdrafts
  have hdrafts : Drafts w scope b d := hdrafts
  obtain ⟨hedits, hsteady⟩ := hdrafts.edits hseated
  obtain ⟨hgated, he⟩ := finalGate_eq_ok hgate
  have hconcluded := conclude_eq_ok hconclude
  rw [← hconcluded.body, ← hconcluded.endpoint] at hgated
  rw [he, ← hconcluded.body, ← hconcluded.endpoint, ← hconcluded.vetted] at hconcluded
  subst hrow hscope
  exact ⟨placed, a, b, d, henter, hresolve, hsettle, hbefore, hbefore.trans hedits, hseated, hsteady,
    hticket.trans hdrafts.ticket,
    fun n hn => (vacant_enter henter n hn).edits (hresolved.trans hedits), hgated,
    hconcluded.scope.trans hready.ticket.scope, hconcluded⟩

theorem prepare_denied (hpolled : ∀ r ∈ c.polled, w.polled r) (htidy : Tidy p.gateway)
    (hsound : Roster.Sound ρ.settings.implicit p.gateway.roster) {status : Nat}
    (h : (prepare c vetting).run p = .error status q) : Denied w p q := by
  unfold prepare at h
  cases bind_eq_error.mp h with
  | inl henter =>
      have hentered := enter_drafts (w := w) hpolled htidy
      rw [henter] at hentered
      exact ⟨hentered.1, hentered.2⟩
  | inr hrest =>
      obtain ⟨freeRow, a, henter, hrest⟩ := hrest
      cases bind_eq_error.mp hrest with
      | inl hresolve =>
          have hentered := enter_drafts (w := w) hpolled htidy
          rw [henter] at hentered
          have hdrafts := drafts_resolve (w := w) c vetting a
          rw [hresolve] at hdrafts
          have hdrafts : Drafts w none a q := hdrafts
          have hfirst : Edits ρ w p.gateway a.gateway := hentered.1
          have hsecond := hdrafts.edits ⟨hfirst.tidy htidy, nofun, nofun⟩
          exact ⟨hfirst.trans hsecond.1, hentered.2.trans hdrafts.ticket⟩
      | inr hrest =>
          obtain ⟨scope, b, hresolve, hrest⟩ := hrest
          obtain ⟨hbefore, hticket, hseated, -, -⟩ :=
            resolve_course (w := w) hpolled htidy hsound henter hresolve
          have hstopped : Drafts w scope b q → Denied w p q := fun hdrafts =>
            ⟨hbefore.trans (hdrafts.edits hseated).1, hticket.trans hdrafts.ticket⟩
          apply hstopped
          cases bind_eq_error.mp hrest with
          | inl hsettle =>
              have hdrafts := drafts_settle (w := w) c vetting scope freeRow b
              rw [hsettle] at hdrafts
              exact hdrafts
          | inr hrest =>
              obtain ⟨placed, d, hsettle, hrest⟩ := hrest
              have hdrafts := drafts_settle (w := w) c vetting scope freeRow b
              rw [hsettle] at hdrafts
              have hdrafts : Drafts w scope b d := hdrafts
              have hgated := drafts_finalGate (w := w) vetting scope d
              cases bind_eq_error.mp hrest with
              | inl hgate =>
                  rw [hgate] at hgated
                  exact hdrafts.trans hgated
              | inr hrest =>
                  obtain ⟨_, e, hgate, hconclude⟩ := hrest
                  rw [hgate] at hgated
                  rw [(conclude_eq_error hconclude).1]
                  exact hdrafts.trans hgated

end Whole

end Recursant.Gateway
