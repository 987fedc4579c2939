import Recursant.Gateway.Course

/-!
# How a request is settled

What the contract of a scope makes of it, and what the steps between the contract and the gate do
to the request, exactly.
-/

namespace Recursant.Gateway

open Compliance (Gated)
open Stateful

variable {ρ : Router}

/-! ## Addresses -/

theorem modelOf_set? {body changed : Json} {model : Text}
    (h : body.set? "model" (some (.string model)) = some changed) : modelOf changed = some model := by
  unfold modelOf
  rw [Json.get?_set? h, if_pos rfl]
  rfl

theorem permits_eq_true {vetting : Json → Endpoint → Gated} {body : Json} {a : Alias}
    (h : permits vetting body a = true) : ∃ request,
      body.set? "model" (some (.string a.model)) = some request ∧
        (vetting request a.endpoint).admitted = true ∧
        (vetting request a.endpoint).endpoint = a.endpoint ∧
        eq (vetting request a.endpoint).body "model" a.model = true := by
  unfold permits at h
  split at h
  · cases h
  · next request hrequest =>
      dsimp only at h
      rw [Bool.and_eq_true, Bool.and_eq_true, decide_eq_true_eq] at h
      exact ⟨request, hrequest, h.1.1, h.1.2, h.2⟩

theorem modelOf_eq {body : Json} {model : Text} (h : eq body "model" model = true) :
    modelOf body = some model := by
  have htoken : token body "model" 128 = some model := of_decide_eq_true h
  unfold token at htoken
  exact (Option.filter_eq_some_iff.mp htoken).1

theorem eq_short {body : Json} {key value : Text} (h : eq body key value = true) :
    value.length ≤ 128 := by
  have htoken : token body key 128 = some value := of_decide_eq_true h
  unfold token at htoken
  have htest := (Option.filter_eq_some_iff.mp htoken).2
  simp only [Bool.and_eq_true, decide_eq_true_eq] at htest
  exact htest.1.2

/-! ## The contract -/

/-- The scope of a request that is counted. -/
def Scope.counting (s : Scope) : Scope :=
  { s with reasoningAdded := none, requests := s.requests + 1 }

/-- The scope held to its contract by a request. -/
def Scope.bound (ρ : Router) (body : Json) (s : Scope) : Scope :=
  let s := if s.implicit then { s with seenMessages := (elementsAt body "messages").length } else s
  match requestOptions ρ.jansson body with
  | none => { s with pinned := true }
  | some (own, effort) =>
      if s.pinned then s else bindContract own effort (contractProjection body) s

/-- What the request itself requires. -/
def ownRequirements (ρ : Router) (body : Json) : UInt32 :=
  ((requestOptions ρ.jansson body).getD (0, [])).1

/-- The status that the boundary of a scope gives a request; a session was found by its replay. -/
def replayOf (ρ : Router) (s : Scope) (boundary : Boundary) (messages : List Json) : ToolStatus :=
  if s.implicit then .complete else ρ.neighbours.replay boundary messages

/-- The scope that a request continues, pinned unless the request replays it. -/
def Scope.continued (ρ : Router) (own : UInt32) (messages : List Json) (s : Scope) : Scope :=
  match if s.pinned then none else s.boundary with
  | some boundary => { s with
      pinned := s.pinned || replayOf ρ s boundary messages ≠ .complete
      requirements := s.requirements ||| own ||| ρ.neighbours.boundaryRequirements boundary }
  | none => { s with
      pinned := s.pinned || !replayable (ρ := ρ) s messages
      requirements := s.requirements ||| own }

/-- What the contract leaves of a scope. -/
def Scope.contracted (ρ : Router) (body : Json) (s : Scope) : Scope :=
  (s.counting.bound ρ body).continued ρ (ownRequirements ρ body) (elementsAt body "messages")

theorem drawn_bound (body : Json) (s : Scope) : Drawn s (s.bound ρ body) := by
  have hseen : Drawn s (if s.implicit then
      { s with seenMessages := (elementsAt body "messages").length } else s) := by
    split <;> exact ⟨rfl, id⟩
  unfold Scope.bound
  dsimp only
  generalize (if s.implicit then
    { s with seenMessages := (elementsAt body "messages").length } else s) = t at hseen
  split
  · exact hseen.trans ⟨rfl, fun _ => rfl⟩
  · split
    · exact hseen
    · exact hseen.trans (drawn_bindContract _ _ _ t)

theorem drawn_continued (own : UInt32) (messages : List Json) (s : Scope) :
    Drawn s (s.continued ρ own messages) := by
  have hpinned : ∀ b : Bool, s.pinned = true → (s.pinned || b) = true := by
    intro b hs
    rw [hs, Bool.true_or]
  unfold Scope.continued
  split <;> exact ⟨rfl, hpinned _⟩

theorem drawn_contracted (body : Json) (s : Scope) : Drawn s (s.contracted ρ body) := by
  have hcounting : Drawn s s.counting := ⟨rfl, id⟩
  exact (hcounting.trans (drawn_bound body _)).trans (drawn_continued _ _ _)

/-- The budget of a session lets the request count. -/
def withinRequests (ρ : Router) (s : Scope) : Bool :=
  ρ.settings.budget.sessionRequests = 0 || s.requests < ρ.settings.budget.sessionRequests

/-- The request breaks off the exchange that a registered scope waits for. -/
def breaksOff (ρ : Router) (s : Scope) (messages : List Json) : Bool :=
  (if s.pinned then none else s.boundary).any fun boundary =>
    !s.implicit && decide (ρ.neighbours.replay boundary messages = .incomplete)

/-- The state of a request whose scope was written. -/
def Prep.inScope (p : Prep ρ) (i : Slot) (t : Scope) : Prep ρ :=
  { p with gateway := p.gateway.setScope i t, ticket := { p.ticket with scope := some i } }

theorem setScope_idem {count : Nat} (g : GatewayContext count) (i : Slot) (s t : Scope) :
    (g.setScope i s).setScope i t = g.setScope i t := by
  unfold GatewayContext.setScope
  rw [Function.update_idem]

theorem with_holder {s t : Scope} (h : t.toHolder = s.toHolder) :
    { t with toHolder := s.toHolder } = t := by
  rw [← h]

section Runs

variable (p : Prep ρ) (i : Slot) (t : Scope)

@[simp] theorem scopes_inScope : (p.inScope i t).gateway.scopes i = t :=
  scopes_setScope_self p.gateway i t

theorem run_work_inScope (f : Scope → Scope) :
    (work i f).run (p.inScope i t) =
      .ok () (p.inScope i { f t with toHolder := t.toHolder }) := by
  have hrun : (work i f).run (p.inScope i t) = .ok () { p.inScope i t with
      gateway := (p.inScope i t).gateway.setScope i
        { f ((p.inScope i t).gateway.scopes i) with
          toHolder := ((p.inScope i t).gateway.scopes i).toHolder } } := rfl
  rw [hrun, scopes_inScope]
  unfold Prep.inScope
  rw [setScope_idem]

theorem run_ensure (b : Bool) (status : Nat) :
    (ensure b status).run p = if b = true then .ok () p else .error status p := by
  unfold ensure
  split <;> rfl

theorem run_scopeAt : (scopeAt i).run (p.inScope i t) = .ok t (p.inScope i t) := by
  have hrun : (scopeAt i).run (p.inScope i t) =
      .ok ((p.inScope i t).gateway.scopes i) (p.inScope i t) := rfl
  rw [hrun, scopes_inScope]

theorem run_get : (get : Prepare ρ (Prep ρ)).run p = .ok p p := rfl

theorem run_countRequest :
    (countRequest i).run (p.inScope i t) =
      if withinRequests ρ t = true then .ok () (p.inScope i { t with requests := t.requests + 1 })
      else .error 429 (p.inScope i t) := by
  unfold countRequest
  rw [run_bind_ok (run_scopeAt p i t)]
  have hensure := run_ensure (p.inScope i t) (withinRequests ρ t) 429
  by_cases hwithin : withinRequests ρ t = true
  · rw [if_pos hwithin] at hensure ⊢
    unfold withinRequests at hensure
    rw [run_bind_ok hensure, run_work_inScope]
  · rw [if_neg hwithin] at hensure ⊢
    unfold withinRequests at hensure
    rw [run_bind_error hensure]

theorem replay_goesOn (boundary : Boundary) (messages : List Json) :
    ((if t.implicit then ToolStatus.complete else ρ.neighbours.replay boundary messages) ≠
        .incomplete || t.implicit) =
      !(!t.implicit && decide (ρ.neighbours.replay boundary messages = .incomplete)) := by
  cases t.implicit with
  | true => rfl
  | false => cases ρ.neighbours.replay boundary messages <;> rfl

theorem run_checkContinuity (own : UInt32) :
    (checkContinuity i own).run (p.inScope i t) =
      if breaksOff ρ t (elementsAt p.body "messages") = true then .error 409 (p.inScope i t)
      else .ok () (p.inScope i (t.continued ρ own (elementsAt p.body "messages"))) := by
  have hbody : (p.inScope i t).body = p.body := rfl
  unfold checkContinuity
  rw [run_bind_ok (run_scopeAt p i t), run_bind_ok (run_get _)]
  dsimp only
  rw [hbody]
  unfold breaksOff Scope.continued
  cases (if t.pinned then none else t.boundary) with
  | none =>
      dsimp only
      rw [run_work_inScope]
      rfl
  | some boundary =>
      have hensure := run_ensure (p.inScope i t) ((if t.implicit then ToolStatus.complete else
        ρ.neighbours.replay boundary (elementsAt p.body "messages")) ≠ .incomplete || t.implicit) 409
      have hgoes := replay_goesOn (ρ := ρ) t boundary (elementsAt p.body "messages")
      dsimp only [Option.any_some]
      by_cases hbreaks : (!t.implicit && decide (ρ.neighbours.replay boundary
          (elementsAt p.body "messages") = .incomplete)) = true
      · rw [hbreaks, Bool.not_true] at hgoes
        rw [if_neg (ne_true_of_eq_false hgoes)] at hensure
        rw [if_pos hbreaks]
        exact run_bind_error hensure
      · rw [(Bool.not_eq_true _).mp hbreaks, Bool.not_false] at hgoes
        rw [if_pos hgoes] at hensure
        rw [if_neg hbreaks, run_bind_ok hensure, run_work_inScope]
        rfl

/-- How the contract ends: the request is over the budget, it breaks off a registered boundary, or
it goes on with the contracted scope. -/
theorem run_contract :
    (contract i).run p =
      if withinRequests ρ (p.gateway.scopes i) = true then
        if breaksOff ρ ((p.gateway.scopes i).counting.bound ρ p.body)
            (elementsAt p.body "messages") = true then
          .error 409 (p.inScope i ((p.gateway.scopes i).counting.bound ρ p.body))
        else .ok () (p.inScope i ((p.gateway.scopes i).contracted ρ p.body))
      else .error 429 (p.inScope i { p.gateway.scopes i with reasoningAdded := none }) := by
  have hclear : (work i fun s => { s with reasoningAdded := none }).run p = .ok ()
      { p with gateway :=
          p.gateway.setScope i { p.gateway.scopes i with reasoningAdded := none } } := rfl
  have hticket : (modifyTicket fun t => { t with scope := some i }).run
        { p with gateway :=
            p.gateway.setScope i { p.gateway.scopes i with reasoningAdded := none } } =
      .ok () (p.inScope i { p.gateway.scopes i with reasoningAdded := none }) := rfl
  have hcount := run_countRequest p i { p.gateway.scopes i with reasoningAdded := none }
  unfold contract
  rw [run_bind_ok hclear, run_bind_ok hticket]
  by_cases hwithin : withinRequests ρ (p.gateway.scopes i) = true
  · have hkept : withinRequests ρ { p.gateway.scopes i with reasoningAdded := none } = true :=
      hwithin
    rw [if_pos hkept] at hcount
    rw [if_pos hwithin, run_bind_ok hcount, run_bind_ok (run_get _)]
    have hbound : (work i fun s =>
          let s := if s.implicit then
            { s with seenMessages := (elementsAt p.body "messages").length } else s
          if (requestOptions ρ.jansson p.body).isNone then { s with pinned := true }
          else if s.pinned then s
          else bindContract ((requestOptions ρ.jansson p.body).getD (0, [])).1
            ((requestOptions ρ.jansson p.body).getD (0, [])).2 (contractProjection p.body) s).run
          (p.inScope i (p.gateway.scopes i).counting) =
        .ok () (p.inScope i ((p.gateway.scopes i).counting.bound ρ p.body)) := by
      rw [run_work_inScope]
      congr 2
      have hsame := (drawn_bound (ρ := ρ) p.body (p.gateway.scopes i).counting).holder
      refine Eq.trans ?_ (with_holder hsame)
      unfold Scope.bound
      cases requestOptions ρ.jansson p.body <;> rfl
    have hcontinuity := run_checkContinuity p i ((p.gateway.scopes i).counting.bound ρ p.body)
      (ownRequirements ρ p.body)
    exact (run_bind_ok hbound).trans hcontinuity
  · have hover : ¬ withinRequests ρ { p.gateway.scopes i with reasoningAdded := none } = true :=
      hwithin
    rw [if_neg hover] at hcount
    rw [if_neg hwithin]
    exact run_bind_error hcount

end Runs

/-! ## From the contract to the gate -/

section Stages

variable {c : Call} {vetting : Json → Endpoint → Gated} {p q : Prep ρ}

theorem setModel_eq_ok {model : Option Text} (h : (setModel model).run p = .ok () q) :
    ∃ body, p.body.set? "model" (model.map .string) = some body ∧ q = { p with body } := by
  have hrun : setModel model p = .ok () q := h
  unfold setModel at hrun
  split at hrun
  · cases hrun
  · next body hbody =>
      cases hrun
      exact ⟨body, hbody, rfl⟩

/-- A pinned session goes to its owner. -/
theorem placePinned_eq_ok {s : Scope} (h : (placePinned s).run p = .ok () q) :
    ∃ body, p.body.set? "model" (some (.string s.model)) = some body ∧
      q = { p with
        body
        endpoint := s.endpoint
        ticket := { p.ticket with reason := "pin" } } := by
  obtain ⟨_, p₁, hendpoint, h₁⟩ := bind_eq_ok.mp h
  cases hendpoint
  obtain ⟨_, p₂, hmodel, hticket⟩ := bind_eq_ok.mp h₁
  obtain ⟨body, hbody, rfl⟩ := setModel_eq_ok hmodel
  cases hticket
  exact ⟨body, hbody, rfl⟩

theorem contract_eq_ok {i : Slot} (h : (contract i).run p = .ok () q) :
    withinRequests ρ (p.gateway.scopes i) = true ∧
      breaksOff ρ ((p.gateway.scopes i).counting.bound ρ p.body) (elementsAt p.body "messages") =
        false ∧
      q = p.inScope i ((p.gateway.scopes i).contracted ρ p.body) := by
  rw [run_contract] at h
  split at h
  · next hwithin =>
      split at h
      · cases h
      · next hgoes =>
          cases h
          exact ⟨hwithin, Bool.not_eq_true _ ▸ hgoes, rfl⟩
  · cases h

/-- How a scoped request was placed after its contract. -/
inductive PlacedIn (c : Call) (vetting : Json → Endpoint → Gated) (i : Slot) (spend : Rat)
    (p : Prep ρ) : EffortStep ρ → Prep ρ → Prop where
  | explicit : c.automatic = false → PlacedIn c vetting i spend p none p
  | pinned (body : Json) : c.automatic = true → (p.gateway.scopes i).pinned = true →
      (p.gateway.scopes i).owner = true →
      p.body.set? "model" (some (.string (p.gateway.scopes i).model)) = some body →
      PlacedIn c vetting i spend p none { p with
        body
        endpoint := (p.gateway.scopes i).endpoint
        ticket := { p.ticket with reason := "pin" } }
  | selected {q : Prep ρ} {effort : EffortStep ρ} : c.automatic = true →
      ((p.gateway.scopes i).pinned && (p.gateway.scopes i).owner) = false →
      (placeSelected c vetting i spend).run p = .ok effort q →
      PlacedIn c vetting i spend p effort q

theorem placeScoped_eq_ok {i : Slot} {effort : EffortStep ρ} {spend : Rat}
    (h : (placeScoped c vetting (some i)).run p = .ok (effort, spend) q) :
    (contract i).run p = .ok () (p.inScope i ((p.gateway.scopes i).contracted ρ p.body)) ∧
      spend = spendOf (ρ := ρ) (p.gateway.scopes i) ∧
      PlacedIn c vetting i spend (p.inScope i ((p.gateway.scopes i).contracted ρ p.body)) effort
        q := by
  obtain ⟨s, p₁, hscope, h₁⟩ := bind_eq_ok.mp h
  cases hscope
  obtain ⟨_, p₂, hcontract, h₂⟩ := bind_eq_ok.mp h₁
  obtain ⟨-, -, rfl⟩ := contract_eq_ok hcontract
  refine ⟨hcontract, ?_⟩
  dsimp only at h₂
  by_cases hautomatic : c.automatic = true
  · rw [if_pos hautomatic] at h₂
    obtain ⟨_, p₃, hplace, h₃⟩ := bind_eq_ok.mp h₂
    cases h₃
    refine ⟨rfl, ?_⟩
    obtain ⟨s, p₄, hscope, h₄⟩ := bind_eq_ok.mp hplace
    cases hscope
    split at h₄
    · next hpinned =>
        obtain ⟨_, p₅, hpin, h₅⟩ := bind_eq_ok.mp h₄
        cases h₅
        obtain ⟨body, hbody, rfl⟩ := placePinned_eq_ok hpin
        rw [Bool.and_eq_true] at hpinned
        exact .pinned body hautomatic hpinned.1 hpinned.2 hbody
    · next hpinned => exact .selected hautomatic (Bool.not_eq_true _ ▸ hpinned) h₄
  · rw [if_neg hautomatic] at h₂
    obtain ⟨_, p₃, hplace, h₃⟩ := bind_eq_ok.mp h₂
    cases hplace
    cases h₃
    exact ⟨rfl, .explicit (Bool.not_eq_true _ ▸ hautomatic)⟩

/-- A move off a cooling candidate. -/
structure Cooled (c : Call) (vetting : Json → Endpoint → Gated) (scope : Option Slot)
    (p : Prep ρ) (body : Json) (endpoint : Endpoint) (source : ρ.Index) : Prop where
  automatic : c.automatic = true
  serves : ρ.candidateOf p.endpoint (modelOf p.body) = some source
  cooling : p.gateway.cooling ρ source c.now = true
  target : failOver ρ p.gateway vetting scope
    (p.gateway.mustBePrivate ρ.settings.implicit scope c.headers) p.body source 0 c.now =
      some (body, endpoint)

theorem leaveCooling_eq_ok {scope : Option Slot} {healthMoved : Bool}
    (h : (leaveCooling c vetting scope).run p = .ok healthMoved q) :
    (healthMoved = false ∧ q = p) ∨
      (healthMoved = true ∧ ∃ body endpoint source, Cooled c vetting scope p body endpoint source ∧
        q = { p with
          body
          endpoint
          ticket := { p.ticket with reason := "cooldown", cost := none } }) := by
  obtain ⟨_, p₁, hget, h₁⟩ := bind_eq_ok.mp h
  cases hget
  split at h₁
  · cases h₁
    exact .inl ⟨rfl, rfl⟩
  · next source hsource =>
      split at h₁
      · cases h₁
        exact .inl ⟨rfl, rfl⟩
      · next hgo =>
          simp only [Bool.not_eq_true, Bool.not_eq_false', Bool.and_eq_true] at hgo
          dsimp only at h₁
          split at h₁
          · cases h₁
            exact .inl ⟨rfl, rfl⟩
          · next body endpoint htarget =>
              obtain ⟨_, p₂, hmove, h₂⟩ := bind_eq_ok.mp h₁
              cases hmove
              obtain ⟨_, p₃, hticket, h₃⟩ := bind_eq_ok.mp h₂
              cases hticket
              cases h₃
              exact .inr ⟨rfl, body, endpoint, source, ⟨hgo.1.1, hsource, hgo.2, htarget⟩, rfl⟩

theorem requested_eq_ok {scope : Option Slot} {request : Option (Endpoint × Text)}
    (h : (requested scope).run p = .ok request q) :
    q = p ∧ ∀ i, scope = some i → ∃ model, modelOf p.body = some model ∧ model.length ≤ 128 ∧
      request = some (p.endpoint, model) := by
  unfold requested at h
  split at h
  · next hnone =>
      cases h
      refine ⟨rfl, fun i hi => ?_⟩
      rw [hi] at hnone
      cases hnone
  · obtain ⟨_, p₁, hget, h₁⟩ := bind_eq_ok.mp h
    cases hget
    split at h₁
    · cases h₁
    · next model hmodel =>
        cases h₁
        obtain ⟨hmodel, hshort⟩ := Option.filter_eq_some_iff.mp hmodel
        exact ⟨rfl, fun _ _ => ⟨model, hmodel, of_decide_eq_true hshort, rfl⟩⟩

/-- What the restricted override made of the request. -/
inductive Restricted (c : Call) (scope : Option Slot) (p : Prep ρ) : Prep ρ → Prop where
  | free : p.gateway.mustBePrivate ρ.settings.implicit scope c.headers = false →
      Restricted c scope p p
  | explicit : p.gateway.mustBePrivate ρ.settings.implicit scope c.headers = true →
      c.automatic = false → p.endpoint = .priv → Restricted c scope p p
  | rewritten (body : Json) : p.gateway.mustBePrivate ρ.settings.implicit scope c.headers = true →
      c.automatic = true →
      p.body.set? "model" (ρ.runtime.config.privateModel.map .string) = some body →
      Restricted c scope p { p with
        body
        endpoint := .priv
        ticket := { p.ticket with reason := "restricted", cost := none } }

theorem restrict_eq_ok {scope : Option Slot} (h : (restrict c scope).run p = .ok () q) :
    Restricted c scope p q := by
  obtain ⟨_, p₁, hget, h₁⟩ := bind_eq_ok.mp h
  cases hget
  split at h₁
  · next hmust =>
      split at h₁
      · next hexplicit =>
          obtain ⟨hpriv, rfl⟩ := ensure_eq_ok h₁
          exact .explicit hmust (by simpa using hexplicit) (of_decide_eq_true hpriv)
      · next hautomatic =>
          obtain ⟨_, p₂, hendpoint, h₂⟩ := bind_eq_ok.mp h₁
          cases hendpoint
          obtain ⟨_, p₃, hmodel, h₃⟩ := bind_eq_ok.mp h₂
          obtain ⟨body, hbody, rfl⟩ := setModel_eq_ok hmodel
          cases h₃
          exact .rewritten body hmust (by simpa using hautomatic) hbody
  · next hfree =>
      cases h₁
      exact .free (Bool.not_eq_true _ ▸ hfree)

/-- The effort that was added to the body and noted in the scope. -/
inductive Efforted (i : Slot) (step : EffortStep ρ) (p : Prep ρ) : Prep ρ → Prop where
  | plain : Efforted i step p p
  | added (high : Bool) (k : ρ.Index) : step = some (high, k) →
      ρ.candidateOf p.endpoint (modelOf p.body) = some k →
      Efforted i step p { p with
        body := (addEffort (ρ.candidate k) high (ρ.settings.reasoning = .steps) p.body).2
        gateway := p.gateway.setScope i { p.gateway.scopes i with
          reasoningAdded :=
            (addEffort (ρ.candidate k) high (ρ.settings.reasoning = .steps) p.body).1 } }

theorem askEffort_eq_ok {i : Slot} {step : EffortStep ρ}
    (h : (askEffort (some i) step).run p = .ok () q) : Efforted i step p q := by
  unfold askEffort at h
  split at h
  · next j high k hj =>
      obtain rfl := Option.some.inj hj
      obtain ⟨_, p₁, hget, h₁⟩ := bind_eq_ok.mp h
      cases hget
      split at h₁
      · next hserves =>
          obtain ⟨_, p₂, hbody, h₂⟩ := bind_eq_ok.mp h₁
          cases hbody
          cases h₂
          exact .added high k rfl hserves
      · cases h₁
        exact .plain
  · cases h
    exact .plain

/-- The settling of a scoped request, stage by stage. -/
theorem settle_eq_ok {i : Slot} {freeRow : Option Nat} {placed : Placed}
    (h : (settle c vetting freeRow (some i)).run p = .ok placed q) :
    ∃ effort p₁ p₂ p₃, (placeScoped c vetting (some i)).run p = .ok (effort, placed.spend) p₁ ∧
      (leaveCooling c vetting (some i)).run p₁ = .ok placed.healthMoved p₂ ∧
      (requested (some i)).run p₂ = .ok placed.request p₂ ∧
      (restrict c (some i)).run p₂ = .ok () p₃ ∧
      (askEffort (some i) effort).run p₃ = .ok () q := by
  unfold settle at h
  obtain ⟨found, p₁, hplaced, h₁⟩ := bind_eq_ok.mp h
  obtain ⟨effort, spend⟩ := found
  obtain ⟨healthMoved, p₂, hcooling, h₂⟩ := bind_eq_ok.mp h₁
  obtain ⟨request, p₃, hrequested, h₃⟩ := bind_eq_ok.mp h₂
  obtain ⟨_, p₄, hrestrict, h₄⟩ := bind_eq_ok.mp h₃
  obtain ⟨_, p₅, heffort, h₅⟩ := bind_eq_ok.mp h₄
  cases h₅
  obtain ⟨rfl, -⟩ := requested_eq_ok hrequested
  exact ⟨effort, p₁, p₃, p₄, hplaced, hcooling, hrequested, hrestrict, heffort⟩

end Stages

end Recursant.Gateway
