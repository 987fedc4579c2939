import Recursant.Gateway.Capacity
import Recursant.Gateway.Pins

/-!
# The restricted override

A request that must be private is addressed to the configured private model after its destination
was chosen, whichever private candidate that was.
-/

namespace Recursant.Gateway

open Compliance (Gated Runtime Verdict)
open Stateful

variable {ρ : Router}

/-! ## Up to the override -/

/-- What `prepare` has decided when it comes to the override. -/
structure Destined (ρ : Router) where
  freeRow : Option Nat
  scope : Option Slot
  effort : EffortStep ρ
  spend : Rat
  healthMoved : Bool

section Stages

variable (c : Call) (vetting : Json → Endpoint → Gated)

/-- `prepare` up to the override. -/
def destine : Prepare ρ (Destined ρ) := do
  let freeRow ← enter c
  let scope ← resolve c vetting
  let (effort, spend) ← placeScoped c vetting scope
  let healthMoved ← leaveCooling c vetting scope
  return ⟨freeRow, scope, effort, spend, healthMoved⟩

/-- The rest of `prepare`. -/
def carryOut (x : Destined ρ) : Prepare ρ Unit := do
  let request ← requested x.scope
  restrict c x.scope
  askEffort x.scope x.effort
  finalGate vetting
  conclude c ⟨x.freeRow, x.scope, x.spend, x.healthMoved, request⟩

theorem prepare_eq : prepare (ρ := ρ) c vetting = (do
    let x ← destine c vetting
    carryOut c vetting x) := by
  unfold prepare destine settle carryOut
  simp only [bind_assoc, pure_bind]

end Stages

section Runs

variable {c : Call} {vetting : Json → Endpoint → Gated} {p q : Prep ρ} {scope : Option Slot}

/-- What a scope is checked for after the gate. -/
structure Unmoved (p q : Prep ρ) : Prop where
  endpoint : q.endpoint = p.endpoint
  model : modelOf q.body = modelOf p.body
  scopes : ∀ i, (q.gateway.scopes i).record = (p.gateway.scopes i).record ∧
    (q.gateway.scopes i).pinned = (p.gateway.scopes i).pinned ∧
    (q.gateway.scopes i).owner = (p.gateway.scopes i).owner

theorem modelOf_addEffort (k : Candidate) (high override : Bool) (body : Json) :
    modelOf (addEffort k high override body).2 = modelOf body := by
  have hcleared : ∀ f, modelOf (clearEffort f override body) = modelOf body := by
    intro f
    have hkept : displaced (some f) (text "model") = false := by cases f <;> decide
    unfold modelOf
    rw [get?_clearEffort, hkept, Bool.and_false, if_neg Bool.false_ne_true]
  unfold addEffort
  split
  · rfl
  · next efforts _ =>
      generalize (if high then efforts.high else efforts.low) = t
      dsimp only
      split
      · rfl
      · split
        · exact hcleared _
        · split
          · exact hcleared _
          · next changed hset =>
              have hfield : text "model" ≠ efforts.family.field := by
                cases efforts.family <;> decide
              rw [← hcleared efforts.family]
              unfold modelOf
              rw [Json.get?_set? hset, if_neg hfield]

theorem Unmoved.refl (p : Prep ρ) : Unmoved p p := ⟨rfl, rfl, fun _ => ⟨rfl, rfl, rfl⟩⟩

theorem Efforted.unmoved {i : Slot} {step : EffortStep ρ} (h : Efforted i step p q) :
    Unmoved p q := by
  cases h with
  | plain => exact .refl p
  | added high k _ _ =>
      refine ⟨rfl, modelOf_addEffort _ _ _ _, fun j => ?_⟩
      by_cases hji : j = i
      · rw [hji, scopes_setScope_self]
        exact ⟨rfl, rfl, rfl⟩
      · rw [scopes_setScope_of_ne _ _ hji]
        exact ⟨rfl, rfl, rfl⟩

/-- Asking an effort always goes through and moves nothing. -/
theorem askEffort_goes (scope : Option Slot) (step : EffortStep ρ) (p : Prep ρ) :
    ∃ q, (askEffort scope step).run p = .ok () q ∧ Unmoved p q := by
  cases hrun : (askEffort scope step).run p with
  | error status q =>
      unfold askEffort at hrun
      split at hrun
      · cases bind_eq_error.mp hrun with
        | inl hget => cases hget
        | inr hrun =>
            obtain ⟨_, p₁, hget, hrun⟩ := hrun
            cases hget
            split at hrun
            · cases bind_eq_error.mp hrun with
              | inl hbody => cases hbody
              | inr hwork =>
                  obtain ⟨_, p₂, -, hwork⟩ := hwork
                  cases hwork
            · cases hrun
      · cases hrun
  | ok _ q =>
      refine ⟨q, rfl, ?_⟩
      cases scope with
      | some i => exact (askEffort_eq_ok hrun).unmoved
      | none =>
          cases hrun
          exact .refl p

/-- Whether the gate admits a body for a private destination does not depend on the body. -/
theorem vet_admits_priv (r : Runtime) (verdict : Json → Option Text → Verdict) (a b : Json) :
    (vet r verdict a .priv).admitted = (vet r verdict b .priv).admitted := by
  unfold vet
  split
  · rfl
  · split
    · rfl
    · rw [Compliance.gateWith_priv, Compliance.gateWith_priv]

theorem finalGate_goes {r : Runtime} {verdict : Json → Option Text → Verdict} {p : Prep ρ}
    (hpriv : p.endpoint = .priv) (hadmitted : ∃ b, (vet r verdict b .priv).admitted = true) :
    ∃ q, (finalGate (vet r verdict)).run p = .ok () q ∧ q.body = p.body ∧ q.endpoint = p.endpoint ∧
      q.gateway = p.gateway := by
  obtain ⟨b, hb⟩ := hadmitted
  have hadmits : (vet r verdict p.body p.endpoint).admitted = true := by
    rw [hpriv, vet_admits_priv r verdict p.body b]
    exact hb
  have hkept := vet_priv r verdict p.body
  rw [← hpriv] at hkept
  cases hrun : (finalGate (vet r verdict)).run p with
  | ok _ q =>
      obtain ⟨hgated, hq⟩ := finalGate_eq_ok hrun
      rw [hgated] at hkept
      exact ⟨q, rfl, hkept.1, hkept.2, by rw [hq]⟩
  | error status q =>
      unfold finalGate at hrun
      cases bind_eq_error.mp hrun with
      | inl hget => cases hget
      | inr hrun =>
          obtain ⟨_, p₁, hget, hrun⟩ := hrun
          cases hget
          cases bind_eq_error.mp hrun with
          | inl hmodify => cases hmodify
          | inr hensure =>
              obtain ⟨_, p₂, -, hensure⟩ := hensure
              exact absurd ((ensure_eq_error hensure).1.symm.trans hadmits) (by decide)

theorem requested_goes {model : Text} (hmodel : modelOf p.body = some model)
    (hshort : model.length ≤ 128) : ∃ request, (requested scope).run p = .ok request p ∧
      ∀ i, scope = some i → request = some (p.endpoint, model) := by
  cases scope with
  | none => exact ⟨none, rfl, nofun⟩
  | some i =>
      refine ⟨some (p.endpoint, model), ?_, fun _ _ => rfl⟩
      have hnamed : (modelOf p.body).filter (·.length ≤ 128) = some model := by
        rw [hmodel, Option.filter_some, decide_eq_true hshort]
        rfl
      unfold requested
      rw [Option.isNone_some, if_neg Bool.false_ne_true, run_bind_ok (run_get p), hnamed]
      rfl

theorem restrict_goes {body : Json}
    (hmust : p.gateway.mustBePrivate ρ.settings.implicit scope c.headers = true)
    (hautomatic : c.automatic = true)
    (hbody : p.body.set? "model" (ρ.runtime.config.privateModel.map .string) = some body) :
    ∃ q, (restrict c scope).run p = .ok () q ∧ q.body = body ∧ q.endpoint = .priv ∧
      q.gateway = p.gateway := by
  have hset : (setModel ρ.runtime.config.privateModel).run { p with endpoint := .priv } =
      .ok () { p with endpoint := .priv, body := body } := by
    show setModel ρ.runtime.config.privateModel { p with endpoint := .priv } = _
    unfold setModel
    rw [hbody]
  refine ⟨{ p with
    body := body
    endpoint := .priv
    ticket := { p.ticket with reason := "restricted", cost := none } }, ?_, rfl, rfl, rfl⟩
  unfold restrict
  rw [run_bind_ok (run_get p), if_pos hmust, hautomatic, Bool.not_true, if_neg Bool.false_ne_true]
  have hplace : (modify fun p : Prep ρ => { p with endpoint := .priv } : Prepare ρ Unit).run p =
      .ok () { p with endpoint := .priv } := rfl
  rw [run_bind_ok hplace, run_bind_ok hset]
  rfl

theorem consistent_automatic {healthMoved : Bool} {request : Option (Endpoint × Text)} {s : Scope}
    {endpoint : Endpoint} {model : Text} (hrequest : request = some (endpoint, model))
    (howned : s.pinned = true → s.owner = true → healthMoved = false →
      endpoint = s.endpoint ∧ model = s.model) :
    consistent true healthMoved request s endpoint model = true := by
  unfold consistent
  dsimp only
  rw [decide_eq_true hrequest, Bool.or_true, Bool.true_and, Bool.true_or, Bool.true_or, Bool.true_and]
  by_cases hbound : (s.pinned && s.owner && !healthMoved) = true
  · simp only [Bool.and_eq_true, Bool.not_eq_true'] at hbound
    obtain ⟨hendpoint, hmodel⟩ := howned hbound.1.1 hbound.1.2 hbound.2
    rw [decide_eq_true hendpoint, decide_eq_true hmodel, Bool.and_self, Bool.or_true]
  · rw [(Bool.not_eq_true _).mp hbound]
    rfl

/-- A request that the checks after the gate let through is committed. -/
theorem conclude_goes {placed : Placed} {d : Prep ρ} {model : Text}
    (hmodel : modelOf d.body = some model) (hshort : model.length ≤ 128)
    (hspend : placed.scope.isSome = true → ρ.settings.budget.sessionUsd > 0 → placed.spend ≥ 1 →
      (ρ.candidateOf d.endpoint (modelOf d.body)).any (fun i => (ρ.candidate i).zeroPrice) = true)
    (hconsistent : ∀ i, placed.scope = some i → consistent c.automatic placed.healthMoved
      placed.request (d.gateway.scopes i) d.endpoint model = true) :
    ∃ q, (conclude c placed).run d = .ok () q ∧ q.body = d.body ∧ q.endpoint = d.endpoint := by
  cases hrun : (conclude c placed).run d with
  | ok _ q =>
      have hconcluded := conclude_eq_ok hrun
      exact ⟨q, rfl, hconcluded.body, hconcluded.endpoint⟩
  | error status q =>
      exfalso
      cases (conclude_eq_error hrun).2 with
      | overspent hscope hbudget hover hpriced =>
          exact absurd (hpriced.symm.trans (hspend hscope hbudget hover)) (by decide)
      | unnamed i _ hnone =>
          rw [hmodel, Option.filter_some, decide_eq_true hshort] at hnone
          cases hnone
      | inconsistent i other hi hother hfalse =>
          obtain rfl := Option.some.inj (hmodel.symm.trans hother)
          exact absurd (hfalse.symm.trans (hconsistent i hi)) (by decide)

end Runs

/-! ## What was destined -/

section Destined

variable {c : Call} {vetting : Json → Endpoint → Gated} {p m : Prep ρ} {x : Destined ρ}

/-- The labels and the scopes of a gateway, and how many scopes it has opened. -/
def Prep.table (p : Prep ρ) : List Text × Nat × (Slot → Scope) :=
  (p.gateway.labels, p.gateway.opened, p.gateway.scopes)

theorem table_usableContext (i : Slot) (now : Nat) :
    Within (Same Prep.table) (usableContext (ρ := ρ) i now) := by
  have hexact : ∀ row, Within (Same Prep.table) (exactRow (ρ := ρ) row now) :=
    fun row p =>
      have haside := aside_exact p.gateway ρ.settings.authorization row now
      Prod.ext haside.labels (Prod.ext haside.opened haside.scopes)
  unfold usableContext
  refine Within.bind (fun p => rfl) fun s => ?_
  refine Within.bind (fun p => rfl) fun snapshot => ?_
  split
  · exact within_pure _
  · refine (hexact _).bind fun answer => ?_
    exact within_ite (fun _ => within_pure _) fun _ => within_pure _

theorem table_setModel (model : Option Text) :
    Within (Same Prep.table) (setModel (ρ := ρ) model) := by
  intro p
  show Same Prep.table p (final (setModel model p))
  unfold setModel
  split <;> rfl

/-- Selecting a destination writes to no scope. -/
theorem table_placeSelected (i : Slot) (spend : Rat) :
    Within (Same Prep.table) (placeSelected (ρ := ρ) c vetting i spend) := by
  unfold placeSelected
  refine (table_usableContext i c.now).bind fun context => ?_
  refine Within.bind within_get fun p => ?_
  refine Within.bind (within_ite (fun _ => within_pure _) fun _ => within_throw _) fun _ => ?_
  dsimp only
  split
  · exact within_throw _
  · apply within_ite
    · intro _
      refine Within.bind (fun p => rfl) fun _ => ?_
      refine Within.bind ?_ fun _ => within_pure _
      exact Within.bind (fun p => rfl) fun _ => table_setModel _
    · exact fun _ => within_pure _

theorem destine_eq_ok (h : (destine c vetting).run p = .ok x m) : ∃ a b p₁,
    (enter c).run p = .ok x.freeRow a ∧ (resolve c vetting).run a = .ok x.scope b ∧
      (placeScoped c vetting x.scope).run b = .ok (x.effort, x.spend) p₁ ∧
      (leaveCooling c vetting x.scope).run p₁ = .ok x.healthMoved m := by
  unfold destine at h
  obtain ⟨freeRow, a, henter, h₁⟩ := bind_eq_ok.mp h
  obtain ⟨scope, b, hresolve, h₂⟩ := bind_eq_ok.mp h₁
  obtain ⟨found, p₁, hplaced, h₃⟩ := bind_eq_ok.mp h₂
  obtain ⟨effort, spend⟩ := found
  obtain ⟨healthMoved, p₂, hcooling, h₄⟩ := bind_eq_ok.mp h₃
  cases h₄
  exact ⟨a, b, p₁, henter, hresolve, hplaced, hcooling⟩

/-- A pinned session that is not moved is destined for its owner. -/
theorem destine_owned (h : (destine c vetting).run p = .ok x m) (hautomatic : c.automatic = true)
    {i : Slot} (hscope : x.scope = some i) (hpinned : (m.gateway.scopes i).pinned = true)
    (howner : (m.gateway.scopes i).owner = true) (hstays : x.healthMoved = false) :
    m.endpoint = (m.gateway.scopes i).endpoint ∧
      modelOf m.body = some (m.gateway.scopes i).model := by
  obtain ⟨a, b, p₁, -, -, hplaced, hcooling⟩ := destine_eq_ok h
  rw [hscope] at hplaced hcooling
  obtain ⟨-, -, hplaced⟩ := placeScoped_eq_ok hplaced
  have hm : m = p₁ := by
    cases leaveCooling_eq_ok hcooling with
    | inl hsame => exact hsame.2
    | inr hmoved => exact absurd (hmoved.1.symm.trans hstays) (by decide)
  rw [hm] at hpinned howner ⊢
  generalize x.effort = effort at hplaced
  cases hplaced with
  | explicit hexplicit => exact absurd (hexplicit.symm.trans hautomatic) (by decide)
  | pinned body _ _ _ hbody => exact ⟨rfl, modelOf_set? hbody⟩
  | selected _ hselected hrun =>
      have hplacing : Within (Same Prep.table) (placeSelected (ρ := ρ) c vetting i x.spend) :=
        table_placeSelected i x.spend
      have hscopes := hplacing (b.inScope i ((b.gateway.scopes i).contracted ρ b.body))
      rw [hrun] at hscopes
      have hkept := congrFun (congrArg (fun table => table.2.2) hscopes) i
      have hkept : p₁.gateway.scopes i = _ := hkept
      rw [hkept] at hpinned howner
      rw [show ((b.inScope i ((b.gateway.scopes i).contracted ρ b.body)).gateway.scopes i).pinned =
        true from hpinned] at hselected
      exact absurd (hselected.symm.trans howner) (by decide)

end Destined

/-! ## The override -/

section Override

variable {s : State ρ} {e : Exchange ρ.settings.count} {now : Nat}
  {verdict : Json → Option Text → Verdict} {polled : List InterpreterResult} {x : Destined ρ}
  {m : Prep ρ}

/-- The session's budget still lets the candidate be used. -/
def affordable (x : Destined ρ) (k : ρ.Index) : Prop :=
  x.scope.isSome = true → ρ.settings.budget.sessionUsd > 0 → x.spend ≥ 1 →
    (ρ.candidate k).zeroPrice = true

/-- A private candidate that was chosen for a request before the override: final M2 permits it and
it declares what the session requires. -/
structure ChosenPrivate (vetting : Json → Endpoint → Gated) (x : Destined ρ) (m : Prep ρ)
    (k : ρ.Index) : Prop where
  endpoint : m.endpoint = .priv
  serves : ρ.candidateOf .priv (modelOf m.body) = some k
  permitted : permits vetting m.body (ρ.candidate k).destination = true
  declares : x.scope.all (fun i => (ρ.candidate k).declares (m.gateway.scopes i).requirements
    (m.gateway.scopes i).effort) = true

instance (vetting : Json → Endpoint → Gated) (x : Destined ρ) (m : Prep ρ) (k : ρ.Index) :
    Decidable (ChosenPrivate vetting x m k) :=
  decidable_of_iff (m.endpoint = .priv ∧ ρ.candidateOf .priv (modelOf m.body) = some k ∧
      permits vetting m.body (ρ.candidate k).destination = true ∧
      x.scope.all (fun i => (ρ.candidate k).declares (m.gateway.scopes i).requirements
        (m.gateway.scopes i).effort) = true)
    ⟨fun h => ⟨h.1, h.2.1, h.2.2.1, h.2.2.2⟩,
      fun h => ⟨h.endpoint, h.serves, h.permitted, h.declares⟩⟩

/-- The override agrees with the choice exactly when it rewrites the model to the same one: then,
and only then, the request goes to the private candidate chosen for it, as far as the budget lets
it. -/
theorem restricted_placement (hautomatic : e.request.automatic = true)
    (hdestined : (destine (e.call now verdict polled) (vet s.runtime verdict)).run
      (e.prep s.gateway) = .ok x m)
    (hprivate : m.gateway.mustBePrivate ρ.settings.implicit x.scope e.request.headers = true)
    {k : ρ.Index}
    (hchosen : ChosenPrivate (vet s.runtime verdict) x m k) :
    (∃ q, (prepare (e.call now verdict polled) (vet s.runtime verdict)).run (e.prep s.gateway) =
        .ok () q ∧ q.endpoint = .priv ∧
        modelOf q.body = some (ρ.candidate k).destination.model) ↔
      ρ.runtime.config.privateModel = some (ρ.candidate k).destination.model ∧
        affordable x k := by
  have hautomatic : (e.call now verdict polled).automatic = true := hautomatic
  obtain ⟨hdestination, hmodel⟩ := candidateOf_serves hchosen.serves
  obtain ⟨request, hrequest, hadmitted, -, hnamed⟩ := permits_eq_true hchosen.permitted
  have hshort := eq_short hnamed
  rw [prepare_eq, run_bind_ok hdestined]
  unfold carryOut
  constructor
  · intro hdispatched
    obtain ⟨q, hrun, hendpoint, hserved⟩ := hdispatched
    obtain ⟨asked, m₁, hrequested, h₁⟩ := bind_eq_ok.mp hrun
    obtain ⟨rfl, -⟩ := requested_eq_ok hrequested
    obtain ⟨_, m₂, hrestrict, h₂⟩ := bind_eq_ok.mp h₁
    obtain ⟨_, m₃, heffort, h₃⟩ := bind_eq_ok.mp h₂
    obtain ⟨_, m₄, hgate, hconclude⟩ := bind_eq_ok.mp h₃
    obtain ⟨o, ho, hunmoved⟩ := askEffort_goes x.scope x.effort m₂
    obtain rfl : o = m₃ := by
      rw [ho] at heffort
      cases heffort
      rfl
    have hconcluded := conclude_eq_ok hconclude
    obtain ⟨hpm, hpriv⟩ : ρ.runtime.config.privateModel = modelOf m₂.body ∧ m₂.endpoint = .priv := by
      cases restrict_eq_ok hrestrict with
      | free hfree => exact absurd (hfree.symm.trans hprivate) (by decide)
      | explicit _ hexplicit _ => exact absurd (hexplicit.symm.trans hautomatic) (by decide)
      | rewritten body _ _ hbody =>
          refine ⟨?_, rfl⟩
          cases hname : ρ.runtime.config.privateModel with
          | some model =>
              rw [hname] at hbody
              exact (modelOf_set? hbody).symm
          | none =>
              rw [hname] at hbody
              unfold Json.set? at hbody
              split at hbody
              · next hnone => cases hnone
              · cases hbody
    obtain ⟨hgated, -⟩ := finalGate_eq_ok hgate
    have hkept := vet_priv s.runtime verdict o.body
    rw [← hpriv, ← hunmoved.endpoint, hgated] at hkept
    have hbody : m₄.body = o.body := hkept.1
    have hstays : m₄.endpoint = o.endpoint := hkept.2
    have hsame : modelOf m₄.body = some (ρ.candidate k).destination.model := by
      rw [← hconcluded.body]
      exact hserved
    refine ⟨?_, fun hscope hbudget hspend => ?_⟩
    · rw [hpm, ← hunmoved.model, ← hbody]
      exact hsame
    · have hfree := hconcluded.spend hscope hbudget hspend
      rw [hstays, hunmoved.endpoint, hpriv, hsame, ← hmodel, hchosen.serves] at hfree
      exact hfree
  · intro hagrees
    obtain ⟨hpm, hafford⟩ := hagrees
    have hrequests : ∃ request, (requested x.scope).run m = .ok request m ∧
        ∀ i, x.scope = some i → request = some (m.endpoint, _) := requested_goes hmodel hshort
    obtain ⟨asked, hrequested, hasked⟩ := hrequests
    have hset : m.body.set? "model" (ρ.runtime.config.privateModel.map .string) = some request := by
      rw [hpm]
      exact hrequest
    obtain ⟨m₂, hrestrict, hbody, hpriv, hgateway⟩ := restrict_goes hprivate hautomatic hset
    obtain ⟨m₃, heffort, hunmoved⟩ := askEffort_goes x.scope x.effort m₂
    have hpriv₃ : m₃.endpoint = .priv := hunmoved.endpoint.trans hpriv
    rw [hdestination] at hadmitted
    have hgates : ∃ q, (finalGate (vet s.runtime verdict)).run m₃ = .ok () q ∧ q.body = m₃.body ∧
        q.endpoint = m₃.endpoint ∧ q.gateway = m₃.gateway :=
      finalGate_goes hpriv₃ ⟨request, hadmitted⟩
    obtain ⟨m₄, hgate, hbody₄, hendpoint₄, hgateway₄⟩ := hgates
    have hmodel₄ : modelOf m₄.body = some (ρ.candidate k).destination.model := by
      rw [hbody₄, hunmoved.model, hbody]
      exact modelOf_set? hrequest
    have hpriv₄ : m₄.endpoint = .priv := hendpoint₄.trans hpriv₃
    have hconcludes : ∃ q, (conclude (e.call now verdict polled)
        ⟨x.freeRow, x.scope, x.spend, x.healthMoved, asked⟩).run m₄ = .ok () q ∧
        q.body = m₄.body ∧ q.endpoint = m₄.endpoint := by
      refine conclude_goes hmodel₄ hshort (fun hscope hbudget hspend => ?_) fun i hi => ?_
      · rw [hpriv₄, hmodel₄, ← hmodel, hchosen.serves]
        exact hafford hscope hbudget hspend
      · have hscope := hunmoved.scopes i
        rw [← hgateway₄, hgateway] at hscope
        obtain ⟨hrecord, hpinned, howner⟩ := hscope
        rw [hautomatic, hpriv₄]
        refine consistent_automatic ?_ fun hp ho hm => ?_
        · rw [hasked i hi, hchosen.endpoint]
        · have howned := destine_owned hdestined hautomatic hi (hpinned ▸ hp) (howner ▸ ho) hm
          rw [hchosen.endpoint, hmodel] at howned
          have hendpoint := congrArg Prod.fst hrecord
          have hname := congrArg Prod.snd hrecord
          exact ⟨howned.1.trans hendpoint.symm, (Option.some.inj howned.2).trans hname.symm⟩
    obtain ⟨q, hconclude, hqbody, hqendpoint⟩ := hconcludes
    refine ⟨q, ?_, hqendpoint.trans hpriv₄, hqbody ▸ hmodel₄⟩
    rw [run_bind_ok hrequested, run_bind_ok hrestrict, run_bind_ok heffort, run_bind_ok hgate]
    exact hconclude

end Override

/-! ### Two private candidates -/

/-- The result of a run that goes through passes a test. -/
def passes {α : Type} (test : α → Prep ρ → Bool) : EStateM.Result Nat (Prep ρ) α → Bool
  | .ok a q => test a q
  | .error _ _ => false

theorem ok_of_passes {α : Type} {test : α → Prep ρ → Bool} {r : EStateM.Result Nat (Prep ρ) α}
    (h : passes test r = true) : ∃ a q, r = .ok a q ∧ test a q = true := by
  cases r with
  | ok a q => exact ⟨a, q, rfl, h⟩
  | error status q => cases h

section

local instance neZero_candidates : NeZero 3 := inferInstance

/-- The private default `l` declares nothing; another private candidate `m` declares everything. -/
def twoPrivateSettings : Settings where
  count := 3
  candidate := ![sampleCandidate 0 ⟨.pub, "p", 0⟩ 0,
    { sampleCandidate 1 ⟨.priv, "l", 1⟩ 8 with capKnown := 0, capSupported := 0 },
    sampleCandidate 2 ⟨.priv, "m", 1⟩ 8]
  distinct := by decide
  baseline := 0
  priced := false
  uniform := by decide
  active := true
  tenant := "t"
  project := "p"
  ttl := 60000
  attemptTtl := 60000
  expectedOutput := 0
  signals := false
  implicit := true
  repeatEscalation := false
  phase := false
  reasoning := .off
  health := none
  budget := ⟨0, 0, 0, 0⟩
  shadow := none
  housekeeping := none
  judgeBreakerMs := none
  authorization := "Bearer k"

end

def twoPrivateRouter : Router where
  runtime := { sampleRuntime "openai-compatible" "openai-compatible" with
    config := { sampleConfig "openai-compatible" "openai-compatible" with
      aliases := [⟨.pub, "p", 0⟩, ⟨.priv, "l", 1⟩, ⟨.priv, "m", 1⟩] } }
  settings := twoPrivateSettings
  neighbours := sampleNeighbours
  aliased := by decide

/-- A request of a labelled session that offers a tool. -/
def toolRequest : Request where
  automatic := true
  fields := [sessionHeader]
  members := [("model", .string "p"), ("messages", .array [Compliance.question]),
    ("max_tokens", .integer 9),
    ("tools", .array [.object [("type", .string "function"), ("function", .object
      [("name", .string "f"), ("parameters", .object [("type", .string "object"),
        ("properties", .object []), ("additionalProperties", .bool false)])])]])]
  endpoint := .pub
  nodup := by decide
  addressed := by decide

def arrivedEvents (request : Request) : List Event :=
  [.hint restrictBody 1, .arrive request 2 ⟨false, none⟩]

def arrivedRun (ρ : Router) (request : Request) : List (Event × Answer) × State ρ :=
  Trace.feed step (sampleStart ρ) (arrivedEvents request)

theorem reaches_arrivedRun (ρ : Router) (request : Request) :
    Reaches ρ (arrivedRun ρ request).1 (arrivedRun ρ request).2 :=
  ⟨_, started_sampleStart ρ, Trace.Runs.feed (arrivedEvents request) _⟩

/-- Candidate `k` was chosen for a request that must be private. -/
def overridden (s : State ρ) (e : Exchange ρ.settings.count) (k : ρ.Index) (x : Destined ρ)
    (m : Prep ρ) : Bool :=
  m.gateway.mustBePrivate ρ.settings.implicit x.scope e.request.headers &&
    decide (ChosenPrivate (vet s.runtime fun _ _ => .unscanned) x m k)

/-- The prepared request is served by the private candidate. -/
def served (k : ρ.Index) (q : Prep ρ) : Bool :=
  q.endpoint = .priv && modelOf q.body = some (ρ.candidate k).destination.model

def sampleCall (e : Exchange ρ.settings.count) : Call := e.call 3 (fun _ _ => .unscanned) []

def secondPrivate : twoPrivateRouter.Index := ⟨2, by decide⟩

def toolRun : List (Event × Answer) × State twoPrivateRouter :=
  arrivedRun twoPrivateRouter toolRequest

/-- The candidate that was chosen for its declared requirements loses the request to the private
default, which declares none of them. -/
theorem restricted_redirected : Reaches twoPrivateRouter toolRun.1 toolRun.2 ∧
    ∃ e x m, toolRun.2.exchanges[0]? = some e ∧ e.request.automatic = true ∧
      (destine (sampleCall e) (vet toolRun.2.runtime fun _ _ => .unscanned)).run
        (e.prep toolRun.2.gateway) = .ok x m ∧
      m.gateway.mustBePrivate true x.scope e.request.headers = true ∧
      ChosenPrivate (vet toolRun.2.runtime fun _ _ => .unscanned) x m secondPrivate ∧
      ¬ ∃ q, (prepare (sampleCall e) (vet toolRun.2.runtime fun _ _ => .unscanned)).run
          (e.prep toolRun.2.gateway) = .ok () q ∧ q.endpoint = .priv ∧
        modelOf q.body = some (twoPrivateRouter.candidate secondPrivate).destination.model := by
  refine ⟨reaches_arrivedRun twoPrivateRouter toolRequest, ?_⟩
  have hfound : (toolRun.2.exchanges[0]?).any (fun e => e.request.automatic &&
      passes (overridden toolRun.2 e secondPrivate) ((destine (sampleCall e)
        (vet toolRun.2.runtime fun _ _ => .unscanned)).run (e.prep toolRun.2.gateway)) &&
      passes (fun _ q => !served secondPrivate q) ((prepare (sampleCall e)
        (vet toolRun.2.runtime fun _ _ => .unscanned)).run (e.prep toolRun.2.gateway))) = true := by
    decide +kernel
  obtain ⟨e, he, hchecks⟩ := (Option.any_eq_true _ _).mp hfound
  rw [Bool.and_eq_true, Bool.and_eq_true] at hchecks
  obtain ⟨x, m, hdestined, hoverridden⟩ := ok_of_passes hchecks.1.2
  obtain ⟨_, q, hrun, hserved⟩ := ok_of_passes hchecks.2
  unfold overridden at hoverridden
  rw [Bool.and_eq_true, decide_eq_true_eq] at hoverridden
  refine ⟨e, x, m, he, hchecks.1.1, hdestined, hoverridden.1, hoverridden.2, fun hdispatched => ?_⟩
  obtain ⟨q', hrun', hendpoint, hmodel⟩ := hdispatched
  rw [hrun] at hrun'
  cases hrun'
  unfold served at hserved
  rw [decide_eq_true hendpoint, decide_eq_true hmodel] at hserved
  cases hserved

def privateCandidate : sampleRouter.Index := ⟨1, by decide⟩

/-- With one private candidate, the default, the override agrees. -/
theorem restricted_placement_sample :
    ∃ e x, (arrivedRun sampleRouter (sampleRequest [sessionHeader])).2.exchanges[0]? = some e ∧
      ((∃ q, (prepare (sampleCall e) (vet (arrivedRun sampleRouter
          (sampleRequest [sessionHeader])).2.runtime fun _ _ => .unscanned)).run
          (e.prep (arrivedRun sampleRouter (sampleRequest [sessionHeader])).2.gateway) = .ok () q ∧
          q.endpoint = .priv ∧
          modelOf q.body = some (sampleRouter.candidate privateCandidate).destination.model) ↔
        sampleRouter.runtime.config.privateModel =
            some (sampleRouter.candidate privateCandidate).destination.model ∧
          affordable x privateCandidate) := by
  have hfound : ((arrivedRun sampleRouter (sampleRequest [sessionHeader])).2.exchanges[0]?).any
      (fun e => e.request.automatic && passes (overridden
        (arrivedRun sampleRouter (sampleRequest [sessionHeader])).2 e privateCandidate)
        ((destine (sampleCall e) (vet (arrivedRun sampleRouter
          (sampleRequest [sessionHeader])).2.runtime fun _ _ => .unscanned)).run
          (e.prep (arrivedRun sampleRouter (sampleRequest [sessionHeader])).2.gateway))) = true := by
    decide +kernel
  obtain ⟨e, he, hchecks⟩ := (Option.any_eq_true _ _).mp hfound
  rw [Bool.and_eq_true] at hchecks
  obtain ⟨x, m, hdestined, hoverridden⟩ := ok_of_passes hchecks.2
  unfold overridden at hoverridden
  rw [Bool.and_eq_true, decide_eq_true_eq] at hoverridden
  exact ⟨e, x, he, restricted_placement hchecks.1 hdestined hoverridden.1 hoverridden.2⟩

end Recursant.Gateway
