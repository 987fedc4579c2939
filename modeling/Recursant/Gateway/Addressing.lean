import Recursant.Gateway.Identities

/-!
# Requests that address a registered scope

The headers of a request are read in the order they come in, and a repeated or malformed generation
or branch is not forgotten.  A request with a generation goes through under the registered scope that
its headers name, or not at all.
-/

namespace Recursant.Gateway

open Compliance (Gated)
open Stateful

/-! ## Reading the headers -/

def generationHeader : Text := "X-Recursant-generation"

def branchHeader : Text := "X-Recursant-branch"

theorem caseEq_branch {name : Text} (h : caseEq name generationHeader = true) :
    caseEq name branchHeader = false := by
  unfold caseEq at h ⊢
  rw [beq_iff_eq] at h
  rw [h]
  decide +kernel

variable (h : GatewayHeaders) (name : Text) (value : Option Text)

/-- What one header does to the generation. -/
theorem gatewayHeader_generation : (gatewayHeader h name value).generation =
    if caseEq name generationHeader = true then
      (value.filter (fits h.generation · 33)).getD h.generation
    else h.generation := by
  show (if caseEq name generationHeader = true then _ else _ : GatewayHeaders).generation = _
  split
  · dsimp only
    cases value.filter (fits h.generation · 33) <;> rfl
  · split
    · dsimp only
      cases value.filter (fits h.branch · 64) <;> rfl
    · rfl

/-- What one header does to the branch. -/
theorem gatewayHeader_branch : (gatewayHeader h name value).branch =
    if caseEq name branchHeader = true then (value.filter (fits h.branch · 64)).getD h.branch
    else h.branch := by
  show (if caseEq name generationHeader = true then _ else _ : GatewayHeaders).branch = _
  split
  · next hname =>
      rw [caseEq_branch hname, if_neg Bool.false_ne_true]
      dsimp only
      cases value.filter (fits h.generation · 33) <;> rfl
  · show (if caseEq name branchHeader = true then _ else _ : GatewayHeaders).branch = _
    split
    · dsimp only
      cases value.filter (fits h.branch · 64) <;> rfl
    · rfl

theorem gatewayHeader_invalid (hinvalid : h.invalid = true) :
    (gatewayHeader h name value).invalid = true := by
  unfold gatewayHeader
  dsimp only
  split
  · split
    · exact hinvalid
    · rfl
  · split
    · split
      · exact hinvalid
      · rfl
    · exact hinvalid

/-- A generation that fits no buffer is not forgotten. -/
theorem gatewayHeader_misfit (hname : caseEq name generationHeader = true)
    (hmisfit : ∀ out, value.filter (fits out · 33) = none) :
    (gatewayHeader h name value).invalid = true := by
  show (if caseEq name generationHeader = true then _ else _ : GatewayHeaders).invalid = true
  rw [if_pos hname, hmisfit]

theorem foldl_invalid (fields : List (Text × Option Text)) (hinvalid : h.invalid = true) :
    (fields.foldl (fun h field => gatewayHeader h field.1 field.2) h).invalid = true := by
  induction fields generalizing h with
  | nil => exact hinvalid
  | cons field fields ih => exact ih _ (gatewayHeader_invalid h _ _ hinvalid)

/-- Wherever a generation that fits no buffer stands, the headers are invalid. -/
theorem collectHeaders_invalid {fields : List (Text × Option Text)} {name : Text}
    {value : Option Text} (hfield : (name, value) ∈ fields)
    (hname : caseEq name generationHeader = true)
    (hmisfit : ∀ out, value.filter (fits out · 33) = none) :
    (collectHeaders fields).invalid = true := by
  obtain ⟨before, after, rfl⟩ := List.append_of_mem hfield
  unfold collectHeaders
  rw [List.foldl_append, List.foldl_cons]
  exact foldl_invalid _ _ (gatewayHeader_misfit _ _ _ hname hmisfit)

/-- A field that only headers of its name write, read from the only header of that name. -/
theorem foldl_single {read : GatewayHeaders → Text} {key : Text} {capacity : Nat}
    (hread : ∀ h name value, read (gatewayHeader h name value) =
      if caseEq name key = true then (value.filter (fits (read h) · capacity)).getD (read h)
      else read h)
    {fields : List (Text × Option Text)} {name value : Text} (h : GatewayHeaders)
    (hempty : read h = []) (hfits : fits [] value capacity = true)
    (honly : fields.filter (fun f => caseEq f.1 key) = [(name, some value)]) :
    read (fields.foldl (fun h field => gatewayHeader h field.1 field.2) h) = value := by
  -- without a header of the name the field is left alone
  have hnone : ∀ (fields : List (Text × Option Text)) (h : GatewayHeaders),
      fields.filter (fun f => caseEq f.1 key) = [] →
      read (fields.foldl (fun h field => gatewayHeader h field.1 field.2) h) = read h := by
    intro fields
    induction fields with
    | nil => exact fun _ _ => rfl
    | cons field fields ih =>
        intro h hnil
        rw [List.filter_eq_nil_iff] at hnil
        rw [List.foldl_cons, ih _ (List.filter_eq_nil_iff.mpr fun f hf => hnil f (.tail _ hf)),
          hread, if_neg (hnil field (.head _))]
  induction fields generalizing h with
  | nil => cases honly
  | cons field fields ih =>
      rw [List.foldl_cons]
      by_cases hkey : caseEq field.1 key = true
      · rw [List.filter_cons, if_pos hkey] at honly
        obtain ⟨rfl, hrest⟩ := List.cons.inj honly
        rw [hnone fields _ hrest, hread, if_pos hkey, hempty, Option.filter_some, if_pos hfits]
        rfl
      · rw [List.filter_cons, if_neg hkey] at honly
        refine ih _ ?_ honly
        rw [hread, if_neg hkey, hempty]

theorem collectHeaders_generation {fields : List (Text × Option Text)} {name value : Text}
    (hfits : fits [] value 33 = true)
    (honly : fields.filter (fun f => caseEq f.1 generationHeader) = [(name, some value)]) :
    (collectHeaders fields).generation = value :=
  foldl_single gatewayHeader_generation _ rfl hfits honly

theorem collectHeaders_branch {fields : List (Text × Option Text)} {name value : Text}
    (hfits : fits [] value 64 = true)
    (honly : fields.filter (fun f => caseEq f.1 branchHeader) = [(name, some value)]) :
    (collectHeaders fields).branch = value :=
  foldl_single gatewayHeader_branch _ rfl hfits honly

/-! ## Under the scope that the headers name -/

variable {ρ : Router} {w : Intake} {s t : State ρ} {event : Event} {answer : Answer}

/-- The headers are held to a registered scope. -/
def Addresses (h : GatewayHeaders) : Prop := h.generation ≠ [] ∨ h.invalid = true

theorem resolve_addressed {c : Call} {vetting : Json → Endpoint → Gated} {a b : Prep ρ}
    {scope : Option Slot} (haddresses : Addresses c.headers)
    (hrun : (resolve c vetting).run a = .ok scope b) :
    b = a ∧ c.headers.invalid = false ∧
      ∃ i, scope = some i ∧ a.gateway.scopeFind c.headers.generation c.headers.branch = some i := by
  have hregistered : (!unregistered c || c.headers.invalid) = true := by
    rw [Bool.or_eq_true]
    cases haddresses with
    | inl hgeneration =>
        left
        unfold unregistered
        rw [decide_eq_false hgeneration]
        rfl
    | inr hinvalid => exact .inr hinvalid
  unfold resolve at hrun
  rw [if_pos hregistered] at hrun
  unfold registeredScope at hrun
  obtain ⟨_, p₁, hget, hfind⟩ := bind_eq_ok.mp hrun
  cases hget
  dsimp only at hfind
  by_cases hinvalid : c.headers.invalid = true
  · rw [if_pos hinvalid] at hfind
    cases hfind
  · rw [if_neg hinvalid] at hfind
    split at hfind
    · cases hfind
    · next i hi =>
        obtain ⟨_, p₂, htask, hrest⟩ := bind_eq_ok.mp hfind
        obtain ⟨_, p₃, hidle, hpure⟩ := bind_eq_ok.mp hrest
        obtain ⟨-, rfl⟩ := ensure_eq_ok htask
        obtain ⟨-, rfl⟩ := ensure_eq_ok hidle
        cases hpure
        exact ⟨rfl, Bool.not_eq_true _ ▸ hinvalid, i, rfl, hi⟩

/-- A request with invalid headers is denied. -/
theorem prepare_invalid {c : Call} (vetting : Json → Endpoint → Gated) {p : Prep ρ}
    (hinvalid : c.headers.invalid = true) : ∃ status q, (prepare c vetting).run p = .error status q := by
  cases hrun : (prepare c vetting).run p with
  | error status q => exact ⟨status, q, rfl⟩
  | ok _ q =>
      exfalso
      unfold prepare at hrun
      obtain ⟨freeRow, a, -, hrest⟩ := bind_eq_ok.mp hrun
      obtain ⟨scope, b, hresolve, -⟩ := bind_eq_ok.mp hrest
      have hvalid := (resolve_addressed (.inr hinvalid) hresolve).2.1
      rw [hinvalid] at hvalid
      cases hvalid

/-- Who holds each slot. -/
def SameHolders (p q : Prep ρ) : Prop := q.gateway.roster.holder = p.gateway.roster.holder

instance : Std.Refl (SameHolders (ρ := ρ)) := ⟨fun _ => rfl⟩

instance : IsTrans (Prep ρ) SameHolders := ⟨fun _ _ _ first second => second.trans first⟩

theorem sameHolders_of_quiet {α : Type} {m : Prepare ρ α} (h : Within Quiet m) :
    Within SameHolders m :=
  h.weaken fun _ _ hpq => congrArg Roster.holder hpq.roster

theorem sameHolders_work (i : Slot) (f : Scope → Scope) :
    Within SameHolders (work (ρ := ρ) i f) := by
  apply within_modify
  intro p
  funext j
  show (p.gateway.setScope i _ |>.scopes j).toHolder = (p.gateway.scopes j).toHolder
  by_cases hij : j = i
  · rw [hij, scopes_setScope_self]
  · rw [scopes_setScope_of_ne _ _ hij]

theorem sameHolders_contract (i : Slot) :
    Within SameHolders (contract (ρ := ρ) i) := by
  unfold contract
  refine (sameHolders_work i _).bind fun _ => ?_
  refine Within.bind (within_modify fun _ => rfl) fun _ => ?_
  refine Within.bind (sameHolders_of_quiet (quiet_of_beside (beside_countRequest i))) fun _ => ?_
  refine Within.bind within_get fun p => ?_
  refine Within.bind (sameHolders_work i _) fun _ => ?_
  exact sameHolders_of_quiet (quiet_of_beside (beside_checkContinuity i _))

theorem sameHolders_settle (c : Call) (vetting : Json → Endpoint → Gated) (freeRow : Option Nat)
    (scope : Option Slot) : Within SameHolders (settle (ρ := ρ) c vetting freeRow scope) := by
  have hplace : Within SameHolders (placeScoped (ρ := ρ) c vetting scope) := by
    cases scope with
    | none => exact within_pure _
    | some i =>
        refine Within.bind (sameHolders_of_quiet (quiet_of_beside (beside_scopeAt i))) fun s => ?_
        refine (sameHolders_contract i).bind fun _ => ?_
        apply within_ite
        · intro _
          exact Within.bind (sameHolders_of_quiet (quiet_placeAutomatic c vetting i _)) fun _ =>
            within_pure _
        · exact fun _ => within_pure _
  have heffort : ∀ step, Within SameHolders (askEffort (ρ := ρ) scope step) := by
    intro step
    unfold askEffort
    split
    · refine Within.bind within_get fun p => ?_
      apply within_ite
      · intro _
        exact Within.bind (within_modify fun _ => rfl) fun _ => sameHolders_work _ _
      · exact fun _ => within_pure _
    · exact within_pure _
  refine hplace.bind fun placed => ?_
  refine Within.bind (sameHolders_of_quiet (quiet_leaveCooling c vetting scope)) fun _ => ?_
  refine Within.bind (sameHolders_of_quiet (quiet_of_beside (beside_requested scope))) fun _ => ?_
  refine Within.bind (sameHolders_of_quiet (quiet_restrict c scope)) fun _ => ?_
  exact (heffort _).bind fun _ => within_pure _

/-- A preparation that goes through leaves a registered scope where it found it. -/
theorem Course.addressed {c : Call} {vetting : Json → Endpoint → Gated} {placed : Placed}
    {p a b d q : Prep ρ} (h : Course c vetting w placed p a b d q)
    (haddresses : Addresses c.headers) :
    ∃ i, q.ticket.scope = some i ∧ (q.gateway.scopes i).implicit = false := by
  obtain ⟨rfl, -, i, hscope, hfind⟩ := resolve_addressed haddresses h.resolved
  refine ⟨i, h.scope.trans hscope, ?_⟩
  have hsettled := sameHolders_settle (ρ := ρ) c vetting placed.freeRow placed.scope b
  rw [h.settled] at hsettled
  have hholder : (d.gateway.scopes i).toHolder = (b.gateway.scopes i).toHolder :=
    congrFun hsettled i
  obtain ⟨model, hcommits⟩ := h.concluded.own i hscope
  rw [hcommits.scope]
  have hbegun := (begin_persists (d.gateway.scopes i) q.body c.now q.endpoint model
    q.ticket.row).get Holder.implicit fun _ => rfl
  rw [show (Scope.begin _ _ _ _ _ _).implicit = (d.gateway.scopes i).implicit from hbegun,
    congrArg Holder.implicit hholder]
  exact (GatewayContext.scopeFind_eq_some hfind).2.1

/-- Every exchange in flight whose headers are held to a registered scope has one. -/
def Confined (s : State ρ) : Prop :=
  ∀ (id : Nat) (e : Exchange ρ.settings.count), s.exchanges[id]? = some e →
    e.ticket.begun = true → Addresses e.request.headers →
    ∃ i, e.ticket.scope = some i ∧ (s.gateway.scopes i).implicit = false

theorem Turn.confined (h : Turn w s event answer t) (hs : Fenced s) (ht : Fenced t)
    (hconfined : Confined s) : Confined t := by
  intro id e' he' hbegun haddresses
  cases h.begun he' hbegun with
  | inl hold =>
      obtain ⟨e, he, hebegun, hgoes⟩ := hold
      obtain ⟨i, hi, himplicit⟩ := hconfined id e he hebegun (hgoes.request ▸ haddresses)
      refine ⟨i, hgoes.scope.trans hi, ?_⟩
      have hbefore := ((hs.fit id e he).begun hebegun).holds i hi
      have hafter := ((ht.fit id e' he').begun hbegun).holds i (hgoes.scope.trans hi)
      rw [hgoes.serial] at hafter
      cases h.scope hs hbefore.1 with
      | inl hpersists => exact (hpersists.get Holder.implicit fun _ => rfl).trans himplicit
      | inr hleft =>
          -- the slot would be closed or hold a later scope
          have hlater := hleft.2 hafter.1
          have hserial : (s.gateway.scopes i).serial = (t.gateway.scopes i).serial :=
            hbefore.2.trans hafter.2.symm
          omega
  | inr hnew =>
      obtain ⟨now, verdict, polled, e, placed, a, b, d, q, -, he, -, rfl, hgateway, hcourse⟩ := hnew
      obtain ⟨i, hi, himplicit⟩ := hcourse.addressed haddresses
      exact ⟨i, hi, hgateway ▸ himplicit⟩

theorem Reaches.confined {history : List (Event × Answer)} (h : Reaches ρ history s) :
    Confined s := by
  obtain ⟨start, hstart, run⟩ := h
  have hboth : Poised s ∧ Confined s := by
    refine run.invariant (P := fun u => Poised u ∧ Confined u) ?_ ⟨poised_start hstart, ?_⟩
    · intro u event answer v hu hstep
      have hnext := hu.1.next hstep
      exact ⟨hnext, (step_turn hu.1 (takes_any u event) hstep).confined hu.1.fenced hnext.fenced
        hu.2⟩
    · intro id e he
      rw [hstart.exchanges] at he
      cases he
  exact hboth.2

theorem Titled.scopeFind {g : GatewayContext ρ.settings.count} (h : Titled g) {i : Slot}
    (hregistered : Registered (g.scopes i)) :
    g.scopeFind (g.scopes i).generation (g.scopes i).branch = some i := by
  have hsome : (g.scopeFind (g.scopes i).generation (g.scopes i).branch).isSome = true := by
    unfold GatewayContext.scopeFind
    rw [List.find?_isSome]
    exact ⟨i, List.mem_finRange i, by simp [hregistered.1, hregistered.2]⟩
  obtain ⟨j, hj⟩ := Option.isSome_iff_exists.mp hsome
  obtain ⟨hopen, himplicit, hgeneration, -⟩ := GatewayContext.scopeFind_eq_some hj
  rw [hj, h.generations j i ⟨hopen, himplicit⟩ hregistered hgeneration]

/-- Whatever is dispatched for a request with a generation is dispatched under the registered scope
that its headers name. -/
theorem Reaches.dispatched_addressed {history : List (Event × Answer)} (h : Reaches ρ history s)
    {id : Nat} {e : Exchange ρ.settings.count} (he : s.exchanges[id]? = some e)
    (haddresses : Addresses e.request.headers) {body : Json} {endpoint : Endpoint}
    (hid : event.id? = some id) (hstep : step s event = (.dispatched body endpoint, t)) :
    e.request.headers.invalid = false ∧
      ∃ e' i, t.exchanges[id]? = some e' ∧ e'.ticket.scope = some i ∧
        t.gateway.scopeFind e.request.headers.generation e.request.headers.branch = some i := by
  have hnext : Reaches ρ (history ++ [(event, .dispatched body endpoint)]) t := by
    obtain ⟨start, hstart, run⟩ := h
    exact ⟨start, hstart, run.next hstep⟩
  have hlive : ∃ e', t.exchanges[id]? = some e' ∧ e'.live = true ∧ e'.request = e.request := by
    obtain ⟨id', hid', hdispatch⟩ := step_dispatched h.fenced hstep
    obtain rfl := Option.some.inj (hid'.symm.trans hid)
    cases hdispatch with
    | first ho _ _ _ _ _ _ hafter =>
        obtain rfl := Option.some.inj (ho.symm.trans he)
        exact ⟨_, hafter, rfl, rfl⟩
    | retry ho _ _ _ _ _ hafter =>
        obtain rfl := Option.some.inj (ho.symm.trans he)
        exact ⟨_, hafter, rfl, rfl⟩
  obtain ⟨e', he', hlive, hrequest⟩ := hlive
  have hfit := hnext.fenced.fit id e' he'
  have hbegun := hfit.live hlive
  obtain ⟨i, hi, himplicit⟩ := hnext.confined id e' he' hbegun (hrequest ▸ haddresses)
  have hopen := ((hfit.begun hbegun).holds i hi).1
  cases (hfit.begun hbegun).named i hi with
  | session hsession _ =>
      have hsession : (t.gateway.scopes i).implicit = true := hsession
      rw [himplicit] at hsession
      cases hsession
  | registered _ hvalid hgeneration hbranch =>
      refine ⟨hrequest ▸ hvalid, e', i, he', hi, ?_⟩
      rw [← hrequest, ← hgeneration, ← hbranch]
      exact hnext.titled.scopeFind ⟨hopen, himplicit⟩

end Recursant.Gateway
