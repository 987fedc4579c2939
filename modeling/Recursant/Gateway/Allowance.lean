import Recursant.Gateway.Resend

/-!
# The allowance of a session

`session_requests` over whole runs: the number that the scope of a session keeps, the requests of
the session that were admitted, and those that were denied after they had been counted.
-/

namespace Recursant.Gateway

open Compliance (Gated Verdict)
open Stateful

variable {ρ : Router} {w : Intake}

/-! ## What the slots count -/

/-- Which scope a slot holds and how many requests are counted for it. -/
def Scope.tally (s : Scope) : Bool × Nat × Nat := (s.isOpen, s.serial, s.requests)

/-- A slot keeps its scope with the number of its requests, or is left with no request counted,
by a later scope if by any. -/
structure Counts {count : Nat} (g k : GatewayContext count) : Prop where
  opened : g.opened ≤ k.opened
  slot : ∀ i, (k.scopes i).tally = (g.scopes i).tally ∨
    (k.scopes i).requests = 0 ∧ ((k.scopes i).isOpen = true → g.opened < (k.scopes i).serial)

theorem Counts.refl {count : Nat} (g : GatewayContext count) : Counts g g :=
  ⟨le_rfl, fun _ => .inl rfl⟩

theorem Counts.same {count : Nat} {g k : GatewayContext count} (hopened : k.opened = g.opened)
    (h : ∀ i, (k.scopes i).tally = (g.scopes i).tally) : Counts g k :=
  ⟨hopened.ge, fun i => .inl (h i)⟩

theorem Counts.trans {count : Nat} {g k l : GatewayContext count} (first : Counts g k)
    (second : Counts k l) : Counts g l := by
  refine ⟨first.opened.trans second.opened, fun i => ?_⟩
  cases second.slot i with
  | inr hnew => exact .inr ⟨hnew.1, fun hopen => first.opened.trans_lt (hnew.2 hopen)⟩
  | inl hsame =>
      rw [hsame]
      cases first.slot i with
      | inl hkept => exact .inl hkept
      | inr hnew =>
          have hopen : (l.scopes i).isOpen = (k.scopes i).isOpen := congrArg Prod.fst hsame
          have hserial : (l.scopes i).serial = (k.scopes i).serial :=
            congrArg (fun n => n.2.1) hsame
          have hrequests : (l.scopes i).requests = (k.scopes i).requests :=
            congrArg (fun n => n.2.2) hsame
          rw [hopen, hserial, hrequests]
          exact .inr hnew

/-- The slots after one more request was counted for one of them. -/
structure Raises {count : Nat} (i : Slot) (g k : GatewayContext count) : Prop where
  opened : k.opened = g.opened
  own : (k.scopes i).tally = ((g.scopes i).isOpen, (g.scopes i).serial, (g.scopes i).requests + 1)
  others : ∀ j, j ≠ i → (k.scopes j).tally = (g.scopes j).tally

/-- The scope of the slot is one of those numbered, and the only one with its number. -/
theorem Raises.numbered {count : Nat} {g k : GatewayContext count} {i : Slot} (h : Raises i g k)
    (hopen : (g.scopes i).isOpen = true) {implicit : Bool}
    (hsound : Roster.Sound implicit k.roster) : (g.scopes i).serial ≤ g.opened ∧
      ∀ j, (g.scopes j).isOpen = true → (g.scopes j).serial = (g.scopes i).serial → j = i := by
  have hsame : ∀ j, (g.scopes j).isOpen = true →
      (k.scopes j).isOpen = true ∧ (k.scopes j).serial = (g.scopes j).serial := by
    intro j hj
    by_cases hji : j = i
    · rw [hji]
      exact ⟨(congrArg Prod.fst h.own).trans hopen, congrArg (fun n => n.2.1) h.own⟩
    · exact ⟨(congrArg Prod.fst (h.others j hji)).trans hj,
        congrArg (fun n => n.2.1) (h.others j hji)⟩
  obtain ⟨hstill, hserial⟩ := hsame i hopen
  constructor
  · have hbounded : (k.scopes i).serial ≤ k.opened := (hsound.bounded i hstill).2
    rw [hserial, h.opened] at hbounded
    exact hbounded
  · intro j hj hequal
    obtain ⟨hjstill, hjserial⟩ := hsame j hj
    exact hsound.serials j i hjstill hstill (hjserial.trans (hequal.trans hserial.symm))

section Shifts

variable {g k : GatewayContext ρ.settings.count}

theorem Counts.aside (h : Aside g k) : Counts g k :=
  .same h.opened fun i => congrArg Scope.tally (congrFun h.scopes i)

theorem Shift.counts (h : Shift ρ w g k) (htidy : Tidy g) : Counts g k := by
  refine ⟨h.1.opened_le, fun i => ?_⟩
  cases h.1.slot i with
  | same hsame => exact .inl (congrArg Scope.tally hsame)
  | kept hopen hkept =>
      have hopen' : (k.scopes i).isOpen = (g.scopes i).isOpen := hkept.get (fun s => s.isOpen) fun _ => rfl
      have hserial : (k.scopes i).serial = (g.scopes i).serial := hkept.get (fun s => s.serial) fun _ => rfl
      cases h.2 i with
      | inl hrequests =>
          left
          unfold Scope.tally
          rw [hopen', hserial, hrequests]
      | inr hzeroed =>
          -- the scope that is kept is open
          rw [hzeroed, hopen] at hopen'
          cases hopen'
  | left _ _ hzeroed =>
      rw [hzeroed]
      exact .inr ⟨rfl, nofun⟩
  | seated hclosed _ hserial _ _ _ =>
      have hrequests : (k.scopes i).requests = 0 := by
        have hblank := htidy.blank i hclosed
        cases h.2 i with
        | inl hsame => rw [hsame, hblank]
        | inr hzeroed => rw [hzeroed]
      refine .inr ⟨hrequests, fun _ => ?_⟩
      rw [hserial]
      exact Nat.lt_succ_self _

theorem Shifts.counts (h : Shifts ρ w g k) (htidy : Tidy g) : Counts g k := by
  induction h with
  | refl => exact .refl g
  | tail hfirst hlast ih => exact ih.trans (hlast.counts ((Shifts.edits hfirst).tidy htidy))

end Shifts

/-! ## One preparation -/

section Preparation

variable {c : Call} {vetting : Json → Endpoint → Gated} {p a b : Prep ρ} {i : Slot}

/-- The numbers of the slots. -/
def Prep.counts (p : Prep ρ) : Nat × (Slot → Bool × Nat × Nat) :=
  (p.gateway.opened, fun i => (p.gateway.scopes i).tally)

theorem counts_of_unasked {α : Type} {m : Prepare ρ α} (h : Within (Same Prep.unasked) m) :
    Within (Same Prep.counts) m := fun p =>
  congrArg (fun table : List Text × Nat × (Slot → Scope) =>
    (table.2.1, fun i => (table.2.2 i).tally)) (h p)

theorem counts_of_table {α : Type} {m : Prepare ρ α} (h : Within (Same Prep.table) m) :
    Within (Same Prep.counts) m := counts_of_unasked (unasked_of_table h)

theorem counts_eq_iff {p q : Prep ρ} : q.counts = p.counts ↔
    q.gateway.opened = p.gateway.opened ∧
      ∀ i, (q.gateway.scopes i).tally = (p.gateway.scopes i).tally :=
  Prod.ext_iff.trans (and_congr_right fun _ => funext_iff)

theorem counts_inScope (p : Prep ρ) (i : Slot) {s : Scope}
    (h : s.tally = (p.gateway.scopes i).tally) : (p.inScope i s).counts = p.counts := by
  refine counts_eq_iff.mpr ⟨rfl, fun j => ?_⟩
  show ((p.gateway.setScope i s).scopes j).tally = _
  by_cases hji : j = i
  · rw [hji, scopes_setScope_self]
    exact h
  · rw [scopes_setScope_of_ne _ _ hji]

theorem counts_work (i : Slot) {f : Scope → Scope} (h : ∀ s, (f s).requests = s.requests) :
    Within (Same Prep.counts) (work (ρ := ρ) i f) := by
  intro p
  refine (counts_inScope p i ?_ : (p.inScope i _).counts = p.counts)
  unfold Scope.tally
  rw [h]

theorem counts_takeOn (i : Slot) : Within (Same Prep.counts) (takeOn (ρ := ρ) i) := by
  intro p
  have hset : { p.gateway.scopes i with inflight := true }.tally = (p.gateway.scopes i).tally := rfl
  exact counts_inScope p i hset

theorem counts_ensure (b : Bool) (status : Nat) :
    Within (Same Prep.counts) (ensure (ρ := ρ) b status) := counts_of_table (table_ensure b status)

theorem counts_beginAttempt (freeRow : Option Nat) :
    Within (Same Prep.counts) (beginAttempt (ρ := ρ) c freeRow) := by
  intro p
  show (final (beginAttempt c freeRow p)).counts = p.counts
  unfold beginAttempt
  dsimp only [final]
  split <;> rfl

theorem counts_conclude (placed : Placed) :
    Within (Same Prep.counts) (conclude (ρ := ρ) c placed) := by
  unfold conclude
  refine Within.bind ?_ fun _ => ?_
  · unfold checkSpend
    apply within_ite
    · exact fun _ => within_get.bind fun _ => counts_ensure _ _
    · exact fun _ => within_pure _
  refine Within.bind ?_ fun _ => ?_
  · unfold commit
    split
    · exact within_pure _
    · refine within_get.bind fun p => ?_
      split
      · exact within_throw _
      · refine (counts_ensure _ _).bind fun _ => (counts_work _ fun s => ?_).bind fun _ => counts_takeOn _
        unfold commitScope
        dsimp only
        split <;> rfl
  refine Within.bind ?_ fun _ => (counts_beginAttempt _).bind fun _ => ?_
  · apply within_modify
    intro p
    split <;> rfl
  · unfold recordRow
    split
    · exact within_pure _
    · exact within_get.bind fun _ => counts_work _ fun _ => rfl

/-- What follows the contract of a scope counts nothing. -/
theorem counts_settle (freeRow : Option Nat) (b : Prep ρ) (i : Slot) :
    (final ((settle c vetting freeRow (some i)).run b)).counts =
      (final ((contract i).run b)).counts := by
  have hscope : (scopeAt i).run b = .ok (b.gateway.scopes i) b := rfl
  have hplaced : (final ((placeScoped c vetting (some i)).run b)).counts =
      (final ((contract i).run b)).counts := by
    unfold placeScoped
    dsimp only
    rw [run_bind_ok hscope]
    refine final_bind_same (fun _ => ?_) b
    split
    · exact (counts_of_table (table_placeAutomatic i _)).bind fun _ => within_pure _
    · exact (within_pure _).bind fun _ => within_pure _
  unfold settle
  refine Eq.trans (final_bind_same (fun found => ?_) b) hplaced
  refine (counts_of_table (table_leaveCooling (some i))).bind fun _ => ?_
  refine (counts_of_table (table_requested (some i))).bind fun _ => ?_
  refine (counts_of_table (table_restrict (some i))).bind fun _ => ?_
  exact (counts_of_unasked (unasked_askEffort (some i) _)).bind fun _ => within_pure _

theorem counts_settle_none (freeRow : Option Nat) :
    Within (Same Prep.counts) (settle (ρ := ρ) c vetting freeRow none) := by
  unfold settle placeScoped
  refine (within_pure _).bind fun _ => ?_
  refine (counts_of_table (table_leaveCooling none)).bind fun _ => ?_
  refine (counts_of_table (table_requested none)).bind fun _ => ?_
  refine (counts_of_table (table_restrict none)).bind fun _ => ?_
  exact (counts_of_unasked (unasked_askEffort none _)).bind fun _ => within_pure _

theorem requests_bound (body : Json) (s : Scope) : (s.bound ρ body).requests = s.requests := by
  have hseen : ∀ b : Bool, (if b = true then
      { s with seenMessages := (elementsAt body "messages").length } else s).requests =
        s.requests := by
    intro b
    cases b <;> rfl
  unfold Scope.bound
  dsimp only
  have hsame := hseen s.implicit
  generalize (if s.implicit = true then
    { s with seenMessages := (elementsAt body "messages").length } else s) = t at hsame
  rw [← hsame]
  split
  · rfl
  · split
    · rfl
    · unfold bindContract
      dsimp only
      split
      · rfl
      · split <;> rfl

theorem requests_continued (own : UInt32) (messages : List Json) (s : Scope) :
    (s.continued ρ own messages).requests = s.requests := by
  unfold Scope.continued
  split <;> rfl

theorem requests_contracted (body : Json) (s : Scope) :
    (s.contracted ρ body).requests = s.requests + 1 := by
  unfold Scope.contracted
  rw [requests_continued, requests_bound]
  rfl

theorem raises_inScope (b : Prep ρ) (i : Slot) {s : Scope}
    (hholder : s.toHolder = (b.gateway.scopes i).toHolder)
    (hrequests : s.requests = (b.gateway.scopes i).requests + 1) : Raises i b.gateway (b.inScope i s).gateway := by
  refine ⟨rfl, ?_, fun j hj => congrArg Scope.tally (scopes_setScope_of_ne _ _ hj)⟩
  rw [scopes_inScope]
  unfold Scope.tally
  rw [hholder, hrequests]

/-- The contract counts a request that is within the allowance, and no other. -/
theorem counts_contract (b : Prep ρ) (i : Slot) :
    if withinRequests ρ (b.gateway.scopes i) = true then Raises i b.gateway (final ((contract i).run b)).gateway
    else (final ((contract i).run b)).counts = b.counts ∧ ∃ q, (contract i).run b = .error 429 q := by
  rw [run_contract]
  by_cases hwithin : withinRequests ρ (b.gateway.scopes i) = true
  · rw [if_pos hwithin, if_pos hwithin]
    have hcounting : Drawn (b.gateway.scopes i) (b.gateway.scopes i).counting := ⟨rfl, id⟩
    have hbound := hcounting.trans (drawn_bound (ρ := ρ) b.body _)
    split
    · refine raises_inScope b i hbound.holder ?_
      rw [requests_bound]
      rfl
    · exact raises_inScope b i (drawn_contracted b.body _).holder (requests_contracted b.body _)
  · rw [if_neg hwithin, if_neg hwithin]
    exact ⟨counts_inScope b i rfl, _, rfl⟩

/-! ### The whole -/

/-- The request comes to the contract of a scope: the slot, and the state in which it does. -/
def Comes (c : Call) (vetting : Json → Endpoint → Gated) (p : Prep ρ) (i : Slot) (b : Prep ρ) :
    Prop :=
  ∃ freeRow a, (enter c).run p = .ok freeRow a ∧ (resolve c vetting).run a = .ok (some i) b

theorem counts_enter (c : Call) (p : Prep ρ) :
    Counts p.gateway (final ((enter c).run p)).gateway := by
  have hpeeked := peeked_enter c p
  exact .same hpeeked.opened fun i => congrArg (fun s => s.tally) (hpeeked.scopes i)

theorem counts_resolve (c : Call) (vetting : Json → Endpoint → Gated) {a : Prep ρ}
    (htidy : Tidy a.gateway) : Counts a.gateway (final ((resolve c vetting).run a)).gateway := by
  have hsame : ∀ {q : Prep ρ}, q.counts = a.counts → Counts a.gateway q.gateway := fun h =>
    .same (counts_eq_iff.mp h).1 (counts_eq_iff.mp h).2
  have hsetModel : ∀ model, Within (Same Prep.counts) (setModel (ρ := ρ) model) :=
    fun model => counts_of_table (table_setModel model)
  unfold resolve
  split
  · apply hsame
    have hregistered : Within (Same Prep.counts) (registeredScope (ρ := ρ) c) := by
      unfold registeredScope
      refine within_get.bind fun p => ?_
      dsimp only
      split
      · exact within_throw _
      · refine (counts_ensure _ _).bind fun _ => ?_
        exact (counts_ensure _ _).bind fun _ => within_pure _
    exact hregistered a
  · have hhousekeeping : Within (Same Prep.counts) (housekeeping (ρ := ρ) c vetting) := by
      unfold housekeeping
      split
      · exact within_pure _
      · refine within_get.bind fun p => ?_
        apply within_ite
        · intro _
          refine Within.bind ?_ fun _ => Within.bind (fun p => rfl) fun _ => within_pure _
          exact Within.bind (fun p => rfl) fun _ => hsetModel _
        · exact fun _ => within_pure _
    have hfirst := hhousekeeping a
    cases hrun : (housekeeping c vetting).run a with
    | error status q =>
        rw [hrun] at hfirst
        rw [run_bind_error hrun]
        exact hsame hfirst
    | ok placed q =>
        rw [hrun] at hfirst
        rw [run_bind_ok hrun]
        cases placed with
        | true => exact hsame hfirst
        | false =>
            obtain ⟨-, rfl⟩ := housekeeping_unmarked.mp hrun
            show Counts q.gateway (final (requestSession c q)).gateway
            unfold requestSession
            split
            · next hgo =>
                rw [Bool.and_eq_true] at hgo
                have hshifts : Shifts ρ .any q.gateway
                    (q.gateway.implicitScope q.body c.headers c.now).2 :=
                  shifts_implicitScope hgo.1 htidy q.body c.headers c.now
                exact hshifts.counts htidy
            · exact .refl _

/-- How a preparation ends, by what it counts. -/
inductive Tallied (c : Call) (vetting : Json → Endpoint → Gated) (p : Prep ρ) :
    EStateM.Result Nat (Prep ρ) Unit → Prop
  | outside {r : EStateM.Result Nat (Prep ρ) Unit} : (∀ i b, ¬ Comes c vetting p i b) →
      Counts p.gateway (final r).gateway → (∀ q, r = .ok () q → q.serial = 0) →
      Tallied c vetting p r
  | refused {i : Slot} {b q : Prep ρ} : Comes c vetting p i b → Counts p.gateway b.gateway →
      (b.gateway.scopes i).isOpen = true → withinRequests ρ (b.gateway.scopes i) = false →
      q.counts = b.counts → Tallied c vetting p (.error 429 q)
  | denied {i : Slot} {b q : Prep ρ} {status : Nat} : Comes c vetting p i b →
      Counts p.gateway b.gateway → (b.gateway.scopes i).isOpen = true →
      withinRequests ρ (b.gateway.scopes i) = true → Raises i b.gateway q.gateway →
      Tallied c vetting p (.error status q)
  | admitted {i : Slot} {b q : Prep ρ} : Comes c vetting p i b → Counts p.gateway b.gateway →
      (b.gateway.scopes i).isOpen = true → withinRequests ρ (b.gateway.scopes i) = true →
      Raises i b.gateway q.gateway → q.serial = (b.gateway.scopes i).serial → Tallied c vetting p (.ok () q)

theorem Comes.unique {j : Slot} {d : Prep ρ} (h : Comes c vetting p i b)
    (h' : Comes c vetting p j d) : j = i ∧ d = b := by
  obtain ⟨freeRow, a, henter, hresolve⟩ := h
  obtain ⟨freeRow', a', henter', hresolve'⟩ := h'
  rw [henter] at henter'
  cases henter'
  rw [hresolve] at hresolve'
  cases hresolve'
  exact ⟨rfl, rfl⟩

/-- After the contract nothing more is counted. -/
theorem counts_prepare {freeRow : Option Nat} {a b : Prep ρ}
    (henter : (enter c).run p = .ok freeRow a) (hresolve : (resolve c vetting).run a = .ok (some i) b) :
    (final ((prepare c vetting).run p)).counts = (final ((contract i).run b)).counts := by
  unfold prepare
  rw [run_bind_ok henter, run_bind_ok hresolve]
  refine Eq.trans (final_bind_same (fun placed => ?_) b) (counts_settle freeRow b i)
  exact (counts_of_table table_finalGate).bind fun _ => counts_conclude placed

theorem prepare_refused {freeRow : Option Nat} {a b : Prep ρ}
    (henter : (enter c).run p = .ok freeRow a) (hresolve : (resolve c vetting).run a = .ok (some i) b)
    {q : Prep ρ} (hcontract : (contract i).run b = .error 429 q) :
    (prepare c vetting).run p = .error 429 q := by
  have hscope : (scopeAt i).run b = .ok (b.gateway.scopes i) b := rfl
  have hplaced : (placeScoped c vetting (some i)).run b = .error 429 q := by
    unfold placeScoped
    dsimp only
    rw [run_bind_ok hscope, run_bind_error hcontract]
  have hsettled : (settle c vetting freeRow (some i)).run b = .error 429 q := by
    unfold settle
    rw [run_bind_error hplaced]
  unfold prepare
  rw [run_bind_ok henter, run_bind_ok hresolve, run_bind_error hsettled]

theorem prepare_tallied (htidy : Tidy p.gateway)
    (hsound : Roster.Sound ρ.settings.implicit p.gateway.roster) :
    Tallied c vetting p ((prepare c vetting).run p) := by
  have hany : ∀ r ∈ c.polled, Intake.any.polled r := fun _ _ => trivial
  have hentered := counts_enter c p
  have hdrafts := enter_drafts (w := .any) hany htidy
  cases henter : (enter c).run p with
  | error status q =>
      rw [henter] at hentered
      have hrun : (prepare c vetting).run p = .error status q := by
        unfold prepare
        rw [run_bind_error henter]
      rw [hrun]
      refine .outside (fun i b hcomes => ?_) hentered fun q hok => ?_
      · obtain ⟨freeRow, a, henter', -⟩ := hcomes
        rw [henter] at henter'
        cases henter'
      · cases hok
  | ok freeRow a =>
      rw [henter] at hentered hdrafts
      have hstill : Tidy a.gateway := hdrafts.1.tidy htidy
      have hresolved := counts_resolve c vetting hstill
      cases hresolve : (resolve c vetting).run a with
      | error status q =>
          rw [hresolve] at hresolved
          have hrun : (prepare c vetting).run p = .error status q := by
            unfold prepare
            rw [run_bind_ok henter, run_bind_error hresolve]
          rw [hrun]
          refine .outside (fun i b hcomes => ?_) (hentered.trans hresolved) fun q hok => ?_
          · obtain ⟨freeRow', a', henter', hresolve'⟩ := hcomes
            rw [henter] at henter'
            cases henter'
            rw [hresolve] at hresolve'
            cases hresolve'
          · cases hok
      | ok scope b =>
          rw [hresolve] at hresolved
          have hbefore : Counts p.gateway b.gateway := hentered.trans hresolved
          cases scope with
          | none =>
              refine .outside (fun i d hcomes => ?_) ?_ fun q hrun => ?_
              · obtain ⟨freeRow', a', henter', hresolve'⟩ := hcomes
                rw [henter] at henter'
                cases henter'
                rw [hresolve] at hresolve'
                cases hresolve'
              · have hrest : (final ((prepare c vetting).run p)).counts = b.counts := by
                  unfold prepare
                  rw [run_bind_ok henter, run_bind_ok hresolve]
                  refine Eq.trans (final_bind_same (fun placed => ?_) b)
                    (counts_settle_none freeRow b)
                  exact (counts_of_table table_finalGate).bind fun _ => counts_conclude placed
                rw [counts_eq_iff] at hrest
                exact hbefore.trans (.same hrest.1 hrest.2)
              · obtain ⟨placed, a', b', d, hcourse⟩ := prepare_course (w := .any) hany htidy hsound hrun
                have henter' := hcourse.entered
                rw [henter] at henter'
                cases henter'
                have hscope := hcourse.resolved
                rw [hresolve] at hscope
                obtain ⟨hnone, -⟩ := EStateM.Result.ok.inj hscope
                unfold Prep.serial
                rw [hcourse.scope, ← hnone]
                rfl
          | some i =>
              have hcomes : Comes c vetting p i b := ⟨freeRow, a, henter, hresolve⟩
              have hopen : (b.gateway.scopes i).isOpen = true :=
                (resolve_course (w := .any) hany htidy hsound henter hresolve).2.2.1.isOpen i rfl
              have hcontract := counts_contract b i
              have hrest := counts_prepare henter hresolve
              by_cases hwithin : withinRequests ρ (b.gateway.scopes i) = true
              · rw [if_pos hwithin] at hcontract
                have hraises : Raises i b.gateway (final ((prepare c vetting).run p)).gateway := by
                  rw [counts_eq_iff] at hrest
                  refine ⟨hrest.1.trans hcontract.opened, (hrest.2 i).trans hcontract.own,
                    fun j hj => (hrest.2 j).trans (hcontract.others j hj)⟩
                cases hrun : (prepare c vetting).run p with
                | error status q =>
                    rw [hrun] at hraises
                    exact .denied hcomes hbefore hopen hwithin hraises
                | ok _ q =>
                    rw [hrun] at hraises
                    refine .admitted hcomes hbefore hopen hwithin hraises ?_
                    obtain ⟨placed, a', b', d, hcourse⟩ :=
                      prepare_course (w := .any) hany htidy hsound hrun
                    have henter' := hcourse.entered
                    rw [henter] at henter'
                    cases henter'
                    have hscope := hcourse.resolved
                    rw [hresolve] at hscope
                    obtain ⟨hsome, -⟩ := EStateM.Result.ok.inj hscope
                    unfold Prep.serial
                    rw [hcourse.scope, ← hsome]
                    exact congrArg (fun n => n.2.1) hraises.own
              · rw [if_neg hwithin] at hcontract
                obtain ⟨hkept, q, hq⟩ := hcontract
                rw [hq] at hkept
                rw [prepare_refused henter hresolve hq]
                exact .refused hcomes hbefore hopen (Bool.not_eq_true _ ▸ hwithin) hkept

end Preparation

/-! ## Accounts -/

/-- Every open scope counts the admitted requests of its session and those that were wasted on it,
and neither is more than the allowance. -/
structure Accounts {count : Nat} (allowance : Nat) (g : GatewayContext count)
    (admitted : Nat → Nat) (wasted : Nat → Prop) : Prop where
  slots : ∀ i, (g.scopes i).isOpen = true → ∃ late,
    (g.scopes i).requests = admitted (g.scopes i).serial + late ∧
      (0 < late ↔ wasted (g.scopes i).serial)
  later : ∀ serial, g.opened < serial → admitted serial = 0 ∧ ¬ wasted serial
  admitted : allowance ≠ 0 → ∀ serial, 0 < serial → admitted serial ≤ allowance
  requests : allowance ≠ 0 → ∀ i, (g.scopes i).isOpen = true → (g.scopes i).requests ≤ allowance

section Accounts

variable {count allowance : Nat} {g k : GatewayContext count} {admitted admitted' : Nat → Nat}
  {wasted wasted' : Nat → Prop}

theorem Accounts.counts (h : Accounts allowance g admitted wasted) (hcounts : Counts g k) :
    Accounts allowance k admitted wasted := by
  refine ⟨fun i hopen => ?_, fun serial hserial => h.later serial (hcounts.opened.trans_lt hserial),
    h.admitted, fun hallowance i hopen => ?_⟩
  · cases hcounts.slot i with
    | inl hsame =>
        have hopen' : (k.scopes i).isOpen = (g.scopes i).isOpen := congrArg Prod.fst hsame
        have hserial : (k.scopes i).serial = (g.scopes i).serial :=
          congrArg (fun n => n.2.1) hsame
        have hrequests : (k.scopes i).requests = (g.scopes i).requests :=
          congrArg (fun n => n.2.2) hsame
        rw [hserial, hrequests]
        exact h.slots i (hopen'.symm.trans hopen)
    | inr hnew =>
        obtain ⟨hnone, hunwasted⟩ := h.later _ (hnew.2 hopen)
        refine ⟨0, by rw [hnew.1, hnone], fun hlate => absurd hlate (Nat.lt_irrefl 0), fun hwasted => ?_⟩
        exact absurd hwasted hunwasted
  · cases hcounts.slot i with
    | inl hsame =>
        have hopen' : (k.scopes i).isOpen = (g.scopes i).isOpen := congrArg Prod.fst hsame
        have hrequests : (k.scopes i).requests = (g.scopes i).requests :=
          congrArg (fun n => n.2.2) hsame
        rw [hrequests]
        exact h.requests hallowance i (hopen'.symm.trans hopen)
    | inr hnew =>
        rw [hnew.1]
        exact Nat.zero_le _

/-- Only the numbers of scopes matter, which are positive. -/
theorem Accounts.congr (h : Accounts allowance g admitted wasted)
    (hpositive : ∀ i, (g.scopes i).isOpen = true → 0 < (g.scopes i).serial)
    (hadmitted : ∀ serial, 0 < serial → admitted' serial = admitted serial)
    (hwasted : ∀ serial, wasted' serial ↔ wasted serial) :
    Accounts allowance g admitted' wasted' := by
  refine ⟨fun i hopen => ?_, fun serial hserial => ?_, fun hallowance serial hserial => ?_,
    h.requests⟩
  · rw [hadmitted _ (hpositive i hopen), hwasted]
    exact h.slots i hopen
  · rw [hadmitted _ (Nat.zero_lt_of_lt hserial), hwasted]
    exact h.later serial hserial
  · rw [hadmitted serial hserial]
    exact h.admitted hallowance serial hserial

/-- The accounts after a request was counted, and admitted or wasted. -/
theorem Accounts.raise (h : Accounts allowance g admitted wasted) {i : Slot}
    (hraises : Raises i g k) (hopen : (g.scopes i).isOpen = true)
    (hwithin : allowance ≠ 0 → (g.scopes i).requests < allowance)
    (hserial : (g.scopes i).serial ≤ g.opened)
    (hunique : ∀ j, (g.scopes j).isOpen = true → (g.scopes j).serial = (g.scopes i).serial → j = i)
    (hother : ∀ serial, serial ≠ (g.scopes i).serial →
      admitted' serial = admitted serial ∧ (wasted' serial ↔ wasted serial))
    (hown : admitted' (g.scopes i).serial = admitted (g.scopes i).serial + 1 ∧
        (wasted' (g.scopes i).serial ↔ wasted (g.scopes i).serial) ∨
      admitted' (g.scopes i).serial = admitted (g.scopes i).serial ∧ wasted' (g.scopes i).serial) :
    Accounts allowance k admitted' wasted' := by
  obtain ⟨late, hlate, hwasted⟩ := h.slots i hopen
  have hkserial : (k.scopes i).serial = (g.scopes i).serial := congrArg (fun n => n.2.1) hraises.own
  have hkrequests : (k.scopes i).requests = (g.scopes i).requests + 1 :=
    congrArg (fun n => n.2.2) hraises.own
  have hj : ∀ j, j ≠ i → (k.scopes j).isOpen = (g.scopes j).isOpen ∧
      (k.scopes j).serial = (g.scopes j).serial ∧ (k.scopes j).requests = (g.scopes j).requests :=
    fun j hji =>
      ⟨congrArg Prod.fst (hraises.others j hji), congrArg (fun n => n.2.1) (hraises.others j hji),
        congrArg (fun n => n.2.2) (hraises.others j hji)⟩
  refine ⟨fun j hjopen => ?_, fun serial hlater => ?_, fun hallowance serial hpositive => ?_,
    fun hallowance j hjopen => ?_⟩
  · by_cases hji : j = i
    · rw [hji, hkserial, hkrequests]
      cases hown with
      | inl hadmits => exact ⟨late, by omega, hwasted.trans hadmits.2.symm⟩
      | inr hwastes => exact ⟨late + 1, by omega, fun _ => hwastes.2, fun _ => Nat.succ_pos late⟩
    · obtain ⟨hsame, hnumber, hcount⟩ := hj j hji
      have hwas : (g.scopes j).isOpen = true := hsame.symm.trans hjopen
      have hdistinct : (g.scopes j).serial ≠ (g.scopes i).serial := fun heq =>
        hji (hunique j hwas heq)
      rw [hnumber, hcount, (hother _ hdistinct).1, (hother _ hdistinct).2]
      exact h.slots j hwas
  · rw [hraises.opened] at hlater
    have hdistinct : serial ≠ (g.scopes i).serial := by omega
    rw [(hother _ hdistinct).1, (hother _ hdistinct).2]
    exact h.later serial hlater
  · by_cases heq : serial = (g.scopes i).serial
    · have hless := hwithin hallowance
      rw [heq]
      cases hown with
      | inl hadmits => omega
      | inr hwastes => omega
    · rw [(hother _ heq).1]
      exact h.admitted hallowance serial hpositive
  · by_cases hji : j = i
    · rw [hji, hkrequests]
      exact hwithin hallowance
    · obtain ⟨hsame, -, hcount⟩ := hj j hji
      rw [hcount]
      exact h.requests hallowance j (hsame.symm.trans hjopen)

end Accounts

/-! ## Runs -/

/-- The exchange was admitted, in the scope with the number. -/
def Exchange.admitted {count : Nat} (e : Exchange count) (serial : Nat) : Bool :=
  (e.ticket.begun || e.ticket.finished) && decide (e.serial = serial)

/-- How many requests were admitted in the scope with the number. -/
def State.admitted (s : State ρ) (serial : Nat) : Nat :=
  s.exchanges.countP fun e => e.admitted serial

/-- The step denies a request after it has counted it for the session with the number. -/
def Wastes (serial : Nat) (s : State ρ) (event : Event) (_ : Answer) (_ _ : State ρ) : Prop :=
  ∃ id now verdict polled e i b status q, event = .prepare id now verdict polled ∧
    s.exchanges[id]? = some e ∧ e.prepared = false ∧
    Comes (e.call now verdict polled) (vet s.runtime verdict) (e.prep s.gateway) i b ∧
    (b.gateway.scopes i).serial = serial ∧ withinRequests ρ (b.gateway.scopes i) = true ∧
    (prepare (e.call now verdict polled) (vet s.runtime verdict)).run (e.prep s.gateway) =
      .error status q

/-- A request of the session with the number was denied after it had been counted. -/
def Wasted (start : State ρ) (history : List (Event × Answer)) (s : State ρ) (serial : Nat) :
    Prop :=
  Trace.Since step start (Wastes serial) history s

/-- The number of its session's requests is why the request is denied. -/
def Refused (s : State ρ) (e : Exchange ρ.settings.count) (now : Nat)
    (verdict : Json → Option Text → Verdict) (polled : List InterpreterResult) (serial : Nat) :
    Prop :=
  ∃ i b, Comes (e.call now verdict polled) (vet s.runtime verdict) (e.prep s.gateway) i b ∧
    (b.gateway.scopes i).serial = serial ∧ withinRequests ρ (b.gateway.scopes i) = false

section Runs

variable {s t start : State ρ} {event : Event} {answer : Answer} {history : List (Event × Answer)}
  {id : Nat} {e e' : Exchange ρ.settings.count}

theorem wasted_step_iff (run : Trace.Runs step start history s) (hstep : step s event = (answer, t))
    (serial : Nat) : Wasted start (history ++ [(event, answer)]) t serial ↔
      Wasted start history s serial ∨ Wastes serial s event answer t t := by
  constructor
  · exact Trace.Since.last_or (fun _ _ _ _ _ _ h => h) run hstep
  · intro h
    cases h with
    | inl hbefore => exact hbefore.next hstep fun _ _ _ _ h => h
    | inr hnow => exact .now run hstep hnow

theorem admitted_set (he : s.exchanges[id]? = some e) {serial : Nat}
    (h : e'.admitted serial = e.admitted serial) (g : GatewayContext ρ.settings.count) :
    (s.setExchange id e' g).admitted serial = s.admitted serial := by
  have hreplace := Tally.countP_replace (p := fun e => e.admitted serial) (y := e') he
  rw [h] at hreplace
  exact Nat.add_right_cancel hreplace

theorem admitted_of_ticket (hserial : e'.serial = e.serial)
    (hbegun : e'.ticket.begun = e.ticket.begun) (hfinished : e'.ticket.finished = e.ticket.finished)
    (serial : Nat) : e'.admitted serial = e.admitted serial := by
  unfold Exchange.admitted
  rw [hserial, hbegun, hfinished]

theorem Retreated.counts {p q : Prep ρ} (h : Retreated p q) : q.counts = p.counts := by
  refine counts_eq_iff.mpr ⟨?_, fun i => ?_⟩
  · rw [h.gateway]
  · rw [h.scopes i]
    rfl

theorem finish_counts (f : Finish) (now : Nat) (s : Scope) : (s.finish ρ f now).tally = s.tally := by
  have hrequests : (s.finish ρ f now).requests = s.requests :=
    (finish_finished f now s).get (fun u => u.requests) fun _ => rfl
  unfold Scope.tally
  rw [hrequests]
  rfl

/-- A retry counts nothing, and is no other request. -/
theorem failoverStep_counts (he : s.exchanges[id]? = some e) (context : Bool) (now : Nat) :
    (∀ i, ((failoverStep s id e context now).2.gateway.scopes i).tally =
        (s.gateway.scopes i).tally) ∧
      (failoverStep s id e context now).2.gateway.opened = s.gateway.opened ∧
      ∀ serial, (failoverStep s id e context now).2.admitted serial = s.admitted serial := by
  have hretreated := (failover_retreat s.vetting e.request.automatic e.request.headers context now
    (e.prep s.gateway)).retreated
  unfold failoverStep
  generalize failover s.vetting e.request.automatic e.request.headers context now
    (e.prep s.gateway) = r at hretreated
  have hcounts := counts_eq_iff.mp hretreated.counts
  refine ⟨hcounts.2, hcounts.1, fun serial => ?_⟩
  refine admitted_set he ?_ _
  refine admitted_of_ticket ?_ ?_ ?_ serial
  · rfl
  · have hbegun := congrArg Ticket.begun hretreated.ticket
    exact hbegun
  · have hfinished := congrArg Ticket.finished hretreated.ticket
    exact hfinished

/-- Steps that prepare no request admit none. -/
theorem step_counts (hpoised : Poised s) (hstep : step s event = (answer, t))
    (hevent : ∀ id now verdict polled, event ≠ .prepare id now verdict polled) :
    Counts s.gateway t.gateway ∧ ∀ serial, t.admitted serial = s.admitted serial := by
  have hshifts : ∀ {g : GatewayContext ρ.settings.count}, Shifts ρ .any s.gateway g →
      Counts s.gateway g := fun h => h.counts hpoised.tidy
  cases event with
  | «open» body now =>
      cases hstep
      exact ⟨hshifts (shifts_openScope hpoised.tidy body now), fun _ => rfl⟩
  | close body now =>
      cases hstep
      exact ⟨hshifts (shifts_close s.gateway body now), fun _ => rfl⟩
  | hint body now =>
      cases hstep
      exact ⟨hshifts (shifts_hint s.gateway body now), fun _ => rfl⟩
  | ingest body now submitted =>
      cases hstep
      exact ⟨hshifts (shifts_ingest s.gateway s.runtime body now submitted fun _ _ _ _ => trivial),
        fun _ => rfl⟩
  | poll now results =>
      cases hstep
      exact ⟨hshifts (shifts_pollLocked s.gateway _ now results fun _ _ => trivial), fun _ => rfl⟩
  | arrive request now judged =>
      cases hstep
      refine ⟨.aside (aside_recordJudgement s.gateway _ now), fun serial => ?_⟩
      show List.countP _ (s.exchanges ++ [_]) = _
      rw [List.countP_append]
      rfl
  | prepare id now verdict polled => exact absurd rfl (hevent id now verdict polled)
  | shadow id started =>
      unfold step at hstep
      dsimp only at hstep
      split at hstep
      · cases hstep
        exact ⟨.refl _, fun _ => rfl⟩
      · next e he =>
          obtain ⟨he, -⟩ := Option.filter_eq_some_iff.mp he
          have huntaken := shadow_untaken s.vetting e.request.automatic e.request.headers started
            (e.prep s.gateway)
          unfold shadowStep at hstep
          generalize shadow s.vetting e.request.automatic e.request.headers started
            (e.prep s.gateway) = r at hstep huntaken
          cases hstep
          refine ⟨.aside huntaken.1, fun serial => ?_⟩
          refine admitted_set he ?_ _
          refine admitted_of_ticket ?_ ?_ ?_ serial
          · rfl
          · exact huntaken.2.begun
          · exact huntaken.2.finished
  | shadowDone cost =>
      cases hstep
      exact ⟨.aside (aside_shadowDone cost s.gateway), fun _ => rfl⟩
  | outcome endpoint model status retryAfterMs now =>
      cases hstep
      exact ⟨.aside (aside_noteOutcome s.gateway endpoint model status retryAfterMs now),
        fun _ => rfl⟩
  | failover id context now =>
      unfold step at hstep
      dsimp only at hstep
      split at hstep
      · cases hstep
        exact ⟨.refl _, fun _ => rfl⟩
      · next e he =>
          obtain ⟨he, -⟩ := Option.filter_eq_some_iff.mp he
          cases hstep
          obtain ⟨htallies, hopened, hadmitted⟩ := failoverStep_counts he context now
          exact ⟨.same hopened htallies, hadmitted⟩
  | finish id f now =>
      unfold step at hstep
      dsimp only at hstep
      split at hstep
      · cases hstep
        exact ⟨.refl _, fun _ => rfl⟩
      · next e he =>
          by_cases hgo : e.ticket.begun = true ∧ e.ticket.finished = false
          · cases hstep
            have hended := finishStep_ended s id f now hgo.1 hgo.2
            constructor
            · refine .same ?_ fun i => ?_
              · rw [hended.gateway]
                rfl
              · by_cases hi : e.ticket.scope = some i
                · rw [hended.own i hi]
                  exact finish_counts f now _
                · rw [hended.others i hi]
            · intro serial
              have hexchanges := (finishStep_eq s id e f now).2
              unfold State.admitted
              rw [hexchanges]
              have hsame : ({ e with
                  ticket := (finish f now s.gateway e.ticket).2.1
                  live := false } : Exchange ρ.settings.count).admitted serial =
                    e.admitted serial := by
                unfold Exchange.admitted
                dsimp only
                rw [hended.ticket, hgo.1]
                rfl
              exact admitted_set he hsame s.gateway
          · rw [finishStep_idle f hpoised.fenced he hgo] at hstep
            cases hstep
            exact ⟨.refl _, fun _ => rfl⟩

theorem wastes_prepare_iff (he : s.exchanges[id]? = some e) (hfresh : e.prepared = false)
    {now : Nat} {verdict : Json → Option Text → Verdict} {polled : List InterpreterResult}
    {serial : Nat} {u v : State ρ} :
    Wastes serial s (.prepare id now verdict polled) answer u v ↔ ∃ i b status q,
      Comes (e.call now verdict polled) (vet s.runtime verdict) (e.prep s.gateway) i b ∧
      (b.gateway.scopes i).serial = serial ∧ withinRequests ρ (b.gateway.scopes i) = true ∧
      (prepare (e.call now verdict polled) (vet s.runtime verdict)).run (e.prep s.gateway) =
        .error status q := by
  constructor
  · intro h
    obtain ⟨_, _, _, _, e', i, b, status, q, hevent, he', -, hcomes, hserial, hwithin, hrun⟩ := h
    cases hevent
    rw [he] at he'
    cases he'
    exact ⟨i, b, status, q, hcomes, hserial, hwithin, hrun⟩
  · intro h
    obtain ⟨i, b, status, q, hcomes, hserial, hwithin, hrun⟩ := h
    exact ⟨id, now, verdict, polled, e, i, b, status, q, rfl, he, hfresh, hcomes, hserial, hwithin, hrun⟩

theorem admitted_fresh (hfenced : Fenced s) (he : s.exchanges[id]? = some e)
    (hfresh : e.prepared = false) (serial : Nat) : e.admitted serial = false := by
  have hticket : e.ticket = .fresh := ((hfenced.fit id e he).unprepared hfresh).2.2
  unfold Exchange.admitted
  rw [hticket]
  rfl

/-- The request of a preparation is admitted or not. -/
theorem admitted_prepared (hfenced : Fenced s) (he : s.exchanges[id]? = some e)
    (hfresh : e.prepared = false) (g : GatewayContext ρ.settings.count) (serial : Nat) :
    (s.setExchange id e' g).admitted serial =
      s.admitted serial + if e'.admitted serial then 1 else 0 := by
  have hreplace := Tally.countP_replace (p := fun e => e.admitted serial) (y := e') he
  rw [admitted_fresh hfenced he hfresh serial, if_neg Bool.false_ne_true, Nat.add_zero] at hreplace
  exact hreplace

theorem allowance_of_within {u : Scope} (h : withinRequests ρ u = true)
    (hallowance : ρ.settings.budget.sessionRequests ≠ 0) :
    u.requests < ρ.settings.budget.sessionRequests := by
  unfold withinRequests at h
  rw [Bool.or_eq_true, decide_eq_true_eq, decide_eq_true_eq] at h
  exact h.resolve_left hallowance

/-- A preparation keeps the accounts. -/
theorem prepareStep_accounts (hpoised : Poised s) (hlater : Poised t)
    (run : Trace.Runs step start history s) (he : s.exchanges[id]? = some e)
    (hfresh : e.prepared = false) {now : Nat} {verdict : Json → Option Text → Verdict}
    {polled : List InterpreterResult}
    (hstep : step s (.prepare id now verdict polled) = (answer, t))
    (h : Accounts ρ.settings.budget.sessionRequests s.gateway s.admitted (Wasted start history s)) :
    Accounts ρ.settings.budget.sessionRequests t.gateway t.admitted
      (Wasted start (history ++ [(.prepare id now verdict polled, answer)]) t) := by
  have hany : ∀ r ∈ (e.call now verdict polled).polled, Intake.any.polled r := fun _ _ => trivial
  have hsound : Roster.Sound ρ.settings.implicit (e.prep s.gateway).gateway.roster :=
    hpoised.fenced.sound
  have htidy : Tidy (e.prep s.gateway).gateway := hpoised.tidy
  have hwasted := fun serial => wasted_step_iff run hstep serial
  have htallied := @prepare_tallied ρ (e.call now verdict polled) (vet s.runtime verdict) _ htidy
    hsound
  have hlatersound := hlater.fenced.sound
  rw [step_prepare he hfresh] at hstep
  unfold prepareStep at hstep
  simp only [wastes_prepare_iff he hfresh] at hwasted
  cases hrun : (prepare (e.call now verdict polled) (vet s.runtime verdict)).run
      (e.prep s.gateway) with
  | error status q =>
      have hdenied := prepare_denied (w := .any) hany htidy hsound hrun
      rw [show (e.call now verdict polled).verdict = verdict from rfl, hrun] at hstep
      rw [hrun] at htallied hwasted
      cases hstep
      have hunadmitted : ∀ serial, (s.setExchange id { e.after q with prepared := true }
          q.gateway).admitted serial = s.admitted serial := by
        intro serial
        rw [admitted_prepared hpoised.fenced he hfresh]
        have hnone : ({ e.after q with prepared := true } :
            Exchange ρ.settings.count).admitted serial = false := by
          unfold Exchange.admitted Exchange.after
          dsimp only
          rw [hdenied.ticket.begun, hdenied.ticket.finished]
          rfl
        rw [hnone]
        rfl
      generalize hresult : (EStateM.Result.error status q :
        EStateM.Result Nat (Prep ρ) Unit) = r at htallied
      cases htallied with
      | outside hnever hcounts _ =>
          rw [← hresult] at hcounts
          refine (h.counts hcounts).congr (fun i hopen => (hlatersound.bounded i hopen).1)
            (fun serial _ => hunadmitted serial) fun serial => ?_
          rw [hwasted]
          refine or_iff_left fun hwastes => ?_
          obtain ⟨i, b, status', q', hcomes, -⟩ := hwastes
          exact hnever i b hcomes
      | @refused i b q' hcomes hcounts hopen hover hsame =>
          cases hresult
          rw [counts_eq_iff] at hsame
          refine ((h.counts hcounts).counts (.same hsame.1 hsame.2)).congr
            (fun i hopen => (hlatersound.bounded i hopen).1) (fun serial _ => hunadmitted serial)
            fun serial => ?_
          rw [hwasted]
          refine or_iff_left fun hwastes => ?_
          obtain ⟨j, d, status', q', hcomes', -, hwithin, -⟩ := hwastes
          obtain ⟨rfl, rfl⟩ := hcomes.unique hcomes'
          rw [hover] at hwithin
          cases hwithin
      | @denied i b q' status' hcomes hcounts hopen hwithin hraises =>
          cases hresult
          obtain ⟨hknown, hunique⟩ := hraises.numbered hopen hlatersound
          refine (h.counts hcounts).raise hraises hopen (allowance_of_within hwithin) hknown hunique
            (fun serial hdistinct => ?_) ?_
          · refine ⟨hunadmitted serial, ?_⟩
            rw [hwasted]
            refine or_iff_left fun hwastes => ?_
            obtain ⟨j, d, status', q', hcomes', hserial, -⟩ := hwastes
            obtain ⟨rfl, rfl⟩ := hcomes.unique hcomes'
            exact hdistinct hserial.symm
          · refine .inr ⟨hunadmitted _, ?_⟩
            rw [hwasted]
            exact .inr ⟨i, b, _, q, hcomes, rfl, hwithin, rfl⟩
      | admitted => cases hresult
  | ok _ q =>
      obtain ⟨placed, a, b', d, hcourse⟩ := prepare_course (w := .any) hany htidy hsound hrun
      have hbegun : q.ticket.begun = true := hcourse.concluded.begun
      rw [show (e.call now verdict polled).verdict = verdict from rfl, hrun] at hstep
      rw [hrun] at htallied hwasted
      have hunwasted : ∀ serial, Wasted start (history ++ [(.prepare id now verdict polled, answer)])
          t serial ↔ Wasted start history s serial := by
        intro serial
        rw [hwasted]
        refine or_iff_left fun hwastes => ?_
        obtain ⟨j, d', status', q', -, -, -, hdenied⟩ := hwastes
        cases hdenied
      cases hstep
      have hadmitted : ∀ serial, (s.setExchange id (e.begin q) q.gateway).admitted serial =
          s.admitted serial + if q.serial = serial then 1 else 0 := by
        intro serial
        have hbegins : (e.begin q).admitted serial = decide (q.serial = serial) := by
          unfold Exchange.admitted Exchange.begin Exchange.after
          dsimp only
          rw [hbegun]
          rfl
        rw [admitted_prepared hpoised.fenced he hfresh, hbegins]
        simp only [decide_eq_true_eq]
      generalize hresult : (EStateM.Result.ok () q : EStateM.Result Nat (Prep ρ) Unit) = r at htallied
      cases htallied with
      | outside hnever hcounts hserial =>
          rw [← hresult] at hcounts
          have hzero : q.serial = 0 := hserial q hresult.symm
          refine (h.counts hcounts).congr (fun i hopen => (hlatersound.bounded i hopen).1)
            (fun serial hpositive => ?_) hunwasted
          have hother : q.serial ≠ serial := by omega
          have hnow := hadmitted serial
          rw [if_neg hother] at hnow
          exact hnow
      | refused => cases hresult
      | denied => cases hresult
      | @admitted i b q' hcomes hcounts hopen hwithin hraises hserial =>
          cases hresult
          obtain ⟨hknown, hunique⟩ := hraises.numbered hopen hlatersound
          refine (h.counts hcounts).raise hraises hopen (allowance_of_within hwithin) hknown hunique
            (fun serial hdistinct => ?_) ?_
          · have hnow := hadmitted serial
            rw [hserial, if_neg hdistinct.symm] at hnow
            exact ⟨hnow, hunwasted serial⟩
          · have hnow := hadmitted (b.gateway.scopes i).serial
            rw [hserial, if_pos rfl] at hnow
            exact .inl ⟨hnow, hunwasted _⟩

/-- A step keeps the accounts. -/
theorem step_accounts (hpoised : Poised s) (run : Trace.Runs step start history s)
    (hstep : step s event = (answer, t))
    (h : Accounts ρ.settings.budget.sessionRequests s.gateway s.admitted (Wasted start history s)) :
    Accounts ρ.settings.budget.sessionRequests t.gateway t.admitted
      (Wasted start (history ++ [(event, answer)]) t) := by
  have hlater : Poised t := hpoised.next hstep
  have hpositive : ∀ i, (t.gateway.scopes i).isOpen = true → 0 < (t.gateway.scopes i).serial :=
    fun i hopen => (hlater.fenced.sound.bounded i hopen).1
  by_cases hprepare : ∃ id now verdict polled e, event = .prepare id now verdict polled ∧
      s.exchanges[id]? = some e ∧ e.prepared = false
  · obtain ⟨id, now, verdict, polled, e, rfl, he, hfresh⟩ := hprepare
    exact prepareStep_accounts hpoised hlater run he hfresh hstep h
  · have hunwasted : ∀ serial, Wasted start (history ++ [(event, answer)]) t serial ↔
        Wasted start history s serial := by
      intro serial
      rw [wasted_step_iff run hstep]
      refine or_iff_left fun hwastes => hprepare ?_
      obtain ⟨id, now, verdict, polled, e, i, b, status, q, hevent, he, hfresh, -⟩ := hwastes
      exact ⟨id, now, verdict, polled, e, hevent, he, hfresh⟩
    have hsame : Counts s.gateway t.gateway ∧ ∀ serial, t.admitted serial = s.admitted serial := by
      by_cases hevent : ∃ id now verdict polled, event = .prepare id now verdict polled
      · -- a second preparation of one exchange is none
        obtain ⟨id, now, verdict, polled, rfl⟩ := hevent
        unfold step at hstep
        dsimp only at hstep
        split at hstep
        · cases hstep
          exact ⟨.refl _, fun _ => rfl⟩
        · next e he =>
            obtain ⟨he, hfresh⟩ := Option.filter_eq_some_iff.mp he
            exact absurd ⟨id, now, verdict, polled, e, rfl, he, by simpa using hfresh⟩ hprepare
      · exact step_counts hpoised hstep fun id now verdict polled heq =>
          hevent ⟨id, now, verdict, polled, heq⟩
    exact (h.counts hsame.1).congr hpositive (fun serial _ => hsame.2 serial) hunwasted

/-- The accounts of every run. -/
theorem accounts_run (hstart : Started ρ start) (run : Trace.Runs step start history s) :
    Poised s ∧ Accounts ρ.settings.budget.sessionRequests s.gateway s.admitted
      (Wasted start history s) := by
  refine run.induct (P := fun history s => Poised s ∧ Accounts ρ.settings.budget.sessionRequests
    s.gateway s.admitted (Wasted start history s)) ?_ fun history t event answer u hrun h hstep =>
      ⟨h.1.next hstep, step_accounts h.1 hrun hstep h.2⟩
  have hclosed : ∀ i, (start.gateway.scopes i).isOpen ≠ true := by
    intro i
    rw [hstart.scopes]
    exact Bool.false_ne_true
  have hnone : ∀ serial, start.admitted serial = 0 := by
    intro serial
    unfold State.admitted
    rw [hstart.exchanges]
    rfl
  refine ⟨poised_start hstart, fun i hopen => absurd hopen (hclosed i), fun serial _ => ?_,
    fun _ serial _ => ?_, fun _ i hopen => absurd hopen (hclosed i)⟩
  · refine ⟨hnone serial, fun hwasted => ?_⟩
    obtain ⟨earlier, event, answer, later, _, _, hhistory, -⟩ := hwasted
    exact absurd hhistory.symm (List.append_ne_nil_of_right_ne_nil earlier (List.cons_ne_nil _ _))
  · rw [hnone]
    exact Nat.zero_le _

/-- A request that is refused for the number of requests finds a full account. -/
theorem Accounts.refused {b : Prep ρ} {i : Slot} {admitted : Nat → Nat} {wasted : Nat → Prop}
    (h : Accounts ρ.settings.budget.sessionRequests b.gateway admitted wasted)
    (hopen : (b.gateway.scopes i).isOpen = true)
    (hover : withinRequests ρ (b.gateway.scopes i) = false) :
    admitted (b.gateway.scopes i).serial = ρ.settings.budget.sessionRequests ↔
      ¬ wasted (b.gateway.scopes i).serial := by
  obtain ⟨late, hlate, hwasted⟩ := h.slots i hopen
  unfold withinRequests at hover
  rw [Bool.or_eq_false_iff, decide_eq_false_iff_not, decide_eq_false_iff_not, not_lt] at hover
  have hfull := h.requests hover.1 i hopen
  rw [← hwasted]
  omega

/-- What `session_requests` promises.  No session has more admitted requests than the allowance, and
a retry is no further request.  A request that is refused for the allowance finds as many admitted
requests exactly when no request of the session was denied after it had been counted. -/
theorem allowance_iff (hallowance : ρ.settings.budget.sessionRequests ≠ 0) (hstart : Started ρ start)
    (run : Trace.Runs step start history s) :
    (∀ serial, 0 < serial → s.admitted serial ≤ ρ.settings.budget.sessionRequests) ∧
    (∀ id e now verdict polled serial, s.exchanges[id]? = some e → e.prepared = false →
      Refused s e now verdict polled serial →
      (step s (.prepare id now verdict polled)).1 = .denied 429 ∧
        (s.admitted serial = ρ.settings.budget.sessionRequests ↔ ¬ Wasted start history s serial)) ∧
    ∀ id context now, (∀ serial, (step s (.failover id context now)).2.admitted serial =
        s.admitted serial) ∧
      ∀ i, ((step s (.failover id context now)).2.gateway.scopes i).requests =
        (s.gateway.scopes i).requests := by
  obtain ⟨hpoised, haccounts⟩ := accounts_run hstart run
  refine ⟨haccounts.admitted hallowance, ?_, fun id context now => ?_⟩
  · intro id e now verdict polled serial he hfresh hrefused
    obtain ⟨i, b, hcomes, hserial, hover⟩ := hrefused
    have htallied := @prepare_tallied ρ (e.call now verdict polled) (vet s.runtime verdict)
      (e.prep s.gateway) hpoised.tidy hpoised.fenced.sound
    have hstep : (step s (.prepare id now verdict polled)).1 =
        (prepareStep s id e (e.call now verdict polled)).1 := by
      rw [step_prepare he hfresh]
    unfold prepareStep at hstep
    rw [show (e.call now verdict polled).verdict = verdict from rfl] at hstep
    generalize (prepare (e.call now verdict polled) (vet s.runtime verdict)).run
      (e.prep s.gateway) = r at htallied hstep
    have hwithin : ∀ {j : Slot} {d : Prep ρ}, Comes (e.call now verdict polled)
        (vet s.runtime verdict) (e.prep s.gateway) j d →
        withinRequests ρ (d.gateway.scopes j) ≠ true := by
      intro j d hcomes'
      obtain ⟨rfl, rfl⟩ := hcomes.unique hcomes'
      rw [hover]
      exact Bool.false_ne_true
    cases htallied with
    | outside hnever _ _ => exact absurd hcomes (hnever i b)
    | denied hcomes' _ _ hin _ => exact absurd hin (hwithin hcomes')
    | admitted hcomes' _ _ hin _ _ => exact absurd hin (hwithin hcomes')
    | refused hcomes' hcounts hopen _ _ =>
        obtain ⟨rfl, rfl⟩ := hcomes'.unique hcomes
        refine ⟨hstep, ?_⟩
        have hcoming : Counts s.gateway b.gateway := hcounts
        rw [← hserial]
        exact (haccounts.counts hcoming).refused hopen hover
  · unfold step
    dsimp only
    split
    · exact ⟨fun _ => rfl, fun _ => rfl⟩
    · next e he =>
        obtain ⟨he, -⟩ := Option.filter_eq_some_iff.mp he
        obtain ⟨htallies, -, hadmitted⟩ := failoverStep_counts he context now
        exact ⟨hadmitted, fun i => congrArg (fun n => n.2.2) (htallies i)⟩

end Runs

/-! ### A denied request uses the allowance -/

/-- The request is refused for the number of its session's requests. -/
def refusing (c : Call) (vetting : Json → Endpoint → Gated) (p : Prep ρ) (serial : Nat) : Bool :=
  passes (fun _ a => passes (fun scope b => scope.any fun i =>
    decide ((b.gateway.scopes i).serial = serial) && !withinRequests ρ (b.gateway.scopes i))
      ((resolve c vetting).run a)) ((enter c).run p)

theorem refused_of_refusing {s : State ρ} {e : Exchange ρ.settings.count} {now : Nat}
    {verdict : Json → Option Text → Verdict} {polled : List InterpreterResult} {serial : Nat}
    (h : refusing (e.call now verdict polled) (vet s.runtime verdict) (e.prep s.gateway) serial =
      true) : Refused s e now verdict polled serial := by
  obtain ⟨freeRow, a, henter, hresolves⟩ := ok_of_passes h
  obtain ⟨scope, b, hresolve, hscope⟩ := ok_of_passes hresolves
  obtain ⟨i, rfl, hover⟩ := (Option.any_eq_true _ _).mp hscope
  rw [Bool.and_eq_true, decide_eq_true_eq, Bool.not_eq_true'] at hover
  exact ⟨i, b, ⟨freeRow, a, henter, hresolve⟩, hover.1, hover.2⟩

/-- The third request of a conversation. -/
def thirdRequest : Request where
  automatic := true
  fields := [sessionHeader]
  members := [("model", .string "p"),
    ("messages", .array [Compliance.question, .object [("role", .string "assistant")],
      Compliance.question, .object [("role", .string "assistant")], Compliance.question]),
    ("max_tokens", .integer 9)]
  endpoint := .pub
  nodup := by decide
  addressed := by decide

/-- A router whose sessions may send two requests. -/
def pairedRouter : Router where
  runtime := sampleRuntime "openai-compatible" "openai-compatible"
  settings := { sampleSettings with budget := ⟨0, 0, 2, 0⟩ }
  neighbours := sampleNeighbours
  aliased := by decide

/-- The second request of the session has a member that M2 does not know. -/
def vetoedEvents : List Event :=
  secondEvents unknownRequest ++ [.prepare 1 6 sampleVerdict [], .arrive thirdRequest 7 ⟨false, none⟩]

def vetoedRun : List (Event × Answer) × State pairedRouter :=
  Trace.feed step (sampleStart pairedRouter) vetoedEvents

/-- The second request of the session is denied for what M2 makes of it; the third is refused for the
allowance of two requests, although only one was admitted. -/
theorem denied_uses_allowance : Reaches pairedRouter vetoedRun.1 vetoedRun.2 ∧
    (vetoedRun.1.map Prod.snd)[4]? = some (.denied 403) ∧
    pairedRouter.settings.budget.sessionRequests = 2 ∧
    ∃ e, vetoedRun.2.exchanges[2]? = some e ∧ e.prepared = false ∧
      Refused vetoedRun.2 e 8 sampleVerdict [] 1 ∧ vetoedRun.2.admitted 1 = 1 := by
  have hrun : (vetoedRun.1.map Prod.snd)[4]? = some (.denied 403) ∧
      (vetoedRun.2.exchanges[2]?).any (fun e => !e.prepared &&
        refusing (e.call 8 sampleVerdict []) (vet vetoedRun.2.runtime sampleVerdict)
          (e.prep vetoedRun.2.gateway) 1 && decide (vetoedRun.2.admitted 1 = 1)) = true := by
    decide +kernel
  refine ⟨⟨_, started_sampleStart pairedRouter, Trace.Runs.feed vetoedEvents _⟩, hrun.1, rfl, ?_⟩
  obtain ⟨e, he, hchecks⟩ := (Option.any_eq_true _ _).mp hrun.2
  simp only [Bool.and_eq_true, decide_eq_true_eq, Bool.not_eq_true'] at hchecks
  exact ⟨e, he, hchecks.1.1, refused_of_refusing hchecks.1.2, hchecks.2⟩

/-- After one admitted request the allowance of one is used up. -/
theorem allowance_iff_sample : ∃ e, cappedRun.2.exchanges[1]? = some e ∧
    Refused cappedRun.2 e 6 sampleVerdict [] 1 ∧ cappedRun.2.admitted 1 = 1 ∧
    (step cappedRun.2 (.prepare 1 6 sampleVerdict [])).1 = .denied 429 ∧
    ¬ Wasted (sampleStart cappedRouter) cappedRun.1 cappedRun.2 1 := by
  have hfound : (cappedRun.2.exchanges[1]?).any (fun e => !e.prepared &&
      refusing (e.call 6 sampleVerdict []) (vet cappedRun.2.runtime sampleVerdict)
        (e.prep cappedRun.2.gateway) 1 && decide (cappedRun.2.admitted 1 = 1)) = true := by
    decide +kernel
  obtain ⟨e, he, hchecks⟩ := (Option.any_eq_true _ _).mp hfound
  simp only [Bool.and_eq_true, decide_eq_true_eq, Bool.not_eq_true'] at hchecks
  have hrefused : Refused cappedRun.2 e 6 sampleVerdict [] 1 := refused_of_refusing hchecks.1.2
  have hrun : Trace.Runs step (sampleStart cappedRouter) cappedRun.1 cappedRun.2 :=
    Trace.Runs.feed (secondEvents (secondRequest [sessionHeader])) _
  obtain ⟨-, hrefuses, -⟩ :=
    allowance_iff (ρ := cappedRouter) (by decide) (started_sampleStart cappedRouter) hrun
  obtain ⟨hdenied, hiff⟩ := hrefuses 1 e 6 sampleVerdict [] 1 he hchecks.1.1 hrefused
  exact ⟨e, he, hrefused, hchecks.2, hdenied, hiff.mp hchecks.2⟩

end Recursant.Gateway
