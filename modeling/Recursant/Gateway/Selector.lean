import Mathlib.Data.Prod.Lex
import Mathlib.Tactic.Linarith
import Mathlib.Data.List.Perm.Basic
import Recursant.Gateway.Selection

/-!
# The selector

`selector.c` whole: every continuity, the required capabilities and the minimum saving, which the
gateway leaves at their neutral values.  Beside the two index scans stands what the header promises, a
choice that does not look at the order of the candidates.
-/

namespace Recursant.Selector

open Gateway (Quote SelectionReason oneClass)

/-! ## Registry -/

/-- `rc_candidate` -/
structure Candidate where
  aliasIndex : Nat
  qualifiedTasks : UInt64
  contextLimit : UInt64
  capabilities : UInt32
  deriving DecidableEq

def maxCandidates : Nat := 64

/-- `rc_candidate_registry`: a bounded table of different aliases. -/
structure Registry where
  version : UInt64
  candidates : List Candidate
  versioned : version ≠ 0
  nonempty : candidates ≠ []
  bounded : candidates.length ≤ maxCandidates
  limited : ∀ c ∈ candidates, c.contextLimit ≠ 0
  distinct : (candidates.map (·.aliasIndex)).Nodup

/-- `rc_candidates_create` -/
def create (version : UInt64) (candidates : List Candidate) : Option Registry :=
  if h : version ≠ 0 ∧ candidates ≠ [] ∧ candidates.length ≤ maxCandidates ∧
      (∀ c ∈ candidates, c.contextLimit ≠ 0) ∧ (candidates.map (·.aliasIndex)).Nodup then
    some ⟨version, candidates, h.1, h.2.1, h.2.2.1, h.2.2.2.1, h.2.2.2.2⟩
  else none

/-! ## Requests -/

inductive Continuity where
  | unknown
  | pinned
  | replayable
  deriving DecidableEq

/-- `rc_selection_request` -/
structure Request where
  registryVersion : UInt64
  baselineAlias : Nat
  pinnedAlias : Nat
  continuity : Continuity
  contextUsable : Bool
  now : UInt64
  contextObservedAt : UInt64
  contextExpiresAt : UInt64
  taskClass : UInt64
  contextTokens : UInt64
  requiredCapabilities : UInt32
  minimumSaving : Rat
  signalClass : UInt64
  escalationClass : UInt64

/-- `rc_selection` -/
structure Selection where
  aliasIndex : Nat
  reason : SelectionReason
  deriving DecidableEq

/-- `rc_select_status` -/
inductive Status where
  | ok
  | invalid
  | blocked
  deriving DecidableEq

/-! ## Selection -/

/-- A candidate with its quote and its position. -/
structure Row where
  candidate : Candidate
  quote : Quote
  position : Nat

namespace Row

def aliasIndex (x : Row) : Nat := x.candidate.aliasIndex

def cost (x : Row) : Rat := x.quote.expectedTaskCost

def qualified (x : Row) (task : UInt64) : Bool := x.candidate.qualifiedTasks &&& task ≠ 0

/-- Cheaper, and at one cost the smaller alias index. -/
def cheaper (x y : Row) : Bool :=
  x.cost < y.cost || (x.cost = y.cost && x.aliasIndex < y.aliasIndex)

end Row

def eligible (q : Request) (x : Row) : Bool :=
  x.quote.permitted && x.candidate.contextLimit ≥ q.contextTokens &&
    x.candidate.capabilities &&& q.requiredCapabilities = q.requiredCapabilities

def rows (r : Registry) (quotes : List Quote) : List Row :=
  (r.candidates.zip quotes).zipIdx.map fun p => ⟨p.1.1, p.1.2, p.2⟩

/-- The two tests of the arguments. -/
def wellFormed (r : Registry) (quotes : List Quote) (q : Request) : Bool :=
  quotes.length = r.candidates.length && q.registryVersion = r.version && q.contextTokens ≠ 0 &&
    0 ≤ q.minimumSaving && oneClass q.taskClass && oneClass q.signalClass &&
    oneClass q.escalationClass && quotes.all fun quote => 0 ≤ quote.expectedTaskCost

/-- The signal class, with the task class of context that is usable now. -/
def offeredClass (q : Request) : UInt64 :=
  if q.contextUsable && q.contextObservedAt ≤ q.now && q.now < q.contextExpiresAt then
    q.signalClass ||| q.taskClass
  else q.signalClass

/-- The escalation loop, which starts with no candidate. -/
def escalation (q : Request) (xs : List Row) : Option Row :=
  if q.escalationClass = 0 then none
  else Scan.best (fun x => eligible q x && x.qualified q.escalationClass) Row.cheaper xs

/-- The downshift loop, which starts with the baseline; a tie never replaces that. -/
def downshift (q : Request) (baseline : Row) (xs : List Row) : Row :=
  if offeredClass q = 0 then baseline
  else xs.foldl (fun best x =>
    if eligible q x && x.qualified (offeredClass q) &&
        (x.cost < best.cost || (best.position ≠ baseline.position && x.cost = best.cost &&
          x.aliasIndex < best.aliasIndex)) then x else best) baseline

/-- The choice from a baseline that is eligible. -/
def choose (q : Request) (baseline : Row) (xs : List Row) : Selection :=
  match escalation q xs with
  | some up => ⟨up.aliasIndex, if up.position = baseline.position then .baseline else .escalate⟩
  | none =>
      let best := downshift q baseline xs
      if best.position ≠ baseline.position && !(baseline.cost - best.cost ≤ q.minimumSaving) then
        ⟨best.aliasIndex, .cheapest⟩
      else ⟨baseline.aliasIndex, .baseline⟩

/-- `rc_select`: the status with what `out` holds afterwards. -/
def select (r : Registry) (quotes : List Quote) (q : Request) (out : Selection) :
    Status × Selection :=
  if !wellFormed r quotes q then (.invalid, out)
  else
    match q.continuity with
    | .unknown => (.blocked, out)
    | .pinned =>
        match (rows r quotes).find? fun x => x.aliasIndex = q.pinnedAlias && eligible q x with
        | some _ => (.ok, ⟨q.pinnedAlias, .pin⟩)
        | none => (.blocked, out)
    | .replayable =>
        match (rows r quotes).reverse.find? fun x => x.aliasIndex = q.baselineAlias with
        | none => (.blocked, out)
        | some baseline =>
            if eligible q baseline then (.ok, choose q baseline (rows r quotes))
            else (.blocked, out)

/-! ## What is promised -/

/-- A candidate with its quote, wherever they stand. -/
abbrev Offer : Type := Candidate × Quote

namespace Offer

variable (x : Offer)

def cost : Rat := x.2.expectedTaskCost

def Eligible (q : Request) : Prop :=
  x.2.permitted = true ∧ q.contextTokens ≤ x.1.contextLimit ∧
    x.1.capabilities &&& q.requiredCapabilities = q.requiredCapabilities

def Qualified (task : UInt64) : Prop := x.1.qualifiedTasks &&& task ≠ 0

end Offer

/-- The cheapest of the offers that meet a condition; at one cost the one with the smallest alias
index. -/
def Cheapest (offers : List Offer) (P : Offer → Prop) (x : Offer) : Prop :=
  x ∈ offers ∧ P x ∧ ∀ y ∈ offers, P y →
    x.cost < y.cost ∨ (x.cost = y.cost ∧ x.1.aliasIndex ≤ y.1.aliasIndex)

/-- An offer that may be taken for its task class alone. -/
def Escalates (q : Request) (x : Offer) : Prop := x.Eligible q ∧ x.Qualified q.escalationClass

/-- An offer that saves more than the minimum. -/
def Saves (q : Request) (baseline x : Offer) : Prop :=
  x.Eligible q ∧ x.Qualified (offeredClass q) ∧ q.minimumSaving < baseline.cost - x.cost

/-- The choice from an eligible baseline. -/
inductive Choice (offers : List Offer) (q : Request) (baseline : Offer) : Selection → Prop
  | escalate {x : Offer} : Cheapest offers (Escalates q) x →
      Choice offers q baseline
        ⟨x.1.aliasIndex, if x.1.aliasIndex = baseline.1.aliasIndex then .baseline else .escalate⟩
  | cheapest {x : Offer} : (∀ y ∈ offers, ¬Escalates q y) → Cheapest offers (Saves q baseline) x →
      Choice offers q baseline ⟨x.1.aliasIndex, .cheapest⟩
  | baseline : (∀ y ∈ offers, ¬Escalates q y) → (∀ y ∈ offers, ¬Saves q baseline y) →
      Choice offers q baseline ⟨baseline.1.aliasIndex, .baseline⟩

/-- The choice for a request, by its continuity. -/
inductive Chosen (offers : List Offer) (q : Request) : Selection → Prop
  | pin {x : Offer} : q.continuity = .pinned → x ∈ offers → x.1.aliasIndex = q.pinnedAlias →
      x.Eligible q → Chosen offers q ⟨q.pinnedAlias, .pin⟩
  | free {baseline : Offer} {selection : Selection} : q.continuity = .replayable →
      baseline ∈ offers → baseline.1.aliasIndex = q.baselineAlias → baseline.Eligible q →
      Choice offers q baseline selection → Chosen offers q selection

/-! ## Rows and offers -/

def offers (r : Registry) (quotes : List Quote) : List Offer := r.candidates.zip quotes

def Row.offer (x : Row) : Offer := (x.candidate, x.quote)

section Rows

variable {r : Registry} {quotes : List Quote} {q : Request}

theorem mem_rows {x : Row} : x ∈ rows r quotes ↔ (offers r quotes)[x.position]? = some x.offer := by
  unfold rows
  rw [List.mem_map]
  constructor
  · rintro ⟨⟨⟨c, quote⟩, i⟩, hmem, rfl⟩
    exact List.mk_mem_zipIdx_iff_getElem?.mp hmem
  · intro h
    exact ⟨(x.offer, x.position), List.mk_mem_zipIdx_iff_getElem?.mpr h, rfl⟩

theorem exists_row {y : Offer} (h : y ∈ offers r quotes) : ∃ x ∈ rows r quotes, x.offer = y := by
  obtain ⟨i, hi⟩ := List.mem_iff_getElem?.mp h
  exact ⟨⟨y.1, y.2, i⟩, mem_rows.mpr hi, rfl⟩

theorem offers_candidate {i : Nat} {y : Offer} (h : (offers r quotes)[i]? = some y) :
    r.candidates[i]? = some y.1 :=
  (List.getElem?_zip_eq_some.mp h).1

/-- Different positions, different aliases. -/
theorem position_eq_iff {x y : Row} (hx : x ∈ rows r quotes) (hy : y ∈ rows r quotes) :
    x.position = y.position ↔ x.aliasIndex = y.aliasIndex := by
  have hx' := offers_candidate (mem_rows.mp hx)
  have hy' := offers_candidate (mem_rows.mp hy)
  constructor
  · intro heq
    rw [heq, hy'] at hx'
    exact (congrArg (·.aliasIndex) (Option.some.inj hx')).symm
  · intro heq
    obtain ⟨hlt, hxi⟩ := List.getElem?_eq_some_iff.mp hx'
    obtain ⟨hlt', hyi⟩ := List.getElem?_eq_some_iff.mp hy'
    refine (List.nodup_iff_injective_get.mp r.distinct).eq_iff
      (a := ⟨x.position, by simpa using hlt⟩) (b := ⟨y.position, by simpa using hlt'⟩) |>.mp ?_
      |> Fin.mk.inj_iff.mp
    simp only [List.get_eq_getElem, List.getElem_map, hxi, hyi]
    exact heq

/-- One alias, one offer. -/
theorem offer_unique {x y : Offer} (hx : x ∈ offers r quotes) (hy : y ∈ offers r quotes)
    (h : x.1.aliasIndex = y.1.aliasIndex) : x = y := by
  obtain ⟨x, hxrow, rfl⟩ := exists_row hx
  obtain ⟨y, hyrow, rfl⟩ := exists_row hy
  have hposition := (position_eq_iff hxrow hyrow).mpr h
  have hat := mem_rows.mp hxrow
  rw [hposition, mem_rows.mp hyrow] at hat
  exact (Option.some.inj hat).symm

end Rows

/-! ## The loops -/

section Loops

variable {r : Registry} {quotes : List Quote} {q : Request}

end Loops

/-! ## One choice -/

theorem Cheapest.alias_eq {offers : List Offer} {P : Offer → Prop} {x y : Offer}
    (hx : Cheapest offers P x) (hy : Cheapest offers P y) : x.1.aliasIndex = y.1.aliasIndex := by
  obtain ⟨hxin, hPx, hxall⟩ := hx
  obtain ⟨hyin, hPy, hyall⟩ := hy
  rcases hxall y hyin hPy with hlt | ⟨-, hle⟩
  · rcases hyall x hxin hPx with hlt' | ⟨heq, -⟩
    · exact absurd (lt_trans hlt hlt') (lt_irrefl _)
    · exact absurd hlt (heq ▸ lt_irrefl _)
  · rcases hyall x hxin hPx with hlt' | ⟨-, hle'⟩
    · rcases hxall y hyin hPy with hlt | ⟨heq, -⟩
      · exact absurd (lt_trans hlt hlt') (lt_irrefl _)
      · exact absurd hlt' (heq ▸ lt_irrefl _)
    · omega

theorem Choice.unique {offers : List Offer} {q : Request} {baseline : Offer} {s s' : Selection}
    (h : Choice offers q baseline s) (h' : Choice offers q baseline s') : s = s' := by
  cases h with
  | escalate hx =>
      cases h' with
      | escalate hy => rw [hx.alias_eq hy]
      | cheapest hnone _ => exact absurd hx.2.1 (hnone _ hx.1)
      | baseline hnone _ => exact absurd hx.2.1 (hnone _ hx.1)
  | cheapest hnone hx =>
      cases h' with
      | escalate hy => exact absurd hy.2.1 (hnone _ hy.1)
      | cheapest _ hy => rw [hx.alias_eq hy]
      | baseline _ hno => exact absurd hx.2.1 (hno _ hx.1)
  | baseline hnone hno =>
      cases h' with
      | escalate hy => exact absurd hy.2.1 (hnone _ hy.1)
      | cheapest _ hy => exact absurd hy.2.1 (hno _ hy.1)
      | baseline _ _ => rfl

theorem Chosen.unique {r : Registry} {quotes : List Quote} {q : Request} {s s' : Selection}
    (h : Chosen (offers r quotes) q s) (h' : Chosen (offers r quotes) q s') : s = s' := by
  cases h with
  | pin hpinned _ _ _ =>
      cases h' with
      | pin _ _ _ _ => rfl
      | free hfree _ _ _ _ => exact absurd (hpinned.symm.trans hfree) (by decide)
  | free hfree hmem hname _ hchoice =>
      cases h' with
      | pin hpinned _ _ _ => exact absurd (hpinned.symm.trans hfree) (by decide)
      | free _ hmem' hname' _ hchoice' =>
          have hsame := offer_unique hmem hmem' (hname.trans hname'.symm)
          exact hchoice.unique (hsame ▸ hchoice')

/-- A request that has a choice: the pin, or the baseline of a replayable one, is eligible. -/
def Admits (offers : List Offer) (q : Request) : Prop :=
  ∃ x ∈ offers, x.Eligible q ∧
    ((q.continuity = .pinned ∧ x.1.aliasIndex = q.pinnedAlias) ∨
      (q.continuity = .replayable ∧ x.1.aliasIndex = q.baselineAlias))

theorem Chosen.admits {offers : List Offer} {q : Request} {s : Selection} (h : Chosen offers q s) :
    Admits offers q := by
  cases h with
  | pin hpinned hmem hname heligible => exact ⟨_, hmem, heligible, .inl ⟨hpinned, hname⟩⟩
  | free hfree hmem hname heligible _ => exact ⟨_, hmem, heligible, .inr ⟨hfree, hname⟩⟩

theorem Chosen.perm {offers offers' : List Offer} {q : Request} {s : Selection}
    (hperm : offers.Perm offers') (h : Chosen offers q s) : Chosen offers' q s := by
  have hall : ∀ P : Offer → Prop, (∀ y ∈ offers, P y) → ∀ y ∈ offers', P y :=
    fun P hP y hy => hP y (hperm.mem_iff.mpr hy)
  have hcheapest : ∀ (P : Offer → Prop) (x : Offer), Cheapest offers P x → Cheapest offers' P x :=
    fun P x hx => ⟨hperm.mem_iff.mp hx.1, hx.2.1, hall _ hx.2.2⟩
  cases h with
  | pin hpinned hmem hname heligible => exact .pin hpinned (hperm.mem_iff.mp hmem) hname heligible
  | free hfree hmem hname heligible hchoice =>
      refine .free hfree (hperm.mem_iff.mp hmem) hname heligible ?_
      cases hchoice with
      | escalate hx => exact .escalate (hcheapest _ _ hx)
      | cheapest hnone hx => exact .cheapest (hall _ hnone) (hcheapest _ _ hx)
      | baseline hnone hno => exact .baseline (hall _ hnone) (hall _ hno)

/-! ## The function -/

section Select

variable {r : Registry} {quotes : List Quote} {q : Request} {out : Selection}

end Select

/-- The candidates and their quotes in another order, at one version. -/
structure Reordered (r : Registry) (quotes : List Quote) (r' : Registry) (quotes' : List Quote) :
    Prop where
  version : r'.version = r.version
  lengths : quotes.length = r.candidates.length
  lengths' : quotes'.length = r'.candidates.length
  offers : (offers r quotes).Perm (offers r' quotes')

theorem Reordered.quotes_perm {r r' : Registry} {quotes quotes' : List Quote}
    (h : Reordered r quotes r' quotes') : quotes.Perm quotes' := by
  have hmap := h.offers.map Prod.snd
  unfold Selector.offers at hmap
  rwa [List.map_snd_zip (le_of_eq h.lengths), List.map_snd_zip (le_of_eq h.lengths')] at hmap

theorem Reordered.wellFormed {r r' : Registry} {quotes quotes' : List Quote}
    (h : Reordered r quotes r' quotes') (q : Request) :
    wellFormed r' quotes' q = wellFormed r quotes q := by
  unfold Selector.wellFormed
  rw [h.version, decide_eq_true h.lengths, decide_eq_true h.lengths', h.quotes_perm.symm.all_eq]

theorem Reordered.symm {r r' : Registry} {quotes quotes' : List Quote}
    (h : Reordered r quotes r' quotes') : Reordered r' quotes' r quotes :=
  ⟨h.version.symm, h.lengths', h.lengths, h.offers.symm⟩

end Recursant.Selector
