import Recursant.Startup.GatewayConfig

/-!
# One context section under two directories

The gateway's configuration refers to aliases by their position.  Where a second directory knows every
client name of the first with the same destination, the section that the first accepts is accepted by
the second, and the two configurations differ in positions only.
-/

namespace Recursant.Startup

open Gateway

/-! ## Positions -/

theorem Directory.alias_name {d : Directory} {name : Text} {i : Nat} (h : d.alias name = some i) :
    (d.aliases[i]?).map (·.name) = some name := by
  unfold Directory.alias at h
  obtain ⟨hlt, hname, -⟩ := List.findIdx?_eq_some_iff_getElem.mp h
  rw [List.getElem?_eq_getElem hlt, Option.map_some]
  exact congrArg some (of_decide_eq_true hname)

/-- The destination of an alias by its position. -/
def Directory.destination (d : Directory) (i : Nat) : Option Alias :=
  (d.aliases[i]?).map (·.destination)

/-- The second directory has the names of the first, and the rest of it. -/
structure Directory.Extends (d d' : Directory) : Prop where
  named : ∀ name i, d.alias name = some i →
    ∃ j, d'.alias name = some j ∧ d'.destination j = d.destination i
  taken : ∀ name, d'.taken name = d.taken name
  providers : d'.providers = d.providers
  providerKeys : d'.providerKeys = d.providerKeys
  privateKey : d'.privateKey = d.privateKey
  sourceKey : d'.sourceKey = d.sourceKey

/-- With every alias of the first, each under a name of its own. -/
theorem Directory.extends_of_mem {d d' : Directory} (hmem : ∀ a ∈ d.aliases, a ∈ d'.aliases)
    (hnames : (d'.aliases.map (·.name)).Nodup) (htaken : ∀ name, d'.taken name = d.taken name)
    (hproviders : d'.providers = d.providers) (hkeys : d'.providerKeys = d.providerKeys)
    (hprivate : d'.privateKey = d.privateKey) (hsource : d'.sourceKey = d.sourceKey) :
    d.Extends d' := by
  refine ⟨fun name i hi => ?_, htaken, hproviders, hkeys, hprivate, hsource⟩
  obtain ⟨a, ha, rfl⟩ := Option.map_eq_some_iff.mp (Directory.alias_name hi)
  have ha' : a ∈ d'.aliases := hmem a (List.mem_of_getElem? ha)
  cases hj : d'.alias a.name with
  | none => exact absurd (decide_eq_true rfl) (List.findIdx?_eq_none_iff.mp hj a ha' ▸ Bool.false_ne_true)
  | some j =>
      obtain ⟨b, hb, hname⟩ := Option.map_eq_some_iff.mp (Directory.alias_name hj)
      have hsame : b = a := List.inj_on_of_nodup_map hnames (List.mem_of_getElem? hb) ha' hname
      refine ⟨j, rfl, ?_⟩
      unfold Directory.destination
      rw [hb, ha, hsame]

/-- Two positions of one name. -/
def Twin (d d' : Directory) (i j : Nat) : Prop :=
  ∃ name, d.alias name = some i ∧ d'.alias name = some j ∧ d'.destination j = d.destination i

variable {d d' : Directory}

theorem Twin.eq_iff {i i' j j' : Nat} (h : Twin d d' i j) (h' : Twin d d' i' j') :
    i = i' ↔ j = j' := by
  obtain ⟨name, hi, hj, -⟩ := h
  obtain ⟨name', hi', hj', -⟩ := h'
  constructor
  · rintro rfl
    have hname : name = name' :=
      Option.some.inj ((Directory.alias_name hi).symm.trans (Directory.alias_name hi'))
    rw [hname, hj'] at hj
    exact (Option.some.inj hj).symm
  · rintro rfl
    have hname : name = name' :=
      Option.some.inj ((Directory.alias_name hj).symm.trans (Directory.alias_name hj'))
    rw [hname, hi'] at hi
    exact (Option.some.inj hi).symm

/-- The candidates of one entry under the two directories. -/
def TwinCandidate (d d' : Directory) (c c' : Candidate) : Prop :=
  ∃ j, Twin d d' c.aliasIndex j ∧ c' = { c with aliasIndex := j }

theorem TwinCandidate.twin {c c' : Candidate} (h : TwinCandidate d d' c c') :
    Twin d d' c.aliasIndex c'.aliasIndex := by
  obtain ⟨j, hj, rfl⟩ := h
  exact hj

theorem TwinCandidate.cost {c c' : Candidate} (h : TwinCandidate d d' c c') : c'.cost = c.cost := by
  obtain ⟨j, -, rfl⟩ := h
  rfl

theorem TwinCandidate.destination {c c' : Candidate} (h : TwinCandidate d d' c c') :
    c'.destination = c.destination := by
  obtain ⟨j, -, rfl⟩ := h
  rfl

/-! ## Candidates -/

theorem loadCandidate_extends (hext : d.Extends d') {v : Json} {c : Candidate}
    (h : loadCandidate d v = some c) :
    ∃ c', TwinCandidate d d' c c' ∧ loadCandidate d' v = some c' := by
  unfold loadCandidate at h
  simp only [Option.bind_eq_bind, Option.bind_eq_some_iff] at h
  obtain ⟨name, hname, u, hguard, i, hi, destination, hdestination, rest⟩ := h
  obtain ⟨limit, hlimit, inflight, hinflight, efforts, hefforts, caps, hcaps, tasks, htasks,
    escalation, hescalation, cost, hcost, hc⟩ := rest
  obtain ⟨j, hj, hsame⟩ := hext.named name i hi
  have hdestination' : (d'.aliases[j]?).map (·.destination) = some destination :=
    hsame.trans hdestination
  cases hc
  refine ⟨_, ⟨j, ⟨name, hi, hj, hsame⟩, rfl⟩, ?_⟩
  unfold loadCandidate
  simp only [Option.bind_eq_bind, Option.bind_eq_some_iff]
  exact ⟨name, hname, u, hguard, j, hj, destination, hdestination', limit, hlimit, inflight,
    hinflight, efforts, hefforts, caps, hcaps, tasks, htasks, escalation, hescalation, cost, hcost,
    rfl⟩

theorem mapM_twin {α β : Type} {R : β → β → Prop} {f f' : α → Option β} {xs : List α}
    (hstep : ∀ x b, f x = some b → ∃ b', R b b' ∧ f' x = some b') {bs : List β}
    (h : xs.mapM f = some bs) : ∃ bs', List.Forall₂ R bs bs' ∧ xs.mapM f' = some bs' := by
  induction xs generalizing bs with
  | nil =>
      cases h
      exact ⟨[], .nil, rfl⟩
  | cons x xs ih =>
      simp only [List.mapM_cons, Option.bind_eq_bind, Option.bind_eq_some_iff] at h ⊢
      obtain ⟨b, hb, rest, hrest, hbs⟩ := h
      cases hbs
      obtain ⟨b', hR, hb'⟩ := hstep x b hb
      obtain ⟨rest', hall, hrest'⟩ := ih hrest
      exact ⟨b' :: rest', .cons hR hall, b', hb', rest', hrest', rfl⟩

section Lists

variable {cs cs' : List Candidate}

theorem all_twin (h : List.Forall₂ (TwinCandidate d d') cs cs') (priced : Bool) :
    (cs'.all fun c => c.cost.isPriced = priced) = cs.all fun c => c.cost.isPriced = priced := by
  induction h with
  | nil => rfl
  | cons hc _ ih => rw [List.all_cons, List.all_cons, ih, hc.cost]

theorem any_twin (h : List.Forall₂ (TwinCandidate d d') cs cs') {i j : Nat} (hij : Twin d d' i j) :
    (cs'.any (·.aliasIndex = j)) = cs.any (·.aliasIndex = i) := by
  induction h with
  | nil => rfl
  | cons hc _ ih =>
      rw [List.any_cons, List.any_cons, ih]
      exact congrArg (· || _) (decide_eq_decide.mpr (hc.twin.eq_iff hij).symm)

theorem findIdx_twin (h : List.Forall₂ (TwinCandidate d d') cs cs') {i j : Nat}
    (hij : Twin d d' i j) :
    (cs'.findIdx? (·.aliasIndex = j)) = cs.findIdx? (·.aliasIndex = i) := by
  induction h with
  | nil => rfl
  | cons hc _ ih =>
      rw [List.findIdx?_cons, List.findIdx?_cons, ih, decide_eq_decide.mpr (hc.twin.eq_iff hij)]

theorem mem_twin (h : List.Forall₂ (TwinCandidate d d') cs cs') {c c' : Candidate}
    (hc : TwinCandidate d d' c c') :
    c'.aliasIndex ∈ cs'.map (·.aliasIndex) ↔ c.aliasIndex ∈ cs.map (·.aliasIndex) := by
  induction h with
  | nil => exact iff_of_false List.not_mem_nil List.not_mem_nil
  | cons hb _ ih => rw [List.map_cons, List.map_cons, List.mem_cons, List.mem_cons, ih,
      hc.twin.eq_iff hb.twin]

theorem nodup_twin (h : List.Forall₂ (TwinCandidate d d') cs cs') :
    (cs'.map (·.aliasIndex)).Nodup ↔ (cs.map (·.aliasIndex)).Nodup := by
  induction h with
  | nil => rfl
  | cons hc hall ih => rw [List.map_cons, List.map_cons, List.nodup_cons, List.nodup_cons, ih,
      mem_twin hall hc]

end Lists

theorem loadCandidates_extends (hext : d.Extends d') {o : Json} {cs : List Candidate} {priced : Bool}
    (h : loadCandidates d o = some (cs, priced)) :
    ∃ cs', List.Forall₂ (TwinCandidate d d') cs cs' ∧
      loadCandidates d' o = some (cs', priced) := by
  unfold loadCandidates at h ⊢
  simp only [Option.bind_eq_bind, Option.bind_eq_some_iff] at h ⊢
  obtain ⟨list, hlist, u, hguard, found, hfound, first, hfirst, u', hsame, hpair⟩ := h
  cases hpair
  obtain ⟨found', hall, hfound'⟩ := mapM_twin (fun v c => loadCandidate_extends hext) hfound
  refine ⟨found', hall, list, hlist, u, hguard, found', hfound', ?_⟩
  cases hall with
  | nil => cases hfirst
  | cons hc hrest =>
      cases hfirst
      refine ⟨_, rfl, u', ?_, ?_⟩
      · rw [all_twin (.cons hc hrest), hc.cost]
        exact hsame
      · rw [hc.cost]
        rfl

theorem candidateNamed_extends (hext : d.Extends d') {cs cs' : List Candidate}
    (hall : List.Forall₂ (TwinCandidate d d') cs cs') {o : Json} {n : Nat}
    (h : candidateNamed d cs o = some n) : candidateNamed d' cs' o = some n := by
  unfold candidateNamed at h ⊢
  simp only [Option.bind_eq_bind, Option.bind_eq_some_iff] at h ⊢
  obtain ⟨name, hname, i, hi, hn⟩ := h
  obtain ⟨j, hj, hsame⟩ := hext.named name i hi
  refine ⟨name, hname, j, hj, ?_⟩
  rw [findIdx_twin hall ⟨name, hi, hj, hsame⟩]
  exact hn

/-! ## Sections -/

theorem loadShadow_extends (hext : d.Extends d') {cs cs' : List Candidate}
    (hall : List.Forall₂ (TwinCandidate d d') cs cs') {priced : Bool} {o : Json}
    {s : Option ShadowConfig} (h : loadShadow d cs priced o = some s) :
    loadShadow d' cs' priced o = some s := by
  unfold loadShadow at h ⊢
  cases hshadow : o.get? "shadow" with
  | none =>
      rw [hshadow] at h
      exact h
  | some shadow =>
      rw [hshadow] at h
      dsimp only at h ⊢
      simp only [Option.bind_eq_bind, Option.bind_eq_some_iff] at h ⊢
      obtain ⟨u, hguard, sample, hsample, cap, hcap, inflight, hinflight, n, hn, hs⟩ := h
      exact ⟨u, hguard, sample, hsample, cap, hcap, inflight, hinflight, n,
        candidateNamed_extends hext hall hn, hs⟩

theorem loadHousekeeping_extends (hext : d.Extends d') {cs cs' : List Candidate}
    (hall : List.Forall₂ (TwinCandidate d d') cs cs') {o : Json}
    {k : Option HousekeepingConfig} (h : loadHousekeeping d cs o = some k) :
    loadHousekeeping d' cs' o = some k := by
  unfold loadHousekeeping at h ⊢
  cases hkeeping : o.get? "housekeeping" with
  | none =>
      rw [hkeeping] at h
      exact h
  | some keeping =>
      rw [hkeeping] at h
      dsimp only at h ⊢
      simp only [Option.bind_eq_bind, Option.bind_eq_some_iff] at h ⊢
      obtain ⟨u, hguard, n, hn, rest⟩ := h
      exact ⟨u, hguard, n, candidateNamed_extends hext hall hn, rest⟩

theorem loadJudge_extends (hext : d.Extends d') (w : Surroundings) (signals : Bool) (o : Json) :
    loadJudge w d' signals o = loadJudge w d signals o := by
  unfold loadJudge
  rw [hext.providers, hext.providerKeys]

/-! ## The gateway -/

/-- The configurations differ in positions only. -/
def TwinGateway (d d' : Directory) (g g' : GatewayConfig) : Prop :=
  ∃ j cs, Twin d d' g.baseline j ∧ List.Forall₂ (TwinCandidate d d') g.candidates cs ∧
    g' = { g with baseline := j, candidates := cs }

theorem loadGateway_extends (hext : d.Extends d') {w : Surroundings} {o : Json} {g : GatewayConfig}
    (h : loadGateway w d o = some g) :
    ∃ g', TwinGateway d d' g g' ∧ loadGateway w d' o = some g' := by
  unfold loadGateway at h
  simp only [Option.bind_eq_bind, Option.bind_eq_some_iff] at h
  obtain ⟨u, hguard, manner, hmanner, i, hi, judge, hjudge, u1, htaken, ⟨cs, priced⟩, hcs, u2, hbase,
    budget, hbudget, shadow, hshadow, keeping, hkeeping, u3, hnodup, hg⟩ := h
  obtain ⟨j, hj, hsame⟩ := hext.named _ i hi
  have hij : Twin d d' i j := ⟨manner.baselineAlias, hi, hj, hsame⟩
  obtain ⟨cs', hall, hcs'⟩ := loadCandidates_extends hext hcs
  cases hg
  refine ⟨_, ⟨j, cs', hij, hall, rfl⟩, ?_⟩
  unfold loadGateway
  simp only [Option.bind_eq_bind, Option.bind_eq_some_iff]
  rw [hext.privateKey, hext.sourceKey]
  refine ⟨u, hguard, manner, hmanner, j, hj, judge, ?_, u1, ?_, (cs', priced), hcs', u2, ?_, budget,
    hbudget, shadow, loadShadow_extends hext hall hshadow, keeping,
    loadHousekeeping_extends hext hall hkeeping, u3, ?_, rfl⟩
  · rw [loadJudge_extends hext]
    exact hjudge
  · rw [hext.taken]
    exact htaken
  · rw [any_twin hall hij]
    exact hbase
  · simp only [nodup_twin hall]
    exact hnodup

/-- What the configuration refers to is there. -/
structure Fits (d : Directory) (g : GatewayConfig) : Prop where
  free : d.taken g.autoAlias = false
  baseline : ∃ a, d.aliases[g.baseline]? = some a
  candidates : ∀ c ∈ g.candidates, d.destination c.aliasIndex = some c.destination

theorem loadCandidate_destination {v : Json} {c : Candidate} (h : loadCandidate d v = some c) :
    d.destination c.aliasIndex = some c.destination := by
  unfold loadCandidate at h
  simp only [Option.bind_eq_bind, Option.bind_eq_some_iff] at h
  obtain ⟨name, -, -, -, i, -, destination, hdestination, limit, -, inflight, -, efforts, -, caps, -,
    tasks, -, escalation, -, cost, -, hc⟩ := h
  cases hc
  exact hdestination

theorem loadGateway_fits {w : Surroundings} {o : Json} {g : GatewayConfig}
    (h : loadGateway w d o = some g) : Fits d g := by
  unfold loadGateway at h
  simp only [Option.bind_eq_bind, Option.bind_eq_some_iff] at h
  obtain ⟨-, -, manner, -, i, hi, judge, -, u, htaken, ⟨cs, priced⟩, hcs, -, -, budget, -, shadow, -,
    keeping, -, -, -, hg⟩ := h
  cases hg
  refine ⟨?_, ?_, ?_⟩
  · have hfree : (!d.taken manner.autoAlias) = true := by
      by_contra hnot
      rw [guard, if_neg hnot] at htaken
      cases htaken
    simpa using hfree
  · obtain ⟨a, ha, -⟩ := Option.map_eq_some_iff.mp (Directory.alias_name hi)
    exact ⟨a, ha⟩
  · unfold loadCandidates at hcs
    simp only [Option.bind_eq_bind, Option.bind_eq_some_iff] at hcs
    obtain ⟨list, -, -, -, found, hfound, first, -, -, -, hpair⟩ := hcs
    cases hpair
    obtain ⟨found', hall, -⟩ :=
      mapM_twin (R := fun c _ => d.destination c.aliasIndex = some c.destination)
        (fun v c hc => ⟨c, loadCandidate_destination hc, hc⟩) hfound
    intro c hc
    obtain ⟨n, hn⟩ := List.mem_iff_getElem?.mp hc
    obtain ⟨hlt, rfl⟩ := List.getElem?_eq_some_iff.mp hn
    exact hall.get hlt (hall.length_eq ▸ hlt)

theorem configure_fits {w : Surroundings} {o : Option Json} {g : GatewayConfig}
    (h : configure w d o = some (some g)) : Fits d g := by
  unfold configure at h
  split at h
  · cases h
  · split at h
    · split at h <;> cases h
    · obtain ⟨g', hg', heq⟩ := Option.map_eq_some_iff.mp h
      cases heq
      exact loadGateway_fits hg'

theorem configure_extends (hext : d.Extends d') {w : Surroundings} {o : Option Json}
    {g : Option GatewayConfig} (h : configure w d o = some g) :
    ∃ g', Option.Rel (TwinGateway d d') g g' ∧ configure w d' o = some g' := by
  unfold configure at h ⊢
  cases o with
  | none =>
      cases h
      exact ⟨none, .none, rfl⟩
  | some o =>
      dsimp only at h ⊢
      split at h
      · next hmode =>
          rw [if_pos hmode]
          split at h
          · next hkeys =>
              cases h
              exact ⟨none, .none, if_pos hkeys⟩
          · cases h
      · next hmode =>
          rw [if_neg hmode]
          obtain ⟨g0, hg0, hg⟩ := Option.map_eq_some_iff.mp h
          cases hg
          obtain ⟨g', htwin, hg'⟩ := loadGateway_extends hext hg0
          exact ⟨some g', .some htwin, by rw [hg', Option.map_some]⟩

end Recursant.Startup
