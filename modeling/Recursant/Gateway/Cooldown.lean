import Recursant.Gateway.Authority

/-!
# Cooldowns

What the reports of a candidate's requests promise, each cooling cause by itself, and the one
deadline that the gateway keeps of it.  A cause overwrites the deadline, so the kept one is the
union of the promises just as long as no promise ends before an earlier one.
-/

namespace Recursant.Gateway

variable {ρ : Router}

/-! ## Promises -/

/-- The arguments of `rc_gateway_outcome`, with the tick of the call. -/
structure Report where
  endpoint : Endpoint
  model : Option Text
  status : Nat
  retryAfterMs : Nat
  now : Nat

/-- A failure in the sense of `context.health`. -/
def Report.failing (r : Report) : Bool := immediate r.status || r.status ≥ 500

/-- The reports of a 60 s window with one more, which begins a window when it is too late. -/
def extend (window : List Report) (r : Report) : List Report :=
  match window.head? with
  | some first => if r.now - first.now ≥ 60000 then [r] else window ++ [r]
  | none => [r]

/-- The last report of a window is a cooling cause. -/
def cause (health : Health) (window : List Report) (r : Report) : Bool :=
  immediate r.status || (r.status ≥ 500 && window.length ≥ health.minRequests &&
    exceeds health.ratio (window.countP Report.failing) window.length)

/-- As long as the counters are exact, the ratio is compared exactly but for one rounding of the
product. -/
theorem exceeds_iff {ratio : Rat} {failures requests : Nat} (hratio : 0 ≤ ratio)
    (hfailures : failures < 2 ^ 53) (hrequests : requests < 2 ^ 53)
    (hfar : ratio * requests / 2 ^ 53 < |(failures : Rat) - ratio * requests|) :
    exceeds ratio failures requests = true ↔ ratio * requests < failures := by
  have hproduct : 0 ≤ ratio * requests := mul_nonneg hratio (Nat.cast_nonneg _)
  have herror := abs_le.mp (Rounding.abs_round_sub_le 53 (ratio * requests))
  rw [abs_of_nonneg hproduct] at herror
  unfold exceeds double
  rw [decide_eq_true_eq, Rounding.round_natCast hfailures, Rounding.round_natCast hrequests]
  cases abs_cases ((failures : Rat) - ratio * requests) with
  | inl habove => constructor <;> intro h <;> linarith [herror.1, herror.2, habove.1, habove.2]
  | inr hbelow => constructor <;> intro h <;> linarith [herror.1, herror.2, hbelow.1, hbelow.2]

/-- The tick that a cause promises to cool down to. -/
def deadline (health : Health) (r : Report) : Nat := r.now + max r.retryAfterMs health.cooldownMs

/-- The promises of the cooling causes among some reports, in order, after those of a window. -/
def promises (health : Health) : List Report → List Report → List Nat
  | _, [] => []
  | window, r :: rs =>
      if cause health (extend window r) r then
        deadline health r :: promises health (extend window r) rs
      else promises health (extend window r) rs

/-- The reports that are recorded for a candidate. -/
def recorded (i : ρ.Index) (rs : List Report) : List Report :=
  rs.filter fun r => ρ.candidateOf r.endpoint r.model = some i

/-- Some recorded report was a cooling cause, in its window, with a promise beyond `t`. -/
def CoolingUnion (i : ρ.Index) (rs : List Report) (t : Nat) : Prop :=
  ∃ health, ρ.settings.health = some health ∧ ∃ before r after,
    recorded i rs = before ++ r :: after ∧
    cause health (extend (before.foldl extend []) r) r = true ∧ t < deadline health r

/-- No cooling cause promises less than a cause before it. -/
def Lengthening (i : ρ.Index) (rs : List Report) : Prop :=
  ∀ health, ρ.settings.health = some health →
    (promises health [] (recorded i rs)).Pairwise (· ≤ ·)

/-- The calls one after another. -/
def reports (g : GatewayContext ρ.settings.count) (rs : List Report) :
    GatewayContext ρ.settings.count :=
  rs.foldl (fun g r => noteOutcome g r.endpoint r.model r.status r.retryAfterMs r.now) g

/-! ## The counters of the window -/

/-- The counters stand for the reports of the window. -/
def Counted (window : List Report) (o : Outcome) : Prop :=
  o.requests = window.length ∧ ∀ first ∈ window.head?, o.window = first.now ∧
    o.failures = window.countP Report.failing

/-- One report: the window with it, and its promise if it is a cause. -/
theorem counted_recordOutcome (health : Health) {window : List Report} {o : Outcome}
    (h : Counted window o) (r : Report) :
    Counted (extend window r) (recordOutcome health r.status r.retryAfterMs r.now o) ∧
      (recordOutcome health r.status r.retryAfterMs r.now o).untilMs =
        if cause health (extend window r) r then deadline health r else o.untilMs := by
  -- the counters before this report, with a window that was too old thrown away
  obtain ⟨base, hbase, hrequests, hwindow, hfailures, huntil⟩ :
      ∃ base, (if o.requests = 0 || r.now - o.window ≥ 60000 then
          { o with window := r.now, requests := 0, failures := 0 } else o) = base ∧
        base.requests + 1 = (extend window r).length ∧
        (∀ first ∈ (extend window r).head?, base.window = first.now) ∧
        base.failures + (if r.failing then 1 else 0) = (extend window r).countP Report.failing ∧
        base.untilMs = o.untilMs := by
    have hlength := h.1
    cases window with
    | nil =>
        have hzero : o.requests = 0 := hlength
        refine ⟨_, rfl, ?_, ?_, ?_, ?_⟩
        · simp [hzero, extend]
        · simp [hzero, extend]
        · simp [hzero, extend, List.countP_cons]
        · simp [hzero]
    | cons first window =>
        obtain ⟨hfirst, hcount⟩ := h.2 first rfl
        have hpos : o.requests ≠ 0 := by
          rw [hlength, List.length_cons]
          omega
        refine ⟨_, rfl, ?_, ?_, ?_, ?_⟩
        · unfold extend
          by_cases hold : r.now - first.now ≥ 60000
          · simp [hfirst, hold]
          · simp [hfirst, hold, hlength]
        · unfold extend
          by_cases hold : r.now - first.now ≥ 60000
          · simp [hfirst, hold]
          · simp [hfirst, hold, hpos]
        · unfold extend
          by_cases hold : r.now - first.now ≥ 60000
          · simp [hfirst, hold, List.countP_cons]
          · simp [hfirst, hold, hpos, hcount, List.countP_append, List.countP_cons]
            omega
        · split <;> rfl
  unfold recordOutcome
  dsimp only
  rw [hbase]
  have hfailing : r.failing = true ↔ immediate r.status = true ∨ r.status ≥ 500 := by
    rw [Report.failing, Bool.or_eq_true, decide_eq_true_eq]
  by_cases hfail : immediate r.status = true ∨ r.status ≥ 500
  · rw [if_pos (hfailing.mpr hfail)] at hfailures
    have hcause : (immediate r.status || (decide (base.requests + 1 ≥ health.minRequests) &&
        exceeds health.ratio (base.failures + 1) (base.requests + 1))) =
        cause health (extend window r) r := by
      rw [cause, hrequests, hfailures]
      cases himmediate : immediate r.status with
      | true => rfl
      | false =>
          have hserver : r.status ≥ 500 := hfail.resolve_left (by simp [himmediate])
          simp [hserver]
    rw [if_pos (by simpa using hfail), hcause]
    split
    next =>
      refine ⟨⟨hrequests, fun first hhead => ⟨hwindow first hhead, hfailures⟩⟩, ?_⟩
      rfl
    next =>
      exact ⟨⟨hrequests, fun first hhead => ⟨hwindow first hhead, hfailures⟩⟩, huntil⟩
  · have hno : ¬r.failing = true := fun hyes => hfail (hfailing.mp hyes)
    rw [if_neg hno, Nat.add_zero] at hfailures
    rw [if_neg (by simpa using hfail)]
    have hcause : cause health (extend window r) r = false := by
      rw [not_or] at hfail
      rw [cause, Bool.eq_false_iff.mpr hfail.1]
      simp [hfail.2]
    rw [hcause, if_neg Bool.false_ne_true]
    exact ⟨⟨hrequests, fun first hhead => ⟨hwindow first hhead, hfailures⟩⟩, huntil⟩

/-- Any number of reports: the deadline is the last promise. -/
theorem foldl_recordOutcome (health : Health) (rs : List Report) {window : List Report}
    {o : Outcome} (h : Counted window o) :
    (rs.foldl (fun o r => recordOutcome health r.status r.retryAfterMs r.now o) o).untilMs =
      ((promises health window rs).getLast?).getD o.untilMs := by
  induction rs generalizing window o with
  | nil => rfl
  | cons r rs ih =>
      obtain ⟨hcounted, huntil⟩ := counted_recordOutcome health h r
      rw [List.foldl_cons, ih hcounted, huntil, promises]
      split
      next => rw [List.getLast?_cons, Option.getD_some]
      next => rfl

theorem promises_append (health : Health) (window as bs : List Report) :
    promises health window (as ++ bs) =
      promises health window as ++ promises health (as.foldl extend window) bs := by
  induction as generalizing window with
  | nil => rfl
  | cons a as ih =>
      rw [List.cons_append, promises, promises, ih, List.foldl_cons]
      split <;> rfl

/-- The promises are those of the causes. -/
theorem mem_promises {health : Health} {window rs : List Report} {d : Nat} :
    d ∈ promises health window rs ↔ ∃ before r after, rs = before ++ r :: after ∧
      cause health (extend (before.foldl extend window) r) r = true ∧ d = deadline health r := by
  induction rs generalizing window with
  | nil =>
      refine ⟨nofun, fun h => ?_⟩
      obtain ⟨before, r, after, hnil, -⟩ := h
      cases before <;> cases hnil
  | cons r rs ih =>
      have hsplit : d ∈ promises health window (r :: rs) ↔
          (cause health (extend window r) r = true ∧ d = deadline health r) ∨
            d ∈ promises health (extend window r) rs := by
        rw [promises]
        split
        next hcause => rw [List.mem_cons, and_iff_right hcause]
        next hcause => simp [hcause]
      rw [hsplit, ih]
      constructor
      · intro h
        cases h with
        | inl hfirst => exact ⟨[], r, rs, rfl, hfirst⟩
        | inr hlater =>
            obtain ⟨before, r', after, rfl, hcause⟩ := hlater
            exact ⟨r :: before, r', after, rfl, hcause⟩
      · intro h
        obtain ⟨before, r', after, heq, hcause⟩ := h
        cases before with
        | nil =>
            obtain ⟨rfl, rfl⟩ := List.cons.inj heq
            exact .inl hcause
        | cons b before =>
            obtain ⟨rfl, rfl⟩ := List.cons.inj heq
            exact .inr ⟨before, r', after, rfl, hcause⟩

/-! ## The deadline and the union -/

theorem recorded_append (i : ρ.Index) (as bs : List Report) :
    recorded i (as ++ bs) = recorded i as ++ recorded i bs := List.filter_append as bs

theorem recorded_singleton (i : ρ.Index) (r : Report) :
    recorded i [r] = if ρ.candidateOf r.endpoint r.model = some i then [r] else [] := by
  unfold recorded
  by_cases hmine : ρ.candidateOf r.endpoint r.model = some i
  · rw [if_pos hmine, List.filter_cons_of_pos (by simp [hmine]), List.filter_nil]
  · rw [if_neg hmine, List.filter_cons_of_neg (by simp [hmine]), List.filter_nil]

theorem coolingUnion_iff (i : ρ.Index) (rs : List Report) (t : Nat) :
    CoolingUnion i rs t ↔ ∃ health, ρ.settings.health = some health ∧
      ∃ d ∈ promises health [] (recorded i rs), t < d := by
  apply exists_congr
  intro health
  apply and_congr_right
  intro _
  constructor
  · intro h
    obtain ⟨before, r, after, hsplit, hcause, hlt⟩ := h
    exact ⟨_, mem_promises.mpr ⟨before, r, after, hsplit, hcause, rfl⟩, hlt⟩
  · intro h
    obtain ⟨d, hd, hlt⟩ := h
    obtain ⟨before, r, after, hsplit, hcause, rfl⟩ := mem_promises.mp hd
    exact ⟨before, r, after, hsplit, hcause, hlt⟩

/-- The last of promises that never get less is beyond `t` when any of them is. -/
theorem lt_getLast_iff {ds : List Nat} (h : ds.Pairwise (· ≤ ·)) (t : Nat) :
    t < ds.getLast?.getD 0 ↔ ∃ d ∈ ds, t < d := by
  cases List.eq_nil_or_concat ds with
  | inl hnil => simp [hnil]
  | inr hconcat =>
      obtain ⟨ds, last, rfl⟩ := hconcat
      rw [List.concat_eq_append] at h ⊢
      rw [List.getLast?_concat, Option.getD_some]
      constructor
      · exact fun hlt => ⟨last, by simp, hlt⟩
      · intro hsome
        obtain ⟨d, hd, hlt⟩ := hsome
        have hle : d ≤ last := by
          rw [List.mem_append, List.mem_singleton] at hd
          cases hd with
          | inl hin => exact (List.pairwise_append.mp h).2.2 d hin last (by simp)
          | inr heq => exact heq.le
        omega

theorem outcome_noteOutcome {health : Health} (hhealth : ρ.settings.health = some health)
    (g : GatewayContext ρ.settings.count) (i : ρ.Index) (r : Report) :
    (noteOutcome g r.endpoint r.model r.status r.retryAfterMs r.now).outcome i =
      if ρ.candidateOf r.endpoint r.model = some i then
        recordOutcome health r.status r.retryAfterMs r.now (g.outcome i)
      else g.outcome i := by
  unfold noteOutcome
  rw [hhealth]
  cases hfound : ρ.candidateOf r.endpoint r.model with
  | none => rfl
  | some j =>
      by_cases hij : j = i
      · subst hij
        rw [if_pos rfl]
        exact Function.update_self _ _ _
      · rw [if_neg (fun h => hij (Option.some.inj h))]
        exact Function.update_of_ne (Ne.symm hij) _ _

theorem outcome_reports {health : Health} (hhealth : ρ.settings.health = some health)
    (g : GatewayContext ρ.settings.count) (i : ρ.Index) (rs : List Report) :
    (reports g rs).outcome i = (recorded i rs).foldl
      (fun o r => recordOutcome health r.status r.retryAfterMs r.now o) (g.outcome i) := by
  induction rs generalizing g with
  | nil => rfl
  | cons r rs ih =>
      show (reports (noteOutcome g r.endpoint r.model r.status r.retryAfterMs r.now) rs).outcome i =
        _
      rw [ih, outcome_noteOutcome hhealth, recorded, recorded]
      by_cases hmine : ρ.candidateOf r.endpoint r.model = some i
      · rw [if_pos hmine, List.filter_cons_of_pos (by simp [hmine]), List.foldl_cons]
      · rw [if_neg hmine, List.filter_cons_of_neg (by simp [hmine])]

/-- The kept deadline is the last promise. -/
theorem cooling_reports (g : GatewayContext ρ.settings.count) {i : ρ.Index}
    (hfresh : g.outcome i = ⟨0, 0, 0, 0⟩) (rs : List Report) (t : Nat) :
    (reports g rs).cooling ρ i t = true ↔ ∃ health, ρ.settings.health = some health ∧
      t < (promises health [] (recorded i rs)).getLast?.getD 0 := by
  unfold GatewayContext.cooling
  cases hhealth : ρ.settings.health with
  | none => simp
  | some health =>
      have hcounted : Counted [] (g.outcome i) := by
        rw [hfresh]
        exact ⟨rfl, nofun⟩
      rw [outcome_reports hhealth, foldl_recordOutcome health _ hcounted, hfresh]
      simp

/-- The candidate cools down exactly for the union of the promises, at every moment of a run of
reports, just as long as no cooling cause promises less than an earlier one. -/
theorem cooldown_union_iff (g : GatewayContext ρ.settings.count) (i : ρ.Index)
    (hfresh : g.outcome i = ⟨0, 0, 0, 0⟩) (rs : List Report)
    (hticks : rs.Pairwise fun a b => a.now ≤ b.now) :
    (∀ rs', rs' <+: rs → ∀ t, (∀ r ∈ rs', r.now ≤ t) →
      ((reports g rs').cooling ρ i t = true ↔ CoolingUnion i rs' t)) ↔ Lengthening i rs := by
  constructor
  · intro hunion health hhealth
    induction rs using List.reverseRecOn with
    | nil => exact List.Pairwise.nil
    | append_singleton rs r ih =>
        have hbefore := List.pairwise_append.mp hticks
        have hsorted := ih hbefore.1 fun rs' hbegins =>
          hunion rs' (hbegins.trans (List.prefix_append rs [r]))
        rw [recorded_append, promises_append]
        by_cases hcause : ρ.candidateOf r.endpoint r.model = some i ∧
            cause health (extend ((recorded i rs).foldl extend []) r) r = true
        · -- at the tick that the last cause promises, the earlier promises must have ended
          have hlast : promises health ((recorded i rs).foldl extend []) (recorded i [r]) =
              [deadline health r] := by
            rw [recorded_singleton, if_pos hcause.1, promises, if_pos hcause.2, promises]
          have hall : promises health [] (recorded i (rs ++ [r])) =
              promises health [] (recorded i rs) ++ [deadline health r] := by
            rw [recorded_append, promises_append, hlast]
          have hmoment : ∀ r' ∈ rs ++ [r], r'.now ≤ deadline health r := by
            intro r' hr'
            rw [List.mem_append, List.mem_singleton] at hr'
            have hend : r.now ≤ deadline health r := Nat.le_add_right _ _
            cases hr' with
            | inl hin => exact (hbefore.2.2 r' hin r (by simp)).trans hend
            | inr heq => exact heq ▸ hend
          have hagree := hunion (rs ++ [r]) (List.prefix_refl _) (deadline health r) hmoment
          have hover : ¬(reports g (rs ++ [r])).cooling ρ i (deadline health r) = true := by
            intro hcooling
            obtain ⟨health', hhealth', hlt⟩ := (cooling_reports g hfresh _ _).mp hcooling
            obtain rfl := Option.some.inj (hhealth.symm.trans hhealth')
            rw [hall, List.getLast?_concat, Option.getD_some] at hlt
            exact Nat.lt_irrefl _ hlt
          rw [hlast, List.pairwise_append]
          refine ⟨hsorted, List.pairwise_singleton _ _, ?_⟩
          intro d hd d' hd'
          rw [List.mem_singleton.mp hd']
          by_contra hlonger
          apply hover
          rw [hagree, coolingUnion_iff]
          refine ⟨health, hhealth, d, ?_, Nat.lt_of_not_le hlonger⟩
          rw [hall]
          exact List.mem_append_left _ hd
        · have hnone : promises health ((recorded i rs).foldl extend []) (recorded i [r]) = [] := by
            by_cases hmine : ρ.candidateOf r.endpoint r.model = some i
            · rw [recorded_singleton, if_pos hmine, promises,
                if_neg (fun h => hcause ⟨hmine, h⟩), promises]
            · rw [recorded_singleton, if_neg hmine, promises]
          rw [hnone, List.append_nil]
          exact hsorted
  · intro hlengthening rs' hbegins t ht
    rw [cooling_reports g hfresh rs' t, coolingUnion_iff]
    apply exists_congr
    intro health
    apply and_congr_right
    intro hhealth
    obtain ⟨rest, rfl⟩ := hbegins
    have hsorted := hlengthening health hhealth
    rw [recorded_append, promises_append, List.pairwise_append] at hsorted
    exact lt_getLast_iff hsorted.1 t

def publicCandidate : sampleRouter.Index := ⟨0, by decide⟩

/-- A rate limit with a Retry-After of a minute, then a transport failure of another request. -/
def shortened : List Report := [⟨.pub, some "p", 429, 60000, 10⟩, ⟨.pub, some "p", 0, 0, 20⟩]

/-- One report alone keeps its promise. -/
theorem cooldown_union_iff_sample :
    let rs : List Report := [⟨.pub, some "p", 429, 60000, 10⟩]
    ∀ rs', rs' <+: rs → ∀ t, (∀ r ∈ rs', r.now ≤ t) →
      ((reports (sampleStart sampleRouter).gateway rs').cooling sampleRouter publicCandidate t =
        true ↔ CoolingUnion publicCandidate rs' t) := by
  intro rs
  refine (cooldown_union_iff (sampleStart sampleRouter).gateway publicCandidate rfl rs
    (List.pairwise_singleton _ _)).mpr ?_
  intro health hhealth
  obtain rfl := Option.some.inj hhealth
  decide +kernel

/-- The failure ends the cooldown that the upstream had asked for. -/
theorem retry_after_shortened :
    ¬((reports (sampleStart sampleRouter).gateway shortened).cooling sampleRouter publicCandidate
        2000 = true ↔ CoolingUnion publicCandidate shortened 2000) := by
  intro h
  have hover : (reports (sampleStart sampleRouter).gateway shortened).cooling sampleRouter
      publicCandidate 2000 = false := by decide +kernel
  have hpromised : CoolingUnion publicCandidate shortened 2000 :=
    ⟨⟨1000, 1, 2, 1⟩, rfl, [], ⟨.pub, some "p", 429, 60000, 10⟩, [⟨.pub, some "p", 0, 0, 20⟩], rfl,
      by decide +kernel, by decide⟩
  rw [h.mpr hpromised] at hover
  cases hover

end Recursant.Gateway
