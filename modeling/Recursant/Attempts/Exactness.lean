import Recursant.Attempts.History

/-!
# Exactness is sound and doubt never heals

An exact view certifies the whole run behind it; a doubted attempt stays doubted in every
continuation, whatever is begun, finished, lost or reclaimed there.
-/

namespace Recursant.Attempts

/-- The same five tokens. -/
def SameTokens (h k : AttemptHeaders) : Prop := ∀ i, h.values i = k.values i

theorem Sound.eq_of_id {auth : AuthTable} {ttl : Nat} {boot : Nat × Nat}
    {history : List (Call × Answer)} {l : AttemptLedger} (h : Sound auth ttl boot history l)
    {r s : Row} (hr : r ∈ l.rows) (hs : s ∈ l.rows) (hid : r.id = s.id) : r = s := by
  by_contra hne
  have hsym : Std.Symm fun r s : Row => r.id ≠ s.id := ⟨fun _ _ hrs => hrs.symm⟩
  have hpair : l.rows.Pairwise fun r s => r.id ≠ s.id := by
    apply h.rowsOrdered.imp
    intro a b hlt heq
    rw [heq] at hlt
    exact absurd hlt (lt_irrefl _)
  exact hpair.forall hr hs hne hid

/-- Two different rows satisfying a test are counted twice. -/
theorem two_le_countP {rows : List Row} {r s : Row} (hr : r ∈ rows) (hs : s ∈ rows) (hne : r ≠ s)
    {p : Row → Bool} (hpr : p r = true) (hps : p s = true) : 2 ≤ rows.countP p := by
  rw [List.countP_eq_length_filter]
  have hr' := List.mem_filter.mpr ⟨hr, hpr⟩
  have hs' := List.mem_filter.mpr ⟨hs, hps⟩
  cases hf : rows.filter p with
  | nil => simp [hf] at hr'
  | cons x xs =>
      cases xs with
      | nil =>
          rw [hf, List.mem_singleton] at hr' hs'
          exact absurd (hr'.trans hs'.symm) hne
      | cons y ys => simp

theorem countP_key_congr (rows : List Row) (p : Nat) {h k : AttemptHeaders}
    (hsame : SameTokens h k) :
    rows.countP (fun r => key r p h) = rows.countP fun r => key r p k := by
  apply List.countP_congr
  intro r _
  rw [key_iff, key_iff]
  simp only [hsame _]

theorem exact_view {l : AttemptLedger} {r : Row} {p : Nat} {h : AttemptHeaders}
    (hexact : (l.view r p h).exact = true) :
    l.lost = false ∧ l.lostUntil ≤ r.begun ∧ l.rows.countP (fun s => key s p h) ≤ 1 ∧
      r.failed = false ∧ r.finished = true ∧ r.source = true := by
  simp only [AttemptLedger.view, Bool.and_eq_true, Bool.not_eq_true', decide_eq_true_eq,
    decide_eq_false_iff_not, not_lt] at hexact
  obtain ⟨⟨⟨⟨⟨hlost, hbegun⟩, hcount⟩, hfailed⟩, hfinished⟩, hsource⟩ := hexact
  exact ⟨hlost, hbegun, hcount, hfailed, hfinished, hsource⟩

/-- What an exact answer at `now` certifies about the run before it: the attempt it names was begun
once, at `t`, and nothing in `(t - ttl, now]` may have been the same attempt again. -/
structure Certified (auth : AuthTable) (ttl : Nat) (before after : List (Call × Answer)) (p : Nat)
    (h : AttemptHeaders) (id : AttemptId) (t now : Nat) : Prop where
  live : t ≤ now ∧ now < t + ttl
  /-- Every other accepted attempt of the window has a row of its own under another key. -/
  alone : ∀ c answer, (c, answer) ∈ before ++ after → ∀ q k u,
    accepted auth c = some (q, k, u) → t < u + ttl → u ≤ now →
      ¬ (q = p ∧ SameTokens k h) ∧ ∃ j, answer = .begun .tracked (some j)
  noWindow : ∀ u answer, (.lostAt u, answer) ∈ before ++ after → ¬ (t < u + ttl ∧ u ≤ now)
  complete : ∃ u answer, (.finish id true u, answer) ∈ after ∧ u < t + ttl
  neverIncomplete : ∀ u answer, (.finish id false u, answer) ∉ after
  source : ∃ b k u answer, (.sourceComplete b k u, answer) ∈ after ∧
    authBearer auth b = some p ∧ SameTokens k h ∧ u < t + ttl
  notLost : ∀ answer, (.lost, answer) ∉ before ++ after

theorem Sound.certified {auth : AuthTable} {ttl : Nat} {boot : Nat × Nat}
    {history : List (Call × Answer)} {l m : AttemptLedger} (hsound : Sound auth ttl boot history l)
    {a : Option Text} {h : AttemptHeaders} {id : AttemptId} {now : Nat} {v : AttemptView}
    (hget : step l (.get a h id now) = (.view (some v), m)) (hexact : v.exact = true) :
    ∃ p b k t w before after,
      history = before ++ (.begin b k t w, .begun .tracked (some id)) :: after ∧
        authBearer auth a = some p ∧ authBearer auth b = some p ∧ SameTokens k h ∧
          Certified auth ttl before after p h id t now := by
  obtain ⟨p, r, hauth, hle, rfl, ⟨hmem, hkey, rfl, hlive⟩, rfl⟩ := get_view hget
  obtain ⟨-, hbegun, hcount, hfailed, hfinished, hsource⟩ := exact_view hexact
  obtain ⟨before, after, b, w, hsplit, horigin⟩ := hsound.explained r hmem
  obtain ⟨rfl, htokens⟩ := (key_iff r p h).mp hkey
  have hexpires := horigin.expires
  rw [hsound.sameAuth] at hauth
  refine ⟨r.project, b, r.headers, r.begun, w, before, after, hsplit, hauth, horigin.authorized,
    htokens, ?_⟩
  -- another event of the history is not the begin of this row
  have hother : ∀ c answer, (c, answer) ∈ before ++ after → issuedId answer ≠ some r.id := by
    intro c answer hc hid
    have hordered := hsound.ordered
    rw [hsplit, List.filterMap_append, List.filterMap_cons_some (by rfl), List.pairwise_append,
      List.pairwise_cons] at hordered
    obtain ⟨-, ⟨hafter, -⟩, hbefore⟩ := hordered
    rcases List.mem_append.mp hc with hc | hc
    · have := hbefore r.id (List.mem_filterMap.mpr ⟨_, hc, hid⟩) r.id List.mem_cons_self
      omega
    · have := hafter r.id (List.mem_filterMap.mpr ⟨_, hc, hid⟩)
      omega
  have hin : ∀ e ∈ before ++ after, e ∈ history := by
    intro e he
    rw [hsplit]
    rcases List.mem_append.mp he with he | he
    · exact List.mem_append_left _ he
    · exact List.mem_append_right _ (List.mem_cons_of_mem _ he)
  have hafter : ∀ e ∈ after, e ∈ history := fun e he => hin e (List.mem_append_right _ he)
  refine
    { live := ⟨?_, by omega⟩, alone := ?_, noWindow := ?_, complete := ?_, neverIncomplete := ?_
      source := ?_, notLost := ?_ }
  · exact (hsound.rowsBegun r hmem).trans hle
  · intro c answer hc q k u hacc hopen _
    cases hsound.accounted c answer (hin _ hc) q k u hacc with
    | @row s hs hproject hheaders _ _ =>
        refine ⟨?_, s.id, rfl⟩
        rintro ⟨rfl, hsame⟩
        have hne : r ≠ s := by
          rintro rfl
          exact hother c _ hc rfl
        have hskey : key s r.project h = true :=
          (key_iff s r.project h).mpr ⟨hproject, fun i => by rw [hheaders, hsame i]⟩
        have := two_le_countP (p := fun o => key o r.project h) hmem hs hne hkey hskey
        omega
    | @gone id _ hlater =>
        refine ⟨?_, id, rfl⟩
        rintro ⟨rfl, hsame⟩
        have hrkey : key r r.project k = true :=
          (key_iff r r.project k).mpr ⟨rfl, fun i => by rw [htokens i, hsame i]⟩
        have := hlater r hmem hrkey (by omega)
        rw [hsound.sameTtl] at this
        omega
    | window hwindow =>
        rw [hsound.sameTtl] at hwindow
        omega
  · intro u answer hu
    have := hsound.declared u answer (hin _ hu)
    omega
  · obtain ⟨u, answer, hu, hlt⟩ := horigin.finished hfinished
    exact ⟨u, answer, hu, by omega⟩
  · intro u answer hu
    have hlate := horigin.failed hfailed u answer hu
    have hpast := hsound.finished r.id false u answer (hafter _ hu)
    omega
  · obtain ⟨b', k, u, answer, hu, hauth', hk, hlt⟩ := horigin.source hsource
    refine ⟨b', k, u, answer, hu, hauth', ?_, by omega⟩
    intro i
    rw [← ((key_iff r r.project k).mp hk).2 i, htokens i]
  · intro answer hlost
    exact hsound.notLost answer (hin _ hlost)

/-- **An exact view is sound.**  At the end of any run from a fresh ledger, an exact answer names an
attempt of the run that the whole history certifies; and in any state reclamation in place keeps
every protected row, the order and the multiplicity of the rest. -/
theorem attemptGet_exact_sound {auth : AuthTable} {capacity ttl : Nat} {boot : Nat × Nat}
    {start l m : AttemptLedger} {history : List (Call × Answer)} {a : Option Text}
    {h : AttemptHeaders} {id : AttemptId} {now : Nat} {v : AttemptView}
    (hcreate : attemptCreate auth capacity ttl boot = some start)
    (hrun : Trace.Runs step start history l)
    (hget : step l (.get a h id now) = (.view (some v), m)) (hexact : v.exact = true) :
    (∃ p b k t w before after,
      history = before ++ (.begin b k t w, .begun .tracked (some id)) :: after ∧
        authBearer auth a = some p ∧ authBearer auth b = some p ∧ SameTokens k h ∧
          Certified auth ttl before after p h id t now) ∧
      (∀ early late s, history = early ++ late → Trace.Runs step start early s → s.lost = false) ∧
      ∀ (s : AttemptLedger) (u : Nat),
        (reclaim s u).rows = s.rows.filter fun r => protectedRow u s.rows r := by
  have hkept : l.lost = false := by
    obtain ⟨p, r, -, -, rfl, -, rfl⟩ := get_view hget
    exact (exact_view hexact).1
  refine ⟨(run_sound hcreate hrun hkept).certified hget hexact, ?_, reclaim_rows⟩
  intro early late s hsplit hearly
  obtain ⟨t, hfirst, hsecond⟩ := (hsplit ▸ hrun).unappend
  have hst : s = t := hearly.functional hfirst
  rw [hst]
  exact run_lost hsecond hkept

/-! A single project and one attempt, finished and source-complete within its lifetime. -/

def sampleAuth : AuthTable := [some (text "synthetic-a")]

def sampleHeaders : AttemptHeaders := ⟨fun _ => text "opaque", 31, false⟩

def sampleLedger : AttemptLedger := ⟨sampleAuth, 4, (7, 1), 0, 10, 0, 0, false, []⟩

def sampleId : AttemptId := ⟨(7, 1), 1⟩

def sampleCalls : List Call :=
  [.begin (some (text "Bearer synthetic-a")) sampleHeaders 1 true, .finish sampleId true 2,
    .sourceComplete (some (text "Bearer synthetic-a")) sampleHeaders 3]

theorem attemptGet_exact_sound_sample :
    ∃ p b k t w before after,
      (Trace.feed step sampleLedger sampleCalls).1 =
          before ++ (.begin b k t w, .begun .tracked (some sampleId)) :: after ∧
        authBearer sampleAuth (some (text "Bearer synthetic-a")) = some p ∧
          authBearer sampleAuth b = some p ∧ SameTokens k sampleHeaders ∧
            Certified sampleAuth 10 before after p sampleHeaders sampleId t 4 :=
  (attemptGet_exact_sound (v := ⟨1, false, true, true⟩)
    (show attemptCreate sampleAuth 4 10 (7, 1) = some sampleLedger from rfl)
    (.feed sampleCalls sampleLedger)
    (show step (Trace.feed step sampleLedger sampleCalls).2
        (.get (some (text "Bearer synthetic-a")) sampleHeaders sampleId 4) = _ from rfl) rfl).1

/-! ## Doubt -/

/-- The answers and calls that cast doubt on an attempt. -/
inductive Doubts (l : AttemptLedger) (id : AttemptId) : Call → Answer → Prop where
  | ambiguous {a : Option Text} {h : AttemptHeaders} {now : Nat} {v : AttemptView} :
      v.ambiguous = true → Doubts l id (.get a h id now) (.view (some v))
  | uncounted {a : Option Text} {h : AttemptHeaders} {now : Nat} {v : AttemptView} :
      v.countKnown = false → Doubts l id (.get a h id now) (.view (some v))
  | incomplete {r : Row} {now : Nat} {answer : Answer} : r ∈ l.rows → r.id = id →
      now < r.expires → Doubts l id (.finish id false now) answer

/-- Why a row can never be reported exact again. -/
def Spoiled (l : AttemptLedger) (r : Row) : Prop :=
  r.failed = true ∨ r.begun < l.lostUntil ∨ r.expires ≤ l.now ∨
    2 ≤ l.rows.countP fun s => key s r.project r.headers

structure Doubted (l : AttemptLedger) (id : AttemptId) : Prop where
  issued : id.serial ≤ l.serial
  spoiled : ∀ r ∈ l.rows, r.id = id → Spoiled l r

theorem Pressed.countP {l : AttemptLedger} {now : Nat} {rows : List Row} (h : Pressed l now rows)
    {r : Row} (hr : r ∈ l.rows) (hlive : now < r.expires) :
    rows.countP (fun s => key s r.project r.headers) =
      l.rows.countP fun s => key s r.project r.headers := by
  rcases h with rfl | rfl
  · rfl
  · rw [List.countP_filter]
    apply List.countP_congr
    intro s _
    simp only [Bool.and_eq_true, decide_eq_true_eq, and_iff_left_iff_imp]
    intro hkey
    -- the live row keeps every tombstone of its key
    obtain ⟨hproject, htokens⟩ := (key_iff s r.project r.headers).mp hkey
    refine .inr (.inr ⟨r, hr, hlive, ?_⟩)
    exact (key_iff r s.project s.headers).mpr ⟨hproject.symm, fun i => (htokens i).symm⟩

theorem update_failed {auth : AuthTable} {c : Call} {r : Row} (h : r.failed = true) :
    (update auth c r).failed = true := by
  unfold update
  split
  · split
    · unfold Row.finish
      split
      · exact h
      · simp [h]
    · exact h
  · split
    · split <;> exact h
    · exact h
  · exact h

theorem Doubted.carry {l m : AttemptLedger} {c : Call} {answer : Answer} {id : AttemptId}
    (h : Doubted l id) (hev : Evolves l c answer m) : Doubted m id := by
  obtain ⟨rows, hpressed, hrows⟩ := hev.rows
  have hclock := hev.clock
  have hwindow := hev.window
  have hissued := h.issued
  have hserial : l.serial ≤ m.serial := by
    rcases hev.issued with ⟨-, hs⟩ | ⟨-, hs⟩ <;> omega
  refine ⟨by omega, ?_⟩
  intro r hr hid
  rw [hrows] at hr
  rcases List.mem_append.mp hr with hr | hr
  · obtain ⟨r₀, hr₀, rfl⟩ := List.mem_map.mp hr
    have hsame := update_same l.auth c r₀
    have hmem := hpressed.subset r₀ hr₀
    rw [hsame.id] at hid
    unfold Spoiled
    rw [hsame.begun, hsame.expires, hsame.project, hsame.headers]
    rcases h.spoiled r₀ hmem hid with hfailed | hbegun | hexpired | hcount
    · exact .inl (update_failed hfailed)
    · exact .inr (.inl (by omega))
    · exact .inr (.inr (.inl (by omega)))
    · by_cases hlive : m.now < r₀.expires
      · right; right; right
        have hkeys : (rows.map (update l.auth c)).countP
              (fun s => key s r₀.project r₀.headers) =
            rows.countP fun s => key s r₀.project r₀.headers := by
          rw [List.countP_map]
          apply List.countP_congr
          intro s _
          rw [Function.comp_apply, (update_same l.auth c s).key]
        rw [hrows, List.countP_append, hkeys, hpressed.countP hmem hlive]
        omega
      · exact .inr (.inr (.inl (by omega)))
  · -- a new row carries a new serial
    obtain ⟨_, _, _, _, _, _, _, _, rfl⟩ := added_begun hev hr
    rw [← hid] at hissued
    change l.serial + 1 ≤ l.serial at hissued
    omega

theorem Sound.doubted {auth : AuthTable} {ttl : Nat} {boot : Nat × Nat}
    {history : List (Call × Answer)} {l m : AttemptLedger} (hsound : Sound auth ttl boot history l)
    {c : Call} {answer : Answer} {id : AttemptId} (hstep : step l c = (answer, m))
    (hkept : m.lost = false) (hdoubt : Doubts l id c answer) : Doubted m id := by
  have hserial : ∀ r ∈ l.rows, r.id.serial ≤ l.serial := by
    intro r hr
    obtain ⟨e, he, hid⟩ := (hsound.explained r hr).issued
    exact (hsound.issued e he r.id hid).2
  cases hdoubt with
  | @ambiguous _ h _ _ hambiguous =>
      obtain ⟨p, r, -, -, rfl, ⟨hmem, hkey, rfl, -⟩, rfl⟩ := get_view hstep
      refine ⟨hserial r hmem, ?_⟩
      intro s hs hid
      obtain rfl := hsound.eq_of_id hs hmem hid
      obtain ⟨rfl, htokens⟩ := (key_iff s p _).mp hkey
      right; right; right
      have hcount : 1 < l.rows.countP fun o => key o s.project h := by
        simpa [AttemptLedger.view] using hambiguous
      change 2 ≤ l.rows.countP fun o => key o s.project s.headers
      rw [countP_key_congr l.rows s.project htokens]
      omega
  | uncounted hunknown =>
      obtain ⟨p, r, -, -, rfl, ⟨hmem, hkey, rfl, -⟩, rfl⟩ := get_view hstep
      refine ⟨hserial r hmem, ?_⟩
      intro s hs hid
      obtain rfl := hsound.eq_of_id hs hmem hid
      right; left
      change l.lost = false at hkept
      simpa [AttemptLedger.view, hkept] using hunknown
  | @incomplete r now _ hmem hid hlive =>
      obtain ⟨-, -, -, rfl⟩ := finish_kept hstep hkept
      refine ⟨hid ▸ hserial r hmem, ?_⟩
      intro s hs hsid
      obtain ⟨s₀, hs₀, rfl⟩ := List.mem_map.mp hs
      left
      split at hsid
      · next hs₀id =>
          obtain rfl := hsound.eq_of_id hs₀ hmem (hs₀id.trans hid.symm)
          unfold Row.finish
          rw [if_pos hs₀id, if_neg (by omega)]
          simp
      · next hs₀id => exact absurd hsid hs₀id

/-- **Doubt never heals.**  Once an attempt was answered ambiguous or of unknown count, or finished
incomplete while live, no later answer about it is exact. -/
theorem attemptGet_doubt_never_heals {auth : AuthTable} {capacity ttl : Nat} {boot : Nat × Nat}
    {start l m n k : AttemptLedger} {history later : List (Call × Answer)} {c : Call}
    {answer : Answer} {id : AttemptId} {a : Option Text} {h : AttemptHeaders} {now : Nat}
    {v : AttemptView} (hcreate : attemptCreate auth capacity ttl boot = some start)
    (hrun : Trace.Runs step start history l) (hstep : step l c = (answer, m))
    (hdoubt : Doubts l id c answer) (hlater : Trace.Runs step m later n)
    (hget : step n (.get a h id now) = (.view (some v), k)) : v.exact = false := by
  by_contra hexact
  rw [Bool.not_eq_false] at hexact
  obtain ⟨p, r, -, hle, rfl, ⟨hmem, hkey, hid, hlive⟩, rfl⟩ := get_view hget
  obtain ⟨hkept, hbegun, hcount, hfailed, -, -⟩ := exact_view hexact
  have hm : m.lost = false := run_lost hlater hkept
  have hsound := run_sound hcreate hrun (step_evolves hstep hm).kept
  have hdoubted : Doubted n id := by
    refine (hlater.induct (P := fun _ s => s.lost = false → Doubted s id) ?_ ?_) hkept
    · exact fun _ => hsound.doubted hstep hm hdoubt
    · intro _ s _ _ t _ ih hs ht
      have hev := step_evolves hs ht
      exact (ih hev.kept).carry hev
  obtain ⟨rfl, htokens⟩ := (key_iff r p h).mp hkey
  rcases hdoubted.spoiled r hmem hid with hf | hb | he | hc
  · rw [hfailed] at hf
    cases hf
  · change n.lostUntil ≤ r.begun at hbegun
    omega
  · omega
  · rw [countP_key_congr n.rows r.project htokens] at hc
    change n.rows.countP (fun s => key s r.project h) ≤ 1 at hcount
    omega

/-- A second attempt with the same key makes the first ambiguous for good. -/
theorem attemptGet_doubt_never_heals_sample :
    (step (Trace.feed step sampleLedger (sampleCalls ++ [.begin (some (text "Bearer synthetic-a"))
        sampleHeaders 4 true, .get (some (text "Bearer synthetic-a")) sampleHeaders sampleId 5])).2
      (.get (some (text "Bearer synthetic-a")) sampleHeaders sampleId 6)).1 =
        .view (some ⟨2, true, false, true⟩) ∧
      (⟨2, true, false, true⟩ : AttemptView).exact = false :=
  ⟨rfl, attemptGet_doubt_never_heals
    (show attemptCreate sampleAuth 4 10 (7, 1) = some sampleLedger from rfl)
    (.feed (sampleCalls ++ [.begin (some (text "Bearer synthetic-a")) sampleHeaders 4 true])
      sampleLedger)
    (show step _ (.get (some (text "Bearer synthetic-a")) sampleHeaders sampleId 5) =
      (.view (some ⟨2, true, false, true⟩), _) from rfl)
    (.ambiguous rfl) .init
    (show step _ (.get (some (text "Bearer synthetic-a")) sampleHeaders sampleId 6) =
      (.view (some ⟨2, true, false, true⟩), _) from rfl)⟩

end Recursant.Attempts
