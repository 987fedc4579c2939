import Recursant.Attempts.Ledger

/-!
# What one call does to the ledger

One inversion lemma for each call, restricted to calls that leave no permanent loss behind, and the
reading of in-place reclamation as a filter.  The invariants of the ledger only use these.
-/

namespace Recursant.Attempts

/-! ## Reclamation -/

/-- A row that reclamation keeps at `now`: unsettled, live, or a tombstone of a live row. -/
def protectedRow (now : Nat) (rows : List Row) (r : Row) : Prop :=
  r.settled = false ∨ now < r.expires ∨
    ∃ other ∈ rows, now < other.expires ∧ key other r.project r.headers = true

theorem reclaimable_eq_false_iff (now : Nat) (rows : List Row) (r : Row) :
    reclaimable now rows r = false ↔ protectedRow now rows r := by
  unfold reclaimable protectedRow
  rw [Bool.and_eq_false_iff, Bool.and_eq_false_iff, List.all_eq_false, decide_eq_false_iff_not,
    ge_iff_le, not_le, or_assoc]
  simp

instance (now : Nat) (rows : List Row) (r : Row) : Decidable (protectedRow now rows r) :=
  decidable_of_iff _ (reclaimable_eq_false_iff now rows r)

theorem reclaimable_stable (now : Nat) (rows : List Row) :
    Compaction.Stable (reclaimable now) (fun r => now < r.expires) rows where
  anchored := by
    intro r _ hlive
    exact (reclaimable_eq_false_iff now rows r).mpr (.inr (.inl hlive))
  congr := by
    intro others hsame
    funext r
    apply Bool.eq_iff_iff.mpr
    rw [← not_iff_not, Bool.not_eq_true, Bool.not_eq_true, reclaimable_eq_false_iff,
      reclaimable_eq_false_iff]
    unfold protectedRow
    constructor
    · rintro (h | h | ⟨other, hmem, hlive, hkey⟩)
      · exact .inl h
      · exact .inr (.inl h)
      · exact .inr (.inr ⟨other, (hsame other hlive).mp hmem, hlive, hkey⟩)
    · rintro (h | h | ⟨other, hmem, hlive, hkey⟩)
      · exact .inl h
      · exact .inr (.inl h)
      · exact .inr (.inr ⟨other, (hsame other hlive).mpr hmem, hlive, hkey⟩)

/-- Compaction in place keeps exactly the protected rows, in order. -/
theorem reclaim_rows (l : AttemptLedger) (now : Nat) :
    (reclaim l now).rows = l.rows.filter fun r => protectedRow now l.rows r := by
  unfold reclaim
  rw [Compaction.compact_eq_filter (reclaimable_stable now l.rows)]
  apply List.filter_congr
  intro r _
  rw [Bool.eq_iff_iff, Bool.not_eq_true', decide_eq_true_iff]
  exact reclaimable_eq_false_iff now l.rows r

/-- The rows after capacity pressure at `now`: untouched or reclaimed. -/
def Pressed (l : AttemptLedger) (now : Nat) (rows : List Row) : Prop :=
  rows = l.rows ∨ rows = l.rows.filter fun r => protectedRow now l.rows r

theorem reclaimIfFull_eq (l : AttemptLedger) (now : Nat) :
    ∃ rows, Pressed l now rows ∧ reclaimIfFull l now = { l with rows := rows } := by
  unfold reclaimIfFull
  split
  · refine ⟨(reclaim l now).rows, .inr (reclaim_rows l now), rfl⟩
  · exact ⟨l.rows, .inl rfl, rfl⟩

theorem Pressed.subset {l : AttemptLedger} {now : Nat} {rows : List Row}
    (h : Pressed l now rows) : ∀ r ∈ rows, r ∈ l.rows := by
  rcases h with rfl | rfl
  · exact fun _ hr => hr
  · exact fun _ hr => List.mem_of_mem_filter hr

theorem Pressed.sublist {l : AttemptLedger} {now : Nat} {rows : List Row}
    (h : Pressed l now rows) : rows.Sublist l.rows := by
  rcases h with rfl | rfl
  · exact List.Sublist.refl _
  · exact List.filter_sublist

/-- A row lost under pressure is expired and shares its key with no live row. -/
theorem Pressed.lost {l : AttemptLedger} {now : Nat} {rows : List Row} (h : Pressed l now rows)
    {r : Row} (hr : r ∈ l.rows) (hlost : r ∉ rows) : ¬ protectedRow now l.rows r := by
  rcases h with rfl | rfl
  · exact absurd hr hlost
  · intro hkeep
    exact hlost (List.mem_filter.mpr ⟨hr, by simpa using hkeep⟩)

/-! ## Clock and loss -/

theorem clockOk_true {l m : AttemptLedger} {now : Nat} (h : clockOk l now = (true, m)) :
    l.now ≤ now ∧ m = { l with now := now } := by
  unfold clockOk at h
  split at h
  · cases h
  · next hlt =>
      exact ⟨by omega, (Prod.mk.inj h).2.symm⟩

theorem clockOk_false {l m : AttemptLedger} {now : Nat} (h : clockOk l now = (false, m)) :
    m.lost = true := by
  unfold clockOk at h
  split at h
  · exact (Prod.mk.inj h).2 ▸ rfl
  · cases h

theorem loseWindow_kept {l : AttemptLedger} {now : Nat} (h : (loseWindow l now).lost = false) :
    l.lost = false ∧ loseWindow l now = { l with lostUntil := max l.lostUntil (now + l.ttl) } := by
  unfold loseWindow at h ⊢
  split at h
  · cases h
  · next hfit =>
      rw [if_neg hfit]
      split at h
      · next hmore =>
          rw [if_pos hmore, max_eq_right (by omega)]
          exact ⟨h, rfl⟩
      · next hmore =>
          rw [if_neg hmore, max_eq_left (by omega)]
          exact ⟨h, rfl⟩

/-! ## Inversion, one lemma for each call -/

theorem begin_kept {l m : AttemptLedger} {a : Option Text} {h : AttemptHeaders} {now : Nat}
    {w : Bool} {answer : Answer} (hstep : step l (.begin a h now w) = (answer, m))
    (hkept : m.lost = false) :
    (authBearer l.auth a = none ∧ answer = .begun .unauthorized none ∧ m = l) ∨
      ∃ p rows, authBearer l.auth a = some p ∧ l.lost = false ∧ l.now ≤ now ∧
        Pressed l now rows ∧
        ((answer = .begun .untracked (some ⟨l.boot, l.serial + 1⟩) ∧
            m = { l with serial := l.serial + 1, now := now, rows := rows,
                         lostUntil := max l.lostUntil (now + l.ttl) }) ∨
          (answer = .begun .tracked (some ⟨l.boot, l.serial + 1⟩) ∧ valid h = true ∧
            m = { l with serial := l.serial + 1, now := now,
                         rows := rows ++ [.fresh h p ⟨l.boot, l.serial + 1⟩ now l.ttl] })) := by
  simp only [step, attemptBegin] at hstep
  cases hauth : authBearer l.auth a with
  | none =>
      simp only [hauth] at hstep
      obtain ⟨rfl, rfl⟩ := Prod.mk.inj hstep
      exact .inl ⟨rfl, rfl, rfl⟩
  | some p =>
      simp only [hauth] at hstep
      right
      split at hstep
      · obtain ⟨rfl, rfl⟩ := Prod.mk.inj hstep
        cases hkept
      · rcases hclock : clockOk { l with serial := l.serial + 1 } now with ⟨ok, c⟩
        simp only [hclock] at hstep
        cases ok with
        | false =>
            obtain ⟨rfl, rfl⟩ := Prod.mk.inj hstep
            rw [clockOk_false hclock] at hkept
            cases hkept
        | true =>
            obtain ⟨hle, rfl⟩ := clockOk_true hclock
            simp only at hstep hle
            split at hstep
            · obtain ⟨rfl, rfl⟩ := Prod.mk.inj hstep
              cases hkept
            · split at hstep
              · obtain ⟨rfl, rfl⟩ := Prod.mk.inj hstep
                obtain ⟨hlost, hwindow⟩ := loseWindow_kept hkept
                exact ⟨p, l.rows, rfl, hlost, hle, .inl rfl, .inl ⟨rfl, hwindow⟩⟩
              · next hvalid =>
                  obtain ⟨rows, hpressed, hrows⟩ :=
                    reclaimIfFull_eq { l with serial := l.serial + 1, now := now } now
                  rw [hrows] at hstep
                  simp only at hstep
                  split at hstep
                  · obtain ⟨rfl, rfl⟩ := Prod.mk.inj hstep
                    obtain ⟨hlost, hwindow⟩ := loseWindow_kept hkept
                    exact ⟨p, rows, rfl, hlost, hle, hpressed, .inl ⟨rfl, hwindow⟩⟩
                  · obtain ⟨rfl, rfl⟩ := Prod.mk.inj hstep
                    exact ⟨p, rows, rfl, hkept, hle, hpressed,
                      .inr ⟨rfl, by simpa using hvalid, rfl⟩⟩

theorem finish_kept {l m : AttemptLedger} {id : AttemptId} {complete : Bool} {now : Nat}
    {answer : Answer} (hstep : step l (.finish id complete now) = (answer, m))
    (hkept : m.lost = false) :
    answer = .done ∧ l.lost = false ∧ l.now ≤ now ∧
      m = { l with
        now := now
        rows := l.rows.map fun r => if r.id = id then r.finish complete now else r } := by
  obtain ⟨rfl, hm⟩ := Prod.mk.inj hstep
  unfold attemptFinish at hm
  rcases hclock : clockOk l now with ⟨ok, c⟩
  rw [hclock] at hm
  cases ok with
  | false =>
      subst hm
      rw [clockOk_false hclock] at hkept
      cases hkept
  | true =>
      obtain ⟨hle, rfl⟩ := clockOk_true hclock
      subst hm
      exact ⟨rfl, hkept, hle, rfl⟩

theorem sourceComplete_kept {l m : AttemptLedger} {a : Option Text} {h : AttemptHeaders}
    {now : Nat} {answer : Answer} (hstep : step l (.sourceComplete a h now) = (answer, m))
    (hkept : m.lost = false) :
    answer = .done ∧ l.lost = false ∧
      ((valid h = false ∨ authBearer l.auth a = none) ∧ m = l ∨ ∃ p, valid h = true ∧ authBearer l.auth a = some p ∧ l.now ≤ now ∧
        m = { l with
          now := now
          rows := l.rows.map fun r =>
            if key r p h && now < r.expires then { r with source := true } else r }) := by
  obtain ⟨rfl, hm⟩ := Prod.mk.inj hstep
  unfold attemptSourceComplete at hm
  refine ⟨rfl, ?_⟩
  split at hm
  · next hinvalid =>
      subst hm
      exact ⟨hkept, .inl ⟨.inl (by simpa using hinvalid), rfl⟩⟩
  · next hvalid =>
      cases hauth : authBearer l.auth a with
      | none =>
          rw [hauth] at hm
          subst hm
          exact ⟨hkept, .inl ⟨.inr rfl, rfl⟩⟩
      | some p =>
          rw [hauth] at hm
          rcases hclock : clockOk l now with ⟨ok, c⟩
          simp only [hclock] at hm
          cases ok with
          | false =>
              subst hm
              rw [clockOk_false hclock] at hkept
              cases hkept
          | true =>
              obtain ⟨hle, rfl⟩ := clockOk_true hclock
              subst hm
              exact ⟨hkept, .inr ⟨p, by simpa using hvalid, rfl, hle, rfl⟩⟩

/-- The row an answered query reports on. -/
def Reported (l : AttemptLedger) (p : Nat) (h : AttemptHeaders) (id : AttemptId) (now : Nat)
    (r : Row) : Prop :=
  r ∈ l.rows ∧ key r p h = true ∧ r.id = id ∧ now < r.expires

theorem get_view {l m : AttemptLedger} {a : Option Text} {h : AttemptHeaders} {id : AttemptId}
    {now : Nat} {v : AttemptView} (hstep : step l (.get a h id now) = (.view (some v), m)) :
    ∃ p r, authBearer l.auth a = some p ∧ l.now ≤ now ∧ m = { l with now := now } ∧
      Reported l p h id now r ∧ v = l.view r p h := by
  rcases hget : attemptGet l a h id now with ⟨reported, c⟩
  simp only [step, hget] at hstep
  obtain ⟨hv, rfl⟩ := Prod.mk.inj hstep
  injection hv with hv
  subst hv
  unfold attemptGet at hget
  split at hget
  · cases hget
  · cases hauth : authBearer l.auth a with
    | none =>
        rw [hauth] at hget
        cases hget
    | some p =>
        rw [hauth] at hget
        rcases hclock : clockOk l now with ⟨ok, c⟩
        simp only [hclock] at hget
        cases ok with
        | false => cases hget
        | true =>
            obtain ⟨hle, rfl⟩ := clockOk_true hclock
            obtain ⟨hfound, rfl⟩ := Prod.mk.inj hget
            obtain ⟨r, hfind, rfl⟩ := Option.map_eq_some_iff.mp hfound
            have hr := List.find?_some hfind
            simp only [Bool.and_eq_true, decide_eq_true_eq] at hr
            exact ⟨p, r, rfl, hle, rfl,
              ⟨List.mem_of_find?_eq_some hfind, hr.1.1, hr.1.2, hr.2⟩, rfl⟩

theorem get_kept {l m : AttemptLedger} {a : Option Text} {h : AttemptHeaders} {id : AttemptId}
    {now : Nat} {answer : Answer} (hstep : step l (.get a h id now) = (answer, m))
    (hkept : m.lost = false) :
    l.lost = false ∧ ∃ n, l.now ≤ n ∧ m = { l with now := n } := by
  rcases hget : attemptGet l a h id now with ⟨reported, c⟩
  simp only [step, hget] at hstep
  obtain ⟨-, rfl⟩ := Prod.mk.inj hstep
  unfold attemptGet at hget
  split at hget
  · obtain ⟨-, rfl⟩ := Prod.mk.inj hget
    exact ⟨hkept, l.now, le_rfl, rfl⟩
  · cases hauth : authBearer l.auth a with
    | none =>
        simp only [hauth] at hget
        obtain ⟨-, rfl⟩ := Prod.mk.inj hget
        exact ⟨hkept, l.now, le_rfl, rfl⟩
    | some p =>
        rw [hauth] at hget
        rcases hclock : clockOk l now with ⟨ok, c⟩
        simp only [hclock] at hget
        cases ok with
        | false =>
            obtain ⟨-, rfl⟩ := Prod.mk.inj hget
            rw [clockOk_false hclock] at hkept
            cases hkept
        | true =>
            obtain ⟨hle, rfl⟩ := clockOk_true hclock
            obtain ⟨-, rfl⟩ := Prod.mk.inj hget
            exact ⟨hkept, now, hle, rfl⟩

theorem lostAt_kept {l m : AttemptLedger} {now : Nat} {answer : Answer}
    (hstep : step l (.lostAt now) = (answer, m)) (hkept : m.lost = false) :
    l.lost = false ∧ l.now ≤ now ∧
      m = { l with now := now, lostUntil := max l.lostUntil (now + l.ttl) } := by
  obtain ⟨-, hm⟩ := Prod.mk.inj hstep
  unfold attemptLostAt at hm
  rcases hclock : clockOk l now with ⟨ok, c⟩
  simp only [hclock] at hm
  cases ok with
  | false =>
      subst hm
      rw [clockOk_false hclock] at hkept
      cases hkept
  | true =>
      obtain ⟨hle, rfl⟩ := clockOk_true hclock
      subst hm
      obtain ⟨hlost, hwindow⟩ := loseWindow_kept hkept
      exact ⟨hlost, hle, hwindow⟩

theorem capacity_kept {l m : AttemptLedger} {now : Nat} {answer : Answer}
    (hstep : step l (.capacity now) = (answer, m)) (hkept : m.lost = false) :
    l.lost = false ∧ l.now ≤ now ∧
      ∃ rows, Pressed l now rows ∧ m = { l with now := now, rows := rows } := by
  rcases hcap : attemptCapacity l now with ⟨free, c⟩
  simp only [step, hcap] at hstep
  obtain ⟨-, rfl⟩ := Prod.mk.inj hstep
  unfold attemptCapacity at hcap
  rcases hclock : clockOk l now with ⟨ok, c⟩
  simp only [hclock] at hcap
  cases ok with
  | false =>
      obtain ⟨-, rfl⟩ := Prod.mk.inj hcap
      rw [clockOk_false hclock] at hkept
      cases hkept
  | true =>
      obtain ⟨hle, rfl⟩ := clockOk_true hclock
      obtain ⟨-, rfl⟩ := Prod.mk.inj hcap
      obtain ⟨rows, hpressed, hrows⟩ := reclaimIfFull_eq { l with now := now } now
      rw [hrows] at hkept ⊢
      exact ⟨hkept, hle, rows, hpressed, rfl⟩

end Recursant.Attempts
