import Mathlib.Data.List.Basic
import Mathlib.Logic.Function.Basic
import Recursant.Lib.Trace

/-!
# Maps with revision fences

A map from keys to entries that expire.  A newer revision replaces an entry, an older one is refused,
whether the entry has expired or not.  Keys belong to generations: closing one removes its entries
and refuses every operation on it for a while.
-/

namespace FencedMap

variable {K G V W : Type}

/-! ## Operations -/

structure Entry (V W : Type) where
  revision : Nat
  expiresAt : Nat
  value : V
  remark : Option W
  deriving DecidableEq

inductive Op (K V W : Type) where
  | put (k : K) (revision now ttl : Nat) (value : V)
  | annotate (k : K) (revision now : Nat) (remark : W)
  | get (k : K) (now : Nat)
  | close (k : K) (now : Nat)

def Op.key : Op K V W → K
  | .put k _ _ _ _ | .annotate k _ _ _ | .get k _ | .close k _ => k

def Op.now : Op K V W → Nat
  | .put _ _ now _ _ | .annotate _ _ now _ | .get _ now | .close _ now => now

inductive Outcome where
  | ok
  | invalid
  | notFound
  | conflict
  | full
  | closed
  deriving DecidableEq

abbrev Answer (V W : Type) := Outcome × Option (Entry V W)

/-- `closedUntil` has the generations that were closed and the end of their refusal. -/
@[ext] structure Map (K G V W : Type) where
  clock : Nat
  entry : K → Option (Entry V W)
  closedUntil : G → Option Nat

def Map.empty : Map K G V W := ⟨0, fun _ => none, fun _ => none⟩

/-! ## Steps -/

variable [DecidableEq K] [DecidableEq G]

/-- The clock advances; a refusal ends with its time. -/
def Map.tick (m : Map K G V W) (now : Nat) : Map K G V W :=
  { m with clock := now, closedUntil := fun g => (m.closedUntil g).filter (now < ·) }

def Map.put (m : Map K G V W) (k : K) (e : Entry V W) : Map K G V W :=
  { m with entry := Function.update m.entry k (some e) }

def Map.close (gen : K → G) (m : Map K G V W) (g : G) (ends : Nat) : Map K G V W :=
  { m with
    entry := fun k => if gen k = g then none else m.entry k
    closedUntil := Function.update m.closedUntil g (some ends) }

/-- The entry of the key that has not expired. -/
def Map.live (m : Map K G V W) (k : K) (now : Nat) : Option (Entry V W) :=
  (m.entry k).filter (now < ·.expiresAt)

/-- The operation is one that the map considers, and `m` is the map at its time. -/
structure Enters (valid : Op K V W → Bool) (gen : K → G) (s : Map K G V W) (op : Op K V W)
    (m : Map K G V W) : Prop where
  valid : valid op = true
  clock : s.clock ≤ op.now
  ticked : m = s.tick op.now
  isOpen : m.closedUntil (gen op.key) = none

/-- What the map may answer.  Whether there is room for a new entry is not said. -/
inductive Step (valid : Op K V W → Bool) (gen : K → G) (horizon : Nat) (s : Map K G V W) :
    Op K V W → Answer V W → Map K G V W → Prop
  | invalid {op : Op K V W} : valid op = false ∨ op.now < s.clock →
      Step valid gen horizon s op (.invalid, none) s
  | closed {op : Op K V W} : valid op = true → s.clock ≤ op.now →
      (s.tick op.now).closedUntil (gen op.key) ≠ none →
      Step valid gen horizon s op (.closed, none) (s.tick op.now)
  | put {k : K} {revision now ttl : Nat} {value : V} {m : Map K G V W} :
      Enters valid gen s (.put k revision now ttl value) m →
      (∀ e, m.entry k = some e → e.revision < revision) →
      Step valid gen horizon s (.put k revision now ttl value) (.ok, none)
        (m.put k ⟨revision, now + ttl, value, none⟩)
  | stale {k : K} {revision now ttl : Nat} {value : V} {m : Map K G V W} {e : Entry V W} :
      Enters valid gen s (.put k revision now ttl value) m → m.entry k = some e →
      revision ≤ e.revision →
      Step valid gen horizon s (.put k revision now ttl value) (.conflict, none) m
  | full {k : K} {revision now ttl : Nat} {value : V} {m : Map K G V W} :
      Enters valid gen s (.put k revision now ttl value) m → m.entry k = none →
      Step valid gen horizon s (.put k revision now ttl value) (.full, none) m
  | annotate {k : K} {revision now : Nat} {remark : W} {m : Map K G V W} {e : Entry V W} :
      Enters valid gen s (.annotate k revision now remark) m → m.live k now = some e →
      e.revision = revision → e.remark = none →
      Step valid gen horizon s (.annotate k revision now remark) (.ok, none)
        (m.put k { e with remark := some remark })
  | unknown {k : K} {revision now : Nat} {remark : W} {m : Map K G V W} :
      Enters valid gen s (.annotate k revision now remark) m → m.live k now = none →
      Step valid gen horizon s (.annotate k revision now remark) (.notFound, none) m
  | other {k : K} {revision now : Nat} {remark : W} {m : Map K G V W} {e : Entry V W} :
      Enters valid gen s (.annotate k revision now remark) m → m.live k now = some e →
      (e.revision ≠ revision ∨ e.remark ≠ none) →
      Step valid gen horizon s (.annotate k revision now remark) (.conflict, none) m
  | get {k : K} {now : Nat} {m : Map K G V W} {e : Entry V W} :
      Enters valid gen s (.get k now) m → m.live k now = some e →
      Step valid gen horizon s (.get k now) (.ok, some e) m
  | missing {k : K} {now : Nat} {m : Map K G V W} :
      Enters valid gen s (.get k now) m → m.live k now = none →
      Step valid gen horizon s (.get k now) (.notFound, none) m
  | close {k : K} {now : Nat} {m : Map K G V W} : Enters valid gen s (.close k now) m →
      Step valid gen horizon s (.close k now) (.ok, none) (m.close gen (gen k) (now + horizon))
  | crowded {k : K} {now : Nat} {m : Map K G V W} : Enters valid gen s (.close k now) m →
      (∀ k', gen k' = gen k → m.entry k' = none) →
      Step valid gen horizon s (.close k now) (.full, none) m

/-- The runs of a map, with the answers. -/
abbrev Runs (valid : Op K V W → Bool) (gen : K → G) (horizon : Nat) :
    Map K G V W → List (Op K V W × Answer V W) → Map K G V W → Prop :=
  Trace.Path (Step valid gen horizon)

section Laws

variable {valid : Op K V W → Bool} {gen : K → G} {horizon : Nat} {s m t : Map K G V W}
  {op : Op K V W} {answer : Answer V W} {history later : List (Op K V W × Answer V W)}

/-! ## One step -/

/-- Only an accepted operation changes more than the clock and the refusals that have ended. -/
theorem Step.frame (h : Step valid gen horizon s op answer t) (hnot : answer.1 ≠ .ok) :
    t = s ∨ t = s.tick op.now := by
  cases h with
  | invalid _ => exact .inl rfl
  | closed _ _ _ => exact .inr rfl
  | put _ _ => exact absurd rfl hnot
  | stale henters _ _ => exact .inr henters.ticked
  | full henters _ => exact .inr henters.ticked
  | annotate _ _ _ _ => exact absurd rfl hnot
  | unknown henters _ => exact .inr henters.ticked
  | other henters _ _ => exact .inr henters.ticked
  | get _ _ => exact absurd rfl hnot
  | missing henters _ => exact .inr henters.ticked
  | close _ => exact absurd rfl hnot
  | crowded henters _ => exact .inr henters.ticked

/-- The operation is an accepted one that closes the generation. -/
def Closes (gen : K → G) (g : G) : Op K V W × Answer V W → Prop
  | (.close k _, (.ok, _)) => gen k = g
  | _ => False

/-- The operation is an accepted one that replaces the entry of the key. -/
def Puts (k : K) : Op K V W × Answer V W → Prop
  | (.put k' _ _ _ _, (.ok, _)) => k' = k
  | _ => False

/-- The operation is an accepted remark of the revision of the key. -/
def Remarks (k : K) (revision : Nat) (remark : W) : Op K V W × Answer V W → Prop
  | (.annotate k' revision' _ remark', (.ok, _)) => k' = k ∧ revision' = revision ∧ remark' = remark
  | _ => False

/-- What a step makes of an entry whose generation it does not close. -/
inductive Fate (k : K) (e : Entry V W) (op : Op K V W) (answer : Answer V W) :
    Option (Entry V W) → Prop
  | same : ¬ Puts k (op, answer) → (∀ remark, ¬ Remarks k e.revision remark (op, answer)) →
      Fate k e op answer (some e)
  | remarked (remark : W) : e.remark = none → ¬ Puts k (op, answer) →
      Remarks k e.revision remark (op, answer) →
      Fate k e op answer (some { e with remark := some remark })
  | replaced (newer : Entry V W) : Puts k (op, answer) → e.revision < newer.revision →
      newer.remark = none → Fate k e op answer (some newer)

theorem Step.entry (h : Step valid gen horizon s op answer t) {k : K} {e : Entry V W}
    (he : s.entry k = some e) (hnot : ¬ Closes gen (gen k) (op, answer)) :
    Fate k e op answer (t.entry k) := by
  have hsame : ∀ {op : Op K V W} {answer : Answer V W} {m : Map K G V W}, m.entry k = s.entry k →
      ¬ Puts k (op, answer) → (∀ remark, ¬ Remarks k e.revision remark (op, answer)) →
      Fate k e op answer (m.entry k) := by
    intro op answer m hm hputs hremarks
    rw [hm, he]
    exact .same hputs hremarks
  have hticked : ∀ {op : Op K V W} {m : Map K G V W}, Enters valid gen s op m →
      m.entry = s.entry := by
    intro op m henters
    rw [henters.ticked]
    rfl
  cases h with
  | invalid _ => exact hsame rfl (by cases op <;> exact id) fun _ => by cases op <;> exact id
  | closed _ _ _ => exact hsame rfl (by cases op <;> exact id) fun _ => by cases op <;> exact id
  | @put k' revision now ttl value m henters hnewer =>
      have hentry := hticked henters
      by_cases hk : k = k'
      · rw [← hk] at hnewer ⊢
        have hm : m.entry k = some e := (congrFun hentry k).trans he
        rw [show (m.put k ⟨revision, now + ttl, value, none⟩).entry k = _ from
          Function.update_self ..]
        exact .replaced _ rfl (hnewer e hm) rfl
      · refine hsame ?_ (fun hputs => hk hputs.symm) fun _ => id
        exact (Function.update_of_ne hk ..).trans (congrFun hentry k)
  | stale henters _ _ => exact hsame (congrFun (hticked henters) k) id fun _ => id
  | full henters _ => exact hsame (congrFun (hticked henters) k) id fun _ => id
  | @annotate k' revision now remark m found henters hlive hrevision hremark =>
      have hentry := hticked henters
      by_cases hk : k = k'
      · rw [← hk] at hlive ⊢
        have hm : m.entry k = some e := (congrFun hentry k).trans he
        unfold Map.live at hlive
        rw [hm] at hlive
        obtain ⟨hfound, -⟩ := Option.filter_eq_some_iff.mp hlive
        obtain rfl := Option.some.inj hfound
        rw [show (m.put k { e with remark := some remark }).entry k = _ from
          Function.update_self ..]
        exact .remarked remark hremark id ⟨rfl, hrevision.symm, rfl⟩
      · refine hsame ?_ id fun _ hremarks => hk hremarks.1.symm
        exact (Function.update_of_ne hk ..).trans (congrFun hentry k)
  | unknown henters _ => exact hsame (congrFun (hticked henters) k) id fun _ => id
  | other henters _ _ => exact hsame (congrFun (hticked henters) k) id fun _ => id
  | get henters _ => exact hsame (congrFun (hticked henters) k) id fun _ => id
  | missing henters _ => exact hsame (congrFun (hticked henters) k) id fun _ => id
  | @close k' now m henters =>
      have hother : gen k ≠ gen k' := fun hk => hnot hk.symm
      have hentry := hticked henters
      refine hsame ?_ id fun _ => id
      exact (if_neg hother).trans (congrFun hentry k)
  | crowded henters _ => exact hsame (congrFun (hticked henters) k) id fun _ => id

theorem Step.puts (h : Step valid gen horizon s op answer t) {k : K} (hputs : Puts k (op, answer)) :
    ∃ revision now ttl value, op = .put k revision now ttl value ∧ answer = (.ok, none) ∧
      t.entry k = some ⟨revision, now + ttl, value, none⟩ := by
  cases h with
  | invalid _ => cases op <;> exact hputs.elim
  | closed _ _ _ => cases op <;> exact hputs.elim
  | put _ _ =>
      have hk : _ = k := hputs
      subst hk
      exact ⟨_, _, _, _, rfl, rfl, Function.update_self ..⟩
  | _ => exact hputs.elim

theorem Step.closes (h : Step valid gen horizon s op answer t) {g : G}
    (hcloses : Closes gen g (op, answer)) :
    t.closedUntil g = some (op.now + horizon) ∧ ∀ k, gen k = g → t.entry k = none := by
  cases h with
  | invalid _ => cases op <;> exact hcloses.elim
  | closed _ _ _ => cases op <;> exact hcloses.elim
  | close _ =>
      have hg : gen _ = g := hcloses
      rw [← hg]
      exact ⟨Function.update_self .., fun k hk => if_pos hk⟩
  | _ => exact hcloses.elim

/-- A key without an entry is given one by a put only. -/
theorem Step.entry_none (h : Step valid gen horizon s op answer t) {k : K}
    (hnone : s.entry k = none) (hsome : t.entry k ≠ none) : Puts k (op, answer) := by
  have hticked : ∀ {op : Op K V W} {m : Map K G V W}, Enters valid gen s op m →
      m.entry k = none := by
    intro op m henters
    rw [henters.ticked]
    exact hnone
  cases h with
  | invalid _ => exact absurd hnone hsome
  | closed _ _ _ => exact absurd hnone hsome
  | @put k' revision now ttl value m henters _ =>
      by_cases hk : k' = k
      · exact hk
      · refine absurd ?_ hsome
        exact (Function.update_of_ne (Ne.symm hk) ..).trans (hticked henters)
  | stale henters _ _ => exact absurd (hticked henters) hsome
  | full henters _ => exact absurd (hticked henters) hsome
  | @annotate k' revision now remark m e henters hlive _ _ =>
      have hk : k ≠ k' := by
        intro hk
        unfold Map.live at hlive
        rw [← hk, hticked henters] at hlive
        cases hlive
      exact absurd ((Function.update_of_ne hk ..).trans (hticked henters)) hsome
  | unknown henters _ => exact absurd (hticked henters) hsome
  | other henters _ _ => exact absurd (hticked henters) hsome
  | get henters _ => exact absurd (hticked henters) hsome
  | missing henters _ => exact absurd (hticked henters) hsome
  | @close k' now m henters =>
      refine absurd ?_ hsome
      show (if gen k = gen k' then none else m.entry k) = none
      rw [hticked henters, ite_self]
  | crowded henters _ => exact absurd (hticked henters) hsome

theorem Step.clock_le (h : Step valid gen horizon s op answer t) : s.clock ≤ t.clock := by
  have hticked : ∀ {op : Op K V W} {m : Map K G V W}, Enters valid gen s op m →
      s.clock ≤ m.clock := by
    intro op m henters
    rw [henters.ticked]
    exact henters.clock
  cases h with
  | invalid _ => exact Nat.le_refl _
  | closed _ hclock _ => exact hclock
  | put henters _ | stale henters _ _ | full henters _ | annotate henters _ _ _
  | unknown henters _ | other henters _ _ | get henters _ | missing henters _ | close henters
  | crowded henters _ => exact (hticked henters :)

/-! ## Closed generations -/

/-- A generation that is refused has no entries. -/
def Excluded (gen : K → G) (m : Map K G V W) : Prop :=
  ∀ k, m.closedUntil (gen k) ≠ none → m.entry k = none

omit [DecidableEq K] [DecidableEq G] in
theorem Excluded.tick (h : Excluded gen s) (now : Nat) : Excluded gen (s.tick now) := by
  intro k hclosed
  apply h k
  intro hnone
  apply hclosed
  show (s.closedUntil (gen k)).filter _ = none
  rw [hnone]
  rfl

omit [DecidableEq G] in
theorem Excluded.put (h : Excluded gen m) {k : K} (hopen : m.closedUntil (gen k) = none)
    (e : Entry V W) : Excluded gen (m.put k e) := by
  intro k' hclosed
  have hk : k' ≠ k := fun hk => hclosed (hk ▸ hopen)
  exact (Function.update_of_ne hk ..).trans (h k' hclosed)

theorem Step.excluded (h : Step valid gen horizon s op answer t) (hexcluded : Excluded gen s) :
    Excluded gen t := by
  have hticked : ∀ {op : Op K V W} {m : Map K G V W}, Enters valid gen s op m →
      Excluded gen m := fun henters => henters.ticked ▸ hexcluded.tick _
  cases h with
  | invalid _ => exact hexcluded
  | closed _ _ _ => exact hexcluded.tick _
  | put henters _ => exact (hticked henters).put henters.isOpen _
  | annotate henters _ _ _ => exact (hticked henters).put henters.isOpen _
  | @close k now m henters =>
      intro k' hclosed
      show (if gen k' = gen k then none else m.entry k') = none
      by_cases hk : gen k' = gen k
      · exact if_pos hk
      · rw [if_neg hk]
        apply hticked henters k'
        intro hnone
        exact hclosed ((Function.update_of_ne hk ..).trans hnone)
  | stale henters _ _ | full henters _ | unknown henters _ | other henters _ _ | get henters _
  | missing henters _ | crowded henters _ => exact hticked henters

/-- A generation stays refused until its time. -/
theorem Step.closedUntil (h : Step valid gen horizon s op answer t) {g : G} {ends : Nat}
    (hclosed : s.closedUntil g = some ends) (hbefore : t.clock < ends) :
    t.closedUntil g = some ends := by
  have hticked : ∀ {now : Nat}, now < ends → (s.tick now).closedUntil g = some ends := by
    intro now hnow
    show (s.closedUntil g).filter _ = some ends
    rw [hclosed, Option.filter_some, if_pos (decide_eq_true hnow)]
  have hentered : ∀ {op : Op K V W} {m : Map K G V W}, Enters valid gen s op m →
      m.clock < ends → m.closedUntil g = some ends := by
    intro op m henters hclock
    rw [henters.ticked] at hclock ⊢
    exact hticked hclock
  cases h with
  | invalid _ => exact hclosed
  | closed _ _ _ => exact hticked hbefore
  | @close k now m henters =>
      have hkept := hentered henters hbefore
      have hg : g ≠ gen k := by
        intro hg
        have hopen := henters.isOpen
        have hopen : m.closedUntil (gen k) = none := hopen
        rw [← hg, hkept] at hopen
        cases hopen
      exact (Function.update_of_ne hg ..).trans hkept
  | put henters _ | stale henters _ _ | full henters _ | annotate henters _ _ _
  | unknown henters _ | other henters _ _ | get henters _ | missing henters _
  | crowded henters _ => exact (hentered henters hbefore :)

/-- A valid operation on a refused generation is answered so. -/
theorem Step.refused (h : Step valid gen horizon s op answer t) (hvalid : valid op = true)
    (hclock : s.clock ≤ op.now) {ends : Nat} (hclosed : s.closedUntil (gen op.key) = some ends)
    (hbefore : op.now < ends) : answer = (.closed, none) := by
  have hentered : ∀ {m : Map K G V W}, ¬ Enters valid gen s op m := by
    intro m henters
    have hopen := henters.isOpen
    rw [henters.ticked] at hopen
    have hkept : (s.tick op.now).closedUntil (gen op.key) = some ends := by
      show (s.closedUntil _).filter _ = some ends
      rw [hclosed, Option.filter_some, if_pos (decide_eq_true hbefore)]
    rw [hkept] at hopen
    cases hopen
  cases h with
  | invalid hbad =>
      cases hbad with
      | inl hinvalid =>
          rw [hvalid] at hinvalid
          cases hinvalid
      | inr hback => omega
  | closed _ _ _ => rfl
  | put henters _ | stale henters _ _ | full henters _ | annotate henters _ _ _
  | unknown henters _ | other henters _ _ | get henters _ | missing henters _ | close henters
  | crowded henters _ => exact absurd henters hentered

/-! ## Reading and fencing -/

/-- A valid `get` answers exactly the entry that has not expired. -/
theorem Step.get_iff {k : K} {now : Nat} (h : Step valid gen horizon s (.get k now) answer t)
    (hexcluded : Excluded gen s) (hvalid : valid (.get k now) = true) (hclock : s.clock ≤ now)
    (e : Entry V W) : answer = (.ok, some e) ↔ s.entry k = some e ∧ now < e.expiresAt := by
  have hlive : (s.tick now).live k now = some e ↔ s.entry k = some e ∧ now < e.expiresAt := by
    unfold Map.live
    rw [Option.filter_eq_some_iff, decide_eq_true_eq]
    rfl
  rw [← hlive]
  cases h with
  | invalid hbad =>
      cases hbad with
      | inl hinvalid =>
          rw [hvalid] at hinvalid
          cases hinvalid
      | inr hback => exact absurd hclock (Nat.not_le_of_lt hback)
  | closed _ _ hclosed =>
      have hnone : (s.tick now).entry k = none := hexcluded.tick now k hclosed
      unfold Map.live
      rw [hnone]
      exact ⟨nofun, nofun⟩
  | get henters hfound =>
      rw [henters.ticked] at hfound
      have hfound : (s.tick now).live k now = _ := hfound
      rw [hfound]
      exact ⟨fun heq => (Prod.mk.inj heq).2, fun heq => heq ▸ rfl⟩
  | missing henters hnone =>
      rw [henters.ticked] at hnone
      have hnone : (s.tick now).live k now = none := hnone
      rw [hnone]
      exact ⟨nofun, nofun⟩

/-- A put that is not newer than the entry, expired or not, is refused. -/
theorem Step.fenced {k : K} {revision now ttl : Nat} {value : V} {e : Entry V W}
    (h : Step valid gen horizon s (.put k revision now ttl value) answer t)
    (hexcluded : Excluded gen s) (hvalid : valid (.put k revision now ttl value) = true)
    (hclock : s.clock ≤ now) (he : s.entry k = some e) (hold : revision ≤ e.revision) :
    answer = (.conflict, none) := by
  have hentry : ∀ {m : Map K G V W}, Enters valid gen s (.put k revision now ttl value) m →
      m.entry k = some e := fun henters => henters.ticked ▸ he
  cases h with
  | invalid hbad =>
      cases hbad with
      | inl hinvalid =>
          rw [hvalid] at hinvalid
          cases hinvalid
      | inr hback => exact absurd hclock (Nat.not_le_of_lt hback)
  | closed _ _ hclosed =>
      have hnone : (s.tick now).entry k = none := hexcluded.tick now k hclosed
      have hsome : (s.tick now).entry k = some e := he
      rw [hsome] at hnone
      cases hnone
  | put henters hnewer => exact absurd (hnewer e (hentry henters)) (Nat.not_lt_of_le hold)
  | stale _ _ _ => rfl
  | full henters hnone =>
      rw [hentry henters] at hnone
      cases hnone

/-! ## Runs -/

theorem Runs.excluded (run : Runs valid gen horizon s history t) (h : Excluded gen s) :
    Excluded gen t := by
  induction run with
  | init => exact h
  | next _ hstep ih => exact hstep.excluded ih

omit [DecidableEq K] [DecidableEq G] in
theorem excluded_empty (gen : K → G) : Excluded gen (Map.empty : Map K G V W) := fun _ _ => rfl

/-- A generation stays refused until its time, whatever comes. -/
theorem Runs.closedUntil (run : Runs valid gen horizon s history t) {g : G} {ends : Nat}
    (hclosed : s.closedUntil g = some ends) (hbefore : t.clock < ends) :
    t.closedUntil g = some ends := by
  induction run with
  | init => exact hclosed
  | next _ hstep ih => exact hstep.closedUntil (ih (Nat.lt_of_le_of_lt hstep.clock_le hbefore)) hbefore

/-- While its generation is not closed an entry is only replaced by newer ones, and keeps its
remark. -/
theorem Runs.entry (run : Runs valid gen horizon s history t) {k : K} {e : Entry V W}
    (he : s.entry k = some e) (hopen : ∀ p ∈ history, ¬ Closes gen (gen k) p) :
    ∃ e', t.entry k = some e' ∧ (e.revision < e'.revision ∨
      e'.revision = e.revision ∧ (e.remark ≠ none → e'.remark ≠ none)) := by
  induction run with
  | init => exact ⟨e, he, .inr ⟨rfl, id⟩⟩
  | next _ hstep ih =>
      obtain ⟨e₁, he₁, hkept⟩ := ih fun p hp => hopen p (List.mem_append_left _ hp)
      have hfate := hstep.entry he₁ (hopen _ (List.mem_append_right _ List.mem_cons_self))
      generalize Map.entry _ k = after at hfate
      cases hfate with
      | same _ _ => exact ⟨e₁, rfl, hkept⟩
      | remarked remark _ _ _ =>
          refine ⟨_, rfl, ?_⟩
          cases hkept with
          | inl hnewer => exact .inl hnewer
          | inr hsame => exact .inr ⟨hsame.1, fun _ => nofun⟩
      | replaced newer _ hnewer _ =>
          refine ⟨newer, rfl, .inl ?_⟩
          cases hkept with
          | inl hbefore => exact Nat.lt_trans hbefore hnewer
          | inr hsame => exact hsame.1 ▸ hnewer

/-- An entry that is neither replaced nor closed only gains its remark. -/
theorem Runs.undisturbed (run : Runs valid gen horizon s history t) {k : K} {e : Entry V W}
    (he : s.entry k = some e) (hquiet : ∀ p ∈ history, ¬ Puts k p ∧ ¬ Closes gen (gen k) p) :
    ∃ remark, t.entry k = some { e with remark } ∧ ∀ x, remark = some x ↔
      e.remark = some x ∨ ∃ p ∈ history, Remarks k e.revision x p := by
  induction run with
  | init =>
      refine ⟨e.remark, he, fun x => ⟨.inl, fun h => h.resolve_right ?_⟩⟩
      rintro ⟨p, hp, -⟩
      cases hp
  | @next before m t op answer _ hstep ih =>
      obtain ⟨remark, hentry, hremark⟩ := ih fun p hp => hquiet p (List.mem_append_left _ hp)
      obtain ⟨hputs, hcloses⟩ := hquiet _ (List.mem_append_right _ List.mem_cons_self)
      have hfate := hstep.entry hentry hcloses
      generalize Map.entry _ k = after at hfate
      cases hfate with
      | same _ hnone =>
          refine ⟨remark, rfl, fun x => (hremark x).trans ⟨Or.imp_right ?_, Or.imp_right ?_⟩⟩
          · rintro ⟨p, hp, hx⟩
            exact ⟨p, List.mem_append_left _ hp, hx⟩
          · rintro ⟨p, hp, hx⟩
            rcases List.mem_append.mp hp with hold | hlast
            · exact ⟨p, hold, hx⟩
            · rw [List.mem_singleton.mp hlast] at hx
              exact absurd hx (hnone x)
      | remarked y hunset _ hy =>
          have hunset : remark = none := hunset
          refine ⟨some y, rfl, fun x => ⟨fun hx => .inr ?_, fun hx => ?_⟩⟩
          · obtain rfl := Option.some.inj hx
            exact ⟨_, List.mem_append_right _ List.mem_cons_self, hy⟩
          · have hnot : ¬ remark = some x := by
              rw [hunset]
              exact nofun
            rw [hremark x, not_or] at hnot
            obtain ⟨p, hp, hpx⟩ := hx.resolve_left hnot.1
            rcases List.mem_append.mp hp with hold | hlast
            · exact absurd ⟨p, hold, hpx⟩ hnot.2
            · rw [List.mem_singleton.mp hlast] at hpx
              cases op with
              | annotate k' revision now found =>
                  obtain ⟨outcome, entry⟩ := answer
                  cases outcome with
                  | ok =>
                      obtain ⟨-, -, rfl⟩ := hpx
                      obtain ⟨-, -, rfl⟩ := hy
                      rfl
                  | _ => exact hpx.elim
              | _ => exact hpx.elim
      | replaced _ hnewer _ _ => exact absurd hnewer hputs

/-- The entry is what the history says last of the key. -/
def Last (gen : K → G) (history : List (Op K V W × Answer V W)) (k : K) (e : Entry V W) : Prop :=
  ∃ earlier now ttl later,
    history = earlier ++ (.put k e.revision now ttl e.value, (.ok, none)) :: later ∧
    e.expiresAt = now + ttl ∧ (∀ p ∈ later, ¬ Puts k p ∧ ¬ Closes gen (gen k) p) ∧
    ∀ x, e.remark = some x ↔ ∃ p ∈ later, Remarks k e.revision x p

/-- The entries are exactly what the history says last of their keys. -/
theorem Runs.entry_iff (run : Runs valid gen horizon Map.empty history t) (k : K)
    (e : Entry V W) : t.entry k = some e ↔ Last gen history k e := by
  constructor
  · intro he
    induction run generalizing e with
    | init => cases he
    | @next before m t op answer _ hstep ih =>
        by_cases hputs : Puts k (op, answer)
        · obtain ⟨revision, now, ttl, value, rfl, rfl, hentry⟩ := hstep.puts hputs
          obtain rfl := Option.some.inj (hentry.symm.trans he)
          refine ⟨before, now, ttl, [], rfl, rfl, nofun, fun x => ⟨nofun, ?_⟩⟩
          rintro ⟨p, hp, -⟩
          cases hp
        · have hopen : ¬ Closes gen (gen k) (op, answer) := by
            intro hcloses
            rw [(hstep.closes hcloses).2 k rfl] at he
            cases he
          cases hbefore : m.entry k with
          | none =>
              refine absurd (hstep.entry_none hbefore ?_) hputs
              rw [he]
              exact nofun
          | some e₀ =>
              obtain ⟨earlier, now, ttl, later, rfl, hexpires, hquiet, hremark⟩ := ih e₀ hbefore
              have hrun : Runs valid gen horizon m [(op, answer)] t := .next .init hstep
              have hlast : ∀ p ∈ [(op, answer)], ¬ Puts k p ∧ ¬ Closes gen (gen k) p := by
                intro p hp
                rw [List.mem_singleton.mp hp]
                exact ⟨hputs, hopen⟩
              obtain ⟨remark, hentry, hnow⟩ := hrun.undisturbed hbefore hlast
              obtain rfl := Option.some.inj (hentry.symm.trans he)
              refine ⟨earlier, now, ttl, later ++ [(op, answer)], ?_, hexpires, fun p hp => ?_,
                fun x => (hnow x).trans ?_⟩
              · rw [List.append_assoc, List.cons_append]
              · rcases List.mem_append.mp hp with hold | hnew
                · exact hquiet p hold
                · exact hlast p hnew
              · rw [hremark x]
                constructor
                · rintro (⟨p, hp, hx⟩ | ⟨p, hp, hx⟩)
                  · exact ⟨p, List.mem_append_left _ hp, hx⟩
                  · exact ⟨p, List.mem_append_right _ hp, hx⟩
                · rintro ⟨p, hp, hx⟩
                  rcases List.mem_append.mp hp with hold | hnew
                  · exact .inl ⟨p, hold, hx⟩
                  · exact .inr ⟨p, hnew, hx⟩
  · rintro ⟨earlier, now, ttl, later, rfl, hexpires, hquiet, hremark⟩
    obtain ⟨m, u, -, hstep, hlater⟩ := run.between
    obtain ⟨revision, now', ttl', value, hop, -, hentry⟩ := hstep.puts rfl
    obtain ⟨-, rfl, rfl, rfl, rfl⟩ := Op.put.inj hop
    obtain ⟨remark, hafter, hnow⟩ := Runs.undisturbed hlater hentry hquiet
    have hsame : remark = e.remark := by
      apply Option.ext
      intro x
      rw [hnow x, hremark x]
      exact ⟨fun h => h.resolve_left nofun, .inr⟩
    rw [hafter, hsame, ← hexpires]

/-- Accepted puts of a key are ever newer while its generation is not closed. -/
theorem Runs.newer (run : Runs valid gen horizon s history t) {k : K} {earlier middle : List _}
    {first second now now' ttl ttl' : Nat} {value value' : V}
    (hhistory : history = earlier ++ (.put k first now ttl value, (.ok, none)) ::
      (middle ++ (.put k second now' ttl' value', (.ok, none)) :: later))
    (hopen : ∀ p ∈ middle, ¬ Closes gen (gen k) p) : first < second := by
  rw [hhistory] at run
  obtain ⟨_, u, -, hfirst, hrest⟩ := run.between
  obtain ⟨v, w, hmiddle, hsecond, -⟩ := hrest.between
  obtain ⟨revision, _, _, _, hop, -, hentry⟩ := hfirst.puts rfl
  obtain ⟨-, rfl, -⟩ := Op.put.inj hop
  obtain ⟨e, he, hkept⟩ := Runs.entry hmiddle hentry hopen
  have hnewer : e.revision < second := by
    have hfate := hsecond.entry he id
    generalize hafter : Map.entry _ k = after at hfate
    cases hfate with
    | same hputs _ => exact absurd rfl hputs
    | remarked _ _ hputs _ => exact absurd rfl hputs
    | replaced newer _ hlt _ =>
        obtain ⟨_, _, _, _, hop', -, hentry'⟩ := hsecond.puts rfl
        obtain ⟨-, rfl, -⟩ := Op.put.inj hop'
        obtain rfl := Option.some.inj (hafter.symm.trans hentry')
        exact hlt
  cases hkept with
  | inl hlt => exact Nat.lt_trans hlt hnewer
  | inr hsame =>
      have hsame : e.revision = first := hsame.1
      omega

/-- A revision of a key has one accepted remark while its generation is not closed. -/
theorem Runs.remarked_once (run : Runs valid gen horizon s history t) {k : K}
    {earlier middle : List _} {revision now now' : Nat} {remark remark' : W}
    (hhistory : history = earlier ++ (.annotate k revision now remark, (.ok, none)) ::
      (middle ++ (.annotate k revision now' remark', (.ok, none)) :: later))
    (hopen : ∀ p ∈ middle, ¬ Closes gen (gen k) p) : False := by
  rw [hhistory] at run
  obtain ⟨m, u, -, hfirst, hrest⟩ := run.between
  obtain ⟨v, w, hmiddle, hsecond, -⟩ := hrest.between
  cases hfirst with
  | @annotate _ _ _ _ n e henters hlive hrevision hremark =>
      obtain ⟨e', he', hkept⟩ := Runs.entry hmiddle (Function.update_self ..) hopen
      cases hsecond with
      | @annotate _ _ _ _ n' e'' henters' hlive' hrevision' hremark' =>
          unfold Map.live at hlive'
          rw [henters'.ticked] at hlive'
          obtain ⟨hfound, -⟩ := Option.filter_eq_some_iff.mp hlive'
          have hfound : v.entry k = some e'' := hfound
          obtain rfl := Option.some.inj (hfound.symm.trans he')
          have hsame : e.revision = e''.revision := hrevision.trans hrevision'.symm
          rcases hkept with hlt | ⟨-, hkept⟩
          · have hlt : e.revision < e''.revision := hlt
            omega
          · exact hkept nofun hremark'

end Laws

end FencedMap
