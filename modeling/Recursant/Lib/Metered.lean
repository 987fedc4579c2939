import Mathlib.Algebra.BigOperators.Group.List.Basic
import Mathlib.Algebra.Order.Monoid.WithTop
import Mathlib.Tactic

/-!
# Metered computations

A metered computation runs over a state of counters that only grow, and fails either for a reason
of its own or because a counter would pass its limit.  Whether it succeeds is then decided by one
number, its demand: `⊤` when it fails whatever the counters are, otherwise what it adds to them.
Demands of consecutive computations add up, so the order of the parts does not matter.
-/

namespace Metered

variable {ε C α : Type}

theorem seq_eq_ok {m n : EStateM ε C Unit} {s t : C} :
    (m >>= fun _ => n).run s = .ok () t ↔ ∃ u, m.run s = .ok () u ∧ n.run u = .ok () t := by
  show EStateM.bind m (fun _ => n) s = .ok () t ↔ ∃ u, m s = .ok () u ∧ n u = .ok () t
  unfold EStateM.bind
  cases m s with
  | ok _ u => simp
  | error failure u => simp

variable [AddCommMonoid C] [PartialOrder C] {limit : C} {m n : EStateM ε C Unit} {d e : WithTop C}

/-- From every state within the limit, `m` succeeds exactly when its demand still fits, and then
it has added its demand. -/
def Demands (limit : C) (m : EStateM ε C Unit) (d : WithTop C) : Prop :=
  ∀ s t, s ≤ limit → (m.run s = .ok () t ↔ (s : WithTop C) + d = t ∧ t ≤ limit)

theorem demands_pure : Demands limit (pure () : EStateM ε C Unit) 0 := by
  intro s t hs
  rw [add_zero, WithTop.coe_inj]
  constructor
  · intro h
    cases h
    exact ⟨rfl, hs⟩
  · intro h
    rw [h.1]
    rfl

theorem demands_throw (failure : ε) : Demands limit (throw failure : EStateM ε C Unit) ⊤ := by
  intro s t _
  constructor
  · intro h
    cases h
  · intro h
    rw [WithTop.add_top] at h
    exact absurd h.1 WithTop.top_ne_coe

theorem demands_ite (p : Prop) [Decidable p] (hm : p → Demands limit m d)
    (hn : ¬ p → Demands limit n e) :
    Demands limit (if p then m else n) (if p then d else e) := by
  by_cases h : p
  · rw [if_pos h, if_pos h]
    exact hm h
  · rw [if_neg h, if_neg h]
    exact hn h

/-- A computation that adds `c` and fails past the limit demands `c`. -/
theorem demands_charge {c : C} (hok : ∀ s, s + c ≤ limit → m.run s = .ok () (s + c))
    (hfail : ∀ s, s ≤ limit → ¬ s + c ≤ limit → ∃ failure t, m.run s = .error failure t) :
    Demands limit m c := by
  intro s t hs
  rw [← WithTop.coe_add, WithTop.coe_inj]
  constructor
  · intro h
    by_cases hc : s + c ≤ limit
    · rw [hok s hc] at h
      cases h
      exact ⟨rfl, hc⟩
    · obtain ⟨failure, u, hfailed⟩ := hfail s hs hc
      rw [hfailed] at h
      cases h
  · intro h
    obtain ⟨rfl, hle⟩ := h
    exact hok s hle

/-- A computation that fails past the limit, in whatever state, and adds `c` before it. -/
theorem demands_capped {c : C} {P : C → Prop} [DecidablePred P] {failure : ε} {g : C → C}
    (hrun : ∀ s, m.run s = if P s then .error failure (g s) else .ok () (s + c))
    (hroom : ∀ s, s + c ≤ limit → ¬ P s) (hpast : ∀ s, s ≤ limit → ¬ s + c ≤ limit → P s) :
    Demands limit m c := by
  apply demands_charge
  · intro s h
    rw [hrun, if_neg (hroom s h)]
  · intro s hs h
    exact ⟨failure, g s, by rw [hrun, if_pos (hpast s hs h)]⟩

theorem Demands.passes_from_iff (hm : Demands limit m d) {s : C} (hs : s ≤ limit) :
    (∃ t, m.run s = .ok () t) ↔ (s : WithTop C) + d ≤ limit := by
  rw [WithTop.le_coe_iff]
  constructor
  · intro h
    obtain ⟨t, ht⟩ := h
    exact ⟨t, (hm s t hs).mp ht⟩
  · intro h
    obtain ⟨t, ht⟩ := h
    exact ⟨t, (hm s t hs).mpr ht⟩

variable [CanonicallyOrderedAdd C]

theorem Demands.seq (hm : Demands limit m d) (hn : Demands limit n e) :
    Demands limit (m >>= fun _ => n) (d + e) := by
  intro s t hs
  rw [seq_eq_ok]
  constructor
  · intro h
    obtain ⟨u, hfirst, hsecond⟩ := h
    have hu := (hm s u hs).mp hfirst
    have ht := (hn u t hu.2).mp hsecond
    rw [← add_assoc, hu.1]
    exact ht
  · intro h
    rw [← add_assoc] at h
    -- the sum is finite, so the first part has left a state of its own
    have hfinite : (s : WithTop C) + d ≠ ⊤ := by
      intro htop
      rw [htop, WithTop.top_add] at h
      exact WithTop.top_ne_coe h.1
    obtain ⟨u, hu⟩ := WithTop.ne_top_iff_exists.mp hfinite
    have hle : (u : WithTop C) ≤ t := by
      rw [← h.1, ← hu]
      exact le_self_add
    have hlimit : u ≤ limit := (WithTop.coe_le_coe.mp hle).trans h.2
    refine ⟨u, (hm s u hs).mpr ⟨hu.symm, hlimit⟩, (hn u t hlimit).mpr ⟨?_, h.2⟩⟩
    rw [hu]
    exact h.1

theorem demands_forM {f : α → EStateM ε C Unit} {demand : α → WithTop C} (l : List α)
    (hf : ∀ a ∈ l, Demands limit (f a) (demand a)) :
    Demands limit (l.forM f) (l.map demand).sum := by
  induction l with
  | nil => exact demands_pure
  | cons a l ih =>
      rw [List.map_cons, List.sum_cons]
      exact (hf a List.mem_cons_self).seq (ih fun b hb => hf b (List.mem_cons_of_mem a hb))

/-- Started on fresh counters, a computation succeeds exactly when its demand is within the
limit. -/
theorem Demands.passes_iff (hm : Demands limit m d) :
    (∃ t, m.run 0 = .ok () t) ↔ d ≤ limit := by
  rw [hm.passes_from_iff zero_le, WithTop.coe_zero, zero_add]

end Metered
