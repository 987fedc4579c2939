import Mathlib.Tactic

/-!
# Bisection

The search that halves a window: a position is too low, too high or the one looked for.
-/

namespace Bisection

variable {side : Nat → Ordering}

/-- `lt` at a position means that the one looked for is before it. -/
def bisect (side : Nat → Ordering) : Nat → Nat → Nat → Option Nat
  | 0, _, _ => none
  | steps + 1, lo, hi =>
      if lo < hi then
        match side ((lo + hi) / 2) with
        | .lt => bisect side steps lo ((lo + hi) / 2)
        | .gt => bisect side steps ((lo + hi) / 2 + 1) hi
        | .eq => some ((lo + hi) / 2)
      else none

/-- The positions are in order. -/
structure Ordered (side : Nat → Ordering) (n : Nat) : Prop where
  before : ∀ i j, i ≤ j → j < n → side i = .lt → side j = .lt
  behind : ∀ i j, i ≤ j → j < n → side j = .gt → side i = .gt

theorem bisect_sound {steps lo hi i : Nat} (h : bisect side steps lo hi = some i) :
    lo ≤ i ∧ i < hi ∧ side i = .eq := by
  induction steps generalizing lo hi with
  | zero => cases h
  | succ steps ih =>
      rw [bisect] at h
      split at h
      next hlt =>
        split at h
        next hside =>
          obtain ⟨hlo, hhi, heq⟩ := ih h
          exact ⟨hlo, by omega, heq⟩
        next hside =>
          obtain ⟨hlo, hhi, heq⟩ := ih h
          exact ⟨by omega, hhi, heq⟩
        next hside =>
          rw [← Option.some.inj h]
          exact ⟨by omega, by omega, hside⟩
      · cases h

theorem bisect_complete {n steps lo hi i : Nat} (h : Ordered side n) (hhi : hi ≤ n)
    (hsteps : hi - lo < steps) (hlo : lo ≤ i) (hi' : i < hi) (heq : side i = .eq) :
    ∃ j, bisect side steps lo hi = some j := by
  induction steps generalizing lo hi with
  | zero => omega
  | succ steps ih =>
      rw [bisect, if_pos (by omega)]
      cases hside : side ((lo + hi) / 2) with
      | eq => exact ⟨_, rfl⟩
      | lt =>
          -- the middle is behind the position that is looked for
          have hbefore : i < (lo + hi) / 2 := by
            by_contra hle
            rw [h.before _ i (not_lt.mp hle) (by omega) hside] at heq
            cases heq
          exact ih (by omega) (by omega) hlo hbefore
      | gt =>
          have hbehind : (lo + hi) / 2 < i := by
            by_contra hle
            rw [h.behind i _ (not_lt.mp hle) (by omega) hside] at heq
            cases heq
          exact ih hhi (by omega) hbehind hi'

theorem isSome_bisect {n : Nat} (h : Ordered side n) :
    (bisect side (n + 1) 0 n).isSome = true ↔ ∃ i < n, side i = .eq := by
  constructor
  · intro hsome
    obtain ⟨i, hi⟩ := Option.isSome_iff_exists.mp hsome
    obtain ⟨-, hlt, heq⟩ := bisect_sound hi
    exact ⟨i, hlt, heq⟩
  · rintro ⟨i, hlt, heq⟩
    obtain ⟨j, hj⟩ := bisect_complete h le_rfl (show n - 0 < n + 1 by omega)
      (Nat.zero_le i) hlt heq
    rw [hj]
    rfl

end Bisection
