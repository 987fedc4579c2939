import Mathlib.Data.List.Basic
import Mathlib.Order.Lattice

/-!
# The best element of a scan

The loop that keeps one candidate: an element that passes a test replaces the one kept so far when
there is none yet or when it is better.
-/

namespace Scan

variable {α : Type*}

/-- One round of the loop. -/
def keep (test : α → Bool) (better : α → α → Bool) (best : Option α) (x : α) : Option α :=
  if test x then
    match best with
    | none => some x
    | some b => if better x b then some x else some b
  else best

def best (test : α → Bool) (better : α → α → Bool) (xs : List α) : Option α :=
  xs.foldl (keep test better) none

variable {test : α → Bool} {better : α → α → Bool}

theorem keep_eq_some {kept : Option α} {x y : α} (h : keep test better kept x = some y) :
    kept = some y ∨ (x = y ∧ test y = true) := by
  unfold keep at h
  by_cases htest : test x = true
  · rw [if_pos htest] at h
    cases kept with
    | none =>
        obtain rfl := Option.some.inj h
        exact .inr ⟨rfl, htest⟩
    | some b =>
        dsimp only at h
        by_cases hbetter : better x b = true
        · rw [if_pos hbetter] at h
          obtain rfl := Option.some.inj h
          exact .inr ⟨rfl, htest⟩
        · rw [if_neg hbetter] at h
          exact .inl h
  · rw [if_neg htest] at h
    exact .inl h

/-- What the loop keeps is an element that passed. -/
theorem best_eq_some {xs : List α} {y : α} (h : best test better xs = some y) :
    y ∈ xs ∧ test y = true := by
  have hfold : ∀ (xs : List α) (kept : Option α), xs.foldl (keep test better) kept = some y →
      kept = some y ∨ (y ∈ xs ∧ test y = true) := by
    intro xs
    induction xs with
    | nil => exact fun kept h => .inl h
    | cons x xs ih =>
        intro kept h
        rw [List.foldl_cons] at h
        cases ih _ h with
        | inl hkept =>
            cases keep_eq_some hkept with
            | inl hold => exact .inl hold
            | inr hnew => exact .inr ⟨hnew.1 ▸ List.mem_cons_self, hnew.2⟩
        | inr hlater => exact .inr ⟨List.mem_cons_of_mem _ hlater.1, hlater.2⟩
  cases hfold xs none h with
  | inl hnone => cases hnone
  | inr hfound => exact hfound

/-- When the loop keeps nothing, nothing passed. -/
theorem best_eq_none {xs : List α} (h : best test better xs = none) :
    ∀ x ∈ xs, ¬ test x = true := by
  have hsome : ∀ (xs : List α) (b : α), xs.foldl (keep test better) (some b) ≠ none := by
    intro xs
    induction xs with
    | nil => exact fun b h => nomatch h
    | cons x xs ih =>
        intro b
        rw [List.foldl_cons]
        unfold keep
        dsimp only
        split
        · split <;> exact ih _
        · exact ih b
  unfold best at h
  induction xs with
  | nil => exact fun x hx => absurd hx List.not_mem_nil
  | cons x xs ih =>
      rw [List.foldl_cons] at h
      by_cases htest : test x = true
      · unfold keep at h
        rw [if_pos htest] at h
        exact absurd h (hsome xs x)
      · have hskip : keep test better none x = none := if_neg htest
        rw [hskip] at h
        intro y hy
        cases List.mem_cons.mp hy with
        | inl heq => exact heq ▸ htest
        | inr hlater => exact ih h y hlater

end Scan
