import Mathlib.Data.List.Nodup

/-!
# Counts of members with a property

How many members of a list without repetitions have a property, when the property is gained or lost
by one of them.
-/

namespace Tally

variable {α : Type*} {p q : α → Bool} {xs : List α} {x : α}

/-- Only one member gains the property. -/
theorem countP_gain (hnodup : xs.Nodup) (hx : x ∈ xs) (hp : p x = false) (hq : q x = true)
    (hother : ∀ y, y ≠ x → q y = p y) : xs.countP q = xs.countP p + 1 := by
  induction xs with
  | nil => exact absurd hx List.not_mem_nil
  | cons y ys ih =>
      obtain ⟨hy, hys⟩ := List.nodup_cons.mp hnodup
      rw [List.countP_cons, List.countP_cons]
      by_cases hyx : y = x
      · have hrest : ys.countP q = ys.countP p := by
          apply List.countP_congr
          intro z hz
          rw [hother z fun hzx => hy (hyx ▸ hzx ▸ hz)]
        rw [hrest, hyx, hp, hq]
        rfl
      · have hmem : x ∈ ys := (List.mem_cons.mp hx).resolve_left (Ne.symm hyx)
        rw [ih hys hmem, hother y hyx]
        omega

/-- One member is replaced by another. -/
theorem countP_replace {i : Nat} {y : α} (hx : xs[i]? = some x) :
    (xs.set i y).countP p + (if p x then 1 else 0) = xs.countP p + if p y then 1 else 0 := by
  obtain ⟨hlt, hget⟩ := List.getElem?_eq_some_iff.mp hx
  rw [List.countP_set hlt, hget]
  have hcounted : (if p x then 1 else 0) ≤ xs.countP p := by
    by_cases hpx : p x = true
    · rw [if_pos hpx]
      exact List.countP_pos_iff.mpr ⟨x, List.mem_of_getElem? hx, hpx⟩
    · rw [if_neg hpx]
      exact Nat.zero_le _
  omega

end Tally
