import Mathlib.Data.List.Basic

/-!
# Registers that are written once

A register takes its first value and refuses another one; writing the same value again changes
nothing.  A series of writes succeeds exactly when it holds one value at most.
-/

namespace Register

variable {α : Type*} [DecidableEq α]

/-- Nothing to write, or a value that must agree with the one that is there. -/
def write (stored v : Option α) : Option (Option α) :=
  match v with
  | none => some stored
  | some x => if stored.any (· ≠ x) then none else some (some x)

/-- All values that are there agree. -/
def Agree (vs : List (Option α)) : Prop := ∀ x, some x ∈ vs → ∀ y, some y ∈ vs → x = y

/-- The first value that is there. -/
def first (vs : List (Option α)) : Option α := (vs.filterMap id).head?

theorem write_eq_some {stored v r : Option α} : write stored v = some r ↔
    (∀ x, v = some x → ∀ y, stored = some y → y = x) ∧ r = stored.or v := by
  cases v with
  | none =>
      rw [write, Option.some_inj, Option.or_none]
      exact ⟨fun h => ⟨nofun, h.symm⟩, fun h => h.2.symm⟩
  | some x =>
      rw [write]
      cases stored with
      | none => simp [eq_comm]
      | some y =>
          by_cases h : y = x
          · simp [h, eq_comm]
          · simp [h]

/-- The values after one that is there agree with it. -/
theorem foldlM_write_stored {vs : List (Option α)} {y : α} {r : Option α} :
    vs.foldlM write (some y) = some r ↔ (∀ x, some x ∈ vs → x = y) ∧ r = some y := by
  induction vs with
  | nil =>
      rw [List.foldlM_nil]
      exact ⟨fun h => ⟨nofun, (Option.some.inj h).symm⟩, fun h => congrArg some h.2.symm⟩
  | cons v vs ih =>
      rw [List.foldlM_cons, Option.bind_eq_bind, Option.bind_eq_some_iff]
      constructor
      · intro h
        obtain ⟨s, hs, hrest⟩ := h
        obtain ⟨hagree, rfl⟩ := write_eq_some.mp hs
        rw [Option.some_or, ih] at hrest
        refine ⟨?_, hrest.2⟩
        intro x hx
        cases List.mem_cons.mp hx with
        | inl hhead => exact (hagree x hhead.symm y rfl).symm
        | inr htail => exact hrest.1 x htail
      · intro h
        refine ⟨some y, write_eq_some.mpr ⟨?_, rfl⟩,
          ih.mpr ⟨fun x hx => h.1 x (List.mem_cons_of_mem _ hx), h.2⟩⟩
        intro x hx y' hy
        rw [← Option.some.inj hy]
        exact (h.1 x (hx ▸ List.mem_cons_self)).symm

/-- Writes from an empty register succeed exactly when the values agree, and leave the first. -/
theorem foldlM_write {vs : List (Option α)} {r : Option α} :
    vs.foldlM write none = some r ↔ Agree vs ∧ r = first vs := by
  induction vs with
  | nil =>
      rw [List.foldlM_nil]
      exact ⟨fun h => ⟨nofun, (Option.some.inj h).symm⟩, fun h => congrArg some h.2.symm⟩
  | cons v vs ih =>
      cases v with
      | none =>
          have hagree : Agree (none :: vs) ↔ Agree vs := by
            unfold Agree
            simp
          rw [List.foldlM_cons, hagree]
          exact ih
      | some y =>
          rw [List.foldlM_cons]
          show vs.foldlM write (some y) = some r ↔ _
          rw [foldlM_write_stored]
          constructor
          · intro h
            refine ⟨?_, h.2⟩
            have hall : ∀ x, some x ∈ some y :: vs → x = y := by
              intro x hx
              cases List.mem_cons.mp hx with
              | inl hhead => exact Option.some.inj hhead
              | inr htail => exact h.1 x htail
            exact fun x hx z hz => (hall x hx).trans (hall z hz).symm
          · intro h
            exact ⟨fun x hx => h.1 x (List.mem_cons_of_mem _ hx) y List.mem_cons_self, h.2⟩

end Register
