import Mathlib.Data.List.Perm.Subperm
import Mathlib.Data.List.Nodup

/-!
# Checklists

A list of distinct names, each ticked off at most once.  The names ticked so far and those still
missing make up the list, in whatever order they come.
-/

namespace Checklist

variable {α : Type*} [DecidableEq α]

/-- The first entry with the name is ticked off, unless it is ticked already. -/
def tick (a : α) : List (α × Bool) → Option (List (α × Bool))
  | [] => none
  | entry :: rest =>
      if a = entry.1 then
        if entry.2 then none else some ((entry.1, true) :: rest)
      else (tick a rest).map (entry :: ·)

/-- The names not ticked yet. -/
def missing (entries : List (α × Bool)) : List α := (entries.filter (!·.2)).map Prod.fst

/-- A list to be ticked off. -/
def fresh (names : List α) : List (α × Bool) := names.map (·, false)

omit [DecidableEq α] in
@[simp] theorem missing_fresh (names : List α) : missing (fresh names) = names := by
  unfold missing fresh
  induction names with
  | nil => rfl
  | cons a names ih =>
      rw [List.map_cons, List.filter_cons_of_pos rfl, List.map_cons, ih]

omit [DecidableEq α] in
@[simp] theorem keys_fresh (names : List α) : (fresh names).map Prod.fst = names := by
  unfold fresh
  rw [List.map_map]
  exact List.map_id names

omit [DecidableEq α] in
theorem missing_cons (entry : α × Bool) (rest : List (α × Bool)) :
    missing (entry :: rest) = if entry.2 then missing rest else entry.1 :: missing rest := by
  unfold missing
  cases h : entry.2 with
  | true => rw [List.filter_cons_of_neg (by simp [h]), if_pos rfl]
  | false => rw [List.filter_cons_of_pos (by simp [h]), List.map_cons, if_neg Bool.false_ne_true]

omit [DecidableEq α] in
theorem mem_keys_of_missing {a : α} {entries : List (α × Bool)} (h : a ∈ missing entries) :
    a ∈ entries.map Prod.fst :=
  (List.filter_sublist.map Prod.fst).subset h

theorem keys_tick {a : α} {entries entries' : List (α × Bool)}
    (h : tick a entries = some entries') : entries'.map Prod.fst = entries.map Prod.fst := by
  induction entries generalizing entries' with
  | nil => cases h
  | cons entry rest ih =>
      rw [tick] at h
      split at h
      next =>
        split at h
        next => cases h
        next =>
          obtain rfl := Option.some.inj h
          rfl
      next =>
        obtain ⟨rest', hrest, rfl⟩ := Option.map_eq_some_iff.mp h
        rw [List.map_cons, List.map_cons, ih hrest]

/-- What is ticked off was missing, and is missing no more. -/
theorem missing_tick {a : α} {entries entries' : List (α × Bool)}
    (h : tick a entries = some entries') : (missing entries).Perm (a :: missing entries') := by
  induction entries generalizing entries' with
  | nil => cases h
  | cons entry rest ih =>
      rw [tick] at h
      split at h
      next heq =>
        split at h
        next => cases h
        next hopen =>
          obtain rfl := Option.some.inj h
          rw [missing_cons, missing_cons, if_neg hopen, if_pos rfl, heq]
      next =>
        obtain ⟨rest', hrest, rfl⟩ := Option.map_eq_some_iff.mp h
        rw [missing_cons, missing_cons]
        split
        next => exact ih hrest
        next => exact ((ih hrest).cons entry.1).trans (List.Perm.swap a entry.1 _)

/-- Whatever is missing can be ticked off, where no name stands twice. -/
theorem tick_of_missing {a : α} {entries : List (α × Bool)} (hnodup : (entries.map Prod.fst).Nodup)
    (h : a ∈ missing entries) : ∃ entries', tick a entries = some entries' := by
  induction entries with
  | nil => cases h
  | cons entry rest ih =>
      rw [List.map_cons, List.nodup_cons] at hnodup
      rw [missing_cons] at h
      rw [tick]
      by_cases heq : a = entry.1
      · have hopen : ¬ entry.2 = true := by
          intro hticked
          rw [if_pos hticked] at h
          exact hnodup.1 (heq ▸ mem_keys_of_missing h)
        rw [if_pos heq, if_neg hopen]
        exact ⟨_, rfl⟩
      · have hrest : a ∈ missing rest := by
          split at h
          next => exact h
          next => exact (List.mem_cons.mp h).resolve_left heq
        obtain ⟨rest', htick⟩ := ih hnodup.2 hrest
        rw [if_neg heq, htick]
        exact ⟨_, rfl⟩

/-- Names can be ticked off one after the other when they are missing, each as often as it is
given. -/
theorem foldlM_tick_iff (names : List α) {entries : List (α × Bool)}
    (hnodup : (entries.map Prod.fst).Nodup) :
    (names.foldlM (fun es a => tick a es) entries).isSome = true ↔
      names.Subperm (missing entries) := by
  induction names generalizing entries with
  | nil => exact iff_of_true rfl List.nil_subperm
  | cons a names ih =>
      rw [List.foldlM_cons]
      cases htick : tick a entries with
      | none =>
          refine iff_of_false (by intro h; cases h) fun hsub => ?_
          obtain ⟨entries', hsome⟩ := tick_of_missing hnodup (hsub.subset List.mem_cons_self)
          rw [hsome] at htick
          cases htick
      | some entries' =>
          show (names.foldlM (fun es a => tick a es) entries').isSome = true ↔ _
          rw [ih (keys_tick htick ▸ hnodup), (missing_tick htick).subperm_left,
            List.subperm_cons]

end Checklist
