import Mathlib.Data.List.Basic
import Mathlib.Tactic

/-!
# Files of definitions

A file is a sequence of lines, each ended by one symbol, and a line may define a key.  The first
definition of a key counts.  A writer that sets a key replaces the first line it recognises as a
definition of the key, drops the further ones and adds a line where it recognises none.
-/

namespace Definitions

/-! ## Lines ended by one symbol -/

section Lines

variable {α : Type*} [DecidableEq α] {lf : α}

/-- The lines of a text without their ending; an unfinished last line is one too. -/
def lines (lf : α) : List α → List (List α)
  | [] => []
  | c :: s =>
      if c = lf then [] :: lines lf s
      else match lines lf s with
        | [] => [[c]]
        | l :: ls => (c :: l) :: ls

theorem lines_ended {l : List α} (h : lf ∉ l) (s : List α) :
    lines lf (l ++ lf :: s) = l :: lines lf s := by
  induction l with
  | nil => simp [lines]
  | cons c l ih =>
      rw [List.mem_cons, not_or] at h
      rw [List.cons_append, lines, if_neg (Ne.symm h.1), ih h.2]

theorem lines_unfinished {l : List α} (h : lf ∉ l) (hne : l ≠ []) : lines lf l = [l] := by
  induction l with
  | nil => exact absurd rfl hne
  | cons c l ih =>
      rw [List.mem_cons, not_or] at h
      rw [lines, if_neg (Ne.symm h.1)]
      cases l with
      | nil => rfl
      | cons d l => rw [ih h.2 (List.cons_ne_nil _ _)]

/-- A text is empty, or a line with its ending and a text, or an unfinished line. -/
theorem lines_cases (lf : α) {P : List α → Prop} (hnil : P [])
    (hended : ∀ l s, lf ∉ l → P s → P (l ++ lf :: s))
    (hunfinished : ∀ l, lf ∉ l → l ≠ [] → P l) (s : List α) : P s := by
  induction hn : s.length using Nat.strong_induction_on generalizing s with
  | _ n ih =>
      by_cases hmem : lf ∈ s
      · have hsplit := List.eq_append_cons_of_mem hmem
        obtain ⟨l, t, rfl, hl⟩ := hsplit
        refine hended l t hl (ih t.length ?_ t rfl)
        rw [← hn, List.length_append, List.length_cons]
        omega
      · by_cases hne : s = []
        · rw [hne]
          exact hnil
        · exact hunfinished s hmem hne

theorem not_mem_of_mem_lines {l s : List α} (h : l ∈ lines lf s) : lf ∉ l := by
  induction s using lines_cases lf with
  | hnil => cases h
  | hended l' s hl' ih =>
      rw [lines_ended hl', List.mem_cons] at h
      cases h with
      | inl h => rwa [h]
      | inr h => exact ih h
  | hunfinished l' hl' hne =>
      rw [lines_unfinished hl' hne, List.mem_singleton] at h
      rwa [h]

theorem mem_of_mem_lines {l s : List α} (h : l ∈ lines lf s) {c : α} (hc : c ∈ l) : c ∈ s := by
  induction s using lines_cases lf with
  | hnil => cases h
  | hended l' s hl' ih =>
      rw [lines_ended hl', List.mem_cons] at h
      cases h with
      | inl h => exact List.mem_append_left _ (h ▸ hc)
      | inr h => exact List.mem_append_right _ (List.mem_cons_of_mem _ (ih h))
  | hunfinished l' hl' hne =>
      rw [lines_unfinished hl' hne, List.mem_singleton] at h
      exact h ▸ hc

/-- Lines written one after the other are the lines of the text. -/
theorem lines_flatMap {ls : List (List α)} (h : ∀ l ∈ ls, lf ∉ l) :
    lines lf (ls.flatMap (· ++ [lf])) = ls := by
  induction ls with
  | nil => rfl
  | cons l ls ih =>
      rw [List.forall_mem_cons] at h
      rw [List.flatMap_cons, List.append_assoc, List.singleton_append, lines_ended h.1, ih h.2]

theorem length_flatMap_lines (lf : α) (s : List α) :
    ((lines lf s).flatMap (· ++ [lf])).length ≤ s.length + 1 := by
  induction s using lines_cases lf with
  | hnil => exact Nat.zero_le _
  | hended l s hl ih =>
      rw [lines_ended hl, List.flatMap_cons, List.length_append, List.length_append,
        List.length_append, List.length_singleton, List.length_cons]
      omega
  | hunfinished l hl hne =>
      rw [lines_unfinished hl hne, List.flatMap_singleton, List.length_append,
        List.length_singleton]

end Lines

/-! ## The first definition -/

section First

variable {ι κ ν : Type*} [DecidableEq κ] {reads : ι → Option (κ × ν)}

/-- The value that the lines give the key. -/
def value (reads : ι → Option (κ × ν)) (ls : List ι) (k : κ) : Option ν :=
  (ls.filterMap reads).lookup k

/-- The line defines the key. -/
def defines (reads : ι → Option (κ × ν)) (k : κ) (l : ι) : Bool :=
  decide ((reads l).map Prod.fst = some k)

theorem value_append (ls ls' : List ι) (k : κ) :
    value reads (ls ++ ls') k = (value reads ls k).or (value reads ls' k) := by
  unfold value
  rw [List.filterMap_append, List.lookup_append]

theorem value_cons (l : ι) (ls : List ι) (k : κ) :
    value reads (l :: ls) k =
      if defines reads k l then (reads l).map Prod.snd else value reads ls k := by
  unfold value defines
  rw [List.filterMap_cons]
  cases hl : reads l with
  | none => simp
  | some e =>
      obtain ⟨k', v⟩ := e
      rw [List.lookup_cons]
      by_cases hk : k' = k
      · simp [hk]
      · rw [beq_false_of_ne (Ne.symm hk), if_neg (by simp [hk])]

theorem key_of_find {ls : List ι} {k : κ} {l : ι} (h : ls.find? (defines reads k) = some l) :
    (reads l).map Prod.fst = some k := by
  have hdefines : defines reads k l = true := List.find?_some h
  exact of_decide_eq_true hdefines

theorem mem_of_value {ls : List ι} {k : κ} {v : ν} (h : value reads ls k = some v) :
    ∃ l ∈ ls, reads l = some (k, v) := by
  have hmem : (k, v) ∈ ls.filterMap reads := by
    unfold value at h
    rw [List.lookup_eq_some_iff] at h
    obtain ⟨before, after, heq, _⟩ := h
    rw [heq]
    exact List.mem_append_right _ List.mem_cons_self
  rw [List.mem_filterMap] at hmem
  exact hmem

/-! ## The writer -/

/-- The lines of the new file; the flag says that the new line has been written. -/
def rewrite (marks : ι → Bool) (new : ι) : Bool → List ι → List ι
  | written, [] => if written then [] else [new]
  | written, l :: ls =>
      if marks l then (if written then [] else [new]) ++ rewrite marks new true ls
      else l :: rewrite marks new written ls

variable {marks : ι → Bool} {new : ι} {k : κ} {v : ν}

theorem mem_rewrite {written : Bool} {ls : List ι} {l : ι}
    (h : l ∈ rewrite marks new written ls) : l = new ∨ l ∈ ls := by
  induction ls generalizing written with
  | nil =>
      cases written with
      | true => cases h
      | false => exact .inl (List.mem_singleton.mp h)
  | cons l' ls ih =>
      rw [rewrite] at h
      by_cases hmark : marks l' = true
      · rw [if_pos hmark, List.mem_append] at h
        cases h with
        | inl h =>
            cases written with
            | true => cases h
            | false => exact .inl (List.mem_singleton.mp h)
        | inr h => exact (ih h).imp id (List.mem_cons_of_mem l')
      · rw [if_neg hmark, List.mem_cons] at h
        cases h with
        | inl h => exact .inr (h ▸ List.mem_cons_self)
        | inr h => exact (ih h).imp id (List.mem_cons_of_mem l')

theorem length_flatMap_rewrite {β : Type*} (marks : ι → Bool) (new : ι) (f : ι → List β) (written : Bool) (ls : List ι) :
    ((rewrite marks new written ls).flatMap f).length ≤
      (ls.flatMap f).length + if written then 0 else (f new).length := by
  have hentry : ((if written then [] else [new]).flatMap f).length =
      if written then 0 else (f new).length := by
    cases written with
    | true => rfl
    | false =>
        show (List.flatMap f [new]).length = _
        rw [List.flatMap_singleton, if_neg (by decide)]
  induction ls generalizing written with
  | nil =>
      rw [rewrite, hentry]
      omega
  | cons l ls ih =>
      rw [rewrite]
      by_cases hmark : marks l = true
      · have hrest := ih true rfl
        rw [if_pos hmark, List.flatMap_append, List.length_append, hentry, List.flatMap_cons,
          List.length_append]
        rw [if_pos rfl] at hrest
        omega
      · have hrest := ih written hentry
        rw [if_neg hmark, List.flatMap_cons, List.length_append, List.flatMap_cons,
          List.length_append]
        omega

theorem value_of_ne_key {l : ι} {ls : List ι} {k' : κ} (hl : (reads l).map Prod.fst = some k)
    (hne : k' ≠ k) : value reads (l :: ls) k' = value reads ls k' := by
  rw [value_cons, if_neg]
  unfold defines
  rw [hl, decide_eq_true_eq, Option.some.injEq]
  exact Ne.symm hne

/-- The other keys keep their values. -/
theorem value_rewrite_of_ne {ls : List ι}
    (hmarks : ∀ l ∈ ls, marks l = true → (reads l).map Prod.fst = some k)
    (hnew : reads new = some (k, v)) {k' : κ} (hne : k' ≠ k) (written : Bool) :
    value reads (rewrite marks new written ls) k' = value reads ls k' := by
  have hnewKey : (reads new).map Prod.fst = some k := by rw [hnew]; rfl
  have hentry (written : Bool) (ls : List ι) :
      value reads ((if written then [] else [new]) ++ ls) k' = value reads ls k' := by
    cases written with
    | true => rfl
    | false => exact value_of_ne_key hnewKey hne
  induction ls generalizing written with
  | nil =>
      rw [rewrite, ← List.append_nil (if written = true then [] else [new]), hentry]
  | cons l ls ih =>
      rw [List.forall_mem_cons] at hmarks
      rw [rewrite]
      by_cases hmark : marks l = true
      · rw [if_pos hmark, hentry, ih hmarks.2, value_of_ne_key (hmarks.1 hmark) hne]
      · rw [if_neg hmark, value_cons, value_cons, ih hmarks.2]

/-- The key has the new value when the first line that defines it is recognised, or gives the
value already. -/
theorem value_rewrite_self {ls : List ι}
    (hmarks : ∀ l ∈ ls, marks l = true → (reads l).map Prod.fst = some k)
    (hnew : reads new = some (k, v)) :
    value reads (rewrite marks new false ls) k =
      match ls.find? (defines reads k) with
      | none => some v
      | some l => if marks l then some v else (reads l).map Prod.snd := by
  have hdefines : defines reads k new = true := by
    unfold defines
    rw [hnew]
    exact decide_eq_true rfl
  have hentry (rest : List ι) : value reads (new :: rest) k = some v := by
    rw [value_cons, if_pos hdefines, hnew]
    rfl
  induction ls with
  | nil => exact hentry []
  | cons l ls ih =>
      rw [List.forall_mem_cons] at hmarks
      rw [rewrite, List.find?_cons]
      by_cases hmark : marks l = true
      · have hl : defines reads k l = true := decide_eq_true (hmarks.1 hmark)
        rw [if_pos hmark, hl]
        show value reads (new :: rewrite marks new true ls) k = if marks l then some v else _
        rw [hentry, if_pos hmark]
      · rw [if_neg hmark, value_cons]
        cases hl : defines reads k l with
        | true =>
            show (reads l).map Prod.snd = if marks l then some v else _
            rw [if_neg hmark]
        | false => exact ih hmarks.2

end First

end Definitions
