import Mathlib.Data.List.Basic
import Mathlib.Tactic

/-!
# Lines with three endings

A line ends in one symbol, in another, or in the first followed by the second.  The splitting keeps
the unfinished line and remembers a first symbol that the second may still follow.
-/

namespace Lines

variable {α : Type*} {cr lf : α}

/-- Lines with one ending each, then the last one without. -/
def render (ending : List α) (p : List (List α) × List α) : List α :=
  p.1.flatMap (· ++ ending) ++ p.2

/-- A line holds none of the two symbols. -/
def Plain (cr lf : α) (l : List α) : Prop := cr ∉ l ∧ lf ∉ l

/-- The three endings. -/
def Ending (cr lf : α) (ending : List α) : Prop := ending = [lf] ∨ ending = [cr] ∨ ending = [cr, lf]

theorem Plain.cons {c : α} {l : List α} (h : Plain cr lf (c :: l)) :
    (c ≠ cr ∧ c ≠ lf) ∧ Plain cr lf l := by
  unfold Plain at h ⊢
  rw [List.mem_cons, List.mem_cons, not_or, not_or] at h
  exact ⟨⟨Ne.symm h.1.1, Ne.symm h.2.1⟩, h.1.2, h.2.2⟩

variable [DecidableEq α]

/-- The finished lines and the last one, after a part of a line and perhaps a first symbol. -/
def split (cr lf : α) (pending : Bool) (current : List α) : List α → List (List α) × List α
  | [] => ([], current)
  | c :: rest =>
      if pending && c = lf then split cr lf false current rest
      else if c = cr || c = lf then
        (current :: (split cr lf (c = cr) [] rest).1, (split cr lf (c = cr) [] rest).2)
      else split cr lf false (current ++ [c]) rest

/-- The finished lines of a text and the last one. -/
def lines (cr lf : α) (s : List α) : List (List α) × List α := split cr lf false [] s

/-- A symbol of a line joins the part before it. -/
theorem split_symbol {c : α} (hcr : c ≠ cr) (hlf : c ≠ lf) (pending : Bool)
    (current rest : List α) :
    split cr lf pending current (c :: rest) = split cr lf false (current ++ [c]) rest := by
  rw [split, if_neg (by simp [hlf]), if_neg (by simp [hcr, hlf])]

theorem split_word {w : List α} (h : Plain cr lf w) (pending : Bool) (current rest : List α) :
    split cr lf pending current (w ++ rest) =
      split cr lf (pending && decide (w = [])) (current ++ w) rest := by
  induction w generalizing pending current with
  | nil => simp
  | cons c w ih =>
      obtain ⟨hc, hw⟩ := h.cons
      rw [List.cons_append, split_symbol hc.1 hc.2, ih hw, Bool.false_and, List.append_assoc,
        List.singleton_append]
      simp

/-- After its ending a line is finished; a bare first symbol stays pending. -/
theorem split_ending {ending : List α} (hne : cr ≠ lf) (h : Ending cr lf ending) {pending : Bool}
    (hpending : pending = true → ending = [cr]) (current rest : List α) :
    ∃ next : Bool, (next = true → ending = [cr]) ∧
      split cr lf pending current (ending ++ rest) =
        (current :: (split cr lf next [] rest).1, (split cr lf next [] rest).2) := by
  rcases h with rfl | rfl | rfl
  · have hclear : pending = false := by
      cases pending with
      | false => rfl
      | true => exact absurd (List.cons.inj (hpending rfl)).1 (Ne.symm hne)
    refine ⟨false, nofun, ?_⟩
    rw [hclear, List.singleton_append, split, if_neg (by simp), if_pos (by simp),
      decide_eq_false (Ne.symm hne)]
  · refine ⟨true, fun _ => rfl, ?_⟩
    rw [List.singleton_append, split, if_neg (by simp [hne]), if_pos (by simp), decide_eq_true rfl]
  · have hclear : pending = false := by
      cases pending with
      | false => rfl
      | true => cases (hpending rfl)
    refine ⟨false, nofun, ?_⟩
    rw [hclear, List.cons_append, List.singleton_append, split, if_neg (by simp),
      if_pos (by simp), decide_eq_true rfl, split, if_pos (by simp)]

/-- Rendered lines are the lines of the text. -/
theorem lines_render {ending : List α} (hne : cr ≠ lf) (h : Ending cr lf ending)
    {p : List (List α) × List α} (hlines : ∀ l ∈ p.1, Plain cr lf l) (hlast : Plain cr lf p.2) :
    lines cr lf (render ending p) = p := by
  obtain ⟨ls, last⟩ := p
  have hall (pending : Bool) (hpending : pending = true → ending = [cr]) :
      split cr lf pending [] (render ending (ls, last)) = (ls, last) := by
    induction ls generalizing pending with
    | nil =>
        have hword := split_word hlast pending [] []
        rw [List.append_nil, List.nil_append] at hword
        show split cr lf pending [] ([] ++ last) = ([], last)
        rw [List.nil_append, hword, split]
    | cons l ls ih =>
        rw [List.forall_mem_cons] at hlines
        have htext : render ending (l :: ls, last) =
            l ++ (ending ++ render ending (ls, last)) := by
          simp [render]
        rw [htext, split_word hlines.1, List.nil_append]
        obtain ⟨next, hnext, hsplit⟩ := split_ending hne h
          (fun hp => hpending (Bool.and_elim_left hp)) l (render ending (ls, last))
        rw [hsplit, ih hlines.2 hlast next hnext]
  exact hall false nofun

theorem split_plain (cr lf : α) (pending : Bool) {current : List α} (h : Plain cr lf current) (s : List α) :
    (∀ l ∈ (split cr lf pending current s).1, Plain cr lf l) ∧
      Plain cr lf (split cr lf pending current s).2 := by
  induction s generalizing pending current with
  | nil => exact ⟨nofun, h⟩
  | cons c rest ih =>
      rw [split]
      by_cases hpair : (pending && decide (c = lf)) = true
      · rw [if_pos hpair]
        exact ih false h
      · rw [if_neg hpair]
        by_cases hend : (decide (c = cr) || decide (c = lf)) = true
        · rw [if_pos hend]
          have hrest := @ih (decide (c = cr)) [] ⟨List.not_mem_nil, List.not_mem_nil⟩
          rw [List.forall_mem_cons]
          exact ⟨⟨h, hrest.1⟩, hrest.2⟩
        · rw [if_neg hend]
          simp only [Bool.or_eq_true, decide_eq_true_eq, not_or] at hend
          refine ih false ?_
          unfold Plain at h ⊢
          rw [List.mem_append, List.mem_append, not_or, not_or, List.mem_singleton,
            List.mem_singleton]
          exact ⟨⟨h.1, Ne.symm hend.1⟩, h.2, Ne.symm hend.2⟩

/-- Ending all lines of a text in the same way keeps the lines. -/
theorem lines_render_lines {ending : List α} (hne : cr ≠ lf) (h : Ending cr lf ending)
    (s : List α) : lines cr lf (render ending (lines cr lf s)) = lines cr lf s := by
  have hplain := @split_plain _ _ cr lf false []
    ⟨List.not_mem_nil, List.not_mem_nil⟩ s
  exact lines_render hne h hplain.1 hplain.2

/-- A part of a line begins the line that it becomes. -/
theorem split_prefix (cr lf : α) (pending : Bool) (current s : List α) :
    (∃ l ls, (split cr lf pending current s).1 = l :: ls ∧ current <+: l) ∨
      (split cr lf pending current s).1 = [] ∧ current <+: (split cr lf pending current s).2 := by
  induction s generalizing pending current with
  | nil => exact .inr ⟨rfl, List.prefix_refl _⟩
  | cons c rest ih =>
      rw [split]
      by_cases hpair : (pending && decide (c = lf)) = true
      · rw [if_pos hpair]
        exact ih false current
      · rw [if_neg hpair]
        by_cases hend : (decide (c = cr) || decide (c = lf)) = true
        · rw [if_pos hend]
          exact .inl ⟨current, _, rfl, List.prefix_refl _⟩
        · rw [if_neg hend]
          have hgrown : current <+: current ++ [c] := List.prefix_append ..
          cases ih false (current ++ [c]) with
          | inl h =>
              obtain ⟨l, ls, hls, hprefix⟩ := h
              exact .inl ⟨l, ls, hls, hgrown.trans hprefix⟩
          | inr h => exact .inr ⟨h.1, hgrown.trans h.2⟩

end Lines
