import Mathlib.Data.List.SplitBy

/-!
# Runs of a list, one element at a time

`List.splitBy r` cuts a list into its maximal runs of neighbours in the relation `r`.  A fold that
looks at its last value only, and either mends it or appends a new one, holds one value for each of
these runs.
-/

namespace Runs

variable {α β : Type*} {r : α → α → Bool}

theorem splitBy_singleton (a : α) : [a].splitBy r = [[a]] := by
  rw [List.splitBy_of_isChain (List.cons_ne_nil a []) (List.isChain_singleton a)]

/-- An element that does not go with the last one begins a run. -/
theorem splitBy_concat_break {l : List α} {a : α} (h : ∀ x ∈ l.getLast?, r x a = false) :
    (l ++ [a]).splitBy r = l.splitBy r ++ [[a]] := by
  rw [List.splitBy_append_cons [] h, splitBy_singleton]

/-- An element that goes with the last one continues its run. -/
theorem splitBy_concat_join {l : List α} {a : α} {gs : List (List α)} {g : List α}
    (h : l.splitBy r = gs ++ [g]) (ha : ∀ x ∈ g.getLast?, r x a = true) :
    (l ++ [a]).splitBy r = gs ++ [g ++ [a]] := by
  obtain ⟨hflatten, hnil, hchain, hbreaks⟩ := List.splitBy_eq_iff.mp h
  have hg : g ≠ [] := by
    rintro rfl
    exact hnil (List.mem_append_right _ List.mem_cons_self)
  rw [List.splitBy_eq_iff]
  refine ⟨?_, ?_, ?_, ?_⟩
  · rw [hflatten]
    simp
  · intro hmem
    rw [List.mem_append, List.mem_singleton] at hmem
    cases hmem with
    | inl hmem => exact hnil (List.mem_append_left _ hmem)
    | inr hmem => simp at hmem
  · intro m hm
    rw [List.mem_append, List.mem_singleton] at hm
    cases hm with
    | inl hm => exact hchain m (List.mem_append_left _ hm)
    | inr hm =>
        rw [hm, List.isChain_append]
        refine ⟨hchain g (List.mem_append_right _ List.mem_cons_self), List.isChain_singleton a, ?_⟩
        intro x hx y hy
        rw [List.head?_cons, Option.mem_some_iff] at hy
        rw [← hy]
        exact ha x hx
  · rw [List.isChain_append] at hbreaks ⊢
    refine ⟨hbreaks.1, List.isChain_singleton _, ?_⟩
    intro x hx y hy
    rw [List.head?_cons, Option.mem_some_iff] at hy
    obtain ⟨hx', hg', hbreak⟩ := hbreaks.2.2 x hx g (by simp)
    rw [← hy]
    refine ⟨hx', by simp, ?_⟩
    rwa [List.head_append_of_ne_nil hg]

/-- The last run ends in the last element. -/
theorem getLast?_of_splitBy {l : List α} {gs : List (List α)} {g : List α}
    (h : l.splitBy r = gs ++ [g]) : g.getLast? = l.getLast? := by
  obtain ⟨hflatten, hnil, -⟩ := List.splitBy_eq_iff.mp h
  have hg : g ≠ [] := by
    rintro rfl
    exact hnil (List.mem_append_right _ List.mem_cons_self)
  rw [hflatten, List.flatten_append, List.flatten_singleton, List.getLast?_append_of_ne_nil _ hg]

theorem length_splitBy_le_concat (l : List α) (a : α) :
    (l.splitBy r).length ≤ ((l ++ [a]).splitBy r).length := by
  by_cases hbreak : ∀ x ∈ l.getLast?, r x a = false
  · rw [splitBy_concat_break hbreak, List.length_append]
    omega
  · push Not at hbreak
    obtain ⟨x, hx, hjoin⟩ := hbreak
    rcases List.eq_nil_or_concat (l.splitBy r) with hnil | ⟨gs, g, hconcat⟩
    · rw [List.splitBy_eq_nil] at hnil
      rw [hnil] at hx
      cases hx
    · rw [List.concat_eq_append] at hconcat
      rw [splitBy_concat_join hconcat, hconcat, List.length_append, List.length_append]
      · exact Nat.le_refl _
      · intro y hy
        rw [getLast?_of_splitBy hconcat, Option.mem_def, Option.mem_def.mp hx] at hy
        rw [← Option.some.inj hy]
        simpa using hjoin

/-- Values for runs up to the last one are values for those before it and one for it. -/
theorem forall₂_concat {R : List α → β → Prop} {gs : List (List α)} {g : List α} {bs : List β}
    (h : List.Forall₂ R (gs ++ [g]) bs) :
    ∃ cs b, bs = cs ++ [b] ∧ List.Forall₂ R gs cs ∧ R g b := by
  induction gs generalizing bs with
  | nil =>
      cases h with
      | cons hb hnil =>
          cases hnil
          exact ⟨[], _, rfl, .nil, hb⟩
  | cons g' gs ih =>
      cases h with
      | cons hb hrest =>
          obtain ⟨cs, b, rfl, hcs, hlast⟩ := ih hrest
          exact ⟨_ :: cs, b, rfl, .cons hb hcs, hlast⟩

/-! ## Words -/

/-- The maximal runs of elements in a class. -/
def words (p : α → Bool) (l : List α) : List (List α) :=
  (l.splitOnP fun a => !p a).filter fun w => !w.isEmpty

variable {p : α → Bool}

theorem words_nil : words p [] = [] := rfl

theorem words_break {a : α} (h : p a = false) (l : List α) : words p (a :: l) = words p l := by
  unfold words
  rw [List.splitOnP_cons_eq_if_modifyHead, if_pos (by rw [h]; rfl)]
  exact List.filter_cons_of_neg (p := fun w : List α => !w.isEmpty) Bool.false_ne_true

/-- A word is followed by an element outside the class, or by nothing. -/
theorem words_append {w : List α} (hw : ∀ x ∈ w, p x = true) (hne : w ≠ []) {rest : List α}
    (hrest : ∀ x ∈ rest.head?, p x = false) : words p (w ++ rest) = w :: words p rest := by
  have hplain : ∀ x ∈ w, (!p x) = false := by
    intro x hx
    rw [hw x hx]
    rfl
  have hkeep : (!w.isEmpty) = true := by
    cases w with
    | nil => exact absurd rfl hne
    | cons x w => rfl
  cases rest with
  | nil =>
      unfold words
      rw [List.append_nil, List.splitOnP_eq_singleton hplain]
      exact List.filter_cons_of_pos (p := fun w : List α => !w.isEmpty) hkeep
  | cons b rest =>
      have hb : p b = false := hrest b rfl
      rw [words_break hb]
      unfold words
      rw [List.splitOnP_append_cons_of_forall_mem hplain b (by rw [hb]; rfl)]
      exact List.filter_cons_of_pos (p := fun w : List α => !w.isEmpty) hkeep

theorem words_run {a : α} (h : p a = true) (l : List α) :
    words p (a :: l) = (a :: l).takeWhile p :: words p ((a :: l).dropWhile p) := by
  have hsplit := @words_append _ p ((a :: l).takeWhile p)
    (fun x hx => List.all_eq_true.mp List.all_takeWhile x hx)
    (by rw [List.takeWhile_cons_of_pos h]; exact List.cons_ne_nil _ _)
    ((a :: l).dropWhile p) (by
      intro x hx
      have hhead := List.head?_dropWhile_not p (a :: l)
      rw [Option.mem_def.mp hx] at hhead
      simpa using hhead)
  rwa [List.takeWhile_append_dropWhile] at hsplit

/-- One round of the count of words: a word begins where the class is entered. -/
def enter (p : α → Bool) (k : Nat × Bool) (a : α) : Nat × Bool :=
  (if p a && !k.2 then k.1 + 1 else k.1, p a)

theorem enter_words (l : List α) (n : Nat) (inside : Bool) :
    (l.foldl (enter p) (n, inside)).1 =
      n + (words p (if inside then l.dropWhile p else l)).length := by
  induction l generalizing n inside with
  | nil => cases inside <;> rfl
  | cons a l ih =>
      rw [List.foldl_cons, show enter p (n, inside) a =
        (if p a && !inside then n + 1 else n, p a) from rfl, ih]
      cases h : p a with
      | false =>
          rw [Bool.false_and, if_neg Bool.false_ne_true, if_neg Bool.false_ne_true]
          cases inside with
          | false => rw [if_neg Bool.false_ne_true, words_break h]
          | true =>
              rw [if_pos rfl, List.dropWhile_cons_of_neg (by rw [h]; exact Bool.false_ne_true),
                words_break h]
      | true =>
          rw [if_pos rfl]
          cases inside with
          | false =>
              rw [if_pos (by rfl), if_neg Bool.false_ne_true, words_run h, List.dropWhile_cons_of_pos h,
                List.length_cons]
              omega
          | true => rw [if_neg (by decide), if_pos rfl, List.dropWhile_cons_of_pos h]

end Runs
