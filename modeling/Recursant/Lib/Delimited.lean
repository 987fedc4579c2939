import Mathlib.Data.List.Infix
import Mathlib.Data.List.TakeWhile
import Mathlib.Tactic

/-!
# Membership in a delimited list by substring search

A list of names is written with every name between two copies of a separator, `|a||b||c|`.  A name
without separators is in the list exactly when it occurs there together with its two separators.
-/

namespace Delimited

variable {α : Type*} {bar : α} {key : List α} {names : List (List α)}

/-- `x` between two separators. -/
def token (bar : α) (x : List α) : List α := bar :: (x ++ [bar])

def render (bar : α) (names : List (List α)) : List α := names.flatMap (token bar)

theorem render_cons (x : List α) : render bar (x :: names) = token bar x ++ render bar names := rfl

theorem token_infix_render (h : key ∈ names) : token bar key <:+: render bar names := by
  obtain ⟨before, after, rfl⟩ := List.append_of_mem h
  refine ⟨render bar before, render bar after, ?_⟩
  simp [render, List.flatMap_append]

/-- Two words without separators that are followed by one and begin alike are equal. -/
theorem eq_of_bars {x y rest : List α} (hx : bar ∉ x) (hy : bar ∉ y)
    (h : x ++ [bar] <+: y ++ bar :: rest) : x = y := by
  induction x generalizing y with
  | nil =>
      cases y with
      | nil => rfl
      | cons b y =>
          rw [List.nil_append, List.cons_append, List.cons_prefix_cons] at h
          exact absurd (h.1 ▸ List.mem_cons_self) hy
  | cons a x ih =>
      cases y with
      | nil =>
          rw [List.cons_append, List.nil_append, List.cons_prefix_cons] at h
          exact absurd (h.1 ▸ List.mem_cons_self) hx
      | cons b y =>
          rw [List.cons_append, List.cons_append, List.cons_prefix_cons] at h
          rw [h.1, ih (fun hin => hx (List.mem_cons_of_mem a hin))
            (fun hin => hy (List.mem_cons_of_mem b hin)) h.2]

/-- An occurrence of a separated word cannot begin inside a word without separators. -/
theorem bar_infix_skip {x rest : List α} {word : List α} (hx : bar ∉ x)
    (h : bar :: word <:+: x ++ rest) : bar :: word <:+: rest := by
  induction x with
  | nil => exact h
  | cons a x ih =>
      rw [List.cons_append, List.infix_cons_iff, List.cons_prefix_cons] at h
      cases h with
      | inl hstarts => exact absurd (hstarts.1 ▸ List.mem_cons_self) hx
      | inr hinside => exact ih (fun hin => hx (List.mem_cons_of_mem a hin)) hinside

theorem mem_of_token (hkey : bar ∉ key) (hnil : key ≠ [])
    (hnames : ∀ x ∈ names, bar ∉ x) (h : token bar key <:+: render bar names) : key ∈ names := by
  induction names with
  | nil =>
      rw [render, List.flatMap_nil, List.infix_nil] at h
      exact absurd h (List.cons_ne_nil _ _)
  | cons x names ih =>
      have hx : bar ∉ x := hnames x List.mem_cons_self
      rw [render_cons, token, token, List.cons_append, List.append_assoc,
        List.infix_cons_iff] at h
      cases h with
      | inl hstarts =>
          -- the occurrence begins at the separator before `x`
          rw [List.cons_prefix_cons] at hstarts
          rw [eq_of_bars hkey hx hstarts.2]
          exact List.mem_cons_self
      | inr hinside =>
          have hafter := bar_infix_skip hx hinside
          rw [List.singleton_append, List.infix_cons_iff] at hafter
          cases hafter with
          | inl hstarts =>
              -- it would begin at the separator after `x`, where no name follows
              rw [List.cons_prefix_cons] at hstarts
              obtain ⟨c, key', rfl⟩ := List.exists_cons_of_ne_nil hnil
              cases names with
              | nil => simp [render] at hstarts
              | cons y names =>
                  rw [render_cons, token, List.cons_append, List.cons_append,
                    List.cons_prefix_cons] at hstarts
                  exact absurd (hstarts.2.1 ▸ List.mem_cons_self) hkey
          | inr hrest =>
              exact List.mem_cons_of_mem x
                (ih (fun y hy => hnames y (List.mem_cons_of_mem x hy)) hrest)

/-- Substring search decides membership for nonempty words without separators. -/
theorem token_infix_iff (hkey : bar ∉ key) (hnil : key ≠ []) (hnames : ∀ x ∈ names, bar ∉ x) :
    token bar key <:+: render bar names ↔ key ∈ names :=
  ⟨mem_of_token hkey hnil hnames, token_infix_render⟩

/-- Two separators in a row stand between any two names, and nowhere else. -/
theorem bars_infix_iff (hnames : ∀ x ∈ names, x ≠ [] ∧ bar ∉ x) :
    token bar [] <:+: render bar names ↔ 2 ≤ names.length := by
  constructor
  · intro h
    match names, hnames, h with
    | [], _, h => exact absurd (List.infix_nil.mp h) (List.cons_ne_nil _ _)
    | [x], hnames, h =>
        obtain ⟨hnil, hbar⟩ := hnames x List.mem_cons_self
        obtain ⟨c, x', rfl⟩ := List.exists_cons_of_ne_nil hnil
        rw [render_cons, token, token, render, List.flatMap_nil, List.append_nil,
          List.infix_cons_iff] at h
        cases h with
        | inl hstarts =>
            rw [List.nil_append, List.cons_append, List.cons_prefix_cons,
              List.cons_prefix_cons] at hstarts
            exact absurd (hstarts.2.1 ▸ List.mem_cons_self) hbar
        | inr hinside =>
            have hlength := (bar_infix_skip hbar hinside).length_le
            simp at hlength
    | _ :: _ :: _, _, _ => simp
  · intro h
    match names, h with
    | x :: y :: rest, _ =>
        refine ⟨bar :: x, y ++ bar :: render bar rest, ?_⟩
        simp [render_cons, token]

end Delimited
