import Mathlib.Data.List.Basic
import Mathlib.Tactic

/-!
# Counting in windows

A counter that starts anew with the first event a whole width after the start of its window.  It
lets a fixed number of events through in each window, hence no more than twice that number in any
span of one width, wherever the span begins.
-/

namespace Windowed

structure Meter where
  start : Nat
  count : Nat
  deriving DecidableEq

variable {width limit now : Nat} {m : Meter} {taken : List Nat}

/-- The meter with the window that the event falls into. -/
def Meter.roll (width now : Nat) (m : Meter) : Meter :=
  if m.count = 0 || now - m.start ≥ width then ⟨now, 0⟩ else m

/-- An event is let through while its window has room. -/
def Meter.pass (width limit now : Nat) (m : Meter) : Bool × Meter :=
  if (m.roll width now).count < limit then
    (true, { m.roll width now with count := (m.roll width now).count + 1 })
  else (false, m.roll width now)

/-- The span of one width from `t` on. -/
def spans (t width a : Nat) : Bool := t ≤ a && a < t + width

/-! ## The windows of a run -/

/-- The events let through before the window of the meter and during it. -/
structure Windows (width limit : Nat) (m : Meter) (before during : List Nat) : Prop where
  size : during.length = m.count
  full : m.count ≤ limit
  inside : ∀ a ∈ during, m.start ≤ a ∧ a < m.start + width
  earlier : ∀ a ∈ before, a < m.start
  last : ∀ t, m.start < t + width → before.countP (fun a => t ≤ a) ≤ limit
  spread : ∀ t, (before ++ during).countP (spans t width) ≤ 2 * limit

/-- The events let through so far, in order. -/
structure Paced (width limit : Nat) (m : Meter) (taken : List Nat) : Prop where
  fresh : m.count = 0 → taken = []
  windows : ∃ before during, taken = before ++ during ∧ Windows width limit m before during

theorem windows_nil (width limit start : Nat) : Windows width limit ⟨start, 0⟩ [] [] where
  size := rfl
  full := Nat.zero_le limit
  inside := nofun
  earlier := nofun
  last := fun _ _ => Nat.zero_le limit
  spread := fun _ => Nat.zero_le _

theorem paced_nil (width limit start : Nat) : Paced width limit ⟨start, 0⟩ [] where
  fresh := fun _ => rfl
  windows := ⟨[], [], rfl, windows_nil width limit start⟩

/-- The window that follows has nothing in it yet. -/
theorem Windows.next {before during : List Nat} (h : Windows width limit m before during)
    (hlate : m.start + width ≤ now) : Windows width limit ⟨now, 0⟩ (before ++ during) [] where
  size := rfl
  full := Nat.zero_le limit
  inside := nofun
  earlier := by
    intro a ha
    show a < now
    rw [List.mem_append] at ha
    cases ha with
    | inl hbefore =>
        have hearlier := h.earlier a hbefore
        omega
    | inr hduring =>
        have hinside := h.inside a hduring
        omega
  last := by
    intro t ht
    change now < t + width at ht
    -- what came before the window that ends is too old for `t`
    have hnone : before.countP (fun a => t ≤ a) = 0 := by
      rw [List.countP_eq_zero]
      intro a ha
      have hearlier := h.earlier a ha
      simp only [decide_eq_true_eq]
      omega
    have hsome := List.countP_le_length (p := fun a => decide (t ≤ a)) (l := during)
    have hsize := h.size
    have hfull := h.full
    rw [List.countP_append]
    omega
  spread := by
    intro t
    rw [List.append_nil]
    exact h.spread t

/-- One more event in the window. -/
theorem Windows.take {before during : List Nat} (h : Windows width limit m before during)
    (hstart : m.start ≤ now) (hend : now < m.start + width) (hroom : m.count < limit) :
    Windows width limit { m with count := m.count + 1 } before (during ++ [now]) where
  size := by
    have hsize := h.size
    simp [hsize]
  full := hroom
  inside := by
    intro a ha
    rw [List.mem_append, List.mem_singleton] at ha
    cases ha with
    | inl hduring => exact h.inside a hduring
    | inr hnow => exact hnow ▸ ⟨hstart, hend⟩
  earlier := h.earlier
  last := h.last
  spread := by
    intro t
    rw [← List.append_assoc, List.countP_append, List.countP_singleton]
    cases hspans : spans t width now with
    | false =>
        have hspread := h.spread t
        simp only [Bool.false_eq_true, if_false]
        omega
    | true =>
        -- the span reaches into this window, so it misses all windows but this and the one before
        have hreaches : m.start < t + width := by
          unfold spans at hspans
          rw [Bool.and_eq_true, decide_eq_true_eq, decide_eq_true_eq] at hspans
          omega
        have hlast := h.last t hreaches
        have hbefore : before.countP (spans t width) ≤ before.countP (fun a => t ≤ a) := by
          apply List.countP_mono_left
          intro a _ ha
          unfold spans at ha
          rw [Bool.and_eq_true] at ha
          exact ha.1
        have hduring := List.countP_le_length (p := spans t width) (l := during)
        have hsize := h.size
        rw [List.countP_append, if_pos rfl]
        omega

/-! ## One event -/

/-- The window of an event that is no earlier than those before it. -/
theorem Paced.roll (h : Paced width limit m taken) (hwidth : 0 < width)
    (hnow : ∀ a ∈ taken, a ≤ now) :
    (m.roll width now).start ≤ now ∧ now < (m.roll width now).start + width ∧
      ∃ before during, taken = before ++ during ∧
        Windows width limit (m.roll width now) before during := by
  obtain ⟨before, during, htaken, hwindows⟩ := h.windows
  unfold Meter.roll
  by_cases hzero : m.count = 0
  · rw [hzero, decide_eq_true rfl, Bool.true_or, if_pos rfl]
    refine ⟨le_rfl, Nat.lt_add_of_pos_right hwidth, [], [], h.fresh hzero, windows_nil ..⟩
  · by_cases hlate : now - m.start ≥ width
    · rw [decide_eq_true hlate, Bool.or_true, if_pos rfl]
      refine ⟨le_rfl, Nat.lt_add_of_pos_right hwidth, before ++ during, [], ?_, ?_⟩
      · rw [htaken, List.append_nil]
      · exact hwindows.next (by omega)
    · rw [decide_eq_false hzero, decide_eq_false hlate, Bool.or_false, if_neg Bool.false_ne_true]
      -- the window has an event in it, which is no later than this one
      have hstart : m.start ≤ now := by
        cases during with
        | nil => exact absurd hwindows.size.symm hzero
        | cons a during =>
            have hinside := hwindows.inside a (by simp)
            have hle := hnow a (by simp [htaken])
            omega
      exact ⟨hstart, by omega, before, during, htaken, hwindows⟩

/-- The step: an event that is let through joins the others. -/
theorem Paced.pass (h : Paced width limit m taken) (hwidth : 0 < width)
    (hnow : ∀ a ∈ taken, a ≤ now) :
    Paced width limit (m.pass width limit now).2
      (taken ++ if (m.pass width limit now).1 then [now] else []) := by
  obtain ⟨hstart, hend, before, during, htaken, hwindows⟩ := h.roll hwidth hnow
  unfold Meter.pass
  by_cases hroom : (m.roll width now).count < limit
  · rw [if_pos hroom]
    refine ⟨nofun, before, during ++ [now], ?_, hwindows.take hstart hend hroom⟩
    rw [htaken, List.append_assoc]
    rfl
  · rw [if_neg hroom]
    dsimp only
    rw [if_neg Bool.false_ne_true, List.append_nil]
    refine ⟨fun hzero => ?_, before, during, htaken, hwindows⟩
    -- a window without room for its first event: nothing is ever let through
    have hlimit : limit = 0 := by omega
    obtain ⟨before', during', htaken', hwindows'⟩ := h.windows
    have hfull := hwindows'.full
    exact h.fresh (by omega)

/-- Any span of one width holds at most two windows' worth of events. -/
theorem Paced.within (h : Paced width limit m taken) (t : Nat) :
    taken.countP (spans t width) ≤ 2 * limit := by
  obtain ⟨before, during, htaken, hwindows⟩ := h.windows
  rw [htaken]
  exact hwindows.spread t

end Windowed
