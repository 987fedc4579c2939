import Mathlib.Algebra.Order.Floor.Ring
import Mathlib.Data.Int.Log
import Mathlib.Tactic

/-!
# Rounding to so many bits

The number of `p` bits that is nearest to an exact one, the even one of two.  Exponents are
unbounded, so nothing overflows, and the error is relative at every size.
-/

namespace Rounding

variable {α : Type*} [Field α] [LinearOrder α] [IsStrictOrderedRing α] [FloorRing α]

/-! ## To an integer -/

/-- The nearest integer, the even one of two. -/
def nearest (x : α) : Int :=
  if x - ⌊x⌋ < 1 / 2 then ⌊x⌋
  else if 1 / 2 < x - ⌊x⌋ then ⌊x⌋ + 1
  else if ⌊x⌋ % 2 = 0 then ⌊x⌋ else ⌊x⌋ + 1

theorem nearest_intCast (n : Int) : nearest (n : α) = n := by
  unfold nearest
  rw [Int.floor_intCast, sub_self, if_pos (by norm_num)]

theorem abs_nearest_sub_le (x : α) : |(nearest x : α) - x| ≤ 1 / 2 := by
  have hfloor := Int.floor_le x
  have hnext := Int.lt_floor_add_one x
  unfold nearest
  rw [abs_le]
  split_ifs <;> push_cast <;> constructor <;> linarith

theorem nearest_mono {x y : α} (h : x ≤ y) : nearest x ≤ nearest y := by
  have hx := (abs_le.mp (abs_nearest_sub_le x)).2
  have hy := (abs_le.mp (abs_nearest_sub_le y)).1
  by_contra hlt
  have hnext : (nearest y : α) + 1 ≤ nearest x := by exact_mod_cast not_le.mp hlt
  -- two integers around one half are only one apart when the numbers are the same
  have hsame : x = y := by linarith
  exact hlt (hsame ▸ le_refl _)

theorem nearest_neg (x : α) : nearest (-x) = -nearest x := by
  have hfloor := Int.floor_le x
  have hnext := Int.lt_floor_add_one x
  by_cases hwhole : (⌊x⌋ : α) = x
  · rw [← hwhole, nearest_intCast, ← Int.cast_neg, nearest_intCast]
  · have hlt : (⌊x⌋ : α) < x := lt_of_le_of_ne hfloor hwhole
    have hneg : ⌊-x⌋ = -⌊x⌋ - 1 := by
      rw [Int.floor_eq_iff]
      push_cast
      constructor <;> linarith
    have hhalf : -x - ((-⌊x⌋ - 1 : Int) : α) = 1 - (x - ⌊x⌋) := by
      push_cast
      ring
    unfold nearest
    rw [hneg, hhalf]
    split_ifs <;> first | omega | (exfalso; linarith)

/-! ## To `p` bits -/

/-- The distance of the numbers of `p` bits that have the size of `x`. -/
def ulp (p : Nat) (x : α) : α := 2 ^ (Int.log 2 |x| + 1 - p)

/-- The nearest number of `p` bits. -/
def round (p : Nat) (x : α) : α := nearest (x / ulp p x) * ulp p x

variable {p : Nat} {x y : α}

theorem ulp_pos (p : Nat) (x : α) : 0 < ulp p x := zpow_pos two_pos _

theorem round_zero (p : Nat) : round p (0 : α) = 0 := by
  unfold round
  have hzero : nearest (0 : α) = 0 := by simpa using nearest_intCast (α := α) 0
  rw [zero_div, hzero, Int.cast_zero, zero_mul]

theorem abs_round_sub_le_ulp (p : Nat) (x : α) : |round p x - x| ≤ ulp p x / 2 := by
  have hpos := ulp_pos p x
  have hscaled : round p x - x = (nearest (x / ulp p x) - x / ulp p x) * ulp p x := by
    unfold round
    rw [sub_mul, div_mul_cancel₀ x hpos.ne']
  rw [hscaled, abs_mul, abs_of_pos hpos]
  calc |(nearest (x / ulp p x) : α) - x / ulp p x| * ulp p x
      ≤ 1 / 2 * ulp p x := mul_le_mul_of_nonneg_right (abs_nearest_sub_le _) hpos.le
    _ = ulp p x / 2 := by ring

theorem ulp_le (p : Nat) (hx : x ≠ 0) : ulp p x ≤ 2 * |x| / 2 ^ p := by
  have hlog : (2 : α) ^ Int.log 2 |x| ≤ |x| := by
    simpa using Int.zpow_log_le_self one_lt_two (abs_pos.mpr hx)
  unfold ulp
  rw [zpow_sub₀ two_ne_zero, zpow_add₀ two_ne_zero, zpow_one, zpow_natCast, mul_comm]
  gcongr

/-- The error is relative to the number. -/
theorem abs_round_sub_le (p : Nat) (x : α) : |round p x - x| ≤ |x| / 2 ^ p := by
  by_cases hx : x = 0
  · rw [hx, round_zero, sub_zero, abs_zero, zero_div]
  · have hulp := ulp_le p hx
    have herror := abs_round_sub_le_ulp p x
    have hhalf : 2 * |x| / 2 ^ p / 2 = |x| / 2 ^ p := by ring
    linarith

theorem le_round (h : 0 ≤ x) : x * (1 - 1 / 2 ^ p) ≤ round p x := by
  have herror := (abs_le.mp (abs_round_sub_le p x)).1
  rw [abs_of_nonneg h] at herror
  rw [mul_sub, mul_one, mul_one_div]
  linarith

theorem round_neg (p : Nat) (x : α) : round p (-x) = -round p x := by
  have hulp : ulp p (-x) = ulp p x := by
    unfold ulp
    rw [abs_neg]
  unfold round
  rw [hulp, neg_div, nearest_neg, Int.cast_neg, neg_mul]

theorem round_nonneg (h : 0 ≤ x) : 0 ≤ round p x := by
  unfold round
  refine mul_nonneg ?_ (ulp_pos p x).le
  have hmono := nearest_mono (div_nonneg h (ulp_pos p x).le)
  rw [show nearest (0 : α) = 0 by simpa using nearest_intCast (α := α) 0] at hmono
  exact_mod_cast hmono

/-- The powers of two around a number. -/
theorem ulp_mul_le (p : Nat) (h : 0 < x) : ulp p x * 2 ^ p ≤ 2 * x ∧ x < ulp p x * 2 ^ p := by
  have hsize : ulp p x * 2 ^ p = 2 ^ (Int.log 2 x + 1) := by
    unfold ulp
    rw [abs_of_pos h, zpow_sub₀ two_ne_zero, zpow_natCast, div_mul_cancel₀]
    exact pow_ne_zero p two_ne_zero
  have hlow : (2 : α) ^ Int.log 2 x ≤ x := by
    simpa using Int.zpow_log_le_self one_lt_two h
  have hhigh : x < (2 : α) ^ (Int.log 2 x + 1) := by
    simpa using Int.lt_zpow_succ_log_self one_lt_two x
  rw [hsize]
  refine ⟨?_, hhigh⟩
  rw [zpow_add₀ two_ne_zero, zpow_one, mul_comm]
  linarith

/-- An integer of at most `p` bits is its own nearest number. -/
theorem round_natCast {n : Nat} (h : n < 2 ^ p) : round p (n : α) = n := by
  by_cases hzero : n = 0
  · rw [hzero, Nat.cast_zero, round_zero]
  · have hlog : Nat.log 2 n + 1 ≤ p := Nat.log_lt_of_lt_pow hzero h
    -- `n` is a multiple of the distance of its neighbours
    have hulp : ulp p (n : α) = ((2 : α) ^ (p - (Nat.log 2 n + 1)))⁻¹ := by
      unfold ulp
      rw [Nat.abs_cast, Int.log_natCast, ← zpow_natCast, ← zpow_neg]
      congr 1
      omega
    have hwhole : (n : α) / ulp p (n : α) =
        ((n * 2 ^ (p - (Nat.log 2 n + 1)) : Nat) : Int) := by
      rw [hulp, div_inv_eq_mul]
      push_cast
      rfl
    unfold round
    rw [hwhole, nearest_intCast, ← hwhole, div_mul_cancel₀ _ (ulp_pos p _).ne']

/-- A number of the size of `x` does not round beyond the next power of two. -/
theorem round_le_ulp (h : 0 < x) : round p x ≤ ulp p x * 2 ^ p := by
  have hpos := ulp_pos p x
  have hbelow : x / ulp p x ≤ ((2 ^ p : Int) : α) := by
    push_cast
    rw [div_le_iff₀ hpos, mul_comm]
    exact (ulp_mul_le p h).2.le
  have hmono := nearest_mono hbelow
  rw [nearest_intCast] at hmono
  unfold round
  rw [mul_comm]
  refine mul_le_mul_of_nonneg_left ?_ hpos.le
  exact_mod_cast hmono

/-- Nor below the power of two under it. -/
theorem ulp_le_round (hp : p ≠ 0) (h : 0 < x) : ulp p x * 2 ^ (p - 1) ≤ round p x := by
  have hpos := ulp_pos p x
  have habove : ((2 ^ (p - 1) : Int) : α) ≤ x / ulp p x := by
    push_cast
    rw [le_div_iff₀ hpos]
    have hsize := (ulp_mul_le p h).1
    rw [show p = p - 1 + 1 by omega, pow_succ] at hsize
    rw [show p - 1 + 1 = p by omega] at hsize
    linarith
  have hmono := nearest_mono habove
  rw [nearest_intCast] at hmono
  unfold round
  rw [mul_comm]
  refine mul_le_mul_of_nonneg_right ?_ hpos.le
  exact_mod_cast hmono

theorem round_mono_pos (hp : p ≠ 0) (hx : 0 < x) (h : x ≤ y) : round p x ≤ round p y := by
  have hy : 0 < y := hx.trans_le h
  have hlog : Int.log 2 x ≤ Int.log 2 y := Int.log_mono_right hx h
  by_cases hsame : Int.log 2 x = Int.log 2 y
  · have hulp : ulp p x = ulp p y := by
      unfold ulp
      rw [abs_of_pos hx, abs_of_pos hy, hsame]
    unfold round
    rw [hulp]
    refine mul_le_mul_of_nonneg_right ?_ (ulp_pos p y).le
    exact_mod_cast nearest_mono (div_le_div_of_nonneg_right h (ulp_pos p y).le)
  · -- a power of two lies between them
    have hstep : ulp p x * 2 ^ p ≤ ulp p y * 2 ^ (p - 1) := by
      unfold ulp
      rw [abs_of_pos hx, abs_of_pos hy, ← zpow_natCast, ← zpow_natCast, ← zpow_add₀ two_ne_zero,
        ← zpow_add₀ two_ne_zero]
      exact zpow_le_zpow_right₀ one_le_two (by omega)
    exact (round_le_ulp hx).trans (hstep.trans (ulp_le_round hp hy))

theorem round_mono (hp : p ≠ 0) (h : x ≤ y) : round p x ≤ round p y := by
  by_cases hx : 0 < x
  · exact round_mono_pos hp hx h
  · have hle : round p x ≤ 0 := by
      have hneg := round_nonneg (p := p) (neg_nonneg.mpr (not_lt.mp hx))
      rw [round_neg] at hneg
      linarith
    by_cases hy : 0 ≤ y
    · exact hle.trans (round_nonneg hy)
    · have hneg := round_mono_pos hp (neg_pos.mpr (not_le.mp hy)) (neg_le_neg h)
      rw [round_neg, round_neg] at hneg
      linarith

end Rounding
