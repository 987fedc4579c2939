import Mathlib.Data.List.TakeWhile
import Mathlib.Data.Nat.Digits.Defs
import Recursant.Text

/-!
# Decimal numbers

`strtol(s, &end, 10)` and `%ld` on a 64-bit `long`.
-/

namespace Recursant

def longMin : Int := -2 ^ 63

def longMax : Int := 2 ^ 63 - 1

/-- The number of some decimal digits. -/
def digitsValue (digits : Text) : Nat := digits.foldl (fun v c => v * 10 + (c.toNat - 48)) 0

/-- The sign and what follows it. -/
def signOf : Text → Bool × Text
  | [] => (false, [])
  | c :: s => if c = 45 then (true, s) else if c = 43 then (false, s) else (false, c :: s)

def signed (negative : Bool) (n : Nat) : Int := if negative then -n else n

/-- The value, where it ends, and whether `errno` is `ERANGE`. -/
structure Conversion where
  value : Int
  rest : Text
  range : Bool

/-- Without digits nothing is consumed. -/
def strtol (s : Text) : Conversion :=
  let (negative, t) := signOf (s.dropWhile isspace)
  let digits := t.takeWhile isdigit
  if digits = [] then ⟨0, s, false⟩
  else
    let value := signed negative (digitsValue digits)
    ⟨max longMin (min longMax value), t.dropWhile isdigit, value < longMin || longMax < value⟩

def printDigits (n : Nat) : Text :=
  if n = 0 then [48] else ((Nat.digits 10 n).map fun d => (48 + d).toUInt8).reverse

/-- `%ld` -/
def printLong (n : Int) : Text := if n < 0 then 45 :: printDigits n.natAbs else printDigits n.natAbs

/-- Digits, behind a minus sign or not. -/
def Decimal (n : Int) (t : Text) : Prop :=
  ∃ negative digits, digits ≠ [] ∧ (∀ c ∈ digits, isdigit c = true) ∧
    t = (if negative then 45 :: digits else digits) ∧ n = signed negative (digitsValue digits)

/-! ## Reading and printing -/

theorem isdigit_iff {c : Byte} : isdigit c = true ↔ 48 ≤ c.toNat ∧ c.toNat ≤ 57 := by
  unfold isdigit
  rw [Bool.and_eq_true, decide_eq_true_eq, decide_eq_true_eq, UInt8.le_iff_toNat_le,
    UInt8.le_iff_toNat_le]
  rfl

theorem not_isspace_of_isdigit {c : Byte} (h : isdigit c = true) : isspace c = false := by
  have hc := isdigit_iff.mp h
  rw [Bool.eq_false_iff]
  intro hspace
  unfold isspace at hspace
  rw [Bool.or_eq_true, Bool.and_eq_true, decide_eq_true_eq, decide_eq_true_eq, beq_iff_eq,
    UInt8.le_iff_toNat_le, UInt8.le_iff_toNat_le] at hspace
  have h13 : (13 : Byte).toNat = 13 := rfl
  cases hspace with
  | inl hspace => omega
  | inr hspace =>
      rw [hspace] at hc
      exact absurd hc.1 (by decide)

theorem signOf_digits {digits : Text} (hne : digits ≠ []) (h : ∀ c ∈ digits, isdigit c = true) :
    signOf digits = (false, digits) := by
  obtain ⟨c, cs, rfl⟩ := List.exists_cons_of_ne_nil hne
  have hc := isdigit_iff.mp (h c List.mem_cons_self)
  unfold signOf
  dsimp only
  rw [if_neg, if_neg]
  · rintro rfl
    exact absurd hc.1 (by decide)
  · rintro rfl
    exact absurd hc.1 (by decide)

theorem strtol_of_decimal {n : Int} {t : Text} (h : Decimal n t) :
    strtol t = ⟨max longMin (min longMax n), [], n < longMin || longMax < n⟩ := by
  obtain ⟨negative, digits, hne, hdigits, rfl, rfl⟩ := h
  have hsign : signOf ((if negative then 45 :: digits else digits).dropWhile isspace) =
      (negative, digits) := by
    cases negative with
    | true => rfl
    | false =>
        rw [if_neg (by simp)]
        obtain ⟨c, cs, rfl⟩ := List.exists_cons_of_ne_nil hne
        rw [List.dropWhile_cons_of_neg]
        · exact signOf_digits hne hdigits
        · rw [not_isspace_of_isdigit (hdigits c List.mem_cons_self)]
          decide
  have htake : digits.takeWhile isdigit = digits := List.takeWhile_eq_self_iff.mpr hdigits
  have hdrop : digits.dropWhile isdigit = [] := List.dropWhile_eq_nil_iff.mpr hdigits
  unfold strtol
  rw [hsign]
  dsimp only
  rw [htake, hdrop, if_neg hne]

theorem strtol_decimal {n : Int} {t : Text} (h : Decimal n t) (hmin : longMin ≤ n)
    (hmax : n ≤ longMax) : strtol t = ⟨n, [], false⟩ := by
  rw [strtol_of_decimal h, min_eq_right hmax, max_eq_right hmin, decide_eq_false (by omega),
    decide_eq_false (by omega)]
  rfl

theorem digitsValue_lt {digits : Text} (h : ∀ c ∈ digits, isdigit c = true) :
    digitsValue digits < 10 ^ digits.length := by
  unfold digitsValue
  -- From any value that was read before.
  suffices hfold : ∀ v, digits.foldl (fun v c => v * 10 + (c.toNat - 48)) v <
      (v + 1) * 10 ^ digits.length by
    have hzero := hfold 0
    rwa [Nat.zero_add, Nat.one_mul] at hzero
  induction digits with
  | nil =>
      intro v
      rw [List.foldl_nil, List.length_nil]
      omega
  | cons c cs ih =>
      intro v
      have hc := isdigit_iff.mp (h c List.mem_cons_self)
      have hstep := ih (fun d hd => h d (List.mem_cons_of_mem c hd)) (v * 10 + (c.toNat - 48))
      rw [List.foldl_cons, List.length_cons, Nat.pow_succ, Nat.mul_comm (10 ^ cs.length) 10,
        ← Nat.mul_assoc]
      exact Nat.lt_of_lt_of_le hstep (Nat.mul_le_mul_right _ (by omega))

theorem printDigits_spec (n : Nat) : printDigits n ≠ [] ∧
    (∀ c ∈ printDigits n, isdigit c = true) ∧ digitsValue (printDigits n) = n := by
  unfold printDigits
  by_cases hn : n = 0
  · subst hn
    refine ⟨by decide, fun c hc => ?_, by decide⟩
    rw [List.mem_singleton.mp hc]
    rfl
  rw [if_neg hn]
  have hdigit {d : Nat} (hd : d < 10) : (48 + d).toUInt8.toNat = 48 + d := by
    rw [Nat.toUInt8, UInt8.toNat_ofNat']
    omega
  refine ⟨?_, ?_, ?_⟩
  · rw [Ne, List.reverse_eq_nil_iff, List.map_eq_nil_iff, Nat.digits_eq_nil_iff_eq_zero]
    exact hn
  · intro c hc
    obtain ⟨d, hd, rfl⟩ := List.mem_map.mp (List.mem_reverse.mp hc)
    have hlt := Nat.digits_lt_base (by decide) hd
    rw [isdigit_iff, hdigit hlt]
    omega
  · have hfold : ∀ ds : List Nat, (∀ d ∈ ds, d < 10) →
        digitsValue ((ds.map fun d => (48 + d).toUInt8).reverse) = Nat.ofDigits 10 ds := by
      intro ds hds
      unfold digitsValue
      rw [List.foldl_reverse]
      induction ds with
      | nil => rfl
      | cons d ds ih =>
          rw [List.forall_mem_cons] at hds
          rw [List.map_cons, List.foldr_cons, ih hds.2, Nat.ofDigits_cons, hdigit hds.1]
          omega
    rw [hfold _ fun d hd => Nat.digits_lt_base (by decide) hd, Nat.ofDigits_digits]

theorem printLong_decimal (n : Int) : Decimal n (printLong n) := by
  obtain ⟨hne, hdigits, hvalue⟩ := printDigits_spec n.natAbs
  unfold printLong
  by_cases hn : n < 0
  · refine ⟨true, printDigits n.natAbs, hne, hdigits, if_pos hn, ?_⟩
    show n = -(digitsValue (printDigits n.natAbs) : Int)
    rw [hvalue]
    omega
  · refine ⟨false, printDigits n.natAbs, hne, hdigits, if_neg hn, ?_⟩
    show n = (digitsValue (printDigits n.natAbs) : Int)
    rw [hvalue]
    omega

end Recursant
