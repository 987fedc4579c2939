import Recursant.Context.EfficiencyTraining
import Recursant.Lib.Blocks

/-!
# Bytes and code points

What the router finds in the bytes of a string is what the training side finds in its code points.
-/

namespace Recursant.Efficiency

open Bridge (Str str)
open Tokenizer (putCp encodeCps)

/-! ## Loops over places -/

theorem anyFrom_iff {k : Nat} {q : Text → Bool} {s : Text} :
    anyFrom k q s = true ↔ ∃ before rest, s = before ++ rest ∧ k ≤ rest.length ∧ q rest = true := by
  unfold anyFrom
  rw [List.any_eq_true]
  constructor
  · rintro ⟨i, hi, hq⟩
    rw [List.mem_range] at hi
    exact ⟨s.take i, s.drop i, (List.take_append_drop i s).symm, by rw [List.length_drop]; omega, hq⟩
  · rintro ⟨before, rest, rfl, hk, hq⟩
    refine ⟨before.length, ?_, by rw [List.drop_left]; exact hq⟩
    rw [List.mem_range, List.length_append]
    omega

theorem startsWith_iff {needle s : Text} : startsWith needle s = true ↔ ∃ rest, s = needle ++ rest := by
  unfold startsWith
  rw [decide_eq_true_iff]
  constructor
  · intro h
    refine ⟨s.drop needle.length, ?_⟩
    conv_lhs => rw [← List.take_append_drop needle.length s, h]
  · rintro ⟨rest, rfl⟩
    exact List.take_left

theorem contains_iff {s needle : Text} : contains s needle = true ↔ needle <:+: s := by
  unfold contains
  rw [anyFrom_iff]
  constructor
  · rintro ⟨before, rest, rfl, -, hq⟩
    obtain ⟨after, rfl⟩ := startsWith_iff.mp hq
    exact ⟨before, after, by rw [List.append_assoc]⟩
  · rintro ⟨before, after, rfl⟩
    refine ⟨before, needle ++ after, List.append_assoc _ _ _, ?_, startsWith_iff.mpr ⟨after, rfl⟩⟩
    rw [List.length_append]
    omega

/-- The comparison without case is the one of the small letters. -/
theorem containsAsciiNocase_iff {s needle : Text} :
    containsAsciiNocase s needle = true ↔ needle <:+: s.map tolower := by
  rw [← contains_iff]
  unfold containsAsciiNocase contains anyFrom startsWith
  simp only [List.length_map, List.map_take, List.map_drop]

theorem isIn_iff {needle s : Str} : isIn needle s = true ↔ needle <:+: s := by
  unfold isIn
  rw [List.any_eq_true]
  constructor
  · rintro ⟨i, -, hi⟩
    obtain ⟨after, hafter⟩ := List.isPrefixOf_iff_prefix.mp hi
    exact ⟨s.take i, after, by rw [List.append_assoc, hafter, List.take_append_drop]⟩
  · rintro ⟨before, after, rfl⟩
    refine ⟨before.length, ?_, ?_⟩
    · rw [List.mem_range, List.length_append, List.length_append]
      omega
    · rw [List.append_assoc, List.drop_left]
      exact List.isPrefixOf_iff_prefix.mpr (List.prefix_append _ _)

/-! ## Code points and bytes -/

/-- The code points of a string. -/
def Valid (s : Str) : Prop := ∀ c ∈ s, 0 < c ∧ c < 0x110000

def ascii (n : Nat) : Prop := n < 128

instance : DecidablePred ascii := fun n => inferInstanceAs (Decidable (n < 128))

theorem toUInt8_inj {m n : Nat} (hm : ascii m) (hn : ascii n) (h : m.toUInt8 = n.toUInt8) : m = n := by
  have hbytes := congrArg UInt8.toNat h
  unfold ascii at hm hn
  rwa [Tokenizer.toNat_toUInt8 (by omega), Tokenizer.toNat_toUInt8 (by omega)] at hbytes

theorem putCp_ascii {c : Nat} (h : c < 0x80) : putCp c = [c.toUInt8] := if_pos h

/-- A code point that is not ASCII has no ASCII byte. -/
theorem putCp_high {c : Nat} (hlow : 0x80 ≤ c) (hhigh : c < 0x110000) : ∀ b ∈ putCp c, 128 ≤ b.toNat := by
  have hcontinuation : ∀ n : Nat, 128 ≤ (0x80 + n % 64).toUInt8.toNat := by
    intro n
    rw [Tokenizer.toNat_toUInt8 (by omega)]
    omega
  unfold putCp
  rw [if_neg (by omega)]
  split
  · simp only [List.forall_mem_cons]
    refine ⟨?_, hcontinuation _, List.forall_mem_nil _⟩
    rw [Tokenizer.toNat_toUInt8 (by omega)]
    omega
  · split
    · simp only [List.forall_mem_cons]
      refine ⟨?_, hcontinuation _, hcontinuation _, List.forall_mem_nil _⟩
      rw [Tokenizer.toNat_toUInt8 (by omega)]
      omega
    · simp only [List.forall_mem_cons]
      refine ⟨?_, hcontinuation _, hcontinuation _, hcontinuation _, List.forall_mem_nil _⟩
      rw [Tokenizer.toNat_toUInt8 (by omega)]
      omega

theorem putCp_ne_nil (c : Nat) : putCp c ≠ [] := by
  unfold putCp
  split
  · exact List.cons_ne_nil _ _
  · split
    · exact List.cons_ne_nil _ _
    · split <;> exact List.cons_ne_nil _ _

/-- The bytes of a string and its code points, block for block. -/
theorem blocks_utf8 {s : Str} (h : Valid s) :
    List.Forall₂ (Blocks.Same ascii Nat.toUInt8 id) (s.map putCp) (s.map fun c => [c]) := by
  rw [List.forall₂_map_left_iff, List.forall₂_map_right_iff, List.forall₂_same]
  intro c hc
  by_cases hascii : c < 0x80
  · rw [putCp_ascii hascii]
    exact .letter (u := Nat.toUInt8) (v := id) c hascii
  · refine .other (putCp_ne_nil c) (List.cons_ne_nil _ _) ?_ ?_
    · intro n hn hmem
      have hbyte := putCp_high (Nat.not_lt.mp hascii) (h c hc).2 _ hmem
      unfold ascii at hn
      rw [Tokenizer.toNat_toUInt8 (by omega)] at hbyte
      omega
    · intro n hn hmem
      unfold ascii at hn
      rw [List.mem_singleton] at hmem
      exact hascii (hmem ▸ hn)

theorem flatten_singletons (s : Str) : (s.map fun c => [c]).flatten = s := by
  induction s with
  | nil => rfl
  | cons c s ih => rw [List.map_cons, List.flatten_cons, ih]; rfl

/-- Of the bytes of a code point only the first begins one. -/
theorem putCp_points {c : Nat} (h : c < 0x110000) : ∃ b tail, putCp c = b :: tail ∧
    beginsPoint b = true ∧ ∀ t ∈ tail, beginsPoint t = false := by
  obtain ⟨b, tail, hput, hfirst, htail, -⟩ :=
    Tokenizer.putCp_spec (Nat.lt_trans h (by decide))
  refine ⟨b, tail, hput, ?_, ?_⟩
  · rw [Bool.eq_false_iff, Ne, Tokenizer.isContinuation_iff] at hfirst
    exact decide_eq_true hfirst
  · intro t ht
    exact decide_eq_false (not_not.mpr (Tokenizer.isContinuation_iff.mp (htail t ht)))

theorem codePoints_eq {s : Str} (h : Valid s) : codePoints (encodeCps s) = s.length := by
  unfold codePoints
  induction s with
  | nil => rfl
  | cons c s ih =>
      obtain ⟨b, tail, hput, hfirst, htail⟩ := putCp_points (h c List.mem_cons_self).2
      have hnone : tail.countP beginsPoint = 0 :=
        List.countP_eq_zero.mpr fun t ht => by rw [htail t ht]; exact Bool.false_ne_true
      rw [Tokenizer.encodeCps_cons, hput, List.countP_append, List.countP_cons_of_pos hfirst, hnone,
        ih fun d hd => h d (List.mem_cons_of_mem c hd), List.length_cons]
      omega

theorem cut_tail {tail : Text} (h : ∀ t ∈ tail, beginsPoint t = false) (points : Nat) (s : Text) :
    cut points (tail ++ s) = tail ++ cut points s := by
  induction tail with
  | nil => rfl
  | cons t tail ih =>
      rw [List.cons_append, cut, h t List.mem_cons_self, if_neg Bool.false_ne_true,
        ih fun t' ht => h t' (List.mem_cons_of_mem t ht)]
      rfl

/-- The cut is behind as many code points as the slice has. -/
theorem cut_eq {s : Str} (h : Valid s) (points : Nat) :
    cut points (encodeCps s) = encodeCps (s.take (scanBytes - points)) := by
  induction s generalizing points with
  | nil => rw [List.take_nil]; rfl
  | cons c s ih =>
      obtain ⟨b, tail, hput, hfirst, htail⟩ := putCp_points (h c List.mem_cons_self).2
      rw [Tokenizer.encodeCps_cons, hput, List.cons_append, cut, hfirst, if_pos rfl]
      by_cases hlimit : scanBytes < points + 1
      · rw [if_pos hlimit, Nat.sub_eq_zero_of_le (by omega), List.take_zero]
        rfl
      · rw [if_neg hlimit, cut_tail htail, ih fun d hd => h d (List.mem_cons_of_mem c hd),
          show scanBytes - points = scanBytes - (points + 1) + 1 by omega, List.take_succ_cons,
          Tokenizer.encodeCps_cons, hput]
        rfl

/-! ## The failure flags -/

theorem contains_utf8 {s needle : Str} (hs : Valid s) (hneedle : ∀ c ∈ needle, ascii c) :
    contains (encodeCps s) (needle.map Nat.toUInt8) = true ↔ needle <:+: s := by
  have hiff := Blocks.infix_iff (u := Nat.toUInt8) (v := id) (fun _ _ => toUInt8_inj)
    (fun _ _ _ _ heq => heq) hneedle (blocks_utf8 hs)
  rw [flatten_singletons, List.map_id, ← List.flatMap_def] at hiff
  exact contains_iff.trans hiff

theorem matchesAt_iff {front : Str} {sets : List (Nat → Bool)} {s : Str} :
    matchesAt ((front.map fun c d => decide (d = c)) ++ sets) s = true ↔
      ∃ rest, s = front ++ rest ∧ matchesAt sets rest = true := by
  induction front generalizing s with
  | nil => exact ⟨fun h => ⟨s, rfl, h⟩, fun ⟨_, heq, h⟩ => heq ▸ h⟩
  | cons c front ih =>
      cases s with
      | nil => exact iff_of_false Bool.false_ne_true (by rintro ⟨rest, hrest, -⟩; cases hrest)
      | cons d s =>
          rw [List.map_cons, List.cons_append, matchesAt, Bool.and_eq_true, decide_eq_true_iff, ih]
          constructor
          · rintro ⟨rfl, rest, rfl, h⟩
            exact ⟨rest, rfl, h⟩
          · rintro ⟨rest, heq, h⟩
            obtain ⟨hhead, htail⟩ := List.cons_eq_cons.mp heq
            exact ⟨hhead, rest, htail, h⟩

/-- Some alternative matches at some place. -/
theorem search_iff {s : Str} :
    search s = true ↔ ∃ sets ∈ fail, ∃ before rest, s = before ++ rest ∧ matchesAt sets rest = true := by
  unfold search
  simp only [List.any_eq_true, List.mem_range]
  constructor
  · rintro ⟨i, -, sets, hsets, h⟩
    exact ⟨sets, hsets, s.take i, s.drop i, (List.take_append_drop i s).symm, h⟩
  · rintro ⟨sets, hsets, before, rest, rfl, h⟩
    refine ⟨before.length, ?_, sets, hsets, by rw [List.drop_left]; exact h⟩
    rw [List.length_append]
    omega

/-- A literal is found where its characters are. -/
theorem literal_iff {front s : Str} :
    (∃ before rest, s = before ++ rest ∧ matchesAt (front.map fun c d => decide (d = c)) rest = true) ↔
      front <:+: s := by
  constructor
  · rintro ⟨before, rest, rfl, h⟩
    rw [← List.append_nil (front.map _), matchesAt_iff] at h
    obtain ⟨after, rfl, -⟩ := h
    exact ⟨before, after, List.append_assoc _ _ _⟩
  · rintro ⟨before, after, rfl⟩
    refine ⟨before, front ++ after, List.append_assoc _ _ _, ?_⟩
    rw [← List.append_nil (front.map _), matchesAt_iff]
    exact ⟨after, rfl, rfl⟩

/-- A literal and a set behind it. -/
theorem literal_then_iff {front s : Str} {set : Nat → Bool} :
    (∃ before rest, s = before ++ rest ∧
      matchesAt ((front.map fun c d => decide (d = c)) ++ [set]) rest = true) ↔
      ∃ before c after, s = before ++ (front ++ c :: after) ∧ set c = true := by
  constructor
  · rintro ⟨before, rest, rfl, h⟩
    obtain ⟨after, rfl, hset⟩ := matchesAt_iff.mp h
    cases after with
    | nil => cases hset
    | cons c after =>
        rw [matchesAt, Bool.and_eq_true] at hset
        exact ⟨before, c, after, rfl, hset.1⟩
  · rintro ⟨before, c, after, rfl, hset⟩
    refine ⟨before, front ++ c :: after, rfl, matchesAt_iff.mpr ⟨c :: after, rfl, ?_⟩⟩
    rw [matchesAt, hset]
    rfl

/-- A text and a byte behind it. -/
theorem anyFrom_then_iff (front s : Text) (set : Byte → Bool) :
    anyFrom (front.length + 1) (fun t => startsWith front t && set (t.getD front.length 0)) s = true ↔
      ∃ before b after, s = before ++ (front ++ b :: after) ∧ set b = true := by
  rw [anyFrom_iff]
  constructor
  · rintro ⟨before, rest, rfl, hlength, hq⟩
    rw [Bool.and_eq_true, startsWith_iff] at hq
    obtain ⟨⟨after, rfl⟩, hset⟩ := hq
    cases after with
    | nil =>
        rw [List.append_nil] at hlength
        omega
    | cons b after =>
        rw [List.getD_append_right _ _ _ _ le_rfl, Nat.sub_self, List.getD_cons_zero] at hset
        exact ⟨before, b, after, rfl, hset⟩
  · rintro ⟨before, b, after, rfl, hset⟩
    refine ⟨before, front ++ b :: after, rfl, ?_, ?_⟩
    · rw [List.length_append, List.length_cons]
      omega
    · rw [List.getD_append_right _ _ _ _ le_rfl, Nat.sub_self, List.getD_cons_zero, hset,
        Bool.and_true]
      exact startsWith_iff.mpr ⟨_, rfl⟩

theorem exitCode_utf8 {s front : Str} (hs : Valid s) (hfront : ∀ c ∈ front, ascii c) :
    (∃ before b after, encodeCps s = before ++ (front.map Nat.toUInt8 ++ b :: after) ∧
      decide (49 ≤ b ∧ b ≤ 57) = true) ↔
      ∃ before c after, s = before ++ (front ++ c :: after) ∧ decide (49 ≤ c ∧ c ≤ 57) = true := by
  have hdigit : ∀ c : Nat, 49 ≤ c ∧ c ≤ 57 → ((front ++ [c]).map Nat.toUInt8 <:+: encodeCps s ↔
      front ++ [c] <:+: s) := by
    intro c hc
    rw [← contains_iff]
    apply contains_utf8 hs
    intro d hd
    rcases List.mem_append.mp hd with hd | hd
    · exact hfront d hd
    · rw [List.mem_singleton.mp hd]
      unfold ascii
      omega
  constructor
  · rintro ⟨before, b, after, heq, hb⟩
    have hb : 49 ≤ b.toNat ∧ b.toNat ≤ 57 := by
      rw [decide_eq_true_eq, UInt8.le_iff_toNat_le, UInt8.le_iff_toNat_le] at hb
      exact hb
    have hbyte : b.toNat.toUInt8 = b := UInt8.ofNat_toNat
    obtain ⟨before', after', hfound⟩ := (hdigit b.toNat hb).mp ⟨before, after, by
      rw [heq, List.map_append, List.map_singleton, hbyte]
      simp⟩
    refine ⟨before', b.toNat, after', ?_, decide_eq_true hb⟩
    rw [← hfound]
    simp
  · rintro ⟨before, c, after, heq, hc⟩
    have hc := of_decide_eq_true hc
    obtain ⟨before', after', hfound⟩ := (hdigit c hc).mpr ⟨before, after, by rw [heq]; simp⟩
    refine ⟨before', c.toUInt8, after', ?_, ?_⟩
    · rw [← hfound]
      simp
    · rw [decide_eq_true_eq, UInt8.le_iff_toNat_le, UInt8.le_iff_toNat_le,
        Tokenizer.toNat_toUInt8 (by omega)]
      exact hc

theorem error_utf8 {s front : Str} (hs : Valid s) (hne : front ≠ []) (hfront : ∀ c ∈ front, ascii c) :
    (∃ before b after, encodeCps s = before ++ (front.map Nat.toUInt8 ++ b :: after) ∧
      decide (b ≠ 34) = true) ↔
      ∃ before c after, s = before ++ (front ++ c :: after) ∧ decide (c ≠ 34) = true := by
  have hquote : ascii 34 := by
    unfold ascii
    decide
  have hiff := Blocks.followed_iff (u := Nat.toUInt8) (v := id) (fun _ _ => toUInt8_inj)
    (fun _ _ _ _ heq => heq) hne hfront hquote (blocks_utf8 hs)
  rw [flatten_singletons, List.map_id, ← List.flatMap_def] at hiff
  simp only [decide_eq_true_eq]
  exact hiff

theorem text_eq (s : String) : text s = (str s).map Nat.toUInt8 := by
  unfold text str
  rw [List.map_map]
  rfl

section

variable {s : Str} (h : Valid s)

include h

theorem plain_utf8 (t : String) (ht : ∀ c ∈ str t, ascii c) : contains (encodeCps s) (text t) = true ↔
    ∃ before rest, s = before ++ rest ∧ matchesAt (literal t) rest = true := by
  rw [text_eq, contains_utf8 h ht]
  exact literal_iff.symm

theorem exitCode_search : anyFrom (exitCode.length + 1) (fun t => startsWith exitCode t &&
      49 ≤ t.getD exitCode.length 0 && t.getD exitCode.length 0 ≤ 57) (encodeCps s) = true ↔
    ∃ before rest, s = before ++ rest ∧
      matchesAt (literal "\"exit_code\": " ++ [fun c => decide (49 ≤ c ∧ c ≤ 57)]) rest = true := by
  have hset : (fun t : Text => startsWith exitCode t && 49 ≤ t.getD exitCode.length 0 &&
      t.getD exitCode.length 0 ≤ 57) =
      fun t => startsWith exitCode t && decide (49 ≤ t.getD exitCode.length 0 ∧
        t.getD exitCode.length 0 ≤ 57) := by
    funext t
    rw [Bool.and_assoc, Bool.decide_and]
  unfold literal
  rw [literal_then_iff, hset, anyFrom_then_iff exitCode _ fun b => decide (49 ≤ b ∧ b ≤ 57),
    show exitCode = _ from text_eq "\"exit_code\": "]
  exact exitCode_utf8 h (by decide)

theorem error_search : anyFrom (error.length + 1) (fun t => startsWith error t &&
      t.getD error.length 0 ≠ 34) (encodeCps s) = true ↔
    ∃ before rest, s = before ++ rest ∧
      matchesAt (literal "\"error\": \"" ++ [fun c => decide (c ≠ 34)]) rest = true := by
  unfold literal
  rw [literal_then_iff, anyFrom_then_iff error _ fun b => decide (b ≠ 34),
    show error = _ from text_eq "\"error\": \""]
  exact error_utf8 h (by decide) (by decide)

/-- A result is a failure in the bytes exactly when it is in the code points. -/
theorem failed_eq : failed (encodeCps s) = isFailure s := by
  unfold failed isFailure
  rw [cut_eq h]
  have hslice : Valid (s.take 8000) := fun c hc => h c (List.mem_of_mem_take hc)
  dsimp only
  rw [show scanBytes - 0 = 8000 from rfl, Bool.eq_iff_iff, search_iff, Bool.or_eq_true,
    Bool.or_eq_true, exitCode_search hslice, error_search hslice]
  unfold plain fail
  simp only [List.any_cons, List.any_nil, Bool.or_false, Bool.or_eq_true, List.mem_cons,
    List.not_mem_nil, or_false, exists_eq_or_imp, exists_eq_left]
  rw [plain_utf8 hslice "Traceback (most recent call last)" (by decide),
    plain_utf8 hslice "FAILED" (by decide), plain_utf8 hslice "ERROR:" (by decide),
    plain_utf8 hslice "Error:" (by decide), plain_utf8 hslice "AssertionError" (by decide),
    plain_utf8 hslice "\"success\": false" (by decide)]
  -- the two that end in a set come last here, and in the order of the expression there
  have horder : ∀ a b c d e f g h : Prop, ((a ∨ b ∨ c ∨ d ∨ e ∨ f) ∨ g) ∨ h ↔
      a ∨ b ∨ c ∨ d ∨ e ∨ g ∨ f ∨ h := by
    intros
    tauto
  exact horder _ _ _ _ _ _ _ _

end

/-! ## Small letters -/

/-- The ASCII characters that only ASCII characters have as small letters. -/
def plainLetter (n : Nat) : Prop := n < 128 ∧ n ≠ 105 ∧ n ≠ 107

instance : DecidablePred plainLetter := fun n =>
  inferInstanceAs (Decidable (n < 128 ∧ n ≠ 105 ∧ n ≠ 107))

theorem tolower_ascii {c : Nat} (h : c < 128) : (tolower c.toUInt8).toNat < 128 := by
  have hbyte : c.toUInt8.toNat = c := Tokenizer.toNat_toUInt8 (by omega)
  unfold tolower
  split
  next hupper =>
    simp only [Bool.and_eq_true, decide_eq_true_eq, UInt8.le_iff_toNat_le, hbyte] at hupper
    have hbounds : 65 ≤ c ∧ c ≤ 90 := hupper
    rw [UInt8.toNat_add, hbyte, show (32 : UInt8).toNat = 32 from rfl]
    omega
  · rw [hbyte]
    exact h

theorem tolower_high {b : Byte} (h : 128 ≤ b.toNat) : tolower b = b := by
  unfold tolower
  rw [if_neg]
  simp only [Bool.and_eq_true, decide_eq_true_eq, UInt8.le_iff_toNat_le, not_and, not_le]
  intro _
  exact Nat.lt_of_lt_of_le (by decide) h

/-- The small letters of the bytes and of the characters, block for block. -/
theorem blocks_lower {s : Str} {parts : List Str} (hvalid : Valid s)
    (h : List.Forall₂ (fun c part => if c < 128 then part = [(tolower c.toUInt8).toNat]
      else part ≠ [] ∧ ∀ d ∈ part, 128 ≤ d ∨ d = 105 ∨ d = 107) s parts) :
    List.Forall₂ (Blocks.Same plainLetter Nat.toUInt8 id)
      (s.map fun c => (putCp c).map tolower) parts := by
  induction h with
  | nil => exact .nil
  | @cons c part s parts hpart hrest ih =>
      rw [List.map_cons]
      refine .cons ?_ (ih fun d hd => hvalid d (List.mem_cons_of_mem c hd))
      by_cases hascii : c < 128
      · rw [if_pos hascii] at hpart
        obtain ⟨n, hn, hbyte⟩ : ∃ n, n < 128 ∧ tolower c.toUInt8 = n.toUInt8 :=
          ⟨_, tolower_ascii hascii, UInt8.ofNat_toNat.symm⟩
        rw [putCp_ascii hascii, List.map_singleton, hpart, hbyte, Tokenizer.toNat_toUInt8 (by omega)]
        by_cases hletter : plainLetter n
        · exact .letter (u := Nat.toUInt8) (v := id) n hletter
        · refine .other (List.cons_ne_nil _ _) (List.cons_ne_nil _ _) ?_ ?_
          · intro m hm hmem
            rw [List.mem_singleton] at hmem
            exact hletter (toUInt8_inj hm.1 hn hmem ▸ hm)
          · intro m hm hmem
            rw [List.mem_singleton] at hmem
            exact hletter (hmem ▸ hm)
      · rw [if_neg hascii] at hpart
        have hbytes := putCp_high (Nat.not_lt.mp hascii) (hvalid c List.mem_cons_self).2
        refine .other (mt List.map_eq_nil_iff.mp (putCp_ne_nil c)) hpart.1 ?_ ?_
        · intro n hn hmem
          obtain ⟨b, hb, heq⟩ := List.mem_map.mp hmem
          have hhigh := hbytes b hb
          have hlow := hn.1
          rw [tolower_high hhigh] at heq
          rw [heq, Tokenizer.toNat_toUInt8 (by omega)] at hhigh
          omega
        · intro n hn hmem
          have hn' := hn
          unfold plainLetter at hn'
          have hd := hpart.2 _ hmem
          simp only [id] at hd
          omega

theorem nocase_eq {lower : Str → Str} (hlower : PythonLower lower) {s : Str} (hvalid : Valid s)
    (t : String) (ht : ∀ c ∈ str t, plainLetter c) :
    containsAsciiNocase (encodeCps s) (text t) = isIn (str t) (lower s) := by
  obtain ⟨parts, hparts, hblocks⟩ := hlower s
  have hiff := Blocks.infix_iff (u := Nat.toUInt8) (v := id)
    (fun _ _ hm hn => toUInt8_inj hm.1 hn.1) (fun _ _ _ _ heq => heq) ht
    (blocks_lower hvalid hblocks)
  rw [List.map_id, ← hparts, ← List.flatMap_def, ← List.map_flatMap, ← text_eq] at hiff
  rw [Bool.eq_iff_iff, containsAsciiNocase_iff, isIn_iff]
  exact hiff

end Recursant.Efficiency
