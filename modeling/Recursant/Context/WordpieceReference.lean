import Mathlib.Data.List.GetD
import Recursant.Context.Wordpiece

/-!
# The staged tokenizer

What the pass has to compute, one stage after another: clean, fold, isolate, split, match, truncate.
-/

namespace Recursant.Tokenizer

/-! ## The stages -/

def inAny (r : List (Nat × Nat)) (cp : Nat) : Bool := r.any fun e => e.1 ≤ cp && cp ≤ e.2

def decode : Nat → Text → List Nat
  | 0, _ => []
  | _, [] => []
  | steps + 1, b :: bytes => (nextCp b bytes).1 :: decode steps (nextCp b bytes).2

/-- The code points of a text; what is no UTF-8 gives U+FFFD. -/
def codePoints (t : Text) : List Nat := decode t.length t

/-- Control characters go, and white space becomes a blank. -/
def clean (T : Tables) (cps : List Nat) : List Nat :=
  (cps.filter fun c => !inAny T.removed c).map fun c => if inAny wpSpace c then 32 else c

/-- Without accents and in lower case; Hangul is decomposed. -/
def fold (T : Tables) (c : Nat) : List Nat :=
  if 0xAC00 ≤ c ∧ c ≤ 0xD7A3 then codePoints (jamo c)
  else
    match T.fold.lookup c with
    | some f => codePoints f
    | none => [c]

def isolate (c : Nat) : List Nat := if isCjk c then [32, c, 32] else [c]

def normalize (T : Tables) (cps : List Nat) : List Nat :=
  ((clean T cps).flatMap (fold T)).flatMap isolate

/-- A word that has begun. -/
def begun (word : List Nat) : List (List Nat) := if word = [] then [] else [word]

/-- Words end at white space, and punctuation characters are words. -/
def split (T : Tables) (word : List Nat) : List Nat → List (List Nat)
  | [] => begun word
  | c :: cps =>
      if inAny wpSpace c then begun word ++ split T [] cps
      else if inAny T.punct c then begun word ++ [c] :: split T [] cps
      else split T (word ++ [c]) cps

def encodeCps (cps : List Nat) : Text := cps.flatMap putCp

/-- The first line with the key. -/
def idOf (keys : List Text) (s : Text) : Option Nat := keys.zipIdx.lookup s

/-- The longest of the first pieces of a word that is in the vocabulary, with its length. -/
def longest (keys : List Text) (mark : Text) (word : List Nat) : Nat → Option (Nat × Nat)
  | 0 => none
  | n + 1 =>
      match idOf keys (mark ++ encodeCps (word.take (n + 1))) with
      | some id => some (id, n + 1)
      | none => longest keys mark word n

/-- The longest piece, and so on with the rest of the word behind two number signs. -/
def greedy (keys : List Text) : Nat → Text → List Nat → Option (List Nat)
  | _, _, [] => some []
  | 0, _, _ => none
  | steps + 1, mark, word =>
      match longest keys mark word word.length with
      | none => none
      | some (id, n) => (greedy keys steps [35, 35] (word.drop n)).map (id :: ·)

/-- A word that does not decompose, or is too long, is unknown. -/
def wordIds (keys : List Text) (unk : Nat) (word : List Nat) : List Nat :=
  if maxWordChars < word.length then [unk] else (greedy keys word.length [] word).getD [unk]

def staged (T : Tables) (wp : Wordpiece) (text : Text) (maxIds : Nat) : List Nat :=
  if maxIds < 2 then []
  else
    let words := split T [] (normalize T (codePoints text))
    wp.cls :: (words.flatMap (wordIds wp.vocab.keys wp.unk)).take (maxIds - 2) ++ [wp.sep]

/-! ## The tables and the vocabulary -/

/-- What holds of the generated tables: they are sorted, folds are UTF-8, no white space is folded,
and a fold is an ideograph exactly for an ideograph, and then one character. -/
structure Tables.Sound (T : Tables) : Prop where
  removed : T.removed.Pairwise fun a b => a.2 < b.1
  punct : T.punct.Pairwise fun a b => a.2 < b.1
  removedLow : ∀ e ∈ T.removed, e.1 ≤ e.2
  punctLow : ∀ e ∈ T.punct, e.1 ≤ e.2
  fold : T.fold.Pairwise fun a b => a.1 < b.1
  folds : ∀ e ∈ T.fold, ∃ cps, e.2 = encodeCps cps ∧ (∀ c ∈ cps, c < 0x110000) ∧
    if isCjk e.1 then ∃ c, cps = [c] ∧ isCjk c = true else ∀ c ∈ cps, isCjk c = false
  space : ∀ e ∈ T.fold, inAny wpSpace e.1 = false

theorem sideOf_eq {low high cp : Nat} : sideOf low high cp = .eq ↔ low ≤ cp ∧ cp ≤ high := by
  unfold sideOf
  by_cases hlow : cp < low
  · rw [if_pos hlow]
    exact iff_of_false nofun (by omega)
  · rw [if_neg hlow]
    by_cases hhigh : high < cp
    · rw [if_pos hhigh]
      exact iff_of_false nofun (by omega)
    · rw [if_neg hhigh]
      exact iff_of_true rfl (by omega)

theorem sideOf_lt {low high cp : Nat} : sideOf low high cp = .lt ↔ cp < low := by
  unfold sideOf
  by_cases hlow : cp < low
  · rw [if_pos hlow]
    exact iff_of_true rfl hlow
  · rw [if_neg hlow]
    refine iff_of_false ?_ hlow
    split <;> exact nofun

theorem sideOf_gt {low high cp : Nat} (h : low ≤ high) : sideOf low high cp = .gt ↔ high < cp := by
  unfold sideOf
  by_cases hlow : cp < low
  · rw [if_pos hlow]
    exact iff_of_false nofun (by omega)
  · rw [if_neg hlow]
    by_cases hhigh : high < cp
    · rw [if_pos hhigh]
      exact iff_of_true rfl hhigh
    · rw [if_neg hhigh]
      exact iff_of_false nofun hhigh

/-- Ranges that are sorted and apart are an order for a bisection. -/
theorem ordered_of_pairwise {α : Type} {r : List α} {low high : α → Nat} {d : α}
    (hsorted : r.Pairwise fun a b => high a < low b) (hlow : ∀ e ∈ r, low e ≤ high e) (cp : Nat) :
    Bisection.Ordered (fun i => sideOf (low (r.getD i d)) (high (r.getD i d)) cp) r.length := by
  have hle : ∀ i, i < r.length → low (r.getD i d) ≤ high (r.getD i d) := by
    intro i hi
    rw [List.getD_eq_getElem _ _ hi]
    exact hlow _ (List.getElem_mem hi)
  have hlt : ∀ i j, i < j → j < r.length → high (r.getD i d) < low (r.getD j d) := by
    intro i j hij hj
    rw [List.getD_eq_getElem _ _ hj, List.getD_eq_getElem _ _ (hij.trans hj)]
    exact List.pairwise_iff_getElem.mp hsorted i j (hij.trans hj) hj hij
  constructor
  · intro i j hij hj hside
    rw [sideOf_lt] at hside ⊢
    rcases Nat.lt_or_eq_of_le hij with hij | rfl
    · have hi := hle i (hij.trans hj)
      have hbetween := hlt i j hij hj
      omega
    · exact hside
  · intro i j hij hj hside
    rw [sideOf_gt (hle j hj)] at hside
    rw [sideOf_gt (hle i (Nat.lt_of_le_of_lt hij hj))]
    rcases Nat.lt_or_eq_of_le hij with hij | rfl
    · have hj' := hle j hj
      have hbetween := hlt i j hij hj
      omega
    · exact hside

theorem inRanges_eq {r : List (Nat × Nat)} (hsorted : r.Pairwise fun a b => a.2 < b.1)
    (hlow : ∀ e ∈ r, e.1 ≤ e.2) (cp : Nat) : inRanges r cp = inAny r cp := by
  unfold inRanges inAny
  rw [Bool.eq_iff_iff, Bisection.isSome_bisect (ordered_of_pairwise hsorted hlow cp),
    List.any_eq_true]
  constructor
  · rintro ⟨i, hi, hside⟩
    rw [List.getD_eq_getElem _ _ hi, sideOf_eq] at hside
    exact ⟨r[i], List.getElem_mem hi, by simpa using hside⟩
  · rintro ⟨e, he, hcp⟩
    obtain ⟨i, hi, rfl⟩ := List.getElem_of_mem he
    refine ⟨i, hi, ?_⟩
    rw [List.getD_eq_getElem _ _ hi, sideOf_eq]
    simpa using hcp

theorem folded_eq {fold : List (Nat × Text)} (hsorted : fold.Pairwise fun a b => a.1 < b.1)
    (cp : Nat) : folded fold cp = fold.lookup cp := by
  have hordered := @ordered_of_pairwise _ fold Prod.fst Prod.fst (0, []) hsorted
    (fun e _ => le_rfl) cp
  unfold folded
  cases hbisect : Bisection.bisect
    (fun i => sideOf (fold.getD i (0, [])).1 (fold.getD i (0, [])).1 cp) (fold.length + 1) 0
    fold.length with
  | none =>
      symm
      rw [Option.map_none, List.lookup_eq_none_iff]
      intro e he
      obtain ⟨i, hi, rfl⟩ := List.getElem_of_mem he
      have hmissing := mt (Bisection.isSome_bisect hordered).mpr (by rw [hbisect]; exact nofun)
      rw [bne_iff_ne]
      intro hcp
      refine hmissing ⟨i, hi, ?_⟩
      rw [List.getD_eq_getElem _ _ hi, sideOf_eq]
      exact ⟨hcp.ge, hcp.le⟩
  | some i =>
      obtain ⟨-, hi, hside⟩ := Bisection.bisect_sound hbisect
      rw [List.getD_eq_getElem _ _ hi, sideOf_eq] at hside
      have hcp : fold[i].1 = cp := le_antisymm hside.1 hside.2
      have hsplit : fold = fold.take i ++ fold[i] :: fold.drop (i + 1) := by
        rw [← List.drop_eq_getElem_cons hi, List.take_append_drop]
      rw [Option.map_some, List.getD_eq_getElem _ _ hi]
      symm
      rw [List.lookup_eq_some_iff]
      refine ⟨fold.take i, fold.drop (i + 1), ?_, ?_⟩
      · rw [← hcp]
        exact hsplit
      · intro p hp
        rw [hsplit, List.pairwise_append] at hsorted
        have hlt := hsorted.2.2 p hp fold[i] List.mem_cons_self
        rw [bne_iff_ne]
        omega

/-! ## Encoding and decoding -/

theorem toNat_toUInt8 {n : Nat} (h : n < 256) : n.toUInt8.toNat = n := by
  rw [Nat.toUInt8, UInt8.toNat_ofNat']
  omega

theorem need_spec {b : Byte} : (b.toNat < 128 → need b = 0) ∧
    (192 ≤ b.toNat → b.toNat < 224 → need b = 1) ∧ (224 ≤ b.toNat → b.toNat < 240 → need b = 2) ∧
    (240 ≤ b.toNat → b.toNat < 248 → need b = 3) := by
  have hlt : b < 0x80 ↔ b.toNat < 128 := UInt8.lt_iff_toNat_lt
  unfold need
  simp only [hlt]
  refine ⟨?_, ?_, ?_, ?_⟩
  · intro h
    rw [if_pos h]
  · intro h k
    rw [if_neg (by omega), if_pos (by omega)]
  · intro h k
    rw [if_neg (by omega), if_neg (by omega), if_pos (by omega)]
  · intro h k
    rw [if_neg (by omega), if_neg (by omega), if_neg (by omega), if_pos (by omega)]

theorem isContinuation_iff {b : Byte} : isContinuation b = true ↔ b.toNat / 64 = 2 :=
  decide_eq_true_iff

theorem continuation (n : Nat) : isContinuation (0x80 + n % 64).toUInt8 = true ∧
    (0x80 + n % 64).toUInt8.toNat % 64 = n % 64 := by
  have hbyte : (0x80 + n % 64).toUInt8.toNat = 0x80 + n % 64 := toNat_toUInt8 (by omega)
  rw [isContinuation_iff, hbyte]
  omega

/-- A code point is a first byte and its continuation, and is read back as it is. -/
theorem putCp_spec {c : Nat} (h : c < 0x200000) : ∃ b tail, putCp c = b :: tail ∧
    isContinuation b = false ∧ (∀ t ∈ tail, isContinuation t = true) ∧
    ∀ rest, nextCp b (tail ++ rest) = (c, rest) := by
  have hread : ∀ (b : Byte) (tail rest : Text), need b = tail.length → need b ≠ 9 →
      (∀ t ∈ tail, isContinuation t = true) → nextCp b (tail ++ rest) =
        (tail.foldl (fun cp b => cp * 64 + b.toNat % 64)
          (if need b = 0 then b.toNat else b.toNat % 2 ^ (6 - need b)), rest) := by
    intro b tail rest hneed hnine htail
    unfold nextCp
    rw [if_neg, hneed, List.take_left, List.drop_left, if_pos (List.all_eq_true.mpr htail)]
    rw [not_or, List.length_append]
    exact ⟨hnine, by omega⟩
  have hfirst : ∀ b : Byte, b.toNat / 64 ≠ 2 → isContinuation b = false := by
    intro b hb
    rw [Bool.eq_false_iff, Ne, isContinuation_iff]
    exact hb
  unfold putCp
  by_cases h1 : c < 0x80
  · have hb : c.toUInt8.toNat = c := toNat_toUInt8 (by omega)
    have hneed := need_spec.1 (by omega : c.toUInt8.toNat < 128)
    rw [if_pos h1]
    have htail : ∀ t ∈ ([] : Text), isContinuation t = true := List.forall_mem_nil _
    refine ⟨_, _, rfl, hfirst _ (by omega), htail, ?_⟩
    intro rest
    rw [hread _ _ _ hneed (by omega) htail, hneed, if_pos rfl, List.foldl_nil, hb]
  rw [if_neg h1]
  by_cases h2 : c < 0x800
  · have hb : (0xC0 + c / 64).toUInt8.toNat = 0xC0 + c / 64 := toNat_toUInt8 (by omega)
    have hneed := need_spec.2.1 (by omega : 192 ≤ (0xC0 + c / 64).toUInt8.toNat) (by omega)
    have htail : ∀ t ∈ [(0x80 + c % 64).toUInt8], isContinuation t = true :=
      List.forall_mem_singleton.mpr (continuation c).1
    rw [if_pos h2]
    refine ⟨_, _, rfl, hfirst _ (by omega), htail, ?_⟩
    intro rest
    rw [hread _ _ _ hneed (by omega) htail, hneed, if_neg (by decide), hb]
    simp only [List.foldl_cons, List.foldl_nil, continuation]
    congr 1
    omega
  rw [if_neg h2]
  by_cases h3 : c < 0x10000
  · have hb : (0xE0 + c / 4096).toUInt8.toNat = 0xE0 + c / 4096 := toNat_toUInt8 (by omega)
    have hneed := need_spec.2.2.1 (by omega : 224 ≤ (0xE0 + c / 4096).toUInt8.toNat) (by omega)
    have htail : ∀ t ∈ [(0x80 + c / 64 % 64).toUInt8, (0x80 + c % 64).toUInt8],
        isContinuation t = true :=
      List.forall_mem_cons.mpr ⟨(continuation _).1, List.forall_mem_singleton.mpr (continuation c).1⟩
    rw [if_pos h3]
    refine ⟨_, _, rfl, hfirst _ (by omega), htail, ?_⟩
    intro rest
    rw [hread _ _ _ hneed (by omega) htail, hneed, if_neg (by decide), hb]
    simp only [List.foldl_cons, List.foldl_nil, continuation]
    congr 1
    omega
  · have hb : (0xF0 + c / 262144).toUInt8.toNat = 0xF0 + c / 262144 := toNat_toUInt8 (by omega)
    have hneed := need_spec.2.2.2 (by omega : 240 ≤ (0xF0 + c / 262144).toUInt8.toNat) (by omega)
    have htail : ∀ t ∈ [(0x80 + c / 4096 % 64).toUInt8, (0x80 + c / 64 % 64).toUInt8,
        (0x80 + c % 64).toUInt8], isContinuation t = true :=
      List.forall_mem_cons.mpr ⟨(continuation _).1, List.forall_mem_cons.mpr
        ⟨(continuation _).1, List.forall_mem_singleton.mpr (continuation c).1⟩⟩
    rw [if_neg h3]
    refine ⟨_, _, rfl, hfirst _ (by omega), htail, ?_⟩
    intro rest
    rw [hread _ _ _ hneed (by omega) htail, hneed, if_neg (by decide), hb]
    simp only [List.foldl_cons, List.foldl_nil, continuation]
    congr 1
    omega

/-- What is left is less than there was. -/
theorem nextCp_length (b : Byte) (bytes : Text) : (nextCp b bytes).2.length ≤ bytes.length := by
  unfold nextCp
  split
  · exact le_rfl
  · split
    · rw [List.length_drop]
      omega
    · exact le_rfl

theorem foldl_continuation_lt (tail : Text) (first : Nat) :
    tail.foldl (fun cp b => cp * 64 + b.toNat % 64) first < (first + 1) * 64 ^ tail.length := by
  induction tail generalizing first with
  | nil => simp
  | cons b tail ih =>
      have hstep := ih (first * 64 + b.toNat % 64)
      rw [List.foldl_cons, List.length_cons, Nat.pow_succ, Nat.mul_comm (64 ^ tail.length) 64,
        ← Nat.mul_assoc]
      exact lt_of_lt_of_le hstep (Nat.mul_le_mul_right _ (by omega))

theorem need_cases (b : Byte) : need b = 9 ∨ (need b = 0 ∧ b.toNat < 128) ∨ need b = 1 ∨
    need b = 2 ∨ need b = 3 := by
  unfold need
  split
  next hlow => exact .inr (.inl ⟨rfl, UInt8.lt_iff_toNat_lt.mp hlow⟩)
  · split
    · exact .inr (.inr (.inl rfl))
    · split
      · exact .inr (.inr (.inr (.inl rfl)))
      · split
        · exact .inr (.inr (.inr (.inr rfl)))
        · exact .inl rfl

/-- What is decoded has 21 bits. -/
theorem nextCp_lt (b : Byte) (bytes : Text) : (nextCp b bytes).1 < 0x200000 := by
  have hreplacement : 0xFFFD < 0x200000 := by decide
  unfold nextCp
  split
  · exact hreplacement
  next hneed =>
    split
    · rw [not_or, not_lt] at hneed
      dsimp only
      have hlt := foldl_continuation_lt (bytes.take (need b))
        (if need b = 0 then b.toNat else b.toNat % 2 ^ (6 - need b))
      rw [List.length_take, Nat.min_eq_left hneed.2] at hlt
      refine lt_of_lt_of_le hlt ?_
      rcases need_cases b with h | ⟨h, hlow⟩ | h | h | h
      · exact absurd h hneed.1
      · rw [h, if_pos rfl]
        omega
      · rw [h, if_neg (by decide)]
        omega
      · rw [h, if_neg (by decide)]
        omega
      · rw [h, if_neg (by decide)]
        omega
    · exact hreplacement

theorem encodeCps_cons (c : Nat) (cps : List Nat) :
    encodeCps (c :: cps) = putCp c ++ encodeCps cps := List.flatMap_cons

theorem encodeCps_append (a b : List Nat) : encodeCps (a ++ b) = encodeCps a ++ encodeCps b :=
  List.flatMap_append

theorem length_le_encodeCps {cps : List Nat} (h : ∀ c ∈ cps, c < 0x200000) :
    cps.length ≤ (encodeCps cps).length := by
  induction cps with
  | nil => exact le_rfl
  | cons c cps ih =>
      obtain ⟨b, tail, hput, -⟩ := putCp_spec (h c List.mem_cons_self)
      have hrest := ih fun d hd => h d (List.mem_cons_of_mem c hd)
      rw [encodeCps_cons, List.length_append, List.length_cons, hput, List.length_cons]
      omega

theorem decode_encode {cps : List Nat} (h : ∀ c ∈ cps, c < 0x200000) {steps : Nat}
    (hsteps : cps.length ≤ steps) : decode steps (encodeCps cps) = cps := by
  induction cps generalizing steps with
  | nil => cases steps <;> rfl
  | cons c cps ih =>
      obtain ⟨b, tail, hput, -, -, hread⟩ := putCp_spec (h c List.mem_cons_self)
      obtain ⟨steps, rfl⟩ := Nat.exists_eq_succ_of_ne_zero
        (Nat.ne_of_gt (Nat.lt_of_lt_of_le (Nat.succ_pos _) hsteps))
      rw [encodeCps_cons, hput, List.cons_append, decode, hread,
        ih (fun d hd => h d (List.mem_cons_of_mem c hd)) (Nat.le_of_succ_le_succ hsteps)]

theorem codePoints_encode {cps : List Nat} (h : ∀ c ∈ cps, c < 0x200000) :
    codePoints (encodeCps cps) = cps := decode_encode h (length_le_encodeCps h)

/-! ## One code point through the stages -/

/-- What the stages in front of the split make of one code point. -/
def stage (T : Tables) (cp : Nat) : List Nat :=
  if inAny T.removed cp then []
  else (fold T (if inAny wpSpace cp then 32 else cp)).flatMap isolate

theorem normalize_eq (T : Tables) (cps : List Nat) : normalize T cps = cps.flatMap (stage T) := by
  unfold normalize clean
  induction cps with
  | nil => rfl
  | cons c cps ih =>
      rw [List.flatMap_cons, ← ih]
      by_cases hremoved : inAny T.removed c = true
      · rw [List.filter_cons_of_neg (by rw [hremoved]; decide)]
        unfold stage
        rw [if_pos hremoved, List.nil_append]
      · rw [List.filter_cons_of_pos (by simp [hremoved]), List.map_cons, List.flatMap_cons,
          List.flatMap_append]
        unfold stage
        rw [if_neg hremoved]

/-- What the pass makes of one code point: an ideograph is not folded. -/
def passed (T : Tables) (cp : Nat) : List Nat :=
  if inAny T.removed cp then []
  else if inAny wpSpace cp then [32]
  else if isCjk cp then [32, cp, 32]
  else fold T cp

/-- An ideograph of the text that the stages fold to another. -/
def Compatibility (T : Tables) (cp : Nat) (f : Text) : Prop :=
  inAny T.removed cp = false ∧ inAny wpSpace cp = false ∧ isCjk cp = true ∧ T.fold.lookup cp = some f

theorem isCjk_bounds {cp : Nat} (h : isCjk cp = true) :
    ¬ (0xAC00 ≤ cp ∧ cp ≤ 0xD7A3) ∧ 0x3400 ≤ cp := by
  unfold isCjk wpCjk at h
  simp only [List.any_cons, List.any_nil, Bool.or_eq_true, Bool.and_eq_true, decide_eq_true_eq,
    Bool.or_false] at h
  omega

theorem space_of_cjk {cp : Nat} (h : isCjk cp = true) : inAny wpSpace cp = false := by
  have hlow := (isCjk_bounds h).2
  rw [Bool.eq_false_iff]
  intro hspace
  unfold inAny wpSpace at hspace
  simp only [List.any_cons, List.any_nil, Bool.or_eq_true, Bool.and_eq_true, decide_eq_true_eq,
    Bool.or_false] at hspace
  omega

theorem isolate_of_not {c : Nat} (h : isCjk c = false) : isolate c = [c] := by
  unfold isolate
  rw [h, if_neg Bool.false_ne_true]

theorem flatMap_isolate {cps : List Nat} (h : ∀ c ∈ cps, isCjk c = false) :
    cps.flatMap isolate = cps := by
  induction cps with
  | nil => rfl
  | cons c cps ih =>
      rw [List.flatMap_cons, isolate_of_not (h c List.mem_cons_self),
        ih fun d hd => h d (List.mem_cons_of_mem c hd)]
      rfl

/-- The parts of a syllable. -/
def jamoCps (cp : Nat) : List Nat :=
  let si := cp - 0xAC00
  [0x1100 + si / 588, 0x1161 + si % 588 / 28] ++ if si % 28 = 0 then [] else [0x11A7 + si % 28]

theorem jamo_eq (cp : Nat) : jamo cp = encodeCps (jamoCps cp) := by
  unfold jamo jamoCps encodeCps
  dsimp only
  by_cases h : (cp - 0xAC00) % 28 = 0
  · rw [if_pos h, if_pos h]
    simp
  · rw [if_neg h, if_neg h]
    simp

theorem jamoCps_lt {cp : Nat} (h : 0xAC00 ≤ cp ∧ cp ≤ 0xD7A3) : ∀ c ∈ jamoCps cp, c < 0x3400 := by
  intro c hc
  unfold jamoCps at hc
  dsimp only at hc
  by_cases hfinal : (cp - 0xAC00) % 28 = 0
  · rw [if_pos hfinal] at hc
    simp only [List.append_nil, List.mem_cons, List.not_mem_nil, or_false] at hc
    omega
  · rw [if_neg hfinal] at hc
    simp only [List.cons_append, List.nil_append, List.mem_cons, List.not_mem_nil, or_false] at hc
    omega

section

variable {T : Tables} (hT : T.Sound)

include hT

theorem Tables.Sound.fold_lookup {cp : Nat} {f : Text} (h : T.fold.lookup cp = some f) :
    ∃ cps, f = encodeCps cps ∧ (∀ c ∈ cps, c < 0x110000) ∧
      (if isCjk cp then ∃ c, cps = [c] ∧ isCjk c = true else ∀ c ∈ cps, isCjk c = false) ∧
      inAny wpSpace cp = false := by
  obtain ⟨before, after, hsplit, -⟩ := List.lookup_eq_some_iff.mp h
  have hin : (cp, f) ∈ T.fold := by
    rw [hsplit]
    exact List.mem_append_right _ List.mem_cons_self
  obtain ⟨cps, hcps, hlow, hcjk⟩ := hT.folds _ hin
  exact ⟨cps, hcps, hlow, hcjk, hT.space _ hin⟩

theorem fold_blank : fold T 32 = [32] := by
  unfold fold
  rw [if_neg (by decide)]
  cases hlookup : T.fold.lookup 32 with
  | none => rfl
  | some f =>
      obtain ⟨cps, -, -, -, hspace⟩ := hT.fold_lookup hlookup
      exact absurd hspace (by decide)

/-- A folded text is the code points of the fold. -/
theorem foldedText_eq {cp : Nat} (hcp : cp < 0x200000) :
    foldedText T cp = encodeCps (fold T cp) ∧ ∀ c ∈ fold T cp, c < 0x200000 := by
  unfold foldedText fold
  by_cases hsyllable : 0xAC00 ≤ cp ∧ cp ≤ 0xD7A3
  · have hlow : ∀ c ∈ jamoCps cp, c < 0x200000 := fun c hc => by
      have hlt := jamoCps_lt hsyllable c hc
      omega
    rw [if_pos hsyllable, if_pos hsyllable, jamo_eq, codePoints_encode hlow]
    exact ⟨rfl, hlow⟩
  · rw [if_neg hsyllable, if_neg hsyllable, folded_eq hT.fold]
    cases hlookup : T.fold.lookup cp with
    | none =>
        refine ⟨(List.flatMap_singleton putCp cp).symm, ?_⟩
        rw [List.forall_mem_singleton]
        exact hcp
    | some f =>
        obtain ⟨cps, hcps, hlow, -⟩ := hT.fold_lookup hlookup
        have hlow' : ∀ c ∈ cps, c < 0x200000 := fun c hc => by
          have hlt := hlow c hc
          omega
        dsimp only
        rw [hcps, codePoints_encode hlow']
        exact ⟨rfl, hlow'⟩

theorem fold_not_cjk {cp : Nat} (h : isCjk cp = false) : ∀ c ∈ fold T cp, isCjk c = false := by
  have hlowCjk : ∀ c, c < 0x3400 → isCjk c = false := by
    intro c hc
    rw [Bool.eq_false_iff]
    intro hcjk
    have hbounds := (isCjk_bounds hcjk).2
    omega
  unfold fold
  by_cases hsyllable : 0xAC00 ≤ cp ∧ cp ≤ 0xD7A3
  · have hlow : ∀ c ∈ jamoCps cp, c < 0x200000 := fun c hc => by
      have hlt := jamoCps_lt hsyllable c hc
      omega
    rw [if_pos hsyllable, jamo_eq, codePoints_encode hlow]
    exact fun c hc => hlowCjk c (jamoCps_lt hsyllable c hc)
  · rw [if_neg hsyllable]
    cases hlookup : T.fold.lookup cp with
    | none =>
        dsimp only
        rw [List.forall_mem_singleton]
        exact h
    | some f =>
        obtain ⟨cps, hcps, hlow, hcjk, -⟩ := hT.fold_lookup hlookup
        have hlow' : ∀ c ∈ cps, c < 0x200000 := fun c hc => by
          have hlt := hlow c hc
          omega
        rw [h, if_neg Bool.false_ne_true] at hcjk
        dsimp only
        rw [hcps, codePoints_encode hlow']
        exact hcjk

/-- An ideograph with a fold is the fold in the stages, and itself in the pass. -/
theorem stage_compatibility {cp : Nat} {f : Text} (h : Compatibility T cp f) :
    ∃ c, f = putCp c ∧ isCjk c = true ∧ stage T cp = [32, c, 32] ∧
      passed T cp = [32, cp, 32] := by
  obtain ⟨hremoved, hspace, hcjk, hlookup⟩ := h
  obtain ⟨cps, hcps, hlow, hone, -⟩ := hT.fold_lookup hlookup
  rw [hcjk, if_pos rfl] at hone
  obtain ⟨c, rfl, hc⟩ := hone
  have hlow' : c < 0x200000 := by
    have hlt := hlow c List.mem_cons_self
    omega
  refine ⟨c, hcps.trans (List.flatMap_singleton putCp c), hc, ?_, ?_⟩
  · unfold stage fold
    rw [hremoved, hspace, if_neg Bool.false_ne_true, if_neg Bool.false_ne_true,
      if_neg (isCjk_bounds hcjk).1, hlookup]
    dsimp only
    rw [hcps, codePoints_encode (List.forall_mem_singleton.mpr hlow'), List.flatMap_singleton]
    unfold isolate
    rw [if_pos hc]
  · unfold passed
    rw [hremoved, hspace, hcjk, if_neg Bool.false_ne_true, if_neg Bool.false_ne_true, if_pos rfl]

theorem stage_eq {cp : Nat} (h : ∀ f, ¬ Compatibility T cp f) : stage T cp = passed T cp := by
  unfold stage passed
  by_cases hremoved : inAny T.removed cp = true
  · rw [if_pos hremoved, if_pos hremoved]
  rw [if_neg hremoved, if_neg hremoved]
  by_cases hspace : inAny wpSpace cp = true
  · rw [if_pos hspace, if_pos hspace, fold_blank hT]
    decide
  rw [if_neg hspace, if_neg hspace]
  by_cases hcjk : isCjk cp = true
  · rw [if_pos hcjk]
    unfold fold
    rw [if_neg (isCjk_bounds hcjk).1]
    cases hlookup : T.fold.lookup cp with
    | none =>
        dsimp only
        rw [List.flatMap_singleton]
        unfold isolate
        rw [if_pos hcjk]
    | some f =>
        exact absurd ⟨Bool.eq_false_iff.mpr hremoved, Bool.eq_false_iff.mpr hspace, hcjk, hlookup⟩
          (h f)
  · rw [if_neg hcjk, flatMap_isolate (fold_not_cjk hT (Bool.eq_false_iff.mpr hcjk))]

end

end Recursant.Tokenizer
