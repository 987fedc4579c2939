import Recursant.Context.WordpieceMatching

/-!
# The pass and the stages

The pass computes the ids of the stages, except that it looks ideographs up as they are.
-/

namespace Recursant.Tokenizer

section

variable {T : Tables} {wp : Wordpiece}

/-! ## Splitting step by step -/

/-- The ids of some words. -/
def idsOf (wp : Wordpiece) (words : List (List Nat)) : List Nat :=
  words.flatMap (wordIds wp.vocab.keys wp.unk)

/-- The ids of the words that have ended, and the word that has begun, one character later. -/
def advance (T : Tables) (wp : Wordpiece) (p : List Nat × List Nat) (c : Nat) : List Nat × List Nat :=
  if inAny wpSpace c then (p.1 ++ idsOf wp (begun p.2), [])
  else if inAny T.punct c then (p.1 ++ idsOf wp (begun p.2 ++ [[c]]), [])
  else (p.1, p.2 ++ [c])

theorem idsOf_append (a b : List (List Nat)) : idsOf wp (a ++ b) = idsOf wp a ++ idsOf wp b :=
  List.flatMap_append

/-- Words split off the front are those the steps have ended. -/
theorem split_append (cps more : List Nat) (p : List Nat × List Nat) :
    p.1 ++ idsOf wp (split T p.2 (cps ++ more)) =
      (cps.foldl (advance T wp) p).1 ++ idsOf wp (split T (cps.foldl (advance T wp) p).2 more) := by
  induction cps generalizing p with
  | nil => rfl
  | cons c cps ih =>
      rw [List.foldl_cons, ← ih, List.cons_append, split]
      unfold advance
      by_cases hspace : inAny wpSpace c = true
      · rw [if_pos hspace, if_pos hspace, idsOf_append, List.append_assoc]
      · rw [if_neg hspace, if_neg hspace]
        by_cases hpunct : inAny T.punct c = true
        · rw [if_pos hpunct, if_pos hpunct, List.append_assoc, ← idsOf_append, List.append_assoc]
          rfl
        · rw [if_neg hpunct, if_neg hpunct]

/-! ## The state of the pass -/

theorem inRanges_wpSpace (c : Nat) : inRanges wpSpace c = inAny wpSpace c :=
  inRanges_eq (by decide) (by decide) c

/-- What the pass has when some words have ended and one has begun. -/
structure Run (wp : Wordpiece) (max : Nat) (s : Scan) (p : List Nat × List Nat) : Prop where
  ids : s.ids = p.1.take max
  chars : s.chars = p.2.length
  long : s.long = decide (maxWordChars < p.2.length)
  word : p.2.length ≤ maxWordChars → s.word = encodeCps p.2
  low : ∀ c ∈ p.2, c < 0x200000

theorem foldl_emit_take (max : Nat) (ids more : List Nat) :
    more.foldl (emit max) (ids.take max) = (ids ++ more).take max := by
  rw [foldl_emit more (List.length_take_le _ _)]
  by_cases hfull : max ≤ ids.length
  · rw [List.take_append_of_le_length hfull,
      List.take_append_of_le_length (by rw [List.length_take]; omega), List.take_take, Nat.min_self]
  · rw [List.take_of_length_le (by omega : ids.length ≤ max)]

/-- The ids of a word that ended, long or not. -/
theorem flush_ids {max : Nat} {s : Scan} {p : List Nat × List Nat}
    (hsearch : ∀ k, search wp.vocab k = some (idOf wp.vocab.keys k)) (h : Run wp max s p) :
    (flush wp max s).ids = (p.1 ++ idsOf wp (begun p.2)).take max := by
  rw [← foldl_emit_take, ← h.ids]
  unfold flush idsOf begun
  dsimp only
  rw [h.chars]
  by_cases hempty : p.2 = []
  · rw [hempty, if_pos rfl, if_pos (by rfl)]
    rfl
  rw [if_neg (mt List.length_eq_zero_iff.mp hempty), if_neg hempty, List.flatMap_singleton, h.long]
  by_cases hlong : maxWordChars < p.2.length
  · rw [if_pos (decide_eq_true hlong)]
    unfold wordIds
    rw [if_pos hlong]
    rfl
  · rw [if_neg (by simpa using hlong), h.word (Nat.not_lt.mp hlong)]
    exact wordpiece_eq hsearch h.low max s.ids

theorem flush_run {max : Nat} {s : Scan} {p : List Nat × List Nat}
    (hsearch : ∀ k, search wp.vocab k = some (idOf wp.vocab.keys k)) (h : Run wp max s p) :
    Run wp max (flush wp max s) (p.1 ++ idsOf wp (begun p.2), []) where
  ids := flush_ids hsearch h
  chars := rfl
  long := rfl
  word := fun _ => rfl
  low := List.forall_mem_nil _

/-- A character that is a word. -/
theorem alone_run {max : Nat} {s : Scan} {p : List Nat × List Nat} {c : Nat} (hc : c < 0x200000)
    (hsearch : ∀ k, search wp.vocab k = some (idOf wp.vocab.keys k)) (h : Run wp max s p) :
    Run wp max { flush wp max s with ids := wordpiece wp (putCp c) 1 max (flush wp max s).ids }
      (p.1 ++ idsOf wp (begun p.2 ++ [[c]]), []) where
  ids := by
    have hword := wordpiece_eq hsearch (List.forall_mem_singleton.mpr hc) max (flush wp max s).ids
    rw [show encodeCps [c] = putCp c from List.flatMap_singleton putCp c] at hword
    rw [show (1 : Nat) = [c].length from rfl, hword, flush_ids hsearch h, foldl_emit_take,
      idsOf_append, List.append_assoc]
    rw [show idsOf wp [[c]] = wordIds wp.vocab.keys wp.unk [c] from List.flatMap_singleton _ _]
  chars := rfl
  long := rfl
  word := fun _ => rfl
  low := List.forall_mem_nil _

/-- One character of a folded text. -/
theorem normalized_run (hT : T.Sound) {max : Nat} {s : Scan} {p : List Nat × List Nat} {c : Nat}
    (hc : c < 0x200000) (hsearch : ∀ k, search wp.vocab k = some (idOf wp.vocab.keys k))
    (h : Run wp max s p) : Run wp max (normalized T wp max s c (putCp c)) (advance T wp p c) := by
  unfold normalized advance
  rw [inRanges_wpSpace, inRanges_eq hT.punct hT.punctLow]
  by_cases hspace : inAny wpSpace c = true
  · rw [if_pos hspace, if_pos hspace]
    exact flush_run hsearch h
  rw [if_neg hspace, if_neg hspace]
  by_cases hpunct : inAny T.punct c = true
  · rw [if_pos hpunct, if_pos hpunct]
    exact alone_run hc hsearch h
  rw [if_neg hpunct, if_neg hpunct]
  have hchars := h.chars
  refine ⟨h.ids, ?_, ?_, ?_, ?_⟩
  · dsimp only
    rw [hchars, List.length_append, List.length_singleton]
  · -- the word is long from one character over the limit on, which is below the buffer's
    dsimp only
    rw [h.long, hchars, List.length_append, List.length_singleton, Bool.eq_iff_iff]
    simp only [Bool.or_eq_true, decide_eq_true_eq, Bool.not_eq_true', decide_eq_false_iff_not]
    unfold tokenMax maxWordChars
    omega
  · intro hshort
    dsimp only at hshort ⊢
    rw [List.length_append, List.length_singleton] at hshort
    have hroom : s.chars < tokenMax := by
      unfold tokenMax
      unfold maxWordChars at hshort
      omega
    rw [if_pos hroom, h.word (Nat.le_of_succ_le hshort), encodeCps_append]
    rw [show encodeCps [c] = putCp c from List.flatMap_singleton putCp c]
  · intro d hd
    rcases List.mem_append.mp hd with hd | hd
    · exact h.low d hd
    · rw [List.mem_singleton.mp hd]
      exact hc

theorem foldedLoop_run (hT : T.Sound) {max : Nat}
    (hsearch : ∀ k, search wp.vocab k = some (idOf wp.vocab.keys k)) {cps : List Nat}
    (hcps : ∀ c ∈ cps, c < 0x200000) {steps : Nat} (hsteps : cps.length ≤ steps) {s : Scan}
    {p : List Nat × List Nat} (h : Run wp max s p) :
    Run wp max (foldedLoop T wp max steps (encodeCps cps) s) (cps.foldl (advance T wp) p) := by
  induction cps generalizing steps s p with
  | nil => cases steps <;> exact h
  | cons c cps ih =>
      have hc := hcps c List.mem_cons_self
      obtain ⟨b, tail, hput, -, -, hread⟩ := putCp_spec hc
      obtain ⟨steps, rfl⟩ := Nat.exists_eq_succ_of_ne_zero
        (Nat.ne_of_gt (Nat.lt_of_lt_of_le (Nat.succ_pos _) hsteps))
      rw [encodeCps_cons, hput, List.cons_append, foldedLoop, hread]
      dsimp only
      have hbytes : (b :: (tail ++ encodeCps cps)).take
          ((b :: (tail ++ encodeCps cps)).length - (encodeCps cps).length) = putCp c := by
        rw [← List.cons_append, ← hput, List.length_append, Nat.add_sub_cancel, List.take_left]
      rw [hbytes, List.foldl_cons]
      exact ih (fun d hd => hcps d (List.mem_cons_of_mem c hd)) (Nat.le_of_succ_le_succ hsteps)
        (normalized_run hT hc hsearch h)

/-- One code point of the text. -/
theorem codePoint_run (hT : T.Sound) {max : Nat} {s : Scan} {p : List Nat × List Nat} {cp : Nat}
    (hcp : cp < 0x200000) (hsearch : ∀ k, search wp.vocab k = some (idOf wp.vocab.keys k))
    (h : Run wp max s p) :
    Run wp max (codePoint T wp max s cp) ((passed T cp).foldl (advance T wp) p) := by
  unfold codePoint passed
  rw [inRanges_wpSpace, inRanges_eq hT.removed hT.removedLow]
  by_cases hremoved : inAny T.removed cp = true
  · rw [if_pos hremoved, if_pos hremoved]
    exact h
  rw [if_neg hremoved, if_neg hremoved]
  by_cases hspace : inAny wpSpace cp = true
  · rw [if_pos hspace, if_pos hspace]
    exact flush_run hsearch h
  rw [if_neg hspace, if_neg hspace]
  by_cases hcjk : isCjk cp = true
  · rw [if_pos hcjk, if_pos hcjk]
    -- between blanks it is a word, punctuation or not
    have hword : [32, cp, 32].foldl (advance T wp) p = (p.1 ++ idsOf wp (begun p.2 ++ [[cp]]), []) := by
      have hblank : ∀ q : List Nat × List Nat,
          advance T wp q 32 = (q.1 ++ idsOf wp (begun q.2), []) := fun q => rfl
      simp only [List.foldl_cons, List.foldl_nil]
      rw [hblank, hblank, idsOf_append]
      unfold advance
      rw [if_neg hspace]
      by_cases hpunct : inAny T.punct cp = true
      · rw [if_pos hpunct]
        simp [begun, idsOf]
      · rw [if_neg hpunct]
        simp [begun, idsOf]
    rw [hword]
    exact alone_run hcp hsearch h
  · rw [if_neg hcjk, if_neg hcjk]
    obtain ⟨htext, hlow⟩ := foldedText_eq hT hcp
    rw [htext]
    exact foldedLoop_run hT hsearch hlow (length_le_encodeCps hlow) h

/-- The ids at the end of the loop. -/
def finish (wp : Wordpiece) (max : Nat) (s : Scan) : List Nat :=
  if s.ids.length < max then (flush wp max s).ids else s.ids

theorem finish_eq {max : Nat} {s : Scan} {p : List Nat × List Nat}
    (hsearch : ∀ k, search wp.vocab k = some (idOf wp.vocab.keys k)) (h : Run wp max s p) :
    finish wp max s = (p.1 ++ idsOf wp (begun p.2)).take max := by
  unfold finish
  by_cases hroom : s.ids.length < max
  · rw [if_pos hroom]
    exact flush_ids hsearch h
  · rw [h.ids, List.length_take] at hroom
    rw [h.ids, List.length_take, if_neg hroom, List.take_append_of_le_length (by omega)]

/-- The loop gives the ids of the split, as far as there is room. -/
theorem textLoop_eq (hT : T.Sound) {max : Nat}
    (hsearch : ∀ k, search wp.vocab k = some (idOf wp.vocab.keys k)) {steps : Nat} {t : Text}
    (hsteps : t.length ≤ steps) {s : Scan} {p : List Nat × List Nat} (h : Run wp max s p) :
    finish wp max (textLoop T wp max steps t s) =
      (p.1 ++ idsOf wp (split T p.2 ((decode steps t).flatMap (passed T)))).take max := by
  induction steps generalizing t s p with
  | zero =>
      rw [List.length_eq_zero_iff.mp (Nat.le_zero.mp hsteps)]
      exact finish_eq hsearch h
  | succ steps ih =>
      cases t with
      | nil => exact finish_eq hsearch h
      | cons b bytes =>
          rw [textLoop, decode, List.flatMap_cons, split_append]
          by_cases hroom : s.ids.length < max
          · rw [if_pos hroom]
            have hrest := nextCp_length b bytes
            rw [List.length_cons] at hsteps
            exact ih (t := (nextCp b bytes).2) (by omega)
              (codePoint_run hT (nextCp_lt b bytes) hsearch h)
          · -- the ids that are there already are all that are given
            have hfull : max ≤ p.1.length := by
              rw [h.ids, List.length_take] at hroom
              omega
            rw [if_neg hroom, finish_eq hsearch h, ← split_append, List.take_append_of_le_length hfull,
              List.take_append_of_le_length hfull]

/-- The ids of the text in the pass, all of them. -/
def passedIds (T : Tables) (wp : Wordpiece) (text : Text) : List Nat :=
  idsOf wp (split T [] ((codePoints text).flatMap (passed T)))

theorem encode_eq (hT : T.Sound) (hsearch : ∀ k, search wp.vocab k = some (idOf wp.vocab.keys k))
    (text : Text) {maxIds : Nat} (hroom : 2 ≤ maxIds) :
    encode T wp text maxIds = wp.cls :: (passedIds T wp text).take (maxIds - 2) ++ [wp.sep] := by
  obtain ⟨n, rfl⟩ := Nat.exists_eq_add_of_le' hroom
  have hstart : Run wp (n + 1) { ids := emit (n + 1) [] wp.cls } ([wp.cls], []) :=
    ⟨by simp [emit], rfl, rfl, fun _ => rfl, List.forall_mem_nil _⟩
  have hloop := textLoop_eq hT hsearch (le_refl text.length) hstart
  unfold encode
  rw [if_neg (by omega)]
  dsimp only
  rw [show n + 2 - 1 = n + 1 from rfl]
  unfold finish at hloop
  rw [hloop, List.singleton_append, List.take_succ_cons, Nat.add_sub_cancel]
  unfold emit passedIds codePoints
  rw [if_pos]
  rw [List.length_cons, List.length_take]
  omega

/-! ## The two sequences -/

theorem wordIds_singleton {c : Nat} :
    wordIds wp.vocab.keys wp.unk [c] = [(idOf wp.vocab.keys (putCp c)).getD wp.unk] := by
  have hshort : ¬ maxWordChars < 1 := by decide
  have hlongest : longest wp.vocab.keys [] [c] 1 =
      (idOf wp.vocab.keys (putCp c)).map fun id => (id, 1) := by
    rw [longest, List.nil_append, List.take_succ_cons, List.take_zero,
      show encodeCps [c] = putCp c from List.flatMap_singleton putCp c]
    cases idOf wp.vocab.keys (putCp c) <;> rfl
  unfold wordIds
  rw [List.length_singleton, if_neg hshort, greedy_cons, List.length_singleton, hlongest]
  cases idOf wp.vocab.keys (putCp c) <;> rfl

theorem split_isolated {x : Nat} (hspace : inAny wpSpace x = false) (word rest : List Nat) :
    idsOf wp (split T word ([32, x, 32] ++ rest)) =
      idsOf wp (begun word) ++ (idOf wp.vocab.keys (putCp x)).getD wp.unk :: idsOf wp (split T [] rest) := by
  have hone : idsOf wp [[x]] = [(idOf wp.vocab.keys (putCp x)).getD wp.unk] := by
    rw [← wordIds_singleton]
    exact List.flatMap_singleton _ _
  have hblank : ∀ (w : List Nat), split T w (32 :: rest) = begun w ++ split T [] rest := fun _ => rfl
  rw [show split T word ([32, x, 32] ++ rest) = begun word ++ split T [] (x :: 32 :: rest) from rfl,
    idsOf_append, split, hspace, if_neg Bool.false_ne_true]
  congr 1
  by_cases hpunct : inAny T.punct x = true
  · rw [if_pos hpunct, hblank, show begun [] = [] from rfl, List.nil_append, List.nil_append,
      ← List.singleton_append, idsOf_append, hone]
    rfl
  · rw [if_neg hpunct, hblank, List.nil_append, show begun [x] = [[x]] from rfl, idsOf_append, hone]
    rfl

/-- The sequences are the same exactly when every ideograph has the id of its fold. -/
theorem split_passed_iff (hT : T.Sound) {cps : List Nat} (word : List Nat) :
    idsOf wp (split T word (cps.flatMap (passed T))) = idsOf wp (split T word (cps.flatMap (stage T))) ↔
      ∀ cp ∈ cps, ∀ f, Compatibility T cp f →
        (idOf wp.vocab.keys (putCp cp)).getD wp.unk = (idOf wp.vocab.keys f).getD wp.unk := by
  induction cps generalizing word with
  | nil => exact iff_of_true rfl (List.forall_mem_nil _)
  | cons cp cps ih =>
      rw [List.flatMap_cons, List.flatMap_cons, List.forall_mem_cons]
      by_cases hcompat : ∃ f, Compatibility T cp f
      · obtain ⟨f, hf⟩ := hcompat
        obtain ⟨c, rfl, hc, hstage, hpassed⟩ := stage_compatibility hT hf
        rw [hstage, hpassed, split_isolated hf.2.1, split_isolated (space_of_cjk hc),
          List.append_cancel_left_eq, List.cons_eq_cons, ih]
        refine and_congr_left fun _ => ⟨?_, fun h => h _ hf⟩
        intro heq f' hf'
        have hsame : f' = putCp c := Option.some.inj (hf'.2.2.2.symm.trans hf.2.2.2)
        rw [hsame]
        exact heq
      · rw [stage_eq hT (not_exists.mp hcompat)]
        have hsteps := fun more => @split_append T wp (passed T cp) more ([], word)
        simp only [List.nil_append] at hsteps
        rw [hsteps, hsteps, List.append_cancel_left_eq, ih]
        exact (and_iff_right fun f hf => absurd ⟨f, hf⟩ hcompat).symm

/-! ## Encoding -/

/-- The ids of a text are those of the stages, at most as many as there is room for and between the
two marks, and every lookup ends with the first line of the key or without one. -/
structure Meets (T : Tables) (wp : Wordpiece) (text : Text) (maxIds : Nat) : Prop where
  ids : encode T wp text maxIds = staged T wp text maxIds
  room : (encode T wp text maxIds).length ≤ maxIds
  marks : 2 ≤ maxIds → (encode T wp text maxIds).head? = some wp.cls ∧
    (encode T wp text maxIds).getLast? = some wp.sep
  found : ∀ s, search wp.vocab s = some (idOf wp.vocab.keys s)

/-- The id of a character on its own. -/
def idOfChar (wp : Wordpiece) (s : Text) : Nat := (idOf wp.vocab.keys s).getD wp.unk

end

/-- Room for all of both tells them apart. -/
theorem eq_of_take {a b : List Nat} (h : ∀ n, a.take n = b.take n) : a = b := by
  have hall := h (a.length + b.length)
  rw [List.take_of_length_le (Nat.le_add_right _ _), List.take_of_length_le (Nat.le_add_left _ _)]
    at hall
  exact hall

/-- A text is encoded as in the stages, at every length, exactly when each of its ideographs that the
table folds to another has the id of the other. -/
theorem encode_staged_iff {T : Tables} (hT : T.Sound) {file : Text} {wp : Wordpiece}
    (hload : load file = some wp) (text : Text) :
    (∀ maxIds, Meets T wp text maxIds) ↔
      ∀ cp ∈ codePoints text, ∀ f, Compatibility T cp f →
        idOfChar wp (putCp cp) = idOfChar wp f := by
  have hsearch := load_search hload
  unfold idOfChar
  rw [← split_passed_iff hT [], ← normalize_eq]
  constructor
  · intro h
    apply eq_of_take
    intro n
    have hids := (h (n + 2)).ids
    unfold staged at hids
    rw [encode_eq hT hsearch text (Nat.le_add_left 2 n), if_neg (by omega),
      List.append_cancel_right_eq, List.cons_eq_cons] at hids
    exact hids.2
  · intro h maxIds
    by_cases hroom : 2 ≤ maxIds
    · have hencode := encode_eq hT hsearch text hroom
      refine ⟨?_, ?_, fun _ => ?_, hsearch⟩
      · unfold staged
        rw [hencode, if_neg (Nat.not_lt.mpr hroom)]
        unfold passedIds
        rw [h]
        rfl
      · rw [hencode, List.length_append, List.length_cons, List.length_take, List.length_singleton]
        omega
      · rw [hencode]
        exact ⟨rfl, List.getLast?_append_of_ne_nil _ (List.cons_ne_nil _ _)⟩
    · have hnone : encode T wp text maxIds = [] := by
        unfold encode
        rw [if_pos (Nat.not_le.mp hroom)]
      refine ⟨?_, ?_, fun h => absurd h hroom, hsearch⟩
      · unfold staged
        rw [hnone, if_pos (Nat.not_le.mp hroom)]
      · rw [hnone]
        exact Nat.zero_le _

/-- An excerpt of the generated tables. -/
def excerpt : Tables where
  removed := [(0x0, 0x8), (0xB, 0xC), (0xE, 0x1F), (0x7F, 0x9F)]
  punct := [(0x21, 0x2F), (0x3A, 0x40)]
  fold := [(0x41, "a"), (0x42, "b"), (0xF900, [0xE8, 0xB1, 0x88])]

theorem excerpt_sound : excerpt.Sound where
  removed := by decide
  punct := by decide
  removedLow := by decide
  punctLow := by decide
  fold := by decide
  folds := by
    intro e he
    simp only [excerpt, List.mem_cons, List.not_mem_nil, or_false] at he
    rcases he with rfl | rfl | rfl
    · exact ⟨[0x61], by decide, by decide, by rw [if_neg (by decide)]; decide⟩
    · exact ⟨[0x62], by decide, by decide, by rw [if_neg (by decide)]; decide⟩
    · exact ⟨[0x8C48], by decide, by decide, by rw [if_pos (by decide)]; exact ⟨_, rfl, by decide⟩⟩
  space := by decide

/-- A vocabulary with one ideograph, to which the table folds another. -/
def ideographFile : Text := ("[CLS]\n[SEP]\n[UNK]\n" : Text) ++ [0xE8, 0xB1, 0x88] ++ ("\nab\n##b" : Text)

/-- A vocabulary with neither. -/
def wordFile : Text := "[CLS]\n[SEP]\n[UNK]\nab\n##b"

/-- Words, U+F900, which the table folds, and U+8C48, to which it does. -/
def mixedText : Text := ("ABB " : Text) ++ [0xEF, 0xA4, 0x80] ++ [0xE8, 0xB1, 0x88] ++ (" a!" : Text)

theorem encode_staged_iff_words : ∃ wp, load wordFile = some wp ∧
    ∀ maxIds, Meets excerpt wp mixedText maxIds := by
  have hload : (load wordFile).map (fun wp => (idOfChar wp [0xEF, 0xA4, 0x80],
      idOfChar wp [0xE8, 0xB1, 0x88])) = some (2, 2) := by decide +kernel
  obtain ⟨wp, hwp, hpair⟩ := Option.map_eq_some_iff.mp hload
  obtain ⟨hcompatibility, hfold⟩ := Prod.mk.inj hpair
  refine ⟨wp, hwp, (encode_staged_iff excerpt_sound hwp mixedText).mpr ?_⟩
  intro cp hcp f hf
  have hideographs : ∀ c ∈ codePoints mixedText, isCjk c = true → c = 0xF900 ∨ c = 0x8C48 := by
    decide +kernel
  rcases hideographs cp hcp hf.2.2.1 with rfl | rfl
  · obtain rfl : f = [0xE8, 0xB1, 0x88] := Option.some.inj (hf.2.2.2.symm.trans (by decide))
    exact hcompatibility.trans hfold.symm
  · have hnone : excerpt.fold.lookup 0x8C48 = none := by decide
    rw [hf.2.2.2] at hnone
    cases hnone

/-- U+F900 is folded to U+8C48, which is in the vocabulary, but looked up as it is. -/
theorem ideograph_unfolded : ∃ wp, load ideographFile = some wp ∧
    encode excerpt wp [0xEF, 0xA4, 0x80] 8 = [0, 2, 1] ∧
    staged excerpt wp [0xEF, 0xA4, 0x80] 8 = [0, 3, 1] ∧
    ¬ Meets excerpt wp [0xEF, 0xA4, 0x80] 8 := by
  have hids : (load ideographFile).map (fun wp => (encode excerpt wp [0xEF, 0xA4, 0x80] 8,
      staged excerpt wp [0xEF, 0xA4, 0x80] 8)) = some ([0, 2, 1], [0, 3, 1]) := by decide +kernel
  obtain ⟨wp, hwp, hpair⟩ := Option.map_eq_some_iff.mp hids
  obtain ⟨hencode, hstaged⟩ := Prod.mk.inj hpair
  refine ⟨wp, hwp, hencode, hstaged, fun hmeets => ?_⟩
  have hids := hmeets.ids
  rw [hencode, hstaged] at hids
  exact absurd hids (by decide)

end Recursant.Tokenizer
