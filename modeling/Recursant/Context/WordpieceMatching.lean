import Recursant.Context.WordpieceReference

/-!
# Looking up and matching

A vocabulary that was loaded answers every lookup, and the pieces that the pass finds in the bytes of
a word are those that the reference finds in its code points.
-/

namespace Recursant.Tokenizer

/-! ## The vocabulary -/

/-- The table of a vocabulary while it is filled: the first lines of the keys so far. -/
structure Filled (k : Nat) (v : Vocab) (lines : List (Text × Nat)) : Prop where
  mask : v.mask = 2 ^ k - 1
  holds : ∃ entries, Probing.Holds (2 ^ k) (fun s => (hash s).toNat) (v.keys[·]?) v.slots entries ∧
    entries.length ≤ lines.length ∧ ∀ s, entries.lookup s = lines.lookup s

theorem Filled.search {k : Nat} {v : Vocab} {lines : List (Text × Nat)} (h : Filled k v lines)
    (hroom : lines.length < 2 ^ k) (s : Text) : search v s = some (lines.lookup s) := by
  obtain ⟨entries, hholds, hlength, hlookup⟩ := h.holds
  unfold Tokenizer.search
  rw [h.mask, Nat.sub_add_cancel (Nat.two_pow_pos k)]
  simp only [Nat.and_two_pow_sub_one_eq_mod]
  rw [hholds.find (by omega) s le_rfl, hlookup]

theorem fill_filled {k : Nat} {v : Vocab} {lines : List (Text × Nat)} (rest : List (Text × Nat))
    (h : Filled k v lines) (hroom : (lines ++ rest).length < 2 ^ k)
    (hkeys : ∀ p ∈ rest, v.keys[p.2]? = some p.1) :
    ∃ v', fill v rest = some v' ∧ v'.keys = v.keys ∧ Filled k v' (lines ++ rest) := by
  induction rest generalizing v lines with
  | nil =>
      rw [List.append_nil]
      exact ⟨v, rfl, rfl, h⟩
  | cons p rest ih =>
      obtain ⟨key, e⟩ := p
      rw [List.length_append, List.length_cons] at hroom
      have hmore : (lines ++ [(key, e)] ++ rest).length < 2 ^ k := by
        rw [List.length_append, List.length_append, List.length_singleton]
        omega
      have hrest : ∀ p ∈ rest, v.keys[p.2]? = some p.1 :=
        fun p hp => hkeys p (List.mem_cons_of_mem _ hp)
      obtain ⟨entries, hholds, hlength, hlookup⟩ := h.holds
      have hfound : lookup v key = lines.lookup key := by
        unfold lookup
        rw [h.search (by omega)]
        rfl
      rw [show lines ++ (key, e) :: rest = lines ++ [(key, e)] ++ rest by simp, fill, hfound]
      cases hthere : lines.lookup key with
      | some i =>
          -- a line with the key came before, and goes on to be its first
          have hsame : Filled k v (lines ++ [(key, e)]) := by
            refine ⟨h.mask, entries, hholds, ?_, ?_⟩
            · rw [List.length_append]
              omega
            · intro s
              rw [hlookup, List.lookup_append]
              cases hs : lines.lookup s with
              | some j => rfl
              | none =>
                  have hne : s ≠ key := by
                    rintro rfl
                    rw [hs] at hthere
                    cases hthere
                  rw [Option.none_or, List.lookup_cons, beq_false_of_ne hne]
                  rfl
          rw [if_pos (by rfl)]
          exact ih hsame hmore hrest
      | none =>
          obtain ⟨slots, hplace, hnext⟩ := hholds.place (by omega) (k := key) (e := e)
            (hkeys _ List.mem_cons_self) (le_refl (2 ^ k))
          rw [if_neg (by decide), h.mask, Nat.sub_add_cancel (Nat.two_pow_pos k)]
          simp only [Nat.and_two_pow_sub_one_eq_mod]
          rw [hplace]
          refine ih (v := ⟨2 ^ k - 1, v.keys, slots⟩) ⟨rfl, _, hnext, ?_, ?_⟩ hmore hrest
          · rw [List.length_append, List.length_append]
            exact Nat.add_le_add_right hlength _
          · intro s
            rw [List.lookup_append, List.lookup_append, hlookup]

/-- In a vocabulary that was loaded every lookup ends, with the first line of the key or without
one. -/
theorem load_search {file : Text} {wp : Wordpiece} (h : load file = some wp) (s : Text) :
    search wp.vocab s = some (idOf wp.vocab.keys s) := by
  unfold load at h
  dsimp only at h
  split at h
  · cases h
  · obtain ⟨k, hcap, hroom⟩ := Probing.capacity_spec (readLines file).length
    have hstart : Filled k ⟨2 ^ k - 1, readLines file, fun _ => 0⟩ [] :=
      ⟨rfl, [], Probing.Holds.empty, le_rfl, fun s => rfl⟩
    obtain ⟨v, hfill, hkeys, hfilled⟩ := fill_filled (readLines file).zipIdx hstart
      (by simpa using hroom) (fun p hp => List.mem_zipIdx_iff_getElem?.mp hp)
    rw [hcap, hfill] at h
    dsimp only at h
    split at h
    · cases h
      rw [List.nil_append] at hfilled
      unfold idOf
      rw [hkeys]
      exact hfilled.search (by simpa using hroom) s
    · cases h

/-! ## The pieces of a word -/

section

variable {v : Vocab}

theorem shrink_step {w : Text} {start stop : Nat} (hcont : isContinuation (w.getD stop 0) = true)
    (hstart : start < stop) : shrink w start (stop + 1) = shrink w start stop := by
  rw [shrink, if_pos ⟨hstart, isContinuation_iff.mp hcont⟩]

/-- From behind a character the window shrinks to in front of it. -/
theorem shrink_char {before : Text} {c : Nat} (hc : c < 0x200000) (after : Text) {start : Nat}
    (hstart : start ≤ before.length) :
    shrink (before ++ (putCp c ++ after)) start (before ++ putCp c).length = before.length := by
  obtain ⟨b, tail, hput, hfirst, htail, -⟩ := putCp_spec hc
  rw [hput, List.length_append, List.length_cons]
  -- the continuation bytes are passed from the last to the first
  suffices hpart : ∀ n ≤ tail.length,
      shrink (before ++ (b :: tail ++ after)) start (before.length + (n + 1)) = before.length from
    hpart tail.length le_rfl
  intro n
  induction n with
  | zero =>
      intro _
      rw [Nat.zero_add, shrink, if_neg]
      rintro ⟨-, hcont⟩
      have hb : (before ++ (b :: tail ++ after)).getD before.length 0 = b := by
        simp [List.getD_eq_getElem?_getD]
      rw [hb, ← isContinuation_iff, hfirst] at hcont
      cases hcont
  | succ n ih =>
      intro hn
      have hbyte : isContinuation ((before ++ (b :: tail ++ after)).getD (before.length + (n + 1)) 0) =
          true := by
        have hget : (before ++ (b :: tail ++ after)).getD (before.length + (n + 1)) 0 = tail[n] := by
          rw [List.getD_eq_getElem?_getD, List.getElem?_append_right (by omega),
            show before.length + (n + 1) - before.length = n + 1 by omega, List.cons_append,
            List.getElem?_cons_succ, List.getElem?_append_left (by omega),
            List.getElem?_eq_getElem (by omega)]
          rfl
        rw [hget]
        exact htail _ (List.getElem_mem _)
      rw [← Nat.add_assoc before.length (n + 1) 1, shrink_step hbyte (by omega)]
      exact ih (by omega)

theorem encodeCps_eq_nil {cps : List Nat} (h : ∀ c ∈ cps, c < 0x200000) :
    (encodeCps cps).length = 0 ↔ cps = [] := by
  constructor
  · intro hzero
    have hle := length_le_encodeCps h
    exact List.length_eq_zero_iff.mp (by omega)
  · rintro rfl
    rfl

/-- Behind the first part of a word the pieces of the second are tried from the longest on. -/
theorem longestFrom_eq {keys : List Text} (hsearch : ∀ s, search v s = some (idOf keys s))
    {before rest : List Nat} (hbefore : ∀ c ∈ before, c < 0x200000)
    (hrest : ∀ c ∈ rest, c < 0x200000) (n : Nat) (hn : n ≤ rest.length) {steps : Nat}
    (hsteps : n < steps) :
    longestFrom v (encodeCps (before ++ rest)) (encodeCps before).length steps
        ((encodeCps (before ++ rest.take n)).length) =
      (longest keys (if before = [] then [] else [35, 35]) rest n).map
        fun p => (p.1, (encodeCps (before ++ rest.take p.2)).length) := by
  induction n generalizing steps with
  | zero =>
      obtain ⟨steps, rfl⟩ := Nat.exists_eq_succ_of_ne_zero (Nat.ne_of_gt hsteps)
      rw [longestFrom, List.take_zero, List.append_nil, if_neg (lt_irrefl _)]
      rfl
  | succ n ih =>
      obtain ⟨steps, rfl⟩ := Nat.exists_eq_succ_of_ne_zero
        (Nat.ne_of_gt (Nat.lt_trans (Nat.succ_pos n) hsteps))
      have hlt : n < rest.length := hn
      have hc : rest[n] < 0x200000 := hrest _ (List.getElem_mem hlt)
      have htake : rest.take (n + 1) = rest.take n ++ [rest[n]] := List.take_succ_eq_append_getElem hlt
      have hlonger : (encodeCps before).length < (encodeCps (before ++ rest.take (n + 1))).length := by
        obtain ⟨b, tail, hput, -⟩ := putCp_spec hc
        rw [htake, ← List.append_assoc, encodeCps_append _ [rest[n]], encodeCps_append before,
          encodeCps_cons, hput]
        simp only [List.length_append, List.length_cons]
        omega
      -- the piece between the start and the end of the window
      have hpiece : ((encodeCps (before ++ rest)).drop (encodeCps before).length).take
          ((encodeCps (before ++ rest.take (n + 1))).length - (encodeCps before).length) =
          encodeCps (rest.take (n + 1)) := by
        have hparts : encodeCps rest =
            encodeCps (rest.take (n + 1)) ++ encodeCps (rest.drop (n + 1)) := by
          rw [← encodeCps_append, List.take_append_drop]
        rw [encodeCps_append before rest, List.drop_left, encodeCps_append, List.length_append,
          Nat.add_sub_cancel_left, hparts, List.take_left]
      have hmark : (if (encodeCps before).length = 0 then ([] : Text) else [35, 35]) =
          if before = [] then [] else [35, 35] := by
        simp only [encodeCps_eq_nil hbefore]
      rw [longestFrom, if_pos hlonger, hmark, hpiece, longest]
      have hlookup : lookup v ((if before = [] then [] else [35, 35]) ++
          encodeCps (rest.take (n + 1))) = idOf keys ((if before = [] then [] else [35, 35]) ++
            encodeCps (rest.take (n + 1))) := by
        unfold lookup
        rw [hsearch]
        rfl
      rw [hlookup]
      cases idOf keys ((if before = [] then [] else [35, 35]) ++ encodeCps (rest.take (n + 1))) with
      | some id => rfl
      | none =>
          have hshrink : shrink (encodeCps (before ++ rest)) (encodeCps before).length
              (encodeCps (before ++ rest.take (n + 1))).length =
              (encodeCps (before ++ rest.take n)).length := by
            have hword : encodeCps (before ++ rest) = encodeCps (before ++ rest.take n) ++
                (putCp rest[n] ++ encodeCps (rest.drop (n + 1))) := by
              rw [← encodeCps_cons, ← encodeCps_append, List.append_assoc,
                ← List.drop_eq_getElem_cons hlt, List.take_append_drop]
            have hend : encodeCps (before ++ rest.take (n + 1)) =
                encodeCps (before ++ rest.take n) ++ putCp rest[n] := by
              rw [htake, ← List.append_assoc, encodeCps_append _ [rest[n]]]
              congr 1
              exact List.flatMap_singleton putCp _
            rw [hword, hend]
            apply shrink_char hc
            rw [encodeCps_append, List.length_append]
            omega
          dsimp only
          rw [hshrink]
          exact ih (Nat.le_of_succ_le hn) (Nat.lt_of_succ_lt_succ hsteps)

theorem longest_bounds {keys : List Text} {mark : Text} {word : List Nat} {n id m : Nat}
    (h : longest keys mark word n = some (id, m)) : 0 < m ∧ m ≤ n := by
  induction n with
  | zero => cases h
  | succ n ih =>
      rw [longest] at h
      split at h
      · cases h
        omega
      · have hbounds := ih h
        omega

theorem greedy_cons (keys : List Text) (steps : Nat) (mark : Text) (c : Nat) (rest : List Nat) :
    greedy keys (steps + 1) mark (c :: rest) =
      match longest keys mark (c :: rest) (c :: rest).length with
      | none => none
      | some (id, n) => (greedy keys steps [35, 35] ((c :: rest).drop n)).map (id :: ·) := rfl

/-- The pieces from a start on are those of the rest of the word. -/
theorem pieces_eq {keys : List Text} (hsearch : ∀ s, search v s = some (idOf keys s))
    {before rest : List Nat} (hbefore : ∀ c ∈ before, c < 0x200000)
    (hrest : ∀ c ∈ rest, c < 0x200000) {steps rounds : Nat} (hsteps : rest.length < steps)
    (hrounds : rest.length ≤ rounds) :
    pieces v (encodeCps (before ++ rest)) steps (encodeCps before).length =
      greedy keys rounds (if before = [] then [] else [35, 35]) rest := by
  induction steps generalizing before rest rounds with
  | zero => omega
  | succ steps ih =>
      rw [pieces]
      cases rest with
      | nil =>
          rw [List.append_nil, if_neg (lt_irrefl _)]
          cases rounds <;> rfl
      | cons c rest =>
          obtain ⟨rounds, rfl⟩ := Nat.exists_eq_succ_of_ne_zero
            (Nat.ne_of_gt (Nat.lt_of_lt_of_le (Nat.succ_pos _) hrounds))
          have hrestLength := length_le_encodeCps hrest
          have hlength : (encodeCps (before ++ c :: rest)).length =
              (encodeCps before).length + (encodeCps (c :: rest)).length := by
            rw [encodeCps_append, List.length_append]
          rw [List.length_cons] at hrestLength hsteps hrounds
          rw [if_pos (by omega)]
          have hfrom := @longestFrom_eq _ _ hsearch _ _ hbefore hrest (c :: rest).length le_rfl
            ((encodeCps (before ++ c :: rest)).length + 1) (by rw [List.length_cons]; omega)
          rw [List.take_length] at hfrom
          rw [hfrom, greedy_cons]
          cases hlongest : longest keys (if before = [] then [] else [35, 35]) (c :: rest)
            (c :: rest).length with
          | none => rfl
          | some p =>
              obtain ⟨id, n⟩ := p
              obtain ⟨hpos, hle⟩ := longest_bounds hlongest
              rw [List.length_cons] at hle
              have hbefore' : ∀ d ∈ before ++ (c :: rest).take n, d < 0x200000 := by
                intro d hd
                rcases List.mem_append.mp hd with hd | hd
                · exact hbefore d hd
                · exact hrest d (List.mem_of_mem_take hd)
              have hnext := @ih (before ++ (c :: rest).take n) ((c :: rest).drop n) hbefore'
                (fun d hd => hrest d (List.mem_of_mem_drop hd)) rounds
                (by rw [List.length_drop, List.length_cons]; omega)
                (by rw [List.length_drop, List.length_cons]; omega)
              have hne : before ++ (c :: rest).take n ≠ [] := by
                apply List.append_ne_nil_of_right_ne_nil
                obtain ⟨n, rfl⟩ := Nat.exists_eq_succ_of_ne_zero (Nat.ne_of_gt hpos)
                exact List.cons_ne_nil _ _
              rw [List.append_assoc, List.take_append_drop, if_neg hne] at hnext
              rw [Option.map_some]
              dsimp only
              rw [hnext]

end

/-! ## The ids of a word -/

theorem foldl_emit {max : Nat} (more : List Nat) {ids : List Nat} (h : ids.length ≤ max) :
    more.foldl (emit max) ids = (ids ++ more).take max := by
  induction more generalizing ids with
  | nil => rw [List.foldl_nil, List.append_nil, List.take_of_length_le h]
  | cons id more ih =>
      rw [List.foldl_cons]
      by_cases hroom : ids.length < max
      · rw [show emit max ids id = ids ++ [id] from if_pos hroom,
          ih (by rw [List.length_append, List.length_singleton]; omega), List.append_assoc]
        rfl
      · have hfull : ids.length = max := by omega
        rw [show emit max ids id = ids from if_neg hroom, ih h, ← hfull, List.take_left,
          List.take_left]

theorem wordpiece_eq {wp : Wordpiece} (hsearch : ∀ s, search wp.vocab s = some (idOf wp.vocab.keys s))
    {word : List Nat} (hword : ∀ c ∈ word, c < 0x200000) (max : Nat) (ids : List Nat) :
    wordpiece wp (encodeCps word) word.length max ids =
      (wordIds wp.vocab.keys wp.unk word).foldl (emit max) ids := by
  unfold wordpiece wordIds
  by_cases hlong : maxWordChars < word.length
  · rw [if_pos hlong, if_pos hlong]
    rfl
  · have hpieces := @pieces_eq _ _ hsearch [] word (List.forall_mem_nil _) hword
      ((encodeCps word).length + 1) word.length (Nat.lt_succ_of_le (length_le_encodeCps hword)) le_rfl
    rw [List.nil_append, if_pos rfl] at hpieces
    rw [if_neg hlong, if_neg hlong]
    rw [show (encodeCps []).length = 0 from rfl] at hpieces
    rw [hpieces]
    cases greedy wp.vocab.keys word.length [] word with
    | none => rfl
    | some ps => rfl

end Recursant.Tokenizer
