import Mathlib.Algebra.BigOperators.Group.Finset.Basic
import Mathlib.Data.Nat.Bitwise
import Mathlib.Data.Rat.BigOperators
import Recursant.Bridge.Exporter
import Recursant.Context.Prompt

/-!
# What the prompt classifier computes

The linear term of the score as a formula over the text, and as the training side computes it in
`features.py`.
-/

namespace Recursant.Prompt

open Bridge (Str utf8)

/-! ## The formula -/

/-- The value of a name in an object of numbers. -/
def valueIn (s : Json) (object name : Text) : Option Rat :=
  ((s.get? object).bind fun o => o.get? name).bind Json.number?

/-- The words of a text that a vocabulary can have, in lower case. -/
def wordsOf (t : Text) : List Text :=
  ((Runs.words alnum t).filter fun w => w.length ≤ tokenMax).map fun w => w.map tolower

/-- The share of the bytes that are in a list. -/
def share (bytes t : Text) : Rat :=
  if t = [] then 0 else (t.countP fun c => c ∈ bytes : Nat) / (t.length : Rat)

def digitBytes : Text := text "0123456789"

section

variable (log1p : Nat → Rat)

def denseOf (t : Text) : List Rat :=
  [1, log1p t.length, log1p (t.count 10), log1p (Runs.words alnum t).length, share codeBytes t,
    share digitBytes t, share opsBytes t, if 63 ∈ t then 1 else 0]

/-- The weights of the dense features, and those of the distinct words that the vocabulary has. -/
def linear (s : Json) (t : Text) : Rat :=
  dot (names.map fun name => (valueIn s "weights" name).getD 0) (denseOf log1p t) +
    ∑ w ∈ (wordsOf t).toFinset with (valueIn s "vocab" w).isSome, (valueIn s "vocab" w).getD 0

/-- The text of a part of a content that is a list. -/
def partText (part : Json) : Option Text :=
  if (part.get? "type").bind Json.text? = some (text "text") then (part.get? "text").bind Json.text?
  else none

/-- The newest message's text, if it is a user message. -/
def newestText (body : Json) : Option Text :=
  match ((body.get? "messages").map Json.elements).getD [] |>.getLast? with
  | none => none
  | some last =>
      if (last.get? "role").bind Json.text? = some (text "user") then
        match last.get? "content" with
        | some (.string t) => some t
        | some (.array parts) =>
            match parts.filterMap partText with
            | [] => none
            | t :: ts => some (List.intercalate [10] (t :: ts))
        | _ => none
      else none

/-! ## The training side -/

/-- `tokens`, with as many rounds as there are bytes. -/
def tokensFrom : Nat → Text → List Text
  | 0, _ => []
  | _, [] => []
  | rounds + 1, c :: rest =>
      if !alnum c then tokensFrom rounds rest
      else (c :: rest).takeWhile alnum :: tokensFrom rounds ((c :: rest).dropWhile alnum)

def tokens (data : Text) : List Text := tokensFrom data.length data

/-- `features` of the encoded text: the dictionary, and the words as a set. -/
def features (data : Text) : List (Text × Rat) × Finset Text :=
  let data := data.take textMax
  let n := data.length
  let toks := tokens data
  let part (p : Byte → Bool) : Rat := if n = 0 then 0 else (data.countP p : Nat) / (n : Rat)
  ([(text "bias", 1), (text "log_chars", log1p n), (text "log_lines", log1p (data.count 10)),
      (text "log_tokens", log1p toks.length), (text "code_frac", part fun b => b ∈ codeBytes),
      (text "digit_frac", part fun b => 48 ≤ b ∧ b ≤ 57), (text "ops_frac", part fun b => b ∈ opsBytes),
      (text "question", if 63 ∈ data then 1 else 0)],
    ((toks.filter fun t => t.length ≤ tokenMax).map fun t => t.map tolower).toFinset)

/-- `score` up to the clamp and the logistic function. -/
def trainedScore (model : Json) (t : Str) : Option Rat :=
  (utf8 t).map fun data =>
    let (d, toks) := features log1p data
    (d.map fun kv => (valueIn model "weights" kv.1).getD 0 * kv.2).sum +
      ∑ w ∈ toks, (valueIn model "vocab" w).getD 0

end

/-! ## The vocabulary's table -/

theorem fill_holds {k : Nat} {key : Nat → Option Text} (rest : List (Text × Nat))
    {slots : Nat → Nat} {entries : List (Text × Nat)}
    (h : Probing.Holds (2 ^ k) (fun s => (hash s).toNat) key slots entries)
    (hroom : (entries ++ rest).length < 2 ^ k) (hkey : ∀ p ∈ rest, key p.2 = some p.1) :
    ∃ full, fill (2 ^ k - 1) slots rest = some full ∧
      Probing.Holds (2 ^ k) (fun s => (hash s).toNat) key full (entries ++ rest) := by
  induction rest generalizing slots entries with
  | nil =>
      rw [List.append_nil]
      exact ⟨slots, rfl, h⟩
  | cons p rest ih =>
      obtain ⟨name, e⟩ := p
      have hcap : 2 ^ k - 1 + 1 = 2 ^ k := Nat.sub_add_cancel (Nat.two_pow_pos k)
      rw [List.length_append, List.length_cons] at hroom
      obtain ⟨slots', hplace, hholds⟩ := h.place (by omega) (k := name) (e := e)
        (hkey _ List.mem_cons_self) (le_refl (2 ^ k))
      rw [fill, hcap]
      simp only [Nat.and_two_pow_sub_one_eq_mod]
      rw [hplace]
      rw [show entries ++ (name, e) :: rest = entries ++ [(name, e)] ++ rest by simp]
      apply ih hholds
      · rw [List.length_append, List.length_append, List.length_singleton]
        omega
      · exact fun q hq => hkey q (List.mem_cons_of_mem _ hq)

/-- The index of a key stands for its first entry. -/
theorem lookup_zipIdx (entries : List (Text × Rat)) (s : Text) (n : Nat) :
    ∃ e, ((entries.map Prod.fst).zipIdx n).lookup s = e ∧ (∀ i, e = some i → n ≤ i) ∧
      e.map (fun i => (entries.map Prod.snd).getD (i - n) 0) = entries.lookup s := by
  refine ⟨_, rfl, ?_⟩
  induction entries generalizing n with
  | nil => exact ⟨nofun, rfl⟩
  | cons p entries ih =>
      obtain ⟨name, w⟩ := p
      obtain ⟨hle, hvalue⟩ := ih (n + 1)
      rw [List.map_cons, List.map_cons, List.zipIdx_cons, List.lookup_cons, List.lookup_cons]
      by_cases hname : s = name
      · rw [hname, beq_self_eq_true]
        exact ⟨fun i hi => (Option.some.inj hi).le, by simp⟩
      · rw [beq_false_of_ne hname]
        refine ⟨fun i hi => Nat.le_of_succ_le (hle i hi), ?_⟩
        rw [← hvalue]
        cases hindex : ((entries.map Prod.fst).zipIdx (n + 1)).lookup s with
        | none => rfl
        | some i =>
            have hi := hle i hindex
            show some ((w :: entries.map Prod.snd).getD (i - n) 0) =
              some ((entries.map Prod.snd).getD (i - (n + 1)) 0)
            rw [show i - n = i - (n + 1) + 1 by omega]
            rfl

/-- The table of a vocabulary: each key is found with the weight of its first entry, and any other
is absent. -/
theorem vocab_spec (entries : List (Text × Rat)) :
    ∃ v, vocab entries = some v ∧ ∀ s, ∃ e, lookup v s = some e ∧
      e.map (fun i => v.weights.getD i 0) = entries.lookup s ∧
      ∀ i, e = some i → v.keys[i]? = some s := by
  obtain ⟨k, hcap, hroom⟩ := Probing.capacity_spec entries.length
  have hkeyed : ∀ p ∈ (entries.map Prod.fst).zipIdx, (entries.map Prod.fst)[p.2]? = some p.1 := by
    intro p hp
    exact List.mem_zipIdx_iff_getElem?.mp hp
  obtain ⟨slots, hfill, hholds⟩ := @fill_holds k ((entries.map Prod.fst)[·]?)
    (entries.map Prod.fst).zipIdx _ _ Probing.Holds.empty (by simpa using hroom) hkeyed
  rw [List.nil_append] at hholds
  refine ⟨⟨2 ^ k - 1, entries.map Prod.fst, entries.map Prod.snd, slots⟩, ?_, ?_⟩
  · unfold vocab
    dsimp only
    rw [show capacity entries.length = 2 ^ k from hcap, hfill]
    rfl
  · intro s
    obtain ⟨e, hindex, -, hvalue⟩ := lookup_zipIdx entries s 0
    refine ⟨e, ?_, hvalue, ?_⟩
    · unfold lookup
      dsimp only
      by_cases hnil : entries.map Prod.fst = []
      · rw [if_pos hnil, ← hindex, hnil]
        rfl
      · rw [if_neg hnil, Nat.sub_add_cancel (Nat.two_pow_pos k)]
        simp only [Nat.and_two_pow_sub_one_eq_mod]
        rw [hholds.find (by simpa using hroom) s le_rfl, hindex]
    · intro i hi
      rw [hi] at hindex
      exact hkeyed _ (Probing.mem_of_lookup hindex)

/-! ## The words that are counted -/

theorem isSeen_mark (seen : Nat → Nat) (e e' : Nat) :
    isSeen (mark seen e) e' = (decide (e' = e) || isSeen seen e') := by
  have hbit : ∀ x k, decide (x &&& (1 <<< k) ≠ 0) = x.testBit k := by
    intro x k
    rw [Nat.one_shiftLeft, Nat.and_two_pow]
    cases x.testBit k with
    | false => simp
    | true => simp
  unfold isSeen mark
  rw [hbit, hbit]
  by_cases hbyte : e' / 8 = e / 8
  · rw [hbyte, Function.update_self, Nat.testBit_or, Nat.one_shiftLeft, Nat.testBit_two_pow,
      Bool.or_comm]
    have hsame : e % 8 = e' % 8 ↔ e' = e := by omega
    rw [decide_eq_decide.mpr hsame]
  · have hne : ¬ e' = e := fun h => hbyte (by rw [h])
    rw [Function.update_of_ne hbyte, decide_eq_false hne, Bool.false_or]

section

variable {v : Vocab} {entries : List (Text × Rat)}

/-- What a lookup gives. -/
def Answers (v : Vocab) (entries : List (Text × Rat)) : Prop :=
  ∀ s, ∃ e, lookup v s = some e ∧ e.map (fun i => v.weights.getD i 0) = entries.lookup s ∧
    ∀ i, e = some i → v.keys[i]? = some s

/-- The words so far are counted, each once. -/
structure Counted (v : Vocab) (entries : List (Text × Rat)) (start : Rat) (words : Finset Text)
    (k : Sum) : Prop where
  seen : ∀ e, isSeen k.seen e = true ↔ ∃ w ∈ words, lookup v w = some (some e)
  z : k.z = start + ∑ w ∈ words, (entries.lookup w).getD 0

theorem Counted.start (z : Rat) : Counted v entries z ∅ ⟨fun _ => 0, z⟩ where
  seen := by
    intro e
    simp [isSeen]
  z := by simp

theorem addToken_counted (h : Answers v entries) {start : Rat} {words : Finset Text} {k : Sum}
    (hk : Counted v entries start words k) (run : Text) :
    ∃ k', addToken v k run = some k' ∧
      Counted v entries start
        (if run.length ≤ tokenMax then insert (run.map tolower) words else words) k' := by
  unfold addToken
  by_cases hlong : run.length ≤ tokenMax
  · rw [if_pos hlong, if_pos hlong]
    obtain ⟨e, hlookup, hvalue, hkey⟩ := h (run.map tolower)
    rw [hlookup]
    cases e with
    | none =>
        refine ⟨k, rfl, ?_, ?_⟩
        · intro e
          rw [hk.seen e, Finset.exists_mem_insert, hlookup]
          simp
        · rw [hk.z]
          by_cases hin : run.map tolower ∈ words
          · rw [Finset.insert_eq_of_mem hin]
          · rw [Finset.sum_insert hin, ← hvalue]
            simp
    | some i =>
        dsimp only
        by_cases hseen : isSeen k.seen i = true
        · -- the word with this index is the word itself
          rw [if_pos hseen]
          obtain ⟨w, hw, hword⟩ := (hk.seen i).mp hseen
          have hsame : w = run.map tolower := by
            obtain ⟨e, hlookup', -, hkey'⟩ := h w
            rw [hword] at hlookup'
            have hw' := hkey' i (Option.some.inj hlookup').symm
            rw [hkey i rfl] at hw'
            exact (Option.some.inj hw').symm
          rw [← hsame, Finset.insert_eq_of_mem hw]
          exact ⟨k, rfl, hk⟩
        · rw [if_neg hseen]
          have hnew : run.map tolower ∉ words :=
            fun hin => hseen ((hk.seen i).mpr ⟨_, hin, hlookup⟩)
          refine ⟨_, rfl, ?_, ?_⟩
          · intro e
            rw [isSeen_mark, Bool.or_eq_true, decide_eq_true_eq, hk.seen e,
              Finset.exists_mem_insert, hlookup]
            simp [eq_comm]
          · dsimp only
            rw [hk.z, Finset.sum_insert hnew, ← hvalue]
            simp only [Option.map_some, Option.getD_some]
            ring
  · rw [if_neg hlong, if_neg hlong]
    exact ⟨k, rfl, hk⟩

/-- The words of the runs, as a set. -/
def eligible (runs : List Text) : Finset Text :=
  ((runs.filter fun w => w.length ≤ tokenMax).map fun w => w.map tolower).toFinset

theorem eligible_cons (run : Text) (runs : List Text) :
    eligible (run :: runs) =
      if run.length ≤ tokenMax then insert (run.map tolower) (eligible runs) else eligible runs := by
  unfold eligible
  by_cases h : run.length ≤ tokenMax
  · rw [if_pos h, List.filter_cons_of_pos (by simpa using h), List.map_cons, List.toFinset_cons]
  · rw [if_neg h, List.filter_cons_of_neg (by simpa using h)]

theorem addTokens_counted (h : Answers v entries) {start : Rat} (rounds : Nat) {t : Text}
    (hrounds : t.length ≤ rounds) {words : Finset Text} {k : Sum}
    (hk : Counted v entries start words k) :
    ∃ k', addTokens v rounds t k = some k' ∧
      Counted v entries start (words ∪ eligible (Runs.words alnum t)) k' := by
  induction rounds generalizing t words k with
  | zero =>
      rw [List.length_eq_zero_iff.mp (Nat.le_zero.mp hrounds)]
      exact ⟨k, rfl, by simpa [Runs.words_nil, eligible] using hk⟩
  | succ rounds ih =>
      cases t with
      | nil => exact ⟨k, rfl, by simpa [Runs.words_nil, eligible] using hk⟩
      | cons c rest =>
          rw [List.length_cons] at hrounds
          rw [addTokens]
          by_cases hc : alnum c = true
          · rw [if_pos hc, Runs.words_run hc, List.dropWhile_cons_of_pos hc]
            obtain ⟨k', hadd, hk'⟩ := addToken_counted h hk ((c :: rest).takeWhile alnum)
            rw [hadd]
            dsimp only
            have hshort : (rest.dropWhile alnum).length ≤ rounds :=
              (List.dropWhile_suffix alnum).length_le.trans (Nat.le_of_succ_le_succ hrounds)
            obtain ⟨k'', hrest, hk''⟩ := ih hshort hk'
            refine ⟨k'', hrest, ?_⟩
            rw [eligible_cons]
            by_cases hlong : ((c :: rest).takeWhile alnum).length ≤ tokenMax
            · rw [if_pos hlong] at hk'' ⊢
              rwa [Finset.union_insert, ← Finset.insert_union]
            · rw [if_neg hlong] at hk'' ⊢
              exact hk''
          · rw [if_neg hc, Runs.words_break (Bool.not_eq_true _ ▸ hc)]
            exact ih (Nat.le_of_succ_le_succ hrounds) hk

end

/-! ## The dense features -/

theorem mem_digitBytes {c : Byte} : c ∈ digitBytes ↔ isdigit c = true := by
  have hall : ∀ n < 256, UInt8.ofNat n ∈ digitBytes ↔ isdigit (UInt8.ofNat n) = true := by
    decide +kernel
  have hc := hall c.toNat c.toNat_lt
  rwa [UInt8.ofNat_toNat] at hc

theorem add_count (p : Prop) [Decidable p] (a n : Nat) :
    (if p then a + 1 else a) + n = a + (n + if p then 1 else 0) := by
  by_cases h : p
  · rw [if_pos h, if_pos h]
    omega
  · rw [if_neg h, if_neg h]
    rfl

/-- The bytes so far are counted. -/
theorem foldl_count (t : Text) (k : Counts) :
    t.foldl count k =
      ⟨k.lines + t.count 10, k.code + t.countP (fun c => c ∈ codeBytes),
        k.digits + t.countP (fun c => c ∈ digitBytes), k.ops + t.countP (fun c => c ∈ opsBytes),
        (t.foldl (Runs.enter alnum) (k.tokens, k.inside)).1, k.question || decide (63 ∈ t),
        (t.foldl (Runs.enter alnum) (k.tokens, k.inside)).2⟩ := by
  induction t generalizing k with
  | nil => simp
  | cons c t ih =>
      -- no list of bytes holds the NUL
      have hcode : (c ≠ 0 ∧ c ∈ codeBytes) ↔ c ∈ codeBytes :=
        and_iff_right_of_imp fun hc h0 => absurd (h0 ▸ hc) (by decide)
      have hops : (c ≠ 0 ∧ c ∈ opsBytes) ↔ c ∈ opsBytes :=
        and_iff_right_of_imp fun hc h0 => absurd (h0 ▸ hc) (by decide)
      have hdigit : isdigit c = decide (c ∈ digitBytes) := by
        rw [Bool.eq_iff_iff, decide_eq_true_eq, mem_digitBytes]
      rw [List.foldl_cons, ih]
      unfold count
      dsimp only
      rw [List.count_cons, List.countP_cons, List.countP_cons, List.countP_cons, List.foldl_cons,
        hdigit]
      simp only [hcode, hops, decide_eq_true_eq, beq_iff_eq, Counts.mk.injEq]
      refine ⟨add_count .., add_count .., add_count .., add_count .., rfl, ?_, rfl⟩
      rw [Bool.or_assoc]
      congr 1
      simp [Bool.beq_eq_decide_eq, eq_comm]

theorem dense_eq (log1p : Nat → Rat) (t : Text) : dense log1p t = denseOf log1p (t.take textMax) := by
  unfold dense denseOf share
  dsimp only
  rw [foldl_count, Runs.enter_words]
  generalize t.take textMax = t
  dsimp only
  by_cases hnil : t = []
  · simp [hnil, Runs.words_nil]
  · have hlength : t.length ≠ 0 := fun h => hnil (List.length_eq_zero_iff.mp h)
    simp [hnil]

/-! ## The sections that are accepted -/

theorem weight_some {v : Json} {w : Rat} (h : weight v = some w) : v.number? = some w := by
  unfold weight at h
  split at h
  next w' hw =>
    split at h
    · cases h
    · rw [hw, h]
  · cases h

theorem names_nodup : names.Nodup := by decide

theorem denseWeights_spec {members : List (Text × Json)} (hkeys : (members.map Prod.fst).Nodup)
    {before after : List Rat} (hlength : before.length = names.length)
    (h : denseWeights members before = some after) : after.length = names.length ∧
      ∀ i (hi : i < names.length), after[i]? =
        match (members.lookup names[i]).bind Json.number? with
        | some w => some w
        | none => before[i]? := by
  induction members generalizing before with
  | nil =>
      cases h
      exact ⟨hlength, fun i hi => rfl⟩
  | cons m members ih =>
      obtain ⟨key, v⟩ := m
      rw [List.map_cons, List.nodup_cons] at hkeys
      rw [denseWeights] at h
      split at h
      next hname =>
        cases hw : weight v with
        | none => rw [hw] at h; cases h
        | some w =>
            rw [hw] at h
            obtain ⟨hafter, hrest⟩ := ih hkeys.2 (by rw [List.length_set]; exact hlength) h
            refine ⟨hafter, ?_⟩
            intro i hi
            rw [hrest i hi, List.lookup_cons]
            by_cases hsame : names[i] = key
            · -- the name is set here, and no later
              have hnone : members.lookup names[i] = none := by
                rw [List.lookup_eq_none_iff]
                intro m hm
                have hne : m.1 ≠ key := fun heq => hkeys.1 (List.mem_map.mpr ⟨m, hm, heq⟩)
                rw [hsame]
                simpa using Ne.symm hne
              have hindex : names.idxOf key = i := by
                rw [← hsame]
                exact names_nodup.idxOf_getElem i hi
              rw [hnone, hsame, beq_self_eq_true, hindex]
              dsimp only
              rw [Option.bind_some, weight_some hw, Option.bind_none,
                List.getElem?_set_self (by omega)]
            · rw [beq_false_of_ne hsame, List.getElem?_set_ne]
              rintro rfl
              exact hsame (List.getElem_idxOf hi)
      · cases h

theorem vocabEntries_spec {members : List (Text × Json)} {entries : List (Text × Rat)}
    (h : vocabEntries members = some entries) (w : Text) :
    entries.lookup w = (members.lookup w).bind Json.number? := by
  induction members generalizing entries with
  | nil =>
      cases h
      rfl
  | cons m members ih =>
      obtain ⟨key, v⟩ := m
      rw [vocabEntries] at h
      split at h
      · split at h
        next x rest hx hrest =>
          cases h
          rw [List.lookup_cons, List.lookup_cons, ih hrest]
          by_cases hsame : w = key
          · rw [hsame, beq_self_eq_true]
            exact (weight_some hx).symm
          · rw [beq_false_of_ne hsame]
        · cases h
      · cases h

/-- What an accepted section without an encoder sets up. -/
structure Accepted (s : Json) (c : Config) : Prop where
  enabled : c.enabled = true
  encoder : c.encoder = none
  weights : c.weights = names.map fun name => (valueIn s "weights" name).getD 0
  vocab : ∃ entries, Answers c.vocab entries ∧ ∀ w, entries.lookup w = valueIn s "vocab" w

theorem configure_accepted {configureEncoder : Json → Option Encoder} {s : Json} {c : Config}
    (hkeys : ∀ members, s.get? "weights" = some (.object members) → (members.map Prod.fst).Nodup)
    (hencoder : s.get? "encoder" = none) (h : configure configureEncoder s = some (some c)) :
    Accepted s c := by
  unfold configure at h
  cases hchecked : checkSection s with
  | none => rw [hchecked] at h; cases h
  | some k =>
      obtain ⟨v, hv, hanswers⟩ := vocab_spec k.entries
      rw [hchecked] at h
      dsimp only at h
      rw [hv] at h
      dsimp only at h
      rw [hencoder] at h
      cases h
      unfold checkSection at hchecked
      split at hchecked
      next members =>
        split at hchecked
        · cases hchecked
        split at hchecked
        next w vm simpleMin hw hvm hmin =>
          dsimp only at hchecked
          split at hchecked
          · cases hchecked
          split at hchecked
          · cases hchecked
          split at hchecked
          · cases hchecked
          next weights hweights =>
            split at hchecked
            · cases hchecked
            split at hchecked
            · cases hchecked
            split at hchecked
            · cases hchecked
            next entries hentries =>
              cases hchecked
              refine ⟨rfl, rfl, ?_, entries, hanswers, ?_⟩
              · obtain ⟨hlength, hvalues⟩ := denseWeights_spec (hkeys w hw) List.length_replicate hweights
                apply List.ext_getElem?
                intro i
                by_cases hi : i < names.length
                · rw [hvalues i hi, List.getElem?_map, List.getElem?_eq_getElem hi]
                  unfold valueIn
                  rw [hw]
                  show _ = some (((w.lookup names[i]).bind Json.number?).getD 0)
                  cases (w.lookup names[i]).bind Json.number? with
                  | some x => rfl
                  | none =>
                      dsimp only
                      rw [List.getElem?_replicate, if_pos hi]
                      rfl
                · have hover : weights.length ≤ i := by omega
                  rw [List.getElem?_eq_none hover,
                    List.getElem?_eq_none (by rw [List.length_map]; omega)]
              · intro word
                rw [vocabEntries_spec hentries]
                unfold valueIn
                rw [hvm]
                rfl
        · cases hchecked
      · cases hchecked

/-- Whatever the section, the configuration comes back. -/
theorem configure_returns (configureEncoder : Json → Option Encoder) (s : Json) :
    ∃ c, configure configureEncoder s = some c := by
  unfold configure
  cases checkSection s with
  | none => exact ⟨none, rfl⟩
  | some k =>
      obtain ⟨v, hv, -⟩ := vocab_spec k.entries
      dsimp only
      rw [hv]
      dsimp only
      cases s.get? "encoder" with
      | none => exact ⟨_, rfl⟩
      | some e =>
          dsimp only
          cases configureEncoder e with
          | none => exact ⟨none, rfl⟩
          | some encoder => exact ⟨_, rfl⟩

/-! ## The score of a text -/

section

variable {log1p : Nat → Rat} {s : Json} {c : Config}

/-- The weights of a sum over all words are zero outside the vocabulary. -/
theorem sum_known (words : Finset Text) :
    ∑ w ∈ words with (valueIn s "vocab" w).isSome, (valueIn s "vocab" w).getD 0 =
      ∑ w ∈ words, (valueIn s "vocab" w).getD 0 := by
  rw [Finset.sum_filter]
  apply Finset.sum_congr rfl
  intro w _
  cases valueIn s "vocab" w with
  | none => rfl
  | some x => rfl

theorem scoreText_eq (h : Accepted s c) (t : Text) :
    scoreText log1p c t = some (some (linear log1p s (t.take textMax))) := by
  obtain ⟨entries, hanswers, hentries⟩ := h.vocab
  obtain ⟨k, hadd, hk⟩ := addTokens_counted hanswers (t.take textMax).length le_rfl
    (@Counted.start c.vocab entries (dot c.weights (dense log1p (t.take textMax))))
  have hz : k.z = linear log1p s (t.take textMax) := by
    have hwords : eligible (Runs.words alnum (t.take textMax)) =
        (wordsOf (t.take textMax)).toFinset := rfl
    rw [hk.z, Finset.empty_union, dense_eq, List.take_take, Nat.min_self, h.weights, hwords]
    unfold linear
    rw [sum_known]
    congr 1
    apply Finset.sum_congr rfl
    intro w _
    rw [hentries]
  unfold scoreText
  rw [h.enabled, h.encoder]
  dsimp only
  rw [hadd]
  dsimp only
  rw [hz]
  rfl

/-! ## The newest message -/

theorem intercalate_concat (ts : List Text) (t : Text) :
    List.intercalate [10] (ts ++ [t]) =
      (if ts = [] then [] else List.intercalate [10] ts ++ [10]) ++ t := by
  induction ts with
  | nil => simp
  | cons u ts ih =>
      rw [if_neg (List.cons_ne_nil u ts)]
      cases ts with
      | nil => simp
      | cons v ts =>
          rw [if_neg (List.cons_ne_nil v ts), List.cons_append] at ih
          rw [List.cons_append, List.cons_append, List.intercalate_cons_cons, ih,
            List.intercalate_cons_cons]
          simp

theorem take_room (a t : Text) (m : Nat) :
    a.take m ++ t.take (m - (a.take m).length) = (a ++ t).take m := by
  rw [List.take_append, List.length_take]
  congr 2
  omega

theorem take_newline (a : Text) (m : Nat) :
    (if (a.take m).length < m then a.take m ++ [10] else a.take m) = (a ++ [10]).take m := by
  rw [List.length_take]
  by_cases h : a.length < m
  · rw [if_pos (by omega), List.take_of_length_le h.le,
      List.take_of_length_le (by rw [List.length_append, List.length_singleton]; omega)]
  · rw [if_neg (by omega), List.take_append_of_le_length (not_lt.mp h)]

/-- The buffer holds the beginning of the joined parts. -/
theorem foldl_addPart (parts : List Json) (ts : List Text) :
    parts.foldl addPart ((List.intercalate [10] ts).take textMax, !ts.isEmpty) =
      ((List.intercalate [10] (ts ++ parts.filterMap partText)).take textMax,
        !(ts ++ parts.filterMap partText).isEmpty) := by
  induction parts generalizing ts with
  | nil => simp
  | cons part parts ih =>
      rw [List.foldl_cons]
      cases hpart : partText part with
      | none =>
          have hsame : addPart ((List.intercalate [10] ts).take textMax, !ts.isEmpty) part =
              ((List.intercalate [10] ts).take textMax, !ts.isEmpty) := by
            unfold partText at hpart
            unfold addPart
            split
            next type t htype ht =>
              split
              next hname =>
                rw [htype, hname, if_pos rfl, ht] at hpart
                cases hpart
              · rfl
            · rfl
          rw [hsame, ih, List.filterMap_cons_none hpart]
      | some t =>
          have hadd : addPart ((List.intercalate [10] ts).take textMax, !ts.isEmpty) part =
              ((List.intercalate [10] (ts ++ [t])).take textMax, !(ts ++ [t]).isEmpty) := by
            unfold partText at hpart
            split at hpart
            next htype =>
              unfold addPart
              rw [htype, hpart]
              dsimp only
              rw [if_pos rfl, intercalate_concat, ← take_room]
              cases ts with
              | nil => simp
              | cons u ts =>
                  rw [if_neg (List.cons_ne_nil u ts), ← take_newline]
                  simp
            · cases hpart
          rw [hadd, ih, List.filterMap_cons_some hpart, List.append_assoc, List.singleton_append]

/-- The score is that of the newest text, and there is none without one. -/
theorem score_eq (h : Accepted s c) (body : Json) :
    score log1p c body = some ((newestText body).map fun t => linear log1p s (t.take textMax)) := by
  unfold score newestText
  cases (((body.get? "messages").map Json.elements).getD []).getLast? with
  | none => rfl
  | some last =>
    rw [h.enabled]
    dsimp only
    rw [if_neg (by decide)]
    by_cases hrole : (last.get? "role").bind Json.text? = some (text "user")
    · rw [if_neg (not_not.mpr hrole), if_pos hrole]
      cases last.get? "content" with
      | none => rfl
      | some v =>
          cases v with
          | string t => exact scoreText_eq h t
          | array parts =>
              dsimp only
              have hbuffer := foldl_addPart parts []
              rw [List.nil_append] at hbuffer
              rw [show ([], false) = ((List.intercalate [10] ([] : List Text)).take textMax,
                !([] : List Text).isEmpty) by simp, hbuffer]
              dsimp only
              cases parts.filterMap partText with
              | nil => rfl
              | cons t ts =>
                  rw [if_pos (by rfl), scoreText_eq h, List.take_take, Nat.min_self]
                  rfl
          | null => rfl
          | bool b => rfl
          | integer n => rfl
          | real bits => rfl
          | object members => rfl
    · rw [if_pos hrole, if_neg hrole]
      rfl

/-! ## The training side -/

theorem tokensFrom_eq (rounds : Nat) {data : Text} (hrounds : data.length ≤ rounds) :
    tokensFrom rounds data = Runs.words alnum data := by
  induction rounds generalizing data with
  | zero =>
      rw [List.length_eq_zero_iff.mp (Nat.le_zero.mp hrounds)]
      rfl
  | succ rounds ih =>
      cases data with
      | nil => rfl
      | cons c rest =>
          rw [List.length_cons] at hrounds
          rw [tokensFrom]
          by_cases hc : alnum c = true
          · have hshort : (rest.dropWhile alnum).length ≤ rounds :=
              (List.dropWhile_suffix alnum).length_le.trans (Nat.le_of_succ_le_succ hrounds)
            rw [hc, if_neg (by decide), Runs.words_run hc, List.dropWhile_cons_of_pos hc, ih hshort]
          · rw [Bool.not_eq_true] at hc
            rw [hc, if_pos (by rfl), Runs.words_break hc, ih (Nat.le_of_succ_le_succ hrounds)]

theorem share_eq (bytes data : Text) {p : Byte → Bool} (hp : ∀ c, p c = decide (c ∈ bytes)) :
    (if data.length = 0 then (0 : Rat) else (data.countP p : Nat) / (data.length : Rat)) =
      share bytes data := by
  unfold share
  rw [show p = fun c => decide (c ∈ bytes) from funext hp]
  simp only [List.length_eq_zero_iff]

theorem trainedScore_eq {t : Str} {data : Text} (hdata : utf8 t = some data) :
    trainedScore log1p s t = some (linear log1p s (data.take textMax)) := by
  have hdigit : ∀ c : Byte, decide (48 ≤ c ∧ c ≤ 57) = decide (c ∈ digitBytes) := by
    intro c
    rw [decide_eq_decide, mem_digitBytes]
    unfold isdigit
    rw [Bool.and_eq_true, decide_eq_true_eq, decide_eq_true_eq]
  unfold trainedScore features tokens linear
  rw [hdata, Option.map_some, sum_known]
  dsimp only
  rw [tokensFrom_eq _ le_rfl, share_eq codeBytes _ fun _ => rfl, share_eq digitBytes _ hdigit,
    share_eq opsBytes _ fun _ => rfl]
  rfl

/-! ## The reference -/

/-- For a section that is accepted without an encoder, the linear term of the score of every body is
the formula over the beginning of its newest text, and there is no score exactly without such a text;
the training side computes the same of every text; and every lookup ends, with the configured weight
or without one. -/
theorem score_reference (log1p : Nat → Rat) (configureEncoder : Json → Option Encoder) (s : Json)
    (hkeys : ∀ members, s.get? "weights" = some (.object members) → (members.map Prod.fst).Nodup)
    (hencoder : s.get? "encoder" = none) (c : Config)
    (haccepted : configure configureEncoder s = some (some c)) :
    (∀ body, score log1p c body =
      some ((newestText body).map fun t => linear log1p s (t.take textMax))) ∧
    (∀ t data, utf8 t = some data →
      trainedScore log1p s t = some (linear log1p s (data.take textMax))) ∧
    ∀ w, ∃ e, lookup c.vocab w = some e ∧
      e.map (fun i => c.vocab.weights.getD i 0) = valueIn s "vocab" w := by
  have h := configure_accepted hkeys hencoder haccepted
  refine ⟨score_eq h, fun t data => trainedScore_eq, ?_⟩
  obtain ⟨entries, hanswers, hentries⟩ := h.vocab
  intro w
  obtain ⟨e, hlookup, hvalue, -⟩ := hanswers w
  exact ⟨e, hlookup, hvalue.trans (hentries w)⟩

end

/-- A section with two words, and a message that has one of them twice. -/
def greetingSection : Json := .object [
  (text "weights", .object [(text "bias", .integer 3), (text "question", .integer (-1))]),
  (text "vocab", .object [(text "hello", .integer 5), (text "proof", .integer 7)]),
  (text "simple_min", .integer 1)]

def greetingBody : Json := .object [(text "messages", .array [.object [
  (text "role", .string (text "user")), (text "content", .string (text "Hello, hello?"))]])]

theorem score_reference_greeting : ∃ c,
    configure (fun _ => none) greetingSection = some (some c) ∧
    score (fun n => n) c greetingBody = some (some 7) := by
  have hchecked : checkSection greetingSection =
      some ⟨[3, 0, 0, 0, 0, 0, 0, -1], [(text "hello", 5), (text "proof", 7)], 1, false⟩ := by
    decide +kernel
  obtain ⟨v, hv, -⟩ := vocab_spec [(text "hello", 5), (text "proof", 7)]
  have haccepted : configure (fun _ => none) greetingSection =
      some (some ⟨true, false, 1, [3, 0, 0, 0, 0, 0, 0, -1], v, none⟩) := by
    unfold configure
    rw [hchecked]
    dsimp only
    rw [hv]
    rfl
  have hkeys : ∀ members, greetingSection.get? "weights" = some (.object members) →
      (members.map Prod.fst).Nodup := by
    intro members hmembers
    have hget : greetingSection.get? "weights" =
        some (.object [(text "bias", .integer 3), (text "question", .integer (-1))]) := by
      decide +kernel
    rw [hget] at hmembers
    cases hmembers
    decide
  refine ⟨_, haccepted, ?_⟩
  rw [(score_reference _ _ _ hkeys (by decide +kernel) _ haccepted).1]
  decide +kernel

end Recursant.Prompt
