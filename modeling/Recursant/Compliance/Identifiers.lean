import Mathlib.Data.List.TakeWhile
import Recursant.Text

/-!
# The identifier scan

`identifiers.c`.  One pass over a text joins neighbouring digit groups, never goes back, and tests
the digits it joined against the check-digit kinds.
-/

namespace Recursant.Identifiers

/-- `isalnum` of the C locale. -/
def isalnum (c : Byte) : Bool := isdigit c || (65 ≤ c && c ≤ 90) || (97 ≤ c && c ≤ 122)

/-- A single space or hyphen, which printed groups are joined by. -/
def isSep (c : Byte) : Bool := c == 32 || c == 45

theorem isalnum_of_isdigit {c : Byte} (h : isdigit c = true) : isalnum c = true := by
  unfold isalnum
  rw [h]
  rfl

theorem not_isalnum_of_isSep {c : Byte} (h : isSep c = true) : isalnum c = false := by
  unfold isSep at h
  rw [Bool.or_eq_true, beq_iff_eq, beq_iff_eq] at h
  cases h with
  | inl h => subst h; decide
  | inr h => subst h; decide

theorem not_isdigit_of_isSep {c : Byte} (h : isSep c = true) : isdigit c = false := by
  by_contra hd
  have halnum := isalnum_of_isdigit (Bool.eq_true_of_not_eq_false hd)
  rw [not_isalnum_of_isSep h] at halnum
  cases halnum

/-- The text starts with such a byte. -/
def leads (p : Byte → Bool) (s : Text) : Bool := s.head?.any p

@[simp] theorem leads_nil (p : Byte → Bool) : leads p [] = false := rfl

@[simp] theorem leads_cons (p : Byte → Bool) (c : Byte) (s : Text) : leads p (c :: s) = p c := rfl

theorem leads_append {p : Byte → Bool} {s : Text} (hs : s ≠ []) (t : Text) :
    leads p (s ++ t) = leads p s := by
  cases s with
  | nil => exact absurd rfl hs
  | cons c s => rfl

/-! ## The check digits -/

/-- `at`. -/
def digitAt (d : Text) (i : Nat) : Nat := (d.getD i 48).toNat - 48

def weighted (w : List Nat) (d : Text) : Nat :=
  ((List.range w.length).map fun i => digitAt d i * w.getD i 0).sum

def tfn (d : Text) : Bool :=
  d.length == 9 && weighted [1, 4, 3, 7, 5, 8, 6, 9, 10] d % 11 == 0

def medicare (d : Text) : Bool :=
  (d.length == 10 || d.length == 11) && !(d.getD 0 0 < 50 || d.getD 0 0 > 54 || d.getD 9 0 == 48) &&
    weighted [1, 3, 7, 9, 1, 3, 7, 9] d % 10 == digitAt d 8

def abn (d : Text) : Bool :=
  d.length == 11 && d.getD 0 0 != 48 &&
    ((digitAt d 0 - 1) * 10 + weighted [0, 1, 3, 5, 7, 9, 11, 13, 15, 17, 19] d) % 89 == 0

def cardShape (d : Text) : Bool :=
  (d.length == 16 && (d.getD 0 0 == 52 || (d.getD 0 0 == 53 && d.getD 1 0 ≥ 49 && d.getD 1 0 ≤ 53) ||
      (d.getD 0 0 == 50 && d.getD 1 0 ≥ 50 && d.getD 1 0 ≤ 55) || (text "6011").isPrefixOf d ||
      (text "65").isPrefixOf d)) ||
    (d.length == 15 && d.getD 0 0 == 51 && (d.getD 1 0 == 52 || d.getD 1 0 == 55))

/-- Every second digit from the right counts twice, less nine where that has two digits. -/
def luhn (d : Text) : Nat :=
  ((List.range d.length).map fun i =>
    let v := digitAt d (d.length - 1 - i) * (if i % 2 = 1 then 2 else 1)
    if v > 9 then v - 9 else v).sum

def card (d : Text) : Bool := cardShape d && luhn d % 10 == 0

/-- The check-digit kinds, `RC_ID_CHECKED`. -/
inductive Kind where
  | tfn
  | medicare
  | abn
  | card
  deriving DecidableEq, Repr

namespace Kind

def bit : Kind → UInt32
  | tfn => 1
  | medicare => 2
  | abn => 4
  | card => 8

def check : Kind → Text → Bool
  | tfn => Identifiers.tfn
  | medicare => Identifiers.medicare
  | abn => Identifiers.abn
  | card => Identifiers.card

/-- The layouts a kind is printed in, as the lengths of the groups. -/
def layouts : Kind → List (List Nat)
  | tfn => [[3, 3, 3]]
  | medicare => [[4, 5, 1]]
  | abn => [[2, 3, 3, 3]]
  | card => [[4, 4, 4, 4], [4, 6, 5]]

end Kind

/-- The kind's bit is set. -/
def has (found : UInt32) (k : Kind) : Bool := found &&& k.bit != 0

/-! ## The scan -/

/-- `layout`. -/
def layout (groups : List Text) (want : List Nat) : Bool := groups.map List.length == want

def printedAs (k : Kind) (groups : List Text) : Bool := k.layouts.any (layout groups)

/-- The group may be joined to a next one. -/
def joinable (g : Text) : Bool := 2 ≤ g.length && g.length ≤ 6

/-- A separator and then a digit. -/
def opensGroup : Text → Bool
  | c :: d :: _ => isSep c && isdigit d
  | _ => false

/-- The inner loop: the digit groups joined from here, with room for `left` more, and what follows
them. -/
def chain : Nat → Text → List Text × Text
  | 0, s => ([s.takeWhile isdigit], s.dropWhile isdigit)
  | left + 1, s =>
    let g := s.takeWhile isdigit
    let rest := s.dropWhile isdigit
    if opensGroup rest && joinable g then
      let joined := chain left rest.tail
      (g :: joined.1, joined.2)
    else ([g], rest)

/-- The kinds that the joined groups are taken for. -/
def recognised (mask : UInt32) (groups : List Text) : UInt32 :=
  let d := groups.flatten
  let whole := groups.length == 1
  let found := fun k : Kind =>
    if has mask k && (whole || printedAs k groups) && k.check d then k.bit else 0
  found .tfn ||| found .medicare ||| found .abn ||| found .card

/-- What the chain that starts here adds. -/
def chainFound (mask : UInt32) (groups : List Text) (rest : Text) : UInt32 :=
  if groups.flatten.length ≤ 20 && !leads isalnum rest then recognised mask groups else 0

/-- The outer loop, of which every round moves on. -/
def scanFrom (text : Text) (mask : UInt32) : Nat → Nat → UInt32
  | 0, _ => 0
  | fuel + 1, i =>
    if i < text.length then
      let rest := text.drop i
      if !leads isdigit rest || (0 < i && isalnum (text.getD (i - 1) 0)) then
        scanFrom text mask fuel (i + 1)
      else
        let joined := chain 5 rest
        chainFound mask joined.1 joined.2 |||
          scanFrom text mask fuel (text.length - joined.2.length)
    else 0

/-- `rc_identifiers_scan`. -/
def scan (text : Text) (mask : UInt32) : UInt32 := scanFrom text (mask &&& 15) text.length 0

example : scan "card 3782 822463 10005" 15 = Kind.card.bit := by decide +kernel

example : scan "12 123456782" 15 = 0 := by decide +kernel

example : scan "123456782 51824753556" 5 = 5 := by decide +kernel

/-! ## What a chain joins -/

/-- Nothing but digits, and at least one. -/
def IsGroup (g : Text) : Prop := g ≠ [] ∧ ∀ c ∈ g, isdigit c = true

/-- The inner loop as a derivation: with room for `left` more, `groups` are what it joins out of
`body` when `rest` follows. -/
inductive Chained : Nat → List Text → Text → Text → Prop where
  | stop {left : Nat} {g rest : Text} (group : IsGroup g) (ended : leads isdigit rest = false)
      (stays : left = 0 ∨ (opensGroup rest && joinable g) = false) : Chained left [g] g rest
  | more {left : Nat} {g body rest : Text} {c : Byte} {groups : List Text} (group : IsGroup g)
      (wide : joinable g = true) (sep : isSep c = true) (later : Chained left groups body rest) :
      Chained (left + 1) (g :: groups) (g ++ c :: body) rest

theorem IsGroup.leads {g : Text} (hg : IsGroup g) : leads isdigit g = true := by
  cases g with
  | nil => exact absurd rfl hg.1
  | cons c g => exact hg.2 c List.mem_cons_self

theorem run_append {g rest : Text} (hg : ∀ c ∈ g, isdigit c = true)
    (hrest : leads isdigit rest = false) :
    (g ++ rest).takeWhile isdigit = g ∧ (g ++ rest).dropWhile isdigit = rest := by
  rw [List.takeWhile_append_of_pos hg, List.dropWhile_append_of_pos hg]
  cases rest with
  | nil => simp
  | cons c rest =>
      rw [leads_cons] at hrest
      rw [List.takeWhile_cons_of_neg (by simp [hrest]), List.dropWhile_cons_of_neg (by simp [hrest]),
        List.append_nil]
      exact ⟨rfl, rfl⟩

theorem leads_dropWhile (s : Text) : leads isdigit (s.dropWhile isdigit) = false := by
  induction s with
  | nil => rfl
  | cons c s ih =>
      by_cases hc : isdigit c = true
      · rw [List.dropWhile_cons_of_pos hc]
        exact ih
      · rw [List.dropWhile_cons_of_neg hc, leads_cons]
        exact Bool.eq_false_iff.mpr hc

theorem isGroup_takeWhile {s : Text} (hs : leads isdigit s = true) :
    IsGroup (s.takeWhile isdigit) := by
  refine ⟨fun hnil => ?_, fun c hc => List.mem_takeWhile_imp hc⟩
  cases s with
  | nil => cases hs
  | cons c s =>
      rw [leads_cons] at hs
      rw [List.takeWhile_cons_of_pos hs] at hnil
      cases hnil

theorem opensGroup_iff {s : Text} : opensGroup s = true ↔
    ∃ c rest, s = c :: rest ∧ isSep c = true ∧ leads isdigit rest = true := by
  match s with
  | [] =>
      constructor
      · intro h
        cases h
      · rintro ⟨c, rest, h, -⟩
        cases h
  | [c] =>
      constructor
      · intro h
        cases h
      · rintro ⟨d, rest, h, -, hrest⟩
        obtain ⟨-, rfl⟩ := List.cons.inj h
        cases hrest
  | c :: d :: s =>
      rw [opensGroup, Bool.and_eq_true]
      constructor
      · rintro ⟨hc, hd⟩
        exact ⟨c, d :: s, rfl, hc, hd⟩
      · rintro ⟨e, rest, h, he, hrest⟩
        obtain ⟨rfl, rfl⟩ := List.cons.inj h
        exact ⟨he, hrest⟩

/-- The inner loop from a digit follows the derivation. -/
theorem chain_chained (left : Nat) {s : Text} (hs : leads isdigit s = true) :
    ∃ body, s = body ++ (chain left s).2 ∧ Chained left (chain left s).1 body (chain left s).2 := by
  induction left generalizing s with
  | zero =>
      exact ⟨s.takeWhile isdigit, List.takeWhile_append_dropWhile.symm,
        .stop (isGroup_takeWhile hs) (leads_dropWhile s) (.inl rfl)⟩
  | succ left ih =>
      rw [chain]
      by_cases hjoin : (opensGroup (s.dropWhile isdigit) && joinable (s.takeWhile isdigit)) = true
      · simp only [hjoin, ite_true]
        rw [Bool.and_eq_true] at hjoin
        obtain ⟨c, rest, hrest, hc, hdigit⟩ := opensGroup_iff.mp hjoin.1
        rw [hrest, List.tail_cons]
        obtain ⟨body, hbody, hchained⟩ := ih hdigit
        refine ⟨s.takeWhile isdigit ++ c :: body, ?_,
          .more (isGroup_takeWhile hs) hjoin.2 hc hchained⟩
        calc s = s.takeWhile isdigit ++ s.dropWhile isdigit :=
              List.takeWhile_append_dropWhile.symm
          _ = s.takeWhile isdigit ++ c :: rest := by rw [hrest]
          _ = (s.takeWhile isdigit ++ c :: body) ++ (chain left rest).2 := by
              rw [List.append_assoc, List.cons_append, ← hbody]
      · simp only [hjoin, ite_false, Bool.false_eq_true]
        exact ⟨s.takeWhile isdigit, List.takeWhile_append_dropWhile.symm,
          .stop (isGroup_takeWhile hs) (leads_dropWhile s) (.inr (Bool.eq_false_iff.mpr hjoin))⟩

namespace Chained

variable {left : Nat} {groups : List Text} {body rest : Text}

theorem leads_body (h : Chained left groups body rest) : leads isdigit body = true := by
  cases h with
  | stop group => exact group.leads
  | more group => exact (leads_append group.1 _).trans group.leads

theorem ends (h : Chained left groups body rest) : leads isdigit rest = false := by
  induction h with
  | stop group ended => exact ended
  | more group wide sep later ih => exact ih

/-- The derivation is what the inner loop does, so there is only one from a place. -/
theorem chain_eq (h : Chained left groups body rest) :
    chain left (body ++ rest) = (groups, rest) := by
  induction h with
  | @stop left g rest group ended stays =>
      obtain ⟨htake, hdrop⟩ := run_append group.2 ended
      cases left with
      | zero => rw [chain, htake, hdrop]
      | succ left =>
          have hnot : (opensGroup rest && joinable g) = false := by
            cases stays with
            | inl hzero => cases hzero
            | inr hnot => exact hnot
          simp only [chain, htake, hdrop, hnot, Bool.false_eq_true, ite_false]
  | @more left g body rest c groups group wide sep later ih =>
      obtain ⟨htake, hdrop⟩ := @run_append _ (c :: (body ++ rest)) group.2
        (not_isdigit_of_isSep sep)
      have hopens : opensGroup (c :: (body ++ rest)) = true :=
        opensGroup_iff.mpr ⟨c, _, rfl, sep, by
          have hbody := later.leads_body
          cases body with
          | nil => cases hbody
          | cons d body => exact hbody⟩
      rw [List.append_assoc, List.cons_append]
      simp only [chain, htake, hdrop, hopens, wide, Bool.and_self, ite_true, List.tail_cons, ih]

end Chained

/-! ## The place of a chain -/

/-- How many digit groups end right before a place, each of two to six digits with no letter or
digit before it and joined to the next by a single separator.  The text is read backwards. -/
def groupsBefore : Text → Nat
  | [] => 0
  | c :: b =>
    if isSep c && joinable (b.takeWhile isdigit) && !leads isalnum (b.dropWhile isdigit) then
      groupsBefore (b.dropWhile isdigit) + 1
    else 0
termination_by b => b.length
decreasing_by
  have := (List.dropWhile_suffix (l := b) isdigit).length_le
  simp only [List.length_cons]
  omega

/-- What the outer loop knows where it stands, `b` read backwards and `s` still to come. -/
structure Fresh (b s : Text) : Prop where
  start : leads isdigit s = true → leads isalnum b = false → groupsBefore b % 6 = 0
  sep : ∀ c rest, s = c :: rest → opensGroup s = true → groupsBefore (c :: b) % 6 = 0
  inside : leads isdigit s = true → leads isalnum b = true →
    leads isalnum (b.dropWhile isdigit) = true

theorem groupsBefore_sep {c : Byte} {b : Text} (hc : isSep c = true)
    (hwide : joinable (b.takeWhile isdigit) = true)
    (hb : leads isalnum (b.dropWhile isdigit) = false) :
    groupsBefore (c :: b) = groupsBefore (b.dropWhile isdigit) + 1 := by
  rw [groupsBefore, hc, hwide, hb]
  rfl

theorem groupsBefore_eq_zero {c : Byte} {b : Text}
    (h : isSep c = false ∨ joinable (b.takeWhile isdigit) = false ∨
      leads isalnum (b.dropWhile isdigit) = true) : groupsBefore (c :: b) = 0 := by
  rw [groupsBefore, if_neg]
  intro hall
  rw [Bool.and_eq_true, Bool.and_eq_true, Bool.not_eq_true'] at hall
  obtain ⟨⟨hc, hwide⟩, hb⟩ := hall
  rcases h with h | h | h
  · exact Bool.false_ne_true (h.symm.trans hc)
  · exact Bool.false_ne_true (h.symm.trans hwide)
  · exact Bool.false_ne_true (hb.symm.trans h)

theorem Fresh.nil (s : Text) : Fresh [] s where
  start := fun _ _ => by rw [groupsBefore]
  sep := fun c rest _ _ => by rw [groupsBefore_eq_zero (.inr (.inl rfl))]
  inside := fun _ h => by cases h

theorem not_leads_isdigit {b : Text} (h : leads isalnum b = false) : leads isdigit b = false := by
  cases b with
  | nil => rfl
  | cons c b =>
      by_contra hd
      have := isalnum_of_isdigit (Bool.eq_true_of_not_eq_false hd)
      rw [leads_cons] at h
      rw [h] at this
      cases this

/-- A group read backwards. -/
theorem run_reverse_append {g b : Text} (hg : IsGroup g) (hb : leads isalnum b = false) :
    (g.reverse ++ b).takeWhile isdigit = g.reverse ∧
      (g.reverse ++ b).dropWhile isdigit = b :=
  run_append (fun c hc => hg.2 c (List.mem_reverse.mp hc)) (not_leads_isdigit hb)

theorem joinable_reverse (g : Text) : joinable g.reverse = joinable g := by
  unfold joinable
  rw [List.length_reverse]

theorem groupsBefore_group {g b : Text} {c : Byte} (hg : IsGroup g) (hwide : joinable g = true)
    (hc : isSep c = true) (hb : leads isalnum b = false) :
    groupsBefore (c :: (g.reverse ++ b)) = groupsBefore b + 1 := by
  obtain ⟨htake, hdrop⟩ := run_reverse_append hg hb
  rw [groupsBefore_sep hc (by rw [htake, joinable_reverse, hwide]) (by rw [hdrop, hb]), hdrop]

/-- A round that does not start a chain passes one byte. -/
theorem Fresh.skip {b s : Text} {c : Byte} (h : Fresh b (c :: s))
    (hskip : isdigit c = false ∨ leads isalnum b = true) : Fresh (c :: b) s := by
  by_cases hc : isdigit c = true
  · -- inside a word: the byte before its digits is a letter, so nothing ends here
    have hb : leads isalnum b = true := hskip.resolve_left (by rw [hc]; exact Bool.false_ne_true.symm)
    have hdrop : (c :: b).dropWhile isdigit = b.dropWhile isdigit := List.dropWhile_cons_of_pos hc
    have hword := h.inside hc hb
    constructor
    · intro _ hnone
      rw [leads_cons, isalnum_of_isdigit hc] at hnone
      cases hnone
    · intro d rest _ _
      rw [groupsBefore_eq_zero (.inr (.inr (hdrop ▸ hword)))]
    · intro _ _
      rw [hdrop]
      exact hword
  · have hc' : isdigit c = false := Bool.eq_false_iff.mpr hc
    have htake : (c :: b).takeWhile isdigit = [] := List.takeWhile_cons_of_neg hc
    have hdrop : (c :: b).dropWhile isdigit = c :: b := List.dropWhile_cons_of_neg hc
    constructor
    · intro hs _
      by_cases hsep : isSep c = true
      · exact h.sep c s rfl (opensGroup_iff.mpr ⟨c, s, rfl, hsep, hs⟩)
      · rw [groupsBefore_eq_zero (.inl (Bool.eq_false_iff.mpr hsep))]
    · intro d rest _ _
      rw [groupsBefore_eq_zero (.inr (.inl (by rw [htake]; rfl)))]
    · intro _ hb
      rw [hdrop]
      exact hb

namespace Chained

variable {left : Nat} {groups : List Text} {body rest : Text}

/-- After a chain the next group is joined to nothing, or the chain was full. -/
theorem after (h : Chained left groups body rest) {b : Text} (hb : leads isalnum b = false)
    {c : Byte} (hopens : opensGroup rest = true) (hc : isSep c = true) :
    groupsBefore (c :: (body.reverse ++ b)) = 0 ∨
      groupsBefore (c :: (body.reverse ++ b)) = groupsBefore b + left + 1 := by
  induction h generalizing b with
  | @stop left g rest group ended stays =>
      obtain ⟨htake, hdrop⟩ := run_reverse_append group hb
      by_cases hwide : joinable g = true
      · right
        have hfull : left = 0 := stays.resolve_right (by rw [hopens, hwide]; exact Bool.false_ne_true.symm)
        rw [groupsBefore_group group hwide hc hb, hfull, Nat.add_zero]
      · left
        exact groupsBefore_eq_zero (.inr (.inl (by
          rw [htake, joinable_reverse]
          exact Bool.eq_false_iff.mpr hwide)))
  | @more left g body rest d groups group wide sep later ih =>
      have hnext : leads isalnum (d :: (g.reverse ++ b)) = false := not_isalnum_of_isSep sep
      have hcount := groupsBefore_group group wide sep hb
      have hsplit : (g ++ d :: body).reverse ++ b = body.reverse ++ d :: (g.reverse ++ b) := by simp
      rw [hsplit]
      have := ih hnext hopens
      omega

/-- Within a chain the groups before a place that a chain could start from are counted. -/
theorem within (h : Chained left groups body rest) {b x y : Text} (hb : leads isalnum b = false)
    (hxy : body = x ++ y) (hx : x ≠ []) (hy : leads isdigit y = true)
    (hprev : leads isalnum (x.reverse ++ b) = false) :
    ∃ m, 0 < m ∧ m ≤ left ∧ groupsBefore (x.reverse ++ b) = groupsBefore b + m := by
  -- a place inside the first group comes after one of its digits
  have hgroup : ∀ {g x : Text} (b : Text), IsGroup g → x <+: g → x ≠ [] →
      leads isalnum (x.reverse ++ b) = true := by
    intro g x b hg hpre hx
    have hne : x.reverse ≠ [] := fun h => hx (List.reverse_eq_nil_iff.mp h)
    rw [leads_append hne]
    cases hrev : x.reverse with
    | nil => exact absurd hrev hne
    | cons c r =>
        have hmem : c ∈ x := List.mem_reverse.mp (hrev ▸ List.mem_cons_self)
        exact isalnum_of_isdigit (hg.2 c (hpre.subset hmem))
  induction h generalizing b x with
  | stop group ended stays =>
      rw [hgroup b group ⟨y, hxy.symm⟩ hx] at hprev
      cases hprev
  | @more left g body rest d groups group wide sep later ih =>
      have hnext : leads isalnum (d :: (g.reverse ++ b)) = false := not_isalnum_of_isSep sep
      have hcount := groupsBefore_group group wide sep hb
      rcases List.append_eq_append_iff.mp hxy with ⟨z, hz, hrest⟩ | ⟨z, hz, hrest⟩
      · cases z with
        | nil =>
            rw [List.append_nil] at hz
            subst hz
            rw [List.nil_append] at hrest
            subst hrest
            rw [leads_cons, not_isdigit_of_isSep sep] at hy
            cases hy
        | cons e z =>
            obtain ⟨rfl, hbody⟩ := List.cons.inj hrest
            have hsplit : x.reverse ++ b = z.reverse ++ d :: (g.reverse ++ b) := by rw [hz]; simp
            rw [hsplit] at hprev ⊢
            cases z with
            | nil => exact ⟨1, by omega, by omega, hcount⟩
            | cons f z =>
                obtain ⟨m, hpos, hle, hm⟩ := ih hnext hbody (List.cons_ne_nil f z) hprev
                exact ⟨m + 1, by omega, by omega, by omega⟩
      · rw [hgroup b group ⟨z, hz.symm⟩ hx] at hprev
        cases hprev

theorem fresh (h : Chained 5 groups body rest) {b : Text} (hb : leads isalnum b = false)
    (hstart : groupsBefore b % 6 = 0) : Fresh (body.reverse ++ b) rest := by
  have hends := h.ends
  constructor
  · intro hdigit
    rw [hends] at hdigit
    cases hdigit
  · intro c later hrest hopens
    obtain ⟨d, later', hrest', hd, -⟩ := opensGroup_iff.mp hopens
    obtain ⟨rfl, -⟩ := List.cons.inj (hrest.symm.trans hrest')
    have := h.after hb hopens hd
    omega
  · intro hdigit
    rw [hends] at hdigit
    cases hdigit

end Chained

/-! ## Bits -/

theorem has_iff {a : UInt32} {k : Kind} : has a k = true ↔ ¬ a &&& k.bit = 0 := by
  unfold has
  rw [bne_iff_ne]

theorem has_zero (k : Kind) : has 0 k = false := by cases k <;> decide

theorem has_or (a b : UInt32) (k : Kind) : has (a ||| b) k = (has a k || has b k) := by
  have hdistrib : (a ||| b) &&& k.bit = (a &&& k.bit) ||| (b &&& k.bit) :=
    UInt32.toBitVec_inj.mp BitVec.and_or_distrib_right
  rw [Bool.eq_iff_iff, Bool.or_eq_true, has_iff, has_iff, has_iff, hdistrib, UInt32.or_eq_zero_iff]
  tauto

theorem has_bit (k k' : Kind) : has k'.bit k = (k == k') := by cases k <;> cases k' <;> decide

theorem has_checked (mask : UInt32) (k : Kind) : has (mask &&& 15) k = has mask k := by
  rw [Bool.eq_iff_iff, has_iff, has_iff, UInt32.and_assoc]
  cases k <;> exact Iff.rfl

/-- The digits joined pass for the kind. -/
def taken (k : Kind) (groups : List Text) : Bool :=
  (groups.length == 1 || printedAs k groups) && k.check groups.flatten

theorem has_recognised (mask : UInt32) (groups : List Text) (k : Kind) :
    has (recognised mask groups) k = (has mask k && taken k groups) := by
  have hpart : ∀ (k' : Kind), has (if has mask k' && (groups.length == 1 || printedAs k' groups) &&
      k'.check groups.flatten then k'.bit else 0) k = (k == k' && (has mask k && taken k groups)) := by
    intro k'
    by_cases hk : k = k'
    · subst hk
      rw [beq_self_eq_true, Bool.true_and, taken, ← Bool.and_assoc]
      split
      next h => rw [has_bit, beq_self_eq_true, h]
      next h => rw [has_zero, Bool.eq_false_iff.mpr h]
    · rw [beq_false_of_ne hk, Bool.false_and]
      split
      next h => rw [has_bit, beq_false_of_ne hk]
      next h => rw [has_zero]
  have hall : (k == .tfn || k == .medicare || k == .abn || k == .card) = true := by
    cases k <;> rfl
  unfold recognised
  simp only [has_or, hpart, ← Bool.and_or_distrib_right]
  rw [hall, Bool.true_and]

theorem length_of_check {k : Kind} {d : Text} (h : k.check d = true) :
    7 ≤ d.length ∧ d.length ≤ 20 := by
  cases k <;>
    simp [Kind.check, tfn, medicare, abn, card, cardShape] at h <;> omega

theorem has_chainFound (mask : UInt32) (groups : List Text) (rest : Text) (k : Kind) :
    has (chainFound mask groups rest) k =
      (has mask k && (taken k groups && !leads isalnum rest)) := by
  unfold chainFound
  split
  next h =>
    rw [Bool.and_eq_true] at h
    rw [has_recognised, h.2, Bool.and_true]
  next h =>
    rw [has_zero]
    symm
    rw [Bool.eq_false_iff]
    intro hall
    rw [Bool.and_eq_true, Bool.and_eq_true] at hall
    obtain ⟨-, htaken, hrest⟩ := hall
    unfold taken at htaken
    rw [Bool.and_eq_true] at htaken
    refine h (Bool.and_eq_true_iff.mpr ⟨?_, hrest⟩)
    exact decide_eq_true (length_of_check htaken.2).2

/-! ## The whole scan -/

/-- A place the outer loop may start a chain from, read backwards. -/
def Starts (b : Text) : Prop := leads isalnum b = false ∧ groupsBefore b % 6 = 0

/-- A chain of the text `s` that follows `b`, taken for the kind. -/
def Caught (mask : UInt32) (k : Kind) (b s : Text) : Prop :=
  ∃ x groups body rest, s = x ++ (body ++ rest) ∧ Starts (x.reverse ++ b) ∧
    Chained 5 groups body rest ∧ has (chainFound mask groups rest) k = true

variable {mask : UInt32} {k : Kind} {b s : Text} {c : Byte}

theorem not_caught_nil : ¬ Caught mask k b [] := by
  rintro ⟨x, groups, body, rest, hs, -, hchained, -⟩
  have hbody := hchained.leads_body
  obtain ⟨-, hnil⟩ := List.append_eq_nil_iff.mp hs.symm
  rw [(List.append_eq_nil_iff.mp hnil).1] at hbody
  cases hbody

theorem caught_skip (hskip : isdigit c = false ∨ leads isalnum b = true) :
    Caught mask k b (c :: s) ↔ Caught mask k (c :: b) s := by
  constructor
  · rintro ⟨x, groups, body, rest, hs, hstarts, hchained, hfound⟩
    cases x with
    | nil =>
        have hbody := hchained.leads_body
        cases body with
        | nil => cases hbody
        | cons d body =>
            obtain ⟨rfl, -⟩ := List.cons.inj hs
            cases hskip with
            | inl hc => exact absurd (hc.symm.trans hbody) Bool.false_ne_true
            | inr hb => exact absurd (hstarts.1.symm.trans hb) Bool.false_ne_true
    | cons d x =>
        obtain ⟨rfl, hs'⟩ := List.cons.inj hs
        refine ⟨x, groups, body, rest, hs', ?_, hchained, hfound⟩
        rw [List.reverse_cons, List.append_assoc] at hstarts
        exact hstarts
  · rintro ⟨x, groups, body, rest, hs, hstarts, hchained, hfound⟩
    refine ⟨c :: x, groups, body, rest, by rw [hs]; rfl, ?_, hchained, hfound⟩
    rw [List.reverse_cons, List.append_assoc]
    exact hstarts

theorem caught_chain {groups : List Text} {body rest : Text} (hstarts : Starts b)
    (hchained : Chained 5 groups body rest) :
    Caught mask k b (body ++ rest) ↔
      has (chainFound mask groups rest) k = true ∨ Caught mask k (body.reverse ++ b) rest := by
  constructor
  · rintro ⟨x, groups', body', rest', hs, hstarts', hchained', hfound⟩
    rcases List.append_eq_append_iff.mp hs with ⟨z, hx, hrest⟩ | ⟨z, hbody, hrest⟩
    · right
      refine ⟨z, groups', body', rest', hrest, ?_, hchained', hfound⟩
      rw [← List.append_assoc, ← List.reverse_append, ← hx]
      exact hstarts'
    · cases x with
      | nil =>
          left
          have heq := hchained'.chain_eq.symm.trans ((congrArg (chain 5) hs.symm).trans hchained.chain_eq)
          obtain ⟨hgroups, hrest⟩ := Prod.mk.inj heq
          rw [← hgroups, ← hrest]
          exact hfound
      | cons d x =>
          have hz : leads isdigit z = true ∨ z = [] := by
            cases z with
            | nil => exact .inr rfl
            | cons e z =>
                left
                have hlead := hchained'.leads_body
                cases body' with
                | nil => cases hlead
                | cons f body' =>
                    obtain ⟨rfl, -⟩ := List.cons.inj hrest
                    exact hlead
          cases hz with
          | inl hdigit =>
              -- a chain cannot start within a chain: too few groups stand before it
              obtain ⟨m, hpos, hle, hm⟩ := hchained.within hstarts.1 hbody (List.cons_ne_nil d x)
                hdigit hstarts'.1
              have h6 := hstarts.2
              have h6' := hstarts'.2
              omega
          | inr hnil =>
              subst hnil
              rw [List.append_nil] at hbody
              rw [List.nil_append] at hrest
              right
              refine ⟨[], groups', body', rest', hrest.symm, ?_, hchained', hfound⟩
              rw [hbody]
              exact hstarts'
  · intro h
    cases h with
    | inl hfound => exact ⟨[], groups, body, rest, rfl, hstarts, hchained, hfound⟩
    | inr hlater =>
        obtain ⟨x, groups', body', rest', hs, hstarts', hchained', hfound⟩ := hlater
        refine ⟨body ++ x, groups', body', rest', by rw [hs, List.append_assoc], ?_, hchained', hfound⟩
        rw [List.reverse_append, List.append_assoc]
        exact hstarts'

theorem previous_eq (pre s : Text) :
    (0 < pre.length && isalnum ((pre ++ s).getD (pre.length - 1) 0)) = leads isalnum pre.reverse := by
  rcases List.eq_nil_or_concat pre with rfl | ⟨pre, c, rfl⟩
  · rfl
  · simp [List.getD_eq_getElem?_getD]

/-- From any place of the outer loop, what is found is what its chains are taken for. -/
theorem has_scanFrom {text : Text} (fuel : Nat) {pre s : Text} (htext : text = pre ++ s)
    (hfuel : s.length ≤ fuel) (hfresh : Fresh pre.reverse s) :
    has (scanFrom text mask fuel pre.length) k = true ↔ Caught mask k pre.reverse s := by
  induction fuel generalizing pre s with
  | zero =>
      obtain rfl := List.length_eq_zero_iff.mp (Nat.le_zero.mp hfuel)
      rw [scanFrom, has_zero]
      exact iff_of_false Bool.false_ne_true not_caught_nil
  | succ fuel ih =>
      rw [scanFrom]
      cases s with
      | nil =>
          rw [List.append_nil] at htext
          rw [htext, if_neg (lt_irrefl _), has_zero]
          exact iff_of_false Bool.false_ne_true not_caught_nil
      | cons c s =>
          have hdrop : text.drop pre.length = c :: s := by rw [htext, List.drop_left]
          have hprev := previous_eq pre (c :: s)
          rw [← htext] at hprev
          rw [if_pos (by rw [htext, List.length_append, List.length_cons]; omega)]
          simp only [hdrop, hprev, leads_cons]
          by_cases hskip : (!isdigit c || leads isalnum pre.reverse) = true
          · rw [if_pos hskip]
            rw [Bool.or_eq_true, Bool.not_eq_true'] at hskip
            have hnext := @ih (pre ++ [c]) s (by rw [htext]; simp)
              (Nat.le_of_succ_le_succ hfuel)
              (by rw [List.reverse_append]; exact hfresh.skip hskip)
            rw [List.length_append, List.reverse_append] at hnext
            rw [caught_skip hskip]
            exact hnext
          · rw [if_neg hskip]
            rw [Bool.or_eq_true, Bool.not_eq_true', not_or] at hskip
            have hdigit : leads isdigit (c :: s) = true := Bool.eq_true_of_not_eq_false hskip.1
            have hprev' : leads isalnum pre.reverse = false := Bool.eq_false_iff.mpr hskip.2
            have hstarts : Starts pre.reverse := ⟨hprev', hfresh.start hdigit hprev'⟩
            obtain ⟨body, hbody, hchained⟩ := chain_chained 5 hdigit
            have hlength : (pre ++ body).length = text.length - (chain 5 (c :: s)).2.length := by
              rw [htext]
              conv_rhs => rw [hbody]
              simp only [List.length_append]
              conv_rhs => rw [← hbody]
              omega
            have hne : body ≠ [] := by
              rintro rfl
              cases hchained.leads_body
            have hshort : (chain 5 (c :: s)).2.length ≤ fuel := by
              have hall := congrArg List.length hbody
              have := List.length_pos_iff.mpr hne
              rw [List.length_append] at hall
              omega
            have hnext := @ih (pre ++ body) _ (by rw [htext, List.append_assoc, ← hbody]) hshort
              (by rw [List.reverse_append]; exact hchained.fresh hprev' hstarts.2)
            rw [hlength, List.reverse_append] at hnext
            have hcaught := @caught_chain mask k _ _ _ _ hstarts hchained
            rw [← hbody] at hcaught
            rw [has_or, Bool.or_eq_true, hnext, hcaught]

theorem has_scan {text : Text} : has (scan text mask) k = true ↔ Caught (mask &&& 15) k [] text :=
  @has_scanFrom _ _ text text.length [] text rfl le_rfl (Fresh.nil text)

/-! ## Spans -/

/-- Groups joined by single spaces or hyphens. -/
inductive Joined : List Text → Text → Prop where
  | last (g : Text) : Joined [g] g
  | more {g : Text} {c : Byte} {groups : List Text} {body : Text} (sep : isSep c = true)
      (later : Joined groups body) : Joined (g :: groups) (g ++ c :: body)

/-- A span of the text that identifies something of the kind. -/
structure Span (k : Kind) (text : Text) where
  pre : Text
  groups : List Text
  body : Text
  post : Text
  split : text = pre ++ (body ++ post)
  joined : Joined groups body
  digits : ∀ g ∈ groups, IsGroup g
  left : leads isalnum pre.reverse = false
  right : leads isalnum post = false
  printed : groups.length = 1 ∨ printedAs k groups = true
  checks : k.check groups.flatten = true

/-- No number is joined to the span: in front of it stand no joined groups, or such that fill up
chains of six, and its last group is not joined to a digit after it. -/
def Span.Alone {text : Text} (span : Span k text) : Prop :=
  groupsBefore span.pre.reverse % 6 = 0 ∧
    (opensGroup span.post && span.groups.getLast?.any joinable) = false

/-- The groups of a printed layout but the last are joinable. -/
theorem printed_joinable {groups : List Text} (h : groups.length = 1 ∨ printedAs k groups = true) :
    groups.length ≤ 4 ∧ ∀ g ∈ groups.dropLast, joinable g = true := by
  cases h with
  | inl hone =>
      obtain ⟨g, rfl⟩ := List.length_eq_one_iff.mp hone
      exact ⟨by simp, fun g' hg' => by cases hg'⟩
  | inr hprinted =>
      obtain ⟨want, hwant, hlayout⟩ := List.any_eq_true.mp hprinted
      have hmap : groups.map List.length = want := beq_iff_eq.mp hlayout
      have hbounds : ∀ want ∈ k.layouts, want.length ≤ 4 ∧ ∀ n ∈ want.dropLast, 2 ≤ n ∧ n ≤ 6 := by
        cases k <;> decide
      obtain ⟨hshort, hwide⟩ := hbounds want hwant
      rw [← hmap, List.length_map] at hshort
      refine ⟨hshort, fun g hg => ?_⟩
      have hmem : g.length ∈ want.dropLast := by
        rw [← hmap, ← List.map_dropLast]
        exact List.mem_map_of_mem hg
      have := hwide _ hmem
      simp only [joinable, Bool.and_eq_true, decide_eq_true_eq]
      exact this

theorem Joined.chained {left : Nat} {groups : List Text} {body rest : Text}
    (h : Joined groups body) (hdigits : ∀ g ∈ groups, IsGroup g)
    (hwide : ∀ g ∈ groups.dropLast, joinable g = true) (hroom : groups.length ≤ left + 1)
    (hrest : leads isdigit rest = false)
    (hlast : (opensGroup rest && groups.getLast?.any joinable) = false) :
    Chained left groups body rest := by
  induction h generalizing left with
  | last g => exact .stop (hdigits g List.mem_cons_self) hrest (.inr hlast)
  | @more g c groups body sep later ih =>
      have hne : groups ≠ [] := by
        rintro rfl
        cases later
      rw [List.length_cons] at hroom
      cases left with
      | zero =>
          have := List.length_pos_iff.mpr hne
          omega
      | succ left =>
          rw [List.dropLast_cons_of_ne_nil hne] at hwide
          rw [List.getLast?_cons_of_ne_nil hne] at hlast
          exact .more (hdigits g List.mem_cons_self) (hwide g List.mem_cons_self) sep
            (ih (fun g' hg' => hdigits g' (List.mem_cons_of_mem g hg'))
              (fun g' hg' => hwide g' (List.mem_cons_of_mem g hg')) (by omega) hlast)

namespace Chained

variable {left : Nat} {groups : List Text} {body rest : Text}

theorem joined (h : Chained left groups body rest) : Joined groups body := by
  induction h with
  | stop => exact .last _
  | more group wide sep later ih => exact .more sep ih

theorem groups_digits (h : Chained left groups body rest) : ∀ g ∈ groups, IsGroup g := by
  induction h with
  | stop group =>
      intro g hg
      rw [List.mem_singleton.mp hg]
      exact group
  | more group wide sep later ih =>
      intro g hg
      cases List.mem_cons.mp hg with
      | inl heq => exact heq ▸ group
      | inr hlater => exact ih g hlater

theorem last_stays (h : Chained left groups body rest) (hshort : groups.length ≤ left) :
    (opensGroup rest && groups.getLast?.any joinable) = false := by
  induction h with
  | @stop left g rest group ended stays =>
      rw [List.length_singleton] at hshort
      exact stays.resolve_left (by omega)
  | @more left g body rest c groups group wide sep later ih =>
      have hne : groups ≠ [] := by
        rintro rfl
        cases later
      rw [List.getLast?_cons_of_ne_nil hne]
      rw [List.length_cons] at hshort
      exact ih (by omega)

end Chained

theorem caught_iff {text : Text} : Caught mask k [] text ↔
    has mask k = true ∧ ∃ span : Span k text, span.Alone := by
  constructor
  · rintro ⟨x, groups, body, rest, hs, hstarts, hchained, hfound⟩
    rw [has_chainFound, Bool.and_eq_true, Bool.and_eq_true, Bool.not_eq_true', taken,
      Bool.and_eq_true, Bool.or_eq_true, beq_iff_eq] at hfound
    obtain ⟨hmask, ⟨hprinted, hcheck⟩, hright⟩ := hfound
    rw [List.append_nil] at hstarts
    have hshort := (printed_joinable hprinted).1
    exact ⟨hmask, ⟨x, groups, body, rest, hs, hchained.joined, hchained.groups_digits, hstarts.1,
      hright, hprinted, hcheck⟩, hstarts.2, hchained.last_stays (by omega)⟩
  · rintro ⟨hmask, span, hbefore, hlast⟩
    obtain ⟨hshort, hwide⟩ := printed_joinable span.printed
    refine ⟨span.pre, span.groups, span.body, span.post, span.split, ?_,
      span.joined.chained span.digits hwide (by omega) (not_leads_isdigit span.right) hlast, ?_⟩
    · rw [List.append_nil]
      exact ⟨span.left, hbefore⟩
    · rw [has_chainFound, hmask, taken, span.checks, span.right]
      simpa using span.printed

/-- Every kind found is the kind of a span that stands alone, and the other way round. -/
theorem has_scan_iff {text : Text} : has (scan text mask) k = true ↔
    has mask k = true ∧ ∃ span : Span k text, span.Alone := by
  rw [has_scan, caught_iff, has_checked]

/-- The scan finds exactly the kinds of the mask that some span of the text is of. -/
def Exact (text : Text) (mask : UInt32) : Prop :=
  ∀ k, has (scan text mask) k = true ↔ has mask k = true ∧ Nonempty (Span k text)

/-- The scan is exact when every kind that has a span has one that no other number is joined to. -/
theorem scan_exact_iff (text : Text) (mask : UInt32) : Exact text mask ↔
    ∀ k, has mask k = true → Nonempty (Span k text) → ∃ span : Span k text, span.Alone := by
  constructor
  · intro h k hmask hspan
    exact (has_scan_iff.mp ((h k).mpr ⟨hmask, hspan⟩)).2
  · intro h k
    rw [has_scan_iff]
    constructor
    · rintro ⟨hmask, span, -⟩
      exact ⟨hmask, ⟨span⟩⟩
    · rintro ⟨hmask, hspan⟩
      exact ⟨hmask, h k hmask hspan⟩

/-- A tax file number after a number of two digits: the two are joined, and nothing is found. -/
theorem joined_number_missed : ¬ Exact "12 123456782" Kind.tfn.bit := by
  intro h
  have hspan : Span .tfn (text "12 123456782") :=
    { pre := text "12 "
      groups := [text "123456782"]
      body := text "123456782"
      post := []
      split := by decide
      joined := .last _
      digits := fun g hg => by
        rw [List.mem_singleton.mp hg]
        exact ⟨by decide, List.all_eq_true.mp (by decide)⟩
      left := by decide
      right := by decide
      printed := .inl rfl
      checks := by decide }
  have hfound := (h .tfn).mpr ⟨by decide, ⟨hspan⟩⟩
  have hmissed : has (scan (text "12 123456782") Kind.tfn.bit) .tfn = false := by decide +kernel
  exact Bool.false_ne_true (hmissed.symm.trans hfound)

end Recursant.Identifiers
