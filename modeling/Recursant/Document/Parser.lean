import Recursant.Document.Strings
import Recursant.Lib.JsonText
import Recursant.Number

/-!
# The configuration parser

`parse_value` with its helpers, and what it accepts: the texts of a grammar, each as a tree in which
objects and arrays look the same.
-/

namespace Recursant.Document

open JsonString JsonText

/-- The parser's node: a text or the children, and the key where it is a member. -/
structure Jval where
  key : Option Text
  str : Option Text
  num : Bool
  child : List Jval

/-- `RC_JSON_MAX_DEPTH` -/
def maxDepth : Nat := 32

def skipWs (s : Text) : Text := s.dropWhile isSpace

/-! ## Scalars -/

/-- The digits that `parse_integer` takes, from the first one on. -/
def integerDigits (t : Text) : Text := if t.head? = some 48 then t.take 1 else t.takeWhile isdigit

def parseInteger (s : Text) : Parsed Int :=
  let t := if s.head? = some 45 then s.tail else s
  if integerDigits t = [] then .error (perr "number has no digits" t)
  else
    let rest := t.drop (integerDigits t).length
    let taken := s.take (s.length - rest.length)
    if rest.head? = some 46 ∨ rest.head? = some 101 ∨ rest.head? = some 69 then
      .error (perr "fraction or exponent numbers are not accepted" rest)
    else if 11 < taken.length then .error (perr "number magnitude not accepted" rest)
    else if (strtol taken).range = true ∨ (strtol taken).rest ≠ [] then
      .error (perr "number did not convert" rest)
    else .ok ((strtol taken).value, rest)

/-- The literal that a first letter announces. -/
def wordOf (c : Byte) : Word := if c = 116 then .yes else if c = 102 then .no else .null

def parseWord (w : Word) (s : Text) : Parsed Jval :=
  if w.bytes.isPrefixOf s then .ok (⟨none, some w.bytes, false, []⟩, s.drop w.bytes.length)
  else .error (perr "invalid literal" s)

/-! ## Containers -/

/-- The loop of `parse_object` and `parse_array`, which differ in what an element is, in whether a
new element is checked against those before it, and in the closing bracket. -/
def parseElements (element : Text → Parsed Jval) (fresh : List Jval → Jval → Bool)
    (close : Byte) (expected : Text) : Nat → List Jval → Text → Parsed (List Jval)
  | 0, _, s => .error (perr expected s)
  | fuel + 1, before, s =>
      match element (skipWs s) with
      | .error fault => .error fault
      | .ok (v, s) =>
          if fresh before v = false then .error ⟨"duplicate key", s, v.key⟩
          else match skipWs s with
            | [] => .error (perr expected [])
            | c :: s =>
                if c = 44 then
                  if (skipWs s).head? = some close then .error (perr "trailing comma" (skipWs s))
                  else parseElements element fresh close expected fuel (before ++ [v]) (skipWs s)
                else if c = close then .ok (before ++ [v], s)
                else .error (perr expected (c :: s))

/-- From behind the opening bracket on. -/
def parseContainer (element : Text → Parsed Jval) (fresh : List Jval → Jval → Bool)
    (close : Byte) (expected : Text) (s : Text) : Parsed Jval :=
  if (skipWs s).head? = some close then .ok (⟨none, none, false, []⟩, (skipWs s).tail)
  else match parseElements element fresh close expected (s.length + 1) [] (skipWs s) with
    | .error fault => .error fault
    | .ok (children, s) => .ok (⟨none, none, false, children⟩, s)

/-- One turn of `parse_object`, up to the check for a duplicate. -/
def parseMember (value : Text → Parsed Jval) (s : Text) : Parsed Jval :=
  if s = [] then .error (perr "unterminated object" [])
  else match parseLiteral s with
    | .error fault => .error fault
    | .ok (key, s) =>
        if (skipWs s).head? = some 58 then
          match value (skipWs (skipWs s).tail) with
          | .error fault => .error fault
          | .ok (member, s) => .ok ({ member with key := some (cString key) }, s)
        else .error ⟨"expected ':' after key", skipWs s, some (cString key)⟩

/-- `strcmp` of the new key against those before it. -/
def freshKey (before : List Jval) (member : Jval) : Bool := !before.any (·.key = member.key)

def parseObject (value : Text → Parsed Jval) : Text → Parsed Jval :=
  parseContainer (parseMember value) freshKey 125 "expected ',' or '\x7d'"

def parseArray (value : Text → Parsed Jval) : Text → Parsed Jval :=
  parseContainer value (fun _ _ => true) 93 "expected ',' or ']'"

def tooDeep (s : Text) : Parsed Jval := .error (perr "nesting too deep" s)

/-- `parse_value` by what follows an opening bracket. -/
def parseValueWith (object array : Text → Parsed Jval) (s : Text) : Parsed Jval :=
  match skipWs s with
  | [] => .error (perr "unexpected end of input" [])
  | c :: s =>
      if c = 34 then
        match parseLiteral (c :: s) with
        | .error fault => .error fault
        | .ok (t, s) => .ok (⟨none, some (cString t), false, []⟩, s)
      else if c = 123 then object s
      else if c = 91 then array s
      else if c = 116 ∨ c = 102 ∨ c = 110 then parseWord (wordOf c) (c :: s)
      else if c = 45 ∨ isdigit c = true then
        match parseInteger (c :: s) with
        | .error fault => .error fault
        | .ok (n, s) => .ok (⟨none, some (printLong n), true, []⟩, s)
      else .error (perr "unexpected character" (c :: s))

/-- `parse_value` with so much depth left. -/
def parseValue : Nat → Text → Parsed Jval
  | 0 => parseValueWith tooDeep tooDeep
  | depth + 1 => parseValueWith (parseObject (parseValue depth)) (parseArray (parseValue depth))

/-! ## Grammar -/

/-- An integer of the grammar in at most eleven bytes. -/
def ShortInteger (n : Int) (t : Text) : Prop :=
  t.length ≤ 11 ∧ ∃ negative digits, digits ≠ [] ∧ (∀ c ∈ digits, isdigit c = true) ∧
    (digits = [48] ∨ digits.head? ≠ some 48) ∧
    t = (if negative then 45 :: digits else digits) ∧ n = signed negative (digitsValue digits)

/-- A key as `strcmp` sees it. -/
def keyText (k : List Char) : Text := cString (encode k)

/-- No two keys look the same to `strcmp`. -/
def DistinctKeys (keys : List (List Char)) : Prop := (keys.map keyText).Nodup

/-- The documents that the parser takes, with their values. -/
abbrev Parses (v : Value) (doc : Text) : Prop := Document ShortInteger DistinctKeys maxDepth v doc

/-! ## Trees -/

mutual

/-- What is left of a value in the parser's tree. -/
def node : Option Text → Value → Jval
  | key, .string v => ⟨key, some (cString (encode v)), false, []⟩
  | key, .number n => ⟨key, some (printLong n), true, []⟩
  | key, .word w => ⟨key, some w.bytes, false, []⟩
  | key, .array items => ⟨key, none, false, nodeItems items⟩
  | key, .object members => ⟨key, none, false, nodeMembers members⟩

def nodeItems : List Value → List Jval
  | [] => []
  | v :: vs => node none v :: nodeItems vs

def nodeMembers : List (List Char × Value) → List Jval
  | [] => []
  | (k, v) :: members => node (some (keyText k)) v :: nodeMembers members

end

/-- The node of a member. -/
def memberNode (m : List Char × Value) : Jval := node (some (keyText m.1)) m.2

theorem nodeItems_eq (items : List Value) : nodeItems items = items.map (node none) := by
  induction items with
  | nil => rfl
  | cons v vs ih => rw [nodeItems, List.map_cons, ih]

theorem nodeMembers_eq (members : List (List Char × Value)) :
    nodeMembers members = members.map memberNode := by
  induction members with
  | nil => rfl
  | cons m members ih =>
      obtain ⟨k, v⟩ := m
      rw [nodeMembers, List.map_cons, ih]
      rfl

theorem node_key (key : Option Text) (v : Value) : (node key v).key = key := by
  cases v <;> rfl

/-- A key that is added later. -/
theorem node_rekey (key key' : Option Text) (v : Value) :
    { node key v with key := key' } = node key' v := by
  cases v <;> rfl

/-! ## Space -/

theorem space_skipWs (s : Text) : ∃ w, Space w ∧ s = w ++ skipWs s :=
  ⟨s.takeWhile isSpace, fun _ hc => List.mem_takeWhile_imp hc, (List.takeWhile_append_dropWhile).symm⟩

theorem skipWs_space {w : Text} (h : Space w) (s : Text) : skipWs (w ++ s) = skipWs s := by
  induction w with
  | nil => rfl
  | cons c w ih =>
      have hc : isSpace c = true := h c List.mem_cons_self
      show (c :: (w ++ s)).dropWhile isSpace = _
      rw [List.dropWhile_cons_of_pos hc]
      exact ih fun d hd => h d (List.mem_cons_of_mem c hd)

theorem skipWs_cons {c : Byte} (h : isSpace c = false) (s : Text) : skipWs (c :: s) = c :: s :=
  List.dropWhile_cons_of_neg (by rw [h]; decide)

theorem skipWs_skipWs (s : Text) : skipWs (skipWs s) = skipWs s := by
  obtain ⟨w, hw, hs⟩ := space_skipWs s
  have hskip := skipWs_space hw (skipWs s)
  rw [← hs] at hskip
  exact hskip.symm

/-! ## Integers -/

/-- What may stand behind a value. -/
def Ends (rest : Text) : Prop := ∀ c ∈ rest.head?, isdigit c = false ∧ c ≠ 46 ∧ c ≠ 101 ∧ c ≠ 69

theorem integerDigits_spec (t : Text) : integerDigits t ++ t.drop (integerDigits t).length = t ∧
    (∀ c ∈ integerDigits t, isdigit c = true) ∧
    (integerDigits t = [48] ∨ (integerDigits t).head? ≠ some 48) := by
  unfold integerDigits
  by_cases hzero : t.head? = some 48
  · rw [if_pos hzero]
    cases t with
    | nil => cases hzero
    | cons c t =>
        obtain rfl := Option.some.inj hzero
        refine ⟨rfl, ?_, .inl rfl⟩
        intro c hc
        rw [List.mem_singleton.mp hc]
        rfl
  · rw [if_neg hzero]
    refine ⟨?_, fun c hc => List.mem_takeWhile_imp hc, .inr ?_⟩
    · have hsplit := List.takeWhile_append_dropWhile (p := isdigit) (l := t)
      have hdrop : t.drop (t.takeWhile isdigit).length = t.dropWhile isdigit := by
        nth_rewrite 2 [← hsplit]
        rw [List.drop_left]
      rw [hdrop, hsplit]
    · cases t with
      | nil => nofun
      | cons c t =>
          by_cases hc : isdigit c = true
          · rw [List.takeWhile_cons_of_pos hc]
            exact hzero
          · rw [List.takeWhile_cons_of_neg hc]
            nofun

theorem integerDigits_append {digits rest : Text} (hne : digits ≠ [])
    (hdigits : ∀ c ∈ digits, isdigit c = true) (hzero : digits = [48] ∨ digits.head? ≠ some 48)
    (hrest : ∀ c ∈ rest.head?, isdigit c = false) : integerDigits (digits ++ rest) = digits := by
  obtain ⟨c, ds, rfl⟩ := List.exists_cons_of_ne_nil hne
  unfold integerDigits
  cases hzero with
  | inl hzero =>
      rw [hzero]
      exact (if_pos rfl).trans rfl
  | inr hzero =>
      have hhead : (c :: ds ++ rest).head? ≠ some 48 := hzero
      rw [if_neg hhead, List.takeWhile_append_of_pos hdigits]
      cases rest with
      | nil => rw [List.takeWhile_nil, List.append_nil]
      | cons d rest =>
          rw [List.takeWhile_cons_of_neg (by rw [hrest d rfl]; decide), List.append_nil]

/-- Eleven bytes are far from the bounds of a `long`. -/
theorem ShortInteger.range {n : Int} {t : Text} (h : ShortInteger n t) :
    longMin ≤ n ∧ n ≤ longMax := by
  obtain ⟨hlength, negative, digits, -, hdigits, -, ht, hn⟩ := h
  have hshort : digits.length ≤ 11 := by
    rw [ht] at hlength
    cases negative with
    | true =>
        rw [if_pos rfl, List.length_cons] at hlength
        omega
    | false => exact hlength
  have hvalue := digitsValue_lt hdigits
  have hpow : 10 ^ digits.length ≤ 10 ^ 11 := Nat.pow_le_pow_right (by decide) hshort
  rw [hn]
  unfold longMin longMax signed
  split <;> omega

theorem ShortInteger.strtol {n : Int} {t : Text} (h : ShortInteger n t) :
    Recursant.strtol t = ⟨n, [], false⟩ := by
  obtain ⟨hmin, hmax⟩ := h.range
  obtain ⟨-, negative, digits, hne, hdigits, -, ht, hn⟩ := h
  exact strtol_decimal ⟨negative, digits, hne, hdigits, ht, hn⟩ hmin hmax

theorem parseInteger_sound {s rest : Text} {n : Int} (h : parseInteger s = .ok (n, rest)) :
    ∃ t, ShortInteger n t ∧ s = t ++ rest := by
  obtain ⟨negative, t, hs, ht⟩ : ∃ (negative : Bool) (t : Text), s = (if negative then 45 :: t else t) ∧
      (if s.head? = some 45 then s.tail else s) = t := by
    by_cases hminus : s.head? = some 45
    · cases s with
      | nil => cases hminus
      | cons c s =>
          obtain rfl := Option.some.inj hminus
          exact ⟨true, s, rfl, rfl⟩
    · exact ⟨false, s, rfl, if_neg hminus⟩
  obtain ⟨hsplit, hdigits, hzero⟩ := integerDigits_spec t
  unfold parseInteger at h
  rw [ht] at h
  dsimp only at h
  split at h
  next => cases h
  next hne =>
      generalize htail : t.drop (integerDigits t).length = tail at h hsplit
      obtain ⟨taken, hform⟩ : ∃ taken, taken =
          if negative then 45 :: integerDigits t else integerDigits t := ⟨_, rfl⟩
      have hwhole : s = taken ++ tail := by
        rw [hs, hform]
        cases negative with
        | true => exact congrArg (List.cons 45) hsplit.symm
        | false => exact hsplit.symm
      have htaken : s.take (s.length - tail.length) = taken := by
        rw [hwhole, List.length_append, Nat.add_sub_cancel, List.take_left]
      rw [htaken] at h
      split at h
      next => cases h
      next =>
          split at h
          next => cases h
          next hlength =>
              have hshort : ShortInteger (signed negative (digitsValue (integerDigits t))) taken :=
                ⟨Nat.le_of_not_lt hlength, negative, integerDigits t, hne, hdigits, hzero, hform, rfl⟩
              rw [hshort.strtol] at h
              split at h
              next => cases h
              next =>
                  have heq := Except.ok.inj h
                  rw [Prod.mk.injEq] at heq
                  exact ⟨taken, heq.1 ▸ hshort, by rw [← heq.2, hwhole]⟩

theorem parseInteger_complete {t rest : Text} {n : Int} (h : ShortInteger n t) (hrest : Ends rest) :
    parseInteger (t ++ rest) = .ok (n, rest) := by
  have hstrtol := h.strtol
  obtain ⟨hlength, negative, digits, hne, hdigits, hzero, ht, hn⟩ := h
  have hinteger := integerDigits_append hne hdigits hzero fun c hc => (hrest c hc).1
  have hbehind : (if (t ++ rest).head? = some 45 then (t ++ rest).tail else t ++ rest) =
      digits ++ rest := by
    rw [ht]
    cases negative with
    | true => rfl
    | false =>
        obtain ⟨c, ds, rfl⟩ := List.exists_cons_of_ne_nil hne
        rw [if_neg]
        · rfl
        · intro hminus
          obtain rfl := Option.some.inj hminus
          exact absurd (hdigits 45 List.mem_cons_self) (by decide)
  have htaken : (t ++ rest).take ((t ++ rest).length - rest.length) = t := by
    rw [List.length_append, Nat.add_sub_cancel, List.take_left]
  unfold parseInteger
  rw [hbehind]
  dsimp only
  rw [hinteger, if_neg hne, List.drop_left, htaken, if_neg, if_neg (Nat.not_lt.mpr hlength),
    hstrtol]
  · rfl
  · rintro (hdot | hexp | hexp)
    · exact (hrest 46 hdot).2.1 rfl
    · exact (hrest 101 hexp).2.2.1 rfl
    · exact (hrest 69 hexp).2.2.2 rfl

/-! ## Elements -/

section

variable {α : Type} {element : Text → Parsed Jval} {fresh : List Jval → Jval → Bool}
  {close : Byte} {expected : Text} {E : α → Text → Prop} {nodeOf : α → Jval}

/-- What the parser takes is an element, with its node. -/
def Sound (element : Text → Parsed Jval) (E : α → Text → Prop) (nodeOf : α → Jval) : Prop :=
  ∀ s v rest, element s = .ok (v, rest) →
    ∃ w a t, Space w ∧ E a t ∧ s = w ++ t ++ rest ∧ v = nodeOf a

/-- Every element is taken where it is followed by what may follow it. -/
def Complete (element : Text → Parsed Jval) (E : α → Text → Prop) (nodeOf : α → Jval) : Prop :=
  ∀ a t rest, E a t → Ends rest → element (t ++ rest) = .ok (nodeOf a, rest)

/-- An element does not begin with space, nor with a bracket that closes. -/
def Begins (close : Byte) (E : α → Text → Prop) : Prop :=
  ∀ a t, E a t → ∃ c t', t = c :: t' ∧ isSpace c = false ∧ c ≠ close

/-- Every element passes the check against those before it. -/
def Passes (fresh : List Jval → Jval → Bool) : List Jval → List Jval → Prop
  | _, [] => True
  | before, v :: vs => fresh before v = true ∧ Passes fresh (before ++ [v]) vs

theorem parseElements_sound (hsound : Sound element E nodeOf) {fuel : Nat} {before nodes : List Jval}
    {s rest : Text} (h : parseElements element fresh close expected fuel before s = .ok (nodes, rest)) :
    ∃ as t, Elements E as t ∧ s = t ++ close :: rest ∧ nodes = before ++ as.map nodeOf ∧
      Passes fresh before (as.map nodeOf) := by
  induction fuel generalizing before s with
  | zero => cases h
  | succ fuel ih =>
      obtain ⟨w₀, hw₀, hs⟩ := space_skipWs s
      unfold parseElements at h
      cases helement : element (skipWs s) with
      | error fault =>
          rw [helement] at h
          cases h
      | ok parsed =>
          obtain ⟨v, s₁⟩ := parsed
          obtain ⟨w, a, t, hw, ha, hs₁, rfl⟩ := hsound _ _ _ helement
          obtain ⟨w₁, hw₁, hs₂⟩ := space_skipWs s₁
          rw [helement] at h
          dsimp only at h
          split at h
          next => cases h
          next hfresh =>
              have hpass : fresh before (nodeOf a) = true := by simpa using hfresh
              split at h
              next => cases h
              next c s₂ hskip =>
                  have hshape : s = w₀ ++ w ++ t ++ w₁ ++ c :: s₂ := by
                    rw [hs, hs₁, hs₂, hskip]
                    simp only [List.append_assoc]
                  split at h
                  next hcomma =>
                      split at h
                      next => cases h
                      next =>
                          obtain ⟨w₂, hw₂, hs₃⟩ := space_skipWs s₂
                          obtain ⟨as, t', has, ht', hnodes, hpasses⟩ := ih h
                          refine ⟨a :: as, w₀ ++ w ++ t ++ w₁ ++ 44 :: (w₂ ++ t'),
                            .more (hw₀.append hw) ha hw₁ (has.space hw₂), ?_, ?_, hpass, hpasses⟩
                          · rw [hshape, hcomma, hs₃, ht']
                            simp only [List.append_assoc, List.cons_append]
                          · rw [hnodes, List.map_cons, List.append_assoc]
                            rfl
                  next =>
                      split at h
                      next hclose =>
                          have heq := Except.ok.inj h
                          rw [Prod.mk.injEq] at heq
                          refine ⟨[a], w₀ ++ w ++ t ++ w₁, .one (hw₀.append hw) ha hw₁, ?_, ?_, ?_⟩
                          · rw [hshape, hclose, heq.2]
                          · exact heq.1.symm
                          · exact ⟨hpass, trivial⟩
                      next => cases h

theorem skipWs_begins {t : Text} {a : α} (hbegins : Begins close E) (ha : E a t) (rest : Text) :
    skipWs (t ++ rest) = t ++ rest ∧ (t ++ rest).head? ≠ some close ∧ 0 < t.length := by
  obtain ⟨c, t', rfl, hc, hclose⟩ := hbegins a t ha
  refine ⟨skipWs_cons hc _, ?_, Nat.succ_pos _⟩
  intro heq
  exact hclose (Option.some.inj heq)

theorem ends_of_space {w : Text} (hw : Space w) {c : Byte} {rest : Text}
    (hc : c = 44 ∨ c = 93 ∨ c = 125) : Ends (w ++ c :: rest) := by
  cases w with
  | nil =>
      intro d hd
      obtain rfl := Option.some.inj hd
      rcases hc with rfl | rfl | rfl <;> decide
  | cons d w =>
      intro e he
      obtain rfl := Option.some.inj he
      have hd : isSpace d = true := hw d List.mem_cons_self
      unfold isSpace at hd
      simp only [Bool.or_eq_true, decide_eq_true_eq] at hd
      rcases hd with ((rfl | rfl) | rfl) | rfl <;> decide

/-- The elements begin after some space, and with no closing bracket. -/
theorem Elements.begins {as : List α} {t : Text} (hbegins : Begins close E) (h : Elements E as t)
    (rest : Text) : (skipWs (t ++ rest)).head? ≠ some close ∧ 0 < t.length := by
  cases h with
  | one hs ha hs' =>
      rename_i a s t s'
      obtain ⟨hskip, hhead, hpos⟩ := skipWs_begins hbegins ha (s' ++ rest)
      rw [List.append_assoc, List.append_assoc, skipWs_space hs, hskip]
      refine ⟨hhead, ?_⟩
      rw [List.length_append, List.length_append]
      omega
  | more hs ha hs' hrest =>
      rename_i a as s t s' t'
      obtain ⟨hskip, hhead, hpos⟩ := skipWs_begins hbegins ha (s' ++ 44 :: (t' ++ rest))
      have hshape : s ++ t ++ s' ++ 44 :: t' ++ rest = s ++ (t ++ (s' ++ 44 :: (t' ++ rest))) := by
        simp only [List.append_assoc, List.cons_append]
      rw [hshape, skipWs_space hs, hskip]
      refine ⟨hhead, ?_⟩
      rw [List.length_append, List.length_append, List.length_append]
      omega

/-- The loop skips space itself. -/
theorem parseElements_skipWs (fuel : Nat) (before : List Jval) (s : Text) :
    parseElements element fresh close expected (fuel + 1) before (skipWs s) =
      parseElements element fresh close expected (fuel + 1) before s := by
  unfold parseElements
  rw [skipWs_skipWs]

theorem parseElements_complete (hcomplete : Complete element E nodeOf) (hbegins : Begins close E)
    (hclose : close = 93 ∨ close = 125) {as : List α} {t : Text} (h : Elements E as t) {fuel : Nat}
    {before : List Jval} (hfuel : t.length < fuel)
    (hpasses : Passes fresh before (as.map nodeOf)) (rest : Text) :
    parseElements element fresh close expected fuel before (t ++ close :: rest) =
      .ok (before ++ as.map nodeOf, rest) := by
  have hspace : isSpace close = false := by rcases hclose with rfl | rfl <;> rfl
  have hcomma : close ≠ 44 := by rcases hclose with rfl | rfl <;> decide
  induction h generalizing fuel before with
  | one hs ha hs' =>
      rename_i a s t s'
      cases fuel with
      | zero => exact absurd hfuel (Nat.not_lt_zero _)
      | succ fuel =>
          obtain ⟨hskip, -, -⟩ := skipWs_begins hbegins ha (s' ++ close :: rest)
          have helement := hcomplete a t (s' ++ close :: rest) ha
            (ends_of_space hs' (.inr hclose))
          unfold parseElements
          rw [List.append_assoc, List.append_assoc, skipWs_space hs, hskip, helement]
          dsimp only
          rw [if_neg (by rw [hpasses.1]; decide), skipWs_space hs', skipWs_cons hspace]
          dsimp only
          rw [if_neg hcomma, if_pos rfl]
          rfl
  | more hs ha hs' hrest ih =>
      rename_i a as s t s' t'
      cases fuel with
      | zero => exact absurd hfuel (Nat.not_lt_zero _)
      | succ fuel =>
          have hshape : s ++ t ++ s' ++ 44 :: t' ++ close :: rest =
              s ++ (t ++ (s' ++ 44 :: (t' ++ close :: rest))) := by
            simp only [List.append_assoc, List.cons_append]
          obtain ⟨hskip, -, -⟩ := skipWs_begins hbegins ha (s' ++ 44 :: (t' ++ close :: rest))
          have helement := hcomplete a t (s' ++ 44 :: (t' ++ close :: rest)) ha
            (ends_of_space hs' (.inl rfl))
          obtain ⟨hhead, hpos⟩ := Elements.begins hbegins hrest (close :: rest)
          rw [List.length_append, List.length_cons] at hfuel
          obtain ⟨fuel, rfl⟩ : ∃ k, fuel = k + 1 := ⟨fuel - 1, by omega⟩
          rw [hshape, parseElements, skipWs_space hs, hskip, helement]
          dsimp only
          rw [if_neg (by rw [hpasses.1]; decide), skipWs_space hs', skipWs_cons (by decide)]
          dsimp only
          rw [if_pos rfl, if_neg hhead, parseElements_skipWs, ih (by omega) hpasses.2,
            List.map_cons, List.append_assoc]
          rfl

theorem parseContainer_sound (hsound : Sound element E nodeOf) {s rest : Text} {v : Jval}
    (h : parseContainer element fresh close expected s = .ok (v, rest)) :
    (∃ w, Space w ∧ s = w ++ close :: rest ∧ v = ⟨none, none, false, []⟩) ∨
      ∃ as t, Elements E as t ∧ s = t ++ close :: rest ∧ v = ⟨none, none, false, as.map nodeOf⟩ ∧
        Passes fresh [] (as.map nodeOf) := by
  obtain ⟨w, hw, hs⟩ := space_skipWs s
  unfold parseContainer at h
  split at h
  next hclose =>
      have heq := Except.ok.inj h
      rw [Prod.mk.injEq] at heq
      obtain ⟨tail, htail⟩ := List.head?_eq_some_iff.mp hclose
      rw [htail, List.tail_cons] at heq
      refine .inl ⟨w, hw, ?_, heq.1.symm⟩
      rw [hs, htail, heq.2]
  next =>
      split at h
      next => cases h
      next children s' hloop =>
          have heq := Except.ok.inj h
          rw [Prod.mk.injEq] at heq
          obtain ⟨as, t, has, ht, hnodes, hpasses⟩ := parseElements_sound hsound hloop
          rw [List.nil_append] at hnodes
          refine .inr ⟨as, w ++ t, has.space hw, ?_, ?_, hpasses⟩
          · rw [hs, ht, heq.2, List.append_assoc]
          · rw [← heq.1, hnodes]

theorem parseContainer_empty (hclose : close = 93 ∨ close = 125) {w : Text} (hw : Space w)
    (rest : Text) : parseContainer element fresh close expected (w ++ close :: rest) =
      .ok (⟨none, none, false, []⟩, rest) := by
  have hspace : isSpace close = false := by rcases hclose with rfl | rfl <;> rfl
  unfold parseContainer
  rw [skipWs_space hw, skipWs_cons hspace]
  exact if_pos rfl

theorem parseContainer_complete (hcomplete : Complete element E nodeOf) (hbegins : Begins close E)
    (hclose : close = 93 ∨ close = 125) {as : List α} {t : Text} (h : Elements E as t)
    (hpasses : Passes fresh [] (as.map nodeOf)) (rest : Text) :
    parseContainer element fresh close expected (t ++ close :: rest) =
      .ok (⟨none, none, false, as.map nodeOf⟩, rest) := by
  obtain ⟨hhead, -⟩ := Elements.begins hbegins h (close :: rest)
  unfold parseContainer
  rw [if_neg hhead, parseElements_skipWs,
    parseElements_complete hcomplete hbegins hclose h (by rw [List.length_append]; omega) hpasses]
  rfl

end

/-! ## Members -/

section

variable {value : Text → Parsed Jval} {J : Value → Text → Prop}

theorem parseMember_sound (hsound : Sound value J (node none)) :
    Sound (parseMember value) (Member J) memberNode := by
  intro s v rest h
  unfold parseMember at h
  split at h
  next => cases h
  next =>
      split at h
      next => cases h
      next key s₁ hliteral =>
          obtain ⟨k, l, hl, hs, rfl⟩ := parseLiteral_eq_ok.mp hliteral
          obtain ⟨w₁, hw₁, hs₁⟩ := space_skipWs s₁
          split at h
          next hcolon =>
              obtain ⟨s₂, hs₂⟩ := List.head?_eq_some_iff.mp hcolon
              obtain ⟨w₂, hw₂, hs₃⟩ := space_skipWs s₂
              rw [hs₂, List.tail_cons] at h
              split at h
              next => cases h
              next member s₃ hvalue =>
                  obtain ⟨w, v', t, hw, ht, hshape, rfl⟩ := hsound _ _ _ hvalue
                  have heq := Except.ok.inj h
                  rw [Prod.mk.injEq] at heq
                  refine ⟨[], (k, v'), _, Space.nil, .mk hl hw₁ (hw₂.append hw) ht, ?_, ?_⟩
                  · rw [hs, hs₁, hs₂, hs₃, hshape, heq.2]
                    simp only [List.append_assoc, List.cons_append, List.nil_append]
                  · rw [← heq.1, node_rekey]
                    rfl
          next => cases h

theorem parseMember_complete (hcomplete : Complete value J (node none)) {close : Byte}
    (hbegins : Begins close J) : Complete (parseMember value) (Member J) memberNode := by
  rintro ⟨k, v⟩ _ rest ⟨hl, hs, hs', ht⟩ hrest
  rename_i l s s' t
  obtain ⟨hskip, -, -⟩ := skipWs_begins hbegins ht rest
  have hshape : l ++ s ++ 58 :: (s' ++ t) ++ rest = l ++ (s ++ 58 :: (s' ++ (t ++ rest))) := by
    simp only [List.append_assoc, List.cons_append]
  have hliteral : parseLiteral (l ++ (s ++ 58 :: (s' ++ (t ++ rest)))) =
      .ok (encode k, s ++ 58 :: (s' ++ (t ++ rest))) :=
    parseLiteral_eq_ok.mpr ⟨k, l, hl, rfl, rfl⟩
  have hne : l ++ (s ++ 58 :: (s' ++ (t ++ rest))) ≠ [] := by
    obtain ⟨body, -, rfl⟩ := hl
    exact List.cons_ne_nil _ _
  unfold parseMember
  rw [hshape, if_neg hne, hliteral]
  dsimp only
  rw [skipWs_space hs, skipWs_cons (by decide), if_pos List.head?_cons, List.tail_cons,
    skipWs_space hs', hskip,
    hcomplete v t rest ht hrest]
  dsimp only
  rw [node_rekey]
  rfl

theorem member_begins : Begins 125 (Member J) := by
  rintro ⟨k, v⟩ _ ⟨⟨body, -, rfl⟩, -, -, -⟩
  exact ⟨34, _, rfl, by decide, by decide⟩

end

/-- The check for duplicates leaves distinct keys. -/
theorem passes_freshKey {before nodes : List Jval} (hbefore : (before.map (·.key)).Nodup) :
    Passes freshKey before nodes ↔ ((before ++ nodes).map (·.key)).Nodup := by
  induction nodes generalizing before with
  | nil => exact iff_of_true trivial (by rwa [List.append_nil])
  | cons v vs ih =>
      have hlast : ((before ++ [v]).map (·.key)).Nodup ↔ freshKey before v = true := by
        unfold freshKey
        rw [List.map_append, List.nodup_append]
        simp [hbefore]
      have hshape : before ++ v :: vs = before ++ [v] ++ vs := List.append_cons ..
      rw [hshape]
      constructor
      · rintro ⟨hv, hvs⟩
        exact (ih (hlast.mpr hv)).mp hvs
      · intro hnodup
        have hshorter : ((before ++ [v]).map (·.key)).Nodup := by
          rw [List.map_append] at hnodup
          exact (List.nodup_append.mp hnodup).1
        exact ⟨hlast.mp hshorter, (ih hshorter).mpr hnodup⟩

theorem passes_members (members : List (List Char × Value)) :
    Passes freshKey [] (members.map memberNode) ↔ DistinctKeys (members.map Prod.fst) := by
  have hkeys : (members.map memberNode).map (·.key) =
      ((members.map Prod.fst).map keyText).map some := by
    rw [List.map_map, List.map_map, List.map_map]
    exact List.map_congr_left fun m _ => node_key _ m.2
  have hnone : (([] : List Jval).map (·.key)).Nodup := List.nodup_nil
  rw [passes_freshKey hnone, List.nil_append, hkeys]
  exact List.nodup_map_iff (Option.some_injective Text)

theorem passes_items (before nodes : List Jval) : Passes (fun _ _ => true) before nodes := by
  induction nodes generalizing before with
  | nil => trivial
  | cons v vs ih => exact ⟨rfl, ih _⟩

/-! ## Values -/

theorem parseWord_sound {w : Word} {s rest : Text} {v : Jval} (h : parseWord w s = .ok (v, rest)) :
    s = w.bytes ++ rest ∧ v = node none (.word w) := by
  unfold parseWord at h
  split at h
  next hbegins =>
      obtain ⟨tail, rfl⟩ := List.isPrefixOf_iff_prefix.mp hbegins
      have heq := Except.ok.inj h
      rw [Prod.mk.injEq, List.drop_left] at heq
      exact ⟨by rw [heq.2], heq.1.symm⟩
  next => cases h

theorem parseWord_complete (w : Word) (rest : Text) :
    parseWord w (w.bytes ++ rest) = .ok (node none (.word w), rest) := by
  unfold parseWord
  rw [if_pos (List.isPrefixOf_iff_prefix.mpr (List.prefix_append _ _)), List.drop_left]
  rfl

theorem parseValueWith_sound {object array : Text → Parsed Jval} {E : Value → Text → Prop}
    (hobject : ∀ s v rest, object s = .ok (v, rest) →
      ∃ a t, E a (123 :: t) ∧ s = t ++ rest ∧ v = node none a)
    (harray : ∀ s v rest, array s = .ok (v, rest) →
      ∃ a t, E a (91 :: t) ∧ s = t ++ rest ∧ v = node none a)
    (hscalar : ∀ a t, Scalar ShortInteger a t → E a t) :
    Sound (parseValueWith object array) E (node none) := by
  intro s v rest h
  obtain ⟨w, hw, hs⟩ := space_skipWs s
  unfold parseValueWith at h
  split at h
  next => cases h
  next c s₁ hskip =>
      rw [hskip] at hs
      split at h
      next =>
          split at h
          next => cases h
          next t s₂ hliteral =>
              obtain ⟨x, l, hl, hs₁, rfl⟩ := parseLiteral_eq_ok.mp hliteral
              have heq := Except.ok.inj h
              rw [Prod.mk.injEq] at heq
              refine ⟨w, .string x, l, hw, hscalar _ _ (.string hl), ?_, heq.1.symm⟩
              rw [hs, hs₁, heq.2, List.append_assoc]
      next =>
        split at h
        next hc =>
            obtain ⟨a, t, ha, hs₁, hv⟩ := hobject _ _ _ h
            refine ⟨w, a, 123 :: t, hw, ha, ?_, hv⟩
            rw [hs, hc, hs₁, List.append_assoc]
            rfl
        next =>
          split at h
          next hc =>
              obtain ⟨a, t, ha, hs₁, hv⟩ := harray _ _ _ h
              refine ⟨w, a, 91 :: t, hw, ha, ?_, hv⟩
              rw [hs, hc, hs₁, List.append_assoc]
              rfl
          next =>
            split at h
            next =>
                obtain ⟨hs₁, hv⟩ := parseWord_sound h
                refine ⟨w, .word (wordOf c), _, hw, hscalar _ _ (.word _), ?_, hv⟩
                rw [hs, hs₁, List.append_assoc]
            next =>
              split at h
              next =>
                  split at h
                  next => cases h
                  next n s₂ hinteger =>
                      obtain ⟨t, ht, hs₁⟩ := parseInteger_sound hinteger
                      have heq := Except.ok.inj h
                      rw [Prod.mk.injEq] at heq
                      refine ⟨w, .number n, t, hw, hscalar _ _ (.number ht), ?_, heq.1.symm⟩
                      rw [hs, hs₁, heq.2, List.append_assoc]
              next => cases h

/-- The first byte of an integer. -/
theorem ShortInteger.head {n : Int} {t : Text} (h : ShortInteger n t) :
    ∃ c t', t = c :: t' ∧ (c = 45 ∨ isdigit c = true) := by
  obtain ⟨-, negative, digits, hne, hdigits, -, rfl, -⟩ := h
  obtain ⟨d, ds, rfl⟩ := List.exists_cons_of_ne_nil hne
  cases negative with
  | true => exact ⟨45, d :: ds, rfl, .inl rfl⟩
  | false => exact ⟨d, ds, rfl, .inr (hdigits d List.mem_cons_self)⟩

theorem parseValueWith_scalar (object array : Text → Parsed Jval) {v : Value} {t : Text}
    (h : Scalar ShortInteger v t) {rest : Text} (hrest : Ends rest) :
    parseValueWith object array (t ++ rest) = .ok (node none v, rest) := by
  cases h with
  | string hl =>
      rename_i x
      have hliteral : parseLiteral (t ++ rest) = .ok (encode x, rest) :=
        parseLiteral_eq_ok.mpr ⟨x, t, hl, rfl, rfl⟩
      obtain ⟨body, -, rfl⟩ := hl
      have hshape : 34 :: body ++ [34] ++ rest = 34 :: (body ++ [34] ++ rest) := rfl
      rw [hshape] at hliteral ⊢
      unfold parseValueWith
      rw [skipWs_cons (by decide)]
      dsimp only
      rw [if_pos rfl, hliteral]
      rfl
  | number hn =>
      rename_i n
      have hinteger := parseInteger_complete hn hrest
      obtain ⟨c, t', rfl, hc⟩ := hn.head
      have hother : c ≠ 34 ∧ c ≠ 123 ∧ c ≠ 91 ∧ ¬ (c = 116 ∨ c = 102 ∨ c = 110) ∧
          isSpace c = false := by
        cases hc with
        | inl hc =>
            subst hc
            decide
        | inr hc =>
            refine ⟨?_, ?_, ?_, ?_, ?_⟩
            · rintro rfl
              cases hc
            · rintro rfl
              cases hc
            · rintro rfl
              cases hc
            · rintro (rfl | rfl | rfl) <;> cases hc
            · rw [Bool.eq_false_iff]
              intro hspace
              unfold isSpace at hspace
              simp only [Bool.or_eq_true, decide_eq_true_eq] at hspace
              rcases hspace with ((rfl | rfl) | rfl) | rfl <;> cases hc
      rw [List.cons_append] at hinteger ⊢
      unfold parseValueWith
      rw [skipWs_cons hother.2.2.2.2]
      dsimp only
      rw [if_neg hother.1, if_neg hother.2.1, if_neg hother.2.2.1, if_neg hother.2.2.2.1,
        if_pos hc, hinteger]
      rfl
  | word w =>
      have hword := parseWord_complete w rest
      cases w <;> exact hword

/-- What begins a value of the grammar. -/
theorem scalar_begins {v : Value} {t : Text} (h : Scalar ShortInteger v t) :
    ∃ c t', t = c :: t' ∧ isSpace c = false ∧ c ≠ 93 := by
  cases h with
  | string hl =>
      obtain ⟨body, -, rfl⟩ := hl
      exact ⟨34, _, rfl, by decide, by decide⟩
  | number hn =>
      obtain ⟨c, t', rfl, hc⟩ := hn.head
      refine ⟨c, t', rfl, ?_, ?_⟩
      · cases hc with
        | inl hc =>
            subst hc
            rfl
        | inr hc =>
            rw [Bool.eq_false_iff]
            intro hspace
            unfold isSpace at hspace
            simp only [Bool.or_eq_true, decide_eq_true_eq] at hspace
            rcases hspace with ((rfl | rfl) | rfl) | rfl <;> cases hc
      · rintro rfl
        cases hc with
        | inl hc => cases hc
        | inr hc => cases hc
  | word w => cases w <;> exact ⟨_, _, rfl, by decide, by decide⟩

/-- The values that nest at most so deep. -/
abbrev Within (depth : Nat) : Value → Text → Prop := Nested ShortInteger DistinctKeys depth

theorem within_begins (depth : Nat) : Begins 93 (Within depth) := by
  intro v t h
  cases depth with
  | zero => exact scalar_begins h
  | succ depth =>
      cases h with
      | inl hscalar => exact scalar_begins hscalar
      | inr hcontainer => cases hcontainer <;> exact ⟨_, _, rfl, by decide, by decide⟩

theorem parseValue_sound (depth : Nat) : Sound (parseValue depth) (Within depth) (node none) := by
  induction depth with
  | zero => exact parseValueWith_sound nofun nofun fun a t h => h
  | succ depth ih =>
      refine parseValueWith_sound (fun s v rest h => ?_) (fun s v rest h => ?_) fun a t h => .inl h
      · rcases parseContainer_sound (parseMember_sound ih) h with ⟨w, hw, hs, hv⟩ |
          ⟨members, t, hmembers, hs, hv, hpasses⟩
        · refine ⟨.object [], w ++ [125], .inr (.emptyObject hw), ?_, hv⟩
          rw [hs, List.append_assoc]
          rfl
        · refine ⟨.object members, t ++ [125], .inr (.object hmembers ?_), ?_, ?_⟩
          · exact (passes_members members).mp hpasses
          · rw [hs, List.append_assoc]
            rfl
          · rw [hv, node, nodeMembers_eq]
      · rcases parseContainer_sound ih h with ⟨w, hw, hs, hv⟩ | ⟨items, t, hitems, hs, hv, -⟩
        · refine ⟨.array [], w ++ [93], .inr (.emptyArray hw), ?_, hv⟩
          rw [hs, List.append_assoc]
          rfl
        · refine ⟨.array items, t ++ [93], .inr (.array hitems), ?_, ?_⟩
          · rw [hs, List.append_assoc]
            rfl
          · rw [hv, node, nodeItems_eq]

theorem parseValue_complete (depth : Nat) :
    Complete (parseValue depth) (Within depth) (node none) := by
  induction depth with
  | zero => exact fun v t rest h hrest => parseValueWith_scalar _ _ h hrest
  | succ depth ih =>
      intro v t rest h hrest
      cases h with
      | inl hscalar => exact parseValueWith_scalar _ _ hscalar hrest
      | inr hcontainer =>
          have hobject (s : Text) : parseValue (depth + 1) (123 :: s) =
              parseObject (parseValue depth) s := rfl
          have harray (s : Text) : parseValue (depth + 1) (91 :: s) =
              parseArray (parseValue depth) s := rfl
          cases hcontainer with
          | emptyArray hw =>
              rw [List.cons_append, harray, List.append_assoc]
              exact parseContainer_empty (.inl rfl) hw rest
          | array hitems =>
              rename_i items t
              rw [List.cons_append, harray, List.append_assoc, node, nodeItems_eq]
              exact parseContainer_complete ih (within_begins depth) (.inl rfl) hitems
                (passes_items [] _) rest
          | emptyObject hw =>
              rw [List.cons_append, hobject, List.append_assoc]
              exact parseContainer_empty (.inr rfl) hw rest
          | object hmembers hkeys =>
              rename_i members t
              rw [List.cons_append, hobject, List.append_assoc, node, nodeMembers_eq]
              exact parseContainer_complete (parseMember_complete ih (within_begins depth))
                member_begins (.inr rfl) hmembers ((passes_members members).mpr hkeys) rest

end Recursant.Document
