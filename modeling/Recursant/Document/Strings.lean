import Mathlib.Data.List.TakeWhile
import Recursant.Lib.JsonString
import Recursant.Text

/-!
# String literals of the configuration

`parse_string` with its helpers.  The parser is at the front of what is left of the document; a
position is a number of bytes that have been dropped.
-/

namespace Recursant.Document

open JsonString

/-- The message, what is left of the document where it is reported, and the key it names. -/
structure Fault where
  message : Text
  rest : Text
  key : Option Text
  deriving DecidableEq

def perr (message rest : Text) : Fault := ⟨message, rest, none⟩

abbrev Parsed (α : Type) := Except Fault (α × Text)

/-! ## Characters -/

def parseHex4 (rest : Text) : Parsed Nat :=
  if rest.length < 4 then .error (perr "truncated \\u escape" rest)
  else match (rest.take 4).foldlM (fun v c => (hexDigit c).map (v * 16 + ·)) 0 with
    | none => .error (perr "invalid \\u escape digit" rest)
    | some v => .ok (v, rest.drop 4)

/-- `utf8_encode` -/
def utf8Encode (cp : Nat) : Text :=
  if cp < 0x80 then [cp.toUInt8]
  else if cp < 0x800 then [(0xC0 ||| cp >>> 6).toUInt8, (0x80 ||| cp &&& 0x3F).toUInt8]
  else if cp < 0x10000 then
    [(0xE0 ||| cp >>> 12).toUInt8, (0x80 ||| cp >>> 6 &&& 0x3F).toUInt8,
      (0x80 ||| cp &&& 0x3F).toUInt8]
  else
    [(0xF0 ||| cp >>> 18).toUInt8, (0x80 ||| cp >>> 12 &&& 0x3F).toUInt8,
      (0x80 ||| cp >>> 6 &&& 0x3F).toUInt8, (0x80 ||| cp &&& 0x3F).toUInt8]

/-- What a lead byte asks for: the number of bytes that go on, and the bounds of the first. -/
def lead (c : Byte) : Option (Nat × Byte × Byte) :=
  if 0xC2 ≤ c ∧ c ≤ 0xDF then some (1, 0x80, 0xBF)
  else if c = 0xE0 then some (2, 0xA0, 0xBF)
  else if (0xE1 ≤ c ∧ c ≤ 0xEC) ∨ c = 0xEE ∨ c = 0xEF then some (2, 0x80, 0xBF)
  else if c = 0xED then some (2, 0x80, 0x9F)
  else if c = 0xF0 then some (3, 0x90, 0xBF)
  else if 0xF1 ≤ c ∧ c ≤ 0xF3 then some (3, 0x80, 0xBF)
  else if c = 0xF4 then some (3, 0x80, 0x8F)
  else none

/-- The loop over the bytes that go on; only the first has bounds of its own. -/
def goesOn : Nat → Byte → Byte → Text → Bool
  | 0, _, _, _ => true
  | _ + 1, _, _, [] => false
  | need + 1, lower, upper, c :: s => lower ≤ c && c ≤ upper && goesOn need 0x80 0xBF s

/-- `utf8_valid_seq`: the width of the character at the front. -/
def utf8ValidSeq : Text → Option Nat
  | [] => none
  | c :: s =>
      if c < 0x80 then if c < 0x20 then none else some 1
      else match lead c with
        | none => none
        | some (need, lower, upper) =>
            if s.length < need then none
            else if goesOn need lower upper s then some (need + 1) else none

/-! ## Literals -/

/-- The byte of an escape other than `u`. -/
def escapeByte (e : Byte) : Option Byte :=
  if e = 34 then some 34 else if e = 92 then some 92 else if e = 47 then some 47
  else if e = 98 then some 8 else if e = 102 then some 12 else if e = 110 then some 10
  else if e = 114 then some 13 else if e = 116 then some 9 else none

/-- The case `u`, from its digits on. -/
def parseUnicode (rest : Text) : Parsed Text :=
  match parseHex4 rest with
  | .error e => .error e
  | .ok (cp, rest) =>
      if 0xD800 ≤ cp ∧ cp ≤ 0xDBFF then
        if rest.take 2 = [92, 117] then
          match parseHex4 (rest.drop 2) with
          | .error e => .error e
          | .ok (lo, rest) =>
              if lo < 0xDC00 ∨ 0xDFFF < lo then .error (perr "unpaired surrogate escape" rest)
              else .ok (utf8Encode (0x10000 + (cp - 0xD800) <<< 10 + (lo - 0xDC00)), rest)
        else .error (perr "unpaired surrogate escape" rest)
      else if 0xDC00 ≤ cp ∧ cp ≤ 0xDFFF then .error (perr "unpaired surrogate escape" rest)
      else .ok (utf8Encode cp, rest)

/-- What one turn of the loop of `parse_string` does. -/
inductive Turn where
  | closed (rest : Text)
  | pushed (bytes rest : Text)
  | failed (fault : Fault)

def escapeTurn : Text → Turn
  | [] => .failed (perr "unterminated string" [])
  | e :: rest =>
      if e = 117 then
        match parseUnicode rest with
        | .error fault => .failed fault
        | .ok (bytes, rest) => .pushed bytes rest
      else match escapeByte e with
        | some b => .pushed [b] rest
        | none => .failed (perr "invalid escape sequence" rest)

def stringTurn : Text → Turn
  | [] => .failed (perr "unterminated string" [])
  | c :: rest =>
      if c = 34 then .closed rest
      else if c = 92 then escapeTurn rest
      else match utf8ValidSeq (c :: rest) with
        | none => .failed (perr "invalid UTF-8 or raw control character in string" (c :: rest))
        | some width => .pushed ((c :: rest).take width) ((c :: rest).drop width)

def stringLoop : Nat → Text → Text → Parsed Text
  | 0, _, rest => .error (perr "unterminated string" rest)
  | fuel + 1, b, rest =>
      match stringTurn rest with
      | .closed rest => .ok (b, rest)
      | .pushed bytes rest => stringLoop fuel (b ++ bytes) rest
      | .failed fault => .error fault

/-- `parse_string` at the front of what is left: the bytes pushed before the terminator. -/
def parseLiteral : Text → Parsed Text
  | [] => .error (perr "expected a string" [])
  | c :: rest =>
      if c = 34 then stringLoop (rest.length + 1) [] rest
      else .error (perr "expected a string" (c :: rest))

/-- `parse_string` at a position of the document: the bytes and the position behind them. -/
def parseString (doc : Text) (pos : Nat) : Except Fault (Text × Nat) :=
  match parseLiteral (doc.drop pos) with
  | .error fault => .error fault
  | .ok (bytes, rest) => .ok (bytes, doc.length - rest.length)

/-! ## Four digits -/

theorem parseHex4_cons (a b c d : Byte) (rest : Text) :
    parseHex4 (a :: b :: c :: d :: rest) =
      match hexNumber a b c d with
      | none => .error (perr "invalid \\u escape digit" (a :: b :: c :: d :: rest))
      | some v => .ok (v, rest) := by
  have hfold : ([a, b, c, d]).foldlM (fun v c => (hexDigit c).map (v * 16 + ·)) 0 =
      hexNumber a b c d := by
    unfold hexNumber
    cases ha : hexDigit a <;> cases hb : hexDigit b <;> cases hc : hexDigit c <;>
      cases hd : hexDigit d <;> simp [ha, hb, hc, hd]
  unfold parseHex4
  rw [if_neg (by simp), List.take_succ_cons, List.take_succ_cons, List.take_succ_cons,
    List.take_succ_cons, List.take_zero, hfold]
  rfl

theorem parseHex4_eq_ok {rest rest' : Text} {n : Nat} :
    parseHex4 rest = .ok (n, rest') ↔
      ∃ a b c d, rest = a :: b :: c :: d :: rest' ∧ hexNumber a b c d = some n := by
  constructor
  · intro h
    match rest with
    | a :: b :: c :: d :: tail =>
        rw [parseHex4_cons] at h
        cases hnumber : hexNumber a b c d with
        | none =>
            rw [hnumber] at h
            cases h
        | some v =>
            rw [hnumber] at h
            have heq := Except.ok.inj h
            rw [Prod.mk.injEq] at heq
            exact ⟨a, b, c, d, by rw [heq.2], by rw [hnumber, heq.1]⟩
    | [] | [_] | [_, _] | [_, _, _] => cases h
  · rintro ⟨a, b, c, d, rfl, hnumber⟩
    rw [parseHex4_cons, hnumber]

/-! ## Characters as bytes -/

theorem or_eq_add {l b i : Nat} (hb : b < 2 ^ i) (hl : l % 2 ^ i = 0) : l ||| b = b + l := by
  have hshift : (l / 2 ^ i) <<< i = l := by
    rw [Nat.shiftLeft_eq]
    exact Nat.div_mul_cancel (Nat.dvd_of_mod_eq_zero hl)
  have h := Nat.shiftLeft_add_eq_or_of_lt hb (l / 2 ^ i)
  rw [hshift] at h
  omega

/-- The encoder writes the bytes of the character. -/
theorem utf8Encode_eq (c : Char) : utf8Encode c.toNat = String.utf8EncodeChar c := by
  have hlt := toNat_lt c
  have hlow (n : Nat) : 0x80 ||| n &&& 0x3F = n % 64 + 0x80 := by
    have hmask : n &&& 0x3F = n % 2 ^ 6 := Nat.and_two_pow_sub_one_eq_mod n 6
    rw [hmask, or_eq_add (Nat.mod_lt _ (by decide)) (by decide)]
    rfl
  have hlead {l k i : Nat} (h : c.toNat / 2 ^ k < 2 ^ i) (hl : l % 2 ^ i = 0) :
      l ||| c.toNat >>> k = c.toNat / 2 ^ k + l := by
    rw [Nat.shiftRight_eq_div_pow, or_eq_add h hl]
  rw [utf8EncodeChar_eq]
  unfold utf8Encode
  by_cases h₁ : c.toNat < 0x80
  · rw [if_pos h₁, if_pos h₁]
  rw [if_neg h₁, if_neg h₁]
  by_cases h₂ : c.toNat < 0x800
  · rw [if_pos h₂, if_pos h₂, hlow, hlead (i := 6) (by omega) (by decide)]
    rfl
  rw [if_neg h₂, if_neg h₂]
  by_cases h₃ : c.toNat < 0x10000
  · rw [if_pos h₃, if_pos h₃, hlow, hlow, hlead (i := 4) (by omega) (by decide),
      Nat.shiftRight_eq_div_pow]
    rfl
  rw [if_neg h₃, if_neg h₃, hlow, hlow, hlow, hlead (i := 3) (by omega) (by decide),
    Nat.shiftRight_eq_div_pow, Nat.shiftRight_eq_div_pow]
  rfl

/-- No character has the number of a surrogate. -/
theorem toNat_scalar (c : Char) : c.toNat < 0xD800 ∨ 0xDFFF < c.toNat := by
  have hc := c.valid
  simp only [UInt32.isValidChar, Nat.isValidChar] at hc
  unfold Char.toNat
  omega

/-- A number that is a scalar value is the number of a character. -/
theorem exists_char {n : Nat} (h : n < 0x110000) (hsurrogate : n < 0xD800 ∨ 0xDFFF < n) :
    ∃ c : Char, c.toNat = n := by
  have hsize : n < UInt32.size := Nat.lt_trans h (by decide)
  refine ⟨⟨UInt32.ofNatLT n hsize, ?_⟩, rfl⟩
  show n < 0xD800 ∨ 0xDFFF < n ∧ n < 0x110000
  omega

/-- What a lead byte stands for, by its number. -/
def leadRange (n : Nat) : Option (Nat × Nat × Nat) :=
  if 0xC2 ≤ n ∧ n ≤ 0xDF then some (1, 0x80, 0xBF)
  else if 0xE0 ≤ n ∧ n ≤ 0xEF then
    some (2, if n = 0xE0 then 0xA0 else 0x80, if n = 0xED then 0x9F else 0xBF)
  else if 0xF0 ≤ n ∧ n ≤ 0xF4 then
    some (3, if n = 0xF0 then 0x90 else 0x80, if n = 0xF4 then 0x8F else 0xBF)
  else none

theorem lead_range (c : Byte) :
    (lead c).map (fun r => (r.1, r.2.1.toNat, r.2.2.toNat)) = leadRange c.toNat := by
  have hall : ∀ n < 256, (lead (UInt8.ofNat n)).map (fun r => (r.1, r.2.1.toNat, r.2.2.toNat)) =
      leadRange n := by decide +kernel
  have hc := hall c.toNat c.toNat_lt
  rwa [UInt8.ofNat_toNat] at hc

theorem goesOn_succ {need : Nat} {lower upper : Byte} {s : Text} :
    goesOn (need + 1) lower upper s = true ↔ ∃ b rest, s = b :: rest ∧
      lower.toNat ≤ b.toNat ∧ b.toNat ≤ upper.toNat ∧ goesOn need 0x80 0xBF rest = true := by
  cases s with
  | nil => exact iff_of_false nofun nofun
  | cons b rest =>
      rw [goesOn, Bool.and_eq_true, Bool.and_eq_true, decide_eq_true_eq, decide_eq_true_eq,
        UInt8.le_iff_toNat_le, UInt8.le_iff_toNat_le]
      constructor
      · intro h
        exact ⟨b, rest, rfl, h.1.1, h.1.2, h.2⟩
      · rintro ⟨b', rest', hcons, hlower, hupper, h⟩
        obtain ⟨rfl, rfl⟩ := List.cons.inj hcons
        exact ⟨⟨hlower, hupper⟩, h⟩

theorem ofNat_eq {b : Byte} {n : Nat} (h : n = b.toNat) : UInt8.ofNat n = b := by
  rw [h, UInt8.ofNat_toNat]

/-- A lead byte and the bytes that go on are a character. -/
theorem char_of_goesOn {c lower upper : Byte} {need : Nat} {s : Text}
    (hlead : leadRange c.toNat = some (need, lower.toNat, upper.toNat))
    (h : goesOn need lower upper s = true) :
    ∃ (ch : Char) (tail rest : Text), 0x80 ≤ ch.toNat ∧ s = tail ++ rest ∧ tail.length = need ∧
      String.utf8EncodeChar ch = c :: tail := by
  have h80 : (0x80 : Byte).toNat = 0x80 := rfl
  have hBF : (0xBF : Byte).toNat = 0xBF := rfl
  unfold leadRange at hlead
  split at hlead
  next hc =>
      simp only [Option.some.injEq, Prod.mk.injEq] at hlead
      obtain ⟨rfl, hlower, hupper⟩ := hlead
      obtain ⟨b, rest, rfl, hb, hb', -⟩ := goesOn_succ.mp h
      obtain ⟨ch, hch⟩ := exists_char (n := (c.toNat - 0xC0) * 64 + (b.toNat - 0x80)) (by omega)
        (by omega)
      refine ⟨ch, [b], rest, by omega, rfl, rfl, ?_⟩
      rw [utf8EncodeChar_eq, if_neg (by omega), if_pos (by omega), ofNat_eq (b := c) (by omega),
        ofNat_eq (b := b) (by omega)]
  next =>
      split at hlead
      next hc =>
          simp only [Option.some.injEq, Prod.mk.injEq] at hlead
          obtain ⟨rfl, hlower, hupper⟩ := hlead
          obtain ⟨b, s, rfl, hb, hb', hs⟩ := goesOn_succ.mp h
          obtain ⟨b₂, rest, rfl, hb₂, hb₂', -⟩ := goesOn_succ.mp hs
          rw [h80] at hb₂
          rw [hBF] at hb₂'
          have hlow : c.toNat = 0xE0 → 0xA0 ≤ b.toNat := by
            intro hE0
            rw [if_pos hE0] at hlower
            omega
          have hhigh : c.toNat = 0xED → b.toNat ≤ 0x9F := by
            intro hED
            rw [if_pos hED] at hupper
            omega
          have hcont : 0x80 ≤ b.toNat ∧ b.toNat ≤ 0xBF := by
            split at hlower <;> split at hupper <;> omega
          obtain ⟨ch, hch⟩ := exists_char
            (n := (c.toNat - 0xE0) * 4096 + (b.toNat - 0x80) * 64 + (b₂.toNat - 0x80)) (by omega)
            (by omega)
          refine ⟨ch, [b, b₂], rest, by omega, rfl, rfl, ?_⟩
          rw [utf8EncodeChar_eq, if_neg (by omega), if_neg (by omega), if_pos (by omega),
            ofNat_eq (b := c) (by omega), ofNat_eq (b := b) (by omega),
            ofNat_eq (b := b₂) (by omega)]
      next =>
          split at hlead
          next hc =>
              simp only [Option.some.injEq, Prod.mk.injEq] at hlead
              obtain ⟨rfl, hlower, hupper⟩ := hlead
              obtain ⟨b, s, rfl, hb, hb', hs⟩ := goesOn_succ.mp h
              obtain ⟨b₂, s, rfl, hb₂, hb₂', hs⟩ := goesOn_succ.mp hs
              obtain ⟨b₃, rest, rfl, hb₃, hb₃', -⟩ := goesOn_succ.mp hs
              rw [h80] at hb₂ hb₃
              rw [hBF] at hb₂' hb₃'
              have hlow : c.toNat = 0xF0 → 0x90 ≤ b.toNat := by
                intro hF0
                rw [if_pos hF0] at hlower
                omega
              have hhigh : c.toNat = 0xF4 → b.toNat ≤ 0x8F := by
                intro hF4
                rw [if_pos hF4] at hupper
                omega
              have hcont : 0x80 ≤ b.toNat ∧ b.toNat ≤ 0xBF := by
                split at hlower <;> split at hupper <;> omega
              obtain ⟨ch, hch⟩ := exists_char
                (n := (c.toNat - 0xF0) * 262144 + (b.toNat - 0x80) * 4096 +
                  (b₂.toNat - 0x80) * 64 + (b₃.toNat - 0x80)) (by omega) (by omega)
              refine ⟨ch, [b, b₂, b₃], rest, by omega, rfl, rfl, ?_⟩
              rw [utf8EncodeChar_eq, if_neg (by omega), if_neg (by omega), if_neg (by omega),
                ofNat_eq (b := c) (by omega), ofNat_eq (b := b) (by omega),
                ofNat_eq (b := b₂) (by omega), ofNat_eq (b := b₃) (by omega)]
          next => cases hlead

/-- A lead byte, by its number, has the bounds of the range. -/
theorem lead_of_range {n need lower upper : Nat} (hn : n < 256)
    (h : leadRange n = some (need, lower, upper)) :
    ∃ l u : Byte, lead (UInt8.ofNat n) = some (need, l, u) ∧ l.toNat = lower ∧
      u.toNat = upper := by
  have hrange := lead_range (UInt8.ofNat n)
  rw [UInt8.toNat_ofNat', Nat.mod_eq_of_lt hn, h, Option.map_eq_some_iff] at hrange
  obtain ⟨⟨need', l, u⟩, hlead, heq⟩ := hrange
  simp only [Prod.mk.injEq] at heq
  obtain ⟨rfl, hl, hu⟩ := heq
  exact ⟨l, u, hlead, hl, hu⟩

/-- The bytes of a character that is not ASCII are a lead byte and bytes that go on. -/
theorem goesOn_of_char {ch : Char} (h : 0x80 ≤ ch.toNat) (rest : Text) :
    ∃ (c lower upper : Byte) (tail : Text), String.utf8EncodeChar ch = c :: tail ∧
      0x80 ≤ c.toNat ∧ lead c = some (tail.length, lower, upper) ∧
      goesOn tail.length lower upper (tail ++ rest) = true := by
  have hlt := toNat_lt ch
  have hscalar := toNat_scalar ch
  have h80 : (0x80 : Byte).toNat = 0x80 := rfl
  have hBF : (0xBF : Byte).toNat = 0xBF := rfl
  rw [utf8EncodeChar_eq, if_neg (by omega)]
  by_cases h₂ : ch.toNat < 0x800
  · rw [if_pos h₂]
    obtain ⟨l, u, hlead, hl, hu⟩ := lead_of_range (n := ch.toNat / 64 + 0xC0) (by omega)
      (show leadRange _ = some (1, 0x80, 0xBF) by
        unfold leadRange
        rw [if_pos (by omega)])
    refine ⟨_, l, u, _, rfl, ?_, hlead, goesOn_succ.mpr ⟨_, _, rfl, ?_, ?_, rfl⟩⟩
    all_goals rw [UInt8.toNat_ofNat']
    all_goals omega
  rw [if_neg h₂]
  by_cases h₃ : ch.toNat < 0x10000
  · rw [if_pos h₃]
    obtain ⟨l, u, hlead, hl, hu⟩ := lead_of_range (n := ch.toNat / 4096 + 0xE0) (by omega)
      (show leadRange _ = some (2, if ch.toNat / 4096 + 0xE0 = 0xE0 then 0xA0 else 0x80,
          if ch.toNat / 4096 + 0xE0 = 0xED then 0x9F else 0xBF) by
        unfold leadRange
        rw [if_neg (by omega), if_pos (by omega)])
    refine ⟨_, l, u, _, rfl, ?_, hlead, goesOn_succ.mpr ⟨_, _, rfl, ?_, ?_,
      goesOn_succ.mpr ⟨_, _, rfl, ?_, ?_, rfl⟩⟩⟩
    all_goals rw [UInt8.toNat_ofNat']
    · omega
    · split at hl <;> omega
    · split at hu <;> omega
    · omega
    · omega
  rw [if_neg h₃]
  obtain ⟨l, u, hlead, hl, hu⟩ := lead_of_range (n := ch.toNat / 262144 + 0xF0) (by omega)
    (show leadRange _ = some (3, if ch.toNat / 262144 + 0xF0 = 0xF0 then 0x90 else 0x80,
        if ch.toNat / 262144 + 0xF0 = 0xF4 then 0x8F else 0xBF) by
      unfold leadRange
      rw [if_neg (by omega), if_neg (by omega), if_pos (by omega)])
  refine ⟨_, l, u, _, rfl, ?_, hlead, goesOn_succ.mpr ⟨_, _, rfl, ?_, ?_,
    goesOn_succ.mpr ⟨_, _, rfl, ?_, ?_, goesOn_succ.mpr ⟨_, _, rfl, ?_, ?_, rfl⟩⟩⟩⟩
  all_goals rw [UInt8.toNat_ofNat']
  · omega
  · split at hl <;> omega
  · split at hu <;> omega
  all_goals omega

/-- The one byte of an ASCII character. -/
theorem utf8EncodeChar_ascii {ch : Char} (h : ch.toNat < 0x80) :
    String.utf8EncodeChar ch = [UInt8.ofNat ch.toNat] := by
  rw [utf8EncodeChar_eq, if_pos h]

/-- The validation accepts exactly the characters that are no control characters. -/
theorem utf8ValidSeq_iff {rest : Text} {w : Nat} : utf8ValidSeq rest = some w ↔
    ∃ ch : Char, 0x20 ≤ ch.toNat ∧ String.utf8EncodeChar ch <+: rest ∧
      w = (String.utf8EncodeChar ch).length := by
  constructor
  · intro h
    cases rest with
    | nil => cases h
    | cons c s =>
        rw [utf8ValidSeq] at h
        by_cases hascii : c < 0x80
        · rw [if_pos hascii] at h
          by_cases hcontrol : c < 0x20
          · rw [if_pos hcontrol] at h
            cases h
          · rw [if_neg hcontrol] at h
            have hlow : c.toNat < 0x80 := hascii
            have hhigh : 0x20 ≤ c.toNat := UInt8.not_lt.mp hcontrol
            obtain ⟨ch, hch⟩ := exists_char (n := c.toNat) (by omega) (by omega)
            refine ⟨ch, by omega, ?_, ?_⟩
            · rw [utf8EncodeChar_ascii (by omega), ofNat_eq hch]
              exact ⟨s, rfl⟩
            · rw [utf8EncodeChar_ascii (by omega)]
              exact (Option.some.inj h).symm
        · rw [if_neg hascii] at h
          cases hlead : lead c with
          | none =>
              rw [hlead] at h
              cases h
          | some bounds =>
              obtain ⟨need, lower, upper⟩ := bounds
              have hrange := lead_range c
              rw [hlead] at h hrange
              dsimp only at h
              split at h
              next => cases h
              next =>
                  split at h
                  next hgoes =>
                      obtain ⟨ch, tail, rest, hch, rfl, hlength, hencode⟩ :=
                        char_of_goesOn hrange.symm hgoes
                      refine ⟨ch, by omega, ?_, ?_⟩
                      · rw [hencode]
                        exact ⟨rest, rfl⟩
                      · rw [hencode, List.length_cons, hlength]
                        exact (Option.some.inj h).symm
                  next => cases h
  · rintro ⟨ch, hch, ⟨rest, rfl⟩, rfl⟩
    by_cases hascii : ch.toNat < 0x80
    · have hlow : UInt8.ofNat ch.toNat < 0x80 := by
        rw [UInt8.lt_iff_toNat_lt, UInt8.toNat_ofNat']
        show ch.toNat % 256 < 128
        omega
      have hhigh : ¬ UInt8.ofNat ch.toNat < 0x20 := by
        rw [UInt8.lt_iff_toNat_lt, UInt8.toNat_ofNat']
        show ¬ ch.toNat % 256 < 32
        omega
      rw [utf8EncodeChar_ascii hascii, List.singleton_append, utf8ValidSeq, if_pos hlow,
        if_neg hhigh]
      rfl
    · obtain ⟨c, lower, upper, tail, hencode, hc, hlead, hgoes⟩ :=
        goesOn_of_char (Nat.le_of_not_lt hascii) rest
      have hhigh : ¬ c < 0x80 := by
        rw [UInt8.not_lt, UInt8.le_iff_toNat_le]
        exact hc
      rw [hencode, List.cons_append, utf8ValidSeq, if_neg hhigh, hlead]
      dsimp only
      rw [if_neg (by rw [List.length_append]; omega), if_pos hgoes, List.length_cons]

/-! ## One character between the quotes -/

theorem escapeByte_eq {e : Byte} :
    escapeByte e = (shortEscape e).map fun ch => UInt8.ofNat ch.toNat := by
  unfold escapeByte shortEscape
  simp only [apply_ite (Option.map _), Option.map_some, Option.map_none]
  rfl

theorem shortEscape_ascii {e : Byte} {ch : Char} (h : shortEscape e = some ch) :
    ch.toNat < 0x80 ∧ e ≠ 117 := by
  have hall : ∀ n < 256, (shortEscape (UInt8.ofNat n)).all
      (fun ch => decide (ch.toNat < 0x80) && decide (n ≠ 117)) = true := by decide +kernel
  have he := hall e.toNat e.toNat_lt
  rw [UInt8.ofNat_toNat, h, Option.all_some, Bool.and_eq_true, decide_eq_true_eq,
    decide_eq_true_eq] at he
  exact ⟨he.1, fun h117 => he.2 (by rw [h117]; rfl)⟩

/-- The numbers behind `\u`: one of a character, or the two of a surrogate pair. -/
def Escaped (ch : Char) (s : Text) : Prop :=
  (∃ a b c d, s = [a, b, c, d] ∧ hexNumber a b c d = some ch.toNat) ∨
    ∃ a b c d a' b' c' d' high low, s = [a, b, c, d, 92, 117, a', b', c', d'] ∧
      hexNumber a b c d = some high ∧ hexNumber a' b' c' d' = some low ∧
      0xD800 ≤ high ∧ high ≤ 0xDBFF ∧ 0xDC00 ≤ low ∧ low ≤ 0xDFFF ∧
      ch.toNat = 0x10000 + (high - 0xD800) * 0x400 + (low - 0xDC00)

theorem parseUnicode_eq_ok {rest rest' bytes : Text} : parseUnicode rest = .ok (bytes, rest') ↔
    ∃ (ch : Char) (s : Text), rest = s ++ rest' ∧ bytes = String.utf8EncodeChar ch ∧
      Escaped ch s := by
  constructor
  · intro h
    unfold parseUnicode at h
    split at h
    next => cases h
    next cp rest₁ hfirst =>
        obtain ⟨a, b, c, d, rfl, hnumber⟩ := parseHex4_eq_ok.mp hfirst
        have hcp := hexNumber_lt hnumber
        split at h
        next hhigh =>
            split at h
            next hpair =>
                split at h
                next => cases h
                next lo rest₂ hsecond =>
                    obtain ⟨a', b', c', d', hrest, hnumber'⟩ := parseHex4_eq_ok.mp hsecond
                    split at h
                    next => cases h
                    next hlow =>
                        have heq := Except.ok.inj h
                        rw [Prod.mk.injEq, Nat.shiftLeft_eq] at heq
                        obtain ⟨ch, hch⟩ := exists_char
                          (n := 0x10000 + (cp - 0xD800) * 2 ^ 10 + (lo - 0xDC00)) (by omega)
                          (by omega)
                        have hsplit := List.take_append_drop 2 rest₁
                        rw [hpair, hrest] at hsplit
                        refine ⟨ch, [a, b, c, d, 92, 117, a', b', c', d'], ?_, ?_, .inr
                          ⟨a, b, c, d, a', b', c', d', cp, lo, rfl, hnumber, hnumber', hhigh.1,
                            hhigh.2, by omega, by omega, hch⟩⟩
                        · rw [← hsplit, heq.2]
                          rfl
                        · rw [← heq.1, ← hch, utf8Encode_eq]
            next => cases h
        next hhigh =>
            split at h
            next => cases h
            next hlow =>
                have heq := Except.ok.inj h
                rw [Prod.mk.injEq] at heq
                obtain ⟨ch, hch⟩ := exists_char (n := cp) (by omega) (by omega)
                refine ⟨ch, [a, b, c, d], ?_, ?_, .inl ⟨a, b, c, d, rfl, by rw [hnumber, hch]⟩⟩
                · rw [heq.2]
                  rfl
                · rw [← heq.1, ← hch, utf8Encode_eq]
  · rintro ⟨ch, s, rfl, rfl, ⟨a, b, c, d, rfl, hnumber⟩ |
      ⟨a, b, c, d, a', b', c', d', high, low, rfl, hhigh, hlow, h₁, h₂, h₃, h₄, hch⟩⟩
    · have hscalar := toNat_scalar ch
      have hfirst : parseHex4 ([a, b, c, d] ++ rest') = .ok (ch.toNat, rest') :=
        parseHex4_eq_ok.mpr ⟨a, b, c, d, rfl, hnumber⟩
      unfold parseUnicode
      rw [hfirst]
      dsimp only
      rw [if_neg (by omega), if_neg (by omega), utf8Encode_eq]
    · have hfirst : parseHex4 ([a, b, c, d, 92, 117, a', b', c', d'] ++ rest') =
          .ok (high, 92 :: 117 :: a' :: b' :: c' :: d' :: rest') :=
        parseHex4_eq_ok.mpr ⟨a, b, c, d, rfl, hhigh⟩
      have hsecond : parseHex4 (a' :: b' :: c' :: d' :: rest') = .ok (low, rest') :=
        parseHex4_eq_ok.mpr ⟨a', b', c', d', rfl, hlow⟩
      have hnumber : 0x10000 + (high - 0xD800) <<< 10 + (low - 0xDC00) = ch.toNat := by
        rw [Nat.shiftLeft_eq]
        omega
      unfold parseUnicode
      rw [hfirst]
      dsimp only
      rw [if_pos ⟨h₁, h₂⟩, List.take_succ_cons, List.take_succ_cons, List.take_zero, if_pos rfl,
        List.drop_succ_cons, List.drop_succ_cons, List.drop_zero, hsecond]
      dsimp only
      rw [if_neg (by omega), hnumber, utf8Encode_eq]

theorem utf8EncodeChar_cons (ch : Char) : ∃ c tail, String.utf8EncodeChar ch = c :: tail := by
  rw [utf8EncodeChar_eq]
  split
  · exact ⟨_, _, rfl⟩
  · split
    · exact ⟨_, _, rfl⟩
    · split <;> exact ⟨_, _, rfl⟩

/-- An ASCII byte at the front of a character is all of it. -/
theorem eq_of_head {ch : Char} {c : Byte} {tail : Text} (hc : c.toNat < 128)
    (h : String.utf8EncodeChar ch = c :: tail) : ch = Char.ofNat c.toNat := by
  have hmem : c ∈ String.utf8EncodeChar ch := h ▸ List.mem_cons_self
  rw [← eq_of_mem_utf8EncodeChar hc hmem, Char.ofNat_toNat]

/-- One turn of the loop takes one character. -/
theorem stringTurn_pushed_iff {rest rest' bytes : Text} : stringTurn rest = .pushed bytes rest' ↔
    ∃ (ch : Char) (s : Text), Spelling ch s ∧ rest = s ++ rest' ∧
      bytes = String.utf8EncodeChar ch := by
  constructor
  · intro h
    cases rest with
    | nil => cases h
    | cons c tail =>
        unfold stringTurn at h
        dsimp only at h
        by_cases hquote : c = 34
        · rw [if_pos hquote] at h
          cases h
        rw [if_neg hquote] at h
        by_cases hslash : c = 92
        · rw [if_pos hslash] at h
          subst hslash
          cases tail with
          | nil => cases h
          | cons e tail =>
              unfold escapeTurn at h
              dsimp only at h
              by_cases hu : e = 117
              · rw [if_pos hu] at h
                subst hu
                cases hparse : parseUnicode tail with
                | error fault =>
                    rw [hparse] at h
                    cases h
                | ok parsed =>
                    obtain ⟨bytes', rest''⟩ := parsed
                    rw [hparse] at h
                    obtain ⟨rfl, rfl⟩ := Turn.pushed.inj h
                    obtain ⟨ch, s, rfl, rfl, hescaped⟩ := parseUnicode_eq_ok.mp hparse
                    refine ⟨ch, 92 :: 117 :: s, ?_, rfl, rfl⟩
                    rcases hescaped with ⟨a, b, c, d, rfl, hnumber⟩ |
                      ⟨a, b, c, d, a', b', c', d', high, low, rfl, hhigh, hlow, h₁, h₂, h₃, h₄,
                        hch⟩
                    · exact .point hnumber
                    · exact .pair hhigh hlow h₁ h₂ h₃ h₄ hch
              · rw [if_neg hu, escapeByte_eq] at h
                cases hshort : shortEscape e with
                | none =>
                    rw [hshort] at h
                    cases h
                | some ch =>
                    rw [hshort] at h
                    obtain ⟨rfl, rfl⟩ := Turn.pushed.inj h
                    refine ⟨ch, [92, e], .short hshort, rfl, ?_⟩
                    rw [utf8EncodeChar_ascii (shortEscape_ascii hshort).1]
        · rw [if_neg hslash] at h
          cases hvalid : utf8ValidSeq (c :: tail) with
          | none =>
              rw [hvalid] at h
              cases h
          | some w =>
              rw [hvalid] at h
              obtain ⟨ch, hch, ⟨t, ht⟩, rfl⟩ := utf8ValidSeq_iff.mp hvalid
              obtain ⟨hbytes, hrest⟩ := Turn.pushed.inj h
              rw [← ht, List.take_left] at hbytes
              rw [← ht, List.drop_left] at hrest
              obtain ⟨c', tail', hencode⟩ := utf8EncodeChar_cons ch
              have hhead : c' = c := by
                rw [hencode] at ht
                exact (List.cons.inj ht).1
              refine ⟨ch, String.utf8EncodeChar ch, .raw ?_ ?_ hch, by rw [← ht, hrest],
                hbytes.symm⟩
              · rintro rfl
                exact hquote (hhead.symm.trans (List.cons.inj hencode).1.symm)
              · rintro rfl
                exact hslash (hhead.symm.trans (List.cons.inj hencode).1.symm)
  · rintro ⟨ch, s, hspelling, rfl, rfl⟩
    cases hspelling with
    | raw hquote hslash hch =>
        obtain ⟨c, tail, hencode⟩ := utf8EncodeChar_cons ch
        have hvalid : utf8ValidSeq (String.utf8EncodeChar ch ++ rest') =
            some (String.utf8EncodeChar ch).length :=
          utf8ValidSeq_iff.mpr ⟨ch, hch, List.prefix_append _ _, rfl⟩
        have h34 : c ≠ 34 := by
          rintro rfl
          exact hquote (eq_of_head (by decide) hencode)
        have h92 : c ≠ 92 := by
          rintro rfl
          exact hslash (eq_of_head (by decide) hencode)
        rw [hencode] at hvalid ⊢
        rw [List.cons_append] at hvalid ⊢
        unfold stringTurn
        dsimp only
        rw [if_neg h34, if_neg h92, hvalid]
        dsimp only
        rw [← List.cons_append, List.take_left, List.drop_left]
    | short hshort =>
        have hascii := shortEscape_ascii hshort
        rw [utf8EncodeChar_ascii hascii.1]
        rename_i e
        show escapeTurn (e :: rest') = _
        unfold escapeTurn
        dsimp only
        rw [if_neg hascii.2, escapeByte_eq, hshort]
        rfl
    | point hnumber =>
        rename_i a b c d
        have hparse : parseUnicode ([a, b, c, d] ++ rest') =
            .ok (String.utf8EncodeChar ch, rest') :=
          parseUnicode_eq_ok.mpr ⟨ch, [a, b, c, d], rfl, rfl, .inl ⟨a, b, c, d, rfl, hnumber⟩⟩
        show escapeTurn (117 :: ([a, b, c, d] ++ rest')) = _
        unfold escapeTurn
        dsimp only
        rw [if_pos rfl, hparse]
    | pair hhigh hlow h₁ h₂ h₃ h₄ hch =>
        rename_i a b c d a' b' c' d' high low
        have hparse : parseUnicode ([a, b, c, d, 92, 117, a', b', c', d'] ++ rest') =
            .ok (String.utf8EncodeChar ch, rest') :=
          parseUnicode_eq_ok.mpr ⟨ch, _, rfl, rfl, .inr ⟨a, b, c, d, a', b', c', d', high, low,
            rfl, hhigh, hlow, h₁, h₂, h₃, h₄, hch⟩⟩
        show escapeTurn (117 :: ([a, b, c, d, 92, 117, a', b', c', d'] ++ rest')) = _
        unfold escapeTurn
        dsimp only
        rw [if_pos rfl, hparse]

theorem escapeTurn_closed {rest rest' : Text} : escapeTurn rest ≠ .closed rest' := by
  intro h
  unfold escapeTurn at h
  split at h
  next => cases h
  next =>
      split at h
      next => split at h <;> cases h
      next => split at h <;> cases h

theorem stringTurn_closed_iff {rest rest' : Text} :
    stringTurn rest = .closed rest' ↔ rest = 34 :: rest' := by
  constructor
  · intro h
    unfold stringTurn at h
    split at h
    next => cases h
    next c tail =>
        split at h
        next hquote => rw [hquote, Turn.closed.inj h]
        next =>
            split at h
            next => exact absurd h escapeTurn_closed
            next => split at h <;> cases h
  · rintro rfl
    rfl

/-! ## Literals -/

theorem stringLoop_sound {fuel : Nat} {b rest t rest' : Text}
    (h : stringLoop fuel b rest = .ok (t, rest')) :
    ∃ v body, Spells v body ∧ rest = body ++ 34 :: rest' ∧ t = b ++ encode v := by
  induction fuel generalizing b rest with
  | zero => cases h
  | succ fuel ih =>
      rw [stringLoop] at h
      cases hturn : stringTurn rest with
      | closed rest'' =>
          rw [hturn] at h
          have heq := Except.ok.inj h
          rw [Prod.mk.injEq] at heq
          refine ⟨[], [], .nil, ?_, ?_⟩
          · rw [stringTurn_closed_iff.mp hturn, heq.2]
            rfl
          · rw [← heq.1]
            exact (List.append_nil b).symm
      | pushed bytes rest'' =>
          rw [hturn] at h
          obtain ⟨ch, s, hspelling, rfl, rfl⟩ := stringTurn_pushed_iff.mp hturn
          obtain ⟨v, body, hspells, rfl, rfl⟩ := ih h
          refine ⟨ch :: v, s ++ body, .cons hspelling hspells, ?_, ?_⟩
          · rw [List.append_assoc]
          · rw [encode_cons, List.append_assoc]
      | failed fault =>
          rw [hturn] at h
          cases h

theorem spelling_length_pos {ch : Char} {s : Text} (h : Spelling ch s) : 0 < s.length := by
  cases h with
  | raw =>
      obtain ⟨c, tail, hencode⟩ := utf8EncodeChar_cons ch
      rw [hencode, List.length_cons]
      omega
  | short => exact Nat.succ_pos _
  | point => exact Nat.succ_pos _
  | pair => exact Nat.succ_pos _

/-- Every character takes a byte, so the fuel lasts as long as the body does. -/
theorem stringLoop_complete {v : List Char} {body : Text} (h : Spells v body) {fuel : Nat}
    (hfuel : body.length < fuel) (b rest : Text) :
    stringLoop fuel b (body ++ 34 :: rest) = .ok (b ++ encode v, rest) := by
  induction h generalizing fuel b with
  | nil =>
      cases fuel with
      | zero => exact absurd hfuel (Nat.not_lt_zero _)
      | succ fuel =>
          rw [stringLoop, List.nil_append, stringTurn_closed_iff.mpr rfl]
          show Except.ok (b, rest) = .ok (b ++ [], rest)
          rw [List.append_nil]
  | cons hspelling hspells ih =>
      rename_i ch v s body
      have hpos := spelling_length_pos hspelling
      rw [List.length_append] at hfuel
      cases fuel with
      | zero => exact absurd hfuel (Nat.not_lt_zero _)
      | succ fuel =>
          have hturn : stringTurn (s ++ body ++ 34 :: rest) =
              .pushed (String.utf8EncodeChar ch) (body ++ 34 :: rest) :=
            stringTurn_pushed_iff.mpr ⟨ch, s, hspelling, List.append_assoc .., rfl⟩
          rw [stringLoop, hturn]
          dsimp only
          rw [ih (by omega), encode_cons, List.append_assoc]

/-- The parser accepts exactly the literals, and decodes them. -/
theorem parseLiteral_eq_ok {rest t rest' : Text} : parseLiteral rest = .ok (t, rest') ↔
    ∃ v literal, Literal v literal ∧ rest = literal ++ rest' ∧ t = encode v := by
  constructor
  · intro h
    unfold parseLiteral at h
    split at h
    next => cases h
    next c tail =>
        split at h
        next hquote =>
            obtain ⟨v, body, hspells, rfl, rfl⟩ := stringLoop_sound h
            refine ⟨v, 34 :: body ++ [34], ⟨body, hspells, rfl⟩, ?_, List.nil_append _⟩
            rw [hquote, List.append_assoc]
            rfl
        next => cases h
  · rintro ⟨v, literal, ⟨body, hspells, rfl⟩, rfl, rfl⟩
    have hloop := @stringLoop_complete _ _ hspells ((body ++ 34 :: rest').length + 1)
      (by rw [List.length_append]; omega) [] rest'
    have hshape : 34 :: body ++ [34] ++ rest' = 34 :: (body ++ 34 :: rest') := by
      rw [List.append_assoc]
      rfl
    rw [hshape]
    unfold parseLiteral
    dsimp only
    rw [if_pos rfl, hloop, List.nil_append]

/-- At a position of the document. -/
theorem parseString_eq_ok {doc t : Text} {pos pos' : Nat} :
    parseString doc pos = .ok (t, pos') ↔
      ∃ v literal, Literal v literal ∧ literal <+: doc.drop pos ∧ t = encode v ∧
        pos' = pos + literal.length := by
  have hend {literal rest : Text} (hpos : literal ≠ []) (h : doc.drop pos = literal ++ rest) :
      doc.length - rest.length = pos + literal.length := by
    have hlength := congrArg List.length h
    have hlt := List.length_pos_iff.mpr hpos
    rw [List.length_drop, List.length_append] at hlength
    omega
  constructor
  · intro h
    unfold parseString at h
    split at h
    next => cases h
    next t' rest hliteral =>
        obtain ⟨v, literal, hv, hrest, rfl⟩ := parseLiteral_eq_ok.mp hliteral
        have heq := Except.ok.inj h
        rw [Prod.mk.injEq] at heq
        refine ⟨v, literal, hv, ⟨rest, hrest.symm⟩, heq.1.symm, ?_⟩
        rw [← heq.2, hend (by obtain ⟨body, -, rfl⟩ := hv; exact List.cons_ne_nil _ _) hrest]
  · rintro ⟨v, literal, hv, ⟨rest, hrest⟩, rfl, rfl⟩
    unfold parseString
    rw [parseLiteral_eq_ok.mpr ⟨v, literal, hv, hrest.symm, rfl⟩]
    dsimp only
    rw [hend (by obtain ⟨body, -, rfl⟩ := hv; exact List.cons_ne_nil _ _) hrest.symm]

/-- What the callers see of the bytes: those before the first terminator. -/
def cString (t : Text) : Text := t.takeWhile (· != 0)

theorem zero_notMem_encode {v : List Char} (h : Char.ofNat 0 ∉ v) : (0 : Byte) ∉ encode v := by
  intro hmem
  obtain ⟨ch, hch, hzero⟩ := List.mem_flatMap.mp hmem
  have hnumber : ch.toNat = 0 := eq_of_mem_utf8EncodeChar (by decide) hzero
  have hchar : Char.ofNat 0 = ch := by rw [← hnumber, Char.ofNat_toNat]
  rw [hchar] at h
  exact h hch

theorem cString_encode {v : List Char} (h : Char.ofNat 0 ∉ v) : cString (encode v) = encode v := by
  unfold cString
  rw [List.takeWhile_eq_self_iff]
  intro b hb
  rw [bne_iff_ne]
  rintro rfl
  exact zero_notMem_encode h hb

/-! ## Decoding is exact -/

/-- A string is parsed exactly where a literal starts, that literal is consumed, and its value
without U+0000 is what is returned; so every way to write a value is read back as it. -/
theorem string_literals_decode :
    (∀ (doc : Text) (pos : Nat), (∃ t pos', parseString doc pos = .ok (t, pos')) ↔
      ∃ v literal, Literal v literal ∧ literal <+: doc.drop pos) ∧
    (∀ (doc : Text) (pos : Nat) (v : List Char) (literal : Text), Literal v literal →
      literal <+: doc.drop pos → ∃ t, parseString doc pos = .ok (t, pos + literal.length) ∧
        (Char.ofNat 0 ∉ v → cString t = encode v)) ∧
    ∀ (v : List Char) (literal : Text), Literal v literal → Char.ofNat 0 ∉ v →
      ∃ t, parseString literal 0 = .ok (t, literal.length) ∧ cString t = encode v := by
  have hexact (doc : Text) (pos : Nat) (v : List Char) (literal : Text) (hv : Literal v literal)
      (hat : literal <+: doc.drop pos) :
      parseString doc pos = .ok (encode v, pos + literal.length) :=
    parseString_eq_ok.mpr ⟨v, literal, hv, hat, rfl, rfl⟩
  refine ⟨fun doc pos => ⟨?_, ?_⟩, fun doc pos v literal hv hat => ?_,
    fun v literal hv hzero => ?_⟩
  · rintro ⟨t, pos', h⟩
    obtain ⟨v, literal, hv, hat, -⟩ := parseString_eq_ok.mp h
    exact ⟨v, literal, hv, hat⟩
  · rintro ⟨v, literal, hv, hat⟩
    exact ⟨_, _, hexact doc pos v literal hv hat⟩
  · exact ⟨_, hexact doc pos v literal hv hat, cString_encode⟩
  · have hparse := hexact literal 0 v literal hv (List.prefix_refl _)
    rw [Nat.zero_add] at hparse
    exact ⟨_, hparse, cString_encode hzero⟩

/-- An escaped and a raw `é`, a surrogate pair and a short escape behind another byte; an overlong
form of U+0000 is no literal. -/
theorem string_literals_decode_sample :
    parseString [123, 34, 92, 117, 48, 48, 69, 57, 195, 169, 92, 117, 68, 56, 51, 68, 92, 117, 68,
        69, 48, 48, 92, 110, 34, 125] 1 =
      .ok ([195, 169, 195, 169, 240, 159, 152, 128, 10], 25) ∧
    ¬ ∃ v literal, Literal v literal ∧ literal <+: [34, 192, 128, 34] :=
  ⟨by decide +kernel, fun h => by
    obtain ⟨t, pos', hparse⟩ := (string_literals_decode.1 [34, 192, 128, 34] 0).mpr h
    cases hparse⟩

end Recursant.Document
