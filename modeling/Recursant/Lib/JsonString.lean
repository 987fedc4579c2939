import Mathlib.Data.List.Basic
import Mathlib.Tactic

/-!
# JSON string literals

The strings of RFC 8259 as bytes: every character is spelled either raw, by a short escape, by one
`\u` escape, or by two that form a surrogate pair.  One value has many spellings; a literal has one
value.
-/

namespace JsonString

/-! ## Syntax -/

/-- The UTF-8 encoding of some characters. -/
def encode (v : List Char) : List UInt8 := v.flatMap String.utf8EncodeChar

def hexDigit (c : UInt8) : Option Nat :=
  if 48 ≤ c && c ≤ 57 then some (c.toNat - 48)
  else if 97 ≤ c && c ≤ 102 then some (c.toNat - 87)
  else if 65 ≤ c && c ≤ 70 then some (c.toNat - 55)
  else none

/-- The number of four hexadecimal digits. -/
def hexNumber (a b c d : UInt8) : Option Nat :=
  match hexDigit a, hexDigit b, hexDigit c, hexDigit d with
  | some a, some b, some c, some d => some (((a * 16 + b) * 16 + c) * 16 + d)
  | _, _, _, _ => none

/-- The character of a short escape. -/
def shortEscape (e : UInt8) : Option Char :=
  if e = 34 then some '"' else if e = 92 then some '\\' else if e = 47 then some '/'
  else if e = 98 then some (Char.ofNat 8) else if e = 102 then some (Char.ofNat 12)
  else if e = 110 then some (Char.ofNat 10) else if e = 114 then some (Char.ofNat 13)
  else if e = 116 then some (Char.ofNat 9) else none

/-- The ways to write one character between the quotes. -/
inductive Spelling : Char → List UInt8 → Prop where
  | raw {c : Char} : c ≠ '"' → c ≠ '\\' → 0x20 ≤ c.toNat → Spelling c (String.utf8EncodeChar c)
  | short {c : Char} {e : UInt8} : shortEscape e = some c → Spelling c [92, e]
  | point {c : Char} {h₁ h₂ h₃ h₄ : UInt8} : hexNumber h₁ h₂ h₃ h₄ = some c.toNat →
      Spelling c [92, 117, h₁, h₂, h₃, h₄]
  | pair {c : Char} {h₁ h₂ h₃ h₄ l₁ l₂ l₃ l₄ : UInt8} {high low : Nat} :
      hexNumber h₁ h₂ h₃ h₄ = some high → hexNumber l₁ l₂ l₃ l₄ = some low →
      0xD800 ≤ high → high ≤ 0xDBFF → 0xDC00 ≤ low → low ≤ 0xDFFF →
      c.toNat = 0x10000 + (high - 0xD800) * 0x400 + (low - 0xDC00) →
      Spelling c [92, 117, h₁, h₂, h₃, h₄, 92, 117, l₁, l₂, l₃, l₄]

/-- The ways to write some characters between the quotes. -/
inductive Spells : List Char → List UInt8 → Prop where
  | nil : Spells [] []
  | cons {c : Char} {v : List Char} {s body : List UInt8} :
      Spelling c s → Spells v body → Spells (c :: v) (s ++ body)

/-- A string literal with its value. -/
def Literal (v : List Char) (bytes : List UInt8) : Prop :=
  ∃ body, Spells v body ∧ bytes = 34 :: body ++ [34]

/-! ## Digits -/

theorem hexDigit_lt {c : UInt8} {n : Nat} (h : hexDigit c = some n) : n < 16 := by
  unfold hexDigit at h
  simp only [Bool.and_eq_true, decide_eq_true_eq, UInt8.le_iff_toNat_le] at h
  split at h
  next hc =>
    obtain rfl := Option.some.inj h
    have := hc.2
    simp at this
    omega
  next =>
    split at h
    next hc =>
      obtain rfl := Option.some.inj h
      have := hc.2
      simp at this
      omega
    next =>
      split at h
      next hc =>
        obtain rfl := Option.some.inj h
        have := hc.2
        simp at this
        omega
      next => cases h

theorem hexNumber_eq_some {a b c d : UInt8} {n : Nat} (h : hexNumber a b c d = some n) :
    ∃ w x y z, hexDigit a = some w ∧ hexDigit b = some x ∧ hexDigit c = some y ∧
      hexDigit d = some z ∧ n = ((w * 16 + x) * 16 + y) * 16 + z := by
  unfold hexNumber at h
  split at h
  next w x y z hw hx hy hz => exact ⟨w, x, y, z, hw, hx, hy, hz, (Option.some.inj h).symm⟩
  next => cases h

theorem hexNumber_lt {a b c d : UInt8} {n : Nat} (h : hexNumber a b c d = some n) :
    n < 0x10000 := by
  obtain ⟨w, x, y, z, hw, hx, hy, hz, rfl⟩ := hexNumber_eq_some h
  have := hexDigit_lt hw
  have := hexDigit_lt hx
  have := hexDigit_lt hy
  have := hexDigit_lt hz
  omega

/-! ## Encoded characters -/

theorem encode_cons (c : Char) (v : List Char) :
    encode (c :: v) = String.utf8EncodeChar c ++ encode v := rfl

theorem toNat_lt (c : Char) : c.toNat < 0x110000 := by
  have h := c.valid
  simp only [UInt32.isValidChar, Nat.isValidChar] at h
  unfold Char.toNat
  omega

/-- The bytes of a character by its range. -/
theorem utf8EncodeChar_eq (c : Char) : String.utf8EncodeChar c =
    if c.toNat < 0x80 then [UInt8.ofNat c.toNat]
    else if c.toNat < 0x800 then
      [UInt8.ofNat (c.toNat / 64 + 0xC0), UInt8.ofNat (c.toNat % 64 + 0x80)]
    else if c.toNat < 0x10000 then
      [UInt8.ofNat (c.toNat / 4096 + 0xE0), UInt8.ofNat (c.toNat / 64 % 64 + 0x80),
        UInt8.ofNat (c.toNat % 64 + 0x80)]
    else
      [UInt8.ofNat (c.toNat / 262144 + 0xF0), UInt8.ofNat (c.toNat / 4096 % 64 + 0x80),
        UInt8.ofNat (c.toNat / 64 % 64 + 0x80), UInt8.ofNat (c.toNat % 64 + 0x80)] := by
  have hlt := toNat_lt c
  unfold String.utf8EncodeChar
  unfold Char.toNat at hlt ⊢
  dsimp only
  by_cases h₁ : c.val.toNat < 0x80
  · rw [if_pos (by omega), if_pos h₁]
  rw [if_neg (by omega), if_neg h₁]
  by_cases h₂ : c.val.toNat < 0x800
  · rw [if_pos (by omega), if_pos h₂, Nat.mod_eq_of_lt (b := 32) (by omega)]
  rw [if_neg (by omega), if_neg h₂]
  by_cases h₃ : c.val.toNat < 0x10000
  · rw [if_pos (by omega), if_pos h₃, Nat.mod_eq_of_lt (b := 16) (by omega)]
  rw [if_neg (by omega), if_neg h₃, Nat.mod_eq_of_lt (b := 8) (by omega)]

/-- A byte below 128 only encodes the character of its number. -/
theorem eq_of_mem_utf8EncodeChar {c : Char} {b : UInt8} (hb : b.toNat < 128)
    (h : b ∈ String.utf8EncodeChar c) : c.toNat = b.toNat := by
  have hlt := toNat_lt c
  rw [utf8EncodeChar_eq] at h
  split at h
  next hsmall =>
    rw [List.mem_singleton] at h
    rw [h, UInt8.toNat_ofNat']
    omega
  next =>
    exfalso
    have hhigh : ∀ n, 128 ≤ n → n < 256 → b ≠ UInt8.ofNat n := by
      rintro n hn hn' rfl
      rw [UInt8.toNat_ofNat'] at hb
      omega
    split at h
    next =>
      simp only [List.mem_cons, List.not_mem_nil, or_false] at h
      rcases h with h | h
      · exact hhigh _ (by omega) (by omega) h
      · exact hhigh _ (by omega) (by omega) h
    next =>
      split at h
      next =>
        simp only [List.mem_cons, List.not_mem_nil, or_false] at h
        rcases h with h | h | h
        · exact hhigh _ (by omega) (by omega) h
        · exact hhigh _ (by omega) (by omega) h
        · exact hhigh _ (by omega) (by omega) h
      next =>
        simp only [List.mem_cons, List.not_mem_nil, or_false] at h
        rcases h with h | h | h | h
        · exact hhigh _ (by omega) (by omega) h
        · exact hhigh _ (by omega) (by omega) h
        · exact hhigh _ (by omega) (by omega) h
        · exact hhigh _ (by omega) (by omega) h

end JsonString
