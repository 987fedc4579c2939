import Mathlib.Data.List.Infix
import Mathlib.Tactic

/-!
# C strings

Texts are byte strings without their terminating NUL; the rules, budgets and tokens of the router
are all stated over bytes.
-/

namespace Recursant

abbrev Byte := UInt8

abbrev Text := List Byte

/-- An ASCII literal of the source. -/
def text (s : String) : Text := s.toList.map fun c => c.toNat.toUInt8

instance : Coe String Text := ⟨text⟩

def uint64Max : Nat := 2 ^ 64 - 1

/-- `isspace` of the C locale. -/
def isspace (c : Byte) : Bool := (9 ≤ c && c ≤ 13) || c == 32

/-- `isdigit` -/
def isdigit (c : Byte) : Bool := 48 ≤ c && c ≤ 57

/-- The byte is printable and not blank: 33 to 126. -/
def isgraph (c : Byte) : Bool := 33 ≤ c && c ≤ 126

def tolower (c : Byte) : Byte := if 65 ≤ c && c ≤ 90 then c + 32 else c

/-- `!strcasecmp(a, b)`. -/
def caseEq (a b : Text) : Bool := a.map tolower == b.map tolower

/-- The haystack from the first occurrence of the needle on. -/
def strstr (needle : Text) : Text → Option Text
  | [] => if needle = [] then some [] else none
  | c :: cs => if needle.isPrefixOf (c :: cs) then some (c :: cs) else strstr needle cs

def hasText (needle hay : Text) : Bool := (strstr needle hay).isSome

theorem hasText_iff (needle hay : Text) : hasText needle hay = true ↔ needle <:+: hay := by
  unfold hasText
  induction hay with
  | nil =>
      rw [strstr]
      split
      next h => simp [h]
      next h => simp [h]
  | cons c cs ih =>
      rw [strstr, List.infix_cons_iff, ← List.isPrefixOf_iff_prefix]
      split
      next h => simp [h]
      next h => simp [h, ih]

end Recursant
