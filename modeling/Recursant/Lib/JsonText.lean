import Recursant.Lib.JsonString

/-!
# JSON texts

The grammar of RFC 8259 over bytes.  How deep values nest is an index, so that the relation goes by
recursion on it; which numbers there are, and which keys one object may have, are parameters.
-/

namespace JsonText

open JsonString

inductive Word where
  | yes
  | no
  | null
  deriving DecidableEq

/-- What a text says.  Of the numbers there are only the integers. -/
inductive Value where
  | string (v : List Char)
  | number (n : Int)
  | word (w : Word)
  | array (items : List Value)
  | object (members : List (List Char × Value))

/-- `true`, `false` and `null`. -/
def Word.bytes : Word → List UInt8
  | yes => [116, 114, 117, 101]
  | no => [102, 97, 108, 115, 101]
  | null => [110, 117, 108, 108]

def isSpace (c : UInt8) : Bool := c = 32 || c = 9 || c = 10 || c = 13

def Space (t : List UInt8) : Prop := ∀ c ∈ t, isSpace c = true

theorem Space.nil : Space [] := nofun

theorem Space.append {s s' : List UInt8} (h : Space s) (h' : Space s') : Space (s ++ s') := by
  intro c hc
  cases List.mem_append.mp hc with
  | inl hc => exact h c hc
  | inr hc => exact h' c hc

/-- One element or more, with commas between them and space around each. -/
inductive Elements {α : Type*} (E : α → List UInt8 → Prop) : List α → List UInt8 → Prop where
  | one {a : α} {s t s' : List UInt8} : Space s → E a t → Space s' → Elements E [a] (s ++ t ++ s')
  | more {a : α} {as : List α} {s t s' rest : List UInt8} : Space s → E a t → Space s' →
      Elements E as rest → Elements E (a :: as) (s ++ t ++ s' ++ 44 :: rest)

theorem Elements.space {α : Type*} {E : α → List UInt8 → Prop} {as : List α} {w t : List UInt8}
    (hw : Space w) (h : Elements E as t) : Elements E as (w ++ t) := by
  cases h with
  | one hs ha hs' =>
      rw [← List.append_assoc, ← List.append_assoc]
      exact .one (hw.append hs) ha hs'
  | more hs ha hs' hrest =>
      rw [← List.append_assoc, ← List.append_assoc, ← List.append_assoc]
      exact .more (hw.append hs) ha hs' hrest

theorem Elements.mem {α : Type*} {E : α → List UInt8 → Prop} {as : List α} {t : List UInt8}
    (h : Elements E as t) : ∀ a ∈ as, ∃ t', E a t' := by
  induction h with
  | one _ ha _ =>
      intro a hmem
      rw [List.mem_singleton.mp hmem]
      exact ⟨_, ha⟩
  | more _ ha _ _ ih =>
      rw [List.forall_mem_cons]
      exact ⟨⟨_, ha⟩, ih⟩

/-- A key and the value behind its colon. -/
inductive Member (J : Value → List UInt8 → Prop) : List Char × Value → List UInt8 → Prop where
  | mk {k : List Char} {v : Value} {l s s' t : List UInt8} : Literal k l → Space s → Space s' →
      J v t → Member J (k, v) (l ++ s ++ 58 :: (s' ++ t))

/-- The values without parts. -/
inductive Scalar (Number : Int → List UInt8 → Prop) : Value → List UInt8 → Prop where
  | string {v : List Char} {t : List UInt8} : Literal v t → Scalar Number (.string v) t
  | number {n : Int} {t : List UInt8} : Number n t → Scalar Number (.number n) t
  | word (w : Word) : Scalar Number (.word w) w.bytes

/-- The values with parts in `J`. -/
inductive Container (Keys : List (List Char) → Prop) (J : Value → List UInt8 → Prop) :
    Value → List UInt8 → Prop where
  | emptyArray {s : List UInt8} : Space s → Container Keys J (.array []) (91 :: (s ++ [93]))
  | array {items : List Value} {t : List UInt8} : Elements J items t →
      Container Keys J (.array items) (91 :: (t ++ [93]))
  | emptyObject {s : List UInt8} : Space s → Container Keys J (.object []) (123 :: (s ++ [125]))
  | object {members : List (List Char × Value)} {t : List UInt8} :
      Elements (Member J) members t → Keys (members.map Prod.fst) →
      Container Keys J (.object members) (123 :: (t ++ [125]))

/-- The texts of a value that nests at most so deep. -/
def Nested (Number : Int → List UInt8 → Prop) (Keys : List (List Char) → Prop) :
    Nat → Value → List UInt8 → Prop
  | 0, v, t => Scalar Number v t
  | depth + 1, v, t => Scalar Number v t ∨ Container Keys (Nested Number Keys depth) v t

/-- A whole text, with space around the value. -/
def Document (Number : Int → List UInt8 → Prop) (Keys : List (List Char) → Prop) (depth : Nat)
    (v : Value) (doc : List UInt8) : Prop :=
  ∃ s t s', Space s ∧ Nested Number Keys depth v t ∧ Space s' ∧ doc = s ++ t ++ s'

end JsonText
