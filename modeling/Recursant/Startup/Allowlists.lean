import Recursant.Compliance.Gate
import Recursant.Context.ResponseObserver
import Recursant.Gateway.Request
import Recursant.Startup.Sections

/-!
# Allowed keys

The five checks of an object's keys against a text `|name||name|`.  They differ in their guards: the
room of the local buffer, the names that may stand with a null, and the empty key, which `section`
does not exclude.
-/

namespace Recursant.Startup

/-- The names of a list, each of which fits the buffer with its two bars. -/
structure Allowlist (room : Nat) where
  names : List Text
  fits : ∀ x ∈ names, x ≠ [] ∧ (124 : Byte) ∉ x ∧ x.length ≤ room

/-- The text that the source writes. -/
def Allowlist.render {room : Nat} (l : Allowlist room) : Text := Delimited.render 124 l.names

inductive Checker where
  | gatewayKeys
  | nullableKeys
  | knownKeys
  | observerKeys
  | sectionKeys
  deriving DecidableEq

namespace Checker

/-- The longest key that the buffer holds. -/
def room : Checker → Nat
  | .knownKeys => Recursant.maxKey
  | _ => Gateway.maxKey

/-- The checkers with a second list. -/
def takesNull : Checker → Bool
  | .nullableKeys | .observerKeys => true
  | .gatewayKeys | .knownKeys | .sectionKeys => false

/-- The check of a whole object. -/
def admits (c : Checker) (ordinary nullable : Text) (o : Json) : Bool :=
  match c with
  | .gatewayKeys => Gateway.keys o ordinary
  | .nullableKeys => Gateway.nullableKeys o ordinary nullable
  | .knownKeys => Recursant.knownKeys o ordinary
  | .observerKeys => ResponseObserver.keys ordinary nullable o
  | .sectionKeys => (checkSection o ordinary "section").isOk

/-- A key passes with its value. -/
def passes (c : Checker) (ordinary nullable key : Text) (v : Json) : Bool :=
  c.admits ordinary nullable (.object [(key, v)])

end Checker

/-! ## Objects and keys -/

theorem checkSection_isOk {o : Json} {allowed name : Text} :
    (checkSection o allowed name).isOk = true ↔ ∃ members, o = .object members ∧
      ∀ k ∈ members.map Prod.fst, unknownKey allowed k = false := by
  rw [← checkSection_eq_ok (u := ())]
  cases checkSection o allowed name with
  | ok u => exact iff_of_true rfl rfl
  | error reason => exact iff_of_false nofun nofun

/-- Objects pass when all of their members do, and nothing else passes. -/
theorem admits_iff (c : Checker) (ordinary nullable : Text) (o : Json) :
    c.admits ordinary nullable o = true ↔ ∃ members, o = .object members ∧
      ∀ m ∈ members, c.passes ordinary nullable m.1 m.2 = true := by
  have hsections (members : List (Text × Json)) :
      (checkSection (.object members) ordinary "section").isOk = true ↔
        ∀ m ∈ members, unknownKey ordinary m.1 = false := by
    rw [checkSection_isOk]
    constructor
    · rintro ⟨_, ⟨⟩, h⟩ m hm
      exact h m.1 (List.mem_map_of_mem hm)
    · intro h
      refine ⟨members, rfl, fun k hk => ?_⟩
      obtain ⟨m, hm, rfl⟩ := List.mem_map.mp hk
      exact h m hm
  cases o with
  | object members =>
      have hmembers : c.admits ordinary nullable (.object members) = true ↔
          ∀ m ∈ members, c.passes ordinary nullable m.1 m.2 = true := by
        unfold Checker.passes Checker.admits
        cases c with
        | sectionKeys =>
            dsimp only
            simp only [hsections, List.forall_mem_singleton]
        | gatewayKeys =>
            simp only [Gateway.keys, List.all_eq_true, List.forall_mem_singleton]
        | nullableKeys =>
            simp only [Gateway.nullableKeys, List.all_eq_true, List.forall_mem_singleton]
        | knownKeys =>
            simp only [Recursant.knownKeys, List.all_eq_true, List.forall_mem_singleton]
        | observerKeys =>
            simp only [ResponseObserver.keys, List.all_eq_true, List.forall_mem_singleton]
      rw [hmembers]
      constructor
      · exact fun h => ⟨members, rfl, h⟩
      · rintro ⟨_, ⟨⟩, h⟩
        exact h
  | null | bool | integer | real | string | array =>
      refine iff_of_false ?_ (by rintro ⟨_, ⟨⟩, -⟩)
      cases c <;> exact Bool.false_ne_true

/-! ## One key -/

section

variable {room : Nat} {key : Text}

theorem contains_bar : key.contains 124 = false ↔ (124 : Byte) ∉ key := by
  rw [← Bool.not_eq_true, List.contains_iff_mem]

theorem hasText_token (l : Allowlist room) (hnil : key ≠ []) (hbar : (124 : Byte) ∉ key) :
    hasText (Delimited.token 124 key) l.render = true ↔ key ∈ l.names := by
  rw [hasText_iff]
  exact Delimited.token_infix_iff hbar hnil fun x hx => (l.fits x hx).2.1

/-- With all three guards the search is exact. -/
theorem guarded_iff (l : Allowlist room) :
    (key ≠ [] ∧ (124 : Byte) ∉ key ∧ key.length ≤ room) ∧
      hasText (Delimited.token 124 key) l.render = true ↔ key ∈ l.names := by
  constructor
  · rintro ⟨⟨hnil, hbar, -⟩, h⟩
    exact (hasText_token l hnil hbar).mp h
  · intro h
    obtain ⟨hnil, hbar, hlength⟩ := l.fits key h
    exact ⟨⟨hnil, hbar, hlength⟩, (hasText_token l hnil hbar).mpr h⟩

/-- The same of two lists. -/
theorem guarded_or_iff (ordinary nullable : Allowlist room) {R : Prop} :
    (key ≠ [] ∧ (124 : Byte) ∉ key ∧ key.length ≤ room) ∧
      (hasText (Delimited.token 124 key) ordinary.render = true ∨
        hasText (Delimited.token 124 key) nullable.render = true ∧ R) ↔
      key ∈ ordinary.names ∨ key ∈ nullable.names ∧ R := by
  rw [and_or_left, guarded_iff, ← and_assoc, guarded_iff]

/-- The empty key is searched as two bars, which stand between any two names. -/
theorem hasText_bars (l : Allowlist room) :
    hasText (Delimited.token 124 []) l.render = true ↔ 2 ≤ l.names.length := by
  rw [hasText_iff]
  exact Delimited.bars_infix_iff fun x hx => ⟨(l.fits x hx).1, (l.fits x hx).2.1⟩

/-- `section` has no guard against the empty key. -/
theorem knownKey_iff (l : Allowlist Gateway.maxKey) : unknownKey l.render key = false ↔
    key ∈ l.names ∨ key = [] ∧ 2 ≤ l.names.length := by
  unfold unknownKey
  rw [Bool.or_eq_false_iff, Bool.or_eq_false_iff, contains_bar, decide_eq_false_iff_not,
    Bool.not_eq_false', Nat.not_le, Nat.lt_succ_iff, ← guarded_iff l]
  by_cases hnil : key = []
  · subst hnil
    rw [hasText_bars]
    simp
  · simp only [hnil, false_and, or_false, ne_eq, not_false_eq_true, true_and]
    rfl

end

/-- The key is in the list of the checker, or in its second list with a null. -/
def Listed (c : Checker) (ordinary nullable : Allowlist c.room) (key : Text) (v : Json) : Prop :=
  key ∈ ordinary.names ∨ key ∈ nullable.names ∧ c.takesNull = true ∧ v = .null

theorem passes_iff (c : Checker) (ordinary nullable : Allowlist c.room) (key : Text) (v : Json) :
    c.passes ordinary.render nullable.render key v = true ↔ Listed c ordinary nullable key v ∨
      c = .sectionKeys ∧ key = [] ∧ 2 ≤ ordinary.names.length := by
  unfold Checker.passes Checker.admits Listed
  cases c with
  | gatewayKeys =>
      have h := @guarded_iff _ key ordinary
      simp only [Gateway.keys, List.all_cons, List.all_nil, Bool.and_true, Bool.and_eq_true,
        decide_eq_true_eq, Bool.not_eq_true', contains_bar, Checker.takesNull]
      rw [← h]
      simp [Checker.room, and_assoc]
  | knownKeys =>
      have h := @guarded_iff _ key ordinary
      simp only [Recursant.knownKeys, List.all_cons, List.all_nil, Bool.and_true, Bool.and_eq_true,
        decide_eq_true_eq, Bool.not_eq_true', contains_bar, Checker.takesNull]
      rw [← h]
      simp [Checker.room, and_assoc]
  | nullableKeys =>
      have h := @guarded_or_iff _ key ordinary nullable (v = .null)
      simp only [Gateway.nullableKeys, List.all_cons, List.all_nil, Bool.and_true, Bool.and_eq_true,
        Bool.or_eq_true, decide_eq_true_eq, Bool.not_eq_true', contains_bar, Checker.takesNull]
      simp [← h, Checker.room, and_assoc]
  | observerKeys =>
      have h := @guarded_or_iff _ key ordinary nullable (v = .null)
      have hroom : key.length + 2 < 128 ↔ key.length ≤ Gateway.maxKey := by
        unfold Gateway.maxKey
        omega
      simp only [ResponseObserver.keys, List.all_cons, List.all_nil, Bool.and_true,
        Bool.and_eq_true, Bool.or_eq_true, decide_eq_true_eq, Bool.not_eq_true', contains_bar,
        hroom, Checker.takesNull]
      simp [← h, Checker.room, and_assoc]
  | sectionKeys =>
      rw [checkSection_isOk]
      simp only [Checker.takesNull, Bool.false_eq_true, false_and, and_false, or_false, true_and]
      rw [← knownKey_iff ordinary]
      constructor
      · rintro ⟨_, ⟨⟩, h⟩
        exact h key (List.mem_singleton_self key)
      · intro h
        exact ⟨_, rfl, fun k hk => List.mem_singleton.mp hk ▸ h⟩

/-- The checker lets exactly the listed names pass, at least for this key. -/
def Exact (c : Checker) (ordinary nullable : Allowlist c.room) (key : Text) : Prop :=
  ∀ v, c.passes ordinary.render nullable.render key v = true ↔ Listed c ordinary nullable key v

/-- All five are exact on all keys, but for the empty key of a section with two names or more. -/
theorem passes_exact_iff (c : Checker) (ordinary nullable : Allowlist c.room) (key : Text) :
    Exact c ordinary nullable key ↔
      ¬ (c = .sectionKeys ∧ key = [] ∧ 2 ≤ ordinary.names.length) := by
  unfold Exact
  simp only [passes_iff]
  constructor
  · rintro h ⟨rfl, rfl, hlength⟩
    cases (h .null).mp (.inr ⟨rfl, rfl, hlength⟩) with
    | inl hin => exact (ordinary.fits [] hin).1 rfl
    | inr hin => exact (nullable.fits [] hin.1).1 rfl
  · intro hnot v
    exact or_iff_left hnot

def listenNames : Allowlist Gateway.maxKey := ⟨[text "host", text "port"], by decide⟩

/-- A `listen` section with an empty key. -/
theorem section_passes_empty : ¬ Exact .sectionKeys listenNames ⟨[], nofun⟩ [] := by
  intro h
  have hlisted := (h .null).mp (by decide +kernel)
  cases hlisted with
  | inl hin => exact absurd hin (by decide)
  | inr hin => cases hin.1

end Recursant.Startup
