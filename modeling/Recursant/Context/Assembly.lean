import Mathlib.Algebra.BigOperators.Fin
import Mathlib.Data.Fintype.BigOperators
import Recursant.Context.StreamTools

/-!
# Assembly of streamed calls

A series of arrays is a list of deltas, each of one index.  What is assembled at an index is the
concatenation of the fragments sent for it: how the deltas of different indices interleave, how
they are grouped into arrays and where the fragments are cut does not matter.
-/

namespace Recursant.StreamTools

/-! ## Deltas -/

/-- What one entry says about the call at its index. -/
structure Delta where
  index : Nat
  id : Option Text := none
  type : Bool := false
  name : Option Text := none
  arguments : Option Text := none

def readDelta (entry : Json) : Delta where
  index := (indexOf entry).getD 0
  id := (entry.get? "id").bind Json.text?
  type := (entry.get? "type").isSome
  name := ((entry.get? "function").bind (·.get? "name")).bind Json.text?
  arguments := ((entry.get? "function").bind (·.get? "arguments")).bind Json.text?

/-- All deltas of a series of arrays. -/
def deltas (arrays : List Json) : List Delta := arrays.flatMap fun a => a.elements.map readDelta

/-- The wire form of a delta: known members only, at least one beside the index. -/
structure Formed (entry : Json) : Prop where
  known : knownFields callKeys entry = true
  more : 2 ≤ objectSize entry
  index : (indexOf entry).isSome = true
  id : (entry.get? "id").all Json.isString = true
  type : (entry.get? "type").all (· = .string "function") = true
  function : (entry.get? "function").all (knownFields functionKeys) = true
  name : ((entry.get? "function").bind (·.get? "name")).all Json.isString = true
  arguments : ((entry.get? "function").bind (·.get? "arguments")).all Json.isString = true

instance (entry : Json) : Decidable (Formed entry) :=
  decidable_of_iff ((knownFields callKeys entry = true ∧ 2 ≤ objectSize entry ∧
      (indexOf entry).isSome = true) ∧ (entry.get? "id").all Json.isString = true ∧
      (entry.get? "type").all (· = .string "function") = true ∧
      (entry.get? "function").all (knownFields functionKeys) = true ∧
      ((entry.get? "function").bind (·.get? "name")).all Json.isString = true ∧
      ((entry.get? "function").bind (·.get? "arguments")).all Json.isString = true)
    ⟨fun h => ⟨h.1.1, h.1.2.1, h.1.2.2, h.2.1, h.2.2.1, h.2.2.2.1, h.2.2.2.2.1, h.2.2.2.2.2⟩,
      fun h => ⟨⟨h.known, h.more, h.index⟩, h.id, h.type, h.function, h.name, h.arguments⟩⟩

/-! ## Concatenations -/

/-- The deltas for one index. -/
def own (k : Nat) (ds : List Delta) : List Delta := ds.filter (·.index = k)

/-- The fragments in one piece. -/
def joined (fragments : List Text) : Option Text :=
  if fragments = [] then none else some fragments.flatten

/-- What a list of deltas says about the call at an index. -/
def gather (k : Nat) (ds : List Delta) : Call where
  id := ((own k ds).filterMap (·.id)).head?
  name := joined ((own k ds).filterMap (·.name))
  arguments := joined ((own k ds).filterMap (·.arguments))
  present := own k ds ≠ []
  type := (own k ds).any (·.type)

/-! ## One delta -/

/-- A fragment after those that were there. -/
def extend (old fragment : Option Text) : Option Text :=
  match fragment with
  | none => old
  | some f => some (old.getD [] ++ f)

def merge (c : Call) (d : Delta) : Call where
  id := c.id.or d.id
  name := extend c.name d.name
  arguments := extend c.arguments d.arguments
  present := true
  type := c.type || d.type

def lengthOf (t : Option Text) : Nat := (t.map List.length).getD 0

/-- The bytes of a call that are counted. -/
def weight (c : Call) : Nat :=
  lengthOf c.id + (if c.type then 8 else 0) + lengthOf c.name + lengthOf c.arguments

/-- The id as the code compares it with the one it has. -/
def IdFits (old new : Option Text) : Prop :=
  ∀ x, new = some x → x ≠ [] ∧ (0 : Byte) ∉ x ∧ x.length ≤ maxIdBytes ∧
    (∀ y, old = some y → y = x) ∧ (old = none → utf8 x = true)

/-- What an id adds. -/
def idCost (old new : Option Text) : Nat := if old.isSome then 0 else lengthOf new

/-- What a type adds. -/
def typeCost (old new : Bool) : Nat := if new && !old then 8 else 0

/-- What a delta adds. -/
def cost (c : Call) (d : Delta) : Nat :=
  idCost c.id d.id + typeCost c.type d.type + lengthOf d.name + lengthOf d.arguments

structure Fits (s : Tools) (d : Delta) : Prop where
  id : IdFits (s.calls d.index).id d.id
  name : ∀ x, d.name = some x → (0 : Byte) ∉ x ∧ utf8 x = true
  arguments : ∀ x, d.arguments = some x → utf8 x = true
  budget : s.bytes + cost (s.calls d.index) d ≤ maxBytes

def absorb (s : Tools) (d : Delta) : Tools :=
  { s with
    calls := Function.update s.calls d.index (merge (s.calls d.index) d)
    count := max s.count (d.index + 1)
    bytes := s.bytes + cost (s.calls d.index) d }

theorem lengthOf_extend (old new : Option Text) :
    lengthOf (extend old new) = lengthOf old + lengthOf new := by
  cases new with
  | none => rfl
  | some f =>
      cases old with
      | none => simp [extend, lengthOf]
      | some t => simp [extend, lengthOf]

theorem lengthOf_or (old new : Option Text) :
    lengthOf (old.or new) = lengthOf old + idCost old new := by
  cases old with
  | none => simp [lengthOf, idCost]
  | some t => simp [idCost]

theorem weight_merge (c : Call) (d : Delta) : weight (merge c d) = weight c + cost c d := by
  have htype : (if (c.type || d.type) = true then 8 else 0) =
      (if c.type = true then 8 else 0) + typeCost c.type d.type := by
    unfold typeCost
    cases c.type <;> cases d.type <;> rfl
  unfold weight cost merge
  dsimp only
  rw [lengthOf_or, lengthOf_extend, lengthOf_extend, htype]
  omega

/-! ## One entry -/

theorem idCost_none (old : Option Text) : idCost old none = 0 := by
  cases old <;> rfl

theorem typeCost_self (b : Bool) : typeCost true b = 0 := by
  cases b <;> rfl

theorem takeId_eq {v : Option Json} {m m' : Meter} (hm : m.2 ≤ maxBytes) :
    takeId v m = some m' ↔ v.all Json.isString = true ∧ IdFits m.1.id (v.bind Json.text?) ∧
      m.2 + idCost m.1.id (v.bind Json.text?) ≤ maxBytes ∧
      m' = ({ m.1 with id := m.1.id.or (v.bind Json.text?) },
        m.2 + idCost m.1.id (v.bind Json.text?)) := by
  obtain ⟨c, used⟩ := m
  dsimp only at hm ⊢
  cases v with
  | none =>
      rw [takeId, Option.bind_none, idCost_none, Option.or_none, Nat.add_zero, Option.some_inj]
      exact ⟨fun h => ⟨rfl, nofun, hm, h.symm⟩, fun h => h.2.2.2.symm⟩
  | some v =>
      cases v with
      | string s =>
          rw [takeId, Option.bind_some, Json.text?]
          dsimp only
          by_cases hform : (s.contains 0 || decide (s = []) || decide (s.length > maxIdBytes)) = true
          · -- an empty, long or broken id is refused even where the call has one
            rw [if_pos hform]
            constructor
            · exact nofun
            · intro h
              have hs := h.2.1 s rfl
              have hlen := hs.2.2.1
              simp only [Bool.or_eq_true, List.contains_iff_mem, decide_eq_true_eq, hs.1, hs.2.1,
                false_or] at hform
              omega
          · rw [if_neg hform]
            simp only [Bool.or_eq_true, List.contains_iff_mem, decide_eq_true_eq, not_or] at hform
            have hfits : IdFits c.id (some s) ↔ (∀ y, c.id = some y → y = s) ∧
                (c.id = none → utf8 s = true) := by
              constructor
              · exact fun h => (h s rfl).2.2.2
              · intro h x hx
                obtain rfl := Option.some.inj hx
                exact ⟨hform.1.2, hform.1.1, by omega, h⟩
            rw [hfits]
            cases hid : c.id with
            | none =>
                have hcost : idCost none (some s) = s.length := rfl
                rw [hcost, Option.none_or]
                dsimp only
                by_cases hlen : s.length > maxBytes - used
                · rw [if_pos hlen]
                  constructor
                  · exact nofun
                  · intro h
                    have := h.2.2.1
                    omega
                · rw [if_neg hlen]
                  by_cases hutf : utf8 s = true
                  · rw [if_pos hutf, Option.some_inj]
                    exact ⟨fun h => ⟨rfl, ⟨nofun, fun _ => hutf⟩, by omega, h.symm⟩,
                      fun h => h.2.2.2.symm⟩
                  · rw [if_neg hutf]
                    exact ⟨nofun, fun h => absurd (h.2.1.2 rfl) hutf⟩
            | some y =>
                have hcost : idCost (some y) (some s) = 0 := rfl
                have hsame : ({ c with id := some y } : Call) = c := by rw [← hid]
                rw [hcost, Option.some_or, Nat.add_zero, hsame]
                dsimp only
                by_cases hy : y = s
                · rw [if_pos hy, Option.some_inj]
                  refine ⟨fun h => ⟨rfl, ⟨?_, nofun⟩, hm, h.symm⟩, fun h => h.2.2.2.symm⟩
                  intro y' hy'
                  rw [← Option.some.inj hy', hy]
                · rw [if_neg hy]
                  exact ⟨nofun, fun h => absurd (h.2.1.1 y rfl) hy⟩
      | _ => exact ⟨nofun, fun h => nomatch h.1⟩

theorem takeType_eq {v : Option Json} {m m' : Meter} (hm : m.2 ≤ maxBytes) :
    takeType v m = some m' ↔ v.all (· = .string "function") = true ∧
      m.2 + typeCost m.1.type v.isSome ≤ maxBytes ∧
      m' = ({ m.1 with type := m.1.type || v.isSome }, m.2 + typeCost m.1.type v.isSome) := by
  obtain ⟨c, used⟩ := m
  dsimp only at hm ⊢
  cases v with
  | none =>
      have hcost : typeCost c.type false = 0 := rfl
      rw [takeType, Option.isSome_none, hcost, Nat.add_zero, Bool.or_false, Option.some_inj]
      exact ⟨fun h => ⟨rfl, hm, h.symm⟩, fun h => h.2.2.symm⟩
  | some v =>
      rw [takeType, Option.all_some, decide_eq_true_eq, Option.isSome_some, Bool.or_true]
      by_cases hv : v = .string "function"
      · rw [if_pos hv]
        cases htype : c.type with
        | true =>
            have hsame : ({ c with type := true } : Call) = c := by rw [← htype]
            rw [typeCost_self, Nat.add_zero, hsame, if_pos rfl, Option.some_inj]
            exact ⟨fun h => ⟨hv, hm, h.symm⟩, fun h => h.2.2.symm⟩
        | false =>
            have hcost : typeCost false true = 8 := rfl
            rw [hcost, if_neg nofun]
            by_cases hlen : 8 > maxBytes - used
            · rw [if_pos hlen]
              constructor
              · exact nofun
              · intro h
                have := h.2.1
                omega
            · rw [if_neg hlen, Option.some_inj]
              exact ⟨fun h => ⟨hv, by omega, h.symm⟩, fun h => h.2.2.symm⟩
      · rw [if_neg hv]
        exact ⟨nofun, fun h => absurd h.1 hv⟩

theorem append_eq {used : Nat} {dest : Option Text} {v : Json} {r : Option Text × Nat}
    (hm : used ≤ maxBytes) : append used dest v = some r ↔ ∃ s, v = .string s ∧ utf8 s = true ∧
      used + s.length ≤ maxBytes ∧ r = (extend dest (some s), used + s.length) := by
  cases v with
  | string s =>
      rw [append]
      by_cases hlen : s.length > maxBytes - used
      · rw [if_pos hlen]
        constructor
        · exact nofun
        · intro h
          obtain ⟨s', hs, -, hbudget, -⟩ := h
          cases hs
          omega
      · rw [if_neg hlen]
        by_cases hutf : utf8 s = true
        · rw [if_pos hutf, Option.some_inj]
          constructor
          · exact fun h => ⟨s, rfl, hutf, by omega, h.symm⟩
          · intro h
            obtain ⟨s', hs, -, -, hr⟩ := h
            cases hs
            exact hr.symm
        · rw [if_neg hutf]
          constructor
          · exact nofun
          · intro h
            obtain ⟨s', hs, hutf', -⟩ := h
            cases hs
            exact absurd hutf' hutf
  | _ => exact ⟨nofun, fun h => nomatch h⟩

theorem takeName_eq {v : Option Json} {m m' : Meter} (hm : m.2 ≤ maxBytes) :
    takeName v m = some m' ↔ v.all Json.isString = true ∧
      (∀ x, v.bind Json.text? = some x → (0 : Byte) ∉ x ∧ utf8 x = true) ∧
      m.2 + lengthOf (v.bind Json.text?) ≤ maxBytes ∧
      m' = ({ m.1 with name := extend m.1.name (v.bind Json.text?) },
        m.2 + lengthOf (v.bind Json.text?)) := by
  obtain ⟨c, used⟩ := m
  dsimp only at hm ⊢
  cases v with
  | none =>
      exact ⟨fun h => ⟨rfl, nofun, hm, (Option.some.inj h).symm⟩,
        fun h => congrArg some h.2.2.2.symm⟩
  | some v =>
      rw [takeName]
      cases v with
      | string s =>
          by_cases hnul : (0 : Byte) ∈ s
          · rw [if_neg (by simp [noNul, hnul])]
            exact ⟨nofun, fun h => absurd hnul (h.2.1 s rfl).1⟩
          · rw [if_pos (by simp [noNul, hnul]), Option.map_eq_some_iff]
            constructor
            · intro h
              obtain ⟨r, happend, hr⟩ := h
              obtain ⟨s', hs, hutf, hbudget, rfl⟩ := (append_eq hm).mp happend
              cases hs
              refine ⟨rfl, ?_, hbudget, hr.symm⟩
              intro x hx
              obtain rfl := Option.some.inj hx
              exact ⟨hnul, hutf⟩
            · intro h
              obtain ⟨-, hform, hbudget, rfl⟩ := h
              exact ⟨_, (append_eq hm).mpr ⟨s, rfl, (hform s rfl).2, hbudget, rfl⟩, rfl⟩
      | _ => exact ⟨nofun, fun h => nomatch h.1⟩

theorem takeArguments_eq {v : Option Json} {m m' : Meter} (hm : m.2 ≤ maxBytes) :
    takeArguments v m = some m' ↔ v.all Json.isString = true ∧
      (∀ x, v.bind Json.text? = some x → utf8 x = true) ∧
      m.2 + lengthOf (v.bind Json.text?) ≤ maxBytes ∧
      m' = ({ m.1 with arguments := extend m.1.arguments (v.bind Json.text?) },
        m.2 + lengthOf (v.bind Json.text?)) := by
  obtain ⟨c, used⟩ := m
  dsimp only at hm ⊢
  cases v with
  | none =>
      exact ⟨fun h => ⟨rfl, nofun, hm, (Option.some.inj h).symm⟩,
        fun h => congrArg some h.2.2.2.symm⟩
  | some v =>
      rw [takeArguments, Option.map_eq_some_iff]
      cases v with
      | string s =>
          constructor
          · intro h
            obtain ⟨r, happend, hr⟩ := h
            obtain ⟨s', hs, hutf, hbudget, rfl⟩ := (append_eq hm).mp happend
            cases hs
            refine ⟨rfl, ?_, hbudget, hr.symm⟩
            intro x hx
            rw [← Option.some.inj hx]
            exact hutf
          · intro h
            obtain ⟨-, hform, hbudget, rfl⟩ := h
            exact ⟨_, (append_eq hm).mpr ⟨s, rfl, hform s rfl, hbudget, rfl⟩, rfl⟩
      | _ =>
          constructor
          · exact fun h => nomatch h
          · exact fun h => nomatch h.1

theorem takeMembers_eq {entry : Json} {m m' : Meter} (hm : m.2 ≤ maxBytes) :
    takeMembers entry m = some m' ↔
      ((entry.get? "id").all Json.isString = true ∧
        (entry.get? "type").all (· = .string "function") = true ∧
        (entry.get? "function").all (knownFields functionKeys) = true ∧
        ((entry.get? "function").bind (·.get? "name")).all Json.isString = true ∧
        ((entry.get? "function").bind (·.get? "arguments")).all Json.isString = true) ∧
      (IdFits m.1.id (readDelta entry).id ∧
        (∀ x, (readDelta entry).name = some x → (0 : Byte) ∉ x ∧ utf8 x = true) ∧
        (∀ x, (readDelta entry).arguments = some x → utf8 x = true) ∧
        m.2 + cost m.1 (readDelta entry) ≤ maxBytes) ∧
      m' = ({ merge m.1 (readDelta entry) with present := m.1.present },
        m.2 + cost m.1 (readDelta entry)) := by
  obtain ⟨c, used⟩ := m
  dsimp only at hm ⊢
  unfold takeMembers
  simp only [Option.bind_eq_bind, Option.bind_eq_some_iff]
  constructor
  · intro h
    obtain ⟨m₁, hid, m₂, htype, h⟩ := h
    obtain ⟨hid₁, hid₂, hb₁, rfl⟩ := (takeId_eq hm).mp hid
    obtain ⟨htype₁, hb₂, rfl⟩ := (takeType_eq hb₁).mp htype
    split at h
    next hfunction =>
      obtain ⟨m₃, hname, h⟩ := Option.bind_eq_some_iff.mp h
      obtain ⟨hname₁, hname₂, hb₃, rfl⟩ := (takeName_eq hb₂).mp hname
      obtain ⟨hargs₁, hargs₂, hb₄, rfl⟩ := (takeArguments_eq hb₃).mp h
      refine ⟨⟨hid₁, htype₁, hfunction, hname₁, hargs₁⟩, ⟨hid₂, hname₂, hargs₂, ?_⟩, ?_⟩
      · simp only [cost, readDelta] at hb₄ ⊢
        omega
      · simp only [merge, cost, readDelta, Prod.mk.injEq]
        refine ⟨trivial, ?_⟩
        omega
    next => cases h
  · intro h
    obtain ⟨⟨hid₁, htype₁, hfunction, hname₁, hargs₁⟩, ⟨hid₂, hname₂, hargs₂, hbudget⟩, rfl⟩ := h
    simp only [cost, readDelta] at hbudget
    have hb₁ : used + idCost c.id (readDelta entry).id ≤ maxBytes := by
      simp only [readDelta]
      omega
    have hb₂ : used + idCost c.id (readDelta entry).id +
        typeCost c.type (readDelta entry).type ≤ maxBytes := by
      simp only [readDelta]
      omega
    have hb₃ : used + idCost c.id (readDelta entry).id + typeCost c.type (readDelta entry).type +
        lengthOf (readDelta entry).name ≤ maxBytes := by
      simp only [readDelta]
      omega
    refine ⟨_, (takeId_eq hm).mpr ⟨hid₁, hid₂, hb₁, rfl⟩, _,
      (takeType_eq hb₁).mpr ⟨htype₁, hb₂, rfl⟩, ?_⟩
    rw [if_pos hfunction]
    refine Option.bind_eq_some_iff.mpr ⟨_, (takeName_eq hb₂).mpr ⟨hname₁, hname₂, hb₃, rfl⟩, ?_⟩
    refine (takeArguments_eq hb₃).mpr ⟨hargs₁, hargs₂, ?_, ?_⟩
    · dsimp only
      omega
    · simp only [merge, cost, readDelta, Prod.mk.injEq]
      refine ⟨trivial, ?_⟩
      omega

/-- An entry is taken exactly when it has the wire form, its index is new in the array and its
delta fits. -/
theorem feedEntry_eq {seen : List Nat} {s t : Tools} {entry : Json} (hs : s.bytes ≤ maxBytes) :
    feedEntry seen s entry = some t ↔ Formed entry ∧ (readDelta entry).index ∉ seen ∧
      Fits s (readDelta entry) ∧ t = absorb s (readDelta entry) := by
  unfold feedEntry
  by_cases hform : (knownFields callKeys entry && decide (2 ≤ objectSize entry)) = true
  · rw [if_pos hform]
    simp only [Bool.and_eq_true, decide_eq_true_eq] at hform
    cases hindex : indexOf entry with
    | none => exact ⟨nofun, fun h => nomatch hindex ▸ h.1.index⟩
    | some k =>
        have hk : (readDelta entry).index = k := by
          show (indexOf entry).getD 0 = k
          rw [hindex, Option.getD_some]
        dsimp only
        by_cases hseen : seen.contains k = true
        · rw [if_pos hseen]
          exact ⟨nofun, fun h => absurd (List.contains_iff_mem.mp hseen) (hk ▸ h.2.1)⟩
        · rw [if_neg hseen, Option.map_eq_some_iff]
          rw [List.contains_iff_mem] at hseen
          constructor
          · intro h
            obtain ⟨m, hm, rfl⟩ := h
            obtain ⟨⟨h₁, h₂, h₃, h₄, h₅⟩, ⟨h₆, h₇, h₈, h₉⟩, rfl⟩ := (takeMembers_eq hs).mp hm
            refine ⟨⟨hform.1, hform.2, by rw [hindex]; rfl, h₁, h₂, h₃, h₄, h₅⟩, hk ▸ hseen,
              ⟨hk ▸ h₆, h₇, h₈, hk ▸ h₉⟩, ?_⟩
            unfold absorb
            rw [hk]
            rfl
          · intro h
            obtain ⟨⟨-, -, -, h₁, h₂, h₃, h₄, h₅⟩, -, ⟨h₆, h₇, h₈, h₉⟩, rfl⟩ := h
            rw [hk] at h₆ h₉
            refine ⟨_, (takeMembers_eq hs).mpr ⟨⟨h₁, h₂, h₃, h₄, h₅⟩, ⟨h₆, h₇, h₈, h₉⟩, rfl⟩, ?_⟩
            unfold absorb
            rw [hk]
            rfl
  · rw [if_neg hform]
    simp only [Bool.and_eq_true, decide_eq_true_eq] at hform
    exact ⟨nofun, fun h => absurd ⟨h.1.known, h.1.more⟩ hform⟩

/-! ## Series of deltas -/

/-- Each delta fits what was assembled before it. -/
def FitsAll (s : Tools) : List Delta → Prop
  | [] => True
  | d :: ds => Fits s d ∧ FitsAll (absorb s d) ds

def absorbAll (s : Tools) (ds : List Delta) : Tools := ds.foldl absorb s

theorem fitsAll_append {s : Tools} {ds es : List Delta} :
    FitsAll s (ds ++ es) ↔ FitsAll s ds ∧ FitsAll (absorbAll s ds) es := by
  induction ds generalizing s with
  | nil => simp [FitsAll, absorbAll]
  | cons d ds ih =>
      rw [List.cons_append, FitsAll, FitsAll, ih, and_assoc]
      rfl

theorem FitsAll.bytes {s : Tools} {ds : List Delta} (h : FitsAll s ds) (hs : s.bytes ≤ maxBytes) :
    (absorbAll s ds).bytes ≤ maxBytes := by
  induction ds generalizing s with
  | nil => exact hs
  | cons d ds ih => exact ih h.2 h.1.budget

theorem feedEntries_eq {seen : List Nat} {s t : Tools} {entries : List Json}
    (hs : s.bytes ≤ maxBytes) : feedEntries seen s entries = some t ↔
      (∀ e ∈ entries, Formed e) ∧ ((entries.map readDelta).map (·.index)).Nodup ∧
      (∀ d ∈ entries.map readDelta, d.index ∉ seen) ∧ FitsAll s (entries.map readDelta) ∧
      t = absorbAll s (entries.map readDelta) := by
  induction entries generalizing seen s with
  | nil =>
      rw [feedEntries, Option.some_inj]
      exact ⟨fun h => ⟨nofun, List.nodup_nil, nofun, trivial, h.symm⟩, fun h => h.2.2.2.2.symm⟩
  | cons entry rest ih =>
      rw [feedEntries]
      cases hentry : feedEntry seen s entry with
      | none =>
          refine ⟨nofun, fun h => ?_⟩
          obtain ⟨hformed, -, hseen, hfits, -⟩ := h
          have := (feedEntry_eq hs).mpr ⟨hformed entry List.mem_cons_self,
            hseen _ List.mem_cons_self, hfits.1, rfl⟩
          rw [hentry] at this
          cases this
      | some s₁ =>
          obtain ⟨hformed, hnew, hfits, rfl⟩ := (feedEntry_eq hs).mp hentry
          have hindex : (indexOf entry).toList = [(readDelta entry).index] := by
            have hsome := hformed.index
            show _ = [(indexOf entry).getD 0]
            cases h : indexOf entry with
            | none => rw [h] at hsome; cases hsome
            | some k => rfl
          dsimp only
          rw [ih hfits.budget, hindex, List.forall_mem_cons, List.map_cons, List.map_cons,
            List.nodup_cons, List.forall_mem_cons]
          have hseen : (∀ d ∈ rest.map readDelta, d.index ∉ [(readDelta entry).index] ++ seen) ↔
              (readDelta entry).index ∉ (rest.map readDelta).map (·.index) ∧
                ∀ d ∈ rest.map readDelta, d.index ∉ seen := by
            simp only [List.singleton_append, List.mem_cons, not_or]
            constructor
            · intro h
              refine ⟨?_, fun d hd => (h d hd).2⟩
              intro hin
              obtain ⟨d, hd, hindex⟩ := List.mem_map.mp hin
              exact (h d hd).1 hindex
            · intro h d hd
              exact ⟨fun hindex => h.1 (List.mem_map.mpr ⟨d, hd, hindex⟩), h.2 d hd⟩
          rw [hseen]
          constructor
          · intro h
            exact ⟨⟨hformed, h.1⟩, ⟨h.2.2.1.1, h.2.1⟩, ⟨hnew, h.2.2.1.2⟩, ⟨hfits, h.2.2.2.1⟩,
              h.2.2.2.2⟩
          · intro h
            exact ⟨h.1.2, h.2.1.2, ⟨h.2.1.1, h.2.2.1.2⟩, h.2.2.2.1.2, h.2.2.2.2⟩

/-! ## What was assembled -/

theorem joined_append (fragments : List Text) (f : Option Text) :
    joined (fragments ++ f.toList) = extend (joined fragments) f := by
  unfold joined
  cases f with
  | none => rw [Option.toList_none, List.append_nil, extend]
  | some f =>
      rw [Option.toList_some, if_neg (by simp), extend, List.flatten_append, List.flatten_singleton]
      by_cases h : fragments = []
      · rw [if_pos h, h, List.flatten_nil, Option.getD_none]
      · rw [if_neg h, Option.getD_some]

theorem head?_append_toList (ids : List Text) (x : Option Text) :
    (ids ++ x.toList).head? = ids.head?.or x := by
  rw [List.head?_append]
  cases x <;> rfl

theorem gather_concat (k : Nat) (ds : List Delta) (d : Delta) :
    gather k (ds ++ [d]) = if d.index = k then merge (gather k ds) d else gather k ds := by
  have hown : own k (ds ++ [d]) = own k ds ++ if d.index = k then [d] else [] := by
    unfold own
    rw [List.filter_append, List.filter_singleton]
    by_cases h : d.index = k
    · simp [h]
    · simp [h]
  unfold gather
  rw [hown]
  by_cases h : d.index = k
  · rw [if_pos h, if_pos h]
    have hsingle {β : Type} (f : Delta → Option β) : [d].filterMap f = (f d).toList := by
      cases hf : f d <;> simp [hf]
    simp only [List.filterMap_append, hsingle, joined_append, head?_append_toList, List.any_append,
      List.any_cons, List.any_nil, Bool.or_false, merge]
    simp
  · rw [if_neg h, if_neg h, List.append_nil]

theorem calls_absorbAll (ds : List Delta) (k : Nat) : (absorbAll {} ds).calls k = gather k ds := by
  induction ds using List.reverseRecOn with
  | nil => rfl
  | append_singleton ds d ih =>
      have hstep : absorbAll {} (ds ++ [d]) = absorb (absorbAll {} ds) d := by
        rw [absorbAll, List.foldl_append]
        rfl
      rw [hstep, gather_concat]
      by_cases h : d.index = k
      · rw [if_pos h, ← ih, ← h]
        exact Function.update_self ..
      · rw [if_neg h, ← ih]
        exact Function.update_of_ne (Ne.symm h) ..

theorem lt_count_absorbAll (ds : List Delta) (k : Nat) :
    k < (absorbAll {} ds).count ↔ ∃ d ∈ ds, k ≤ d.index := by
  have h (s : Tools) : k < (absorbAll s ds).count ↔ k < s.count ∨ ∃ d ∈ ds, k ≤ d.index := by
    induction ds generalizing s with
    | nil => simp [absorbAll]
    | cons d ds ih =>
        show k < (absorbAll (absorb s d) ds).count ↔ _
        rw [ih, List.exists_mem_cons_iff]
        show k < max s.count (d.index + 1) ∨ _ ↔ _
        rw [lt_max_iff, Nat.lt_succ_iff, or_assoc]
  rw [h]
  exact or_iff_right (Nat.not_lt_zero k)

theorem flags_absorbAll (s : Tools) (ds : List Delta) :
    (absorbAll s ds).failed = s.failed ∧ (absorbAll s ds).finalized = s.finalized := by
  induction ds generalizing s with
  | nil => exact ⟨rfl, rfl⟩
  | cons d ds ih => exact ih (absorb s d)

/-- The bytes counted are those of the calls. -/
def Counted (s : Tools) : Prop := s.bytes = ∑ k ∈ Finset.range maxCalls, weight (s.calls k)

theorem Counted.absorb {s : Tools} {d : Delta} (h : Counted s) (hd : d.index < maxCalls) :
    Counted (absorb s d) := by
  unfold Counted at h ⊢
  show s.bytes + cost (s.calls d.index) d = _
  have hmem : d.index ∈ Finset.range maxCalls := Finset.mem_range.mpr hd
  rw [h, ← Finset.add_sum_erase _ _ hmem, ← Finset.add_sum_erase _ _ hmem]
  have hown : (StreamTools.absorb s d).calls d.index = merge (s.calls d.index) d :=
    Function.update_self ..
  have hrest : ∑ k ∈ (Finset.range maxCalls).erase d.index, weight ((StreamTools.absorb s d).calls k) =
      ∑ k ∈ (Finset.range maxCalls).erase d.index, weight (s.calls k) := by
    refine Finset.sum_congr rfl ?_
    intro k hk
    exact congrArg weight (Function.update_of_ne (Finset.ne_of_mem_erase hk) ..)
  rw [hown, hrest, weight_merge]
  omega

theorem counted_absorbAll {ds : List Delta} (h : ∀ d ∈ ds, d.index < maxCalls) :
    Counted (absorbAll {} ds) := by
  have hrun (s : Tools) (hs : Counted s) : Counted (absorbAll s ds) := by
    induction ds generalizing s with
    | nil => exact hs
    | cons d ds ih =>
        rw [List.forall_mem_cons] at h
        exact ih h.2 _ (hs.absorb h.1)
  exact hrun {} (by simp [Counted, weight, lengthOf])

theorem bytes_le_absorbAll (s : Tools) (ds : List Delta) : s.bytes ≤ (absorbAll s ds).bytes := by
  induction ds generalizing s with
  | nil => exact Nat.le_refl _
  | cons d ds ih => exact Nat.le_trans (Nat.le_add_right ..) (ih (absorb s d))

/-! ## Series of arrays -/

/-- An array of entries of the wire form, no index twice. -/
structure SentArray (array : Json) : Prop where
  isArray : array.isArray = true
  formed : ∀ e ∈ array.elements, Formed e
  indices : ((array.elements.map readDelta).map (·.index)).Nodup

theorem Formed.index_lt {entry : Json} (h : Formed entry) : (readDelta entry).index < maxCalls := by
  have hsome := h.index
  show (indexOf entry).getD 0 < maxCalls
  cases hindex : indexOf entry with
  | none => rw [hindex] at hsome; cases hsome
  | some k =>
      unfold indexOf at hindex
      split at hindex
      next n hn =>
        by_cases hrange : (decide (0 ≤ n) && decide (n < maxCalls)) = true
        · rw [if_pos hrange] at hindex
          simp only [Bool.and_eq_true, decide_eq_true_eq] at hrange
          rw [Option.getD_some, ← Option.some.inj hindex]
          omega
        · rw [if_neg hrange] at hindex
          cases hindex
      next => cases hindex

/-- Distinct indices leave no room for more entries than there are calls. -/
theorem SentArray.length_le {array : Json} (h : SentArray array) :
    array.elements.length ≤ maxCalls := by
  have hsub : ((array.elements.map readDelta).map (·.index)) ⊆ List.range maxCalls := by
    intro k hk
    obtain ⟨d, hd, rfl⟩ := List.mem_map.mp hk
    obtain ⟨e, he, rfl⟩ := List.mem_map.mp hd
    exact List.mem_range.mpr (h.formed e he).index_lt
  have hlen := (h.indices.subperm hsub).length_le
  rwa [List.length_map, List.length_map, List.length_range] at hlen

theorem feedArray_eq {s t : Tools} {array : Json} (hs : s.bytes ≤ maxBytes) :
    feedArray s array = some t ↔ SentArray array ∧ FitsAll s (array.elements.map readDelta) ∧
      t = absorbAll s (array.elements.map readDelta) := by
  cases array with
  | array entries =>
      rw [feedArray, Json.elements]
      constructor
      · intro h
        split at h
        next => cases h
        next =>
          obtain ⟨hformed, hindices, -, hfits, rfl⟩ := (feedEntries_eq hs).mp h
          exact ⟨⟨rfl, hformed, hindices⟩, hfits, rfl⟩
      · intro h
        obtain ⟨hsent, hfits, rfl⟩ := h
        have hlen := hsent.length_le
        rw [Json.elements] at hlen
        rw [if_neg (by omega)]
        exact (feedEntries_eq hs).mpr
          ⟨hsent.formed, hsent.indices, fun d _ => List.not_mem_nil, hfits, rfl⟩
  | _ =>
      constructor
      · intro h
        cases h
      · intro h
        have harray := h.1.isArray
        cases harray

/-- No feed of the series fails. -/
def Accepted (s : Tools) : List Json → Prop
  | [] => True
  | a :: rest => (feed s a).2 = true ∧ Accepted (feed s a).1 rest

/-- An assembler that takes more. -/
structure Open (s : Tools) : Prop where
  failed : s.failed = false
  finalized : s.finalized = false
  bytes : s.bytes ≤ maxBytes

theorem open_empty : Open {} := ⟨rfl, rfl, Nat.zero_le _⟩

theorem Open.absorbAll {s : Tools} {ds : List Delta} (hs : Open s) (h : FitsAll s ds) :
    Open (absorbAll s ds) where
  failed := (flags_absorbAll s ds).1.trans hs.failed
  finalized := (flags_absorbAll s ds).2.trans hs.finalized
  bytes := h.bytes hs.bytes

theorem feed_open {s : Tools} (hs : Open s) (array : Json) : feed s array =
    match feedArray s array with
    | some s => (s, true)
    | none => ({ s with failed := true }, false) := by
  unfold feed
  rw [hs.failed, hs.finalized]
  rfl

theorem accepted_iff {s : Tools} {arrays : List Json} (hs : Open s) : Accepted s arrays ↔
    (∀ a ∈ arrays, SentArray a) ∧ FitsAll s (deltas arrays) := by
  induction arrays generalizing s with
  | nil => exact ⟨fun _ => ⟨nofun, trivial⟩, fun _ => trivial⟩
  | cons a rest ih =>
      have hdeltas : deltas (a :: rest) = a.elements.map readDelta ++ deltas rest :=
        List.flatMap_cons
      rw [Accepted, feed_open hs, hdeltas, fitsAll_append, List.forall_mem_cons]
      cases harray : feedArray s a with
      | none =>
          refine ⟨nofun, fun h => ?_⟩
          have := (feedArray_eq hs.bytes).mpr ⟨h.1.1, h.2.1, rfl⟩
          rw [harray] at this
          cases this
      | some t =>
          obtain ⟨hsent, hfits, rfl⟩ := (feedArray_eq hs.bytes).mp harray
          rw [ih (hs.absorbAll hfits)]
          exact ⟨fun h => ⟨⟨hsent, h.2.1⟩, hfits, h.2.2⟩, fun h => ⟨rfl, h.1.2, h.2.2⟩⟩

theorem feeds_eq {s : Tools} {arrays : List Json} (hs : Open s) (h : Accepted s arrays) :
    feeds s arrays = absorbAll s (deltas arrays) := by
  induction arrays generalizing s with
  | nil => rfl
  | cons a rest ih =>
      have hdeltas : deltas (a :: rest) = a.elements.map readDelta ++ deltas rest :=
        List.flatMap_cons
      have hfirst := h.1
      have hrest := h.2
      rw [feed_open hs] at hfirst hrest
      show feeds (feed s a).1 rest = _
      rw [feed_open hs, hdeltas, absorbAll, List.foldl_append]
      cases harray : feedArray s a with
      | none => rw [harray] at hfirst; cases hfirst
      | some t =>
          obtain ⟨-, hfits, rfl⟩ := (feedArray_eq hs.bytes).mp harray
          rw [harray] at hrest
          exact ih (hs.absorbAll hfits) hrest

/-! ## Tool calls and the streams that carry them -/

/-- One call of a message. -/
structure Spec where
  id : Text
  name : Text
  arguments : Text

def Spec.json (c : Spec) : Json :=
  .object [("id", .string c.id), ("type", .string "function"),
    ("function", .object [("name", .string c.name), ("arguments", .string c.arguments)])]

def Spec.call (c : Spec) : Call :=
  { id := some c.id, name := some c.name, arguments := some c.arguments
    present := true, type := true }

/-- The retained bytes of one call. -/
def Spec.size (c : Spec) : Nat := c.id.length + 8 + c.name.length + c.arguments.length

/-- A `tool_calls` array within the limits. -/
structure ValidCalls (dumps : Json → Option Text) (specs : List Spec) : Prop where
  some : specs ≠ []
  few : specs.length ≤ maxCalls
  distinct : (specs.map (·.id)).Nodup
  id : ∀ c ∈ specs, c.id ≠ [] ∧ (0 : Byte) ∉ c.id ∧ c.id.length ≤ maxIdBytes ∧ utf8 c.id = true
  name : ∀ c ∈ specs, c.name ≠ [] ∧ (0 : Byte) ∉ c.name ∧ utf8 c.name = true
  arguments : ∀ c ∈ specs, utf8 c.arguments = true
  retained : (specs.map Spec.size).sum ≤ maxBytes
  compact : ∃ t, dumps (.array (specs.map Spec.json)) = .some t ∧ t.length ≤ maxBytes

/-- The deltas of one index carry a call: its id and type whole, its name and arguments in
pieces. -/
structure Carries (ds : List Delta) (c : Spec) : Prop where
  id : ∀ d ∈ ds, ∀ x ∈ d.id, x = c.id
  identified : ∃ d ∈ ds, d.id.isSome = true
  type : ∃ d ∈ ds, d.type = true
  name : (ds.filterMap (·.name)).flatten = c.name
  arguments : (ds.filterMap (·.arguments)).flatten = c.arguments
  supplied : ∃ d ∈ ds, d.arguments.isSome = true

/-- A stream of arrays that carries the calls. -/
structure Streams (arrays : List Json) (specs : List Spec) : Prop where
  sent : ∀ a ∈ arrays, SentArray a
  index : ∀ d ∈ deltas arrays, d.index < specs.length
  boundaries : ∀ d ∈ deltas arrays,
    (∀ f ∈ d.name, utf8 f = true) ∧ ∀ f ∈ d.arguments, utf8 f = true
  carries : ∀ k (hk : k < specs.length), Carries (own k (deltas arrays)) specs[k]

theorem joined_eq {fragments : List Text} (h : fragments ≠ []) :
    joined fragments = some fragments.flatten := if_neg h

/-- What is assembled of deltas that carry a call is the call. -/
theorem Carries.gather {k : Nat} {ds : List Delta} {c : Spec} (h : Carries (own k ds) c)
    (hname : c.name ≠ []) : StreamTools.gather k ds = c.call := by
  have hpresent : own k ds ≠ [] := by
    obtain ⟨d, hd, -⟩ := h.type
    exact List.ne_nil_of_mem hd
  have hid : ((own k ds).filterMap (·.id)).head? = some c.id := by
    obtain ⟨d, hd, hsome⟩ := h.identified
    obtain ⟨x, hx⟩ := Option.isSome_iff_exists.mp hsome
    cases hids : (own k ds).filterMap (·.id) with
    | nil => exact absurd hx (by rw [List.filterMap_eq_nil_iff.mp hids d hd]; nofun)
    | cons y ys =>
        have hy : y ∈ (own k ds).filterMap (·.id) := by rw [hids]; exact List.mem_cons_self
        obtain ⟨d', hd', hy'⟩ := List.mem_filterMap.mp hy
        rw [List.head?_cons, h.id d' hd' y hy']
  have hnames : (own k ds).filterMap (·.name) ≠ [] := by
    intro hnil
    have hflat := h.name
    rw [hnil, List.flatten_nil] at hflat
    exact hname hflat.symm
  have hargs : (own k ds).filterMap (·.arguments) ≠ [] := by
    obtain ⟨d, hd, hsome⟩ := h.supplied
    obtain ⟨x, hx⟩ := Option.isSome_iff_exists.mp hsome
    exact List.ne_nil_of_mem (List.mem_filterMap.mpr ⟨d, hd, hx⟩)
  have htype : (own k ds).any (·.type) = true := List.any_eq_true.mpr h.type
  unfold StreamTools.gather Spec.call
  rw [hid, joined_eq hnames, joined_eq hargs, h.name, h.arguments, htype, decide_eq_true hpresent]

section RoundTrip

variable {dumps : Json → Option Text} {specs : List Spec} {arrays : List Json}

theorem Streams.gather (h : Streams arrays specs) (hvalid : ValidCalls dumps specs) {k : Nat}
    (hk : k < specs.length) : StreamTools.gather k (deltas arrays) = specs[k].call :=
  (h.carries k hk).gather (hvalid.name _ (List.getElem_mem hk)).1

theorem Streams.gather_rest (h : Streams arrays specs) {k : Nat} (hk : specs.length ≤ k) :
    StreamTools.gather k (deltas arrays) = {} := by
  have hown : own k (deltas arrays) = [] := by
    refine List.filter_eq_nil_iff.mpr ?_
    intro d hd
    have := h.index d hd
    simp only [decide_eq_true_eq]
    omega
  unfold StreamTools.gather
  rw [hown]
  rfl

theorem Streams.bytes (h : Streams arrays specs) (hvalid : ValidCalls dumps specs) :
    (absorbAll {} (deltas arrays)).bytes = (specs.map Spec.size).sum := by
  have hindex : ∀ d ∈ deltas arrays, d.index < maxCalls :=
    fun d hd => Nat.lt_of_lt_of_le (h.index d hd) hvalid.few
  have hcounted := counted_absorbAll hindex
  unfold Counted at hcounted
  rw [hcounted, ← Finset.sum_subset (Finset.range_subset_range.mpr hvalid.few)]
  · rw [Finset.sum_range, ← Fin.sum_univ_getElem]
    simp only [List.getElem_map]
    refine Fintype.sum_equiv (finCongr (by rw [List.length_map])) _ _ ?_
    intro k
    rw [calls_absorbAll, h.gather hvalid k.isLt]
    simp [weight, Spec.call, lengthOf, Spec.size]
  · intro k _ hk
    rw [Finset.mem_range, not_lt] at hk
    rw [calls_absorbAll, h.gather_rest hk]
    rfl

/-- Every delta of the stream fits: it is within the budget because the bytes only grow up to those
of the calls. -/
theorem Streams.fits (h : Streams arrays specs) (hvalid : ValidCalls dumps specs) :
    FitsAll {} (deltas arrays) := by
  have hall : ∀ (before after : List Delta), deltas arrays = before ++ after →
      FitsAll (absorbAll {} before) after := by
    intro before after
    induction after generalizing before with
    | nil => exact fun _ => trivial
    | cons d after ih =>
        intro heq
        have hd : d ∈ deltas arrays := by rw [heq]; exact List.mem_append_cons_self
        have hk := h.index d hd
        have hown : d ∈ own d.index (deltas arrays) :=
          List.mem_filter.mpr ⟨hd, decide_eq_true rfl⟩
        have hcarries := h.carries _ hk
        have hspec := List.getElem_mem hk
        have hnext : absorb (absorbAll {} before) d = absorbAll {} (before ++ [d]) := by
          rw [absorbAll, absorbAll, List.foldl_append]
          rfl
        refine ⟨⟨?_, ?_, ?_, ?_⟩, ?_⟩
        · intro x hx
          obtain rfl := hcarries.id d hown x hx
          obtain ⟨h₁, h₂, h₃, h₄⟩ := hvalid.id _ hspec
          refine ⟨h₁, h₂, h₃, ?_, fun _ => h₄⟩
          intro y hy
          rw [calls_absorbAll] at hy
          have hy' := List.mem_of_head? hy
          obtain ⟨d', hd', hy'⟩ := List.mem_filterMap.mp hy'
          refine hcarries.id d' ?_ y hy'
          rw [heq]
          exact List.mem_filter.mpr
            ⟨List.mem_append_left _ (List.mem_filter.mp hd').1, (List.mem_filter.mp hd').2⟩
        · intro x hx
          refine ⟨?_, (h.boundaries d hd).1 x hx⟩
          intro hnul
          refine (hvalid.name _ hspec).2.1 ?_
          rw [← hcarries.name]
          exact List.mem_flatten_of_mem (List.mem_filterMap.mpr ⟨d, hown, hx⟩) hnul
        · exact fun x hx => (h.boundaries d hd).2 x hx
        · have hle := bytes_le_absorbAll (absorb (absorbAll {} before) d) after
          have hfinal : absorbAll (absorb (absorbAll {} before) d) after =
              absorbAll {} (deltas arrays) := by
            rw [heq, absorbAll, absorbAll, absorbAll, List.foldl_append]
            rfl
          rw [hfinal, h.bytes hvalid] at hle
          exact Nat.le_trans hle hvalid.retained
        · rw [hnext]
          exact ih (before ++ [d]) (by rw [heq, List.append_assoc]; rfl)
  exact hall [] (deltas arrays) rfl

theorem Streams.accepted (h : Streams arrays specs) (hvalid : ValidCalls dumps specs) :
    Accepted {} arrays := (accepted_iff open_empty).mpr ⟨h.sent, h.fits hvalid⟩

theorem Streams.count (h : Streams arrays specs) :
    (absorbAll {} (deltas arrays)).count = specs.length := by
  refine le_antisymm ?_ ?_
  · refine le_of_not_gt ?_
    intro hgt
    obtain ⟨d, hd, hk⟩ := (lt_count_absorbAll _ _).mp hgt
    have := h.index d hd
    omega
  · refine le_of_not_gt ?_
    intro hlt
    obtain ⟨d, hd, -⟩ := (h.carries _ hlt).type
    have hmem := List.mem_filter.mp hd
    have hcount := (lt_count_absorbAll (deltas arrays) (absorbAll {} (deltas arrays)).count).mpr
      ⟨d, hmem.1, le_of_eq (of_decide_eq_true hmem.2).symm⟩
    exact absurd hcount (Nat.lt_irrefl _)

/-- What is built of the calls is the array they came from. -/
theorem build_specs (hvalid : ValidCalls dumps specs) {s : Tools} (hcount : s.count = specs.length)
    (hcalls : ∀ k (hk : k < specs.length), s.calls k = specs[k].call) :
    build dumps s = some (.array (specs.map Spec.json)) := by
  have hmap : (List.range s.count).map s.calls = specs.map Spec.call := by
    refine List.ext_getElem (by rw [List.length_map, List.length_map, List.length_range, hcount]) ?_
    intro k hk _
    rw [List.length_map, List.length_range, hcount] at hk
    rw [List.getElem_map, List.getElem_map, List.getElem_range, hcalls k hk]
  have hwhole : (specs.map Spec.call).all whole = true := by
    refine List.all_eq_true.mpr ?_
    intro c hc
    obtain ⟨spec, hspec, rfl⟩ := List.mem_map.mp hc
    have hname := (hvalid.name spec hspec).1
    simp [whole, Spec.call, hname]
  have hids : ((specs.map Spec.call).map (·.id)).Nodup := by
    have hmap : (specs.map Spec.call).map (·.id) = (specs.map (·.id)).map some := by
      rw [List.map_map, List.map_map]
      rfl
    rw [hmap]
    exact hvalid.distinct.map (Option.some_injective _)
  have hpack : (specs.map Spec.call).all packable = true := by
    refine List.all_eq_true.mpr ?_
    intro c hc
    obtain ⟨spec, hspec, rfl⟩ := List.mem_map.mp hc
    have hname := (hvalid.name spec hspec).2.2
    have hargs := hvalid.arguments spec hspec
    simp [packable, Spec.call, hname, hargs]
  have hnonempty : s.count ≠ 0 := by
    rw [hcount]
    exact fun hzero => hvalid.some (List.length_eq_zero_iff.mp hzero)
  have hjson : (specs.map Spec.call).map callJson = specs.map Spec.json := by
    rw [List.map_map]
    rfl
  obtain ⟨t, ht, hlen⟩ := hvalid.compact
  unfold build
  dsimp only
  rw [hmap, hwhole, decide_eq_true hids, hpack, decide_eq_false hnonempty, hjson, ht]
  simp [hlen]

end RoundTrip

/-! ## Failure and repetition -/

/-- A feed that fails, a snapshot or a completion without an array. -/
def Answer.refused : Answer → Prop
  | .fed ok => ok = false
  | .tools out => out = none

theorem perform_failed (dumps : Json → Option Text) {s : Tools} (h : s.failed = true) (op : Op) :
    (perform dumps s op).1.failed = true ∧ (perform dumps s op).2.refused := by
  cases op with
  | feed array =>
      have hfeed : feed s array = ({ s with failed := true }, false) := by
        unfold feed
        rw [h, Bool.true_or, if_pos rfl]
      show (feed s array).1.failed = true ∧ (feed s array).2 = false
      rw [hfeed]
      exact ⟨rfl, rfl⟩
  | snapshot =>
      refine ⟨h, ?_⟩
      show snapshot dumps s = none
      unfold snapshot
      rw [h, Bool.true_or, if_pos rfl]
  | complete =>
      have hcomplete : complete dumps s = ({ s with failed := true }, none) := by
        unfold complete
        rw [h, Bool.true_or, if_pos rfl]
      show (complete dumps s).1.failed = true ∧ (complete dumps s).2 = none
      rw [hcomplete]
      exact ⟨rfl, rfl⟩

theorem answers_failed (dumps : Json → Option Text) {s : Tools} (h : s.failed = true)
    (ops : List Op) : ∀ x ∈ answers dumps s ops, x.refused := by
  induction ops generalizing s with
  | nil => exact nofun
  | cons op ops ih =>
      have hstep := perform_failed dumps h op
      rw [answers, List.forall_mem_cons]
      exact ⟨hstep.2, ih hstep.1⟩

theorem failed_of_feed {s : Tools} {array : Json} (h : (feed s array).2 = false) :
    (feed s array).1.failed = true := by
  unfold feed at h ⊢
  split
  next => rfl
  next hopen =>
    rw [if_neg hopen] at h
    cases harray : feedArray s array with
    | none => rfl
    | some t => rw [harray] at h; cases h

theorem complete_eq_snapshot (dumps : Json → Option Text) (s : Tools) :
    (complete dumps s).2 = snapshot dumps s := by
  unfold complete snapshot
  split
  next => rfl
  next => cases build dumps s <;> rfl

theorem answers_snapshots (dumps : Json → Option Text) (s : Tools) (n : Nat) :
    answers dumps s (List.replicate n .snapshot ++ [.complete]) =
      List.replicate (n + 1) (.tools (snapshot dumps s)) := by
  induction n with
  | zero =>
      show [Answer.tools (complete dumps s).2] = _
      rw [complete_eq_snapshot]
      rfl
  | succ n ih =>
      rw [List.replicate_succ, List.cons_append, answers, List.replicate_succ]
      show _ :: answers dumps s _ = _
      rw [ih]
      rfl

/-- Two assemblers with the same calls and the same count build the same. -/
theorem snapshot_congr (dumps : Json → Option Text) {ds es : List Delta}
    (h : ∀ k, gather k ds = gather k es) :
    snapshot dumps (absorbAll {} ds) = snapshot dumps (absorbAll {} es) := by
  have hpresent (k : Nat) (xs : List Delta) :
      (gather k xs).present = true ↔ ∃ d ∈ xs, d.index = k := by
    show decide (own k xs ≠ []) = true ↔ _
    rw [decide_eq_true_eq, own, Ne, List.filter_eq_nil_iff]
    simp
  have hcount : (absorbAll {} ds).count = (absorbAll {} es).count := by
    refine eq_of_forall_lt_iff ?_
    intro k
    rw [lt_count_absorbAll, lt_count_absorbAll]
    constructor
    · intro hd
      obtain ⟨d, hd, hk⟩ := hd
      have hthere := (hpresent d.index ds).mpr ⟨d, hd, rfl⟩
      rw [h] at hthere
      obtain ⟨e, he, hindex⟩ := (hpresent d.index es).mp hthere
      exact ⟨e, he, hindex ▸ hk⟩
    · intro he
      obtain ⟨e, he, hk⟩ := he
      have hthere := (hpresent e.index es).mpr ⟨e, he, rfl⟩
      rw [← h] at hthere
      obtain ⟨d, hd, hindex⟩ := (hpresent e.index ds).mp hthere
      exact ⟨d, hd, hindex ▸ hk⟩
  have hcalls : (absorbAll {} ds).calls = (absorbAll {} es).calls := by
    funext k
    rw [calls_absorbAll, calls_absorbAll, h]
  unfold snapshot build
  rw [hcount, hcalls, (flags_absorbAll {} ds).1, (flags_absorbAll {} ds).2,
    (flags_absorbAll {} es).1, (flags_absorbAll {} es).2]

/-! ## The round trip -/

/-- The arrays of a stream that carries valid calls are taken and give back the calls; what is
assembled depends on the concatenations alone; after a failed feed everything fails; snapshots
repeat and agree with the completion. -/
theorem assembly_inverts_fragmentation (dumps : Json → Option Text) :
    (∀ (specs : List Spec) (arrays : List Json), ValidCalls dumps specs → Streams arrays specs →
      Accepted {} arrays ∧
        snapshot dumps (feeds {} arrays) = some (.array (specs.map Spec.json))) ∧
    (∀ as bs : List Json, Accepted {} as → Accepted {} bs →
      (∀ k, gather k (deltas as) = gather k (deltas bs)) →
      snapshot dumps (feeds {} as) = snapshot dumps (feeds {} bs) ∧
        (complete dumps (feeds {} as)).2 = (complete dumps (feeds {} bs)).2) ∧
    (∀ (s : Tools) (array : Json), (feed s array).2 = false →
      ∀ ops : List Op, ∀ x ∈ answers dumps (feed s array).1 ops, x.refused) ∧
    ∀ (s : Tools) (n : Nat), answers dumps s (List.replicate n .snapshot ++ [.complete]) =
      List.replicate (n + 1) (.tools (snapshot dumps s)) := by
  refine ⟨?_, ?_, ?_, answers_snapshots dumps⟩
  · intro specs arrays hvalid h
    have haccepted := h.accepted hvalid
    refine ⟨haccepted, ?_⟩
    have hflags := flags_absorbAll {} (deltas arrays)
    rw [feeds_eq open_empty haccepted, snapshot, hflags.1, hflags.2]
    refine build_specs hvalid h.count ?_
    intro k hk
    rw [calls_absorbAll, h.gather hvalid hk]
  · intro as bs has hbs h
    have hsnapshot := snapshot_congr dumps h
    rw [feeds_eq open_empty has, feeds_eq open_empty hbs, complete_eq_snapshot, complete_eq_snapshot]
    exact ⟨hsnapshot, hsnapshot⟩
  · intro s array h ops
    exact answers_failed dumps (failed_of_feed h) ops

/-- Two calls in three arrays, the second before the first in one of them. -/
theorem assembly_inverts_fragmentation_sample :
    let specs : List Spec := [⟨"a", "f", "12"⟩, ⟨"b", "gh", ""⟩]
    let function (k : Int) (members : List (Text × Json)) : Json :=
      .object [("index", .integer k), ("function", .object members)]
    let opening (k : Int) (id name : Text) : Json :=
      .object [("id", .string id), ("index", .integer k), ("type", .string "function"),
        ("function", .object [("name", .string name)])]
    let arrays : List Json :=
      [.array [opening 1 "b" "g", opening 0 "a" "f"],
       .array [function 0 [("arguments", .string "1")]],
       .array [function 0 [("arguments", .string "2")],
         function 1 [("arguments", .string ""), ("name", .string "h")]]]
    let dumps : Json → Option Text := fun v =>
      if v = .array (specs.map Spec.json) then
        some (text "[\x7b\"id\":\"a\",\"type\":\"function\",\"function\":" ++
          text "\x7b\"name\":\"f\",\"arguments\":\"12\"\x7d\x7d," ++
          text "\x7b\"id\":\"b\",\"type\":\"function\",\"function\":" ++
          text "\x7b\"name\":\"gh\",\"arguments\":\"\"\x7d\x7d]")
      else none
    snapshot dumps (feeds {} arrays) = some (.array (specs.map Spec.json)) := by
  intro specs function opening arrays dumps
  refine ((assembly_inverts_fragmentation dumps).1 specs arrays ?_ ?_).2
  · refine ⟨by decide, by decide, by decide, by decide, by decide, by decide, by decide, ?_⟩
    exact ⟨_, if_pos rfl, by decide +kernel⟩
  · refine ⟨?_, by decide +kernel, by decide +kernel, ?_⟩
    · have hsent : ∀ a ∈ arrays, a.isArray = true ∧ (∀ e ∈ a.elements, Formed e) ∧
          ((a.elements.map readDelta).map (·.index)).Nodup := by decide +kernel
      exact fun a ha => ⟨(hsent a ha).1, (hsent a ha).2.1, (hsent a ha).2.2⟩
    · have hfirst : Carries (own 0 (deltas arrays)) ⟨"a", "f", "12"⟩ :=
        ⟨by decide +kernel, by decide +kernel, by decide +kernel, by decide +kernel,
          by decide +kernel, by decide +kernel⟩
      have hsecond : Carries (own 1 (deltas arrays)) ⟨"b", "gh", ""⟩ :=
        ⟨by decide +kernel, by decide +kernel, by decide +kernel, by decide +kernel,
          by decide +kernel, by decide +kernel⟩
      intro k hk
      match k, hk with
      | 0, _ => exact hfirst
      | 1, _ => exact hsecond

end Recursant.StreamTools
