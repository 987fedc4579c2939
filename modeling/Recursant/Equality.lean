import Mathlib.Data.List.Perm.Subperm
import Mathlib.Data.List.Sort
import Recursant.Json

/-!
# Deep equality

What `json_equal` says about two values, and the values it is an equality on: those without a key
twice anywhere, which is what the reader returns when it rejects duplicates.
-/

namespace Recursant.Json

/-! ## Values without a key twice -/

mutual

/-- No object in the value has a key twice. -/
def proper : Json → Bool
  | .array xs => properArray xs
  | .object ms => (ms.map Prod.fst).Nodup && properObject ms
  | _ => true

def properArray : List Json → Bool
  | [] => true
  | x :: xs => proper x && properArray xs

def properObject : List (Text × Json) → Bool
  | [] => true
  | (_, x) :: ms => proper x && properObject ms

end

theorem proper_array {xs : List Json} : (array xs).proper = true ↔ ∀ x ∈ xs, x.proper = true := by
  rw [proper]
  induction xs with
  | nil => exact iff_of_true rfl fun x hx => absurd hx List.not_mem_nil
  | cons x xs ih => rw [properArray, Bool.and_eq_true, ih, List.forall_mem_cons]

theorem proper_object {ms : List (Text × Json)} : (object ms).proper = true ↔
    (ms.map Prod.fst).Nodup ∧ ∀ m ∈ ms, m.2.proper = true := by
  have hmembers : properObject ms = true ↔ ∀ m ∈ ms, m.2.proper = true := by
    induction ms with
    | nil => exact iff_of_true rfl fun m hm => absurd hm List.not_mem_nil
    | cons m ms ih =>
        obtain ⟨k, x⟩ := m
        rw [properObject, Bool.and_eq_true, ih, List.forall_mem_cons]
  rw [proper, Bool.and_eq_true, decide_eq_true_eq, hmembers]

theorem mem_of_lookup {ms : List (Text × Json)} {k : Text} {x : Json} (h : ms.lookup k = some x) :
    (k, x) ∈ ms := by
  induction ms with
  | nil => cases h
  | cons m ms ih =>
      obtain ⟨k', y⟩ := m
      rw [List.lookup_cons] at h
      by_cases hk : k = k'
      · rw [hk, beq_self_eq_true] at h
        obtain rfl := Option.some.inj h
        rw [hk]
        exact List.mem_cons_self
      · rw [beq_false_of_ne hk] at h
        exact List.mem_cons_of_mem _ (ih h)

theorem proper_get {v x : Json} {k : Text} (h : v.proper = true) (hget : v.get? k = some x) :
    x.proper = true := by
  cases v with
  | object ms => exact (proper_object.mp h).2 _ (mem_of_lookup hget)
  | _ => cases hget

theorem proper_elements {v : Json} (h : v.proper = true) : ∀ x ∈ v.elements, x.proper = true := by
  cases v with
  | array xs => exact proper_array.mp h
  | _ => exact fun x hx => absurd hx List.not_mem_nil

/-! ## Equal values -/

theorem equal_string {x : Json} {s : Text} : equal x (.string s) = true ↔ x = .string s := by
  cases x with
  | string s' =>
      rw [equal, decide_eq_true_eq]
      exact ⟨fun h => h ▸ rfl, string.inj⟩
  | _ => exact ⟨fun h => absurd h Bool.false_ne_true, fun h => by cases h⟩

theorem equal_null {x : Json} : equal x .null = true ↔ x = .null := by
  cases x with
  | null => exact iff_of_true rfl rfl
  | _ => exact ⟨fun h => absurd h Bool.false_ne_true, fun h => by cases h⟩

theorem equalArray_iff {xs ys : List Json} :
    equalArray xs ys = true ↔ List.Forall₂ (fun x y => equal x y = true) xs ys := by
  induction xs generalizing ys with
  | nil =>
      cases ys with
      | nil => exact iff_of_true rfl .nil
      | cons y ys => exact ⟨fun h => (nomatch h), fun h => (nomatch h)⟩
  | cons x xs ih =>
      cases ys with
      | nil => exact ⟨fun h => (nomatch h), fun h => (nomatch h)⟩
      | cons y ys => rw [equalArray, Bool.and_eq_true, ih, List.forall₂_cons]

theorem equalObject_iff {xs ys : List (Text × Json)} : equalObject xs ys = true ↔
    ∀ m ∈ xs, ∃ y, ys.lookup m.1 = some y ∧ equal m.2 y = true := by
  induction xs with
  | nil => exact iff_of_true (by rw [equalObject]) fun m hm => absurd hm List.not_mem_nil
  | cons m xs ih =>
      obtain ⟨k, x⟩ := m
      rw [equalObject, Bool.and_eq_true, ih, List.forall_mem_cons]
      refine and_congr_left fun _ => ?_
      cases ys.lookup k with
      | none => exact ⟨fun h => (nomatch h), fun ⟨y, h, _⟩ => (nomatch h)⟩
      | some y =>
          constructor
          · exact fun h => ⟨y, rfl, h⟩
          · rintro ⟨y', hy, h⟩
            obtain rfl := Option.some.inj hy
            exact h

/-- Every proper value is equal to itself. -/
theorem equal_refl {v : Json} (h : v.proper = true) : equal v v = true := by
  match v with
  | .null => rfl
  | .bool x => rw [equal, decide_eq_true_eq]
  | .integer x => rw [equal, decide_eq_true_eq]
  | .real x => rw [equal, realEqual, decide_eq_true rfl, Bool.true_or]
  | .string x => rw [equal, decide_eq_true_eq]
  | .array xs =>
      rw [equal, equalArray_iff, List.forall₂_same]
      exact fun x hx => equal_refl (proper_array.mp h x hx)
  | .object ms =>
      obtain ⟨hnodup, hall⟩ := proper_object.mp h
      rw [equal, decide_eq_true rfl, Bool.true_and, equalObject_iff]
      exact fun m hm => ⟨m.2, (mem_iff_lookup hnodup m.1 m.2).mp hm, equal_refl (hall m hm)⟩
termination_by sizeOf v
decreasing_by
  · have := List.sizeOf_lt_of_mem hx
    simp only [array.sizeOf_spec]
    omega
  · have := List.sizeOf_lt_of_mem hm
    have hpair : sizeOf m.2 < sizeOf m := by
      obtain ⟨k, x⟩ := m
      simp only [Prod.mk.sizeOf_spec]
      omega
    simp only [object.sizeOf_spec]
    omega

theorem equal_isObject {v w : Json} (h : equal v w = true) : v.isObject = w.isObject := by
  cases v <;> cases w <;> first | rfl | cases h

theorem equal_isString {v w : Json} (h : equal v w = true) : v.isString = w.isString := by
  cases v <;> cases w <;> first | rfl | cases h

theorem equal_isArray {v w : Json} (h : equal v w = true) : v.isArray = w.isArray := by
  cases v <;> cases w <;> first | rfl | cases h

theorem equal_elements {v w : Json} (h : equal v w = true) :
    List.Forall₂ (fun x y => equal x y = true) v.elements w.elements := by
  cases v <;> cases w <;> first | exact .nil | skip
  case array.array xs ys =>
    rw [equal] at h
    exact equalArray_iff.mp h
  all_goals cases h

/-- Equal objects have the same keys, with equal values. -/
theorem equal_get {v w : Json} (h : equal v w = true) (hv : v.proper = true) (k : Text) :
    (v.get? k = none ∧ w.get? k = none) ∨
      ∃ x y, v.get? k = some x ∧ w.get? k = some y ∧ equal x y = true := by
  cases v with
  | object xs =>
      cases w with
      | object ys =>
          rw [equal, Bool.and_eq_true, decide_eq_true_eq, equalObject_iff] at h
          obtain ⟨hlength, hall⟩ := h
          obtain ⟨hnodup, -⟩ := proper_object.mp hv
          have hsub : xs.map Prod.fst ⊆ ys.map Prod.fst := by
            intro key hkey
            obtain ⟨m, hm, rfl⟩ := List.mem_map.mp hkey
            obtain ⟨y, hy, -⟩ := hall m hm
            exact List.mem_map.mpr ⟨(m.1, y), mem_of_lookup hy, rfl⟩
          have hperm : (xs.map Prod.fst).Perm (ys.map Prod.fst) :=
            (List.subperm_of_subset hnodup hsub).perm_of_length_le (by
              rw [List.length_map, List.length_map, hlength])
          show (xs.lookup k = none ∧ ys.lookup k = none) ∨ _
          cases hx : xs.lookup k with
          | some x =>
              obtain ⟨y, hy, hxy⟩ := hall _ (mem_of_lookup hx)
              exact .inr ⟨x, y, hx, hy, hxy⟩
          | none =>
              left
              refine ⟨rfl, ?_⟩
              cases hy : ys.lookup k with
              | none => rfl
              | some y =>
                  have hkey : k ∈ xs.map Prod.fst :=
                    hperm.mem_iff.mpr (List.mem_map.mpr ⟨(k, y), mem_of_lookup hy, rfl⟩)
                  obtain ⟨m, hm, rfl⟩ := List.mem_map.mp hkey
                  rw [(mem_iff_lookup hnodup m.1 m.2).mp hm] at hx
                  cases hx
      | _ => cases h
  | _ =>
      cases w with
      | object ys => cases h
      | _ => exact .inl ⟨rfl, rfl⟩

/-! ## Key order -/

def keyLe (m n : Text × Json) : Prop := m.1 ≤ n.1

instance : DecidableRel keyLe := fun m n => inferInstanceAs (Decidable (m.1 ≤ n.1))

instance : Std.Total keyLe := ⟨fun _ _ => Std.le_total⟩

instance : IsTrans (Text × Json) keyLe := ⟨fun _ _ _ h g => List.le_trans h g⟩

mutual

/-- The value with the members of every object in the order of their keys, which is how
`JSON_SORT_KEYS` writes it. -/
def sortKeys : Json → Json
  | .array xs => .array (sortKeysArray xs)
  | .object ms => .object ((sortKeysObject ms).insertionSort keyLe)
  | v => v

def sortKeysArray : List Json → List Json
  | [] => []
  | x :: xs => sortKeys x :: sortKeysArray xs

def sortKeysObject : List (Text × Json) → List (Text × Json)
  | [] => []
  | (k, x) :: ms => (k, sortKeys x) :: sortKeysObject ms

end

/-- The same value up to the order in which members stand, at any depth. -/
inductive Reordered : Json → Json → Prop where
  | rfl (v : Json) : Reordered v v
  | trans {u v w : Json} : Reordered u v → Reordered v w → Reordered u w
  | members {ms ns : List (Text × Json)} : ms.Perm ns → Reordered (.object ms) (.object ns)
  | inObject {v w : Json} (k : Text) (ms ns : List (Text × Json)) :
      Reordered v w → Reordered (.object (ms ++ (k, v) :: ns)) (.object (ms ++ (k, w) :: ns))
  | inArray {v w : Json} (xs ys : List Json) :
      Reordered v w → Reordered (.array (xs ++ v :: ys)) (.array (xs ++ w :: ys))

theorem sortKeysArray_eq (xs : List Json) : sortKeysArray xs = xs.map sortKeys := by
  induction xs with
  | nil => rfl
  | cons x xs ih => rw [sortKeysArray, ih, List.map_cons]

theorem sortKeysObject_eq (ms : List (Text × Json)) :
    sortKeysObject ms = ms.map fun m => (m.1, sortKeys m.2) := by
  induction ms with
  | nil => rfl
  | cons m ms ih => rw [sortKeysObject, ih, List.map_cons]

theorem sortKeysObject_keys (ms : List (Text × Json)) :
    (sortKeysObject ms).map Prod.fst = ms.map Prod.fst := by
  rw [sortKeysObject_eq, List.map_map]
  rfl

/-- Without a key twice, the sorted members do not depend on the order they are given in. -/
theorem insertionSort_perm {ms ns : List (Text × Json)} (h : ms.Perm ns)
    (hms : (ms.map Prod.fst).Nodup) : ms.insertionSort keyLe = ns.insertionSort keyLe := by
  have hsorted : (ms.insertionSort keyLe).Perm (ns.insertionSort keyLe) :=
    ((List.perm_insertionSort keyLe ms).trans h).trans (List.perm_insertionSort keyLe ns).symm
  apply hsorted.eq_of_pairwise _ (List.pairwise_insertionSort keyLe ms)
    (List.pairwise_insertionSort keyLe ns)
  intro m n hm hn hmn hnm
  have hkey : m.1 = n.1 := List.le_antisymm hmn hnm
  have hm' : m ∈ ms := List.mem_insertionSort keyLe |>.mp hm
  have hn' : n ∈ ms := h.mem_iff.mpr (List.mem_insertionSort keyLe |>.mp hn)
  exact List.inj_on_of_nodup_map hms hm' hn' hkey

theorem Reordered.sortKeys_eq {v w : Json} (h : Reordered v w) (hv : v.proper = true) :
    v.sortKeys = w.sortKeys ∧ w.proper = true := by
  induction h with
  | rfl v => exact ⟨Eq.refl _, hv⟩
  | trans _ _ ih ih' =>
      have hfirst := ih hv
      have hsecond := ih' hfirst.2
      exact ⟨hfirst.1.trans hsecond.1, hsecond.2⟩
  | @members ms ns hperm =>
      have hms := proper_object.mp hv
      have hkeys : ((sortKeysObject ms).map Prod.fst).Nodup := by
        rw [sortKeysObject_keys]
        exact hms.1
      have hsorted : (sortKeysObject ms).Perm (sortKeysObject ns) := by
        rw [sortKeysObject_eq, sortKeysObject_eq]
        exact hperm.map _
      constructor
      · rw [sortKeys, sortKeys, insertionSort_perm hsorted hkeys]
      · rw [proper_object]
        exact ⟨(hperm.map Prod.fst).nodup_iff.mp hms.1,
          fun m hm => hms.2 m (hperm.mem_iff.mpr hm)⟩
  | inObject k ms ns _ ih =>
      have hms := proper_object.mp hv
      have hinner := ih (hms.2 _ (List.mem_append_right _ List.mem_cons_self))
      constructor
      · rw [sortKeys, sortKeys, sortKeysObject_eq, sortKeysObject_eq]
        simp only [List.map_append, List.map_cons, hinner.1]
      · rw [proper_object]
        constructor
        · have hnodup := hms.1
          rw [List.map_append, List.map_cons] at hnodup ⊢
          exact hnodup
        · intro m hm
          rw [List.mem_append, List.mem_cons] at hm
          cases hm with
          | inl hm => exact hms.2 m (List.mem_append_left _ hm)
          | inr hm =>
              cases hm with
              | inl hm => exact hm ▸ hinner.2
              | inr hm => exact hms.2 m (List.mem_append_right _ (List.mem_cons_of_mem _ hm))
  | inArray xs ys _ ih =>
      have hxs := proper_array.mp hv
      have hinner := ih (hxs _ (List.mem_append_right _ List.mem_cons_self))
      constructor
      · rw [sortKeys, sortKeys, sortKeysArray_eq, sortKeysArray_eq]
        simp only [List.map_append, List.map_cons, hinner.1]
      · rw [proper_array]
        intro x hx
        rw [List.mem_append, List.mem_cons] at hx
        cases hx with
        | inl hx => exact hxs x (List.mem_append_left _ hx)
        | inr hx =>
            cases hx with
            | inl hx => exact hx ▸ hinner.2
            | inr hx => exact hxs x (List.mem_append_right _ (List.mem_cons_of_mem _ hx))

theorem Reordered.isObject_eq {v w : Json} (h : Reordered v w) : v.isObject = w.isObject := by
  induction h with
  | rfl v => rfl
  | trans _ _ ih ih' => exact ih.trans ih'
  | members | inObject | inArray => rfl

end Recursant.Json
