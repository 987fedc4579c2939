import Mathlib.Data.List.Basic

/-!
# Dictionaries in insertion order

A dictionary lists its keys in the order they were first set.  Setting a key it has replaces the
value in place; a key occurs once.
-/

variable {K V : Type} [DecidableEq K]

abbrev Dict (K V : Type) := List (K × V)

namespace Dict

def get? : Dict K V → K → Option V
  | [], _ => none
  | (k, v) :: d, key => if k = key then some v else get? d key

def set : Dict K V → K → V → Dict K V
  | [], key, value => [(key, value)]
  | (k, v) :: d, key, value => if k = key then (k, value) :: d else (k, v) :: set d key value

/-- The dictionary without the key. -/
def pop (d : Dict K V) (key : K) : Dict K V := d.filter (·.1 ≠ key)

/-- The dictionary with the other's pairs set one after the other. -/
def update (d : Dict K V) (pairs : List (K × V)) : Dict K V :=
  pairs.foldl (fun d p => d.set p.1 p.2) d

/-- The dictionary of a list of pairs: the last pair of a key decides. -/
def ofPairs (pairs : List (K × V)) : Dict K V := update [] pairs

@[simp] theorem get?_nil (key : K) : get? ([] : Dict K V) key = none := rfl

theorem get?_set (d : Dict K V) (key other : K) (value : V) :
    (d.set key value).get? other = if key = other then some value else d.get? other := by
  induction d with
  | nil => rfl
  | cons p d ih =>
      by_cases hkey : p.1 = key
      · rw [set, if_pos hkey, get?, get?, hkey]
        by_cases hother : key = other
        · rw [if_pos hother, if_pos hother]
        · rw [if_neg hother, if_neg hother, if_neg hother]
      · rw [set, if_neg hkey, get?, get?, ih]
        by_cases hfirst : p.1 = other
        · have hother : key ≠ other := fun h => hkey (hfirst.trans h.symm)
          rw [if_pos hfirst, if_pos hfirst, if_neg hother]
        · rw [if_neg hfirst, if_neg hfirst]

@[simp] theorem get?_set_self (d : Dict K V) (key : K) (value : V) :
    (d.set key value).get? key = some value := by
  rw [get?_set, if_pos rfl]

theorem get?_set_ne (d : Dict K V) {key other : K} (value : V) (h : other ≠ key) :
    (d.set key value).get? other = d.get? other := by
  rw [get?_set, if_neg (Ne.symm h)]

theorem get?_pop (d : Dict K V) (key other : K) :
    (d.pop key).get? other = if key = other then none else d.get? other := by
  unfold pop
  induction d with
  | nil => simp
  | cons p d ih =>
      by_cases hkey : p.1 = key
      · rw [List.filter_cons_of_neg (by simpa using hkey), ih, get?, hkey]
        by_cases hother : key = other
        · rw [if_pos hother, if_pos hother]
        · rw [if_neg hother, if_neg hother, if_neg hother]
      · rw [List.filter_cons_of_pos (by simpa using hkey), get?, get?, ih]
        by_cases hfirst : p.1 = other
        · have hother : key ≠ other := fun h => hkey (hfirst.trans h.symm)
          rw [if_pos hfirst, if_pos hfirst, if_neg hother]
        · rw [if_neg hfirst, if_neg hfirst]

@[simp] theorem get?_pop_self (d : Dict K V) (key : K) : (d.pop key).get? key = none := by
  rw [get?_pop, if_pos rfl]

theorem get?_pop_ne (d : Dict K V) {key other : K} (h : other ≠ key) :
    (d.pop key).get? other = d.get? other := by
  rw [get?_pop, if_neg (Ne.symm h)]

theorem length_le_set (d : Dict K V) (key : K) (value : V) :
    d.length ≤ (d.set key value).length := by
  induction d with
  | nil => exact Nat.zero_le _
  | cons p d ih =>
      rw [set]
      split
      · exact Nat.le_refl _
      · exact Nat.succ_le_succ ih

/-- A new key goes last. -/
theorem set_new {d : Dict K V} {key : K} (value : V) (h : key ∉ d.map Prod.fst) :
    d.set key value = d ++ [(key, value)] := by
  induction d with
  | nil => rfl
  | cons p d ih =>
      rw [List.map_cons, List.mem_cons, not_or] at h
      rw [set, if_neg (Ne.symm h.1), ih h.2, List.cons_append]

theorem update_new {d : Dict K V} {pairs : List (K × V)} (hnodup : (pairs.map Prod.fst).Nodup)
    (hnew : ∀ p ∈ pairs, p.1 ∉ d.map Prod.fst) : d.update pairs = d ++ pairs := by
  induction pairs generalizing d with
  | nil => exact (List.append_nil d).symm
  | cons p pairs ih =>
      rw [List.map_cons, List.nodup_cons] at hnodup
      have hset : d.set p.1 p.2 = d ++ [p] := set_new p.2 (hnew p List.mem_cons_self)
      have hrest : ∀ q ∈ pairs, q.1 ∉ (d ++ [p]).map Prod.fst := by
        intro q hq hmem
        rw [List.map_append, List.mem_append] at hmem
        cases hmem with
        | inl hold => exact hnew q (List.mem_cons_of_mem _ hq) hold
        | inr hlast =>
            rw [List.map_singleton, List.mem_singleton] at hlast
            exact hnodup.1 (hlast ▸ List.mem_map_of_mem hq)
      show (d.set p.1 p.2).update pairs = _
      rw [hset, ih hnodup.2 hrest, List.append_assoc, List.singleton_append]

theorem ofPairs_of_nodup {pairs : List (K × V)} (h : (pairs.map Prod.fst).Nodup) :
    ofPairs pairs = pairs := by
  unfold ofPairs
  rw [update_new h (by simp), List.nil_append]

end Dict
