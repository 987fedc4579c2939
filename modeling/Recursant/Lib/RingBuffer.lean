import Mathlib.Data.Nat.ModEq
import Mathlib.Data.List.GetD

/-!
# Ring buffers

A fixed array read from a start position on, with the positions after its last slot continuing at
the first.  What the occupied slots hold is a list, and the three ways a ring is used are what
they are on that list: writing behind the last occupied slot appends, moving the start forward
drops from the front, reading without wrapping takes from the front.
-/

namespace RingBuffer

variable {α : Type*}

/-- What `count` slots from `start` on hold, in order. -/
def contents (slots : Nat → α) (capacity start count : Nat) : List α :=
  (List.range count).map fun i => slots ((start + i) % capacity)

@[simp] theorem contents_length (slots : Nat → α) (capacity start count : Nat) :
    (contents slots capacity start count).length = count := by
  rw [contents, List.length_map, List.length_range]

@[simp] theorem contents_zero (slots : Nat → α) (capacity start : Nat) :
    contents slots capacity start 0 = [] := rfl

theorem contents_getElem (slots : Nat → α) {capacity start count i : Nat}
    (h : i < (contents slots capacity start count).length) :
    (contents slots capacity start count)[i] = slots ((start + i) % capacity) := by
  simp [contents]

theorem mem_contents {slots : Nat → α} {capacity start count : Nat} {x : α} :
    x ∈ contents slots capacity start count ↔
      ∃ i < count, slots ((start + i) % capacity) = x := by
  simp [contents]

/-- Two distances below the capacity reach one slot only when they are the same. -/
theorem index_inj {capacity start i j : Nat} (hi : i < capacity) (hj : j < capacity)
    (h : (start + i) % capacity = (start + j) % capacity) : i = j := by
  have hmod : i ≡ j [MOD capacity] := Nat.ModEq.add_left_cancel' start h
  rw [Nat.ModEq, Nat.mod_eq_of_lt hi, Nat.mod_eq_of_lt hj] at hmod
  exact hmod

theorem contents_congr (slots : Nat → α) {slots' : Nat → α} {capacity start count : Nat}
    (h : ∀ i < count, slots' ((start + i) % capacity) = slots ((start + i) % capacity)) :
    contents slots' capacity start count = contents slots capacity start count :=
  List.map_congr_left fun i hi => h i (List.mem_range.mp hi)

/-- The slots below `count` are left alone and the next ones hold `xs`. -/
theorem contents_append {slots slots' : Nat → α} {capacity start count : Nat} (xs : List α)
    (hold : ∀ i < count, slots' ((start + i) % capacity) = slots ((start + i) % capacity))
    (hnew : ∀ (i : Nat) (h : i < xs.length),
      slots' ((start + (count + i)) % capacity) = xs.get ⟨i, h⟩) :
    contents slots' capacity start (count + xs.length) =
      contents slots capacity start count ++ xs := by
  have hrange : List.range (count + xs.length) =
      List.range count ++ (List.range xs.length).map (count + ·) := List.range_add
  unfold contents
  rw [hrange, List.map_append, List.map_map]
  congr 1
  · exact contents_congr _ hold
  · apply List.ext_getElem
    · rw [List.length_map, List.length_range]
    · intro i hi hxs
      rw [List.getElem_map, List.getElem_range]
      exact hnew i hxs

/-- The slots with `xs` copied to those from `i` on. -/
def write (slots : Nat → α) (i : Nat) (xs : List α) (j : Nat) : α :=
  if i ≤ j then xs.getD (j - i) (slots j) else slots j

theorem write_of_outside (slots : Nat → α) {i j : Nat} (xs : List α)
    (h : j < i ∨ i + xs.length ≤ j) : write slots i xs j = slots j := by
  unfold write
  by_cases hle : i ≤ j
  · rw [if_pos hle, List.getD_eq_default _ _ (by omega)]
  · rw [if_neg hle]

theorem write_of_inside (slots : Nat → α) {i k : Nat} {xs : List α} (h : k < xs.length) :
    write slots i xs (i + k) = xs.get ⟨k, h⟩ := by
  unfold write
  rw [if_pos (Nat.le_add_right i k), Nat.add_sub_cancel_left, List.getD_eq_getElem _ _ h,
    List.get_eq_getElem]

/-- Copying behind the last occupied slot, not beyond the end of the array nor over an occupied
slot, appends. -/
theorem contents_write (slots : Nat → α) {capacity start count : Nat} (xs : List α)
    (hroom : count + xs.length ≤ capacity)
    (hwrap : (start + count) % capacity + xs.length ≤ capacity) :
    contents (write slots ((start + count) % capacity) xs) capacity start (count + xs.length) =
      contents slots capacity start count ++ xs := by
  by_cases hxs : xs.length = 0
  · rw [List.length_eq_zero_iff.mp hxs, List.append_nil, List.length_nil, Nat.add_zero]
    exact contents_congr _ fun i _ => write_of_outside slots [] (by rw [List.length_nil]; omega)
  apply contents_append
  · intro i hi
    apply write_of_outside
    -- A slot inside the copy would be reached from both distances.
    by_contra hinside
    rw [not_or, Nat.not_lt, Nat.not_le] at hinside
    obtain ⟨k, hk⟩ := Nat.exists_eq_add_of_le hinside.1
    have hcopied : (start + (count + k)) % capacity = (start + count) % capacity + k := by
      rw [← Nat.add_assoc, ← Nat.mod_add_mod, Nat.mod_eq_of_lt (a := _ + k) (by omega)]
    have hsame : i = count + k :=
      @index_inj _ start _ _ (by omega) (by omega) (hk.trans hcopied.symm)
    omega
  · intro i hi
    have hcopied : (start + (count + i)) % capacity = (start + count) % capacity + i := by
      rw [← Nat.add_assoc, ← Nat.mod_add_mod, Nat.mod_eq_of_lt (a := _ + i) (by omega)]
    rw [hcopied, write_of_inside slots hi]

/-- Moving the start `n` slots forward drops the first `n`. -/
theorem contents_drop (slots : Nat → α) (capacity start count n : Nat) :
    contents slots capacity ((start + n) % capacity) (count - n) =
      (contents slots capacity start count).drop n := by
  apply List.ext_getElem
  · rw [contents_length, List.length_drop, contents_length]
  · intro i hi hdrop
    rw [contents_getElem, List.getElem_drop, contents_getElem, Nat.mod_add_mod, Nat.add_assoc]

/-- The first `n` of them, as long as they do not wrap around. -/
theorem contents_take {slots : Nat → α} {capacity start count n : Nat} (hn : n ≤ count)
    (hwrap : start + n ≤ capacity) :
    (List.range n).map (fun i => slots (start + i)) =
      (contents slots capacity start count).take n := by
  apply List.ext_getElem
  · rw [List.length_map, List.length_range, List.length_take, contents_length, Nat.min_eq_left hn]
  · intro i hi htake
    rw [List.length_map, List.length_range] at hi
    have hlt : start + i < capacity := by omega
    rw [List.getElem_map, List.getElem_range, List.getElem_take, contents_getElem,
      Nat.mod_eq_of_lt hlt]

end RingBuffer
