import Mathlib.Data.List.Basic
import Mathlib.Tactic

/-!
# In-place compaction

A two-pointer loop overwrites the front of an array with the elements it keeps.  The test that
decides whether an element goes may read the whole array, stale copies included; the loop is a
filter as soon as that test only depends on elements which are themselves always kept.
-/

namespace Compaction

variable {α : Type*}

/-- `n` elements are still to be visited from index `i`; `kept` of the visited ones survive. -/
def loop (drop : List α → α → Bool) : Nat → Nat → Nat → List α → List α
  | 0, _, kept, xs => xs.take kept
  | n + 1, i, kept, xs =>
      match xs[i]? with
      | none => xs.take kept
      | some x =>
          if drop xs x then loop drop n (i + 1) kept xs
          else loop drop n (i + 1) (kept + 1) (xs.set kept x)

def compact (drop : List α → α → Bool) (xs : List α) : List α :=
  loop drop xs.length 0 0 xs

/-- `drop` sees an array only through the elements satisfying `anchor`, and drops none of them. -/
structure Stable (drop : List α → α → Bool) (anchor : α → Prop) (xs : List α) : Prop where
  anchored : ∀ x ∈ xs, anchor x → drop xs x = false
  congr : ∀ ys, (∀ x, anchor x → (x ∈ ys ↔ x ∈ xs)) → drop ys = drop xs

theorem set_length_append (front back : List α) (y x : α) :
    (front ++ y :: back).set front.length x = front ++ x :: back := by
  simp

/-- The working array while index `i` is visited: survivors first, then untouched elements. -/
theorem loop_eq_filter {drop : List α → α → Bool} {anchor : α → Prop} {xs : List α}
    (stable : Stable drop anchor xs) (n i : Nat) (hlen : i + n = xs.length) :
    loop drop n i ((xs.take i).filter fun x => !drop xs x).length
        ((xs.take i).filter (fun x => !drop xs x) ++
          xs.drop ((xs.take i).filter fun x => !drop xs x).length) =
      xs.filter fun x => !drop xs x := by
  induction n generalizing i with
  | zero =>
      have hi : xs.take i = xs := List.take_of_length_le (by omega)
      simp only [loop, hi, List.take_left']
  | succ n ih =>
      set front := (xs.take i).filter fun x => !drop xs x with hfront
      have hfrontLen : front.length ≤ i := by
        calc front.length ≤ (xs.take i).length := List.length_filter_le _ _
          _ ≤ i := by rw [List.length_take]; omega
      have hi : i < xs.length := by omega
      have hget : (front ++ xs.drop front.length)[i]? = some xs[i] := by
        rw [List.getElem?_append_right hfrontLen, List.getElem?_drop,
          show front.length + (i - front.length) = i by omega, List.getElem?_eq_getElem hi]
      have hsame : drop (front ++ xs.drop front.length) = drop xs := by
        apply stable.congr
        intro x hx
        constructor
        · intro hmem
          rcases List.mem_append.mp hmem with h | h
          · exact List.mem_of_mem_take (List.mem_of_mem_filter h)
          · exact List.mem_of_mem_drop h
        · intro hmem
          rw [← List.take_append_drop i xs] at hmem
          rcases List.mem_append.mp hmem with h | h
          · have hkeep := stable.anchored x (List.mem_of_mem_take h) hx
            exact List.mem_append_left _ (List.mem_filter.mpr ⟨h, by simp [hkeep]⟩)
          · apply List.mem_append_right
            rw [show i = front.length + (i - front.length) by omega, ← List.drop_drop] at h
            exact List.mem_of_mem_drop h
      have htake : xs.take (i + 1) = xs.take i ++ [xs[i]] := List.take_succ_eq_append_getElem hi
      rw [loop, hget]
      simp only [hsame]
      by_cases hdrop : drop xs xs[i] = true
      · have hnext : (xs.take (i + 1)).filter (fun x => !drop xs x) = front := by
          rw [htake, List.filter_append, ← hfront]
          simp [hdrop]
        have hstep := ih (i + 1) (by omega)
        rw [hnext] at hstep
        rw [if_pos hdrop]
        exact hstep
      · have hnext : (xs.take (i + 1)).filter (fun x => !drop xs x) = front ++ [xs[i]] := by
          rw [htake, List.filter_append, ← hfront]
          simp [hdrop]
        have hlt : front.length < xs.length := by omega
        have hset : (front ++ xs.drop front.length).set front.length xs[i] =
            (front ++ [xs[i]]) ++ xs.drop (front.length + 1) := by
          rw [List.drop_eq_getElem_cons hlt, set_length_append, List.append_assoc]
          rfl
        have hstep := ih (i + 1) (by omega)
        rw [hnext, List.length_append, List.length_singleton] at hstep
        rw [if_neg hdrop, hset]
        exact hstep

theorem compact_eq_filter {drop : List α → α → Bool} {anchor : α → Prop} {xs : List α}
    (stable : Stable drop anchor xs) :
    compact drop xs = xs.filter fun x => !drop xs x := by
  have h := loop_eq_filter stable xs.length 0 (by omega)
  simpa [compact] using h

end Compaction
