import Mathlib.Data.List.Sort
import Recursant.Compliance.Provenance
import Recursant.Equality
import Recursant.Lib.RingBuffer

/-!
# The ring behind the recorded output

`provenance.c` as it stores its record: a ring of entries with their hashes, and counters that are
machine words.  The texts in the ring are a queue of distinct canonical texts, and every call is
what it is on that queue.
-/

namespace Recursant

namespace ProvenanceRing

/-! ## The store -/

def sizeModulus : Nat := 2 ^ 64

/-- The bytes of `struct entry`. -/
def entrySize : Nat := 24

/-- `struct entry` -/
structure Entry where
  hash : UInt64
  value : Option Text
  bytes : Nat

/-- `struct rc_provenance` without its lock: each call holds it from beginning to end. -/
structure Store where
  ring : Nat → Entry
  capacity : Nat
  start : Nat
  count : Nat
  maxBytes : Nat
  bytes : Nat

def fnv (s : Text) : UInt64 :=
  s.foldl (fun h c => (h ^^^ c.toUInt64) * 1099511628211) 14695981039346656037

namespace Store

/-- The entry in the `i`th occupied slot. -/
def entry (p : Store) (i : Nat) : Entry := p.ring ((p.start + i) % sizeModulus % p.capacity)

def present (p : Store) (hash : UInt64) (value : Text) : Bool :=
  (List.range p.count).any fun i => (p.entry i).hash == hash && (p.entry i).value == some value

def forgetOldest (p : Store) : Store :=
  { p with
    bytes := (p.bytes + sizeModulus - (p.ring p.start).bytes) % sizeModulus
    ring := Function.update p.ring p.start { p.ring p.start with value := none }
    start := (p.start + 1) % sizeModulus % p.capacity
    count := (p.count + sizeModulus - 1) % sizeModulus }

/-- The guard of the loop that forgets, for a text of `bytes` bytes. -/
def crowded (p : Store) (bytes : Nat) : Bool :=
  p.count != 0 && (p.count == p.capacity || decide ((p.bytes + bytes) % sizeModulus > p.maxBytes))

/-- The loop that forgets.  It ends after `count` rounds at the latest, when the ring is empty. -/
def makeRoom (bytes : Nat) : Nat → Store → Store
  | 0, p => p
  | rounds + 1, p => if p.crowded bytes then makeRoom bytes rounds p.forgetOldest else p

/-- The entry goes behind the last occupied slot. -/
def store (p : Store) (value : Text) : Store :=
  { p with
    ring := Function.update p.ring ((p.start + p.count) % sizeModulus % p.capacity)
      ⟨fnv value, some value, value.length⟩
    count := (p.count + 1) % sizeModulus
    bytes := (p.bytes + value.length) % sizeModulus }

/-- One round of `rc_provenance_add`, with the number of elements added so far. -/
def addElement (jansson : Jansson) (state : Store × Nat) (element : Json) : Store × Nat :=
  match Provenance.canonical jansson element with
  | none => state
  | some value =>
      if value.length > state.1.maxBytes || state.1.present (fnv value) value then state
      else ((makeRoom value.length state.1.count state.1).store value, state.2 + 1)

end Store

/-- `rc_provenance_new`: no ring without entries, none where `calloc` cannot have the size. -/
def rcProvenanceNew (maxEntries maxBytes : Nat) : Option Store :=
  if maxEntries = 0 then none
  else if maxEntries * entrySize ≥ sizeModulus then none
  else some ⟨fun _ => ⟨0, none, 0⟩, maxEntries, 0, 0, maxBytes, 0⟩

/-- `rc_provenance_add`, with the number of elements added. -/
def rcProvenanceAdd (jansson : Jansson) (p : Store) : Json → Store × Nat
  | .array elements => elements.foldl (Store.addElement jansson) (p, 0)
  | _ => (p, 0)

/-- `rc_provenance_known` -/
def rcProvenanceKnown (jansson : Jansson) (p : Store) : Json → Bool
  | .array elements => !elements.isEmpty && elements.all fun element =>
      match Provenance.canonical jansson element with
      | none => false
      | some value => p.present (fnv value) value
  | _ => false

/-- A call on the store. -/
inductive Call where
  | add (elements : Json)
  | known (elements : Json)

inductive Answer where
  | added (number : Nat)
  | known (answer : Bool)
  deriving DecidableEq

def call (jansson : Jansson) (p : Store) : Call → Store × Answer
  | .add elements =>
      ((rcProvenanceAdd jansson p elements).1, .added (rcProvenanceAdd jansson p elements).2)
  | .known elements => (p, .known (rcProvenanceKnown jansson p elements))

/-- The calls one after another, with their answers. -/
def calls (jansson : Jansson) (p : Store) : List Call → Store × List Answer
  | [] => (p, [])
  | c :: cs =>
      ((calls jansson (call jansson p c).1 cs).1,
        (call jansson p c).2 :: (calls jansson (call jansson p c).1 cs).2)

/-! ## The queue -/

/-- A text of `size` bytes fits behind the texts. -/
def Fits (capacity maxBytes size : Nat) (q : List Text) : Prop :=
  q.length < capacity ∧ Provenance.bytes q + size ≤ maxBytes

/-- The length of the shortest run of oldest texts whose loss lets one of `size` bytes fit. -/
noncomputable def surplus (capacity maxBytes size : Nat) (q : List Text) : Nat :=
  sInf {k | Fits capacity maxBytes size (q.drop k)}

namespace Queue

section

local instance lawfulElements : LawfulBEq Text := inferInstance

/-- A new text within the limits goes last, after the shortest run of oldest texts that has to
give way; any other element changes nothing. -/
noncomputable def addElement (jansson : Jansson) (capacity maxBytes : Nat)
    (state : List Text × Nat) (element : Json) : List Text × Nat :=
  match Provenance.canonical jansson element with
  | none => state
  | some value =>
      if value.length ≤ maxBytes ∧ value ∉ state.1 then
        (state.1.drop (surplus capacity maxBytes value.length state.1) ++ [value], state.2 + 1)
      else state

end

/-- The array is not empty and the text of every element is in the queue. -/
def Known (jansson : Jansson) (q : List Text) (elements : Json) : Prop :=
  elements.elements ≠ [] ∧
    ∀ element ∈ elements.elements, ∃ value ∈ q, Provenance.canonical jansson element = some value

open Classical in
noncomputable def call (jansson : Jansson) (capacity maxBytes : Nat) (q : List Text) :
    Call → List Text × Answer
  | .add elements =>
      let r := elements.elements.foldl (addElement jansson capacity maxBytes) (q, 0)
      (r.1, .added r.2)
  | .known elements => (q, .known (decide (Known jansson q elements)))

noncomputable def calls (jansson : Jansson) (capacity maxBytes : Nat) (q : List Text) :
    List Call → List Text × List Answer
  | [] => (q, [])
  | c :: cs =>
      let r := call jansson capacity maxBytes q c
      let rest := calls jansson capacity maxBytes r.1 cs
      (rest.1, r.2 :: rest.2)

end Queue

theorem bytes_cons (v : Text) (q : List Text) :
    Provenance.bytes (v :: q) = v.length + Provenance.bytes q := by
  rw [Provenance.bytes, Provenance.bytes, List.map_cons, List.sum_cons]

theorem bytes_append (q r : List Text) :
    Provenance.bytes (q ++ r) = Provenance.bytes q + Provenance.bytes r := by
  rw [Provenance.bytes, Provenance.bytes, Provenance.bytes, List.map_append, List.sum_append]

theorem exists_fits {capacity maxBytes size : Nat} (hcapacity : 0 < capacity)
    (hsize : size ≤ maxBytes) (q : List Text) :
    {k | Fits capacity maxBytes size (q.drop k)}.Nonempty := by
  use q.length
  show Fits capacity maxBytes size (q.drop q.length)
  rw [List.drop_length]
  exact ⟨hcapacity, (Nat.zero_add size).le.trans hsize⟩

theorem fits_drop_surplus {capacity maxBytes size : Nat} (hcapacity : 0 < capacity)
    (hsize : size ≤ maxBytes) (q : List Text) :
    Fits capacity maxBytes size (q.drop (surplus capacity maxBytes size q)) :=
  Nat.sInf_mem (exists_fits hcapacity hsize q)

/-- The loop over the texts forgets just the surplus. -/
theorem makeRoom_eq_drop {p : Provenance} {size : Nat} (hcapacity : 0 < p.capacity)
    (hsize : size ≤ p.maxBytes) {q : List Text} (hq : q.length ≤ p.capacity) :
    p.makeRoom size q = q.drop (surplus p.capacity p.maxBytes size q) := by
  induction q with
  | nil => rw [Provenance.makeRoom, List.drop_nil]
  | cons oldest q ih =>
      have hlength : q.length + 1 ≤ p.capacity := hq
      rw [Provenance.makeRoom]
      by_cases hfits : Fits p.capacity p.maxBytes size (oldest :: q)
      · have hzero : surplus p.capacity p.maxBytes size (oldest :: q) = 0 :=
          Nat.sInf_eq_zero.mpr (.inl hfits)
        have hlt : (oldest :: q).length < p.capacity := hfits.1
        have hle : Provenance.bytes (oldest :: q) + size ≤ p.maxBytes := hfits.2
        rw [hzero, List.drop_zero, if_neg]
        simp only [Bool.or_eq_true, decide_eq_true_eq, not_or]
        omega
      · have hone : 1 ≤ surplus p.capacity p.maxBytes size (oldest :: q) := by
          rw [Nat.one_le_iff_ne_zero]
          intro hzero
          have hmem := fits_drop_surplus hcapacity hsize (oldest :: q)
          rw [hzero] at hmem
          exact hfits hmem
        have hsucc : surplus p.capacity p.maxBytes size q + 1 =
            surplus p.capacity p.maxBytes size (oldest :: q) :=
          Nat.sInf_add hone
        rw [← hsucc, List.drop_succ_cons, ← ih (Nat.le_of_succ_le hlength), if_pos]
        have hcrowded : ¬((oldest :: q).length < p.capacity ∧
            Provenance.bytes (oldest :: q) + size ≤ p.maxBytes) := hfits
        simp only [Bool.or_eq_true, decide_eq_true_eq]
        simp only [List.length_cons] at hcrowded ⊢
        omega

/-! ## The ring holds the queue -/

def entryOf (value : Text) : Entry := ⟨fnv value, some value, value.length⟩

/-- The ring with its counters stands for the queue `q`. -/
structure Represents (capacity maxBytes : Nat) (p : Store) (q : List Text) : Prop where
  capacity_eq : p.capacity = capacity
  maxBytes_eq : p.maxBytes = maxBytes
  holds : RingBuffer.contents p.ring p.capacity p.start p.count = q.map entryOf
  start_lt : p.start < p.capacity
  count_le : p.count ≤ p.capacity
  bytes_eq : p.bytes = Provenance.bytes q
  bytes_le : p.bytes ≤ p.maxBytes
  distinct : q.Nodup

/-- What a store has from its creation: an array that fits the memory, and limits of its caller
under which the sum of a full store and one more element is no larger than a machine word. -/
structure Limits (capacity maxBytes : Nat) : Prop where
  array : capacity * entrySize < sizeModulus
  room : maxBytes + provenanceElementMaxBytes < sizeModulus

theorem Represents.count_eq {capacity maxBytes : Nat} {p : Store} {q : List Text}
    (h : Represents capacity maxBytes p q) : p.count = q.length := by
  have hlength := congrArg List.length h.holds
  rwa [RingBuffer.contents_length, List.length_map] at hlength

/-- The sums of positions stay far below a machine word. -/
theorem Limits.index_eq {capacity maxBytes a b : Nat} (h : Limits capacity maxBytes)
    (ha : a ≤ capacity) (hb : b ≤ capacity) :
    (a + b) % sizeModulus % capacity = (a + b) % capacity := by
  have harray := h.array
  rw [entrySize] at harray
  have hlt : a + b < sizeModulus := by
    unfold sizeModulus at harray ⊢
    omega
  rw [Nat.mod_eq_of_lt hlt]

variable {capacity maxBytes : Nat} {p : Store} {q : List Text}

theorem Represents.mem_entry (h : Represents capacity maxBytes p q)
    (hlimits : Limits capacity maxBytes) (e : Entry) :
    (∃ i < p.count, p.entry i = e) ↔ e ∈ q.map entryOf := by
  rw [← h.holds, RingBuffer.mem_contents]
  have hindex : ∀ i < p.count, p.entry i = p.ring ((p.start + i) % p.capacity) := by
    intro i hi
    have hlimits' : Limits p.capacity maxBytes := h.capacity_eq ▸ hlimits
    rw [Store.entry, hlimits'.index_eq h.start_lt.le (hi.le.trans h.count_le)]
  constructor
  · rintro ⟨i, hi, hentry⟩
    exact ⟨i, hi, (hindex i hi).symm.trans hentry⟩
  · rintro ⟨i, hi, hentry⟩
    exact ⟨i, hi, (hindex i hi).trans hentry⟩

/-- Two texts of one hash are still told apart. -/
theorem Represents.present_iff (h : Represents capacity maxBytes p q)
    (hlimits : Limits capacity maxBytes) (value : Text) :
    p.present (fnv value) value = true ↔ value ∈ q := by
  rw [Store.present, List.any_eq_true]
  constructor
  · rintro ⟨i, hi, hfound⟩
    rw [Bool.and_eq_true, beq_iff_eq, beq_iff_eq] at hfound
    have hmem := (h.mem_entry hlimits (p.entry i)).mp ⟨i, List.mem_range.mp hi, rfl⟩
    obtain ⟨v, hv, hentry⟩ := List.mem_map.mp hmem
    rw [← hentry] at hfound
    have hvalue : v = value := Option.some.inj hfound.2
    exact hvalue ▸ hv
  · intro hvalue
    obtain ⟨i, hi, hentry⟩ :=
      (h.mem_entry hlimits (entryOf value)).mpr (List.mem_map.mpr ⟨value, hvalue, rfl⟩)
    use i, List.mem_range.mpr hi
    rw [hentry, entryOf, beq_self_eq_true, beq_self_eq_true, Bool.and_self]

/-- Forgetting takes the oldest text away, and its length off the counter without an underflow. -/
theorem Represents.forgetOldest {value : Text} (hlimits : Limits capacity maxBytes)
    (h : Represents capacity maxBytes p (value :: q)) :
    Represents capacity maxBytes p.forgetOldest q := by
  have hlimits' : Limits p.capacity maxBytes := h.capacity_eq ▸ hlimits
  have hstart := h.start_lt
  have hcount : p.count = q.length + 1 := h.count_eq
  have hle := h.count_le
  have hsmall : p.count < sizeModulus := by
    have harray := hlimits'.array
    rw [entrySize] at harray
    unfold sizeModulus at harray ⊢
    omega
  have hstart' : (p.start + 1) % sizeModulus % p.capacity = (p.start + 1) % p.capacity :=
    hlimits'.index_eq hstart.le (by omega)
  have hcount' : (p.count + sizeModulus - 1) % sizeModulus = p.count - 1 := by
    have hsum : p.count + sizeModulus - 1 = p.count - 1 + sizeModulus := by omega
    rw [hsum, Nat.add_mod_right, Nat.mod_eq_of_lt (by omega)]
  have hfirst : p.ring p.start = entryOf value := by
    have hlength : 0 < (RingBuffer.contents p.ring p.capacity p.start p.count).length := by
      rw [RingBuffer.contents_length]
      omega
    have hget := RingBuffer.contents_getElem p.ring hlength
    rw [Nat.add_zero, Nat.mod_eq_of_lt hstart] at hget
    rw [← hget]
    simp only [h.holds, List.map_cons, List.getElem_cons_zero]
  have hbytes : (p.bytes + sizeModulus - value.length) % sizeModulus = Provenance.bytes q := by
    have hsum := h.bytes_eq
    have hroom := hlimits.room
    have hbytes_le := h.bytes_le
    rw [h.maxBytes_eq] at hbytes_le
    rw [bytes_cons] at hsum
    have hdiff : p.bytes + sizeModulus - value.length = Provenance.bytes q + sizeModulus := by omega
    rw [hdiff, Nat.add_mod_right, Nat.mod_eq_of_lt (by omega)]
  constructor
  case capacity_eq => exact h.capacity_eq
  case maxBytes_eq => exact h.maxBytes_eq
  case start_lt => exact Nat.mod_lt _ (by omega)
  case count_le =>
    show (p.count + sizeModulus - 1) % sizeModulus ≤ p.capacity
    omega
  case bytes_eq =>
    show (p.bytes + sizeModulus - (p.ring p.start).bytes) % sizeModulus = _
    rw [hfirst]
    exact hbytes
  case bytes_le =>
    show (p.bytes + sizeModulus - (p.ring p.start).bytes) % sizeModulus ≤ p.maxBytes
    have hsum := h.bytes_eq
    have hbytes_le := h.bytes_le
    rw [bytes_cons] at hsum
    rw [hfirst, entryOf, hbytes]
    omega
  case distinct => exact (List.nodup_cons.mp h.distinct).2
  case holds =>
    show RingBuffer.contents (Function.update p.ring p.start _) p.capacity
      ((p.start + 1) % sizeModulus % p.capacity) ((p.count + sizeModulus - 1) % sizeModulus) = _
    rw [hstart', hcount', RingBuffer.contents_congr p.ring, RingBuffer.contents_drop,
      h.holds, List.map_cons, List.drop_one, List.tail_cons]
    -- the cleared slot is none of those that stay occupied
    intro i hi
    rw [Function.update_of_ne]
    intro hsame
    have hboth : (p.start + (1 + i)) % p.capacity = (p.start + 0) % p.capacity := by
      rw [← Nat.add_assoc, ← Nat.mod_add_mod, hsame, Nat.add_zero, Nat.mod_eq_of_lt hstart]
    have hzero := RingBuffer.index_inj (by omega) (by omega) hboth
    omega

/-- The loop leaves the texts that `Provenance.makeRoom` leaves. -/
theorem Represents.makeRoom {size : Nat} (hlimits : Limits capacity maxBytes)
    (hsize : size ≤ provenanceElementMaxBytes) (h : Represents capacity maxBytes p q) :
    Represents capacity maxBytes (Store.makeRoom size p.count p)
      (Provenance.makeRoom ⟨[], capacity, maxBytes⟩ size q) := by
  rw [h.count_eq]
  induction q generalizing p with
  | nil => exact h
  | cons value q ih =>
      have hcount := h.count_eq
      have hbytes_le := h.bytes_le
      have hroom := hlimits.room
      have hsum : (p.bytes + size) % sizeModulus = p.bytes + size := by
        rw [h.maxBytes_eq] at hbytes_le
        exact Nat.mod_eq_of_lt (by omega)
      have hcrowded : p.crowded size =
          (decide ((value :: q).length = capacity) ||
            decide (Provenance.bytes (value :: q) + size > maxBytes)) := by
        rw [Store.crowded, hsum, h.bytes_eq, h.maxBytes_eq, h.capacity_eq, hcount]
        simp
        rfl
      rw [List.length_cons, Store.makeRoom, hcrowded, Provenance.makeRoom]
      split
      · exact ih (h.forgetOldest hlimits)
      · exact h

/-- A new text goes last. -/
theorem Represents.store {value : Text} (hlimits : Limits capacity maxBytes)
    (h : Represents capacity maxBytes p q) (hfits : Fits capacity maxBytes value.length q)
    (hnew : value ∉ q) : Represents capacity maxBytes (p.store value) (q ++ [value]) := by
  have hlimits' : Limits p.capacity maxBytes := h.capacity_eq ▸ hlimits
  have hlength : q.length < capacity := hfits.1
  have hbytes : Provenance.bytes q + value.length ≤ maxBytes := hfits.2
  have hstart := h.start_lt
  have hcount := h.count_eq
  have harray := hlimits'.array
  have hroom := hlimits.room
  have hcapacity := h.capacity_eq
  have hcount' : (p.count + 1) % sizeModulus = p.count + 1 := by
    rw [entrySize] at harray
    apply Nat.mod_eq_of_lt
    unfold sizeModulus at harray ⊢
    omega
  have hbytes' : (p.bytes + value.length) % sizeModulus = Provenance.bytes q + value.length := by
    rw [h.bytes_eq]
    exact Nat.mod_eq_of_lt (by omega)
  have htail : (p.start + p.count) % sizeModulus % p.capacity = (p.start + p.count) % p.capacity :=
    hlimits'.index_eq hstart.le h.count_le
  constructor
  case capacity_eq => exact h.capacity_eq
  case maxBytes_eq => exact h.maxBytes_eq
  case start_lt => exact hstart
  case count_le =>
    show (p.count + 1) % sizeModulus ≤ p.capacity
    omega
  case bytes_eq =>
    show (p.bytes + value.length) % sizeModulus = _
    rw [hbytes', bytes_append, bytes_cons]
    rfl
  case bytes_le =>
    show (p.bytes + value.length) % sizeModulus ≤ p.maxBytes
    rw [hbytes', h.maxBytes_eq]
    exact hbytes
  case distinct =>
    rw [← List.concat_eq_append]
    exact h.distinct.concat hnew
  case holds =>
    show RingBuffer.contents (Function.update p.ring
      ((p.start + p.count) % sizeModulus % p.capacity) _) p.capacity p.start
      ((p.count + 1) % sizeModulus) = _
    rw [hcount', htail, List.map_append, ← h.holds]
    apply RingBuffer.contents_append [entryOf value]
    · intro i hi
      rw [Function.update_of_ne]
      intro hsame
      have hindex := RingBuffer.index_inj (by omega) (by omega) hsame
      omega
    · intro i hi
      obtain rfl : i = 0 := by
        rw [List.length_singleton] at hi
        omega
      rw [Nat.add_zero, Function.update_self]
      rfl

theorem canonical_length {jansson : Jansson} {element : Json} {value : Text}
    (h : Provenance.canonical jansson element = some value) :
    value.length ≤ provenanceElementMaxBytes := by
  unfold Provenance.canonical at h
  split at h
  · exact of_decide_eq_true (Option.filter_eq_some_iff.mp h).2
  · cases h

/-- One element. -/
theorem Represents.addElement (jansson : Jansson) (hlimits : Limits capacity maxBytes)
    (h : Represents capacity maxBytes p q) (n : Nat) (element : Json) :
    Represents capacity maxBytes (Store.addElement jansson (p, n) element).1
      (Queue.addElement jansson capacity maxBytes (q, n) element).1 ∧
    (Store.addElement jansson (p, n) element).2 =
      (Queue.addElement jansson capacity maxBytes (q, n) element).2 := by
  unfold Store.addElement Queue.addElement
  cases hcanonical : Provenance.canonical jansson element with
  | none => exact ⟨h, rfl⟩
  | some value =>
      have hsize := canonical_length hcanonical
      have hpresent := h.present_iff hlimits value
      have hguard : (decide (value.length > p.maxBytes) || p.present (fnv value) value) = true ↔
          ¬(value.length ≤ maxBytes ∧ value ∉ q) := by
        rw [Bool.or_eq_true, hpresent, decide_eq_true_eq, h.maxBytes_eq, not_and_or, not_not,
          Nat.not_le]
      dsimp only
      by_cases hnew : value.length ≤ maxBytes ∧ value ∉ q
      · have hlength : q.length ≤ capacity := by
          rw [← h.count_eq, ← h.capacity_eq]
          exact h.count_le
        have hcapacity : 0 < capacity := by
          have hstart := h.start_lt
          rw [h.capacity_eq] at hstart
          omega
        rw [if_neg (fun hskip => hguard.mp hskip hnew), if_pos hnew]
        have hroom := h.makeRoom hlimits hsize
        rw [makeRoom_eq_drop (p := ⟨[], capacity, maxBytes⟩) hcapacity hnew.1 hlength] at hroom
        refine ⟨hroom.store hlimits (fits_drop_surplus hcapacity hnew.1 q) ?_, rfl⟩
        exact fun hmem => hnew.2 (List.mem_of_mem_drop hmem)
      · rw [if_pos (hguard.mpr hnew), if_neg hnew]
        exact ⟨h, rfl⟩

theorem Represents.elements (jansson : Jansson) (hlimits : Limits capacity maxBytes)
    (h : Represents capacity maxBytes p q) (n : Nat) (elements : List Json) :
    Represents capacity maxBytes (elements.foldl (Store.addElement jansson) (p, n)).1
      (elements.foldl (Queue.addElement jansson capacity maxBytes) (q, n)).1 ∧
    (elements.foldl (Store.addElement jansson) (p, n)).2 =
      (elements.foldl (Queue.addElement jansson capacity maxBytes) (q, n)).2 := by
  induction elements generalizing p q n with
  | nil => exact ⟨h, rfl⟩
  | cons element elements ih =>
      have hone := h.addElement jansson hlimits n element
      rw [List.foldl_cons, List.foldl_cons]
      have hrest := ih hone.1 (Store.addElement jansson (p, n) element).2
      rwa [Prod.eta, hone.2, Prod.eta] at hrest

theorem Represents.known_iff {jansson : Jansson} (hlimits : Limits capacity maxBytes)
    (h : Represents capacity maxBytes p q) (elements : Json) :
    rcProvenanceKnown jansson p elements = true ↔ Queue.Known jansson q elements := by
  cases elements with
  | array xs =>
      have hone : ∀ element : Json, (match Provenance.canonical jansson element with
          | none => false
          | some value => p.present (fnv value) value) = true ↔
          ∃ value ∈ q, Provenance.canonical jansson element = some value := by
        intro element
        cases Provenance.canonical jansson element with
        | none => simp
        | some value =>
            dsimp only
            rw [h.present_iff hlimits]
            constructor
            · exact fun hvalue => ⟨value, hvalue, rfl⟩
            · rintro ⟨v, hv, hvalue⟩
              exact Option.some.inj hvalue ▸ hv
      rw [rcProvenanceKnown, Bool.and_eq_true, List.all_eq_true]
      show (!xs.isEmpty) = true ∧ _ ↔ xs ≠ [] ∧ ∀ element ∈ xs, _
      rw [Bool.not_eq_true', List.isEmpty_eq_false_iff]
      exact and_congr_right fun _ => forall₂_congr fun element _ => hone element
  | _ =>
      apply iff_of_false Bool.false_ne_true
      exact fun hknown => hknown.1 rfl

/-- One call. -/
theorem Represents.call (jansson : Jansson) (hlimits : Limits capacity maxBytes)
    (h : Represents capacity maxBytes p q) (c : Call) :
    Represents capacity maxBytes (call jansson p c).1 (Queue.call jansson capacity maxBytes q c).1 ∧
    (ProvenanceRing.call jansson p c).2 = (Queue.call jansson capacity maxBytes q c).2 := by
  cases c with
  | add elements =>
      cases elements with
      | array xs =>
          have hxs := h.elements jansson hlimits 0 xs
          exact ⟨hxs.1, congrArg Answer.added hxs.2⟩
      | _ => exact ⟨h, rfl⟩
  | known elements =>
      constructor
      · exact h
      · show Answer.known _ = Answer.known _
        congr 1
        rw [Bool.eq_iff_iff, h.known_iff hlimits]
        classical exact decide_eq_true_iff.symm

/-- Any number of calls. -/
theorem Represents.calls (jansson : Jansson) (hlimits : Limits capacity maxBytes)
    (h : Represents capacity maxBytes p q) (cs : List Call) :
    Represents capacity maxBytes (calls jansson p cs).1
      (Queue.calls jansson capacity maxBytes q cs).1 ∧
    (ProvenanceRing.calls jansson p cs).2 = (Queue.calls jansson capacity maxBytes q cs).2 := by
  induction cs generalizing p q with
  | nil => exact ⟨h, rfl⟩
  | cons c cs ih =>
      have hone := h.call jansson hlimits c
      have hrest := ih hone.1
      rw [ProvenanceRing.calls, Queue.calls]
      exact ⟨hrest.1, congrArg₂ List.cons hone.2 hrest.2⟩

/-- The texts in the occupied slots, oldest first. -/
def Store.texts (p : Store) : List Text :=
  (RingBuffer.contents p.ring p.capacity p.start p.count).filterMap Entry.value

theorem Represents.texts_eq (h : Represents capacity maxBytes p q) : p.texts = q := by
  rw [Store.texts, h.holds, List.filterMap_map]
  exact List.filterMap_some

theorem Represents.forget (hlimits : Limits capacity maxBytes)
    (h : Represents capacity maxBytes p q) {k : Nat} (hk : k ≤ q.length) :
    Represents capacity maxBytes (Store.forgetOldest^[k] p) (q.drop k) := by
  induction k generalizing p q with
  | zero => exact h
  | succ k ih =>
      cases q with
      | nil => cases hk
      | cons value q =>
          rw [Function.iterate_succ_apply, List.drop_succ_cons]
          exact ih (h.forgetOldest hlimits) (Nat.le_of_succ_le_succ hk)

theorem represents_new {maxEntries : Nat} (hnew : rcProvenanceNew maxEntries maxBytes = some p) :
    Represents maxEntries maxBytes p [] ∧ maxEntries * entrySize < sizeModulus := by
  unfold rcProvenanceNew at hnew
  split at hnew
  · cases hnew
  next hentries =>
    split at hnew
    · cases hnew
    next harray =>
      obtain rfl := Option.some.inj hnew
      constructor
      · exact ⟨rfl, rfl, rfl, Nat.pos_of_ne_zero hentries, Nat.zero_le _, rfl, Nat.zero_le _,
          List.nodup_nil⟩
      · omega

/-- Elements that differ in the order of members have one text. -/
theorem canonical_reordered {jansson : Jansson} {writer : Json → Option Text}
    (hwriter : ∀ v, jansson.dumpsSorted v = writer v.sortKeys) {v w : Json}
    (h : Json.Reordered v w) (hv : v.proper = true) :
    Provenance.canonical jansson v = Provenance.canonical jansson w := by
  rw [Provenance.canonical, Provenance.canonical, h.isObject_eq, hwriter, hwriter,
    (h.sortKeys_eq hv).1]

theorem elements_reordered {jansson : Jansson} {writer : Json → Option Text}
    (hwriter : ∀ v, jansson.dumpsSorted v = writer v.sortKeys) {v w : Json}
    (h : Json.Reordered v w) (hv : v.proper = true) :
    v.elements.map (Provenance.canonical jansson) = w.elements.map (Provenance.canonical jansson) ∧
      v.isArray = w.isArray := by
  induction h with
  | rfl v => exact ⟨rfl, rfl⟩
  | trans h _ ih ih' =>
      have hfirst := ih hv
      have hsecond := ih' (h.sortKeys_eq hv).2
      exact ⟨hfirst.1.trans hsecond.1, hfirst.2.trans hsecond.2⟩
  | members | inObject => exact ⟨rfl, rfl⟩
  | inArray xs ys h _ =>
      have hinner := Json.proper_array.mp hv _ (List.mem_append_right _ List.mem_cons_self)
      constructor
      · simp only [Json.elements, List.map_append, List.map_cons,
          canonical_reordered hwriter h hinner]
      · rfl

/-- A call looks at the texts of the elements only. -/
theorem call_congr {jansson : Jansson} (p : Store) {v w : Json}
    (h : v.elements.map (Provenance.canonical jansson) =
      w.elements.map (Provenance.canonical jansson)) (harray : v.isArray = w.isArray) :
    rcProvenanceAdd jansson p v = rcProvenanceAdd jansson p w ∧
      rcProvenanceKnown jansson p v = rcProvenanceKnown jansson p w := by
  have hlists : ∀ (xs ys : List Json) (state : Store × Nat),
      xs.map (Provenance.canonical jansson) = ys.map (Provenance.canonical jansson) →
      xs.foldl (Store.addElement jansson) state = ys.foldl (Store.addElement jansson) state ∧
      (xs.isEmpty = ys.isEmpty ∧ (∀ f : Option Text → Bool,
        (xs.all fun x => f (Provenance.canonical jansson x)) =
          ys.all fun y => f (Provenance.canonical jansson y))) := by
    intro xs
    induction xs with
    | nil =>
        intro ys state hmap
        obtain rfl := List.map_eq_nil_iff.mp hmap.symm
        exact ⟨rfl, rfl, fun _ => rfl⟩
    | cons x xs ih =>
        intro ys state hmap
        cases ys with
        | nil => cases hmap
        | cons y ys =>
            rw [List.map_cons, List.map_cons, List.cons.injEq] at hmap
            have hone : Store.addElement jansson state x = Store.addElement jansson state y := by
              rw [Store.addElement, Store.addElement, hmap.1]
            have hrest := ih ys (Store.addElement jansson state x) hmap.2
            refine ⟨?_, rfl, fun f => ?_⟩
            · rw [List.foldl_cons, List.foldl_cons, hrest.1, hone]
            · rw [List.all_cons, List.all_cons, hmap.1, hrest.2.2 f]
  cases v with
  | array xs =>
      cases w with
      | array ys =>
          have hxs := hlists xs ys (p, 0) h
          constructor
          · exact hxs.1
          · rw [rcProvenanceKnown, rcProvenanceKnown, hxs.2.1]
            exact congrArg _ (hxs.2.2 fun found => match found with
              | none => false
              | some value => p.present (fnv value) value)
      | _ => cases harray
  | _ =>
      cases w with
      | array ys => cases harray
      | _ => exact ⟨rfl, rfl⟩

/-! ### The record of the gate -/

/-- The record the gate consults changes as the queue does. -/
theorem provenance_addElement (jansson : Jansson) (hcapacity : 0 < capacity)
    (hlength : q.length ≤ capacity) (n : Nat) (element : Json) :
    Provenance.addElement jansson ⟨q, capacity, maxBytes⟩ element =
      ⟨(Queue.addElement jansson capacity maxBytes (q, n) element).1, capacity, maxBytes⟩ := by
  unfold Provenance.addElement Queue.addElement
  cases Provenance.canonical jansson element with
  | none => rfl
  | some value =>
      dsimp only
      have hguard : (decide (value.length > maxBytes) ||
          Provenance.present ⟨q, capacity, maxBytes⟩ value) = true ↔
          value.length > maxBytes ∨ value ∈ q := by
        rw [Bool.or_eq_true, decide_eq_true_eq, Provenance.present, List.contains_iff_mem]
      by_cases hnew : value.length ≤ maxBytes ∧ value ∉ q
      · have hkeep : ¬(value.length > maxBytes ∨ value ∈ q) := by
          rw [not_or, Nat.not_lt]
          exact hnew
        rw [if_pos hnew, if_neg (fun h => hkeep (hguard.mp h)),
          makeRoom_eq_drop (p := ⟨q, capacity, maxBytes⟩) hcapacity hnew.1 hlength]
      · have hskip : value.length > maxBytes ∨ value ∈ q := by
          rwa [not_and_or, not_not, Nat.not_le] at hnew
        rw [if_neg hnew, if_pos (hguard.mpr hskip)]

theorem Represents.provenance_elements (jansson : Jansson) (hlimits : Limits capacity maxBytes)
    (h : Represents capacity maxBytes p q) (n : Nat) (xs : List Json) :
    xs.foldl (Provenance.addElement jansson) ⟨q, capacity, maxBytes⟩ =
      ⟨(xs.foldl (Store.addElement jansson) (p, n)).1.texts, capacity, maxBytes⟩ := by
  induction xs generalizing p q n with
  | nil => rw [List.foldl_nil, List.foldl_nil, h.texts_eq]
  | cons x xs ih =>
      have hstart := h.start_lt
      have hcount := h.count_le
      rw [h.count_eq, h.capacity_eq] at hcount
      rw [h.capacity_eq] at hstart
      have hone := h.addElement jansson hlimits n x
      rw [List.foldl_cons, List.foldl_cons,
        provenance_addElement jansson (Nat.zero_lt_of_lt hstart) hcount n x, ih hone.1]

/-- What the other parts of the development know as the recorded output is the content of the
ring. -/
theorem Represents.provenance (jansson : Jansson) (hlimits : Limits capacity maxBytes)
    (h : Represents capacity maxBytes p q) (v : Json) :
    Provenance.add jansson ⟨p.texts, capacity, maxBytes⟩ v =
        ⟨(rcProvenanceAdd jansson p v).1.texts, capacity, maxBytes⟩ ∧
      Provenance.known jansson ⟨p.texts, capacity, maxBytes⟩ v = rcProvenanceKnown jansson p v := by
  constructor
  · cases v with
    | array xs =>
        rw [h.texts_eq]
        exact h.provenance_elements jansson hlimits 0 xs
    | _ => rfl
  · rw [Bool.eq_iff_iff, h.known_iff hlimits]
    cases v with
    | array xs =>
        rw [Provenance.known, Queue.Known, Bool.and_eq_true, decide_eq_true_eq,
          List.all_eq_true]
        apply and_congr_right
        intro _
        apply forall₂_congr
        intro x _
        rw [Option.any_eq_true, h.texts_eq]
        simp only [Provenance.present, List.contains_iff_mem]
        exact exists_congr fun value => and_comm
    | _ => exact iff_of_false Bool.false_ne_true fun hknown => hknown.1 rfl

/-! ### Every sequence of calls -/

/-- The ring refines a bounded queue of distinct texts: the answers and the content are those of
the queue after any calls, the counter is the sum of the stored lengths at every moment of the
forgetting, and the order of an object's members makes no difference. -/
theorem ring_refines_queue {jansson : Jansson} {writer : Json → Option Text}
    (hwriter : ∀ v, jansson.dumpsSorted v = writer v.sortKeys) {maxEntries maxBytes : Nat}
    {p : Store} (hnew : rcProvenanceNew maxEntries maxBytes = some p)
    (hroom : maxBytes + provenanceElementMaxBytes < sizeModulus) (cs : List Call) :
    (calls jansson p cs).2 = (Queue.calls jansson maxEntries maxBytes [] cs).2 ∧
    (calls jansson p cs).1.texts = (Queue.calls jansson maxEntries maxBytes [] cs).1 ∧
    (calls jansson p cs).1.texts.Nodup ∧
    (calls jansson p cs).1.count = (calls jansson p cs).1.texts.length ∧
    (calls jansson p cs).1.count ≤ maxEntries ∧
    (calls jansson p cs).1.bytes ≤ maxBytes ∧
    (∀ k ≤ (calls jansson p cs).1.count, (Store.forgetOldest^[k] (calls jansson p cs).1).bytes =
      Provenance.bytes ((calls jansson p cs).1.texts.drop k)) ∧
    ∀ v w : Json, Json.Reordered v w → v.proper = true →
      rcProvenanceAdd jansson (calls jansson p cs).1 v =
          rcProvenanceAdd jansson (calls jansson p cs).1 w ∧
        rcProvenanceKnown jansson (calls jansson p cs).1 v =
          rcProvenanceKnown jansson (calls jansson p cs).1 w := by
  have hempty := represents_new hnew
  have hlimits : Limits maxEntries maxBytes := ⟨hempty.2, hroom⟩
  have hrun := hempty.1.calls jansson hlimits cs
  have htexts := hrun.1.texts_eq
  refine ⟨hrun.2, htexts, ?_, ?_, ?_, ?_, ?_, ?_⟩
  · rw [htexts]
    exact hrun.1.distinct
  · rw [htexts]
    exact hrun.1.count_eq
  · rw [← hrun.1.capacity_eq]
    exact hrun.1.count_le
  · rw [← hrun.1.maxBytes_eq]
    exact hrun.1.bytes_le
  · intro k hk
    rw [htexts]
    exact (hrun.1.forget hlimits (hk.trans hrun.1.count_eq.le)).bytes_eq
  · intro v w hreordered hv
    have helements := elements_reordered hwriter hreordered hv
    exact call_congr _ helements.1 helements.2

/-- The text of an object of plain strings. -/
def plainObject : Json → Option Text
  | .object ms =>
      (ms.mapM fun (m : Text × Json) => m.2.text?.map fun t =>
        34 :: m.1 ++ [34, 58, 34] ++ t ++ [34]).map fun members =>
          123 :: List.intercalate [44] members ++ [125]
  | _ => none

def plainJansson : Jansson := ⟨fun _ => none, fun _ => none, fun v => plainObject v.sortKeys⟩

def thought (t : Text) : Json := .object [("type", .string "text"), ("text", .string t)]

/-- A ring of two entries: the third element drives the first one out. -/
theorem ring_refines_queue_sample :
    let p : Store := ⟨fun _ => ⟨0, none, 0⟩, 2, 0, 0, 256, 0⟩
    let cs : List Call := [.add (.array [thought "a", thought "b", thought "b"]),
      .known (.array [thought "a"]), .add (.array [thought "c"]), .known (.array [thought "a"]),
      .known (.array [thought "c", thought "b"])]
    (calls plainJansson p cs).2 = [.added 2, .known true, .added 1, .known false, .known true] ∧
      (calls plainJansson p cs).2 = (Queue.calls plainJansson 2 256 [] cs).2 := by
  intro p cs
  have hnew : rcProvenanceNew 2 256 = some p := rfl
  constructor
  · decide +kernel
  · exact (@ring_refines_queue _ plainObject (fun _ => rfl) _ _ _ hnew (by decide) cs).1

end ProvenanceRing

end Recursant
