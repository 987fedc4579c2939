import Recursant.Lib.Delimited
import Recursant.Text

/-!
# JSON trees

Values as the linked JSON library hands them out.  An object keeps its members in order of first
insertion: setting a key that is there replaces its value in place, a new key goes last.  The
library's own reader and writers stay parameters.
-/

namespace Recursant

inductive Json where
  | null
  | bool (value : Bool)
  | integer (value : Int)
  | real (bits : UInt64)
  | string (value : Text)
  | array (elements : List Json)
  | object (members : List (Text × Json))

/-- The library calls whose text format the router relies on: `json_loadb` with
`JSON_REJECT_DUPLICATES | JSON_DECODE_ANY`, `json_dumps` with `JSON_COMPACT | JSON_ENCODE_ANY`, and
`json_dumps` with `JSON_COMPACT | JSON_SORT_KEYS`. -/
structure Jansson where
  loadb : Text → Option Json
  dumps : Json → Option Text
  dumpsSorted : Json → Option Text

namespace Json

/-! ## Equality -/

mutual

def decEq : (a b : Json) → Decidable (a = b)
  | .null, .null => isTrue rfl
  | .bool x, .bool y => if h : x = y then isTrue (h ▸ rfl) else isFalse fun e => h (bool.inj e)
  | .integer x, .integer y =>
      if h : x = y then isTrue (h ▸ rfl) else isFalse fun e => h (integer.inj e)
  | .real x, .real y => if h : x = y then isTrue (h ▸ rfl) else isFalse fun e => h (real.inj e)
  | .string x, .string y =>
      if h : x = y then isTrue (h ▸ rfl) else isFalse fun e => h (string.inj e)
  | .array xs, .array ys =>
      match decEqArray xs ys with
      | isTrue h => isTrue (h ▸ rfl)
      | isFalse h => isFalse fun e => h (array.inj e)
  | .object xs, .object ys =>
      match decEqObject xs ys with
      | isTrue h => isTrue (h ▸ rfl)
      | isFalse h => isFalse fun e => h (object.inj e)
  | .null, .bool _ | .null, .integer _ | .null, .real _ | .null, .string _ | .null, .array _
  | .null, .object _ | .bool _, .null | .bool _, .integer _ | .bool _, .real _ | .bool _, .string _
  | .bool _, .array _ | .bool _, .object _ | .integer _, .null | .integer _, .bool _
  | .integer _, .real _ | .integer _, .string _ | .integer _, .array _ | .integer _, .object _
  | .real _, .null | .real _, .bool _ | .real _, .integer _ | .real _, .string _ | .real _, .array _
  | .real _, .object _ | .string _, .null | .string _, .bool _ | .string _, .integer _
  | .string _, .real _ | .string _, .array _ | .string _, .object _ | .array _, .null
  | .array _, .bool _ | .array _, .integer _ | .array _, .real _ | .array _, .string _
  | .array _, .object _ | .object _, .null | .object _, .bool _ | .object _, .integer _
  | .object _, .real _ | .object _, .string _ | .object _, .array _ => isFalse nofun

def decEqArray : (xs ys : List Json) → Decidable (xs = ys)
  | [], [] => isTrue rfl
  | [], _ :: _ | _ :: _, [] => isFalse nofun
  | x :: xs, y :: ys =>
      match decEq x y, decEqArray xs ys with
      | isTrue h, isTrue hs => isTrue (h ▸ hs ▸ rfl)
      | isFalse h, _ => isFalse fun e => h (List.cons.inj e).1
      | _, isFalse hs => isFalse fun e => hs (List.cons.inj e).2

def decEqObject : (xs ys : List (Text × Json)) → Decidable (xs = ys)
  | [], [] => isTrue rfl
  | [], _ :: _ | _ :: _, [] => isFalse nofun
  | (k, x) :: xs, (l, y) :: ys =>
      match decEq x y, decEqObject xs ys with
      | isTrue h, isTrue hs =>
          if hk : k = l then isTrue (hk ▸ h ▸ hs ▸ rfl)
          else isFalse fun e => hk (Prod.mk.inj (List.cons.inj e).1).1
      | isFalse h, _ => isFalse fun e => h (Prod.mk.inj (List.cons.inj e).1).2
      | _, isFalse hs => isFalse fun e => hs (List.cons.inj e).2

end

instance : DecidableEq Json := decEq

/-! ## Access -/

/-- `json_object_get`, `none` for a missing key and for a value that is no object. -/
def get? (key : Text) : Json → Option Json
  | .object members => members.lookup key
  | _ => none

/-- `json_array_size`, zero for a value that is no array. -/
def size : Json → Nat
  | .array elements => elements.length
  | _ => 0

/-- `json_string_value`. -/
def text? : Json → Option Text
  | .string value => some value
  | _ => none

def isObject : Json → Bool
  | .object _ => true
  | _ => false

def isString : Json → Bool
  | .string _ => true
  | _ => false

def isBool : Json → Bool
  | .bool _ => true
  | _ => false

def isArray : Json → Bool
  | .array _ => true
  | _ => false

/-- The elements of an array, none for a value that is no array. -/
def elements : Json → List Json
  | .array elements => elements
  | _ => []

/-- The exact value of a finite double. -/
def realValue (bits : UInt64) : Option Rat :=
  let exponent := ((bits >>> 52) &&& 2047).toNat
  let fraction := (bits &&& 4503599627370495).toNat
  let sign : Rat := if bits >>> 63 = 0 then 1 else -1
  if exponent = 2047 then none
  else if exponent = 0 then some (sign * fraction / 2 ^ 1074)
  else some (sign * (fraction + 4503599627370496) * 2 ^ exponent / 2 ^ 1075)

/-- `json_number_value` of a number. -/
def number? : Json → Option Rat
  | .integer n => some n
  | .real bits => realValue bits
  | _ => none

/-! ### Comparison -/

/-- Both zeros are one value. -/
def realEqual (a b : UInt64) : Bool := a = b || (a <<< 1 = 0 && b <<< 1 = 0)

mutual

/-- `json_equal`: the members of an object may stand in any order. -/
def equal : Json → Json → Bool
  | .null, .null => true
  | .bool x, .bool y => x = y
  | .integer x, .integer y => x = y
  | .real x, .real y => realEqual x y
  | .string x, .string y => x = y
  | .array xs, .array ys => equalArray xs ys
  | .object xs, .object ys => xs.length = ys.length && equalObject xs ys
  | _, _ => false

def equalArray : List Json → List Json → Bool
  | [], [] => true
  | x :: xs, y :: ys => equal x y && equalArray xs ys
  | _, _ => false

def equalObject : List (Text × Json) → List (Text × Json) → Bool
  | [], _ => true
  | (k, x) :: xs, ys =>
      (match ys.lookup k with
        | some y => equal x y
        | none => false) && equalObject xs ys

end

/-! ## Update -/

def setMember (key : Text) (value : Json) : List (Text × Json) → List (Text × Json)
  | [] => [(key, value)]
  | member :: members =>
      if member.1 = key then (key, value) :: members else member :: setMember key value members

def delMember (key : Text) (members : List (Text × Json)) : List (Text × Json) :=
  members.filter (·.1 ≠ key)

/-- `json_object_set` and `json_object_set_new`, which fail without an object or without a
value. -/
def set? (body : Json) (key : Text) (value : Option Json) : Option Json :=
  match body, value with
  | .object members, some v => some (.object (setMember key v members))
  | _, _ => none

/-- `json_object_del`; deleting a missing key changes nothing. -/
def del (body : Json) (key : Text) : Json :=
  match body with
  | .object members => .object (delMember key members)
  | other => other

/-! ### Lookups after an update -/

theorem lookup_setMember (key k : Text) (v : Json) (members : List (Text × Json)) :
    (setMember key v members).lookup k = if k = key then some v else members.lookup k := by
  induction members with
  | nil =>
      rw [setMember, List.lookup_cons]
      by_cases h : k = key
      · simp [h]
      · simp [h, beq_false_of_ne h]
  | cons member members ih =>
      obtain ⟨name, value⟩ := member
      rw [setMember]
      by_cases hname : name = key
      · rw [if_pos hname, List.lookup_cons, List.lookup_cons, hname]
        by_cases h : k = key
        · simp [h]
        · simp [h, beq_false_of_ne h]
      · rw [if_neg hname, List.lookup_cons, List.lookup_cons, ih]
        by_cases h : k = name
        · have hkey : k ≠ key := h ▸ hname
          simp [h ▸ hkey, h]
        · simp [beq_false_of_ne h]

theorem lookup_delMember (key k : Text) (members : List (Text × Json)) :
    (delMember key members).lookup k = if k = key then none else members.lookup k := by
  induction members with
  | nil => simp [delMember]
  | cons member members ih =>
      obtain ⟨name, value⟩ := member
      unfold delMember at ih ⊢
      by_cases hname : name = key
      · rw [List.filter_cons_of_neg (by simp [hname]), ih, List.lookup_cons, hname]
        by_cases h : k = key
        · simp [h]
        · simp [h, beq_false_of_ne h]
      · rw [List.filter_cons_of_pos (by simp [hname]), List.lookup_cons, List.lookup_cons, ih]
        by_cases h : k = name
        · have hkey : k ≠ key := h ▸ hname
          simp [h ▸ hkey, h]
        · simp [beq_false_of_ne h]

/-- Putting the old value of a present key back restores the object. -/
theorem setMember_restore {key : Text} {old : Json} (new : Json) {members : List (Text × Json)}
    (h : members.lookup key = some old) : setMember key old (setMember key new members) = members := by
  induction members with
  | nil => cases h
  | cons member members ih =>
      obtain ⟨name, value⟩ := member
      rw [List.lookup_cons] at h
      rw [setMember]
      by_cases hname : name = key
      · rw [if_pos hname, setMember, if_pos rfl]
        rw [hname, beq_self_eq_true] at h
        rw [Option.some.inj h, hname]
      · rw [if_neg hname, setMember, if_neg hname]
        rw [beq_false_of_ne (Ne.symm hname)] at h
        rw [ih h]

theorem delMember_of_lookup_none {key : Text} {members : List (Text × Json)}
    (h : members.lookup key = none) : delMember key members = members := by
  unfold delMember
  rw [List.filter_eq_self]
  intro member hmember
  have hne := List.lookup_eq_none_iff.mp h member hmember
  simp only [ne_eq, decide_not, Bool.not_eq_true', decide_eq_false_iff_not]
  rintro rfl
  simp at hne

/-- Deleting a key that was added restores the object. -/
theorem delMember_setMember {key : Text} (new : Json) {members : List (Text × Json)}
    (h : members.lookup key = none) : delMember key (setMember key new members) = members := by
  induction members with
  | nil => simp [setMember, delMember]
  | cons member members ih =>
      obtain ⟨name, value⟩ := member
      rw [List.lookup_cons] at h
      have hname : name ≠ key := by
        rintro rfl
        simp at h
      rw [beq_false_of_ne (Ne.symm hname)] at h
      rw [setMember, if_neg hname]
      unfold delMember at ih ⊢
      rw [List.filter_cons_of_pos (by simp [hname]), ih h]

/-- With distinct keys, members are what lookups find. -/
theorem mem_iff_lookup {members : List (Text × Json)} (h : (members.map Prod.fst).Nodup)
    (key : Text) (v : Json) : (key, v) ∈ members ↔ members.lookup key = some v := by
  induction members with
  | nil => simp
  | cons member members ih =>
      obtain ⟨name, value⟩ := member
      rw [List.map_cons, List.nodup_cons] at h
      rw [List.mem_cons, List.lookup_cons, ih h.2]
      by_cases hname : key = name
      · have hnone : members.lookup name = none := by
          rw [List.lookup_eq_none_iff]
          intro other hother
          have hne : other.1 ≠ name := fun heq =>
            h.1 (List.mem_map.mpr ⟨other, hother, heq⟩)
          simpa using Ne.symm hne
        simp [hname, hnone, eq_comm]
      · simp [hname, beq_false_of_ne hname]

theorem get?_set? {body changed v : Json} {key : Text} (h : body.set? key (some v) = some changed)
    (k : Text) : changed.get? k = if k = key then some v else body.get? k := by
  cases body with
  | object members =>
      cases h
      exact lookup_setMember key k v members
  | _ => cases h

theorem get?_del {body : Json} (key k : Text) :
    (body.del key).get? k = if k = key then none else body.get? k := by
  cases body with
  | object members => exact lookup_delMember key k members
  | _ => simp [del, get?]

theorem set?_restore {body changed old : Json} {key : Text} {new : Json}
    (h : body.set? key (some new) = some changed) (hold : body.get? key = some old) :
    changed.set? key (some old) = some body := by
  cases body with
  | object members =>
      cases h
      exact congrArg (fun ms => some (object ms)) (setMember_restore new hold)
  | _ => cases h

theorem del_set? {body changed new : Json} {key : Text}
    (h : body.set? key (some new) = some changed) (hnew : body.get? key = none) :
    changed.del key = body := by
  cases body with
  | object members =>
      cases h
      exact congrArg object (delMember_setMember new hnew)
  | _ => cases h

/-! ### Distinct keys -/

/-- An object without a key twice. -/
def Distinct : Json → Prop
  | .object members => (members.map Prod.fst).Nodup
  | _ => False

theorem setMember_keys (key : Text) (v : Json) (members : List (Text × Json)) :
    (setMember key v members).map Prod.fst =
      if key ∈ members.map Prod.fst then members.map Prod.fst else members.map Prod.fst ++ [key] := by
  induction members with
  | nil => rfl
  | cons member members ih =>
      obtain ⟨name, value⟩ := member
      rw [setMember]
      by_cases hname : name = key
      · rw [if_pos hname, if_pos (by simp [hname])]
        simp [hname]
      · rw [if_neg hname, List.map_cons, ih, List.map_cons]
        by_cases hin : key ∈ members.map Prod.fst
        · rw [if_pos hin, if_pos (List.mem_cons_of_mem _ hin)]
        · rw [if_neg hin, if_neg (by
            rw [List.mem_cons, not_or]
            exact ⟨Ne.symm hname, hin⟩), List.cons_append]

theorem setMember_nodup (key : Text) (v : Json) {members : List (Text × Json)}
    (h : (members.map Prod.fst).Nodup) : ((setMember key v members).map Prod.fst).Nodup := by
  rw [setMember_keys]
  by_cases hin : key ∈ members.map Prod.fst
  · rw [if_pos hin]
    exact h
  · rw [if_neg hin]
    rw [← List.concat_eq_append]
    exact h.concat hin

theorem Distinct.set? {body changed v : Json} {key : Text} (h : body.Distinct)
    (hset : body.set? key (some v) = some changed) : changed.Distinct := by
  cases body with
  | object members =>
      cases hset
      exact setMember_nodup key v h
  | _ => cases h

theorem Distinct.del {body : Json} (h : body.Distinct) (key : Text) : (body.del key).Distinct := by
  cases body with
  | object members => exact h.sublist (List.filter_sublist.map Prod.fst)
  | _ => cases h

end Json

/-! ## Allowed members -/

def maxKey : Nat := 120

/-- `known_keys`: every key is found between separators in the text of allowed names. -/
def knownKeys (o : Json) (allowed : Text) : Bool :=
  match o with
  | .object members => members.all fun (k, _) =>
      k ≠ [] && !k.contains 124 && k.length ≤ maxKey && hasText (Delimited.token 124 k) allowed
  | _ => false

/-- Where the text of allowed names is the rendering of a list of names without separators, a known
object has no member outside the list. -/
theorem mem_of_knownKeys {members : List (Text × Json)} {allowed : Text} {names : List Text}
    (h : knownKeys (.object members) allowed = true) (hall : allowed = Delimited.render 124 names)
    (hnames : ∀ x ∈ names, (124 : Byte) ∉ x) : ∀ member ∈ members, member.1 ∈ names := by
  intro member hmember
  have hk := (List.all_eq_true.mp h) member hmember
  simp only [Bool.and_eq_true, decide_eq_true_eq, Bool.not_eq_true'] at hk
  have hbar : (124 : Byte) ∉ member.1 := by
    intro hin
    have hcontains := hk.1.1.2
    rw [List.contains_iff_mem.mpr hin] at hcontains
    cases hcontains
  have hinside := (hasText_iff _ _).mp hk.2
  rw [hall] at hinside
  exact Delimited.mem_of_token hbar hk.1.1.1 hnames hinside

end Recursant
