import Recursant.Json

/-!
# JSON Schema

When a value satisfies a schema, for the keywords of enumerated strings, bounded arrays and closed
objects.  A keyword that is not there asks for nothing.
-/

namespace Recursant.JsonSchema

/-- The value has the type of this name. -/
def hasType (v : Json) (name : Text) : Bool :=
  if name = text "string" then v.isString
  else if name = text "array" then v.isArray
  else name = text "object" && v.isObject

/-- The schema of a property. -/
def property (schema : Json) (name : Text) : Option Json :=
  (schema.get? "properties").bind (Json.get? name)

inductive Satisfies : Json → Json → Prop where
  | intro {schema v : Json}
      (type : ∀ name, schema.get? "type" = some (.string name) → hasType v name = true)
      (enum : ∀ values, schema.get? "enum" = some (.array values) → v ∈ values)
      (minItems : ∀ n, schema.get? "minItems" = some (.integer n) → v.isArray = true → n ≤ v.size)
      (maxItems : ∀ n, schema.get? "maxItems" = some (.integer n) → v.isArray = true → v.size ≤ n)
      (items : ∀ s, schema.get? "items" = some s → ∀ x ∈ v.elements, Satisfies s x)
      (required : ∀ names, schema.get? "required" = some (.array names) →
        ∀ members, v = .object members → ∀ name, .string name ∈ names → v.get? name ≠ none)
      (properties : ∀ name s x, property schema name = some s → v.get? name = some x →
        Satisfies s x)
      (additional : schema.get? "additionalProperties" = some (.bool false) →
        ∀ members, v = .object members → ∀ m ∈ members, property schema m.1 ≠ none) :
      Satisfies schema v

/-- A string that is one of these. -/
def stringEnum (values : List Text) : Json :=
  .object [(text "type", .string "string"), (text "enum", .array (values.map .string))]

/-- An array of such strings, within bounds of its length. -/
def enumArray (min max : Nat) (values : List Text) : Json :=
  .object [(text "type", .string "array"), (text "minItems", .integer min),
    (text "maxItems", .integer max), (text "items", stringEnum values)]

/-- An object with these members, all of them required, and no others. -/
def closedObject (properties : List (Text × Json)) (required : List Text) : Json :=
  .object [(text "type", .string "object"), (text "additionalProperties", .bool false),
    (text "properties", .object properties), (text "required", .array (required.map .string))]

theorem satisfies_stringEnum {values : List Text} {v : Json} :
    Satisfies (stringEnum values) v ↔ ∃ s ∈ values, v = .string s := by
  constructor
  · rintro ⟨-, henum, -⟩
    obtain ⟨s, hs, rfl⟩ := List.mem_map.mp (henum _ rfl)
    exact ⟨s, hs, rfl⟩
  · rintro ⟨s, hs, rfl⟩
    refine .intro ?_ ?_ nofun nofun nofun nofun nofun nofun
    · rintro _ ⟨⟩
      rfl
    · rintro _ ⟨⟩
      exact List.mem_map_of_mem hs

theorem strings_of_forall {es : List Json} {P : Text → Prop}
    (h : ∀ e ∈ es, ∃ s, P s ∧ e = .string s) :
    ∃ refs : List Text, es = refs.map .string ∧ ∀ r ∈ refs, P r := by
  induction es with
  | nil => exact ⟨[], rfl, nofun⟩
  | cons e es ih =>
      rw [List.forall_mem_cons] at h
      obtain ⟨⟨s, hs, rfl⟩, hrest⟩ := h
      obtain ⟨refs, rfl, hrefs⟩ := ih hrest
      exact ⟨s :: refs, rfl, List.forall_mem_cons.mpr ⟨hs, hrefs⟩⟩

theorem satisfies_enumArray {min max : Nat} {values : List Text} {v : Json} :
    Satisfies (enumArray min max values) v ↔ ∃ refs : List Text, v = .array (refs.map .string) ∧
      min ≤ refs.length ∧ refs.length ≤ max ∧ ∀ r ∈ refs, r ∈ values := by
  constructor
  · rintro ⟨htype, -, hmin, hmax, hitems, -⟩
    have harray := htype "array" rfl
    cases v with
    | array es =>
        obtain ⟨refs, rfl, hin⟩ := strings_of_forall fun e he =>
          satisfies_stringEnum.mp (hitems _ rfl e he)
        have hmin := hmin _ rfl rfl
        have hmax := hmax _ rfl rfl
        simp only [Json.size, List.length_map, Nat.cast_le] at hmin hmax
        exact ⟨refs, rfl, hmin, hmax, hin⟩
    | null | bool | integer | real | string | object => cases harray
  · rintro ⟨refs, rfl, hmin, hmax, hin⟩
    refine .intro ?_ nofun ?_ ?_ ?_ nofun nofun nofun
    · rintro _ ⟨⟩
      rfl
    · rintro _ ⟨⟩ -
      simpa only [Json.size, List.length_map, Nat.cast_le] using hmin
    · rintro _ ⟨⟩ -
      simpa only [Json.size, List.length_map, Nat.cast_le] using hmax
    · rintro _ ⟨⟩ x hx
      obtain ⟨r, hr, rfl⟩ := List.mem_map.mp hx
      exact satisfies_stringEnum.mpr ⟨r, hin r hr, rfl⟩

theorem satisfies_closedObject {properties : List (Text × Json)} {required : List Text} {v : Json} :
    Satisfies (closedObject properties required) v ↔ ∃ members, v = .object members ∧
      (∀ m ∈ members, properties.lookup m.1 ≠ none) ∧ (∀ name ∈ required, v.get? name ≠ none) ∧
      ∀ name s x, properties.lookup name = some s → v.get? name = some x → Satisfies s x := by
  constructor
  · rintro ⟨htype, -, -, -, -, hrequired, hproperties, hadditional⟩
    have hobject := htype "object" rfl
    cases v with
    | object members =>
        refine ⟨members, rfl, hadditional rfl members rfl, fun name hname => ?_, hproperties⟩
        exact hrequired _ rfl members rfl name (List.mem_map_of_mem hname)
    | null | bool | integer | real | string | array => cases hobject
  · rintro ⟨members, rfl, hadditional, hrequired, hproperties⟩
    refine .intro ?_ nofun nofun nofun nofun ?_ hproperties ?_
    · rintro _ ⟨⟩
      rfl
    · rintro _ ⟨⟩ _ - name hname
      obtain ⟨name', hname', hstring⟩ := List.mem_map.mp hname
      cases hstring
      exact hrequired name hname'
    · rintro - _ ⟨⟩
      exact hadditional

end Recursant.JsonSchema
