import Recursant.Equality
import Recursant.Gateway.Interpreter
import Recursant.JsonSchema

/-!
# Trajectory states

What `rc_interpreter_validate` takes from a completion, the schema that `response_format` asks the
server for, and `validate_state` of the reference.  They accept the same values.
-/

namespace Recursant.Interpreter

open Gateway JsonSchema

inductive Status where
  | valid
  | rejected
  | timeout
  | cancelled
  deriving DecidableEq

/-- `rc_interpreter_result` -/
structure Result where
  key : Context.Key
  revision : Nat
  status : Status
  phase : Text
  nextAction : Text
  difficultyBand : Text
  progressState : Text
  coverage : Text
  evidenceRefs : List Text
  deriving DecidableEq

/-- All bytes zero. -/
instance : Inhabited Result := ⟨{}, 0, .valid, [], [], [], [], [], []⟩

/-! ## The grammar -/

def phases : List Text :=
  ["planning", "implementing", "diagnosing", "verifying", "formatting", "unknown"]

def actions : List Text :=
  ["plan", "edit", "root_cause_analysis", "run_checks", "format_result", "unknown"]

def difficulties : List Text := ["simple", "moderate", "hard", "unknown"]

def progresses : List Text := ["advancing", "blocked", "backtracking", "repeating", "unknown"]

def coverages : List Text := ["partial", "unknown"]

def enums : List (Text × List Text) :=
  [(text "phase", phases), (text "next_action", actions), (text "difficulty_band", difficulties),
    (text "progress_state", progresses), (text "coverage", coverages)]

/-- The fields that are strings, with what they may be. -/
def fields (revision : Text) : List (Text × List Text) :=
  enums ++ [(text "schema_version", [text "trajectory.v1"]), (text "input_revision", [revision])]

def names : List Text :=
  ["phase", "next_action", "difficulty_band", "progress_state", "coverage", "schema_version",
    "input_revision", "evidence_refs"]

def ids (input : InterpreterInput) : List Text := input.evidence.map (·.id)

/-! ## The validator -/

section

local instance lawfulRefs : LawfulBEq Text := inferInstance

/-- The references one after the other, each known and other than those before it. -/
def takeRefs (ids : List Text) : List Text → List Json → Option (List Text)
  | found, [] => some found
  | found, .string id :: refs =>
      if id ∈ ids ∧ id ∉ found then takeRefs ids (found ++ [id]) refs else none
  | _, _ :: _ => none

end

/-- `rc_interpreter_validate` from the parsed content on. -/
def stateResult (input : InterpreterInput) (state : Json) : Option Result := do
  guard (state.isObject && objectSize state = 8)
  guard (state.get? "schema_version" = some (.string "trajectory.v1") &&
    state.get? "input_revision" = some (.string (decimal input.revision)))
  let phase ← enumValue state "phase" phases
  let nextAction ← enumValue state "next_action" actions
  let difficultyBand ← enumValue state "difficulty_band" difficulties
  let progressState ← enumValue state "progress_state" progresses
  let coverage ← enumValue state "coverage" coverages
  let refs ← state.get? "evidence_refs"
  guard (refs.isArray && refs.size ≠ 0 && refs.size ≤ 16)
  let evidenceRefs ← takeRefs (ids input) [] refs.elements
  return {
    key := input.key, revision := input.revision, status := .valid
    phase, nextAction, difficultyBand, progressState, coverage, evidenceRefs }

def validate (J : Jansson) (body : Text) (input : InterpreterInput) : Option Result := do
  guard (body.length ≤ 65536 && input.revision ≠ 0 && input.evidence.length ≤ 16)
  let root ← J.loadb body
  let content ← choiceContent root
  let state ← J.loadb content
  stateResult input state

/-- `rc_interpreter_validate` with its verdict and what it leaves in `out`. -/
def rcInterpreterValidate (J : Jansson) (body : Text) (input : InterpreterInput) (out : Result) :
    Bool × Result :=
  match validate J body input with
  | some r => (true, r)
  | none => (false, out)

/-! ## The schema -/

/-- `json_string`, which refuses what is no UTF-8. -/
def jsonString (t : Text) : Option Json :=
  if (ByteArray.mk t.toArray).validateUTF8 then some (.string t) else none

def properties (input : InterpreterInput) : List (Text × Json) :=
  (fields (decimal input.revision)).map (fun f => (f.1, stringEnum f.2)) ++
    [(text "evidence_refs", enumArray 1 16 (ids input))]

def stateSchema (input : InterpreterInput) : Json := closedObject (properties input) names

/-- `response_format` -/
def responseFormat (input : InterpreterInput) : Option Json := do
  let _refs ← (ids input).mapM jsonString
  return .object [(text "type", .string "json_schema"),
    (text "json_schema", .object [(text "name", .string "trajectory_state"),
      (text "strict", .bool true), (text "schema", stateSchema input)])]

/-! ## The reference -/

/-- The last check of the reference. -/
def refsValid (ids : List Text) : Option Json → Bool
  | some (.array refs) =>
      1 ≤ refs.length && refs.length ≤ 16 && refs.all (fun r => r.text?.any ids.contains) &&
        decide refs.Nodup
  | _ => false

/-- `validate_state`; an error is the text of the `ValueError`. -/
def validateState (state : Json) (revision : Text) (ids : List Text) : Except Text Json :=
  match state with
  | .object members =>
      if !((members.all fun m => names.contains m.1) &&
          names.all fun name => (members.map Prod.fst).contains name) then
        .error "invalid_fields"
      else if !(1 ≤ revision.length && revision.length ≤ 128) then .error "invalid_revision"
      else if state.get? "schema_version" ≠ some (.string "trajectory.v1") ||
          state.get? "input_revision" ≠ some (.string revision) then
        .error "stale_or_wrong_schema"
      else if enums.any fun f => !(state.get? f.1).any fun v => (f.2.map Json.string).contains v then
        .error "invalid_enum"
      else if !refsValid ids (state.get? "evidence_refs") then .error "invalid_evidence"
      else .ok state
  | _ => .error "invalid_fields"

/-! ## What a good state is -/

/-- The value that all three accept. -/
structure Good (input : InterpreterInput) (v : Json) (refs : List Text) : Prop where
  keys : ∃ members, v = .object members ∧ (members.map Prod.fst).Perm names
  strings : ∀ f ∈ fields (decimal input.revision), ∃ s ∈ f.2, v.get? f.1 = some (.string s)
  evidence : v.get? "evidence_refs" = some (.array (refs.map .string))
  size : 1 ≤ refs.length ∧ refs.length ≤ 16
  known : ∀ r ∈ refs, r ∈ ids input
  distinct : refs.Nodup

section

variable {input : InterpreterInput} {v : Json} {r : Result}

theorem enumValue_eq_some {o : Json} {key s : Text} {values : List Text} :
    enumValue o key values = some s ↔ o.get? key = some (.string s) ∧ s ∈ values := by
  unfold enumValue
  rw [Option.filter_eq_some_iff, Option.bind_eq_some_iff, List.contains_iff_mem]
  refine and_congr_left fun _ => ?_
  constructor
  · rintro ⟨w, hw, hs⟩
    cases w with
    | string t => rw [hw, ← Option.some.inj hs]
    | null | bool | integer | real | array | object => cases hs
  · intro h
    exact ⟨_, h, rfl⟩

theorem takeRefs_eq_some {known found refs : List Text} {es : List Json} :
    takeRefs known found es = some refs ↔ ∃ more : List Text, es = more.map .string ∧
      refs = found ++ more ∧ (∀ m ∈ more, m ∈ known ∧ m ∉ found) ∧ more.Nodup := by
  induction es generalizing found with
  | nil =>
      rw [takeRefs, Option.some.injEq]
      constructor
      · rintro rfl
        exact ⟨[], rfl, (List.append_nil _).symm, fun _ hm => absurd hm List.not_mem_nil,
          List.nodup_nil⟩
      · rintro ⟨more, hmore, rfl, -⟩
        rw [List.map_eq_nil_iff.mp hmore.symm, List.append_nil]
  | cons e es ih =>
      cases e with
      | string id =>
          rw [takeRefs]
          by_cases hid : id ∈ known ∧ id ∉ found
          · rw [if_pos hid, ih]
            constructor
            · rintro ⟨more, rfl, rfl, hmore, hnodup⟩
              refine ⟨id :: more, rfl, by simp, ?_, ?_⟩
              · rw [List.forall_mem_cons]
                refine ⟨hid, fun m hm => ⟨(hmore m hm).1, fun hfound => ?_⟩⟩
                exact (hmore m hm).2 (List.mem_append_left _ hfound)
              · refine List.nodup_cons.mpr ⟨fun hm => ?_, hnodup⟩
                exact (hmore id hm).2 (List.mem_append_right _ (List.mem_singleton_self id))
            · rintro ⟨more, hes, rfl, hmore, hnodup⟩
              cases more with
              | nil => cases hes
              | cons m more =>
                  obtain ⟨hm, rfl⟩ := List.cons.inj hes
                  obtain rfl := Json.string.inj hm
                  obtain ⟨hnotin, hnodup⟩ := List.nodup_cons.mp hnodup
                  rw [List.forall_mem_cons] at hmore
                  refine ⟨more, rfl, by simp, fun m hm => ⟨(hmore.2 m hm).1, fun hin => ?_⟩, hnodup⟩
                  rcases List.mem_append.mp hin with hfound | hlast
                  · exact (hmore.2 m hm).2 hfound
                  · exact hnotin (List.mem_singleton.mp hlast ▸ hm)
          · rw [if_neg hid]
            refine iff_of_false (by intro h; cases h) ?_
            rintro ⟨more, hes, -, hmore, -⟩
            cases more with
            | nil => cases hes
            | cons m more =>
                obtain ⟨hm, -⟩ := List.cons.inj hes
                obtain rfl := Json.string.inj hm
                exact hid (hmore id List.mem_cons_self)
      | null | bool | integer | real | array | object =>
          refine iff_of_false (by intro h; cases h) ?_
          rintro ⟨more, hes, -⟩
          cases more <;> cases hes

/-! ## Keys -/

theorem get?_ne_none {members : List (Text × Json)} {key : Text} :
    (Json.object members).get? key ≠ none ↔ key ∈ members.map Prod.fst := by
  unfold Json.get?
  rw [Option.ne_none_iff_isSome, List.lookup_isSome_iff]
  simp only [List.mem_map, beq_iff_eq]
  exact exists_congr fun m => and_congr_right fun _ => eq_comm

/-- As many keys as names, and every name among them. -/
theorem perm_names {keys : List Text} :
    keys.Perm names ↔ keys.length = 8 ∧ ∀ name ∈ names, name ∈ keys := by
  constructor
  · exact fun h => ⟨h.length_eq, fun name hname => h.mem_iff.mpr hname⟩
  · rintro ⟨hlength, hin⟩
    have hnodup : names.Nodup := by decide
    have hsub := List.subperm_of_subset hnodup hin
    exact (hsub.perm_of_length_le (Nat.le_of_eq hlength)).symm

theorem names_eq (revision : Text) :
    names = (fields revision).map Prod.fst ++ [text "evidence_refs"] := rfl

/-- No name outside the list, and every name of it. -/
theorem perm_names_iff {keys : List Text} (hkeys : keys.Nodup) :
    keys.Perm names ↔ (∀ key ∈ keys, key ∈ names) ∧ ∀ name ∈ names, name ∈ keys := by
  constructor
  · exact fun h => ⟨fun key hkey => h.mem_iff.mp hkey, fun name hname => h.mem_iff.mpr hname⟩
  · rintro ⟨hsub, hin⟩
    have hnodup : names.Nodup := by decide
    exact (List.perm_ext_iff_of_nodup hkeys hnodup).mpr fun key => ⟨hsub key, hin key⟩

/-- The fields are there, so all names are. -/
theorem names_mem {members : List (Text × Json)} {revision : Text}
    (hstrings : ∀ f ∈ fields revision, ∃ s ∈ f.2, (Json.object members).get? f.1 = some (.string s))
    (hrefs : (Json.object members).get? "evidence_refs" ≠ none) :
    ∀ name ∈ names, name ∈ members.map Prod.fst := by
  rw [names_eq revision, List.forall_mem_append, List.forall_mem_map, List.forall_mem_singleton]
  refine ⟨fun f hf => ?_, get?_ne_none.mp hrefs⟩
  obtain ⟨s, -, hs⟩ := hstrings f hf
  exact get?_ne_none.mp (by rw [hs]; exact Option.some_ne_none _)

/-! ## The validator -/

/-- The result has the fields of the value. -/
structure Carries (input : InterpreterInput) (v : Json) (r : Result) : Prop where
  key : r.key = input.key
  revision : r.revision = input.revision
  status : r.status = .valid
  phase : v.get? "phase" = some (.string r.phase)
  nextAction : v.get? "next_action" = some (.string r.nextAction)
  difficultyBand : v.get? "difficulty_band" = some (.string r.difficultyBand)
  progressState : v.get? "progress_state" = some (.string r.progressState)
  coverage : v.get? "coverage" = some (.string r.coverage)
  evidenceRefs : v.get? "evidence_refs" = some (.array (r.evidenceRefs.map .string))

theorem guard_eq_some {p : Prop} [Decidable p] {u : Unit} : guard p = some u ↔ p := by
  unfold guard
  split
  next h => exact iff_of_true rfl h
  next h => exact iff_of_false nofun h

theorem forall_fields {revision : Text} {P : Text × List Text → Prop} :
    (∀ f ∈ fields revision, P f) ↔ P (text "phase", phases) ∧ P (text "next_action", actions) ∧
      P (text "difficulty_band", difficulties) ∧ P (text "progress_state", progresses) ∧
      P (text "coverage", coverages) ∧ P (text "schema_version", [text "trajectory.v1"]) ∧
      P (text "input_revision", [revision]) := by
  unfold fields enums
  simp only [List.cons_append, List.nil_append, List.forall_mem_cons, List.not_mem_nil,
    false_implies, implies_true, and_true]

theorem stateResult_eq_some : stateResult input v = some r ↔
    Good input v r.evidenceRefs ∧ Carries input v r := by
  unfold stateResult
  simp only [Option.bind_eq_bind, Option.bind_eq_some_iff, guard_eq_some, Bool.and_eq_true,
    decide_eq_true_eq, enumValue_eq_some, Option.pure_def, Option.some.injEq]
  constructor
  · rintro ⟨_, ⟨hobject, hsize⟩, _, ⟨hschema, hrevision⟩, phase, ⟨hphase, hphases⟩, action,
      ⟨haction, hactions⟩, band, ⟨hband, hbands⟩, progress, ⟨hprogress, hprogresses⟩, coverage,
      ⟨hcoverage, hcoverages⟩, refs, hrefs, _, ⟨⟨harray, hnonempty⟩, hmax⟩, found, hfound, rfl⟩
    obtain ⟨_, hmore, rfl, hknown, hnodup⟩ := takeRefs_eq_some.mp hfound
    have hevidence : refs = .array (found.map .string) := by
      cases refs with
      | array es => exact congrArg _ hmore
      | null | bool | integer | real | string | object => cases harray
    subst hevidence
    rw [Json.size, List.length_map] at hnonempty hmax
    have hstrings : ∀ f ∈ fields (decimal input.revision),
        ∃ s ∈ f.2, v.get? f.1 = some (.string s) :=
      forall_fields.mpr ⟨⟨phase, hphases, hphase⟩, ⟨action, hactions, haction⟩,
        ⟨band, hbands, hband⟩, ⟨progress, hprogresses, hprogress⟩,
        ⟨coverage, hcoverages, hcoverage⟩, ⟨_, List.mem_singleton_self _, hschema⟩,
        ⟨_, List.mem_singleton_self _, hrevision⟩⟩
    refine ⟨⟨?_, hstrings, hrefs, ⟨Nat.pos_of_ne_zero hnonempty, hmax⟩,
      fun m hm => (hknown m hm).1, hnodup⟩, ⟨rfl, rfl, rfl, hphase, haction, hband, hprogress,
      hcoverage, hrefs⟩⟩
    cases v with
    | object members =>
        refine ⟨members, rfl, perm_names.mpr ⟨?_, ?_⟩⟩
        · rw [List.length_map]
          exact hsize
        · exact names_mem hstrings (by rw [hrefs]; exact Option.some_ne_none _)
    | null | bool | integer | real | string | array => cases hobject
  · rintro ⟨⟨⟨members, rfl, hperm⟩, hstrings, hevidence, hsize, hknown, hnodup⟩, hcarries⟩
    obtain ⟨hkey, hrevision, hstatus, hphase, haction, hband, hprogress, hcoverage, hrefs⟩ := hcarries
    obtain ⟨h1, h2, h3, h4, h5, h6, h7⟩ := forall_fields.mp hstrings
    have hvalue {key t : Text} {values : List Text}
        (h : ∃ s ∈ values, (Json.object members).get? key = some (.string s))
        (ht : (Json.object members).get? key = some (.string t)) : t ∈ values := by
      obtain ⟨s, hs, hget⟩ := h
      rw [hget] at ht
      exact Json.string.inj (Option.some.inj ht) ▸ hs
    have hsingle {key t : Text} (h : ∃ s ∈ [t], (Json.object members).get? key = some (.string s)) :
        (Json.object members).get? key = some (.string t) := by
      obtain ⟨s, hs, hget⟩ := h
      rwa [List.mem_singleton.mp hs] at hget
    refine ⟨(), ⟨rfl, ?_⟩, (), ⟨hsingle h6, hsingle h7⟩, r.phase, ⟨hphase, hvalue h1 hphase⟩,
      r.nextAction, ⟨haction, hvalue h2 haction⟩, r.difficultyBand, ⟨hband, hvalue h3 hband⟩,
      r.progressState, ⟨hprogress, hvalue h4 hprogress⟩, r.coverage, ⟨hcoverage, hvalue h5 hcoverage⟩,
      _, hrefs, (), ⟨⟨rfl, ?_⟩, ?_⟩, r.evidenceRefs, ?_, ?_⟩
    · have hlength := hperm.length_eq
      rw [List.length_map] at hlength
      exact hlength
    · rw [Json.size, List.length_map]
      omega
    · rw [Json.size, List.length_map]
      exact hsize.2
    · exact takeRefs_eq_some.mpr ⟨r.evidenceRefs, rfl, rfl,
        fun m hm => ⟨hknown m hm, List.not_mem_nil⟩, hnodup⟩
    · rw [← hkey, ← hrevision, ← hstatus]

/-- A good value has a result. -/
theorem Good.result {refs : List Text} (h : Good input v refs) :
    ∃ r, stateResult input v = some r := by
  obtain ⟨⟨a, -, ha⟩, ⟨b, -, hb⟩, ⟨c, -, hc⟩, ⟨d, -, hd⟩, ⟨e, -, he⟩, -⟩ := forall_fields.mp h.strings
  exact ⟨⟨input.key, input.revision, .valid, a, b, c, d, e, refs⟩,
    stateResult_eq_some.mpr ⟨h, rfl, rfl, rfl, ha, hb, hc, hd, he, h.evidence⟩⟩

/-! ## The schema and the reference -/

theorem lookup_properties (name : Text) (s : Json) :
    (properties input).lookup name = some s ↔ (name, s) ∈ properties input := by
  have hkeys : ((properties input).map Prod.fst).Nodup := by
    rw [show (properties input).map Prod.fst = names from rfl]
    decide
  exact (Json.mem_iff_lookup hkeys name s).symm

theorem properties_ne_none {name : Text} : (properties input).lookup name ≠ none ↔ name ∈ names := by
  have h := @get?_ne_none (properties input) name
  rw [show (properties input).map Prod.fst = names from rfl] at h
  exact h

/-- The values of the schema whose references are distinct are the good ones. -/
theorem satisfies_iff (hv : v.isObject = true → v.Distinct) :
    (Satisfies (stateSchema input) v ∧
      ∀ es, v.get? "evidence_refs" = some (.array es) → es.Nodup) ↔ ∃ refs, Good input v refs := by
  unfold stateSchema
  rw [satisfies_closedObject]
  constructor
  · rintro ⟨⟨members, rfl, hknown, hrequired, hproperties⟩, hdistinct⟩
    have hkeys : (members.map Prod.fst).Perm names := by
      rw [perm_names_iff (hv rfl)]
      refine ⟨fun key hkey => ?_, fun name hname => get?_ne_none.mp (hrequired name hname)⟩
      obtain ⟨m, hm, rfl⟩ := List.mem_map.mp hkey
      exact properties_ne_none.mp (hknown m hm)
    have hstrings : ∀ f ∈ fields (decimal input.revision),
        ∃ s ∈ f.2, (Json.object members).get? f.1 = some (.string s) := by
      intro f hf
      have hname : f.1 ∈ names := by
        rw [names_eq (decimal input.revision)]
        exact List.mem_append_left _ (List.mem_map_of_mem hf)
      obtain ⟨x, hx⟩ := Option.ne_none_iff_exists'.mp (hrequired f.1 hname)
      have hschema : (f.1, stringEnum f.2) ∈ properties input :=
        List.mem_append_left _ (List.mem_map.mpr ⟨f, hf, rfl⟩)
      have hsatisfies := hproperties f.1 _ x ((lookup_properties _ _).mpr hschema) hx
      obtain ⟨s, hs, rfl⟩ := satisfies_stringEnum.mp hsatisfies
      exact ⟨s, hs, hx⟩
    obtain ⟨x, hx⟩ := Option.ne_none_iff_exists'.mp (hrequired (text "evidence_refs") (by decide))
    have hschema : (text "evidence_refs", enumArray 1 16 (ids input)) ∈ properties input :=
      List.mem_append_right _ (List.mem_singleton_self _)
    have hsatisfies := hproperties _ _ x ((lookup_properties _ _).mpr hschema) hx
    obtain ⟨refs, rfl, hmin, hmax, hin⟩ := satisfies_enumArray.mp hsatisfies
    exact ⟨refs, ⟨members, rfl, hkeys⟩, hstrings, hx, ⟨hmin, hmax⟩, hin,
      (hdistinct _ hx).of_map⟩
  · rintro ⟨refs, ⟨members, rfl, hkeys⟩, hstrings, hevidence, ⟨hmin, hmax⟩, hknown, hdistinct⟩
    refine ⟨⟨members, rfl, fun m hm => ?_, fun name hname => ?_, fun name s x hs hx => ?_⟩, ?_⟩
    · exact properties_ne_none.mpr (hkeys.mem_iff.mp (List.mem_map_of_mem hm))
    · exact get?_ne_none.mpr (hkeys.mem_iff.mpr hname)
    · rw [lookup_properties] at hs
      cases List.mem_append.mp hs with
      | inl hfield =>
          obtain ⟨f, hf, heq⟩ := List.mem_map.mp hfield
          obtain ⟨rfl, rfl⟩ := Prod.mk.inj heq
          obtain ⟨t, ht, hget⟩ := hstrings f hf
          rw [hget] at hx
          exact satisfies_stringEnum.mpr ⟨t, ht, (Option.some.inj hx).symm⟩
      | inr hrefs =>
          obtain ⟨rfl, rfl⟩ := Prod.mk.inj (List.mem_singleton.mp hrefs)
          rw [hevidence] at hx
          exact satisfies_enumArray.mpr ⟨refs, (Option.some.inj hx).symm, hmin, hmax, hknown⟩
    · intro es hes
      obtain rfl := Json.array.inj (Option.some.inj (hevidence.symm.trans hes))
      exact hdistinct.map fun _ _ => Json.string.inj

theorem decimal_length {n : Nat} (h : n ≤ uint64Max) :
    1 ≤ (decimal n).length ∧ (decimal n).length ≤ 128 := by
  unfold decimal text
  rw [List.length_map, String.length_toList]
  have hmax : (Nat.repr n).length ≤ 20 := by
    rw [Nat.length_repr_le_iff (by decide)]
    unfold uint64Max at h
    omega
  have hpos : 0 < (Nat.repr n).length := Nat.length_repr_pos
  exact ⟨hpos, hmax.trans (by decide)⟩

theorem ite_error_eq_ok {α : Type} {p : Prop} [Decidable p] {message : Text} {x : Except Text α}
    {a : α} : (if p then .error message else x) = .ok a ↔ ¬ p ∧ x = .ok a := by
  by_cases h : p
  · rw [if_pos h]
    exact iff_of_false nofun fun hnot => hnot.1 h
  · rw [if_neg h]
    exact (and_iff_right h).symm

theorem enums_iff {o : Json} : (enums.any fun f =>
      !(o.get? f.1).any fun v => (f.2.map Json.string).contains v) = false ↔
    ∀ f ∈ enums, ∃ s ∈ f.2, o.get? f.1 = some (.string s) := by
  rw [List.any_eq_false]
  refine forall_congr' fun f => imp_congr_right fun _ => ?_
  rw [Bool.not_eq_true', Bool.not_eq_false, Option.any_eq_true]
  simp only [List.contains_iff_mem, List.mem_map]
  constructor
  · rintro ⟨v, hv, s, hs, rfl⟩
    exact ⟨s, hs, hv⟩
  · rintro ⟨s, hs, hget⟩
    exact ⟨_, hget, s, hs, rfl⟩

theorem refsValid_iff {known : List Text} {o : Option Json} : refsValid known o = true ↔
    ∃ refs : List Text, o = some (.array (refs.map .string)) ∧
      (1 ≤ refs.length ∧ refs.length ≤ 16) ∧ (∀ r ∈ refs, r ∈ known) ∧ refs.Nodup := by
  have heach (e : Json) : e.text?.any known.contains = true ↔ ∃ s, s ∈ known ∧ e = .string s := by
    rw [Option.any_eq_true]
    simp only [List.contains_iff_mem]
    cases e with
    | string s =>
        constructor
        · rintro ⟨_, ⟨⟩, hs⟩
          exact ⟨s, hs, rfl⟩
        · rintro ⟨_, hs, ⟨⟩⟩
          exact ⟨s, rfl, hs⟩
    | null | bool | integer | real | array | object =>
        exact iff_of_false (by rintro ⟨_, h, -⟩; cases h) (by rintro ⟨_, -, h⟩; cases h)
  have hinjective : Function.Injective Json.string := fun _ _ => Json.string.inj
  constructor
  · intro h
    unfold refsValid at h
    split at h
    · next es =>
        simp only [Bool.and_eq_true, decide_eq_true_eq, List.all_eq_true, heach] at h
        obtain ⟨⟨⟨hmin, hmax⟩, hknown⟩, hdistinct⟩ := h
        obtain ⟨refs, rfl, hin⟩ := strings_of_forall hknown
        rw [List.length_map] at hmin hmax
        exact ⟨refs, rfl, ⟨hmin, hmax⟩, hin, hdistinct.of_map⟩
    · cases h
  · rintro ⟨refs, rfl, ⟨hmin, hmax⟩, hin, hdistinct⟩
    unfold refsValid
    simp only [Bool.and_eq_true, decide_eq_true_eq, List.all_eq_true, heach, List.length_map]
    refine ⟨⟨⟨hmin, hmax⟩, fun e he => ?_⟩, hdistinct.map hinjective⟩
    obtain ⟨r, hr, rfl⟩ := List.mem_map.mp he
    exact ⟨r, hin r hr, rfl⟩

theorem validateState_eq_ok (hv : v.isObject = true → v.Distinct)
    (hrevision : input.revision ≤ uint64Max) :
    validateState v (decimal input.revision) (ids input) = .ok v ↔ ∃ refs, Good input v refs := by
  obtain ⟨hmin, hmax⟩ := decimal_length hrevision
  cases v with
  | null | bool | integer | real | string | array =>
      exact iff_of_false nofun fun ⟨_, h⟩ => nomatch h.keys
  | object members =>
      unfold validateState
      dsimp only
      simp only [ite_error_eq_ok, Bool.not_eq_true, enums_iff, Bool.not_eq_false', Bool.and_eq_true,
        List.all_eq_true, List.contains_iff_mem, Bool.or_eq_false_iff, decide_eq_true_eq,
        decide_eq_false_iff_not, Decidable.not_not, refsValid_iff]
      constructor
      · rintro ⟨⟨hsub, hin⟩, -, ⟨hschema, hrev⟩, henums, ⟨refs, hrefs, hsize, hknown, hdistinct⟩, -⟩
        refine ⟨refs, ⟨members, rfl, ?_⟩, ?_, hrefs, hsize, hknown, hdistinct⟩
        · rw [perm_names_iff (hv rfl)]
          exact ⟨fun key hkey => by obtain ⟨m, hm, rfl⟩ := List.mem_map.mp hkey; exact hsub m hm, hin⟩
        · unfold fields
          rw [List.forall_mem_append, List.forall_mem_cons, List.forall_mem_singleton]
          exact ⟨henums, ⟨_, List.mem_singleton_self _, hschema⟩, _, List.mem_singleton_self _, hrev⟩
      · rintro ⟨refs, ⟨members', ⟨⟩, hkeys⟩, hstrings, hrefs, hsize, hknown, hdistinct⟩
        unfold fields at hstrings
        rw [List.forall_mem_append, List.forall_mem_cons, List.forall_mem_singleton] at hstrings
        obtain ⟨henums, ⟨_, hs, hschema⟩, _, ht, hrev⟩ := hstrings
        obtain rfl := List.mem_singleton.mp hs
        obtain rfl := List.mem_singleton.mp ht
        refine ⟨⟨fun m hm => ?_, fun name hname => hkeys.mem_iff.mpr hname⟩, ⟨hmin, hmax⟩,
          ⟨hschema, hrev⟩, henums, ⟨refs, hrefs, hsize, hknown, hdistinct⟩, trivial⟩
        exact hkeys.mem_iff.mp (List.mem_map_of_mem hm)

/-! ## Agreement -/

/-- Each text fits its buffer with its terminator. -/
structure Fits (r : Result) : Prop where
  phase : r.phase.length < 32
  nextAction : r.nextAction.length < 32
  difficultyBand : r.difficultyBand.length < 32
  progressState : r.progressState.length < 32
  coverage : r.coverage.length < 32
  refs : r.evidenceRefs.length ≤ 16
  ref : ∀ t ∈ r.evidenceRefs, t.length < 129

theorem Good.fits (h : Good input v r.evidenceRefs) (hcarries : Carries input v r)
    (hinput : Worker.inputValid input = true) : Fits r := by
  obtain ⟨h1, h2, h3, h4, h5, -⟩ := forall_fields.mp h.strings
  have hshort {key t : Text} {values : List Text} (hvalues : ∀ s ∈ values, s.length < 32)
      (hfield : ∃ s ∈ values, v.get? key = some (.string s)) (ht : v.get? key = some (.string t)) :
      t.length < 32 := by
    obtain ⟨s, hs, hget⟩ := hfield
    rw [hget] at ht
    exact Json.string.inj (Option.some.inj ht) ▸ hvalues s hs
  refine ⟨hshort (by decide) h1 hcarries.phase, hshort (by decide) h2 hcarries.nextAction,
    hshort (by decide) h3 hcarries.difficultyBand, hshort (by decide) h4 hcarries.progressState,
    hshort (by decide) h5 hcarries.coverage, h.size.2, fun t ht => ?_⟩
  obtain ⟨e, he, rfl⟩ := List.mem_map.mp (h.known t ht)
  unfold Worker.inputValid at hinput
  simp only [Bool.and_eq_true, List.all_eq_true, decide_eq_true_eq] at hinput
  exact (hinput.1.2 e he).1.1.2

theorem validateState_returns {w : Json} {revision : Text} {known : List Text}
    (h : validateState v revision known = .ok w) : w = v := by
  unfold validateState at h
  split at h
  · simp only [ite_error_eq_ok] at h
    exact (Except.ok.inj h.2.2.2.2.2).symm
  · cases h

/-- The schema of the request for a job. -/
def requested (input : InterpreterInput) : Option Json :=
  ((responseFormat input).bind (Json.get? "json_schema")).bind (Json.get? "schema")

theorem requested_eq (h : ∀ id ∈ ids input, (ByteArray.mk id.toArray).validateUTF8 = true) :
    requested input = some (stateSchema input) := by
  have hrefs : (ids input).mapM jsonString = some ((ids input).map .string) := by
    generalize ids input = known at h
    induction known with
    | nil => rfl
    | cons id known ih =>
        rw [List.forall_mem_cons] at h
        rw [List.mapM_cons, ih h.2, jsonString, if_pos h.1]
        rfl
  unfold requested responseFormat
  rw [hrefs]
  rfl

end

/-- The validator's verdict and its output, next to the schema and the reference. -/
structure Agrees (J : Jansson) (input : InterpreterInput) (content : Text) (out : Result)
    (outcome : Bool × Result) : Prop where
  schema : outcome.1 = true ↔ ∃ v, J.loadb content = some v ∧
    (∃ s, requested input = some s ∧ Satisfies s v) ∧
      ∀ es, v.get? "evidence_refs" = some (.array es) → es.Nodup
  reference : outcome.1 = true ↔ ∃ v, J.loadb content = some v ∧
    ∃ w, validateState v (decimal input.revision) (ids input) = .ok w
  carries : outcome.1 = true → ∃ v, J.loadb content = some v ∧ Carries input v outcome.2 ∧
    Fits outcome.2
  unchanged : outcome.1 = false → outcome.2 = out

/-- A parsed object has no key twice, as duplicates are rejected. -/
theorem validate_agrees (J : Jansson)
    (hJ : ∀ t members, J.loadb t = some (.object members) → (members.map Prod.fst).Nodup)
    (input : InterpreterInput) (hinput : Worker.inputValid input = true)
    (hrevision : input.revision ≤ uint64Max)
    (hutf8 : ∀ id ∈ ids input, (ByteArray.mk id.toArray).validateUTF8 = true)
    (body content : Text) (hbody : body.length ≤ 65536)
    (hcontent : (J.loadb body).bind choiceContent = some content) (out : Result) :
    Agrees J input content out (rcInterpreterValidate J body input out) := by
  have hvalidate : validate J body input = (J.loadb content).bind (stateResult input) := by
    unfold Worker.inputValid at hinput
    simp only [Bool.and_eq_true, decide_eq_true_eq] at hinput
    obtain ⟨root, hroot, hchoice⟩ := Option.bind_eq_some_iff.mp hcontent
    unfold validate
    rw [hroot]
    simp [hbody, hinput, hchoice]
  have hdistinct {v : Json} (hv : J.loadb content = some v) : v.isObject = true → v.Distinct := by
    intro hobject
    cases v with
    | object members => exact hJ _ members hv
    | null | bool | integer | real | string | array => cases hobject
  have haccepted : (rcInterpreterValidate J body input out).1 = true ↔
      ∃ v, J.loadb content = some v ∧ ∃ refs, Good input v refs := by
    unfold rcInterpreterValidate
    rw [hvalidate]
    cases hload : J.loadb content with
    | none => exact iff_of_false nofun fun ⟨_, h, _⟩ => nomatch h
    | some v =>
        rw [Option.bind_some]
        constructor
        · intro h
          split at h
          · next r hr => exact ⟨v, rfl, _, (stateResult_eq_some.mp hr).1⟩
          · cases h
        · rintro ⟨_, ⟨⟩, refs, hgood⟩
          obtain ⟨r, hr⟩ := hgood.result
          rw [hr]
  constructor
  · rw [haccepted]
    refine exists_congr fun v => and_congr_right fun hv => ?_
    rw [← satisfies_iff (hdistinct hv), requested_eq hutf8]
    simp only [Option.some.injEq, exists_eq_left']
  · rw [haccepted]
    refine exists_congr fun v => and_congr_right fun hv => ?_
    rw [← validateState_eq_ok (hdistinct hv) hrevision]
    constructor
    · exact fun h => ⟨v, h⟩
    · rintro ⟨w, hw⟩
      rw [hw, validateState_returns hw]
  · unfold rcInterpreterValidate
    rw [hvalidate]
    intro h
    split at h
    · next r hr =>
        obtain ⟨v, hv, hresult⟩ := Option.bind_eq_some_iff.mp hr
        obtain ⟨hgood, hcarries⟩ := stateResult_eq_some.mp hresult
        exact ⟨v, hv, hcarries, hgood.fits hcarries hinput⟩
    · cases h
  · unfold rcInterpreterValidate
    intro h
    split at h
    · cases h
    · next hr => rfl

/-! ## A completion -/

def sampleInput : InterpreterInput where
  key := ⟨text "t", text "p", text "g", text "b", text "s", text "1"⟩
  revision := 7
  evidence := [⟨text "e1", text "executor", text "exit 1"⟩]

def sampleState : Json :=
  .object [(text "schema_version", .string "trajectory.v1"), (text "input_revision", .string "7"),
    (text "evidence_refs", .array [.string "e1"]), (text "phase", .string "diagnosing"),
    (text "next_action", .string "run_checks"), (text "difficulty_band", .string "hard"),
    (text "progress_state", .string "blocked"), (text "coverage", .string "partial")]

def stateText : Text :=
  text "\x7b\"schema_version\":\"trajectory.v1\",\"input_revision\":\"7\"," ++
    text "\"evidence_refs\":[\"e1\"],\"phase\":\"diagnosing\",\"next_action\":\"run_checks\"," ++
    text "\"difficulty_band\":\"hard\",\"progress_state\":\"blocked\",\"coverage\":\"partial\"\x7d"

/-- A completion with some more members in front. -/
def completion (members : List (Text × Json)) : Json :=
  .object (members ++ [(text "choices", .array [.object [(text "finish_reason", .string "stop"),
    (text "message", .object [(text "role", .string "assistant"),
      (text "content", .string stateText)])]])])

/-- The content is the text of the state between quotes, with its own quotes escaped. -/
def completionText : Text :=
  text "\x7b\"choices\":[\x7b\"finish_reason\":\"stop\",\"message\":\x7b\"role\":\"assistant\"," ++
    text "\"content\":\"" ++ stateText.flatMap (fun c => if c = 34 then [92, 34] else [c]) ++
    text "\"\x7d\x7d]\x7d"

/-- The same with its identifier twice. -/
def duplicatedText : Text := text "\x7b\"id\":1,\"id\":1," ++ completionText.drop 1

/-- What the three texts say. -/
def reading (t : Text) : Option Json :=
  if t = completionText then some (completion [])
  else if t = duplicatedText then some (completion [("id", .integer 1), ("id", .integer 1)])
  else if t = stateText then some sampleState
  else none

/-- A reader of these texts that refuses duplicates. -/
def sampleJansson : Jansson where
  loadb t := (reading t).filter Json.proper
  dumps _ := none
  dumpsSorted _ := none

theorem sampleJansson_nodup (t : Text) (members : List (Text × Json))
    (h : sampleJansson.loadb t = some (.object members)) : (members.map Prod.fst).Nodup := by
  have hproper : (Json.object members).proper = true := (Option.filter_eq_some_iff.mp h).2
  exact (Json.proper_object.mp hproper).1

theorem validate_agrees_sample : Agrees sampleJansson sampleInput stateText default
    (rcInterpreterValidate sampleJansson completionText sampleInput default) :=
  validate_agrees sampleJansson sampleJansson_nodup sampleInput (by decide) (by decide)
    (by decide +kernel) completionText stateText (by decide +kernel) (by decide +kernel) default

/-- A body with one good choice is refused for a key that it has twice elsewhere. -/
theorem duplicated_refused :
    (reading duplicatedText).bind choiceContent = some stateText ∧
      ¬ Agrees sampleJansson sampleInput stateText default
        (rcInterpreterValidate sampleJansson duplicatedText sampleInput default) := by
  refine ⟨by decide +kernel, fun h => ?_⟩
  have hrefused : (rcInterpreterValidate sampleJansson duplicatedText sampleInput default).1 =
      false := by decide +kernel
  have haccepted := h.reference.mpr ⟨sampleState, by decide +kernel, sampleState, by decide +kernel⟩
  rw [haccepted] at hrefused
  cases hrefused

end Recursant.Interpreter
