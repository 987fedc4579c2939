import Recursant.Context.Acceptance
import Recursant.Lib.Runs

/-!
# The record of the reasoning

The observer merges reasoning elements as they arrive, into the last element of its record.  The
same record is computed here from the whole list of elements: cut into runs, and one value for each
run.
-/

namespace Recursant.ResponseObserver

open StreamTools (noNul)
open ToolBoundary (Loader)

/-! ## The reference -/

/-- The payload of an element, empty for one without. -/
def payloadOf (e : Json) : Text :=
  match payloadField e with
  | some field => ((e.get? field).bind Json.text?).getD []
  | none => []

/-- Neighbours of one type are put together, other than encrypted ones. -/
def joins (a b : Json) : Bool := payloadField a = payloadField b && payloadField b ≠ some "data"

def nonNull (v : Option Json) : Bool := v.any (· ≠ .null)

/-- The first value of a run that passes, else what its last element has. -/
def firstElseLast (p : Option Json → Bool) (run : List Json) (key : Text) : Option Json :=
  ((run.map (·.get? key)).find? p).getD (run.getLast?.bind (·.get? key))

/-- The payloads of a run of a type with its payload in `field`, one after another. -/
def joinedPayload (field : Text) (run : List Json) : Option Json :=
  if run.any (fun e => (e.get? field).isSome) then some (.string (run.flatMap payloadOf)) else none

/-- A member of the element that a run becomes. -/
def runMember (run : List Json) (key : Text) : Option Json :=
  run.head?.bind fun first =>
    let field := (payloadField first).getD []
    if key = field then joinedPayload field run
    else if key = "format" || (key = "signature" && field = "text") then
      firstElseLast truthyString run key
    else if key = "id" || key = "index" then firstElseLast nonNull run key
    else first.get? key

def memberKeys : List Text :=
  [text "type", text "text", text "summary", text "data", text "id", text "format", text "index",
    text "signature"]

def runValue (run : List Json) : Json :=
  .object (memberKeys.filterMap fun key => (runMember run key).map fun v => (key, v))

/-- The record of a list of elements. -/
def reference (es : List Json) : List Json := (es.splitBy joins).map runValue

/-- One value up to the order of the members. -/
def Same (v w : Json) : Prop := v.isObject = true ∧ w.isObject = true ∧ ∀ k, v.get? k = w.get? k

/-- Elements of known shape, and no more of them than the record takes. -/
structure Within (es : List Json) : Prop where
  known : ∀ e ∈ es, (reasoningPayload e).isSome = true
  bytes : (es.map fun e => (payloadOf e).length).sum ≤ reasoningMaxBytes
  elements : (es.splitBy joins).length ≤ reasoningMaxElements

/-! ## Elements of known shape -/

theorem payloadField_cases {e : Json} {field : Text} (h : payloadField e = some field) :
    (field = "text" ∧ e.get? "type" = some (.string "reasoning.text")) ∨
    (field = "summary" ∧ e.get? "type" = some (.string "reasoning.summary")) ∨
    (field = "data" ∧ e.get? "type" = some (.string "reasoning.encrypted")) := by
  unfold payloadField at h
  split at h
  next ht => exact .inl ⟨(Option.some.inj h).symm, of_decide_eq_true ht⟩
  next =>
    split at h
    next hs => exact .inr (.inl ⟨(Option.some.inj h).symm, of_decide_eq_true hs⟩)
    next =>
      split at h
      next hd => exact .inr (.inr ⟨(Option.some.inj h).symm, of_decide_eq_true hd⟩)
      next => cases h

/-- Two known elements have one type when they have one payload member. -/
theorem type_eq_iff {a b : Json} {f g : Text} (ha : payloadField a = some f)
    (hb : payloadField b = some g) : a.get? "type" = b.get? "type" ↔ f = g := by
  constructor
  · intro h
    have hsame : payloadField a = payloadField b := by rw [payloadField, payloadField, h]
    rw [ha, hb] at hsame
    exact Option.some.inj hsame
  · rintro rfl
    have hfirst := payloadField_cases ha
    have hsecond := payloadField_cases hb
    have hnames : (text "text" ≠ "summary" ∧ text "text" ≠ "data") ∧ text "summary" ≠ "data" := by
      decide
    obtain ⟨rfl, hta⟩ | ⟨rfl, hta⟩ | ⟨rfl, hta⟩ := hfirst
    · have htb := hsecond.resolve_right (by simp [hnames.1.1, hnames.1.2])
      rw [hta, htb.2]
    · have htb := (hsecond.resolve_left (by simp [hnames.1.1.symm])).resolve_right
        (by simp [hnames.2])
      rw [hta, htb.2]
    · have htb := (hsecond.resolve_left (by simp [hnames.1.2.symm])).resolve_left
        (by simp [hnames.2.symm])
      rw [hta, htb.2]

/-- What the shape check of an element has seen. -/
structure Known (e : Json) (field : Text) : Prop where
  field_eq : payloadField e = some field
  keys : keys (text "|type||text||summary||data||id||format||index||signature|") [] e = true
  payload : e.get? field = some (.string (payloadOf e)) ∨ e.get? field = none ∧ payloadOf e = []

theorem known_of_payload {e : Json} {field : Text} (h : reasoningPayload e = some field) :
    Known e field := by
  unfold reasoningPayload at h
  split at h
  next => cases h
  next f hf =>
    dsimp only at h
    split at h
    next hform =>
      obtain rfl := Option.some.inj h
      simp only [Bool.and_eq_true, Bool.or_eq_true] at hform
      have hkeys := hform.1.1.1.1.1.1.1.1
      have hpayload := hform.1.1.1.1.1.1.1.2
      refine ⟨hf, hkeys, ?_⟩
      unfold payloadOf
      rw [hf]
      dsimp only
      cases hget : e.get? f with
      | none => exact .inr ⟨rfl, rfl⟩
      | some v =>
          have hstring : noNul v = true := by
            rw [hget] at hpayload
            simpa using hpayload
          cases v with
          | string s => exact .inl rfl
          | _ => cases hstring
    next => cases h

theorem Known.isObject {e : Json} {field : Text} (h : Known e field) : e.isObject = true := by
  have hkeys := h.keys
  cases e with
  | object ms => rfl
  | _ => cases hkeys

theorem Known.keys_mem {e : Json} {field : Text} (h : Known e field) {k : Text} {v : Json}
    (hget : e.get? k = some v) : k ∈ memberKeys := by
  have hkeys := h.keys
  cases e with
  | object ms =>
      rw [ResponseObserver.keys, List.all_eq_true] at hkeys
      have hk := hkeys _ (Json.mem_of_lookup hget)
      simp only [Bool.and_eq_true, Bool.or_eq_true, decide_eq_true_eq, Bool.not_eq_true'] at hk
      have hbar : (124 : Byte) ∉ k := by
        intro hin
        have hcontains := hk.1.1.2
        rw [List.contains_iff_mem.mpr hin] at hcontains
        cases hcontains
      have hall : text "|type||text||summary||data||id||format||index||signature|" =
          Delimited.render 124 memberKeys := by decide +kernel
      have hnames : ∀ x ∈ memberKeys, (124 : Byte) ∉ x := by decide +kernel
      cases hk.2 with
      | inl hinside =>
          have hinfix := (hasText_iff _ _).mp hinside
          rw [hall] at hinfix
          exact Delimited.mem_of_token hbar hk.1.1.1 hnames hinfix
      | inr hnull =>
          have hinfix := (hasText_iff _ _).mp hnull.1
          have hlength := hinfix.length_le
          rw [Delimited.token] at hlength
          simp at hlength
  | _ => cases hget

/-! ## One merge -/

theorem get?_setAt {t : Json} (h : t.isObject = true) (key : Text) (v : Json) (k : Text) :
    (setAt t key v).get? k = (if k = key then some v else t.get? k) ∧
      (setAt t key v).isObject = true := by
  cases t with
  | object ms => exact ⟨Json.lookup_setMember key k v ms, rfl⟩
  | _ => cases h

theorem isObject_del {t : Json} (h : t.isObject = true) (key : Text) :
    (t.del key).isObject = true := by
  cases t with
  | object ms => rfl
  | _ => cases h

theorem get?_falsyFill {s t : Json} (h : t.isObject = true) (key k : Text) :
    (falsyFill s key t).get? k = (if k = key then
      if truthyString (t.get? key) then t.get? key else s.get? key else t.get? k) ∧
      (falsyFill s key t).isObject = true := by
  unfold falsyFill
  by_cases htruthy : truthyString (t.get? key) = true
  · rw [if_pos htruthy, if_pos htruthy]
    refine ⟨?_, h⟩
    split
    next heq => rw [heq]
    next => rfl
  · rw [if_neg htruthy, if_neg htruthy]
    cases hs : s.get? key with
    | some v => exact get?_setAt h key v k
    | none => exact ⟨Json.get?_del key k, isObject_del h key⟩

theorem get?_nullishFill {s t : Json} (h : t.isObject = true) (key k : Text) :
    (nullishFill s key t).get? k = (if k = key then
      if nonNull (t.get? key) then t.get? key else s.get? key else t.get? k) ∧
      (nullishFill s key t).isObject = true := by
  unfold nullishFill
  by_cases hnull : (t.get? key).any (· ≠ .null) = true
  · have hnull' : nonNull (t.get? key) = true := hnull
    rw [if_pos hnull, if_pos hnull']
    refine ⟨?_, h⟩
    split
    next heq => rw [heq]
    next => rfl
  · have hnull' : ¬nonNull (t.get? key) = true := hnull
    rw [if_neg hnull, if_neg hnull']
    cases hs : s.get? key with
    | some v => exact get?_setAt h key v k
    | none => exact ⟨Json.get?_del key k, isObject_del h key⟩

theorem firstElseLast_singleton (p : Option Json → Bool) (e : Json) (key : Text) :
    firstElseLast p [e] key = e.get? key := by
  unfold firstElseLast
  rw [List.map_singleton, List.find?_singleton]
  split <;> rfl

/-- A value that passes stays, any other gives way to the last one. -/
theorem firstElseLast_concat {p : Option Json → Bool} {run : List Json} (hrun : run ≠ [])
    (e : Json) (key : Text) : firstElseLast p (run ++ [e]) key =
      if p (firstElseLast p run key) then firstElseLast p run key else e.get? key := by
  unfold firstElseLast
  rw [List.map_append, List.find?_append, List.map_singleton, List.find?_singleton,
    List.getLast?_concat, Option.bind_some]
  cases hfind : (run.map (·.get? key)).find? p with
  | some v =>
      have hv := List.find?_some hfind
      simp [hv]
  | none =>
      have hlast : p (run.getLast?.bind (·.get? key)) = false := by
        rw [List.getLast?_eq_some_getLast hrun, Option.bind_some]
        have hnone := List.find?_eq_none.mp hfind _ (List.mem_map_of_mem (List.getLast_mem hrun))
        simpa using hnone
      simp only [Option.none_or, Option.getD_none, hlast, Bool.false_eq_true, if_false]
      split <;> rfl

theorem joinedPayload_singleton {e : Json} {field : Text} (h : Known e field) :
    joinedPayload field [e] = e.get? field := by
  unfold joinedPayload
  rw [List.any_cons, List.any_nil, Bool.or_false, List.flatMap_singleton]
  cases h.payload with
  | inl hsome =>
      rw [hsome]
      rfl
  | inr hnone =>
      rw [hnone.1]
      rfl

/-- The record element of a run of elements of one type. -/
structure Merged (field : Text) (run : List Json) (v : Json) : Prop where
  isObject : v.isObject = true
  nonempty : run ≠ []
  known : ∀ e ∈ run, Known e field
  get?_eq : ∀ k, v.get? k = runMember run k

theorem merged_singleton {e : Json} {field : Text} (h : Known e field) : Merged field [e] e := by
  refine ⟨h.isObject, by simp, ?_, ?_⟩
  · intro e' he'
    rw [List.mem_singleton.mp he']
    exact h
  · intro k
    rw [runMember, List.head?_cons, Option.bind_some]
    simp only [h.field_eq, Option.getD_some, firstElseLast_singleton]
    split
    next heq => rw [heq, joinedPayload_singleton h]
    next =>
      split
      next => rfl
      next => split <;> rfl

theorem runMember_cons (first : Json) (rest : List Json) {field : Text}
    (h : payloadField first = some field) (key : Text) : runMember (first :: rest) key =
      if key = field then joinedPayload field (first :: rest)
      else if key = "format" || (key = "signature" && field = "text") then
        firstElseLast truthyString (first :: rest) key
      else if key = "id" || key = "index" then firstElseLast nonNull (first :: rest) key
      else first.get? key := by
  rw [runMember, List.head?_cons, Option.bind_some, h, Option.getD_some]

theorem text?_joinedPayload {field : Text} {run : List Json} (h : ∀ e ∈ run, Known e field) :
    ((joinedPayload field run).bind Json.text?).getD [] = run.flatMap payloadOf := by
  unfold joinedPayload
  by_cases hany : run.any (fun e => (e.get? field).isSome) = true
  · rw [if_pos hany]
    rfl
  · rw [if_neg hany]
    symm
    rw [Option.bind_none, Option.getD_none, List.flatMap_eq_nil_iff]
    intro e he
    cases (h e he).payload with
    | inl hsome =>
        refine absurd (List.any_eq_true.mpr ⟨e, he, ?_⟩) hany
        rw [hsome]
        rfl
    | inr hnone => exact hnone.2

theorem isNone_joinedPayload (field : Text) (run : List Json) :
    (joinedPayload field run).isNone = !run.any (fun e => (e.get? field).isSome) := by
  unfold joinedPayload
  split
  next h => rw [h]; rfl
  next h => rw [Bool.eq_false_iff.mpr h]; rfl

/-- The payloads so far with one more. -/
theorem joinedPayload_concat {e : Json} {field : Text} {run : List Json} (he : Known e field)
    (h : ∀ e ∈ run, Known e field) : joinedPayload field (run ++ [e]) =
      if (joinedPayload field run).isNone && (e.get? field).isNone then none
      else some (.string (((joinedPayload field run).bind Json.text?).getD [] ++
        ((e.get? field).bind Json.text?).getD [])) := by
  have hmore : ((e.get? field).bind Json.text?).getD [] = payloadOf e := by
    rw [payloadOf, he.field_eq]
  rw [isNone_joinedPayload, text?_joinedPayload h, hmore, joinedPayload, List.any_append,
    List.any_cons, List.any_nil, Bool.or_false, List.flatMap_append, List.flatMap_singleton]
  cases run.any (fun e => (e.get? field).isSome) <;> cases e.get? field <;> rfl

/-- The payload members are none of those with a fill. -/
structure OtherName (field : Text) : Prop where
  format : field ≠ "format"
  id : field ≠ "id"
  index : field ≠ "index"
  signature : field ≠ "signature"

theorem field_names {e : Json} {field : Text} (h : payloadField e = some field) :
    OtherName field := by
  obtain ⟨rfl, -⟩ | ⟨rfl, -⟩ | ⟨rfl, -⟩ := payloadField_cases h
  · exact ⟨by decide, by decide, by decide, by decide⟩
  · exact ⟨by decide, by decide, by decide, by decide⟩
  · exact ⟨by decide, by decide, by decide, by decide⟩

/-- The payload first, then the members one fill after another: each touches its own member. -/
theorem get?_reasoningMerge {v e : Json} {field : Text} (h : v.isObject = true)
    (hnames : OtherName field) (k : Text) : (reasoningMerge v e field).get? k =
      (if k = field then
        if (v.get? field).isNone && (e.get? field).isNone then none
        else some (.string (((v.get? field).bind Json.text?).getD [] ++
          ((e.get? field).bind Json.text?).getD []))
      else if k = "format" || (k = "signature" && field = "text") then
        if truthyString (v.get? k) then v.get? k else e.get? k
      else if k = "id" || k = "index" then if nonNull (v.get? k) then v.get? k else e.get? k
      else v.get? k) ∧ (reasoningMerge v e field).isObject = true := by
  unfold reasoningMerge
  dsimp only
  obtain ⟨t₁, ht₁, hget₁, hobject₁⟩ : ∃ t₁, (if (v.get? field).isNone && (e.get? field).isNone
      then v else setAt v field (.string (((v.get? field).bind Json.text?).getD [] ++
        ((e.get? field).bind Json.text?).getD []))) = t₁ ∧
      (∀ k, t₁.get? k = if k = field then
        if (v.get? field).isNone && (e.get? field).isNone then none
        else some (.string (((v.get? field).bind Json.text?).getD [] ++
          ((e.get? field).bind Json.text?).getD []))
        else v.get? k) ∧ t₁.isObject = true := by
    refine ⟨_, rfl, ?_, ?_⟩
    · intro k
      split
      next hnone =>
        split
        next heq =>
          rw [Bool.and_eq_true] at hnone
          rw [heq, Option.isNone_iff_eq_none.mp hnone.1]
        next => rfl
      next => exact (get?_setAt h field _ k).1
    · split
      next => exact h
      next => exact (get?_setAt h field _ field).2
  obtain ⟨t₂, ht₂, hget₂, hobject₂⟩ : ∃ t₂, (if field = "text" then
      falsyFill e "signature" t₁ else t₁) = t₂ ∧
      (∀ k, t₂.get? k = if k = "signature" ∧ field = "text" then
        if truthyString (t₁.get? "signature") then t₁.get? "signature" else e.get? "signature"
        else t₁.get? k) ∧ t₂.isObject = true := by
    refine ⟨_, rfl, ?_, ?_⟩
    · intro k
      split
      next htext =>
        rw [(get?_falsyFill hobject₁ "signature" k).1]
        simp only [htext, and_true]
      next htext => simp only [htext, and_false, if_false]
    · split
      next => exact (get?_falsyFill hobject₁ "signature" field).2
      next => exact hobject₁
  rw [ht₁, ht₂]
  have hid := fun k => get?_nullishFill (s := e) hobject₂ "id" k
  have hformat := fun k => get?_falsyFill (s := e) (hid []).2 "format" k
  have hindex := fun k => get?_nullishFill (s := e) (hformat []).2 "index" k
  refine ⟨?_, (hindex []).2⟩
  have hfi : text "format" ≠ "id" := by decide
  have hfx : text "format" ≠ "index" := by decide
  have hfs : text "format" ≠ "signature" := by decide
  have hix : text "id" ≠ "index" := by decide
  have his : text "id" ≠ "signature" := by decide
  have hxs : text "index" ≠ "signature" := by decide
  rw [(hindex k).1, (hformat k).1, (hformat "index").1, (hid k).1, (hid "index").1,
    (hid "format").1]
  simp only [hget₂, hget₁]
  by_cases hk : k = field
  · subst hk
    simp only [hnames.format, hnames.id, hnames.index, hnames.signature, if_true, if_false,
      false_and]
  · rw [if_neg hk]
    by_cases hkf : k = "format"
    · subst hkf
      simp [hfi, hfx, hfs, hk]
    · by_cases hki : k = "id"
      · subst hki
        simp [hfi.symm, hix, his, hk]
      · by_cases hkx : k = "index"
        · subst hkx
          simp [hfx.symm, hix.symm, hxs, hk]
        · by_cases hks : k = "signature"
          · subst hks
            simp [hfs.symm, his.symm, hxs.symm, hk]
          · simp [hkf, hki, hkx, hks, hk]

/-- One more element of the type. -/
theorem Merged.merge {field : Text} {run : List Json} {v e : Json} (h : Merged field run v)
    (he : Known e field) : Merged field (run ++ [e]) (reasoningMerge v e field) := by
  have hget := h.get?_eq
  cases run with
  | nil => exact absurd rfl h.nonempty
  | cons first rest =>
      have hfirst := (h.known first List.mem_cons_self).field_eq
      have hmerge := get?_reasoningMerge (e := e) h.isObject (field_names hfirst)
      refine ⟨(hmerge []).2, by simp, ?_, ?_⟩
      · intro e' he'
        rw [List.mem_append, List.mem_singleton] at he'
        cases he' with
        | inl hin => exact h.known e' hin
        | inr heq => exact heq ▸ he
      · intro k
        have hconcat : ∀ p, firstElseLast p (first :: (rest ++ [e])) k =
            if p (firstElseLast p (first :: rest) k) then firstElseLast p (first :: rest) k
            else e.get? k := fun p => firstElseLast_concat (List.cons_ne_nil first rest) e k
        have hpayload := joinedPayload_concat he h.known
        rw [List.cons_append] at hpayload ⊢
        rw [(hmerge k).1, runMember_cons first (rest ++ [e]) hfirst, hpayload, hconcat, hconcat,
          hget field, hget k, runMember_cons first rest hfirst, runMember_cons first rest hfirst,
          if_pos rfl]
        by_cases hfield : k = field
        · rw [if_pos hfield, if_pos hfield]
        · rw [if_neg hfield, if_neg hfield, if_neg hfield]
          split
          next => rfl
          next => split <;> rfl

theorem Merged.type_eq {field : Text} {run : List Json} {v : Json} (h : Merged field run v)
    {e : Json} {g : Text} (he : payloadField e = some g) :
    v.get? "type" = e.get? "type" ↔ field = g := by
  have hget := h.get?_eq "type"
  cases run with
  | nil => exact absurd rfl h.nonempty
  | cons first rest =>
      have hfirst := (h.known first List.mem_cons_self).field_eq
      have hfield : text "type" ≠ field := by
        obtain ⟨rfl, -⟩ | ⟨rfl, -⟩ | ⟨rfl, -⟩ := payloadField_cases hfirst
        · decide
        · decide
        · decide
      rw [runMember_cons first rest hfirst, if_neg hfield,
        if_neg (by simp [show text "type" ≠ "format" by decide,
          show text "type" ≠ "signature" by decide]),
        if_neg (by decide)] at hget
      rw [hget]
      exact type_eq_iff hfirst he

theorem Merged.joins_last {field : Text} {run : List Json} {v : Json} (h : Merged field run v)
    {e : Json} {g : Text} (he : payloadField e = some g) {x : Json} (hx : x ∈ run.getLast?) :
    joins x e = true ↔ field = g ∧ g ≠ "data" := by
  have hmem : x ∈ run := List.mem_of_getLast? hx
  rw [joins, (h.known x hmem).field_eq, he]
  simp

/-! ## The whole fold -/

/-- The record that the fold holds, unless it failed, and when it did. -/
structure Folded (es : List Json) (r : Reasoning) : Prop where
  failed : r.failed = false ↔ Within es
  elements : r.failed = false →
    List.Forall₂ (fun run v => ∃ field, Merged field run v) (es.splitBy joins) r.elements
  bytes : r.failed = false → r.bytes = (es.map fun e => (payloadOf e).length).sum

theorem within_of_concat {es : List Json} {e : Json} (h : Within (es ++ [e])) : Within es := by
  refine ⟨fun e' he' => h.known e' (List.mem_append_left _ he'), ?_, ?_⟩
  · have hbytes := h.bytes
    rw [List.map_append, List.sum_append] at hbytes
    omega
  · exact (Runs.length_splitBy_le_concat es e).trans h.elements

theorem folded_nil : Folded [] {} := by
  refine ⟨⟨fun _ => ⟨nofun, Nat.zero_le _, Nat.zero_le _⟩, fun _ => rfl⟩, fun _ => ?_, fun _ => rfl⟩
  exact .nil

/-- One more element. -/
theorem Folded.add {es : List Json} {r : Reasoning} (h : Folded es r) (e : Json) :
    Folded (es ++ [e]) (reasoningAdd r e) := by
  -- what makes the record fail is that the elements are not within the limits
  have hfail : ∀ r' : Reasoning, r'.failed = true → ¬Within (es ++ [e]) → Folded (es ++ [e]) r' := by
    intro r' hr' hnot
    refine ⟨⟨fun hno => ?_, fun hin => absurd hin hnot⟩, fun hno => ?_, fun hno => ?_⟩
    · rw [hr'] at hno
      cases hno
    · rw [hr'] at hno
      cases hno
    · rw [hr'] at hno
      cases hno
  unfold reasoningAdd
  by_cases hfailed : r.failed = true
  · rw [if_pos hfailed]
    apply hfail r hfailed
    intro hwithin
    rw [h.failed.mpr (within_of_concat hwithin)] at hfailed
    cases hfailed
  rw [if_neg hfailed]
  rw [Bool.not_eq_true] at hfailed
  have hwithin := h.failed.mp hfailed
  have hruns := h.elements hfailed
  have hbytes := h.bytes hfailed
  cases hpayload : reasoningPayload e with
  | none =>
      apply hfail _ rfl
      intro hin
      have hknown := hin.known e (by simp)
      rw [hpayload] at hknown
      cases hknown
  | some field =>
      have he := known_of_payload hpayload
      have hlength : (((e.get? field).bind Json.text?).getD []).length = (payloadOf e).length := by
        rw [payloadOf, he.field_eq]
      have htotal : ((es ++ [e]).map fun e => (payloadOf e).length).sum =
          r.bytes + (payloadOf e).length := by
        rw [List.map_append, List.sum_append, hbytes]
        rfl
      have hknown : ∀ e' ∈ es ++ [e], (reasoningPayload e').isSome = true := by
        intro e' he'
        rw [List.mem_append, List.mem_singleton] at he'
        cases he' with
        | inl hin => exact hwithin.known e' hin
        | inr heq => rw [heq, hpayload]; rfl
      dsimp only
      rw [hlength]
      by_cases hroom : (payloadOf e).length > reasoningMaxBytes - r.bytes
      · rw [if_pos hroom]
        apply hfail _ rfl
        intro hin
        have hsum := hin.bytes
        have hold := hwithin.bytes
        rw [htotal] at hsum
        omega
      rw [if_neg hroom]
      have hsum : ((es ++ [e]).map fun e => (payloadOf e).length).sum ≤ reasoningMaxBytes := by
        have hold := hwithin.bytes
        omega
      cases List.eq_nil_or_concat (es.splitBy joins) with
      | inl hnil =>
          have hes : es = [] := List.splitBy_eq_nil.mp hnil
          rw [hnil] at hruns
          have hempty : r.elements = [] := List.forall₂_nil_left_iff.mp hruns
          rw [hempty, if_neg (by simp), if_pos (by decide)]
          refine ⟨⟨fun _ => ⟨hknown, hsum, ?_⟩, fun _ => hfailed⟩, fun _ => ?_, fun _ => ?_⟩
          · rw [hes, List.nil_append, Runs.splitBy_singleton]
            show 1 ≤ reasoningMaxElements
            decide
          · rw [hes, List.nil_append, Runs.splitBy_singleton]
            exact .cons ⟨field, merged_singleton he⟩ .nil
          · rw [htotal]
      | inr hconcat =>
          obtain ⟨gs, g, hsplit⟩ := hconcat
          rw [List.concat_eq_append] at hsplit
          rw [hsplit] at hruns
          obtain ⟨vs, v, hvs, hinit, f, hmerged⟩ := Runs.forall₂_concat hruns
          have hcount := hwithin.elements
          rw [hsplit, List.length_append] at hcount
          have hvslength : vs.length = gs.length := hinit.length_eq.symm
          have hlast : r.elements.getLast? = some v := by rw [hvs, List.getLast?_concat]
          have hjoins : (decide (field ≠ "data") &&
              r.elements.getLast?.any fun l => l.get? "type" = e.get? "type") = true ↔
              f = field ∧ field ≠ "data" := by
            rw [hlast, Option.any_some, Bool.and_eq_true, decide_eq_true_eq, decide_eq_true_eq,
              hmerged.type_eq he.field_eq]
            exact and_comm
          by_cases hmerge : f = field ∧ field ≠ "data"
          · -- the element continues the last run
            rw [if_pos (hjoins.mpr hmerge), hlast, hvs, List.dropLast_concat]
            have hjoined := Runs.splitBy_concat_join hsplit fun x hx =>
              (hmerged.joins_last he.field_eq hx).mpr hmerge
            refine ⟨⟨fun _ => ⟨hknown, hsum, ?_⟩, fun _ => hfailed⟩, fun _ => ?_, fun _ => ?_⟩
            · rw [hjoined, List.length_append]
              exact hcount
            · rw [hjoined]
              obtain rfl := hmerge.1
              exact List.rel_append hinit (.cons ⟨f, hmerged.merge he⟩ .nil)
            · rw [htotal]
          · -- the element begins a run
            rw [if_neg (fun h => hmerge (hjoins.mp h))]
            have hbegun : (es ++ [e]).splitBy joins = gs ++ [g] ++ [[e]] := by
              rw [Runs.splitBy_concat_break, hsplit]
              intro x hx
              rw [← Runs.getLast?_of_splitBy hsplit] at hx
              rw [Bool.eq_false_iff]
              exact fun h => hmerge ((hmerged.joins_last he.field_eq hx).mp h)
            have hlengths : r.elements.length = ((es ++ [e]).splitBy joins).length - 1 := by
              rw [hbegun, hvs]
              simp [hvslength]
            have hpos : 0 < ((es ++ [e]).splitBy joins).length := by
              rw [hbegun]
              simp
            by_cases hspace : r.elements.length < reasoningMaxElements
            · rw [if_pos hspace]
              refine ⟨⟨fun _ => ⟨hknown, hsum, by omega⟩, fun _ => hfailed⟩, fun _ => ?_,
                fun _ => ?_⟩
              · rw [hbegun, hvs]
                exact List.rel_append (List.rel_append hinit (.cons ⟨f, hmerged⟩ .nil))
                  (.cons ⟨field, merged_singleton he⟩ .nil)
              · rw [htotal]
            · rw [if_neg hspace]
              apply hfail _ rfl
              intro hin
              have hmany := hin.elements
              omega

theorem folded (es : List Json) : Folded es (es.foldl reasoningAdd {}) := by
  induction es using List.reverseRecOn with
  | nil => exact folded_nil
  | append_singleton es e ih =>
      rw [List.foldl_concat]
      exact ih.add e

/-! ### The values of the reference -/

theorem lookup_filterMap (f : Text → Option Json) (names : List Text) (k : Text) :
    (names.filterMap fun key => (f key).map fun v => (key, v)).lookup k =
      if k ∈ names then f k else none := by
  induction names with
  | nil => rfl
  | cons name names ih =>
      rw [List.filterMap_cons]
      by_cases hk : k = name
      · subst hk
        cases hf : f k with
        | none => simp [hf, ih]
        | some v => simp
      · cases hf : f name with
        | none => simp [ih, hk]
        | some v => simp [List.lookup_cons, ih, hk, beq_false_of_ne hk]

theorem Merged.same {field : Text} {run : List Json} {v : Json} (h : Merged field run v) :
    Same v (runValue run) := by
  refine ⟨h.isObject, rfl, ?_⟩
  intro k
  have hget := h.get?_eq k
  show v.get? k = List.lookup k _
  rw [lookup_filterMap]
  by_cases hk : k ∈ memberKeys
  · rw [if_pos hk, hget]
  · rw [if_neg hk, hget]
    -- a member under any other name would have been the first element's
    have hother : ∀ name ∈ memberKeys, k ≠ name := fun name hname heq => hk (heq ▸ hname)
    cases run with
    | nil => rfl
    | cons first rest =>
        have hfirst := h.known first List.mem_cons_self
        have hfield : k ≠ field := by
          obtain ⟨rfl, -⟩ | ⟨rfl, -⟩ | ⟨rfl, -⟩ := payloadField_cases hfirst.field_eq
          · exact hother _ (by decide)
          · exact hother _ (by decide)
          · exact hother _ (by decide)
        rw [runMember_cons first rest hfirst.field_eq, if_neg hfield,
          if_neg (by simp [hother "format" (by decide), hother "signature" (by decide)]),
          if_neg (by simp [hother "id" (by decide), hother "index" (by decide)])]
        cases hvalue : first.get? k with
        | none => rfl
        | some x => exact absurd (hfirst.keys_mem hvalue) hk

theorem Folded.reference {es : List Json} {r : Reasoning} (h : Folded es r)
    (hfailed : r.failed = false) : List.Forall₂ Same r.elements (reference es) := by
  unfold ResponseObserver.reference
  rw [List.forall₂_map_right_iff]
  exact (h.elements hfailed).flip.imp fun v run hmerged => hmerged.choose_spec.same

/-! ## Elements of a response -/

/-- The reasoning elements of a choice. -/
def Choice.thoughts (r : Choice) : List Json := (r.details.map Json.elements).getD []

/-- The reasoning elements of a chunk. -/
def Piece.thoughts (p : Piece) : List Json := (p.choice.map Choice.thoughts).getD []

/-- An event sequence is a complete response, with the elements `before` up to its terminal choice
and the elements `after` behind it. -/
def Delivered (m : Dialect) (loader : Loader) (ts : List Text) (before after : List Json) : Prop :=
  ∃ texts body tail opening terminal tools, ts = texts ++ [text "[DONE]"] ∧
    List.Forall₂ (fun t p => readEvent m loader t = some p) texts (body ++ tail) ∧
    Consistent (body ++ tail) ∧ Course m opening terminal tools (body ++ tail) ∧
    body.map (·.choice) = (opening ++ [terminal]).map some ∧
    before = (opening ++ [terminal]).flatMap Choice.thoughts ∧ after = tail.flatMap Piece.thoughts

/-- The record after some elements, which fail it when they come after the finish. -/
def addThoughts (finished : Bool) (r : Reasoning) (es : List Json) : Reasoning :=
  es.foldl reasoningAdd (if finished && es ≠ [] then { r with failed := true } else r)

theorem foldl_failed {r : Reasoning} (h : r.failed = true) (es : List Json) :
    es.foldl reasoningAdd r = r := by
  induction es with
  | nil => rfl
  | cons e es ih => rw [List.foldl_cons, reasoningAdd, if_pos h, ih]

theorem addThoughts_late (r : Reasoning) (es : List Json) :
    addThoughts true r es = if es = [] then r else { r with failed := true } := by
  unfold addThoughts
  by_cases hes : es = []
  · rw [if_pos hes, hes]
    rfl
  · rw [if_neg hes, if_pos (by simp [hes])]
    exact foldl_failed rfl es

theorem takeDetails_thoughts (b : Body) (r : Choice) : takeDetails b r.details =
    { b with reasoning := addThoughts b.finished b.reasoning r.thoughts } := by
  unfold takeDetails
  split
  next e es hdetails =>
    have hthoughts : r.thoughts = e :: es := by rw [Choice.thoughts, hdetails]; rfl
    rw [hthoughts, addThoughts]
    cases b.finished <;> rfl
  next hdetails =>
    have hthoughts : r.thoughts = [] := by
      rw [Choice.thoughts]
      cases hsome : r.details with
      | none => rfl
      | some v =>
          cases v with
          | array es =>
              cases es with
              | nil => rfl
              | cons e es => exact absurd hsome (hdetails e es)
          | _ => rfl
    rw [hthoughts]
    cases b with
    | mk => simp [addThoughts]

theorem addChoice_thoughts (b : Body) (r : Choice) :
    (addChoice b r).reasoning = addThoughts b.finished b.reasoning r.thoughts ∧
      (addChoice b r).finished = b.finished := by
  refine ⟨?_, (addChoice_frame b r).1⟩
  unfold addChoice
  rw [takeDetails_thoughts, addCalls_eq]
  cases r.deltas with
  | none => rfl
  | some es =>
      dsimp only
      split
      next => rfl
      next => rfl

/-- One chunk. -/
theorem stepBody_thoughts {m : Dialect} {b b' : Body} {p : Piece} (h : stepBody m b p = some b') :
    b'.reasoning = addThoughts b.finished b.reasoning p.thoughts ∧
      b'.finished = (b.finished || (p.choice.bind Choice.finish).isSome) := by
  unfold stepBody at h
  split at h
  next hchoice =>
    split at h
    next => cases h
    next =>
      obtain rfl := Option.some.inj h
      rw [Piece.thoughts, hchoice]
      simp [addThoughts]
  next r hchoice =>
    have hadd := addChoice_thoughts b r
    rw [Piece.thoughts, hchoice]
    show _ = addThoughts b.finished b.reasoning r.thoughts ∧ _ = (b.finished || r.finish.isSome)
    unfold stepChoice at h
    split at h
    next => cases h
    next =>
      split at h
      next => cases h
      next =>
        split at h
        next => cases h
        next =>
          dsimp only at h
          cases hfinish : r.finish with
          | none =>
              rw [hfinish] at h
              obtain rfl := Option.some.inj h
              rw [hadd.2, Option.isSome_none, Bool.or_false]
              exact ⟨hadd.1, rfl⟩
          | some tools =>
              rw [hfinish] at h
              dsimp only at h
              split at h
              next => cases h
              next =>
                obtain rfl := Option.some.inj h
                rw [Option.isSome_some, Bool.or_true]
                exact ⟨hadd.1, rfl⟩

/-- Up to the terminal choice the elements are added one after another. -/
theorem foldlM_thoughts {m : Dialect} {cs : List Choice} {ps : List Piece} {b b' : Body}
    (hps : ps.map (·.choice) = cs.map some) (hunfinished : ∀ c ∈ cs, c.finish = none)
    (hb : b.finished = false) (hrun : ps.foldlM (stepBody m) b = some b') :
    b'.finished = false ∧
      b'.reasoning = (cs.flatMap Choice.thoughts).foldl reasoningAdd b.reasoning := by
  induction cs generalizing ps b with
  | nil =>
      obtain rfl := List.map_eq_nil_iff.mp hps
      obtain rfl := Option.some.inj hrun
      exact ⟨hb, rfl⟩
  | cons c cs ih =>
      obtain ⟨p, ps, rfl, hp, hrest⟩ := List.map_eq_cons_iff.mp hps
      rw [List.foldlM_cons] at hrun
      obtain ⟨b₁, hstep, htail⟩ := Option.bind_eq_some_iff.mp hrun
      obtain ⟨hreasoning, hfinished⟩ := stepBody_thoughts hstep
      rw [hp, Option.bind_some, hunfinished c List.mem_cons_self, hb] at hfinished
      have hresult := ih hrest (fun c' hc' => hunfinished c' (List.mem_cons_of_mem _ hc'))
        hfinished htail
      rw [List.flatMap_cons, List.foldl_append, hresult.2, hreasoning, Piece.thoughts, hp, hb]
      exact ⟨hresult.1, rfl⟩

/-- After it every element fails the record. -/
theorem foldlM_late {m : Dialect} {ps : List Piece} {b b' : Body} (hb : b.finished = true)
    (hrun : ps.foldlM (stepBody m) b = some b') :
    b'.reasoning = addThoughts true b.reasoning (ps.flatMap Piece.thoughts) := by
  induction ps generalizing b with
  | nil =>
      obtain rfl := Option.some.inj hrun
      rfl
  | cons p ps ih =>
      rw [List.foldlM_cons] at hrun
      obtain ⟨b₁, hstep, htail⟩ := Option.bind_eq_some_iff.mp hrun
      obtain ⟨hreasoning, hfinished⟩ := stepBody_thoughts hstep
      rw [hb, Bool.true_or] at hfinished
      rw [ih hfinished htail, hreasoning, hb, List.flatMap_cons, addThoughts_late, addThoughts_late,
        addThoughts_late]
      by_cases hp : p.thoughts = []
      · rw [if_pos hp, hp, List.nil_append]
      · have hboth : p.thoughts ++ ps.flatMap Piece.thoughts ≠ [] := by simp [hp]
        rw [if_neg hp, if_neg hboth]
        split <;> rfl

/-- The reasoning of a body after a whole course. -/
theorem thoughts_of_course {m : Dialect} {opening : List Choice} {terminal : Choice} {tools : Bool}
    {body tail : List Piece} {b : Body} (hcourse : Course m opening terminal tools (body ++ tail))
    (hbody : body.map (·.choice) = (opening ++ [terminal]).map some)
    (hrun : (body ++ tail).foldlM (stepBody m) {} = some b) :
    b.reasoning = addThoughts true
      (((opening ++ [terminal]).flatMap Choice.thoughts).foldl reasoningAdd {})
      (tail.flatMap Piece.thoughts) := by
  rw [List.map_append, List.map_singleton] at hbody
  obtain ⟨qs, last, rfl, hqs, hlast⟩ := List.map_eq_append_iff.mp hbody
  obtain ⟨p, rfl, hp⟩ := List.map_eq_singleton_iff.mp hlast
  rw [List.foldlM_append, List.foldlM_append] at hrun
  obtain ⟨b₂, hboth, htail⟩ := Option.bind_eq_some_iff.mp hrun
  obtain ⟨b₁, hopening, hlast⟩ := Option.bind_eq_some_iff.mp hboth
  rw [List.foldlM_cons] at hlast
  obtain ⟨b₂', hstep, hnil⟩ := Option.bind_eq_some_iff.mp hlast
  obtain rfl := Option.some.inj hnil
  obtain ⟨hfinished, hthoughts⟩ := foldlM_thoughts hqs hcourse.unfinished rfl hopening
  obtain ⟨hreasoning, hterminal⟩ := stepBody_thoughts hstep
  rw [hp, Option.bind_some, hcourse.finish, Option.isSome_some, Bool.or_true] at hterminal
  rw [foldlM_late hterminal htail, hreasoning, hfinished, hthoughts, Piece.thoughts, hp,
    List.flatMap_append, List.flatMap_singleton, List.foldl_append]
  rfl

/-! ## The record of a response -/

/-- The observer has a record exactly for a complete response with reasoning elements, all of them
before the finish, of known shape and within the limits; and the record is the reference computed
on the list of these elements. -/
theorem reasoning_is_reference (m : Dialect) (loader : Loader) (ts : List Text)
    (pending line : Text) (cr : Bool) :
    let o : Decoder :=
      { toEvents := { runEvents m loader {} ts with event := pending }, line := line, cr := cr }
    ((reasoning o).isSome = true ↔ pending = [] ∧ line = [] ∧
      ∃ es, Delivered m loader ts es [] ∧ es ≠ [] ∧ Within es) ∧
    ∀ record, reasoning o = some record → ∀ es, Delivered m loader ts es [] →
      List.Forall₂ Same record (reference es) := by
  intro o
  have hsome : ∀ record, reasoning o = some record ↔ complete o = true ∧
      o.content.reasoning.failed = false ∧ o.content.reasoning.elements ≠ [] ∧
      record = o.content.reasoning.elements := by
    intro record
    rw [reasoning]
    split
    next hparts =>
      simp only [Bool.and_eq_true, Bool.not_eq_true', decide_eq_true_eq] at hparts
      rw [Option.some_inj]
      constructor
      · exact fun h => ⟨hparts.1.1, hparts.1.2, hparts.2, h.symm⟩
      · exact fun h => h.2.2.2.symm
    next hparts =>
      refine ⟨nofun, fun h => absurd ?_ hparts⟩
      simp only [Bool.and_eq_true, Bool.not_eq_true', decide_eq_true_eq]
      exact ⟨⟨h.1, h.2.1⟩, h.2.2.1⟩
  have hdelivered : ∀ es after, pending = [] → line = [] → Delivered m loader ts es after →
      complete o = true ∧
      o.content.reasoning = addThoughts true (es.foldl reasoningAdd {}) after := by
    intro es after hpending hline hdelivered
    subst hpending
    subst hline
    obtain ⟨texts, body, tail, opening, terminal, tools, hts, hread, hconsistent, hcourse, hbody,
      rfl, rfl⟩ := hdelivered
    obtain ⟨hcomplete, -, hrun, -⟩ :=
      complete_of_course (o := o) cr hts hread hconsistent hcourse rfl
    exact ⟨hcomplete, thoughts_of_course hcourse hbody hrun⟩
  have hempty : ∀ {es : List Json} {r : Reasoning}, Folded es r → r.failed = false →
      (r.elements ≠ [] ↔ es ≠ []) := by
    intro es r hfolded hfailed
    have hruns := hfolded.elements hfailed
    rw [← List.splitBy_ne_nil (r := joins) (l := es)]
    cases hr : r.elements with
    | nil =>
        rw [hr] at hruns
        rw [List.forall₂_nil_right_iff.mp hruns]
        exact iff_of_false (fun h => h rfl) (fun h => h rfl)
    | cons v vs =>
        rw [hr] at hruns
        obtain ⟨g, gs, -, -, hsplit⟩ := List.forall₂_cons_right_iff.mp hruns
        rw [hsplit]
        exact iff_of_true (List.cons_ne_nil _ _) (List.cons_ne_nil _ _)
  constructor
  · rw [Option.isSome_iff_exists]
    constructor
    · intro h
      obtain ⟨record, hrecord⟩ := h
      obtain ⟨hcomplete, hfailed, helements, -⟩ := (hsome record).mp hrecord
      obtain ⟨hpending, hline, texts, ps, opening, terminal, tools, tail, hts, hread, hconsistent,
        hcourse, -, hrun, -⟩ := course_of_complete (o := o) rfl hcomplete
      obtain ⟨body, rest, rfl, hbody, -⟩ := hcourse.choices
      have hthoughts := thoughts_of_course hcourse hbody hrun
      have hlate : rest.flatMap Piece.thoughts = [] := by
        by_contra hsome
        rw [hthoughts, addThoughts_late, if_neg hsome] at hfailed
        cases hfailed
      rw [hlate] at hthoughts
      have hfolded := folded ((opening ++ [terminal]).flatMap Choice.thoughts)
      have hsame : o.content.reasoning =
          ((opening ++ [terminal]).flatMap Choice.thoughts).foldl reasoningAdd {} := hthoughts
      rw [hsame] at hfailed helements
      exact ⟨hpending, hline, _, ⟨texts, body, rest, opening, terminal, tools, hts, hread,
        hconsistent, hcourse, hbody, rfl, hlate.symm⟩, (hempty hfolded hfailed).mp helements,
        hfolded.failed.mp hfailed⟩
    · intro h
      obtain ⟨hpending, hline, es, hes, hne, hwithin⟩ := h
      obtain ⟨hcomplete, hreasoning⟩ := hdelivered es [] hpending hline hes
      have hsame : o.content.reasoning = es.foldl reasoningAdd {} := hreasoning
      have hfolded := folded es
      have hfailed := hfolded.failed.mpr hwithin
      refine ⟨_, (hsome _).mpr ⟨hcomplete, ?_, ?_, rfl⟩⟩
      · rw [hsame]
        exact hfailed
      · rw [hsame]
        exact (hempty hfolded hfailed).mpr hne
  · intro record hrecord es hes
    obtain ⟨hcomplete, hfailed, -, rfl⟩ := (hsome record).mp hrecord
    obtain ⟨hpending, hline, -⟩ := course_of_complete (o := o) rfl hcomplete
    obtain ⟨-, hreasoning⟩ := hdelivered es [] hpending hline hes
    have hsame : o.content.reasoning = es.foldl reasoningAdd {} := hreasoning
    rw [hsame] at hfailed ⊢
    exact (folded es).reference hfailed

end Recursant.ResponseObserver
