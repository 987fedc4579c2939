import Recursant.Document.Acceptance

/-!
# The schema of a configuration document

What the document has to be, and how the loader falls short of it: a node does not say whether it
was an object or an array, nor whether its text was a string or a literal, and a key ends at its
first NUL.
-/

namespace Recursant.Document

open JsonString JsonText Startup

/-! ## Loading a text of the grammar -/

theorem parseValue_skipWs {w : Text} (hw : Space w) (depth : Nat) (s : Text) :
    parseValue depth (w ++ s) = parseValue depth s := by
  cases depth <;>
  · unfold parseValue parseValueWith
    rw [skipWs_space hw]

theorem load_of_parses {v : Value} {doc : Text} (h : Parses v doc) :
    load doc = if (node none v).child.isEmpty || (node none v).str.isSome then
      reject "config document must be a JSON object" else bindRoot (node none v) := by
  obtain ⟨w, t, w', hw, ht, hw', rfl⟩ := h
  have hends : Ends w' := by
    intro c hc
    have hspace := hw' c (List.mem_of_mem_head? hc)
    unfold isSpace at hspace
    simp only [Bool.or_eq_true, decide_eq_true_eq] at hspace
    rcases hspace with ((rfl | rfl) | rfl) | rfl <;> decide
  have hparse : parseValue maxDepth (w ++ t ++ w') = .ok (node none v, w') := by
    rw [List.append_assoc, parseValue_skipWs hw]
    exact parseValue_complete maxDepth v t w' ht hends
  have hnone : skipWs w' = [] := List.dropWhile_eq_nil_iff.mpr hw'
  unfold load
  rw [hparse]
  dsimp only
  rw [hnone, if_neg (by simp)]

/-- Behind the parser and the check of the root, the loader is the binder on some value. -/
theorem parses_of_load {doc : Text} {x : Loaded RcConfig} (h : load doc = x)
    (hx : Accepted x ∨ Crashes x) : ∃ v, Parses v doc ∧ bindRoot (node none v) = x := by
  have hreject (message : Text) : reject message ≠ x := by
    rintro rfl
    cases hx with
    | inl hx => exact not_accepted_reject message hx
    | inr hx => cases hx
  unfold load at h
  split at h
  next => exact absurd h (hreject _)
  next root rest hparse =>
      obtain ⟨w, v, t, hw, ht, hdoc, rfl⟩ := parseValue_sound maxDepth _ _ _ hparse
      split at h
      next => exact absurd h (hreject _)
      next hrest =>
          split at h
          next => exact absurd h (hreject _)
          next =>
              have hspace : Space rest := List.dropWhile_eq_nil_iff.mp (Decidable.not_not.mp hrest)
              exact ⟨v, ⟨w, t, rest, hw, ht, hspace, hdoc⟩, h⟩

theorem object_of_get {v f : Value} {k : Text} (h : get v k = some f) :
    ∃ members, v = .object members ∧ members ≠ [] := by
  cases v with
  | object members =>
      refine ⟨members, rfl, ?_⟩
      rintro rfl
      cases h
  | string | number | word | array => cases h

/-- A root with a member, or with an item, gets to the binder. -/
theorem load_eq_bindRoot {v : Value} {doc : Text} (h : Parses v doc)
    (hv : NonemptyArray v ∨ ∃ k f, get v k = some f) : load doc = bindRoot (node none v) := by
  rw [load_of_parses h, if_neg]
  rcases hv with ⟨item, items, rfl⟩ | ⟨k, f, hf⟩
  · exact Bool.false_ne_true
  · obtain ⟨members, rfl, hne⟩ := object_of_get hf
    obtain ⟨m, ms, rfl⟩ := List.exists_cons_of_ne_nil hne
    exact Bool.false_ne_true

/-! ## The schema -/

/-- The elements of a list that may be missing. -/
def entries (v : Value) (k : Text) : List Value := (get v k).toList.flatMap elements

/-- Every object of the schema with the keys that it may have. -/
def objects (v : Value) : List (Value × List Text) :=
  (v, rootKeys) :: ((get v "listen").toList.map (·, listenKeys) ++
    (get v "private").toList.map (·, sectionKeys false) ++
    (get v "public").toList.map (·, sectionKeys true) ++
    (get v "limits").toList.map (·, limitsKeys) ++
    (entries v "aliases").map (·, aliasKeys) ++ (entries v "projects").map (·, projectKeys))

/-- The values of some fields, where they are there. -/
def fields (os : List Value) (keys : List Text) : List Value :=
  os.flatMap fun o => keys.filterMap (get o)

def lists (v : Value) : List Value := fields [v] ["aliases", "projects"]

def stringFields (v : Value) : List Value :=
  fields (get v "listen").toList ["host"] ++ fields (get v "private").toList (sectionKeys false) ++
    fields (get v "public").toList (sectionKeys true) ++ fields (entries v "aliases") aliasKeys ++
    fields (entries v "projects") projectKeys

def integerFields (v : Value) : List Value :=
  fields (get v "listen").toList ["port"] ++ fields (get v "limits").toList limitsKeys

/-- An object whose keys are different, and each in full one of these. -/
def ObjectOf (known : List Text) (v : Value) : Prop :=
  ∃ members, v = .object members ∧ (members.map Prod.fst).Nodup ∧ ∀ m ∈ members, encode m.1 ∈ known

structure Schema (v : Value) : Prop where
  objects : ∀ o ∈ objects v, ObjectOf o.2 o.1
  lists : ∀ l ∈ lists v, ∃ items, l = .array items
  strings : ∀ f ∈ stringFields v, ∃ s, f = .string s
  integers : ∀ f ∈ integerFields v, IsLong f

/-- The loader keeps to the schema: it does not crash, and what it accepts is a text of the grammar
whose value is as the schema says. -/
def KeepsSchema (doc : Text) : Prop :=
  ¬ Crashes (load doc) ∧
    (Accepted (load doc) → (∃ v, Parses v doc) ∧ ∀ v, Parses v doc → Schema v)

/-- A key with a NUL. -/
def NulKey (v : Value) : Prop := ∃ members, v = .object members ∧ ∃ m ∈ members, Char.ofNat 0 ∈ m.1

/-- What the binder cannot tell from what the schema asks for: a key that only begins like a known
one, an empty array in the place of an object, an object in the place of a list, and a literal in
the place of a string. -/
def Loophole (v : Value) : Prop :=
  (∃ o ∈ objects v, NulKey o.1 ∨ o.1 = .array []) ∨
    (∃ l ∈ lists v, ∃ members, l = .object members) ∨
    ∃ f ∈ stringFields v, ∃ w, f = .word w

/-! ## Parts of a text -/

/-- The value of some text within the limits. -/
def Texted (v : Value) : Prop := ∃ depth t, Within depth v t

/-- The members of an object have texts, and its keys are different. -/
theorem Texted.object {members : List (List Char × Value)} (h : Texted (.object members)) :
    (∀ m ∈ members, Texted m.2) ∧ DistinctKeys (members.map Prod.fst) := by
  obtain ⟨depth, t, ht⟩ := h
  cases depth with
  | zero => cases ht
  | succ depth =>
      cases ht with
      | inl hscalar => cases hscalar
      | inr hcontainer =>
          cases hcontainer with
          | emptyObject => exact ⟨nofun, List.nodup_nil⟩
          | object hmembers hkeys =>
              refine ⟨fun m hm => ?_, hkeys⟩
              obtain ⟨t', ht'⟩ := hmembers.mem m hm
              cases ht' with
              | mk _ _ _ hvalue => exact ⟨depth, _, hvalue⟩

theorem Texted.array {items : List Value} (h : Texted (.array items)) :
    ∀ item ∈ items, Texted item := by
  obtain ⟨depth, t, ht⟩ := h
  cases depth with
  | zero => cases ht
  | succ depth =>
      cases ht with
      | inl hscalar => cases hscalar
      | inr hcontainer =>
          cases hcontainer with
          | emptyArray => exact nofun
          | array hitems =>
              intro item hitem
              obtain ⟨t', ht'⟩ := hitems.mem item hitem
              exact ⟨depth, t', ht'⟩

theorem Texted.number {n : Int} (h : Texted (.number n)) : longMin ≤ n ∧ n ≤ longMax := by
  obtain ⟨depth, t, ht⟩ := h
  have hscalar : Scalar ShortInteger (.number n) t := by
    cases depth with
    | zero => exact ht
    | succ depth =>
        cases ht with
        | inl hscalar => exact hscalar
        | inr hcontainer => cases hcontainer
  cases hscalar with
  | number hn => exact hn.range

theorem Texted.get {v f : Value} {k : Text} (h : Texted v) (hf : get v k = some f) : Texted f := by
  obtain ⟨members, rfl, -⟩ := object_of_get hf
  unfold Document.get at hf
  obtain ⟨m, hm, rfl⟩ := Option.map_eq_some_iff.mp hf
  exact h.object.1 m (List.mem_of_find?_eq_some hm)

theorem Texted.elements {v e : Value} (h : Texted v) (he : e ∈ elements v) : Texted e := by
  cases v with
  | array items => exact h.array e he
  | object members =>
      obtain ⟨m, hm, rfl⟩ := List.mem_map.mp he
      exact h.object.1 m hm
  | string | number | word => cases he

/-! ## Parts of the schema -/

theorem forall_toList {P : Value → Prop} {v : Value} {k : Text} :
    (∀ f ∈ (get v k).toList, P f) ↔ Optional P v k := by
  unfold Optional
  simp only [Option.mem_toList]

theorem forall_entries {P : Value → Prop} {v : Value} {k : Text} :
    (∀ e ∈ entries v k, P e) ↔ Optional (fun l => ∀ e ∈ elements l, P e) v k := by
  unfold entries
  rw [← forall_toList]
  simp only [List.mem_flatMap, forall_exists_index, and_imp]
  constructor
  · intro h l hl e he
    exact h e l hl he
  · intro h e l hl he
    exact h l hl e he

theorem forall_fields {P : Value → Prop} {os : List Value} {keys : List Text} :
    (∀ f ∈ fields os keys, P f) ↔ ∀ o ∈ os, ∀ k ∈ keys, Optional P o k := by
  unfold fields Optional
  simp only [List.mem_flatMap, List.mem_filterMap, forall_exists_index, and_imp]
  constructor
  · intro h o ho k hk f hf
    exact h f o ho k hk hf
  · intro h f o ho k hk hf
    exact h o ho k hk f hf

theorem forall_objects {P : Value → List Text → Prop} {v : Value} :
    (∀ o ∈ objects v, P o.1 o.2) ↔ P v rootKeys ∧ Optional (P · listenKeys) v "listen" ∧
      Optional (P · (sectionKeys false)) v "private" ∧
      Optional (P · (sectionKeys true)) v "public" ∧ Optional (P · limitsKeys) v "limits" ∧
      Optional (fun l => ∀ e ∈ elements l, P e aliasKeys) v "aliases" ∧
      Optional (fun l => ∀ e ∈ elements l, P e projectKeys) v "projects" := by
  unfold objects
  simp only [List.forall_mem_cons, List.forall_mem_append, List.forall_mem_map, forall_toList,
    forall_entries, and_assoc]

theorem forall_stringFields {P : Value → Prop} {v : Value} : (∀ f ∈ stringFields v, P f) ↔
    Optional (Optional P · "host") v "listen" ∧
      Optional (fun p => ∀ k ∈ sectionKeys false, Optional P p k) v "private" ∧
      Optional (fun p => ∀ k ∈ sectionKeys true, Optional P p k) v "public" ∧
      Optional (fun l => ∀ e ∈ elements l, ∀ k ∈ aliasKeys, Optional P e k) v "aliases" ∧
      Optional (fun l => ∀ e ∈ elements l, ∀ k ∈ projectKeys, Optional P e k) v "projects" := by
  unfold stringFields
  simp only [List.forall_mem_append, forall_fields, forall_toList, forall_entries,
    List.forall_mem_singleton, and_assoc]

theorem forall_integerFields {P : Value → Prop} {v : Value} : (∀ f ∈ integerFields v, P f) ↔
    Optional (Optional P · "port") v "listen" ∧
      Optional (fun l => ∀ k ∈ limitsKeys, Optional P l k) v "limits" := by
  unfold integerFields
  simp only [List.forall_mem_append, forall_fields, forall_toList, List.forall_mem_singleton]

theorem forall_lists {P : Value → Prop} {v : Value} :
    (∀ l ∈ lists v, P l) ↔ Optional P v "aliases" ∧ Optional P v "projects" := by
  unfold lists
  simp only [forall_fields, List.forall_mem_cons, List.not_mem_nil, false_implies, implies_true,
    and_true]

/-! ## The schema without a loophole -/

theorem Field.optional {P : Value → Prop} {v : Value} {k : Text} (h : Field P v k) :
    Optional P v k := by
  obtain ⟨f, hf, hP⟩ := h
  intro f' hf'
  rw [hf] at hf'
  exact Option.some.inj hf' ▸ hP

theorem Optional.imp {P Q : Value → Prop} {v : Value} {k : Text} (h : Optional P v k)
    (himp : ∀ f, P f → Q f) : Optional Q v k := fun f hf => himp f (h f hf)

theorem Field.object {P : Value → Prop} {v : Value} {k : Text} (h : Field P v k) :
    ∃ members, v = .object members := by
  obtain ⟨f, hf, -⟩ := h
  obtain ⟨members, rfl, -⟩ := object_of_get hf
  exact ⟨members, rfl⟩

/-- What the binder takes for an object. -/
def ObjectLike (known : List Text) (v : Value) : Prop :=
  KeysIn known v ∧ ((∃ members, v = .object members) ∨ v = .array [])

/-- What the binder takes for a string. -/
def StringLike (v : Value) : Prop := (∃ s, v = .string s) ∨ ∃ w, v = .word w

theorem objectLike_of_notScalar {known : List Text} {v : Value} (hkeys : KeysIn known v)
    (h : NotScalar v) : ObjectLike known v := by
  refine ⟨hkeys, ?_⟩
  cases v with
  | object members => exact .inl ⟨members, rfl⟩
  | array items => exact .inr (congrArg _ hkeys)
  | string | number | word => cases h

theorem StringLike.of_isText {v : Value} (h : IsText v) : StringLike v := by
  obtain ⟨t, ht⟩ := h
  cases v with
  | string s => exact .inl ⟨s, rfl⟩
  | word w => exact .inr ⟨w, rfl⟩
  | number | array | object => cases ht

/-- The name of an endpoint is no number. -/
theorem StringLike.of_name {v : Value} {c : Byte} {name : Text} (h : strOf v = some (c :: name))
    (hc : isdigit c = false ∧ c ≠ 45) : StringLike v := by
  cases v with
  | string s => exact .inl ⟨s, rfl⟩
  | word w => exact .inr ⟨w, rfl⟩
  | number n =>
      obtain ⟨negative, digits, hne, hdigits, ht, -⟩ := printLong_decimal n
      have hprint : printLong n = c :: name := Option.some.inj h
      rw [hprint] at ht
      cases negative with
      | true => exact absurd (List.cons.inj ht).1 hc.2
      | false =>
          have hdigit : isdigit c = true := hdigits c (by rw [← show c :: name = digits from ht]; simp)
          rw [hc.1] at hdigit
          cases hdigit
  | array | object => cases h

theorem objectOf_of_like {known : List Text} {v : Value} (h : ObjectLike known v) (ht : Texted v)
    (hnul : ¬ NulKey v) (harray : v ≠ .array []) : ObjectOf known v := by
  obtain ⟨hkeys, hobject⟩ := h
  obtain ⟨members, rfl⟩ := hobject.resolve_right harray
  refine ⟨members, rfl, ht.object.2.of_map, fun m hm => ?_⟩
  have hzero : Char.ofNat 0 ∉ m.1 := fun hzero => hnul ⟨members, rfl, m, hm, hzero⟩
  rw [← cString_encode hzero]
  exact hkeys m hm

section

variable {v : Value}

theorem Accepts.objectLike (h : Accepts v) : ∀ o ∈ objects v, ObjectLike o.2 o.1 := by
  obtain ⟨hkeys, hlimits, hlisten, haliases, hprojects⟩ := h
  obtain ⟨l, hl, hlistenKeys, hfields⟩ := hlisten
  have hsection {adapter : Bool} {p : Value} (hp : SectionOk adapter p) :
      ObjectLike (sectionKeys adapter) p := ⟨hp.keys, .inl hp.url.object⟩
  refine (forall_objects (P := fun o known => ObjectLike known o)).mpr
    ⟨⟨hkeys, .inl (Field.object (P := fun _ => True) ⟨l, hl, trivial⟩)⟩, ?_, ?_, ?_, ?_, ?_, ?_⟩
  · intro l' hl'
    obtain rfl := Option.some.inj (hl.symm.trans hl')
    exact ⟨hlistenKeys, .inl hfields.host.object⟩
  · exact hfields.priv.optional.imp fun _ => hsection
  · exact hfields.pub.optional.imp fun _ => hsection
  · exact fun l' hl' => objectLike_of_notScalar (hlimits l' hl') (hfields.limits l' hl')
  · exact fun l' hl' e he => ⟨haliases l' hl' e he, .inl ((hfields.aliases l' hl').2 e he).1.object⟩
  · exact fun l' hl' e he =>
      ⟨hprojects l' hl' e he, .inl ((hfields.projects l' hl').2 e he).1.object⟩

theorem Accepts.listLike (h : Accepts v) : ∀ l ∈ lists v, NotScalar l := by
  obtain ⟨l, hl, -, hfields⟩ := h.listen
  exact forall_lists.mpr ⟨hfields.aliases.imp fun _ => And.left,
    hfields.projects.imp fun _ => And.left⟩

theorem Accepts.stringLike (h : Accepts v) : ∀ f ∈ stringFields v, StringLike f := by
  obtain ⟨l, hl, -, hfields⟩ := h.listen
  have htext {o : Value} {k : Text} (ho : Optional IsText o k) : Optional StringLike o k :=
    ho.imp fun _ => StringLike.of_isText
  have hadapter {o : Value} (ho : SectionOk true o) : Optional StringLike o "adapter" := by
    refine (ho.adapter rfl).imp fun a ha => ?_
    obtain ⟨t, ht, -⟩ := ha
    exact .of_isText ⟨t, ht⟩
  have hendpoint {o : Value} (ho : AliasFields o) : Optional StringLike o "endpoint" := by
    refine ho.2.2.optional.imp fun f hf => ?_
    cases hf with
    | inl hf => exact .of_name hf (by decide)
    | inr hf => exact .of_name hf (by decide)
  refine forall_stringFields.mpr ⟨?_, ?_, ?_, ?_, ?_⟩
  · intro l' hl'
    obtain rfl := Option.some.inj (hl.symm.trans hl')
    exact htext hfields.host.optional
  · refine hfields.priv.optional.imp fun p hp => ?_
    simp only [sectionKeys, Bool.false_eq_true, if_false, List.forall_mem_cons]
    exact ⟨htext hp.url.optional, htext hp.model, htext hp.keyEnv, nofun⟩
  · refine hfields.pub.optional.imp fun p hp => ?_
    simp only [sectionKeys, if_true, List.forall_mem_cons]
    exact ⟨htext hp.url.optional, htext hp.model, htext hp.keyEnv, hadapter hp, nofun⟩
  · refine hfields.aliases.imp fun l' hl' e he => ?_
    have hentry := hl'.2 e he
    simp only [aliasKeys, List.forall_mem_cons]
    exact ⟨htext hentry.1.optional, hendpoint hentry, htext hentry.2.1.optional, nofun⟩
  · refine hfields.projects.imp fun l' hl' e he => ?_
    have hentry := hl'.2 e he
    simp only [projectKeys, List.forall_mem_cons]
    exact ⟨htext hentry.1.optional, htext hentry.2.optional, nofun⟩

theorem Accepts.integers (h : Accepts v) (ht : Texted v) : ∀ f ∈ integerFields v, IsLong f := by
  obtain ⟨l, hl, -, hfields⟩ := h.listen
  have hlimit {k : Text} (hk : Optional (Optional IsNumber · k) v "limits") :
      Optional (Optional IsLong · k) v "limits" := by
    intro l' hl' f hf
    obtain ⟨n, rfl⟩ := hk l' hl' f hf
    exact ⟨n, rfl, ((ht.get hl').get hf).number⟩
  refine forall_integerFields.mpr ⟨?_, ?_⟩
  · intro l' hl'
    obtain rfl := Option.some.inj (hl.symm.trans hl')
    exact hfields.port.optional
  · intro l' hl'
    simp only [limitsKeys, List.forall_mem_cons]
    exact ⟨hlimit hfields.maxBodyBytes l' hl', hlimit hfields.maxInflight l' hl', nofun⟩

theorem Texted.objects (h : Texted v) : ∀ o ∈ objects v, Texted o.1 :=
  (forall_objects (P := fun o _ => Texted o)).mpr ⟨h, fun _ => h.get, fun _ => h.get, fun _ => h.get,
    fun _ => h.get, fun _ hl _ => (h.get hl).elements, fun _ hl _ => (h.get hl).elements⟩

theorem Accepts.schema (h : Accepts v) (ht : Texted v) (hnot : ¬ Loophole v) : Schema v where
  objects o ho := by
    refine objectOf_of_like (h.objectLike o ho) (ht.objects o ho) ?_ ?_
    · exact fun hnul => hnot (.inl ⟨o, ho, .inl hnul⟩)
    · exact fun harray => hnot (.inl ⟨o, ho, .inr harray⟩)
  lists l hl := by
    have hlike := h.listLike l hl
    cases l with
    | array items => exact ⟨items, rfl⟩
    | object members => exact absurd (.inr (.inl ⟨_, hl, members, rfl⟩)) hnot
    | string | number | word => cases hlike
  strings f hf := by
    refine (h.stringLike f hf).resolve_right fun hword => ?_
    exact hnot (.inr (.inr ⟨f, hf, hword⟩))
  integers := h.integers ht

/-- No known key has a NUL. -/
theorem zero_notMem_known {o : Value × List Text} (ho : o ∈ objects v) {k : Text} (hk : k ∈ o.2) :
    (0 : Byte) ∉ k := by
  refine (forall_objects (P := fun _ known => ∀ k ∈ known, (0 : Byte) ∉ k)).mpr ?_ o ho k hk
  have hroot : ∀ k ∈ rootKeys, (0 : Byte) ∉ k := by decide
  have hlisten : ∀ k ∈ listenKeys, (0 : Byte) ∉ k := by decide
  have hpriv : ∀ k ∈ sectionKeys false, (0 : Byte) ∉ k := by decide
  have hpub : ∀ k ∈ sectionKeys true, (0 : Byte) ∉ k := by decide
  have hlimits : ∀ k ∈ limitsKeys, (0 : Byte) ∉ k := by decide
  have haliases : ∀ k ∈ aliasKeys, (0 : Byte) ∉ k := by decide
  have hprojects : ∀ k ∈ projectKeys, (0 : Byte) ∉ k := by decide
  exact ⟨hroot, fun _ _ => hlisten, fun _ _ => hpriv, fun _ _ => hpub, fun _ _ => hlimits,
    fun _ _ _ _ => haliases, fun _ _ _ _ => hprojects⟩

theorem Schema.not_loophole (h : Schema v) : ¬ Loophole v := by
  rintro (⟨o, ho, hnul | harray⟩ | ⟨l, hl, members, rfl⟩ | ⟨f, hf, w, rfl⟩)
  · obtain ⟨members, hv, m, hm, hzero⟩ := hnul
    obtain ⟨members', hv', -, hknown⟩ := h.objects o ho
    obtain rfl := Value.object.inj (hv.symm.trans hv')
    refine zero_notMem_known ho (hknown m hm) ?_
    exact List.mem_flatMap.mpr ⟨_, hzero, by decide⟩
  · obtain ⟨members, hv, -⟩ := h.objects o ho
    rw [harray] at hv
    cases hv
  · obtain ⟨items, hv⟩ := h.lists _ hl
    cases hv
  · obtain ⟨s, hv⟩ := h.strings _ hf
    cases hv

end

/-! ## The loader and the schema -/

theorem load_of_accepts {v : Value} {doc : Text} (h : Parses v doc) (hv : Accepts v) :
    Accepted (load doc) := by
  obtain ⟨l, hl, -⟩ := hv.listen
  rw [load_eq_bindRoot h (.inr ⟨_, l, hl⟩), accepted_bindRoot]
  exact hv

theorem load_of_arrayReached {v : Value} {doc : Text} (h : Parses v doc) (hv : ArrayReached v) :
    Crashes (load doc) := by
  have hnonempty : NonemptyArray v ∨ ∃ k f, get v k = some f := by
    rcases hv with harray | ⟨-, ⟨l, hl, -⟩ | ⟨-, l, hl, -⟩⟩
    · exact .inl harray
    · exact .inr ⟨_, l, hl⟩
    · exact .inr ⟨_, l, hl⟩
  rw [load_eq_bindRoot h hnonempty, crashes_bindRoot]
  exact hv

theorem texted_of_parses {v : Value} {doc : Text} (h : Parses v doc) : Texted v := by
  obtain ⟨-, t, -, -, ht, -⟩ := h
  exact ⟨_, t, ht⟩

theorem accepts_of_load {v : Value} {doc : Text} (h : Parses v doc) (hload : Accepted (load doc)) :
    Accepts v := by
  rw [load_of_parses h] at hload
  split at hload
  next => exact absurd hload (not_accepted_reject _)
  next => exact accepted_bindRoot.mp hload

/-- The loader keeps to the schema on all texts but these: the binder reaches the keys of an array
with items, or it takes what it cannot tell from what it asks for. -/
theorem load_keeps_schema_iff (doc : Text) : KeepsSchema doc ↔
    ¬ ∃ v, Parses v doc ∧ (ArrayReached v ∨ Accepts v ∧ Loophole v) := by
  unfold KeepsSchema
  constructor
  · rintro ⟨hcrash, hschema⟩ ⟨v, hv, hreached | ⟨haccepts, hloophole⟩⟩
    · exact hcrash (load_of_arrayReached hv hreached)
    · exact ((hschema (load_of_accepts hv haccepts)).2 v hv).not_loophole hloophole
  · intro h
    constructor
    · intro hcrash
      obtain ⟨v, hv, hbind⟩ := parses_of_load rfl (.inr hcrash)
      rw [← hbind, crashes_bindRoot] at hcrash
      exact h ⟨v, hv, .inl hcrash⟩
    · intro haccepted
      obtain ⟨v, hv, -⟩ := parses_of_load rfl (.inl haccepted)
      refine ⟨⟨v, hv⟩, fun v' hv' => ?_⟩
      have haccepts : Accepts v' := accepts_of_load hv' haccepted
      refine haccepts.schema (texted_of_parses hv') fun hloophole => ?_
      exact h ⟨v', hv', .inr ⟨haccepts, hloophole⟩⟩

/-- The first item of an array at the root has no key to compare. -/
theorem load_array_crashes : ¬ KeepsSchema "[1]" := by
  rintro ⟨hcrash, -⟩
  exact hcrash (show load (text "[1]") = .error .crashed by decide +kernel)

end Recursant.Document
