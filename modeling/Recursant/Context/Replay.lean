import Recursant.Context.Capture

/-!
# What a replay accepts

A replay repeats the history, then the observed assistant message or one that is equivalent to it,
and then gives one result for each call.  Counting members and looking each one up leaves no other
member room, so the equivalence can be stated member by member.
-/

namespace Recursant.ToolBoundary

/-! ## Members -/

/-- The object has these members and no others. -/
def KeysAre (v : Json) (keys : List Text) : Prop :=
  ∀ k, (v.get? k).isSome = true ↔ k ∈ keys

theorem isSome_get {v : Json} {k : Text} :
    (v.get? k).isSome = true ↔ k ∈ (membersOf v).map Prod.fst := by
  cases v with
  | object members =>
      show (members.lookup k).isSome = true ↔ k ∈ members.map Prod.fst
      constructor
      · intro h
        obtain ⟨x, hx⟩ := Option.isSome_iff_exists.mp h
        exact List.mem_map.mpr ⟨_, Json.mem_of_lookup hx, rfl⟩
      · intro h
        by_contra hnone
        obtain ⟨m, hm, rfl⟩ := List.mem_map.mp h
        have := List.lookup_eq_none_iff.mp (Option.not_isSome_iff_eq_none.mp hnone) m hm
        simp at this
  | _ => exact iff_of_false (by simp [Json.get?]) (by simp [membersOf])

theorem keys_nodup {v : Json} (hv : v.proper = true) : ((membersOf v).map Prod.fst).Nodup := by
  cases v with
  | object members => exact (Json.proper_object.mp hv).1
  | _ => exact List.nodup_nil

/-- As many members as names, all of them there: these are the members. -/
theorem keysAre_iff {v : Json} (hv : v.proper = true) {keys : List Text} (hkeys : keys.Nodup) :
    KeysAre v keys ↔ objectSize v = keys.length ∧ ∀ k ∈ keys, (v.get? k).isSome = true := by
  have hnodup := keys_nodup hv
  constructor
  · intro h
    have hperm : ((membersOf v).map Prod.fst).Perm keys :=
      (List.perm_ext_iff_of_nodup hnodup hkeys).mpr fun k => isSome_get.symm.trans (h k)
    refine ⟨?_, fun k hk => (h k).mpr hk⟩
    rw [← hperm.length_eq, List.length_map]
    rfl
  · rintro ⟨hsize, hall⟩ k
    have hsub : keys ⊆ (membersOf v).map Prod.fst := fun k hk => isSome_get.mp (hall k hk)
    have hperm : keys.Perm ((membersOf v).map Prod.fst) :=
      (List.subperm_of_subset hkeys hsub).perm_of_length_le (by
        rw [List.length_map, ← hsize]
        rfl)
    rw [isSome_get]
    exact hperm.mem_iff.symm

theorem all_members {v : Json} (hv : v.proper = true) (p : Text × Json → Bool) :
    (membersOf v).all p = true ↔ ∀ k x, v.get? k = some x → p (k, x) = true := by
  cases v with
  | object members =>
      have hnodup := (Json.proper_object.mp hv).1
      rw [List.all_eq_true]
      constructor
      · intro h k x hget
        exact h _ ((Json.mem_iff_lookup hnodup k x).mpr hget)
      · intro h m hm
        exact h m.1 m.2 ((Json.mem_iff_lookup hnodup m.1 m.2).mp hm)
  | _ => exact iff_of_true rfl fun k x h => by cases h

/-- The name of an optional member, where it is there. -/
def present (v : Json) (k : Text) : List Text := if (v.get? k).isSome then [k] else []

theorem mem_present {v : Json} {k k' : Text} :
    k' ∈ present v k ↔ k' = k ∧ (v.get? k).isSome = true := by
  unfold present
  split
  next h => simp [h]
  next h => simp [h]

/-- The members of an assistant message with calls. -/
def assistantKeys (v : Json) : List Text :=
  [text "role", text "tool_calls"] ++ (present v "content" ++ present v "reasoning_details")

theorem assistantKeys_nodup (v : Json) : (assistantKeys v).Nodup := by
  unfold assistantKeys present
  split <;> split <;> decide

theorem length_assistantKeys (v : Json) :
    (assistantKeys v).length = 2 + contentMember v + reasoningMember v := by
  unfold assistantKeys present contentMember reasoningMember
  split <;> split <;> rfl

/-! ## Equivalent messages -/

variable (loader : Loader)

/-- The same text, or two texts of equal values. -/
def SameArguments (observed replayed : Text) : Prop :=
  observed = replayed ∨ ∃ x y, loader.load observed = some x ∧ loader.load replayed = some y ∧
    Json.equal x y = true

/-- A call as it was observed, its arguments perhaps written another way. -/
structure SameCall (observed replayed : Json) : Prop where
  object : replayed.isObject = true
  keys : ∀ k, (replayed.get? k).isSome = (observed.get? k).isSome
  id : replayed.get? "id" = observed.get? "id"
  type : replayed.get? "type" = observed.get? "type"
  function : ∃ f f', observed.get? "function" = some f ∧ replayed.get? "function" = some f' ∧
    f'.isObject = true ∧ (∀ k, (f'.get? k).isSome = (f.get? k).isSome) ∧
    f'.get? "name" = f.get? "name" ∧
    ∃ args args', f.get? "arguments" = some (.string args) ∧
      f'.get? "arguments" = some (.string args') ∧ SameArguments loader args args'

/-- Every element of a replayed reasoning was observed. -/
def Taken (reasoning : Option (List Json)) (r : Json) : Prop :=
  r.isArray = true ∧
    ∀ e ∈ r.elements, ∃ es, reasoning = some es ∧ ∃ o ∈ es, Json.equal e o = true

/-- An assistant message as it was observed, up to an empty content, the writing of arguments and
reasoning that was observed with it. -/
structure Equivalent (reasoning : Option (List Json)) (observed replayed : Json) : Prop where
  object : replayed.isObject = true
  keys : ∀ k, k ≠ text "content" → k ≠ text "reasoning_details" →
    (replayed.get? k).isSome = (observed.get? k).isSome
  role : replayed.get? "role" = observed.get? "role"
  content : (noText (replayed.get? "content") = true ∧ noText (observed.get? "content") = true) ∨
    equalAt (replayed.get? "content") (observed.get? "content") = true
  calls : ∃ cs cs', observed.get? "tool_calls" = some (.array cs) ∧
    replayed.get? "tool_calls" = some (.array cs') ∧ List.Forall₂ (SameCall loader) cs cs'
  reasoning : ∀ r, replayed.get? "reasoning_details" = some r → Taken reasoning r

variable {loader}

theorem equalAt_some {v : Option Json} {x : Json} :
    equalAt v (some x) = true ↔ ∃ y, v = some y ∧ Json.equal y x = true := by
  cases v with
  | none => simp [equalAt]
  | some y =>
      constructor
      · exact fun h => ⟨y, rfl, h⟩
      · rintro ⟨y', hy, h⟩
        obtain rfl := Option.some.inj hy
        exact h

theorem argsEqual_iff {o r : Option Json} : argsEqual loader o r = true ↔
    ∃ args args', o = some (.string args) ∧ r = some (.string args') ∧
      SameArguments loader args args' := by
  unfold argsEqual
  cases ho : o.bind Json.text? with
  | none =>
      refine iff_of_false (by simp) ?_
      rintro ⟨args, args', hargs, -⟩
      rw [bind_text.mpr hargs] at ho
      cases ho
  | some args =>
      cases hr : r.bind Json.text? with
      | none =>
          refine iff_of_false (by simp) ?_
          rintro ⟨args, args', -, hargs, -⟩
          rw [bind_text.mpr hargs] at hr
          cases hr
      | some args' =>
          rw [bind_text] at ho hr
          have hload : equalAt (loader.load args) (loader.load args') = true ↔
              ∃ x y, loader.load args = some x ∧ loader.load args' = some y ∧
                Json.equal x y = true := by
            cases loader.load args with
            | none => simp [equalAt]
            | some x => cases loader.load args' <;> simp [equalAt]
          show (decide (args = args') || equalAt _ _) = true ↔ _
          rw [Bool.or_eq_true, decide_eq_true_eq, hload]
          constructor
          · exact fun h => ⟨args, args', ho, hr, h⟩
          · rintro ⟨x, y, hx, hy, h⟩
            rw [ho] at hx
            rw [hr] at hy
            cases hx
            cases hy
            exact h

/-- Objects with the same named members, counted. -/
theorem sameKeys_iff {v w : Json} {keys : List Text} (hv : v.proper = true) (hkeys : keys.Nodup)
    (hw : KeysAre w keys) : (objectSize v = keys.length ∧ ∀ k ∈ keys, (v.get? k).isSome = true) ↔
      ∀ k, (v.get? k).isSome = (w.get? k).isSome := by
  rw [← keysAre_iff hv hkeys]
  refine forall_congr' fun k => ?_
  rw [← hw k]
  exact Bool.eq_iff_iff.symm

theorem functionEqual_iff {f f' : Json} (hf : f.proper = true) (hf' : f'.proper = true)
    (hsize : objectSize f = 2) (hname : ∃ name, f.get? "name" = some (.string name))
    (hargs : ∃ args, f.get? "arguments" = some (.string args)) :
    functionEqual loader f f' = true ↔ f'.isObject = true ∧
      (∀ k, (f'.get? k).isSome = (f.get? k).isSome) ∧ f'.get? "name" = f.get? "name" ∧
      ∃ args args', f.get? "arguments" = some (.string args) ∧
        f'.get? "arguments" = some (.string args') ∧ SameArguments loader args args' := by
  obtain ⟨name, hname⟩ := hname
  obtain ⟨args, hargs⟩ := hargs
  have hnodup : [text "name", text "arguments"].Nodup := by decide
  have hkeys : KeysAre f [text "name", text "arguments"] := by
    rw [keysAre_iff hf hnodup]
    refine ⟨hsize, fun k hk => ?_⟩
    rcases List.mem_cons.mp hk with rfl | hk
    · rw [hname]
      rfl
    · rw [List.mem_singleton.mp hk, hargs]
      rfl
  unfold functionEqual
  simp only [Bool.and_eq_true, decide_eq_true_eq, argsEqual_iff, hname, equalAt_some]
  rw [← sameKeys_iff hf' hnodup hkeys, hsize]
  constructor
  · rintro ⟨⟨⟨hobject, hsize'⟩, y, hy, hequal⟩, a, a', ha, ha', hsame⟩
    rw [Json.equal_string] at hequal
    subst hequal
    refine ⟨hobject, ⟨hsize', fun k hk => ?_⟩, hy, a, a', ha, ha', hsame⟩
    rcases List.mem_cons.mp hk with rfl | hk
    · rw [hy]
      rfl
    · rw [List.mem_singleton.mp hk, ha']
      rfl
  · rintro ⟨hobject, ⟨hsize', -⟩, hy, hargs'⟩
    exact ⟨⟨⟨hobject, hsize'⟩, _, hy, Json.equal_string.mpr rfl⟩, hargs'⟩

theorem callKeys {c : Json} (hc : c.proper = true) (hvalid : CallValid c) :
    KeysAre c [text "id", text "type", text "function"] := by
  obtain ⟨id, hid, -⟩ := hvalid.id
  obtain ⟨f, hf, -⟩ := hvalid.function
  rw [keysAre_iff hc (by decide)]
  refine ⟨hvalid.size, fun k hk => ?_⟩
  rcases List.mem_cons.mp hk with rfl | hk
  · rw [hid]
    rfl
  · rcases List.mem_cons.mp hk with rfl | hk
    · rw [hvalid.type]
      rfl
    · rw [List.mem_singleton.mp hk, hf]
      rfl

/-- On a valid call the comparison of the code is the equivalence. -/
theorem callEqual_iff {c c' : Json} (hc : c.proper = true) (hc' : c'.proper = true)
    (hvalid : CallValid c) : callEqual loader c c' = true ↔ SameCall loader c c' := by
  obtain ⟨id, hid, -⟩ := hvalid.id
  obtain ⟨f, hf, hfobject, hfsize, ⟨name, hname, -⟩, args, hargs⟩ := hvalid.function
  have hkeys := callKeys hc hvalid
  have hsame := sameKeys_iff hc' (by decide) hkeys
  have hfunction : ∀ f', c'.get? "function" = some f' → (functionEqual loader f f' = true ↔
      f'.isObject = true ∧ (∀ k, (f'.get? k).isSome = (f.get? k).isSome) ∧
      f'.get? "name" = f.get? "name" ∧ ∃ args args', f.get? "arguments" = some (.string args) ∧
        f'.get? "arguments" = some (.string args') ∧ SameArguments loader args args') :=
    fun f' hf' => functionEqual_iff (Json.proper_get hc hf) (Json.proper_get hc' hf') hfsize
      ⟨name, hname⟩ ⟨args, hargs⟩
  unfold callEqual
  rw [Bool.and_eq_true, Bool.and_eq_true, decide_eq_true_eq, all_members hc]
  constructor
  · rintro ⟨⟨hobject, hsize⟩, hall⟩
    have hid' := hall _ _ hid
    have htype' := hall _ _ hvalid.type
    have hf' := hall _ _ hf
    rw [Option.any_eq_true] at hid' htype' hf'
    obtain ⟨x, hx, hxid⟩ := hid'
    obtain ⟨y, hy, hytype⟩ := htype'
    obtain ⟨f', hget, hequal⟩ := hf'
    rw [if_pos (by decide), Json.equal_string] at hxid hytype
    rw [if_neg (by decide)] at hequal
    subst hxid hytype
    obtain ⟨hf'object, hf'keys, hf'name, hf'args⟩ := (hfunction f' hget).mp hequal
    refine ⟨hobject, hsame.mp ⟨hsize.trans hvalid.size, fun k hk => ?_⟩, hx.trans hid.symm,
      hy.trans hvalid.type.symm, f, f', hf, hget, hf'object, hf'keys, hf'name, hf'args⟩
    rcases List.mem_cons.mp hk with rfl | hk
    · rw [hx]
      rfl
    · rcases List.mem_cons.mp hk with rfl | hk
      · rw [hy]
        rfl
      · rw [List.mem_singleton.mp hk, hget]
        rfl
  · intro h
    obtain ⟨f₀, f', hf₀, hget, hf'⟩ := h.function
    obtain rfl := Option.some.inj (hf.symm.trans hf₀)
    refine ⟨⟨h.object, (hsame.mpr h.keys).1.trans hvalid.size.symm⟩, fun k x hx => ?_⟩
    have hk := (hkeys k).mp (by rw [hx]; rfl)
    rw [Option.any_eq_true]
    rcases List.mem_cons.mp hk with rfl | hk
    · obtain rfl := Option.some.inj (hid.symm.trans hx)
      exact ⟨_, h.id.trans hid, by rw [if_pos (by decide)]; exact Json.equal_string.mpr rfl⟩
    · rcases List.mem_cons.mp hk with rfl | hk
      · obtain rfl := Option.some.inj (hvalid.type.symm.trans hx)
        exact ⟨_, h.type.trans hvalid.type, by
          rw [if_pos (by decide)]
          exact Json.equal_string.mpr rfl⟩
      · obtain rfl := List.mem_singleton.mp hk
        obtain rfl := Option.some.inj (hf.symm.trans hx)
        exact ⟨f', hget, by
          rw [if_neg (by decide)]
          exact (hfunction f' hget).mpr hf'⟩

theorem zip_all_iff {α β : Type} {xs : List α} {ys : List β} {p : α → β → Bool}
    (hlength : xs.length = ys.length) :
    (xs.zip ys).all (fun (x, y) => p x y) = true ↔ List.Forall₂ (fun x y => p x y = true) xs ys := by
  rw [List.forall₂_iff_zip, List.all_eq_true]
  constructor
  · exact fun h => ⟨hlength, fun hmem => h _ hmem⟩
  · exact fun h m hm => h.2 hm

theorem callsEqual_iff (loader : Loader) {m : Json} {cs : List Json} {v : Json} (hm : m.proper = true)
    (hvalid : CallsValid m) (hcs : m.get? "tool_calls" = some (.array cs)) (hv : v.proper = true) :
    callsEqual loader (.array cs) v = true ↔
      ∃ cs', v = .array cs' ∧ List.Forall₂ (SameCall loader) cs cs' := by
  have heach : ∀ c ∈ cs, CallValid c ∧ c.proper = true := by
    intro c hc
    have hmem : c ∈ callsOf m := by
      unfold callsOf
      rw [hcs]
      exact hc
    exact ⟨callValid_iff.mp (hvalid.each c hmem),
      Json.proper_elements (Json.proper_get hm hcs) c hc⟩
  cases v with
  | array cs' =>
      have hproper := Json.proper_elements hv
      unfold callsEqual
      rw [Bool.and_eq_true, Bool.and_eq_true, decide_eq_true_eq]
      have hforall : List.Forall₂ (fun c c' => callEqual loader c c' = true) cs cs' ↔
          List.Forall₂ (SameCall loader) cs cs' := by
        constructor
        · intro h
          rw [List.forall₂_iff_zip] at h ⊢
          refine ⟨h.1, fun {c c'} hmem => ?_⟩
          obtain ⟨hvalid', hc⟩ := heach c (List.of_mem_zip hmem).1
          exact (callEqual_iff hc (hproper c' (List.of_mem_zip hmem).2) hvalid').mp (h.2 hmem)
        · intro h
          rw [List.forall₂_iff_zip] at h ⊢
          refine ⟨h.1, fun {c c'} hmem => ?_⟩
          obtain ⟨hvalid', hc⟩ := heach c (List.of_mem_zip hmem).1
          exact (callEqual_iff hc (hproper c' (List.of_mem_zip hmem).2) hvalid').mpr (h.2 hmem)
      constructor
      · rintro ⟨⟨-, hsize⟩, hall⟩
        have hlength : cs.length = cs'.length := hsize.symm
        exact ⟨cs', rfl, hforall.mp ((zip_all_iff hlength).mp hall)⟩
      · rintro ⟨cs'', heq, h⟩
        obtain rfl := Json.array.inj heq
        have hlength := h.length_eq
        exact ⟨⟨rfl, hlength.symm⟩, (zip_all_iff hlength).mpr (hforall.mpr h)⟩
  | _ =>
      refine iff_of_false (by simp [callsEqual, Json.isArray]) ?_
      rintro ⟨cs', heq, -⟩
      cases heq

/-- Reasoning is replayed in the shape the code wants, every element taken from what was observed. -/
theorem reasoningReplayed_iff {v : Json} {reasoning : Option (List Json)} :
    reasoningReplayed v reasoning = true ↔ reasoningShape v = true ∧
      ∀ r, v.get? "reasoning_details" = some r → Taken reasoning r := by
  unfold reasoningReplayed
  cases hget : v.get? "reasoning_details" with
  | none =>
      refine iff_of_true rfl ⟨?_, fun r hr => by cases hr⟩
      unfold reasoningShape
      rw [hget]
  | some r =>
      dsimp only
      rw [Bool.and_eq_true]
      refine and_congr_right fun hshape => ?_
      unfold reasoningShape at hshape
      rw [hget] at hshape
      simp only [Bool.and_eq_true, decide_eq_true_eq] at hshape
      obtain ⟨⟨⟨⟨-, harray⟩, hne⟩, -⟩, -⟩ := hshape
      simp only [Option.any_eq_true, List.all_eq_true, List.any_eq_true]
      constructor
      · rintro ⟨es, hes, hall⟩ r' hr
        obtain rfl := Option.some.inj hr
        exact ⟨harray, fun e he => ⟨es, hes, hall e he⟩⟩
      · intro h
        obtain ⟨-, htaken⟩ := h r rfl
        obtain ⟨e, he⟩ := List.exists_mem_of_ne_nil _ hne
        obtain ⟨es, hes, -⟩ := htaken e he
        refine ⟨es, hes, fun e' he' => ?_⟩
        obtain ⟨es', hes', hfound⟩ := htaken e' he'
        obtain rfl := Option.some.inj (hes.symm.trans hes')
        exact hfound

theorem assistantKeys_of_valid {m : Json} (hm : m.proper = true) (hvalid : CallsValid m) :
    KeysAre m (assistantKeys m) := by
  obtain ⟨cs, hcs, -⟩ := hvalid.array
  rw [keysAre_iff hm (assistantKeys_nodup m), length_assistantKeys]
  refine ⟨hvalid.size, fun k hk => ?_⟩
  unfold assistantKeys at hk
  rcases List.mem_append.mp hk with hbase | hoptional
  · rcases List.mem_cons.mp hbase with rfl | htools
    · rw [hvalid.role]
      rfl
    · rw [List.mem_singleton.mp htools, hcs]
      rfl
  · rcases List.mem_append.mp hoptional with hk | hk
    · obtain ⟨rfl, h⟩ := mem_present.mp hk
      exact h
    · obtain ⟨rfl, h⟩ := mem_present.mp hk
      exact h

theorem mem_assistantKeys {v : Json} {k : Text} (hcontent : k ≠ text "content")
    (hreasoning : k ≠ text "reasoning_details") :
    k ∈ assistantKeys v ↔ k ∈ [text "role", text "tool_calls"] := by
  unfold assistantKeys
  rw [List.mem_append, List.mem_append, mem_present, mem_present]
  constructor
  · rintro (h | h | h)
    · exact h
    · exact absurd h.1 hcontent
    · exact absurd h.1 hreasoning
  · exact .inl

theorem content_mem_assistantKeys {v : Json} :
    text "content" ∈ assistantKeys v ↔ (v.get? "content").isSome = true := by
  unfold assistantKeys
  rw [List.mem_append, List.mem_append, mem_present, mem_present]
  constructor
  · rintro (h | h | h)
    · exact absurd h (by decide)
    · exact h.2
    · exact absurd h.1 (by decide)
  · exact fun h => .inr (.inl ⟨rfl, h⟩)

theorem reasoning_mem_assistantKeys {v : Json} :
    text "reasoning_details" ∈ assistantKeys v ↔ (v.get? "reasoning_details").isSome = true := by
  unfold assistantKeys
  rw [List.mem_append, List.mem_append, mem_present, mem_present]
  constructor
  · rintro (h | h | h)
    · exact absurd h (by decide)
    · exact absurd h.1 (by decide)
    · exact h.2
  · exact fun h => .inr (.inr ⟨rfl, h⟩)

theorem members_eq {v : Json} : members v = 2 ↔
    objectSize v = 2 + contentMember v + reasoningMember v := by
  unfold members
  omega

/-- An equivalent message has as many members as its optional ones make it. -/
theorem Equivalent.size {m v : Json} {reasoning : Option (List Json)}
    (h : Equivalent loader reasoning m v) (hkeys : KeysAre m (assistantKeys m))
    (hv : v.proper = true) : objectSize v = 2 + contentMember v + reasoningMember v := by
  have hvkeys : KeysAre v (assistantKeys v) := by
    intro k
    by_cases hk : k = text "content"
    · subst hk
      exact content_mem_assistantKeys.symm
    · by_cases hk' : k = text "reasoning_details"
      · subst hk'
        exact reasoning_mem_assistantKeys.symm
      · rw [mem_assistantKeys hk hk', h.keys k hk hk', hkeys k, mem_assistantKeys hk hk']
  rw [← length_assistantKeys]
  exact ((keysAre_iff hv (assistantKeys_nodup v)).mp hvkeys).1

/-- On a valid call message without reasoning the comparison of the code is the equivalence, for
reasoning in the shape the code wants. -/
theorem assistantEqual_iff {m v : Json} {reasoning : Option (List Json)} (hm : m.proper = true)
    (hv : v.proper = true) (hvalid : CallsValid m) (hnone : m.get? "reasoning_details" = none) :
    assistantEqual loader v m reasoning = true ↔
      Equivalent loader reasoning m v ∧ reasoningShape v = true := by
  obtain ⟨cs, hcs, -⟩ := hvalid.array
  have hkeys := assistantKeys_of_valid hm hvalid
  have hmembers : members m = 2 := members_eq.mpr hvalid.size
  have hcalls := fun x hx => callsEqual_iff loader hm hvalid hcs
    (Json.proper_get hv (k := text "tool_calls") (x := x) hx)
  unfold assistantEqual
  rw [Bool.and_eq_true, Bool.and_eq_true, Bool.and_eq_true, Bool.and_eq_true, Bool.and_eq_true,
    all_members hm, reasoningReplayed_iff, decide_eq_true_eq, hmembers, members_eq]
  constructor
  · rintro ⟨⟨⟨⟨⟨hobject, hsize⟩, -⟩, hshape, htaken⟩, hcontent⟩, hall⟩
    have hmember : ∀ k x, m.get? k = some x → k ≠ text "content" → ∃ r, v.get? k = some r ∧
        (if k ≠ text "tool_calls" then Json.equal r x else callsEqual loader x r) = true := by
      intro k x hget hk
      have htest := hall k x hget
      dsimp only at htest
      rwa [decide_eq_false hk, Bool.false_or, Option.any_eq_true] at htest
    obtain ⟨x, hx, hxrole⟩ := hmember _ _ hvalid.role (by decide)
    obtain ⟨y, hy, hytools⟩ := hmember _ _ hcs (by decide)
    rw [if_pos (by decide), Json.equal_string] at hxrole
    rw [if_neg (by decide), hcalls y hy] at hytools
    subst hxrole
    obtain ⟨cs', rfl, hforall⟩ := hytools
    have hvkeys : KeysAre v (assistantKeys v) := by
      rw [keysAre_iff hv (assistantKeys_nodup v), length_assistantKeys]
      refine ⟨hsize, fun k hk => ?_⟩
      unfold assistantKeys at hk
      rcases List.mem_append.mp hk with hbase | hoptional
      · rcases List.mem_cons.mp hbase with rfl | hk
        · rw [hx]
          rfl
        · rw [List.mem_singleton.mp hk, hy]
          rfl
      · rcases List.mem_append.mp hoptional with hk | hk
        · obtain ⟨rfl, h⟩ := mem_present.mp hk
          exact h
        · obtain ⟨rfl, h⟩ := mem_present.mp hk
          exact h
    refine ⟨⟨hobject, fun k hk hk' => ?_, hx.trans hvalid.role.symm, ?_, ⟨cs, cs', hcs, hy, hforall⟩,
      htaken⟩, hshape⟩
    · rw [Bool.eq_iff_iff, hvkeys k, hkeys k, mem_assistantKeys hk hk', mem_assistantKeys hk hk']
    · rwa [Bool.or_eq_true, Bool.and_eq_true] at hcontent
  · rintro ⟨h, hshape⟩
    obtain ⟨cs₀, cs', hcs₀, hy, hforall⟩ := h.calls
    obtain rfl := Json.array.inj (Option.some.inj (hcs.symm.trans hcs₀))
    have hsize := h.size hkeys hv
    refine ⟨⟨⟨⟨⟨h.object, hsize⟩, by rw [hnone]; rfl⟩, hshape, h.reasoning⟩, ?_⟩, fun k x hget => ?_⟩
    · rw [Bool.or_eq_true, Bool.and_eq_true]
      exact h.content
    · dsimp only
      by_cases hk : k = text "content"
      · rw [decide_eq_true hk, Bool.true_or]
      · have hk' : k ≠ text "reasoning_details" := by
          rintro rfl
          rw [hnone] at hget
          cases hget
        have hbase := (mem_assistantKeys hk hk').mp ((hkeys k).mp (by rw [hget]; rfl))
        rw [decide_eq_false hk, Bool.false_or, Option.any_eq_true]
        rcases List.mem_cons.mp hbase with rfl | htools
        · obtain rfl := Option.some.inj (hvalid.role.symm.trans hget)
          exact ⟨_, h.role.trans hvalid.role, by
            rw [if_pos (by decide)]
            exact Json.equal_string.mpr rfl⟩
        · obtain rfl := List.mem_singleton.mp htools
          obtain rfl := Option.some.inj (hcs.symm.trans hget)
          exact ⟨_, hy, by
            rw [if_neg (by decide)]
            exact (hcalls _ hy).mpr ⟨cs', rfl, hforall⟩⟩

/-! ## Replay -/

/-- The answers of a replay are results for the ids that they tick off. -/
theorem foldlM_answer_iff (results : List Json) {entries : List (Text × Bool)}
    (hnodup : (entries.map Prod.fst).Nodup) :
    (results.foldlM answer entries).isSome = true ↔
      ∃ ids, List.Forall₂ ResultOf ids results ∧ ids.Subperm (Checklist.missing entries) := by
  have hfold : ∀ (results : List Json) (entries : List (Text × Bool)),
      (results.foldlM answer entries).isSome = true ↔ ∃ ids, List.Forall₂ ResultOf ids results ∧
        (ids.foldlM (fun es a => Checklist.tick a es) entries).isSome = true := by
    intro results
    induction results with
    | nil =>
        intro entries
        exact iff_of_true rfl ⟨[], .nil, rfl⟩
    | cons r results ih =>
        intro entries
        rw [List.foldlM_cons]
        constructor
        · intro h
          cases hanswer : answer entries r with
          | none =>
              rw [hanswer] at h
              cases h
          | some next =>
              rw [hanswer] at h
              obtain ⟨ids, hids, hticks⟩ := (ih next).mp h
              unfold answer at hanswer
              split at hanswer
              next hresult =>
                obtain ⟨id, hid, htick⟩ := Option.bind_eq_some_iff.mp hanswer
                refine ⟨id :: ids, .cons ⟨(Bool.and_eq_true_iff.mp hresult).1, hid⟩ hids, ?_⟩
                rw [List.foldlM_cons, htick]
                exact hticks
              next => cases hanswer
        · rintro ⟨ids, hids, hticks⟩
          cases hids with
          | @cons id _ ids _ hr hids =>
              rw [List.foldlM_cons] at hticks
              cases htick : Checklist.tick id entries with
              | none =>
                  rw [htick] at hticks
                  cases hticks
              | some next =>
                  rw [htick] at hticks
                  have hstring : isString (r.get? "tool_call_id") = true :=
                    isString_iff.mpr ⟨id, bind_text.mp hr.2⟩
                  have hanswer : answer entries r = some next := by
                    unfold answer
                    rw [hr.1, hstring, hr.2, Bool.and_self, if_pos rfl]
                    exact htick
                  rw [hanswer]
                  exact (ih next).mpr ⟨ids, hids, hticks⟩
  rw [hfold]
  exact exists_congr fun ids => and_congr_right fun _ => Checklist.foldlM_tick_iff ids hnodup

/-- The value repeats the history, then the observed message or an equivalent one with reasoning in
shape, and then gives results for these calls. -/
def Replayed (loader : Loader) (b : Boundary) (v : Json) (ids : List Text) : Prop :=
  ∃ past m results, v = .array (past ++ m :: results) ∧
    List.Forall₂ (fun x y => Json.equal x y = true) past b.history ∧
    Equivalent loader b.reasoning b.assistant m ∧ reasoningShape m = true ∧
    List.Forall₂ ResultOf ids results

/-- A boundary with a valid call message that carries no reasoning. -/
structure Captured (b : Boundary) : Prop where
  proper : b.assistant.proper = true
  calls : CallsValid b.assistant
  unreasoned : b.assistant.get? "reasoning_details" = none

theorem Captured.ids_length {b : Boundary} (hb : Captured b) :
    (idsOf b.assistant).length = (callsOf b.assistant).length := length_idsOf hb.calls.each

theorem Replayed.size {b : Boundary} {v : Json} {ids : List Text} (h : Replayed loader b v ids) :
    v.size = b.history.length + 1 + ids.length := by
  obtain ⟨past, m, results, rfl, hpast, -, -, hresults⟩ := h
  show (past ++ m :: results).length = _
  rw [List.length_append, List.length_cons, hpast.length_eq, hresults.length_eq]
  omega

theorem split_past {xs : List Json} {n : Nat} (h : n < xs.length) :
    ∃ past m rest, xs = past ++ m :: rest ∧ past.length = n := by
  refine ⟨xs.take n, xs[n], xs.drop (n + 1), ?_, ?_⟩
  · rw [List.getElem_cons_drop, List.take_append_drop]
  · rw [List.length_take, Nat.min_eq_left h.le]

section Past

variable {past rest ys : List Json} {m : Json}

theorem getD_past : (past ++ m :: rest).getD past.length .null = m := by
  rw [List.getD_eq_getElem?_getD, List.getElem?_append_right le_rfl, Nat.sub_self]
  rfl

theorem drop_past : (past ++ m :: rest).drop (past.length + 1) = rest := by
  rw [List.drop_length_add_append, List.drop_succ_cons, List.drop_zero]

theorem zip_past (h : past.length = ys.length) : (past ++ m :: rest).zip ys = past.zip ys := by
  conv_lhs => rw [← List.append_nil ys]
  rw [List.zip_append h, List.zip_nil_right, List.append_nil]

end Past

/-- What the tests of a replay come to. -/
theorem tests_iff (loader : Loader) {b : Boundary} (hb : Captured b) {v : Json} (hv : v.proper = true) :
    (0 < (callsOf b.assistant).length && (callsOf b.assistant).length ≤ maxCalls && v.isArray &&
      b.history.length + 1 ≤ v.size &&
      v.size ≤ b.history.length + 1 + (callsOf b.assistant).length &&
      (v.elements.zip b.history).all (fun (x, y) => Json.equal x y) &&
      assistantEqual loader (v.elements.getD b.history.length .null) b.assistant b.reasoning &&
      ((v.elements.drop (b.history.length + 1)).foldlM answer
        (Checklist.fresh (idsOf b.assistant))).isSome) = true ↔
      ∃ ids, Replayed loader b v ids ∧ ids.Subperm (idsOf b.assistant) := by
  have hanswers := fun results => @foldlM_answer_iff results
    (Checklist.fresh (idsOf b.assistant)) (by
      rw [Checklist.keys_fresh]
      exact hb.calls.distinct)
  have hassistant : ∀ m ∈ v.elements, (assistantEqual loader m b.assistant b.reasoning = true ↔
      Equivalent loader b.reasoning b.assistant m ∧ reasoningShape m = true) := fun m hm =>
    assistantEqual_iff hb.proper (Json.proper_elements hv m hm) hb.calls hb.unreasoned
  simp only [Bool.and_eq_true, decide_eq_true_eq, hanswers, Checklist.missing_fresh]
  constructor
  · rintro ⟨⟨⟨⟨⟨⟨⟨-, -⟩, harray⟩, hlong⟩, -⟩, hpast⟩, hequal⟩, ids, hresults, hsub⟩
    cases v with
    | array xs =>
        have hcount : b.history.length < xs.length := hlong
        obtain ⟨past, m, rest, rfl, hlength⟩ := split_past hcount
        have helements : (Json.array (past ++ m :: rest)).elements = past ++ m :: rest := rfl
        rw [helements, zip_past hlength] at hpast
        rw [helements, ← hlength, getD_past] at hequal
        rw [helements, ← hlength, drop_past] at hresults
        obtain ⟨hequivalent, hshape⟩ :=
          (hassistant m (List.mem_append_right _ List.mem_cons_self)).mp hequal
        exact ⟨ids, ⟨past, m, rest, rfl, (zip_all_iff hlength).mp hpast, hequivalent, hshape,
          hresults⟩, hsub⟩
    | _ => cases harray
  · rintro ⟨ids, hreplayed, hsub⟩
    have hsize := hreplayed.size
    obtain ⟨past, m, rest, rfl, hpast, hequivalent, hshape, hresults⟩ := hreplayed
    have hlength := hpast.length_eq
    have hcalls := hb.ids_length
    have hbound := hsub.length_le
    have hne := List.length_pos_iff.mpr (idsOf_ne_nil (callsValid_iff.mpr hb.calls))
    have helements : (Json.array (past ++ m :: rest)).elements = past ++ m :: rest := rfl
    refine ⟨⟨⟨⟨⟨⟨⟨by omega, hb.calls.few⟩, rfl⟩, by omega⟩, by omega⟩, ?_⟩, ?_⟩, ids, ?_, hsub⟩
    · rw [helements, zip_past hlength]
      exact (zip_all_iff hlength).mpr hpast
    · rw [helements, ← hlength, getD_past]
      exact (hassistant m (List.mem_append_right _ List.mem_cons_self)).mpr ⟨hequivalent, hshape⟩
    · rw [helements, ← hlength, drop_past]
      exact hresults

theorem replayTree_eq (loader : Loader) {b : Boundary} (hb : Captured b) {v : Json} (hv : v.proper = true) :
    (replayTree loader b v = .complete ↔
      ∃ ids, Replayed loader b v ids ∧ ids.Perm (idsOf b.assistant)) ∧
    (replayTree loader b v = .incomplete ↔ ∃ ids, Replayed loader b v ids ∧
      ids.Subperm (idsOf b.assistant) ∧ ids.length < (idsOf b.assistant).length) ∧
    (replayTree loader b v = .invalid ↔
      ¬ ∃ ids, Replayed loader b v ids ∧ ids.Subperm (idsOf b.assistant)) := by
  have htests := tests_iff loader hb hv
  have hcalls := hb.ids_length
  unfold replayTree
  dsimp only
  by_cases hpass : ∃ ids, Replayed loader b v ids ∧ ids.Subperm (idsOf b.assistant)
  · rw [if_pos (htests.mpr hpass)]
    by_cases hfull : v.size = b.history.length + 1 + (callsOf b.assistant).length
    · rw [if_pos hfull]
      have hexact : ∀ ids, Replayed loader b v ids → ids.length = (idsOf b.assistant).length := by
        intro ids hreplayed
        have := hreplayed.size
        omega
      refine ⟨iff_of_true rfl ?_, iff_of_false (by decide) ?_, iff_of_false (by decide)
        (not_not_intro hpass)⟩
      · obtain ⟨ids, hreplayed, hsub⟩ := hpass
        exact ⟨ids, hreplayed, hsub.perm_of_length_le (hexact ids hreplayed).ge⟩
      · rintro ⟨ids, hreplayed, -, hshort⟩
        have := hexact ids hreplayed
        omega
    · rw [if_neg hfull]
      refine ⟨iff_of_false (by decide) ?_, iff_of_true rfl ?_, iff_of_false (by decide)
        (not_not_intro hpass)⟩
      · rintro ⟨ids, hreplayed, hperm⟩
        have := hreplayed.size
        have := hperm.length_eq
        omega
      · obtain ⟨ids, hreplayed, hsub⟩ := hpass
        have := hreplayed.size
        have := hsub.length_le
        exact ⟨ids, hreplayed, hsub, by omega⟩
  · rw [if_neg fun h => hpass (htests.mp h)]
    refine ⟨iff_of_false (by decide) ?_, iff_of_false (by decide) ?_, iff_of_true rfl hpass⟩
    · rintro ⟨ids, hreplayed, hperm⟩
      exact hpass ⟨ids, hreplayed, hperm.subperm⟩
    · rintro ⟨ids, hreplayed, hsub, -⟩
      exact hpass ⟨ids, hreplayed, hsub⟩

theorem capture_some {h a : Text} {b : Boundary} (hcap : (capture loader h a).2 = some b) :
    ∃ history assistant groups, loader.load h = some (.array history) ∧
      loader.load a = some assistant ∧ h.length ≤ maxBytes ∧ a.length ≤ maxBytes ∧
      Capturable history assistant groups ∧
      b = { history, assistant, requirements := requirementsOf (groups ++ [idsOf assistant]) } := by
  unfold capture at hcap
  split at hcap
  next => cases hcap
  next hbytes =>
    have hcomplete := (captureTree_status _ _).mpr (Option.isSome_iff_exists.mpr ⟨b, hcap⟩)
    have hpair : captureTree (loader.load h) (loader.load a) = (.complete, some b) :=
      Prod.ext hcomplete hcap
    simp only [Bool.or_eq_true, decide_eq_true_eq, not_or, Nat.not_lt] at hbytes
    cases hh : loader.load h with
    | none =>
        rw [hh] at hcap
        cases hcap
    | some v =>
        cases ha : loader.load a with
        | none =>
            rw [hh, ha] at hcap
            cases v <;> cases hcap
        | some assistant =>
            cases v with
            | array history =>
                rw [hh, ha] at hpair
                obtain ⟨groups, hcapturable, hb⟩ := captureTree_iff.mp hpair
                exact ⟨history, assistant, groups, rfl, rfl, hbytes.1, hbytes.2, hcapturable, hb⟩
            | _ =>
                rw [hh, ha] at hcap
                cases hcap

theorem captured_of_capture {h a : Text} {b : Boundary} (hcap : (capture loader h a).2 = some b)
    (hnone : b.assistant.get? "reasoning_details" = none) (reasoning : Option (List Json)) :
    Captured { b with reasoning } := by
  obtain ⟨history, assistant, groups, -, ha, -, -, hcapturable, rfl⟩ := capture_some hcap
  exact ⟨loader.proper a assistant ha, callsValid_iff.mp hcapturable.calls, hnone⟩

/-- A replay of a captured boundary is complete for the history, an equivalent message and one result
for each call in any order, incomplete for fewer of these results, and invalid otherwise; a text is
replayed as the value it is read as. -/
theorem replay_exact (loader : Loader) {h a : Text} {b : Boundary}
    (hcap : (capture loader h a).2 = some b)
    (hnone : b.assistant.get? "reasoning_details" = none) (reasoning : Option (List Json)) {v : Json}
    (hv : v.proper = true) :
    (replayTree loader { b with reasoning } v = .complete ↔ ∃ ids,
      Replayed loader { b with reasoning } v ids ∧ ids.Perm (idsOf b.assistant)) ∧
    (replayTree loader { b with reasoning } v = .incomplete ↔ ∃ ids,
      Replayed loader { b with reasoning } v ids ∧ ids.Subperm (idsOf b.assistant) ∧
      ids.length < (idsOf b.assistant).length) ∧
    (replayTree loader { b with reasoning } v = .invalid ↔ ¬ ∃ ids,
      Replayed loader { b with reasoning } v ids ∧ ids.Subperm (idsOf b.assistant)) ∧
    ∀ m, m.length ≤ maxBytes → loader.load m = some v →
      replay loader { b with reasoning } m = replayTree loader { b with reasoning } v := by
  obtain ⟨hcomplete, hincomplete, hinvalid⟩ :=
    replayTree_eq loader (captured_of_capture hcap hnone reasoning) hv
  refine ⟨hcomplete, hincomplete, hinvalid, fun m hm hload => ?_⟩
  unfold replay
  rw [if_neg (Nat.not_lt.mpr hm), hload]

/-! ### A sample -/

def sampleBoundary : Boundary :=
  { history := [userMessage], assistant := callMessage "call A", requirements := 3 }

theorem sample_captured : (capture sampleLoader userText callText).2 = some sampleBoundary := by
  decide +kernel

/-- The call with its arguments written another way, and its result. -/
def spacedReplay : Json :=
  .array [userMessage, .object [("role", .string "assistant"), ("tool_calls", .array [.object
    [("id", .string "call A"), ("type", .string "function"),
      ("function", .object [("arguments", .string "{ }"), ("name", .string "run")])]])],
    resultFor "call A"]

theorem replay_exact_sample : ∃ ids, Replayed sampleLoader { sampleBoundary with reasoning := none }
    spacedReplay ids ∧ ids.Perm (idsOf sampleBoundary.assistant) :=
  (replay_exact sampleLoader sample_captured (by decide +kernel) none (by decide +kernel)).1.mp
    (by decide +kernel)

/-- The call message with reasoning that has no elements. -/
def emptyReasoning : Json :=
  .object [("role", .string "assistant"), ("content", .null),
    ("tool_calls", .array [callNamed "call A"]), ("reasoning_details", .array [])]

/-- Of reasoning without elements every element was observed, but the replay is invalid. -/
theorem empty_reasoning_invalid :
    (capture sampleLoader userText callText).2 = some sampleBoundary ∧
      Equivalent sampleLoader sampleBoundary.reasoning sampleBoundary.assistant emptyReasoning ∧
      ResultOf "call A" (resultFor "call A") ∧
      replayTree sampleLoader sampleBoundary
        (.array [userMessage, emptyReasoning, resultFor "call A"]) = .invalid := by
  refine ⟨sample_captured, ?_, ⟨by decide +kernel, by decide +kernel⟩, by decide +kernel⟩
  have hcall : SameCall sampleLoader (callNamed "call A") (callNamed "call A") :=
    (callEqual_iff (by decide +kernel) (by decide +kernel)
      (callValid_iff.mp (by decide +kernel))).mp (by decide +kernel)
  have hold : KeysAre sampleBoundary.assistant [text "role", text "content", text "tool_calls"] :=
    (keysAre_iff (by decide +kernel) (by decide)).mpr (by decide +kernel)
  have hnew : KeysAre emptyReasoning
      [text "role", text "content", text "tool_calls", text "reasoning_details"] :=
    (keysAre_iff (by decide +kernel) (by decide)).mpr (by decide +kernel)
  refine ⟨rfl, fun k hcontent hreasoning => ?_, rfl, .inl ⟨rfl, rfl⟩,
    ⟨_, _, rfl, rfl, .cons hcall .nil⟩, fun r hr => ?_⟩
  · rw [Bool.eq_iff_iff, hnew k, hold k]
    simp [hreasoning]
  · obtain rfl := Option.some.inj hr
    exact ⟨rfl, fun e he => absurd he List.not_mem_nil⟩

end Recursant.ToolBoundary
