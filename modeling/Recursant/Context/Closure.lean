import Recursant.Context.Replay

/-!
# Replay closes under capture

What a replay accepts, a later capture accepts as history: the equivalence of messages and the deep
equality of histories both keep everything that the scan of a history looks at.
-/

namespace Recursant.ToolBoundary

/-! ## Equal values are read alike -/

section Alike

variable {x y : Json}

theorem alike_get (h : Json.equal x y = true) (hx : x.proper = true) (k : Text) :
    (x.get? k = none ∧ y.get? k = none) ∨ ∃ u v, x.get? k = some u ∧ y.get? k = some v ∧
      Json.equal u v = true ∧ u.proper = true := by
  rcases Json.equal_get h hx k with hnone | ⟨u, v, hu, hv, huv⟩
  · exact .inl hnone
  · exact .inr ⟨u, v, hu, hv, huv, Json.proper_get hx hu⟩

theorem alike_text? (h : Json.equal x y = true) : x.text? = y.text? := by
  cases y with
  | string s => rw [Json.equal_string.mp h]
  | _ => cases x <;> first | rfl | cases h

theorem alike_textAt (h : Json.equal x y = true) (hx : x.proper = true) (k : Text) :
    textAt x k = textAt y k := by
  unfold textAt
  rcases alike_get h hx k with ⟨hx', hy'⟩ | ⟨u, v, hu, hv, huv, -⟩
  · rw [hx', hy']
  · rw [hu, hv, Option.bind_some, Option.bind_some, alike_text? huv]

theorem alike_isSome (h : Json.equal x y = true) (hx : x.proper = true) (k : Text) :
    (x.get? k).isSome = (y.get? k).isSome := by
  rcases alike_get h hx k with ⟨hx', hy'⟩ | ⟨u, v, hu, hv, -⟩
  · rw [hx', hy']
  · rw [hu, hv]
    rfl

theorem alike_size (h : Json.equal x y = true) : objectSize x = objectSize y := by
  cases x <;> cases y <;> first | rfl | skip
  case object.object xs ys =>
    rw [Json.equal, Bool.and_eq_true, decide_eq_true_eq] at h
    exact h.1
  all_goals cases h

theorem isText_eq (v : Option Json) (s : Text) : isText v s = decide (v.bind Json.text? = some s) := by
  unfold isText
  rw [Bool.eq_iff_iff, decide_eq_true_eq, decide_eq_true_eq, bind_text]

theorem isString_eq (v : Option Json) : isString v = (v.bind Json.text?).isSome := by
  unfold isString
  cases v with
  | none => rfl
  | some v => cases v <;> rfl

theorem alike_isText (h : Json.equal x y = true) (hx : x.proper = true) (k s : Text) :
    isText (x.get? k) s = isText (y.get? k) s := by
  have htext := alike_textAt h hx k
  unfold textAt at htext
  rw [isText_eq, isText_eq, htext]

theorem alike_isString (h : Json.equal x y = true) (hx : x.proper = true) (k : Text) :
    isString (x.get? k) = isString (y.get? k) := by
  have htext := alike_textAt h hx k
  unfold textAt at htext
  rw [isString_eq, isString_eq, htext]

theorem alike_nulFree (h : Json.equal x y = true) (hx : x.proper = true) (k : Text) :
    nulFree (x.get? k) = nulFree (y.get? k) := by
  have htext := alike_textAt h hx k
  unfold textAt at htext
  unfold nulFree
  rw [htext]

theorem alike_isFilled (h : Json.equal x y = true) (hx : x.proper = true) (k : Text) :
    isFilled (x.get? k) = isFilled (y.get? k) := by
  have htext := alike_textAt h hx k
  unfold textAt at htext
  unfold isFilled
  rw [htext]

/-- Elementwise equal lists agree on a test that agrees on equal values. -/
theorem alike_all {xs ys : List Json} {p : Json → Bool}
    (h : List.Forall₂ (fun x y => Json.equal x y = true) xs ys) (hxs : ∀ x ∈ xs, x.proper = true)
    (hp : ∀ x y, Json.equal x y = true → x.proper = true → p x = p y) : xs.all p = ys.all p := by
  induction h with
  | nil => rfl
  | @cons x y xs ys hxy later ih =>
      rw [List.all_cons, List.all_cons, hp x y hxy (hxs x List.mem_cons_self),
        ih fun z hz => hxs z (List.mem_cons_of_mem x hz)]

theorem alike_ne_nil {xs ys : List Json}
    (h : List.Forall₂ (fun x y => Json.equal x y = true) xs ys) :
    decide (xs ≠ []) = decide (ys ≠ []) := by
  cases h <;> simp

theorem alike_textPart (h : Json.equal x y = true) (hx : x.proper = true) :
    textPart x = textPart y := by
  unfold textPart
  rw [Json.equal_isObject h, alike_size h, alike_isText h hx, alike_nulFree h hx]

theorem alike_textContent (h : Json.equal x y = true) (hx : x.proper = true) (k : Text) :
    textContent (x.get? k) = textContent (y.get? k) := by
  have hnul := alike_nulFree h hx k
  unfold textContent
  rw [hnul]
  congr 1
  rcases alike_get h hx k with ⟨hx', hy'⟩ | ⟨u, v, hu, hv, huv, hproper⟩
  · rw [hx', hy']
  · have helements := Json.equal_elements huv
    rw [hu, hv, Option.any_some, Option.any_some, Json.equal_isArray huv, alike_ne_nil helements,
      helements.length_eq,
      alike_all helements (Json.proper_elements hproper) fun _ _ => alike_textPart]

theorem alike_reasoningMember (h : Json.equal x y = true) (hx : x.proper = true) :
    reasoningMember x = reasoningMember y := by
  unfold reasoningMember
  rw [alike_isSome h hx]

theorem alike_reasoningShape (h : Json.equal x y = true) (hx : x.proper = true) :
    reasoningShape x = reasoningShape y := by
  unfold reasoningShape
  rcases alike_get h hx "reasoning_details" with ⟨hx', hy'⟩ | ⟨u, v, hu, hv, huv, hproper⟩
  · rw [hx', hy']
  · have helements := Json.equal_elements huv
    rw [hu, hv]
    dsimp only
    rw [alike_isText h hx, Json.equal_isArray huv, alike_ne_nil helements, helements.length_eq,
      alike_all helements (Json.proper_elements hproper) fun _ _ h _ => Json.equal_isObject h]

theorem alike_plain (h : Json.equal x y = true) (hx : x.proper = true) : plain x = plain y := by
  unfold plain
  rw [Json.equal_isObject h, alike_size h, alike_reasoningMember h hx, alike_reasoningShape h hx,
    alike_isText h hx, alike_isText h hx, alike_isText h hx, alike_textContent h hx]

theorem alike_isResult (h : Json.equal x y = true) (hx : x.proper = true) :
    isResult x = isResult y := by
  unfold isResult
  rw [Json.equal_isObject h, alike_size h, alike_isText h hx, alike_isString h hx]

theorem alike_callValid (h : Json.equal x y = true) (hx : x.proper = true) :
    callValid x = callValid y := by
  unfold callValid
  rw [Json.equal_isObject h, alike_size h, alike_isFilled h hx, alike_textAt h hx,
    alike_isText h hx]
  congr 1
  rcases alike_get h hx "function" with ⟨hx', hy'⟩ | ⟨u, v, hu, hv, huv, hproper⟩
  · rw [hx', hy']
  · rw [hu, hv, Option.any_some, Option.any_some, Json.equal_isObject huv, alike_size huv,
      alike_isFilled huv hproper, alike_isString huv hproper]

theorem alike_calls (h : Json.equal x y = true) (hx : x.proper = true) :
    List.Forall₂ (fun x y => Json.equal x y = true) (callsOf x) (callsOf y) ∧
      ∀ c ∈ callsOf x, c.proper = true := by
  unfold callsOf
  rcases alike_get h hx "tool_calls" with ⟨hx', hy'⟩ | ⟨u, v, hu, hv, huv, hproper⟩
  · rw [hx', hy']
    exact ⟨.nil, fun c hc => absurd hc List.not_mem_nil⟩
  · rw [hu, hv]
    exact ⟨Json.equal_elements huv, Json.proper_elements hproper⟩

theorem alike_idsOf (h : Json.equal x y = true) (hx : x.proper = true) : idsOf x = idsOf y := by
  obtain ⟨hcalls, hproper⟩ := alike_calls h hx
  unfold idsOf
  generalize callsOf x = xs at hcalls hproper
  generalize callsOf y = ys at hcalls
  induction hcalls with
  | nil => rfl
  | @cons x y xs ys hxy later ih =>
      rw [List.filterMap_cons, List.filterMap_cons, alike_textAt hxy (hproper x List.mem_cons_self),
        ih fun c hc => hproper c (List.mem_cons_of_mem x hc)]

theorem alike_callsValid (h : Json.equal x y = true) (hx : x.proper = true) :
    callsValid x = callsValid y := by
  obtain ⟨hcalls, hproper⟩ := alike_calls h hx
  have hcontent : contentMember x = contentMember y := by
    unfold contentMember
    rw [alike_isSome h hx]
  have htext : (x.get? "content").all (fun content => content = .null || content.isString) =
      (y.get? "content").all (fun content => content = .null || content.isString) := by
    rcases alike_get h hx "content" with ⟨hx', hy'⟩ | ⟨u, v, hu, hv, huv, -⟩
    · rw [hx', hy']
    · have hnull : decide (u = .null) = decide (v = .null) := by
        cases u <;> cases v <;> first | rfl | cases huv
      rw [hu, hv, Option.all_some, Option.all_some, hnull, Json.equal_isString huv]
  have harray : (x.get? "tool_calls").any Json.isArray = (y.get? "tool_calls").any Json.isArray := by
    rcases alike_get h hx "tool_calls" with ⟨hx', hy'⟩ | ⟨u, v, hu, hv, huv, -⟩
    · rw [hx', hy']
    · rw [hu, hv, Option.any_some, Option.any_some, Json.equal_isArray huv]
  unfold callsValid
  rw [Json.equal_isObject h, alike_size h, hcontent, alike_reasoningMember h hx,
    alike_reasoningShape h hx, alike_isText h hx, htext, harray, alike_ne_nil hcalls,
    hcalls.length_eq, alike_all hcalls hproper fun _ _ => alike_callValid, alike_idsOf h hx]

end Alike

/-! ## Conversations -/

variable {loader : Loader}

theorem results_alike {ids : List Text} {results past : List Json}
    (h : List.Forall₂ ResultOf ids results)
    (hpast : List.Forall₂ (fun x y => Json.equal x y = true) past results)
    (hproper : ∀ x ∈ past, x.proper = true) : List.Forall₂ ResultOf ids past := by
  induction h generalizing past with
  | nil =>
      cases hpast
      exact .nil
  | @cons id m ids results hm later ih =>
      cases hpast with
      | @cons x _ xs _ hxy hrest =>
          have hx := hproper x List.mem_cons_self
          exact .cons ⟨(alike_isResult hxy hx).trans hm.1, (alike_textAt hxy hx _).trans hm.2⟩
            (ih hrest fun y hy => hproper y (List.mem_cons_of_mem x hy))

/-- Equal messages, and so the same conversation. -/
theorem Conversation.alike {ms : List Json} {groups : List (List Text)}
    (h : Conversation ms groups) {past : List Json}
    (hpast : List.Forall₂ (fun x y => Json.equal x y = true) past ms)
    (hproper : ∀ x ∈ past, x.proper = true) : Conversation past groups := by
  induction h generalizing past with
  | nil =>
      cases hpast
      exact .nil
  | plain text later ih =>
      cases hpast with
      | @cons x _ xs _ hxy hrest =>
          exact .plain ((alike_plain hxy (hproper x List.mem_cons_self)).trans text)
            (ih hrest fun y hy => hproper y (List.mem_cons_of_mem x hy))
  | @block m ids results ms groups calls order answered later ih =>
      cases hpast with
      | @cons x _ xs _ hxy hrest =>
          have hx := hproper x List.mem_cons_self
          have hxs : ∀ y ∈ xs, y.proper = true := fun y hy => hproper y (List.mem_cons_of_mem x hy)
          have hids := alike_idsOf hxy hx
          have hresults := results_alike answered (List.forall₂_take_append xs results ms hrest)
            fun y hy => hxs y (List.mem_of_mem_take hy)
          have hlater := ih (List.forall₂_drop_append xs results ms hrest)
            fun y hy => hxs y (List.mem_of_mem_drop hy)
          rw [← List.take_append_drop results.length xs, ← hids]
          exact .block ((alike_callsValid hxy hx).trans calls) (hids ▸ order) hresults hlater

theorem Conversation.append {ms ms' : List Json} {groups groups' : List (List Text)}
    (h : Conversation ms groups) (h' : Conversation ms' groups') :
    Conversation (ms ++ ms') (groups ++ groups') := by
  induction h with
  | nil => exact h'
  | plain text later ih => exact .plain text ih
  | block calls order answered later ih =>
      rw [List.cons_append, List.append_assoc, List.cons_append]
      exact .block calls order answered ih

/-! ## The replayed message -/

theorem SameCall.valid {c c' : Json} (h : SameCall loader c c') (hc : c.proper = true)
    (hc' : c'.proper = true) (hvalid : CallValid c) : CallValid c' ∧ textAt c' "id" = textAt c "id" := by
  obtain ⟨id, hid, hne, hshort⟩ := hvalid.id
  obtain ⟨f, hf, -, hfsize, ⟨name, hname, hfilled⟩, args, hargs⟩ := hvalid.function
  obtain ⟨f₀, f', hf₀, hget, hobject, hkeys, hname', args₀, args', -, hargs', -⟩ := h.function
  obtain rfl := Option.some.inj (hf.symm.trans hf₀)
  have hnodup : [text "name", text "arguments"].Nodup := by decide
  have hfkeys : KeysAre f [text "name", text "arguments"] := by
    rw [keysAre_iff (Json.proper_get hc hf) hnodup]
    refine ⟨hfsize, fun k hk => ?_⟩
    rcases List.mem_cons.mp hk with rfl | hk
    · rw [hname]
      rfl
    · rw [List.mem_singleton.mp hk, hargs]
      rfl
  have hsize := (sameKeys_iff hc' (by decide) (callKeys hc hvalid)).mpr h.keys
  have hfsize' := (sameKeys_iff (Json.proper_get hc' hget) hnodup hfkeys).mpr hkeys
  refine ⟨⟨h.object, hsize.1, ⟨id, h.id.trans hid, hne, hshort⟩, h.type.trans hvalid.type, f', hget,
    hobject, hfsize'.1, ⟨name, hname'.trans hname, hfilled⟩, args', hargs'⟩, ?_⟩
  unfold textAt
  rw [h.id]

/-- An equivalent message is a valid call message with the same ids. -/
theorem Equivalent.valid {reasoning : Option (List Json)} {m v : Json}
    (h : Equivalent loader reasoning m v) (hshape : reasoningShape v = true) (hm : m.proper = true)
    (hv : v.proper = true) (hvalid : CallsValid m) : CallsValid v ∧ idsOf v = idsOf m := by
  obtain ⟨cs, cs', hcs, hcs', hcalls⟩ := h.calls
  obtain ⟨calls, harray, hne⟩ := hvalid.array
  obtain rfl := Json.array.inj (Option.some.inj (hcs.symm.trans harray))
  have hof : callsOf m = cs := by
    unfold callsOf
    rw [hcs]
    rfl
  have hof' : callsOf v = cs' := by
    unfold callsOf
    rw [hcs']
    rfl
  have hproper := Json.proper_elements (Json.proper_get hm hcs)
  have hproper' := Json.proper_elements (Json.proper_get hv hcs')
  have heach : List.Forall₂ (fun c c' => CallValid c' ∧ textAt c' "id" = textAt c "id") cs cs' := by
    rw [List.forall₂_iff_zip] at hcalls ⊢
    refine ⟨hcalls.1, fun {c c'} hmem => ?_⟩
    have hc := (List.of_mem_zip hmem).1
    exact (hcalls.2 hmem).valid (hproper c hc) (hproper' c' (List.of_mem_zip hmem).2)
      (callValid_iff.mp (hvalid.each c (hof ▸ hc)))
  have hids : idsOf v = idsOf m := by
    unfold idsOf
    rw [hof, hof']
    clear hof hof' hne hcs hcs' harray hcalls hproper hproper'
    induction heach with
    | nil => rfl
    | cons hc later ih => rw [List.filterMap_cons, List.filterMap_cons, hc.2, ih]
  have hcontent : ∀ content, v.get? "content" = some content →
      content = .null ∨ content.isString = true := by
    intro content hget
    rcases h.content with ⟨hnone, -⟩ | hequal
    · rw [hget] at hnone
      cases content with
      | null => exact .inl rfl
      | string s => exact .inr rfl
      | _ => cases hnone
    · rw [hget] at hequal
      cases hold : m.get? "content" with
      | none =>
          rw [hold] at hequal
          cases hequal
      | some old =>
          rw [hold] at hequal
          have heq : Json.equal content old = true := hequal
          rcases hvalid.content old hold with hnull | hstring
          · rw [hnull, Json.equal_null] at heq
            exact .inl heq
          · exact .inr ((Json.equal_isString heq).trans hstring)
  refine ⟨⟨h.object, h.size (assistantKeys_of_valid hm hvalid) hv, hshape,
    h.role.trans hvalid.role, hcontent, ⟨cs', hcs', ?_⟩, ?_, ?_, hids ▸ hvalid.distinct⟩, hids⟩
  · rintro rfl
    cases hcalls
    exact hne rfl
  · rw [hof', ← hcalls.length_eq, ← hof]
    exact hvalid.few
  · intro c hc
    rw [hof'] at hc
    obtain ⟨i, hi, rfl⟩ := List.mem_iff_getElem.mp hc
    have hi' : i < cs.length := hcalls.length_eq ▸ hi
    exact callValid_iff.mpr (List.Forall₂.get heach hi' hi).1

/-- The ids of the call messages among the messages. -/
def usedIds (v : Json) : List Text := (v.elements.filter callsValid).flatMap idsOf

theorem Conversation.usedIds {ms : List Json} {groups : List (List Text)}
    (h : Conversation ms groups) : (ms.filter callsValid).flatMap idsOf = groups.flatten := by
  induction h with
  | nil => rfl
  | @plain m ms groups text later ih =>
      have hnot : ¬ callsValid m = true := by
        intro hcalls
        rw [not_plain_of_callsValid hcalls] at text
        cases text
      rw [List.filter_cons_of_neg hnot, ih]
  | @block m ids results ms groups calls order answered later ih =>
      have hnone : results.filter callsValid = [] := by
        rw [List.filter_eq_nil_iff]
        intro r hr hcalls
        obtain ⟨i, hi, rfl⟩ := List.mem_iff_getElem.mp hr
        have hi' : i < ids.length := answered.length_eq ▸ hi
        have hresult := (List.Forall₂.get answered hi' hi).1
        unfold isResult at hresult
        simp only [Bool.and_eq_true, isText, decide_eq_true_eq] at hresult
        have hrole := (callsValid_iff.mp hcalls).role.symm.trans hresult.1.2
        exact absurd (Json.string.inj (Option.some.inj hrole)) (by decide)
      rw [List.filter_cons_of_pos calls, List.filter_append, hnone, List.nil_append,
        List.flatMap_cons, List.flatten_cons, ih]

/-- The next assistant message is a valid call message with new ids, and it and the messages before
it stay within the limits. -/
structure Next (loader : Loader) (v next : Json) (history observed : Text) : Prop where
  messagesLoad : loader.load history = some v
  observedLoad : loader.load observed = some next
  historyBytes : history.length ≤ maxBytes
  observedBytes : observed.length ≤ maxBytes
  calls : callsValid next = true
  fresh : ∀ id ∈ idsOf next, id ∉ usedIds v
  messages : v.size + 1 + (callsOf next).length ≤ maxMessages
  ids : (usedIds v).length + (idsOf next).length ≤ maxHistoryCalls

/-- Only a boundary without reasoning in its message is ever replayed. -/
theorem unreasoned_of_complete {b : Boundary} {v : Json}
    (h : replayTree loader b v = .complete) : b.assistant.get? "reasoning_details" = none := by
  unfold replayTree at h
  dsimp only at h
  split at h
  next hpass =>
    simp only [Bool.and_eq_true] at hpass
    have hequal := hpass.1.2
    unfold assistantEqual at hequal
    simp only [Bool.and_eq_true] at hequal
    exact Option.isNone_iff_eq_none.mp hequal.1.1.1.2
  next => cases h

/-- The messages of a complete replay may be captured with the next message. -/
theorem capturable_of_replay {h a history observed : Text} {b : Boundary} {v next : Json}
    {reasoning : Option (List Json)} (hcap : (capture loader h a).2 = some b)
    (hv : v.proper = true) (hreplay : replayTree loader { b with reasoning } v = .complete)
    (hnext : Next loader v next history observed) :
    ∃ groups, v = .array v.elements ∧ Capturable v.elements next groups := by
  have hnone : b.assistant.get? "reasoning_details" = none :=
    unreasoned_of_complete (b := { b with reasoning }) hreplay
  have hcaptured := captured_of_capture hcap hnone reasoning
  obtain ⟨ids, hreplayed, hperm⟩ := (replayTree_eq _ hcaptured hv).1.mp hreplay
  obtain ⟨old, assistant, groups, -, -, -, -, hold, rfl⟩ := capture_some hcap
  obtain ⟨past, m, results, rfl, hpast, hequivalent, hshape, hresults⟩ := hreplayed
  have hproper := Json.proper_array.mp hv
  obtain ⟨hvalid, hids⟩ := hequivalent.valid hshape hcaptured.proper
    (hproper m (List.mem_append_right _ List.mem_cons_self)) hcaptured.calls
  have hblock : Conversation (m :: (results ++ [])) (idsOf m :: []) :=
    .block (callsValid_iff.mpr hvalid) (hids ▸ hperm) hresults .nil
  rw [List.append_nil] at hblock
  have hall : Conversation (past ++ m :: results) (groups ++ [idsOf m]) :=
    (hold.conversation.alike hpast fun x hx => hproper x (List.mem_append_left _ hx)).append hblock
  have hused : usedIds (.array (past ++ m :: results)) = (groups ++ [idsOf m]).flatten := hall.usedIds
  have hflat : (groups ++ [idsOf m]).flatten = groups.flatten ++ idsOf assistant := by
    rw [List.flatten_append, List.flatten_singleton, hids]
  refine ⟨groups ++ [idsOf m], rfl, hall, hnext.calls, ?_, hnext.messages, ?_⟩
  · rw [List.nodup_append]
    refine ⟨hflat ▸ hold.distinct, (callsValid_iff.mp hnext.calls).distinct, ?_⟩
    rintro id hid id' hid' rfl
    exact hnext.fresh id hid' (hused ▸ hid)
  · rw [List.length_append, ← hused]
    exact hnext.ids

theorem SameCall.refl {c : Json} (hvalid : CallValid c) : SameCall loader c c := by
  obtain ⟨f, hf, hobject, -, -, args, hargs⟩ := hvalid.function
  exact ⟨hvalid.object, fun _ => rfl, rfl, rfl, f, f, hf, hf, hobject, fun _ => rfl, rfl, args, args,
    hargs, hargs, .inl rfl⟩

theorem Equivalent.refl {m : Json} {reasoning : Option (List Json)} (hm : m.proper = true)
    (hvalid : CallsValid m) (hnone : m.get? "reasoning_details" = none) :
    Equivalent loader reasoning m m := by
  obtain ⟨cs, hcs, -⟩ := hvalid.array
  have hof : callsOf m = cs := by
    unfold callsOf
    rw [hcs]
    rfl
  refine ⟨hvalid.object, fun _ _ _ => rfl, rfl, ?_, ⟨cs, cs, hcs, hcs, ?_⟩, fun r hr => ?_⟩
  · cases hget : m.get? "content" with
    | none => exact .inl ⟨rfl, rfl⟩
    | some content => exact .inr (Json.equal_refl (Json.proper_get hm hget))
  · rw [List.forall₂_same]
    intro c hc
    exact SameCall.refl (callValid_iff.mp (hvalid.each c (hof ▸ hc)))
  · rw [hnone] at hr
    cases hr

/-- After the capture, the same messages with the new one and its results are a complete replay. -/
theorem replay_after_capture {history observed : Text} {b : Boundary} {v next : Json}
    (hv : v.proper = true) (hnext : Next loader v next history observed)
    (hcap : (capture loader history observed).2 = some b)
    (hnone : next.get? "reasoning_details" = none) (reasoning : Option (List Json))
    {ids : List Text} {results : List Json} (hids : ids.Perm (idsOf next))
    (hresults : List.Forall₂ ResultOf ids results) (hproper : ∀ r ∈ results, r.proper = true) :
    replayTree loader { b with reasoning } (.array (v.elements ++ next :: results)) = .complete := by
  obtain ⟨old, assistant, groups, hold, hobserved, -, -, hcapturable, rfl⟩ := capture_some hcap
  obtain rfl := Option.some.inj (hnext.observedLoad.symm.trans hobserved)
  obtain rfl := Option.some.inj (hnext.messagesLoad.symm.trans hold)
  have hnextProper := loader.proper observed next hobserved
  have hvalue : (Json.array (old ++ next :: results)).proper = true := by
    rw [Json.proper_array]
    intro x hx
    rcases List.mem_append.mp hx with hx | hx
    · exact Json.proper_array.mp hv x hx
    · rcases List.mem_cons.mp hx with rfl | hx
      · exact hnextProper
      · exact hproper x hx
  have hcaptured := captured_of_capture hcap hnone reasoning
  refine (replayTree_eq _ hcaptured hvalue).1.mpr ⟨ids, ⟨old, next, results, rfl, ?_,
    .refl hnextProper hcaptured.calls hnone, (callsValid_iff.mp hnext.calls).reasoning, hresults⟩, hids⟩
  rw [List.forall₂_same]
  exact fun x hx => Json.equal_refl (Json.proper_array.mp hv x hx)

/-! ## A whole conversation -/

/-- One tool turn: the messages a harness replays, the assistant message observed next with the texts
both were captured from, and the reasoning observed with it. -/
structure Turn where
  messages : Json
  next : Json
  history : Text
  observed : Text
  reasoning : Option Json

/-- The replay of a turn and the capture after it; `none` pins the session. -/
def takeTurn (loader : Loader) (b : Boundary) (t : Turn) : Option Boundary :=
  if replayTree loader b t.messages = .complete then
    match capture loader t.history t.observed with
    | (.complete, some next) =>
        if (setReasoning next t.reasoning).2 then some (setReasoning next t.reasoning).1 else none
    | _ => none
  else none

/-- The harness replays the turn before, up to the equivalence, with all its results, and the next
message may follow. -/
structure Follows (loader : Loader) (b : Boundary) (t : Turn) : Prop where
  proper : t.messages.proper = true
  replayed : ∃ ids, Replayed loader b t.messages ids ∧ ids.Perm (idsOf b.assistant)
  next : Next loader t.messages t.next t.history t.observed
  unreasoned : t.next.get? "reasoning_details" = none
  reasoning : ∀ v, t.reasoning = some v →
    v.isArray = true ∧ v.elements ≠ [] ∧ v.elements.length ≤ maxReasoning ∧
      ∀ e ∈ v.elements, e.isObject = true

inductive Conversing (loader : Loader) : Boundary → List Turn → Prop where
  | nil (b : Boundary) : Conversing loader b []
  | cons {b : Boundary} {t : Turn} {turns : List Turn} (follows : Follows loader b t)
      (later : ∀ next, takeTurn loader b t = some next → Conversing loader next turns) :
      Conversing loader b (t :: turns)

/-- A boundary as the session holds it: captured, and perhaps with reasoning set since. -/
def Held (loader : Loader) (b : Boundary) : Prop :=
  ∃ h a b₀ reasoning, (capture loader h a).2 = some b₀ ∧ b = { b₀ with reasoning } ∧
    b₀.assistant.get? "reasoning_details" = none

theorem setReasoning_taken (b : Boundary) {reasoning : Option Json} (h : ∀ v, reasoning = some v →
    v.isArray = true ∧ v.elements ≠ [] ∧ v.elements.length ≤ maxReasoning ∧
      ∀ e ∈ v.elements, e.isObject = true) :
    (setReasoning b reasoning).2 = true ∧
      ∃ elements, (setReasoning b reasoning).1 = { b with reasoning := elements } := by
  cases reasoning with
  | none => exact ⟨rfl, none, rfl⟩
  | some v =>
      obtain ⟨harray, hne, hfew, hall⟩ := h v rfl
      have hshape : (v.isArray && decide (v.elements ≠ []) &&
          decide (v.elements.length ≤ maxReasoning) && v.elements.all Json.isObject) = true := by
        rw [harray, decide_eq_true hne, decide_eq_true hfew, List.all_eq_true.mpr hall]
        rfl
      unfold setReasoning
      dsimp only
      rw [if_pos hshape]
      exact ⟨rfl, some v.elements, rfl⟩

/-- A turn of a harness that follows the conversation is taken. -/
theorem takeTurn_of_follows {b : Boundary} {t : Turn} (hb : Held loader b)
    (ht : Follows loader b t) : ∃ next, takeTurn loader b t = some next ∧ Held loader next := by
  obtain ⟨h, a, b₀, reasoning, hcap, rfl, hnone⟩ := hb
  have hcaptured := captured_of_capture hcap hnone reasoning
  have hreplay := (replayTree_eq loader hcaptured ht.proper).1.mpr ht.replayed
  obtain ⟨groups, harray, hcapturable⟩ := capturable_of_replay hcap ht.proper hreplay ht.next
  have hcapture : capture loader t.history t.observed = (.complete, some
      { history := t.messages.elements, assistant := t.next,
        requirements := requirementsOf (groups ++ [idsOf t.next]) }) := by
    rw [capture_eq loader ht.next.historyBytes ht.next.observedBytes, ht.next.messagesLoad,
      ht.next.observedLoad, harray]
    exact captureTree_iff.mpr ⟨groups, hcapturable, rfl⟩
  obtain ⟨htaken, elements, helements⟩ := setReasoning_taken
    { history := t.messages.elements, assistant := t.next,
      requirements := requirementsOf (groups ++ [idsOf t.next]) } ht.reasoning
  refine ⟨_, ?_, t.history, t.observed, _, elements, by rw [hcapture], rfl, ht.unreasoned⟩
  unfold takeTurn
  rw [if_pos hreplay, hcapture]
  dsimp only
  rw [if_pos htaken, helements]

/-- What a replay accepts may be captured with the next assistant message, and replays again; so a
conversation of any number of tool turns that a harness replays equivalently is never pinned. -/
theorem replay_closes (loader : Loader) :
    (∀ h a history observed b v next reasoning, (capture loader h a).2 = some b →
      v.proper = true → replayTree loader { b with reasoning } v = .complete →
      Next loader v next history observed →
      (capture loader history observed).1 = .complete ∧
      ∀ b', (capture loader history observed).2 = some b' →
        next.get? "reasoning_details" = none → ∀ reasoning' ids results, ids.Perm (idsOf next) →
        List.Forall₂ ResultOf ids results → (∀ r ∈ results, r.proper = true) →
        replayTree loader { b' with reasoning := reasoning' }
          (.array (v.elements ++ next :: results)) = .complete) ∧
    ∀ b turns, Held loader b → Conversing loader b turns →
      ∃ last, turns.foldlM (takeTurn loader) b = some last := by
  constructor
  · intro h a history observed b v next reasoning hcap hv hreplay hnext
    constructor
    · obtain ⟨groups, harray, hcapturable⟩ := capturable_of_replay hcap hv hreplay hnext
      rw [capture_eq loader hnext.historyBytes hnext.observedBytes, hnext.messagesLoad,
        hnext.observedLoad, harray, captureTree_iff.mpr ⟨groups, hcapturable, rfl⟩]
    · intro b' hcap' hnone reasoning' ids results hids hresults hproper
      exact replay_after_capture hv hnext hcap' hnone reasoning' hids hresults hproper
  · intro b turns hb hturns
    induction hturns with
    | nil b => exact ⟨b, rfl⟩
    | @cons b t turns follows later ih =>
        obtain ⟨next, htake, hheld⟩ := takeTurn_of_follows hb follows
        obtain ⟨last, hlast⟩ := ih next htake hheld
        refine ⟨last, ?_⟩
        rw [List.foldlM_cons, htake]
        exact hlast

/-! ### A sample -/

def spacedText : Text :=
  text "[\x7b\"role\":\"user\",\"content\":\"run\"\x7d,\x7b\"role\":\"assistant\",\"tool_calls\":[" ++
    text "\x7b\"id\":\"call A\",\"type\":\"function\",\"function\":\x7b\"arguments\":\"\x7b \x7d\",\"name\":\"run\"\x7d\x7d]\x7d," ++
    text "\x7b\"role\":\"tool\",\"tool_call_id\":\"call A\",\"content\":\"done\"\x7d]"

def nextText : Text :=
  text "\x7b\"role\":\"assistant\",\"content\":null,\"tool_calls\":[\x7b\"id\":\"call B\"," ++
    text "\"type\":\"function\",\"function\":\x7b\"name\":\"run\",\"arguments\":\"\x7b\x7d\"\x7d\x7d]\x7d"

def reasonedText : Text :=
  text "\x7b\"role\":\"assistant\",\"content\":null,\"tool_calls\":[\x7b\"id\":\"call B\"," ++
    text "\"type\":\"function\",\"function\":\x7b\"name\":\"run\",\"arguments\":\"\x7b\x7d\"\x7d\x7d]," ++
    text "\"reasoning_details\":[\x7b\x7d]\x7d"

/-- A call message that carries reasoning. -/
def reasonedMessage : Json :=
  .object [("role", .string "assistant"), ("content", .null),
    ("tool_calls", .array [callNamed "call B"]), ("reasoning_details", .array [.object []])]

/-- What the library reads from the texts of two turns. -/
def turnLoader : Loader where
  load t :=
    if t = spacedText then some spacedReplay
    else if t = nextText then some (callMessage "call B")
    else if t = reasonedText then some reasonedMessage
    else sampleLoader.load t
  proper t v h := by
    split at h
    next => exact Option.some.inj h ▸ by decide +kernel
    next =>
      split at h
      next => exact Option.some.inj h ▸ by decide +kernel
      next =>
        split at h
        next => exact Option.some.inj h ▸ by decide +kernel
        next => exact sampleLoader.proper t v h

theorem sample_next {next : Json} {observed : Text} (hload : turnLoader.load observed = some next)
    (hlength : observed.length ≤ maxBytes) (hcalls : callsValid next = true)
    (hids : idsOf next = [text "call B"]) : Next turnLoader spacedReplay next spacedText observed := by
  have hused : usedIds spacedReplay = [text "call A"] := by decide +kernel
  have hone := length_idsOf (callsValid_iff.mp hcalls).each
  rw [hids] at hone
  refine ⟨by decide +kernel, hload, by decide +kernel, hlength, hcalls, ?_, ?_, ?_⟩
  · rw [hids, hused]
    decide
  · rw [← hone]
    decide +kernel
  · rw [hids, hused]
    decide

theorem turn_captured : (capture turnLoader userText callText).2 = some sampleBoundary := by
  decide +kernel

/-- The first call is replayed with its arguments written another way, and a second call follows. -/
theorem replay_closes_sample :
    ((capture turnLoader spacedText nextText).1 = .complete ∧
      ∀ b', (capture turnLoader spacedText nextText).2 = some b' →
        replayTree turnLoader { b' with reasoning := none } (.array (spacedReplay.elements ++
          callMessage "call B" :: [resultFor "call B"])) = .complete) ∧
    ∃ last, [Turn.mk spacedReplay (callMessage "call B") spacedText nextText none].foldlM
      (takeTurn turnLoader) sampleBoundary = some last := by
  have hreplay : replayTree turnLoader { sampleBoundary with reasoning := none } spacedReplay =
      .complete := by decide +kernel
  have hnext : Next turnLoader spacedReplay (callMessage "call B") spacedText nextText :=
    sample_next (by decide +kernel) (by decide +kernel) (by decide +kernel) (by decide +kernel)
  have hreplayed := (replayTree_eq _ (captured_of_capture turn_captured (by decide +kernel) none)
    (by decide +kernel)).1.mp hreplay
  have hfollows : Follows turnLoader sampleBoundary
      ⟨spacedReplay, callMessage "call B", spacedText, nextText, none⟩ :=
    ⟨by decide +kernel, hreplayed, hnext, by decide +kernel, fun v hv => by cases hv⟩
  obtain ⟨honce, hmany⟩ := replay_closes turnLoader
  obtain ⟨hcomplete, hagain⟩ := honce _ _ _ _ _ _ _ none turn_captured (by decide +kernel) hreplay
    hnext
  refine ⟨⟨hcomplete, fun b' hb' => ?_⟩, ?_⟩
  · exact hagain b' hb' (by decide +kernel) none [text "call B"] [resultFor "call B"]
      (by decide +kernel) (.cons ⟨by decide +kernel, by decide +kernel⟩ .nil) (by decide +kernel)
  · exact hmany sampleBoundary _
      ⟨userText, callText, sampleBoundary, none, turn_captured, rfl, by decide +kernel⟩
      (.cons hfollows fun next _ => .nil next)

/-- A message with reasoning of its own is captured, but no replay of it is accepted. -/
theorem reasoned_call_pinned :
    replayTree turnLoader sampleBoundary spacedReplay = .complete ∧
      Next turnLoader spacedReplay reasonedMessage spacedText reasonedText ∧
      (capture turnLoader spacedText reasonedText).1 = .complete ∧
      ((capture turnLoader spacedText reasonedText).2.map fun b => replayTree turnLoader b
        (.array (spacedReplay.elements ++ [reasonedMessage, resultFor "call B"]))) =
        some .invalid :=
  ⟨by decide +kernel, sample_next (by decide +kernel) (by decide +kernel) (by decide +kernel)
    (by decide +kernel), by decide +kernel, by decide +kernel⟩

end Recursant.ToolBoundary
