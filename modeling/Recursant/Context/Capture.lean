import Recursant.Context.ToolBoundary

/-!
# What a capture accepts

A conversation is plain messages and blocks, a block being a call message and one result for each of
its calls, in any order.  The scan of a history accepts just these.
-/

namespace Recursant.ToolBoundary

/-- The message is a result of the call. -/
def ResultOf (id : Text) (m : Json) : Prop :=
  isResult m = true ∧ textAt m "tool_call_id" = some id

/-- A history, with the ids that each of its call messages uses. -/
inductive Conversation : List Json → List (List Text) → Prop where
  | nil : Conversation [] []
  | plain {m : Json} {ms : List Json} {groups : List (List Text)} (text : plain m = true)
      (later : Conversation ms groups) : Conversation (m :: ms) groups
  | block {m : Json} {ids : List Text} {results ms : List Json} {groups : List (List Text)}
      (calls : callsValid m = true) (order : ids.Perm (idsOf m))
      (answered : List.Forall₂ ResultOf ids results) (later : Conversation ms groups) :
      Conversation (m :: (results ++ ms)) (idsOf m :: groups)

/-- What the calls of a conversation require of a model. -/
def required : List (List Text) → UInt32
  | [] => 0
  | ids :: groups => (capHistory ||| capFunctions) ||| (if ids.length > 1 then capParallel else 0) |||
      required groups

/-- A history and an assistant message that may be captured. -/
structure Capturable (history : List Json) (assistant : Json) (groups : List (List Text)) : Prop where
  conversation : Conversation history groups
  calls : callsValid assistant = true
  distinct : (groups.flatten ++ idsOf assistant).Nodup
  messages : history.length + 1 + (callsOf assistant).length ≤ maxMessages
  ids : (groups.flatten ++ idsOf assistant).length ≤ maxHistoryCalls

/-! ## Call messages -/

structure CallsValid (m : Json) : Prop where
  object : m.isObject = true
  size : objectSize m = 2 + contentMember m + reasoningMember m
  reasoning : reasoningShape m = true
  role : m.get? "role" = some (.string (text "assistant"))
  content : ∀ content, m.get? "content" = some content → content = .null ∨ content.isString = true
  array : ∃ calls, m.get? "tool_calls" = some (.array calls) ∧ calls ≠ []
  few : (callsOf m).length ≤ maxCalls
  each : ∀ c ∈ callsOf m, callValid c = true
  distinct : (idsOf m).Nodup

theorem callsValid_iff {m : Json} : callsValid m = true ↔ CallsValid m := by
  unfold callsValid
  simp only [Bool.and_eq_true, decide_eq_true_eq, isText, List.all_eq_true, Option.all_eq_true,
    Option.any_eq_true, Bool.or_eq_true]
  constructor
  · rintro ⟨⟨⟨⟨⟨⟨⟨⟨⟨hobject, hsize⟩, hreasoning⟩, hrole⟩, hcontent⟩, hcalls⟩, hne⟩, hfew⟩, heach⟩,
      hdistinct⟩
    obtain ⟨v, hv, harray⟩ := hcalls
    refine ⟨hobject, hsize, hreasoning, hrole, hcontent, ?_, hfew, heach, hdistinct⟩
    cases v with
    | array calls =>
        refine ⟨calls, hv, fun hnil => hne ?_⟩
        unfold callsOf
        rw [hv, hnil]
        rfl
    | _ => cases harray
  · rintro ⟨hobject, hsize, hreasoning, hrole, hcontent, ⟨calls, hv, hne⟩, hfew, heach, hdistinct⟩
    refine ⟨⟨⟨⟨⟨⟨⟨⟨⟨hobject, hsize⟩, hreasoning⟩, hrole⟩, hcontent⟩, _, hv, rfl⟩, ?_⟩, hfew⟩, heach⟩,
      hdistinct⟩
    unfold callsOf
    rw [hv]
    exact hne

theorem bind_text {v : Option Json} {s : Text} :
    v.bind Json.text? = some s ↔ v = some (.string s) := by
  cases v with
  | none => simp
  | some v => cases v <;> simp [Json.text?]

theorem isFilled_iff {v : Option Json} :
    isFilled v = true ↔ ∃ s, v = some (.string s) ∧ s ≠ [] := by
  unfold isFilled
  simp only [Option.any_eq_true, bind_text, decide_eq_true_eq]

theorem isString_iff {v : Option Json} : isString v = true ↔ ∃ s, v = some (.string s) := by
  unfold isString
  cases v with
  | none => simp
  | some v => cases v <;> simp [Json.isString]

/-- The members of a valid call. -/
structure CallValid (c : Json) : Prop where
  object : c.isObject = true
  size : objectSize c = 3
  id : ∃ id, c.get? "id" = some (.string id) ∧ id ≠ [] ∧ id.length ≤ maxIdBytes
  type : c.get? "type" = some (.string (text "function"))
  function : ∃ f, c.get? "function" = some f ∧ f.isObject = true ∧ objectSize f = 2 ∧
    (∃ name, f.get? "name" = some (.string name) ∧ name ≠ []) ∧
    ∃ args, f.get? "arguments" = some (.string args)

theorem callValid_iff {c : Json} : callValid c = true ↔ CallValid c := by
  unfold callValid
  simp only [Bool.and_eq_true, decide_eq_true_eq, isText, isFilled_iff, isString_iff,
    Option.any_eq_true]
  constructor
  · rintro ⟨⟨⟨⟨⟨hobject, hsize⟩, id, hid, hne⟩, hshort⟩, htype⟩, f, hf, ⟨⟨hfobject, hfsize⟩, hname⟩,
      hargs⟩
    refine ⟨hobject, hsize, ⟨id, hid, hne, ?_⟩, htype, f, hf, hfobject, hfsize, hname, hargs⟩
    unfold textAt at hshort
    rw [hid] at hshort
    exact of_decide_eq_true hshort
  · rintro ⟨hobject, hsize, ⟨id, hid, hne, hshort⟩, htype, f, hf, hfobject, hfsize, hname, hargs⟩
    refine ⟨⟨⟨⟨⟨hobject, hsize⟩, id, hid, hne⟩, ?_⟩, htype⟩, f, hf, ⟨⟨hfobject, hfsize⟩, hname⟩, hargs⟩
    unfold textAt
    rw [hid]
    exact decide_eq_true hshort

theorem length_idsOf {m : Json} (h : ∀ c ∈ callsOf m, callValid c = true) :
    (idsOf m).length = (callsOf m).length := by
  unfold idsOf
  generalize callsOf m = calls at h
  induction calls with
  | nil => rfl
  | cons c cs ih =>
      obtain ⟨id, hid, -⟩ := (callValid_iff.mp (h c List.mem_cons_self)).id
      have htext : textAt c "id" = some id := bind_text.mpr hid
      rw [List.filterMap_cons_some (f := (textAt · "id")) htext, List.length_cons,
        List.length_cons, ih fun c' hc' => h c' (List.mem_cons_of_mem c hc')]

theorem idsOf_ne_nil {m : Json} (h : callsValid m = true) : idsOf m ≠ [] := by
  have hvalid := callsValid_iff.mp h
  obtain ⟨calls, hcalls, hne⟩ := hvalid.array
  have hof : callsOf m = calls := by
    unfold callsOf
    rw [hcalls]
    rfl
  intro hnil
  have hlength := length_idsOf hvalid.each
  rw [hnil, hof] at hlength
  exact hne (List.length_eq_zero_iff.mp hlength.symm)

/-- A call message is not plain: it has a member more. -/
theorem not_plain_of_callsValid {m : Json} (h : callsValid m = true) : plain m = false := by
  rw [Bool.eq_false_iff]
  intro hplain
  have hsize := (callsValid_iff.mp h).size
  unfold plain at hplain
  simp only [Bool.and_eq_true, decide_eq_true_eq] at hplain
  obtain ⟨⟨⟨⟨-, hsize'⟩, -⟩, -⟩, hcontent⟩ := hplain
  have hsome : (m.get? "content").isSome = true := by
    cases hget : m.get? "content" with
    | none =>
        rw [hget] at hcontent
        cases hcontent
    | some v => rfl
  unfold contentMember at hsize
  rw [if_pos hsome] at hsize
  omega

/-! ## The scan of a block -/

theorem enter_iff {used ids all : List Text} (hused : used.Nodup) :
    enter used ids = some all ↔ all = used ++ ids ∧ (used ++ ids).Nodup := by
  induction ids generalizing used with
  | nil =>
      rw [enter, List.append_nil]
      constructor
      · intro h
        exact ⟨(Option.some.inj h).symm, hused⟩
      · rintro ⟨rfl, -⟩
        rfl
  | cons id ids ih =>
      rw [enter]
      by_cases hin : used.contains id = true
      · rw [if_pos hin]
        refine iff_of_false (by intro h; cases h) ?_
        rintro ⟨-, hnodup⟩
        exact (List.nodup_append.mp hnodup).2.2 id (List.contains_iff_mem.mp hin) id
          List.mem_cons_self rfl
      · have hnot : id ∉ used := fun hmem => hin (List.contains_iff_mem.mpr hmem)
        have hgrown : (used ++ [id]).Nodup := by
          rw [← List.concat_eq_append]
          exact hused.concat hnot
        rw [if_neg hin, ih hgrown, List.append_assoc]
        rfl

/-- What a call message does to a scan that misses nothing. -/
theorem stepCalls_iff {w w' : Walk} {m : Json} (hused : w.used.Nodup) :
    stepCalls w m = .ok w' ↔ callsValid m = true ∧ (w.used ++ idsOf m).Nodup ∧
      (w.used ++ idsOf m).length ≤ maxHistoryCalls ∧
      w' = { before := w.used, block := Checklist.fresh (idsOf m), pending := (idsOf m).length,
             requirements := w.requirements ||| (capHistory ||| capFunctions) |||
               if (idsOf m).length > 1 then capParallel else 0 } := by
  unfold stepCalls
  by_cases hvalid : callsValid m = true
  · rw [if_pos hvalid]
    have hne := List.length_pos_iff.mpr (idsOf_ne_nil hvalid)
    by_cases hfew : (idsOf m).length > maxHistoryCalls - w.used.length
    · rw [if_pos hfew]
      refine iff_of_false (by intro h; cases h) ?_
      rintro ⟨-, -, hlength, -⟩
      rw [List.length_append] at hlength
      omega
    · rw [if_neg hfew]
      have hlength : (w.used ++ idsOf m).length ≤ maxHistoryCalls := by
        rw [List.length_append]
        omega
      cases henter : enter w.used (idsOf m) with
      | none =>
          refine iff_of_false (by intro h; cases h) ?_
          rintro ⟨-, hnodup, -⟩
          rw [(enter_iff hused).mpr ⟨rfl, hnodup⟩] at henter
          cases henter
      | some all =>
          have hnodup := ((enter_iff hused).mp henter).2
          constructor
          · intro h
            exact ⟨hvalid, hnodup, hlength, (Except.ok.inj h).symm⟩
          · rintro ⟨-, -, -, rfl⟩
            rfl
  · rw [if_neg hvalid]
    refine iff_of_false (by intro h; cases h) ?_
    rintro ⟨htrue, -⟩
    exact hvalid htrue

/-- The scan waits for as many results as are missing, and no id stands twice. -/
structure Waiting (w : Walk) : Prop where
  nodup : w.used.Nodup
  pending : w.pending = (Checklist.missing w.block).length

theorem Waiting.block_nodup {w : Walk} (h : Waiting w) : (w.block.map Prod.fst).Nodup :=
  (List.nodup_append.mp h.nodup).2.1

theorem Waiting.stepCalls {w w' : Walk} {m : Json} (h : Waiting w)
    (hstep : stepCalls w m = .ok w') : Waiting w' := by
  obtain ⟨-, hnodup, -, rfl⟩ := (stepCalls_iff h.nodup).mp hstep
  constructor
  · show (w.used ++ (Checklist.fresh (idsOf m)).map Prod.fst).Nodup
    rw [Checklist.keys_fresh]
    exact hnodup
  · show (idsOf m).length = _
    rw [Checklist.missing_fresh]

/-- A result while some are missing is one of the missing ones. -/
theorem stepResult_ok {w w' : Walk} {m : Json} (h : Waiting w) (hstep : stepResult w m = .ok w') :
    ∃ id, ResultOf id m ∧
      (Checklist.missing w.block).Perm (id :: Checklist.missing w'.block) ∧
      w'.used = w.used ∧ w'.requirements = w.requirements ∧ Waiting w' := by
  unfold stepResult at hstep
  split at hstep
  next hresult =>
    split at hstep
    next block hblock =>
      obtain ⟨id, hid, htick⟩ := Option.bind_eq_some_iff.mp hblock
      obtain rfl := Except.ok.inj hstep
      have hperm := Checklist.missing_tick htick
      have hused : w.before ++ block.map Prod.fst = w.used := by
        rw [Checklist.keys_tick htick]
        rfl
      refine ⟨id, ⟨hresult, hid⟩, hperm, hused, rfl, ?_, ?_⟩
      · show (w.before ++ block.map Prod.fst).Nodup
        rw [hused]
        exact h.nodup
      · show w.pending - 1 = (Checklist.missing block).length
        rw [h.pending, hperm.length_eq, List.length_cons, Nat.add_sub_cancel]
    next => cases hstep
  next => cases hstep

theorem stepResult_of_missing {w : Walk} {m : Json} {id : Text} (h : Waiting w)
    (hm : ResultOf id m) (hid : id ∈ Checklist.missing w.block) :
    ∃ w', stepResult w m = .ok w' := by
  obtain ⟨block, htick⟩ := Checklist.tick_of_missing h.block_nodup hid
  unfold stepResult
  rw [if_pos hm.1, hm.2, Option.bind_some, htick]
  exact ⟨_, rfl⟩

/-- A scan that waits for results and ends with none missing read them first, in some order. -/
theorem foldlM_waiting {ms : List Json} {w last : Walk} (h : Waiting w)
    (hrun : ms.foldlM step w = .ok last) (hlast : last.pending = 0) :
    ∃ ids results rest w', ms = results ++ rest ∧ ids.Perm (Checklist.missing w.block) ∧
      List.Forall₂ ResultOf ids results ∧ w'.used = w.used ∧ w'.requirements = w.requirements ∧
      Waiting w' ∧ w'.pending = 0 ∧ rest.foldlM step w' = .ok last := by
  induction ms generalizing w with
  | nil =>
      obtain rfl := Except.ok.inj hrun
      have hnone := h.pending
      rw [hlast] at hnone
      have hnil := List.length_eq_zero_iff.mp hnone.symm
      exact ⟨[], [], [], w, rfl, hnil ▸ .refl _, .nil, rfl, rfl, h, hlast, rfl⟩
  | cons m ms ih =>
      by_cases hpending : w.pending = 0
      · have hnone := h.pending
        rw [hpending] at hnone
        have hnil := List.length_eq_zero_iff.mp hnone.symm
        exact ⟨[], [], m :: ms, w, rfl, hnil ▸ .refl _, .nil, rfl, rfl, h, hpending, hrun⟩
      · rw [List.foldlM_cons] at hrun
        have hstep : step w m = stepResult w m := if_pos hpending
        rw [hstep] at hrun
        cases hresult : stepResult w m with
        | error status =>
            rw [hresult] at hrun
            cases hrun
        | ok next =>
            rw [hresult] at hrun
            obtain ⟨id, hm, hperm, hused, hreq, hwaiting⟩ := stepResult_ok h hresult
            obtain ⟨ids, results, rest, w', hsplit, hids, hanswered, hused', hreq', hw', hzero,
              hrest⟩ := ih hwaiting hrun
            exact ⟨id :: ids, m :: results, rest, w', by rw [hsplit]; rfl,
              (hids.cons id).trans hperm.symm, .cons hm hanswered, hused'.trans hused,
              hreq'.trans hreq, hw', hzero, hrest⟩

/-- The other way round, results for all that is missing are read. -/
theorem foldlM_results {ids : List Text} {results : List Json} {w : Walk} (h : Waiting w)
    (hids : ids.Perm (Checklist.missing w.block)) (hanswered : List.Forall₂ ResultOf ids results) :
    ∃ w', results.foldlM step w = .ok w' ∧ w'.used = w.used ∧ w'.requirements = w.requirements ∧
      Waiting w' ∧ w'.pending = 0 := by
  induction hanswered generalizing w with
  | nil =>
      refine ⟨w, rfl, rfl, rfl, h, ?_⟩
      rw [h.pending, ← hids.length_eq]
      rfl
  | @cons id m ids results hm later ih =>
      have hpending : w.pending ≠ 0 := by
        rw [h.pending, ← hids.length_eq]
        exact Nat.succ_ne_zero _
      obtain ⟨next, hstep⟩ := stepResult_of_missing h hm (hids.subset List.mem_cons_self)
      obtain ⟨id', hm', hperm, hused, hreq, hwaiting⟩ := stepResult_ok h hstep
      obtain rfl : id' = id := Option.some.inj (hm'.2.symm.trans hm.2)
      have hrest := (List.perm_cons id').mp (hids.trans hperm)
      obtain ⟨w', hrun, hused', hreq', hw', hzero⟩ := ih hwaiting hrest
      refine ⟨w', ?_, hused'.trans hused, hreq'.trans hreq, hw', hzero⟩
      have hfirst : step w m = .ok next := (if_pos hpending).trans hstep
      rw [List.foldlM_cons, hfirst]
      exact hrun

/-! ## The whole scan -/

theorem step_plain {w : Walk} {m : Json} (hzero : w.pending = 0) (hm : plain m = true) :
    step w m = .ok w := by
  unfold step
  rw [if_neg (not_not_intro hzero), if_pos hm]

theorem step_calls {w : Walk} {m : Json} (hzero : w.pending = 0) (hm : plain m = false) :
    step w m = stepCalls w m := by
  unfold step
  rw [if_neg (not_not_intro hzero), hm]
  rfl

/-- A scan that misses nothing before and after has read a conversation. -/
theorem conversation_of_foldlM {ms : List Json} {w last : Walk} (hw : Waiting w)
    (hzero : w.pending = 0) (hroom : w.used.length ≤ maxHistoryCalls)
    (hrun : ms.foldlM step w = .ok last) (hlast : last.pending = 0) :
    ∃ groups, Conversation ms groups ∧ last.used = w.used ++ groups.flatten ∧
      last.requirements = w.requirements ||| required groups ∧ Waiting last ∧
      last.used.length ≤ maxHistoryCalls := by
  match ms with
  | [] =>
      obtain rfl := Except.ok.inj hrun
      refine ⟨[], .nil, (List.append_nil _).symm, ?_, hw, hroom⟩
      rw [required, UInt32.or_zero]
  | m :: ms =>
      rw [List.foldlM_cons] at hrun
      by_cases hplain : plain m = true
      · rw [step_plain hzero hplain] at hrun
        obtain ⟨groups, hconversation, hrest⟩ := conversation_of_foldlM hw hzero hroom hrun hlast
        exact ⟨groups, .plain hplain hconversation, hrest⟩
      · rw [step_calls hzero (Bool.eq_false_iff.mpr hplain)] at hrun
        cases hcalls : stepCalls w m with
        | error status =>
            rw [hcalls] at hrun
            cases hrun
        | ok opened =>
            rw [hcalls] at hrun
            have hopened := hw.stepCalls hcalls
            obtain ⟨hvalid, hnodup, hlength, rfl⟩ := (stepCalls_iff hw.nodup).mp hcalls
            obtain ⟨ids, results, rest, next, rfl, hids, hanswered, hused, hreq, hnext, hnextZero,
              hrest⟩ := foldlM_waiting hopened hrun hlast
            rw [Checklist.missing_fresh] at hids
            have hused' : next.used = w.used ++ idsOf m := by
              rw [hused]
              show w.used ++ (Checklist.fresh (idsOf m)).map Prod.fst = _
              rw [Checklist.keys_fresh]
            obtain ⟨groups, hconversation, hgrown, hrequired, hwaiting, hshort⟩ :=
              conversation_of_foldlM hnext hnextZero (hused' ▸ hlength) hrest hlast
            refine ⟨idsOf m :: groups, .block hvalid hids hanswered hconversation, ?_, ?_, hwaiting,
              hshort⟩
            · rw [hgrown, hused', List.flatten_cons, List.append_assoc]
            · rw [hrequired, hreq, required]
              simp only [UInt32.or_assoc]
termination_by ms.length
decreasing_by
  · rw [List.length_cons]
    omega
  · subst_vars
    simp only [List.length_cons, List.length_append]
    omega

/-- A conversation is read to its end, while its ids are distinct and not too many. -/
theorem foldlM_of_conversation {ms : List Json} {groups : List (List Text)}
    (h : Conversation ms groups) {w : Walk} (hw : Waiting w) (hzero : w.pending = 0)
    (hnodup : (w.used ++ groups.flatten).Nodup)
    (hroom : (w.used ++ groups.flatten).length ≤ maxHistoryCalls) :
    ∃ last, ms.foldlM step w = .ok last ∧ last.pending = 0 ∧
      last.used = w.used ++ groups.flatten ∧
      last.requirements = w.requirements ||| required groups ∧ Waiting last := by
  induction h generalizing w with
  | nil =>
      refine ⟨w, rfl, hzero, (List.append_nil _).symm, ?_, hw⟩
      rw [required, UInt32.or_zero]
  | @plain m ms groups text later ih =>
      rw [List.foldlM_cons, step_plain hzero text]
      exact ih hw hzero hnodup hroom
  | @block m ids results ms groups calls order answered later ih =>
      rw [List.flatten_cons, ← List.append_assoc] at hnodup hroom
      have hcalls : stepCalls w m = .ok _ := (stepCalls_iff hw.nodup).mpr
        ⟨calls, (List.nodup_append.mp hnodup).1, by rw [List.length_append] at hroom; omega, rfl⟩
      obtain ⟨next, hresults, hused, hreq, hnext, hnextZero⟩ := foldlM_results
        (hw.stepCalls hcalls) (by rw [Checklist.missing_fresh]; exact order) answered
      have hused' : next.used = w.used ++ idsOf m := by
        rw [hused]
        show w.used ++ (Checklist.fresh (idsOf m)).map Prod.fst = _
        rw [Checklist.keys_fresh]
      obtain ⟨last, hrun, hlast, hgrown, hrequired, hwaiting⟩ :=
        ih hnext hnextZero (hused' ▸ hnodup) (hused' ▸ hroom)
      refine ⟨last, ?_, hlast, ?_, ?_, hwaiting⟩
      · rw [List.foldlM_cons, step_calls hzero (not_plain_of_callsValid calls), hcalls]
        show (results ++ ms).foldlM step _ = .ok last
        rw [List.foldlM_append, hresults]
        exact hrun
      · rw [hgrown, hused', List.flatten_cons, List.append_assoc]
      · rw [hrequired, hreq, required]
        simp only [UInt32.or_assoc]

theorem required_append (groups : List (List Text)) (ids : List Text) :
    required groups ||| ((capHistory ||| capFunctions) |||
      if ids.length > 1 then capParallel else 0) =
    (capHistory ||| capFunctions) |||
      if (groups ++ [ids]).any (1 < ·.length) then capParallel else 0 := by
  induction groups with
  | nil =>
      rw [required, UInt32.zero_or]
      simp
  | cons group groups ih =>
      rw [required, UInt32.or_assoc, ih, List.cons_append, List.any_cons]
      by_cases hgroup : 1 < group.length
      · rw [if_pos hgroup, decide_eq_true hgroup, Bool.true_or, if_pos rfl]
        split <;> decide
      · rw [if_neg hgroup, decide_eq_false hgroup, Bool.false_or]
        split <;> decide

theorem waiting_start : Waiting {} := ⟨.nil, rfl⟩

/-- The scan of a history and the observed message accepts what may be captured. -/
theorem historyValid_iff {history : List Json} {assistant : Json} {last : Walk} :
    historyValid history assistant = .ok last ↔ ∃ groups, Conversation history groups ∧
      callsValid assistant = true ∧ (groups.flatten ++ idsOf assistant).Nodup ∧
      (groups.flatten ++ idsOf assistant).length ≤ maxHistoryCalls ∧
      last = { before := groups.flatten, block := Checklist.fresh (idsOf assistant),
               pending := (idsOf assistant).length,
               requirements := (capHistory ||| capFunctions) |||
                 if (groups ++ [idsOf assistant]).any (1 < ·.length) then capParallel else 0 } := by
  unfold historyValid
  constructor
  · intro h
    cases hrun : history.foldlM step {} with
    | error status =>
        rw [hrun] at h
        cases h
    | ok w =>
        rw [hrun] at h
        have hlast : stepLast w assistant = .ok last := h
        unfold stepLast at hlast
        split at hlast
        next => cases hlast
        next hpending =>
          have hzero : w.pending = 0 := not_not.mp hpending
          obtain ⟨groups, hconversation, hused, hreq, hwaiting, -⟩ :=
            conversation_of_foldlM waiting_start rfl (Nat.zero_le _) hrun hzero
          have hflat : w.used = groups.flatten := hused
          obtain ⟨hcalls, hnodup, hlength, rfl⟩ := (stepCalls_iff hwaiting.nodup).mp hlast
          refine ⟨groups, hconversation, hcalls, hflat ▸ hnodup, hflat ▸ hlength, ?_⟩
          rw [hflat, hreq, ← required_append, UInt32.zero_or, UInt32.or_assoc]
  · rintro ⟨groups, hconversation, hcalls, hnodup, hlength, rfl⟩
    obtain ⟨w, hrun, hzero, hused, hreq, hwaiting⟩ := foldlM_of_conversation hconversation
      waiting_start rfl (List.nodup_append.mp hnodup).1
      (by
        show groups.flatten.length ≤ _
        rw [List.length_append] at hlength
        omega)
    have hflat : w.used = groups.flatten := hused
    rw [hrun]
    show stepLast w assistant = _
    unfold stepLast
    rw [if_neg (not_not_intro hzero), stepCalls_iff hwaiting.nodup, hflat]
    refine ⟨hcalls, hnodup, hlength, ?_⟩
    have hreq' : w.requirements = required groups := hreq.trans UInt32.zero_or
    rw [hreq', ← required_append]
    simp only [UInt32.or_assoc]

/-! ## Capture -/

/-- What the calls of a captured conversation require. -/
def requirementsOf (groups : List (List Text)) : UInt32 :=
  (capHistory ||| capFunctions) ||| if groups.any (1 < ·.length) then capParallel else 0

theorem captureTree_iff {history : List Json} {assistant : Json} {b : Boundary} :
    captureTree (some (.array history)) (some assistant) = (.complete, some b) ↔
      ∃ groups, Capturable history assistant groups ∧
        b = { history, assistant, requirements := requirementsOf (groups ++ [idsOf assistant]) } := by
  unfold captureTree
  dsimp only
  by_cases hcalls : callsValid assistant = true
  · rw [hcalls, if_neg (by decide)]
    by_cases hmany : history.length + 1 + (callsOf assistant).length > maxMessages
    · rw [if_pos hmany]
      refine iff_of_false (by intro h; cases h) ?_
      rintro ⟨groups, hcapturable, -⟩
      have := hcapturable.messages
      omega
    · rw [if_neg hmany]
      cases hvalid : historyValid history assistant with
      | error status =>
          refine iff_of_false ?_ ?_
          · intro h
            cases (Prod.mk.inj h).2
          · rintro ⟨groups, hcapturable, -⟩
            have hok := historyValid_iff.mpr ⟨groups, hcapturable.conversation, hcalls,
              hcapturable.distinct, hcapturable.ids, rfl⟩
            rw [hvalid] at hok
            cases hok
      | ok last =>
          obtain ⟨groups, hconversation, -, hnodup, hlength, hlast⟩ := historyValid_iff.mp hvalid
          constructor
          · intro h
            obtain rfl := Option.some.inj (Prod.mk.inj h).2
            exact ⟨groups, ⟨hconversation, hcalls, hnodup, by omega, hlength⟩, by rw [hlast]; rfl⟩
          · rintro ⟨groups', hcapturable, rfl⟩
            have hok := historyValid_iff.mpr ⟨groups', hcapturable.conversation, hcalls,
              hcapturable.distinct, hcapturable.ids, rfl⟩
            obtain rfl := Except.ok.inj (hvalid.symm.trans hok)
            rfl
  · rw [Bool.eq_false_iff.mpr hcalls, if_pos (by decide)]
    refine iff_of_false (by intro h; cases h) ?_
    rintro ⟨groups, hcapturable, -⟩
    exact hcalls hcapturable.calls

theorem stepCalls_error {w : Walk} {m : Json} {status : Status}
    (h : stepCalls w m = .error status) : status ≠ .complete := by
  unfold stepCalls at h
  split at h
  next =>
    dsimp only at h
    split at h
    next =>
      obtain rfl := Except.error.inj h
      decide
    next =>
      split at h
      next => cases h
      next =>
        obtain rfl := Except.error.inj h
        decide
  next =>
    obtain rfl := Except.error.inj h
    decide

theorem step_error {w : Walk} {m : Json} {status : Status} (h : step w m = .error status) :
    status ≠ .complete := by
  unfold step at h
  split at h
  next =>
    unfold stepResult at h
    split at h
    next =>
      split at h
      next => cases h
      next =>
        obtain rfl := Except.error.inj h
        decide
    next =>
      obtain rfl := Except.error.inj h
      decide
  next =>
    split at h
    next => cases h
    next => exact stepCalls_error h

/-- The scan of a history does not fail with the status complete. -/
theorem historyValid_error {history : List Json} {assistant : Json} {status : Status}
    (h : historyValid history assistant = .error status) : status ≠ .complete := by
  have hfold : ∀ (ms : List Json) (w : Walk), ms.foldlM step w = .error status →
      status ≠ .complete := by
    intro ms
    induction ms with
    | nil => exact fun w h => by cases h
    | cons m ms ih =>
        intro w h
        rw [List.foldlM_cons] at h
        cases hstep : step w m with
        | error status' =>
            rw [hstep] at h
            obtain rfl := Except.error.inj h
            exact step_error hstep
        | ok next =>
            rw [hstep] at h
            exact ih next h
  unfold historyValid at h
  cases hrun : history.foldlM step {} with
  | error status' =>
      rw [hrun] at h
      obtain rfl := Except.error.inj h
      exact hfold history {} hrun
  | ok w =>
      rw [hrun] at h
      have hlast : stepLast w assistant = .error status := h
      unfold stepLast at hlast
      split at hlast
      next =>
        obtain rfl := Except.error.inj hlast
        decide
      next => exact stepCalls_error hlast

/-- A boundary is handed out with the status complete, and with no other. -/
theorem captureTree_status (history assistant : Option Json) :
    (captureTree history assistant).1 = .complete ↔
      (captureTree history assistant).2.isSome = true := by
  unfold captureTree
  split
  next history assistant =>
    split
    next => decide
    next =>
      split
      next => decide
      next =>
        split
        next => exact iff_of_true rfl rfl
        next status hvalid =>
          exact iff_of_false (historyValid_error hvalid) (by intro hsome; cases hsome)
  next => decide

theorem capture_eq (loader : Loader) {h a : Text} (hbytes : h.length ≤ maxBytes)
    (abytes : a.length ≤ maxBytes) :
    capture loader h a = captureTree (loader.load h) (loader.load a) := by
  unfold capture
  rw [decide_eq_false (Nat.not_lt.mpr hbytes), decide_eq_false (Nat.not_lt.mpr abytes)]
  rfl

/-- Within the byte limits a capture is complete just where the conversation may be captured; the
boundary then holds the texts as read and the requirements of its calls, and with any other status
there is none. -/
theorem capture_exact (loader : Loader) {h a : Text} {history : List Json} {assistant : Json}
    (hbytes : h.length ≤ maxBytes) (abytes : a.length ≤ maxBytes)
    (hload : loader.load h = some (.array history)) (aload : loader.load a = some assistant) :
    ((capture loader h a).1 = .complete ↔ ∃ groups, Capturable history assistant groups) ∧
      (∀ groups, Capturable history assistant groups → (capture loader h a).2 = some
        { history, assistant, requirements := requirementsOf (groups ++ [idsOf assistant]) }) ∧
      ((capture loader h a).1 ≠ .complete → (capture loader h a).2 = none) := by
  have hcapture : capture loader h a = captureTree (some (.array history)) (some assistant) := by
    rw [capture_eq loader hbytes abytes, hload, aload]
  have hstatus := captureTree_status (some (.array history)) (some assistant)
  have hsome : ∀ groups, Capturable history assistant groups →
      capture loader h a = (.complete, some
        { history, assistant, requirements := requirementsOf (groups ++ [idsOf assistant]) }) := by
    intro groups hcapturable
    rw [hcapture, captureTree_iff]
    exact ⟨groups, hcapturable, rfl⟩
  refine ⟨⟨fun hcomplete => ?_, ?_⟩, fun groups hcapturable => ?_, fun hother => ?_⟩
  · rw [hcapture] at hcomplete
    obtain ⟨b, hb⟩ := Option.isSome_iff_exists.mp (hstatus.mp hcomplete)
    obtain ⟨groups, hcapturable, -⟩ := captureTree_iff.mp (Prod.ext hcomplete hb)
    exact ⟨groups, hcapturable⟩
  · rintro ⟨groups, hcapturable⟩
    rw [hsome groups hcapturable]
  · rw [hsome groups hcapturable]
  · rw [hcapture] at hother ⊢
    exact Option.not_isSome_iff_eq_none.mp fun hb => hother (hstatus.mpr hb)

/-! ### A sample -/

def userText : Text := "[\x7b\"role\":\"user\",\"content\":\"run\"\x7d]"

def userMessage : Json := .object [("role", .string "user"), ("content", .string "run")]

def callText : Text :=
  "\x7b\"role\":\"assistant\",\"content\":null,\"tool_calls\":[\x7b\"id\":\"call A\",\"type\":\"function\"," ++
    text "\"function\":\x7b\"name\":\"run\",\"arguments\":\"\x7b\x7d\"\x7d\x7d]\x7d"

def callNamed (id : Text) : Json :=
  .object [("id", .string id), ("type", .string "function"),
    ("function", .object [("name", .string "run"), ("arguments", .string "\x7b\x7d")])]

def callMessage (id : Text) : Json :=
  .object [("role", .string "assistant"), ("content", .null), ("tool_calls", .array [callNamed id])]

/-- What the library reads from the texts of the sample. -/
def sampleLoader : Loader where
  load t :=
    if t = userText then some (.array [userMessage])
    else if t = callText then some (callMessage "call A")
    else if t = text "\x7b\x7d" ∨ t = text "\x7b \x7d" then some (.object [])
    else none
  proper t v h := by
    split at h
    next => exact Option.some.inj h ▸ by decide +kernel
    next =>
      split at h
      next => exact Option.some.inj h ▸ by decide +kernel
      next =>
        split at h
        next => exact Option.some.inj h ▸ by decide +kernel
        next => cases h

def resultFor (id : Text) : Json :=
  .object [("role", .string "tool"), ("tool_call_id", .string id), ("content", .string "done")]

def pairMessage (first second : Text) : Json :=
  .object [("role", .string "assistant"), ("content", .null),
    ("tool_calls", .array [callNamed first, callNamed second])]

def callNamedText (id : Text) : Text :=
  text "\x7b\"id\":\"" ++ id ++ text "\",\"type\":\"function\",\"function\":" ++
    text "\x7b\"name\":\"run\",\"arguments\":\"\x7b\x7d\"\x7d\x7d"

def pairText (first second : Text) : Text :=
  text "\x7b\"role\":\"assistant\",\"content\":null,\"tool_calls\":[" ++ callNamedText first ++
    text "," ++ callNamedText second ++ text "]\x7d"

def resultText (id : Text) : Text :=
  text "\x7b\"role\":\"tool\",\"tool_call_id\":\"" ++ id ++ text "\",\"content\":\"done\"\x7d"

/-- A question, two calls at once, and their results the other way round. -/
def workedText : Text :=
  text "[\x7b\"role\":\"user\",\"content\":\"run\"\x7d," ++ pairText "A" "B" ++ text "," ++
    resultText "B" ++ text "," ++ resultText "A" ++ text "]"

def workedHistory : List Json := [userMessage, pairMessage "A" "B", resultFor "B", resultFor "A"]

def workedLoader : Loader where
  load t :=
    if t = workedText then some (.array workedHistory)
    else if t = pairText "C" "D" then some (pairMessage "C" "D")
    else sampleLoader.load t
  proper t v h := by
    split at h
    next => exact Option.some.inj h ▸ by decide +kernel
    next =>
      split at h
      next => exact Option.some.inj h ▸ by decide +kernel
      next => exact sampleLoader.proper t v h

/-- Two more calls at once, after a block of calls that have their results. -/
theorem capture_exact_sample :
    (capture workedLoader workedText (pairText "C" "D")).1 = .complete ∧
      ((capture workedLoader workedText (pairText "C" "D")).2.map (·.requirements)) = some 7 := by
  have hload : workedLoader.load workedText = some (.array workedHistory) := by decide +kernel
  have aload : workedLoader.load (pairText "C" "D") = some (pairMessage "C" "D") := by
    decide +kernel
  obtain ⟨hcomplete, hboundary, -⟩ := capture_exact workedLoader (by decide +kernel)
    (by decide +kernel) hload aload
  have hresults : List.Forall₂ ResultOf [text "B", text "A"] [resultFor "B", resultFor "A"] :=
    .cons ⟨by decide +kernel, by decide +kernel⟩ (.cons ⟨by decide +kernel, by decide +kernel⟩ .nil)
  have hblock : Conversation workedHistory [idsOf (pairMessage "A" "B")] :=
    .plain (by decide +kernel) (.block (by decide +kernel) (.swap ..) hresults .nil)
  have hcapturable : Capturable workedHistory (pairMessage "C" "D") [idsOf (pairMessage "A" "B")] :=
    { conversation := hblock
      calls := by decide +kernel
      distinct := by decide +kernel
      messages := by decide +kernel
      ids := by decide +kernel }
  refine ⟨hcomplete.mpr ⟨_, hcapturable⟩, ?_⟩
  rw [hboundary _ hcapturable]
  decide +kernel

end Recursant.ToolBoundary
