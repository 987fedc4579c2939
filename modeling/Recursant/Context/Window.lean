import Mathlib.Data.List.DropRight
import Recursant.Context.Signals

/-!
# Rejected calls and the window

A rejected call was never executed.  The scan of a turn passes over it wherever it stands, and counts
it only while no executed result has been seen.
-/

namespace Recursant.Signals

variable (reader : Reader)

/-- The tool result of a call that was turned down. -/
def rejection (m : Json) : Bool := roleIs m "tool" && (contentOf m).any (rejectedCall reader)

/-- Any other tool result. -/
def executed (m : Json) : Bool := roleIs m "tool" && !(contentOf m).any (rejectedCall reader)

def failedResult (m : Json) : Bool := executed reader m && (contentOf m).any (failedText reader)

/-- The rejections after the newest executed result. -/
def trailing (messages : List Json) : Nat :=
  (messages.rtakeWhile (!executed reader ·)).countP (rejection reader)

/-- Assistant turns and rejections leave a run of failures unbroken. -/
def keeps (m : Json) : Bool := roleIs m "assistant" || rejection reader m || failedResult reader m

/-- The newest executed results are failures, two or more, with no user or system message and no
other result among them. -/
def FailureRun (messages : List Json) : Prop :=
  ∃ older newer, messages = older ++ newer ∧ (∀ m ∈ newer, keeps reader m = true) ∧
    2 ≤ newer.countP (executed reader)

/-- The executed results that the scan looks at. -/
def inWindow (messages : List Json) : List Json := (messages.filter (executed reader)).rtake window

/-- Pairs of an assistant call and its rejection are put anywhere between the messages. -/
inductive Inserted : List Json → List Json → Prop where
  | nil : Inserted [] []
  | keep (m : Json) {ms ns : List Json} (later : Inserted ms ns) : Inserted (m :: ms) (m :: ns)
  | pair {call result : Json} {ms ns : List Json} (assistant : roleIs call "assistant" = true)
      (refused : rejection reader result = true) (later : Inserted ms ns) :
      Inserted ms (call :: result :: ns)

/-- One body is another with pairs inserted, within the message limit, where a newest message that is
no tool result is still the newest. -/
structure Padded (body body' : Json) (ms ns : List Json) : Prop where
  messages : body.get? "messages" = some (.array ms)
  changed : body.set? "messages" (some (.array ns)) = some body'
  pairs : Inserted reader ms ns
  bounded : ns.length ≤ maxMessages
  newest : ∀ m, ms.getLast? = some m → roleIs m "tool" = false → ns.getLast? = some m

/-! ## One message -/

variable {reader}

theorem roleIs_inj {m : Json} {r r' : Text} (h : roleIs m r = true) (h' : roleIs m r' = true) :
    r = r' :=
  Option.some.inj ((of_decide_eq_true h).symm.trans (of_decide_eq_true h'))

theorem not_tool_of_assistant {m : Json} (h : roleIs m "assistant" = true) :
    roleIs m "tool" = false := by
  rw [Bool.eq_false_iff]
  intro htool
  have : text "assistant" = text "tool" := roleIs_inj h htool
  exact absurd this (by decide)

theorem isObject_of_roleIs {m : Json} {r : Text} (h : roleIs m r = true) : m.isObject = true := by
  cases m with
  | object members => rfl
  | _ => cases of_decide_eq_true h

theorem rejection_tool {m : Json} (h : rejection reader m = true) : roleIs m "tool" = true :=
  (Bool.and_eq_true_iff.mp h).1

theorem not_executed_of_rejection {m : Json} (h : rejection reader m = true) :
    executed reader m = false := by
  unfold rejection at h
  unfold executed
  rw [Bool.and_eq_true] at h
  rw [h.1, h.2]
  rfl

theorem not_executed_of_assistant {m : Json} (h : roleIs m "assistant" = true) :
    executed reader m = false ∧ rejection reader m = false := by
  unfold executed rejection
  rw [not_tool_of_assistant h]
  exact ⟨rfl, rfl⟩

/-- What a message is to the scan. -/
theorem message_cases (reader : Reader) (m : Json) :
    roleIs m "assistant" = true ∨ (roleIs m "assistant" = false ∧ roleIs m "tool" = false) ∨
      (roleIs m "tool" = true ∧ contentOf m = none) ∨
      rejection reader m = true ∨ ∃ t, contentOf m = some t ∧ executed reader m = true := by
  by_cases hassistant : roleIs m "assistant" = true
  · exact .inl hassistant
  by_cases htool : roleIs m "tool" = true
  · cases hcontent : contentOf m with
    | none => exact .inr (.inr (.inl ⟨htool, rfl⟩))
    | some t =>
        by_cases hrejected : rejectedCall reader t = true
        · right; right; right; left
          unfold rejection
          rw [htool, hcontent]
          exact hrejected
        · right; right; right; right
          refine ⟨t, rfl, ?_⟩
          unfold executed
          rw [htool, hcontent, Option.any_some, Bool.eq_false_iff.mpr hrejected]
          rfl
  · exact .inr (.inl ⟨Bool.eq_false_iff.mpr hassistant, Bool.eq_false_iff.mpr htool⟩)

/-! ## One round of the scan -/

theorem visit_full {m : Json} {s : Seen} (h : ¬ s.seen < window) : visit reader m s = some s := by
  unfold visit
  rw [if_neg h]

theorem visit_assistant {m : Json} (s : Seen) (h : roleIs m "assistant" = true) :
    visit reader m s = some s := by
  unfold visit
  rw [if_pos h, ite_self]

theorem visit_other {m : Json} {s : Seen} (hroom : s.seen < window)
    (hassistant : roleIs m "assistant" = false) (htool : roleIs m "tool" = false) :
    visit reader m s = some { s with running := false } := by
  unfold visit
  rw [if_pos hroom, hassistant, htool]
  rfl

theorem tool_not_assistant {m : Json} (htool : roleIs m "tool" = true) :
    roleIs m "assistant" = false := by
  rw [Bool.eq_false_iff]
  intro h
  rw [not_tool_of_assistant h] at htool
  cases htool

theorem visit_textless {m : Json} {s : Seen} (hroom : s.seen < window)
    (htool : roleIs m "tool" = true) (hcontent : contentOf m = none) : visit reader m s = none := by
  unfold visit
  rw [if_pos hroom, tool_not_assistant htool, htool, hcontent]
  rfl

theorem visit_rejection {m : Json} {s : Seen} (hroom : s.seen < window)
    (h : rejection reader m = true) :
    visit reader m s = some { s with rejected := if s.seen = 0 then s.rejected + 1 else s.rejected } := by
  have htool := rejection_tool h
  unfold rejection at h
  rw [htool, Bool.true_and] at h
  cases hcontent : contentOf m with
  | none =>
      rw [hcontent] at h
      cases h
  | some t =>
      rw [hcontent, Option.any_some] at h
      unfold visit
      rw [if_pos hroom, tool_not_assistant htool, htool, hcontent]
      simp only [Bool.not_true, Bool.false_eq_true, ite_false, h, ite_true]
      split <;> rfl

theorem visit_executed {m : Json} {s : Seen} {t : Text} (hroom : s.seen < window)
    (hcontent : contentOf m = some t) (h : executed reader m = true) :
    visit reader m s = some { s with
      seen := s.seen + 1
      failedAny := s.failedAny || failedResult reader m
      run := if s.running && failedResult reader m then s.run + 1 else s.run
      running := s.running && failedResult reader m } := by
  have hexecuted := h
  unfold executed at h
  rw [Bool.and_eq_true, hcontent, Option.any_some, Bool.not_eq_true'] at h
  obtain ⟨htool, hrejected⟩ := h
  have hfailed : failedResult reader m = failedText reader t := by
    unfold failedResult
    rw [hexecuted, hcontent, Option.any_some, Bool.true_and]
  rw [hfailed]
  unfold visit
  rw [if_pos hroom, tool_not_assistant htool, htool, hcontent]
  simp only [Bool.not_true, Bool.false_eq_true, ite_false, hrejected]
  cases failedText reader t with
  | true => simp
  | false => simp

/-! ## Suffixes -/

theorem rtakeWhile_cons (p : Json → Bool) (m : Json) (ms : List Json) :
    (m :: ms).rtakeWhile p =
      if ms.all p then (if p m then m :: ms else ms) else ms.rtakeWhile p := by
  unfold List.rtakeWhile
  rw [List.reverse_cons, List.takeWhile_append]
  by_cases hall : ms.all p = true
  · have hself : ms.reverse.takeWhile p = ms.reverse :=
      List.takeWhile_eq_self_iff.mpr fun x hx => List.all_eq_true.mp hall x (List.mem_reverse.mp hx)
    rw [if_pos hall, if_pos (by rw [hself]), List.takeWhile_cons]
    split <;> simp
  · rw [if_neg hall, if_neg]
    intro hlength
    apply hall
    rw [List.all_eq_true]
    intro x hx
    have hself : ms.reverse.takeWhile p = ms.reverse :=
      (List.takeWhile_prefix p).eq_of_length hlength
    exact List.takeWhile_eq_self_iff.mp hself x (List.mem_reverse.mpr hx)

theorem rtake_cons (n : Nat) (m : Json) (ms : List Json) :
    (m :: ms).rtake n = if n ≤ ms.length then ms.rtake n else m :: ms := by
  unfold List.rtake
  split
  next h => rw [List.length_cons, Nat.succ_sub h, List.drop_succ_cons]
  next h => rw [List.length_cons, Nat.sub_eq_zero_of_le (by omega), List.drop_zero]

theorem trailing_cons (m : Json) (ms : List Json) : trailing reader (m :: ms) =
    if ms.any (executed reader) then trailing reader ms
    else trailing reader ms + if rejection reader m then 1 else 0 := by
  have hall : (ms.all fun m => !executed reader m) = !ms.any (executed reader) := by
    rw [List.not_any_eq_all_not]
  unfold trailing
  rw [rtakeWhile_cons, hall]
  by_cases hany : ms.any (executed reader) = true
  · rw [hany]
    rfl
  · have hself : ms.rtakeWhile (!executed reader ·) = ms := by
      rw [List.rtakeWhile_eq_self_iff]
      intro x hx
      rw [Bool.eq_false_iff.mpr hany, Bool.not_false] at hall
      exact List.all_eq_true.mp hall x hx
    rw [Bool.eq_false_iff.mpr hany, Bool.not_false, if_pos rfl, hself]
    by_cases hexecuted : executed reader m = true
    · have hnot : rejection reader m = false := by
        rw [Bool.eq_false_iff]
        intro h
        rw [not_executed_of_rejection h] at hexecuted
        cases hexecuted
      simp [hexecuted, hnot]
    · rw [if_pos (by simp [hexecuted]), List.countP_cons]
      simp

/-! ## Runs of the scan -/

theorem visited_nil : visited reader [] = some {} := rfl

theorem visited_cons (m : Json) (ms : List Json) :
    visited reader (m :: ms) = (visited reader ms).bind (visit reader m) := rfl

/-- The rejections are counted until an executed result is seen. -/
theorem visited_rejected {ms : List Json} {s : Seen} (h : visited reader ms = some s) :
    (s.seen = 0 ↔ ms.any (executed reader) = false) ∧ s.rejected = trailing reader ms := by
  induction ms generalizing s with
  | nil =>
      rw [visited_nil] at h
      obtain rfl := Option.some.inj h
      exact ⟨iff_of_true rfl rfl, rfl⟩
  | cons m ms ih =>
      rw [visited_cons] at h
      obtain ⟨before, hbefore, hvisit⟩ := Option.bind_eq_some_iff.mp h
      obtain ⟨hseen, hrejected⟩ := ih hbefore
      rw [List.any_cons, trailing_cons]
      by_cases hroom : before.seen < window
      · rcases message_cases reader m with hm | ⟨hm, hm'⟩ | ⟨hm, hm'⟩ | hm | ⟨t, hm, hm'⟩
        · rw [visit_assistant before hm] at hvisit
          obtain rfl := Option.some.inj hvisit
          rw [(not_executed_of_assistant hm).1, (not_executed_of_assistant hm).2]
          simp [hseen, hrejected]
        · rw [visit_other hroom hm hm'] at hvisit
          obtain rfl := Option.some.inj hvisit
          simp [executed, rejection, hm', hseen, hrejected]
        · rw [visit_textless hroom hm hm'] at hvisit
          cases hvisit
        · rw [visit_rejection hroom hm] at hvisit
          obtain rfl := Option.some.inj hvisit
          rw [not_executed_of_rejection hm, hm]
          refine ⟨by simpa using hseen, ?_⟩
          by_cases hany : ms.any (executed reader) = true
          · have hne : ¬ before.seen = 0 := fun h0 => by
              rw [hseen.mp h0] at hany
              cases hany
            simp [hany, hne, hrejected]
          · simp [Bool.eq_false_iff.mpr hany, hseen.mpr (Bool.eq_false_iff.mpr hany), hrejected]
        · rw [visit_executed hroom hm hm'] at hvisit
          obtain rfl := Option.some.inj hvisit
          have hnot : rejection reader m = false := by
            rw [Bool.eq_false_iff]
            intro hrej
            rw [not_executed_of_rejection hrej] at hm'
            cases hm'
          simp [hm', hnot, hrejected]
      · rw [visit_full hroom] at hvisit
        obtain rfl := Option.some.inj hvisit
        have hne : ¬ before.seen = 0 := fun h0 => hroom (h0 ▸ by decide)
        have hany : ms.any (executed reader) = true := by
          by_contra hnone
          exact hne (hseen.mpr (Bool.eq_false_iff.mpr hnone))
        simp [hany, hne, hrejected]

/-- The counters without the rejections. -/
def Seen.clear (s : Seen) : Seen := { s with rejected := 0 }

theorem visit_clear (m : Json) (s : Seen) :
    (visit reader m s).map Seen.clear = (visit reader m s.clear).map Seen.clear := by
  by_cases hroom : s.seen < window
  · have hroom' : s.clear.seen < window := hroom
    rcases message_cases reader m with hm | ⟨hm, hm'⟩ | ⟨hm, hm'⟩ | hm | ⟨t, hm, hm'⟩
    · rw [visit_assistant s hm, visit_assistant s.clear hm]
      rfl
    · rw [visit_other hroom hm hm', visit_other hroom' hm hm']
      rfl
    · rw [visit_textless hroom hm hm', visit_textless hroom' hm hm']
    · rw [visit_rejection hroom hm, visit_rejection hroom' hm]
      rfl
    · rw [visit_executed hroom hm hm', visit_executed hroom' hm hm']
      rfl
  · have hfull' : ¬ s.clear.seen < window := hroom
    rw [visit_full hroom, visit_full hfull']
    rfl

theorem visit_rejection_clear {m : Json} (s : Seen) (h : rejection reader m = true) :
    (visit reader m s).map Seen.clear = some s.clear := by
  by_cases hroom : s.seen < window
  · rw [visit_rejection hroom h]
    rfl
  · rw [visit_full hroom]
    rfl

/-- The scan sees the same executed results with and without the pairs. -/
theorem visited_inserted {ms ns : List Json} (h : Inserted reader ms ns) :
    (visited reader ns).map Seen.clear = (visited reader ms).map Seen.clear := by
  induction h with
  | nil => rfl
  | @keep m ms ns later ih =>
      rw [visited_cons, visited_cons]
      cases hns : visited reader ns with
      | none =>
          cases hms : visited reader ms with
          | none => rfl
          | some s =>
              rw [hns, hms] at ih
              cases ih
      | some s =>
          cases hms : visited reader ms with
          | none =>
              rw [hns, hms] at ih
              cases ih
          | some s' =>
              rw [hns, hms, Option.map_some, Option.map_some] at ih
              show (visit reader m s).map Seen.clear = (visit reader m s').map Seen.clear
              rw [visit_clear, Option.some.inj ih, ← visit_clear]
  | @pair call result ms ns assistant refused later ih =>
      rw [visited_cons, visited_cons, ← ih]
      cases visited reader ns with
      | none => rfl
      | some s =>
          have hclear := visit_rejection_clear s refused
          show ((visit reader result s).bind (visit reader call)).map Seen.clear = some s.clear
          cases hvisit : visit reader result s with
          | none =>
              rw [hvisit] at hclear
              cases hclear
          | some s' =>
              rw [hvisit] at hclear
              show (visit reader call s').map Seen.clear = some s.clear
              rw [visit_assistant s' assistant]
              exact hclear

namespace Inserted

variable {ms ns : List Json}

theorem any_executed (h : Inserted reader ms ns) :
    ns.any (executed reader) = ms.any (executed reader) := by
  induction h with
  | nil => rfl
  | keep m later ih => rw [List.any_cons, List.any_cons, ih]
  | pair assistant refused later ih =>
      rw [List.any_cons, List.any_cons, (not_executed_of_assistant assistant).1,
        not_executed_of_rejection refused, ih]
      rfl

theorem trailing_le (h : Inserted reader ms ns) : trailing reader ms ≤ trailing reader ns := by
  induction h with
  | nil => exact le_rfl
  | @keep m ms ns later ih =>
      rw [trailing_cons, trailing_cons, later.any_executed]
      split
      next => exact ih
      next => omega
  | @pair call result ms ns assistant refused later ih =>
      have hstep : ∀ m : Json, ∀ l : List Json, trailing reader l ≤ trailing reader (m :: l) := by
        intro m l
        rw [trailing_cons]
        split <;> omega
      exact le_trans ih (le_trans (hstep result ns) (hstep call (result :: ns)))

theorem length_le (h : Inserted reader ms ns) : ms.length ≤ ns.length := by
  induction h with
  | nil => exact le_rfl
  | keep m later ih =>
      rw [List.length_cons, List.length_cons]
      omega
  | pair assistant refused later ih =>
      rw [List.length_cons, List.length_cons]
      omega

theorem all_known (h : Inserted reader ms ns) :
    ns.all (fun m => m.isObject && knownRole m) = ms.all (fun m => m.isObject && knownRole m) := by
  induction h with
  | nil => rfl
  | keep m later ih => rw [List.all_cons, List.all_cons, ih]
  | pair assistant refused later ih =>
      have htool := rejection_tool refused
      rw [List.all_cons, List.all_cons, ih, isObject_of_roleIs assistant, isObject_of_roleIs htool]
      unfold knownRole
      rw [assistant, htool]
      simp

/-- The last message is the old one, or the result of a pair. -/
theorem newest_cases (h : Inserted reader ms ns) :
    ns.getLast? = ms.getLast? ∨ ns.getLast?.any (roleIs · "tool") = true := by
  induction h with
  | nil => exact .inl rfl
  | @keep m ms ns later ih =>
      by_cases hns : ns = []
      · have hshort := later.length_le
        rw [hns] at hshort ⊢
        rw [List.length_eq_zero_iff.mp (Nat.le_zero.mp hshort)]
        exact .inl rfl
      · rw [List.getLast?_cons_of_ne_nil hns]
        by_cases hms : ms = []
        · right
          refine ih.resolve_left fun hlast => ?_
          rw [hms] at hlast
          exact hns (List.getLast?_eq_none_iff.mp hlast)
        · rw [List.getLast?_cons_of_ne_nil hms]
          exact ih
  | @pair call result ms ns assistant refused later ih =>
      rw [List.getLast?_cons_cons]
      by_cases hns : ns = []
      · right
        rw [hns]
        exact rejection_tool refused
      · rw [List.getLast?_cons_of_ne_nil hns]
        exact ih

end Inserted

/-! ## The class -/

theorem shaped_eq_some {body : Json} {scope : Scope} {ms : List Json}
    (h : shaped body scope = some ms) : body.get? "messages" = some (.array ms) ∧
      ms.getLast?.any (roleIs · "tool") = true := by
  unfold shaped at h
  split at h
  next messages hmessages =>
    split at h
    next hcond =>
      obtain rfl := Option.some.inj h
      rw [Bool.and_eq_true] at hcond
      exact ⟨hmessages, hcond.2⟩
    next => cases h
  next => cases h

/-- Pairs leave the shape of a body as it is, where the newest message is a tool result before and
after. -/
theorem Padded.shaped_eq {body body' : Json} {ms ns : List Json} (h : Padded reader body body' ms ns)
    (scope : Scope) (hms : ms ≠ []) :
    shaped body' scope = (shaped body scope).map fun _ => ns := by
  have hget := fun key => Json.get?_set? h.changed key
  have hmessages : body'.get? "messages" = some (.array ns) := by rw [hget, if_pos rfl]
  have htools : body'.get? "tools" = body.get? "tools" := by rw [hget, if_neg (by decide)]
  have hchoice : body'.get? "tool_choice" = body.get? "tool_choice" := by
    rw [hget, if_neg (by decide)]
  have hlength : ms.length ≤ maxMessages := le_trans h.pairs.length_le h.bounded
  have hns : ns ≠ [] := by
    intro hnil
    have := h.pairs.length_le
    rw [hnil] at this
    exact hms (List.length_eq_zero_iff.mp (Nat.le_zero.mp this))
  have hnewest : ns.getLast?.any (roleIs · "tool") = ms.getLast?.any (roleIs · "tool") := by
    cases hlast : ms.getLast? with
    | none => exact absurd (List.getLast?_eq_none_iff.mp hlast) hms
    | some m =>
        by_cases htool : roleIs m "tool" = true
        · rw [Option.any_some, htool]
          rcases h.pairs.newest_cases with heq | htool'
          · rw [heq, hlast]
            exact htool
          · exact htool'
        · rw [h.newest m hlast (Bool.eq_false_iff.mpr htool)]
  unfold shaped
  rw [hmessages, h.messages, htools, hchoice]
  dsimp only
  rw [h.pairs.all_known, hnewest, decide_eq_true hlength, decide_eq_true h.bounded,
    decide_eq_true hms, decide_eq_true hns, apply_ite (Option.map _)]
  rfl

/-- Both opt-in rules are off. -/
def plainScope (turns : Nat) : Scope := { completedTurns := turns }

theorem classOf_plain (body : Json) (turns : Nat) (ms : List Json) (s : Seen) :
    classOf reader body (plainScope turns) ms s =
      if s.seen = 0 ∨ maxRejections < s.rejected then 0
      else if 2 ≤ s.run then recovery
      else if s.failedAny then 0
      else if offered body then toolFollowupOk
      else finalAnswer := by
  unfold classOf plainScope
  simp

theorem classify_eq {body : Json} {scope : Scope} {ms : List Json} (h : shaped body scope = some ms) :
    classify reader body scope = ((visited reader ms).map (classOf reader body scope ms)).getD 0 := by
  unfold classify classified
  rw [h]
  cases hv : visited reader ms with
  | none => simp [hv]
  | some s => simp [hv]

theorem classify_unshaped {body : Json} {scope : Scope} (h : shaped body scope = none) :
    classify reader body scope = 0 := by
  unfold classify classified
  rw [h]

/-- More rejections after the newest executed result than a repair takes: no class. -/
theorem classify_looping {body : Json} {turns : Nat} {ms : List Json}
    (hms : body.get? "messages" = some (.array ms)) (hloop : maxRejections < trailing reader ms) :
    classify reader body (plainScope turns) = 0 := by
  cases hshaped : shaped body (plainScope turns) with
  | none => exact classify_unshaped hshaped
  | some ms' =>
      have hsame := hms.symm.trans (shaped_eq_some hshaped).1
      obtain rfl := Json.array.inj (Option.some.inj hsame)
      rw [classify_eq hshaped]
      cases hvisited : visited reader ms with
      | none => rfl
      | some s =>
          rw [Option.map_some, Option.getD_some, classOf_plain,
            if_pos (.inr ((visited_rejected hvisited).2 ▸ hloop))]

/-- The class of a body is its class with the pairs, when few enough rejections are trailing. -/
theorem Padded.classify_eq {body body' : Json} {ms ns : List Json}
    (h : Padded reader body body' ms ns) (turns : Nat)
    (hfew : trailing reader ns ≤ maxRejections) :
    classify reader body' (plainScope turns) = classify reader body (plainScope turns) := by
  have hget := fun key => Json.get?_set? h.changed key
  have hvisited := visited_inserted h.pairs
  by_cases hms : ms = []
  · have hbody : shaped body (plainScope turns) = none := by
      cases hshaped : shaped body (plainScope turns) with
      | none => rfl
      | some ms' =>
          have hsome := shaped_eq_some hshaped
          have hsame := h.messages.symm.trans hsome.1
          obtain rfl := Json.array.inj (Option.some.inj hsame)
          rw [hms] at hsome
          cases hsome.2
    rw [classify_unshaped hbody]
    cases hshaped : shaped body' (plainScope turns) with
    | none => exact classify_unshaped hshaped
    | some ns' =>
        have hmessages : body'.get? "messages" = some (.array ns) := by rw [hget, if_pos rfl]
        have hsame := hmessages.symm.trans (shaped_eq_some hshaped).1
        obtain rfl := Json.array.inj (Option.some.inj hsame)
        rw [Signals.classify_eq hshaped]
        cases hns : visited reader ns with
        | none => rfl
        | some s =>
            rw [hns, hms, visited_nil] at hvisited
            have hzero : s.seen = 0 := congrArg Seen.seen (Option.some.inj hvisited)
            rw [Option.map_some, Option.getD_some, classOf_plain, if_pos (.inl hzero)]
  · have hshape := h.shaped_eq (plainScope turns) hms
    cases hshaped : shaped body (plainScope turns) with
    | none =>
        rw [hshaped] at hshape
        rw [classify_unshaped hshaped, classify_unshaped hshape]
    | some ms' =>
        have hsame := h.messages.symm.trans (shaped_eq_some hshaped).1
        obtain rfl := Json.array.inj (Option.some.inj hsame)
        rw [hshaped] at hshape
        rw [Signals.classify_eq hshaped, Signals.classify_eq hshape]
        have hoffered : offered body' = offered body := by
          unfold offered
          rw [hget, if_neg (by decide), hget, if_neg (by decide)]
        cases hns : visited reader ns with
        | none =>
            cases hvms : visited reader ms with
            | none => rfl
            | some s =>
                rw [hns, hvms] at hvisited
                cases hvisited
        | some s =>
            cases hvms : visited reader ms with
            | none =>
                rw [hns, hvms] at hvisited
                cases hvisited
            | some s' =>
                rw [hns, hvms] at hvisited
                have hclear : s.clear = s'.clear := Option.some.inj hvisited
                obtain ⟨hseen, hrun, -, -, hfailed⟩ := Seen.mk.inj hclear
                have hr : s.rejected ≤ maxRejections := (visited_rejected hns).2 ▸ hfew
                have hr' : s'.rejected ≤ maxRejections :=
                  (visited_rejected hvms).2 ▸ le_trans h.pairs.trailing_le hfew
                simp only [Option.map_some, Option.getD_some, classOf_plain, hoffered, hseen, hrun,
                  hfailed, Nat.not_lt.mpr hr, Nat.not_lt.mpr hr']

/-! ## What the window tells -/

/-- The messages from the newest back that leave a run of failures unbroken. -/
def streak (reader : Reader) (ms : List Json) : Nat :=
  (ms.rtakeWhile (keeps reader)).countP (executed reader)

theorem streak_cons (m : Json) (ms : List Json) : streak reader (m :: ms) =
    streak reader ms + if ms.all (keeps reader) && (keeps reader m && executed reader m) then 1 else 0 := by
  unfold streak
  rw [rtakeWhile_cons]
  by_cases hall : ms.all (keeps reader) = true
  · have hself : ms.rtakeWhile (keeps reader) = ms :=
      List.rtakeWhile_eq_self_iff.mpr (List.all_eq_true.mp hall)
    rw [if_pos hall, hself, hall, Bool.true_and]
    by_cases hm : keeps reader m = true
    · rw [if_pos hm, hm, Bool.true_and, List.countP_cons]
    · rw [if_neg hm, Bool.eq_false_iff.mpr hm]
      rfl
  · rw [if_neg hall, Bool.eq_false_iff.mpr hall]
    rfl

theorem failureRun_iff (ms : List Json) : FailureRun reader ms ↔ 2 ≤ streak reader ms := by
  constructor
  · rintro ⟨older, newer, rfl, hkeeps, hcount⟩
    have hsplit : (older ++ newer).rtakeWhile (keeps reader) =
        older.rtakeWhile (keeps reader) ++ newer := by
      unfold List.rtakeWhile
      rw [List.reverse_append, List.takeWhile_append_of_pos fun m hm =>
        hkeeps m (List.mem_reverse.mp hm), List.reverse_append, List.reverse_reverse]
    unfold streak
    rw [hsplit, List.countP_append]
    omega
  · intro h
    refine ⟨ms.rdropWhile (keeps reader), ms.rtakeWhile (keeps reader),
      List.rdropWhile_append_rtakeWhile.symm, fun m hm => ?_, h⟩
    exact List.mem_rtakeWhile_imp hm

/-- What the counters say about the messages passed. -/
structure Tallied (reader : Reader) (ms : List Json) (s : Seen) : Prop where
  seen : s.seen = min window (ms.countP (executed reader))
  failedAny : s.failedAny = (inWindow reader ms).any (failedResult reader)
  running : s.seen < window → s.running = ms.all (keeps reader)
  run : s.run = min window (streak reader ms)

theorem inWindow_skip {m : Json} (hm : executed reader m = false) (ms : List Json) :
    inWindow reader (m :: ms) = inWindow reader ms := by
  unfold inWindow
  rw [List.filter_cons_of_neg (by simp [hm])]

/-- A message that the counters do not count. -/
theorem Tallied.skip {ms : List Json} {s : Seen} {m : Json} (h : Tallied reader ms s)
    (hm : executed reader m = false) (running : Bool) (rejected : Nat)
    (hrunning : running = (keeps reader m && s.running)) :
    Tallied reader (m :: ms) { s with running := running, rejected := rejected } where
  seen := by
    rw [List.countP_cons_of_neg (by simp [hm])]
    exact h.seen
  failedAny := by
    rw [inWindow_skip hm]
    exact h.failedAny
  running := fun hroom => by rw [List.all_cons, hrunning, h.running hroom]
  run := by
    rw [streak_cons, hm, Bool.and_false, Bool.and_false]
    exact h.run

theorem keeps_of_executed {m : Json} (h : executed reader m = true) :
    keeps reader m = failedResult reader m := by
  have htool : roleIs m "tool" = true := (Bool.and_eq_true_iff.mp h).1
  have hnot : rejection reader m = false := by
    rw [Bool.eq_false_iff]
    intro hrej
    rw [not_executed_of_rejection hrej] at h
    cases h
  unfold keeps
  rw [tool_not_assistant htool, hnot]
  rfl

theorem visited_tallied {ms : List Json} {s : Seen} (h : visited reader ms = some s) :
    Tallied reader ms s := by
  induction ms generalizing s with
  | nil =>
      obtain rfl := Option.some.inj h
      exact ⟨rfl, rfl, fun _ => rfl, rfl⟩
  | cons m ms ih =>
      rw [visited_cons] at h
      obtain ⟨before, hbefore, hvisit⟩ := Option.bind_eq_some_iff.mp h
      have hold := ih hbefore
      by_cases hroom : before.seen < window
      · rcases message_cases reader m with hm | ⟨hm, hm'⟩ | ⟨hm, hm'⟩ | hm | ⟨t, hm, hm'⟩
        · rw [visit_assistant before hm] at hvisit
          obtain rfl := Option.some.inj hvisit
          exact hold.skip (not_executed_of_assistant hm).1 _ _ (by rw [keeps, hm]; rfl)
        · rw [visit_other hroom hm hm'] at hvisit
          obtain rfl := Option.some.inj hvisit
          exact hold.skip (by rw [executed, hm']; rfl) _ _
            (by rw [keeps, rejection, failedResult, executed, hm, hm']; rfl)
        · rw [visit_textless hroom hm hm'] at hvisit
          cases hvisit
        · rw [visit_rejection hroom hm] at hvisit
          obtain rfl := Option.some.inj hvisit
          exact hold.skip (not_executed_of_rejection hm) _ _
            (by rw [keeps, hm, Bool.or_true]; rfl)
        · rw [visit_executed hroom hm hm'] at hvisit
          obtain rfl := Option.some.inj hvisit
          have hseen := hold.seen
          have hcount : ms.countP (executed reader) = before.seen := by omega
          have hlength : (ms.filter (executed reader)).length = before.seen := by
            rw [← List.countP_eq_length_filter, hcount]
          constructor
          · show before.seen + 1 = _
            rw [List.countP_cons_of_pos hm', hcount]
            omega
          · show (before.failedAny || failedResult reader m) = _
            have hfew : ¬ window ≤ (ms.filter (executed reader)).length := by omega
            have hall : (ms.filter (executed reader)).rtake window = ms.filter (executed reader) := by
              unfold List.rtake
              rw [Nat.sub_eq_zero_of_le (by omega), List.drop_zero]
            have hwindow := hold.failedAny
            unfold inWindow at hwindow ⊢
            rw [List.filter_cons_of_pos hm', rtake_cons, if_neg hfew, List.any_cons, hwindow, hall,
              Bool.or_comm]
          · intro _
            show (before.running && failedResult reader m) = _
            rw [List.all_cons, keeps_of_executed hm', hold.running hroom, Bool.and_comm]
          · show (if (before.running && failedResult reader m) = true then _ else _) = _
            have hrun := hold.run
            have hstreak : streak reader ms ≤ ms.countP (executed reader) :=
              List.Sublist.countP_le (List.rtakeWhile_suffix _ _).sublist
            rw [streak_cons, keeps_of_executed hm', hm', Bool.and_true, ← hold.running hroom]
            split <;> omega
      · rw [visit_full hroom] at hvisit
        obtain rfl := Option.some.inj hvisit
        have hseen := hold.seen
        have hcount : window ≤ ms.countP (executed reader) := by omega
        constructor
        · rw [List.countP_cons]
          omega
        · rw [hold.failedAny]
          unfold inWindow
          by_cases hm : executed reader m = true
          · rw [List.filter_cons_of_pos hm, rtake_cons,
              if_pos (by rw [← List.countP_eq_length_filter]; exact hcount)]
          · rw [List.filter_cons_of_neg hm]
        · exact fun hroom' => absurd hroom' hroom
        · rw [hold.run, streak_cons]
          split
          next hcond =>
            have hall : ms.all (keeps reader) = true := (Bool.and_eq_true_iff.mp hcond).1
            have hself : streak reader ms = ms.countP (executed reader) := by
              unfold streak
              rw [List.rtakeWhile_eq_self_iff.mpr (List.all_eq_true.mp hall)]
            omega
          next => rfl

theorem visited_of_texts (reader : Reader) {ms : List Json}
    (h : ∀ m ∈ ms, roleIs m "tool" = true → (contentOf m).isSome = true) :
    ∃ s, visited reader ms = some s := by
  induction ms with
  | nil => exact ⟨_, rfl⟩
  | cons m ms ih =>
      obtain ⟨s, hs⟩ := ih fun m' hm' => h m' (List.mem_cons_of_mem m hm')
      rw [visited_cons, hs, Option.bind_some]
      by_cases hroom : s.seen < window
      · rcases message_cases reader m with hm | ⟨hm, hm'⟩ | ⟨hm, hm'⟩ | hm | ⟨t, hm, hm'⟩
        · exact ⟨_, visit_assistant s hm⟩
        · exact ⟨_, visit_other hroom hm hm'⟩
        · have := h m List.mem_cons_self hm
          rw [hm'] at this
          cases this
        · exact ⟨_, visit_rejection hroom hm⟩
        · exact ⟨_, visit_executed hroom hm hm'⟩
      · exact ⟨s, visit_full hroom⟩

/-- With few rejections trailing, recovery is a run of failures, and a cheaper class has a clean
window. -/
theorem classify_window {body : Json} {turns : Nat} {ms : List Json}
    (hshaped : shaped body (plainScope turns) = some ms)
    (htexts : ∀ m ∈ ms, roleIs m "tool" = true → (contentOf m).isSome = true)
    (hfew : trailing reader ms ≤ maxRejections) :
    (classify reader body (plainScope turns) = recovery ↔ FailureRun reader ms) ∧
      (classify reader body (plainScope turns) ∈ [toolFollowupOk, finalAnswer] →
        ∀ m ∈ inWindow reader ms, failedResult reader m = false) := by
  obtain ⟨s, hs⟩ := visited_of_texts reader htexts
  have htally := visited_tallied hs
  have hrun : 2 ≤ s.run ↔ FailureRun reader ms := by
    rw [failureRun_iff, htally.run, le_min_iff]
    exact and_iff_right (by decide)
  have hnever : (s.seen = 0 ∨ maxRejections < s.rejected) → ¬ 2 ≤ s.run := by
    intro hcut hlong
    have hr := (visited_rejected hs).2
    have hstreak : streak reader ms ≤ ms.countP (executed reader) :=
      List.Sublist.countP_le (List.rtakeWhile_suffix _ _).sublist
    have := htally.seen
    have := htally.run
    omega
  rw [classify_eq hshaped, hs, Option.map_some, Option.getD_some, classOf_plain, ← hrun]
  by_cases hcut : s.seen = 0 ∨ maxRejections < s.rejected
  · rw [if_pos hcut]
    exact ⟨iff_of_false (by decide) (hnever hcut), fun h => absurd h (by decide)⟩
  · rw [if_neg hcut]
    by_cases hlong : 2 ≤ s.run
    · rw [if_pos hlong]
      exact ⟨iff_of_true rfl hlong, fun h => absurd h (by decide)⟩
    · rw [if_neg hlong]
      cases hfailed : s.failedAny with
      | true =>
          rw [if_pos rfl]
          exact ⟨iff_of_false (by decide) hlong, fun h => absurd h (by decide)⟩
      | false =>
          have hclean : ∀ m ∈ inWindow reader ms, failedResult reader m = false := by
            intro m hm
            have hany := htally.failedAny.symm.trans hfailed
            exact Bool.eq_false_iff.mpr (List.any_eq_false.mp hany m hm)
          refine ⟨iff_of_false ?_ hlong, fun _ => hclean⟩
          rw [if_neg Bool.false_ne_true]
          split <;> decide

/-- Pairs of a call and its rejection leave the class as it is, a longer loop of rejections has no
class, and the class of a body tells whether the window holds a run of failures or none. -/
theorem rejections_transparent (reader : Reader) (turns : Nat) :
    (∀ body body' ms ns, Padded reader body body' ms ns →
      (trailing reader ns ≤ maxRejections →
        classify reader body' (plainScope turns) = classify reader body (plainScope turns)) ∧
      (maxRejections < trailing reader ns → classify reader body' (plainScope turns) = 0)) ∧
    (∀ body ms, shaped body (plainScope turns) = some ms →
      (∀ m ∈ ms, roleIs m "tool" = true → (contentOf m).isSome = true) →
      trailing reader ms ≤ maxRejections →
      (classify reader body (plainScope turns) = recovery ↔ FailureRun reader ms) ∧
      (classify reader body (plainScope turns) ∈ [toolFollowupOk, finalAnswer] →
        ∀ m ∈ inWindow reader ms, failedResult reader m = false)) := by
  constructor
  · intro body body' ms ns h
    refine ⟨h.classify_eq turns, classify_looping ?_⟩
    rw [Json.get?_set? h.changed, if_pos rfl]
  · exact fun body ms => classify_window

/-! ### A sample -/

def message (role content : Text) : Json :=
  .object [("role", .string role), ("content", .string content)]

def refusal : Text := "\x7b\"error\":\"unknown argument\"\x7d"

/-- What the library reads from that refusal; the other texts of the sample are no objects. -/
def sampleReader : Reader where
  load t :=
    if t = refusal then some (.object [(text "error", .string (text "unknown argument"))], 28) else none
  canonical _ := none

def withMessages (ms : List Json) : Json :=
  .object [("messages", .array ms), ("tools", .array [.object []])]

def answered : List Json :=
  [message "user" "go", message "assistant" "", message "tool" "3 passed"]

/-- A refused call and its answer. -/
def refused : List Json := [message "assistant" "", message "tool" refusal]

theorem inserted_append {ms : List Json} {call result : Json}
    (assistant : roleIs call "assistant" = true) (refused : rejection reader result = true) :
    Inserted reader ms (ms ++ [call, result]) := by
  induction ms with
  | nil => exact .pair assistant refused .nil
  | cons m ms ih => exact .keep m ih

theorem sample_padded (ms : List Json) (hbound : (ms ++ refused).length ≤ maxMessages)
    (hlast : ms.getLast?.all (roleIs · "tool") = true) :
    Padded sampleReader (withMessages ms) (withMessages (ms ++ refused)) ms (ms ++ refused) where
  messages := rfl
  changed := rfl
  pairs := inserted_append (by decide +kernel) (by decide +kernel)
  bounded := hbound
  newest := fun m hm htool => by
    rw [hm, Option.all_some, htool] at hlast
    cases hlast

/-- One refused call keeps the class of the step before it and its clean window, and three have no
class. -/
theorem rejections_transparent_sample :
    classify sampleReader (withMessages (answered ++ refused)) (plainScope 1) = toolFollowupOk ∧
      classify sampleReader (withMessages (answered ++ refused ++ refused ++ refused))
        (plainScope 1) = 0 ∧
      ∀ m ∈ inWindow sampleReader (answered ++ refused), failedResult sampleReader m = false := by
  obtain ⟨hpairs, hwindow⟩ := rejections_transparent sampleReader 1
  have hone := (hpairs _ _ _ _ (sample_padded answered (by decide) (by decide +kernel))).1
    (by decide +kernel)
  have hthree := (hpairs _ _ _ _ (sample_padded (answered ++ refused ++ refused) (by decide)
    (by decide +kernel))).2 (by decide +kernel)
  have hclass : classify sampleReader (withMessages (answered ++ refused)) (plainScope 1) =
      toolFollowupOk := by
    rw [hone]
    decide +kernel
  refine ⟨hclass, hthree, (hwindow (withMessages (answered ++ refused)) _ (by decide +kernel)
    (by decide +kernel) (by decide +kernel)).2 ?_⟩
  rw [hclass]
  exact List.mem_cons_self

def asked : List Json := answered ++ [message "user" "and now?"]

/-- After a new question the newest message is no tool result, and the turn has no class; a refused
call after the question gives it the class of the older result. -/
theorem question_reclassified :
    Inserted sampleReader asked (asked ++ refused) ∧ (asked ++ refused).length ≤ maxMessages ∧
      trailing sampleReader (asked ++ refused) ≤ maxRejections ∧
      classify sampleReader (withMessages asked) (plainScope 1) = 0 ∧
      classify sampleReader (withMessages (asked ++ refused)) (plainScope 1) = toolFollowupOk :=
  ⟨inserted_append (by decide +kernel) (by decide +kernel), by decide, by decide +kernel,
    by decide +kernel, by decide +kernel⟩

end Recursant.Signals
