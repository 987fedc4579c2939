import Mathlib.Data.Set.List
import Recursant.Interpreter.Slots

/-!
# What the gateway sees of the interpreter

The gateway keeps of a result what placement reads, and of a slot its job or its result.  As long as
nobody cancels, which the gateway never does, the slots seen so are the gateway's worker.
-/

namespace Recursant.Interpreter

open Gateway (InterpreterInput InterpreterResult choiceContent)

/-- What placement reads of a result. -/
def Result.seen (r : Result) : InterpreterResult :=
  ⟨r.key.taskGeneration, r.key.branch, r.revision, r.status = .valid, r.nextAction,
    r.difficultyBand, r.coverage⟩

/-! ## The validator -/

section Validator

variable {input : InterpreterInput}

/-- References that are distinct and known are taken one after the other. -/
theorem takeRefs_isSome_iff {es : List Json} : (∃ found, takeRefs (ids input) [] es = some found) ↔
    es.Pairwise (· ≠ ·) ∧ ∀ ref ∈ es, ∃ e ∈ input.evidence, ref = .string e.id := by
  have hinjective : Function.Injective Json.string := fun _ _ h => Json.string.inj h
  constructor
  · rintro ⟨found, hfound⟩
    obtain ⟨more, rfl, -, hknown, hnodup⟩ := takeRefs_eq_some.mp hfound
    refine ⟨hnodup.map hinjective, fun ref href => ?_⟩
    obtain ⟨id, hid, rfl⟩ := List.mem_map.mp href
    obtain ⟨e, he, rfl⟩ := List.mem_map.mp (hknown id hid).1
    exact ⟨e, he, rfl⟩
  · rintro ⟨hdistinct, hknown⟩
    have hstrings : es ∈ Set.range (List.map Json.string) := by
      rw [Set.range_list_map]
      intro ref href
      obtain ⟨e, -, rfl⟩ := hknown ref href
      exact ⟨e.id, rfl⟩
    obtain ⟨more, rfl⟩ := hstrings
    refine ⟨more, takeRefs_eq_some.mpr ⟨more, rfl, rfl, fun id hid => ?_, .of_map _ hdistinct⟩⟩
    obtain ⟨e, he, heq⟩ := hknown _ (List.mem_map_of_mem hid)
    exact ⟨Json.string.inj heq ▸ List.mem_map_of_mem he, List.not_mem_nil⟩

theorem refsOk_iff {refs : Json} : Gateway.refsOk input refs.elements = true ↔
    ((refs.isArray = true ∧ refs.size ≠ 0) ∧ refs.size ≤ 16) ∧
      ∃ found, takeRefs (ids input) [] refs.elements = some found := by
  unfold Gateway.refsOk
  rw [takeRefs_isSome_iff]
  simp only [Bool.and_eq_true, decide_eq_true_eq, List.all_eq_true, List.any_eq_true]
  cases refs with
  | array es =>
      simp only [Json.isArray, Json.size, Json.elements, List.length_eq_zero_iff, ne_eq, true_and,
        and_assoc]
  | null | bool | integer | real | string | object => simp [Json.isArray, Json.elements]

/-- Both validators accept the same bodies, with the same result. -/
theorem validate_seen (J : Jansson) (body : Text) (input : InterpreterInput) :
    Gateway.validate J body input = (validate J body input).map Result.seen := by
  apply Option.ext
  intro x
  unfold Gateway.validate validate stateResult
  simp only [Option.map_eq_some_iff, Option.bind_eq_bind, Option.bind_eq_some_iff, guard_eq_some,
    Bool.and_eq_true, decide_eq_true_eq, Option.pure_def, Option.some.injEq, refsOk_iff]
  constructor
  · rintro ⟨_, hbody, root, hroot, content, hcontent, state, hstate, _, ⟨⟨hsize, hschema⟩, hrevision⟩,
      phase, hphase, action, haction, band, hband, progress, hprogress, coverage, hcoverage, refs,
      hrefs, _, ⟨hshape, found, hfound⟩, rfl⟩
    -- only one of the two asks for an object: what is none has no eight members
    have hobject : state.isObject = true := by
      cases state with
      | object members => rfl
      | null | bool | integer | real | string | array => cases hsize
    exact ⟨_, ⟨(), hbody, root, hroot, content, hcontent, state, hstate, (), ⟨hobject, hsize⟩, (),
      ⟨hschema, hrevision⟩, phase, hphase, action, haction, band, hband, progress, hprogress,
      coverage, hcoverage, refs, hrefs, (), hshape, found, hfound, rfl⟩, rfl⟩
  · rintro ⟨_, ⟨_, hbody, root, hroot, content, hcontent, state, hstate, _, ⟨-, hsize⟩, _,
      ⟨hschema, hrevision⟩, phase, hphase, action, haction, band, hband, progress, hprogress,
      coverage, hcoverage, refs, hrefs, _, hshape, found, hfound, rfl⟩, rfl⟩
    exact ⟨(), hbody, root, hroot, content, hcontent, state, hstate, (), ⟨⟨hsize, hschema⟩, hrevision⟩,
      phase, hphase, action, haction, band, hband, progress, hprogress, coverage, hcoverage, refs,
      hrefs, (), ⟨hshape, found, hfound⟩, rfl⟩

/-- What the thread leaves is what the gateway expects of some response, or of none. -/
theorem performs_seen {J : Jansson} {result : Result} (h : Performs J input result) :
    ∃ response, result.seen = Gateway.perform J input response := by
  cases h with
  | failed status hstatus =>
      refine ⟨none, ?_⟩
      show (⟨_, _, _, decide (status = .valid), _, _, _⟩ : InterpreterResult) = _
      rw [decide_eq_false hstatus]
      rfl
  | @validated body _ hvalid =>
      refine ⟨some body, ?_⟩
      unfold Gateway.perform
      rw [Option.bind_some, validate_seen, hvalid]
      rfl

end Validator

/-! ## The slots -/

def Slot.seen (s : Slot) : Gateway.Job :=
  match s.state with
  | .free => .free
  | .pending => .pending s.job.input
  | .running => .running s.job.input
  | .done => .done s.job.input s.answer.result.seen

def Worker.seen (w : Worker) : Gateway.Worker := fun i => (w.slots i).seen

section Slots

variable {J : Jansson} {h : List Event} {w v : Worker}

theorem Slot.seen_eq_free {s : Slot} : s.seen = .free ↔ s.state = .free := by
  unfold Slot.seen
  cases s.state <;> simp

theorem Slot.seen_eq_pending {s : Slot} {input : InterpreterInput} :
    s.seen = .pending input ↔ s.state = .pending ∧ s.job.input = input := by
  unfold Slot.seen
  cases s.state <;> simp

theorem Slot.seen_eq_running {s : Slot} {input : InterpreterInput} :
    s.seen = .running input ↔ s.state = .running ∧ s.job.input = input := by
  unfold Slot.seen
  cases s.state <;> simp

theorem Slot.seen_of_done {s : Slot} (h : s.state = .done) :
    s.seen = .done s.job.input s.answer.result.seen := by
  unfold Slot.seen
  rw [h]

theorem seen_put (w : Worker) (i : Fin capacity) (s : Slot) :
    (w.put i s).seen = Function.update w.seen i s.seen := by
  funext j
  show ((w.put i s).slots j).seen = _
  by_cases hji : j = i
  · subst hji
    rw [put_slots_self, Function.update_self]
  · rw [put_slots_of_ne _ hji, Function.update_of_ne hji]
    rfl

theorem submit_seen {input : InterpreterInput} {deadline : Nat}
    (hsubmit : w.trySubmit input deadline = some v) : w.seen.submit input = some v.seen := by
  unfold Worker.trySubmit at hsubmit
  unfold Gateway.Worker.submit
  split at hsubmit
  case isFalse => cases hsubmit
  case isTrue hvalid =>
    obtain ⟨i, hi, rfl⟩ := Option.map_eq_some_iff.mp hsubmit
    have hfree : (Gateway.Worker.jobs.find? fun i => w.seen i = .free) = some i := by
      rw [← hi]
      unfold Worker.first Gateway.Worker.jobs
      exact congrArg (List.find? · _) (funext fun j => decide_eq_decide.mpr Slot.seen_eq_free)
    rw [if_pos hvalid, hfree]
    exact congrArg some (seen_put w i { w.slots i with
      job := ⟨w.accepted, input⟩, deadline, epoch := w.epoch, state := .pending }).symm

/-- The first element that is accepted has a value, and those that are not have none. -/
theorem findSome?_of_find? {α β : Type} {l : List α} {p : α → Bool} {f : α → Option β} {a : α} {b : β}
    (hfind : l.find? p = some a) (ha : f a = some b) (hnone : ∀ x, p x = false → f x = none) :
    l.findSome? f = some b := by
  induction l with
  | nil => cases hfind
  | cons x l ih =>
      rw [List.findSome?_cons]
      rw [List.find?_cons] at hfind
      cases hx : p x with
      | true =>
          rw [hx] at hfind
          obtain rfl := Option.some.inj hfind
          rw [ha]
      | false =>
          rw [hx] at hfind
          rw [hnone x hx]
          exact ih hfind

theorem poll_seen {answer : Answer} (hpoll : w.poll = some (answer, v)) :
    w.seen.poll = some (answer.result.seen, v.seen) := by
  obtain ⟨i, hi, heq⟩ := Option.map_eq_some_iff.mp hpoll
  obtain ⟨rfl, rfl⟩ := Prod.mk.inj heq
  have hdone := first_eq_some hi
  unfold Gateway.Worker.poll
  refine findSome?_of_find? hi ?_ fun j hj => ?_
  · rw [show w.seen i = _ from Slot.seen_of_done hdone]
    exact congrArg some (Prod.ext rfl (seen_put w i .zero).symm)
  · have hstate : (w.slots j).state ≠ .done := of_decide_eq_false hj
    cases hcase : (w.slots j).state with
    | free => rw [show w.seen j = _ from Slot.seen_eq_free.mpr hcase]
    | pending => rw [show w.seen j = _ from Slot.seen_eq_pending.mpr ⟨hcase, rfl⟩]
    | running => rw [show w.seen j = _ from Slot.seen_eq_running.mpr ⟨hcase, rfl⟩]
    | done => exact absurd hcase hstate

/-- The thread is at work on every slot that is running. -/
def Worker.Busy (w : Worker) : Prop :=
  ∀ i, (w.slots i).state = .running → ∃ copy, w.busy = some (i, copy)

theorem take_seen (hbusy : w.Busy) (htake : w.take = some v) :
    Gateway.Worker.Moves J w.seen v.seen := by
  unfold Worker.take at htake
  split at htake
  case isFalse => cases htake
  case isTrue hidle =>
    obtain ⟨i, hi, rfl⟩ := Option.map_eq_some_iff.mp htake
    have hpending := first_eq_some hi
    have hput : Worker.seen { w.put i { w.slots i with state := .running } with
        busy := some (i, { w.slots i with state := .running }) } =
        Function.update w.seen i (.running (w.slots i).job.input) :=
      seen_put w i { w.slots i with state := .running }
    rw [hput]
    refine .take i _ ?_ (Slot.seen_eq_pending.mpr ⟨hpending, rfl⟩) ?_
    -- a running slot would be one that the thread is at work on
    · intro j other hrunning
      obtain ⟨copy, hcopy⟩ := hbusy j (Slot.seen_eq_running.mp hrunning).1
      rw [hidle] at hcopy
      cases hcopy
    -- the slots in front of the first pending one are not pending
    · intro j hj other hother
      obtain ⟨-, n, hn, hget, hbefore⟩ := List.find?_eq_some_iff_getElem.mp hi
      rw [List.getElem_finRange] at hget
      have hj : j.val < n := by
        rw [← hget] at hj
        exact hj
      have hwaits := hbefore j.val hj
      rw [List.getElem_finRange, Bool.not_eq_true', decide_eq_false_iff_not] at hwaits
      exact hwaits (Slot.seen_eq_pending.mp hother).1

/-- Without a cancel the thread leaves the result it has made. -/
theorem store_seen {i : Fin capacity} {copy : Slot} {result : Result} (hheld : w.Held)
    (hbusy : w.busy = some (i, copy)) (hcurrent : copy.epoch = w.epoch)
    (hperform : Performs J copy.job.input result) :
    Gateway.Worker.Moves J w.seen (w.store i copy result).seen := by
  obtain ⟨hslot, hrunning⟩ := hheld i copy hbusy
  obtain ⟨response, hresult⟩ := performs_seen hperform
  have hput : (w.store i copy result).seen =
      Function.update w.seen i (.done copy.job.input (Gateway.perform J copy.job.input response)) := by
    unfold Worker.store
    rw [if_neg (not_not.mpr hcurrent), ← hresult]
    refine (seen_put w i _).trans ?_
    rw [hslot]
    rfl
  rw [hput]
  exact .leave i _ response (Slot.seen_eq_running.mpr ⟨by rw [hslot, hrunning], by rw [hslot]⟩)

theorem Worker.Busy.step {e : Event} (hbusy : w.Busy) (hstep : Step J w e v) : v.Busy := by
  -- a slot that the turn does not give another state was running before
  have hput {i : Fin capacity} {s : Slot} (hs : s.state ≠ .running) : (w.put i s).Busy := by
    intro j hj
    by_cases hji : j = i
    · subst hji
      rw [put_slots_self] at hj
      exact absurd hj hs
    · rw [put_slots_of_ne _ hji] at hj
      exact hbusy j hj
  cases hstep with
  | submit hsubmit =>
      unfold Worker.trySubmit at hsubmit
      split at hsubmit
      · obtain ⟨i, -, rfl⟩ := Option.map_eq_some_iff.mp hsubmit
        exact fun j hj => hput (by nofun) j hj
      · cases hsubmit
  | poll hpoll =>
      obtain ⟨i, -, heq⟩ := Option.map_eq_some_iff.mp hpoll
      obtain ⟨-, rfl⟩ := Prod.mk.inj heq
      exact hput (by nofun)
  | take htake =>
      unfold Worker.take at htake
      split at htake
      case isFalse => cases htake
      case isTrue hidle =>
        obtain ⟨i, -, rfl⟩ := Option.map_eq_some_iff.mp htake
        intro j hj
        by_cases hji : j = i
        · exact ⟨_, by rw [hji]⟩
        · change ((w.put i _).slots j).state = _ at hj
          rw [put_slots_of_ne _ hji] at hj
          obtain ⟨copy, hcopy⟩ := hbusy j hj
          rw [hidle] at hcopy
          cases hcopy
  | @store i copy result hcopy _ =>
      intro j hj
      change ((w.put i _).slots j).state = _ at hj
      by_cases hji : j = i
      · subst hji
        rw [put_slots_self] at hj
        cases hj
      · rw [put_slots_of_ne _ hji] at hj
        obtain ⟨other, hother⟩ := hbusy j hj
        rw [hcopy] at hother
        exact absurd (congrArg Prod.fst (Option.some.inj hother)).symm hji
  | begin => exact hbusy
  | sweep =>
      intro j hj
      refine hbusy j ?_
      change (w.slots j).swept.state = _ at hj
      unfold Slot.swept at hj
      split at hj
      · cases hj
      · exact hj

theorem Run.busy (hrun : Run J h w) : w.Busy := by
  induction hrun with
  | start =>
      intro i hi
      cases hi
  | step _ hstep ih => exact ih.step hstep

/-- One turn on the slots is a turn on what the gateway sees of them. -/
inductive Turn (J : Jansson) (w v : Gateway.Worker) : Event → Prop where
  | submitted (serial : Nat) {input : InterpreterInput} : w.submit input = some v →
      Turn J w v (.submitted serial input)
  | polled (serial : Nat) {result : Result} : w.poll = some (result.seen, v) →
      Turn J w v (.polled serial result)
  | took : Gateway.Worker.Moves J w v → Turn J w v .took
  | stored : Gateway.Worker.Moves J w v → Turn J w v .stored

theorem step_seen {e : Event} (hrun : Run J h w) (hstep : Step J w e v) (hnone : cancels (e :: h) = 0) :
    Turn J w.seen v.seen e := by
  have hbefore : cancels h = 0 ∧ e.isBegan = false := by
    unfold cancels at hnone ⊢
    rw [List.countP_cons] at hnone
    cases hbegan : e.isBegan with
    | false => exact ⟨by omega, rfl⟩
    | true =>
        rw [hbegan, if_pos rfl] at hnone
        omega
  have hepoch : w.epoch = 0 := hrun.epoch_eq.trans hbefore.1
  cases hstep with
  | submit hsubmit => exact .submitted _ (submit_seen hsubmit)
  | poll hpoll => exact .polled _ (poll_seen hpoll)
  | take htake => exact .took (take_seen hrun.busy htake)
  | @store i copy result hcopy hperform =>
      refine .stored (store_seen hrun.invariant.held hcopy ?_ hperform)
      -- no cancel has begun, so the epoch of the copy is still that of the worker
      obtain ⟨hslot, hrunning⟩ := hrun.invariant.held i copy hcopy
      have hkept := hrun.invariant.kept i (by rw [hslot, hrunning]; nofun)
      rw [hslot] at hkept
      have hcurrent := hkept.current
      omega
  | begin => cases hbefore.2
  | sweep cancel hcancel => omega

/-- Without a cancel the slots are what the gateway takes its worker for: they hold submitted jobs and
the answers to them, and what was polled is the answer to a job that was submitted. -/
theorem run_seen (hrun : Run J h w) (hnone : cancels h = 0) :
    Gateway.Worker.Holds J (fun input => ∃ n, .submitted n input ∈ h) w.seen ∧
      ∀ n r, .polled n r ∈ h → ∃ input response, (∃ n, .submitted n input ∈ h) ∧
        r.seen = Gateway.perform J input response := by
  -- the events of a longer history are those of the shorter one and one more
  induction hrun with
  | start => exact ⟨Gateway.Worker.holds_idle, by rintro _ _ ⟨⟩⟩
  | @step h w v e hrun hstep ih =>
      have hbefore : cancels h = 0 := by
        unfold cancels at hnone ⊢
        rw [List.countP_cons] at hnone
        omega
      obtain ⟨hholds, hpolled⟩ := ih hbefore
      have hmore : ∀ input, (∃ n, .submitted n input ∈ h) → ∃ n, .submitted n input ∈ e :: h := by
        rintro input ⟨n, hn⟩
        exact ⟨n, List.mem_cons_of_mem _ hn⟩
      have hholds := hholds.mono hmore
      have hold : ∀ n r, .polled n r ∈ h → ∃ input response,
          (∃ n, .submitted n input ∈ e :: h) ∧ r.seen = Gateway.perform J input response := by
        intro n r hin
        obtain ⟨input, response, hinput, hr⟩ := hpolled n r hin
        exact ⟨input, response, hmore input hinput, hr⟩
      cases step_seen hrun hstep hnone with
      | submitted serial hsubmit =>
          refine ⟨hholds.submit ⟨serial, List.mem_cons_self⟩ hsubmit, fun n r hin => ?_⟩
          exact hold n r ((List.mem_cons.mp hin).resolve_left (by nofun))
      | polled serial hpoll =>
          obtain ⟨hnext, hanswer⟩ := hholds.poll hpoll
          refine ⟨hnext, fun n r hin => ?_⟩
          cases List.mem_cons.mp hin with
          | inl heq =>
              obtain ⟨-, rfl⟩ := Event.polled.inj heq
              exact hanswer
          | inr hin => exact hold n r hin
      | took hmoves =>
          refine ⟨hholds.moves hmoves, fun n r hin => ?_⟩
          exact hold n r ((List.mem_cons.mp hin).resolve_left (by nofun))
      | stored hmoves =>
          refine ⟨hholds.moves hmoves, fun n r hin => ?_⟩
          exact hold n r ((List.mem_cons.mp hin).resolve_left (by nofun))

end Slots

end Recursant.Interpreter
