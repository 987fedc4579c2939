import Recursant.Interpreter.Trajectory

/-!
# The slots of the interpreter

`rc_interpreter_try_submit`, `_poll` and `_cancel` of the owner's threads, and the thread of the
worker, as they take turns under the lock.  Only the epoch of a cancel is raised outside of it.
-/

namespace Recursant.Interpreter

open Gateway

inductive SlotState where
  | free
  | pending
  | running
  | done
  deriving DecidableEq

/-- An accepted input with its number among the accepted ones, which the code does not have. -/
structure Job where
  serial : Nat
  input : InterpreterInput
  deriving DecidableEq

/-- A result with the number of the job it was made for. -/
structure Answer where
  serial : Nat
  result : Result
  deriving DecidableEq

/-- `struct slot` -/
structure Slot where
  state : SlotState
  job : Job
  answer : Answer
  deadline : Nat
  epoch : Nat
  deriving DecidableEq

/-- `memset` of a slot. -/
def Slot.zero : Slot := ⟨.free, ⟨0, ⟨{}, 0, []⟩⟩, ⟨0, default⟩, 0, 0⟩

abbrev capacity : Nat := GatewayContext.interpreterCapacity

theorem capacity_pos : 0 < capacity := by decide

/-- `rc_interpreter` with the locals of its thread while it performs a job outside of the lock.  The
epoch is the number of cancels, which the code counts in an `atomic_uint_fast64_t`: up to 2^64 of
them the two are the same. -/
structure Worker where
  slots : Fin capacity → Slot
  epoch : Nat
  busy : Option (Fin capacity × Slot)
  accepted : Nat

namespace Worker

def idle : Worker := ⟨fun _ => .zero, 0, none, 0⟩

variable (w : Worker)

/-- The first slot in a state. -/
def first (state : SlotState) : Option (Fin capacity) :=
  (List.finRange capacity).find? fun i => (w.slots i).state = state

def put (i : Fin capacity) (s : Slot) : Worker := { w with slots := Function.update w.slots i s }

/-- `rc_interpreter_try_submit` under the lock. -/
def trySubmit (input : InterpreterInput) (deadline : Nat) : Option Worker :=
  if Gateway.Worker.inputValid input then
    (w.first .free).map fun i =>
      { w.put i { w.slots i with
            job := ⟨w.accepted, input⟩, deadline, epoch := w.epoch, state := .pending } with
        accepted := w.accepted + 1 }
  else none

/-- `rc_interpreter_poll` under the lock. -/
def poll : Option (Answer × Worker) :=
  (w.first .done).map fun i => ((w.slots i).answer, w.put i .zero)

/-- The thread takes the first job that waits, with a copy of its slot. -/
def take : Option Worker :=
  if w.busy = none then
    (w.first .pending).map fun i =>
      let copy := { w.slots i with state := .running }
      { w.put i copy with busy := some (i, copy) }
  else none

/-- The thread is back with a result; that of an earlier epoch counts as cancelled. -/
def store (i : Fin capacity) (copy : Slot) (result : Result) : Worker :=
  let result := if copy.epoch ≠ w.epoch then { result with status := .cancelled } else result
  { w.put i { w.slots i with answer := ⟨copy.job.serial, result⟩, state := .done } with
    busy := none }

end Worker

/-- The result of a job without an answer of its own. -/
def blank (input : InterpreterInput) (status : Status) : Result :=
  { (default : Result) with key := input.key, revision := input.revision, status := status }

/-- What the sweep of a cancel leaves in a slot. -/
def Slot.swept (s : Slot) : Slot :=
  if s.state = .pending ∨ s.state = .done then
    { s with answer := ⟨s.job.serial, blank s.job.input .cancelled⟩, state := .done }
  else s

/-- The second half of `rc_interpreter_cancel`, under the lock. -/
def Worker.sweep (w : Worker) : Worker := { w with slots := fun i => (w.slots i).swept }

/-- `perform`: it fails in some way, or the body of the response is validated. -/
inductive Performs (J : Jansson) (input : InterpreterInput) : Result → Prop where
  | failed (status : Status) : status ≠ .valid → Performs J input (blank input status)
  | validated {body : Text} {result : Result} : validate J body input = some result →
      Performs J input result

/-! ## Runs -/

/-- What happened; a cancel is known by the epoch it raised. -/
inductive Event where
  | submitted (serial : Nat) (input : InterpreterInput)
  | polled (serial : Nat) (result : Result)
  | took
  | stored
  | began (cancel : Nat)
  | returned (cancel : Nat)

/-- The turns.  A call that does not get the lock at once returns false and changes nothing. -/
inductive Step (J : Jansson) (w : Worker) : Event → Worker → Prop where
  | submit {input : InterpreterInput} {deadline : Nat} {v : Worker} :
      w.trySubmit input deadline = some v → Step J w (.submitted w.accepted input) v
  | poll {answer : Answer} {v : Worker} : w.poll = some (answer, v) →
      Step J w (.polled answer.serial answer.result) v
  | take {v : Worker} : w.take = some v → Step J w .took v
  | store {i : Fin capacity} {copy : Slot} {result : Result} : w.busy = some (i, copy) →
      Performs J copy.job.input result → Step J w .stored (w.store i copy result)
  | begin : Step J w (.began w.epoch) { w with epoch := w.epoch + 1 }
  | sweep (cancel : Nat) : cancel < w.epoch → Step J w (.returned cancel) w.sweep

/-- The events up to a state, the last one first. -/
inductive Run (J : Jansson) : List Event → Worker → Prop where
  | start : Run J [] .idle
  | step {h : List Event} {w v : Worker} {e : Event} : Run J h w → Step J w e v → Run J (e :: h) v

def Event.isBegan : Event → Bool
  | .began _ => true
  | _ => false

/-- The cancels that began. -/
def cancels (h : List Event) : Nat := h.countP Event.isBegan

/-! ## What holds in a run -/

/-- The answer is for the job of the slot. -/
def Slot.Answered (s : Slot) : Prop :=
  s.answer.serial = s.job.serial ∧ s.answer.result.key = s.job.input.key ∧
    s.answer.result.revision = s.job.input.revision

/-- A slot with a job, in view of the events: after a cancel began the epoch of the job is over, and
after that cancel returned nothing but a cancelled answer is left, or the thread still at work. -/
structure Kept (h : List Event) (epoch : Nat) (s : Slot) : Prop where
  known : .submitted s.job.serial s.job.input ∈ h
  unpolled : ∀ r, .polled s.job.serial r ∉ h
  answered : s.state = .done → s.Answered
  current : s.epoch ≤ epoch
  begun : ∀ c input, [.began c, .submitted s.job.serial input].Sublist h → s.epoch < epoch
  swept : ∀ c input, [.returned c, .began c, .submitted s.job.serial input].Sublist h →
    s.state = .running ∨ s.state = .done ∧ s.answer.result.status = .cancelled

/-- What the owner can tell from the events. -/
structure Delivery (h : List Event) : Prop where
  serials : ∀ n a b, ¬ [.submitted n a, .submitted n b].Sublist h
  once : ∀ n r r', ¬ [.polled n r', .polled n r].Sublist h
  own : ∀ n r, .polled n r ∈ h → ∃ input, .submitted n input ∈ h ∧
    r.key = input.key ∧ r.revision = input.revision
  cancelled : ∀ n input c r,
    [.polled n r, .returned c, .began c, .submitted n input].Sublist h → r.status ≠ .valid

/-- The thread's job is still in its slot, as the thread copied it. -/
def Worker.Held (w : Worker) : Prop :=
  ∀ i copy, w.busy = some (i, copy) → w.slots i = copy ∧ copy.state = .running

structure Invariant (h : List Event) (w : Worker) : Prop where
  held : w.Held
  kept : ∀ i, (w.slots i).state ≠ .free → Kept h w.epoch (w.slots i)
  apart : ∀ i j, (w.slots i).state ≠ .free → (w.slots j).state ≠ .free →
    (w.slots i).job.serial = (w.slots j).job.serial → i = j
  numbered : ∀ n input, .submitted n input ∈ h → n < w.accepted
  delivery : Delivery h

section

variable {J : Jansson} {h : List Event} {w v : Worker} {s : Slot} {epoch : Nat}

theorem first_eq_some {state : SlotState} {i : Fin capacity} (h : w.first state = some i) :
    (w.slots i).state = state := by
  unfold Worker.first at h
  have hfound := List.find?_some h
  exact of_decide_eq_true hfound

@[simp] theorem put_slots_self (i : Fin capacity) (s : Slot) : (w.put i s).slots i = s :=
  Function.update_self ..

theorem put_slots_of_ne {i j : Fin capacity} (s : Slot) (hne : j ≠ i) :
    (w.put i s).slots j = w.slots j := Function.update_of_ne hne ..

theorem perform_answers {input : InterpreterInput} {r : Result} (h : Performs J input r) :
    r.key = input.key ∧ r.revision = input.revision := by
  cases h with
  | failed => exact ⟨rfl, rfl⟩
  | validated hvalid =>
      unfold validate at hvalid
      simp only [Option.bind_eq_bind, Option.bind_eq_some_iff] at hvalid
      obtain ⟨_, -, _, -, _, -, v, -, hr⟩ := hvalid
      have hcarries := (stateResult_eq_some.mp hr).2
      exact ⟨hcarries.key, hcarries.revision⟩

/-! ## One more event -/

/-- Where another event comes last, the events in question are among the earlier ones. -/
theorem sublist_of_ne {e a : Event} {l : List Event} (hs : (a :: l).Sublist (e :: h)) (hne : a ≠ e) :
    (a :: l).Sublist h := by
  cases List.cons_sublist_cons'.mp hs with
  | inl hs => exact hs
  | inr hs => exact absurd hs.1 hne

/-- An event about other jobs, and of no cancel. -/
theorem Kept.other (hs : Kept h epoch s) {e : Event} (hbegan : ∀ c, .began c ≠ e)
    (hreturned : ∀ c, .returned c ≠ e) (hpolled : ∀ r, .polled s.job.serial r ≠ e) :
    Kept (e :: h) epoch s where
  known := List.mem_cons_of_mem _ hs.known
  unpolled r hin := by
    cases List.mem_cons.mp hin with
    | inl heq => exact hpolled r heq
    | inr hin => exact hs.unpolled r hin
  answered := hs.answered
  current := hs.current
  begun c input hin := hs.begun c input (sublist_of_ne hin (hbegan c))
  swept c input hin := hs.swept c input (sublist_of_ne hin (hreturned c))

theorem Kept.began (hs : Kept h epoch s) (c : Nat) : Kept (.began c :: h) (epoch + 1) s where
  known := List.mem_cons_of_mem _ hs.known
  unpolled r hin := hs.unpolled r ((List.mem_cons.mp hin).resolve_left nofun)
  answered := hs.answered
  current := hs.current.trans (Nat.le_succ _)
  begun _ _ _ := Nat.lt_succ_of_le hs.current
  swept c input hin := hs.swept c input (sublist_of_ne hin nofun)

theorem Kept.returned (hs : Kept h epoch s) (hfree : s.state ≠ .free) (c : Nat) :
    Kept (.returned c :: h) epoch s.swept := by
  unfold Slot.swept
  by_cases hstate : s.state = .pending ∨ s.state = .done
  · rw [if_pos hstate]
    exact {
      known := List.mem_cons_of_mem _ hs.known
      unpolled := fun r hin => hs.unpolled r ((List.mem_cons.mp hin).resolve_left nofun)
      answered := fun _ => ⟨rfl, rfl, rfl⟩
      current := hs.current
      begun := fun c input hin => hs.begun c input (sublist_of_ne hin nofun)
      swept := fun _ _ _ => .inr ⟨rfl, rfl⟩ }
  · rw [if_neg hstate]
    have hrunning : s.state = .running := by
      cases hcase : s.state with
      | running => rfl
      | free => exact absurd hcase hfree
      | pending => exact absurd (.inl hcase) hstate
      | done => exact absurd (.inr hcase) hstate
    exact {
      known := List.mem_cons_of_mem _ hs.known
      unpolled := fun r hin => hs.unpolled r ((List.mem_cons.mp hin).resolve_left nofun)
      answered := hs.answered
      current := hs.current
      begun := fun c input hin => hs.begun c input (sublist_of_ne hin nofun)
      swept := fun _ _ _ => .inl hrunning }

/-- Events that neither submit nor poll leave the owner's view as it is. -/
theorem Delivery.other (hd : Delivery h) {e : Event} (hsubmitted : ∀ n input, .submitted n input ≠ e)
    (hpolled : ∀ n r, .polled n r ≠ e) : Delivery (e :: h) where
  serials n a b hin := hd.serials n a b (sublist_of_ne hin (hsubmitted n a))
  once n r r' hin := hd.once n r r' (sublist_of_ne hin (hpolled n r'))
  own n r hin := by
    obtain ⟨input, hinput, hr⟩ := hd.own n r ((List.mem_cons.mp hin).resolve_left (hpolled n r))
    exact ⟨input, List.mem_cons_of_mem _ hinput, hr⟩
  cancelled n input c r hin := hd.cancelled n input c r (sublist_of_ne hin (hpolled n r))

/-! ## Steps -/

theorem invariant_idle : Invariant [] .idle where
  held := nofun
  kept _ hi := absurd rfl hi
  apart _ _ hi := absurd rfl hi
  numbered := nofun
  delivery := ⟨nofun, nofun, nofun, nofun⟩

theorem Invariant.unnumbered (inv : Invariant h w) (input : InterpreterInput) :
    .submitted w.accepted input ∉ h := fun hin => Nat.lt_irrefl _ (inv.numbered _ _ hin)

/-- A new job goes to a slot that was free, and no event knows its number. -/
theorem Invariant.submit (inv : Invariant h w) {input : InterpreterInput} {deadline : Nat}
    (hsubmit : w.trySubmit input deadline = some v) :
    Invariant (.submitted w.accepted input :: h) v := by
  unfold Worker.trySubmit at hsubmit
  split at hsubmit
  case isFalse => cases hsubmit
  case isTrue =>
    obtain ⟨i, hi, rfl⟩ := Option.map_eq_some_iff.mp hsubmit
    have hfree := first_eq_some hi
    have hunpolled : ∀ r, .polled w.accepted r ∉ h := by
      intro r hin
      obtain ⟨input, hinput, -⟩ := inv.delivery.own _ _ hin
      exact inv.unnumbered input hinput
    have hold {j : Fin capacity} (hj : (w.slots j).state ≠ .free) :
        (w.slots j).job.serial < w.accepted := inv.numbered _ _ (inv.kept j hj).known
    have hne {j : Fin capacity} (hj : (w.slots j).state ≠ .free) : j ≠ i := by
      rintro rfl
      exact hj hfree
    refine ⟨?_, ?_, ?_, ?_, ?_⟩
    · intro k copy hbusy
      obtain ⟨hslot, hrunning⟩ := inv.held k copy hbusy
      refine ⟨?_, hrunning⟩
      have hk : k ≠ i := hne (by rw [hslot, hrunning]; nofun)
      exact (put_slots_of_ne _ hk).trans hslot
    · intro j hj
      by_cases hji : j = i
      · subst hji
        show Kept _ _ ((w.put j _).slots j)
        rw [put_slots_self]
        exact {
          known := List.mem_cons_self
          unpolled := fun r hin => hunpolled r ((List.mem_cons.mp hin).resolve_left nofun)
          answered := nofun
          current := Nat.le_refl _
          begun := fun c input' hin => absurd
            ((sublist_of_ne hin nofun).subset (by simp)) (inv.unnumbered input')
          swept := fun c input' hin => absurd
            ((sublist_of_ne hin nofun).subset (by simp)) (inv.unnumbered input') }
      · change Kept _ _ ((w.put i _).slots j)
        change ((w.put i _).slots j).state ≠ _ at hj
        rw [put_slots_of_ne _ hji] at hj ⊢
        exact (inv.kept j hj).other nofun nofun nofun
    · intro j k hj hk hserial
      change ((w.put i _).slots j).state ≠ _ at hj
      change ((w.put i _).slots k).state ≠ _ at hk
      change ((w.put i _).slots j).job.serial = ((w.put i _).slots k).job.serial at hserial
      by_cases hji : j = i
      · by_cases hki : k = i
        · rw [hji, hki]
        · subst hji
          rw [put_slots_of_ne _ hki] at hk hserial
          rw [put_slots_self] at hserial
          exact absurd hserial.symm (Nat.ne_of_lt (hold hk))
      · rw [put_slots_of_ne _ hji] at hj hserial
        by_cases hki : k = i
        · subst hki
          rw [put_slots_self] at hserial
          exact absurd hserial (Nat.ne_of_lt (hold hj))
        · rw [put_slots_of_ne _ hki] at hk hserial
          exact inv.apart j k hj hk hserial
    · intro n input' hin
      show n < w.accepted + 1
      cases List.mem_cons.mp hin with
      | inl heq =>
          obtain ⟨rfl, -⟩ := Event.submitted.inj heq
          exact Nat.lt_succ_self _
      | inr hin => exact Nat.lt_succ_of_lt (inv.numbered n input' hin)
    · refine ⟨fun n a b hin => ?_, fun n r r' hin => ?_, fun n r hin => ?_, fun n a c r hin => ?_⟩
      · cases List.cons_sublist_cons'.mp hin with
        | inl hin => exact inv.delivery.serials n a b hin
        | inr hin =>
            obtain ⟨rfl, -⟩ := Event.submitted.inj hin.1
            exact inv.unnumbered b (hin.2.subset (List.mem_singleton_self _))
      · exact inv.delivery.once n r r' (sublist_of_ne hin nofun)
      · obtain ⟨a, ha, hr⟩ := inv.delivery.own n r ((List.mem_cons.mp hin).resolve_left nofun)
        exact ⟨a, List.mem_cons_of_mem _ ha, hr⟩
      · exact inv.delivery.cancelled n a c r (sublist_of_ne hin nofun)

/-- A poll empties the slot of the answer it returns. -/
theorem Invariant.poll (inv : Invariant h w) {answer : Answer} (hpoll : w.poll = some (answer, v)) :
    Invariant (.polled answer.serial answer.result :: h) v := by
  unfold Worker.poll at hpoll
  obtain ⟨i, hi, heq⟩ := Option.map_eq_some_iff.mp hpoll
  obtain ⟨rfl, rfl⟩ := Prod.mk.inj heq
  have hdone := first_eq_some hi
  have hheld : (w.slots i).state ≠ .free := by
    rw [hdone]
    nofun
  have hkept := inv.kept i hheld
  obtain ⟨hserial, hkey, hrevision⟩ := hkept.answered hdone
  refine ⟨?_, ?_, ?_, ?_, ?_⟩
  · intro k copy hbusy
    obtain ⟨hslot, hrunning⟩ := inv.held k copy hbusy
    have hk : k ≠ i := by
      rintro rfl
      rw [hslot, hrunning] at hdone
      cases hdone
    exact ⟨(put_slots_of_ne _ hk).trans hslot, hrunning⟩
  · intro j hj
    by_cases hji : j = i
    · subst hji
      rw [put_slots_self] at hj
      exact absurd rfl hj
    · rw [put_slots_of_ne _ hji] at hj ⊢
      refine (inv.kept j hj).other nofun nofun fun r heq => hji ?_
      refine inv.apart j i hj hheld ?_
      rw [(Event.polled.inj heq).1, hserial]
  · intro j k hj hk hsame
    have hne {j : Fin capacity} (hj : ((w.put i .zero).slots j).state ≠ .free) : j ≠ i := by
      rintro rfl
      rw [put_slots_self] at hj
      exact hj rfl
    have hji := hne hj
    have hki := hne hk
    rw [put_slots_of_ne _ hji] at hj hsame
    rw [put_slots_of_ne _ hki] at hk hsame
    exact inv.apart j k hj hk hsame
  · exact fun n input hin => inv.numbered n input ((List.mem_cons.mp hin).resolve_left nofun)
  · refine ⟨fun n a b hin => ?_, fun n r r' hin => ?_, fun n r hin => ?_, fun n a c r hin => ?_⟩
    · exact inv.delivery.serials n a b (sublist_of_ne hin nofun)
    · cases List.cons_sublist_cons'.mp hin with
      | inl hin => exact inv.delivery.once n r r' hin
      | inr hin =>
          obtain ⟨rfl, -⟩ := Event.polled.inj hin.1
          rw [hserial] at hin
          exact hkept.unpolled r (hin.2.subset (List.mem_singleton_self _))
    · cases List.mem_cons.mp hin with
      | inl heq =>
          obtain ⟨rfl, rfl⟩ := Event.polled.inj heq
          refine ⟨_, List.mem_cons_of_mem _ ?_, hkey, hrevision⟩
          rw [hserial]
          exact hkept.known
      | inr hin =>
          obtain ⟨input, hinput, hr⟩ := inv.delivery.own n r hin
          exact ⟨input, List.mem_cons_of_mem _ hinput, hr⟩
    · cases List.cons_sublist_cons'.mp hin with
      | inl hin => exact inv.delivery.cancelled n a c r hin
      | inr hin =>
          obtain ⟨rfl, rfl⟩ := Event.polled.inj hin.1
          rw [hserial] at hin
          cases hkept.swept c a hin.2 with
          | inl hrunning =>
              rw [hdone] at hrunning
              cases hrunning
          | inr hcancelled =>
              rw [hcancelled.2]
              nofun

/-- An event that only the thread sees. -/
def Event.Silent (e : Event) : Prop :=
  (∀ n input, .submitted n input ≠ e) ∧ (∀ n r, .polled n r ≠ e) ∧ (∀ c, .began c ≠ e) ∧
    ∀ c, .returned c ≠ e

/-- The thread changes the state and the answer of a slot, which keeps its job. -/
theorem Invariant.replace (inv : Invariant h w) {i : Fin capacity} {e : Event}
    {busy : Option (Fin capacity × Slot)} (he : e.Silent) (hi : (w.slots i).state ≠ .free)
    (hjob : s.job = (w.slots i).job) (hkept : Kept (e :: h) w.epoch s)
    (hheld : Worker.Held { w.put i s with busy }) :
    Invariant (e :: h) { w.put i s with busy } := by
  have hslot (j : Fin capacity) : ((w.put i s).slots j).job = (w.slots j).job ∧
      (((w.put i s).slots j).state ≠ .free → (w.slots j).state ≠ .free) := by
    by_cases hji : j = i
    · subst hji
      rw [put_slots_self]
      exact ⟨hjob, fun _ => hi⟩
    · rw [put_slots_of_ne _ hji]
      exact ⟨rfl, id⟩
  refine ⟨hheld, ?_, ?_, ?_, inv.delivery.other he.1 he.2.1⟩
  · intro j hj
    change ((w.put i s).slots j).state ≠ _ at hj
    show Kept _ _ ((w.put i s).slots j)
    by_cases hji : j = i
    · subst hji
      rw [put_slots_self]
      exact hkept
    · rw [put_slots_of_ne _ hji] at hj ⊢
      exact (inv.kept j hj).other he.2.2.1 he.2.2.2 (he.2.1 _)
  · intro j k hj hk hserial
    change ((w.put i s).slots j).job.serial = ((w.put i s).slots k).job.serial at hserial
    rw [(hslot j).1, (hslot k).1] at hserial
    exact inv.apart j k ((hslot j).2 hj) ((hslot k).2 hk) hserial
  · exact fun n input hin => inv.numbered n input ((List.mem_cons.mp hin).resolve_left (he.1 n input))

theorem Invariant.take (inv : Invariant h w) (htake : w.take = some v) :
    Invariant (.took :: h) v := by
  unfold Worker.take at htake
  split at htake
  case isFalse => cases htake
  case isTrue hidle =>
    obtain ⟨i, hi, rfl⟩ := Option.map_eq_some_iff.mp htake
    have hpending := first_eq_some hi
    have hfree : (w.slots i).state ≠ .free := by
      rw [hpending]
      nofun
    have hkept := inv.kept i hfree
    refine inv.replace ⟨nofun, nofun, nofun, nofun⟩ hfree rfl ?_ ?_
    · exact {
        known := List.mem_cons_of_mem _ hkept.known
        unpolled := fun r hin => hkept.unpolled r ((List.mem_cons.mp hin).resolve_left nofun)
        answered := nofun
        current := hkept.current
        begun := fun c input hin => hkept.begun c input (sublist_of_ne hin nofun)
        swept := fun _ _ _ => .inl rfl }
    · rintro _ copy ⟨⟩
      exact ⟨put_slots_self _ _, rfl⟩

/-- A result of an epoch that is over is stored as cancelled. -/
theorem Invariant.store (inv : Invariant h w) {i : Fin capacity} {copy : Slot} {result : Result}
    (hbusy : w.busy = some (i, copy)) (hperform : Performs J copy.job.input result) :
    Invariant (.stored :: h) (w.store i copy result) := by
  obtain ⟨hslot, hrunning⟩ := inv.held i copy hbusy
  have hfree : (w.slots i).state ≠ .free := by
    rw [hslot, hrunning]
    nofun
  have hkept := inv.kept i hfree
  obtain ⟨hkey, hrevision⟩ := perform_answers hperform
  rw [hslot] at hkept
  unfold Worker.store
  refine inv.replace ⟨nofun, nofun, nofun, nofun⟩ hfree rfl ?_ nofun
  rw [hslot]
  refine ⟨List.mem_cons_of_mem _ hkept.known, ?_, fun _ => ?_, hkept.current, ?_, ?_⟩
  · exact fun r hin => hkept.unpolled r ((List.mem_cons.mp hin).resolve_left nofun)
  · refine ⟨rfl, ?_⟩
    dsimp only
    split
    · exact ⟨hkey, hrevision⟩
    · exact ⟨hkey, hrevision⟩
  · exact fun c input hin => hkept.begun c input (sublist_of_ne hin nofun)
  · intro c input hin
    -- the cancel began after the submission, so the epoch of the copy is over
    have hbegan : [.began c, .submitted copy.job.serial input].Sublist h :=
      (List.sublist_cons_self _ _).trans (sublist_of_ne hin nofun)
    have hover : copy.epoch ≠ w.epoch := Nat.ne_of_lt (hkept.begun c input hbegan)
    refine .inr ⟨rfl, ?_⟩
    dsimp only
    rw [if_pos hover]

theorem Invariant.begin (inv : Invariant h w) :
    Invariant (.began w.epoch :: h) { w with epoch := w.epoch + 1 } where
  held := inv.held
  kept i hi := (inv.kept i hi).began w.epoch
  apart := inv.apart
  numbered n input hin := inv.numbered n input ((List.mem_cons.mp hin).resolve_left nofun)
  delivery := inv.delivery.other nofun nofun

theorem Slot.swept_job (s : Slot) : s.swept.job = s.job := by
  unfold Slot.swept
  split <;> rfl

theorem Slot.swept_state {s : Slot} (hs : s.swept.state ≠ .free) : s.state ≠ .free := by
  intro hfree
  unfold Slot.swept at hs
  rw [hfree, if_neg (by decide)] at hs
  exact hs hfree

theorem Invariant.sweep (inv : Invariant h w) (c : Nat) : Invariant (.returned c :: h) w.sweep where
  held i copy hbusy := by
    obtain ⟨hslot, hrunning⟩ := inv.held i copy hbusy
    refine ⟨?_, hrunning⟩
    show (w.slots i).swept = copy
    unfold Slot.swept
    rw [hslot, hrunning, if_neg (by decide)]
  kept i hi := (inv.kept i (Slot.swept_state hi)).returned (Slot.swept_state hi) c
  apart i j hi hj hserial := by
    change (w.slots i).swept.job.serial = (w.slots j).swept.job.serial at hserial
    rw [Slot.swept_job, Slot.swept_job] at hserial
    exact inv.apart i j (Slot.swept_state hi) (Slot.swept_state hj) hserial
  numbered n input hin := inv.numbered n input ((List.mem_cons.mp hin).resolve_left nofun)
  delivery := inv.delivery.other nofun nofun

theorem Invariant.step {e : Event} (inv : Invariant h w) (hstep : Step J w e v) :
    Invariant (e :: h) v := by
  cases hstep with
  | submit hsubmit => exact inv.submit hsubmit
  | poll hpoll => exact inv.poll hpoll
  | take htake => exact inv.take htake
  | store hbusy hperform => exact inv.store hbusy hperform
  | begin => exact inv.begin
  | sweep c => exact inv.sweep c

theorem Run.invariant (hrun : Run J h w) : Invariant h w := by
  induction hrun with
  | start => exact invariant_idle
  | step _ hstep ih => exact ih.step hstep

/-- Only the beginning of a cancel raises the epoch. -/
theorem Step.epoch_eq {e : Event} (hstep : Step J w e v) :
    v.epoch = w.epoch + if e.isBegan then 1 else 0 := by
  cases hstep with
  | submit hsubmit =>
      unfold Worker.trySubmit at hsubmit
      split at hsubmit
      · obtain ⟨_, -, rfl⟩ := Option.map_eq_some_iff.mp hsubmit
        rfl
      · cases hsubmit
  | poll hpoll =>
      obtain ⟨_, -, hi⟩ := Option.map_eq_some_iff.mp hpoll
      obtain ⟨-, rfl⟩ := Prod.mk.inj hi
      rfl
  | take htake =>
      unfold Worker.take at htake
      split at htake
      · obtain ⟨_, -, rfl⟩ := Option.map_eq_some_iff.mp htake
        rfl
      · cases htake
  | store => rfl
  | begin => rfl
  | sweep => rfl

theorem Run.epoch_eq (hrun : Run J h w) : w.epoch = cancels h := by
  induction hrun with
  | start => rfl
  | step _ hstep ih =>
      unfold cancels at ih ⊢
      rw [hstep.epoch_eq, ih, List.countP_cons]

end

/-- In every run each accepted job is polled at most once, with its own key and revision, the slot of
a running job stays its own, and a cancel that returned is final for the jobs before it.  The epoch
has counted the cancels. -/
theorem results_delivered_once {J : Jansson} {h : List Event} {w : Worker} (hrun : Run J h w) :
    Delivery h ∧ w.Held ∧ w.epoch = cancels h :=
  ⟨hrun.invariant.delivery, hrun.invariant.held, hrun.epoch_eq⟩

/-! ## A cancel during a job -/

def sampleSubmitted : Worker :=
  (Worker.idle.trySubmit sampleInput 100).get (by decide +kernel)

def sampleTaken : Worker := sampleSubmitted.take.get (by decide +kernel)

def sampleCancelled : Worker := { sampleTaken with epoch := sampleTaken.epoch + 1 }.sweep

def sampleResult : Result :=
  (validate sampleJansson completionText sampleInput).get (by decide +kernel)

def sampleSlot : Fin capacity := ⟨0, capacity_pos⟩

def sampleStored : Worker :=
  sampleCancelled.store sampleSlot (sampleTaken.slots sampleSlot) sampleResult

def samplePolled : Answer × Worker := sampleStored.poll.get (by decide +kernel)

theorem results_delivered_once_sample :
    Delivery [.polled 0 samplePolled.1.result, .stored, .returned 0, .began 0, .took,
      .submitted 0 sampleInput] ∧ samplePolled.2.Held ∧ samplePolled.2.epoch = 1 := by
  have hsubmit : Run sampleJansson [.submitted 0 sampleInput] sampleSubmitted :=
    .step .start (.submit (Option.some_get _).symm)
  have htake : Run sampleJansson [.took, .submitted 0 sampleInput] sampleTaken :=
    .step hsubmit (.take (Option.some_get _).symm)
  have hbusy : sampleCancelled.busy = some (sampleSlot, sampleTaken.slots sampleSlot) := by
    decide +kernel
  have hjob : (sampleTaken.slots sampleSlot).job.input = sampleInput := by decide +kernel
  have hperform : Performs sampleJansson (sampleTaken.slots sampleSlot).job.input sampleResult := by
    rw [hjob]
    exact .validated (Option.some_get _).symm
  have hserial : samplePolled.1.serial = 0 := by decide +kernel
  have hfound : sampleStored.poll = some samplePolled :=
    (Option.some_get _).symm
  have hpoll : Step sampleJansson sampleStored (.polled 0 samplePolled.1.result) samplePolled.2 := by
    rw [← hserial]
    exact .poll hfound
  exact results_delivered_once (((((htake.step .begin).step (.sweep 0 (by decide +kernel))).step
    (.store hbusy hperform)).step hpoll))

end Recursant.Interpreter
