import Recursant.Gateway.State

/-!
# The interpreter

`interpreter.c`: four slots between the gateway, which submits jobs and polls results without
waiting, and one thread, which takes a job, asks the private model and validates its answer.
-/

namespace Recursant.Gateway

/-- `rc_interpreter_evidence`. -/
structure Segment where
  id : Text
  source : Text
  text : Text
  deriving DecidableEq

/-- `rc_interpreter_input`. -/
structure InterpreterInput where
  key : Context.Key
  revision : Nat
  evidence : List Segment
  deriving DecidableEq

/-! ## The answer -/

/-- `json_object_size`, zero for a value that is no object. -/
def objectSize : Json → Nat
  | .object members => members.length
  | _ => 0

/-- The member is a string of the list. -/
def enumValue (o : Json) (key : Text) (values : List Text) : Option Text :=
  ((o.get? key).bind Json.text?).filter values.contains

/-- `%llu`. -/
def decimal (n : Nat) : Text := text (toString n)

/-- One to sixteen references, each to a segment of its own. -/
def refsOk (input : InterpreterInput) (refs : List Json) : Bool :=
  refs ≠ [] && refs.length ≤ 16 && decide (refs.Pairwise (· ≠ ·)) &&
    refs.all fun ref => input.evidence.any fun e => ref = .string e.id

/-- The one choice of a response that ended by itself, without calls. -/
def choiceContent (root : Json) : Option Text := do
  let choices ← root.get? "choices"
  guard (choices.elements.length = 1)
  let choice ← choices.elements.head?
  let message ← choice.get? "message"
  guard (choice.get? "finish_reason" = some (.string "stop") &&
    message.get? "role" = some (.string "assistant") &&
    (message.get? "tool_calls").isNone && (message.get? "function_call").getD .null = .null)
  ((message.get? "content").bind Json.text?).filter fun content => content.length ≤ 16384

/-- `rc_interpreter_validate`. -/
def validate (J : Jansson) (body : Text) (input : InterpreterInput) : Option InterpreterResult := do
  guard (body.length ≤ 65536 && input.revision ≠ 0 && input.evidence.length ≤ 16)
  let root ← J.loadb body
  let content ← choiceContent root
  let state ← J.loadb content
  guard (objectSize state = 8 && state.get? "schema_version" = some (.string "trajectory.v1") &&
    state.get? "input_revision" = some (.string (decimal input.revision)))
  let _phase ← enumValue state "phase"
    ["planning", "implementing", "diagnosing", "verifying", "formatting", "unknown"]
  let nextAction ← enumValue state "next_action"
    ["plan", "edit", "root_cause_analysis", "run_checks", "format_result", "unknown"]
  let difficultyBand ← enumValue state "difficulty_band" ["simple", "moderate", "hard", "unknown"]
  let _progress ← enumValue state "progress_state"
    ["advancing", "blocked", "backtracking", "repeating", "unknown"]
  let coverage ← enumValue state "coverage" ["partial", "unknown"]
  let refs ← state.get? "evidence_refs"
  guard (refsOk input refs.elements)
  return ⟨input.key.taskGeneration, input.key.branch, input.revision, true, nextAction,
    difficultyBand, coverage⟩

/-- `perform`: the result for a response with status 200, or for none. -/
def perform (J : Jansson) (input : InterpreterInput) (response : Option Text) : InterpreterResult :=
  (response.bind fun body => validate J body input).getD
    ⟨input.key.taskGeneration, input.key.branch, input.revision, false, [], [], []⟩

/-- A result is for the key and the revision of its job. -/
structure ResultOf (input : InterpreterInput) (result : InterpreterResult) : Prop where
  generation : result.generation = input.key.taskGeneration
  branch : result.branch = input.key.branch
  revision : result.revision = input.revision

theorem validate_resultOf {J : Jansson} {body : Text} {input : InterpreterInput}
    {result : InterpreterResult} (h : validate J body input = some result) :
    ResultOf input result := by
  unfold validate at h
  simp only [Option.bind_eq_bind, Option.bind_eq_some_iff, Option.pure_def, Option.some.injEq] at h
  obtain ⟨_, -, _, -, _, -, _, -, _, -, _, -, _, -, _, -, _, -, _, -, _, -, _, -, hresult⟩ := h
  rw [← hresult]
  exact ⟨rfl, rfl, rfl⟩

theorem perform_resultOf (J : Jansson) (input : InterpreterInput) (response : Option Text) :
    ResultOf input (perform J input response) := by
  unfold perform
  cases hvalid : response.bind fun body => validate J body input with
  | none => exact ⟨rfl, rfl, rfl⟩
  | some result =>
      obtain ⟨body, -, hbody⟩ := Option.bind_eq_some_iff.mp hvalid
      exact validate_resultOf hbody

/-! ## The slots -/

/-- A slot of the worker.  A slot that is done still holds its job. -/
inductive Job where
  | free
  | pending (input : InterpreterInput)
  | running (input : InterpreterInput)
  | done (input : InterpreterInput) (result : InterpreterResult)
  deriving DecidableEq

abbrev Worker := Fin GatewayContext.interpreterCapacity → Job

namespace Worker

def idle : Worker := fun _ => .free

/-- `input_valid`. -/
def inputValid (input : InterpreterInput) : Bool :=
  input.revision ≠ 0 && input.evidence ≠ [] && input.evidence.length ≤ 16 &&
    Context.validKey input.key &&
    (input.evidence.all fun e => e.id ≠ [] && e.id.length < 129 && e.text.length < 1025 &&
      [text "executor", text "exposed_plan", text "model_claim",
        text "coverage_notice"].contains e.source) &&
    decide ((input.evidence.map Segment.id).Pairwise (· ≠ ·))

variable (w : Worker)

def jobs : List (Fin GatewayContext.interpreterCapacity) := List.finRange _

/-- `rc_interpreter_try_submit`, when the worker's lock was free. -/
def submit (input : InterpreterInput) : Option Worker :=
  if inputValid input then
    (jobs.find? fun i => w i = .free).map fun i => Function.update w i (.pending input)
  else none

/-- `rc_interpreter_poll`, when the worker's lock was free: the first result that is there. -/
def poll : Option (InterpreterResult × Worker) :=
  jobs.findSome? fun i =>
    match w i with
    | .done _ result => some (result, Function.update w i .free)
    | _ => none

/-- What the thread does: it takes the first job that waits, and it leaves the result of its job. -/
inductive Moves (J : Jansson) (w : Worker) : Worker → Prop
  | take (i : Fin GatewayContext.interpreterCapacity) (input : InterpreterInput) :
      (∀ j other, w j ≠ .running other) → w i = .pending input →
      (∀ j < i, ∀ other, w j ≠ .pending other) → Moves J w (Function.update w i (.running input))
  | leave (i : Fin GatewayContext.interpreterCapacity) (input : InterpreterInput)
      (response : Option Text) : w i = .running input →
      Moves J w (Function.update w i (.done input (perform J input response)))

/-- The polls of one `poll_locked`, with what the thread does meanwhile.  A poll finds nothing when
no result is there or the lock is taken. -/
inductive Polls (J : Jansson) : Worker → List InterpreterResult → Worker → Prop
  | stop (w : Worker) : Polls J w [] w
  | work {w v u : Worker} {results : List InterpreterResult} : Moves J w v →
      Polls J v results u → Polls J w results u
  | next {w v u : Worker} {result : InterpreterResult} {results : List InterpreterResult} :
      w.poll = some (result, v) → Polls J v results u → Polls J w (result :: results) u

/-! ## What the slots hold -/

/-- Every job is among the submitted ones, and every result is the answer to its job. -/
def Holds (J : Jansson) (submitted : InterpreterInput → Prop) (w : Worker) : Prop :=
  ∀ i, match w i with
    | .free => True
    | .pending input | .running input => submitted input
    | .done input result => submitted input ∧ ∃ response, result = perform J input response

variable {J : Jansson} {submitted : InterpreterInput → Prop} {w}

theorem holds_idle : Holds J submitted idle := fun _ => trivial

theorem Holds.mono {more : InterpreterInput → Prop} (h : Holds J submitted w)
    (hmore : ∀ input, submitted input → more input) : Holds J more w := by
  intro i
  have hi := h i
  cases hjob : w i with
  | free => trivial
  | pending input =>
      rw [hjob] at hi
      exact hmore input hi
  | running input =>
      rw [hjob] at hi
      exact hmore input hi
  | done input result =>
      rw [hjob] at hi
      exact ⟨hmore input hi.1, hi.2⟩

/-- A slot is given what it may hold. -/
theorem Holds.update {i : Fin GatewayContext.interpreterCapacity} {job : Job}
    (h : Holds J submitted w) (hjob : Holds J submitted fun _ => job) :
    Holds J submitted (Function.update w i job) := by
  intro j
  by_cases hji : j = i
  · rw [hji, Function.update_self]
    exact hjob i
  · rw [Function.update_of_ne hji]
    exact h j

theorem Holds.submit {input : InterpreterInput} {v : Worker} (h : Holds J submitted w)
    (hinput : submitted input) (hsubmit : w.submit input = some v) : Holds J submitted v := by
  unfold Worker.submit at hsubmit
  split at hsubmit
  · obtain ⟨i, -, rfl⟩ := Option.map_eq_some_iff.mp hsubmit
    exact h.update fun _ => hinput
  · cases hsubmit

theorem Holds.poll {result : InterpreterResult} {v : Worker} (h : Holds J submitted w)
    (hpoll : w.poll = some (result, v)) :
    Holds J submitted v ∧ ∃ input response, submitted input ∧ result = perform J input response := by
  unfold Worker.poll at hpoll
  obtain ⟨i, -, hi⟩ := List.exists_of_findSome?_eq_some hpoll
  have hheld := h i
  split at hi
  · next input found hjob =>
      rw [hjob] at hheld
      obtain ⟨rfl, rfl⟩ := Prod.mk.inj (Option.some.inj hi)
      obtain ⟨hsubmitted, response, hresult⟩ := hheld
      exact ⟨h.update fun _ => trivial, input, response, hsubmitted, hresult⟩
  · cases hi

theorem Holds.moves {v : Worker} (h : Holds J submitted w) (hmoves : Moves J w v) :
    Holds J submitted v := by
  cases hmoves with
  | take i input _ hpending _ =>
      have hi := h i
      rw [hpending] at hi
      exact h.update fun _ => hi
  | leave i input response hrunning =>
      have hi := h i
      rw [hrunning] at hi
      exact h.update fun _ => ⟨hi, response, rfl⟩

/-- Every polled result is the answer to a submitted job. -/
theorem Holds.polls {results : List InterpreterResult} {v : Worker} (h : Holds J submitted w)
    (hpolls : Polls J w results v) : Holds J submitted v ∧ ∀ result ∈ results,
      ∃ input response, submitted input ∧ result = perform J input response := by
  induction hpolls with
  | stop => exact ⟨h, nofun⟩
  | work hmoves _ ih => exact ih (h.moves hmoves)
  | next hpoll _ ih =>
      obtain ⟨hnext, hfirst⟩ := h.poll hpoll
      obtain ⟨hlast, hrest⟩ := ih hnext
      refine ⟨hlast, fun result hresult => ?_⟩
      cases List.mem_cons.mp hresult with
      | inl heq => exact heq ▸ hfirst
      | inr hmem => exact hrest result hmem

end Worker

end Recursant.Gateway
