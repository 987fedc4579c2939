import Recursant.Lib.Dict
import Mathlib.Tactic

/-!
# The correlation adapter

The adapter annotates model requests with the caller's identity and a fresh attempt token, and
reports what became of them: a response, a tool result, a revocation.  Its callbacks run one at a
time under its lock.  Strings are lists of code points, values of other types are told apart and not
looked into, and a callback answers with the events that it hands to `emit`.
-/

namespace Recursant.Bridge

abbrev Str := List Nat

/-- A literal of the source. -/
def str (s : String) : Str := s.toList.map Char.toNat

instance : Coe String Str := ⟨str⟩

/-- A value of a keyword argument; `none` when it is absent. -/
inductive Value where
  | none
  | str (s : Str)
  | int (n : Int)
  | bool (b : Bool)
  | other (object : Nat)
  deriving DecidableEq

/-- `==`, for which `True` is one and `False` is zero. -/
def Value.eq : Value → Value → Bool
  | .int n, .bool b | .bool b, .int n => n == (if b then 1 else 0)
  | v, w => v == w

/-! ## Arguments -/

/-- A key of a header mapping: a string, or another object with what `str` shows of it. -/
inductive Name where
  | str (s : Str)
  | other (object : Nat) (shown : Str)
  deriving DecidableEq

instance : Coe String Name := ⟨fun s => .str (str s)⟩

def Name.shown : Name → Str
  | .str s => s
  | .other _ s => s

/-- `extra_headers` of a request, by what `dict` makes of it: its pairs, an error that the adapter
catches, or another one. -/
inductive Headers where
  | pairs (items : List (Name × Value))
  | malformed
  | failing
  deriving DecidableEq

structure Request where
  fields : Dict Str Value
  extraHeaders : Headers
  deriving DecidableEq

/-- `tool_calls` of a message by the `id` of each call; it may be something that has no slices. -/
inductive ToolCalls where
  | listed (ids : List Value)
  | unsliceable
  deriving DecidableEq

structure Message where
  content : Value
  reasoningContent : Value
  toolCalls : ToolCalls
  deriving DecidableEq

/-- The keyword arguments of a callback. -/
structure Context where
  taskId : Value
  sessionId : Value
  turnId : Value
  apiRequestId : Value
  apiCallCount : Value
  baseUrl : Value
  finishReason : Value
  assistantMessage : Message
  toolCallId : Value
  status : Value
  result : Value
  deriving DecidableEq

structure Identity where
  taskId : Str
  sessionId : Str
  turnId : Str
  apiRequestId : Str
  deriving DecidableEq

/-- `[!-~]{1,bound}` -/
def isToken (bound : Nat) (s : Str) : Bool :=
  1 ≤ s.length && s.length ≤ bound && s.all fun c => 33 ≤ c && c ≤ 126

def Value.token? (v : Value) (bound : Nat) : Option Str :=
  match v with
  | .str s => if isToken bound s then some s else Option.none
  | _ => Option.none

def identity (c : Context) : Option Identity :=
  match c.taskId.token? 128, c.sessionId.token? 128, c.turnId.token? 128,
    c.apiRequestId.token? 128 with
  | some taskId, some sessionId, some turnId, some apiRequestId =>
      some ⟨taskId, sessionId, turnId, apiRequestId⟩
  | _, _, _, _ => none

/-! ## Events -/

inductive Kind where
  | response
  | tool
  | invalidation
  deriving DecidableEq

inductive Association where
  | exact
  | ambiguous
  | missing
  | missingOrAmbiguous
  deriving DecidableEq

structure Event where
  kind : Kind
  association : Association
  identity : Option Identity
  attempt : Option Str := none
  toolCallId : Option Str := none
  status : Option Str := none
  text : Option (Dict Str Str) := none
  textTruncated : Option (Dict Str Bool) := none
  routingEligible : Bool
  associationScope : Str := "middleware_invocation"
  physicalRoutingEligible : Bool := false
  physicalAttemptUniqueness : Str := "unproven"
  streamAssociation : Option Str := none
  deriving DecidableEq

/-! ## State -/

/-- The token of an invocation; `uses` is 1 while its identity was used for nothing else. -/
structure Attempt where
  token : Str
  uses : Nat
  deriving DecidableEq

structure Adapter where
  endpoint : Value
  attempts : Dict Identity Attempt
  tools : Dict Identity (List Str)
  contentEnabled : Bool

def Adapter.init (endpoint : Value) (contentEnabled : Bool) : Adapter :=
  ⟨endpoint, [], [], contentEnabled⟩

/-- What a callback returned or raised, and the events it handed to `emit`. -/
structure Answer where
  returned : Option Request := none
  raised : Bool := false
  events : List Event := []
  deriving DecidableEq

namespace Adapter

def attempt (a : Adapter) (key : Option Identity) : Option Attempt := key.bind a.attempts.get?

/-- The token of an attempt that was used once: `attempts and attempts[1] == 1`. -/
def exactToken (a : Adapter) (key : Option Identity) : Option Str :=
  (a.attempt key).bind fun attempt => if attempt.uses = 1 then some attempt.token else none

def listed (a : Adapter) (key : Option Identity) : Option (List Str) := key.bind a.tools.get?

/-! ## Callbacks -/

/-- `_invalidate` -/
def invalidate (a : Adapter) (key : Option Identity) : List Event × Adapter :=
  match key with
  | none => ([], a)
  | some k =>
      match a.attempts.get? k with
      | none => ([], a)
      | some previous =>
          ([{ kind := .invalidation, attempt := some previous.token, association := .ambiguous,
              routingEligible := false, identity := some k }],
            { a with attempts := a.attempts.set k ⟨previous.token, 2⟩, tools := a.tools.pop k })

def error (a : Adapter) (c : Context) : Answer × Adapter :=
  let (events, a) := a.invalidate (identity c)
  ({ events }, a)

/-- The identifiers among the first 32 tool calls. -/
def callIds (ids : List Value) : List Str :=
  (ids.take 32).filterMap fun id =>
    match id with
    | .str s => if s.length ≤ 128 then some s else none
    | _ => none

/-- The entries of an event's text that are strings and not empty. -/
def segments (entries : List (Str × Value)) : Dict Str Str :=
  entries.filterMap fun e =>
    match e.2 with
    | .str s => if s = [] then none else some (e.1, s)
    | _ => none

def clipped (text : Dict Str Str) : Dict Str Str := text.map fun e => (e.1, e.2.take 2048)

def truncated (text : Dict Str Str) : Dict Str Bool := text.map fun e => (e.1, 2048 < e.2.length)

/-- The response ended its turn, with a stop or with tool calls. -/
def completed (c : Context) : Bool :=
  c.finishReason == .str "stop" || c.finishReason == .str "tool_calls"

/-- The event of an exact response. -/
def exactResponse (a : Adapter) (k : Identity) (token : Str) (m : Message) : Event :=
  let text := segments [("assistant_plan", m.content), ("reasoning", m.reasoningContent)]
  let exposed := a.contentEnabled && !text.isEmpty
  { kind := .response, association := .exact, routingEligible := true, identity := some k
    attempt := some token, streamAssociation := some "unsupported"
    text := if exposed then some (clipped text) else none
    textTruncated := if exposed then some (truncated text) else none }

/-- The event of a response that is not exact. -/
def doubtfulResponse (a : Adapter) (key : Option Identity) : Event :=
  { kind := .response, routingEligible := false, identity := key
    association := if (a.attempt key).isSome then .ambiguous else .missing
    streamAssociation := some "unsupported" }

/-- The rest of `response`, once a response that is out of order has revoked its attempt. -/
def associate (a : Adapter) (key : Option Identity) (m : Message) : Answer × Adapter :=
  match key, a.exactToken key with
  | some k, some token =>
      match m.toolCalls with
      -- The slice raises before the response is remembered.
      | .unsliceable => ({ raised := true }, a)
      | .listed ids =>
          ({ events := [a.exactResponse k token m] }, { a with tools := a.tools.set k (callIds ids) })
  | _, _ => ({ events := [a.doubtfulResponse key] }, a)

def response (a : Adapter) (c : Context) : Answer × Adapter :=
  let key := identity c
  if !c.baseUrl.eq a.endpoint then
    let (events, a) := a.invalidate key
    ({ events }, a)
  else
    let (revoked, a) :=
      if (a.listed key).isSome || !completed c then a.invalidate key else ([], a)
    let (answer, a) := a.associate key c.assistantMessage
    ({ answer with events := revoked ++ answer.events }, a)

/-- The attempt and the call that a tool result belongs to. -/
def joined (a : Adapter) (c : Context) : Option (Str × Str) :=
  match a.exactToken (identity c), c.toolCallId with
  | some token, .str call =>
      if call ∈ (a.listed (identity c)).getD [] then some (token, call) else none
  | _, _ => none

def statusOf (v : Value) : Str :=
  match v with
  | .str s => if s ∈ [str "ok", "success", "error", "blocked", "cancelled"] then s else "unknown"
  | _ => "unknown"

def tool (a : Adapter) (c : Context) : Answer × Adapter :=
  match a.joined c with
  | some (token, call) =>
      let text : Option (Dict Str Str) :=
        match a.contentEnabled, c.result with
        | true, .str s => some [(str "tool_result", s)]
        | _, _ => none
      let event : Event :=
        { kind := .tool, association := .exact, routingEligible := true, identity := identity c
          attempt := some token, toolCallId := some call, status := some (statusOf c.status)
          text := text.map clipped, textTruncated := text.map truncated }
      ({ events := [event] }, a)
  | none =>
      let event : Event :=
        { kind := .tool, association := .missingOrAmbiguous, routingEligible := false,
          identity := identity c }
      ({ events := [event] }, a)

/-- `type(count) is int and 0 <= count <= 999999999`; a `bool` is not an `int` here. -/
def counted (v : Value) : Option Nat :=
  match v with
  | .int n => if 0 ≤ n ∧ n ≤ 999999999 then some n.toNat else none
  | _ => none

/-- The name, in the case that the parameter `lower` folds to, is one of the router's. -/
def reserved (lower : Str → Str) (name : Name) : Bool :=
  (str "x-recursant-").isPrefixOf (lower name.shown)

/-- The correlation of a request: the call count, the identity and the attempt. -/
def correlation (k : Identity) (count : Nat) (token : Str) : List (Name × Value) :=
  [("X-Recursant-api-call-count", .str (str (toString count))),
    ("X-Recursant-task-id", .str k.taskId), ("X-Recursant-session-id", .str k.sessionId),
    ("X-Recursant-turn-id", .str k.turnId), ("X-Recursant-api-request-id", .str k.apiRequestId),
    ("X-Recursant-attempt", .str token)]

/-- `token` is what `uuid4` gives to this invocation. -/
def request (lower : Str → Str) (a : Adapter) (r : Request) (c : Context) (token : Str) :
    Answer × Adapter :=
  let (revoked, a) := a.invalidate (identity c)
  match identity c, counted c.apiCallCount with
  | some k, some count =>
      if !c.baseUrl.eq a.endpoint then ({ events := revoked }, a)
      else
        match r.extraHeaders with
        | .malformed => ({ events := revoked }, a)
        | .failing => ({ raised := true, events := revoked }, a)
        | .pairs items =>
            let headers : Dict Name Value := .ofPairs items
            if headers.any fun e => reserved lower e.1 then
              let (again, a) := a.invalidate (some k)
              ({ events := revoked ++ again }, a)
            else
              let headers := headers.update (correlation k count token)
              let previous := a.attempts.get? k
              let attempts :=
                if previous.isSome || a.attempts.length < 256 then
                  a.attempts.set k ⟨token, if previous.isSome then 2 else 1⟩
                else a.attempts
              ({ returned := some { r with extraHeaders := .pairs headers }, events := revoked },
                { a with attempts })
  | _, _ => ({ events := revoked }, a)

end Adapter

/-! ## Runs -/

inductive Call where
  | request (request : Request) (context : Context) (token : Str)
  | response (context : Context)
  | tool (context : Context)
  | error (context : Context)
  deriving DecidableEq

def Call.context : Call → Context
  | .request _ c _ | .response c | .tool c | .error c => c

def Call.key (call : Call) : Option Identity := identity call.context

def step (lower : Str → Str) (a : Adapter) : Call → Answer × Adapter
  | .request r c token => a.request lower r c token
  | .response c => a.response c
  | .tool c => a.tool c
  | .error c => a.error c

end Recursant.Bridge
