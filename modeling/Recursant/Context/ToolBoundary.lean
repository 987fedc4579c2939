import Recursant.Equality
import Recursant.Lib.Checklist

/-!
# The tool boundary

`tool_boundary.c`.  A boundary is the history of a conversation and the observed assistant message
with its calls.  A replay is that history, an equivalent message and one result for each call.
Strings hold no NUL: the library refuses to read one.
-/

namespace Recursant.ToolBoundary

def maxBytes : Nat := 4194304

def maxMessages : Nat := 4096

def maxCalls : Nat := 32

def maxHistoryCalls : Nat := 1024

def maxIdBytes : Nat := 128

def maxTextParts : Nat := 64

def maxReasoning : Nat := 64

/-! ## Capabilities -/

def capHistory : UInt32 := 1

def capFunctions : UInt32 := 2

def capParallel : UInt32 := 4

/-- `rc_tool_status`, without the allocation failure. -/
inductive Status where
  | complete
  | incomplete
  | invalid
  | limit
  deriving DecidableEq, Repr

/-- `json_loadb` with `JSON_REJECT_DUPLICATES`: an array or an object. -/
structure Loader where
  load : Text → Option Json
  proper : ∀ t v, load t = some v → v.proper = true

structure Boundary where
  history : List Json
  assistant : Json
  reasoning : Option (List Json) := none
  requirements : UInt32 := 0
  deriving DecidableEq

/-! ## Messages -/

/-- The members of an object, none for a value that is no object. -/
def membersOf : Json → List (Text × Json)
  | .object members => members
  | _ => []

/-- `json_object_size` -/
def objectSize (v : Json) : Nat := (membersOf v).length

/-- `text` -/
def isText (v : Option Json) (expected : Text) : Bool := v = some (.string expected)

def isString (v : Option Json) : Bool := v.any Json.isString

/-- A string that is not empty. -/
def isFilled (v : Option Json) : Bool := (v.bind Json.text?).any (· ≠ [])

/-- `nul_free` -/
def nulFree (v : Option Json) : Bool := (v.bind Json.text?).any (!·.contains 0)

def textPart (part : Json) : Bool :=
  part.isObject && objectSize part = 2 && isText (part.get? "type") "text" &&
    nulFree (part.get? "text")

/-- `rc_tool_text_content` -/
def textContent (content : Option Json) : Bool :=
  nulFree content ||
    content.any fun v => v.isArray && v.elements ≠ [] && v.elements.length ≤ maxTextParts &&
      v.elements.all textPart

/-- `reasoning_shape` -/
def reasoningShape (v : Json) : Bool :=
  match v.get? "reasoning_details" with
  | none => true
  | some r => isText (v.get? "role") "assistant" && r.isArray && r.elements ≠ [] &&
      r.elements.length ≤ maxReasoning && r.elements.all Json.isObject

/-- `reasoning_member` -/
def reasoningMember (v : Json) : Nat := if (v.get? "reasoning_details").isSome then 1 else 0

def contentMember (v : Json) : Nat := if (v.get? "content").isSome then 1 else 0

def plain (v : Json) : Bool :=
  v.isObject && objectSize v = 2 + reasoningMember v && reasoningShape v &&
    (isText (v.get? "role") "user" || isText (v.get? "role") "system" ||
      isText (v.get? "role") "assistant") &&
    textContent (v.get? "content")

/-- The elements of `tool_calls`. -/
def callsOf (v : Json) : List Json := ((v.get? "tool_calls").map Json.elements).getD []

/-- The id of a call, or the call that a result is for. -/
def textAt (v : Json) (key : Text) : Option Text := (v.get? key).bind Json.text?

def idsOf (v : Json) : List Text := (callsOf v).filterMap (textAt · "id")

def callValid (c : Json) : Bool :=
  c.isObject && objectSize c = 3 && isFilled (c.get? "id") &&
    (textAt c "id").all (·.length ≤ maxIdBytes) && isText (c.get? "type") "function" &&
    (c.get? "function").any fun f =>
      f.isObject && objectSize f = 2 && isFilled (f.get? "name") && isString (f.get? "arguments")

/-- `calls_valid`; the ids of valid calls are strings. -/
def callsValid (v : Json) : Bool :=
  v.isObject && objectSize v = 2 + contentMember v + reasoningMember v && reasoningShape v &&
    isText (v.get? "role") "assistant" &&
    (v.get? "content").all (fun content => content = .null || content.isString) &&
    (v.get? "tool_calls").any Json.isArray && callsOf v ≠ [] && (callsOf v).length ≤ maxCalls &&
    (callsOf v).all callValid && decide (idsOf v).Nodup

/-! ## The history -/

/-- The scan of a history: the ids used before the last call message, those of that message with
their results seen, how many are missing, and the requirements so far. -/
structure Walk where
  before : List Text := []
  block : List (Text × Bool) := []
  pending : Nat := 0
  requirements : UInt32 := 0

def Walk.used (w : Walk) : List Text := w.before ++ w.block.map Prod.fst

/-- A tool result, whichever call it is for. -/
def isResult (m : Json) : Bool :=
  m.isObject && objectSize m = 3 && isText (m.get? "role") "tool" && isString (m.get? "content")

/-- A message while results are missing. -/
def stepResult (w : Walk) (m : Json) : Except Status Walk :=
  if isResult m then
    match (textAt m "tool_call_id").bind (Checklist.tick · w.block) with
    | some block => .ok { w with block := block, pending := w.pending - 1 }
    | none => .error .invalid
  else .error .invalid

/-- Each new id is compared with those before it. -/
def enter (used : List Text) : List Text → Option (List Text)
  | [] => some used
  | id :: rest => if used.contains id then none else enter (used ++ [id]) rest

/-- A call message. -/
def stepCalls (w : Walk) (m : Json) : Except Status Walk :=
  if callsValid m then
    let ids := idsOf m
    if ids.length > maxHistoryCalls - w.used.length then .error .limit
    else match enter w.used ids with
      | some _ => .ok
          { before := w.used
            block := Checklist.fresh ids
            pending := ids.length
            requirements := w.requirements ||| (capHistory ||| capFunctions) |||
              if ids.length > 1 then capParallel else 0 }
      | none => .error .invalid
  else .error .invalid

/-- One round of `history_valid` on a message of the history. -/
def step (w : Walk) (m : Json) : Except Status Walk :=
  if w.pending ≠ 0 then stepResult w m
  else if plain m then .ok w
  else stepCalls w m

/-- The last round, on the observed message. -/
def stepLast (w : Walk) (assistant : Json) : Except Status Walk :=
  if w.pending ≠ 0 then .error .invalid else stepCalls w assistant

/-- `history_valid` -/
def historyValid (history : List Json) (assistant : Json) : Except Status Walk := do
  let w ← history.foldlM step {}
  stepLast w assistant

/-- `rc_tool_boundary_capture` on what the texts were read as. -/
def captureTree (history assistant : Option Json) : Status × Option Boundary :=
  match history, assistant with
  | some (.array history), some assistant =>
      if !callsValid assistant then (.invalid, none)
      else if history.length + 1 + (callsOf assistant).length > maxMessages then (.limit, none)
      else match historyValid history assistant with
        | .ok w => (.complete, some { history, assistant, requirements := w.requirements })
        | .error status => (status, none)
  | _, _ => (.invalid, none)

/-- `rc_tool_boundary_capture` -/
def capture (loader : Loader) (h a : Text) : Status × Option Boundary :=
  if h.length > maxBytes || a.length > maxBytes then (.limit, none)
  else captureTree (loader.load h) (loader.load a)

/-- `rc_tool_boundary_set_reasoning`: the boundary afterwards, and whether the elements are taken. -/
def setReasoning (b : Boundary) (elements : Option Json) : Boundary × Bool :=
  match elements with
  | none => ({ b with reasoning := none }, true)
  | some v =>
      if v.isArray && v.elements ≠ [] && v.elements.length ≤ maxReasoning &&
          v.elements.all Json.isObject then
        ({ b with reasoning := some v.elements }, true)
      else ({ b with reasoning := none }, false)

/-- `rc_tool_boundary_candidate` -/
def candidate (b : Boundary) (known supported : UInt32) : Bool :=
  known &&& b.requirements = b.requirements && supported &&& b.requirements = b.requirements

/-! ## Replay -/

/-- `json_equal` on values that may be missing. -/
def equalAt (a b : Option Json) : Bool :=
  match a, b with
  | some x, some y => Json.equal x y
  | _, _ => false

/-- `args_equal` -/
def argsEqual (loader : Loader) (observed replayed : Option Json) : Bool :=
  match observed.bind Json.text?, replayed.bind Json.text? with
  | some o, some r => o = r || equalAt (loader.load o) (loader.load r)
  | _, _ => false

/-- `no_text` -/
def noText (v : Option Json) : Bool :=
  match v with
  | none | some .null => true
  | some (.string s) => s = []
  | some _ => false

/-- `members` -/
def members (o : Json) : Nat := objectSize o - contentMember o - reasoningMember o

/-- `reasoning_replayed` -/
def reasoningReplayed (replayed : Json) (observed : Option (List Json)) : Bool :=
  match replayed.get? "reasoning_details" with
  | none => true
  | some r => reasoningShape replayed && observed.any fun es =>
      r.elements.all fun e => es.any fun o => Json.equal e o

def functionEqual (loader : Loader) (observed replayed : Json) : Bool :=
  replayed.isObject && objectSize replayed = objectSize observed &&
    equalAt (replayed.get? "name") (observed.get? "name") &&
    argsEqual loader (observed.get? "arguments") (replayed.get? "arguments")

def callEqual (loader : Loader) (observed replayed : Json) : Bool :=
  replayed.isObject && objectSize replayed = objectSize observed &&
    (membersOf observed).all fun (k, v) => (replayed.get? k).any fun r =>
      if k ≠ text "function" then Json.equal r v else functionEqual loader v r

def callsEqual (loader : Loader) (observed replayed : Json) : Bool :=
  replayed.isArray && replayed.size = observed.size &&
    (observed.elements.zip replayed.elements).all fun (o, r) => callEqual loader o r

/-- `assistant_equal` -/
def assistantEqual (loader : Loader) (replayed observed : Json) (reasoning : Option (List Json)) :
    Bool :=
  replayed.isObject && members replayed = members observed &&
    (observed.get? "reasoning_details").isNone && reasoningReplayed replayed reasoning &&
    ((noText (replayed.get? "content") && noText (observed.get? "content")) ||
      equalAt (replayed.get? "content") (observed.get? "content")) &&
    (membersOf observed).all fun (k, v) => k = text "content" || (replayed.get? k).any fun r =>
      if k ≠ text "tool_calls" then Json.equal r v else callsEqual loader v r

/-- A result of the replay is ticked off among the calls. -/
def answer (seen : List (Text × Bool)) (r : Json) : Option (List (Text × Bool)) :=
  if isResult r && isString (r.get? "tool_call_id") then
    (textAt r "tool_call_id").bind (Checklist.tick · seen)
  else none

/-- `replay_tree` -/
def replayTree (loader : Loader) (b : Boundary) (v : Json) : Status :=
  let count := b.history.length
  let nc := (callsOf b.assistant).length
  let total := v.size
  if 0 < nc && nc ≤ maxCalls && v.isArray && count + 1 ≤ total && total ≤ count + 1 + nc &&
      (v.elements.zip b.history).all (fun (x, y) => Json.equal x y) &&
      assistantEqual loader (v.elements.getD count .null) b.assistant b.reasoning &&
      ((v.elements.drop (count + 1)).foldlM answer (Checklist.fresh (idsOf b.assistant))).isSome
  then if total = count + 1 + nc then .complete else .incomplete
  else .invalid

/-- `rc_tool_boundary_replay` -/
def replay (loader : Loader) (b : Boundary) (m : Text) : Status :=
  if m.length > maxBytes then .limit
  else match loader.load m with
    | some v => replayTree loader b v
    | none => .invalid

end Recursant.ToolBoundary
