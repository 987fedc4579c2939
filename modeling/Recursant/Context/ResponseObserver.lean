import Recursant.Context.StreamTools
import Recursant.Context.ToolBoundary
import Recursant.Lib.Register

/-!
# The response observer

`response_observer.c`.  The observer reads the bytes of a streamed response: lines, events, and the
chunks that the events hold.  A failure is final and nothing but the flag is read after it, so what
a failing chunk had written before is not kept.
-/

namespace Recursant.ResponseObserver

open StreamTools (Tools utf8 noNul)
open ToolBoundary (Loader)

/-- `RC_RESPONSE_LIMIT` -/
def responseLimit : Nat := 65536

/-- `RC_RESPONSE_WIRE_LIMIT` -/
def wireLimit : Nat := 67108864

/-- `RC_REASONING_MAX_ELEMENTS` -/
def reasoningMaxElements : Nat := 64

/-- `RC_REASONING_MAX_BYTES` -/
def reasoningMaxBytes : Nat := 262144

/-- What is set at the allocation. -/
structure Dialect where
  strictOpenai : Bool := false
  dropReasoning : Bool := false
  deriving DecidableEq, Repr

/-! ## Fields -/

/-- `keys`: the nullable members must be null. -/
def keys (ordinary nullable : Text) : Json → Bool
  | .object members => members.all fun (k, v) =>
      k ≠ [] && !k.contains 124 && k.length + 2 < 128 &&
        (hasText (Delimited.token 124 k) ordinary ||
          (hasText (Delimited.token 124 k) nullable && v = .null))
  | _ => false

/-- `string_is` -/
def stringIs (v : Option Json) (s : Text) : Bool := v = some (.string s)

/-- `json_integer_value` -/
def integerValue : Option Json → Int
  | some (.integer n) => n
  | _ => 0

/-- An integer that is not negative. -/
def natural : Json → Bool
  | .integer n => 0 ≤ n
  | _ => false

/-- The members of an object all pass a test. -/
def everyMember (p : Json → Bool) : Json → Bool
  | .object members => members.all fun m => p m.2
  | _ => true

def counts (allowed : Text) (v : Json) : Bool := keys allowed [] v && everyMember natural v

def cost (v : Json) : Bool := v.number?.any (0 ≤ ·)

def costs (v : Json) : Bool :=
  keys (text "|upstream_inference_cost||upstream_inference_prompt_cost|" ++
    text "|upstream_inference_completions_cost|") [] v && everyMember cost v

def usageKeys (strict : Bool) : Text :=
  text "|prompt_tokens||completion_tokens||total_tokens|" ++
    text "|prompt_tokens_details||completion_tokens_details|" ++
    if strict then [] else text "|cost||is_byok||cost_details|"

def promptKeys (strict : Bool) : Text :=
  if strict then "|cached_tokens||audio_tokens|"
  else "|cached_tokens||cache_write_tokens||audio_tokens||video_tokens|"

def completionKeys (strict : Bool) : Text :=
  if strict then text "|reasoning_tokens||audio_tokens|" ++
    text "|accepted_prediction_tokens||rejected_prediction_tokens|"
  else text "|reasoning_tokens||image_tokens||audio_tokens|" ++
    text "|accepted_prediction_tokens||rejected_prediction_tokens|"

/-- A member that is missing, null or passes. -/
def nullOr (p : Json → Bool) (v : Option Json) : Bool := v.all fun v => v = .null || p v

/-- `usage` -/
def usageForm (strict : Bool) (v : Json) : Bool :=
  keys (usageKeys strict) [] v && (v.get? "prompt_tokens").any natural &&
    (v.get? "completion_tokens").any natural && (v.get? "total_tokens").any natural &&
    (v.get? "cost").all cost && (v.get? "is_byok").all Json.isBool &&
    (v.get? "cost_details").all costs &&
    nullOr (counts (promptKeys strict)) (v.get? "prompt_tokens_details") &&
    nullOr (counts (completionKeys strict)) (v.get? "completion_tokens_details")

/-- `usage_prompt`, `usage_completion` and `usage_cached`. -/
structure Usage where
  prompt : Int
  completion : Int
  cached : Int
  deriving DecidableEq, Repr

def usageOf (u : Json) : Usage where
  prompt := integerValue (u.get? "prompt_tokens")
  completion := integerValue (u.get? "completion_tokens")
  cached := integerValue ((u.get? "prompt_tokens_details").bind (·.get? "cached_tokens"))

/-- The four flags of the native finish reason. -/
structure Native where
  completed : Bool := false
  toolCalls : Bool := false
  toolUse : Bool := false
  endTurn : Bool := false
  deriving DecidableEq, Repr

def nativeOf (v : Option Json) : Native where
  completed := stringIs v "completed"
  toolCalls := stringIs v "tool_calls"
  toolUse := stringIs v "tool_use"
  endTurn := stringIs v "end_turn"

/-- The native reasons that go with each finish. -/
def nativeForm (native finish : Option Json) : Bool :=
  nullOr (fun _ =>
    (stringIs native "completed" && (stringIs finish "stop" || stringIs finish "tool_calls")) ||
    (stringIs native "tool_calls" && stringIs finish "tool_calls") ||
    (stringIs native "tool_use" && stringIs finish "tool_calls") ||
    (stringIs native "end_turn" && stringIs finish "stop")) native

/-! ## Reasoning details -/

structure Reasoning where
  elements : List Json := []
  bytes : Nat := 0
  failed : Bool := false
  deriving DecidableEq

/-- The member that a type of element puts its payload in. -/
def payloadField (e : Json) : Option Text :=
  if stringIs (e.get? "type") "reasoning.text" then some "text"
  else if stringIs (e.get? "type") "reasoning.summary" then some "summary"
  else if stringIs (e.get? "type") "reasoning.encrypted" then some "data"
  else none

/-- `reasoning_payload` -/
def reasoningPayload (e : Json) : Option Text :=
  match payloadField e with
  | none => none
  | some field =>
      let payload := e.get? field
      let sig := e.get? "signature"
      let signatureOnly := field = "text" && payload.isNone && sig.any Json.isString
      if keys "|type||text||summary||data||id||format||index||signature|" [] e &&
          (signatureOnly || payload.any noNul) &&
          (field = "text" || (e.get? "text").isNone) &&
          (field = "summary" || (e.get? "summary").isNone) &&
          (field = "data" || (e.get? "data").isNone) &&
          nullOr Json.isString (e.get? "id") && (e.get? "format").all Json.isString &&
          (e.get? "index").all (fun v => v matches .integer _) && nullOr Json.isString sig then
        some field
      else none

/-- `json_object_set` on an object. -/
def setAt (t : Json) (key : Text) (v : Json) : Json := (t.set? key (some v)).getD t

/-- `truthy_string` -/
def truthyString (v : Option Json) : Bool := (v.bind Json.text?).any (· ≠ [])

/-- `falsy_fill` -/
def falsyFill (s : Json) (key : Text) (t : Json) : Json :=
  if truthyString (t.get? key) then t
  else match s.get? key with
    | some v => setAt t key v
    | none => t.del key

/-- `nullish_fill` -/
def nullishFill (s : Json) (key : Text) (t : Json) : Json :=
  if (t.get? key).any (· ≠ .null) then t
  else match s.get? key with
    | some v => setAt t key v
    | none => t.del key

/-- A text or summary delta after an element of the same type. -/
def reasoningMerge (last e : Json) (field : Text) : Json :=
  let prev := last.get? field
  let more := e.get? field
  let joined := ((prev.bind Json.text?).getD []) ++ ((more.bind Json.text?).getD [])
  let last := if prev.isNone && more.isNone then last else setAt last field (.string joined)
  let last := if field = "text" then falsyFill e "signature" last else last
  nullishFill e "index" (falsyFill e "format" (nullishFill e "id" last))

/-- `reasoning_add` -/
def reasoningAdd (r : Reasoning) (e : Json) : Reasoning :=
  if r.failed then r
  else match reasoningPayload e with
    | none => { r with failed := true }
    | some field =>
        let n := (((e.get? field).bind Json.text?).getD []).length
        if n > reasoningMaxBytes - r.bytes then { r with failed := true }
        else
          let last := r.elements.getLast?
          if field ≠ "data" && last.any (fun l => l.get? "type" = e.get? "type") then
            { r with
              elements := r.elements.dropLast ++ (last.map (reasoningMerge · e field)).toList
              bytes := r.bytes + n }
          else if r.elements.length < reasoningMaxElements then
            { r with elements := r.elements ++ [e], bytes := r.bytes + n }
          else { r with failed := true }

/-! ## Chunks -/

/-- What the envelopes of the chunks have said. -/
structure Head where
  id : Option Text := none
  model : Option Text := none
  provider : Option Text := none
  created : Option Int := none
  usage : Option Usage := none
  deriving DecidableEq

/-- What the choices have said. -/
structure Body where
  text : Text := []
  tools : Option Tools := none
  toolUsed : Nat := 0
  toolsFailed : Bool := false
  toolFinish : Bool := false
  native : Native := {}
  accountingTail : Bool := false
  role : Bool := false
  finished : Bool := false
  reasoning : Reasoning := {}

/-- What the chunks have said so far. -/
structure Content extends Head, Body

/-- `identity`: the value to keep; the empty string of the code is `none`. -/
def identity (stored : Option Text) (v : Option Json) : Option (Option Text) :=
  match v with
  | none => some stored
  | some (.string s) =>
      if s = [] || s.length > 128 || s.contains 0 then none else Register.write stored (some s)
  | some _ => none

def rootKeys (strict : Bool) : Text :=
  text "|id||object||created||model|" ++ (if strict then [] else text "|provider|") ++
    text "|choices||usage||system_fingerprint||service_tier|"

def rootNullable : Text :=
  text "|prompt_logprobs||prompt_token_ids||prompt_text|" ++
    text "|kv_transfer_params||ec_transfer_params||metrics|"

/-- The checks of the root that look at this chunk alone. -/
def rootForm (m : Dialect) (root : Json) : Bool :=
  keys (rootKeys m.strictOpenai) rootNullable root &&
    nullOr (· = .string "default") (root.get? "service_tier") &&
    (root.get? "object").all (· = .string "chat.completion.chunk") &&
    (root.get? "created").all natural && (root.get? "system_fingerprint").all Json.isString &&
    nullOr (usageForm m.strictOpenai) (root.get? "usage")

/-- The counts of a chunk that reports some. -/
def usageAt (root : Json) : Option Usage :=
  match root.get? "usage" with
  | none | some .null => none
  | some u => some (usageOf u)

/-- The members of the root before `choices`; created and usage must not differ from those of
another chunk either. -/
def takeEnvelope (o : Head) (root : Json) : Option Head := do
  let id ← identity o.id (root.get? "id")
  let model ← identity o.model (root.get? "model")
  let provider ← identity o.provider (root.get? "provider")
  let created ← Register.write o.created ((root.get? "created").map (integerValue ∘ some))
  if (usageAt root).any (fun u => u.cached > u.prompt) then none
  else
    let usage ← Register.write o.usage (usageAt root)
    some { id := id, model := model, provider := provider, created := created, usage := usage }

/-- One empty-choices usage tail after the finish. -/
def takeTail (m : Dialect) (o : Body) (usage : Option Json) : Option Body :=
  if !o.finished || o.accountingTail || !usage.any (usageForm m.strictOpenai) then none
  else some { o with accountingTail := true }

def choiceKeys (strict : Bool) : Text :=
  text "|index||delta||finish_reason|" ++
    (if strict then [] else text "|native_finish_reason|") ++ text "|stop_reason|"

def deltaKeys (dropReasoning : Bool) : Text :=
  text "|role||content||tool_calls|" ++
    if dropReasoning then text "|reasoning||reasoning_content||reasoning_details|" else []

/-- The checks of a delta that look at it alone, those of its content and its calls apart. -/
def deltaForm (m : Dialect) (delta : Json) : Bool :=
  keys (deltaKeys m.dropReasoning) "|refusal||annotations||audio||function_call|" delta &&
    nullOr Json.isString (delta.get? "reasoning") &&
    nullOr Json.isString (delta.get? "reasoning_content") &&
    nullOr Json.isArray (delta.get? "reasoning_details")

/-- The checks of a choice that look at it alone. -/
def choiceForm (m : Dialect) (c : Json) : Bool :=
  keys (choiceKeys m.strictOpenai) "|logprobs||token_ids||routed_experts|" c &&
    c.get? "index" = some (.integer 0) && (c.get? "stop_reason").all natural &&
    nativeForm (c.get? "native_finish_reason") (c.get? "finish_reason") &&
    (c.get? "delta").any (deltaForm m)

/-- Reasoning after the finish is not part of the record. -/
def takeDetails (o : Body) (details : Option Json) : Body :=
  match details with
  | some (.array (e :: es)) =>
      let r := if o.finished then { o.reasoning with failed := true } else o.reasoning
      { o with reasoning := (e :: es).foldl reasoningAdd r }
  | _ => o

def finishName (tools : Bool) : Text := if tools then text "tool_calls" else text "stop"

/-- The terminal choice repeated with its accounting. -/
def takeRepeat (m : Dialect) (o : Body) (usage : Option Json) (c delta : Json) :
    Option Body :=
  if !o.finished then some o
  else if m.strictOpenai || o.accountingTail || !usage.any (usageForm m.strictOpenai) ||
      !stringIs (c.get? "finish_reason") (finishName o.toolFinish) ||
      (delta.get? "tool_calls").isSome || !(delta.get? "content").all (· = .string []) ||
      o.native ≠ nativeOf (c.get? "native_finish_reason") then none
  else some { o with accountingTail := true }

def takeRole (o : Body) (role : Option Json) : Option Body :=
  match role with
  | none => if o.role then some o else none
  | some v => if v = .string "assistant" then some { o with role := true } else none

def takeText (o : Body) (content : Option Json) : Option Body :=
  match content with
  | none | some .null => some o
  | some (.string s) =>
      if s.contains 0 || s.length > responseLimit - o.text.length then none
      else some { o with text := o.text ++ s }
  | some _ => none

/-- A failed assembly does not fail the response. -/
def takeCalls (o : Body) (calls : Option Json) : Option Body :=
  match calls with
  | none => some o
  | some (.array []) => some o
  | some (.array (e :: es)) =>
      if o.toolsFailed then some { o with toolUsed := o.toolUsed + 1 }
      else
        let r := StreamTools.feed (o.tools.getD {}) (.array (e :: es))
        some { o with tools := some r.1, toolsFailed := !r.2, toolUsed := o.toolUsed + 1 }
  | some _ => none

def takeFinish (o : Body) (finish native : Option Json) : Option Body :=
  match finish with
  | none => none
  | some .null => some o
  | some (.string s) =>
      let tools : Bool := s = "tool_calls"
      if !tools && s ≠ "stop" then none
      else if tools ≠ decide (o.toolUsed ≠ 0) then none
      else some { o with toolFinish := tools, native := nativeOf native, finished := true }
  | some _ => none

/-- A choice, after the checks of its form. -/
def takeChoice (m : Dialect) (o : Body) (usage : Option Json) (c delta : Json) :
    Option Body := do
  let o := takeDetails o (delta.get? "reasoning_details")
  let o ← takeRepeat m o usage c delta
  let o ← takeRole o (delta.get? "role")
  let o ← takeText o (delta.get? "content")
  let o ← takeCalls o (delta.get? "tool_calls")
  takeFinish o (c.get? "finish_reason") (c.get? "native_finish_reason")

/-- The members of the root from `choices` on. -/
def takeChoices (m : Dialect) (o : Body) (root : Json) : Option Body :=
  match root.get? "choices" with
  | some (.array []) => takeTail m o (root.get? "usage")
  | some (.array [c]) =>
      if choiceForm m c then
        (c.get? "delta").bind fun delta => takeChoice m o (root.get? "usage") c delta
      else none
  | _ => none

/-- `chunk` -/
def chunk (m : Dialect) (o : Content) (root : Option Json) : Option Content :=
  match root with
  | none => none
  | some root =>
      if !rootForm m root then none
      else (takeEnvelope o.toHead root).bind fun head =>
        (takeChoices m o.toBody root).map fun body => { toHead := head, toBody := body }

/-! ## Events and lines -/

/-- The observer between two lines. -/
structure Events where
  event : Text := []
  content : Content := {}
  done : Bool := false
  failed : Bool := false

/-- The observer between two bytes. -/
structure Decoder extends Events where
  line : Text := []
  cr : Bool := false

/-- The observer between two feeds. -/
structure Observer extends Decoder where
  total : Nat := 0

section Reading

variable (m : Dialect) (loader : Loader)

/-- The text of one event. -/
def eventText (o : Events) (t : Text) : Events :=
  if o.done then { o with failed := true }
  else if t = "[DONE]" then
    if o.content.finished then { o with done := true } else { o with failed := true }
  else match chunk m o.content (loader.load t) with
    | some content => { o with content := content }
    | none => { o with failed := true }

/-- `event`: each data line ended in a newline, and the last one is taken off. -/
def event (o : Events) : Events :=
  if o.event = [] then o
  else { eventText m loader o o.event.dropLast with event := [] }

/-- What a data line holds. -/
def payload (line : Text) : Text :=
  if (line.drop 5).head? = some 32 then line.drop 6 else line.drop 5

/-- `line` -/
def line (o : Events) (l : Text) : Events :=
  if l = [] then event m loader o
  else if l.head? = some 58 then if utf8 l then o else { o with failed := true }
  else if (text "data:").isPrefixOf l then
    if (payload l).length + 1 > responseLimit - o.event.length then { o with failed := true }
    else { o with event := o.event ++ payload l ++ [10] }
  else { o with failed := true }

/-- One byte of a feed. -/
def feedByte (o : Decoder) (c : Byte) : Decoder :=
  if c = 0 then { o with failed := true }
  else if o.cr && c = 10 then { o with cr := false }
  else if c = 13 || c = 10 then
    { toEvents := line m loader o.toEvents o.line, line := [], cr := c = 13 }
  else if o.line.length = responseLimit then { o with cr := false, failed := true }
  else { o with cr := false, line := o.line ++ [c] }

def feedBytes (o : Decoder) : Text → Decoder
  | [] => o
  | c :: rest => if o.failed then o else feedBytes (feedByte m loader o c) rest

/-- `rc_response_observer_feed` -/
def feed (o : Observer) (data : Text) : Observer :=
  if o.failed then o
  else if data.length > wireLimit - o.total then { o with failed := true }
  else { toDecoder := feedBytes m loader o.toDecoder data, total := o.total + data.length }

/-- The observer after consecutive feeds. -/
def feeds (o : Observer) (chunks : List Text) : Observer := chunks.foldl (feed m loader) o

end Reading

/-! ## Results -/

/-- A response that ended with everything delivered. -/
def complete (o : Decoder) : Bool :=
  !o.failed && o.done && o.content.finished && o.content.role && o.line = [] && o.event = []

/-- The message with its members; the content is checked by `json_pack`. -/
def messageJson (content : Text) (calls : Option Json) : Json :=
  .object ([(text "role", .string "assistant"), (text "content", .string content)] ++
    (calls.map fun v => (text "tool_calls", v)).toList)

/-- `rc_response_observer_message` -/
def message (dumps : Json → Option Text) (o : Decoder) : Option Json :=
  if !complete o || !utf8 o.content.text then none
  else if !o.content.toolFinish then some (messageJson o.content.text none)
  else
    match if o.content.toolsFailed then none
      else o.content.tools.bind (StreamTools.snapshot dumps) with
    | none => none
    | some calls =>
        let message := messageJson o.content.text (some calls)
        if (dumps message).any (·.length ≤ StreamTools.maxBytes) then some message else none

/-- `rc_response_observer_reasoning` -/
def reasoning (o : Decoder) : Option (List Json) :=
  if complete o && !o.content.reasoning.failed && o.content.reasoning.elements ≠ [] then
    some o.content.reasoning.elements
  else none

end Recursant.ResponseObserver
