import Recursant.Compliance.Classifier

/-!
# The structural contract, the verdict and the gate

The second half of `classifier.c`: what members a body may have, the verdict on a whole body, and
the gate that vets a body for its destination.
-/

namespace Recursant.Compliance

variable (r : Runtime) (p : Policy)

def stringAt (key : Text) (o : Json) : Option Text := (o.get? key).bind Json.text?

/-! ## Structural contract -/

/-- The arguments must be the text of one object; the scan has decoded them already. -/
def functionCall (call : Json) : Bool :=
  knownKeys call "|name||arguments|" && (stringAt "name" call).isSome &&
    (stringAt "arguments" call).any fun args => (r.jansson.loadb args).any Json.isObject

def functionDefinition (f : Json) : Bool :=
  knownKeys f "|name||description||parameters||strict|" && (stringAt "name" f).isSome

/-- Replayed reasoning is inspectable on an assistant message whose elements are all recorded. -/
def replayedPublicReasoning (message : Json) : Bool :=
  (message.get? "reasoning_details").all fun details =>
    stringAt "role" message = some (text "assistant") && p.provenance.known r.jansson details

/-- `json_is_array` with a test of every element. -/
def allElements (test : Json → Bool) : Json → Bool
  | .array elements => elements.all test
  | _ => false

def toolCall (call : Json) : Bool :=
  knownKeys call "|id||type||function|" && stringAt "type" call = some (text "function") &&
    (call.get? "function").any (functionCall r)

def textPart (part : Json) : Bool :=
  knownKeys part "|type||text|" && stringAt "type" part = some (text "text") &&
    (stringAt "text" part).isSome

def contentOk : Json → Bool
  | .null => true
  | .string _ => true
  | content => allElements textPart content

def messageKeys : Text :=
  "|role||content||name||tool_calls||tool_call_id||function_call||refusal||reasoning_details|"

def messageOk (message : Json) : Bool :=
  knownKeys message messageKeys && replayedPublicReasoning r p message &&
    (message.get? "function_call").all (functionCall r) &&
    (message.get? "tool_calls").all (allElements (toolCall r)) &&
    (message.get? "content").all contentOk

def tool (t : Json) : Bool :=
  knownKeys t "|type||function|" && stringAt "type" t = some (text "function") &&
    (t.get? "function").any functionDefinition

/-- The part of the contract that no destination changes. -/
def inspectableContent (body : Json) : Bool :=
  (body.get? "messages").any (allElements (messageOk r p)) &&
    (body.get? "tools").all (allElements tool) &&
    (body.get? "functions").all (allElements functionDefinition)

def bodyKeys : Text :=
  text "|model||messages||tools||tool_choice||functions||function_call||temperature||top_p|" ++
  text "|max_tokens||max_completion_tokens||stream||stream_options||stop||seed|" ++
  text "|frequency_penalty||presence_penalty||logprobs||top_logprobs||logit_bias||n||user|" ++
  text "|metadata||response_format||reasoning||reasoning_effort||parallel_tool_calls||provider|" ++
  text "|cache_control||store|"

def cacheControlOk (cache : Json) : Bool :=
  knownKeys cache "|type||ttl|" && stringAt "type" cache = some (text "ephemeral") &&
    ((cache.get? "ttl").isNone || stringAt "ttl" cache = some (text "5m") ||
      stringAt "ttl" cache = some (text "1h"))

/-- `controls` is the destination adapter's list of provider controls; without one a `provider`
member is an unknown field. -/
def inspectableControls (controls : Option Text) (body : Json) : Bool :=
  knownKeys body bodyKeys &&
    (body.get? "store").all (· = .bool false) &&
    (body.get? "cache_control").all cacheControlOk &&
    (body.get? "provider").all fun provider =>
      controls.any (knownKeys provider) && (provider.get? "allow_fallbacks").all Json.isBool

def inspectable (controls : Option Text) (body : Json) : Bool :=
  inspectableControls controls body && inspectableContent r p body

/-! ## Verdict -/

/-- The verdict of a whole scan. -/
def scanVerdict (s : Scan) (start : Counters) : Verdict :=
  match s.run start with
  | .ok _ _ => .clean
  | .error veto _ => veto.verdict

/-- `classify` without a memo.  With scanning switched off only the structural contract decides,
and says so. -/
def classify (body : Json) (controls : Option Text) : Verdict :=
  if !r.contentScanning then if inspectable r p controls body then .unscanned else .unknown
  else
    let result := scanVerdict (scan r p (maxDepth + 1) body) ⟨0, 0, 0⟩
    if result = .clean && !inspectable r p controls body then .unknown else result

/-! ## Gate -/

def Verdict.passes (v : Verdict) : Bool := v = .clean || v = .unscanned

/-- The adapter of the provider that a body and a trust class are dispatched to. -/
def destination (body : Json) (trust : Endpoint) : Option ProviderAdapter :=
  (dispatchProvider r.config trust (modelOf body)).bind fun provider =>
    adapterFind provider.adapter

/-- What a gate call leaves behind; it is refused when `admitted` is false. -/
structure Gated where
  admitted : Bool
  body : Json
  endpoint : Endpoint
  deriving DecidableEq

/-- The private redirection of a vetoed public body. -/
def redirect (body : Json) : Gated :=
  match body.set? "model" (r.config.privateModel.map .string) with
  | none => ⟨false, body, .priv⟩
  | some redirected => ⟨true, redirected, .priv⟩

/-- Takes the decoration's `provider` member back. -/
def restoreProvider (original : Option Json) (decorated : Json) : Option Json :=
  match original with
  | some provider => decorated.set? "provider" (some provider)
  | none => some (decorated.del "provider")

/-- The last step of a public body: the exact object with its decoration must itself pass,
including its controls, or its `provider` is taken back and it goes private. -/
def vetDecorated (verdict : Json → Option Text → Verdict) (controls : Option Text) (body : Json) :
    Option Json → Gated
  | none => ⟨false, body, .pub⟩
  | some decorated =>
      if (verdict decorated controls).passes then ⟨true, decorated, .pub⟩
      else
        match restoreProvider (body.get? "provider") decorated with
        | none => ⟨false, decorated, .priv⟩
        | some restored => redirect r restored

/-- `rc_compliance_gate` over a verdict function. -/
def gateWith (verdict : Json → Option Text → Verdict) (body : Json) (endpoint : Endpoint) : Gated :=
  let adapter := destination r body endpoint
  let controls := adapter.bind (·.providerControlKeys)
  if !r.publicAllowed || !(verdict body controls).passes then
    match endpoint with
    | .pub => redirect r body
    | .priv => ⟨true, body, .priv⟩
  else
    match endpoint, adapter.bind (·.decorateRequest) with
    | .pub, some decorate => vetDecorated r verdict controls body (decorate body)
    | _, _ => ⟨true, body, endpoint⟩

/-- `rc_compliance_gate` outside a memo. -/
def gate (body : Json) (endpoint : Endpoint) : Gated :=
  if !r.complianceEnabled then ⟨true, body, endpoint⟩
  else
    match r.policy with
    | none => ⟨false, body, endpoint⟩
    | some p => gateWith r (classify r p) body endpoint

end Recursant.Compliance
