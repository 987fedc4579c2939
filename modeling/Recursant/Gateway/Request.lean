import Recursant.Attempts.Ledger
import Recursant.Json

/-!
# What the gateway reads in a request

The field checks of `gateway_context.c`: tokens and allowed keys, the request headers, the tool and
option profile of a request, and how a conversation opens.
-/

namespace Recursant.Gateway

open Attempts (AttemptHeaders attemptHeader)

variable (jansson : Jansson)

/-! ## Fields -/

/-- The longest key the fixed buffer of `keys` holds. -/
def maxKey : Nat := 125

/-- `keys`: every key is found between separators in the text of allowed names. -/
def keys (o : Json) (allowed : Text) : Bool :=
  match o with
  | .object members => members.all fun (k, _) =>
      k ≠ [] && !k.contains 124 && k.length ≤ maxKey && hasText (Delimited.token 124 k) allowed
  | _ => false

/-- `nullable_keys`: names of the second list may stand with a null. -/
def nullableKeys (o : Json) (ordinary nullable : Text) : Bool :=
  match o with
  | .object members => members.all fun (k, v) =>
      k ≠ [] && !k.contains 124 && k.length ≤ maxKey &&
        (hasText (Delimited.token 124 k) ordinary ||
          (hasText (Delimited.token 124 k) nullable && v = .null))
  | _ => false

/-- A printable string without blanks, at most `max` long. -/
def token (o : Json) (key : Text) (max : Nat) : Option Text :=
  ((o.get? key).bind Json.text?).filter fun s => s ≠ [] && s.length ≤ max && s.all isgraph

def eq (o : Json) (key value : Text) : Bool := token o key 128 = some value

def integer (o : Json) (key : Text) (max : Nat) : Option Nat :=
  match o.get? key with
  | some (.integer n) => if 0 < n && n ≤ max then some n.toNat else none
  | _ => none

/-- `json_array_get` elements of a member that may be missing. -/
def elementsAt (o : Json) (key : Text) : List Json := ((o.get? key).map Json.elements).getD []

/-- `json_bytes`: only arrays and objects can be written on their own. -/
def jsonBytes (v : Json) : Option Nat :=
  if v.isArray || v.isObject then (jansson.dumps v).map List.length else none

/-! ## Headers -/

structure GatewayHeaders where
  invocation : AttemptHeaders
  generation : Text
  branch : Text
  invalid : Bool
  deriving DecidableEq

def GatewayHeaders.empty : GatewayHeaders := ⟨AttemptHeaders.empty, [], [], false⟩

/-- A value that fits an empty buffer of the given capacity. -/
def fits (out value : Text) (capacity : Nat) : Bool :=
  out = [] && value ≠ [] && value.length < capacity && value.all isgraph

def gatewayHeader (h : GatewayHeaders) (name : Text) (value : Option Text) : GatewayHeaders :=
  let h := { h with invocation := attemptHeader h.invocation name value }
  if caseEq name "X-Recursant-generation" then
    match value.filter (fits h.generation · 33) with
    | some v => { h with generation := v }
    | none => { h with invalid := true }
  else if caseEq name "X-Recursant-branch" then
    match value.filter (fits h.branch · 64) with
    | some v => { h with branch := v }
    | none => { h with invalid := true }
  else h

/-- `MHD_get_connection_values` with `collect_header`. -/
def collectHeaders (fields : List (Text × Option Text)) : GatewayHeaders :=
  fields.foldl (fun h field => gatewayHeader h field.1 field.2) GatewayHeaders.empty

/-- The session named by a request all of whose diagnostic headers are well formed. -/
def sessionIdent (h : GatewayHeaders) : Option Text :=
  if h.invocation.mask &&& 2 ≠ 0 && !h.invocation.invalid then some (h.invocation.values 1)
  else none

def sameHeaders (a b : AttemptHeaders) : Bool :=
  !a.invalid && !b.invalid && a.mask = 31 && b.mask = 31 &&
    (List.finRange 5).all fun i => a.values i = b.values i

/-! ## Requirements -/

/-- Destination capabilities that a request may need, one bit each. -/
def capHistory : UInt32 := 1

def capFunctions : UInt32 := 2

def capParallel : UInt32 := 4

def reqStreamTools : UInt32 := 8

def reqNestedSchemas : UInt32 := 16

/-! ## Messages -/

/-- `rc_tool_text_content`: a string, or 1 to 64 plain text parts. -/
def textContent : Json → Bool
  | .string s => !s.contains 0
  | .array parts => parts ≠ [] && parts.length ≤ 64 && parts.all fun part =>
      match part with
      | .object members => members.length = 2 && part.get? "type" = some (.string "text") &&
          ((part.get? "text").bind Json.text?).any fun s => !s.contains 0
      | _ => false
  | _ => false

def plainMessage (m : Json) : Bool :=
  let nullable : Text :=
    if eq m "role" "assistant" then "|refusal||annotations||audio||function_call|" else []
  nullableKeys m "|role||content|" nullable && (m.get? "role").any Json.isString &&
    (m.get? "content").any textContent

/-! ## Tool definitions -/

def shortDescription (o : Json) : Bool :=
  (o.get? "description").all fun d => d.text?.any (·.length ≤ 4096)

def flatProperty (name : Text) (value : Json) : Bool :=
  name ≠ [] && name.length ≤ 64 && keys value "|type||description|" &&
    [text "string", text "integer", text "number", text "boolean"].any (eq value "type") &&
    shortDescription value

def requiredOk (properties : List (Text × Json)) : Json → Bool
  | .array names => names.length ≤ 32 && names.Nodup &&
      names.all fun name => name.text?.any fun k => (properties.lookup k).isSome
  | _ => false

/-- Flat primitive object parameters; anything else is a nested schema. -/
def flatParameters (p : Json) : Bool :=
  keys p "|type||properties||additionalProperties||required|" && eq p "type" "object" &&
    p.get? "additionalProperties" = some (.bool false) &&
    match p.get? "properties" with
    | some (.object properties) =>
        properties.length ≤ 32 && properties.all (fun (name, value) => flatProperty name value) &&
          (p.get? "required").all (requiredOk properties)
    | _ => false

def schemaMaxDepth : Nat := 24

def schemaMaxNodes : Nat := 16384

/-- Counts the nodes of a tree on top of those counted before; no room is the depth check
failing. -/
def boundedTree : Nat → Json → Nat → Option Nat
  | 0, _, _ => none
  | room + 1, v, nodes =>
      if nodes + 1 > schemaMaxNodes then none
      else match v with
        | .object members =>
            members.foldlM (fun n (_, child) => boundedTree room child n) (nodes + 1)
        | .array elements => elements.foldlM (fun n child => boundedTree room child n) (nodes + 1)
        | _ => some (nodes + 1)

/-- What the loop over the offered tools has seen. -/
structure ToolsSeen where
  nodes : Nat
  nested : Bool
  names : List Text

def toolDefinition (seen : ToolsSeen) (t : Json) : Option ToolsSeen := do
  let f ← t.get? "function"
  let p ← f.get? "parameters"
  let name ← token f "name" 64
  guard (keys t "|type||function|" && eq t "type" "function" &&
    keys f "|name||description||parameters||strict|" &&
    (f.get? "strict").all (· = .bool false) && shortDescription f && p.isObject)
  let nodes ← boundedTree (schemaMaxDepth + 1) p seen.nodes
  guard (!seen.names.contains name)
  return ⟨nodes, seen.nested || !flatParameters p, seen.names ++ [name]⟩

/-- A choice by name must name an offered tool. -/
def toolChoiceOk (body : Json) (names : List Text) : Bool :=
  match body.get? "tool_choice" with
  | none => true
  | some choice =>
      eq body "tool_choice" "auto" || eq body "tool_choice" "none" ||
        eq body "tool_choice" "required" ||
        (keys choice "|type||function|" && eq choice "type" "function" &&
          (choice.get? "function").any fun f =>
            keys f "|name|" && (token f "name" 64).any names.contains)

/-- The requirements of the function-definition contract; `none` outside it. -/
def toolDefinitions (body : Json) : Option UInt32 :=
  match body.get? "tools" with
  | none =>
      if (body.get? "tool_choice").isNone && (body.get? "parallel_tool_calls").isNone then some 0
      else none
  | some tools => do
      guard (1 ≤ tools.size && tools.size ≤ 64)
      let bytes ← (jsonBytes jansson tools).filter (· ≤ 65536)
      let seen ← tools.elements.foldlM toolDefinition ⟨0, tools.size > 32 || bytes > 16384, []⟩
      guard (toolChoiceOk body seen.names && (body.get? "parallel_tool_calls").all Json.isBool)
      return capFunctions |||
        (if body.get? "parallel_tool_calls" = some (.bool false) then 0 else capParallel) |||
        (if body.get? "stream" = some (.bool true) then reqStreamTools else 0) |||
        (if seen.nested then reqNestedSchemas else 0)

/-! ## Options -/

/-- Exactly one of the two spellings, 1 to 100000. -/
def outputBound (body : Json) : Option Nat :=
  match body.get? "max_tokens", body.get? "max_completion_tokens" with
  | some _, none => integer body "max_tokens" 100000
  | none, some _ => integer body "max_completion_tokens" 100000
  | _, _ => none

def sampling (body : Json) (key : Text) (max : Rat) : Bool :=
  (body.get? key).all fun v => v.number?.any fun n => 0 ≤ n && n ≤ max

def requestKeys : Text :=
  text "|model||messages||max_tokens||max_completion_tokens||temperature||top_p||stream|" ++
  text "|stream_options||tools||tool_choice||parallel_tool_calls||reasoning_effort||store|"

def streamOptionsOk (body : Json) : Bool :=
  (body.get? "stream_options").all fun options =>
    body.get? "stream" = some (.bool true) && keys options "|include_usage|" &&
      (options.get? "include_usage").any Json.isBool

/-- The requirements of a request inside the portable profile and its exact `reasoning_effort`
token, empty when absent. -/
def requestOptions (body : Json) : Option (UInt32 × Text) := do
  guard (keys body requestKeys && (body.get? "store").all (· = .bool false) &&
    (body.get? "stream").all Json.isBool && streamOptionsOk body)
  let effort ← match body.get? "reasoning_effort" with
    | none => some []
    | some _ => token body "reasoning_effort" 64
  guard ((outputBound body).isSome && sampling body "temperature" 2 && sampling body "top_p" 1)
  let requirements ← toolDefinitions jansson body
  return (requirements, effort)

def profiled (body : Json) : Bool :=
  (body.get? "tools").isSome || (body.get? "reasoning_effort").isSome

/-- The fields of a request that its scope's later requests must repeat. -/
def contractProjection (body : Json) : Json :=
  let fields : List Text := ["tools", "tool_choice", "parallel_tool_calls", "reasoning_effort"]
  let fields := if profiled body then fields ++ [text "stream_options"] else fields
  .object (fields.filterMap fun key => (body.get? key).map fun v => (key, v))

/-! ## Conversation openings -/

def fnvStep (hash : UInt64) (c : Byte) : UInt64 := (hash ^^^ c.toUInt64) * 1099511628211

structure Opening where
  anchor : UInt64
  start : Bool
  user : Bool
  first : Option Text

/-- One message of the opening; only those up to the first user message are hashed. -/
def openingStep (o : Opening) (m : Json) : Option Opening :=
  let o := if eq m "role" "assistant" || eq m "role" "tool" then { o with start := false } else o
  if o.user then some o
  else
    match if m.isObject then jansson.dumpsSorted m else none with
    | none => none
    | some wire =>
        let o := { o with anchor := wire.foldl fnvStep o.anchor }
        if eq m "role" "user" then
          some { o with user := true, first := (m.get? "content").bind Json.text? }
        else some o

def opening (messages : List Json) : Option Opening :=
  if messages = [] then none
  else messages.foldlM (openingStep jansson) ⟨14695981039346656037, true, false, none⟩

/-- The text occurs as a string of the value; the count of visited nodes goes with the answer. -/
def holds (t : Text) : Nat → Json → Nat → Bool × Nat
  | 0, _, nodes => (false, nodes)
  | room + 1, v, nodes =>
      if nodes + 1 > 512 then (false, nodes + 1)
      else match v with
        | .string s => (s = t, nodes + 1)
        | .object members => members.foldl
            (fun found (_, child) => if found.1 then found else holds t room child found.2)
            (false, nodes + 1)
        | .array elements => elements.foldl
            (fun found child => if found.1 then found else holds t room child found.2)
            (false, nodes + 1)
        | _ => (false, nodes + 1)

/-- The text is a string argument of a tool call. -/
def calledWith (t : Text) (call : Json) : Bool :=
  (((call.get? "function").bind (·.get? "arguments")).bind Json.text?).any fun arguments =>
    (jansson.loadb arguments).any fun parsed =>
      (parsed.isArray || parsed.isObject) && (holds t 9 parsed 0).1

end Recursant.Gateway
