import Mathlib.Data.Rat.Defs
import Recursant.Json

/-!
# The features of the efficiency model

One pass over the messages of a request keeps the last tool result, a window of the last failures and
the last two calls.  The features are exact; `log1p` is a parameter.
-/

namespace Recursant.Efficiency

/-- `rc_efficiency_names` -/
def names : List Text :=
  ["bias", "last_failed", "fails_in_last3", "failure_run", "log_messages", "log_tool_results",
    "log_last_len", "subagent", "repeat_last_call", "no_tools_offered", "last_call_terminal",
    "last_call_read_file", "last_call_write_file", "last_call_patch", "last_call_search_files",
    "last_call_execute_code", "last_call_delegate_task"]

/-- `RC_EFF_SCAN_BYTES`, a number of code points -/
def scanBytes : Nat := 8000

/-! ## Texts -/

/-- `(b & 0xC0) != 0x80` -/
def beginsPoint (b : Byte) : Bool := b.toNat / 64 ≠ 2

/-- `code_points` -/
def codePoints (s : Text) : Nat := s.countP beginsPoint

/-- The loops over the places that have `k` bytes from there on. -/
def anyFrom (k : Nat) (q : Text → Bool) (s : Text) : Bool :=
  (List.range (s.length + 1 - k)).any fun i => q (s.drop i)

/-- `!memcmp(s, needle, strlen(needle))` -/
def startsWith (needle s : Text) : Bool := s.take needle.length = needle

/-- `contains` -/
def contains (s needle : Text) : Bool := anyFrom needle.length (startsWith needle) s

/-- `contains_ascii_nocase` -/
def containsAsciiNocase (s needle : Text) : Bool :=
  anyFrom needle.length (fun t => (t.take needle.length).map tolower = needle) s

/-- The bytes in front of the code point with which the count goes over the limit. -/
def cut : Nat → Text → Text
  | _, [] => []
  | points, b :: s =>
      if beginsPoint b then if scanBytes < points + 1 then [] else b :: cut (points + 1) s
      else b :: cut points s

def plain : List Text :=
  ["Traceback (most recent call last)", "FAILED", "ERROR:", "Error:", "AssertionError",
    "\"success\": false"]

def exitCode : Text := "\"exit_code\": "

def error : Text := "\"error\": \""

/-- `failed` -/
def failed (s : Text) : Bool :=
  let s := cut 0 s
  plain.any (contains s) ||
    anyFrom (exitCode.length + 1)
      (fun t => startsWith exitCode t && 49 ≤ t.getD exitCode.length 0 &&
        t.getD exitCode.length 0 ≤ 57) s ||
    anyFrom (error.length + 1) (fun t => startsWith error t && t.getD error.length 0 ≠ 34) s

/-! ## Messages -/

/-- `is` -/
def hasRole (r : Text) (m : Json) : Bool := (m.get? "role").bind Json.text? = some r

/-- The content of a message, empty if it is no string. -/
def contentText (m : Json) : Text := ((m.get? "content").bind Json.text?).getD []

/-- The name of a tool call. -/
def callName (c : Json) : Option Text :=
  ((c.get? "function").bind fun f => f.get? "name").bind Json.text?

def toolCalls (m : Json) : List Json := ((m.get? "tool_calls").map Json.elements).getD []

/-- `truthy` -/
def truthy : Option Json → Bool
  | none | some .null | some (.bool false) => false
  | some (.array elements) => !elements.isEmpty
  | some (.object members) => !members.isEmpty
  | some (.string s) => !s.isEmpty
  | some (.integer n) => n ≠ 0
  | some (.real bits) => bits <<< 1 ≠ 0
  | some (.bool true) => true

/-! ## The pass -/

structure Scan where
  tools : Nat := 0
  run : Nat := 0
  last : Option Text := none
  window : Bool × Bool × Bool := (false, false, false)
  seen : Nat := 0
  system : Option Text := none
  firstUser : Option Json := none
  haveUser : Bool := false
  callLast : Option Text := none
  callPrev : Option Text := none
  calls : Nat := 0

/-- One tool call. -/
def Scan.call (s : Scan) (c : Json) : Scan :=
  { s with callPrev := s.callLast, callLast := callName c, calls := s.calls + 1 }

/-- One message. -/
def Scan.message (s : Scan) (m : Json) : Scan :=
  if hasRole "tool" m then
    let bad := failed (contentText m)
    { s with
      tools := s.tools + 1
      last := some (contentText m)
      window := (s.window.2.1, s.window.2.2, bad)
      seen := s.seen + 1
      run := if bad then s.run + 1 else 0 }
  else if hasRole "system" m && s.system.isNone then { s with system := some (contentText m) }
  else if hasRole "user" m && !s.haveUser then
    { s with haveUser := true, firstUser := m.get? "content" }
  else if hasRole "assistant" m then (toolCalls m).foldl Scan.call s
  else s

def scan (messages : List Json) : Scan := messages.foldl Scan.message {}

/-- The length of the first user message: in code points, or in parts. -/
def userLen : Option Json → Nat
  | some (.string s) => codePoints s
  | some (.array parts) => parts.length
  | _ => 0

def Scan.subagent (s : Scan) : Bool :=
  match s.system with
  | none => false
  | some t => containsAsciiNocase t "subagent" ||
      (userLen s.firstUser < 600 && containsAsciiNocase t "delegat")

def Scan.repeats (s : Scan) : Bool :=
  2 ≤ s.calls && ((s.callLast.isNone && s.callPrev.isNone) ||
    (s.callLast.isSome && s.callPrev.isSome && s.callLast = s.callPrev))

/-- The flags of the window that have been seen. -/
def Scan.flags (s : Scan) : List Bool :=
  [s.window.1, s.window.2.1, s.window.2.2].drop (3 - min s.seen 3)

def Scan.lastCall (s : Scan) (name : Text) : Bool := s.calls ≠ 0 && s.callLast = some name

def indicator (b : Bool) : Rat := if b then 1 else 0

/-- `rc_efficiency_features`, in the order of the names; `none` without messages. -/
def features (log1p : Nat → Rat) (body : Json) : Option (List Rat) :=
  match body.get? "messages" with
  | some (.array messages) =>
      let s := scan messages
      some ([1, indicator (min s.seen 3 ≠ 0 && s.window.2.2), (s.flags.count true : Nat),
        (if s.run < 3 then s.run else 3 : Nat), log1p messages.length, log1p s.tools,
        log1p ((s.last.map codePoints).getD 0), indicator s.subagent, indicator s.repeats,
        indicator (!truthy (body.get? "tools"))] ++
        (names.drop 10).map fun name => indicator (s.lastCall (name.drop 10)))
  | _ => none

end Recursant.Efficiency
