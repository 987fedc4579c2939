import Recursant.Json

/-!
# The signal classifier

`signals.c`.  What a tool result says about its step, and the class of a turn as a backward scan of
the newest results finds it.
-/

namespace Recursant.Signals

def scanBytes : Nat := 4096

/-- The reader and the writer that the classifier calls. -/
structure Reader where
  /-- `json_loadb` with `JSON_REJECT_DUPLICATES | JSON_DISABLE_EOF_CHECK`: the value at the head of
  the text, and the position after it. -/
  load : Text → Option (Json × Nat)
  /-- `json_loadb` with `JSON_DECODE_ANY`, written again compact and with sorted keys. -/
  canonical : Text → Option Text

/-! ## Failure words -/

/-- `at`: the needle is in lower case. -/
def startsWith (needle p : Text) : Bool := needle.isPrefixOf (p.map tolower)

/-- Digits, one of them not zero, perhaps after a sign. -/
def nonzeroNumber (p : Text) : Bool :=
  let p := if p.head? = some 45 then p.tail else p
  (p.takeWhile isdigit).any (· ≠ 48)

/-- `nonzero_exit` -/
def nonzeroExit (p : Text) : Bool :=
  let afterExit := (p.drop 4).dropWhile fun c => c = 32 || c = 95 || c = 45
  let afterCode := (afterExit.drop 4).dropWhile fun c =>
    c = 32 || c = 9 || c = 58 || c = 61 || c = 34 || c = 39
  startsWith "exit" p && startsWith "code" afterExit && nonzeroNumber afterCode

def markers : List Text := ["error", "traceback", "failed", "exception"]

def scan : Text → Bool
  | [] => false
  | c :: p => markers.any (startsWith · (c :: p)) || nonzeroExit (c :: p) || scan p

/-- `scan_text` -/
def scanText (t : Text) : Bool :=
  if t.length ≤ 2 * scanBytes then scan t
  else scan (t.take scanBytes) || scan (t.drop (t.length - scanBytes))

/-- `strong_markers` -/
def strongMarkers (t : Text) : Bool :=
  ([text "Traceback (most recent call last)", text "FAILED", text "ERROR:", text "Error:",
    text "AssertionError"]).any (hasText · t)

/-! ## Structured results -/

def isBlank (c : Byte) : Bool := c = 32 || c = 10 || c = 9 || c = 13

/-- The object at the head of a text, and what follows it, blanks left out on both sides. -/
def leading (reader : Reader) (limit : Nat) (t : Text) : Option (Json × Text) :=
  let s := t.dropWhile isBlank
  if s.head? ≠ some 123 || t.length > limit then none
  else match reader.load s with
    | some (o, position) =>
        if o.isObject then some (o, (s.drop position).dropWhile isBlank) else none
    | none => none

/-- `ok_status` -/
def okStatus (v : Json) : Bool :=
  v.text? = some (text "ok") || v.text? = some (text "success") || v.text? = some (text "completed")

/-- `error_value` -/
def errorValue : Option Json → Bool
  | none | some .null | some (.bool false) => false
  | some (.string s) => s ≠ []
  | some _ => true

/-- An exit code was reported, and it is neither zero nor null. -/
def exitFailed : Option Json → Bool
  | none | some .null => false
  | some v => v ≠ .integer 0

def statusFailed (o : Json) : Bool := (o.get? "status").any (!okStatus ·)

/-- Free output of a command: with an exit code only unambiguous markers count. -/
def outputFailed (o : Json) (key : Text) : Bool :=
  match (o.get? key).bind Json.text? with
  | some t => if (o.get? "exit_code").isSome then strongMarkers t else scanText t
  | none => false

/-- What the outcome fields of a result say. -/
def outcomeFailed (o : Json) : Bool :=
  errorValue (o.get? "error") || exitFailed (o.get? "exit_code") ||
    (o.get? "success").any (· ≠ .bool true) || statusFailed o ||
    o.get? "not_found" = some (.bool true) ||
    ((o.get? "results").map Json.elements).any (·.any fun r => r.isObject && statusFailed r) ||
    [text "output", text "stdout", text "stderr"].any (outputFailed o)

/-- `envelope_failed`, `none` where it returns -1. -/
def envelopeFailed (reader : Reader) (t : Text) : Option Bool :=
  match leading reader (64 * scanBytes) t with
  | some (o, rest) =>
      if rest ≠ [] && (rest.head? ≠ some 91 || rest.getLast? ≠ some 93) then none
      else some (outcomeFailed o)
  | none => none

/-- `rc_signals_failed_text` -/
def failedText (reader : Reader) (t : Text) : Bool :=
  (envelopeFailed reader t).getD (scanText t)

/-- A newline or a bracket. -/
def breaksNote (c : Byte) : Bool := c = 10 || c = 91 || c = 93

/-- `rejected_call` -/
def rejectedCall (reader : Reader) (t : Text) : Bool :=
  match leading reader scanBytes t with
  | some (.object members, rest) =>
      members.length = 1 && (((Json.object members).get? "error").bind Json.text?).any (· ≠ []) &&
        (rest = [] || (rest.head? = some 91 && rest.getLast? = some 93 &&
          !rest.tail.dropLast.any breaksNote))
  | _ => false

/-! ## Messages -/

def window : Nat := 3

def maxRejections : Nat := 2

def maxMessages : Nat := 4096

def repeatWindow : Nat := 6

def repeatMin : Nat := 3

def toolFollowupOk : UInt64 := 2

def finalAnswer : UInt64 := 4

def recovery : UInt64 := 8

structure Scope where
  completedTurns : Nat
  repeatEscalation : Bool := false
  phase : Bool := false

/-- `role_is` -/
def roleIs (m : Json) (role : Text) : Bool := (m.get? "role").bind Json.text? = some role

/-- `known_role` -/
def knownRole (m : Json) : Bool :=
  roleIs m "system" || roleIs m "developer" || roleIs m "user" || roleIs m "assistant" ||
    roleIs m "tool"

/-- The calls of the messages, the newest first. -/
def callsBack (messages : List Json) : List Json :=
  messages.reverse.flatMap fun m =>
    if roleIs m "assistant" then ((m.get? "tool_calls").map Json.elements).getD [] |>.reverse else []

def nameOf (call : Json) : Option Text :=
  ((call.get? "function").bind (·.get? "name")).bind Json.text?

/-- `call_key` -/
def callKey (reader : Reader) (call : Json) : Option Text := do
  let arguments ← (call.get? "function").bind (·.get? "arguments")
  let name ← nameOf call
  let args ← arguments.text?
  let use := if args.length ≤ 64 * scanBytes then (reader.canonical args).getD args else args
  return name ++ 31 :: use

def stalled (reader : Reader) (messages : List Json) : Bool :=
  match ((callsBack messages).take repeatWindow).mapM (callKey reader) with
  | some keys => repeatMin ≤ keys.countP fun key => keys.head? = some key
  | none => false

/-- `newest_call` -/
def newestCall (messages : List Json) : Text := ((callsBack messages).head?.bind nameOf).getD []

def reading (name : Text) : Bool :=
  [text "read_file", text "search_files", text "grep", text "glob", text "list_dir",
    text "tool_search", text "read", text "search"].contains name

/-! ## The backward scan -/

/-- The counters of the scan. -/
structure Seen where
  seen : Nat := 0
  run : Nat := 0
  rejected : Nat := 0
  running : Bool := true
  failedAny : Bool := false

def contentOf (m : Json) : Option Text := (m.get? "content").bind Json.text?

/-- One round of the loop; a full window ends it, and a tool result without a text fails it. -/
def visit (reader : Reader) (m : Json) (s : Seen) : Option Seen :=
  if s.seen < window then
    if roleIs m "assistant" then some s
    else if !roleIs m "tool" then some { s with running := false }
    else match contentOf m with
      | none => none
      | some t =>
          if rejectedCall reader t then
            some (if s.seen = 0 then { s with rejected := s.rejected + 1 } else s)
          else if failedText reader t then
            some { s with
              seen := s.seen + 1
              failedAny := true
              run := if s.running then s.run + 1 else s.run }
          else some { s with seen := s.seen + 1, running := false }
  else some s

/-- The loop, from the newest message back. -/
def visited (reader : Reader) (messages : List Json) : Option Seen :=
  messages.foldr (fun m acc => acc.bind (visit reader m)) (some {})

def offered (body : Json) : Bool :=
  (body.get? "tools").isSome && body.get? "tool_choice" ≠ some (.string "none")

/-- The checks on the shape of a body, and its messages. -/
def shaped (body : Json) (scope : Scope) : Option (List Json) :=
  match body.get? "messages" with
  | some (.array messages) =>
      if scope.completedTurns ≠ 0 && messages ≠ [] && messages.length ≤ maxMessages &&
          messages.all (fun m => m.isObject && knownRole m) &&
          (body.get? "tools").all (fun tools => tools.isArray && tools.elements ≠ []) &&
          (body.get? "tool_choice").all (fun choice => choice.isString || choice.isObject) &&
          messages.getLast?.any (roleIs · "tool")
      then some messages else none
  | _ => none

/-- The end of `classify`. -/
def classOf (reader : Reader) (body : Json) (scope : Scope) (messages : List Json) (s : Seen) :
    UInt64 :=
  if s.seen = 0 || s.rejected > maxRejections then 0
  else if s.run ≥ 2 then recovery
  else if scope.repeatEscalation && s.rejected = 0 && stalled reader messages then recovery
  else if s.failedAny then 0
  else if scope.phase && offered body && reading (newestCall messages) then 0
  else if offered body then toolFollowupOk
  else finalAnswer

/-- `classify`: the class, and whether an executed failure is in the window. -/
def classified (reader : Reader) (body : Json) (scope : Scope) : UInt64 × Bool :=
  match shaped body scope with
  | none => (0, false)
  | some messages =>
      match visited reader messages with
      | none => (0, false)
      | some s => (classOf reader body scope messages s, s.failedAny)

/-- `rc_signals_classify` -/
def classify (reader : Reader) (body : Json) (scope : Scope) : UInt64 :=
  (classified reader body scope).1

/-- `rc_signals_recent_failure` -/
def recentFailure (reader : Reader) (body : Json) : Bool :=
  (classified reader body { completedTurns := 1 }).2

end Recursant.Signals
