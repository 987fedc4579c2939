import Recursant.Bridge.Adapter
import Recursant.Context.Efficiency
import Recursant.Context.WordpieceReference

/-!
# The features of the training side

`features` of `features.py`, over values as Python reads them from the text of a request.  A string is
a list of code points; `str.lower` is a parameter.
-/

namespace Recursant.Efficiency

open Bridge (Str str)
open Tokenizer (putCp encodeCps)

/-! ## Values -/

/-- The code points of a string that is read from a JSON text. -/
abbrev Chars := {s : Str // ∀ c ∈ s, 0 < c ∧ c < 0x110000}

inductive Value where
  | none
  | bool (b : Bool)
  | int (n : Int)
  | float (bits : UInt64)
  | str (s : Chars)
  | list (vs : List Value)
  | dict (ms : List (Chars × Value))

mutual

/-- The value as the router reads it from the same text. -/
def Value.json : Value → Json
  | .none => .null
  | .bool b => .bool b
  | .int n => .integer n
  | .float bits => .real bits
  | .str s => .string (encodeCps s.1)
  | .list vs => .array (jsonList vs)
  | .dict ms => .object (jsonMembers ms)

def jsonList : List Value → List Json
  | [] => []
  | v :: vs => v.json :: jsonList vs

def jsonMembers : List (Chars × Value) → List (Text × Json)
  | [] => []
  | (k, v) :: ms => (encodeCps k.1, v.json) :: jsonMembers ms

end

/-- `v.get(key)`, `None` for a missing key; of a value that is no dictionary it raises, which is left
out. -/
def Value.get (key : Str) : Value → Value
  | .dict ms =>
      match ms.find? fun m => m.1.1 = key with
      | some m => m.2
      | Option.none => .none
  | _ => .none

/-- Whether `not v` is false. -/
def Value.truth : Value → Bool
  | .none => false
  | .bool b => b
  | .int n => n ≠ 0
  | .float bits => bits <<< 1 ≠ 0
  | .str s => !s.1.isEmpty
  | .list vs => !vs.isEmpty
  | .dict ms => !ms.isEmpty

/-- `len(v or '')` of a string, a list or `None`. -/
def Value.len : Value → Nat
  | .str s => s.1.length
  | .list vs => vs.length
  | _ => 0

/-! ## The regular expression -/

/-- The characters of a literal. -/
def literal (s : String) : List (Nat → Bool) := (str s).map fun c d => decide (d = c)

/-- The alternatives of `FAIL`, each a sequence of sets of characters. -/
def fail : List (List (Nat → Bool)) :=
  [literal "Traceback (most recent call last)", literal "FAILED", literal "ERROR:", literal "Error:",
    literal "AssertionError", literal "\"exit_code\": " ++ [fun c => decide (49 ≤ c ∧ c ≤ 57)],
    literal "\"success\": false", literal "\"error\": \"" ++ [fun c => decide (c ≠ 34)]]

/-- A sequence of sets matches at the front. -/
def matchesAt : List (Nat → Bool) → Str → Bool
  | [], _ => true
  | _ :: _, [] => false
  | set :: sets, c :: s => set c && matchesAt sets s

/-- `FAIL.search(s)` finds something. -/
def search (s : Str) : Bool :=
  (List.range (s.length + 1)).any fun i => fail.any fun sets => matchesAt sets (s.drop i)

/-! ## Features -/

def roleIs (r : Str) (m : Value) : Bool :=
  match m.get "role" with
  | .str s => s.1 = r
  | _ => false

def contentOf (m : Value) : Str :=
  match m.get "content" with
  | .str s => s.1
  | _ => []

/-- `results` -/
def resultsOf (msgs : List Value) : List Str := (msgs.filter (roleIs "tool")).map contentOf

/-- `c.get('function', {}).get('name')` -/
def nameOf (c : Value) : Option Str :=
  match (c.get "function").get "name" with
  | .str s => some s.1
  | _ => none

/-- `m.get('tool_calls') or []` -/
def callsIn (m : Value) : List Value :=
  match m.get "tool_calls" with
  | .list vs => vs
  | _ => []

/-- `calls` -/
def callsOf (msgs : List Value) : List (Option Str) :=
  (msgs.filter (roleIs "assistant")).flatMap fun m => (callsIn m).map nameOf

/-- `bool(FAIL.search(x[:8000]))` -/
def isFailure (x : Str) : Bool := search (x.take 8000)

/-- The loop over the reversed flags. -/
def leadingRun : List Bool → Nat
  | [] => 0
  | f :: flags => if f then leadingRun flags + 1 else 0

/-- The content of the first message of a role. -/
def firstContent (r : Str) (msgs : List Value) : Value :=
  match (msgs.filter (roleIs r)).head? with
  | some m => m.get "content"
  | none => .none

/-- `'…' in s` -/
def isIn (needle s : Str) : Bool := (List.range (s.length + 1)).any fun i => needle.isPrefixOf (s.drop i)

def tools : List Str :=
  ["terminal", "read_file", "write_file", "patch", "search_files", "execute_code", "delegate_task"]

/-- `KEYS` -/
def keys : List Str :=
  (["bias", "last_failed", "fails_in_last3", "failure_run", "log_messages", "log_tool_results",
    "log_last_len", "subagent", "repeat_last_call", "no_tools_offered"] : List Str) ++
    tools.map fun t => str "last_call_" ++ t

section

variable (log1p : Nat → Rat) (lower : Str → Str)

def trainedFeatures (req : Value) : List (Str × Rat) :=
  let msgs := match req.get "messages" with
    | .list vs => vs
    | _ => []
  let results := resultsOf msgs
  let calls := callsOf msgs
  let last := results.getLast?.getD []
  let fails := (results.drop (results.length - 3)).map isFailure
  let run := leadingRun (results.map isFailure).reverse
  let system := match firstContent "system" msgs with
    | .str s => s.1
    | _ => []
  let firstUser := firstContent "user" msgs
  let lastCall := calls.getLast?.getD (some (str "none"))
  [(str "bias", 1), (str "last_failed", indicator (fails.getLast?.getD false)),
    (str "fails_in_last3", (fails.count true : Nat)), (str "failure_run", (min run 3 : Nat)),
    (str "log_messages", log1p msgs.length), (str "log_tool_results", log1p results.length),
    (str "log_last_len", log1p last.length),
    (str "subagent", indicator (isIn "subagent" (lower system) ||
      (firstUser.len < 600 && isIn "delegat" (lower system)))),
    (str "repeat_last_call", indicator (2 ≤ calls.length && calls.getLast? = calls.dropLast.getLast?)),
    (str "no_tools_offered", indicator (!(req.get "tools").truth))] ++
    tools.map fun t => (str "last_call_" ++ t, indicator (lastCall = some t))

end

/-! ## The requests -/

/-- A message as the training side expects it. -/
structure MessageShaped (m : Value) : Prop where
  role : ∃ s, m.get "role" = .str s
  system : roleIs "system" m → m.get "content" = .none ∨ ∃ s, m.get "content" = .str s
  user : roleIs "user" m → m.get "content" = .none ∨ (∃ s, m.get "content" = .str s) ∨
    ∃ vs, m.get "content" = .list vs
  calls : m.get "tool_calls" = .none ∨ ∃ vs, m.get "tool_calls" = .list vs ∧
    ∀ c ∈ vs, (∃ f, c.get "function" = .dict f) ∧
      ((c.get "function").get "name" = .none ∨ ∃ s, (c.get "function").get "name" = .str s)

/-- A request whose messages are as expected. -/
def Shaped (req : Value) : Prop :=
  ∃ msgs, req.get "messages" = .list msgs ∧ ∀ m ∈ msgs, MessageShaped m

/-- What is relied on of `str.lower`: each character gives characters, an ASCII one its small letter,
another none of ASCII but `i` and `k`. -/
def PythonLower (lower : Str → Str) : Prop :=
  ∀ s, ∃ parts, lower s = parts.flatten ∧ List.Forall₂ (fun c part =>
    if c < 128 then part = [(tolower c.toUInt8).toNat]
    else part ≠ [] ∧ ∀ d ∈ part, 128 ≤ d ∨ d = 105 ∨ d = 107) s parts

end Recursant.Efficiency
