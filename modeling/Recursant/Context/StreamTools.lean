import Mathlib.Data.Finset.Range
import Mathlib.Algebra.BigOperators.Group.Finset.Basic
import Recursant.Json

/-!
# Streamed tool calls

`stream_tools.c`.  The deltas of a streamed message name a call by its index: id and type are whole
values, name and arguments come in fragments.  The assembler keeps 32 calls and one budget for all
their texts.
-/

namespace Recursant.StreamTools

/-- `RC_STREAM_TOOLS_MAX_CALLS` -/
def maxCalls : Nat := 32

/-- `RC_STREAM_TOOLS_MAX_BYTES` -/
def maxBytes : Nat := 1048576

/-- `RC_STREAM_TOOLS_MAX_ID_BYTES` -/
def maxIdBytes : Nat := 128

/-! ## UTF-8 -/

/-- A byte that goes on with a sequence. -/
def continues (b : Byte) : Bool := 128 ≤ b && b ≤ 191

/-- What `json_stringn` accepts: no overlong form, no surrogate, nothing above U+10FFFF. -/
def utf8 : Text → Bool
  | [] => true
  | a :: rest =>
      if a < 128 then utf8 rest
      else match rest with
        | [] => false
        | b :: rest =>
            if 194 ≤ a && a ≤ 223 then continues b && utf8 rest
            else match rest with
              | [] => false
              | c :: rest =>
                  if 224 ≤ a && a ≤ 239 then
                    continues b && continues c && (a ≠ 224 || 160 ≤ b) && (a ≠ 237 || b < 160) &&
                      utf8 rest
                  else match rest with
                    | [] => false
                    | d :: rest =>
                        240 ≤ a && a ≤ 244 && continues b && continues c && continues d &&
                          (a ≠ 240 || 144 ≤ b) && (a ≠ 244 || b < 144) && utf8 rest

/-! ## The assembler -/

/-- `stream_call`: the bytes of its two fragments, `none` before the first. -/
structure Call where
  id : Option Text := none
  name : Option Text := none
  arguments : Option Text := none
  present : Bool := false
  type : Bool := false
  deriving DecidableEq

/-- `rc_stream_tools` -/
structure Tools where
  calls : Nat → Call := fun _ => {}
  count : Nat := 0
  bytes : Nat := 0
  failed : Bool := false
  finalized : Bool := false

/-- A call and the bytes used so far. -/
abbrev Meter := Call × Nat

/-- `append`: the fragment with more bytes, and the bytes used. -/
def append (used : Nat) (dest : Option Text) (fragment : Json) : Option (Option Text × Nat) :=
  match fragment with
  | .string s =>
      if s.length > maxBytes - used then none
      else if utf8 s then some (some (dest.getD [] ++ s), used + s.length)
      else none
  | _ => none

def callKeys : List Text := [text "index", text "id", text "type", text "function"]

def functionKeys : List Text := [text "name", text "arguments"]

/-- `known_fields` -/
def knownFields (keys : List Text) : Json → Bool
  | .object members => members ≠ [] && members.all fun m => keys.contains m.1
  | _ => false

/-- `json_object_size` -/
def objectSize : Json → Nat
  | .object members => members.length
  | _ => 0

/-- `no_nul` -/
def noNul : Json → Bool
  | .string s => !s.contains 0
  | _ => false

/-- The index of an entry, in range. -/
def indexOf (entry : Json) : Option Nat :=
  match entry.get? "index" with
  | some (.integer n) => if 0 ≤ n && n < maxCalls then some n.toNat else none
  | _ => none

/-- The id is kept once; a repeat must be the same. -/
def takeId (v : Option Json) (m : Meter) : Option Meter :=
  match v with
  | none => some m
  | some (.string s) =>
      if s.contains 0 || s = [] || s.length > maxIdBytes then none
      else match m.1.id with
        | some id => if id = s then some m else none
        | none =>
            if s.length > maxBytes - m.2 then none
            else if utf8 s then some ({ m.1 with id := some s }, m.2 + s.length)
            else none
  | some _ => none

/-- The type is counted once. -/
def takeType (v : Option Json) (m : Meter) : Option Meter :=
  match v with
  | none => some m
  | some v =>
      if v = .string "function" then
        if m.1.type then some m
        else if 8 > maxBytes - m.2 then none
        else some ({ m.1 with type := true }, m.2 + 8)
      else none

def takeName (v : Option Json) (m : Meter) : Option Meter :=
  match v with
  | none => some m
  | some v =>
      if noNul v then
        (append m.2 m.1.name v).map fun r => ({ m.1 with name := r.1 }, r.2)
      else none

def takeArguments (v : Option Json) (m : Meter) : Option Meter :=
  match v with
  | none => some m
  | some v =>
      (append m.2 m.1.arguments v).map fun r => ({ m.1 with arguments := r.1 }, r.2)

/-- The members of an entry, in the order in which they are read. -/
def takeMembers (entry : Json) (m : Meter) : Option Meter := do
  let m ← takeId (entry.get? "id") m
  let m ← takeType (entry.get? "type") m
  let function := entry.get? "function"
  if function.all (knownFields functionKeys) then
    let m ← takeName (function.bind (·.get? "name")) m
    takeArguments (function.bind (·.get? "arguments")) m
  else none

/-- One round of the loop over an array, after the indices already seen in it. -/
def feedEntry (seen : List Nat) (s : Tools) (entry : Json) : Option Tools :=
  if knownFields callKeys entry && 2 ≤ objectSize entry then
    match indexOf entry with
    | some k =>
        if seen.contains k then none
        else (takeMembers entry ({ s.calls k with present := true }, s.bytes)).map fun m =>
          { s with calls := Function.update s.calls k m.1, count := max s.count (k + 1), bytes := m.2 }
    | none => none
  else none

def feedEntries (seen : List Nat) (s : Tools) : List Json → Option Tools
  | [] => some s
  | entry :: rest =>
      match feedEntry seen s entry with
      | some s => feedEntries ((indexOf entry).toList ++ seen) s rest
      | none => none

def feedArray (s : Tools) : Json → Option Tools
  | .array entries => if entries.length > maxCalls then none else feedEntries [] s entries
  | _ => none

/-- `rc_stream_tools_feed`.  Of an assembler that has failed nothing but the flag is ever read
again, so what a failing feed had written before is not kept. -/
def feed (s : Tools) (array : Json) : Tools × Bool :=
  if s.failed || s.finalized then ({ s with failed := true }, false)
  else match feedArray s array with
    | some s => (s, true)
    | none => ({ s with failed := true }, false)

/-! ## The assembled calls -/

/-- A call with every part. -/
def whole (c : Call) : Bool :=
  c.present && c.id.isSome && c.type && c.name.any (· ≠ []) && c.arguments.isSome

/-- `json_pack` of one call. -/
def callJson (c : Call) : Json :=
  .object [("id", .string (c.id.getD [])), ("type", .string "function"),
    ("function", .object [("name", .string (c.name.getD [])),
      ("arguments", .string (c.arguments.getD []))])]

/-- The texts that `json_pack` checks again. -/
def packable (c : Call) : Bool := utf8 (c.name.getD []) && utf8 (c.arguments.getD [])

section Results

-- `json_dump_callback` with `JSON_COMPACT`
variable (dumps : Json → Option Text)

/-- `build` -/
def build (s : Tools) : Option Json :=
  let calls := (List.range s.count).map s.calls
  if s.count = 0 || !calls.all whole || !decide (calls.map (·.id)).Nodup ||
      !calls.all packable then none
  else
    let out := Json.array (calls.map callJson)
    if (dumps out).any (·.length ≤ maxBytes) then some out else none

/-- `rc_stream_tools_snapshot` -/
def snapshot (s : Tools) : Option Json :=
  if s.failed || s.finalized then none else build dumps s

/-- `rc_stream_tools_complete` -/
def complete (s : Tools) : Tools × Option Json :=
  if s.failed || s.finalized then ({ s with failed := true }, none)
  else match build dumps s with
    | some out => ({ s with finalized := true }, some out)
    | none => ({ s with finalized := true, failed := true }, none)

/-! ## Uses of one assembler -/

inductive Op where
  | feed (array : Json)
  | snapshot
  | complete

inductive Answer where
  | fed (ok : Bool)
  | tools (out : Option Json)

def perform (s : Tools) : Op → Tools × Answer
  | .feed array => ((feed s array).1, .fed (feed s array).2)
  | .snapshot => (s, .tools (snapshot dumps s))
  | .complete => ((complete dumps s).1, .tools (complete dumps s).2)

/-- The answers to a series of uses. -/
def answers (s : Tools) : List Op → List Answer
  | [] => []
  | op :: rest => (perform dumps s op).2 :: answers (perform dumps s op).1 rest

end Results

/-- The assembler after a series of feeds. -/
def feeds (s : Tools) (arrays : List Json) : Tools := arrays.foldl (fun s a => (feed s a).1) s

end Recursant.StreamTools
