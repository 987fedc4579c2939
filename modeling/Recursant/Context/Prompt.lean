import Mathlib.Data.Rat.Defs
import Recursant.Json
import Recursant.Lib.Probing
import Recursant.Lib.Runs

/-!
# The prompt classifier

A linear model over the newest message of a request: eight dense features and one weight for each
word of a vocabulary.  Weights are exact; `log1p` is a parameter, and the logistic function is not
applied.
-/

namespace Recursant.Prompt

/-- `RC_PROMPT_TEXT_MAX` -/
def textMax : Nat := 65536

/-- `RC_PROMPT_TOKEN_MAX` -/
def tokenMax : Nat := 32

/-- `RC_PROMPT_VOCAB_MAX` -/
def vocabMax : Nat := 20000

/-- `rc_prompt_names` -/
def names : List Text :=
  ["bias", "log_chars", "log_lines", "log_tokens", "code_frac", "digit_frac", "ops_frac", "question"]

/-! ## The vocabulary -/

structure Vocab where
  mask : Nat
  keys : List Text
  weights : List Rat
  slots : Nat → Nat

def hash (s : Text) : UInt64 := Probing.fnv s

/-- `none` if the loop does not come back; a key that is there has an index. -/
def lookup (v : Vocab) (s : Text) : Option (Option Nat) :=
  if v.keys = [] then some none
  else Probing.walk (fun i => (i + 1) &&& v.mask) (Probing.decides (v.keys[·]?) v.slots s)
    (v.mask + 1) ((hash s).toNat &&& v.mask)

/-- `cap <<= 1` as long as the capacity is too small. -/
def capacity (n : Nat) : Nat := Probing.capacity n

/-- The loop that inserts the keys. -/
def fill (mask : Nat) (slots : Nat → Nat) : List (Text × Nat) → Option (Nat → Nat)
  | [] => some slots
  | (key, e) :: rest =>
      match Probing.place (fun i => (i + 1) &&& mask) slots (mask + 1) ((hash key).toNat &&& mask) e with
      | none => none
      | some slots => fill mask slots rest

/-- `none` if an insertion does not come back. -/
def vocab (entries : List (Text × Rat)) : Option Vocab :=
  let mask := capacity entries.length - 1
  let keys := entries.map Prod.fst
  (fill mask (fun _ => 0) keys.zipIdx).map fun slots =>
    ⟨mask, keys, entries.map Prod.snd, slots⟩

/-! ## The configuration -/

/-- A finite number of at most 100, in size. -/
def weight (v : Json) : Option Rat :=
  match v.number? with
  | some w => if 100 < |w| then none else some w
  | none => none

def tokenOk (k : Text) : Bool :=
  !k.isEmpty && k.length ≤ tokenMax && k.all fun c => (97 ≤ c && c ≤ 122) || isdigit c

/-- What the local encoder gives: an embedding of a text, or nothing, and a weight for each of its
dimensions. -/
structure Encoder where
  weights : List Rat
  embed : Text → Option (List Rat)

structure Config where
  enabled : Bool
  agentTurns : Bool
  simpleMin : Rat
  weights : List Rat
  vocab : Vocab
  encoder : Option Encoder

/-- `c.weights[i] = w` for each name. -/
def denseWeights : List (Text × Json) → List Rat → Option (List Rat)
  | [], weights => some weights
  | (key, v) :: members, weights =>
      if key ∈ names then
        match weight v with
        | some w => denseWeights members (weights.set (names.idxOf key) w)
        | none => none
      else none

def vocabEntries : List (Text × Json) → Option (List (Text × Rat))
  | [] => some []
  | (key, v) :: members =>
      if tokenOk key then
        match weight v, vocabEntries members with
        | some w, some entries => some ((key, w) :: entries)
        | _, _ => none
      else none

/-- A section up to its encoder. -/
structure Checked where
  weights : List Rat
  entries : List (Text × Rat)
  simpleMin : Rat
  agentTurns : Bool
  deriving DecidableEq

def checkSection (s : Json) : Option Checked :=
  match s with
  | .object members =>
      if members.any fun m => !(m.1 ∈ [text "weights", "vocab", "simple_min", "agent_turns", "encoder"])
      then none
      else
        match s.get? "weights", s.get? "vocab", (s.get? "simple_min").bind Json.number? with
        | some (.object w), some (.object vocab), some simpleMin =>
            let agent := s.get? "agent_turns"
            if agent.any fun a => !a.isBool then none
            else if ¬ (1 / 2 ≤ simpleMin ∧ simpleMin ≤ 1) then none
            else
              match denseWeights w (List.replicate names.length 0) with
              | none => none
              | some weights =>
                  if !w.any fun m => m.1 = text "bias" then none
                  else if vocabMax < vocab.length then none
                  else
                    match vocabEntries vocab with
                    | none => none
                    | some entries => some ⟨weights, entries, simpleMin, agent = some (.bool true)⟩
        | _, _, _ => none
  | _ => none

/-- `rc_prompt_configure`; `none` if it does not come back. -/
def configure (configureEncoder : Json → Option Encoder) (s : Json) : Option (Option Config) :=
  match checkSection s with
  | none => some none
  | some k =>
      match vocab k.entries with
      | none => none
      | some v =>
          match s.get? "encoder" with
          | none => some (some ⟨true, k.agentTurns, k.simpleMin, k.weights, v, none⟩)
          | some e =>
              match configureEncoder e with
              | none => some none
              | some encoder =>
                  some (some ⟨true, k.agentTurns, k.simpleMin, k.weights, v, some encoder⟩)

/-! ## The score -/

def alnum (c : Byte) : Bool := (97 ≤ c && c ≤ 122) || (65 ≤ c && c ≤ 90) || isdigit c

def codeBytes : Text := text "\x7b\x7d[]()=;_\x60\\#<>"

def opsBytes : Text := text "+-*/^%"

structure Counts where
  lines : Nat := 0
  code : Nat := 0
  digits : Nat := 0
  ops : Nat := 0
  tokens : Nat := 0
  question : Bool := false
  inside : Bool := false

def count (k : Counts) (c : Byte) : Counts where
  lines := if c = 10 then k.lines + 1 else k.lines
  question := k.question || c == 63
  digits := if isdigit c then k.digits + 1 else k.digits
  code := if c ≠ 0 ∧ c ∈ codeBytes then k.code + 1 else k.code
  ops := if c ≠ 0 ∧ c ∈ opsBytes then k.ops + 1 else k.ops
  tokens := if alnum c && !k.inside then k.tokens + 1 else k.tokens
  inside := alnum c

section

variable (log1p : Nat → Rat)

/-- `rc_prompt_dense` -/
def dense (t : Text) : List Rat :=
  let n := (t.take textMax).length
  let k := (t.take textMax).foldl count {}
  let d : Rat := if n = 0 then 1 else n
  [1, log1p n, log1p k.lines, log1p k.tokens, if n = 0 then 0 else k.code / d,
    if n = 0 then 0 else k.digits / d, if n = 0 then 0 else k.ops / d, if k.question then 1 else 0]

/-- `seen` and `z`. -/
structure Sum where
  seen : Nat → Nat
  z : Rat

def isSeen (seen : Nat → Nat) (e : Nat) : Bool := seen (e / 8) &&& (1 <<< (e % 8)) ≠ 0

def mark (seen : Nat → Nat) (e : Nat) : Nat → Nat :=
  Function.update seen (e / 8) (seen (e / 8) ||| (1 <<< (e % 8)))

/-- One run of letters and digits. -/
def addToken (v : Vocab) (k : Sum) (run : Text) : Option Sum :=
  if run.length ≤ tokenMax then
    match lookup v (run.map tolower) with
    | none => none
    | some none => some k
    | some (some e) =>
        if isSeen k.seen e then some k
        else some ⟨mark k.seen e, k.z + v.weights.getD e 0⟩
  else some k

/-- The loop over the runs; it has as many rounds as the text has bytes, at most. -/
def addTokens (v : Vocab) : Nat → Text → Sum → Option Sum
  | _, [], k => some k
  | 0, _ :: _, _ => none
  | rounds + 1, c :: rest, k =>
      if alnum c then
        match addToken v k ((c :: rest).takeWhile alnum) with
        | none => none
        | some k => addTokens v rounds ((c :: rest).dropWhile alnum) k
      else addTokens v rounds rest k

/-- A sum of products. -/
def dot (weights features : List Rat) : Rat := (List.zipWith (· * ·) weights features).sum

/-- `rc_prompt_score_text` up to the logistic function: `none` if it does not come back, and then
`none` for -1. -/
def scoreText (c : Config) (t : Text) : Option (Option Rat) :=
  if !c.enabled then some none
  else
    let t := t.take textMax
    match addTokens c.vocab t.length t ⟨fun _ => 0, dot c.weights (dense log1p t)⟩ with
    | none => none
    | some k =>
        match c.encoder with
        | none => some (some k.z)
        | some encoder =>
            if 1024 < encoder.weights.length then some none
            else
              match encoder.embed t with
              | none => some none
              | some e => some (some (k.z + dot encoder.weights e))

/-- One part of a content that is a list. -/
def addPart (k : Text × Bool) (part : Json) : Text × Bool :=
  match (part.get? "type").bind Json.text?, (part.get? "text").bind Json.text? with
  | some type, some t =>
      if type = text "text" then
        let buf := if k.2 && k.1.length < textMax then k.1 ++ [10] else k.1
        (buf ++ t.take (textMax - buf.length), true)
      else k
  | _, _ => k

/-- `rc_prompt_score` -/
def score (c : Config) (body : Json) : Option (Option Rat) :=
  match ((body.get? "messages").map Json.elements).getD [] |>.getLast? with
  | none => some none
  | some last =>
      if !c.enabled then some none
      else if (last.get? "role").bind Json.text? ≠ some (text "user") then some none
      else
        match last.get? "content" with
        | some (.string t) => scoreText log1p c t
        | some (.array parts) =>
            let (buf, any) := parts.foldl addPart ([], false)
            if any then scoreText log1p c buf else some none
        | _ => some none

end

end Recursant.Prompt
