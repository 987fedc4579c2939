import Mathlib.Algebra.Order.Group.Nat
import Recursant.Lib.Metered
import Recursant.Compliance.Provenance
import Recursant.Provider.Adapters

/-!
# The content classifier and the dispatch gate

`classifier.c`.  A scan walks a body and every text in it that decodes as JSON, under four budgets
shared by the whole walk; a structural contract lists the members a body may have; the gate turns
the verdict into a destination.
-/

namespace Recursant.Compliance

def maxDepth : Nat := 32

def maxNodes : Nat := 4096

def maxScanBytes : Nat := 2 * 1024 * 1024

def maxMatches : Nat := 32768

/-! ## Policy -/

/-- What `pcre2_match` reports for one rule on one text. -/
inductive RuleResult where
  | found
  | noMatch
  | error
  deriving DecidableEq

/-- Compiled rules, the check-digit kinds scanned after them, and the record of public output. -/
structure Policy where
  rules : List (Text → RuleResult)
  identifiers : List (Text → Bool)
  provenance : Provenance

structure Runtime where
  config : Config
  complianceEnabled : Bool
  publicAllowed : Bool
  contentScanning : Bool
  agentText : Bool
  policy : Option Policy
  jansson : Jansson

inductive Verdict where
  | clean
  | pattern
  | unknown
  | regexError
  | unscanned
  deriving DecidableEq, Repr

/-! ## The scanner -/

@[ext]
structure Counters where
  nodes : Nat
  bytes : Nat
  matched : Nat
  deriving DecidableEq

/-- The verdicts a scan stops with. -/
inductive Veto where
  | pattern
  | unknown
  | regexError
  deriving DecidableEq, Repr

def Veto.verdict : Veto → Verdict
  | .pattern => .pattern
  | .unknown => .unknown
  | .regexError => .regexError

/-- A scan step: it goes on with new counters, which is the verdict `CLEAN`, or stops. -/
abbrev Scan := EStateM Veto Counters Unit

def countNode : Scan := fun s =>
  let s := { s with nodes := s.nodes + 1 }
  if s.nodes > maxNodes then .error .unknown s else .ok () s

def countMatch : Scan := fun s =>
  let s := { s with matched := s.matched + 1 }
  if s.matched > maxMatches then .error .unknown s else .ok () s

def takeBytes (n : Nat) : Scan := fun s =>
  if n > maxScanBytes - s.bytes then .error .unknown s
  else .ok () { s with bytes := s.bytes + n }

def require (p : Bool) (otherwise : Veto) : Scan :=
  if p then pure () else throw otherwise

def matchRule (t : Text) (rule : Text → RuleResult) : Scan := do
  countMatch
  require (rule t ≠ .found) .pattern
  require (rule t ≠ .error) .regexError

def rules (p : Policy) (t : Text) : Scan := do
  p.rules.forM (matchRule t)
  require (!p.identifiers.any (· t)) .pattern

/-! ### Text heuristics -/

/-- `;base64,` begins within the next `n` bytes, none of which is a comma or blank. -/
def base64Ahead : Nat → Text → Bool
  | 0, _ => false
  | _, [] => false
  | n + 1, c :: rest =>
      if c = 44 || isspace c then false
      else (text ";base64,").isPrefixOf (c :: rest) || base64Ahead n rest

/-- Embedded base64 media.  Occurrences of `data:` do not overlap, so every place may be tried. -/
def base64DataUri : Text → Bool
  | [] => false
  | c :: rest =>
      ((text "data:").isPrefixOf (c :: rest) && base64Ahead 128 (rest.drop 4)) || base64DataUri rest

/-- Remote or encoded media of strict mode. -/
def remoteMedia (t : Text) : Bool :=
  hasText "http://" t || hasText "https://" t || hasText "data:" t || hasText "file://" t

/-- The first byte after blanks opens an object, an array or a string. -/
def looksLikeJson (t : Text) : Bool :=
  match t.dropWhile isspace with
  | c :: _ => c = 123 || c = 91 || c = 34
  | [] => false

/-! ### Escapes -/

def hex (c : Byte) : Option Nat :=
  if 48 ≤ c && c ≤ 57 then some (c.toNat - 48)
  else if 97 ≤ c && c ≤ 102 then some (c.toNat - 87)
  else if 65 ≤ c && c ≤ 70 then some (c.toNat - 55)
  else none

/-- The code point of four hexadecimal digits. -/
def codePoint (a b c d : Byte) : Option Nat := do
  let a ← hex a
  let b ← hex b
  let c ← hex c
  let d ← hex d
  return a <<< 12 ||| b <<< 8 ||| c <<< 4 ||| d

/-- UTF-8, except that NUL and surrogates become a separator. -/
def encodePoint (cp : Nat) : Text :=
  if cp = 0 || (0xD800 ≤ cp && cp ≤ 0xDFFF) then [32]
  else if cp < 0x80 then [cp.toUInt8]
  else if cp < 0x800 then [(0xC0 ||| cp >>> 6).toUInt8, (0x80 ||| (cp &&& 0x3F)).toUInt8]
  else [(0xE0 ||| cp >>> 12).toUInt8, (0x80 ||| ((cp >>> 6) &&& 0x3F)).toUInt8,
    (0x80 ||| (cp &&& 0x3F)).toUInt8]

/-- The byte an escape letter stands for: white space escapes become a blank. -/
def escaped (e : Byte) : Byte :=
  if e = 110 || e = 114 || e = 116 || e = 98 || e = 102 then 32 else e

/-- The decoding pass of `escaped_rules`. -/
def unescape : Text → Text
  | [] => []
  | [c] => [c]
  | c :: e :: rest =>
      if c ≠ 92 then c :: unescape (e :: rest)
      else match rest with
        | h₁ :: h₂ :: h₃ :: h₄ :: tail =>
            match if e = 117 then codePoint h₁ h₂ h₃ h₄ else none with
            | some cp => encodePoint cp ++ unescape tail
            | none => escaped e :: unescape (h₁ :: h₂ :: h₃ :: h₄ :: tail)
        | short => escaped e :: unescape short

def escapedRules (p : Policy) (t : Text) : Scan := do
  if t.contains 92 then
    takeBytes t.length
    rules p (unescape t)
  else pure ()

/-! ### The walk -/

variable (r : Runtime) (p : Policy)

/-- `text_scan` within the depth bound; `nested` scans what the text decodes to. -/
def textScan (nested : Json → Scan) (t : Text) : Scan := do
  require (!t.contains 0) .unknown
  takeBytes t.length
  rules p t
  require (if r.agentText then !base64DataUri t else !remoteMedia t) .unknown
  if looksLikeJson t then
    match r.jansson.loadb t with
    | none => if r.agentText then escapedRules p t else throw .unknown
    | some v => nested v
  else if r.agentText then escapedRules p t
  else pure ()

/-- A `reasoning_details` member all of whose elements are recorded public output. -/
def exempt (key : Text) (child : Json) : Bool :=
  key = text "reasoning_details" && p.provenance.known r.jansson child

/-- `scan`.  The first argument is the room left: the source's depth `d` is `maxDepth + 1 - d`,
and no room is its depth check failing. -/
def scan : Nat → Json → Scan
  | 0, _ => throw .unknown
  | room + 1, v => do
      countNode
      match v with
      | .string t => textScan r p (scan room) t
      | .array elements => elements.forM (scan room)
      | .object members => members.forM fun (key, child) => do
          match room with
          | 0 => throw .unknown
          | below + 1 => textScan r p (scan below) key
          if exempt r p key child then pure () else scan room child
      | scalar =>
          match r.jansson.dumps scalar with
          | none => throw .unknown
          | some t => textScan r p (scan room) t

end Recursant.Compliance
