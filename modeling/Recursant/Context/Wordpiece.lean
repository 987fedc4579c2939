import Recursant.Lib.Bisection
import Recursant.Lib.Probing
import Recursant.Text

/-!
# The WordPiece tokenizer

One pass over the bytes of a text: each code point is decoded, folded, and ends a word, is one, or
goes on with one.  The generated tables of removed and punctuation characters and of folds are
parameters; spaces and the CJK ranges are given.
-/

namespace Recursant.Tokenizer

/-- `WP_MAX_WORD_CHARS` -/
def maxWordChars : Nat := 100

/-- `WP_TOKEN_MAX` -/
def tokenMax : Nat := 200

/-! ## The vocabulary -/

/-- The id of a key is its line. -/
structure Vocab where
  mask : Nat
  keys : List Text
  slots : Nat → Nat

def hash (s : Text) : UInt64 := Probing.fnv s

/-- The loop of `lookup`; `none` if it does not come back. -/
def search (v : Vocab) (s : Text) : Option (Option Nat) :=
  Probing.walk (fun i => (i + 1) &&& v.mask) (Probing.decides (v.keys[·]?) v.slots s) (v.mask + 1)
    ((hash s).toNat &&& v.mask)

def lookup (v : Vocab) (s : Text) : Option Nat := (search v s).getD none

/-- The loop over the entries; a key that is there already keeps its first line. -/
def fill (v : Vocab) : List (Text × Nat) → Option Vocab
  | [] => some v
  | (key, e) :: rest =>
      if (lookup v key).isSome then fill v rest
      else
        match Probing.place (fun i => (i + 1) &&& v.mask) v.slots (v.mask + 1)
          ((hash key).toNat &&& v.mask) e with
        | none => none
        | some slots => fill { v with slots } rest

structure Wordpiece where
  vocab : Vocab
  cls : Nat
  sep : Nat
  unk : Nat

/-- The lines that `getline` gives, without the bytes at their ends, as C strings. -/
def readLines (file : Text) : List Text :=
  let lines := file.splitOn 10
  let lines := if lines.getLast? = some [] then lines.dropLast else lines
  lines.map fun line => ((line.reverse.dropWhile fun c => c = 10 ∨ c = 13).reverse).takeWhile (· ≠ 0)

/-- `rc_wordpiece_load` of a file that can be read. -/
def load (file : Text) : Option Wordpiece :=
  let keys := readLines file
  if keys = [] ∨ 2 ^ 32 - 2 < keys.length then none
  else
    match fill ⟨Probing.capacity keys.length - 1, keys, fun _ => 0⟩ keys.zipIdx with
    | none => none
    | some v =>
        match lookup v "[CLS]", lookup v "[SEP]", lookup v "[UNK]" with
        | some cls, some sep, some unk => some ⟨v, cls, sep, unk⟩
        | _, _, _ => none

/-! ## Code points -/

/-- The number of bytes behind the first one; nine for a byte that begins none. -/
def need (c : Byte) : Nat :=
  if c < 0x80 then 0 else if c.toNat / 32 = 6 then 1 else if c.toNat / 16 = 14 then 2
  else if c.toNat / 8 = 30 then 3 else 9

def isContinuation (c : Byte) : Bool := c.toNat / 64 = 2

/-- `next_cp` on a byte and those behind it: the code point, and what is left. -/
def nextCp (c : Byte) (rest : Text) : Nat × Text :=
  if need c = 9 ∨ rest.length < need c then (0xFFFD, rest)
  else if (rest.take (need c)).all isContinuation then
    let first := if need c = 0 then c.toNat else c.toNat % 2 ^ (6 - need c)
    ((rest.take (need c)).foldl (fun cp b => cp * 64 + b.toNat % 64) first, rest.drop (need c))
  else (0xFFFD, rest)

/-- `put_cp` -/
def putCp (cp : Nat) : Text :=
  if cp < 0x80 then [cp.toUInt8]
  else if cp < 0x800 then [(0xC0 + cp / 64).toUInt8, (0x80 + cp % 64).toUInt8]
  else if cp < 0x10000 then
    [(0xE0 + cp / 4096).toUInt8, (0x80 + cp / 64 % 64).toUInt8, (0x80 + cp % 64).toUInt8]
  else
    [(0xF0 + cp / 262144).toUInt8, (0x80 + cp / 4096 % 64).toUInt8, (0x80 + cp / 64 % 64).toUInt8,
      (0x80 + cp % 64).toUInt8]

/-! ## Classes -/

/-- The generated tables. -/
structure Tables where
  removed : List (Nat × Nat)
  punct : List (Nat × Nat)
  fold : List (Nat × Text)

def wpSpace : List (Nat × Nat) :=
  [(0x9, 0xA), (0xD, 0xD), (0x20, 0x20), (0xA0, 0xA0), (0x1680, 0x1680), (0x2000, 0x200A),
    (0x2028, 0x2029), (0x202F, 0x202F), (0x205F, 0x205F), (0x3000, 0x3000)]

def wpCjk : List (Nat × Nat) :=
  [(0x4E00, 0x9FFF), (0x3400, 0x4DBF), (0x20000, 0x2A6DF), (0x2A700, 0x2B73F), (0x2B740, 0x2B81F),
    (0x2B820, 0x2CEAF), (0xF900, 0xFAFF), (0x2F800, 0x2FA1F)]

def sideOf (low high cp : Nat) : Ordering := if cp < low then .lt else if high < cp then .gt else .eq

/-- `in` -/
def inRanges (r : List (Nat × Nat)) (cp : Nat) : Bool :=
  (Bisection.bisect (fun i => sideOf (r.getD i (0, 0)).1 (r.getD i (0, 0)).2 cp)
    (r.length + 1) 0 r.length).isSome

/-- `folded` -/
def folded (fold : List (Nat × Text)) (cp : Nat) : Option Text :=
  (Bisection.bisect (fun i => sideOf (fold.getD i (0, [])).1 (fold.getD i (0, [])).1 cp)
    (fold.length + 1) 0 fold.length).map fun i => (fold.getD i (0, [])).2

/-- The linear search. -/
def isCjk (cp : Nat) : Bool := wpCjk.any fun r => r.1 ≤ cp && cp ≤ r.2

/-! ## Words -/

/-- `emit` -/
def emit (max : Nat) (ids : List Nat) (id : Nat) : List Nat :=
  if ids.length < max then ids ++ [id] else ids

/-- `do end--; while (end > start && (w[end] & 0xC0) == 0x80)` -/
def shrink (w : Text) (start : Nat) : Nat → Nat
  | 0 => 0
  | stop + 1 =>
      if start < stop ∧ (w.getD stop 0).toNat / 64 = 2 then shrink w start stop else stop

/-- The longest piece at the start, shorter and shorter ones after it. -/
def longestFrom (v : Vocab) (w : Text) (start : Nat) : Nat → Nat → Option (Nat × Nat)
  | 0, _ => none
  | steps + 1, stop =>
      if start < stop then
        match lookup v ((if start = 0 then [] else [35, 35]) ++ (w.drop start).take (stop - start)) with
        | some id => some (id, stop)
        | none => longestFrom v w start steps (shrink w start stop)
      else none

/-- The pieces from a start on. -/
def pieces (v : Vocab) (w : Text) : Nat → Nat → Option (List Nat)
  | 0, _ => none
  | steps + 1, start =>
      if start < w.length then
        match longestFrom v w start (w.length + 1) w.length with
        | none => none
        | some (id, stop) => (pieces v w steps stop).map (id :: ·)
      else some []

def wordpiece (wp : Wordpiece) (w : Text) (chars max : Nat) (ids : List Nat) : List Nat :=
  if maxWordChars < chars then emit max ids wp.unk
  else
    match pieces wp.vocab w (w.length + 1) 0 with
    | none => emit max ids wp.unk
    | some ps => ps.foldl (emit max) ids

/-! ## The pass -/

structure Scan where
  ids : List Nat
  word : Text := []
  chars : Nat := 0
  long : Bool := false

/-- `FLUSH` -/
def flush (wp : Wordpiece) (max : Nat) (s : Scan) : Scan where
  ids :=
    if s.chars = 0 then s.ids
    else if s.long then emit max s.ids wp.unk
    else wordpiece wp s.word s.chars max s.ids

/-- One code point of a folded text, and its bytes. -/
def normalized (T : Tables) (wp : Wordpiece) (max : Nat) (s : Scan) (c : Nat) (bytes : Text) : Scan :=
  if inRanges wpSpace c then flush wp max s
  else if inRanges T.punct c then
    { flush wp max s with ids := wordpiece wp bytes 1 max (flush wp max s).ids }
  else
    { s with
      word := if s.chars < tokenMax then s.word ++ bytes else s.word
      chars := s.chars + 1
      long := s.long || !(s.chars < tokenMax) || maxWordChars < s.chars + 1 }

/-- The loop over a folded text. -/
def foldedLoop (T : Tables) (wp : Wordpiece) (max : Nat) : Nat → Text → Scan → Scan
  | 0, _, s => s
  | _, [], s => s
  | steps + 1, b :: bytes, s =>
      let (c, rest) := nextCp b bytes
      foldedLoop T wp max steps rest
        (normalized T wp max s c ((b :: bytes).take ((b :: bytes).length - rest.length)))

/-- A Hangul syllable as its parts. -/
def jamo (cp : Nat) : Text :=
  let si := cp - 0xAC00
  putCp (0x1100 + si / 588) ++ putCp (0x1161 + si % 588 / 28) ++
    if si % 28 = 0 then [] else putCp (0x11A7 + si % 28)

/-- What a code point becomes before it is split. -/
def foldedText (T : Tables) (cp : Nat) : Text :=
  if 0xAC00 ≤ cp ∧ cp ≤ 0xD7A3 then jamo cp
  else
    match folded T.fold cp with
    | some f => f
    | none => putCp cp

/-- One code point of the text. -/
def codePoint (T : Tables) (wp : Wordpiece) (max : Nat) (s : Scan) (cp : Nat) : Scan :=
  if inRanges T.removed cp then s
  else if inRanges wpSpace cp then flush wp max s
  else if isCjk cp then
    { flush wp max s with ids := wordpiece wp (putCp cp) 1 max (flush wp max s).ids }
  else foldedLoop T wp max (foldedText T cp).length (foldedText T cp) s

def textLoop (T : Tables) (wp : Wordpiece) (max : Nat) : Nat → Text → Scan → Scan
  | 0, _, s => s
  | _, [], s => s
  | steps + 1, b :: bytes, s =>
      if s.ids.length < max then
        let (cp, rest) := nextCp b bytes
        textLoop T wp max steps rest (codePoint T wp max s cp)
      else s

/-- `rc_wordpiece_encode` -/
def encode (T : Tables) (wp : Wordpiece) (text : Text) (maxIds : Nat) : List Nat :=
  if maxIds < 2 then []
  else
    let max := maxIds - 1
    let s := textLoop T wp max text.length text { ids := emit max [] wp.cls }
    let ids := if s.ids.length < max then (flush wp max s).ids else s.ids
    emit maxIds ids wp.sep

end Recursant.Tokenizer
