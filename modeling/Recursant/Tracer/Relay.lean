import Recursant.Tracer.Head

/-!
# The relay of a body

`chunked_step` and `relay_response`.  The rounds of the loop take from outside what `poll`, `recv`
and `send` give; the bytes of the body go to the client as they come.
-/

namespace Recursant.Tracer

/-- `RELAY_CHUNK` -/
def relayChunk : Nat := 65536

/-! ## The framing tracker -/

inductive ChunkState where
  | sizeStart | size | ext | sizeCr | data | dataCr | dataLf | trailerCr | finished | error
  deriving DecidableEq

structure Tracker where
  state : ChunkState := .sizeStart
  remaining : Int := 0
  deriving DecidableEq

/-- A 64-bit `long`. -/
def long (n : Int) : Int := Int.bmod n (2 ^ 64)

/-- After the line of a size: `*remaining == 0 ? CS_TRAILER_CR : CS_DATA`. -/
def afterSize (remaining : Int) : ChunkState := if remaining = 0 then .trailerCr else .data

/-- `chunked_step` -/
def chunkedStep (k : Tracker) (c : Byte) : Tracker :=
  match k.state with
  | .sizeStart => if isxdigit c then ⟨.size, xdigit c⟩ else { k with state := .error }
  | .size =>
      if isxdigit c then { k with remaining := long (k.remaining * 16 + xdigit c) }
      else if c = 59 then { k with state := .ext }
      else if c = 13 then { k with state := .sizeCr }
      else if c = 10 then { k with state := afterSize k.remaining }
      else { k with state := .error }
  | .ext => if c = 10 then { k with state := afterSize k.remaining } else k
  | .sizeCr =>
      if c = 10 then { k with state := afterSize k.remaining } else { k with state := .error }
  | .data =>
      let remaining := long (k.remaining - 1)
      ⟨if remaining ≤ 0 then .dataCr else .data, remaining⟩
  | .dataCr => { k with state := if c = 13 then .dataLf else .error }
  | .dataLf => { k with state := if c = 10 then .sizeStart else .error }
  | .trailerCr => { k with state := if c = 13 then .finished else .error }
  | .finished => k
  | .error => { k with state := .error }

def track (k : Tracker) (bytes : Text) : Tracker := bytes.foldl chunkedStep k

/-- The step computes a number that a `long` does not hold. -/
def Wraps (k : Tracker) (c : Byte) : Prop :=
  (k.state = .size ∧ isxdigit c = true ∧ longMax < k.remaining * 16 + xdigit c) ∨
    (k.state = .data ∧ k.remaining - 1 < longMin)

/-- No step on the way through the bytes wraps. -/
def Wrapless (k : Tracker) (bytes : Text) : Prop :=
  ∀ before c after, bytes = before ++ c :: after → ¬ Wraps (track k before) c

/-! ## The relay -/

structure Relay where
  clRemaining : Int
  tracker : Tracker := {}
  written : Text
  deriving DecidableEq

inductive Status where
  | running (r : Relay)
  | ended (code : Int) (written : Text)
  deriving DecidableEq

/-- The client during one round: gone, with data that is drained, or quiet. -/
inductive ClientSide where
  | gone
  | piped
  | quiet

/-- The upstream during one round; `taken` is whether the client takes what is written. -/
inductive UpstreamSide where
  | sent (bytes : Text) (taken : Bool)
  | eof
  | interrupted
  | failed
  | quiet

/-- How `poll` comes back. -/
inductive Wake where
  | interrupted
  | failed
  | ready (client : ClientSide) (upstream : UpstreamSide)

/-- The head of the loop. -/
def goOn (ri : RespInfo) (r : Relay) : Status :=
  if ri.hasCl ∧ r.clRemaining = 0 then .ended 0 r.written
  else if ri.chunked ∧ r.tracker.state = .finished then .ended 0 r.written
  else .running r

/-- The tracker is fed, then the bytes are written. -/
def forward (ri : RespInfo) (bytes : Text) (taken : Bool) (r : Relay) : Status :=
  let tracker := if ri.chunked then track r.tracker bytes else r.tracker
  let clRemaining := if ¬ ri.chunked ∧ ri.hasCl then r.clRemaining - bytes.length else r.clRemaining
  if ri.chunked ∧ tracker.state = .error then .ended (-1) r.written
  else if ¬ ri.chunked ∧ ri.hasCl ∧ clRemaining < 0 then .ended (-1) r.written
  else if taken then goOn ri ⟨clRemaining, tracker, r.written ++ bytes⟩
  else .ended (-1) r.written

/-- Upstream EOF is acceptable only when the framing is complete. -/
def upstreamEof (ri : RespInfo) (r : Relay) : Status :=
  if ri.hasCl ∧ 0 < r.clRemaining then .ended (-1) r.written
  else if ri.chunked ∧ r.tracker.state ≠ .finished then .ended (-1) r.written
  else .ended 0 r.written

/-- One round. -/
def round (ri : RespInfo) (s : Status) (w : Wake) : Status :=
  match s with
  | .ended code written => .ended code written
  | .running r =>
      match w with
      | .interrupted => .running r
      | .failed => .ended (-1) r.written
      | .ready .gone _ => .ended (-1) r.written
      | .ready _ (.sent bytes taken) => forward ri bytes taken r
      | .ready _ .eof => upstreamEof ri r
      | .ready _ .interrupted => .running r
      | .ready _ .failed => .ended (-1) r.written
      | .ready _ .quiet => .running r

/-- What the environment does: whether the head and the bytes behind it are taken, and the rounds. -/
structure Delivery where
  headTaken : Bool
  leftover : Text
  leftoverTaken : Bool
  wakes : List Wake

/-- `relay_response`, until it returns or the delivery is over. -/
def relayResponse (upHead : Text) (d : Delivery) : Status :=
  match buildDownstreamHead upHead (headBuf + 64) with
  | none => .ended (-1) []
  | some (out, ri) =>
      if d.headTaken then
        let start : Relay := { clRemaining := if ri.hasCl then ri.cl else -1, written := out }
        let begun :=
          if d.leftover = [] then goOn ri start else forward ri d.leftover d.leftoverTaken start
        d.wakes.foldl (round ri) begun
      else .ended (-1) []

/-! ## What the tracker reads -/

theorem track_append (k : Tracker) (a b : Text) : track k (a ++ b) = track (track k a) b :=
  List.foldl_append

theorem Wrapless.append {k : Tracker} {a b : Text} (h : Wrapless k (a ++ b)) :
    Wrapless k a ∧ Wrapless (track k a) b := by
  constructor
  · intro before c after heq
    exact h before c (after ++ b) (by rw [heq]; simp)
  · intro before c after heq
    rw [← track_append]
    exact h (a ++ before) c after (by rw [heq]; simp)

theorem Wrapless.head {k : Tracker} {c : Byte} {bytes : Text} (h : Wrapless k (c :: bytes)) :
    ¬ Wraps k c ∧ Wrapless (chunkedStep k c) bytes :=
  ⟨h [] c bytes rfl, (Wrapless.append (a := [c]) h).2⟩

theorem track_error {k : Tracker} (h : k.state = .error) (bytes : Text) :
    (track k bytes).state = .error := by
  induction bytes generalizing k with
  | nil => exact h
  | cons c bytes ih =>
      apply ih
      unfold chunkedStep
      rw [h]

theorem track_finished {k : Tracker} (h : k.state = .finished) (bytes : Text) :
    track k bytes = k := by
  induction bytes with
  | nil => rfl
  | cons c bytes ih =>
      have hstep : chunkedStep k c = k := by
        unfold chunkedStep
        rw [h]
      show track (chunkedStep k c) bytes = k
      rw [hstep, ih]

theorem xdigit_lt {c : Byte} (h : isxdigit c = true) : xdigit c < 16 := by
  have hall : ∀ n < 256, isxdigit (UInt8.ofNat n) = true → xdigit (UInt8.ofNat n) < 16 := by
    decide +kernel
  have hc := hall c.toNat c.toNat_lt
  rw [UInt8.ofNat_toNat] at hc
  exact hc h

/-- In the range of a `long` a number is kept. -/
theorem long_of_range {n : Int} (hmin : longMin ≤ n) (hmax : n ≤ longMax) : long n = n := by
  unfold longMin at hmin
  unfold longMax at hmax
  unfold long
  rw [Int.bmod_eq_of_le]
  · omega
  · omega

/-- Digits go on from a number, as long as it fits. -/
theorem track_digits {digits : Text} {n : Nat} (hhex : ∀ c ∈ digits, isxdigit c = true)
    (hmax : (n : Int) ≤ longMax) (h : Wrapless ⟨.size, n⟩ digits) :
    track ⟨.size, n⟩ digits = ⟨.size, hexFrom n digits⟩ ∧ (hexFrom n digits : Int) ≤ longMax := by
  induction digits generalizing n with
  | nil => exact ⟨rfl, hmax⟩
  | cons c digits ih =>
      have hc := hhex c List.mem_cons_self
      obtain ⟨hfits, hrest⟩ := h.head
      have hle : (n : Int) * 16 + xdigit c ≤ longMax := by
        rw [← not_lt]
        exact fun hlt => hfits (.inl ⟨rfl, hc, hlt⟩)
      have hstep : chunkedStep ⟨.size, n⟩ c = ⟨.size, (n * 16 + xdigit c : Nat)⟩ := by
        have hlong : long ((n : Int) * 16 + xdigit c) = (n * 16 + xdigit c : Nat) := by
          rw [long_of_range (by unfold longMin; omega) hle]
          push_cast
          rfl
        unfold chunkedStep
        dsimp only
        rw [if_pos hc, hlong]
      rw [hstep] at hrest
      show track (chunkedStep ⟨.size, n⟩ c) digits = _ ∧ _
      rw [hstep]
      exact ih (fun d hd => hhex d (List.mem_cons_of_mem c hd)) (by push_cast; exact hle) hrest

/-- An extension is passed over up to the end of its line. -/
theorem track_ext {t : Text} (h : 10 ∉ t) (remaining : Int) :
    track ⟨.ext, remaining⟩ t = ⟨.ext, remaining⟩ := by
  induction t with
  | nil => rfl
  | cons c t ih =>
      have hne : c ≠ 10 := fun hc => h (hc ▸ List.mem_cons_self)
      show track (chunkedStep ⟨.ext, remaining⟩ c) t = _
      rw [show chunkedStep ⟨.ext, remaining⟩ c = ⟨.ext, remaining⟩ from if_neg hne]
      exact ih fun hin => h (List.mem_cons_of_mem c hin)

theorem track_sizeLine {n : Nat} (l : SizeLine n) {remaining : Int}
    (h : Wrapless ⟨.sizeStart, remaining⟩ l.bytes) :
    track ⟨.sizeStart, remaining⟩ l.bytes = ⟨afterSize n, n⟩ ∧ (n : Int) ≤ longMax := by
  obtain ⟨digits, extension, hne, hhex, hsize, hmarked, hunbroken⟩ := l
  obtain ⟨d, ds, rfl⟩ := List.exists_cons_of_ne_nil hne
  have hd := hhex d List.mem_cons_self
  have hfirst : chunkedStep ⟨.sizeStart, remaining⟩ d = ⟨.size, (xdigit d : Nat)⟩ := if_pos hd
  unfold SizeLine.bytes at h ⊢
  dsimp only at h ⊢
  have hdigits := h.append.1.append.1.head.2
  rw [hfirst] at hdigits
  have hread := track_digits (fun c hc => hhex c (List.mem_cons_of_mem d hc))
    (by unfold longMax; have := xdigit_lt hd; omega) hdigits
  have hvalue : hexFrom (xdigit d) ds = n := by
    rw [← hsize]
    unfold hexFrom
    rw [List.foldl_cons, Nat.zero_mul, Nat.zero_add]
  rw [hvalue] at hread
  refine ⟨?_, hread.2⟩
  rw [track_append, track_append]
  show track (track (track (chunkedStep ⟨.sizeStart, remaining⟩ d) ds) extension) crlf = _
  rw [hfirst, hread.1]
  cases hmarked with
  | inl hnil =>
      rw [hnil]
      rfl
  | inr hmark =>
      cases extension with
      | nil => cases hmark
      | cons c rest =>
          cases hmark
          have hrest : 10 ∉ rest := fun hin => hunbroken.2 (List.mem_cons_of_mem _ hin)
          show track (track ⟨.ext, n⟩ rest) crlf = _
          rw [track_ext hrest]
          rfl

theorem track_data {data : Text} (hne : data ≠ []) (hmax : (data.length : Int) ≤ longMax) :
    track ⟨.data, data.length⟩ data = ⟨.dataCr, 0⟩ := by
  induction data with
  | nil => exact absurd rfl hne
  | cons c data ih =>
      have hlong : long ((c :: data).length - 1 : Int) = data.length := by
        rw [List.length_cons] at hmax ⊢
        rw [long_of_range (by unfold longMin; omega) (by omega)]
        omega
      have hstep : chunkedStep ⟨.data, (c :: data).length⟩ c =
          ⟨if (data.length : Int) ≤ 0 then .dataCr else .data, data.length⟩ := by
        unfold chunkedStep
        dsimp only
        rw [hlong]
      show track (chunkedStep ⟨.data, (c :: data).length⟩ c) data = _
      rw [hstep]
      cases data with
      | nil => rfl
      | cons e data =>
          rw [if_neg (by rw [List.length_cons]; omega)]
          exact ih (List.cons_ne_nil _ _) (by rw [List.length_cons] at hmax; omega)

theorem track_chunks {chunks : List Chunk} {remaining : Int}
    (h : Wrapless ⟨.sizeStart, remaining⟩ (chunks.flatMap Chunk.bytes)) :
    (track ⟨.sizeStart, remaining⟩ (chunks.flatMap Chunk.bytes)).state = .sizeStart := by
  induction chunks generalizing remaining with
  | nil => rfl
  | cons c chunks ih =>
      rw [List.flatMap_cons] at h ⊢
      unfold Chunk.bytes at h ⊢
      obtain ⟨hchunk, hrest⟩ := h.append
      obtain ⟨hsize, hmax⟩ := track_sizeLine c.size hchunk.append.1.append.1
      have hstate : afterSize (c.data.length : Int) = .data := by
        have hpos := List.length_pos_iff.mpr c.nonempty
        exact if_neg (by omega)
      have hread : track ⟨.sizeStart, remaining⟩ (c.size.bytes ++ c.data ++ crlf) =
          ⟨.sizeStart, 0⟩ := by
        rw [track_append, track_append, hsize, hstate, track_data c.nonempty hmax]
        rfl
      rw [hread] at hrest
      rw [track_append, hread]
      exact ih hrest

/-- A whole chunked body is read up to the empty line at its end. -/
theorem track_chunked {chunks : List Chunk} {last : SizeLine 0}
    (h : Wrapless {} (Body.chunked chunks last).bytes) :
    (track {} (chunks.flatMap Chunk.bytes ++ last.bytes)).state = .trailerCr := by
  unfold Body.bytes at h
  have hsizes := h.append.1.append
  have hchunks := track_chunks hsizes.1
  rw [track_append]
  obtain ⟨state, remaining, hk⟩ : ∃ state remaining,
      track {} (chunks.flatMap Chunk.bytes) = ⟨state, remaining⟩ := ⟨_, _, rfl⟩
  rw [hk] at hchunks hsizes ⊢
  cases hchunks
  rw [(track_sizeLine last hsizes.2).1]
  rfl

end Recursant.Tracer
