import Mathlib.Data.List.DropRight
import Recursant.Tracer.Message

/-!
# The head that goes downstream

`read_head` and `build_downstream_head`: the bytes up to the first empty line, and their lines with
`Connection: close` behind them.
-/

namespace Recursant.Tracer

/-- `HEAD_BUF` -/
def headBuf : Nat := 16384

/-! ## Reading -/

/-- Where the first empty line ends, from a number of bytes on. -/
def headEndFrom (passed : Nat) : Text → Option Nat
  | [] => none
  | c :: rest =>
      if (crlf ++ crlf).isPrefixOf (c :: rest) then some (passed + 4)
      else headEndFrom (passed + 1) rest

/-- `*head_end`, when the terminator is in the buffer. -/
def headEnd (buf : Text) : Option Nat := headEndFrom 0 buf

/-- What has been read and where its head ends; `none` for EOF, an error or a head that is longer
than the buffer. -/
def readHead (buf : Text) : List Text → Option (Text × Nat)
  | [] => (headEnd buf).map (buf, ·)
  | bytes :: recvs =>
      match headEnd buf with
      | some n => some (buf, n)
      | none =>
          -- `recv` gets the room that is left
          if buf.length = headBuf ∨ bytes = [] ∨ headBuf - buf.length < bytes.length then none
          else readHead (buf ++ bytes) recvs

/-! ## Rewriting -/

/-- The framing that an upstream head gives. -/
structure RespInfo where
  hasCl : Bool := false
  cl : Int := 0
  chunked : Bool := false

/-- The lines of a text; what follows the last end of a line is not one. -/
def linesFrom (line : Text) : Text → List Text
  | [] => []
  | c :: rest => if c = 10 then (line ++ [c]) :: linesFrom [] rest else linesFrom (line ++ [c]) rest

/-- The line starts with the name, in any case. -/
def startsWith (name line : Text) : Bool := caseEq (line.take name.length) name

/-- The value behind `content-length:`, if it is a number that a `long` holds. -/
def contentLength (line : Text) : Option Int :=
  let value := ((line.drop 15).rdropWhile fun c => c = 13 ∨ c = 10).dropWhile (· = 32)
  if value = [] ∨ 32 ≤ value.length then none
  else
    let conversion := strtol (value.takeWhile (· ≠ 0))
    if conversion.range ∨ conversion.rest ≠ [] ∨ conversion.value < 0 then none
    else some conversion.value

/-- A chunked coding anywhere in the value. -/
def namesChunked (line : Text) : Bool :=
  hasText (text "chunked") (((line.take (line.length - 2)).drop 18).map tolower)

/-- The line goes to the client unless the head would be longer than its buffer. -/
def keepLine (cap : Nat) (out line : Text) (ri : RespInfo) : Option (Text × RespInfo) :=
  if cap < out.length + line.length then none else some (out ++ line, ri)

/-- One line of the head behind the status line. -/
def headerLine (cap : Nat) (draft : Text × RespInfo) (line : Text) : Option (Text × RespInfo) :=
  if startsWith "content-length:" line then
    match contentLength line with
    | none => none
    | some v => keepLine cap draft.1 line { draft.2 with cl := v, hasCl := true }
  else if startsWith "transfer-encoding:" line then
    some (draft.1, { draft.2 with chunked := draft.2.chunked || namesChunked line })
  else if startsWith "connection:" line then some draft
  else keepLine cap draft.1 line draft.2

def closing : Text := text "Connection: close" ++ crlf ++ crlf

/-- `build_downstream_head`; what it appends fits behind every head that `read_head` can return. -/
def buildDownstreamHead (upHead : Text) (cap : Nat) : Option (Text × RespInfo) :=
  if upHead.length < 12 ∨ upHead.take 5 ≠ text "HTTP/" then none
  else
    match linesFrom [] upHead with
    | [] => none
    | status :: lines =>
        if cap < status.length + 2 then none
        else
          match lines.foldlM (headerLine cap) (status, {}) with
          | none => none
          | some (out, ri) =>
              if cap < out.length + 20 then none else some (out ++ closing, ri)

/-! ## The head of a response -/

/-- A line without an empty one behind it is passed over. -/
theorem headEndFrom_line {line : Text} (h : Unbroken line) (passed : Nat) (rest : Text) :
    headEndFrom passed (line ++ crlf ++ rest) =
      if crlf.isPrefixOf rest then some (passed + line.length + 4)
      else headEndFrom (passed + line.length + 2) rest := by
  induction line generalizing passed with
  | nil =>
      show headEndFrom passed (13 :: 10 :: rest) = _
      have hprefix : (crlf ++ crlf).isPrefixOf (13 :: 10 :: rest) = crlf.isPrefixOf rest := rfl
      rw [headEndFrom, hprefix]
      cases crlf.isPrefixOf rest with
      | true => rfl
      | false => rfl
  | cons c line ih =>
      have hne : (13 == c) = false := by
        rw [beq_eq_false_iff_ne]
        exact fun hc => h.1 (hc ▸ List.mem_cons_self)
      have hprefix : (crlf ++ crlf).isPrefixOf (c :: (line ++ crlf ++ rest)) = false := by
        show ((13 == c) && _) = false
        rw [hne, Bool.false_and]
      rw [List.cons_append, List.cons_append, headEndFrom, hprefix, if_neg (by decide),
        ih ⟨fun hin => h.1 (List.mem_cons_of_mem c hin), fun hin => h.2 (List.mem_cons_of_mem c hin)⟩,
        List.length_cons]
      rw [show passed + 1 + line.length + 4 = passed + (line.length + 1) + 4 by omega,
        show passed + 1 + line.length + 2 = passed + (line.length + 1) + 2 by omega]

theorem headEndFrom_fields (fields : List Field) (line rest : Text) (h : Unbroken line)
    (passed : Nat) : headEndFrom passed (line ++ crlf ++ (fieldBytes fields ++ crlf ++ rest)) =
      some (passed + (line ++ crlf ++ (fieldBytes fields ++ crlf)).length) := by
  induction fields generalizing line passed with
  | nil =>
      rw [headEndFrom_line h, if_pos (by rfl)]
      simp [fieldBytes, crlf]
      omega
  | cons f fields ih =>
      have hbytes : fieldBytes (f :: fields) ++ crlf ++ rest =
          f.line ++ crlf ++ (fieldBytes fields ++ crlf ++ rest) := by
        simp [fieldBytes, Field.bytes]
      have hnot : crlf.isPrefixOf (f.line ++ crlf ++ (fieldBytes fields ++ crlf ++ rest)) =
          false := by
        obtain ⟨c, cs, hline⟩ := List.exists_cons_of_ne_nil f.line_ne_nil
        have hne : (13 == c) = false := by
          rw [beq_eq_false_iff_ne]
          exact fun hc => f.line_unbroken.1 (by rw [hline, ← hc]; exact List.mem_cons_self)
        rw [hline]
        show ((13 == c) && _) = false
        rw [hne, Bool.false_and]
      rw [hbytes, headEndFrom_line h, hnot, if_neg (by decide), ih f.line f.line_unbroken]
      simp [fieldBytes, Field.bytes, crlf]
      omega

/-- The head ends at its empty line, whatever follows. -/
theorem headEnd_head (h : Head) (rest : Text) :
    headEnd (h.bytes ++ rest) = some h.bytes.length := by
  have hstart := headEndFrom_fields h.fields h.start rest h.unbroken 0
  unfold headEnd
  rw [show h.bytes ++ rest = h.start ++ crlf ++ (fieldBytes h.fields ++ crlf ++ rest) by
    simp [Head.bytes], hstart]
  simp [Head.bytes]

/-- An empty line that is there stays the first one. -/
theorem headEndFrom_append {passed n : Nat} {buf : Text} (h : headEndFrom passed buf = some n)
    (more : Text) : headEndFrom passed (buf ++ more) = some n ∧ 4 ≤ buf.length := by
  induction buf generalizing passed with
  | nil => cases h
  | cons c buf ih =>
      have hfour : (crlf ++ crlf).length = 4 := rfl
      rw [headEndFrom] at h
      rw [List.cons_append, headEndFrom, List.length_cons]
      by_cases hstarts : (crlf ++ crlf).isPrefixOf (c :: buf) = true
      · rw [if_pos hstarts] at h
        have hprefix := List.isPrefixOf_iff_prefix.mp hstarts
        have hlength := hprefix.length_le
        rw [hfour, List.length_cons] at hlength
        rw [if_pos]
        · exact ⟨h, hlength⟩
        · rw [List.isPrefixOf_iff_prefix, ← List.cons_append]
          exact hprefix.trans (List.prefix_append _ _)
      · rw [if_neg hstarts] at h
        obtain ⟨hsame, hlong⟩ := ih h
        refine ⟨?_, by omega⟩
        rw [if_neg]
        · exact hsame
        · -- the four bytes would be there already
          intro hlater
          rw [List.isPrefixOf_iff_prefix, ← List.cons_append] at hlater
          have hfits : (crlf ++ crlf).length ≤ (c :: buf).length := by
            rw [hfour, List.length_cons]
            omega
          exact hstarts (List.isPrefixOf_iff_prefix.mpr
            (List.prefix_of_prefix_length_le hlater (List.prefix_append _ _) hfits))

/-- However the bytes of a message are split, its head is read. -/
theorem readHead_head {h : Head} {rest : Text} {recvs : List Text} {buf got : Text} {n : Nat}
    (hmessage : buf ++ recvs.flatten <+: h.bytes ++ rest)
    (hread : readHead buf recvs = some (got, n)) :
    n = h.bytes.length ∧ got <+: buf ++ recvs.flatten := by
  -- the end that is found in a part of the message is the one in the whole
  have hfound : ∀ {part : Text}, part <+: h.bytes ++ rest → headEnd part = some n →
      n = h.bytes.length := by
    intro part hpart hend
    obtain ⟨more, hmore⟩ := hpart
    have hwhole := (headEndFrom_append hend more).1
    rw [hmore] at hwhole
    exact Option.some.inj (hwhole.symm.trans (headEnd_head h rest))
  induction recvs generalizing buf with
  | nil =>
      rw [List.flatten_nil, List.append_nil] at hmessage ⊢
      obtain ⟨end', hend, heq⟩ := Option.map_eq_some_iff.mp hread
      cases heq
      exact ⟨hfound hmessage hend, List.prefix_rfl⟩
  | cons bytes recvs ih =>
      rw [readHead] at hread
      cases hend : headEnd buf with
      | some end' =>
          rw [hend] at hread
          cases hread
          exact ⟨hfound ((List.prefix_append _ _).trans hmessage) hend, List.prefix_append _ _⟩
      | none =>
          rw [hend] at hread
          dsimp only at hread
          split at hread
          · cases hread
          · rw [List.flatten_cons, ← List.append_assoc] at hmessage ⊢
            exact ih hmessage hread

theorem linesFrom_line {line : Text} (h : 10 ∉ line) (before rest : Text) :
    linesFrom before (line ++ crlf ++ rest) = (before ++ line ++ crlf) :: linesFrom [] rest := by
  induction line generalizing before with
  | nil =>
      show linesFrom before (13 :: 10 :: rest) = _
      rw [linesFrom, if_neg (by decide), linesFrom, if_pos rfl]
      simp [crlf]
  | cons c line ih =>
      have hne : c ≠ 10 := fun hc => h (hc ▸ List.mem_cons_self)
      rw [List.cons_append, List.cons_append, linesFrom, if_neg hne,
        ih fun hin => h (List.mem_cons_of_mem c hin)]
      simp

theorem linesFrom_fields (fields : List Field) :
    linesFrom [] (fieldBytes fields ++ crlf) = fields.map Field.bytes ++ [crlf] := by
  induction fields with
  | nil => rfl
  | cons f fields ih =>
      have hbytes : fieldBytes (f :: fields) ++ crlf =
          f.line ++ crlf ++ (fieldBytes fields ++ crlf) := by
        simp [fieldBytes, Field.bytes]
      rw [hbytes, linesFrom_line f.line_unbroken.2, ih]
      rfl

theorem linesFrom_head (h : Head) :
    linesFrom [] h.bytes = (h.start ++ crlf) :: (h.fields.map Field.bytes ++ [crlf]) := by
  rw [show h.bytes = h.start ++ crlf ++ (fieldBytes h.fields ++ crlf) by simp [Head.bytes],
    linesFrom_line h.unbroken.2, linesFrom_fields]
  rfl

/-! ## The lines of fields -/

theorem tolower_colon {c : Byte} : tolower c = 58 ↔ c = 58 := by
  unfold tolower
  by_cases hupper : (65 ≤ c && c ≤ 90) = true
  · rw [if_pos hupper]
    rw [Bool.and_eq_true, decide_eq_true_eq, decide_eq_true_eq, UInt8.le_iff_toNat_le,
      UInt8.le_iff_toNat_le] at hupper
    have hlow : 65 ≤ c.toNat ∧ c.toNat ≤ 90 := hupper
    rw [← UInt8.toNat_inj, ← UInt8.toNat_inj, UInt8.toNat_add]
    show (c.toNat + 32) % 256 = 58 ↔ c.toNat = 58
    omega
  · rw [if_neg hupper]

/-- A line starts with a name and a colon exactly if its field has the name. -/
theorem startsWith_field (f : Field) {name : Text} (hname : 58 ∉ name) :
    startsWith (name ++ [58]) f.bytes = f.is name := by
  have hlower : ∀ t : Text, 58 ∉ t → 58 ∉ t.map tolower := by
    intro t ht hin
    obtain ⟨c, hc, hcolon⟩ := List.mem_map.mp hin
    exact ht (tolower_colon.mp hcolon ▸ hc)
  have hbytes : f.bytes.map tolower =
      f.name.map tolower ++ 58 :: (f.value ++ crlf).map tolower := by
    unfold Field.bytes Field.line
    simp [show tolower 58 = 58 by decide]
  rw [Bool.eq_iff_iff]
  unfold startsWith Field.is caseEq
  rw [beq_iff_eq, beq_iff_eq, List.map_take, hbytes, List.length_append]
  constructor
  · intro h
    have hprefix : name.map tolower ++ [58] <+:
        f.name.map tolower ++ 58 :: (f.value ++ crlf).map tolower := by
      rw [show name.map tolower ++ [58] = (name ++ [58]).map tolower by simp [tolower], ← h]
      rw [List.map_append]
      exact List.take_prefix _ _
    exact (Delimited.eq_of_bars (hlower name hname) (hlower f.name f.plain) hprefix).symm
  · intro h
    have hlength : (f.name.map tolower).length = name.length := by rw [h, List.length_map]
    rw [← hlength, List.take_length_add_append, h]
    simp [tolower]

/-- The field is passed on. -/
def Field.kept (f : Field) : Bool := !f.is "transfer-encoding" && !f.is "connection"

theorem Field.value_of_is {f : Field} {name : Text} (h : f.is name = true) :
    f.bytes.drop (name.length + 1) = f.value ++ crlf := by
  have hlength : f.name.length = name.length := by
    have heq := beq_iff_eq.mp h
    rw [← List.length_map (f := tolower), heq, List.length_map]
  unfold Field.bytes Field.line
  rw [← hlength, List.append_assoc, List.drop_length_add_append]
  rfl

theorem startsWith_crlf {name : Text} (hname : 3 ≤ name.length) : startsWith name crlf = false := by
  unfold startsWith caseEq
  rw [beq_eq_false_iff_ne]
  intro h
  have hlength := congrArg List.length h
  rw [List.length_map, List.length_map, List.length_take] at hlength
  have hshort : crlf.length = 2 := rfl
  omega

theorem isspace_of_pad {c : Byte} (h : c = 32 ∨ c = 9) : isspace c = true := by
  cases h with
  | inl hblank => rw [hblank]; decide
  | inr htab => rw [htab]; decide

/-- Of a padded number the number is read, and the blanks behind it are left. -/
theorem strtol_padded {n : Nat} {before digits after : Text} (hbefore : ∀ c ∈ before, c = 32 ∨ c = 9)
    (hafter : ∀ c ∈ after, c = 32 ∨ c = 9) (h : Numeral n digits) :
    strtol (before ++ digits ++ after) =
      ⟨max longMin (min longMax n), after, (n : Int) < longMin || longMax < (n : Int)⟩ := by
  obtain ⟨hne, hdigits, hvalue⟩ := h
  obtain ⟨d, ds, hcons⟩ := List.exists_cons_of_ne_nil hne
  have hdigit : isdigit d = true := hdigits d (by rw [hcons]; exact List.mem_cons_self)
  have hskip : (before ++ digits ++ after).dropWhile isspace = digits ++ after := by
    rw [List.append_assoc, List.dropWhile_append_of_pos fun c hc => isspace_of_pad (hbefore c hc),
      hcons, List.cons_append, List.dropWhile_cons_of_neg]
    rw [not_isspace_of_isdigit hdigit]
    decide
  have hsign : signOf (digits ++ after) = (false, digits ++ after) := by
    have hfirst := @signOf_digits [d] (List.cons_ne_nil _ _) (by simpa using hdigit)
    rw [hcons, List.cons_append]
    unfold signOf at hfirst ⊢
    dsimp only at hfirst ⊢
    by_cases hminus : d = 45
    · rw [if_pos hminus] at hfirst
      cases hfirst
    · rw [if_neg hminus] at hfirst ⊢
      by_cases hplus : d = 43
      · rw [if_pos hplus] at hfirst
        cases hfirst
      · rw [if_neg hplus]
  have hstop : after.takeWhile isdigit = [] ∧ after.dropWhile isdigit = after := by
    cases after with
    | nil => exact ⟨rfl, rfl⟩
    | cons c cs =>
        have hblank : ¬ isdigit c = true := by
          cases hafter c List.mem_cons_self with
          | inl hblank => rw [hblank]; decide
          | inr htab => rw [htab]; decide
        exact ⟨List.takeWhile_cons_of_neg hblank, List.dropWhile_cons_of_neg hblank⟩
  unfold strtol
  rw [hskip, hsign]
  dsimp only
  rw [List.takeWhile_append_of_pos hdigits, List.dropWhile_append_of_pos hdigits, hstop.1, hstop.2,
    List.append_nil, if_neg hne, hvalue]
  rfl

/-- Blanks in front of a number are part of its padding. -/
theorem dropBlanks_padded {before digits after : Text} (hne : digits ≠ [])
    (hbefore : ∀ c ∈ before, c = 32 ∨ c = 9) (hdigits : ∀ c ∈ digits, isdigit c = true) :
    ∃ pad, (∀ c ∈ pad, c = 32 ∨ c = 9) ∧
      (before ++ digits ++ after).dropWhile (fun c => decide (c = 32)) = pad ++ digits ++ after := by
  induction before with
  | nil =>
      obtain ⟨d, ds, rfl⟩ := List.exists_cons_of_ne_nil hne
      refine ⟨[], nofun, ?_⟩
      rw [List.nil_append, List.cons_append, List.dropWhile_cons_of_neg]
      rw [decide_eq_true_eq]
      intro hblank
      have hdigit := hdigits d List.mem_cons_self
      rw [hblank] at hdigit
      exact absurd hdigit (by decide)
  | cons c before ih =>
      by_cases hblank : c = 32
      · rw [List.cons_append, List.cons_append, List.dropWhile_cons_of_pos (by simp [hblank])]
        exact ih fun d hd => hbefore d (List.mem_cons_of_mem c hd)
      · refine ⟨c :: before, hbefore, ?_⟩
        rw [List.cons_append, List.cons_append, List.dropWhile_cons_of_neg (by simp [hblank])]

/-- The value has more than 31 bytes behind its blanks, or a blank at its end, or no `long` holds
the number. -/
def Unreadable (n : Nat) (value : Text) : Prop :=
  32 ≤ (value.dropWhile (· = 32)).length ∨
    (∃ c, value.getLast? = some c ∧ (c = 32 ∨ c = 9)) ∨ longMax < (n : Int)

/-- The length that a field gives is read, or the head is refused. -/
theorem contentLength_field {f : Field} {n : Nat} (hname : f.is "content-length" = true)
    (hvalue : Padded (Numeral n) f.value) :
    (Unreadable n f.value → contentLength f.bytes = none) ∧
      (¬ Unreadable n f.value → contentLength f.bytes = some (n : Int)) := by
  obtain ⟨before, digits, after, hpadded, hpads, hnumeral⟩ := hvalue
  -- neither the ends of the line nor the blanks in front of the number are read
  have hstrip : (f.bytes.drop 15).rdropWhile (fun c => c = 13 ∨ c = 10) = f.value := by
    have hdrop : f.bytes.drop 15 = f.value ++ crlf := Field.value_of_is hname
    rw [hdrop]
    unfold crlf
    rw [show f.value ++ [13, 10] = f.value ++ [13] ++ [10] by simp,
      List.rdropWhile_concat_pos _ _ _ (by decide), List.rdropWhile_concat_pos _ _ _ (by decide),
      List.rdropWhile_eq_self_iff]
    intro hne hlast
    have hin := List.getLast_mem hne
    rw [decide_eq_true_eq] at hlast
    cases hlast with
    | inl hcr => exact f.unbroken.2.1 (hcr ▸ hin)
    | inr hlf => exact f.unbroken.2.2 (hlf ▸ hin)
  obtain ⟨pad, hpad, hrest⟩ := @dropBlanks_padded _ _ after hnumeral.1
    (fun c hc => hpads c (List.mem_append_left after hc)) hnumeral.2.1
  have hafter : ∀ c ∈ after, c = 32 ∨ c = 9 := fun c hc => hpads c (List.mem_append_right before hc)
  have hplain : (pad ++ digits ++ after).takeWhile (fun c => decide (c ≠ 0)) =
      pad ++ digits ++ after := by
    rw [List.takeWhile_eq_self_iff]
    intro c hc
    rw [decide_eq_true_eq]
    rintro rfl
    rw [List.mem_append, List.mem_append] at hc
    rcases hc with (hc | hc) | hc
    · exact absurd (hpad 0 hc) (by decide)
    · exact absurd (hnumeral.2.1 0 hc) (by decide)
    · exact absurd (hafter 0 hc) (by decide)
  have hlast : (∃ c, f.value.getLast? = some c ∧ (c = 32 ∨ c = 9)) ↔ after ≠ [] := by
    rw [hpadded]
    cases hcases : after.getLast? with
    | none =>
        rw [List.getLast?_eq_none_iff.mp hcases, List.append_nil, List.getLast?_append_of_ne_nil _
          hnumeral.1]
        constructor
        · rintro ⟨c, hc, hblank⟩
          have hdigit := hnumeral.2.1 c (List.mem_of_getLast? hc)
          cases hblank with
          | inl hblank => rw [hblank] at hdigit; exact absurd hdigit (by decide)
          | inr htab => rw [htab] at hdigit; exact absurd hdigit (by decide)
        · exact fun hne => absurd rfl hne
    | some c =>
        have hin := List.mem_of_getLast? hcases
        have hne : after ≠ [] := List.ne_nil_of_mem hin
        rw [List.getLast?_append_of_ne_nil _ hne, hcases]
        exact ⟨fun _ => hne, fun _ => ⟨c, rfl, hafter c hin⟩⟩
  have hdigits : pad ++ digits ++ after ≠ [] :=
    List.append_ne_nil_of_left_ne_nil (List.append_ne_nil_of_right_ne_nil _ hnumeral.1) _
  have hmin : ¬ (n : Int) < longMin := by
    unfold longMin
    omega
  unfold Unreadable contentLength
  rw [hstrip, hlast, hpadded, hrest]
  dsimp only
  by_cases hlong : 32 ≤ (pad ++ digits ++ after).length
  · rw [if_pos (.inr hlong)]
    exact ⟨fun _ => rfl, fun h => absurd (.inl hlong) h⟩
  rw [if_neg (by rw [not_or]; exact ⟨hdigits, hlong⟩), hplain,
    strtol_padded hpad hafter hnumeral]
  dsimp only
  constructor
  · intro hunreadable
    rw [if_pos]
    rcases hunreadable with h | hleft | hbig
    · exact absurd h hlong
    · exact .inr (.inl hleft)
    · exact .inl (by rw [decide_eq_true hbig, Bool.or_true])
  · intro hreadable
    rw [not_or, not_or, not_lt] at hreadable
    rw [min_eq_right hreadable.2.2, max_eq_right (not_lt.mp hmin), if_neg]
    rw [decide_eq_false hmin, decide_eq_false (not_lt.mpr hreadable.2.2), not_or, not_or]
    exact ⟨by decide, hreadable.2.1, by omega⟩

theorem namesChunked_field {f : Field} (hname : f.is "transfer-encoding" = true)
    (hvalue : Padded (fun t => caseEq t "chunked" = true) f.value) : namesChunked f.bytes = true := by
  obtain ⟨before, coding, after, hpadded, -, hcoding⟩ := hvalue
  have htake : f.bytes.take (f.bytes.length - 2) = f.line := by
    have hlength : f.bytes.length - 2 = f.line.length := by
      unfold Field.bytes crlf
      rw [List.length_append]
      rfl
    rw [hlength]
    exact List.take_left
  have hdrop : f.line.drop 18 = f.value := by
    have hline : f.bytes.drop 18 = f.value ++ crlf := Field.value_of_is hname
    have hlong : 18 ≤ f.line.length := by
      have hlength := congrArg List.length (beq_iff_eq.mp hname)
      have hname' : (text "transfer-encoding").length = 17 := by decide
      rw [List.length_map, List.length_map, hname'] at hlength
      unfold Field.line
      rw [List.length_append, List.length_cons]
      omega
    unfold Field.bytes at hline
    rw [List.drop_append_of_le_length hlong] at hline
    exact List.append_cancel_right hline
  unfold namesChunked
  rw [htake, hdrop, hpadded, hasText_iff, List.map_append, List.map_append]
  refine ⟨before.map tolower, after.map tolower, ?_⟩
  rw [beq_iff_eq.mp hcoding]
  rfl

/-! ## The draft -/

/-- A field has one name only. -/
theorem Field.is_other {f : Field} {name other : Text} (h : f.is name = true)
    (hne : caseEq name other = false) : f.is other = false := by
  unfold Field.is caseEq at *
  rw [beq_iff_eq.mp h]
  exact hne

theorem keepLine_some {cap : Nat} {out line : Text} {ri : RespInfo} {next : Text × RespInfo}
    (h : keepLine cap out line ri = some next) : next = (out ++ line, ri) := by
  unfold keepLine at h
  split at h
  · cases h
  · exact (Option.some.inj h).symm

/-- What a field does to the draft: its line, unless it is dropped, and its framing. -/
structure Drafted (cap : Nat) (fields : List Field) (draft next : Text × RespInfo) : Prop where
  out : next.1 = draft.1 ++ fieldBytes (fields.filter Field.kept)
  hasCl : next.2.hasCl = (draft.2.hasCl || fields.any fun f => f.is "content-length")
  chunked : next.2.chunked = (draft.2.chunked ||
    fields.any fun f => f.is "transfer-encoding" && namesChunked f.bytes)
  cl : ∀ n : Int, (draft.2.hasCl = true → draft.2.cl = n) →
    (∀ f ∈ fields, f.is "content-length" = true → ∀ v, contentLength f.bytes = some v → v = n) →
    next.2.hasCl = true → next.2.cl = n

theorem Drafted.nil (cap : Nat) (draft : Text × RespInfo) : Drafted cap [] draft draft where
  out := (List.append_nil _).symm
  hasCl := (Bool.or_false _).symm
  chunked := (Bool.or_false _).symm
  cl := fun _ hcl _ => hcl

theorem Drafted.trans {cap : Nat} {fields more : List Field} {a b c : Text × RespInfo}
    (h : Drafted cap fields a b) (k : Drafted cap more b c) : Drafted cap (fields ++ more) a c where
  out := by
    rw [k.out, h.out, List.filter_append, List.append_assoc]
    unfold fieldBytes
    rw [List.flatMap_append]
  hasCl := by rw [k.hasCl, h.hasCl, List.any_append, Bool.or_assoc]
  chunked := by rw [k.chunked, h.chunked, List.any_append, Bool.or_assoc]
  cl := fun n hcl hfields => k.cl n
    (h.cl n hcl fun f hf => hfields f (List.mem_append_left more hf))
    fun f hf => hfields f (List.mem_append_right fields hf)

theorem headerLine_names (cap : Nat) (draft : Text × RespInfo) (f : Field) :
    headerLine cap draft f.bytes =
      if f.is "content-length" then
        match contentLength f.bytes with
        | none => none
        | some v => keepLine cap draft.1 f.bytes { draft.2 with cl := v, hasCl := true }
      else if f.is "transfer-encoding" then
        some (draft.1, { draft.2 with chunked := draft.2.chunked || namesChunked f.bytes })
      else if f.is "connection" then some draft
      else keepLine cap draft.1 f.bytes draft.2 := by
  have hlength := @startsWith_field f (text "content-length") (by decide)
  have hencoding := @startsWith_field f (text "transfer-encoding") (by decide)
  have hconnection := @startsWith_field f (text "connection") (by decide)
  unfold headerLine
  rw [show text "content-length:" = text "content-length" ++ [58] by decide, hlength,
    show text "transfer-encoding:" = text "transfer-encoding" ++ [58] by decide, hencoding,
    show text "connection:" = text "connection" ++ [58] by decide, hconnection]

theorem keepLine_fits {cap : Nat} {out line : Text} (h : out.length + line.length ≤ cap)
    (ri : RespInfo) : keepLine cap out line ri = some (out ++ line, ri) :=
  if_neg (not_lt.mpr h)

/-- With room for the line only a length can be refused. -/
theorem headerLine_none_iff {cap : Nat} {draft : Text × RespInfo} {f : Field}
    (hroom : draft.1.length + f.bytes.length ≤ cap) :
    headerLine cap draft f.bytes = none ↔
      f.is "content-length" = true ∧ contentLength f.bytes = none := by
  rw [headerLine_names]
  by_cases hcl : f.is "content-length" = true
  · rw [if_pos hcl]
    cases hv : contentLength f.bytes with
    | none => simp [hcl]
    | some v =>
        dsimp only
        rw [keepLine_fits hroom]
        simp
  rw [if_neg hcl]
  by_cases hte : f.is "transfer-encoding" = true
  · rw [if_pos hte]
    simp [hcl]
  rw [if_neg hte]
  by_cases hco : f.is "connection" = true
  · rw [if_pos hco]
    simp [hcl]
  · rw [if_neg hco, keepLine_fits hroom]
    simp [hcl]

theorem headerLine_field {cap : Nat} {f : Field} {draft next : Text × RespInfo}
    (h : headerLine cap draft f.bytes = some next) : Drafted cap [f] draft next := by
  rw [headerLine_names] at h
  by_cases hcl : f.is "content-length" = true
  · have hte : f.is "transfer-encoding" = false := Field.is_other hcl (by decide)
    have hco : f.is "connection" = false := Field.is_other hcl (by decide)
    rw [if_pos hcl] at h
    cases hv : contentLength f.bytes with
    | none => rw [hv] at h; cases h
    | some v =>
        rw [hv] at h
        have hnext := keepLine_some h
        rw [hnext]
        refine ⟨?_, ?_, ?_, ?_⟩
        · simp [Field.kept, hte, hco, fieldBytes]
        · simp [hcl]
        · simp [hte]
        · intro n _ hfields _
          exact hfields f List.mem_cons_self hcl v hv
  rw [if_neg hcl] at h
  rw [Bool.not_eq_true] at hcl
  by_cases hte : f.is "transfer-encoding" = true
  · rw [if_pos hte] at h
    rw [← Option.some.inj h]
    refine ⟨?_, ?_, ?_, fun n hdraft _ => hdraft⟩
    · simp [Field.kept, hte, fieldBytes]
    · simp [hcl]
    · simp [hte]
  rw [if_neg hte] at h
  rw [Bool.not_eq_true] at hte
  by_cases hco : f.is "connection" = true
  · rw [if_pos hco] at h
    rw [← Option.some.inj h]
    refine ⟨?_, ?_, ?_, fun n hdraft _ => hdraft⟩
    · simp [Field.kept, hco, fieldBytes]
    · simp [hcl]
    · simp [hte]
  rw [if_neg hco] at h
  rw [Bool.not_eq_true] at hco
  rw [keepLine_some h]
  refine ⟨?_, ?_, ?_, fun n hdraft _ => hdraft⟩
  · simp [Field.kept, hte, hco, fieldBytes]
  · simp [hcl]
  · simp [hte]

theorem headerLine_fields {cap : Nat} (fields : List Field) {draft next : Text × RespInfo}
    (h : (fields.map Field.bytes).foldlM (headerLine cap) draft = some next) :
    Drafted cap fields draft next := by
  induction fields generalizing draft with
  | nil =>
      rw [List.map_nil, List.foldlM_nil] at h
      rw [← Option.some.inj h]
      exact .nil cap draft
  | cons f fields ih =>
      rw [List.map_cons, List.foldlM_cons] at h
      obtain ⟨between, hfirst, hrest⟩ := Option.bind_eq_some_iff.mp h
      exact (headerLine_field hfirst).trans (ih hrest)

theorem fieldBytes_kept_le (fields : List Field) :
    (fieldBytes (fields.filter Field.kept)).length ≤ (fieldBytes fields).length := by
  unfold fieldBytes
  exact (List.filter_sublist.flatMap Field.bytes).length_le

theorem headerLine_fields_none {cap : Nat} (fields : List Field) {draft : Text × RespInfo}
    (hroom : draft.1.length + (fieldBytes fields).length ≤ cap) :
    (fields.map Field.bytes).foldlM (headerLine cap) draft = none ↔
      ∃ f ∈ fields, f.is "content-length" = true ∧ contentLength f.bytes = none := by
  induction fields generalizing draft with
  | nil => simp
  | cons f fields ih =>
      have hlengths : (fieldBytes (f :: fields)).length =
          f.bytes.length + (fieldBytes fields).length := by
        unfold fieldBytes
        rw [List.flatMap_cons, List.length_append]
      have hline : draft.1.length + f.bytes.length ≤ cap := by omega
      have hnone := headerLine_none_iff hline
      rw [List.map_cons, List.foldlM_cons, List.exists_mem_cons_iff, ← hnone]
      cases hnext : headerLine cap draft f.bytes with
      | none => simp
      | some next =>
          have hout := (headerLine_field hnext).out
          have hkept := fieldBytes_kept_le [f]
          have hone : (fieldBytes [f]).length = f.bytes.length := by simp [fieldBytes]
          have hnextRoom : next.1.length + (fieldBytes fields).length ≤ cap := by
            rw [hout, List.length_append]
            omega
          show (fields.map Field.bytes).foldlM (headerLine cap) next = none ↔ _
          rw [ih hnextRoom]
          simp

/-- The head without the fields that are dropped. -/
def Head.passed (h : Head) : Head := { h with fields := h.fields.filter Field.kept }

/-- What goes downstream is a whole head, its empty line, and another line behind it. -/
theorem buildDownstreamHead_some {h : Head} {cap : Nat} {out : Text} {ri : RespInfo}
    (hbuilt : buildDownstreamHead h.bytes cap = some (out, ri)) :
    out = h.passed.bytes ++ closing ∧
      ∃ draft, Drafted cap h.fields (h.start ++ crlf, {}) draft ∧ draft.2 = ri := by
  unfold buildDownstreamHead at hbuilt
  rw [linesFrom_head] at hbuilt
  split at hbuilt
  · cases hbuilt
  dsimp only at hbuilt
  split at hbuilt
  · cases hbuilt
  split at hbuilt
  · cases hbuilt
  next last ri' hlines =>
    split at hbuilt
    · cases hbuilt
    cases hbuilt
    rw [List.foldlM_append] at hlines
    obtain ⟨draft, hfields, hempty⟩ := Option.bind_eq_some_iff.mp hlines
    have hdrafted := headerLine_fields h.fields hfields
    -- the empty line has no name, and is kept in front of what is appended
    rw [List.foldlM_cons] at hempty
    obtain ⟨ended, hempty, hended⟩ := Option.bind_eq_some_iff.mp hempty
    rw [List.foldlM_nil] at hended
    cases hended
    unfold headerLine at hempty
    rw [startsWith_crlf (by decide), if_neg (by decide), startsWith_crlf (by decide),
      if_neg (by decide), startsWith_crlf (by decide), if_neg (by decide)] at hempty
    cases keepLine_some hempty
    refine ⟨?_, draft, hdrafted, rfl⟩
    rw [hdrafted.out]
    unfold Head.bytes Head.passed
    rfl

theorem Head.bytes_length (h : Head) :
    h.bytes.length = h.start.length + 2 + (fieldBytes h.fields).length + 2 := by
  unfold Head.bytes crlf
  simp only [List.length_append, List.length_cons, List.length_nil]

/-- A head that was read is refused if it is short, does not start with `HTTP/`, or gives a length
that cannot be read. -/
theorem buildDownstreamHead_none_iff {h : Head} (hfits : h.bytes.length ≤ headBuf) :
    buildDownstreamHead h.bytes (headBuf + 64) = none ↔
      h.bytes.length < 12 ∨ h.bytes.take 5 ≠ text "HTTP/" ∨
        ∃ f ∈ h.fields, f.is "content-length" = true ∧ contentLength f.bytes = none := by
  have hlength := h.bytes_length
  have hstart : (h.start ++ crlf).length = h.start.length + 2 := List.length_append
  have hroom : (h.start ++ crlf).length + (fieldBytes h.fields).length ≤ headBuf + 64 := by omega
  have hnone := @headerLine_fields_none _ h.fields (h.start ++ crlf, {}) hroom
  unfold buildDownstreamHead
  rw [linesFrom_head]
  dsimp only
  by_cases hbegins : h.bytes.length < 12 ∨ h.bytes.take 5 ≠ text "HTTP/"
  · rw [if_pos hbegins, ← or_assoc]
    exact iff_of_true rfl (.inl hbegins)
  rw [if_neg hbegins, if_neg (by omega), ← or_assoc, or_iff_right hbegins, ← hnone,
    List.foldlM_append]
  cases hdraft : (h.fields.map Field.bytes).foldlM (headerLine (headBuf + 64))
    (h.start ++ crlf, {}) with
  | none => exact iff_of_true rfl rfl
  | some draft =>
      -- behind the fields there is room for the empty line and for what is appended
      have hout := (headerLine_fields h.fields hdraft).out
      have hkept := fieldBytes_kept_le h.fields
      have hdrafted : draft.1.length ≤ h.start.length + 2 + (fieldBytes h.fields).length := by
        rw [hout, List.length_append, hstart]
        omega
      have hempty : crlf.length = 2 := rfl
      have hline : headerLine (headBuf + 64) draft crlf = some (draft.1 ++ crlf, draft.2) := by
        unfold headerLine
        rw [startsWith_crlf (by decide), if_neg (by decide), startsWith_crlf (by decide),
          if_neg (by decide), startsWith_crlf (by decide), if_neg (by decide),
          keepLine_fits (by omega)]
      refine iff_of_false ?_ (Option.some_ne_none draft)
      show (match (headerLine (headBuf + 64) draft crlf).bind some with
        | none => none
        | some (out, ri) => if headBuf + 64 < out.length + 20 then none
            else some (out ++ closing, ri)) ≠ none
      rw [hline, Option.bind_some]
      dsimp only
      rw [if_neg (by rw [List.length_append]; omega)]
      exact nofun

end Recursant.Tracer
