import Recursant.Lib.Delimited
import Recursant.Number

/-!
# Responses with a head and a framed body

What a conforming client reads: the lines of the head up to the empty one, and a body in the framing
that the fields describe.
-/

namespace Recursant.Tracer

def crlf : Text := [13, 10]

/-- Without the two bytes that end a line. -/
def Unbroken (t : Text) : Prop := 13 ∉ t ∧ 10 ∉ t

/-! ## Heads -/

structure Field where
  name : Text
  value : Text
  named : name ≠ []
  plain : 58 ∉ name
  unbroken : Unbroken name ∧ Unbroken value

def Field.line (f : Field) : Text := f.name ++ 58 :: f.value

def Field.bytes (f : Field) : Text := f.line ++ crlf

/-- The field has the name, in any case. -/
def Field.is (f : Field) (name : Text) : Bool := caseEq f.name name

structure Head where
  start : Text
  fields : List Field
  unbroken : Unbroken start

def fieldBytes (fields : List Field) : Text := fields.flatMap Field.bytes

def Head.bytes (h : Head) : Text := h.start ++ crlf ++ fieldBytes h.fields ++ crlf

theorem Field.line_unbroken (f : Field) : Unbroken f.line := by
  unfold Unbroken Field.line
  simp only [List.mem_append, List.mem_cons, not_or]
  exact ⟨⟨f.unbroken.1.1, by decide, f.unbroken.2.1⟩, f.unbroken.1.2, by decide, f.unbroken.2.2⟩

theorem Field.line_ne_nil (f : Field) : f.line ≠ [] :=
  List.append_ne_nil_of_right_ne_nil _ (List.cons_ne_nil _ _)

/-- Two lines that are followed by their ends and begin alike are equal. -/
theorem line_inj {x y rest more : Text} (hx : Unbroken x) (hy : Unbroken y)
    (h : x ++ crlf ++ rest = y ++ crlf ++ more) : x = y ∧ rest = more := by
  have hlines : x ++ 13 :: (10 :: rest) = y ++ 13 :: (10 :: more) := by
    simpa [crlf] using h
  have hsame : x = y := by
    apply Delimited.eq_of_bars hx.1 hy.1
    rw [← hlines]
    exact ⟨10 :: rest, by simp⟩
  refine ⟨hsame, ?_⟩
  rw [hsame] at h
  exact List.append_cancel_left h

theorem Field.ext_line {f g : Field} (h : f.line = g.line) : f = g := by
  have hname : f.name = g.name := by
    apply Delimited.eq_of_bars f.plain g.plain
    unfold Field.line at h
    rw [← h]
    exact ⟨f.value, by simp⟩
  have hvalue : f.value = g.value := by
    unfold Field.line at h
    rw [hname] at h
    exact (List.cons.inj (List.append_cancel_left h)).2
  cases f
  cases g
  cases hname
  cases hvalue
  rfl

/-- The fields end at the empty line. -/
theorem fieldBytes_inj {fields others : List Field} {rest more : Text}
    (h : fieldBytes fields ++ crlf ++ rest = fieldBytes others ++ crlf ++ more) :
    fields = others ∧ rest = more := by
  have hempty : Unbroken [] := ⟨List.not_mem_nil, List.not_mem_nil⟩
  induction fields generalizing others with
  | nil =>
      cases others with
      | nil => exact ⟨rfl, List.append_cancel_left h⟩
      | cons g others =>
          have hline : [] ++ crlf ++ rest =
              g.line ++ crlf ++ (fieldBytes others ++ crlf ++ more) := by
            simpa [fieldBytes, Field.bytes] using h
          exact absurd (line_inj hempty g.line_unbroken hline).1.symm g.line_ne_nil
  | cons f fields ih =>
      cases others with
      | nil =>
          have hline : f.line ++ crlf ++ (fieldBytes fields ++ crlf ++ rest) =
              [] ++ crlf ++ more := by
            simpa [fieldBytes, Field.bytes] using h
          exact absurd (line_inj f.line_unbroken hempty hline).1 f.line_ne_nil
      | cons g others =>
          have hline : f.line ++ crlf ++ (fieldBytes fields ++ crlf ++ rest) =
              g.line ++ crlf ++ (fieldBytes others ++ crlf ++ more) := by
            simpa [fieldBytes, Field.bytes] using h
          obtain ⟨hfirst, hrest⟩ := line_inj f.line_unbroken g.line_unbroken hline
          obtain ⟨hfields, hbody⟩ := ih hrest
          rw [Field.ext_line hfirst, hfields]
          exact ⟨rfl, hbody⟩

/-- Bytes begin with one head at most. -/
theorem Head.bytes_inj {h k : Head} {rest more : Text} (heq : h.bytes ++ rest = k.bytes ++ more) :
    h = k ∧ rest = more := by
  have hline : h.start ++ crlf ++ (fieldBytes h.fields ++ crlf ++ rest) =
      k.start ++ crlf ++ (fieldBytes k.fields ++ crlf ++ more) := by
    simpa [Head.bytes] using heq
  obtain ⟨hstart, hrest⟩ := line_inj h.unbroken k.unbroken hline
  obtain ⟨hfields, hbody⟩ := fieldBytes_inj hrest
  refine ⟨?_, hbody⟩
  cases h
  cases k
  cases hstart
  cases hfields
  rfl

/-! ## Chunks -/

/-- `isxdigit` -/
def isxdigit (c : Byte) : Bool := isdigit c || (65 ≤ c && c ≤ 70) || (97 ≤ c && c ≤ 102)

def xdigit (c : Byte) : Nat := if c ≤ 57 then c.toNat - 48 else (c ||| 32).toNat - 97 + 10

/-- The number that hexadecimal digits go on to from one. -/
def hexFrom (n : Nat) (digits : Text) : Nat := digits.foldl (fun n c => n * 16 + xdigit c) n

/-- A line that gives a size, with an extension or without. -/
structure SizeLine (n : Nat) where
  digits : Text
  extension : Text
  nonempty : digits ≠ []
  hex : ∀ c ∈ digits, isxdigit c = true
  size : hexFrom 0 digits = n
  marked : extension = [] ∨ extension.head? = some 59
  unbroken : Unbroken extension

def SizeLine.bytes {n : Nat} (l : SizeLine n) : Text := l.digits ++ l.extension ++ crlf

structure Chunk where
  data : Text
  nonempty : data ≠ []
  size : SizeLine data.length

def Chunk.bytes (c : Chunk) : Text := c.size.bytes ++ c.data ++ crlf

/-! ## Bodies -/

/-- The three framings; chunks have no trailer fields. -/
inductive Body where
  | sized (content : Text)
  | chunked (chunks : List Chunk) (last : SizeLine 0)
  | untilClose (content : Text)

def Body.bytes : Body → Text
  | .sized content => content
  | .chunked chunks last => chunks.flatMap Chunk.bytes ++ last.bytes ++ crlf
  | .untilClose content => content

def Body.content : Body → Text
  | .sized content => content
  | .chunked chunks _ => chunks.flatMap Chunk.data
  | .untilClose content => content

/-- The value is such a text, with blanks around it or without. -/
def Padded (p : Text → Prop) (value : Text) : Prop :=
  ∃ before t after, value = before ++ t ++ after ∧
    (∀ c ∈ before ++ after, c = 32 ∨ c = 9) ∧ p t

/-- Decimal digits for the number. -/
def Numeral (n : Nat) (t : Text) : Prop :=
  t ≠ [] ∧ (∀ c ∈ t, isdigit c = true) ∧ digitsValue t = n

/-- The fields say how the body is framed, in one way only. -/
def Body.DescribedBy (fields : List Field) : Body → Prop
  | .sized content => (∃ f ∈ fields, f.is "content-length" = true) ∧
      (∀ f ∈ fields, f.is "content-length" = true → Padded (Numeral content.length) f.value) ∧
      ∀ f ∈ fields, f.is "transfer-encoding" = false
  | .chunked _ _ => (∃ f ∈ fields, f.is "transfer-encoding" = true) ∧
      (∀ f ∈ fields, f.is "transfer-encoding" = true →
        Padded (fun t => caseEq t "chunked" = true) f.value) ∧
      ∀ f ∈ fields, f.is "content-length" = false
  | .untilClose _ => ∀ f ∈ fields, f.is "content-length" = false ∧ f.is "transfer-encoding" = false

/-- A response with exactly one head, whose fields describe the body after it. -/
structure Response where
  head : Head
  body : Body
  described : body.DescribedBy head.fields

def Response.bytes (r : Response) : Text := r.head.bytes ++ r.body.bytes

def Response.content (r : Response) : Text := r.body.content

/-- Chunks are longer than what they carry. -/
theorem content_lt_chunked (chunks : List Chunk) (last : SizeLine 0) :
    (Body.chunked chunks last).content.length + 4 < (Body.chunked chunks last).bytes.length := by
  have hsizes : ∀ chunks : List Chunk,
      (chunks.flatMap Chunk.data).length ≤ (chunks.flatMap Chunk.bytes).length := by
    intro chunks
    induction chunks with
    | nil => exact le_rfl
    | cons c chunks ih =>
        rw [List.flatMap_cons, List.flatMap_cons, List.length_append, List.length_append]
        have hchunk : c.data.length ≤ c.bytes.length := by
          unfold Chunk.bytes
          rw [List.length_append, List.length_append]
          omega
        omega
  have hlast := List.length_pos_iff.mpr last.nonempty
  have hchunks := hsizes chunks
  unfold Body.content Body.bytes SizeLine.bytes crlf
  simp only [List.length_append, List.length_cons, List.length_nil]
  omega

end Recursant.Tracer
