import Recursant.Context.ResponseObserver
import Recursant.Lib.Lines

/-!
# Observation of a byte stream

What the observer ends with depends on the lines of the stream alone: not on the cuts between
feeds, not on how the lines end, not on comments between them, and not on where the text of an
event is broken into data lines.
-/

namespace Recursant.ResponseObserver

open StreamTools (utf8)
open ToolBoundary (Loader)

/-! ## What is observed -/

/-- The final failed flag, the message and the reasoning. -/
def observed (dumps : Json → Option Text) (o : Decoder) :
    Bool × Option Json × Option (List Json) := (o.failed, message dumps o, reasoning o)

/-- Equal up to the pending carriage return, or both failed. -/
def Alike (o o' : Decoder) : Prop :=
  o.failed = o'.failed ∧ (o.failed = false → o.toEvents = o'.toEvents ∧ o.line = o'.line)

theorem Alike.refl (o : Decoder) : Alike o o := ⟨rfl, fun _ => ⟨rfl, rfl⟩⟩

theorem Alike.trans {o o' o'' : Decoder} (h : Alike o o') (h' : Alike o' o'') : Alike o o'' := by
  refine ⟨h.1.trans h'.1, ?_⟩
  intro hfailed
  have hfirst := h.2 hfailed
  have hsecond := h'.2 (h.1 ▸ hfailed)
  exact ⟨hfirst.1.trans hsecond.1, hfirst.2.trans hsecond.2⟩

theorem alike_failed {o o' : Decoder} (h : o.failed = true) (h' : o'.failed = true) :
    Alike o o' := ⟨h.trans h'.symm, fun hf => absurd hf (by simp [h])⟩

theorem complete_failed {o : Decoder} (h : o.failed = true) : complete o = false := by
  unfold complete
  rw [h]
  rfl

theorem observed_failed (dumps : Json → Option Text) {o : Decoder} (h : o.failed = true) :
    observed dumps o = (true, none, none) := by
  unfold observed message reasoning
  rw [complete_failed h, h]
  rfl

theorem Alike.observed {o o' : Decoder} (h : Alike o o') (dumps : Json → Option Text) :
    observed dumps o = observed dumps o' := by
  cases hfailed : o.failed with
  | true => rw [observed_failed dumps hfailed, observed_failed dumps (h.1.symm.trans hfailed)]
  | false =>
      obtain ⟨hevents, hline⟩ := h.2 hfailed
      have hcomplete : complete o = complete o' := by
        unfold complete
        rw [hevents, hline]
      unfold ResponseObserver.observed message reasoning
      rw [hcomplete, hevents]

/-! ## Feeds -/

section

variable {m : Dialect} {loader : Loader}

theorem feedBytes_failed {o : Decoder} (h : o.failed = true) (data : Text) :
    feedBytes m loader o data = o := by
  cases data with
  | nil => rfl
  | cons c rest => rw [feedBytes, if_pos h]

theorem feedBytes_append (o : Decoder) (a b : Text) :
    feedBytes m loader o (a ++ b) = feedBytes m loader (feedBytes m loader o a) b := by
  induction a generalizing o with
  | nil => rfl
  | cons c a ih =>
      rw [List.cons_append, feedBytes, feedBytes]
      by_cases h : o.failed = true
      · rw [if_pos h, if_pos h, feedBytes_failed h]
      · rw [if_neg h, if_neg h, ih]

theorem feeds_failed {o : Observer} (h : o.failed = true) (chunks : List Text) :
    feeds m loader o chunks = o := by
  induction chunks with
  | nil => rfl
  | cons c cs ih =>
      show feeds m loader (feed m loader o c) cs = o
      rw [feed, if_pos h, ih]

/-- All bytes in one feed, with the wire limit on the whole. -/
def fedWhole (m : Dialect) (loader : Loader) (o : Observer) (data : Text) : Decoder :=
  if data.length > wireLimit - o.total then { o.toDecoder with failed := true }
  else feedBytes m loader o.toDecoder data

/-- The cuts between the feeds do not matter. -/
theorem feeds_alike (m : Dialect) (loader : Loader) (o : Observer) (chunks : List Text) (h : o.failed = false) :
    Alike (feeds m loader o chunks).toDecoder (fedWhole m loader o chunks.flatten) := by
  induction chunks generalizing o with
  | nil =>
      unfold fedWhole
      rw [List.flatten_nil, if_neg (by simp)]
      exact Alike.refl _
  | cons c cs ih =>
      show Alike (feeds m loader (feed m loader o c) cs).toDecoder _
      unfold feed fedWhole
      rw [if_neg (by simp [h]), List.flatten_cons]
      by_cases hlong : c.length > wireLimit - o.total
      · rw [if_pos hlong, feeds_failed rfl, if_pos (by rw [List.length_append]; omega)]
        exact alike_failed rfl rfl
      · rw [if_neg hlong]
        cases hnext : (feedBytes m loader o.toDecoder c).failed with
        | true =>
            rw [feeds_failed hnext]
            split
            next => exact alike_failed hnext rfl
            next =>
              rw [feedBytes_append, feedBytes_failed hnext]
              exact Alike.refl _
        | false =>
            refine (ih _ hnext).trans ?_
            unfold fedWhole
            dsimp only
            by_cases hrest : cs.flatten.length > wireLimit - (o.total + c.length)
            · rw [if_pos hrest, if_pos (by rw [List.length_append]; omega)]
              exact alike_failed rfl rfl
            · rw [if_neg hrest, if_neg (by rw [List.length_append]; omega), feedBytes_append]
              exact Alike.refl _

/-! ## Lines -/

/-- A line that fails the observer whatever it holds. -/
def Broken (l : Text) : Prop := (0 : Byte) ∈ l ∨ responseLimit < l.length

instance (l : Text) : Decidable (Broken l) := inferInstanceAs (Decidable (_ ∨ _))

theorem Broken.of_prefix {l l' : Text} (h : Broken l) (hbegins : l <+: l') : Broken l' := by
  cases h with
  | inl hnul => exact .inl (hbegins.subset hnul)
  | inr hlong => exact .inr (Nat.lt_of_lt_of_le hlong hbegins.length_le)

/-- One finished line. -/
def takeLine (m : Dialect) (loader : Loader) (o : Events) (l : Text) : Events :=
  if o.failed then o
  else if Broken l then { o with failed := true }
  else line m loader o l

def takeLines (m : Dialect) (loader : Loader) (o : Events) (ls : List Text) : Events :=
  ls.foldl (takeLine m loader) o

/-- The finished lines, and the unfinished one. -/
def endAt (m : Dialect) (loader : Loader) (o : Events) (p : List Text × Text) : Decoder :=
  { toEvents :=
      if Broken p.2 then { takeLines m loader o p.1 with failed := true }
      else takeLines m loader o p.1
    line := p.2 }

theorem takeLines_failed {o : Events} (h : o.failed = true) (ls : List Text) :
    takeLines m loader o ls = o := by
  induction ls with
  | nil => rfl
  | cons l ls ih =>
      show takeLines m loader (takeLine m loader o l) ls = o
      rw [takeLine, if_pos h, ih]

theorem endAt_failed {o : Events} (h : o.failed = true) (p : List Text × Text) :
    (endAt m loader o p).failed = true := by
  unfold endAt
  rw [takeLines_failed h]
  split
  next => rfl
  next => exact h

/-- A part of a line that is broken fails the observer in the end. -/
theorem endAt_broken {current : Text} (h : Broken current) (pending : Bool) (o : Events)
    (s : Text) : (endAt m loader o (Lines.split 13 10 pending current s)).failed = true := by
  cases Lines.split_prefix (13 : Byte) 10 pending current s with
  | inl hfirst =>
      obtain ⟨l, ls, hls, hprefix⟩ := hfirst
      have hstep : (takeLine m loader o l).failed = true := by
        unfold takeLine
        split
        next hf => exact hf
        next => rw [if_pos (h.of_prefix hprefix)]
      have hall : (takeLines m loader o (l :: ls)).failed = true := by
        show (takeLines m loader (takeLine m loader o l) ls).failed = true
        rw [takeLines_failed hstep]
        exact hstep
      unfold endAt
      rw [hls]
      split
      next => rfl
      next => exact hall
  | inr hlast =>
      unfold endAt
      rw [if_pos (h.of_prefix hlast.2)]

/-- The byte machine does with a text what the line machine does with its lines. -/
theorem feedBytes_alike (o : Decoder) (data : Text) (hfailed : o.failed = false)
    (hline : ¬ Broken o.line) : Alike (feedBytes m loader o data)
      (endAt m loader o.toEvents (Lines.split 13 10 o.cr o.line data)) := by
  induction data generalizing o with
  | nil =>
      rw [feedBytes, Lines.split]
      unfold endAt
      rw [if_neg hline]
      exact ⟨rfl, fun _ => ⟨rfl, rfl⟩⟩
  | cons c rest ih =>
      have hlen : o.line.length ≤ responseLimit := by
        have := not_or.mp hline
        omega
      rw [feedBytes, if_neg (by simp [hfailed]), feedByte]
      by_cases hnul : c = 0
      · -- no line end: the NUL stays in the line it stands in
        have hbroken : Broken (o.line ++ [c]) := .inl (by simp [hnul])
        rw [if_pos hnul, feedBytes_failed rfl, Lines.split_symbol (by simp [hnul]) (by simp [hnul])]
        exact alike_failed rfl (endAt_broken hbroken _ _ _)
      · rw [if_neg hnul, Lines.split]
        by_cases hpair : (o.cr && decide (c = 10)) = true
        · rw [if_pos hpair, if_pos hpair]
          exact ih { o with cr := false } hfailed hline
        · rw [if_neg hpair, if_neg hpair]
          by_cases hend : (decide (c = 13) || decide (c = 10)) = true
          · rw [if_pos hend, if_pos hend]
            have htake : takeLine m loader o.toEvents o.line = line m loader o.toEvents o.line := by
              rw [takeLine, if_neg (by simp [hfailed]), if_neg hline]
            have htext (p : List Text × Text) :
                endAt m loader o.toEvents (o.line :: p.1, p.2) =
                  endAt m loader (line m loader o.toEvents o.line) p := by
              unfold endAt
              rw [← htake]
              rfl
            rw [htext (Lines.split 13 10 (decide (c = 13)) [] rest)]
            cases hnext : (line m loader o.toEvents o.line).failed with
            | true =>
                rw [feedBytes_failed hnext]
                exact alike_failed hnext (endAt_failed hnext _)
            | false =>
                refine ih _ hnext ?_
                simp [Broken]
          · rw [if_neg hend, if_neg hend]
            by_cases hlong : o.line.length = responseLimit
            · have hbroken : Broken (o.line ++ [c]) := by
                refine .inr ?_
                rw [List.length_append, List.length_singleton]
                omega
              rw [if_pos hlong, feedBytes_failed rfl]
              exact alike_failed rfl (endAt_broken hbroken _ _ _)
            · rw [if_neg hlong]
              refine ih { o with cr := false, line := o.line ++ [c] } hfailed ?_
              intro hbroken
              cases hbroken with
              | inl hin =>
                  cases List.mem_append.mp hin with
                  | inl h => exact hline (.inl h)
                  | inr h => exact hnul (List.mem_singleton.mp h).symm
              | inr h =>
                  rw [List.length_append, List.length_singleton] at h
                  omega

/-- A whole stream from the start, within the wire limit. -/
theorem feeds_lines {data : Text} {chunks : List Text} (h : chunks.flatten = data)
    (hlen : data.length ≤ wireLimit) : Alike (feeds m loader {} chunks).toDecoder
      (endAt m loader {} (Lines.lines 13 10 data)) := by
  refine (feeds_alike _ _ {} chunks rfl).trans ?_
  unfold fedWhole
  rw [h, if_neg (by simpa using hlen)]
  exact feedBytes_alike {} data rfl (by simp [Broken])

end

/-! ## Blanks between tokens -/

/-- Where a byte of a JSON text stands. -/
inductive Place where
  | outside
  | inside
  | escaped
  deriving DecidableEq, Repr

/-- The blanks that may stand between tokens. -/
def blank (c : Byte) : Bool := c = 32 || c = 9 || c = 10 || c = 13

/-- The place after a byte that is not a blank outside. -/
def Place.next (c : Byte) : Place → Place
  | .outside => if c = 34 then .inside else .outside
  | .inside => if c = 34 then .outside else if c = 92 then .escaped else .inside
  | .escaped => .inside

/-- Every run of blanks outside of strings is one space. -/
def squeeze (place : Place) (gap : Bool) : Text → Text
  | [] => []
  | c :: rest =>
      if place = .outside && blank c then
        if gap then squeeze .outside true rest else 32 :: squeeze .outside true rest
      else c :: squeeze (place.next c) false rest

/-- Two texts that differ in the blanks between tokens alone. -/
def Respaced (p q : Text) : Prop := squeeze .outside false p = squeeze .outside false q

/-- What a JSON text means does not depend on the blanks between its tokens. -/
def Insensitive (loader : Loader) : Prop := ∀ p q, Respaced p q → loader.load p = loader.load q

theorem squeeze_of_no_space {place : Place} {p : Text} (h : (32 : Byte) ∉ squeeze place false p) :
    squeeze place false p = p := by
  induction p generalizing place with
  | nil => rfl
  | cons c rest ih =>
      rw [squeeze] at h ⊢
      by_cases hblank : (decide (place = .outside) && blank c) = true
      · rw [if_pos hblank, if_neg nofun] at h
        exact absurd List.mem_cons_self h
      · rw [if_neg hblank] at h ⊢
        rw [ih fun hin => h (List.mem_cons_of_mem c hin)]

/-- The end marker has no blanks to move. -/
theorem done_of_respaced {p : Text} (h : Respaced p (text "[DONE]")) : p = text "[DONE]" := by
  have hdone : squeeze .outside false (text "[DONE]") = text "[DONE]" := by decide
  have hp : squeeze .outside false p = text "[DONE]" := h.trans hdone
  rw [← hp, squeeze_of_no_space]
  rw [hp]
  decide

/-! ## Changes that keep the events -/

/-- A comment that the observer ignores. -/
def Comment (l : Text) : Prop := l.head? = some 58 ∧ utf8 l = true ∧ ¬ Broken l

/-- A data line within the line limit. -/
def DataLine (l : Text) : Prop := text "data:" <+: l ∧ ¬ Broken l

/-- What the data lines of an event add up to. -/
def gathered (ls : List Text) : Text := ls.flatMap fun l => payload l ++ [10]

/-- The data lines of one event within the event limit. -/
structure EventLines (ls : List Text) : Prop where
  nonempty : ls ≠ []
  data : ∀ l ∈ ls, DataLine l
  limit : (gathered ls).length ≤ responseLimit

/-- Lines after which an event begins. -/
inductive Boundary : List Text → Prop where
  | start : Boundary []
  | blank (ls : List Text) : Boundary (ls ++ [[]])
  | comment (ls : List Text) (c : Text) : Boundary ls → c.head? = some 58 → Boundary (ls ++ [c])

/-- One change of the lines of a stream: a comment put in, or the text of one event broken in other
places. -/
inductive Rewrite : List Text → List Text → Prop where
  | comment (before after : List Text) (c : Text) : Comment c →
      Rewrite (before ++ after) (before ++ c :: after)
  | spread (before after ls ls' : List Text) : Boundary before → EventLines ls → EventLines ls' →
      Respaced (gathered ls).dropLast (gathered ls').dropLast →
      Rewrite (before ++ ls ++ [] :: after) (before ++ ls' ++ [] :: after)

section

variable {m : Dialect} {loader : Loader}

theorem takeLines_append (o : Events) (a b : List Text) :
    takeLines m loader o (a ++ b) = takeLines m loader (takeLines m loader o a) b :=
  List.foldl_append

theorem line_comment {l : Text} (h : Comment l) (o : Events) : line m loader o l = o := by
  obtain ⟨hhead, hutf, -⟩ := h
  have hne : l ≠ [] := by
    rintro rfl
    cases hhead
  rw [line, if_neg hne, if_pos hhead, if_pos hutf]

theorem takeLine_comment {l : Text} (h : Comment l) (o : Events) : takeLine m loader o l = o := by
  unfold takeLine
  split
  next => rfl
  next => rw [if_neg h.2.2, line_comment h]

/-- A data line adds its payload and a newline. -/
theorem takeLine_data {l : Text} (h : DataLine l) {o : Events} (ho : o.failed = false)
    (hlen : o.event.length + (payload l).length + 1 ≤ responseLimit) :
    takeLine m loader o l = { o with event := o.event ++ (payload l ++ [10]) } := by
  obtain ⟨⟨rest, rfl⟩, hbroken⟩ := h
  have hhead : (text "data:" ++ rest).head? ≠ some 58 := by
    show some (100 : Byte) ≠ some 58
    decide
  rw [takeLine, if_neg (by simp [ho]), if_neg hbroken, line, if_neg (by simp [text]),
    if_neg hhead, if_pos (by simp), if_neg (by omega), List.append_assoc]

theorem takeLines_data (m : Dialect) (loader : Loader) {ls : List Text} (h : ∀ l ∈ ls, DataLine l) {o : Events}
    (ho : o.failed = false) (hlen : o.event.length + (gathered ls).length ≤ responseLimit) :
    takeLines m loader o ls = { o with event := o.event ++ gathered ls } := by
  induction ls generalizing o with
  | nil =>
      show o = _
      rw [gathered, List.flatMap_nil, List.append_nil]
  | cons l ls ih =>
      rw [List.forall_mem_cons] at h
      have hgathered : gathered (l :: ls) = payload l ++ [10] ++ gathered ls := List.flatMap_cons
      rw [hgathered, List.length_append, List.length_append, List.length_singleton] at hlen
      show takeLines m loader (takeLine m loader o l) ls = _
      have hnext : (o.event ++ (payload l ++ [10])).length + (gathered ls).length ≤
          responseLimit := by
        rw [List.length_append, List.length_append, List.length_singleton]
        omega
      rw [takeLine_data h.1 ho (by omega),
        ih h.2 (o := { o with event := o.event ++ (payload l ++ [10]) }) ho hnext, hgathered,
        List.append_assoc]

theorem eventText_event (o : Events) (e t : Text) :
    eventText m loader { o with event := e } t = { eventText m loader o t with event := e } := by
  unfold eventText
  dsimp only
  split
  next => rfl
  next =>
    split
    next => split <;> rfl
    next => cases chunk m o.content (loader.load t) <;> rfl

/-- The blank line ends the event. -/
theorem takeLines_event {ls : List Text} (h : EventLines ls) {o : Events} (ho : o.failed = false)
    (hevent : o.event = []) : takeLines m loader o (ls ++ [[]]) =
      { eventText m loader o (gathered ls).dropLast with event := [] } := by
  have hdata := takeLines_data m loader h.data ho
    (by rw [hevent]; simpa using h.limit)
  rw [hevent, List.nil_append] at hdata
  have hnonempty : gathered ls ≠ [] := by
    intro hnil
    refine h.nonempty (List.eq_nil_iff_forall_not_mem.mpr ?_)
    intro l hl
    have hlast : (10 : Byte) ∈ gathered ls := List.mem_flatMap.mpr ⟨l, hl, by simp⟩
    rw [hnil] at hlast
    exact List.not_mem_nil hlast
  have hblank : ¬ Broken [] := by decide
  rw [takeLines_append, hdata]
  show takeLine m loader { o with event := gathered ls } [] = _
  rw [takeLine, if_neg (by simp [ho]), if_neg hblank, line, if_pos rfl, event, if_neg hnonempty,
    eventText_event]

/-- Only the loader reads the text of an event, and it does not see the blanks. -/
theorem eventText_respaced (hloader : Insensitive loader) {p q : Text} (h : Respaced p q)
    (o : Events) : eventText m loader o p = eventText m loader o q := by
  have hdone : p = text "[DONE]" ↔ q = text "[DONE]" := by
    constructor
    · rintro rfl
      exact done_of_respaced h.symm
    · rintro rfl
      exact done_of_respaced h
  unfold eventText
  rw [hloader p q h]
  by_cases hp : p = text "[DONE]"
  · rw [if_pos hp, if_pos (hdone.mp hp)]
  · rw [if_neg hp, if_neg fun hq => hp (hdone.mpr hq)]

theorem event_event (o : Events) : (event m loader o).event = [] := by
  unfold event
  split
  next h => exact h
  next => rfl

/-- At a boundary nothing is gathered. -/
theorem Boundary.event (m : Dialect) (loader : Loader) {ls : List Text} (h : Boundary ls) :
    (takeLines m loader {} ls).failed = true ∨ (takeLines m loader {} ls).event = [] := by
  induction h with
  | start => exact .inr rfl
  | blank ls =>
      rw [takeLines_append]
      show (takeLine m loader _ []).failed = true ∨ (takeLine m loader _ []).event = []
      unfold takeLine
      split
      next hf => exact .inl hf
      next =>
        rw [if_neg (by decide), line, if_pos rfl]
        exact .inr (event_event _)
  | comment ls c _ hc ih =>
      rw [takeLines_append]
      show (takeLine m loader _ c).failed = true ∨ (takeLine m loader _ c).event = []
      have hne : c ≠ [] := by
        rintro rfl
        cases hc
      unfold takeLine
      split
      next hf => exact .inl hf
      next hf =>
        split
        next => exact .inl rfl
        next =>
          rw [line, if_neg hne, if_pos hc]
          split
          next => exact ih
          next => exact .inl rfl

theorem takeLines_rewrite (hloader : Insensitive loader) {ls ls' : List Text}
    (h : Rewrite ls ls') : takeLines m loader {} ls = takeLines m loader {} ls' := by
  cases h with
  | comment before after c hc =>
      rw [takeLines_append, takeLines_append]
      show _ = takeLines m loader (takeLine m loader _ c) after
      rw [takeLine_comment hc]
  | spread before after ls ls' hbefore hls hls' hspaces =>
      have hsplit (xs : List Text) :
          before ++ xs ++ [] :: after = before ++ ((xs ++ [[]]) ++ after) := by simp
      rw [hsplit, hsplit, takeLines_append, takeLines_append (b := (ls' ++ [[]]) ++ after),
        takeLines_append, takeLines_append (a := ls' ++ [[]])]
      congr 1
      cases hf : (takeLines m loader {} before).failed with
      | true => rw [takeLines_failed hf, takeLines_failed hf]
      | false =>
          have hevent := (hbefore.event m loader).resolve_left (by simp [hf])
          rw [takeLines_event hls hf hevent, takeLines_event hls' hf hevent,
            eventText_respaced hloader hspaces]

theorem takeLines_rewrites (hloader : Insensitive loader) {ls ls' : List Text}
    (h : Relation.EqvGen Rewrite ls ls') :
    takeLines m loader {} ls = takeLines m loader {} ls' := by
  induction h with
  | rel _ _ h => exact takeLines_rewrite hloader h
  | refl _ => rfl
  | symm _ _ _ ih => exact ih.symm
  | trans _ _ _ _ _ ih ih' => exact ih.trans ih'

end

/-! ## Independence -/

/-- The observation of a stream in one feed. -/
def observedStream (m : Dialect) (loader : Loader) (dumps : Json → Option Text) (data : Text) :
    Bool × Option Json × Option (List Json) :=
  observed dumps (feeds m loader {} [data]).toDecoder

/-- The observation does not depend on the cuts between feeds, nor on the line endings, nor on
comments without a NUL, nor on how the text of an event is broken into data lines. -/
theorem observation_independent (m : Dialect) (loader : Loader) (dumps : Json → Option Text)
    (hloader : Insensitive loader) :
    (∀ chunks chunks' : List Text, chunks.flatten = chunks'.flatten →
      observed dumps (feeds m loader {} chunks).toDecoder =
        observed dumps (feeds m loader {} chunks').toDecoder) ∧
    (∀ data ending : Text, Lines.Ending 13 10 ending → data.length ≤ wireLimit →
      (Lines.render ending (Lines.lines 13 10 data)).length ≤ wireLimit →
      observedStream m loader dumps (Lines.render ending (Lines.lines 13 10 data)) =
        observedStream m loader dumps data) ∧
    ∀ data data' : Text, data.length ≤ wireLimit → data'.length ≤ wireLimit →
      Relation.EqvGen Rewrite (Lines.lines 13 10 data).1 (Lines.lines 13 10 data').1 →
      (Lines.lines 13 10 data).2 = (Lines.lines 13 10 data').2 →
      observedStream m loader dumps data = observedStream m loader dumps data' := by
  have hstream {data : Text} (h : data.length ≤ wireLimit) : observedStream m loader dumps data =
      observed dumps (endAt m loader {} (Lines.lines 13 10 data)) :=
    (feeds_lines (by simp) h).observed dumps
  refine ⟨?_, ?_, ?_⟩
  · intro chunks chunks' h
    have hleft := (feeds_alike m loader {} chunks rfl).observed dumps
    have hright := (feeds_alike m loader {} chunks' rfl).observed dumps
    rw [hleft, hright, h]
  · intro data ending hending hlen hlen'
    rw [hstream hlen, hstream hlen', Lines.lines_render_lines (by decide) hending]
  · intro data data' hlen hlen' hlines hlast
    have hevents := takeLines_rewrites (m := m) hloader hlines
    have hend : endAt m loader {} (Lines.lines 13 10 data) =
        endAt m loader {} (Lines.lines 13 10 data') := by
      unfold endAt
      rw [hevents, hlast]
    rw [hstream hlen, hstream hlen', hend]

/-! ### A short response -/

/-- "hé" in UTF-8. -/
def greetingWord : Text := [104, 195, 169]

def greeting : Json :=
  .object [("choices", .array [.object [("index", .integer 0),
    ("delta", .object [("role", .string "assistant"), ("content", .string greetingWord)]),
    ("finish_reason", .string "stop")]])]

def greetingText : Text :=
  text "\x7b\"choices\": [\x7b\"index\":0,\"delta\":\x7b\"role\":\"assistant\",\"content\":\"" ++
    greetingWord ++ text "\"\x7d,\"finish_reason\":\"stop\"\x7d]\x7d"

/-- A loader that reads the greeting, however it is spaced. -/
def greetingLoader : Loader where
  load t := if squeeze .outside false t = squeeze .outside false greetingText then some greeting
    else none
  proper := by
    intro t v h
    split at h
    next =>
      rw [← Option.some.inj h]
      decide +kernel
    next => cases h

theorem greetingLoader_insensitive : Insensitive greetingLoader := by
  intro p q h
  show (if squeeze .outside false p = _ then _ else _) = if squeeze .outside false q = _ then _ else _
  rw [show squeeze .outside false p = squeeze .outside false q from h]

/-- The greeting in one data line, and in two with other line ends and a comment. -/
theorem observation_independent_sample :
    let first : Text := text "data: " ++ greetingText ++ text "\n\ndata: [DONE]\n\n"
    let second : Text := text ": hello\r\ndata: " ++ greetingText.take 11 ++ text "\r\ndata:" ++
      greetingText.drop 11 ++ text "\r\n\r\ndata: [DONE]\r\n\r\n"
    observedStream {} greetingLoader (fun _ => none) first =
      observedStream {} greetingLoader (fun _ => none) second := by
  intro first second
  refine (observation_independent {} greetingLoader (fun _ => none)
    greetingLoader_insensitive).2.2 first second (by decide +kernel) (by decide +kernel) ?_
    (by decide +kernel)
  have hwhole : EventLines [text "data: " ++ greetingText] :=
    ⟨by simp, by unfold DataLine; decide +kernel, by decide +kernel⟩
  have hbroken : EventLines [text "data: " ++ greetingText.take 11,
      text "data:" ++ greetingText.drop 11] :=
    ⟨by simp, by unfold DataLine; decide +kernel, by decide +kernel⟩
  have hspread := Rewrite.spread [] [text "data: [DONE]", []] _ _ .start hwhole hbroken
    (by unfold Respaced; decide +kernel)
  have hcomment := Rewrite.comment [] ([text "data: " ++ greetingText.take 11,
    text "data:" ++ greetingText.drop 11] ++ [[], text "data: [DONE]", []]) (text ": hello")
    (by unfold Comment; decide +kernel)
  have hfirst : (Lines.lines 13 10 first).1 =
      [] ++ [text "data: " ++ greetingText] ++ [[], text "data: [DONE]", []] := by
    decide +kernel
  have hsecond : (Lines.lines 13 10 second).1 = [] ++ text ": hello" ::
      ([text "data: " ++ greetingText.take 11, text "data:" ++ greetingText.drop 11] ++
        [[], text "data: [DONE]", []]) := by
    decide +kernel
  rw [hfirst, hsecond]
  exact .trans _ _ _ (.rel _ _ hspread) (.rel _ _ hcomment)

/-- A NUL is valid UTF-8, but no comment may hold one. -/
theorem nul_comment_fails :
    let stream (comments : List Text) : Text := Lines.render [10]
      (comments ++ [text "data: " ++ greetingText, [], text "data: [DONE]", []], [])
    Insensitive greetingLoader ∧ utf8 [58, 0] = true ∧
      (observedStream {} greetingLoader (fun _ => none) (stream [])).2.1 =
        some (messageJson greetingWord none) ∧
      (observedStream {} greetingLoader (fun _ => none) (stream [[58, 0]])).2.1 = none := by
  refine ⟨greetingLoader_insensitive, by decide, ?_, ?_⟩
  · decide +kernel
  · decide +kernel

end Recursant.ResponseObserver
