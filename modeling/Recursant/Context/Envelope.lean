import Recursant.Context.Signals

/-!
# The suffix of a structured result

Two recognisers read what follows the object of a tool result: `rejected_call` accepts one bracketed
note, `envelope_failed` looks at the first and the last byte only.
-/

namespace Recursant.Signals

/-- One bracketed note that ends the text, with no newline or bracket inside. -/
def IsNote (rest : Text) : Prop :=
  ∃ body, rest = 91 :: (body ++ [93]) ∧ body.any breaksNote = false

/-- Nothing but blanks, or one note. -/
def Trailer (rest : Text) : Prop := rest = [] ∨ IsNote rest

theorem isNote_iff {rest : Text} : IsNote rest ↔ rest.head? = some 91 ∧
    rest.getLast? = some 93 ∧ rest.tail.dropLast.any breaksNote = false := by
  constructor
  · rintro ⟨body, rfl, hbody⟩
    refine ⟨rfl, ?_, ?_⟩
    · rw [← List.cons_append, List.getLast?_concat]
    · rw [List.tail_cons, List.dropLast_concat]
      exact hbody
  · rintro ⟨hhead, hlast, hbody⟩
    cases rest with
    | nil => cases hhead
    | cons c rest =>
        obtain rfl := Option.some.inj hhead
        rcases List.eq_nil_or_concat rest with rfl | ⟨body, d, rfl⟩
        · have : (91 : Byte) = 93 := Option.some.inj hlast
          cases this
        · rw [List.concat_eq_append] at hlast hbody ⊢
          rw [← List.cons_append, List.getLast?_concat] at hlast
          rw [List.tail_cons, List.dropLast_concat] at hbody
          obtain rfl := Option.some.inj hlast
          exact ⟨body, rfl, hbody⟩

variable (reader : Reader)

/-- The object of the text is read for its outcome. -/
def Structured (t : Text) : Prop :=
  ∃ o rest, leading reader (64 * scanBytes) t = some (o, rest) ∧ Trailer rest

/-- The outcome fields are read only from a structured result, any other text is scanned whole, and
so no failure word after a clean object is hidden. -/
structure HidesNothing (t : Text) : Prop where
  used : ∀ failed, envelopeFailed reader t = some failed → Structured reader t
  scanned : ¬ Structured reader t → failedText reader t = scanText t
  found : ∀ o rest, leading reader (64 * scanBytes) t = some (o, rest) → outcomeFailed o = false →
    ¬ Trailer rest → scanText t = true → failedText reader t = true

variable {reader}

theorem envelopeFailed_eq_some {t : Text} {failed : Bool}
    (h : envelopeFailed reader t = some failed) :
    ∃ o rest, leading reader (64 * scanBytes) t = some (o, rest) ∧
      (rest = [] ∨ (rest.head? = some 91 ∧ rest.getLast? = some 93)) := by
  unfold envelopeFailed at h
  split at h
  next o rest hlead =>
    split at h
    next => cases h
    next hsuffix =>
      refine ⟨o, rest, hlead, ?_⟩
      simp only [Bool.and_eq_true, Bool.or_eq_true, decide_eq_true_eq, not_and, not_or,
        ne_eq, not_not] at hsuffix
      by_cases hrest : rest = []
      · exact .inl hrest
      · exact .inr (hsuffix hrest)
  next => cases h

theorem envelopeFailed_bracketed {t rest : Text} {o : Json}
    (hlead : leading reader (64 * scanBytes) t = some (o, rest)) (hhead : rest.head? = some 91)
    (hlast : rest.getLast? = some 93) : envelopeFailed reader t = some (outcomeFailed o) := by
  unfold envelopeFailed
  rw [hlead]
  simp only [hhead, hlast, ne_eq, not_true_eq_false, decide_false, Bool.or_self, Bool.and_false,
    Bool.false_eq_true, ite_false]

/-- Nothing is hidden unless what follows the object starts with a bracket and ends with one, but has
a newline or another bracket between them. -/
theorem hidesNothing_iff (reader : Reader) (t : Text) : HidesNothing reader t ↔
    ∀ o rest, leading reader (64 * scanBytes) t = some (o, rest) → rest.head? = some 91 →
      rest.getLast? = some 93 → rest.tail.dropLast.any breaksNote = false := by
  constructor
  · intro h o rest hlead hhead hlast
    obtain ⟨o', rest', hlead', htrailer⟩ := h.used _ (envelopeFailed_bracketed hlead hhead hlast)
    obtain ⟨-, rfl⟩ := Prod.mk.inj (Option.some.inj (hlead.symm.trans hlead'))
    cases htrailer with
    | inl hnil =>
        rw [hnil] at hhead
        cases hhead
    | inr hnote => exact (isNote_iff.mp hnote).2.2
  · intro h
    have hused : ∀ failed, envelopeFailed reader t = some failed → Structured reader t := by
      intro failed hfailed
      obtain ⟨o, rest, hlead, hrest⟩ := envelopeFailed_eq_some hfailed
      refine ⟨o, rest, hlead, ?_⟩
      cases hrest with
      | inl hnil => exact .inl hnil
      | inr hends =>
          exact .inr (isNote_iff.mpr ⟨hends.1, hends.2, h o rest hlead hends.1 hends.2⟩)
    have hscanned : ¬ Structured reader t → failedText reader t = scanText t := by
      intro hnot
      have hnone : envelopeFailed reader t = none := by
        cases hfailed : envelopeFailed reader t with
        | none => rfl
        | some failed => exact absurd (hused failed hfailed) hnot
      unfold failedText
      rw [hnone]
      rfl
    refine ⟨hused, hscanned, fun o rest hlead _ htrailer hscan => ?_⟩
    rw [hscanned, hscan]
    rintro ⟨o', rest', hlead', htrailer'⟩
    obtain ⟨-, rfl⟩ := Prod.mk.inj (Option.some.inj (hlead.symm.trans hlead'))
    exact htrailer htrailer'

/-- A clean exit code, a note, a traceback on lines of its own, and another note. -/
def tracebackBetweenNotes : Text :=
  "\x7b\"exit_code\":0\x7d\n[note]\n" ++ text "Traceback (most recent call last)\n[end]"

/-- What the library reads from that text. -/
def exitCodeReader : Reader where
  load t := if t = tracebackBetweenNotes then some (.object [(text "exit_code", .integer 0)], 15) else none
  canonical _ := none

/-- The traceback is not seen. -/
theorem traceback_hidden : ¬ HidesNothing exitCodeReader tracebackBetweenNotes := by
  intro h
  have hsuffix : ¬ Trailer ("[note]\n" ++ text "Traceback (most recent call last)\n[end]") := by
    unfold Trailer
    rw [isNote_iff]
    decide +kernel
  have hfound : failedText exitCodeReader tracebackBetweenNotes = true :=
    h.found (.object [(text "exit_code", .integer 0)]) _ (by decide +kernel) (by decide +kernel)
      hsuffix (by decide +kernel)
  have hclean : failedText exitCodeReader tracebackBetweenNotes = false := by decide +kernel
  exact Bool.false_ne_true (hclean.symm.trans hfound)

end Recursant.Signals
