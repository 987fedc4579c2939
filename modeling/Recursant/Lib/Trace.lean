import Mathlib.Data.List.Basic

/-!
# Histories of a reacting machine

A machine answers every event and moves to a new state.  A history lists the events together with
the answers they got, oldest first, so that a property of a whole run can speak about both.
-/

namespace Trace

variable {σ ε ω : Type*}

/-! ## Runs of a relation -/

/-- Steps of a relation one after the other, with the events and their answers. -/
inductive Path (step : σ → ε → ω → σ → Prop) (s : σ) : List (ε × ω) → σ → Prop where
  | init : Path step s [] s
  | next {history : List (ε × ω)} {t u : σ} {event : ε} {answer : ω} :
      Path step s history t → step t event answer u → Path step s (history ++ [(event, answer)]) u

namespace Path

variable {step : σ → ε → ω → σ → Prop} {s t u : σ} {history later : List (ε × ω)}

theorem unappend (path : Path step s (history ++ later) u) :
    ∃ t, Path step s history t ∧ Path step t later u := by
  generalize hall : history ++ later = all at path
  induction path generalizing later with
  | init =>
      obtain ⟨rfl, rfl⟩ := List.append_eq_nil_iff.mp hall
      exact ⟨s, .init, .init⟩
  | @next before m n event answer hpath hstep ih =>
      rcases List.eq_nil_or_concat later with rfl | ⟨front, last, rfl⟩
      · rw [List.append_nil] at hall
        exact ⟨n, hall ▸ .next hpath hstep, .init⟩
      · rw [List.concat_eq_append, ← List.append_assoc] at hall
        obtain ⟨hfront, hlast⟩ := List.append_inj' hall rfl
        obtain ⟨t, hfirst, hsecond⟩ := ih hfront
        refine ⟨t, hfirst, ?_⟩
        rw [List.concat_eq_append, (List.cons.inj hlast).1]
        exact .next hsecond hstep

/-- A run that passes an event makes the step in between. -/
theorem between {event : ε} {answer : ω}
    (path : Path step s (history ++ (event, answer) :: later) u) :
    ∃ m n, Path step s history m ∧ step m event answer n ∧ Path step n later u := by
  rw [List.append_cons] at path
  obtain ⟨n, hfirst, hsecond⟩ := path.unappend
  generalize hall : history ++ [(event, answer)] = all at hfirst
  cases hfirst with
  | init => simp at hall
  | next hpath hstep =>
      obtain ⟨rfl, hlast⟩ := List.append_inj' hall rfl
      obtain ⟨rfl, rfl⟩ := Prod.mk.inj (List.cons.inj hlast).1
      exact ⟨_, n, hpath, hstep, hsecond⟩

end Path

/-! ## Runs of a machine -/

inductive Runs (step : σ → ε → ω × σ) (s : σ) : List (ε × ω) → σ → Prop where
  | init : Runs step s [] s
  | next {history : List (ε × ω)} {t u : σ} {event : ε} {answer : ω} :
      Runs step s history t → step t event = (answer, u) →
        Runs step s (history ++ [(event, answer)]) u

/-- The history and the final state of feeding a list of events to the machine. -/
def feed (step : σ → ε → ω × σ) (s : σ) : List ε → List (ε × ω) × σ
  | [] => ([], s)
  | event :: events =>
      let (history, t) := feed step (step s event).2 events
      ((event, (step s event).1) :: history, t)

namespace Runs

variable {step : σ → ε → ω × σ} {s t u : σ} {history later : List (ε × ω)}

theorem single {event : ε} {answer : ω} (h : step s event = (answer, t)) :
    Runs step s [(event, answer)] t := by
  simpa using Runs.next (.init : Runs step s [] s) h

theorem trans (first : Runs step s history t) (second : Runs step t later u) :
    Runs step s (history ++ later) u := by
  induction second with
  | init => simpa using first
  | next _ hstep ih =>
      rw [← List.append_assoc]
      exact .next ih hstep

theorem feed (events : List ε) (s : σ) :
    Runs step s (Trace.feed step s events).1 (Trace.feed step s events).2 := by
  induction events generalizing s with
  | nil => exact .init
  | cons event events ih =>
      have hfirst : Runs step s [(event, (step s event).1)] (step s event).2 := single rfl
      exact hfirst.trans (ih (step s event).2)

/-- A predicate on histories and states that every step extends holds after every run. -/
theorem induct {P : List (ε × ω) → σ → Prop} (init : P [] s)
    (next : ∀ history t event answer u, Runs step s history t → P history t →
      step t event = (answer, u) → P (history ++ [(event, answer)]) u)
    (run : Runs step s history t) : P history t := by
  induction run with
  | init => exact init
  | next hrun hstep ih => exact next _ _ _ _ _ hrun ih hstep

theorem invariant {P : σ → Prop} (preserves : ∀ t event answer u, P t →
    step t event = (answer, u) → P u) (run : Runs step s history t) (init : P s) : P t :=
  run.induct (P := fun _ t => P t) init fun _ t event answer u _ h => preserves t event answer u h

/-- The runs of a machine are those of the relation that its step function is. -/
theorem iff_path : Runs step s history t ↔
    Path (fun s event answer t => step s event = (answer, t)) s history t := by
  constructor
  · intro run
    induction run with
    | init => exact .init
    | next _ hstep ih => exact .next ih hstep
  · intro path
    induction path with
    | init => exact .init
    | next _ hstep ih => exact .next ih hstep

theorem unappend (run : Runs step s (history ++ later) u) :
    ∃ t, Runs step s history t ∧ Runs step t later u := by
  obtain ⟨t, hfirst, hsecond⟩ := (iff_path.mp run).unappend
  exact ⟨t, iff_path.mpr hfirst, iff_path.mpr hsecond⟩

theorem eq_of_nil (run : Runs step s [] u) : s = u := by
  generalize hnil : ([] : List (ε × ω)) = none at run
  cases run with
  | init => rfl
  | next _ _ => simp at hnil

/-- The first event of a run and its step. -/
theorem uncons {event : ε} {answer : ω} (run : Runs step s ((event, answer) :: later) u) :
    ∃ t, step s event = (answer, t) ∧ Runs step t later u := by
  have hpath : Path _ s ([] ++ (event, answer) :: later) u := iff_path.mp run
  obtain ⟨m, t, hfirst, hstep, hrest⟩ := hpath.between
  obtain rfl := eq_of_nil (iff_path.mpr hfirst)
  exact ⟨t, hstep, iff_path.mpr hrest⟩

/-- Events and answers determine the state reached. -/
theorem functional (first : Runs step s history t) (second : Runs step s history u) : t = u := by
  induction first generalizing u with
  | init =>
      generalize hnil : ([] : List (ε × ω)) = none at second
      cases second with
      | init => rfl
      | next _ _ => simp at hnil
  | @next before m n event answer _ hstep ih =>
      generalize hall : before ++ [(event, answer)] = all at second
      cases second with
      | init => simp at hall
      | next hrun hstep' =>
          obtain ⟨rfl, hlast⟩ := List.append_inj' hall rfl
          obtain ⟨rfl, rfl⟩ := Prod.mk.inj (List.cons.inj hlast).1
          obtain rfl := ih hrun
          exact (Prod.mk.inj (hstep.symm.trans hstep')).2

end Runs

/-! ## A step of the past -/

/-- One step of the run, from `t` to `v`, bears the mark in the final state. -/
def Since (step : σ → ε → ω × σ) (s : σ) (mark : σ → ε → ω → σ → σ → Prop)
    (history : List (ε × ω)) (u : σ) : Prop :=
  ∃ earlier event answer later t v, history = earlier ++ (event, answer) :: later ∧
    Runs step s earlier t ∧ step t event = (answer, v) ∧ Runs step v later u ∧
    mark t event answer v u

namespace Since

variable {step : σ → ε → ω × σ} {s t u : σ} {history : List (ε × ω)} {event : ε} {answer : ω}
  {mark mark' : σ → ε → ω → σ → σ → Prop}

/-- The last step bears the mark. -/
theorem now (run : Runs step s history t) (hstep : step t event = (answer, u))
    (hmark : mark t event answer u u) : Since step s mark (history ++ [(event, answer)]) u :=
  ⟨history, event, answer, [], t, u, rfl, run, hstep, .init, hmark⟩

/-- A mark that does not read the final state is on the last step or on an earlier one. -/
theorem last_or (hfinal : ∀ x e a v y z, mark x e a v y → mark x e a v z)
    (run : Runs step s history t) (hstep : step t event = (answer, u))
    (h : Since step s mark (history ++ [(event, answer)]) u) :
    Since step s mark history t ∨ mark t event answer u u := by
  obtain ⟨earlier, e, a, later, x, v, hhistory, hrun, hmarked, hlater, hbears⟩ := h
  cases List.eq_nil_or_concat later with
  | inl hnil =>
      subst hnil
      obtain ⟨rfl, hlast⟩ := List.append_inj' hhistory rfl
      obtain ⟨rfl, rfl⟩ := Prod.mk.inj (List.cons.inj hlast).1
      obtain rfl := run.functional hrun
      obtain rfl := hlater.eq_of_nil
      exact .inr hbears
  | inr hconcat =>
      obtain ⟨front, last, rfl⟩ := hconcat
      rw [List.concat_eq_append] at hhistory hlater
      have happend : history ++ [(event, answer)] = (earlier ++ (e, a) :: front) ++ [last] := by
        rw [hhistory, List.append_assoc, List.cons_append]
      obtain ⟨rfl, -⟩ := List.append_inj' happend rfl
      obtain ⟨y, hfront, -⟩ := hlater.unappend
      have hbefore : Runs step s (earlier ++ (e, a) :: front) y :=
        hrun.trans ((Runs.single hmarked).trans hfront)
      obtain rfl := run.functional hbefore
      exact .inl ⟨earlier, e, a, front, x, v, rfl, hrun, hmarked, hfront, hfinal _ _ _ _ _ _ hbears⟩

/-- A step that bears the mark still bears it after another one. -/
theorem next (h : Since step s mark history t) (hstep : step t event = (answer, u))
    (hmark : ∀ x e a v, mark x e a v t → mark' x e a v u) :
    Since step s mark' (history ++ [(event, answer)]) u := by
  obtain ⟨earlier, e, a, later, x, v, rfl, run, hmarked, hlater, hbears⟩ := h
  refine ⟨earlier, e, a, later ++ [(event, answer)], x, v, ?_, run, hmarked, .next hlater hstep,
    hmark x e a v hbears⟩
  rw [List.append_assoc, List.cons_append]

end Since

end Trace
