import Recursant.Gateway.Evidence

/-!
# Advice and its source

The gateway and the interpreter's worker side by side, in any order of their steps.  Advice that is
used for a request goes back to one accepted event of the request's own scope.
-/

namespace Recursant.Gateway

open Compliance (Gated Runtime Verdict)
open Stateful Trace

variable {ρ : Router} {start s t : State ρ} {w v : Worker} {event : Event} {answer : Answer}
  {history : List (Event × Answer)} {i : Slot}

/-! ## The gateway and the worker -/

/-- The worker's side of an event: the results that are polled, and the job that is handed over. -/
inductive Feeds (s : State ρ) (w : Worker) : Event → Worker → Prop
  | poll (now : Nat) (results : List InterpreterResult) {v : Worker} :
      results.length ≤ GatewayContext.interpreterCapacity →
      w.Polls ρ.jansson results v → Feeds s w (.poll now results) v
  | prepare (id now : Nat) (verdict : Json → Option Text → Verdict)
      (polled : List InterpreterResult) {v : Worker} :
      polled.length ≤ GatewayContext.interpreterCapacity →
      w.Polls ρ.jansson polled v → Feeds s w (.prepare id now verdict polled) v
  | submitted (body : Json) (now : Nat) {input : InterpreterInput} {v : Worker} :
      submission s.runtime body now s.gateway = some input → w.submit input = some v →
      Feeds s w (.ingest body now true) v
  | unsubmitted (body : Json) (now : Nat) : Feeds s w (.ingest body now false) w
  | other {event : Event} : event.polled = [] →
      (∀ body now submitted, event ≠ .ingest body now submitted) → Feeds s w event w

/-- The runs of the gateway and the worker from `start`. -/
inductive Joint (start : State ρ) : List (Event × Answer) → State ρ → Worker → Prop
  | init : Joint start [] start Worker.idle
  | work {history : List (Event × Answer)} {s : State ρ} {w v : Worker} : Joint start history s w →
      Worker.Moves ρ.jansson w v → Joint start history s v
  | next {history : List (Event × Answer)} {s t : State ρ} {w v : Worker} {event : Event}
      {answer : Answer} : Joint start history s w → Feeds s w event v →
      step s event = (answer, t) → Joint start (history ++ [(event, answer)]) t v

theorem Joint.runs (h : Joint start history s w) : Runs step start history s := by
  induction h with
  | init => exact .init
  | work _ _ ih => exact ih
  | next _ _ hstep ih => exact .next ih hstep

/-- The job was handed over for an event of the history. -/
def Submitted (start : State ρ) (history : List (Event × Answer)) (s : State ρ)
    (input : InterpreterInput) : Prop :=
  Since step start (fun x event _ _ _ => ∃ body now, event = .ingest body now true ∧
    submission x.runtime body now x.gateway = some input) history s

theorem Submitted.next {input : InterpreterInput} (h : Submitted start history s input)
    (hstep : step s event = (answer, t)) :
    Submitted start (history ++ [(event, answer)]) t input :=
  Since.next h hstep fun _ _ _ _ => id

/-- A job of the longer history is one of the shorter, or it is the event's own. -/
theorem Submitted.last {input : InterpreterInput} (run : Runs step start history s)
    (h : Submitted start (history ++ [(event, answer)]) t input) :
    Submitted start history s input ∨ ∃ body now, event = .ingest body now true ∧
      submission s.runtime body now s.gateway = some input := by
  obtain ⟨earlier, e, a, later, x, u, hhistory, hearlier, hmarked, hlater, hbears⟩ := h
  rcases List.eq_nil_or_concat later with rfl | ⟨front, last, rfl⟩
  · obtain ⟨rfl, hlast⟩ := List.append_inj' hhistory rfl
    obtain ⟨rfl, rfl⟩ := Prod.mk.inj (List.cons.inj hlast).1
    obtain rfl := run.functional hearlier
    exact .inr hbears
  · left
    rw [List.concat_eq_append, ← List.cons_append, ← List.append_assoc] at hhistory
    obtain ⟨hfront, -⟩ := List.append_inj' hhistory rfl
    rw [List.concat_eq_append] at hlater
    obtain ⟨y, hmiddle, -⟩ := hlater.unappend
    have hwhole : Runs step start history y := by
      have hfirst := (Runs.next hearlier hmarked).trans hmiddle
      rw [List.append_assoc, List.singleton_append, ← hfront] at hfirst
      exact hfirst
    obtain rfl := run.functional hwhole
    exact ⟨earlier, e, a, front, x, u, hfront, hearlier, hmarked, hmiddle, hbears⟩

/-! ## The source of evidence -/

/-- The event accepted in `x` is the source of what slot `i` of `u` has as evidence. -/
structure Ties (x : State ρ) (body : Json) (e : Evidence) (u : State ρ) (i : Slot) : Prop where
  accepted : Accepted x.gateway body i e (u.gateway.scopes i).revision
  title : SameTitle (x.gateway.scopes i) (u.gateway.scopes i)
  serial : (u.gateway.scopes i).serial = (x.gateway.scopes i).serial
  row : ∃ r r' : Physical, x.gateway.rows[e.row]? = some r ∧ u.gateway.rows[e.row]? = some r' ∧
    r'.attempt = r.attempt ∧ r.inUse = true
  latest : (u.gateway.scopes i).lastRow = some e.row →
    ∀ (id : Nat) (o : Exchange ρ.settings.count), u.exchanges[id]? = some o →
      o.Ran (u.gateway.scopes i).serial → ∃ o' : Exchange ρ.settings.count,
        x.exchanges[id]? = some o' ∧ o'.Ran (u.gateway.scopes i).serial

/-- The job is for the generation, the branch and the revision of the scope. -/
structure JobOf (input : InterpreterInput) (u : Scope) : Prop where
  generation : input.key.taskGeneration = u.generation
  branch : input.key.branch = u.branch
  revision : input.revision = u.revision

/-- The evidence of the slot is an accepted event's, and every job for the scope's revision is that
event's. -/
def Attested (start : State ρ) (history : List (Event × Answer)) (s : State ρ) (i : Slot)
    (k : Nat) : Prop :=
  Since step start (fun x event _ _ u => ∃ body now submitted e,
    event = .ingest body now submitted ∧ Ties x body e u i ∧ e.row = k ∧
      ∀ input, Submitted start history s input → JobOf input (u.gateway.scopes i) →
        submitted = true ∧ submission x.runtime body now x.gateway = some input) history s

/-- The row is that of the latest exchange of the slot's scope. -/
def LatestRow (start : State ρ) (history : List (Event × Answer)) (s : State ρ) (i : Slot)
    (k : Nat) : Prop :=
  ∃ (id : Nat) (o : Exchange ρ.settings.count) (r : Physical),
    Since step start (fun x event _ _ u => (∃ now verdict polled,
      event = .prepare id now verdict polled) ∧ ∀ (id' : Nat) (o' : Exchange ρ.settings.count),
        u.exchanges[id']? = some o' → o'.Ran (u.gateway.scopes i).serial → id' ≠ id →
        ∃ o'' : Exchange ρ.settings.count, x.exchanges[id']? = some o'' ∧
          o''.Ran (u.gateway.scopes i).serial) history s ∧
    s.exchanges[id]? = some o ∧ o.Ran (s.gateway.scopes i).serial ∧ o.ticket.scope = some i ∧
    o.ticket.row = some k ∧ s.gateway.rows[k]? = some r ∧ r.inUse = true ∧
    o.ticket.id = some r.id ∧ r.headers = o.request.headers.invocation

/-- The advice is the answer to a job for the scope. -/
structure Advised (start : State ρ) (history : List (Event × Answer)) (s : State ρ) (i : Slot) :
    Prop where
  revision : (s.gateway.scopes i).interpretation.revision = (s.gateway.scopes i).revision
  answers : ∃ input response, Submitted start history s input ∧
    JobOf input (s.gateway.scopes i) ∧
    (s.gateway.scopes i).interpretation = perform ρ.jansson input response

/-- What holds of the registered scopes after every run. -/
structure Informed (start : State ρ) (history : List (Event × Answer)) (s : State ρ) : Prop where
  keyed : ∀ i, Registered (s.gateway.scopes i) →
    (s.gateway.scopes i).key.taskGeneration = (s.gateway.scopes i).generation ∧
      (s.gateway.scopes i).key.branch = (s.gateway.scopes i).branch
  named : ∀ input, Submitted start history s input → ∃ n ≤ s.gateway.generations,
    input.key.taskGeneration = generationName s.gateway.boot n
  newest : ∀ input, Submitted start history s input → ∀ i, Registered (s.gateway.scopes i) →
    input.key.taskGeneration = (s.gateway.scopes i).generation →
    input.key.branch = (s.gateway.scopes i).branch →
    input.revision ≤ (s.gateway.scopes i).revision
  attested : ∀ i k, Registered (s.gateway.scopes i) →
    (s.gateway.scopes i).evidenceRow = some k → Attested start history s i k
  advised : ∀ i, Registered (s.gateway.scopes i) →
    (s.gateway.scopes i).interpretation.revision ≠ 0 → Advised start history s i
  latest : ∀ i k, Registered (s.gateway.scopes i) →
    (s.gateway.scopes i).lastRow = some k → LatestRow start history s i k

/-! ## Turns without an accepted event -/

/-- An exchange of slot `i` begins with row `k`. -/
structure StartsRow (s : State ρ) (event : Event) (t : State ρ) (i : Slot) (k : Nat) : Prop where
  begins : ∃ (id : Nat) (o : Exchange ρ.settings.count) (r : Physical),
    (∃ now verdict polled, event = .prepare id now verdict polled) ∧
    (∀ (id' : Nat) (o' : Exchange ρ.settings.count), t.exchanges[id']? = some o' → id' ≠ id →
      s.exchanges[id']? = some o') ∧
    t.exchanges[id]? = some o ∧ o.Ran (t.gateway.scopes i).serial ∧ o.ticket.scope = some i ∧
    o.ticket.row = some k ∧ t.gateway.rows[k]? = some r ∧ r.inUse = true ∧
    o.ticket.id = some r.id ∧ r.headers = o.request.headers.invocation
  apart : ∀ (n : Nat) (r : Physical), (t.gateway.scopes i).evidenceRow = some n →
    s.gateway.rows[n]? = some r → r.inUse = true → k ≠ n

/-- The last row of slot `i` is what it was, and no exchange of it begins. -/
structure KeepsRow (polled : InterpreterResult → Prop) (s t : State ρ) (i : Slot) (k : Nat) :
    Prop where
  lastRow : (s.gateway.scopes i).lastRow = some k
  heard : Heard polled (s.gateway.scopes i) (t.gateway.scopes i)
  row : ∀ r : Physical, s.gateway.rows[k]? = some r → r.inUse = true →
    ∃ r' : Physical, t.gateway.rows[k]? = some r' ∧ r'.attempt = r.attempt
  quiet : ∀ (id : Nat) (o : Exchange ρ.settings.count), t.exchanges[id]? = some o →
    o.Ran (t.gateway.scopes i).serial → ∃ o' : Exchange ρ.settings.count,
      s.exchanges[id]? = some o' ∧ o'.Ran (t.gateway.scopes i).serial

/-- What a step that accepts no event carries over. -/
structure Carries (polled : InterpreterResult → Prop) (s : State ρ) (event : Event)
    (t : State ρ) : Prop where
  boot : t.gateway.boot = s.gateway.boot
  generations : s.gateway.generations ≤ t.gateway.generations
  stays : ∀ i, Registered (t.gateway.scopes i) →
    Stays polled s t i ∨ Fresh s.gateway t.gateway i
  lastRow : ∀ i k, Registered (t.gateway.scopes i) → (t.gateway.scopes i).lastRow = some k →
    StartsRow s event t i k ∨ KeepsRow polled s t i k
  sameRun : ∀ (id : Nat) (o : Exchange ρ.settings.count), s.exchanges[id]? = some o →
    o.ticket.begun = true ∨ o.ticket.finished = true →
    ∃ o' : Exchange ρ.settings.count, t.exchanges[id]? = some o' ∧ SameRun o o'

theorem begins_ran {u : Intake} {id : Nat} {e : Exchange ρ.settings.count}
    (h : Begins u s event t i id e) : t.exchanges[id]? = some e ∧
      e.Ran (t.gateway.scopes i).serial ∧ e.ticket.scope = some i := by
  obtain ⟨now, verdict, polled, o, placed, a, b, d, q, -, ho, -, rfl, rfl, hscope, hcourse⟩ := h.course
  have hticket : q.ticket.scope = some i := hcourse.scope.trans hscope
  refine ⟨getElem?_setExchange_self ho, ⟨.inl hcourse.concluded.begun, ?_⟩, hticket⟩
  show q.serial = (q.gateway.scopes i).serial
  unfold Prep.serial
  rw [hticket]
  rfl

theorem Turn.carries {u : Intake} (h : Turn u s event answer t)
    (hnone : ∀ i e revision, ¬ u.accepted i e revision) (hpoised : Poised s) (hlater : Poised t) :
    Carries u.polled s event t := by
  have hcounters := h.counters
  refine ⟨hcounters.1, hcounters.2, fun i hi => h.stays hnone hpoised hi, fun i k hi hk => ?_,
    fun id o ho hran => h.sameRun hpoised.fenced ho hran⟩
  by_cases hbegins : ∃ id e, Begins u s event t i id e
  · left
    obtain ⟨id, e, hbegins⟩ := hbegins
    obtain ⟨he, hran, hscope⟩ := begins_ran hbegins
    obtain ⟨now, verdict, polled, o, placed, a, b, d, q, hevent, ho, -, rfl, rfl, hplaced, hcourse⟩ :=
      hbegins.course
    have hrow : (q.gateway.scopes i).lastRow = q.ticket.row := by
      obtain ⟨model, hcommits⟩ := hcourse.concluded.own i hplaced
      exact congrArg Scope.lastRow hcommits.scope
    have hk' : q.ticket.row = some k := hrow.symm.trans hk
    obtain ⟨-, r, hr⟩ := hcourse.mirrors (e := o) rfl hk'
    refine ⟨⟨id, o.begin q, r, ⟨now, verdict, polled, hevent⟩, fun id' o' ho' hne => ?_, he, hran,
      hscope, hk', hr.row, hr.inUse, hr.id, hr.headers⟩, fun n r hn hr hused heq => ?_⟩
    · rw [getElem?_setExchange_of_ne hne] at ho'
      exact ho'
    · exact hbegins.apart hnone hpoised hi hn hr hused (heq ▸ hk)
  · cases h.lastRow hnone hpoised hi hk with
    | inl hstarts => exact absurd hstarts hbegins
    | inr hsame =>
        refine .inr ⟨hsame.1, hsame.2.1, hsame.2.2, fun id o ho hran => ?_⟩
        have hserial : 0 < (t.gateway.scopes i).serial := (hlater.fenced.sound.bounded i hi.1).1
        rcases h.exchange ho with ⟨o', ho', hgoes⟩ | hidle | hfree | ⟨j, hj⟩
        · exact ⟨o', ho', hgoes.ran.mp hran.1, hgoes.serial.symm.trans hran.2⟩
        · exact absurd hran.1 hidle
        · have hzero := hran.2
          rw [hfree.2] at hzero
          omega
        · -- no other open slot has this number
          exfalso
          obtain ⟨-, hranj, -⟩ := begins_ran hj
          obtain ⟨_, _, _, _, placed, a, b, d, q, -, _, -, -, rfl, hplaced, hcourse⟩ := hj.course
          have hopen : (q.gateway.scopes j).isOpen = true :=
            (hcourse.noted.written.persists j).isOpen.trans (hcourse.steady.isOpen j hplaced)
          have hij := hlater.fenced.sound.serials i j hi.1 hopen (hran.2.symm.trans hranj.2)
          exact hbegins ⟨id, o, hij ▸ hj⟩

theorem Passed.carries (h : Passed s.gateway t.gateway) (hexchanges : t.exchanges = s.exchanges) :
    Carries (fun _ => False) s event t := by
  have hrow : ∀ (n : Nat) (r : Physical), s.gateway.rows[n]? = some r → r.inUse = true →
      ∃ r' : Physical, t.gateway.rows[n]? = some r' ∧ r'.attempt = r.attempt :=
    fun n r hr _ => ⟨r, h.rows ▸ hr, rfl⟩
  refine ⟨h.boot, h.generations.ge, fun i _ => .inl ⟨h.heard i, fun n r _ => hrow n r⟩,
    fun i k _ hk => .inr ⟨(h.lastRow i).symm.trans hk, h.heard i, hrow k, fun id o ho hran => ?_⟩,
    fun id o ho _ => ⟨o, hexchanges ▸ ho, .refl o⟩⟩
  exact ⟨o, hexchanges ▸ ho, hran⟩

/-! ## One slot over a step -/

section Slots

variable {polled : InterpreterResult → Prop} {k : Nat}

theorem JobOf.heard {input : InterpreterInput} {u u' : Scope} (h : JobOf input u')
    (hheard : Heard polled u u') : JobOf input u :=
  ⟨h.generation.trans hheard.title.generation, h.branch.trans hheard.title.branch,
    h.revision.trans hheard.revision⟩

theorem JobOf.later {input : InterpreterInput} {u u' : Scope} (h : JobOf input u)
    (hheard : Heard polled u u') : JobOf input u' :=
  ⟨h.generation.trans hheard.title.generation.symm, h.branch.trans hheard.title.branch.symm,
    h.revision.trans hheard.revision.symm⟩

theorem Attested.next (h : Attested start history s i k) (hstep : step s event = (answer, t))
    (hstays : Stays polled s t i) (hevidence : (t.gateway.scopes i).evidenceRow = some k)
    (hlast : (t.gateway.scopes i).lastRow = some k →
      StartsRow s event t i k ∨ KeepsRow polled s t i k)
    (hjobs : ∀ input, Submitted start (history ++ [(event, answer)]) t input →
      JobOf input (t.gateway.scopes i) → Submitted start history s input) :
    Attested start (history ++ [(event, answer)]) t i k := by
  refine Since.next h hstep fun x event' _ _ hmark => ?_
  obtain ⟨body, now, submitted, e, hevent, hties, hrow, hsource⟩ := hmark
  have hheard := hstays.heard
  refine ⟨body, now, submitted, e, hevent, ⟨?_, hties.title.trans hheard.title,
    hheard.serial.trans hties.serial, ?_, fun hnow id o ho hran => ?_⟩, hrow,
    fun input hsubmitted hjob => hsource input (hjobs input hsubmitted hjob) (hjob.heard hheard)⟩
  · rw [hheard.revision]
    exact hties.accepted
  · obtain ⟨r, r', hr, hr', hsame, hused⟩ := hties.row
    obtain ⟨r'', hr'', hsame'⟩ := hstays.row e.row r' (hrow ▸ hevidence) hr'
      ((inUse_of_attempt hsame).trans hused)
    exact ⟨r, r'', hr, hr'', hsame'.trans hsame, hused⟩
  · rw [hrow] at hnow
    cases hlast hnow with
    | inl hstarts =>
        obtain ⟨r, r', -, hr', hsame, hused⟩ := hties.row
        rw [hrow] at hr'
        exact absurd rfl (hstarts.apart k r' hevidence hr' ((inUse_of_attempt hsame).trans hused))
    | inr hkeeps =>
        obtain ⟨o', ho', hran'⟩ := hkeeps.quiet id o ho hran
        rw [hheard.serial] at hran' ⊢
        exact hties.latest (hrow ▸ hkeeps.lastRow) id o' ho' hran'

theorem Advised.next (h : Advised start history s i) (hstep : step s event = (answer, t))
    (hheard : Heard polled (s.gateway.scopes i) (t.gateway.scopes i))
    (hsame : (t.gateway.scopes i).interpretation = (s.gateway.scopes i).interpretation) :
    Advised start (history ++ [(event, answer)]) t i := by
  obtain ⟨input, response, hsubmitted, hjob, hadvice⟩ := h.answers
  refine ⟨?_, input, response, hsubmitted.next hstep, hjob.later hheard, hsame.trans hadvice⟩
  rw [hsame, hheard.revision]
  exact h.revision

theorem LatestRow.next (h : LatestRow start history s i k) (hstep : step s event = (answer, t))
    (hkeeps : KeepsRow polled s t i k) (hsame : ∀ (id : Nat) (o : Exchange ρ.settings.count),
      s.exchanges[id]? = some o → o.ticket.begun = true ∨ o.ticket.finished = true →
      ∃ o' : Exchange ρ.settings.count, t.exchanges[id]? = some o' ∧ SameRun o o') :
    LatestRow start (history ++ [(event, answer)]) t i k := by
  obtain ⟨id, o, r, hsince, ho, hran, hscope, hrow, hr, hused, hid, hheaders⟩ := h
  have hserial := hkeeps.heard.serial
  obtain ⟨o', ho', hgoes⟩ := hsame id o ho hran.1
  obtain ⟨r', hr', hattempt⟩ := hkeeps.row r hr hused
  have hheaders' : r'.headers = r.headers := congrArg Prod.fst hattempt
  have hid' : r'.id = r.id := congrArg (fun attempt => attempt.2.1) hattempt
  refine ⟨id, o', r', ?_, ho', ⟨hgoes.ran.mpr hran.1, ?_⟩, hgoes.scope.trans hscope,
    hgoes.row.trans hrow, hr', (inUse_of_attempt hattempt).trans hused, ?_, ?_⟩
  · refine hsince.next hstep fun x event' _ _ hmark => ⟨hmark.1, fun id' o'' ho'' hran'' hne => ?_⟩
    obtain ⟨o₁, ho₁, hran₁⟩ := hkeeps.quiet id' o'' ho'' hran''
    rw [hserial] at hran₁ ⊢
    exact hmark.2 id' o₁ ho₁ hran₁ hne
  · rw [hgoes.serial, hserial]
    exact hran.2
  · rw [hgoes.id, hid, hid']
  · rw [hheaders', hgoes.request]
    exact hheaders

theorem StartsRow.latest (h : StartsRow s event t i k) (run : Runs step start history s)
    (hstep : step s event = (answer, t)) :
    LatestRow start (history ++ [(event, answer)]) t i k := by
  obtain ⟨id, o, r, hevent, hothers, ho, hran, hrest⟩ := h.begins
  refine ⟨id, o, r, .now run hstep ⟨hevent, fun id' o' ho' hran' hne => ?_⟩, ho, hran, hrest⟩
  exact ⟨o', hothers id' o' ho' hne, hran'⟩

end Slots

/-- A step that accepts no event keeps the registered scopes informed. -/
theorem Informed.carry {polled : InterpreterResult → Prop} (h : Informed start history s)
    (run : Runs step start history s) (hstep : step s event = (answer, t))
    (htitled : Titled t.gateway) (hcarries : Carries polled s event t)
    (hpolled : ∀ r, polled r → ∃ input response, Submitted start history s input ∧
      r = perform ρ.jansson input response)
    (hjobs : ∀ input, Submitted start (history ++ [(event, answer)]) t input →
      Submitted start history s input) : Informed start (history ++ [(event, answer)]) t := by
  refine ⟨fun i hi => ?_, fun input hinput => ?_, fun input hinput i hi hgeneration hbranch => ?_,
    fun i k hi hk => ?_, fun i hi hrevision => ?_, fun i k hi hk => ?_⟩
  · cases hcarries.stays i hi with
    | inr hfresh => exact hfresh.key
    | inl hstays =>
        have hheard := hstays.heard
        rw [hheard.key, hheard.title.generation, hheard.title.branch]
        exact h.keyed i (hheard.title.registered hi)
  · obtain ⟨n, hn, hname⟩ := h.named input (hjobs input hinput)
    exact ⟨n, hn.trans hcarries.generations, hcarries.boot ▸ hname⟩
  · cases hcarries.stays i hi with
    | inl hstays =>
        have hheard := hstays.heard
        rw [hheard.title.generation] at hgeneration
        rw [hheard.title.branch] at hbranch
        rw [hheard.revision]
        exact h.newest input (hjobs input hinput) i (hheard.title.registered hi) hgeneration hbranch
    | inr hfresh =>
        -- the new generation was not issued when the job was handed over
        exfalso
        obtain ⟨n, hn, hname⟩ := h.named input (hjobs input hinput)
        obtain ⟨m, hlow, hhigh, hname'⟩ := hfresh.generation
        have hbounded := htitled.bounded
        have hgenerations := hcarries.generations
        rw [hgeneration, hname'] at hname
        have heq := generationName_injective (by omega) (by omega) hname
        omega
  · cases hcarries.stays i hi with
    | inr hfresh =>
        rw [hfresh.evidence] at hk
        cases hk
    | inl hstays =>
        have hk' : (s.gateway.scopes i).evidenceRow = some k := by
          cases hstays.heard.evidence with
          | inl hsame => exact hsame.symm.trans hk
          | inr hgone =>
              rw [hgone] at hk
              cases hk
        exact (h.attested i k (hstays.heard.title.registered hi) hk').next hstep hstays hk
          (hcarries.lastRow i k hi) fun input hinput _ => hjobs input hinput
  · cases hcarries.stays i hi with
    | inr hfresh => exact absurd hfresh.advice hrevision
    | inl hstays =>
        have hheard := hstays.heard
        rcases hheard.advice with hsame | hzero | ⟨hresult, hpublishable⟩
        · rw [hsame] at hrevision
          exact (h.advised i (hheard.title.registered hi) hrevision).next hstep hheard hsame
        · exact absurd hzero hrevision
        · obtain ⟨input, response, hsubmitted, hanswer⟩ := hpolled _ hresult
          have hresultOf := perform_resultOf ρ.jansson input response
          rw [← hanswer] at hresultOf
          refine ⟨hpublishable.revision.symm, input, response, hsubmitted.next hstep, ⟨?_, ?_, ?_⟩,
            hanswer⟩
          · exact hresultOf.generation.symm.trans hpublishable.generation.symm
          · exact hresultOf.branch.symm.trans hpublishable.branch.symm
          · exact hresultOf.revision.symm.trans hpublishable.revision.symm
  · cases hcarries.lastRow i k hi hk with
    | inl hstarts => exact hstarts.latest run hstep
    | inr hkeeps =>
        have hregistered := hkeeps.heard.title.registered hi
        exact (h.latest i k hregistered hkeeps.lastRow).next hstep hkeeps hcarries.sameRun

/-! ## Accepted events -/

section Accepting

variable {body : Json} {now : Nat} {submitted : Bool} {e : Evidence} {revision : Nat}

/-- A slot other than the event's is left alone. -/
theorem Accepts.stays {j : Slot} (h : Accepts s.gateway t.gateway i e revision) (hji : j ≠ i) :
    Stays (fun _ => False) s t j :=
  ⟨h.others j hji ▸ .refl _, fun _ r _ hr _ => ⟨r, h.rows ▸ hr, rfl⟩⟩

theorem Accepts.titles (h : Accepts s.gateway t.gateway i e revision) (j : Slot) :
    SameTitle (s.gateway.scopes j) (t.gateway.scopes j) ∧
      (t.gateway.scopes j).serial = (s.gateway.scopes j).serial ∧
      (t.gateway.scopes j).key = (s.gateway.scopes j).key ∧
      (t.gateway.scopes j).lastRow = (s.gateway.scopes j).lastRow := by
  by_cases hji : j = i
  · rw [hji]
    have hholder : ∀ {α : Type} (view : Holder → α),
        (∀ u, view { u with inflight := false, privateOnly := false } = view u) →
        view (t.gateway.scopes i).toHolder = view (s.gateway.scopes i).toHolder := by
      intro α view hview
      rw [← hview (t.gateway.scopes i).toHolder, ← hview (s.gateway.scopes i).toHolder]
      exact congrArg (fun note => view note.1) h.note
    exact ⟨⟨hholder Holder.isOpen fun _ => rfl, hholder Holder.implicit fun _ => rfl,
      hholder Holder.task fun _ => rfl, hholder Holder.session fun _ => rfl,
      hholder Holder.branch fun _ => rfl, hholder Holder.generation fun _ => rfl⟩,
      hholder Holder.serial fun _ => rfl, congrArg (fun note => note.2.1) h.note, h.lastRow⟩
  · rw [h.others j hji]
    exact ⟨.of_eq rfl, rfl, rfl, rfl⟩

/-- The event's own job, if any, is for its scope. -/
theorem Accepted.hands (haccepted : Accepted s.gateway body i e revision)
    (htitled : Titled s.gateway) {input : InterpreterInput} {j : Slot}
    (h : Hands s.gateway body input j) : j = i ∧ input.revision = revision := by
  have hgeneration := Option.some.inj (h.generation.symm.trans haccepted.ingested.generation)
  refine ⟨htitled.generations j i h.registered ⟨haccepted.acceptable.isOpen,
    haccepted.acceptable.registered⟩ hgeneration, ?_⟩
  exact Option.some.inj (h.revision.symm.trans haccepted.ingested.revision)

theorem Informed.accept (h : Informed start history s) (run : Runs step start history s)
    (hevent : event = .ingest body now submitted) (hstep : step s event = (answer, t))
    (htitled : Titled s.gateway) (haccepted : Accepted s.gateway body i e revision)
    (haccepts : Accepts s.gateway t.gateway i e revision) (hexchanges : t.exchanges = s.exchanges) :
    Informed start (history ++ [(event, answer)]) t := by
  have hregistered : Registered (s.gateway.scopes i) :=
    ⟨haccepted.acceptable.isOpen, haccepted.acceptable.registered⟩
  have hrevision : (t.gateway.scopes i).revision = revision :=
    congrArg (fun note => note.2.2.1) haccepts.note
  have hadvice : (t.gateway.scopes i).interpretation = {} :=
    congrArg (fun note => note.2.2.2.2) haccepts.note
  have hevidence : (t.gateway.scopes i).evidenceRow = some e.row :=
    congrArg (fun note => note.2.2.2.1) haccepts.note
  have hbefore : ∀ j, Registered (t.gateway.scopes j) → Registered (s.gateway.scopes j) :=
    fun j hj => (haccepts.titles j).1.registered hj
  -- every job is an old one, or the event's own, which is for its scope
  have hjobs : ∀ input, Submitted start (history ++ [(event, answer)]) t input →
      Submitted start history s input ∨ submitted = true ∧ Hands s.gateway body input i ∧
        input.revision = revision ∧ submission s.runtime body now s.gateway = some input := by
    intro input hinput
    cases hinput.last run with
    | inl hold => exact .inl hold
    | inr hnew =>
        obtain ⟨body', now', hsame, hsubmission⟩ := hnew
        rw [hevent] at hsame
        obtain ⟨rfl, rfl, rfl⟩ := Event.ingest.inj hsame
        obtain ⟨-, j, hhands⟩ := submission_eq_some hsubmission
        obtain ⟨rfl, hinputRevision⟩ := haccepted.hands htitled hhands
        exact .inr ⟨rfl, hhands, hinputRevision, hsubmission⟩
  have hgenerationOf : ∀ input, Hands s.gateway body input i →
      input.key.taskGeneration = (s.gateway.scopes i).generation := fun input hhands => by
    rw [hhands.key]
    exact (h.keyed i hregistered).1
  refine ⟨fun j hj => ?_, fun input hinput => ?_, fun input hinput j hj hgeneration hbranch => ?_,
    fun j k hj hk => ?_, fun j hj hnonzero => ?_, fun j k hj hk => ?_⟩
  · obtain ⟨htitle, -, hkey, -⟩ := haccepts.titles j
    rw [hkey, htitle.generation, htitle.branch]
    exact h.keyed j (hbefore j hj)
  · rw [haccepts.generations, haccepts.boot]
    cases hjobs input hinput with
    | inl hold => exact h.named input hold
    | inr hnew =>
        rw [hgenerationOf input hnew.2.1]
        exact htitled.issued i hregistered
  · obtain ⟨htitle, -, -, -⟩ := haccepts.titles j
    rw [htitle.generation] at hgeneration
    rw [htitle.branch] at hbranch
    cases hjobs input hinput with
    | inl hold =>
        have hlow := h.newest input hold j (hbefore j hj) hgeneration hbranch
        by_cases hji : j = i
        · have hnewer := haccepted.acceptable.newer
          rw [hji] at hlow ⊢
          omega
        · rw [haccepts.others j hji]
          exact hlow
    | inr hnew =>
        rw [hgenerationOf input hnew.2.1] at hgeneration
        have hji := htitled.generations j i (hbefore j hj) hregistered hgeneration.symm
        rw [hji, hrevision]
        exact hnew.2.2.1.le
  · by_cases hji : j = i
    · rw [hji] at hk ⊢
      obtain rfl := Option.some.inj (hevidence.symm.trans hk)
      obtain ⟨r, hr, hused, -, -⟩ := haccepted.acceptable.row
      obtain ⟨htitle, hserial, -, -⟩ := haccepts.titles i
      refine Since.now run hstep ⟨body, now, submitted, e, hevent, ⟨?_, htitle, hserial,
        ⟨r, r, hr, haccepts.rows ▸ hr, rfl, hused⟩, fun _ id o ho hran => ⟨o, hexchanges ▸ ho, hran⟩⟩,
        rfl, fun input hinput hjob => ?_⟩
      · rw [hrevision]
        exact haccepted
      · cases hjobs input hinput with
        | inr hnew => exact ⟨hnew.1, hnew.2.2.2⟩
        | inl hold =>
            have hlow := h.newest input hold i hregistered
              (hjob.generation.trans htitle.generation) (hjob.branch.trans htitle.branch)
            have hsame := hjob.revision.trans hrevision
            have hnewer := haccepted.acceptable.newer
            omega
    · have hstays := haccepts.stays hji
      have hk' : (s.gateway.scopes j).evidenceRow = some k := by
        rw [← haccepts.others j hji]
        exact hk
      refine (h.attested j k (hbefore j hj) hk').next hstep hstays hk (fun hlast => .inr ?_)
        fun input hinput hjob => ?_
      · refine ⟨?_, hstays.heard, fun r hr _ => ⟨r, haccepts.rows ▸ hr, rfl⟩,
          fun id o ho hran => ⟨o, hexchanges ▸ ho, hran⟩⟩
        rw [← haccepts.others j hji]
        exact hlast
      · cases hjobs input hinput with
        | inl hold => exact hold
        | inr hnew =>
            have hgeneration := hjob.generation.trans hstays.heard.title.generation
            rw [hgenerationOf input hnew.2.1] at hgeneration
            exact absurd (htitled.generations j i (hbefore j hj) hregistered hgeneration.symm) hji
  · by_cases hji : j = i
    · rw [hji, hadvice] at hnonzero
      exact absurd rfl hnonzero
    · have hstays := haccepts.stays hji
      have hsame : (t.gateway.scopes j).interpretation = (s.gateway.scopes j).interpretation := by
        rw [haccepts.others j hji]
      rw [hsame] at hnonzero
      exact (h.advised j (hbefore j hj) hnonzero).next hstep hstays.heard hsame
  · obtain ⟨id, o, r, hsince, ho, hran, hscope, hrow, hr, hrest⟩ :=
      h.latest j k (hbefore j hj) ((haccepts.titles j).2.2.2.symm.trans hk)
    have hserial := (haccepts.titles j).2.1
    refine ⟨id, o, r, hsince.next hstep fun x event' _ _ hmark => ⟨hmark.1, ?_⟩, hexchanges ▸ ho, ?_,
      hscope, hrow, haccepts.rows ▸ hr, hrest⟩
    · rw [hserial, hexchanges]
      exact hmark.2
    · rw [hserial]
      exact hran

end Accepting

/-! ## Sessions have no key -/

/-- Only registered scopes have a key. -/
def Keyless {count : Nat} (g : GatewayContext count) : Prop :=
  ∀ i, (g.scopes i).implicit = true → (g.scopes i).key = {}

section Keys

variable {u : Intake} {g k : GatewayContext ρ.settings.count}

/-- A slot that a change opens is a registration's or a new session's. -/
theorem Edit.opens (h : Edit ρ u g k) {j : Slot} (hclosed : (g.scopes j).isOpen = false)
    (hopen : (k.scopes j).isOpen = true) : (k.scopes j).implicit = (g.scopes j).implicit ∨
      (k.scopes j).key = (g.scopes j).key := by
  have hset : ∀ {i : Slot} {s : Scope}, (g.scopes i).isOpen = true →
      ((g.setScope i s).scopes j).isOpen = true → False := by
    intro i s hi hj
    have hbefore := open_of_setScope hi hj
    rw [hclosed] at hbefore
    cases hbefore
  cases h with
  | aside haside => exact .inr (by rw [haside.scopes])
  | free attemptTtl now => exact .inr rfl
  | publish i result _ hpublishable => exact (hset hpublishable.isOpen hopen).elim
  | reclaim i now closing hallowed =>
      by_cases hji : j = i
      · have hheld : (g.scopes i).isOpen = true := hallowed.1
        rw [← hji, hclosed] at hheld
        cases hheld
      · exact .inr (congrArg Scope.key (Function.update_of_ne hji ..))
  | register i task session branch now _ _ _ _ =>
      by_cases hji : j = i
      · left
        rw [hji, show (Gateway.register i task session branch now g).scopes i = _ from
          Function.update_self ..]
      · exact .inr (congrArg Scope.key (Function.update_of_ne hji ..))
  | adopt i newcomer _ _ _ =>
      right
      by_cases hji : j = i
      · rw [hji, show (g.adopt i newcomer).scopes i = _ from Function.update_self ..]
      · exact congrArg Scope.key (Function.update_of_ne hji ..)
  | mark scopes hmarked => exact .inr ((hmarked j).kept.get Scope.key fun _ => rfl)
  | label session labels _ _ => exact .inr (GatewayContext.view_ite Scope.key rfl)
  | supersede i revision hi => exact (hset hi hopen).elim
  | derive i hi => exact (hset hi hopen).elim
  | accept i e revision now _ hacceptable => exact (hset hacceptable.isOpen hopen).elim
  | draw i t hi _ _ => exact (hset hi hopen).elim

theorem Edit.keyless (h : Edit ρ u g k) (htidy : Tidy g) (hkeyless : Keyless g) : Keyless k := by
  intro j hj
  cases h.slot j with
  | same hsame =>
      rw [hsame] at hj ⊢
      exact hkeyless j hj
  | kept _ hkept =>
      rw [hkept.get Scope.key fun _ => rfl]
      exact hkeyless j ((hkept.get (fun s => s.implicit) fun _ => rfl).symm.trans hj)
  | left _ _ hzeroed => rw [hzeroed]
  | seated hclosed hopen _ _ _ _ =>
      cases h.opens hclosed hopen with
      | inl hregistered =>
          rw [hregistered, htidy.blank j hclosed] at hj
          cases hj
      | inr hsame => rw [hsame, htidy.blank j hclosed]

theorem Edits.keyless (h : Edits ρ u g k) (htidy : Tidy g) (hkeyless : Keyless g) : Keyless k := by
  induction h with
  | refl => exact hkeyless
  | tail hfirst hlast ih => exact hlast.keyless (Edits.tidy hfirst htidy) ih

theorem Turn.keyless (h : Turn u s event answer t) (htidy : Tidy s.gateway)
    (hkeyless : Keyless s.gateway) : Keyless t.gateway := by
  obtain ⟨g, hedits, hnoted, -⟩ := h.noted
  intro j hj
  have hsame := hnoted.note j
  have himplicit : (t.gateway.scopes j).implicit = (g.scopes j).implicit :=
    congrArg (fun note => note.1.implicit) hsame
  have hkey : (t.gateway.scopes j).key = (g.scopes j).key := congrArg (fun note => note.2.1) hsame
  rw [hkey]
  exact hedits.keyless htidy hkeyless j (himplicit.symm.trans hj)

end Keys

theorem Reaches.keyless (h : Reaches ρ history s) : Keyless s.gateway := by
  refine h.invariant (fun start hstart => ?_) fun u event answer v hpoised hkeyless hturn =>
    hturn.keyless hpoised.tidy hkeyless
  intro i _
  rw [hstart.scopes]

theorem Reaches.numbered (h : Reaches ρ history s) : s.gateway.contexts.Numbered := by
  refine h.invariant (fun start hstart => ?_) fun u event answer v _ hnumbered hturn =>
    hturn.numbered hnumbered
  intro key snapshot hlive
  rw [hstart.contexts] at hlive
  cases List.eq_of_mem_replicate hlive

/-! ## Joint runs -/

theorem informed_start (hstart : Started ρ start) : Informed start [] start := by
  have hnone : ∀ i, ¬ Registered (start.gateway.scopes i) := by
    intro i hi
    rw [hstart.scopes] at hi
    cases hi.1
  have hnever : ∀ input, ¬ Submitted start [] start input := by
    intro input hsubmitted
    obtain ⟨earlier, e, a, later, x, u, hhistory, -⟩ := hsubmitted
    cases earlier <;> cases hhistory
  exact ⟨fun i hi => absurd hi (hnone i), fun input hinput => absurd hinput (hnever input),
    fun input hinput => absurd hinput (hnever input), fun i _ hi => absurd hi (hnone i),
    fun i hi => absurd hi (hnone i), fun i _ hi => absurd hi (hnone i)⟩

/-- A job that the history ends with is that of an accepted event. -/
theorem Submitted.settled {input : InterpreterInput} (run : Runs step start history s)
    (h : Submitted start (history ++ [(event, answer)]) t input)
    (hnone : ∀ body now, event = .ingest body now true →
      (ingest s.runtime body now true s.gateway).1 ≠ 202) : Submitted start history s input := by
  cases h.last run with
  | inl hold => exact hold
  | inr hnew =>
      obtain ⟨body, now, hevent, hsubmission⟩ := hnew
      exact absurd (submission_eq_some hsubmission).1 (hnone body now hevent)

/-- What the worker holds and what is polled from it, after the worker's side of an event. -/
theorem Feeds.holds (h : Feeds s w event v) (run : Runs step start history s)
    (hstep : step s event = (answer, t))
    (hheld : Worker.Holds ρ.jansson (Submitted start history s) w) :
    Worker.Holds ρ.jansson (Submitted start (history ++ [(event, answer)]) t) v ∧
      ∀ r ∈ event.polled, ∃ input response, Submitted start history s input ∧
        r = perform ρ.jansson input response := by
  have hlater : ∀ input, Submitted start history s input →
      Submitted start (history ++ [(event, answer)]) t input := fun input hinput => hinput.next hstep
  cases h with
  | poll now results _ hpolls =>
      obtain ⟨hleft, hresults⟩ := hheld.polls hpolls
      exact ⟨hleft.mono hlater, hresults⟩
  | prepare id now verdict polled _ hpolls =>
      obtain ⟨hleft, hresults⟩ := hheld.polls hpolls
      exact ⟨hleft.mono hlater, hresults⟩
  | submitted body now hsubmission hsubmit =>
      refine ⟨(hheld.mono hlater).submit ?_ hsubmit, nofun⟩
      exact Since.now run hstep ⟨body, now, rfl, hsubmission⟩
  | unsubmitted body now => exact ⟨hheld.mono hlater, nofun⟩
  | other hpolled _ =>
      refine ⟨hheld.mono hlater, ?_⟩
      rw [hpolled]
      exact nofun

/-- A step keeps the registered scopes informed when what it polls are answers to jobs. -/
theorem Informed.next (h : Informed start history s) (run : Runs step start history s)
    (hstep : step s event = (answer, t)) (hreaches : Reaches ρ history s)
    (hpolled : ∀ r ∈ event.polled, ∃ input response, Submitted start history s input ∧
      r = perform ρ.jansson input response) :
    Informed start (history ++ [(event, answer)]) t := by
  have hpoised := hreaches.poised
  have htitled : Titled t.gateway := by
    obtain ⟨first, hfirst, hrun⟩ := hreaches
    exact Reaches.titled ⟨first, hfirst, hrun.next hstep⟩
  by_cases hingest : ∃ body now submitted, event = .ingest body now submitted
  · obtain ⟨body, now, submitted, rfl⟩ := hingest
    have htarget : t = { s with gateway := (ingest s.runtime body now submitted s.gateway).2 } :=
      (Prod.mk.inj hstep).2.symm
    subst htarget
    cases ingest_spec s.gateway s.runtime body now submitted with
    | inl hspec =>
        obtain ⟨i, e, revision, haccepted, haccepts⟩ := hspec
        exact h.accept run rfl hstep hreaches.titled haccepted haccepts rfl
    | inr hspec =>
        refine h.carry run hstep htitled (Passed.carries hspec.1 rfl) nofun
          fun input hinput => hinput.settled run fun body' now' hevent => ?_
        obtain ⟨rfl, rfl, rfl⟩ := Event.ingest.inj hevent
        exact hspec.2
  · let u : Intake := ⟨fun _ _ _ => False, fun r => ∃ input response,
      Submitted start history s input ∧ r = perform ρ.jansson input response⟩
    have hturn : Turn u s event answer t := by
      refine step_turn hpoised ⟨hpolled, fun body now submitted hevent => ?_⟩ hstep
      exact absurd ⟨body, now, submitted, hevent⟩ hingest
    refine h.carry run hstep htitled
      (hturn.carries (fun _ _ _ => id) hpoised (hpoised.next hstep)) (fun _ => id)
      fun input hinput => hinput.settled run fun body now hevent => ?_
    exact absurd ⟨body, now, true, hevent⟩ hingest

theorem Joint.informed (hstart : Started ρ start) (h : Joint start history s w) :
    Informed start history s ∧ Worker.Holds ρ.jansson (Submitted start history s) w := by
  induction h with
  | init => exact ⟨informed_start hstart, Worker.holds_idle⟩
  | work _ hmoves ih => exact ⟨ih.1, ih.2.moves hmoves⟩
  | next hjoint hfeeds hstep ih =>
      have run := hjoint.runs
      obtain ⟨hheld, hpolled⟩ := hfeeds.holds run hstep ih.2
      exact ⟨ih.1.next run hstep ⟨start, hstart, run⟩ hpolled, hheld⟩

end Recursant.Gateway
