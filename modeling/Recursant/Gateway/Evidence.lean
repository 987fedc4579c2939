import Recursant.Gateway.Interpreter
import Recursant.Gateway.Identities

/-!
# Evidence of registered scopes

What a turn leaves of a registered scope's evidence, of its advice and of the rows that it names;
and, exactly, what the ingestion of a source event does.
-/

namespace Recursant.Gateway

open Compliance (Gated Runtime Verdict)

variable {ρ : Router} {w : Intake} {g k m : GatewayContext ρ.settings.count} {s t : State ρ}
  {event : Event} {answer : Answer} {i j : Slot}

/-! ## What is heard of a scope -/

/-- The scope is the same one, its evidence is the same or gone, and its advice is the same, gone or
one of the results. -/
structure Heard (polled : InterpreterResult → Prop) (s t : Scope) : Prop where
  title : SameTitle s t
  serial : t.serial = s.serial
  key : t.key = s.key
  revision : t.revision = s.revision
  evidence : t.evidenceRow = s.evidenceRow ∨ t.evidenceRow = none
  advice : t.interpretation = s.interpretation ∨ t.interpretation.revision = 0 ∨
    polled t.interpretation ∧ Publishable t t.interpretation

variable {polled : InterpreterResult → Prop}

theorem Heard.refl (s : Scope) : Heard polled s s :=
  ⟨.of_eq rfl, rfl, rfl, rfl, .inl rfl, .inl rfl⟩

theorem SameTitle.trans {s t u : Scope} (first : SameTitle s t) (second : SameTitle t u) :
    SameTitle s u :=
  ⟨second.isOpen.trans first.isOpen, second.implicit.trans first.implicit,
    second.task.trans first.task, second.session.trans first.session,
    second.branch.trans first.branch, second.generation.trans first.generation⟩

theorem Publishable.congr {s t : Scope} {result : InterpreterResult} (h : Publishable s result)
    (htitle : SameTitle s t) (hrevision : t.revision = s.revision) : Publishable t result :=
  ⟨htitle.isOpen.trans h.isOpen, htitle.implicit.trans h.registered,
    htitle.generation.trans h.generation, htitle.branch.trans h.branch,
    hrevision.trans h.revision⟩

theorem Heard.trans {s t u : Scope} (first : Heard polled s t) (second : Heard polled t u) :
    Heard polled s u := by
  refine ⟨first.title.trans second.title, second.serial.trans first.serial,
    second.key.trans first.key, second.revision.trans first.revision, ?_, ?_⟩
  · cases second.evidence with
    | inr hgone => exact .inr hgone
    | inl hsame =>
        rw [hsame]
        exact first.evidence
  · cases second.advice with
    | inr hother => exact .inr hother
    | inl hsame =>
        rw [hsame]
        cases first.advice with
        | inl hbefore => exact .inl hbefore
        | inr hother =>
            cases hother with
            | inl hzero => exact .inr (.inl hzero)
            | inr hpublished =>
                exact .inr (.inr ⟨hpublished.1, hpublished.2.congr second.title second.revision⟩)

/-- A scope without what the writes of its exchange change. -/
def Scope.note (s : Scope) :
    Holder × Context.Key × Nat × Option Nat × InterpreterResult :=
  ({ s.toHolder with inflight := false, privateOnly := false }, s.key, s.revision, s.evidenceRow,
    s.interpretation)

theorem heard_of_note {s t : Scope} (h : t.note = s.note) : Heard polled s t := by
  have hholder : ∀ {α : Type} (view : Holder → α),
      (∀ u, view { u with inflight := false, privateOnly := false } = view u) →
      view t.toHolder = view s.toHolder := by
    intro α view hview
    rw [← hview t.toHolder, ← hview s.toHolder]
    exact congrArg (fun n => view n.1) h
  refine ⟨⟨hholder Holder.isOpen fun _ => rfl, hholder Holder.implicit fun _ => rfl,
    hholder Holder.task fun _ => rfl, hholder Holder.session fun _ => rfl,
    hholder Holder.branch fun _ => rfl, hholder Holder.generation fun _ => rfl⟩,
    hholder Holder.serial fun _ => rfl, congrArg (fun n => n.2.1) h,
    congrArg (fun n => n.2.2.1) h, .inl (congrArg (fun n => n.2.2.2.1) h),
    .inl (congrArg (fun n => n.2.2.2.2) h)⟩

/-! ## A registered scope over changes -/

/-- The attempt that a row is of. -/
def Physical.attempt (r : Physical) : Attempts.AttemptHeaders × Attempts.AttemptId × Bool :=
  (r.headers, r.id, r.inUse)

/-- The scope names the row as that of its last exchange or of its evidence. -/
def Scope.Names (s : Scope) (n : Nat) : Prop := s.lastRow = some n ∨ s.evidenceRow = some n

/-- A row that an open scope names is kept, though it may be cut loose from the scope. -/
theorem Edit.named (h : Edit ρ w g k) (hopen : (g.scopes i).isOpen = true) {n : Nat}
    (hnamed : (g.scopes i).Names n) {r : Physical} (hr : g.rows[n]? = some r) :
    ∃ r', k.rows[n]? = some r' ∧ r'.attempt = r.attempt := by
  cases h with
  | aside haside => exact ⟨r, haside.rows ▸ hr, rfl⟩
  | free attemptTtl now =>
      refine ⟨r, ?_, rfl⟩
      have hkept : g.rowReclaimable attemptTtl now n r = false := by
        cases hreclaimable : g.rowReclaimable attemptTtl now n r with
        | false => rfl
        | true =>
            exfalso
            unfold GatewayContext.rowReclaimable at hreclaimable
            simp only [Bool.and_eq_true, List.all_eq_true] at hreclaimable
            have hunnamed := hreclaimable.1.2 i (mem_slots i)
            rw [hopen, Bool.true_and, Bool.not_eq_true', Bool.or_eq_false_iff,
              decide_eq_false_iff_not, decide_eq_false_iff_not] at hunnamed
            cases hnamed with
            | inl hlast => exact hunnamed.1 hlast
            | inr hevidence => exact hunnamed.2 hevidence
      show (g.rows.mapIdx _)[n]? = some r
      rw [List.getElem?_mapIdx, hr]
      show some (if g.rowReclaimable attemptTtl now n r = true then Physical.free else r) = some r
      rw [hkept]
      rfl
  | reclaim j now closing _ =>
      refine ⟨if r.inUse && r.scope = some j then { r with scope := none } else r, ?_, ?_⟩
      · show (g.rows.map _)[n]? = _
        rw [List.getElem?_map, hr]
        rfl
      · split <;> rfl
  | _ => exact ⟨r, hr, rfl⟩

/-- The slot holds the same registered scope, and the rows that this names are kept. -/
structure Keeps (polled : InterpreterResult → Prop) (g k : GatewayContext ρ.settings.count)
    (i : Slot) : Prop where
  heard : Heard polled (g.scopes i) (k.scopes i)
  lastRow : (k.scopes i).lastRow = (g.scopes i).lastRow
  row : ∀ n r, (k.scopes i).Names n → g.rows[n]? = some r →
    ∃ r', k.rows[n]? = some r' ∧ r'.attempt = r.attempt

/-- The slot holds a scope that was registered meanwhile. -/
structure Fresh (g k : GatewayContext ρ.settings.count) (i : Slot) : Prop where
  generation : ∃ n, g.generations < n ∧ n ≤ k.generations ∧
    (k.scopes i).generation = generationName g.boot n
  key : (k.scopes i).key.taskGeneration = (k.scopes i).generation ∧
    (k.scopes i).key.branch = (k.scopes i).branch
  revision : (k.scopes i).revision = 0
  evidence : (k.scopes i).evidenceRow = none
  advice : (k.scopes i).interpretation.revision = 0

theorem Keeps.refl (g : GatewayContext ρ.settings.count) (i : Slot) : Keeps polled g g i :=
  ⟨.refl _, rfl, fun _ r _ hr => ⟨r, hr, rfl⟩⟩

theorem Keeps.names (h : Keeps polled g k i) {n : Nat} (hnames : (k.scopes i).Names n) :
    (g.scopes i).Names n := by
  cases hnames with
  | inl hlast => exact .inl (h.lastRow.symm.trans hlast)
  | inr hevidence =>
      cases h.heard.evidence with
      | inl hsame => exact .inr (hsame.symm.trans hevidence)
      | inr hgone =>
          rw [hgone] at hevidence
          cases hevidence

theorem Keeps.trans (first : Keeps polled g k i) (second : Keeps polled k m i) :
    Keeps polled g m i := by
  refine ⟨first.heard.trans second.heard, second.lastRow.trans first.lastRow, fun n r hn hr => ?_⟩
  obtain ⟨r', hr', hsame⟩ := first.row n r (second.names hn) hr
  obtain ⟨r'', hr'', hsame'⟩ := second.row n r' hn hr'
  exact ⟨r'', hr'', hsame'.trans hsame⟩

theorem Fresh.heard (first : Fresh g k i) (hheard : Heard polled (k.scopes i) (m.scopes i))
    (hgenerations : k.generations ≤ m.generations) : Fresh g m i := by
  obtain ⟨n, hlow, hhigh, hname⟩ := first.generation
  have hrevision : (m.scopes i).revision = 0 := hheard.revision.trans first.revision
  refine ⟨⟨n, hlow, hhigh.trans hgenerations, hheard.title.generation.trans hname⟩, ?_, hrevision,
    ?_, ?_⟩
  · rw [hheard.key, hheard.title.generation, hheard.title.branch]
    exact first.key
  · cases hheard.evidence with
    | inl hsame => exact hsame.trans first.evidence
    | inr hgone => exact hgone
  · cases hheard.advice with
    | inl hsame => exact hsame ▸ first.advice
    | inr hother =>
        cases hother with
        | inl hzero => exact hzero
        | inr hpublished => exact hpublished.2.revision.symm.trans hrevision

theorem Fresh.later (h : Fresh k m i) (hboot : k.boot = g.boot)
    (hgenerations : g.generations ≤ k.generations) : Fresh g m i := by
  obtain ⟨n, hlow, hhigh, hname⟩ := h.generation
  exact ⟨⟨n, by omega, hhigh, hboot ▸ hname⟩, h.key, h.revision, h.evidence, h.advice⟩

theorem Edit.keeps_of (h : Edit ρ w g k) (hi : Registered (k.scopes i))
    (hheard : Heard w.polled (g.scopes i) (k.scopes i))
    (hlast : (k.scopes i).lastRow = (g.scopes i).lastRow) : Keeps w.polled g k i := by
  have hopen : (g.scopes i).isOpen = true := (hheard.title.registered hi).1
  refine ⟨hheard, hlast, fun n r hnames hr => h.named hopen ?_ hr⟩
  cases hnames with
  | inl hrow => exact .inl (hlast.symm.trans hrow)
  | inr hrow =>
      cases hheard.evidence with
      | inl hsame => exact .inr (hsame.symm.trans hrow)
      | inr hgone =>
          rw [hgone] at hrow
          cases hrow

theorem heard_supersede (revision : Nat) (u : Scope) : Heard polled u (supersede revision u) := by
  unfold supersede
  split
  · exact ⟨⟨rfl, rfl, rfl, rfl, rfl, rfl⟩, rfl, rfl, rfl, .inr rfl, .inr (.inl rfl)⟩
  · exact .refl u

/-- Without an accepted event a registered scope is kept, or it is a new one. -/
theorem Edit.keeps (h : Edit ρ w g k) (hnone : ∀ i e revision, ¬ w.accepted i e revision)
    (htidy : Tidy g) (hi : Registered (k.scopes i)) :
    Keeps w.polled g k i ∨ Fresh g k i ∧ (k.scopes i).lastRow = none := by
  have hsame : k.scopes i = g.scopes i → Keeps w.polled g k i := fun heq =>
    h.keeps_of hi (heq ▸ .refl _) (congrArg Scope.lastRow heq)
  have hnote : (k.scopes i).note = (g.scopes i).note →
      (k.scopes i).lastRow = (g.scopes i).lastRow → Keeps w.polled g k i := fun heq hlast =>
    h.keeps_of hi (heard_of_note heq) hlast
  -- a write to one slot
  have hset : ∀ {j : Slot} {u : Scope}, k = g.setScope j u → Heard w.polled (g.scopes j) u →
      u.lastRow = (g.scopes j).lastRow → Keeps w.polled g k i := by
    intro j u hk hheard hlast
    by_cases hij : i = j
    · have hscope : k.scopes i = u := by rw [hk, hij, scopes_setScope_self]
      refine h.keeps_of hi ?_ ?_
      · rw [hscope, hij]
        exact hheard
      · rw [hscope, hij]
        exact hlast
    · exact hsame (by rw [hk, scopes_setScope_of_ne _ _ hij])
  cases h with
  | aside haside => exact .inl (hsame (congrFun haside.scopes i))
  | free attemptTtl now => exact .inl (hsame rfl)
  | publish j result hpolled hpublishable =>
      refine .inl (hset rfl ⟨⟨rfl, rfl, rfl, rfl, rfl, rfl⟩, rfl, rfl, rfl, .inl rfl, ?_⟩ rfl)
      exact .inr (.inr ⟨hpolled, ⟨hpublishable.isOpen, hpublishable.registered,
        hpublishable.generation, hpublishable.branch, hpublishable.revision⟩⟩)
  | reclaim j now closing _ =>
      by_cases hij : i = j
      · rw [hij, show (g.scopeReclaim j now).scopes j = {} from Function.update_self ..] at hi
        cases hi.1
      · exact .inl (hsame (Function.update_of_ne hij ..))
  | register j task session branch now hclosed _ _ _ =>
      by_cases hij : i = j
      · right
        rw [hij]
        have hscope : (Gateway.register j task session branch now g).scopes j = _ :=
          Function.update_self ..
        have hblank := htidy.blank j hclosed
        rw [hblank] at hscope
        refine ⟨⟨⟨g.generations + 1, Nat.lt_succ_self _, Nat.le_refl _, ?_⟩, ⟨?_, ?_⟩, ?_, ?_, ?_⟩, ?_⟩
        all_goals rw [hscope]
      · exact .inl (hsame (Function.update_of_ne hij ..))
  | adopt j newcomer _ _ _ =>
      by_cases hij : i = j
      · rw [hij, show (g.adopt j newcomer).scopes j = _ from Function.update_self ..] at hi
        cases hi.2
      · exact .inl (hsame (Function.update_of_ne hij ..))
  | mark scopes hmarked =>
      left
      cases hmarked i with
      | inl heq => exact hsame heq
      | inr hopen =>
          have hnoted := congrArg Scope.note hopen.2
          have hlast := congrArg Scope.lastRow hopen.2
          exact hnote hnoted hlast
  | label session labels _ _ =>
      left
      have hview : ∀ {α : Type} (view : Scope → α),
          (∀ u : Scope, view { u with privateOnly := true } = view u) →
          view ((restrictSessions session { g with labels }).scopes i) = view (g.scopes i) :=
        fun view hprivate => GatewayContext.view_ite view (hprivate _)
      exact hnote (hview Scope.note fun _ => rfl) (hview Scope.lastRow fun _ => rfl)
  | supersede j revision _ =>
      refine .inl (hset rfl (heard_supersede revision _) ?_)
      unfold Gateway.supersede
      split <;> rfl
  | derive j _ => exact .inl (hset rfl (heard_of_note rfl) rfl)
  | accept j e revision now haccepted _ => exact absurd haccepted (hnone j e revision)
  | draw j u _ _ hdrawn =>
      have hnoted := congrArg Scope.note hdrawn.rest
      have hlast := congrArg Scope.lastRow hdrawn.rest
      exact .inl (hset rfl (heard_of_note hnoted) hlast)

theorem Edits.keeps (h : Edits ρ w g k) (hnone : ∀ i e revision, ¬ w.accepted i e revision)
    (htidy : Tidy g) (hi : Registered (k.scopes i)) :
    Keeps w.polled g k i ∨ Fresh g k i ∧ (k.scopes i).lastRow = none := by
  induction h with
  | refl => exact .inl (.refl _ i)
  | @tail l m hfirst hlast ih =>
      have hfirst : Edits ρ w g l := hfirst
      have hcounters := hfirst.counters
      cases hlast.keeps hnone (hfirst.tidy htidy) hi with
      | inr hfresh => exact .inr ⟨hfresh.1.later hcounters.1 hcounters.2, hfresh.2⟩
      | inl hkeeps =>
          cases ih (hkeeps.heard.title.registered hi) with
          | inl hbefore => exact .inl (hbefore.trans hkeeps)
          | inr hfresh =>
              exact .inr ⟨hfresh.1.heard hkeeps.heard hlast.counters.2,
                hkeeps.lastRow.trans hfresh.2⟩

/-! ## A registered scope over a turn -/

theorem begin_note (u : Scope) (body : Json) (now : Nat) (endpoint : Endpoint) (model : Text)
    (row : Option Nat) : (u.begin body now endpoint model row).note = u.note := by
  unfold Scope.begin commitScope
  dsimp only
  split <;> rfl

theorem finish_note (f : Finish) (now : Nat) (u : Scope) :
    (u.finish ρ f now).note = u.note ∧ (u.finish ρ f now).lastRow = u.lastRow := by
  have hfinished := finish_finished (ρ := ρ) f now u
  exact ⟨hfinished.get Scope.note fun _ => rfl, hfinished.get Scope.lastRow fun _ => rfl⟩

/-- What the writes of an exchange leave of the scopes and the rows. -/
structure Noted (g k : GatewayContext ρ.settings.count) : Prop where
  written : Written g k
  note : ∀ i, (k.scopes i).note = (g.scopes i).note
  row : ∀ (n : Nat) (r : Physical), g.rows[n]? = some r → r.inUse = true →
    ∃ r' : Physical, k.rows[n]? = some r' ∧ r'.attempt = r.attempt

theorem Noted.refl (g : GatewayContext ρ.settings.count) : Noted g g :=
  ⟨.refl g, fun _ => rfl, fun _ r hr _ => ⟨r, hr, rfl⟩⟩

/-- An exchange of the slot begins with the turn. -/
structure Begins (w : Intake) (s : State ρ) (event : Event) (t : State ρ) (i : Slot) (id : Nat)
    (e : Exchange ρ.settings.count) : Prop where
  course : ∃ now verdict polled o placed a b d q, event = .prepare id now verdict polled ∧
    s.exchanges[id]? = some o ∧ o.prepared = false ∧ e = o.begin q ∧
    t = s.setExchange id (o.begin q) q.gateway ∧ placed.scope = some i ∧
    Course (o.call now verdict polled) (vet s.runtime verdict) w placed (o.prep s.gateway) a b d q

theorem Course.noted {c : Call} {vetting : Json → Endpoint → Gated} {placed : Placed}
    {p a b d q : Prep ρ} (h : Course c vetting w placed p a b d q) : Noted d.gateway q.gateway := by
  have hconcluded := h.concluded
  refine ⟨⟨hconcluded.opened, hconcluded.boot, hconcluded.generations, fun i => ?_⟩, fun i => ?_,
    fun n r hr hused => ⟨r, ?_, rfl⟩⟩
  · cases hconcluded.scopes i with
    | inl hown =>
        obtain ⟨-, model, hscope⟩ := hown
        rw [hscope]
        exact begin_persists ..
    | inr hother =>
        rw [hother.2]
        exact .refl _
  · cases hconcluded.scopes i with
    | inl hown =>
        obtain ⟨-, model, hscope⟩ := hown
        rw [hscope, begin_note]
    | inr hother => rw [hother.2]
  · have hrows := hconcluded.rows h.ticket.row
    generalize q.gateway.rows = rows at hrows ⊢
    cases hrows with
    | untracked _ => exact hr
    | tracked m rowId hfree _ _ =>
        have hvacant := h.vacant m hfree
        rw [getElem?_setRow _ _ _ _ hvacant.le, if_neg (hvacant.ne hr hused)]
        exact hr

theorem settleTicket_row (g : GatewayContext ρ.settings.count) (t : Ticket ρ.settings.count)
    (complete : Bool) (now : Nat) {n : Nat} {r : Physical} (hr : g.rows[n]? = some r) :
    ∃ r', (settleTicket g t complete now).rows[n]? = some r' ∧ r'.attempt = r.attempt := by
  unfold settleTicket
  dsimp only
  split
  · exact ⟨r, hr, rfl⟩
  · next m _ =>
      rw [List.getElem?_modify, hr]
      refine ⟨_, rfl, ?_⟩
      dsimp only
      split <;> rfl

/-- A turn is a series of changes and then the writes of an exchange; they set a last row only for
an exchange that begins. -/
theorem Turn.noted (h : Turn w s event answer t) : ∃ g, Edits ρ w s.gateway g ∧ Noted g t.gateway ∧
    ∀ i, (t.gateway.scopes i).lastRow = (g.scopes i).lastRow ∨ ∃ id e, Begins w s event t i id e := by
  cases h with
  | edited hedits _ _ _ => exact ⟨_, hedits, .refl _, fun _ => .inl rfl⟩
  | arrived hedits _ _ _ => exact ⟨_, hedits, .refl _, fun _ => .inl rfl⟩
  | denied _ _ _ hdenied => exact ⟨_, hdenied.edits, .refl _, fun _ => .inl rfl⟩
  | shadowed _ _ haside _ _ => exact ⟨_, .single (.aside haside), .refl _, fun _ => .inl rfl⟩
  | @began id now verdict polled e placed a b d q he hfresh hcourse =>
      refine ⟨_, hcourse.edits, hcourse.noted, fun i => ?_⟩
      cases hcourse.concluded.scopes i with
      | inl hown =>
          exact .inr ⟨id, e.begin q, ⟨now, verdict, polled, e, placed, a, b, d, q, rfl, he, hfresh, rfl,
            rfl, hown.1, hcourse⟩⟩
      | inr hother => exact .inl (congrArg Scope.lastRow hother.2)
  | @retried _ _ _ e _ q _ he _ hretreat _ =>
      have hretreated := hretreat.retreated
      have hgateway := hretreated.gateway
      refine ⟨_, .refl _, ⟨⟨?_, ?_, ?_, fun i => (hretreated.scopes i).persists⟩, fun i => ?_,
        fun n r hr _ => ⟨r, ?_, rfl⟩⟩, fun i => .inl ?_⟩
      · rw [gateway_setExchange, hgateway]
        rfl
      · rw [gateway_setExchange, hgateway]
        rfl
      · rw [gateway_setExchange, hgateway]
        rfl
      · have hrerouted := hretreated.scopes i
        unfold Rerouted at hrerouted
        have hnoted := congrArg Scope.note hrerouted
        exact hnoted
      · rw [gateway_setExchange, hgateway]
        exact hr
      · have hrerouted := hretreated.scopes i
        unfold Rerouted at hrerouted
        have hlast := congrArg Scope.lastRow hrerouted
        exact hlast
  | @ended id now f e he hbegun hunfinished =>
      have hended := finishStep_ended s id f now hbegun hunfinished
      have hfinish : ∀ i, (((finishStep s id e f now).gateway.scopes i).note =
          (s.gateway.scopes i).note ∧ ((finishStep s id e f now).gateway.scopes i).lastRow =
          (s.gateway.scopes i).lastRow) := by
        intro i
        by_cases hi : e.ticket.scope = some i
        · rw [hended.own i hi]
          exact finish_note f now _
        · rw [hended.others i hi]
          exact ⟨rfl, rfl⟩
      refine ⟨_, .refl _, ⟨⟨?_, ?_, ?_, fun i => ?_⟩, fun i => (hfinish i).1, fun n r hr _ => ?_⟩,
        fun i => .inl (hfinish i).2⟩
      · rw [hended.gateway]
        rfl
      · rw [hended.gateway]
        rfl
      · rw [hended.gateway]
        rfl
      · by_cases hi : e.ticket.scope = some i
        · rw [hended.own i hi]
          exact finish_persists f now _
        · rw [hended.others i hi]
          exact .refl _
      · rw [hended.gateway]
        exact settleTicket_row s.gateway e.ticket f.complete now hr

/-- What a turn leaves of a scope that was registered before. -/
structure Stays (polled : InterpreterResult → Prop) (s t : State ρ) (i : Slot) : Prop where
  heard : Heard polled (s.gateway.scopes i) (t.gateway.scopes i)
  row : ∀ (n : Nat) (r : Physical), (t.gateway.scopes i).evidenceRow = some n →
    s.gateway.rows[n]? = some r → r.inUse = true →
    ∃ r' : Physical, t.gateway.rows[n]? = some r' ∧ r'.attempt = r.attempt

theorem inUse_of_attempt {r r' : Physical} (h : r'.attempt = r.attempt) : r'.inUse = r.inUse :=
  congrArg (fun attempt => attempt.2.2) h

/-- Over a turn that accepts no event a registered scope stays, or it is a new one. -/
theorem Turn.stays (h : Turn w s event answer t) (hnone : ∀ i e revision, ¬ w.accepted i e revision)
    (hpoised : Poised s) (hi : Registered (t.gateway.scopes i)) :
    Stays w.polled s t i ∨ Fresh s.gateway t.gateway i := by
  obtain ⟨g, hedits, hnoted, -⟩ := h.noted
  have hheard : Heard w.polled (g.scopes i) (t.gateway.scopes i) := heard_of_note (hnoted.note i)
  have hg : Registered (g.scopes i) := hheard.title.registered hi
  cases hedits.keeps hnone hpoised.tidy hg with
  | inr hfresh => exact .inr (hfresh.1.heard hheard hnoted.written.generations.ge)
  | inl hkeeps =>
      refine .inl ⟨hkeeps.heard.trans hheard, fun n r hn hr hused => ?_⟩
      have hevidence : (g.scopes i).evidenceRow = (t.gateway.scopes i).evidenceRow :=
        (congrArg (fun note => note.2.2.2.1) (hnoted.note i)).symm
      obtain ⟨r', hr', hsame⟩ := hkeeps.row n r (.inr (hevidence.trans hn)) hr
      obtain ⟨r'', hr'', hsame'⟩ := hnoted.row n r' hr' ((inUse_of_attempt hsame).trans hused)
      exact ⟨r'', hr'', hsame'.trans hsame⟩

/-- The last row of a registered scope is that of an exchange that begins with the turn, or it was
its last row before. -/
theorem Turn.lastRow (h : Turn w s event answer t)
    (hnone : ∀ i e revision, ¬ w.accepted i e revision) (hpoised : Poised s)
    (hi : Registered (t.gateway.scopes i)) {n : Nat}
    (hn : (t.gateway.scopes i).lastRow = some n) : (∃ id e, Begins w s event t i id e) ∨
      (s.gateway.scopes i).lastRow = some n ∧ Heard w.polled (s.gateway.scopes i) (t.gateway.scopes i) ∧
      ∀ r : Physical, s.gateway.rows[n]? = some r → r.inUse = true →
        ∃ r' : Physical, t.gateway.rows[n]? = some r' ∧ r'.attempt = r.attempt := by
  obtain ⟨g, hedits, hnoted, hlast⟩ := h.noted
  have hheard : Heard w.polled (g.scopes i) (t.gateway.scopes i) := heard_of_note (hnoted.note i)
  have hg : Registered (g.scopes i) := hheard.title.registered hi
  cases hlast i with
  | inr hbegins => exact .inl hbegins
  | inl hsame =>
      right
      have hn' : (g.scopes i).lastRow = some n := hsame.symm.trans hn
      cases hedits.keeps hnone hpoised.tidy hg with
      | inr hfresh =>
          rw [hfresh.2] at hn'
          cases hn'
      | inl hkeeps =>
          refine ⟨hkeeps.lastRow.symm.trans hn', hkeeps.heard.trans hheard, fun r hr hused => ?_⟩
          obtain ⟨r', hr', hsame⟩ := hkeeps.row n r (.inl hn') hr
          obtain ⟨r'', hr'', hsame'⟩ := hnoted.row n r' hr' ((inUse_of_attempt hsame).trans hused)
          exact ⟨r'', hr'', hsame'.trans hsame⟩

/-- The row of an exchange that begins is not one that the scope has as evidence. -/
theorem Begins.apart {id : Nat} {e : Exchange ρ.settings.count} (h : Begins w s event t i id e)
    (hnone : ∀ i e revision, ¬ w.accepted i e revision) (hpoised : Poised s)
    (hi : Registered (t.gateway.scopes i)) {n : Nat} {r : Physical}
    (hn : (t.gateway.scopes i).evidenceRow = some n) (hr : s.gateway.rows[n]? = some r)
    (hused : r.inUse = true) : (t.gateway.scopes i).lastRow ≠ some n := by
  obtain ⟨now, verdict, polled, o, placed, a, b, d, q, -, ho, -, -, rfl, hscope, hcourse⟩ := h.course
  have hnoted := hcourse.noted
  have hheard : Heard w.polled (d.gateway.scopes i) (q.gateway.scopes i) :=
    heard_of_note (hnoted.note i)
  have hd : Registered (d.gateway.scopes i) := hheard.title.registered hi
  have hevidence : (d.gateway.scopes i).evidenceRow = some n :=
    (congrArg (fun note => note.2.2.2.1) (hnoted.note i)).symm.trans hn
  intro hlast
  have hrow : (q.gateway.scopes i).lastRow = q.ticket.row := by
    obtain ⟨model, hcommits⟩ := hcourse.concluded.own i hscope
    exact congrArg Scope.lastRow hcommits.scope
  obtain ⟨hfree, -⟩ := hcourse.mirrors (e := o) rfl (hrow.symm.trans hlast)
  cases hcourse.edits.keeps hnone hpoised.tidy hd with
  | inr hfresh =>
      rw [hfresh.1.evidence] at hevidence
      cases hevidence
  | inl hkeeps =>
      obtain ⟨r', hr', hsame⟩ := hkeeps.row n r (.inr hevidence) hr
      exact (hcourse.vacant n hfree).ne hr' ((inUse_of_attempt hsame).trans hused) rfl

/-! ## Exchanges of a scope -/

/-- The exchange has begun, in the scope with the number. -/
def Exchange.Ran (e : Exchange ρ.settings.count) (serial : Nat) : Prop :=
  (e.ticket.begun = true ∨ e.ticket.finished = true) ∧ e.serial = serial

/-- An exchange that ran goes on, or has ended. -/
structure SameRun (e e' : Exchange ρ.settings.count) : Prop where
  request : e'.request = e.request
  serial : e'.serial = e.serial
  id : e'.ticket.id = e.ticket.id
  scope : e'.ticket.scope = e.ticket.scope
  row : e'.ticket.row = e.ticket.row
  ran : e'.ticket.begun = true ∨ e'.ticket.finished = true ↔
    e.ticket.begun = true ∨ e.ticket.finished = true

theorem SameRun.refl (e : Exchange ρ.settings.count) : SameRun e e :=
  ⟨rfl, rfl, rfl, rfl, rfl, Iff.rfl⟩

theorem SameRun.trans {e e' e'' : Exchange ρ.settings.count} (first : SameRun e e')
    (second : SameRun e' e'') : SameRun e e'' :=
  ⟨second.request.trans first.request, second.serial.trans first.serial, second.id.trans first.id,
    second.scope.trans first.scope, second.row.trans first.row, second.ran.trans first.ran⟩

theorem Ended.sameRun {f : Finish} {now : Nat} {u v : Ticket ρ.settings.count}
    (h : Ended f now g u k v) (e : Exchange ρ.settings.count) (hticket : e.ticket = u)
    (hbegun : e.ticket.begun = true) : SameRun e { e with ticket := v, live := false } := by
  have hv := h.ticket
  rw [← hticket] at hv
  rw [hv]
  exact ⟨rfl, rfl, rfl, rfl, rfl, fun _ => .inl hbegun, fun _ => .inr rfl⟩

/-- What a turn does to one exchange. -/
theorem Turn.exchange (h : Turn w s event answer t) {id : Nat} {e' : Exchange ρ.settings.count}
    (he' : t.exchanges[id]? = some e') :
    (∃ e, s.exchanges[id]? = some e ∧ SameRun e e') ∨
      ¬(e'.ticket.begun = true ∨ e'.ticket.finished = true) ∨
      (e'.ticket.scope = none ∧ e'.serial = 0) ∨ ∃ i, Begins w s event t i id e' := by
  have hkept : ∀ {e o : Exchange ρ.settings.count} {id' : Nat} {g : GatewayContext ρ.settings.count},
      s.exchanges[id']? = some e → (s.setExchange id' o g).exchanges[id]? = some e' →
      SameRun e o → ∃ e, s.exchanges[id]? = some e ∧ SameRun e e' := by
    intro e o id' g he ho hsame
    cases getElem?_setExchange he ho with
    | inl hnew =>
        obtain ⟨rfl, rfl⟩ := hnew
        exact ⟨e, he, hsame⟩
    | inr hold => exact ⟨e', hold.2, .refl e'⟩
  cases h with
  | edited _ hexchanges _ _ => exact .inl ⟨e', hexchanges ▸ he', .refl e'⟩
  | arrived _ hexchanges _ _ =>
      rw [hexchanges] at he'
      by_cases hlt : id < s.exchanges.length
      · rw [List.getElem?_append_left hlt] at he'
        exact .inl ⟨e', he', .refl e'⟩
      · rw [List.getElem?_append_right (by omega)] at he'
        have hmem := List.mem_of_getElem? he'
        rw [List.mem_singleton.mp hmem]
        exact .inr (.inl fun hran => hran.elim nofun nofun)
  | @denied _ _ _ _ _ _ q he _ _ hdenied =>
      cases getElem?_setExchange he he' with
      | inr hold => exact .inl ⟨e', hold.2, .refl e'⟩
      | inl hnew =>
          obtain ⟨rfl, rfl⟩ := hnew
          have hbegun : q.ticket.begun = false := hdenied.ticket.begun
          have hfinished : q.ticket.finished = false := hdenied.ticket.finished
          refine .inr (.inl fun hran => ?_)
          have hran : q.ticket.begun = true ∨ q.ticket.finished = true := hran
          rw [hbegun, hfinished] at hran
          cases hran with
          | inl hnow => cases hnow
          | inr hnow => cases hnow
  | @began id' now verdict polled e placed a b d q he hfresh hcourse =>
      cases getElem?_setExchange he he' with
      | inr hold => exact .inl ⟨e', hold.2, .refl e'⟩
      | inl hnew =>
          obtain ⟨rfl, rfl⟩ := hnew
          refine .inr (.inr ?_)
          cases hscope : placed.scope with
          | none =>
              left
              have hnone : q.ticket.scope = none := hcourse.scope.trans hscope
              refine ⟨hnone, ?_⟩
              show q.serial = 0
              unfold Prep.serial
              rw [hnone]
              rfl
          | some i =>
              exact .inr ⟨i, ⟨now, verdict, polled, e, placed, a, b, d, q, rfl, he, hfresh, rfl, rfl,
                hscope, hcourse⟩⟩
  | shadowed he _ _ hbeside huntaken =>
      refine .inl (hkept he he' ⟨rfl, rfl, huntaken.id, hbeside.ticket.scope, huntaken.row, ?_⟩)
      dsimp only [Exchange.after]
      rw [huntaken.begun, huntaken.finished]
  | retried he _ hretreat _ =>
      have hticket := hretreat.retreated.ticket
      refine .inl (hkept he he' ⟨rfl, rfl, ?_, ?_, ?_, ?_⟩)
      all_goals
        dsimp only [Exchange.after]
        rw [hticket]
        rfl
  | @ended id' now f o ho hbegun hunfinished =>
      have hended := finish_ended f now s.gateway hbegun hunfinished
      rw [(finishStep_eq s id' o f now).2] at he'
      exact .inl (hkept (g := s.gateway) ho he' (hended.sameRun o rfl hbegun))

/-- An exchange that ran goes on or has ended after every turn. -/
theorem Turn.sameRun (h : Turn w s event answer t) (hfenced : Fenced s) {id : Nat}
    {e : Exchange ρ.settings.count} (he : s.exchanges[id]? = some e)
    (hran : e.ticket.begun = true ∨ e.ticket.finished = true) :
    ∃ e', t.exchanges[id]? = some e' ∧ SameRun e e' := by
  have hprepared : e.prepared = true := by
    cases hfresh : e.prepared with
    | true => rfl
    | false =>
        rw [((hfenced.fit id e he).unprepared hfresh).2.2] at hran
        cases hran with
        | inl hnow => cases hnow
        | inr hnow => cases hnow
  have hgoes : (∃ e', t.exchanges[id]? = some e' ∧ GoesOn e e') →
      ∃ e', t.exchanges[id]? = some e' ∧ SameRun e e' := by
    intro hgoesOn
    obtain ⟨e', he', hgoes⟩ := hgoesOn
    refine ⟨e', he', hgoes.request, hgoes.serial, hgoes.id, hgoes.scope, hgoes.row, ?_⟩
    rw [hgoes.begun, hgoes.finished]
  by_cases hend : ∃ f now, event = .finish id f now
  · obtain ⟨f, now, rfl⟩ := hend
    cases h with
    | edited _ hexchanges _ _ => exact ⟨e, hexchanges ▸ he, .refl e⟩
    | @ended _ _ _ o ho hbegun hunfinished =>
        obtain rfl := Option.some.inj (ho.symm.trans he)
        have hended := finish_ended f now s.gateway hbegun hunfinished
        refine ⟨_, ?_, hended.sameRun o rfl hbegun⟩
        rw [(finishStep_eq s id o f now).2]
        exact List.getElem?_set_self (List.getElem?_eq_some_iff.mp he).1
  · exact hgoes (h.goesOn he hprepared fun _ f now hevent => hend ⟨f, now, hevent⟩)

/-! ## Source events -/

/-- The texts of an event as the worker is given them. -/
def eventSegments (event : Json) (tool : Bool) : List Segment :=
  match event.get? "text" with
  | some (.object texts) =>
      texts.filterMap (fun (k, v) => v.text?.map fun t =>
        ⟨k, if tool then "executor" else "model_claim", t⟩) ++
      if tool then (((event.get? "status").bind Json.text?).map fun status =>
        (⟨"tool_status", "executor", status⟩ : Segment)).toList else []
  | _ => []

/-- The job that an accepted event with texts hands to the worker. -/
def submission (r : Runtime) (body : Json) (now : Nat) (g : GatewayContext ρ.settings.count) :
    Option InterpreterInput := do
  let generation ← token body "generation" 32
  let branch ← token body "branch" 63
  let revision ← integer body "revision" 9007199254740991
  let event ← body.get? "event"
  guard ((event.get? "text").isSome && decide ((ingest r body now true g).1 = 202))
  let i ← g.scopeFind generation branch
  return ⟨(g.scopes i).key, revision, eventSegments event (eq event "kind" "tool")⟩

/-- What an accepted event leaves behind. -/
structure Accepts (g k : GatewayContext ρ.settings.count) (i : Slot) (e : Evidence)
    (revision : Nat) : Prop where
  note : (k.scopes i).note =
    ((g.scopes i).note.1, (g.scopes i).key, revision, some e.row, {})
  lastRow : (k.scopes i).lastRow = (g.scopes i).lastRow
  others : ∀ j, j ≠ i → k.scopes j = g.scopes j
  rows : k.rows = g.rows
  boot : k.boot = g.boot
  generations : k.generations = g.generations

/-- What an event that is not accepted leaves behind. -/
structure Passed (g k : GatewayContext ρ.settings.count) : Prop where
  heard : ∀ i, Heard (fun _ => False) (g.scopes i) (k.scopes i)
  holder : ∀ i, (k.scopes i).note.1 = (g.scopes i).note.1
  lastRow : ∀ i, (k.scopes i).lastRow = (g.scopes i).lastRow
  rows : k.rows = g.rows
  boot : k.boot = g.boot
  generations : k.generations = g.generations

theorem Passed.refl (g : GatewayContext ρ.settings.count) : Passed g g :=
  ⟨fun _ => .refl _, fun _ => rfl, fun _ => rfl, rfl, rfl, rfl⟩

theorem Passed.trans (first : Passed g k) (second : Passed k m) : Passed g m :=
  ⟨fun i => (first.heard i).trans (second.heard i),
    fun i => (second.holder i).trans (first.holder i), fun i => (second.lastRow i).trans (first.lastRow i), second.rows.trans first.rows,
    second.boot.trans first.boot, second.generations.trans first.generations⟩

theorem Passed.set {u : Scope} (hheard : Heard (fun _ => False) (g.scopes i) u)
    (hholder : u.note.1 = (g.scopes i).note.1) (hlast : u.lastRow = (g.scopes i).lastRow) :
    Passed g (g.setScope i u) := by
  have hview : ∀ P : Scope → Scope → Prop, (∀ v, P v v) → P (g.scopes i) u →
      ∀ j, P (g.scopes j) ((g.setScope i u).scopes j) := by
    intro P hrefl hown j
    rw [scopes_setScope]
    by_cases hji : j = i
    · rw [if_pos hji, hji]
      exact hown
    · rw [if_neg hji]
      exact hrefl _
  exact ⟨hview (Heard _) .refl hheard, hview (fun v t => t.note.1 = v.note.1) (fun _ => rfl) hholder,
    hview (fun v t => t.lastRow = v.lastRow) (fun _ => rfl) hlast, rfl, rfl, rfl⟩

theorem Passed.aside (h : Aside g k) : Passed g k :=
  ⟨fun i => h.scopes ▸ .refl _, fun i => by rw [h.scopes], fun i => by rw [h.scopes], h.rows, h.boot,
    h.generations⟩

theorem Aside.trans (first : Aside g k) (second : Aside k m) : Aside g m :=
  ⟨second.rows.trans first.rows, second.scopes.trans first.scopes,
    second.labels.trans first.labels, second.boot.trans first.boot,
    second.generations.trans first.generations, second.inflight.trans first.inflight,
    second.opened.trans first.opened, second.numbered ∘ first.numbered⟩

/-- What the acceptance writes over what the checks left. -/
theorem acceptEvidence_spec {e : Evidence} {revision now : Nat} {submitted : Bool} :
    (∃ l : GatewayContext ρ.settings.count, Aside g l ∧
      (acceptEvidence i e revision now submitted g).2 =
        l.setScope i (accepted e revision now (l.scopes i))) ∨
    Aside g (acceptEvidence i e revision now submitted g).2 ∧
      (acceptEvidence i e revision now submitted g).1 = 409 := by
  unfold acceptEvidence
  dsimp only
  generalize Attempts.attemptSourceComplete g.ledger (some ρ.settings.authorization) e.headers now =
    ledger
  have hsource : Aside g { g with ledger } := ⟨rfl, rfl, rfl, rfl, rfl, rfl, rfl, id⟩
  have haside := aside_exact { g with ledger } ρ.settings.authorization (some e.row) now
  split
  · next l hl =>
      rw [hl] at haside
      exact .inr ⟨hsource.trans haside, rfl⟩
  · next l hl =>
      rw [hl] at haside
      have hput := (hsource.trans haside).trans (aside_put l (l.scopes i).key revision now)
      split
      · exact .inr ⟨hput, rfl⟩
      · exact .inl ⟨_, hput, rfl⟩

/-- A check that does not fail with the status. -/
def Never {α : Type} (status : Nat) (x : Except Nat α) : Prop := x ≠ .error status

theorem never_bind {α β : Type} {status : Nat} {x : Except Nat α} {f : α → Except Nat β}
    (hx : Never status x) (hf : ∀ a, Never status (f a)) : Never status (x >>= f) := by
  cases x with
  | error found =>
      intro h
      have hfound : (Except.error found : Except Nat β) = .error status := h
      rw [Except.error.inj hfound] at hx
      exact hx rfl
  | ok a => exact hf a

theorem never_check {status other : Nat} {b : Bool} (h : other ≠ status) :
    Never status (check b other) := by
  unfold check Never
  split
  · exact nofun
  · exact fun heq => h (Except.error.inj heq)

theorem never_orElse {α : Type} {status other : Nat} {o : Option α} (h : other ≠ status) :
    Never status (orElse other o) := by
  cases o with
  | none => exact fun heq => h (Except.error.inj heq)
  | some a => exact nofun

theorem never_eventShape (u : Scope) (event : Json) (tool : Bool) :
    Never 202 (eventShape u event tool) := by
  unfold eventShape
  exact never_bind (never_check (by decide)) fun _ => never_check (by decide)

theorem never_eventEvidenceOf (g : GatewayContext ρ.settings.count) (i : Slot) (event : Json)
    (tool : Bool) (revision : Nat) : Never 202 (eventEvidenceOf g i event tool revision) := by
  have hrow : ∀ rows h, Never 202 (eventRow rows h) := by
    intro rows h
    unfold eventRow
    split
    · exact fun heq => absurd (Except.error.inj heq) (by decide)
    · exact nofun
    · exact fun heq => absurd (Except.error.inj heq) (by decide)
  have hcallback : ∀ u, Never 202 (eventCallback u event) := by
    intro u
    unfold eventCallback
    dsimp only
    split
    · exact fun heq => absurd (Except.error.inj heq) (by decide)
    · split
      · exact fun heq => absurd (Except.error.inj heq) (by decide)
      · split
        · exact fun heq => absurd (Except.error.inj heq) (by decide)
        · exact nofun
  unfold eventEvidenceOf
  refine never_bind (never_orElse (by decide)) fun _ => ?_
  refine never_bind (never_check (by decide)) fun _ => ?_
  refine never_bind (never_check (by decide)) fun _ => ?_
  refine never_bind (never_orElse (by decide)) fun _ => ?_
  refine never_bind (hrow _ _) fun _ => ?_
  refine never_bind (never_check (by decide)) fun _ => ?_
  refine never_bind (never_check (by decide)) fun _ => ?_
  split
  · refine never_bind ?_ fun _ => never_bind (never_orElse (by decide)) fun _ => nofun
    intro heq
    cases hfound : eventCallback (g.scopes i) event with
    | error status =>
        rw [hfound] at heq
        have hstatus : Except.error status = (.error 202 : Except Nat (Option Nat)) := heq
        exact hcallback (g.scopes i) (hfound.trans (congrArg _ (Except.error.inj hstatus)))
    | ok callback =>
        rw [hfound] at heq
        cases heq
  · exact never_bind nofun fun _ => never_bind (never_orElse (by decide)) fun _ => nofun

/-- The scope that the headers of an event find, and what the event is accepted for. -/
structure Accepted (g : GatewayContext ρ.settings.count) (body : Json) (i : Slot) (e : Evidence)
    (revision : Nat) : Prop where
  found : g.scopeFind (g.scopes i).generation (g.scopes i).branch = some i
  ingested : Ingested g body i e revision
  acceptable : Acceptable g i e revision

theorem Acceptable.congr {e : Evidence} {revision : Nat} (h : Acceptable k i e revision) (hrows : k.rows = g.rows)
    (hisOpen : (k.scopes i).isOpen = (g.scopes i).isOpen)
    (himplicit : (k.scopes i).implicit = (g.scopes i).implicit)
    (hinflight : (k.scopes i).inflight = (g.scopes i).inflight)
    (hrevision : (k.scopes i).revision = (g.scopes i).revision)
    (hlast : (k.scopes i).lastRow = (g.scopes i).lastRow) : Acceptable g i e revision :=
  ⟨hisOpen ▸ h.isOpen, himplicit ▸ h.registered, hinflight ▸ h.idle, hrevision ▸ h.newer,
    hlast ▸ h.last, hrows ▸ h.row⟩

/-- The acceptance after the checks have passed. -/
theorem accepts_of_passed {e : Evidence} {revision now : Nat} {submitted : Bool}
    (hpassed : Passed g m) (hothers : ∀ j, j ≠ i → m.scopes j = g.scopes j) :
    Accepts g (acceptEvidence i e revision now submitted m).2 i e revision ∨
      Passed g (acceptEvidence i e revision now submitted m).2 ∧
        (acceptEvidence i e revision now submitted m).1 = 409 := by
  have hspec : (∃ l : GatewayContext ρ.settings.count, Aside m l ∧
      (acceptEvidence i e revision now submitted m).2 =
        l.setScope i (accepted e revision now (l.scopes i))) ∨
      Aside m (acceptEvidence i e revision now submitted m).2 ∧
        (acceptEvidence i e revision now submitted m).1 = 409 := acceptEvidence_spec
  cases hspec with
  | inr hrefused => exact .inr ⟨hpassed.trans (.aside hrefused.1), hrefused.2⟩
  | inl hwritten =>
      obtain ⟨l, haside, hresult⟩ := hwritten
      have hscope : (acceptEvidence i e revision now submitted m).2.scopes i =
          accepted e revision now (m.scopes i) := by
        rw [hresult, scopes_setScope_self, haside.scopes]
      refine .inl ⟨?_, ?_, fun j hji => ?_, ?_, ?_, ?_⟩
      · rw [hscope, ← hpassed.holder i, ← (hpassed.heard i).key]
        rfl
      · rw [hscope]
        exact hpassed.lastRow i
      · rw [hresult, scopes_setScope_of_ne _ _ hji, haside.scopes, hothers j hji]
      · rw [hresult]
        exact haside.rows.trans hpassed.rows
      · rw [hresult]
        exact haside.boot.trans hpassed.boot
      · rw [hresult]
        exact haside.generations.trans hpassed.generations

/-- An ingested event is accepted for the scope that it names, or it is passed over. -/
theorem ingest_spec (g : GatewayContext ρ.settings.count) (r : Runtime) (body : Json) (now : Nat)
    (submitted : Bool) :
    (∃ i e revision, Accepted g body i e revision ∧
      Accepts g (ingest r body now submitted g).2 i e revision) ∨
    Passed g (ingest r body now submitted g).2 ∧ (ingest r body now submitted g).1 ≠ 202 := by
  unfold ingest
  split
  · next generation branch revision hgeneration hbranch hrevision =>
      split
      · exact .inr ⟨.refl g, fun heq => absurd (show 400 = 202 from heq) (by decide)⟩
      · split
        · exact .inr ⟨.refl g, fun heq => absurd (show 403 = 202 from heq) (by decide)⟩
        · next i hfind =>
            obtain ⟨hopen, hregistered, hgen, hbr⟩ := GatewayContext.scopeFind_eq_some hfind
            dsimp only
            have hsupersede : Heard (fun _ => False) (g.scopes i) (supersede revision (g.scopes i)) :=
              heard_supersede revision _
            have hworking : (supersede revision (g.scopes i)).lastRow = (g.scopes i).lastRow ∧
                (supersede revision (g.scopes i)).toHolder = (g.scopes i).toHolder := by
              unfold supersede
              split <;> exact ⟨rfl, rfl⟩
            have hholder : (supersede revision (g.scopes i)).note.1 = (g.scopes i).note.1 := by
              unfold Scope.note
              rw [hworking.2]
            have hpassed : Passed g (g.setScope i (supersede revision (g.scopes i))) :=
              .set hsupersede hholder hworking.1
            have hscope : (g.setScope i (supersede revision (g.scopes i))).scopes i =
                supersede revision (g.scopes i) := scopes_setScope_self ..
            have hothers : ∀ j, j ≠ i →
                (g.setScope i (supersede revision (g.scopes i))).scopes j = g.scopes j :=
              fun j hji => scopes_setScope_of_ne g _ hji
            split
            · next status hshape =>
                refine .inr ⟨hpassed, fun heq => ?_⟩
                have heq : status = 202 := heq
                exact never_eventShape _ _ _ (heq ▸ hshape)
            · split
              · refine .inr ⟨hpassed.trans ?_, fun heq => absurd (show 409 = 202 from heq) (by decide)⟩
                exact .aside ⟨rfl, rfl, rfl, rfl, rfl, rfl, rfl, id⟩
              · split
                · next status hevidence =>
                    refine .inr ⟨hpassed, fun heq => ?_⟩
                    have heq : status = 202 := heq
                    exact never_eventEvidenceOf _ _ _ _ _ (heq ▸ hevidence)
                · next e he =>
                    have hisOpen := congrArg Holder.isOpen hworking.2
                    have himplicit := congrArg Holder.implicit hworking.2
                    obtain ⟨hacceptable, hheaders⟩ := eventEvidenceOf_eq_ok he
                      (by rw [hscope]; exact hisOpen.trans hopen)
                      (by rw [hscope]; exact himplicit.trans hregistered)
                    have haccepted : Accepted g body i e revision := by
                      refine ⟨?_, ⟨by rw [hgeneration, hgen], by rw [hbranch, hbr], hrevision, ?_⟩, ?_⟩
                      · rw [hgen, hbr]
                        exact hfind
                      · cases hevent : body.get? "event" with
                        | none =>
                            rw [hevent] at hheaders
                            cases hheaders
                        | some event =>
                            rw [hevent] at hheaders
                            exact hheaders
                      · apply hacceptable.congr (g := g) rfl
                        all_goals rw [hscope]
                        · exact hisOpen
                        · exact himplicit
                        · exact congrArg Holder.inflight hworking.2
                        · exact hsupersede.revision
                        · exact hworking.1
                    -- the authority that the texts derive is the only other write
                    have hderive : ∀ l : GatewayContext ρ.settings.count, Passed g l →
                        (∀ j, j ≠ i → l.scopes j = g.scopes j) →
                        Passed g (deriveAuthority r i e.texts l) ∧
                          ∀ j, j ≠ i → (deriveAuthority r i e.texts l).scopes j = g.scopes j := by
                      intro l hl hsame
                      unfold deriveAuthority
                      split
                      · refine ⟨hl.trans (.set (heard_of_note rfl) rfl rfl), fun j hji => ?_⟩
                        rw [scopes_setScope_of_ne _ _ hji, hsame j hji]
                      · exact ⟨hl, hsame⟩
                    obtain ⟨hderived, hsame⟩ := hderive _ hpassed hothers
                    have haccepts : Accepts g (acceptEvidence i e revision now submitted
                        (deriveAuthority r i e.texts _)).2 i e revision ∨ Passed g _ ∧ _ =
                          409 := accepts_of_passed hderived hsame
                    cases haccepts with
                    | inl haccepts => exact .inl ⟨i, e, revision, haccepted, haccepts⟩
                    | inr hrefused =>
                        refine .inr ⟨hrefused.1, fun heq => ?_⟩
                        exact absurd (hrefused.2.symm.trans heq) (by decide)
  · exact .inr ⟨.refl g, fun heq => absurd (show 400 = 202 from heq) (by decide)⟩

/-- What a job that is handed over was made from. -/
structure Hands (g : GatewayContext ρ.settings.count) (body : Json) (input : InterpreterInput)
    (i : Slot) : Prop where
  registered : Registered (g.scopes i)
  generation : token body "generation" 32 = some (g.scopes i).generation
  branch : token body "branch" 63 = some (g.scopes i).branch
  revision : integer body "revision" 9007199254740991 = some input.revision
  key : input.key = (g.scopes i).key

theorem submission_eq_some {r : Runtime} {body : Json} {now : Nat} {input : InterpreterInput}
    (h : submission r body now g = some input) :
    (ingest r body now true g).1 = 202 ∧ ∃ i, Hands g body input i := by
  unfold submission at h
  simp only [Option.bind_eq_bind, Option.bind_eq_some_iff, Option.pure_def, Option.some.injEq] at h
  obtain ⟨generation, hgeneration, branch, hbranch, revision, hrevision, event, -, _, hguard, i, hfind,
    hinput⟩ := h
  obtain ⟨hopen, hregistered, hgen, hbr⟩ := GatewayContext.scopeFind_eq_some hfind
  have haccepted : (ingest r body now true g).1 = 202 := by
    by_contra hnot
    rw [decide_eq_false hnot, Bool.and_false] at hguard
    cases hguard
  refine ⟨haccepted, i, ⟨hopen, hregistered⟩, by rw [hgeneration, hgen], by rw [hbranch, hbr], ?_, ?_⟩
  · rw [← hinput]
    exact hrevision
  · rw [← hinput]

end Recursant.Gateway
