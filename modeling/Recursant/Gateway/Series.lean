import Recursant.Gateway.Edits

/-!
# Series of changes

What a series of changes keeps, and the series that each function of the gateway makes.
-/

namespace Recursant.Gateway

open Compliance (Runtime)
open Relation (ReflTransGen)

variable {ρ : Router} {w : Intake} {g k l : GatewayContext ρ.settings.count}

namespace Edits

theorem refl (g : GatewayContext ρ.settings.count) : Edits ρ w g g := ReflTransGen.refl

theorem trans (first : Edits ρ w g k) (second : Edits ρ w k l) : Edits ρ w g l :=
  ReflTransGen.trans first second

theorem single (h : Edit ρ w g k) : Edits ρ w g k := ReflTransGen.single h

theorem tail (first : Edits ρ w g k) (last : Edit ρ w k l) : Edits ρ w g l :=
  ReflTransGen.tail first last

/-! ## What a series keeps -/

theorem tidy (h : Edits ρ w g k) (htidy : Tidy g) : Tidy k := by
  induction h with
  | refl => exact htidy
  | tail _ hlast ih => exact hlast.tidy ih

theorem capacity (h : Edits ρ w g k) : k.inflight = g.inflight := by
  induction h with
  | refl => rfl
  | tail _ hlast ih => exact hlast.capacity.trans ih

theorem inflight (h : Edits ρ w g k) (i : Slot) :
    (k.scopes i).inflight = (g.scopes i).inflight := by
  induction h with
  | refl => rfl
  | tail _ hlast ih => exact (hlast.inflight i).trans ih

theorem opened_le (h : Edits ρ w g k) : g.opened ≤ k.opened := by
  induction h with
  | refl => exact le_rfl
  | tail _ hlast ih => exact ih.trans hlast.opened_le

theorem numbered (h : Edits ρ w g k) (hnumbered : g.contexts.Numbered) : k.contexts.Numbered := by
  induction h with
  | refl => exact hnumbered
  | tail _ hlast ih => exact hlast.numbered ih

/-- A scope in flight is kept. -/
theorem kept (h : Edits ρ w g k) {i : Slot} (hopen : (g.scopes i).isOpen = true)
    (hinflight : (g.scopes i).inflight = true) :
    (k.scopes i).isOpen = true ∧ Kept (g.scopes i) (k.scopes i) := by
  induction h with
  | refl => exact ⟨hopen, .refl _⟩
  | tail hfirst hlast ih =>
      have hlater := hlast.kept ih.1 ((inflight hfirst i).trans hinflight)
      exact ⟨(hlater.get (fun s => s.isOpen) fun _ => rfl).trans ih.1, ih.2.trans hlater⟩

/-- The row of an attempt that has not ended stays while its scope is in flight. -/
theorem row (h : Edits ρ w g k) {n : Nat} {r : Physical} (hr : g.rows[n]? = some r)
    (hunsettled : r.settled = false)
    (hscope : ∀ i, r.scope = some i → (g.scopes i).inflight = true) : k.rows[n]? = some r := by
  induction h with
  | refl => exact hr
  | tail hfirst hlast ih =>
      cases hlast.row ih with
      | kept hkept => exact hkept
      | freed hsettled _ =>
          rw [hunsettled] at hsettled
          cases hsettled
      | loosened i hi hidle _ =>
          rw [inflight hfirst i, hscope i hi] at hidle
          cases hidle

end Edits

/-- The row may be given to a new attempt. -/
def Vacant {count : Nat} (g : GatewayContext count) (n : Nat) : Prop :=
  n = g.rows.length ∨ ∃ r, g.rows[n]? = some r ∧ r.inUse = false

theorem Vacant.edit (h : Edit ρ w g k) {n : Nat} (hvacant : Vacant g n) : Vacant k n := by
  cases hvacant with
  | inl hend => exact .inl (hend.trans h.rows_length.symm)
  | inr hrow =>
      obtain ⟨r, hr, hunused⟩ := hrow
      cases h.row hr with
      | kept hkept => exact .inr ⟨r, hkept, hunused⟩
      | freed _ hfreed => exact .inr ⟨.free, hfreed, rfl⟩
      | loosened i _ _ hloosened => exact .inr ⟨_, hloosened, hunused⟩

theorem Vacant.edits (h : Edits ρ w g k) {n : Nat} (hvacant : Vacant g n) : Vacant k n := by
  induction h with
  | refl => exact hvacant
  | tail _ hlast ih => exact ih.edit hlast

/-! ## The same scope later -/

/-- The scope with the number has left the slot. -/
def Left {count : Nat} (g : GatewayContext count) (i : Slot) (serial : Nat) : Prop :=
  serial ≤ g.opened ∧ ((g.scopes i).isOpen = true → serial < (g.scopes i).serial)

theorem Left.edit (h : Edit ρ w g k) {i : Slot} {serial : Nat} (hleft : Left g i serial) :
    Left k i serial := by
  refine ⟨hleft.1.trans h.opened_le, fun hopen => ?_⟩
  cases h.slot i with
  | same hsame =>
      rw [hsame] at hopen ⊢
      exact hleft.2 hopen
  | kept hwas hkept =>
      rw [hkept.get (fun s => s.serial) fun _ => rfl]
      exact hleft.2 hwas
  | left _ _ hzeroed =>
      rw [hzeroed] at hopen
      cases hopen
  | seated _ _ hserial _ _ _ =>
      rw [hserial]
      exact Nat.lt_succ_of_le hleft.1

/-- Over a series of changes a scope is kept, or has left its slot. -/
theorem Edits.scope (h : Edits ρ w g k) {i : Slot} (hopen : (g.scopes i).isOpen = true)
    (hserial : (g.scopes i).serial ≤ g.opened) :
    ((k.scopes i).isOpen = true ∧ Kept (g.scopes i) (k.scopes i)) ∨
      Left k i (g.scopes i).serial := by
  induction h with
  | refl => exact .inl ⟨hopen, .refl _⟩
  | tail hfirst hlast ih =>
      cases ih with
      | inr hleft => exact .inr (hleft.edit hlast)
      | inl hkept =>
          cases hlast.slot i with
          | same hsame => exact .inl (hsame ▸ hkept)
          | kept _ hlater =>
              exact .inl ⟨(hlater.get (fun s => s.isOpen) fun _ => rfl).trans hkept.1,
                hkept.2.trans hlater⟩
          | left _ _ hzeroed =>
              refine .inr ⟨hserial.trans ((opened_le hfirst).trans hlast.opened_le), fun hnow => ?_⟩
              rw [hzeroed] at hnow
              cases hnow
          | seated hclosed _ _ _ _ _ =>
              rw [hkept.1] at hclosed
              cases hclosed

/-! ## Changes that count no request -/

/-- A change of the list that is not drawn by a preparation: a scope that stays keeps the number of
its requests. -/
def Shift (ρ : Router) (w : Intake) (g k : GatewayContext ρ.settings.count) : Prop :=
  Edit ρ w g k ∧ ∀ i, (k.scopes i).requests = (g.scopes i).requests ∨ k.scopes i = {}

def Shifts (ρ : Router) (w : Intake) :
    GatewayContext ρ.settings.count → GatewayContext ρ.settings.count → Prop :=
  ReflTransGen (Shift ρ w)

namespace Shift

/-- A change of one scope that keeps the number of its requests. -/
theorem write {i : Slot} {s : Scope} (h : Edit ρ w g (g.setScope i s))
    (hrequests : s.requests = (g.scopes i).requests) : Shift ρ w g (g.setScope i s) := by
  refine ⟨h, fun j => .inl ?_⟩
  by_cases hj : j = i
  · rw [hj, scopes_setScope_self]
    exact hrequests
  · rw [scopes_setScope_of_ne g s hj]

theorem aside (h : Aside g k) : Shift ρ w g k :=
  ⟨.aside h, fun i => .inl (congrArg Scope.requests (congrFun h.scopes i))⟩

theorem free (attemptTtl now : Nat) : Shift ρ w g { g with
    rows := g.rows.mapIdx fun i r =>
      if g.rowReclaimable attemptTtl now i r then .free else r } :=
  ⟨.free attemptTtl now, fun _ => .inl rfl⟩

theorem publish (i : Slot) (result : InterpreterResult) (hpolled : w.polled result)
    (h : Publishable (g.scopes i) result) :
    Shift ρ w g (g.setScope i { g.scopes i with interpretation := result }) :=
  .write (.publish i result hpolled h) rfl

theorem reclaim (i : Slot) (now : Nat) (closing : Bool)
    (h : Roster.Allowed ρ.settings.implicit g.roster (.vacate i closing)) :
    Shift ρ w g (g.scopeReclaim i now) := by
  refine ⟨.reclaim i now closing h, fun j => ?_⟩
  by_cases hj : j = i
  · rw [hj]
    exact .inr (Function.update_self ..)
  · exact .inl (congrArg Scope.requests (Function.update_of_ne hj ..))

theorem register (i : Slot) (task session branch : Text) (now : Nat)
    (hclosed : (g.scopes i).isOpen = false) (hroom : g.openOf false < share false)
    (hfresh : ∀ j, (g.scopes j).isOpen = true → (g.scopes j).task = task →
      (g.scopes j).session = session → (g.scopes j).branch ≠ branch)
    (hlast : g.generations ≠ uint64Max) :
    Shift ρ w g (Gateway.register i task session branch now g) := by
  refine ⟨.register i task session branch now hclosed hroom hfresh hlast, fun j => .inl ?_⟩
  by_cases hj : j = i
  · have hscope : (Gateway.register i task session branch now g).scopes i = _ :=
      Function.update_self ..
    rw [hj, hscope]
  · exact congrArg Scope.requests (Function.update_of_ne hj ..)

theorem adopt (i : Slot) (newcomer : Newcomer) (hsessions : ρ.settings.implicit = true)
    (hclosed : (g.scopes i).isOpen = false) (hroom : g.openOf true < share true) :
    Shift ρ w g (g.adopt i newcomer) := by
  refine ⟨.adopt i newcomer hsessions hclosed hroom, fun j => .inl ?_⟩
  by_cases hj : j = i
  · have hscope : (g.adopt i newcomer).scopes i = _ := Function.update_self ..
    rw [hj, hscope]
  · exact congrArg Scope.requests (Function.update_of_ne hj ..)

theorem mark (scopes : Slot → Scope) (h : ∀ i, Marked (g.scopes i) (scopes i)) :
    Shift ρ w g { g with scopes } := by
  refine ⟨.mark scopes h, fun i => .inl ?_⟩
  cases h i with
  | inl hsame => exact congrArg Scope.requests hsame
  | inr hmarked =>
      have hrequests := congrArg Scope.requests hmarked.2
      exact hrequests

theorem label (session : Text) (labels : List Text) (hsessions : ρ.settings.implicit = true)
    (h : ∀ ident, ident ∈ g.labels → ident ∈ labels) :
    Shift ρ w g (restrictSessions session { g with labels }) :=
  ⟨.label session labels hsessions h,
    fun _ => .inl (GatewayContext.view_ite Scope.requests rfl)⟩

theorem supersede (i : Slot) (revision : Nat) (h : (g.scopes i).isOpen = true) :
    Shift ρ w g (g.setScope i (Gateway.supersede revision (g.scopes i))) := by
  refine .write (.supersede i revision h) ?_
  unfold Gateway.supersede
  split <;> rfl

theorem derive (i : Slot) (h : (g.scopes i).isOpen = true) :
    Shift ρ w g (g.setScope i { g.scopes i with privateOnly := true }) :=
  .write (.derive i h) rfl

theorem accept (i : Slot) (e : Evidence) (revision now : Nat) (haccepted : w.accepted i e revision)
    (h : Acceptable g i e revision) :
    Shift ρ w g (g.setScope i (accepted e revision now (g.scopes i))) :=
  .write (.accept i e revision now haccepted h) rfl

end Shift

namespace Shifts

theorem refl (g : GatewayContext ρ.settings.count) : Shifts ρ w g g := ReflTransGen.refl

theorem trans (first : Shifts ρ w g k) (second : Shifts ρ w k l) : Shifts ρ w g l :=
  ReflTransGen.trans first second

theorem single (h : Shift ρ w g k) : Shifts ρ w g k := ReflTransGen.single h

theorem tail (first : Shifts ρ w g k) (last : Shift ρ w k l) : Shifts ρ w g l :=
  ReflTransGen.tail first last

theorem edits (h : Shifts ρ w g k) : Edits ρ w g k := by
  induction h with
  | refl => exact .refl g
  | tail _ hlast ih => exact ih.tail hlast.1

end Shifts

/-! ## Functions of the gateway -/

theorem Aside.refl {count : Nat} (g : GatewayContext count) : Aside g g :=
  ⟨rfl, rfl, rfl, rfl, rfl, rfl, rfl, id⟩

theorem aside_exact (g : GatewayContext ρ.settings.count) (authorization : Text)
    (row : Option Nat) (now : Nat) : Aside g (g.exact authorization row now).2 := by
  unfold GatewayContext.exact
  split
  · exact .refl g
  · split
    · exact .refl g
    · exact ⟨rfl, rfl, rfl, rfl, rfl, rfl, rfl, id⟩

theorem shifts_publish (g : GatewayContext ρ.settings.count) (authorization : Text) (now : Nat)
    (result : InterpreterResult) (hpolled : w.polled result) :
    Shifts ρ w g (g.publish authorization now result) := by
  unfold GatewayContext.publish
  split
  · exact .refl g
  · next i hfind =>
      dsimp only
      split
      · exact .refl g
      · next hgo =>
          rw [Bool.or_eq_true, not_or] at hgo
          have hset : ∀ m : GatewayContext ρ.settings.count, Aside g m →
              Shifts ρ w g (m.setScope i { g.scopes i with interpretation := result }) := by
            intro m hm
            obtain ⟨hopen, himplicit, hgeneration, hbranch⟩ :=
              GatewayContext.scopeFind_eq_some hfind
            have hpublishable : Publishable (g.scopes i) result :=
              ⟨hopen, himplicit, hgeneration, hbranch, by simpa using hgo.2⟩
            rw [← congrFun hm.scopes i] at hpublishable ⊢
            exact Shifts.tail (.single (.aside hm)) (.publish i result hpolled hpublishable)
          have haside := aside_exact g authorization (g.scopes i).evidenceRow now
          split
          · next k hk =>
              rw [hk] at haside
              exact .single (.aside haside)
          · next k hk =>
              rw [hk] at haside
              have hinterpret : Aside g { k with contexts := (Context.interpret k.contexts
                  (g.scopes i).key result.revision now result.nextAction).2 } :=
                ⟨haside.rows, haside.scopes, haside.labels, haside.boot, haside.generations,
                  haside.inflight, haside.opened,
                  fun h => Context.numbered_interpret (haside.numbered h) _ _ _ _⟩
              split
              · exact hset _ hinterpret
              · exact .single (.aside hinterpret)

theorem shifts_pollLocked (g : GatewayContext ρ.settings.count) (authorization : Text) (now : Nat)
    (results : List InterpreterResult) (hpolled : ∀ r ∈ results, w.polled r) :
    Shifts ρ w g (g.pollLocked authorization now results) := by
  unfold GatewayContext.pollLocked
  have htaken : ∀ r ∈ results.take GatewayContext.interpreterCapacity, w.polled r :=
    fun r hr => hpolled r (List.mem_of_mem_take hr)
  generalize results.take GatewayContext.interpreterCapacity = taken at htaken
  induction taken generalizing g with
  | nil => exact .refl g
  | cons result results ih =>
      exact (shifts_publish g authorization now result (htaken result List.mem_cons_self)).trans
        (ih _ fun r hr => htaken r (List.mem_cons_of_mem _ hr))

theorem shifts_rowSlot (g : GatewayContext ρ.settings.count) (attemptTtl now : Nat) :
    Shifts ρ w g (g.rowSlot attemptTtl now).2 := by
  unfold GatewayContext.rowSlot
  split
  · exact .refl g
  · split
    · exact .refl g
    · exact .single (.free attemptTtl now)

/-- The row that is found may be given away. -/
theorem vacant_rowSlot (g : GatewayContext ρ.settings.count) (attemptTtl now n : Nat)
    (h : (g.rowSlot attemptTtl now).1 = some n) : Vacant (g.rowSlot attemptTtl now).2 n := by
  have hfound : ∀ (k : GatewayContext ρ.settings.count),
      k.rows.findIdx? (fun r => !r.inUse) = some n → Vacant k n := by
    intro k hn
    obtain ⟨hlt, hunused, -⟩ := List.findIdx?_eq_some_iff_getElem.mp hn
    exact .inr ⟨k.rows[n], List.getElem?_eq_getElem hlt, by simpa using hunused⟩
  unfold GatewayContext.rowSlot at h ⊢
  split at h
  · next hroom =>
      rw [if_pos hroom]
      exact .inl (Option.some.inj h).symm
  · next hroom =>
      rw [if_neg hroom]
      split at h
      · next i hi =>
          obtain rfl := Option.some.inj h
          exact hfound g hi
      · exact hfound _ h

/-! ### Scopes -/

theorem openOf_sessions (g : GatewayContext ρ.settings.count) :
    (slots.countP fun i => (g.scopes i).isOpen && (g.scopes i).implicit) = g.openOf true := by
  apply List.countP_congr
  intro i _
  rw [Bool.decide_eq_true]

theorem openOf_registered (g : GatewayContext ρ.settings.count) :
    (slots.countP fun i => (g.scopes i).isOpen && !(g.scopes i).implicit) = g.openOf false := by
  apply List.countP_congr
  intro i _
  rw [Bool.decide_eq_false]

/-- A slot that was found for a new scope of some kind, whose share is not used up. -/
structure Free {count : Nat} (g : GatewayContext count) (implicit : Bool) (i : Slot) : Prop where
  closed : (g.scopes i).isOpen = false
  room : g.openOf implicit < share implicit

theorem shifts_vacantSlot (htidy : Tidy g) (ttl now : Nat) (implicit : Bool) {unused : Option Slot}
    (hunused : ∀ i, unused = some i → Free g implicit i) :
    Shifts ρ w g (g.vacantSlot ttl now implicit unused).2 ∧
      ∀ i, (g.vacantSlot ttl now implicit unused).1 = some i →
        Free (g.vacantSlot ttl now implicit unused).2 implicit i := by
  cases unused with
  | some j =>
      refine ⟨.refl g, fun i hi => ?_⟩
      obtain rfl := Option.some.inj hi
      exact hunused j rfl
  | none =>
      unfold GatewayContext.vacantSlot
      cases hidle : g.scopeIdle ttl now implicit with
      | none => exact ⟨.refl g, fun i hi => nomatch hi⟩
      | some j =>
          refine ⟨.single (.reclaim j now false (GatewayContext.scopeIdle_allowed hidle)), ?_⟩
          intro i hi
          obtain rfl := Option.some.inj hi
          obtain ⟨hopen, hkind, -, -⟩ := GatewayContext.scopeIdle_eq_some hidle
          have hzeroed : (g.scopeReclaim j now).scopes j = {} := Function.update_self ..
          have hclosed : ((g.scopeReclaim j now).scopes j).isOpen = false := by rw [hzeroed]
          have hleave := openOf_leave hopen hclosed fun i hi => Function.update_of_ne hi ..
          rw [hkind] at hleave
          have hquota := htidy.quota implicit
          have hroom : (g.scopeReclaim j now).openOf implicit < share implicit := by omega
          exact ⟨hclosed, hroom⟩

theorem shifts_sessionSlot (htidy : Tidy g) (now : Nat) :
    Shifts ρ w g (g.sessionSlot now).2 ∧
      ∀ i, (g.sessionSlot now).1 = some i → Free (g.sessionSlot now).2 true i := by
  apply shifts_vacantSlot htidy ρ.settings.ttl now true
  intro i hi
  have hroom := (Option.filter_eq_some_iff.mp hi).2
  rw [decide_eq_true_eq, openOf_sessions] at hroom
  exact ⟨GatewayContext.unused_eq_some g hi, hroom⟩

/-- Vacating a slot touches no scope that stays open. -/
theorem scopes_vacantSlot {ttl now : Nat} {implicit : Bool} {unused : Option Slot} {j : Slot}
    (hopen : ((g.vacantSlot ttl now implicit unused).2.scopes j).isOpen = true) :
    (g.vacantSlot ttl now implicit unused).2.scopes j = g.scopes j := by
  cases unused with
  | some i => rfl
  | none =>
      unfold GatewayContext.vacantSlot at hopen ⊢
      cases hidle : g.scopeIdle ttl now implicit with
      | none => rfl
      | some i =>
          rw [hidle] at hopen
          dsimp only at hopen ⊢
          by_cases hji : j = i
          · rw [hji, show (g.scopeReclaim i now).scopes i = {} from Function.update_self ..] at hopen
            cases hopen
          · exact Function.update_of_ne hji ..

theorem shifts_registeredSlot (htidy : Tidy g) (now : Nat) :
    Shifts ρ w g (registeredSlot now g).2 ∧
      (∀ i, (registeredSlot now g).1 = some i → Free (registeredSlot now g).2 false i) ∧
      ∀ j, ((registeredSlot now g).2.scopes j).isOpen = true →
        (registeredSlot now g).2.scopes j = g.scopes j := by
  have hunused : ∀ i, ((slots.find? fun i => !(g.scopes i).isOpen).filter fun _ =>
      (slots.countP fun i => (g.scopes i).isOpen && !(g.scopes i).implicit) < explicitScopes) =
        some i → Free g false i := by
    intro i hi
    have hroom := (Option.filter_eq_some_iff.mp hi).2
    rw [decide_eq_true_eq, openOf_registered] at hroom
    exact ⟨GatewayContext.unused_eq_some g hi, hroom⟩
  have hvacant := shifts_vacantSlot (w := w) htidy ρ.settings.ttl now false hunused
  exact ⟨hvacant.1, hvacant.2, fun j hj => scopes_vacantSlot hj⟩

theorem shifts_handedOut (g : GatewayContext ρ.settings.count) (first : Option Text) :
    Shifts ρ w g (g.handedOut first).2 := by
  unfold GatewayContext.handedOut
  split
  · exact .refl g
  · refine .single (.mark _ fun j => ?_)
    split
    · next hawaits =>
        refine .inr ⟨?_, rfl⟩
        unfold GatewayContext.awaits at hawaits
        rw [Bool.and_eq_true, Bool.and_eq_true] at hawaits
        exact hawaits.1.1
    · exact .inl rfl

theorem shifts_lineage (g : GatewayContext ρ.settings.count) {i : Slot}
    (hopen : (g.scopes i).isOpen = true) (newcomer : Newcomer) (first : Option Text) :
    Shifts ρ w g (g.lineage i newcomer first) := by
  have hstill : ((g.handedOut first).2.scopes i).isOpen = true := by
    have hholder := congrFun (congrArg Roster.holder (g.roster_handedOut first)) i
    exact (congrArg Holder.isOpen hholder).trans hopen
  refine (shifts_handedOut g first).tail (.mark _ fun j => ?_)
  by_cases hj : j = i
  · rw [hj, Function.update_self]
    exact .inr ⟨hstill, rfl⟩
  · rw [Function.update_of_ne hj]
    exact .inl rfl

theorem shifts_implicitScope (hsessions : ρ.settings.implicit = true) (htidy : Tidy g) (body : Json)
    (h : GatewayHeaders) (now : Nat) : Shifts ρ w g (g.implicitScope body h now).2 := by
  unfold GatewayContext.implicitScope
  dsimp only
  split
  · exact .refl g
  · next o _ =>
      split
      · exact .refl g
      · obtain ⟨hshifts, hfree⟩ := shifts_sessionSlot (w := w) htidy now
        split
        · next k hk =>
            rw [hk] at hshifts
            exact hshifts
        · next i k hk =>
            rw [hk] at hshifts hfree
            have hfree := hfree i rfl
            have hadopt : Shifts ρ w g (k.adopt i ⟨o.anchor, (sessionIdent h).getD [], now⟩) :=
              hshifts.tail (.adopt i _ hsessions hfree.closed hfree.room)
            split
            · refine hadopt.trans (shifts_lineage _ ?_ _ _)
              have hscope : (k.adopt i ⟨o.anchor, (sessionIdent h).getD [], now⟩).scopes i = _ :=
                Function.update_self ..
              rw [hscope]
            · exact hadopt

/-! ### Events -/

theorem shifts_openScope (htidy : Tidy g) (body : Json) (now : Nat) :
    Shifts ρ w g (openScope body now g).2 := by
  unfold openScope
  split
  · next task session branch _ _ _ =>
      split
      · exact .refl g
      · split
        · exact .refl g
        · next hfresh =>
            obtain ⟨hshifts, hfree, hkept⟩ := shifts_registeredSlot (w := w) htidy now
            split
            · next k hk =>
                rw [hk] at hshifts
                exact hshifts
            · next i k hk =>
                rw [hk] at hshifts hfree hkept
                have hfree := hfree i rfl
                split
                · exact hshifts
                · next hlast =>
                    refine hshifts.tail (.register i task session branch now hfree.closed hfree.room
                      ?_ hlast)
                    intro j hopen htask hsession hbranch
                    apply hfresh
                    rw [List.any_eq_true]
                    have hsame : k.scopes j = g.scopes j := hkept j hopen
                    refine ⟨j, mem_slots j, ?_⟩
                    simp only [Bool.and_eq_true, decide_eq_true_eq]
                    rw [← hsame]
                    exact ⟨⟨⟨hopen, htask⟩, hsession⟩, hbranch⟩
  · exact .refl g

theorem shifts_close (g : GatewayContext ρ.settings.count) (body : Json) (now : Nat) :
    Shifts ρ w g (close body now g).2 := by
  unfold close
  split
  · split
    · exact .refl g
    · split
      · exact .refl g
      · next i hfind =>
          by_cases hinflight : (g.scopes i).inflight = true
          · rw [if_pos hinflight]
            exact .refl g
          · rw [if_neg hinflight]
            obtain ⟨hopen, himplicit, -, -⟩ := GatewayContext.scopeFind_eq_some hfind
            exact .single (.reclaim i now true ⟨hopen, Bool.not_eq_true _ ▸ hinflight, himplicit⟩)
  · exact .refl g

theorem addLabel_eq_some {session : Text} {labels changed : List Text}
    (h : addLabel session labels = some changed) : ∀ ident, ident ∈ labels → ident ∈ changed := by
  intro ident hident
  unfold addLabel at h
  split at h
  · rw [← Option.some.inj h]
    exact hident
  · split at h
    · rw [← Option.some.inj h]
      exact List.mem_append_left _ hident
    · cases h

theorem shifts_hint (g : GatewayContext ρ.settings.count) (body : Json) (now : Nat) :
    Shifts ρ w g (hint body now g).2 := by
  unfold hint
  by_cases hsessions : ρ.settings.implicit = true
  · rw [hsessions, if_neg (by decide)]
    split
    · exact .refl g
    · next session role restricted _ =>
        split
        · exact .refl g
        · next k hk =>
            have hlabel : Shifts ρ w g k := by
              unfold restrictHint at hk
              split at hk
              · obtain ⟨labels, hlabels, rfl⟩ := Option.map_eq_some_iff.mp hk
                exact .single (.label session labels hsessions (addLabel_eq_some hlabels))
              · rw [← Option.some.inj hk]
                exact .refl g
            exact hlabel.tail (.aside ⟨rfl, rfl, rfl, rfl, rfl, rfl, rfl, id⟩)
  · rw [if_pos (by simpa using hsessions)]
    exact .refl g

/-! ### Source events -/

/-- The scope, the revision and the evidence that an ingested body names. -/
structure Ingested (g : GatewayContext ρ.settings.count) (body : Json) (i : Slot) (e : Evidence)
    (revision : Nat) : Prop where
  generation : token body "generation" 32 = some (g.scopes i).generation
  branch : token body "branch" 63 = some (g.scopes i).branch
  revision : integer body "revision" 9007199254740991 = some revision
  headers : ((body.get? "event").bind eventHeaders) = some e.headers

theorem check_eq_ok {p : Bool} {status : Nat} (h : check p status = .ok ()) : p = true := by
  unfold check at h
  by_cases hp : p = true
  · exact hp
  · rw [if_neg hp] at h
    cases h

theorem orElse_eq_ok {α : Type} {status : Nat} {o : Option α} {a : α}
    (h : orElse status o = .ok a) : o = some a := by
  cases o with
  | none => cases h
  | some b => exact congrArg some (Except.ok.inj h)

theorem eventRow_eq_ok {rows : List Physical} {h : Attempts.AttemptHeaders} {n : Nat}
    (hrow : eventRow rows h = .ok n) :
    ∃ r, rows[n]? = some r ∧ r.inUse = true ∧ sameHeaders h r.headers = true := by
  unfold eventRow at hrow
  split at hrow
  · cases hrow
  · next k hk =>
      obtain rfl := Except.ok.inj hrow
      have hmem : k ∈ (List.range rows.length).filter fun k =>
          rows[k]?.any fun r => r.inUse && sameHeaders h r.headers := hk ▸ List.mem_singleton_self k
      obtain ⟨r, hr, hgood⟩ := (Option.any_eq_true _ _).mp (List.mem_filter.mp hmem).2
      rw [Bool.and_eq_true] at hgood
      exact ⟨r, hr, hgood.1, hgood.2⟩
  · cases hrow

theorem eventEvidenceOf_eq_ok {i : Slot} {event : Json} {tool : Bool} {revision : Nat}
    {e : Evidence} (h : eventEvidenceOf g i event tool revision = .ok e)
    (hopen : (g.scopes i).isOpen = true) (hregistered : (g.scopes i).implicit = false) :
    Acceptable g i e revision ∧ eventHeaders event = some e.headers := by
  unfold eventEvidenceOf at h
  obtain ⟨sequence, -, h⟩ := Stateful.except_bind_eq_ok.mp h
  obtain ⟨_, hnewer, h⟩ := Stateful.except_bind_eq_ok.mp h
  obtain ⟨_, -, h⟩ := Stateful.except_bind_eq_ok.mp h
  obtain ⟨headers, hheaders, h⟩ := Stateful.except_bind_eq_ok.mp h
  obtain ⟨row, hrow, h⟩ := Stateful.except_bind_eq_ok.mp h
  obtain ⟨_, hscope, h⟩ := Stateful.except_bind_eq_ok.mp h
  obtain ⟨_, hlast, h⟩ := Stateful.except_bind_eq_ok.mp h
  have hfound : e.headers = headers ∧ e.row = row := by
    split at h
    all_goals
      obtain ⟨callback, -, h⟩ := Stateful.except_bind_eq_ok.mp h
      obtain ⟨texts, -, h⟩ := Stateful.except_bind_eq_ok.mp h
      rw [← Except.ok.inj h]
      exact ⟨rfl, rfl⟩
  obtain ⟨rfl, rfl⟩ := hfound
  have hnewer := check_eq_ok hnewer
  have hscope := check_eq_ok hscope
  have hlast := check_eq_ok hlast
  simp only [Bool.and_eq_true, decide_eq_true_eq, Bool.not_eq_true'] at hnewer hscope hlast
  obtain ⟨r, hr, hused, hsame⟩ := eventRow_eq_ok hrow
  rw [hr] at hscope hlast
  refine ⟨⟨hopen, hregistered, hlast.1.1, hnewer.1, hlast.2, r, hr, hused, hsame, ?_, ?_⟩,
    orElse_eq_ok hheaders⟩
  · exact hscope
  · exact hlast.1.2

theorem aside_put (g : GatewayContext ρ.settings.count) (key : Context.Key) (revision now : Nat) :
    let contexts := (Context.put g.contexts key revision now ρ.settings.ttl
      "authorized source response" false).2
    Aside g { g with contexts } :=
  ⟨rfl, rfl, rfl, rfl, rfl, rfl, rfl, fun h => Context.numbered_put h _ _ _ _ _ _⟩

theorem shifts_acceptEvidence {i : Slot} {e : Evidence} {revision now : Nat} {submitted : Bool}
    (haccepted : w.accepted i e revision) (hacceptable : Acceptable g i e revision) :
    Shifts ρ w g (acceptEvidence i e revision now submitted g).2 := by
  unfold acceptEvidence
  dsimp only
  generalize Attempts.attemptSourceComplete g.ledger (some ρ.settings.authorization) e.headers now =
    ledger
  have hsource : Aside g { g with ledger } := ⟨rfl, rfl, rfl, rfl, rfl, rfl, rfl, id⟩
  have hset : ∀ m : GatewayContext ρ.settings.count, Shifts ρ w g m → m.scopes = g.scopes →
      m.rows = g.rows → Shifts ρ w g (m.setScope i (accepted e revision now (m.scopes i))) := by
    intro m hm hscopes hrows
    refine hm.tail (.accept i e revision now haccepted ?_)
    exact ⟨hscopes ▸ hacceptable.isOpen, hscopes ▸ hacceptable.registered,
      hscopes ▸ hacceptable.idle, hscopes ▸ hacceptable.newer, hscopes ▸ hacceptable.last,
      hrows ▸ hacceptable.row⟩
  have haside := aside_exact { g with ledger } ρ.settings.authorization (some e.row) now
  split
  · next k hk =>
      rw [hk] at haside
      exact (Shifts.single (.aside hsource)).tail (.aside haside)
  · next k hk =>
      rw [hk] at haside
      have hexact := (Shifts.single (w := w) (.aside hsource)).tail (.aside haside)
      have hput := hexact.tail (.aside (aside_put k (k.scopes i).key revision now))
      split
      · exact hput
      · exact hset _ hput haside.scopes haside.rows

theorem shifts_ingest (g : GatewayContext ρ.settings.count) (r : Runtime) (body : Json) (now : Nat)
    (submitted : Bool) (haccepted : ∀ i e revision, Ingested g body i e revision →
      w.accepted i e revision) : Shifts ρ w g (ingest r body now submitted g).2 := by
  unfold ingest
  split
  · next generation branch revision hgeneration hbranch hrevision =>
      split
      · exact .refl g
      · split
        · exact .refl g
        · next i hfind =>
            obtain ⟨hopen, hregistered, hgen, hbr⟩ := GatewayContext.scopeFind_eq_some hfind
            dsimp only
            have hsupersede : Shifts ρ w g (g.setScope i (supersede revision (g.scopes i))) :=
              .single (.supersede i revision hopen)
            -- the scope is still the one that was found
            have hholder : ((g.setScope i (supersede revision (g.scopes i))).scopes i).toHolder =
                (g.scopes i).toHolder := by
              rw [scopes_setScope_self]
              unfold supersede
              split <;> rfl
            generalize g.setScope i (supersede revision (g.scopes i)) = k at hsupersede hholder
            have hopen' : (k.scopes i).isOpen = true := (congrArg Holder.isOpen hholder).trans hopen
            split
            · exact hsupersede
            · split
              · exact hsupersede.tail (.aside ⟨rfl, rfl, rfl, rfl, rfl, rfl, rfl, id⟩)
              · split
                · exact hsupersede
                · next e he =>
                    obtain ⟨hacceptable, hheaders⟩ := eventEvidenceOf_eq_ok he hopen'
                      ((congrArg Holder.implicit hholder).trans hregistered)
                    have hingested : Ingested g body i e revision := by
                      refine ⟨by rw [hgeneration, hgen], by rw [hbranch, hbr], hrevision, ?_⟩
                      cases hevent : body.get? "event" with
                      | none =>
                          rw [hevent] at hheaders
                          cases hheaders
                      | some event =>
                          rw [hevent] at hheaders
                          exact hheaders
                    have hderive : Shifts ρ w k (deriveAuthority r i e.texts k) ∧
                        Acceptable (deriveAuthority r i e.texts k) i e revision := by
                      unfold deriveAuthority
                      split
                      · refine ⟨.single (.derive i hopen'), ?_⟩
                        obtain ⟨_, hreg, hidle, hnewer, hlast, hrow⟩ := hacceptable
                        constructor
                        all_goals first | exact hrow | rw [scopes_setScope_self]
                        · exact hopen'
                        · exact hreg
                        · exact hidle
                        · exact hnewer
                        · exact hlast
                      · exact ⟨.refl k, hacceptable⟩
                    exact (hsupersede.trans hderive.1).trans
                      (shifts_acceptEvidence (haccepted i e revision hingested) hderive.2)
  · exact .refl g

/-! ### What concerns no scope -/

theorem aside_recordJudgement (g : GatewayContext ρ.settings.count) (j : Judgement) (now : Nat) :
    Aside g (recordJudgement (ρ := ρ) j now g) := by
  have hjudge : ∀ judgeFailures judgeOpenUntil : Nat, Aside g { g with judgeFailures, judgeOpenUntil } :=
    fun _ _ => ⟨rfl, rfl, rfl, rfl, rfl, rfl, rfl, id⟩
  unfold recordJudgement
  split
  · exact .refl g
  · split
    · exact hjudge _ _
    · split
      · exact hjudge _ _
      · exact hjudge _ _

theorem aside_noteOutcome (g : GatewayContext ρ.settings.count) (endpoint : Endpoint)
    (model : Option Text) (status retryAfterMs now : Nat) :
    Aside g (noteOutcome g endpoint model status retryAfterMs now) := by
  unfold noteOutcome
  split
  · exact ⟨rfl, rfl, rfl, rfl, rfl, rfl, rfl, id⟩
  · exact .refl g

theorem aside_shadowSample (config : Shadow ρ.settings.count)
    (g : GatewayContext ρ.settings.count) : Aside g (shadowSample config g).2 := by
  unfold shadowSample
  split
  · exact ⟨rfl, rfl, rfl, rfl, rfl, rfl, rfl, id⟩
  · split
    · exact .refl g
    · dsimp only
      split
      · exact ⟨rfl, rfl, rfl, rfl, rfl, rfl, rfl, id⟩
      · exact ⟨rfl, rfl, rfl, rfl, rfl, rfl, rfl, id⟩

theorem aside_shadowDone (cost : Rat) (g : GatewayContext ρ.settings.count) :
    Aside g (shadowDone cost g) := ⟨rfl, rfl, rfl, rfl, rfl, rfl, rfl, id⟩

end Recursant.Gateway
