import Mathlib.Logic.Relation
import Recursant.Gateway.Frame
import Recursant.Lib.Tally

/-!
# The changes of the gateway

Whatever the gateway does outside the commitment, the move and the end of a request is a series of
the changes listed here.  What holds of every one of them is shown once, slot by slot.
-/

namespace Recursant.Gateway

open Relation (ReflTransGen)

/-! ## Shares of the table -/

/-- The open scopes of one kind. -/
def GatewayContext.openOf {count : Nat} (g : GatewayContext count) (implicit : Bool) : Nat :=
  slots.countP fun i => (g.scopes i).isOpen && decide ((g.scopes i).implicit = implicit)

/-- The slots that the scopes of one kind may take. -/
def share (implicit : Bool) : Nat := if implicit then scopeSlots - explicitScopes else explicitScopes

/-- A closed slot is zeroed, and neither kind of scope has more than its share. -/
structure Tidy {count : Nat} (g : GatewayContext count) : Prop where
  blank : ∀ i, (g.scopes i).isOpen = false → g.scopes i = {}
  quota : ∀ implicit, g.openOf implicit ≤ share implicit

/-! ## Changes -/

/-- What an event brings along: the source events that it may accept and the interpreter results
that it polls. -/
structure Intake where
  accepted : Slot → Evidence → Nat → Prop
  polled : InterpreterResult → Prop

/-- Nothing changes that a scope, a row or a ticket depends on. -/
structure Aside {count : Nat} (g k : GatewayContext count) : Prop where
  rows : k.rows = g.rows
  scopes : k.scopes = g.scopes
  labels : k.labels = g.labels
  boot : k.boot = g.boot
  generations : k.generations = g.generations
  inflight : k.inflight = g.inflight
  opened : k.opened = g.opened
  numbered : g.contexts.Numbered → k.contexts.Numbered

/-- A scope without what a preparation writes before it commits. -/
def Scope.undrawn (s : Scope) : Scope :=
  { s with
    pinned := false
    requirements := 0
    contract := none
    profile := false
    effort := []
    seenMessages := 0
    reasoningAdded := none
    requests := 0 }

/-- What a preparation does to its scope before it commits. -/
structure Drawn (s t : Scope) : Prop where
  rest : t.undrawn = s.undrawn
  pinned : s.pinned = true → t.pinned = true

/-- A conversation that was handed out marks the scopes of both sides. -/
def Marked (s t : Scope) : Prop :=
  t = s ∨ s.isOpen = true ∧
    t = { s with awaitingDelegates := t.awaitingDelegates, delegated := t.delegated }

/-- What the checks of a source event found before it was accepted. -/
structure Acceptable {count : Nat} (g : GatewayContext count) (i : Slot) (e : Evidence)
    (revision : Nat) : Prop where
  isOpen : (g.scopes i).isOpen = true
  registered : (g.scopes i).implicit = false
  idle : (g.scopes i).inflight = false
  newer : (g.scopes i).revision < revision
  last : (g.scopes i).lastRow = some e.row
  row : ∃ r, g.rows[e.row]? = some r ∧ r.inUse = true ∧ sameHeaders e.headers r.headers = true ∧
    r.scope = some i ∧ r.complete = true

def accepted (e : Evidence) (revision now : Nat) (s : Scope) : Scope :=
  { s with
    callbackSeen := e.callback.toList ++ s.callbackSeen
    revision
    sequence := e.sequence
    observed := now
    active := now
    evidenceRow := some e.row
    interpretation := {} }

/-- A result is published for the scope and the revision that it names. -/
structure Publishable (s : Scope) (result : InterpreterResult) : Prop where
  isOpen : s.isOpen = true
  registered : s.implicit = false
  generation : s.generation = result.generation
  branch : s.branch = result.branch
  revision : s.revision = result.revision

inductive Edit (ρ : Router) (w : Intake) (g : GatewayContext ρ.settings.count) :
    GatewayContext ρ.settings.count → Prop
  | aside {k : GatewayContext ρ.settings.count} : Aside g k → Edit ρ w g k
  | free (attemptTtl now : Nat) : Edit ρ w g { g with
      rows := g.rows.mapIdx fun i r =>
        if g.rowReclaimable attemptTtl now i r then .free else r }
  | publish (i : Slot) (result : InterpreterResult) : w.polled result →
      Publishable (g.scopes i) result →
      Edit ρ w g (g.setScope i { g.scopes i with interpretation := result })
  | reclaim (i : Slot) (now : Nat) (closing : Bool) :
      Roster.Allowed ρ.settings.implicit g.roster (.vacate i closing) →
      Edit ρ w g (g.scopeReclaim i now)
  | register (i : Slot) (task session branch : Text) (now : Nat) :
      (g.scopes i).isOpen = false → g.openOf false < share false →
      (∀ j, (g.scopes j).isOpen = true → (g.scopes j).task = task →
        (g.scopes j).session = session → (g.scopes j).branch ≠ branch) →
      g.generations ≠ uint64Max → Edit ρ w g (register i task session branch now g)
  | adopt (i : Slot) (newcomer : Newcomer) : ρ.settings.implicit = true →
      (g.scopes i).isOpen = false → g.openOf true < share true → Edit ρ w g (g.adopt i newcomer)
  | mark (scopes : Slot → Scope) : (∀ i, Marked (g.scopes i) (scopes i)) →
      Edit ρ w g { g with scopes }
  | label (session : Text) (labels : List Text) :
      ρ.settings.implicit = true → (∀ ident, ident ∈ g.labels → ident ∈ labels) →
      Edit ρ w g (restrictSessions session { g with labels })
  | supersede (i : Slot) (revision : Nat) : (g.scopes i).isOpen = true →
      Edit ρ w g (g.setScope i (supersede revision (g.scopes i)))
  | derive (i : Slot) : (g.scopes i).isOpen = true →
      Edit ρ w g (g.setScope i { g.scopes i with privateOnly := true })
  | accept (i : Slot) (e : Evidence) (revision now : Nat) : w.accepted i e revision →
      Acceptable g i e revision → Edit ρ w g (g.setScope i (accepted e revision now (g.scopes i)))
  | draw (i : Slot) (t : Scope) : (g.scopes i).isOpen = true → (g.scopes i).inflight = false →
      Drawn (g.scopes i) t → Edit ρ w g (g.setScope i t)

def Edits (ρ : Router) (w : Intake) :
    GatewayContext ρ.settings.count → GatewayContext ρ.settings.count → Prop :=
  ReflTransGen (Edit ρ w)

/-! ## One slot -/

/-- A scope without what a change may write while it is open. -/
def Scope.core (s : Scope) : Scope :=
  { s with
    privateOnly := false
    pinned := false
    requirements := 0
    contract := none
    profile := false
    effort := []
    seenMessages := 0
    reasoningAdded := none
    requests := 0
    callbackSeen := []
    evidenceRow := none
    revision := 0
    sequence := 0
    observed := 0
    active := 0
    interpretation := {}
    delegated := false
    awaitingDelegates := false }

/-- The scope is the same one, and has no less authority and no less continuity to keep. -/
structure Kept (s t : Scope) : Prop where
  core : t.core = s.core
  privateOnly : s.privateOnly = true → t.privateOnly = true
  pinned : s.pinned = true → t.pinned = true

theorem Kept.refl (s : Scope) : Kept s s := ⟨rfl, id, id⟩

theorem Kept.trans {s t u : Scope} (first : Kept s t) (second : Kept t u) : Kept s u :=
  ⟨second.core.trans first.core, second.privateOnly ∘ first.privateOnly,
    second.pinned ∘ first.pinned⟩

/-- What no change writes is the same. -/
theorem Kept.get {s t : Scope} (h : Kept s t) {α : Type} (view : Scope → α)
    (hview : ∀ u : Scope, view u.core = view u) : view t = view s := by
  rw [← hview t, ← hview s, h.core]

theorem Drawn.core {s t : Scope} (h : Drawn s t) : t.core = s.core := by
  have hcore := congrArg Scope.core h.rest
  exact hcore

theorem Drawn.holder {s t : Scope} (h : Drawn s t) : t.toHolder = s.toHolder := by
  have hholder := congrArg Scope.toHolder h.rest
  exact hholder

theorem Drawn.kept {s t : Scope} (h : Drawn s t) : Kept s t := by
  refine ⟨h.core, fun hprivate => ?_, h.pinned⟩
  rw [h.holder]
  exact hprivate

theorem Marked.kept {s t : Scope} (h : Marked s t) : Kept s t := by
  cases h with
  | inl hsame => exact hsame ▸ .refl s
  | inr hmarked =>
      rw [hmarked.2]
      exact ⟨rfl, id, id⟩

/-- What a change does to one slot. -/
inductive SlotFate {count : Nat} (g k : GatewayContext count) (i : Slot) : Prop where
  | same : k.scopes i = g.scopes i → SlotFate g k i
  | kept : (g.scopes i).isOpen = true → Kept (g.scopes i) (k.scopes i) → SlotFate g k i
  | left : (g.scopes i).isOpen = true → (g.scopes i).inflight = false → k.scopes i = {} →
      SlotFate g k i
  | seated : (g.scopes i).isOpen = false → (k.scopes i).isOpen = true →
      (k.scopes i).serial = g.opened + 1 → (k.scopes i).inflight = (g.scopes i).inflight →
      (k.scopes i).owner = (g.scopes i).owner → (k.scopes i).pinned = (g.scopes i).pinned →
      SlotFate g k i

theorem scopes_setScope {count : Nat} (g : GatewayContext count) (i j : Slot) (s : Scope) :
    (g.setScope i s).scopes j = if j = i then s else g.scopes j := Function.update_apply ..

@[simp] theorem scopes_setScope_self {count : Nat} (g : GatewayContext count) (i : Slot)
    (s : Scope) : (g.setScope i s).scopes i = s := Function.update_self ..

theorem scopes_setScope_of_ne {count : Nat} (g : GatewayContext count) {i j : Slot} (s : Scope)
    (h : j ≠ i) : (g.setScope i s).scopes j = g.scopes j := Function.update_of_ne h ..

/-- A scope that is written over by one that it is kept in. -/
theorem SlotFate.set {count : Nat} {g : GatewayContext count} {i : Slot} {s : Scope}
    (hopen : (g.scopes i).isOpen = true) (h : Kept (g.scopes i) s) (j : Slot) :
    SlotFate g (g.setScope i s) j := by
  by_cases hj : j = i
  · rw [hj]
    exact .kept hopen (by rwa [scopes_setScope_self])
  · exact .same (scopes_setScope_of_ne g s hj)

/-- A slot that is open after another was written was open before. -/
theorem open_of_setScope {count : Nat} {g : GatewayContext count} {i j : Slot} {s : Scope}
    (hopen : (g.scopes i).isOpen = true) (h : ((g.setScope i s).scopes j).isOpen = true) :
    (g.scopes j).isOpen = true := by
  by_cases hj : j = i
  · rw [hj]
    exact hopen
  · rwa [scopes_setScope_of_ne g s hj] at h

variable {ρ : Router} {w : Intake} {g k : GatewayContext ρ.settings.count}

theorem Edit.slot (h : Edit ρ w g k) (j : Slot) : SlotFate g k j := by
  cases h with
  | aside haside => exact .same (congrFun haside.scopes j)
  | free attemptTtl now => exact .same rfl
  | publish i result _ hpublishable =>
      have hkept : Kept (g.scopes i) { g.scopes i with interpretation := result } := ⟨rfl, id, id⟩
      exact .set hpublishable.isOpen hkept j
  | reclaim i now closing hallowed =>
      by_cases hj : j = i
      · rw [hj]
        exact .left hallowed.1 hallowed.2.1 (Function.update_self ..)
      · exact .same (Function.update_of_ne hj ..)
  | register i task session branch now hclosed _ _ _ =>
      by_cases hj : j = i
      · rw [hj]
        have hscope : (Gateway.register i task session branch now g).scopes i = _ :=
          Function.update_self ..
        apply SlotFate.seated hclosed
        all_goals rw [hscope]
      · exact .same (Function.update_of_ne hj ..)
  | adopt i newcomer _ hclosed _ =>
      by_cases hj : j = i
      · rw [hj]
        have hscope : (g.adopt i newcomer).scopes i = _ := Function.update_self ..
        apply SlotFate.seated hclosed
        all_goals rw [hscope]
      · exact .same (Function.update_of_ne hj ..)
  | mark scopes hmarked =>
      cases hmarked j with
      | inl hsame => exact .same hsame
      | inr hopen => exact .kept hopen.1 (hmarked j).kept
  | label session labels _ _ =>
      by_cases hlabelled : ((g.scopes j).isOpen && (g.scopes j).implicit &&
          decide ((g.scopes j).ident = session)) = true
      · have hscope : (restrictSessions session { g with labels }).scopes j =
            { g.scopes j with privateOnly := true } := if_pos hlabelled
        rw [Bool.and_eq_true, Bool.and_eq_true] at hlabelled
        apply SlotFate.kept hlabelled.1.1
        rw [hscope]
        exact ⟨rfl, fun _ => rfl, id⟩
      · exact .same (if_neg hlabelled)
  | supersede i revision hopen =>
      apply SlotFate.set hopen
      unfold Gateway.supersede
      split
      · exact ⟨rfl, id, id⟩
      · exact .refl _
  | derive i hopen =>
      have hkept : Kept (g.scopes i) { g.scopes i with privateOnly := true } :=
        ⟨rfl, fun _ => rfl, id⟩
      exact .set hopen hkept j
  | accept i e revision now _ hacceptable =>
      have hkept : Kept (g.scopes i) (accepted e revision now (g.scopes i)) := ⟨rfl, id, id⟩
      exact .set hacceptable.isOpen hkept j
  | draw i t hopen _ hdrawn => exact .set hopen hdrawn.kept j

/-- A scope in flight is kept. -/
theorem Edit.kept (h : Edit ρ w g k) {j : Slot} (hopen : (g.scopes j).isOpen = true)
    (hinflight : (g.scopes j).inflight = true) : Kept (g.scopes j) (k.scopes j) := by
  cases h.slot j with
  | same hsame => exact hsame ▸ .refl _
  | kept _ hkept => exact hkept
  | left _ hidle _ =>
      rw [hinflight] at hidle
      cases hidle
  | seated hclosed _ _ _ _ _ =>
      rw [hopen] at hclosed
      cases hclosed

/-! ## Counts, rows and numbers -/

theorem Edit.capacity (h : Edit ρ w g k) : k.inflight = g.inflight := by
  cases h with
  | aside haside => exact haside.inflight
  | _ => rfl

theorem Edit.opened_le (h : Edit ρ w g k) : g.opened ≤ k.opened := by
  cases h with
  | aside haside => exact haside.opened.ge
  | register => exact Nat.le_succ _
  | adopt => exact Nat.le_succ _
  | _ => exact le_rfl

/-- Changes leave the exchange in flight of every slot alone. -/
theorem Edit.inflight (h : Edit ρ w g k) (j : Slot) :
    (k.scopes j).inflight = (g.scopes j).inflight := by
  cases h.slot j with
  | same hsame => rw [hsame]
  | kept _ hkept => exact hkept.get (fun s => s.inflight) fun _ => rfl
  | left _ hidle hzeroed =>
      rw [hzeroed, hidle]
  | seated _ _ _ hsame _ _ => exact hsame

/-- A row is reclaimed once it is settled, and cut loose from its scope once that is idle. -/
inductive RowFate (g k : GatewayContext ρ.settings.count) (i : Nat) (r : Physical) : Prop where
  | kept : k.rows[i]? = some r → RowFate g k i r
  | freed : r.settled = true → k.rows[i]? = some .free → RowFate g k i r
  | loosened (j : Slot) : r.scope = some j → (g.scopes j).inflight = false →
      k.rows[i]? = some { r with scope := none } → RowFate g k i r

theorem Edit.row (h : Edit ρ w g k) {i : Nat} {r : Physical} (hr : g.rows[i]? = some r) :
    RowFate g k i r := by
  cases h with
  | aside haside => exact .kept (haside.rows ▸ hr)
  | free attemptTtl now =>
      have hrow : (g.rows.mapIdx fun i r =>
          if g.rowReclaimable attemptTtl now i r then .free else r)[i]? =
          some (if g.rowReclaimable attemptTtl now i r then .free else r) := by
        rw [List.getElem?_mapIdx, hr]
        rfl
      by_cases hreclaimable : g.rowReclaimable attemptTtl now i r = true
      · rw [if_pos hreclaimable] at hrow
        refine .freed ?_ hrow
        unfold GatewayContext.rowReclaimable at hreclaimable
        simp only [Bool.and_eq_true] at hreclaimable
        exact hreclaimable.1.1.1
      · rw [if_neg hreclaimable] at hrow
        exact .kept hrow
  | reclaim j now closing hallowed =>
      have hrow : (g.scopeReclaim j now).rows[i]? =
          some (if r.inUse && r.scope = some j then { r with scope := none } else r) := by
        show (g.rows.map _)[i]? = _
        rw [List.getElem?_map, hr]
        rfl
      by_cases hnamed : (r.inUse && decide (r.scope = some j)) = true
      · rw [if_pos hnamed] at hrow
        rw [Bool.and_eq_true, decide_eq_true_eq] at hnamed
        exact .loosened j hnamed.2 hallowed.2.1 hrow
      · rw [if_neg hnamed] at hrow
        exact .kept hrow
  | _ => exact .kept hr

theorem Edit.rows_length (h : Edit ρ w g k) : k.rows.length = g.rows.length := by
  cases h with
  | aside haside => rw [haside.rows]
  | free attemptTtl now => exact List.length_mapIdx
  | reclaim j now closing _ => exact List.length_map _
  | _ => rfl

theorem Edit.numbered (h : Edit ρ w g k) (hnumbered : g.contexts.Numbered) :
    k.contexts.Numbered := by
  cases h with
  | aside haside => exact haside.numbered hnumbered
  | reclaim j now closing _ =>
      show (if (g.scopes j).implicit then g.contexts
        else (Context.close g.contexts (g.scopes j).key now).2).Numbered
      split
      · exact hnumbered
      · exact Context.numbered_close hnumbered _ now
  | _ => exact hnumbered

/-! ## The table stays tidy -/

theorem openOf_le {count : Nat} {g k : GatewayContext count} (implicit : Bool)
    (h : ∀ j, (k.scopes j).isOpen = true → (g.scopes j).isOpen = true ∧
      (k.scopes j).implicit = (g.scopes j).implicit) : k.openOf implicit ≤ g.openOf implicit := by
  apply List.countP_mono_left
  intro j _ hj
  rw [Bool.and_eq_true, decide_eq_true_eq] at hj ⊢
  obtain ⟨hopen, hkind⟩ := h j hj.1
  exact ⟨hopen, hkind.symm.trans hj.2⟩

theorem mem_slots (i : Slot) : i ∈ slots := List.mem_finRange i

theorem nodup_slots : slots.Nodup := List.nodup_finRange _

/-- A closed slot is given to a scope of some kind. -/
theorem openOf_seat {count : Nat} {g k : GatewayContext count} {i : Slot}
    (hclosed : (g.scopes i).isOpen = false) (hopen : (k.scopes i).isOpen = true)
    (hother : ∀ j, j ≠ i → k.scopes j = g.scopes j) (implicit : Bool) :
    k.openOf implicit =
      g.openOf implicit + if (k.scopes i).implicit = implicit then 1 else 0 := by
  have hrest : ∀ j, j ≠ i →
      ((k.scopes j).isOpen && decide ((k.scopes j).implicit = implicit)) =
        ((g.scopes j).isOpen && decide ((g.scopes j).implicit = implicit)) := by
    intro j hj
    rw [hother j hj]
  by_cases hkind : (k.scopes i).implicit = implicit
  · rw [if_pos hkind]
    apply Tally.countP_gain nodup_slots (mem_slots i)
    · rw [hclosed, Bool.false_and]
    · rw [hopen, Bool.true_and, decide_eq_true hkind]
    · exact hrest
  · rw [if_neg hkind, Nat.add_zero]
    apply List.countP_congr
    intro j _
    by_cases hj : j = i
    · rw [hj, hclosed, hopen, Bool.false_and, Bool.true_and, decide_eq_false hkind]
    · rw [hrest j hj]

/-- The scope of a slot leaves the table. -/
theorem openOf_leave {count : Nat} {g k : GatewayContext count} {i : Slot}
    (hopen : (g.scopes i).isOpen = true) (hclosed : (k.scopes i).isOpen = false)
    (hother : ∀ j, j ≠ i → k.scopes j = g.scopes j) :
    g.openOf (g.scopes i).implicit = k.openOf (g.scopes i).implicit + 1 := by
  have hseat := openOf_seat (g := k) (k := g) hclosed hopen (fun j hj => (hother j hj).symm)
    (g.scopes i).implicit
  rw [if_pos rfl] at hseat
  exact hseat

theorem Edit.closed (h : Edit ρ w g k) (htidy : Tidy g) {j : Slot}
    (hclosed : (k.scopes j).isOpen = false) : k.scopes j = {} := by
  cases h.slot j with
  | same hsame =>
      rw [hsame] at hclosed ⊢
      exact htidy.blank j hclosed
  | kept hopen hkept =>
      have hstill : (k.scopes j).isOpen = true :=
        (hkept.get (fun s => s.isOpen) fun _ => rfl).trans hopen
      rw [hclosed] at hstill
      cases hstill
  | left _ _ hzeroed => exact hzeroed
  | seated _ hopen _ _ _ _ =>
      rw [hclosed] at hopen
      cases hopen

/-- A change that opens no slot leaves the shares kept. -/
theorem Edit.openOf_le (h : Edit ρ w g k)
    (hopen : ∀ j, (k.scopes j).isOpen = true → (g.scopes j).isOpen = true) (implicit : Bool) :
    k.openOf implicit ≤ g.openOf implicit := by
  refine Gateway.openOf_le implicit fun j hj => ⟨hopen j hj, ?_⟩
  cases h.slot j with
  | same hsame => rw [hsame]
  | kept _ hkept => exact hkept.get (fun s => s.implicit) fun _ => rfl
  | left _ _ hzeroed =>
      rw [hzeroed] at hj
      cases hj
  | seated hclosed _ _ _ _ _ =>
      rw [hopen j hj] at hclosed
      cases hclosed

theorem Edit.tidy (h : Edit ρ w g k) (htidy : Tidy g) : Tidy k := by
  refine ⟨fun j hclosed => h.closed htidy hclosed, fun implicit => ?_⟩
  have hstay : (∀ j, (k.scopes j).isOpen = true → (g.scopes j).isOpen = true) →
      k.openOf implicit ≤ share implicit := fun hopen =>
    (h.openOf_le hopen implicit).trans (htidy.quota implicit)
  -- only two changes open a slot
  cases h with
  | register i task session branch now hclosed hroom _ _ =>
      have hscope : (Gateway.register i task session branch now g).scopes i = _ :=
        Function.update_self ..
      rw [openOf_seat hclosed (congrArg (fun s : Scope => s.isOpen) hscope)
        (fun j hj => Function.update_of_ne hj ..), hscope]
      dsimp only
      rw [htidy.blank i hclosed]
      cases implicit with
      | false =>
          rw [if_pos rfl]
          exact hroom
      | true =>
          rw [if_neg (by decide)]
          exact htidy.quota true
  | adopt i newcomer _ hclosed hroom =>
      have hscope : (g.adopt i newcomer).scopes i = _ := Function.update_self ..
      rw [openOf_seat hclosed (congrArg (fun s : Scope => s.isOpen) hscope)
        (fun j hj => Function.update_of_ne hj ..), hscope]
      dsimp only
      cases implicit with
      | false =>
          rw [if_neg (by decide)]
          exact htidy.quota false
      | true =>
          rw [if_pos rfl]
          exact hroom
  | aside haside => exact hstay fun j hj => haside.scopes ▸ hj
  | free attemptTtl now => exact hstay fun j hj => hj
  | reclaim i now closing hallowed =>
      apply hstay
      intro j hj
      by_cases hji : j = i
      · rw [hji]
        exact hallowed.1
      · rwa [show (g.scopeReclaim i now).scopes j = g.scopes j from Function.update_of_ne hji ..] at hj
  | mark scopes hmarked =>
      apply hstay
      intro j hj
      exact ((hmarked j).kept.get (fun s => s.isOpen) fun _ => rfl).symm.trans hj
  | label session labels _ _ =>
      apply hstay
      intro j hj
      rwa [show ((restrictSessions session { g with labels }).scopes j).isOpen = (g.scopes j).isOpen
        from GatewayContext.view_ite (fun s => s.isOpen) rfl] at hj
  | publish i result _ hpublishable =>
      exact hstay fun j hj => open_of_setScope hpublishable.isOpen hj
  | supersede i revision hopen => exact hstay fun j hj => open_of_setScope hopen hj
  | derive i hopen => exact hstay fun j hj => open_of_setScope hopen hj
  | accept i e revision now _ hacceptable =>
      exact hstay fun j hj => open_of_setScope hacceptable.isOpen hj
  | draw i t hopen _ _ => exact hstay fun j hj => open_of_setScope hopen hj

end Recursant.Gateway
