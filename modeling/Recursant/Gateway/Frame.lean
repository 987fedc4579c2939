import Recursant.Gateway.System
import Recursant.Gateway.Roster
import Recursant.Lib.Stateful

/-!
# What the functions of the gateway do to the roster

Most of them leave it alone; the others make one change or a short series of changes.
-/

namespace Recursant.Gateway

open Stateful

namespace GatewayContext

variable {count : Nat}

/-! ## Scopes -/

theorem view_ite {α : Type} (view : Scope → α) {p : Prop} [Decidable p] {s t : Scope}
    (h : view t = view s) : view (if p then t else s) = view s := by
  rw [apply_ite view, h, ite_self]

theorem roster_setScope (g : GatewayContext count) (i : Slot) (s : Scope) :
    (g.setScope i s).roster =
      { g.roster.put i s.toHolder with effort := Function.update g.roster.effort i s.reasoningAdded } := by
  have hview : ∀ {α : Type} (view : Scope → α),
      (fun j => view (Function.update g.scopes i s j)) =
        Function.update (fun j => view (g.scopes j)) i (view s) := by
    intro α view
    funext j
    rw [Function.update_apply, Function.update_apply]
    by_cases h : j = i
    · rw [if_pos h, if_pos h]
    · rw [if_neg h, if_neg h]
  unfold roster setScope Roster.put
  dsimp only
  rw [hview Scope.toHolder, hview Scope.reasoningAdded]

/-- A scope that changes neither its holder nor the field added to its request. -/
theorem roster_setScope_same (g : GatewayContext count) {i : Slot} {s : Scope}
    (hholder : s.toHolder = (g.scopes i).toHolder)
    (heffort : s.reasoningAdded = (g.scopes i).reasoningAdded) :
    (g.setScope i s).roster = g.roster := by
  rw [roster_setScope, hholder, heffort]
  unfold Roster.put
  have hsame : Function.update g.roster.holder i (g.scopes i).toHolder = g.roster.holder :=
    Function.update_eq_self i g.roster.holder
  have hadded : Function.update g.roster.effort i (g.scopes i).reasoningAdded = g.roster.effort :=
    Function.update_eq_self i g.roster.effort
  rw [hsame, hadded]

/-- A scope that changes its holder only. -/
theorem roster_setScope_put (g : GatewayContext count) {i : Slot} {s : Scope}
    (heffort : s.reasoningAdded = (g.scopes i).reasoningAdded) :
    (g.setScope i s).roster = g.roster.put i s.toHolder := by
  rw [roster_setScope, heffort]
  have hadded : Function.update g.roster.effort i (g.scopes i).reasoningAdded = g.roster.effort :=
    Function.update_eq_self i g.roster.effort
  rw [hadded]
  rfl

theorem roster_setScope_effort (g : GatewayContext count) {i : Slot} {s : Scope}
    (hholder : s.toHolder = (g.scopes i).toHolder) :
    (g.setScope i s).roster = g.roster.apply (.effort i s.reasoningAdded) := by
  rw [roster_setScope, hholder]
  unfold Roster.put Roster.apply
  have hsame : Function.update g.roster.holder i (g.scopes i).toHolder = g.roster.holder :=
    Function.update_eq_self i g.roster.holder
  rw [hsame]

theorem roster_scopeReclaim (g : GatewayContext count) (i : Slot) (now : Nat) (closing : Bool) :
    (g.scopeReclaim i now).roster = g.roster.apply (.vacate i closing) :=
  roster_setScope g i {}

/-! ## Rows, attempts and interpreter results -/

theorem roster_rowSlot (g : GatewayContext count) (attemptTtl now : Nat) :
    (g.rowSlot attemptTtl now).2.roster = g.roster := by
  unfold rowSlot
  split
  · rfl
  · split <;> rfl

theorem roster_exact (g : GatewayContext count) (authorization : Text) (row : Option Nat)
    (now : Nat) : (g.exact authorization row now).2.roster = g.roster := by
  unfold exact
  split
  · rfl
  · split <;> rfl

theorem roster_publish (g : GatewayContext count) (authorization : Text) (now : Nat)
    (result : InterpreterResult) : (g.publish authorization now result).roster = g.roster := by
  unfold publish
  split
  · rfl
  · next i _ =>
      simp only
      split
      · rfl
      · have hexact := roster_exact g authorization (g.scopes i).evidenceRow now
        split
        · next k hk =>
            rw [hk] at hexact
            exact hexact
        · next k hk =>
            rw [hk] at hexact
            split
            · have hholder := congrFun (congrArg Roster.holder hexact) i
              have heffort := congrFun (congrArg Roster.effort hexact) i
              refine Eq.trans (roster_setScope_same _ ?_ ?_) hexact
              · exact hholder.symm
              · exact heffort.symm
            · exact hexact

theorem roster_pollLocked (g : GatewayContext count) (authorization : Text) (now : Nat)
    (results : List InterpreterResult) :
    (g.pollLocked authorization now results).roster = g.roster := by
  unfold pollLocked
  induction results.take interpreterCapacity generalizing g with
  | nil => rfl
  | cons result results ih => exact (ih _).trans (roster_publish g authorization now result)

/-! ## Lookups -/

theorem scopeFind_eq_some {g : GatewayContext count} {generation branch : Text} {i : Slot}
    (h : g.scopeFind generation branch = some i) :
    (g.scopes i).isOpen = true ∧ (g.scopes i).implicit = false ∧
      (g.scopes i).generation = generation ∧ (g.scopes i).branch = branch := by
  have hfound := List.find?_some h
  simp only [Bool.and_eq_true, decide_eq_true_eq, Bool.not_eq_true'] at hfound
  exact ⟨hfound.1.1.1, hfound.1.1.2, hfound.1.2, hfound.2⟩

theorem scopeIdle_eq_some {g : GatewayContext count} {ttl now : Nat} {implicit : Bool} {i : Slot}
    (h : g.scopeIdle ttl now implicit = some i) :
    (g.scopes i).isOpen = true ∧ (g.scopes i).implicit = implicit ∧
      (g.scopes i).inflight = false ∧
      (implicit = true ∨ ((g.scopes i).boundary = none ∧ (g.scopes i).privateOnly = false)) := by
  have hidle := (Scan.best_eq_some h).2
  unfold idle at hidle
  simp only [Bool.and_eq_true, Bool.or_eq_true, decide_eq_true_eq, Bool.not_eq_true',
    Option.isNone_iff_eq_none] at hidle
  exact ⟨hidle.1.1.1.1.1, hidle.1.1.1.1.2, hidle.1.1.1.2, hidle.2⟩

/-- An idle scope may be vacated. -/
theorem scopeIdle_allowed {g : GatewayContext count} {sessions : Bool} {ttl now : Nat}
    {implicit : Bool} {i : Slot} (h : g.scopeIdle ttl now implicit = some i) :
    Roster.Allowed sessions g.roster (.vacate i false) := by
  obtain ⟨hopen, himplicit, hinflight, hkind⟩ := scopeIdle_eq_some h
  refine ⟨hopen, hinflight, ?_⟩
  show (g.scopes i).implicit = true ∨ (g.scopes i).privateOnly = false
  cases hkind with
  | inl hsession => exact .inl (himplicit.trans hsession)
  | inr hplain => exact .inr hplain.2

/-! ## Request-stream sessions -/

section Sessions

variable {ρ : Router} (g : GatewayContext ρ.settings.count)

theorem roster_handedOut (first : Option Text) : (g.handedOut first).2.roster = g.roster := by
  unfold handedOut
  split
  · rfl
  · unfold roster
    dsimp only
    congr 1
    · funext i
      exact view_ite Scope.toHolder rfl
    · funext i
      exact view_ite Scope.reasoningAdded rfl

theorem roster_lineage (i : Slot) (newcomer : Newcomer) (first : Option Text) :
    (g.lineage i newcomer first).roster = g.roster := by
  unfold lineage
  have hscope := roster_setScope_same (g.handedOut first).2 (i := i)
    (s := { (g.handedOut first).2.scopes i with
      delegated := ((g.handedOut first).2.scopes i).delegated ||
        (g.handedOut first).2.hinted newcomer.ident newcomer.now || (g.handedOut first).1 })
    rfl rfl
  exact hscope.trans (roster_handedOut g first)

theorem roster_adopt (i : Slot) (newcomer : Newcomer) :
    (g.adopt i newcomer).roster = g.roster.apply (.adopt i newcomer.ident) := by
  have hput := roster_setScope_put g (i := i) (s := { g.scopes i with
    isOpen := true
    implicit := true
    serial := g.opened + 1
    active := newcomer.now
    anchor := newcomer.anchor
    ident := newcomer.ident
    lastRow := none
    evidenceRow := none
    privateOnly := (g.scopes i).privateOnly ||
      (newcomer.ident ≠ [] && g.labels.contains newcomer.ident) }) rfl
  exact congrArg (fun r => { r with opened := g.opened + 1 }) hput

/-- The session of a conversation, between two exchanges. -/
structure Session (r : Roster) (ident : Text) (i : Slot) : Prop where
  isOpen : (r.holder i).isOpen = true
  implicit : (r.holder i).implicit = true
  ident : (r.holder i).ident = ident
  idle : (r.holder i).inflight = false

theorem unused_eq_some {p : Bool} {i : Slot}
    (h : (slots.find? fun j => !(g.scopes j).isOpen).filter (fun _ => p) = some i) :
    (g.scopes i).isOpen = false := by
  have hunused := List.find?_some (Option.filter_eq_some_iff.mp h).1
  rwa [Bool.not_eq_true'] at hunused

/-- A slot for a new scope is a closed one, or one that is vacated for it. -/
theorem vacantSlot_path (sessions : Bool) (ttl now : Nat) (implicit : Bool) {unused : Option Slot}
    (hunused : ∀ j, unused = some j → (g.scopes j).isOpen = false) :
    ∃ cs, Roster.Path sessions g.roster cs (g.vacantSlot ttl now implicit unused).2.roster ∧
      (∀ c ∈ cs, c.Seats) ∧ ∀ i, (g.vacantSlot ttl now implicit unused).1 = some i →
        ((g.vacantSlot ttl now implicit unused).2.roster.holder i).isOpen = false := by
  have hnil : ∀ c ∈ ([] : List Change), c.Seats := fun c hc => (List.not_mem_nil hc).elim
  cases unused with
  | some j =>
      refine ⟨[], .nil _, hnil, fun i hi => ?_⟩
      obtain rfl := Option.some.inj hi
      exact hunused j rfl
  | none =>
      unfold vacantSlot
      cases hidle : g.scopeIdle ttl now implicit with
      | none => exact ⟨[], .nil _, hnil, fun i hi => nomatch hi⟩
      | some j =>
          dsimp only
          rw [roster_scopeReclaim g j now false]
          refine ⟨_, .single (scopeIdle_allowed hidle), ?_, ?_⟩
          · intro c hc
            rw [List.mem_singleton.mp hc]
            rfl
          · intro i hi
            obtain rfl := Option.some.inj hi
            show ((g.roster.put j {}).holder j).isOpen = false
            rw [Roster.holder_put_self]

theorem sessionSlot_path (sessions : Bool) (now : Nat) :
    ∃ cs, Roster.Path sessions g.roster cs (g.sessionSlot now).2.roster ∧ (∀ c ∈ cs, c.Seats) ∧
      ∀ i, (g.sessionSlot now).1 = some i →
        ((g.sessionSlot now).2.roster.holder i).isOpen = false :=
  vacantSlot_path g sessions _ _ _ fun _ => unused_eq_some g

theorem continuation_eq_some {anchor : UInt64} {ident : Text} {messages : List Json} {i : Slot}
    (h : g.continuation anchor ident messages = some i) :
    (g.scopes i).isOpen = true ∧ (g.scopes i).implicit = true ∧ (g.scopes i).ident = ident := by
  have hfound := (Scan.best_eq_some h).2
  simp only [Bool.and_eq_true, decide_eq_true_eq] at hfound
  exact ⟨hfound.1.1.1.1, hfound.1.1.1.2, hfound.1.2⟩

/-- A new session is between two exchanges. -/
theorem session_adopt {r : Roster} {sessions : Bool} (hsound : Roster.Sound sessions r) {i : Slot}
    (hclosed : (r.holder i).isOpen = false) (ident : Text) :
    Session (r.apply (.adopt i ident)) ident i := by
  have hempty := hsound.empty i hclosed
  constructor
  · exact congrArg Holder.isOpen (Roster.holder_put_self r i _)
  · exact congrArg Holder.implicit (Roster.holder_put_self r i _)
  · exact congrArg Holder.ident (Roster.holder_put_self r i _)
  · have hidle : (r.holder i).inflight = false := by rw [hempty]
    exact (congrArg Holder.inflight (Roster.holder_put_self r i _)).trans hidle

theorem implicitScope_path (hsessions : ρ.settings.implicit = true)
    (hsound : Roster.Sound ρ.settings.implicit g.roster) (body : Json) (h : GatewayHeaders)
    (now : Nat) :
    ∃ cs, Roster.Path ρ.settings.implicit g.roster cs (g.implicitScope body h now).2.roster ∧
      (∀ c ∈ cs, c.Seats) ∧
      ∀ i, (g.implicitScope body h now).1 = some i →
        Session (g.implicitScope body h now).2.roster ((sessionIdent h).getD []) i := by
  have hnil : ∀ c ∈ ([] : List Change), c.Seats := fun c hc => (List.not_mem_nil hc).elim
  unfold implicitScope
  simp only
  split
  · exact ⟨[], .nil _, hnil, fun i hi => nomatch hi⟩
  · next o _ =>
      split
      · next found hfound =>
          refine ⟨[], .nil _, hnil, fun i hi => ?_⟩
          have hcontinues : g.continuation o.anchor ((sessionIdent h).getD [])
              (elementsAt body "messages") = some found := by
            split at hfound
            · cases hfound
            · exact hfound
          obtain ⟨hopen, himplicit, hident⟩ := continuation_eq_some g hcontinues
          by_cases hinflight : (g.scopes found).inflight = true
          · rw [if_pos hinflight] at hi
            cases hi
          · rw [if_neg hinflight] at hi
            obtain rfl := Option.some.inj hi
            exact ⟨hopen, himplicit, hident, Bool.not_eq_true _ ▸ hinflight⟩
      · obtain ⟨cs, path, hseats, hclosed⟩ := sessionSlot_path g ρ.settings.implicit now
        split
        · next k hk =>
            rw [hk] at path
            exact ⟨cs, path, hseats, fun i hi => nomatch hi⟩
        · next j k hk =>
            rw [hk] at path hclosed
            have hclosed := hclosed j rfl
            have hadopt := roster_adopt k j ⟨o.anchor, (sessionIdent h).getD [], now⟩
            have hroster : (if o.start then
                (k.adopt j ⟨o.anchor, (sessionIdent h).getD [], now⟩).lineage j
                  ⟨o.anchor, (sessionIdent h).getD [], now⟩ o.first
                else k.adopt j ⟨o.anchor, (sessionIdent h).getD [], now⟩).roster =
                k.roster.apply (.adopt j ((sessionIdent h).getD [])) := by
              split
              · exact (roster_lineage _ _ _ _).trans hadopt
              · exact hadopt
            have hall : Roster.Path ρ.settings.implicit g.roster (cs ++ [_]) _ :=
              path.append (.single (c := .adopt j ((sessionIdent h).getD [])) ⟨hsessions, hclosed⟩)
            refine ⟨_, hroster ▸ hall, ?_, ?_⟩
            · intro c hc
              rw [List.mem_append, List.mem_singleton] at hc
              exact hc.elim (hseats c) fun heq => heq ▸ trivial
            · intro i hi
              obtain rfl := Option.some.inj hi
              rw [hroster]
              exact session_adopt (path.sound hsound) hclosed _

end Sessions

end GatewayContext

/-! ## Events -/

section Events

open GatewayContext
open Compliance (Runtime)

variable {ρ : Router} (g : GatewayContext ρ.settings.count)

theorem roster_register (i : Slot) (task session branch : Text) (now : Nat) :
    (register i task session branch now g).roster =
      g.roster.apply (.register i task session branch (generationName g.boot (g.generations + 1))) := by
  have hput := roster_setScope_put g (i := i) (s := { g.scopes i with
    isOpen := true
    active := now
    task, session, branch
    generation := generationName g.boot (g.generations + 1)
    serial := g.opened + 1
    lastRow := none
    evidenceRow := none
    key := ⟨ρ.settings.tenant, ρ.settings.project, generationName g.boot (g.generations + 1), branch,
      "trajectory", "aggregate"⟩ }) rfl
  exact congrArg (fun r => { r with opened := g.opened + 1 }) hput

theorem openScope_path (body : Json) (now : Nat) :
    ∃ cs, Roster.Path ρ.settings.implicit g.roster cs (openScope body now g).2.roster ∧
      ∀ c ∈ cs, c.Seats := by
  have hnil : ∀ c ∈ ([] : List Change), c.Seats := fun c hc => (List.not_mem_nil hc).elim
  unfold openScope
  split
  · next task session branch _ _ _ =>
      split
      · exact ⟨[], .nil _, hnil⟩
      · split
        · exact ⟨[], .nil _, hnil⟩
        · obtain ⟨cs, path, hseats, hclosed⟩ := vacantSlot_path g ρ.settings.implicit
            ρ.settings.ttl now false (fun _ => unused_eq_some g (p := decide ((slots.countP fun i =>
              (g.scopes i).isOpen && !(g.scopes i).implicit) < explicitScopes)))
          split
          · next k hk =>
              unfold registeredSlot at hk
              rw [hk] at path
              exact ⟨cs, path, hseats⟩
          · next i k hk =>
              unfold registeredSlot at hk
              rw [hk] at path hclosed
              split
              · exact ⟨cs, path, hseats⟩
              · dsimp only
                rw [roster_register]
                refine ⟨_, path.append (.single (hclosed i rfl)), ?_⟩
                intro c hc
                rw [List.mem_append, List.mem_singleton] at hc
                exact hc.elim (hseats c) fun heq => heq ▸ trivial
  · exact ⟨[], .nil _, hnil⟩

/-- What a close that was answered 200 found. -/
structure Closes (body : Json) (h : Holder) : Prop where
  generation : token body "generation" 32 = some h.generation
  branch : token body "branch" 63 = some h.branch

theorem close_path (body : Json) (now : Nat) :
    (close body now g).2.roster = g.roster ∨
      ∃ i, (close body now g).1 = 200 ∧ Closes body (g.roster.holder i) ∧
        Roster.Allowed ρ.settings.implicit g.roster (.vacate i true) ∧
        (close body now g).2.roster = g.roster.apply (.vacate i true) := by
  unfold close
  split
  · next generation branch hgeneration hbranch =>
      split
      · exact .inl rfl
      · split
        · exact .inl rfl
        · next i hfind =>
            by_cases hinflight : (g.scopes i).inflight = true
            · rw [if_pos hinflight]
              exact .inl rfl
            · rw [if_neg hinflight]
              obtain ⟨hopen, himplicit, hgen, hbr⟩ := scopeFind_eq_some hfind
              refine .inr ⟨i, rfl, ⟨?_, ?_⟩, ⟨hopen, ?_, himplicit⟩, roster_scopeReclaim g i now true⟩
              · rw [hgeneration, ← hgen]
                rfl
              · rw [hbranch, ← hbr]
                rfl
              · exact Bool.not_eq_true _ ▸ hinflight
  · exact .inl rfl

theorem roster_restrictSessions (session : Text) (labels : List Text) :
    (restrictSessions session { g with labels }).roster =
      { g.roster with holder := fun i => Roster.restricted session (g.roster.holder i), labels } := by
  unfold restrictSessions roster
  dsimp only
  congr 1
  · funext i
    unfold Roster.restricted
    split <;> rfl
  · funext i
    exact view_ite Scope.reasoningAdded rfl

/-- A label that fits the table restricts its session. -/
theorem roster_restrictHint {session : Text} {k : GatewayContext ρ.settings.count}
    (h : restrictHint session true g = some k) :
    k.roster = g.roster.apply (.label session) := by
  unfold restrictHint addLabel at h
  rw [if_pos rfl] at h
  by_cases hcontains : g.labels.contains session = true
  · rw [if_pos hcontains] at h
    rw [← Option.some.inj h, roster_restrictSessions]
    unfold Roster.apply
    dsimp only
    rw [if_pos (show g.roster.labels.contains session = true from hcontains)]
    rfl
  · rw [if_neg hcontains] at h
    by_cases hroom : g.labels.length < maxLabels
    · rw [if_pos hroom] at h
      rw [← Option.some.inj h, roster_restrictSessions]
      unfold Roster.apply
      dsimp only
      rw [if_neg (show ¬ g.roster.labels.contains session = true from hcontains)]
      rfl
    · rw [if_neg hroom] at h
      cases h

theorem parseHint_session {body : Json} {session : Text} {role : Option Bool} {restricted : Bool}
    (h : parseHint body = some (session, role, restricted)) :
    token body "session_id" 128 = some session := by
  unfold parseHint at h
  cases htoken : token body "session_id" 128 with
  | none =>
      rw [htoken] at h
      cases h
  | some found =>
      rw [htoken] at h
      simp only [Option.bind_eq_bind, Option.bind_some] at h
      obtain ⟨_, -, h⟩ := Option.bind_eq_some_iff.mp h
      rw [← (Prod.mk.inj (Option.some.inj h)).1]

theorem token_ne_nil {o : Json} {key t : Text} {max : Nat} (h : token o key max = some t) :
    t ≠ [] := by
  have hok := (Option.filter_eq_some_iff.mp h).2
  simp only [Bool.and_eq_true, decide_eq_true_eq] at hok
  exact hok.1.1

/-- A hint labels its session, or changes no holder and no label. -/
theorem hint_path (body : Json) (now : Nat) :
    (hint body now g).2.roster = g.roster ∨
      ∃ session, Roster.Allowed ρ.settings.implicit g.roster (.label session) ∧
        (hint body now g).2.roster = g.roster.apply (.label session) := by
  unfold hint
  by_cases hsessions : ρ.settings.implicit = true
  · rw [hsessions, if_neg (by decide)]
    split
    · exact .inl rfl
    · next session role restricted hparse =>
        split
        · exact .inl rfl
        · next k hk =>
            cases restricted with
            | false =>
                unfold restrictHint at hk
                rw [if_neg (by decide)] at hk
                obtain rfl := Option.some.inj hk
                exact .inl rfl
            | true =>
                have hlabel := roster_restrictHint g hk
                exact .inr ⟨session, ⟨rfl, token_ne_nil (parseHint_session hparse)⟩, hlabel⟩
  · rw [if_pos (by simpa using hsessions)]
    exact .inl rfl

/-- A restriction that was accepted is in force. -/
theorem hint_accepted {body : Json} {now : Nat} {session : Text} {role : Option Bool}
    (hparse : parseHint body = some (session, role, true)) (h : (hint body now g).1 = 202) :
    session ∈ (hint body now g).2.labels := by
  unfold hint at h ⊢
  by_cases hsessions : ρ.settings.implicit = true
  · rw [hsessions, if_neg (by decide), hparse] at h ⊢
    dsimp only at h ⊢
    split at h
    · cases h
    · next k hk =>
        have hlabels := congrArg Roster.labels (roster_restrictHint g hk)
        show session ∈ k.labels
        rw [show k.labels = _ from hlabels]
        show session ∈ (if g.labels.contains session then g.labels else g.labels ++ [session])
        split
        · next hcontains => exact List.contains_iff_mem.mp hcontains
        · exact List.mem_append_right _ (List.mem_singleton_self _)
  · rw [if_pos (by simpa using hsessions)] at h
    cases h

/-! ### Source events -/

theorem roster_supersede (i : Slot) (revision : Nat) :
    (g.setScope i (supersede revision (g.scopes i))).roster = g.roster := by
  apply roster_setScope_same
  · unfold supersede
    split <;> rfl
  · unfold supersede
    split <;> rfl

theorem deriveAuthority_path {r : Runtime} {i : Slot} (texts : List Text)
    (hopen : (g.scopes i).isOpen = true) (hregistered : (g.scopes i).implicit = false) :
    (deriveAuthority r i texts g).roster = g.roster ∨
      Roster.Allowed ρ.settings.implicit g.roster (.derive i) ∧
        (deriveAuthority r i texts g).roster = g.roster.apply (.derive i) := by
  unfold deriveAuthority
  split
  · exact .inr ⟨⟨hopen, hregistered⟩, roster_setScope_put g rfl⟩
  · exact .inl rfl

theorem roster_acceptEvidence (i : Slot) (e : Evidence) (revision now : Nat) (submitted : Bool) :
    (acceptEvidence i e revision now submitted g).2.roster = g.roster := by
  unfold acceptEvidence
  simp only
  split
  · next k hk =>
      have hroster : k.roster = _ := congrArg (fun answer => answer.2.roster) hk.symm
      exact hroster.trans (roster_exact _ _ _ _)
  · next k hk =>
      have hroster : k.roster = _ := congrArg (fun answer => answer.2.roster) hk.symm
      have hexact := hroster.trans (roster_exact _ _ _ _)
      split
      · exact hexact
      · refine Eq.trans (roster_setScope_same _ ?_ ?_) hexact <;> rfl

/-- An ingested event gives its scope authority, or changes no holder. -/
theorem ingest_path (r : Runtime) (body : Json) (now : Nat) (submitted : Bool) :
    (ingest r body now submitted g).2.roster = g.roster ∨
      ∃ i, Roster.Allowed ρ.settings.implicit g.roster (.derive i) ∧
        (ingest r body now submitted g).2.roster = g.roster.apply (.derive i) := by
  unfold ingest
  split
  · next generation branch revision _ _ _ =>
      split
      · exact .inl rfl
      · split
        · exact .inl rfl
        · next i hfind =>
            obtain ⟨hopen, hregistered, -, -⟩ := scopeFind_eq_some hfind
            have hsuperseded := roster_supersede g i revision
            have hholder := congrFun (congrArg Roster.holder hsuperseded) i
            dsimp only
            split
            · exact .inl hsuperseded
            · split
              · exact .inl hsuperseded
              · split
                · exact .inl hsuperseded
                · next e _ =>
                    have hderive := deriveAuthority_path (ρ := ρ) (r := r)
                      (g.setScope i (supersede revision (g.scopes i))) (i := i) e.texts
                      ((congrArg Holder.isOpen hholder).trans hopen)
                      ((congrArg Holder.implicit hholder).trans hregistered)
                    rw [roster_acceptEvidence]
                    rw [hsuperseded] at hderive
                    cases hderive with
                    | inl hsame => exact .inl hsame
                    | inr hgained => exact .inr ⟨i, hgained⟩
  · exact .inl rfl

/-! ### The judge -/

theorem roster_recordJudgement (j : Judgement) (now : Nat) :
    (recordJudgement (ρ := ρ) j now g).roster = g.roster := by
  unfold recordJudgement
  split
  · rfl
  · split
    · rfl
    · split <;> rfl

end Events

/-! ## Exchanges -/

section Exchanges

open Compliance (Gated)

variable {ρ : Router}

theorem GatewayContext.mustBePrivate_congr {count : Nat} {g k : GatewayContext count}
    (hholder : k.roster.holder = g.roster.holder) (hlabels : k.labels = g.labels)
    (implicit : Bool) (scope : Option Slot) (h : GatewayHeaders) :
    k.mustBePrivate implicit scope h = g.mustBePrivate implicit scope h := by
  unfold mustBePrivate labelled
  rw [hlabels]
  cases scope with
  | none => rfl
  | some i => exact congrArg Holder.privateOnly (congrFun hholder i)

/-! ### Failover -/

/-- The ticket's scope and how far its exchange is. -/
structure SameTicket {count : Nat} (t u : Ticket count) : Prop where
  scope : u.scope = t.scope
  begun : u.begun = t.begun
  finished : u.finished = t.finished

theorem SameTicket.refl {count : Nat} (t : Ticket count) : SameTicket t t := ⟨rfl, rfl, rfl⟩

theorem SameTicket.trans {count : Nat} {t u v : Ticket count} (first : SameTicket t u)
    (second : SameTicket u v) : SameTicket t v :=
  ⟨second.scope.trans first.scope, second.begun.trans first.begun,
    second.finished.trans first.finished⟩

/-- The reasoning field that the request in flight of the ticket's scope carries. -/
def Prep.effort (p : Prep ρ) : Option Family := p.ticket.scope.bind p.gateway.roster.effort

/-- The body without the reasoning field that was added to it. -/
def Prep.plain (p : Prep ρ) : Json := removeEffort p.body p.effort

/-- The roster after the reasoning field was withdrawn from a scope. -/
def Roster.withdraw (r : Roster) (scope : Option Slot) : Roster :=
  scope.elim r fun i => r.apply (.effort i none)

/-- Withdrawing the field of the request leaves a body that nothing is added to. -/
structure Withdrawn (p q : Prep ρ) : Prop where
  roster : q.gateway.roster = p.gateway.roster.withdraw p.ticket.scope
  body : q.body = p.plain
  effort : q.effort = none
  ticket : q.ticket = p.ticket
  endpoint : q.endpoint = p.endpoint
  vetted : q.vetted = p.vetted

theorem withdrawEffort_spec (p : Prep ρ) : Withdrawn p (withdrawEffort p) := by
  unfold withdrawEffort
  split
  · next hscope =>
      have hnone : p.effort = none := by
        unfold Prep.effort
        rw [hscope]
        rfl
      refine ⟨?_, ?_, hnone, rfl, rfl, rfl⟩
      · rw [hscope]
        rfl
      · unfold Prep.plain
        rw [hnone]
        rfl
  · next i hscope =>
      have hroster := GatewayContext.roster_setScope_effort p.gateway (i := i)
        (s := { p.gateway.scopes i with reasoningAdded := none }) rfl
      refine ⟨?_, ?_, ?_, rfl, rfl, rfl⟩
      · rw [hscope]
        exact hroster
      · unfold Prep.plain Prep.effort
        rw [hscope]
        rfl
      · unfold Prep.effort
        dsimp only
        rw [hscope]
        exact (congrArg (fun r => r.effort i) hroster).trans (Function.update_self ..)

theorem Roster.withdraw_holder (r : Roster) (scope : Option Slot) :
    (r.withdraw scope).holder = r.holder ∧ (r.withdraw scope).labels = r.labels := by
  cases scope with
  | none => exact ⟨rfl, rfl⟩
  | some i => exact ⟨rfl, rfl⟩

theorem failoverTarget_eq_some {g : GatewayContext ρ.settings.count}
    {vetting : Json → Endpoint → Gated} {scope : Option Slot} {restricted : Bool} {body : Json}
    {source : ρ.Index} {largerThan now : Nat} {i : ρ.Index}
    (h : failoverTarget ρ g vetting scope restricted body source largerThan now = some i) :
    (restricted = true → (ρ.candidate i).destination.endpoint = .priv) ∧
      permits vetting body (ρ.candidate i).destination = true := by
  have htest := (Scan.best_eq_some h).2
  simp only [Bool.and_eq_true, Bool.or_eq_true, decide_eq_true_eq, Bool.not_eq_true'] at htest
  refine ⟨fun hrestricted => ?_, htest.2⟩
  rw [hrestricted] at htest
  exact htest.1.1.2.resolve_left fun h => nomatch h

theorem failOver_eq_some {g : GatewayContext ρ.settings.count}
    {vetting : Json → Endpoint → Gated} {scope : Option Slot} {restricted : Bool}
    {body changed : Json} {source : ρ.Index} {largerThan now : Nat} {endpoint : Endpoint}
    (h : failOver ρ g vetting scope restricted body source largerThan now =
      some (changed, endpoint)) :
    ∃ i, failoverTarget ρ g vetting scope restricted body source largerThan now = some i ∧
      body.set? "model" (some (.string (ρ.candidate i).destination.model)) = some changed ∧
      endpoint = (ρ.candidate i).destination.endpoint := by
  unfold failOver at h
  split at h
  · cases h
  · next i htarget =>
      obtain ⟨found, hset, hpair⟩ := Option.map_eq_some_iff.mp h
      obtain ⟨rfl, rfl⟩ := Prod.mk.inj hpair
      exact ⟨i, htarget, hset, rfl⟩

/-- What a failover that found a target leaves behind. -/
structure Moved (vetting : Json → Endpoint → Gated) (h : GatewayHeaders) (p : Prep ρ)
    (i : ρ.Index) (q : Prep ρ) : Prop where
  begun : p.ticket.begun = true
  endpoint : q.endpoint = (ρ.candidate i).destination.endpoint
  body : p.plain.set? "model" (some (.string (ρ.candidate i).destination.model)) = some q.body
  permitted : permits vetting p.plain (ρ.candidate i).destination = true
  restricted : p.gateway.mustBePrivate ρ.settings.implicit p.ticket.scope h = true →
    q.endpoint = .priv

/-- What every failover does: it withdraws the reasoning field at most, and the model is all that it
writes. -/
structure Retried (p q : Prep ρ) : Prop where
  roster : q.gateway.roster = p.gateway.roster ∨
    (p.ticket.begun = true ∧ q.gateway.roster = p.gateway.roster.withdraw p.ticket.scope)
  ticket : SameTicket p.ticket q.ticket
  vetted : q.vetted = p.vetted
  body : ∀ k, k ≠ text "model" → q.plain.get? k = p.plain.get? k

theorem Retried.refl (p : Prep ρ) : Retried p p := ⟨.inl rfl, .refl _, rfl, fun _ _ => rfl⟩

theorem roster_moved (p : Prep ρ) (limit : Nat) :
    (moved p limit).gateway.roster = p.gateway.roster := by
  unfold moved
  simp only
  split
  · rfl
  · exact GatewayContext.roster_setScope_same _ rfl rfl

theorem effort_moved (p : Prep ρ) (limit : Nat) : (moved p limit).effort = p.effort := by
  unfold Prep.effort
  rw [roster_moved]
  rfl

theorem retried_withdrawEffort {p : Prep ρ} (hbegun : p.ticket.begun = true) :
    Retried p (withdrawEffort p) := by
  have hspec := withdrawEffort_spec p
  refine ⟨.inr ⟨hbegun, hspec.roster⟩, hspec.ticket ▸ .refl _, hspec.vetted, ?_⟩
  intro k _
  unfold Prep.plain
  rw [hspec.effort, hspec.body]
  rfl

/-- A request whose field was withdrawn is readdressed. -/
theorem Retried.moved {p : Prep ρ} {body : Json} {endpoint : Endpoint} {model : Text} (limit : Nat)
    (hbegun : p.ticket.begun = true)
    (hset : (withdrawEffort p).body.set? "model" (some (.string model)) = some body) :
    Retried p (moved { withdrawEffort p with body, endpoint } limit) := by
  have hold := retried_withdrawEffort hbegun
  have hspec := withdrawEffort_spec p
  refine ⟨?_, ⟨hold.ticket.scope, hold.ticket.begun, hold.ticket.finished⟩, hold.vetted, ?_⟩
  · rw [roster_moved]
    exact hold.roster
  · intro k hk
    have hnone : ({ withdrawEffort p with body, endpoint } : Prep ρ).effort = none := hspec.effort
    show (removeEffort body (Gateway.moved { withdrawEffort p with body, endpoint } limit).effort).get? k = _
    rw [effort_moved, hnone]
    show body.get? k = _
    rw [Json.get?_set? hset, if_neg hk, hspec.body]

theorem failover_spec (vetting : Json → Endpoint → Gated) (automatic : Bool) (h : GatewayHeaders)
    (context : Bool) (now : Nat) (p : Prep ρ) :
    Retried p (failover vetting automatic h context now p).2 ∧
      ((failover vetting automatic h context now p).1 = true →
        ∃ i, Moved vetting h p i (failover vetting automatic h context now p).2) := by
  unfold failover
  split
  · exact ⟨.refl p, fun hmoved => nomatch hmoved⟩
  · next hgo =>
      have hbegun : p.ticket.begun = true := by
        simp only [Bool.or_eq_true, Bool.not_eq_true', not_or, Bool.not_eq_false] at hgo
        exact hgo.1.2
      split
      · exact ⟨.refl p, fun hmoved => nomatch hmoved⟩
      · next source _ =>
          simp only
          split
          · exact ⟨retried_withdrawEffort hbegun, fun hmoved => nomatch hmoved⟩
          · next body endpoint hover =>
              have hspec := withdrawEffort_spec p
              obtain ⟨i, htarget, hbody, rfl⟩ := failOver_eq_some hover
              refine ⟨.moved _ hbegun hbody, fun _ => ?_⟩
              have hsame := p.gateway.roster.withdraw_holder p.ticket.scope
              rw [← hspec.roster] at hsame
              have hauthority := GatewayContext.mustBePrivate_congr hsame.1 hsame.2
                ρ.settings.implicit p.ticket.scope h
              rw [hspec.ticket, hauthority] at htarget
              obtain ⟨hprivate, hpermits⟩ := failoverTarget_eq_some htarget
              rw [hspec.body] at hbody hpermits
              exact ⟨i, hbegun, rfl, hbody, hpermits, hprivate⟩

/-! ### Outcomes, shadows and the end -/

theorem roster_noteOutcome (g : GatewayContext ρ.settings.count) (endpoint : Endpoint)
    (model : Option Text) (status retryAfterMs now : Nat) :
    (noteOutcome g endpoint model status retryAfterMs now).roster = g.roster := by
  unfold noteOutcome
  split <;> rfl

theorem roster_shadowSample (config : Shadow ρ.settings.count)
    (g : GatewayContext ρ.settings.count) : (shadowSample config g).2.roster = g.roster := by
  unfold shadowSample
  split
  · rfl
  · split
    · rfl
    · simp only
      split <;> rfl

/-- Neither the roster nor the request and how far it is changes. -/
structure Beside (p q : Prep ρ) : Prop where
  roster : q.gateway.roster = p.gateway.roster
  body : q.body = p.body
  endpoint : q.endpoint = p.endpoint
  ticket : SameTicket p.ticket q.ticket
  vetted : q.vetted = p.vetted

theorem Beside.refl (p : Prep ρ) : Beside p p := ⟨rfl, rfl, rfl, .refl _, rfl⟩

theorem Beside.trans {p q o : Prep ρ} (first : Beside p q) (second : Beside q o) : Beside p o :=
  ⟨second.roster.trans first.roster, second.body.trans first.body,
    second.endpoint.trans first.endpoint, first.ticket.trans second.ticket,
    second.vetted.trans first.vetted⟩

theorem shadow_beside (vetting : Json → Endpoint → Gated) (automatic : Bool) (h : GatewayHeaders)
    (started : Bool) (p : Prep ρ) : Beside p (shadow vetting automatic h started p).2 := by
  unfold shadow
  split
  · next config i _ _ =>
      split
      · exact .refl p
      · simp only
        split
        · exact .refl p
        · have hsample := roster_shadowSample config p.gateway
          split
          · exact ⟨hsample, rfl, rfl, .refl _, rfl⟩
          · exact ⟨hsample, rfl, rfl, ⟨rfl, rfl, rfl⟩, rfl⟩
  · exact .refl p

theorem noteUsage_effort (s : Scope) (seen : Option UsageObservation) (cachedBounded : Bool) :
    (noteUsage (ρ := ρ) s seen cachedBounded).reasoningAdded = s.reasoningAdded := by
  unfold noteUsage
  simp only
  split
  · split
    · split
      · simp only [apply_ite Scope.reasoningAdded, ite_self]
      · simp only [apply_ite Scope.reasoningAdded, ite_self]
    · simp only [apply_ite Scope.reasoningAdded, ite_self]
  · simp only [apply_ite Scope.reasoningAdded, ite_self]

theorem closeTurn_effort (s : Scope) (toolResponse safe : Bool) (message reasoning : Option Json) :
    (closeTurn (ρ := ρ) s toolResponse safe message reasoning).reasoningAdded =
      s.reasoningAdded := by
  unfold closeTurn keepBoundary
  simp only
  split
  · split <;> rfl
  · split
    · rfl
    · split <;> rfl

/-- The end of an exchange that had begun releases its scope. -/
theorem finish_spec (f : Finish) (now : Nat) (g : GatewayContext ρ.settings.count)
    (t : Ticket ρ.settings.count) :
    (t.begun = false ∨ t.finished = true) ∧ (finish f now g t).1.roster = g.roster ∧
        (finish f now g t).2.1 = t ∨
      (t.begun = true ∧ t.finished = false) ∧ (finish f now g t).2.1.begun = false ∧
        (finish f now g t).2.1.finished = true ∧
        (finish f now g t).2.1.scope = t.scope ∧
        (finish f now g t).1.roster =
          t.scope.elim g.roster fun i => g.roster.apply (.release i) := by
  unfold finish
  split
  · next hidle =>
      refine .inl ⟨?_, rfl, rfl⟩
      simpa using hidle
  · next hgo =>
      have hgo : t.begun = true ∧ t.finished = false := by simpa using hgo
      refine .inr ⟨hgo, ?_⟩
      simp only
      split
      · next hscope =>
          refine ⟨rfl, rfl, rfl, ?_⟩
          rw [hscope]
          rfl
      · next i hscope =>
          refine ⟨rfl, rfl, rfl, ?_⟩
          rw [hscope]
          have heffort : (finishScope (ρ := ρ) f now ((settleTicket g t f.complete now).scopes i)).1.reasoningAdded =
              (g.scopes i).reasoningAdded := by
            unfold finishScope
            simp only
            rw [closeTurn_effort, noteUsage_effort]
            rfl
          exact GatewayContext.roster_setScope_put (settleTicket g t f.complete now) heffort

end Exchanges

end Recursant.Gateway
