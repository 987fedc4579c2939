import Recursant.Gateway.Fence

/-!
# The identities of scopes

The shares of the scope table, and the names by which registered scopes are found: no two open ones
share their task, session and branch, and a generation is issued once.
-/

namespace Recursant.Gateway

open Compliance (Gated)
open Stateful

variable {ρ : Router} {w : Intake} {s t : State ρ} {event : Event} {answer : Answer}

/-! ## Generation names -/

theorem hexDigit_injective {a b : Nat} (ha : a < 16) (hb : b < 16)
    (h : hexDigit a = hexDigit b) : a = b := by
  have hall : ∀ i j : Fin 16, hexDigit i = hexDigit j → i = j := by decide
  exact congrArg Fin.val (hall ⟨a, ha⟩ ⟨b, hb⟩ h)

/-- Numbers whose first hexadecimal digits agree. -/
theorem mod_eq_of_digits {a b : Nat} (n : Nat)
    (h : ∀ k < n, a / 16 ^ k % 16 = b / 16 ^ k % 16) : a % 16 ^ n = b % 16 ^ n := by
  induction n with
  | zero => rw [pow_zero, Nat.mod_one, Nat.mod_one]
  | succ n ih =>
      rw [Nat.mod_pow_succ, Nat.mod_pow_succ, ih fun k hk => h k (by omega), h n (by omega)]

theorem hex16_injective {a b : Nat} (ha : a ≤ uint64Max) (hb : b ≤ uint64Max)
    (h : hex16 a = hex16 b) : a = b := by
  have hdigits : ∀ k < 16, a / 16 ^ k % 16 = b / 16 ^ k % 16 := by
    intro k hk
    have hmem : k ∈ (List.range 16).reverse := List.mem_reverse.mpr (List.mem_range.mpr hk)
    have hdigit := List.map_inj_left.mp h k hmem
    exact hexDigit_injective (Nat.mod_lt _ (by decide)) (Nat.mod_lt _ (by decide)) hdigit
  have hmod := mod_eq_of_digits 16 hdigits
  have hsize : uint64Max < 16 ^ 16 := by decide
  rwa [Nat.mod_eq_of_lt (by omega), Nat.mod_eq_of_lt (by omega)] at hmod

theorem length_hex16 (n : Nat) : (hex16 n).length = 16 := by
  unfold hex16
  rw [List.length_map, List.length_reverse, List.length_range]

theorem generationName_injective {boot a b : Nat} (ha : a ≤ uint64Max) (hb : b ≤ uint64Max)
    (h : generationName boot a = generationName boot b) : a = b :=
  hex16_injective ha hb (List.append_cancel_left h)

theorem generationName_ne_nil (boot n : Nat) : generationName boot n ≠ [] := by
  intro h
  have hlength := congrArg List.length h
  unfold generationName at hlength
  rw [List.length_append, length_hex16, length_hex16] at hlength
  cases hlength

/-! ## Registered scopes -/

/-- The slot holds an open registered scope. -/
def Registered (s : Scope) : Prop := s.isOpen = true ∧ s.implicit = false

/-- Open registered scopes are told apart by their triples, and by generations that were issued. -/
structure Titled {count : Nat} (g : GatewayContext count) : Prop where
  bounded : g.generations ≤ uint64Max
  issued : ∀ i, Registered (g.scopes i) →
    ∃ n ≤ g.generations, (g.scopes i).generation = generationName g.boot n
  triples : ∀ i j, Registered (g.scopes i) → Registered (g.scopes j) →
    (g.scopes i).task = (g.scopes j).task → (g.scopes i).session = (g.scopes j).session →
    (g.scopes i).branch = (g.scopes j).branch → i = j
  generations : ∀ i j, Registered (g.scopes i) → Registered (g.scopes j) →
    (g.scopes i).generation = (g.scopes j).generation → i = j

/-- A generation that was issued and that no open scope has. -/
structure Retired {count : Nat} (g : GatewayContext count) (n : Nat) : Prop where
  issued : n ≤ g.generations
  gone : ∀ i, Registered (g.scopes i) → (g.scopes i).generation ≠ generationName g.boot n

/-- What tells registered scopes apart. -/
structure SameTitle (s t : Scope) : Prop where
  isOpen : t.isOpen = s.isOpen
  implicit : t.implicit = s.implicit
  task : t.task = s.task
  session : t.session = s.session
  branch : t.branch = s.branch
  generation : t.generation = s.generation

theorem SameTitle.registered {s t : Scope} (h : SameTitle s t) (ht : Registered t) :
    Registered s := ⟨h.isOpen.symm.trans ht.1, h.implicit.symm.trans ht.2⟩

theorem SameTitle.of_eq {s t : Scope} (h : t = s) : SameTitle s t := by
  rw [h]
  exact ⟨rfl, rfl, rfl, rfl, rfl, rfl⟩

theorem Persists.title {s t : Scope} (h : Persists s t) : SameTitle s t :=
  ⟨h.isOpen, h.get Holder.implicit fun _ => rfl, h.get Holder.task fun _ => rfl,
    h.get Holder.session fun _ => rfl, h.get Holder.branch fun _ => rfl,
    h.get Holder.generation fun _ => rfl⟩

/-- Every registered scope was registered before, under the same title. -/
structure Narrows {count : Nat} (g k : GatewayContext count) : Prop where
  boot : k.boot = g.boot
  generations : k.generations = g.generations
  title : ∀ i, Registered (k.scopes i) → SameTitle (g.scopes i) (k.scopes i)

theorem Titled.narrows {count : Nat} {g k : GatewayContext count} (h : Titled g)
    (hnarrows : Narrows g k) : Titled k := by
  have hbefore : ∀ i, Registered (k.scopes i) → Registered (g.scopes i) := fun i hi =>
    (hnarrows.title i hi).registered hi
  refine ⟨hnarrows.generations ▸ h.bounded, fun i hi => ?_, fun i j hi hj => ?_,
    fun i j hi hj => ?_⟩
  · rw [(hnarrows.title i hi).generation, hnarrows.boot, hnarrows.generations]
    exact h.issued i (hbefore i hi)
  · rw [(hnarrows.title i hi).task, (hnarrows.title i hi).session, (hnarrows.title i hi).branch,
      (hnarrows.title j hj).task, (hnarrows.title j hj).session, (hnarrows.title j hj).branch]
    exact h.triples i j (hbefore i hi) (hbefore j hj)
  · rw [(hnarrows.title i hi).generation, (hnarrows.title j hj).generation]
    exact h.generations i j (hbefore i hi) (hbefore j hj)

theorem Retired.narrows {count : Nat} {g k : GatewayContext count} {n : Nat} (h : Retired g n)
    (hnarrows : Narrows g k) : Retired k n := by
  refine ⟨hnarrows.generations ▸ h.issued, fun i hi => ?_⟩
  rw [(hnarrows.title i hi).generation, hnarrows.boot]
  exact h.gone i ((hnarrows.title i hi).registered hi)

/-! ## Changes -/

variable {g k : GatewayContext ρ.settings.count}

/-- Only a registration makes a scope registered. -/
theorem Edit.titles (h : Edit ρ w g k) : Narrows g k ∨
    ∃ i task session branch now, k = Gateway.register i task session branch now g ∧
      (∀ j, (g.scopes j).isOpen = true → (g.scopes j).task = task →
        (g.scopes j).session = session → (g.scopes j).branch ≠ branch) ∧
      g.generations ≠ uint64Max ∧ (g.scopes i).isOpen = false := by
  have hcounters : k.boot = g.boot → k.generations = g.generations →
      (∀ i, Registered (k.scopes i) → (g.scopes i).isOpen = true) → Narrows g k := by
    intro hboot hgenerations hopen
    refine ⟨hboot, hgenerations, fun i hi => ?_⟩
    cases h.slot i with
    | same hsame => exact .of_eq hsame
    | kept _ hkept => exact hkept.persists.title
    | left _ _ hzeroed =>
        rw [hzeroed] at hi
        cases hi.1
    | seated hclosed _ _ _ _ _ =>
        rw [hopen i hi] at hclosed
        cases hclosed
  have hset : ∀ {j : Slot} {u : Scope}, k = g.setScope j u → (g.scopes j).isOpen = true →
      Narrows g k := by
    intro j u hk hopen
    rw [hk] at hcounters
    rw [hk]
    exact hcounters rfl rfl fun i hi => open_of_setScope hopen hi.1
  cases h with
  | aside haside =>
      exact .inl ⟨haside.boot, haside.generations, fun i _ => .of_eq (congrFun haside.scopes i)⟩
  | free attemptTtl now => exact .inl ⟨rfl, rfl, fun i _ => .of_eq rfl⟩
  | publish i result _ hpublishable => exact .inl (hset rfl hpublishable.isOpen)
  | reclaim i now closing _ =>
      refine .inl ⟨rfl, rfl, fun j hj => ?_⟩
      by_cases hji : j = i
      · rw [hji, show (g.scopeReclaim i now).scopes i = {} from Function.update_self ..] at hj
        cases hj.1
      · exact .of_eq (Function.update_of_ne hji ..)
  | register i task session branch now hclosed _ hfresh hlast =>
      exact .inr ⟨i, task, session, branch, now, rfl, hfresh, hlast, hclosed⟩
  | adopt i newcomer _ _ _ =>
      refine .inl ⟨rfl, rfl, fun j hj => ?_⟩
      by_cases hji : j = i
      · rw [hji, show (g.adopt i newcomer).scopes i = _ from Function.update_self ..] at hj
        cases hj.2
      · exact .of_eq (Function.update_of_ne hji ..)
  | mark scopes hmarked =>
      exact .inl ⟨rfl, rfl, fun i _ => (hmarked i).kept.persists.title⟩
  | label session labels _ _ =>
      refine .inl (hcounters rfl rfl fun i hi => ?_)
      have hopen : ((restrictSessions session { g with labels }).scopes i).isOpen =
          (g.scopes i).isOpen := GatewayContext.view_ite (fun s => s.isOpen) rfl
      exact hopen.symm.trans hi.1
  | supersede i revision hopen => exact .inl (hset rfl hopen)
  | derive i hopen => exact .inl (hset rfl hopen)
  | accept i e revision now _ hacceptable => exact .inl (hset rfl hacceptable.isOpen)
  | draw i t hopen _ _ => exact .inl (hset rfl hopen)

/-- What a registration leaves in a slot. -/
theorem scopes_register (i j : Slot) (task session branch : Text) (now : Nat)
    (g : GatewayContext ρ.settings.count) :
    (j ≠ i ∧ (register i task session branch now g).scopes j = g.scopes j) ∨
      j = i ∧ ((register i task session branch now g).scopes j).task = task ∧
        ((register i task session branch now g).scopes j).session = session ∧
        ((register i task session branch now g).scopes j).branch = branch ∧
        ((register i task session branch now g).scopes j).generation =
          generationName g.boot (g.generations + 1) := by
  by_cases hji : j = i
  · have hscope : (register i task session branch now g).scopes i = _ := Function.update_self ..
    refine .inr ⟨hji, ?_⟩
    rw [hji, hscope]
    exact ⟨rfl, rfl, rfl, rfl⟩
  · exact .inl ⟨hji, Function.update_of_ne hji ..⟩

theorem Edit.titled (h : Edit ρ w g k) (htitled : Titled g) : Titled k := by
  cases h.titles with
  | inl hnarrows => exact htitled.narrows hnarrows
  | inr hregistered =>
      obtain ⟨i, task, session, branch, now, rfl, hfresh, hlast, -⟩ := hregistered
      have hbounded := htitled.bounded
      -- the new name differs from every one that was issued before
      have hnew : ∀ j, Registered (g.scopes j) →
          (g.scopes j).generation ≠ generationName g.boot (g.generations + 1) := by
        intro j hj hsame
        obtain ⟨n, hn, hname⟩ := htitled.issued j hj
        have heq := generationName_injective (by omega) (by omega) (hname.symm.trans hsame)
        omega
      refine ⟨?_, fun j hj => ?_, fun j l hj hl htask hsession hbranch => ?_,
        fun j l hj hl hsame => ?_⟩
      · show g.generations + 1 ≤ uint64Max
        omega
      · rcases scopes_register i j task session branch now g with ⟨-, hold⟩ | ⟨-, -, -, -, hname⟩
        · rw [hold] at hj ⊢
          obtain ⟨n, hn, hname⟩ := htitled.issued j hj
          exact ⟨n, Nat.le_succ_of_le hn, hname⟩
        · exact ⟨g.generations + 1, le_rfl, hname⟩
      · rcases scopes_register i j task session branch now g with ⟨-, hold⟩ | ⟨hji, ht, hs, hb, -⟩
        · rcases scopes_register i l task session branch now g with
            ⟨-, hold'⟩ | ⟨-, ht', hs', hb', -⟩
          · rw [hold] at hj htask hsession hbranch
            rw [hold'] at hl htask hsession hbranch
            exact htitled.triples j l hj hl htask hsession hbranch
          · rw [hold] at hj
            rw [hold, ht'] at htask
            rw [hold, hs'] at hsession
            rw [hold, hb'] at hbranch
            exact absurd hbranch (hfresh j hj.1 htask hsession)
        · rcases scopes_register i l task session branch now g with ⟨-, hold'⟩ | ⟨hli, -⟩
          · rw [hold'] at hl
            rw [hold', ht] at htask
            rw [hold', hs] at hsession
            rw [hold', hb] at hbranch
            exact absurd hbranch.symm (hfresh l hl.1 htask.symm hsession.symm)
          · rw [hji, hli]
      · rcases scopes_register i j task session branch now g with
          ⟨-, hold⟩ | ⟨hji, -, -, -, hname⟩
        · rcases scopes_register i l task session branch now g with
            ⟨-, hold'⟩ | ⟨-, -, -, -, hname'⟩
          · rw [hold] at hj hsame
            rw [hold'] at hl hsame
            exact htitled.generations j l hj hl hsame
          · rw [hold] at hj
            rw [hold, hname'] at hsame
            exact absurd hsame (hnew j hj)
        · rcases scopes_register i l task session branch now g with ⟨-, hold'⟩ | ⟨hli, -⟩
          · rw [hold'] at hl
            rw [hold', hname] at hsame
            exact absurd hsame.symm (hnew l hl)
          · rw [hji, hli]

theorem Edit.retired (h : Edit ρ w g k) (htitled : Titled g) {n : Nat} (hretired : Retired g n) :
    Retired k n := by
  cases h.titles with
  | inl hnarrows => exact hretired.narrows hnarrows
  | inr hregistered =>
      obtain ⟨i, task, session, branch, now, rfl, -, hlast, -⟩ := hregistered
      have hbounded := htitled.bounded
      have hissued := hretired.issued
      refine ⟨Nat.le_succ_of_le hissued, fun j hj => ?_⟩
      rcases scopes_register i j task session branch now g with ⟨-, hold⟩ | ⟨-, -, -, -, hname⟩
      · rw [hold] at hj ⊢
        exact hretired.gone j hj
      · intro hsame
        have heq := generationName_injective (by omega) (by omega) (hname.symm.trans hsame)
        omega

theorem Edit.counters (h : Edit ρ w g k) : k.boot = g.boot ∧ g.generations ≤ k.generations := by
  cases h.titles with
  | inl hnarrows => exact ⟨hnarrows.boot, hnarrows.generations.ge⟩
  | inr hregistered =>
      obtain ⟨i, task, session, branch, now, rfl, -⟩ := hregistered
      exact ⟨rfl, Nat.le_succ _⟩

theorem Edits.titled (h : Edits ρ w g k) (htitled : Titled g) : Titled k := by
  induction h with
  | refl => exact htitled
  | tail _ hlast ih => exact hlast.titled ih

theorem Edits.retired (h : Edits ρ w g k) (htitled : Titled g) {n : Nat} (hretired : Retired g n) :
    Retired k n := by
  induction h with
  | refl => exact hretired
  | tail hfirst hlast ih => exact hlast.retired (Edits.titled hfirst htitled) ih

theorem Edits.counters (h : Edits ρ w g k) :
    k.boot = g.boot ∧ g.generations ≤ k.generations := by
  induction h with
  | refl => exact ⟨rfl, le_rfl⟩
  | tail _ hlast ih => exact ⟨hlast.counters.1.trans ih.1, ih.2.trans hlast.counters.2⟩

theorem Written.narrows {count : Nat} {g k : GatewayContext count} (h : Written g k) :
    Narrows g k := ⟨h.boot, h.generations, fun i _ => (h.persists i).title⟩

theorem Turn.titled (h : Turn w s event answer t) (htitled : Titled s.gateway) :
    Titled t.gateway := by
  obtain ⟨g, hedits, hwritten⟩ := h.written
  exact (hedits.titled htitled).narrows hwritten.narrows

theorem Turn.retired (h : Turn w s event answer t) (htitled : Titled s.gateway) {n : Nat}
    (hretired : Retired s.gateway n) : Retired t.gateway n := by
  obtain ⟨g, hedits, hwritten⟩ := h.written
  exact (hedits.retired htitled hretired).narrows hwritten.narrows

theorem Turn.counters (h : Turn w s event answer t) :
    t.gateway.boot = s.gateway.boot ∧ s.gateway.generations ≤ t.gateway.generations := by
  obtain ⟨g, hedits, hwritten⟩ := h.written
  have hcounters := hedits.counters
  exact ⟨hwritten.boot.trans hcounters.1, hcounters.2.trans hwritten.generations.ge⟩

theorem Reaches.titled {history : List (Event × Answer)} (h : Reaches ρ history s) :
    Titled s.gateway := by
  refine h.invariant (fun start hstart => ?_) fun u event answer v _ htitled hturn =>
    hturn.titled htitled
  have hnone : ∀ i, ¬ Registered (start.gateway.scopes i) := by
    intro i hi
    rw [hstart.scopes] at hi
    cases hi.1
  refine ⟨?_, fun i hi => absurd hi (hnone i), fun i _ hi => absurd hi (hnone i),
    fun i _ hi => absurd hi (hnone i)⟩
  rw [hstart.generations]
  exact Nat.zero_le _

/-! ## Issued generations -/

/-- The generation that an answer issues. -/
def Answer.generation? : Answer → Option Text
  | .opened _ generation => generation
  | _ => none

/-- The generations that a history issued, oldest first. -/
def issued (history : List (Event × Answer)) : List Text :=
  history.filterMap fun p => p.2.generation?

theorem counters_registeredSlot (now : Nat) (g : GatewayContext ρ.settings.count) :
    (registeredSlot now g).2.boot = g.boot ∧
      (registeredSlot now g).2.generations = g.generations := by
  unfold registeredSlot GatewayContext.vacantSlot
  dsimp only
  split
  · exact ⟨rfl, rfl⟩
  · split <;> exact ⟨rfl, rfl⟩

/-- A generation that is issued is the next one. -/
theorem openScope_issued {body : Json} {now : Nat} {generation : Text}
    (h : (openScope body now g).1.2 = some generation) :
    generation = generationName g.boot (g.generations + 1) ∧
      (openScope body now g).2.generations = g.generations + 1 := by
  have hcounters := counters_registeredSlot now g
  unfold openScope at h ⊢
  split at h
  · next task session branch _ _ _ =>
    split at h
    · cases h
    · next hkeys =>
        split at h
        · cases h
        · next hfresh =>
            rw [if_neg hkeys, if_neg hfresh]
            split at h
            · cases h
            · next i k hk =>
                rw [hk] at hcounters
                split at h
                · cases h
                · next hlast =>
                    have hscope : (register i task session branch now k).scopes i = _ :=
                      Function.update_self ..
                    rw [if_neg hlast]
                    refine ⟨?_, ?_⟩
                    · rw [← Option.some.inj h, hscope, ← hcounters.1, ← hcounters.2]
                    · show k.generations + 1 = _
                      rw [hcounters.2]
  · cases h

theorem generation?_dispatch (body : Json) (endpoint : Endpoint) :
    (dispatch (ρ := ρ) body endpoint).generation? = none := by
  unfold dispatch
  split <;> rfl

/-- A step issues the next generation or none. -/
theorem step_issued (hstep : step s event = (answer, t)) : answer.generation? = none ∨
    answer.generation? = some (generationName s.gateway.boot (s.gateway.generations + 1)) ∧
      t.gateway.generations = s.gateway.generations + 1 := by
  cases event with
  | «open» body now =>
      cases hstep
      cases hissued : (openScope body now s.gateway).1.2 with
      | none => exact .inl hissued
      | some generation =>
          obtain ⟨hname, hcount⟩ := openScope_issued hissued
          exact .inr ⟨hissued.trans (congrArg some hname), hcount⟩
  | prepare id now verdict polled =>
      refine .inl ?_
      unfold step at hstep
      dsimp only at hstep
      split at hstep
      · cases hstep
        rfl
      · unfold prepareStep at hstep
        split at hstep
        · cases hstep
          rfl
        · cases hstep
          exact generation?_dispatch _ _
  | shadow id started =>
      refine .inl ?_
      unfold step at hstep
      dsimp only at hstep
      split at hstep <;> cases hstep <;> rfl
  | failover id context now =>
      refine .inl ?_
      unfold step at hstep
      dsimp only at hstep
      split at hstep
      · cases hstep
        rfl
      · unfold failoverStep at hstep
        rw [← (Prod.mk.inj hstep).1, apply_ite Answer.generation?, generation?_dispatch]
        exact ite_self _
  | finish id f now =>
      refine .inl ?_
      unfold step at hstep
      dsimp only at hstep
      split at hstep <;> cases hstep <;> rfl
  | _ =>
      cases hstep
      exact .inl rfl

/-- The generations of a history are names of increasing numbers, none beyond the counter. -/
theorem Reaches.issued {history : List (Event × Answer)} (h : Reaches ρ history s) :
    ∃ ns : List Nat, issued history = ns.map (generationName s.gateway.boot) ∧
      ns.Pairwise (· < ·) ∧ ∀ n ∈ ns, n ≤ s.gateway.generations := by
  obtain ⟨start, hstart, run⟩ := h
  have hall := run.induct (P := fun history u => Poised u ∧ ∃ ns : List Nat,
    Gateway.issued history = ns.map (generationName u.gateway.boot) ∧ ns.Pairwise (· < ·) ∧
      ∀ n ∈ ns, n ≤ u.gateway.generations) ⟨poised_start hstart, [], rfl, .nil, nofun⟩ ?_
  · exact hall.2
  · intro history u event answer v _ hbefore hstep
    obtain ⟨hpoised, ns, hissued, hsorted, hbounded⟩ := hbefore
    obtain ⟨hboot, hgenerations⟩ := (step_turn hpoised (takes_any u event) hstep).counters
    refine ⟨hpoised.next hstep, ?_⟩
    have happend : Gateway.issued (history ++ [(event, answer)]) =
        Gateway.issued history ++ answer.generation?.toList := by
      unfold Gateway.issued
      rw [List.filterMap_append, List.filterMap_cons]
      cases answer.generation? <;> rfl
    rw [happend, hissued, hboot]
    cases step_issued hstep with
    | inl hnone =>
        rw [hnone, Option.toList_none, List.append_nil]
        exact ⟨ns, rfl, hsorted, fun n hn => (hbounded n hn).trans hgenerations⟩
    | inr hsome =>
        obtain ⟨hname, hcount⟩ := hsome
        rw [hname]
        refine ⟨ns ++ [u.gateway.generations + 1], ?_, ?_, fun n hn => ?_⟩
        · rw [List.map_append]
          rfl
        · rw [List.pairwise_append]
          refine ⟨hsorted, List.pairwise_singleton .., fun n hn m hm => ?_⟩
          rw [List.mem_singleton.mp hm]
          exact Nat.lt_succ_of_le (hbounded n hn)
        · rw [hcount]
          cases List.mem_append.mp hn with
          | inl hold => exact Nat.le_succ_of_le (hbounded n hold)
          | inr hnew => exact (List.mem_singleton.mp hnew).le

/-! ## A generation that is gone -/

/-- The state refuses whatever carries the generation. -/
structure Refuses (s : State ρ) (generation : Text) : Prop where
  unfound : ∀ branch, s.gateway.scopeFind generation branch = none
  ingest : ∀ body now submitted, token body "generation" 32 = some generation →
    ∃ status, (status = 400 ∨ status = 403) ∧
      step s (.ingest body now submitted) = (.status status, s)
  close : ∀ body now, token body "generation" 32 = some generation →
    ∃ status, (status = 400 ∨ status = 403) ∧ step s (.close body now) = (.status status, s)
  prepare : ∀ (id : Nat) (e : Exchange ρ.settings.count) now verdict polled,
    s.exchanges[id]? = some e → e.prepared = false →
    e.request.headers.generation = generation →
    ∃ status, (step s (.prepare id now verdict polled)).1 = .denied status

theorem Retired.unfound {count : Nat} {g : GatewayContext count} {n : Nat} (h : Retired g n)
    (branch : Text) : g.scopeFind (generationName g.boot n) branch = none := by
  cases hfound : g.scopeFind (generationName g.boot n) branch with
  | none => rfl
  | some i =>
      obtain ⟨hopen, himplicit, hgeneration, -⟩ := GatewayContext.scopeFind_eq_some hfound
      exact absurd hgeneration (h.gone i ⟨hopen, himplicit⟩)

/-- No request finds its scope by a generation that is gone. -/
theorem prepare_retired {c : Call} {vetting : Json → Endpoint → Gated} {p : Prep ρ} {n : Nat}
    (htidy : Tidy p.gateway) (htitled : Titled p.gateway) (hretired : Retired p.gateway n)
    (hgeneration : c.headers.generation = generationName p.gateway.boot n) :
    ∃ status q, (prepare c vetting).run p = .error status q := by
  cases hrun : (prepare c vetting).run p with
  | error status q => exact ⟨status, q, rfl⟩
  | ok _ q =>
      exfalso
      unfold prepare at hrun
      obtain ⟨freeRow, a, henter, hrest⟩ := bind_eq_ok.mp hrun
      obtain ⟨scope, b, hresolve, -⟩ := bind_eq_ok.mp hrest
      clear hrun hrest
      have hentered := enter_drafts (w := .any) (c := c) (p := p) (fun _ _ => trivial) htidy
      rw [henter] at hentered
      have hedits : Edits ρ .any p.gateway a.gateway := hentered.1
      have hlater := hedits.retired htitled hretired
      have hname : c.headers.generation = generationName a.gateway.boot n := by
        rw [hgeneration, hedits.counters.1]
      have hregistered : unregistered c = false := by
        unfold unregistered
        rw [decide_eq_false, Bool.false_and]
        rw [hname]
        exact generationName_ne_nil _ _
      unfold resolve at hresolve
      rw [hregistered, Bool.not_false, Bool.true_or, if_pos rfl] at hresolve
      unfold registeredScope at hresolve
      obtain ⟨_, p₁, hget, hfind⟩ := bind_eq_ok.mp hresolve
      cases hget
      dsimp only at hfind
      rw [hname, hlater.unfound, ite_self] at hfind
      cases hfind

theorem Retired.refuses {n : Nat} (hretired : Retired s.gateway n) (hpoised : Poised s)
    (htitled : Titled s.gateway) : Refuses s (generationName s.gateway.boot n) := by
  refine ⟨hretired.unfound, fun body now submitted htoken => ?_, fun body now htoken => ?_,
    fun id e now verdict polled he hfresh hgeneration => ?_⟩
  · unfold step Gateway.ingest
    dsimp only
    rw [htoken]
    split
    · next generation branch revision hgeneration _ _ =>
        obtain rfl := Option.some.inj hgeneration
        split
        · exact ⟨400, .inl rfl, rfl⟩
        · rw [hretired.unfound]
          exact ⟨403, .inr rfl, rfl⟩
    · exact ⟨400, .inl rfl, rfl⟩
  · unfold step Gateway.close
    dsimp only
    rw [htoken]
    split
    · next generation branch hgeneration _ =>
        obtain rfl := Option.some.inj hgeneration
        split
        · exact ⟨400, .inl rfl, rfl⟩
        · rw [hretired.unfound]
          exact ⟨403, .inr rfl, rfl⟩
    · exact ⟨400, .inl rfl, rfl⟩
  · have hdenies : ∃ status q, (prepare (e.call now verdict polled) (vet s.runtime verdict)).run
        (e.prep s.gateway) = .error status q :=
      prepare_retired hpoised.tidy htitled hretired hgeneration
    obtain ⟨status, q, hdenied⟩ := hdenies
    refine ⟨status, ?_⟩
    rw [step_prepare he hfresh]
    unfold prepareStep
    rw [show (e.call now verdict polled).verdict = verdict from rfl, hdenied]

/-! ## Room in the table -/

/-- A closed slot is left while neither kind of scope has used up its share. -/
theorem Tidy.room {count : Nat} {g : GatewayContext count} (h : Tidy g) {implicit : Bool}
    (hroom : g.openOf implicit < share implicit) :
    ∃ i, (slots.find? fun i => !(g.scopes i).isOpen) = some i := by
  cases hfound : slots.find? fun i => !(g.scopes i).isOpen with
  | some i => exact ⟨i, rfl⟩
  | none =>
      exfalso
      have hall := List.find?_eq_none.mp hfound
      have hsplit : ∀ xs : List Slot, (∀ i ∈ xs, ¬ (!(g.scopes i).isOpen) = true) →
          xs.length = (xs.countP fun i => (g.scopes i).isOpen && decide ((g.scopes i).implicit = true)) +
            xs.countP fun i => (g.scopes i).isOpen && decide ((g.scopes i).implicit = false) := by
        intro xs hxs
        induction xs with
        | nil => rfl
        | cons i xs ih =>
            have hopen : (g.scopes i).isOpen = true := by
              have hi := hxs i List.mem_cons_self
              simpa using hi
            rw [List.length_cons, List.countP_cons, List.countP_cons,
              ih fun j hj => hxs j (List.mem_cons_of_mem i hj), hopen]
            cases (g.scopes i).implicit <;> simp <;> omega
      have hlength := hsplit slots hall
      have hsize : slots.length = 160 := List.length_finRange
      have hsessions : g.openOf true ≤ 128 := h.quota true
      have hregistered : g.openOf false ≤ 32 := h.quota false
      unfold GatewayContext.openOf at *
      cases implicit with
      | false =>
          have hless : _ < 32 := hroom
          omega
      | true =>
          have hless : _ < 128 := hroom
          omega

/-- A registered scope finds no slot only when the share is used up and none of it is idle. -/
theorem registeredSlot_eq_none (htidy : Tidy g) {now : Nat}
    (h : (registeredSlot now g).1 = none) : g.openOf false = 32 ∧
      ∀ i, g.idle ρ.settings.ttl now false i = false := by
  unfold registeredSlot at h
  rw [openOf_registered] at h
  dsimp only at h
  have hnone : ((slots.find? fun i => !(g.scopes i).isOpen).filter fun _ =>
      decide (g.openOf false < explicitScopes)) = none ∧
      g.scopeIdle ρ.settings.ttl now false = none := by
    unfold GatewayContext.vacantSlot at h
    split at h
    · cases h
    · next hunused =>
        refine ⟨hunused, ?_⟩
        split at h
        · next hidle => exact hidle
        · cases h
  refine ⟨?_, fun i => ?_⟩
  · have hquota : g.openOf false ≤ 32 := htidy.quota false
    by_contra hless
    have hroom : g.openOf false < share false := by
      show g.openOf false < 32
      omega
    obtain ⟨i, hi⟩ := htidy.room hroom
    have hgiven := hnone.1
    rw [hi, Option.filter_some, decide_eq_true (show g.openOf false < explicitScopes from hroom),
      if_pos rfl] at hgiven
    cases hgiven
  · have hidle := Scan.best_eq_none hnone.2 i (mem_slots i)
    exact Bool.not_eq_true _ ▸ hidle

/-- A session always finds a slot while its share is not used up. -/
theorem sessionSlot_isSome (htidy : Tidy g) (now : Nat) (hroom : g.openOf true < 128) :
    (g.sessionSlot now).1.isSome = true := by
  have hshare : g.openOf true < share true := hroom
  obtain ⟨i, hi⟩ := htidy.room hshare
  unfold GatewayContext.sessionSlot
  rw [openOf_sessions]
  dsimp only
  rw [hi, Option.filter_some, decide_eq_true (show g.openOf true < scopeSlots - explicitScopes from
    hroom), if_pos rfl]
  rfl

theorem openScope_full (htidy : Tidy g) {body : Json} {now : Nat}
    (h : (openScope body now g).1.1 = 503)
    (hlast : g.generations ≠ uint64Max) :
    g.openOf false = 32 ∧ ∀ i, g.idle ρ.settings.ttl now false i = false := by
  have hcounters := counters_registeredSlot now g
  unfold openScope at h
  split at h
  · split at h
    · cases h
    · split at h
      · cases h
      · split at h
        · next hslot => exact registeredSlot_eq_none htidy (congrArg Prod.fst hslot)
        · next hslot =>
            rw [hslot] at hcounters
            split at h
            · next hend => exact absurd (hcounters.2.symm.trans hend) hlast
            · cases h
  · cases h

/-- The scope table keeps its shares and its identities in every reachable state. -/
theorem identities_kept {history : List (Event × Answer)} (h : Reaches ρ history s) :
    (s.gateway.openOf false ≤ 32 ∧ s.gateway.openOf true ≤ 128) ∧
    (∀ i j, Registered (s.gateway.scopes i) → Registered (s.gateway.scopes j) →
      (s.gateway.scopes i).task = (s.gateway.scopes j).task →
      (s.gateway.scopes i).session = (s.gateway.scopes j).session →
      (s.gateway.scopes i).branch = (s.gateway.scopes j).branch → i = j) ∧
    ((issued history).Nodup ∧ ∀ generation ∈ issued history,
      (∀ i, Registered (s.gateway.scopes i) → (s.gateway.scopes i).generation ≠ generation) →
      ∀ later t, Trace.Runs step s later t → Refuses t generation) ∧
    (∀ generation branch i, s.gateway.scopeFind generation branch = some i →
      (s.gateway.scopes i).implicit = false) ∧
    (∀ body now generation t, step s (.open body now) = (.opened 503 generation, t) →
      s.gateway.generations ≠ uint64Max →
      s.gateway.openOf false = 32 ∧
        ∀ i, s.gateway.idle ρ.settings.ttl now false i = false) ∧
    ∀ now, s.gateway.openOf true < 128 → (s.gateway.sessionSlot now).1.isSome = true := by
  have hpoised := h.poised
  have htitled := h.titled
  obtain ⟨ns, hissued, hsorted, hbounded⟩ := h.issued
  refine ⟨⟨hpoised.tidy.quota false, hpoised.tidy.quota true⟩, htitled.triples, ⟨?_, ?_⟩,
    fun generation branch i hi => (GatewayContext.scopeFind_eq_some hi).2.1,
    fun body now generation t hstep hlast => ?_,
    fun now hroom => sessionSlot_isSome hpoised.tidy now hroom⟩
  · rw [hissued]
    apply List.Nodup.map_on _ (hsorted.imp fun hlt => hlt.ne)
    intro a ha b hb hsame
    have hlimit := htitled.bounded
    exact generationName_injective ((hbounded a ha).trans hlimit) ((hbounded b hb).trans hlimit) hsame
  · intro generation hmem hgone later t run
    rw [hissued] at hmem
    obtain ⟨n, hn, rfl⟩ := List.mem_map.mp hmem
    have hretired : Retired s.gateway n := ⟨hbounded n hn, hgone⟩
    have hlast : Poised t ∧ Titled t.gateway ∧ Retired t.gateway n ∧
        t.gateway.boot = s.gateway.boot := by
      refine run.invariant (P := fun u => Poised u ∧ Titled u.gateway ∧ Retired u.gateway n ∧
        u.gateway.boot = s.gateway.boot) ?_ ⟨hpoised, htitled, hretired, rfl⟩
      intro u event answer v hu hstep
      have hturn := step_turn hu.1 (takes_any u event) hstep
      exact ⟨hu.1.next hstep, hturn.titled hu.2.1, hturn.retired hu.2.1 hu.2.2.1,
        hturn.counters.1.trans hu.2.2.2⟩
    rw [← hlast.2.2.2]
    exact hlast.2.2.1.refuses hlast.1 hlast.2.1
  · have hfull : (openScope body now s.gateway).1.1 = 503 := by
      have hanswer := congrArg Prod.fst hstep
      exact (Answer.opened.inj hanswer).1
    exact openScope_full hpoised.tidy hfull hlast

def scopeBody (branch : Text) : Json :=
  .object [("task_id", .string "t"), ("session_id", .string "s"), ("branch", .string branch)]

/-- Two branches are registered, the first is closed and registered again, and another session
comes. -/
def registeredEvents : List Event :=
  [.open (scopeBody "b") 1, .open (scopeBody "c") 2, .open (scopeBody "b") 3,
    .close (.object [("generation", .string (generationName 1 1)), ("branch", .string "b")]) 4,
    .open (scopeBody "b") 5,
    .arrive (sampleRequest [("X-Recursant-session-id", some (text "u"))]) 6 ⟨false, none⟩,
    .prepare 0 7 (fun _ _ => .unscanned) []]

def registeredRun : List (Event × Answer) × State sampleRouter :=
  Trace.feed step (sampleStart sampleRouter) registeredEvents

theorem reaches_registeredRun : Reaches sampleRouter registeredRun.1 registeredRun.2 :=
  ⟨_, started_sampleStart sampleRouter, Trace.Runs.feed registeredEvents _⟩

/-- The generation that was closed is refused, the branch has another one. -/
theorem identities_kept_sample : registeredRun.2.gateway.openOf false = 2 ∧
    registeredRun.2.gateway.openOf true = 1 ∧
    issued registeredRun.1 = [generationName 1 1, generationName 1 2, generationName 1 3] ∧
    Refuses registeredRun.2 (generationName 1 1) := by
  have hrun : registeredRun.2.gateway.openOf false = 2 ∧ registeredRun.2.gateway.openOf true = 1 ∧
      issued registeredRun.1 = [generationName 1 1, generationName 1 2, generationName 1 3] ∧
      ∀ i, Registered (registeredRun.2.gateway.scopes i) →
        (registeredRun.2.gateway.scopes i).generation ≠ generationName 1 1 := by
    unfold Registered
    decide +kernel
  obtain ⟨hregistered, himplicit, hissued, hgone⟩ := hrun
  refine ⟨hregistered, himplicit, hissued, ?_⟩
  refine (identities_kept reaches_registeredRun).2.2.1.2 _ ?_ hgone [] registeredRun.2 .init
  rw [hissued]
  exact List.mem_cons_self

end Recursant.Gateway
