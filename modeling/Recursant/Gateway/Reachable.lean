import Recursant.Compliance.Memo
import Recursant.Gateway.Preparation

/-!
# What every reachable state satisfies

Every step changes the roster along a path, and every exchange that has begun has its scope to
itself: nothing but its own failovers and its end touches what it relies on.
-/

namespace Recursant.Gateway

open Compliance
open Stateful

variable {ρ : Router}

/-! ## Gates -/

/-- The members that final M2 may write. -/
def written (k : Text) : Bool :=
  k = text "model" || k = text "provider" || k = text "cache_control"

theorem get?_restoreProvider {original : Option Json} {decorated restored : Json}
    (h : restoreProvider original decorated = some restored) {k : Text}
    (hk : k ≠ text "provider") : restored.get? k = decorated.get? k := by
  unfold restoreProvider at h
  split at h
  · rw [Json.get?_set? h, if_neg hk]
  · rw [← Option.some.inj h, Json.get?_del, if_neg hk]

theorem get?_gateWith (r : Runtime) (verdict : Json → Option Text → Verdict) (body : Json)
    (endpoint : Endpoint) {k : Text} (hk : written k = false) :
    (gateWith r verdict body endpoint).body.get? k = body.get? k := by
  simp only [written, Bool.or_eq_false_iff, decide_eq_false_iff_not] at hk
  obtain ⟨⟨hmodel, hprovider⟩, hcache⟩ := hk
  have hredirect : ∀ b : Json, (redirect r b).body.get? k = b.get? k := by
    intro b
    unfold redirect
    split
    · rfl
    · next redirected hset =>
        cases hprivate : r.config.privateModel with
        | none =>
            rw [hprivate] at hset
            cases b <;> cases hset
        | some model =>
            rw [hprivate] at hset
            rw [Json.get?_set? hset, if_neg hmodel]
  cases endpoint with
  | priv => rw [gateWith_priv]
  | pub =>
      have houtcome := gateWith_pub r verdict body
      generalize gateWith r verdict body .pub = g at houtcome ⊢
      cases houtcome with
      | vetoed _ => exact hredirect body
      | plain _ _ => rfl
      | undecorated _ _ => rfl
      | decorated _ _ hfinal _ => exact get?_decorated hfinal hprovider hcache
      | revoked _ _ hfinal _ hrestored =>
          rw [hredirect, get?_restoreProvider hrestored hprovider]
          exact get?_decorated hfinal hprovider hcache

/-- Final M2 writes no other member. -/
theorem get?_vet (r : Runtime) (verdict : Json → Option Text → Verdict) (body : Json)
    (endpoint : Endpoint) {k : Text} (hk : written k = false) :
    (vet r verdict body endpoint).body.get? k = body.get? k := by
  unfold vet
  split
  · rfl
  · split
    · rfl
    · exact get?_gateWith r verdict body endpoint hk

/-- Final M2 leaves a private request as it is. -/
theorem vet_priv (r : Runtime) (verdict : Json → Option Text → Verdict) (body : Json) :
    (vet r verdict body .priv).body = body ∧ (vet r verdict body .priv).endpoint = .priv := by
  unfold vet
  split
  · exact ⟨rfl, rfl⟩
  · split
    · exact ⟨rfl, rfl⟩
    · rw [gateWith_priv]
      exact ⟨rfl, rfl⟩

/-! ## Exchanges -/

/-- The reasoning field that the exchange's body carries. -/
def Exchange.effort (e : Exchange ρ.settings.count) (r : Roster) : Option Family :=
  e.ticket.scope.bind r.effort

/-- An exchange with a ticket that has begun: its scope is taken by it alone, and its body is the
client's but for what placement and M2 did to it. -/
structure Begun (r : Roster) (e : Exchange ρ.settings.count) : Prop where
  finished : e.ticket.finished = false
  holds : ∀ i, e.ticket.scope = some i → r.Holds i e.serial
  inflight : ∀ i, e.ticket.scope = some i → (r.holder i).inflight = true
  named : ∀ i, e.ticket.scope = some i → Named e.request.headers (r.holder i)
  lent : Lent e.request.body e.vetted.body e.vetted.effort
  body : ∀ k, written k = false → (removeEffort e.body (e.effort r)).get? k =
    (removeEffort e.vetted.body e.vetted.effort).get? k

structure Fit (r : Roster) (e : Exchange ρ.settings.count) : Prop where
  unprepared : e.prepared = false → e.body = e.request.body ∧ e.endpoint = e.request.endpoint ∧
    e.ticket = .fresh
  live : e.live = true → e.ticket.begun = true
  begun : e.ticket.begun = true → Begun r e

/-- What holds in every reachable state. -/
structure Fenced (s : State ρ) : Prop where
  sound : Roster.Sound ρ.settings.implicit s.gateway.roster
  fit : ∀ (id : Nat) (e : Exchange ρ.settings.count), s.exchanges[id]? = some e →
    Fit s.gateway.roster e
  alone : ∀ (id id' : Nat) (e e' : Exchange ρ.settings.count) (i : Slot),
    s.exchanges[id]? = some e → s.exchanges[id']? = some e' → e.ticket.begun = true → e'.ticket.begun = true → e.ticket.scope = some i →
    e'.ticket.scope = some i → id = id'

theorem Named.congr {h : GatewayHeaders} {k l : Holder} (hnamed : Named h k)
    (hsame : Roster.SameScope k l) : Named h l := by
  cases hnamed with
  | session himplicit hident =>
      exact .session (hsame.implicit.trans himplicit) (hsame.ident.trans hident)
  | registered himplicit hinvalid hgeneration hbranch =>
      exact .registered (hsame.implicit.trans himplicit) hinvalid
        (hsame.generation.trans hgeneration) (hsame.branch.trans hbranch)

/-- Changes that belong to other exchanges leave an exchange alone. -/
theorem Fit.path {r t : Roster} {e : Exchange ρ.settings.count} (h : Fit r e) {cs : List Change}
    (path : Roster.Path ρ.settings.implicit r cs t) (hsound : Roster.Sound ρ.settings.implicit r)
    (hforeign : e.ticket.begun = true → ∀ i, e.ticket.scope = some i → ∀ c ∈ cs, ¬ c.Works i) :
    Fit t e := by
  refine ⟨h.unprepared, h.live, fun hbegun => ?_⟩
  have hold := h.begun hbegun
  have hlater : ∀ i, e.ticket.scope = some i → t.Holds i e.serial ∧
      (t.holder i).inflight = true ∧ Roster.SameScope (r.holder i) (t.holder i) ∧
      t.effort i = r.effort i := fun i hi =>
    path.inflight hsound (hold.holds i hi) (hold.inflight i hi) (hforeign hbegun i hi)
  have heffort : e.effort t = e.effort r := by
    unfold Exchange.effort
    cases hscope : e.ticket.scope with
    | none => rfl
    | some i => exact (hlater i hscope).2.2.2
  refine ⟨hold.finished, fun i hi => (hlater i hi).1, fun i hi => (hlater i hi).2.1,
    fun i hi => (hold.named i hi).congr (hlater i hi).2.2.1, hold.lent, ?_⟩
  rw [heffort]
  exact hold.body

/-! ## Steps -/

/-- A step that changes the roster along a path and no exchange. -/
theorem Fenced.gateway {s t : State ρ} (h : Fenced s) {cs : List Change}
    (path : Roster.Path ρ.settings.implicit s.gateway.roster cs t.gateway.roster)
    (hforeign : ∀ c ∈ cs, ∀ i, ¬ c.Works i) (hexchanges : t.exchanges = s.exchanges) : Fenced t where
  sound := path.sound h.sound
  fit id e he := by
    rw [hexchanges] at he
    exact (h.fit id e he).path path h.sound fun _ i _ c hc => hforeign c hc i
  alone := hexchanges ▸ h.alone

/-- A step of one exchange: its changes touch no other, and the exchange fits afterwards. -/
theorem Fenced.exchange {s : State ρ} (h : Fenced s) {id : Nat} {e e' : Exchange ρ.settings.count}
    {g : GatewayContext ρ.settings.count} {cs : List Change} (he : s.exchanges[id]? = some e)
    (path : Roster.Path ρ.settings.implicit s.gateway.roster cs g.roster)
    (hforeign : ∀ c ∈ cs, ∀ i, c.Works i → (s.gateway.roster.holder i).inflight = false ∨
      (e.ticket.begun = true ∧ e.ticket.scope = some i))
    (hfit : Fit g.roster e')
    (hscope : e'.ticket.begun = true → ∀ i, e'.ticket.scope = some i →
      (s.gateway.roster.holder i).inflight = false ∨
        (e.ticket.begun = true ∧ e.ticket.scope = some i)) :
    Fenced (s.setExchange id e' g) := by
  -- the scope of another exchange
  have hother : ∀ k o i, k ≠ id → s.exchanges[k]? = some o → o.ticket.begun = true →
      o.ticket.scope = some i → ¬ ((s.gateway.roster.holder i).inflight = false ∨
        (e.ticket.begun = true ∧ e.ticket.scope = some i)) := by
    intro k o i hk ho hbegun hi hor
    cases hor with
    | inl hidle =>
        have hinflight := ((h.fit k o ho).begun hbegun).inflight i hi
        rw [hidle] at hinflight
        cases hinflight
    | inr hsame => exact hk (h.alone k id o e i ho he hbegun hsame.1 hi hsame.2)
  have hget : ∀ k o, (s.exchanges.set id e')[k]? = some o →
      (k = id ∧ o = e') ∨ (k ≠ id ∧ s.exchanges[k]? = some o) := by
    intro k o ho
    rw [List.getElem?_set] at ho
    by_cases hk : id = k
    · rw [if_pos hk] at ho
      split at ho
      · exact .inl ⟨hk.symm, (Option.some.inj ho).symm⟩
      · cases ho
    · rw [if_neg hk] at ho
      exact .inr ⟨Ne.symm hk, ho⟩
  refine ⟨path.sound h.sound, fun k o ho => ?_, fun k k' o o' i ho ho' hbegun hbegun' hi hi' => ?_⟩
  · cases hget k o ho with
    | inl hnew => exact hnew.2 ▸ hfit
    | inr hold =>
        refine (h.fit k o hold.2).path path h.sound fun hbegun i hi c hc hworks => ?_
        exact hother k o i hold.1 hold.2 hbegun hi (hforeign c hc i hworks)
  · cases hget k o ho with
    | inl hnew =>
        cases hget k' o' ho' with
        | inl hnew' => rw [hnew.1, hnew'.1]
        | inr hold' =>
            obtain ⟨hk, rfl⟩ := hnew
            exact absurd (hscope hbegun i hi) (hother k' o' i hold'.1 hold'.2 hbegun' hi')
    | inr hold =>
        cases hget k' o' ho' with
        | inl hnew' =>
            obtain ⟨hk', rfl⟩ := hnew'
            exact absurd (hscope hbegun' i hi') (hother k o i hold.1 hold.2 hbegun hi)
        | inr hold' => exact h.alone k k' o o' i hold.2 hold'.2 hbegun hbegun' hi hi'

/-! ### The requests -/

variable {s : State ρ} {id : Nat} {e : Exchange ρ.settings.count}

/-- A closing is a close event that was answered 200 for the scope's own generation and branch. -/
def ClosedBy (r : Roster) (event : Event) (answer : Answer) (i : Slot) : Prop :=
  ∃ body now, event = .close body now ∧ answer = .status 200 ∧ Closes body (r.holder i)

theorem get?_removeEffort (body : Json) (added : Option Family) (k : Text) :
    (removeEffort body added).get? k =
      if added.map Family.field = some k then none else body.get? k := by
  cases added with
  | none => rfl
  | some f =>
      show (body.del f.field).get? k = _
      rw [Json.get?_del]
      by_cases hk : k = f.field
      · rw [if_pos hk, hk]
        exact (if_pos rfl).symm
      · have hne : (some f).map Family.field ≠ some k := fun h => hk (Option.some.inj h).symm
        rw [if_neg hk, if_neg hne]

/-- What a request that was prepared carries. -/
theorem Prepared.begun_exchange {c : Call} {verdict : Json → Option Text → Verdict} {r : Runtime}
    {q : Prep ρ} (hprepared : Prepared c (vet r verdict) (e.prep s.gateway) q)
    (hbody : e.body = e.request.body) (hheaders : c.headers = e.request.headers) {e' : Exchange ρ.settings.count}
    (hafter : e' = { e.after q with
      serial := q.serial, prepared := e'.prepared, live := e'.live }) :
    Begun q.gateway.roster e' := by
  have hcleared := hprepared.cleared
  rw [hafter]
  refine ⟨hprepared.finished, fun i hi => ⟨hcleared.isOpen i hi, ?_⟩, hcleared.inflight,
    hheaders ▸ hcleared.named, hbody ▸ hcleared.lent, fun k hk => ?_⟩
  · show (q.gateway.scopes i).serial = q.serial
    unfold Prep.serial
    rw [show q.ticket.scope = some i from hi]
    rfl
  · have hgated := get?_vet r verdict q.vetted.body q.vetted.endpoint hk
    rw [hcleared.gated] at hgated
    show (removeEffort q.body q.effort).get? k = (removeEffort q.vetted.body q.vetted.effort).get? k
    rw [show q.effort = q.vetted.effort from hcleared.effort, get?_removeEffort, get?_removeEffort,
      hgated]

theorem Fenced.prepareStep (h : Fenced s) (he : s.exchanges[id]? = some e)
    (hfresh : e.prepared = false) {c : Call} (hheaders : c.headers = e.request.headers) :
    Fenced (prepareStep s id e c).2 ∧
      Proceeds ρ s.gateway.roster (prepareStep s id e c).2.gateway.roster := by
  have hfit := h.fit id e he
  obtain ⟨hbody, -, hticket⟩ := hfit.unprepared hfresh
  have hbegun : e.ticket.begun = false := by
    rw [hticket]
    rfl
  have hlive : e.live = false := by
    cases hlive : e.live with
    | false => rfl
    | true =>
        have hnow := hfit.live hlive
        rw [hbegun] at hnow
        cases hnow
  have hspec := prepare_triple c (vet s.runtime c.verdict) (e.prep s.gateway) h.sound
    (e.prep s.gateway) rfl
  unfold Gateway.prepareStep
  cases hrun : (prepare c (vet s.runtime c.verdict)).run (e.prep s.gateway) with
  | error status q =>
      rw [hrun] at hspec
      have hhalts : Halts (e.prep s.gateway) q := hspec
      have hstopped : q.ticket.begun ≠ true := by
        rw [hhalts.begun]
        decide
      obtain ⟨cs, path, hproper⟩ := hhalts.path
      refine ⟨h.exchange he path (fun d hd i hworks => .inl ((hproper d hd).idle hworks)) ?_
        fun hnow => absurd hnow hstopped, hhalts.path⟩
      refine ⟨nofun, fun hnow => ?_, fun hnow => absurd hnow hstopped⟩
      rw [show e.live = true from hnow] at hlive
      cases hlive
  | ok _ q =>
      rw [hrun] at hspec
      have hprepared : Prepared c (vet s.runtime c.verdict) (e.prep s.gateway) q := hspec
      obtain ⟨cs, path, hproper⟩ := hprepared.cleared.path
      refine ⟨h.exchange he path (fun d hd i hworks => .inl ((hproper d hd).idle hworks)) ?_
        fun _ i hi => .inl (hprepared.cleared.idle i hi), hprepared.cleared.path⟩
      exact ⟨nofun, fun _ => hprepared.begun,
        fun _ => hprepared.begun_exchange hbody hheaders rfl⟩

/-- A retry carries over what an exchange carries. -/
theorem Begun.retried {q : Prep ρ} (h : Begun s.gateway.roster e)
    (hretried : Retried (e.prep s.gateway) q) {e' : Exchange ρ.settings.count}
    (hafter : e' = { e.after q with attempt := e'.attempt, live := e'.live }) :
    Begun q.gateway.roster e' := by
  have hscope : q.ticket.scope = e.ticket.scope := hretried.ticket.scope
  -- only the field in flight changes, so the holders stay
  have hholder : q.gateway.roster.holder = s.gateway.roster.holder := by
    cases hretried.roster with
    | inl hsame => exact congrArg Roster.holder hsame
    | inr hwithdrawn =>
        exact (congrArg Roster.holder hwithdrawn.2).trans (Roster.withdraw_holder _ _).1
  rw [hafter]
  refine ⟨hretried.ticket.finished.trans h.finished, fun i hi => ?_, fun i hi => ?_, fun i hi => ?_,
    ?_, fun k hk => ?_⟩
  · unfold Roster.Holds
    rw [hholder]
    exact h.holds i (hscope.symm.trans hi)
  · rw [hholder]
    exact h.inflight i (hscope.symm.trans hi)
  · rw [hholder]
    exact h.named i (hscope.symm.trans hi)
  · show Lent e.request.body q.vetted.body q.vetted.effort
    rw [show q.vetted = e.vetted from hretried.vetted]
    exact h.lent
  · have hmodel : k ≠ text "model" := by
      intro hmodel
      rw [hmodel] at hk
      exact absurd hk (by decide)
    show q.plain.get? k = (removeEffort q.vetted.body q.vetted.effort).get? k
    rw [hretried.body k hmodel, show q.vetted = e.vetted from hretried.vetted]
    exact h.body k hk

/-- Withdrawing the field of an exchange is a path. -/
theorem withdraw_path (sessions : Bool) (r : Roster) (scope : Option Slot) :
    ∃ cs, Roster.Path sessions r cs (r.withdraw scope) ∧
      ∀ c ∈ cs, ∃ i, scope = some i ∧ c = .effort i none := by
  cases scope with
  | none => exact ⟨[], .nil _, fun _ hc => (List.not_mem_nil hc).elim⟩
  | some i =>
      refine ⟨[.effort i none], .single trivial, fun c hc => ⟨i, rfl, ?_⟩⟩
      exact List.mem_singleton.mp hc

/-- A ticket that has begun is that of a prepared request. -/
theorem Fit.prepared {r : Roster} (h : Fit r e) (hbegun : e.ticket.begun = true) :
    e.prepared = true := by
  cases hprepared : e.prepared with
  | true => rfl
  | false =>
      rw [(h.unprepared hprepared).2.2] at hbegun
      cases hbegun

theorem Fenced.failoverStep (h : Fenced s) (he : s.exchanges[id]? = some e) (hlive : e.live = true)
    (context : Bool) (now : Nat) :
    Fenced (failoverStep s id e context now).2 ∧
      ∃ cs, Roster.Path ρ.settings.implicit s.gateway.roster cs
          (failoverStep s id e context now).2.gateway.roster ∧
        ∀ c ∈ cs, ∃ i, e.ticket.scope = some i ∧ c = .effort i none := by
  have hfit := h.fit id e he
  have hbegun := hfit.live hlive
  have hprepared := hfit.prepared hbegun
  obtain ⟨hretried, -⟩ := failover_spec s.vetting e.request.automatic e.request.headers context
    now (e.prep s.gateway)
  unfold Gateway.failoverStep
  generalize failover s.vetting e.request.automatic e.request.headers context now
    (e.prep s.gateway) = result at hretried
  obtain ⟨moved, q⟩ := result
  have hpath : ∃ cs, Roster.Path ρ.settings.implicit s.gateway.roster cs q.gateway.roster ∧
      ∀ c ∈ cs, ∃ i, e.ticket.scope = some i ∧ c = .effort i none := by
    cases hretried.roster with
    | inl hsame =>
        exact ⟨[], (congrArg (Roster.Path _ _ _) hsame).mpr (.nil _),
          fun _ hc => (List.not_mem_nil hc).elim⟩
    | inr hwithdrawn =>
        obtain ⟨cs, path, hcs⟩ := withdraw_path ρ.settings.implicit
          s.gateway.roster e.ticket.scope
        exact ⟨cs, (congrArg (Roster.Path _ _ _) hwithdrawn.2).mpr path, hcs⟩
  refine ⟨?_, hpath⟩
  obtain ⟨cs, path, hcs⟩ := hpath
  have hscope : ∀ i, q.ticket.scope = some i → e.ticket.scope = some i := fun i hi =>
    hretried.ticket.scope.symm.trans hi
  refine h.exchange he path (fun c hc i hworks => .inr ⟨hbegun, ?_⟩)
    ⟨fun hnot => ?_, fun _ => hretried.ticket.begun.trans hbegun, fun _ => ?_⟩
    fun _ i hi => .inr ⟨hbegun, hscope i hi⟩
  · obtain ⟨j, hj, rfl⟩ := hcs c hc
    rw [hj, show j = i from hworks]
  · rw [show e.prepared = false from hnot] at hprepared
    cases hprepared
  · exact (hfit.begun hbegun).retried hretried rfl

/-- A shadow is considered beside its exchange. -/
theorem Fenced.shadowStep (h : Fenced s) (he : s.exchanges[id]? = some e)
    (hbegun : e.ticket.begun = true) (started : Bool) :
    Fenced (shadowStep s id e started).2 ∧
      (shadowStep s id e started).2.gateway.roster = s.gateway.roster := by
  have hfit := h.fit id e he
  have hold := hfit.begun hbegun
  have hprepared := hfit.prepared hbegun
  have hbeside := shadow_beside s.vetting e.request.automatic e.request.headers started
    (e.prep s.gateway)
  unfold Gateway.shadowStep
  generalize shadow s.vetting e.request.automatic e.request.headers started (e.prep s.gateway) =
    result at hbeside
  obtain ⟨copy, q⟩ := result
  have hroster : q.gateway.roster = s.gateway.roster := hbeside.roster
  refine ⟨?_, hroster⟩
  have hpath : Roster.Path ρ.settings.implicit s.gateway.roster [] q.gateway.roster :=
    (congrArg (Roster.Path _ _ _) hroster).mpr (.nil _)
  have hscope : ∀ i, q.ticket.scope = some i → e.ticket.scope = some i := fun i hi =>
    hbeside.ticket.scope.symm.trans hi
  refine h.exchange he hpath (fun _ hc => (List.not_mem_nil hc).elim)
    ⟨fun hnot => ?_, fun _ => hbeside.ticket.begun.trans hbegun, fun _ => ?_⟩
    fun _ i hi => .inr ⟨hbegun, hscope i hi⟩
  · rw [show e.prepared = false from hnot] at hprepared
    cases hprepared
  · rw [hroster]
    refine ⟨hbeside.ticket.finished.trans hold.finished, fun i hi => hold.holds i (hscope i hi),
      fun i hi => hold.inflight i (hscope i hi), fun i hi => hold.named i (hscope i hi), ?_, ?_⟩
    · show Lent e.request.body q.vetted.body q.vetted.effort
      rw [show q.vetted = e.vetted from hbeside.vetted]
      exact hold.lent
    · show ∀ k, written k = false →
        (removeEffort q.body (q.ticket.scope.bind s.gateway.roster.effort)).get? k =
          (removeEffort q.vetted.body q.vetted.effort).get? k
      rw [show q.vetted = e.vetted from hbeside.vetted, show q.body = e.body from hbeside.body,
        show q.ticket.scope = e.ticket.scope from hbeside.ticket.scope]
      exact hold.body

/-- The roster after the scope of an ended exchange was released. -/
theorem release_path (sessions : Bool) {r : Roster} {scope : Option Slot}
    (hopen : ∀ i, scope = some i → (r.holder i).isOpen = true) :
    ∃ cs, Roster.Path sessions r cs (scope.elim r fun i => r.apply (.release i)) ∧
      ∀ c ∈ cs, ∃ i, scope = some i ∧ c = .release i := by
  cases scope with
  | none => exact ⟨[], .nil _, fun _ hc => (List.not_mem_nil hc).elim⟩
  | some i =>
      refine ⟨[.release i], .single (hopen i rfl), fun c hc => ⟨i, rfl, ?_⟩⟩
      exact List.mem_singleton.mp hc

/-- The end of an exchange releases its scope. -/
theorem Fenced.finishStep (h : Fenced s) (he : s.exchanges[id]? = some e) (f : Finish) (now : Nat) :
    Fenced (finishStep s id e f now) ∧
      ∃ cs, Roster.Path ρ.settings.implicit s.gateway.roster cs
          (finishStep s id e f now).gateway.roster ∧
        ∀ c ∈ cs, ∃ i, c = .release i := by
  have hfit := h.fit id e he
  have hspec := finish_spec f now s.gateway e.ticket
  unfold Gateway.finishStep
  generalize finish f now s.gateway e.ticket = result at hspec
  obtain ⟨g, ticket, recorded⟩ := result
  -- the record of public output is not part of it
  suffices hmoved : Fenced (s.setExchange id { e with ticket, live := false } g) ∧
      ∃ cs, Roster.Path ρ.settings.implicit s.gateway.roster cs g.roster ∧
        ∀ c ∈ cs, ∃ i, c = .release i by
    cases recorded with
    | none => exact hmoved
    | some reasoning =>
        exact ⟨hmoved.1.gateway (.nil _) (fun _ hc => (List.not_mem_nil hc).elim) rfl, hmoved.2⟩
  cases hspec with
  | inl hidle =>
      obtain ⟨-, hroster, rfl⟩ := hidle
      have hroster : g.roster = s.gateway.roster := hroster
      have hpath : Roster.Path ρ.settings.implicit s.gateway.roster [] g.roster :=
        (congrArg (Roster.Path _ _ _) hroster).mpr (.nil _)
      refine ⟨h.exchange he hpath (fun _ hc => (List.not_mem_nil hc).elim) ?_
        fun hbegun i hi => .inr ⟨hbegun, hi⟩, [], hpath, fun _ hc => (List.not_mem_nil hc).elim⟩
      refine ⟨hfit.unprepared, nofun, fun hbegun => ?_⟩
      have hold := hfit.begun hbegun
      rw [hroster]
      exact ⟨hold.finished, hold.holds, hold.inflight, hold.named, hold.lent, hold.body⟩
  | inr hended =>
      obtain ⟨⟨hbegun, -⟩, hover, hfinished, -, hroster⟩ := hended
      have hold := hfit.begun hbegun
      have hnot : ticket.begun ≠ true := by
        rw [show ticket.begun = false from hover]
        decide
      obtain ⟨cs, path, hcs⟩ := release_path ρ.settings.implicit
        (fun i hi => (hold.holds i hi).1)
      have hpath : Roster.Path ρ.settings.implicit s.gateway.roster cs g.roster :=
        (congrArg (Roster.Path _ _ _) hroster).mpr path
      refine ⟨h.exchange he hpath (fun c hc i hworks => ?_) ⟨fun hprepared => ?_, nofun,
        fun hnow => absurd hnow hnot⟩ fun hnow => absurd hnow hnot, cs, hpath, fun c hc => ?_⟩
      · obtain ⟨j, hj, rfl⟩ := hcs c hc
        exact .inr ⟨hbegun, hj.trans (congrArg some hworks)⟩
      · have hprepared := (hfit.prepared hbegun).symm.trans hprepared
        cases hprepared
      · obtain ⟨j, -, hj⟩ := hcs c hc
        exact ⟨j, hj⟩

/-- A request that arrives has no ticket yet. -/
theorem Fenced.arriveStep (h : Fenced s) (request : Request) (now : Nat) (answer : Judgement) :
    Fenced (arriveStep s request now answer).2 ∧
      (arriveStep s request now answer).2.gateway.roster = s.gateway.roster := by
  have hroster : (Gateway.arriveStep s request now answer).2.gateway.roster = s.gateway.roster :=
    roster_recordJudgement s.gateway _ now
  have hget : ∀ (k : Nat) (o : Exchange ρ.settings.count),
      (Gateway.arriveStep s request now answer).2.exchanges[k]? = some o →
        s.exchanges[k]? = some o ∨ (o.ticket.begun = false ∧ Fit s.gateway.roster o) := by
    intro k o ho
    unfold Gateway.arriveStep at ho
    dsimp only at ho
    rw [List.getElem?_append] at ho
    split at ho
    · exact .inl ho
    · rw [List.mem_singleton.mp (List.mem_of_getElem? ho)]
      exact .inr ⟨rfl, fun _ => ⟨rfl, rfl, rfl⟩, nofun, nofun⟩
  have hold : ∀ (k : Nat) (o : Exchange ρ.settings.count),
      (Gateway.arriveStep s request now answer).2.exchanges[k]? = some o →
        o.ticket.begun = true → s.exchanges[k]? = some o := by
    intro k o ho hbegun
    cases hget k o ho with
    | inl hold => exact hold
    | inr hnew =>
        rw [hnew.1] at hbegun
        cases hbegun
  refine ⟨⟨hroster ▸ h.sound, fun id e he => ?_, fun id id' e e' i he he' hbegun hbegun' => ?_⟩,
    hroster⟩
  · rw [hroster]
    cases hget id e he with
    | inl hold => exact h.fit id e hold
    | inr hnew => exact hnew.2
  · exact h.alone id id' e e' i (hold id e he hbegun) (hold id' e' he' hbegun') hbegun hbegun'

/-! ### All steps -/

/-- What a step does to the roster. -/
def Advances (s t : State ρ) (event : Event) (answer : Answer) : Prop :=
  ∃ cs, Roster.Path ρ.settings.implicit s.gateway.roster cs t.gateway.roster ∧
    ∀ i, .vacate i true ∈ cs → ClosedBy s.gateway.roster event answer i

theorem advances_of_eq {s t : State ρ} {event : Event} {answer : Answer}
    (h : t.gateway.roster = s.gateway.roster) : Advances s t event answer :=
  ⟨[], (congrArg (Roster.Path _ _ _) h).mpr (.nil _), fun _ hc => (List.not_mem_nil hc).elim⟩

/-- A step that changes no exchange and makes changes of one kind. -/
theorem Fenced.advance {s t : State ρ} {event : Event} {answer : Answer} (h : Fenced s)
    {cs : List Change} (path : Roster.Path ρ.settings.implicit s.gateway.roster cs t.gateway.roster)
    (hkind : ∀ c ∈ cs, ∀ i, ¬ c.Works i ∧ c ≠ .vacate i true)
    (hexchanges : t.exchanges = s.exchanges) : Fenced t ∧ Advances s t event answer :=
  ⟨h.gateway path (fun c hc i => (hkind c hc i).1) hexchanges, cs, path,
    fun i hi => absurd rfl (hkind _ hi i).2⟩

theorem Change.Seats.kind {d : Change} (h : d.Seats) (i : Slot) :
    ¬ d.Works i ∧ d ≠ .vacate i true := by
  refine ⟨h.not_works i, fun hd => ?_⟩
  rw [hd] at h
  cases h

/-- A step that only changes what the roster does not show. -/
theorem Fenced.still {s t : State ρ} {event : Event} {answer : Answer} (h : Fenced s)
    (hroster : t.gateway.roster = s.gateway.roster) (hexchanges : t.exchanges = s.exchanges) :
    Fenced t ∧ Advances s t event answer :=
  h.advance ((congrArg (Roster.Path _ _ _) hroster).mpr (.nil _))
    (fun _ hc => (List.not_mem_nil hc).elim) hexchanges

/-- A step that makes one change, which belongs to no exchange. -/
theorem Fenced.one {s t : State ρ} {event : Event} {answer : Answer} (h : Fenced s) {d : Change}
    (hallowed : Roster.Allowed ρ.settings.implicit s.gateway.roster d)
    (hroster : t.gateway.roster = s.gateway.roster.apply d)
    (hkind : ∀ i, ¬ d.Works i ∧ d ≠ .vacate i true) (hexchanges : t.exchanges = s.exchanges) :
    Fenced t ∧ Advances s t event answer := by
  refine h.advance ((congrArg (Roster.Path _ _ _) hroster).mpr (.single hallowed)) ?_ hexchanges
  intro c hc
  rw [List.mem_singleton.mp hc]
  exact hkind

/-- Every step keeps what holds, changes the roster along a path, and closes a scope only by a close
event for it. -/
theorem step_fenced {s t : State ρ} {event : Event} {answer : Answer} (h : Fenced s)
    (hstep : step s event = (answer, t)) : Fenced t ∧ Advances s t event answer := by
  cases event with
  | «open» body now =>
      obtain ⟨cs, path, hseats⟩ := openScope_path s.gateway body now
      obtain ⟨-, rfl⟩ := Prod.mk.inj hstep
      exact h.advance path (fun c hc => (hseats c hc).kind) rfl
  | close body now =>
      have hclose := close_path s.gateway body now
      obtain ⟨rfl, rfl⟩ := Prod.mk.inj hstep
      cases hclose with
      | inl hsame => exact h.still hsame rfl
      | inr hclosed =>
          obtain ⟨i, hstatus, hcloses, hallowed, hroster⟩ := hclosed
          have path : Roster.Path ρ.settings.implicit s.gateway.roster [.vacate i true]
              (Gateway.close body now s.gateway).2.roster :=
            (congrArg (Roster.Path _ _ _) hroster).mpr (.single hallowed)
          refine ⟨h.gateway path (fun c hc j hworks => ?_) rfl, [.vacate i true], path, fun j hj => ?_⟩
          · rw [List.mem_singleton.mp hc] at hworks
            exact hworks
          · cases List.mem_singleton.mp hj
            exact ⟨body, now, rfl, congrArg Answer.status hstatus, hcloses⟩
  | hint body now =>
      have hhint := hint_path s.gateway body now
      obtain ⟨-, rfl⟩ := Prod.mk.inj hstep
      cases hhint with
      | inl hsame => exact h.still hsame rfl
      | inr hlabelled =>
          obtain ⟨session, hallowed, hroster⟩ := hlabelled
          exact h.one hallowed hroster (fun i => ⟨id, nofun⟩) rfl
  | ingest body now submitted =>
      have hingest := ingest_path s.gateway s.runtime body now submitted
      obtain ⟨-, rfl⟩ := Prod.mk.inj hstep
      cases hingest with
      | inl hsame => exact h.still hsame rfl
      | inr hgained =>
          obtain ⟨i, hallowed, hroster⟩ := hgained
          exact h.one hallowed hroster (fun i => ⟨id, nofun⟩) rfl
  | poll now results =>
      obtain ⟨-, rfl⟩ := Prod.mk.inj hstep
      exact h.still (GatewayContext.roster_pollLocked _ _ _ _) rfl
  | arrive request now judgement =>
      obtain ⟨-, rfl⟩ := Prod.mk.inj hstep
      have harrive := h.arriveStep request now judgement
      exact ⟨harrive.1, advances_of_eq harrive.2⟩
  | prepare id now verdict polled =>
      unfold step at hstep
      dsimp only at hstep
      split at hstep
      · obtain ⟨-, rfl⟩ := Prod.mk.inj hstep
        exact ⟨h, advances_of_eq rfl⟩
      · next e he =>
          obtain ⟨he, hfresh⟩ := Option.filter_eq_some_iff.mp he
          have hprepare := h.prepareStep he (by simpa using hfresh) (c := ⟨e.request.automatic,
            e.request.headers, now, verdict, e.judged, polled⟩) rfl
          rw [hstep] at hprepare
          obtain ⟨hfenced, cs, path, hproper⟩ := hprepare
          refine ⟨hfenced, cs, path, fun i hi => ?_⟩
          cases hproper _ hi with
          | inl hseats => cases hseats
          | inr hworks => exact (Exists.elim hworks fun _ hj => hj.1).elim
  | shadow id started =>
      unfold step at hstep
      dsimp only at hstep
      split at hstep
      · obtain ⟨-, rfl⟩ := Prod.mk.inj hstep
        exact ⟨h, advances_of_eq rfl⟩
      · next e he =>
          obtain ⟨he, hgo⟩ := Option.filter_eq_some_iff.mp he
          simp only [Bool.and_eq_true] at hgo
          have hshadow := h.shadowStep he hgo.1.1 started
          rw [hstep] at hshadow
          exact ⟨hshadow.1, advances_of_eq hshadow.2⟩
  | shadowDone cost =>
      obtain ⟨-, rfl⟩ := Prod.mk.inj hstep
      exact h.still rfl rfl
  | outcome endpoint model status retryAfterMs now =>
      obtain ⟨-, rfl⟩ := Prod.mk.inj hstep
      exact h.still (roster_noteOutcome _ _ _ _ _ _) rfl
  | failover id context now =>
      unfold step at hstep
      dsimp only at hstep
      split at hstep
      · obtain ⟨-, rfl⟩ := Prod.mk.inj hstep
        exact ⟨h, advances_of_eq rfl⟩
      · next e he =>
          obtain ⟨he, hgo⟩ := Option.filter_eq_some_iff.mp he
          rw [Bool.and_eq_true] at hgo
          have hfailover := h.failoverStep he hgo.1 context now
          rw [hstep] at hfailover
          obtain ⟨hfenced, cs, path, hcs⟩ := hfailover
          refine ⟨hfenced, cs, path, fun i hi => ?_⟩
          obtain ⟨j, -, hj⟩ := hcs _ hi
          cases hj
  | finish id f now =>
      unfold step at hstep
      dsimp only at hstep
      split at hstep
      · obtain ⟨-, rfl⟩ := Prod.mk.inj hstep
        exact ⟨h, advances_of_eq rfl⟩
      · next e he =>
          obtain ⟨-, rfl⟩ := Prod.mk.inj hstep
          obtain ⟨hfenced, cs, path, hcs⟩ := h.finishStep he f now
          refine ⟨hfenced, cs, path, fun i hi => ?_⟩
          obtain ⟨j, hj⟩ := hcs _ hi
          cases hj

/-! ## Dispatches -/

/-- The request that an event places or retries. -/
def Event.id? : Event → Option Nat
  | .prepare id _ _ _ => some id
  | .failover id _ _ => some id
  | _ => none

theorem dispatch_eq {body b : Json} {endpoint ep : Endpoint}
    (h : dispatch (ρ := ρ) body endpoint = .dispatched b ep) : b = body ∧ ep = endpoint := by
  unfold dispatch at h
  split at h
  · cases h
    exact ⟨rfl, rfl⟩
  · cases h

/-- A first dispatch is that of a prepared request. -/
theorem prepareStep_dispatched {s t : State ρ} {id : Nat} {e : Exchange ρ.settings.count} {c : Call}
    {body : Json} {endpoint : Endpoint} (hfenced : Fenced s) (he : s.exchanges[id]? = some e)
    (hstep : prepareStep s id e c = (.dispatched body endpoint, t)) :
    ∃ q, Prepared c (vet s.runtime c.verdict) (e.prep s.gateway) q ∧ body = q.body ∧
      endpoint = q.endpoint ∧ t.gateway = q.gateway ∧
      t.exchanges[id]? = some { e.after q with serial := q.serial, prepared := true, live := true } := by
  have hspec := prepare_triple c (vet s.runtime c.verdict) (e.prep s.gateway) hfenced.sound
    (e.prep s.gateway) rfl
  unfold prepareStep at hstep
  cases hrun : (prepare c (vet s.runtime c.verdict)).run (e.prep s.gateway) with
  | error status q =>
      rw [hrun] at hstep
      cases (Prod.mk.inj hstep).1
  | ok _ q =>
      rw [hrun] at hstep hspec
      obtain ⟨hanswer, rfl⟩ := Prod.mk.inj hstep
      obtain ⟨rfl, rfl⟩ := dispatch_eq hanswer
      refine ⟨q, hspec, rfl, rfl, rfl, ?_⟩
      rw [hanswer]
      exact List.getElem?_set_self (List.getElem?_eq_some_iff.mp he).1

/-- A dispatch after a failover is that of a moved request. -/
theorem failoverStep_dispatched {s t : State ρ} {id : Nat} {e : Exchange ρ.settings.count}
    {context : Bool} {now : Nat} {body : Json} {endpoint : Endpoint}
    (he : s.exchanges[id]? = some e)
    (hstep : failoverStep s id e context now = (.dispatched body endpoint, t)) :
    ∃ q i, Moved s.vetting e.request.headers (e.prep s.gateway) i q ∧
      Retried (e.prep s.gateway) q ∧ body = q.body ∧ endpoint = q.endpoint ∧
      t.exchanges[id]? = some { e.after q with attempt := e.attempt + 1, live := true } := by
  obtain ⟨hretried, hmoved⟩ := failover_spec s.vetting e.request.automatic e.request.headers context
    now (e.prep s.gateway)
  unfold failoverStep at hstep
  generalize failover s.vetting e.request.automatic e.request.headers context now
    (e.prep s.gateway) = result at hretried hmoved hstep
  obtain ⟨moved, q⟩ := result
  cases moved with
  | false => cases (Prod.mk.inj hstep).1
  | true =>
      obtain ⟨i, hmoved⟩ := hmoved rfl
      obtain ⟨hanswer, rfl⟩ := Prod.mk.inj hstep
      have hdispatch : dispatch (ρ := ρ) q.body q.endpoint = .dispatched body endpoint := hanswer
      obtain ⟨rfl, rfl⟩ := dispatch_eq hdispatch
      refine ⟨q, i, hmoved, hretried, rfl, rfl, ?_⟩
      dsimp only
      rw [if_pos rfl, hdispatch]
      exact List.getElem?_set_self (List.getElem?_eq_some_iff.mp he).1

/-- What a dispatch was preceded by. -/
inductive Dispatch (s : State ρ) (id : Nat) (t : State ρ) (body : Json) (endpoint : Endpoint) :
    Event → Prop where
  | first {e : Exchange ρ.settings.count} {c : Call} {q : Prep ρ} {now : Nat}
      {verdict : Json → Option Text → Verdict} {polled : List InterpreterResult} :
      s.exchanges[id]? = some e → e.prepared = false →
      c = ⟨e.request.automatic, e.request.headers, now, verdict, e.judged, polled⟩ →
      Prepared c (vet s.runtime verdict) (e.prep s.gateway) q → body = q.body →
      endpoint = q.endpoint → t.gateway = q.gateway →
      t.exchanges[id]? = some { e.after q with serial := q.serial, prepared := true, live := true } →
      Dispatch s id t body endpoint (.prepare id now verdict polled)
  | retry {e : Exchange ρ.settings.count} {q : Prep ρ} {i : ρ.Index} {context : Bool} {now : Nat} :
      s.exchanges[id]? = some e → e.live = true →
      Moved s.vetting e.request.headers (e.prep s.gateway) i q →
      Retried (e.prep s.gateway) q → body = q.body → endpoint = q.endpoint →
      t.exchanges[id]? = some { e.after q with attempt := e.attempt + 1, live := true } →
      Dispatch s id t body endpoint (.failover id context now)

theorem step_dispatched {s t : State ρ} {event : Event} {body : Json} {endpoint : Endpoint}
    (hfenced : Fenced s) (hstep : step s event = (.dispatched body endpoint, t)) :
    ∃ id, event.id? = some id ∧ Dispatch s id t body endpoint event := by
  cases event with
  | prepare id now verdict polled =>
      refine ⟨id, rfl, ?_⟩
      unfold step at hstep
      dsimp only at hstep
      split at hstep
      · cases (Prod.mk.inj hstep).1
      · next e he =>
          obtain ⟨he, hfresh⟩ := Option.filter_eq_some_iff.mp he
          obtain ⟨q, hprepared, hbody, hendpoint, hgateway, hafter⟩ :=
            prepareStep_dispatched hfenced he hstep
          exact .first he (by simpa using hfresh) rfl hprepared hbody hendpoint hgateway hafter
  | failover id context now =>
      refine ⟨id, rfl, ?_⟩
      unfold step at hstep
      dsimp only at hstep
      split at hstep
      · cases (Prod.mk.inj hstep).1
      · next e he =>
          obtain ⟨he, hgo⟩ := Option.filter_eq_some_iff.mp he
          rw [Bool.and_eq_true] at hgo
          obtain ⟨q, i, hmoved, hretried, hbody, hendpoint, hafter⟩ :=
            failoverStep_dispatched he hstep
          exact .retry he hgo.1 hmoved hretried hbody hendpoint hafter
  | shadow id started =>
      unfold step at hstep
      dsimp only at hstep
      split at hstep
      · cases (Prod.mk.inj hstep).1
      · cases (Prod.mk.inj hstep).1
  | finish id f now =>
      unfold step at hstep
      dsimp only at hstep
      split at hstep
      · cases (Prod.mk.inj hstep).1
      · cases (Prod.mk.inj hstep).1
  | _ => cases (Prod.mk.inj hstep).1

/-! ## Histories -/

theorem fenced_start {s : State ρ} (h : Started ρ s) : Fenced s := by
  have hroster : s.gateway.roster = ⟨fun _ => {}, fun _ => none, [], 0⟩ := by
    unfold GatewayContext.roster
    rw [h.scopes, h.labels, h.opened]
  refine ⟨hroster ▸ .start _, fun id e he => ?_, fun id id' e e' i he => ?_⟩
  · rw [h.exchanges] at he
    cases he
  · rw [h.exchanges] at he
    cases he

theorem Reaches.fenced {history : List (Event × Answer)} {s : State ρ} (h : Reaches ρ history s) :
    Fenced s := by
  obtain ⟨start, hstart, run⟩ := h
  exact run.invariant (fun t event answer u ht hstep => (step_fenced ht hstep).1)
    (fenced_start hstart)

end Recursant.Gateway
