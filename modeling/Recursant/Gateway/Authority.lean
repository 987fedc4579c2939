import Recursant.Gateway.Reachable

/-!
# Private authority

Once a scope is private-only it stays so for the rest of its life, nothing of it goes to a public
destination, and a registered one leaves the table by its close only.
-/

namespace Recursant.Gateway

open Compliance Stateful

variable {ρ : Router}

/-! ## The life of a private scope -/

/-- A private scope later on: it is where it was and private, or it left the table, a registered one
by a close of its generation and branch that was answered 200. -/
inductive Standing (h : Holder) (i : Slot) (later : List (Event × Answer)) (r : Roster) : Prop where
  | kept : r.Holds i h.serial → Roster.SameScope h (r.holder i) →
      (r.holder i).privateOnly = true → Standing h i later r
  | gone : r.Gone h.serial →
      (h.implicit = false → ∃ body now, (.close body now, .status 200) ∈ later ∧ Closes body h) →
      Standing h i later r

theorem Closes.congr {body : Json} {h k : Holder} (hcloses : Closes body k)
    (hsame : Roster.SameScope h k) : Closes body h :=
  ⟨hcloses.generation.trans (congrArg some hsame.generation),
    hcloses.branch.trans (congrArg some hsame.branch)⟩

theorem Standing.next {h : Holder} {i : Slot} {later : List (Event × Answer)} {s t : State ρ}
    {event : Event} {answer : Answer} (hstanding : Standing h i later s.gateway.roster)
    (hfenced : Fenced s) (hstep : step s event = (answer, t)) :
    Standing h i (later ++ [(event, answer)]) t.gateway.roster := by
  obtain ⟨cs, path, hclosed⟩ := (step_fenced hfenced hstep).2
  cases hstanding with
  | gone hgone hleft =>
      refine .gone (hgone.path path) fun hregistered => ?_
      obtain ⟨body, now, hmem, hcloses⟩ := hleft hregistered
      exact ⟨body, now, List.mem_append_left _ hmem, hcloses⟩
  | kept hholds hsame hprivate =>
      cases path.fate hfenced.sound hholds with
      | inl hlater => exact .kept hlater.1 (hsame.trans hlater.2.1) (hlater.2.2 hprivate)
      | inr hgone =>
          obtain ⟨hgone, closing, hmem, hcause⟩ := hgone
          refine .gone hgone fun hregistered => ?_
          have hclosing := hcause hprivate (hsame.implicit.trans hregistered)
          rw [hclosing] at hmem
          obtain ⟨body, now, rfl, rfl, hcloses⟩ := hclosed i hmem
          exact ⟨body, now, List.mem_append_right _ (List.mem_singleton_self _),
            hcloses.congr hsame⟩

theorem Standing.run {i : Slot} {later : List (Event × Answer)} {s u : State ρ}
    (hfenced : Fenced s) (hopen : (s.gateway.scopes i).isOpen = true)
    (hprivate : (s.gateway.scopes i).privateOnly = true) (run : Trace.Runs step s later u) :
    Fenced u ∧ Standing (s.gateway.scopes i).toHolder i later u.gateway.roster := by
  refine run.induct (P := fun later u => Fenced u ∧
    Standing (s.gateway.scopes i).toHolder i later u.gateway.roster) ?_ ?_
  · exact ⟨hfenced, .kept ⟨hopen, rfl⟩ (.refl _) hprivate⟩
  · intro later t event answer u _ ht hstep
    exact ⟨(step_fenced ht.1 hstep).1, ht.2.next ht.1 hstep⟩

/-- Whoever holds the number of the private scope is private. -/
theorem Standing.privateOnly {h : Holder} {i j : Slot} {later : List (Event × Answer)}
    {r : Roster} {sessions : Bool} (hstanding : Standing h i later r)
    (hsound : Roster.Sound sessions r) (hholds : r.Holds j h.serial) :
    (r.holder j).privateOnly = true := by
  cases hstanding with
  | gone hgone _ => exact absurd hholds (hgone.2 j)
  | kept hkept _ hprivate =>
      rw [hsound.serials j i hholds.1 hkept.1 (hholds.2.trans hkept.2.symm)]
      exact hprivate

/-! ## Dispatches -/

/-- The exchange is one of the scope with the number. -/
def Exchange.Of (e : Exchange ρ.settings.count) (serial : Nat) : Prop :=
  e.ticket.scope.isSome = true ∧ e.serial = serial

theorem endpoint_of_private {r : Runtime} {verdict : Json → Option Text → Verdict} {q : Prep ρ}
    (hgated : vet r verdict q.vetted.body q.vetted.endpoint = ⟨true, q.body, q.endpoint⟩)
    (hprivate : q.vetted.endpoint = .priv) : q.endpoint = .priv := by
  have hpriv := (vet_priv r verdict q.vetted.body).2
  rw [hprivate] at hgated
  rw [hgated] at hpriv
  exact hpriv

/-- What a dispatch of a private scope's exchange is addressed to. -/
theorem Dispatch.endpoint_priv {s t : State ρ} {id : Nat} {body : Json} {endpoint : Endpoint}
    {event : Event} {serial : Nat} (hdispatch : Dispatch s id t body endpoint event)
    (hfenced : Fenced s) {e : Exchange ρ.settings.count} (he : t.exchanges[id]? = some e)
    (hof : e.Of serial)
    (hs : ∀ j, s.gateway.roster.Holds j serial → (s.gateway.scopes j).privateOnly = true)
    (ht : ∀ j, t.gateway.roster.Holds j serial → (t.gateway.scopes j).privateOnly = true) :
    endpoint = .priv := by
  obtain ⟨hscope, hserial⟩ := hof
  obtain ⟨j, hj⟩ := Option.isSome_iff_exists.mp hscope
  cases hdispatch with
  | @first _ c q _ _ _ _ _ hcall hprepared _ hendpoint hgateway hafter =>
      obtain rfl := Option.some.inj (he.symm.trans hafter)
      have hj : q.ticket.scope = some j := hj
      have hcleared := hprepared.cleared
      rw [hendpoint]
      apply endpoint_of_private hcleared.gated
      apply hcleared.bound
      rw [hj]
      have hnumber : (q.gateway.scopes j).serial = serial := by
        rw [← hserial]
        show _ = q.serial
        unfold Prep.serial
        rw [hj]
        rfl
      rw [hgateway] at ht
      exact ht j ⟨hcleared.isOpen j hj, hnumber⟩
  | @retry o q i _ _ ho hlive hmoved hretried _ hendpoint hafter =>
      obtain rfl := Option.some.inj (he.symm.trans hafter)
      have hj : o.ticket.scope = some j := hretried.ticket.scope.symm.trans hj
      have hholds := ((hfenced.fit id o ho).begun hmoved.begun).holds j hj
      rw [hendpoint]
      apply hmoved.restricted
      show s.gateway.mustBePrivate ρ.settings.implicit o.ticket.scope o.request.headers = true
      rw [hj]
      exact hs j ⟨hholds.1, hholds.2.trans hserial⟩

/-- Once a scope is private-only it keeps that authority for as long as it is in the table, a
registered one leaves the table only by a close of its own generation and branch, and nothing of it
is dispatched to a public destination, at first or after a failover. -/
theorem privateOnly_monotone {history later : List (Event × Answer)} {s u : State ρ} {i : Slot}
    (hreaches : Reaches ρ history s) (hopen : (s.gateway.scopes i).isOpen = true)
    (hprivate : (s.gateway.scopes i).privateOnly = true) (run : Trace.Runs step s later u) :
    Standing (s.gateway.scopes i).toHolder i later u.gateway.roster ∧
      ∀ event body endpoint v, step u event = (.dispatched body endpoint, v) →
        ∀ id e, event.id? = some id → v.exchanges[id]? = some e →
          e.Of (s.gateway.scopes i).serial → endpoint = .priv := by
  obtain ⟨hfenced, hstanding⟩ := Standing.run hreaches.fenced hopen hprivate run
  refine ⟨hstanding, fun event body endpoint v hstep id e hid he hof => ?_⟩
  have hnext := hstanding.next hfenced hstep
  have hfenced' := (step_fenced hfenced hstep).1
  obtain ⟨id', hid', hdispatch⟩ := step_dispatched hfenced hstep
  obtain rfl := Option.some.inj (hid.symm.trans hid')
  exact hdispatch.endpoint_priv hfenced he hof (fun j hj => hstanding.privateOnly hfenced.sound hj)
    fun j hj => hnext.privateOnly hfenced'.sound hj

/-! ### A labelled session -/

/-! The text of values whose strings need no escape. -/

mutual

def compact : Json → Text
  | .null => text "null"
  | .bool b => if b then text "true" else text "false"
  | .integer n => if 0 ≤ n then (Nat.toDigits 10 n.toNat).map fun c => c.val.toUInt8 else []
  | .real _ => []
  | .string t => 34 :: t ++ [34]
  | .array elements => 91 :: compactElements elements ++ [93]
  | .object members => 123 :: compactMembers members ++ [125]

def compactElements : List Json → Text
  | [] => []
  | [v] => compact v
  | v :: w :: rest => compact v ++ 44 :: compactElements (w :: rest)

def compactMembers : List (Text × Json) → Text
  | [] => []
  | [(k, v)] => 34 :: k ++ [34, 58] ++ compact v
  | (k, v) :: w :: rest => 34 :: k ++ [34, 58] ++ compact v ++ 44 :: compactMembers (w :: rest)

end

def sortMembers : Json → Json
  | .object members => .object (members.insertionSort fun a b => a.1 ≤ b.1)
  | other => other

def sampleJansson : Jansson where
  loadb _ := none
  dumps v := some (compact v)
  dumpsSorted v := some (compact (sortMembers v))

/-- A public baseline `p`, a private candidate `l` and a public one `q`. -/
def sampleConfig (first last : Text) : Config where
  aliases := [⟨.pub, "p", 0⟩, ⟨.priv, "l", 1⟩, ⟨.pub, "q", 2⟩]
  providers := [⟨.pub, first⟩, ⟨.priv, "openai-compatible"⟩, ⟨.pub, last⟩]
  hasPrivateDefault := true
  privateProvider := 1
  privateModel := some "l"
  publicUrl := none
  publicModel := none

def sampleCandidate (k : Nat) (a : Alias) (tasks : UInt64) : Candidate :=
  ⟨k, a, tasks, 1000000, .fixed 1, 0, 31, 31, [], none⟩

def sampleSettings : Settings where
  count := 3
  candidate := ![sampleCandidate 0 ⟨.pub, "p", 0⟩ 0, sampleCandidate 1 ⟨.priv, "l", 1⟩ 8,
    sampleCandidate 2 ⟨.pub, "q", 2⟩ 8]
  distinct := by decide
  baseline := 0
  priced := false
  uniform := by decide
  active := true
  tenant := "t"
  project := "p"
  ttl := 60000
  attemptTtl := 60000
  expectedOutput := 0
  signals := false
  implicit := true
  repeatEscalation := false
  phase := false
  reasoning := .off
  health := some ⟨1000, 1, 2, 1⟩
  budget := ⟨0, 0, 0, 0⟩
  shadow := none
  housekeeping := none
  judgeBreakerMs := none
  authorization := "Bearer k"

def sampleNeighbours : Neighbours where
  classify _ _ := 0
  recentFailure _ := false
  efficiency := none
  prompt := none
  capture _ _ := none
  replay _ _ := .invalid
  boundaryRequirements _ := 0
  setReasoning _ _ := none

/-- Every body passes the structural contract's M2, which looks at no text. -/
def sampleRuntime (first last : Text) : Runtime :=
  ⟨sampleConfig first last, true, true, false, false, some ⟨[], [], ⟨[], 4096, 1000000⟩⟩,
    sampleJansson⟩

def sampleRouter : Router where
  runtime := sampleRuntime "openai-compatible" "openai-compatible"
  settings := sampleSettings
  neighbours := sampleNeighbours
  aliased := by decide

def sampleStart (ρ : Router) : State ρ where
  gateway :=
    { ledger := ⟨[some "k"], Attempts.maxRows, (1, 1), 0, ρ.settings.attemptTtl, 0, 0, false, []⟩
      contexts := Context.create Context.maxSlots 1
      rows := []
      scopes := fun _ => {}
      labels := []
      hints := []
      boot := 1
      generations := 0
      inflight := fun _ => 0
      outcome := fun _ => ⟨0, 0, 0, 0⟩
      rpmWindow := 0
      rpmCount := 0
      shadowCapped := false
      shadowAcc := 0
      shadowSpent := 0
      shadowInflight := 0
      judgeFailures := 0
      judgeOpenUntil := 0
      opened := 0 }
  provenance := ⟨[], 4096, 1000000⟩
  exchanges := []

def sampleRequest (fields : List (Text × Option Text)) : Request where
  automatic := true
  fields := fields
  members := [("model", .string "p"), ("messages", .array [question]), ("max_tokens", .integer 9)]
  endpoint := .pub
  nodup := by decide
  addressed := by decide

def restrictBody : Json := .object [("session_id", .string "s"), ("data", .string "restricted")]

def sessionHeader : Text × Option Text := ("X-Recursant-session-id", some (text "s"))

/-- A session is labelled and opened. -/
def labelledEvents : List Event :=
  [.hint restrictBody 1, .arrive (sampleRequest [sessionHeader]) 2 ⟨false, none⟩,
    .prepare 0 3 (fun _ _ => .unscanned) []]

def labelledRun : List (Event × Answer) × State sampleRouter :=
  Trace.feed step (sampleStart sampleRouter) labelledEvents

def firstSlot : Slot := ⟨0, by decide⟩

theorem started_sampleStart (ρ : Router) : Started ρ (sampleStart ρ) :=
  ⟨⟨_, _, rfl⟩, rfl, rfl, rfl, rfl, rfl, rfl, rfl, rfl, rfl, rfl⟩

def retriedRun : List (Event × Answer) × State sampleRouter :=
  Trace.feed step labelledRun.2 [.failover 0 false 4]

theorem privateOnly_monotone_sample :
    Standing (labelledRun.2.gateway.scopes firstSlot).toHolder firstSlot retriedRun.1
        retriedRun.2.gateway.roster ∧
      ∀ event body endpoint v, step retriedRun.2 event = (.dispatched body endpoint, v) →
        ∀ id e, event.id? = some id → v.exchanges[id]? = some e →
          e.Of (labelledRun.2.gateway.scopes firstSlot).serial → endpoint = .priv :=
  privateOnly_monotone ⟨_, started_sampleStart sampleRouter, Trace.Runs.feed labelledEvents _⟩
    (by decide +kernel) (by decide +kernel) (Trace.Runs.feed [Event.failover 0 false 4] _)

end Recursant.Gateway
