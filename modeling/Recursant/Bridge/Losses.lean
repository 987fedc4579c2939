import Recursant.Bridge.Exporter

/-!
# Losses show on what follows

The worker takes payloads in the order of their revisions, and a payload that carries no loss comes
before every event that was ever lost.  An invalidation is the exception: the worker does not count
one that the router did not accept.
-/

namespace Recursant.Bridge

open Trace

abbrev Journal := List (Action × Report)

/-- The sequence numbers of the events that were lost in a step: rejected or without room, answered
with anything but 202, or discarded. -/
def Report.lost : Report → List Nat
  | .called _ _ emissions => (emissions.filter (·.lost)).map (·.sequence)
  | .ended payload status => if status = some 202 then [] else [payload.revision]
  | .discarded payloads => payloads.map (·.revision)
  | .took _ | .idle => []

def Report.taken : Report → List Payload
  | .took payload => [payload]
  | _ => []

def lost (journal : Journal) : List Nat := journal.flatMap (·.2.lost)

def taken (journal : Journal) : List Payload := journal.flatMap (·.2.taken)

/-- An invalidation that was taken when nothing had been lost is answered with 202. -/
def Report.Heeded : Report → Prop
  | .ended payload status =>
      payload.event.event.kind = .invalidation → payload.event.dropped = 0 → status = some 202
  | _ => True

instance : DecidablePred Report.Heeded := by
  intro report
  unfold Report.Heeded
  split <;> infer_instance

/-! ## The books of the worker -/

/-- What was taken, what is queued and what was lost, by their sequence numbers. -/
structure Accounts (taken : List Payload) (lost : List Nat) (b : GatewayBridge) : Prop where
  numbered : ∀ p ∈ taken ++ b.queue, p.revision = p.event.sequence ∧ p.revision ≤ b.sequence
  increasing : (taken ++ b.queue).Pairwise fun p q => p.revision < q.revision
  carried : ∀ p ∈ taken, p.event.dropped ≤ b.dropped
  last : ∀ p, b.inflight = some p → taken.getLast? = some p
  counted : lost ≠ [] → 0 < b.dropped
  clean : ∀ p ∈ taken, p.event.dropped = 0 → ∀ n ∈ lost, p.revision ≤ n

namespace Accounts

variable {taken : List Payload} {lost : List Nat} {b : GatewayBridge}

theorem init (endpoint : Value) (contentEnabled : Bool) (scope : Registration) (capacity : Nat) :
    Accounts [] [] (.init endpoint contentEnabled scope capacity) where
  numbered := by simp [GatewayBridge.init]
  increasing := .nil
  carried := by simp
  last := by simp [GatewayBridge.init]
  counted := absurd rfl
  clean := by simp

/-- The count of losses may grow without an event that was lost. -/
theorem more (h : Accounts taken lost b) {c : GatewayBridge} (hqueue : c.queue = b.queue)
    (hsequence : b.sequence ≤ c.sequence) (hdropped : b.dropped ≤ c.dropped)
    (hinflight : ∀ p, c.inflight = some p → b.inflight = some p) : Accounts taken lost c where
  numbered := by
    intro p hp
    rw [hqueue] at hp
    exact (h.numbered p hp).imp id fun hle => hle.trans hsequence
  increasing := hqueue ▸ h.increasing
  carried := fun p hp => (h.carried p hp).trans hdropped
  last := fun p hp => h.last p (hinflight p hp)
  counted := fun hlost => Nat.lt_of_lt_of_le (h.counted hlost) hdropped
  clean := h.clean

/-- A loss after everything that was taken, once it is counted. -/
theorem lose (h : Accounts taken lost b) {ns : List Nat} (hdropped : ns ≠ [] → 0 < b.dropped)
    (hlater : ∀ p ∈ taken, ∀ n ∈ ns, p.revision ≤ n) : Accounts taken (lost ++ ns) b where
  numbered := h.numbered
  increasing := h.increasing
  carried := h.carried
  last := h.last
  counted := by
    intro hlost
    by_cases hns : ns = []
    · rw [hns, List.append_nil] at hlost
      exact h.counted hlost
    · exact hdropped hns
  clean := by
    intro p hp hzero n hn
    cases List.mem_append.mp hn with
    | inl hold => exact h.clean p hp hzero n hold
    | inr hnew => exact hlater p hp n hnew

theorem recordLoss (h : Accounts taken lost b) (event : Event) :
    Accounts taken lost (b.recordLoss event) :=
  h.more rfl (Nat.le_refl _) (Nat.le_succ _) fun _ => id

theorem emit (h : Accounts taken lost b) (event : Event) :
    Accounts taken (lost ++ ((b.emit event).1.toList.filter (·.lost)).map (·.sequence))
      (b.emit event).2 := by
  have hsequence : Accounts taken lost { b with sequence := b.sequence + 1 } :=
    h.more rfl (Nat.le_succ _) (Nat.le_refl _) fun _ => id
  have hlater : ∀ p ∈ taken, p.revision ≤ b.sequence + 1 := fun p hp =>
    (h.numbered p (List.mem_append_left _ hp)).2.trans (Nat.le_succ _)
  have hlost : Accounts taken (lost ++ [b.sequence + 1])
      (GatewayBridge.recordLoss { b with sequence := b.sequence + 1 } event) := by
    apply (hsequence.recordLoss event).lose
    · exact fun _ => Nat.succ_pos _
    · intro p hp n hn
      rw [List.mem_singleton.mp hn]
      exact hlater p hp
  unfold GatewayBridge.emit
  split
  · simpa using h
  · dsimp only
    split
    · exact hlost
    · split
      · exact hlost
      · split
        · exact hlost
        · rw [show ((some (⟨b.sequence + 1, event, false⟩ : Emission)).toList.filter (·.lost)).map
              (·.sequence) = [] from rfl, List.append_nil]
          have hnew : ∀ p ∈ taken ++ b.queue, p.revision < b.sequence + 1 := fun p hp =>
            Nat.lt_succ_of_le (h.numbered p hp).2
          refine ⟨?_, ?_, h.carried, h.last, h.counted, h.clean⟩
          · rw [← List.append_assoc]
            intro p hp
            cases List.mem_append.mp hp with
            | inl hold => exact (h.numbered p hold).imp id fun hle => hle.trans (Nat.le_succ _)
            | inr hlast =>
                rw [List.mem_singleton.mp hlast]
                exact ⟨rfl, Nat.le_refl _⟩
          · rw [← List.append_assoc, List.pairwise_append]
            refine ⟨h.increasing, List.pairwise_singleton _ _, ?_⟩
            intro p hp q hq
            rw [List.mem_singleton.mp hq]
            exact hnew p hp

theorem emitAll (h : Accounts taken lost b) (events : List Event) :
    Accounts taken (lost ++ ((b.emitAll events).1.filter (·.lost)).map (·.sequence))
      (b.emitAll events).2 := by
  induction events generalizing b lost with
  | nil => simpa [GatewayBridge.emitAll] using h
  | cons event events ih =>
      have hfirst := ih (h.emit event)
      rw [List.append_assoc, ← List.map_append, ← List.filter_append] at hfirst
      exact hfirst

theorem handOn (h : Accounts taken lost b) (a : Adapter) (events : List Event) :
    Accounts taken (lost ++ ((b.handOn a events).1.filter (·.lost)).map (·.sequence))
      (b.handOn a events).2 :=
  (h.more (c := { b with toAdapter := a }) rfl (Nat.le_refl _) (Nat.le_refl _) fun _ => id).emitAll
    events

theorem inherited (h : Accounts taken lost b) (result : Answer × Adapter) :
    Accounts taken (lost ++ (b.inherited result).1.lost) (b.inherited result).2 :=
  h.handOn result.2 result.1.events

theorem countMore (h : Accounts taken lost b) :
    Accounts taken lost { b with dropped := b.dropped + 1 } :=
  h.more rfl (Nat.le_refl _) (Nat.le_succ _) fun _ => id

theorem request (h : Accounts taken lost b) (lower : Str → Str) (r : Request) (c : Context)
    (token : Str) :
    Accounts taken (lost ++ (b.request lower r c token).1.lost) (b.request lower r c token).2 := by
  have hnone : Accounts taken (lost ++ []) b := by
    rw [List.append_nil]
    exact h
  unfold GatewayBridge.request
  split
  · exact h.handOn _ _
  · split
    · exact hnone
    · split
      · exact hnone
      · exact h.handOn _ _
      · dsimp only
        split
        · exact (h.handOn _ _).countMore
        · split
          · exact h.handOn _ _
          · exact (h.handOn _ _).countMore

/-- The worker takes the payload at the head of the queue, or one with a new number. -/
theorem took (h : Accounts taken lost b) {payload : Payload} {c : GatewayBridge}
    (hnumber : payload.revision = payload.event.sequence) (hle : payload.revision ≤ c.sequence)
    (hsequence : b.sequence ≤ c.sequence) (hafter : ∀ p ∈ taken, p.revision < payload.revision)
    (hqueue : ∀ p ∈ c.queue, p ∈ b.queue ∧ payload.revision < p.revision)
    (hsub : c.queue.Sublist b.queue) (hdropped : payload.event.dropped = b.dropped)
    (hcount : c.dropped = b.dropped) (hinflight : c.inflight = some payload) :
    Accounts (taken ++ [payload]) lost c where
  numbered := by
    intro p hp
    rw [List.append_assoc, List.mem_append, List.singleton_append, List.mem_cons] at hp
    rcases hp with hold | rfl | hqueued
    · exact (h.numbered p (List.mem_append_left _ hold)).imp id fun hp => hp.trans hsequence
    · exact ⟨hnumber, hle⟩
    · exact (h.numbered p (List.mem_append_right _ (hqueue p hqueued).1)).imp id
        fun hp => hp.trans hsequence
  increasing := by
    obtain ⟨htaken, hqueued, hcross⟩ := List.pairwise_append.mp h.increasing
    rw [List.append_assoc, List.pairwise_append, List.singleton_append, List.pairwise_cons]
    refine ⟨htaken, ⟨fun p hp => (hqueue p hp).2, hqueued.sublist hsub⟩, ?_⟩
    intro p hp q hq
    cases List.mem_cons.mp hq with
    | inl hlast => exact hlast ▸ hafter p hp
    | inr hqueued => exact hcross p hp q (hqueue q hqueued).1
  carried := by
    intro p hp
    rw [hcount]
    cases List.mem_append.mp hp with
    | inl hold => exact h.carried p hold
    | inr hlast => rw [List.mem_singleton.mp hlast, hdropped]
  last := by
    intro p hp
    rw [hinflight] at hp
    rw [List.getLast?_concat, hp]
  counted := fun hlost => hcount ▸ h.counted hlost
  clean := by
    intro p hp hzero n hn
    cases List.mem_append.mp hp with
    | inl hold => exact h.clean p hold hzero n hn
    | inr hlast =>
        -- A payload without losses is taken when there are none.
        rw [List.mem_singleton.mp hlast, hdropped] at hzero
        have hcounted := h.counted (List.ne_nil_of_mem hn)
        omega

theorem take (h : Accounts taken lost b) :
    Accounts (taken ++ b.take.1.taken) (lost ++ b.take.1.lost) b.take.2 ∧
      ∀ payload, b.take.1 = .took payload → payload.event.dropped = b.dropped := by
  have hidle : Accounts (taken ++ []) (lost ++ []) b := by
    rw [List.append_nil, List.append_nil]
    exact h
  have hbefore : ∀ p ∈ taken, p.revision ≤ b.sequence := fun p hp =>
    (h.numbered p (List.mem_append_left _ hp)).2
  unfold GatewayBridge.take
  split
  · exact ⟨hidle, fun _ hreport => nomatch hreport⟩
  · split
    · dsimp only [Report.taken, Report.lost]
      exact ⟨hidle.more rfl (Nat.le_refl _) (Nat.le_refl _) fun _ => id, fun _ hreport => nomatch hreport⟩
    · split
      · rename_i payload queue hqueue
        have hpayload : payload ∈ b.queue := by rw [hqueue]; exact List.mem_cons_self
        obtain ⟨hnumber, hle⟩ := h.numbered payload (List.mem_append_right _ hpayload)
        have hincreasing := h.increasing
        rw [hqueue, List.pairwise_append, List.pairwise_cons] at hincreasing
        obtain ⟨_, ⟨hhead, _⟩, hcross⟩ := hincreasing
        dsimp only [Report.taken, Report.lost]
        rw [List.append_nil]
        refine ⟨h.took hnumber hle (Nat.le_refl _) ?_ ?_ ?_ rfl rfl rfl, ?_⟩
        · exact fun p hp => hcross p hp payload List.mem_cons_self
        · intro p hp
          rw [hqueue]
          exact ⟨List.mem_cons_of_mem _ hp, hhead p hp⟩
        · rw [hqueue]
          exact List.sublist_cons_self _ _
        · rintro _ ⟨⟩
          rfl
      · rename_i event hqueue _
        dsimp only [Report.taken, Report.lost]
        rw [List.append_nil]
        refine ⟨h.took rfl (Nat.le_refl _) (Nat.le_succ _) ?_ ?_ (List.Sublist.refl _) rfl rfl rfl,
          ?_⟩
        · exact fun p hp => Nat.lt_succ_of_le (hbefore p hp)
        · intro p hp
          rw [show b.queue = [] from hqueue] at hp
          cases hp
        · rintro _ ⟨⟩
          rfl
      · exact ⟨hidle, fun _ hreport => nomatch hreport⟩

theorem finish (h : Accounts taken lost b) (status : Option Nat) (uncaught : Bool)
    (hheeded : (b.finish status uncaught).1.Heeded) :
    Accounts taken (lost ++ (b.finish status uncaught).1.lost) (b.finish status uncaught).2 := by
  unfold GatewayBridge.finish at hheeded ⊢
  split at hheeded
  · dsimp only [Report.lost]
    rw [List.append_nil]
    exact h
  · rename_i payload hinflight
    dsimp only [Report.lost]
    have hsettled : Accounts taken lost
        { b with inflight := none, running := b.running && !uncaught } :=
      h.more rfl (Nat.le_refl _) (Nat.le_refl _) fun _ hnone => nomatch hnone
    have hlast := h.last payload hinflight
    have hmem : payload ∈ taken := List.mem_of_getLast? hlast
    have hlater : ∀ p ∈ taken, ∀ n ∈ [payload.revision], p.revision ≤ n := by
      intro p hp n hn
      rw [List.mem_singleton.mp hn]
      obtain ⟨before, rfl⟩ := List.getLast?_eq_some_iff.mp hlast
      cases List.mem_append.mp hp with
      | inl hold =>
          have htaken := (List.pairwise_append.mp h.increasing).1
          exact Nat.le_of_lt ((List.pairwise_append.mp htaken).2.2 p hold payload
            (List.mem_singleton_self _))
      | inr hlast => rw [List.mem_singleton.mp hlast]
    by_cases hstatus : status = some 202
    · rw [if_pos hstatus, if_neg (by simp [hstatus]), List.append_nil]
      exact hsettled
    · rw [if_neg hstatus]
      by_cases hkind : payload.event.event.kind = .invalidation
      · rw [if_neg (by simp [hkind])]
        refine hsettled.lose ?_ hlater
        intro _
        have hdropped : payload.event.dropped ≠ 0 := fun hzero => hstatus (hheeded hkind hzero)
        have hcarried := h.carried payload hmem
        show 0 < b.dropped
        omega
      · rw [if_pos ⟨hstatus, hkind⟩]
        exact (hsettled.recordLoss _).lose (fun _ => Nat.succ_pos _) hlater

theorem discard (h : Accounts taken lost b) (payloads : List Payload) :
    Accounts taken lost (payloads.foldl (fun b p => b.recordLoss p.event.event) b) ∧
      b.dropped + payloads.length =
        (payloads.foldl (fun b p => b.recordLoss p.event.event) b).dropped := by
  induction payloads generalizing b with
  | nil => exact ⟨h, rfl⟩
  | cons payload payloads ih =>
      obtain ⟨hrest, hdropped⟩ := ih (h.recordLoss payload.event.event)
      refine ⟨hrest, ?_⟩
      rw [List.foldl_cons, ← hdropped]
      simp only [GatewayBridge.recordLoss, List.length_cons]
      omega

theorem close (h : Accounts taken lost b) :
    Accounts taken (lost ++ b.close.1.lost) b.close.2 := by
  have hclosed : Accounts taken lost { b with closed := true, queue := [] } := by
    refine ⟨?_, ?_, h.carried, h.last, h.counted, h.clean⟩
    · intro p hp
      rw [List.append_nil] at hp
      exact h.numbered p (List.mem_append_left _ hp)
    · rw [List.append_nil]
      exact (List.pairwise_append.mp h.increasing).1
  obtain ⟨haccounts, hdropped⟩ := hclosed.discard b.queue
  refine haccounts.lose ?_ ?_
  · intro hqueue
    have hlength : 0 < b.queue.length := by
      apply List.length_pos_of_ne_nil
      intro hnil
      simp [hnil, GatewayBridge.close, Report.lost] at hqueue
    show 0 < GatewayBridge.dropped (b.queue.foldl _ _)
    omega
  · intro p hp n hn
    obtain ⟨q, hq, rfl⟩ := List.mem_map.mp hn
    exact Nat.le_of_lt ((List.pairwise_append.mp h.increasing).2.2 p hp q hq)

theorem request_taken (b : GatewayBridge) (lower : Str → Str) (r : Request) (c : Context)
    (token : Str) : (b.request lower r c token).1.taken = [] := by
  unfold GatewayBridge.request
  split
  · rfl
  · split
    · rfl
    · split
      · rfl
      · rfl
      · dsimp only
        split
        · rfl
        · split <;> rfl

theorem finish_taken (b : GatewayBridge) (status : Option Nat) (uncaught : Bool) :
    (b.finish status uncaught).1.taken = [] := by
  unfold GatewayBridge.finish
  split <;> rfl

/-- A step keeps the books, unless an invalidation goes unheeded. -/
theorem step (h : Accounts taken lost b) (lower : Str → Str) (action : Action)
    (hheeded : (bridgeStep lower b action).1.Heeded) :
    Accounts (taken ++ (bridgeStep lower b action).1.taken)
      (lost ++ (bridgeStep lower b action).1.lost) (bridgeStep lower b action).2 := by
  cases action with
  | call call =>
      cases call with
      | request r c token =>
          show Accounts (taken ++ (b.request lower r c token).1.taken) _ _
          rw [request_taken, List.append_nil]
          exact h.request lower r c token
      | _ =>
          show Accounts (taken ++ []) _ _
          rw [List.append_nil]
          exact h.inherited _
  | take => exact h.take.1
  | finish status uncaught =>
      show Accounts (taken ++ (b.finish status uncaught).1.taken) _ _
      rw [finish_taken, List.append_nil]
      exact h.finish status uncaught hheeded
  | close =>
      show Accounts (taken ++ []) _ _
      rw [List.append_nil]
      exact h.close

/-- Only the first section of the worker's loop takes a payload, with the losses known by then. -/
theorem dropped_of_took (h : Accounts taken lost b) (lower : Str → Str) {action : Action}
    {payload : Payload} (htook : (bridgeStep lower b action).1 = .took payload) :
    payload.event.dropped = b.dropped := by
  have hnot : ∀ report : Report, report.taken = [] → report ≠ .took payload := by
    rintro report hnone rfl
    cases hnone
  cases action with
  | call call =>
      cases call with
      | request r c token => exact absurd htook (hnot _ (request_taken b lower r c token))
      | _ => cases htook
  | take => exact h.take.2 payload htook
  | finish status uncaught => exact absurd htook (hnot _ (finish_taken b status uncaught))
  | close => cases htook

end Accounts

/-! ## Runs -/

/-- Every invalidation of the journal that was taken without a loss before it was heeded. -/
def Heeded (journal : Journal) : Prop := ∀ s ∈ journal, s.2.Heeded

variable {lower : Str → Str} {endpoint : Value} {contentEnabled : Bool} {scope : Registration}
  {capacity : Nat} {journal : Journal} {b : GatewayBridge}

/-- What the bridge owes to the router: payloads in the order of their revisions, and the losses on
every payload that is taken after them. -/
structure Accounted (journal : Journal) : Prop where
  numbered : ∀ p ∈ taken journal, p.revision = p.event.sequence
  increasing : (taken journal).Pairwise fun p q => p.revision < q.revision
  shown : ∀ earlier action p later, journal = earlier ++ (action, .took p) :: later →
    lost earlier ≠ [] → 1 ≤ p.event.dropped
  clean : ∀ p ∈ taken journal, p.event.dropped = 0 → ∀ n ∈ lost journal, p.revision ≤ n

theorem runs_accounts
    (run : Runs (bridgeStep lower) (.init endpoint contentEnabled scope capacity) journal b)
    (hheeded : Heeded journal) : Accounts (taken journal) (lost journal) b := by
  induction run with
  | init => exact .init endpoint contentEnabled scope capacity
  | @next before t u action report run hstep ih =>
      have hbefore : Heeded before := fun s hs => hheeded s (List.mem_append_left _ hs)
      have hlast : report.Heeded := hheeded _ (List.mem_append_right _ (List.mem_singleton_self _))
      have haccounts := (ih hbefore).step lower action (by rw [hstep]; exact hlast)
      rw [hstep] at haccounts
      simpa [taken, lost] using haccounts

theorem accounted_of_heeded
    (run : Runs (bridgeStep lower) (.init endpoint contentEnabled scope capacity) journal b)
    (hheeded : Heeded journal) : Accounted journal := by
  have haccounts := runs_accounts run hheeded
  refine ⟨?_, ?_, ?_, haccounts.clean⟩
  · exact fun p hp => (haccounts.numbered p (List.mem_append_left _ hp)).1
  · exact (List.pairwise_append.mp haccounts.increasing).1
  · rintro earlier action p later rfl hlost
    obtain ⟨t, hearlier, hlater⟩ := run.unappend
    have hbefore := runs_accounts hearlier fun s hs => hheeded s (List.mem_append_left _ hs)
    obtain ⟨u, hstep, _⟩ := hlater.uncons
    have htook : (bridgeStep lower t action).1 = .took p := by rw [hstep]
    rw [hbefore.dropped_of_took lower htook]
    exact hbefore.counted hlost

end Recursant.Bridge
