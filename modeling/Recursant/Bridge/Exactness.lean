import Recursant.Bridge.Adapter
import Recursant.Lib.Trace

/-!
# What an exact event says

An identity starts fresh, is annotated by its first request, answered by the first completed response
and spent by anything else that happens to it.  Every callback moves it along this line, so that an
exact event names the one invocation it belongs to.
-/

namespace Recursant.Bridge

open Trace

/-! ## Phases of an identity -/

inductive Phase where
  | fresh
  | annotated (token : Str)
  | answered (token : Str) (calls : List Str)
  | spent

namespace Phase

def token? : Phase → Option Str
  | .annotated token | .answered token _ => some token
  | .fresh | .spent => none

/-- The phase after a revocation. -/
def revoked : Phase → Phase
  | .fresh => .fresh
  | _ => .spent

end Phase

namespace Adapter

def phase (a : Adapter) (k : Identity) : Phase :=
  match a.attempts.get? k with
  | none => .fresh
  | some attempt =>
      if attempt.uses = 1 then
        match a.tools.get? k with
        | none => .annotated attempt.token
        | some calls => .answered attempt.token calls
      else .spent

/-- There is no room for another identity. -/
def Full (a : Adapter) : Prop := 256 ≤ a.attempts.length

/-- Tool calls are kept for identities with an attempt only. -/
def Owned (a : Adapter) : Prop := ∀ k, a.attempts.get? k = none → a.tools.get? k = none

theorem phase_congr {a b : Adapter} {k : Identity} (hattempts : b.attempts.get? k = a.attempts.get? k)
    (htools : b.tools.get? k = a.tools.get? k) : b.phase k = a.phase k := by
  rw [phase, phase, hattempts, htools]

theorem phase_eq_fresh {a : Adapter} {k : Identity} :
    a.phase k = .fresh ↔ a.attempts.get? k = none := by
  unfold phase
  constructor
  · intro h
    split at h
    · assumption
    · split at h
      · split at h <;> cases h
      · cases h
  · intro h
    rw [h]

theorem phase_annotated {a : Adapter} {k : Identity} {token : Str}
    (hattempt : a.attempts.get? k = some ⟨token, 1⟩) (htools : a.tools.get? k = none) :
    a.phase k = .annotated token := by
  simp only [phase, hattempt, htools, if_true]

theorem phase_answered {a : Adapter} {k : Identity} {token : Str} {calls : List Str}
    (hattempt : a.attempts.get? k = some ⟨token, 1⟩) (htools : a.tools.get? k = some calls) :
    a.phase k = .answered token calls := by
  simp only [phase, hattempt, htools, if_true]

theorem phase_spent {a : Adapter} {k : Identity} {token : Str}
    (hattempt : a.attempts.get? k = some ⟨token, 2⟩) : a.phase k = .spent := by
  simp only [phase, hattempt, OfNat.ofNat_ne_one, if_false]

/-- The four phases by what the two dictionaries hold. -/
theorem phase_cases (a : Adapter) (k : Identity) :
    (a.phase k = .fresh ∧ a.attempts.get? k = none) ∨
    (∃ token, a.phase k = .annotated token ∧ a.attempts.get? k = some ⟨token, 1⟩ ∧
      a.tools.get? k = none) ∨
    (∃ token calls, a.phase k = .answered token calls ∧ a.attempts.get? k = some ⟨token, 1⟩ ∧
      a.tools.get? k = some calls) ∨
    (a.phase k = .spent ∧ ∃ attempt, a.attempts.get? k = some attempt ∧ attempt.uses ≠ 1) := by
  cases hattempt : a.attempts.get? k with
  | none => exact .inl ⟨phase_eq_fresh.mpr hattempt, rfl⟩
  | some attempt =>
      right
      by_cases huses : attempt.uses = 1
      · obtain ⟨token, uses⟩ := attempt
        obtain rfl : uses = 1 := huses
        cases htools : a.tools.get? k with
        | none => exact .inl ⟨token, phase_annotated hattempt htools, rfl, rfl⟩
        | some calls => exact .inr (.inl ⟨token, calls, phase_answered hattempt htools, rfl, rfl⟩)
      · refine .inr (.inr ⟨?_, attempt, rfl, huses⟩)
        simp only [phase, hattempt, huses, if_false]

theorem exactToken_none (a : Adapter) : a.exactToken none = none := rfl

theorem exactToken_some (a : Adapter) (k : Identity) :
    a.exactToken (some k) = (a.phase k).token? := by
  rcases a.phase_cases k with ⟨hphase, hattempt⟩ | ⟨token, hphase, hattempt, _⟩ |
    ⟨token, calls, hphase, hattempt, _⟩ | ⟨hphase, attempt, hattempt, huses⟩
  all_goals
    rw [hphase]
    simp only [exactToken, Adapter.attempt, Option.bind_some, hattempt, Option.bind_none, if_true,
      Phase.token?]
  rw [if_neg huses]

/-! ## Revocation -/

/-- What `_invalidate` does to the identity, and that it does nothing else. -/
structure Revokes (a : Adapter) (key : Option Identity) (events : List Event) (b : Adapter) :
    Prop where
  endpoint : b.endpoint = a.endpoint
  size : a.attempts.length ≤ b.attempts.length
  owned : a.Owned → b.Owned
  self : ∀ k, key = some k → b.phase k = (a.phase k).revoked
  others : ∀ k, key ≠ some k → b.phase k = a.phase k
  kinds : ∀ e ∈ events, e.kind = .invalidation ∧ e.association = .ambiguous ∧ e.identity = key
  fresh : ∀ k, key = some k → a.phase k = .fresh → events = []

/-- Nothing known of the identity, nothing revoked. -/
theorem Revokes.nothing {a : Adapter} {key : Option Identity}
    (h : ∀ k, key = some k → a.phase k = .fresh) : Revokes a key [] a where
  endpoint := rfl
  size := Nat.le_refl _
  owned := id
  self := by
    intro k hk
    rw [h k hk, Phase.revoked]
  others := fun _ _ => rfl
  kinds := by simp
  fresh := fun _ _ _ => rfl

theorem invalidate_revokes (a : Adapter) (key : Option Identity) :
    Revokes a key (a.invalidate key).1 (a.invalidate key).2 := by
  cases key with
  | none => exact .nothing (by nofun)
  | some k =>
      cases hprevious : a.attempts.get? k with
      | none =>
          have hnone : a.invalidate (some k) = ([], a) := by
            simp only [invalidate, hprevious]
          rw [hnone]
          apply Revokes.nothing
          rintro k' ⟨⟩
          exact phase_eq_fresh.mpr hprevious
      | some previous =>
          simp only [invalidate, hprevious]
          have hspent : ∀ b : Adapter, b.attempts = a.attempts.set k ⟨previous.token, 2⟩ →
              b.phase k = .spent := by
            intro b hb
            have hattempt : b.attempts.get? k = some ⟨previous.token, 2⟩ := by
              rw [hb, Dict.get?_set_self]
            exact phase_spent hattempt
          have hlive : a.phase k ≠ .fresh := by
            intro h
            rw [phase_eq_fresh.mp h] at hprevious
            cases hprevious
          refine ⟨rfl, Dict.length_le_set .., ?_, ?_, ?_, ?_, ?_⟩
          · intro howned k' hk'
            by_cases h : k' = k
            · subst h
              exact Dict.get?_pop_self ..
            · rw [Dict.get?_set_ne _ _ h] at hk'
              rw [Dict.get?_pop_ne _ h]
              exact howned k' hk'
          · rintro k' ⟨⟩
            rw [hspent _ rfl]
            cases hphase : a.phase k with
            | fresh => exact absurd hphase hlive
            | _ => rfl
          · intro k' hk'
            have h : k' ≠ k := fun h => hk' (h ▸ rfl)
            exact phase_congr (Dict.get?_set_ne _ _ h) (Dict.get?_pop_ne _ h)
          · simp
          · rintro k' ⟨⟩ hfresh
            exact absurd hfresh hlive

theorem Revokes.trans {a b c : Adapter} {key : Option Identity} {events again : List Event}
    (first : Revokes a key events b) (second : Revokes b key again c) :
    Revokes a key (events ++ again) c where
  endpoint := second.endpoint.trans first.endpoint
  size := first.size.trans second.size
  owned := second.owned ∘ first.owned
  self := by
    intro k hk
    rw [second.self k hk, first.self k hk]
    cases a.phase k <;> rfl
  others := fun k hk => (second.others k hk).trans (first.others k hk)
  kinds := by
    intro e he
    cases List.mem_append.mp he with
    | inl h => exact first.kinds e h
    | inr h => exact second.kinds e h
  fresh := by
    intro k hk hfresh
    have hfirst : b.phase k = .fresh := by
      rw [first.self k hk, hfresh]
      rfl
    rw [first.fresh k hk hfresh, second.fresh k hk hfirst, List.append_nil]

/-! ## Annotation -/

/-- The request is one that the adapter annotates. -/
def accepts (lower : Str → Str) (endpoint : Value) (r : Request) (c : Context) : Bool :=
  (identity c).isSome && (counted c.apiCallCount).isSome && c.baseUrl.eq endpoint &&
    match r.extraHeaders with
    | .pairs items => !(Dict.ofPairs items).any fun e => reserved lower e.1
    | _ => false

/-- The header of the result that carries the attempt. -/
def attemptHeader (answer : Answer) : Option Value :=
  answer.returned.bind fun r =>
    match r.extraHeaders with
    | .pairs items => Dict.get? items "X-Recursant-attempt"
    | _ => none

/-- The dictionary of attempts after an annotation. -/
def record (a : Adapter) (k : Identity) (token : Str) : Dict Identity Attempt :=
  if (a.attempts.get? k).isSome || a.attempts.length < 256 then
    a.attempts.set k ⟨token, if (a.attempts.get? k).isSome then 2 else 1⟩
  else a.attempts

theorem request_abstains {lower : Str → Str} {a : Adapter} {r : Request} {c : Context} (token : Str)
    (h : accepts lower a.endpoint r c = false) :
    (a.request lower r c token).1.returned = none ∧
      Revokes a (identity c) (a.request lower r c token).1.events (a.request lower r c token).2 := by
  have hrevoked := a.invalidate_revokes (identity c)
  generalize hinvalidate : a.invalidate (identity c) = first at hrevoked
  obtain ⟨revoked, b⟩ := first
  dsimp only at hrevoked
  unfold request
  rw [hinvalidate]
  dsimp only
  split
  case h_2 => exact ⟨rfl, hrevoked⟩
  case h_1 k count hk hcount =>
    split
    · exact ⟨rfl, hrevoked⟩
    · rename_i hendpoint
      split
      · exact ⟨rfl, hrevoked⟩
      · exact ⟨rfl, hrevoked⟩
      · rename_i items hitems
        rw [hrevoked.endpoint] at hendpoint
        split
        · rw [hk] at hrevoked ⊢
          exact ⟨rfl, hrevoked.trans (b.invalidate_revokes (some k))⟩
        · rename_i hreserved
          rw [Bool.not_eq_true] at hreserved
          rw [Bool.not_eq_true, Bool.not_eq_false'] at hendpoint
          simp only [accepts, hk, hcount, hitems, hendpoint, hreserved, Option.isSome_some,
            Bool.true_and, Bool.not_false] at h
          cases h

theorem request_annotates {lower : Str → Str} {a : Adapter} {r : Request} {c : Context}
    (token : Str) (h : accepts lower a.endpoint r c = true) :
    ∃ k events b, identity c = some k ∧ Revokes a (some k) events b ∧
      attemptHeader (a.request lower r c token).1 = some (.str token) ∧
      (a.request lower r c token).1.events = events ∧
      (a.request lower r c token).2 = { b with attempts := b.record k token } := by
  simp only [accepts, Bool.and_eq_true] at h
  obtain ⟨⟨⟨hidentity, hcounted⟩, hendpoint⟩, hheaders⟩ := h
  obtain ⟨k, hk⟩ := Option.isSome_iff_exists.mp hidentity
  obtain ⟨count, hcount⟩ := Option.isSome_iff_exists.mp hcounted
  split at hheaders
  case h_2 => cases hheaders
  case h_1 items hitems =>
    have hrevoked := a.invalidate_revokes (identity c)
    generalize hinvalidate : a.invalidate (identity c) = first at hrevoked
    obtain ⟨revoked, b⟩ := first
    dsimp only at hrevoked
    rw [← hrevoked.endpoint] at hendpoint
    unfold request
    rw [hinvalidate]
    simp only [hk, hcount, hendpoint, hitems, Bool.not_true, Bool.false_eq_true, if_false]
    rw [hk] at hrevoked
    rw [if_neg (by simpa using hheaders)]
    refine ⟨k, revoked, b, rfl, hrevoked, ?_, rfl, rfl⟩
    simp only [attemptHeader, Option.bind_some, Dict.update, correlation, List.foldl_cons,
      List.foldl_nil, Dict.get?_set_self]

/-! ## Steps -/

/-- How one callback moves an identity from phase to phase; `full` and `full'` say that there is no
room for another identity before and after it. -/
inductive Moves (lower : Str → Str) (endpoint : Value) (k : Identity) (full full' : Prop) :
    Phase → Call → Answer → Phase → Prop
  | other {p : Phase} {call : Call} {answer : Answer} : call.key ≠ some k →
      Moves lower endpoint k full full' p call answer p
  | idle {call : Call} {answer : Answer} : call.key = some k →
      (∀ e ∈ answer.events, e.kind ≠ .invalidation ∧ e.association ≠ .exact) →
      (full' ∨ ∀ r c token, call = .request r c token → accepts lower endpoint r c = false) →
      Moves lower endpoint k full full' .fresh call answer .fresh
  | annotate {r : Request} {c : Context} {token : Str} {answer : Answer} : ¬ full →
      identity c = some k → accepts lower endpoint r c = true → attemptHeader answer = some (.str token) →
      answer.events = [] →
      Moves lower endpoint k full full' .fresh (.request r c token) answer (.annotated token)
  | raise {c : Context} {token : Str} {answer : Answer} : identity c = some k →
      c.baseUrl.eq endpoint = true → completed c = true →
      c.assistantMessage.toolCalls = .unsliceable → answer.events = [] →
      Moves lower endpoint k full full' (.annotated token) (.response c) answer (.annotated token)
  | answer {c : Context} {token : Str} {ids : List Value} {answer : Answer} {event : Event} :
      identity c = some k → c.baseUrl.eq endpoint = true → completed c = true →
      c.assistantMessage.toolCalls = .listed ids → answer.events = [event] →
      event.kind = .response → event.association = .exact → event.attempt = some token →
      Moves lower endpoint k full full' (.annotated token) (.response c) answer
        (.answered token (callIds ids))
  | spend {p : Phase} {call : Call} {answer : Answer} : call.key = some k → p ≠ .fresh →
      (∀ e ∈ answer.events, e.association ≠ .exact) →
      Moves lower endpoint k full full' p call answer .spent
  | tool {p : Phase} {c : Context} {answer : Answer} {event : Event} : identity c = some k →
      answer.events = [event] → event.kind = .tool →
      (event.association = .exact → ∃ token calls call, p = .answered token calls ∧
        event.attempt = some token ∧ event.toolCallId = some call ∧ call ∈ calls) →
      Moves lower endpoint k full full' p (.tool c) answer p

variable {lower : Str → Str} {a : Adapter} {k : Identity}

theorem record_get?_ne (a : Adapter) {k k' : Identity} (token : Str) (h : k' ≠ k) :
    (a.record k token).get? k' = a.attempts.get? k' := by
  unfold record
  split
  · exact Dict.get?_set_ne _ _ h
  · rfl

theorem length_le_record (a : Adapter) (k : Identity) (token : Str) :
    a.attempts.length ≤ (a.record k token).length := by
  unfold record
  split
  · exact Dict.length_le_set ..
  · exact Nat.le_refl _

/-- A second annotation spends the identity. -/
theorem record_spent (token : Str) (h : a.phase k ≠ .fresh) :
    Adapter.phase { a with attempts := a.record k token } k = .spent := by
  cases hattempt : a.attempts.get? k with
  | none => exact absurd (phase_eq_fresh.mpr hattempt) h
  | some attempt =>
      have hrecord : (a.record k token).get? k = some ⟨token, 2⟩ := by
        simp [record, hattempt]
      exact phase_spent hrecord

/-- Revoking is a move that spends the identity, or none when nothing is known of it. -/
theorem Revokes.moves (call : Call) {answer : Answer} {events : List Event} {b : Adapter}
    {full full' : Prop} (h : Revokes a (some k) events b) (hkey : call.key = some k)
    (hevents : ∀ e ∈ answer.events, e ∈ events ∨ e.kind ≠ .invalidation ∧ e.association ≠ .exact)
    (hcall : ∀ r c token, call = .request r c token → accepts lower a.endpoint r c = false) :
    Moves lower a.endpoint k full full' (a.phase k) call answer (b.phase k) := by
  rw [h.self k rfl]
  cases hphase : a.phase k with
  | fresh =>
      refine .idle hkey ?_ (.inr hcall)
      intro e he
      cases hevents e he with
      | inl hrevoked =>
          rw [h.fresh k rfl hphase] at hrevoked
          cases hrevoked
      | inr hquiet => exact hquiet
  | _ =>
      refine .spend hkey (by nofun) ?_
      intro e he
      cases hevents e he with
      | inl hrevoked => rw [(h.kinds e hrevoked).2.1]; nofun
      | inr hquiet => exact hquiet.2

theorem request_moves {r : Request} {c : Context} {token : Str} (howned : a.Owned)
    (hkey : identity c = some k) :
    Moves lower a.endpoint k a.Full (a.request lower r c token).2.Full (a.phase k)
      (.request r c token) (a.request lower r c token).1 ((a.request lower r c token).2.phase k) := by
  cases haccepts : accepts lower a.endpoint r c with
  | false =>
      obtain ⟨_, hrevokes⟩ := request_abstains token haccepts
      rw [hkey] at hrevokes
      refine hrevokes.moves (.request r c token) hkey (fun _ he => .inl he) ?_
      rintro _ _ _ ⟨⟩
      exact haccepts
  | true =>
      obtain ⟨k', events, b, hk', hrevokes, hheader, hevents, hstate⟩ :=
        request_annotates token haccepts
      obtain rfl : k' = k := Option.some.inj (hk'.symm.trans hkey)
      rw [hstate]
      cases hphase : a.phase k' with
      | fresh =>
          have hfresh : b.phase k' = .fresh := by
            rw [hrevokes.self k' rfl, hphase]
            rfl
          have hnone : b.attempts.get? k' = none := phase_eq_fresh.mp hfresh
          rw [hrevokes.fresh k' rfl hphase] at hevents
          by_cases hroom : b.attempts.length < 256
          · have hphase' : Adapter.phase { b with attempts := b.record k' token } k' =
                .annotated token := by
              apply phase_annotated
              · simp [record, hnone, hroom]
              · exact hrevokes.owned howned k' hnone
            rw [hphase']
            have hbefore : ¬ a.Full :=
              Nat.not_le.mpr (Nat.lt_of_le_of_lt hrevokes.size hroom)
            exact .annotate hbefore hkey haccepts hheader hevents
          · have hsame : b.record k' token = b.attempts := by
              simp [record, hnone, hroom]
            rw [hsame, hfresh]
            refine .idle hkey ?_ (.inl ?_)
            · rw [hevents]
              simp
            · exact Nat.not_lt.mp hroom
      | _ =>
          have hlive : b.phase k' ≠ .fresh := by
            rw [hrevokes.self k' rfl, hphase]
            intro heq
            cases heq
          rw [record_spent token hlive]
          refine .spend hkey (by intro heq; cases heq) ?_
          rw [hevents]
          intro e he
          rw [(hrevokes.kinds e he).2.1]
          intro heq
          cases heq

theorem associate_doubtful {key : Option Identity} {m : Message} (h : a.exactToken key = none) :
    a.associate key m = ({ events := [a.doubtfulResponse key] }, a) := by
  cases key <;> simp only [associate, h]

theorem doubtfulResponse_association (a : Adapter) (key : Option Identity) :
    (a.doubtfulResponse key).association ≠ .exact := by
  unfold doubtfulResponse
  dsimp only
  split <;> nofun

/-- A response that is out of order, or of another endpoint, is a revocation. -/
theorem response_revoked {c : Context} (h : c.baseUrl.eq a.endpoint = false ∨
      (a.listed (identity c)).isSome ∨ completed c = false) (hkey : identity c = some k) :
    ∃ b : Adapter, (a.response c).2 = b ∧ ∃ events, Revokes a (some k) events b ∧
      ∀ e ∈ (a.response c).1.events,
        e ∈ events ∨ e.kind ≠ .invalidation ∧ e.association ≠ .exact := by
  have hrevokes := a.invalidate_revokes (some k)
  unfold response
  rw [hkey] at h ⊢
  dsimp only
  by_cases hendpoint : c.baseUrl.eq a.endpoint = false
  · rw [hendpoint]
    exact ⟨_, rfl, _, hrevokes, fun _ he => .inl he⟩
  · have hlate : ((a.listed (some k)).isSome || !completed c) = true := by
      simpa [hendpoint] using h
    have hnone : (a.invalidate (some k)).2.exactToken (some k) = none := by
      rw [exactToken_some, hrevokes.self k rfl]
      cases a.phase k <;> rfl
    rw [Bool.not_eq_false] at hendpoint
    rw [hendpoint, hlate, if_pos rfl, associate_doubtful hnone]
    refine ⟨_, rfl, _, hrevokes, ?_⟩
    intro e he
    cases List.mem_append.mp he with
    | inl hrevoked => exact .inl hrevoked
    | inr hlast =>
        obtain rfl := List.mem_singleton.mp hlast
        exact .inr ⟨by nofun, doubtfulResponse_association _ _⟩

/-- A response in order is left to its association. -/
theorem response_in_order {c : Context} (hendpoint : c.baseUrl.eq a.endpoint = true)
    (hlisted : (a.listed (identity c)).isSome = false) (hcompleted : completed c = true) :
    a.response c = a.associate (identity c) c.assistantMessage := by
  unfold response
  simp only [hendpoint, hlisted, hcompleted, Bool.not_true, Bool.or_self, Bool.false_eq_true,
    if_false, List.nil_append]

theorem response_moves {c : Context} (hkey : identity c = some k) {full full' : Prop} :
    Moves lower a.endpoint k full full' (a.phase k) (.response c) (a.response c).1
      ((a.response c).2.phase k) := by
  have hrequest : ∀ r c' token, Call.response c = .request r c' token →
      accepts lower a.endpoint r c' = false := by
    intro r c' token h
    cases h
  by_cases hrevoked : c.baseUrl.eq a.endpoint = false ∨
      (a.listed (identity c)).isSome ∨ completed c = false
  · obtain ⟨b, hb, events, hrevokes, hevents⟩ := response_revoked hrevoked hkey
    rw [hb]
    exact hrevokes.moves (.response c) hkey hevents hrequest
  · simp only [not_or, Bool.not_eq_false, Bool.not_eq_true] at hrevoked
    obtain ⟨hendpoint, hlisted, hcompleted⟩ := hrevoked
    rw [response_in_order hendpoint hlisted hcompleted]
    rw [hkey] at hlisted ⊢
    rcases a.phase_cases k with ⟨hphase, hattempt⟩ | ⟨token, hphase, hattempt, htools⟩ |
      ⟨token, calls, hphase, hattempt, htools⟩ | ⟨hphase, attempt, hattempt, huses⟩
    · have htoken : a.exactToken (some k) = none := by rw [exactToken_some, hphase]; rfl
      rw [associate_doubtful htoken, hphase]
      refine .idle hkey ?_ (.inr hrequest)
      intro e he
      obtain rfl := List.mem_singleton.mp he
      exact ⟨by nofun, doubtfulResponse_association _ _⟩
    · have htoken : a.exactToken (some k) = some token := by rw [exactToken_some, hphase]; rfl
      unfold associate
      rw [htoken]
      dsimp only
      split
      · rename_i hcalls
        rw [hphase]
        exact .raise hkey hendpoint hcompleted hcalls rfl
      · rename_i ids hcalls
        have hanswered : Adapter.phase { a with tools := a.tools.set k (callIds ids) } k =
            .answered token (callIds ids) :=
          phase_answered hattempt (Dict.get?_set_self ..)
        rw [hphase, hanswered]
        exact .answer hkey hendpoint hcompleted hcalls rfl rfl rfl rfl
    · rw [listed, Option.bind_some, htools] at hlisted
      cases hlisted
    · have htoken : a.exactToken (some k) = none := by rw [exactToken_some, hphase]; rfl
      rw [associate_doubtful htoken, hphase]
      refine .spend hkey (by nofun) ?_
      intro e he
      obtain rfl := List.mem_singleton.mp he
      exact doubtfulResponse_association _ _

theorem joined_eq_some {c : Context} {token call : Str} (h : a.joined c = some (token, call))
    (hkey : identity c = some k) :
    ∃ calls, a.phase k = .answered token calls ∧ call ∈ calls := by
  unfold joined at h
  rw [hkey, exactToken_some] at h
  split at h
  case h_2 => cases h
  case h_1 htoken _ =>
    split at h
    case isFalse => cases h
    case isTrue hmem =>
      cases h
      rcases a.phase_cases k with ⟨hphase, _⟩ | ⟨_, hphase, _, htools⟩ |
        ⟨_, calls, hphase, _, htools⟩ | ⟨hphase, _⟩
      · rw [hphase] at htoken
        cases htoken
      · rw [listed, Option.bind_some, htools] at hmem
        cases hmem
      · rw [hphase] at htoken
        cases htoken
        rw [listed, Option.bind_some, htools] at hmem
        exact ⟨calls, hphase, hmem⟩
      · rw [hphase] at htoken
        cases htoken

theorem tool_moves {c : Context} (hkey : identity c = some k) {full full' : Prop} :
    Moves lower a.endpoint k full full' (a.phase k) (.tool c) (a.tool c).1 ((a.tool c).2.phase k) := by
  unfold tool
  split
  case h_1 token call hjoined =>
    obtain ⟨calls, hphase, hmem⟩ := joined_eq_some hjoined hkey
    exact .tool hkey rfl rfl fun _ => ⟨token, calls, call, hphase, rfl, rfl, hmem⟩
  case h_2 =>
    exact .tool hkey rfl rfl (by nofun)

/-- What a callback leaves as it was, whatever its identity. -/
structure Frame (a : Adapter) (key : Option Identity) (answer : Answer) (b : Adapter) : Prop where
  endpoint : b.endpoint = a.endpoint
  size : a.attempts.length ≤ b.attempts.length
  owned : a.Owned → b.Owned
  others : ∀ k, key ≠ some k → b.phase k = a.phase k
  identities : ∀ e ∈ answer.events, e.identity = key
  unidentified : key = none → ∀ e ∈ answer.events, e.association ≠ .exact

theorem Revokes.frame {key : Option Identity} {events : List Event} {answer : Answer} {b : Adapter}
    (h : Revokes a key events b) (hevents : ∀ e ∈ answer.events, e ∈ events) :
    Frame a key answer b where
  endpoint := h.endpoint
  size := h.size
  owned := h.owned
  others := h.others
  identities := fun e he => (h.kinds e (hevents e he)).2.2
  unidentified := by
    intro _ e he
    rw [(h.kinds e (hevents e he)).2.1]
    nofun

theorem Revokes.frame_trans {key : Option Identity} {events : List Event} {answer : Answer}
    {b c : Adapter} (h : Revokes a key events b) (second : Frame b key answer c) :
    Frame a key { answer with events := events ++ answer.events } c where
  endpoint := second.endpoint.trans h.endpoint
  size := h.size.trans second.size
  owned := second.owned ∘ h.owned
  others := fun k hk => (second.others k hk).trans (h.others k hk)
  identities := by
    intro e he
    cases List.mem_append.mp he with
    | inl hfirst => exact (h.kinds e hfirst).2.2
    | inr hlast => exact second.identities e hlast
  unidentified := by
    intro hnone e he
    cases List.mem_append.mp he with
    | inl hfirst => rw [(h.kinds e hfirst).2.1]; nofun
    | inr hlast => exact second.unidentified hnone e hlast

theorem request_frame (a : Adapter) (r : Request) (c : Context) (token : Str) :
    Frame a (identity c) (a.request lower r c token).1 (a.request lower r c token).2 := by
  cases haccepts : accepts lower a.endpoint r c with
  | false => exact (request_abstains token haccepts).2.frame fun _ he => he
  | true =>
      obtain ⟨k, events, b, hk, hrevokes, _, hevents, hstate⟩ := request_annotates token haccepts
      rw [hstate, hk]
      refine ⟨hrevokes.endpoint, hrevokes.size.trans (b.length_le_record k token), ?_, ?_, ?_, ?_⟩
      · intro howned k' hk'
        apply hrevokes.owned howned
        show b.attempts.get? k' = none
        by_cases h : k' = k
        · subst h
          by_contra hsome
          have hspent := record_spent token (mt phase_eq_fresh.mp hsome)
          rw [phase_eq_fresh.mpr hk'] at hspent
          cases hspent
        · rwa [← b.record_get?_ne token h]
      · intro k' hk'
        have h : k' ≠ k := fun h => hk' (h ▸ rfl)
        rw [← hrevokes.others k' hk']
        exact phase_congr (b.record_get?_ne token h) rfl
      · rw [hevents]
        exact fun e he => (hrevokes.kinds e he).2.2
      · nofun

theorem associate_frame (a : Adapter) (key : Option Identity) (m : Message) :
    Frame a key (a.associate key m).1 (a.associate key m).2 := by
  unfold associate
  split
  case h_1 k token htoken =>
    split
    · exact ⟨rfl, Nat.le_refl _, id, fun _ _ => rfl, by simp, by nofun⟩
    · refine ⟨rfl, Nat.le_refl _, ?_, ?_, ?_, by nofun⟩
      · intro howned k' hk'
        have h : k' ≠ k := by
          rintro rfl
          have hfresh : a.phase k' = .fresh := phase_eq_fresh.mpr hk'
          rw [exactToken_some, hfresh] at htoken
          cases htoken
        rw [Dict.get?_set_ne _ _ h]
        exact howned k' hk'
      · intro k' hk'
        have h : k' ≠ k := fun h => hk' (h ▸ rfl)
        exact phase_congr rfl (Dict.get?_set_ne _ _ h)
      · intro e he
        obtain rfl := List.mem_singleton.mp he
        rfl
  case h_2 =>
    refine ⟨rfl, Nat.le_refl _, id, fun _ _ => rfl, ?_, ?_⟩
    all_goals intros
    · rename_i e he
      obtain rfl := List.mem_singleton.mp he
      rfl
    · rename_i e he
      obtain rfl := List.mem_singleton.mp he
      exact doubtfulResponse_association _ _

theorem response_frame (a : Adapter) (c : Context) :
    Frame a (identity c) (a.response c).1 (a.response c).2 := by
  have hrevokes := a.invalidate_revokes (identity c)
  unfold response
  dsimp only
  split
  · exact hrevokes.frame fun _ he => he
  · split
    · exact hrevokes.frame_trans (associate_frame _ _ _)
    · exact associate_frame _ _ _

theorem tool_frame (a : Adapter) (c : Context) :
    Frame a (identity c) (a.tool c).1 (a.tool c).2 := by
  unfold tool
  split
  case h_1 token call hjoined =>
    refine ⟨rfl, Nat.le_refl _, id, fun _ _ => rfl, ?_, ?_⟩
    · intro e he
      obtain rfl := List.mem_singleton.mp he
      rfl
    · intro hnone
      rw [joined, hnone, exactToken_none] at hjoined
      cases hjoined
  case h_2 =>
    refine ⟨rfl, Nat.le_refl _, id, fun _ _ => rfl, ?_, ?_⟩
    all_goals intros
    all_goals rename_i e he
    all_goals obtain rfl := List.mem_singleton.mp he
    · rfl
    · nofun

theorem error_frame (a : Adapter) (c : Context) :
    Frame a (identity c) (a.error c).1 (a.error c).2 :=
  (a.invalidate_revokes (identity c)).frame fun _ he => he

theorem step_frame (lower : Str → Str) (a : Adapter) (call : Call) :
    Frame a call.key (step lower a call).1 (step lower a call).2 := by
  cases call with
  | request r c token => exact request_frame a r c token
  | response c => exact response_frame a c
  | tool c => exact tool_frame a c
  | error c => exact error_frame a c

theorem step_moves (lower : Str → Str) (k : Identity) (howned : a.Owned) (call : Call) :
    Moves lower a.endpoint k a.Full (step lower a call).2.Full (a.phase k) call (step lower a call).1
      ((step lower a call).2.phase k) := by
  by_cases hkey : call.key = some k
  · cases call with
    | request r c token => exact request_moves howned hkey
    | response c => exact response_moves hkey
    | tool c => exact tool_moves hkey
    | error c =>
        have hidentity : identity c = some k := hkey
        have hrevokes := a.invalidate_revokes (identity c)
        rw [hidentity] at hrevokes
        show Moves lower a.endpoint k _ _ (a.phase k) (.error c) (a.error c).1 ((a.error c).2.phase k)
        unfold error
        rw [hidentity]
        refine hrevokes.moves (.error c) hkey (fun _ he => .inl he) ?_
        intro r c' token h
        cases h
  · rw [(step_frame lower a call).others k hkey]
    exact .other hkey

end Adapter

/-! ## Runs -/

abbrev History := List (Call × Answer)

def emitted (history : History) : List Event := history.flatMap (·.2.events)

/-- The call invokes `request` with the identity, whether it annotates the request or not. -/
def invokes (k : Identity) : Call → Bool
  | .request _ c _ => identity c = some k
  | _ => false

def requests (k : Identity) (calls : List Call) : List Call := calls.filter (invokes k)

/-- The call is a request that the adapter annotates. -/
def annotates (lower : Str → Str) (endpoint : Value) : Call → Bool
  | .request r c _ => Adapter.accepts lower endpoint r c
  | _ => false

/-- A response that ends its turn at the endpoint, but raises, comes before one that does not. -/
def Spoils (endpoint : Value) (earlier later : Call) : Prop :=
  match earlier, later with
  | .response c, .response c' =>
      (identity c).isSome ∧ identity c = identity c' ∧
        c.baseUrl.eq endpoint = true ∧ Adapter.completed c = true ∧
        c.assistantMessage.toolCalls = .unsliceable ∧
        c'.baseUrl.eq endpoint = true ∧ Adapter.completed c' = true ∧
        c'.assistantMessage.toolCalls ≠ .unsliceable
  | _, _ => False

instance (endpoint : Value) (earlier later : Call) : Decidable (Spoils endpoint earlier later) := by
  unfold Spoils
  split <;> infer_instance

/-- An identity whose first request is not annotated has no request that is, and no response that
raises is followed by a good one. -/
structure Unspoilt (lower : Str → Str) (endpoint : Value) (calls : List Call) : Prop where
  first : ∀ k call rest, requests k calls = call :: rest → annotates lower endpoint call = false →
    ∀ later ∈ rest, annotates lower endpoint later = false
  responses : calls.Pairwise fun earlier later => ¬ Spoils endpoint earlier later

/-- One request with the identity is in the history, it annotates with the token, and since then
there were tool results only. -/
def Annotated (k : Identity) (token : Str) (history : History) : Prop :=
  ∃ before request between, history = before ++ request :: between ∧
    (∀ s ∈ before, invokes k s.1 = false) ∧ invokes k request.1 = true ∧
    Adapter.attemptHeader request.2 = some (.str token) ∧
    ∀ s ∈ between, s.1.key = some k → ∃ c, s.1 = .tool c

/-- The history has the exact response of the attempt, and it lists the call. -/
def Lists (k : Identity) (token call : Str) (history : History) : Prop :=
  ∃ c answer ids event, (.response c, answer) ∈ history ∧ identity c = some k ∧
    c.assistantMessage.toolCalls = .listed ids ∧ .str call ∈ ids ∧ event ∈ answer.events ∧
    event.kind = .response ∧ event.association = .exact ∧ event.attempt = some token

/-- Every exact event belongs to one invocation, and an identity has one exact response. -/
structure Exact (endpoint : Value) (history : History) : Prop where
  response : ∀ earlier call answer later event, history = earlier ++ (call, answer) :: later →
    event ∈ answer.events → event.kind = .response → event.association = .exact →
    ∃ k token c, event.identity = some k ∧ event.attempt = some token ∧ call = .response c ∧
      c.baseUrl.eq endpoint = true ∧ Adapter.completed c = true ∧ Annotated k token earlier
  tool : ∀ earlier call answer later event, history = earlier ++ (call, answer) :: later →
    event ∈ answer.events → event.kind = .tool → event.association = .exact →
    ∃ k token call, event.identity = some k ∧ event.attempt = some token ∧
      event.toolCallId = some call ∧ Lists k token call earlier
  revoked : (emitted history).Pairwise fun event later =>
    event.kind = .invalidation → later.identity = event.identity → later.association ≠ .exact
  once : (emitted history).Pairwise fun event later =>
    event.kind = .response → event.association = .exact → later.kind = .response →
      later.identity = event.identity → later.association ≠ .exact

namespace Unspoilt

variable {lower : Str → Str} {endpoint : Value} {calls later : List Call}

theorem take (h : Unspoilt lower endpoint (calls ++ later)) : Unspoilt lower endpoint calls where
  first := by
    intro k call rest hrequests hfirst call' hcall'
    apply h.first k call (rest ++ requests k later) _ hfirst call' (List.mem_append_left _ hcall')
    rw [requests, List.filter_append, ← requests, hrequests]
    rfl
  responses := (List.pairwise_append.mp h.responses).1

/-- An annotation that finds no annotation before it finds no request at all. -/
theorem alone {k : Identity} {call : Call} (h : Unspoilt lower endpoint (calls ++ [call]))
    (hcall : annotates lower endpoint call = true) (hinvokes : invokes k call = true)
    (hnone : ∀ earlier ∈ requests k calls, annotates lower endpoint earlier = false) :
    requests k calls = [] := by
  cases hrequests : requests k calls with
  | nil => rfl
  | cons first rest =>
      have hfirst : annotates lower endpoint first = false := by
        apply hnone
        rw [hrequests]
        exact List.mem_cons_self
      have hall : requests k (calls ++ [call]) = first :: (rest ++ [call]) := by
        rw [requests, List.filter_append, ← requests, hrequests, List.filter_singleton, hinvokes]
        rfl
      have hlast := h.first k first _ hall hfirst call (List.mem_append_right _ (List.mem_singleton_self _))
      rw [hcall] at hlast
      cases hlast

end Unspoilt

/-! ## What is known of an identity in its phase -/

/-- The history so far, as the phase of the identity remembers it. -/
def Standing (lower : Str → Str) (endpoint : Value) (k : Identity) (full : Prop)
    (history : History) : Phase → Prop
  | .fresh => full ∨ ∀ call ∈ requests k (history.map (·.1)), annotates lower endpoint call = false
  | .annotated token => ∃ before request between, history = before ++ request :: between ∧
      (∀ s ∈ before, invokes k s.1 = false) ∧ invokes k request.1 = true ∧
      Adapter.attemptHeader request.2 = some (.str token) ∧
      ∀ s ∈ between, s.1.key = some k → (∃ c, s.1 = .tool c) ∨
        ∃ c, s.1 = .response c ∧ c.baseUrl.eq endpoint = true ∧ Adapter.completed c = true ∧
          c.assistantMessage.toolCalls = .unsliceable
  | .answered token calls => ∀ call ∈ calls, Lists k token call history
  | .spent => True

structure Known (lower : Str → Str) (endpoint : Value) (k : Identity) (full : Prop)
    (history : History) (p : Phase) : Prop where
  standing : Standing lower endpoint k full history p
  revoked : ∀ e ∈ emitted history, e.identity = some k → e.kind = .invalidation → p = .spent
  responded : ∀ e ∈ emitted history, e.identity = some k → e.kind = .response →
    e.association = .exact → p = .spent ∨ ∃ token calls, p = .answered token calls

variable {lower : Str → Str} {endpoint : Value} {k : Identity} {full full' : Prop}
  {history : History} {p p' : Phase} {call : Call} {answer : Answer}

@[simp] theorem emitted_append (history later : History) :
    emitted (history ++ later) = emitted history ++ emitted later := by
  simp [emitted]

theorem Lists.next {token id : Str} (h : Lists k token id history) (s : Call × Answer) :
    Lists k token id (history ++ [s]) := by
  obtain ⟨c, answer, ids, event, hmem, hrest⟩ := h
  exact ⟨c, answer, ids, event, List.mem_append_left _ hmem, hrest⟩

theorem mem_of_mem_callIds {ids : List Value} {id : Str} (h : id ∈ Adapter.callIds ids) :
    .str id ∈ ids := by
  unfold Adapter.callIds at h
  obtain ⟨v, hv, hid⟩ := List.mem_filterMap.mp h
  split at hid
  · split at hid
    · cases hid
      exact List.mem_of_mem_take hv
    · cases hid
  · cases hid

theorem key_of_invokes (h : invokes k call = true) : call.key = some k := by
  cases call with
  | request r c token => exact of_decide_eq_true h
  | _ => cases h

theorem requests_append (calls : List Call) (call : Call) :
    requests k (calls ++ [call]) =
      requests k calls ++ if invokes k call = true then [call] else [] := by
  rw [requests, List.filter_append, List.filter_singleton, Bool.cond_eq_ite, ← requests]

/-- A response or a tool result keeps what is known of a fresh identity. -/
theorem Standing.fresh_next (h : Standing lower endpoint k full history .fresh)
    (hfull : full → full') (hcall : annotates lower endpoint call = false ∨ invokes k call = false) :
    Standing lower endpoint k full' (history ++ [(call, answer)]) .fresh := by
  cases h with
  | inl h => exact .inl (hfull h)
  | inr h =>
      right
      rw [List.map_append, List.map_singleton, requests_append]
      intro earlier hearlier
      cases List.mem_append.mp hearlier with
      | inl hold => exact h earlier hold
      | inr hnew =>
          split at hnew
          · rename_i hinvokes
            obtain rfl := List.mem_singleton.mp hnew
            cases hcall with
            | inl hcall => exact hcall
            | inr hcall => rw [hinvokes] at hcall; cases hcall
          · cases hnew

/-- A call that is not the identity's, its tool result, or its response that raises. -/
theorem Standing.annotated_next {token : Str}
    (h : Standing lower endpoint k full history (.annotated token))
    (hcall : call.key = some k → (∃ c, call = .tool c) ∨
      ∃ c, call = .response c ∧ c.baseUrl.eq endpoint = true ∧ Adapter.completed c = true ∧
        c.assistantMessage.toolCalls = .unsliceable) :
    Standing lower endpoint k full' (history ++ [(call, answer)]) (.annotated token) := by
  obtain ⟨before, request, between, rfl, hbefore, hrequest, hheader, hbetween⟩ := h
  refine ⟨before, request, between ++ [(call, answer)], by simp, hbefore, hrequest, hheader, ?_⟩
  intro s hs hkey
  cases List.mem_append.mp hs with
  | inl hold => exact hbetween s hold hkey
  | inr hnew =>
      obtain rfl := List.mem_singleton.mp hnew
      exact hcall hkey

/-- Calls of other identities and tool results leave the phase, and what is known, as they are. -/
theorem Standing.next (h : Standing lower endpoint k full history p) (hfull : full → full')
    (hcall : call.key = some k → ∃ c, call = .tool c) :
    Standing lower endpoint k full' (history ++ [(call, answer)]) p := by
  cases p with
  | fresh =>
      refine h.fresh_next hfull (.inr ?_)
      by_contra hinvokes
      rw [Bool.not_eq_false] at hinvokes
      obtain ⟨c, rfl⟩ := hcall (key_of_invokes hinvokes)
      cases hinvokes
  | annotated token => exact h.annotated_next fun hkey => .inl (hcall hkey)
  | answered token calls => exact fun id hid => (h id hid).next _
  | spent => trivial

theorem Standing.moves (h : Standing lower endpoint k full history p) (hfull : full → full')
    (hunspoilt : Unspoilt lower endpoint (history.map (·.1) ++ [call]))
    (hmoves : Adapter.Moves lower endpoint k full full' p call answer p') :
    Standing lower endpoint k full' (history ++ [(call, answer)]) p' := by
  cases hmoves with
  | other hkey => exact h.next hfull fun hk => absurd hk hkey
  | idle hkey hevents hcause =>
      cases hcause with
      | inl hfull' => exact .inl hfull'
      | inr hcall =>
          refine h.fresh_next hfull (.inl ?_)
          cases call with
          | request r c token => exact hcall r c token rfl
          | _ => rfl
  | @annotate r c token _ hroom hkey haccepts hheader hevents =>
      have hinvokes : invokes k (.request r c token) = true := decide_eq_true hkey
      have hnone := hunspoilt.alone haccepts hinvokes (h.resolve_left hroom)
      refine ⟨history, _, [], rfl, ?_, hinvokes, hheader, by simp⟩
      intro s hs
      by_contra hcall
      rw [Bool.not_eq_false] at hcall
      have hmem : s.1 ∈ requests k (history.map (·.1)) :=
        List.mem_filter.mpr ⟨List.mem_map_of_mem hs, hcall⟩
      rw [hnone] at hmem
      cases hmem
  | raise hkey hendpoint hcompleted hcalls hevents =>
      exact h.annotated_next fun _ => .inr ⟨_, rfl, hendpoint, hcompleted, hcalls⟩
  | answer hkey hendpoint hcompleted hcalls hevents hkind hexact hattempt =>
      intro id hid
      refine ⟨_, _, _, _, List.mem_append_right _ (List.mem_singleton_self _), hkey, hcalls,
        mem_of_mem_callIds hid, ?_, hkind, hexact, hattempt⟩
      rw [hevents]
      exact List.mem_singleton_self _
  | spend => trivial
  | tool hkey => exact h.next hfull fun _ => ⟨_, rfl⟩

/-- An exact event stands alone, and it is a response to an annotated identity or the tool result of
an answered one. -/
theorem Adapter.Moves.exact (hmoves : Adapter.Moves lower endpoint k full full' p call answer p')
    (hkey : call.key = some k) {event : Event} (hevent : event ∈ answer.events)
    (hexact : event.association = .exact) :
    answer.events = [event] ∧
      ((event.kind = .response ∧ ∃ token calls, p = .annotated token ∧ p' = .answered token calls) ∨
        (event.kind = .tool ∧ ∃ token calls, p = .answered token calls)) := by
  cases hmoves with
  | other hother => exact absurd hkey hother
  | idle _ hevents => exact absurd hexact (hevents event hevent).2
  | annotate _ _ _ _ hevents => rw [hevents] at hevent; cases hevent
  | raise _ _ _ _ hevents => rw [hevents] at hevent; cases hevent
  | spend _ _ hevents => exact absurd hexact (hevents event hevent)
  | answer _ _ _ _ hevents hkind =>
      rw [hevents] at hevent
      obtain rfl := List.mem_singleton.mp hevent
      exact ⟨hevents, .inl ⟨hkind, _, _, rfl, rfl⟩⟩
  | tool _ hevents hkind hjoined =>
      rw [hevents] at hevent
      obtain rfl := List.mem_singleton.mp hevent
      obtain ⟨token, calls, _, hphase, _⟩ := hjoined hexact
      exact ⟨hevents, .inr ⟨hkind, token, calls, hphase⟩⟩

/-- An exact response is the first of an identity that was annotated. -/
theorem Standing.response (h : Standing lower endpoint k full history p)
    (hunspoilt : Unspoilt lower endpoint (history.map (·.1) ++ [call]))
    (hmoves : Adapter.Moves lower endpoint k full full' p call answer p') (hkey : call.key = some k)
    {event : Event} (hevent : event ∈ answer.events) (hkind : event.kind = .response)
    (hexact : event.association = .exact) :
    ∃ token c, event.attempt = some token ∧ call = .response c ∧ c.baseUrl.eq endpoint = true ∧
      Adapter.completed c = true ∧ Annotated k token history := by
  cases hmoves with
  | other hother => exact absurd hkey hother
  | idle _ hevents => exact absurd hexact (hevents event hevent).2
  | annotate _ _ _ _ hevents => rw [hevents] at hevent; cases hevent
  | raise _ _ _ _ hevents => rw [hevents] at hevent; cases hevent
  | spend _ _ hevents => exact absurd hexact (hevents event hevent)
  | tool _ hevents htool =>
      rw [hevents] at hevent
      rw [List.mem_singleton.mp hevent, htool] at hkind
      cases hkind
  | @answer c token ids _ _ hidentity hendpoint hcompleted hcalls hevents _ _ hattempt =>
      rw [hevents] at hevent
      obtain rfl := List.mem_singleton.mp hevent
      refine ⟨token, c, hattempt, rfl, hendpoint, hcompleted, ?_⟩
      obtain ⟨before, request, between, rfl, hbefore, hrequest, hheader, hbetween⟩ := h
      refine ⟨before, request, between, rfl, hbefore, hrequest, hheader, ?_⟩
      intro s hs hs'
      cases hbetween s hs hs' with
      | inl htool => exact htool
      | inr hraised =>
          -- A response that raised would spoil this one.
          obtain ⟨c', hc', hendpoint', hcompleted', hcalls'⟩ := hraised
          have hpair := (List.pairwise_append.mp hunspoilt.responses).2.2 s.1
            (List.mem_map_of_mem (List.mem_append_right _ (List.mem_cons_of_mem _ hs))) (.response c)
            (List.mem_singleton_self _)
          rw [hc'] at hpair hs'
          have hidentity' : identity c' = some k := hs'
          refine absurd ⟨?_, ?_, hendpoint', hcompleted', hcalls', hendpoint, hcompleted, ?_⟩ hpair
          · rw [hidentity']
            rfl
          · rw [hidentity', hidentity]
          · rw [hcalls]
            nofun

/-- An exact tool result is one that the exact response of its attempt lists. -/
theorem Standing.tool (h : Standing lower endpoint k full history p)
    (hmoves : Adapter.Moves lower endpoint k full full' p call answer p') (hkey : call.key = some k)
    {event : Event} (hevent : event ∈ answer.events) (hkind : event.kind = .tool)
    (hexact : event.association = .exact) :
    ∃ token id, event.attempt = some token ∧ event.toolCallId = some id ∧
      Lists k token id history := by
  cases hmoves with
  | other hother => exact absurd hkey hother
  | idle _ hevents => exact absurd hexact (hevents event hevent).2
  | annotate _ _ _ _ hevents => rw [hevents] at hevent; cases hevent
  | raise _ _ _ _ hevents => rw [hevents] at hevent; cases hevent
  | spend _ _ hevents => exact absurd hexact (hevents event hevent)
  | answer _ _ _ _ hevents hresponse =>
      rw [hevents] at hevent
      rw [List.mem_singleton.mp hevent, hresponse] at hkind
      cases hkind
  | tool _ hevents _ hjoined =>
      rw [hevents] at hevent
      obtain rfl := List.mem_singleton.mp hevent
      obtain ⟨token, calls, id, rfl, hattempt, hid, hmem⟩ := hjoined hexact
      exact ⟨token, id, hattempt, hid, h id hmem⟩

/-- An invalidation spends its identity. -/
theorem Adapter.Moves.invalidation
    (hmoves : Adapter.Moves lower endpoint k full full' p call answer p') (hkey : call.key = some k)
    {event : Event} (hevent : event ∈ answer.events) (hkind : event.kind = .invalidation) :
    p' = .spent := by
  cases hmoves with
  | other hother => exact absurd hkey hother
  | idle _ hevents => exact absurd hkind (hevents event hevent).1
  | annotate _ _ _ _ hevents => rw [hevents] at hevent; cases hevent
  | raise _ _ _ _ hevents => rw [hevents] at hevent; cases hevent
  | spend => rfl
  | answer _ _ _ _ hevents hresponse =>
      rw [hevents] at hevent
      rw [List.mem_singleton.mp hevent, hresponse] at hkind
      cases hkind
  | tool _ hevents htool =>
      rw [hevents] at hevent
      rw [List.mem_singleton.mp hevent, htool] at hkind
      cases hkind

theorem Adapter.Moves.of_spent
    (hmoves : Adapter.Moves lower endpoint k full full' .spent call answer p') : p' = .spent := by
  cases hmoves <;> rfl

theorem Adapter.Moves.of_answered {token : Str} {calls : List Str}
    (hmoves : Adapter.Moves lower endpoint k full full' (.answered token calls) call answer p') :
    p' = .spent ∨ p' = .answered token calls := by
  cases hmoves with
  | spend => exact .inl rfl
  | other | tool => exact .inr rfl

theorem Known.next (h : Known lower endpoint k full history p) (hfull : full → full')
    (hunspoilt : Unspoilt lower endpoint (history.map (·.1) ++ [call]))
    (hmoves : Adapter.Moves lower endpoint k full full' p call answer p')
    (hidentities : ∀ e ∈ answer.events, e.identity = call.key) :
    Known lower endpoint k full' (history ++ [(call, answer)]) p' where
  standing := h.standing.moves hfull hunspoilt hmoves
  revoked := by
    intro e he hidentity hkind
    rw [emitted_append] at he
    cases List.mem_append.mp he with
    | inl hold =>
        obtain rfl := h.revoked e hold hidentity hkind
        exact hmoves.of_spent
    | inr hnew =>
        have hevent : e ∈ answer.events := by simpa [emitted] using hnew
        exact hmoves.invalidation ((hidentities e hevent).symm.trans hidentity) hevent hkind
  responded := by
    intro e he hidentity hkind hexact
    rw [emitted_append] at he
    cases List.mem_append.mp he with
    | inl hold =>
        rcases h.responded e hold hidentity hkind hexact with rfl | ⟨token, calls, rfl⟩
        · exact .inl hmoves.of_spent
        · exact hmoves.of_answered.imp id fun h => ⟨token, calls, h⟩
    | inr hnew =>
        have hevent : e ∈ answer.events := by simpa [emitted] using hnew
        have hkey := (hidentities e hevent).symm.trans hidentity
        rcases (hmoves.exact hkey hevent hexact).2 with ⟨_, token, calls, _, hp'⟩ | ⟨htool, _⟩
        · exact .inr ⟨token, calls, hp'⟩
        · rw [htool] at hkind
          cases hkind

/-! ## The law -/

/-- Where the adapter stands after the history. -/
structure Follows (lower : Str → Str) (endpoint : Value) (history : History) (a : Adapter) :
    Prop where
  target : a.endpoint = endpoint
  owned : a.Owned
  known : ∀ k, Known lower endpoint k a.Full history (a.phase k)

theorem follows_init (lower : Str → Str) (endpoint : Value) (contentEnabled : Bool) :
    Follows lower endpoint [] (.init endpoint contentEnabled) where
  target := rfl
  owned := fun _ _ => rfl
  known := fun k => ⟨.inr (by simp [requests]), by simp [emitted], by simp [emitted]⟩

theorem Follows.next {a : Adapter} (h : Follows lower endpoint history a)
    (hunspoilt : Unspoilt lower endpoint (history.map (·.1) ++ [call])) :
    Follows lower endpoint (history ++ [(call, (step lower a call).1)]) (step lower a call).2 := by
  have hframe := Adapter.step_frame lower a call
  refine ⟨hframe.endpoint.trans h.target, hframe.owned h.owned, ?_⟩
  intro k
  have hmoves := Adapter.step_moves lower k h.owned call
  rw [h.target] at hmoves
  exact (h.known k).next (fun hfull => Nat.le_trans hfull hframe.size) hunspoilt hmoves
    hframe.identities

theorem runs_follow {contentEnabled : Bool} {a : Adapter}
    (run : Runs (step lower) (.init endpoint contentEnabled) history a)
    (hunspoilt : Unspoilt lower endpoint (history.map (·.1))) :
    Follows lower endpoint history a := by
  induction run with
  | init => exact follows_init lower endpoint contentEnabled
  | next _ hstep ih =>
      rw [List.map_append, List.map_singleton] at hunspoilt
      have h := (ih hunspoilt.take).next hunspoilt
      rw [hstep] at h
      exact h

/-- The facts about one callback: its exact events, and how they stand to the events before it. -/
theorem Follows.exact {a : Adapter} (h : Follows lower endpoint history a)
    (hunspoilt : Unspoilt lower endpoint (history.map (·.1) ++ [call])) {event : Event}
    (hevent : event ∈ (step lower a call).1.events) (hexact : event.association = .exact) :
    (step lower a call).1.events = [event] ∧
    (event.kind = .response → ∃ k token c, event.identity = some k ∧ event.attempt = some token ∧
      call = .response c ∧ c.baseUrl.eq endpoint = true ∧ Adapter.completed c = true ∧
      Annotated k token history) ∧
    (event.kind = .tool → ∃ k token id, event.identity = some k ∧ event.attempt = some token ∧
      event.toolCallId = some id ∧ Lists k token id history) ∧
    ∀ e ∈ emitted history, event.identity = e.identity → e.kind ≠ .invalidation ∧
      (e.kind = .response → e.association = .exact → event.kind ≠ .response) := by
  have hframe := Adapter.step_frame lower a call
  have hidentity := hframe.identities event hevent
  cases hkey : call.key with
  | none => exact absurd hexact (hframe.unidentified hkey event hevent)
  | some k =>
      rw [hkey] at hidentity
      have hmoves := Adapter.step_moves lower k h.owned call
      rw [h.target] at hmoves
      have hknown := h.known k
      obtain ⟨hsingle, hphase⟩ := hmoves.exact hkey hevent hexact
      refine ⟨hsingle, ?_, ?_, ?_⟩
      · intro hkind
        exact ⟨k, (hknown.standing.response hunspoilt hmoves hkey hevent hkind hexact).imp
          fun _ => .imp fun _ => .intro hidentity⟩
      · intro hkind
        exact ⟨k, (hknown.standing.tool hmoves hkey hevent hkind hexact).imp
          fun _ => .imp fun _ => .intro hidentity⟩
      · intro e he hsame
        rw [hidentity] at hsame
        constructor
        · intro hinvalidation
          have hspent := hknown.revoked e he hsame.symm hinvalidation
          rcases hphase with ⟨_, _, _, hp, _⟩ | ⟨_, _, _, hp⟩
          all_goals rw [hspent] at hp; cases hp
        · intro hkind he' hresponse
          have hdone := hknown.responded e he hsame.symm hkind he'
          rcases hphase with ⟨_, _, _, hp, _⟩ | ⟨htool, _⟩
          · rw [hp] at hdone
            rcases hdone with hdone | ⟨_, _, hdone⟩
            all_goals cases hdone
          · rw [hresponse] at htool
            cases htool

/-- A member of a list that grew at its end is the last one or one of the list before. -/
theorem split_concat {α : Type} {l earlier later : List α} {x y : α}
    (h : l ++ [x] = earlier ++ y :: later) :
    (l = earlier ∧ x = y) ∨ ∃ later', l = earlier ++ y :: later' := by
  rcases List.eq_nil_or_concat later with rfl | ⟨later', last, rfl⟩
  · obtain ⟨hl, hx⟩ := List.append_inj' h rfl
    exact .inl ⟨hl, (List.cons.inj hx).1⟩
  · rw [List.concat_eq_append, ← List.cons_append, ← List.append_assoc] at h
    exact .inr ⟨later', (List.append_inj' h rfl).1⟩

/-- Two members that are not related would have to be alone. -/
theorem pairwise_of_single {α : Type} {R : α → α → Prop} {l : List α}
    (h : ∀ x ∈ l, ∀ y ∈ l, ¬ R x y → l = [y]) : l.Pairwise R := by
  by_cases hall : ∀ x ∈ l, ∀ y ∈ l, R x y
  · exact List.pairwise_of_forall_mem_list hall
  · push Not at hall
    obtain ⟨x, hx, y, hy, hxy⟩ := hall
    rw [h x hx y hy hxy]
    exact List.pairwise_singleton R y

/-- In every unspoilt run, an exact event belongs to the one invocation that it names. -/
theorem exact_of_unspoilt (lower : Str → Str) (endpoint : Value) (contentEnabled : Bool)
    (history : History) (a : Adapter)
    (run : Runs (step lower) (.init endpoint contentEnabled) history a)
    (hunspoilt : Unspoilt lower endpoint (history.map (·.1))) : Exact endpoint history := by
  induction run with
  | init => exact ⟨by simp, by simp, by simp [emitted], by simp [emitted]⟩
  | @next before t u call answer run hstep ih =>
      rw [List.map_append, List.map_singleton] at hunspoilt
      have hearlier := ih hunspoilt.take
      have hfollows := runs_follow run hunspoilt.take
      have hexact := fun event (hevent : event ∈ (step lower t call).1.events) =>
        hfollows.exact hunspoilt hevent
      rw [hstep] at hexact
      have hnew : emitted [(call, answer)] = answer.events := by simp [emitted]
      refine ⟨?_, ?_, ?_, ?_⟩
      · intro earlier call' answer' later event hsplit hevent hkind hassociation
        rcases split_concat hsplit with ⟨rfl, hlast⟩ | ⟨later', hbefore⟩
        · obtain ⟨rfl, rfl⟩ := Prod.mk.inj hlast
          exact (hexact event hevent hassociation).2.1 hkind
        · exact hearlier.response _ _ _ _ event hbefore hevent hkind hassociation
      · intro earlier call' answer' later event hsplit hevent hkind hassociation
        rcases split_concat hsplit with ⟨rfl, hlast⟩ | ⟨later', hbefore⟩
        · obtain ⟨rfl, rfl⟩ := Prod.mk.inj hlast
          exact (hexact event hevent hassociation).2.2.1 hkind
        · exact hearlier.tool _ _ _ _ event hbefore hevent hkind hassociation
      · rw [emitted_append, hnew, List.pairwise_append]
        refine ⟨hearlier.revoked, ?_, ?_⟩
        · apply pairwise_of_single
          intro e he event hevent hpair
          simp only [Classical.not_imp, ne_eq, not_not] at hpair
          exact (hexact event hevent hpair.2.2).1
        · intro e he event hevent hkind hsame hassociation
          exact ((hexact event hevent hassociation).2.2.2 e he hsame).1 hkind
      · rw [emitted_append, hnew, List.pairwise_append]
        refine ⟨hearlier.once, ?_, ?_⟩
        · apply pairwise_of_single
          intro e he event hevent hpair
          simp only [Classical.not_imp, ne_eq, not_not] at hpair
          exact (hexact event hevent hpair.2.2.2.2).1
        · intro e he event hevent hkind he' hresponse hsame hassociation
          exact ((hexact event hevent hassociation).2.2.2 e he hsame).2 hkind he' hresponse

/-! ## Runs of one identity -/

/-- `str.lower` of ASCII text. -/
def asciiLower (s : Str) : Str := s.map fun c => if 65 ≤ c ∧ c ≤ 90 then c + 32 else c

def sampleEndpoint : Value := .str (str "http://local/v1")

def sampleIdentity : Identity := ⟨str "task", str "session", str "turn", str "request"⟩

def sampleContext (apiCallCount : Int) : Context where
  taskId := .str sampleIdentity.taskId
  sessionId := .str sampleIdentity.sessionId
  turnId := .str sampleIdentity.turnId
  apiRequestId := .str sampleIdentity.apiRequestId
  apiCallCount := .int apiCallCount
  baseUrl := sampleEndpoint
  finishReason := .str (str "stop")
  assistantMessage := ⟨.str (str "plan"), .none, .listed [.str (str "call")]⟩
  toolCallId := .str (str "call")
  status := .str (str "ok")
  result := .none

def sampleCalls : List Call :=
  [.request ⟨[], .pairs []⟩ (sampleContext 1) (str "a"), .response (sampleContext 1),
    .tool (sampleContext 1)]

def sampleHistory : History := (feed (step asciiLower) (.init sampleEndpoint false) sampleCalls).1

theorem sampleCalls_unspoilt : Unspoilt asciiLower sampleEndpoint (sampleHistory.map (·.1)) where
  first := by
    intro k call rest hrequests
    have hcalls : sampleHistory.map (·.1) = sampleCalls := by decide +kernel
    rw [hcalls] at hrequests
    simp only [requests, sampleCalls, invokes, List.filter_cons, List.filter_nil] at hrequests
    split at hrequests
    · cases hrequests
      simp
    · simp at hrequests
  responses := by decide +kernel

theorem exact_of_unspoilt_sample : Exact sampleEndpoint sampleHistory ∧
    (emitted sampleHistory).map (·.association) = [.exact, .exact] :=
  ⟨exact_of_unspoilt asciiLower sampleEndpoint false sampleHistory _ (Runs.feed sampleCalls _)
    sampleCalls_unspoilt, by decide +kernel⟩

/-- A request whose call count is not one is dispatched without annotation, then comes one that is
annotated. -/
def reusedCalls : List Call :=
  [.request ⟨[], .pairs []⟩ (sampleContext (-1)) (str "a"),
    .request ⟨[], .pairs []⟩ (sampleContext 1) (str "b")]

def reused : History × Adapter := feed (step asciiLower) (.init sampleEndpoint false) reusedCalls

/-- An invocation that was not annotated is not remembered: the next one of its identity is exact. -/
theorem reused_identity_exact : ¬ ∀ (lower : Str → Str) (endpoint : Value) (contentEnabled : Bool)
    (history : History) (a : Adapter),
    Runs (step lower) (.init endpoint contentEnabled) history a → Exact endpoint history := by
  intro h
  have hrun : Runs (step asciiLower) (.init sampleEndpoint false) reused.1 reused.2 :=
    Runs.feed reusedCalls _
  have hexact := h _ _ _ _ _ (hrun.next
    (show step asciiLower reused.2 (.response (sampleContext 1)) = (_, _) from rfl))
  have hevent : ∃ event ∈ (step asciiLower reused.2 (.response (sampleContext 1))).1.events,
      event.kind = .response ∧ event.association = .exact ∧
        event.identity = some sampleIdentity := by decide +kernel
  obtain ⟨event, hevent, hkind, hassociation, hidentity⟩ := hevent
  obtain ⟨k, token, _, hk, _, _, _, _, hannotated⟩ :=
    hexact.response reused.1 _ _ [] event rfl hevent hkind hassociation
  obtain rfl := Option.some.inj (hidentity.symm.trans hk)
  obtain ⟨before, request, between, hsplit, hbefore, _, hheader, _⟩ := hannotated
  -- The first call invokes the identity and does not annotate.
  have hfirst : ∀ first ∈ reused.1.head?, invokes sampleIdentity first.1 = true ∧
      Adapter.attemptHeader first.2 = none := by decide +kernel
  rw [hsplit] at hfirst
  cases before with
  | nil =>
      rw [(hfirst request rfl).2] at hheader
      cases hheader
  | cons first _ =>
      have hinvokes := hbefore first List.mem_cons_self
      rw [(hfirst first rfl).1] at hinvokes
      cases hinvokes

end Recursant.Bridge
