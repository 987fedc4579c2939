import Recursant.Bridge.Exporter
import Recursant.Gateway.Evidence

/-!
# Payloads on the wire

The JSON object that a payload is posted as, and what the router's checks find in it.
-/

namespace Recursant.Bridge

open Gateway

/-! ## Payloads as JSON -/

/-- A value of a posted object. -/
inductive Entry where
  | string (s : Str)
  | bool (b : Bool)
  | number (n : Nat)
  | texts (d : Dict Str Str)
  | flags (d : Dict Str Bool)

/-- The members of an object, if all its keys and values can be encoded. -/
def membersOf {K V : Type} (key : K → Option Text) (value : V → Option Json) :
    List (K × V) → Option (List (Text × Json))
  | [] => some []
  | (k, v) :: entries =>
      match key k, value v, membersOf key value entries with
      | some k, some v, some members => some ((k, v) :: members)
      | _, _, _ => none

def objectOf {K V : Type} (key : K → Option Text) (value : V → Option Json)
    (entries : List (K × V)) : Option Json :=
  (membersOf key value entries).map .object

def stringOf (s : Str) : Option Json := (utf8 s).map .string

def Entry.json : Entry → Option Json
  | .string s => stringOf s
  | .bool b => some (.bool b)
  | .number n => some (.integer n)
  | .texts d => objectOf utf8 stringOf d
  | .flags d => objectOf utf8 (fun b => some (.bool b)) d

def Kind.name : Kind → Str
  | .response => "response"
  | .tool => "tool"
  | .invalidation => "invalidation"

def Association.name : Association → Str
  | .exact => "exact"
  | .ambiguous => "ambiguous"
  | .missing => "missing"
  | .missingOrAmbiguous => "missing_or_ambiguous"

/-- The entries that every event has. -/
def Sent.fixed (s : Sent) : List (Text × Entry) :=
  [("schema", .string "recursant.context.v1"), ("kind", .string s.event.kind.name),
    ("association", .string s.event.association.name),
    ("routing_eligible", .bool s.event.routingEligible),
    ("association_scope", .string s.event.associationScope),
    ("physical_routing_eligible", .bool s.event.physicalRoutingEligible),
    ("physical_attempt_uniqueness", .string s.event.physicalAttemptUniqueness),
    ("sequence", .number s.sequence), ("dropped", .number s.dropped),
    ("upstream_gaps", .string "unknown")]

/-- The entries that an event may lack. -/
def Sent.optional (s : Sent) : List (Text × Option Entry) :=
  [("task_id", s.event.identity.map fun k => .string k.taskId),
    ("session_id", s.event.identity.map fun k => .string k.sessionId),
    ("turn_id", s.event.identity.map fun k => .string k.turnId),
    ("api_request_id", s.event.identity.map fun k => .string k.apiRequestId),
    ("attempt", s.event.attempt.map .string),
    ("stream_association", s.event.streamAssociation.map .string),
    ("tool_call_id", s.event.toolCallId.map .string), ("status", s.event.status.map .string),
    ("text", s.event.text.map .texts), ("text_truncated", s.event.textTruncated.map .flags)]

def Sent.json (s : Sent) : Option Json :=
  objectOf some Entry.json
    (s.fixed ++ s.optional.filterMap fun p => p.2.map fun e => (p.1, e))

/-- The body that is posted for a payload; text that has no encoding is not posted. -/
def Payload.body (scope : Registration) (p : Payload) : Option Json := do
  let event ← p.event.json
  let generation ← utf8 scope.generation
  let branch ← utf8 scope.branch
  return .object [("generation", .string generation), ("branch", .string branch),
    ("revision", .integer p.revision), ("event", event)]

theorem membersOf_cons {V : Type} {value : V → Option Json} {e : Text × V}
    {entries : List (Text × V)} {members : List (Text × Json)}
    (h : membersOf some value (e :: entries) = some members) :
    ∃ v rest, value e.2 = some v ∧ membersOf some value entries = some rest ∧
      members = (e.1, v) :: rest := by
  unfold membersOf at h
  split at h
  · rename_i hkey hvalue hrest
    cases hkey
    cases h
    exact ⟨_, _, hvalue, hrest, rfl⟩
  · cases h

theorem objectOf_get? {V : Type} {value : V → Option Json} {entries : List (Text × V)} {j : Json}
    (h : objectOf some value entries = some j) (key : Text) :
    j.get? key = (entries.lookup key).bind value := by
  obtain ⟨members, hmembers, rfl⟩ := Option.map_eq_some_iff.mp h
  clear h
  show members.lookup key = _
  induction entries generalizing members with
  | nil =>
      cases hmembers
      rfl
  | cons e entries ih =>
      obtain ⟨v, rest, hv, hrest, rfl⟩ := membersOf_cons hmembers
      rw [List.lookup_cons, List.lookup_cons, ih rest hrest]
      cases key == e.1 with
      | true => exact hv.symm
      | false => rfl

/-! ## What the router reads -/

theorem Sent.json_dropped {s : Sent} {j : Json} (h : s.json = some j) :
    j.get? "dropped" = some (.integer s.dropped) := by
  rw [objectOf_get? h, List.lookup_append]
  rfl

theorem Sent.json_schema {s : Sent} {j : Json} (h : s.json = some j) :
    j.get? "schema" = some (.string "recursant.context.v1") := by
  rw [objectOf_get? h, List.lookup_append]
  show stringOf "recursant.context.v1" = _
  decide +kernel

theorem Sent.json_kind {s : Sent} {j : Json} (h : s.json = some j) :
    eq j "kind" "tool" = decide (s.event.kind = .tool) := by
  have hget : j.get? "kind" = stringOf s.event.kind.name := by
    rw [objectOf_get? h, List.lookup_append]
    rfl
  unfold eq token
  rw [hget]
  cases s.event.kind <;> decide +kernel

theorem Sent.json_task {s : Sent} {j : Json} {k : Identity} (h : s.json = some j)
    (hk : s.event.identity = some k) :
    j.get? "task_id" = stringOf k.taskId ∧ j.get? "session_id" = stringOf k.sessionId := by
  rw [objectOf_get? h, objectOf_get? h, List.lookup_append, List.lookup_append]
  simp only [Sent.optional, hk, Option.map_some, List.filterMap_cons]
  exact ⟨rfl, rfl⟩

/-- The key is one of the allowed ones. -/
def keyOk (allowed : Text) (k : Text) : Bool :=
  k ≠ [] && !k.contains 124 && k.length ≤ Gateway.maxKey && hasText (Delimited.token 124 k) allowed

theorem objectOf_keys {V : Type} {value : V → Option Json} {entries : List (Text × V)} {j : Json}
    {allowed : Text} (h : objectOf some value entries = some j)
    (hall : ∀ p ∈ entries, keyOk allowed p.1 = true) : keys j allowed = true := by
  obtain ⟨members, hmembers, rfl⟩ := Option.map_eq_some_iff.mp h
  clear h
  induction entries generalizing members with
  | nil =>
      cases hmembers
      rfl
  | cons e entries ih =>
      obtain ⟨v, rest, hv, hrest, rfl⟩ := membersOf_cons hmembers
      have hfirst := hall e List.mem_cons_self
      have hothers := ih (fun p hp => hall p (List.mem_cons_of_mem _ hp)) rest hrest
      unfold keyOk at hfirst
      unfold keys at hothers ⊢
      simp only at hothers ⊢
      rw [List.all_cons, hothers, hfirst]
      rfl

/-- Tool results and other events have their own entries. -/
structure Event.Shaped (e : Event) : Prop where
  tool : e.kind = .tool → e.streamAssociation = none
  other : e.kind ≠ .tool → e.toolCallId = none ∧ e.status = none

/-- The keys that both kinds of events may have. -/
def commonKeys : List Text :=
  ["schema", "kind", "association", "routing_eligible", "association_scope",
    "physical_routing_eligible", "physical_attempt_uniqueness", "sequence", "dropped",
    "upstream_gaps", "task_id", "session_id", "turn_id", "api_request_id", "attempt", "text",
    "text_truncated"]

theorem commonKeys_ok (tool : Bool) : ∀ k ∈ commonKeys, keyOk (eventKeys tool) k = true := by
  revert tool
  decide +kernel

theorem Sent.json_keys {s : Sent} {j : Json} (h : s.json = some j) (hshaped : s.event.Shaped) :
    keys j (eventKeys (decide (s.event.kind = .tool))) = true := by
  apply objectOf_keys h
  intro p hp
  cases List.mem_append.mp hp with
  | inl hfixed =>
      have hkey : p.1 ∈ s.fixed.map (·.1) := List.mem_map_of_mem hfixed
      exact commonKeys_ok _ p.1 (List.mem_append_left (commonKeys.drop 10) hkey)
  | inr hoptional =>
      obtain ⟨e, he, hp⟩ := List.mem_filterMap.mp hoptional
      obtain ⟨v, hv, rfl⟩ := Option.map_eq_some_iff.mp hp
      have hcommon : ∀ k ∈ commonKeys.drop 10, keyOk (eventKeys (decide (s.event.kind = .tool))) k =
          true := fun k hk => commonKeys_ok _ k (List.mem_of_mem_drop hk)
      simp only [Sent.optional, List.mem_cons, List.not_mem_nil, or_false] at he
      rcases he with rfl | rfl | rfl | rfl | rfl | rfl | rfl | rfl | rfl | rfl
      · exact hcommon _ (.head _)
      · exact hcommon _ (.tail _ (.head _))
      · exact hcommon _ (.tail _ (.tail _ (.head _)))
      · exact hcommon _ (.tail _ (.tail _ (.tail _ (.head _))))
      · exact hcommon _ (.tail _ (.tail _ (.tail _ (.tail _ (.head _)))))
      · by_cases hkind : s.event.kind = .tool
        · rw [hshaped.tool hkind] at hv
          cases hv
        · rw [decide_eq_false hkind]
          show keyOk (eventKeys false) "stream_association" = true
          decide +kernel
      · by_cases hkind : s.event.kind = .tool
        · rw [decide_eq_true hkind]
          show keyOk (eventKeys true) "tool_call_id" = true
          decide +kernel
        · rw [(hshaped.other hkind).1] at hv
          cases hv
      · by_cases hkind : s.event.kind = .tool
        · rw [decide_eq_true hkind]
          show keyOk (eventKeys true) "status" = true
          decide +kernel
        · rw [(hshaped.other hkind).2] at hv
          cases hv
      · exact hcommon _ (.tail _ (.tail _ (.tail _ (.tail _ (.tail _ (.head _))))))
      · exact hcommon _ (.tail _ (.tail _ (.tail _ (.tail _ (.tail _ (.tail _ (.head _)))))))

/-! ## What the router makes of losses -/

theorem utf8_ascii {s : Str} (h : ∀ c ∈ s, c < 0x80) : utf8 s = some (s.map Nat.toUInt8) := by
  have hchars : s.mapM utf8Char = some (s.map fun c => [c.toUInt8]) := by
    induction s with
    | nil => rfl
    | cons c s ih =>
        have hc : utf8Char c = some [c.toUInt8] := if_pos (h c (.head _))
        rw [List.mapM_cons, hc, ih fun d hd => h d (.tail _ hd)]
        rfl
  unfold utf8
  rw [hchars, Option.map_some, List.flatten_eq_flatMap, List.flatMap_map, List.map_eq_flatMap]
  rfl

theorem isToken_iff {bound : Nat} {s : Str} : isToken bound s = true ↔
    1 ≤ s.length ∧ s.length ≤ bound ∧ ∀ c ∈ s, 33 ≤ c ∧ c ≤ 126 := by
  simp [isToken, and_assoc]

/-- A token of the bridge is one of the router. -/
theorem utf8_token {bound : Nat} {s : Str} (h : isToken bound s = true) :
    utf8 s = some (s.map Nat.toUInt8) ∧ s.map Nat.toUInt8 ≠ [] ∧
      (s.map Nat.toUInt8).length ≤ bound ∧ (s.map Nat.toUInt8).all isgraph = true := by
  obtain ⟨hpos, hbound, hchars⟩ := isToken_iff.mp h
  refine ⟨utf8_ascii fun c hc => by have := hchars c hc; omega, ?_, by simpa using hbound, ?_⟩
  · intro hnil
    rw [List.map_eq_nil_iff] at hnil
    rw [hnil] at hpos
    simp at hpos
  · rw [List.all_map, List.all_eq_true]
    intro c hc
    obtain ⟨hlow, hhigh⟩ := hchars c hc
    have hc' : (c.toUInt8).toNat = c := by
      rw [Nat.toUInt8, UInt8.toNat_ofNat']
      omega
    simp only [Function.comp_apply, isgraph, Bool.and_eq_true, decide_eq_true_eq,
      UInt8.le_iff_toNat_le, hc']
    exact ⟨hlow, hhigh⟩

theorem token_of_string {o : Json} {key : Text} {s : Str} {bound : Nat}
    (hget : o.get? key = stringOf s) (h : isToken bound s = true) :
    token o key bound = some (s.map Nat.toUInt8) := by
  obtain ⟨hutf8, hne, hlength, hgraph⟩ := utf8_token h
  unfold token
  rw [hget, stringOf, hutf8]
  simp [Json.text?, Option.filter_some, hne, hgraph]
  simpa using hlength

theorem isToken_of_isHex {s : Str} (hlength : s.length = 32) (h : isHex s = true) :
    isToken 32 s = true := by
  rw [isToken_iff]
  refine ⟨by omega, by omega, ?_⟩
  intro c hc
  have hdigit := List.all_eq_true.mp h c hc
  simp only [Bool.or_eq_true, Bool.and_eq_true, decide_eq_true_eq] at hdigit
  omega

/-- The router has the scope that the bridge was registered for. -/
structure Registers {count : Nat} (scope : Registration) (g : GatewayContext count) (i : Slot) :
    Prop where
  found : g.scopeFind (scope.generation.map Nat.toUInt8) (scope.branch.map Nat.toUInt8) = some i
  task : (g.scopes i).task = scope.task.map Nat.toUInt8
  session : (g.scopes i).session = scope.session.map Nat.toUInt8

section Ingest

variable {ρ : Router} {scope : Registration} {p : Payload} {body : Json}
  {g : GatewayContext ρ.settings.count} {i : Slot}

/-- What the router accepts reports no loss. -/
theorem ingest_lossless {r : Compliance.Runtime} {now : Nat} {submitted : Bool}
    (h : (ingest r body now submitted g).1 = 202) :
    eventLoss ((body.get? "event").getD .null) = false := by
  unfold ingest at h
  split at h
  case h_2 => cases h
  case h_1 =>
    split at h
    · cases h
    · split at h
      · cases h
      · dsimp only at h
        split at h
        · rename_i status hshape
          exact absurd (show status = 202 from h) fun heq =>
            never_eventShape _ _ _ (heq ▸ hshape)
        · split at h
          · cases h
          · rename_i hloss
            exact Bool.eq_false_iff.mpr hloss

theorem Payload.body_event (hbody : p.body scope = some body) :
    ∃ event, p.event.json = some event ∧ body.get? "event" = some event ∧
      body = .object [("generation", .string (scope.generation.map Nat.toUInt8)),
        ("branch", .string (scope.branch.map Nat.toUInt8)), ("revision", .integer p.revision),
        ("event", event)] := by
  have hgeneration := utf8_token (isToken_of_isHex scope.generationOk.1 scope.generationOk.2)
  have hbranch := utf8_token scope.branchOk
  unfold Payload.body at hbody
  cases hevent : p.event.json with
  | none =>
      rw [hevent] at hbody
      cases hbody
  | some event =>
      rw [hevent, hgeneration.1, hbranch.1] at hbody
      cases hbody
      exact ⟨event, rfl, rfl, rfl⟩

theorem dropped_of_accepted {r : Compliance.Runtime} {now : Nat} {submitted : Bool}
    (hbody : p.body scope = some body) (h : (ingest r body now submitted g).1 = 202) :
    p.event.dropped = 0 := by
  obtain ⟨event, hevent, hget, _⟩ := Payload.body_event hbody
  have hloss := ingest_lossless h
  rw [hget, Option.getD_some] at hloss
  simp only [eventLoss, Bool.or_eq_false_iff, decide_eq_false_iff_not, ne_eq, not_not,
    Sent.json_dropped hevent, Option.some.injEq, Json.integer.injEq] at hloss
  exact Int.ofNat_eq_zero.mp hloss.1

/-- A payload with losses that reaches its scope ends the exactness of the router's ledger. -/
theorem ingest_declares (hbody : p.body scope = some body) (hregisters : Registers scope g i)
    {k : Identity} (hk : p.event.event.identity = some k) (htask : k.taskId = scope.task)
    (hsession : k.sessionId = scope.session) (hshaped : p.event.event.Shaped)
    (hpos : 0 < p.revision) (hrevision : p.revision ≤ 9007199254740991)
    (hdropped : 1 ≤ p.event.dropped) (r : Compliance.Runtime) (now : Nat) (submitted : Bool) :
    (ingest r body now submitted g).1 = 409 ∧
      (ingest r body now submitted g).2.ledger.lost = true := by
  obtain ⟨event, hevent, hget, hfields⟩ := Payload.body_event hbody
  have hgenerationOk := isToken_of_isHex scope.generationOk.1 scope.generationOk.2
  have hgeneration : token body "generation" 32 = some (scope.generation.map Nat.toUInt8) := by
    apply token_of_string _ hgenerationOk
    rw [stringOf, (utf8_token hgenerationOk).1, hfields]
    rfl
  have hbranch : token body "branch" 63 = some (scope.branch.map Nat.toUInt8) := by
    apply token_of_string _ scope.branchOk
    rw [stringOf, (utf8_token scope.branchOk).1, hfields]
    rfl
  have hinteger : integer body "revision" 9007199254740991 = some p.revision := by
    have hrev : body.get? "revision" = some (.integer p.revision) := by
      rw [hfields]
      rfl
    unfold integer
    rw [hrev]
    simp only [Int.toNat_natCast]
    rw [if_pos (by simp; omega)]
  have hkeys : keys body "|generation||branch||revision||event|" = true := by
    rw [hfields]
    show ([text "generation", "branch", "revision", "event"].all
      (keyOk "|generation||branch||revision||event|")) = true
    decide +kernel
  have hloss : eventLoss event = true := by
    have hne : p.event.dropped ≠ 0 := by omega
    simp [eventLoss, Sent.json_dropped hevent, hne]
  -- The checks before the loss test find a well-formed event of the scope.
  have hshape : ∀ s : Scope, s.task = (g.scopes i).task → s.session = (g.scopes i).session →
      eventShape s event (eq event "kind" "tool") = .ok () := by
    intro s hstask hssession
    obtain ⟨hgettask, hgetsession⟩ := Sent.json_task hevent hk
    have hwide : ∀ {t : Str}, isToken 63 t = true → isToken 128 t = true := by
      intro t ht
      rw [isToken_iff] at ht ⊢
      exact ⟨ht.1, by omega, ht.2.2⟩
    have hschema : eq event "schema" "recursant.context.v1" = true := by
      unfold eq token
      rw [Sent.json_schema hevent]
      decide +kernel
    have hkeys' : keys event (eventKeys (eq event "kind" "tool")) = true := by
      rw [Sent.json_kind hevent]
      exact Sent.json_keys hevent hshaped
    have htask' : eq event "task_id" s.task = true := by
      rw [htask] at hgettask
      rw [eq, token_of_string hgettask (hwide scope.taskOk), hstask, hregisters.task]
      exact decide_eq_true rfl
    have hsession' : eq event "session_id" s.session = true := by
      rw [hsession] at hgetsession
      rw [eq, token_of_string hgetsession (hwide scope.sessionOk), hssession, hregisters.session]
      exact decide_eq_true rfl
    unfold eventShape
    rw [hkeys', hschema, htask', hsession']
    rfl
  unfold ingest
  rw [hgeneration, hbranch, hinteger]
  simp only [hkeys, hregisters.found, Bool.not_true, Bool.false_eq_true, if_false, hget,
    Option.getD_some]
  have hscope : (g.setScope i (supersede p.revision (g.scopes i))).scopes i =
      supersede p.revision (g.scopes i) := scopes_setScope_self ..
  rw [hscope, hshape _ (by unfold supersede; split <;> rfl) (by unfold supersede; split <;> rfl)]
  simp only [hloss, if_true]
  exact ⟨trivial, rfl⟩

end Ingest

end Recursant.Bridge
