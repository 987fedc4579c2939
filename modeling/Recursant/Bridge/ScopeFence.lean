import Recursant.Bridge.Delivery
import Recursant.Gateway.Addressing

/-!
# The scope fence

A request of the registered session leaves the bridge with the registration's headers, each once, or
with a second generation that the router takes for invalid.  So whatever headers a caller supplies, and
in whatever order they arrive, the router dispatches the request under the registered scope or denies
it.
-/

namespace Recursant.Bridge

open Gateway

/-! ## Lower case -/

/-- What is relied on of `str.lower`: it is the usual one on ASCII, and of the other characters only
the Kelvin sign becomes one of ASCII, the letter k. -/
structure PythonLower (lower : Str → Str) : Prop where
  ascii : ∀ s, (∀ c ∈ s, c < 128) → lower s = asciiLower s
  kelvin : ∀ s, (∀ c ∈ lower s, c < 128 ∧ c ≠ 107) → ∀ c ∈ s, c < 128

theorem pythonLower_asciiLower : PythonLower asciiLower where
  ascii _ _ := rfl
  kelvin s h c hc := by
    have hlower := (h _ (List.mem_map_of_mem hc)).1
    split at hlower
    · omega
    · exact hlower

theorem PythonLower.literal {lower : Str → Str} (h : PythonLower lower) {s t : Str}
    (hs : s.all (· < 128) = true) (ht : asciiLower s = t) : lower s = t := by
  rw [h.ascii s fun c hc => of_decide_eq_true (List.all_eq_true.mp hs c hc), ht]

/-! ## Guarded requests -/

/-- The headers whose name is one with the given name. -/
def occurrences (lower : Str → Str) (name : Str) (headers : List (Name × Value)) :
    List (Name × Value) := headers.filter fun p => lower p.1.shown = lower name

/-- The generation that no request may have. -/
def conflict : Name × Value := ("x-recursant-generation", .str "bridge conflict")

/-- The registration's headers stand once each with its values, and the other headers of the router
are the bridge's own correlation. -/
structure Carried (lower : Str → Str) (scope : Registration) (c : Context) (token : Str)
    (headers : List (Name × Value)) : Prop where
  known : ∀ e ∈ scope.known, ∃ name, occurrences lower e.1 headers = [(name, .str e.2)]
  own : ∀ p ∈ headers, Adapter.reserved lower p.1 = true →
    (∃ e ∈ scope.known, lower p.1.shown = lower e.1) ∨
      ∃ k count, identity c = some k ∧ Adapter.counted c.apiCallCount = some count ∧
        p ∈ Adapter.correlation k count token

/-- The two shapes of a request of the registered session. -/
inductive Guarded (lower : Str → Str) (scope : Registration) (c : Context) (token : Str)
    (headers : List (Name × Value)) : Prop where
  | carried : Carried lower scope c token headers → Guarded lower scope c token headers
  | fenced : (Name.str "X-Recursant-generation", Value.str scope.generation) ∈ headers →
      conflict ∈ headers → Guarded lower scope c token headers

/-! ## Names -/

section Names

variable {lower : Str → Str} (hlower : PythonLower lower) (scope : Registration)

theorem filter_eq_singleton {α β : Type} [DecidableEq β] {f : α → β} {l : List α} {a : α}
    (hnodup : (l.map f).Nodup) (ha : a ∈ l) : l.filter (fun b => f b = f a) = [a] := by
  induction l with
  | nil => cases ha
  | cons b l ih =>
      rw [List.map_cons, List.nodup_cons] at hnodup
      by_cases hb : f b = f a
      · have hrest : l.filter (fun b => f b = f a) = [] := by
          rw [List.filter_eq_nil_iff]
          intro d hd hfd
          exact hnodup.1 (List.mem_map.mpr ⟨d, hd, (of_decide_eq_true hfd).trans hb.symm⟩)
        cases List.mem_cons.mp ha with
        | inl hhead => rw [List.filter_cons_of_pos (by simpa using hb), hrest, hhead]
        | inr htail => exact absurd (List.mem_map.mpr ⟨a, htail, hb.symm⟩) hnodup.1
      · cases List.mem_cons.mp ha with
        | inl hhead => exact absurd (congrArg f hhead.symm) hb
        | inr htail =>
            rw [List.filter_cons_of_neg (by simpa using hb), ih hnodup.2 htail]

include hlower

theorem lower_generation : lower (str "X-Recursant-generation") = str "x-recursant-generation" :=
  hlower.literal (by decide) (by decide)

theorem lower_branch : lower (str "X-Recursant-branch") = str "x-recursant-branch" :=
  hlower.literal (by decide) (by decide)

theorem lower_taskId : lower (str "X-Recursant-task-id") = str "x-recursant-task-id" :=
  hlower.literal (by decide) (by decide)

theorem lower_sessionId : lower (str "X-Recursant-session-id") = str "x-recursant-session-id" :=
  hlower.literal (by decide) (by decide)

/-- The four names are told apart. -/
theorem known_nodup : (scope.known.map fun e => lower e.1).Nodup := by
  simp only [Registration.known, List.map_cons, List.map_nil, lower_generation hlower,
    lower_branch hlower, lower_taskId hlower, lower_sessionId hlower]
  decide

theorem known_reserved {e : Str × Str} (he : e ∈ scope.known) {name : Name}
    (hname : lower name.shown = lower e.1) : Adapter.reserved lower name = true := by
  unfold Adapter.reserved
  rw [hname]
  simp only [Registration.known, List.mem_cons, List.not_mem_nil, or_false] at he
  obtain rfl | rfl | rfl | rfl := he
  · rw [lower_generation hlower]
    decide
  · rw [lower_branch hlower]
    decide
  · rw [lower_taskId hlower]
    decide
  · rw [lower_sessionId hlower]
    decide

/-- The correlation's names in lower case. -/
def correlationNames : List Str :=
  ["x-recursant-api-call-count", "x-recursant-task-id", "x-recursant-session-id",
    "x-recursant-turn-id", "x-recursant-api-request-id", "x-recursant-attempt"]

theorem lower_correlation (k : Identity) (count : Nat) (token : Str) :
    (Adapter.correlation k count token).map (fun p => lower p.1.shown) = correlationNames := by
  have hcount : lower (str "X-Recursant-api-call-count") = str "x-recursant-api-call-count" :=
    hlower.literal (by decide) (by decide)
  have hturn : lower (str "X-Recursant-turn-id") = str "x-recursant-turn-id" :=
    hlower.literal (by decide) (by decide)
  have hrequest : lower (str "X-Recursant-api-request-id") = str "x-recursant-api-request-id" :=
    hlower.literal (by decide) (by decide)
  have hattempt : lower (str "X-Recursant-attempt") = str "x-recursant-attempt" :=
    hlower.literal (by decide) (by decide)
  simp only [Adapter.correlation, List.map_cons, List.map_nil, Name.shown, hcount, hturn, hrequest,
    hattempt, lower_taskId hlower, lower_sessionId hlower]
  rfl

theorem correlation_nodup (k : Identity) (count : Nat) (token : Str) :
    ((Adapter.correlation k count token).map fun p => lower p.1.shown).Nodup := by
  rw [lower_correlation hlower]
  decide

theorem correlation_reserved {k : Identity} {count : Nat} {token : Str} {p : Name × Value}
    (hp : p ∈ Adapter.correlation k count token) : Adapter.reserved lower p.1 = true := by
  have hmem : lower p.1.shown ∈ correlationNames :=
    lower_correlation hlower k count token ▸ List.mem_map_of_mem hp
  have hall : ∀ n ∈ correlationNames, (str "x-recursant-").isPrefixOf n = true := by decide
  exact hall _ hmem

end Names

/-! ## Completed headers -/

section Completed

variable {lower : Str → Str} {scope : Registration} {headers : List (Name × Value)}

theorem mem_scopeHeaders {p : Name × Value} (h : p ∈ GatewayBridge.scopeHeaders scope) :
    ∃ e ∈ scope.known, p = (.str e.1, .str e.2) := by
  obtain ⟨e, he, rfl⟩ := List.mem_map.mp h
  exact ⟨e, he, rfl⟩

theorem scopeHeaders_nodup (scope : Registration) :
    ((GatewayBridge.scopeHeaders scope).map Prod.fst).Nodup := by
  have hnames : (GatewayBridge.scopeHeaders scope).map Prod.fst =
      [Name.str "X-Recursant-generation", Name.str "X-Recursant-branch",
        Name.str "X-Recursant-task-id", Name.str "X-Recursant-session-id"] := rfl
  rw [hnames]
  decide

/-- What the headers lack of the scope. -/
def missing (lower : Str → Str) (scope : Registration) (headers : List (Name × Value)) :
    List (Name × Value) :=
  (GatewayBridge.scopeHeaders scope).filter fun p =>
    !(headers.map fun q => lower q.1.shown).contains (lower p.1.shown)

theorem completeHeaders_eq : GatewayBridge.completeHeaders lower scope headers =
    headers ++ missing lower scope headers := by
  apply Dict.update_new
  · exact ((List.filter_sublist).map Prod.fst).nodup (scopeHeaders_nodup scope)
  · intro p hp hmem
    obtain ⟨-, hlacks⟩ := List.mem_filter.mp hp
    obtain ⟨q, hq, hname⟩ := List.mem_map.mp hmem
    have hpresent : lower p.1.shown ∈ headers.map fun q => lower q.1.shown :=
      List.mem_map.mpr ⟨q, hq, congrArg (fun n => lower n.shown) hname⟩
    rw [List.contains_iff_mem.mpr hpresent] at hlacks
    cases hlacks

/-- Headers whose names are told apart, and that give no other value to a name of the scope, are
completed to carried ones. -/
theorem carried_complete (hlower : PythonLower lower) {c : Context} {token : Str}
    (hnodup : (headers.map fun p => lower p.1.shown).Nodup)
    (hvalues : ∀ p ∈ headers, ∀ e ∈ scope.known, lower p.1.shown = lower e.1 → p.2 = .str e.2)
    (hown : ∀ p ∈ headers, Adapter.reserved lower p.1 = true →
      (∃ e ∈ scope.known, lower p.1.shown = lower e.1) ∨
        ∃ k count, identity c = some k ∧ Adapter.counted c.apiCallCount = some count ∧
          p ∈ Adapter.correlation k count token) :
    Carried lower scope c token (GatewayBridge.completeHeaders lower scope headers) := by
  rw [completeHeaders_eq]
  constructor
  · intro e he
    unfold occurrences
    rw [List.filter_append]
    by_cases hpresent : lower e.1 ∈ headers.map fun p => lower p.1.shown
    · obtain ⟨p, hp, hname⟩ := List.mem_map.mp hpresent
      refine ⟨p.1, ?_⟩
      have hnone : (missing lower scope headers).filter
          (fun q => lower q.1.shown = lower e.1) = [] := by
        rw [List.filter_eq_nil_iff]
        intro q hq hsame
        have hlacks := (List.mem_filter.mp hq).2
        rw [of_decide_eq_true hsame, List.contains_iff_mem.mpr hpresent] at hlacks
        cases hlacks
      rw [hnone, List.append_nil, ← hname, filter_eq_singleton hnodup hp, ← hvalues p hp e he hname]
    · refine ⟨.str e.1, ?_⟩
      have hnone : headers.filter (fun q => lower q.1.shown = lower e.1) = [] := by
        rw [List.filter_eq_nil_iff]
        intro q hq hsame
        exact hpresent (List.mem_map.mpr ⟨q, hq, of_decide_eq_true hsame⟩)
      have hmem : (Name.str e.1, Value.str e.2) ∈ missing lower scope headers := by
        refine List.mem_filter.mpr ⟨List.mem_map_of_mem he, ?_⟩
        rw [Bool.not_eq_true', ← Bool.not_eq_true, List.contains_iff_mem]
        exact hpresent
      have hnames : ((missing lower scope headers).map fun q => lower q.1.shown).Nodup := by
        refine ((List.filter_sublist).map _).nodup ?_
        rw [GatewayBridge.scopeHeaders, List.map_map]
        exact known_nodup hlower scope
      rw [hnone, List.nil_append]
      exact filter_eq_singleton hnames hmem
  · intro p hp hreserved
    cases List.mem_append.mp hp with
    | inl hold => exact hown p hold hreserved
    | inr hnew =>
        obtain ⟨e, he, rfl⟩ := mem_scopeHeaders (List.mem_filter.mp hnew).1
        exact .inl ⟨e, he, rfl⟩

end Completed

/-! ## Requests -/

section Requests

variable {lower : Str → Str} {b : GatewayBridge} {r : Request} {c : Context} {token : Str}

theorem eq_str {v : Value} {s : Str} (h : v.eq (.str s) = true) : v = .str s := by
  cases v with
  | str t => exact of_decide_eq_true h
  | none => cases h
  | int n => cases h
  | bool b => cases h
  | other o => cases h

/-- The adapter returns nothing, or the request with its correlation. -/
theorem request_returned (lower : Str → Str) (r : Request) (c : Context) (a : Adapter) (token : Str) :
    (a.request lower r c token).1.returned = none ∨
      ∃ k count items, identity c = some k ∧ Adapter.counted c.apiCallCount = some count ∧
        r.extraHeaders = .pairs items ∧
        (Dict.ofPairs items).any (fun e => Adapter.reserved lower e.1) = false ∧
        (a.request lower r c token).1.returned = some { r with
          extraHeaders := .pairs ((Dict.ofPairs items).update (Adapter.correlation k count token)) } := by
  unfold Adapter.request
  generalize a.invalidate (identity c) = first
  obtain ⟨revoked, a⟩ := first
  dsimp only
  split
  · next k count hk hcount =>
      split
      · exact .inl rfl
      · split
        · exact .inl rfl
        · exact .inl rfl
        · next items hitems =>
            split
            · exact .inl rfl
            · next hnone =>
                exact .inr ⟨k, count, items, hk, hcount, hitems, Bool.not_eq_true _ ▸ hnone, rfl⟩
  · exact .inl rfl

theorem identity_taskId {k : Identity} (h : identity c = some k) :
    c.taskId = .str k.taskId ∧ c.sessionId = .str k.sessionId := by
  have htoken : ∀ (v : Value) (s : Str), v.token? 128 = some s → v = .str s := by
    intro v s hv
    unfold Value.token? at hv
    split at hv
    · split at hv
      · cases hv
        rfl
      · cases hv
    · cases hv
  unfold identity at h
  split at h
  · next htask hsession _ _ =>
      cases h
      exact ⟨htoken _ _ htask, htoken _ _ hsession⟩
  · cases h

/-- The headers of a conflict. -/
theorem fenceHeaders_guarded (hlower : PythonLower lower) (scope : Registration)
    (supplied : Dict Name Value) :
    Guarded lower scope c token (GatewayBridge.fenceHeaders lower scope supplied) := by
  have hnew : ∀ p ∈ GatewayBridge.scopeHeaders scope,
      p.1 ∉ (supplied.filter fun e => !Adapter.reserved lower e.1).map Prod.fst := by
    intro p hp hmem
    obtain ⟨e, he, rfl⟩ := mem_scopeHeaders hp
    obtain ⟨q, hq, hname⟩ := List.mem_map.mp hmem
    have hreserved : Adapter.reserved lower q.1 = true :=
      known_reserved hlower scope he (congrArg (fun n => lower n.shown) hname)
    rw [List.mem_filter, hreserved] at hq
    cases hq.2
  have hspoilt : conflict.1 ∉ ((supplied.filter fun e => !Adapter.reserved lower e.1) ++
      GatewayBridge.scopeHeaders scope).map Prod.fst := by
    rw [List.map_append, List.mem_append, not_or]
    refine ⟨fun hmem => ?_, ?_⟩
    · obtain ⟨q, hq, hname⟩ := List.mem_map.mp hmem
      have hlowered : lower (str "x-recursant-generation") = str "x-recursant-generation" :=
        hlower.literal (by decide) (by decide)
      have hreserved : Adapter.reserved lower q.1 = true := by
        unfold Adapter.reserved
        rw [hname]
        show (str "x-recursant-").isPrefixOf (lower (str "x-recursant-generation")) = true
        rw [hlowered]
        decide
      rw [List.mem_filter, hreserved] at hq
      cases hq.2
    · show Name.str "x-recursant-generation" ∉ [Name.str "X-Recursant-generation",
        Name.str "X-Recursant-branch", Name.str "X-Recursant-task-id",
        Name.str "X-Recursant-session-id"]
      decide
  have hheaders : GatewayBridge.fenceHeaders lower scope supplied =
      ((supplied.filter fun e => !Adapter.reserved lower e.1) ++
        GatewayBridge.scopeHeaders scope) ++ [conflict] := by
    unfold GatewayBridge.fenceHeaders
    dsimp only
    rw [Dict.update_new (scopeHeaders_nodup scope) hnew]
    exact Dict.set_new _ hspoilt
  rw [hheaders]
  refine .fenced ?_ (List.mem_append_right _ (List.mem_singleton.mpr rfl))
  exact List.mem_append_left _ (List.mem_append_right _ (.head _))

theorem of_not_conflicting {scope : Registration} {items : List (Name × Value)}
    (h : GatewayBridge.conflicting lower scope items = false) :
    (items.map fun p => lower p.1.shown).Nodup ∧
      ∀ p ∈ items, Adapter.reserved lower p.1 = true →
        ∃ e ∈ scope.known, lower p.1.shown = lower e.1 ∧ p.2 = .str e.2 := by
  unfold GatewayBridge.conflicting at h
  rw [Bool.or_eq_false_iff] at h
  refine ⟨by simpa using h.1, fun p hp hreserved => ?_⟩
  have hagrees := List.any_eq_false.mp h.2 p hp
  unfold GatewayBridge.conflicts at hagrees
  rw [hreserved, Bool.true_and, Bool.not_eq_true, Bool.not_eq_false', List.any_eq_true] at hagrees
  obtain ⟨e, he, hsame⟩ := hagrees
  rw [Bool.and_eq_true] at hsame
  exact ⟨e, he, (of_decide_eq_true hsame.1).symm, eq_str hsame.2⟩

/-- The registration gives a name one value. -/
theorem known_value (hlower : PythonLower lower) {scope : Registration} {e f : Str × Str}
    (he : e ∈ scope.known) (hf : f ∈ scope.known) (hname : lower e.1 = lower f.1) : e = f :=
  List.inj_on_of_nodup_map (known_nodup hlower scope) he hf hname

/-- Exporting leaves the registration alone. -/
theorem handOn_scope (b : GatewayBridge) (a : Adapter) (events : List Event) :
    (b.handOn a events).2.scope = b.scope := by
  have hall : ∀ (events : List Event) (b : GatewayBridge), (b.emitAll events).2.scope = b.scope := by
    intro events
    induction events with
    | nil => exact fun _ => rfl
    | cons event events ih =>
        intro b
        refine (ih (b.emit event).2).trans ?_
        unfold GatewayBridge.emit
        split
        · rfl
        · dsimp only
          split
          · rfl
          · split
            · rfl
            · split
              · rfl
              · rfl
  exact hall events { b with toAdapter := a }

/-- The correlation of the registered session gives the scope's names the scope's values. -/
theorem correlation_known (hlower : PythonLower lower) {scope : Registration} {k : Identity}
    {count : Nat} (htask : k.taskId = scope.task) (hsession : k.sessionId = scope.session)
    {p : Name × Value} (hp : p ∈ Adapter.correlation k count token) {e : Str × Str}
    (he : e ∈ scope.known) (hname : lower p.1.shown = lower e.1) : p.2 = .str e.2 := by
  have hsame : ∀ q ∈ Adapter.correlation k count token, lower q.1.shown = lower e.1 → p = q :=
    fun q hq hq' => List.inj_on_of_nodup_map (correlation_nodup hlower k count token) hp hq
      (hname.trans hq'.symm)
  have hmem : lower e.1 ∈ correlationNames := by
    rw [← hname, ← lower_correlation hlower k count token]
    exact List.mem_map_of_mem hp
  simp only [Registration.known, List.mem_cons, List.not_mem_nil, or_false] at he
  obtain rfl | rfl | rfl | rfl := he
  -- the generation and the branch are not among the correlation's names
  · rw [lower_generation hlower] at hmem
    exact absurd hmem (by decide)
  · rw [lower_branch hlower] at hmem
    exact absurd hmem (by decide)
  · rw [hsame _ (.tail _ (.head _)) rfl, htask]
  · rw [hsame _ (.tail _ (.tail _ (.head _))) rfl, hsession]

/-- Headers of which none is the router's are carried once they are annotated and completed. -/
theorem carried_annotated (hlower : PythonLower lower) {scope : Registration}
    {items : List (Name × Value)} (hnodup : (items.map fun p => lower p.1.shown).Nodup)
    (hscoped : ∀ p ∈ items, ∀ e ∈ scope.known, lower p.1.shown = lower e.1 → p.2 = .str e.2)
    {k : Identity} {count : Nat} (hk : identity c = some k)
    (hcount : Adapter.counted c.apiCallCount = some count)
    (hfree : items.any (fun p => Adapter.reserved lower p.1) = false)
    (htask : k.taskId = scope.task) (hsession : k.sessionId = scope.session) :
    Carried lower scope c token (GatewayBridge.completeHeaders lower scope
      (Dict.update items (Adapter.correlation k count token))) := by
  have hforeign : ∀ p ∈ items, ∀ q ∈ Adapter.correlation k count token,
      lower p.1.shown ≠ lower q.1.shown := by
    intro p hp q hq hname
    have hreserved := correlation_reserved hlower hq
    unfold Adapter.reserved at hreserved
    rw [← hname] at hreserved
    exact List.any_eq_false.mp hfree p hp hreserved
  have happend : Dict.update items (Adapter.correlation k count token) =
      items ++ Adapter.correlation k count token := by
    apply Dict.update_new
    · refine List.Nodup.of_map (fun n => lower n.shown) ?_
      rw [List.map_map]
      exact correlation_nodup hlower k count token
    · intro q hq hmem
      obtain ⟨p, hp, hname⟩ := List.mem_map.mp hmem
      exact hforeign p hp q hq (congrArg (fun n => lower n.shown) hname)
  rw [happend]
  apply carried_complete hlower
  · rw [List.map_append, List.nodup_append]
    refine ⟨hnodup, correlation_nodup hlower k count token, ?_⟩
    intro n hn n' hn' hsame
    obtain ⟨p, hp, rfl⟩ := List.mem_map.mp hn
    obtain ⟨q, hq, rfl⟩ := List.mem_map.mp hn'
    exact hforeign p hp q hq hsame
  · intro p hp e he hname
    cases List.mem_append.mp hp with
    | inl hold => exact hscoped p hold e he hname
    | inr hnew => exact correlation_known hlower htask hsession hnew he hname
  · intro p hp hreserved
    cases List.mem_append.mp hp with
    | inl hold => exact absurd hreserved (List.any_eq_false.mp hfree p hold)
    | inr hnew => exact .inr ⟨k, count, hk, hcount, hnew⟩

/-- A call for the registered session raises, or returns a guarded request. -/
theorem request_guarded (hlower : PythonLower lower) (b : GatewayBridge) (r : Request) (c : Context)
    (token : Str) (hurl : c.baseUrl.eq b.endpoint = true)
    (htask : c.taskId.eq (.str b.scope.task) = true)
    (hsession : c.sessionId.eq (.str b.scope.session) = true) :
    ∃ returned raised emissions, (b.request lower r c token).1 = .called returned raised emissions ∧
      (raised = true ∨ ∃ result headers, returned = some result ∧
        result.extraHeaders = .pairs headers ∧ Guarded lower b.scope c token headers) := by
  unfold GatewayBridge.request
  rw [hurl, htask, hsession]
  simp only [Bool.not_true, Bool.false_eq_true, if_false, Bool.or_false]
  split
  · exact ⟨_, _, _, rfl, .inl rfl⟩
  · exact ⟨_, _, _, rfl, .inl rfl⟩
  · next items hitems =>
      split
      · rw [handOn_scope]
        exact ⟨_, _, _, rfl, .inr ⟨_, _, rfl, rfl, fenceHeaders_guarded hlower _ _⟩⟩
      · next hagrees =>
          obtain ⟨hnodup, hvalues⟩ := of_not_conflicting (Bool.not_eq_true _ ▸ hagrees)
          have hitems : Dict.ofPairs items = items := by
            apply Dict.ofPairs_of_nodup
            refine List.Nodup.of_map (fun n => lower n.shown) ?_
            rw [List.map_map]
            exact hnodup
          rw [hitems]
          have hscoped : ∀ p ∈ items, ∀ e ∈ b.scope.known, lower p.1.shown = lower e.1 →
              p.2 = .str e.2 := by
            intro p hp e he hname
            obtain ⟨f, hf, hlowered, hvalue⟩ := hvalues p hp (known_reserved hlower _ he hname)
            rw [hvalue, known_value hlower hf he (hlowered.symm.trans hname)]
          cases request_returned lower { r with extraHeaders := .pairs items } c
              b.toAdapter token with
          | inl hnone =>
              rw [hnone, handOn_scope]
              refine ⟨_, _, _, rfl, .inr ⟨_, _, rfl, rfl, .carried ?_⟩⟩
              refine carried_complete hlower hnodup hscoped fun p hp hreserved => ?_
              obtain ⟨e, he, hname, -⟩ := hvalues p hp hreserved
              exact .inl ⟨e, he, hname⟩
          | inr hannotated =>
              obtain ⟨k, count, items', hk, hcount, hsame, hfree, hreturned⟩ := hannotated
              obtain rfl := Headers.pairs.inj hsame
              rw [hitems] at hfree hreturned
              rw [hreturned, handOn_scope]
              obtain ⟨htask', hsession'⟩ := identity_taskId hk
              have htask : k.taskId = b.scope.task :=
                Value.str.inj (htask'.symm.trans (eq_str htask))
              have hsession : k.sessionId = b.scope.session :=
                Value.str.inj (hsession'.symm.trans (eq_str hsession))
              exact ⟨_, _, _, rfl, .inr ⟨_, _, rfl, rfl, .carried
                (carried_annotated hlower hnodup hscoped hk hcount hfree htask hsession)⟩⟩

end Requests

/-! ## On the wire -/

/-- A header as it is sent: names and strings in UTF-8, other values in some way. -/
inductive Sends : Name × Value → Text × Option Text → Prop where
  | text {name value : Str} {n v : Text} : utf8 name = some n → utf8 value = some v →
      Sends (.str name, .str value) (n, some v)
  | other {name : Str} {value : Value} {n : Text} {v : Option Text} : utf8 name = some n →
      (∀ s, value ≠ .str s) → Sends (.str name, value) (n, v)

/-- The fields of a request that arrives with the headers: in any order, among fields of the
transport whose names are not the router's. -/
def Arrives (headers : List (Name × Value)) (fields : List (Text × Option Text)) : Prop :=
  ∃ sent own, List.Forall₂ Sends headers sent ∧ fields.Perm (sent ++ own) ∧
    ∀ f ∈ own, (text "x-recursant-").isPrefixOf (f.1.map tolower) = false

theorem utf8_cons {c : Nat} {s : Str} {n : Text} (h : utf8 (c :: s) = some n) :
    ∃ bytes rest, utf8Char c = some bytes ∧ utf8 s = some rest ∧ n = bytes ++ rest := by
  unfold utf8 at h
  rw [List.mapM_cons] at h
  cases hc : utf8Char c with
  | none =>
      rw [hc] at h
      cases h
  | some bytes =>
      cases hs : s.mapM utf8Char with
      | none =>
          rw [hc, hs] at h
          cases h
      | some rest =>
          rw [hc, hs] at h
          cases h
          exact ⟨bytes, rest.flatten, rfl, by rw [utf8, hs]; rfl, rfl⟩

/-- A character outside ASCII is written with a byte outside ASCII. -/
theorem utf8Char_ascii {c : Nat} {bytes : Text} (h : utf8Char c = some bytes)
    (hascii : ∀ b ∈ bytes, b.toNat < 128) : c < 128 := by
  by_contra hc
  unfold utf8Char at h
  rw [if_neg hc] at h
  split at h
  · next hlt =>
      cases h
      have hhead := hascii _ (.head _)
      rw [Nat.toUInt8_eq, UInt8.toNat_ofNat'] at hhead
      omega
  · split at h
    · cases h
    · split at h
      · cases h
        have hhead := hascii _ (.head _)
        rw [Nat.toUInt8_eq, UInt8.toNat_ofNat'] at hhead
        omega
      · split at h
        · cases h
          have hhead := hascii _ (.head _)
          rw [Nat.toUInt8_eq, UInt8.toNat_ofNat'] at hhead
          omega
        · cases h

theorem ascii_of_utf8 {s : Str} {n : Text} (h : utf8 s = some n)
    (hascii : ∀ b ∈ n, b.toNat < 128) : ∀ c ∈ s, c < 128 := by
  induction s generalizing n with
  | nil => exact fun _ hc => nomatch hc
  | cons c s ih =>
      obtain ⟨bytes, rest, hbytes, hrest, rfl⟩ := utf8_cons h
      intro d hd
      cases List.mem_cons.mp hd with
      | inl hhead =>
          rw [hhead]
          exact utf8Char_ascii hbytes fun b hb => hascii b (List.mem_append_left _ hb)
      | inr htail => exact ih hrest (fun b hb => hascii b (List.mem_append_right _ hb)) d htail

theorem tolower_ascii {s : Str} (h : ∀ c ∈ s, c < 128) :
    (s.map Nat.toUInt8).map tolower = (asciiLower s).map Nat.toUInt8 := by
  have hchar : ∀ c < 128, tolower c.toUInt8 = (if 65 ≤ c ∧ c ≤ 90 then c + 32 else c).toUInt8 := by
    decide
  unfold asciiLower
  rw [List.map_map, List.map_map]
  exact List.map_congr_left fun c hc => hchar c (h c hc)

theorem asciiLower_lt {s : Str} (h : ∀ c ∈ s, c < 128) : ∀ c ∈ asciiLower s, c < 128 := by
  intro c hc
  obtain ⟨d, hd, rfl⟩ := List.mem_map.mp hc
  have := h d hd
  split <;> omega

theorem bytes_injective {s t : Str} (hs : ∀ c ∈ s, c < 128) (ht : ∀ c ∈ t, c < 128)
    (h : s.map Nat.toUInt8 = t.map Nat.toUInt8) : s = t := by
  have hback : ∀ u : Str, (∀ c ∈ u, c < 128) → (u.map Nat.toUInt8).map UInt8.toNat = u := by
    intro u hu
    rw [List.map_map]
    refine (List.map_congr_left fun c hc => ?_).trans (List.map_id u)
    have := hu c hc
    show c.toUInt8.toNat = c
    rw [Nat.toUInt8_eq, UInt8.toNat_ofNat']
    omega
  rw [← hback s hs, h, hback t ht]

/-- The router compares a name with one of its own as the adapter does. -/
theorem caseEq_sent {lower : Str → Str} (hlower : PythonLower lower) {name key : Str} {n : Text}
    (hn : utf8 name = some n) (hkey : ∀ c ∈ asciiLower key, c < 128 ∧ c ≠ 107) :
    caseEq n (key.map Nat.toUInt8) = true ↔ lower name = lower key := by
  have hkeyAscii := pythonLower_asciiLower.kelvin key hkey
  have hlowered : lower key = asciiLower key := hlower.ascii key hkeyAscii
  have hbytes : ∀ b ∈ (asciiLower key).map Nat.toUInt8, b.toNat < 128 := by
    intro b hb
    obtain ⟨c, hc, rfl⟩ := List.mem_map.mp hb
    have := (hkey c hc).1
    rw [Nat.toUInt8_eq, UInt8.toNat_ofNat']
    omega
  unfold caseEq
  rw [beq_iff_eq, tolower_ascii hkeyAscii, hlowered]
  constructor
  · intro hsame
    have hascii : ∀ b ∈ n, b.toNat < 128 := by
      intro b hb
      have hlow := hbytes (tolower b) (hsame ▸ List.mem_map_of_mem hb)
      unfold tolower at hlow
      split at hlow
      · next hupper =>
          rw [Bool.and_eq_true, decide_eq_true_eq, decide_eq_true_eq] at hupper
          have : b.toNat ≤ 90 := hupper.2
          omega
      · exact hlow
    have hname := ascii_of_utf8 hn hascii
    rw [utf8_ascii hname] at hn
    obtain rfl := Option.some.inj hn
    rw [tolower_ascii hname] at hsame
    rw [hlower.ascii name hname]
    exact bytes_injective (asciiLower_lt hname) (asciiLower_lt hkeyAscii) hsame
  · intro hsame
    have hname := hlower.kelvin name (hsame ▸ hkey)
    rw [utf8_ascii hname] at hn
    obtain rfl := Option.some.inj hn
    rw [tolower_ascii hname, ← hlower.ascii name hname, hsame]

section Arrives

variable {lower : Str → Str} {headers : List (Name × Value)} {fields : List (Text × Option Text)}

/-- The fields of a name are what is sent of its occurrences. -/
theorem sent_filter (hlower : PythonLower lower) {key : Str}
    (hkey : ∀ c ∈ asciiLower key, c < 128 ∧ c ≠ 107) {sent : List (Text × Option Text)}
    (hsent : List.Forall₂ Sends headers sent) :
    List.Forall₂ Sends (occurrences lower key headers)
      (sent.filter fun f => caseEq f.1 (key.map Nat.toUInt8)) := by
  unfold occurrences
  induction hsent with
  | nil => exact .nil
  | @cons p f headers sent hp _ ih =>
      have hsame : caseEq f.1 (key.map Nat.toUInt8) = true ↔ lower p.1.shown = lower key := by
        cases hp with
        | text hn _ => exact caseEq_sent hlower hn hkey
        | other hn _ => exact caseEq_sent hlower hn hkey
      by_cases hname : lower p.1.shown = lower key
      · rw [List.filter_cons_of_pos (by simpa using hname), List.filter_cons, if_pos (hsame.mpr hname)]
        exact .cons hp ih
      · rw [List.filter_cons_of_neg (by simpa using hname), List.filter_cons,
          if_neg (fun h => hname (hsame.mp h))]
        exact ih

/-- A header that stands once arrives once. -/
theorem arrives_once (hlower : PythonLower lower) {key value : Str} {v : Text} {name : Name}
    (hkey : ∀ c ∈ asciiLower key, c < 128 ∧ c ≠ 107)
    (hown : (str "x-recursant-").isPrefixOf (asciiLower key) = true) (hvalue : utf8 value = some v)
    (hheaders : occurrences lower key headers = [(name, .str value)])
    (h : Arrives headers fields) :
    ∃ n, fields.filter (fun f => caseEq f.1 (key.map Nat.toUInt8)) = [(n, some v)] := by
  obtain ⟨sent, own, hsent, hperm, hforeign⟩ := h
  have hfilter := sent_filter hlower hkey hsent
  rw [hheaders] at hfilter
  have hnone : own.filter (fun f => caseEq f.1 (key.map Nat.toUInt8)) = [] := by
    rw [List.filter_eq_nil_iff]
    intro f hf hsame
    have hprefix := hforeign f hf
    unfold caseEq at hsame
    rw [beq_iff_eq, tolower_ascii (pythonLower_asciiLower.kelvin key hkey)] at hsame
    rw [hsame] at hprefix
    have hbytes : (text "x-recursant-").isPrefixOf ((asciiLower key).map Nat.toUInt8) = true := by
      rw [List.isPrefixOf_iff_prefix] at hown ⊢
      have hmap := hown.map Nat.toUInt8
      rw [str, List.map_map] at hmap
      exact hmap
    rw [hbytes] at hprefix
    cases hprefix
  cases hsome : sent.filter fun f => caseEq f.1 (key.map Nat.toUInt8) with
  | nil =>
      rw [hsome] at hfilter
      cases hfilter
  | cons f rest =>
      rw [hsome] at hfilter
      cases hfilter with
      | cons hf hrest =>
          cases hrest
          cases hf with
          | @text _ _ n _ hn hv =>
              obtain rfl := Option.some.inj (hv.symm.trans hvalue)
              refine ⟨n, ?_⟩
              rw [← List.perm_singleton]
              refine (hperm.filter _).trans ?_
              rw [List.filter_append, hnone, List.append_nil, hsome]
          | other _ hno => exact absurd rfl (hno value)

theorem arrives_conflict (h : Arrives headers fields) (hconflict : conflict ∈ headers) :
    (text "x-recursant-generation", some (text "bridge conflict")) ∈ fields := by
  obtain ⟨sent, own, hsent, hperm, -⟩ := h
  have hfield : (text "x-recursant-generation", some (text "bridge conflict")) ∈ sent := by
    clear hperm
    induction hsent with
    | nil => cases hconflict
    | @cons p f headers sent hp _ ih =>
        cases List.mem_cons.mp hconflict with
        | inr hrest => exact .tail _ (ih hrest)
        | inl hhead =>
            have hname : utf8 (str "x-recursant-generation") =
                some (text "x-recursant-generation") := by decide +kernel
            have hvalue : utf8 (str "bridge conflict") = some (text "bridge conflict") := by
              decide +kernel
            rw [← hhead] at hp
            cases hp with
            | text hn hv =>
                rw [Option.some.inj (hn.symm.trans hname), Option.some.inj (hv.symm.trans hvalue)]
                exact .head _
            | other _ hno => exact absurd rfl (hno _)
  exact hperm.mem_iff.mpr (List.mem_append_left _ hfield)

end Arrives

/-! ## At the router -/

/-- What the router makes of a request that arrives with the headers: a conflict is denied whatever
order the fields are in, and what is dispatched is dispatched under the registered scope. -/
structure Held (ρ : Router) (scope : Registration) (headers : List (Name × Value)) : Prop where
  invalid : ∀ fields, Arrives headers fields → conflict ∈ headers →
    (collectHeaders fields).invalid = true
  denied : ∀ (s : State ρ) id e now verdict polled, s.exchanges[id]? = some e →
    e.prepared = false → Arrives headers e.request.fields → conflict ∈ headers →
    ∃ status, (Gateway.step s (.prepare id now verdict polled)).1 = .denied status
  under : ∀ history s id e event body endpoint t, Reaches ρ history s →
    s.exchanges[id]? = some e → Arrives headers e.request.fields → event.id? = some id →
    Gateway.step s event = (.dispatched body endpoint, t) →
    conflict ∉ headers ∧ ∃ e' i, t.exchanges[id]? = some e' ∧ e'.ticket.scope = some i ∧
      t.gateway.scopeFind (scope.generation.map Nat.toUInt8) (scope.branch.map Nat.toUInt8) = some i

theorem fits_token {bound : Nat} {s : Str} (h : isToken bound s = true) :
    fits [] (s.map Nat.toUInt8) (bound + 1) = true := by
  obtain ⟨-, hne, hlength, hgraph⟩ := utf8_token h
  unfold fits
  rw [hgraph, decide_eq_true hne, decide_eq_true (Nat.lt_succ_of_le hlength)]
  rfl

theorem Guarded.held {lower : Str → Str} (hlower : PythonLower lower) {scope : Registration}
    {c : Context} {token : Str} {headers : List (Name × Value)}
    (h : Guarded lower scope c token headers) (ρ : Router) : Held ρ scope headers := by
  have hinvalid : ∀ fields, Arrives headers fields → conflict ∈ headers →
      (collectHeaders fields).invalid = true := by
    intro fields harrives hconflict
    refine collectHeaders_invalid (arrives_conflict harrives hconflict) (by decide) fun out => ?_
    have hblank : fits out (text "bridge conflict") 33 = false := by
      unfold fits
      rw [show (text "bridge conflict").all isgraph = false by decide, Bool.and_false]
    rw [Option.filter_some, hblank, if_neg Bool.false_ne_true]
  refine ⟨hinvalid, ?_, ?_⟩
  · intro s id e now verdict polled he hfresh harrives hconflict
    obtain ⟨status, q, hdenied⟩ := prepare_invalid (c := e.call now verdict polled)
      (vet s.runtime verdict) (p := e.prep s.gateway)
      (hinvalid e.request.fields harrives hconflict)
    refine ⟨status, ?_⟩
    rw [step_prepare he hfresh]
    unfold prepareStep
    rw [show (e.call now verdict polled).verdict = verdict from rfl, hdenied]
  · intro history s id e event body endpoint t hreaches he harrives hid hstep
    cases h with
    | fenced _ hconflict =>
        have haddresses : Addresses e.request.headers :=
          .inr (hinvalid e.request.fields harrives hconflict)
        have hvalid := (hreaches.dispatched_addressed he haddresses hid hstep).1
        rw [show e.request.headers.invalid = true from hinvalid _ harrives hconflict] at hvalid
        cases hvalid
    | carried hcarried =>
        obtain ⟨name, hname⟩ := hcarried.known (str "X-Recursant-generation", _) (.head _)
        obtain ⟨name', hname'⟩ := hcarried.known (str "X-Recursant-branch", _) (.tail _ (.head _))
        dsimp only at hname hname'
        have hgenerationOk := isToken_of_isHex scope.generationOk.1 scope.generationOk.2
        obtain ⟨n, hn⟩ := arrives_once hlower (by decide) (by decide) (utf8_token hgenerationOk).1
          hname harrives
        obtain ⟨n', hn'⟩ := arrives_once hlower (by decide) (by decide) (utf8_token scope.branchOk).1
          hname' harrives
        have hgeneration : e.request.headers.generation = scope.generation.map Nat.toUInt8 :=
          collectHeaders_generation (fits_token hgenerationOk) hn
        have hbranch : e.request.headers.branch = scope.branch.map Nat.toUInt8 :=
          collectHeaders_branch (fits_token scope.branchOk) hn'
        have haddresses : Addresses e.request.headers := by
          refine .inl ?_
          rw [hgeneration]
          exact (utf8_token hgenerationOk).2.1
        obtain ⟨hvalid, hdispatched⟩ := hreaches.dispatched_addressed he haddresses hid hstep
        rw [hgeneration, hbranch] at hdispatched
        refine ⟨fun hconflict => ?_, hdispatched⟩
        rw [show e.request.headers.invalid = true from hinvalid _ harrives hconflict] at hvalid
        cases hvalid

/-- What a call for the registered session comes to, here and at any router. -/
def Fences (lower : Str → Str) (b : GatewayBridge) (r : Request) (c : Context) (token : Str) : Prop :=
  ∃ returned raised emissions, (b.request lower r c token).1 = .called returned raised emissions ∧
    (raised = true ∨ ∃ result headers, returned = some result ∧
      result.extraHeaders = .pairs headers ∧ Guarded lower b.scope c token headers ∧
      ∀ ρ : Router, Held ρ b.scope headers)

/-- Whatever the bridge was called with before, a request of the registered task, session and
endpoint is fenced. -/
theorem request_fenced {lower : Str → Str} (hlower : PythonLower lower) (b : GatewayBridge)
    (r : Request) (c : Context) (token : Str) (hurl : c.baseUrl.eq b.endpoint = true)
    (htask : c.taskId.eq (.str b.scope.task) = true)
    (hsession : c.sessionId.eq (.str b.scope.session) = true) : Fences lower b r c token := by
  obtain ⟨returned, raised, emissions, hreport, hshape⟩ :=
    request_guarded hlower b r c token hurl htask hsession
  refine ⟨returned, raised, emissions, hreport, hshape.imp id fun hreturned => ?_⟩
  obtain ⟨result, headers, hresult, hheaders, hguarded⟩ := hreturned
  exact ⟨result, headers, hresult, hheaders, hguarded, hguarded.held hlower⟩

/-- A caller that names another generation, in other letters. -/
def foreignRequest : Request :=
  ⟨[], .pairs [("x-recursant-GENERATION", .str "0"), ("accept", .str "text/plain")]⟩

theorem request_fenced_sample :
    Fences asciiLower sampleJoint.bridge foreignRequest (sampleContext 1) "a" ∧
      ∃ returned emissions, (sampleJoint.bridge.request asciiLower foreignRequest (sampleContext 1)
        "a").1 = .called (some returned) false emissions ∧ returned.extraHeaders =
          .pairs ((Name.str "accept", Value.str "text/plain") ::
            GatewayBridge.scopeHeaders sampleScope ++ [conflict]) :=
  ⟨request_fenced pythonLower_asciiLower _ _ _ _ (by decide +kernel) (by decide +kernel)
    (by decide +kernel), _, _, rfl, by decide +kernel⟩

end Recursant.Bridge
