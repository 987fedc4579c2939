import Recursant.Compliance.Demand

/-!
# `CLEAN` is complete

Every text that is reachable in a body of verdict `CLEAN` has been matched against every rule.
Reachability is stated without budgets and without the walk: a text is reachable when it is a
string, a key or the serialization of a scalar, at any depth, or stands in the value that a
reachable text decodes to.
-/

set_option maxRecDepth 8000

namespace Recursant.Compliance

variable (r : Runtime) (p : Policy)

/-! ## Reachable values and texts -/

def isScalar : Json → Bool
  | .string _ | .array _ | .object _ => false
  | _ => true

/-- `Occurs r p decodes v d w`: the value `w` stands `d` levels below `v`.  Keys and serializations
of scalars stand there as strings.  Texts of which `decodes` holds are entered, and members that
are recorded public output are not. -/
inductive Occurs (decodes : Text → Bool) : Json → Nat → Json → Prop where
  | here (v : Json) : Occurs decodes v 0 v
  | element {elements : List Json} {v w : Json} {d : Nat} :
      v ∈ elements → Occurs decodes v d w → Occurs decodes (.array elements) (d + 1) w
  | member {members : List (Text × Json)} {key : Text} {v w : Json} {d : Nat} :
      (key, v) ∈ members → exempt r p key v = false → Occurs decodes v d w →
        Occurs decodes (.object members) (d + 1) w
  | key {members : List (Text × Json)} {key : Text} {v w : Json} {d : Nat} :
      (key, v) ∈ members → Occurs decodes (.string key) d w →
        Occurs decodes (.object members) (d + 1) w
  | written {v w : Json} {t : Text} {d : Nat} :
      isScalar v = true → r.jansson.dumps v = some t → Occurs decodes (.string t) d w →
        Occurs decodes v d w
  | decoded {t : Text} {v w : Json} {d : Nat} :
      decodes t = true → r.jansson.loadb t = some v → Occurs decodes v d w →
        Occurs decodes (.string t) (d + 1) w

def Reachable (decodes : Text → Bool) (body : Json) (u : Text) : Prop :=
  ∃ d, Occurs r p decodes body d (.string u)

/-- `data:` and `;base64,` with at most 127 bytes between them, none a comma or blank. -/
def EmbeddedMedia (u : Text) : Prop :=
  ∃ mid : Text, mid.length < 128 ∧ (∀ c ∈ mid, c ≠ 44 ∧ isspace c = false) ∧
    text "data:" ++ mid ++ text ";base64," <:+: u

/-- What the verdict `CLEAN` says of one text. -/
structure CleanText (u : Text) : Prop where
  rules : ∀ rule ∈ p.rules, rule u = .noMatch
  identifiers : ∀ kind ∈ p.identifiers, kind u = false
  strictMedia : r.agentText = false → ∀ scheme ∈ ["http://", "https://", "data:", "file://"],
    ¬ text scheme <:+: u
  strictJson : r.agentText = false → looksLikeJson u = true → (r.jansson.loadb u).isSome
  agentMedia : r.agentText = true → ¬ EmbeddedMedia u

/-! ## Finite demands -/

theorem permit_ne_top {b : Bool} : permit b ≠ ⊤ ↔ b = true := by
  unfold permit
  cases b <;> simp

theorem ruleDemand_ne_top {t : Text} {rule : Text → RuleResult} :
    ruleDemand t rule ≠ ⊤ ↔ rule t = .noMatch := by
  unfold ruleDemand
  rw [WithTop.add_ne_top, WithTop.add_ne_top, permit_ne_top, permit_ne_top]
  cases rule t <;> simp

theorem sum_ne_top {α : Type} {f : α → WithTop Counters} {l : List α} :
    (l.map f).sum ≠ ⊤ ↔ ∀ a ∈ l, f a ≠ ⊤ := by
  induction l with
  | nil => simp
  | cons a l ih =>
      rw [List.map_cons, List.sum_cons, WithTop.add_ne_top, ih, List.forall_mem_cons]

theorem rulesDemand_ne_top {t : Text} (h : rulesDemand p t ≠ ⊤) :
    (∀ rule ∈ p.rules, rule t = .noMatch) ∧ ∀ kind ∈ p.identifiers, kind t = false := by
  unfold rulesDemand at h
  rw [WithTop.add_ne_top, sum_ne_top, permit_ne_top] at h
  refine ⟨fun rule hrule => ruleDemand_ne_top.mp (h.1 rule hrule), ?_⟩
  simpa using h.2

/-! ## Text heuristics -/

theorem base64Ahead_of_prefix {n : Nat} {mid rest : Text} (hlen : mid.length < n)
    (hmid : ∀ c ∈ mid, c ≠ 44 ∧ isspace c = false) :
    base64Ahead n (mid ++ text ";base64," ++ rest) = true := by
  induction mid generalizing n with
  | nil =>
      obtain ⟨n, rfl⟩ := Nat.exists_eq_add_one_of_ne_zero (Nat.ne_of_gt hlen)
      rfl
  | cons c mid ih =>
      obtain ⟨n, rfl⟩ := Nat.exists_eq_add_one_of_ne_zero (by omega : n ≠ 0)
      obtain ⟨hc, hmid⟩ := List.forall_mem_cons.mp hmid
      rw [List.length_cons] at hlen
      rw [List.cons_append, List.cons_append, base64Ahead, if_neg (by simp [hc]), ih (by omega) hmid,
        Bool.or_true]

theorem base64DataUri_here {rest : Text} (h : base64Ahead 128 rest = true) :
    base64DataUri (text "data:" ++ rest) = true := by
  have hbytes : text "data:" = [100, 97, 116, 97, 58] := by decide
  rw [hbytes]
  simp only [List.cons_append, List.nil_append]
  rw [base64DataUri, List.drop_succ_cons, List.drop_succ_cons, List.drop_succ_cons,
    List.drop_succ_cons, List.drop_zero, h, hbytes]
  simp [List.isPrefixOf]

theorem base64DataUri_of_embedded {u : Text} (h : EmbeddedMedia u) : base64DataUri u = true := by
  obtain ⟨mid, hlen, hmid, before, after, rfl⟩ := h
  induction before with
  | nil =>
      have hahead : base64Ahead 128 (mid ++ text ";base64," ++ after) = true :=
        base64Ahead_of_prefix hlen hmid
      rw [List.nil_append, List.append_assoc, List.append_assoc]
      rw [List.append_assoc] at hahead
      exact base64DataUri_here hahead
  | cons c before ih =>
      rw [List.cons_append, List.cons_append, base64DataUri, ih, Bool.or_true]

/-! ## A finite demand reaches every text -/

theorem textDemand_ne_top {nested : Json → WithTop Counters} {t : Text}
    (h : textDemand r p nested t ≠ ⊤) :
    rulesDemand p t ≠ ⊤ ∧ mediaFree r t = true ∧ decodedDemand r p nested t ≠ ⊤ := by
  unfold textDemand at h
  rw [WithTop.add_ne_top, WithTop.add_ne_top, WithTop.add_ne_top, WithTop.add_ne_top,
    permit_ne_top, permit_ne_top] at h
  exact ⟨h.2.2.1, h.2.2.2.1, h.2.2.2.2⟩

theorem cleanText_of_finite {nested : Json → WithTop Counters} {t : Text}
    (h : textDemand r p nested t ≠ ⊤) : CleanText r p t := by
  obtain ⟨hrules, hmedia, hdecoded⟩ := textDemand_ne_top r p h
  obtain ⟨hrule, hkind⟩ := rulesDemand_ne_top p hrules
  unfold mediaFree at hmedia
  refine ⟨hrule, hkind, ?_, ?_, ?_⟩
  · intro hstrict scheme hscheme hin
    rw [hstrict, if_neg Bool.false_ne_true] at hmedia
    have hremote : remoteMedia t = true := by
      have hhas := (hasText_iff (text scheme) t).mpr hin
      unfold remoteMedia
      simp only [List.mem_cons, List.not_mem_nil, or_false] at hscheme
      rcases hscheme with rfl | rfl | rfl | rfl <;> simp [hhas]
    rw [hremote] at hmedia
    cases hmedia
  · intro hstrict hjson
    unfold decodedDemand at hdecoded
    rw [if_pos hjson, hstrict, if_neg Bool.false_ne_true] at hdecoded
    cases hload : r.jansson.loadb t with
    | none =>
        rw [hload] at hdecoded
        exact absurd rfl hdecoded
    | some v => rfl
  · intro hagent hembedded
    rw [hagent, if_pos rfl, base64DataUri_of_embedded hembedded] at hmedia
    cases hmedia

/-- The value a text decodes to has a finite demand of its own. -/
theorem nested_of_finite {nested : Json → WithTop Counters} {t : Text} {v : Json}
    (h : textDemand r p nested t ≠ ⊤) (hjson : looksLikeJson t = true)
    (hload : r.jansson.loadb t = some v) : nested v ≠ ⊤ := by
  have hdecoded := (textDemand_ne_top r p h).2.2
  unfold decodedDemand at hdecoded
  rw [if_pos hjson, hload] at hdecoded
  exact hdecoded

theorem demand_succ_ne_top {d e : WithTop Counters} (h : d + e ≠ ⊤) : e ≠ ⊤ :=
  (WithTop.add_ne_top.mp h).2

/-- A scalar is scanned as the string of its serialization. -/
theorem demand_written {room : Nat} {v : Json} {t : Text} (hscalar : isScalar v = true)
    (hdumps : r.jansson.dumps v = some t) : demand r p room v = demand r p room (.string t) := by
  cases room with
  | zero => rfl
  | succ room =>
      cases v with
      | null => rw [demand, demand, hdumps] <;> simp
      | bool _ => rw [demand, demand, hdumps] <;> simp
      | integer _ => rw [demand, demand, hdumps] <;> simp
      | real _ => rw [demand, demand, hdumps] <;> simp
      | string _ => cases hscalar
      | array _ => cases hscalar
      | object _ => cases hscalar

/-- The induction follows the path to the value; the room left is what the walk has there. -/
theorem Occurs.demand_ne_top {v w : Json} {d : Nat} (h : Occurs r p looksLikeJson v d w) :
    ∀ room, demand r p room v ≠ ⊤ → ∃ left, room = d + (left + 1) ∧ demand r p (left + 1) w ≠ ⊤ := by
  induction h with
  | here v =>
      intro room hfinite
      cases room with
      | zero => exact absurd rfl hfinite
      | succ room => exact ⟨room, (Nat.zero_add _).symm, hfinite⟩
  | element hmem _ ih =>
      intro room hfinite
      cases room with
      | zero => exact absurd rfl hfinite
      | succ room =>
          rw [demand] at hfinite
          obtain ⟨left, rfl, hleft⟩ := ih room (sum_ne_top.mp (demand_succ_ne_top hfinite) _ hmem)
          exact ⟨left, by omega, hleft⟩
  | member hmem hkept _ ih =>
      intro room hfinite
      cases room with
      | zero => exact absurd rfl hfinite
      | succ room =>
          rw [demand] at hfinite
          have hchild := demand_succ_ne_top (sum_ne_top.mp (demand_succ_ne_top hfinite) _ hmem)
          rw [if_neg (by simp [hkept])] at hchild
          obtain ⟨left, rfl, hleft⟩ := ih room hchild
          exact ⟨left, by omega, hleft⟩
  | @key members key v w d hmem _ ih =>
      intro room hfinite
      cases room with
      | zero => exact absurd rfl hfinite
      | succ room =>
          rw [demand] at hfinite
          have hpair := sum_ne_top.mp (demand_succ_ne_top hfinite) _ hmem
          have hkey := (WithTop.add_ne_top.mp hpair).1
          cases room with
          | zero => exact absurd rfl hkey
          | succ below =>
              have hstring : demand r p (below + 1) (.string key) ≠ ⊤ := by
                rw [demand]
                exact WithTop.add_ne_top.mpr ⟨WithTop.coe_ne_top, hkey⟩
              obtain ⟨left, hroom, hleft⟩ := ih (below + 1) hstring
              exact ⟨left, by omega, hleft⟩
  | written hscalar hdumps _ ih =>
      intro room hfinite
      rw [demand_written r p hscalar hdumps] at hfinite
      exact ih room hfinite
  | decoded hjson hload _ ih =>
      intro room hfinite
      cases room with
      | zero => exact absurd rfl hfinite
      | succ room =>
          rw [demand] at hfinite
          obtain ⟨left, rfl, hleft⟩ :=
            ih room (nested_of_finite r p (demand_succ_ne_top hfinite) hjson hload)
          exact ⟨left, by omega, hleft⟩

theorem Occurs.of_finite {v w : Json} {d : Nat} (h : Occurs r p looksLikeJson v d w) (room : Nat)
    (hfinite : demand r p room v ≠ ⊤) : d < room ∧ ∀ u, w = .string u → CleanText r p u := by
  obtain ⟨left, rfl, hleft⟩ := h.demand_ne_top r p room hfinite
  refine ⟨by omega, ?_⟩
  rintro u rfl
  rw [demand] at hleft
  exact cleanText_of_finite r p (demand_succ_ne_top hleft)

/-! ## The structural contract -/

/-- The value is an object with no members but these. -/
def Members (names : List String) (o : Json) : Prop :=
  ∃ members, o = .object members ∧ ∀ member ∈ members, member.1 ∈ names.map text

def elementsAt (key : Text) (o : Json) : List Json :=
  match o.get? key with
  | some (.array elements) => elements
  | _ => []

def bodyNames : List String :=
  ["model", "messages", "tools", "tool_choice", "functions", "function_call", "temperature",
    "top_p", "max_tokens", "max_completion_tokens", "stream", "stream_options", "stop", "seed",
    "frequency_penalty", "presence_penalty", "logprobs", "top_logprobs", "logit_bias", "n", "user",
    "metadata", "response_format", "reasoning", "reasoning_effort", "parallel_tool_calls",
    "provider", "cache_control", "store"]

def messageNames : List String :=
  ["role", "content", "name", "tool_calls", "tool_call_id", "function_call", "refusal",
    "reasoning_details"]

def definitionNames : List String := ["name", "description", "parameters", "strict"]

structure AllowlistedMessage (message : Json) : Prop where
  members : Members messageNames message
  functionCall : ∀ call, message.get? "function_call" = some call →
    Members ["name", "arguments"] call
  toolCalls : ∀ call ∈ elementsAt "tool_calls" message, Members ["id", "type", "function"] call ∧
    ∀ f, call.get? "function" = some f → Members ["name", "arguments"] f
  content : ∀ part ∈ elementsAt "content" message, Members ["type", "text"] part

/-- Every object that the structural contract looks into has only members of its list. -/
structure Allowlisted (body : Json) : Prop where
  members : Members bodyNames body
  cacheControl : ∀ o, body.get? "cache_control" = some o → Members ["type", "ttl"] o
  provider : ∀ o, body.get? "provider" = some o → Members ["allow_fallbacks"] o
  messages : ∀ message ∈ elementsAt "messages" body, AllowlistedMessage message
  tools : ∀ t ∈ elementsAt "tools" body, Members ["type", "function"] t ∧
    ∀ f, t.get? "function" = some f → Members definitionNames f
  functions : ∀ f ∈ elementsAt "functions" body, Members definitionNames f

theorem members_of_knownKeys {names : List String} {o : Json} {allowed : Text}
    (h : knownKeys o allowed = true) (hall : allowed = Delimited.render 124 (names.map text))
    (hnames : ∀ x ∈ names.map text, (124 : Byte) ∉ x) : Members names o := by
  cases o with
  | object members => exact ⟨members, rfl, mem_of_knownKeys h hall hnames⟩
  | _ => cases h

theorem allElements_at {test : Json → Bool} {key : Text} {o : Json}
    (h : (o.get? key).all (allElements test) = true) : ∀ e ∈ elementsAt key o, test e = true := by
  unfold elementsAt
  cases hget : o.get? key with
  | none => simp
  | some v =>
      rw [hget] at h
      cases v with
      | array elements => exact List.all_eq_true.mp h
      | _ => simp

theorem all_at {test : Json → Bool} {key : Text} {o v : Json} (h : (o.get? key).all test = true)
    (hget : o.get? key = some v) : test v = true := by
  rw [hget] at h
  exact h

theorem functionCall_members {call : Json} (h : functionCall r call = true) :
    Members ["name", "arguments"] call := by
  unfold functionCall at h
  simp only [Bool.and_eq_true] at h
  exact members_of_knownKeys h.1.1 (by decide) (by decide)

theorem functionDefinition_members {f : Json} (h : functionDefinition f = true) :
    Members definitionNames f := by
  unfold functionDefinition at h
  rw [Bool.and_eq_true] at h
  exact members_of_knownKeys h.1 (by decide) (by decide)

theorem toolCall_members {call : Json} (h : toolCall r call = true) :
    Members ["id", "type", "function"] call ∧
      ∀ f, call.get? "function" = some f → Members ["name", "arguments"] f := by
  unfold toolCall at h
  simp only [Bool.and_eq_true] at h
  refine ⟨members_of_knownKeys h.1.1 (by decide) (by decide), ?_⟩
  intro f hf
  have hcall := h.2
  rw [hf] at hcall
  exact functionCall_members r hcall

theorem tool_members {t : Json} (h : tool t = true) :
    Members ["type", "function"] t ∧
      ∀ f, t.get? "function" = some f → Members definitionNames f := by
  unfold tool at h
  simp only [Bool.and_eq_true] at h
  refine ⟨members_of_knownKeys h.1.1 (by decide) (by decide), ?_⟩
  intro f hf
  have hdefinition := h.2
  rw [hf] at hdefinition
  exact functionDefinition_members hdefinition

theorem textPart_members {part : Json} (h : textPart part = true) :
    Members ["type", "text"] part := by
  unfold textPart at h
  simp only [Bool.and_eq_true] at h
  exact members_of_knownKeys h.1.1 (by decide) (by decide)

theorem contentOk_members {message : Json} (h : (message.get? "content").all contentOk = true) :
    ∀ part ∈ elementsAt "content" message, Members ["type", "text"] part := by
  unfold elementsAt
  cases hget : message.get? "content" with
  | none => simp
  | some v =>
      rw [hget] at h
      cases v with
      | array elements =>
          intro part hpart
          exact textPart_members (List.all_eq_true.mp h part hpart)
      | _ => simp

theorem messageOk_allowlisted {message : Json} (h : messageOk r p message = true) :
    AllowlistedMessage message := by
  unfold messageOk at h
  simp only [Bool.and_eq_true] at h
  obtain ⟨⟨⟨⟨hkeys, -⟩, hcall⟩, hcalls⟩, hcontent⟩ := h
  refine ⟨members_of_knownKeys hkeys (by decide) (by decide), ?_, ?_, contentOk_members hcontent⟩
  · intro call hget
    exact functionCall_members r (all_at hcall hget)
  · intro call hin
    exact toolCall_members r (allElements_at hcalls call hin)

/-- The only adapter with a list of provider controls is OpenRouter's. -/
theorem controls_of_adapterFind {name controls : Text}
    (h : (adapterFind name).bind (·.providerControlKeys) = some controls) :
    controls = "|allow_fallbacks|" := by
  unfold adapterFind at h
  rw [List.find?_cons] at h
  split at h
  · cases h
  · rw [List.find?_cons] at h
    split at h
    · exact (Option.some.inj h).symm
    · cases h

theorem bodyKeys_eq : bodyKeys = Delimited.render 124 (bodyNames.map text) := by decide +kernel

theorem inspectable_allowlisted {name : Text} {body : Json}
    (h : inspectable r p ((adapterFind name).bind (·.providerControlKeys)) body = true) :
    Allowlisted body := by
  unfold inspectable inspectableControls inspectableContent at h
  simp only [Bool.and_eq_true] at h
  obtain ⟨⟨⟨⟨hbody, -⟩, hcache⟩, hprovider⟩, ⟨hmessages, htools⟩, hfunctions⟩ := h
  refine ⟨members_of_knownKeys hbody bodyKeys_eq (by decide +kernel), ?_, ?_, ?_, ?_, ?_⟩
  · intro o hget
    have hok := all_at hcache hget
    unfold cacheControlOk at hok
    simp only [Bool.and_eq_true] at hok
    exact members_of_knownKeys hok.1.1 (by decide) (by decide)
  · intro o hget
    have hok := all_at hprovider hget
    rw [Bool.and_eq_true, Option.any_eq_true] at hok
    obtain ⟨⟨controls, hcontrols, hkeys⟩, -⟩ := hok
    rw [controls_of_adapterFind hcontrols] at hkeys
    exact members_of_knownKeys hkeys (by decide) (by decide)
  · intro message hin
    have hall : (body.get? "messages").all (allElements (messageOk r p)) = true := by
      obtain ⟨v, hget, hv⟩ := (Option.any_eq_true ..).mp hmessages
      rw [hget]
      exact hv
    exact messageOk_allowlisted r p (allElements_at hall message hin)
  · intro t hin
    exact tool_members (allElements_at htools t hin)
  · intro f hin
    exact functionDefinition_members (allElements_at hfunctions f hin)

/-- A body of verdict `CLEAN`: every text reachable through the decoding the router does has been
matched and looked at, its walk stays within the depth bound and all three budgets, and every
object of the structural contract is allowlisted. -/
theorem classify_clean_complete (body : Json) (adapter : Text) (hscan : r.contentScanning = true)
    (hclean : classify r p body ((adapterFind adapter).bind (·.providerControlKeys)) = .clean) :
    (∀ u, Reachable r p looksLikeJson body u → CleanText r p u) ∧
      (∀ d w, Occurs r p looksLikeJson body d w → d ≤ maxDepth) ∧
      demand r p (maxDepth + 1) body ≤ limits ∧ Allowlisted body := by
  obtain ⟨hdemand, hinspectable⟩ := (classify_clean_iff r p hscan).mp hclean
  have hfinite : demand r p (maxDepth + 1) body ≠ ⊤ := by
    intro htop
    rw [htop] at hdemand
    exact WithTop.coe_ne_top (top_le_iff.mp hdemand)
  refine ⟨?_, ?_, hdemand, inspectable_allowlisted r p hinspectable⟩
  · intro u hreach
    obtain ⟨d, hoccurs⟩ := hreach
    exact (hoccurs.of_finite r p _ hfinite).2 u rfl
  · intro d w hoccurs
    exact Nat.le_of_lt_succ (hoccurs.of_finite r p _ hfinite).1

/-! ### A number written in a string -/

/-- The library on the texts of the sample: `1e3` is the real number 1000. -/
def sampleJansson : Jansson where
  loadb t := if t = text "1e3" then some (.real 0x408F400000000000) else none
  dumps
    | .real _ => some "1000.0"
    | _ => none
  dumpsSorted _ := none

def samplePolicy : Policy :=
  ⟨[fun t => if t = text "1000.0" then .found else .noMatch], [], ⟨[], 4096, 32 * 1024 * 1024⟩⟩

def sampleConfig : Config := ⟨[], [], false, 0, none, none, none⟩

def sampleRuntime : Runtime := ⟨sampleConfig, true, true, true, false, some samplePolicy, sampleJansson⟩

def sampleMessage : Json := .object [("role", .string "user"), ("content", .string "1e3")]

def sampleBody : Json :=
  .object [("model", .string "m"), ("messages", .array [sampleMessage])]

theorem sampleBody_clean : classify sampleRuntime samplePolicy sampleBody none = .clean := by
  decide +kernel

theorem classify_clean_complete_sample :
    classify sampleRuntime samplePolicy sampleBody none = .clean ∧ Allowlisted sampleBody :=
  ⟨sampleBody_clean, (classify_clean_complete sampleRuntime samplePolicy sampleBody
    "openai-compatible" rfl sampleBody_clean).2.2.2⟩

/-- A text that is a JSON number is not decoded, so a rule for the number's own serialization does
not see it. -/
theorem classify_clean_number_unread :
    classify sampleRuntime samplePolicy sampleBody none = .clean ∧
      Reachable sampleRuntime samplePolicy (fun _ => true) sampleBody "1000.0" ∧
      ∃ rule ∈ samplePolicy.rules, rule "1000.0" = .found := by
  refine ⟨sampleBody_clean, ⟨4, ?_⟩, _, List.mem_singleton_self _, rfl⟩
  have hnumber : Occurs sampleRuntime samplePolicy (fun _ => true) (.string "1e3") 1
      (.string "1000.0") := by
    have hload : sampleRuntime.jansson.loadb "1e3" = some (.real 0x408F400000000000) := by
      decide +kernel
    exact .decoded rfl hload (.written rfl rfl (.here _))
  have hcontent : Occurs sampleRuntime samplePolicy (fun _ => true) sampleMessage 2
      (.string "1000.0") :=
    .member (List.mem_cons_of_mem _ List.mem_cons_self) (by decide) hnumber
  have hmessages : Occurs sampleRuntime samplePolicy (fun _ => true) (.array [sampleMessage]) 3
      (.string "1000.0") :=
    .element List.mem_cons_self hcontent
  exact .member (List.mem_cons_of_mem _ List.mem_cons_self) (by decide) hmessages

end Recursant.Compliance
