import Recursant.Startup.Sections

/-!
# Configuring the gateway

`rc_gateway_configure`: the context section, checked against the aliases, models and keys that were
loaded before it.  `none` is a section that is refused; without a section there is no gateway.
-/

namespace Recursant.Startup

open Gateway

/-! ## What is looked up -/

/-- `rc_provider` -/
structure Upstream where
  name : Text
  trust : Endpoint
  url : Text
  keyEnv : Option Text
  adapter : Text
  deriving DecidableEq

/-- An alias under the name that clients use, the source's `from`. -/
structure NamedAlias where
  name : Text
  destination : Alias
  deriving DecidableEq

structure Directory where
  aliases : List NamedAlias
  privateModel : Option Text
  publicModel : Option Text
  providers : List Upstream
  providerKeys : List (Option Text)
  privateKey : Option Text
  sourceKey : Option Text

/-- `alias`: the index of a client name. -/
def Directory.alias (d : Directory) (name : Text) : Option Nat :=
  d.aliases.findIdx? (·.name = name)

/-- The name is taken by a model or an alias. -/
def Directory.taken (d : Directory) (name : Text) : Bool :=
  d.privateModel = some name || d.publicModel = some name ||
    d.aliases.any fun a => a.name = name || a.destination.model = name

/-! ## Fields -/

/-- A field that may be missing. -/
def optionalInteger (o : Json) (key : Text) (max default : Nat) : Option Nat :=
  match o.get? key with
  | none => some default
  | some _ => integer o key max

/-- The value of a field that is one of two words, the second when missing. -/
def either (o : Json) (key yes no : Text) : Option Bool :=
  if (o.get? key).isNone then some false
  else if eq o key yes then some true
  else if eq o key no then some false
  else none

/-- A number above a bound and up to another. -/
def within (o : Json) (key : Text) (p : Rat → Bool) : Option Rat :=
  ((o.get? key).bind Json.number?).filter p

/-! ## Candidates -/

def maxCandidates : Nat := 64

/-- The keys of a price, compared whole. -/
def priceKeys : Json → Bool
  | .object members => members.all fun member =>
      [text "input_per_mtok", text "output_per_mtok", text "cached_input_per_mtok"].contains member.1
  | _ => false

/-- `rc_candidate_cost_parse` -/
def candidateCost (o : Json) : Option CandidateCost :=
  match o.get? "expected_task_cost", o.get? "price" with
  | some _, none => (within o "expected_task_cost" (0 ≤ ·)).map .fixed
  | none, some price => do
      guard (priceKeys price)
      let input ← within price "input_per_mtok" (0 ≤ ·)
      let output ← within price "output_per_mtok" (0 ≤ ·)
      let cached ← match price.get? "cached_input_per_mtok" with
        | none => some input
        | some _ => within price "cached_input_per_mtok" (0 ≤ ·)
      let p : Price := ⟨input, output, cached⟩
      guard (priceValid p)
      return .priced p
  | _, _ => none

/-- `rc_task_qualifiable` -/
def taskQualifiable (name : Text) : Option UInt64 :=
  [(text "format_simple", taskFormatSimple), (text "tool_followup_ok", taskToolFollowupOk),
    (text "final_answer", taskFinalAnswer), (text "delegated_start", taskDelegatedStart),
    (text "simple_prompt", taskSimplePrompt)].lookup name

/-- The tasks, each once. -/
def qualifiedTasks : List Json → UInt64 → Option UInt64
  | [], bits => some bits
  | v :: vs, bits =>
      match v.text?.bind taskQualifiable with
      | none => none
      | some bit => if bits &&& bit ≠ 0 then none else qualifiedTasks vs (bits ||| bit)

/-- The attested reasoning tokens, each once. -/
def effortTokens : List Json → List Text → Option (List Text)
  | [], efforts => some efforts
  | v :: vs, efforts =>
      match token (.object [("v", v)]) "v" 64 with
      | none => none
      | some t => if efforts.contains t then none else effortTokens vs (efforts ++ [t])

structure Capabilities where
  known : UInt32
  supported : UInt32
  efforts : List Text

def capabilityNames : List (Text × UInt32) :=
  [("tool_history", capHistory), ("function_tools", capFunctions), ("parallel_tools", capParallel),
    ("stream_tools", reqStreamTools), ("nested_tool_schemas", reqNestedSchemas)]

def capabilities (v : Json) : Option Capabilities :=
  match v.get? "capabilities" with
  | none => some ⟨0, 0, []⟩
  | some caps => do
      guard (keys caps (text "|tool_history||function_tools||parallel_tools||stream_tools|" ++
        text "|nested_tool_schemas||reasoning_effort|"))
      let efforts ← match caps.get? "reasoning_effort" with
        | none => some []
        | some list => do
            guard (list.isArray && list.size ≠ 0 && list.size ≤ 8)
            effortTokens list.elements []
      capabilityNames.foldlM (fun c (name, bit) =>
        match caps.get? name with
        | none => some c
        | some (.bool true) => some { c with known := c.known ||| bit, supported := c.supported ||| bit }
        | some (.bool false) => some { c with known := c.known ||| bit }
        | some _ => none) ⟨0, 0, efforts⟩

/-- A side of the thinking switch. -/
def thinking (effort : Json) (side default : Text) : Option Text :=
  match effort.get? side with
  | none => some default
  | some v => (v.text?.map (·.takeWhile (· ≠ 0))).filter fun t => t = text "on" || t = text "off"

def families : List (Text × Family) :=
  [("openai", .openai), ("openrouter", .openrouter), ("vllm-thinking", .vllmThinking)]

/-- The efforts by signal; the thinking switch is for private destinations. -/
def effortsBySignal (v : Json) (endpoint : Endpoint) : Option (Option Efforts) :=
  match v.get? "reasoning" with
  | none => some none
  | some effort => do
      let family ← (token effort "family" 32).bind fun name => families.lookup name
      guard (keys effort "|family||low||high|")
      if family = .vllmThinking then
        guard (endpoint = .priv)
        let low ← thinking effort "low" "off"
        let high ← thinking effort "high" "on"
        return some ⟨family, low, high⟩
      else
        let low := token effort "low" 64
        let high := token effort "high" 64
        guard (((effort.get? "low").isNone || low.isSome) &&
          ((effort.get? "high").isNone || high.isSome) && (low.isSome || high.isSome))
        return some ⟨family, low.getD [], high.getD []⟩

def loadTasks (v : Json) : Option UInt64 :=
  match v.get? "qualified_tasks" with
  | some (.array tasks) => if tasks.length ≤ 5 then qualifiedTasks tasks 0 else none
  | _ => none

def loadEscalation (v : Json) : Option Bool :=
  match v.get? "escalation" with
  | none => some false
  | some (.bool b) => some b
  | some _ => none

/-- One entry of the candidate list. -/
def loadCandidate (d : Directory) (v : Json) : Option Candidate := do
  let name ← token v "alias" 128
  guard (keys v (text "|alias||quality_evidence||qualified_tasks||escalation||context_limit|" ++
    text "|expected_task_cost||price||capabilities||max_inflight||reasoning|") &&
    (token v "quality_evidence" 128).isSome)
  let aliasIndex ← d.alias name
  let destination ← (d.aliases[aliasIndex]?).map (·.destination)
  let contextLimit ← integer v "context_limit" 100000000
  let maxInflight ← optionalInteger v "max_inflight" 1024 0
  let effortsBySignal ← effortsBySignal v destination.endpoint
  let caps ← capabilities v
  let tasks ← loadTasks v
  let escalation ← loadEscalation v
  let cost ← candidateCost v
  return { aliasIndex, destination, contextLimit, cost, maxInflight, effortsBySignal
           qualifiedTasks := if escalation then tasks ||| taskRecovery else tasks
           capKnown := caps.known, capSupported := caps.supported, efforts := caps.efforts }

/-- The candidates with the unit they all cost. -/
def loadCandidates (d : Directory) (o : Json) : Option (List Candidate × Bool) := do
  let list ← o.get? "candidates"
  guard (list.isArray && list.size ≠ 0 && list.size ≤ maxCandidates)
  let candidates ← list.elements.mapM (loadCandidate d)
  let first ← candidates.head?
  guard (candidates.all fun c => c.cost.isPriced = first.cost.isPriced)
  return (candidates, first.cost.isPriced)

/-! ## Sections -/

def loadHealth (o : Json) : Option (Option Health) :=
  match o.get? "health" with
  | none => some none
  | some health => do
      guard (keys health "|cooldown_ms||failure_ratio||min_requests||max_retries|")
      let cooldownMs ← optionalInteger health "cooldown_ms" 600000 5000
      let minRequests ← optionalInteger health "min_requests" 1000 5
      let ratio ← match health.get? "failure_ratio" with
        | none => some (1 / 2)
        | some _ => within health "failure_ratio" fun x => 0 < x && x ≤ 1
      let maxRetries ← match health.get? "max_retries" with
        | none => some 2
        | some (.integer n) => if 0 ≤ n ∧ n ≤ 4 then some n.toNat else none
        | some _ => none
      return some ⟨cooldownMs, minRequests, maxRetries, ratio⟩

/-- `context.judge`, with the key of its provider. -/
structure JudgeConfig where
  key : Text
  url : Text
  model : Text
  timeoutMs : Nat
  routineMin : Rat
  difficultyMax : Rat
  breakerMs : Nat

def loadJudge (w : Surroundings) (d : Directory) (signals : Bool) (o : Json) :
    Option (Option JudgeConfig) :=
  match o.get? "judge" with
  | none => some none
  | some judge => do
      guard (w.judge && signals)
      let breakerMs ← optionalInteger judge "breaker_ms" 600000 30000
      guard (100 ≤ breakerMs)
      guard (keys judge (text "|provider||model||url||timeout_ms||routine_min||difficulty_max|" ++
        text "|breaker_ms|"))
      let provider ← token judge "provider" 63
      let model ← token judge "model" 128
      let url ← (judge.get? "url").bind Json.text?
      guard (url.length ≤ 2048 && (text (if w.test then "http" else "https://")).isPrefixOf url)
      let timeoutMs ← match judge.get? "timeout_ms" with
        | some (.integer n) => if 50 ≤ n ∧ n ≤ 2000 then some n.toNat else none
        | _ => none
      let routineMin ← within judge "routine_min" fun x => 1 / 2 ≤ x && x ≤ 1
      let difficultyMax ← within judge "difficulty_max" fun x => 0 ≤ x && x ≤ 2
      let p ← d.providers.findIdx? (·.name = provider)
      guard ((d.providers[p]?).map (·.trust) = some .pub)
      let key ← (d.providerKeys[p]?).join
      return some ⟨key, url.takeWhile (· ≠ 0), model, timeoutMs, routineMin, difficultyMax, breakerMs⟩

/-- An advisory model, which needs the signals. -/
def loadModel {α : Type} (parse : Json → Option α) (signals : Bool) (o : Json) (key : Text) :
    Option (Option α) :=
  match o.get? key with
  | none => some none
  | some found => if signals then (parse found).map some else none

def loadBudget (priced : Bool) (o : Json) : Option Budget :=
  match o.get? "budgets" with
  | none => some ⟨0, 0, 0, 0⟩
  | some budgets => do
      guard (keys budgets "|session_usd||downshift_at||session_requests||requests_per_minute|")
      let sessionUsd ← match budgets.get? "session_usd" with
        | none => some 0
        | some _ => if priced then within budgets "session_usd" fun x => 0 < x && x ≤ 1000000 else none
      let downshiftAt ← match budgets.get? "downshift_at" with
        | none => some (4 / 5)
        | some _ =>
            if (budgets.get? "session_usd").isSome then
              within budgets "downshift_at" fun x => 0 < x && x ≤ 1
            else none
      let sessionRequests ← optionalInteger budgets "session_requests" 1000000 0
      let rpm ← optionalInteger budgets "requests_per_minute" 1000000 0
      return ⟨sessionUsd, downshiftAt, sessionRequests, rpm⟩

/-- The position of the candidate that stands for a client name. -/
def candidateNamed (d : Directory) (candidates : List Candidate) (o : Json) : Option Nat := do
  let name ← token o "alias" 128
  let index ← d.alias name
  candidates.findIdx? (·.aliasIndex = index)

/-- `context.shadow` -/
structure ShadowConfig where
  candidate : Nat
  sample : Rat
  usdCap : Rat
  maxInflight : Nat

def loadShadow (d : Directory) (candidates : List Candidate) (priced : Bool) (o : Json) :
    Option (Option ShadowConfig) :=
  match o.get? "shadow" with
  | none => some none
  | some shadow => do
      guard (keys shadow "|alias||sample||usd_cap||max_inflight|" && priced)
      let sample ← within shadow "sample" fun x => 0 < x && x ≤ 1
      let usdCap ← within shadow "usd_cap" fun x => 0 < x && x ≤ 1000000
      let maxInflight ← optionalInteger shadow "max_inflight" 64 2
      let candidate ← candidateNamed d candidates shadow
      return some ⟨candidate, sample, usdCap, maxInflight⟩

def hermesMarkers : List Text :=
  [text "You name chat sessions.",
    text "You are a summarization agent creating a context checkpoint."]

/-- `context.housekeeping` -/
structure HousekeepingConfig where
  candidate : Nat
  markers : List Text

def loadHousekeeping (d : Directory) (candidates : List Candidate) (o : Json) :
    Option (Option HousekeepingConfig) :=
  match o.get? "housekeeping" with
  | none => some none
  | some hk => do
      guard (keys hk "|alias||markers|")
      let candidate ← candidateNamed d candidates hk
      let markers ← match hk.get? "markers" with
        | none => some hermesMarkers
        | some (.array list) =>
            if list ≠ [] && list.length ≤ 8 then
              list.mapM fun v => v.text?.filter fun t => t ≠ [] && t.length ≤ 256 && !t.contains 0
            else none
        | some _ => none
      return some ⟨candidate, markers⟩

/-! ## The whole -/

/-- What the section says by itself. -/
structure Manner where
  active : Bool
  tenant : Text
  project : Text
  autoAlias : Text
  baselineAlias : Text
  ttl : Nat
  attemptTtl : Nat
  expectedOutput : Nat
  signals : Bool
  implicit : Bool
  dropReasoning : Bool
  reasoning : Reasoning
  repeatEscalation : Bool
  phase : Bool
  toolReport : Bool
  quietHeaders : Bool
  health : Option Health
  efficiency : Option Efficiency
  prompt : Option Prompt

structure GatewayConfig extends Manner where
  baseline : Nat
  judge : Option JudgeConfig
  candidates : List Candidate
  priced : Bool
  budget : Budget
  shadow : Option ShadowConfig
  housekeeping : Option HousekeepingConfig

def contextKeys : Text :=
  text "|mode||tenant||project||auto_alias||baseline_alias||ttl_ms||attempt_ttl_ms|" ++
    text "|expected_output_tokens||signals||sessions||reasoning_text||reasoning|" ++
    text "|repeat_escalation||phase||tool_report||judge||efficiency||prompt||health||housekeeping|" ++
    text "|budgets||decision_headers||shadow||candidates||source_key_env|"

def loadReasoning (o : Json) : Option Reasoning :=
  if (o.get? "reasoning").isNone || eq o "reasoning" "off" then some .off
  else if eq o "reasoning" "signals" then some .signals
  else if eq o "reasoning" "steps" then some .steps
  else none

def loadManner (w : Surroundings) (o : Json) : Option Manner := do
  guard (keys o contextKeys && (eq o "mode" "active" || eq o "mode" "shadow"))
  let tenant ← token o "tenant" 63
  let project ← token o "project" 63
  let autoAlias ← token o "auto_alias" 63
  let baselineAlias ← token o "baseline_alias" 128
  let ttl ← integer o "ttl_ms" 180000
  let attemptTtl ← optionalInteger o "attempt_ttl_ms" 180000 180000
  let expectedOutput ← optionalInteger o "expected_output_tokens" 100000 defaultOutputTokens
  let signals ← either o "signals" "on" "off"
  let implicit ← either o "sessions" "request" "headers"
  let dropReasoning ← either o "reasoning_text" "drop" "pin"
  let reasoning ← loadReasoning o
  guard (reasoning = .off || signals)
  let repeatEscalation ← either o "repeat_escalation" "on" "off"
  let phase ← either o "phase" "on" "off"
  guard (!phase || signals)
  let toolReport ← either o "tool_report" "on" "off"
  let quietHeaders ← either o "decision_headers" "off" "on"
  guard (!repeatEscalation || signals)
  let health ← loadHealth o
  let efficiency ← loadModel w.efficiency signals o "efficiency"
  let prompt ← loadModel w.prompt signals o "prompt"
  return { active := eq o "mode" "active", tenant, project, autoAlias, baselineAlias, ttl, attemptTtl
           expectedOutput, signals, implicit, dropReasoning, reasoning, repeatEscalation, phase
           toolReport, quietHeaders, health, efficiency, prompt }

/-- A refusal gives no reason, so what concerns the section alone comes first here. -/
def loadGateway (w : Surroundings) (d : Directory) (o : Json) : Option GatewayConfig := do
  guard (d.privateKey.isNone && d.sourceKey.isSome)
  let manner ← loadManner w o
  let baseline ← d.alias manner.baselineAlias
  let judge ← loadJudge w d manner.signals o
  guard (!d.taken manner.autoAlias)
  let (candidates, priced) ← loadCandidates d o
  guard (candidates.any (·.aliasIndex = baseline))
  let budget ← loadBudget priced o
  let shadow ← loadShadow d candidates priced o
  let housekeeping ← loadHousekeeping d candidates o
  -- the selector's registry has no alias twice
  guard (candidates.map (·.aliasIndex)).Nodup
  return { manner with baseline, judge, candidates, priced, budget, shadow, housekeeping }

/-- `rc_gateway_configure` -/
def configure (w : Surroundings) (d : Directory) (o : Option Json) : Option (Option GatewayConfig) :=
  match o with
  | none => some none
  | some o =>
      if eq o "mode" "disabled" then if keys o "|mode|" then some none else none
      else (loadGateway w d o).map some

end Recursant.Startup
