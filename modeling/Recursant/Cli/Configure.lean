import Recursant.Context.StreamTools
import Recursant.Equality
import Recursant.Startup.Migration

/-!
# Edits of the configuration

The edits of `recursant configure` work on the document in place, and the menus keep the document of
a refused edit for a later save.  An edit is therefore a result together with the document that it
leaves, whatever the result is.
-/

namespace Recursant.Cli

open Startup

/-! ## Reading and writing members -/

/-- `json_string`, which refuses what is not UTF-8. -/
def jsonString (s : Text) : Option Json := if StreamTools.utf8 s then some (.string s) else none

/-- `json_object_set_new(p, key, json_string(value))`, with the result dropped. -/
def setText (p : Json) (key value : Text) : Json := (p.set? key (jsonString value)).getD p

/-- The same for a value that may not be given. -/
def setGiven (p : Json) (key : Text) : Option Text → Json
  | none => p
  | some value => setText p key value

/-- `array_of`: the document, with the array put under the key where there is none, and the
array. -/
def arrayOf (root : Json) (key : Text) : Json × List Json :=
  match root.get? key with
  | some (.array xs) => (root, xs)
  | _ => ((root.set? key (some (.array []))).getD root, [])

/-- The writes through a pointer into an array of the document. -/
def putArray (root : Json) (key : Text) (xs : List Json) : Json :=
  (root.set? key (some (.array xs))).getD root

/-- `find_named`: the index of the first element with the string under the key. -/
def findNamed (xs : List Json) (key value : Text) : Option Nat :=
  xs.findIdx? fun v => str v key = some value

/-- What an edit returns, and the document afterwards. -/
abbrev Edit := Except Text Unit × Json

/-! ## Known gateways -/

structure CatalogEntry where
  name : Text
  url : Text
  keyEnv : Text
  adapter : Text

/-- A gateway of the strict OpenAI shape. -/
def gateway (name url keyEnv : String) : CatalogEntry :=
  ⟨text name, text url, text keyEnv, text "openai-compatible"⟩

def catalog : List CatalogEntry :=
  [⟨"openrouter", "https://openrouter.ai/api/v1", "OPENROUTER_API_KEY", "openrouter"⟩,
    gateway "openai" "https://api.openai.com/v1" "OPENAI_API_KEY",
    gateway "anthropic" "https://api.anthropic.com/v1" "ANTHROPIC_API_KEY",
    gateway "gemini" "https://generativelanguage.googleapis.com/v1beta/openai" "GEMINI_API_KEY",
    gateway "xai" "https://api.x.ai/v1" "XAI_API_KEY",
    gateway "deepseek" "https://api.deepseek.com/v1" "DEEPSEEK_API_KEY",
    gateway "mistral" "https://api.mistral.ai/v1" "MISTRAL_API_KEY",
    gateway "groq" "https://api.groq.com/openai/v1" "GROQ_API_KEY",
    gateway "together" "https://api.together.xyz/v1" "TOGETHER_API_KEY",
    gateway "fireworks" "https://api.fireworks.ai/inference/v1" "FIREWORKS_API_KEY",
    gateway "deepinfra" "https://api.deepinfra.com/v1/openai" "DEEPINFRA_API_KEY",
    gateway "cerebras" "https://api.cerebras.ai/v1" "CEREBRAS_API_KEY",
    gateway "nvidia" "https://integrate.api.nvidia.com/v1" "NVIDIA_API_KEY",
    gateway "huggingface" "https://router.huggingface.co/v1" "HF_TOKEN",
    gateway "novita" "https://api.novita.ai/openai/v1" "NOVITA_API_KEY",
    gateway "nebius" "https://api.tokenfactory.nebius.com/v1" "NEBIUS_API_KEY",
    gateway "ai-gateway" "https://ai-gateway.vercel.sh/v1" "AI_GATEWAY_API_KEY",
    gateway "zai" "https://api.z.ai/api/paas/v4" "ZAI_API_KEY",
    gateway "moonshot" "https://api.moonshot.ai/v1" "MOONSHOT_API_KEY",
    gateway "minimax" "https://api.minimax.io/v1" "MINIMAX_API_KEY",
    gateway "alibaba" "https://dashscope-intl.aliyuncs.com/compatible-mode/v1" "DASHSCOPE_API_KEY",
    gateway "ollama-cloud" "https://ollama.com/v1" "OLLAMA_API_KEY",
    gateway "arcee" "https://api.arcee.ai/api/v1" "ARCEEAI_API_KEY",
    gateway "kilocode" "https://api.kilo.ai/api/gateway" "KILOCODE_API_KEY",
    gateway "opencode-zen" "https://opencode.ai/zen/v1" "OPENCODE_ZEN_API_KEY",
    gateway "upstage" "https://api.upstage.ai/v1" "UPSTAGE_API_KEY",
    gateway "gmi" "https://api.gmi-serving.com/v1" "GMI_API_KEY",
    gateway "xiaomi" "https://api.xiaomimimo.com/v1" "XIAOMI_API_KEY"]

/-- `rc_catalog_find` -/
def catalogFind (name : Text) : Option CatalogEntry := catalog.find? (·.name = name)

/-! ## Providers -/

structure ProviderEdit where
  name : Text
  url : Option Text := none
  trust : Option Text := none
  keyEnv : Option Text := none
  adapter : Option Text := none

/-- The switches for the key variable; `none` takes it away. -/
def setKeyEnv (p : Json) : Option Text → Json
  | none => p
  | some key => if key = text "none" then p.del "key_env" else setText p "key_env" key

/-- The string under the key, put there where the entry has none. -/
def setDefault (p : Json) (key value : Text) : Json :=
  if str p key = none then setText p key value else p

def trustKnown (trust : Text) : Bool := trust = text "private" || trust = text "public"

/-- `upsert_provider` from the entry on. -/
def upsertEntry (e : ProviderEdit) (known : Option CatalogEntry) (p : Json) : Edit :=
  let p := setGiven p "url" e.url
  if e.trust.any (fun t => !trustKnown t) then
    (.error "--trust must be private or public", p)
  else
    let p := setGiven p "trust" e.trust
    let p := setKeyEnv p e.keyEnv
    let p := setGiven p "adapter" e.adapter
    if str p "trust" = none ∧ known.isNone = true then
      (.error (text "provider " ++ e.name ++ text ": --trust private|public is required"), p)
    else
      let p := setDefault p "trust" "public"
      let p := setDefault p "adapter" ((known.map CatalogEntry.adapter).getD "openai-compatible")
      if str p "key_env" = none ∧ str p "trust" = some (text "public") then
        (.error (text "public provider " ++ e.name ++
          text " needs --key-env VAR (the variable holding its API key)"), p)
      else (.ok (), p)

/-- The entry of a new provider: a known gateway without a URL of its own comes with the values of
the catalogue. -/
def newEntry (e : ProviderEdit) (known : Option CatalogEntry) : Json :=
  let p := Json.object [("name", .string e.name)]
  match e.url, known with
  | none, some k =>
      setText (setText (setText (setText p "trust" "public") "url" k.url) "key_env" k.keyEnv)
        "adapter" k.adapter
  | _, _ => p

def upsertProvider (e : ProviderEdit) (root : Json) : Edit :=
  if providerNameOk e.name = false then
    (.error "provider name must be letters, digits, '.', '_' or '-' (at most 63)", root)
  else
    let (root, providers) := arrayOf (toRegistry root) "providers"
    let known := catalogFind e.name
    match findNamed providers "name" e.name with
    | some i =>
        let r := upsertEntry e known (providers.getD i .null)
        (r.1, putArray root "providers" (providers.set i r.2))
    | none =>
        if e.url.isNone && known.isNone then
          (.error (e.name ++ text
            " is not a known gateway: give --url and --trust (see --list-providers)"), root)
        else
          let r := upsertEntry e known (newEntry e known)
          (r.1, putArray root "providers" (providers ++ [r.2]))

def removeProvider (name : Text) (root : Json) : Edit :=
  let (root, providers) := arrayOf (toRegistry root) "providers"
  match findNamed providers "name" name with
  | none => (.error (text "no provider named " ++ name), root)
  | some i =>
      let (root, aliases) := arrayOf root "aliases"
      match findNamed aliases "provider" name with
      | some a =>
          let from' := (str (aliases.getD a .null) "from").getD "(null)"
          (.error (text "alias " ++ from' ++ text " uses " ++ name ++
            text ": remove or repoint it first (--remove-alias " ++ from' ++ text ")"), root)
      | none =>
          if (root.get? "private_default").bind (str · "provider") = some name then
            (.error (name ++ text
              " is the private default: set another first (--private-default)"), root)
          else (.ok (), putArray root "providers" (providers.eraseIdx i))

/-! ## Models -/

/-- `split_target`: the provider and the model around the first colon. -/
def splitTarget (spec : Text) (size : Nat) : Option (Text × Text) :=
  match spec.dropWhile (· ≠ 58) with
  | _ :: model =>
      let provider := spec.takeWhile (· ≠ 58)
      if provider = [] ∨ model = [] ∨ size ≤ provider.length then none else some (provider, model)
  | [] => none

/-- The name before the equals sign and the target behind it. -/
def splitAlias (spec : Text) : Option (Text × Text × Text) :=
  match spec.dropWhile (· ≠ 61) with
  | _ :: target =>
      let from' := spec.takeWhile (· ≠ 61)
      if from' = [] ∨ 128 ≤ from'.length then none
      else (splitTarget target 64).map fun t => (from', t)
  | [] => none

def setAlias (spec : Text) (root : Json) : Edit :=
  match splitAlias spec with
  | none =>
      (.error "--alias wants NAME=PROVIDER:MODEL, e.g. economy=openrouter:openai/gpt-6-luna", root)
  | some (from', provider, model) =>
      let (root, providers) := arrayOf (toRegistry root) "providers"
      match findNamed providers "name" provider with
      | none =>
          (.error (text "no provider named " ++ provider ++ text " (add it with --add-provider)"),
            root)
      | some _ =>
          let (root, aliases) := arrayOf root "aliases"
          let aim (a : Json) := setText (setText a "provider" provider) "model" model
          match findNamed aliases "from" from' with
          | some i =>
              (.ok (), putArray root "aliases" (aliases.set i (aim (aliases.getD i .null))))
          | none =>
              (.ok (), putArray root "aliases"
                (aliases ++ [aim (setText (.object []) "from" from')]))

/-- `json_pack("{s:s,s:s}", "provider", provider, "model", model)` -/
def packTarget (provider model : Text) : Option Json :=
  if StreamTools.utf8 provider && StreamTools.utf8 model then
    some (.object [("provider", .string provider), ("model", .string model)])
  else none

def setPrivateDefault (spec : Text) (root : Json) : Edit :=
  match splitTarget spec 64 with
  | none => (.error "--private-default wants PROVIDER:MODEL", root)
  | some (provider, model) =>
      let (root, providers) := arrayOf (toRegistry root) "providers"
      match findNamed providers "name" provider with
      | none => (.error (text "no provider named " ++ provider), root)
      | some i =>
          if (str (providers.getD i .null) "trust").getD [] ≠ text "private" then
            (.error (provider ++ text
              " is not a private provider: personal data may only go to private ones"), root)
          else (.ok (), (root.set? "private_default" (packTarget provider model)).getD root)

/-! ## Atomicity -/

inductive Operation where
  | upsertProvider (e : ProviderEdit)
  | removeProvider (name : Text)
  | setAlias (spec : Text)
  | setPrivateDefault (spec : Text)

def Operation.run : Operation → Json → Edit
  | .upsertProvider e => Cli.upsertProvider e
  | .removeProvider name => Cli.removeProvider name
  | .setAlias spec => Cli.setAlias spec
  | .setPrivateDefault spec => Cli.setPrivateDefault spec

/-- The edit succeeds, or the document stays what it was, up to its conversion. -/
def Atomic (op : Operation) (root : Json) : Prop :=
  (op.run root).1 = .ok () ∨ Json.equal root (op.run root).2 = true ∨
    Json.equal (toRegistry root) (op.run root).2 = true

/-! ## Members after a write -/

theorem isObject_setText {p : Json} (hp : p.isObject = true) (key value : Text) :
    (setText p key value).isObject = true := by
  cases p with
  | object members =>
      unfold setText jsonString
      cases StreamTools.utf8 value <;> rfl
  | _ => cases hp

theorem get?_setText {p : Json} (hp : p.isObject = true) (key value k : Text) :
    (setText p key value).get? k =
      if k = key ∧ StreamTools.utf8 value = true then some (.string value) else p.get? k := by
  cases p with
  | object members =>
      unfold setText jsonString
      cases hutf8 : StreamTools.utf8 value with
      | true =>
          have hmember := Json.lookup_setMember key k (.string value) members
          simp only [and_true]
          exact hmember
      | false => simp [Json.set?]
  | _ => cases hp

theorem setMember_same {key : Text} {v : Json} {members : List (Text × Json)}
    (h : members.lookup key = some v) : Json.setMember key v members = members := by
  induction members with
  | nil => cases h
  | cons member members ih =>
      obtain ⟨name, value⟩ := member
      rw [List.lookup_cons] at h
      rw [Json.setMember]
      by_cases hname : name = key
      · rw [hname, beq_self_eq_true] at h
        rw [if_pos hname, Option.some.inj h, hname]
      · rw [beq_false_of_ne (Ne.symm hname)] at h
        rw [if_neg hname, ih h]

theorem set?_same {p v : Json} {key : Text} (h : p.get? key = some v) :
    p.set? key (some v) = some p := by
  cases p with
  | object members => exact congrArg (fun ms => some (Json.object ms)) (setMember_same h)
  | _ => cases h

/-- The entry has the value already, or it cannot be written. -/
def Keeps (p : Json) (key : Text) (given : Option Text) : Prop :=
  ∀ v, given = some v → StreamTools.utf8 v = true → p.get? key = some (.string v)

theorem isObject_setGiven {p : Json} (hp : p.isObject = true) (key : Text) (given : Option Text) :
    (setGiven p key given).isObject = true := by
  cases given with
  | none => exact hp
  | some v => exact isObject_setText hp key v

theorem get?_setGiven_of_ne {p : Json} (hp : p.isObject = true) {key k : Text} (hk : k ≠ key)
    (given : Option Text) : (setGiven p key given).get? k = p.get? k := by
  cases given with
  | none => rfl
  | some v =>
      rw [setGiven, get?_setText hp, if_neg]
      exact fun h => hk h.1

theorem get?_setGiven_self {p : Json} (hp : p.isObject = true) (key : Text) {v : Text}
    (hv : StreamTools.utf8 v = true) :
    (setGiven p key (some v)).get? key = some (.string v) := by
  rw [setGiven, get?_setText hp, if_pos ⟨rfl, hv⟩]

theorem setGiven_eq_self {p : Json} {key : Text} {given : Option Text} (h : Keeps p key given) :
    setGiven p key given = p := by
  cases given with
  | none => rfl
  | some v =>
      show (p.set? key (jsonString v)).getD p = p
      unfold jsonString
      by_cases hv : StreamTools.utf8 v = true
      · rw [if_pos hv, set?_same (h v rfl hv)]
        rfl
      · rw [if_neg hv]
        cases p <;> rfl

theorem str_congr {p q : Json} {key : Text} (h : p.get? key = q.get? key) :
    str p key = str q key := by
  unfold str
  rw [h]

theorem str_isSome {p : Json} {key : Text} :
    (str p key).isSome = true ↔ ∃ v, p.get? key = some (.string v) := by
  unfold str
  rw [Option.isSome_map]
  constructor
  · intro h
    obtain ⟨v, hv⟩ := Option.isSome_iff_exists.mp h
    obtain ⟨x, hx, hv⟩ := Option.bind_eq_some_iff.mp hv
    cases x with
    | string s => exact ⟨s, hx⟩
    | _ => cases hv
  · rintro ⟨v, hv⟩
    rw [hv]
    rfl

theorem get_of_equal {p q : Json} {key v : Text} (h : Json.equal p q = true)
    (hp : p.proper = true) (hq : q.get? key = some (.string v)) :
    p.get? key = some (.string v) := by
  cases Json.equal_get h hp key with
  | inl hnone =>
      rw [hnone.2] at hq
      cases hq
  | inr hsome =>
      obtain ⟨x, y, hx, hy, hxy⟩ := hsome
      rw [hy] at hq
      rw [Option.some.inj hq, Json.equal_string] at hxy
      rw [hx, hxy]

theorem get_none_of_equal {p q : Json} {key : Text} (h : Json.equal p q = true)
    (hp : p.proper = true) (hq : q.get? key = none) : p.get? key = none := by
  cases Json.equal_get h hp key with
  | inl hnone => exact hnone.1
  | inr hsome =>
      obtain ⟨x, y, hx, hy, hxy⟩ := hsome
      rw [hy] at hq
      cases hq

/-! ## The entry of a provider -/

/-- The switch for the key variable names what the entry has. -/
def KeepsKey (p : Json) (given : Option Text) : Prop :=
  (given = some (text "none") → p.get? "key_env" = none) ∧
    (given ≠ some (text "none") → Keeps p "key_env" given)

/-- The trust class given, else that of the entry, else that of a known gateway. -/
def trustAfter (e : ProviderEdit) (known : Option CatalogEntry) (p : Json) : Option Text :=
  e.trust.or ((str p "trust").or (known.map fun _ => text "public"))

/-- The entry has a key variable once the switch has been applied. -/
def KeyAfter (e : ProviderEdit) (p : Json) : Prop :=
  e.keyEnv ≠ some (text "none") ∧
    (e.keyEnv.any StreamTools.utf8 = true ∨ (str p "key_env").isSome = true)

def TrustOk (e : ProviderEdit) : Prop := ∀ t, e.trust = some t → trustKnown t = true

/-- The edit makes a complete entry: a trust class, and a key variable where it is public. -/
structure Accepts (e : ProviderEdit) (known : Option CatalogEntry) (p : Json) : Prop where
  trust : TrustOk e
  classed : (trustAfter e known p).isSome = true
  keyed : trustAfter e known p = some (text "public") → KeyAfter e p

/-- Nothing that the edit writes before it is refused differs from the entry. -/
structure Kept (e : ProviderEdit) (known : Option CatalogEntry) (p : Json) : Prop where
  url : Keeps p "url" e.url
  trust : TrustOk e → Keeps p "trust" e.trust
  key : TrustOk e → KeepsKey p e.keyEnv
  adapter : TrustOk e → Keeps p "adapter" e.adapter
  defaults : TrustOk e → (trustAfter e known p).isSome = true →
    (str p "trust").isSome = true ∧ (str p "adapter").isSome = true

section Entry

variable {e : ProviderEdit} {known : Option CatalogEntry} {p : Json}

/-- The entry with all that is given. -/
def given (e : ProviderEdit) (p : Json) : Json :=
  setGiven (setKeyEnv (setGiven (setGiven p "url" e.url) "trust" e.trust) e.keyEnv) "adapter"
    e.adapter

/-- The same with the defaults. -/
def complete (e : ProviderEdit) (known : Option CatalogEntry) (p : Json) : Json :=
  setDefault (setDefault (given e p) "trust" "public") "adapter"
    ((known.map CatalogEntry.adapter).getD "openai-compatible")

theorem trustOk_iff : TrustOk e ↔ e.trust.any (fun t => !trustKnown t) = false := by
  unfold TrustOk
  cases e.trust with
  | none => exact iff_of_true nofun rfl
  | some t => simp

theorem utf8_of_trustKnown {t : Text} (h : trustKnown t = true) :
    StreamTools.utf8 t = true ∧ t.takeWhile (· ≠ 0) = t := by
  unfold trustKnown at h
  rw [Bool.or_eq_true, decide_eq_true_eq, decide_eq_true_eq] at h
  cases h with
  | inl h =>
      rw [h]
      decide +kernel
  | inr h =>
      rw [h]
      decide +kernel

/-- The entry after an edit that is refused for its trust class. -/
theorem upsertEntry_badTrust (h : ¬ TrustOk e) :
    (upsertEntry e known p).1 ≠ .ok () ∧ (upsertEntry e known p).2 = setGiven p "url" e.url := by
  rw [trustOk_iff, Bool.not_eq_false] at h
  unfold upsertEntry
  rw [if_pos h]
  exact ⟨nofun, rfl⟩

/-- The entry after an edit that is refused for want of a trust class. -/
theorem upsertEntry_unclassed (h : TrustOk e)
    (hnone : str (given e p) "trust" = none ∧ known.isNone = true) :
    (upsertEntry e known p).1 ≠ .ok () ∧ (upsertEntry e known p).2 = given e p := by
  rw [trustOk_iff] at h
  unfold upsertEntry
  rw [h, if_neg (by decide)]
  unfold given at hnone ⊢
  rw [if_pos hnone]
  exact ⟨nofun, rfl⟩

/-- The entry after an edit that gives it a trust class. -/
theorem upsertEntry_classed (h : TrustOk e)
    (hsome : ¬ (str (given e p) "trust" = none ∧ known.isNone = true)) :
    ((upsertEntry e known p).1 = .ok () ↔
        ¬ (str (complete e known p) "key_env" = none ∧
          str (complete e known p) "trust" = some (text "public"))) ∧
      (upsertEntry e known p).2 = complete e known p := by
  rw [trustOk_iff] at h
  unfold upsertEntry
  rw [h, if_neg (by decide)]
  unfold complete
  unfold given at hsome ⊢
  rw [if_neg hsome]
  dsimp only
  split
  next hkey => exact ⟨⟨nofun, fun hnot => absurd hkey hnot⟩, rfl⟩
  next hkey => exact ⟨⟨fun _ => hkey, fun _ => rfl⟩, rfl⟩

section Members

variable (hp : p.isObject = true)

include hp

theorem isObject_setKeyEnv (key : Option Text) : (setKeyEnv p key).isObject = true := by
  cases key with
  | none => exact hp
  | some key =>
      unfold setKeyEnv
      dsimp only
      split
      · cases p with
        | object members => rfl
        | _ => cases hp
      · exact isObject_setText hp _ _

theorem get?_setKeyEnv_of_ne {k : Text} (hk : k ≠ text "key_env") (key : Option Text) :
    (setKeyEnv p key).get? k = p.get? k := by
  cases key with
  | none => rfl
  | some key =>
      unfold setKeyEnv
      dsimp only
      split
      · rw [Json.get?_del, if_neg hk]
      · rw [get?_setText hp, if_neg]
        exact fun h => hk h.1

theorem isObject_given : (given e p).isObject = true := by
  unfold given
  exact isObject_setGiven (isObject_setKeyEnv (isObject_setGiven (isObject_setGiven hp _ _) _ _) _)
    _ _

theorem given_url : (given e p).get? "url" = (setGiven p "url" e.url).get? "url" := by
  have h1 := isObject_setGiven hp "url" e.url
  have h2 := isObject_setGiven h1 "trust" e.trust
  unfold given
  rw [get?_setGiven_of_ne (isObject_setKeyEnv h2 _) (by decide),
    get?_setKeyEnv_of_ne h2 (by decide), get?_setGiven_of_ne h1 (by decide)]

theorem given_trust : (given e p).get? "trust" = (setGiven p "trust" e.trust).get? "trust" := by
  have h1 := isObject_setGiven hp "url" e.url
  have h2 := isObject_setGiven h1 "trust" e.trust
  unfold given
  rw [get?_setGiven_of_ne (isObject_setKeyEnv h2 _) (by decide),
    get?_setKeyEnv_of_ne h2 (by decide)]
  cases e.trust with
  | none => exact get?_setGiven_of_ne hp (by decide) _
  | some t =>
      show (setText _ _ t).get? _ = (setText _ _ t).get? _
      rw [get?_setText h1, get?_setText hp, get?_setGiven_of_ne hp (by decide)]

theorem given_key : (given e p).get? "key_env" = (setKeyEnv p e.keyEnv).get? "key_env" := by
  have h1 := isObject_setGiven hp "url" e.url
  have h2 := isObject_setGiven h1 "trust" e.trust
  have hbefore : (setGiven (setGiven p "url" e.url) "trust" e.trust).get? "key_env" =
      p.get? "key_env" := by
    rw [get?_setGiven_of_ne h1 (by decide), get?_setGiven_of_ne hp (by decide)]
  unfold given
  rw [get?_setGiven_of_ne (isObject_setKeyEnv h2 _) (by decide)]
  cases e.keyEnv with
  | none => exact hbefore
  | some key =>
      unfold setKeyEnv
      dsimp only
      split
      · rw [Json.get?_del, Json.get?_del]
        rfl
      · rw [get?_setText h2, get?_setText hp, hbefore]

theorem given_adapter :
    (given e p).get? "adapter" = (setGiven p "adapter" e.adapter).get? "adapter" := by
  have h1 := isObject_setGiven hp "url" e.url
  have h2 := isObject_setGiven h1 "trust" e.trust
  unfold given
  cases e.adapter with
  | none =>
      show (setKeyEnv _ _).get? _ = p.get? _
      rw [get?_setKeyEnv_of_ne h2 (by decide), get?_setGiven_of_ne h1 (by decide),
        get?_setGiven_of_ne hp (by decide)]
  | some a =>
      show (setText _ _ a).get? _ = (setText _ _ a).get? _
      rw [get?_setText (isObject_setKeyEnv h2 _), get?_setText hp,
        get?_setKeyEnv_of_ne h2 (by decide), get?_setGiven_of_ne h1 (by decide),
        get?_setGiven_of_ne hp (by decide)]

theorem isObject_setDefault (key value : Text) : (setDefault p key value).isObject = true := by
  unfold setDefault
  split
  · exact isObject_setText hp _ _
  · exact hp

theorem get?_setDefault_of_ne {key k : Text} (hk : k ≠ key) (value : Text) :
    (setDefault p key value).get? k = p.get? k := by
  unfold setDefault
  split
  · rw [get?_setText hp, if_neg]
    exact fun h => hk h.1
  · rfl

theorem str_given_trust (htrust : TrustOk e) :
    str (given e p) "trust" = e.trust.or (str p "trust") := by
  rw [str_congr (given_trust hp)]
  cases ht : e.trust with
  | none => rfl
  | some t =>
      obtain ⟨hutf8, hcut⟩ := utf8_of_trustKnown (htrust t ht)
      unfold str
      rw [get?_setGiven_self hp _ hutf8]
      exact congrArg some hcut

theorem trustAfter_isSome_iff (htrust : TrustOk e) :
    (trustAfter e known p).isSome = true ↔
      ¬ (str (given e p) "trust" = none ∧ known.isNone = true) := by
  rw [str_given_trust hp htrust]
  unfold trustAfter
  cases e.trust with
  | some t => simp
  | none =>
      cases str p "trust" with
      | some t => simp
      | none => cases known <;> simp

theorem str_complete_trust (htrust : TrustOk e)
    (hclassed : (trustAfter e known p).isSome = true) :
    str (complete e known p) "trust" = trustAfter e known p := by
  have hgiven := isObject_given (e := e) hp
  have hpublic : str (setText (given e p) "trust" "public") "trust" = some (text "public") := by
    unfold str
    rw [get?_setText hgiven, if_pos ⟨rfl, by decide +kernel⟩]
    decide
  unfold complete
  rw [str_congr (get?_setDefault_of_ne (isObject_setDefault hgiven _ _) (by decide) _)]
  unfold setDefault
  have hstr := str_given_trust hp htrust
  unfold trustAfter at hclassed ⊢
  rw [← Option.or_assoc, ← hstr] at hclassed ⊢
  cases hgivenTrust : str (given e p) "trust" with
  | some t => rw [if_neg (by simp), hgivenTrust, Option.some_or]
  | none =>
      rw [hgivenTrust, Option.none_or] at hclassed
      rw [if_pos rfl, hpublic, Option.none_or]
      cases known with
      | none => cases hclassed
      | some k => rfl

theorem complete_url : (complete e known p).get? "url" = (setGiven p "url" e.url).get? "url" := by
  have hgiven := isObject_given (e := e) hp
  unfold complete
  rw [get?_setDefault_of_ne (isObject_setDefault hgiven _ _) (by decide),
    get?_setDefault_of_ne hgiven (by decide), given_url hp]

theorem complete_key :
    (complete e known p).get? "key_env" = (setKeyEnv p e.keyEnv).get? "key_env" := by
  have hgiven := isObject_given (e := e) hp
  unfold complete
  rw [get?_setDefault_of_ne (isObject_setDefault hgiven _ _) (by decide),
    get?_setDefault_of_ne hgiven (by decide), given_key hp]

theorem str_setKeyEnv : (str (setKeyEnv p e.keyEnv) "key_env").isSome = true ↔ KeyAfter e p := by
  unfold KeyAfter
  cases hkey : e.keyEnv with
  | none => simp [setKeyEnv]
  | some key =>
      unfold setKeyEnv
      dsimp only
      by_cases hnone : key = text "none"
      · rw [if_pos hnone, str_isSome, Json.get?_del, if_pos rfl]
        refine iff_of_false ?_ ?_
        · rintro ⟨v, hv⟩
          cases hv
        · intro h
          exact h.1 (congrArg some hnone)
      · rw [if_neg hnone, str_isSome, get?_setText hp, str_isSome]
        have hne : some key ≠ some (text "none") := fun h => hnone (Option.some.inj h)
        cases hutf8 : StreamTools.utf8 key with
        | true =>
            rw [if_pos ⟨rfl, rfl⟩]
            exact iff_of_true ⟨key, rfl⟩ ⟨hne, .inl hutf8⟩
        | false =>
            rw [if_neg (fun h => Bool.false_ne_true h.2)]
            constructor
            · intro h
              exact ⟨hne, .inr h⟩
            · rintro ⟨-, hinl | hinr⟩
              · rw [Option.any_some, hutf8] at hinl
                cases hinl
              · exact hinr

/-- An edit of an entry succeeds exactly when it makes a complete one. -/
theorem upsertEntry_ok_iff : (upsertEntry e known p).1 = .ok () ↔ Accepts e known p := by
  by_cases htrust : TrustOk e
  · by_cases hclassed : (trustAfter e known p).isSome = true
    · have hsome := (trustAfter_isSome_iff hp htrust).mp hclassed
      rw [(upsertEntry_classed htrust hsome).1, str_complete_trust hp htrust hclassed,
        str_congr (complete_key hp)]
      constructor
      · intro h
        refine ⟨htrust, hclassed, fun hpublic => ?_⟩
        rw [← str_setKeyEnv hp, Option.isSome_iff_ne_none]
        exact fun hnone => h ⟨hnone, hpublic⟩
      · rintro h ⟨hnone, hpublic⟩
        have hkey := (str_setKeyEnv hp).mpr (h.keyed hpublic)
        rw [hnone] at hkey
        cases hkey
    · have hnone := not_not.mp (mt (trustAfter_isSome_iff hp htrust).mpr hclassed)
      exact iff_of_false (upsertEntry_unclassed htrust hnone).1 (fun h => hclassed h.classed)
  · exact iff_of_false (upsertEntry_badTrust htrust).1 (fun h => htrust h.trust)

theorem setKeyEnv_eq_self (h : KeepsKey p e.keyEnv) : setKeyEnv p e.keyEnv = p := by
  cases hkey : e.keyEnv with
  | none => rfl
  | some key =>
      rw [hkey] at h
      unfold setKeyEnv
      dsimp only
      by_cases hnone : key = text "none"
      · rw [if_pos hnone]
        have hget := h.1 (congrArg some hnone)
        cases p with
        | object members => exact congrArg Json.object (Json.delMember_of_lookup_none hget)
        | _ => cases hp
      · rw [if_neg hnone]
        exact setGiven_eq_self (h.2 fun heq => hnone (Option.some.inj heq))

theorem given_eq_self (htrust : TrustOk e) (h : Kept e known p) : given e p = p := by
  unfold given
  rw [setGiven_eq_self h.url, setGiven_eq_self (h.trust htrust),
    setKeyEnv_eq_self hp (h.key htrust), setGiven_eq_self (h.adapter htrust)]

/-- An edit that writes only what the entry has leaves it as it was. -/
theorem upsertEntry_kept (h : Kept e known p) : (upsertEntry e known p).2 = p := by
  by_cases htrust : TrustOk e
  · by_cases hclassed : (trustAfter e known p).isSome = true
    · have hsome := (trustAfter_isSome_iff hp htrust).mp hclassed
      obtain ⟨htrustSet, hadapterSet⟩ := h.defaults htrust hclassed
      have hdefault {key : Text} (hset : (str p key).isSome = true) (value : Text) :
          setDefault p key value = p := by
        unfold setDefault
        rw [if_neg (Option.isSome_iff_ne_none.mp hset)]
      rw [(upsertEntry_classed htrust hsome).2]
      unfold complete
      rw [given_eq_self hp htrust h, hdefault htrustSet, hdefault hadapterSet]
    · have hnone := not_not.mp (mt (trustAfter_isSome_iff hp htrust).mpr hclassed)
      rw [(upsertEntry_unclassed htrust hnone).2, given_eq_self hp htrust h]
  · rw [(upsertEntry_badTrust htrust).2, setGiven_eq_self h.url]

theorem keeps_of_equal {q : Json} {key : Text} {value : Option Text} (hproper : p.proper = true)
    (heq : Json.equal p q = true) (hq : q.get? key = (setGiven p key value).get? key) :
    Keeps p key value := by
  intro v hv hutf8
  rw [hv, get?_setGiven_self hp key hutf8] at hq
  exact get_of_equal heq hproper hq

theorem keepsKey_of_equal {q : Json} {value : Option Text} (hproper : p.proper = true)
    (heq : Json.equal p q = true)
    (hq : q.get? "key_env" = (setKeyEnv p value).get? "key_env") : KeepsKey p value := by
  constructor
  · intro hnone
    rw [hnone] at hq
    have hdel : (setKeyEnv p (some (text "none"))).get? "key_env" = none := by
      show (p.del "key_env").get? "key_env" = none
      rw [Json.get?_del, if_pos rfl]
    exact get_none_of_equal heq hproper (hq.trans hdel)
  · intro hne
    refine keeps_of_equal hp hproper heq (hq.trans ?_)
    cases value with
    | none => rfl
    | some key =>
        unfold setKeyEnv
        dsimp only
        rw [if_neg (fun h => hne (congrArg some h))]
        rfl

omit hp in
theorem setDefault_of_isSome {key : Text} (h : (str p key).isSome = true) (value : Text) :
    setDefault p key value = p := by
  unfold setDefault
  rw [if_neg (Option.isSome_iff_ne_none.mp h)]

theorem str_setDefault {key value : Text} (hvalue : StreamTools.utf8 value = true) :
    (str (setDefault p key value) key).isSome = true := by
  unfold setDefault
  by_cases hnone : str p key = none
  · rw [if_pos hnone, str_isSome]
    exact ⟨value, by rw [get?_setText hp, if_pos ⟨rfl, hvalue⟩]⟩
  · rw [if_neg hnone]
    exact Option.isSome_iff_ne_none.mpr hnone

/-- A refused edit that leaves the entry as it was writes only what it has. -/
theorem kept_of_equal (hproper : p.proper = true)
    (hknown : StreamTools.utf8 ((known.map CatalogEntry.adapter).getD "openai-compatible") = true)
    (heq : Json.equal p (upsertEntry e known p).2 = true) : Kept e known p := by
  have hgivenObject := isObject_given (e := e) hp
  by_cases htrust : TrustOk e
  · by_cases hclassed : (trustAfter e known p).isSome = true
    · have hsome := (trustAfter_isSome_iff hp htrust).mp hclassed
      rw [(upsertEntry_classed htrust hsome).2] at heq
      -- the entry is written in full
      have htrustSet : (str (complete e known p) "trust").isSome = true := by
        rw [str_complete_trust hp htrust hclassed]
        exact hclassed
      have hadapterSet : (str (complete e known p) "adapter").isSome = true :=
        str_setDefault (isObject_setDefault hgivenObject _ _) hknown
      have hkept {key : Text} (h : (str (complete e known p) key).isSome = true) :
          (str p key).isSome = true := by
        obtain ⟨v, hv⟩ := str_isSome.mp h
        exact str_isSome.mpr ⟨v, get_of_equal heq hproper hv⟩
      refine ⟨?_, fun _ => ?_, fun _ => ?_, fun _ => ?_, fun _ _ => ?_⟩
      · exact keeps_of_equal hp hproper heq (complete_url hp)
      · intro t ht hutf8
        have hset : (given e p).get? "trust" = some (.string t) := by
          rw [given_trust hp, ht, get?_setGiven_self hp _ hutf8]
        refine get_of_equal heq hproper ?_
        unfold complete
        rw [get?_setDefault_of_ne (isObject_setDefault hgivenObject _ _) (by decide),
          setDefault_of_isSome (str_isSome.mpr ⟨t, hset⟩), hset]
      · exact keepsKey_of_equal hp hproper heq (complete_key hp)
      · intro a ha hutf8
        have hset : (setDefault (given e p) "trust" "public").get? "adapter" =
            some (.string a) := by
          rw [get?_setDefault_of_ne hgivenObject (by decide), given_adapter hp, ha,
            get?_setGiven_self hp _ hutf8]
        refine get_of_equal heq hproper ?_
        unfold complete
        rw [setDefault_of_isSome (str_isSome.mpr ⟨a, hset⟩), hset]
      · exact ⟨hkept htrustSet, hkept hadapterSet⟩
    · have hnone := not_not.mp (mt (trustAfter_isSome_iff hp htrust).mpr hclassed)
      rw [(upsertEntry_unclassed htrust hnone).2] at heq
      refine ⟨?_, fun _ => ?_, fun _ => ?_, fun _ => ?_, fun _ h => absurd h hclassed⟩
      · exact keeps_of_equal hp hproper heq (given_url hp)
      · exact keeps_of_equal hp hproper heq (given_trust hp)
      · exact keepsKey_of_equal hp hproper heq (given_key hp)
      · exact keeps_of_equal hp hproper heq (given_adapter hp)
  · rw [(upsertEntry_badTrust htrust).2] at heq
    refine ⟨?_, fun h => absurd h htrust, fun h => absurd h htrust, fun h => absurd h htrust,
      fun h => absurd h htrust⟩
    exact keeps_of_equal hp hproper heq rfl

end Members

end Entry

/-! ## The document -/

/-- A document without a key twice, as the reader hands it out. -/
structure Document where
  root : Json
  isObject : root.isObject = true
  proper : root.proper = true

theorem mem_setMember {key : Text} {v : Json} {members : List (Text × Json)} {m : Text × Json}
    (h : m ∈ Json.setMember key v members) : m = (key, v) ∨ m ∈ members := by
  induction members with
  | nil => exact .inl (List.mem_singleton.mp h)
  | cons member members ih =>
      rw [Json.setMember] at h
      by_cases hname : member.1 = key
      · rw [if_pos hname, List.mem_cons] at h
        exact h.imp id (List.mem_cons_of_mem member)
      · rw [if_neg hname, List.mem_cons] at h
        cases h with
        | inl h => exact .inr (h ▸ List.mem_cons_self)
        | inr h => exact (ih h).imp id (List.mem_cons_of_mem member)

theorem proper_setMember {key : Text} {v : Json} {members : List (Text × Json)}
    (hv : v.proper = true) (h : (Json.object members).proper = true) :
    (Json.object (Json.setMember key v members)).proper = true := by
  rw [Json.proper_object] at h ⊢
  refine ⟨Json.setMember_nodup key v h.1, ?_⟩
  intro m hm
  cases mem_setMember hm with
  | inl heq => exact heq ▸ hv
  | inr hmem => exact h.2 m hmem

theorem proper_delMember (key : Text) {members : List (Text × Json)}
    (h : (Json.object members).proper = true) :
    (Json.object (Json.delMember key members)).proper = true := by
  rw [Json.proper_object] at h ⊢
  refine ⟨h.1.sublist (List.filter_sublist.map Prod.fst), ?_⟩
  intro m hm
  exact h.2 m (List.filter_sublist.mem hm)

theorem proper_packed (s : Option Text) : (packed s).proper = true := by
  cases s <;> rfl

theorem proper_privateEntry (priv : Json) : (privateEntry priv).proper = true := by
  have hmembers : (Json.object [(text "name", Json.string "private"),
      (text "trust", .string "private"), (text "url", packed (str priv "url")),
      (text "adapter", .string "openai-compatible")]).proper = true := by
    rw [Json.proper_object]
    refine ⟨?_, ?_⟩
    · show List.Nodup [text "name", text "trust", text "url", text "adapter"]
      decide
    · simp only [List.forall_mem_cons]
      exact ⟨rfl, rfl, proper_packed _, rfl, nofun⟩
  unfold privateEntry
  cases str priv "api_key_env" with
  | none => exact hmembers
  | some name => exact proper_setMember rfl hmembers

theorem proper_publicEntry (pub : Json) : (publicEntry pub).proper = true := by
  unfold publicEntry
  rw [Json.proper_object]
  refine ⟨?_, ?_⟩
  · show List.Nodup [text "name", text "trust", text "url", text "key_env", text "adapter"]
    decide
  · simp only [List.forall_mem_cons]
    exact ⟨rfl, rfl, proper_packed _, proper_packed _, rfl, nofun⟩

theorem proper_renamed {a : Json} (h : a.proper = true) : (renamed a).proper = true := by
  unfold renamed
  cases a with
  | object members =>
      cases str (.object members) "endpoint" with
      | none => exact h
      | some endpoint => exact proper_delMember _ (proper_setMember rfl h)
  | _ => exact h

theorem proper_registryProviders (root priv : Json) :
    (Json.array (registryProviders root priv)).proper = true := by
  rw [Json.proper_array]
  unfold registryProviders
  rw [List.forall_mem_cons]
  refine ⟨proper_privateEntry priv, ?_⟩
  intro x hx
  rw [Option.mem_toList, Option.map_eq_some_iff] at hx
  obtain ⟨pub, -, rfl⟩ := hx
  exact proper_publicEntry pub

theorem proper_listAt {root : Json} (h : root.proper = true) (key : Text) :
    ∀ x ∈ ((root.get? key).getD .null).elements, x.proper = true := by
  cases hget : root.get? key with
  | none => exact nofun
  | some v => exact Json.proper_elements (Json.proper_get h hget)

theorem proper_registryAliases {root : Json} (h : root.proper = true) :
    (Json.array (registryAliases root)).proper = true := by
  rw [Json.proper_array]
  unfold registryAliases
  intro x hx
  rw [List.mem_append, List.mem_map, Option.mem_toList, Option.map_eq_some_iff] at hx
  rcases hx with ⟨a, ha, rfl⟩ | ⟨m, -, rfl⟩
  · exact proper_renamed (proper_listAt h _ a ha)
  · unfold publicAlias
    rw [Json.proper_object]
    refine ⟨?_, ?_⟩
    · show List.Nodup [text "from", text "provider", text "model"]
      decide
    · simp only [List.forall_mem_cons]
      exact ⟨rfl, rfl, rfl, nofun⟩

theorem proper_target (provider model : Text) :
    (Json.object [("provider", .string provider), ("model", .string model)]).proper = true := by
  rw [Json.proper_object]
  refine ⟨?_, ?_⟩
  · show List.Nodup [text "provider", text "model"]
    decide
  · simp only [List.forall_mem_cons]
    exact ⟨rfl, rfl, nofun⟩

/-- The conversion leaves a document as it is, or takes its private section away. -/
theorem toRegistry_cases {root : Json} (hroot : root.isObject = true) (h : root.proper = true) :
    toRegistry root = root ∨ (root.get? "private").isSome = true ∧
      (toRegistry root).get? "private" = none ∧ (toRegistry root).isObject = true ∧
      (toRegistry root).proper = true := by
  cases root with
  | object members =>
      unfold toRegistry
      cases hproviders : (Json.object members).get? "providers" with
      | some v => exact .inl rfl
      | none =>
          cases hpriv : (Json.object members).get? "private" with
          | none => exact .inl rfl
          | some priv =>
              right
              refine ⟨rfl, ?_, rfl, ?_⟩
              · show (Json.delMember _ _).lookup _ = none
                rw [Json.lookup_delMember, Json.lookup_delMember, if_neg (by decide), if_pos rfl]
              · refine proper_delMember _ (proper_delMember _
                  (proper_setMember (proper_registryAliases h) ?_))
                have hlist := @proper_setMember "providers" _ _
                  (proper_registryProviders (.object members) priv) h
                cases str priv "model" with
                | none => exact hlist
                | some m => exact proper_setMember (proper_target _ _) hlist
  | _ => cases hroot

/-- The list under a key, empty where there is no array. -/
def listAt (root : Json) (key : Text) : List Json := ((root.get? key).getD .null).elements

def HasArray (root : Json) (key : Text) : Prop := ∃ xs, root.get? key = some (.array xs)

section Arrays

variable {root : Json} {key : Text}

theorem arrayOf_of_hasArray (h : HasArray root key) :
    arrayOf root key = (root, listAt root key) := by
  obtain ⟨xs, hxs⟩ := h
  unfold arrayOf listAt
  rw [hxs]
  rfl

theorem arrayOf_of_not (h : ¬ HasArray root key) :
    arrayOf root key = (putArray root key [], []) := by
  unfold arrayOf
  split
  next xs hxs => exact absurd ⟨xs, hxs⟩ h
  next => rfl

theorem arrayOf_snd (root : Json) (key : Text) : (arrayOf root key).2 = listAt root key := by
  unfold arrayOf listAt
  cases hget : root.get? key with
  | none => rfl
  | some v =>
      cases v with
      | array xs => rfl
      | _ => rfl

theorem get?_putArray (hroot : root.isObject = true) (xs : List Json) (k : Text) :
    (putArray root key xs).get? k = if k = key then some (.array xs) else root.get? k := by
  cases root with
  | object members => exact Json.lookup_setMember key k (.array xs) members
  | _ => cases hroot

theorem isObject_arrayOf (hroot : root.isObject = true) (key : Text) :
    (arrayOf root key).1.isObject = true := by
  unfold arrayOf
  split
  · exact hroot
  · cases root with
    | object members => rfl
    | _ => cases hroot

theorem putArray_same {xs : List Json} (h : root.get? key = some (.array xs)) :
    putArray root key xs = root := by
  unfold putArray
  rw [set?_same h]
  rfl

/-- An array put where there was none is a change. -/
theorem hasArray_of_equal (hproper : root.proper = true) {q : Json} {xs : List Json}
    (hq : q.get? key = some (.array xs)) (heq : Json.equal root q = true) : HasArray root key := by
  cases Json.equal_get heq hproper key with
  | inl hnone =>
      rw [hq] at hnone
      cases hnone.2
  | inr hsome =>
      obtain ⟨x, y, hx, hy, hxy⟩ := hsome
      rw [hq] at hy
      have harray := Json.equal_isArray hxy
      rw [← Option.some.inj hy] at harray
      cases x with
      | array ys => exact ⟨ys, hx⟩
      | _ => cases harray

theorem forall₂_of_equal (hproper : root.proper = true) {q : Json} {xs ys : List Json}
    (hroot : root.get? key = some (.array xs)) (hq : q.get? key = some (.array ys))
    (heq : Json.equal root q = true) : List.Forall₂ (fun x y => Json.equal x y = true) xs ys := by
  cases Json.equal_get heq hproper key with
  | inl hnone =>
      rw [hq] at hnone
      cases hnone.2
  | inr hsome =>
      obtain ⟨x, y, hx, hy, hxy⟩ := hsome
      rw [hroot] at hx
      rw [hq] at hy
      rw [← Option.some.inj hx, ← Option.some.inj hy, Json.equal, Json.equalArray_iff] at hxy
      exact hxy

theorem findNamed_eq_some {xs : List Json} {value : Text} {i : Nat}
    (h : findNamed xs key value = some i) :
    ∃ hi : i < xs.length, xs.getD i .null = xs[i] ∧ str xs[i] key = some value := by
  unfold findNamed at h
  obtain ⟨hi, hp, -⟩ := List.findIdx?_eq_some_iff_getElem.mp h
  refine ⟨hi, ?_, of_decide_eq_true hp⟩
  rw [List.getD_eq_getElem?_getD, List.getElem?_eq_getElem hi, Option.getD_some]

theorem hasArray_of_findNamed {value name : Text} {i : Nat}
    (h : findNamed (listAt root key) name value = some i) : HasArray root key := by
  obtain ⟨hi, -⟩ := findNamed_eq_some h
  unfold listAt at hi
  cases hget : root.get? key with
  | none =>
      rw [hget] at hi
      exact absurd hi (Nat.not_lt_zero i)
  | some v =>
      rw [hget] at hi
      cases v with
      | array xs => exact ⟨xs, hget⟩
      | _ => exact absurd hi (Nat.not_lt_zero i)

theorem isObject_of_str {v : Json} {s : Text} (h : str v key = some s) : v.isObject = true := by
  cases v with
  | object members => rfl
  | _ => cases h

end Arrays

/-! ## Which edits are atomic -/

/-- An entry that is there has to be completed or kept, a new one has to be completed. -/
def SafeUpsert (e : ProviderEdit) (root : Json) : Prop :=
  match findNamed (listAt root "providers") "name" e.name with
  | some i =>
      Accepts e (catalogFind e.name) ((listAt root "providers").getD i .null) ∨
        Kept e (catalogFind e.name) ((listAt root "providers").getD i .null)
  | none =>
      if e.url.isNone && (catalogFind e.name).isNone then HasArray root "providers"
      else Accepts e (catalogFind e.name) (newEntry e (catalogFind e.name))

/-- What an edit needs of the converted document to be atomic. -/
def Operation.Safe : Operation → Json → Prop
  | .upsertProvider e, root => providerNameOk e.name = true → SafeUpsert e root
  | .removeProvider name, root =>
      HasArray root "providers" ∧
        ((findNamed (listAt root "providers") "name" name).isSome = true →
          (root.get? "private_default").bind (str · "provider") = some name →
            HasArray root "aliases")
  | .setAlias spec, root => (splitAlias spec).isSome = true → HasArray root "providers"
  | .setPrivateDefault spec, root =>
      (splitTarget spec 64).isSome = true → HasArray root "providers"

section Atomic

variable {d : Document}

theorem isObject_toRegistry (d : Document) : (toRegistry d.root).isObject = true := by
  cases toRegistry_cases d.isObject d.proper with
  | inl h => rw [h]; exact d.isObject
  | inr h => exact h.2.2.1

theorem proper_toRegistry (d : Document) : (toRegistry d.root).proper = true := by
  cases toRegistry_cases d.isObject d.proper with
  | inl h => rw [h]; exact d.proper
  | inr h => exact h.2.2.2

/-- After the conversion only the converted document can be the one that an edit left. -/
theorem equal_before_or_iff {q : Json}
    (hq : q.get? "private" = (toRegistry d.root).get? "private") :
    (Json.equal d.root q = true ∨ Json.equal (toRegistry d.root) q = true) ↔
      Json.equal (toRegistry d.root) q = true := by
  cases toRegistry_cases d.isObject d.proper with
  | inl h => rw [h, or_self]
  | inr h =>
      refine ⟨?_, .inr⟩
      rintro (hbefore | hafter)
      · have hnone := get_none_of_equal hbefore d.proper (hq.trans h.2.1)
        rw [hnone] at h
        cases h.1
      · exact hafter

/-- An edit that works on the converted document is atomic when it succeeds or leaves that. -/
theorem atomic_iff {op : Operation}
    (hq : (op.run d.root).2.get? "private" = (toRegistry d.root).get? "private") :
    Atomic op d.root ↔ (op.run d.root).1 = .ok () ∨
      Json.equal (toRegistry d.root) (op.run d.root).2 = true := by
  unfold Atomic
  rw [equal_before_or_iff hq]

theorem get?_arrayOf {root : Json} (hroot : root.isObject = true) {key k : Text} (hk : k ≠ key) :
    (arrayOf root key).1.get? k = root.get? k := by
  by_cases h : HasArray root key
  · rw [arrayOf_of_hasArray h]
  · rw [arrayOf_of_not h, get?_putArray hroot, if_neg hk]

theorem equal_arrayOf_iff {root : Json} (hroot : root.isObject = true)
    (hproper : root.proper = true) {key : Text} :
    Json.equal root (arrayOf root key).1 = true ↔ HasArray root key := by
  by_cases h : HasArray root key
  · rw [arrayOf_of_hasArray h]
    exact iff_of_true (Json.equal_refl hproper) h
  · rw [arrayOf_of_not h]
    refine iff_of_false ?_ h
    intro heq
    exact h (hasArray_of_equal hproper (by rw [get?_putArray hroot, if_pos rfl]) heq)

/-- An edit that touches nothing is atomic. -/
theorem atomic_of_unchanged {op : Operation} (h : (op.run d.root).2 = d.root) :
    Atomic op d.root := by
  refine .inr (.inl ?_)
  rw [h]
  exact Json.equal_refl d.proper

/-- An edit that is refused once it has looked for the array of providers. -/
theorem refused_atomic_iff {op : Operation} {m : Text}
    (h : op.run d.root = (.error m, (arrayOf (toRegistry d.root) "providers").1)) :
    Atomic op d.root ↔ HasArray (toRegistry d.root) "providers" := by
  have hobject := isObject_toRegistry d
  rw [atomic_iff, h, equal_arrayOf_iff hobject (proper_toRegistry d)]
  · exact or_iff_right nofun
  · rw [h]
    exact get?_arrayOf hobject (by decide)

theorem setAlias_atomic_iff (spec : Text) :
    Atomic (.setAlias spec) d.root ↔ (Operation.setAlias spec).Safe (toRegistry d.root) := by
  cases hsplit : splitAlias spec with
  | none =>
      have hrun : ((Operation.setAlias spec).run d.root).2 = d.root := by
        show (setAlias spec d.root).2 = d.root
        unfold setAlias
        rw [hsplit]
      refine iff_of_true (atomic_of_unchanged hrun) ?_
      intro h
      rw [hsplit] at h
      cases h
  | some target =>
      obtain ⟨name, provider, model⟩ := target
      have hsafe : (Operation.setAlias spec).Safe (toRegistry d.root) ↔
          HasArray (toRegistry d.root) "providers" :=
        ⟨fun h => h (by rw [hsplit]; rfl), fun h _ => h⟩
      rw [hsafe]
      cases hfind : findNamed (listAt (toRegistry d.root) "providers") "name" provider with
      | none =>
          refine refused_atomic_iff
            (m := text "no provider named " ++ provider ++ text " (add it with --add-provider)") ?_
          rw [← arrayOf_snd] at hfind
          show setAlias spec d.root = _
          unfold setAlias
          rw [hsplit]
          dsimp only
          rw [hfind]
      | some i =>
          refine iff_of_true (.inl ?_) (hasArray_of_findNamed hfind)
          rw [← arrayOf_snd] at hfind
          show (setAlias spec d.root).1 = .ok ()
          unfold setAlias
          rw [hsplit]
          dsimp only
          rw [hfind]
          dsimp only
          split <;> rfl

theorem setPrivateDefault_atomic_iff (spec : Text) : Atomic (.setPrivateDefault spec) d.root ↔
    (Operation.setPrivateDefault spec).Safe (toRegistry d.root) := by
  have hobject := isObject_toRegistry d
  cases hsplit : splitTarget spec 64 with
  | none =>
      have hrun : ((Operation.setPrivateDefault spec).run d.root).2 = d.root := by
        show (setPrivateDefault spec d.root).2 = d.root
        unfold setPrivateDefault
        rw [hsplit]
      refine iff_of_true (atomic_of_unchanged hrun) ?_
      intro h
      rw [hsplit] at h
      cases h
  | some target =>
      obtain ⟨provider, model⟩ := target
      have hsafe : (Operation.setPrivateDefault spec).Safe (toRegistry d.root) ↔
          HasArray (toRegistry d.root) "providers" :=
        ⟨fun h => h (by rw [hsplit]; rfl), fun h _ => h⟩
      rw [hsafe]
      cases hfind : findNamed (listAt (toRegistry d.root) "providers") "name" provider with
      | none =>
          refine refused_atomic_iff (m := text "no provider named " ++ provider) ?_
          rw [← arrayOf_snd] at hfind
          show setPrivateDefault spec d.root = _
          unfold setPrivateDefault
          rw [hsplit]
          dsimp only
          rw [hfind]
      | some i =>
          have harray := hasArray_of_findNamed hfind
          by_cases htrust : (str ((listAt (toRegistry d.root) "providers").getD i .null)
              "trust").getD [] ≠ text "private"
          · refine refused_atomic_iff (m := provider ++ text
              " is not a private provider: personal data may only go to private ones") ?_
            rw [← arrayOf_snd] at hfind htrust
            show setPrivateDefault spec d.root = _
            unfold setPrivateDefault
            rw [hsplit]
            dsimp only
            rw [hfind]
            dsimp only
            rw [if_pos htrust]
          · refine iff_of_true (.inl ?_) harray
            rw [← arrayOf_snd] at hfind htrust
            show (setPrivateDefault spec d.root).1 = .ok ()
            unfold setPrivateDefault
            rw [hsplit]
            dsimp only
            rw [hfind]
            dsimp only
            rw [if_neg htrust]

/-- An edit that is refused once it has looked for both arrays. -/
theorem refused_aliases_iff {op : Operation} {m : Text}
    (hproviders : HasArray (toRegistry d.root) "providers")
    (h : op.run d.root =
      (.error m, (arrayOf (arrayOf (toRegistry d.root) "providers").1 "aliases").1)) :
    Atomic op d.root ↔ HasArray (toRegistry d.root) "aliases" := by
  have hobject := isObject_toRegistry d
  rw [arrayOf_of_hasArray hproviders] at h
  rw [atomic_iff, h, equal_arrayOf_iff hobject (proper_toRegistry d)]
  · exact or_iff_right nofun
  · rw [h]
    exact get?_arrayOf hobject (by decide)

theorem removeProvider_atomic_iff (name : Text) : Atomic (.removeProvider name) d.root ↔
    (Operation.removeProvider name).Safe (toRegistry d.root) := by
  have hobject := isObject_toRegistry d
  unfold Operation.Safe
  dsimp only
  cases hfind : findNamed (listAt (toRegistry d.root) "providers") "name" name with
  | none =>
      rw [refused_atomic_iff (m := text "no provider named " ++ name)]
      · exact ⟨fun h => ⟨h, nofun⟩, fun h => h.1⟩
      · rw [← arrayOf_snd] at hfind
        show removeProvider name d.root = _
        unfold removeProvider
        dsimp only
        rw [hfind]
  | some i =>
      have hproviders := hasArray_of_findNamed hfind
      have hdefault : (arrayOf (toRegistry d.root) "aliases").1.get? "private_default" =
          (toRegistry d.root).get? "private_default" := get?_arrayOf hobject (by decide)
      cases hused : findNamed (listAt (toRegistry d.root) "aliases") "provider" name with
      | some a =>
          have haliases := hasArray_of_findNamed hused
          refine iff_of_true ?_ ⟨hproviders, fun _ _ => haliases⟩
          rw [← arrayOf_snd] at hfind hused
          refine (refused_aliases_iff hproviders (m := ?_) ?_).mpr haliases
          rotate_left
          · show removeProvider name d.root = _
            unfold removeProvider
            dsimp only
            rw [hfind]
            dsimp only
            rw [arrayOf_of_hasArray hproviders]
            dsimp only
            rw [hused]
      | none =>
          by_cases hprivate : ((toRegistry d.root).get? "private_default").bind
              (str · "provider") = some name
          · rw [refused_aliases_iff hproviders (m := name ++ text
              " is the private default: set another first (--private-default)")]
            · exact ⟨fun h => ⟨hproviders, fun _ _ => h⟩, fun h => h.2 rfl hprivate⟩
            · rw [← arrayOf_snd] at hfind hused
              show removeProvider name d.root = _
              unfold removeProvider
              dsimp only
              rw [hfind]
              dsimp only
              rw [arrayOf_of_hasArray hproviders]
              dsimp only
              rw [hused]
              dsimp only
              rw [hdefault, if_pos hprivate]
          · refine iff_of_true (.inl ?_) ⟨hproviders, fun _ h => absurd h hprivate⟩
            rw [← arrayOf_snd] at hfind hused
            show (removeProvider name d.root).1 = .ok ()
            unfold removeProvider
            dsimp only
            rw [hfind]
            dsimp only
            rw [arrayOf_of_hasArray hproviders]
            dsimp only
            rw [hused]
            dsimp only
            rw [hdefault, if_neg hprivate]

/-- The values of the catalogue can be written. -/
theorem catalog_utf8 (name : Text) : StreamTools.utf8
    (((catalogFind name).map CatalogEntry.adapter).getD "openai-compatible") = true := by
  have hall : ∀ k ∈ catalog, StreamTools.utf8 k.adapter = true := by decide +kernel
  cases hfind : catalogFind name with
  | none => decide +kernel
  | some k => exact hall k (List.mem_of_find?_eq_some hfind)

theorem isObject_newEntry (e : ProviderEdit) (known : Option CatalogEntry) :
    (newEntry e known).isObject = true := by
  unfold newEntry
  dsimp only
  split
  · exact isObject_setText (isObject_setText (isObject_setText (isObject_setText rfl _ _) _ _) _ _)
      _ _
  · rfl

/-- A new entry is a change of the document. -/
theorem not_equal_append {root p : Json} (hroot : root.isObject = true)
    (hproper : root.proper = true) :
    ¬ Json.equal root (putArray (arrayOf root "providers").1 "providers"
      ((arrayOf root "providers").2 ++ [p])) = true := by
  intro heq
  by_cases harray : HasArray root "providers"
  · obtain ⟨xs, hxs⟩ := id harray
    have hlist : listAt root "providers" = xs := by
      unfold listAt
      rw [hxs]
      rfl
    rw [arrayOf_of_hasArray harray, hlist] at heq
    have hlength := (forall₂_of_equal hproper hxs
      (by rw [get?_putArray hroot, if_pos rfl]) heq).length_eq
    change xs.length = (xs ++ [p]).length at hlength
    rw [List.length_append, List.length_singleton] at hlength
    omega
  · have hobject := isObject_arrayOf hroot "providers"
    exact harray (hasArray_of_equal hproper (by rw [get?_putArray hobject, if_pos rfl]) heq)

/-- An entry that was there is written back in its place. -/
theorem equal_set_iff {e : ProviderEdit} {root : Json} (hroot : root.isObject = true)
    (hproper : root.proper = true) {i : Nat}
    (hfind : findNamed (listAt root "providers") "name" e.name = some i) :
    Json.equal root (putArray root "providers" ((listAt root "providers").set i
        (upsertEntry e (catalogFind e.name) ((listAt root "providers").getD i .null)).2)) = true ↔
      Kept e (catalogFind e.name) ((listAt root "providers").getD i .null) := by
  obtain ⟨xs, hxs⟩ := hasArray_of_findNamed hfind
  have hlist : listAt root "providers" = xs := by
    unfold listAt
    rw [hxs]
    rfl
  rw [hlist] at hfind ⊢
  obtain ⟨hi, hget, hname⟩ := findNamed_eq_some hfind
  have hentry := isObject_of_str hname
  have hall := proper_listAt hproper "providers"
  change ∀ x ∈ listAt root "providers", _ at hall
  rw [hlist] at hall
  rw [hget]
  constructor
  · intro heq
    have hforall := forall₂_of_equal hproper hxs (by rw [get?_putArray hroot, if_pos rfl]) heq
    have hat := hforall.get hi (by rw [List.length_set]; exact hi)
    rw [List.get_eq_getElem, List.get_eq_getElem, List.getElem_set_self] at hat
    exact kept_of_equal hentry (hall _ (List.getElem_mem hi)) (catalog_utf8 e.name) hat
  · intro hkept
    rw [upsertEntry_kept hentry hkept, List.set_getElem_self, putArray_same hxs]
    exact Json.equal_refl hproper

theorem upsertProvider_atomic_iff (e : ProviderEdit) : Atomic (.upsertProvider e) d.root ↔
    (Operation.upsertProvider e).Safe (toRegistry d.root) := by
  have hobject := isObject_toRegistry d
  have hproper := proper_toRegistry d
  unfold Operation.Safe
  dsimp only
  cases hname : providerNameOk e.name with
  | false =>
      have hrun : ((Operation.upsertProvider e).run d.root).2 = d.root := by
        show (upsertProvider e d.root).2 = d.root
        unfold upsertProvider
        rw [hname, if_pos rfl]
      exact iff_of_true (atomic_of_unchanged hrun) nofun
  | true =>
      rw [eq_self_iff_true, true_imp_iff]
      unfold SafeUpsert
      cases hfind : findNamed (listAt (toRegistry d.root) "providers") "name" e.name with
      | some i =>
          have harray := hasArray_of_findNamed hfind
          obtain ⟨hi, hget, hstr⟩ := findNamed_eq_some hfind
          have hrun : (Operation.upsertProvider e).run d.root =
              ((upsertEntry e (catalogFind e.name)
                  ((listAt (toRegistry d.root) "providers").getD i .null)).1,
                putArray (toRegistry d.root) "providers"
                  ((listAt (toRegistry d.root) "providers").set i
                    (upsertEntry e (catalogFind e.name)
                      ((listAt (toRegistry d.root) "providers").getD i .null)).2)) := by
            show upsertProvider e d.root = _
            unfold upsertProvider
            rw [hname, if_neg (by decide), arrayOf_of_hasArray harray]
            dsimp only
            rw [hfind]
          rw [atomic_iff, hrun]
          · dsimp only
            rw [equal_set_iff hobject hproper hfind,
              upsertEntry_ok_iff (by rw [hget]; exact isObject_of_str hstr)]
          · rw [hrun, get?_putArray hobject, if_neg (by decide)]
      | none =>
          dsimp only
          cases hunknown : e.url.isNone && (catalogFind e.name).isNone with
          | true =>
              rw [if_pos rfl]
              refine refused_atomic_iff (m := e.name ++ text
                " is not a known gateway: give --url and --trust (see --list-providers)") ?_
              rw [← arrayOf_snd] at hfind
              show upsertProvider e d.root = _
              unfold upsertProvider
              rw [hname, if_neg (by decide)]
              dsimp only
              rw [hfind]
              dsimp only
              rw [hunknown, if_pos rfl]
          | false =>
              have hrun : (Operation.upsertProvider e).run d.root =
                  ((upsertEntry e (catalogFind e.name) (newEntry e (catalogFind e.name))).1,
                    putArray (arrayOf (toRegistry d.root) "providers").1 "providers"
                      ((arrayOf (toRegistry d.root) "providers").2 ++
                        [(upsertEntry e (catalogFind e.name)
                          (newEntry e (catalogFind e.name))).2])) := by
                rw [← arrayOf_snd] at hfind
                show upsertProvider e d.root = _
                unfold upsertProvider
                rw [hname, if_neg (by decide)]
                dsimp only
                rw [hfind]
                dsimp only
                rw [hunknown, if_neg (by decide)]
              rw [if_neg (by decide), atomic_iff, hrun]
              · dsimp only
                rw [upsertEntry_ok_iff (isObject_newEntry _ _)]
                exact or_iff_left (not_equal_append hobject hproper)
              · rw [hrun, get?_putArray (isObject_arrayOf hobject _), if_neg (by decide)]
                exact get?_arrayOf hobject (by decide)

/-- Which edits of which documents are atomic. -/
theorem edit_atomic_iff (d : Document) (op : Operation) :
    Atomic op d.root ↔ op.Safe (toRegistry d.root) := by
  cases op with
  | upsertProvider e => exact upsertProvider_atomic_iff e
  | removeProvider name => exact removeProvider_atomic_iff name
  | setAlias spec => exact setAlias_atomic_iff spec
  | setPrivateDefault spec => exact setPrivateDefault_atomic_iff spec

end Atomic

/-- A document with one private provider. -/
def savedRoot : Json :=
  .object [("providers", .array [.object [("name", .string "local"),
    ("trust", .string "private"), ("url", .string "http://127.0.0.1:11434/v1"),
    ("adapter", .string "openai-compatible")]])]

/-- A new URL with a trust class that does not exist. -/
def mistypedEdit : ProviderEdit :=
  { name := "local", url := some "http://10.0.0.9:8888/v1", trust := some "Private" }

/-- The refused edit leaves the new URL in the document. -/
theorem refused_url_stays :
    savedRoot.isObject = true ∧ savedRoot.proper = true ∧
      (upsertProvider mistypedEdit savedRoot).1 = .error "--trust must be private or public" ∧
      (listAt (upsertProvider mistypedEdit savedRoot).2 "providers").map (str · "url") =
        [some (text "http://10.0.0.9:8888/v1")] ∧
      ¬ Atomic (.upsertProvider mistypedEdit) savedRoot := by
  refine ⟨rfl, by decide +kernel, by rfl, by decide +kernel, ?_⟩
  rintro (hok | hsame | hconverted)
  · cases hok
  · revert hsame
    decide +kernel
  · revert hconverted
    decide +kernel

end Recursant.Cli
