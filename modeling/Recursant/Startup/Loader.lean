import Recursant.Startup.GatewayConfig

/-!
# Loading a configuration

`rc_runtime_load`: the sections in the order of the source.  Providers come as a registry, or as the
legacy private and public sections, which stand for two implicit providers; after either the same
checks keep every model name to one provider.
-/

namespace Recursant.Startup

variable (w : Surroundings)

/-! ## Providers -/

def maxProviders : Nat := 256

def providerNameOk (name : Text) : Bool :=
  name ≠ [] && name.length ≤ 63 &&
    name.all fun c => isalpha c || isdigit c || c = 45 || c = 95 || c = 46

def adapterKnown (adapter : Text) : Bool :=
  adapter = text "openai-compatible" || adapter = text "openrouter"

/-- `rc_provider_legacy_public_adapter` -/
def legacyPublicAdapter (url : Text) : Text :=
  let host := url.drop 8
  let name := text "openrouter.ai"
  if (text "https://").isPrefixOf url && (host.take name.length).map tolower = name &&
      (host.drop name.length).head?.all (fun c => c = 47 || c = 58) then text "openrouter"
  else text "openai-compatible"

/-- The providers with their keys, and what the two forms set beside them. -/
structure Estate where
  providers : List Upstream
  providerKeys : List (Option Text)
  hasPrivateDefault : Bool
  privateProvider : Nat
  privateUrl : Option Text
  privateModel : Option Text
  privateKeyEnv : Option Text
  privateKey : Option Text
  publicUrl : Option Text
  publicModel : Option Text
  publicKeyEnv : Option Text
  deriving DecidableEq

/-- `rc_config_find_provider` -/
def findProvider (providers : List Upstream) (name : Text) : Option Nat :=
  providers.findIdx? (·.name = name)

def trustOf (v : Json) : Option Endpoint :=
  if eqText v "trust" "private" then some .priv
  else if eqText v "trust" "public" then some .pub
  else none

/-- One entry of the registry. -/
def loadProvider (v : Json) (i : Nat) : Checked (Upstream × Option Text) := do
  checkSection v "|name||trust||url||key_env||adapter|" "provider"
  let name ← need ((textAt v "name").filter providerNameOk) (text "provider " ++ decimal (i + 1) ++
    text ": name must be an ASCII token of at most 63 bytes")
  let subject := text "provider " ++ name
  let url ← need (textAt v "url") (subject ++ text ": url is required")
  let adapter ← need ((textAt v "adapter").filter adapterKnown)
    (subject ++ text ": adapter must be openai-compatible or openrouter")
  let trust ← need (trustOf v) (subject ++ text ": trust must be private or public")
  demand (urlOk w url (trust = .pub)) (subject ++ text ": url must be " ++
    text (if trust = .pub then "https" else "http(s)") ++
    text " without credentials, query or fragment")
  demand ((v.get? "key_env").isSome || trust = .priv)
    (subject ++ text ": public providers need key_env")
  let key ← secret w v "key_env" (trust = .pub)
  return (⟨name, trust, url, key.map Prod.fst, adapter⟩, key.map Prod.snd)

/-- The private default that the registry names. -/
def loadDefault (o : Json) (providers : List Upstream) : Checked (Nat × Text) := do
  checkSection o "|provider||model|" "private_default"
  let name ← need (textAt o "provider") (text "private_default needs provider and model")
  let model ← need (textAt o "model") (text "private_default needs provider and model")
  let i ← need ((findProvider providers name).filter fun i =>
      (providers[i]?).map (·.trust) = some .priv)
    (text "private_default: " ++ name.take 40 ++ text " is not a private provider")
  return (i, model)

/-- `load_registry` -/
def loadRegistry (root providers : Json) : Checked Estate := do
  demand ((root.get? "private").isNone && (root.get? "public").isNone)
    (text "providers cannot be combined with the legacy private/public sections")
  demand (providers.isArray && providers.size ≠ 0) (text "providers must be a non-empty array")
  demand (providers.size ≤ maxProviders) (text "providers must not exceed 256 entries")
  let loaded ← (providers.elements.zipIdx).mapM fun (v, i) => loadProvider w v i
  let upstreams := loaded.map Prod.fst
  let keys := loaded.map Prod.snd
  match root.get? "private_default" with
  | none => return ⟨upstreams, keys, false, 0, none, none, none, none, none, none, none⟩
  | some o =>
      let (i, model) ← loadDefault o upstreams
      let default := upstreams[i]?
      return ⟨upstreams, keys, true, i, default.map (·.url), some model,
        default.bind (·.keyEnv), (keys[i]?).join, none, none, none⟩

/-- The legacy public section with the implicit provider it stands for. -/
structure LegacyPublic where
  url : Text
  keyEnv : Option Text
  key : Option Text
  model : Option Text
  adapter : Text

def loadLegacyPublic (o : Json) : Checked LegacyPublic := do
  checkSection o "|url||model||api_key_env||adapter|" "public"
  let url ← need ((textAt o "url").filter (urlOk w · true))
    (text "public.url must be https without credentials, query or fragment")
  let key ← secret w o "api_key_env" true
  demand ((o.get? "model").isNone || (textAt o "model").isSome)
    (text "public.model must be a string")
  return ⟨url, key.map Prod.fst, key.map Prod.snd, textAt o "model", legacyPublicAdapter url⟩

/-- An explicit adapter stands before that of the host. -/
def legacyAdapter (o : Json) (byHost : Text) : Checked Text :=
  if (o.get? "adapter").isNone then .ok byHost
  else need ((textAt o "adapter").filter adapterKnown)
    (text "public.adapter must be openai-compatible or openrouter")

/-- `load_legacy` -/
def loadLegacy (root : Json) : Checked Estate := do
  demand (root.get? "private_default").isNone (text "private_default needs the providers form")
  let o ← need (root.get? "private")
    (text "providers (or the legacy private section) is required")
  checkSection o "|url||model||api_key_env|" "private"
  let url ← need (textAt o "url") (text "private needs url and model")
  let model ← need (textAt o "model") (text "private needs url and model")
  demand (urlOk w url false)
    (text "private.url must be http(s) without credentials, query or fragment")
  let key ← secret w o "api_key_env" false
  let keyEnv := key.map Prod.fst
  let value := key.map Prod.snd
  let first : Upstream := ⟨text "private", .priv, url, keyEnv, text "openai-compatible"⟩
  match root.get? "public" with
  | none => return ⟨[first], [value], true, 0, some url, some model, keyEnv, value, none, none, none⟩
  | some p =>
      let pub ← loadLegacyPublic w p
      let adapter ← legacyAdapter p pub.adapter
      return ⟨[first, ⟨text "public", .pub, pub.url, pub.keyEnv, adapter⟩], [value, pub.key], true, 0,
        some url, some model, keyEnv, value, some pub.url, pub.model, pub.keyEnv⟩

/-- The providers of either form. -/
def loadEstate (root : Json) : Checked Estate :=
  match root.get? "providers" with
  | some providers => loadRegistry w root providers
  | none => loadLegacy w root

/-! ## Aliases -/

def maxAliases : Nat := 256

/-- The provider of an alias of the registry form. -/
def providerNamed (estate : Estate) (v : Json) (i : Nat) : Checked Nat := do
  checkSection v "|from||provider||model|" "alias"
  let name ← need (textAt v "provider")
    (text "alias " ++ decimal (i + 1) ++ text ": provider is required")
  need (findProvider estate.providers name)
    (text "alias " ++ decimal (i + 1) ++ text ": unknown provider " ++ name.take 48)

/-- The implicit provider of a legacy endpoint. -/
def implicitProvider (estate : Estate) (endpoint : Text) : Option Nat :=
  if endpoint = text "private" then some 0
  else if endpoint = text "public" && estate.publicUrl.isSome then some 1
  else none

/-- The provider of an alias of the legacy form. -/
def providerOfEndpoint (estate : Estate) (v : Json) (i : Nat) : Checked Nat := do
  checkSection v "|from||endpoint||model|" "alias"
  let endpoint ← need (textAt v "endpoint")
    (text "alias " ++ decimal (i + 1) ++ text ": endpoint is required")
  need (implicitProvider estate endpoint)
    (text "alias " ++ decimal (i + 1) ++ text ": endpoint must be private or a configured public")

def loadAlias (registry : Bool) (estate : Estate) (v : Json) (i : Nat) : Checked NamedAlias := do
  let k ← if registry then providerNamed estate v i else providerOfEndpoint estate v i
  let name ← need (textAt v "from") (text "alias " ++ decimal (i + 1) ++ text " needs from and model")
  let model ← need (textAt v "model")
    (text "alias " ++ decimal (i + 1) ++ text " needs from and model")
  return ⟨name, ⟨((estate.providers[k]?).map (·.trust)).getD .priv, model, k⟩⟩

/-- The entries in their order, each against those before it. -/
def loadAliases (registry : Bool) (estate : Estate) :
    List Json → Nat → List NamedAlias → Checked (List NamedAlias)
  | [], _, done => .ok done
  | v :: vs, i, done => do
      let a ← loadAlias registry estate v i
      demand (!done.any (·.name = a.name))
        (text "alias " ++ a.name.take 48 ++ text " is defined twice")
      loadAliases registry estate vs (i + 1) (done ++ [a])

def validateProvider (estate : Estate) (p : Upstream) (i : Nat) : Checked Unit := do
  let subject := text "provider " ++ decimal (i + 1)
  demand (providerNameOk p.name)
    (subject ++ text " name must be an ASCII token of at most 63 bytes")
  demand (!(estate.providers.take i).any (·.name = p.name)) (text "duplicate provider name")
  demand (p.url ≠ []) (subject ++ text " url is required")
  demand (adapterKnown p.adapter) (subject ++ text " adapter is not a known adapter")
  demand (p.trust = .priv || p.keyEnv.isSome)
    (subject ++ text " with public trust requires key_env")
  demand (p.keyEnv.all fun name => name ≠ [] && variableOk name)
    (subject ++ text " key_env must be an ASCII environment-variable name")

/-- The trust class of a provider by its position. -/
def Estate.trustAt (e : Estate) (i : Nat) : Option Endpoint := (e.providers[i]?).map (·.trust)

def validateAlias (estate : Estate) (a : NamedAlias) (i : Nat) : Checked Unit := do
  let subject := text "alias " ++ decimal (i + 1)
  demand (a.destination.provider < estate.providers.length)
    (subject ++ text " references an unknown provider")
  demand (estate.trustAt a.destination.provider = some a.destination.endpoint)
    (subject ++ text " trust does not match its provider")

/-- `rc_config_validate_providers` -/
def validateProviders (estate : Estate) (aliases : List NamedAlias) : Checked Unit := do
  demand (estate.providers ≠ []) (text "providers must contain at least one provider")
  demand (estate.providers.length ≤ maxProviders) (text "providers must not exceed 256 entries")
  (estate.providers.zipIdx).forM fun (p, i) => validateProvider estate p i
  (aliases.zipIdx).forM fun (a, i) => validateAlias estate a i
  demand (!estate.hasPrivateDefault || estate.trustAt estate.privateProvider = some .priv)
    (text "private_default must reference a private-trust provider")

/-! ## One name, one provider -/

/-- The alias takes a default model's name to another provider or model. -/
def strays (estate : Estate) (a : NamedAlias) : Bool :=
  let names m := a.name = m || a.destination.model = m
  (estate.privateModel.any fun m =>
    names m && (a.destination.provider ≠ estate.privateProvider || a.destination.model ≠ m)) ||
  estate.publicModel.any fun m =>
    names m && (a.destination.endpoint ≠ .pub || a.destination.model ≠ m)

/-- One name would stand for both. -/
def clashes (a b : NamedAlias) : Bool :=
  (a.name = b.destination.model || a.destination.model = b.name ||
    a.destination.model = b.destination.model) &&
  (a.destination.provider ≠ b.destination.provider || a.destination.model ≠ b.destination.model)

/-- One alias against the default models and the aliases before it. -/
def distinctAlias (estate : Estate) (aliases : List NamedAlias) (a : NamedAlias) (i : Nat) :
    Checked Unit := do
  demand (!strays estate a) (text "alias " ++ a.name.take 48 ++
    text ": its name or model resolves to a different provider elsewhere")
  match (aliases.take i).find? (clashes a) with
  | none => return ()
  | some b => fail (text "aliases " ++ b.name.take 40 ++ text " and " ++ a.name.take 40 ++
      text ": one model name would resolve to two providers")

def distinctNames (estate : Estate) (aliases : List NamedAlias) : Checked Unit := do
  demand (!(estate.privateModel.isSome && estate.privateModel = estate.publicModel))
    (text "private and public model names must differ")
  (aliases.zipIdx).forM fun (a, i) => distinctAlias estate aliases a i

/-! ## Other sections -/

structure Listen where
  host : Text
  port : Nat

/-- `rc_listen_resolve` -/
def listenResolve (host : Text) : Option Text :=
  if host = text "tailnet" then w.tailnet
  else
    let literal := if host = text "localhost" then text "127.0.0.1"
      else if host = text "any" then text "0.0.0.0" else host
    if w.ipv4 literal then some literal else none

def loadListen (root : Json) : Checked Listen := do
  let o ← need (root.get? "listen") (text "listen section is required")
  checkSection o "|host||port|" "listen"
  let host ← need (textAt o "host") (text "listen.host is required")
  demand (o.get? "port").isSome (text "listen.port is required")
  let port ← number (some o) "port" 0 65535
  let bound ← need (listenResolve w host) (text (if host = text "tailnet" then
      "listen.host tailnet: no Tailscale address (100.64.0.0/10) is up on this host"
    else "listen.host must be an IPv4 address, localhost, tailnet or any"))
  return ⟨bound, port⟩

def loadAuth (root : Json) : Checked Text := do
  let o ← need (root.get? "auth") (text "auth section is required")
  checkSection o "|api_key_env|" "auth"
  let key ← secret w o "api_key_env" true
  return (key.map Prod.snd).getD []

structure Limits where
  maxBodyBytes : Nat
  maxConnections : Nat
  requestTimeoutSeconds : Nat

def loadLimits (root : Json) : Checked Limits := do
  let o := root.get? "limits"
  if o.isSome then
    checkSection (o.getD .null) "|max_body_bytes||max_connections||request_timeout_seconds|" "limits"
  let bytes ← number o "max_body_bytes" 1048576 16777216
  let connections ← number o "max_connections" 16 256
  let seconds ← number o "request_timeout_seconds" 60 3600
  return ⟨bytes, connections, seconds⟩

structure Screening where
  enabled : Bool
  publicAllowed : Bool
  contentScanning : Bool
  agentText : Bool
  patterns : Option Json
  identifiers : Nat

def identifierKinds : List (Text × Nat) :=
  [("au_tfn", 1), ("au_medicare", 2), ("au_abn", 4), ("payment_card", 8), ("au_phone", 16),
    ("au_bank_account", 32), ("passport", 64), ("drivers_licence", 128), ("date_of_birth", 256)]

/-- A switch of the section that may be missing. -/
def switch (o : Json) (key : Text) (default : Bool) : Checked Bool :=
  match o.get? key with
  | none => .ok default
  | some (.bool b) => .ok b
  | some _ => fail (text "compliance." ++ key ++ text " must be true or false")

/-- The personal identifiers to recognise, each once. -/
def identifierBits : List Json → Nat → Nat → Checked Nat
  | [], _, bits => .ok bits
  | v :: vs, i, bits =>
      match (v.text?.map (·.takeWhile (· ≠ 0))).bind fun name => identifierKinds.lookup name with
      | some bit =>
          if bits &&& bit ≠ 0 then
            fail (text "compliance.identifiers: entry " ++ decimal (i + 1) ++
              text " is unknown or repeated")
          else identifierBits vs (i + 1) (bits ||| bit)
      | none => fail (text "compliance.identifiers: entry " ++ decimal (i + 1) ++
          text " is unknown or repeated")

def loadIdentifiers (o : Json) : Checked Nat :=
  match o.get? "identifiers" with
  | none => .ok 0
  | some v => do
      demand (v.isArray && v.size ≠ 0) (text "compliance.identifiers must be a non-empty array")
      identifierBits v.elements 0 0

def loadCompliance (root : Json) : Checked Screening :=
  match root.get? "compliance" with
  | none => .ok ⟨false, false, true, false, none, 0⟩
  | some o => do
      checkSection o "|enabled||public_allowed||patterns||content_scanning||text_mode||identifiers|"
        "compliance"
      let enabled ← switch o "enabled" false
      let publicAllowed ← switch o "public_allowed" false
      let contentScanning ← switch o "content_scanning" true
      let strict := eqText o "text_mode" "strict"
      let agent := eqText o "text_mode" "agent"
      demand ((o.get? "text_mode").isNone || strict || agent)
        (text "compliance.text_mode must be strict or agent")
      let patterns := o.get? "patterns"
      demand (patterns.all fun v => v.isArray && v.elements.all Json.isString)
        (text "compliance.patterns must be an array of strings")
      let identifiers ← loadIdentifiers o
      return ⟨enabled, publicAllowed, contentScanning, agent, patterns, identifiers⟩

/-- The key of the context's source, which is not the clients'. -/
def loadSource (estate : Estate) (authKey : Text) (root : Json) : Checked (Option Text) :=
  match root.get? "context" with
  | none => .ok none
  | some o => do
      demand (eqText o "mode" "disabled" || estate.hasPrivateDefault)
        (text "context needs a private_default")
      if (o.get? "source_key_env").isNone then return none
      else
        let key ← secret w o "source_key_env" true
        demand (key.map Prod.snd ≠ some authKey)
          (text "context.source_key_env must hold a different key than auth.api_key_env")
        return key.map Prod.snd

/-! ## The whole -/

/-- What `rc_runtime_load` leaves behind. -/
structure Loaded where
  listen : Listen
  estate : Estate
  aliases : List NamedAlias
  authKey : Text
  sourceKey : Option Text
  limits : Limits
  screening : Screening
  gateway : Option GatewayConfig

def rootKeys : Text :=
  text "|listen||private||public||providers||private_default||aliases||auth||limits||compliance|" ++
    text "|context|"

/-- The alias list of the document. -/
def aliasList (root : Json) : Checked (List Json) := do
  demand ((root.get? "aliases").any fun o => o.isArray && o.size ≤ maxAliases)
    (text "aliases must be an array of at most 256 entries")
  return ((root.get? "aliases").getD .null).elements

/-- What the gateway's configuration looks up. -/
def directory (estate : Estate) (aliases : List NamedAlias) (sourceKey : Option Text) :
    Directory where
  aliases := aliases
  privateModel := estate.privateModel
  publicModel := estate.publicModel
  providers := estate.providers
  providerKeys := estate.providerKeys
  privateKey := estate.privateKey
  sourceKey := sourceKey

/-- `rc_runtime_load` -/
def load (root : Json) : Checked Loaded := do
  checkSection root rootKeys "config root"
  let listen ← loadListen w root
  let estate ← loadEstate w root
  let authKey ← loadAuth w root
  let entries ← aliasList root
  let aliases ← loadAliases (root.get? "providers").isSome estate entries 0 []
  validateProviders estate aliases
  distinctNames estate aliases
  let limits ← loadLimits root
  let screening ← loadCompliance root
  demand (!screening.enabled || (w.gate && estate.hasPrivateDefault))
    (text "compliance needs a private_default to redirect to")
  let sourceKey ← loadSource w estate authKey root
  let gateway ← need (configure w (directory estate aliases sourceKey) (root.get? "context"))
    (text "context section is invalid (see config/recursant.agent.example.json)")
  return ⟨listen, estate, aliases, authKey, sourceKey, limits, screening, gateway⟩

/-! ## Dispatch -/

namespace Loaded

variable (r : Loaded)

/-- The provider of a physical model: that of the first alias with it, of the private default, or the
implicit public one. -/
def served (m : Text) : Option Nat :=
  match r.aliases.find? (·.destination.model = m) with
  | some a => some a.destination.provider
  | none =>
      if r.estate.hasPrivateDefault && r.estate.privateModel = some m then
        some r.estate.privateProvider
      else if r.estate.publicUrl.isSome && r.estate.publicModel = some m then some 1
      else none

/-- `rc_runtime_dispatch_provider` -/
def dispatchProvider (trust : Endpoint) (model : Option Text) : Option Nat :=
  (model.bind r.served).filter fun i => r.estate.trustAt i = some trust

/-- A resolved client model. -/
structure Route where
  endpoint : Endpoint
  physical : Text
  automatic : Bool
  deriving DecidableEq

/-- `rc_gateway_auto` -/
def automatic (model : Text) : Option Route :=
  match r.gateway with
  | none => none
  | some g =>
      if g.autoAlias = model then
        (r.aliases[g.baseline]?).map fun a => ⟨a.destination.endpoint, a.destination.model, true⟩
      else none

/-- `route` -/
def route (model : Text) : Option Route :=
  (r.automatic model).or <|
    match r.aliases.find? fun a => model = a.name || model = a.destination.model with
    | some a => some ⟨a.destination.endpoint, a.destination.model, false⟩
    | none =>
        if r.estate.privateModel = some model then some ⟨.priv, model, false⟩
        else if r.estate.publicModel = some model then some ⟨.pub, model, false⟩
        else none

end Loaded

end Recursant.Startup
