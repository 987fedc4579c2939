import Recursant.Document.Parser
import Recursant.Startup.Loader

/-!
# Binding a configuration document

`bind_root` with its helpers and `rc_config_load`.  The binder knows a node by its fields only; a
key that is not there is compared all the same, which ends the process.
-/

namespace Recursant.Document

open Startup

/-- How loading ends without a configuration. -/
inductive Failure where
  | crashed
  | rejected (message : Text)
  deriving DecidableEq

abbrev Loaded := Except Failure

def reject {α : Type} (message : Text) : Loaded α := .error (.rejected message)

/-- `rc_project` -/
structure Project where
  name : Text
  tokenEnv : Text
  deriving DecidableEq

/-- A legacy section; only the public one has an adapter. -/
structure Endpoints where
  url : Text
  model : Option Text
  keyEnv : Option Text
  adapter : Option Text
  deriving DecidableEq

/-- `rc_config` as this loader fills it. -/
structure RcConfig where
  listenHost : Text
  listenPort : Int
  maxBodyBytes : Int
  maxInflight : Int
  priv : Endpoints
  pub : Endpoints
  aliases : List NamedAlias
  projects : List Project
  providers : List Upstream
  hasPrivateDefault : Bool
  privateProvider : Nat
  deriving DecidableEq

/-! ## Members -/

def objGet (obj : Jval) (key : Text) : Option Jval := obj.child.find? (·.key = some key)

section

local instance lawfulKeys : LawfulBEq Text := inferInstance

/-- `obj_keys_known`: the keys in their order, each by `strcmp`. -/
def keysKnown (known : List Text) (place : Text) : List Jval → Loaded Unit
  | [] => .ok ()
  | m :: ms =>
      match m.key with
      | none => .error .crashed
      | some key =>
          if key ∈ known then keysKnown known place ms
          else reject (text "unknown key \"" ++ key ++ text "\" in " ++ place)

end

def objKeysKnown (obj : Jval) (known : List Text) (place : Text) : Loaded Unit :=
  keysKnown known place obj.child

/-- The value, or the diagnostic of a missing one. -/
def required {α : Type} (found : Option α) (message : Text) : Loaded α :=
  match found with
  | none => reject message
  | some a => .ok a

def ensure (p : Bool) (message : Text) : Loaded Unit := if p then .ok () else reject message

def bindString (member : Jval) (what : Text) : Loaded Text :=
  required (if member.num then none else member.str) (what ++ text " must be a string")

def bindOptionalString (obj : Jval) (key what : Text) : Loaded (Option Text) :=
  match objGet obj key with
  | none => .ok none
  | some m => some <$> bindString m what

/-- An integer's text. -/
def integerText (member : Jval) (message : Text) : Loaded Text :=
  required (if member.num then member.str else none) message

/-! ## Sections -/

def rootKeys : List Text := ["listen", "private", "public", "aliases", "projects", "limits"]

def listenKeys : List Text := ["host", "port"]

def limitsKeys : List Text := ["max_body_bytes", "max_inflight"]

def aliasKeys : List Text := ["from", "endpoint", "model"]

def projectKeys : List Text := ["name", "token_env"]

def sectionKeys (adapter : Bool) : List Text :=
  if adapter then ["url", "model", "api_key_env", "adapter"] else ["url", "model", "api_key_env"]

def bindKnownAdapter (o : Jval) (name : Text) : Loaded (Option Text) := do
  let adapter ← bindOptionalString o "adapter" (name ++ text ".adapter")
  ensure (adapter.all adapterKnown) (name ++ text ".adapter is not a known adapter")
  return adapter

/-- The private section has no destination for an adapter. -/
def bindAdapter (o : Jval) (name : Text) (adapter : Bool) : Loaded (Option Text) :=
  if adapter then bindKnownAdapter o name else .ok none

/-- `bind_endpoint_section` -/
def bindEndpointSection (o : Jval) (name : Text) (adapter : Bool) : Loaded Endpoints := do
  objKeysKnown o (sectionKeys adapter) name
  let u ← required (objGet o "url") (name ++ text ".url is required")
  let url ← bindString u (name ++ text ".url")
  let model ← bindOptionalString o "model" (name ++ text ".model")
  let keyEnv ← bindOptionalString o "api_key_env" (name ++ text ".api_key_env")
  let adapter ← bindAdapter o name adapter
  return ⟨url, model, keyEnv, adapter⟩

def limitsKnown (limits : Option Jval) : Loaded Unit :=
  match limits with
  | none => .ok ()
  | some limits => objKeysKnown limits limitsKeys "limits"

/-- The keys of the entries of a list, whatever it is. -/
def entriesKnown (known : List Text) (place : Text) (list : Option Jval) : Loaded Unit :=
  match list with
  | none => .ok ()
  | some l => l.child.forM fun entry => objKeysKnown entry known place

/-- The three fields of an alias, before its provider is known. -/
def bindAlias (a : Jval) (i : Nat) : Loaded (Text × Endpoint × Text) := do
  let missing :=
    text "alias entry " ++ printDigits (i + 1) ++ text " requires string from, endpoint and model"
  let name ← required ((objGet a "from").filter (·.str.isSome)) missing
  let endpoint ← required ((objGet a "endpoint").bind (·.str)) missing
  let model ← required ((objGet a "model").filter (·.str.isSome)) missing
  let name ← bindString name "alias.from"
  let model ← bindString model "alias.model"
  if endpoint = text "private" then return (name, .priv, model)
  else if endpoint = text "public" then return (name, .pub, model)
  else reject "alias.endpoint must be \"private\" or \"public\""

def bindProject (p : Jval) (i : Nat) : Loaded Project := do
  let missing :=
    text "project entry " ++ printDigits (i + 1) ++ text " requires string name and token_env"
  let name ← required ((objGet p "name").filter (·.str.isSome)) missing
  let tokenEnv ← required ((objGet p "token_env").filter (·.str.isSome)) missing
  let name ← bindString name "project.name"
  let tokenEnv ← bindString tokenEnv "project.token_env"
  return ⟨name, tokenEnv⟩

/-- The entries in their order. -/
def bindEntries {α : Type} (bind : Jval → Nat → Loaded α) (list : Option Jval) (message : Text) :
    Loaded (List α) :=
  match list with
  | none => .ok []
  | some l => do
      ensure l.str.isNone message
      (l.child.zipIdx).mapM fun (entry, i) => bind entry i

/-- A limit of an optional section; what is not positive becomes the default. -/
def bindLimit (limits : Option Jval) (key what : Text) (default : Int) : Loaded Int :=
  match limits.bind (objGet · key) with
  | none => .ok default
  | some m => do
      let t ← integerText m (what ++ text " must be an integer")
      return if (strtol t).value ≤ 0 then default else (strtol t).value

/-- `legacy_providers`: the sections as the implicit providers, and the aliases with theirs. -/
def legacyProviders (priv pub : Endpoints) : List Upstream :=
  [⟨text "private", .priv, priv.url, priv.keyEnv, text "openai-compatible"⟩,
    ⟨text "public", .pub, pub.url, pub.keyEnv,
      pub.adapter.getD (legacyPublicAdapter pub.url)⟩]

def legacyAlias : Text × Endpoint × Text → NamedAlias
  | (name, .priv, model) => ⟨name, .priv, model, 0⟩
  | (name, .pub, model) => ⟨name, .pub, model, 1⟩

def bindPort (port : Jval) : Loaded Int := do
  let t ← integerText port "listen.port must be an integer"
  ensure (!(strtol t).range && (strtol t).rest = []) "listen.port must be an integer"
  return (strtol t).value

/-- `bind_root` from behind the checks of keys. -/
def bindFields (root listen : Jval) : Loaded RcConfig := do
  let limits := objGet root "limits"
  ensure (limits.all (·.str.isNone)) "limits must be an object"
  let host ← required (objGet listen "host") "listen.host is required"
  let listenHost ← bindString host "listen.host"
  let port ← required (objGet listen "port") "listen.port is required"
  let listenPort ← bindPort port
  let priv ← required (objGet root "private") "private section is required"
  let priv ← bindEndpointSection priv "private" false
  let pub ← required (objGet root "public") "public section is required"
  let pub ← bindEndpointSection pub "public" true
  let aliases ← bindEntries bindAlias (objGet root "aliases") "aliases must be an array of objects"
  let projects ←
    bindEntries bindProject (objGet root "projects") "projects must be an array of objects"
  let maxBodyBytes ← bindLimit limits "max_body_bytes" "limits.max_body_bytes" 8388608
  let maxInflight ← bindLimit limits "max_inflight" "limits.max_inflight" 64
  return {
    listenHost, listenPort, maxBodyBytes, maxInflight, priv, pub
    aliases := aliases.map legacyAlias
    projects
    providers := legacyProviders priv pub
    hasPrivateDefault := true
    privateProvider := 0 }

/-- `bind_root` -/
def bindRoot (root : Jval) : Loaded RcConfig := do
  objKeysKnown root rootKeys "config root"
  limitsKnown (objGet root "limits")
  let listen ← required (objGet root "listen") "listen section is required"
  objKeysKnown listen listenKeys "listen"
  entriesKnown aliasKeys "alias entry" (objGet root "aliases")
  entriesKnown projectKeys "project entry" (objGet root "projects")
  bindFields root listen

/-- The message that `perr` writes. -/
def Fault.print (doc : Text) (fault : Fault) : Text :=
  text "config json: " ++ fault.message ++ text " near byte " ++
    printDigits (doc.length - fault.rest.length) ++
    match fault.key with
    | none => []
    | some key => text " (key \"" ++ key ++ text "\")"

/-- `rc_config_load` -/
def load (doc : Text) : Loaded RcConfig :=
  match parseValue maxDepth doc with
  | .error fault => reject (fault.print doc)
  | .ok (root, rest) =>
      if skipWs rest ≠ [] then
        reject (text "config json: trailing data after document near byte " ++
          printDigits (doc.length - (skipWs rest).length))
      else if root.child.isEmpty || root.str.isSome then
        reject "config document must be a JSON object"
      else bindRoot root

end Recursant.Document
