import Recursant.Json

/-!
# Providers, aliases and adapters

`runtime.c` and `adapters.c`: which provider a pair of trust class and model is dispatched to, and
what that provider's adapter adds to a public request.
-/

namespace Recursant

/-- The trust class of a destination. -/
inductive Endpoint where
  | priv
  | pub
  deriving DecidableEq, Repr

structure Provider where
  trust : Endpoint
  adapter : Text
  deriving DecidableEq

/-- A client name with the destination it stands for. -/
structure Alias where
  endpoint : Endpoint
  model : Text
  provider : Nat
  deriving DecidableEq

structure Config where
  aliases : List Alias
  providers : List Provider
  hasPrivateDefault : Bool
  privateProvider : Nat
  privateModel : Option Text
  publicUrl : Option Text
  publicModel : Option Text
  deriving DecidableEq

/-- `rc_runtime_dispatch_provider`: the provider that serves a model on a trust class.  Aliases
come first, then the private default, then the implicit public provider of a legacy
configuration; a provider of the other class serves nothing. -/
def dispatchProvider (c : Config) (trust : Endpoint) (model : Option Text) : Option Provider :=
  match model with
  | none => none
  | some m =>
      let byAlias := (c.aliases.find? (·.model = m)).map (·.provider)
      let byDefault :=
        if c.hasPrivateDefault && c.privateModel = some m then some c.privateProvider else none
      let legacy := if c.publicUrl.isSome && c.publicModel = some m then some 1 else none
      let found := (byAlias.or (byDefault.or legacy)).bind (c.providers[·]?)
      found.filter (·.trust = trust)

/-! ## Adapters -/

structure ProviderAdapter where
  name : Text
  /-- Public egress decoration; `none` from the function is its failure. -/
  decorateRequest : Option (Json → Option Json)
  /-- The controls a request's `provider` object may carry. -/
  providerControlKeys : Option Text

def noFallbacks : Json := .object [("allow_fallbacks", .bool false)]

def ephemeral : Json := .object [("type", .string "ephemeral")]

def modelOf (body : Json) : Option Text := (body.get? "model").bind Json.text?

def sizeAt (key : Text) (body : Json) : Nat := ((body.get? key).map Json.size).getD 0

/-- A conversation that goes on: tools are offered, or there is history beyond one question. -/
def continuing (body : Json) : Bool := sizeAt "tools" body > 0 || sizeAt "messages" body > 2

/-- An anthropic conversation without a breakpoint of its own gets a cache breakpoint. -/
def wantsBreakpoint (body : Json) : Bool :=
  (modelOf body).any (List.isPrefixOf (text "anthropic/")) && continuing body &&
    (body.get? "cache_control").isNone

def openrouterDecorate (body : Json) : Option Json := do
  let body ← body.set? "provider" (some noFallbacks)
  if wantsBreakpoint body then body.set? "cache_control" (some ephemeral) else some body

def openaiCompatible : ProviderAdapter := ⟨"openai-compatible", none, none⟩

def openrouter : ProviderAdapter :=
  ⟨"openrouter", some openrouterDecorate, some "|allow_fallbacks|"⟩

/-- `rc_provider_adapter_find` over the adapter table. -/
def adapterFind (name : Text) : Option ProviderAdapter :=
  [openaiCompatible, openrouter].find? (·.name = name)

end Recursant
