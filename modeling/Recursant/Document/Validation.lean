import Recursant.Document.Acceptance

/-!
# Validating a configuration

`rc_config_validate`, the validator's command and what the tracer does with its `--config`.  The
validator looks up only the variables of its two endpoint keys; the tracer asks for the projects'
tokens without that filter.
-/

namespace Recursant.Document

open Startup

/-! ## Names and addresses -/

/-- `ascii_name_ok` -/
def asciiNameOk (s : Text) : Bool := s ≠ [] && variableOk s

/-- `ascii_alias_ok` -/
def asciiAliasOk (s : Text) : Bool := s ≠ [] && s.all isgraph

/-- A byte before the first slash. -/
def checkAuthorityByte (c : Byte) : Checked Unit := do
  demand (c ≠ 37) "url percent-escape in authority is not permitted"
  demand (c ≠ 63 && c ≠ 35) "url query or fragment is not permitted"
  demand (isgraph c) "url authority contains space or control bytes"
  demand (c ≠ 34 && c ≠ 60 && c ≠ 62 && c ≠ 92) "url authority contains invalid characters"

/-- The digits of a port up to what follows them; none when they get out of range. -/
def portLoop : Nat → Text → Option Text
  | _, [] => some []
  | port, c :: s =>
      if isdigit c then
        if 65535 < port * 10 + (c.toNat - 48) then none
        else portLoop (port * 10 + (c.toNat - 48)) s
      else some (c :: s)

def checkPort (s : Text) : Checked Unit := do
  demand (s.head?.any isdigit) "url port is not numeric"
  let rest ← need (portLoop 0 s) "url port out of range"
  demand (rest.head?.all (· = 47)) "url port is malformed"

/-- `rc_config_url_is_valid` -/
def urlIsValid (url : Text) (httpsOnly : Bool) : Checked Unit := do
  demand (url ≠ []) "url missing or empty"
  let https := (text "https://").isPrefixOf url
  let http := (text "http://").isPrefixOf url
  demand (https || (!httpsOnly && http))
    "url scheme must be http(s) for private and https for public"
  let rest := url.drop (if https then 8 else 7)
  let authority := rest.takeWhile (· ≠ 47)
  demand (authority ≠ []) "url host is empty"
  demand (!rest.contains 64) "url userinfo is not permitted"
  authority.forM checkAuthorityByte
  -- a bracketed host keeps its colons
  if rest.head? ≠ some 91 && authority.contains 58 then
    checkPort ((rest.dropWhile (· ≠ 58)).drop 1)

/-! ## `rc_config_validate` -/

def checkAlias (aliases : List NamedAlias) (a : NamedAlias) (i : Nat) : Checked Unit := do
  demand (asciiAliasOk a.name) "alias.from must be a non-empty printable name"
  demand (a.name ≠ text "private" && a.name ≠ text "public")
    "alias.from must not shadow an endpoint name"
  demand (asciiAliasOk a.destination.model) "alias.model must be a non-empty printable name"
  demand (!(aliases.take i).any (·.name = a.name)) "duplicate alias name"

def checkProject (projects : List Project) (p : Project) (i : Nat) : Checked Unit := do
  demand (asciiAliasOk p.name) "project.name must be a non-empty printable name"
  demand (asciiNameOk p.tokenEnv) "project.token_env must be an ASCII environment-variable name"
  demand (!(projects.take i).any (·.name = p.name)) "duplicate project name"

/-- What the check of the providers reads. -/
def RcConfig.estate (cfg : RcConfig) : Estate :=
  ⟨cfg.providers, [], cfg.hasPrivateDefault, cfg.privateProvider, some cfg.priv.url,
    cfg.priv.model, cfg.priv.keyEnv, none, some cfg.pub.url, cfg.pub.model, cfg.pub.keyEnv⟩

/-- `rc_config_validate` -/
def validate (cfg : RcConfig) : Checked Unit := do
  demand (cfg.listenHost ≠ []) "listen.host must be a non-empty string"
  demand (1 ≤ cfg.listenPort && cfg.listenPort ≤ 65535) "listen.port must be between 1 and 65535"
  demand (cfg.maxBodyBytes ≤ 2 ^ 30) "limits.max_body_bytes must not exceed 1 GiB"
  demand (cfg.maxInflight ≤ 4096) "limits.max_inflight must not exceed 4096"
  urlIsValid cfg.priv.url false
  demand (cfg.priv.model.all asciiAliasOk)
    "private.model contains whitespace or control characters"
  demand (cfg.priv.keyEnv.all asciiNameOk)
    "private.api_key_env must be an ASCII environment-variable name"
  urlIsValid cfg.pub.url true
  demand (cfg.pub.keyEnv.any asciiNameOk)
    "public.api_key_env must be an ASCII environment-variable name"
  (cfg.aliases.zipIdx).forM fun (a, i) => checkAlias cfg.aliases a i
  demand (cfg.projects ≠ []) "projects must contain at least one project identity"
  (cfg.projects.zipIdx).forM fun (p, i) => checkProject cfg.projects p i
  validateProviders cfg.estate cfg.aliases

/-! ## Secrets -/

section

variable (lookup : Text → Option Text)

/-- The variable has a value, and not the empty one. -/
def isSet (name : Text) : Bool := (lookup name).any (· ≠ [])

def secretPresent : Option Text → Checked Unit
  | none => .ok ()
  | some name => demand (isSet lookup name) (text "secret not available: " ++ name)

/-- `rc_config_check_secrets` -/
def checkSecrets (cfg : RcConfig) : Checked Unit := do
  secretPresent lookup cfg.priv.keyEnv
  secretPresent lookup cfg.pub.keyEnv
  cfg.projects.forM fun p => secretPresent lookup (some p.tokenEnv)

/-- The token of a project. -/
def projectToken (p : Project) : Checked Text :=
  need ((lookup p.tokenEnv).filter (· ≠ [])) (text "secret not available: " ++ p.tokenEnv)

/-- `rc_auth_table_init` -/
def authTableInit (cfg : RcConfig) : Checked (List Text) := cfg.projects.mapM (projectToken lookup)

end

/-! ## The two commands -/

/-- The names that the validator gathers; its array has room for both. -/
def envNames (cfg : RcConfig) : List Text := cfg.priv.keyEnv.toList ++ cfg.pub.keyEnv.toList

section

local instance lawfulNames : LawfulBEq Text := inferInstance

/-- The validator's `env_lookup`. -/
def envLookup (getenv : Text → Option Text) (known : List Text) (name : Text) : Option Text :=
  if name ∈ known then getenv name else none

end

/-- The outcome as the command tells it. -/
def told {α : Type} (subject : Text) : Loaded α → Loaded α
  | .error (.rejected message) => reject (subject ++ message)
  | x => x

def checked {α : Type} : Checked α → Loaded α
  | .ok a => .ok a
  | .error message => reject message

/-- `main` of `recursant-validate`, from the document on. -/
def validateMain (getenv : Text → Option Text) (doc : Text) : Loaded Text :=
  told "invalid: " do
    let cfg ← load doc
    checked (validate cfg)
    checked (checkSecrets (envLookup getenv (envNames cfg)) cfg)
    return text "valid: " ++ printDigits cfg.aliases.length ++ text " alias(es), listen " ++
      cfg.listenHost ++ text ":" ++ printLong cfg.listenPort ++ text ", secrets resolved by name"

/-- What `recursant-tracer` does with the file of `--config`. -/
def tracerConfig (getenv : Text → Option Text) (doc : Text) : Loaded (RcConfig × List Text) :=
  if doc = [] then reject "config file is empty"
  else do
    let cfg ← told "invalid config: " do
      let cfg ← load doc
      checked (validate cfg)
      return cfg
    let tokens ← told "auth init failed: " (checked (authTableInit getenv cfg))
    return (cfg, tokens)

/-! ## When they accept -/

section

variable {α : Type}

theorem accepted_told {subject : Text} {x : Loaded α} : Accepted (told subject x) ↔ Accepted x := by
  cases x with
  | ok a => rfl
  | error e =>
      cases e with
      | crashed => rfl
      | rejected message =>
          exact iff_of_false (not_accepted_reject _) (not_accepted_reject message)

theorem accepted_of_isOk {x : Loaded α} (h : x.isOk = true) : Accepted x := by
  cases x with
  | ok a => exact ⟨a, rfl⟩
  | error e => cases h

theorem bind_ok {β : Type} {x : Loaded α} {f : α → Loaded β} {b : β} :
    (x >>= f) = .ok b ↔ ∃ a, x = .ok a ∧ f a = .ok b := by
  cases x with
  | error e => exact iff_of_false nofun fun ⟨_, h, _⟩ => nomatch h
  | ok a =>
      constructor
      · exact fun h => ⟨a, rfl, h⟩
      · rintro ⟨a', ha, h⟩
        exact Except.ok.inj ha ▸ h

theorem told_eq_ok {subject : Text} {x : Loaded α} {a : α} : told subject x = .ok a ↔ x = .ok a := by
  cases x with
  | ok a => rfl
  | error e => cases e <;> exact iff_of_false nofun nofun

theorem checked_eq_ok {x : Checked α} {a : α} : checked x = .ok a ↔ x = .ok a := by
  unfold checked
  cases x with
  | ok b => exact ⟨fun h => congrArg _ (Except.ok.inj h), fun h => congrArg _ (Except.ok.inj h)⟩
  | error message => exact iff_of_false nofun nofun

end

section

variable {getenv lookup : Text → Option Text} {doc : Text} {cfg : RcConfig}

theorem secretPresent_eq_ok {name : Option Text} {u : Unit} :
    secretPresent lookup name = .ok u ↔ ∀ n ∈ name.toList, isSet lookup n = true := by
  unfold secretPresent
  cases name with
  | none => exact iff_of_true rfl nofun
  | some n => rw [demand_eq_ok, Option.toList_some, List.forall_mem_singleton]

/-- Every variable that a configuration refers to. -/
def referenced (cfg : RcConfig) : List Text := envNames cfg ++ cfg.projects.map (·.tokenEnv)

theorem tokenEnv_mem_referenced {p : Project} (hp : p ∈ cfg.projects) :
    p.tokenEnv ∈ referenced cfg :=
  List.mem_append_right _ (List.mem_map_of_mem hp)

theorem checkSecrets_eq_ok {u : Unit} :
    checkSecrets lookup cfg = .ok u ↔ ∀ name ∈ referenced cfg, isSet lookup name = true := by
  unfold checkSecrets referenced envNames
  simp only [bind_eq_ok, secretPresent_eq_ok, forM_eq_ok, List.forall_mem_append,
    List.forall_mem_map, Option.toList_some, List.forall_mem_singleton]
  constructor
  · rintro ⟨-, hpriv, -, hpub, hprojects⟩
    exact ⟨⟨hpriv, hpub⟩, hprojects⟩
  · rintro ⟨⟨hpriv, hpub⟩, hprojects⟩
    exact ⟨(), hpriv, (), hpub, hprojects⟩

theorem isSet_envLookup {known : List Text} {name : Text} :
    isSet (envLookup getenv known) name = true ↔ name ∈ known ∧ isSet getenv name = true := by
  unfold isSet envLookup
  by_cases h : name ∈ known
  · rw [if_pos h]
    exact (and_iff_right h).symm
  · rw [if_neg h]
    exact iff_of_false nofun fun hset => h hset.1

theorem authTableInit_eq_ok : (∃ tokens, authTableInit getenv cfg = .ok tokens) ↔
    ∀ p ∈ cfg.projects, isSet getenv p.tokenEnv = true := by
  unfold authTableInit
  induction cfg.projects with
  | nil => exact iff_of_true ⟨[], rfl⟩ nofun
  | cons p ps ih =>
      have htoken : (∃ t, projectToken getenv p = .ok t) ↔ isSet getenv p.tokenEnv = true := by
        unfold projectToken isSet
        simp only [need_eq_ok]
        cases getenv p.tokenEnv with
        | none => exact iff_of_false (fun ⟨_, h⟩ => nomatch h) nofun
        | some t =>
            rw [Option.any_some, Option.filter_some]
            split <;> simp_all
      rw [List.forall_mem_cons, ← ih, ← htoken, List.mapM_cons]
      simp only [bind_eq_ok]
      constructor
      · rintro ⟨tokens, t, ht, ts, hts, -⟩
        exact ⟨⟨t, ht⟩, ts, hts⟩
      · rintro ⟨⟨t, ht⟩, ts, hts⟩
        exact ⟨t :: ts, t, ht, ts, hts, rfl⟩

/-- The loader and the validation accept a document and give this configuration. -/
def Configures (doc : Text) (cfg : RcConfig) : Prop := load doc = .ok cfg ∧ validate cfg = .ok ()

theorem accepted_validateMain : Accepted (validateMain getenv doc) ↔ ∃ cfg, Configures doc cfg ∧
    ∀ name ∈ referenced cfg, name ∈ envNames cfg ∧ isSet getenv name = true := by
  unfold validateMain
  rw [accepted_told, accepted_bind]
  refine exists_congr fun cfg => ?_
  unfold Configures
  rw [and_assoc]
  refine and_congr_right fun _ => ?_
  rw [accepted_bind]
  simp only [accepted_bind, checked_eq_ok, checkSecrets_eq_ok, isSet_envLookup]
  constructor
  · rintro ⟨u, hvalid, u', hnames, -⟩
    exact ⟨hvalid, hnames⟩
  · rintro ⟨hvalid, hnames⟩
    exact ⟨(), hvalid, (), hnames, accepted_ok _⟩

theorem load_nil : load [] ≠ .ok cfg := nofun

theorem accepted_tracerConfig : Accepted (tracerConfig getenv doc) ↔ ∃ cfg, Configures doc cfg ∧
    ∀ p ∈ cfg.projects, isSet getenv p.tokenEnv = true := by
  unfold tracerConfig
  split
  next hdoc =>
      subst hdoc
      exact iff_of_false (not_accepted_reject _) fun ⟨cfg, hcfg, _⟩ => load_nil hcfg.1
  next =>
      rw [accepted_bind]
      refine exists_congr fun cfg => ?_
      rw [told_eq_ok, bind_ok, accepted_bind, ← authTableInit_eq_ok]
      simp only [told_eq_ok, checked_eq_ok]
      constructor
      · rintro ⟨⟨cfg', hload, h⟩, tokens, htokens, -⟩
        obtain ⟨u, hvalid, h⟩ := bind_ok.mp h
        obtain rfl := Except.ok.inj h
        exact ⟨⟨hload, checked_eq_ok.mp hvalid⟩, tokens, htokens⟩
      · rintro ⟨⟨hload, hvalid⟩, tokens, htokens⟩
        exact ⟨⟨cfg, hload, bind_ok.mpr ⟨(), checked_eq_ok.mpr hvalid, rfl⟩⟩, tokens, htokens,
          accepted_ok _⟩

/-! ## Agreement -/

/-- The document is good, and all it refers to is there. -/
def Ready (getenv : Text → Option Text) (doc : Text) : Prop :=
  ∃ cfg, Configures doc cfg ∧ ∀ name ∈ referenced cfg, isSet getenv name = true

def EndpointKeysSet (getenv : Text → Option Text) (doc : Text) : Prop :=
  ∀ cfg, load doc = .ok cfg → ∀ name ∈ envNames cfg, isSet getenv name = true

/-- The validator says what startup does. -/
def AgreesWithStartup (getenv : Text → Option Text) (doc : Text) : Prop :=
  (Accepted (validateMain getenv doc) ↔ Ready getenv doc) ∧
    (EndpointKeysSet getenv doc →
      (Accepted (validateMain getenv doc) ↔ Accepted (tracerConfig getenv doc)))

theorem validateMain_agrees_iff (getenv : Text → Option Text) (doc : Text) :
    AgreesWithStartup getenv doc ↔ ∀ cfg, Configures doc cfg →
      (∀ name ∈ referenced cfg, isSet getenv name = true) →
        ∀ p ∈ cfg.projects, p.tokenEnv ∈ envNames cfg := by
  unfold AgreesWithStartup Ready
  rw [accepted_validateMain, accepted_tracerConfig]
  constructor
  · rintro ⟨hready, -⟩ cfg hcfg hset p hp
    obtain ⟨cfg', hcfg', hnames⟩ := hready.mpr ⟨cfg, hcfg, hset⟩
    obtain rfl := Except.ok.inj (hcfg.1.symm.trans hcfg'.1)
    exact (hnames _ (tokenEnv_mem_referenced hp)).1
  · intro htokens
    -- the filter lets every name of a configuration pass that is ready
    have hvalid (cfg : RcConfig) (hcfg : Configures doc cfg)
        (hset : ∀ name ∈ referenced cfg, isSet getenv name = true) :
        ∀ name ∈ referenced cfg, name ∈ envNames cfg ∧ isSet getenv name = true := by
      intro name hname
      refine ⟨?_, hset name hname⟩
      cases List.mem_append.mp hname with
      | inl henv => exact henv
      | inr htoken =>
          obtain ⟨p, hp, rfl⟩ := List.mem_map.mp htoken
          exact htokens cfg hcfg hset p hp
    refine ⟨⟨?_, ?_⟩, fun hkeys => ⟨?_, ?_⟩⟩
    · rintro ⟨cfg, hcfg, hnames⟩
      exact ⟨cfg, hcfg, fun name hname => (hnames name hname).2⟩
    · rintro ⟨cfg, hcfg, hset⟩
      exact ⟨cfg, hcfg, hvalid cfg hcfg hset⟩
    · rintro ⟨cfg, hcfg, hnames⟩
      exact ⟨cfg, hcfg, fun p hp => (hnames _ (tokenEnv_mem_referenced hp)).2⟩
    · rintro ⟨cfg, hcfg, hset⟩
      refine ⟨cfg, hcfg, hvalid cfg hcfg ?_⟩
      unfold referenced
      rw [List.forall_mem_append, List.forall_mem_map]
      exact ⟨hkeys cfg hcfg.1, hset⟩

def tokenDocument : Text :=
    text "\x7b\"listen\":\x7b\"host\":\"h\",\"port\":80\x7d,\"private\":\x7b\"url\":\"http://a" ++
    text "\"\x7d,\"public\":\x7b\"url\":\"https://b\",\"api_key_env\":\"K\"\x7d,\"projects\":[" ++
    text "\x7b\"name\":\"p\",\"token_env\":\"T\"\x7d]\x7d"

/-- A project with a token of its own is never valid, but the tracer starts. -/
theorem validateMain_misses_token :
    ¬ AgreesWithStartup (fun _ => some (text "s")) tokenDocument := by
  rintro ⟨-, hagrees⟩
  have htracer : Accepted (tracerConfig (fun _ => some (text "s")) tokenDocument) :=
    accepted_of_isOk (by decide +kernel)
  obtain ⟨out, hout⟩ := (hagrees fun _ _ _ _ => rfl).mpr htracer
  have hrefused : (validateMain (fun _ => some (text "s")) tokenDocument).isOk = false := by
    decide +kernel
  rw [hout] at hrefused
  cases hrefused

end

end Recursant.Document
