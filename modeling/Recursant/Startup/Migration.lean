import Recursant.Startup.Names

/-!
# From the legacy form to the registry

`configure.c` rewrites a legacy document into the registry form before it edits it: "same meaning, named
providers".  The default model of the public section becomes an alias of its own name, which is one
entry more than the legacy document had; everything else carries over.
-/

namespace Recursant.Startup

open Gateway

variable {w : Surroundings}

/-! ## The rewriting -/

/-- `str`, a C string. -/
def str (o : Json) (key : Text) : Option Text :=
  ((o.get? key).bind Json.text?).map (·.takeWhile (· ≠ 0))

/-- A string that may be missing, packed as `s?`. -/
def packed : Option Text → Json
  | some s => .string s
  | none => .null

/-- The entry for the private section. -/
def privateEntry (priv : Json) : Json :=
  let members := [(text "name", Json.string "private"), (text "trust", .string "private"),
    (text "url", packed (str priv "url")), (text "adapter", .string "openai-compatible")]
  match str priv "api_key_env" with
  | none => .object members
  | some name => .object (Json.setMember "key_env" (.string name) members)

def publicEntry (pub : Json) : Json :=
  .object [("name", .string "public"), ("trust", .string "public"), ("url", packed (str pub "url")),
    ("key_env", packed (str pub "api_key_env")),
    ("adapter", .string ((str pub "adapter").getD (legacyPublicAdapter ((str pub "url").getD []))))]

/-- An alias with its endpoint as the name of its provider. -/
def renamed (a : Json) : Json :=
  match a, str a "endpoint" with
  | .object members, some endpoint =>
      .object (Json.delMember "endpoint" (Json.setMember "provider" (.string endpoint) members))
  | other, _ => other

/-- The alias for a default model that has none. -/
def publicAlias (m : Text) : Json :=
  .object [("from", .string m), ("provider", .string "public"), ("model", .string m)]

/-- The default model of the public section, where no alias has it. -/
def unaliasedPublic (root : Json) : Option Text :=
  ((root.get? "public").bind (str · "model")).filter fun m =>
    !((root.get? "aliases").getD .null).elements.any fun a => str a "model" = some m

/-- The entries of the providers that the two sections stand for. -/
def registryProviders (root priv : Json) : List Json :=
  privateEntry priv :: ((root.get? "public").map publicEntry).toList

def registryAliases (root : Json) : List Json :=
  ((root.get? "aliases").getD .null).elements.map renamed ++
    ((unaliasedPublic root).map publicAlias).toList

/-- `to_registry` -/
def toRegistry (root : Json) : Json :=
  match root, root.get? "providers", root.get? "private" with
  | .object members, none, some priv =>
      let members := Json.setMember "providers" (.array (registryProviders root priv)) members
      let members := match str priv "model" with
        | none => members
        | some m => Json.setMember "private_default"
            (.object [("provider", .string "private"), ("model", .string m)]) members
      let members := Json.setMember "aliases" (.array (registryAliases root)) members
      .object (Json.delMember "public" (Json.delMember "private" members))
  | other, _, _ => other

/-! ## Fields -/

theorem textAt_eq_some {o : Json} {key s : Text} :
    textAt o key = some s ↔ o.get? key = some (.string s) ∧ s ≠ [] ∧ s.contains 0 = false := by
  unfold textAt
  rw [Option.filter_eq_some_iff, Option.bind_eq_some_iff]
  simp only [Bool.and_eq_true, decide_eq_true_eq, Bool.not_eq_true']
  constructor
  · rintro ⟨⟨v, hv, hs⟩, hne, hzero⟩
    cases v with
    | string t =>
        cases hs
        exact ⟨hv, hne, hzero⟩
    | _ => cases hs
  · rintro ⟨hv, hne, hzero⟩
    exact ⟨⟨_, hv, rfl⟩, hne, hzero⟩

theorem str_of_textAt {o : Json} {key s : Text} (h : textAt o key = some s) : str o key = some s := by
  obtain ⟨hget, -, hzero⟩ := textAt_eq_some.mp h
  unfold str
  rw [hget, Option.bind_some]
  refine congrArg some (List.takeWhile_eq_self_iff.mpr fun c hc => ?_)
  rw [decide_eq_true_eq]
  rintro rfl
  rw [List.contains_iff_mem.mpr hc] at hzero
  cases hzero

theorem str_of_missing {o : Json} {key : Text} (h : o.get? key = none) : str o key = none := by
  unfold str
  rw [h]
  rfl

/-- What a secret comes to, the two cases. -/
theorem secret_eq_ok {o : Json} {key : Text} {required : Bool} {k : Option (Text × Text)} :
    secret w o key required = .ok k ↔
      (textAt o key = none ∧ required = false ∧ o.get? key = none ∧ k = none) ∨
      ∃ name value, textAt o key = some name ∧ variableOk name = true ∧
        secretValue w name = .ok value ∧ k = some (name, value) := by
  unfold secret
  cases textAt o key with
  | none =>
      dsimp only
      rw [bind_eq_ok]
      simp only [demand_eq_ok, Bool.and_eq_true, Bool.not_eq_true', Option.isNone_iff_eq_none]
      constructor
      · rintro ⟨u, ⟨hrequired, hget⟩, hk⟩
        cases hk
        exact .inl ⟨trivial, hrequired, hget, rfl⟩
      · rintro (⟨-, hrequired, hget, rfl⟩ | ⟨name, value, hname, -⟩)
        · exact ⟨(), ⟨hrequired, hget⟩, rfl⟩
        · cases hname
  | some name =>
      simp only [bind_eq_ok, demand_eq_ok]
      constructor
      · rintro ⟨u, hvariable, value, hvalue, hk⟩
        cases hk
        exact .inr ⟨name, value, rfl, hvariable, hvalue, rfl⟩
      · rintro (⟨hname, -⟩ | ⟨name', value, hname, hvariable, hvalue, rfl⟩)
        · cases hname
        · cases hname
          exact ⟨(), hvariable, value, hvalue, rfl⟩

/-- A field that moved to another section and another key keeps its secret. -/
theorem secret_moved {o o' : Json} {key key' : Text} {required : Bool} {k : Option (Text × Text)}
    (h : secret w o key required = .ok k) (htext : textAt o' key' = textAt o key)
    (hmissing : o.get? key = none → o'.get? key' = none) :
    secret w o' key' required = .ok k := by
  rw [secret_eq_ok] at h ⊢
  rw [htext]
  exact h.imp_left fun ⟨hnone, hrequired, hget, hk⟩ => ⟨hnone, hrequired, hmissing hget, hk⟩

/-! ## The rewritten document -/

section Document

variable {members : List (Text × Json)} {priv : Json} {model : Text}
  (hproviders : (Json.object members).get? "providers" = none)
  (hpriv : (Json.object members).get? "private" = some priv) (hmodel : str priv "model" = some model)

include hproviders hpriv hmodel

theorem toRegistry_eq :
    toRegistry (.object members) = .object (Json.delMember "public" (Json.delMember "private"
      (Json.setMember "aliases" (.array (registryAliases (.object members)))
        (Json.setMember "private_default"
          (.object [("provider", .string "private"), ("model", .string model)])
          (Json.setMember "providers"
            (.array (registryProviders (.object members) priv)) members))))) := by
  unfold toRegistry
  rw [hproviders, hpriv]
  dsimp only
  rw [hmodel]

theorem toRegistry_get? (k : Text) :
    (toRegistry (.object members)).get? k =
      if k = text "public" then none else if k = text "private" then none
      else if k = text "aliases" then some (.array (registryAliases (.object members)))
      else if k = text "private_default" then
        some (.object [("provider", .string "private"), ("model", .string model)])
      else if k = text "providers" then
        some (.array (registryProviders (.object members) priv))
      else (Json.object members).get? k := by
  rw [toRegistry_eq hproviders hpriv hmodel]
  unfold Json.get?
  dsimp only
  rw [Json.lookup_delMember, Json.lookup_delMember, Json.lookup_setMember, Json.lookup_setMember,
    Json.lookup_setMember]

theorem toRegistry_sections : SameSections (.object members) (toRegistry (.object members)) := by
  have hget := toRegistry_get? hproviders hpriv hmodel
  constructor <;> rw [hget] <;> rfl

theorem toRegistry_keys (h : checkSection (.object members) rootKeys "config root" = .ok ()) :
    checkSection (toRegistry (.object members)) rootKeys "config root" = .ok () := by
  obtain ⟨members', heq, hall⟩ := checkSection_eq_ok.mp h
  cases heq
  have hset : ∀ (key : Text) (v : Json) (ms : List (Text × Json)),
      unknownKey rootKeys key = false → (∀ k ∈ ms.map Prod.fst, unknownKey rootKeys k = false) →
      ∀ k ∈ (Json.setMember key v ms).map Prod.fst, unknownKey rootKeys k = false := by
    intro key v ms hkey hms k hk
    rw [Json.setMember_keys] at hk
    split at hk
    · exact hms k hk
    · rcases List.mem_append.mp hk with hk | hk
      · exact hms k hk
      · exact List.mem_singleton.mp hk ▸ hkey
  rw [toRegistry_eq hproviders hpriv hmodel]
  refine checkSection_eq_ok.mpr ⟨_, rfl, fun k hk => ?_⟩
  have hk' := (List.filter_sublist.map Prod.fst).subset
    ((List.filter_sublist.map Prod.fst).subset hk)
  exact hset _ _ _ (by decide) (hset _ _ _ (by decide) (hset _ _ _ (by decide) hall)) k hk'

end Document

/-! ## Providers -/

theorem checkSection_of_keys {members : List (Text × Json)} {allowed name : Text} (names : List Text)
    (hkeys : members.map Prod.fst = names) (hall : ∀ k ∈ names, unknownKey allowed k = false) :
    checkSection (.object members) allowed name = .ok () :=
  checkSection_eq_ok.mpr ⟨members, rfl, hkeys ▸ hall⟩

theorem loadProvider_of_fields {v : Json} {i : Nat} {name url adapter : Text} {trust : Endpoint}
    {key : Option (Text × Text)}
    (hkeys : checkSection v "|name||trust||url||key_env||adapter|" "provider" = .ok ())
    (hname : textAt v "name" = some name) (hnamed : providerNameOk name = true)
    (hurl : textAt v "url" = some url) (hadapter : textAt v "adapter" = some adapter)
    (hknown : adapterKnown adapter = true) (htrust : trustOf v = some trust)
    (hok : urlOk w url (trust = .pub) = true)
    (henv : ((v.get? "key_env").isSome || trust = .priv) = true)
    (hkey : secret w v "key_env" (trust = .pub) = .ok key) :
    loadProvider w v i = .ok (⟨name, trust, url, key.map Prod.fst, adapter⟩, key.map Prod.snd) := by
  unfold loadProvider
  simp only [bind_eq_ok, need_eq_ok, demand_eq_ok]
  refine ⟨(), hkeys, name, ?_, url, hurl, adapter, ?_, trust, htrust, (), hok, (), henv, key, hkey, rfl⟩
  · rw [hname, Option.filter_some, if_pos hnamed]
  · rw [hadapter, Option.filter_some, if_pos hknown]

theorem legacyPublicAdapter_known (url : Text) : adapterKnown (legacyPublicAdapter url) = true := by
  unfold legacyPublicAdapter
  dsimp only
  split <;> decide

theorem textAt_adapter {o : Json} {adapter : Text} (h : adapterKnown adapter = true)
    (hget : o.get? "adapter" = some (.string adapter)) : textAt o "adapter" = some adapter := by
  refine textAt_eq_some.mpr ⟨hget, ?_⟩
  unfold adapterKnown at h
  rw [Bool.or_eq_true, decide_eq_true_eq, decide_eq_true_eq] at h
  rcases h with rfl | rfl <;> decide

theorem loadProvider_private {priv : Json} {url : Text} {key : Option (Text × Text)}
    (hurl : textAt priv "url" = some url) (hok : urlOk w url false = true)
    (hkey : secret w priv "api_key_env" false = .ok key) :
    ∀ i, loadProvider w (privateEntry priv) i =
      .ok (⟨text "private", .priv, url, key.map Prod.fst, text "openai-compatible"⟩,
        key.map Prod.snd) := by
  obtain ⟨-, hne, hzero⟩ := textAt_eq_some.mp hurl
  unfold privateEntry
  rw [str_of_textAt hurl]
  dsimp only
  rcases secret_eq_ok.mp hkey with ⟨htext, -, hget, -⟩ | ⟨name, value, htext, -⟩
  · rw [str_of_missing hget]
    intro i
    refine loadProvider_of_fields (checkSection_of_keys ["name", "trust", "url", "adapter"] rfl
      (by decide))
      (textAt_eq_some.mpr ⟨rfl, by decide, by decide⟩) (by decide)
      (textAt_eq_some.mpr ⟨rfl, hne, hzero⟩) (textAt_adapter (by decide) rfl) (by decide) rfl hok rfl ?_
    exact secret_moved hkey (by rw [htext]; rfl) fun _ => rfl
  · rw [str_of_textAt htext]
    obtain ⟨-, hne', hzero'⟩ := textAt_eq_some.mp htext
    intro i
    refine loadProvider_of_fields (checkSection_of_keys ["name", "trust", "url", "adapter", "key_env"]
      rfl (by decide))
      (textAt_eq_some.mpr ⟨rfl, by decide, by decide⟩) (by decide)
      (textAt_eq_some.mpr ⟨rfl, hne, hzero⟩) (textAt_adapter (by decide) rfl) (by decide) rfl hok rfl ?_
    refine secret_moved hkey ?_ fun hget => ?_
    · rw [htext]
      exact textAt_eq_some.mpr ⟨rfl, hne', hzero'⟩
    · rw [(textAt_eq_some.mp htext).1] at hget
      cases hget

theorem loadProvider_public {pub : Json} {p : LegacyPublic} {adapter : Text}
    (hpub : loadLegacyPublic w pub = .ok p) (hadapter : legacyAdapter pub p.adapter = .ok adapter)
    (i : Nat) : loadProvider w (publicEntry pub) i =
      .ok (⟨text "public", .pub, p.url, p.keyEnv, adapter⟩, p.key) := by
  unfold loadLegacyPublic at hpub
  simp only [bind_eq_ok, need_eq_ok, demand_eq_ok] at hpub
  obtain ⟨-, -, url, hurl, key, hkey, -, -, hp⟩ := hpub
  cases hp
  obtain ⟨hurl, hok⟩ := Option.filter_eq_some_iff.mp hurl
  obtain ⟨-, hne, hzero⟩ := textAt_eq_some.mp hurl
  obtain ⟨name, value, htext, -⟩ :=
    (secret_eq_ok.mp hkey).resolve_left fun hnone => Bool.noConfusion hnone.2.1
  obtain ⟨-, hne', hzero'⟩ := textAt_eq_some.mp htext
  have hwritten : (str pub "adapter").getD (legacyPublicAdapter url) = adapter ∧
      adapterKnown adapter = true := by
    unfold legacyAdapter at hadapter
    split at hadapter
    · next hmissing =>
        cases hadapter
        rw [str_of_missing (Option.isNone_iff_eq_none.mp hmissing)]
        exact ⟨rfl, legacyPublicAdapter_known url⟩
    · obtain ⟨hfound, hknown⟩ := Option.filter_eq_some_iff.mp (need_eq_ok.mp hadapter)
      rw [str_of_textAt hfound]
      exact ⟨rfl, hknown⟩
  unfold publicEntry
  rw [str_of_textAt hurl, str_of_textAt htext, Option.getD_some, hwritten.1]
  refine loadProvider_of_fields (checkSection_of_keys ["name", "trust", "url", "key_env", "adapter"]
      rfl (by decide))
    (textAt_eq_some.mpr ⟨rfl, by decide, by decide⟩) (by decide)
    (textAt_eq_some.mpr ⟨rfl, hne, hzero⟩) (textAt_adapter hwritten.2 rfl) hwritten.2 rfl hok rfl ?_
  refine secret_moved hkey ?_ fun hget => ?_
  · rw [htext]
    exact textAt_eq_some.mpr ⟨rfl, hne', hzero'⟩
  · rw [(textAt_eq_some.mp htext).1] at hget
    cases hget

theorem loadDefault_private {model : Text} (hne : model ≠ []) (hzero : model.contains 0 = false)
    {first : Upstream} (rest : List Upstream) (hname : first.name = text "private")
    (htrust : first.trust = .priv) :
    loadDefault (.object [("provider", .string "private"), ("model", .string model)])
      (first :: rest) = .ok (0, model) := by
  unfold loadDefault
  simp only [bind_eq_ok, need_eq_ok]
  refine ⟨(), checkSection_of_keys ["provider", "model"] rfl (by decide), text "private",
    textAt_eq_some.mpr ⟨rfl, by decide, by decide⟩, model, textAt_eq_some.mpr ⟨rfl, hne, hzero⟩, 0, ?_,
    rfl⟩
  unfold findProvider
  rw [List.findIdx?_cons, hname, decide_eq_true rfl, Option.filter_eq_some_iff]
  exact ⟨rfl, decide_eq_true (congrArg some htrust)⟩

/-- The estate without the fields of the legacy public section. -/
def Estate.named (e : Estate) : Estate :=
  { e with publicUrl := none, publicModel := none, publicKeyEnv := none }

theorem loadLegacy_private {root : Json} {e : Estate} (h : loadLegacy w root = .ok e) :
    ∃ priv model, root.get? "private" = some priv ∧ str priv "model" = some model ∧
      e.privateModel = some model := by
  unfold loadLegacy at h
  simp only [bind_eq_ok, need_eq_ok, demand_eq_ok] at h
  obtain ⟨-, -, priv, hpriv, -, -, url, -, model, hmodel, -, -, key, -, h⟩ := h
  refine ⟨priv, model, hpriv, str_of_textAt hmodel, ?_⟩
  split at h
  · cases h
    rfl
  · simp only [bind_eq_ok] at h
    obtain ⟨pub, -, adapter, -, h⟩ := h
    cases h
    rfl

/-- The registry form of providers that load, the first of them the private one. -/
theorem loadRegistry_private {root : Json} {model : Text} {entries : List Json} {first : Upstream}
    {value : Option Text} {rest : List (Upstream × Option Text)}
    (hgone : ((root.get? "private").isNone && (root.get? "public").isNone) = true)
    (hentries : entries ≠ []) (hlength : entries.length ≤ maxProviders)
    (hloaded : ((entries.zipIdx).mapM fun (v, i) => loadProvider w v i) = .ok ((first, value) :: rest))
    (hname : first.name = text "private") (htrust : first.trust = .priv)
    (hdefault : root.get? "private_default" =
      some (.object [("provider", .string "private"), ("model", .string model)]))
    (hne : model ≠ []) (hzero : model.contains 0 = false) :
    loadRegistry w root (.array entries) =
      .ok ⟨first :: rest.map Prod.fst, value :: rest.map Prod.snd, true, 0, some first.url, some model,
        first.keyEnv, value, none, none, none⟩ := by
  unfold loadRegistry
  simp only [bind_eq_ok, demand_eq_ok]
  refine ⟨(), hgone, (), ?_, (), decide_eq_true hlength, _, hloaded, ?_⟩
  · have hsize : entries.length ≠ 0 := fun hzero => hentries (List.length_eq_zero_iff.mp hzero)
    rw [Bool.and_eq_true, decide_eq_true_eq]
    exact ⟨rfl, hsize⟩
  · rw [hdefault]
    dsimp only
    refine bind_eq_ok.mpr ⟨(0, model), loadDefault_private hne hzero _ hname htrust, ?_⟩
    rfl

theorem toRegistry_estate {members : List (Text × Json)} {e : Estate}
    (hproviders : (Json.object members).get? "providers" = none)
    (h : loadLegacy w (.object members) = .ok e) :
    loadEstate w (toRegistry (.object members)) = .ok e.named := by
  unfold loadLegacy at h
  simp only [bind_eq_ok, need_eq_ok, demand_eq_ok] at h
  obtain ⟨-, -, priv, hpriv, -, -, url, hurl, model, hmodel, -, hok, key, hkey, h⟩ := h
  have hget := toRegistry_get? hproviders hpriv (str_of_textAt hmodel)
  obtain ⟨-, hne, hzero⟩ := textAt_eq_some.mp hmodel
  have hv := loadProvider_private hurl hok hkey
  have hlist : (toRegistry (.object members)).get? "providers" =
      some (.array (registryProviders (.object members) priv)) := by
    rw [hget]
    rfl
  have hdefault : (toRegistry (.object members)).get? "private_default" =
      some (.object [("provider", .string "private"), ("model", .string model)]) := by
    rw [hget]
    rfl
  have hgone : ((toRegistry (.object members)).get? "private").isNone = true ∧
      ((toRegistry (.object members)).get? "public").isNone = true := by
    rw [hget, hget]
    exact ⟨rfl, rfl⟩
  have hpair : (((toRegistry (.object members)).get? "private").isNone &&
      ((toRegistry (.object members)).get? "public").isNone) = true := by
    rw [hgone.1, hgone.2]
    rfl
  unfold loadEstate
  rw [hlist]
  dsimp only
  unfold registryProviders
  cases hpub : (Json.object members).get? "public" with
  | none =>
      rw [hpub] at h
      cases h
      have hloaded : (([privateEntry priv].zipIdx).mapM fun (v, i) => loadProvider w v i) =
          .ok [(⟨text "private", .priv, url, key.map Prod.fst, text "openai-compatible"⟩,
            key.map Prod.snd)] := by
        simp only [List.zipIdx_cons, List.zipIdx_nil, List.mapM_cons, List.mapM_nil, hv]
        rfl
      exact loadRegistry_private hpair (List.cons_ne_nil _ _)
        (by unfold maxProviders; exact Nat.le_of_ble_eq_true rfl) hloaded rfl rfl hdefault hne hzero
  | some pub =>
      rw [hpub] at h
      simp only [bind_eq_ok] at h
      obtain ⟨p, hp, adapter, hadapter, h⟩ := h
      cases h
      have hloaded : (([privateEntry priv, publicEntry pub].zipIdx).mapM fun (v, i) => loadProvider w v i) =
          .ok [(⟨text "private", .priv, url, key.map Prod.fst, text "openai-compatible"⟩,
            key.map Prod.snd), (⟨text "public", .pub, p.url, p.keyEnv, adapter⟩, p.key)] := by
        simp only [List.zipIdx_cons, List.zipIdx_nil, List.mapM_cons, List.mapM_nil, hv,
          loadProvider_public hp hadapter]
        rfl
      exact loadRegistry_private hpair (List.cons_ne_nil _ _)
        (by unfold maxProviders; exact Nat.le_of_ble_eq_true rfl) hloaded rfl rfl hdefault hne hzero

/-! ## Aliases -/

/-- A key that a section knows is empty or one of its names. -/
theorem known_key {allowed k : Text} {names : List Text} (hall : allowed = Delimited.render 124 names)
    (hnames : ∀ x ∈ names, (124 : Byte) ∉ x) (h : unknownKey allowed k = false) :
    k = [] ∨ k ∈ names := by
  unfold unknownKey at h
  simp only [Bool.or_eq_false_iff, decide_eq_false_iff_not, Bool.not_eq_false'] at h
  by_cases hnil : k = []
  · exact .inl hnil
  · refine .inr (Delimited.mem_of_token ?_ hnil hnames (hall ▸ (hasText_iff _ _).mp h.2))
    intro hin
    rw [List.contains_iff_mem.mpr hin] at h
    cases h.1.1

theorem implicitProvider_named {e : Estate} {endpoint : Text} {k : Nat} {first : Upstream}
    {rest : List Upstream} (hproviders : e.providers = first :: rest)
    (hname : first.name = text "private")
    (hpublic : e.publicUrl.isSome = true → rest.map (·.name) = [text "public"])
    (h : implicitProvider e endpoint = some k) : findProvider e.providers endpoint = some k := by
  unfold implicitProvider at h
  unfold findProvider
  rw [hproviders, List.findIdx?_cons, hname]
  split at h
  · next hpriv =>
      cases h
      rw [hpriv, decide_eq_true rfl]
      rfl
  · next hpriv =>
      split at h
      · next hpub =>
          cases h
          rw [Bool.and_eq_true, decide_eq_true_eq] at hpub
          rw [decide_eq_false (Ne.symm hpriv), hpub.1]
          cases rest with
          | nil => cases hpublic hpub.2
          | cons second rest =>
              have hsecond : second.name = text "public" := (List.cons.inj (hpublic hpub.2)).1
              rw [List.findIdx?_cons, hsecond, decide_eq_true rfl]
              rfl
      · cases h

/-- How the implicit providers are named. -/
theorem loadLegacy_providers {root : Json} {e : Estate} (h : loadLegacy w root = .ok e) :
    ∃ first rest, e.providers = first :: rest ∧ first.name = text "private" ∧
      (e.publicUrl.isSome = true → rest.map (·.name) = [text "public"]) ∧
      (e.publicUrl = none → (root.get? "public") = none) := by
  unfold loadLegacy at h
  simp only [bind_eq_ok, need_eq_ok, demand_eq_ok] at h
  obtain ⟨-, -, priv, -, -, -, url, -, model, -, -, -, key, -, h⟩ := h
  split at h
  · next hpub =>
      cases h
      exact ⟨_, _, rfl, rfl, nofun, fun _ => hpub⟩
  · simp only [bind_eq_ok] at h
    obtain ⟨pub, -, adapter, -, h⟩ := h
    cases h
    exact ⟨_, _, rfl, rfl, fun _ => rfl, nofun⟩

theorem renamed_get? {members : List (Text × Json)} {endpoint : Text}
    (hendpoint : str (.object members) "endpoint" = some endpoint) (k : Text) :
    (renamed (.object members)).get? k =
      if k = text "endpoint" then none else if k = text "provider" then some (.string endpoint)
      else (Json.object members).get? k := by
  unfold renamed
  rw [hendpoint]
  unfold Json.get?
  dsimp only
  rw [Json.lookup_delMember, Json.lookup_setMember]

/-- An entry keeps its alias. -/
theorem loadAlias_renamed {e e' : Estate} {v : Json} {a : NamedAlias} {i j : Nat} {first : Upstream}
    {rest : List Upstream} (hproviders : e.providers = first :: rest)
    (hname : first.name = text "private")
    (hpublic : e.publicUrl.isSome = true → rest.map (·.name) = [text "public"])
    (hsame : e'.providers = e.providers) (h : loadAlias false e v i = .ok a) :
    loadAlias true e' (renamed v) j = .ok a := by
  unfold loadAlias providerOfEndpoint at h
  simp only [Bool.false_eq_true, if_false, bind_eq_ok, need_eq_ok] at h
  obtain ⟨k, ⟨u, hsection, endpoint, hendpoint, hk⟩, name, hfrom, model, hmodel, ha⟩ := h
  obtain ⟨members, rfl, hkeys⟩ := checkSection_eq_ok.mp hsection
  have hget := renamed_get? (str_of_textAt hendpoint)
  obtain ⟨-, hne, hzero⟩ := textAt_eq_some.mp hendpoint
  have hkeep : ∀ k s, k ≠ text "endpoint" → k ≠ text "provider" →
      textAt (.object members) k = some s → textAt (renamed (.object members)) k = some s := by
    intro k s hk1 hk2 hs
    rw [textAt_eq_some] at hs ⊢
    rw [hget, if_neg hk1, if_neg hk2]
    exact hs
  unfold loadAlias providerNamed
  simp only [if_true, bind_eq_ok, need_eq_ok]
  refine ⟨k, ⟨(), ?_, endpoint, ?_, ?_⟩, name, hkeep _ _ (by decide) (by decide) hfrom, model,
    hkeep _ _ (by decide) (by decide) hmodel, ?_⟩
  · unfold renamed
    rw [str_of_textAt hendpoint]
    refine checkSection_eq_ok.mpr ⟨_, rfl, fun key hkey => ?_⟩
    have hset := (List.filter_sublist.map Prod.fst).subset hkey
    have hother : key ≠ text "endpoint" := by
      obtain ⟨member, hmember, rfl⟩ := List.mem_map.mp hkey
      simpa using (List.mem_filter.mp hmember).2
    rw [Json.setMember_keys] at hset
    have hcases : key = text "provider" ∨ key ∈ members.map Prod.fst := by
      split at hset
      · exact .inr hset
      · exact (List.mem_append.mp hset).symm.imp List.mem_singleton.mp id
    rcases hcases with rfl | hold
    · decide
    · have hnames : key = [] ∨ key ∈ [text "from", text "endpoint", text "model"] :=
        known_key (by decide) (by decide) (hkeys key hold)
      simp only [List.mem_cons, List.not_mem_nil, or_false] at hnames
      rcases hnames with rfl | rfl | rfl | rfl
      · decide
      · decide
      · exact absurd rfl hother
      · decide
  · rw [textAt_eq_some, hget]
    exact ⟨rfl, hne, hzero⟩
  · rw [hsame]
    exact implicitProvider_named hproviders hname hpublic hk
  · rw [hsame]
    exact ha

/-- The alias for the public default, where the document has none. -/
def namedDefault (m : Text) : NamedAlias := ⟨m, ⟨.pub, m, 1⟩⟩

theorem loadAlias_publicAlias {e : Estate} {m : Text} {first second : Upstream} {rest : List Upstream}
    (hproviders : e.providers = first :: second :: rest) (hfirst : first.name = text "private")
    (hsecond : second.name = text "public") (htrust : second.trust = .pub) (hne : m ≠ [])
    (hzero : m.contains 0 = false) (i : Nat) :
    loadAlias true e (publicAlias m) i = .ok (namedDefault m) := by
  have hfind : findProvider e.providers (text "public") = some 1 := by
    unfold findProvider
    rw [hproviders, List.findIdx?_cons, hfirst, List.findIdx?_cons, hsecond]
    rfl
  unfold loadAlias providerNamed publicAlias
  simp only [if_true, bind_eq_ok, need_eq_ok]
  refine ⟨1, ⟨(), checkSection_of_keys ["from", "provider", "model"] rfl (by decide), text "public",
    textAt_eq_some.mpr ⟨rfl, by decide, by decide⟩, hfind⟩, m, textAt_eq_some.mpr ⟨rfl, hne, hzero⟩, m,
    textAt_eq_some.mpr ⟨rfl, hne, hzero⟩, ?_⟩
  rw [hproviders]
  show Except.ok (NamedAlias.mk m ⟨second.trust, m, 1⟩) = _
  rw [htrust]
  rfl

/-- The public default of a legacy estate is the one that the converter reads. -/
theorem loadLegacy_public {root : Json} {e : Estate} (h : loadLegacy w root = .ok e) :
    e.publicModel = (root.get? "public").bind (str · "model") ∧
      ∀ m, e.publicModel = some m → m ≠ [] ∧ m.contains 0 = false := by
  unfold loadLegacy at h
  simp only [bind_eq_ok, need_eq_ok, demand_eq_ok] at h
  obtain ⟨-, -, priv, -, -, -, url, -, model, -, -, -, key, -, h⟩ := h
  split at h
  · next hpub =>
      cases h
      rw [hpub]
      exact ⟨rfl, nofun⟩
  · next pub hpub =>
      simp only [bind_eq_ok] at h
      obtain ⟨p, hp, adapter, -, h⟩ := h
      cases h
      unfold loadLegacyPublic at hp
      simp only [bind_eq_ok, need_eq_ok, demand_eq_ok] at hp
      obtain ⟨-, -, url', -, key', -, -, hmodel, hp⟩ := hp
      cases hp
      rw [hpub, Option.bind_some]
      dsimp only
      rw [Bool.or_eq_true, Option.isNone_iff_eq_none] at hmodel
      constructor
      · rcases hmodel with hmissing | hsome
        · rw [str_of_missing hmissing]
          unfold textAt
          rw [hmissing]
          rfl
        · obtain ⟨m, hm⟩ := Option.isSome_iff_exists.mp hsome
          rw [hm, str_of_textAt hm]
      · intro m hm
        exact (textAt_eq_some.mp hm).2

/-! ## The two runtimes -/

/-- What a client and a dispatch can tell apart. -/
structure SameMeaning (r r' : Loaded) : Prop where
  route : ∀ m, r'.route m = r.route m
  dispatch : ∀ trust m, r'.dispatchProvider trust (some m) = r.dispatchProvider trust (some m)
  providers : r'.estate.providers = r.estate.providers
  providerKeys : r'.estate.providerKeys = r.estate.providerKeys
  hasPrivateDefault : r'.estate.hasPrivateDefault = r.estate.hasPrivateDefault
  privateProvider : r'.estate.privateProvider = r.estate.privateProvider
  privateModel : r'.estate.privateModel = r.estate.privateModel
  privateUrl : r'.estate.privateUrl = r.estate.privateUrl
  privateKeyEnv : r'.estate.privateKeyEnv = r.estate.privateKeyEnv
  privateKey : r'.estate.privateKey = r.estate.privateKey

/-- The alias list is full and the public default has no alias. -/
def Crowded (root : Json) : Prop :=
  ((root.get? "aliases").getD .null).size = maxAliases ∧ (unaliasedPublic root).isSome = true

theorem reads_models {e : Estate} {vs : List Json} {as : List NamedAlias} (h : Reads false e vs as)
    (m : Text) : (vs.any fun v => str v "model" = some m) = as.any (·.destination.model = m) := by
  obtain ⟨hall, -⟩ := h
  induction hall with
  | nil => rfl
  | @cons v a vs as ha _ ih =>
      unfold loadAlias at ha
      simp only [Bool.false_eq_true, if_false, bind_eq_ok, need_eq_ok] at ha
      obtain ⟨k, -, name, -, model, hmodel, ha⟩ := ha
      cases ha
      rw [List.any_cons, List.any_cons, ih, str_of_textAt hmodel]
      simp only [Option.some.injEq]

section Legacy

variable {root : Json} {r : Loaded} (h : LoadedFrom w root r)
  (hlegacy : root.get? "providers" = none)

include h hlegacy

theorem legacy_estate : loadLegacy w root = .ok r.estate := by
  have hestate := h.estate
  unfold loadEstate at hestate
  rw [hlegacy] at hestate
  exact hestate

theorem legacy_aliases : ∃ entries, root.get? "aliases" = some (.array entries) ∧
    entries.length ≤ maxAliases ∧ Reads false r.estate entries r.aliases := by
  obtain ⟨entries, hentries, hreads⟩ := h.aliases
  rw [hlegacy] at hreads
  obtain ⟨hlist, hlength⟩ := aliasList_eq_ok.mp hentries
  exact ⟨entries, hlist, hlength, hreads⟩

/-- The converter adds an alias where the public default has none. -/
theorem unaliasedPublic_eq : unaliasedPublic root =
    r.estate.publicModel.filter fun m => !r.aliases.any (·.destination.model = m) := by
  obtain ⟨entries, hlist, -, hreads⟩ := legacy_aliases h hlegacy
  unfold unaliasedPublic
  rw [(loadLegacy_public (legacy_estate h hlegacy)).1, hlist, Option.getD_some]
  simp only [Json.elements, reads_models hreads]

theorem added_public {m : Text} (hadded : unaliasedPublic root = some m) :
    r.estate.publicModel = some m ∧ ∀ a ∈ r.aliases, a.name ≠ m ∧ a.destination.model ≠ m := by
  rw [unaliasedPublic_eq h hlegacy, Option.filter_eq_some_iff] at hadded
  obtain ⟨hm, hnone⟩ := hadded
  rw [Bool.not_eq_true', List.any_eq_false] at hnone
  have hmodel : ∀ a ∈ r.aliases, a.destination.model ≠ m := fun a ha heq =>
    hnone a ha (decide_eq_true heq)
  exact ⟨hm, fun a ha => ⟨fun heq =>
    hmodel a ha (h.unambiguous.atPublic ha (.inl heq) hm).2, hmodel a ha⟩⟩

theorem aliased_public {m : Text} (hadded : unaliasedPublic root = none)
    (hm : r.estate.publicModel = some m) : ∃ a ∈ r.aliases, a.destination.model = m := by
  rw [unaliasedPublic_eq h hlegacy, hm, Option.filter_some] at hadded
  split at hadded
  · cases hadded
  · next hsome =>
      rw [Bool.not_eq_true', Bool.not_eq_false, List.any_eq_true] at hsome
      obtain ⟨a, ha, hmodel⟩ := hsome
      exact ⟨a, ha, of_decide_eq_true hmodel⟩

/-- The public default has its alias in the rewritten list. -/
theorem public_listed {m : Text} (hm : r.estate.publicModel = some m) :
    ∃ a ∈ r.aliases ++ ((unaliasedPublic root).map namedDefault).toList, a.destination.model = m := by
  cases hadded : unaliasedPublic root with
  | none =>
      obtain ⟨a, ha, hmodel⟩ := aliased_public h hlegacy hadded hm
      exact ⟨a, List.mem_append_left _ ha, hmodel⟩
  | some m' =>
      rw [(added_public h hlegacy hadded).1] at hm
      cases hm
      exact ⟨namedDefault m, List.mem_append_right _ List.mem_cons_self, rfl⟩

omit h hlegacy in
theorem mem_rewritten {a : NamedAlias} :
    a ∈ r.aliases ++ ((unaliasedPublic root).map namedDefault).toList ↔
      a ∈ r.aliases ∨ ∃ m, unaliasedPublic root = some m ∧ a = namedDefault m := by
  rw [List.mem_append]
  refine or_congr_right ?_
  cases unaliasedPublic root with
  | none => exact iff_of_false List.not_mem_nil (fun ⟨_, hm, _⟩ => nomatch hm)
  | some m =>
      show a ∈ [namedDefault m] ↔ _
      rw [List.mem_singleton]
      exact ⟨fun ha => ⟨m, rfl, ha⟩, fun ⟨m', hm, ha⟩ => by cases hm; exact ha⟩

theorem rewritten_names :
    ((r.aliases ++ ((unaliasedPublic root).map namedDefault).toList).map (·.name)).Nodup := by
  have hnames := h.unambiguous.names
  cases hadded : unaliasedPublic root with
  | none =>
      rw [Option.map_none, Option.toList_none, List.append_nil]
      exact hnames
  | some m =>
      rw [Option.map_some, Option.toList_some, List.map_append, List.nodup_append]
      refine ⟨hnames, List.nodup_singleton _, fun x hx y hy => ?_⟩
      obtain ⟨a, ha, rfl⟩ := List.mem_map.mp hx
      rw [List.mem_singleton.mp hy]
      exact ((added_public h hlegacy hadded).2 a ha).1

theorem rewritten_trusted {a : NamedAlias}
    (ha : a ∈ r.aliases ++ ((unaliasedPublic root).map namedDefault).toList) :
    Trusted r.estate.named a := by
  rcases mem_rewritten.mp ha with hold | ⟨m, hadded, rfl⟩
  · exact h.trusted a hold
  · obtain ⟨-, hproviders⟩ :=
      h.unambiguous.coherent.publicDefault m (added_public h hlegacy hadded).1
    show (r.estate.providers[1]?).map (·.trust) = some .pub
    rw [← List.getElem?_map, hproviders]
    rfl

theorem rewritten_distinct :
    Distinct r.estate.named (r.aliases ++ ((unaliasedPublic root).map namedDefault).toList) := by
  refine ⟨nofun, fun a ha => ?_, ?_⟩
  · rcases mem_rewritten.mp ha with hold | ⟨m, hadded, rfl⟩
    · have hstays := h.distinct.stays a hold
      unfold strays at hstays ⊢
      rw [Bool.or_eq_false_iff] at hstays
      exact Bool.or_eq_false_iff.mpr ⟨hstays.1, rfl⟩
    · obtain ⟨hm, -⟩ := added_public h hlegacy hadded
      unfold strays
      refine Bool.or_eq_false_iff.mpr ⟨?_, rfl⟩
      show r.estate.privateModel.any _ = false
      cases hpriv : r.estate.privateModel with
      | none => rfl
      | some m' =>
          have hne : m ≠ m' := by
            rintro rfl
            exact h.distinct.defaults m hpriv hm
          show ((decide (m = m') || decide (m = m')) && _) = false
          rw [decide_eq_false hne]
          rfl
  · cases hadded : unaliasedPublic root with
    | none =>
        rw [Option.map_none, Option.toList_none, List.append_nil]
        exact h.distinct.compatible
    | some m =>
        rw [Option.map_some, Option.toList_some, List.pairwise_append]
        refine ⟨h.distinct.compatible, List.pairwise_singleton _ _, fun a ha b hb => ?_⟩
        rw [List.mem_singleton.mp hb, compatible_iff]
        obtain ⟨hname, hmodel⟩ := (added_public h hlegacy hadded).2 a ha
        rintro (hm | hm | hm)
        · exact absurd hm hname
        · exact absurd hm hmodel
        · exact absurd hm hmodel

theorem rewritten_extends (key : Option Text) :
    (directory r.estate r.aliases key).Extends (directory r.estate.named
      (r.aliases ++ ((unaliasedPublic root).map namedDefault).toList) key) := by
  refine Directory.extends_of_mem (fun a ha => List.mem_append_left _ ha)
    (rewritten_names h hlegacy) (fun name => ?_) rfl rfl rfl rfl
  rw [Bool.eq_iff_iff]
  unfold Directory.taken directory
  simp only [Bool.or_eq_true, decide_eq_true_eq, List.any_eq_true]
  show ((r.estate.privateModel = some name ∨ none = some name) ∨ _) ↔ _
  constructor
  · rintro ((hpriv | hnone) | ⟨a, ha, hname⟩)
    · exact .inl (.inl hpriv)
    · cases hnone
    · rcases mem_rewritten.mp ha with hold | ⟨m, hadded, rfl⟩
      · exact .inr ⟨a, hold, hname⟩
      · rw [← (or_self_iff.mp hname : m = name)]
        exact .inl (.inr (added_public h hlegacy hadded).1)
  · rintro ((hpriv | hpub) | ⟨a, ha, hname⟩)
    · exact .inl (.inl hpriv)
    · obtain ⟨a, ha, hmodel⟩ := public_listed h hlegacy hpub
      exact .inr ⟨a, ha, .inr hmodel⟩
    · exact .inr ⟨a, List.mem_append_left _ ha, hname⟩

end Legacy

/-- The runtime of the rewritten document. -/
def Loaded.rewritten (r : Loaded) (added : Option Text) (gateway : Option GatewayConfig) : Loaded :=
  { r with estate := r.estate.named, aliases := r.aliases ++ (added.map namedDefault).toList, gateway }

section Rewritten

variable {root : Json} {r : Loaded} (h : LoadedFrom w root r)
  (hlegacy : root.get? "providers" = none)

include h hlegacy

theorem registryAliases_reads {entries : List Json} (hlist : root.get? "aliases" = some (.array entries))
    (hreads : Reads false r.estate entries r.aliases) :
    Reads true r.estate.named (registryAliases root)
      (r.aliases ++ ((unaliasedPublic root).map namedDefault).toList) := by
  refine ⟨?_, rewritten_names h hlegacy⟩
  obtain ⟨first, rest, hproviders, hname, hpublic, -⟩ := loadLegacy_providers (legacy_estate h hlegacy)
  unfold registryAliases
  rw [hlist, Option.getD_some]
  refine List.rel_append ?_ ?_
  · rw [List.forall₂_map_left_iff]
    exact hreads.1.imp fun v a ha => loadAlias_renamed hproviders hname hpublic rfl ha
  · cases hadded : unaliasedPublic root with
    | none => exact .nil
    | some m =>
        obtain ⟨hm, -⟩ := added_public h hlegacy hadded
        obtain ⟨hurl, htrusts⟩ := h.unambiguous.coherent.publicDefault m hm
        obtain ⟨-, hne⟩ := loadLegacy_public (legacy_estate h hlegacy)
        have hnames := hpublic hurl
        rw [hproviders] at htrusts
        cases rest with
        | nil => cases hnames
        | cons second rest =>
            have htrust : second.trust = .pub := by
              simp only [List.map_cons, List.cons.injEq] at htrusts
              exact htrusts.2.1
            exact .cons (loadAlias_publicAlias hproviders hname (List.cons.inj hnames).1 htrust
              (hne m hm).1 (hne m hm).2 0) .nil

omit h hlegacy in
theorem registryAliases_length {entries : List Json}
    (hlist : root.get? "aliases" = some (.array entries)) (hlength : entries.length ≤ maxAliases) :
    (registryAliases root).length ≤ maxAliases ↔ ¬Crowded root := by
  unfold registryAliases Crowded
  rw [hlist, Option.getD_some, List.length_append, List.length_map]
  show entries.length + _ ≤ maxAliases ↔ ¬(entries.length = maxAliases ∧ _)
  cases unaliasedPublic root with
  | none => simp [hlength]
  | some m =>
      simp only [Option.map_some, Option.toList_some, List.length_singleton, Option.isSome_some, and_true]
      omega

theorem rewritten_loads (hroom : ¬Crowded root) :
    ∃ g, LoadedFrom w (toRegistry root) (r.rewritten (unaliasedPublic root) g) ∧
      Loaded.TwinGateways r (r.rewritten (unaliasedPublic root) g) := by
  have hestate := legacy_estate h hlegacy
  obtain ⟨entries, hlist, hlength, hreads⟩ := legacy_aliases h hlegacy
  obtain ⟨priv, model, hpriv, hmodel, -⟩ := loadLegacy_private hestate
  obtain ⟨members, rfl, -⟩ := checkSection_eq_ok.mp h.keys
  have hget := toRegistry_get? hlegacy hpriv hmodel
  have hsections := toRegistry_sections hlegacy hpriv hmodel
  obtain ⟨g, hg, hgateway⟩ := configure_extends (rewritten_extends h hlegacy r.sourceKey) h.gateway
  have hentries : aliasList (toRegistry (.object members)) =
      .ok (registryAliases (.object members)) := by
    refine aliasList_eq_ok.mpr ⟨?_, (registryAliases_length hlist hlength).mpr hroom⟩
    rw [hget]
    rfl
  have hregistry : ((toRegistry (.object members)).get? "providers").isSome = true := by
    rw [hget]
    rfl
  refine ⟨g, ⟨toRegistry_keys hlegacy hpriv hmodel h.keys, ?_, toRegistry_estate hlegacy hestate, ?_,
    ⟨_, hentries, ?_⟩, h.valid, fun a ha => rewritten_trusted h hlegacy ha,
    rewritten_distinct h hlegacy, ?_, ?_, h.landing, ?_, ?_⟩, hg⟩
  · rw [hsections.loadListen_eq]
    exact h.listen
  · rw [hsections.loadAuth_eq]
    exact h.auth
  · rw [hregistry]
    exact registryAliases_reads h hlegacy hlist hreads
  · rw [hsections.loadLimits_eq]
    exact h.limits
  · rw [hsections.loadCompliance_eq]
    exact h.screening
  · rw [hsections.loadSource_eq w rfl]
    exact h.source
  · rw [hsections.context]
    exact hgateway

theorem rewritten_alike {g : Option GatewayConfig}
    (hg : Loaded.TwinGateways r (r.rewritten (unaliasedPublic root) g)) :
    Loaded.Alike r (r.rewritten (unaliasedPublic root) g) := by
  have hr := h.unambiguous
  refine ⟨fun m e p => ?_, hg.automatic, fun m i => ?_, fun _ => rfl⟩
  · rw [Loaded.means_iff, Loaded.means_iff, hg.means]
    refine or_congr_right ?_
    constructor
    · rintro (⟨a, ha, hma, rfl, rfl⟩ | ⟨hm, rfl, rfl⟩ | ⟨hm, rfl, rfl⟩)
      · exact .inl ⟨a, List.mem_append_left _ ha, hma, rfl, rfl⟩
      · exact .inr (.inl ⟨hm, rfl, rfl⟩)
      · -- the public default is one of the aliases now
        obtain ⟨a, ha, hmodel⟩ := public_listed h hlegacy hm
        refine .inl ⟨a, ha, .inr hmodel, ?_, hmodel⟩
        rcases mem_rewritten.mp ha with hold | ⟨m', -, rfl⟩
        · exact (hr.atPublic hold (.inr hmodel) hm).1
        · rfl
    · rintro (⟨a, ha, hma, rfl, rfl⟩ | ⟨hm, rfl, rfl⟩ | ⟨hm, -, -⟩)
      · rcases mem_rewritten.mp ha with hold | ⟨m', hadded, rfl⟩
        · exact .inl ⟨a, hold, hma, rfl, rfl⟩
        · have hname : m' = m := or_self_iff.mp hma
          rw [← hname]
          exact .inr (.inr ⟨(added_public h hlegacy hadded).1, rfl, rfl⟩)
      · exact .inr (.inl ⟨hm, rfl, rfl⟩)
      · cases hm
  · rw [Loaded.serves_iff, Loaded.serves_iff]
    constructor
    · rintro (⟨a, ha, hma, rfl⟩ | ⟨hdefault, hm, rfl⟩ | ⟨hurl, hm, rfl⟩)
      · exact .inl ⟨a, List.mem_append_left _ ha, hma, rfl⟩
      · exact .inr (.inl ⟨hdefault, hm, rfl⟩)
      · obtain ⟨a, ha, hmodel⟩ := public_listed h hlegacy hm
        refine .inl ⟨a, ha, hmodel, ?_⟩
        rcases mem_rewritten.mp ha with hold | ⟨m', -, rfl⟩
        · exact hr.serves (.listed hold hmodel) (.publicDefault hurl hm)
        · rfl
    · rintro (⟨a, ha, hma, rfl⟩ | ⟨hdefault, hm, rfl⟩ | ⟨-, hm, -⟩)
      · rcases mem_rewritten.mp ha with hold | ⟨m', hadded, rfl⟩
        · exact .inl ⟨a, hold, hma, rfl⟩
        · obtain ⟨hm', -⟩ := added_public h hlegacy hadded
          have hname : m' = m := hma
          rw [← hname]
          exact .inr (.inr ⟨(hr.coherent.publicDefault m' hm').1, hm', rfl⟩)
      · exact .inr (.inl ⟨hdefault, hm, rfl⟩)
      · cases hm

end Rewritten

/-- The rewritten form of a legacy document means the same exactly where there is room for the alias that
stands for the public default. -/
theorem migration_keeps_meaning_iff {root : Json} {r : Loaded} (h : load w root = .ok r)
    (hlegacy : root.get? "providers" = none) :
    (∃ r', load w (toRegistry root) = .ok r' ∧ SameMeaning r r') ↔ ¬Crowded root := by
  have hloaded := load_eq_ok.mp h
  constructor
  · rintro ⟨r', h', -⟩
    obtain ⟨entries, hlist, hlength, -⟩ := legacy_aliases hloaded hlegacy
    obtain ⟨priv, model, hpriv, hmodel, -⟩ := loadLegacy_private (legacy_estate hloaded hlegacy)
    obtain ⟨members, rfl, -⟩ := checkSection_eq_ok.mp hloaded.keys
    obtain ⟨entries', hentries', -⟩ := (load_eq_ok.mp h').aliases
    obtain ⟨hlist', hlength'⟩ := aliasList_eq_ok.mp hentries'
    rw [toRegistry_get? hlegacy hpriv hmodel] at hlist'
    cases hlist'
    exact (registryAliases_length hlist hlength).mp hlength'
  · intro hroom
    obtain ⟨g, hloaded', hg⟩ := rewritten_loads hloaded hlegacy hroom
    have halike := rewritten_alike hloaded hlegacy hg
    exact ⟨_, load_eq_ok.mpr hloaded',
      halike.route hloaded.unambiguous hloaded'.unambiguous,
      halike.dispatchProvider hloaded.unambiguous hloaded'.unambiguous,
      rfl, rfl, rfl, rfl, rfl, rfl, rfl, rfl⟩

/-! ### A full alias list -/

def legacyDocument (aliases : List Json) : Json :=
  .object [("listen", .object [("host", .string "127.0.0.1"), ("port", .integer 8080)]),
    ("private", .object [("url", .string "http://gx10:8888/v1"), ("model", .string "glm")]),
    ("public", .object [("url", .string "https://openrouter.ai/api/v1"), ("model", .string "sonnet"),
      ("api_key_env", .string "OPENROUTER_API_KEY")]),
    ("auth", .object [("api_key_env", .string "RECURSANT_API_KEY")]),
    ("aliases", .array aliases)]

/-- The names are a, aa, aaa and so on. -/
def localName (i : Nat) : Text := List.replicate (i + 1) 97

def localEntry (i : Nat) : Json :=
  .object [("from", .string (localName i)), ("endpoint", .string "private"), ("model", .string "glm")]

def localAlias (i : Nat) : NamedAlias := ⟨localName i, ⟨.priv, "glm", 0⟩⟩

def legacyEstate : Estate where
  providers := [⟨"private", .priv, "http://gx10:8888/v1", none, "openai-compatible"⟩,
    ⟨"public", .pub, "https://openrouter.ai/api/v1", some "OPENROUTER_API_KEY", "openrouter"⟩]
  providerKeys := [none, some (text "value of " ++ text "OPENROUTER_API_KEY")]
  hasPrivateDefault := true
  privateProvider := 0
  privateUrl := some "http://gx10:8888/v1"
  privateModel := some "glm"
  privateKeyEnv := none
  privateKey := none
  publicUrl := some "https://openrouter.ai/api/v1"
  publicModel := some "sonnet"
  publicKeyEnv := some "OPENROUTER_API_KEY"

def legacyLoaded (aliases : List NamedAlias) : Loaded where
  listen := ⟨"127.0.0.1", 8080⟩
  estate := legacyEstate
  aliases := aliases
  authKey := text "value of " ++ text "RECURSANT_API_KEY"
  sourceKey := none
  limits := ⟨1048576, 16, 60⟩
  screening := ⟨false, false, true, false, none, 0⟩
  gateway := none

theorem loadAlias_localEntry (i : Nat) :
    loadAlias false legacyEstate (localEntry i) 0 = .ok (localAlias i) := by
  have hname : textAt (localEntry i) "from" = some (localName i) := by
    refine textAt_eq_some.mpr ⟨rfl, List.cons_ne_nil _ _, ?_⟩
    rw [Bool.eq_false_iff, ne_eq, List.contains_iff_mem]
    intro hzero
    cases List.eq_of_mem_replicate hzero
  unfold loadAlias providerOfEndpoint
  simp only [Bool.false_eq_true, if_false, bind_eq_ok, need_eq_ok]
  exact ⟨0, ⟨(), checkSection_of_keys ["from", "endpoint", "model"] rfl (by decide), text "private",
    textAt_eq_some.mpr ⟨rfl, by decide, by decide⟩, rfl⟩, _, hname, text "glm",
    textAt_eq_some.mpr ⟨rfl, by decide, by decide⟩, rfl⟩

theorem legacyDocument_loads {n : Nat} (hn : n ≤ maxAliases) :
    load sampleSurroundings (legacyDocument ((List.range n).map localEntry)) =
      .ok (legacyLoaded ((List.range n).map localAlias)) := by
  have hnames : (((List.range n).map localAlias).map (·.name)).Nodup := by
    rw [List.map_map]
    refine List.nodup_range.map fun i j hij => ?_
    have hlength := congrArg List.length (show localName i = localName j from hij)
    simpa [localName] using hlength
  have hlocal : ∀ a ∈ (List.range n).map localAlias, ∃ i, a = localAlias i := by
    intro a ha
    obtain ⟨i, -, rfl⟩ := List.mem_map.mp ha
    exact ⟨i, rfl⟩
  have hreads : Reads false legacyEstate ((List.range n).map localEntry)
      ((List.range n).map localAlias) := by
    refine ⟨?_, hnames⟩
    rw [List.forall₂_map_left_iff, List.forall₂_map_right_iff, List.forall₂_same]
    exact fun i _ => loadAlias_localEntry i
  have hstays : ∀ a ∈ (List.range n).map localAlias, strays legacyEstate a = false := by
    intro a ha
    obtain ⟨i, rfl⟩ := hlocal a ha
    have hpub : decide (localName i = text "sonnet") = false := by
      refine decide_eq_false fun hname => ?_
      have hhead : (localName i).head? = (text "sonnet").head? := congrArg List.head? hname
      cases hhead
    unfold strays
    refine Bool.or_eq_false_iff.mpr ⟨?_, ?_⟩
    · show ((decide (localName i = text "glm") || decide (text "glm" = text "glm")) &&
        (decide ((0 : Nat) ≠ 0) || decide (text "glm" ≠ text "glm"))) = false
      exact Bool.and_eq_false_iff.mpr (.inr rfl)
    · show ((decide (localName i = text "sonnet") || false) && true) = false
      rw [hpub]
      rfl
  refine load_eq_ok.mpr ⟨rfl, rfl, rfl, rfl,
    ⟨_, aliasList_eq_ok.mpr ⟨rfl, by simpa using hn⟩, hreads⟩, ⟨(), rfl⟩, fun a ha => ?_,
    ⟨?_, hstays, ?_⟩, rfl, rfl, rfl, rfl, rfl⟩
  · obtain ⟨i, rfl⟩ := hlocal a ha
    rfl
  · intro m hm hpub
    cases hm
    cases hpub
  · refine List.pairwise_iff_forall_sublist.mpr fun {a b} hab => ?_
    obtain ⟨i, rfl⟩ := hlocal a (hab.subset List.mem_cons_self)
    obtain ⟨j, rfl⟩ := hlocal b (hab.subset (List.mem_cons_of_mem _ List.mem_cons_self))
    exact compatible_iff.mpr fun _ => ⟨rfl, rfl⟩

theorem legacyDocument_crowded :
    Crowded (legacyDocument ((List.range maxAliases).map localEntry)) := by
  have hloaded := load_eq_ok.mp (legacyDocument_loads (Nat.le_refl maxAliases))
  have hsize : ((List.range maxAliases).map localEntry).length = maxAliases := by
    rw [List.length_map, List.length_range]
  refine ⟨hsize, ?_⟩
  rw [unaliasedPublic_eq hloaded rfl]
  have hnone : ((List.range maxAliases).map localAlias).any
      (·.destination.model = text "sonnet") = false := by
    rw [List.any_eq_false]
    intro a ha
    obtain ⟨i, -, rfl⟩ := List.mem_map.mp ha
    exact Bool.eq_false_iff.mp (decide_eq_false (by decide : text "glm" ≠ text "sonnet"))
  show (Option.filter (fun m => !((List.range maxAliases).map localAlias).any
    (·.destination.model = m)) (some (text "sonnet"))).isSome = true
  rw [Option.filter_some, hnone]
  rfl

/-- The rewritten document loads where there is room. -/
theorem migration_keeps_meaning_sample :
    ∃ r, load sampleSurroundings (legacyDocument ((List.range 2).map localEntry)) = .ok r ∧
      ¬Crowded (legacyDocument ((List.range 2).map localEntry)) ∧
      ∃ r', load sampleSurroundings (toRegistry (legacyDocument ((List.range 2).map localEntry))) =
        .ok r' ∧ SameMeaning r r' := by
  have hload := legacyDocument_loads (by decide : 2 ≤ maxAliases)
  have hroom : ¬Crowded (legacyDocument ((List.range 2).map localEntry)) := fun hfull =>
    absurd hfull.1 (by decide)
  exact ⟨_, hload, hroom, (migration_keeps_meaning_iff hload rfl).mpr hroom⟩

/-- With the limit reached the rewritten document is refused. -/
theorem migration_overflows : ¬ ∀ (w : Surroundings) (root : Json) (r : Loaded),
    load w root = .ok r → root.get? "providers" = none →
      ∃ r', load w (toRegistry root) = .ok r' ∧ SameMeaning r r' := by
  intro hclaim
  obtain ⟨r', hload', -⟩ := hclaim _ _ _ (legacyDocument_loads (Nat.le_refl maxAliases)) rfl
  obtain ⟨entries, hentries, -⟩ := (load_eq_ok.mp hload').aliases
  obtain ⟨hlist, hlength⟩ := aliasList_eq_ok.mp hentries
  cases (toRegistry_get? rfl rfl rfl (text "aliases")).symm.trans hlist
  exact (registryAliases_length rfl (by simp)).mp hlength legacyDocument_crowded

end Recursant.Startup
