import Recursant.Compliance.Gate

/-!
# Soundness and atomicity of the gate

What one gate call may do to a body and its endpoint.  A public body that leaves the gate has passed
as it leaves; a private one is the body that came in, with the private model when it was
redirected, unless the decoration of a vetoed public destination had added a cache breakpoint: the
gate takes the decoration's `provider` back and leaves the breakpoint.
-/

namespace Recursant.Compliance

/-! ## Decoration -/

theorem decorateRequest_eq {name : Text} {decorate : Json → Option Json}
    (h : (adapterFind name).bind (·.decorateRequest) = some decorate) :
    decorate = openrouterDecorate := by
  unfold adapterFind at h
  rw [List.find?_cons] at h
  split at h
  · cases h
  · rw [List.find?_cons] at h
    split at h
    · exact (Option.some.inj h).symm
    · cases h

theorem wantsBreakpoint_congr {body changed : Json}
    (h : ∀ k ∈ [text "model", text "tools", text "messages", text "cache_control"],
      changed.get? k = body.get? k) :
    wantsBreakpoint changed = wantsBreakpoint body := by
  unfold wantsBreakpoint continuing modelOf sizeAt
  rw [h "model" (by simp), h "tools" (by simp), h "messages" (by simp),
    h "cache_control" (by simp)]

/-- The two steps of the decoration: `provider` first, then the breakpoint. -/
theorem openrouterDecorate_eq_some {body decorated : Json}
    (h : openrouterDecorate body = some decorated) :
    ∃ pinned, body.set? "provider" (some noFallbacks) = some pinned ∧
      if wantsBreakpoint body then pinned.set? "cache_control" (some ephemeral) = some decorated
      else pinned = decorated := by
  unfold openrouterDecorate at h
  cases hset : body.set? "provider" (some noFallbacks) with
  | none =>
      rw [hset] at h
      cases h
  | some pinned =>
      rw [hset] at h
      have hwants : wantsBreakpoint pinned = wantsBreakpoint body := by
        apply wantsBreakpoint_congr
        intro k hk
        rw [Json.get?_set? hset, if_neg]
        revert k
        decide
      refine ⟨pinned, rfl, ?_⟩
      rw [Option.bind_eq_bind, Option.bind_some, hwants] at h
      by_cases hbreak : wantsBreakpoint body = true
      · rw [if_pos hbreak] at h ⊢
        exact h
      · rw [if_neg hbreak] at h ⊢
        exact Option.some.inj h

/-- Decoration only sets `provider` and `cache_control`. -/
theorem get?_decorated {body decorated : Json} (h : openrouterDecorate body = some decorated)
    {k : Text} (hprovider : k ≠ text "provider") (hcache : k ≠ text "cache_control") :
    decorated.get? k = body.get? k := by
  obtain ⟨pinned, hset, hbreak⟩ := openrouterDecorate_eq_some h
  have hpinned : pinned.get? k = body.get? k := by rw [Json.get?_set? hset, if_neg hprovider]
  split at hbreak
  · rw [Json.get?_set? hbreak, if_neg hcache, hpinned]
  · rw [← hbreak, hpinned]

theorem modelOf_decorated {body decorated : Json} (h : openrouterDecorate body = some decorated) :
    modelOf decorated = modelOf body := by
  unfold modelOf
  rw [get?_decorated h (by decide) (by decide)]

theorem set?_isSome_of_set? {body changed v : Json} {key : Text}
    (h : body.set? key (some v) = some changed) (k : Text) (w : Json) :
    ∃ next, changed.set? k (some w) = some next := by
  cases body with
  | object members =>
      cases h
      exact ⟨_, rfl⟩
  | _ => cases h

/-- Taking `provider` back restores the body unless the decoration added a breakpoint, which
stays. -/
theorem restoreProvider_decorated {body decorated : Json}
    (h : openrouterDecorate body = some decorated) :
    ∃ restored, restoreProvider (body.get? "provider") decorated = some restored ∧
      if wantsBreakpoint body then restored.get? "cache_control" = some ephemeral
      else restored = body := by
  obtain ⟨pinned, hset, hbreak⟩ := openrouterDecorate_eq_some h
  by_cases hwants : wantsBreakpoint body = true
  · simp only [if_pos hwants] at hbreak ⊢
    cases hprovider : body.get? "provider" with
    | none =>
        refine ⟨decorated.del "provider", rfl, ?_⟩
        rw [Json.get?_del, if_neg (by decide), Json.get?_set? hbreak, if_pos rfl]
    | some old =>
        obtain ⟨restored, hrestored⟩ := set?_isSome_of_set? hbreak "provider" old
        refine ⟨restored, hrestored, ?_⟩
        rw [Json.get?_set? hrestored, if_neg (by decide), Json.get?_set? hbreak, if_pos rfl]
  · simp only [if_neg hwants] at hbreak ⊢
    subst hbreak
    cases hprovider : body.get? "provider" with
    | none => exact ⟨body, congrArg some (Json.del_set? hset hprovider), rfl⟩
    | some old => exact ⟨body, Json.set?_restore hset hprovider, rfl⟩

/-! ## One gate call -/

variable (r : Runtime) (p : Policy) (verdict : Json → Option Text → Verdict)

def controlsFor (body : Json) (trust : Endpoint) : Option Text :=
  (destination r body trust).bind (·.providerControlKeys)

def decoratorFor (body : Json) : Option (Json → Option Json) :=
  (destination r body .pub).bind (·.decorateRequest)

theorem decoratorFor_eq {body : Json} {decorate : Json → Option Json}
    (h : decoratorFor r body = some decorate) : decorate = openrouterDecorate := by
  unfold decoratorFor destination at h
  cases hprovider : dispatchProvider r.config .pub (modelOf body) with
  | none =>
      rw [hprovider] at h
      cases h
  | some provider =>
      rw [hprovider] at h
      exact decorateRequest_eq h

theorem controlsFor_congr {body changed : Json} (h : modelOf changed = modelOf body)
    (trust : Endpoint) : controlsFor r changed trust = controlsFor r body trust := by
  unfold controlsFor destination
  rw [h]

/-- A private body is never touched. -/
theorem gateWith_priv (body : Json) : gateWith r verdict body .priv = ⟨true, body, .priv⟩ := by
  unfold gateWith
  dsimp only
  split <;> rfl

/-- The body passes the first verdict on its way to a public destination. -/
def Cleared (body : Json) : Prop :=
  r.publicAllowed = true ∧ (verdict body (controlsFor r body .pub)).passes = true

/-- Everything a gate call can do with a public body. -/
inductive PublicOutcome (body : Json) : Gated → Prop where
  | vetoed : ¬ Cleared r verdict body → PublicOutcome body (redirect r body)
  | plain : Cleared r verdict body → decoratorFor r body = none →
      PublicOutcome body ⟨true, body, .pub⟩
  | undecorated : Cleared r verdict body → openrouterDecorate body = none →
      PublicOutcome body ⟨false, body, .pub⟩
  | decorated {final : Json} : Cleared r verdict body → decoratorFor r body ≠ none →
      openrouterDecorate body = some final →
      (verdict final (controlsFor r body .pub)).passes = true →
        PublicOutcome body ⟨true, final, .pub⟩
  | revoked {final restored : Json} : Cleared r verdict body → decoratorFor r body ≠ none →
      openrouterDecorate body = some final →
      (verdict final (controlsFor r body .pub)).passes = false →
      restoreProvider (body.get? "provider") final = some restored →
        PublicOutcome body (redirect r restored)

theorem gateWith_pub (body : Json) :
    PublicOutcome r verdict body (gateWith r verdict body .pub) := by
  unfold gateWith
  dsimp only
  by_cases hcleared : Cleared r verdict body
  · rw [if_neg (by
      rw [Bool.or_eq_true, Bool.not_eq_true', Bool.not_eq_true']
      intro h
      cases h with
      | inl hpolicy => exact Bool.false_ne_true (hpolicy.symm.trans hcleared.1)
      | inr hverdict => exact Bool.false_ne_true (hverdict.symm.trans hcleared.2))]
    cases hdecorator : decoratorFor r body with
    | none =>
        rw [show (destination r body .pub).bind (·.decorateRequest) = none from hdecorator]
        exact .plain hcleared hdecorator
    | some decorate =>
        rw [show (destination r body .pub).bind (·.decorateRequest) = some decorate
          from hdecorator]
        obtain rfl := decoratorFor_eq r hdecorator
        have hsome : decoratorFor r body ≠ none := by
          rw [hdecorator]
          exact Option.some_ne_none _
        show PublicOutcome r verdict body
          (vetDecorated r verdict (controlsFor r body .pub) body (openrouterDecorate body))
        cases hfinal : openrouterDecorate body with
        | none => exact .undecorated hcleared hfinal
        | some final =>
            unfold vetDecorated
            dsimp only
            by_cases hpasses : (verdict final (controlsFor r body .pub)).passes = true
            · rw [if_pos hpasses]
              exact .decorated hcleared hsome hfinal hpasses
            · rw [if_neg hpasses]
              obtain ⟨restored, hrestored, -⟩ := restoreProvider_decorated hfinal
              rw [hrestored]
              exact .revoked hcleared hsome hfinal (Bool.not_eq_true _ ▸ hpasses) hrestored
  · rw [if_pos]
    · exact .vetoed hcleared
    · by_contra hboth
      rw [Bool.or_eq_true, Bool.not_eq_true', Bool.not_eq_true', not_or, Bool.not_eq_false,
        Bool.not_eq_false] at hboth
      exact hcleared hboth

theorem gate_eq (henabled : r.complianceEnabled = true) (hpolicy : r.policy = some p) :
    gate r = gateWith r (classify r p) := by
  funext body endpoint
  unfold gate
  rw [henabled, hpolicy]
  rfl

/-! ## Soundness -/

/-- The body that a call leaving it private is to leave behind. -/
def readdressed (body : Json) : Endpoint → Option Json
  | .priv => some body
  | .pub => body.set? "model" (r.config.privateModel.map .string)

/-- What a gate call promises: a body it leaves public has just passed as it is, a private
destination stays private, and a body it leaves private is the one that came in, readdressed to the
private model exactly when it came in public. -/
structure GateSound (body : Json) (endpoint : Endpoint) : Prop where
  cleared : (gate r body endpoint).admitted = true → (gate r body endpoint).endpoint = .pub →
    Cleared r (classify r p) (gate r body endpoint).body
  stays : endpoint = .priv → (gate r body endpoint).endpoint = .priv
  intact : (gate r body endpoint).admitted = true → (gate r body endpoint).endpoint = .priv →
    readdressed r body endpoint = some (gate r body endpoint).body

/-- A public body that passes, gets a cache breakpoint by its decoration, and does not pass with
it. -/
def Residue (body : Json) (endpoint : Endpoint) : Prop :=
  endpoint = .pub ∧ r.config.privateModel.isSome = true ∧ Cleared r (classify r p) body ∧
    decoratorFor r body ≠ none ∧ wantsBreakpoint body = true ∧
    ∃ final, openrouterDecorate body = some final ∧
      (classify r p final (controlsFor r body .pub)).passes = false

theorem redirect_endpoint (body : Json) : (redirect r body).endpoint = .priv := by
  unfold redirect
  split <;> rfl

theorem redirect_of_get? {body v : Json} {key model : Text} (hget : body.get? key = some v)
    (hmodel : r.config.privateModel = some model) :
    ∃ redirected, body.set? "model" (some (.string model)) = some redirected ∧
      redirect r body = ⟨true, redirected, .priv⟩ := by
  cases body with
  | object members =>
      refine ⟨_, rfl, ?_⟩
      unfold redirect
      rw [hmodel]
      rfl
  | _ => cases hget

theorem redirect_intact {body : Json} (h : (redirect r body).admitted = true) :
    body.set? "model" (r.config.privateModel.map .string) = some (redirect r body).body := by
  unfold redirect at h ⊢
  split at h
  · cases h
  · next redirected hset => rw [hset]

/-- A body that is not vetoed keeps its provider under its decoration, so its controls stay. -/
theorem cleared_decorated {body final : Json} (hcleared : Cleared r verdict body)
    (hfinal : openrouterDecorate body = some final)
    (hpasses : (verdict final (controlsFor r body .pub)).passes = true) :
    Cleared r verdict final := by
  refine ⟨hcleared.1, ?_⟩
  rw [controlsFor_congr r (modelOf_decorated hfinal)]
  exact hpasses

theorem gate_sound_of_no_residue (henabled : r.complianceEnabled = true)
    (hpolicy : r.policy = some p) {body : Json} {endpoint : Endpoint}
    (h : ¬ Residue r p body endpoint) : GateSound r p body endpoint := by
  have hgate := gate_eq r p henabled hpolicy
  cases endpoint with
  | priv =>
      have hresult : gate r body .priv = ⟨true, body, .priv⟩ := by
        rw [hgate]
        exact gateWith_priv r _ body
      refine ⟨?_, ?_, ?_⟩
      · rw [hresult]
        intro _ hpub
        cases hpub
      · rw [hresult]
        exact fun _ => rfl
      · rw [hresult]
        exact fun _ _ => rfl
  | pub =>
      refine ⟨?_, (fun hpriv => nomatch hpriv), ?_⟩
      · intro hadmitted hpub
        have houtcome := gateWith_pub r (classify r p) body
        rw [hgate] at hadmitted hpub ⊢
        generalize gateWith r (classify r p) body .pub = g at houtcome hadmitted hpub ⊢
        cases houtcome with
        | vetoed _ =>
            rw [redirect_endpoint] at hpub
            cases hpub
        | plain hcleared _ => exact hcleared
        | undecorated _ _ => cases hadmitted
        | decorated hcleared _ hfinal hpasses =>
            exact cleared_decorated r (classify r p) hcleared hfinal hpasses
        | revoked _ _ _ _ _ =>
            rw [redirect_endpoint] at hpub
            cases hpub
      · intro hadmitted hpriv
        have houtcome := gateWith_pub r (classify r p) body
        rw [hgate] at hadmitted hpriv ⊢
        generalize gateWith r (classify r p) body .pub = g at houtcome hadmitted hpriv ⊢
        cases houtcome with
        | vetoed _ => exact redirect_intact r hadmitted
        | plain _ _ => cases hpriv
        | undecorated _ _ => cases hadmitted
        | decorated _ _ _ _ => cases hpriv
        | revoked hcleared hsome hfinal hfails hrestored =>
            obtain ⟨restored, hrestored', hbody⟩ := restoreProvider_decorated hfinal
            obtain rfl := Option.some.inj (hrestored.symm.trans hrestored')
            have hmodel : r.config.privateModel.isSome = true := by
              have hset := redirect_intact r hadmitted
              cases hprivate : r.config.privateModel with
              | some _ => rfl
              | none =>
                  rw [hprivate] at hset
                  simp [Json.set?] at hset
            have hplain : wantsBreakpoint body ≠ true := fun hwants =>
              h ⟨rfl, hmodel, hcleared, hsome, hwants, _, hfinal, hfails⟩
            rw [if_neg hplain] at hbody
            rw [hbody] at hadmitted ⊢
            exact redirect_intact r hadmitted

/-- The breakpoint of a vetoed decoration goes to the private provider. -/
theorem gate_residue (henabled : r.complianceEnabled = true) (hpolicy : r.policy = some p)
    {body : Json} {endpoint : Endpoint} (h : Residue r p body endpoint) :
    (gate r body endpoint).admitted = true ∧ (gate r body endpoint).endpoint = .priv ∧
      (gate r body endpoint).body.get? "cache_control" = some ephemeral := by
  obtain ⟨rfl, hmodel, hcleared, hsome, hwants, final, hfinal, hfails⟩ := h
  obtain ⟨model, hmodel⟩ := Option.isSome_iff_exists.mp hmodel
  have houtcome := gateWith_pub r (classify r p) body
  rw [gate_eq r p henabled hpolicy]
  generalize gateWith r (classify r p) body .pub = g at houtcome ⊢
  cases houtcome with
  | vetoed hveto => exact absurd hcleared hveto
  | plain _ hnone => exact absurd hnone hsome
  | undecorated _ hnone =>
      rw [hfinal] at hnone
      cases hnone
  | decorated _ _ hother hpasses =>
      obtain rfl := Option.some.inj (hfinal.symm.trans hother)
      exact absurd hpasses (by simp [hfails])
  | revoked _ _ hother _ hrestored =>
      obtain ⟨restored, hrestored', hbody⟩ := restoreProvider_decorated hother
      obtain rfl := Option.some.inj (hrestored.symm.trans hrestored')
      rw [if_pos hwants] at hbody
      obtain ⟨redirected, hset, hredirect⟩ := redirect_of_get? r hbody hmodel
      rw [hredirect]
      refine ⟨rfl, rfl, ?_⟩
      rw [Json.get?_set? hset, if_neg (by decide), hbody]

/-- The gate keeps its promises on exactly the calls that are no `Residue`. -/
theorem gate_sound_iff (henabled : r.complianceEnabled = true) (hpolicy : r.policy = some p)
    (body : Json) (endpoint : Endpoint) :
    GateSound r p body endpoint ↔ ¬ Residue r p body endpoint := by
  constructor
  · intro hsound hresidue
    obtain ⟨hadmitted, hpriv, hbreak⟩ := gate_residue r p henabled hpolicy hresidue
    have hintact := hsound.intact hadmitted hpriv
    obtain ⟨rfl, hmodel, -, -, hwants, -⟩ := hresidue
    obtain ⟨model, hmodel⟩ := Option.isSome_iff_exists.mp hmodel
    unfold readdressed at hintact
    rw [hmodel] at hintact
    rw [Json.get?_set? hintact, if_neg (by decide)] at hbreak
    have hnone : (body.get? "cache_control").isNone = true := by
      unfold wantsBreakpoint at hwants
      rw [Bool.and_eq_true] at hwants
      exact hwants.2
    rw [hbreak] at hnone
    cases hnone
  · exact gate_sound_of_no_residue r p henabled hpolicy

/-! ### A breakpoint that a rule matches -/

def routedConfig : Config where
  aliases := [⟨.pub, "anthropic/m", 0⟩]
  providers := [⟨.pub, "openrouter"⟩, ⟨.priv, "openai-compatible"⟩]
  hasPrivateDefault := true
  privateProvider := 1
  privateModel := some "local"
  publicUrl := none
  publicModel := none

/-- No text of the samples opens like JSON, so the reader is never asked. -/
def plainJansson : Jansson where
  loadb _ := none
  dumps
    | .bool true => some "true"
    | .bool false => some "false"
    | _ => none
  dumpsSorted _ := none

def matching (pattern : Text) : Policy :=
  ⟨[fun t => if t = pattern then .found else .noMatch], [], ⟨[], 4096, 32 * 1024 * 1024⟩⟩

def routedRuntime (pattern : Text) : Runtime :=
  ⟨routedConfig, true, true, true, false, some (matching pattern), plainJansson⟩

def question : Json := .object [("role", .string "user"), ("content", .string "a")]

def continuingBody (model : Text) : Json :=
  .object [("model", .string model), ("messages", .array [question, question, question])]

def decoratedBody : Json :=
  .object [("model", .string "anthropic/m"), ("messages", .array [question, question, question]),
    ("provider", noFallbacks), ("cache_control", ephemeral)]

theorem gate_sound_iff_sample :
    GateSound (routedRuntime "b") (matching "b") (continuingBody "anthropic/m") .pub := by
  apply (gate_sound_iff (routedRuntime "b") (matching "b") rfl rfl _ _).mpr
  intro h
  obtain ⟨-, -, -, -, -, final, hfinal, hfails⟩ := h
  have hdecorated : openrouterDecorate (continuingBody "anthropic/m") = some decoratedBody := by
    decide +kernel
  obtain rfl := Option.some.inj (hfinal.symm.trans hdecorated)
  exact absurd hfails (by decide +kernel)

/-- The body that was vetoed for its breakpoint is sent to the private provider with it. -/
theorem gate_leaves_breakpoint :
    (gate (routedRuntime "ephemeral") (continuingBody "anthropic/m") .pub).endpoint = .priv ∧
      (gate (routedRuntime "ephemeral") (continuingBody "anthropic/m") .pub).body.get?
        "cache_control" = some ephemeral ∧
      ¬ GateSound (routedRuntime "ephemeral") (matching "ephemeral")
        (continuingBody "anthropic/m") .pub := by
  have hgate : gate (routedRuntime "ephemeral") (continuingBody "anthropic/m") .pub =
      ⟨true, .object [("model", .string "local"),
        ("messages", .array [question, question, question]), ("cache_control", ephemeral)],
        .priv⟩ := by
    decide +kernel
  rw [hgate]
  refine ⟨rfl, by decide +kernel, ?_⟩
  intro hsound
  have hintact := hsound.intact
  rw [hgate] at hintact
  exact absurd (hintact rfl rfl) (by decide +kernel)

end Recursant.Compliance
