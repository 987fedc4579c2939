import Recursant.Startup.Loader
import Recursant.Startup.Lookup

/-!
# Names of an accepted configuration

The loader compares aliases, models and default models pairwise; resolution and dispatch take the first
match.  What the comparisons leave is stated as relations that know no order, and each first match is
the only one.
-/

namespace Recursant.Startup

open Gateway

variable {w : Surroundings}

/-! ## What the checks leave -/

/-- The checks of `validateProviders` that do not concern the aliases. -/
def Estate.Valid (e : Estate) : Prop := ∃ u, validateProviders e [] = .ok u

/-- The alias has the trust class of its provider. -/
def Trusted (e : Estate) (a : NamedAlias) : Prop :=
  e.trustAt a.destination.provider = some a.destination.endpoint

theorem validateAlias_eq_ok {e : Estate} {a : NamedAlias} {i : Nat} {u : Unit} :
    validateAlias e a i = .ok u ↔ Trusted e a := by
  unfold validateAlias Trusted
  rw [bind_eq_ok]
  constructor
  · rintro ⟨-, -, htrust⟩
    exact of_decide_eq_true (demand_eq_ok.mp htrust)
  · intro htrust
    obtain ⟨p, hp, -⟩ := Option.map_eq_some_iff.mp htrust
    have hlt : a.destination.provider < e.providers.length := (List.getElem?_eq_some_iff.mp hp).1
    exact ⟨(), demand_eq_ok.mpr (decide_eq_true hlt), demand_eq_ok.mpr (decide_eq_true htrust)⟩

theorem zipIdx_forM_eq_ok {α : Type} {f : α → Nat → Checked Unit} {xs : List α} {u : Unit} :
    ((xs.zipIdx).forM fun (x, i) => f x i) = .ok u ↔ ∀ i x, xs[i]? = some x → f x i = .ok () := by
  rw [forM_eq_ok]
  constructor
  · intro h i x hx
    exact h (x, i) (List.mk_mem_zipIdx_iff_getElem?.mpr hx)
  · rintro h ⟨x, i⟩ hx
    exact h i x (List.mk_mem_zipIdx_iff_getElem?.mp hx)

theorem validateProviders_eq_ok {e : Estate} {as : List NamedAlias} {u : Unit} :
    validateProviders e as = .ok u ↔ e.Valid ∧ ∀ a ∈ as, Trusted e a := by
  have hall : ∀ as : List NamedAlias, (∀ i a, as[i]? = some a → validateAlias e a i = .ok ()) ↔
      ∀ a ∈ as, Trusted e a := by
    intro as
    simp only [validateAlias_eq_ok, List.mem_iff_getElem?]
    exact ⟨fun h a ⟨i, hi⟩ => h i a hi, fun h i a hi => h a ⟨i, hi⟩⟩
  unfold Estate.Valid validateProviders
  simp only [bind_eq_ok, zipIdx_forM_eq_ok, hall]
  constructor
  · rintro ⟨u1, h1, u2, h2, u3, h3, u4, has, hdefault⟩
    exact ⟨⟨u, u1, h1, u2, h2, u3, h3, u4, fun a ha => (List.not_mem_nil ha).elim, hdefault⟩,
      has⟩
  · rintro ⟨⟨u0, u1, h1, u2, h2, u3, h3, u4, -, hdefault⟩, has⟩
    exact ⟨u1, h1, u2, h2, u3, h3, u4, has, hdefault⟩

theorem Estate.Valid.default {e : Estate} (h : e.Valid) (hdefault : e.hasPrivateDefault = true) :
    e.trustAt e.privateProvider = some .priv := by
  obtain ⟨u, h⟩ := h
  unfold validateProviders at h
  simp only [bind_eq_ok] at h
  obtain ⟨-, -, -, -, -, -, -, -, hlast⟩ := h
  have htrust := demand_eq_ok.mp hlast
  rw [hdefault] at htrust
  simpa using htrust

/-- No name or model of the two stands for different things. -/
def Compatible (a b : NamedAlias) : Prop := clashes a b = false

theorem compatible_iff {a b : NamedAlias} :
    Compatible a b ↔
      (a.name = b.destination.model ∨ a.destination.model = b.name ∨
        a.destination.model = b.destination.model) →
      a.destination.provider = b.destination.provider ∧
        a.destination.model = b.destination.model := by
  unfold Compatible clashes
  rw [Bool.eq_false_iff]
  simp only [ne_eq, Bool.and_eq_true, Bool.or_eq_true, decide_eq_true_eq, decide_not,
    Bool.not_eq_true', decide_eq_false_iff_not]
  tauto

theorem Compatible.symm {a b : NamedAlias} (h : Compatible a b) : Compatible b a := by
  rw [compatible_iff] at h ⊢
  intro hshared
  have hswap : a.name = b.destination.model ∨ a.destination.model = b.name ∨
      a.destination.model = b.destination.model := by
    rcases hshared with h1 | h2 | h3
    · exact .inr (.inl h1.symm)
    · exact .inl h2.symm
    · exact .inr (.inr h3.symm)
  exact ⟨(h hswap).1.symm, (h hswap).2.symm⟩

instance : Std.Symm Compatible := ⟨fun _ _ => Compatible.symm⟩

/-- What `distinctNames` lets pass. -/
structure Distinct (e : Estate) (as : List NamedAlias) : Prop where
  defaults : ∀ m, e.privateModel = some m → e.publicModel ≠ some m
  stays : ∀ a ∈ as, strays e a = false
  compatible : as.Pairwise Compatible

theorem distinctAlias_eq_ok {e : Estate} {as : List NamedAlias} {a : NamedAlias} {i : Nat}
    {u : Unit} :
    distinctAlias e as a i = .ok u ↔ strays e a = false ∧ ∀ b ∈ as.take i, Compatible a b := by
  unfold distinctAlias
  rw [bind_eq_ok]
  constructor
  · rintro ⟨u, hstays, hfind⟩
    refine ⟨by simpa using demand_eq_ok.mp hstays, fun b hb => ?_⟩
    split at hfind
    · next hnone => exact Bool.eq_false_iff.mpr (List.find?_eq_none.mp hnone b hb)
    · cases hfind
  · rintro ⟨hstays, hall⟩
    refine ⟨(), demand_eq_ok.mpr (by rw [hstays]; rfl), ?_⟩
    have hnone : (as.take i).find? (clashes a) = none :=
      List.find?_eq_none.mpr fun b hb => Bool.eq_false_iff.mp (hall b hb)
    rw [hnone]
    rfl

theorem distinctNames_eq_ok {e : Estate} {as : List NamedAlias} {u : Unit} :
    distinctNames e as = .ok u ↔ Distinct e as := by
  have hdefaults : (!(e.privateModel.isSome && e.privateModel = e.publicModel)) = true ↔
      ∀ m, e.privateModel = some m → e.publicModel ≠ some m := by
    cases e.privateModel with
    | none => simp
    | some m =>
        simp only [Option.isSome_some, Bool.true_and, Bool.not_eq_true', decide_eq_false_iff_not]
        exact ⟨fun h n hn hpub => h (hn.trans hpub.symm), fun h heq => h m rfl heq.symm⟩
  unfold distinctNames
  simp only [bind_eq_ok, demand_eq_ok, hdefaults, zipIdx_forM_eq_ok, distinctAlias_eq_ok]
  constructor
  · rintro ⟨-, hmodels, hall⟩
    refine ⟨hmodels, fun a ha => ?_, ?_⟩
    · obtain ⟨i, hi⟩ := List.mem_iff_getElem?.mp ha
      exact (hall i a hi).1
    · rw [List.pairwise_iff_getElem]
      intro i j hi hj hij
      have hmem : as[i] ∈ as.take j := List.mem_take_iff_getElem.mpr ⟨i, by omega, rfl⟩
      exact ((hall j _ (List.getElem?_eq_getElem hj)).2 _ hmem).symm
  · rintro ⟨hmodels, hstays, hpairs⟩
    refine ⟨(), hmodels, fun i a hi => ?_⟩
    obtain ⟨hlt, rfl⟩ := List.getElem?_eq_some_iff.mp hi
    refine ⟨hstays _ (List.getElem_mem hlt), fun b hb => ?_⟩
    obtain ⟨j, hj, rfl⟩ := List.mem_take_iff_getElem.mp hb
    exact (List.pairwise_iff_getElem.mp hpairs j i _ hlt (by omega)).symm

/-! ## Aliases from their entries -/

/-- The position of an entry is for the reasons only. -/
theorem loadAlias_index {registry : Bool} {e : Estate} {v : Json} {i : Nat} {a : NamedAlias}
    (h : loadAlias registry e v i = .ok a) (j : Nat) : loadAlias registry e v j = .ok a := by
  unfold loadAlias providerNamed providerOfEndpoint at h ⊢
  cases registry <;> simpa only [bind_eq_ok, need_eq_ok, if_true, Bool.false_eq_true, if_false] using h

/-- The aliases that the entries stand for, no name twice. -/
def Reads (registry : Bool) (e : Estate) (vs : List Json) (as : List NamedAlias) : Prop :=
  List.Forall₂ (fun v a => loadAlias registry e v 0 = .ok a) vs as ∧ (as.map (·.name)).Nodup

theorem loadAliases_eq_ok {registry : Bool} {e : Estate} {vs : List Json} {i : Nat}
    {done as : List NamedAlias} (hdone : (done.map (·.name)).Nodup) :
    loadAliases registry e vs i done = .ok as ↔
      ∃ more, as = done ++ more ∧
        List.Forall₂ (fun v a => loadAlias registry e v 0 = .ok a) vs more ∧
        (as.map (·.name)).Nodup := by
  induction vs generalizing i done with
  | nil =>
      rw [loadAliases]
      constructor
      · intro h
        cases h
        exact ⟨[], (List.append_nil _).symm, .nil, hdone⟩
      · rintro ⟨more, rfl, hall, -⟩
        cases hall
        rw [List.append_nil]
  | cons v vs ih =>
      rw [loadAliases, bind_eq_ok]
      have hfresh : ∀ a : NamedAlias, (!done.any (·.name = a.name)) = true ↔
          ((done ++ [a]).map (·.name)).Nodup := by
        intro a
        rw [List.map_append, List.map_singleton, List.nodup_append]
        simp only [Bool.not_eq_true', List.any_eq_false, decide_eq_true_eq, hdone, true_and,
          List.nodup_singleton, List.mem_map, List.mem_singleton, forall_exists_index, and_imp,
          forall_apply_eq_imp_iff₂, forall_eq, ne_eq]
      constructor
      · rintro ⟨a, ha, hrest⟩
        obtain ⟨u, hnew, hmore⟩ := bind_eq_ok.mp hrest
        obtain ⟨more, hsplit, hall, hnodup⟩ := (ih ((hfresh a).mp (demand_eq_ok.mp hnew))).mp hmore
        refine ⟨a :: more, ?_, .cons (loadAlias_index ha 0) hall, hnodup⟩
        rw [hsplit, List.append_assoc, List.singleton_append]
      · rintro ⟨more, rfl, hall, hnodup⟩
        cases hall with
        | @cons _ a _ more ha hall =>
            have hsplit : done ++ a :: more = done ++ [a] ++ more := by
              rw [List.append_assoc, List.singleton_append]
            have hnew : ((done ++ [a]).map (·.name)).Nodup := by
              rw [hsplit, List.map_append] at hnodup
              exact (List.nodup_append.mp hnodup).1
            refine ⟨a, loadAlias_index ha i, bind_eq_ok.mpr ⟨(), ?_, (ih hnew).mpr ?_⟩⟩
            · exact demand_eq_ok.mpr ((hfresh a).mpr hnew)
            · exact ⟨more, hsplit, hall, hnodup⟩

theorem loadAliases_reads {registry : Bool} {e : Estate} {vs : List Json} {as : List NamedAlias} :
    loadAliases registry e vs 0 [] = .ok as ↔ Reads registry e vs as := by
  rw [loadAliases_eq_ok (by exact List.nodup_nil)]
  constructor
  · rintro ⟨more, rfl, hall, hnodup⟩
    exact ⟨hall, hnodup⟩
  · rintro ⟨hall, hnodup⟩
    exact ⟨as, rfl, hall, hnodup⟩

/-! ## Estates -/

/-- How the two forms leave the default models. -/
structure Estate.Coherent (e : Estate) : Prop where
  privateDefault : e.privateModel.isSome = true → e.hasPrivateDefault = true
  publicDefault : ∀ m, e.publicModel = some m →
    e.publicUrl.isSome = true ∧ e.providers.map (·.trust) = [.priv, .pub]

theorem loadRegistry_coherent {root providers : Json} {e : Estate}
    (h : loadRegistry w root providers = .ok e) : e.Coherent := by
  unfold loadRegistry at h
  simp only [bind_eq_ok] at h
  obtain ⟨-, -, -, -, -, -, loaded, -, h⟩ := h
  split at h
  · cases h
    exact ⟨nofun, nofun⟩
  · obtain ⟨default, -, h⟩ := bind_eq_ok.mp h
    cases h
    exact ⟨fun _ => rfl, nofun⟩

theorem loadLegacy_coherent {root : Json} {e : Estate} (h : loadLegacy w root = .ok e) :
    e.Coherent := by
  unfold loadLegacy at h
  simp only [bind_eq_ok] at h
  obtain ⟨-, -, o, -, -, -, url, -, model, -, -, -, key, -, h⟩ := h
  split at h
  · cases h
    exact ⟨fun _ => rfl, nofun⟩
  · simp only [bind_eq_ok] at h
    obtain ⟨pub, -, adapter, -, h⟩ := h
    cases h
    exact ⟨fun _ => rfl, fun _ _ => ⟨rfl, rfl⟩⟩

theorem loadEstate_coherent {root : Json} {e : Estate} (h : loadEstate w root = .ok e) :
    e.Coherent := by
  unfold loadEstate at h
  split at h
  · exact loadRegistry_coherent h
  · exact loadLegacy_coherent h

/-! ## An accepted document -/

/-- What `load` asks of the document, and what it reads from it. -/
structure LoadedFrom (w : Surroundings) (root : Json) (r : Loaded) : Prop where
  keys : checkSection root rootKeys "config root" = .ok ()
  listen : loadListen w root = .ok r.listen
  estate : loadEstate w root = .ok r.estate
  auth : loadAuth w root = .ok r.authKey
  aliases : ∃ entries, aliasList root = .ok entries ∧
    Reads (root.get? "providers").isSome r.estate entries r.aliases
  valid : r.estate.Valid
  trusted : ∀ a ∈ r.aliases, Trusted r.estate a
  distinct : Distinct r.estate r.aliases
  limits : loadLimits root = .ok r.limits
  screening : loadCompliance root = .ok r.screening
  landing : (!r.screening.enabled || (w.gate && r.estate.hasPrivateDefault)) = true
  source : loadSource w r.estate r.authKey root = .ok r.sourceKey
  gateway : configure w (directory r.estate r.aliases r.sourceKey) (root.get? "context") =
    some r.gateway

theorem load_eq_ok {root : Json} {r : Loaded} : load w root = .ok r ↔ LoadedFrom w root r := by
  unfold load
  simp only [bind_eq_ok, loadAliases_reads, validateProviders_eq_ok, distinctNames_eq_ok,
    demand_eq_ok, need_eq_ok]
  constructor
  · rintro ⟨u1, hkeys, listen, hlisten, e, he, auth, hauth, entries, hentries, as, has, u2,
      ⟨hvalid, htrusted⟩, u3, hdistinct, limits, hlimits, screening, hscreening, u4, hlanding, source,
      hsource, gateway, hgateway, h⟩
    cases h
    exact ⟨hkeys, hlisten, he, hauth, ⟨entries, hentries, has⟩, hvalid, htrusted, hdistinct, hlimits,
      hscreening, hlanding, hsource, hgateway⟩
  · rintro ⟨hkeys, hlisten, he, hauth, ⟨entries, hentries, has⟩, hvalid, htrusted, hdistinct,
      hlimits, hscreening, hlanding, hsource, hgateway⟩
    exact ⟨(), hkeys, _, hlisten, _, he, _, hauth, entries, hentries, _, has, (),
      ⟨hvalid, htrusted⟩, (), hdistinct, _, hlimits, _, hscreening, (), hlanding, _, hsource, _,
      hgateway, rfl⟩

/-! ## Meanings -/

namespace Loaded

variable {r : Loaded}

/-- What a client name may stand for, in no order. -/
inductive Means (r : Loaded) (m : Text) : Endpoint → Text → Prop
  | automatic {g : GatewayConfig} {a : NamedAlias} : r.gateway = some g → g.autoAlias = m →
      r.aliases[g.baseline]? = some a → Means r m a.destination.endpoint a.destination.model
  | listed {a : NamedAlias} : a ∈ r.aliases → a.name = m ∨ a.destination.model = m →
      Means r m a.destination.endpoint a.destination.model
  | privateDefault : r.estate.privateModel = some m → Means r m .priv m
  | publicDefault : r.estate.publicModel = some m → Means r m .pub m

/-- The providers that a physical model may go to, in no order. -/
inductive Serves (r : Loaded) (m : Text) : Nat → Prop
  | listed {a : NamedAlias} : a ∈ r.aliases → a.destination.model = m →
      Serves r m a.destination.provider
  | privateDefault : r.estate.hasPrivateDefault = true → r.estate.privateModel = some m →
      Serves r m r.estate.privateProvider
  | publicDefault : r.estate.publicUrl.isSome = true → r.estate.publicModel = some m → Serves r m 1

/-- One name, one destination; one model, one provider. -/
structure Unambiguous (r : Loaded) : Prop where
  coherent : r.estate.Coherent
  valid : r.estate.Valid
  names : (r.aliases.map (·.name)).Nodup
  trusted : ∀ a ∈ r.aliases, Trusted r.estate a
  distinct : Distinct r.estate r.aliases
  gateway : ∀ g, r.gateway = some g → Fits (directory r.estate r.aliases r.sourceKey) g

end Loaded

theorem LoadedFrom.unambiguous {root : Json} {r : Loaded} (h : LoadedFrom w root r) :
    r.Unambiguous := by
  obtain ⟨entries, -, -, hnames⟩ := h.aliases
  exact ⟨loadEstate_coherent h.estate, h.valid, hnames, h.trusted, h.distinct,
    fun g hg => configure_fits (hg ▸ h.gateway)⟩

namespace Loaded

variable {r : Loaded}

/-! ## One destination -/

section Unambiguous

variable (hr : r.Unambiguous)

include hr

/-- Two aliases that share a name or a model share their destination. -/
theorem Unambiguous.shared {a b : NamedAlias} (ha : a ∈ r.aliases) (hb : b ∈ r.aliases) {m : Text}
    (hma : a.name = m ∨ a.destination.model = m) (hmb : b.name = m ∨ b.destination.model = m) :
    a.destination.provider = b.destination.provider ∧
      a.destination.model = b.destination.model := by
  by_cases hab : a = b
  · rw [hab]
    exact ⟨rfl, rfl⟩
  · have hcompatible : Compatible a b := hr.distinct.compatible.forall ha hb hab
    refine compatible_iff.mp hcompatible ?_
    rcases hma with hma | hma <;> rcases hmb with hmb | hmb
    · exact absurd (List.inj_on_of_nodup_map hr.names ha hb (hma.trans hmb.symm)) hab
    · exact .inl (hma.trans hmb.symm)
    · exact .inr (.inl (hma.trans hmb.symm))
    · exact .inr (.inr (hma.trans hmb.symm))

omit hr in
/-- An alias with the name of a default model that it does not stray from stands for it. -/
theorem stands_for {a : NamedAlias} {default : Option Text} {m : Text} {elsewhere : Bool}
    (h : (default.any fun m => (decide (a.name = m) || decide (a.destination.model = m)) &&
      (elsewhere || decide (a.destination.model ≠ m))) = false)
    (hma : a.name = m ∨ a.destination.model = m) (hm : default = some m) :
    elsewhere = false ∧ a.destination.model = m := by
  have hnames : (decide (a.name = m) || decide (a.destination.model = m)) = true := by
    simpa using hma
  rw [hm, Option.any_some, hnames, Bool.true_and, Bool.or_eq_false_iff] at h
  simpa using h

theorem Unambiguous.atPrivate {a : NamedAlias} (ha : a ∈ r.aliases) {m : Text}
    (hma : a.name = m ∨ a.destination.model = m) (hm : r.estate.privateModel = some m) :
    a.destination.provider = r.estate.privateProvider ∧ a.destination.model = m := by
  have hstays := (Bool.or_eq_false_iff.mp (hr.distinct.stays a ha)).1
  simpa using stands_for hstays hma hm

theorem Unambiguous.atPublic {a : NamedAlias} (ha : a ∈ r.aliases) {m : Text}
    (hma : a.name = m ∨ a.destination.model = m) (hm : r.estate.publicModel = some m) :
    a.destination.endpoint = .pub ∧ a.destination.model = m := by
  have hstays := (Bool.or_eq_false_iff.mp (hr.distinct.stays a ha)).2
  simpa using stands_for hstays hma hm

theorem Unambiguous.endpoint {a : NamedAlias} (ha : a ∈ r.aliases) {e : Endpoint}
    (he : r.estate.trustAt a.destination.provider = some e) : a.destination.endpoint = e :=
  Option.some.inj ((hr.trusted a ha).symm.trans he)

theorem Unambiguous.privateTrust {m : Text} (hm : r.estate.privateModel = some m) :
    r.estate.trustAt r.estate.privateProvider = some .priv :=
  hr.valid.default (hr.coherent.privateDefault (by rw [hm]; rfl))

/-- The alias name of the gateway means nothing else. -/
theorem Unambiguous.automatic_only {g : GatewayConfig} (hg : r.gateway = some g) :
    r.estate.privateModel ≠ some g.autoAlias ∧ r.estate.publicModel ≠ some g.autoAlias ∧
      ∀ a ∈ r.aliases, ¬(a.name = g.autoAlias ∨ a.destination.model = g.autoAlias) := by
  have hfree := (hr.gateway g hg).free
  unfold Directory.taken directory at hfree
  simp only [Bool.or_eq_false_iff, decide_eq_false_iff_not, List.any_eq_false, Bool.or_eq_true,
    decide_eq_true_eq] at hfree
  exact ⟨hfree.1.1, hfree.1.2, hfree.2⟩

theorem Unambiguous.means {m : Text} {e e' : Endpoint} {p p' : Text} (h : Means r m e p)
    (h' : Means r m e' p') : e = e' ∧ p = p' := by
  -- a name of the gateway has its one meaning; the others are compared pairwise
  have hauto : ∀ {g : GatewayConfig} {a : NamedAlias}, r.gateway = some g → g.autoAlias = m →
      r.aliases[g.baseline]? = some a → ∀ {e p}, Means r m e p →
      e = a.destination.endpoint ∧ p = a.destination.model := by
    intro g a hg hname ha e p hmeans
    obtain ⟨hpriv, hpub, hlisted⟩ := hr.automatic_only hg
    cases hmeans with
    | automatic hg' _ ha' =>
        rw [hg] at hg'
        cases hg'
        rw [ha] at ha'
        cases ha'
        exact ⟨rfl, rfl⟩
    | listed hb hmb => exact absurd (hname ▸ hmb) (hlisted _ hb)
    | privateDefault hm => exact absurd (hname ▸ hm) hpriv
    | publicDefault hm => exact absurd (hname ▸ hm) hpub
  have hpriv : ∀ {a : NamedAlias}, a ∈ r.aliases → a.name = m ∨ a.destination.model = m →
      r.estate.privateModel = some m → a.destination.endpoint = .priv ∧ a.destination.model = m := by
    intro a ha hma hm
    obtain ⟨hprovider, hmodel⟩ := hr.atPrivate ha hma hm
    exact ⟨hr.endpoint ha (hprovider ▸ hr.privateTrust hm), hmodel⟩
  cases h with
  | automatic hg hname ha => exact (hauto hg hname ha h').imp Eq.symm Eq.symm
  | listed ha hma =>
      cases h' with
      | automatic hg hname hb => exact hauto hg hname hb (.listed ha hma)
      | listed hb hmb =>
          obtain ⟨hprovider, hmodel⟩ := hr.shared ha hb hma hmb
          exact ⟨hr.endpoint ha (hprovider ▸ hr.trusted _ hb), hmodel⟩
      | privateDefault hm => exact hpriv ha hma hm
      | publicDefault hm => exact hr.atPublic ha hma hm
  | privateDefault hm =>
      cases h' with
      | automatic hg hname hb => exact hauto hg hname hb (.privateDefault hm)
      | listed hb hmb => exact (hpriv hb hmb hm).imp Eq.symm Eq.symm
      | privateDefault _ => exact ⟨rfl, rfl⟩
      | publicDefault hm' => exact absurd hm' (hr.distinct.defaults m hm)
  | publicDefault hm =>
      cases h' with
      | automatic hg hname hb => exact hauto hg hname hb (.publicDefault hm)
      | listed hb hmb => exact (hr.atPublic hb hmb hm).imp Eq.symm Eq.symm
      | privateDefault hm' => exact absurd hm (hr.distinct.defaults m hm')
      | publicDefault _ => exact ⟨rfl, rfl⟩

/-! ## One provider -/

theorem Unambiguous.publicProvider {m : Text} (hm : r.estate.publicModel = some m) {i : Nat}
    (hi : r.estate.trustAt i = some .pub) : i = 1 := by
  obtain ⟨-, hproviders⟩ := hr.coherent.publicDefault m hm
  have hget : (r.estate.providers.map (·.trust))[i]? = some .pub := by
    rw [List.getElem?_map]
    exact hi
  rw [hproviders] at hget
  match i with
  | 0 => cases hget
  | 1 => rfl
  | _ + 2 => cases hget

theorem Unambiguous.serves {m : Text} {i j : Nat} (h : Serves r m i) (h' : Serves r m j) : i = j := by
  have hpublic : ∀ {a : NamedAlias}, a ∈ r.aliases → a.destination.model = m →
      r.estate.publicModel = some m → a.destination.provider = 1 := by
    intro a ha hma hm
    have hendpoint := (hr.atPublic ha (.inr hma) hm).1
    exact hr.publicProvider hm (hendpoint ▸ hr.trusted a ha)
  cases h with
  | listed ha hma =>
      cases h' with
      | listed hb hmb => exact (hr.shared ha hb (.inr hma) (.inr hmb)).1
      | privateDefault _ hm => exact (hr.atPrivate ha (.inr hma) hm).1
      | publicDefault _ hm => exact hpublic ha hma hm
  | privateDefault _ hm =>
      cases h' with
      | listed hb hmb => exact (hr.atPrivate hb (.inr hmb) hm).1.symm
      | privateDefault _ _ => rfl
      | publicDefault _ hm' => exact absurd hm' (hr.distinct.defaults m hm)
  | publicDefault _ hm =>
      cases h' with
      | listed hb hmb => exact (hpublic hb hmb hm).symm
      | privateDefault _ hm' => exact absurd hm (hr.distinct.defaults m hm')
      | publicDefault _ _ => rfl

/-! ## The first match is the only one -/

omit hr in
theorem automatic_eq_some {m : Text} {t : Route} :
    r.automatic m = some t ↔ ∃ g a, r.gateway = some g ∧ g.autoAlias = m ∧
      r.aliases[g.baseline]? = some a ∧
      t = ⟨a.destination.endpoint, a.destination.model, true⟩ := by
  unfold automatic
  cases r.gateway with
  | none => exact ⟨nofun, fun ⟨_, _, hg, _⟩ => nomatch hg⟩
  | some g =>
      dsimp only
      split
      · next hname =>
          rw [Option.map_eq_some_iff]
          constructor
          · rintro ⟨a, ha, rfl⟩
            exact ⟨g, a, rfl, hname, ha, rfl⟩
          · rintro ⟨g', a, hg, -, ha, rfl⟩
            cases hg
            exact ⟨a, ha, rfl⟩
      · next hname =>
          refine ⟨nofun, ?_⟩
          rintro ⟨g', a, hg, hname', -⟩
          cases hg
          exact absurd hname' hname

omit hr in
theorem route_means {m : Text} {t : Route} (h : r.route m = some t) :
    Means r m t.endpoint t.physical := by
  unfold route at h
  rcases Option.or_eq_some_iff.mp h with hauto | ⟨-, h⟩
  · obtain ⟨g, a, hg, hname, ha, rfl⟩ := automatic_eq_some.mp hauto
    exact .automatic hg hname ha
  · split at h
    · next a hfind =>
        cases h
        have hmatch := List.find?_some hfind
        simp only [Bool.or_eq_true, decide_eq_true_eq] at hmatch
        exact .listed (List.mem_of_find?_eq_some hfind) (hmatch.imp Eq.symm Eq.symm)
    · split at h
      · next hm =>
          cases h
          exact .privateDefault hm
      · split at h
        · next hm =>
            cases h
            exact .publicDefault hm
        · cases h

omit hr in
theorem means_routes {m : Text} {e : Endpoint} {p : Text} (h : Means r m e p) :
    ∃ t, r.route m = some t := by
  rw [← Option.isSome_iff_exists]
  by_contra hnone
  unfold route at hnone
  rw [Option.not_isSome_iff_eq_none, Option.or_eq_none_iff] at hnone
  obtain ⟨hauto, hrest⟩ := hnone
  cases h with
  | automatic hg hname ha => exact nomatch hauto.symm.trans (automatic_eq_some.mpr ⟨_, _, hg, hname, ha, rfl⟩)
  | listed ha hma =>
      split at hrest
      · cases hrest
      · next hfind =>
          have hmiss := List.find?_eq_none.mp hfind _ ha
          simp only [Bool.or_eq_true, decide_eq_true_eq] at hmiss
          exact hmiss (hma.imp Eq.symm Eq.symm)
  | privateDefault hm =>
      split at hrest
      · cases hrest
      · rw [if_pos hm] at hrest
        cases hrest
  | publicDefault hm =>
      split at hrest
      · cases hrest
      · split at hrest
        · cases hrest
        · cases hrest

/-- The alias of the gateway alone is automatic. -/
theorem Unambiguous.route_automatic {m : Text} {t : Route} (h : r.route m = some t) :
    t.automatic = r.gateway.any (·.autoAlias = m) := by
  unfold route at h
  rcases Option.or_eq_some_iff.mp h with hauto | ⟨hauto, h⟩
  · obtain ⟨g, a, hg, hname, -, rfl⟩ := automatic_eq_some.mp hauto
    rw [hg, Option.any_some]
    exact (decide_eq_true hname).symm
  · have hother : r.gateway.any (·.autoAlias = m) = false := by
      cases hg : r.gateway with
      | none => rfl
      | some g =>
          rw [Option.any_some, decide_eq_false_iff_not]
          intro hname
          obtain ⟨a, ha⟩ := (hr.gateway g hg).baseline
          exact nomatch hauto.symm.trans (automatic_eq_some.mpr ⟨g, a, hg, hname, ha, rfl⟩)
    rw [hother]
    split at h
    · cases h
      rfl
    · split at h
      · cases h
        rfl
      · split at h
        · cases h
          rfl
        · cases h

omit hr in
theorem served_serves {m : Text} {i : Nat} (h : r.served m = some i) : Serves r m i := by
  unfold served at h
  split at h
  · next a hfind =>
      cases h
      have hmodel := List.find?_some hfind
      exact .listed (List.mem_of_find?_eq_some hfind) (of_decide_eq_true hmodel)
  · split at h
    · next hmodel =>
        cases h
        rw [Bool.and_eq_true, decide_eq_true_eq] at hmodel
        exact .privateDefault hmodel.1 hmodel.2
    · split at h
      · next hmodel =>
          cases h
          rw [Bool.and_eq_true, decide_eq_true_eq] at hmodel
          exact .publicDefault hmodel.1 hmodel.2
      · cases h

omit hr in
theorem serves_served {m : Text} {i : Nat} (h : Serves r m i) : ∃ j, r.served m = some j := by
  unfold served
  split
  · next a _ => exact ⟨_, rfl⟩
  · next hfind =>
      split
      · exact ⟨_, rfl⟩
      · next hpriv =>
          split
          · exact ⟨_, rfl⟩
          · next hpub =>
              rw [Bool.and_eq_true, decide_eq_true_eq] at hpriv hpub
              cases h with
              | listed ha hma => exact absurd (decide_eq_true hma) (List.find?_eq_none.mp hfind _ ha)
              | privateDefault hdefault hm => exact absurd ⟨hdefault, hm⟩ hpriv
              | publicDefault hurl hm => exact absurd ⟨hurl, hm⟩ hpub

theorem Unambiguous.served_eq_some {m : Text} {i : Nat} : r.served m = some i ↔ Serves r m i := by
  refine ⟨served_serves, fun h => ?_⟩
  obtain ⟨j, hj⟩ := serves_served h
  rw [hj, hr.serves (served_serves hj) h]

theorem Unambiguous.dispatchProvider_eq_some {trust : Endpoint} {m : Text} {i : Nat} :
    r.dispatchProvider trust (some m) = some i ↔
      Serves r m i ∧ r.estate.trustAt i = some trust := by
  unfold dispatchProvider
  rw [Option.bind_some, Option.filter_eq_some_iff, hr.served_eq_some, decide_eq_true_eq]

/-- What a name stands for is served, on its own trust class. -/
theorem Unambiguous.means_served {m : Text} {e : Endpoint} {p : Text} (h : Means r m e p) :
    ∃ i, Serves r p i ∧ r.estate.trustAt i = some e := by
  cases h with
  | automatic _ _ ha =>
      have hmem := List.mem_of_getElem? ha
      exact ⟨_, .listed hmem rfl, hr.trusted _ hmem⟩
  | listed ha _ => exact ⟨_, .listed ha rfl, hr.trusted _ ha⟩
  | privateDefault hm =>
      exact ⟨_, .privateDefault (hr.coherent.privateDefault (by rw [hm]; rfl)) hm, hr.privateTrust hm⟩
  | publicDefault hm =>
      obtain ⟨hurl, hproviders⟩ := hr.coherent.publicDefault m hm
      refine ⟨1, .publicDefault hurl hm, ?_⟩
      unfold Estate.trustAt
      rw [← List.getElem?_map, hproviders]
      rfl

/-- The provider of a pair, and the only one that serves its model. -/
def Only (r : Loaded) (e : Endpoint) (p : Text) (i : Nat) : Prop :=
  r.dispatchProvider e (some p) = some i ∧ r.estate.trustAt i = some e ∧ ∀ j, Serves r p j → j = i

theorem Unambiguous.only {e : Endpoint} {p : Text} {i : Nat} (h : Serves r p i)
    (he : r.estate.trustAt i = some e) : Only r e p i :=
  ⟨hr.dispatchProvider_eq_some.mpr ⟨h, he⟩, he, fun _ hj => hr.serves hj h⟩

end Unambiguous

/-! ## The same names -/

/-- The two runtimes resolve a name alike, and dispatch a model to the same position. -/
structure Alike (r r' : Loaded) : Prop where
  means : ∀ m e p, Means r m e p ↔ Means r' m e p
  automatic : ∀ m, r.gateway.any (·.autoAlias = m) = r'.gateway.any (·.autoAlias = m)
  serves : ∀ m i, Serves r m i ↔ Serves r' m i
  trustAt : ∀ i, r'.estate.trustAt i = r.estate.trustAt i

/-- The gateways differ in positions only. -/
def TwinGateways (r r' : Loaded) : Prop :=
  Option.Rel (TwinGateway (directory r.estate r.aliases r.sourceKey)
    (directory r'.estate r'.aliases r'.sourceKey)) r.gateway r'.gateway

theorem TwinGateways.automatic {r r' : Loaded} (h : TwinGateways r r') (m : Text) :
    r.gateway.any (·.autoAlias = m) = r'.gateway.any (·.autoAlias = m) := by
  unfold TwinGateways at h
  generalize r.gateway = gateway, r'.gateway = gateway' at h ⊢
  cases h with
  | none => rfl
  | some htwin =>
      obtain ⟨j, cs, -, -, rfl⟩ := htwin
      rfl

theorem TwinGateways.means {r r' : Loaded} (h : TwinGateways r r') {m : Text} {e : Endpoint}
    {p : Text} :
    (∃ g a, r.gateway = some g ∧ g.autoAlias = m ∧ r.aliases[g.baseline]? = some a ∧
      a.destination.endpoint = e ∧ a.destination.model = p) ↔
    ∃ g a, r'.gateway = some g ∧ g.autoAlias = m ∧ r'.aliases[g.baseline]? = some a ∧
      a.destination.endpoint = e ∧ a.destination.model = p := by
  unfold TwinGateways at h
  generalize r.gateway = gateway, r'.gateway = gateway' at h ⊢
  cases h with
  | none => exact iff_of_false (fun ⟨_, _, hg, _⟩ => nomatch hg) (fun ⟨_, _, hg, _⟩ => nomatch hg)
  | @some g g' htwin =>
      obtain ⟨j, cs, ⟨name, hi, hj, hsame⟩, -, rfl⟩ := htwin
      unfold Directory.destination directory at hsame
      dsimp only at hsame
      constructor
      · rintro ⟨g', a, hg, hname, ha, he, hp⟩
        cases hg
        rw [ha, Option.map_some] at hsame
        obtain ⟨b, hb, hdestination⟩ := Option.map_eq_some_iff.mp hsame
        exact ⟨_, b, rfl, hname, hb, hdestination ▸ he, hdestination ▸ hp⟩
      · rintro ⟨g', b, hg, hname, hb, he, hp⟩
        cases hg
        dsimp only at hb
        rw [hb, Option.map_some] at hsame
        obtain ⟨a, ha, hdestination⟩ := Option.map_eq_some_iff.mp hsame.symm
        exact ⟨_, a, rfl, hname, ha, hdestination ▸ he, hdestination ▸ hp⟩

/-- The three kinds of meaning apart. -/
theorem means_iff {r : Loaded} {m : Text} {e : Endpoint} {p : Text} :
    Means r m e p ↔
      (∃ g a, r.gateway = some g ∧ g.autoAlias = m ∧ r.aliases[g.baseline]? = some a ∧
        a.destination.endpoint = e ∧ a.destination.model = p) ∨
      (∃ a ∈ r.aliases, (a.name = m ∨ a.destination.model = m) ∧ a.destination.endpoint = e ∧
        a.destination.model = p) ∨
      (r.estate.privateModel = some m ∧ e = .priv ∧ p = m) ∨
      r.estate.publicModel = some m ∧ e = .pub ∧ p = m := by
  constructor
  · intro h
    cases h with
    | automatic hg hname ha => exact .inl ⟨_, _, hg, hname, ha, rfl, rfl⟩
    | listed ha hma => exact .inr (.inl ⟨_, ha, hma, rfl, rfl⟩)
    | privateDefault hm => exact .inr (.inr (.inl ⟨hm, rfl, rfl⟩))
    | publicDefault hm => exact .inr (.inr (.inr ⟨hm, rfl, rfl⟩))
  · rintro (⟨g, a, hg, hname, ha, rfl, rfl⟩ | ⟨a, ha, hma, rfl, rfl⟩ | ⟨hm, rfl, rfl⟩ | ⟨hm, rfl, rfl⟩)
    · exact .automatic hg hname ha
    · exact .listed ha hma
    · exact .privateDefault hm
    · exact .publicDefault hm

theorem serves_iff {r : Loaded} {m : Text} {i : Nat} :
    Serves r m i ↔
      (∃ a ∈ r.aliases, a.destination.model = m ∧ a.destination.provider = i) ∨
      (r.estate.hasPrivateDefault = true ∧ r.estate.privateModel = some m ∧
        r.estate.privateProvider = i) ∨
      r.estate.publicUrl.isSome = true ∧ r.estate.publicModel = some m ∧ i = 1 := by
  constructor
  · intro h
    cases h with
    | listed ha hma => exact .inl ⟨_, ha, hma, rfl⟩
    | privateDefault hdefault hm => exact .inr (.inl ⟨hdefault, hm, rfl⟩)
    | publicDefault hurl hm => exact .inr (.inr ⟨hurl, hm, rfl⟩)
  · rintro (⟨a, ha, hma, rfl⟩ | ⟨hdefault, hm, rfl⟩ | ⟨hurl, hm, rfl⟩)
    · exact .listed ha hma
    · exact .privateDefault hdefault hm
    · exact .publicDefault hurl hm

theorem Alike.route {r r' : Loaded} (hr : r.Unambiguous) (hr' : r'.Unambiguous) (h : Alike r r')
    (m : Text) : r'.route m = r.route m := by
  have hsome : ∀ t, r.route m = some t → r'.route m = some t := by
    intro t ht
    have hmeans := (h.means m _ _).mp (route_means ht)
    obtain ⟨t', ht'⟩ := means_routes hmeans
    obtain ⟨he, hp⟩ := hr'.means (route_means ht') hmeans
    have hauto : t'.automatic = t.automatic := by
      rw [hr'.route_automatic ht', hr.route_automatic ht, h.automatic]
    rw [ht']
    cases t
    cases t'
    cases he
    cases hp
    cases hauto
    rfl
  cases hroute : r.route m with
  | some t => exact hsome t hroute
  | none =>
      cases hroute' : r'.route m with
      | none => rfl
      | some t =>
          obtain ⟨t', ht'⟩ := means_routes ((h.means m _ _).mpr (route_means hroute'))
          exact nomatch hroute.symm.trans ht'

theorem Alike.dispatchProvider {r r' : Loaded} (hr : r.Unambiguous) (hr' : r'.Unambiguous)
    (h : Alike r r') (trust : Endpoint) (m : Text) :
    r'.dispatchProvider trust (some m) = r.dispatchProvider trust (some m) := by
  refine Option.ext fun i => ?_
  rw [hr'.dispatchProvider_eq_some, hr.dispatchProvider_eq_some, h.serves, h.trustAt]

end Loaded

/-! ## Order -/

/-- The sections beside the providers and the aliases. -/
structure SameSections (root root' : Json) : Prop where
  listen : root'.get? "listen" = root.get? "listen"
  auth : root'.get? "auth" = root.get? "auth"
  limits : root'.get? "limits" = root.get? "limits"
  compliance : root'.get? "compliance" = root.get? "compliance"
  context : root'.get? "context" = root.get? "context"

namespace SameSections

variable {root root' : Json} (h : SameSections root root')

include h

theorem loadListen_eq (w : Surroundings) : loadListen w root' = loadListen w root := by
  unfold loadListen
  rw [h.listen]

theorem loadAuth_eq (w : Surroundings) : loadAuth w root' = loadAuth w root := by
  unfold loadAuth
  rw [h.auth]

theorem loadLimits_eq : loadLimits root' = loadLimits root := by
  unfold loadLimits
  rw [h.limits]

theorem loadCompliance_eq : loadCompliance root' = loadCompliance root := by
  unfold loadCompliance
  rw [h.compliance]

theorem loadSource_eq (w : Surroundings) {e e' : Estate}
    (he : e'.hasPrivateDefault = e.hasPrivateDefault) (key : Text) :
    loadSource w e' key root' = loadSource w e key root := by
  unfold loadSource
  rw [h.context, he]

end SameSections

theorem aliasList_eq_ok {root : Json} {entries : List Json} :
    aliasList root = .ok entries ↔
      root.get? "aliases" = some (.array entries) ∧ entries.length ≤ maxAliases := by
  unfold aliasList
  rw [bind_eq_ok]
  constructor
  · rintro ⟨u, hsize, h⟩
    have hok := demand_eq_ok.mp hsize
    cases haliases : root.get? "aliases" with
    | none =>
        rw [haliases] at hok
        cases hok
    | some o =>
        rw [haliases] at hok h
        cases o with
        | array elements =>
            cases h
            exact ⟨rfl, of_decide_eq_true hok⟩
        | _ => cases hok
  · rintro ⟨haliases, hlength⟩
    rw [haliases]
    exact ⟨(), demand_eq_ok.mpr (decide_eq_true hlength), rfl⟩

/-- A document with its aliases in another order. -/
structure Reordered (root root' : Json) : Prop where
  exchanged : ∃ entries entries', root.get? "aliases" = some (.array entries) ∧
    entries.Perm entries' ∧ root.set? "aliases" (some (.array entries')) = some root'

theorem Reordered.get? {root root' : Json} (h : Reordered root root') {k : Text}
    (hk : k ≠ text "aliases") : root'.get? k = root.get? k := by
  obtain ⟨entries, entries', -, -, hset⟩ := h.exchanged
  rw [Json.get?_set? hset, if_neg hk]

theorem Reordered.sections {root root' : Json} (h : Reordered root root') :
    SameSections root root' :=
  ⟨h.get? (by decide), h.get? (by decide), h.get? (by decide), h.get? (by decide),
    h.get? (by decide)⟩

theorem Reordered.keys {root root' : Json} (h : Reordered root root') {allowed name : Text} {u : Unit}
    (hkeys : checkSection root allowed name = .ok u) : checkSection root' allowed name = .ok u := by
  obtain ⟨members, rfl, hall⟩ := checkSection_eq_ok.mp hkeys
  obtain ⟨entries, entries', haliases, -, hset⟩ := h.exchanged
  cases hset
  refine checkSection_eq_ok.mpr ⟨_, rfl, ?_⟩
  have hin : text "aliases" ∈ members.map Prod.fst := by
    by_contra hnot
    have hnone : members.lookup (text "aliases") = none :=
      List.lookup_eq_none_iff.mpr fun member hmember => by
        have hne : text "aliases" ≠ member.1 := fun heq =>
          hnot (List.mem_map.mpr ⟨member, hmember, heq.symm⟩)
        simpa using hne
    cases hnone.symm.trans haliases
  rw [Json.setMember_keys, if_pos hin]
  exact hall

theorem Reordered.estate {root root' : Json} (h : Reordered root root') (w : Surroundings) :
    loadEstate w root' = loadEstate w root := by
  unfold loadEstate loadRegistry loadLegacy
  rw [h.get? (k := "providers") (by decide), h.get? (k := "private") (by decide),
    h.get? (k := "public") (by decide), h.get? (k := "private_default") (by decide)]

theorem Distinct.perm {e : Estate} {as as' : List NamedAlias} (h : Distinct e as)
    (hperm : as.Perm as') : Distinct e as' :=
  ⟨h.defaults, fun a ha => h.stays a (hperm.mem_iff.mpr ha),
    (hperm.pairwise_iff Compatible.symm).mp h.compatible⟩

theorem directory_extends_perm {e : Estate} {as as' : List NamedAlias} {key : Option Text}
    (hperm : as.Perm as') (hnames : (as'.map (·.name)).Nodup) :
    (directory e as key).Extends (directory e as' key) := by
  refine Directory.extends_of_mem (fun a ha => hperm.mem_iff.mp ha) hnames (fun name => ?_) rfl rfl rfl
    rfl
  unfold Directory.taken directory
  exact congrArg (_ || ·) (hperm.symm.any_eq)

/-- Another order of the aliases is accepted as well, and nothing resolves to anything else. -/
theorem LoadedFrom.reorder {root root' : Json} {r : Loaded} (h : LoadedFrom w root r)
    (hroot : Reordered root root') : ∃ r', LoadedFrom w root' r' ∧ Loaded.Alike r r' := by
  obtain ⟨entries, hentries, hall, hnames⟩ := h.aliases
  obtain ⟨hlist, hlength⟩ := aliasList_eq_ok.mp hentries
  obtain ⟨found, entries', hfound, hperm, hset⟩ := hroot.exchanged
  cases hfound.symm.trans hlist
  obtain ⟨as', hall', has⟩ := List.perm_comp_forall₂ hperm.symm hall
  have hnames' : (as'.map (·.name)).Nodup := (has.map (·.name)).nodup_iff.mpr hnames
  obtain ⟨g', hg, hgateway⟩ :=
    configure_extends (directory_extends_perm has.symm hnames') h.gateway
  have hlist' : aliasList root' = .ok entries' := by
    refine aliasList_eq_ok.mpr ⟨?_, hperm.length_eq ▸ hlength⟩
    rw [Json.get?_set? hset, if_pos rfl]
  refine ⟨{ r with aliases := as', gateway := g' }, ?_, ?_⟩
  · refine ⟨hroot.keys h.keys, ?_, ?_, ?_, ⟨entries', hlist', ?_, hnames'⟩, h.valid,
      fun a ha => h.trusted a (has.mem_iff.mp ha), h.distinct.perm has.symm, ?_, ?_, h.landing, ?_, ?_⟩
    · rw [hroot.sections.loadListen_eq]
      exact h.listen
    · rw [hroot.estate]
      exact h.estate
    · rw [hroot.sections.loadAuth_eq]
      exact h.auth
    · rw [hroot.get? (by decide)]
      exact hall'
    · rw [hroot.sections.loadLimits_eq]
      exact h.limits
    · rw [hroot.sections.loadCompliance_eq]
      exact h.screening
    · rw [hroot.sections.loadSource_eq w rfl]
      exact h.source
    · rw [hroot.sections.context]
      exact hgateway
  · have hmem : ∀ a, a ∈ r.aliases ↔ a ∈ as' := fun a => has.symm.mem_iff
    have htwins : Loaded.TwinGateways r { r with aliases := as', gateway := g' } := hg
    refine ⟨fun m e p => ?_, htwins.automatic, fun m i => ?_, fun _ => rfl⟩
    · rw [Loaded.means_iff, Loaded.means_iff, htwins.means]
      simp only [hmem]
    · rw [Loaded.serves_iff, Loaded.serves_iff]
      simp only [hmem]

/-! ## Every accepted document -/

/-- A name that resolves means one thing, whatever the order of the aliases; what it means is served by
one provider, of its trust class; so is every candidate of the gateway and its private redirect. -/
theorem names_dispatch_uniquely {root : Json} {r : Loaded} (h : load w root = .ok r) :
    (∀ m t, r.route m = some t →
      (∀ e p, r.Means m e p ↔ e = t.endpoint ∧ p = t.physical) ∧
        ∃ i, r.Only t.endpoint t.physical i) ∧
    (∀ m e p, r.Means m e p → ∃ t, r.route m = some t) ∧
    (∀ root', Reordered root root' → ∃ r', load w root' = .ok r' ∧
      ∀ m, r'.route m = r.route m ∧
        ∀ trust, r'.dispatchProvider trust (some m) = r.dispatchProvider trust (some m)) ∧
    (∀ g, r.gateway = some g → ∀ c ∈ g.candidates,
      ∃ i, r.Only c.destination.endpoint c.destination.model i) ∧
    ∀ m, r.estate.privateModel = some m → r.Only .priv m r.estate.privateProvider := by
  have hloaded := load_eq_ok.mp h
  have hr := hloaded.unambiguous
  refine ⟨fun m t ht => ⟨fun e p => ⟨fun hmeans => hr.means hmeans (Loaded.route_means ht), ?_⟩, ?_⟩,
    fun m e p => Loaded.means_routes, fun root' hroot => ?_, fun g hg c hc => ?_, fun m hm => ?_⟩
  · rintro ⟨rfl, rfl⟩
    exact Loaded.route_means ht
  · obtain ⟨i, hserves, htrust⟩ := hr.means_served (Loaded.route_means ht)
    exact ⟨i, hr.only hserves htrust⟩
  · obtain ⟨r', hloaded', halike⟩ := hloaded.reorder hroot
    exact ⟨r', load_eq_ok.mpr hloaded', fun m => ⟨halike.route hr hloaded'.unambiguous m,
      fun trust => halike.dispatchProvider hr hloaded'.unambiguous trust m⟩⟩
  · obtain ⟨a, ha, hdestination⟩ := Option.map_eq_some_iff.mp ((hr.gateway g hg).candidates c hc)
    have hmem := List.mem_of_getElem? ha
    rw [← hdestination]
    exact ⟨_, hr.only (.listed hmem rfl) (hr.trusted a hmem)⟩
  · have hdefault := hr.coherent.privateDefault (by rw [hm]; rfl)
    exact hr.only (.privateDefault hdefault hm) (hr.privateTrust hm)

/-- A host with every variable set, and the two URLs of the document below. -/
def sampleSurroundings : Surroundings where
  getenv := fun name => some (text "value of " ++ name)
  curl := fun url =>
    if url = text "http://gx10:8888/v1" then some ⟨text "http", text "gx10", false⟩
    else if url = text "https://openrouter.ai/api/v1" then
      some ⟨text "https", text "openrouter.ai", false⟩
    else none
  ipv4 := fun host => host = text "127.0.0.1"
  tailnet := none
  efficiency := fun _ => none
  prompt := fun _ => none
  secretsOptional := false
  test := false
  gate := true
  judge := false

def sampleCandidate (name : Text) : Json :=
  .object [("alias", .string name), ("quality_evidence", .string "q"),
    ("qualified_tasks", .array []), ("context_limit", .integer 1000),
    ("expected_task_cost", .integer 1)]

def sampleDocument : Json :=
  .object [("listen", .object [("host", .string "127.0.0.1"), ("port", .integer 8080)]),
    ("providers", .array [
      .object [("name", .string "gx10"), ("trust", .string "private"),
        ("url", .string "http://gx10:8888/v1"), ("adapter", .string "openai-compatible")],
      .object [("name", .string "openrouter"), ("trust", .string "public"),
        ("url", .string "https://openrouter.ai/api/v1"), ("key_env", .string "OPENROUTER_API_KEY"),
        ("adapter", .string "openrouter")]]),
    ("private_default", .object [("provider", .string "gx10"), ("model", .string "glm")]),
    ("auth", .object [("api_key_env", .string "RECURSANT_API_KEY")]),
    ("aliases", .array [
      .object [("from", .string "baseline"), ("provider", .string "openrouter"),
        ("model", .string "sonnet")],
      .object [("from", .string "local"), ("provider", .string "gx10"), ("model", .string "glm")]]),
    ("context", .object [("mode", .string "active"), ("tenant", .string "t"),
      ("project", .string "p"), ("auto_alias", .string "auto"), ("baseline_alias", .string "baseline"),
      ("ttl_ms", .integer 60000), ("source_key_env", .string "SOURCE_KEY"),
      ("candidates", .array [sampleCandidate "baseline", sampleCandidate "local"])])]

theorem names_dispatch_uniquely_sample :
    ∃ r, load sampleSurroundings sampleDocument = .ok r ∧
      (∃ t, r.route (text "auto") = some t) ∧
      ∀ m t, r.route m = some t → ∃ i, r.Only t.endpoint t.physical i := by
  have hauto : ((load sampleSurroundings sampleDocument).toOption.bind (·.route (text "auto"))).isSome
      = true := by decide +kernel
  cases hload : load sampleSurroundings sampleDocument with
  | error reason =>
      rw [hload] at hauto
      cases hauto
  | ok r =>
      rw [hload] at hauto
      exact ⟨r, rfl, Option.isSome_iff_exists.mp hauto,
        fun m t ht => ((names_dispatch_uniquely hload).1 m t ht).2⟩

/-! ## The configuration of the request path -/

namespace Loaded

/-- What the gate and the gateway read of a loaded runtime. -/
def config (r : Loaded) : Config where
  aliases := r.aliases.map (·.destination)
  providers := r.estate.providers.map fun p => ⟨p.trust, p.adapter⟩
  hasPrivateDefault := r.estate.hasPrivateDefault
  privateProvider := r.estate.privateProvider
  privateModel := r.estate.privateModel
  publicUrl := r.estate.publicUrl
  publicModel := r.estate.publicModel

/-- The provider of the request path is the one at the dispatched position. -/
theorem dispatchProvider_config (r : Loaded) (trust : Endpoint) (model : Option Text) :
    Recursant.dispatchProvider r.config trust model =
      (r.dispatchProvider trust model).bind (r.config.providers[·]?) := by
  cases model with
  | none => rfl
  | some m =>
      have hfind : r.config.aliases.find? (·.model = m) =
          (r.aliases.find? (·.destination.model = m)).map (·.destination) := List.find?_map
      have hserved : (((r.config.aliases.find? (·.model = m)).map (·.provider)).or
          ((if r.config.hasPrivateDefault && r.config.privateModel = some m then
              some r.config.privateProvider else none).or
            (if r.config.publicUrl.isSome && r.config.publicModel = some m then some 1 else none))) =
          r.served m := by
        rw [hfind]
        unfold served config
        dsimp only
        cases r.aliases.find? (·.destination.model = m) with
        | none => split <;> rfl
        | some a => rfl
      have htrust : ∀ i, (r.config.providers[i]?).filter (·.trust = trust) =
          if r.estate.trustAt i = some trust then r.config.providers[i]? else none := by
        intro i
        unfold config Estate.trustAt
        dsimp only
        rw [List.getElem?_map]
        cases r.estate.providers[i]? with
        | none => simp
        | some p =>
            rw [Option.map_some, Option.map_some, Option.filter_some]
            simp only [Option.some.injEq, decide_eq_true_eq]
      unfold Recursant.dispatchProvider dispatchProvider
      dsimp only
      rw [hserved, Option.bind_some]
      cases r.served m with
      | none => rfl
      | some i =>
          rw [Option.bind_some, htrust, Option.filter_some]
          simp only [decide_eq_true_eq]
          split <;> rfl

/-- Every candidate stands for an alias of that configuration. -/
theorem Unambiguous.config_aliased {r : Loaded} (hr : r.Unambiguous) {g : GatewayConfig}
    (hg : r.gateway = some g) {c : Candidate} (hc : c ∈ g.candidates) :
    r.config.aliases[c.aliasIndex]? = some c.destination := by
  unfold config
  rw [List.getElem?_map]
  exact (hr.gateway g hg).candidates c hc

end Loaded

end Recursant.Startup
