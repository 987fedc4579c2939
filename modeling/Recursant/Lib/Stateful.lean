import Mathlib.Order.RelClasses

/-!
# Programs that change a state and may stop

Two judgments about `EStateM` programs.  `Within r m` relates the state before to the state after,
however the program ends; `Triple p m q e` has one postcondition for a result and one for a stop.
-/

namespace Stateful

universe u

variable {ε σ α β : Type u}

/-- The state a program ends in. -/
def final : EStateM.Result ε σ α → σ
  | .ok _ t => t
  | .error _ t => t

/-! ## Results -/

section Results

variable {m : EStateM ε σ α} {f : α → EStateM ε σ β} {s u : σ}

theorem bind_eq_ok {b : β} : (m >>= f).run s = .ok b u ↔
    ∃ a t, m.run s = .ok a t ∧ (f a).run t = .ok b u := by
  show EStateM.bind m f s = .ok b u ↔ ∃ a t, m s = .ok a t ∧ f a t = .ok b u
  unfold EStateM.bind
  cases m s with
  | error x t => simp
  | ok a t =>
      constructor
      · exact fun h => ⟨a, t, rfl, h⟩
      · intro h
        obtain ⟨a', t', hfirst, hsecond⟩ := h
        cases hfirst
        exact hsecond

/-- A program stops in its first part or after it. -/
theorem bind_eq_error {x : ε} : (m >>= f).run s = .error x u ↔
    m.run s = .error x u ∨ ∃ a t, m.run s = .ok a t ∧ (f a).run t = .error x u := by
  show EStateM.bind m f s = .error x u ↔ m s = .error x u ∨ ∃ a t, m s = .ok a t ∧ f a t = .error x u
  unfold EStateM.bind
  cases m s with
  | error y t => simp
  | ok a t =>
      constructor
      · exact fun h => .inr ⟨a, t, rfl, h⟩
      · intro h
        obtain ⟨a', t', hfirst, hsecond⟩ := h.resolve_left nofun
        cases hfirst
        exact hsecond

theorem run_bind_ok {a : α} {t : σ} (h : m.run s = .ok a t) : (m >>= f).run s = (f a).run t := by
  show EStateM.bind m f s = f a t
  unfold EStateM.bind
  rw [show m s = .ok a t from h]

theorem run_bind_error {x : ε} {t : σ} (h : m.run s = .error x t) :
    (m >>= f).run s = .error x t := by
  show EStateM.bind m f s = .error x t
  unfold EStateM.bind
  rw [show m s = .error x t from h]

theorem except_bind_eq_ok {m : Except ε α} {f : α → Except ε β} {b : β} :
    m >>= f = .ok b ↔ ∃ a, m = .ok a ∧ f a = .ok b := by
  cases m with
  | ok a => simp [bind, Except.bind]
  | error x => simp [bind, Except.bind]

end Results

/-! ## Two-state relations -/

def Within (r : σ → σ → Prop) (m : EStateM ε σ α) : Prop := ∀ s, r s (final (m.run s))

section Within

variable {r : σ → σ → Prop} {m : EStateM ε σ α} {f : α → EStateM ε σ β}

theorem within_pure [Std.Refl r] (a : α) : Within r (pure a : EStateM ε σ α) := fun s => refl_of r s

theorem within_throw [Std.Refl r] (e : ε) : Within r (throw e : EStateM ε σ α) :=
  fun s => refl_of r s

theorem within_get [Std.Refl r] : Within r (get : EStateM ε σ σ) := fun s => refl_of r s

theorem within_modify {g : σ → σ} (h : ∀ s, r s (g s)) :
    Within r (modify g : EStateM ε σ PUnit) := h

theorem final_bind [IsTrans σ r] {s : σ} (hm : r s (final (m.run s))) (hf : ∀ a, Within r (f a)) :
    r s (final ((m >>= f).run s)) := by
  show r s (final (EStateM.run (EStateM.bind m f) s))
  unfold EStateM.run EStateM.bind at *
  cases hrun : m s with
  | ok a t =>
      rw [hrun] at hm
      exact trans_of r hm (hf a t)
  | error e t =>
      rw [hrun] at hm
      exact hm

theorem Within.bind [IsTrans σ r] (hm : Within r m) (hf : ∀ a, Within r (f a)) :
    Within r (m >>= f) := fun s => final_bind (hm s) hf

theorem Within.weaken {r' : σ → σ → Prop} (hm : Within r m) (h : ∀ s t, r s t → r' s t) :
    Within r' m := fun s => h _ _ (hm s)

/-- What follows a look at the state starts in the state that was seen. -/
theorem within_get_bind {f : σ → EStateM ε σ β} (h : ∀ s, r s (final ((f s).run s))) :
    Within r (get >>= f) := h

theorem within_ite {p : Prop} [Decidable p] {n : EStateM ε σ α} (hm : p → Within r m)
    (hn : ¬ p → Within r n) : Within r (if p then m else n) := by
  by_cases hp : p
  · rw [if_pos hp]
    exact hm hp
  · rw [if_neg hp]
    exact hn hp

end Within

/-- The two states agree on a view. -/
def Same {τ : Type*} (view : σ → τ) (s t : σ) : Prop := view t = view s

instance {τ : Type*} (view : σ → τ) : Std.Refl (Same view) := ⟨fun _ => rfl⟩

instance {τ : Type*} (view : σ → τ) : IsTrans σ (Same view) :=
  ⟨fun _ _ _ first second => Eq.trans second first⟩

/-- What follows a program keeps the view that the program left. -/
theorem final_bind_same {τ : Type*} {view : σ → τ} {m : EStateM ε σ α} {f : α → EStateM ε σ β}
    (hf : ∀ a, Within (Same view) (f a)) (s : σ) :
    view (final ((m >>= f).run s)) = view (final (m.run s)) := by
  cases hrun : m.run s with
  | ok a t =>
      rw [run_bind_ok hrun]
      exact hf a t
  | error x t =>
      rw [run_bind_error hrun]
      rfl

/-! ## Triples -/

/-- The postcondition that a result has to meet. -/
def Ends (q : α → σ → Prop) (e : σ → Prop) : EStateM.Result ε σ α → Prop
  | .ok a t => q a t
  | .error _ t => e t

def Triple (p : σ → Prop) (m : EStateM ε σ α) (q : α → σ → Prop) (e : σ → Prop) : Prop :=
  ∀ s, p s → Ends q e (m.run s)

section Triple

variable {p : σ → Prop} {m : EStateM ε σ α} {f : α → EStateM ε σ β} {q : α → σ → Prop}
  {q' : β → σ → Prop} {e : σ → Prop}

theorem triple_pure {a : α} (h : ∀ s, p s → q a s) : Triple p (pure a : EStateM ε σ α) q e := h

theorem triple_throw {x : ε} (h : ∀ s, p s → e s) : Triple p (throw x : EStateM ε σ α) q e := h

theorem triple_modify {g : σ → σ} {q : PUnit → σ → Prop} (h : ∀ s, p s → q ⟨⟩ (g s)) :
    Triple p (modify g : EStateM ε σ PUnit) q e := h

theorem Triple.bind (hm : Triple p m q e) (hf : ∀ a, Triple (q a) (f a) q' e) :
    Triple p (m >>= f) q' e := by
  intro s hs
  have hfirst := hm s hs
  show Ends q' e (EStateM.run (EStateM.bind m f) s)
  unfold EStateM.run EStateM.bind at *
  cases hrun : m s with
  | ok a t =>
      rw [hrun] at hfirst
      exact hf a t hfirst
  | error x t =>
      rw [hrun] at hfirst
      exact hfirst

/-- What follows a look at the state starts in the state that was seen. -/
theorem triple_get_bind {f : σ → EStateM ε σ β} (h : ∀ s, p s → Triple (· = s) (f s) q' e) :
    Triple p (get >>= f) q' e := fun s hs => h s hs s rfl

theorem Triple.weaken {p₀ : σ → Prop} {q₀ : α → σ → Prop} {e₀ : σ → Prop}
    (hm : Triple p m q e) (hp : ∀ s, p₀ s → p s) (hq : ∀ a s, q a s → q₀ a s)
    (he : ∀ s, e s → e₀ s) : Triple p₀ m q₀ e₀ := by
  intro s hs
  have hends := hm s (hp s hs)
  cases hrun : m.run s with
  | ok a t =>
      rw [hrun] at hends
      exact hq a t hends
  | error x t =>
      rw [hrun] at hends
      exact he t hends

theorem triple_ite {b : Prop} [Decidable b] {n : EStateM ε σ α} (hm : b → Triple p m q e)
    (hn : ¬ b → Triple p n q e) : Triple p (if b then m else n) q e := by
  by_cases hb : b
  · rw [if_pos hb]
    exact hm hb
  · rw [if_neg hb]
    exact hn hb

/-- A property that a two-state relation carries over holds after the program. -/
theorem Within.triple {r : σ → σ → Prop} (hm : Within r m) (h : ∀ s t, p s → r s t → p t) :
    Triple p m (fun _ => p) p := by
  intro s hs
  have hfinal := hm s
  cases hrun : m.run s with
  | ok a t =>
      rw [hrun] at hfinal
      exact h s t hs hfinal
  | error x t =>
      rw [hrun] at hfinal
      exact h s t hs hfinal

theorem Triple.ok (hm : Triple p m q e) {s t : σ} {a : α} (hs : p s) (hrun : m.run s = .ok a t) :
    q a t := by
  have h := hm s hs
  rw [hrun] at h
  exact h

end Triple

end Stateful
