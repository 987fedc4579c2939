import Recursant.Gateway.State

/-!
# The roster

The abstract view of the scope table: who holds each slot, which sessions are labelled, and the
changes that the table is made for.  A slot is given away, taken back, and gains authority; nothing
takes authority away from a scope while it lives.
-/

namespace Recursant.Gateway

/-- `effort` is the reasoning field that was added to the request in flight of each scope. -/
structure Roster where
  holder : Slot → Holder
  effort : Slot → Option Family
  labels : List Text
  opened : Nat

def GatewayContext.roster {count : Nat} (g : GatewayContext count) : Roster :=
  ⟨fun i => (g.scopes i).toHolder, fun i => (g.scopes i).reasoningAdded, g.labels, g.opened⟩

inductive Change where
  | register (i : Slot) (task session branch generation : Text)
  | adopt (i : Slot) (ident : Text)
  | vacate (i : Slot) (closing : Bool)
  | label (session : Text)
  | derive (i : Slot)
  | takeOn (i : Slot)
  | release (i : Slot)
  | effort (i : Slot) (family : Option Family)

/-- The change belongs to giving a slot to a new scope. -/
def Change.Seats : Change → Prop
  | .register _ _ _ _ _ => True
  | .adopt _ _ => True
  | .vacate _ closing => closing = false
  | _ => False

/-- The change is one of the exchange in flight of the slot. -/
def Change.Works (i : Slot) : Change → Prop
  | .takeOn j => j = i
  | .release j => j = i
  | .effort j _ => j = i
  | _ => False

namespace Roster

/-- Gives the slot another holder. -/
def put (r : Roster) (i : Slot) (h : Holder) : Roster :=
  { r with holder := Function.update r.holder i h }

/-- The holder after its session was labelled. -/
def restricted (session : Text) (h : Holder) : Holder :=
  if h.isOpen && h.implicit && h.ident = session then { h with privateOnly := true } else h

def apply (r : Roster) : Change → Roster
  | .register i task session branch generation =>
      { r.put i { r.holder i with
          isOpen := true, task, session, branch, generation, serial := r.opened + 1 } with
        opened := r.opened + 1 }
  | .adopt i ident =>
      { r.put i { r.holder i with
          isOpen := true
          implicit := true
          ident
          serial := r.opened + 1
          privateOnly := (r.holder i).privateOnly || (ident ≠ [] && r.labels.contains ident) } with
        opened := r.opened + 1 }
  | .vacate i _ => { r.put i {} with effort := Function.update r.effort i none }
  | .label session =>
      { r with
        holder := fun i => restricted session (r.holder i)
        labels := if r.labels.contains session then r.labels else r.labels ++ [session] }
  | .derive i => r.put i { r.holder i with privateOnly := true }
  | .takeOn i => r.put i { r.holder i with inflight := true }
  | .release i => r.put i { r.holder i with inflight := false }
  | .effort i family => { r with effort := Function.update r.effort i family }

/-- When a change may happen.  A slot is only vacated between exchanges; a registered scope with
private authority only by its close. -/
def Allowed (sessions : Bool) (r : Roster) : Change → Prop
  | .register i _ _ _ _ => (r.holder i).isOpen = false
  | .adopt i _ => sessions = true ∧ (r.holder i).isOpen = false
  | .vacate i closing => (r.holder i).isOpen = true ∧ (r.holder i).inflight = false ∧
      if closing then (r.holder i).implicit = false
      else (r.holder i).implicit = true ∨ (r.holder i).privateOnly = false
  | .label session => sessions = true ∧ session ≠ []
  | .derive i => (r.holder i).isOpen = true ∧ (r.holder i).implicit = false
  | .takeOn i => (r.holder i).isOpen = true
  | .release i => (r.holder i).isOpen = true
  | .effort _ _ => True

inductive Path (sessions : Bool) : Roster → List Change → Roster → Prop
  | nil (r : Roster) : Path sessions r [] r
  | cons {r t : Roster} {c : Change} {cs : List Change} :
      Allowed sessions r c → Path sessions (r.apply c) cs t → Path sessions r (c :: cs) t

theorem Path.single {sessions : Bool} {r : Roster} {c : Change} (h : Allowed sessions r c) :
    Path sessions r [c] (r.apply c) := .cons h (.nil _)

theorem Path.append {sessions : Bool} {r t u : Roster} {cs ds : List Change}
    (first : Path sessions r cs t) (second : Path sessions t ds u) :
    Path sessions r (cs ++ ds) u := by
  induction first with
  | nil _ => exact second
  | cons hallowed _ ih => exact .cons hallowed (ih second)

theorem holder_put (r : Roster) (i j : Slot) (h : Holder) :
    (r.put i h).holder j = if j = i then h else r.holder j := Function.update_apply ..

@[simp] theorem holder_put_self (r : Roster) (i : Slot) (h : Holder) : (r.put i h).holder i = h := by
  rw [holder_put, if_pos rfl]

theorem holder_put_of_ne (r : Roster) {i j : Slot} (h : Holder) (hne : j ≠ i) :
    (r.put i h).holder j = r.holder j := by rw [holder_put, if_neg hne]

@[simp] theorem put_labels (r : Roster) (i : Slot) (h : Holder) : (r.put i h).labels = r.labels := rfl

@[simp] theorem put_opened (r : Roster) (i : Slot) (h : Holder) : (r.put i h).opened = r.opened := rfl

/-! ## What every roster satisfies -/

/-- Serial numbers are fresh, a closed slot is empty, and a session is private exactly when it is
labelled. -/
structure Sound (sessions : Bool) (r : Roster) : Prop where
  empty : ∀ i, (r.holder i).isOpen = false → r.holder i = {}
  serials : ∀ i j, (r.holder i).isOpen = true → (r.holder j).isOpen = true →
    (r.holder i).serial = (r.holder j).serial → i = j
  bounded : ∀ i, (r.holder i).isOpen = true → 0 < (r.holder i).serial ∧
    (r.holder i).serial ≤ r.opened
  labelled : ∀ i, (r.holder i).isOpen = true → (r.holder i).implicit = true →
    ((r.holder i).privateOnly = true ↔ (r.holder i).ident ∈ r.labels)
  named : [] ∉ r.labels
  sessionless : sessions = false → r.labels = [] ∧ ∀ i, (r.holder i).implicit = false

theorem Sound.start (sessions : Bool) : Sound sessions ⟨fun _ => {}, fun _ => none, [], 0⟩ where
  empty _ _ := rfl
  serials _ _ h := nomatch h
  bounded _ h := nomatch h
  labelled _ h := nomatch h
  named := List.not_mem_nil
  sessionless _ := ⟨rfl, fun _ => rfl⟩

/-- One slot gets a holder; the others stay, and so do the labels. -/
theorem Sound.put_of {sessions : Bool} {r : Roster} (h : Sound sessions r) {i : Slot} {k : Holder}
    {effort : Slot → Option Family} {opened : Nat} (hopened : r.opened ≤ opened) (hempty : k.isOpen = false → k = {})
    (hserial : k.isOpen = true → ∀ j, j ≠ i → (r.holder j).isOpen = true →
      (r.holder j).serial ≠ k.serial)
    (hbounded : k.isOpen = true → 0 < k.serial ∧ k.serial ≤ opened)
    (hlabelled : k.isOpen = true → k.implicit = true → (k.privateOnly = true ↔ k.ident ∈ r.labels))
    (hsessionless : sessions = false → k.implicit = false) :
    Sound sessions { r.put i k with effort, opened } := by
  have hholder : ∀ j, ({ r.put i k with effort, opened } : Roster).holder j =
      if j = i then k else r.holder j := fun j => holder_put r i j k
  constructor
  · intro j hj
    rw [hholder] at hj ⊢
    by_cases hji : j = i
    · rw [if_pos hji] at hj ⊢
      exact hempty hj
    · rw [if_neg hji] at hj ⊢
      exact h.empty j hj
  · intro a b ha hb hab
    rw [hholder] at ha hb
    rw [hholder, hholder] at hab
    by_cases hai : a = i
    · by_cases hbi : b = i
      · rw [hai, hbi]
      · rw [if_pos hai] at ha hab
        rw [if_neg hbi] at hb hab
        exact absurd hab.symm (hserial ha b hbi hb)
    · rw [if_neg hai] at ha hab
      by_cases hbi : b = i
      · rw [if_pos hbi] at hb hab
        exact absurd hab (hserial hb a hai ha)
      · rw [if_neg hbi] at hb hab
        exact h.serials a b ha hb hab
  · intro j hj
    rw [hholder] at hj ⊢
    by_cases hji : j = i
    · rw [if_pos hji] at hj ⊢
      exact hbounded hj
    · rw [if_neg hji] at hj ⊢
      exact ⟨(h.bounded j hj).1, (h.bounded j hj).2.trans hopened⟩
  · intro j hj himplicit
    rw [hholder] at hj himplicit ⊢
    by_cases hji : j = i
    · rw [if_pos hji] at hj himplicit ⊢
      exact hlabelled hj himplicit
    · rw [if_neg hji] at hj himplicit ⊢
      exact h.labelled j hj himplicit
  · exact h.named
  · intro hsessions
    refine ⟨(h.sessionless hsessions).1, fun j => ?_⟩
    rw [hholder]
    by_cases hji : j = i
    · rw [if_pos hji]
      exact hsessionless hsessions
    · rw [if_neg hji]
      exact (h.sessionless hsessions).2 j

/-- A slot that only changes what it says about its exchange and its authority. -/
theorem Sound.put_same {sessions : Bool} {r : Roster} (h : Sound sessions r) {i : Slot} {k : Holder}
    (hopen : (r.holder i).isOpen = true) (hk : k.isOpen = true)
    (hserial : k.serial = (r.holder i).serial) (himplicit : k.implicit = (r.holder i).implicit)
    (hlabelled : k.implicit = true → (k.privateOnly = true ↔ k.ident ∈ r.labels)) :
    Sound sessions (r.put i k) := by
  have hput : r.put i k = { r.put i k with effort := r.effort, opened := r.opened } := rfl
  rw [hput]
  apply h.put_of le_rfl
  · intro hclosed
    rw [hk] at hclosed
    cases hclosed
  · intro _ j hji hj hsame
    exact hji (h.serials j i hj hopen (hsame.trans hserial))
  · intro _
    rw [hserial]
    exact h.bounded i hopen
  · exact fun _ => hlabelled
  · intro hsessions
    rw [himplicit]
    exact (h.sessionless hsessions).2 i

theorem Sound.apply {sessions : Bool} {r : Roster} (h : Sound sessions r) {c : Change}
    (hallowed : Allowed sessions r c) : Sound sessions (r.apply c) := by
  -- a holder that just got a serial number is the only one with it
  have hfresh : ∀ j, (r.holder j).isOpen = true → (r.holder j).serial ≠ r.opened + 1 := by
    intro j hj hserial
    have hle := (h.bounded j hj).2
    omega
  cases c with
  | register i task session branch generation =>
      have hclosed : r.holder i = {} := h.empty i hallowed
      apply h.put_of (Nat.le_succ _)
      · exact fun hk => nomatch hk
      · exact fun _ j _ hj => hfresh j hj
      · exact fun _ => ⟨Nat.succ_pos _, le_rfl⟩
      · intro _ himplicit
        rw [hclosed] at himplicit
        cases himplicit
      · intro _
        rw [hclosed]
  | adopt i ident =>
      have hclosed : r.holder i = {} := h.empty i hallowed.2
      apply h.put_of (Nat.le_succ _)
      · exact fun hk => nomatch hk
      · exact fun _ j _ hj => hfresh j hj
      · exact fun _ => ⟨Nat.succ_pos _, le_rfl⟩
      · intro _ _
        show ((r.holder i).privateOnly || (decide (ident ≠ []) && r.labels.contains ident)) = true ↔
          ident ∈ r.labels
        rw [hclosed, Bool.false_or, Bool.and_eq_true, decide_eq_true_eq, List.contains_iff_mem]
        exact ⟨And.right, fun hmem => ⟨fun hnil => h.named (hnil ▸ hmem), hmem⟩⟩
      · intro hsessions
        rw [hallowed.1] at hsessions
        cases hsessions
  | vacate i closing =>
      apply h.put_of (le_refl r.opened)
      · exact fun _ => rfl
      · exact fun hk => nomatch hk
      · exact fun hk => nomatch hk
      · exact fun hk => nomatch hk
      · exact fun _ => rfl
  | label session =>
      have hfields : ∀ k : Holder, (restricted session k).isOpen = k.isOpen ∧
          (restricted session k).serial = k.serial ∧
          (restricted session k).implicit = k.implicit ∧
          (restricted session k).ident = k.ident := by
        intro k
        unfold restricted
        split <;> exact ⟨rfl, rfl, rfl, rfl⟩
      have hmem : ∀ ident, ident ∈ (r.apply (.label session)).labels ↔
          ident ∈ r.labels ∨ ident = session := by
        intro ident
        show ident ∈ (if r.labels.contains session then r.labels else r.labels ++ [session]) ↔ _
        by_cases hcontains : r.labels.contains session = true
        · rw [if_pos hcontains]
          have hin := List.contains_iff_mem.mp hcontains
          exact ⟨Or.inl, fun hor => hor.elim id fun heq => heq ▸ hin⟩
        · rw [if_neg hcontains, List.mem_append, List.mem_singleton]
      constructor
      · intro i hi
        show restricted session (r.holder i) = {}
        rw [h.empty i ((hfields _).1 ▸ hi)]
        rfl
      · intro i j hi hj hserial
        exact h.serials i j ((hfields _).1 ▸ hi) ((hfields _).1 ▸ hj)
          ((hfields _).2.1 ▸ (hfields (r.holder j)).2.1 ▸ hserial)
      · intro i hi
        show 0 < (restricted session (r.holder i)).serial ∧
          (restricted session (r.holder i)).serial ≤ r.opened
        rw [(hfields _).2.1]
        exact h.bounded i ((hfields _).1 ▸ hi)
      · intro i hi himplicit
        rw [hmem]
        have hopen : (r.holder i).isOpen = true := (hfields _).1 ▸ hi
        have hold := h.labelled i hopen ((hfields _).2.2.1 ▸ himplicit)
        show (restricted session (r.holder i)).privateOnly = true ↔
          (restricted session (r.holder i)).ident ∈ r.labels ∨
            (restricted session (r.holder i)).ident = session
        rw [(hfields _).2.2.2, ← hold]
        unfold restricted
        have himplicit : (r.holder i).implicit = true := (hfields _).2.2.1 ▸ himplicit
        by_cases hident : (r.holder i).ident = session
        · simp [hopen, himplicit, hident]
        · simp [hident]
      · rw [hmem]
        intro hor
        exact hor.elim h.named fun heq => hallowed.2 heq.symm
      · intro hsessions
        rw [hallowed.1] at hsessions
        cases hsessions
  | derive i =>
      apply h.put_same (k := { r.holder i with privateOnly := true }) hallowed.1 hallowed.1 rfl rfl
      intro himplicit
      have hregistered := hallowed.2
      rw [show (r.holder i).implicit = true from himplicit] at hregistered
      cases hregistered
  | takeOn i => exact h.put_same hallowed hallowed rfl rfl (h.labelled i hallowed)
  | release i => exact h.put_same hallowed hallowed rfl rfl (h.labelled i hallowed)
  | effort i family =>
      exact ⟨h.empty, h.serials, h.bounded, h.labelled, h.named, h.sessionless⟩

theorem Path.sound {sessions : Bool} {r t : Roster} {cs : List Change}
    (path : Path sessions r cs t) (h : Sound sessions r) : Sound sessions t := by
  induction path with
  | nil _ => exact h
  | cons hallowed _ ih => exact ih (h.apply hallowed)

/-! ## The life of a scope -/

/-- The slot holds the scope with the serial number. -/
def Holds (r : Roster) (i : Slot) (serial : Nat) : Prop :=
  (r.holder i).isOpen = true ∧ (r.holder i).serial = serial

/-- The scope has left the table. -/
def Gone (r : Roster) (serial : Nat) : Prop :=
  serial ≤ r.opened ∧ ∀ i, ¬ r.Holds i serial

/-- What a scope is for the whole of its life. -/
structure SameScope (h k : Holder) : Prop where
  implicit : k.implicit = h.implicit
  generation : k.generation = h.generation
  branch : k.branch = h.branch
  ident : k.ident = h.ident

theorem SameScope.refl (h : Holder) : SameScope h h := ⟨rfl, rfl, rfl, rfl⟩

theorem SameScope.trans {h k l : Holder} (first : SameScope h k) (second : SameScope k l) :
    SameScope h l :=
  ⟨second.implicit.trans first.implicit, second.generation.trans first.generation,
    second.branch.trans first.branch, second.ident.trans first.ident⟩

/-- The change leaves the scope alone, vacates its slot, or at most gives it authority. -/
inductive Fate (r : Roster) (c : Change) (i : Slot) (serial : Nat) : Prop where
  | kept : (r.apply c).Holds i serial → SameScope (r.holder i) ((r.apply c).holder i) →
      ((r.holder i).privateOnly = true → ((r.apply c).holder i).privateOnly = true) →
      Fate r c i serial
  | left (closing : Bool) : c = .vacate i closing → (r.apply c).Gone serial → Fate r c i serial

theorem fate {sessions : Bool} {r : Roster} (h : Sound sessions r) {c : Change}
    (hallowed : Allowed sessions r c) {i : Slot} {serial : Nat} (hholds : r.Holds i serial) :
    Fate r c i serial := by
  -- a change of another slot
  have hother : ∀ (j : Slot) (k : Holder), j ≠ i → (r.apply c).holder i = (r.put j k).holder i →
      Fate r c i serial := by
    intro j k hne heq
    have hsame : (r.apply c).holder i = r.holder i := by
      rw [heq, holder_put_of_ne r k (Ne.symm hne)]
    refine .kept ?_ (hsame ▸ .refl _) (fun hp => hsame ▸ hp)
    unfold Holds
    rw [hsame]
    exact hholds
  -- a change of what a holder says about its exchange or its authority
  have hsame : ∀ (j : Slot) (k : Holder), r.apply c = r.put j k →
      k.isOpen = (r.holder j).isOpen → k.serial = (r.holder j).serial → SameScope (r.holder j) k →
      ((r.holder j).privateOnly = true → k.privateOnly = true) → Fate r c i serial := by
    intro j k happly hopen hserial hscope hprivate
    by_cases hji : j = i
    · subst hji
      have hholder : (r.apply c).holder j = k := by rw [happly, holder_put_self]
      refine .kept ⟨?_, ?_⟩ (hholder ▸ hscope) (hholder ▸ hprivate)
      · rw [hholder, hopen]
        exact hholds.1
      · rw [hholder, hserial]
        exact hholds.2
    · exact hother j k hji (by rw [happly])
  -- a slot that is given away was empty
  have hgiven : ∀ j : Slot, (r.holder j).isOpen = false → j ≠ i := by
    intro j hj hji
    rw [hji, hholds.1] at hj
    cases hj
  cases c with
  | register j task session branch generation =>
      exact hother j _ (hgiven j hallowed) rfl
  | adopt j ident => exact hother j _ (hgiven j hallowed.2) rfl
  | vacate j closing =>
      by_cases hji : j = i
      · subst hji
        refine .left closing rfl ⟨?_, ?_⟩
        · rw [← hholds.2]
          exact (h.bounded j hholds.1).2
        · intro k hk
          unfold Holds at hk
          rw [show (r.apply (.vacate j closing)).holder k = if k = j then {} else r.holder k
            from holder_put r j k {}] at hk
          by_cases hkj : k = j
          · rw [if_pos hkj] at hk
            cases hk.1
          · rw [if_neg hkj] at hk
            exact hkj (h.serials k j hk.1 hholds.1 (hk.2.trans hholds.2.symm))
      · exact hother j _ hji rfl
  | label session =>
      have happly : (r.apply (.label session)).holder i = restricted session (r.holder i) := rfl
      unfold restricted at happly
      split at happly
      · refine .kept ?_ ?_ ?_
        · unfold Holds
          rw [happly]
          exact hholds
        · rw [happly]
          exact ⟨rfl, rfl, rfl, rfl⟩
        · intro _
          rw [happly]
      · refine .kept ?_ (happly ▸ .refl _) (fun hp => happly ▸ hp)
        unfold Holds
        rw [happly]
        exact hholds
  | derive j => exact hsame j _ rfl rfl rfl ⟨rfl, rfl, rfl, rfl⟩ fun _ => rfl
  | takeOn j => exact hsame j _ rfl rfl rfl ⟨rfl, rfl, rfl, rfl⟩ id
  | release j => exact hsame j _ rfl rfl rfl ⟨rfl, rfl, rfl, rfl⟩ id
  | effort _ _ => exact .kept hholds (.refl _) id

theorem Gone.apply {r : Roster} {serial : Nat} (h : r.Gone serial) (c : Change) :
    (r.apply c).Gone serial := by
  -- a slot whose holder is closed, newly numbered, or numbered as before
  have hput : ∀ (i : Slot) (k : Holder) (effort : Slot → Option Family) (opened : Nat),
      r.opened ≤ opened → (k.isOpen = true → k.serial ≠ serial) →
      ({ r.put i k with effort, opened } : Roster).Gone serial := by
    intro i k effort opened hopened hk
    refine ⟨h.1.trans hopened, fun j hj => ?_⟩
    unfold Holds at hj
    rw [show ({ r.put i k with effort, opened } : Roster).holder j = _ from holder_put r i j k]
      at hj
    by_cases hji : j = i
    · rw [if_pos hji] at hj
      exact hk hj.1 hj.2
    · rw [if_neg hji] at hj
      exact h.2 j hj
  have hfresh : r.opened + 1 ≠ serial := by
    have hle := h.1
    omega
  cases c with
  | register i task session branch generation => exact hput i _ _ _ (Nat.le_succ _) fun _ => hfresh
  | adopt i ident => exact hput i _ _ _ (Nat.le_succ _) fun _ => hfresh
  | vacate i closing => exact hput i {} _ _ le_rfl fun hk => nomatch hk
  | label session =>
      refine ⟨h.1, fun i hi => h.2 i ?_⟩
      unfold Holds at hi ⊢
      rw [show (r.apply (.label session)).holder i = restricted session (r.holder i) from rfl] at hi
      unfold restricted at hi
      split at hi <;> exact hi
  | derive i => exact hput i _ _ _ le_rfl fun hk heq => h.2 i ⟨hk, heq⟩
  | takeOn i => exact hput i _ _ _ le_rfl fun hk heq => h.2 i ⟨hk, heq⟩
  | release i => exact hput i _ _ _ le_rfl fun hk heq => h.2 i ⟨hk, heq⟩
  | effort _ _ => exact h

theorem Gone.path {sessions : Bool} {r t : Roster} {cs : List Change} {serial : Nat}
    (h : r.Gone serial) (path : Path sessions r cs t) : t.Gone serial := by
  induction path with
  | nil _ => exact h
  | cons _ _ ih => exact ih (h.apply _)

/-- Over a series of changes a scope stays what it is and keeps its authority, or its slot was
vacated; a registered scope with authority only by a close. -/
theorem Path.fate {sessions : Bool} {r t : Roster} {cs : List Change} {i : Slot} {serial : Nat}
    (path : Path sessions r cs t) (h : Sound sessions r) (hholds : r.Holds i serial) :
    (t.Holds i serial ∧ SameScope (r.holder i) (t.holder i) ∧
      ((r.holder i).privateOnly = true → (t.holder i).privateOnly = true)) ∨
    (t.Gone serial ∧ ∃ closing, .vacate i closing ∈ cs ∧
      ((r.holder i).privateOnly = true → (r.holder i).implicit = false → closing = true)) := by
  induction path with
  | nil _ => exact .inl ⟨hholds, .refl _, id⟩
  | @cons r t c cs hallowed path ih =>
      cases Roster.fate h hallowed hholds with
      | left closing hc hgone =>
          refine .inr ⟨hgone.path path, closing, hc ▸ List.mem_cons_self, ?_⟩
          intro hprivate himplicit
          rw [hc] at hallowed
          cases closing with
          | true => rfl
          | false =>
              cases hallowed.2.2 with
              | inl hsession =>
                  rw [himplicit] at hsession
                  cases hsession
              | inr hpublic =>
                  rw [hprivate] at hpublic
                  cases hpublic
      | kept hkept hscope hprivate =>
          cases ih (h.apply hallowed) hkept with
          | inl hlater => exact .inl ⟨hlater.1, hscope.trans hlater.2.1, hlater.2.2 ∘ hprivate⟩
          | inr hgone =>
              obtain ⟨hgone, closing, hmem, hcause⟩ := hgone
              refine .inr ⟨hgone, closing, List.mem_cons_of_mem _ hmem, ?_⟩
              intro hp himplicit
              exact hcause (hprivate hp) (hscope.implicit.trans himplicit)

/-- While an exchange is in flight, only its own changes touch what it relies on. -/
theorem Path.inflight {sessions : Bool} {r t : Roster} {cs : List Change} {i : Slot} {serial : Nat}
    (path : Path sessions r cs t) (h : Sound sessions r) (hholds : r.Holds i serial)
    (hinflight : (r.holder i).inflight = true) (hforeign : ∀ c ∈ cs, ¬ c.Works i) :
    t.Holds i serial ∧ (t.holder i).inflight = true ∧ SameScope (r.holder i) (t.holder i) ∧
      t.effort i = r.effort i := by
  induction path with
  | nil _ => exact ⟨hholds, hinflight, .refl _, rfl⟩
  | @cons r t c cs hallowed path ih =>
      have hc : ¬ c.Works i := hforeign c List.mem_cons_self
      have hrest : ∀ d ∈ cs, ¬ d.Works i := fun d hd => hforeign d (List.mem_cons_of_mem _ hd)
      -- what the one change leaves
      have hone : ((r.apply c).holder i).inflight = true ∧ (r.apply c).effort i = r.effort i := by
        have hput : ∀ (j : Slot) (k : Holder), (j = i → k.inflight = true) →
            ((r.put j k).holder i).inflight = true := by
          intro j k hk
          rw [holder_put]
          by_cases hij : i = j
          · rw [if_pos hij]
            exact hk hij.symm
          · rw [if_neg hij]
            exact hinflight
        cases c with
        | register j task session branch generation =>
            exact ⟨hput j _ fun hji => hji ▸ hinflight, rfl⟩
        | adopt j ident => exact ⟨hput j _ fun hji => hji ▸ hinflight, rfl⟩
        | vacate j closing =>
            have hji : j ≠ i := by
              intro hji
              have hidle := hallowed.2.1
              rw [hji, hinflight] at hidle
              cases hidle
            exact ⟨hput j _ fun heq => absurd heq hji, Function.update_of_ne (Ne.symm hji) _ _⟩
        | label session =>
            refine ⟨?_, rfl⟩
            show (restricted session (r.holder i)).inflight = true
            unfold restricted
            split <;> exact hinflight
        | derive j => exact ⟨hput j _ fun hji => hji ▸ hinflight, rfl⟩
        | takeOn j => exact ⟨hput j _ fun _ => rfl, rfl⟩
        | release j => exact ⟨hput j _ fun hji => absurd hji hc, rfl⟩
        | effort j family => exact ⟨hinflight, Function.update_of_ne (Ne.symm hc) _ _⟩
      cases Roster.fate h hallowed hholds with
      | left closing hvacate hgone =>
          rw [hvacate] at hallowed
          have hidle := hallowed.2.1
          rw [hinflight] at hidle
          cases hidle
      | kept hkept hscope hprivate =>
          obtain ⟨hlater, hinflight, hsame, heffort⟩ := ih (h.apply hallowed) hkept hone.1 hrest
          exact ⟨hlater, hinflight, hscope.trans hsame, heffort.trans hone.2⟩

/-- Labels are never forgotten. -/
theorem Path.labels {sessions : Bool} {r t : Roster} {cs : List Change}
    (path : Path sessions r cs t) {session : Text} (h : session ∈ r.labels) :
    session ∈ t.labels := by
  induction path with
  | nil _ => exact h
  | @cons r t c cs _ _ ih =>
      apply ih
      cases c with
      | label other =>
          show session ∈ (if r.labels.contains other then r.labels else r.labels ++ [other])
          split
          · exact h
          · exact List.mem_append_left _ h
      | _ => exact h

end Roster

end Recursant.Gateway
