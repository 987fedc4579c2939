import Mathlib.Data.Finset.Card
import Mathlib.Tactic

/-!
# Linear probing

An open-addressed table: a slot is empty or holds the number of an entry plus one, a key is looked
for from its home on, and put into the first empty slot from there.  The loops have no end of their
own; an empty slot ends them.
-/

namespace Probing

variable {κ β : Type*}

/-- The loop that goes from slot to slot until one decides; `none` if none does within the steps. -/
def walk (next : Nat → Nat) (stop : Nat → Option β) : Nat → Nat → Option β
  | 0, _ => none
  | steps + 1, i =>
      match stop i with
      | some b => some b
      | none => walk next stop steps (next i)

/-- What the slot says of a key: it is absent, it is this entry, or look further. -/
def decides [DecidableEq κ] (key : Nat → Option κ) (slots : Nat → Nat) (k : κ) (i : Nat) :
    Option (Option Nat) :=
  if slots i = 0 then some none
  else if key (slots i - 1) = some k then some (some (slots i - 1))
  else none

def vacant (slots : Nat → Nat) (i : Nat) : Option Nat := if slots i = 0 then some i else none

/-- The first empty slot from the start gets the entry. -/
def place (next : Nat → Nat) (slots : Nat → Nat) (steps start e : Nat) : Option (Nat → Nat) :=
  (walk next (vacant slots) steps start).map fun i => Function.update slots i (e + 1)

/-- The number of slots in use. -/
def used (cap : Nat) (slots : Nat → Nat) : Nat :=
  ((Finset.range cap).filter fun i => slots i ≠ 0).card

/-- The table holds the entries: each first entry of a key is reached from its home. -/
structure Holds [BEq κ] (cap : Nat) (home : κ → Nat) (key : Nat → Option κ)
    (slots : Nat → Nat) (entries : List (κ × Nat)) : Prop where
  reached : ∀ k e, entries.lookup k = some e → ∃ d,
    (∀ d' < d, slots ((home k + d') % cap) ≠ 0 ∧
      key (slots ((home k + d') % cap) - 1) ≠ some k) ∧
    slots ((home k + d) % cap) = e + 1
  backed : ∀ i, slots i ≠ 0 → ∃ k e, (k, e) ∈ entries ∧ slots i = e + 1
  keyed : ∀ k e, (k, e) ∈ entries → key e = some k
  room : used cap slots ≤ entries.length

/-! ## Capacities -/

/-- The capacity is doubled as long as it is too small. -/
def grow (need : Nat) : Nat → Nat → Nat
  | 0, cap => cap
  | steps + 1, cap => if cap < need then grow need steps (2 * cap) else cap

/-- Sixteen slots, or twice the entries and more. -/
def capacity (n : Nat) : Nat := grow (2 * n) (2 * n) 16

theorem grow_spec (need : Nat) (steps k : Nat) (hsteps : need ≤ 2 ^ (k + steps)) :
    ∃ l, grow need steps (2 ^ k) = 2 ^ l ∧ need ≤ 2 ^ l ∧ k ≤ l := by
  induction steps generalizing k with
  | zero => exact ⟨k, rfl, hsteps, le_rfl⟩
  | succ steps ih =>
      rw [grow]
      by_cases hsmall : 2 ^ k < need
      · rw [if_pos hsmall, show 2 * 2 ^ k = 2 ^ (k + 1) by rw [Nat.pow_succ, Nat.mul_comm]]
        obtain ⟨l, hgrow, hneed, hkl⟩ := ih (k + 1) (by
          rw [show k + 1 + steps = k + (steps + 1) by omega]
          exact hsteps)
        exact ⟨l, hgrow, hneed, by omega⟩
      · rw [if_neg hsmall]
        exact ⟨k, rfl, not_lt.mp hsmall, le_rfl⟩

/-- The capacity is a power of two, and more than the entries. -/
theorem capacity_spec (n : Nat) : ∃ k, capacity n = 2 ^ k ∧ n < 2 ^ k := by
  have hsteps : 2 * n ≤ 2 ^ (4 + 2 * n) :=
    (Nat.lt_two_pow_self (n := 2 * n)).le.trans (Nat.pow_le_pow_right (by decide) (by omega))
  obtain ⟨k, hcap, hneed, hk⟩ := grow_spec (2 * n) (2 * n) 4 hsteps
  have hpos : 0 < 2 ^ k := Nat.two_pow_pos k
  exact ⟨k, hcap, by omega⟩

/-- The 64-bit hash that multiplies after each byte. -/
def fnv (bytes : List UInt8) : UInt64 :=
  bytes.foldl (fun h c => (h ^^^ c.toUInt64) * 1099511628211) 1469598103934665603

/-! ## Searches -/

section

variable {cap : Nat} {slots : Nat → Nat}

theorem walk_eq {stop : Nat → Option β} {start d steps : Nat} {b : β} (hd : d < steps)
    (hnone : ∀ d' < d, stop ((start + d') % cap) = none) (hstop : stop ((start + d) % cap) = some b) :
    walk (fun i => (i + 1) % cap) stop steps (start % cap) = some b := by
  induction d generalizing start steps with
  | zero =>
      obtain ⟨steps, rfl⟩ := Nat.exists_eq_succ_of_ne_zero (Nat.ne_of_gt hd)
      rw [Nat.add_zero] at hstop
      rw [walk, hstop]
  | succ d ih =>
      obtain ⟨steps, rfl⟩ := Nat.exists_eq_succ_of_ne_zero (Nat.ne_of_gt (Nat.zero_lt_of_lt hd))
      have hfirst := hnone 0 (Nat.succ_pos d)
      rw [Nat.add_zero] at hfirst
      rw [walk, hfirst]
      dsimp only
      rw [Nat.mod_add_mod]
      apply ih (Nat.lt_of_succ_lt_succ hd)
      · intro d' hd'
        rw [show start + 1 + d' = start + (d' + 1) by omega]
        exact hnone (d' + 1) (Nat.succ_lt_succ hd')
      · rw [show start + 1 + d = start + (d + 1) by omega]
        exact hstop

/-- With a slot to spare there is an empty one on every way. -/
theorem exists_vacant (h : used cap slots < cap) (start : Nat) :
    ∃ d < cap, slots ((start + d) % cap) = 0 := by
  have hsome : ∃ i ∈ Finset.range cap, slots i = 0 := by
    by_contra hfull
    simp only [not_exists, not_and] at hfull
    have hall : ((Finset.range cap).filter fun i => slots i ≠ 0) = Finset.range cap :=
      Finset.filter_true_of_mem hfull
    unfold used at h
    rw [hall, Finset.card_range] at h
    exact lt_irrefl cap h
  obtain ⟨i, hi, hzero⟩ := hsome
  rw [Finset.mem_range] at hi
  have hstart : start % cap < cap := Nat.mod_lt _ (Nat.zero_lt_of_lt hi)
  have hsum : start + (i + (cap - start % cap)) = i + cap * (start / cap + 1) := by
    have hdiv := Nat.div_add_mod start cap
    rw [Nat.mul_add, Nat.mul_one]
    omega
  refine ⟨(i + (cap - start % cap)) % cap, Nat.mod_lt _ (Nat.zero_lt_of_lt hi), ?_⟩
  rw [Nat.add_mod_mod, hsum, Nat.add_mul_mod_self_left, Nat.mod_eq_of_lt hi]
  exact hzero

/-- The loop ends at the first slot that decides. -/
theorem exists_walk (h : used cap slots < cap) {stop : Nat → Option β}
    (hstop : ∀ i, slots i = 0 → stop i ≠ none) (start : Nat) {steps : Nat} (hsteps : cap ≤ steps) :
    ∃ d b, walk (fun i => (i + 1) % cap) stop steps (start % cap) = some b ∧
      (∀ d' < d, stop ((start + d') % cap) = none) ∧ stop ((start + d) % cap) = some b := by
  obtain ⟨d₀, hd₀, hvacant⟩ := exists_vacant h start
  have hends : ∃ d, stop ((start + d) % cap) ≠ none := ⟨d₀, hstop _ hvacant⟩
  classical
  have hleast := Nat.find_min' hends (hstop _ hvacant)
  obtain ⟨b, hb⟩ := Option.ne_none_iff_exists'.mp (Nat.find_spec hends)
  have hnone : ∀ d' < Nat.find hends, stop ((start + d') % cap) = none := by
    intro d' hd'
    exact not_not.mp (Nat.find_min hends hd')
  exact ⟨Nat.find hends, b, walk_eq (by omega) hnone hb, hnone, hb⟩

theorem used_update_le (i e : Nat) :
    used cap (Function.update slots i (e + 1)) ≤ used cap slots + 1 := by
  have hsub : ((Finset.range cap).filter fun j => Function.update slots i (e + 1) j ≠ 0) ⊆
      insert i ((Finset.range cap).filter fun j => slots j ≠ 0) := by
    intro j hj
    rw [Finset.mem_filter] at hj
    rw [Finset.mem_insert, Finset.mem_filter]
    by_cases hij : j = i
    · exact .inl hij
    · rw [Function.update_of_ne hij] at hj
      exact .inr hj
  unfold used
  exact (Finset.card_le_card hsub).trans (Finset.card_insert_le _ _)

variable [BEq κ] {home : κ → Nat} {key : Nat → Option κ} {entries : List (κ × Nat)}

theorem Holds.empty : Holds cap home key (fun _ => 0) [] where
  reached := nofun
  backed := fun _ h => absurd rfl h
  keyed := nofun
  room := by simp [used]

variable [LawfulBEq κ]

theorem mem_of_lookup {k : κ} {e : Nat} (h : entries.lookup k = some e) : (k, e) ∈ entries := by
  obtain ⟨before, after, rfl, -⟩ := List.lookup_eq_some_iff.mp h
  exact List.mem_append_right _ List.mem_cons_self

/-- A slot never holds a key without an entry. -/
theorem Holds.absent (h : Holds cap home key slots entries) {k : κ}
    (hlookup : entries.lookup k = none) {i : Nat} (hfull : slots i ≠ 0) :
    key (slots i - 1) ≠ some k := by
  intro hkey
  obtain ⟨k', e, hin, hslot⟩ := h.backed i hfull
  rw [hslot, Nat.add_sub_cancel, h.keyed k' e hin] at hkey
  have hne := List.lookup_eq_none_iff.mp hlookup (k', e) hin
  rw [Option.some.inj hkey] at hne
  simp at hne

/-- Another entry finds its place. -/
theorem Holds.place (h : Holds cap home key slots entries) (hroom : entries.length < cap) {k : κ}
    {e : Nat} (hkey : key e = some k) {steps : Nat} (hsteps : cap ≤ steps) :
    ∃ slots', Probing.place (fun i => (i + 1) % cap) slots steps (home k % cap) e = some slots' ∧
      Holds cap home key slots' (entries ++ [(k, e)]) := by
  have hused : used cap slots < cap := lt_of_le_of_lt h.room hroom
  have hstop : ∀ i, slots i = 0 → vacant slots i ≠ none := by
    intro i hi
    unfold vacant
    rw [if_pos hi]
    exact Option.some_ne_none i
  obtain ⟨d, i, hwalk, hbefore, hat⟩ := exists_walk hused hstop (home k) hsteps
  have hempty : slots i = 0 ∧ (home k + d) % cap = i := by
    unfold vacant at hat
    split at hat
    next hzero =>
      have hi := Option.some.inj hat
      rw [hi] at hzero
      exact ⟨hzero, hi⟩
    · cases hat
  have hpath : ∀ d' < d, slots ((home k + d') % cap) ≠ 0 := by
    intro d' hd' hzero
    have hnone := hbefore d' hd'
    unfold vacant at hnone
    rw [if_pos hzero] at hnone
    cases hnone
  -- slots in use stay as they are
  have hkeep : ∀ j, slots j ≠ 0 → Function.update slots i (e + 1) j = slots j := by
    intro j hj
    apply Function.update_of_ne
    rintro rfl
    exact hj hempty.1
  refine ⟨Function.update slots i (e + 1), ?_, ?_, ?_, ?_, ?_⟩
  · unfold Probing.place
    rw [hwalk]
    rfl
  · intro k' e' hlookup
    rw [List.lookup_append] at hlookup
    cases hold : entries.lookup k' with
    | some e'' =>
        -- the way of an older key is as it was
        rw [hold, Option.some_or] at hlookup
        cases hlookup
        obtain ⟨d', hway, hslot⟩ := h.reached k' e' hold
        refine ⟨d', ?_, ?_⟩
        · intro d'' hd''
          rw [hkeep _ (hway d'' hd'').1]
          exact hway d'' hd''
        · rw [hkeep _ (by rw [hslot]; exact Nat.succ_ne_zero e'), hslot]
    | none =>
        rw [hold, Option.none_or, List.lookup_cons] at hlookup
        split at hlookup
        next hsame =>
          rw [beq_iff_eq] at hsame
          cases hlookup
          subst hsame
          refine ⟨d, ?_, ?_⟩
          · intro d' hd'
            rw [hkeep _ (hpath d' hd')]
            exact ⟨hpath d' hd', h.absent hold (hpath d' hd')⟩
          · rw [hempty.2, Function.update_self]
        · cases hlookup
  · intro j hj
    by_cases hij : j = i
    · refine ⟨k, e, List.mem_append_right _ List.mem_cons_self, ?_⟩
      rw [hij, Function.update_self]
    · rw [Function.update_of_ne hij] at hj ⊢
      obtain ⟨k', e', hin, hslot⟩ := h.backed j hj
      exact ⟨k', e', List.mem_append_left _ hin, hslot⟩
  · intro k' e' hin
    rcases List.mem_append.mp hin with hin | hin
    · exact h.keyed k' e' hin
    · cases List.mem_singleton.mp hin
      exact hkey
  · rw [List.length_append, List.length_singleton]
    exact (used_update_le i e).trans (Nat.succ_le_succ h.room)

variable [DecidableEq κ]

/-- A key is found as its first entry, or is absent; the loop ends. -/
theorem Holds.find (h : Holds cap home key slots entries) (hroom : entries.length < cap) (k : κ)
    {steps : Nat} (hsteps : cap ≤ steps) :
    walk (fun i => (i + 1) % cap) (decides key slots k) steps (home k % cap) =
      some (entries.lookup k) := by
  have hused : used cap slots < cap := lt_of_le_of_lt h.room hroom
  have hstop : ∀ i, slots i = 0 → decides key slots k i ≠ none := by
    intro i hi
    unfold decides
    rw [if_pos hi]
    exact Option.some_ne_none none
  obtain ⟨d, b, hwalk, hbefore, hat⟩ := exists_walk hused hstop (home k) hsteps
  rw [hwalk]
  congr 1
  cases hlookup : entries.lookup k with
  | none =>
      -- no slot holds the key, so an empty one ended the search
      unfold decides at hat
      split at hat
      · exact (Option.some.inj hat).symm
      next hfull =>
        rw [if_neg (h.absent hlookup hfull)] at hat
        cases hat
  | some e =>
      obtain ⟨d₁, hpath, hslot⟩ := h.reached k e hlookup
      have hkey : key e = some k := h.keyed k e (mem_of_lookup hlookup)
      have hfound : decides key slots k ((home k + d₁) % cap) = some (some e) := by
        unfold decides
        rw [hslot, if_neg (Nat.succ_ne_zero e), Nat.add_sub_cancel, if_pos hkey]
      have hpassed : ∀ d' < d₁, decides key slots k ((home k + d') % cap) = none := by
        intro d' hd'
        unfold decides
        rw [if_neg (hpath d' hd').1, if_neg (hpath d' hd').2]
      -- both ways to the first slot that decides are one
      have hsame : d = d₁ := by
        rcases Nat.lt_trichotomy d d₁ with hlt | heq | hgt
        · rw [hpassed d hlt] at hat
          cases hat
        · exact heq
        · rw [hbefore d₁ hgt] at hfound
          cases hfound
      rw [hsame, hfound] at hat
      exact (Option.some.inj hat).symm

end

end Probing
