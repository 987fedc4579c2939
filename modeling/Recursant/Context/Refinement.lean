import Mathlib.Data.List.Pairwise
import Recursant.Context.Registry
import Recursant.Lib.FencedMap
import Recursant.Lib.Trace

/-!
# The registry as a fenced map

The slots hold live snapshots, expired ones that still fence, and tombstones.  What they say together
is a map from full keys to entries; every call does to the slots what the map's operation does to it.
-/

namespace Recursant.Context

open FencedMap (Op Entry Outcome Map)

/-! ## Calls -/

/-- What a tombstone refuses. -/
def Key.generation (k : Key) : Text × Text × Text := (k.tenant, k.project, k.taskGeneration)

theorem sameGeneration_iff {a b : Key} : sameGeneration a b = true ↔ a.generation = b.generation := by
  unfold sameGeneration Key.generation
  rw [Bool.and_eq_true, Bool.and_eq_true, decide_eq_true_eq, decide_eq_true_eq, decide_eq_true_eq,
    Prod.mk.injEq, Prod.mk.injEq, and_assoc]

/-- `rc_context_get` with its status and what it leaves in the output. -/
def query (r : Registry) (k : Key) (now : Nat) : (Status × Option Snapshot) × Registry :=
  match enter r k now true with
  | (some status, r) => ((status, none), r)
  | (none, r) =>
      match find r k now with
      | none => ((.notFound, none), r)
      | some snapshot => ((.ok, some snapshot), r)

def Status.outcome : Status → Outcome
  | .ok => .ok
  | .invalid => .invalid
  | .notFound => .notFound
  | .conflict => .conflict
  | .full => .full
  | .closed => .closed

abbrev Note := Entry (Text × Bool) Text

abbrev Call := Op Key (Text × Bool) Text

abbrev Reply := FencedMap.Answer (Text × Bool) Text

def Snapshot.note (s : Snapshot) : Note :=
  ⟨s.revision, s.expiresAt, (s.evidence, s.complete), s.interpretation⟩

def snapshotOf (e : Note) : Snapshot := ⟨e.revision, e.expiresAt, e.value.1, e.value.2, e.remark⟩

/-- One call of the registry. -/
def step (r : Registry) : Call → Reply × Registry
  | .put k revision now ttl (evidence, complete) =>
      let (status, r) := put r k revision now ttl evidence complete
      ((status.outcome, none), r)
  | .annotate k revision now interpretation =>
      let (status, r) := interpret r k revision now interpretation
      ((status.outcome, none), r)
  | .get k now =>
      let ((status, snapshot), r) := query r k now
      ((status.outcome, snapshot.map Snapshot.note), r)
  | .close k now =>
      let (status, r) := close r k now
      ((status.outcome, none), r)

/-- The arguments are within bounds. -/
def bounded (horizon : Nat) : Call → Bool
  | .put _ revision now ttl (evidence, _) => decide (revision ≠ 0) && decide (ttl ≠ 0) &&
      decide (now + ttl ≤ uint64Max) && decide (evidence.length < textSize)
  | .annotate _ revision _ interpretation =>
      decide (revision ≠ 0) && decide (interpretation.length < textSize)
  | .get _ _ => true
  | .close _ now => decide (now + horizon ≤ uint64Max)

def acceptable (horizon : Nat) (op : Call) : Bool := validKey op.key && bounded horizon op

abbrev FencedStep (horizon : Nat) :=
  FencedMap.Step (acceptable horizon) Key.generation horizon

/-! ## What the slots say -/

/-- Two slots that may be used together. -/
def Apart : Slot → Slot → Prop
  | .live k _, .live k' _ => k ≠ k'
  | .live k _, .closed k' _ => k.generation ≠ k'.generation
  | .closed k _, .live k' _ => k.generation ≠ k'.generation
  | .closed k _, .closed k' _ => k.generation ≠ k'.generation
  | .unused, _ => True
  | _, .unused => True

theorem Apart.symm : ∀ {a b : Slot}, Apart a b → Apart b a
  | .live _ _, .live _ _, h => fun heq => h heq.symm
  | .live _ _, .closed _ _, h => fun heq => h heq.symm
  | .closed _ _, .live _ _, h => fun heq => h heq.symm
  | .closed _ _, .closed _ _, h => fun heq => h heq.symm
  | .unused, .unused, _ => trivial
  | .unused, .live _ _, _ => trivial
  | .unused, .closed _ _, _ => trivial
  | .live _ _, .unused, _ => trivial
  | .closed _ _, .unused, _ => trivial

theorem apart_unused (a : Slot) : Apart a .unused := by
  cases a <;> trivial

/-- The map that the slots represent. -/
structure Represents (r : Registry) (m : Map Key (Text × Text × Text) (Text × Bool) Text) :
    Prop where
  clock : m.clock = r.lastNow
  entry : ∀ k e, m.entry k = some e ↔ Slot.live k (snapshotOf e) ∈ r.slots
  closedUntil : ∀ g ends, m.closedUntil g = some ends ↔
    ∃ k, Slot.closed k ends ∈ r.slots ∧ k.generation = g
  apart : r.slots.Pairwise Apart

section Slots

variable {r : Registry} {m : Map Key (Text × Text × Text) (Text × Bool) Text} {k : Key}

theorem represents_create (capacity horizon : Nat) :
    Represents (create capacity horizon) Map.empty := by
  have hnone : ∀ slot, slot ∈ (create capacity horizon).slots → slot = .unused := fun slot hslot =>
    List.eq_of_mem_replicate hslot
  refine ⟨rfl, fun k e => ⟨nofun, fun hlive => ?_⟩, fun g ends => ⟨nofun, ?_⟩, ?_⟩
  · cases hnone _ hlive
  · rintro ⟨k, hclosed, -⟩
    cases hnone _ hclosed
  · refine List.pairwise_iff_forall_sublist.mpr fun {a b} hsublist => ?_
    rw [hnone a (hsublist.subset List.mem_cons_self)]
    trivial

/-- The clock advances over the slots as over the map. -/
theorem Represents.tick (h : Represents r m) (now : Nat) :
    Represents (tick r now) (m.tick now) := by
  refine ⟨rfl, fun k e => (h.entry k e).trans ?_, fun g ends => ?_, ?_⟩
  · constructor
    · intro hlive
      exact List.mem_map.mpr ⟨_, hlive, rfl⟩
    · intro hlive
      obtain ⟨slot, hslot, hexpired⟩ := List.mem_map.mp hlive
      cases slot with
      | unused => cases hexpired
      | live k' s =>
          obtain ⟨rfl, rfl⟩ := Slot.live.inj hexpired
          exact hslot
      | closed k' ends =>
          dsimp only [Slot.expire] at hexpired
          split at hexpired <;> cases hexpired
  · show (m.closedUntil g).filter _ = some ends ↔ _
    rw [Option.filter_eq_some_iff, h.closedUntil, decide_eq_true_eq]
    constructor
    · rintro ⟨⟨k, hclosed, hg⟩, hbefore⟩
      refine ⟨k, List.mem_map.mpr ⟨_, hclosed, ?_⟩, hg⟩
      exact if_neg (Nat.not_le_of_lt hbefore)
    · rintro ⟨k, hclosed, hg⟩
      obtain ⟨slot, hslot, hexpired⟩ := List.mem_map.mp hclosed
      cases slot with
      | unused => cases hexpired
      | live k' s => cases hexpired
      | closed k' ends' =>
          dsimp only [Slot.expire] at hexpired
          split at hexpired
          · cases hexpired
          · next hafter =>
              obtain ⟨rfl, rfl⟩ := Slot.closed.inj hexpired
              exact ⟨⟨k', hslot, hg⟩, Nat.lt_of_not_le hafter⟩
  · refine h.apart.map _ fun a b hapart => ?_
    have hexpire : ∀ a, Slot.expire now a = a ∨ Slot.expire now a = .unused := by
      intro a
      cases a with
      | closed k ends =>
          dsimp only [Slot.expire]
          split
          · exact .inr rfl
          · exact .inl rfl
      | _ => exact .inl rfl
    rcases hexpire a with ha | ha
    · rcases hexpire b with hb | hb
      · rw [ha, hb]
        exact hapart
      · rw [hb]
        exact apart_unused _
    · rw [ha]
      exact (apart_unused _).symm

/-- A tombstone of the generation is there exactly when the map refuses it. -/
theorem Represents.closes (h : Represents r m) :
    r.slots.any (Slot.closes k) = true ↔ m.closedUntil k.generation ≠ none := by
  rw [List.any_eq_true, Option.ne_none_iff_exists']
  constructor
  · rintro ⟨slot, hslot, hcloses⟩
    cases slot with
    | closed k' ends => exact ⟨ends, (h.closedUntil _ _).mpr ⟨k', hslot, sameGeneration_iff.mp hcloses⟩⟩
    | _ => cases hcloses
  · rintro ⟨ends, hends⟩
    obtain ⟨k', hslot, hg⟩ := (h.closedUntil _ _).mp hends
    exact ⟨_, hslot, sameGeneration_iff.mpr hg⟩

/-- In an open generation the slot of a key holds its entry. -/
theorem Represents.held (h : Represents r m) (hopen : m.closedUntil k.generation = none)
    {slot : Slot} (hslot : slot ∈ r.slots) (hholds : slot.holds k = true) :
    ∃ e, slot = .live k (snapshotOf e) ∧ m.entry k = some e := by
  cases slot with
  | unused => cases hholds
  | live k' s =>
      obtain rfl : k' = k := of_decide_eq_true hholds
      exact ⟨s.note, rfl, (h.entry _ _).mpr hslot⟩
  | closed k' ends =>
      obtain rfl : k' = k := of_decide_eq_true hholds
      have hrefused := (h.closedUntil k'.generation ends).mpr ⟨k', hslot, rfl⟩
      rw [hopen] at hrefused
      cases hrefused

theorem Represents.find? (h : Represents r m) (hopen : m.closedUntil k.generation = none) :
    r.slots.find? (Slot.holds k) = (m.entry k).map fun e => .live k (snapshotOf e) := by
  cases hfound : r.slots.find? (Slot.holds k) with
  | none =>
      cases hentry : m.entry k with
      | none => rfl
      | some e =>
          have hnone := List.find?_eq_none.mp hfound _ ((h.entry k e).mp hentry)
          exact absurd (decide_eq_true rfl) hnone
  | some slot =>
      obtain ⟨e, rfl, hentry⟩ :=
        h.held hopen (List.mem_of_find?_eq_some hfound) (List.find?_some hfound)
      rw [hentry]
      rfl

/-- The live entry is what the lookup finds. -/
theorem Represents.find (h : Represents r m) (hopen : m.closedUntil k.generation = none)
    (now : Nat) : find r k now = (m.live k now).map snapshotOf := by
  unfold Context.find Map.live
  rw [h.find? hopen]
  cases m.entry k with
  | none => rfl
  | some e =>
      show (if now ≥ e.expiresAt then none else some (snapshotOf e)) = _
      rw [Option.filter_some]
      by_cases hpast : now ≥ e.expiresAt
      · rw [if_pos hpast, if_neg (by rw [decide_eq_true_eq]; omega)]
        rfl
      · rw [if_neg hpast, if_pos (decide_eq_true (Nat.lt_of_not_le hpast))]
        rfl

end Slots

/-! ## Writing a slot -/

theorem pairwise_set {α : Type} {R : α → α → Prop} (hsymm : ∀ {a b}, R a b → R b a) {l : List α}
    (h : l.Pairwise R) {i : Nat} {a : α} (ha : ∀ j x, j ≠ i → l[j]? = some x → R a x) :
    (l.set i a).Pairwise R := by
  rw [List.pairwise_iff_getElem] at h ⊢
  intro p q hp hq hlt
  rw [List.length_set] at hp hq
  rw [List.getElem_set, List.getElem_set]
  by_cases hip : i = p
  · have hiq : i ≠ q := by omega
    rw [if_pos hip, if_neg hiq]
    exact ha q _ (Ne.symm hiq) (List.getElem?_eq_getElem hq)
  · rw [if_neg hip]
    by_cases hiq : i = q
    · rw [if_pos hiq]
      exact hsymm (ha p _ (Ne.symm hip) (List.getElem?_eq_getElem hp))
    · rw [if_neg hiq]
      exact h p q hp hq hlt

theorem mem_set_iff {α : Type} {l : List α} {i : Nat} (hi : i < l.length) {a x : α} :
    x ∈ l.set i a ↔ x = a ∨ ∃ j, j ≠ i ∧ l[j]? = some x := by
  constructor
  · intro hx
    obtain ⟨j, hj⟩ := List.mem_iff_getElem?.mp hx
    rw [List.getElem?_set] at hj
    by_cases hij : i = j
    · rw [if_pos hij, if_pos hi] at hj
      exact .inl (Option.some.inj hj).symm
    · rw [if_neg hij] at hj
      exact .inr ⟨j, Ne.symm hij, hj⟩
  · rintro (rfl | ⟨j, hji, hj⟩)
    · exact List.mem_set hi _
    · refine List.mem_iff_getElem?.mpr ⟨j, ?_⟩
      rw [List.getElem?_set, if_neg (Ne.symm hji)]
      exact hj

section Writes

variable {r : Registry} {m : Map Key (Text × Text × Text) (Text × Bool) Text} {k : Key}
  {slots : List Slot}

/-- A slot that takes the entry of the key. -/
structure Takes (slots : List Slot) (k : Key) (i : Nat) : Prop where
  bound : i < slots.length
  free : ∀ slot, slots[i]? = some slot → slot = .unused ∨ slot.holds k = true
  others : ∀ j slot, j ≠ i → slots[j]? = some slot → slot.holds k = false

theorem Represents.place (h : Represents r m) (hopen : m.closedUntil k.generation = none)
    {slot : Slot} (hplace : Context.place r.slots k slot = some slots) :
    ∃ i, Takes r.slots k i ∧ slots = r.slots.set i slot := by
  unfold Context.place at hplace
  obtain ⟨i, hi, rfl⟩ := Option.map_eq_some_iff.mp hplace
  refine ⟨i, ?_, rfl⟩
  cases hheld : r.slots.findIdx? (Slot.holds k) with
  | some n =>
      rw [hheld] at hi
      obtain rfl := Option.some.inj hi
      obtain ⟨hn, hholds, -⟩ := List.findIdx?_eq_some_iff_getElem.mp hheld
      refine ⟨hn, fun slot hslot => ?_, fun j other hj hother => ?_⟩
      · obtain rfl := Option.some.inj ((List.getElem?_eq_getElem hn).symm.trans hslot)
        exact .inr hholds
      · -- the same key twice would not be apart
        cases hboth : other.holds k with
        | false => rfl
        | true =>
            exfalso
            obtain ⟨e, hlive, -⟩ := h.held hopen (List.getElem_mem hn) hholds
            obtain ⟨e', rfl, -⟩ := h.held hopen (List.mem_of_getElem? hother) hboth
            obtain ⟨hlt, hget⟩ := List.getElem?_eq_some_iff.mp hother
            have hapart := List.pairwise_iff_getElem.mp h.apart
            rcases Nat.lt_or_gt_of_ne hj with hbefore | hafter
            · have hpair := hapart j n hlt hn hbefore
              rw [hget, hlive] at hpair
              exact hpair rfl
            · have hpair := hapart n j hn hlt hafter
              rw [hget, hlive] at hpair
              exact hpair rfl
  | none =>
      rw [hheld] at hi
      have hi : r.slots.findIdx? Slot.isUnused = some i := hi
      obtain ⟨hlt, hunused, -⟩ := List.findIdx?_eq_some_iff_getElem.mp hi
      have hnone : ∀ slot ∈ r.slots, slot.holds k = false := List.findIdx?_eq_none_iff.mp hheld
      refine ⟨hlt, fun slot hslot => .inl ?_, fun j other _ hother => hnone _ (List.mem_of_getElem? hother)⟩
      obtain rfl := Option.some.inj ((List.getElem?_eq_getElem hlt).symm.trans hslot)
      generalize r.slots[i] = slot at hunused
      cases slot with
      | unused => rfl
      | _ => cases hunused

/-- A snapshot that finds no slot is that of a key without one. -/
theorem Represents.place_none (h : Represents r m) {slot : Slot}
    (hplace : Context.place r.slots k slot = none) : m.entry k = none := by
  unfold Context.place at hplace
  rw [Option.map_eq_none_iff, Option.or_eq_none_iff] at hplace
  cases hentry : m.entry k with
  | none => rfl
  | some e =>
      have hnone := List.findIdx?_eq_none_iff.mp hplace.1 _ ((h.entry k e).mp hentry)
      have hholds : Slot.holds k (.live k (snapshotOf e)) = true := decide_eq_true rfl
      rw [hholds] at hnone
      cases hnone

theorem Represents.put (h : Represents r m) (hopen : m.closedUntil k.generation = none) {i : Nat}
    (htakes : Takes r.slots k i) (e : Note) :
    Represents { r with slots := r.slots.set i (.live k (snapshotOf e)) } (m.put k e) := by
  have hmem : ∀ x, x ∈ r.slots.set i (.live k (snapshotOf e)) ↔
      x = .live k (snapshotOf e) ∨ x ≠ .unused ∧ x.holds k = false ∧ x ∈ r.slots ∨
        x = .unused ∧ ∃ j, j ≠ i ∧ r.slots[j]? = some x := by
    intro x
    rw [mem_set_iff htakes.bound]
    refine or_congr_right ⟨?_, ?_⟩
    · rintro ⟨j, hji, hj⟩
      by_cases hx : x = .unused
      · exact .inr ⟨hx, j, hji, hj⟩
      · exact .inl ⟨hx, htakes.others j x hji hj, List.mem_of_getElem? hj⟩
    · rintro (⟨hused, hother, hx⟩ | ⟨-, hj⟩)
      · obtain ⟨j, hj⟩ := List.mem_iff_getElem?.mp hx
        refine ⟨j, ?_, hj⟩
        rintro rfl
        cases htakes.free x hj with
        | inl hunused => exact hused hunused
        | inr hholds =>
            rw [hother] at hholds
            cases hholds
      · exact hj
  refine ⟨h.clock, fun k' e' => ?_, fun g ends => (h.closedUntil g ends).trans ?_, ?_⟩
  · show Function.update m.entry k (some e) k' = some e' ↔ _
    rw [hmem]
    by_cases hk : k' = k
    · rw [hk, Function.update_self]
      constructor
      · intro heq
        rw [Option.some.inj heq]
        exact .inl rfl
      · rintro (hlive | ⟨-, hother, -⟩ | ⟨hunused, -⟩)
        · exact congrArg (fun s => some s.note) (Slot.live.inj hlive).2.symm
        · have hholds : Slot.holds k (.live k (snapshotOf e')) = true := decide_eq_true rfl
          rw [hholds] at hother
          cases hother
        · cases hunused
    · rw [Function.update_of_ne hk, h.entry]
      constructor
      · intro hlive
        exact .inr (.inl ⟨nofun, decide_eq_false hk, hlive⟩)
      · rintro (hlive | ⟨-, -, hlive⟩ | ⟨hunused, -⟩)
        · exact absurd (Slot.live.inj hlive).1 hk
        · exact hlive
        · cases hunused
  · constructor
    · rintro ⟨k', hclosed, hg⟩
      refine ⟨k', (hmem _).mpr (.inr (.inl ⟨nofun, ?_, hclosed⟩)), hg⟩
      refine decide_eq_false fun hk => ?_
      have hrefused := (h.closedUntil g ends).mpr ⟨k', hclosed, hg⟩
      rw [← hg, hk, hopen] at hrefused
      cases hrefused
    · rintro ⟨k', hclosed, hg⟩
      rcases (hmem _).mp hclosed with hlive | ⟨-, -, hold⟩ | ⟨hunused, -⟩
      · cases hlive
      · exact ⟨k', hold, hg⟩
      · cases hunused
  · refine pairwise_set Apart.symm h.apart fun j x hji hj => ?_
    have hother := htakes.others j x hji hj
    cases x with
    | unused => exact apart_unused _
    | live k' s => exact fun hk => absurd hk.symm (of_decide_eq_false hother)
    | closed k' ends =>
        intro hg
        have hrefused := (h.closedUntil _ ends).mpr ⟨k', List.mem_of_getElem? hj, rfl⟩
        rw [← hg, hopen] at hrefused
        cases hrefused

/-! ## Closing -/

/-- The slots without those of the generation. -/
def freed (k : Key) (slots : List Slot) : List Slot :=
  slots.map fun s => if s.inGeneration k then .unused else s

theorem mem_freed {slot : Slot} (hused : slot ≠ .unused) :
    slot ∈ freed k slots ↔ slot ∈ slots ∧ slot.inGeneration k = false := by
  unfold freed
  rw [List.mem_map]
  constructor
  · rintro ⟨s, hs, hsame⟩
    by_cases hin : s.inGeneration k = true
    · rw [if_pos hin] at hsame
      exact absurd hsame.symm hused
    · rw [if_neg hin] at hsame
      rw [← hsame]
      exact ⟨hs, Bool.eq_false_iff.mpr hin⟩
  · rintro ⟨hs, hout⟩
    refine ⟨slot, hs, if_neg ?_⟩
    rw [hout]
    exact Bool.false_ne_true

/-- When no freed slot is unused, none was freed. -/
theorem freed_full (h : (freed k slots).findIdx? Slot.isUnused = none) :
    freed k slots = slots ∧ ∀ slot ∈ slots, slot.inGeneration k = false := by
  have hnone := List.findIdx?_eq_none_iff.mp h
  have hout : ∀ slot ∈ slots, slot.inGeneration k = false := by
    intro slot hslot
    cases hin : slot.inGeneration k with
    | false => rfl
    | true =>
        have hunused := hnone _ (List.mem_map.mpr ⟨slot, hslot, if_pos hin⟩)
        cases hunused
  refine ⟨?_, hout⟩
  unfold freed
  rw [List.map_congr_left fun slot hslot => if_neg (by rw [hout slot hslot]; exact Bool.false_ne_true)]
  exact List.map_id' _

theorem Represents.close (h : Represents r m) (hopen : m.closedUntil k.generation = none) {i : Nat}
    (hi : (freed k r.slots).findIdx? Slot.isUnused = some i) (ends : Nat) :
    Represents { r with slots := (freed k r.slots).set i (.closed k ends) }
      (m.close Key.generation k.generation ends) := by
  obtain ⟨hlt, hunused, -⟩ := List.findIdx?_eq_some_iff_getElem.mp hi
  have hmem : ∀ x, x ≠ .unused → (x ∈ (freed k r.slots).set i (.closed k ends) ↔
      x = .closed k ends ∨ x ∈ r.slots ∧ x.inGeneration k = false) := by
    intro x hused
    rw [mem_set_iff hlt, ← mem_freed hused]
    refine or_congr_right ⟨?_, fun hx => ?_⟩
    · rintro ⟨j, -, hj⟩
      exact List.mem_of_getElem? hj
    · obtain ⟨j, hj⟩ := List.mem_iff_getElem?.mp hx
      refine ⟨j, ?_, hj⟩
      rintro rfl
      obtain rfl := Option.some.inj ((List.getElem?_eq_getElem hlt).symm.trans hj)
      generalize (freed k r.slots)[j] = slot at hunused hused
      cases slot with
      | unused => exact hused rfl
      | _ => cases hunused
  have hout : ∀ {k' : Key}, k'.generation ≠ k.generation ↔ sameGeneration k' k = false := by
    intro k'
    rw [Bool.eq_false_iff, ne_eq, ne_eq, sameGeneration_iff]
  have hlives : ∀ k' s, Slot.live k' s ∈ (freed k r.slots).set i (.closed k ends) ↔
      Slot.live k' s ∈ r.slots ∧ k'.generation ≠ k.generation := by
    intro k' s
    rw [hmem (.live k' s) nofun, hout]
    exact ⟨fun hor => hor.resolve_left nofun, .inr⟩
  have hcloseds : ∀ k' u, Slot.closed k' u ∈ (freed k r.slots).set i (.closed k ends) ↔
      k' = k ∧ u = ends ∨ Slot.closed k' u ∈ r.slots ∧ k'.generation ≠ k.generation := by
    intro k' u
    rw [hmem (.closed k' u) nofun, hout, Slot.closed.injEq]
    rfl
  refine ⟨h.clock, fun k' e => ?_, fun g u => ?_, ?_⟩
  · show (if k'.generation = k.generation then none else m.entry k') = some e ↔ _
    rw [hlives]
    by_cases hg : k'.generation = k.generation
    · rw [if_pos hg]
      exact ⟨nofun, fun hboth => absurd hg hboth.2⟩
    · rw [if_neg hg, h.entry]
      exact ⟨fun hlive => ⟨hlive, hg⟩, And.left⟩
  · show Function.update m.closedUntil k.generation (some ends) g = some u ↔ ∃ k', _ ∧ _
    simp only [hcloseds]
    by_cases hg : g = k.generation
    · rw [hg, Function.update_self]
      constructor
      · intro hends
        exact ⟨k, .inl ⟨rfl, (Option.some.inj hends).symm⟩, rfl⟩
      · rintro ⟨k', ⟨-, rfl⟩ | ⟨-, hother⟩, hsame⟩
        · rfl
        · exact absurd hsame hother
    · rw [Function.update_of_ne hg, h.closedUntil]
      constructor
      · rintro ⟨k', hclosed, hsame⟩
        exact ⟨k', .inr ⟨hclosed, fun hin => hg (hsame.symm.trans hin)⟩, hsame⟩
      · rintro ⟨k', ⟨rfl, -⟩ | ⟨hold, -⟩, hsame⟩
        · exact absurd hsame.symm hg
        · exact ⟨k', hold, hsame⟩
  · refine pairwise_set Apart.symm ?_ fun j x _ hj => ?_
    · refine h.apart.map _ fun a b hapart => ?_
      by_cases ha : a.inGeneration k = true
      · rw [if_pos ha]
        trivial
      · rw [if_neg ha]
        by_cases hb : b.inGeneration k = true
        · rw [if_pos hb]
          exact apart_unused _
        · rw [if_neg hb]
          exact hapart
    · have hx := List.mem_of_getElem? hj
      cases x with
      | unused => exact apart_unused _
      | live k' s =>
          obtain ⟨-, hout⟩ := (mem_freed (by nofun)).mp hx
          exact fun hg => Bool.eq_false_iff.mp hout (sameGeneration_iff.mpr hg.symm)
      | closed k' u =>
          obtain ⟨-, hout⟩ := (mem_freed (by nofun)).mp hx
          exact fun hg => Bool.eq_false_iff.mp hout (sameGeneration_iff.mpr hg.symm)

end Writes

/-! ## One call -/

section Calls

variable {r : Registry} {m : Map Key (Text × Text × Text) (Text × Bool) Text}

/-- What a call finds before it looks at the slots. -/
inductive Entered (r : Registry) (m : Map Key (Text × Text × Text) (Text × Bool) Text) (op : Call) :
    Option Status × Registry → Prop
  | invalid : acceptable r.horizon op = false ∨ op.now < m.clock → Entered r m op (some .invalid, r)
  | closed {s : Registry} : acceptable r.horizon op = true → m.clock ≤ op.now →
      (m.tick op.now).closedUntil op.key.generation ≠ none → Represents s (m.tick op.now) →
      s.horizon = r.horizon → Entered r m op (some .closed, s)
  | entered {s : Registry} {u : Map Key (Text × Text × Text) (Text × Bool) Text} :
      FencedMap.Enters (acceptable r.horizon) Key.generation m op u → Represents s u →
      s.horizon = r.horizon → Entered r m op (none, s)

theorem Represents.enter (h : Represents r m) (op : Call) :
    Entered r m op (enter r op.key op.now (bounded r.horizon op)) := by
  have hticked := h.tick op.now
  unfold Context.enter
  split
  · next hbad =>
      refine .invalid ?_
      rw [Bool.or_eq_true, Bool.or_eq_true, decide_eq_true_eq, ← h.clock, Bool.not_eq_true',
        Bool.not_eq_true'] at hbad
      unfold acceptable
      rcases hbad with (hkey | hbounds) | hback
      · left
        rw [hkey, Bool.false_and]
      · left
        rw [hbounds, Bool.and_false]
      · exact .inr hback
  · next hgood =>
      rw [Bool.or_eq_true, Bool.or_eq_true, decide_eq_true_eq, ← h.clock, not_or, not_or,
        Bool.not_eq_true', Bool.not_eq_true', Bool.not_eq_false, Bool.not_eq_false] at hgood
      obtain ⟨⟨hkey, hbounds⟩, hforward⟩ := hgood
      have hvalid : acceptable r.horizon op = true := by
        unfold acceptable
        rw [hkey, hbounds]
        rfl
      have hclock : m.clock ≤ op.now := Nat.le_of_not_lt hforward
      dsimp only
      split
      · next hcloses => exact .closed hvalid hclock (hticked.closes.mp hcloses) hticked rfl
      · next hopen =>
          rw [hticked.closes, not_not] at hopen
          exact .entered ⟨hvalid, hclock, rfl, hopen⟩ hticked rfl

/-- What the call answers and leaves is what the operation answers and leaves of the map. -/
def Follows (r : Registry) (m : Map Key (Text × Text × Text) (Text × Bool) Text) (op : Call)
    (answer : Reply) (s : Registry) : Prop :=
  ∃ t, FencedStep r.horizon m op answer t ∧ Represents s t ∧ s.horizon = r.horizon

/-- What a put answers and leaves once no newer revision stands in its way. -/
def placing (s : Registry) (k : Key) (snapshot : Snapshot) : Status × Registry :=
  match Context.place s.slots k (.live k snapshot) with
  | none => (.full, s)
  | some slots => (.ok, { s with slots })

theorem Represents.put_follows (h : Represents r m) (k : Key) (revision now ttl : Nat)
    (evidence : Text) (complete : Bool) :
    Follows r m (.put k revision now ttl (evidence, complete))
      ((Context.put r k revision now ttl evidence complete).1.outcome, none)
      (Context.put r k revision now ttl evidence complete).2 := by
  have hentered := h.enter (.put k revision now ttl (evidence, complete))
  dsimp only [Op.key, Op.now, bounded] at hentered
  unfold Context.put
  dsimp only
  generalize Context.enter r k now _ = found at hentered
  cases hentered with
  | invalid hbad => exact ⟨m, .invalid hbad, h, rfl⟩
  | closed hvalid hclock hclosed hrep hhorizon =>
      exact ⟨_, .closed hvalid hclock hclosed, hrep, hhorizon⟩
  | @entered s u henters hrep hhorizon =>
      have hopen : u.closedUntil k.generation = none := henters.isOpen
      dsimp only
      -- a put that is newer takes a slot, if there is one
      have hplaces (hnewer : ∀ e, u.entry k = some e → e.revision < revision) :
          Follows r m (.put k revision now ttl (evidence, complete))
            ((placing s k ⟨revision, now + ttl, evidence, complete, none⟩).1.outcome, none)
            (placing s k ⟨revision, now + ttl, evidence, complete, none⟩).2 := by
        unfold placing
        cases hplace : Context.place s.slots k
            (.live k ⟨revision, now + ttl, evidence, complete, none⟩) with
        | none => exact ⟨u, .full henters (hrep.place_none hplace), hrep, hhorizon⟩
        | some slots =>
            obtain ⟨i, htakes, rfl⟩ := hrep.place hopen hplace
            exact ⟨_, .put henters hnewer, hrep.put hopen htakes
              ⟨revision, now + ttl, (evidence, complete), none⟩, hhorizon⟩
      split
      · next found hfound =>
          rw [hrep.find? hopen] at hfound
          obtain ⟨e, hentry, hsame⟩ := Option.map_eq_some_iff.mp hfound
          rw [← (Slot.live.inj hsame).2]
          by_cases hnewer : e.revision < revision
          · rw [if_neg (by rw [Bool.not_eq_true', decide_eq_false_iff_not, not_not]; exact hnewer)]
            refine hplaces fun e' he' => ?_
            obtain rfl := Option.some.inj (hentry.symm.trans he')
            exact hnewer
          · rw [if_pos (by rw [Bool.not_eq_true', decide_eq_false_iff_not]; exact hnewer)]
            exact ⟨u, .stale henters hentry (Nat.le_of_not_lt hnewer), hrep, hhorizon⟩
      · next hother =>
          rw [if_neg (by decide)]
          refine hplaces fun e he => (hother k (snapshotOf e) ?_).elim
          rw [hrep.find? hopen, he]
          rfl

theorem Represents.interpret_follows (h : Represents r m) (k : Key) (revision now : Nat)
    (interpretation : Text) :
    Follows r m (.annotate k revision now interpretation)
      ((interpret r k revision now interpretation).1.outcome, none)
      (interpret r k revision now interpretation).2 := by
  have hentered := h.enter (.annotate k revision now interpretation)
  dsimp only [Op.key, Op.now, bounded] at hentered
  unfold interpret
  generalize Context.enter r k now _ = found at hentered
  cases hentered with
  | invalid hbad => exact ⟨m, .invalid hbad, h, rfl⟩
  | closed hvalid hclock hclosed hrep hhorizon =>
      exact ⟨_, .closed hvalid hclock hclosed, hrep, hhorizon⟩
  | @entered s u henters hrep hhorizon =>
      have hopen : u.closedUntil k.generation = none := henters.isOpen
      dsimp only
      rw [hrep.find hopen now]
      cases hlive : u.live k now with
      | none => exact ⟨u, .unknown henters hlive, hrep, hhorizon⟩
      | some e =>
          dsimp only [Option.map_some, snapshotOf]
          split
          · next hother =>
              rw [Bool.or_eq_true, decide_eq_true_eq] at hother
              refine ⟨u, .other henters hlive (hother.imp id fun hset hnone => ?_), hrep, hhorizon⟩
              rw [hnone] at hset
              cases hset
          · next hsame =>
              rw [Bool.or_eq_true, decide_eq_true_eq, not_or, not_not] at hsame
              have hunset : e.remark = none := by
                cases hremark : e.remark with
                | none => rfl
                | some x =>
                    rw [hremark] at hsame
                    exact absurd rfl hsame.2
              cases hplace : Context.place s.slots k _ with
              | none =>
                  have hnone := hrep.place_none hplace
                  unfold Map.live at hlive
                  rw [hnone] at hlive
                  cases hlive
              | some slots =>
                  obtain ⟨i, htakes, rfl⟩ := hrep.place hopen hplace
                  exact ⟨_, .annotate henters hlive hsame.1 hunset,
                    hrep.put hopen htakes { e with remark := some interpretation }, hhorizon⟩

theorem Represents.query_follows (h : Represents r m) (k : Key) (now : Nat) :
    Follows r m (.get k now)
      ((query r k now).1.1.outcome, (query r k now).1.2.map Snapshot.note) (query r k now).2 := by
  have hentered := h.enter (.get k now)
  dsimp only [Op.key, Op.now, bounded] at hentered
  unfold query
  generalize Context.enter r k now _ = found at hentered
  cases hentered with
  | invalid hbad => exact ⟨m, .invalid hbad, h, rfl⟩
  | closed hvalid hclock hclosed hrep hhorizon =>
      exact ⟨_, .closed hvalid hclock hclosed, hrep, hhorizon⟩
  | @entered s u henters hrep hhorizon =>
      have hopen : u.closedUntil k.generation = none := henters.isOpen
      dsimp only
      rw [hrep.find hopen now]
      cases hlive : u.live k now with
      | none => exact ⟨u, .missing henters hlive, hrep, hhorizon⟩
      | some e => exact ⟨u, .get henters hlive, hrep, hhorizon⟩

theorem Represents.close_follows (h : Represents r m) (k : Key) (now : Nat) :
    Follows r m (.close k now) ((Context.close r k now).1.outcome, none)
      (Context.close r k now).2 := by
  have hentered := h.enter (.close k now)
  dsimp only [Op.key, Op.now, bounded] at hentered
  unfold Context.close
  generalize Context.enter r k now _ = found at hentered
  cases hentered with
  | invalid hbad => exact ⟨m, .invalid hbad, h, rfl⟩
  | closed hvalid hclock hclosed hrep hhorizon =>
      exact ⟨_, .closed hvalid hclock hclosed, hrep, hhorizon⟩
  | @entered s u henters hrep hhorizon =>
      have hopen : u.closedUntil k.generation = none := henters.isOpen
      have hfreed : (s.slots.map fun slot => if slot.inGeneration k then .unused else slot) =
          freed k s.slots := rfl
      dsimp only
      rw [hfreed]
      cases hunused : (freed k s.slots).findIdx? Slot.isUnused with
      | none =>
          obtain ⟨hsame, hout⟩ := freed_full hunused
          dsimp only
          rw [hsame]
          refine ⟨u, .crowded henters fun k' hg => ?_, hrep, hhorizon⟩
          cases hentry : u.entry k' with
          | none => rfl
          | some e =>
              have hother := hout _ ((hrep.entry k' e).mp hentry)
              rw [show Slot.inGeneration k (.live k' (snapshotOf e)) = true from
                sameGeneration_iff.mpr hg] at hother
              cases hother
      | some i =>
          refine ⟨_, ?_, hrep.close hopen hunused (now + s.horizon), hhorizon⟩
          rw [hhorizon]
          exact .close henters

/-- One call does to the slots what its operation does to the map. -/
theorem Represents.step (h : Represents r m) (op : Call) :
    Follows r m op (step r op).1 (step r op).2 := by
  cases op with
  | put k revision now ttl value => exact h.put_follows k revision now ttl value.1 value.2
  | annotate k revision now interpretation => exact h.interpret_follows k revision now interpretation
  | get k now => exact h.query_follows k now
  | close k now => exact h.close_follows k now

/-- What a call has done when it comes to the slots. -/
theorem enter_eq {r s : Registry} {k : Key} {now : Nat} {ok : Bool} {status : Option Status}
    (h : Context.enter r k now ok = (status, s)) : s = r ∨ s = tick r now := by
  unfold Context.enter at h
  split at h
  · exact .inl (Prod.mk.inj h).2.symm
  · dsimp only at h
    split at h
    all_goals exact .inr (Prod.mk.inj h).2.symm

/-- The registry is what the call entered with. -/
def Ticked (r : Registry) (now : Nat) (s : Registry) : Prop := s = r ∨ s = tick r now

section Frames

variable {s : Registry} {k : Key} {now : Nat} {status : Status}

theorem put_frame {revision ttl : Nat} {evidence : Text} {complete : Bool}
    (h : Context.put r k revision now ttl evidence complete = (status, s)) (hnot : status ≠ .ok) :
    Ticked r now s := by
  unfold Context.put at h
  dsimp only at h
  split at h
  · next hentered =>
      cases h
      exact enter_eq hentered
  · next hentered =>
      split at h
      all_goals
        split at h
        · cases h
          exact enter_eq hentered
        · split at h
          · cases h
            exact enter_eq hentered
          · cases h
            exact absurd rfl hnot

theorem interpret_frame {revision : Nat} {interpretation : Text}
    (h : interpret r k revision now interpretation = (status, s)) (hnot : status ≠ .ok) :
    Ticked r now s := by
  unfold interpret at h
  split at h
  · next hentered =>
      cases h
      exact enter_eq hentered
  · next hentered =>
      split at h
      · cases h
        exact enter_eq hentered
      · split at h
        · cases h
          exact enter_eq hentered
        · split at h
          · cases h
            exact enter_eq hentered
          · cases h
            exact absurd rfl hnot

theorem query_frame {found : Option Snapshot} (h : query r k now = ((status, found), s)) :
    Ticked r now s := by
  unfold query at h
  split at h
  · next hentered =>
      cases h
      exact enter_eq hentered
  · next hentered =>
      split at h
      all_goals
        cases h
        exact enter_eq hentered

theorem close_frame (h : Context.close r k now = (status, s)) (hnot : status ≠ .ok) :
    Ticked r now s := by
  unfold Context.close at h
  split at h
  · next hentered =>
      cases h
      exact enter_eq hentered
  · next t hentered =>
      dsimp only at h
      split at h
      · next hfull =>
          have hfull : (freed k t.slots).findIdx? Slot.isUnused = none := hfull
          cases h
          rw [show (t.slots.map fun slot => if slot.inGeneration k then .unused else slot) =
            t.slots from (freed_full hfull).1]
          exact enter_eq hentered
      · cases h
        exact absurd rfl hnot

end Frames

theorem outcome_ne_ok {status : Status} (h : status.outcome ≠ .ok) : status ≠ .ok := by
  rintro rfl
  exact h rfl

/-- A call that does not return OK changes nothing but the clock and tombstones that have expired. -/
theorem step_frame (r : Registry) (op : Call) (hnot : (Context.step r op).1.1 ≠ .ok) :
    Ticked r op.now (Context.step r op).2 := by
  cases op with
  | put k revision now ttl value => exact put_frame Prod.mk.eta.symm (outcome_ne_ok hnot)
  | annotate k revision now interpretation =>
      exact interpret_frame Prod.mk.eta.symm (outcome_ne_ok hnot)
  | get k now => exact query_frame Prod.mk.eta.symm
  | close k now => exact close_frame Prod.mk.eta.symm (outcome_ne_ok hnot)

end Calls

/-! ## Runs -/

open FencedMap (Closes Last)

abbrev History := List (Call × Reply)

theorem represented {capacity horizon : Nat} {history : History} {r : Registry}
    (run : Trace.Runs step (create capacity horizon) history r) : ∃ m,
      FencedMap.Runs (acceptable horizon) Key.generation horizon Map.empty history m ∧
        Represents r m ∧ r.horizon = horizon := by
  induction run with
  | init => exact ⟨_, .init, represents_create capacity horizon, rfl⟩
  | @next before s t op answer _ hstep ih =>
      obtain ⟨m, hruns, hrep, hhorizon⟩ := ih
      obtain ⟨u, hfenced, hnext, hsame⟩ := hrep.step op
      rw [hstep, hhorizon] at hfenced
      rw [hstep] at hnext hsame
      exact ⟨u, hruns.next hfenced, hnext, hsame.trans hhorizon⟩

/-- The registry says of every key what the history of its calls says. -/
structure Refines (horizon : Nat) (history : History) (r : Registry) : Prop where
  represented : ∃ m, FencedMap.Runs (acceptable horizon) Key.generation horizon Map.empty history m ∧
    Represents r m
  newer : ∀ (k : Key) (earlier middle later : History) (first second now now' ttl ttl' : Nat)
    (value value' : Text × Bool),
    history = earlier ++ (.put k first now ttl value, (.ok, none)) ::
      (middle ++ (.put k second now' ttl' value', (.ok, none)) :: later) →
    (∀ p ∈ middle, ¬ Closes Key.generation k.generation p) → first < second
  latest : ∀ (k : Key) (now : Nat), validKey k = true → r.lastNow ≤ now → ∀ e,
    (step r (.get k now)).1 = (.ok, some e) ↔ Last Key.generation history k e ∧ now < e.expiresAt
  once : ∀ (k : Key) (earlier middle later : History) (revision now now' : Nat)
    (interpretation interpretation' : Text),
    history = earlier ++ (.annotate k revision now interpretation, (.ok, none)) ::
      (middle ++ (.annotate k revision now' interpretation', (.ok, none)) :: later) →
    ∃ p ∈ middle, Closes Key.generation k.generation p
  fenced : ∀ (k : Key) (revision now ttl : Nat) (value : Text × Bool) (e : Note),
    acceptable horizon (.put k revision now ttl value) = true → r.lastNow ≤ now →
    Last Key.generation history k e → revision ≤ e.revision →
    (step r (.put k revision now ttl value)).1 = (.conflict, none)
  closed : ∀ (k : Key) (earlier later : History) (since : Nat),
    history = earlier ++ (.close k since, (.ok, none)) :: later → r.lastNow < since + horizon →
    (∀ k' s, Slot.live k' s ∈ r.slots → k'.generation ≠ k.generation) ∧
      ∀ op : Call, op.key.generation = k.generation → acceptable horizon op = true →
        r.lastNow ≤ op.now → op.now < since + horizon → (step r op).1 = (.closed, none)
  frame : ∀ op : Call, (step r op).1.1 ≠ .ok → Ticked r op.now (step r op).2

/-- The slot registry refines the map from full keys to entries over every sequence of calls. -/
theorem registry_refines {capacity horizon : Nat} {history : History} {r : Registry}
    (run : Trace.Runs step (create capacity horizon) history r) : Refines horizon history r := by
  obtain ⟨m, hruns, hrep, hhorizon⟩ := represented run
  have hexcluded := hruns.excluded (FencedMap.excluded_empty _)
  have hclock := hrep.clock
  have hnext : ∀ op, ∃ t, FencedStep horizon m op (step r op).1 t := by
    intro op
    obtain ⟨t, hfenced, -, -⟩ := hrep.step op
    rw [hhorizon] at hfenced
    exact ⟨t, hfenced⟩
  refine ⟨⟨m, hruns, hrep⟩, fun k earlier middle later first second now now' ttl ttl' value value'
    hhistory hopen => hruns.newer hhistory hopen, fun k now hvalid hnow e => ?_,
    fun k earlier middle later revision now now' interpretation interpretation' hhistory => ?_,
    fun k revision now ttl value e hvalid hnow hlast hold => ?_,
    fun k earlier later since hhistory hbefore => ?_, step_frame r⟩
  · obtain ⟨t, hfenced⟩ := hnext (.get k now)
    have hacceptable : acceptable horizon (.get k now) = true := by
      unfold acceptable
      exact (Bool.and_true _).trans hvalid
    rw [hfenced.get_iff hexcluded hacceptable (hclock.trans_le hnow) e, hruns.entry_iff]
  · by_contra hnone
    exact hruns.remarked_once hhistory fun p hp hcloses => hnone ⟨p, hp, hcloses⟩
  · obtain ⟨t, hfenced⟩ := hnext (.put k revision now ttl value)
    exact hfenced.fenced hexcluded hvalid (hclock.trans_le hnow) ((hruns.entry_iff k e).mpr hlast) hold
  · rw [hhistory] at hruns
    obtain ⟨s, t, -, hstep, hlater⟩ := hruns.between
    obtain ⟨hclosed, -⟩ := hstep.closes (g := k.generation) rfl
    have hstill := FencedMap.Runs.closedUntil hlater hclosed (hclock.trans_lt hbefore)
    refine ⟨fun k' s hlive hg => ?_, fun op hg hvalid hnow hends => ?_⟩
    · have hnone := hexcluded k' (by rw [hg, hstill]; exact nofun)
      rw [(hrep.entry k' s.note).mpr hlive] at hnone
      cases hnone
    · obtain ⟨t, hfenced⟩ := hnext op
      rw [← hg] at hstill
      exact hfenced.refused hvalid (hclock.trans_le hnow) hstill hends

/-! ### A call that is not answered CLOSED -/

def sampleKey : Key := ⟨"t", "p", "g", "b", "s", "a"⟩

def closedRegistry : Registry := (step (create 1 5) (.close sampleKey 1)).2

theorem runs_closedRegistry :
    Trace.Runs step (create 1 5) [(.close sampleKey 1, (.ok, none))] closedRegistry := by
  have hclosed : (step (create 1 5) (.close sampleKey 1)).1 = (.ok, none) := by decide
  exact .single (Prod.ext hclosed rfl)

/-- A put without a revision on a closed generation is answered INVALID. -/
theorem closed_invalid :
    Trace.Runs step (create 1 5) [(.close sampleKey 1, (.ok, none))] closedRegistry ∧
      closedRegistry.lastNow ≤ 2 ∧ 2 < 1 + 5 ∧
      (step closedRegistry (.put sampleKey 0 2 1 ([], false))).1 = (.invalid, none) :=
  ⟨runs_closedRegistry, by decide, by decide, by decide⟩

/-- An event is stored, advised on and read, offered again, closed, and offered anew. -/
def sampleCalls : List Call :=
  [.put sampleKey 1 1 9 (text "event", true), .annotate sampleKey 1 2 (text "advice"),
    .get sampleKey 3, .put sampleKey 1 3 9 (text "event", true), .close sampleKey 4,
    .put sampleKey 2 5 9 (text "event", true)]

def sampleReplies : List Reply :=
  [(.ok, none), (.ok, none), (.ok, some ⟨1, 10, (text "event", true), some (text "advice")⟩),
    (.conflict, none), (.ok, none), (.closed, none)]

theorem registry_refines_sample :
    (Trace.feed step (create 1 5) sampleCalls).1 = sampleCalls.zip sampleReplies ∧
      Refines 5 (Trace.feed step (create 1 5) sampleCalls).1
        (Trace.feed step (create 1 5) sampleCalls).2 :=
  ⟨rfl, registry_refines (.feed sampleCalls (create 1 5))⟩

end Recursant.Context
