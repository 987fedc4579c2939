import Recursant.Text

/-!
# The context registry

`context.c`: one snapshot for each exact key, fenced by strictly increasing revisions, with
tombstones for closed task generations.  All times come from the caller.
-/

namespace Recursant.Context

def maxSlots : Nat := 64

def idSize : Nat := 64

def textSize : Nat := 256

structure Key where
  tenant : Text := []
  project : Text := []
  taskGeneration : Text := []
  branch : Text := []
  step : Text := []
  attempt : Text := []
  deriving DecidableEq

structure Snapshot where
  revision : Nat
  expiresAt : Nat
  evidence : Text
  complete : Bool
  interpretation : Option Text
  deriving DecidableEq

/-- A used slot is a live snapshot or the tombstone of a closed generation. -/
inductive Slot where
  | unused
  | live (key : Key) (snapshot : Snapshot)
  | closed (key : Key) (tombstoneUntil : Nat)
  deriving DecidableEq

inductive Status where
  | ok
  | invalid
  | notFound
  | conflict
  | full
  | closed
  deriving DecidableEq

structure Registry where
  horizon : Nat
  lastNow : Nat
  slots : List Slot
  deriving DecidableEq

def create (capacity horizon : Nat) : Registry := ⟨horizon, 0, .replicate capacity .unused⟩

def validKey (k : Key) : Bool :=
  [k.tenant, k.project, k.taskGeneration, k.branch, k.step, k.attempt].all fun field =>
    field ≠ [] && field.length < idSize

def sameGeneration (a b : Key) : Bool :=
  a.tenant = b.tenant && a.project = b.project && a.taskGeneration = b.taskGeneration

def Slot.holds (k : Key) : Slot → Bool
  | .live key _ => key = k
  | .closed key _ => key = k
  | .unused => false

def Slot.isUnused : Slot → Bool
  | .unused => true
  | _ => false

def Slot.closes (k : Key) : Slot → Bool
  | .closed key _ => sameGeneration key k
  | _ => false

def Slot.inGeneration (k : Key) : Slot → Bool
  | .live key _ => sameGeneration key k
  | .closed key _ => sameGeneration key k
  | .unused => false

def Slot.expire (now : Nat) : Slot → Slot
  | .closed key tombstoneUntil => if now ≥ tombstoneUntil then .unused else .closed key tombstoneUntil
  | other => other

/-- Advances the clock and purges expired tombstones. -/
def tick (r : Registry) (now : Nat) : Registry :=
  { r with lastNow := now, slots := r.slots.map (Slot.expire now) }

def find (r : Registry) (k : Key) (now : Nat) : Option Snapshot :=
  match r.slots.find? (Slot.holds k) with
  | some (.live _ snapshot) => if now ≥ snapshot.expiresAt then none else some snapshot
  | _ => none

/-- What every call does first: it refuses a bad key or a backwards clock, and answers a closed
generation. -/
def enter (r : Registry) (k : Key) (now : Nat) (ok : Bool) : Option Status × Registry :=
  if !validKey k || !ok || now < r.lastNow then (some .invalid, r)
  else
    let r := tick r now
    if r.slots.any (Slot.closes k) then (some .closed, r) else (none, r)

/-- The snapshot is stored in the slot of the key, else in the first unused one. -/
def place (slots : List Slot) (k : Key) (slot : Slot) : Option (List Slot) :=
  ((slots.findIdx? (Slot.holds k)).or (slots.findIdx? Slot.isUnused)).map (slots.set · slot)

def put (r : Registry) (k : Key) (revision now ttl : Nat) (evidence : Text) (complete : Bool) :
    Status × Registry :=
  let ok := decide (revision ≠ 0) && decide (ttl ≠ 0) && decide (now + ttl ≤ uint64Max) &&
    decide (evidence.length < textSize)
  match enter r k now ok with
  | (some status, r) => (status, r)
  | (none, r) =>
      let newer := match r.slots.find? (Slot.holds k) with
        | some (.live _ snapshot) => decide (snapshot.revision < revision)
        | _ => true
      if !newer then (.conflict, r)
      else match place r.slots k (.live k ⟨revision, now + ttl, evidence, complete, none⟩) with
        | none => (.full, r)
        | some slots => (.ok, { r with slots })

def get (r : Registry) (k : Key) (now : Nat) : Option Snapshot × Registry :=
  match enter r k now true with
  | (some _, r) => (none, r)
  | (none, r) => (find r k now, r)

/-- One interpretation for each revision; it does not refresh the expiry. -/
def interpret (r : Registry) (k : Key) (revision now : Nat) (interpretation : Text) :
    Status × Registry :=
  match enter r k now (decide (revision ≠ 0) && decide (interpretation.length < textSize)) with
  | (some status, r) => (status, r)
  | (none, r) =>
      match find r k now with
      | none => (.notFound, r)
      | some snapshot =>
          if snapshot.revision ≠ revision || snapshot.interpretation.isSome then (.conflict, r)
          else match place r.slots k
              (.live k { snapshot with interpretation := some interpretation }) with
            | none => (.full, r)
            | some slots => (.ok, { r with slots })

/-- Every slot of the generation is freed and one of the free slots keeps its tombstone. -/
def close (r : Registry) (k : Key) (now : Nat) : Status × Registry :=
  match enter r k now (decide (now + r.horizon ≤ uint64Max)) with
  | (some status, r) => (status, r)
  | (none, r) =>
      let slots := r.slots.map fun s => if s.inGeneration k then .unused else s
      match slots.findIdx? Slot.isUnused with
      | none => (.full, { r with slots })
      | some i => (.ok, { r with slots := slots.set i (.closed k (now + r.horizon)) })

/-! ## Revisions -/

/-- Every live snapshot has a revision. -/
def Registry.Numbered (r : Registry) : Prop :=
  ∀ key snapshot, .live key snapshot ∈ r.slots → snapshot.revision ≠ 0

theorem numbered_tick {r : Registry} (h : r.Numbered) (now : Nat) : (tick r now).Numbered := by
  intro key snapshot hmem
  obtain ⟨slot, hslot, hexpired⟩ := List.mem_map.mp hmem
  cases slot with
  | unused => cases hexpired
  | live other found => exact h key snapshot (hexpired ▸ hslot)
  | closed other tombstoneUntil =>
      dsimp only [Slot.expire] at hexpired
      by_cases hpast : now ≥ tombstoneUntil
      · rw [if_pos hpast] at hexpired
        cases hexpired
      · rw [if_neg hpast] at hexpired
        cases hexpired

theorem numbered_enter {r : Registry} (h : r.Numbered) (k : Key) (now : Nat) (ok : Bool) :
    (enter r k now ok).2.Numbered := by
  unfold enter
  split
  · exact h
  · dsimp only
    split
    · exact numbered_tick h now
    · exact numbered_tick h now

theorem numbered_entered {r s : Registry} (h : r.Numbered) {k : Key} {now : Nat} {ok : Bool}
    {status : Option Status} (henter : enter r k now ok = (status, s)) : s.Numbered := by
  have hnumbered := numbered_enter h k now ok
  rw [henter] at hnumbered
  exact hnumbered

theorem numbered_place {r : Registry} (h : r.Numbered) {k : Key} {slot : Slot} {slots : List Slot}
    (hplace : place r.slots k slot = some slots)
    (hslot : ∀ key snapshot, slot = .live key snapshot → snapshot.revision ≠ 0) :
    ({ r with slots } : Registry).Numbered := by
  unfold place at hplace
  obtain ⟨i, -, rfl⟩ := Option.map_eq_some_iff.mp hplace
  intro key snapshot hmem
  cases List.mem_or_eq_of_mem_set hmem with
  | inl hold => exact h key snapshot hold
  | inr hnew => exact hslot key snapshot hnew.symm

theorem numbered_get {r : Registry} (h : r.Numbered) (k : Key) (now : Nat) :
    (get r k now).2.Numbered := by
  unfold get
  split
  · next hs => exact numbered_entered h hs
  · next hs => exact numbered_entered h hs

theorem numbered_put {r : Registry} (h : r.Numbered) (k : Key) (revision now ttl : Nat)
    (evidence : Text) (complete : Bool) :
    (put r k revision now ttl evidence complete).2.Numbered := by
  unfold put
  dsimp only
  split
  · next hs => exact numbered_entered h hs
  · next s hs =>
      have henter := numbered_entered h hs
      have hrevision : revision ≠ 0 := by
        intro hzero
        unfold enter at hs
        rw [hzero] at hs
        simp at hs
      have hslot : ∀ key snapshot, Slot.live k ⟨revision, now + ttl, evidence, complete, none⟩ =
          .live key snapshot → snapshot.revision ≠ 0 := by
        intro key snapshot hlive
        rw [← (Slot.live.inj hlive).2]
        exact hrevision
      split
      all_goals
        split
        · exact henter
        · split
          · exact henter
          · next hplace => exact numbered_place henter hplace hslot

theorem numbered_find {r : Registry} (h : r.Numbered) {k : Key} {now : Nat} {snapshot : Snapshot}
    (hfind : find r k now = some snapshot) : snapshot.revision ≠ 0 := by
  unfold find at hfind
  split at hfind
  · next key found hslot =>
      split at hfind
      · cases hfind
      · obtain rfl := Option.some.inj hfind
        exact h key found (List.mem_of_find?_eq_some hslot)
  · cases hfind

theorem numbered_interpret {r : Registry} (h : r.Numbered) (k : Key) (revision now : Nat)
    (interpretation : Text) : (interpret r k revision now interpretation).2.Numbered := by
  unfold interpret
  split
  · next hs => exact numbered_entered h hs
  · next s hs =>
      have henter := numbered_entered h hs
      split
      · exact henter
      · next found hfind =>
          have hslot : ∀ key snapshot,
              Slot.live k { found with interpretation := some interpretation } =
                .live key snapshot → snapshot.revision ≠ 0 := by
            intro key snapshot hlive
            rw [← (Slot.live.inj hlive).2]
            show found.revision ≠ 0
            exact numbered_find henter hfind
          split
          · exact henter
          · split
            · exact henter
            · next hplace => exact numbered_place henter hplace hslot

theorem numbered_close {r : Registry} (h : r.Numbered) (k : Key) (now : Nat) :
    (close r k now).2.Numbered := by
  unfold close
  split
  · next hs => exact numbered_entered h hs
  · next s hs =>
      have henter := numbered_entered h hs
      have hfreed : ∀ key snapshot,
          .live key snapshot ∈ s.slots.map (fun slot => if slot.inGeneration k then .unused else slot) →
          snapshot.revision ≠ 0 := by
        intro key snapshot hmem
        obtain ⟨slot, hslot, hkept⟩ := List.mem_map.mp hmem
        by_cases hin : slot.inGeneration k = true
        · rw [if_pos hin] at hkept
          cases hkept
        · rw [if_neg hin] at hkept
          exact henter key snapshot (hkept ▸ hslot)
      dsimp only
      split
      · exact hfreed
      · intro key snapshot hmem
        cases List.mem_or_eq_of_mem_set hmem with
        | inl hold => exact hfreed key snapshot hold
        | inr hnew => cases hnew

end Recursant.Context
