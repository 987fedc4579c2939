import Mathlib.Tactic
import Recursant.Lib.Tally

/-!
# A counter of holders

One acceptor reads a shared counter, raises it and starts a member; every member lowers it once, at
its end.  In between the members take their steps in any order, and a step may read the counter.
-/

namespace Holders

/-- How the members of a crew behave.  A member holds a slot from its start to its release; it gets
inside only by a step at which the counter is within the limit. -/
structure Crew (α : Type*) where
  fresh : α
  holds : α → Bool
  inside : α → Bool
  act : Int → α → α → Prop
  release : α → α → Prop
  limit : Int
  fresh_holds : holds fresh = true
  fresh_outside : inside fresh = false
  inside_holds : ∀ x, inside x = true → holds x = true
  act_holds : ∀ n x y, act n x y → holds x = true ∧ holds y = true
  act_inside : ∀ n x y, act n x y → inside y = true → inside x = true ∨ n ≤ limit
  release_holds : ∀ x y, release x y → holds x = true ∧ holds y = false

/-- Where the acceptor is: it found the counter below the bound, or it raised it for a member that
is not there yet. -/
inductive Acceptor where
  | waiting
  | cleared
  | counted
  deriving DecidableEq

structure House (α : Type*) where
  count : Int
  acceptor : Acceptor
  members : List α

variable {α : Type*}

def House.empty : House α := ⟨0, .waiting, []⟩

/-- The slots that are taken for a member to come. -/
def Acceptor.pending : Acceptor → Nat
  | .counted => 1
  | _ => 0

variable (K : Crew α) (bound : Int)

inductive Step (s : House α) : House α → Prop where
  | refuse : s.acceptor = .waiting → bound ≤ s.count → Step s s
  | clear : s.acceptor = .waiting → s.count < bound → Step s { s with acceptor := .cleared }
  | count : s.acceptor = .cleared → Step s { s with count := s.count + 1, acceptor := .counted }
  | start : s.acceptor = .counted →
      Step s { s with acceptor := .waiting, members := s.members ++ [K.fresh] }
  | fail : s.acceptor = .counted → Step s { s with count := s.count - 1, acceptor := .waiting }
  | act {i : Nat} {x y : α} : s.members[i]? = some x → K.act s.count x y →
      Step s { s with members := s.members.set i y }
  | release {i : Nat} {x y : α} : s.members[i]? = some x → K.release x y →
      Step s { s with members := s.members.set i y, count := s.count - 1 }

inductive Reaches : House α → Prop where
  | empty : Reaches .empty
  | step {s t : House α} : Reaches s → Step K bound s t → Reaches t

/-! ## The counter -/

variable {K bound} {s t : House α}

/-- The counter is the number of slots that are held, for members that are there or to come, and it
is within its bound; those inside are within the limit. -/
structure Accounted (K : Crew α) (bound : Int) (s : House α) : Prop where
  exact : s.count = s.members.countP K.holds + s.acceptor.pending
  bounded : s.count ≤ max 0 bound
  room : s.acceptor = .cleared → s.count < bound
  inside : (s.members.countP K.inside : Int) ≤ max 0 K.limit

theorem Accounted.nonneg (h : Accounted K bound s) : 0 ≤ s.count := by
  rw [h.exact]
  omega

theorem countP_inside_le (K : Crew α) (xs : List α) : xs.countP K.inside ≤ xs.countP K.holds :=
  List.countP_mono_left fun x _ => K.inside_holds x

/-- A member that keeps its slot leaves the number of slots as it is. -/
theorem countP_holds_set {i : Nat} {x y : α} (hx : s.members[i]? = some x)
    (h : K.holds x = K.holds y) :
    (s.members.set i y).countP K.holds = s.members.countP K.holds := by
  have hreplace := Tally.countP_replace (p := K.holds) (y := y) hx
  rw [h] at hreplace
  omega

theorem Accounted.step (h : Accounted K bound s) (hstep : Step K bound s t) :
    Accounted K bound t := by
  have hexact := h.exact
  have hbounded := h.bounded
  have hinside := h.inside
  cases hstep with
  | refuse => exact h
  | clear hwaiting hroom =>
      refine ⟨?_, hbounded, fun _ => hroom, hinside⟩
      rw [hwaiting] at hexact
      exact hexact
  | count hcleared =>
      have hroom := h.room hcleared
      rw [hcleared] at hexact
      refine ⟨?_, ?_, nofun, hinside⟩
      · show s.count + 1 = s.members.countP K.holds + 1
        change s.count = s.members.countP K.holds + 0 at hexact
        omega
      · show s.count + 1 ≤ max 0 bound
        omega
  | start hcounted =>
      rw [hcounted] at hexact
      refine ⟨?_, hbounded, nofun, ?_⟩
      · show s.count = ((s.members ++ [K.fresh]).countP K.holds : Nat) + 0
        change s.count = s.members.countP K.holds + 1 at hexact
        rw [List.countP_append, List.countP_singleton, if_pos K.fresh_holds]
        omega
      · show (((s.members ++ [K.fresh]).countP K.inside : Nat) : Int) ≤ _
        rw [List.countP_append, List.countP_singleton, K.fresh_outside]
        exact hinside
  | fail hcounted =>
      rw [hcounted] at hexact
      change s.count = s.members.countP K.holds + 1 at hexact
      refine ⟨?_, ?_, nofun, hinside⟩
      · show s.count - 1 = s.members.countP K.holds + 0
        omega
      · show s.count - 1 ≤ max 0 bound
        omega
  | @act i x y hx hact =>
      obtain ⟨hbefore, hafter⟩ := K.act_holds _ _ _ hact
      have hholds := countP_holds_set hx (hbefore.trans hafter.symm)
      refine ⟨?_, hbounded, h.room, ?_⟩
      · show s.count = ((s.members.set i y).countP K.holds : Nat) + _
        rw [hholds]
        exact hexact
      · show (((s.members.set i y).countP K.inside : Nat) : Int) ≤ _
        have hreplace := Tally.countP_replace (p := K.inside) (y := y) hx
        by_cases hy : K.inside y = true
        · cases K.act_inside _ _ _ hact hy with
          | inl hwas =>
              rw [if_pos hy, if_pos hwas] at hreplace
              omega
          | inr hlimit =>
              -- all that are inside hold slots, and the counter was read with these in it
              have hle := countP_inside_le K (s.members.set i y)
              rw [hholds] at hle
              omega
        · rw [if_neg hy] at hreplace
          omega
  | @release i x y hx hrelease =>
      obtain ⟨hbefore, hafter⟩ := K.release_holds _ _ hrelease
      have hholds := Tally.countP_replace (p := K.holds) (y := y) hx
      have hreplace := Tally.countP_replace (p := K.inside) (y := y) hx
      have hout : K.inside y ≠ true := fun hy =>
        Bool.false_ne_true (hafter.symm.trans (K.inside_holds y hy))
      rw [if_pos hbefore, if_neg (by rw [hafter]; decide)] at hholds
      rw [if_neg hout] at hreplace
      refine ⟨?_, ?_, ?_, ?_⟩
      · show s.count - 1 = ((s.members.set i y).countP K.holds : Nat) + (s.acceptor.pending : Int)
        omega
      · show s.count - 1 ≤ max 0 bound
        omega
      · intro hcleared
        show s.count - 1 < bound
        have hroom := h.room hcleared
        omega
      · show (((s.members.set i y).countP K.inside : Nat) : Int) ≤ _
        omega

/-- The counter is exact in every state of every run. -/
theorem Reaches.accounted (h : Reaches K bound s) : Accounted K bound s := by
  induction h with
  | empty =>
      refine ⟨rfl, ?_, nofun, ?_⟩
      · show (0 : Int) ≤ max 0 bound
        omega
      · show ((0 : Nat) : Int) ≤ max 0 K.limit
        omega
  | step _ hstep ih => exact ih.step hstep

/-! ## The members one by one -/

/-- A step reads a counter in which the member itself is counted. -/
theorem Accounted.counted (h : Accounted K bound s) {x : α} (hx : x ∈ s.members)
    (hholds : K.holds x = true) : 1 ≤ s.count := by
  have hpos : 0 < s.members.countP K.holds := List.countP_pos_iff.mpr ⟨x, hx, hholds⟩
  rw [h.exact]
  omega

/-- What a fresh member has and its steps keep, every member has. -/
theorem Reaches.member {P : α → Prop} (h : Reaches K bound s) (hfresh : P K.fresh)
    (hact : ∀ n x y, 1 ≤ n → n ≤ max 0 bound → P x → K.act n x y → P y)
    (hrelease : ∀ x y, P x → K.release x y → P y) : ∀ x ∈ s.members, P x := by
  induction h with
  | empty => exact List.forall_mem_nil P
  | @step s t hs hstep ih =>
      have hset : ∀ {i : Nat} {y : α}, P y → ∀ x ∈ s.members.set i y, P x := by
        intro i y hy x hx
        cases List.mem_or_eq_of_mem_set hx with
        | inl hx => exact ih x hx
        | inr hx => exact hx ▸ hy
      cases hstep with
      | refuse => exact ih
      | clear => exact ih
      | count => exact ih
      | fail => exact ih
      | start =>
          intro x hx
          cases List.mem_append.mp hx with
          | inl hx => exact ih x hx
          | inr hx => exact List.mem_singleton.mp hx ▸ hfresh
      | act hx hact' =>
          have hmem := List.mem_of_getElem? hx
          have haccounted := hs.accounted
          have hcounted := haccounted.counted hmem (K.act_holds _ _ _ hact').1
          exact hset (hact _ _ _ hcounted haccounted.bounded (ih _ hmem) hact')
      | release hx hrelease' =>
          exact hset (hrelease _ _ (ih _ (List.mem_of_getElem? hx)) hrelease')

end Holders
