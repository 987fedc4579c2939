import Mathlib.Algebra.BigOperators.Group.List.Basic
import Recursant.Gateway.Authority
import Recursant.Gateway.Meters

/-!
# Budgets over whole runs

What the request budget and the limits of the shadow come to over any history of the router: how
many requests are dispatched in a minute, how many copies are out, how many are ever made, and what
they may cost altogether.
-/

namespace Recursant.Gateway

variable {ρ : Router} {start s : State ρ} {history : List (Event × Answer)}

/-- The meters at the start. -/
structure Unspent (s : State ρ) : Prop where
  count : s.meters.rate.count = 0
  sampled : s.meters.sampled = 0
  spent : s.meters.spent = 0
  running : s.meters.running = 0

/-! ## Requests per minute -/

/-- The ticks that preparations read, in order. -/
def ticks (history : List (Event × Answer)) : List Nat :=
  history.filterMap fun x => x.1.preparation

/-- The ticks of the preparations that dispatched their request. -/
def dispatches (history : List (Event × Answer)) : List Nat :=
  (history.filter fun x => x.2.isDispatch).filterMap fun x => x.1.preparation

theorem filterMap_snoc {α β : Type} (f : α → Option β) (l : List α) (x : α) :
    (l ++ [x]).filterMap f = l.filterMap f ++ (f x).toList := by
  rw [List.filterMap_append]
  cases hx : f x with
  | none => simp [hx]
  | some y => simp [hx]

theorem ticks_append (history : List (Event × Answer)) (event : Event) (answer : Answer) :
    ticks (history ++ [(event, answer)]) = ticks history ++ event.preparation.toList :=
  filterMap_snoc _ history (event, answer)

theorem dispatches_append (history : List (Event × Answer)) (event : Event) (answer : Answer) :
    dispatches (history ++ [(event, answer)]) =
      dispatches history ++ if answer.isDispatch then event.preparation.toList else [] := by
  unfold dispatches
  rw [List.filter_append, List.filter_singleton]
  cases hanswer : answer.isDispatch with
  | false => simp
  | true => exact filterMap_snoc _ _ (event, answer)

/-- The requests counted so far: those dispatched are among them. -/
theorem paced (hrpm : ρ.settings.budget.rpm ≠ 0) (hfresh : Unspent start)
    (h : Trace.Runs step start history s) (hclock : (ticks history).Pairwise (· ≤ ·)) :
    ∃ counted, Windowed.Paced 60000 ρ.settings.budget.rpm s.meters.rate counted ∧
      (dispatches history).Sublist counted ∧ ∀ a ∈ counted, a ∈ ticks history := by
  revert hclock
  apply h.induct (P := fun history s => (ticks history).Pairwise (· ≤ ·) →
    ∃ counted, Windowed.Paced 60000 ρ.settings.budget.rpm s.meters.rate counted ∧
      (dispatches history).Sublist counted ∧ ∀ a ∈ counted, a ∈ ticks history)
  · intro _
    have hrate : start.meters.rate = ⟨start.meters.rate.start, 0⟩ := by
      rw [← hfresh.count]
    exact ⟨[], hrate ▸ Windowed.paced_nil .., .slnil, nofun⟩
  · intro history s event answer t _ ih hstep hclock
    rw [ticks_append] at hclock
    obtain ⟨hbefore, -, hlast⟩ := List.pairwise_append.mp hclock
    obtain ⟨counted, hpaced, hsublist, hticks⟩ := ih hbefore
    rw [ticks_append, dispatches_append]
    have hkept : t.meters.rate = s.meters.rate →
        event.preparation = none ∨ answer.isDispatch = false →
        ∃ counted, Windowed.Paced 60000 ρ.settings.budget.rpm t.meters.rate counted ∧
          (dispatches history ++ if answer.isDispatch then event.preparation.toList else []).Sublist
            counted ∧ ∀ a ∈ counted, a ∈ ticks history ++ event.preparation.toList := by
      intro hrate hnone
      have hnothing : (if answer.isDispatch then event.preparation.toList else []) = [] := by
        cases hnone with
        | inl hevent => rw [hevent, Option.toList_none, ite_self]
        | inr hanswer => rw [hanswer, if_neg Bool.false_ne_true]
      rw [hrate, hnothing, List.append_nil]
      exact ⟨counted, hpaced, hsublist, fun a ha => List.mem_append_left _ (hticks a ha)⟩
    have hmetered := metered_step hstep
    generalize hnext : t.meters = n at hmetered hkept
    cases hmetered with
    | same hsame hnone _ _ =>
        apply hkept (congrArg Meters.rate hsame)
        cases hnone with
        | inl hevent => exact .inl hevent
        | inr hother => exact .inr (hother.resolve_left hrpm)
    | considered hevent _ _ _ hsampled => exact hkept hsampled.rate (.inl hevent)
    | settled hevent _ _ => exact hkept rfl (.inl hevent)
    | @counted now _ hcounted hevent _ _ hadmitted =>
        rw [hevent] at hlast ⊢
        have hnow : ∀ a ∈ counted, a ≤ now := by
          intro a ha
          exact hlast a (hticks a ha) now (by simp)
        have hnew := hpaced.pass (by decide : 0 < 60000) hnow
        rw [hcounted]
        refine ⟨_, hnew, ?_, ?_⟩
        · -- a dispatched request was let through
          apply hsublist.append
          cases hanswer : answer.isDispatch with
          | false =>
              rw [if_neg Bool.false_ne_true]
              exact List.nil_sublist _
          | true =>
              rw [if_pos rfl, if_pos (hadmitted hanswer)]
              exact List.Sublist.refl _
        · intro a ha
          rw [List.mem_append] at ha ⊢
          cases ha with
          | inl hold => exact .inl (hticks a hold)
          | inr hadded =>
              right
              split at hadded
              · simpa using hadded
              · cases hadded

theorem dispatches_per_minute (hrpm : ρ.settings.budget.rpm ≠ 0) (hfresh : Unspent start)
    (h : Trace.Runs step start history s) (hclock : (ticks history).Pairwise (· ≤ ·)) (t : Nat) :
    (dispatches history).countP (Windowed.spans t 60000) ≤ 2 * ρ.settings.budget.rpm := by
  obtain ⟨counted, hpaced, hsublist, -⟩ := paced hrpm hfresh h hclock
  exact (hsublist.countP_le).trans (hpaced.within t)

/-- A router that lets one request through in a minute and copies every step. -/
def meteredRouter : Router where
  runtime := sampleRuntime "openai-compatible" "openai-compatible"
  settings := { sampleSettings with
    budget := ⟨0, 0, 0, 1⟩
    shadow := some ⟨⟨2, by decide⟩, 1, 1 / 100, 1⟩ }
  neighbours := sampleNeighbours
  aliased := by decide

/-- Two requests in a minute; the first one is copied. -/
def meteredEvents : List Event :=
  [.arrive (sampleRequest [sessionHeader]) 2 ⟨false, none⟩,
    .prepare 0 3 (fun _ _ => .unscanned) [], .shadow 0 true,
    .arrive (sampleRequest []) 4 ⟨false, none⟩, .prepare 1 5 (fun _ _ => .unscanned) [],
    .shadowDone (1 / 200)]

def meteredRun : List (Event × Answer) × State meteredRouter :=
  Trace.feed step (sampleStart meteredRouter) meteredEvents

theorem unspent_sampleStart (ρ : Router) : Unspent (sampleStart ρ) := ⟨rfl, rfl, rfl, rfl⟩

theorem dispatches_per_minute_sample :
    (dispatches meteredRun.1).countP (Windowed.spans 0 60000) ≤ 2 :=
  dispatches_per_minute (by decide) (unspent_sampleStart meteredRouter)
    (Trace.Runs.feed meteredEvents _) (by decide +kernel) 0

example : dispatches meteredRun.1 = [3] := by decide +kernel

/-! ## Copies of the shadow -/

/-- The copies dispatched so far. -/
def copies (history : List (Event × Answer)) : Nat := history.countP fun x => x.2.isCopy

/-- The costs of the copies that have ended. -/
def bills (history : List (Event × Answer)) : List Rat := history.filterMap fun x => x.1.settled

/-- The steps that were considered for a copy. -/
def chances (history : List (Event × Answer)) : Nat := history.countP fun x => x.1.considers

/-- At no time have more copies ended than were dispatched. -/
def Settling (history : List (Event × Answer)) : Prop :=
  ∀ earlier later, history = earlier ++ later → (bills earlier).length ≤ copies earlier

theorem settling_iff {history : List (Event × Answer)} : Settling history ↔
    ∀ k, k ≤ history.length → (bills (history.take k)).length ≤ copies (history.take k) := by
  constructor
  · intro h k _
    exact h (history.take k) (history.drop k) (List.take_append_drop k history).symm
  · intro h earlier later hsplit
    have hk := h earlier.length (by rw [hsplit, List.length_append]; omega)
    rw [hsplit, List.take_left] at hk
    exact hk

instance (history : List (Event × Answer)) : Decidable (Settling history) :=
  decidable_of_iff _ settling_iff.symm

theorem copies_append (history : List (Event × Answer)) (event : Event) (answer : Answer) :
    copies (history ++ [(event, answer)]) = copies history + if answer.isCopy then 1 else 0 := by
  unfold copies
  rw [List.countP_append, List.countP_singleton]

theorem chances_append (history : List (Event × Answer)) (event : Event) (answer : Answer) :
    chances (history ++ [(event, answer)]) = chances history + if event.considers then 1 else 0 := by
  unfold chances
  rw [List.countP_append, List.countP_singleton]

theorem bills_append (history : List (Event × Answer)) (event : Event) (answer : Answer) :
    bills (history ++ [(event, answer)]) = bills history ++ event.settled.toList :=
  filterMap_snoc _ history (event, answer)

theorem Settling.of_append {history : List (Event × Answer)} {x : Event × Answer}
    (h : Settling (history ++ [x])) : Settling history := by
  intro earlier later hsplit
  exact h earlier (later ++ [x]) (by rw [hsplit, List.append_assoc])

/-- The rounding of one sum. -/
def slip : Rat := 1 / 2 ^ 53

theorem abs_double_sub_le (x : Rat) : |double x - x| ≤ |x| * slip := by
  unfold slip
  rw [mul_one_div]
  exact Rounding.abs_round_sub_le 53 x

theorem double_mono {x y : Rat} (h : x ≤ y) : double x ≤ double y :=
  Rounding.round_mono (by decide) h

theorem double_whole : double 2 = 2 ∧ double 1 = 1 ∧ double (-1) = -1 ∧
    double (wholeSample - 1) = wholeSample - 1 ∧ wholeSample ≤ 1 := by decide +kernel

/-- The accumulator stays between -1 and 1, and a round moves it by its sample but for two
roundings. -/
theorem Sampled.bounded {config : Shadow ρ.settings.count} {m n : Meters} {copied : Bool}
    (h : Sampled config m n copied) (hpos : 0 ≤ config.sample) (hone : config.sample ≤ 1)
    (hm : -1 ≤ m.sampled ∧ m.sampled ≤ 1) : (-1 ≤ n.sampled ∧ n.sampled ≤ 1) ∧
      n.sampled + (if copied then 1 else 0) ≤ m.sampled + config.sample + 3 * slip ∧
      (copied = true → wholeSample - 1 ≤ n.sampled) := by
  obtain ⟨htwo, hunit, hnegative, hwhole, hless⟩ := double_whole
  have hslip : (0 : Rat) ≤ slip := by decide +kernel
  have hsize : |m.sampled + config.sample| ≤ 2 := by
    rw [abs_le]
    constructor <;> linarith
  have hsum := (abs_le.mp (abs_double_sub_le (m.sampled + config.sample))).2
  have hroom : |m.sampled + config.sample| * slip ≤ 2 * slip := mul_le_mul_of_nonneg_right hsize hslip
  have hlow : -1 ≤ double (m.sampled + config.sample) := by
    have hmono := double_mono (show (-1 : Rat) ≤ m.sampled + config.sample by linarith)
    rwa [hnegative] at hmono
  have hhigh : double (m.sampled + config.sample) ≤ 2 := by
    have hmono := double_mono (show m.sampled + config.sample ≤ 2 by linarith)
    rwa [htwo] at hmono
  rcases h.sampled with ⟨hsame, rfl⟩ | ⟨hmore, hbelow, rfl⟩ | ⟨hspent, hlarge⟩
  · rw [hsame, if_neg Bool.false_ne_true]
    exact ⟨hm, by linarith, nofun⟩
  · rw [hmore, if_neg Bool.false_ne_true]
    exact ⟨⟨hlow, by linarith⟩, by linarith, nofun⟩
  · -- one is taken off what reached it
    have hback := (abs_le.mp (abs_double_sub_le (double (m.sampled + config.sample) - 1))).2
    have habove : wholeSample - 1 ≤ n.sampled := by
      have hmono := double_mono (sub_le_sub_right hlarge 1)
      rwa [hwhole, ← hspent] at hmono
    have hbelow : n.sampled ≤ 1 := by
      have hmono := double_mono (show double (m.sampled + config.sample) - 1 ≤ 1 by linarith)
      rwa [hunit, ← hspent] at hmono
    have hfirst : -1 ≤ wholeSample - 1 := by decide +kernel
    have hunder : |double (m.sampled + config.sample) - 1| ≤ 1 := by
      rw [abs_le]
      constructor <;> linarith
    have hrest : |double (m.sampled + config.sample) - 1| * slip ≤ 1 * slip :=
      mul_le_mul_of_nonneg_right hunder hslip
    refine ⟨⟨hfirst.trans habove, hbelow⟩, ?_, fun _ => habove⟩
    rw [← hspent] at hback
    split <;> linarith

/-- What the shadow's meters come to after a history in which no copy costs more than `dearest`.
Every bill that was added has rounded the sum once. -/
structure Exposure (config : Shadow ρ.settings.count) (dearest : Rat)
    (history : List (Event × Answer)) (m : Meters) : Prop where
  running : m.running + (bills history).length = copies history
  room : m.running ≤ config.maxInflight
  spent : (bills history).sum * (1 - slip) ^ (bills history).length ≤ m.spent
  exposure : ((bills history).sum + m.running * dearest - config.maxInflight * dearest) *
    (1 - slip) ^ (bills history).length ≤ config.usdCap
  bounded : -1 ≤ m.sampled ∧ m.sampled ≤ 1
  sampled : copies history + m.sampled ≤ chances history * (config.sample + 3 * slip)
  share : (copies history : Rat) ≤
    chances history * (config.sample + 3 * slip) + (1 - wholeSample)

theorem slip_nonneg : 0 ≤ slip ∧ 0 ≤ 1 - slip ∧ 1 - slip ≤ 1 := by decide +kernel

theorem share_mono {config : Shadow ρ.settings.count} (hsample : 0 ≤ config.sample) {a b : Nat}
    (h : a ≤ b) : (a : Rat) * (config.sample + 3 * slip) ≤ b * (config.sample + 3 * slip) := by
  refine mul_le_mul_of_nonneg_right (by exact_mod_cast h) ?_
  linarith [slip_nonneg.1]

theorem Exposure.same {config : Shadow ρ.settings.count} {dearest : Rat}
    {history : List (Event × Answer)} {m : Meters} (h : Exposure config dearest history m)
    (hsample : 0 ≤ config.sample) {event : Event} {answer : Answer} (hsettled : event.settled = none)
    (hcopy : answer.isCopy = false) :
    Exposure config dearest (history ++ [(event, answer)]) m := by
  have hcopies : copies (history ++ [(event, answer)]) = copies history := by
    rw [copies_append, hcopy, if_neg Bool.false_ne_true, Nat.add_zero]
  have hbills : bills (history ++ [(event, answer)]) = bills history := by
    rw [bills_append, hsettled, Option.toList_none, List.append_nil]
  have hchances : chances history ≤ chances (history ++ [(event, answer)]) := by
    rw [chances_append]
    exact Nat.le_add_right _ _
  have hmore := share_mono hsample hchances
  refine ⟨?_, h.room, ?_, ?_, h.bounded, ?_, ?_⟩
  · rw [hbills, hcopies]
    exact h.running
  · rw [hbills]
    exact h.spent
  · rw [hbills]
    exact h.exposure
  · rw [hcopies]
    exact h.sampled.trans hmore
  · rw [hcopies]
    have hshare := h.share
    linarith

/-- A step that considers a copy. -/
theorem Exposure.considered {config : Shadow ρ.settings.count} {dearest : Rat}
    {history : List (Event × Answer)} {m n : Meters} (h : Exposure config dearest history m)
    (hsample : 0 ≤ config.sample) (hone : config.sample ≤ 1) (hdearest : 0 ≤ dearest)
    {event : Event} {answer : Answer} (hsettled : event.settled = none)
    (hconsiders : event.considers = true) (hsampled : Sampled config m n answer.isCopy) :
    Exposure config dearest (history ++ [(event, answer)]) n := by
  have hbills : bills (history ++ [(event, answer)]) = bills history := by
    rw [bills_append, hsettled, Option.toList_none, List.append_nil]
  have hchances : (chances (history ++ [(event, answer)]) : Rat) = chances history + 1 := by
    rw [chances_append, hconsiders, if_pos rfl, Nat.cast_add, Nat.cast_one]
  have hcopies : (copies (history ++ [(event, answer)]) : Rat) =
      copies history + if answer.isCopy then 1 else 0 := by
    rw [copies_append]
    split <;> simp
  obtain ⟨hbounded, hmoved, hcopied⟩ := hsampled.bounded hsample hone h.bounded
  have hslip := slip_nonneg.1
  have hrunning := h.running
  have hexposure := h.exposure
  have haccumulated := h.sampled
  have hsum : (copies (history ++ [(event, answer)]) : Rat) + n.sampled ≤
      chances (history ++ [(event, answer)]) * (config.sample + 3 * slip) := by
    rw [hcopies, hchances, add_mul, one_mul]
    linarith
  refine ⟨?_, ?_, ?_, ?_, hbounded, hsum, ?_⟩
  · rw [hbills, hsampled.running, copies_append]
    omega
  · rw [hsampled.running]
    cases hcopy : answer.isCopy with
    | false =>
        rw [if_neg Bool.false_ne_true]
        exact h.room
    | true =>
        rw [if_pos rfl]
        exact (hsampled.room hcopy).2
  · rw [hbills, hsampled.spent]
    exact h.spent
  · rw [hbills, hsampled.running]
    cases hcopy : answer.isCopy with
    | false =>
        rw [if_neg Bool.false_ne_true, Nat.add_zero]
        exact hexposure
    | true =>
        -- what has been spent is below the cap, and the copies out fit into the room
        obtain ⟨hcap, hroom⟩ := hsampled.room hcopy
        have hfits : ((m.running + 1 : Nat) : Rat) * dearest ≤ config.maxInflight * dearest :=
          mul_le_mul_of_nonneg_right (by exact_mod_cast hroom) hdearest
        have hpower : 0 ≤ (1 - slip) ^ (bills history).length := pow_nonneg slip_nonneg.2.1 _
        rw [if_pos rfl]
        calc ((bills history).sum + ((m.running + 1 : Nat) : Rat) * dearest -
              config.maxInflight * dearest) * (1 - slip) ^ (bills history).length
            ≤ (bills history).sum * (1 - slip) ^ (bills history).length :=
              mul_le_mul_of_nonneg_right (by linarith) hpower
          _ ≤ m.spent := h.spent
          _ ≤ config.usdCap := hcap.le
  · cases hcopy : answer.isCopy with
    | false =>
        have hshare := h.share
        rw [hcopies, hchances, hcopy, if_neg Bool.false_ne_true, add_mul, one_mul]
        linarith
    | true =>
        have habove := hcopied hcopy
        linarith

/-- A copy ends. -/
theorem Exposure.settle {config : Shadow ρ.settings.count} {dearest cost : Rat}
    {history : List (Event × Answer)} {m : Meters} (h : Exposure config dearest history m)
    (hsample : 0 ≤ config.sample) (hcap : 0 ≤ config.usdCap) (hnonneg : 0 ≤ cost)
    (hcost : cost ≤ dearest) (hpaid : 0 ≤ (bills history).sum) {event : Event} {answer : Answer}
    (hsettled : event.settled = some cost) (hcopy : answer.isCopy = false)
    (hended : (bills (history ++ [(event, answer)])).length ≤ copies (history ++ [(event, answer)])) :
    Exposure config dearest (history ++ [(event, answer)])
      { m with running := m.running - 1, spent := double (m.spent + cost) } := by
  have hcopies : copies (history ++ [(event, answer)]) = copies history := by
    rw [copies_append, hcopy, if_neg Bool.false_ne_true, Nat.add_zero]
  have hbills : bills (history ++ [(event, answer)]) = bills history ++ [cost] := by
    rw [bills_append, hsettled]
    rfl
  have hchances : chances history ≤ chances (history ++ [(event, answer)]) := by
    rw [chances_append]
    exact Nat.le_add_right _ _
  have hmore := share_mono hsample hchances
  rw [hcopies, hbills, List.length_append, List.length_singleton] at hended
  have hrunning := h.running
  -- the copy that ends was out
  have hout : m.running = (m.running - 1) + 1 := by omega
  obtain ⟨-, hkeeps, hless⟩ := slip_nonneg
  have hpower : 0 ≤ (1 - slip) ^ (bills history).length := pow_nonneg hkeeps _
  have hunit : (1 - slip) ^ (bills history).length ≤ 1 := pow_le_one₀ hkeeps hless
  refine ⟨?_, ?_, ?_, ?_, h.bounded, ?_, ?_⟩
  · rw [hbills, hcopies, List.length_append, List.length_singleton]
    show m.running - 1 + _ = _
    omega
  · have hroom := h.room
    show m.running - 1 ≤ _
    omega
  · have hspent := h.spent
    have hbefore : 0 ≤ m.spent := (mul_nonneg hpaid hpower).trans hspent
    rw [hbills, List.sum_append, List.sum_singleton, List.length_append, List.length_singleton]
    calc ((bills history).sum + cost) * (1 - slip) ^ ((bills history).length + 1)
        = ((bills history).sum * (1 - slip) ^ (bills history).length +
            cost * (1 - slip) ^ (bills history).length) * (1 - slip) := by ring
      _ ≤ (m.spent + cost) * (1 - slip) :=
          mul_le_mul_of_nonneg_right
            (add_le_add hspent (mul_le_of_le_one_right hnonneg hunit)) hkeeps
      _ ≤ double (m.spent + cost) := Rounding.le_round (add_nonneg hbefore hnonneg)
  · have hexposure := h.exposure
    rw [hout, Nat.cast_add, Nat.cast_one] at hexposure
    rw [hbills, List.sum_append, List.sum_singleton, List.length_append, List.length_singleton]
    show ((bills history).sum + cost + ((m.running - 1 : Nat) : Rat) * dearest -
      config.maxInflight * dearest) * _ ≤ _
    rw [pow_succ, ← mul_assoc]
    calc ((bills history).sum + cost + ((m.running - 1 : Nat) : Rat) * dearest -
          config.maxInflight * dearest) * (1 - slip) ^ (bills history).length * (1 - slip)
        ≤ config.usdCap * (1 - slip) := by
          refine mul_le_mul_of_nonneg_right (le_trans ?_ hexposure) hkeeps
          exact mul_le_mul_of_nonneg_right (by linarith) hpower
      _ ≤ config.usdCap := mul_le_of_le_one_right hcap hless
  · rw [hcopies]
    exact h.sampled.trans hmore
  · rw [hcopies]
    have hshare := h.share
    linarith

theorem bills_nonneg {history : List (Event × Answer)} : ∀ cost ∈ bills history, 0 ≤ cost := by
  intro cost hcost
  obtain ⟨⟨event, answer⟩, -, hsettled⟩ := List.mem_filterMap.mp hcost
  cases event with
  | shadowDone paid =>
      rw [← Option.some.inj hsettled]
      exact le_max_right paid 0
  | _ => cases hsettled

/-- The invariant of a whole run. -/
theorem exposed {config : Shadow ρ.settings.count} (hshadow : ρ.settings.shadow = some config)
    (hsample : 0 ≤ config.sample) (hone : config.sample ≤ 1) (hcap : 0 ≤ config.usdCap)
    {dearest : Rat} (hdearest : 0 ≤ dearest) (hfresh : Unspent start)
    (h : Trace.Runs step start history s) (hsettling : Settling history)
    (hcosts : ∀ cost ∈ bills history, cost ≤ dearest) :
    Exposure config dearest history s.meters := by
  revert hsettling hcosts
  apply h.induct (P := fun history s => Settling history →
    (∀ cost ∈ bills history, cost ≤ dearest) → Exposure config dearest history s.meters)
  · intro _ _
    have hroom : (0 : Rat) ≤ config.maxInflight * dearest :=
      mul_nonneg (Nat.cast_nonneg _) hdearest
    refine ⟨hfresh.running, hfresh.running ▸ Nat.zero_le _, ?_, ?_, ?_, ?_, ?_⟩
    · rw [hfresh.spent]
      simp [bills]
    · rw [hfresh.running]
      simp only [bills, List.filterMap_nil, List.sum_nil, Nat.cast_zero, zero_mul, add_zero,
        zero_sub, List.length_nil, pow_zero, mul_one]
      linarith
    · rw [hfresh.sampled]
      norm_num
    · rw [hfresh.sampled]
      simp [copies, chances]
    · have hless := double_whole.2.2.2.2
      simp only [copies, chances, List.countP_nil, Nat.cast_zero, zero_mul, zero_add]
      linarith
  · intro history s event answer t _ ih hstep hsettling hcosts
    have hbills : ∀ cost ∈ bills history, cost ≤ dearest := by
      intro cost hcost
      apply hcosts
      rw [bills_append]
      exact List.mem_append_left _ hcost
    have hbefore := ih hsettling.of_append hbills
    have hmetered := metered_step hstep
    generalize t.meters = n at hmetered
    cases hmetered with
    | same hsame _ hsettled hcopy => exact hsame ▸ hbefore.same hsample hsettled hcopy
    | counted hcounted _ hsettled hcopy _ =>
        have hkept := hbefore.same hsample hsettled hcopy
        rw [hcounted]
        exact ⟨hkept.running, hkept.room, hkept.spent, hkept.exposure, hkept.bounded,
          hkept.sampled, hkept.share⟩
    | considered _ hsettled hconsiders hconfig hsampled =>
        have hsame := Option.some.inj (hconfig.symm.trans hshadow)
        rw [hsame] at hsampled
        exact hbefore.considered hsample hone hdearest hsettled hconsiders hsampled
    | @settled cost _ hsettled hcopy =>
        have hin : cost ∈ bills (history ++ [(event, answer)]) := by
          rw [bills_append, hsettled]
          simp
        exact hbefore.settle hsample hcap (bills_nonneg cost hin) (hcosts cost hin)
          (List.sum_nonneg bills_nonneg) hsettled hcopy (hsettling _ [] (List.append_nil _).symm)

/-- However the requests and the ends of the copies interleave, the copies out stay within their
limit, their bills within the cap and what the last ones out may still cost, and their number
within the sampled share of the steps that were considered; the sums are those of `double`s, each
of which may be off by its last bit. -/
theorem shadow_bounded {config : Shadow ρ.settings.count}
    (hshadow : ρ.settings.shadow = some config) (hsample : 0 ≤ config.sample)
    (hone : config.sample ≤ 1) (hcap : 0 ≤ config.usdCap) {dearest : Rat} (hdearest : 0 ≤ dearest)
    (hfresh : Unspent start) (h : Trace.Runs step start history s) (hsettling : Settling history)
    (hcosts : ∀ cost ∈ bills history, cost ≤ dearest) :
    copies history ≤ (bills history).length + config.maxInflight ∧
      (bills history).sum ≤
        config.usdCap / (1 - slip) ^ (bills history).length + config.maxInflight * dearest ∧
      (copies history : Rat) ≤
        chances history * (config.sample + 3 * slip) + (1 - wholeSample) := by
  have hexposed := exposed hshadow hsample hone hcap hdearest hfresh h hsettling hcosts
  have hrunning := hexposed.running
  have hroom := hexposed.room
  have hexposure := hexposed.exposure
  refine ⟨by omega, ?_, hexposed.share⟩
  have hout : (0 : Rat) ≤ s.meters.running * dearest := mul_nonneg (Nat.cast_nonneg _) hdearest
  have hpower : 0 < (1 - slip) ^ (bills history).length :=
    pow_pos (show (0 : Rat) < 1 - slip by decide +kernel) _
  have hpaid := (le_div_iff₀ hpower).mpr hexposure
  linarith

theorem shadow_bounded_sample :
    copies meteredRun.1 ≤ (bills meteredRun.1).length + 1 ∧
      (bills meteredRun.1).sum ≤
        (1 / 100) / (1 - slip) ^ (bills meteredRun.1).length + (1 : Nat) * (1 / 200) ∧
      (copies meteredRun.1 : Rat) ≤ chances meteredRun.1 * (1 + 3 * slip) + (1 - wholeSample) :=
  have hshadow : meteredRouter.settings.shadow = some ⟨⟨2, by decide⟩, 1, 1 / 100, 1⟩ := rfl
  shadow_bounded hshadow (by decide +kernel) (by decide +kernel) (by decide +kernel)
    (by decide +kernel) (unspent_sampleStart meteredRouter) (Trace.Runs.feed meteredEvents _)
    (by decide +kernel) (by decide +kernel)

end Recursant.Gateway
