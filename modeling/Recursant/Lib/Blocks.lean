import Mathlib.Data.List.Forall2
import Mathlib.Data.List.Infix

/-!
# Texts in blocks

Two sequences that are cut into blocks alike, where a block is one letter in both or has no letter in
either, contain the same words of letters, and at corresponding places.
-/

namespace Blocks

variable {ν β γ : Type*} {letter : ν → Prop} {u : ν → β} {v : ν → γ}

/-- The same letter, or no letter. -/
inductive Same (letter : ν → Prop) (u : ν → β) (v : ν → γ) : List β → List γ → Prop
  | letter (n : ν) (h : letter n) : Same letter u v [u n] [v n]
  | other {b : List β} {g : List γ} (hb : b ≠ []) (hg : g ≠ []) (hu : ∀ n, letter n → u n ∉ b)
      (hv : ∀ n, letter n → v n ∉ g) : Same letter u v b g

theorem Same.symm {b : List β} {g : List γ} (h : Same letter u v b g) : Same letter v u g b := by
  cases h with
  | letter n h => exact .letter n h
  | other hb hg hu hv => exact .other hg hb hv hu

theorem forall₂_symm {bs : List (List β)} {gs : List (List γ)}
    (h : List.Forall₂ (Same letter u v) bs gs) : List.Forall₂ (Same letter v u) gs bs :=
  h.flip.imp fun _ _ hsame => hsame.symm

section

variable (hu : ∀ m n, letter m → letter n → u m = u n → m = n)

include hu

/-- A word of letters at the front of one is at the front of the other. -/
theorem front {needle : List ν} (hneedle : ∀ n ∈ needle, letter n) {bs : List (List β)}
    {gs : List (List γ)} (h : List.Forall₂ (Same letter u v) bs gs) {after : List β}
    (heq : bs.flatten = needle.map u ++ after) :
    ∃ bs' gs', List.Forall₂ (Same letter u v) bs' gs' ∧ after = bs'.flatten ∧
      gs.flatten = needle.map v ++ gs'.flatten := by
  induction needle generalizing bs gs with
  | nil => exact ⟨bs, gs, h, heq.symm, rfl⟩
  | cons n needle ih =>
      have hn := hneedle n List.mem_cons_self
      rw [List.map_cons, List.cons_append] at heq
      cases h with
      | nil => cases heq
      | cons hsame hrest =>
          rw [List.flatten_cons] at heq
          cases hsame with
          | letter m hm =>
              obtain ⟨hletter, hflatten⟩ := List.cons_eq_cons.mp heq
              obtain ⟨bs', gs', hsame', hafter, hgs⟩ :=
                ih (fun k hk => hneedle k (List.mem_cons_of_mem n hk)) hrest hflatten
              refine ⟨bs', gs', hsame', hafter, ?_⟩
              rw [List.flatten_cons, hgs, hu m n hm hn hletter]
              rfl
          | other hb _ hnot _ =>
              obtain ⟨x, b, rfl⟩ := List.exists_cons_of_ne_nil hb
              refine absurd ?_ (hnot n hn)
              rw [(List.cons_eq_cons.mp heq).1]
              exact List.mem_cons_self

/-- A word of letters in one is in the other, and what follows corresponds. -/
theorem occurrence {needle : List ν} (hne : needle ≠ []) (hneedle : ∀ n ∈ needle, letter n)
    {bs : List (List β)} {gs : List (List γ)} (h : List.Forall₂ (Same letter u v) bs gs)
    {before after : List β} (heq : bs.flatten = before ++ (needle.map u ++ after)) :
    ∃ bs' gs' before', List.Forall₂ (Same letter u v) bs' gs' ∧ after = bs'.flatten ∧
      gs.flatten = before' ++ (needle.map v ++ gs'.flatten) := by
  induction h generalizing before with
  | nil =>
      obtain ⟨n, needle, rfl⟩ := List.exists_cons_of_ne_nil hne
      simp at heq
  | @cons b g bs gs hsame hrest ih =>
      by_cases hbefore : before = []
      · rw [hbefore, List.nil_append] at heq
        obtain ⟨bs', gs', hsame', hafter, hgs⟩ := front hu hneedle (hrest.cons hsame) heq
        exact ⟨bs', gs', [], hsame', hafter, hgs⟩
      rw [List.flatten_cons] at heq
      -- the word begins behind this block, or in it
      rcases List.append_eq_append_iff.mp heq with ⟨before', -, hflatten⟩ | ⟨rest, hblock, hword⟩
      · obtain ⟨bs', gs', before', hsame', hafter, hgs⟩ := ih hflatten
        refine ⟨bs', gs', g ++ before', hsame', hafter, ?_⟩
        rw [List.flatten_cons, hgs, List.append_assoc]
      cases rest with
      | nil =>
          obtain ⟨bs', gs', before', hsame', hafter, hgs⟩ := @ih [] hword.symm
          refine ⟨bs', gs', g ++ before', hsame', hafter, ?_⟩
          rw [List.flatten_cons, hgs, List.append_assoc]
      | cons x rest =>
          obtain ⟨n, needle, rfl⟩ := List.exists_cons_of_ne_nil hne
          have hx : x = u n := (List.cons_eq_cons.mp hword).1.symm
          have hmem : u n ∈ b := by
            rw [hblock, ← hx]
            exact List.mem_append_right _ List.mem_cons_self
          cases hsame with
          | letter m hm =>
              -- a block of one letter has nothing in front of it
              obtain ⟨y, before, rfl⟩ := List.exists_cons_of_ne_nil hbefore
              simp at hblock
          | other _ _ hnot _ => exact absurd hmem (hnot n (hneedle n List.mem_cons_self))

theorem infix_of {needle : List ν} (hneedle : ∀ n ∈ needle, letter n) {bs : List (List β)}
    {gs : List (List γ)} (h : List.Forall₂ (Same letter u v) bs gs)
    (hword : needle.map u <:+: bs.flatten) : needle.map v <:+: gs.flatten := by
  by_cases hne : needle = []
  · rw [hne]
    exact List.nil_infix
  · obtain ⟨before, after, heq⟩ := hword
    rw [List.append_assoc] at heq
    obtain ⟨bs', gs', before', -, -, hgs⟩ := occurrence hu hne hneedle h heq.symm
    exact ⟨before', gs'.flatten, by rw [hgs, List.append_assoc]⟩

end

/-- What begins with another value than a letter does so in the other, too. -/
theorem next_ne (hv : ∀ m n, letter m → letter n → v m = v n → m = n) {q : ν} (hq : letter q)
    {bs : List (List β)} {gs : List (List γ)} (h : List.Forall₂ (Same letter u v) bs gs) {x : β}
    (hx : bs.flatten.head? = some x) (hne : x ≠ u q) :
    ∃ y, gs.flatten.head? = some y ∧ y ≠ v q := by
  cases h with
  | nil => cases hx
  | cons hsame hrest =>
      cases hsame with
      | letter m hm =>
          refine ⟨v m, rfl, fun heq => hne ?_⟩
          rw [← hv m q hm hq heq]
          exact (Option.some.inj hx).symm
      | @other b g _ hg _ hnot =>
          obtain ⟨y, g, rfl⟩ := List.exists_cons_of_ne_nil hg
          refine ⟨y, rfl, ?_⟩
          rintro rfl
          exact hnot q hq List.mem_cons_self

/-- The same words of letters. -/
theorem infix_iff (hu : ∀ m n, letter m → letter n → u m = u n → m = n)
    (hv : ∀ m n, letter m → letter n → v m = v n → m = n) {needle : List ν}
    (hneedle : ∀ n ∈ needle, letter n) {bs : List (List β)} {gs : List (List γ)}
    (h : List.Forall₂ (Same letter u v) bs gs) :
    needle.map u <:+: bs.flatten ↔ needle.map v <:+: gs.flatten :=
  ⟨infix_of hu hneedle h, infix_of hv hneedle (forall₂_symm h)⟩

theorem followed_of (hu : ∀ m n, letter m → letter n → u m = u n → m = n)
    (hv : ∀ m n, letter m → letter n → v m = v n → m = n) {needle : List ν} (hne : needle ≠ [])
    (hneedle : ∀ n ∈ needle, letter n) {q : ν} (hq : letter q) {bs : List (List β)}
    {gs : List (List γ)} (h : List.Forall₂ (Same letter u v) bs gs)
    (hfollowed : ∃ before x after, bs.flatten = before ++ (needle.map u ++ x :: after) ∧ x ≠ u q) :
    ∃ before y after, gs.flatten = before ++ (needle.map v ++ y :: after) ∧ y ≠ v q := by
  obtain ⟨before, x, after, heq, hx⟩ := hfollowed
  obtain ⟨bs', gs', before', hsame, hafter, hgs⟩ := occurrence hu hne hneedle h heq
  obtain ⟨y, hy, hyq⟩ := next_ne hv hq hsame (by rw [← hafter]; rfl) hx
  obtain ⟨after', hafter'⟩ := List.head?_eq_some_iff.mp hy
  exact ⟨before', y, after', by rw [hgs, hafter'], hyq⟩

/-- The same words with something other than a letter behind them. -/
theorem followed_iff (hu : ∀ m n, letter m → letter n → u m = u n → m = n)
    (hv : ∀ m n, letter m → letter n → v m = v n → m = n) {needle : List ν} (hne : needle ≠ [])
    (hneedle : ∀ n ∈ needle, letter n) {q : ν} (hq : letter q) {bs : List (List β)}
    {gs : List (List γ)} (h : List.Forall₂ (Same letter u v) bs gs) :
    (∃ before x after, bs.flatten = before ++ (needle.map u ++ x :: after) ∧ x ≠ u q) ↔
      ∃ before y after, gs.flatten = before ++ (needle.map v ++ y :: after) ∧ y ≠ v q :=
  ⟨followed_of hu hv hne hneedle hq h, followed_of hv hu hne hneedle hq (forall₂_symm h)⟩

end Blocks
