import Recursant.Attempts.Ledger

/-!
# Bearer tokens and admission

`rc_auth_bearer` compares the token with every configured one in full, and `rc_admit_request`
decides on a request before anything is sent upstream.
-/

namespace Recursant.Auth

open Attempts (AuthTable authBearer)

/-! ## `rc_auth_bearer` -/

/-- `ct_memeq` -/
def ctMemeq (a b : Text) (n : Nat) : Bool :=
  ((a.take n).zip (b.take n)).foldl (fun diff (x, y) => diff ||| (x ^^^ y)) 0 == 0

/-- One candidate: as many bytes as both have are compared, whatever the lengths are. -/
def sameToken (token candidate : Text) : Bool :=
  ctMemeq token candidate (min token.length candidate.length) && token.length == candidate.length

/-- One round of the loop; `found` stays at the first match. -/
def compareCandidate (token : Text) (found : Int) : Option Text × Nat → Int
  | (none, _) => found
  | (some candidate, i) => if sameToken token candidate && found < 0 then i else found

/-- `rc_auth_bearer`; there is no early exit across the list. -/
def rcAuthBearer (t : Option AuthTable) (authorization : Option Text) : Int :=
  match t, authorization with
  | some tokens, some a =>
      if a.length < 7 then -1
      else if (a.take 6).map tolower ≠ text "bearer" then -1
      else if a[6]? ≠ some 32 then -1
      else if a.drop 7 = [] then -1
      else tokens.zipIdx.foldl (compareCandidate (a.drop 7)) (-1)
  | _, _ => -1

/-! ## `rc_admit_request` -/

inductive AdmitResult where
  | ok (project : Int)
  | denyAuth
  | denyMalformed
  | denyTooLarge
  | denyOverload
  | invalidInput
  deriving DecidableEq

structure AdmissionPolicy where
  maxBodyBytes : Int
  maxInflight : Int
  deriving DecidableEq

/-- What the caller gets wrong: a policy without room for a body, or a count out of its range. -/
def AdmissionPolicy.invalid (p : AdmissionPolicy) (currentInflight : Int) : Bool :=
  p.maxBodyBytes ≤ 0 || p.maxInflight < 0 || currentInflight < 0 || p.maxInflight < currentInflight

/-- `rc_admit_request`: identity first, then body sanity, then size, then capacity. -/
def admitRequest (auth : Option AuthTable) (policy : AdmissionPolicy) (authorization : Option Text)
    (contentLength currentInflight : Int) : AdmitResult :=
  match auth with
  | none => .denyAuth
  | some tokens =>
      if policy.invalid currentInflight then .invalidInput
      else
        let project := rcAuthBearer (some tokens) authorization
        if project < 0 then .denyAuth
        else if contentLength < 0 then .denyMalformed
        else if policy.maxBodyBytes < contentLength then .denyTooLarge
        else if policy.maxInflight ≤ currentInflight then .denyOverload
        else .ok project

/-! ## The comparison -/

/-- The differences are collected, so that any of them is left at the end. -/
theorem foldl_diff (pairs : List (Byte × Byte)) (diff : Byte) :
    pairs.foldl (fun diff (x, y) => diff ||| (x ^^^ y)) diff = 0 ↔
      diff = 0 ∧ ∀ xy ∈ pairs, xy.1 = xy.2 := by
  induction pairs generalizing diff with
  | nil => simp
  | cons xy pairs ih =>
      rw [List.foldl_cons, ih, UInt8.or_eq_zero_iff, UInt8.xor_eq_zero_iff, List.forall_mem_cons,
        and_assoc]

theorem ctMemeq_iff {a b : Text} {n : Nat} (ha : n ≤ a.length) (hb : n ≤ b.length) :
    ctMemeq a b n = true ↔ a.take n = b.take n := by
  unfold ctMemeq
  rw [beq_iff_eq, foldl_diff]
  have hlength : (a.take n).length = (b.take n).length := by
    rw [List.length_take, List.length_take]
    omega
  generalize a.take n = xs at hlength
  generalize b.take n = ys at hlength
  constructor
  · rintro ⟨-, hall⟩
    apply List.ext_getElem hlength
    intro i hx hy
    have hmem : (xs[i], ys[i]) ∈ xs.zip ys := by
      have hi : i < (xs.zip ys).length := by
        rw [List.length_zip]
        omega
      rw [← List.getElem_zip (h := hi)]
      exact List.getElem_mem hi
    exact hall _ hmem
  · rintro rfl
    refine ⟨rfl, fun xy hxy => ?_⟩
    obtain ⟨i, hi, rfl⟩ := List.mem_iff_getElem.mp hxy
    rw [List.getElem_zip]

/-- The comparison tells equal tokens, no matter what their lengths are. -/
theorem sameToken_iff (token candidate : Text) :
    sameToken token candidate = true ↔ token = candidate := by
  unfold sameToken
  rw [Bool.and_eq_true, beq_iff_eq,
    ctMemeq_iff (Nat.min_le_left _ _) (Nat.min_le_right _ _)]
  constructor
  · rintro ⟨htake, hlength⟩
    rw [hlength, Nat.min_self, List.take_length, ← hlength, List.take_length] at htake
    exact htake
  · rintro rfl
    exact ⟨rfl, rfl⟩

/-! ## The search -/

theorem foldl_found {token : Text} {found : Int} (h : 0 ≤ found)
    (candidates : List (Option Text × Nat)) :
    candidates.foldl (compareCandidate token) found = found := by
  induction candidates with
  | nil => rfl
  | cons c candidates ih =>
      have hstep : compareCandidate token found c = found := by
        obtain ⟨candidate, i⟩ := c
        cases candidate with
        | none => rfl
        | some candidate =>
            show (if sameToken token candidate && decide (found < 0) then (i : Int) else found) = _
            rw [decide_eq_false (by omega), Bool.and_false]
            rfl
      rw [List.foldl_cons, hstep, ih]

/-- The project index of a search, with `-1` for none. -/
def indexOf : Option Nat → Int
  | none => -1
  | some p => p

theorem foldl_compare (token : Text) (tokens : AuthTable) (start : Nat) :
    (tokens.zipIdx start).foldl (compareCandidate token) (-1) =
      indexOf ((tokens.findIdx? fun candidate => candidate == some token).map (· + start)) := by
  induction tokens generalizing start with
  | nil => rfl
  | cons candidate tokens ih =>
      rw [List.zipIdx_cons, List.foldl_cons, List.findIdx?_cons]
      have hskip : compareCandidate token (-1) (candidate, start) = -1 →
          (candidate == some token) = false →
          (tokens.zipIdx (start + 1)).foldl (compareCandidate token)
            (compareCandidate token (-1) (candidate, start)) =
          indexOf ((if candidate == some token then some 0
            else (tokens.findIdx? fun c => c == some token).map (· + 1)).map (· + start)) := by
        intro hstep hne
        rw [hstep, ih, hne, if_neg (by decide), Option.map_map]
        congr 2
        funext i
        show i + (start + 1) = i + 1 + start
        omega
      cases candidate with
      | none => exact hskip rfl rfl
      | some c =>
          by_cases hsame : sameToken token c = true
          · have heq := (sameToken_iff token c).mp hsame
            have hstep : compareCandidate token (-1) (some c, start) = start := by
              show (if sameToken token c && decide ((-1 : Int) < 0) then (start : Int) else -1) = _
              rw [hsame]
              rfl
            rw [hstep, foldl_found (by omega), heq, beq_self_eq_true, if_pos rfl]
            show (start : Int) = ((0 + start : Nat) : Int)
            rw [Nat.zero_add]
          · apply hskip
            · show (if sameToken token c && decide ((-1 : Int) < 0) then (start : Int) else -1) = _
              rw [Bool.eq_false_iff.mpr hsame]
              rfl
            · rw [beq_eq_false_iff_ne]
              intro heq
              exact hsame ((sameToken_iff token c).mpr (Option.some.inj heq).symm)

/-- The loop finds what a search for the token finds. -/
theorem rcAuthBearer_eq (t : AuthTable) (authorization : Option Text) :
    rcAuthBearer (some t) authorization = indexOf (authBearer t authorization) := by
  cases authorization with
  | none => rfl
  | some a =>
      unfold rcAuthBearer authBearer
      dsimp only
      by_cases htest : ((a.take 6).map tolower == text "bearer" && a[6]? == some 32 &&
          decide (a.drop 7 ≠ [])) = true
      · rw [if_pos htest]
        simp only [Bool.and_eq_true, beq_iff_eq, decide_eq_true_eq] at htest
        obtain ⟨⟨hscheme, hblank⟩, hempty⟩ := htest
        have hlong := (List.getElem?_eq_some_iff.mp hblank).1
        rw [if_neg (by omega), if_neg (not_not.mpr hscheme), if_neg (not_not.mpr hblank),
          if_neg hempty, foldl_compare]
        simp
      · rw [if_neg htest]
        simp only [Bool.and_eq_true, beq_iff_eq, decide_eq_true_eq] at htest
        by_cases hshort : a.length < 7
        · rw [if_pos hshort]
          rfl
        rw [if_neg hshort]
        by_cases hscheme : (a.take 6).map tolower = text "bearer"
        · rw [if_neg (not_not.mpr hscheme)]
          by_cases hblank : a[6]? = some 32
          · have hempty : a.drop 7 = [] := by
              by_contra hne
              exact htest ⟨⟨hscheme, hblank⟩, hne⟩
            rw [if_neg (not_not.mpr hblank), if_pos hempty]
            rfl
          · rw [if_pos hblank]
            rfl
        · rw [if_pos hscheme]
          rfl

/-- The header names the scheme in any case, one blank, and then the token. -/
def Presents (authorization : Option Text) (token : Text) : Prop :=
  ∃ scheme, caseEq scheme "bearer" = true ∧ authorization = some (scheme ++ 32 :: token)

/-- A project is found for its token, unless an earlier one has the same. -/
theorem authBearer_eq_some {t : AuthTable} {authorization : Option Text} {p : Nat} :
    authBearer t authorization = some p ↔ ∃ token, token ≠ [] ∧ Presents authorization token ∧
      t[p]? = some (some token) ∧ ∀ q < p, t[q]? ≠ some (some token) := by
  cases authorization with
  | none => exact iff_of_false nofun fun ⟨_, _, ⟨_, _, h⟩, _⟩ => nomatch h
  | some a =>
      unfold authBearer
      dsimp only
      constructor
      · intro h
        split at h
        next hok =>
          simp only [Bool.and_eq_true, beq_iff_eq, ne_eq, decide_not, Bool.not_eq_true',
            decide_eq_false_iff_not] at hok
          obtain ⟨⟨hscheme, hblank⟩, hempty⟩ := hok
          obtain ⟨hlt, hget⟩ := List.getElem?_eq_some_iff.mp hblank
          obtain ⟨hp, hfound, hfirst⟩ := List.findIdx?_eq_some_iff_getElem.mp h
          refine ⟨a.drop 7, hempty, ⟨a.take 6, ?_, ?_⟩, ?_, ?_⟩
          · unfold caseEq
            rw [hscheme]
            rfl
          · congr 1
            rw [← hget, ← List.drop_eq_getElem_cons hlt, List.take_append_drop]
          · rw [List.getElem?_eq_getElem hp, eq_of_beq hfound]
          · intro q hq heq
            obtain ⟨hqt, hqget⟩ := List.getElem?_eq_some_iff.mp heq
            have hnot := hfirst q hq
            rw [hqget] at hnot
            simp at hnot
        · cases h
      · rintro ⟨token, hne, ⟨scheme, hscheme, heq⟩, hp, hfirst⟩
        cases heq
        have hlower := eq_of_beq hscheme
        have hsix : scheme.length = 6 := by
          have hlength := congrArg List.length hlower
          rw [List.length_map, List.length_map] at hlength
          exact hlength
        have htake : (scheme ++ 32 :: token).take 6 = scheme := by
          rw [← hsix, List.take_left]
        have hblank : (scheme ++ 32 :: token)[6]? = some 32 := by
          rw [List.getElem?_append_right (by omega), hsix]
          rfl
        have hdrop : (scheme ++ 32 :: token).drop 7 = token := by
          rw [List.drop_append, hsix, List.drop_eq_nil_of_le (by omega)]
          rfl
        rw [htake, hblank, hdrop, hlower]
        rw [if_pos (by simp [hne]; decide)]
        rw [List.findIdx?_eq_some_iff_getElem]
        obtain ⟨hlt, hget⟩ := List.getElem?_eq_some_iff.mp hp
        refine ⟨hlt, by rw [hget]; exact beq_self_eq_true _, ?_⟩
        intro q hq hmatch
        apply hfirst q hq
        rw [List.getElem?_eq_getElem (by omega), eq_of_beq hmatch]

/-! ## The decision -/

theorem admitRequest_ok {t : AuthTable} {policy : AdmissionPolicy} {authorization : Option Text}
    {contentLength currentInflight project : Int} :
    admitRequest (some t) policy authorization contentLength currentInflight = .ok project ↔
      policy.invalid currentInflight = false ∧
        (∃ p : Nat, project = p ∧ authBearer t authorization = some p) ∧
        0 ≤ contentLength ∧ contentLength ≤ policy.maxBodyBytes ∧
        currentInflight < policy.maxInflight := by
  unfold admitRequest
  dsimp only
  rw [rcAuthBearer_eq]
  cases policy.invalid currentInflight with
  | true => simp
  | false =>
      rw [if_neg (by decide)]
      cases authBearer t authorization with
      | none => exact iff_of_false nofun fun ⟨_, ⟨_, _, h⟩, _⟩ => nomatch h
      | some p =>
          rw [if_neg (by show ¬ (p : Int) < 0; omega)]
          by_cases hlow : contentLength < 0
          · rw [if_pos hlow]
            exact iff_of_false nofun fun ⟨_, _, h, _⟩ => by omega
          · by_cases hhigh : policy.maxBodyBytes < contentLength
            · rw [if_neg hlow, if_pos hhigh]
              exact iff_of_false nofun fun ⟨_, _, _, h, _⟩ => by omega
            · by_cases hfull : policy.maxInflight ≤ currentInflight
              · rw [if_neg hlow, if_neg hhigh, if_pos hfull]
                exact iff_of_false nofun fun ⟨_, _, _, _, h⟩ => by omega
              · rw [if_neg hlow, if_neg hhigh, if_neg hfull, AdmitResult.ok.injEq]
                constructor
                · intro h
                  exact ⟨rfl, ⟨p, h.symm, rfl⟩, by omega, by omega, by omega⟩
                · rintro ⟨-, ⟨q, rfl, hq⟩, -⟩
                  rw [Option.some.inj hq]
                  rfl

/-- A caller without a token of the table learns whether too many others are in flight, and nothing
about sizes. -/
theorem admitRequest_unauthenticated {t : AuthTable} {authorization : Option Text}
    (h : authBearer t authorization = none) (policy : AdmissionPolicy)
    (contentLength currentInflight : Int) :
    admitRequest (some t) policy authorization contentLength currentInflight =
      if policy.invalid currentInflight then .invalidInput else .denyAuth := by
  unfold admitRequest
  dsimp only
  rw [rcAuthBearer_eq, h]
  rfl

end Recursant.Auth
