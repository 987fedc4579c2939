import Recursant.Context.EfficiencyTexts

/-!
# The features agree

After every message the state of the pass is what the training side takes from the messages so far.
-/

namespace Recursant.Efficiency

open Bridge (Str str)
open Tokenizer (putCp encodeCps)

/-! ## Reading members -/

theorem encodeCps_ascii {s : Str} (h : ∀ c ∈ s, ascii c) : encodeCps s = s.map Nat.toUInt8 := by
  induction s with
  | nil => rfl
  | cons c s ih =>
      rw [Tokenizer.encodeCps_cons, putCp_ascii (h c List.mem_cons_self), List.map_cons,
        ih fun d hd => h d (List.mem_cons_of_mem c hd)]
      rfl

theorem encodeCps_inj {s t : Str} (hs : Valid s) (ht : Valid t) (h : encodeCps s = encodeCps t) :
    s = t := by
  have hlow : ∀ {u : Str}, Valid u → ∀ c ∈ u, c < 0x200000 :=
    fun hu c hc => Nat.lt_trans (hu c hc).2 (by decide)
  rw [← Tokenizer.codePoints_encode (hlow hs), h, Tokenizer.codePoints_encode (hlow ht)]

/-- A name of the source. -/
def isName (s : Str) : Prop := ∀ c ∈ s, 0 < c ∧ c < 128

instance : DecidablePred isName := fun s => inferInstanceAs (Decidable (∀ c ∈ s, 0 < c ∧ c < 128))

theorem isName.valid {s : Str} (h : isName s) : Valid s :=
  fun c hc => ⟨(h c hc).1, Nat.lt_trans (h c hc).2 (by decide)⟩

theorem text_name {t : String} (h : isName (str t)) : text t = encodeCps (str t) := by
  rw [encodeCps_ascii fun c hc => (h c hc).2]
  exact text_eq t

theorem text_eq_iff {t : String} (ht : isName (str t)) {s : Str} (hs : Valid s) :
    encodeCps s = text t ↔ s = str t := by
  rw [text_name ht]
  exact ⟨encodeCps_inj hs ht.valid, fun h => h ▸ rfl⟩

theorem lookup_members {key : Str} (hkey : Valid key) (ms : List (Chars × Value)) :
    (jsonMembers ms).lookup (encodeCps key) =
      (ms.find? fun m => m.1.1 = key).map fun m => m.2.json := by
  induction ms with
  | nil => rfl
  | cons m ms ih =>
      obtain ⟨k, v⟩ := m
      rw [jsonMembers, List.lookup_cons]
      by_cases hk : k.1 = key
      · rw [List.find?_cons_of_pos (by simp [hk]), hk, beq_self_eq_true]
        rfl
      · have hne : encodeCps key ≠ encodeCps k.1 := fun h => hk (encodeCps_inj hkey k.2 h).symm
        rw [List.find?_cons_of_neg (by simp [hk]), beq_false_of_ne hne, ← ih]

theorem get_dict (key : Str) (ms : List (Chars × Value)) : (Value.dict ms).get key =
    ((ms.find? fun m => m.1.1 = key).map Prod.snd).getD .none := by
  unfold Value.get
  dsimp only
  cases ms.find? fun m => m.1.1 = key <;> rfl

/-- A member in both readings; a missing one is `None`. -/
theorem get_json (v : Value) {t : String} (ht : isName (str t)) :
    (v.json.get? (text t) = none ∧ v.get t = .none) ∨
      v.json.get? (text t) = some (v.get t).json := by
  rw [text_name ht]
  cases v with
  | dict ms =>
      have hlookup := lookup_members ht.valid ms
      rw [get_dict]
      cases hfind : ms.find? fun m => m.1.1 = str t with
      | none =>
          rw [hfind] at hlookup
          exact .inl ⟨hlookup, rfl⟩
      | some m =>
          rw [hfind] at hlookup
          exact .inr hlookup
  | none | bool | int | float | str | list => exact .inl ⟨rfl, rfl⟩

/-- The string that a value is. -/
def Value.chars : Value → Option Str
  | .str s => some s.1
  | _ => Option.none

theorem text_json (v : Value) : v.json.text? = v.chars.map encodeCps := by
  cases v <;> rfl

theorem jsonList_eq (vs : List Value) : jsonList vs = vs.map Value.json := by
  induction vs with
  | nil => rfl
  | cons v vs ih => rw [jsonList, ih]; rfl

theorem get_text (v : Value) {t : String} (ht : isName (str t)) :
    (v.json.get? (text t)).bind Json.text? = (v.get t).chars.map encodeCps := by
  rcases get_json v ht with ⟨hnone, hget⟩ | hsome
  · rw [hnone, hget]
    rfl
  · rw [hsome]
    exact text_json _

theorem chars_valid {v : Value} {s : Str} (h : v.chars = some s) : Valid s := by
  cases v with
  | str c =>
      cases h
      exact c.2
  | none | bool | int | float | list | dict => cases h

theorem truth_json (v : Value) : truthy (some v.json) = v.truth := by
  cases v with
  | bool b => cases b <;> rfl
  | list vs =>
      cases vs <;> rfl
  | dict ms =>
      cases ms <;> rfl
  | str s =>
      show (!(encodeCps s.1).isEmpty) = !s.1.isEmpty
      cases s.1 with
      | nil => rfl
      | cons c s =>
          obtain ⟨b, tail, hput⟩ := List.exists_cons_of_ne_nil (putCp_ne_nil c)
          rw [Tokenizer.encodeCps_cons, hput]
          rfl
  | none | int | float => rfl

theorem get_truth (v : Value) {t : String} (ht : isName (str t)) :
    truthy (v.json.get? (text t)) = (v.get t).truth := by
  rcases get_json v ht with ⟨hnone, hget⟩ | hsome
  · rw [hnone, hget]
    rfl
  · rw [hsome]
    exact truth_json _

/-! ## Messages -/

theorem roleIs_iff {t : String} {m : Value} : roleIs t m = true ↔ (m.get "role").chars = some (str t) := by
  unfold roleIs
  cases m.get "role" with
  | str s => exact decide_eq_true_iff.trans Option.some_inj.symm
  | none | bool | int | float | list | dict => exact iff_of_false Bool.false_ne_true nofun

theorem hasRole_eq {t : String} (ht : isName (str t)) (m : Value) :
    hasRole (text t) m.json = roleIs t m := by
  unfold hasRole
  rw [get_text m (by decide), Bool.eq_iff_iff, decide_eq_true_iff, roleIs_iff]
  cases hrole : (m.get "role").chars with
  | none => exact iff_of_false nofun nofun
  | some s =>
      rw [Option.map_some, Option.some_inj, Option.some_inj]
      exact text_eq_iff ht (chars_valid hrole)

/-- A message has one role. -/
theorem roleIs_unique {t : String} (r : String) {m : Value} (h : roleIs t m = true)
    (hne : str t ≠ str r) : roleIs r m = false := by
  rw [Bool.eq_false_iff, Ne, roleIs_iff, roleIs_iff.mp h, Option.some_inj]
  exact hne

theorem contentOf_eq (m : Value) : contentOf m = (m.get "content").chars.getD [] := by
  unfold contentOf
  cases m.get "content" <;> rfl

theorem contentText_eq (m : Value) : contentText m.json = encodeCps (contentOf m) := by
  unfold contentText
  rw [get_text m (by decide), contentOf_eq]
  cases (m.get "content").chars <;> rfl

theorem contentOf_valid (m : Value) : Valid (contentOf m) := by
  rw [contentOf_eq]
  cases h : (m.get "content").chars with
  | none => exact List.forall_mem_nil _
  | some s => exact chars_valid h

theorem nameOf_eq (c : Value) : nameOf c = ((c.get "function").get "name").chars := by
  unfold nameOf
  cases (c.get "function").get "name" <;> rfl

theorem callName_eq (c : Value) : callName c.json = (nameOf c).map encodeCps := by
  unfold callName
  rw [nameOf_eq]
  rcases get_json c (t := "function") (by decide) with ⟨hnone, hget⟩ | hsome
  · rw [hnone, hget]
    rfl
  · rw [hsome]
    exact get_text _ (by decide)

theorem toolCalls_eq (m : Value) : toolCalls m.json = (callsIn m).map Value.json := by
  unfold toolCalls callsIn
  rcases get_json m (t := "tool_calls") (by decide) with ⟨hnone, hget⟩ | hsome
  · rw [hnone, hget]
    rfl
  · rw [hsome]
    cases m.get "tool_calls" with
    | list vs => exact jsonList_eq vs
    | none | bool | int | float | str | dict => rfl

/-! ## The state of the pass -/

def firstOf (t : String) (msgs : List Value) : Option Value := (msgs.filter (roleIs t)).head?

theorem resultsOf_concat (msgs : List Value) (m : Value) : resultsOf (msgs ++ [m]) =
    if roleIs "tool" m then resultsOf msgs ++ [contentOf m] else resultsOf msgs := by
  unfold resultsOf
  rw [List.filter_append, List.map_append]
  by_cases h : roleIs "tool" m = true
  · rw [if_pos h, List.filter_cons_of_pos h]
    rfl
  · rw [if_neg h, List.filter_cons_of_neg h]
    exact List.append_nil _

theorem callsOf_concat (msgs : List Value) (m : Value) : callsOf (msgs ++ [m]) =
    if roleIs "assistant" m then callsOf msgs ++ (callsIn m).map nameOf else callsOf msgs := by
  unfold callsOf
  rw [List.filter_append, List.flatMap_append]
  by_cases h : roleIs "assistant" m = true
  · rw [if_pos h, List.filter_cons_of_pos h, List.filter_nil, List.flatMap_singleton]
  · rw [if_neg h, List.filter_cons_of_neg h]
    exact List.append_nil _

theorem firstOf_concat (t : String) (msgs : List Value) (m : Value) : firstOf t (msgs ++ [m]) =
    if roleIs t m then (firstOf t msgs).or (some m) else firstOf t msgs := by
  unfold firstOf
  rw [List.filter_append]
  by_cases h : roleIs t m = true
  · rw [if_pos h, List.filter_cons_of_pos h, List.head?_append]
    rfl
  · rw [if_neg h, List.filter_cons_of_neg h]
    simp

/-- What the state has of the results. -/
structure Results (rs : List Str) (s : Scan) : Prop where
  tools : s.tools = rs.length
  seen : s.seen = rs.length
  run : s.run = leadingRun (rs.map isFailure).reverse
  last : s.last = rs.getLast?.map encodeCps
  window : [s.window.1, s.window.2.1, s.window.2.2] =
    (List.replicate 3 false ++ rs.map isFailure).drop rs.length

/-- What it has of the first system and user messages. -/
structure Firsts (first user : Option Value) (s : Scan) : Prop where
  system : s.system = first.map fun m => encodeCps (contentOf m)
  haveUser : s.haveUser = user.isSome
  firstUser : s.firstUser = user.bind fun m => m.json.get? "content"

/-- What it has of the calls. -/
structure Calls (calls : List (Option Str)) (s : Scan) : Prop where
  number : s.calls = calls.length
  last : s.callLast = calls.getLast?.join.map encodeCps
  prev : s.callPrev = calls.dropLast.getLast?.join.map encodeCps

structure Seen (msgs : List Value) (s : Scan) : Prop where
  results : Results (resultsOf msgs) s
  firsts : Firsts (firstOf "system" msgs) (firstOf "user" msgs) s
  calls : Calls (callsOf msgs) s

theorem Results.concat {rs : List Str} {s : Scan} (h : Results rs s) {r : Str} (hr : Valid r) :
    Results (rs ++ [r])
      { s with
        tools := s.tools + 1
        last := some (encodeCps r)
        window := (s.window.2.1, s.window.2.2, failed (encodeCps r))
        seen := s.seen + 1
        run := if failed (encodeCps r) then s.run + 1 else 0 } where
  tools := by rw [h.tools, List.length_append, List.length_singleton]
  seen := by rw [h.seen, List.length_append, List.length_singleton]
  run := by
    rw [failed_eq hr, h.run, List.map_append, List.map_singleton, List.reverse_append,
      List.reverse_singleton, List.singleton_append, leadingRun]
  last := by rw [List.getLast?_concat, Option.map_some]
  window := by
    have hwindow := congrArg List.tail h.window
    rw [List.tail_drop, List.tail_cons] at hwindow
    rw [List.length_append, List.length_singleton, List.map_append, List.map_singleton,
      ← List.append_assoc, List.drop_append_of_le_length, ← hwindow, failed_eq hr]
    · rfl
    · rw [List.length_append, List.length_replicate, List.length_map]
      omega

theorem Calls.concat {calls : List (Option Str)} {s : Scan} (h : Calls calls s) (c : Value) :
    Calls (calls ++ [nameOf c]) (s.call c.json) where
  number := by
    rw [List.length_append, List.length_singleton, ← h.number]
    rfl
  last := by
    rw [List.getLast?_concat]
    exact callName_eq c
  prev := by
    rw [List.dropLast_concat]
    exact h.last

theorem Scan.foldl_call (cs : List Json) (s : Scan) :
    ∃ callLast callPrev calls, cs.foldl Scan.call s =
      { s with callLast := callLast, callPrev := callPrev, calls := calls } := by
  induction cs generalizing s with
  | nil => exact ⟨_, _, _, rfl⟩
  | cons c cs ih =>
      obtain ⟨callLast, callPrev, calls, heq⟩ := ih (s.call c)
      exact ⟨callLast, callPrev, calls, heq⟩

theorem Calls.foldl {calls : List (Option Str)} {s : Scan} (h : Calls calls s) (cs : List Value) :
    Calls (calls ++ cs.map nameOf) ((cs.map Value.json).foldl Scan.call s) := by
  induction cs generalizing calls s with
  | nil =>
      rw [List.map_nil, List.append_nil]
      exact h
  | cons c cs ih =>
      rw [List.map_cons, List.map_cons, List.foldl_cons, List.append_cons]
      exact ih (h.concat c)

/-- One message more. -/
theorem Seen.concat {msgs : List Value} {s : Scan} (h : Seen msgs s) (m : Value) :
    Seen (msgs ++ [m]) (s.message m.json) := by
  have hfirsts := h.firsts
  unfold Scan.message
  rw [hasRole_eq (by decide), hasRole_eq (by decide), hasRole_eq (by decide),
    hasRole_eq (by decide), contentText_eq, toolCalls_eq]
  by_cases htool : roleIs "tool" m = true
  · have hsystem := roleIs_unique "system" htool (by decide)
    have huser := roleIs_unique "user" htool (by decide)
    have hassistant := roleIs_unique "assistant" htool (by decide)
    rw [if_pos htool]
    refine ⟨?_, ?_, ?_⟩
    · rw [resultsOf_concat, if_pos htool]
      exact h.results.concat (contentOf_valid m)
    · rw [firstOf_concat, firstOf_concat, hsystem, huser]
      exact ⟨hfirsts.system, hfirsts.haveUser, hfirsts.firstUser⟩
    · rw [callsOf_concat, hassistant]
      exact ⟨h.calls.number, h.calls.last, h.calls.prev⟩
  have hresults : resultsOf (msgs ++ [m]) = resultsOf msgs := by
    rw [resultsOf_concat, if_neg htool]
  rw [if_neg htool]
  by_cases hsystem : roleIs "system" m = true
  · have huser := roleIs_unique "user" hsystem (by decide)
    have hassistant := roleIs_unique "assistant" hsystem (by decide)
    have hcalls : callsOf (msgs ++ [m]) = callsOf msgs := by
      rw [callsOf_concat, hassistant, if_neg Bool.false_ne_true]
    have huser' : firstOf "user" (msgs ++ [m]) = firstOf "user" msgs := by
      rw [firstOf_concat, huser, if_neg Bool.false_ne_true]
    have hsystem' := firstOf_concat "system" msgs m
    rw [if_pos hsystem] at hsystem'
    rw [hsystem, huser, hassistant, Bool.true_and, Bool.false_and, if_neg Bool.false_ne_true,
      if_neg Bool.false_ne_true, hfirsts.system]
    -- only the first one counts
    cases hfirst : firstOf "system" msgs with
    | none =>
        rw [hfirst, Option.none_or] at hsystem'
        rw [Option.map_none, if_pos (by rfl)]
        refine ⟨hresults ▸ ⟨h.results.tools, h.results.seen, h.results.run, h.results.last,
          h.results.window⟩, ?_, hcalls ▸ ⟨h.calls.number, h.calls.last, h.calls.prev⟩⟩
        rw [hsystem', huser']
        exact ⟨rfl, hfirsts.haveUser, hfirsts.firstUser⟩
    | some first =>
        rw [hfirst, Option.some_or] at hsystem'
        rw [Option.map_some, Option.isNone_some, if_neg Bool.false_ne_true]
        refine ⟨hresults ▸ h.results, ?_, hcalls ▸ h.calls⟩
        rw [hsystem', huser', ← hfirst]
        exact hfirsts
  have hsystem' : firstOf "system" (msgs ++ [m]) = firstOf "system" msgs := by
    rw [firstOf_concat, if_neg hsystem]
  rw [Bool.eq_false_iff.mpr hsystem, Bool.false_and, if_neg Bool.false_ne_true]
  by_cases huser : roleIs "user" m = true
  · have hassistant := roleIs_unique "assistant" huser (by decide)
    have hcalls : callsOf (msgs ++ [m]) = callsOf msgs := by
      rw [callsOf_concat, hassistant, if_neg Bool.false_ne_true]
    have huser' := firstOf_concat "user" msgs m
    rw [if_pos huser] at huser'
    rw [huser, hassistant, Bool.true_and, if_neg Bool.false_ne_true, hfirsts.haveUser]
    cases hfirst : firstOf "user" msgs with
    | none =>
        rw [hfirst, Option.none_or] at huser'
        rw [if_pos (by rfl)]
        refine ⟨hresults ▸ ⟨h.results.tools, h.results.seen, h.results.run, h.results.last,
          h.results.window⟩, ?_, hcalls ▸ ⟨h.calls.number, h.calls.last, h.calls.prev⟩⟩
        rw [hsystem', huser']
        exact ⟨hfirsts.system, rfl, rfl⟩
    | some first =>
        rw [hfirst, Option.some_or] at huser'
        rw [Option.isSome_some, Bool.not_true, if_neg Bool.false_ne_true]
        refine ⟨hresults ▸ h.results, ?_, hcalls ▸ h.calls⟩
        rw [hsystem', huser', ← hfirst]
        exact hfirsts
  have huser' : firstOf "user" (msgs ++ [m]) = firstOf "user" msgs := by
    rw [firstOf_concat, if_neg huser]
  rw [Bool.eq_false_iff.mpr huser, Bool.false_and, if_neg Bool.false_ne_true]
  by_cases hassistant : roleIs "assistant" m = true
  · rw [if_pos hassistant]
    have hcalls := h.calls.foldl (callsIn m)
    obtain ⟨callLast, callPrev, calls, hfold⟩ := Scan.foldl_call ((callsIn m).map Value.json) s
    rw [hfold] at hcalls ⊢
    refine ⟨hresults ▸ ⟨h.results.tools, h.results.seen, h.results.run, h.results.last,
      h.results.window⟩, ?_, ?_⟩
    · rw [hsystem', huser']
      exact ⟨hfirsts.system, hfirsts.haveUser, hfirsts.firstUser⟩
    · rw [callsOf_concat, if_pos hassistant]
      exact hcalls
  · rw [if_neg hassistant]
    refine ⟨hresults ▸ h.results, ?_, ?_⟩
    · rw [hsystem', huser']
      exact hfirsts
    · rw [callsOf_concat, if_neg hassistant]
      exact h.calls

/-- All messages. -/
theorem scan_seen (msgs : List Value) : Seen msgs (scan (msgs.map Value.json)) := by
  induction msgs using List.reverseRecOn with
  | nil => exact ⟨⟨rfl, rfl, rfl, rfl, rfl⟩, ⟨rfl, rfl, rfl⟩, ⟨rfl, rfl, rfl⟩⟩
  | append_singleton msgs m ih =>
      unfold scan
      rw [List.map_append, List.map_singleton, List.foldl_concat]
      exact ih.concat m

/-! ## The features -/

section

variable {msgs : List Value} {s : Scan}

/-- The flags of the window are those of the last three results. -/
theorem Seen.flags (h : Seen msgs s) : s.flags =
    ((resultsOf msgs).drop ((resultsOf msgs).length - 3)).map isFailure := by
  have hresults := h.results
  unfold Scan.flags
  rw [hresults.window, hresults.seen, List.drop_drop, List.map_drop]
  by_cases hthree : 3 ≤ (resultsOf msgs).length
  · rw [Nat.min_eq_right hthree, List.drop_append, List.length_replicate,
      List.drop_of_length_le (by rw [List.length_replicate]; omega), List.nil_append]
    congr 1
  · rw [Nat.min_eq_left (by omega), List.drop_append, List.length_replicate,
      List.drop_of_length_le (by rw [List.length_replicate]; omega), List.nil_append]
    congr 1
    omega

theorem lastFailed_eq (s : Scan) : (min s.seen 3 ≠ 0 && s.window.2.2) =
    s.flags.getLast?.getD false := by
  unfold Scan.flags
  have hcases : min s.seen 3 = 0 ∨ min s.seen 3 = 1 ∨ min s.seen 3 = 2 ∨ min s.seen 3 = 3 := by omega
  rcases hcases with hw | hw | hw | hw <;> rw [hw] <;> rfl

theorem callsOf_valid (msgs : List Value) : ∀ u, some u ∈ callsOf msgs → Valid u := by
  intro u hu
  unfold callsOf at hu
  obtain ⟨m, -, hm⟩ := List.mem_flatMap.mp hu
  obtain ⟨c, -, hc⟩ := List.mem_map.mp hm
  rw [nameOf_eq] at hc
  exact chars_valid hc

/-- The comparison of two names, of which any may be missing. -/
theorem sameName_iff {a b : Option Str} (ha : ∀ u, a = some u → Valid u)
    (hb : ∀ u, b = some u → Valid u) :
    (((a.map encodeCps).isNone && (b.map encodeCps).isNone) ||
      ((a.map encodeCps).isSome && (b.map encodeCps).isSome &&
        a.map encodeCps = b.map encodeCps)) = true ↔ a = b := by
  cases a with
  | none => cases b <;> simp
  | some u =>
      cases b with
      | none => simp
      | some v =>
          simp only [Option.map_some, Option.isNone_some, Option.isSome_some, Bool.and_self,
            Bool.false_or, Bool.true_and, decide_eq_true_eq, Option.some_inj]
          exact ⟨encodeCps_inj (ha u rfl) (hb v rfl), fun h => h ▸ rfl⟩

theorem Seen.repeats (h : Seen msgs s) : s.repeats =
    (2 ≤ (callsOf msgs).length && (callsOf msgs).getLast? = (callsOf msgs).dropLast.getLast?) := by
  have hcalls := h.calls
  have hvalid := callsOf_valid msgs
  unfold Scan.repeats
  rw [hcalls.number, hcalls.last, hcalls.prev]
  generalize callsOf msgs = calls at hvalid
  rw [Bool.eq_iff_iff, Bool.and_eq_true, Bool.and_eq_true]
  apply and_congr_right
  intro htwo
  have hlength := of_decide_eq_true htwo
  have hne : calls ≠ [] := List.ne_nil_of_length_pos (by omega)
  have hne' : calls.dropLast ≠ [] :=
    List.ne_nil_of_length_pos (by rw [List.length_dropLast]; omega)
  have hlast := List.getLast?_eq_some_getLast hne
  have hprev := List.getLast?_eq_some_getLast hne'
  rw [hlast, hprev, decide_eq_true_iff, Option.some_inj]
  refine sameName_iff (fun u hu => hvalid u ?_) fun u hu => hvalid u ?_
  · rw [← hu]
    exact List.getLast_mem hne
  · rw [← hu]
    exact List.mem_of_mem_dropLast (List.getLast_mem hne')

theorem Seen.lastCall (h : Seen msgs s) {t : String} (ht : isName (str t))
    (hnone : str t ≠ str "none") : s.lastCall (text t) =
    ((callsOf msgs).getLast?.getD (some (str "none")) = some (str t) : Bool) := by
  have hcalls := h.calls
  have hvalid := callsOf_valid msgs
  unfold Scan.lastCall
  rw [hcalls.number, hcalls.last, Bool.eq_iff_iff, Bool.and_eq_true, decide_eq_true_iff,
    decide_eq_true_iff, decide_eq_true_iff]
  generalize callsOf msgs = calls at hvalid
  by_cases hempty : calls = []
  · rw [hempty]
    exact iff_of_false (fun h => h.1 rfl) fun h => hnone (Option.some_inj.mp h).symm
  · rw [List.getLast?_eq_some_getLast hempty, Option.getD_some]
    have hmem := List.getLast_mem hempty
    refine (and_iff_right (mt List.length_eq_zero_iff.mp hempty)).trans ?_
    cases hname : calls.getLast hempty with
    | none => exact iff_of_false nofun nofun
    | some u =>
        rw [hname] at hmem
        show some (encodeCps u) = some (text t) ↔ _
        rw [Option.some_inj, Option.some_inj]
        exact text_eq_iff ht (hvalid u hmem)

theorem userLen_json (v : Value) : userLen (some v.json) = v.len := by
  cases v with
  | str s => exact codePoints_eq s.2
  | list vs =>
      show (jsonList vs).length = vs.length
      rw [jsonList_eq, List.length_map]
  | none | bool | int | float | dict => rfl

theorem Seen.userLen (h : Seen msgs s) : userLen s.firstUser = (firstContent "user" msgs).len := by
  rw [h.firsts.firstUser]
  unfold firstContent
  show Efficiency.userLen ((firstOf "user" msgs).bind _) = _
  unfold firstOf
  cases (msgs.filter (roleIs "user")).head? with
  | none => rfl
  | some m =>
      rw [Option.bind_some]
      rcases get_json m (t := "content") (by decide) with ⟨hnone, hget⟩ | hsome
      · rw [hnone]
        dsimp only
        rw [hget]
        rfl
      · rw [hsome]
        exact userLen_json _

/-- The text of the first system message. -/
def systemOf (msgs : List Value) : Str :=
  match firstContent "system" msgs with
  | .str s => s.1
  | _ => []

theorem systemOf_eq (msgs : List Value) :
    systemOf msgs = ((firstOf "system" msgs).map contentOf).getD [] := by
  unfold systemOf firstContent firstOf
  cases (msgs.filter (roleIs "system")).head? <;> rfl

theorem Seen.subagent (h : Seen msgs s) {lower : Str → Str} (hlower : PythonLower lower) :
    s.subagent = (isIn "subagent" (lower (systemOf msgs)) ||
      ((firstContent "user" msgs).len < 600 && isIn "delegat" (lower (systemOf msgs)))) := by
  unfold Scan.subagent
  rw [h.userLen, h.firsts.system, systemOf_eq]
  cases firstOf "system" msgs with
  | none =>
      have hempty : lower [] = [] := by
        obtain ⟨parts, hparts, hblocks⟩ := hlower []
        cases hblocks
        exact hparts
      have hnot : isIn "subagent" [] = false ∧ isIn "delegat" [] = false := by decide
      rw [Option.map_none, Option.map_none, Option.getD_none, hempty, hnot.1, hnot.2, Bool.and_false]
      rfl
  | some m =>
      have hvalid := contentOf_valid m
      rw [Option.map_some, Option.map_some, Option.getD_some]
      dsimp only
      rw [nocase_eq hlower hvalid "subagent" (by decide), nocase_eq hlower hvalid "delegat" (by decide)]

theorem Seen.lastLen (h : Seen msgs s) :
    (s.last.map codePoints).getD 0 = ((resultsOf msgs).getLast?.getD []).length := by
  rw [h.results.last]
  cases hlast : (resultsOf msgs).getLast? with
  | none => rfl
  | some r =>
      obtain ⟨m, -, rfl⟩ := List.mem_map.mp (List.mem_of_getLast? hlast)
      exact codePoints_eq (contentOf_valid m)

end

/-- The vector of the router is the training side's, feature for feature. -/
theorem features_trained (log1p : Nat → Rat) {lower : Str → Str} (hlower : PythonLower lower)
    {req : Value} (h : Shaped req) :
    features log1p req.json = some ((trainedFeatures log1p lower req).map Prod.snd) ∧
      (trainedFeatures log1p lower req).map Prod.fst = keys ∧ keys.map encodeCps = names := by
  refine ⟨?_, rfl, by decide⟩
  obtain ⟨msgs, hget, -⟩ := h
  have hmessages : req.json.get? (text "messages") = some (.array (msgs.map Value.json)) := by
    rcases get_json req (t := "messages") (by decide) with ⟨-, hnone⟩ | hsome
    · rw [hnone] at hget
      cases hget
    · rw [hsome, hget]
      exact congrArg (fun js => some (Json.array js)) (jsonList_eq msgs)
  have hseen := scan_seen msgs
  have htools : ∀ s : Scan, (names.drop 10).map (fun name => indicator (s.lastCall (name.drop 10))) =
      (["terminal", "read_file", "write_file", "patch", "search_files", "execute_code",
        "delegate_task"] : List String).map fun t => indicator (s.lastCall (text t)) := fun s => rfl
  have hcall : ∀ t ∈ (["terminal", "read_file", "write_file", "patch", "search_files",
      "execute_code", "delegate_task"] : List String), isName (str t) ∧ str t ≠ str "none" := by
    decide
  have hcap : ∀ n : Nat, (if n < 3 then n else 3) = min n 3 := by
    intro n
    split <;> omega
  unfold features trainedFeatures
  rw [hmessages, hget]
  dsimp only
  rw [htools, lastFailed_eq, hseen.flags, hseen.results.run, hseen.results.tools, hseen.lastLen,
    hseen.subagent hlower, hseen.repeats, get_truth req (by decide), List.length_map,
    List.map_congr_left fun t ht => congrArg indicator
      (hseen.lastCall (hcall t ht).1 (hcall t ht).2), hcap, List.map_append, List.map_map]
  rfl

/-- Small letters of ASCII, other characters as they are. -/
def asciiLower (s : Str) : Str := s.map fun c => if c < 128 then (tolower c.toUInt8).toNat else c

theorem asciiLower_lower : PythonLower asciiLower := by
  intro s
  refine ⟨s.map fun c => [if c < 128 then (tolower c.toUInt8).toNat else c], ?_, ?_⟩
  · unfold asciiLower
    rw [← List.flatMap_def, List.map_eq_flatMap]
  · rw [List.forall₂_map_right_iff, List.forall₂_same]
    intro c _
    by_cases h : c < 128
    · rw [if_pos h, if_pos h]
    · rw [if_neg h, if_neg h, List.forall_mem_singleton]
      exact ⟨List.cons_ne_nil _ _, .inl (Nat.not_lt.mp h)⟩

/-- A string of ASCII characters. -/
def quoted (s : String) (h : isName (str s)) : Value := .str ⟨str s, h.valid⟩

/-- A string of any characters but NUL. -/
def wide (s : String) (h : ∀ c ∈ str s, 0 < c ∧ c < 0x110000) : Value := .str ⟨str s, h⟩

def member (s : String) (v : Value) (h : isName (str s)) : Chars × Value := (⟨str s, h.valid⟩, v)

/-- A helper's request after a patch that failed. -/
def patchRequest : Value := .dict [
  member "messages" (.list [
    .dict [member "role" (quoted "system" (by decide)) (by decide),
      member "content" (wide "日本 SubAgent" (by decide)) (by decide)],
    .dict [member "role" (quoted "assistant" (by decide)) (by decide),
      member "tool_calls" (.list [.dict [member "function"
        (.dict [member "name" (quoted "patch" (by decide)) (by decide)]) (by decide)]]) (by decide)],
    .dict [member "role" (quoted "tool" (by decide)) (by decide),
      member "content" (wide "✗ FAILED" (by decide)) (by decide)]]) (by decide),
  member "tools" (.list []) (by decide)]

theorem patchRequest_shaped : Shaped patchRequest := by
  refine ⟨_, rfl, ?_⟩
  simp only [List.forall_mem_cons]
  refine ⟨⟨⟨_, rfl⟩, fun _ => .inr ⟨_, rfl⟩, fun h => absurd h (by decide), .inl rfl⟩,
    ⟨⟨_, rfl⟩, fun h => absurd h (by decide), fun h => absurd h (by decide), .inr ⟨_, rfl, ?_⟩⟩,
    ⟨⟨_, rfl⟩, fun h => absurd h (by decide), fun h => absurd h (by decide), .inl rfl⟩,
    List.forall_mem_nil _⟩
  rw [List.forall_mem_singleton]
  exact ⟨⟨_, rfl⟩, .inr ⟨_, rfl⟩⟩

theorem features_trained_patch : features (fun n => n) patchRequest.json =
    some [1, 1, 1, 1, 3, 1, 8, 1, 0, 1, 0, 0, 0, 1, 0, 0, 0] :=
  (features_trained (fun n => n) asciiLower_lower patchRequest_shaped).1.trans
    (congrArg some (by decide +kernel))

end Recursant.Efficiency
