import Recursant.Compliance.Complete
import Recursant.Lib.JsonString

/-!
# Escaped text

The second pass of agent mode decodes the escapes of a text that is no JSON and matches the rules
again.  A string literal anywhere in the text comes out of the pass with its value in one piece, as
long as its opening quote is not the second half of an escape.
-/

namespace Recursant.Compliance

open JsonString (encode hexDigit hexNumber shortEscape Spelling Spells Literal)

/-! ## The reading -/

/-- After `before`, read from the left, a backslash waits for the byte it escapes. -/
def pending : Bool → Text → Bool
  | waiting, [] => waiting
  | waiting, c :: t => pending (!waiting && c == 92) t

theorem unescape_cons {c : Byte} (h : c ≠ 92) (t : Text) : unescape (c :: t) = c :: unescape t := by
  cases t with
  | nil => rw [unescape, unescape]
  | cons e rest =>
      rw [unescape.eq_def]
      simp only [h, ne_eq, not_false_eq_true, if_true]

theorem unescape_append {bs : Text} (h : (92 : Byte) ∉ bs) (t : Text) :
    unescape (bs ++ t) = bs ++ unescape t := by
  induction bs with
  | nil => rfl
  | cons b bs ih =>
      rw [List.mem_cons, not_or] at h
      rw [List.cons_append, unescape_cons (Ne.symm h.1), ih h.2, List.cons_append]

/-- The six bytes of a code point. -/
theorem unescape_point {h₁ h₂ h₃ h₄ : Byte} {cp : Nat} (h : codePoint h₁ h₂ h₃ h₄ = some cp)
    (t : Text) :
    unescape (92 :: 117 :: h₁ :: h₂ :: h₃ :: h₄ :: t) = encodePoint cp ++ unescape t := by
  rw [unescape]
  simp [h]

/-- Any other escape. -/
theorem unescape_escape {e : Byte} {t : Text}
    (h : ∀ h₁ h₂ h₃ h₄ tail, t = h₁ :: h₂ :: h₃ :: h₄ :: tail → e = 117 →
      codePoint h₁ h₂ h₃ h₄ = none) : unescape (92 :: e :: t) = escaped e :: unescape t := by
  rw [unescape.eq_def]
  simp only [ne_eq, not_true_eq_false, if_false]
  split
  next h₁ h₂ h₃ h₄ tail =>
    have hnone : (if e = 117 then codePoint h₁ h₂ h₃ h₄ else none) = none := by
      split
      next heq => exact h h₁ h₂ h₃ h₄ tail rfl heq
      next => rfl
    rw [hnone]
  next => rfl

theorem codePoint_mem {h₁ h₂ h₃ h₄ : Byte} {cp : Nat} (h : codePoint h₁ h₂ h₃ h₄ = some cp) :
    ∀ c ∈ [h₁, h₂, h₃, h₄], (hex c).isSome = true := by
  unfold codePoint at h
  simp only [Option.bind_eq_bind, Option.bind_eq_some_iff] at h
  obtain ⟨w, hw, x, hx, y, hy, z, hz, -⟩ := h
  simp [hw, hx, hy, hz]

/-- What is before an unescaped quote is decoded by itself: the quote is no hexadecimal digit, so
no escape reaches over it. -/
theorem unescape_before (before t : Text) (h : pending false before = false) :
    ∃ out, unescape (before ++ 34 :: t) = out ++ unescape (34 :: t) := by
  induction hn : before.length using Nat.strong_induction_on generalizing before with
  | _ n ih =>
      cases before with
      | nil => exact ⟨[], rfl⟩
      | cons c before =>
          by_cases hc : c = 92
          · subst hc
            cases before with
            | nil => cases h
            | cons e before =>
                have hrest : pending false before = false := h
                have hlength : before.length < n := by
                  rw [← hn, List.length_cons, List.length_cons]
                  omega
                by_cases hpoint : ∃ h₁ h₂ h₃ h₄ tail cp, before = h₁ :: h₂ :: h₃ :: h₄ :: tail ∧
                    e = 117 ∧ codePoint h₁ h₂ h₃ h₄ = some cp
                · obtain ⟨h₁, h₂, h₃, h₄, tail, cp, rfl, rfl, hcode⟩ := hpoint
                  have hdigits := codePoint_mem hcode
                  have hno : ∀ c ∈ [h₁, h₂, h₃, h₄], c ≠ 92 := by
                    rintro c hc rfl
                    have hdigit := hdigits 92 hc
                    revert hdigit
                    decide
                  have htail : pending false tail = false := by
                    simpa [pending, beq_false_of_ne (hno h₁ (by simp)),
                      beq_false_of_ne (hno h₂ (by simp)), beq_false_of_ne (hno h₃ (by simp)),
                      beq_false_of_ne (hno h₄ (by simp))] using hrest
                  obtain ⟨out, hout⟩ := ih tail.length (by
                    simp only [List.length_cons] at hlength
                    omega) tail htail rfl
                  refine ⟨encodePoint cp ++ out, ?_⟩
                  simp only [List.cons_append]
                  rw [unescape_point hcode, hout, List.append_assoc]
                · obtain ⟨out, hout⟩ := ih before.length hlength before hrest rfl
                  refine ⟨escaped e :: out, ?_⟩
                  rw [List.cons_append, List.cons_append, unescape_escape, hout, List.cons_append]
                  intro h₁ h₂ h₃ h₄ tail heq he
                  cases hcode : codePoint h₁ h₂ h₃ h₄ with
                  | none => rfl
                  | some cp =>
                      exfalso
                      have hdigits := codePoint_mem hcode
                      have hquote : ∀ c ∈ [h₁, h₂, h₃, h₄], c ≠ 34 := by
                        rintro c hc rfl
                        have hdigit := hdigits 34 hc
                        revert hdigit
                        decide
                      -- the four digits would have to be among the bytes before the quote
                      match before, heq with
                      | [], heq =>
                          exact hquote h₁ (by simp) (List.cons.inj heq).1.symm
                      | [_], heq =>
                          exact hquote h₂ (by simp) (List.cons.inj (List.cons.inj heq).2).1.symm
                      | [_, _], heq =>
                          exact hquote h₃ (by simp)
                            (List.cons.inj (List.cons.inj (List.cons.inj heq).2).2).1.symm
                      | [_, _, _], heq =>
                          exact hquote h₄ (by simp) (List.cons.inj (List.cons.inj
                            (List.cons.inj (List.cons.inj heq).2).2).2).1.symm
                      | b₁ :: b₂ :: b₃ :: b₄ :: more, heq =>
                          simp only [List.cons_append, List.cons.injEq] at heq
                          obtain ⟨rfl, rfl, rfl, rfl, -⟩ := heq
                          exact hpoint ⟨_, _, _, _, more, cp, rfl, he, hcode⟩
          · have hrest : pending false before = false := by
              simpa [pending, beq_false_of_ne hc] using h
            obtain ⟨out, hout⟩ := ih before.length (by rw [← hn, List.length_cons]; omega) before
              hrest rfl
            refine ⟨c :: out, ?_⟩
            rw [List.cons_append, unescape_cons hc, hout, List.cons_append]

/-! ## One character -/

theorem hex_eq (c : Byte) : hex c = hexDigit c := rfl

theorem codePoint_eq {a b c d : Byte} {n : Nat} (h : hexNumber a b c d = some n) :
    codePoint a b c d = some n := by
  obtain ⟨w, x, y, z, hw, hx, hy, hz, rfl⟩ := JsonString.hexNumber_eq_some h
  have hxlt := JsonString.hexDigit_lt hx
  have hylt := JsonString.hexDigit_lt hy
  have hzlt := JsonString.hexDigit_lt hz
  unfold codePoint
  rw [hex_eq, hex_eq, hex_eq, hex_eq, hw, hx, hy, hz]
  show some (w <<< 12 ||| x <<< 8 ||| y <<< 4 ||| z) = _
  congr 1
  -- the digits do not overlap, so each `or` adds
  have hfirst : w <<< 12 ||| x <<< 8 = w * 4096 + x * 256 := by
    rw [Nat.shiftLeft_eq, Nat.shiftLeft_eq, Nat.mul_comm w,
      ← Nat.two_pow_add_eq_or_of_lt (by omega)]
  have hsecond : (w * 4096 + x * 256) ||| y <<< 4 = w * 4096 + x * 256 + y * 16 := by
    have hshape : w * 4096 + x * 256 = 2 ^ 8 * (w * 16 + x) := by omega
    rw [hshape, Nat.shiftLeft_eq, ← Nat.two_pow_add_eq_or_of_lt (by omega)]
  have hthird : (w * 4096 + x * 256 + y * 16) ||| z = w * 4096 + x * 256 + y * 16 + z := by
    have hshape : w * 4096 + x * 256 + y * 16 = 2 ^ 4 * (w * 256 + x * 16 + y) := by omega
    rw [hshape, ← Nat.two_pow_add_eq_or_of_lt (by omega)]
  rw [hfirst, hsecond, hthird]
  omega

/-- Outside of NUL and the surrogates the code point is encoded as the character. -/
theorem encodePoint_eq {c : Char} (hnul : c.toNat ≠ 0) (hlt : c.toNat < 0x10000) :
    encodePoint c.toNat = String.utf8EncodeChar c := by
  have hvalid := c.valid
  simp only [UInt32.isValidChar, Nat.isValidChar] at hvalid
  have hscalar : ¬(0xD800 ≤ c.toNat ∧ c.toNat ≤ 0xDFFF) := by
    unfold Char.toNat
    omega
  rw [JsonString.utf8EncodeChar_eq, encodePoint]
  generalize c.toNat = n at hnul hlt hscalar
  rw [if_neg (by simpa [hnul] using hscalar)]
  have hlow : n &&& 0x3F = n % 64 := Nat.and_two_pow_sub_one_eq_mod n 6
  have hmid : (n >>> 6) &&& 0x3F = n / 64 % 64 := by
    rw [Nat.shiftRight_eq_div_pow]
    exact Nat.and_two_pow_sub_one_eq_mod (n / 64) 6
  have htail : ∀ x, x < 64 → 0x80 ||| x = x + 0x80 := by
    intro x hx
    have hadd : 0x80 + x = 0x80 ||| x := Nat.two_pow_add_eq_or_of_lt (i := 6) hx 2
    rw [← hadd, Nat.add_comm]
  by_cases h₁ : n < 0x80
  · rw [if_pos h₁, if_pos h₁]
  rw [if_neg h₁, if_neg h₁]
  by_cases h₂ : n < 0x800
  · have hhead : 0xC0 ||| n >>> 6 = n / 64 + 0xC0 := by
      have hadd : 0xC0 + n / 64 = 0xC0 ||| n / 64 :=
        Nat.two_pow_add_eq_or_of_lt (i := 6) (by omega) 3
      have hshift : n >>> 6 = n / 64 := Nat.shiftRight_eq_div_pow n 6
      rw [hshift, ← hadd, Nat.add_comm]
    rw [if_pos h₂, if_pos h₂, hlow, hhead, htail _ (Nat.mod_lt _ (by omega))]
  · have hhead : 0xE0 ||| n >>> 12 = n / 4096 + 0xE0 := by
      have hadd : 0xE0 + n / 4096 = 0xE0 ||| n / 4096 :=
        Nat.two_pow_add_eq_or_of_lt (i := 4) (by omega) 14
      have hshift : n >>> 12 = n / 4096 := Nat.shiftRight_eq_div_pow n 12
      rw [hshift, ← hadd, Nat.add_comm]
    rw [if_neg h₂, if_neg h₂, if_pos hlt, hlow, hmid, hhead, htail _ (Nat.mod_lt _ (by omega)),
      htail _ (Nat.mod_lt _ (by omega))]

/-- No control character, no NUL, and nothing that would need a surrogate pair. -/
def Plain (c : Char) : Prop := 0x20 ≤ c.toNat ∧ c.toNat < 0x10000

/-- However a plain character is written, the pass gives its encoding. -/
theorem unescape_spelling {c : Char} {s : Text} (h : Spelling c s) (hc : Plain c) (t : Text) :
    unescape (s ++ t) = String.utf8EncodeChar c ++ unescape t := by
  cases h with
  | raw _ hbackslash _ =>
      apply unescape_append
      intro hmem
      have hnat := JsonString.eq_of_mem_utf8EncodeChar (by decide) hmem
      exact hbackslash (Char.toNat_inj.mp hnat)
  | @short e hshort =>
      have hvalue : e ≠ 117 ∧ [escaped e] = String.utf8EncodeChar c := by
        unfold shortEscape at hshort
        have hcontrol := hc.1
        split at hshort
        next he => rw [he, ← Option.some.inj hshort]; decide
        split at hshort
        next he => rw [he, ← Option.some.inj hshort]; decide
        split at hshort
        next he => rw [he, ← Option.some.inj hshort]; decide
        split at hshort
        next => rw [← Option.some.inj hshort] at hcontrol; exact absurd hcontrol (by decide)
        split at hshort
        next => rw [← Option.some.inj hshort] at hcontrol; exact absurd hcontrol (by decide)
        split at hshort
        next => rw [← Option.some.inj hshort] at hcontrol; exact absurd hcontrol (by decide)
        split at hshort
        next => rw [← Option.some.inj hshort] at hcontrol; exact absurd hcontrol (by decide)
        split at hshort
        next => rw [← Option.some.inj hshort] at hcontrol; exact absurd hcontrol (by decide)
        next => cases hshort
      show unescape (92 :: e :: t) = _
      rw [unescape_escape (fun _ _ _ _ _ _ he => absurd he hvalue.1), ← hvalue.2]
      rfl
  | point hnumber =>
      have hcode := codePoint_eq hnumber
      have hnul : c.toNat ≠ 0 := by
        have hcontrol := hc.1
        omega
      show unescape (92 :: 117 :: _ :: _ :: _ :: _ :: t) = _
      rw [unescape_point hcode, encodePoint_eq hnul hc.2]
  | pair _ _ hhigh _ _ _ hvalue =>
      have hlt := hc.2
      omega

theorem unescape_spells {v : List Char} {body : Text} (h : Spells v body) (hv : ∀ c ∈ v, Plain c)
    (t : Text) : unescape (body ++ t) = encode v ++ unescape t := by
  induction h with
  | nil => rfl
  | cons hspelling _ ih =>
      rw [List.forall_mem_cons] at hv
      rw [List.append_assoc, unescape_spelling hspelling hv.1, ih hv.2, JsonString.encode_cons,
        List.append_assoc]

/-- A literal whose opening quote is not escaped has its value in the output. -/
theorem unescape_literal {v : List Char} {literal before : Text} (h : Literal v literal)
    (hv : ∀ c ∈ v, Plain c) (hbefore : pending false before = false) (after : Text) :
    encode v <:+: unescape (before ++ literal ++ after) := by
  obtain ⟨body, hbody, rfl⟩ := h
  obtain ⟨out, hout⟩ := unescape_before before (body ++ [34] ++ after) hbefore
  have hshape : before ++ (34 :: body ++ [34]) ++ after =
      before ++ 34 :: (body ++ [34] ++ after) := by simp
  rw [hshape, hout, unescape_cons (by decide), List.append_assoc, unescape_spells hbody hv]
  exact ⟨out ++ [34], unescape ([34] ++ after), by simp⟩

/-- The output never grows. -/
theorem length_unescape (t : Text) : (unescape t).length ≤ t.length := by
  have hpoint : ∀ cp, (encodePoint cp).length ≤ 3 := by
    intro cp
    unfold encodePoint
    split
    next => simp
    split
    next => simp
    split <;> simp
  fun_induction unescape t with
  | case1 => exact Nat.le_refl _
  | case2 c => exact Nat.le_refl _
  | case3 c e rest hc ih =>
      rw [List.length_cons, List.length_cons]
      omega
  | case4 c e hc h₁ h₂ h₃ h₄ tail cp hcode ih =>
      have hle := hpoint cp
      rw [List.length_append]
      simp only [List.length_cons]
      omega
  | case5 c e hc h₁ h₂ h₃ h₄ tail hcode ih =>
      simp only [List.length_cons] at ih ⊢
      omega
  | case6 c e rest hc hshort ih =>
      rw [List.length_cons, List.length_cons, List.length_cons]
      omega

theorem unescape_of_no_backslash {t : Text} (h : t.contains 92 = false) : unescape t = t := by
  have hmem : (92 : Byte) ∉ t := by
    intro hin
    rw [List.contains_iff_mem.mpr hin] at h
    cases h
  have hall := unescape_append hmem []
  rwa [List.append_nil, unescape, List.append_nil] at hall

/-! ## The verdict on a text -/

/-- The byte budget has room for `n` more. -/
def roomFor (n : Nat) : Scan := fun s =>
  if n > maxScanBytes - s.bytes then .error .unknown s else .ok () s

def spend (n : Nat) : Scan := fun s => .ok () { s with bytes := s.bytes + n }

variable (r : Runtime) (p : Policy)

/-- `escaped_rules`, where `allocated` is whether there is memory for the output. -/
def escapedRulesIn (allocated : Bool) (t : Text) : Scan := do
  if t.contains 92 then
    roomFor t.length
    require allocated .unknown
    spend t.length
    rules p (unescape t)
  else pure ()

/-- What `text_scan` does before it looks for JSON. -/
def firstPass (t : Text) : Scan := do
  require (!t.contains 0) .unknown
  takeBytes t.length
  rules p t
  require (if r.agentText then !base64DataUri t else !remoteMedia t) .unknown

/-- `text_scan`, where `allocated` is whether there is memory for a second pass. -/
def textScanIn (allocated : Bool) (nested : Json → Scan) (t : Text) : Scan := do
  firstPass r p t
  if looksLikeJson t then
    match r.jansson.loadb t with
    | none => if r.agentText then escapedRulesIn p allocated t else throw .unknown
    | some v => nested v
  else if r.agentText then escapedRulesIn p allocated t
  else pure ()

/-- With memory it is the scan of the other parts of the development. -/
theorem textScanIn_true (nested : Json → Scan) (t : Text) :
    textScanIn r p true nested t = textScan r p nested t := by
  have htake : ∀ n (rest : Scan), (roomFor n >>= fun _ => (require true .unknown >>= fun _ =>
      spend n >>= fun _ => rest)) = takeBytes n >>= fun _ => rest := by
    intro n rest
    funext s
    show EStateM.bind (roomFor n) _ s = EStateM.bind (takeBytes n) _ s
    unfold EStateM.bind roomFor takeBytes
    by_cases hover : n > maxScanBytes - s.bytes
    · simp only [hover, if_true]
    · simp only [hover, if_false]
      rfl
  have hescaped : escapedRulesIn p true t = escapedRules p t := by
    unfold escapedRulesIn escapedRules
    rw [htake]
  have hassoc : ∀ (a b c d : Scan) (rest : Unit → Scan),
      ((a >>= fun _ => b >>= fun _ => c >>= fun _ => d) >>= rest) =
        a >>= fun _ => b >>= fun _ => c >>= fun _ => d >>= rest := by
    intro a b c d rest
    simp only [bind_assoc]
  unfold textScanIn textScan firstPass
  rw [hescaped]
  exact hassoc _ _ _ _ _

theorem matchRule_ok {t : Text} {rule : Text → RuleResult} {s s' : Counters}
    (h : (matchRule t rule).run s = .ok () s') : rule t = .noMatch := by
  unfold matchRule at h
  obtain ⟨u, -, hrest⟩ := Metered.seq_eq_ok.mp h
  obtain ⟨u', hfound, herror⟩ := Metered.seq_eq_ok.mp hrest
  cases hresult : rule t with
  | noMatch => rfl
  | found =>
      rw [hresult] at hfound
      cases hfound
  | error =>
      rw [hresult] at herror
      cases herror

/-- Rules that let a text pass do not match it. -/
theorem rules_ok {t : Text} {s s' : Counters} (h : (rules p t).run s = .ok () s') :
    ∀ rule ∈ p.rules, rule t = .noMatch := by
  unfold rules at h
  obtain ⟨u, hrules, -⟩ := Metered.seq_eq_ok.mp h
  clear h
  generalize p.rules = list at hrules ⊢
  induction list generalizing s with
  | nil => exact nofun
  | cons rule list ih =>
      obtain ⟨w, hfirst, hrest⟩ := Metered.seq_eq_ok.mp hrules
      rw [List.forall_mem_cons]
      exact ⟨matchRule_ok hfirst, ih hrest⟩

variable {r p}

/-- A text that agent mode does not read as JSON gets the second pass. -/
theorem textScanIn_plain {t : Text} (hagent : r.agentText = true)
    (hplain : looksLikeJson t = false ∨ r.jansson.loadb t = none) (allocated : Bool)
    (nested : Json → Scan) : textScanIn r p allocated nested t =
      firstPass r p t >>= fun _ => escapedRulesIn p allocated t := by
  unfold textScanIn
  cases hjson : looksLikeJson t with
  | false => simp [hagent]
  | true =>
      have hnone := hplain.resolve_left (by simp [hjson])
      simp [hagent, hnone]

/-- No verdict `CLEAN` without the rules on the decoded text. -/
theorem textScanIn_ok {t : Text} (hagent : r.agentText = true)
    (hplain : looksLikeJson t = false ∨ r.jansson.loadb t = none) {allocated : Bool}
    {nested : Json → Scan} {s s' : Counters}
    (h : (textScanIn r p allocated nested t).run s = .ok () s') :
    ∃ u u', (rules p (unescape t)).run u = .ok () u' := by
  rw [textScanIn_plain hagent hplain] at h
  obtain ⟨u, hfirst, hsecond⟩ := Metered.seq_eq_ok.mp h
  unfold escapedRulesIn at hsecond
  split at hsecond
  next =>
    obtain ⟨u₁, -, h₁⟩ := Metered.seq_eq_ok.mp hsecond
    obtain ⟨u₂, -, h₂⟩ := Metered.seq_eq_ok.mp h₁
    obtain ⟨u₃, -, h₃⟩ := Metered.seq_eq_ok.mp h₂
    exact ⟨u₃, s', h₃⟩
  next hnone =>
    rw [unescape_of_no_backslash (by simpa using hnone)]
    unfold firstPass at hfirst
    obtain ⟨u₁, -, h₁⟩ := Metered.seq_eq_ok.mp hfirst
    obtain ⟨u₂, -, h₂⟩ := Metered.seq_eq_ok.mp h₁
    obtain ⟨u₃, h₃, -⟩ := Metered.seq_eq_ok.mp h₂
    exact ⟨u₂, u₃, h₃⟩

/-- Where the second pass cannot run, the verdict is `UNKNOWN`. -/
theorem textScanIn_unable {t : Text} (hagent : r.agentText = true)
    (hplain : looksLikeJson t = false ∨ r.jansson.loadb t = none) {allocated : Bool}
    {nested : Json → Scan} {s u : Counters} (hfirst : (firstPass r p t).run s = .ok () u)
    (hescape : t.contains 92 = true)
    (hunable : allocated = false ∨ t.length > maxScanBytes - u.bytes) :
    (textScanIn r p allocated nested t).run s = .error .unknown u := by
  rw [textScanIn_plain hagent hplain]
  have hpass : (escapedRulesIn p allocated t).run u = .error .unknown u := by
    unfold escapedRulesIn
    rw [if_pos hescape]
    show EStateM.bind (roomFor t.length) _ u = _
    unfold EStateM.bind roomFor
    by_cases hover : t.length > maxScanBytes - u.bytes
    · simp only [hover, if_true]
    · obtain rfl := hunable.resolve_right hover
      simp only [hover, if_false]
      rfl
  show EStateM.bind (firstPass r p t) _ s = _
  unfold EStateM.bind
  have hfirst' : firstPass r p t s = .ok () u := hfirst
  rw [hfirst']
  exact hpass

/-- In a body of verdict `CLEAN` the rules have passed the decoded text of every reachable text that
is no JSON. -/
theorem classify_clean_unescape (hagent : r.agentText = true) {t : Text}
    (hplain : looksLikeJson t = false ∨ r.jansson.loadb t = none) {body : Json}
    (hreach : Reachable r p looksLikeJson body t) {controls : Option Text}
    (hscan : r.contentScanning = true) (hclean : classify r p body controls = .clean) :
    ∀ rule ∈ p.rules, rule (unescape t) = .noMatch := by
  obtain ⟨hdemand, -⟩ := (classify_clean_iff r p hscan).mp hclean
  have hfinite : demand r p (maxDepth + 1) body ≠ ⊤ := by
    intro htop
    rw [htop] at hdemand
    exact WithTop.coe_ne_top (top_le_iff.mp hdemand)
  obtain ⟨d, hoccurs⟩ := hreach
  obtain ⟨left, -, hleft⟩ := hoccurs.demand_ne_top r p _ hfinite
  rw [demand] at hleft
  obtain ⟨hrules, -, hdecoded⟩ := textDemand_ne_top r p (demand_succ_ne_top hleft)
  have hescaped : escapedDemand p t ≠ ⊤ := by
    unfold decodedDemand at hdecoded
    cases hjson : looksLikeJson t with
    | false => simpa [hjson, hagent] using hdecoded
    | true =>
        have hnone := hplain.resolve_left (by simp [hjson])
        simpa [hjson, hagent, hnone] using hdecoded
  unfold escapedDemand at hescaped
  split at hescaped
  next => exact (rulesDemand_ne_top p (demand_succ_ne_top hescaped)).1
  next hnone =>
    rw [unescape_of_no_backslash (by simpa using hnone)]
    exact (rulesDemand_ne_top p hrules).1

/-- Escapes hide nothing.  A text that is no JSON and has a string literal in it, with its opening
quote in the reading of the decoder and no control, NUL or surrogate pair in its value, is matched
decoded, with the value in one piece, or the verdict is not `CLEAN`: `UNKNOWN` where the second pass
cannot run, and never `CLEAN` with a rule that looks for a part of the value. -/
theorem escapes_cannot_hide (hagent : r.agentText = true) {before literal after : Text}
    {v : List Char} (hliteral : Literal v literal) (hvalue : ∀ c ∈ v, Plain c)
    (hbefore : pending false before = false)
    (hplain : looksLikeJson (before ++ literal ++ after) = false ∨
      r.jansson.loadb (before ++ literal ++ after) = none) :
    let t := before ++ literal ++ after
    encode v <:+: unescape t ∧ (unescape t).length ≤ t.length ∧
    (∀ allocated nested s s', (textScanIn r p allocated nested t).run s = .ok () s' →
      ∃ u u', (rules p (unescape t)).run u = .ok () u') ∧
    (∀ allocated nested s u, (firstPass r p t).run s = .ok () u → t.contains 92 = true →
      (allocated = false ∨ t.length > maxScanBytes - u.bytes) →
      (textScanIn r p allocated nested t).run s = .error .unknown u) ∧
    ∀ rule ∈ p.rules, ∀ needle, needle <:+: encode v →
      (∀ hay, rule hay = if hasText needle hay then .found else .noMatch) →
      (∀ allocated nested s s', (textScanIn r p allocated nested t).run s ≠ .ok () s') ∧
      ∀ body controls, r.contentScanning = true → Reachable r p looksLikeJson body t →
        classify r p body controls ≠ .clean := by
  intro t
  have hinside := unescape_literal hliteral hvalue hbefore after
  refine ⟨hinside, length_unescape t, ?_, ?_, ?_⟩
  · exact fun allocated nested s s' h => textScanIn_ok hagent hplain h
  · exact fun allocated nested s u hfirst hescape hunable =>
      textScanIn_unable hagent hplain hfirst hescape hunable
  · intro rule hrule needle hneedle hsubstring
    have hfound : rule (unescape t) ≠ .noMatch := by
      rw [hsubstring, if_pos ((hasText_iff needle _).mpr (hneedle.trans hinside))]
      exact nofun
    constructor
    · intro allocated nested s s' h
      obtain ⟨u, u', hpassed⟩ := textScanIn_ok hagent hplain h
      exact hfound (rules_ok p hpassed rule hrule)
    · intro body controls hscan hreach hclean
      exact hfound (classify_clean_unescape hagent hplain hreach hscan hclean rule hrule)

def agentRuntime : Runtime := { sampleRuntime with agentText := true }

def keyPolicy : Policy :=
  ⟨[fun hay => if hasText "key" hay then .found else .noMatch], [], ⟨[], 4096, 32 * 1024 * 1024⟩⟩

/-- A line of a log with a key one letter of which is escaped. -/
theorem escapes_cannot_hide_sample :
    let t := text "log \"k\\u0065y\" end"
    (∀ allocated nested s s',
      (textScanIn agentRuntime keyPolicy allocated nested t).run s ≠ .ok () s') ∧
    ∀ body controls, Reachable agentRuntime keyPolicy looksLikeJson body t →
      classify agentRuntime keyPolicy body controls ≠ .clean := by
  have hspells : Spells ['k', 'e', 'y'] (text "k\\u0065y") := by
    have hk : Spelling 'k' (String.utf8EncodeChar 'k') := .raw (by decide) (by decide) (by decide)
    have he : Spelling 'e' [92, 117, 48, 48, 54, 53] := .point (by decide)
    have hy : Spelling 'y' (String.utf8EncodeChar 'y') := .raw (by decide) (by decide) (by decide)
    have hbytes : text "k\\u0065y" = String.utf8EncodeChar 'k' ++ ([92, 117, 48, 48, 54, 53] ++
        (String.utf8EncodeChar 'y' ++ [])) := by decide
    rw [hbytes]
    exact .cons hk (.cons he (.cons hy .nil))
  have hliteral : Literal ['k', 'e', 'y'] (text "\"k\\u0065y\"") :=
    ⟨_, hspells, by decide⟩
  have hvalue : ∀ c ∈ ['k', 'e', 'y'], Plain c := by
    intro c hc
    simp only [List.mem_cons, List.not_mem_nil, or_false] at hc
    obtain rfl | rfl | rfl := hc
    · exact ⟨by decide, by decide⟩
    · exact ⟨by decide, by decide⟩
    · exact ⟨by decide, by decide⟩
  have hbefore : pending false (text "log ") = false := by decide
  have hplain : looksLikeJson (text "log " ++ text "\"k\\u0065y\"" ++ text " end") = false := by
    decide
  have htext : text "log \"k\\u0065y\" end" =
      text "log " ++ text "\"k\\u0065y\"" ++ text " end" := by decide
  have hhidden := (escapes_cannot_hide (r := agentRuntime) (p := keyPolicy) rfl hliteral hvalue
    hbefore (.inl hplain)).2.2.2.2
  intro t
  rw [show t = _ from htext]
  obtain ⟨hscan, hbody⟩ := hhidden _ (List.mem_singleton_self _) (text "key")
    ⟨[], [], by decide⟩ (fun _ => rfl)
  exact ⟨hscan, fun body controls hreach => hbody body controls rfl hreach⟩

end Recursant.Compliance
