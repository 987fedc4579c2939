import Recursant.Gateway.Settings

/-!
# Reading a configuration document

The field checks of `runtime.c`.  A check that fails gives the reason that the operator is shown.
What the loader finds outside the document, the environment, the linked URL parser and the network
interfaces, is a parameter.
-/

namespace Recursant.Startup

/-! ## Surroundings -/

/-- A URL as `curl_url` takes it apart; `user` says that it names one. -/
structure Url where
  scheme : Text
  host : Text
  user : Bool

structure Surroundings where
  getenv : Text → Option Text
  /-- `curl_url_set` with the scheme and the host, if all three calls go well. -/
  curl : Text → Option Url
  /-- `inet_pton(AF_INET, …) == 1` -/
  ipv4 : Text → Bool
  /-- `rc_tailnet_ipv4` -/
  tailnet : Option Text
  efficiency : Json → Option Gateway.Efficiency
  prompt : Json → Option Gateway.Prompt
  /-- `rc_runtime_secrets_optional` -/
  secretsOptional : Bool
  test : Bool
  /-- A dispatch gate is registered. -/
  gate : Bool
  /-- The build has the judge. -/
  judge : Bool

/-! ## Checks -/

abbrev Checked := Except Text

def fail {α : Type} (reason : Text) : Checked α := .error reason

/-- The value, or the reason why it is missing. -/
def need {α : Type} (found : Option α) (reason : Text) : Checked α :=
  match found with
  | some a => .ok a
  | none => fail reason

def demand (p : Bool) (reason : Text) : Checked Unit := if p then .ok () else fail reason

theorem bind_eq_ok {α β : Type} {x : Checked α} {f : α → Checked β} {b : β} :
    (x >>= f) = .ok b ↔ ∃ a, x = .ok a ∧ f a = .ok b := by
  cases x with
  | error e =>
      constructor
      · intro h
        cases h
      · rintro ⟨a, ha, -⟩
        cases ha
  | ok a =>
      constructor
      · intro h
        exact ⟨a, rfl, h⟩
      · rintro ⟨a', ha, hf⟩
        cases ha
        exact hf

theorem demand_eq_ok {p : Bool} {reason : Text} {u : Unit} :
    demand p reason = .ok u ↔ p = true := by
  unfold demand
  split
  · next h => exact ⟨fun _ => h, fun _ => rfl⟩
  · next h => exact ⟨fun hok => (nomatch hok), fun hp => absurd hp h⟩

theorem need_eq_ok {α : Type} {found : Option α} {reason : Text} {a : α} :
    need found reason = .ok a ↔ found = some a := by
  unfold need
  cases found with
  | none => exact ⟨fun h => (nomatch h), fun h => (nomatch h)⟩
  | some b => exact ⟨fun h => congrArg some (Except.ok.inj h), fun h => congrArg _ (Option.some.inj h)⟩

theorem forM_eq_ok {α : Type} {f : α → Checked Unit} {xs : List α} {u : Unit} :
    xs.forM f = .ok u ↔ ∀ x ∈ xs, f x = .ok () := by
  induction xs with
  | nil => exact ⟨fun _ x hx => (List.not_mem_nil hx).elim, fun _ => rfl⟩
  | cons x xs ih =>
      show (f x >>= fun _ => xs.forM f) = .ok u ↔ _
      rw [bind_eq_ok, List.forall_mem_cons]
      constructor
      · rintro ⟨v, hx, hxs⟩
        exact ⟨hx, ih.mp hxs⟩
      · rintro ⟨hx, hxs⟩
        exact ⟨(), hx, ih.mpr hxs⟩

/-! ## Sections -/

def decimal (n : Nat) : Text := text (toString n)

/-- The key is none of the allowed names; the fixed buffer holds keys of at most 125 bytes. -/
def unknownKey (allowed key : Text) : Bool :=
  key.contains 124 || 126 ≤ key.length || !hasText (Delimited.token 124 key) allowed

/-- `section`: the first unknown key is named. -/
def checkSection (o : Json) (allowed name : Text) : Checked Unit :=
  match o with
  | .object members =>
      match members.find? fun member => unknownKey allowed member.1 with
      | some (key, _) => fail (name ++ text ": unknown key \"" ++ key.take 48 ++ text "\"")
      | none => .ok ()
  | _ => fail (name ++ text " must be an object")

theorem checkSection_eq_ok {o : Json} {allowed name : Text} {u : Unit} :
    checkSection o allowed name = .ok u ↔
      ∃ members, o = .object members ∧ ∀ k ∈ members.map Prod.fst, unknownKey allowed k = false := by
  unfold checkSection
  constructor
  · intro h
    split at h
    · next members =>
        refine ⟨members, rfl, fun k hk => ?_⟩
        split at h
        · cases h
        · next hnone =>
            obtain ⟨member, hmember, rfl⟩ := List.mem_map.mp hk
            exact Bool.eq_false_iff.mpr (List.find?_eq_none.mp hnone member hmember)
    · cases h
  · rintro ⟨members, rfl, hall⟩
    have hnone : (members.find? fun member => unknownKey allowed member.1) = none :=
      List.find?_eq_none.mpr fun member hmember =>
        Bool.eq_false_iff.mp (hall member.1 (List.mem_map.mpr ⟨member, hmember, rfl⟩))
    dsimp only
    rw [hnone]

/-- `text`: a string that is not empty and holds no NUL. -/
def textAt (o : Json) (key : Text) : Option Text :=
  ((o.get? key).bind Json.text?).filter fun s => s ≠ [] && !s.contains 0

/-- `eq_text` -/
def eqText (o : Json) (key want : Text) : Bool := o.get? key = some (.string want)

def isalpha (c : Byte) : Bool := (65 ≤ c && c ≤ 90) || (97 ≤ c && c ≤ 122)

def isdigit (c : Byte) : Bool := 48 ≤ c && c ≤ 57

def variableOk : Text → Bool
  | [] => true
  | c :: cs => (isalpha c || c = 95) && cs.all fun d => isalpha d || d = 95 || isdigit d

variable (w : Surroundings)

/-- The value of a variable; a placeholder stands for an unset one where secrets are optional. -/
def secretValue (name : Text) : Checked Text :=
  match w.getenv name with
  | some (c :: cs) =>
      if (c :: cs).contains 13 || (c :: cs).contains 10 then
        fail (text "secret " ++ name.take 48 ++ text " contains a line break")
      else .ok (c :: cs)
  | _ =>
      if w.secretsOptional then .ok (text "unset:" ++ name)
      else fail (text "secret not set: " ++ name.take 48)

/-- `secret`: the variable that the section names, with its value. -/
def secret (o : Json) (key : Text) (required : Bool) : Checked (Option (Text × Text)) :=
  match textAt o key with
  | none => do
      demand (!required && (o.get? key).isNone) (key ++ text " must name an environment variable")
      return none
  | some name => do
      demand (variableOk name)
        (key ++ text ": \"" ++ name.take 40 ++ text "\" is not a valid variable name")
      let value ← secretValue w name
      return some (name, value)

/-- `url_ok` -/
def urlOk (s : Text) (pub : Bool) : Bool :=
  !s.contains 63 && !s.contains 35 && !s.contains 64 && (w.curl s).any fun u =>
    let here := u.host = text "127.0.0.1" || u.host = text "[::1]" || u.host = text "localhost"
    (u.scheme = text "https" || (u.scheme = text "http" && (!pub || (w.test && here)))) && !u.user

/-- `number` over a section that may be missing. -/
def number (o : Option Json) (key : Text) (default max : Nat) : Checked Nat :=
  match o.bind (·.get? key) with
  | none => .ok default
  | some (.integer n) =>
      if 1 ≤ n ∧ n ≤ max then .ok n.toNat
      else fail (key ++ text " must be an integer 1.." ++ decimal max)
  | some _ => fail (key ++ text " must be an integer 1.." ++ decimal max)

end Recursant.Startup
