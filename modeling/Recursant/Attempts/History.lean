import Recursant.Lib.Trace
import Recursant.Attempts.Steps

/-!
# What the bounded ledger remembers of its history

Every accepted attempt of a run is accounted for by the ledger: by its row, by the loss window, or
because it left the table at a moment after which only later attempts with its key can be live.
-/

namespace Recursant.Attempts

/-- Project, headers and tick of an accepted physical attempt. -/
def accepted (auth : AuthTable) : Call → Option (Nat × AttemptHeaders × Nat)
  | .begin a h now _ => (authBearer auth a).map fun p => (p, h, now)
  | _ => none

def issuedId : Answer → Option AttemptId
  | .begun _ id => id
  | _ => none

/-- How a call changes the rows it finds. -/
def update (auth : AuthTable) : Call → Row → Row
  | .finish id complete now, r => if r.id = id then r.finish complete now else r
  | .sourceComplete a h now, r =>
      match authBearer auth a with
      | some p => if valid h && (key r p h && now < r.expires) then { r with source := true } else r
      | none => r
  | _, r => r

/-- The rows a call adds. -/
def added (auth : AuthTable) (ttl : Nat) : Call → Answer → List Row
  | .begin a h now _, .begun .tracked (some id) =>
      match authBearer auth a with
      | some p => [.fresh h p id now ttl]
      | none => []
  | _, _ => []

/-- One step without permanent loss, as far as later queries can tell. -/
structure Evolves (l : AttemptLedger) (c : Call) (answer : Answer) (m : AttemptLedger) : Prop where
  kept : l.lost = false
  auth : m.auth = l.auth
  ttl : m.ttl = l.ttl
  boot : m.boot = l.boot
  clock : l.now ≤ m.now
  window : l.lostUntil ≤ m.lostUntil
  rows : ∃ rows, Pressed l m.now rows ∧
    m.rows = rows.map (update l.auth c) ++ added l.auth l.ttl c answer
  issued : (issuedId answer = none ∧ m.serial = l.serial) ∨
    (issuedId answer = some ⟨l.boot, l.serial + 1⟩ ∧ m.serial = l.serial + 1)
  notLost : c ≠ .lost
  declared : ∀ t, c = .lostAt t → t + l.ttl ≤ m.lostUntil
  finished : ∀ i b t, c = .finish i b t → t ≤ m.now
  begun : ∀ p h t, accepted l.auth c = some (p, h, t) → m.now = t ∧
    ((valid h = true ∧ answer = .begun .tracked (some ⟨l.boot, l.serial + 1⟩)) ∨
      (answer = .begun .untracked (some ⟨l.boot, l.serial + 1⟩) ∧ t + l.ttl ≤ m.lostUntil))

theorem update_id_of (auth : AuthTable) (c : Call) (hfinish : ∀ i b t, c ≠ .finish i b t)
    (hsource : ∀ a h t, c ≠ .sourceComplete a h t) (rows : List Row) :
    rows.map (update auth c) = rows := by
  have hid : update auth c = id := by
    funext r
    cases c with
    | finish i b t => exact absurd rfl (hfinish i b t)
    | sourceComplete a h t => exact absurd rfl (hsource a h t)
    | _ => rfl
  rw [hid, List.map_id]

theorem step_evolves {l m : AttemptLedger} {c : Call} {answer : Answer}
    (hstep : step l c = (answer, m)) (hkept : m.lost = false) : Evolves l c answer m := by
  cases c with
  | begin a h now w =>
      have hrows := update_id_of l.auth (c := .begin a h now w) (by simp) (by simp)
      rcases begin_kept hstep hkept with ⟨hauth, rfl, rfl⟩ |
        ⟨p, rows, hauth, hlost, hle, hpressed, ⟨rfl, rfl⟩ | ⟨rfl, hvalid, rfl⟩⟩
      · exact
          { kept := hkept, auth := rfl, ttl := rfl, boot := rfl, clock := le_rfl, window := le_rfl
            rows := ⟨m.rows, .inl rfl, by rw [hrows]; simp [added]⟩
            issued := .inl ⟨rfl, rfl⟩, notLost := by simp, declared := by simp, finished := by simp
            begun := by simp [accepted, hauth] }
      · refine
          { kept := hlost, auth := rfl, ttl := rfl, boot := rfl, clock := hle
            window := le_max_left _ _
            rows := ⟨rows, hpressed, by rw [hrows]; simp [added]⟩
            issued := .inr ⟨rfl, rfl⟩, notLost := by simp, declared := by simp, finished := by simp
            begun := ?_ }
        intro p' h' t hacc
        simp only [accepted, hauth, Option.map_some, Option.some.injEq, Prod.mk.injEq] at hacc
        obtain ⟨rfl, rfl, rfl⟩ := hacc
        exact ⟨rfl, .inr ⟨rfl, le_max_right _ _⟩⟩
      · refine
          { kept := hlost, auth := rfl, ttl := rfl, boot := rfl, clock := hle, window := le_rfl
            rows := ⟨rows, hpressed, by rw [hrows]; simp [added, hauth]⟩
            issued := .inr ⟨rfl, rfl⟩, notLost := by simp, declared := by simp, finished := by simp
            begun := ?_ }
        intro p' h' t hacc
        simp only [accepted, hauth, Option.map_some, Option.some.injEq, Prod.mk.injEq] at hacc
        obtain ⟨rfl, rfl, rfl⟩ := hacc
        exact ⟨rfl, .inl ⟨hvalid, rfl⟩⟩
  | finish id complete now =>
      obtain ⟨rfl, hlost, hle, rfl⟩ := finish_kept hstep hkept
      refine
        { kept := hlost, auth := rfl, ttl := rfl, boot := rfl, clock := hle, window := le_rfl
          rows := ⟨l.rows, .inl rfl, by simp [added, update]⟩
          issued := .inl ⟨rfl, rfl⟩, notLost := by simp, declared := by simp, finished := ?_
          begun := by simp [accepted] }
      intro i b t ht
      cases ht
      exact le_rfl
  | sourceComplete a h now =>
      obtain ⟨rfl, hlost, ⟨hignored, rfl⟩ | ⟨p, hvalid, hauth, hle, rfl⟩⟩ :=
        sourceComplete_kept hstep hkept
      · have hid : update m.auth (.sourceComplete a h now) = id := by
          funext r
          rcases hignored with hinvalid | hauth
          · cases hauth : authBearer m.auth a <;> simp [update, hauth, hinvalid]
          · simp [update, hauth]
        exact
          { kept := hlost, auth := rfl, ttl := rfl, boot := rfl, clock := le_rfl, window := le_rfl
            rows := ⟨m.rows, .inl rfl, by rw [hid]; simp [added]⟩
            issued := .inl ⟨rfl, rfl⟩, notLost := by simp, declared := by simp, finished := by simp
            begun := by simp [accepted] }
      · exact
          { kept := hlost, auth := rfl, ttl := rfl, boot := rfl, clock := hle, window := le_rfl
            rows := ⟨l.rows, .inl rfl, by simp [added, update, hauth, hvalid]⟩
            issued := .inl ⟨rfl, rfl⟩, notLost := by simp, declared := by simp, finished := by simp
            begun := by simp [accepted] }
  | get a h id now =>
      have hrows := update_id_of l.auth (c := .get a h id now) (by simp) (by simp)
      obtain ⟨hlost, n, hle, rfl⟩ := get_kept hstep hkept
      obtain ⟨rfl, -⟩ := Prod.mk.inj hstep
      exact
        { kept := hlost, auth := rfl, ttl := rfl, boot := rfl, clock := hle, window := le_rfl
          rows := ⟨l.rows, .inl rfl, by rw [hrows]; simp [added]⟩
          issued := .inl ⟨rfl, rfl⟩, notLost := by simp, declared := by simp, finished := by simp
          begun := by simp [accepted] }
  | lost =>
      obtain ⟨-, rfl⟩ := Prod.mk.inj hstep
      cases hkept
  | lostAt now =>
      have hrows := update_id_of l.auth (c := .lostAt now) (by simp) (by simp)
      obtain ⟨hlost, hle, rfl⟩ := lostAt_kept hstep hkept
      obtain ⟨rfl, -⟩ := Prod.mk.inj hstep
      refine
        { kept := hlost, auth := rfl, ttl := rfl, boot := rfl, clock := hle
          window := le_max_left _ _
          rows := ⟨l.rows, .inl rfl, by rw [hrows]; simp [added]⟩
          issued := .inl ⟨rfl, rfl⟩, notLost := by simp, declared := ?_, finished := by simp
          begun := by simp [accepted] }
      intro t ht
      cases ht
      exact le_max_right _ _
  | capacity now =>
      have hrows := update_id_of l.auth (c := .capacity now) (by simp) (by simp)
      obtain ⟨hlost, hle, rows, hpressed, rfl⟩ := capacity_kept hstep hkept
      obtain ⟨rfl, -⟩ := Prod.mk.inj hstep
      exact
        { kept := hlost, auth := rfl, ttl := rfl, boot := rfl, clock := hle, window := le_rfl
          rows := ⟨rows, hpressed, by rw [hrows]; simp [added]⟩
          issued := .inl ⟨rfl, rfl⟩, notLost := by simp, declared := by simp, finished := by simp
          begun := by simp [accepted] }

/-! ## Rows and their identity -/

/-- The fields fixed when the row was written. -/
structure SameAttempt (r s : Row) : Prop where
  headers : s.headers = r.headers
  project : s.project = r.project
  id : s.id = r.id
  begun : s.begun = r.begun
  expires : s.expires = r.expires

theorem update_same (auth : AuthTable) (c : Call) (r : Row) : SameAttempt r (update auth c r) := by
  unfold update
  split
  · split
    · unfold Row.finish
      split <;> exact ⟨rfl, rfl, rfl, rfl, rfl⟩
    · exact ⟨rfl, rfl, rfl, rfl, rfl⟩
  · split
    · split <;> exact ⟨rfl, rfl, rfl, rfl, rfl⟩
    · exact ⟨rfl, rfl, rfl, rfl, rfl⟩
  · exact ⟨rfl, rfl, rfl, rfl, rfl⟩

theorem SameAttempt.key {r s : Row} (h : SameAttempt r s) (p : Nat) (headers : AttemptHeaders) :
    Attempts.key s p headers = Attempts.key r p headers := by
  unfold Attempts.key
  rw [h.headers, h.project]

theorem key_iff (r : Row) (p : Nat) (h : AttemptHeaders) :
    key r p h = true ↔ r.project = p ∧ ∀ i, r.headers.values i = h.values i := by
  simp [key, List.all_eq_true]

theorem added_begun {l m : AttemptLedger} {c : Call} {answer : Answer}
    (hev : Evolves l c answer m) {r : Row} (hr : r ∈ added l.auth l.ttl c answer) :
    ∃ a h w p, c = .begin a h m.now w ∧ authBearer l.auth a = some p ∧ valid h = true ∧
      answer = .begun .tracked (some ⟨l.boot, l.serial + 1⟩) ∧
      r = .fresh h p ⟨l.boot, l.serial + 1⟩ m.now l.ttl := by
  unfold added at hr
  split at hr
  · next a h now w id =>
      split at hr
      · next p hauth =>
          obtain ⟨hnow, ⟨hvalid, hanswer⟩ | ⟨hanswer, -⟩⟩ :=
            hev.begun p h now (by simp [accepted, hauth])
          · injection hanswer with _ hid
            injection hid with hid
            refine ⟨a, h, w, p, by rw [hnow], hauth, hvalid, by rw [hid], ?_⟩
            rw [List.mem_singleton.mp hr, hnow, hid]
          · cases hanswer
      · cases hr
  · cases hr

/-! ## Accounting for accepted attempts -/

/-- Where an accepted attempt is found in the ledger. -/
inductive Accounted (l : AttemptLedger) (p : Nat) (h : AttemptHeaders) (t : Nat) : Answer → Prop where
  | row {r : Row} : r ∈ l.rows → r.project = p → r.headers = h → r.begun = t →
      r.expires = t + l.ttl → Accounted l p h t (.begun .tracked (some r.id))
  | gone {id : AttemptId} : t + l.ttl ≤ l.now →
      (∀ r ∈ l.rows, key r p h = true → l.now < r.expires → t + l.ttl ≤ r.begun) →
        Accounted l p h t (.begun .tracked (some id))
  | window {id : Option AttemptId} : t + l.ttl ≤ l.lostUntil →
      Accounted l p h t (.begun .untracked id)

theorem Accounted.carry {l m : AttemptLedger} {c : Call} {answer : Answer}
    (hev : Evolves l c answer m) {p : Nat} {h : AttemptHeaders} {t : Nat} {given : Answer}
    (hacc : Accounted l p h t given) : Accounted m p h t given := by
  obtain ⟨rows, hpressed, hrows⟩ := hev.rows
  have hclock := hev.clock
  cases hacc with
  | @row r hmem hproject hheaders hbegun hexpires =>
      by_cases hstay : r ∈ rows
      · have hsame := update_same l.auth c r
        have hm : update l.auth c r ∈ m.rows := by
          rw [hrows]
          exact List.mem_append_left _ (List.mem_map_of_mem hstay)
        rw [← hsame.id]
        exact .row hm (hsame.project.trans hproject) (hsame.headers.trans hheaders)
          (hsame.begun.trans hbegun) (by rw [hsame.expires, hexpires, hev.ttl])
      · -- reclaimed now: expired, and nothing live carries its key
        have hlost := hpressed.lost hmem hstay
        unfold protectedRow at hlost
        push Not at hlost
        obtain ⟨-, hexpired, htomb⟩ := hlost
        refine .gone (by rw [hev.ttl]; omega) ?_
        intro s hs hkey hlive
        rw [hev.ttl]
        rw [hrows] at hs
        rcases List.mem_append.mp hs with hs | hs
        · obtain ⟨s₀, hs₀, rfl⟩ := List.mem_map.mp hs
          have hsame := update_same l.auth c s₀
          rw [hsame.key] at hkey
          rw [hsame.expires] at hlive
          rw [← hproject, ← hheaders] at hkey
          exact absurd hkey (htomb s₀ (hpressed.subset s₀ hs₀) hlive)
        · obtain ⟨_, _, _, _, _, _, _, _, rfl⟩ := added_begun hev hs
          change t + l.ttl ≤ m.now
          omega
  | gone hpast hlater =>
      refine .gone (by rw [hev.ttl]; omega) ?_
      intro s hs hkey hlive
      rw [hev.ttl]
      rw [hrows] at hs
      rcases List.mem_append.mp hs with hs | hs
      · obtain ⟨s₀, hs₀, rfl⟩ := List.mem_map.mp hs
        have hsame := update_same l.auth c s₀
        rw [hsame.key] at hkey
        rw [hsame.expires] at hlive
        rw [hsame.begun]
        exact hlater s₀ (hpressed.subset s₀ hs₀) hkey (by omega)
      · obtain ⟨_, _, _, _, _, _, _, _, rfl⟩ := added_begun hev hs
        change t + l.ttl ≤ m.now
        omega
  | window hwindow =>
      have := hev.window
      exact .window (by rw [hev.ttl]; omega)

theorem Accounted.new {l m : AttemptLedger} {c : Call} {answer : Answer}
    (hev : Evolves l c answer m) {p : Nat} {h : AttemptHeaders} {t : Nat}
    (hacc : accepted l.auth c = some (p, h, t)) : Accounted m p h t answer := by
  obtain ⟨hnow, ⟨hvalid, rfl⟩ | ⟨rfl, hwindow⟩⟩ := hev.begun p h t hacc
  · obtain ⟨rows, -, hrows⟩ := hev.rows
    have hmem : Row.fresh h p ⟨l.boot, l.serial + 1⟩ t l.ttl ∈ m.rows := by
      rw [hrows]
      apply List.mem_append_right
      cases c with
      | begin a h' now w =>
          cases hauth : authBearer l.auth a with
          | none => simp [accepted, hauth] at hacc
          | some q =>
              simp only [accepted, hauth, Option.map_some, Option.some.injEq,
                Prod.mk.injEq] at hacc
              obtain ⟨rfl, rfl, rfl⟩ := hacc
              simp [added, hauth]
      | _ => simp [accepted] at hacc
    exact .row hmem rfl rfl rfl (by rw [hev.ttl]; rfl)
  · exact .window (by rw [hev.ttl]; exact hwindow)

/-! ## The history of a row -/

/-- The events of a run that explain a row: its begin and what was recorded since. -/
structure Origin (auth : AuthTable) (ttl : Nat) (before after : List (Call × Answer))
    (a : Option Text) (w : Bool) (r : Row) : Prop where
  authorized : authBearer auth a = some r.project
  valid : valid r.headers = true
  expires : r.expires = r.begun + ttl
  finished : r.finished = true →
    ∃ t answer, (.finish r.id true t, answer) ∈ after ∧ t < r.expires
  failed : r.failed = false →
    ∀ t answer, (.finish r.id false t, answer) ∈ after → r.expires ≤ t
  source : r.source = true → ∃ b h t answer, (.sourceComplete b h t, answer) ∈ after ∧
    authBearer auth b = some r.project ∧ key r r.project h = true ∧ t < r.expires

/-- The history splits at the begin of the row. -/
def Explained (auth : AuthTable) (ttl : Nat) (history : List (Call × Answer)) (r : Row) : Prop :=
  ∃ before after a w, history = before ++
      (.begin a r.headers r.begun w, .begun .tracked (some r.id)) :: after ∧
    Origin auth ttl before after a w r

theorem Origin.carry {auth : AuthTable} {ttl : Nat} {before after : List (Call × Answer)}
    {a : Option Text} {w : Bool} {r : Row} (h : Origin auth ttl before after a w r) (c : Call)
    (answer : Answer) :
    Origin auth ttl before (after ++ [(c, answer)]) a w (update auth c r) := by
  have hsame := update_same auth c r
  refine
    { authorized := by rw [hsame.project]; exact h.authorized
      valid := by rw [hsame.headers]; exact h.valid
      expires := by rw [hsame.expires, hsame.begun]; exact h.expires
      finished := ?_, failed := ?_, source := ?_ }
  · -- finished: either already recorded, or recorded by this very finish
    intro hfin
    rw [hsame.id, hsame.expires]
    by_cases hold : r.finished = true
    · obtain ⟨t, ans, hmem, hlt⟩ := h.finished hold
      exact ⟨t, ans, List.mem_append_left _ hmem, hlt⟩
    · cases c with
      | finish id complete now =>
          simp only [update, Row.finish] at hfin
          split at hfin
          · next hid =>
              split at hfin
              · exact absurd hfin hold
              · next hlive =>
                  change complete = true at hfin
                  subst hfin hid
                  exact ⟨now, answer, by simp, by omega⟩
          · exact absurd hfin hold
      | sourceComplete b h' now =>
          exfalso
          simp only [update] at hfin
          split at hfin
          · split at hfin <;> exact hold hfin
          · exact hold hfin
      | _ => exact absurd hfin hold
  · -- never failed: no earlier incomplete finish while live, and this call is none either
    intro hfail t ans hmem
    rw [hsame.id] at hmem
    rw [hsame.expires]
    rcases List.mem_append.mp hmem with hmem | hmem
    · have hold : r.failed = false := by
        cases c with
        | finish id complete now =>
            simp only [update, Row.finish] at hfail
            split at hfail
            · split at hfail
              · exact hfail
              · exact (Bool.or_eq_false_iff.mp hfail).1
            · exact hfail
        | sourceComplete b h' now =>
            simp only [update] at hfail
            split at hfail
            · split at hfail <;> exact hfail
            · exact hfail
        | _ => exact hfail
      exact h.failed hold t ans hmem
    · obtain ⟨rfl, -⟩ := Prod.mk.inj (List.mem_singleton.mp hmem)
      by_contra hlt
      simp only [update, Row.finish, if_true] at hfail
      rw [if_neg (by omega)] at hfail
      simp at hfail
  · intro hsource
    simp only [hsame.expires, hsame.project, hsame.key]
    by_cases hold : r.source = true
    · obtain ⟨b, h', t, ans, hmem, hrest⟩ := h.source hold
      exact ⟨b, h', t, ans, List.mem_append_left _ hmem, hrest⟩
    · cases c with
      | sourceComplete b h' now =>
          simp only [update] at hsource
          split at hsource
          · next p hauth =>
              split at hsource
              · next hcond =>
                  simp only [Bool.and_eq_true, decide_eq_true_eq] at hcond
                  obtain ⟨-, hkey, hlt⟩ := hcond
                  have hproject := ((key_iff r p h').mp hkey).1
                  exact ⟨b, h', now, answer, by simp, by rw [hproject]; exact hauth,
                    by rw [hproject]; exact hkey, hlt⟩
              · exact absurd hsource hold
          · exact absurd hsource hold
      | finish id complete now =>
          exfalso
          simp only [update, Row.finish] at hsource
          split at hsource
          · split at hsource <;> exact hold hsource
          · exact hold hsource
      | _ => exact absurd hsource hold

theorem Explained.carry {auth : AuthTable} {ttl : Nat} {history : List (Call × Answer)} {r : Row}
    (h : Explained auth ttl history r) (c : Call) (answer : Answer) :
    Explained auth ttl (history ++ [(c, answer)]) (update auth c r) := by
  obtain ⟨before, after, a, w, rfl, horigin⟩ := h
  have hsame := update_same auth c r
  refine ⟨before, after ++ [(c, answer)], a, w, ?_, horigin.carry c answer⟩
  rw [hsame.headers, hsame.begun, hsame.id]
  simp

/-! ## The invariant of a run without permanent loss -/

structure Sound (auth : AuthTable) (ttl : Nat) (boot : Nat × Nat)
    (history : List (Call × Answer)) (l : AttemptLedger) : Prop where
  sameAuth : l.auth = auth
  sameTtl : l.ttl = ttl
  sameBoot : l.boot = boot
  /-- Serials are issued in increasing order. -/
  ordered : (history.filterMap fun e => issuedId e.2).Pairwise fun i j => i.serial < j.serial
  issued : ∀ e ∈ history, ∀ id, issuedId e.2 = some id → id.boot = boot ∧ id.serial ≤ l.serial
  rowsOrdered : l.rows.Pairwise fun r s => r.id.serial < s.id.serial
  rowsBegun : ∀ r ∈ l.rows, r.begun ≤ l.now
  notLost : ∀ answer, (.lost, answer) ∉ history
  declared : ∀ t answer, (.lostAt t, answer) ∈ history → t + ttl ≤ l.lostUntil
  finished : ∀ i b t answer, (.finish i b t, answer) ∈ history → t ≤ l.now
  accounted : ∀ c answer, (c, answer) ∈ history → ∀ p h t, accepted auth c = some (p, h, t) →
    Accounted l p h t answer
  explained : ∀ r ∈ l.rows, Explained auth ttl history r

theorem Explained.issued {auth : AuthTable} {ttl : Nat} {history : List (Call × Answer)} {r : Row}
    (h : Explained auth ttl history r) : ∃ e ∈ history, issuedId e.2 = some r.id := by
  obtain ⟨before, after, a, w, rfl, -⟩ := h
  exact ⟨_, List.mem_append_right _ List.mem_cons_self, rfl⟩

theorem Sound.extend {auth : AuthTable} {ttl : Nat} {boot : Nat × Nat}
    {history : List (Call × Answer)} {l m : AttemptLedger} (h : Sound auth ttl boot history l)
    {c : Call} {answer : Answer} (hev : Evolves l c answer m) :
    Sound auth ttl boot (history ++ [(c, answer)]) m := by
  obtain ⟨rows, hpressed, hrows⟩ := hev.rows
  have hauth := h.sameAuth
  have httl := h.sameTtl
  have hserial : l.serial ≤ m.serial := by
    rcases hev.issued with ⟨-, hs⟩ | ⟨-, hs⟩ <;> omega
  have hrowSerial : ∀ r ∈ l.rows, r.id.serial ≤ l.serial := by
    intro r hr
    obtain ⟨e, he, hid⟩ := (h.explained r hr).issued
    exact (h.issued e he r.id hid).2
  refine
    { sameAuth := hev.auth.trans hauth, sameTtl := hev.ttl.trans httl
      sameBoot := hev.boot.trans h.sameBoot
      ordered := ?_, issued := ?_, rowsOrdered := ?_, rowsBegun := ?_, notLost := ?_
      declared := ?_, finished := ?_, accounted := ?_, explained := ?_ }
  · rw [List.filterMap_append, List.pairwise_append]
    refine ⟨h.ordered, ?_, ?_⟩
    · rcases hev.issued with ⟨hid, -⟩ | ⟨hid, -⟩ <;> simp [hid]
    · intro i hi j hj
      obtain ⟨e, he, hid⟩ := List.mem_filterMap.mp hi
      have hle := (h.issued e he i hid).2
      rcases hev.issued with ⟨hnone, -⟩ | ⟨hsome, -⟩
      · simp [hnone] at hj
      · have : j = ⟨l.boot, l.serial + 1⟩ := by simpa [hsome] using hj
        subst this
        change i.serial < l.serial + 1
        omega
  · intro e he id hid
    rcases List.mem_append.mp he with he | he
    · have := h.issued e he id hid
      exact ⟨this.1, by omega⟩
    · rw [List.mem_singleton.mp he] at hid
      rcases hev.issued with ⟨hnone, -⟩ | ⟨hsome, hs⟩
      · rw [hnone] at hid
        cases hid
      · rw [hsome] at hid
        injection hid with hid
        subst hid
        exact ⟨h.sameBoot, by rw [hs]⟩
  · rw [hrows, List.pairwise_append]
    refine ⟨?_, ?_, ?_⟩
    · rw [List.pairwise_map]
      simp only [(update_same l.auth c _).id]
      exact h.rowsOrdered.sublist hpressed.sublist
    · have hone : added l.auth l.ttl c answer = [] ∨ ∃ r, added l.auth l.ttl c answer = [r] := by
        unfold added
        split
        · split <;> simp
        · exact .inl rfl
      rcases hone with hnone | ⟨r, hnew⟩
      · simp [hnone]
      · simp [hnew]
    · intro r hr s hs
      obtain ⟨r₀, hr₀, rfl⟩ := List.mem_map.mp hr
      obtain ⟨_, _, _, _, _, _, _, _, rfl⟩ := added_begun hev hs
      rw [(update_same l.auth c r₀).id]
      change r₀.id.serial < l.serial + 1
      have := hrowSerial r₀ (hpressed.subset r₀ hr₀)
      omega
  · intro r hr
    rw [hrows] at hr
    rcases List.mem_append.mp hr with hr | hr
    · obtain ⟨r₀, hr₀, rfl⟩ := List.mem_map.mp hr
      rw [(update_same l.auth c r₀).begun]
      exact (h.rowsBegun r₀ (hpressed.subset r₀ hr₀)).trans hev.clock
    · obtain ⟨_, _, _, _, _, _, _, _, rfl⟩ := added_begun hev hr
      exact le_rfl
  · intro ans hmem
    rcases List.mem_append.mp hmem with hmem | hmem
    · exact h.notLost ans hmem
    · exact hev.notLost (Prod.mk.inj (List.mem_singleton.mp hmem)).1.symm
  · intro t ans hmem
    have hwindow := hev.window
    rcases List.mem_append.mp hmem with hmem | hmem
    · have := h.declared t ans hmem
      omega
    · have := hev.declared t (Prod.mk.inj (List.mem_singleton.mp hmem)).1.symm
      omega
  · intro i b t ans hmem
    have hclock := hev.clock
    rcases List.mem_append.mp hmem with hmem | hmem
    · have := h.finished i b t ans hmem
      omega
    · exact hev.finished i b t (Prod.mk.inj (List.mem_singleton.mp hmem)).1.symm
  · intro d ans hmem p headers t hacc
    rcases List.mem_append.mp hmem with hmem | hmem
    · exact (h.accounted d ans hmem p headers t hacc).carry hev
    · obtain ⟨rfl, rfl⟩ := Prod.mk.inj (List.mem_singleton.mp hmem)
      exact .new hev (by rw [hauth]; exact hacc)
  · intro r hr
    rw [hrows] at hr
    rcases List.mem_append.mp hr with hr | hr
    · obtain ⟨r₀, hr₀, rfl⟩ := List.mem_map.mp hr
      have := (h.explained r₀ (hpressed.subset r₀ hr₀)).carry c answer
      rw [hauth]
      exact this
    · obtain ⟨a, h', w, p, rfl, hbearer, hvalid, rfl, rfl⟩ := added_begun hev hr
      refine ⟨history, [], a, w, rfl, ?_⟩
      exact
        { authorized := by rw [← hauth]; exact hbearer
          valid := hvalid
          expires := by rw [← httl]; rfl
          finished := by simp [Row.fresh]
          failed := by simp
          source := by simp [Row.fresh] }

theorem Sound.init {auth : AuthTable} {capacity ttl : Nat} {boot : Nat × Nat} {l : AttemptLedger}
    (h : attemptCreate auth capacity ttl boot = some l) : Sound auth ttl boot [] l := by
  unfold attemptCreate at h
  split at h
  · cases h
  · obtain rfl := Option.some.inj h
    exact
      { sameAuth := rfl, sameTtl := rfl, sameBoot := rfl, ordered := by simp, issued := by simp
        rowsOrdered := by simp, rowsBegun := by simp, notLost := by simp, declared := by simp
        finished := by simp
        accounted := by simp, explained := by simp }

/-- A permanent loss never ends. -/
theorem step_lost {l m : AttemptLedger} {c : Call} {answer : Answer}
    (hstep : step l c = (answer, m)) (hlost : l.lost = true) : m.lost = true := by
  by_contra hkept
  have := (step_evolves hstep (by simpa using hkept)).kept
  rw [hlost] at this
  cases this

theorem run_lost {l m : AttemptLedger} {history : List (Call × Answer)}
    (hrun : Trace.Runs step l history m) (hkept : m.lost = false) : l.lost = false := by
  by_contra hlost
  have := hrun.invariant (P := fun l => l.lost = true) (fun _ _ _ _ h hs => step_lost hs h)
    (by simpa using hlost)
  rw [hkept] at this
  cases this

theorem run_sound {auth : AuthTable} {capacity ttl : Nat} {boot : Nat × Nat}
    {l m : AttemptLedger} {history : List (Call × Answer)}
    (hcreate : attemptCreate auth capacity ttl boot = some l)
    (hrun : Trace.Runs step l history m) (hkept : m.lost = false) :
    Sound auth ttl boot history m := by
  induction hrun with
  | init => exact .init hcreate
  | next _ hstep ih =>
      have hev := step_evolves hstep hkept
      exact (ih hev.kept).extend hev

end Recursant.Attempts
