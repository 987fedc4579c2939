import Recursant.Document.Validation
import Recursant.Lib.Holders
import Recursant.Tracer.Connection

/-!
# The server

`main` of `recursant-tracer`: what it is started with, and the loop that accepts connections while
the threads of earlier ones take their steps.
-/

namespace Recursant.Tracer

open Attempts (AuthTable authBearer)
open Auth Document Holders Startup

/-! ## The start -/

/-- The switches; the listen address and the timeouts decide nothing here. -/
structure Options where
  upstreamBase : Text
  maxBodyBytes : Option Int := none
  maxInflight : Option Int := none
  config : Option Text := none

/-- Host and port of `--upstream-base`, cut to its buffer. -/
def upstreamAddress (base : Text) : Loaded (Text × Text) :=
  if !(text "http://").isPrefixOf base then reject "upstream-base must start with http://"
  else
    let authority := ((base.drop 7).take 511).takeWhile (· ≠ 47)
    let port := (authority.reverse.takeWhile (· ≠ 58)).reverse
    let host := authority.take (authority.length - port.length - 1)
    if authority.contains 58 then
      if host = [] then reject "upstream host is empty" else .ok (host, port)
    else if authority = [] then reject "upstream host is empty"
    else .ok (authority, "80")

/-- The server that the switches start. -/
def startServer (getenv : Text → Option Text) (o : Options) : Loaded Server := do
  let (host, port) ← upstreamAddress o.upstreamBase
  match o.config with
  | none =>
      let maxBody := o.maxBodyBytes.getD 8388608
      return { host, port, maxBody, auth := none, policy := ⟨maxBody, o.maxInflight.getD 64⟩ }
  | some doc => do
      let (cfg, tokens) ← tracerConfig getenv doc
      let maxBody := o.maxBodyBytes.getD cfg.maxBodyBytes
      return {
        host, port, maxBody
        auth := some (tokens.map some)
        policy := ⟨maxBody, o.maxInflight.getD cfg.maxInflight⟩ }

/-! ## The threads and the loop -/

/-- `MAX_CONNECTIONS` -/
def maxConnections : Int := 64

/-- The thread has not ended. -/
def Connection.live (c : Connection) : Bool :=
  match c.stage with
  | .finished => false
  | _ => true

/-- Admission let the request through and the thread has not ended. -/
def Connection.admitted (c : Connection) : Bool := c.project.isSome && c.live

variable {srv : Server} {c d : Connection} {active : Int} {t : House Connection}

theorem live_of_stage {stage : Stage} (hstage : c.stage = stage) (h : stage ≠ .finished) :
    c.live = true := by
  unfold Connection.live
  rw [hstage]
  cases stage with
  | finished => exact absurd rfl h
  | _ => rfl

theorem parsedStage_ne (buf : Text) (n : Nat) : parsedStage buf n ≠ .finished := by
  unfold parsedStage
  split
  · nofun
  · nofun
  · split <;> nofun

theorem framedStage_ne (srv : Server) (ri : ReqInfo) (rest : Text) :
    framedStage srv ri rest ≠ .finished := by
  unfold framedStage
  split <;> nofun

theorem bodyStage_ne (ri : ReqInfo) (remaining : Int) : bodyStage ri remaining ≠ .finished := by
  unfold bodyStage
  split <;> nofun

theorem live_send {bytes : Text} {taken code : Nat} {next : Stage} (h : next ≠ .finished) :
    (c.send bytes taken code next).live = true := by
  by_cases hall : bytes.length ≤ taken
  · exact live_of_stage (send_stage hall) h
  · exact live_of_stage (send_stage_short hall) nofun

/-- A step is one of a live thread, and does not end it. -/
theorem Act.live (h : Act srv active c d) : c.live = true ∧ d.live = true := by
  cases h with
  | receive hstage | answer hstage | wake _ hstage | relay _ _ hstage | lost hstage
  | oversized hstage | refuse hstage | unconnected hstage | connect hstage | unprintable hstage
  | closed hstage | unanswered hstage | relayed hstage =>
      exact ⟨live_of_stage hstage nofun, rfl⟩
  | parse hstage =>
      exact ⟨live_of_stage hstage nofun, live_of_stage rfl (parsedStage_ne _ _)⟩
  | grant hstage =>
      exact ⟨live_of_stage hstage nofun, live_of_stage rfl (framedStage_ne _ _ _)⟩
  | @sendHead ri rest taken hstage =>
      refine ⟨live_of_stage hstage nofun, live_send ?_⟩
      split <;> nofun
  | carry taken hstage => exact ⟨live_of_stage hstage nofun, live_send (bodyStage_ne _ _)⟩
  | @forward ri remaining bytes taken hstage =>
      refine ⟨live_of_stage hstage nofun, ?_⟩
      show (c.send bytes taken 0 (bodyStage ri (remaining - bytes.length))).live = true
      exact live_send (bodyStage_ne ri _)

/-- Only the admission with room for it gives a connection its project. -/
theorem Act.project (h : Act srv active c d) : d.project = c.project ∨
    ∃ ri, admission srv ri active = .ok d.project := by
  cases h with
  | grant hstage hadmitted => exact .inr ⟨_, hadmitted⟩
  | sendHead | carry => exact .inl send_project
  | _ => exact .inl rfl

theorem admission_some {ri : ReqInfo} {p : Int} (h : admission srv ri active = .ok (some p)) :
    ∃ tokens, srv.auth = some tokens ∧ admitRequest (some tokens) srv.policy ri.credentials
      (if ri.isPost then ri.cl else 0) (active - 1) = .ok p := by
  unfold admission at h
  cases hauth : srv.auth with
  | none =>
      rw [hauth] at h
      cases h
  | some tokens =>
      rw [hauth] at h
      dsimp only at h
      refine ⟨tokens, rfl, ?_⟩
      split at h
      next project hok =>
          cases h
          exact hok
      next => cases h

/-- The threads share the counter of connections. -/
def crew (srv : Server) : Crew Connection where
  fresh := .fresh
  holds := Connection.live
  inside := Connection.admitted
  act := Act srv
  release := Release
  limit := srv.policy.maxInflight
  fresh_holds := rfl
  fresh_outside := rfl
  inside_holds _ h := (Bool.and_eq_true _ _ ▸ h).2
  act_holds _ _ _ h := h.live
  act_inside n x y h hy := by
    unfold Connection.admitted at hy ⊢
    rw [Bool.and_eq_true] at hy ⊢
    cases h.project with
    | inl hsame => exact .inl ⟨hsame ▸ hy.1, h.live.1⟩
    | inr hadmitted =>
        obtain ⟨ri, hadmitted⟩ := hadmitted
        obtain ⟨p, hp⟩ := Option.isSome_iff_exists.mp hy.1
        rw [hp] at hadmitted
        obtain ⟨tokens, -, hok⟩ := admission_some hadmitted
        have hroom := (admitRequest_ok.mp hok).2.2.2.2
        right
        omega
  release_holds x y h := by
    cases h with
    | release taken hstage => exact ⟨live_of_stage hstage nofun, rfl⟩

/-- The states of a server: the threads in any order, between the rounds of the loop. -/
abbrev Serves (srv : Server) : House Connection → Prop := Reaches (crew srv) maxConnections

end Recursant.Tracer
