import Recursant.Gateway.State

/-!
# Request-stream sessions

How an unregistered automatic request finds or gets its session: by the opening of its
conversation, the session its headers name and the exchange it continues.
-/

namespace Recursant.Gateway

variable (ρ : Router)

/-- The members of a session that a slot takes on when it is given to a new conversation. -/
structure Newcomer where
  anchor : UInt64
  ident : Text
  now : Nat

/-- `continues`: the request goes on from the last completed exchange of the session. -/
def continues (s : Scope) (messages : List Json) : Bool :=
  if s.pinned then messages.length > s.seenMessages
  else
    match s.boundary, s.history with
    | some boundary, _ => ρ.neighbours.replay boundary messages = .complete
    | none, none => false
    | none, some history =>
        messages.length > history.size &&
          (messages.zip history.elements).all fun (m, old) => m.equal old

namespace GatewayContext

variable {ρ} (g : GatewayContext ρ.settings.count)

/-- The open session that the conversation continues: exact continuations come before pinned
sessions, then the most recent one. -/
def continuation (anchor : UInt64) (ident : Text) (messages : List Json) : Option Slot :=
  Scan.best
    (fun i => (g.scopes i).isOpen && (g.scopes i).implicit && (g.scopes i).anchor = anchor &&
      (g.scopes i).ident = ident && continues ρ (g.scopes i) messages)
    (fun i found =>
      ((g.scopes found).pinned && !(g.scopes i).pinned) ||
        ((g.scopes found).pinned = (g.scopes i).pinned &&
          (g.scopes i).active > (g.scopes found).active))
    slots

/-- A slot for a new session: an unused one while the sessions' share lasts, else that of the
session idle for longest. -/
def sessionSlot (now : Nat) : Option Slot × GatewayContext ρ.settings.count :=
  let unused := slots.find? fun i => !(g.scopes i).isOpen
  let used := slots.countP fun i => (g.scopes i).isOpen && (g.scopes i).implicit
  g.vacantSlot ρ.settings.ttl now true (unused.filter fun _ => used < scopeSlots - explicitScopes)

/-- The session gets its ident; a restricted label outlives any session object. -/
def adopt (i : Slot) (newcomer : Newcomer) : GatewayContext ρ.settings.count :=
  let s := g.scopes i
  { g with
    opened := g.opened + 1
    scopes := Function.update g.scopes i { s with
      isOpen := true
      implicit := true
      serial := g.opened + 1
      active := newcomer.now
      anchor := newcomer.anchor
      ident := newcomer.ident
      lastRow := none
      evidenceRow := none
      privateOnly := s.privateOnly ||
        (newcomer.ident ≠ [] && g.labels.contains newcomer.ident) } }

/-- A harness hint that is still fresh names the session a delegated one. -/
def hinted (ident : Text) (now : Nat) : Bool :=
  ident ≠ [] && g.hints.any fun hint =>
    hint.session = ident && now - hint.at_ ≤ hintTtlMs && hint.delegated

/-- The scope waits on a tool call with the text among its arguments. -/
def awaits (first : Text) (i : Slot) : Bool :=
  (g.scopes i).isOpen && (g.scopes i).boundary.isSome &&
    ((g.scopes i).observedCalls.map Json.elements).any
      fun calls => calls.any (calledWith ρ.jansson first)

/-- `handed_out`: every scope that handed the conversation out is marked. -/
def handedOut (first : Option Text) : Bool × GatewayContext ρ.settings.count :=
  match first.filter (·.length ≥ 16) with
  | none => (false, g)
  | some first =>
      (slots.any (g.awaits first), { g with
        scopes := fun i =>
          if g.awaits first i then { g.scopes i with awaitingDelegates := true } else g.scopes i })

/-- The lineage of a conversation that starts. -/
def lineage (i : Slot) (newcomer : Newcomer) (first : Option Text) :
    GatewayContext ρ.settings.count :=
  let (handed, g) := g.handedOut first
  let s := g.scopes i
  g.setScope i { s with delegated := s.delegated || g.hinted newcomer.ident newcomer.now || handed }

/-- `implicit_scope`: `none` leaves the request unscoped. -/
def implicitScope (body : Json) (h : GatewayHeaders) (now : Nat) :
    Option Slot × GatewayContext ρ.settings.count :=
  let messages := elementsAt body "messages"
  let ident := (sessionIdent h).getD []
  match opening ρ.jansson messages with
  | none => (none, g)
  | some o =>
      match if o.start then none else g.continuation o.anchor ident messages with
      | some found => (if (g.scopes found).inflight then none else some found, g)
      | none =>
          match g.sessionSlot now with
          | (none, g) => (none, g)
          | (some i, g) =>
              let newcomer := ⟨o.anchor, ident, now⟩
              let g := g.adopt i newcomer
              (some i, if o.start then g.lineage i newcomer o.first else g)

end GatewayContext

end Recursant.Gateway
