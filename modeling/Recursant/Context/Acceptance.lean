import Recursant.Context.Chunking

/-!
# Accepted responses

What the flags of the observer add up to: an event sequence gives a message exactly when it is a
run of choices up to a terminal one, at most one accounting chunk and the end marker.  A chunk is
read by itself first; what it is checked against is a head with registers and a body with phases.
-/

namespace Recursant.ResponseObserver

open StreamTools (Tools utf8)
open ToolBoundary (Loader)

/-! ## Reading one chunk -/

/-- What a choice says by itself. -/
structure Choice where
  details : Option Json
  role : Bool
  /-- No content, a null one, or a text. -/
  content : Option (Option Text)
  calls : Option (List Json)
  finish : Option Bool
  native : Native
  deriving DecidableEq

def Choice.text (r : Choice) : Text := r.content.join.getD []

/-- Without a content, or with the empty one. -/
def Choice.silent (r : Choice) : Bool := r.content.all (· = some [])

/-- What a chunk says by itself; a chunk without a choice is an accounting tail. -/
structure Piece where
  id : Option Text
  model : Option Text
  provider : Option Text
  created : Option Int
  usage : Option Usage
  choice : Option Choice
  deriving DecidableEq

def readRole (v : Option Json) : Option Bool :=
  match v with
  | none => some false
  | some v => if v = .string "assistant" then some true else none

def readContent (v : Option Json) : Option (Option (Option Text)) :=
  match v with
  | none => some none
  | some .null => some (some none)
  | some (.string s) => if s.contains 0 then none else some (some (some s))
  | some _ => none

def readCalls (v : Option Json) : Option (Option (List Json)) :=
  match v with
  | none => some none
  | some (.array es) => some (some es)
  | some _ => none

/-- A null finish, or one of the two terminal ones; whether it is for tool calls. -/
def readFinish (v : Option Json) : Option (Option Bool) :=
  match v with
  | none => none
  | some .null => some none
  | some (.string s) =>
      if s = "tool_calls" then some (some true) else if s = "stop" then some (some false) else none
  | some _ => none

def readChoice (c delta : Json) : Option Choice := do
  let role ← readRole (delta.get? "role")
  let content ← readContent (delta.get? "content")
  let calls ← readCalls (delta.get? "tool_calls")
  let finish ← readFinish (c.get? "finish_reason")
  some { details := delta.get? "reasoning_details", role := role, content := content
         calls := calls, finish := finish, native := nativeOf (c.get? "native_finish_reason") }

/-- One choice, or none with a usage. -/
def readChoices (m : Dialect) (root : Json) : Option (Option Choice) :=
  match root.get? "choices" with
  | some (.array []) => if (usageAt root).isSome then some none else none
  | some (.array [c]) =>
      if choiceForm m c then (c.get? "delta").bind fun delta => (readChoice c delta).map some
      else none
  | _ => none

def readId (v : Option Json) : Option (Option Text) :=
  match v with
  | none => some none
  | some (.string s) => if s = [] || s.length > 128 || s.contains 0 then none else some (some s)
  | some _ => none

/-- An admissible chunk of the dialect. -/
def readChunk (m : Dialect) (root : Json) : Option Piece :=
  if !rootForm m root || (usageAt root).any (fun u => u.cached > u.prompt) then none
  else do
    let id ← readId (root.get? "id")
    let model ← readId (root.get? "model")
    let provider ← readId (root.get? "provider")
    let choice ← readChoices m root
    some { id := id, model := model, provider := provider
           created := (root.get? "created").map (integerValue ∘ some)
           usage := usageAt root, choice := choice }

/-! ## One piece after others -/

def stepHead (h : Head) (p : Piece) : Option Head := do
  let id ← Register.write h.id p.id
  let model ← Register.write h.model p.model
  let provider ← Register.write h.provider p.provider
  let created ← Register.write h.created p.created
  let usage ← Register.write h.usage p.usage
  some { id := id, model := model, provider := provider, created := created, usage := usage }

/-- The body with the calls of a choice. -/
def addCalls (b : Body) (calls : Option (List Json)) : Body :=
  match calls with
  | none | some [] => b
  | some (e :: es) =>
      if b.toolsFailed then { b with toolUsed := b.toolUsed + 1 }
      else
        let r := StreamTools.feed (b.tools.getD {}) (.array (e :: es))
        { b with tools := some r.1, toolsFailed := !r.2, toolUsed := b.toolUsed + 1 }

/-- The body with the role, the text and the calls of a choice. -/
def addChoice (b : Body) (r : Choice) : Body :=
  addCalls
    { takeDetails b r.details with
      accountingTail := b.accountingTail || b.finished
      role := true
      text := b.text ++ r.text }
    r.calls

/-- A choice after the terminal one can only be its repeat with an accounting. -/
def repeatFits (m : Dialect) (b : Body) (usage : Bool) (r : Choice) : Bool :=
  !m.strictOpenai && !b.accountingTail && usage && r.finish = some b.toolFinish &&
    r.calls.isNone && r.silent && b.native = r.native

def stepChoice (m : Dialect) (b : Body) (usage : Bool) (r : Choice) : Option Body :=
  if b.finished && !repeatFits m b usage r then none
  else if !b.role && !r.role then none
  else if r.text.length > responseLimit - b.text.length then none
  else
    let b := addChoice b r
    match r.finish with
    | none => some b
    | some tools =>
        if tools ≠ decide (b.toolUsed ≠ 0) then none
        else some { b with toolFinish := tools, native := r.native, finished := true }

def stepBody (m : Dialect) (b : Body) (p : Piece) : Option Body :=
  match p.choice with
  | none =>
      if !b.finished || b.accountingTail || p.usage.isNone then none
      else some { b with accountingTail := true }
  | some r => stepChoice m b p.usage.isSome r

/-! ## The code reads a chunk and then takes it -/

theorem takeDetails_eq (o : Body) (details : Option Json) :
    ∃ r, takeDetails o details = { o with reasoning := r } := by
  unfold takeDetails
  split
  next => exact ⟨_, rfl⟩
  next => exact ⟨o.reasoning, rfl⟩

theorem takeRole_eq (o : Body) (v : Option Json) : takeRole o v = (readRole v).bind fun r =>
    if (!o.role && !r) = true then none else some { o with role := true } := by
  cases v with
  | none =>
      rw [takeRole, readRole, Option.bind_some]
      cases hrole : o.role with
      | false => rfl
      | true =>
          have hsame : { o with role := true } = o := by rw [← hrole]
          rw [hsame]
          rfl
  | some v =>
      rw [takeRole, readRole]
      by_cases hv : v = .string "assistant"
      · rw [if_pos hv, if_pos hv, Option.bind_some, if_neg (by simp)]
      · rw [if_neg hv, if_neg hv, Option.bind_none]

theorem takeText_eq (o : Body) (v : Option Json) :
    takeText o v = (readContent v).bind fun content =>
      if (content.join.getD []).length > responseLimit - o.text.length then none
      else some { o with text := o.text ++ content.join.getD [] } := by
  have hempty : some o = if ([] : Text).length > responseLimit - o.text.length then none
      else some { o with text := o.text ++ [] } := by
    rw [if_neg (by simp), List.append_nil]
  cases v with
  | none => exact hempty
  | some v =>
      cases v with
      | null => exact hempty
      | string s =>
          rw [takeText, readContent]
          by_cases hnul : s.contains 0 = true
          · rw [if_pos hnul, if_pos (by rw [hnul]; rfl), Option.bind_none]
          · rw [if_neg hnul, Option.bind_some]
            dsimp only [Option.join_some, Option.getD_some]
            by_cases hlen : s.length > responseLimit - o.text.length
            · rw [if_pos hlen, if_pos (by simp [hlen])]
            · rw [if_neg hlen, if_neg (by simp_all)]
      | _ => rfl

theorem all_of_readContent {v : Option Json} {content : Option (Option Text)}
    (h : readContent v = some content) : v.all (· = .string []) = content.all (· = some []) := by
  cases v with
  | none => cases h; rfl
  | some v =>
      cases v with
      | null => cases h; rfl
      | string s =>
          rw [readContent] at h
          split at h
          next => cases h
          next =>
            cases h
            simp
      | _ => cases h

theorem takeCalls_eq (o : Body) (v : Option Json) :
    takeCalls o v = (readCalls v).map (addCalls o) := by
  cases v with
  | none => rfl
  | some v =>
      cases v with
      | array es =>
          cases es with
          | nil => rfl
          | cons e es =>
              rw [takeCalls, readCalls, Option.map_some, addCalls]
              split <;> rfl
      | _ => rfl

theorem takeFinish_eq (o : Body) (finish native : Option Json) :
    takeFinish o finish native = (readFinish finish).bind fun r =>
      match r with
      | none => some o
      | some tools =>
          if tools ≠ decide (o.toolUsed ≠ 0) then none
          else some { o with toolFinish := tools, native := nativeOf native, finished := true } := by
  cases finish with
  | none => rfl
  | some v =>
      cases v with
      | string s =>
          rw [takeFinish, readFinish]
          by_cases htools : s = "tool_calls"
          · rw [if_pos htools, Option.bind_some, decide_eq_true htools, if_neg (by simp)]
          · rw [if_neg htools, decide_eq_false htools]
            by_cases hstop : s = "stop"
            · rw [if_pos hstop, Option.bind_some, if_neg (by simp [hstop])]
            · rw [if_neg hstop, Option.bind_none, if_pos (by simp [hstop])]
      | _ => rfl

theorem isSome_of_readCalls {v : Option Json} {calls : Option (List Json)}
    (h : readCalls v = some calls) : v.isSome = calls.isSome := by
  cases v with
  | none => cases h; rfl
  | some v =>
      cases v with
      | array es => cases h; rfl
      | _ => cases h

theorem stringIs_of_readFinish {v : Option Json} {finish : Option Bool}
    (h : readFinish v = some finish) (tools : Bool) :
    stringIs v (finishName tools) = decide (finish = some tools) := by
  cases v with
  | none => cases h
  | some v =>
      cases v with
      | null => cases h; cases tools <;> rfl
      | string s =>
          rw [readFinish] at h
          by_cases htools : s = "tool_calls"
          · rw [if_pos htools] at h
            cases h
            rw [htools]
            cases tools <;> decide
          · by_cases hstop : s = "stop"
            · rw [if_neg htools, if_pos hstop] at h
              cases h
              rw [hstop]
              cases tools <;> decide
            · rw [if_neg htools, if_neg hstop] at h
              cases h
      | _ => cases h

theorem takeRepeat_eq (m : Dialect) (o : Body) (usage : Option Json) {c delta : Json} {r : Choice}
    (hcontent : readContent (delta.get? "content") = some r.content)
    (hcalls : readCalls (delta.get? "tool_calls") = some r.calls)
    (hfinish : readFinish (c.get? "finish_reason") = some r.finish)
    (hnative : nativeOf (c.get? "native_finish_reason") = r.native) :
    takeRepeat m o usage c delta =
      if (o.finished && !repeatFits m o (usage.any (usageForm m.strictOpenai)) r) = true then none
      else some { o with accountingTail := o.accountingTail || o.finished } := by
  unfold takeRepeat repeatFits Choice.silent
  rw [stringIs_of_readFinish hfinish, isSome_of_readCalls hcalls, all_of_readContent hcontent,
    hnative]
  cases hfin : o.finished with
  | false =>
      have hsame : { o with accountingTail := o.accountingTail || false, finished := false } = o := by
        rw [Bool.or_false, ← hfin]
      rw [← hfin] at hsame ⊢
      simp_all
  | true => cases htail : o.accountingTail <;> simp_all

theorem takeChoice_eq (m : Dialect) (b : Body) (usage : Option Json) (c delta : Json) :
    takeChoice m b usage c delta =
      (readChoice c delta).bind (stepChoice m b (usage.any (usageForm m.strictOpenai))) := by
  obtain ⟨reasoning, hdetails⟩ := takeDetails_eq b (delta.get? "reasoning_details")
  unfold takeChoice readChoice
  simp only [Option.bind_eq_bind]
  -- a part that cannot be read fails the choice, whatever was taken before it
  cases hrole : readRole (delta.get? "role") with
  | none => simp [takeRole_eq, hrole]
  | some role =>
  cases hcontent : readContent (delta.get? "content") with
  | none => simp [takeRole_eq, takeText_eq, hcontent]
  | some content =>
  cases hcalls : readCalls (delta.get? "tool_calls") with
  | none => simp [takeRole_eq, takeText_eq, takeCalls_eq, hcalls]
  | some calls =>
  cases hfinish : readFinish (c.get? "finish_reason") with
  | none => simp [takeFinish_eq, hfinish]
  | some finish =>
      simp only [Option.bind_some]
      generalize hr : ({ details := delta.get? "reasoning_details", role := role, content := content
                         calls := calls, finish := finish
                         native := nativeOf (c.get? "native_finish_reason") } : Choice) = r
      have hrr : r.role = role := by rw [← hr]
      have hrt : r.text = content.join.getD [] := by rw [← hr]; rfl
      have hfits : repeatFits m { b with reasoning := reasoning }
          (usage.any (usageForm m.strictOpenai)) r =
            repeatFits m b (usage.any (usageForm m.strictOpenai)) r := rfl
      rw [hdetails, takeRepeat_eq m { b with reasoning := reasoning } usage (r := r)
        (by rw [← hr, hcontent]) (by rw [← hr, hcalls]) (by rw [← hr, hfinish]) (by rw [← hr]),
        stepChoice, hfits, hrr, hrt]
      dsimp only
      by_cases hfit : (b.finished && !repeatFits m b
          (usage.any (usageForm m.strictOpenai)) r) = true
      · rw [if_pos hfit, if_pos hfit, Option.bind_none]
      · rw [if_neg hfit, if_neg hfit, Option.bind_some, takeRole_eq, hrole, Option.bind_some]
        dsimp only
        by_cases hassistant : (!b.role && !role) = true
        · rw [if_pos hassistant, if_pos hassistant, Option.bind_none]
        · rw [if_neg hassistant, if_neg hassistant, Option.bind_some, takeText_eq, hcontent,
            Option.bind_some]
          dsimp only
          by_cases hlen : (content.join.getD []).length > responseLimit - b.text.length
          · rw [if_pos hlen, if_pos hlen, Option.bind_none]
          · rw [if_neg hlen, if_neg hlen, Option.bind_some, takeCalls_eq, hcalls,
              Option.map_some, Option.bind_some, takeFinish_eq, hfinish, Option.bind_some,
              addChoice, hrt, ← hr, hdetails]

theorem identity_eq (stored : Option Text) (v : Option Json) :
    identity stored v = (readId v).bind (Register.write stored) := by
  cases v with
  | none => rfl
  | some v =>
      cases v with
      | string s =>
          rw [identity, readId]
          split
          next => rfl
          next => rfl
      | _ => rfl

/-- A usage is reported exactly where one is required: null has no form. -/
theorem any_usageForm {m : Dialect} {root : Json} (h : rootForm m root = true) :
    (root.get? "usage").any (usageForm m.strictOpenai) = (usageAt root).isSome := by
  unfold rootForm at h
  simp only [Bool.and_eq_true] at h
  have husage := h.2
  unfold usageAt
  cases hget : root.get? "usage" with
  | none => rfl
  | some u =>
      rw [hget] at husage
      cases u with
      | null => rfl
      | _ => exact husage

theorem takeChoices_eq {m : Dialect} {root : Json} (h : rootForm m root = true) (b : Body)
    (p : Piece) (husage : p.usage = usageAt root) : takeChoices m b root =
      (readChoices m root).bind fun choice => stepBody m b { p with choice := choice } := by
  unfold takeChoices readChoices
  cases hget : root.get? "choices" with
  | none => rfl
  | some v =>
      cases v with
      | array es =>
          match es with
          | [] =>
              dsimp only
              rw [takeTail, any_usageForm h]
              by_cases hsome : (usageAt root).isSome = true
              · rw [if_pos hsome, Option.bind_some, stepBody]
                dsimp only
                rw [husage, hsome, Option.isNone_eq_false_iff.mpr hsome]
                rfl
              · rw [if_neg hsome, Option.bind_none, if_pos (by simp [hsome])]
          | [c] =>
              dsimp only
              by_cases hform : choiceForm m c = true
              · rw [if_pos hform, if_pos hform, Option.bind_assoc]
                congr 1
                funext delta
                rw [takeChoice_eq, any_usageForm h, Option.bind_map]
                congr 1
                funext r
                show _ = stepChoice m b p.usage.isSome r
                rw [husage]
              · rw [if_neg hform, if_neg hform, Option.bind_none]
          | _ :: _ :: _ => rfl
      | _ => rfl

/-- A chunk is taken exactly when it is admissible by itself and fits the head and the body. -/
theorem chunk_eq (m : Dialect) (o : Content) (root : Json) : chunk m o (some root) =
    (readChunk m root).bind fun p => (stepHead o.toHead p).bind fun head =>
      (stepBody m o.toBody p).map fun body => { toHead := head, toBody := body } := by
  rw [chunk, readChunk]
  by_cases hform : rootForm m root = true
  · by_cases hcached : (usageAt root).any (fun u => u.cached > u.prompt) = true
    · rw [if_neg (by simp [hform]), if_pos (by rw [hcached, Bool.or_true]), Option.bind_none]
      unfold takeEnvelope
      simp only [hcached, if_true, Option.bind_eq_bind, Option.bind_fun_none, Option.bind_none]
    · rw [if_neg (by simp [hform]), if_neg (by simp [hform, hcached])]
      unfold takeEnvelope
      simp only [identity_eq, hcached, Option.bind_eq_bind]
      cases hid : readId (root.get? "id") with
      | none => rfl
      | some id =>
          cases hmodel : readId (root.get? "model") with
          | none => simp
          | some model =>
              cases hprovider : readId (root.get? "provider") with
              | none => simp
              | some provider =>
                  rw [takeChoices_eq hform o.toBody
                    { id := id, model := model, provider := provider
                      created := (root.get? "created").map (integerValue ∘ some)
                      usage := usageAt root, choice := none } rfl]
                  cases hchoices : readChoices m root with
                  | none => simp
                  | some choice => simp [stepHead, Option.bind_assoc]
  · rw [if_pos (by simp [hform]), if_pos (by simp [hform]), Option.bind_none]

/-! ## What the choices add up to -/

/-- The tool call deltas of a choice, if there are some. -/
def Choice.deltas (r : Choice) : Option (List Json) :=
  match r.calls with
  | none | some [] => none
  | some (e :: es) => some (e :: es)

/-- The tool call arrays that are not empty. -/
def arraysOf (cs : List Choice) : List (List Json) := cs.filterMap Choice.deltas

/-- The assembly of all tool call deltas. -/
def assembled (cs : List Choice) : Tools := StreamTools.feeds {} ((arraysOf cs).map Json.array)

/-- The concatenation of all content deltas. -/
def textOf (cs : List Choice) : Text := cs.flatMap Choice.text

/-- What the body holds after some choices. -/
structure Holds (cs : List Choice) (b : Body) : Prop where
  text : b.text = textOf cs
  role : b.role = decide (cs ≠ [])
  used : b.toolUsed = (arraysOf cs).length
  failed : b.toolsFailed = (assembled cs).failed
  tools : b.toolsFailed = false →
    b.tools = if arraysOf cs = [] then none else some (assembled cs)

/-- An accounting after the terminal choice: a usage without a choice or, outside of the strict
dialect, with the terminal choice again and nothing new in it. -/
structure Accounting (m : Dialect) (terminal : Choice) (p : Piece) : Prop where
  usage : p.usage.isSome = true
  again : ∀ r, p.choice = some r → m.strictOpenai = false ∧ r.finish = terminal.finish ∧
    r.calls = none ∧ r.silent = true ∧ r.native = terminal.native

/-- The pieces of a whole response: choices up to a terminal one, then at most one accounting. -/
structure Course (m : Dialect) (opening : List Choice) (terminal : Choice) (tools : Bool)
    (ps : List Piece) : Prop where
  choices : ∃ body tail, ps = body ++ tail ∧
    body.map (·.choice) = (opening ++ [terminal]).map some ∧
    (tail = [] ∨ ∃ p, tail = [p] ∧ Accounting m terminal p)
  unfinished : ∀ c ∈ opening, c.finish = none
  finish : terminal.finish = some tools
  role : (opening ++ [terminal]).head?.any (·.role) = true
  calls : tools = true ↔ arraysOf (opening ++ [terminal]) ≠ []
  text : (textOf (opening ++ [terminal])).length ≤ responseLimit

theorem textOf_concat (cs : List Choice) (r : Choice) : textOf (cs ++ [r]) = textOf cs ++ r.text := by
  simp [textOf]

theorem feeds_concat (s : Tools) (arrays : List Json) (a : Json) :
    StreamTools.feeds s (arrays ++ [a]) = (StreamTools.feed (StreamTools.feeds s arrays) a).1 := by
  unfold StreamTools.feeds
  rw [List.foldl_append]
  rfl

theorem feed_failed {s : Tools} (h : s.failed = true) (a : Json) :
    (StreamTools.feed s a).1.failed = true := by
  unfold StreamTools.feed
  rw [h]
  rfl

theorem feedEntries_failed {seen : List Nat} {s t : Tools} {entries : List Json}
    (h : StreamTools.feedEntries seen s entries = some t) : t.failed = s.failed := by
  induction entries generalizing seen s with
  | nil => rw [← Option.some.inj h]
  | cons entry rest ih =>
      rw [StreamTools.feedEntries] at h
      cases hentry : StreamTools.feedEntry seen s entry with
      | none => rw [hentry] at h; cases h
      | some s' =>
          rw [hentry] at h
          have hsame : s'.failed = s.failed := by
            unfold StreamTools.feedEntry at hentry
            split at hentry
            next =>
              split at hentry
              next =>
                split at hentry
                next => cases hentry
                next =>
                  obtain ⟨_, -, rfl⟩ := Option.map_eq_some_iff.mp hentry
                  rfl
              next => cases hentry
            next => cases hentry
          rw [ih h, hsame]

/-- The answer of a feed is the flag. -/
theorem feed_answer {s : Tools} (h : s.failed = false) (a : Json) :
    (!(StreamTools.feed s a).2) = (StreamTools.feed s a).1.failed := by
  unfold StreamTools.feed
  split
  next => rfl
  next =>
    cases harray : StreamTools.feedArray s a with
    | none => rfl
    | some t =>
        cases a with
        | array entries =>
            rw [StreamTools.feedArray] at harray
            split at harray
            next => cases harray
            next => exact ((feedEntries_failed harray).trans h).symm
        | _ => cases harray

theorem arraysOf_concat (cs : List Choice) (r : Choice) :
    arraysOf (cs ++ [r]) = arraysOf cs ++ r.deltas.toList := by
  unfold arraysOf
  rw [List.filterMap_append]
  congr 1

theorem assembled_concat (cs : List Choice) (r : Choice) : assembled (cs ++ [r]) =
    match r.deltas with
    | none => assembled cs
    | some es => (StreamTools.feed (assembled cs) (.array es)).1 := by
  unfold assembled
  rw [arraysOf_concat]
  cases r.deltas with
  | none => simp
  | some es => simp [feeds_concat]

theorem addCalls_eq (b : Body) (r : Choice) : addCalls b r.calls =
    match r.deltas with
    | none => b
    | some es =>
        if b.toolsFailed then { b with toolUsed := b.toolUsed + 1 }
        else
          let fed := StreamTools.feed (b.tools.getD {}) (.array es)
          { b with tools := some fed.1, toolsFailed := !fed.2, toolUsed := b.toolUsed + 1 } := by
  unfold Choice.deltas
  match r.calls with
  | none => rfl
  | some [] => rfl
  | some (e :: es) => rfl

/-- A choice adds its text and its calls. -/
theorem Holds.addChoice {cs : List Choice} {b : Body} (h : Holds cs b) (r : Choice) :
    Holds (cs ++ [r]) (addChoice b r) := by
  obtain ⟨reasoning, hdetails⟩ := takeDetails_eq b r.details
  unfold ResponseObserver.addChoice
  rw [hdetails, addCalls_eq]
  have htext := textOf_concat cs r
  have harrays := arraysOf_concat cs r
  have hassembled := assembled_concat cs r
  have hne : decide (cs ++ [r] ≠ []) = true := by simp
  cases hdeltas : r.deltas with
  | none =>
      rw [hdeltas] at harrays hassembled
      rw [Option.toList_none, List.append_nil] at harrays
      exact ⟨by rw [htext, ← h.text], hne.symm, by rw [harrays]; exact h.used,
        by rw [hassembled]; exact h.failed, by rw [harrays, hassembled]; exact h.tools⟩
  | some es =>
      rw [hdeltas] at harrays hassembled
      rw [Option.toList_some] at harrays
      have hlen : (arraysOf (cs ++ [r])).length = b.toolUsed + 1 := by
        rw [harrays, List.length_append, h.used]
        rfl
      dsimp only at hassembled ⊢
      by_cases hfailed : b.toolsFailed = true
      · -- a failed assembly gets no more, and would fail again
        rw [if_pos hfailed]
        have hbefore : (assembled cs).failed = true := h.failed ▸ hfailed
        refine ⟨by rw [htext, ← h.text], hne.symm, hlen.symm, ?_, ?_⟩
        · rw [hassembled, feed_failed hbefore]
          exact hfailed
        · exact fun hopen => absurd hfailed (by simp_all)
      · rw [if_neg hfailed]
        have hopen : b.toolsFailed = false := by simpa using hfailed
        have hbefore : (assembled cs).failed = false := h.failed ▸ hopen
        have htools : b.tools.getD {} = assembled cs := by
          rw [h.tools hopen]
          by_cases hnil : arraysOf cs = []
          · rw [if_pos hnil, assembled, hnil]
            rfl
          · rw [if_neg hnil, Option.getD_some]
        refine ⟨by rw [htext, ← h.text], hne.symm, hlen.symm, ?_, ?_⟩
        · dsimp only
          rw [htools, hassembled, feed_answer hbefore]
        · intro _
          dsimp only
          rw [if_neg (by rw [harrays]; simp), htools, hassembled]

/-! ## Phases of the body -/

/-- A choice leaves the terminal fields. -/
theorem addChoice_frame (b : Body) (r : Choice) : (addChoice b r).finished = b.finished ∧
    (addChoice b r).accountingTail = (b.accountingTail || b.finished) := by
  obtain ⟨reasoning, hdetails⟩ := takeDetails_eq b r.details
  unfold addChoice
  rw [hdetails, addCalls_eq]
  cases r.deltas with
  | none => exact ⟨rfl, rfl⟩
  | some es =>
      dsimp only
      split
      next => exact ⟨rfl, rfl⟩
      next => exact ⟨rfl, rfl⟩

/-- Before the terminal choice. -/
structure Opened (cs : List Choice) (b : Body) : Prop where
  holds : Holds cs b
  finished : b.finished = false
  tail : b.accountingTail = false
  limit : (textOf cs).length ≤ responseLimit

/-- From the terminal choice on. -/
structure Ended (cs : List Choice) (terminal : Choice) (tail : Bool) (b : Body) : Prop where
  holds : Holds cs b
  finished : b.finished = true
  tail : b.accountingTail = tail
  limit : (textOf cs).length ≤ responseLimit
  finish : terminal.finish = some b.toolFinish
  calls : b.toolFinish = decide (arraysOf cs ≠ [])
  native : b.native = terminal.native

theorem opened_empty : Opened [] {} :=
  ⟨⟨rfl, rfl, rfl, rfl, fun _ => rfl⟩, rfl, rfl, Nat.zero_le _⟩

theorem used_ne_zero {cs : List Choice} {b : Body} (h : Holds cs b) :
    decide (b.toolUsed ≠ 0) = decide (arraysOf cs ≠ []) := by
  rw [h.used]
  simp

/-- One piece before the terminal choice: a choice, and the role with the first. -/
theorem stepBody_opened {m : Dialect} {cs : List Choice} {b b' : Body} {p : Piece}
    (h : Opened cs b) : stepBody m b p = some b' ↔ ∃ r, p.choice = some r ∧
      (cs ≠ [] ∨ r.role = true) ∧ (textOf (cs ++ [r])).length ≤ responseLimit ∧
      ((r.finish = none ∧ b' = addChoice b r) ∨
        ∃ tools, r.finish = some tools ∧ tools = decide (arraysOf (cs ++ [r]) ≠ []) ∧
          b' = { addChoice b r with toolFinish := tools, native := r.native, finished := true }) := by
  unfold stepBody
  cases hchoice : p.choice with
  | none =>
      dsimp only
      rw [h.finished, Bool.not_false, Bool.true_or, Bool.true_or, if_pos rfl]
      exact ⟨nofun, fun hr => by obtain ⟨r, hr, -⟩ := hr; cases hr⟩
  | some r =>
      dsimp only
      have hadded := h.holds.addChoice r
      have hlimit : r.text.length > responseLimit - b.text.length ↔
          ¬ (textOf (cs ++ [r])).length ≤ responseLimit := by
        have hlen := h.limit
        rw [textOf_concat, List.length_append, h.holds.text]
        omega
      rw [stepChoice, h.finished, Bool.false_and, if_neg nofun]
      by_cases hrole : (!b.role && !r.role) = true
      · rw [if_pos hrole]
        constructor
        · exact nofun
        · intro hr
          obtain ⟨r', hr', hrole', -⟩ := hr
          cases hr'
          rw [h.holds.role] at hrole
          simp_all
      · rw [if_neg hrole]
        have hassistant : cs ≠ [] ∨ r.role = true := by
          rw [h.holds.role] at hrole
          by_cases hcs : cs = []
          · exact .inr (by simp_all)
          · exact .inl hcs
        by_cases hlen : r.text.length > responseLimit - b.text.length
        · rw [if_pos hlen]
          constructor
          · exact nofun
          · intro hr
            obtain ⟨r', hr', -, hle, -⟩ := hr
            cases hr'
            exact absurd hle (hlimit.mp hlen)
        · rw [if_neg hlen]
          have hle := not_not.mp (mt hlimit.mpr hlen)
          dsimp only
          cases hfinish : r.finish with
          | none =>
              constructor
              · exact fun hr => ⟨r, rfl, hassistant, hle, .inl ⟨hfinish, (Option.some.inj hr).symm⟩⟩
              · intro hr
                obtain ⟨r', hr', -, -, hend⟩ := hr
                cases hr'
                cases hend with
                | inl hgo => rw [hgo.2]
                | inr hstop =>
                    obtain ⟨tools, htools, -⟩ := hstop
                    rw [hfinish] at htools
                    cases htools
          | some tools =>
              dsimp only
              rw [used_ne_zero hadded]
              by_cases hcalls : tools = decide (arraysOf (cs ++ [r]) ≠ [])
              · rw [if_neg (not_not.mpr hcalls)]
                constructor
                · exact fun hr => ⟨r, rfl, hassistant, hle,
                    .inr ⟨tools, hfinish, hcalls, (Option.some.inj hr).symm⟩⟩
                · intro hr
                  obtain ⟨r', hr', -, -, hend⟩ := hr
                  cases hr'
                  cases hend with
                  | inl hgo =>
                      rw [hfinish] at hgo
                      cases hgo.1
                  | inr hstop =>
                      obtain ⟨tools', htools', -, rfl⟩ := hstop
                      rw [hfinish] at htools'
                      rw [← Option.some.inj htools']
              · rw [if_pos hcalls]
                constructor
                · exact nofun
                · intro hr
                  obtain ⟨r', hr', -, -, hend⟩ := hr
                  cases hr'
                  cases hend with
                  | inl hgo =>
                      rw [hfinish] at hgo
                      cases hgo.1
                  | inr hstop =>
                      obtain ⟨tools', htools', hcalls', -⟩ := hstop
                      rw [hfinish] at htools'
                      exact absurd (Option.some.inj htools' ▸ hcalls') hcalls

theorem Opened.next {cs : List Choice} {b : Body} (h : Opened cs b) {r : Choice}
    (hlimit : (textOf (cs ++ [r])).length ≤ responseLimit) : Opened (cs ++ [r]) (addChoice b r) where
  holds := h.holds.addChoice r
  finished := (addChoice_frame b r).1.trans h.finished
  tail := by rw [(addChoice_frame b r).2, h.tail, h.finished]; rfl
  limit := hlimit

theorem Opened.ends {cs : List Choice} {b : Body} (h : Opened cs b) {r : Choice}
    (hlimit : (textOf (cs ++ [r])).length ≤ responseLimit) {tools : Bool}
    (hfinish : r.finish = some tools) (hcalls : tools = decide (arraysOf (cs ++ [r]) ≠ [])) :
    Ended (cs ++ [r]) r false
      { addChoice b r with toolFinish := tools, native := r.native, finished := true } where
  holds :=
    have hadded := h.holds.addChoice r
    ⟨hadded.text, hadded.role, hadded.used, hadded.failed, hadded.tools⟩
  finished := rfl
  tail := (h.next hlimit).tail
  limit := hlimit
  finish := hfinish
  calls := hcalls
  native := rfl

/-- After the accounting nothing is taken. -/
theorem stepBody_closed {m : Dialect} {cs : List Choice} {terminal : Choice} {b : Body}
    (h : Ended cs terminal true b) (p : Piece) : stepBody m b p = none := by
  unfold stepBody
  cases p.choice with
  | none =>
      dsimp only
      rw [h.tail, Bool.or_true, Bool.true_or, if_pos rfl]
  | some r =>
      dsimp only
      rw [stepChoice, repeatFits, h.tail, h.finished]
      simp

theorem text_of_silent {r : Choice} (h : r.silent = true) : r.text = [] := by
  unfold Choice.silent at h
  unfold Choice.text
  match hcontent : r.content with
  | none => rfl
  | some none => rfl
  | some (some s) =>
      rw [hcontent] at h
      simpa using h

theorem repeatFits_iff {m : Dialect} {cs : List Choice} {terminal : Choice} {b : Body}
    (h : Ended cs terminal false b) (usage : Bool) (r : Choice) : repeatFits m b usage r = true ↔
      usage = true ∧ m.strictOpenai = false ∧ r.finish = terminal.finish ∧ r.calls = none ∧
        r.silent = true ∧ r.native = terminal.native := by
  unfold repeatFits
  rw [h.tail, h.finish, h.native]
  simp only [Bool.not_false, Bool.and_true, Bool.and_eq_true, Bool.not_eq_true', decide_eq_true_eq,
    Option.isNone_iff_eq_none]
  constructor
  · intro hfits
    obtain ⟨⟨⟨⟨⟨h₁, h₂⟩, h₃⟩, h₄⟩, h₅⟩, h₆⟩ := hfits
    exact ⟨h₂, h₁, h₃, h₄, h₅, h₆.symm⟩
  · intro hfits
    obtain ⟨h₂, h₁, h₃, h₄, h₅, h₆⟩ := hfits
    exact ⟨⟨⟨⟨⟨h₁, h₂⟩, h₃⟩, h₄⟩, h₅⟩, h₆.symm⟩

/-- The repeat of the terminal choice puts nothing into the body. -/
theorem Ended.repeats {cs : List Choice} {terminal r : Choice} {b : Body}
    (h : Ended cs terminal false b) (hcs : cs ≠ []) (hcalls : r.calls = none)
    (hsilent : r.silent = true) : ∃ reasoning, addChoice b r =
      { b with reasoning := reasoning, accountingTail := true } := by
  obtain ⟨reasoning, hdetails⟩ := takeDetails_eq b r.details
  have hrole : b.role = true := by rw [h.holds.role, decide_eq_true hcs]
  refine ⟨reasoning, ?_⟩
  unfold addChoice
  rw [hdetails, hcalls, addCalls, text_of_silent hsilent, h.tail, h.finished, List.append_nil]
  dsimp only
  rw [← hrole]
  rfl

theorem Ended.tailed {cs : List Choice} {terminal : Choice} {b : Body}
    (h : Ended cs terminal false b) (reasoning : Reasoning) :
    Ended cs terminal true { b with reasoning := reasoning, accountingTail := true } where
  holds := ⟨h.holds.text, h.holds.role, h.holds.used, h.holds.failed, h.holds.tools⟩
  finished := h.finished
  tail := rfl
  limit := h.limit
  finish := h.finish
  calls := h.calls
  native := h.native

/-- After the terminal choice an accounting is taken, which changes neither text nor calls. -/
theorem stepBody_ended {m : Dialect} {cs : List Choice} {terminal : Choice} {b : Body}
    (h : Ended cs terminal false b) (hcs : cs ≠ []) (p : Piece) :
    (Accounting m terminal p ∧ ∃ b', stepBody m b p = some b' ∧ Ended cs terminal true b') ∨
      ¬ Accounting m terminal p ∧ stepBody m b p = none := by
  unfold stepBody
  cases hchoice : p.choice with
  | none =>
      dsimp only
      rw [h.finished, h.tail]
      by_cases husage : p.usage.isSome = true
      · refine .inl ⟨⟨husage, fun r hr => by rw [hchoice] at hr; cases hr⟩, _, ?_,
          h.tailed b.reasoning⟩
        rw [if_neg (by simp [Option.isNone_eq_false_iff.mpr husage]), h.finished]
      · refine .inr ⟨fun haccount => husage haccount.usage, ?_⟩
        rw [if_pos (by simpa using husage)]
  | some r =>
      dsimp only
      have hiff := repeatFits_iff (m := m) h p.usage.isSome r
      rw [stepChoice, h.finished, Bool.true_and]
      by_cases hfits : repeatFits m b p.usage.isSome r = true
      · obtain ⟨husage, hstrict, hfinish, hcalls, hsilent, hnative⟩ := hiff.mp hfits
        obtain ⟨reasoning, hadded⟩ := h.repeats hcs hcalls hsilent
        have hrole : b.role = true := by rw [h.holds.role, decide_eq_true hcs]
        have haccount : Accounting m terminal p := by
          refine ⟨husage, fun r' hr => ?_⟩
          rw [hchoice] at hr
          cases hr
          exact ⟨hstrict, hfinish, hcalls, hsilent, hnative⟩
        have hused : b.toolFinish = decide (b.toolUsed ≠ 0) := by
          rw [used_ne_zero h.holds]
          exact h.calls
        refine .inl ⟨haccount, _, ?_, h.tailed reasoning⟩
        rw [if_neg (by simp [hfits]), if_neg (by simp [hrole]), text_of_silent hsilent,
          if_neg (by simp), hadded, hfinish, h.finish]
        dsimp only
        rw [if_neg (not_not.mpr hused), hnative, ← h.native, ← h.finished]
      · refine .inr ⟨?_, by rw [if_pos (by simp [hfits])]⟩
        intro haccount
        exact hfits (hiff.mpr ⟨haccount.usage, haccount.again r hchoice⟩)

/-! ## Runs of pieces -/

theorem foldlM_ended {m : Dialect} {cs : List Choice} {terminal : Choice} {b b' : Body}
    (h : Ended cs terminal false b) (hcs : cs ≠ []) {ps : List Piece} :
    ps.foldlM (stepBody m) b = some b' → (ps = [] ∨ ∃ p, ps = [p] ∧ Accounting m terminal p) ∧
      ∃ tail, Ended cs terminal tail b' := by
  intro hrun
  match ps with
  | [] =>
      rw [List.foldlM_nil] at hrun
      obtain rfl := Option.some.inj hrun
      exact ⟨.inl rfl, false, h⟩
  | p :: rest =>
      rw [List.foldlM_cons] at hrun
      cases stepBody_ended (m := m) h hcs p with
      | inl htaken =>
          obtain ⟨haccount, b₁, hstep, hended⟩ := htaken
          rw [hstep] at hrun
          match rest with
          | [] =>
              obtain rfl := Option.some.inj hrun
              exact ⟨.inr ⟨p, rfl, haccount⟩, true, hended⟩
          | q :: rest =>
              have hclosed : (stepBody m b₁ q).bind (rest.foldlM (stepBody m)) = some b' := hrun
              rw [stepBody_closed hended] at hclosed
              cases hclosed
      | inr hrefused =>
          rw [hrefused.2] at hrun
          cases hrun

/-- A run that finishes had a whole course. -/
theorem course_of_foldlM {m : Dialect} {cs : List Choice} {b b' : Body} {before ps : List Piece}
    (h : Opened cs b) (hbefore : before.map (·.choice) = cs.map some)
    (hunfinished : ∀ c ∈ cs, c.finish = none) (hrole : cs = [] ∨ cs.head?.any (·.role) = true)
    (hrun : ps.foldlM (stepBody m) b = some b') (hfinished : b'.finished = true) :
    ∃ opening terminal tools tail, Course m opening terminal tools (before ++ ps) ∧
      Ended (opening ++ [terminal]) terminal tail b' := by
  induction ps generalizing cs b before with
  | nil =>
      rw [List.foldlM_nil] at hrun
      obtain rfl := Option.some.inj hrun
      rw [h.finished] at hfinished
      cases hfinished
  | cons p ps ih =>
      rw [List.foldlM_cons] at hrun
      obtain ⟨b₁, hstep, hrest⟩ := Option.bind_eq_some_iff.mp hrun
      obtain ⟨r, hchoice, hassistant, hlimit, hend⟩ := (stepBody_opened h).mp hstep
      have hmap : (before ++ [p]).map (·.choice) = (cs ++ [r]).map some := by
        rw [List.map_append, List.map_append, hbefore, List.map_singleton, List.map_singleton,
          hchoice]
      have hhead : (cs ++ [r]).head?.any (·.role) = true := by
        cases cs with
        | nil => exact hassistant.resolve_left (fun hne => hne rfl)
        | cons c cs => exact hrole.resolve_left nofun
      cases hend with
      | inl hgo =>
          obtain ⟨hnone, rfl⟩ := hgo
          have hall : ∀ c ∈ cs ++ [r], c.finish = none := by
            intro c hc
            cases List.mem_append.mp hc with
            | inl hin => exact hunfinished c hin
            | inr hin => rw [List.mem_singleton.mp hin, hnone]
          have hresult := ih (h.next hlimit) hmap hall (.inr hhead) hrest
          rwa [List.append_assoc] at hresult
      | inr hstop =>
          obtain ⟨tools, hfinish, hcalls, rfl⟩ := hstop
          obtain ⟨htail, tail, hended⟩ :=
            foldlM_ended (h.ends hlimit hfinish hcalls) (by simp) hrest
          refine ⟨cs, r, tools, tail, ⟨⟨before ++ [p], ps, by simp, hmap, htail⟩, hunfinished,
            hfinish, hhead, ?_, hlimit⟩, hended⟩
          rw [hcalls, decide_eq_true_eq]

theorem length_textOf_le {cs : List Choice} (more : List Choice) :
    (textOf cs).length ≤ (textOf (cs ++ more)).length := by
  unfold textOf
  rw [List.flatMap_append, List.length_append]
  exact Nat.le_add_right _ _

/-- Choices before the terminal one are all taken. -/
theorem foldlM_opening {m : Dialect} {cs : List Choice} {ps : List Piece}
    (hps : ps.map (·.choice) = cs.map some) (hunfinished : ∀ c ∈ cs, c.finish = none)
    (hrole : cs = [] ∨ cs.head?.any (·.role) = true) (hlimit : (textOf cs).length ≤ responseLimit) :
    ∃ b, ps.foldlM (stepBody m) {} = some b ∧ Opened cs b := by
  induction cs using List.reverseRecOn generalizing ps with
  | nil =>
      obtain rfl := List.map_eq_nil_iff.mp hps
      exact ⟨{}, rfl, opened_empty⟩
  | append_singleton cs r ih =>
      rw [List.map_append, List.map_singleton] at hps
      obtain ⟨qs, tail, rfl, hqs, htail⟩ := List.map_eq_append_iff.mp hps
      obtain ⟨p, rfl, hp⟩ := List.map_eq_singleton_iff.mp htail
      have hfirst : cs = [] ∨ cs.head?.any (·.role) = true := by
        cases cs with
        | nil => exact .inl rfl
        | cons c cs => exact .inr (hrole.resolve_left nofun)
      obtain ⟨b, hrun, hopened⟩ := ih hqs
        (fun c hc => hunfinished c (List.mem_append_left _ hc)) hfirst
        ((length_textOf_le [r]).trans hlimit)
      have hassistant : cs ≠ [] ∨ r.role = true := by
        cases cs with
        | nil => exact .inr (hrole.resolve_left nofun)
        | cons c cs => exact .inl nofun
      refine ⟨addChoice b r, ?_, hopened.next hlimit⟩
      rw [List.foldlM_append, hrun]
      show (stepBody m b p).bind some = _
      rw [(stepBody_opened hopened).mpr ⟨r, hp, hassistant, hlimit,
        .inl ⟨hunfinished r (by simp), rfl⟩⟩]
      rfl

/-- A whole course is taken. -/
theorem foldlM_of_course {m : Dialect} {opening : List Choice} {terminal : Choice} {tools : Bool}
    {ps : List Piece} (h : Course m opening terminal tools ps) :
    ∃ b tail, ps.foldlM (stepBody m) {} = some b ∧ Ended (opening ++ [terminal]) terminal tail b := by
  obtain ⟨body, tail, rfl, hbody, htail⟩ := h.choices
  rw [List.map_append, List.map_singleton] at hbody
  obtain ⟨qs, last, rfl, hqs, hlast⟩ := List.map_eq_append_iff.mp hbody
  obtain ⟨p, rfl, hp⟩ := List.map_eq_singleton_iff.mp hlast
  have hrole := h.role
  have hfirst : opening = [] ∨ opening.head?.any (·.role) = true := by
    cases opening with
    | nil => exact .inl rfl
    | cons c cs => exact .inr hrole
  have hassistant : opening ≠ [] ∨ terminal.role = true := by
    cases opening with
    | nil => exact .inr hrole
    | cons c cs => exact .inl nofun
  obtain ⟨b, hrun, hopened⟩ := foldlM_opening (m := m) hqs h.unfinished hfirst
    ((length_textOf_le [terminal]).trans h.text)
  have hcalls : tools = decide (arraysOf (opening ++ [terminal]) ≠ []) := by
    rw [Bool.eq_iff_iff, h.calls, decide_eq_true_eq]
  have hended := hopened.ends h.text h.finish hcalls
  have hstep := (stepBody_opened (m := m) hopened).mpr
    ⟨terminal, hp, hassistant, h.text, .inr ⟨tools, h.finish, hcalls, rfl⟩⟩
  rw [List.foldlM_append, List.foldlM_append, hrun]
  cases htail with
  | inl hnil =>
      rw [hnil]
      refine ⟨_, false, ?_, hended⟩
      show ((stepBody m b p).bind some).bind some = _
      rw [hstep]
      rfl
  | inr hone =>
      obtain ⟨q, rfl, haccount⟩ := hone
      obtain ⟨-, b', hq, hended'⟩ :=
        (stepBody_ended (m := m) hended (by simp) q).resolve_right fun hno => hno.1 haccount
      refine ⟨b', true, ?_, hended'⟩
      show ((stepBody m b p).bind some).bind (fun b => (stepBody m b q).bind some) = _
      rw [hstep]
      show (stepBody m _ q).bind some = _
      rw [hq]
      rfl

/-! ## Runs of chunks -/

/-- What all chunks that have it agree on. -/
structure Consistent (ps : List Piece) : Prop where
  id : Register.Agree (ps.map (·.id))
  model : Register.Agree (ps.map (·.model))
  provider : Register.Agree (ps.map (·.provider))
  created : Register.Agree (ps.map (·.created))
  usage : Register.Agree (ps.map (·.usage))

theorem foldlM_stepHead {ps : List Piece} {h h' : Head} :
    ps.foldlM stepHead h = some h' ↔
      (ps.map (·.id)).foldlM Register.write h.id = some h'.id ∧
      (ps.map (·.model)).foldlM Register.write h.model = some h'.model ∧
      (ps.map (·.provider)).foldlM Register.write h.provider = some h'.provider ∧
      (ps.map (·.created)).foldlM Register.write h.created = some h'.created ∧
      (ps.map (·.usage)).foldlM Register.write h.usage = some h'.usage := by
  induction ps generalizing h with
  | nil =>
      simp only [List.map_nil, List.foldlM_nil, Option.pure_def, Option.some_inj]
      constructor
      · rintro rfl
        exact ⟨rfl, rfl, rfl, rfl, rfl⟩
      · intro heq
        obtain ⟨id, model, provider, created, usage⟩ := h
        obtain ⟨rfl, rfl, rfl, rfl, rfl⟩ := heq
        rfl
  | cons p ps ih =>
      simp only [List.map_cons, List.foldlM_cons, Option.bind_eq_bind, Option.bind_eq_some_iff]
      constructor
      · intro hrun
        obtain ⟨h₁, hstep, hrest⟩ := hrun
        unfold stepHead at hstep
        simp only [Option.bind_eq_bind, Option.bind_eq_some_iff] at hstep
        obtain ⟨id, hid, model, hmodel, provider, hprovider, created, hcreated, usage, husage,
          hmade⟩ := hstep
        obtain rfl := Option.some.inj hmade
        obtain ⟨h₁, h₂, h₃, h₄, h₅⟩ := ih.mp hrest
        exact ⟨⟨id, hid, h₁⟩, ⟨model, hmodel, h₂⟩, ⟨provider, hprovider, h₃⟩,
          ⟨created, hcreated, h₄⟩, usage, husage, h₅⟩
      · intro hrun
        obtain ⟨⟨id, hid, h₁⟩, ⟨model, hmodel, h₂⟩, ⟨provider, hprovider, h₃⟩,
          ⟨created, hcreated, h₄⟩, usage, husage, h₅⟩ := hrun
        refine ⟨{ id := id, model := model, provider := provider, created := created
                  usage := usage }, ?_, ih.mpr ⟨h₁, h₂, h₃, h₄, h₅⟩⟩
        unfold stepHead
        rw [hid, hmodel, hprovider, hcreated, husage]
        rfl

/-- The heads go through exactly when the chunks agree; the usage kept is the one reported. -/
theorem foldlM_head {ps : List Piece} {h : Head} (hrun : ps.foldlM stepHead {} = some h) :
    Consistent ps ∧ h.usage = Register.first (ps.map (·.usage)) := by
  obtain ⟨h₁, h₂, h₃, h₄, h₅⟩ := foldlM_stepHead.mp hrun
  exact ⟨⟨(Register.foldlM_write.mp h₁).1, (Register.foldlM_write.mp h₂).1,
    (Register.foldlM_write.mp h₃).1, (Register.foldlM_write.mp h₄).1,
    (Register.foldlM_write.mp h₅).1⟩, (Register.foldlM_write.mp h₅).2⟩

theorem foldlM_of_consistent {ps : List Piece} (h : Consistent ps) :
    ∃ head, ps.foldlM stepHead {} = some head :=
  ⟨{ id := _, model := _, provider := _, created := _, usage := _ }, foldlM_stepHead.mpr
    ⟨Register.foldlM_write.mpr ⟨h.id, rfl⟩, Register.foldlM_write.mpr ⟨h.model, rfl⟩,
      Register.foldlM_write.mpr ⟨h.provider, rfl⟩, Register.foldlM_write.mpr ⟨h.created, rfl⟩,
      Register.foldlM_write.mpr ⟨h.usage, rfl⟩⟩⟩

def stepContent (m : Dialect) (o : Content) (p : Piece) : Option Content :=
  (stepHead o.toHead p).bind fun head =>
    (stepBody m o.toBody p).map fun body => { toHead := head, toBody := body }

/-- Head and body do not look at each other. -/
theorem foldlM_stepContent {m : Dialect} {ps : List Piece} {o o' : Content} :
    ps.foldlM (stepContent m) o = some o' ↔ ps.foldlM stepHead o.toHead = some o'.toHead ∧
      ps.foldlM (stepBody m) o.toBody = some o'.toBody := by
  induction ps generalizing o with
  | nil =>
      simp only [List.foldlM_nil, Option.pure_def, Option.some_inj]
      constructor
      · rintro rfl
        exact ⟨rfl, rfl⟩
      · intro heq
        obtain ⟨head, body⟩ := o
        obtain ⟨rfl, rfl⟩ := heq
        rfl
  | cons p ps ih =>
      simp only [List.foldlM_cons, Option.bind_eq_bind, Option.bind_eq_some_iff]
      constructor
      · intro hrun
        obtain ⟨o₁, hstep, hrest⟩ := hrun
        obtain ⟨head, hhead, hmap⟩ := Option.bind_eq_some_iff.mp hstep
        obtain ⟨body, hbody, rfl⟩ := Option.map_eq_some_iff.mp hmap
        obtain ⟨hheads, hbodies⟩ := ih.mp hrest
        exact ⟨⟨head, hhead, hheads⟩, body, hbody, hbodies⟩
      · intro hrun
        obtain ⟨⟨head, hhead, hheads⟩, body, hbody, hbodies⟩ := hrun
        refine ⟨{ toHead := head, toBody := body }, ?_, ih.mpr ⟨hheads, hbodies⟩⟩
        rw [stepContent, hhead, Option.bind_some, hbody]
        rfl

/-! ## Runs of events -/

section Events

variable (m : Dialect) (loader : Loader)

/-- Events one after another, up to a failure. -/
def runEvents (o : Events) (ts : List Text) : Events :=
  ts.foldl (fun o t => if o.failed then o else eventText m loader o t) o

/-- An event that is a chunk of the dialect. -/
def readEvent (t : Text) : Option Piece :=
  if t = "[DONE]" then none else (loader.load t).bind (readChunk m)

variable {m loader}

theorem runEvents_failed {o : Events} (h : o.failed = true) (ts : List Text) :
    runEvents m loader o ts = o := by
  induction ts with
  | nil => rfl
  | cons t ts ih =>
      show runEvents m loader (if o.failed then o else eventText m loader o t) ts = o
      rw [if_pos h, ih]

theorem runEvents_cons {o : Events} (h : o.failed = false) (t : Text) (ts : List Text) :
    runEvents m loader o (t :: ts) = runEvents m loader (eventText m loader o t) ts := by
  show runEvents m loader (if o.failed then o else eventText m loader o t) ts = _
  rw [if_neg (by simp [h])]

theorem eventText_chunk {o : Events} (hdone : o.done = false) {t : Text} (ht : t ≠ "[DONE]") :
    eventText m loader o t =
      match (readEvent m loader t).bind (stepContent m o.content) with
      | some content => { o with content := content }
      | none => { o with failed := true } := by
  unfold eventText readEvent
  rw [if_neg (by simp [hdone]), if_neg ht, if_neg ht]
  cases hload : loader.load t with
  | none => rfl
  | some root =>
      rw [chunk_eq, Option.bind_some]
      rfl

/-- A run ends in the end marker exactly when its events before are chunks that are all taken, with
a terminal choice among them. -/
theorem runEvents_done (m : Dialect) (loader : Loader) {o : Events} {ts : List Text} (hfailed : o.failed = false)
    (hdone : o.done = false) (o' : Events) :
    (runEvents m loader o ts = o' ∧ o'.failed = false ∧ o'.done = true) ↔
      ∃ texts ps content, ts = texts ++ [text "[DONE]"] ∧
        List.Forall₂ (fun t p => readEvent m loader t = some p) texts ps ∧
        ps.foldlM (stepContent m) o.content = some content ∧ content.finished = true ∧
        o' = { o with content := content, done := true } := by
  induction ts generalizing o with
  | nil =>
      constructor
      · intro h
        obtain ⟨rfl, -, hend⟩ := h
        rw [show runEvents m loader o [] = o from rfl, hdone] at hend
        cases hend
      · intro h
        obtain ⟨texts, ps, content, hnil, -⟩ := h
        cases texts <;> cases hnil
  | cons t ts ih =>
      rw [runEvents_cons hfailed]
      by_cases ht : t = "[DONE]"
      · have hmarker : readEvent m loader t = none := by rw [readEvent, if_pos ht]
        rw [eventText, if_neg (by simp [hdone]), if_pos ht]
        by_cases hfinished : o.content.finished = true
        · rw [if_pos hfinished]
          cases ts with
          | nil =>
              constructor
              · intro h
                obtain ⟨rfl, -, -⟩ := h
                exact ⟨[], [], o.content, by rw [ht]; rfl, .nil, rfl, hfinished, rfl⟩
              · intro h
                obtain ⟨texts, ps, content, heq, hread, hrun, -, rfl⟩ := h
                cases texts with
                | nil =>
                    cases hread
                    obtain rfl := Option.some.inj hrun
                    exact ⟨rfl, hfailed, rfl⟩
                | cons t' texts => cases texts <;> cases heq
          | cons t' ts =>
              have hafter : runEvents m loader { o with done := true } (t' :: ts) =
                  { o with done := true, failed := true } := by
                rw [runEvents_cons (o := { o with done := true }) hfailed, eventText, if_pos rfl,
                  runEvents_failed rfl]
              rw [hafter]
              constructor
              · intro h
                obtain ⟨rfl, hno, -⟩ := h
                cases hno
              · intro h
                obtain ⟨texts, ps, content, heq, hread, -⟩ := h
                cases texts with
                | nil => cases heq
                | cons t'' texts =>
                    obtain rfl := (List.cons.inj heq).1
                    cases hread with
                    | cons hfirst _ =>
                        rw [hmarker] at hfirst
                        cases hfirst
        · rw [if_neg hfinished, runEvents_failed rfl]
          constructor
          · intro h
            obtain ⟨rfl, hno, -⟩ := h
            cases hno
          · intro h
            obtain ⟨texts, ps, content, heq, hread, hrun, hend, -⟩ := h
            cases texts with
            | nil =>
                cases hread
                obtain rfl := Option.some.inj hrun
                exact absurd hend hfinished
            | cons t' texts =>
                cases heq
                cases hread with
                | cons hfirst _ =>
                    rw [hmarker] at hfirst
                    cases hfirst
      · rw [eventText_chunk hdone ht]
        cases hstep : (readEvent m loader t).bind (stepContent m o.content) with
        | none =>
            dsimp only
            rw [runEvents_failed rfl]
            constructor
            · intro h
              obtain ⟨rfl, hno, -⟩ := h
              cases hno
            · intro h
              obtain ⟨texts, ps, content, heq, hread, hrun, -, -⟩ := h
              cases texts with
              | nil => exact absurd (List.cons.inj heq).1 ht
              | cons t' texts =>
                  cases heq
                  cases hread with
                  | cons hfirst _ =>
                      rw [List.foldlM_cons] at hrun
                      obtain ⟨_, htaken, -⟩ := Option.bind_eq_some_iff.mp hrun
                      rw [hfirst, Option.bind_some, htaken] at hstep
                      cases hstep
        | some content₁ =>
            dsimp only
            obtain ⟨p, hp, htaken⟩ := Option.bind_eq_some_iff.mp hstep
            rw [ih (o := { o with content := content₁ }) hfailed hdone]
            constructor
            · intro h
              obtain ⟨texts, ps, content, rfl, hread, hrun, hend, rfl⟩ := h
              refine ⟨t :: texts, p :: ps, content, rfl, .cons hp hread, ?_, hend, rfl⟩
              rw [List.foldlM_cons, Option.bind_eq_bind, htaken]
              exact hrun
            · intro h
              obtain ⟨texts, ps, content, heq, hread, hrun, hend, rfl⟩ := h
              cases texts with
              | nil => exact absurd (List.cons.inj heq).1 ht
              | cons t' texts =>
                  cases heq
                  cases hread with
                  | cons hfirst hrest =>
                      rw [hp] at hfirst
                      obtain rfl := Option.some.inj hfirst
                      rw [List.foldlM_cons, Option.bind_eq_bind, htaken] at hrun
                      exact ⟨texts, _, content, rfl, hrest, hrun, hend, rfl⟩

end Events

/-! ## Valid texts -/

mutual

/-- Every string of a value is valid UTF-8. -/
def utf8Strings : Json → Bool
  | .string s => utf8 s
  | .array xs => utf8Array xs
  | .object ms => utf8Object ms
  | _ => true

def utf8Array : List Json → Bool
  | [] => true
  | x :: xs => utf8Strings x && utf8Array xs

def utf8Object : List (Text × Json) → Bool
  | [] => true
  | (_, x) :: ms => utf8Strings x && utf8Object ms

end

/-- The reader checks the encoding. -/
def Decodes (loader : Loader) : Prop := ∀ t v, loader.load t = some v → utf8Strings v = true

theorem utf8Strings_get {v x : Json} {k : Text} (h : utf8Strings v = true)
    (hget : v.get? k = some x) : utf8Strings x = true := by
  cases v with
  | object ms =>
      rw [utf8Strings] at h
      rw [Json.get?] at hget
      induction ms with
      | nil => cases hget
      | cons member ms ih =>
          obtain ⟨name, y⟩ := member
          rw [utf8Object, Bool.and_eq_true] at h
          rw [List.lookup_cons] at hget
          split at hget
          next => rw [← Option.some.inj hget]; exact h.1
          next => exact ih h.2 hget
  | _ => cases hget

theorem utf8Strings_element {v x : Json} (h : utf8Strings v = true) (hx : x ∈ v.elements) :
    utf8Strings x = true := by
  cases v with
  | array xs =>
      rw [utf8Strings] at h
      rw [Json.elements] at hx
      induction xs with
      | nil => cases hx
      | cons y xs ih =>
          rw [utf8Array, Bool.and_eq_true] at h
          cases List.mem_cons.mp hx with
          | inl heq => rw [heq]; exact h.1
          | inr hin => exact ih h.2 hin
  | _ => cases hx

theorem utf8_append {a b : Text} (ha : utf8 a = true) (hb : utf8 b = true) :
    utf8 (a ++ b) = true := by
  fun_induction utf8 a with
  | case1 => exact hb
  | case2 x rest h ih =>
      rw [List.cons_append, utf8.eq_def]
      simp only [h, if_true]
      exact ih ha
  | case3 => cases ha
  | case4 x hx y rest h ih =>
      rw [Bool.and_eq_true] at ha
      rw [List.cons_append, List.cons_append, utf8.eq_def]
      simp only [hx, h, if_true, if_false, ha.1, ih ha.2, Bool.and_self]
  | case5 => cases ha
  | case6 x hx y hy z rest h ih =>
      simp only [Bool.and_eq_true] at ha
      rw [List.cons_append, List.cons_append, List.cons_append, utf8.eq_def]
      simp only [hx, hy, h, if_true, if_false, ih ha.2]
      simpa using ha.1
  | case7 => cases ha
  | case8 x hx y hy z hz w rest ih =>
      simp only [Bool.and_eq_true] at ha
      rw [List.cons_append, List.cons_append, List.cons_append, List.cons_append, utf8.eq_def]
      simp only [hx, hy, hz, if_false, ih ha.2]
      simpa using ha.1

/-- Each piece was read of an event. -/
theorem readEvent_of_mem {m : Dialect} {loader : Loader} {texts : List Text} {ps : List Piece}
    (h : List.Forall₂ (fun t p => readEvent m loader t = some p) texts ps) {p : Piece}
    (hp : p ∈ ps) : ∃ t, readEvent m loader t = some p := by
  induction h with
  | nil => cases hp
  | cons hfirst _ ih =>
      cases List.mem_cons.mp hp with
      | inl heq => exact ⟨_, heq ▸ hfirst⟩
      | inr hin => exact ih hin

/-- The text of a choice is a string of the chunk. -/
theorem utf8_of_readEvent {m : Dialect} {loader : Loader} (hloader : Decodes loader) {t : Text}
    {p : Piece} {r : Choice} (hread : readEvent m loader t = some p) (hchoice : p.choice = some r) :
    utf8 r.text = true := by
  unfold readEvent at hread
  split at hread
  next => cases hread
  next =>
    obtain ⟨root, hload, hchunk⟩ := Option.bind_eq_some_iff.mp hread
    have hroot := hloader t root hload
    unfold readChunk at hchunk
    split at hchunk
    next => cases hchunk
    next =>
      simp only [Option.bind_eq_bind, Option.bind_eq_some_iff] at hchunk
      obtain ⟨_, -, _, -, _, -, choice, hchoices, hmade⟩ := hchunk
      obtain rfl := Option.some.inj hmade
      dsimp only at hchoice
      rw [hchoice] at hchoices
      unfold readChoices at hchoices
      split at hchoices
      next => split at hchoices <;> cases hchoices
      next c hget =>
        split at hchoices
        next =>
          obtain ⟨delta, hdelta, hmap⟩ := Option.bind_eq_some_iff.mp hchoices
          obtain ⟨r', hr, hsame⟩ := Option.map_eq_some_iff.mp hmap
          obtain rfl := Option.some.inj hsame
          have hc := utf8Strings_element (utf8Strings_get hroot hget) (x := c) (by simp [Json.elements])
          have hvalid := utf8Strings_get hc hdelta
          unfold readChoice at hr
          simp only [Option.bind_eq_bind, Option.bind_eq_some_iff] at hr
          obtain ⟨_, -, content, hcontent, _, -, _, -, hmade⟩ := hr
          obtain rfl := Option.some.inj hmade
          show utf8 (content.join.getD []) = true
          unfold readContent at hcontent
          split at hcontent
          next => cases hcontent; rfl
          next => cases hcontent; rfl
          next s hs =>
            split at hcontent
            next => cases hcontent
            next =>
              obtain rfl := Option.some.inj hcontent
              exact utf8Strings_get hvalid hs
          next => cases hcontent
        next => cases hchoices
      next => cases hchoices

theorem utf8_textOf {cs : List Choice} (h : ∀ c ∈ cs, utf8 c.text = true) :
    utf8 (textOf cs) = true := by
  induction cs with
  | nil => rfl
  | cons c cs ih =>
      rw [List.forall_mem_cons] at h
      show utf8 (c.text ++ textOf cs) = true
      exact utf8_append h.1 (ih h.2)

/-! ## Acceptance -/

/-- The message of a response from all its choices. -/
def Answer (dumps : Json → Option Text) (cs : List Choice) (tools : Bool) (v : Json) : Prop :=
  if tools then
    ∃ calls, StreamTools.snapshot dumps (assembled cs) = some calls ∧
      v = messageJson (textOf cs) (some calls) ∧
      (dumps v).any (·.length ≤ StreamTools.maxBytes) = true
  else v = messageJson (textOf cs) none

/-- What the body of a complete response gives. -/
theorem message_ended {dumps : Json → Option Text} {cs : List Choice} {terminal : Choice}
    {tail : Bool} {o : Decoder} (h : Ended cs terminal tail o.content.toBody)
    (hcomplete : complete o = true) (hutf : utf8 (textOf cs) = true) (v : Json) :
    message dumps o = some v ↔ Answer dumps cs o.content.toolFinish v := by
  unfold message Answer
  rw [hcomplete, h.holds.text, hutf]
  simp only [Bool.not_true, Bool.or_self, Bool.false_eq_true, if_false]
  cases htools : o.content.toolFinish with
  | false =>
      simp only [Bool.not_false, if_true, Option.some_inj, Bool.false_eq_true, if_false]
      exact eq_comm
  | true =>
      simp only [Bool.not_true, Bool.false_eq_true, if_false, if_true]
      have harrays : arraysOf cs ≠ [] := by
        have hcalls := h.calls
        rw [htools] at hcalls
        exact of_decide_eq_true hcalls.symm
      cases hfailed : o.content.toolsFailed with
      | true =>
          have hassembled : (assembled cs).failed = true := h.holds.failed ▸ hfailed
          have hnone : StreamTools.snapshot dumps (assembled cs) = none := by
            unfold StreamTools.snapshot
            rw [hassembled]
            rfl
          rw [hnone]
          exact ⟨nofun, fun ⟨_, hcalls, _⟩ => nomatch hcalls⟩
      | false =>
          have hsome : o.content.tools = some (assembled cs) := by
            rw [h.holds.tools hfailed, if_neg harrays]
          rw [hsome, if_neg nofun, Option.bind_some]
          cases hsnapshot : StreamTools.snapshot dumps (assembled cs) with
          | none => exact ⟨nofun, fun ⟨_, hcalls, _⟩ => nomatch hcalls⟩
          | some calls =>
              dsimp only
              by_cases hlen : (dumps (messageJson (textOf cs) (some calls))).any
                  (·.length ≤ StreamTools.maxBytes) = true
              · rw [if_pos hlen, Option.some_inj]
                constructor
                · rintro rfl
                  exact ⟨calls, rfl, rfl, hlen⟩
                · intro hanswer
                  obtain ⟨calls', hcalls, rfl, -⟩ := hanswer
                  rw [Option.some.inj hcalls]
              · rw [if_neg hlen]
                constructor
                · exact nofun
                · intro hanswer
                  obtain ⟨calls', hcalls, rfl, hshort⟩ := hanswer
                  obtain rfl := Option.some.inj hcalls
                  exact absurd hshort hlen

theorem Ended.tools_eq {m : Dialect} {opening : List Choice} {terminal : Choice} {tools tail : Bool}
    {ps : List Piece} {b : Body} (h : Ended (opening ++ [terminal]) terminal tail b)
    (hcourse : Course m opening terminal tools ps) : b.toolFinish = tools := by
  have hfinish := h.finish
  rw [hcourse.finish] at hfinish
  exact (Option.some.inj hfinish).symm

/-- A complete response was a run of admissible chunks with a whole course. -/
theorem course_of_complete {m : Dialect} {loader : Loader} {ts : List Text} {pending line : Text}
    {cr : Bool} {o : Decoder}
    (ho : o = { toEvents := { runEvents m loader {} ts with event := pending }, line := line
                cr := cr })
    (hcomplete : complete o = true) :
    pending = [] ∧ line = [] ∧ ∃ texts ps opening terminal tools tail,
      ts = texts ++ [text "[DONE]"] ∧
      List.Forall₂ (fun t p => readEvent m loader t = some p) texts ps ∧ Consistent ps ∧
      Course m opening terminal tools ps ∧
      Ended (opening ++ [terminal]) terminal tail o.content.toBody ∧
      ps.foldlM (stepBody m) {} = some o.content.toBody ∧
      o.content.usage = Register.first (ps.map (·.usage)) := by
  unfold complete at hcomplete
  simp only [Bool.and_eq_true, Bool.not_eq_true', decide_eq_true_eq] at hcomplete
  obtain ⟨⟨⟨⟨⟨hfailed, hdone⟩, hfinished⟩, -⟩, hline⟩, hevent⟩ := hcomplete
  subst ho
  obtain ⟨texts, ps, content, hts, hread, hrun, -, hstate⟩ :=
    (runEvents_done m loader (o := {}) rfl rfl _).mp ⟨rfl, hfailed, hdone⟩
  have hcontent : (runEvents m loader {} ts).content = content := by rw [hstate]
  obtain ⟨hhead, hbody⟩ := foldlM_stepContent.mp hrun
  obtain ⟨hconsistent, hregister⟩ := foldlM_head hhead
  dsimp only at hfinished ⊢
  rw [hcontent] at hfinished ⊢
  obtain ⟨opening, terminal, tools, tail, hcourse, hended⟩ := @course_of_foldlM _ _ _ _ [] _
    opened_empty rfl nofun (.inl rfl) hbody hfinished
  exact ⟨hevent, hline, texts, ps, opening, terminal, tools, tail, hts, hread, hconsistent,
    hcourse, hended, hbody, hregister⟩

/-- A run of admissible chunks with a whole course is a complete response. -/
theorem complete_of_course {m : Dialect} {loader : Loader} {ts texts : List Text} {ps : List Piece}
    {opening : List Choice} {terminal : Choice} {tools : Bool} (cr : Bool)
    (hts : ts = texts ++ [text "[DONE]"])
    (hread : List.Forall₂ (fun t p => readEvent m loader t = some p) texts ps)
    (hconsistent : Consistent ps) (hcourse : Course m opening terminal tools ps) {o : Decoder}
    (ho : o = { toEvents := { runEvents m loader {} ts with event := [] }, line := [], cr := cr }) :
    complete o = true ∧
      (∃ tail, Ended (opening ++ [terminal]) terminal tail o.content.toBody) ∧
      ps.foldlM (stepBody m) {} = some o.content.toBody ∧
      o.content.usage = Register.first (ps.map (·.usage)) := by
  obtain ⟨head, hhead⟩ := foldlM_of_consistent hconsistent
  obtain ⟨body, tail, hbody, hended⟩ := foldlM_of_course hcourse
  have hrun : ps.foldlM (stepContent m) {} = some { toHead := head, toBody := body } :=
    foldlM_stepContent.mpr ⟨hhead, hbody⟩
  obtain ⟨hstate, hfailed, hdone⟩ :=
    (@runEvents_done m loader {} ts rfl rfl _).mpr
      ⟨texts, ps, _, hts, hread, hrun, hended.finished, rfl⟩
  have hcontent : o.content = { toHead := head, toBody := body } := by
    subst ho
    show (runEvents m loader {} ts).content = _
    rw [hstate]
  have hrole : body.role = true := by rw [hended.holds.role]; simp
  rw [hcontent]
  refine ⟨?_, ⟨tail, hended⟩, hbody, (foldlM_head hhead).2⟩
  unfold complete
  rw [hcontent]
  subst ho
  show (!(runEvents m loader {} ts).failed && (runEvents m loader {} ts).done && body.finished &&
    body.role && decide (([] : Text) = []) && decide (([] : Text) = [])) = true
  rw [hstate, hended.finished, hrole]
  rfl

/-- An event sequence gives a message exactly when it is a run of admissible chunks that agree on
identity, creation and usage, with the role in the first choice, up to a terminal choice that fits
the tool calls, then at most one accounting, then the end marker, and nothing is left over.  The
message is the concatenation of the texts and the assembly of the calls, both of the choices up to
the terminal one; the usage is the one reported. -/
theorem acceptance_exact (m : Dialect) (loader : Loader) (dumps : Json → Option Text)
    (hloader : Decodes loader) (ts : List Text) (pending line : Text) (cr : Bool) (v : Json)
    (u : Option Usage) :
    let o : Decoder :=
      { toEvents := { runEvents m loader {} ts with event := pending }, line := line, cr := cr }
    (message dumps o = some v ∧ o.content.usage = u) ↔ pending = [] ∧ line = [] ∧
      ∃ texts ps opening terminal tools, ts = texts ++ [text "[DONE]"] ∧
        List.Forall₂ (fun t p => readEvent m loader t = some p) texts ps ∧ Consistent ps ∧
        Course m opening terminal tools ps ∧ Answer dumps (opening ++ [terminal]) tools v ∧
        u = Register.first (ps.map (·.usage)) := by
  intro o
  have hutf {texts : List Text} {ps : List Piece} {opening : List Choice} {terminal : Choice}
      {tools : Bool} (hread : List.Forall₂ (fun t p => readEvent m loader t = some p) texts ps)
      (hcourse : Course m opening terminal tools ps) :
      utf8 (textOf (opening ++ [terminal])) = true := by
    refine utf8_textOf ?_
    intro r hr
    obtain ⟨body, tail, rfl, hbody, -⟩ := hcourse.choices
    have hsome : some r ∈ body.map (·.choice) := by
      rw [hbody]
      exact List.mem_map_of_mem hr
    obtain ⟨p, hp, hchoice⟩ := List.mem_map.mp hsome
    obtain ⟨t, ht⟩ := readEvent_of_mem hread (List.mem_append_left tail hp)
    exact utf8_of_readEvent hloader ht hchoice
  constructor
  · intro h
    obtain ⟨hmessage, husage⟩ := h
    have hcomplete : complete o = true := by
      cases hc : complete o with
      | true => rfl
      | false =>
          unfold message at hmessage
          rw [hc] at hmessage
          cases hmessage
    obtain ⟨hevent, hline, texts, ps, opening, terminal, tools, tail, hts, hread, hconsistent,
      hcourse, hended, -, hregister⟩ := course_of_complete (o := o) rfl hcomplete
    have hanswer := (message_ended hended hcomplete (hutf hread hcourse) v).mp hmessage
    rw [hended.tools_eq hcourse] at hanswer
    refine ⟨hevent, hline, texts, ps, opening, terminal, tools, hts, hread, hconsistent, hcourse,
      hanswer, ?_⟩
    rw [← husage, hregister]
  · intro h
    obtain ⟨rfl, rfl, texts, ps, opening, terminal, tools, hts, hread, hconsistent, hcourse,
      hanswer, husage⟩ := h
    obtain ⟨hcomplete, ⟨tail, hended⟩, -, hregister⟩ :=
      complete_of_course (o := o) cr hts hread hconsistent hcourse rfl
    refine ⟨(message_ended hended hcomplete (hutf hread hcourse) v).mpr ?_, ?_⟩
    · rw [hended.tools_eq hcourse]
      exact hanswer
    · rw [husage, hregister]

theorem acceptance_exact_sample :
    let o : Decoder :=
      { toEvents := { runEvents {} greetingLoader {} [greetingText, text "[DONE]"] with event := [] }
        line := [], cr := false }
    message (fun _ => none) o = some (messageJson greetingWord none) ∧ o.content.usage = none := by
  let terminal : Choice :=
    { details := none, role := true, content := some (some greetingWord), calls := none
      finish := some false, native := {} }
  have hloader : Decodes greetingLoader := by
    intro t v h
    have h' : (if squeeze .outside false t = squeeze .outside false greetingText then some greeting
      else none) = some v := h
    split at h'
    next =>
      rw [← Option.some.inj h']
      decide +kernel
    next => cases h'
  refine (acceptance_exact {} greetingLoader (fun _ => none) hloader [greetingText, text "[DONE]"]
    [] [] false (messageJson greetingWord none) none).mpr ⟨rfl, rfl, [greetingText], [⟨none, none, none,
      none, none, some terminal⟩], [], terminal, false, rfl, ?_, ?_, ?_, rfl, rfl⟩
  · exact .cons (by decide +kernel) .nil
  · exact ⟨by simp [Register.Agree], by simp [Register.Agree], by simp [Register.Agree],
      by simp [Register.Agree], by simp [Register.Agree]⟩
  · exact ⟨⟨_, [], (List.append_nil _).symm, rfl, .inl rfl⟩, nofun, rfl, rfl, by decide +kernel,
      by decide +kernel⟩

/-! ### Two identities -/

def mixedFirst : Text :=
  text "\x7b\"id\":\"a\",\"choices\":[\x7b\"index\":0,\"delta\":\x7b\"role\":\"assistant\",\"content\":" ++
    text "\"hi\"\x7d,\"finish_reason\":null\x7d]\x7d"

def mixedSecond : Text :=
  text "\x7b\"id\":\"b\",\"choices\":[\x7b\"index\":0,\"delta\":\x7b\x7d,\"finish_reason\":\"stop\"\x7d]\x7d"

/-- A loader of the two chunks. -/
def mixedLoader : Loader where
  load t :=
    if t = mixedFirst then
      some (.object [("id", .string "a"), ("choices", .array [.object [("index", .integer 0),
        ("delta", .object [("role", .string "assistant"), ("content", .string "hi")]),
        ("finish_reason", .null)]])])
    else if t = mixedSecond then
      some (.object [("id", .string "b"), ("choices", .array [.object [("index", .integer 0),
        ("delta", .object []), ("finish_reason", .string "stop")]])])
    else none
  proper := by
    intro t v h
    split at h
    next => rw [← Option.some.inj h]; decide +kernel
    next =>
      split at h
      next => rw [← Option.some.inj h]; decide +kernel
      next => cases h

/-- Each chunk is admissible and the order is right, but the two name different responses. -/
theorem mixed_identity_refused :
    let first : Choice :=
      { details := none, role := true, content := some (some "hi"), calls := none, finish := none
        native := {} }
    let last : Choice :=
      { details := none, role := false, content := none, calls := none, finish := some false
        native := {} }
    let o : Decoder :=
      { toEvents := runEvents {} mixedLoader {} [mixedFirst, mixedSecond, text "[DONE]"] }
    readEvent {} mixedLoader mixedFirst =
        some ⟨some "a", none, none, none, none, some first⟩ ∧
      readEvent {} mixedLoader mixedSecond = some ⟨some "b", none, none, none, none, some last⟩ ∧
      Course {} [first] last false [⟨some "a", none, none, none, none, some first⟩,
        ⟨some "b", none, none, none, none, some last⟩] ∧
      o.event = [] ∧ o.line = [] ∧ message (fun _ => none) o = none := by
  intro first last o
  refine ⟨by decide +kernel, by decide +kernel, ?_, by decide +kernel, rfl, by decide +kernel⟩
  exact ⟨⟨_, [], (List.append_nil _).symm, rfl, .inl rfl⟩, by decide +kernel, rfl, rfl,
    by decide +kernel, by decide +kernel⟩

end Recursant.ResponseObserver
