import Recursant.Compliance.Gate

/-!
# What a scan demands

The budgets of a scan are shared by the whole walk, but whether it passes them depends only on the
total: the demand of a body is what its unbudgeted walk would add to the counters, and `⊤` when some
text fails for a reason of its own.
-/

namespace Recursant.Compliance

open Metered

/-! ## Counters as an ordered monoid -/

namespace Counters

instance : Zero Counters := ⟨⟨0, 0, 0⟩⟩

instance : Add Counters :=
  ⟨fun a b => ⟨a.nodes + b.nodes, a.bytes + b.bytes, a.matched + b.matched⟩⟩

instance : LE Counters :=
  ⟨fun a b => a.nodes ≤ b.nodes ∧ a.bytes ≤ b.bytes ∧ a.matched ≤ b.matched⟩

theorem le_def {a b : Counters} :
    a ≤ b ↔ a.nodes ≤ b.nodes ∧ a.bytes ≤ b.bytes ∧ a.matched ≤ b.matched := Iff.rfl

@[simp] theorem nodes_zero : (0 : Counters).nodes = 0 := rfl
@[simp] theorem bytes_zero : (0 : Counters).bytes = 0 := rfl
@[simp] theorem matched_zero : (0 : Counters).matched = 0 := rfl
@[simp] theorem nodes_add (a b : Counters) : (a + b).nodes = a.nodes + b.nodes := rfl
@[simp] theorem bytes_add (a b : Counters) : (a + b).bytes = a.bytes + b.bytes := rfl
@[simp] theorem matched_add (a b : Counters) : (a + b).matched = a.matched + b.matched := rfl

instance : AddCommMonoid Counters where
  nsmul := nsmulRec
  add_assoc a b c := by ext <;> simp [Nat.add_assoc]
  zero_add a := by ext <;> simp
  add_zero a := by ext <;> simp
  add_comm a b := by ext <;> simp [Nat.add_comm]

instance : PartialOrder Counters where
  le_refl a := ⟨le_rfl, le_rfl, le_rfl⟩
  le_trans a b c hab hbc :=
    ⟨hab.1.trans hbc.1, hab.2.1.trans hbc.2.1, hab.2.2.trans hbc.2.2⟩
  le_antisymm a b hab hba := by
    ext
    · exact le_antisymm hab.1 hba.1
    · exact le_antisymm hab.2.1 hba.2.1
    · exact le_antisymm hab.2.2 hba.2.2

instance : CanonicallyOrderedAdd Counters where
  exists_add_of_le {a b} h := by
    rw [le_def] at h
    refine ⟨⟨b.nodes - a.nodes, b.bytes - a.bytes, b.matched - a.matched⟩, ?_⟩
    ext
    · show b.nodes = a.nodes + (b.nodes - a.nodes)
      omega
    · show b.bytes = a.bytes + (b.bytes - a.bytes)
      omega
    · show b.matched = a.matched + (b.matched - a.matched)
      omega
  le_add_self a b := by
    rw [le_def, nodes_add, bytes_add, matched_add]
    omega
  le_self_add a b := by
    rw [le_def, nodes_add, bytes_add, matched_add]
    omega

end Counters

def limits : Counters := ⟨maxNodes, maxScanBytes, maxMatches⟩

def oneNode : Counters := ⟨1, 0, 0⟩

def oneMatch : Counters := ⟨0, 0, 1⟩

def ofBytes (n : Nat) : Counters := ⟨0, n, 0⟩

/-! ## Demand -/

/-- Nothing when the condition holds, everything when it does not. -/
def permit (b : Bool) : WithTop Counters := if b then 0 else ⊤

variable (r : Runtime) (p : Policy)

def ruleDemand (t : Text) (rule : Text → RuleResult) : WithTop Counters :=
  oneMatch + (permit (rule t ≠ .found) + permit (rule t ≠ .error))

def rulesDemand (t : Text) : WithTop Counters :=
  (p.rules.map (ruleDemand t)).sum + permit (!p.identifiers.any (· t))

def escapedDemand (t : Text) : WithTop Counters :=
  if t.contains 92 then ofBytes t.length + rulesDemand p (unescape t) else 0

/-- What the second pass over a text asks for: the value it decodes to, or its escapes. -/
def decodedDemand (nested : Json → WithTop Counters) (t : Text) : WithTop Counters :=
  if looksLikeJson t then
    match r.jansson.loadb t with
    | none => if r.agentText then escapedDemand p t else ⊤
    | some v => nested v
  else if r.agentText then escapedDemand p t
  else 0

def mediaFree (t : Text) : Bool := if r.agentText then !base64DataUri t else !remoteMedia t

def textDemand (nested : Json → WithTop Counters) (t : Text) : WithTop Counters :=
  permit (!t.contains 0) + (ofBytes t.length + (rulesDemand p t +
    (permit (mediaFree r t) + decodedDemand r p nested t)))

/-- The demand of a body with the given room below it. -/
def demand : Nat → Json → WithTop Counters
  | 0, _ => ⊤
  | room + 1, v => oneNode +
      match v with
      | .string t => textDemand r p (demand room) t
      | .array elements => (elements.map (demand room)).sum
      | .object members => (members.map fun (key, child) =>
          (match room with
          | 0 => ⊤
          | below + 1 => textDemand r p (demand below) key) +
          (if exempt r p key child then 0 else demand room child)).sum
      | scalar =>
          match r.jansson.dumps scalar with
          | none => ⊤
          | some t => textDemand r p (demand room) t

/-! ## The scan meets its demand -/

theorem countNode_demands : Demands limits countNode (oneNode : WithTop Counters) := by
  refine demands_capped (P := fun s => s.nodes + 1 > maxNodes) (fun _ => rfl) ?_ ?_
  all_goals
    intro s
    simp [Counters.le_def, limits, oneNode]
    omega

theorem countMatch_demands : Demands limits countMatch (oneMatch : WithTop Counters) := by
  refine demands_capped (P := fun s => s.matched + 1 > maxMatches) (fun _ => rfl) ?_ ?_
  · intro s
    simp [Counters.le_def, limits, oneMatch]
  · intro s
    simp [Counters.le_def, limits, oneMatch]
    omega

theorem takeBytes_demands (n : Nat) : Demands limits (takeBytes n) (ofBytes n : WithTop Counters) := by
  refine demands_capped (P := fun s => n > maxScanBytes - s.bytes) (g := id) (fun _ => rfl) ?_ ?_
  all_goals
    intro s
    simp [Counters.le_def, limits, ofBytes]
    omega

theorem require_demands (b : Bool) (otherwise : Veto) :
    Demands limits (require b otherwise) (permit b) :=
  demands_ite (b = true) (fun _ => demands_pure) (fun _ => demands_throw otherwise)

theorem matchRule_demands (t : Text) (rule : Text → RuleResult) :
    Demands limits (matchRule t rule) (ruleDemand t rule) :=
  countMatch_demands.seq ((require_demands _ _).seq (require_demands _ _))

theorem rules_demands (t : Text) : Demands limits (rules p t) (rulesDemand p t) :=
  (demands_forM p.rules fun rule _ => matchRule_demands t rule).seq (require_demands _ _)

theorem escapedRules_demands (t : Text) :
    Demands limits (escapedRules p t) (escapedDemand p t) := by
  exact demands_ite _ (fun _ => (takeBytes_demands _).seq (rules_demands p _))
    fun _ => demands_pure

variable {r p} in
theorem textScan_demands {nested : Json → Scan} {nestedDemand : Json → WithTop Counters}
    (hnested : ∀ v, Demands limits (nested v) (nestedDemand v)) (t : Text) :
    Demands limits (textScan r p nested t) (textDemand r p nestedDemand t) := by
  refine (require_demands _ _).seq ((takeBytes_demands _).seq ((rules_demands p t).seq ?_))
  have hmedia : Demands limits (require (if r.agentText then !base64DataUri t
      else !remoteMedia t) .unknown) (permit (mediaFree r t)) := require_demands _ _
  refine hmedia.seq ?_
  unfold decodedDemand
  refine demands_ite _ (fun _ => ?_)
    fun _ => demands_ite _ (fun _ => escapedRules_demands p t) fun _ => demands_pure
  cases r.jansson.loadb t with
  | none => exact demands_ite _ (fun _ => escapedRules_demands p t) fun _ => demands_throw _
  | some v => exact hnested v

variable {r p} in
theorem scalarScan_demands {nested : Json → Scan} {nestedDemand : Json → WithTop Counters}
    (hnested : ∀ v, Demands limits (nested v) (nestedDemand v)) (written : Option Text) :
    Demands limits
      (match written with
      | none => throw .unknown
      | some t => textScan r p nested t)
      (match written with
      | none => ⊤
      | some t => textDemand r p nestedDemand t) := by
  cases written with
  | none => exact demands_throw _
  | some t => exact textScan_demands hnested t

theorem scan_demands : ∀ room v, Demands limits (scan r p room v) (demand r p room v)
  | 0, v => demands_throw _
  | room + 1, v => by
      cases v with
      | string t =>
          rw [scan, demand]
          exact countNode_demands.seq (textScan_demands (scan_demands room) t)
      | array elements =>
          rw [scan, demand]
          exact countNode_demands.seq (demands_forM elements fun v _ => scan_demands room v)
      | object members =>
          rw [scan, demand]
          refine countNode_demands.seq (demands_forM members fun member _ => ?_)
          obtain ⟨key, child⟩ := member
          have hchild : Demands limits (if exempt r p key child then pure () else scan r p room child)
              (if exempt r p key child then 0 else demand r p room child) :=
            demands_ite _ (fun _ => demands_pure) fun _ => scan_demands room child
          cases room with
          | zero => exact (demands_throw _).seq hchild
          | succ below => exact (textScan_demands (scan_demands below) key).seq hchild
      | null => exact countNode_demands.seq (scalarScan_demands (scan_demands room) _)
      | bool _ => exact countNode_demands.seq (scalarScan_demands (scan_demands room) _)
      | integer _ => exact countNode_demands.seq (scalarScan_demands (scan_demands room) _)
      | real _ => exact countNode_demands.seq (scalarScan_demands (scan_demands room) _)

theorem scanVerdict_clean_iff_passes (s : Scan) (start : Counters) :
    scanVerdict s start = .clean ↔ ∃ t, s.run start = .ok () t := by
  unfold scanVerdict
  cases s.run start with
  | ok _ t => simp
  | error veto t => cases veto <;> simp [Veto.verdict]

/-- A whole scan is clean exactly when its demand is within the limits. -/
theorem scanVerdict_clean_iff (v : Json) :
    scanVerdict (scan r p (maxDepth + 1) v) ⟨0, 0, 0⟩ = .clean ↔
      demand r p (maxDepth + 1) v ≤ limits := by
  rw [scanVerdict_clean_iff_passes]
  exact (scan_demands r p _ v).passes_iff

/-- With scanning on, `CLEAN` needs a scan within the limits and the structural contract. -/
theorem classify_clean_iff {body : Json} {controls : Option Text}
    (hscan : r.contentScanning = true) :
    classify r p body controls = .clean ↔
      demand r p (maxDepth + 1) body ≤ limits ∧ inspectable r p controls body = true := by
  rw [← scanVerdict_clean_iff]
  unfold classify
  rw [hscan]
  by_cases hclean : scanVerdict (scan r p (maxDepth + 1) body) ⟨0, 0, 0⟩ = .clean
  · by_cases hok : inspectable r p controls body = true
    · simp [hclean, hok]
    · simp [hclean, hok]
  · simp [hclean]

end Recursant.Compliance
