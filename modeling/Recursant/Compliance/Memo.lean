import Recursant.Compliance.Atomicity
import Recursant.Compliance.Complete

/-!
# The content memo

Between `rc_compliance_memo_begin` and `rc_compliance_memo_end` a gate reuses one content scan for
every object whose top-level values, other than `model` and `provider`, are still the values that
were scanned.  "Still the same" is decided by address, and the memo keeps its keys as pointers into
the scanned object.  Here a body carries the address of each of its values and of the entry that
holds each key, and what was freed may be issued again.
-/

namespace Recursant.Compliance

open Metered

variable (r : Runtime) (p : Policy)

/-! ## Objects with identities -/

/-- A body with the address of the value under each of its keys, and of the entry that holds the
key itself. -/
structure Object where
  members : List (Text × Json)
  address : Text → Nat
  entry : Text → Nat
  nodup : (members.map Prod.fst).Nodup

namespace Object

def json (o : Object) : Json := .object o.members

local instance lawfulKeys : LawfulBEq Text := inferInstance

def has (o : Object) (key : Text) : Bool := key ∈ o.members.map Prod.fst

/-- `json_object_set_new` with a value at the given address.  A key that is there already keeps
its entry, a new one gets the given one. -/
def set (o : Object) (key : Text) (v : Json) (address entry : Nat) : Object where
  members := Json.setMember key v o.members
  address := Function.update o.address key address
  entry := if o.has key then o.entry else Function.update o.entry key entry
  nodup := Json.setMember_nodup key v o.nodup

/-- `json_object_del`. -/
def remove (o : Object) (key : Text) : Object :=
  { o with
    members := Json.delMember key o.members
    nodup := o.nodup.sublist (List.filter_sublist.map _) }

/-- `json_copy`: the same values under entries of the copy's own. -/
def copy (o : Object) (entry : Text → Nat) : Object := { o with entry := entry }

end Object

/-! ## The memo -/

def memoKeys : Nat := 64

def varying (key : Text) : Bool := key = text "model" || key = text "provider"

/-- The members of a body that no destination changes. -/
def kept (members : List (Text × Json)) : List (Text × Json) :=
  members.filter fun member => !varying member.1

/-- `scan_keys`: the walk of an object at depth zero, restricted to one kind of key. -/
def scanKeys (wantVarying : Bool) (members : List (Text × Json)) : Scan := do
  countNode
  (members.filter fun member => varying member.1 == wantVarying).forM fun (key, child) => do
    textScan r p (scan r p (maxDepth - 1)) key
    scan r p maxDepth child

/-- The entries and the values of the scanned members, both as addresses, and what the scan and the
contract said of them. -/
structure Memo where
  entries : List (Nat × Nat)
  content : Verdict
  structureOk : Bool
  counters : Counters

def countersAfter (s : Scan) : Counters :=
  match s.run ⟨0, 0, 0⟩ with
  | .ok _ counters => counters
  | .error _ counters => counters

/-- `rc_compliance_memo_begin`; `none` is an inactive memo. -/
def memoBegin (o : Object) : Option Memo :=
  match r.policy with
  | none => none
  | some p =>
      if !r.complianceEnabled || !r.contentScanning || (kept o.members).length > memoKeys then none
      else some
        { entries := (kept o.members).map fun member => (o.entry member.1, o.address member.1)
          content := scanVerdict (scanKeys r p false o.members) ⟨0, 0, 0⟩
          structureOk := inspectableContent r p o.json
          counters := countersAfter (scanKeys r p false o.members) }

/-- The recorded values under the texts that now stand at the recorded entries. -/
def Memo.read (memo : Memo) (memory : Nat → Text) : List (Text × Nat) :=
  memo.entries.map fun recorded => (memory recorded.1, recorded.2)

/-- `memo_matches`: as many members as were recorded, each with the value of the first recorded key
that reads like its own. -/
def memoMatches (memo : Memo) (memory : Nat → Text) (members : List (Text × Json))
    (address : Text → Nat) : Bool :=
  (kept members).all (fun member =>
      (memo.read memory).lookup member.1 = some (address member.1)) &&
    (kept members).length = memo.entries.length

/-- The recorded verdict, or the scan of the remaining keys on the recorded counters. -/
def memoScan (memo : Memo) (members : List (Text × Json)) : Verdict :=
  if memo.content = .clean then
    -- the object's own node is counted again by the second half
    scanVerdict (scanKeys r p true members)
      { memo.counters with nodes := memo.counters.nodes - 1 }
  else memo.content

/-- `classify` with an active memo, on a body whose values have the given addresses. -/
def memoClassify (memo : Memo) (memory : Nat → Text) (address : Text → Nat) (body : Json)
    (controls : Option Text) : Verdict :=
  match body with
  | .object members =>
      if r.contentScanning && memoMatches memo memory members address then
        let result := memoScan r p memo members
        if result = .clean && !(memo.structureOk && inspectableControls controls body) then .unknown
        else result
      -- some value is another one: the whole body is classified again
      else classify r p body controls
  | _ => classify r p body controls

/-- What a gate's own decoration gets from the allocator, and the memory it leaves behind. -/
structure Issued where
  address : Text → Nat
  memory : Nat → Text

/-- The addresses of a decorated body: members that the decoration put in have new values. -/
def addressIn (o : Object) (issued : Issued) (body : Json) : Text → Nat := fun key =>
  if body.get? key = o.json.get? key then o.address key else issued.address key

/-- `rc_compliance_gate` over one verdict function for the body and one for what its decoration
makes of it. -/
def gateTwice (first final : Json → Option Text → Verdict) (body : Json) (endpoint : Endpoint) :
    Gated :=
  let adapter := destination r body endpoint
  let controls := adapter.bind (·.providerControlKeys)
  if !r.publicAllowed || !(first body controls).passes then
    match endpoint with
    | .pub => redirect r body
    | .priv => ⟨true, body, .priv⟩
  else
    match endpoint, adapter.bind (·.decorateRequest) with
    | .pub, some decorate => vetDecorated r final controls body (decorate body)
    | _, _ => ⟨true, body, endpoint⟩

/-- `rc_compliance_gate` under a memo. -/
def memoGate (memo : Option Memo) (memory : Nat → Text) (issued : Issued) (o : Object)
    (endpoint : Endpoint) : Gated :=
  match memo with
  | none => gate r o.json endpoint
  | some m =>
      if !r.complianceEnabled then ⟨true, o.json, endpoint⟩
      else
        match r.policy with
        | none => ⟨false, o.json, endpoint⟩
        | some p =>
            gateTwice r (memoClassify r p m memory o.address)
              (fun body => memoClassify r p m issued.memory (addressIn o issued body) body)
              o.json endpoint

/-! ## Edits between begin and end -/

/-- The objects alive, and the text that stands at each address: the one last written there, also
when the entry that held it has been freed. -/
structure Heap where
  objects : List Object
  memory : Nat → Text

/-- A top-level edit of one of the objects alive (the body itself or a shallow copy), or any other
write to memory that none of them owns. -/
inductive Edit where
  | copy (i : Nat) (entry : Text → Nat)
  | drop (i : Nat)
  | set (i : Nat) (key : Text) (value : Json) (address entry : Nat)
  | remove (i : Nat) (key : Text)
  | scribble (address : Nat) (content : Text)

namespace Edit

/-- The addresses that an edit writes texts to.  Only a key that an object did not have gets an
entry of its own. -/
def writes (heap : Heap) : Edit → List (Nat × Text)
  | .copy i entry => heap.objects[i]?.toList.flatMap fun o =>
      o.members.map fun member => (entry member.1, member.1)
  | .set i key _ _ entry =>
      (heap.objects[i]?.toList.filter fun o => !o.has key).map fun _ => (entry, key)
  | .scribble address content => [(address, content)]
  -- what is freed keeps its text until something else is written there
  | .drop _ | .remove _ _ => []

def write (memory : Nat → Text) (writes : List (Nat × Text)) : Nat → Text :=
  writes.foldl (fun memory written => Function.update memory written.1 written.2) memory

def objectsAfter (objects : List Object) : Edit → List Object
  | .copy i entry => objects ++ objects[i]?.toList.map (·.copy entry)
  | .drop i => objects.eraseIdx i
  | .set i key value address entry => objects.modify i fun o => o.set key value address entry
  | .remove i key => objects.modify i fun o => o.remove key
  | .scribble _ _ => objects

def apply (heap : Heap) (e : Edit) : Heap :=
  ⟨e.objectsAfter heap.objects, write heap.memory (e.writes heap)⟩

/-- A value address that is in use names one value; a free one may be issued for any value. -/
def ValueIssuable (objects : List Object) : Edit → Prop
  | .set _ _ value address _ =>
      ∀ o ∈ objects, ∀ member ∈ o.members, o.address member.1 = address → member.2 = value
  | _ => True

/-- What the allocator may do: texts are written to addresses that no entry in use has. -/
structure Issuable (heap : Heap) (e : Edit) : Prop where
  value : e.ValueIssuable heap.objects
  free : ∀ written ∈ e.writes heap, ∀ o ∈ heap.objects, ∀ member ∈ o.members,
    o.entry member.1 ≠ written.1
  distinct : ((e.writes heap).map Prod.fst).Nodup

end Edit

/-- The value of a recorded key is a new one at the recorded address. -/
def Reissued (scanned : Object) (key : Text) (value : Json) (address : Nat) : Prop :=
  varying key = false ∧ scanned.address key = address ∧
    ∃ old, scanned.json.get? key = some old ∧ old ≠ value

def Edit.Reissues (scanned : Object) : Edit → Prop
  | .set _ key value address _ => Reissued scanned key value address
  | _ => False

/-- The edit writes another text over the entry of a recorded key. -/
def Edit.Overwrites (heap : Heap) (scanned : Object) (e : Edit) : Prop :=
  ∃ written ∈ e.writes heap, ∃ member ∈ kept scanned.members,
    scanned.entry member.1 = written.1 ∧ written.2 ≠ member.1

/-- The edit leaves the recorded keys and their values to the memo. -/
structure Spares (scanned : Object) (heap : Heap) (e : Edit) : Prop where
  issuable : e.Issuable heap
  values : ¬ e.Reissues scanned
  keys : ¬ e.Overwrites heap scanned

/-- Every key of an object stands in its entry. -/
def Stands (memory : Nat → Text) (o : Object) : Prop :=
  ∀ member ∈ o.members, memory (o.entry member.1) = member.1

/-- What a series of edits that satisfy `allowed` makes of the scanned body. -/
inductive Edited (allowed : Heap → Edit → Prop) (scanned : Object) : Heap → Prop where
  | start {memory : Nat → Text} : Stands memory scanned → Edited allowed scanned ⟨[scanned], memory⟩
  | edit {heap : Heap} {e : Edit} :
      Edited allowed scanned heap → allowed heap e → Edited allowed scanned (e.apply heap)

/-! ## Matching objects -/

/-- The entries of the recorded keys still hold them. -/
def Intact (scanned : Object) (memory : Nat → Text) : Prop :=
  ∀ member ∈ kept scanned.members, memory (scanned.entry member.1) = member.1

/-- A value found under a recorded key at its recorded address is the recorded value. -/
def Genuine (scanned : Object) (body : Json) (address : Text → Nat) : Prop :=
  ∀ key v old, varying key = false → scanned.json.get? key = some old → body.get? key = some v →
    address key = scanned.address key → v = old

variable {r p} {scanned : Object} {memo : Memo} {members : List (Text × Json)}
  {memory : Nat → Text} {address : Text → Nat}

theorem mem_kept {member : Text × Json} :
    member ∈ kept members ↔ member ∈ members ∧ varying member.1 = false := by
  unfold kept
  rw [List.mem_filter, Bool.not_eq_true']

/-- While the recorded entries hold their keys, the memo reads them as they were recorded. -/
theorem read_eq (hentries : memo.entries =
      (kept scanned.members).map fun member => (scanned.entry member.1, scanned.address member.1))
    (hintact : Intact scanned memory) : memo.read memory =
      (kept scanned.members).map fun member => (member.1, scanned.address member.1) := by
  unfold Memo.read
  rw [hentries, List.map_map]
  apply List.map_congr_left
  intro member hmember
  exact Prod.ext (hintact member hmember) rfl

/-- A matching object has exactly the members that were scanned, in some order. -/
theorem kept_perm (hentries : memo.entries =
      (kept scanned.members).map fun member => (scanned.entry member.1, scanned.address member.1))
    (hintact : Intact scanned memory) (hnodup : (members.map Prod.fst).Nodup)
    (hgenuine : Genuine scanned (.object members) address)
    (hmatch : memoMatches memo memory members address = true) :
    (kept members).Perm (kept scanned.members) := by
  unfold memoMatches at hmatch
  rw [Bool.and_eq_true, List.all_eq_true, decide_eq_true_eq] at hmatch
  have hsub : ∀ member ∈ kept members, member ∈ kept scanned.members := by
    intro member hmember
    have hrecorded := of_decide_eq_true (hmatch.1 member hmember)
    obtain ⟨before, after, hsplit, -⟩ := List.lookup_eq_some_iff.mp hrecorded
    have hin : (member.1, address member.1) ∈ memo.read memory := by simp [hsplit]
    rw [read_eq hentries hintact, List.mem_map] at hin
    obtain ⟨old, hold, heq⟩ := hin
    obtain ⟨hkey, haddress⟩ := Prod.mk.inj heq
    have hlookup : scanned.json.get? old.1 = some old.2 :=
      (Json.mem_iff_lookup scanned.nodup old.1 old.2).mp (mem_kept.mp hold).1
    rw [hkey] at hlookup haddress
    have hvalue : member.2 = old.2 :=
      hgenuine member.1 member.2 old.2 (mem_kept.mp hmember).2 hlookup
        ((Json.mem_iff_lookup hnodup member.1 member.2).mp (mem_kept.mp hmember).1) haddress.symm
    have hsame : member = old := Prod.ext hkey.symm hvalue
    exact hsame ▸ hold
  -- as many members, all of them recorded ones
  have hdistinct : (kept members).Nodup := (hnodup.of_map Prod.fst).filter _
  apply (List.subperm_of_subset hdistinct hsub).perm_of_length_le
  rw [hmatch.2, hentries, List.length_map]

/-- Destination-independent fields of a matching object are those of the scanned body. -/
theorem get?_of_perm (hnodup : (members.map Prod.fst).Nodup)
    (hperm : (kept members).Perm (kept scanned.members)) {key : Text} (hkey : varying key = false) :
    (Json.object members).get? key = scanned.json.get? key := by
  apply Option.ext
  intro v
  show members.lookup key = some v ↔ scanned.members.lookup key = some v
  rw [← Json.mem_iff_lookup hnodup, ← Json.mem_iff_lookup scanned.nodup]
  have hiff := hperm.mem_iff (a := (key, v))
  rw [mem_kept, mem_kept] at hiff
  constructor
  · intro h
    exact (hiff.mp ⟨h, hkey⟩).1
  · intro h
    exact (hiff.mpr ⟨h, hkey⟩).1

theorem inspectableContent_of_perm (hnodup : (members.map Prod.fst).Nodup)
    (hperm : (kept members).Perm (kept scanned.members)) :
    inspectableContent r p (.object members) = inspectableContent r p scanned.json := by
  unfold inspectableContent
  rw [get?_of_perm hnodup hperm (by decide), get?_of_perm hnodup hperm (by decide),
    get?_of_perm hnodup hperm (by decide)]

/-! ## The scan in two halves -/

variable (r p) in
def memberDemand (member : Text × Json) : WithTop Counters :=
  textDemand r p (demand r p (maxDepth - 1)) member.1 + demand r p maxDepth member.2

variable (r p) in
theorem scanKeys_demands (wantVarying : Bool) (members : List (Text × Json)) :
    Demands limits (scanKeys r p wantVarying members)
      (oneNode + ((members.filter fun member => varying member.1 == wantVarying).map
        (memberDemand r p)).sum) := by
  refine countNode_demands.seq (demands_forM _ fun member _ => ?_)
  exact (textScan_demands (scan_demands r p _) member.1).seq (scan_demands r p _ member.2)

/-- A body without `reasoning_details` of its own has no exempted member. -/
theorem demand_object (h : ∀ member ∈ members, member.1 ≠ text "reasoning_details") :
    demand r p (maxDepth + 1) (.object members) =
      oneNode + (members.map (memberDemand r p)).sum := by
  show (oneNode : WithTop Counters) + (members.map fun (key, child) => textDemand r p (demand r p (maxDepth - 1)) key +
    if exempt r p key child then 0 else demand r p maxDepth child).sum = _
  congr 2
  apply List.map_congr_left
  intro member hmember
  have hkept : exempt r p member.1 member.2 = false := by
    unfold exempt
    rw [decide_eq_false (h member hmember), Bool.false_and]
  show textDemand r p (demand r p (maxDepth - 1)) member.1 +
    (if exempt r p member.1 member.2 then 0 else demand r p maxDepth member.2) = _
  rw [if_neg (by rw [hkept]; exact Bool.false_ne_true)]
  rfl

theorem sum_halves (f : Text × Json → WithTop Counters) :
    (members.map f).sum = ((kept members).map f).sum +
      ((members.filter fun member => varying member.1 == true).map f).sum := by
  rw [← List.sum_append, ← List.map_append]
  apply List.Perm.sum_eq
  apply List.Perm.map
  have hsplit := List.filter_append_perm (fun member : Text × Json => !varying member.1) members
  refine hsplit.symm.trans ?_
  unfold kept
  simp

/-! ## Equal verdicts -/

theorem scanVerdict_cases (s : Scan) (start : Counters) :
    scanVerdict s start = .clean ∨ (scanVerdict s start).passes = false := by
  unfold scanVerdict
  cases s.run start with
  | ok _ _ => exact .inl rfl
  | error veto _ => cases veto <;> exact .inr rfl

theorem verdict_passes_iff {scanned : Verdict} {contract : Bool}
    (h : scanned = .clean ∨ scanned.passes = false) :
    (if scanned = .clean && !contract then Verdict.unknown else scanned).passes = true ↔
      scanned = .clean ∧ contract = true := by
  cases h with
  | inl hclean =>
      subst hclean
      cases contract <;> simp [Verdict.passes]
  | inr hfails =>
      have hne : scanned ≠ .clean := by
        rintro rfl
        cases hfails
      simp [hne, hfails]

theorem classify_passes_iff {body : Json} {controls : Option Text}
    (hscan : r.contentScanning = true) :
    (classify r p body controls).passes = true ↔
      demand r p (maxDepth + 1) body ≤ limits ∧ inspectable r p controls body = true := by
  rw [← scanVerdict_clean_iff]
  unfold classify
  rw [hscan, Bool.not_true, if_neg Bool.false_ne_true]
  exact verdict_passes_iff (scanVerdict_cases _ _)

theorem memoBegin_eq (hpolicy : r.policy = some p) (h : memoBegin r scanned = some memo) :
    r.complianceEnabled = true ∧ r.contentScanning = true ∧ memo =
      { entries := (kept scanned.members).map fun member =>
          (scanned.entry member.1, scanned.address member.1)
        content := scanVerdict (scanKeys r p false scanned.members) ⟨0, 0, 0⟩
        structureOk := inspectableContent r p scanned.json
        counters := countersAfter (scanKeys r p false scanned.members) } := by
  unfold memoBegin at h
  rw [hpolicy] at h
  dsimp only at h
  split at h
  · cases h
  · next hactive =>
      rw [Bool.or_eq_true, Bool.or_eq_true, not_or, not_or] at hactive
      refine ⟨?_, ?_, (Option.some.inj h).symm⟩
      · simpa using hactive.1.1
      · simpa using hactive.1.2

theorem filter_kept : (members.filter fun member => varying member.1 == false) = kept members := by
  unfold kept
  apply List.filter_congr
  intro member _
  cases varying member.1 <;> rfl

/-- Taking the object's node off the recorded counters leaves what its members added. -/
theorem without_node {k : WithTop Counters} {t : Counters} (h : (oneNode : WithTop Counters) + k = t) :
    k = ({ t with nodes := t.nodes - 1 } : Counters) := by
  have hfinite : k ≠ ⊤ := by
    rintro rfl
    rw [WithTop.add_top] at h
    exact WithTop.top_ne_coe h
  obtain ⟨y, rfl⟩ := WithTop.ne_top_iff_exists.mp hfinite
  rw [← WithTop.coe_add, WithTop.coe_inj] at h
  rw [WithTop.coe_inj, ← h]
  ext
  · show y.nodes = 1 + y.nodes - 1
    omega
  · exact (Nat.zero_add _).symm
  · exact (Nat.zero_add _).symm

/-- The recorded half and the half scanned later pass together exactly when the whole scan
passes. -/
theorem halves_pass_iff (hperm : (kept members).Perm (kept scanned.members))
    (hplain : ∀ member ∈ members, member.1 ≠ text "reasoning_details") :
    (scanVerdict (scanKeys r p false scanned.members) ⟨0, 0, 0⟩ = .clean ∧
      scanVerdict (scanKeys r p true members)
        { countersAfter (scanKeys r p false scanned.members) with
          nodes := (countersAfter (scanKeys r p false scanned.members)).nodes - 1 } = .clean) ↔
      demand r p (maxDepth + 1) (.object members) ≤ limits := by
  have hfirst := scanKeys_demands r p false scanned.members
  have hsecond := scanKeys_demands r p true members
  rw [filter_kept] at hfirst
  have hsame : ((kept scanned.members).map (memberDemand r p)).sum =
      ((kept members).map (memberDemand r p)).sum := (hperm.map _).sum_eq.symm
  rw [hsame] at hfirst
  rw [demand_object hplain, sum_halves, scanVerdict_clean_iff_passes, scanVerdict_clean_iff_passes,
    ← add_assoc]
  generalize ((kept members).map (memberDemand r p)).sum = k at hfirst ⊢
  generalize ((members.filter fun member => varying member.1 == true).map
    (memberDemand r p)).sum = v at hsecond ⊢
  -- once the first half has passed, the second is the whole demand
  have hrest : ∀ t, (scanKeys r p false scanned.members).run 0 = .ok () t →
      ((∃ u, (scanKeys r p true members).run
        { countersAfter (scanKeys r p false scanned.members) with
          nodes := (countersAfter (scanKeys r p false scanned.members)).nodes - 1 } = .ok () u) ↔
        (oneNode : WithTop Counters) + k + v ≤ limits) := by
    intro t ht
    have hcounters : countersAfter (scanKeys r p false scanned.members) = t := by
      unfold countersAfter
      rw [show (⟨0, 0, 0⟩ : Counters) = 0 from rfl, ht]
    obtain ⟨hsum, hlimit⟩ := (hfirst 0 t zero_le).mp ht
    rw [WithTop.coe_zero, zero_add] at hsum
    have hk := without_node hsum
    have hstart : ({ t with nodes := t.nodes - 1 } : Counters) ≤ limits := by
      refine le_trans ?_ hlimit
      exact ⟨Nat.sub_le _ _, le_rfl, le_rfl⟩
    rw [hcounters, hsecond.passes_from_iff hstart, ← hk, ← add_assoc, add_comm k]
  constructor
  · intro h
    obtain ⟨⟨t, ht⟩, hpasses⟩ := h
    exact (hrest t ht).mp hpasses
  · intro h
    have hrecorded : (oneNode : WithTop Counters) + k ≤ limits := le_self_add.trans h
    obtain ⟨t, ht⟩ := hfirst.passes_iff.mpr hrecorded
    exact ⟨⟨t, ht⟩, (hrest t ht).mpr h⟩

theorem memoScan_clean_iff (hpolicy : r.policy = some p)
    (hmemo : memoBegin r scanned = some memo)
    (hperm : (kept members).Perm (kept scanned.members))
    (hplain : ∀ member ∈ members, member.1 ≠ text "reasoning_details") :
    memoScan r p memo members = .clean ↔
      demand r p (maxDepth + 1) (.object members) ≤ limits := by
  obtain ⟨-, -, rfl⟩ := memoBegin_eq hpolicy hmemo
  rw [← halves_pass_iff hperm hplain]
  unfold memoScan
  dsimp only
  split
  · next hclean => exact ⟨fun h => ⟨hclean, h⟩, fun h => h.2⟩
  · next hfails => exact ⟨fun h => absurd h hfails, fun h => h.1⟩

theorem memoScan_cases (hpolicy : r.policy = some p) (hmemo : memoBegin r scanned = some memo) :
    memoScan r p memo members = .clean ∨ (memoScan r p memo members).passes = false := by
  obtain ⟨-, -, rfl⟩ := memoBegin_eq hpolicy hmemo
  unfold memoScan
  dsimp only
  split
  · exact scanVerdict_cases _ _
  · exact scanVerdict_cases _ _

/-- A `reasoning_details` member of the body itself is unknown to the contract. -/
theorem inspectableControls_plain {controls : Option Text}
    (h : inspectableControls controls (.object members) = true) :
    ∀ member ∈ members, member.1 ≠ text "reasoning_details" := by
  unfold inspectableControls at h
  simp only [Bool.and_eq_true] at h
  intro member hmember heq
  have hin := mem_of_knownKeys h.1.1.1 bodyKeys_eq (by decide +kernel) member hmember
  rw [heq] at hin
  revert hin
  decide +kernel

theorem memoClassify_passes (hpolicy : r.policy = some p)
    (hmemo : memoBegin r scanned = some memo) (hintact : Intact scanned memory)
    (hnodup : (members.map Prod.fst).Nodup)
    (hgenuine : Genuine scanned (.object members) address) (controls : Option Text) :
    (memoClassify r p memo memory address (.object members) controls).passes =
      (classify r p (.object members) controls).passes := by
  obtain ⟨-, hscan, heq⟩ := memoBegin_eq hpolicy hmemo
  show (if r.contentScanning && memoMatches memo memory members address then
    if memoScan r p memo members = .clean &&
        !(memo.structureOk && inspectableControls controls (.object members)) then .unknown
    else memoScan r p memo members
    else classify r p (.object members) controls).passes = _
  rw [hscan, Bool.true_and]
  by_cases hmatch : memoMatches memo memory members address = true
  · rw [if_pos hmatch, Bool.eq_iff_iff, verdict_passes_iff (memoScan_cases hpolicy hmemo),
      classify_passes_iff hscan, Bool.and_eq_true]
    have hperm : (kept members).Perm (kept scanned.members) :=
      kept_perm (by rw [heq]) hintact hnodup hgenuine hmatch
    have hstructure : memo.structureOk = inspectableContent r p (.object members) := by
      rw [heq, inspectableContent_of_perm hnodup hperm]
    unfold inspectable
    rw [hstructure, Bool.and_eq_true]
    constructor
    · intro h
      have hplain := inspectableControls_plain h.2.2
      exact ⟨(memoScan_clean_iff hpolicy hmemo hperm hplain).mp h.1, h.2.2, h.2.1⟩
    · intro h
      have hplain := inspectableControls_plain h.2.1
      exact ⟨(memoScan_clean_iff hpolicy hmemo hperm hplain).mpr h.1, h.2.2, h.2.1⟩
  · rw [if_neg hmatch]

/-! ## Equal gates -/

theorem gateTwice_self (verdict : Json → Option Text → Verdict) (body : Json)
    (endpoint : Endpoint) :
    gateTwice r verdict verdict body endpoint = gateWith r verdict body endpoint := rfl

/-- A gate depends on its verdicts only through what passes. -/
theorem gateTwice_eq {first final verdict : Json → Option Text → Verdict} {body : Json}
    (hbody : ∀ controls, (first body controls).passes = (verdict body controls).passes)
    (hfinal : ∀ decorated, openrouterDecorate body = some decorated →
      ∀ controls, (final decorated controls).passes = (verdict decorated controls).passes)
    (endpoint : Endpoint) :
    gateTwice r first final body endpoint = gateWith r verdict body endpoint := by
  rw [← gateTwice_self]
  unfold gateTwice
  dsimp only
  rw [hbody]
  split
  · rfl
  · cases endpoint with
    | priv => rfl
    | pub =>
        cases hdecorator : decoratorFor r body with
        | none =>
            rw [show (destination r body .pub).bind (·.decorateRequest) = none from hdecorator]
        | some decorate =>
            rw [show (destination r body .pub).bind (·.decorateRequest) = some decorate
              from hdecorator]
            obtain rfl := decoratorFor_eq r hdecorator
            dsimp only
            cases hdecorated : openrouterDecorate body with
            | none => rfl
            | some decorated =>
                unfold vetDecorated
                dsimp only
                rw [hfinal decorated hdecorated]

theorem decorated_nodup {final : Json} (hnodup : (members.map Prod.fst).Nodup)
    (h : openrouterDecorate (.object members) = some final) :
    ∃ decorated, final = .object decorated ∧ (decorated.map Prod.fst).Nodup := by
  obtain ⟨pinned, hset, hbreak⟩ := openrouterDecorate_eq_some h
  cases hset
  have hpinned := Json.setMember_nodup (text "provider") noFallbacks hnodup
  split at hbreak
  · cases hbreak
    exact ⟨_, rfl, Json.setMember_nodup _ _ hpinned⟩
  · exact ⟨_, hbreak.symm, hpinned⟩

/-- Inside the gate the only recorded key that can get a new value is the breakpoint's. -/
theorem genuine_decorated {o : Object} {issued : Issued} {final : Json}
    (hgenuine : Genuine scanned o.json o.address) (hdecorated : openrouterDecorate o.json = some final)
    (hissued : wantsBreakpoint o.json = true →
      ¬ Reissued scanned "cache_control" ephemeral (issued.address "cache_control")) :
    Genuine scanned final (addressIn o issued final) := by
  intro key v old hkey hold hv haddress
  unfold addressIn at haddress
  by_cases hsame : final.get? key = o.json.get? key
  · rw [if_pos hsame] at haddress
    rw [hsame] at hv
    exact hgenuine key v old hkey hold hv haddress
  · rw [if_neg hsame] at haddress
    have hprovider : key ≠ text "provider" := by
      rintro rfl
      revert hkey
      decide
    have hcache : key = text "cache_control" := by
      by_contra hother
      exact hsame (get?_decorated hdecorated hprovider hother)
    subst hcache
    obtain ⟨pinned, hset, hbreak⟩ := openrouterDecorate_eq_some hdecorated
    by_cases hwants : wantsBreakpoint o.json = true
    · rw [if_pos hwants] at hbreak
      rw [Json.get?_set? hbreak, if_pos rfl] at hv
      rw [← Option.some.inj hv]
      by_contra hne
      exact hissued hwants ⟨hkey, haddress.symm, old, hold, Ne.symm hne⟩
    · rw [if_neg hwants] at hbreak
      rw [← hbreak, Json.get?_set? hset, if_neg (by decide)] at hsame
      exact absurd rfl hsame

/-- While the recorded entries hold their keys and no recorded address names another value, the
memo does not change a gate. -/
theorem memoGate_eq {o : Object} {issued : Issued} (hintact : Intact scanned memory)
    (hgenuine : Genuine scanned o.json o.address)
    (hissued : wantsBreakpoint o.json = true →
      ¬ Reissued scanned "cache_control" ephemeral (issued.address "cache_control"))
    (hdecorated : Intact scanned issued.memory) (endpoint : Endpoint) :
    memoGate r (memoBegin r scanned) memory issued o endpoint = gate r o.json endpoint := by
  cases hmemo : memoBegin r scanned with
  | none => rfl
  | some memo =>
      cases hpolicy : r.policy with
      | none =>
          unfold memoBegin at hmemo
          rw [hpolicy] at hmemo
          cases hmemo
      | some p =>
          have henabled := (memoBegin_eq hpolicy hmemo).1
          rw [gate_eq r p henabled hpolicy]
          unfold memoGate
          rw [henabled, hpolicy]
          show gateTwice r (memoClassify r p memo memory o.address)
            (fun body => memoClassify r p memo issued.memory (addressIn o issued body) body) o.json
            endpoint = gateWith r (classify r p) o.json endpoint
          apply gateTwice_eq
          · intro controls
            exact memoClassify_passes hpolicy hmemo hintact o.nodup hgenuine controls
          · intro final hfinal controls
            have hnew := genuine_decorated hgenuine hfinal hissued
            obtain ⟨decorated, rfl, hnodup⟩ := decorated_nodup o.nodup hfinal
            exact memoClassify_passes hpolicy hmemo hdecorated hnodup hnew controls

/-! ## Any series of edits -/

theorem genuine_start (scanned : Object) : Genuine scanned scanned.json scanned.address := by
  intro key v old _ hold hv _
  exact Option.some.inj (hv.symm.trans hold)

theorem genuine_set {o : Object} {key : Text} {value : Json} {issued entry : Nat}
    (hgenuine : Genuine scanned o.json o.address) (hnew : ¬ Reissued scanned key value issued) :
    Genuine scanned (o.set key value issued entry).json (o.set key value issued entry).address := by
  intro k v old hk hold hv haddress
  have hset : o.json.set? key (some value) = some (o.set key value issued entry).json := rfl
  rw [Json.get?_set? hset] at hv
  by_cases hkey : k = key
  -- the new value: were it not the recorded one, the address would be reissued
  · rw [if_pos hkey] at hv
    have hissued : (o.set key value issued entry).address k = issued := by
      rw [hkey]
      exact Function.update_self key issued o.address
    rw [hissued] at haddress
    rw [← Option.some.inj hv]
    by_contra hne
    subst hkey
    exact hnew ⟨hk, haddress.symm, old, hold, Ne.symm hne⟩
  · rw [if_neg hkey] at hv
    have hkept : (o.set key value issued entry).address k = o.address k :=
      Function.update_of_ne hkey _ _
    rw [hkept] at haddress
    exact hgenuine k v old hk hold hv haddress

theorem genuine_remove {o : Object} {key : Text} (hgenuine : Genuine scanned o.json o.address) :
    Genuine scanned (o.remove key).json (o.remove key).address := by
  intro k v old hk hold hv haddress
  have hdel : (o.remove key).json = o.json.del key := rfl
  rw [hdel, Json.get?_del] at hv
  by_cases hkey : k = key
  · rw [if_pos hkey] at hv
    cases hv
  · rw [if_neg hkey] at hv
    exact hgenuine k v old hk hold hv haddress

theorem mem_modify {α : Type} {f : α → α} {l : List α} {i : Nat} {a : α} (ha : a ∈ l.modify i f) :
    a ∈ l ∨ ∃ b, l[i]? = some b ∧ f b = a := by
  obtain ⟨j, hj⟩ := List.mem_iff_getElem?.mp ha
  rw [List.getElem?_modify] at hj
  cases hget : l[j]? with
  | none =>
      rw [hget] at hj
      cases hj
  | some b =>
      rw [hget] at hj
      have ha : (if i = j then f b else b) = a := Option.some.inj hj
      by_cases hij : i = j
      · rw [if_pos hij] at ha
        exact .inr ⟨b, hij ▸ hget, ha⟩
      · rw [if_neg hij] at ha
        exact .inl (ha ▸ List.mem_of_getElem? hget)

/-- One edit that reissues no recorded address keeps every object genuine. -/
theorem genuine_after {objects : List Object} {e : Edit}
    (hgenuine : ∀ o ∈ objects, Genuine scanned o.json o.address) (hnew : ¬ e.Reissues scanned) :
    ∀ o ∈ e.objectsAfter objects, Genuine scanned o.json o.address := by
  intro o ho
  cases e with
  | copy i entry =>
      rcases List.mem_append.mp ho with hold | hcopy
      · exact hgenuine o hold
      · obtain ⟨source, hsource, rfl⟩ := List.mem_map.mp hcopy
        exact hgenuine source (List.mem_of_getElem? (Option.mem_toList.mp hsource))
  | drop i => exact hgenuine o (List.mem_of_mem_eraseIdx ho)
  | set i key value issued entry =>
      rcases mem_modify ho with hold | ⟨source, hsource, rfl⟩
      · exact hgenuine o hold
      · exact genuine_set (hgenuine source (List.mem_of_getElem? hsource)) hnew
  | remove i key =>
      rcases mem_modify ho with hold | ⟨source, hsource, rfl⟩
      · exact hgenuine o hold
      · exact genuine_remove (hgenuine source (List.mem_of_getElem? hsource))
  | scribble _ _ => exact hgenuine o ho

theorem write_of_forall_ne {writes : List (Nat × Text)} {memory : Nat → Text} {address : Nat}
    (h : ∀ written ∈ writes, written.1 ≠ address) :
    Edit.write memory writes address = memory address := by
  unfold Edit.write
  induction writes generalizing memory with
  | nil => rfl
  | cons written writes ih =>
      obtain ⟨hhead, htail⟩ := List.forall_mem_cons.mp h
      rw [List.foldl_cons, ih htail]
      exact Function.update_of_ne hhead.symm _ _

/-- What stands at an address afterwards was there before or is one of the texts written. -/
theorem write_cases (memory : Nat → Text) (writes : List (Nat × Text)) (address : Nat) :
    Edit.write memory writes address = memory address ∨
      (address, Edit.write memory writes address) ∈ writes := by
  unfold Edit.write
  induction writes generalizing memory with
  | nil => exact .inl rfl
  | cons written writes ih =>
      rw [List.foldl_cons]
      rcases ih (Function.update memory written.1 written.2) with hold | hnew
      · by_cases haddress : address = written.1
        · subst haddress
          rw [hold, Function.update_self]
          exact .inr List.mem_cons_self
        · rw [hold, Function.update_of_ne haddress]
          exact .inl rfl
      · exact .inr (List.mem_cons_of_mem _ hnew)

theorem write_of_mem {writes : List (Nat × Text)} {memory : Nat → Text} {address : Nat} {key : Text}
    (hdistinct : (writes.map Prod.fst).Nodup) (h : (address, key) ∈ writes) :
    Edit.write memory writes address = key := by
  unfold Edit.write
  induction writes generalizing memory with
  | nil => cases h
  | cons first rest ih =>
      obtain ⟨hfirst, hrest⟩ := List.nodup_cons.mp hdistinct
      rw [List.foldl_cons]
      -- the writes that follow the first one go to other addresses
      rcases List.mem_cons.mp h with rfl | hlater
      · have hkept : ∀ other ∈ rest, other.1 ≠ address :=
          fun other hother heq => hfirst (List.mem_map.mpr ⟨other, hother, heq⟩)
        exact (write_of_forall_ne hkept).trans (Function.update_self ..)
      · exact ih hrest hlater

theorem stands_set {o : Object} {key : Text} {value : Json} {issued entry : Nat}
    (hstands : Stands memory o) (hnew : o.has key = false → memory entry = key) :
    Stands memory (o.set key value issued entry) := by
  have hold : ∀ name ∈ o.members.map Prod.fst, memory (o.entry name) = name := by
    intro name hname
    obtain ⟨member, hmember, rfl⟩ := List.mem_map.mp hname
    exact hstands member hmember
  intro member hmember
  show memory ((if o.has key then o.entry else Function.update o.entry key entry) member.1) = _
  have hkeys : member.1 ∈ (Json.setMember key value o.members).map Prod.fst :=
    List.mem_map_of_mem hmember
  rw [Json.setMember_keys] at hkeys
  by_cases hin : key ∈ o.members.map Prod.fst
  -- a key that is there keeps its entry, so only the old entries count
  · rw [if_pos hin] at hkeys
    rw [if_pos (show o.has key = true from decide_eq_true hin)]
    exact hold member.1 hkeys
  · have hhas : o.has key = false := decide_eq_false hin
    rw [if_neg hin, List.mem_append, List.mem_singleton] at hkeys
    rw [hhas, if_neg Bool.false_ne_true]
    by_cases hkey : member.1 = key
    · rw [hkey, Function.update_self]
      exact hnew hhas
    · rw [Function.update_of_ne hkey]
      exact hold member.1 (hkeys.resolve_right hkey)

/-- What an edit may do leaves every object in use the keys that stand in its entries. -/
theorem stands_apply {heap : Heap} {e : Edit} (hstands : ∀ o ∈ heap.objects, Stands heap.memory o)
    (hissuable : e.Issuable heap) :
    ∀ o ∈ (e.apply heap).objects, Stands (e.apply heap).memory o := by
  have hkept : ∀ o ∈ heap.objects, Stands (e.apply heap).memory o := by
    intro o ho member hmember
    refine (write_of_forall_ne ?_).trans (hstands o ho member hmember)
    intro written hwritten
    exact (hissuable.free written hwritten o ho member hmember).symm
  intro o ho
  cases e with
  | copy i entry =>
      rcases List.mem_append.mp ho with hold | hcopy
      · exact hkept o hold
      · obtain ⟨source, hsource, rfl⟩ := List.mem_map.mp hcopy
        intro member hmember
        refine write_of_mem hissuable.distinct ?_
        exact List.mem_flatMap.mpr ⟨source, hsource, List.mem_map_of_mem hmember⟩
  | drop i => exact hkept o (List.mem_of_mem_eraseIdx ho)
  | set i key value issued entry =>
      rcases mem_modify ho with hold | ⟨source, hsource, rfl⟩
      · exact hkept o hold
      · exact stands_set (hkept source (List.mem_of_getElem? hsource)) fun hnew => by
          refine write_of_mem hissuable.distinct ?_
          show (entry, key) ∈ (heap.objects[i]?.toList.filter fun o => !o.has key).map _
          rw [hsource]
          simp [hnew]
  | remove i key =>
      rcases mem_modify ho with hold | ⟨source, hsource, rfl⟩
      · exact hkept o hold
      · intro member hmember
        exact hkept source (List.mem_of_getElem? hsource) member (List.mem_filter.mp hmember).1
  | scribble _ _ => exact hkept o ho

/-- The keys an object in use iterates over are the texts in its entries. -/
theorem stands_edited {heap : Heap} (hrun : Edited (fun heap e => e.Issuable heap) scanned heap) :
    ∀ o ∈ heap.objects, Stands heap.memory o := by
  induction hrun with
  | start hstands =>
      intro o ho
      rw [List.mem_singleton.mp ho]
      exact hstands
  | edit _ hissuable ih => exact stands_apply ih hissuable

/-- One edit that writes over no recorded key leaves them all where they were recorded. -/
theorem intact_apply {heap : Heap} {e : Edit} (hintact : Intact scanned heap.memory)
    (hnew : ¬ e.Overwrites heap scanned) : Intact scanned (e.apply heap).memory := by
  intro member hmember
  show Edit.write heap.memory (e.writes heap) (scanned.entry member.1) = member.1
  rcases write_cases heap.memory (e.writes heap) (scanned.entry member.1) with hold | hwritten
  · rw [hold]
    exact hintact member hmember
  · by_contra hother
    exact hnew ⟨_, hwritten, member, hmember, rfl, hother⟩

theorem intact_edited {heap : Heap} (hrun : Edited (Spares scanned) scanned heap) :
    Intact scanned heap.memory ∧ ∀ o ∈ heap.objects, Genuine scanned o.json o.address := by
  induction hrun with
  | start hstands =>
      refine ⟨fun member hmember => hstands member (mem_kept.mp hmember).1, ?_⟩
      intro o ho
      rw [List.mem_singleton.mp ho]
      exact genuine_start scanned
  | edit _ hallowed ih =>
      exact ⟨intact_apply ih.1 hallowed.keys, genuine_after ih.2 hallowed.values⟩

/-- After any series of edits that issues no recorded address again for another value and writes
over no recorded key, a gate answers with the memo what it answers without. -/
theorem memoGate_transparent (r : Runtime) (scanned : Object) {heap : Heap}
    (hrun : Edited (Spares scanned) scanned heap) (o : Object) (ho : o ∈ heap.objects)
    (issued : Issued)
    (hissued : wantsBreakpoint o.json = true →
      ¬ Reissued scanned "cache_control" ephemeral (issued.address "cache_control"))
    (hdecorated : Intact scanned issued.memory) (endpoint : Endpoint) :
    memoGate r (memoBegin r scanned) heap.memory issued o endpoint =
      memoGate r none heap.memory issued o endpoint :=
  memoGate_eq (intact_edited hrun).1 ((intact_edited hrun).2 o ho) hissued hdecorated endpoint

/-! ### A reasoning effort replaced in place -/

/-- A question with the client's own reasoning effort, each value and each key at an address of its
own. -/
def scannedQuestion : Object where
  members := [("model", .string "anthropic/m"), ("messages", .array [question]),
    ("reasoning_effort", .string "low")]
  address key := if key = text "model" then 1 else if key = text "messages" then 2 else 3
  entry key := if key = text "model" then 11 else if key = text "messages" then 12 else 13
  nodup := by decide

def scannedMemory (address : Nat) : Text :=
  if address = 11 then "model" else if address = 12 then "messages"
  else if address = 13 then "reasoning_effort" else ""

/-- The client's effort is deleted, which frees its value and its entry. -/
def clearedQuestion : Object := scannedQuestion.remove "reasoning_effort"

/-- A member with the value "high" is added in its place. -/
def replacedQuestion (key : Text) (address entry : Nat) : Object :=
  clearedQuestion.set key (.string "high") address entry

def replacedHeap (key : Text) (address entry : Nat) : Heap :=
  (Edit.set 0 key (.string "high") address entry).apply ⟨[clearedQuestion], scannedMemory⟩

def gateReplaced (memo : Option Memo) (key : Text) (address entry : Nat) : Gated :=
  let memory := (replacedHeap key address entry).memory
  memoGate (routedRuntime "high") memo memory ⟨fun _ => 5, memory⟩ (replacedQuestion key address entry)
    .pub

theorem clearedQuestion_uses : ∀ member ∈ clearedQuestion.members,
    clearedQuestion.address member.1 < 3 ∧ clearedQuestion.entry member.1 < 13 := by decide

theorem replacedHeap_issuable {key : Text} {address entry : Nat} (haddress : 3 ≤ address)
    (hentry : 13 ≤ entry) :
    Edit.Issuable ⟨[clearedQuestion], scannedMemory⟩
      (.set 0 key (.string "high") address entry) where
  value := by
    intro o ho member hmember heq
    obtain rfl := List.mem_singleton.mp ho
    have := (clearedQuestion_uses member hmember).1
    omega
  free := by
    intro written hwritten o ho member hmember
    obtain ⟨-, -, rfl⟩ := List.mem_map.mp hwritten
    obtain rfl := List.mem_singleton.mp ho
    have := (clearedQuestion_uses member hmember).2
    dsimp only
    omega
  distinct := by
    show ((([clearedQuestion].filter fun o => !o.has key).map fun _ => (entry, key)).map
      Prod.fst).Nodup
    cases hhas : clearedQuestion.has key <;> simp [hhas]

theorem replacedHeap_edited {allowed : Heap → Edit → Prop} {key : Text} {address entry : Nat}
    (hremove : allowed ⟨[scannedQuestion], scannedMemory⟩ (.remove 0 "reasoning_effort"))
    (hset : allowed ⟨[clearedQuestion], scannedMemory⟩ (.set 0 key (.string "high") address entry)) :
    Edited allowed scannedQuestion (replacedHeap key address entry) := by
  have hstands : Stands scannedMemory scannedQuestion := by
    unfold Stands
    decide
  exact .edit (.edit (.start hstands) hremove) hset

theorem remove_issuable (heap : Heap) (i : Nat) (key : Text) :
    Edit.Issuable heap (.remove i key) where
  value := trivial
  free _ hwritten := absurd hwritten List.not_mem_nil
  distinct := List.nodup_nil

theorem remove_spares (heap : Heap) (i : Nat) (key : Text) : Spares scanned heap (.remove i key) where
  issuable := remove_issuable heap i key
  values := id
  keys := by
    rintro ⟨_, hwritten, -⟩
    cases hwritten

/-- The key gets its old entry back, its value another address. -/
theorem replacedHeap_spares : Spares scannedQuestion ⟨[clearedQuestion], scannedMemory⟩
    (.set 0 "reasoning_effort" (.string "high") 4 13) where
  issuable := replacedHeap_issuable (by decide) (by decide)
  values h := absurd h.2.1 (by decide)
  keys := by
    rintro ⟨written, hwritten, member, hmember, hentry, hother⟩
    obtain ⟨-, -, rfl⟩ := List.mem_map.mp hwritten
    revert member
    decide

theorem memoGate_transparent_sample :
    gateReplaced (memoBegin (routedRuntime "high") scannedQuestion) "reasoning_effort" 4 13 =
      gateReplaced none "reasoning_effort" 4 13 := by
  have hrun := replacedHeap_edited (remove_spares _ _ _) replacedHeap_spares
  unfold gateReplaced
  exact memoGate_transparent (routedRuntime "high") scannedQuestion hrun
    (replacedQuestion "reasoning_effort" 4 13) List.mem_cons_self ⟨fun _ => 5, _⟩
    (fun h => absurd h (by decide +kernel)) (intact_edited hrun).1 .pub

/-- When the new effort gets the freed address, the gate answers with the old verdict: the body
goes public although a rule matches it.  So it does when another key gets the freed entry and its
value the freed address. -/
theorem memoGate_stale :
    (Edited (fun heap e => e.Issuable heap) scannedQuestion (replacedHeap "reasoning_effort" 3 14) ∧
      (gateReplaced (memoBegin (routedRuntime "high") scannedQuestion)
        "reasoning_effort" 3 14).endpoint = .pub ∧
      (gateReplaced none "reasoning_effort" 3 14).endpoint = .priv) ∧
    (Edited (fun heap e => e.Issuable heap) scannedQuestion (replacedHeap "user" 3 13) ∧
      (gateReplaced (memoBegin (routedRuntime "high") scannedQuestion) "user" 3 13).endpoint =
        .pub ∧
      (gateReplaced none "user" 3 13).endpoint = .priv) := by
  have hgated : ((gateReplaced (memoBegin (routedRuntime "high") scannedQuestion)
        "reasoning_effort" 3 14).endpoint = .pub ∧
      (gateReplaced none "reasoning_effort" 3 14).endpoint = .priv) ∧
    (gateReplaced (memoBegin (routedRuntime "high") scannedQuestion) "user" 3 13).endpoint = .pub ∧
      (gateReplaced none "user" 3 13).endpoint = .priv := by decide +kernel
  have hvalue := replacedHeap_edited (remove_issuable _ _ _)
    (@replacedHeap_issuable "reasoning_effort" 3 14 (by decide) (by decide))
  have hkey := replacedHeap_edited (remove_issuable _ _ _)
    (@replacedHeap_issuable "user" 3 13 (by decide) (by decide))
  exact ⟨⟨hvalue, hgated.1⟩, hkey, hgated.2⟩

end Recursant.Compliance
