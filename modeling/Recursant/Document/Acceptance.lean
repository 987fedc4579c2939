import Mathlib.Data.List.Forall2
import Recursant.Document.Binding

/-!
# What the loader accepts

The outcome of the binder in terms of the document's value: when it gets to a configuration, and
when it compares the key of something that has none.
-/

namespace Recursant.Document

open JsonString JsonText Startup

/-! ## Outcomes -/

section

variable {α β : Type} {x : Loaded α} {f : α → Loaded β} {R : Prop}

def Accepted (x : Loaded α) : Prop := ∃ a, x = .ok a

def Crashes (x : Loaded α) : Prop := x = .error .crashed

theorem accepted_ok (a : α) : Accepted (.ok a : Loaded α) := ⟨a, rfl⟩

theorem not_accepted_reject (message : Text) : ¬ Accepted (reject message : Loaded α) := by
  rintro ⟨a, ha⟩
  cases ha

theorem accepted_bind : Accepted (x >>= f) ↔ ∃ a, x = .ok a ∧ Accepted (f a) := by
  cases x with
  | error e =>
      constructor
      · rintro ⟨b, hb⟩
        cases hb
      · rintro ⟨a, ha, -⟩
        cases ha
  | ok a =>
      constructor
      · exact fun h => ⟨a, rfl, h⟩
      · rintro ⟨a', ha, h⟩
        obtain rfl := Except.ok.inj ha
        exact h

theorem crashes_bind : Crashes (x >>= f) ↔ Crashes x ∨ ∃ a, x = .ok a ∧ Crashes (f a) := by
  cases x with
  | error e =>
      constructor
      · intro h
        left
        cases h
        rfl
      · rintro (h | ⟨a, ha, -⟩)
        · cases h
          rfl
        · cases ha
  | ok a =>
      constructor
      · exact fun h => .inr ⟨a, rfl, h⟩
      · rintro (h | ⟨a', ha, h⟩)
        · cases h
        · obtain rfl := Except.ok.inj ha
          exact h

/-- A step whose result does not decide what follows. -/
theorem accepted_seq (h : ∀ a, Accepted (f a) ↔ R) : Accepted (x >>= f) ↔ Accepted x ∧ R := by
  rw [accepted_bind]
  constructor
  · rintro ⟨a, ha, hf⟩
    exact ⟨⟨a, ha⟩, (h a).mp hf⟩
  · rintro ⟨⟨a, ha⟩, hR⟩
    exact ⟨a, ha, (h a).mpr hR⟩

/-- The same of a step that does not crash. -/
theorem crashes_seq (hx : ¬ Crashes x) (h : ∀ a, Crashes (f a) ↔ R) :
    Crashes (x >>= f) ↔ Accepted x ∧ R := by
  rw [crashes_bind]
  constructor
  · rintro (hcrash | ⟨a, ha, hf⟩)
    · exact absurd hcrash hx
    · exact ⟨⟨a, ha⟩, (h a).mp hf⟩
  · rintro ⟨⟨a, ha⟩, hR⟩
    exact .inr ⟨a, ha, (h a).mpr hR⟩

theorem not_crashes_bind (hx : ¬ Crashes x) (hf : ∀ a, ¬ Crashes (f a)) : ¬ Crashes (x >>= f) := by
  rw [crashes_bind]
  rintro (h | ⟨a, -, h⟩)
  · exact hx h
  · exact hf a h

theorem not_crashes_ok (a : α) : ¬ Crashes (.ok a : Loaded α) := nofun

theorem not_crashes_reject (message : Text) : ¬ Crashes (reject message : Loaded α) := nofun

theorem required_eq_ok {found : Option α} {message : Text} {a : α} :
    required found message = .ok a ↔ found = some a := by
  unfold required
  cases found with
  | none => exact iff_of_false nofun nofun
  | some b => exact ⟨fun h => congrArg some (Except.ok.inj h), fun h => congrArg _ (Option.some.inj h)⟩

theorem not_crashes_required {found : Option α} {message : Text} :
    ¬ Crashes (required found message) := by
  unfold required
  cases found <;> nofun

theorem accepted_ensure {p : Bool} {message : Text} :
    Accepted (ensure p message) ↔ p = true := by
  unfold ensure
  cases p with
  | true => exact iff_of_true (accepted_ok ()) rfl
  | false => exact iff_of_false (not_accepted_reject message) nofun

theorem not_crashes_ensure {p : Bool} {message : Text} : ¬ Crashes (ensure p message) := by
  unfold ensure
  cases p <;> nofun

theorem accepted_map {g : α → β} : Accepted (g <$> x) ↔ Accepted x := by
  cases x with
  | error e => exact iff_of_false (fun ⟨_, h⟩ => nomatch h) (fun ⟨_, h⟩ => nomatch h)
  | ok a => exact iff_of_true ⟨g a, rfl⟩ ⟨a, rfl⟩

theorem not_crashes_map {g : α → β} (h : ¬ Crashes x) : ¬ Crashes (g <$> x) := by
  cases x with
  | error e =>
      intro hcrash
      cases e with
      | crashed => exact h rfl
      | rejected m => cases hcrash
  | ok a => nofun

theorem accepted_forM {γ : Type} {g : γ → Loaded Unit} {xs : List γ} :
    Accepted (xs.forM g) ↔ ∀ x ∈ xs, Accepted (g x) := by
  induction xs with
  | nil => exact iff_of_true (accepted_ok ()) nofun
  | cons x xs ih =>
      show Accepted (g x >>= fun _ => xs.forM g) ↔ _
      rw [accepted_seq fun _ => ih, List.forall_mem_cons]

/-- The first entry that crashes is behind entries that pass. -/
theorem crashes_forM {γ : Type} {g : γ → Loaded Unit} {xs : List γ} :
    Crashes (xs.forM g) ↔ ∃ before x after, xs = before ++ x :: after ∧
      (∀ y ∈ before, Accepted (g y)) ∧ Crashes (g x) := by
  induction xs with
  | nil =>
      constructor
      · intro h
        cases h
      · rintro ⟨before, x, after, h, -⟩
        simp at h
  | cons x xs ih =>
      show Crashes (g x >>= fun _ => xs.forM g) ↔ _
      rw [crashes_bind]
      constructor
      · rintro (h | ⟨a, ha, h⟩)
        · exact ⟨[], x, xs, rfl, nofun, h⟩
        · obtain ⟨before, y, after, rfl, hbefore, hy⟩ := ih.mp h
          refine ⟨x :: before, y, after, rfl, ?_, hy⟩
          rw [List.forall_mem_cons]
          exact ⟨⟨a, ha⟩, hbefore⟩
      · rintro ⟨before, y, after, hsplit, hbefore, hy⟩
        cases before with
        | nil =>
            obtain ⟨rfl, rfl⟩ := List.cons.inj hsplit
            exact .inl hy
        | cons z before =>
            obtain ⟨rfl, rfl⟩ := List.cons.inj hsplit
            rw [List.forall_mem_cons] at hbefore
            obtain ⟨⟨a, ha⟩, hbefore⟩ := hbefore
            exact .inr ⟨a, ha, ih.mpr ⟨before, y, after, rfl, hbefore, hy⟩⟩

theorem accepted_mapM {γ : Type} {g : γ → Loaded α} {xs : List γ} :
    Accepted (xs.mapM g) ↔ ∀ x ∈ xs, Accepted (g x) := by
  induction xs with
  | nil => exact iff_of_true (accepted_ok []) nofun
  | cons x xs ih =>
      rw [List.mapM_cons, List.forall_mem_cons, ← ih]
      exact accepted_seq fun a => (accepted_seq fun as => iff_of_true (accepted_ok _) trivial).trans
        (and_iff_left trivial)

theorem not_crashes_mapM {γ : Type} {g : γ → Loaded α} (h : ∀ x, ¬ Crashes (g x)) (xs : List γ) :
    ¬ Crashes (xs.mapM g) := by
  induction xs with
  | nil => nofun
  | cons x xs ih =>
      rw [List.mapM_cons]
      exact not_crashes_bind (h x) fun a => not_crashes_bind ih fun as => not_crashes_ok _

end

/-! ## Values -/

/-- The member that `strcmp` finds. -/
def get : Value → Text → Option Value
  | .object members, key => (members.find? fun m => keyText m.1 = key).map Prod.snd
  | _, _ => none

/-- The items of an array or the values of an object, as the binder walks them. -/
def elements : Value → List Value
  | .array items => items
  | .object members => members.map Prod.snd
  | _ => []

/-- The text of a node. -/
def strOf : Value → Option Text
  | .string v => some (cString (encode v))
  | .number n => some (printLong n)
  | .word w => some w.bytes
  | _ => none

/-- The text of a node that is not marked as a number. -/
def textOf : Value → Option Text
  | .number _ => none
  | v => strOf v

/-- Every key that the binder compares is among these; an array must have no items. -/
def KeysIn (known : List Text) : Value → Prop
  | .object members => ∀ m ∈ members, keyText m.1 ∈ known
  | .array items => items = []
  | _ => True

def NonemptyArray (v : Value) : Prop := ∃ item items, v = .array (item :: items)

theorem node_str (key : Option Text) (v : Value) : (node key v).str = strOf v := by
  cases v <;> rfl

theorem node_text (key : Option Text) (v : Value) :
    (if (node key v).num then none else (node key v).str) = textOf v := by
  cases v <;> rfl

theorem node_child (key : Option Text) (v : Value) : (node key v).child = (node none v).child := by
  cases v <;> rfl

theorem objGet_node (key : Option Text) (v : Value) (k : Text) :
    objGet (node key v) k = (get v k).map (node (some k)) := by
  unfold objGet
  cases v with
  | object members =>
      rw [node, nodeMembers_eq]
      unfold get
      rw [Option.map_map]
      induction members with
      | nil => rfl
      | cons m members ih =>
          have hkey : (memberNode m).key = some (keyText m.1) := node_key _ _
          rw [List.map_cons]
          by_cases h : keyText m.1 = k
          · have hfound : (m :: members).find? (fun m => decide (keyText m.1 = k)) = some m :=
              List.find?_cons_of_pos (decide_eq_true h)
            rw [List.find?_cons_of_pos (by rw [hkey, h]; exact decide_eq_true rfl), hfound, ← h]
            rfl
          · rw [List.find?_cons_of_neg, List.find?_cons_of_neg (by simpa using h)]
            · exact ih
            · rw [hkey, decide_eq_true_eq]
              exact fun heq => h (Option.some.inj heq)
  | array items =>
      rw [node, nodeItems_eq]
      refine List.find?_eq_none.mpr fun c hc => ?_
      obtain ⟨item, -, rfl⟩ := List.mem_map.mp hc
      rw [node_key]
      intro hkey
      cases hkey
  | string | number | word => rfl

/-- The children are the elements, each under some key or none. -/
theorem child_node (key : Option Text) (v : Value) :
    List.Forall₂ (fun c e => ∃ k, c = node k e) (node key v).child (elements v) := by
  cases v with
  | object members =>
      rw [node, nodeMembers_eq, elements, List.forall₂_map_left_iff, List.forall₂_map_right_iff]
      exact List.forall₂_same.mpr fun m _ => ⟨_, rfl⟩
  | array items =>
      rw [node, nodeItems_eq, elements, List.forall₂_map_left_iff]
      exact List.forall₂_same.mpr fun item _ => ⟨_, rfl⟩
  | string | number | word => exact .nil

/-! ## Keys -/

section

variable {known : List Text} {place : Text}

theorem keysKnown_members (members : List (List Char × Value)) :
    (Accepted (keysKnown known place (members.map memberNode)) ↔
      ∀ m ∈ members, keyText m.1 ∈ known) ∧
    ¬ Crashes (keysKnown known place (members.map memberNode)) := by
  induction members with
  | nil => exact ⟨iff_of_true (accepted_ok ()) nofun, nofun⟩
  | cons m members ih =>
      have hkey : (memberNode m).key = some (keyText m.1) := node_key _ _
      rw [List.map_cons, keysKnown, hkey, List.forall_mem_cons]
      dsimp only
      by_cases h : keyText m.1 ∈ known
      · rw [if_pos h]
        exact ⟨ih.1.trans (and_iff_right h).symm, ih.2⟩
      · rw [if_neg h]
        exact ⟨iff_of_false (not_accepted_reject _) (fun hall => h hall.1), not_crashes_reject _⟩

theorem objKeysKnown_node (key : Option Text) (v : Value) :
    (Accepted (objKeysKnown (node key v) known place) ↔ KeysIn known v) ∧
    (Crashes (objKeysKnown (node key v) known place) ↔ NonemptyArray v) := by
  unfold objKeysKnown
  cases v with
  | object members =>
      rw [node, nodeMembers_eq]
      obtain ⟨haccepted, hcrashes⟩ := @keysKnown_members known place members
      exact ⟨haccepted, iff_of_false hcrashes (by rintro ⟨item, items, h⟩; cases h)⟩
  | array items =>
      rw [node, nodeItems_eq]
      cases items with
      | nil =>
          exact ⟨iff_of_true (accepted_ok ()) rfl,
            iff_of_false (by intro h; cases h) (by rintro ⟨item, items, h⟩; cases h)⟩
      | cons item items =>
          rw [List.map_cons, keysKnown, node_key]
          exact ⟨iff_of_false (by rintro ⟨u, h⟩; cases h) (by intro h; cases h),
            iff_of_true rfl ⟨item, items, rfl⟩⟩
  | string | number | word =>
      exact ⟨iff_of_true (accepted_ok ()) trivial,
        iff_of_false (by intro h; cases h) (by rintro ⟨item, items, h⟩; cases h)⟩

end

/-! ## Fields -/

/-- A member that has to be there. -/
def Field (P : Value → Prop) (v : Value) (k : Text) : Prop := ∃ f, get v k = some f ∧ P f

/-- A member that may be missing. -/
def Optional (P : Value → Prop) (v : Value) (k : Text) : Prop := ∀ f, get v k = some f → P f

/-- What the binder takes for a string. -/
def IsText (v : Value) : Prop := ∃ t, textOf v = some t

def IsNumber (v : Value) : Prop := ∃ n, v = .number n

/-- A number that fits a `long`. -/
def IsLong (v : Value) : Prop := ∃ n, v = .number n ∧ longMin ≤ n ∧ n ≤ longMax

theorem bindString_node {key : Option Text} {v : Value} {what t : Text} :
    bindString (node key v) what = .ok t ↔ textOf v = some t := by
  unfold bindString
  rw [node_text, required_eq_ok]

theorem accepted_bindString {key : Option Text} {v : Value} {what : Text} :
    Accepted (bindString (node key v) what) ↔ IsText v := by
  unfold Accepted IsText
  simp only [bindString_node]

theorem not_crashes_bindString {member : Jval} {what : Text} :
    ¬ Crashes (bindString member what) := not_crashes_required

theorem accepted_bindOptionalString {key : Option Text} {v : Value} {k what : Text} :
    Accepted (bindOptionalString (node key v) k what) ↔ Optional IsText v k := by
  unfold bindOptionalString Optional
  rw [objGet_node]
  cases get v k with
  | none => exact iff_of_true (accepted_ok none) nofun
  | some f =>
      rw [Option.map_some]
      dsimp only
      rw [accepted_map, accepted_bindString]
      exact ⟨fun h f' hf => Option.some.inj hf ▸ h, fun h => h f rfl⟩

theorem not_crashes_bindOptionalString {obj : Jval} {k what : Text} :
    ¬ Crashes (bindOptionalString obj k what) := by
  unfold bindOptionalString
  split
  · nofun
  · exact not_crashes_map not_crashes_bindString

/-- A required member and a check of it, for an outcome that no missing member has. -/
theorem required_field {α : Type} {Q : Loaded α → Prop} (hmissing : ∀ message, ¬ Q (reject message))
    {key : Option Text} {v : Value} {k message : Text} {f : Jval → Loaded α} {P : Value → Prop}
    (h : ∀ key w, Q (f (node key w)) ↔ P w) :
    Q (required (objGet (node key v) k) message >>= f) ↔ Field P v k := by
  unfold Field
  rw [objGet_node]
  cases get v k with
  | none =>
      refine iff_of_false (hmissing message) ?_
      rintro ⟨w, hw, -⟩
      cases hw
  | some w =>
      refine (h (some k) w).trans ⟨fun hP => ⟨w, rfl, hP⟩, ?_⟩
      rintro ⟨w', hw, hP⟩
      exact Option.some.inj hw ▸ hP

theorem accepted_field {α : Type} {key : Option Text} {v : Value} {k message : Text}
    {f : Jval → Loaded α} {P : Value → Prop} (h : ∀ key w, Accepted (f (node key w)) ↔ P w) :
    Accepted (required (objGet (node key v) k) message >>= f) ↔ Field P v k :=
  required_field not_accepted_reject h

theorem crashes_field {α : Type} {key : Option Text} {v : Value} {k message : Text}
    {f : Jval → Loaded α} {P : Value → Prop} (h : ∀ key w, Crashes (f (node key w)) ↔ P w) :
    Crashes (required (objGet (node key v) k) message >>= f) ↔ Field P v k :=
  required_field not_crashes_reject h

theorem field_and {P : Value → Prop} {R : Prop} {v : Value} {k : Text} :
    Field (fun w => P w ∧ R) v k ↔ Field P v k ∧ R := by
  unfold Field
  constructor
  · rintro ⟨w, hw, hP, hR⟩
    exact ⟨⟨w, hw, hP⟩, hR⟩
  · rintro ⟨⟨w, hw, hP⟩, hR⟩
    exact ⟨w, hw, hP, hR⟩

/-- A required member that is bound, and what follows it. -/
theorem accepted_boundField {α β : Type} {key : Option Text} {v : Value} {k message : Text}
    {bind : Jval → Loaded β} {f : β → Loaded α} {P : Value → Prop} {R : Prop}
    (hbind : ∀ key w, Accepted (bind (node key w)) ↔ P w) (h : ∀ b, Accepted (f b) ↔ R) :
    Accepted (required (objGet (node key v) k) message >>= fun m => bind m >>= f) ↔
      Field P v k ∧ R := by
  rw [← field_and]
  refine accepted_field fun key w => ?_
  rw [accepted_seq h, hbind]

theorem accepted_stringField {α : Type} {key : Option Text} {v : Value} {k message what : Text}
    {f : Text → Loaded α} {R : Prop} (h : ∀ t, Accepted (f t) ↔ R) :
    Accepted (required (objGet (node key v) k) message >>= fun m => bindString m what >>= f) ↔
      Field IsText v k ∧ R :=
  accepted_boundField (fun _ _ => accepted_bindString) h

/-- The member crashes the binding of it, or what follows crashes. -/
theorem crashes_boundField {α β : Type} {key : Option Text} {v : Value} {k message : Text}
    {bind : Jval → Loaded β} {f : β → Loaded α} {P Q : Value → Prop} {R : Prop}
    (hbind : ∀ key w, (Accepted (bind (node key w)) ↔ P w) ∧ (Crashes (bind (node key w)) ↔ Q w))
    (h : ∀ b, Crashes (f b) ↔ R) :
    Crashes (required (objGet (node key v) k) message >>= fun m => bind m >>= f) ↔
      Field (fun w => Q w ∨ P w ∧ R) v k := by
  refine crashes_field fun key w => ?_
  rw [crashes_bind, (hbind key w).2, ← (hbind key w).1]
  refine or_congr_right ?_
  constructor
  · rintro ⟨b, hb, hf⟩
    exact ⟨⟨b, hb⟩, (h b).mp hf⟩
  · rintro ⟨⟨b, hb⟩, hR⟩
    exact ⟨b, hb, (h b).mpr hR⟩

/-- The same of a binding that does not crash. -/
theorem crashes_plainField {α β : Type} {key : Option Text} {v : Value} {k message : Text}
    {bind : Jval → Loaded β} {f : β → Loaded α} {P : Value → Prop} {R : Prop}
    (hbind : ∀ key w, Accepted (bind (node key w)) ↔ P w) (hnot : ∀ m, ¬ Crashes (bind m))
    (h : ∀ b, Crashes (f b) ↔ R) :
    Crashes (required (objGet (node key v) k) message >>= fun m => bind m >>= f) ↔
      Field P v k ∧ R := by
  rw [← field_and]
  refine crashes_field fun key w => ?_
  rw [crashes_seq (hnot _) h, hbind]

/-! ## Sections -/

/-- What the binder asks of a legacy section. -/
structure SectionOk (adapter : Bool) (v : Value) : Prop where
  keys : KeysIn (sectionKeys adapter) v
  url : Field IsText v "url"
  model : Optional IsText v "model"
  keyEnv : Optional IsText v "api_key_env"
  adapter : adapter = true →
    Optional (fun a => ∃ t, textOf a = some t ∧ adapterKnown t = true) v "adapter"

theorem accepted_bindKnownAdapter {key : Option Text} {v : Value} {name : Text} :
    Accepted (bindKnownAdapter (node key v) name) ↔
      Optional (fun a => ∃ t, textOf a = some t ∧ adapterKnown t = true) v "adapter" := by
  unfold bindKnownAdapter
  rw [accepted_bind]
  unfold bindOptionalString Optional
  rw [objGet_node]
  cases get v (text "adapter") with
  | none =>
      refine iff_of_true ⟨none, rfl, ?_⟩ nofun
      exact (accepted_seq fun _ => iff_of_true (accepted_ok _) trivial).mpr ⟨accepted_ok _, trivial⟩
  | some a =>
      rw [Option.map_some]
      dsimp only
      constructor
      · rintro ⟨adapter, hadapter, hrest⟩ f hf
        obtain rfl := Option.some.inj hf
        cases hbind : bindString (node (some (text "adapter")) a) (name ++ text ".adapter") with
        | error e =>
            rw [hbind] at hadapter
            cases hadapter
        | ok t =>
            rw [hbind] at hadapter
            obtain rfl := Except.ok.inj hadapter
            refine ⟨t, bindString_node.mp hbind, ?_⟩
            exact accepted_ensure.mp
              ((accepted_seq fun _ => iff_of_true (accepted_ok _) trivial).mp hrest).1
      · intro h
        obtain ⟨t, ht, hknown⟩ := h a rfl
        refine ⟨some t, ?_, ?_⟩
        · rw [bindString_node.mpr ht]
          rfl
        · exact (accepted_seq fun _ => iff_of_true (accepted_ok _) trivial).mpr
            ⟨accepted_ensure.mpr hknown, trivial⟩

theorem not_crashes_bindAdapter {o : Jval} {name : Text} {adapter : Bool} :
    ¬ Crashes (bindAdapter o name adapter) := by
  unfold bindAdapter
  split
  · exact not_crashes_bind not_crashes_bindOptionalString fun _ =>
      not_crashes_bind not_crashes_ensure fun _ => not_crashes_ok _
  · nofun

theorem accepted_bindAdapter {key : Option Text} {v : Value} {name : Text} {adapter : Bool} :
    Accepted (bindAdapter (node key v) name adapter) ↔ (adapter = true →
      Optional (fun a => ∃ t, textOf a = some t ∧ adapterKnown t = true) v "adapter") := by
  unfold bindAdapter
  cases adapter with
  | true =>
      rw [if_pos rfl, accepted_bindKnownAdapter]
      exact ⟨fun h _ => h, fun h => h rfl⟩
  | false =>
      rw [if_neg (by decide)]
      exact iff_of_true (accepted_ok none) nofun

theorem bindEndpointSection_node {key : Option Text} {v : Value} {name : Text} {adapter : Bool} :
    (Accepted (bindEndpointSection (node key v) name adapter) ↔ SectionOk adapter v) ∧
    (Crashes (bindEndpointSection (node key v) name adapter) ↔ NonemptyArray v) := by
  unfold bindEndpointSection
  constructor
  · refine (accepted_seq fun _ => accepted_stringField fun url => accepted_seq fun model =>
      accepted_seq fun keyEnv => accepted_seq fun a => iff_of_true (accepted_ok _) trivial).trans ?_
    rw [(objKeysKnown_node key v).1, accepted_bindOptionalString, accepted_bindOptionalString,
      accepted_bindAdapter]
    constructor
    · rintro ⟨hkeys, hurl, hmodel, hkeyEnv, hadapter, -⟩
      exact ⟨hkeys, hurl, hmodel, hkeyEnv, hadapter⟩
    · rintro ⟨hkeys, hurl, hmodel, hkeyEnv, hadapter⟩
      exact ⟨hkeys, hurl, hmodel, hkeyEnv, hadapter, trivial⟩
  · rw [crashes_bind, (objKeysKnown_node key v).2]
    constructor
    · rintro (hcrash | ⟨u, -, hcrash⟩)
      · exact hcrash
      · exact absurd hcrash (not_crashes_bind not_crashes_required fun u =>
          not_crashes_bind not_crashes_bindString fun url =>
          not_crashes_bind not_crashes_bindOptionalString fun model =>
          not_crashes_bind not_crashes_bindOptionalString fun keyEnv =>
          not_crashes_bind not_crashes_bindAdapter fun a => not_crashes_ok _)
    · exact .inl

/-! ## Entries -/

/-- What the binder asks of an alias and of a project, beside the keys. -/
def AliasFields (e : Value) : Prop :=
  Field IsText e "from" ∧ Field IsText e "model" ∧
    Field (fun f => strOf f = some (text "private") ∨ strOf f = some (text "public")) e "endpoint"

def ProjectFields (e : Value) : Prop := Field IsText e "name" ∧ Field IsText e "token_env"

/-- A required member with a text, of whatever kind. -/
theorem accepted_withText {α : Type} {key : Option Text} {v : Value} {k message : Text}
    {f : Jval → Loaded α} :
    Accepted (required ((objGet (node key v) k).filter (·.str.isSome)) message >>= f) ↔
      ∃ w, get v k = some w ∧ (strOf w).isSome = true ∧ Accepted (f (node (some k) w)) := by
  rw [accepted_bind]
  constructor
  · rintro ⟨m, hm, hf⟩
    rw [required_eq_ok, Option.filter_eq_some_iff, objGet_node, Option.map_eq_some_iff] at hm
    obtain ⟨⟨w, hw, rfl⟩, hstr⟩ := hm
    rw [node_str] at hstr
    exact ⟨w, hw, hstr, hf⟩
  · rintro ⟨w, hw, hstr, hf⟩
    refine ⟨node (some k) w, ?_, hf⟩
    rw [required_eq_ok, Option.filter_eq_some_iff, objGet_node, hw]
    exact ⟨rfl, by rw [node_str]; exact hstr⟩

theorem str_of_isText {v : Value} (h : IsText v) : (strOf v).isSome = true := by
  obtain ⟨t, ht⟩ := h
  cases v <;> first | rfl | cases ht

theorem endpointText_eq_ok {key : Option Text} {v : Value} {message t : Text} :
    required ((objGet (node key v) "endpoint").bind (·.str)) message = .ok t ↔
      ∃ f, get v "endpoint" = some f ∧ strOf f = some t := by
  rw [required_eq_ok, objGet_node, Option.bind_eq_some_iff]
  constructor
  · rintro ⟨m, hm, hstr⟩
    obtain ⟨f, hf, rfl⟩ := Option.map_eq_some_iff.mp hm
    exact ⟨f, hf, by rw [← node_str, hstr]⟩
  · rintro ⟨f, hf, hstr⟩
    exact ⟨node (some (text "endpoint")) f, by rw [hf]; rfl, by rw [node_str, hstr]⟩

theorem accepted_bindAlias {key : Option Text} {v : Value} {i : Nat} :
    Accepted (bindAlias (node key v) i) ↔ AliasFields v := by
  unfold bindAlias
  dsimp only
  rw [accepted_withText]
  constructor
  · rintro ⟨w, hw, -, h⟩
    rw [accepted_bind] at h
    obtain ⟨endpoint, hendpoint, h⟩ := h
    rw [accepted_withText] at h
    obtain ⟨m, hm, -, h⟩ := h
    rw [accepted_bind] at h
    obtain ⟨name, hname, h⟩ := h
    rw [accepted_bind] at h
    obtain ⟨model, hmodel, h⟩ := h
    obtain ⟨f, hf, hstr⟩ := endpointText_eq_ok.mp hendpoint
    refine ⟨⟨w, hw, name, bindString_node.mp hname⟩, ⟨m, hm, model, bindString_node.mp hmodel⟩,
      f, hf, ?_⟩
    show strOf f = _ ∨ strOf f = _
    rw [hstr]
    split at h
    next hpriv => exact .inl (congrArg some hpriv)
    next =>
        split at h
        next hpub => exact .inr (congrArg some hpub)
        next => exact absurd h (not_accepted_reject _)
  · rintro ⟨⟨w, hw, name, hname⟩, ⟨m, hm, model, hmodel⟩, f, hf, hstr⟩
    change strOf f = _ ∨ strOf f = _ at hstr
    obtain ⟨endpoint, hendpoint⟩ : ∃ t, strOf f = some t := by
      cases hstr with
      | inl h => exact ⟨_, h⟩
      | inr h => exact ⟨_, h⟩
    refine ⟨w, hw, str_of_isText ⟨name, hname⟩, ?_⟩
    rw [accepted_bind]
    refine ⟨endpoint, endpointText_eq_ok.mpr ⟨f, hf, hendpoint⟩, ?_⟩
    rw [accepted_withText]
    refine ⟨m, hm, str_of_isText ⟨model, hmodel⟩, ?_⟩
    rw [accepted_bind]
    refine ⟨name, bindString_node.mpr hname, ?_⟩
    rw [accepted_bind]
    refine ⟨model, bindString_node.mpr hmodel, ?_⟩
    rw [hendpoint, Option.some.injEq, Option.some.injEq] at hstr
    by_cases hpriv : endpoint = text "private"
    · rw [if_pos hpriv]
      exact accepted_ok _
    · rw [if_neg hpriv, if_pos (hstr.resolve_left hpriv)]
      exact accepted_ok _

theorem not_crashes_bindAlias {a : Jval} {i : Nat} : ¬ Crashes (bindAlias a i) := by
  refine not_crashes_bind not_crashes_required fun _ => not_crashes_bind not_crashes_required fun _ =>
    not_crashes_bind not_crashes_required fun _ => not_crashes_bind not_crashes_bindString fun _ =>
    not_crashes_bind not_crashes_bindString fun _ => ?_
  split
  · exact not_crashes_ok _
  · split
    · exact not_crashes_ok _
    · exact not_crashes_reject _

theorem accepted_bindProject {key : Option Text} {v : Value} {i : Nat} :
    Accepted (bindProject (node key v) i) ↔ ProjectFields v := by
  unfold bindProject
  dsimp only
  rw [accepted_withText]
  constructor
  · rintro ⟨w, hw, -, h⟩
    rw [accepted_withText] at h
    obtain ⟨t, ht, -, h⟩ := h
    rw [accepted_bind] at h
    obtain ⟨name, hname, h⟩ := h
    rw [accepted_bind] at h
    obtain ⟨tokenEnv, htokenEnv, -⟩ := h
    exact ⟨⟨w, hw, name, bindString_node.mp hname⟩, t, ht, tokenEnv,
      bindString_node.mp htokenEnv⟩
  · rintro ⟨⟨w, hw, hname⟩, t, ht, htokenEnv⟩
    refine ⟨w, hw, str_of_isText hname, ?_⟩
    rw [accepted_withText]
    refine ⟨t, ht, str_of_isText htokenEnv, ?_⟩
    exact (accepted_seq fun name => accepted_seq fun tokenEnv =>
      iff_of_true (accepted_ok _) trivial).mpr
        ⟨accepted_bindString.mpr hname, accepted_bindString.mpr htokenEnv, trivial⟩

theorem not_crashes_bindProject {p : Jval} {i : Nat} : ¬ Crashes (bindProject p i) :=
  not_crashes_bind not_crashes_required fun _ => not_crashes_bind not_crashes_required fun _ =>
    not_crashes_bind not_crashes_bindString fun _ =>
    not_crashes_bind not_crashes_bindString fun _ => not_crashes_ok _

/-! ## Lists -/

def NotScalar (v : Value) : Prop := strOf v = none

theorem accepted_bindEntries {α : Type} {key : Option Text} {v : Value} {k message : Text}
    {bind : Jval → Nat → Loaded α} {P : Value → Prop}
    (h : ∀ key e i, Accepted (bind (node key e) i) ↔ P e) :
    Accepted (bindEntries bind (objGet (node key v) k) message) ↔
      Optional (fun l => NotScalar l ∧ ∀ e ∈ elements l, P e) v k := by
  unfold bindEntries Optional
  rw [objGet_node]
  cases get v k with
  | none => exact iff_of_true (accepted_ok []) nofun
  | some l =>
      have hchildren := child_node (some k) l
      rw [Option.map_some]
      dsimp only
      rw [accepted_seq fun _ => accepted_mapM, accepted_ensure, node_str,
        Option.isNone_iff_eq_none]
      have hall : ∀ n, (∀ x ∈ (node (some k) l).child.zipIdx n, Accepted (bind x.1 x.2)) ↔
          ∀ e ∈ elements l, P e := by
        generalize (node (some k) l).child = cs at hchildren
        generalize elements l = es at hchildren
        induction hchildren with
        | nil => exact fun n => iff_of_true nofun nofun
        | cons hc _ ih =>
            obtain ⟨key, rfl⟩ := hc
            intro n
            rw [List.zipIdx_cons, List.forall_mem_cons, List.forall_mem_cons, ih, h]
      rw [hall]
      exact ⟨fun hl f hf => Option.some.inj hf ▸ hl, fun hl => hl l rfl⟩

theorem not_crashes_bindEntries {α : Type} {bind : Jval → Nat → Loaded α} {list : Option Jval}
    {message : Text} (h : ∀ c i, ¬ Crashes (bind c i)) :
    ¬ Crashes (bindEntries bind list message) := by
  unfold bindEntries
  split
  next => nofun
  next =>
      exact not_crashes_bind not_crashes_ensure fun _ => not_crashes_mapM (fun (x : Jval × Nat) => h x.1 x.2) _

/-- The keys of the entries: accepted, or not there in one behind accepted ones. -/
theorem entriesKnown_node {key : Option Text} {v : Value} {k place : Text} {known : List Text} :
    (Accepted (entriesKnown known place (objGet (node key v) k)) ↔
      Optional (fun l => ∀ e ∈ elements l, KeysIn known e) v k) ∧
    (Crashes (entriesKnown known place (objGet (node key v) k)) ↔
      ∃ l before e after, get v k = some l ∧ elements l = before ++ e :: after ∧
        (∀ x ∈ before, KeysIn known x) ∧ NonemptyArray e) := by
  unfold entriesKnown Optional
  rw [objGet_node]
  cases get v k with
  | none =>
      exact ⟨iff_of_true (accepted_ok ()) nofun,
        iff_of_false nofun (by rintro ⟨l, _, _, _, h, -⟩; cases h)⟩
  | some l =>
      have hchildren := child_node (some k) l
      have heach : ((node (some k) l).child.forM fun c => objKeysKnown c known place) =
          (elements l).forM fun e => objKeysKnown (node none e) known place := by
        generalize (node (some k) l).child = cs at hchildren
        generalize elements l = es at hchildren
        induction hchildren with
        | nil => rfl
        | @cons c e cs es hc _ ih =>
            obtain ⟨key, rfl⟩ := hc
            show (objKeysKnown (node key e) known place >>= fun _ =>
                cs.forM fun c => objKeysKnown c known place) =
              (objKeysKnown (node none e) known place >>= fun _ =>
                es.forM fun e => objKeysKnown (node none e) known place)
            rw [ih]
            unfold objKeysKnown
            rw [node_child]
      rw [Option.map_some]
      dsimp only
      rw [heach, accepted_forM, crashes_forM]
      simp only [objKeysKnown_node]
      constructor
      · exact ⟨fun hl f hf => Option.some.inj hf ▸ hl, fun hl => hl l rfl⟩
      · constructor
        · rintro ⟨before, e, after, h⟩
          exact ⟨l, before, e, after, rfl, h⟩
        · rintro ⟨f, before, e, after, hf, h⟩
          obtain rfl := Option.some.inj hf
          exact ⟨before, e, after, h⟩

/-! ## Integers -/

theorem integerText_node {key : Option Text} {v : Value} {message t : Text} :
    integerText (node key v) message = .ok t ↔ ∃ n, v = .number n ∧ t = printLong n := by
  unfold integerText
  rw [required_eq_ok]
  cases v with
  | number n =>
      constructor
      · intro h
        exact ⟨n, rfl, (Option.some.inj h).symm⟩
      · rintro ⟨n', hn, rfl⟩
        obtain rfl := Value.number.inj hn
        rfl
  | string | word | array | object =>
      refine iff_of_false nofun ?_
      rintro ⟨n, hn, -⟩
      cases hn

theorem not_crashes_integerText {member : Jval} {message : Text} :
    ¬ Crashes (integerText member message) := not_crashes_required

theorem accepted_bindPort {key : Option Text} {v : Value} :
    Accepted (bindPort (node key v)) ↔ IsLong v := by
  unfold bindPort
  rw [accepted_bind]
  simp only [integerText_node]
  constructor
  · rintro ⟨_, ⟨n, rfl, rfl⟩, h⟩
    rw [strtol_of_decimal (printLong_decimal n)] at h
    have hensure := ((accepted_seq fun _ => iff_of_true (accepted_ok _) trivial).mp h).1
    rw [accepted_ensure, Bool.and_eq_true, Bool.not_eq_true', Bool.or_eq_false_iff,
      decide_eq_false_iff_not, decide_eq_false_iff_not] at hensure
    exact ⟨n, rfl, by omega, by omega⟩
  · rintro ⟨n, rfl, hmin, hmax⟩
    refine ⟨printLong n, ⟨n, rfl, rfl⟩, ?_⟩
    rw [strtol_decimal (printLong_decimal n) hmin hmax]
    exact (accepted_seq fun _ => iff_of_true (accepted_ok _) trivial).mpr ⟨accepted_ok (), trivial⟩

theorem not_crashes_bindPort {port : Jval} : ¬ Crashes (bindPort port) :=
  not_crashes_bind not_crashes_integerText fun _ =>
    not_crashes_bind not_crashes_ensure fun _ => not_crashes_ok _

theorem accepted_bindLimit {key : Option Text} {v : Value} {k what : Text} {default : Int} :
    Accepted (bindLimit (objGet (node key v) "limits") k what default) ↔
      Optional (Optional IsNumber · k) v "limits" := by
  unfold bindLimit Optional
  rw [objGet_node]
  cases get v (text "limits") with
  | none => exact iff_of_true (accepted_ok default) nofun
  | some l =>
      rw [Option.map_some, Option.bind_some, objGet_node]
      cases hget : get l k with
      | none => 
          refine iff_of_true (accepted_ok default) fun f hf m hm => ?_
          obtain rfl := Option.some.inj hf
          rw [hget] at hm
          cases hm
      | some m =>
          rw [Option.map_some]
          refine (accepted_seq fun _ => iff_of_true (accepted_ok _) trivial).trans ?_
          constructor
          · rintro ⟨⟨t, ht⟩, -⟩ f hf m' hm
            obtain rfl := Option.some.inj hf
            obtain ⟨n, rfl, -⟩ := integerText_node.mp ht
            rw [hget] at hm
            exact ⟨n, (Option.some.inj hm).symm⟩
          · intro h
            obtain ⟨n, rfl⟩ := h l rfl m hget
            exact ⟨⟨printLong n, integerText_node.mpr ⟨n, rfl, rfl⟩⟩, trivial⟩

theorem not_crashes_bindLimit {limits : Option Jval} {k what : Text} {default : Int} :
    ¬ Crashes (bindLimit limits k what default) := by
  unfold bindLimit
  split
  · nofun
  · exact not_crashes_bind not_crashes_integerText fun _ => not_crashes_ok _

/-! ## The root -/

/-- What the binder asks of the fields of a document, the keys of its sections apart. -/
structure FieldsOk (v listen : Value) : Prop where
  limits : Optional NotScalar v "limits"
  host : Field IsText listen "host"
  port : Field IsLong listen "port"
  priv : Field (SectionOk false) v "private"
  pub : Field (SectionOk true) v "public"
  aliases : Optional (fun l => NotScalar l ∧ ∀ e ∈ elements l, AliasFields e) v "aliases"
  projects : Optional (fun l => NotScalar l ∧ ∀ e ∈ elements l, ProjectFields e) v "projects"
  maxBodyBytes : Optional (Optional IsNumber · "max_body_bytes") v "limits"
  maxInflight : Optional (Optional IsNumber · "max_inflight") v "limits"

theorem accepted_limitsScalar {key : Option Text} {v : Value} {message : Text} :
    Accepted (ensure ((objGet (node key v) "limits").all (·.str.isNone)) message) ↔
      Optional NotScalar v "limits" := by
  rw [accepted_ensure, objGet_node]
  unfold Optional
  cases get v (text "limits") with
  | none => exact iff_of_true rfl nofun
  | some l =>
      rw [Option.map_some, Option.all_some, node_str, Option.isNone_iff_eq_none]
      exact ⟨fun h f hf => Option.some.inj hf ▸ h, fun h => h l rfl⟩

theorem accepted_bindFields {key key' : Option Text} {v listen : Value} :
    Accepted (bindFields (node key v) (node key' listen)) ↔ FieldsOk v listen := by
  unfold bindFields
  dsimp only
  refine (accepted_seq fun _ => accepted_stringField fun _ =>
    accepted_boundField (fun _ _ => accepted_bindPort) fun _ =>
    accepted_boundField (fun _ _ => bindEndpointSection_node.1) fun _ =>
    accepted_boundField (fun _ _ => bindEndpointSection_node.1) fun _ =>
    accepted_seq fun _ => accepted_seq fun _ => accepted_seq fun _ => accepted_seq fun _ =>
      iff_of_true (accepted_ok _) trivial).trans ?_
  rw [accepted_limitsScalar, accepted_bindEntries fun _ _ _ => accepted_bindAlias,
    accepted_bindEntries fun _ _ _ => accepted_bindProject, accepted_bindLimit, accepted_bindLimit]
  constructor
  · rintro ⟨hlimits, hhost, hport, hpriv, hpub, haliases, hprojects, hbytes, hinflight, -⟩
    exact ⟨hlimits, hhost, hport, hpriv, hpub, haliases, hprojects, hbytes, hinflight⟩
  · rintro ⟨hlimits, hhost, hport, hpriv, hpub, haliases, hprojects, hbytes, hinflight⟩
    exact ⟨hlimits, hhost, hport, hpriv, hpub, haliases, hprojects, hbytes, hinflight, trivial⟩

/-- Once the keys are compared, only the two legacy sections can still crash the binder. -/
theorem crashes_bindFields {key key' : Option Text} {v listen : Value} :
    Crashes (bindFields (node key v) (node key' listen)) ↔
      Optional NotScalar v "limits" ∧ Field IsText listen "host" ∧ Field IsLong listen "port" ∧
        Field (fun p => NonemptyArray p ∨
          SectionOk false p ∧ Field NonemptyArray v "public") v "private" := by
  unfold bindFields
  dsimp only
  refine (crashes_seq not_crashes_ensure fun _ =>
    crashes_plainField (fun _ _ => accepted_bindString) (fun _ => not_crashes_bindString) fun _ =>
    crashes_plainField (fun _ _ => accepted_bindPort) (fun _ => not_crashes_bindPort) fun _ =>
    crashes_boundField (fun _ _ => bindEndpointSection_node) fun _ =>
    crashes_boundField (R := False) (fun _ _ => bindEndpointSection_node) fun _ => ?_).trans ?_
  · exact iff_of_false (not_crashes_bind (not_crashes_bindEntries fun _ _ => not_crashes_bindAlias)
      fun _ => not_crashes_bind (not_crashes_bindEntries fun _ _ => not_crashes_bindProject)
      fun _ => not_crashes_bind not_crashes_bindLimit
      fun _ => not_crashes_bind not_crashes_bindLimit fun _ => not_crashes_ok _) id
  · rw [accepted_limitsScalar]
    simp only [and_false, or_false]

/-- What the binder asks of a document. -/
structure Accepts (v : Value) : Prop where
  keys : KeysIn rootKeys v
  limits : Optional (KeysIn limitsKeys) v "limits"
  listen : Field (fun l => KeysIn listenKeys l ∧ FieldsOk v l) v "listen"
  aliases : Optional (fun l => ∀ e ∈ elements l, KeysIn aliasKeys e) v "aliases"
  projects : Optional (fun l => ∀ e ∈ elements l, KeysIn projectKeys e) v "projects"

/-- A non-empty array is an entry of a list, behind entries with known keys. -/
def ArrayEntry (known : List Text) (v : Value) (k : Text) : Prop :=
  ∃ l before e after, get v k = some l ∧ elements l = before ++ e :: after ∧
    (∀ x ∈ before, KeysIn known x) ∧ NonemptyArray e

/-- A non-empty array stands where the binder compares keys, and what it checks before passes:
the root, the limits, `listen`, an alias, a project, the private section or the public one. -/
def ArrayReached (v : Value) : Prop :=
  NonemptyArray v ∨ KeysIn rootKeys v ∧
    (Field NonemptyArray v "limits" ∨ Optional (KeysIn limitsKeys) v "limits" ∧
      Field (fun l => NonemptyArray l ∨ KeysIn listenKeys l ∧
        (ArrayEntry aliasKeys v "aliases" ∨
          Optional (fun l => ∀ e ∈ elements l, KeysIn aliasKeys e) v "aliases" ∧
            (ArrayEntry projectKeys v "projects" ∨
              Optional (fun l => ∀ e ∈ elements l, KeysIn projectKeys e) v "projects" ∧
                Optional NotScalar v "limits" ∧ Field IsText l "host" ∧ Field IsLong l "port" ∧
                Field (fun p => NonemptyArray p ∨
                  SectionOk false p ∧ Field NonemptyArray v "public") v "private")))
        v "listen")

theorem limitsKnown_node {key : Option Text} {v : Value} :
    (Accepted (limitsKnown (objGet (node key v) "limits")) ↔
      Optional (KeysIn limitsKeys) v "limits") ∧
    (Crashes (limitsKnown (objGet (node key v) "limits")) ↔ Field NonemptyArray v "limits") := by
  unfold limitsKnown Optional Field
  rw [objGet_node]
  cases get v (text "limits") with
  | none => exact ⟨iff_of_true (accepted_ok ()) nofun, iff_of_false nofun (fun ⟨_, h, _⟩ => nomatch h)⟩
  | some l =>
      rw [Option.map_some]
      dsimp only
      obtain ⟨haccepted, hcrashes⟩ :=
        @objKeysKnown_node limitsKeys (text "limits") (some (text "limits")) l
      rw [haccepted, hcrashes]
      constructor
      · exact ⟨fun h f hf => Option.some.inj hf ▸ h, fun h => h l rfl⟩
      · constructor
        · exact fun h => ⟨l, rfl, h⟩
        · rintro ⟨f, hf, h⟩
          exact Option.some.inj hf ▸ h

theorem accepted_bindRoot {key : Option Text} {v : Value} :
    Accepted (bindRoot (node key v)) ↔ Accepts v := by
  unfold bindRoot
  refine (accepted_seq fun _ => accepted_seq fun _ =>
    accepted_field (P := fun l => KeysIn listenKeys l ∧
      Optional (fun l => ∀ e ∈ elements l, KeysIn aliasKeys e) v "aliases" ∧
      Optional (fun l => ∀ e ∈ elements l, KeysIn projectKeys e) v "projects" ∧ FieldsOk v l)
      fun key' l => ?_).trans ?_
  · refine (accepted_seq fun _ => accepted_seq fun _ => accepted_seq fun _ =>
      accepted_bindFields).trans ?_
    rw [(objKeysKnown_node _ _).1, entriesKnown_node.1, entriesKnown_node.1]
  · rw [(objKeysKnown_node _ _).1, limitsKnown_node.1]
    constructor
    · rintro ⟨hkeys, hlimits, l, hl, hlisten, haliases, hprojects, hfields⟩
      exact ⟨hkeys, hlimits, ⟨l, hl, hlisten, hfields⟩, haliases, hprojects⟩
    · rintro ⟨hkeys, hlimits, ⟨l, hl, hlisten, hfields⟩, haliases, hprojects⟩
      exact ⟨hkeys, hlimits, l, hl, hlisten, haliases, hprojects, hfields⟩

theorem crashes_step {α : Type} {x : Loaded Unit} {f : Unit → Loaded α} {P Q R : Prop}
    (hx : (Accepted x ↔ P) ∧ (Crashes x ↔ Q)) (hf : ∀ u, Crashes (f u) ↔ R) :
    Crashes (x >>= f) ↔ Q ∨ P ∧ R := by
  rw [crashes_bind, hx.2, ← hx.1]
  refine or_congr_right ?_
  constructor
  · rintro ⟨u, hu, h⟩
    exact ⟨⟨u, hu⟩, (hf u).mp h⟩
  · rintro ⟨⟨u, hu⟩, hR⟩
    exact ⟨u, hu, (hf u).mpr hR⟩

theorem crashes_bindRoot {key : Option Text} {v : Value} :
    Crashes (bindRoot (node key v)) ↔ ArrayReached v := by
  unfold bindRoot ArrayReached
  refine crashes_step (objKeysKnown_node _ _) fun _ => crashes_step limitsKnown_node fun _ =>
    crashes_field fun key' l => crashes_step (objKeysKnown_node _ _) fun _ =>
      crashes_step entriesKnown_node fun _ => crashes_step entriesKnown_node fun _ =>
        crashes_bindFields

end Recursant.Document
