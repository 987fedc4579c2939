import Mathlib.Data.List.DropRight
import Recursant.Lib.Definitions
import Recursant.Text

/-!
# The environment file

`rc_cli_store_env` rewrites one variable of `recursant.env`, and `rc_cli_load_env` sets the
variables of the file that the process does not have yet.  A file is the text of its bytes; a file
that does not exist has none.
-/

namespace Recursant.Cli

/-- The C string at the front of a buffer. -/
def cstr (s : Text) : Text := s.takeWhile (· ≠ 0)

/-! ## Loading -/

/-- `fgets` with room for so many bytes: the line, with its newline, and the rest of the file. -/
def fgets : Nat → Text → Text × Text
  | 0, file => ([], file)
  | _ + 1, [] => ([], [])
  | room + 1, c :: file =>
      if c = 10 then ([c], file) else (c :: (fgets room file).1, (fgets room file).2)

/-- What the loop of `rc_cli_load_env` gets in `line[4096]`, one buffer after the other. -/
def buffers : Nat → Text → List Text
  | 0, _ => []
  | _ + 1, [] => []
  | fuel + 1, c :: file =>
      (fgets 4095 (c :: file)).1 :: buffers fuel (fgets 4095 (c :: file)).2

def blank (c : Byte) : Bool := c = 32 || c = 9

def skipBlanks (s : Text) : Text := s.dropWhile blank

/-- `if (!strncmp(s, "export ", 7)) s += 7;` -/
def skipExport (s : Text) : Text := if (text "export ").isPrefixOf s then s.drop 7 else s

/-- The ends of line at the end of a value are cut. -/
def trimEnd (value : Text) : Text := value.rdropWhile fun c => c = 10 || c = 13

/-- A value between two quotes of one kind loses them. -/
def unquote (value : Text) : Text :=
  if 2 ≤ value.length ∧ (value.head? = some 34 ∨ value.head? = some 39) ∧
      value.getLast? = value.head? then value.tail.dropLast
  else value

/-- The variable and the value of a line without its blanks and its `export`. -/
def assignment (s : Text) : Option (Text × Text) :=
  if s.head? = some 35 ∨ s.head? = some 10 ∨ s = [] then none
  else match s.dropWhile (· ≠ 61) with
    | [] => none
    | _ :: value =>
        if s.takeWhile (· ≠ 61) = [] then none
        else some (s.takeWhile (· ≠ 61), unquote (trimEnd value))

/-- The variable that a line of the file defines, and its value. -/
def definition (line : Text) : Option (Text × Text) :=
  assignment (skipExport (skipBlanks (cstr line)))

/-- The variables of the process. -/
abbrev Env := Text → Option Text

/-- `setenv(name, value, 0)` -/
def setenv (env : Env) (name value : Text) : Env :=
  fun v => if v = name then some ((env name).getD value) else env v

def loadLine (loaded : Env × Nat) (line : Text) : Env × Nat :=
  match definition line with
  | none => loaded
  | some (name, value) => (setenv loaded.1 name value, loaded.2 + 1)

/-- `rc_cli_load_env` on a file that may be read: the variables afterwards and the count. -/
def loadEnv (env : Env) : Option Text → Env × Nat
  | none => (env, 0)
  | some file => (buffers file.length file).foldl loadLine (env, 0)

/-! ## Storing -/

def varByte (c : Byte) : Bool := (65 ≤ c && c ≤ 90) || (97 ≤ c && c ≤ 122) || c = 95

def varOk : Text → Bool
  | [] => false
  | c :: name => varByte c && name.all fun c => varByte c || isdigit c

def envValueOk (value : Text) : Bool :=
  decide (value ≠ []) && value.all fun c =>
    !(decide (c ≤ 32) || decide (c = 127) || (text "\"'\\#$`").contains c)

/-- `name=value` -/
def entry (name value : Text) : Text := name ++ text "=" ++ value

/-- The writer's test for a line of the variable. -/
def marks (name line : Text) : Bool := (name ++ text "=").isPrefixOf (skipExport line)

/-- The loop of `rc_cli_store_env` over the old text from one line on: what it prints and whether
the variable has been written. -/
def storeLines (name value : Text) : Nat → Bool → Text → Text × Bool
  | 0, replaced, _ => ([], replaced)
  | _ + 1, replaced, [] => ([], replaced)
  | fuel + 1, replaced, c :: rest =>
      let line := c :: rest
      let next := (line.dropWhile (· ≠ 10)).drop 1
      if marks name line then
        let r := storeLines name value fuel true next
        ((if replaced then [] else entry name value ++ [10]) ++ r.1, r.2)
      else
        let r := storeLines name value fuel replaced next
        (line.takeWhile (· ≠ 10) ++ [10] ++ r.1, r.2)

def envHeader : Text :=
  text ("# Recursant secrets (read by systemd EnvironmentFile= and by the recursant CLI). " ++
    "Keep 0600.\n")

/-- `rc_cli_store_env`: the text of the new file, or the error. -/
def storeEnv (old : Option Text) (name value : Text) : Except Text Text :=
  if envValueOk value = false then
    .error (name ++ text ": value must be non-empty without spaces, quotes, #, $ or backslashes")
  else
    let header := match old with
      | none => envHeader
      | some _ => []
    let lines := storeLines name value ((cstr (old.getD [])).length) false (cstr (old.getD []))
    .ok (header ++ lines.1 ++ if lines.2 then [] else entry name value ++ [10])

/-! ## The reader line by line -/

theorem takeWhile_ne {stop : Byte} {s : Text} (h : stop ∉ s) (rest : Text) :
    (s ++ stop :: rest).takeWhile (· ≠ stop) = s := by
  have hall : ∀ c ∈ s, decide (c ≠ stop) = true := by
    intro c hc
    exact decide_eq_true fun hstop => h (hstop ▸ hc)
  rw [List.takeWhile_append_of_pos hall, List.takeWhile_cons_of_neg (by simp), List.append_nil]

theorem dropWhile_ne {stop : Byte} {s : Text} (h : stop ∉ s) (rest : Text) :
    (s ++ stop :: rest).dropWhile (· ≠ stop) = stop :: rest := by
  have hall : ∀ c ∈ s, decide (c ≠ stop) = true := by
    intro c hc
    exact decide_eq_true fun hstop => h (hstop ▸ hc)
  rw [List.dropWhile_append_of_pos hall, List.dropWhile_cons_of_neg (by simp)]

theorem cstr_of_not_mem {s : Text} (h : (0 : Byte) ∉ s) : cstr s = s := by
  unfold cstr
  rw [List.takeWhile_eq_self_iff]
  intro c hc
  exact decide_eq_true fun h0 => h (h0 ▸ hc)

theorem not_mem_cstr (s : Text) : (0 : Byte) ∉ cstr s := by
  intro h
  have hne := List.mem_takeWhile_imp h
  exact absurd rfl (of_decide_eq_true hne)

theorem mem_of_mem_cstr {s : Text} {c : Byte} (h : c ∈ cstr s) : c ∈ s :=
  (List.takeWhile_sublist _).mem h

theorem cstr_cstr (s : Text) : cstr (cstr s) = cstr s := cstr_of_not_mem (not_mem_cstr s)

/-- A reader's line is read up to its first NUL. -/
theorem definition_cstr (line : Text) : definition (cstr line) = definition line := by
  unfold definition
  rw [cstr_cstr]

theorem skipBlanks_concat_newline (s : Text) : skipBlanks (s ++ [10]) = skipBlanks s ++ [10] := by
  unfold skipBlanks
  rw [List.dropWhile_append]
  by_cases h : (s.dropWhile blank).isEmpty = true
  · rw [if_pos h, List.isEmpty_iff.mp h]
    decide
  · rw [if_neg h]

/-- A word without the newline is not found across a line's end. -/
theorem prefix_line {word line rest : Text} (hword : (10 : Byte) ∉ word) :
    word <+: line ++ 10 :: rest ↔ word <+: line := by
  constructor
  · intro h
    cases List.prefix_or_prefix_of_prefix h (List.prefix_append line (10 :: rest)) with
    | inl hline => exact hline
    | inr hlong =>
        obtain ⟨t, rfl⟩ := hlong
        rw [List.prefix_append_right_inj] at h
        cases t with
        | nil => rw [List.append_nil]
        | cons c t =>
            rw [List.cons_prefix_cons] at h
            exact absurd (List.mem_append_right line (h.1 ▸ List.mem_cons_self)) hword
  · intro h
    exact h.trans (List.prefix_append _ _)

theorem skipExport_line (line rest : Text) :
    skipExport (line ++ 10 :: rest) = skipExport line ++ 10 :: rest := by
  unfold skipExport
  by_cases h : text "export " <+: line
  · have hlength := h.length_le
    rw [if_pos (List.isPrefixOf_iff_prefix.mpr h),
      if_pos (List.isPrefixOf_iff_prefix.mpr ((prefix_line (by decide)).mpr h))]
    exact List.drop_append_of_le_length hlength
  · rw [if_neg (mt List.isPrefixOf_iff_prefix.mp h),
      if_neg (mt (fun hp => (prefix_line (by decide)).mp (List.isPrefixOf_iff_prefix.mp hp)) h)]

theorem trimEnd_concat_newline (value : Text) : trimEnd (value ++ [10]) = trimEnd value :=
  List.rdropWhile_concat_pos _ _ _ (by decide)

theorem assignment_plain {s : Text} (h : (61 : Byte) ∉ s) : assignment s = none := by
  have hall : ∀ c ∈ s, decide (c ≠ 61) = true := by
    intro c hc
    exact decide_eq_true fun h61 => h (h61 ▸ hc)
  unfold assignment
  rw [List.dropWhile_eq_nil_iff.mpr hall, ite_self]

theorem assignment_split {name : Text} (h : (61 : Byte) ∉ name) (rest : Text) :
    assignment (name ++ 61 :: rest) =
      if name.head? = some 35 ∨ name.head? = some 10 ∨ name = [] then none
      else some (name, unquote (trimEnd rest)) := by
  unfold assignment
  rw [dropWhile_ne h, takeWhile_ne h]
  cases name with
  | nil => rfl
  | cons c name => simp

theorem assignment_concat_newline (s : Text) : assignment (s ++ [10]) = assignment s := by
  by_cases heq : (61 : Byte) ∈ s
  · obtain ⟨name, rest, rfl, hname⟩ := List.eq_append_cons_of_mem heq
    rw [List.append_assoc, List.cons_append, assignment_split hname, assignment_split hname,
      trimEnd_concat_newline]
  · have hconcat : (61 : Byte) ∉ s ++ [10] := by
      rw [List.mem_append, not_or]
      exact ⟨heq, by decide⟩
    rw [assignment_plain heq, assignment_plain hconcat]

/-- The newline of a line is no part of its definition. -/
theorem definition_concat_newline (line : Text) : definition (line ++ [10]) = definition line := by
  by_cases h : (0 : Byte) ∈ line
  · obtain ⟨before, rest, rfl, hbefore⟩ := List.eq_append_cons_of_mem h
    have hcut (tail : Text) : cstr (before ++ 0 :: tail) = before := takeWhile_ne hbefore tail
    unfold definition
    rw [List.append_assoc, List.cons_append, hcut, hcut]
  · have hconcat : (0 : Byte) ∉ line ++ [10] := by
      rw [List.mem_append, not_or]
      exact ⟨h, by decide⟩
    unfold definition
    rw [cstr_of_not_mem hconcat, cstr_of_not_mem h, skipBlanks_concat_newline, skipExport_line,
      assignment_concat_newline]

theorem definition_newline : definition [10] = none := by decide

theorem fgets_line {line rest : Text} (hline : (10 : Byte) ∉ line) {room : Nat}
    (hroom : line.length < room) : fgets room (line ++ 10 :: rest) = (line ++ [10], rest) := by
  induction line generalizing room with
  | nil =>
      obtain ⟨room, rfl⟩ := Nat.exists_eq_succ_of_ne_zero (Nat.ne_zero_of_lt hroom)
      rfl
  | cons c line ih =>
      obtain ⟨room, rfl⟩ := Nat.exists_eq_succ_of_ne_zero (Nat.ne_zero_of_lt hroom)
      rw [List.mem_cons, not_or] at hline
      rw [List.cons_append, fgets, if_neg (Ne.symm hline.1),
        ih hline.2 (Nat.lt_of_succ_lt_succ hroom)]
      rfl

/-- A line that fills the buffer comes without its newline. -/
theorem fgets_full {line rest : Text} (hline : (10 : Byte) ∉ line) :
    fgets line.length (line ++ rest) = (line, rest) := by
  induction line with
  | nil => rw [List.length_nil, fgets, List.nil_append]
  | cons c line ih =>
      rw [List.mem_cons, not_or] at hline
      rw [List.cons_append, List.length_cons, fgets, if_neg (Ne.symm hline.1), ih hline.2]

theorem fgets_end {line : Text} (hline : (10 : Byte) ∉ line) {room : Nat}
    (hroom : line.length ≤ room) : fgets room line = (line, []) := by
  induction line generalizing room with
  | nil => cases room <;> rfl
  | cons c line ih =>
      rw [List.length_cons] at hroom
      obtain ⟨room, rfl⟩ := Nat.exists_eq_succ_of_ne_zero (by omega : room ≠ 0)
      rw [List.mem_cons, not_or] at hline
      rw [fgets, if_neg (Ne.symm hline.1), ih hline.2 (Nat.le_of_succ_le_succ hroom)]

theorem fgets_length (room : Nat) (file : Text) :
    (fgets room file).1.length ≤ room ∧
      (fgets room file).1.length + (fgets room file).2.length = file.length := by
  induction room generalizing file with
  | zero => exact ⟨Nat.le_refl 0, Nat.zero_add _⟩
  | succ room ih =>
      cases file with
      | nil => exact ⟨Nat.zero_le _, rfl⟩
      | cons c file =>
          have hrest := ih file
          rw [fgets]
          by_cases hc : c = 10
          · rw [if_pos hc]
            show 1 ≤ room + 1 ∧ 1 + file.length = file.length + 1
            omega
          · rw [if_neg hc]
            show (fgets room file).1.length + 1 ≤ room + 1 ∧
              (fgets room file).1.length + 1 + (fgets room file).2.length = file.length + 1
            omega

theorem buffers_succ {file : Text} (h : file ≠ []) (fuel : Nat) :
    buffers (fuel + 1) file = (fgets 4095 file).1 :: buffers fuel (fgets 4095 file).2 := by
  cases file with
  | nil => exact absurd rfl h
  | cons c file => rfl

theorem length_of_mem_buffers {fuel : Nat} {file line : Text} (h : line ∈ buffers fuel file) :
    line.length < 4096 := by
  induction fuel generalizing file with
  | zero => cases h
  | succ fuel ih =>
      cases file with
      | nil => cases h
      | cons c file =>
          rw [buffers, List.mem_cons] at h
          cases h with
          | inl h =>
              have hfgets := (fgets_length 4095 (c :: file)).1
              rw [← h] at hfgets
              omega
          | inr h => exact ih h

/-- With lines shorter than the buffer the reader sees the definitions of the lines. -/
theorem filterMap_buffers {file : Text}
    (hlines : ∀ l ∈ Definitions.lines (10 : Byte) file, l.length < 4096)
    {fuel : Nat} (hfuel : file.length ≤ fuel) :
    (buffers fuel file).filterMap definition =
      (Definitions.lines (10 : Byte) file).filterMap definition := by
  induction file using Definitions.lines_cases (10 : Byte) generalizing fuel with
  | hnil => cases fuel <;> rfl
  | hended l s hl ih =>
      rw [Definitions.lines_ended hl, List.forall_mem_cons] at hlines
      rw [List.length_append, List.length_cons] at hfuel
      rw [Definitions.lines_ended hl, List.filterMap_cons]
      obtain ⟨fuel, rfl⟩ := Nat.exists_eq_succ_of_ne_zero (by omega : fuel ≠ 0)
      have hne : l ++ 10 :: s ≠ [] := List.append_ne_nil_of_right_ne_nil _ (List.cons_ne_nil _ _)
      by_cases hfull : l.length = 4095
      · -- the newline has no room in the buffer and comes in the next one
        have hfgets : fgets 4095 (l ++ 10 :: s) = (l, 10 :: s) := hfull ▸ fgets_full hl
        have hnewline : fgets 4095 (10 :: s) = ([10], s) := rfl
        obtain ⟨fuel, rfl⟩ := Nat.exists_eq_succ_of_ne_zero (by omega : fuel ≠ 0)
        rw [buffers_succ hne, hfgets, buffers_succ (List.cons_ne_nil _ _), hnewline,
          List.filterMap_cons, List.filterMap_cons, definition_newline,
          ih hlines.2 (by omega)]
      · have hfgets := @fgets_line l s hl 4095 (by omega : l.length < 4095)
        rw [buffers_succ hne, hfgets, List.filterMap_cons, definition_concat_newline,
          ih hlines.2 (by omega)]
  | hunfinished l hl hne =>
      rw [Definitions.lines_unfinished hl hne, List.forall_mem_singleton] at hlines
      have hpos := List.length_pos_of_ne_nil hne
      obtain ⟨fuel, rfl⟩ := Nat.exists_eq_succ_of_ne_zero (by omega : fuel ≠ 0)
      have hend : buffers fuel [] = [] := by cases fuel <;> rfl
      rw [Definitions.lines_unfinished hl hne, buffers_succ hne, fgets_end hl (by omega), hend]

/-- The variables that a file defines. -/
def fileValue (file v : Text) : Option Text :=
  Definitions.value definition (Definitions.lines (10 : Byte) file) v

theorem foldl_loadLine (env : Env) (count : Nat) (lines : List Text) (v : Text) :
    (lines.foldl loadLine (env, count)).1 v =
      (env v).or (Definitions.value definition lines v) := by
  induction lines generalizing env count with
  | nil => exact (Option.or_none).symm
  | cons line lines ih =>
      rw [List.foldl_cons, Definitions.value_cons]
      unfold Definitions.defines loadLine
      cases hline : definition line with
      | none => exact ih env count
      | some d =>
          obtain ⟨name, value⟩ := d
          show (lines.foldl loadLine (setenv env name value, count + 1)).1 v = _
          rw [ih]
          unfold setenv
          by_cases hv : v = name
          · subst hv
            cases env v <;> simp
          · rw [if_neg hv, if_neg (by simpa using Ne.symm hv)]

/-- What a reader that knows the definitions of the lines makes of the variables. -/
theorem loadEnv_apply {file : Text}
    (hlines : ∀ l ∈ Definitions.lines (10 : Byte) file, l.length < 4096) (env : Env) (v : Text) :
    (loadEnv env (some file)).1 v = (env v).or (fileValue file v) := by
  unfold loadEnv fileValue Definitions.value
  rw [← filterMap_buffers hlines (Nat.le_refl _)]
  exact foldl_loadLine env 0 _ v

theorem assignment_eq_some {s name value : Text} (h : assignment s = some (name, value)) :
    ∃ rest, s = name ++ 61 :: rest ∧ value = unquote (trimEnd rest) := by
  by_cases heq : (61 : Byte) ∈ s
  · obtain ⟨before, rest, rfl, hbefore⟩ := List.eq_append_cons_of_mem heq
    rw [assignment_split hbefore] at h
    split at h
    next => cases h
    next =>
        have hd := Option.some.inj h
        rw [Prod.mk.injEq] at hd
        exact ⟨rest, by rw [hd.1], hd.2.symm⟩
  · rw [assignment_plain heq] at h
    cases h

theorem length_unquote (value : Text) : (unquote value).length ≤ value.length := by
  unfold unquote
  split
  · rw [List.length_dropLast, List.length_tail]
    omega
  · exact Nat.le_refl _

theorem length_skipExport (s : Text) : (skipExport s).length ≤ s.length := by
  unfold skipExport
  split
  · rw [List.length_drop]
    omega
  · exact Nat.le_refl _

theorem length_of_definition {line name value : Text} (h : definition line = some (name, value)) :
    name.length + 1 + value.length ≤ line.length := by
  obtain ⟨rest, hs, hvalue⟩ := assignment_eq_some h
  have hcstr : (cstr line).length ≤ line.length := (List.takeWhile_sublist _).length_le
  have hblanks : (skipBlanks (cstr line)).length ≤ (cstr line).length :=
    (List.dropWhile_sublist _).length_le
  have hexport := length_skipExport (skipBlanks (cstr line))
  have htrim : (trimEnd rest).length ≤ rest.length :=
    (List.rdropWhile_prefix (fun c : Byte => c = 10 || c = 13) (l := rest)).length_le
  have hunquote := length_unquote (trimEnd rest)
  rw [hs, List.length_append, List.length_cons] at hexport
  rw [hvalue]
  omega

/-- No buffer of the reader holds a longer definition. -/
theorem length_of_loadEnv {env : Env} {file name value : Text} (hclear : env name = none)
    (h : (loadEnv env (some file)).1 name = some value) :
    name.length + 1 + value.length < 4096 := by
  unfold loadEnv at h
  rw [foldl_loadLine, hclear, Option.none_or] at h
  obtain ⟨line, hline, hdefinition⟩ := Definitions.mem_of_value h
  have hlength := length_of_mem_buffers hline
  have hshort := length_of_definition hdefinition
  omega

/-! ## The lines of the variable -/

theorem varByte_ne {c d : Byte} (h : varByte c = true) (hd : varByte d = false) : c ≠ d := by
  intro hcd
  rw [hcd, hd] at h
  cases h

/-- The bytes of a variable are letters, digits and underscores. -/
theorem varOk_forall {name : Text} (h : varOk name = true) :
    name ≠ [] ∧ (∀ c ∈ name.head?, varByte c = true) ∧
      ∀ c ∈ name, (varByte c || isdigit c) = true := by
  cases name with
  | nil => cases h
  | cons c name =>
      rw [varOk, Bool.and_eq_true, List.all_eq_true] at h
      refine ⟨List.cons_ne_nil _ _, ?_, ?_⟩
      · intro d hd
        exact Option.some.inj hd ▸ h.1
      · intro d hd
        rw [List.mem_cons] at hd
        cases hd with
        | inl hd => rw [hd, h.1, Bool.true_or]
        | inr hd => exact h.2 d hd

theorem not_mem_of_varOk {name : Text} (h : varOk name = true) {d : Byte}
    (hd : (varByte d || isdigit d) = false) : d ∉ name := by
  intro hmem
  have hall := (varOk_forall h).2.2 d hmem
  rw [hd] at hall
  cases hall

theorem marks_line {name : Text} (h : varOk name = true) (line rest : Text) :
    marks name (line ++ 10 :: rest) = marks name line := by
  unfold marks
  have hword : (10 : Byte) ∉ name ++ text "=" := by
    rw [List.mem_append, not_or]
    exact ⟨not_mem_of_varOk h (by decide), by decide⟩
  rw [skipExport_line, Bool.eq_iff_iff, List.isPrefixOf_iff_prefix, List.isPrefixOf_iff_prefix,
    prefix_line hword]

theorem skipBlanks_of_head {s : Text} (h : ∀ c ∈ s.head?, blank c = false) : skipBlanks s = s := by
  cases s with
  | nil => rfl
  | cons c s =>
      have hc := h c rfl
      unfold skipBlanks
      rw [List.dropWhile_cons_of_neg (by simp [hc])]

/-- A line that begins with blanks. -/
def indented (line : Text) : Bool := line.head?.any blank

theorem skipBlanks_of_not_indented {line : Text} (h : indented line = false) :
    skipBlanks line = line := by
  refine skipBlanks_of_head ?_
  intro c hc
  unfold indented at h
  rw [Option.mem_def.mp hc] at h
  exact h

/-- A name is not a comment and not blank. -/
theorem assignment_entry {name : Text} (h : varOk name = true) (rest : Text) :
    assignment (name ++ 61 :: rest) = some (name, unquote (trimEnd rest)) := by
  have hname := varOk_forall h
  have hhead {d : Byte} (hd : varByte d = false) : name.head? ≠ some d := by
    intro heq
    exact varByte_ne (hname.2.1 d heq) hd rfl
  rw [assignment_split (not_mem_of_varOk h (by decide)), if_neg]
  rintro (h35 | h10 | hnil)
  · exact hhead (by decide) h35
  · exact hhead (by decide) h10
  · exact hname.1 hnil

theorem equals_eq : text "=" = [61] := by decide

/-- A line that begins like a definition of the variable is not indented. -/
theorem indented_of_marks {name line : Text} (h : varOk name = true)
    (hmark : marks name line = true) : indented line = false := by
  unfold marks at hmark
  rw [List.isPrefixOf_iff_prefix] at hmark
  unfold skipExport at hmark
  by_cases hexport : text "export " <+: line
  · obtain ⟨t, rfl⟩ := hexport
    rfl
  · rw [if_neg (mt List.isPrefixOf_iff_prefix.mp hexport)] at hmark
    obtain ⟨t, rfl⟩ := hmark
    have hname := varOk_forall h
    obtain ⟨c, hc⟩ : ∃ c, name.head? = some c := Option.isSome_iff_exists.mp (by simp [hname.1])
    have hvar := hname.2.1 c hc
    unfold indented
    rw [List.append_assoc, List.head?_append_of_ne_nil _ hname.1, hc]
    show blank c = false
    unfold blank
    rw [decide_eq_false (varByte_ne hvar (by decide)),
      decide_eq_false (varByte_ne hvar (by decide))]
    rfl

theorem definition_of_not_indented {line : Text} (hnul : (0 : Byte) ∉ line)
    (h : indented line = false) : definition line = assignment (skipExport line) := by
  unfold definition
  rw [cstr_of_not_mem hnul, skipBlanks_of_not_indented h]

/-- The lines that the writer takes for the variable are those that define it and are not
indented. -/
theorem marks_iff {name line : Text} (h : varOk name = true) (hnul : (0 : Byte) ∉ line) :
    marks name line = true ↔
      indented line = false ∧ (definition line).map Prod.fst = some name := by
  constructor
  · intro hmark
    have hindented := indented_of_marks h hmark
    unfold marks at hmark
    rw [List.isPrefixOf_iff_prefix, equals_eq] at hmark
    obtain ⟨t, ht⟩ := hmark
    rw [List.append_assoc, List.singleton_append] at ht
    rw [definition_of_not_indented hnul hindented, ← ht, assignment_entry h]
    exact ⟨hindented, rfl⟩
  · rintro ⟨hindented, hdefinition⟩
    rw [definition_of_not_indented hnul hindented, Option.map_eq_some_iff] at hdefinition
    obtain ⟨⟨n, v⟩, hassign, rfl⟩ := hdefinition
    obtain ⟨rest, hs, -⟩ := assignment_eq_some hassign
    unfold marks
    rw [List.isPrefixOf_iff_prefix, hs, equals_eq]
    exact ⟨rest, by rw [List.append_assoc, List.singleton_append]⟩

theorem envValueOk_forall {value : Text} (h : envValueOk value = true) :
    value ≠ [] ∧ ∀ c ∈ value, 32 < c ∧ c ≠ 34 ∧ c ≠ 39 := by
  unfold envValueOk at h
  rw [Bool.and_eq_true, decide_eq_true_eq, List.all_eq_true] at h
  refine ⟨h.1, ?_⟩
  intro c hc
  have hok := h.2 c hc
  rw [Bool.not_eq_true', Bool.or_eq_false_iff, Bool.or_eq_false_iff, decide_eq_false_iff_not]
    at hok
  have hquote {q : Byte} (hq : q ∈ text "\"'\\#$\x60") : c ≠ q := by
    intro heq
    rw [heq, List.contains_iff_mem.mpr hq] at hok
    cases hok.2
  exact ⟨UInt8.not_le.mp hok.1.1, hquote (by decide), hquote (by decide)⟩

/-- A value that is accepted has neither quotes nor ends of line to lose. -/
theorem unquote_trimEnd {value : Text} (h : envValueOk value = true) :
    unquote (trimEnd value) = value := by
  have hvalue := envValueOk_forall h
  have htrim : trimEnd value = value := by
    unfold trimEnd
    rw [List.rdropWhile_eq_self_iff]
    intro hne
    have hlast := (hvalue.2 _ (List.getLast_mem hne)).1
    generalize value.getLast hne = c at hlast
    intro hend
    rw [Bool.or_eq_true, decide_eq_true_eq, decide_eq_true_eq] at hend
    cases hend with
    | inl hend => rw [hend] at hlast; exact absurd hlast (by decide)
    | inr hend => rw [hend] at hlast; exact absurd hlast (by decide)
  rw [htrim]
  unfold unquote
  rw [if_neg]
  rintro ⟨-, hquote, -⟩
  cases hquote with
  | inl hquote => exact (hvalue.2 _ (List.mem_of_head? hquote)).2.1 rfl
  | inr hquote => exact (hvalue.2 _ (List.mem_of_head? hquote)).2.2 rfl

theorem entry_eq (name value : Text) : entry name value = name ++ 61 :: value := by
  unfold entry
  rw [equals_eq, List.append_assoc, List.singleton_append]

/-- The new line has no blanks and no ends of line. -/
theorem not_mem_entry {name value : Text} (hname : varOk name = true)
    (hvalue : envValueOk value = true) {d : Byte} (hd : (varByte d || isdigit d) = false)
    (heq : d ≠ 61) (hlow : d ≤ 32) : d ∉ entry name value := by
  rw [entry_eq, List.mem_append, List.mem_cons, not_or, not_or]
  refine ⟨not_mem_of_varOk hname hd, heq, ?_⟩
  intro hmem
  exact absurd ((envValueOk_forall hvalue).2 d hmem).1 (UInt8.not_lt.mpr hlow)

theorem definition_entry {name value : Text} (hname : varOk name = true)
    (hvalue : envValueOk value = true) : definition (entry name value) = some (name, value) := by
  have hnul : (0 : Byte) ∉ entry name value :=
    not_mem_entry hname hvalue (by decide) (by decide) (by decide)
  have hexport : skipExport (entry name value) = entry name value := by
    unfold skipExport
    rw [if_neg]
    intro hbegins
    have hmem := (List.isPrefixOf_iff_prefix.mp hbegins).subset
      (by decide : (32 : Byte) ∈ text "export ")
    exact not_mem_entry hname hvalue (by decide) (by decide) (by decide) hmem
  have hmark : marks name (entry name value) = true := by
    unfold marks
    rw [hexport, List.isPrefixOf_iff_prefix]
    exact List.prefix_append _ _
  rw [definition_of_not_indented hnul (indented_of_marks hname hmark), hexport, entry_eq,
    assignment_entry hname, unquote_trimEnd hvalue]

/-! ## The writer line by line -/

/-- What the writer prints from a line on, the line that it adds at the end included. -/
def stored (name value : Text) (fuel : Nat) (replaced : Bool) (s : Text) : Text :=
  (storeLines name value fuel replaced s).1 ++
    if (storeLines name value fuel replaced s).2 then [] else entry name value ++ [10]

theorem stored_nil (name value : Text) (fuel : Nat) (replaced : Bool) :
    stored name value fuel replaced [] = if replaced then [] else entry name value ++ [10] := by
  cases fuel <;> rfl

theorem stored_marked {name s line next : Text} (value : Text) (hs : s ≠ [])
    (hnext : (s.dropWhile (· ≠ 10)).drop 1 = next) (hmark : marks name s = marks name line)
    (h : marks name line = true) (fuel : Nat) (replaced : Bool) :
    stored name value (fuel + 1) replaced s =
      (if replaced then [] else entry name value ++ [10]) ++ stored name value fuel true next := by
  cases s with
  | nil => exact absurd rfl hs
  | cons c s =>
      unfold stored
      rw [storeLines, if_pos (hmark.trans h), hnext, List.append_assoc]

theorem stored_kept {name s line next : Text} (value : Text) (hs : s ≠ [])
    (hline : s.takeWhile (· ≠ 10) = line)
    (hnext : (s.dropWhile (· ≠ 10)).drop 1 = next) (hmark : marks name s = marks name line)
    (h : ¬ marks name line = true) (fuel : Nat) (replaced : Bool) :
    stored name value (fuel + 1) replaced s =
      line ++ [10] ++ stored name value fuel replaced next := by
  cases s with
  | nil => exact absurd rfl hs
  | cons c s =>
      unfold stored
      rw [storeLines, if_neg (by rw [hmark]; exact h), hnext, hline, List.append_assoc]

/-- The loop of the writer rewrites the lines of the variable. -/
theorem stored_eq {name : Text} (hname : varOk name = true) (value s : Text) {fuel : Nat}
    (hfuel : s.length ≤ fuel) (replaced : Bool) :
    stored name value fuel replaced s =
      (Definitions.rewrite (marks name) (entry name value) replaced
        (Definitions.lines (10 : Byte) s)).flatMap (· ++ [10]) := by
  have hentry (replaced : Bool) : (if replaced then [] else entry name value ++ [10]) =
      (if replaced then [] else [entry name value]).flatMap (· ++ [10]) := by
    cases replaced <;> simp
  induction s using Definitions.lines_cases (10 : Byte) generalizing fuel replaced with
  | hnil => rw [stored_nil, hentry, Definitions.lines, Definitions.rewrite]
  | hended l s hl ih =>
      rw [List.length_append, List.length_cons] at hfuel
      obtain ⟨fuel, rfl⟩ := Nat.exists_eq_succ_of_ne_zero (by omega : fuel ≠ 0)
      have hne : l ++ 10 :: s ≠ [] := List.append_ne_nil_of_right_ne_nil _ (List.cons_ne_nil _ _)
      have hnext : ((l ++ 10 :: s).dropWhile (· ≠ 10)).drop 1 = s := by
        rw [dropWhile_ne hl, List.drop_one, List.tail_cons]
      rw [Definitions.lines_ended hl, Definitions.rewrite]
      by_cases hmark : marks name l = true
      · rw [stored_marked value hne hnext (marks_line hname l s) hmark, if_pos hmark, hentry,
          ih (by omega), List.flatMap_append]
      · rw [stored_kept value hne (takeWhile_ne hl s) hnext (marks_line hname l s) hmark,
          if_neg hmark, ih (by omega), List.flatMap_cons]
  | hunfinished l hl hne =>
      have hpos := List.length_pos_of_ne_nil hne
      have hall : ∀ c ∈ l, decide (c ≠ 10) = true := by
        intro c hc
        exact decide_eq_true fun h10 => hl (h10 ▸ hc)
      obtain ⟨fuel, rfl⟩ := Nat.exists_eq_succ_of_ne_zero (by omega : fuel ≠ 0)
      have hnext : (l.dropWhile (· ≠ 10)).drop 1 = [] := by
        rw [List.dropWhile_eq_nil_iff.mpr hall, List.drop_nil]
      have hline : l.takeWhile (· ≠ 10) = l := List.takeWhile_eq_self_iff.mpr hall
      rw [Definitions.lines_unfinished hl hne, Definitions.rewrite]
      by_cases hmark : marks name l = true
      · rw [stored_marked value hne hnext rfl hmark, if_pos hmark, stored_nil, hentry, hentry,
          Definitions.rewrite, List.flatMap_append]
      · rw [stored_kept value hne hline hnext rfl hmark, if_neg hmark, stored_nil, hentry,
          Definitions.rewrite, List.flatMap_cons]

/-- The buffer that the writer asks for, old text, variable, value and 128 bytes, is large
enough: nothing that it prints is cut. -/
theorem length_storeEnv {old : Option Text} {name value new : Text} (hname : varOk name = true)
    (h : storeEnv old name value = .ok new) :
    new.length < (old.getD []).length + name.length + value.length + 128 := by
  have hlines := Definitions.length_flatMap_lines (10 : Byte) (cstr (old.getD []))
  have hrewrite := Definitions.length_flatMap_rewrite (marks name) (entry name value)
    (· ++ [(10 : Byte)]) false (Definitions.lines (10 : Byte) (cstr (old.getD [])))
  rw [← stored_eq hname value _ (Nat.le_refl _), if_neg (by decide), entry_eq,
    List.length_append, List.length_append, List.length_cons, List.length_singleton] at hrewrite
  have htotal := hrewrite.trans (Nat.add_le_add_right hlines _)
  have hcstr : (cstr (old.getD [])).length ≤ (old.getD []).length :=
    (List.takeWhile_sublist _).length_le
  unfold storeEnv at h
  split at h
  next => cases h
  next =>
      have hnew := congrArg List.length (Except.ok.inj h)
      rw [List.append_assoc, List.length_append] at hnew
      change _ + (stored name value _ false (cstr (old.getD []))).length = _ at hnew
      cases old with
      | none =>
          have hheader : envHeader.length ≤ 100 := by decide
          change envHeader.length + _ = _ at hnew
          omega
      | some old =>
          change 0 + _ = _ at hnew
          omega

theorem envValueOk_of_storeEnv {old : Option Text} {name value new : Text}
    (h : storeEnv old name value = .ok new) : envValueOk value = true := by
  unfold storeEnv at h
  cases hvalue : envValueOk value with
  | true => rfl
  | false =>
      rw [hvalue, if_pos rfl] at h
      cases h

/-- The lines of the new file. -/
theorem lines_storeEnv {old name value new : Text} (hname : varOk name = true)
    (h : storeEnv (some old) name value = .ok new) :
    Definitions.lines (10 : Byte) new =
      Definitions.rewrite (marks name) (entry name value) false
        (Definitions.lines (10 : Byte) (cstr old)) := by
  have hvalue := envValueOk_of_storeEnv h
  unfold storeEnv at h
  rw [hvalue, if_neg (by decide)] at h
  have hnew : stored name value (cstr old).length false (cstr old) = new := Except.ok.inj h
  rw [← hnew, stored_eq hname value _ (Nat.le_refl _), Definitions.lines_flatMap]
  intro l hl
  cases Definitions.mem_rewrite hl with
  | inl hentry =>
      rw [hentry]
      exact not_mem_entry hname hvalue (by decide) (by decide) (by decide)
  | inr hmem => exact Definitions.not_mem_of_mem_lines hmem

/-! ## What the writer does not see -/

/-- The lines after the one with the first NUL, where the text that the writer reads ends. -/
def hidden (old : Text) : List Text :=
  ((Definitions.lines (10 : Byte) old).dropWhile fun l => decide ((0 : Byte) ∉ l)).drop 1

theorem cstr_of_mem {l : Text} (h : (0 : Byte) ∈ l) (s : Text) : cstr (l ++ s) = cstr l := by
  obtain ⟨before, rest, rfl, hbefore⟩ := List.eq_append_cons_of_mem h
  unfold cstr
  rw [List.append_assoc, List.cons_append, takeWhile_ne hbefore, takeWhile_ne hbefore]

theorem cstr_append {l : Text} (h : (0 : Byte) ∉ l) (s : Text) : cstr (l ++ s) = l ++ cstr s := by
  have hall : ∀ c ∈ l, decide (c ≠ 0) = true := by
    intro c hc
    exact decide_eq_true fun h0 => h (h0 ▸ hc)
  exact List.takeWhile_append_of_pos hall

theorem value_line {l : Text} (hl : (10 : Byte) ∉ l) (v : Text) :
    Definitions.value definition [l] v = fileValue (cstr l) v := by
  have hcut : (10 : Byte) ∉ cstr l := fun h => hl (mem_of_mem_cstr h)
  have hdefinition (l' : Text) (h : definition l' = definition l) :
      Definitions.value definition [l'] v = Definitions.value definition [l] v := by
    rw [Definitions.value, Definitions.value, List.filterMap_cons, List.filterMap_cons, h]
  unfold fileValue
  by_cases hnil : cstr l = []
  · have hnone : definition l = none := by
      rw [← definition_cstr, hnil]
      rfl
    rw [hnil, Definitions.value, List.filterMap_cons, hnone]
    rfl
  · rw [Definitions.lines_unfinished hcut hnil, hdefinition _ (definition_cstr l)]

/-- A file defines what the writer sees of it and, where that says nothing, the hidden lines. -/
theorem fileValue_eq (old v : Text) :
    fileValue old v =
      (fileValue (cstr old) v).or (Definitions.value definition (hidden old) v) := by
  have hcons (l : Text) (ls : List Text) : Definitions.value definition (l :: ls) v =
      (Definitions.value definition [l] v).or (Definitions.value definition ls v) :=
    Definitions.value_append [l] ls v
  induction old using Definitions.lines_cases (10 : Byte) with
  | hnil => rfl
  | hended l s hl ih =>
      unfold fileValue hidden
      rw [Definitions.lines_ended hl, hcons, value_line hl]
      by_cases hnul : (0 : Byte) ∈ l
      · rw [cstr_of_mem hnul, List.dropWhile_cons_of_neg (by simp [hnul])]
        rfl
      · have hcut : cstr (l ++ 10 :: s) = l ++ 10 :: cstr s := by
          rw [cstr_append hnul]
          rfl
        rw [hcut, Definitions.lines_ended hl, List.dropWhile_cons_of_pos (by simp [hnul]), hcons,
          value_line hl, Option.or_assoc]
        exact congrArg _ ih
  | hunfinished l hl hne =>
      unfold fileValue hidden
      rw [Definitions.lines_unfinished hl hne, value_line hl]
      by_cases hnul : (0 : Byte) ∈ l
      · rw [List.dropWhile_cons_of_neg (by simp [hnul])]
        exact Option.or_none.symm
      · rw [List.dropWhile_cons_of_pos (by simp [hnul])]
        exact Option.or_none.symm

/-- Cutting the text at its first NUL makes no line longer. -/
theorem length_lines_cstr {old : Text} {bound : Nat}
    (h : ∀ l ∈ Definitions.lines (10 : Byte) old, l.length < bound) :
    ∀ l ∈ Definitions.lines (10 : Byte) (cstr old), l.length < bound := by
  have hcut {l : Text} (hl : (10 : Byte) ∉ l) (hlong : l.length < bound) :
      ∀ l' ∈ Definitions.lines (10 : Byte) (cstr l), l'.length < bound := by
    have hcstr : (cstr l).length ≤ l.length := (List.takeWhile_sublist _).length_le
    by_cases hnil : cstr l = []
    · rw [hnil]
      exact nofun
    · rw [Definitions.lines_unfinished (fun hm => hl (mem_of_mem_cstr hm)) hnil,
        List.forall_mem_singleton]
      omega
  induction old using Definitions.lines_cases (10 : Byte) with
  | hnil => exact nofun
  | hended l s hl ih =>
      rw [Definitions.lines_ended hl, List.forall_mem_cons] at h
      by_cases hnul : (0 : Byte) ∈ l
      · rw [cstr_of_mem hnul]
        exact hcut hl h.1
      · have hsplit : cstr (l ++ 10 :: s) = l ++ 10 :: cstr s := by
          rw [cstr_append hnul]
          rfl
        rw [hsplit, Definitions.lines_ended hl, List.forall_mem_cons]
        exact ⟨h.1, ih h.2⟩
  | hunfinished l hl hne =>
      rw [Definitions.lines_unfinished hl hne, List.forall_mem_singleton] at h
      exact hcut hl h

theorem not_mem_line_cstr {old l : Text} (h : l ∈ Definitions.lines (10 : Byte) (cstr old)) :
    (0 : Byte) ∉ l := by
  intro hmem
  exact not_mem_cstr old (Definitions.mem_of_mem_lines h hmem)

theorem key_of_marks {old name : Text} (hname : varOk name = true) :
    ∀ l ∈ Definitions.lines (10 : Byte) (cstr old), marks name l = true →
      (definition l).map Prod.fst = some name := by
  intro l hl hmark
  exact ((marks_iff hname (not_mem_line_cstr hl)).mp hmark).2

/-! ## The round trip -/

/-- Where storing a variable does what it says: the line fits in the reader's buffer; the first
line that defines the variable is not indented, or has the value already; and after the file's first
NUL no further variable is defined. -/
structure Storable (old name value : Text) : Prop where
  fits : name.length + 1 + value.length < 4096
  seen : ∀ line, (Definitions.lines (10 : Byte) (cstr old)).find?
      (Definitions.defines definition name) = some line →
    indented line = false ∨ definition line = some (name, value)
  kept : ∀ v ≠ name, (Definitions.value definition (hidden old) v).isSome →
    (fileValue (cstr old) v).isSome

section Stored

variable {old name value new : Text} (hname : varOk name = true)
  (hstore : storeEnv (some old) name value = .ok new)

include hname hstore

theorem fileValue_of_ne {v : Text} (hv : v ≠ name) : fileValue new v = fileValue (cstr old) v := by
  unfold fileValue
  rw [lines_storeEnv hname hstore]
  exact Definitions.value_rewrite_of_ne (key_of_marks hname)
    (definition_entry hname (envValueOk_of_storeEnv hstore)) hv false

theorem fileValue_self_iff : fileValue new name = some value ↔
    ∀ line, (Definitions.lines (10 : Byte) (cstr old)).find?
        (Definitions.defines definition name) = some line →
      indented line = false ∨ definition line = some (name, value) := by
  unfold fileValue
  rw [lines_storeEnv hname hstore, Definitions.value_rewrite_self (key_of_marks hname)
    (definition_entry hname (envValueOk_of_storeEnv hstore))]
  cases hfind : (Definitions.lines (10 : Byte) (cstr old)).find?
      (Definitions.defines definition name) with
  | none => exact ⟨fun _ => nofun, fun _ => rfl⟩
  | some line =>
      have hkey := Definitions.key_of_find hfind
      have hmarks := marks_iff hname (not_mem_line_cstr (List.mem_of_find?_eq_some hfind))
      have hvalue : (definition line).map Prod.snd = some value ↔
          definition line = some (name, value) := by
        obtain ⟨⟨n, v⟩, hd, rfl⟩ := Option.map_eq_some_iff.mp hkey
        rw [hd]
        simp
      show (if marks name line then some value else (definition line).map Prod.snd) = some value ↔ _
      by_cases hindented : indented line = false
      · rw [if_pos (hmarks.mpr ⟨hindented, hkey⟩)]
        exact ⟨fun _ _ hline => .inl (Option.some.inj hline ▸ hindented), fun _ => rfl⟩
      · rw [if_neg (fun hmark => hindented (hmarks.mp hmark).1), hvalue]
        constructor
        · intro hd line' hline
          exact .inr (Option.some.inj hline ▸ hd)
        · intro h
          exact (h line rfl).resolve_left hindented

theorem length_lines_storeEnv (hlines : ∀ l ∈ Definitions.lines (10 : Byte) old, l.length < 4096)
    (hfits : name.length + 1 + value.length < 4096) :
    ∀ l ∈ Definitions.lines (10 : Byte) new, l.length < 4096 := by
  intro l hl
  rw [lines_storeEnv hname hstore] at hl
  cases Definitions.mem_rewrite hl with
  | inl hentry =>
      rw [hentry, entry_eq, List.length_append, List.length_cons]
      omega
  | inr hmem => exact length_lines_cstr hlines l hmem

end Stored

theorem store_load_iff {old name value new : Text} {env : Env} (hname : varOk name = true)
    (hlines : ∀ l ∈ Definitions.lines (10 : Byte) old, l.length < 4096)
    (hstore : storeEnv (some old) name value = .ok new)
    (hclear : ∀ v, v = name ∨ ((loadEnv (fun _ => none) (some old)).1 v).isSome → env v = none) :
    ((loadEnv env (some new)).1 name = some value ∧
      ∀ v ≠ name, (loadEnv env (some new)).1 v = (loadEnv env (some old)).1 v) ↔
    Storable old name value := by
  have hnone : env name = none := hclear name (.inl rfl)
  have hload (v : Text) := loadEnv_apply hlines env v
  constructor
  · rintro ⟨hself, hothers⟩
    have hfits := length_of_loadEnv hnone hself
    have hnew := loadEnv_apply (length_lines_storeEnv hname hstore hlines hfits) env
    refine ⟨hfits, ?_, ?_⟩
    · rw [hnew, hnone, Option.none_or] at hself
      exact (fileValue_self_iff hname hstore).mp hself
    · intro v hv hhidden
      have hold : (fileValue old v).isSome := by
        rw [fileValue_eq, Option.isSome_or, hhidden, Bool.or_true]
      have hunset : env v = none := by
        refine hclear v (.inr ?_)
        rw [loadEnv_apply hlines, Option.none_or]
        exact hold
      have hsame := hothers v hv
      rw [hnew, hload, hunset, Option.none_or, Option.none_or,
        fileValue_of_ne hname hstore hv] at hsame
      rw [hsame]
      exact hold
  · intro h
    have hnew := loadEnv_apply (length_lines_storeEnv hname hstore hlines h.fits) env
    constructor
    · rw [hnew, hnone, Option.none_or]
      exact (fileValue_self_iff hname hstore).mpr h.seen
    · intro v hv
      rw [hnew, hload, fileValue_of_ne hname hstore hv, fileValue_eq old v]
      cases hhidden : Definitions.value definition (hidden old) v with
      | none => rw [Option.or_none]
      | some w =>
          have hsome := h.kept v hv (by rw [hhidden]; rfl)
          obtain ⟨u, hu⟩ := Option.isSome_iff_exists.mp hsome
          rw [hu, Option.some_or]

/-- A file with comments, empty lines, quotes, an `export` and repeated definitions. -/
def envSample : Text := text "# keys\n\nexport A=1\nK=\"x\"\n\tB='2'\nK=y\nA=3"

theorem store_load_sample :
    ((loadEnv (fun _ => none)
        (some (text "# keys\n\nexport A=1\nK=v\n\tB='2'\nA=3\n"))).1 (text "K") =
          some (text "v") ∧
      ∀ v ≠ text "K", (loadEnv (fun _ => none)
          (some (text "# keys\n\nexport A=1\nK=v\n\tB='2'\nA=3\n"))).1 v =
        (loadEnv (fun _ => none) (some envSample)).1 v) ↔
    Storable envSample (text "K") (text "v") :=
  store_load_iff (by decide +kernel) (by decide +kernel) (by rfl) (fun _ _ => rfl)

/-- The reader skips the blanks before a definition and the writer does not: the old value stays in
front of the new one. -/
theorem indented_definition_stays :
    varOk (text "K") = true ∧
      (∀ l ∈ Definitions.lines (10 : Byte) (text "  K=old\n"), l.length < 4096) ∧
      storeEnv (some (text "  K=old\n")) (text "K") (text "v") =
        .ok (text "  K=old\nK=v\n") ∧
      (loadEnv (fun _ => none) (some (text "  K=old\nK=v\n"))).1 (text "K") = some (text "old") ∧
      ¬ (loadEnv (fun _ => none) (some (text "  K=old\nK=v\n"))).1 (text "K") =
        some (text "v") := by
  refine ⟨by decide, by decide +kernel, rfl, by decide +kernel, by decide +kernel⟩

end Recursant.Cli
