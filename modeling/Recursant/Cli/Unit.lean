import Recursant.Cli.EnvFile

/-!
# The service unit

`recursant install` writes a unit that names the configuration and its secrets, and the other
commands read the unit back to find the configuration that the service runs with.  Paths are texts
without their terminating NUL; a path buffer has room for `pathMax` bytes.
-/

namespace Recursant.Cli

def pathMax : Nat := 4096

/-- `snprintf(out, size, "%s", s)` -/
def printed (size : Nat) (s : Text) : Text := s.take (size - 1)

/-- `rc_cli_paths` -/
structure Paths where
  user : Bool
  config : Text
  envFile : Text
  unit : Text
  bin : Text
  deriving DecidableEq

/-- What the commands see of the machine: who runs them, the variables they read, and the files. -/
structure Machine where
  root : Bool
  home : Text
  xdgConfigHome : Option Text
  recursantConfig : Option Text
  file : Text → Option Text

/-! ## Paths -/

/-- The part of a path before its last slash. -/
def directory (path : Text) : Option Text :=
  match path.reverse.dropWhile (· ≠ 47) with
  | [] => none
  | _ :: rest => some rest.reverse

/-- `rc_cli_env_path` -/
def envPath (config : Text) : Text :=
  printed pathMax (match directory config with
    | none => "recursant.env"
    | some dir => dir ++ text "/recursant.env")

/-- `rc_cli_paths_for` -/
def pathsFor (m : Machine) (user : Bool) : Paths :=
  if user then
    let base := printed pathMax (match m.xdgConfigHome.filter (· ≠ []) with
      | some xdg => xdg
      | none => m.home ++ text "/.config")
    let config := printed pathMax (base.take (pathMax - 32) ++ text "/recursant/config.json")
    { user
      config
      envFile := envPath config
      unit := printed pathMax
        (base.take (pathMax - 40) ++ text "/systemd/user/recursant.service")
      bin := printed pathMax (m.home.take (pathMax - 32) ++ text "/.local/bin/recursant") }
  else
    { user
      config := text "/etc/recursant/config.json"
      envFile := envPath (text "/etc/recursant/config.json")
      unit := text "/etc/systemd/system/recursant.service"
      bin := text "/usr/local/bin/recursant" }

def Machine.exists (m : Machine) (path : Text) : Bool := (m.file path).isSome

/-- The machine with one file written. -/
def Machine.write (m : Machine) (path data : Text) : Machine :=
  { m with file := fun other => if other = path then some data else m.file other }

/-- `choose_paths` -/
def choosePaths (m : Machine) : Option Bool → Paths
  | some user => pathsFor m user
  | none =>
      let u := pathsFor m true
      let s := pathsFor m false
      if !m.root && m.exists u.unit then u
      else if m.exists s.unit then s
      else if !m.root && m.exists u.config then u
      else if m.exists s.config then s
      else if m.root then s else u

/-- `set_config` -/
def setConfig (p : Paths) (config : Text) : Paths :=
  let config := printed pathMax config
  { p with config, envFile := envPath config }

/-! ## Writing the unit -/

/-- A byte that a path in a unit may have; `char` is signed on some machines. -/
def unitByte (signed : Bool) (c : Byte) : Bool :=
  !(c ≤ 32 || (signed && 128 ≤ c) || (text "\"'\\$%;").contains c)

/-- `unit_safe` -/
def unitSafe (signed : Bool) (path : Text) : Bool :=
  path.all (unitByte signed) && path.head? = some 47

def unitHeader : List Text :=
  [text "# Generated by \x60recursant install\x60. Changes are overwritten by the next install.",
    text "[Unit]",
    text "Description=Recursant inference router",
    text "Documentation=https://github.com/ajensenwaud/recursant"]

/-- The lines of a user's unit. -/
def userLines (p : Paths) : List Text :=
  unitHeader ++
  [[],
    text "[Service]",
    text "Type=simple",
    text "EnvironmentFile=-" ++ p.envFile,
    text "ExecStartPre=" ++ p.bin ++ text " check --config " ++ p.config,
    text "ExecStart=" ++ p.bin ++ text " serve --config " ++ p.config] ++
  [text "Restart=on-failure",
    text "RestartSec=2",
    text "SyslogIdentifier=recursant",
    text "NoNewPrivileges=yes",
    [],
    text "[Install]",
    text "WantedBy=default.target"]

/-- The capabilities of a service with a low port or another. -/
def capabilityLines (lowPort : Bool) : List Text :=
  if lowPort then
    [text "CapabilityBoundingSet=CAP_NET_BIND_SERVICE",
      text "AmbientCapabilities=CAP_NET_BIND_SERVICE"]
  else [text "CapabilityBoundingSet="]

/-- The lines of the system's unit. -/
def systemLines (p : Paths) (tailnet lowPort : Bool) : List Text :=
  unitHeader ++
  [text "Wants=network-online.target",
    text "After=network-online.target" ++ (if tailnet then text " tailscaled.service" else []),
    [],
    text "[Service]",
    text "Type=simple",
    text "# Secrets: read by systemd itself, never by the service user.",
    text "EnvironmentFile=-" ++ p.envFile,
    text "# The config is handed to the unprivileged dynamic user as a credential.",
    text "LoadCredential=config.json:" ++ p.config,
    text "ExecStartPre=" ++ p.bin ++
      text " check --config $\x7bCREDENTIALS_DIRECTORY\x7d/config.json",
    text "ExecStart=" ++ p.bin ++
      text " serve --config $\x7bCREDENTIALS_DIRECTORY\x7d/config.json"] ++
  [text "Restart=on-failure",
    text "RestartSec=2",
    text "SyslogIdentifier=recursant",
    text "DynamicUser=yes",
    text "NoNewPrivileges=yes",
    text "ProtectSystem=strict",
    text "ProtectHome=yes",
    text "PrivateTmp=yes",
    text "PrivateDevices=yes",
    text "ProtectKernelTunables=yes",
    text "ProtectKernelModules=yes",
    text "ProtectControlGroups=yes",
    text "RestrictAddressFamilies=AF_INET AF_INET6 AF_UNIX AF_NETLINK",
    text "RestrictRealtime=yes",
    text "LockPersonality=yes"] ++
  capabilityLines lowPort ++
  [[],
    text "[Install]",
    text "WantedBy=multi-user.target"]

/-- The lines of `render_unit`, for a configuration whose host is on the tailnet or not and whose
port is a low one or not. -/
def unitLines (p : Paths) (tailnet lowPort : Bool) : List Text :=
  if p.user then userLines p else systemLines p tailnet lowPort

/-- `render_unit` -/
def renderUnit (p : Paths) (tailnet lowPort : Bool) : Text :=
  (unitLines p tailnet lowPort).flatMap (· ++ [10])

/-! ## Reading it -/

/-- The tokens that `strtok(text, "\n")` returns one after the other. -/
def tokens (s : Text) : List Text := (Definitions.lines 10 s).filter (· ≠ [])

/-- The path on a line of the unit, if it fits. -/
def linePath (size : Nat) (line : Text) : Option Text :=
  (if (text "LoadCredential=config.json:").isPrefixOf line then some (line.drop 27)
    else if (text "ExecStart=").isPrefixOf line then
      (strstr (text " serve --config ") line).map (·.drop 16)
    else none).filter fun path => path.head? = some 47 && path.length < size

/-- `unit_config` -/
def unitConfig (unit : Option Text) (size : Nat) : Option Text :=
  (tokens (cstr (unit.getD []))).findSome? (linePath size)

/-! ## Commands -/

/-- The switches that say which installation a command acts on. -/
structure Switches where
  user : Option Bool := none
  config : Option Text := none
  positional : Option Text := none

/-- `resolve` -/
def resolvePaths (m : Machine) (o : Switches) : Paths :=
  let p := choosePaths m o.user
  let config := o.config.or o.positional
  let config := if o.user.isNone then config.or m.recursantConfig else config
  match (config.or (unitConfig (m.file p.unit) pathMax)).filter (· ≠ []) with
  | some config => setConfig p config
  | none => p

/-- The paths that `cmd_install` installs with. -/
def installPaths (m : Machine) (o : Switches) : Paths :=
  let p := pathsFor m (o.user.getD !m.root)
  match o.config with
  | some config => setConfig p config
  | none => p

/-- What `cmd_install` asks others: the check of the configuration, the copy of the binary, and what
the configuration says of its host and its port. -/
structure Findings where
  checked : Bool
  copied : Bool
  tailnet : Bool
  lowPort : Bool

/-- `cmd_install` up to the unit, without `--dry-run`: the machine once the unit is written. -/
def install (signed : Bool) (m : Machine) (o : Switches) (f : Findings) : Option Machine :=
  let p := installPaths m o
  let unit := renderUnit p f.tailnet f.lowPort
  if !p.user && !m.root then none
  else if !m.exists p.config then none
  else if !unitSafe signed p.config || !unitSafe signed p.envFile || !unitSafe signed p.bin then none
  else if !f.checked || !f.copied || unit.length ≥ 8192 then none
  else some (m.write p.unit unit)

/-! ## The lines of a unit -/

variable {size : Nat}

/-- A text on one line. -/
def clean (l : Text) : Bool := l.all fun c => c ≠ 10 && c ≠ 0

theorem clean_append (l k : Text) : clean (l ++ k) = (clean l && clean k) := List.all_append

theorem clean_of_unitSafe {signed : Bool} {path : Text} (h : unitSafe signed path = true) :
    clean path = true := by
  unfold unitSafe at h
  rw [Bool.and_eq_true, List.all_eq_true] at h
  unfold clean
  rw [List.all_eq_true]
  intro c hc
  have hbyte := h.1 c hc
  simp only [unitByte, Bool.not_eq_true', Bool.or_eq_false_iff, decide_eq_false_iff_not] at hbyte
  have hblank : ¬ c ≤ 32 := hbyte.1.1
  have hten : c ≠ 10 := fun h => hblank (h ▸ by decide)
  have hnul : c ≠ 0 := fun h => hblank (h ▸ by decide)
  simp [hten, hnul]

theorem blank_of_unitSafe {signed : Bool} {path : Text} (h : unitSafe signed path = true) :
    (32 : Byte) ∉ path := by
  unfold unitSafe at h
  rw [Bool.and_eq_true, List.all_eq_true] at h
  intro hmem
  have hbyte := h.1 32 hmem
  simp [unitByte] at hbyte

/-- The paths of an installation that `cmd_install` puts in a unit. -/
structure Paths.Safe (signed : Bool) (p : Paths) : Prop where
  config : unitSafe signed p.config = true
  envFile : unitSafe signed p.envFile = true
  bin : unitSafe signed p.bin = true

theorem clean_unitHeader : unitHeader.all clean = true := by decide

theorem clean_unitLines {signed : Bool} {p : Paths} (h : p.Safe signed) (tailnet lowPort : Bool) :
    (unitLines p tailnet lowPort).all clean = true := by
  have hconfig := clean_of_unitSafe h.config
  have henv := clean_of_unitSafe h.envFile
  have hbin := clean_of_unitSafe h.bin
  unfold unitLines
  split
  · simp only [userLines, List.all_append, List.all_cons, List.all_nil, clean_append,
      clean_unitHeader, hconfig, henv, hbin]
    decide
  · simp only [systemLines, List.all_append, List.all_cons, List.all_nil, clean_append,
      clean_unitHeader, hconfig, henv, hbin]
    cases tailnet <;> cases lowPort <;> decide

theorem not_mem_of_clean {l : Text} (h : clean l = true) : (10 : Byte) ∉ l ∧ (0 : Byte) ∉ l := by
  unfold clean at h
  rw [List.all_eq_true] at h
  constructor
  · intro hmem
    have hten := h 10 hmem
    simp at hten
  · intro hmem
    have hnul := h 0 hmem
    simp at hnul

/-- The tokens of a unit are its lines, whatever its paths are: no path adds a line. -/
theorem tokens_renderUnit {signed : Bool} {p : Paths} (h : p.Safe signed)
    (tailnet lowPort : Bool) : tokens (cstr (renderUnit p tailnet lowPort)) =
      (unitLines p tailnet lowPort).filter (· ≠ []) := by
  have hclean := List.all_eq_true.mp (clean_unitLines h tailnet lowPort)
  have hnul : (0 : Byte) ∉ renderUnit p tailnet lowPort := by
    unfold renderUnit
    rw [List.mem_flatMap]
    intro hmem
    obtain ⟨l, hl, hzero⟩ := hmem
    rw [List.mem_append, List.mem_singleton] at hzero
    cases hzero with
    | inl hzero => exact (not_mem_of_clean (hclean l hl)).2 hzero
    | inr hzero => exact absurd hzero (by decide)
  rw [cstr_of_not_mem hnul, tokens, renderUnit,
    Definitions.lines_flatMap fun l hl => (not_mem_of_clean (hclean l hl)).1]

theorem findSome?_filter {β : Type} (f : Text → Option β) (hnil : f [] = none) (ls : List Text) :
    (ls.filter (· ≠ [])).findSome? f = ls.findSome? f := by
  induction ls with
  | nil => rfl
  | cons l ls ih =>
      by_cases hl : l = []
      · rw [List.filter_cons_of_neg (by simp [hl]), ih, List.findSome?_cons, hl, hnil]
      · rw [List.filter_cons_of_pos (by simp [hl]), List.findSome?_cons, List.findSome?_cons, ih]

/-- A text is found where it first stands if its first byte is nowhere before. -/
theorem strstr_first {c : Byte} {front : Text} (h : c ∉ front) (needle rest : Text) :
    strstr (c :: needle) (front ++ (c :: needle ++ rest)) = some (c :: needle ++ rest) := by
  induction front with
  | nil => simp [strstr]
  | cons d front ih =>
      rw [List.mem_cons, not_or] at h
      have hnot : (c :: needle).isPrefixOf (d :: (front ++ (c :: needle ++ rest))) = false := by
        rw [List.isPrefixOf_cons_cons, beq_eq_false_iff_ne.mpr h.1, Bool.false_and]
      rw [List.cons_append, strstr, hnot]
      exact ih h.2

theorem linePath_load {path : Text} (habsolute : path.head? = some 47)
    (hroom : path.length < size) :
    linePath size (text "LoadCredential=config.json:" ++ path) = some path := by
  unfold linePath
  rw [if_pos (List.isPrefixOf_iff_prefix.mpr (List.prefix_append _ _))]
  have hdrop : (text "LoadCredential=config.json:" ++ path).drop 27 = path :=
    List.drop_left' (by decide)
  rw [hdrop, Option.filter_some, if_pos (by simp [habsolute, hroom])]

theorem linePath_start {bin path : Text} (hbin : (32 : Byte) ∉ bin)
    (habsolute : path.head? = some 47) (hroom : path.length < size) :
    linePath size (text "ExecStart=" ++ bin ++ text " serve --config " ++ path) = some path := by
  have hneedle : text " serve --config " = 32 :: text "serve --config " := by decide
  have hfront : (32 : Byte) ∉ text "ExecStart=" ++ bin := by
    rw [List.mem_append, not_or]
    exact ⟨by decide, hbin⟩
  have hfound : strstr (text " serve --config ")
      (text "ExecStart=" ++ bin ++ text " serve --config " ++ path) =
        some (text " serve --config " ++ path) := by
    rw [List.append_assoc, hneedle]
    exact strstr_first hfront _ _
  have hload : (text "LoadCredential=config.json:").isPrefixOf
      (text "ExecStart=" ++ bin ++ text " serve --config " ++ path) = false := rfl
  have hdrop : (text " serve --config " ++ path).drop 16 = path := List.drop_left' (by decide)
  unfold linePath
  rw [hload, if_neg Bool.false_ne_true, if_pos (List.isPrefixOf_iff_prefix.mpr (by
    rw [List.append_assoc, List.append_assoc]
    exact List.prefix_append _ _)), hfound]
  rw [Option.map_some, hdrop, Option.filter_some, if_pos (by simp [habsolute, hroom])]

/-- The search passes over a line that names no configuration. -/
theorem findSome?_next {l x : Text} {ls : List Text} (h : linePath size l = none)
    (hrest : ls.findSome? (linePath size) = some x) :
    (l :: ls).findSome? (linePath size) = some x := by
  rw [List.findSome?_cons, h]
  exact hrest

theorem findSome?_here {l x : Text} (ls : List Text) (h : linePath size l = some x) :
    (l :: ls).findSome? (linePath size) = some x := by
  rw [List.findSome?_cons, h]

theorem findSome?_header {x : Text} {ls : List Text}
    (h : ls.findSome? (linePath size) = some x) :
    (unitHeader ++ ls).findSome? (linePath size) = some x :=
  findSome?_next rfl (findSome?_next rfl (findSome?_next rfl (findSome?_next rfl h)))

/-- The configuration that a unit names is read back from it. -/
theorem unitConfig_renderUnit {signed : Bool} {p : Paths} (h : p.Safe signed)
    (hroom : p.config.length < size) (tailnet lowPort : Bool) :
    unitConfig (some (renderUnit p tailnet lowPort)) size = some p.config := by
  have habsolute : p.config.head? = some 47 := by
    have hsafe := h.config
    unfold unitSafe at hsafe
    rw [Bool.and_eq_true] at hsafe
    exact of_decide_eq_true hsafe.2
  unfold unitConfig
  rw [Option.getD_some, tokens_renderUnit h, findSome?_filter _ rfl]
  unfold unitLines
  split
  · -- a user's unit has no credential: the path stands on the command's line
    rw [userLines, List.append_assoc]
    apply findSome?_header
    apply findSome?_next rfl
    apply findSome?_next rfl
    apply findSome?_next rfl
    apply findSome?_next rfl
    apply findSome?_next rfl
    exact findSome?_here _ (linePath_start (blank_of_unitSafe h.bin) habsolute hroom)
  · -- the system's unit names it as a credential, before the commands
    rw [systemLines, List.append_assoc, List.append_assoc, List.append_assoc]
    apply findSome?_header
    apply findSome?_next rfl
    apply findSome?_next rfl
    apply findSome?_next rfl
    apply findSome?_next rfl
    apply findSome?_next rfl
    apply findSome?_next rfl
    apply findSome?_next rfl
    apply findSome?_next rfl
    exact findSome?_here _ (linePath_load habsolute hroom)

/-! ## The installed paths are resolved again -/

theorem length_printed {size : Nat} (h : 0 < size) (s : Text) : (printed size s).length < size := by
  unfold printed
  rw [List.length_take]
  omega

theorem printed_of_lt {size : Nat} {s : Text} (h : s.length < size) : printed size s = s := by
  unfold printed
  exact List.take_of_length_le (by omega)

theorem length_pathsFor_config (m : Machine) (user : Bool) :
    (pathsFor m user).config.length < pathMax := by
  cases user with
  | true => exact length_printed (by decide) _
  | false => exact show (text "/etc/recursant/config.json").length < pathMax by decide

theorem pathsFor_envFile (m : Machine) (user : Bool) :
    (pathsFor m user).envFile = envPath (pathsFor m user).config := by
  cases user <;> rfl

/-- Naming the configuration that a set of paths has already changes nothing. -/
theorem setConfig_own {p : Paths} (hroom : p.config.length < pathMax)
    (henv : p.envFile = envPath p.config) : setConfig p p.config = p := by
  unfold setConfig
  simp only [printed_of_lt hroom, ← henv]

theorem setConfig_twice (p : Paths) (config : Text) :
    setConfig p (setConfig p config).config = setConfig p config := by
  have hroom := length_printed (show 0 < pathMax by decide) config
  unfold setConfig
  simp only [printed_of_lt hroom]

theorem installPaths_eq (m : Machine) (o : Switches) :
    setConfig (pathsFor m (o.user.getD !m.root)) (installPaths m o).config = installPaths m o := by
  unfold installPaths
  cases o.config with
  | none => exact setConfig_own (length_pathsFor_config m _) (pathsFor_envFile m _)
  | some config => exact setConfig_twice _ config

theorem installPaths_unit (m : Machine) (o : Switches) :
    (installPaths m o).unit = (pathsFor m (o.user.getD !m.root)).unit := by
  unfold installPaths
  cases o.config <;> rfl

theorem length_installPaths (m : Machine) (o : Switches) :
    (installPaths m o).config.length < pathMax := by
  unfold installPaths
  cases o.config with
  | none => exact length_pathsFor_config m _
  | some config => exact length_printed (by decide) _

/-- What a later command finds as `cmd_install` left it: who runs it, the directories of its
variables, and the unit. -/
structure Undisturbed (m n : Machine) (unit : Text) : Prop where
  root : n.root = m.root
  home : n.home = m.home
  xdg : n.xdgConfigHome = m.xdgConfigHome
  file : n.file unit = m.file unit

theorem pathsFor_undisturbed {m n : Machine} {unit : Text} (h : Undisturbed m n unit)
    (user : Bool) : pathsFor n user = pathsFor m user := by
  unfold pathsFor
  rw [h.home, h.xdg]

/-- Without a switch, the unit that was installed last is the one that is chosen. -/
theorem choosePaths_installed {m : Machine} {user : Option Bool}
    (h : m.exists (pathsFor m (user.getD !m.root)).unit = true) :
    choosePaths m user = pathsFor m (user.getD !m.root) := by
  cases user with
  | some user => rfl
  | none =>
      rw [Option.getD_none] at h ⊢
      unfold choosePaths
      cases hroot : m.root with
      | true =>
          rw [hroot] at h
          simp only [Bool.not_true, Bool.false_and, Bool.false_eq_true, if_false] at h ⊢
          rw [if_pos h]
      | false =>
          rw [hroot] at h
          simp only [Bool.not_false, Bool.true_and] at h ⊢
          rw [if_pos h]

theorem install_safe {signed : Bool} {m m' : Machine} {o : Switches} {f : Findings}
    (h : install signed m o f = some m') :
    (installPaths m o).Safe signed ∧
      m' = m.write (installPaths m o).unit
        (renderUnit (installPaths m o) f.tailnet f.lowPort) := by
  simp only [install] at h
  split at h
  · cases h
  split at h
  · cases h
  split at h
  · cases h
  next hsafe =>
    split at h
    · cases h
    · simp only [Bool.or_eq_true, Bool.not_eq_true', not_or, Bool.not_eq_false] at hsafe
      exact ⟨⟨hsafe.1.1, hsafe.1.2, hsafe.2⟩, (Option.some.inj h).symm⟩

theorem install_accepted {signed : Bool} {m : Machine} {o : Switches} {f : Findings}
    (hsafe : (installPaths m o).Safe signed)
    (huser : ((installPaths m o).user || m.root) = true)
    (hexists : m.exists (installPaths m o).config = true) (hchecked : f.checked = true)
    (hcopied : f.copied = true)
    (hroom : (renderUnit (installPaths m o) f.tailnet f.lowPort).length < 8192) :
    install signed m o f = some (m.write (installPaths m o).unit
      (renderUnit (installPaths m o) f.tailnet f.lowPort)) := by
  have hroot : (!(installPaths m o).user && !m.root) = false := by
    rw [← Bool.not_or, huser]
    rfl
  unfold install
  simp only [hroot, hexists, hsafe.config, hsafe.envFile, hsafe.bin, hchecked, hcopied,
    Nat.not_le.mpr hroom, Bool.not_true, Bool.or_self, decide_false,
    Bool.false_eq_true, if_false]

/-- A command that is run after an installation, with the same choice of service and no
configuration of its own, acts on the paths that were installed, as long as the unit is there;
and the lines of the unit are those of the template, whatever the paths are. -/
theorem resolve_installed {signed : Bool} {m m' n : Machine} {o : Switches} {f : Findings}
    (hinstall : install signed m o f = some m') (hsame : Undisturbed m' n (installPaths m o).unit)
    (hvariable : o.user = none → n.recursantConfig = none) :
    resolvePaths n { user := o.user } = installPaths m o ∧
      ∃ unit, n.file (installPaths m o).unit = some unit ∧
        tokens (cstr unit) =
          (unitLines (installPaths m o) f.tailnet f.lowPort).filter (· ≠ []) := by
  have hsafe := install_safe hinstall
  have hunit : n.file (installPaths m o).unit =
      some (renderUnit (installPaths m o) f.tailnet f.lowPort) := by
    rw [hsame.file, hsafe.2, Machine.write]
    exact if_pos rfl
  refine ⟨?_, _, hunit, tokens_renderUnit hsafe.1 _ _⟩
  have hroot : n.root = m.root := by
    rw [hsame.root, hsafe.2]
    rfl
  have hpaths : ∀ user, pathsFor n user = pathsFor m user := by
    intro user
    rw [pathsFor_undisturbed hsame, hsafe.2]
    rfl
  have hchosen : choosePaths n o.user = pathsFor m (o.user.getD !m.root) := by
    rw [← hpaths, ← hroot]
    apply choosePaths_installed
    rw [hroot, hpaths, Machine.exists, ← installPaths_unit, hunit]
    rfl
  have hread := unitConfig_renderUnit hsafe.1 (length_installPaths m o) f.tailnet f.lowPort
  have hnone : (if o.user.isNone then ((none : Option Text).or none).or n.recursantConfig
      else (none : Option Text).or none) = none := by
    cases huser : o.user with
    | none => rw [hvariable huser]; rfl
    | some user => rfl
  have hne : (installPaths m o).config ≠ [] := by
    intro hempty
    have hconfig := hsafe.1.config
    rw [hempty] at hconfig
    exact absurd hconfig (by simp [unitSafe])
  unfold resolvePaths
  simp only
  rw [hnone, hchosen, ← installPaths_unit, hunit, hread, Option.none_or, Option.filter_some,
    if_pos (by simpa using hne)]
  exact installPaths_eq m o

/-- A user with a configuration, and nothing installed. -/
def freshMachine : Machine where
  root := false
  home := text "/home/u"
  xdgConfigHome := none
  recursantConfig := none
  file := fun path => if path = text "/home/u/c.json" then some (text "\x7b\x7d") else none

def ownConfig : Switches := { config := some (text "/home/u/c.json") }

def accepted : Findings := ⟨true, true, false, false⟩

theorem resolve_installed_fresh :
    resolvePaths (freshMachine.write (installPaths freshMachine ownConfig).unit
      (renderUnit (installPaths freshMachine ownConfig) false false)) { user := none } =
        installPaths freshMachine ownConfig := by
  have hsafe : (installPaths freshMachine ownConfig).Safe true :=
    ⟨by decide, by decide, by decide⟩
  have hroom : (renderUnit (installPaths freshMachine ownConfig) false false).length < 8192 := by
    decide +kernel
  have hinstall := install_accepted (f := accepted) hsafe (by decide) (by decide) rfl rfl hroom
  exact (resolve_installed hinstall ⟨rfl, rfl, rfl, rfl⟩ fun _ => rfl).1

end Recursant.Cli
