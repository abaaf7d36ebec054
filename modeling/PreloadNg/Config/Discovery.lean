import PreloadNg.Config.Deserialize
import PreloadNg.Prefetch.PlanOrder

set_option autoImplicit false

/-! # Where the configuration comes from

`load_config_from_cli`: the files that are read, in the order of their precedence, and what the
command line and the environment add. It runs at the start and again for every SIGHUP. -/

namespace PreloadNg

variable {F32 F64 : Type}

/-! ## Paths -/

namespace RawPath

def ofBytes (bytes : List UInt8) : RawPath := ⟨⟨bytes.toArray⟩⟩

theorem toList_ofBytes (bytes : List UInt8) : (ofBytes bytes).bytes.data.toList = bytes := rfl

/-- `Path::join`. -/
def join (p q : RawPath) : RawPath :=
  if q.hasRoot then q
  else if p.bytes.data.toList.getLast?.all (· = 0x2F) then
    ofBytes (p.bytes.data.toList ++ q.bytes.data.toList)
  else ofBytes (p.bytes.data.toList ++ 0x2F :: q.bytes.data.toList)

/-- `Path::file_name`. -/
def fileName (p : RawPath) : Option (List UInt8) :=
  match p.components.getLast? with
  | some (.normal name) => some name
  | _ => none

/-- `Path::extension`: what follows the last dot of the file name, if something stands before it. -/
def extension (p : RawPath) : Option (List UInt8) :=
  p.fileName.bind fun name =>
    match name.reverse.span fun b => b ≠ 0x2E with
    | (after, _ :: _ :: _) => some after.reverse
    | _ => none

/-- `Vec::sort` on paths. -/
def sort (paths : List RawPath) : List RawPath := paths.mergeSort fun p q => (p.cmp q).isLE

end RawPath

/-- The name of a directory entry. -/
structure FileName where
  bytes : List UInt8
  nonempty : bytes ≠ []
  noSlash : 0x2F ∉ bytes
  notDot : bytes ≠ [0x2E]
  notDotDot : bytes ≠ [0x2E, 0x2E]

def FileName.toPath (n : FileName) : RawPath := .ofBytes n.bytes

/-! ## What is read -/

inductive IoErrorKind where
  | notFound
  | invalidInput
  | other
deriving DecidableEq

structure IoError where
  kind : IoErrorKind
  message : String
deriving DecidableEq

/-- `config::Error`, as far as loading goes. -/
inductive ConfigError where
  | io (err : IoError)
  | tomlParse (message : String)
  | tomlDe
deriving DecidableEq

/-- An error of `load_config_from_cli`. -/
inductive LoadError where
  | io (err : IoError)
  | config (err : ConfigError)
deriving DecidableEq

/-- The files while a configuration is loaded. -/
structure FileSystem where
  pathExists : RawPath → Bool
  isDir : RawPath → Bool
  readDir : RawPath → Except IoError (List (Except IoError FileName))
  readToString : RawPath → Except IoError String

structure Environment where
  xdgConfigHome : Option RawPath
  xdgCacheHome : Option RawPath
  home : Option RawPath

/-- The arguments that the configuration depends on. -/
structure Cli where
  config : Option RawPath
  configDir : Option RawPath
  state : Option RawPath

/-! ## The files in order -/

section Resolve

variable (fs : FileSystem) (env : Environment)

def ensureFileExists (path : RawPath) : Except IoError Unit :=
  if fs.pathExists path then .ok ()
  else .error ⟨.notFound, "config file not found: " ++ path.toStringLossy⟩

def collectToml (dir : RawPath) (strict : Bool) : Except IoError (List RawPath) :=
  if !fs.pathExists dir then
    if strict then .error ⟨.notFound, "config directory not found: " ++ dir.toStringLossy⟩
    else .ok []
  else if !fs.isDir dir then
    .error ⟨.invalidInput, "config directory is not a directory: " ++ dir.toStringLossy⟩
  else do
    let entries ← fs.readDir dir
    let names ← entries.mapM id
    let paths := names.map fun name => dir.join name.toPath
    return RawPath.sort (paths.filter fun path => path.extension = some "toml".toUTF8.toList)

def systemConfigPath : RawPath := .ofString "/etc/preload-ng/config.toml"

def systemConfigDir : RawPath := .ofString "/etc/preload-ng/config.d"

def userConfigPath : Option RawPath :=
  let xdg := env.xdgConfigHome.or (env.home.map fun home => home.join (.ofString ".config"))
  xdg.map fun dir => (dir.join (.ofString "preload-ng")).join (.ofString "config.toml")

/-- The path, if it is there. -/
def existing (path : RawPath) : List RawPath := if fs.pathExists path then [path] else []

/-- The files of the system's directory, if there is one. -/
def systemFiles : Except IoError (List RawPath) :=
  if fs.isDir systemConfigDir then collectToml fs systemConfigDir false else pure []

/-- The files of `--config-dir`. -/
def Cli.extraFiles (cli : Cli) : Except IoError (List RawPath) :=
  match cli.configDir with
  | some dir => collectToml fs dir true
  | none => pure []

/-- `resolve_config_paths`: later files override earlier ones. -/
def Cli.resolveConfigPaths (cli : Cli) : Except IoError (List RawPath) :=
  match cli.config with
  | some config => do
    ensureFileExists fs config
    let extra ← cli.extraFiles fs
    return config :: extra
  | none => do
    let dropIns ← systemFiles fs
    let user := (userConfigPath env).toList.flatMap (existing fs)
    let extra ← cli.extraFiles fs
    return existing fs systemConfigPath ++ dropIns ++ user ++
      existing fs (.ofString "config.toml") ++ extra

/-- `default_state_path`. -/
def defaultStatePath : Option RawPath :=
  let cacheDir := (env.xdgCacheHome.filter RawPath.hasRoot).or
    (env.home.map fun home => home.join (.ofString ".cache"))
  cacheDir.map fun dir => (dir.join (.ofString "preload-ng")).join (.ofString "state.db")

end Resolve

/-! ## Loading -/

/-- What parses the files and reads their numbers; the default decay is `0.01`. -/
structure Toml (F32 F64 : Type) where
  parse : String → Except String (Document (TomlScalar F64))
  enc : Encoding F32 F64
  decay : F32

section Load

variable [Float32Ops F32] (toml : Toml F32 F64) (fs : FileSystem) (env : Environment)

/-- A file of `load_multiple`; one that is gone is skipped. -/
def readConfig (path : RawPath) : Option (Except ConfigError (Document (TomlScalar F64))) :=
  if fs.pathExists path then
    some do
      let text ← (fs.readToString path).mapError .io
      (toml.parse text).mapError .tomlParse
  else none

/-- `Config::load_multiple`. -/
def Settings.loadFiles (paths : List RawPath) : Except ConfigError (Settings F32) := do
  let merged ← loadMultiple (paths.map (readConfig toml fs))
  match Settings.ofDocument toml.enc toml.decay merged with
  | some config => return config
  | none => .error .tomlDe

def loadConfigFromCli (cli : Cli) : Except LoadError (Settings F32) := do
  let paths ← (cli.resolveConfigPaths fs env).mapError .io
  let config ←
    if paths.isEmpty then pure (Settings.default toml.decay)
    else (Settings.loadFiles toml fs paths).mapError .config
  let statePath := (cli.state.or config.persistence.statePath).or (defaultStatePath env)
  return { config with persistence := { config.persistence with statePath } }

end Load

/-! ## The order of directory entries -/

/-- The results agree, up to which error there is. -/
def SameResult {ε α : Type} (x y : Except ε α) : Prop := ∀ a, x = .ok a ↔ y = .ok a

/-- The same entries, listed in any order. -/
inductive SameListing : Except IoError (List (Except IoError FileName)) →
    Except IoError (List (Except IoError FileName)) → Prop
  | error (err : IoError) : SameListing (.error err) (.error err)
  | ok {entries entries' : List (Except IoError FileName)} (h : entries.Perm entries') :
      SameListing (.ok entries) (.ok entries')

/-- The same files, though directories may list their entries in another order. -/
structure FileSystem.SameFiles (fs fs' : FileSystem) : Prop where
  pathExists : fs.pathExists = fs'.pathExists
  isDir : fs.isDir = fs'.isDir
  readToString : fs.readToString = fs'.readToString
  readDir : ∀ dir, SameListing (fs.readDir dir) (fs'.readDir dir)

theorem SameListing.refl (listing : Except IoError (List (Except IoError FileName))) :
    SameListing listing listing := by
  cases listing with
  | error err => exact .error err
  | ok entries => exact .ok (List.Perm.refl entries)

theorem FileSystem.SameFiles.refl (fs : FileSystem) : fs.SameFiles fs :=
  ⟨rfl, rfl, rfl, fun dir => SameListing.refl (fs.readDir dir)⟩

namespace SameResult

variable {ε ε' α β : Type} {x y : Except ε α}

theorem refl (x : Except ε α) : SameResult x x := fun _ => Iff.rfl

theorem bind {f g : α → Except ε β} (h : SameResult x y) (hfg : ∀ a, SameResult (f a) (g a)) :
    SameResult (x >>= f) (y >>= g) := by
  intro b
  rw [except_bind_eq_ok, except_bind_eq_ok]
  constructor
  · rintro ⟨a, ha, hb⟩
    exact ⟨a, (h a).1 ha, (hfg a b).1 hb⟩
  · rintro ⟨a, ha, hb⟩
    exact ⟨a, (h a).2 ha, (hfg a b).2 hb⟩

theorem mapError (h : SameResult x y) (f : ε → ε') : SameResult (x.mapError f) (y.mapError f) := by
  have hok : ∀ (z : Except ε α) a, z.mapError f = .ok a ↔ z = .ok a := by
    intro z a
    cases z <;> simp [Except.mapError]
  intro a
  rw [hok, hok]
  exact h a

end SameResult

/-! ### Sorting the entries of a directory -/

theorem Path.compareBytes_eq_eq {a b : List UInt8} (h : compareBytes a b = .eq) : a = b := by
  induction a generalizing b with
  | nil =>
      cases b with
      | nil => rfl
      | cons _ _ => cases h
  | cons x xs ih =>
      cases b with
      | nil => cases h
      | cons y ys =>
          rw [compareBytes, Ordering.then_eq_eq, Nat.compare_eq_eq] at h
          rw [UInt8.toNat_inj.1 h.1, ih h.2]

theorem Path.Component.eq_of_cmp {a b : Component} (h : a.cmp b = .eq) : a = b := by
  rw [cmp_eq, Ordering.then_eq_eq, Nat.compare_eq_eq] at h
  obtain ⟨hrank, hname⟩ := h
  have hname := compareBytes_eq_eq hname
  cases a <;> cases b <;> simp_all [rank, name]

theorem Path.eq_of_compareComponents {a b : List Component} (h : compareComponents a b = .eq) :
    a = b := by
  induction a generalizing b with
  | nil =>
      cases b with
      | nil => rfl
      | cons _ _ => cases h
  | cons x xs ih =>
      cases b with
      | nil => cases h
      | cons y ys =>
          rw [compareComponents, Ordering.then_eq_eq] at h
          rw [Component.eq_of_cmp h.1, ih h.2]

theorem FileName.hasRoot_toPath (n : FileName) : n.toPath.hasRoot = false := by
  rw [RawPath.hasRoot, toPath, RawPath.toList_ofBytes, decide_eq_false_iff_not]
  intro hhead
  exact n.noSlash (List.mem_of_mem_head? hhead)

/-- What is split at the slashes of an entry ends with its name. -/
theorem splitOn_join (dir : RawPath) (n : FileName) :
    ∃ parts, (dir.join n.toPath).bytes.data.toList.splitOn 0x2F = parts ++ [n.bytes] := by
  have hname : n.bytes.splitOn 0x2F = [n.bytes] := by
    refine List.splitOnP_eq_singleton fun b hb => beq_eq_false_iff_ne.2 ?_
    rintro rfl
    exact n.noSlash hb
  have hslash : ∀ l : List UInt8, (l ++ 0x2F :: n.bytes).splitOn 0x2F =
      l.splitOn 0x2F ++ [n.bytes] := by
    intro l
    rw [← hname]
    exact List.splitOnP_append_cons l n.bytes (beq_self_eq_true _)
  unfold RawPath.join
  rw [n.hasRoot_toPath, if_neg Bool.false_ne_true]
  split
  · next hend =>
    rw [RawPath.toList_ofBytes, FileName.toPath, RawPath.toList_ofBytes]
    rcases List.eq_nil_or_concat' dir.bytes.data.toList with hnil | ⟨init, last, hconcat⟩
    · exact ⟨[], by rw [hnil, List.nil_append, hname, List.nil_append]⟩
    · rw [hconcat, List.getLast?_concat, Option.all_some, decide_eq_true_eq] at hend
      subst hend
      rw [hconcat, List.append_assoc]
      exact ⟨_, hslash init⟩
  · rw [RawPath.toList_ofBytes, FileName.toPath, RawPath.toList_ofBytes]
    exact ⟨_, hslash _⟩

/-- The file name of an entry is its name. -/
theorem getLast?_components_join (dir : RawPath) (n : FileName) :
    (dir.join n.toPath).components.getLast? = some (.normal n.bytes) := by
  obtain ⟨parts, hparts⟩ := splitOn_join dir n
  have hkept : ([n.bytes].filter fun c => decide (c ≠ []) && decide (c ≠ [0x2E])) = [n.bytes] := by
    simp [n.nonempty, n.notDot]
  unfold RawPath.components Segments.named
  dsimp only
  rw [hparts, List.filter_append, hkept, List.map_append, List.map_singleton, RawPath.component,
    if_neg n.notDotDot]
  split
  · rw [← List.cons_append, List.getLast?_concat]
  · split
    · rw [← List.cons_append, List.getLast?_concat]
    · rw [List.getLast?_concat]

/-- Entries of a directory that are compared as equal are the same. -/
theorem join_eq_of_cmp {dir : RawPath} {n n' : FileName}
    (h : (dir.join n.toPath).cmp (dir.join n'.toPath) = .eq) : n = n' := by
  have hcomponents := Path.eq_of_compareComponents h
  have hlast := getLast?_components_join dir n
  rw [hcomponents, getLast?_components_join] at hlast
  obtain ⟨bytes, _, _, _, _⟩ := n
  obtain ⟨bytes', _, _, _, _⟩ := n'
  obtain rfl : bytes' = bytes := Path.Component.normal.inj (Option.some.inj hlast)
  rfl

theorem sortedBy_sort (paths : List RawPath) : SortedBy RawPath.cmp (RawPath.sort paths) := by
  refine List.pairwise_mergeSort ?_ ?_ paths
  · intro p q r hpq hqr
    exact Std.TransCmp.isLE_trans hpq hqr
  · intro p q
    rw [Bool.or_eq_true]
    exact instTotalIsLE.total p q

/-- The sorted entries of a directory do not depend on how it lists them. -/
theorem sort_eq_of_perm {dir : RawPath} {names names' : List FileName} (h : names.Perm names')
    (keep : RawPath → Bool) :
    RawPath.sort ((names.map fun name => dir.join name.toPath).filter keep) =
      RawPath.sort ((names'.map fun name => dir.join name.toPath).filter keep) := by
  have hperm := (h.map fun name => dir.join name.toPath).filter keep
  refine (sortedBy_sort _).eq_of_perm (sortedBy_sort _) ?_ ?_
  · exact (List.mergeSort_perm _ _).trans (hperm.trans (List.mergeSort_perm _ _).symm)
  · intro p hp q hq hcmp
    have hentry : ∀ p ∈ RawPath.sort ((names.map fun name => dir.join name.toPath).filter keep),
        ∃ name : FileName, dir.join name.toPath = p := by
      intro p hp
      have hmem := (List.mem_filter.1 (List.mem_mergeSort.1 hp)).1
      obtain ⟨name, -, hname⟩ := List.mem_map.1 hmem
      exact ⟨name, hname⟩
    obtain ⟨name, rfl⟩ := hentry p hp
    obtain ⟨name', rfl⟩ := hentry q hq
    rw [join_eq_of_cmp hcmp]

/-- All entries can be read. -/
theorem mapM_entries_eq_ok {ε α : Type} {entries : List (Except ε α)} {names : List α} :
    entries.mapM id = .ok names ↔ entries = names.map .ok := by
  induction entries generalizing names with
  | nil =>
      rw [List.mapM_nil]
      constructor
      · rintro ⟨⟩
        rfl
      · intro h
        rw [List.map_eq_nil_iff.1 h.symm]
        rfl
  | cons entry rest ih =>
      rw [List.mapM_cons, except_bind_eq_ok]
      constructor
      · rintro ⟨name, hname, hrest⟩
        obtain ⟨others, hothers, hcons⟩ := except_bind_eq_ok.1 hrest
        obtain rfl := Except.ok.inj hcons
        rw [ih.1 hothers, show entry = .ok name from hname]
        rfl
      · intro h
        obtain ⟨name, others, rfl, rfl, hothers⟩ := List.map_eq_cons_iff.1 h.symm
        refine ⟨name, rfl, except_bind_eq_ok.2 ⟨others, ih.2 hothers.symm, rfl⟩⟩

/-- What is made of all entries, in whatever order, does not depend on their order. -/
theorem sameResult_of_perm {ε α β : Type} {entries entries' : List (Except ε α)}
    (hperm : entries.Perm entries') {f : List α → β}
    (hf : ∀ names names', names.Perm names' → f names = f names') :
    SameResult (entries.mapM id >>= fun names => .ok (f names))
      (entries'.mapM id >>= fun names => .ok (f names)) := by
  have hone : ∀ {entries entries' : List (Except ε α)}, entries.Perm entries' → ∀ b,
      (entries.mapM id >>= fun names => .ok (f names)) = .ok b →
        (entries'.mapM id >>= fun names => .ok (f names)) = .ok b := by
    intro entries entries' hperm b hb
    obtain ⟨names, hnames, hlast⟩ := except_bind_eq_ok.1 hb
    obtain rfl := mapM_entries_eq_ok.1 hnames
    have hok : entries' ∈ Set.range (List.map (Except.ok : α → Except ε α)) := by
      rw [Set.range_list_map]
      intro entry hentry
      obtain ⟨name, -, rfl⟩ := List.mem_map.1 (hperm.mem_iff.2 hentry)
      exact ⟨name, rfl⟩
    obtain ⟨names', rfl⟩ := hok
    rw [List.map_perm_map_iff fun _ _ => Except.ok.inj] at hperm
    refine except_bind_eq_ok.2 ⟨names', mapM_entries_eq_ok.2 rfl, ?_⟩
    rw [← hf names names' hperm]
    exact hlast
  exact fun b => ⟨hone hperm b, hone hperm.symm b⟩

/-! ### Loading the same files -/

section Same

variable {fs fs' : FileSystem} (h : fs.SameFiles fs')

include h

theorem sameResult_collectToml (dir : RawPath) (strict : Bool) :
    SameResult (collectToml fs dir strict) (collectToml fs' dir strict) := by
  unfold collectToml
  rw [← h.pathExists, ← h.isDir]
  split
  · exact SameResult.refl _
  · split
    · exact SameResult.refl _
    · have hlisting := h.readDir dir
      revert hlisting
      generalize fs.readDir dir = listing, fs'.readDir dir = listing'
      intro hlisting
      cases hlisting with
      | error err => exact SameResult.refl _
      | @ok entries entries' hperm =>
          exact sameResult_of_perm hperm fun names names' hnames => sort_eq_of_perm hnames _

theorem sameResult_resolveConfigPaths (env : Environment) (cli : Cli) :
    SameResult (cli.resolveConfigPaths fs env) (cli.resolveConfigPaths fs' env) := by
  have hextra : SameResult (cli.extraFiles fs) (cli.extraFiles fs') := by
    unfold Cli.extraFiles
    cases cli.configDir with
    | none => exact SameResult.refl _
    | some dir => exact sameResult_collectToml h dir true
  have hsystem : SameResult (systemFiles fs) (systemFiles fs') := by
    unfold systemFiles
    rw [h.isDir]
    split
    · exact sameResult_collectToml h _ false
    · exact SameResult.refl _
  have hexisting : existing fs = existing fs' := by
    unfold existing
    rw [h.pathExists]
  unfold Cli.resolveConfigPaths ensureFileExists
  rw [h.pathExists, hexisting]
  cases cli.config with
  | some config =>
      exact (SameResult.refl _).bind fun _ => hextra.bind fun _ => SameResult.refl _
  | none => exact hsystem.bind fun _ => hextra.bind fun _ => SameResult.refl _

/-- The configuration depends on the files and not on how directories list them. -/
theorem sameResult_loadConfigFromCli [Float32Ops F32] (toml : Toml F32 F64) (env : Environment)
    (cli : Cli) :
    SameResult (loadConfigFromCli toml fs env cli) (loadConfigFromCli toml fs' env cli) := by
  have hread : readConfig toml fs = readConfig toml fs' := by
    funext path
    rw [readConfig, readConfig, h.pathExists, h.readToString]
  have hload : Settings.loadFiles toml fs = Settings.loadFiles toml fs' := by
    funext paths
    rw [Settings.loadFiles, Settings.loadFiles, hread]
  unfold loadConfigFromCli
  rw [hload]
  exact ((sameResult_resolveConfigPaths h env cli).mapError _).bind fun _ => SameResult.refl _

end Same

end PreloadNg
