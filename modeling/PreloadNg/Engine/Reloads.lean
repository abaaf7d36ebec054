import PreloadNg.Config.Discovery
import PreloadNg.Config.RoundTrip
import PreloadNg.Engine.DaemonSignals
import PreloadNg.Prefetch.Execution

set_option autoImplicit false

/-! # Reloading the configuration

Every SIGHUP loads the configuration again, from the files as they are then, for the arguments and the
environment of the start. What a running daemon has in force is one configuration that was loaded as a
whole, with the state path of the start. -/

namespace PreloadNg

variable {F16 F32 F64 : Type} [Float32Ops F32]

section

variable (toml : Toml F32 F64) (env : Environment) (cli : Cli)

/-- Every SIGHUP loads files that satisfy the condition. -/
def Reloads (files : FileSystem → Prop) (ops : List (HostOp F32)) : Prop :=
  ∀ loaded features, .sighup loaded features ∈ ops →
    ∃ fs, files fs ∧ loaded = (loadConfigFromCli toml fs env cli).toOption

/-- The files that are loaded at the start or at a SIGHUP. -/
def LoadedFrom (fs : FileSystem) (ops : List (HostOp F32)) (fs' : FileSystem) : Prop :=
  fs' = fs ∨
    ∃ features, .sighup (loadConfigFromCli toml fs' env cli).toOption features ∈ ops

/-- It was loaded from files that satisfy the condition. -/
def Loaded (files : FileSystem → Prop) (c : Settings F32) : Prop :=
  ∃ fs, files fs ∧ loadConfigFromCli toml fs env cli = .ok c

end

/-! ## What a load returns -/

section Load

variable {toml : Toml F32 F64} {env : Environment} {cli : Cli} {fs fs' : FileSystem}
  {c c' : Settings F32}

/-- What is loaded is the default or comes from the merge of the documents in the files that exist; only
    the state path may be another. -/
theorem loadConfigFromCli_eq_ok (h : loadConfigFromCli toml fs env cli = .ok c) :
    ∃ config : Settings F32,
      (config = Settings.default toml.decay ∨
        ∃ (paths : List RawPath) (docs : List (Document (TomlScalar F64))),
          (paths.map (readConfig toml fs)).filterMap id = docs.map .ok ∧
          Settings.ofDocument toml.enc toml.decay (mergeDocuments docs) = some config) ∧
      c = config.withStatePath
        ((cli.state.or config.persistence.statePath).or (defaultStatePath env)) := by
  obtain ⟨paths, -, hrest⟩ := except_bind_eq_ok.1 h
  dsimp only at hrest
  split at hrest
  · exact ⟨_, Or.inl rfl, (Except.ok.inj hrest).symm⟩
  · obtain ⟨config, hconfig, hlast⟩ := except_bind_eq_ok.1 hrest
    refine ⟨config, Or.inr ?_, (Except.ok.inj hlast).symm⟩
    cases hfiles : Settings.loadFiles toml fs paths with
    | error err =>
        rw [hfiles] at hconfig
        cases hconfig
    | ok loaded =>
        rw [hfiles] at hconfig
        obtain rfl := Except.ok.inj hconfig
        obtain ⟨merged, hmerge, hmerged⟩ := except_bind_eq_ok.1 hfiles
        obtain ⟨docs, hdocs, rfl⟩ := loadMultiple_eq_ok.1 hmerge
        refine ⟨paths, docs, hdocs, ?_⟩
        split at hmerged
        · next config hof =>
          rw [hof, Except.ok.inj hmerged]
        · cases hmerged

/-- No load leaves the number of workers open. -/
theorem concurrency_of_load (h : loadConfigFromCli toml fs env cli = .ok c) :
    c.system.prefetchConcurrency ≠ none := by
  obtain ⟨config, hconfig, rfl⟩ := loadConfigFromCli_eq_ok h
  change config.system.prefetchConcurrency ≠ none
  rcases hconfig with rfl | ⟨_, _, -, hdoc⟩
  · exact Option.some_ne_none 1
  · exact Settings.concurrency_of_ofDocument hdoc

/-- The state path of the command line is that of every load. -/
theorem statePath_of_load {p : RawPath} (hstate : cli.state = some p)
    (h : loadConfigFromCli toml fs env cli = .ok c) : c.persistence.statePath = some p := by
  obtain ⟨config, -, rfl⟩ := loadConfigFromCli_eq_ok h
  rw [hstate]
  rfl

/-- Loads of the same files return the same. -/
theorem load_eq_of_sameFiles (hsame : fs.SameFiles fs')
    (h : loadConfigFromCli toml fs env cli = .ok c)
    (h' : loadConfigFromCli toml fs' env cli = .ok c') : c' = c := by
  have heq := ((sameResult_loadConfigFromCli hsame toml env cli) c).1 h
  exact Except.ok.inj (h'.symm.trans heq)

end Load

/-- The same prefetch backends are there. -/
def HostFeatures.SameBackends (host host' : HostFeatures) : Prop :=
  host.readahead = host'.readahead ∧ host.madvise = host'.madvise

omit [Float32Ops F32] in
/-- The prefetcher of a configuration with a number of workers does not depend on the processors. -/
theorem buildPrefetcher_eq {c : Settings F32} (hset : c.system.prefetchConcurrency ≠ none)
    {host host' : HostFeatures} (hsame : host.SameBackends host') (noPrefetch : Bool) :
    buildPrefetcher host c noPrefetch = buildPrefetcher host' c noPrefetch := by
  obtain ⟨n, hn⟩ := Option.ne_none_iff_exists'.1 hset
  unfold buildPrefetcher
  rw [hn, hsame.1, hsame.2]
  cases n <;> rfl

/-! ## The configuration in force -/

/-- Each SIGHUP of the run loads files of the run. -/
theorem Reloads.loadedFrom {toml : Toml F32 F64} {env : Environment} {cli : Cli}
    {files : FileSystem → Prop} {ops : List (HostOp F32)} (h : Reloads toml env cli files ops)
    {fs : FileSystem} : Reloads toml env cli (LoadedFrom toml env cli fs ops) ops := by
  intro loaded features hop
  obtain ⟨fs', -, rfl⟩ := h loaded features hop
  exact ⟨fs', Or.inr ⟨features, hop⟩, rfl⟩

/-- What is in force was loaded as a whole, except for its state path. -/
theorem SignalsHandled.loaded {toml : Toml F32 F64} {env : Environment} {cli : Cli}
    {files : FileSystem → Prop} {ops : List (HostOp F32)} {ln2 : F32} {c₀ : Settings F32}
    {launch : Launch} {d : Daemon F16 F32} (h : SignalsHandled ln2 c₀ launch ops d)
    (hreloads : Reloads toml env cli files ops) (hc₀ : Loaded toml env cli files c₀) :
    ∃ c, Loaded toml env cli files c ∧ d.config = c.withStatePath c₀.persistence.statePath := by
  refine h.inForce hc₀ fun config features hop => ?_
  obtain ⟨fs, hfs, heq⟩ := hreloads _ _ hop
  refine ⟨fs, hfs, ?_⟩
  cases hload : loadConfigFromCli toml fs env cli with
  | error err =>
      rw [hload] at heq
      cases heq
  | ok c =>
      rw [hload] at heq
      rw [show config = c from Option.some.inj heq]

theorem eq_ok_of_isOk {ε α : Type} {x : Except ε α} (h : x.isOk = true) (a : α) :
    x = .ok (x.toOption.getD a) := by
  cases x with
  | error err => cases h
  | ok a => rfl

/-- The document that sets the cycle. -/
def Document.ofCycle (secs : Int64) : Document (TomlScalar ℚ) where
  entries := [("model", .table [("cycle", TomlItem.ofScalar (.integer secs))])]
  parsed := by simp [Item.Parsed.EntriesParsed, Item.Parsed, TomlItem.ofScalar]

/-- A parser of two texts; it refuses the empty one. -/
def Toml.cycles : Toml ℚ ℚ where
  parse text :=
    if text = "" then .error "empty"
    else .ok (Document.ofCycle (if text = "short" then 30 else 60))
  enc := Encoding.rational
  decay := 0

namespace FileSystem

def shortFile : FileName :=
  ⟨"a.toml".toUTF8.toList, by decide +kernel, by decide +kernel, by decide +kernel,
    by decide +kernel⟩

def longFile : FileName :=
  ⟨"b.toml".toUTF8.toList, by decide +kernel, by decide +kernel, by decide +kernel,
    by decide +kernel⟩

def configDir : RawPath := .ofString "/d"

def shortPath : RawPath := configDir.join shortFile.toPath

def longPath : RawPath := configDir.join longFile.toPath

/-- A directory with two files, in the order in which it lists them. -/
def twoFiles (listing : List FileName) : FileSystem where
  pathExists p := p = configDir || p = shortPath || p = longPath
  isDir p := p = configDir
  readDir _ := .ok (listing.map .ok)
  readToString p := .ok (if p = shortPath then "short" else "long")

theorem sameFiles_twoFiles :
    (twoFiles [shortFile, longFile]).SameFiles (twoFiles [longFile, shortFile]) :=
  ⟨rfl, rfl, rfl, fun _ => .ok (List.Perm.swap _ _ _)⟩

theorem readDir_twoFiles :
    (twoFiles [shortFile, longFile]).readDir ≠ (twoFiles [longFile, shortFile]).readDir := by
  intro heq
  have hlisted := congrFun heq configDir
  simp only [twoFiles, Except.ok.injEq, List.map_cons, List.map_nil, List.cons.injEq] at hlisted
  have hbytes : shortFile.bytes = longFile.bytes := by rw [hlisted.1]
  exact absurd hbytes (by decide +kernel)

/-- The files of the directory are found, sorted. -/
theorem resolveConfigPaths_twoFiles :
    Cli.resolveConfigPaths (twoFiles [shortFile, longFile]) ⟨none, none, none⟩
      ⟨none, some configDir, none⟩ = .ok [shortPath, longPath] := by
  have hkept : ([shortPath, longPath].filter
      fun path => path.extension = some "toml".toUTF8.toList) = [shortPath, longPath] := by
    decide +kernel
  have hsorted : RawPath.sort [shortPath, longPath] = [shortPath, longPath] :=
    List.mergeSort_of_pairwise (by decide +kernel)
  have hextra : Cli.extraFiles (twoFiles [shortFile, longFile]) ⟨none, some configDir, none⟩ =
      .ok [shortPath, longPath] := by
    change collectToml _ configDir true = _
    rw [collectToml, if_neg (by decide +kernel), if_neg (by decide +kernel)]
    change Except.ok (RawPath.sort ([shortPath, longPath].filter _)) = _
    rw [hkept, hsorted]
  have hsystem : systemFiles (twoFiles [shortFile, longFile]) = .ok [] := by
    rw [systemFiles, if_neg (by decide +kernel)]
    rfl
  have hnone : existing (twoFiles [shortFile, longFile]) systemConfigPath = [] ∧
      existing (twoFiles [shortFile, longFile]) (.ofString "config.toml") = [] := by
    decide +kernel
  change (systemFiles _ >>= fun dropIns => _) = _
  rw [hsystem, hextra, hnone.1, hnone.2]
  rfl

end FileSystem

/-- The services of a loaded configuration do not depend on the number of processors. -/
theorem services_eq_of_load {toml : Toml F32 F64} {fs : FileSystem} {env : Environment} {cli : Cli}
    {c : Settings F32} (hload : loadConfigFromCli toml fs env cli = .ok c) (ln2 : F32)
    {host host' : HostFeatures} (hsame : host.SameBackends host') (noPrefetch : Bool) :
    (buildReloadBundle ln2 host c noPrefetch).services =
      (buildReloadBundle ln2 host' c noPrefetch).services := by
  unfold buildReloadBundle
  rw [buildPrefetcher_eq (concurrency_of_load hload) hsame noPrefetch]

/-- However the files change between signals, in every run of a process the configuration in force is
    one that was loaded as a whole at the start or at a SIGHUP, with the state path of the start, which
    a path on the command line fixes; it never leaves the number of workers open, so that the prefetcher
    does not depend on the number of processors. -/
theorem config_in_force_loaded {num : Numerics F16 F32} {enc : Encoding F32 F64} {ln2 : F32}
    {h₀ h₁ h : Host F16 F32 F64} {c₀ : Settings F32} {launch : Launch}
    {ops : List (HostOp F32)} {d : Daemon F16 F32} {toml : Toml F32 F64} {fs : FileSystem}
    {env : Environment} {cli : Cli} (hload : loadConfigFromCli toml fs env cli = .ok c₀)
    (hstart : HostStep num enc ln2 h₀ (.start c₀ launch) h₁)
    (hrun : Run (NoStart num enc ln2) h₁ ops h)
    (hreloads : Reloads toml env cli (fun _ => True) ops) (hd : h.daemon = some d) :
    (∃ fs' c, LoadedFrom toml env cli fs ops fs' ∧ loadConfigFromCli toml fs' env cli = .ok c ∧
        d.config = c.withStatePath c₀.persistence.statePath) ∧
      (cli.state.isSome → ∃ fs', LoadedFrom toml env cli fs ops fs' ∧
        loadConfigFromCli toml fs' env cli = .ok d.config) ∧
      d.config.system.prefetchConcurrency ≠ none ∧
      ∀ (host host' : HostFeatures) (noPrefetch : Bool), host.SameBackends host' →
        buildPrefetcher host d.config noPrefetch = buildPrefetcher host' d.config noPrefetch := by
  obtain ⟨c, ⟨fs', hfs', hc⟩, hconfig⟩ := (signalsHandled_of_run hstart hrun hd).loaded
    hreloads.loadedFrom ⟨fs, Or.inl rfl, hload⟩
  have hset : d.config.system.prefetchConcurrency ≠ none := by
    rw [hconfig]
    change c.system.prefetchConcurrency ≠ none
    exact concurrency_of_load hc
  refine ⟨⟨fs', c, hfs', hc, hconfig⟩, fun hstate => ⟨fs', hfs', ?_⟩, hset, ?_⟩
  · obtain ⟨p, hp⟩ := Option.isSome_iff_exists.1 hstate
    have hsettings : d.config = c := by
      rw [hconfig, statePath_of_load hp hload, ← statePath_of_load hp hc]
      rfl
    rw [hsettings]
    exact hc
  · intro host host' noPrefetch hsame
    exact buildPrefetcher_eq hset hsame noPrefetch

/-- The file is changed before the first SIGHUP comes, and cannot be parsed when the second comes. -/
theorem config_in_force_loaded_changed :
    ∃ (cli : Cli) (fs : FileSystem) (c₀ : Settings ℚ) (ops : List (HostOp ℚ)) (d : Daemon ℚ ℚ),
      cli.state.isSome ∧ handledCount ops = 1 ∧ c₀.model.cycle = 30 ∧ d.config.model.cycle = 60 ∧
      (∃ features, .sighup none features ∈ ops) ∧
      (∃ fs', LoadedFrom Toml.cycles ⟨none, none, none⟩ cli fs ops fs' ∧
        loadConfigFromCli Toml.cycles fs' ⟨none, none, none⟩ cli = .ok d.config) ∧
      ∀ host host' : HostFeatures, host.SameBackends host' →
        buildPrefetcher host d.config false = buildPrefetcher host' d.config false := by
  let env : Environment := ⟨none, none, none⟩
  let cli : Cli := ⟨some (.ofString "/c.toml"), none, some (.ofString "/state.db")⟩
  let files (text : String) : FileSystem :=
    { pathExists := fun _ => true
      isDir := fun _ => false
      readDir := fun _ => .ok []
      readToString := fun _ => .ok text }
  let load (text : String) := loadConfigFromCli Toml.cycles (files text) env cli
  let c₀ : Settings ℚ := (load "short").toOption.getD (Settings.default 0)
  obtain ⟨hok, hcycle, hbad⟩ : (load "short").isOk = true ∧ c₀.model.cycle = 30 ∧
      (load "").toOption.isNone = true := by decide +kernel
  have hload : load "short" = .ok c₀ := eq_ok_of_isOk hok _
  let ops : List (HostOp ℚ) :=
    [.sighup (load "long").toOption Launch.plain.features,
      .sighup (load "").toOption Launch.plain.features, .control ⟨.insertion, 0, none, 0⟩]
  let started : Host ℚ ℚ ℚ :=
    (Host.initial ℚ ℚ ℚ 0).start Numerics.rational Encoding.rational 1 c₀ .plain
  have hany : (started.execAll Numerics.rational Encoding.rational 1 ops).any
      (fun h => h.daemon.any fun d => d.config.model.cycle = 60) = true := by decide +kernel
  obtain ⟨h, hexec, hfinal⟩ := (Option.any_eq_true _ _).1 hany
  obtain ⟨d, hd, hcycle'⟩ := (Option.any_eq_true _ _).1 hfinal
  have hrun := noStart_of_execAll _ _ _ hexec fun config launch => by simp [ops]
  have hreloads : Reloads Toml.cycles env cli (fun _ => True) ops := by
    intro loaded features hmem
    simp only [ops, List.mem_cons, HostOp.sighup.injEq, reduceCtorEq, List.not_mem_nil, or_false]
      at hmem
    rcases hmem with ⟨rfl, -⟩ | ⟨rfl, -⟩
    · exact ⟨files "long", trivial, rfl⟩
    · exact ⟨files "", trivial, rfl⟩
  obtain ⟨-, hstate, -, hprefetcher⟩ := config_in_force_loaded hload
    (show HostStep _ _ _ (Host.initial ℚ ℚ ℚ 0) (.start c₀ .plain) started from rfl) hrun hreloads hd
  have hnone : (load "").toOption = none := Option.isNone_iff_eq_none.1 hbad
  refine ⟨cli, files "short", c₀, ops, d, rfl, rfl, hcycle, of_decide_eq_true hcycle',
    ⟨Launch.plain.features, ?_⟩, hstate rfl, fun host host' => hprefetcher host host' false⟩
  rw [← hnone]
  exact List.mem_cons_of_mem _ List.mem_cons_self

end PreloadNg
