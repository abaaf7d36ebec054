import PreloadNg.Config.PolicyConfig
import PreloadNg.Engine.Engine
import PreloadNg.Prefetch.Backends

set_option autoImplicit false

/-! # The whole configuration

`config::Config` with the settings that the daemon and its services read, and the services that
`build_reload_bundle` makes of it. Files give durations in whole seconds. -/

namespace PreloadNg

inductive PrefetchBackend where
  | auto
  | readahead
  | madvise
  | read
deriving DecidableEq

namespace Settings

structure Model (F32 : Type) where
  cycle : UInt64
  useCorrelation : Bool
  minsize : UInt64
  activeWindow : UInt64
  halfLife : Option UInt64
  decay : F32
  memory : MemoryPolicy

structure System where
  doscan : Bool
  dopredict : Bool
  autosave : UInt64
  exeprefix : List String
  mapprefix : List String
  sortstrategy : SortStrategy
  prefetchConcurrency : Option ℕ
  policyCacheTtl : ℕ
  policyCacheCapacity : ℕ
  fanotify : Bool
  prefetchBackend : PrefetchBackend

structure Persistence where
  statePath : Option RawPath
  autosaveInterval : Option UInt64
  saveOnShutdown : Bool

end Settings

structure Settings (F32 : Type) where
  model : Settings.Model F32
  system : Settings.System
  persistence : Settings.Persistence

/-- The services that are built from a configuration. -/
structure DefaultServices (F32 : Type) where
  admission : DefaultAdmissionPolicy
  updater : DefaultModelUpdater F32
  predictor : MarkovPredictor F32
  planner : GreedyPrefetchPlanner
  prefetcher : PrefetcherKind

/-- A configuration and services, as a reload brings them. -/
structure Bundle (F32 : Type) where
  config : Settings F32
  services : DefaultServices F32

section

variable {F32 : Type}

/-- The services as the engine sees them, with nothing cached. -/
def DefaultServices.toServices (s : DefaultServices F32) : Services F32 where
  admission := s.admission.toPolicy fun _ => none
  updater := s.updater
  predictor := s.predictor
  planner := s.planner

namespace Settings

/-- What the engine itself reads. -/
def engine (c : Settings F32) : Config where
  doscan := c.system.doscan
  dopredict := c.system.dopredict
  cycle := c.model.cycle
  activeWindow := c.model.activeWindow
  statePath := c.persistence.statePath

/-- What the admission policy reads. -/
def policy (c : Settings F32) : PolicyConfig where
  minsize := c.model.minsize
  exeprefix := c.system.exeprefix
  mapprefix := c.system.mapprefix
  policyCacheTtl := c.system.policyCacheTtl
  policyCacheCapacity := c.system.policyCacheCapacity

/-- `persistence.autosave_interval.unwrap_or(system.autosave)`. -/
def autosaveInterval (c : Settings F32) : UInt64 :=
  c.persistence.autosaveInterval.getD c.system.autosave

/-- `Config::default()`; its decay is `0.01`. -/
def default (decay : F32) : Settings F32 where
  model :=
    { cycle := 20
      useCorrelation := true
      minsize := 100000
      activeWindow := 6 * 60 * 60
      halfLife := none
      decay
      memory := MemoryPolicy.default }
  system :=
    { doscan := true
      dopredict := true
      autosave := 3600
      exeprefix := ["!/usr/sbin/", "!/usr/local/sbin/", "/"]
      mapprefix := ["!/proc/", "!/sys/", "!/dev/", "!/tmp/", "!/run/", "/"]
      sortstrategy := .block
      prefetchConcurrency := some 1
      policyCacheTtl := 300
      policyCacheCapacity := 1024
      fanotify := true
      prefetchBackend := .auto }
  persistence :=
    { statePath := none
      autosaveInterval := none
      saveOnShutdown := true }

/-- `Config::apply_defaults`. -/
def applyDefaults (c : Settings F32) : Settings F32 :=
  { c with
    system :=
      { c.system with
        exeprefix := PolicyConfig.sortRules c.system.exeprefix
        mapprefix := PolicyConfig.sortRules c.system.mapprefix } }

end Settings

variable [Float32Ops F32]

/-- `Model::decay_factor`, with `2.0_f32.ln()` as `ln2`. -/
def Settings.Model.decayFactor (ln2 : F32) (m : Settings.Model F32) : F32 :=
  match m.halfLife with
  | some halfLife =>
    let secs : F32 := u64AsF32 halfLife
    if 0 < secs then ln2 / secs else 0
  -- `max(0.0)`, which is `0.0` for a NaN
  | none => if 0 ≤ m.decay then m.decay else 0

/-- `DefaultModelUpdater::new`. -/
def DefaultModelUpdater.new (ln2 : F32) (c : Settings F32) : DefaultModelUpdater F32 where
  activeWindow := c.model.activeWindow
  decay := c.model.decayFactor ln2

/-- `MarkovPredictor::new`. -/
def MarkovPredictor.new (c : Settings F32) : MarkovPredictor F32 where
  useCorrelation := c.model.useCorrelation
  cycleSecs := u64AsF32 c.model.cycle

/-- What `main` finds out about the host. -/
structure HostFeatures where
  /-- `available_parallelism`. -/
  parallelism : Option ℕ
  /-- `ReadaheadPrefetcher::probe`. -/
  readahead : Bool
  /-- `MadvisePrefetcher::probe`. -/
  madvise : Bool

/-- `build_prefetcher`. -/
def buildPrefetcher (host : HostFeatures) (config : Settings F32)
    (noPrefetch : Bool) : PrefetcherKind :=
  if noPrefetch then .noop
  else
    match config.system.prefetchConcurrency with
    | some 0 => .noop
    | requested =>
      let concurrency := requested.getD (host.parallelism.getD 1)
      match config.system.prefetchBackend with
      | .readahead => .readahead concurrency
      | .madvise => .madvise concurrency
      | .read => .read concurrency
      | .auto =>
        if host.readahead then .readahead concurrency
        else if host.madvise then .madvise concurrency
        else .read concurrency

/-- `build_reload_bundle`. The scanner, the repository and the clock are not among the services that a
    reload replaces. -/
def buildReloadBundle (ln2 : F32) (host : HostFeatures) (c : Settings F32) (noPrefetch : Bool) :
    Bundle F32 where
  config := c
  services :=
    { admission := DefaultAdmissionPolicy.new c.policy
      updater := DefaultModelUpdater.new ln2 c
      predictor := MarkovPredictor.new c
      planner := GreedyPrefetchPlanner.new c.system.sortstrategy c.model.memory
      prefetcher := buildPrefetcher host c noPrefetch }

end

end PreloadNg
