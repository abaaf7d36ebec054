import PreloadNg.Engine.Restore
import PreloadNg.Observation.ModelUpdater
import PreloadNg.Prefetch.Planner

set_option autoImplicit false

/-! # The engine

The state of `PreloadEngine` and its operations. A tick suspends once, at the prefetch, and may be
dropped there: it is two functions here, `beginTick` up to that point and `finishTick` after it.
What the scanner, the prefetcher and the file system answer is input. -/

namespace PreloadNg

/-- The settings the engine itself reads; durations in seconds. -/
structure Config where
  doscan : Bool
  dopredict : Bool
  cycle : UInt64
  activeWindow : UInt64
  statePath : Option RawPath

/-- The services a reload replaces. -/
structure Services (F32 : Type) where
  admission : AdmissionPolicy
  updater : DefaultModelUpdater F32
  predictor : MarkovPredictor F32
  planner : GreedyPrefetchPlanner

structure ReloadBundle (F32 : Type) where
  config : Config
  services : Services F32

structure PreloadEngine (F16 F32 : Type) where
  config : Config
  services : Services F32
  stores : Stores F16
  scanId : UInt64

/-- What a tick gets from outside before it suspends: the answer of the scanner, the decisions of
    the admission policy, which may depend on what it has cached, and iteration orders. -/
structure TickInput where
  scan : Except Error Observation
  decide : CandidateExe → AdmissionDecision
  applyOrder : HashOrder
  predictOrder : HashOrder
  planOrder : HashOrder

/-- What a suspended tick holds. -/
structure Suspended (F16 : Type) where
  memstat : Option MemStat
  modelDelta : ModelDelta
  prediction : Prediction F16
  plan : PrefetchPlan

structure TickReport where
  scanId : UInt64
  modelDelta : ModelDelta
  prediction : PredictionSummary
  prefetch : PrefetchReport
  memstat : Option MemStat

namespace PreloadEngine

variable {F16 F32 : Type}

/-- `PreloadEngine::new`. -/
def new (config : Config) (services : Services F32) : PreloadEngine F16 F32 where
  config := config
  services := services
  stores := ∅
  scanId := 0

/-- The keys of the stored maps that the policy denies. -/
def deniedKeys (admission : AdmissionPolicy) (s : Stores F16) : List MapKey :=
  (s.maps.iter.filter fun row => !admission.allowMap row.2.path).map fun row => row.2.key

/-- `memstat` of the first `MemStat` event. -/
def findMemstat (observation : Observation) : Option MemStat :=
  observation.findSome? fun
    | .memStat mem => some mem
    | _ => none

/-- Stale maps are those that failed and whose file is gone. -/
def removeStale (exist : Path → Bool) (s : Stores F16) (failures : List MapKey) : Stores F16 :=
  failures.foldl (fun s key => if exist key.path then s else s.removeMapByKey key) s

/-- The tick after the prefetch; `exist` is `Path::exists`. -/
def finishTick (e : PreloadEngine F16 F32) (tick : Suspended F16) (prefetch : PrefetchReport)
    (exist : Path → Bool) : PreloadEngine F16 F32 × TickReport :=
  let stores := removeStale exist e.stores prefetch.failures
  ({ e with stores := { stores with modelTime := satAdd stores.modelTime e.config.cycle } },
   { scanId := e.scanId
     modelDelta := tick.modelDelta
     prediction := tick.prediction.summarize
     prefetch := prefetch
     memstat := tick.memstat })

/-- `apply_reload`: everything but the state path is replaced. -/
def applyReload (e : PreloadEngine F16 F32) (bundle : ReloadBundle F32) : PreloadEngine F16 F32 :=
  { e with
    config := { bundle.config with statePath := e.config.statePath }
    services := bundle.services }

variable [Float32Ops F32] (num : Numerics F16 F32)

/-- `PreloadEngine::load`, from what the repository returns. -/
def load (snapshot : StoresSnapshot F32) (config : Config) (services : Services F32) :
    Except Error (PreloadEngine F16 F32) := do
  let stores ← storesFromSnapshot num snapshot config.activeWindow
  return {
    config := config
    services := services
    stores := (deniedKeys services.admission stores).foldl Stores.removeMapByKey stores
    scanId := 0 }

/-- The tick up to the prefetch. A failing scan ends it there. -/
def beginTick (e : PreloadEngine F16 F32) (input : TickInput) :
    PreloadEngine F16 F32 × Except Error (Suspended F16) :=
  let e := { e with scanId := satAdd e.scanId 1 }
  let now := e.stores.modelTime
  let scanned :=
    if e.config.doscan then input.scan
    else .ok [.obsBegin now e.scanId, .obsEnd now e.scanId []]
  match scanned with
  | .error err => (e, .error err)
  | .ok observation =>
    let memstat := findMemstat observation
    let (stores, modelDelta) :=
      if e.config.doscan then
        e.services.updater.apply num input.applyOrder e.stores observation
          { e.services.admission with decide := input.decide }
      else (e.stores, ModelDelta.empty)
    let prediction :=
      if e.config.dopredict then e.services.predictor.predict num input.predictOrder stores else ∅
    let plan :=
      if e.config.dopredict then
        match memstat with
        | some mem => e.services.planner.plan num input.planOrder prediction stores mem
        | none => PrefetchPlan.empty
      else PrefetchPlan.empty
    ({ e with stores }, .ok { memstat, modelDelta, prediction, plan })

end PreloadEngine

end PreloadNg
