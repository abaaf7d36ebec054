import PreloadNg.Engine.Engine
import PreloadNg.Lib.Records
import PreloadNg.Lib.Transition
import PreloadNg.Observation.ApplySpec

set_option autoImplicit false

/-! # Runs of the engine

The engine together with the snapshot that its repository holds. `run_until` interleaves ticks with
control events: an event or a cancellation drops a tick that waits for its prefetch. -/

namespace PreloadNg

variable {F16 F32 : Type}

/-- The engine and the snapshot last saved. -/
structure System (F16 F32 : Type) where
  engine : PreloadEngine F16 F32
  saved : StoresSnapshot F32

inductive EngineOp (F32 : Type) where
  | tick (input : TickInput) (prefetch : PrefetchReport) (exist : Path → Bool)
  | abortedTick (input : TickInput)
  | reload (bundle : ReloadBundle F32)
  | save (ord : HashOrder) (createdAt : ℤ)
  | load (config : Config) (services : Services F32)

section Ops

variable [Float32Ops F32] (num : Numerics F16 F32)

/-- A tick whose scan fails ends the run, so a completed tick has none. -/
def EngineOp.exec (s : System F16 F32) : EngineOp F32 → Except Error (System F16 F32)
  | .tick input prefetch exist => do
    let suspended ← (s.engine.beginTick num input).2
    return { s with
      engine := ((s.engine.beginTick num input).1.finishTick suspended prefetch exist).1 }
  | .abortedTick input => .ok { s with engine := (s.engine.beginTick num input).1 }
  | .reload bundle => .ok { s with engine := s.engine.applyReload bundle }
  | .save ord createdAt =>
    .ok { s with saved := snapshotFromStores num ord createdAt s.engine.stores }
  | .load config services => do
    let engine ← PreloadEngine.load num s.saved config services
    return { s with engine }

/-- A step by an operation that is allowed in the state. -/
def EngineStep (allowed : System F16 F32 → EngineOp F32 → Prop) (s : System F16 F32)
    (op : EngineOp F32) (s' : System F16 F32) : Prop :=
  allowed s op ∧ op.exec num s = .ok s'

/-- The systems that runs of allowed operations lead to from `init`. -/
def EngineReachable (allowed : System F16 F32 → EngineOp F32 → Prop) (init : System F16 F32) :
    System F16 F32 → Prop :=
  Reachable (EngineStep num allowed) init

end Ops

/-! ## What the parts of a tick do -/

namespace PreloadEngine

section Begin

variable [Float32Ops F32] (num : Numerics F16 F32) (e : PreloadEngine F16 F32) (input : TickInput)

/-- The stores after one `apply` of the tick. -/
def applyScan (observation : Observation) : Stores F16 :=
  (e.services.updater.apply num input.applyOrder e.stores observation
    { e.services.admission with decide := input.decide }).1

/-- The first part of a tick keeps the settings, and the stores too unless it applies a scan. -/
theorem beginTick_spec :
    (e.beginTick num input).1.config = e.config ∧
    (e.beginTick num input).1.services = e.services ∧
    ((e.beginTick num input).1.stores = e.stores ∨
      ∃ observation, e.config.doscan = true ∧ input.scan = .ok observation ∧
        (e.beginTick num input).1.stores = e.applyScan num input observation) := by
  unfold beginTick
  dsimp only
  by_cases hscan : e.config.doscan = true
  · simp only [hscan, if_true]
    cases hinput : input.scan with
    | error err => exact ⟨rfl, rfl, Or.inl rfl⟩
    | ok observation => exact ⟨rfl, rfl, Or.inr ⟨observation, trivial, rfl, rfl⟩⟩
  · simp only [hscan]
    exact ⟨rfl, rfl, Or.inl rfl⟩

/-- A tick whose scan succeeds gets to its prefetch. -/
theorem beginTick_isOk {observation : Observation} (h : input.scan = .ok observation) :
    ∃ t, (e.beginTick num input).2 = .ok t := by
  unfold beginTick
  dsimp only
  rw [h]
  by_cases hscan : e.config.doscan = true
  · simp only [hscan, if_true]
    exact ⟨_, rfl⟩
  · simp only [hscan]
    exact ⟨_, rfl⟩

/-- A tick plans maps of its stores only. -/
theorem live_of_mem_plan_beginTick {t : Suspended F16} (ht : (e.beginTick num input).2 = .ok t)
    {id : MapId} (hid : id ∈ t.plan.maps) :
    ∃ m, (e.beginTick num input).1.stores.maps.get? id = some m := by
  unfold beginTick at ht ⊢
  dsimp only at ht ⊢
  split at ht
  · exact absurd ht (by simp)
  · obtain rfl := Except.ok.inj ht
    dsimp only at hid ⊢
    split at hid
    · split at hid
      · exact GreedyPrefetchPlanner.live_of_mem_plan _ hid
      · exact absurd hid List.not_mem_nil
    · exact absurd hid List.not_mem_nil

end Begin

theorem removeStale_eq (exist : Path → Bool) (s : Stores F16) (failures : List MapKey) :
    removeStale exist s failures =
      (failures.filter fun key => !exist key.path).foldl Stores.removeMapByKey s := by
  unfold removeStale
  induction failures generalizing s with
  | nil => rfl
  | cons key rest ih =>
      rw [List.foldl_cons, ih]
      cases hexist : exist key.path <;> simp [hexist]

/-- The second part of a tick removes the maps that failed and whose files are gone. -/
theorem finishTick_eq (e : PreloadEngine F16 F32) (t : Suspended F16) (prefetch : PrefetchReport)
    (exist : Path → Bool) :
    (e.finishTick t prefetch exist).1 =
      { e with
        stores :=
          { (prefetch.failures.filter fun key => !exist key.path).foldl Stores.removeMapByKey
              e.stores with
            modelTime := satAdd e.stores.modelTime e.config.cycle } } := by
  unfold finishTick
  dsimp only
  rw [removeStale_eq, (Stores.sameButMaps_removeMaps _ _).modelTime]

/-- The second part of a tick removes maps and advances the model time. -/
theorem finishTick_spec (e : PreloadEngine F16 F32) (t : Suspended F16) (prefetch : PrefetchReport)
    (exist : Path → Bool) :
    ∃ keys : List MapKey, (e.finishTick t prefetch exist).1 =
      { e with
        stores :=
          { keys.foldl Stores.removeMapByKey e.stores with
            modelTime := satAdd e.stores.modelTime e.config.cycle } } :=
  ⟨_, finishTick_eq e t prefetch exist⟩

section Load

variable (num : Numerics F16 F32)

/-- Loading restores the snapshot and removes the maps the policy denies. -/
theorem load_eq_ok {snapshot : StoresSnapshot F32} {config : Config} {services : Services F32}
    {e : PreloadEngine F16 F32} :
    load num snapshot config services = .ok e ↔
      ∃ t, storesFromSnapshot num snapshot config.activeWindow = .ok t ∧
        e =
          { config := config
            services := services
            stores := (deniedKeys services.admission t).foldl Stores.removeMapByKey t
            scanId := 0 } := by
  refine except_bind_eq_ok.trans ?_
  refine exists_congr fun t => and_congr_right fun _ => ?_
  exact ⟨fun h => (Except.ok.inj h).symm, fun h => congrArg Except.ok h.symm⟩

end Load

end PreloadEngine

/-- A completed tick is its first part, then its second. -/
theorem exec_tick_eq_ok [Float32Ops F32] (num : Numerics F16 F32) {s s' : System F16 F32}
    {input : TickInput} {prefetch : PrefetchReport} {exist : Path → Bool} :
    EngineOp.exec num s (.tick input prefetch exist) = .ok s' ↔
      ∃ t, (s.engine.beginTick num input).2 = .ok t ∧
        s' = { s with
          engine := ((s.engine.beginTick num input).1.finishTick t prefetch exist).1 } := by
  refine except_bind_eq_ok.trans ?_
  refine exists_congr fun t => and_congr_right fun _ => ?_
  exact ⟨fun h => (Except.ok.inj h).symm, fun h => congrArg Except.ok h.symm⟩

/-- A tick whose scan succeeds completes; what it holds while suspended does not matter. -/
theorem exec_tick_of_scan [Float32Ops F32] (num : Numerics F16 F32) (s : System F16 F32)
    {input : TickInput} {observation : Observation} (h : input.scan = .ok observation)
    (t : Suspended F16) (prefetch : PrefetchReport) (exist : Path → Bool) :
    EngineOp.exec num s (.tick input prefetch exist) = .ok { s with
      engine := ((s.engine.beginTick num input).1.finishTick t prefetch exist).1 } := by
  obtain ⟨t', ht'⟩ := s.engine.beginTick_isOk num input h
  exact (exec_tick_eq_ok num).2 ⟨t', ht', rfl⟩

/-- A restart is a load of the saved snapshot. -/
theorem exec_load_eq_ok [Float32Ops F32] (num : Numerics F16 F32) {s s' : System F16 F32}
    {config : Config} {services : Services F32} :
    EngineOp.exec num s (.load config services) = .ok s' ↔
      ∃ e, PreloadEngine.load num s.saved config services = .ok e ∧ s' = { s with engine := e } := by
  refine except_bind_eq_ok.trans ?_
  refine exists_congr fun e => and_congr_right fun _ => ?_
  exact ⟨fun h => (Except.ok.inj h).symm, fun h => congrArg Except.ok h.symm⟩

end PreloadNg
