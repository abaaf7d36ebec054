import PreloadNg.Engine.Accounting
import PreloadNg.Engine.EngineRun

set_option autoImplicit false

/-! # Running times along runs of the engine

The accounting period is the difference of two clocks that are advanced in different places, and a
tick may be dropped between them. The bounds of `Stores.Accounting` hold in every state all the
same, as long as the scanner answers for the time it was asked for. -/

namespace PreloadNg

variable {F16 F32 : Type} [Float32Ops F32] (num : Numerics F16 F32)

/-- The engine with empty stores over an empty repository. -/
def System.start (config : Config) (services : Services F32) : System F16 F32 where
  engine := PreloadEngine.new config services
  saved := StoresSnapshot.empty F32

/-- Every scan is at the time the tick asked for. -/
def Echoing (s : System F16 F32) : EngineOp F32 → Prop
  | .tick input _ _ => ∀ obs, input.scan = .ok obs → obs.Echoes s.engine.stores.modelTime
  | .abortedTick input => ∀ obs, input.scan = .ok obs → obs.Echoes s.engine.stores.modelTime
  | .reload _ => True
  | .save _ _ => True
  | .load _ _ => True

/-! ## The invariant -/

/-- Stores that are well formed and keep the bounds. -/
structure Stores.Accounted (s : Stores F16) : Prop where
  wf : s.WF
  accounting : s.Accounting

/-- The snapshot was taken of such stores. -/
def SavedAccounted (snapshot : StoresSnapshot F32) : Prop :=
  ∃ (ord : HashOrder) (createdAt : ℤ) (s : Stores F16), s.Accounted ∧
    snapshot.state = (snapshotFromStores num ord createdAt s).state

/-- Stores and snapshot are accounted. -/
structure System.Accounted (s : System F16 F32) : Prop where
  stores : s.engine.stores.Accounted
  saved : SavedAccounted num s.saved

omit [Float32Ops F32] in
/-- Removing maps and advancing the model time keeps the bounds. -/
theorem accounted_removeMaps {s : Stores F16} (h : s.Accounted) (keys : List MapKey)
    (modelTime : UInt64) (hle : s.modelTime ≤ modelTime) :
    ({ keys.foldl Stores.removeMapByKey s with modelTime := modelTime } : Stores F16).Accounted := by
  have hsame := Stores.sameButMaps_removeMaps keys s
  have hwf := Stores.wf_removeMaps h.wf keys
  exact
    { wf := ⟨hwf.exe_live, hwf.map_live, hwf.edge_distinct, hwf.edge_live, hwf.active_live⟩
      accounting := h.accounting.congr hsame.exes hsame.markov hsame.lastAccountingTime hle }

/-- The first part of a tick keeps the bounds and the model time. -/
theorem accounted_beginTick {e : PreloadEngine F16 F32} {input : TickInput}
    (hecho : ∀ obs, input.scan = .ok obs → obs.Echoes e.stores.modelTime)
    (h : e.stores.Accounted) :
    (e.beginTick num input).1.stores.Accounted ∧
      (e.beginTick num input).1.stores.modelTime = e.stores.modelTime := by
  obtain ⟨-, -, hsame | ⟨obs, -, hscan, hstores⟩⟩ := e.beginTick_spec num input
  · rw [hsame]
    exact ⟨h, rfl⟩
  · have hspec := apply_spec num e.services.updater input.applyOrder e.stores obs
      { e.services.admission with decide := input.decide }
    have htime := Observation.time_of_echoes (hecho obs hscan)
    rw [hstores]
    refine ⟨⟨hspec.wf h.wf, accounting_apply hspec ?_ h.accounting⟩, ?_⟩
    · rw [htime]
      exact h.accounting.clock
    · rw [PreloadEngine.applyScan, hspec.modelTime, htime]

/-- Restoring an accounted snapshot. -/
theorem accounted_restore {snapshot : StoresSnapshot F32} {activeWindow : UInt64} {t : Stores F16}
    (hsaved : SavedAccounted num snapshot)
    (ht : storesFromSnapshot num snapshot activeWindow = .ok t) : t.Accounted := by
  obtain ⟨ord, createdAt, s, hs, hstate⟩ := hsaved
  have ht' : storesFromSnapshot num (snapshotFromStores num ord createdAt s) activeWindow =
      .ok t := (storesFromSnapshot_congr num snapshot activeWindow hstate).symm.trans ht
  have hwf : t.WF := (restore_spec num _ activeWindow ht').wf
    (snapshot_edges_distinct num ord createdAt hs.wf)
  exact ⟨hwf, accounting_restart (restart_spec ht' hs.wf) hwf hs.accounting⟩

theorem accounted_start (config : Config) (services : Services F32) :
    (System.start config services : System F16 F32).Accounted num where
  stores := ⟨Stores.wf_empty, Stores.accounting_empty⟩
  saved := ⟨.insertion, 0, ∅, ⟨Stores.wf_empty, Stores.accounting_empty⟩, rfl⟩

/-- Every step keeps the invariant. -/
theorem accounted_step {s s' : System F16 F32} {op : EngineOp F32} (h : s.Accounted num)
    (hstep : EngineStep num Echoing s op s') : s'.Accounted num := by
  obtain ⟨hecho, hexec⟩ := hstep
  cases op with
  | tick input prefetch exist =>
      obtain ⟨t, -, rfl⟩ := (exec_tick_eq_ok num).1 hexec
      obtain ⟨hbegin, -⟩ := accounted_beginTick num hecho h.stores
      obtain ⟨keys, hfinish⟩ :=
        PreloadEngine.finishTick_spec (s.engine.beginTick num input).1 t prefetch exist
      refine ⟨?_, h.saved⟩
      dsimp only
      rw [hfinish]
      exact accounted_removeMaps hbegin keys _ (le_satAdd _ _)
  | abortedTick input =>
      obtain rfl := Except.ok.inj hexec
      exact ⟨(accounted_beginTick num hecho h.stores).1, h.saved⟩
  | reload bundle =>
      obtain rfl := Except.ok.inj hexec
      exact ⟨h.stores, h.saved⟩
  | save ord createdAt =>
      obtain rfl := Except.ok.inj hexec
      exact ⟨h.stores, ord, createdAt, s.engine.stores, h.stores, rfl⟩
  | load config services =>
      obtain ⟨e, he, rfl⟩ := (exec_load_eq_ok num).1 hexec
      obtain ⟨t, ht, rfl⟩ := (PreloadEngine.load_eq_ok num).1 he
      refine ⟨?_, h.saved⟩
      -- what was saved has its times accounted for, and a purge changes none
      have hrestored := accounted_restore num h.saved ht
      have hremoved := accounted_removeMaps hrestored
        (PreloadEngine.deniedKeys services.admission t) t.modelTime (UInt64.le_refl _)
      rw [← (Stores.sameButMaps_removeMaps (PreloadEngine.deniedKeys services.admission t)
        t).modelTime] at hremoved
      exact hremoved

/-! ## What holds in every state -/

/-- The running times of the stores are within their clocks. -/
structure Stores.RunningTimes (s : Stores F16) : Prop where
  clock : s.lastAccountingTime ≤ s.modelTime
  exe : ∀ id e, s.exes.get? id = some e → e.totalRunningTime ≤ s.lastAccountingTime
  edge : ∀ key e, s.markov.get? key = some e → ∃ a b, s.exes.get? key.a = some a ∧
    s.exes.get? key.b = some b ∧ e.bothRunningTime ≤ a.totalRunningTime ∧
    e.bothRunningTime ≤ b.totalRunningTime

omit [Float32Ops F32] in
theorem Stores.Accounted.runningTimes {s : Stores F16} (h : s.Accounted) : s.RunningTimes where
  clock := h.accounting.clock
  exe id e he := by
    rw [← Stores.runningTime_of_get? he]
    exact h.accounting.exe id
  edge key e he := by
    obtain ⟨⟨a, ha⟩, b, hb⟩ := h.wf.edge_live key (MarkovGraph.mem_keys_iff.2 ⟨e, he⟩)
    refine ⟨a, b, ha, hb, ?_⟩
    have hboth : s.bothTime key.a key.b = e.bothRunningTime :=
      Stores.bothTime_of_get? (by rw [EdgeKey.new_a_b, he])
    rw [← Stores.runningTime_of_get? ha, ← Stores.runningTime_of_get? hb, ← hboth]
    exact ⟨h.accounting.both key.a key.b, s.bothTime_comm key.a key.b ▸
      h.accounting.both key.b key.a⟩

/-- What an operation does to the model time. -/
def EngineOp.advances (s s' : System F16 F32) : EngineOp F32 → Prop
  | .tick _ _ _ =>
    s'.engine.stores.modelTime = satAdd s.engine.stores.modelTime s.engine.config.cycle
  | .abortedTick _ => s'.engine.stores.modelTime = s.engine.stores.modelTime
  | .reload _ => s'.engine.stores.modelTime = s.engine.stores.modelTime
  | .save _ _ => s'.engine.stores.modelTime = s.engine.stores.modelTime
  | .load _ _ => s'.engine.stores.modelTime = s.saved.state.modelTime

theorem advances_of_step {s s' : System F16 F32} {op : EngineOp F32} (h : s.Accounted num)
    (hstep : EngineStep num Echoing s op s') : op.advances s s' := by
  obtain ⟨hecho, hexec⟩ := hstep
  cases op with
  | tick input prefetch exist =>
      obtain ⟨t, -, rfl⟩ := (exec_tick_eq_ok num).1 hexec
      obtain ⟨-, htime⟩ := accounted_beginTick num hecho h.stores
      obtain ⟨keys, hfinish⟩ :=
        PreloadEngine.finishTick_spec (s.engine.beginTick num input).1 t prefetch exist
      show ((s.engine.beginTick num input).1.finishTick t prefetch exist).1.stores.modelTime = _
      rw [hfinish, ← htime, (s.engine.beginTick_spec num input).1]
  | abortedTick input =>
      obtain rfl := Except.ok.inj hexec
      exact (accounted_beginTick num hecho h.stores).2
  | reload bundle =>
      obtain rfl := Except.ok.inj hexec
      rfl
  | save ord createdAt =>
      obtain rfl := Except.ok.inj hexec
      rfl
  | load config services =>
      obtain ⟨e, he, rfl⟩ := (exec_load_eq_ok num).1 hexec
      obtain ⟨t, ht, rfl⟩ := (PreloadEngine.load_eq_ok num).1 he
      show ((PreloadEngine.deniedKeys services.admission t).foldl
        Stores.removeMapByKey t).modelTime = _
      rw [(Stores.sameButMaps_removeMaps _ t).modelTime]
      exact (restore_spec num _ _ ht).modelTime

/-- In every state of every run, and at every step from it. -/
theorem running_time_not_overcounted {config : Config} {services : Services F32}
    {s : System F16 F32}
    (h : EngineReachable num Echoing (System.start config services) s) :
    s.engine.stores.RunningTimes ∧
      ∀ op s', EngineStep num Echoing s op s' → op.advances s s' := by
  have hinv : s.Accounted num := h.invariant (I := fun s : System F16 F32 => s.Accounted num)
    (accounted_start num config services) fun _ _ _ hs hstep => accounted_step num hs hstep
  exact ⟨hinv.stores.runningTimes, fun op s' hstep => advances_of_step num hinv hstep⟩

/-- One more tick of a run, completed or dropped. -/
theorem echoing_tick {init s : System F16 F32} (h : EngineReachable num Echoing init s)
    (input : TickInput) {obs : Observation} (hscan : input.scan = .ok obs)
    (hecho : obs.Echoes s.engine.stores.modelTime) (t : Suspended F16)
    (prefetch : PrefetchReport) (exist : Path → Bool) :
    EngineReachable num Echoing init { s with
      engine := ((s.engine.beginTick num input).1.finishTick t prefetch exist).1 } := by
  refine h.tail (i := .tick input prefetch exist) ⟨?_, exec_tick_of_scan num s hscan t _ _⟩
  intro obs' hobs'
  obtain rfl := Except.ok.inj (hscan.symm.trans hobs')
  exact hecho

theorem echoing_abortedTick {init s : System F16 F32} (h : EngineReachable num Echoing init s)
    (input : TickInput) {obs : Observation} (hscan : input.scan = .ok obs)
    (hecho : obs.Echoes s.engine.stores.modelTime) :
    EngineReachable num Echoing init { s with engine := (s.engine.beginTick num input).1 } := by
  refine h.tail (i := .abortedTick input) ⟨?_, rfl⟩
  intro obs' hobs'
  obtain rfl := Except.ok.inj (hscan.symm.trans hobs')
  exact hecho

/-- A tick at `0`, and one at `20` that is dropped at its prefetch and then retried. -/
theorem running_time_not_overcounted_retried :
    ∃ s : System ℚ ℚ,
      (s.engine.stores.exeAt (Path.ofString "/bin/a")).map Exe.totalRunningTime = some 20 ∧
      s.engine.stores.modelTime = 40 ∧ s.engine.stores.RunningTimes := by
  let config : Config := ⟨true, true, 20, 100, none⟩
  let services : Services ℚ := ⟨.permissive, ⟨100, 0⟩, ⟨true, 20⟩, ⟨.none, 0, 100⟩⟩
  let scan (now : UInt64) : Observation := .ofRunning now ["/bin/a", "/bin/b"]
  let input (now : UInt64) : TickInput :=
    { scan := .ok (scan now)
      decide := fun _ => .accept .full
      applyOrder := .insertion
      predictOrder := .insertion
      planOrder := .reverse }
  let t : Suspended ℚ := ⟨none, ModelDelta.empty, ∅, PrefetchPlan.empty⟩
  let report : PrefetchReport := ⟨0, 0, []⟩
  let s₀ : System ℚ ℚ := System.start config services
  let s₁ : System ℚ ℚ := { s₀ with
    engine := ((s₀.engine.beginTick Numerics.rational (input 0)).1.finishTick t report
      fun _ => true).1 }
  let s₂ : System ℚ ℚ := { s₁ with engine := (s₁.engine.beginTick Numerics.rational (input 20)).1 }
  let s₃ : System ℚ ℚ := { s₂ with
    engine := ((s₂.engine.beginTick Numerics.rational (input 20)).1.finishTick t report
      fun _ => true).1 }
  have htime₁ : s₁.engine.stores.modelTime = 20 := by decide +kernel
  have htime₂ : s₂.engine.stores.modelTime = 20 := by decide +kernel
  have hecho (now : UInt64) : (scan now).Echoes now := Observation.echoes_ofRunning now _
  have hreach₁ : EngineReachable Numerics.rational Echoing s₀ s₁ :=
    echoing_tick _ Reachable.refl (input 0) rfl (hecho 0) t report _
  have hreach₂ : EngineReachable Numerics.rational Echoing s₀ s₂ :=
    echoing_abortedTick _ hreach₁ (input 20) rfl (htime₁.symm ▸ hecho 20)
  have hreach₃ : EngineReachable Numerics.rational Echoing s₀ s₃ :=
    echoing_tick _ hreach₂ (input 20) rfl (htime₂.symm ▸ hecho 20) t report _
  exact ⟨s₃, by decide +kernel, by decide +kernel,
    (running_time_not_overcounted Numerics.rational hreach₃).1⟩

end PreloadNg
