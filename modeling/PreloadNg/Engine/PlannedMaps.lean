import PreloadNg.Engine.DaemonTiming
import PreloadNg.Prefetch.PlanSelection
import PreloadNg.Prefetch.Prefetcher

set_option autoImplicit false

/-! # What plans are for

A map is worth loading for a program that may start. A program that runs has its maps already and
scores zero, so a map gets a positive score from a stopped program only. What a tick has in flight
is of such maps, in every run. -/

namespace PreloadNg

variable {F16 F32 F64 : Type} [Float32Ops F32]

/-- Zero and one are exact, as they are in every binary format. -/
structure Numerics.ExactUnits (num : Numerics F16 F32) : Prop where
  toF32_zero : num.toF32 num.zero = 0
  one_mul_one : (1 : F32) * 1 = 1
  one_sub_zero : (1 : F32) - 0 = 1
  one_sub_one : (1 : F32) - 1 = 0
  zero_not_lt : ¬(0 : F32) < 0
  one_not_lt : ¬(1 : F32) < 0
  zero_not_positive : num.isPositive num.zero = false

/-! ## Scores of zero -/

namespace MarkovPredictor

variable {num : Numerics F16 F32} {exeScores : FxHashMap ExeId F16} {exes : List ExeId}

/-- A program that scores zero leaves the accumulators at one. -/
theorem takeLane_one (hnum : num.ExactUnits) {lane : Fin 4} {exeId : ExeId}
    (hzero : (exeScores.get? exeId).getD num.zero = num.zero) :
    takeLane num exeScores (fun _ => 1, lane) exeId = (fun _ => 1, lane + 1) := by
  have hfactor : (1 : F32) * (1 - num.toF32 ((exeScores.get? exeId).getD num.zero)) = 1 := by
    rw [hzero, hnum.toF32_zero, hnum.one_sub_zero, hnum.one_mul_one]
  unfold takeLane
  dsimp only
  rw [hfactor, Function.update_eq_self_iff.2 rfl]

theorem foldl_takeLane_one (hnum : num.ExactUnits) (lane : Fin 4)
    (hzero : ∀ exeId ∈ exes, (exeScores.get? exeId).getD num.zero = num.zero) :
    (exes.foldl (takeLane num exeScores) (fun _ => 1, lane)).1 = fun _ => 1 := by
  induction exes generalizing lane with
  | nil => rfl
  | cons exeId rest ih =>
      rw [List.foldl_cons, takeLane_one hnum (hzero exeId List.mem_cons_self)]
      exact ih _ fun id hid => hzero id (List.mem_cons_of_mem _ hid)

/-- A map all of whose programs score zero scores zero. -/
theorem mapScore_zero (hnum : num.ExactUnits)
    (hzero : ∀ exeId ∈ exes, (exeScores.get? exeId).getD num.zero = num.zero) :
    mapScore num exeScores exes = num.zero := by
  have hclamp : clamp01 (0 : F32) = 0 := by
    unfold clamp01
    rw [if_neg hnum.zero_not_lt, if_neg hnum.one_not_lt]
  unfold mapScore lanes
  rw [foldl_takeLane_one hnum 0 hzero]
  dsimp only
  rw [hnum.one_mul_one, hnum.one_mul_one, hnum.one_mul_one, hnum.one_sub_one, hclamp,
    ← hnum.toF32_zero, num.ofF32_toF32]

end MarkovPredictor

/-- A program that does not run has the map. -/
def Stores.StoppedHas (s : Stores F16) (key : MapKey) : Prop :=
  ∃ p e, s.exeAt p = some e ∧ e.running = false ∧ s.relAt p key

section Plan

variable {num : Numerics F16 F32} {predictor : MarkovPredictor F32} {ord : HashOrder} {s : Stores F16}

/-- A map with a positive score is one that a stopped program has. -/
theorem stoppedHas_of_scored (hnum : num.ExactUnits) {id : MapId} {m : MapSegment} {score : F16}
    (hmap : s.maps.get? id = some m)
    (hscore : (predictor.predict num ord s).mapScores.get? id = some score)
    (hpos : num.isPositive score = true) : s.StoppedHas m.key := by
  rw [mapScores_predict num predictor ord s hmap] at hscore
  obtain rfl := Option.some.inj hscore
  by_contra hnone
  -- otherwise every program that has the map runs, and scores zero
  have hzero : ∀ exeId ∈ ord.enum (s.exeMaps.exesForMap id),
      ((predictor.predict num ord s).exeScores.get? exeId).getD num.zero = num.zero := by
    intro exeId hmem
    rw [ord.mem_enum, s.exeMaps.mem_exesForMap] at hmem
    rw [exeScores_predict]
    cases he : s.exes.get? exeId with
    | none => rfl
    | some e =>
        rw [Option.map_some, Option.getD_some]
        unfold MarkovPredictor.exeScore
        split
        · rfl
        · next hstopped =>
          refine absurd ⟨e.key.path, e, ?_, eq_false_of_ne_true hstopped, ?_⟩ hnone
          · exact Stores.exeAt_eq_some.2 ⟨exeId, he, rfl⟩
          · exact ⟨exeId, id, ExeStore.idByKey_of_get? he, KeyedStore.idByKey_of_get? hmap, hmem⟩
  rw [MarkovPredictor.mapScore_zero hnum hzero, hnum.zero_not_positive] at hpos
  cases hpos

/-- So is every planned one. -/
theorem stoppedHas_of_planned (hnum : num.ExactUnits) {planner : GreedyPrefetchPlanner}
    {planOrd : HashOrder} {mem : MemStat} {id : MapId} {m : MapSegment}
    (hid : id ∈ (planner.plan num planOrd (predictor.predict num ord s) s mem).maps)
    (hmap : s.maps.get? id = some m) : s.StoppedHas m.key := by
  obtain ⟨score, hplanned⟩ := GreedyPrefetchPlanner.mem_plan.1 hid
  obtain ⟨-, hscore, hpos⟩ := GreedyPrefetchPlanner.scored_of_mem_planned hplanned
  exact stoppedHas_of_scored hnum hmap hscore hpos

/-- A tick plans nothing, or for the scores of the stores that its scan left. -/
theorem plan_beginTick {e : PreloadEngine F16 F32} {input : TickInput} {tick : Suspended F16}
    (htick : (e.beginTick num input).2 = .ok tick) :
    tick.plan.maps = [] ∨ ∃ mem, tick.plan =
      e.services.planner.plan num input.planOrder
        (e.services.predictor.predict num input.predictOrder (e.beginTick num input).1.stores)
        (e.beginTick num input).1.stores mem := by
  unfold PreloadEngine.beginTick at htick ⊢
  dsimp only at htick ⊢
  split at htick
  · cases htick
  · obtain rfl := Except.ok.inj htick
    dsimp only
    split
    · split
      · next mem hmem => exact Or.inr ⟨mem, rfl⟩
      · exact Or.inl rfl
    · exact Or.inl rfl

/-- So is every map that a tick hands to the prefetcher. -/
theorem stoppedHas_of_beginTick (hnum : num.ExactUnits) {e : PreloadEngine F16 F32}
    {input : TickInput} {tick : Suspended F16} (htick : (e.beginTick num input).2 = .ok tick)
    {task : PrefetchTask}
    (htask : task ∈ prefetchTasks tick.plan (e.beginTick num input).1.stores) :
    (e.beginTick num input).1.stores.StoppedHas task.mapKey := by
  obtain ⟨id, hid, hget⟩ := List.mem_filterMap.1 htask
  obtain ⟨m, hmap, rfl⟩ := Option.map_eq_some_iff.1 hget
  rcases plan_beginTick htick with hnone | ⟨mem, hplan⟩
  · rw [hnone] at hid
    exact absurd hid List.not_mem_nil
  · rw [hplan] at hid
    exact stoppedHas_of_planned hnum hid hmap

end Plan

/-! ## What is in flight -/

/-- The tick that waits for its prefetch. -/
def Phase.tick? : Phase F16 → Option (Suspended F16)
  | .prefetching _ tick => some tick
  | _ => none

theorem Phase.tick?_eq_some {phase : Phase F16} {tick : Suspended F16} (h : phase.tick? = some tick) :
    ∃ t, phase = .prefetching t tick := by
  cases phase with
  | prefetching t _ =>
      obtain rfl := Option.some.inj h
      exact ⟨t, rfl⟩
  | selecting _ | autosaving _ _ | sleeping _ | stopped _ => cases h

/-- While its tick prefetches, what it has in flight is of maps that stopped programs have. -/
def Daemon.ServesStopped (d : Daemon F16 F32) : Prop :=
  ∀ t tick, d.phase = .prefetching t tick →
    ∀ task ∈ prefetchTasks tick.plan d.stores, d.stores.StoppedHas task.mapKey

section Flight

variable {num : Numerics F16 F32} {enc : Encoding F32 F64} {ln2 : F32} {h h' : Host F16 F32 F64}
  {d d' : Daemon F16 F32} {op : HostOp F32}

theorem servesStopped_beginTick (hnum : num.ExactUnits) (t : ℕ) (input : DaemonTickInput) :
    (d.beginTick num t input).ServesStopped := by
  intro t' tick hphase task htask
  -- a scan that fails would have stopped the loop
  have hresult : (d.engine.beginTick num (d.tickInput input)).2 = .ok tick := by
    unfold Daemon.beginTick at hphase
    cases hresult : (d.engine.beginTick num (d.tickInput input)).2 with
    | ok tick' =>
        simp only [hresult] at hphase
        cases hphase
        rfl
    | error err =>
        simp only [hresult] at hphase
        cases hphase
  exact stoppedHas_of_beginTick hnum hresult htask

omit [Float32Ops F32] in
theorem nextPhase_ne_prefetching (now tickStart t : ℕ) (didTick : Bool) (tick : Suspended F16) :
    d.nextPhase now tickStart didTick ≠ .prefetching t tick := by
  unfold Daemon.nextPhase
  split
  · exact fun heq => by cases heq
  · exact fun heq => by cases heq

/-- The loop leaves the phase of prefetching before it changes the stores. -/
theorem servesStopped_of_loop (hd : h.daemon = some d) (hd' : h'.daemon = some d')
    (hloop : LoopStep num enc h d op h' d') (hchange : HostChange num enc h op h')
    (hbegin : ∀ input, op ≠ .beginTick input) (hstart : ∀ config launch, op ≠ .start config launch)
    (hserves : d.ServesStopped) : d'.ServesStopped := by
  intro t tick hphase
  -- no other step ends in the phase of prefetching
  have hstays : d.phase = .prefetching t tick ∧ op.completesTick = false := by
    have hstep := hloop.phase
    generalize d.phase = before, hphase' : d'.phase = after at hstep
    cases hstep with
    | stays hop => exact ⟨hphase'.symm.trans hphase, hop⟩
    | begins => exact absurd rfl (hbegin _)
    | ends => exact absurd (hphase'.symm.trans hphase) (nextPhase_ne_prefetching _ _ _ _ _)
    | completes => exact absurd (hphase'.symm.trans hphase) (by simp)
    | handles => exact absurd (hphase'.symm.trans hphase) (by simp)
    | interrupts => exact absurd (hphase'.symm.trans hphase) (by simp)
    | wakes hwake => exact absurd (hphase'.symm.trans hphase) (by simp)
  -- a step that keeps the phase neither scans nor completes the tick
  have hstores : d'.stores = d.stores := by
    cases hchange with
    | rests hdbs hlive hnone =>
        obtain ⟨d₁, hd₁, -, hstores⟩ := hlive d' hd'
        obtain rfl := Option.some.inj (hd.symm.trans hd₁)
        exact hstores
    | works hd₁ hd₂ hdbs hrepo hwork =>
        cases hwork with
        | applies hscan hobs hstores => exact absurd rfl (hbegin _)
        | advances keys hstores hgone => cases hstays.2
    | saves hd₁ hd₂ hrepo hstores hsaved =>
        obtain rfl := Option.some.inj (hd.symm.trans hd₁)
        obtain rfl := Option.some.inj (hd'.symm.trans hd₂)
        exact hstores
    | ends hdbs hnone =>
        rw [hd'] at hnone
        cases hnone
    | starts hop hd₁ hdbs hload hrestore hd₂ hrepo hstores => exact absurd hop (hstart _ _)
  rw [hstores]
  exact hserves t tick hstays.1

theorem servesStopped_of_step (hnum : num.ExactUnits) (hstep : HostStep num enc ln2 h op h')
    (hserves : ∀ d, h.daemon = some d → d.ServesStopped) (hd' : h'.daemon = some d') :
    d'.ServesStopped := by
  by_cases hstart : ∃ config launch, op = .start config launch
  · obtain ⟨config, launch, rfl⟩ := hstart
    intro t tick hphase
    rw [(loop_of_start hstep hd').2.1] at hphase
    cases hphase
  by_cases hbegin : ∃ input, op = .beginTick input
  · obtain ⟨input, rfl⟩ := hbegin
    cases hostMove_of_step hstep with
    | begins _ _ =>
        obtain rfl := Option.some.inj hd'
        exact servesStopped_beginTick hnum _ input
    | sends _ hevent => cases hevent
  · push Not at hstart hbegin
    intro t tick hphase
    have hrunning : d'.Running := running_of_phase hphase fun _ heq => by cases heq
    obtain ⟨d, hd, hloop⟩ := loopStep_of_step ⟨hstep, hstart⟩ hd' hrunning
    exact servesStopped_of_loop hd hd' hloop (hostChange_of_step hstep) hbegin hstart
      (hserves d hd) t tick hphase

end Flight

/-- In every run of the daemon, while a tick prefetches, each map that it has in flight is one that a
    stored program has that does not run. -/
theorem plans_serve_stopped_programs {num : Numerics F16 F32} {enc : Encoding F32 F64} {ln2 : F32}
    (hnum : num.ExactUnits) {now : ℕ} {h : Host F16 F32 F64} {d : Daemon F16 F32} {t : ℕ}
    {tick : Suspended F16}
    (hr : Reachable (HostStep num enc ln2) (Host.initial F16 F32 F64 now) h)
    (hd : h.daemon = some d) (hphase : d.phase = .prefetching t tick) {task : PrefetchTask}
    (htask : task ∈ prefetchTasks tick.plan d.stores) : d.stores.StoppedHas task.mapKey := by
  have hserves : ∀ d, h.daemon = some d → d.ServesStopped := by
    refine hr.invariant (I := fun h => ∀ d, h.daemon = some d → d.ServesStopped) ?_ ?_
    · intro d hd
      cases hd
    · intro h op h' hserves hstep d' hd'
      exact servesStopped_of_step hnum hstep hserves hd'
  exact hserves d hd t tick hphase task htask

theorem Numerics.exactUnits_exact {K : Type} [Field K] [LinearOrder K] [IsStrictOrderedRing K]
    (fastExpNeg sqrt : K → K) (minPositive minScore : K) :
    (Numerics.exact K fastExpNeg sqrt minPositive minScore).ExactUnits where
  toF32_zero := rfl
  one_mul_one := mul_one (1 : K)
  one_sub_zero := sub_zero (1 : K)
  one_sub_one := sub_self (1 : K)
  zero_not_lt := lt_irrefl (0 : K)
  one_not_lt := not_lt.2 (zero_le_one : (0 : K) ≤ 1)
  zero_not_positive := decide_eq_false (lt_irrefl (0 : K))

/-- The library of `/bin/a` is loaded once the program is seen no more. -/
theorem plans_serve_stopped_programs_library :
    ∃ (d : Daemon ℚ ℚ) (t : ℕ) (tick : Suspended ℚ) (task : PrefetchTask),
      d.phase = .prefetching t tick ∧ task ∈ prefetchTasks tick.plan d.stores ∧
        d.stores.StoppedHas task.mapKey := by
  let num : Numerics ℚ ℚ := Numerics.exact ℚ (fun _ => 1) id 0 (1 / 1000000)
  let config : Settings ℚ := Settings.default 0
  let config : Settings ℚ :=
    { config with
      model := { config.model with minsize := 0 }
      system := { config.system with sortstrategy := .none } }
  let idle : Observation :=
    [.obsBegin 20 2, .memStat ⟨1000000, 1000000, 0, 0, 0, 0⟩, .obsEnd 20 2 []]
  let ops : List (HostOp ℚ) :=
    [.start config .plain, .beginTick (.ofScan (.ok (.ofRunning 0 ["/bin/a"]))),
      .finishTick ⟨0, 0, []⟩ fun _ => true, .autosave ⟨.insertion, 0, none, 1⟩,
      .pass (Daemon.nanos 20), .wake, .beginTick (.ofScan (.ok idle))]
  have hany : ((Host.initial ℚ ℚ ℚ 0).execAll num Encoding.rational 1 ops).any
      (fun h => h.daemon.any fun d =>
        d.phase.tick?.any fun tick => (prefetchTasks tick.plan d.stores).isEmpty.not) = true := by
    decide +kernel
  obtain ⟨h, hexec, hlast⟩ := (Option.any_eq_true _ _).1 hany
  obtain ⟨d, hd, hflight⟩ := (Option.any_eq_true _ _).1 hlast
  obtain ⟨tick, htick, htasks⟩ := (Option.any_eq_true _ _).1 hflight
  obtain ⟨t, hphase⟩ := Phase.tick?_eq_some htick
  obtain ⟨task, htask⟩ := List.isEmpty_eq_false_iff_exists_mem.1 (by simpa using htasks)
  exact ⟨d, t, tick, task, hphase, htask, plans_serve_stopped_programs
    (Numerics.exactUnits_exact _ _ _ _) (run_of_execAll _ _ _ hexec).reachable hd hphase htask⟩

end PreloadNg
