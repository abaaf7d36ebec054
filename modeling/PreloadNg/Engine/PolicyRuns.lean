import PreloadNg.Engine.EngineRun

set_option autoImplicit false

/-! # The map policy along runs of the engine

The map filter is applied in two places: `load` purges what the policy denies, and `apply` stores
only maps the policy allows. `apply_reload` installs another policy and leaves the stored maps as
they are, so that the filter holds along the runs whose reloads allow what is stored. -/

namespace PreloadNg

variable {F16 F32 : Type}

/-- The installed policy allows every stored map. -/
def MapsAllowed (e : PreloadEngine F16 F32) : Prop :=
  ∀ id m, e.stores.maps.get? id = some m → e.services.admission.allowMap m.path = true

section Runs

variable [Float32Ops F32] (num : Numerics F16 F32)

/-- Every reload installs a policy that allows what is stored. -/
def ReloadsCover (s : System F16 F32) : EngineOp F32 → Prop
  | .reload bundle => ∀ id m, s.engine.stores.maps.get? id = some m →
      bundle.services.admission.allowMap m.path = true
  | .tick _ _ _ => True
  | .abortedTick _ => True
  | .save _ _ => True
  | .load _ _ => True

omit [Float32Ops F32] in
/-- Loading purges what the policy denies. -/
theorem mapsAllowed_load {snapshot : StoresSnapshot F32} {config : Config}
    {services : Services F32} {e : PreloadEngine F16 F32}
    (h : PreloadEngine.load num snapshot config services = .ok e) : MapsAllowed e := by
  obtain ⟨t, -, rfl⟩ := (PreloadEngine.load_eq_ok num).1 h
  intro id m hm
  show services.admission.allowMap m.path = true
  obtain ⟨hm, hkept⟩ := (Stores.get?_removeMaps _ t id m).1 hm
  by_contra hdenied
  refine hkept (List.mem_map.2 ⟨(id, m), List.mem_filter.2 ⟨?_, ?_⟩, rfl⟩)
  · exact (t.maps.mem_iter id m).2 hm
  · simpa using hdenied

/-- The first part of a tick stores allowed maps only. -/
theorem mapsAllowed_beginTick {e : PreloadEngine F16 F32} (h : MapsAllowed e)
    (input : TickInput) : MapsAllowed (e.beginTick num input).1 := by
  obtain ⟨-, hservices, hstores⟩ := e.beginTick_spec num input
  intro id m hm
  rw [hservices]
  rcases hstores with hsame | ⟨obs, -, -, happly⟩
  · rw [hsame] at hm
    exact h id m hm
  · have hspec := apply_spec num e.services.updater input.applyOrder e.stores obs
      { e.services.admission with decide := input.decide }
    rw [happly, PreloadEngine.applyScan, hspec.maps] at hm
    rcases get?_maps_admitted _ _ _ _ hm with hold | hallowed
    · exact h id m hold
    · exact hallowed

theorem mapsAllowed_step {s s' : System F16 F32} {op : EngineOp F32} (h : MapsAllowed s.engine)
    (hstep : EngineStep num ReloadsCover s op s') : MapsAllowed s'.engine := by
  obtain ⟨hcover, hexec⟩ := hstep
  cases op with
  | tick input prefetch exist =>
      obtain ⟨t, -, rfl⟩ := (exec_tick_eq_ok num).1 hexec
      have hbegin := mapsAllowed_beginTick num h input
      obtain ⟨keys, hfinish⟩ :=
        PreloadEngine.finishTick_spec (s.engine.beginTick num input).1 t prefetch exist
      dsimp only
      rw [hfinish]
      intro id m hm
      exact hbegin id m ((Stores.get?_removeMaps keys _ id m).1 hm).1
  | abortedTick input =>
      obtain rfl := Except.ok.inj hexec
      exact mapsAllowed_beginTick num h input
  | reload bundle =>
      obtain rfl := Except.ok.inj hexec
      exact hcover
  | save ord createdAt =>
      obtain rfl := Except.ok.inj hexec
      exact h
  | load config services =>
      obtain ⟨e, he, rfl⟩ := (exec_load_eq_ok num).1 hexec
      exact mapsAllowed_load num he

/-- Every map the tick plans is stored and allowed by the policy of the tick. -/
def PlansAllowed (e : PreloadEngine F16 F32) : Prop :=
  ∀ input t, (e.beginTick num input).2 = .ok t → ∀ id ∈ t.plan.maps, ∃ m,
    (e.beginTick num input).1.stores.maps.get? id = some m ∧
      e.services.admission.allowMap m.path = true

/-- In every state of a run from a loaded engine whose reloads allow what is stored. -/
theorem planned_maps_allowed {snapshot : StoresSnapshot F32} {config : Config}
    {services : Services F32} {e : PreloadEngine F16 F32}
    (hload : PreloadEngine.load num snapshot config services = .ok e) {s : System F16 F32}
    (h : EngineReachable num ReloadsCover ⟨e, snapshot⟩ s) :
    MapsAllowed s.engine ∧ PlansAllowed num s.engine := by
  have hmaps : MapsAllowed s.engine :=
    h.invariant (I := fun s : System F16 F32 => MapsAllowed s.engine) (mapsAllowed_load num hload)
      fun _ _ _ hs hstep => mapsAllowed_step num hs hstep
  refine ⟨hmaps, ?_⟩
  intro input t ht id hid
  obtain ⟨m, hm⟩ := s.engine.live_of_mem_plan_beginTick num input ht hid
  refine ⟨m, hm, ?_⟩
  have hallowed := mapsAllowed_beginTick num hmaps input id m hm
  rwa [(s.engine.beginTick_spec num input).2.1] at hallowed

/-- One more tick of a run without restrictions. -/
theorem unrestricted_tick {init s : System F16 F32}
    (h : EngineReachable num (fun _ _ => True) init s) (input : TickInput) {obs : Observation}
    (hscan : input.scan = .ok obs) (t : Suspended F16) (prefetch : PrefetchReport)
    (exist : Path → Bool) :
    EngineReachable num (fun _ _ => True) init { s with
      engine := ((s.engine.beginTick num input).1.finishTick t prefetch exist).1 } :=
  h.tail (i := .tick input prefetch exist) ⟨trivial, exec_tick_of_scan num s hscan t _ _⟩

end Runs

/-- A scan with one program, then a reload that denies other maps than the stored one. -/
theorem planned_maps_allowed_after_reload :
    ∃ s : System ℚ ℚ, s.engine.stores.maps.ids.length = 1 ∧
      MapsAllowed s.engine ∧ PlansAllowed Numerics.rational s.engine := by
  let config : Config := ⟨true, true, 20, 100, none⟩
  let services (rules : List String) : Services ℚ :=
    { admission := DefaultAdmissionPolicy.toPolicy ⟨0, [], rules, false⟩ fun _ => none
      updater := ⟨100, 0⟩
      predictor := ⟨true, 20⟩
      planner := ⟨.none, 0, 100⟩ }
  let input : TickInput :=
    { scan := .ok (.ofRunning 10 ["/bin/a"])
      decide := fun _ => .accept .full
      applyOrder := .insertion
      predictOrder := .insertion
      planOrder := .insertion }
  let s₀ : System ℚ ℚ := ⟨PreloadEngine.new config (services ["/"]), StoresSnapshot.empty ℚ⟩
  let s₁ : System ℚ ℚ := { s₀ with
    engine := ((s₀.engine.beginTick Numerics.rational input).1.finishTick
      ⟨none, ModelDelta.empty, ∅, PrefetchPlan.empty⟩ ⟨0, 0, []⟩ fun _ => true).1 }
  let bundle : ReloadBundle ℚ := ⟨config, services ["/", "!/tmp/"]⟩
  have htick : EngineReachable Numerics.rational ReloadsCover s₀ s₁ :=
    Reachable.refl.tail (i := .tick input ⟨0, 0, []⟩ fun _ => true)
      ⟨trivial, exec_tick_of_scan _ s₀ rfl _ _ _⟩
  have hcover : ∀ row ∈ s₁.engine.stores.maps.iter,
      bundle.services.admission.allowMap row.2.path = true := by decide +kernel
  have hreload : EngineReachable Numerics.rational ReloadsCover s₀
      { s₁ with engine := s₁.engine.applyReload bundle } :=
    htick.tail (i := .reload bundle)
      ⟨fun id m hm => hcover (id, m) ((KeyedStore.mem_iter _ id m).2 hm), rfl⟩
  have hload : PreloadEngine.load Numerics.rational (StoresSnapshot.empty ℚ) config
      (services ["/"]) = .ok s₀.engine := rfl
  exact ⟨_, by decide +kernel, planned_maps_allowed Numerics.rational hload hreload⟩

/-- A reload that denies the libraries leaves the stored library in place, and the next tick plans
    it. -/
theorem denied_map_planned_after_reload :
    ∃ (snapshot : StoresSnapshot ℚ) (config : Config) (services : Services ℚ)
      (e : PreloadEngine ℚ ℚ) (s : System ℚ ℚ) (input : TickInput) (t : Suspended ℚ),
      PreloadEngine.load Numerics.rational snapshot config services = .ok e ∧
      EngineReachable Numerics.rational (fun _ _ => True) ⟨e, snapshot⟩ s ∧
      (s.engine.beginTick Numerics.rational input).2 = .ok t ∧
      ∃ id ∈ t.plan.maps, ∃ m,
        (s.engine.beginTick Numerics.rational input).1.stores.maps.get? id = some m ∧
          s.engine.services.admission.allowMap m.path = false := by
  let config : Config := ⟨true, true, 20, 100, none⟩
  let services (rules : List String) : Services ℚ :=
    { admission := DefaultAdmissionPolicy.toPolicy ⟨0, [], rules, false⟩ fun _ => none
      updater := ⟨100, 0⟩
      predictor := ⟨true, 20⟩
      planner := ⟨.none, 0, 100⟩ }
  let input (scan : Observation) : TickInput :=
    { scan := .ok scan
      decide := fun _ => .accept .full
      applyOrder := .insertion
      predictOrder := .insertion
      planOrder := .insertion }
  let idle : Observation := [.obsBegin 30 2, .memStat ⟨0, 1000000, 0, 0, 0, 0⟩, .obsEnd 30 2 []]
  let s₀ : System ℚ ℚ := ⟨PreloadEngine.new config (services ["/"]), StoresSnapshot.empty ℚ⟩
  let s₁ : System ℚ ℚ := { s₀ with
    engine := ((s₀.engine.beginTick Numerics.rational (input (.ofRunning 10 ["/bin/a"]))).1.finishTick
      ⟨none, ModelDelta.empty, ∅, PrefetchPlan.empty⟩ ⟨0, 0, []⟩ fun _ => true).1 }
  let s₂ : System ℚ ℚ :=
    { s₁ with engine := s₁.engine.applyReload ⟨config, services ["/", "!/lib/"]⟩ }
  have htick : EngineReachable Numerics.rational (fun _ _ => True) s₀ s₁ :=
    unrestricted_tick _ Reachable.refl (input (.ofRunning 10 ["/bin/a"])) rfl _ _ _
  have hreload : EngineReachable Numerics.rational (fun _ _ => True) s₀ s₂ :=
    htick.tail (i := .reload ⟨config, services ["/", "!/lib/"]⟩) ⟨trivial, rfl⟩
  obtain ⟨t, ht⟩ := s₂.engine.beginTick_isOk Numerics.rational (input idle) rfl
  have hplanned : ((s₂.engine.beginTick Numerics.rational (input idle)).2.toOption.any fun t =>
      t.plan.maps.any fun id =>
        ((s₂.engine.beginTick Numerics.rational (input idle)).1.stores.maps.get? id).any fun m =>
          !s₂.engine.services.admission.allowMap m.path) = true := by decide +kernel
  rw [ht] at hplanned
  obtain ⟨id, hid, hm⟩ := List.any_eq_true.1 hplanned
  obtain ⟨m, hm, hdenied⟩ := (Option.any_eq_true _ _).1 hm
  exact ⟨StoresSnapshot.empty ℚ, config, services ["/"], _, s₂, input idle, t, rfl, hreload, ht,
    id, hid, m, hm, by simpa using hdenied⟩

end PreloadNg
