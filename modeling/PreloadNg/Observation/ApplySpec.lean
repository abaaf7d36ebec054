import PreloadNg.Observation.ApplyStages

set_option autoImplicit false

/-! # What `apply` does

The stages put together. `ApplySpec` lists what one `apply` does to each container, and
`apply_spec` says that it does; everything about runs of the updater is derived from it. -/

namespace PreloadNg

variable {F16 F32 : Type}

/-- Refresh the running flag, then credit the period. -/
def Exe.settle (now : UInt64) (runningPaths : FxHashSet Path) (period : UInt64) (e : Exe) : Exe :=
  (e.refresh now runningPaths).credit period

@[simp] theorem Exe.settle_key (now : UInt64) (runningPaths : FxHashSet Path) (period : UInt64)
    (e : Exe) : (e.settle now runningPaths period).key = e.key :=
  Exe.key_credit period _

@[simp] theorem Exe.settle_lastSeenTime (now : UInt64) (runningPaths : FxHashSet Path)
    (period : UInt64) (e : Exe) :
    (e.settle now runningPaths period).lastSeenTime = e.lastSeenTime := by
  unfold Exe.settle Exe.credit
  split <;> rfl

@[simp] theorem Exe.settle_running (now : UInt64) (runningPaths : FxHashSet Path)
    (period : UInt64) (e : Exe) :
    (e.settle now runningPaths period).running = decide (e.key.path ∈ runningPaths) := by
  unfold Exe.settle Exe.credit
  split <;> rfl

theorem Exe.settle_totalRunningTime (now : UInt64) (runningPaths : FxHashSet Path)
    (period : UInt64) (e : Exe) :
    (e.settle now runningPaths period).totalRunningTime =
      if e.key.path ∈ runningPaths then satAdd e.totalRunningTime period
      else e.totalRunningTime := by
  unfold Exe.settle Exe.credit Exe.refresh
  by_cases h : e.key.path ∈ runningPaths <;> simp [h]

/-- A zero period credits nothing. -/
theorem Exe.credit_zero (e : Exe) : e.credit 0 = e := by
  unfold Exe.credit
  split
  · rw [satAdd_zero]
  · rfl

theorem creditExes_spec (period : UInt64) (s : Stores F16) :
    ∃ exes : ExeStore, creditExes period s = { s with exes := exes } ∧
      ∀ id, exes.get? id = (s.exes.get? id).map (Exe.credit period) := by
  unfold creditExes
  split
  · exact ⟨_, rfl, s.exes.get?_modifyEach_ids (Exe.key_credit period)⟩
  · next h =>
      have hzero : period = 0 := by
        rw [UInt64.not_lt] at h
        exact UInt64.le_zero_iff.1 h
      refine ⟨s.exes, rfl, fun id => ?_⟩
      subst hzero
      cases s.exes.get? id with
      | none => rfl
      | some e => rw [Option.map_some, Exe.credit_zero]

/-- Crediting keeps the running flags. -/
theorem isRunning_creditExes (period : UInt64) (t : Stores F16) (id : ExeId) :
    (creditExes period t).isRunning id = t.isRunning id := by
  obtain ⟨exes, heq, hget⟩ := creditExes_spec period t
  rw [heq, Stores.isRunning, Stores.isRunning, hget]
  cases t.exes.get? id with
  | none => rfl
  | some e =>
      rw [Option.map_some, Option.map_some, Option.map_some]
      unfold Exe.credit
      split <;> rfl

/-- Refreshing the running flags and crediting the period settles every executable. -/
theorem map_credit_refresh (now : UInt64) (runningPaths : FxHashSet Path) (period : UInt64)
    (e : Option Exe) :
    (e.map (Exe.refresh now runningPaths)).map (Exe.credit period) =
      e.map (Exe.settle now runningPaths period) := by
  rw [Option.map_map]
  rfl

/-- What is seen now joins the active set, what was not seen for the window leaves it, and the
    edges follow the active set. -/
theorem updateActive_spec (ord : HashOrder) (window now : UInt64) (ids : FxHashSet ExeId)
    (s : Stores F16) :
    ∃ (active : ActiveSet) (markov : MarkovGraph F16),
      updateActive ord window now ids s = { s with active := active, markov := markov } ∧
      (∀ id, active.seenAt id = (if id ∈ ids then some now else s.active.seenAt id).filter
        fun last => satSub now last ≤ window) ∧
      ∀ key e, markov.get? key = some e ↔
        s.markov.get? key = some e ∧ key.a ∈ active.exes ∧ key.b ∈ active.exes := by
  refine ⟨_, _, rfl, ?_, ?_⟩
  · intro id
    rw [ActiveSet.seenAt_prune, ActiveSet.seenAt_update]
    congr 1
    exact if_congr (by rw [HashOrder.mem_enum, FxHashSet.mem_iter]) rfl rfl
  · intro key e
    rw [MarkovGraph.get?_pruneInactive, Option.filter_eq_some_iff, MarkovGraph.isActive_iff]

/-- The edges of the active executables: those that exist stay, and a pair without one gets a
    fresh one. -/
theorem ensureEdges_active (zero : F16) (ord : HashOrder) (now : UInt64) (s : Stores F16)
    (delta : ModelDelta) :
    ∃ markov : MarkovGraph F16,
      (ensureEdges zero ord now s delta).1 = { s with markov := markov } ∧
      (∀ key e, s.markov.get? key = some e → markov.get? key = some e) ∧
      (∀ key e, markov.get? key = some e → s.markov.get? key = some e ∨
        (key.a ∈ s.active.exes ∧ key.b ∈ s.active.exes ∧ key.a ≠ key.b ∧
          ∃ state, e = MarkovGraph.freshEdge zero now state)) ∧
      ∀ a b, a ∈ s.active.exes → b ∈ s.active.exes → a ≠ b →
        ∃ e, markov.get? (EdgeKey.new a b) = some e := by
  have hmem : ∀ a, a ∈ ord.enum s.active.exes.iter ↔ a ∈ s.active.exes := fun a => by
    rw [HashOrder.mem_enum, FxHashSet.mem_iter]
  obtain ⟨markov, hstores, hkeep, horigin, hall⟩ :=
    ensureEdges_spec zero now (pairs (ord.enum s.active.exes.iter)) (s, delta)
  refine ⟨markov, hstores, hkeep, ?_, ?_⟩
  · intro key e he
    rcases horigin key e he with he | ⟨p, hp, rfl, rfl⟩
    · exact Or.inl he
    · have hends := mem_of_mem_pairs hp
      rw [hmem, hmem] at hends
      have hne := ne_of_mem_pairs (ord.nodup_enum s.active.exes.iter_nodup) hp
      have hactive := (EdgeKey.new_both (· ∈ s.active.exes) p.1 p.2).2 hends
      exact Or.inr ⟨hactive.1, hactive.2, EdgeKey.new_ne_iff.2 hne, _, rfl⟩
  · intro a b ha hb hne
    rcases pairs_complete ((hmem a).2 ha) ((hmem b).2 hb) hne with hp | hp
    · exact hall _ hp
    · rw [EdgeKey.new_comm]
      exact hall _ hp

/-- The edges follow the active set: those of active executables stay, and a pair without one gets a
    fresh one. -/
structure EdgesFollow (zero : F16) (now : UInt64) (active : ActiveSet)
    (old new : MarkovGraph F16) : Prop where
  kept : ∀ key e, old.get? key = some e → key.a ∈ active.exes → key.b ∈ active.exes →
    new.get? key = some e
  origin : ∀ key e, new.get? key = some e → key.a ∈ active.exes ∧ key.b ∈ active.exes ∧
    (old.get? key = some e ∨ (key.a ≠ key.b ∧
      ∃ state, e = MarkovGraph.freshEdge zero now state))
  complete : ∀ a b, a ∈ active.exes → b ∈ active.exes → a ≠ b →
    ∃ e, new.get? (EdgeKey.new a b) = some e

/-- The active set follows what runs. -/
theorem activeEdges_spec (zero : F16) (ord : HashOrder) (window now : UInt64)
    (ids : FxHashSet ExeId) (s : Stores F16) (delta : ModelDelta) :
    ∃ (active : ActiveSet) (markov : MarkovGraph F16),
      (ensureEdges zero ord now (updateActive ord window now ids s) delta).1 =
        { s with active := active, markov := markov } ∧
      (∀ id, active.seenAt id = (if id ∈ ids then some now else s.active.seenAt id).filter
        fun last => satSub now last ≤ window) ∧
      EdgesFollow zero now active s.markov markov := by
  obtain ⟨active, pruned, hupdated, hactive, hpruned⟩ := updateActive_spec ord window now ids s
  obtain ⟨markov, hensured, hkept, horigin, hcomplete⟩ := ensureEdges_active zero ord now
    ({ s with active := active, markov := pruned } : Stores F16) delta
  rw [hupdated]
  refine ⟨active, markov, hensured, hactive, ⟨?_, ?_, hcomplete⟩⟩
  · intro key e he ha hb
    exact hkept key e ((hpruned key e).2 ⟨he, ha, hb⟩)
  · intro key e he
    rcases horigin key e he with he | ⟨ha, hb, hne, hfresh⟩
    · obtain ⟨hold, ha, hb⟩ := (hpruned key e).1 he
      exact ⟨ha, hb, Or.inl hold⟩
    · exact ⟨ha, hb, Or.inr ⟨hne, hfresh⟩⟩

section Spec

variable [Float32Ops F32] (num : Numerics F16 F32) (u : DefaultModelUpdater F32) (ord : HashOrder)
  (s : Stores F16) (obs : Observation) (policy : AdmissionPolicy)

/-- The time that passed since the last accounting. -/
def accountingPeriod : UInt64 := satSub (obs.time s.modelTime) s.lastAccountingTime

/-- The stores `r` are what one `apply` makes of `s`. -/
structure ApplySpec (r : Stores F16) : Prop where
  modelTime : r.modelTime = obs.time s.modelTime
  lastAccountingTime : r.lastAccountingTime = obs.time s.modelTime
  maps : r.maps = (admitted ord policy s obs).maps
  exeMaps : r.exeMaps = (admitted ord policy s obs).exeMaps
  exes : ∀ id, r.exes.get? id = ((admitted ord policy s obs).exes.get? id).map
    (Exe.settle (obs.time s.modelTime) (collect policy s.modelTime obs).runningPaths
      (accountingPeriod s obs))
  /-- What runs now is active now; the rest stays active for the window. -/
  active : ∀ id, r.active.seenAt id =
    (if r.isRunning id then some (obs.time s.modelTime) else s.active.seenAt id).filter
      fun last => satSub (obs.time s.modelTime) last ≤ u.activeWindow
  /-- An edge that stays is advanced. -/
  edge_kept : ∀ key e, s.markov.get? key = some e → key.a ∈ r.active.exes →
    key.b ∈ r.active.exes →
    r.markov.get? key =
      some (advanceEdge num (obs.time s.modelTime) u.decay (accountingPeriod s obs) r key e)
  /-- Every edge joins active executables and comes from an old one or a fresh one. -/
  edge_origin : ∀ key e, r.markov.get? key = some e →
    key.a ∈ r.active.exes ∧ key.b ∈ r.active.exes ∧
    ∃ e₀, e = advanceEdge num (obs.time s.modelTime) u.decay (accountingPeriod s obs) r key e₀ ∧
      (s.markov.get? key = some e₀ ∨ (s.markov.get? key = none ∧ key.a ≠ key.b ∧
        ∃ state, e₀ = MarkovGraph.freshEdge num.zero (obs.time s.modelTime) state))
  /-- Any two active executables have an edge. -/
  edge_complete : ∀ a b, a ∈ r.active.exes → b ∈ r.active.exes → a ≠ b →
    ∃ e, r.markov.get? (EdgeKey.new a b) = some e

/-- An edge is advanced by the running flags alone. -/
theorem advanceEdge_congr {s t : Stores F16} (h : s.exes = t.exes) (now : UInt64) (decay : F32)
    (period : UInt64) :
    advanceEdge num now decay period s = advanceEdge num now decay period t := by
  obtain ⟨exes, _, _, _, _, _, _⟩ := s
  obtain ⟨exes', _, _, _, _, _, _⟩ := t
  obtain rfl : exes = exes' := h
  rfl

/-- The executables collected as active are those that run. -/
theorem mem_activeExeIds_iff (id : ExeId) :
    id ∈ (refreshRunning (obs.time s.modelTime) (collect policy s.modelTime obs).runningPaths
        (admitAll ord policy (collect policy s.modelTime obs) s)).activeExeIds ↔
      ∃ e, (admitted ord policy s obs).exes.get? id = some e ∧
        e.key.path ∈ (collect policy s.modelTime obs).runningPaths := by
  obtain ⟨-, -, -, hactive⟩ := refreshRunning_spec (obs.time s.modelTime)
    (collect policy s.modelTime obs).runningPaths
    (admitAll ord policy (collect policy s.modelTime obs) s)
  rw [hactive]
  refine ⟨?_, Or.inr⟩
  rintro (h | h)
  · rcases activeExeIds_admitCandidates policy _ _ _ _ h with h | ⟨p, hp, hid⟩
    · exact absurd h (FxHashSet.not_mem_empty id)
    · obtain ⟨e, he, hkey⟩ := ExeStore.idByKey_eq_some.1 hid
      exact ⟨e, he, hkey ▸ hp⟩
  · exact h

/-- The stores on which `apply` runs its last stage, the accounting and the transitions. -/
def DefaultModelUpdater.prepare : Stores F16 :=
  let c := collect policy s.modelTime obs
  let st := admitAll ord policy c s
  let st := refreshRunning c.now c.runningPaths st
  let s := updateActive ord u.activeWindow c.now st.activeExeIds st.stores
  (ensureEdges num.zero ord c.now s st.delta).1

theorem DefaultModelUpdater.apply_fst :
    (u.apply num ord s obs policy).1 =
      account num (collect policy s.modelTime obs).now u.decay (u.prepare num ord s obs policy) :=
  rfl

omit [Float32Ops F32] in
/-- What the stages before the accounting do: the running flags are refreshed, the active set
    follows them, and the edges follow the active set. -/
theorem DefaultModelUpdater.prepare_spec :
    ∃ (exes : ExeStore) (active : ActiveSet) (markov : MarkovGraph F16),
      u.prepare num ord s obs policy =
        { admitted ord policy s obs with exes := exes, active := active, markov := markov } ∧
      (∀ id, exes.get? id = ((admitted ord policy s obs).exes.get? id).map
        (Exe.refresh (obs.time s.modelTime) (collect policy s.modelTime obs).runningPaths)) ∧
      (∀ id, active.seenAt id =
        (if (u.prepare num ord s obs policy).isRunning id then some (obs.time s.modelTime)
          else s.active.seenAt id).filter
          fun last => satSub (obs.time s.modelTime) last ≤ u.activeWindow) ∧
      EdgesFollow num.zero (obs.time s.modelTime) active s.markov markov := by
  have hgrows := grows_admitted ord policy s obs
  have hids := mem_activeExeIds_iff ord s obs policy
  obtain ⟨exes, hstores, hget, -⟩ := refreshRunning_spec (obs.time s.modelTime)
    (collect policy s.modelTime obs).runningPaths
    (admitAll ord policy (collect policy s.modelTime obs) s)
  -- the stages of `apply`, one after the other
  have hprepare : u.prepare num ord s obs policy =
      let st := refreshRunning (obs.time s.modelTime) (collect policy s.modelTime obs).runningPaths
        (admitAll ord policy (collect policy s.modelTime obs) s)
      (ensureEdges num.zero ord (obs.time s.modelTime)
        (updateActive ord u.activeWindow (obs.time s.modelTime) st.activeExeIds st.stores)
        st.delta).1 := by
    unfold prepare
    simp only [collect_now]
  generalize refreshRunning (obs.time s.modelTime) (collect policy s.modelTime obs).runningPaths
    (admitAll ord policy (collect policy s.modelTime obs) s) = st at hstores hids hprepare
  obtain ⟨active, markov, hedges, hactive, hfollow⟩ := activeEdges_spec num.zero
    ord u.activeWindow (obs.time s.modelTime) st.activeExeIds st.stores st.delta
  rw [hstores] at hedges hactive hfollow
  have hmarkov : (admitted ord policy s obs).markov = s.markov := hgrows.markov
  have hfinal : u.prepare num ord s obs policy =
      { admitted ord policy s obs with exes := exes, active := active, markov := markov } := by
    rw [hprepare]
    dsimp only
    rw [hstores, hedges]
    rfl
  -- the active list holds what the scan left running
  have hrunning : ∀ id, id ∈ st.activeExeIds ↔
      (u.prepare num ord s obs policy).isRunning id = true := by
    intro id
    have hid : exes.get? id = ((admitted ord policy s obs).exes.get? id).map _ := hget id
    rw [hids, hfinal, Stores.isRunning, hid]
    cases (admitted ord policy s obs).exes.get? id with
    | none => simp
    | some e => simp [Exe.refresh]
  refine ⟨exes, active, markov, hfinal, hget, fun id => ?_, ?_⟩
  · rw [hactive, if_congr (hrunning id) rfl rfl, ← hgrows.active]
    rfl
  · rw [← hmarkov]
    exact hfollow

/-- The stores after `apply`, with the containers it rewrites named. -/
theorem apply_eq : ∃ (exes : ExeStore) (active : ActiveSet) (markov : MarkovGraph F16),
    (∀ id, exes.get? id = ((admitted ord policy s obs).exes.get? id).map
      (Exe.settle (obs.time s.modelTime) (collect policy s.modelTime obs).runningPaths
        (accountingPeriod s obs))) ∧
    (∀ id, active.seenAt id =
      (if ({ s with exes := exes } : Stores F16).isRunning id then some (obs.time s.modelTime)
        else s.active.seenAt id).filter
        fun last => satSub (obs.time s.modelTime) last ≤ u.activeWindow) ∧
    EdgesFollow num.zero (obs.time s.modelTime) active s.markov markov ∧
    (u.apply num ord s obs policy).1 =
      { exes := exes
        maps := (admitted ord policy s obs).maps
        exeMaps := (admitted ord policy s obs).exeMaps
        markov := markov.iterMut
          (advanceEdge num (obs.time s.modelTime) u.decay (accountingPeriod s obs)
            { s with exes := exes })
        active := active
        modelTime := obs.time s.modelTime
        lastAccountingTime := obs.time s.modelTime } := by
  obtain ⟨refreshed, active, markov, hprepare, hget, hactive, hfollow⟩ :=
    u.prepare_spec num ord s obs policy
  obtain ⟨exes, hcredit, hcredited⟩ :=
    creditExes_spec (accountingPeriod s obs) (u.prepare num ord s obs policy)
  have hperiod : satSub (obs.time s.modelTime)
      (u.prepare num ord s obs policy).lastAccountingTime = accountingPeriod s obs := by
    rw [hprepare, accountingPeriod, ← (grows_admitted ord policy s obs).lastAccountingTime]
  have hexes : ∀ id, exes.get? id = ((admitted ord policy s obs).exes.get? id).map
      (Exe.settle (obs.time s.modelTime) (collect policy s.modelTime obs).runningPaths
        (accountingPeriod s obs)) := by
    intro id
    rw [hcredited, hprepare, hget, map_credit_refresh]
  -- crediting the period does not start or stop anything
  have hrunning : ∀ id, (u.prepare num ord s obs policy).isRunning id =
      ({ s with exes := exes } : Stores F16).isRunning id := by
    intro id
    rw [← isRunning_creditExes (accountingPeriod s obs), hcredit]
    rfl
  refine ⟨exes, active, markov, hexes, fun id => ?_, hfollow, ?_⟩
  · rw [hactive, hrunning]
  · rw [u.apply_fst, collect_now, account]
    simp only [hperiod, hcredit]
    rw [hprepare]
    rfl

theorem apply_spec : ApplySpec num u ord s obs policy (u.apply num ord s obs policy).1 := by
  obtain ⟨exes, active, markov, hexes, hactive, hfollow, heq⟩ :=
    apply_eq num u ord s obs policy
  rw [heq]
  -- the transition of an edge reads the running flags only
  have hadvance : ∀ t : Stores F16, t.exes = exes →
      advanceEdge num (obs.time s.modelTime) u.decay (accountingPeriod s obs)
        ({ s with exes := exes } : Stores F16) =
      advanceEdge num (obs.time s.modelTime) u.decay (accountingPeriod s obs) t :=
    fun t ht => advanceEdge_congr num ht.symm _ _ _
  exact
    { modelTime := rfl
      lastAccountingTime := rfl
      maps := rfl
      exeMaps := rfl
      exes := hexes
      active := hactive
      edge_kept := by
        intro key e he ha hb
        rw [MarkovGraph.get?_iterMut, hfollow.kept key e he ha hb]
        exact congrArg some (congrFun (congrFun (hadvance _ rfl) key) e)
      edge_origin := by
        intro key e he
        rw [MarkovGraph.get?_iterMut, Option.map_eq_some_iff] at he
        obtain ⟨e₀, he₀, rfl⟩ := he
        obtain ⟨ha, hb, hcase⟩ := hfollow.origin key e₀ he₀
        refine ⟨ha, hb, ?_⟩
        -- an old edge between two active programs is still the same one
        cases hold : s.markov.get? key with
        | some e' =>
            have hsame := (hfollow.kept key e' hold ha hb).symm.trans he₀
            obtain rfl := Option.some.inj hsame
            exact ⟨e', congrFun (congrFun (hadvance _ rfl) key) e', Or.inl rfl⟩
        | none =>
            rcases hcase with h | ⟨hne, hfresh⟩
            · exact absurd (hold.symm.trans h) (by simp)
            · exact ⟨e₀, congrFun (congrFun (hadvance _ rfl) key) e₀, Or.inr ⟨rfl, hne, hfresh⟩⟩
      edge_complete := by
        intro a b ha hb hne
        obtain ⟨e, he⟩ := hfollow.complete a b ha hb hne
        exact ⟨_, by rw [MarkovGraph.get?_iterMut, he]; rfl⟩ }

/-! ### What the stores show afterwards -/

variable {num u ord s obs policy} {r : Stores F16} (h : ApplySpec num u ord s obs policy r)

include h

theorem ApplySpec.running_iff {id : ExeId} {e : Exe} (he : r.exes.get? id = some e) :
    e.running = true ↔ obs.sees e.key.path := by
  rw [h.exes, Option.map_eq_some_iff] at he
  obtain ⟨e₀, -, rfl⟩ := he
  rw [Exe.settle_running, Exe.settle_key, decide_eq_true_eq, mem_runningPaths]

theorem ApplySpec.edge_active {key : EdgeKey} (hkey : key ∈ r.markov.keys) :
    key.a ∈ r.active.exes ∧ key.b ∈ r.active.exes := by
  obtain ⟨e, he⟩ := MarkovGraph.mem_keys_iff.1 hkey
  obtain ⟨ha, hb, -⟩ := h.edge_origin key e he
  exact ⟨ha, hb⟩

/-- The state of an edge is that of the running flags. -/
theorem ApplySpec.edge_state {key : EdgeKey} {e : Edge F16} (he : r.markov.get? key = some e) :
    e.state = edgeState r key.a key.b := by
  obtain ⟨-, -, e₀, rfl, -⟩ := h.edge_origin key e he
  exact Edge.updateState_state num _ _ _ _

end Spec

end PreloadNg
