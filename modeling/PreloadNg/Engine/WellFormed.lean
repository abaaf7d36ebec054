import PreloadNg.Engine.StoresRun

set_option autoImplicit false

/-! # Stores stay well formed

Every operation keeps the conditions that span several containers, so every reachable stores has
them. The conditions of single containers are carried by their types. -/

namespace PreloadNg

variable {F16 F32 : Type} [Float32Ops F32] (num : Numerics F16 F32)

/-! ## One operation -/

section Apply

variable {num} {u : DefaultModelUpdater F32} {ord : HashOrder} {s r : Stores F16}
  {obs : Observation} {policy : AdmissionPolicy} (h : ApplySpec num u ord s obs policy r)

include h

/-- The ids of executables are kept. -/
theorem ApplySpec.idByKey {key : ExeKey} {id : ExeId} (hid : s.exes.idByKey key = some id) :
    r.exes.idByKey key = some id := by
  obtain ⟨e, he, rfl⟩ :=
    ExeStore.idByKey_eq_some.1 ((grows_admitted ord policy s obs).exes key id hid)
  exact ExeStore.idByKey_eq_some.2 ⟨_, by rw [h.exes, he]; rfl, Exe.settle_key _ _ _ e⟩

theorem ApplySpec.liveExe {id : ExeId} (hl : s.LiveExe id) : r.LiveExe id := by
  rw [liveExe_iff_idByKey] at hl ⊢
  obtain ⟨key, hkey⟩ := hl
  exact ⟨key, h.idByKey hkey⟩

theorem ApplySpec.liveExe_iff_admitted (id : ExeId) :
    r.LiveExe id ↔ (admitted ord policy s obs).LiveExe id := by
  unfold Stores.LiveExe
  rw [h.exes]
  cases (admitted ord policy s obs).exes.get? id <;> simp

/-- An active executable runs now, or it was active before. -/
theorem ApplySpec.mem_active {id : ExeId} (hid : id ∈ r.active.exes) :
    r.isRunning id = true ∨ id ∈ s.active.exes := by
  obtain ⟨last, hlast⟩ := (ActiveSet.mem_exes _ id).1 hid
  rw [h.active, Option.filter_eq_some_iff] at hlast
  by_cases hrun : r.isRunning id = true
  · exact Or.inl hrun
  · rw [if_neg hrun] at hlast
    exact Or.inr ((ActiveSet.mem_exes _ id).2 ⟨last, hlast.1⟩)

theorem ApplySpec.wf (hs : s.WF) : r.WF := by
  have hadmitted := wf_admitted ord policy s obs hs
  have hactive : ∀ id ∈ r.active.exes, r.LiveExe id := by
    intro id hid
    rcases h.mem_active hid with hrun | hold
    · unfold Stores.isRunning at hrun
      cases hget : r.exes.get? id with
      | none =>
          rw [hget] at hrun
          exact absurd hrun (by simp)
      | some e => exact ⟨e, hget⟩
    · exact h.liveExe (hs.active_live id hold)
  refine ⟨?_, ?_, ?_, ?_, hactive⟩
  · intro e m hrel
    rw [h.exeMaps] at hrel
    exact (h.liveExe_iff_admitted e).2 (hadmitted.exe_live e m hrel)
  · intro e m hrel
    rw [h.exeMaps] at hrel
    unfold Stores.LiveMap
    rw [h.maps]
    exact hadmitted.map_live e m hrel
  · intro key hkey
    obtain ⟨e, he⟩ := MarkovGraph.mem_keys_iff.1 hkey
    obtain ⟨-, -, e₀, -, hold | ⟨-, hne, -⟩⟩ := h.edge_origin key e he
    · exact hs.edge_distinct key (MarkovGraph.mem_keys_iff.2 ⟨e₀, hold⟩)
    · exact hne
  · intro key hkey
    exact (h.edge_active hkey).imp (hactive _) (hactive _)

end Apply

section Restore

variable {num} {snapshot : StoresSnapshot F32} {activeWindow : UInt64} {t : Stores F16}
  (h : RestoreSpec num snapshot activeWindow t)

include h

omit [Float32Ops F32] in
theorem RestoreSpec.active_live (id : ExeId) (hid : id ∈ t.active.exes) : t.LiveExe id := by
  obtain ⟨last, hlast⟩ := (ActiveSet.mem_exes _ id).1 hid
  rw [h.active] at hlast
  split at hlast
  · next hrecent =>
      obtain ⟨e, he, -⟩ := (Option.any_eq_true _ _).1 hrecent
      exact ⟨e, he⟩
  · exact absurd hlast (by simp)

omit [Float32Ops F32] in
/-- A restored edge comes from a record, and its endpoints are active. -/
theorem RestoreSpec.edge_origin {key : EdgeKey} (hkey : key ∈ t.markov.keys) :
    (∃ r ∈ snapshot.state.markovEdges, r.edgeKey t.exes = some key) ∧
      key.a ∈ t.active.exes ∧ key.b ∈ t.active.exes := by
  obtain ⟨e, he⟩ := MarkovGraph.mem_keys_iff.1 hkey
  rw [h.markov, Option.filter_eq_some_iff, Option.map_eq_some_iff] at he
  obtain ⟨⟨r, hfind, -⟩, hact⟩ := he
  rw [MarkovGraph.isActive_iff] at hact
  exact ⟨⟨r, List.mem_of_find?_eq_some hfind, by simpa using List.find?_some hfind⟩, hact⟩

omit [Float32Ops F32] in
theorem RestoreSpec.linked : t.Linked where
  exe_live e m hrel := by
    obtain ⟨r, -, he, -⟩ := (h.rel e m).1 hrel
    exact liveExe_iff_idByKey.2 ⟨_, he⟩
  edge_live key hkey := by
    obtain ⟨-, ha, hb⟩ := h.edge_origin hkey
    exact ⟨h.active_live _ ha, h.active_live _ hb⟩

omit [Float32Ops F32] in
/-- Restored stores are well formed unless an edge joins an executable with itself. -/
theorem RestoreSpec.wf_of_distinct (hne : ∀ key ∈ t.markov.keys, key.a ≠ key.b) : t.WF := by
  refine ⟨h.linked.exe_live, ?_, hne, h.linked.edge_live, h.active_live⟩
  intro e m hrel
  obtain ⟨r, -, -, hm⟩ := (h.rel e m).1 hrel
  obtain ⟨seg, hseg, -⟩ := KeyedStore.idByKey_eq_some.1 hm
  exact ⟨seg, hseg⟩

omit [Float32Ops F32] in
/-- A restored edge that joins an executable with itself comes from a record that joins its path with
    itself. -/
theorem RestoreSpec.self_record {key : EdgeKey} (hkey : key ∈ t.markov.keys) (heq : key.a = key.b) :
    ∃ r ∈ snapshot.state.markovEdges, r.exeA = r.exeB ∧
      t.exes.idByKey ⟨r.exeA⟩ = some key.a := by
  obtain ⟨⟨r, hr, hrkey⟩, -⟩ := h.edge_origin hkey
  obtain ⟨a, b, ha, hb, rfl⟩ := MarkovRecord.edgeKey_eq_some.1 hrkey
  have hab : a = b := by
    by_contra hne
    exact EdgeKey.new_ne_iff.2 hne heq
  subst hab
  refine ⟨r, hr, congrArg ExeKey.path (ExeStore.idByKey_inj ha hb), ?_⟩
  rw [ha, EdgeKey.new_of_le (le_refl a)]

omit [Float32Ops F32] in
/-- Restoring a snapshot none of whose edge records joins a path with itself. -/
theorem RestoreSpec.wf (hne : ∀ r ∈ snapshot.state.markovEdges, r.exeA ≠ r.exeB) : t.WF := by
  refine h.wf_of_distinct fun key hkey heq => ?_
  obtain ⟨r, hr, hself, -⟩ := h.self_record hkey heq
  exact hne r hr hself

end Restore

/-- The edge records of a snapshot join distinct paths. -/
theorem snapshot_edges_distinct (ord : HashOrder) (createdAt : ℤ) {s : Stores F16} (hs : s.WF)
    (r : MarkovRecord F32)
    (hr : r ∈ (snapshotFromStores num ord createdAt s).state.markovEdges) : r.exeA ≠ r.exeB := by
  obtain ⟨key, e, hget, hrec⟩ := (mem_snapshot_markovEdges num ord createdAt s r).1 hr
  obtain ⟨a, b, ha, hb, rfl⟩ := (markovRecord_eq_some num s _ r).1 hrec
  intro hpath
  refine hs.edge_distinct key (MarkovGraph.mem_keys_iff.2 ⟨e, hget⟩) ?_
  exact ExeStore.id_unique ha hb (by cases hka : a.key; cases hkb : b.key; simp_all)

/-- Every operation keeps the stores well formed. -/
theorem wf_exec {s s' : Stores F16} {op : StoresOp F32} (hs : s.WF)
    (h : op.exec num s = .ok s') : s'.WF := by
  cases op with
  | apply updater ord policy obs =>
      obtain rfl := Except.ok.inj h
      exact (apply_spec num updater ord s obs policy).wf hs
  | advance cycle =>
      obtain rfl := Except.ok.inj h
      exact ⟨hs.exe_live, hs.map_live, hs.edge_distinct, hs.edge_live, hs.active_live⟩
  | removeMap key =>
      obtain rfl := Except.ok.inj h
      exact Stores.wf_removeMapByKey hs key
  | restart ord createdAt activeWindow =>
      exact (restore_spec num _ activeWindow h).wf
        (snapshot_edges_distinct num ord createdAt hs)

/-! ## Runs -/

theorem wf_of_reachable {allowed : Stores F16 → StoresOp F32 → Prop} {s : Stores F16}
    (h : StoresReachable num allowed s) : s.WF :=
  h.invariant Stores.wf_empty fun _ _ _ hs hstep => wf_exec num hs hstep.2

/-- The documented invariants of the stores, container by container. -/
structure Stores.Documented (s : Stores F16) : Prop where
  /-- Keys and live ids of executables are in bijection. -/
  exe_byKey : ∀ key id, s.exes.base.byKey.get? key = some id ↔
    ∃ e, s.exes.get? id = some e ∧ e.key = key
  exe_id_unique : ∀ key key' id, s.exes.base.byKey.get? key = some id →
    s.exes.base.byKey.get? key' = some id → key = key'
  /-- Keys and live ids of maps are in bijection. -/
  map_byKey : ∀ key id, s.maps.byKey.get? key = some id ↔
    ∃ m, s.maps.get? id = some m ∧ m.key = key
  map_id_unique : ∀ key key' id, s.maps.byKey.get? key = some id →
    s.maps.byKey.get? key' = some id → key = key'
  /-- The two directions of the index describe one relation. -/
  index_inverse : ∀ e m, (∃ ms, s.exeMaps.exeToMaps.get? e = some ms ∧ m ∈ ms) ↔
    ∃ es, s.exeMaps.mapToExes.get? m = some es ∧ e ∈ es
  index_exe : ∀ e ms, s.exeMaps.exeToMaps.get? e = some ms → (∃ m, m ∈ ms) ∧ s.LiveExe e ∧
    ∀ m ∈ ms, s.LiveMap m
  index_map : ∀ m es, s.exeMaps.mapToExes.get? m = some es → (∃ e, e ∈ es) ∧ s.LiveMap m ∧
    ∀ e ∈ es, s.LiveExe e
  /-- An edge joins two distinct live executables. -/
  edge_live : ∀ key ∈ s.markov.keys, key.a ≠ key.b ∧ s.LiveExe key.a ∧ s.LiveExe key.b
  /-- An unordered pair has at most one edge. -/
  edge_unique : ∀ (i j : ℕ) (k l : EdgeKey), s.markov.keys[i]? = some k →
    s.markov.keys[j]? = some l → (k.a = l.a ∧ k.b = l.b) ∨ (k.a = l.b ∧ k.b = l.a) → i = j
  active_live : ∀ e ∈ s.active.exes, s.LiveExe e

theorem Stores.WF.documented {s : Stores F16} (h : s.WF) : s.Documented where
  exe_byKey := s.exes.base.byKey_spec
  exe_id_unique _ _ _ hk hl := ExeStore.idByKey_inj hk hl
  map_byKey := s.maps.byKey_spec
  map_id_unique _ _ _ hk hl := KeyedStore.idByKey_inj hk hl
  index_inverse := s.exeMaps.inverse
  index_exe := by
    intro e ms hms
    have hrel : ∀ m ∈ ms, s.exeMaps.Rel e m := fun m hm => ⟨ms, hms, hm⟩
    obtain ⟨m, hm⟩ := s.exeMaps.exe_noEmpty e ms hms
    exact ⟨⟨m, hm⟩, h.exe_live e m (hrel m hm), fun m' hm' => h.map_live e m' (hrel m' hm')⟩
  index_map := by
    intro m es hes
    have hrel : ∀ e ∈ es, s.exeMaps.Rel e m := fun e he => (s.exeMaps.inverse e m).2 ⟨es, hes, he⟩
    obtain ⟨e, he⟩ := s.exeMaps.map_noEmpty m es hes
    exact ⟨⟨e, he⟩, h.map_live e m (hrel e he), fun e' he' => h.exe_live e' m (hrel e' he')⟩
  edge_live key hk := ⟨h.edge_distinct key hk, h.edge_live key hk⟩
  edge_unique := by
    intro i j k l hi hj hpair
    have hkl : k = l := by
      rw [← EdgeKey.new_a_b k]
      exact EdgeKey.new_eq_iff.2 hpair
    exact MarkovGraph.key_injective hi (hkl ▸ hj)
  active_live := h.active_live

/-- Whatever the operations and their parameters, the documented invariants hold. -/
theorem stores_stay_documented {s : Stores F16}
    (h : StoresReachable num (fun _ (_ : StoresOp F32) => True) s) : s.Documented :=
  (wf_of_reachable num h).documented

theorem stores_stay_documented_two_running :
    let s : Stores ℚ := ((⟨100, 0⟩ : DefaultModelUpdater ℚ).apply Numerics.rational .insertion ∅
      (.ofRunning 10 ["/bin/a", "/bin/b"]) .permissive).1
    s.exes.ids.length = 2 ∧ s.markov.keys.length = 1 ∧ s.Documented := by
  refine ⟨by decide +kernel, by decide +kernel, ?_⟩
  have hstep : StoresStep Numerics.rational (fun _ (_ : StoresOp ℚ) => True) ∅
      (.apply ⟨100, 0⟩ .insertion .permissive (.ofRunning 10 ["/bin/a", "/bin/b"])) _ :=
    ⟨trivial, rfl⟩
  exact stores_stay_documented Numerics.rational (Reachable.refl.tail hstep)

end PreloadNg
