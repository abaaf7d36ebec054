import PreloadNg.Engine.RestoreSpec

set_option autoImplicit false

/-! # What a snapshot of well-formed stores records

The records of `snapshot_from_stores`, and what restoring them gives back, by path. -/

namespace PreloadNg

variable {F16 F32 : Type} [Float32Ops F32] (num : Numerics F16 F32) (ord : HashOrder)
  (createdAt : ℤ) (s : Stores F16)

/-! ## The records -/

theorem mem_snapshot_exes (r : ExeRecord) :
    r ∈ (snapshotFromStores num ord createdAt s).state.exes ↔
      ∃ id e, s.exes.get? id = some e ∧ exeRecord e = r := by
  simp only [snapshotFromStores, List.mem_map, Prod.exists, ExeStore.mem_iter]

theorem snapshot_exes_keys :
    ((snapshotFromStores num ord createdAt s).state.exes.map fun r => (⟨r.path⟩ : ExeKey)) =
      s.exes.keys := by
  simp only [snapshotFromStores, List.map_map, ExeStore.keys]
  rfl

theorem snapshot_exes_nodup :
    ((snapshotFromStores num ord createdAt s).state.exes.map ExeRecord.path).Nodup := by
  have h : ((snapshotFromStores num ord createdAt s).state.exes.map
      fun r => (⟨r.path⟩ : ExeKey)).Nodup := by
    rw [snapshot_exes_keys]
    exact s.exes.keys_nodup
  refine List.Nodup.of_map ExeKey.mk ?_
  rw [List.map_map]
  exact h

theorem mem_snapshot_maps (r : MapRecord) :
    r ∈ (snapshotFromStores num ord createdAt s).state.maps ↔
      ∃ id m, s.maps.get? id = some m ∧ mapRecord m = r := by
  simp only [snapshotFromStores, List.mem_map, Prod.exists, KeyedStore.mem_iter]

theorem snapshot_maps_nodup :
    ((snapshotFromStores num ord createdAt s).state.maps.map MapRecord.key).Nodup := by
  simp only [snapshotFromStores, List.map_map]
  exact s.maps.keys_nodup

theorem mem_snapshot_exeMaps (r : ExeMapRecord F32) :
    r ∈ (snapshotFromStores num ord createdAt s).state.exeMaps ↔
      ∃ e exe m map, s.exes.get? e = some exe ∧ s.exeMaps.Rel e m ∧ s.maps.get? m = some map ∧
        ({ exePath := exe.key.path, mapKey := map.key, prob := 1 } : ExeMapRecord F32) = r := by
  simp only [snapshotFromStores, List.mem_flatMap, Prod.exists, ExeStore.mem_iter, exeMapRecords,
    List.mem_filterMap, HashOrder.mem_enum, ExeMapIndex.mem_mapsForExe, Option.map_eq_some_iff]
  constructor
  · rintro ⟨e, exe, he, m, hrel, map, hm, hr⟩
    exact ⟨e, exe, m, map, he, hrel, hm, hr⟩
  · rintro ⟨e, exe, m, map, he, hrel, hm, hr⟩
    exact ⟨e, exe, he, m, hrel, map, hm, hr⟩

omit [Float32Ops F32] in
theorem markovRecord_eq_some (row : EdgeKey × Edge F16) (r : MarkovRecord F32) :
    markovRecord num s row = some r ↔
      ∃ a b, s.exes.get? row.1.a = some a ∧ s.exes.get? row.1.b = some b ∧
        ({ exeA := a.key.path
           exeB := b.key.path
           timeToLeave := row.2.timeToLeaveF32 num
           transitionProb := row.2.transitionProbF32 num
           bothRunningTime := row.2.bothRunningTime } : MarkovRecord F32) = r := by
  unfold markovRecord
  cases s.exes.get? row.1.a with
  | none => simp
  | some a => cases s.exes.get? row.1.b <;> simp

theorem mem_snapshot_markovEdges (r : MarkovRecord F32) :
    r ∈ (snapshotFromStores num ord createdAt s).state.markovEdges ↔
      ∃ key e, s.markov.get? key = some e ∧ markovRecord num s (key, e) = some r := by
  simp only [snapshotFromStores, List.mem_filterMap, Prod.exists, MarkovGraph.mem_iter]

/-- A snapshot refers to nothing that it does not record. -/
theorem resolves_snapshot :
    (snapshotFromStores num ord createdAt s).state.Resolves := by
  have hexe : ∀ id e, s.exes.get? id = some e →
      e.key.path ∈ (snapshotFromStores num ord createdAt s).state.exes.map ExeRecord.path :=
    fun id e he => List.mem_map.2 ⟨_, (mem_snapshot_exes num ord createdAt s _).2 ⟨id, e, he, rfl⟩,
      rfl⟩
  constructor
  · intro r hr
    obtain ⟨e, exe, m, map, he, -, hm, rfl⟩ := (mem_snapshot_exeMaps num ord createdAt s r).1 hr
    exact ⟨hexe e exe he, List.mem_map.2
      ⟨_, (mem_snapshot_maps num ord createdAt s _).2 ⟨m, map, hm, rfl⟩, rfl⟩⟩
  · intro r hr
    obtain ⟨key, e, -, hrec⟩ := (mem_snapshot_markovEdges num ord createdAt s r).1 hr
    obtain ⟨a, b, ha, hb, rfl⟩ := (markovRecord_eq_some num s _ r).1 hrec
    exact ⟨hexe _ a ha, hexe _ b hb⟩

/-! ## Taking a snapshot and restoring it -/

/-- The persisted part of an executable. -/
def Exe.persisted (e : Exe) : Exe :=
  { Exe.new e.key with totalRunningTime := e.totalRunningTime, lastSeenTime := e.lastSeenTime }

/-- The persisted part of a map. -/
def MapSegment.persisted (m : MapSegment) : MapSegment := { m with device := 0, inode := 0 }

/-- The persisted part of an edge, restored at model time `now`. -/
def Edge.persisted (now : UInt64) (e : Edge F16) : Edge F16 where
  state := .neither
  lastChangeTime := now
  stateLastLeft := fun _ => now
  timeToLeave := e.timeToLeave
  transitionProb := e.transitionProb
  bothRunningTime := e.bothRunningTime

/-- Whether the executable of a path was seen within the window before the model time. -/
def Stores.isRecentAt (s : Stores F16) (activeWindow : UInt64) (p : Path) : Bool :=
  (s.exeAt p).any (Exe.isRecent s.modelTime activeWindow)

/-- The stores `t` are what a restart makes of `s`. -/
structure RestartSpec (activeWindow : UInt64) (t : Stores F16) : Prop where
  modelTime : t.modelTime = s.modelTime
  lastAccountingTime : t.lastAccountingTime = s.lastAccountingTime
  exeAt : ∀ p, t.exeAt p = (s.exeAt p).map Exe.persisted
  keys : t.exes.keys = s.exes.keys
  mapAt : ∀ key, t.mapAt key = (s.mapAt key).map MapSegment.persisted
  relAt : ∀ p key, t.relAt p key ↔ s.relAt p key
  active : ∀ id, t.active.seenAt id =
    if (t.exes.get? id).any (Exe.isRecent s.modelTime activeWindow) then some s.modelTime else none
  edgeAt : ∀ p q, t.edgeAt p q = ((s.edgeAt p q).filter fun _ =>
    s.isRecentAt activeWindow p && s.isRecentAt activeWindow q).map (Edge.persisted s.modelTime)

section Restart

variable {num ord createdAt s} {activeWindow : UInt64} {t : Stores F16}
  (h : storesFromSnapshot num (snapshotFromStores num ord createdAt s) activeWindow = .ok t)

include h

theorem exeAt_restart (p : Path) : t.exeAt p = (s.exeAt p).map Exe.persisted := by
  have hnodup := snapshot_exes_nodup num ord createdAt s
  rw [(restore_spec num _ activeWindow h).exeAt, lookup_restoreExes hnodup]
  refine Option.ext fun e => ?_
  simp only [Option.map_eq_some_iff, find?_key_eq_some hnodup, mem_snapshot_exes,
    Stores.exeAt_eq_some]
  constructor
  · rintro ⟨r, ⟨⟨id, e₀, he₀, rfl⟩, rfl⟩, rfl⟩
    exact ⟨e₀, ⟨id, he₀, rfl⟩, rfl⟩
  · rintro ⟨e₀, ⟨id, he₀, hkey⟩, rfl⟩
    exact ⟨exeRecord e₀, ⟨⟨id, e₀, he₀, rfl⟩, congrArg ExeKey.path hkey⟩, by
      rw [Exe.persisted, hkey]
      rfl⟩

theorem mapAt_restart (key : MapKey) : t.mapAt key = (s.mapAt key).map MapSegment.persisted := by
  have hnodup := snapshot_maps_nodup num ord createdAt s
  rw [(restore_spec num _ activeWindow h).mapAt]
  refine Option.ext fun m => ?_
  simp only [Option.map_eq_some_iff, find?_key_eq_some hnodup, mem_snapshot_maps,
    Stores.mapAt_eq_some]
  constructor
  · rintro ⟨r, ⟨⟨id, m₀, hm₀, rfl⟩, rfl⟩, rfl⟩
    exact ⟨m₀, ⟨id, hm₀, rfl⟩, rfl⟩
  · rintro ⟨m₀, ⟨id, hm₀, rfl⟩, rfl⟩
    exact ⟨mapRecord m₀, ⟨⟨id, m₀, hm₀, rfl⟩, rfl⟩, rfl⟩

/-- The restored executables are listed in the order of the old ones. -/
theorem keys_restart : t.exes.keys = s.exes.keys :=
  ((restore_spec num _ activeWindow h).keys (snapshot_exes_nodup num ord createdAt s)).trans
    (snapshot_exes_keys num ord createdAt s)

theorem idByKey_restart (key : ExeKey) :
    (∃ id, t.exes.idByKey key = some id) ↔ ∃ id, s.exes.idByKey key = some id := by
  rw [← ExeStore.mem_keys, ← ExeStore.mem_keys, keys_restart h]

theorem maps_idByKey_restart (key : MapKey) :
    (∃ id, t.maps.idByKey key = some id) ↔ ∃ id, s.maps.idByKey key = some id := by
  have hsome : ∀ u : Stores F16, (∃ id, u.maps.idByKey key = some id) ↔ u.mapAt key ≠ none := by
    intro u
    rw [Stores.mapAt, ne_eq, KeyedStore.lookup_eq_none, ← ne_eq, Option.ne_none_iff_exists']
  rw [hsome, hsome, mapAt_restart h, ne_eq, ne_eq, Option.map_eq_none_iff]

theorem relAt_restart (p : Path) (key : MapKey) : t.relAt p key ↔ s.relAt p key := by
  unfold Stores.relAt
  simp only [(restore_spec num _ activeWindow h).rel, mem_snapshot_exeMaps]
  constructor
  · rintro ⟨e', m', he', hm', r, ⟨e, exe, m, map, he, hrel, hm, rfl⟩, hre, hrm⟩
    have hp : (⟨p⟩ : ExeKey) = exe.key := ExeStore.idByKey_inj he' hre
    have hk : key = map.key := KeyedStore.idByKey_inj hm' hrm
    exact ⟨e, m, hp ▸ ExeStore.idByKey_of_get? he, hk ▸ KeyedStore.idByKey_of_get? hm, hrel⟩
  · rintro ⟨e, m, he, hm, hrel⟩
    obtain ⟨e', he'⟩ := (idByKey_restart h ⟨p⟩).2 ⟨e, he⟩
    obtain ⟨m', hm'⟩ := (maps_idByKey_restart h key).2 ⟨m, hm⟩
    obtain ⟨exe, hexe, hp⟩ := ExeStore.idByKey_eq_some.1 he
    obtain ⟨map, hmap, hk⟩ := KeyedStore.idByKey_eq_some.1 hm
    refine ⟨e', m', he', hm', _, ⟨e, exe, m, map, hexe, hrel, hmap, rfl⟩, ?_, ?_⟩
    · rw [← he', ← hp]
    · rw [← hm', ← hk]

/-- An active executable of the restored stores is one that was recent. -/
theorem mem_active_restart {p : Path} {id : ExeId} (hid : t.exes.idByKey ⟨p⟩ = some id) :
    id ∈ t.active.exes ↔ s.isRecentAt activeWindow p = true := by
  obtain ⟨e, he, hkey⟩ := ExeStore.idByKey_eq_some.1 hid
  have hat : (s.exeAt p).map Exe.persisted = some e :=
    (exeAt_restart h p).symm.trans (Stores.exeAt_eq_some.2 ⟨id, he, hkey⟩)
  obtain ⟨e₀, he₀, rfl⟩ := Option.map_eq_some_iff.1 hat
  rw [ActiveSet.mem_exes, Stores.isRecentAt, he₀, Option.any_some]
  simp only [(restore_spec num _ activeWindow h).active, he, Option.any_some]
  have hsame : e₀.persisted.isRecent (snapshotFromStores num ord createdAt s).state.modelTime
      activeWindow = e₀.isRecent s.modelTime activeWindow := rfl
  rw [hsame]
  split <;> simp_all

omit h [Float32Ops F32] in
/-- The record of an edge resolves to the key of the edge. -/
theorem edgeKey_of_markovRecord {key : EdgeKey} {e : Edge F16} {r : MarkovRecord F32}
    (hr : markovRecord num s (key, e) = some r) : r.edgeKey s.exes = some key := by
  obtain ⟨x, y, hx, hy, rfl⟩ := (markovRecord_eq_some num s _ r).1 hr
  exact MarkovRecord.edgeKey_eq_some.2
    ⟨key.a, key.b, ExeStore.idByKey_of_get? hx, ExeStore.idByKey_of_get? hy, EdgeKey.new_a_b key⟩

omit h [Float32Ops F32] in
/-- What is restored from the record of an edge is the persisted part of the edge. -/
theorem edge_of_markovRecord {key : EdgeKey} {e : Edge F16} {r : MarkovRecord F32}
    (hr : markovRecord num s (key, e) = some r) (now : UInt64) :
    r.edge num now = e.persisted now := by
  obtain ⟨x, y, -, -, rfl⟩ := (markovRecord_eq_some num s _ r).1 hr
  simp [MarkovRecord.edge, Edge.restore, Edge.persisted, MarkovGraph.freshEdge,
    Edge.setTimeToLeaveF32, Edge.setTransitionProbF32, Edge.timeToLeaveF32,
    Edge.transitionProbF32, num.ofF32_toF32]

omit h in
variable (num ord createdAt) in
/-- The record that restores the edge of `a'` and `b'` is the one of the old edge between the same
    two paths. -/
theorem find?_record_restart {p q : Path} {a b a' b' : ExeId}
    (ha : s.exes.idByKey ⟨p⟩ = some a) (hb : s.exes.idByKey ⟨q⟩ = some b)
    (ha' : t.exes.idByKey ⟨p⟩ = some a') (hb' : t.exes.idByKey ⟨q⟩ = some b') (hs : s.WF) :
    ((snapshotFromStores num ord createdAt s).state.markovEdges.find? fun r =>
      r.edgeKey t.exes = some (EdgeKey.new a' b')).map (MarkovRecord.edge num s.modelTime) =
    (s.markov.get? (EdgeKey.new a b)).map (Edge.persisted s.modelTime) := by
  -- a record is found under the new key when it resolved to the old one
  have hkeys : ∀ r : MarkovRecord F32, r.edgeKey t.exes = some (EdgeKey.new a' b') ↔
      r.edgeKey s.exes = some (EdgeKey.new a b) := fun r =>
    (MarkovRecord.edgeKey_eq_new ha' hb').trans (MarkovRecord.edgeKey_eq_new ha hb).symm
  simp only [hkeys]
  cases hget : s.markov.get? (EdgeKey.new a b) with
  | none =>
      rw [Option.map_none, Option.map_eq_none_iff, List.find?_eq_none]
      intro r hr hkey
      obtain ⟨key, e, he, hrec⟩ := (mem_snapshot_markovEdges num ord createdAt s r).1 hr
      obtain rfl : key = EdgeKey.new a b :=
        Option.some.inj ((edgeKey_of_markovRecord hrec).symm.trans (by simpa using hkey))
      exact absurd (hget.symm.trans he) (by simp)
  | some e =>
      -- both ends are live, so the edge has a record
      obtain ⟨⟨x, hx⟩, y, hy⟩ := hs.edge_live _ (MarkovGraph.mem_keys_iff.2 ⟨e, hget⟩)
      have hrec := (markovRecord_eq_some num s (EdgeKey.new a b, e) _).2 ⟨x, y, hx, hy, rfl⟩
      have hr := (mem_snapshot_markovEdges num ord createdAt s _).2 ⟨_, e, hget, hrec⟩
      cases hfind : (snapshotFromStores num ord createdAt s).state.markovEdges.find? fun r =>
          r.edgeKey s.exes = some (EdgeKey.new a b) with
      | none =>
          rw [List.find?_eq_none] at hfind
          exact absurd (edgeKey_of_markovRecord hrec) (by simpa using hfind _ hr)
      | some r =>
          obtain ⟨key, e', he', hrec'⟩ :=
            (mem_snapshot_markovEdges num ord createdAt s r).1 (List.mem_of_find?_eq_some hfind)
          have hkey' := List.find?_some hfind
          obtain rfl : key = EdgeKey.new a b :=
            Option.some.inj ((edgeKey_of_markovRecord hrec').symm.trans (by simpa using hkey'))
          obtain rfl := Option.some.inj (hget.symm.trans he')
          rw [Option.map_some, Option.map_some, edge_of_markovRecord hrec']

theorem idByKey_restart_eq_none (key : ExeKey) :
    t.exes.idByKey key = none ↔ s.exes.idByKey key = none := by
  rw [← not_iff_not, ← ne_eq, ← ne_eq, Option.ne_none_iff_exists', Option.ne_none_iff_exists',
    idByKey_restart h]

/-- The order of two ids is kept, hence the side from which an edge is seen. -/
theorem seenFrom_restart {p q : Path} {a b a' b' : ExeId}
    (ha : s.exes.idByKey ⟨p⟩ = some a) (hb : s.exes.idByKey ⟨q⟩ = some b)
    (ha' : t.exes.idByKey ⟨p⟩ = some a') (hb' : t.exes.idByKey ⟨q⟩ = some b') (now : UInt64)
    (e : Edge F16) : (e.persisted now).seenFrom a' b' = (e.seenFrom a b).persisted now := by
  have horder : a' ≤ b' ↔ a ≤ b := by
    rw [← not_lt, ← not_lt, ExeStore.lt_iff_lt_of_keys (keys_restart h) hb' ha' hb ha]
  unfold Edge.seenFrom
  by_cases hle : a ≤ b
  · rw [if_pos hle, if_pos (horder.2 hle)]
  · rw [if_neg hle, if_neg (mt horder.1 hle)]
    rfl

/-- The edges between recent executables are restored. -/
theorem edge_restart {p q : Path} {a b a' b' : ExeId}
    (ha : s.exes.idByKey ⟨p⟩ = some a) (hb : s.exes.idByKey ⟨q⟩ = some b)
    (ha' : t.exes.idByKey ⟨p⟩ = some a') (hb' : t.exes.idByKey ⟨q⟩ = some b') (hs : s.WF) :
    t.markov.get? (EdgeKey.new a' b') =
      ((s.markov.get? (EdgeKey.new a b)).map (Edge.persisted s.modelTime)).filter
        fun _ => s.isRecentAt activeWindow p && s.isRecentAt activeWindow q := by
  have hactive : MarkovGraph.isActive t.active.exes (EdgeKey.new a' b') =
      (s.isRecentAt activeWindow p && s.isRecentAt activeWindow q) := by
    rw [Bool.eq_iff_iff, MarkovGraph.isActive_new, Bool.and_eq_true,
      mem_active_restart h ha', mem_active_restart h hb']
  rw [(restore_spec num _ activeWindow h).markov, ← hactive,
    ← find?_record_restart num ord createdAt ha hb ha' hb' hs]
  rfl

/-- Edges are restored between the same paths, seen from the same side. -/
theorem edgeAt_restart (hs : s.WF) (p q : Path) :
    t.edgeAt p q = ((s.edgeAt p q).filter fun _ =>
      s.isRecentAt activeWindow p && s.isRecentAt activeWindow q).map
        (Edge.persisted s.modelTime) := by
  unfold Stores.edgeAt
  cases ha : s.exes.idByKey ⟨p⟩ with
  | none =>
      rw [(idByKey_restart_eq_none h _).2 ha]
      rfl
  | some a =>
      obtain ⟨a', ha'⟩ := (idByKey_restart h _).2 ⟨a, ha⟩
      cases hb : s.exes.idByKey ⟨q⟩ with
      | none =>
          rw [ha', (idByKey_restart_eq_none h _).2 hb]
          rfl
      | some b =>
          obtain ⟨b', hb'⟩ := (idByKey_restart h _).2 ⟨b, hb⟩
          rw [ha', hb', Option.bind_some, Option.bind_some, Option.bind_some, Option.bind_some,
            edge_restart h ha hb ha' hb' hs]
          cases s.markov.get? (EdgeKey.new a b) with
          | none => rfl
          | some e =>
              rw [Option.map_some, Option.map_some, Option.filter_some, Option.filter_some]
              split
              · rw [Option.map_some, Option.map_some, seenFrom_restart h ha hb ha' hb']
              · rfl

theorem restart_spec (hs : s.WF) : RestartSpec s activeWindow t where
  modelTime := (restore_spec num _ activeWindow h).modelTime
  lastAccountingTime := (restore_spec num _ activeWindow h).lastAccountingTime
  exeAt := exeAt_restart h
  keys := keys_restart h
  mapAt := mapAt_restart h
  relAt := relAt_restart h
  active := (restore_spec num _ activeWindow h).active
  edgeAt := edgeAt_restart h hs

end Restart

/-- The active entry of a path after a restart. -/
theorem RestartSpec.activeAt {s t : Stores F16} {activeWindow : UInt64}
    (h : RestartSpec s activeWindow t) (p : Path) :
    t.activeAt p = if s.isRecentAt activeWindow p then some s.modelTime else none := by
  rw [Stores.activeAt, Stores.isRecentAt]
  cases hid : t.exes.idByKey ⟨p⟩ with
  | none =>
      have ht : t.exeAt p = none := ExeStore.lookup_eq_none.2 hid
      have hs : s.exeAt p = none := by
        rw [h.exeAt, Option.map_eq_none_iff] at ht
        exact ht
      rw [hs]
      rfl
  | some id =>
      obtain ⟨e, he, hkey⟩ := ExeStore.idByKey_eq_some.1 hid
      have hat : (s.exeAt p).map Exe.persisted = some e :=
        (h.exeAt p).symm.trans (Stores.exeAt_eq_some.2 ⟨id, he, hkey⟩)
      obtain ⟨e₀, he₀, rfl⟩ := Option.map_eq_some_iff.1 hat
      rw [Option.bind_some, h.active, he, he₀, Option.any_some, Option.any_some]
      rfl

end PreloadNg
