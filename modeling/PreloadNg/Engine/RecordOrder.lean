import Mathlib.Data.Sym.Sym2
import PreloadNg.Engine.WellFormed
import PreloadNg.Prediction.ScoresByPath

set_option autoImplicit false

/-! # The order of the records of a snapshot

Ids are given out in the order of the executable records, and the key of an edge lists the smaller
id first, while the statistics of the record are written as they are, with the roles of its
`exe_a` and `exe_b`. A record whose `exe_b` is listed before its `exe_a` is therefore restored with
the two roles exchanged; everything else is independent of the order. -/

namespace PreloadNg

variable {F16 F32 : Type}

/-! ## Snapshots and their reorderings -/

/-- The records have distinct paths, keys and unordered pairs of paths. -/
structure StateSnapshot.Distinct (state : StateSnapshot F32) : Prop where
  exes : (state.exes.map ExeRecord.path).Nodup
  maps : (state.maps.map MapRecord.key).Nodup
  markovEdges : (state.markovEdges.map fun r => s(r.exeA, r.exeB)).Nodup

/-- The same records in another order. -/
structure StateSnapshot.Reordered (state state' : StateSnapshot F32) : Prop where
  modelTime : state.modelTime = state'.modelTime
  lastAccountingTime : state.lastAccountingTime = state'.lastAccountingTime
  exes : state.exes.Perm state'.exes
  maps : state.maps.Perm state'.maps
  exeMaps : state.exeMaps.Perm state'.exeMaps
  markovEdges : state.markovEdges.Perm state'.markovEdges

/-- The executable of `p` is recorded as seen within the window before the model time. -/
def StateSnapshot.Recent (state : StateSnapshot F32) (activeWindow : UInt64) (p : Path) : Prop :=
  ∃ r ∈ state.exes, r.path = p ∧
    ∃ lastSeen, r.lastSeenTime = some lastSeen ∧ satSub state.modelTime lastSeen ≤ activeWindow

/-- The place of a path among the executable records. -/
def StateSnapshot.position (state : StateSnapshot F32) (p : Path) : ℕ :=
  (state.exes.map ExeRecord.path).idxOf p

/-- The stored statistics are the same in both roles. -/
def MarkovRecord.Symmetric (num : Numerics F16 F32) (r : MarkovRecord F32) : Prop :=
  (∀ i, num.ofF32 (r.timeToLeave (swapIndex i)) = num.ofF32 (r.timeToLeave i)) ∧
    ∀ i j, num.ofF32 (r.transitionProb (swapIndex i) (swapIndex j)) =
      num.ofF32 (r.transitionProb i j)

/-- No edge record between recent executables lists its `exe_a` after its `exe_b`, unless its
    statistics are symmetric. -/
def StateSnapshot.Aligned (num : Numerics F16 F32) (activeWindow : UInt64)
    (state : StateSnapshot F32) : Prop :=
  ∀ r ∈ state.markovEdges, state.Recent activeWindow r.exeA → state.Recent activeWindow r.exeB →
    state.position r.exeA ≤ state.position r.exeB ∨ r.Symmetric num

namespace StateSnapshot

variable {state state' : StateSnapshot F32}

theorem Distinct.reordered (hd : state.Distinct) (h : state.Reordered state') :
    state'.Distinct where
  exes := (h.exes.map _).nodup_iff.1 hd.exes
  maps := (h.maps.map _).nodup_iff.1 hd.maps
  markovEdges := (h.markovEdges.map _).nodup_iff.1 hd.markovEdges

theorem Reordered.resolves_iff (h : state.Reordered state') : state.Resolves ↔ state'.Resolves := by
  have hexe : ∀ p, p ∈ state.exes.map ExeRecord.path ↔ p ∈ state'.exes.map ExeRecord.path :=
    fun p => (h.exes.map _).mem_iff
  have hmap : ∀ key, key ∈ state.maps.map MapRecord.key ↔ key ∈ state'.maps.map MapRecord.key :=
    fun key => (h.maps.map _).mem_iff
  constructor
  · intro hres
    refine ⟨fun r hr => ?_, fun r hr => ?_⟩
    · have hr' := hres.exeMaps r (h.exeMaps.mem_iff.2 hr)
      exact ⟨(hexe _).1 hr'.1, (hmap _).1 hr'.2⟩
    · have hr' := hres.markovEdges r (h.markovEdges.mem_iff.2 hr)
      exact ⟨(hexe _).1 hr'.1, (hexe _).1 hr'.2⟩
  · intro hres
    refine ⟨fun r hr => ?_, fun r hr => ?_⟩
    · have hr' := hres.exeMaps r (h.exeMaps.mem_iff.1 hr)
      exact ⟨(hexe _).2 hr'.1, (hmap _).2 hr'.2⟩
    · have hr' := hres.markovEdges r (h.markovEdges.mem_iff.1 hr)
      exact ⟨(hexe _).2 hr'.1, (hexe _).2 hr'.2⟩

theorem Reordered.recent_iff (h : state.Reordered state') (activeWindow : UInt64) (p : Path) :
    state.Recent activeWindow p ↔ state'.Recent activeWindow p := by
  unfold Recent
  simp only [h.exes.mem_iff, h.modelTime]

end StateSnapshot

/-! ## What is restored, by path -/

section Restored

variable {num : Numerics F16 F32} {snapshot : StoresSnapshot F32} {activeWindow : UInt64}
  {t : Stores F16} (h : RestoreSpec num snapshot activeWindow t) (hd : snapshot.state.Distinct)

include h hd

theorem RestoreSpec.exeAt_distinct (p : Path) :
    t.exeAt p = (snapshot.state.exes.find? fun r => r.path = p).map fun r =>
      (Exe.new ⟨p⟩).restore r := by
  rw [h.exeAt, lookup_restoreExes hd.exes]

/-- The recorded paths are the stored ones. -/
theorem RestoreSpec.exists_id_iff (p : Path) :
    (∃ id, t.exes.idByKey ⟨p⟩ = some id) ↔ p ∈ snapshot.state.exes.map ExeRecord.path := by
  rw [← ExeStore.mem_keys, h.keys hd.exes]
  simp

theorem RestoreSpec.recent_iff {p : Path} {id : ExeId} (hid : t.exes.idByKey ⟨p⟩ = some id) :
    id ∈ t.active.exes ↔ snapshot.state.Recent activeWindow p := by
  obtain ⟨e, he, hkey⟩ := ExeStore.idByKey_eq_some.1 hid
  have hat := h.exeAt_distinct hd p
  rw [Stores.exeAt_eq_some.2 ⟨id, he, hkey⟩, eq_comm, Option.map_eq_some_iff] at hat
  obtain ⟨r, hfind, rfl⟩ := hat
  obtain ⟨hr, hpath⟩ := (find?_key_eq_some hd.exes).1 hfind
  have hrecent : ((Exe.new ⟨p⟩).restore r).isRecent snapshot.state.modelTime activeWindow = true ↔
      ∃ lastSeen, r.lastSeenTime = some lastSeen ∧
        satSub snapshot.state.modelTime lastSeen ≤ activeWindow := by
    have hlast : ((Exe.new ⟨p⟩).restore r).lastSeenTime = r.lastSeenTime := rfl
    unfold Exe.isRecent
    rw [hlast]
    cases r.lastSeenTime <;> simp
  rw [ActiveSet.mem_exes]
  simp only [h.active, he, Option.any_some]
  constructor
  · intro ⟨last, hlast⟩
    split at hlast
    · next hyes => exact ⟨r, hr, hpath, hrecent.1 hyes⟩
    · exact absurd hlast (by simp)
  · intro ⟨r', hr', hpath', hseen⟩
    -- the record of the path is unique
    have hsame := (find?_key_eq_some hd.exes).2 ⟨hr', hpath'⟩
    obtain rfl := Option.some.inj (hfind.symm.trans hsame)
    exact ⟨_, if_pos (hrecent.2 hseen)⟩

theorem RestoreSpec.activeAt (p : Path) (last : UInt64) :
    t.activeAt p = some last ↔
      snapshot.state.Recent activeWindow p ∧ last = snapshot.state.modelTime := by
  constructor
  · intro hat
    obtain ⟨id, hid, hseen⟩ := Stores.activeAt_eq_some.1 hat
    refine ⟨(h.recent_iff hd hid).1 ((ActiveSet.mem_exes _ id).2 ⟨last, hseen⟩), ?_⟩
    rw [h.active] at hseen
    split at hseen
    · exact (Option.some.inj hseen).symm
    · exact absurd hseen (by simp)
  · rintro ⟨hrecent, rfl⟩
    have ⟨r, hr, hpath, _⟩ := hrecent
    obtain ⟨id, hid⟩ := (h.exists_id_iff hd p).2 (List.mem_map.2 ⟨r, hr, hpath⟩)
    obtain ⟨last, hseen⟩ := (ActiveSet.mem_exes _ id).1 ((h.recent_iff hd hid).2 hrecent)
    refine Stores.activeAt_eq_some.2 ⟨id, hid, ?_⟩
    rw [h.active] at hseen ⊢
    split at hseen
    · next hyes => rw [if_pos hyes]
    · exact absurd hseen (by simp)

/-- Ids are ordered as the records of their paths. -/
theorem RestoreSpec.id_le_iff {p q : Path} {a b : ExeId} (ha : t.exes.idByKey ⟨p⟩ = some a)
    (hb : t.exes.idByKey ⟨q⟩ = some b) :
    a ≤ b ↔ snapshot.state.position p ≤ snapshot.state.position q := by
  have hplace : ∀ {p : Path} {a : ExeId}, t.exes.idByKey ⟨p⟩ = some a →
      t.exes.keys[snapshot.state.position p]? = some ⟨p⟩ := by
    intro p a ha
    have hmem := (h.exists_id_iff hd p).1 ⟨a, ha⟩
    have hlt := List.idxOf_lt_length_iff.2 hmem
    have hget := List.getElem?_eq_getElem hlt
    rw [List.getElem_idxOf hlt] at hget
    have hkeys : t.exes.keys = (snapshot.state.exes.map ExeRecord.path).map ExeKey.mk := by
      rw [h.keys hd.exes, List.map_map]
      rfl
    rw [hkeys, List.getElem?_map]
    exact congrArg (Option.map ExeKey.mk) hget
  rw [← not_lt, ← not_lt, ExeStore.lt_iff_of_keys (hplace hb) (hplace ha) hb ha]

/-- The edge of a record is restored when both executables are recent, and is read from `exe_a` as
    the ids are ordered. -/
theorem RestoreSpec.edgeAt_record {r : MarkovRecord F32} (hr : r ∈ snapshot.state.markovEdges)
    {a b : ExeId} (ha : t.exes.idByKey ⟨r.exeA⟩ = some a) (hb : t.exes.idByKey ⟨r.exeB⟩ = some b)
    (e : Edge F16) :
    t.edgeAt r.exeA r.exeB = some e ↔
      snapshot.state.Recent activeWindow r.exeA ∧ snapshot.state.Recent activeWindow r.exeB ∧
        (r.edge num snapshot.state.modelTime).seenFrom a b = e := by
  have hkey : r.edgeKey t.exes = some (EdgeKey.new a b) :=
    MarkovRecord.edgeKey_eq_some.2 ⟨a, b, ha, hb, rfl⟩
  -- no other record has the key
  have hfind : (snapshot.state.markovEdges.find? fun r' =>
      r'.edgeKey t.exes = some (EdgeKey.new a b)) = some r := by
    have hsome : (snapshot.state.markovEdges.find? fun r' =>
        r'.edgeKey t.exes = some (EdgeKey.new a b)).isSome :=
      List.find?_isSome.2 ⟨r, hr, by simpa using hkey⟩
    obtain ⟨r', hr'⟩ := Option.isSome_iff_exists.1 hsome
    have hkey' : r'.edgeKey t.exes = some (EdgeKey.new a b) := by
      simpa using List.find?_some hr'
    have hpair : s(r'.exeA, r'.exeB) = s(r.exeA, r.exeB) :=
      Sym2.eq_iff.2 ((MarkovRecord.edgeKey_eq_new ha hb).1 hkey')
    rw [hr', List.inj_on_of_nodup_map hd.markovEdges (List.mem_of_find?_eq_some hr') hr hpair]
  have hactive : MarkovGraph.isActive t.active.exes (EdgeKey.new a b) = true ↔
      snapshot.state.Recent activeWindow r.exeA ∧
        snapshot.state.Recent activeWindow r.exeB := by
    rw [← h.recent_iff hd ha, ← h.recent_iff hd hb, MarkovGraph.isActive_new]
  rw [Stores.edgeAt, ha, hb, Option.bind_some, Option.bind_some, h.markov, hfind, Option.map_some,
    Option.filter_some, ← and_assoc, ← hactive]
  split
  · next hyes => simp [hyes]
  · next hno => simp [hno]

omit hd in
/-- An edge between two paths has a record. -/
theorem RestoreSpec.record_of_edgeAt {p q : Path} {e : Edge F16} (he : t.edgeAt p q = some e) :
    ∃ r ∈ snapshot.state.markovEdges,
      (r.exeA = p ∧ r.exeB = q) ∨ (r.exeA = q ∧ r.exeB = p) := by
  obtain ⟨a, b, e₀, ha, hb, hget, -⟩ := Stores.edgeAt_eq_some.1 he
  obtain ⟨⟨r, hr, hkey⟩, -⟩ := h.edge_origin (MarkovGraph.mem_keys_iff.2 ⟨e₀, hget⟩)
  exact ⟨r, hr, (MarkovRecord.edgeKey_eq_new ha hb).1 hkey⟩

end Restored

/-! ## Roles -/

/-- The edge of a record with symmetric statistics looks the same from both sides. -/
theorem MarkovRecord.swapRoles_edge_iff (num : Numerics F16 F32) (now : UInt64)
    (r : MarkovRecord F32) :
    (r.edge num now).swapRoles = r.edge num now ↔ r.Symmetric num := by
  constructor
  · intro hswap
    have htime := congrArg Edge.timeToLeave hswap
    have hprob := congrArg Edge.transitionProb hswap
    exact ⟨fun i => congrFun htime i, fun i j => congrFun (congrFun hprob i) j⟩
  · intro ⟨htime, hprob⟩
    have htime' := funext htime
    have hprob' := funext fun i => funext (hprob i)
    unfold MarkovRecord.edge Edge.restore Edge.swapRoles Edge.setTimeToLeaveF32
      Edge.setTransitionProbF32 MarkovGraph.freshEdge
    dsimp only
    rw [htime', hprob']
    rfl

/-- Every restored edge carries the statistics of its record, in the record's roles. -/
def CarriesRecords (num : Numerics F16 F32) (state : StateSnapshot F32) (t : Stores F16) : Prop :=
  ∀ r ∈ state.markovEdges, ∀ e, t.edgeAt r.exeA r.exeB = some e →
    (∀ i, e.timeToLeave i = num.ofF32 (r.timeToLeave i)) ∧
      ∀ i j, e.transitionProb i j = num.ofF32 (r.transitionProb i j)

section Roles

variable {num : Numerics F16 F32} {snapshot : StoresSnapshot F32} {activeWindow : UInt64}
  {t : Stores F16} (h : RestoreSpec num snapshot activeWindow t)
  (hd : snapshot.state.Distinct) (hres : snapshot.state.Resolves)

include h hd hres

/-- The ids of the endpoints of a record. -/
theorem RestoreSpec.exists_ids {r : MarkovRecord F32} (hr : r ∈ snapshot.state.markovEdges) :
    ∃ a b, t.exes.idByKey ⟨r.exeA⟩ = some a ∧ t.exes.idByKey ⟨r.exeB⟩ = some b := by
  obtain ⟨hexeA, hexeB⟩ := hres.markovEdges r hr
  obtain ⟨a, ha⟩ := (h.exists_id_iff hd r.exeA).2 hexeA
  obtain ⟨b, hb⟩ := (h.exists_id_iff hd r.exeB).2 hexeB
  exact ⟨a, b, ha, hb⟩

/-- In an aligned snapshot every edge is read from `exe_a` as its record says. -/
theorem RestoreSpec.edgeAt_aligned (haligned : snapshot.state.Aligned num activeWindow)
    {r : MarkovRecord F32} (hr : r ∈ snapshot.state.markovEdges) (e : Edge F16) :
    t.edgeAt r.exeA r.exeB = some e ↔
      snapshot.state.Recent activeWindow r.exeA ∧ snapshot.state.Recent activeWindow r.exeB ∧
        r.edge num snapshot.state.modelTime = e := by
  obtain ⟨a, b, ha, hb⟩ := h.exists_ids hd hres hr
  rw [h.edgeAt_record hd hr ha hb]
  refine and_congr_right fun hrecA => and_congr_right fun hrecB => ?_
  have hseen : (r.edge num snapshot.state.modelTime).seenFrom a b =
      r.edge num snapshot.state.modelTime := by
    unfold Edge.seenFrom
    rcases haligned r hr hrecA hrecB with hle | hsymm
    · rw [if_pos ((h.id_le_iff hd ha hb).2 hle)]
    · rw [(r.swapRoles_edge_iff num _).2 hsymm, ite_self]
  rw [hseen]

/-- The statistics keep their roles exactly in the aligned snapshots. -/
theorem RestoreSpec.carries_iff :
    CarriesRecords num snapshot.state t ↔ snapshot.state.Aligned num activeWindow := by
  constructor
  · intro hcarries r hr hrecA hrecB
    obtain ⟨a, b, ha, hb⟩ := h.exists_ids hd hres hr
    by_cases hle : a ≤ b
    · exact Or.inl ((h.id_le_iff hd ha hb).1 hle)
    · -- the edge is read with its roles exchanged
      have hedge := (h.edgeAt_record hd hr ha hb _).2 ⟨hrecA, hrecB, rfl⟩
      rw [Edge.seenFrom, if_neg hle] at hedge
      exact Or.inr (hcarries r hr _ hedge)
  · intro haligned r hr e he
    obtain ⟨-, -, rfl⟩ := (h.edgeAt_aligned hd hres haligned hr e).1 he
    exact ⟨fun _ => rfl, fun _ _ => rfl⟩

/-- The relation is read off the records. -/
theorem RestoreSpec.relAt_iff (p : Path) (key : MapKey) :
    t.relAt p key ↔ ∃ r ∈ snapshot.state.exeMaps, r.exePath = p ∧ r.mapKey = key := by
  unfold Stores.relAt
  constructor
  · intro ⟨e, m, he, hm, hrel⟩
    obtain ⟨r, hr, he', hm'⟩ := (h.rel e m).1 hrel
    exact ⟨r, hr, congrArg ExeKey.path (ExeStore.idByKey_inj he' he),
      KeyedStore.idByKey_inj hm' hm⟩
  · rintro ⟨r, hr, rfl, rfl⟩
    obtain ⟨hexe, hmap⟩ := hres.exeMaps r hr
    obtain ⟨e, he⟩ := (h.exists_id_iff hd r.exePath).2 hexe
    have hstored : t.maps.idByKey r.mapKey ≠ none := by
      rw [ne_eq, ← KeyedStore.lookup_eq_none]
      obtain ⟨r', hr', hkey'⟩ := List.mem_map.1 hmap
      have hat := h.mapAt r.mapKey
      rw [(find?_key_eq_some hd.maps).2 ⟨hr', hkey'⟩] at hat
      rw [show t.maps.lookup r.mapKey = _ from hat]
      simp
    obtain ⟨m, hm⟩ := Option.ne_none_iff_exists'.1 hstored
    exact ⟨e, m, he, hm, (h.rel e m).2 ⟨r, hr, he, hm⟩⟩

end Roles

/-- An edge read from the other side. -/
theorem Stores.edgeAt_comm (t : Stores F16) {p q : Path} (hne : p ≠ q) :
    t.edgeAt q p = (t.edgeAt p q).map Edge.swapRoles := by
  unfold Stores.edgeAt
  cases ha : t.exes.idByKey ⟨p⟩ with
  | none =>
      rw [Option.bind_none, Option.map_none]
      cases t.exes.idByKey ⟨q⟩ <;> rfl
  | some a =>
      cases hb : t.exes.idByKey ⟨q⟩ with
      | none => rfl
      | some b =>
          have hab : a ≠ b := by
            rintro rfl
            exact hne (congrArg ExeKey.path (ExeStore.idByKey_inj ha hb))
          rw [Option.bind_some, Option.bind_some, Option.bind_some, Option.bind_some,
            EdgeKey.new_comm b a, Option.map_map]
          exact congrArg (Option.map · _) (funext fun e => Edge.seenFrom_comm hab e)

section Reordered

variable {num : Numerics F16 F32} {snapshot snapshot' : StoresSnapshot F32} {activeWindow : UInt64}
  {t t' : Stores F16} (h : RestoreSpec num snapshot activeWindow t)
  (h' : RestoreSpec num snapshot' activeWindow t') (hd : snapshot.state.Distinct)
  (hre : snapshot.state.Reordered snapshot'.state) (hres : snapshot.state.Resolves)
  (haligned : snapshot.state.Aligned num activeWindow)
  (haligned' : snapshot'.state.Aligned num activeWindow)

include h h' hd hre hres haligned haligned'

/-- The edge of a record is the same in both stores. -/
theorem edgeAt_reordered_record {r : MarkovRecord F32} (hr : r ∈ snapshot.state.markovEdges) :
    t.edgeAt r.exeA r.exeB = t'.edgeAt r.exeA r.exeB := by
  refine Option.ext fun e => ?_
  rw [h.edgeAt_aligned hd hres haligned hr,
    h'.edgeAt_aligned (hd.reordered hre) (hre.resolves_iff.1 hres) haligned'
      (hre.markovEdges.mem_iff.1 hr),
    hre.recent_iff, hre.recent_iff, hre.modelTime]

theorem edgeAt_reordered (p q : Path) : t.edgeAt p q = t'.edgeAt p q := by
  by_cases hrecord : ∃ r ∈ snapshot.state.markovEdges,
      (r.exeA = p ∧ r.exeB = q) ∨ (r.exeA = q ∧ r.exeB = p)
  · obtain ⟨r, hr, hpaths⟩ := hrecord
    have hsame := edgeAt_reordered_record h h' hd hre hres haligned haligned' hr
    rcases hpaths with ⟨rfl, rfl⟩ | ⟨rfl, rfl⟩
    · exact hsame
    · by_cases hloop : r.exeA = r.exeB
      · rw [← hloop] at hsame ⊢
        exact hsame
      · rw [t.edgeAt_comm hloop, t'.edgeAt_comm hloop, hsame]
  · -- a pair without a record has no edge
    have hnone : t.edgeAt p q = none := by
      rw [Option.eq_none_iff_forall_ne_some]
      intro e he
      exact hrecord (h.record_of_edgeAt he)
    have hnone' : t'.edgeAt p q = none := by
      rw [Option.eq_none_iff_forall_ne_some]
      intro e he
      obtain ⟨r, hr, hpaths⟩ := h'.record_of_edgeAt he
      exact hrecord ⟨r, hre.markovEdges.mem_iff.2 hr, hpaths⟩
    rw [hnone, hnone']

theorem sameByPath_reordered : t.SameByPath t' where
  modelTime := by rw [h.modelTime, h'.modelTime, hre.modelTime]
  lastAccountingTime := by
    rw [h.lastAccountingTime, h'.lastAccountingTime, hre.lastAccountingTime]
  exeAt p := by
    rw [h.exeAt_distinct hd, h'.exeAt_distinct (hd.reordered hre),
      find?_key_eq_of_perm hre.exes hd.exes]
  mapAt key := by rw [h.mapAt, h'.mapAt, find?_key_eq_of_perm hre.maps hd.maps]
  relAt p key := by
    rw [h.relAt_iff hd hres, h'.relAt_iff (hd.reordered hre) (hre.resolves_iff.1 hres)]
    simp only [hre.exeMaps.mem_iff]
  activeAt p := by
    refine Option.ext fun last => ?_
    rw [h.activeAt hd, h'.activeAt (hd.reordered hre), hre.recent_iff, hre.modelTime]
  edgeAt := edgeAt_reordered h h' hd hre hres haligned haligned'

end Reordered

/-! ## Independence of the order -/

section Independence

variable {K : Type} [Field K] [LinearOrder K]

/-- Restoring the two snapshots fails for both, or gives stores that are equal by path, whose edges
    carry the statistics of their records, and in which every executable and every map has the same
    score. -/
structure RestoredAlike (num : Numerics F16 K) (activeWindow : UInt64)
    (snapshot snapshot' : StoresSnapshot K) : Prop where
  outcome : (∃ t : Stores F16, storesFromSnapshot num snapshot activeWindow = .ok t) ↔
    ∃ t' : Stores F16, storesFromSnapshot num snapshot' activeWindow = .ok t'
  stores : ∀ t t' : Stores F16, storesFromSnapshot num snapshot activeWindow = .ok t →
    storesFromSnapshot num snapshot' activeWindow = .ok t' → t.SameByPath t'
  statistics : ∀ t : Stores F16, storesFromSnapshot num snapshot activeWindow = .ok t →
    CarriesRecords num snapshot.state t
  statistics' : ∀ t' : Stores F16, storesFromSnapshot num snapshot' activeWindow = .ok t' →
    CarriesRecords num snapshot'.state t'
  scores : ∀ t t' : Stores F16, storesFromSnapshot num snapshot activeWindow = .ok t →
    storesFromSnapshot num snapshot' activeWindow = .ok t' →
    ∀ (predictor : MarkovPredictor K) (ord ord' : HashOrder),
      (∀ p, (predictor.predict num ord t).exeScoreAt t p =
        (predictor.predict num ord' t').exeScoreAt t' p) ∧
      ∀ key, (predictor.predict num ord t).mapScoreAt t key =
        (predictor.predict num ord' t').mapScoreAt t' key

/-- A snapshot with distinct records and a reordering of it are restored alike exactly when both
    refer to something they do not record, or both are aligned. -/
theorem restoredAlike_iff [IsStrictOrderedRing K] (num : Numerics F16 K) (activeWindow : UInt64)
    {snapshot snapshot' : StoresSnapshot K} (hd : snapshot.state.Distinct)
    (hre : snapshot.state.Reordered snapshot'.state) :
    RestoredAlike num activeWindow snapshot snapshot' ↔
      (snapshot.state.Resolves →
        snapshot.state.Aligned num activeWindow ∧ snapshot'.state.Aligned num activeWindow) := by
  have hd' := hd.reordered hre
  constructor
  · intro halike hres
    have hres' := hre.resolves_iff.1 hres
    obtain ⟨t, ht⟩ := (storesFromSnapshot_isOk_iff num snapshot activeWindow).2 hres
    obtain ⟨t', ht'⟩ := (storesFromSnapshot_isOk_iff num snapshot' activeWindow).2 hres'
    exact ⟨((restore_spec num _ _ ht).carries_iff hd hres).1 (halike.statistics t ht),
      ((restore_spec num _ _ ht').carries_iff hd' hres').1 (halike.statistics' t' ht')⟩
  · intro haligned
    have hresolves : ∀ t : Stores F16, storesFromSnapshot num snapshot activeWindow = .ok t →
        snapshot.state.Resolves :=
      fun t ht => (storesFromSnapshot_isOk_iff num snapshot activeWindow).1 ⟨t, ht⟩
    have hresolves' : ∀ t' : Stores F16, storesFromSnapshot num snapshot' activeWindow = .ok t' →
        snapshot'.state.Resolves :=
      fun t' ht' => (storesFromSnapshot_isOk_iff num snapshot' activeWindow).1 ⟨t', ht'⟩
    have hstores : ∀ t t' : Stores F16, storesFromSnapshot num snapshot activeWindow = .ok t →
        storesFromSnapshot num snapshot' activeWindow = .ok t' → t.SameByPath t' := by
      intro t t' ht ht'
      have hres := hresolves t ht
      exact sameByPath_reordered (restore_spec num _ _ ht) (restore_spec num _ _ ht') hd hre hres
        (haligned hres).1 (haligned hres).2
    refine ⟨?_, hstores, ?_, ?_, ?_⟩
    · rw [storesFromSnapshot_isOk_iff, storesFromSnapshot_isOk_iff, hre.resolves_iff]
    · intro t ht
      have hres := hresolves t ht
      exact ((restore_spec num _ _ ht).carries_iff hd hres).2 (haligned hres).1
    · intro t' ht'
      have hres' := hresolves' t' ht'
      exact ((restore_spec num _ _ ht').carries_iff hd' hres').2
        (haligned (hre.resolves_iff.2 hres')).2
    · intro t t' ht ht' predictor ord ord'
      have hsame := hstores t t' ht ht'
      have hlinked := (restore_spec num _ _ ht).linked
      have hlinked' := (restore_spec num _ _ ht').linked
      exact ⟨hsame.agrees.exeScoreAt num predictor hlinked hlinked' ord ord',
        hsame.agrees.mapScoreAt num predictor hlinked hlinked' ord ord'⟩

/-- The score of a path in the stores that a snapshot restores to. -/
def restoredScore (num : Numerics F16 K) (activeWindow : UInt64) (predictor : MarkovPredictor K)
    (snapshot : StoresSnapshot K) (p : Path) : Option F16 :=
  (storesFromSnapshot num snapshot activeWindow).toOption.bind fun t =>
    (predictor.predict num .insertion t).exeScoreAt t p

theorem RestoredAlike.restoredScore {num : Numerics F16 K} {activeWindow : UInt64}
    {snapshot snapshot' : StoresSnapshot K} (h : RestoredAlike num activeWindow snapshot snapshot')
    (predictor : MarkovPredictor K) (p : Path) :
    restoredScore num activeWindow predictor snapshot p =
      restoredScore num activeWindow predictor snapshot' p := by
  unfold PreloadNg.restoredScore
  cases ht : (storesFromSnapshot num snapshot activeWindow : Except Error (Stores F16)) with
  | error err =>
      cases ht' : (storesFromSnapshot num snapshot' activeWindow : Except Error (Stores F16)) with
      | error err' => rfl
      | ok t' =>
          obtain ⟨t, hok⟩ := h.outcome.2 ⟨t', ht'⟩
          exact absurd (ht.symm.trans hok) (by simp)
  | ok t =>
      obtain ⟨t', ht'⟩ := h.outcome.1 ⟨t, ht⟩
      rw [ht']
      exact (h.scores t t' ht ht' predictor .insertion .insertion).1 p

end Independence

/-- A snapshot of executables that ran ten seconds ago, and of an edge between the first two from
    which only `/bin/a` is likely to start. -/
def recordedSnapshot (exes : List String) : StoresSnapshot ℚ where
  info := SnapshotMeta.initial
  state :=
    { modelTime := 20
      lastAccountingTime := 20
      exes := exes.map fun p => ⟨Path.ofString p, 0, some 10⟩
      maps := []
      exeMaps := []
      markovEdges := [
        { exeA := Path.ofString "/bin/a"
          exeB := Path.ofString "/bin/b"
          timeToLeave := fun _ => 1
          transitionProb := fun i j => if i = 0 ∧ j = 1 then 1 / 2 else 0
          bothRunningTime := 0 }] }

/-- Exact arithmetic with an exponential that is `0` below `-87`, as in the code, and `1` above; the
    smallest score is that of the code. -/
def Numerics.fading : Numerics ℚ ℚ :=
  Numerics.exact ℚ (fun x => if x < -87 then 0 else 1) id 0 (1 / 1000000)

/-- Listing a third executable first does not matter. -/
theorem restoredAlike_third_first :
    RestoredAlike Numerics.fading 100 (recordedSnapshot ["/bin/a", "/bin/b", "/bin/c"])
      (recordedSnapshot ["/bin/c", "/bin/a", "/bin/b"]) := by
  refine (restoredAlike_iff Numerics.fading 100 ?_ ?_).2 fun _ => ?_
  · exact ⟨by decide, List.nodup_nil, List.nodup_singleton _⟩
  · exact ⟨rfl, rfl, by decide, .refl _, .refl _, .refl _⟩
  · constructor
    · intro r hr _ _
      obtain rfl := List.mem_singleton.1 hr
      exact Or.inl (by decide +kernel)
    · intro r hr _ _
      obtain rfl := List.mem_singleton.1 hr
      exact Or.inl (by decide +kernel)

/-- With `/bin/b` listed first the edge is restored with its roles exchanged, and `/bin/a` is no
    longer expected to start. -/
theorem roles_exchanged_by_order :
    (recordedSnapshot ["/bin/a", "/bin/b"]).state.Distinct ∧
      (recordedSnapshot ["/bin/a", "/bin/b"]).state.Reordered
        (recordedSnapshot ["/bin/b", "/bin/a"]).state ∧
      ¬ RestoredAlike Numerics.fading 100 (recordedSnapshot ["/bin/a", "/bin/b"])
        (recordedSnapshot ["/bin/b", "/bin/a"]) := by
  refine ⟨?_, ?_, ?_⟩
  · exact ⟨by decide, List.nodup_nil, List.nodup_singleton _⟩
  · exact ⟨rfl, rfl, .swap _ _ _, .refl _, .refl _, .refl _⟩
  · intro halike
    have hscore := halike.restoredScore ⟨false, 100⟩ (Path.ofString "/bin/a")
    have hsaved : restoredScore Numerics.fading 100 ⟨false, 100⟩
        (recordedSnapshot ["/bin/a", "/bin/b"]) (Path.ofString "/bin/a") = some (1 / 2) := by
      decide +kernel
    have hother : restoredScore Numerics.fading 100 ⟨false, 100⟩
        (recordedSnapshot ["/bin/b", "/bin/a"]) (Path.ofString "/bin/a") = some (1 / 1000000) := by
      decide +kernel
    rw [hsaved, hother] at hscore
    exact absurd hscore (by decide +kernel)

end PreloadNg
