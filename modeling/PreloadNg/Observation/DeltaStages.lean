import Mathlib.Data.Sym.Sym2
import PreloadNg.Lib.Journal
import PreloadNg.Observation.AdmittedMaps

set_option autoImplicit false

/-! # What the stages report

Each stage of `apply` extends some lists of the delta: admission those of the new executables and
maps, the running flags those of what started and stopped, the loop over the active pairs that of
the new edges. -/

namespace PreloadNg

variable {F16 : Type}

/-! ## Admission -/

/-- The new executables of the delta are those that were stored. -/
abbrev ExesReported : Applying F16 → Applying F16 → Prop :=
  Journaled (fun st => st.delta.newExes) fun st key => st.stores.exes.idByKey key ≠ none

/-- The new maps of the delta are those that were stored. -/
abbrev MapsReported : Applying F16 → Applying F16 → Prop :=
  Journaled (fun st => st.delta.newMaps) fun st key => st.stores.mapAt key ≠ none

section Admission

variable (now : UInt64) (runningPaths : FxHashSet Path)

/-- The state in which the maps of an accepted candidate are admitted, with its delta. -/
theorem acceptCandidate_stages (st : Applying F16) (c : CandidateExe)
    (completeness : Completeness) :
    ∃ st₁ : Applying F16, st₁.stores = (touchExe now st.stores ⟨c.path⟩).1 ∧
      (∃ partialExes, st₁.delta =
        { st.delta with
          newExes :=
            if st.stores.exes.idByKey ⟨c.path⟩ = none then st.delta.newExes ++ [⟨c.path⟩]
            else st.delta.newExes
          partialExes := partialExes }) ∧
      (acceptCandidate now runningPaths st c completeness).stores =
        (c.maps.foldl (admitMap (st.stores.exes.ensure ⟨c.path⟩).2) st₁).stores ∧
      (acceptCandidate now runningPaths st c completeness).delta =
        (c.maps.foldl (admitMap (st.stores.exes.ensure ⟨c.path⟩).2) st₁).delta := by
  refine ⟨⟨(touchExe now st.stores ⟨c.path⟩).1, _, st.activeExeIds⟩, rfl, ?_, rfl, rfl⟩
  dsimp only
  simp only [Option.isNone_iff_eq_none]
  by_cases hnew : st.stores.exes.idByKey ⟨c.path⟩ = none
  · simp only [if_pos hnew]
    split
    · exact ⟨_, rfl⟩
    · exact ⟨st.delta.partialExes, rfl⟩
  · simp only [if_neg hnew]
    split
    · exact ⟨_, rfl⟩
    · exact ⟨st.delta.partialExes, rfl⟩

/-- A map is reported exactly when it is stored. -/
theorem mapsReported_admitMap (exeId : ExeId) (st : Applying F16) (map : MapSegment) :
    MapsReported st (admitMap exeId st map) := by
  have hat : ∀ key, (admitMap exeId st map).stores.mapAt key =
      if key = map.key then some ((st.stores.mapAt key).getD map) else st.stores.mapAt key :=
    fun key => st.stores.maps.lookup_ensure map key
  rcases st.stores.maps.ensure_cases map with ⟨id, hid, heq⟩ | ⟨hnone, hflag, -⟩
  · refine Journaled.of_same ?_ fun key => ?_
    · simp [admitMap, Stores.ensureMapWithFlag, heq]
    · rw [hat]
      split
      · next hkey =>
          subst hkey
          refine iff_of_true (by simp) fun hnone => ?_
          exact absurd (hid.symm.trans (KeyedStore.lookup_eq_none.1 hnone)) (by simp)
      · rfl
  · refine Journaled.of_added (a := map.key) ?_ ?_ fun key => ?_
    · exact not_not_intro (KeyedStore.lookup_eq_none.2 hnone)
    · simp [admitMap, Stores.ensureMapWithFlag, hflag]
    · rw [hat]
      by_cases hkey : key = map.key
      · simp [hkey]
      · simp [hkey]

/-- The loop over the maps of an executable reports nothing but maps. -/
theorem delta_admitMaps (exeId : ExeId) (maps : List MapSegment) (st : Applying F16) :
    ∃ newMaps, (maps.foldl (admitMap exeId) st).delta = { st.delta with newMaps } := by
  induction maps generalizing st with
  | nil => exact ⟨st.delta.newMaps, rfl⟩
  | cons map rest ih =>
      obtain ⟨newMaps, hrest⟩ := ih (admitMap exeId st map)
      have hone : ∃ newMaps, (admitMap exeId st map).delta = { st.delta with newMaps } := by
        unfold admitMap
        dsimp only
        split
        · exact ⟨_, rfl⟩
        · exact ⟨st.delta.newMaps, rfl⟩
      obtain ⟨_, hone⟩ := hone
      exact ⟨newMaps, by rw [List.foldl_cons, hrest, hone]⟩

variable (policy : AdmissionPolicy)

theorem mapsReported_admitCandidate (st : Applying F16) (c : CandidateExe) :
    MapsReported st (admitCandidate policy now runningPaths st c) := by
  unfold admitCandidate
  split
  · exact Journaled.of_same rfl fun _ => Iff.rfl
  · exact Journaled.refl st
  · next completeness _ =>
      obtain ⟨st₁, hst₁, ⟨_, hdelta₁⟩, hstores, hdelta⟩ :=
        acceptCandidate_stages now runningPaths st c completeness
      have hstart : MapsReported st st₁ := by
        refine Journaled.of_same (by rw [hdelta₁]) fun key => ?_
        rw [hst₁]
        rfl
      have hmaps : MapsReported st₁
          (c.maps.foldl (admitMap (st.stores.exes.ensure ⟨c.path⟩).2) st₁) :=
        Journaled.foldl (fun _ => True)
          (fun st _ map _ => ⟨mapsReported_admitMap _ st map, trivial⟩) st₁ trivial
      refine (hstart.trans hmaps).trans (Journaled.of_same (by rw [hdelta]) fun key => ?_)
      rw [hstores]

theorem exesReported_admitCandidate (st : Applying F16) (c : CandidateExe) :
    ExesReported st (admitCandidate policy now runningPaths st c) := by
  unfold admitCandidate
  split
  · exact Journaled.of_same rfl fun _ => Iff.rfl
  · exact Journaled.refl st
  · next completeness _ =>
      obtain ⟨st₁, hst₁, ⟨_, hdelta₁⟩, hstores, hdelta⟩ :=
        acceptCandidate_stages now runningPaths st c completeness
      obtain ⟨_, hmaps⟩ := delta_admitMaps (st.stores.exes.ensure ⟨c.path⟩).2 c.maps st₁
      have hid : ∀ key, (acceptCandidate now runningPaths st c completeness).stores.exes.idByKey
          key = if key = ⟨c.path⟩ then some (st.stores.exes.ensure ⟨c.path⟩).2
            else st.stores.exes.idByKey key := by
        intro key
        rw [hstores, exes_admitMaps, hst₁, idByKey_touchExe]
      have hjournal : (acceptCandidate now runningPaths st c completeness).delta.newExes =
          if st.stores.exes.idByKey ⟨c.path⟩ = none then st.delta.newExes ++ [⟨c.path⟩]
          else st.delta.newExes := by
        rw [hdelta, hmaps, hdelta₁]
      by_cases hnew : st.stores.exes.idByKey ⟨c.path⟩ = none
      · refine Journaled.of_added (not_not_intro hnew) (hjournal.trans (if_pos hnew)) fun key => ?_
        rw [hid]
        by_cases hkey : key = ⟨c.path⟩
        · simp [hkey]
        · simp [hkey]
      · refine Journaled.of_same (hjournal.trans (if_neg hnew)) fun key => ?_
        rw [hid]
        by_cases hkey : key = ⟨c.path⟩
        · simp [hkey, hnew]
        · simp [hkey]

/-- Admission reports nothing about running flags and edges. -/
theorem delta_admitCandidate (st : Applying F16) (c : CandidateExe) :
    ∃ newExes newMaps rejected partialExes,
      (admitCandidate policy now runningPaths st c).delta =
        { st.delta with newExes, newMaps, rejected, partialExes } := by
  unfold admitCandidate
  split
  · exact ⟨st.delta.newExes, st.delta.newMaps, _, st.delta.partialExes, rfl⟩
  · exact ⟨st.delta.newExes, st.delta.newMaps, st.delta.rejected, st.delta.partialExes, rfl⟩
  · next completeness _ =>
      obtain ⟨st₁, -, ⟨partialExes, hdelta₁⟩, -, hdelta⟩ :=
        acceptCandidate_stages now runningPaths st c completeness
      obtain ⟨newMaps, hmaps⟩ := delta_admitMaps (st.stores.exes.ensure ⟨c.path⟩).2 c.maps st₁
      exact ⟨_, newMaps, st.delta.rejected, partialExes, by rw [hdelta, hmaps, hdelta₁]⟩

theorem delta_admitCandidates (cs : List CandidateExe) (st : Applying F16) :
    ∃ newExes newMaps rejected partialExes,
      (cs.foldl (admitCandidate policy now runningPaths) st).delta =
        { st.delta with newExes, newMaps, rejected, partialExes } := by
  induction cs generalizing st with
  | nil =>
      exact ⟨st.delta.newExes, st.delta.newMaps, st.delta.rejected, st.delta.partialExes, rfl⟩
  | cons c rest ih =>
      obtain ⟨newExes, newMaps, rejected, partialExes, hrest⟩ :=
        ih (admitCandidate policy now runningPaths st c)
      obtain ⟨_, _, _, _, hone⟩ := delta_admitCandidate now runningPaths policy st c
      exact ⟨newExes, newMaps, rejected, partialExes, by rw [List.foldl_cons, hrest, hone]⟩

end Admission

section AdmitAll

variable (ord : HashOrder) (policy : AdmissionPolicy) (s : Stores F16) (obs : Observation)

/-- The delta after the admission stage. -/
def admittedDelta : ModelDelta := (admitAll ord policy (collect policy s.modelTime obs) s).delta

theorem newExes_admitted :
    (admittedDelta ord policy s obs).newExes.Nodup ∧
      ∀ key, key ∈ (admittedDelta ord policy s obs).newExes ↔
        (admitted ord policy s obs).exes.idByKey key ≠ none ∧ ¬ s.exes.idByKey key ≠ none :=
  (Journaled.foldl (fun _ => True)
    (fun st _ c _ => ⟨exesReported_admitCandidate _ _ policy st c, trivial⟩)
    (⟨s, ModelDelta.empty, ∅⟩ : Applying F16) trivial).of_nil rfl

theorem newMaps_admitted :
    (admittedDelta ord policy s obs).newMaps.Nodup ∧
      ∀ key, key ∈ (admittedDelta ord policy s obs).newMaps ↔
        (admitted ord policy s obs).mapAt key ≠ none ∧ ¬ s.mapAt key ≠ none :=
  (Journaled.foldl (fun _ => True)
    (fun st _ c _ => ⟨mapsReported_admitCandidate _ _ policy st c, trivial⟩)
    (⟨s, ModelDelta.empty, ∅⟩ : Applying F16) trivial).of_nil rfl

theorem admittedDelta_eq :
    (admittedDelta ord policy s obs).newEdges = [] ∧
      (admittedDelta ord policy s obs).runningNow = [] ∧
      (admittedDelta ord policy s obs).stoppedNow = [] := by
  unfold admittedDelta admitAll
  obtain ⟨_, _, _, _, hdelta⟩ := delta_admitCandidates
    (collect policy s.modelTime obs).now (collect policy s.modelTime obs).runningPaths policy
    ((ord.enum (collect policy s.modelTime obs).candidates.iter).map Prod.snd)
    ⟨s, ModelDelta.empty, ∅⟩
  rw [hdelta]
  exact ⟨rfl, rfl, rfl⟩

end AdmitAll

/-! ## Running flags -/

section Refresh

variable (now : UInt64) (runningPaths : FxHashSet Path)

/-- The key of the executable of an id, if its running flag is about to become `flag`. -/
def Stores.flippedKey (flag : Bool) (s : Stores F16) (id : ExeId) : Option ExeKey :=
  ((s.exes.get? id).filter fun e =>
    e.running != flag && decide (e.key.path ∈ runningPaths) == flag).map Exe.key

variable {runningPaths} in
theorem Stores.flippedKey_eq_some {flag : Bool} {s : Stores F16} {id : ExeId} {key : ExeKey} :
    s.flippedKey runningPaths flag id = some key ↔ ∃ e, s.exes.get? id = some e ∧ e.key = key ∧
      e.running = !flag ∧ decide (e.key.path ∈ runningPaths) = flag := by
  simp only [flippedKey, Option.map_eq_some_iff, Option.filter_eq_some_iff, Bool.and_eq_true,
    bne_iff_ne, ne_eq, beq_iff_eq, ← Bool.eq_not_iff]
  constructor
  · rintro ⟨e, ⟨he, hrun, hpath⟩, hkey⟩
    exact ⟨e, he, hkey, hrun, hpath⟩
  · rintro ⟨e, he, hkey, hrun, hpath⟩
    exact ⟨e, ⟨he, hrun, hpath⟩, hkey⟩

theorem delta_refreshExe (st : Applying F16) (id : ExeId) :
    (refreshExe now runningPaths st id).delta =
      { st.delta with
        runningNow := st.delta.runningNow ++ (st.stores.flippedKey runningPaths true id).toList
        stoppedNow :=
          st.delta.stoppedNow ++ (st.stores.flippedKey runningPaths false id).toList } := by
  unfold refreshExe Stores.flippedKey
  cases st.stores.exes.get? id with
  | none => simp
  | some e =>
      cases hrunning : e.running with
      | true =>
          by_cases hpath : e.key.path ∈ runningPaths <;> simp [hrunning, hpath, Option.filter_some]
      | false =>
          by_cases hpath : e.key.path ∈ runningPaths <;> simp [hrunning, hpath, Option.filter_some]

theorem delta_refreshExes (ids : List ExeId) (hnodup : ids.Nodup) (st : Applying F16) :
    (ids.foldl (refreshExe now runningPaths) st).delta =
      { st.delta with
        runningNow :=
          st.delta.runningNow ++ ids.filterMap (st.stores.flippedKey runningPaths true)
        stoppedNow :=
          st.delta.stoppedNow ++ ids.filterMap (st.stores.flippedKey runningPaths false) } := by
  induction ids generalizing st with
  | nil => simp
  | cons id rest ih =>
      rw [List.nodup_cons] at hnodup
      obtain ⟨exes, hstores, hget, -⟩ := refreshExe_spec now runningPaths st id
      -- the rest of the loop sees the flags of its ids as they were
      have hsame : ∀ flag, rest.filterMap
            ((refreshExe now runningPaths st id).stores.flippedKey runningPaths flag) =
          rest.filterMap (st.stores.flippedKey runningPaths flag) := by
        intro flag
        refine List.filterMap_congr fun j hj => ?_
        have hne : j ≠ id := by
          rintro rfl
          exact hnodup.1 hj
        rw [Stores.flippedKey, hstores, hget, if_neg hne, Stores.flippedKey]
      rw [List.foldl_cons, ih hnodup.2, hsame, hsame, delta_refreshExe]
      cases hstarted : st.stores.flippedKey runningPaths true id <;>
        cases hstopped : st.stores.flippedKey runningPaths false id <;> simp [hstarted, hstopped]

/-- Each flag that changes is reported once. -/
theorem flippedKeys_nodup (flag : Bool) (s : Stores F16) :
    (s.exes.ids.filterMap (s.flippedKey runningPaths flag)).Nodup := by
  refine s.exes.ids_nodup.filterMap fun id id' key hid hid' => ?_
  obtain ⟨e, he, rfl, -⟩ := Stores.flippedKey_eq_some.1 hid
  obtain ⟨e', he', hkey, -⟩ := Stores.flippedKey_eq_some.1 hid'
  exact ExeStore.id_unique he he' hkey.symm

end Refresh

/-! ## Edges -/

section Edges

variable (zero : F16) (now : UInt64)

/-- Two executables have an edge. -/
def Stores.HasEdge (s : Stores F16) (z : Sym2 ExeKey) : Prop :=
  ∃ x y a b, s.exes.idByKey x = some a ∧ s.exes.idByKey y = some b ∧
    EdgeKey.new a b ∈ s.markov.keys ∧ z = s(x, y)

/-- The edges of the delta are those that were created. -/
abbrev EdgesReported : Stores F16 × ModelDelta → Stores F16 × ModelDelta → Prop :=
  Journaled (fun st => st.2.newEdges.map fun edge => s(edge.1, edge.2)) fun st z => st.1.HasEdge z

theorem Stores.hasEdge_mk {s : Stores F16} {x y : ExeKey} :
    s.HasEdge s(x, y) ↔ ∃ a b, s.exes.idByKey x = some a ∧ s.exes.idByKey y = some b ∧
      EdgeKey.new a b ∈ s.markov.keys := by
  constructor
  · rintro ⟨x', y', a, b, ha, hb, hkey, hz⟩
    rcases Sym2.eq_iff.1 hz with ⟨rfl, rfl⟩ | ⟨rfl, rfl⟩
    · exact ⟨a, b, ha, hb, hkey⟩
    · exact ⟨b, a, hb, ha, EdgeKey.new_comm b a ▸ hkey⟩
  · rintro ⟨a, b, ha, hb, hkey⟩
    exact ⟨x, y, a, b, ha, hb, hkey, rfl⟩

/-- An edge between two stored executables, by their keys. -/
theorem Stores.hasEdge_iff {s : Stores F16} {x y : ExeKey} {a b : ExeId}
    (ha : s.exes.idByKey x = some a) (hb : s.exes.idByKey y = some b) :
    s.HasEdge s(x, y) ↔ EdgeKey.new a b ∈ s.markov.keys := by
  simp [hasEdge_mk, ha, hb]

/-- One round reports the edge it creates between two stored executables. -/
theorem edgesReported_ensureEdge {st : Stores F16 × ModelDelta} {p : ExeId × ExeId}
    (ha : st.1.LiveExe p.1) (hb : st.1.LiveExe p.2) :
    EdgesReported st (ensureEdge zero now st p) := by
  obtain ⟨ea, ha⟩ := ha
  obtain ⟨eb, hb⟩ := hb
  have hida := ExeStore.idByKey_of_get? ha
  have hidb := ExeStore.idByKey_of_get? hb
  by_cases hmem : EdgeKey.new p.1 p.2 ∈ st.1.markov.keys
  · have hsame : ensureEdge zero now st p = st := by
      unfold ensureEdge Stores.ensureMarkovEdge
      dsimp only
      rw [MarkovGraph.ensureEdge_of_mem zero now _ hmem]
    rw [hsame]
    exact Journaled.refl st
  · have hflag := (MarkovGraph.ensureEdge_flag zero st.1.markov p.1 p.2 now
      (edgeState st.1 p.1 p.2)).2 hmem
    refine Journaled.of_added (a := s(ea.key, eb.key)) ?_ ?_ fun z => ?_
    · rwa [Stores.hasEdge_iff hida hidb]
    · unfold ensureEdge Stores.ensureMarkovEdge
      simp [hflag, ha, hb]
    · have hkeys : ∀ a b, EdgeKey.new a b ∈ (ensureEdge zero now st p).1.markov.keys ↔
          EdgeKey.new a b = EdgeKey.new p.1 p.2 ∨ EdgeKey.new a b ∈ st.1.markov.keys :=
        fun a b => MarkovGraph.mem_keys_ensureEdge zero _ _ _ now _ _
      constructor
      · rintro ⟨x, y, a, b, hxa, hyb, hkey, rfl⟩
        rcases (hkeys a b).1 hkey with hkey | hkey
        · left
          -- the key is that of the pair in either order
          rcases EdgeKey.new_inj hkey with ⟨rfl, rfl⟩ | ⟨rfl, rfl⟩
          · rw [ExeStore.idByKey_inj hxa hida, ExeStore.idByKey_inj hyb hidb]
          · rw [ExeStore.idByKey_inj hxa hidb, ExeStore.idByKey_inj hyb hida, Sym2.eq_swap]
        · exact Or.inr ⟨x, y, a, b, hxa, hyb, hkey, rfl⟩
      · rintro (rfl | ⟨x, y, a, b, hxa, hyb, hkey, rfl⟩)
        · exact ⟨_, _, p.1, p.2, hida, hidb, (hkeys _ _).2 (Or.inl rfl), rfl⟩
        · exact ⟨x, y, a, b, hxa, hyb, (hkeys a b).2 (Or.inr hkey), rfl⟩

/-- The loop reports exactly the edges it creates, when the active executables are stored. -/
theorem edgesReported_ensureEdges (ord : HashOrder) {s : Stores F16} (delta : ModelDelta)
    (hlive : ∀ id ∈ s.active.exes, s.LiveExe id) :
    EdgesReported (s, delta) (ensureEdges zero ord now s delta) := by
  unfold ensureEdges
  refine Journaled.foldl (fun st => st.1.exes = s.exes) (fun st hst p hp => ?_) _ rfl
  have hends := mem_of_mem_pairs hp
  rw [HashOrder.mem_enum, HashOrder.mem_enum, FxHashSet.mem_iter, FxHashSet.mem_iter] at hends
  have hstored : ∀ id ∈ s.active.exes, st.1.LiveExe id := by
    intro id hid
    obtain ⟨e, he⟩ := hlive id hid
    exact ⟨e, by rw [hst, he]⟩
  exact ⟨edgesReported_ensureEdge zero now (hstored _ hends.1) (hstored _ hends.2), hst⟩

/-- The loop reports nothing but edges. -/
theorem delta_ensureEdges (ord : HashOrder) (s : Stores F16) (delta : ModelDelta) :
    ∃ newEdges, (ensureEdges zero ord now s delta).2 = { delta with newEdges } := by
  have hloop : ∀ (ps : List (ExeId × ExeId)) (st : Stores F16 × ModelDelta), ∃ newEdges,
      (ps.foldl (ensureEdge zero now) st).2 = { st.2 with newEdges } := by
    intro ps
    induction ps with
    | nil => exact fun st => ⟨st.2.newEdges, rfl⟩
    | cons p rest ih =>
        intro st
        obtain ⟨newEdges, hrest⟩ := ih (ensureEdge zero now st p)
        have hone : ∃ newEdges, (ensureEdge zero now st p).2 = { st.2 with newEdges } := by
          unfold ensureEdge
          dsimp only
          split
          · exact ⟨_, rfl⟩
          · exact ⟨st.2.newEdges, rfl⟩
        obtain ⟨_, hone⟩ := hone
        exact ⟨newEdges, by rw [List.foldl_cons, hrest, hone]⟩
  exact hloop _ (s, delta)

end Edges

end PreloadNg
