import PreloadNg.Engine.ApplyByPath
import PreloadNg.Prefetch.Planner

set_option autoImplicit false

/-! # Metadata of the stored maps

Device, inode and update time of a stored map are those of the sighting that stored it: a later
sighting of the same key finds the key and leaves the segment as it is, and a restart sets device
and inode to zero. -/

namespace PreloadNg

variable {F16 F32 : Type} [Float32Ops F32] (num : Numerics F16 F32)

/-- The sightings of one key agree on device and inode. -/
def Observation.MapsAgree (obs : Observation) : Prop :=
  ∀ p q m m', .mapSeen p m ∈ obs → .mapSeen q m' ∈ obs → m.key = m'.key →
    m.device = m'.device ∧ m.inode = m'.inode

section Metadata

variable (policy : AdmissionPolicy) (obs : Observation) (modelTime : UInt64)

/-- The segment has the device and inode of the sighting `m`, and the update time of a sighting of
    its key. -/
structure CarriesMetadata (m stored : MapSegment) : Prop where
  device : stored.device = m.device
  inode : stored.inode = m.inode
  updateTime : ∃ m', AdmittedMap policy obs modelTime m' ∧ m'.key = m.key ∧
    stored.updateTime = m'.updateTime

/-- Every map seen for an admitted executable is stored with the metadata of this observation. -/
def MetadataCurrent (r : Stores F16) : Prop :=
  ∀ m, AdmittedMap policy obs modelTime m →
    ∃ stored, r.mapAt m.key = some stored ∧ CarriesMetadata policy obs modelTime m stored

/-- Every such map that is stored already carries the metadata of this observation. -/
def MetadataKnown (s : Stores F16) : Prop :=
  ∀ m, AdmittedMap policy obs modelTime m →
    ∀ old, s.mapAt m.key = some old → CarriesMetadata policy obs modelTime m old

end Metadata

/-! ## One `apply` -/

section Apply

variable {num} {u : DefaultModelUpdater F32} {ord : HashOrder} {s r : Stores F16}
  {obs : Observation} {policy : AdmissionPolicy}

/-- A map that is stored stays as it is. -/
theorem ApplySpec.mapAt_of_some (h : ApplySpec num u ord s obs policy r) {key : MapKey}
    {old : MapSegment} (hold : s.mapAt key = some old) : r.mapAt key = some old := by
  rw [h.mapAt, hold, Option.some_or]

/-- A map that is not stored is stored as one of its sightings. -/
theorem ApplySpec.mapAt_of_none (h : ApplySpec num u ord s obs policy r) {m : MapSegment}
    (hm : AdmittedMap policy obs s.modelTime m) (hnone : s.mapAt m.key = none) :
    ∃ m', AdmittedMap policy obs s.modelTime m' ∧ m'.key = m.key ∧ r.mapAt m.key = some m' := by
  rw [h.mapAt, hnone, Option.none_or]
  rw [← mem_admittedMaps ord] at hm
  cases hfind : (admittedMaps ord policy s obs).find? fun m' => m'.key = m.key with
  | none => exact absurd (decide_eq_true rfl) (List.find?_eq_none.1 hfind m hm)
  | some m' =>
      refine ⟨m', (mem_admittedMaps ord policy s obs m').1 (List.mem_of_find?_eq_some hfind), ?_,
        rfl⟩
      simpa using List.find?_some hfind

theorem ApplySpec.metadataCurrent_iff (h : ApplySpec num u ord s obs policy r)
    (hobs : obs.MapsAgree) :
    MetadataCurrent policy obs s.modelTime r ↔ MetadataKnown policy obs s.modelTime s := by
  constructor
  · intro hcurrent m hm old hold
    obtain ⟨stored, hstored, hcarries⟩ := hcurrent m hm
    obtain rfl := Option.some.inj ((h.mapAt_of_some hold).symm.trans hstored)
    exact hcarries
  · intro hknown m hm
    cases hold : s.mapAt m.key with
    | some old => exact ⟨old, h.mapAt_of_some hold, hknown m hm old hold⟩
    | none =>
        obtain ⟨m', hm', hkey, hstored⟩ := h.mapAt_of_none hm hold
        obtain ⟨p, -, hp, -⟩ := hm
        obtain ⟨q, -, hq, -⟩ := id hm'
        obtain ⟨hdevice, hinode⟩ := hobs q p m' m hq hp hkey
        exact ⟨m', hstored, hdevice, hinode, m', hm', hkey, rfl⟩

/-- With current metadata the planner sorts a map by the keys of its sighting. -/
theorem MetadataCurrent.sortKeys {modelTime : UInt64}
    (h : MetadataCurrent policy obs modelTime r) {m : MapSegment}
    (hm : AdmittedMap policy obs modelTime m) :
    (r.mapAt m.key).bind blockKey = blockKey m ∧ (r.mapAt m.key).bind inodeKey = inodeKey m := by
  obtain ⟨stored, hstored, hdevice, hinode, -⟩ := h m hm
  obtain ⟨-, -, hkey⟩ := Stores.mapAt_eq_some.1 hstored
  have hoffset : stored.offset = m.offset := congrArg MapKey.offset hkey
  rw [hstored]
  simp only [Option.bind_some, blockKey, inodeKey, hdevice, hinode, hoffset, and_self]

end Apply

/-! ## With and without a restart -/

/-- A restart leaves of the metadata of a stored map its update time. -/
theorem metadataKnown_restart {s t : Stores F16} {ord : HashOrder} {createdAt : ℤ}
    {activeWindow : UInt64} (hs : s.WF)
    (ht : storesFromSnapshot num (snapshotFromStores num ord createdAt s) activeWindow = .ok t)
    (policy : AdmissionPolicy) (obs : Observation) :
    MetadataKnown policy obs t.modelTime t ↔ ∀ m, AdmittedMap policy obs s.modelTime m →
      ∀ old, s.mapAt m.key = some old →
        CarriesMetadata policy obs s.modelTime m old.persisted := by
  have hspec := restart_spec ht hs
  rw [MetadataKnown, hspec.modelTime]
  simp only [hspec.mapAt, Option.map_eq_some_iff, forall_exists_index, and_imp,
    forall_apply_eq_imp_iff₂]

/-- After `apply` the maps of the admitted executables carry the metadata of the observation exactly
    when those that were stored carried it before; after a restart this asks that device and inode
    are unknown in the observation as well. Where the metadata is current with and without the
    restart, the planner sorts the maps alike. -/
theorem metadata_current_iff {allowed : Stores F16 → StoresOp F32 → Prop} {s : Stores F16}
    (h : StoresReachable num allowed s) (u : DefaultModelUpdater F32) (ord : HashOrder)
    (policy : AdmissionPolicy) (obs : Observation) (hobs : obs.MapsAgree) :
    (MetadataCurrent policy obs s.modelTime (u.apply num ord s obs policy).1 ↔
      MetadataKnown policy obs s.modelTime s) ∧
    ∀ (ord' : HashOrder) (createdAt : ℤ) (activeWindow : UInt64) (t : Stores F16),
      storesFromSnapshot num (snapshotFromStores num ord' createdAt s) activeWindow = .ok t →
      (MetadataCurrent policy obs t.modelTime (u.apply num ord t obs policy).1 ↔
        ∀ m, AdmittedMap policy obs s.modelTime m → ∀ old, s.mapAt m.key = some old →
          CarriesMetadata policy obs s.modelTime m old.persisted) ∧
      (MetadataCurrent policy obs s.modelTime (u.apply num ord s obs policy).1 →
        MetadataCurrent policy obs t.modelTime (u.apply num ord t obs policy).1 →
        ∀ m, AdmittedMap policy obs s.modelTime m →
          ((u.apply num ord t obs policy).1.mapAt m.key).bind blockKey =
            ((u.apply num ord s obs policy).1.mapAt m.key).bind blockKey ∧
          ((u.apply num ord t obs policy).1.mapAt m.key).bind inodeKey =
            ((u.apply num ord s obs policy).1.mapAt m.key).bind inodeKey) := by
  refine ⟨(apply_spec num u ord s obs policy).metadataCurrent_iff hobs, ?_⟩
  intro ord' createdAt activeWindow t ht
  have hs := wf_of_reachable num h
  refine ⟨?_, ?_⟩
  · rw [(apply_spec num u ord t obs policy).metadataCurrent_iff hobs]
    exact metadataKnown_restart num hs ht policy obs
  · intro hcurrent hcurrent' m hm
    obtain ⟨hblock, hinode⟩ := hcurrent.sortKeys hm
    obtain ⟨hblock', hinode'⟩ := hcurrent'.sortKeys ((restart_spec ht hs).modelTime ▸ hm)
    exact ⟨hblock'.trans hblock.symm, hinode'.trans hinode.symm⟩

/-- A scan at `10` that finds `/bin/a` running with a map of a file on device `1`. -/
def Observation.ofFile : Observation :=
  [.obsBegin 10 1, .exeSeen (Path.ofString "/bin/a") 1,
   .mapSeen (Path.ofString "/bin/a")
     { MapSegment.new (Path.ofString "/lib/libc.so") 0 4096 10 with device := 1, inode := 7 },
   .obsEnd 10 1 []]

theorem Observation.mapsAgree_ofFile : Observation.ofFile.MapsAgree := by
  intro p q m m' hm hm' _
  simp only [ofFile, List.mem_cons, reduceCtorEq, ObservationEvent.mapSeen.injEq, List.not_mem_nil,
    or_false, false_or] at hm hm'
  obtain ⟨-, rfl⟩ := hm
  obtain ⟨-, rfl⟩ := hm'
  exact ⟨rfl, rfl⟩

/-- The file that the scan finds mapped. -/
def MapSegment.ofFile : MapSegment :=
  { MapSegment.new (Path.ofString "/lib/libc.so") 0 4096 10 with device := 1, inode := 7 }

theorem Observation.admittedMap_ofFile : AdmittedMap .permissive Observation.ofFile 10 .ofFile :=
  ⟨Path.ofString "/bin/a", by decide +kernel, by simp [ofFile, MapSegment.ofFile], rfl⟩

/-- The first scan stores the file, the second one finds it stored; after a restart it is stale. -/
theorem metadata_current_iff_first_scan :
    let u : DefaultModelUpdater ℚ := ⟨100, 0⟩
    let r : Stores ℚ := (u.apply Numerics.rational .insertion ∅ .ofFile .permissive).1
    MetadataCurrent .permissive .ofFile 0 r ∧
      MetadataCurrent .permissive .ofFile r.modelTime
        (u.apply Numerics.rational .insertion r .ofFile .permissive).1 ∧
      ∃ t, storesFromSnapshot Numerics.rational
          (snapshotFromStores Numerics.rational .insertion 0 r) 100 = .ok t ∧
        ¬ MetadataCurrent .permissive .ofFile t.modelTime
          (u.apply Numerics.rational .insertion t .ofFile .permissive).1 := by
  intro u r
  have hfirst : StoresReachable Numerics.rational
      (fun (_ : Stores ℚ) (_ : StoresOp ℚ) => True) ∅ := Reachable.refl
  have hsecond : StoresReachable Numerics.rational (fun _ _ => True) r :=
    hfirst.tail (i := .apply u .insertion .permissive .ofFile) ⟨trivial, rfl⟩
  have htime : r.modelTime = 10 := by decide +kernel
  have hstored : r.mapAt MapSegment.ofFile.key = some .ofFile := by decide +kernel
  obtain ⟨hcurrent, hrestart⟩ := metadata_current_iff Numerics.rational hsecond u .insertion
    .permissive .ofFile Observation.mapsAgree_ofFile
  obtain ⟨t, ht⟩ := (storesFromSnapshot_isOk_iff Numerics.rational _ 100).2
    (resolves_snapshot Numerics.rational .insertion 0 r)
  refine ⟨(metadata_current_iff Numerics.rational hfirst u .insertion .permissive .ofFile
    Observation.mapsAgree_ofFile).1.2 ?_, hcurrent.2 ?_, t, ht, ?_⟩
  · intro m _ old hold
    exact absurd hold (by simp)
  · intro m hm old hold
    obtain ⟨p, -, hseen, -⟩ := id hm
    obtain ⟨-, rfl⟩ : p = Path.ofString "/bin/a" ∧ m = .ofFile := by
      simpa [Observation.ofFile, MapSegment.ofFile] using hseen
    obtain rfl := Option.some.inj (hstored.symm.trans hold)
    exact ⟨rfl, rfl, _, hm, rfl, rfl⟩
  · intro hstale
    have hadmitted := Observation.admittedMap_ofFile
    rw [← htime] at hadmitted
    have hcarries := (hrestart .insertion 0 100 t ht).1.1 hstale _ hadmitted _ hstored
    exact absurd hcarries.device (by decide)

/-- After a restart the scan that stored a map stores its device and inode no longer. -/
theorem metadata_stale_after_restart :
    ¬ ∀ s : Stores ℚ, StoresReachable Numerics.rational (fun _ _ => True) s →
      ∀ (u : DefaultModelUpdater ℚ) (ord : HashOrder) (policy : AdmissionPolicy)
        (obs : Observation), obs.MapsAgree →
        MetadataCurrent policy obs s.modelTime (u.apply Numerics.rational ord s obs policy).1 := by
  intro hall
  let u : DefaultModelUpdater ℚ := ⟨100, 0⟩
  let s : Stores ℚ := (u.apply Numerics.rational .insertion ∅ .ofFile .permissive).1
  have hreach : StoresReachable Numerics.rational (fun _ _ => True) s :=
    Reachable.refl.tail (i := .apply u .insertion .permissive .ofFile) ⟨trivial, rfl⟩
  obtain ⟨t, ht⟩ := (storesFromSnapshot_isOk_iff Numerics.rational _ 100).2
    (resolves_snapshot Numerics.rational .insertion 0 s)
  have hreach' : StoresReachable Numerics.rational (fun _ _ => True) t :=
    hreach.tail (i := .restart .insertion 0 100) ⟨trivial, ht⟩
  have hspec := restart_spec ht (wf_of_reachable _ hreach)
  have htime : t.modelTime = 10 := hspec.modelTime.trans (by decide +kernel)
  have hcurrent := hall t hreach' u .insertion .permissive .ofFile Observation.mapsAgree_ofFile
  rw [htime] at hcurrent
  obtain ⟨stored, hstored, hdevice, -⟩ := hcurrent _ Observation.admittedMap_ofFile
  -- the restored segment is kept
  have hold : t.mapAt ⟨Path.ofString "/lib/libc.so", 0, 4096⟩ =
      some (MapSegment.new (Path.ofString "/lib/libc.so") 0 4096 10) := by
    rw [hspec.mapAt]
    decide +kernel
  have hkept := (apply_spec Numerics.rational u .insertion t .ofFile .permissive).mapAt_of_some hold
  obtain rfl := Option.some.inj (hkept.symm.trans hstored)
  exact absurd hdevice (by decide)

end PreloadNg
