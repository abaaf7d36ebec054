import Mathlib.Data.Rat.Encodable
import Mathlib.Logic.Encodable.Pi
import PreloadNg.Engine.ApplyByPath
import PreloadNg.Persistence.RoundTrip

set_option autoImplicit false

/-! # Saving and loading along runs

Under the default admission policy every stored path is valid UTF-8. The snapshot of reachable
stores is then storable: no insert conflicts, no text is lossy, and restoring what is loaded gives
the stores back by path. -/

namespace PreloadNg

variable {F16 F32 F64 : Type} [Float32Ops F32] (num : Numerics F16 F32)

/-! ## Paths stay UTF-8 -/

/-- Every apply is under a default admission policy, with any content of its cache. -/
def UnderDefaultPolicy (_ : Stores F16) : StoresOp F32 → Prop
  | .apply _ _ policy _ => ∃ (p : DefaultAdmissionPolicy) (cached : Path → Option RejectReason),
      policy = p.toPolicy cached
  | .advance _ => True
  | .removeMap _ => True
  | .restart _ _ _ => True

/-- Every stored path is valid UTF-8. -/
structure Stores.Utf8 (s : Stores F16) : Prop where
  exes : ∀ p e, s.exeAt p = some e → p.toStr.isSome
  maps : ∀ key m, s.mapAt key = some m → key.path.toStr.isSome

/-- The default policy admits an executable only under a UTF-8 path. -/
theorem toStr_of_admits {p : DefaultAdmissionPolicy} {cached : Path → Option RejectReason}
    {obs : Observation} {modelTime : UInt64} {path : Path}
    (h : Admits (p.toPolicy cached) obs modelTime path) : path.toStr.isSome := by
  obtain ⟨c, hc, completeness, haccept⟩ := h
  have hallowed : p.allowExe c.path = true := DefaultAdmissionPolicy.allowExe_of_accept haccept
  rw [(candidateOf_collect _ _ obs hc).path_eq] at hallowed
  exact DefaultAdmissionPolicy.toStr_of_acceptPath hallowed

theorem utf8_apply {u : DefaultModelUpdater F32} {ord : HashOrder} {s r : Stores F16}
    {obs : Observation} {p : DefaultAdmissionPolicy} {cached : Path → Option RejectReason}
    (h : ApplySpec num u ord s obs (p.toPolicy cached) r) (ih : s.Utf8) : r.Utf8 := by
  constructor
  · intro path e he
    rw [h.exeAt, Option.map_eq_some_iff] at he
    obtain ⟨e₀, he₀, -⟩ := he
    split at he₀
    · next hadmits => exact toStr_of_admits hadmits
    · exact ih.exes path e₀ he₀
  · intro key m hm
    obtain ⟨id, hid, rfl⟩ := Stores.mapAt_eq_some.1 hm
    rw [h.maps] at hid
    rcases get?_maps_admitted _ _ _ _ hid with hold | hallowed
    · exact ih.maps m.key m (Stores.mapAt_eq_some.2 ⟨id, hold, rfl⟩)
    · exact DefaultAdmissionPolicy.toStr_of_acceptPath hallowed

theorem utf8_of_reachable {s : Stores F16}
    (h : StoresReachable num UnderDefaultPolicy s) : s.Utf8 := by
  refine h.invariant_of (J := Stores.WF) (I := Stores.Utf8) (fun _ => wf_of_reachable num) ?_ ?_
  · exact ⟨fun p e he => absurd he (by simp), fun key m hm => absurd hm (by simp)⟩
  · intro s op s' hs ih hstep
    obtain ⟨hpolicy, hexec⟩ := hstep
    cases op with
    | apply u ord policy obs =>
        obtain rfl := Except.ok.inj hexec
        obtain ⟨p, cached, rfl⟩ := hpolicy
        exact utf8_apply num (apply_spec num u ord s obs (p.toPolicy cached)) ih
    | advance cycle =>
        obtain rfl := Except.ok.inj hexec
        exact ⟨ih.exes, ih.maps⟩
    | removeMap key =>
        obtain rfl := Except.ok.inj hexec
        refine ⟨fun p e he => ih.exes p e ?_, fun key' m hm => ?_⟩
        · rw [← he, Stores.exeAt, Stores.exeAt, Stores.exes_removeMapByKey]
        · obtain ⟨id, hid, hkey⟩ := Stores.mapAt_eq_some.1 hm
          exact ih.maps key' m (Stores.mapAt_eq_some.2
            ⟨id, ((s.get?_removeMapByKey key id m).1 hid).1, hkey⟩)
    | restart ord createdAt activeWindow =>
        have hspec := restart_spec hexec hs
        constructor
        · intro p e he
          rw [hspec.exeAt, Option.map_eq_some_iff] at he
          obtain ⟨e₀, he₀, -⟩ := he
          exact ih.exes p e₀ he₀
        · intro key m hm
          rw [hspec.mapAt, Option.map_eq_some_iff] at hm
          obtain ⟨m₀, hm₀, -⟩ := hm
          exact ih.maps key m₀ hm₀

/-! ## Snapshots are storable -/

section Storable

variable (ord : HashOrder) (createdAt : ℤ) {s : Stores F16}

/-- An executable and one of its maps are recorded once. -/
theorem snapshot_exeMaps_nodup :
    ((snapshotFromStores num ord createdAt s).state.exeMaps.map fun r =>
      (r.exePath, r.mapKey)).Nodup := by
  show ((s.exes.iter.flatMap (exeMapRecords ord s)).map fun r : ExeMapRecord F32 =>
    (r.exePath, r.mapKey)).Nodup
  rw [List.map_flatMap, List.nodup_flatMap]
  constructor
  · -- the maps of one executable have distinct keys
    intro exe _
    unfold exeMapRecords
    rw [List.map_filterMap]
    refine List.Nodup.filterMap ?_ (ord.nodup_enum (s.exeMaps.mapsForExe_nodup exe.1))
    intro m m' k hk hk'
    simp only [Option.mem_def, Option.map_map, Option.map_eq_some_iff, Function.comp_apply] at hk hk'
    obtain ⟨map, hmap, rfl⟩ := hk
    obtain ⟨map', hmap', heq⟩ := hk'
    exact KeyedStore.id_unique hmap hmap' (congrArg Prod.snd heq).symm
  · -- the records of two executables have distinct paths
    have hkeys : (s.exes.iter.map fun row => row.2.key).Nodup := s.exes.keys_nodup
    refine (List.pairwise_map.1 hkeys).imp ?_
    intro x y hne
    show List.Disjoint _ _
    intro k hx hy
    have hpath : ∀ row : ExeId × Exe, k ∈ (exeMapRecords ord s row).map
        (fun r : ExeMapRecord F32 => (r.exePath, r.mapKey)) → k.1 = row.2.key.path := by
      intro row hk
      obtain ⟨r, hr, rfl⟩ := List.mem_map.1 hk
      obtain ⟨m, -, hm⟩ := List.mem_filterMap.1 hr
      obtain ⟨map, -, rfl⟩ := Option.map_eq_some_iff.1 hm
      rfl
    have hsame := (hpath x hx).symm.trans (hpath y hy)
    cases hkx : x.2.key with
    | mk px =>
        cases hky : y.2.key with
        | mk py =>
            rw [hkx, hky] at hsame hne
            exact hne (congrArg ExeKey.mk hsame)

/-- The two paths of an edge key. -/
def edgePaths (s : Stores F16) (key : EdgeKey) : Option (Path × Path) := do
  let a ← s.exes.get? key.a
  let b ← s.exes.get? key.b
  return (a.key.path, b.key.path)

omit [Float32Ops F32] in
theorem edgePaths_eq_some {key : EdgeKey} {p q : Path} :
    edgePaths s key = some (p, q) ↔ s.exes.idByKey ⟨p⟩ = some key.a ∧
      s.exes.idByKey ⟨q⟩ = some key.b := by
  simp only [edgePaths, Option.bind_eq_bind, Option.bind_eq_some_iff, Option.pure_def,
    Option.some.injEq, Prod.mk.injEq, ExeStore.idByKey_eq_some]
  constructor
  · rintro ⟨a, ha, b, hb, rfl, rfl⟩
    exact ⟨⟨a, ha, rfl⟩, b, hb, rfl⟩
  · rintro ⟨⟨a, ha, hka⟩, b, hb, hkb⟩
    exact ⟨a, ha, b, hb, congrArg ExeKey.path hka, congrArg ExeKey.path hkb⟩

/-- A pair of paths is recorded once. -/
theorem snapshot_markovs_nodup :
    ((snapshotFromStores num ord createdAt s).state.markovEdges.map fun r =>
      (r.exeA, r.exeB)).Nodup := by
  have hpaths : (s.markov.iter.filterMap (markovRecord num s)).map (fun r => (r.exeA, r.exeB)) =
      s.markov.keys.filterMap (edgePaths s) := by
    rw [List.map_filterMap, ← MarkovGraph.iter_map_fst, List.filterMap_map]
    refine List.filterMap_congr fun row _ => ?_
    simp only [markovRecord, edgePaths, Function.comp_apply]
    cases s.exes.get? row.1.a with
    | none => rfl
    | some a => cases s.exes.get? row.1.b <;> rfl
  show ((s.markov.iter.filterMap (markovRecord num s)).map fun r => (r.exeA, r.exeB)).Nodup
  rw [hpaths]
  refine List.Nodup.filterMap ?_ s.markov.keys_nodup
  intro key key' pq hpq hpq'
  obtain ⟨p, q⟩ := pq
  obtain ⟨ha, hb⟩ := edgePaths_eq_some.1 hpq
  obtain ⟨ha', hb'⟩ := edgePaths_eq_some.1 hpq'
  exact EdgeKey.ext (Option.some.inj (ha.symm.trans ha')) (Option.some.inj (hb.symm.trans hb'))

/-- The snapshot of stores with UTF-8 paths. -/
theorem storable_snapshot (hs : s.Utf8) :
    (snapshotFromStores num ord createdAt s).state.Storable := by
  have hexe : ∀ id e, s.exes.get? id = some e → e.key.path.toStr.isSome := fun id e he =>
    hs.exes _ e (Stores.exeAt_eq_some.2 ⟨id, he, rfl⟩)
  have hmap : ∀ id m, s.maps.get? id = some m → m.path.toStr.isSome := fun id m hm =>
    hs.maps m.key m (Stores.mapAt_eq_some.2 ⟨id, hm, rfl⟩)
  refine ⟨?_, ?_, ?_, ?_, snapshot_exes_nodup num ord createdAt s,
    snapshot_maps_nodup num ord createdAt s, snapshot_exeMaps_nodup num ord createdAt,
    snapshot_markovs_nodup num ord createdAt⟩
  · intro r hr
    obtain ⟨id, e, he, rfl⟩ := (mem_snapshot_exes num ord createdAt s r).1 hr
    exact hexe id e he
  · intro r hr
    obtain ⟨id, m, hm, rfl⟩ := (mem_snapshot_maps num ord createdAt s r).1 hr
    exact hmap id m hm
  · intro r hr
    obtain ⟨e, exe, m, map, he, -, hm, rfl⟩ := (mem_snapshot_exeMaps num ord createdAt s r).1 hr
    exact ⟨hexe e exe he, hmap m map hm⟩
  · intro r hr
    obtain ⟨key, e, -, hrec⟩ := (mem_snapshot_markovEdges num ord createdAt s r).1 hr
    obtain ⟨a, b, ha, hb, rfl⟩ := (markovRecord_eq_some num s _ r).1 hrec
    exact ⟨hexe _ a ha, hexe _ b hb⟩

end Storable

/-! ## Saving, loading and restoring -/

/-- What is saved is what is loaded, for stores reachable under the default policy. -/
theorem saved_is_loaded {enc : Encoding F32 F64} (henc : enc.RoundTrips) {s : Stores F16}
    (h : StoresReachable num UnderDefaultPolicy s) (ord : HashOrder) (createdAt : ℤ)
    (db : Database F64) (activeWindow : UInt64) :
    ∃ db' loaded, ∃ t : Stores F16,
      saveSnapshot enc (snapshotFromStores num ord createdAt s) db = .ok db' ∧
      loadSnapshot enc db' = .ok loaded ∧
      storesFromSnapshot num loaded activeWindow = .ok t ∧
      RestartSpec s activeWindow t := by
  obtain ⟨db', loaded, hsave, hload, hstate⟩ := load_saveSnapshot
    (storable_snapshot num ord createdAt (utf8_of_reachable num h)) henc db
  obtain ⟨t, ht⟩ := (storesFromSnapshot_isOk_iff num _ activeWindow).2
    (resolves_snapshot num ord createdAt s)
  refine ⟨db', loaded, t, hsave, hload, ?_, restart_spec ht (wf_of_reachable num h)⟩
  rw [storesFromSnapshot_congr num loaded activeWindow hstate]
  exact ht

/-! ## An exact encoding -/

section Exact

variable {α : Type} [Encodable α] [Zero α] [DecidableEq α]

/-- An array of zeros as `words` zero bytes, as `rkyv` writes it; any other as a number in unary. -/
def exactToBytes (words : ℕ) (x : α) : Except String (List UInt8) :=
  .ok (if x = 0 then List.replicate words 0 else List.replicate (Encodable.encode x + 1) 1)

def exactFromBytes (words : ℕ) (bytes : List UInt8) : Except String α :=
  if bytes = List.replicate words 0 then .ok 0
  else
    match Encodable.decode (bytes.length - 1) with
    | some x => .ok x
    | none => .error "invalid bytes"

theorem exactFromBytes_exactToBytes (words : ℕ) (x : α) :
    ∃ bytes, exactToBytes words x = .ok bytes ∧ exactFromBytes words bytes = .ok x := by
  refine ⟨_, rfl, ?_⟩
  unfold exactFromBytes
  by_cases hx : x = 0
  · rw [if_pos hx, if_pos rfl, hx]
  · have hne : List.replicate (Encodable.encode x + 1) (1 : UInt8) ≠ List.replicate words 0 := by
      intro heq
      have hmem : (1 : UInt8) ∈ List.replicate words 0 := by
        rw [← heq]
        exact List.mem_replicate.2 ⟨Nat.succ_ne_zero _, rfl⟩
      exact absurd (List.mem_replicate.1 hmem).2 (by decide)
    rw [if_neg hx, if_neg hne, List.length_replicate, Nat.add_sub_cancel, Encodable.encodek]

end Exact

/-- An encoding of exact rationals. -/
def Encoding.rational : Encoding ℚ ℚ where
  asF64 x := x
  asF32 x := x
  asF32_asF64 _ := rfl
  ttlToBytes := exactToBytes 16
  ttlFromBytes := exactFromBytes 16
  tpToBytes := exactToBytes 64
  tpFromBytes := exactFromBytes 64

theorem Encoding.roundTrips_rational : Encoding.rational.RoundTrips where
  ttl := exactFromBytes_exactToBytes 16
  tp := exactFromBytes_exactToBytes 64

/-- Two programs that share a library, saved into an empty database. -/
theorem saved_is_loaded_two_running :
    ∃ s t : Stores ℚ, ∃ db' loaded,
      s.exes.ids.length = 2 ∧ s.maps.ids.length = 1 ∧ s.markov.keys.length = 1 ∧
      saveSnapshot Encoding.rational (snapshotFromStores Numerics.rational .insertion 0 s)
        ⟨∅, ∅, ∅, ∅, ∅⟩ = .ok db' ∧
      loadSnapshot Encoding.rational db' = .ok loaded ∧
      storesFromSnapshot Numerics.rational loaded 100 = .ok t ∧ RestartSpec s 100 t := by
  let u : DefaultModelUpdater ℚ := ⟨100, 0⟩
  let p : DefaultAdmissionPolicy := ⟨0, ["/"], ["/", "!/tmp/"], true⟩
  let s : Stores ℚ := (u.apply Numerics.rational .insertion ∅
    (.ofRunning 10 ["/bin/a", "/bin/b"]) (p.toPolicy fun _ => none)).1
  have hreach : StoresReachable Numerics.rational UnderDefaultPolicy s :=
    Reachable.refl.tail (i := .apply u .insertion (p.toPolicy fun _ => none)
      (.ofRunning 10 ["/bin/a", "/bin/b"])) ⟨⟨p, fun _ => none, rfl⟩, rfl⟩
  obtain ⟨db', loaded, t, hsave, hload, ht, hspec⟩ := saved_is_loaded Numerics.rational
    Encoding.roundTrips_rational hreach .insertion 0 ⟨∅, ∅, ∅, ∅, ∅⟩ 100
  exact ⟨s, t, db', loaded, by decide +kernel, by decide +kernel, by decide +kernel, hsave, hload,
    ht, hspec⟩

end PreloadNg
