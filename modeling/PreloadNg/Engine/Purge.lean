import PreloadNg.Engine.EngineRun
import PreloadNg.Engine.WellFormed

set_option autoImplicit false

/-! # Purging maps

`load` removes the maps that the policy denies, a tick those whose file is gone, one key after the
other. What is left is the stores without these maps, whatever the order of the keys. -/

namespace PreloadNg

variable {F16 F32 : Type}

/-- `t` is `s` without the maps whose key is gone, and without their pairs. -/
structure Purged (gone : MapKey → Prop) (s t : Stores F16) : Prop extends s.SameButMaps t where
  /-- The other maps stay under their ids. -/
  maps : ∀ id m, t.maps.get? id = some m ↔ s.maps.get? id = some m ∧ ¬ gone m.key
  idByKey : ∀ key id, t.maps.idByKey key = some id ↔ s.maps.idByKey key = some id ∧ ¬ gone key
  rel : ∀ e id, t.exeMaps.Rel e id ↔ s.exeMaps.Rel e id ∧ t.LiveMap id
  wf : t.WF

/-- The two stores agree in everything but the order in which vacant slots will be reused. -/
structure Stores.Alike (t t' : Stores F16) : Prop extends t.SameButMaps t' where
  iter : t'.maps.iter = t.maps.iter
  idByKey : ∀ key, t'.maps.idByKey key = t.maps.idByKey key
  rel : ∀ e id, t'.exeMaps.Rel e id ↔ t.exeMaps.Rel e id

namespace Purged

variable {gone : MapKey → Prop} {s t t' : Stores F16}

/-- Only what is said of stored keys matters. -/
theorem congr {gone' : MapKey → Prop} (h : Purged gone s t)
    (hgone : ∀ id m, s.maps.get? id = some m → (gone m.key ↔ gone' m.key)) :
    Purged gone' s t where
  toSameButMaps := h.toSameButMaps
  maps id m := by
    rw [h.maps]
    exact and_congr_right fun hm => not_congr (hgone id m hm)
  idByKey key id := by
    rw [h.idByKey]
    refine and_congr_right fun hid => not_congr ?_
    obtain ⟨m, hm, rfl⟩ := KeyedStore.idByKey_eq_some.1 hid
    exact hgone id m hm
  rel := h.rel
  wf := h.wf

/-- The stores that are left are determined. -/
theorem alike (h : Purged gone s t) (h' : Purged gone s t') : t.Alike t' where
  exes := h'.exes.trans h.exes.symm
  markov := h'.markov.trans h.markov.symm
  active := h'.active.trans h.active.symm
  modelTime := h'.modelTime.trans h.modelTime.symm
  lastAccountingTime := h'.lastAccountingTime.trans h.lastAccountingTime.symm
  iter := SlotMap.iter_congr fun id => Option.ext fun m => (h'.maps id m).trans (h.maps id m).symm
  idByKey key := Option.ext fun id => (h'.idByKey key id).trans (h.idByKey key id).symm
  rel e id := by
    have hlive : t'.LiveMap id ↔ t.LiveMap id :=
      exists_congr fun m => (h'.maps id m).trans (h.maps id m).symm
    rw [h'.rel, h.rel, hlive]

end Purged

/-- Removing keys one by one. -/
theorem purged_removeMaps {s : Stores F16} (hs : s.WF) (keys : List MapKey) :
    Purged (fun key => key ∈ keys) s (keys.foldl Stores.removeMapByKey s) where
  toSameButMaps := Stores.sameButMaps_removeMaps keys s
  maps := Stores.get?_removeMaps keys s
  idByKey key id := by
    rw [KeyedStore.idByKey_eq_some, KeyedStore.idByKey_eq_some]
    simp only [Stores.get?_removeMaps]
    constructor
    · rintro ⟨m, ⟨hm, hkept⟩, rfl⟩
      exact ⟨⟨m, hm, rfl⟩, hkept⟩
    · rintro ⟨⟨m, hm, rfl⟩, hkept⟩
      exact ⟨m, ⟨hm, hkept⟩, rfl⟩
  rel e id := by
    rw [Stores.rel_removeMaps]
    refine and_congr_right fun hrel => ?_
    obtain ⟨m, hm⟩ := hs.map_live e id hrel
    simp [Stores.LiveMap, Stores.get?_removeMaps, hm]
  wf := Stores.wf_removeMaps hs keys

/-- The keys that `load` removes are those of the stored maps that the policy denies. -/
theorem mem_deniedKeys {admission : AdmissionPolicy} {s : Stores F16} {id : MapId}
    {m : MapSegment} (hm : s.maps.get? id = some m) :
    m.key ∈ PreloadEngine.deniedKeys admission s ↔ admission.allowMap m.key.path = false := by
  simp only [PreloadEngine.deniedKeys, List.mem_map, List.mem_filter, Bool.not_eq_true']
  constructor
  · rintro ⟨⟨id', m'⟩, ⟨-, hdenied⟩, hkey⟩
    rw [← hkey]
    exact hdenied
  · intro hdenied
    exact ⟨(id, m), ⟨(s.maps.mem_iter id m).2 hm, hdenied⟩, rfl⟩

/-- Removing maps by their keys removes just these maps, in whatever order, and so do the purges of
    `load` and of a tick. -/
theorem purge_exact {s : Stores F16} (hs : s.WF) :
    (∀ keys : List MapKey,
      Purged (fun key => key ∈ keys) s (keys.foldl Stores.removeMapByKey s)) ∧
    (∀ keys keys' : List MapKey, (∀ key, key ∈ keys ↔ key ∈ keys') →
      (keys.foldl Stores.removeMapByKey s).Alike (keys'.foldl Stores.removeMapByKey s)) ∧
    (∀ admission : AdmissionPolicy,
      Purged (fun key => admission.allowMap key.path = false) s
        ((PreloadEngine.deniedKeys admission s).foldl Stores.removeMapByKey s)) ∧
    ∀ (exist : Path → Bool) (failures : List MapKey),
      Purged (fun key => key ∈ failures ∧ exist key.path = false) s
        (PreloadEngine.removeStale exist s failures) := by
  refine ⟨purged_removeMaps hs, fun keys keys' hkeys => ?_, fun admission => ?_,
    fun exist failures => ?_⟩
  · exact (purged_removeMaps hs keys).alike
      ((purged_removeMaps hs keys').congr fun _ m _ => (hkeys m.key).symm)
  · exact (purged_removeMaps hs _).congr fun _ _ hm => mem_deniedKeys hm
  · rw [PreloadEngine.removeStale_eq]
    exact (purged_removeMaps hs _).congr fun _ m _ => by simp

/-- A map that two programs share is removed, with a key that is repeated and one that is unknown. -/
theorem purge_exact_shared_map :
    let libc := MapSegment.new (Path.ofString "/lib/libc.so") 0 4096 10
    let libm := MapSegment.new (Path.ofString "/lib/libm.so") 0 4096 10
    let unknown : MapKey := ⟨Path.ofString "/tmp/cache.so", 0, 4096⟩
    let obs : Observation :=
      [.obsBegin 10 1, .exeSeen (Path.ofString "/bin/a") 1, .mapSeen (Path.ofString "/bin/a") libc,
       .mapSeen (Path.ofString "/bin/a") libm, .exeSeen (Path.ofString "/bin/b") 2,
       .mapSeen (Path.ofString "/bin/b") libc, .obsEnd 10 1 []]
    let u : DefaultModelUpdater ℚ := ⟨100, 1⟩
    let s : Stores ℚ := (u.apply Numerics.rational .insertion ∅ obs .permissive).1
    let keys := [libc.key, unknown, libc.key]
    s.WF ∧ s.maps.iter.map (fun row => row.2.key) = [libc.key, libm.key] ∧
      ((keys.foldl Stores.removeMapByKey s).maps.iter.map fun row => row.2.key) = [libm.key] ∧
      Purged (fun key => key ∈ keys) s (keys.foldl Stores.removeMapByKey s) := by
  intro libc libm unknown obs u s keys
  have hs : s.WF :=
    (apply_spec Numerics.rational u .insertion ∅ obs .permissive).wf Stores.wf_empty
  exact ⟨hs, by decide +kernel, by decide +kernel, (purge_exact hs).1 keys⟩

end PreloadNg
