import PreloadNg.Domain
import PreloadNg.Lib.MultiMap

set_option autoImplicit false

/-! # The executable/map index

The relation between executables and the map segments they use, stored in both directions. That
the two directions agree and hold no empty set is part of the type. -/

namespace PreloadNg

open MultiMap

structure ExeMapIndex where
  exeToMaps : FxHashMap ExeId (FxHashSet MapId)
  mapToExes : FxHashMap MapId (FxHashSet ExeId)
  /-- The two directions are inverse to each other. -/
  inverse : ∀ e m, Has exeToMaps e m ↔ Has mapToExes m e
  exe_noEmpty : NoEmpty exeToMaps
  map_noEmpty : NoEmpty mapToExes

namespace ExeMapIndex

instance : DecidableEq ExeMapIndex := fun a b =>
  decidable_of_iff (a.exeToMaps = b.exeToMaps ∧ a.mapToExes = b.mapToExes)
    (by cases a; cases b; simp)

def empty : ExeMapIndex where
  exeToMaps := ∅
  mapToExes := ∅
  inverse := by simp [Has]
  exe_noEmpty := by simp [NoEmpty]
  map_noEmpty := by simp [NoEmpty]

instance : EmptyCollection ExeMapIndex := ⟨empty⟩

/-- The stored relation. -/
def Rel (x : ExeMapIndex) (e : ExeId) (m : MapId) : Prop := Has x.exeToMaps e m

def attach (x : ExeMapIndex) (exeId : ExeId) (mapId : MapId) : ExeMapIndex where
  exeToMaps := link x.exeToMaps exeId mapId
  mapToExes := link x.mapToExes mapId exeId
  inverse := by
    intro e m
    rw [has_link, has_link, x.inverse]
    tauto
  exe_noEmpty := noEmpty_link x.exe_noEmpty exeId mapId
  map_noEmpty := noEmpty_link x.map_noEmpty mapId exeId

def mapsForExe (x : ExeMapIndex) (exeId : ExeId) : List MapId := values x.exeToMaps exeId

def exesForMap (x : ExeMapIndex) (mapId : MapId) : List ExeId := values x.mapToExes mapId

/-- Remove the set of the map, then the map from the set of each of its executables. -/
def detachMap (x : ExeMapIndex) (mapId : MapId) : ExeMapIndex where
  exeToMaps := unlinkAll x.exeToMaps (x.exesForMap mapId) mapId
  mapToExes := x.mapToExes.remove mapId
  inverse := by
    intro e m
    rw [has_unlinkAll, has_remove, ← x.inverse, exesForMap, mem_values, ← x.inverse]
    by_cases hm : m = mapId
    · subst hm
      tauto
    · tauto
  exe_noEmpty := noEmpty_unlinkAll _ x.exe_noEmpty mapId
  map_noEmpty := noEmpty_remove x.map_noEmpty mapId

/-- Remove the set of the executable, then the executable from the set of each of its maps. -/
def removeExe (x : ExeMapIndex) (exeId : ExeId) : ExeMapIndex where
  exeToMaps := x.exeToMaps.remove exeId
  mapToExes := unlinkAll x.mapToExes (x.mapsForExe exeId) exeId
  inverse := by
    intro e m
    rw [has_unlinkAll, has_remove, x.inverse, mapsForExe, mem_values, x.inverse]
    by_cases he : e = exeId
    · subst he
      tauto
    · tauto
  exe_noEmpty := noEmpty_remove x.exe_noEmpty exeId
  map_noEmpty := noEmpty_unlinkAll _ x.map_noEmpty exeId

@[simp] theorem rel_empty (e : ExeId) (m : MapId) : ¬ (∅ : ExeMapIndex).Rel e m := by
  rintro ⟨s, hs, -⟩
  exact absurd hs (by simp [EmptyCollection.emptyCollection, empty, FxHashMap.get?, AList.lookup])

theorem rel_attach (x : ExeMapIndex) (exeId : ExeId) (mapId : MapId) (e : ExeId) (m : MapId) :
    (x.attach exeId mapId).Rel e m ↔ (e = exeId ∧ m = mapId) ∨ x.Rel e m :=
  has_link x.exeToMaps exeId e mapId m

theorem attach_eq_self {x : ExeMapIndex} {e : ExeId} {m : MapId} (h : x.Rel e m) :
    x.attach e m = x := by
  have hinverse := (x.inverse e m).1 h
  obtain ⟨exeToMaps, mapToExes, _, _, _⟩ := x
  simp only [attach, link_eq_self h, link_eq_self hinverse]

theorem rel_detachMap (x : ExeMapIndex) (mapId : MapId) (e : ExeId) (m : MapId) :
    (x.detachMap mapId).Rel e m ↔ x.Rel e m ∧ m ≠ mapId := by
  unfold Rel
  rw [(x.detachMap mapId).inverse, x.inverse]
  show Has (x.mapToExes.remove mapId) m e ↔ _
  rw [has_remove]
  tauto

theorem rel_removeExe (x : ExeMapIndex) (exeId : ExeId) (e : ExeId) (m : MapId) :
    (x.removeExe exeId).Rel e m ↔ x.Rel e m ∧ e ≠ exeId := by
  show Has (x.exeToMaps.remove exeId) e m ↔ _
  rw [has_remove]
  exact and_comm

theorem mem_mapsForExe (x : ExeMapIndex) (e : ExeId) (m : MapId) :
    m ∈ x.mapsForExe e ↔ x.Rel e m :=
  mem_values x.exeToMaps e m

theorem mem_exesForMap (x : ExeMapIndex) (e : ExeId) (m : MapId) :
    e ∈ x.exesForMap m ↔ x.Rel e m := by
  rw [exesForMap, mem_values, ← x.inverse]
  rfl

theorem mapsForExe_nodup (x : ExeMapIndex) (e : ExeId) : (x.mapsForExe e).Nodup :=
  values_nodup x.exeToMaps e

theorem exesForMap_nodup (x : ExeMapIndex) (m : MapId) : (x.exesForMap m).Nodup :=
  values_nodup x.mapToExes m

end ExeMapIndex

end PreloadNg
