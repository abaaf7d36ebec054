import Mathlib.Data.Set.Insert
import PreloadNg.Stores.ExeMapIndex

set_option autoImplicit false

/-! # The executable/map index as a relation

An index stands for a set of pairs. Each call on the index is the corresponding change of that set,
so any sequence of calls is. -/

namespace PreloadNg

open MultiMap

/-- The pairs an index stands for. -/
def ExeMapIndex.toRel (x : ExeMapIndex) : Set (ExeId × MapId) := {pair | x.Rel pair.1 pair.2}

/-- A call on the index. -/
inductive IndexOp where
  | attach (exeId : ExeId) (mapId : MapId)
  | detachMap (mapId : MapId)
  | removeExe (exeId : ExeId)

namespace IndexOp

def exec (x : ExeMapIndex) : IndexOp → ExeMapIndex
  | attach exeId mapId => x.attach exeId mapId
  | detachMap mapId => x.detachMap mapId
  | removeExe exeId => x.removeExe exeId

/-- What the call does to the relation. -/
def onRel (r : Set (ExeId × MapId)) : IndexOp → Set (ExeId × MapId)
  | attach exeId mapId => insert (exeId, mapId) r
  | detachMap mapId => {pair ∈ r | pair.2 ≠ mapId}
  | removeExe exeId => {pair ∈ r | pair.1 ≠ exeId}

theorem toRel_exec (x : ExeMapIndex) (op : IndexOp) : (op.exec x).toRel = op.onRel x.toRel := by
  ext ⟨e, m⟩
  cases op with
  | attach exeId mapId =>
      rw [onRel, Set.mem_insert_iff, Prod.mk.injEq]
      exact x.rel_attach exeId mapId e m
  | detachMap mapId => exact x.rel_detachMap mapId e m
  | removeExe exeId => exact x.rel_removeExe exeId e m

/-- The relation after any sequence of calls. -/
theorem toRel_execs (ops : List IndexOp) (x : ExeMapIndex) :
    (ops.foldl exec x).toRel = ops.foldl onRel x.toRel :=
  (List.foldl_hom ExeMapIndex.toRel fun x op => (toRel_exec x op).symm).symm

end IndexOp

/-- The two maps of `x` store the relation `r`, each in its direction. -/
structure ExeMapIndex.Represents (x : ExeMapIndex) (r : Set (ExeId × MapId)) : Prop where
  exeToMaps : ∀ e m, Has x.exeToMaps e m ↔ (e, m) ∈ r
  mapToExes : ∀ e m, Has x.mapToExes m e ↔ (e, m) ∈ r
  exe_noEmpty : NoEmpty x.exeToMaps
  map_noEmpty : NoEmpty x.mapToExes
  /-- The iterators yield each related id once. -/
  mapsForExe : ∀ e, (x.mapsForExe e).Nodup ∧ ∀ m, m ∈ x.mapsForExe e ↔ (e, m) ∈ r
  exesForMap : ∀ m, (x.exesForMap m).Nodup ∧ ∀ e, e ∈ x.exesForMap m ↔ (e, m) ∈ r

theorem ExeMapIndex.represents_toRel (x : ExeMapIndex) : x.Represents x.toRel where
  exeToMaps _ _ := Iff.rfl
  mapToExes e m := (x.inverse e m).symm
  exe_noEmpty := x.exe_noEmpty
  map_noEmpty := x.map_noEmpty
  mapsForExe e := ⟨x.mapsForExe_nodup e, x.mem_mapsForExe e⟩
  exesForMap m := ⟨x.exesForMap_nodup m, fun e => x.mem_exesForMap e m⟩

/-- After any sequence of calls, the index stores the relation that the calls lead to. -/
theorem index_implements_relation (ops : List IndexOp) :
    (ops.foldl IndexOp.exec ∅).Represents (ops.foldl IndexOp.onRel ∅) := by
  have hempty : (∅ : ExeMapIndex).toRel = ∅ :=
    Set.eq_empty_of_forall_notMem fun pair => ExeMapIndex.rel_empty pair.1 pair.2
  rw [← hempty, ← IndexOp.toRel_execs]
  exact ExeMapIndex.represents_toRel _

end PreloadNg
