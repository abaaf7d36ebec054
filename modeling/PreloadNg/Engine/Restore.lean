import PreloadNg.Persistence.Snapshot
import PreloadNg.Stores.Basic

set_option autoImplicit false

/-! # Taking and restoring snapshots

`snapshot_from_stores` and `stores_from_snapshot` of the engine. Restoring runs one loop for each
kind of record; each loop body is a definition of its own. -/

namespace PreloadNg

variable {F16 F32 : Type} [Float32Ops F32] (num : Numerics F16 F32)

/-! ## Taking a snapshot -/

def exeRecord (e : Exe) : ExeRecord where
  path := e.key.path
  totalRunningTime := e.totalRunningTime
  lastSeenTime := e.lastSeenTime

def mapRecord (m : MapSegment) : MapRecord where
  path := m.path
  offset := m.offset
  length := m.length
  updateTime := m.updateTime

/-- The exe-map records of one executable, its maps in hash order. -/
def exeMapRecords (ord : HashOrder) (s : Stores F16) (exe : ExeId × Exe) :
    List (ExeMapRecord F32) :=
  (ord.enum (s.exeMaps.mapsForExe exe.1)).filterMap fun mapId =>
    (s.maps.get? mapId).map fun map => { exePath := exe.2.key.path, mapKey := map.key, prob := 1 }

def markovRecord (s : Stores F16) (row : EdgeKey × Edge F16) : Option (MarkovRecord F32) := do
  let exeA ← s.exes.get? row.1.a
  let exeB ← s.exes.get? row.1.b
  return {
    exeA := exeA.key.path
    exeB := exeB.key.path
    timeToLeave := row.2.timeToLeaveF32 num
    transitionProb := row.2.transitionProbF32 num
    bothRunningTime := row.2.bothRunningTime }

/-- `snapshot_from_stores`; `createdAt` is the clock of the host. -/
def snapshotFromStores (ord : HashOrder) (createdAt : ℤ) (s : Stores F16) : StoresSnapshot F32 where
  info :=
    { schemaVersion := SNAPSHOT_SCHEMA_VERSION
      appVersion := none
      createdAt := some createdAt }
  state :=
    { modelTime := s.modelTime
      lastAccountingTime := s.lastAccountingTime
      exes := s.exes.iter.map fun row => exeRecord row.2
      maps := s.maps.iter.map fun row => mapRecord row.2
      exeMaps := s.exes.iter.flatMap (exeMapRecords ord s)
      markovEdges := s.markov.iter.filterMap (markovRecord num s) }

/-! ## Restoring -/

def restoreMap (s : Stores F16) (r : MapRecord) : Stores F16 :=
  (s.ensureMap (MapSegment.new r.path r.offset r.length r.updateTime)).1

/-- Write the two persisted fields. -/
def Exe.restore (r : ExeRecord) (e : Exe) : Exe :=
  { e with totalRunningTime := r.totalRunningTime, lastSeenTime := r.lastSeenTime }

theorem Exe.key_restore (r : ExeRecord) (e : Exe) : (e.restore r).key = e.key := rfl

def restoreExe (s : Stores F16) (r : ExeRecord) : Stores F16 :=
  let (s, exeId) := s.ensureExe ⟨r.path⟩
  { s with exes := s.exes.modify exeId (Exe.restore r) (Exe.key_restore r) }

/-- Whether the executable was seen within the window, at the restored model time. -/
def Exe.isRecent (modelTime activeWindow : UInt64) (e : Exe) : Bool :=
  match e.lastSeenTime with
  | some lastSeen => decide (satSub modelTime lastSeen ≤ activeWindow)
  | none => false

/-- One round of the loop that rebuilds the active set. -/
def restoreActive (activeWindow : UInt64) (s : Stores F16) (row : ExeId × Exe) : Stores F16 :=
  if row.2.isRecent s.modelTime activeWindow then
    { s with active := s.active.update [row.1] s.modelTime }
  else s

/-- `Option::ok_or_else`. -/
def okOr {α : Type} (o : Option α) (e : Error) : Except Error α :=
  match o with
  | some a => .ok a
  | none => .error e

@[simp] theorem okOr_eq_ok {α : Type} {o : Option α} {e : Error} {a : α} :
    okOr o e = .ok a ↔ o = some a := by
  cases o <;> simp [okOr]

def restoreExeMap (s : Stores F16) (r : ExeMapRecord F32) : Except Error (Stores F16) := do
  let exeId ← okOr (s.exes.idByKey ⟨r.exePath⟩) (.exeMissing r.exePath)
  let mapId ← okOr (s.maps.idByKey r.mapKey) (.mapMissing r.mapKey.path)
  return s.attachMap exeId mapId

/-- Overwrite the statistics of a restored edge. -/
def Edge.restore (r : MarkovRecord F32) (e : Edge F16) : Edge F16 :=
  { (e.setTimeToLeaveF32 num r.timeToLeave).setTransitionProbF32 num r.transitionProb with
    bothRunningTime := r.bothRunningTime }

def restoreEdge (s : Stores F16) (r : MarkovRecord F32) : Except Error (Stores F16) := do
  let a ← okOr (s.exes.idByKey ⟨r.exeA⟩) (.exeMissing r.exeA)
  let b ← okOr (s.exes.idByKey ⟨r.exeB⟩) (.exeMissing r.exeB)
  let key := EdgeKey.new a b
  let (s, isNew) := s.ensureMarkovEdge num.zero a b s.modelTime .neither
  return if isNew then { s with markov := s.markov.modify key (Edge.restore num r) } else s

/-- `stores_from_snapshot`. -/
def storesFromSnapshot (snapshot : StoresSnapshot F32) (activeWindow : UInt64) :
    Except Error (Stores F16) := do
  let state := snapshot.state
  let s : Stores F16 :=
    { (∅ : Stores F16) with
      modelTime := state.modelTime
      lastAccountingTime := state.lastAccountingTime }
  let s := state.maps.foldl restoreMap s
  let s := state.exes.foldl restoreExe s
  let s := s.exes.iter.foldl (restoreActive activeWindow) s
  let s ← state.exeMaps.foldlM restoreExeMap s
  let s ← state.markovEdges.foldlM (restoreEdge num) s
  return { s with markov := s.markov.pruneInactive s.active.exes }

end PreloadNg
