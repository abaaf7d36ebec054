import PreloadNg.Lib.Table
import PreloadNg.Persistence.Snapshot

set_option autoImplicit false

/-! # The SQLite repository

The tables of the schema with their primary keys, and `save_snapshot` and `load_snapshot` over them.
Integers are stored as 64-bit signed, paths as text, statistics as the bytes `rkyv` makes of them. -/

namespace PreloadNg

/-! ## The schema -/

structure StateRow where
  id : Int64
  schemaVersion : Int64
  appVersion : Option String
  createdAt : Option String
  modelTime : Int64
  lastAccountingTime : Int64
  /-- `CHECK(id = 1)`. -/
  check : id = 1

structure ExeRow where
  path : String
  totalRunningTime : Int64
  lastSeenTime : Option Int64

structure MapRow where
  path : String
  offset : Int64
  length : Int64
  updateTime : Int64

structure ExeMapRow (F64 : Type) where
  exePath : String
  mapPath : String
  mapOffset : Int64
  mapLength : Int64
  prob : F64

structure MarkovRow where
  exeA : String
  exeB : String
  timeToLeave : List UInt8
  transitionProb : List UInt8
  bothRunningTime : Int64

def MapRow.key (r : MapRow) : String × Int64 × Int64 := (r.path, r.offset, r.length)

def ExeMapRow.key {F64 : Type} (r : ExeMapRow F64) : String × String × Int64 × Int64 :=
  (r.exePath, r.mapPath, r.mapOffset, r.mapLength)

def MarkovRow.key (r : MarkovRow) : String × String := (r.exeA, r.exeB)

structure Database (F64 : Type) where
  state : Table StateRow.id
  exes : Table ExeRow.path
  maps : Table MapRow.key
  exeMaps : Table (ExeMapRow.key : ExeMapRow F64 → _)
  markovs : Table MarkovRow.key

/-- `DELETE FROM` every table. -/
def Database.deleteAll {F64 : Type} (_ : Database F64) : Database F64 := ⟨∅, ∅, ∅, ∅, ∅⟩

/-- How `f32` values are written: one as `REAL`, arrays as the bytes of `rkyv`. -/
structure Encoding (F32 F64 : Type) where
  /-- `as f64`. -/
  asF64 : F32 → F64
  /-- `as f32`. -/
  asF32 : F64 → F32
  /-- Widening loses nothing. -/
  asF32_asF64 : ∀ x, asF32 (asF64 x) = x
  /-- `rkyv::to_bytes` of `[f32; 4]`. -/
  ttlToBytes : (Fin 4 → F32) → Except String (List UInt8)
  /-- `rkyv::from_bytes` of `[f32; 4]`. -/
  ttlFromBytes : List UInt8 → Except String (Fin 4 → F32)
  /-- `rkyv::to_bytes` of `[[f32; 4]; 4]`. -/
  tpToBytes : (Fin 4 → Fin 4 → F32) → Except String (List UInt8)
  /-- `rkyv::from_bytes` of `[[f32; 4]; 4]`. -/
  tpFromBytes : List UInt8 → Except String (Fin 4 → Fin 4 → F32)

/-- `rkyv` round-trips `f32` arrays. -/
structure Encoding.RoundTrips {F32 F64 : Type} (enc : Encoding F32 F64) : Prop where
  ttl : ∀ x, ∃ bytes, enc.ttlToBytes x = .ok bytes ∧ enc.ttlFromBytes bytes = .ok x
  tp : ∀ x, ∃ bytes, enc.tpToBytes x = .ok bytes ∧ enc.tpFromBytes bytes = .ok x

/-- `parse::<u64>()`. -/
def parseU64 (s : String) : Option UInt64 :=
  let digits :=
    match s.toList with
    | '+' :: rest => rest
    | cs => cs
  if digits ≠ [] ∧ digits.all Char.isDigit then
    let n := digits.foldl (fun n c => 10 * n + (c.toNat - '0'.toNat)) 0
    if n < 2 ^ 64 then some n.toUInt64 else none
  else none

section Repo

variable {F32 F64 : Type} (enc : Encoding F32 F64)

/-! ## Rows of records -/

/-- Whole seconds since the epoch, in decimal; nothing for a time before it. -/
def createdAtText (createdAt : ℤ) : Option String :=
  if 0 ≤ createdAt then some (toString (createdAt / 1000000000)) else none

def stateRow (snapshot : StoresSnapshot F32) : StateRow where
  id := 1
  schemaVersion := snapshot.info.schemaVersion.toUInt64.toInt64
  appVersion := snapshot.info.appVersion
  createdAt := snapshot.info.createdAt.bind createdAtText
  modelTime := snapshot.state.modelTime.toInt64
  lastAccountingTime := snapshot.state.lastAccountingTime.toInt64
  check := rfl

def exeRow (r : ExeRecord) : ExeRow where
  path := r.path.toStringLossy
  totalRunningTime := r.totalRunningTime.toInt64
  lastSeenTime := r.lastSeenTime.map UInt64.toInt64

def mapRow (r : MapRecord) : MapRow where
  path := r.path.toStringLossy
  offset := r.offset.toInt64
  length := r.length.toInt64
  updateTime := r.updateTime.toInt64

def exeMapRow (r : ExeMapRecord F32) : ExeMapRow F64 where
  exePath := r.exePath.toStringLossy
  mapPath := r.mapKey.path.toStringLossy
  mapOffset := r.mapKey.offset.toInt64
  mapLength := r.mapKey.length.toInt64
  prob := enc.asF64 r.prob

/-- `map_err` of a `rkyv` call. -/
def rkyvResult {α : Type} (wrap : String → Error) (result : Except String α) : Except Error α :=
  match result with
  | .ok a => .ok a
  | .error message => .error (wrap message)

def markovRow (r : MarkovRecord F32) : Except Error MarkovRow := do
  let ttl ← rkyvResult .rkyvSerialize (enc.ttlToBytes r.timeToLeave)
  let tp ← rkyvResult .rkyvSerialize (enc.tpToBytes r.transitionProb)
  return {
    exeA := r.exeA.toStringLossy
    exeB := r.exeB.toStringLossy
    timeToLeave := ttl
    transitionProb := tp
    bothRunningTime := r.bothRunningTime.toInt64 }

/-! ## Saving -/

/-- The error of a row whose primary key is taken. -/
def uniqueConstraint (columns : String) : Error :=
  .sqlx ("UNIQUE constraint failed: " ++ columns)

/-- `save_snapshot`: one transaction, so that a failure leaves the database as it was. -/
def saveSnapshot (snapshot : StoresSnapshot F32) (db : Database F64) :
    Except Error (Database F64) := do
  let db := db.deleteAll
  let state ← db.state.insert (uniqueConstraint "state.id") (stateRow snapshot)
  let exes ← snapshot.state.exes.foldlM
    (fun t r => pure (exeRow r) >>= t.insert (uniqueConstraint "exes.path")) db.exes
  let maps ← snapshot.state.maps.foldlM
    (fun t r => pure (mapRow r) >>=
      t.insert (uniqueConstraint "maps.path, maps.offset, maps.length")) db.maps
  let exeMaps ← snapshot.state.exeMaps.foldlM
    (fun t r => pure (exeMapRow enc r) >>=
      t.insert (uniqueConstraint
        "exe_maps.exe_path, exe_maps.map_path, exe_maps.map_offset, exe_maps.map_length"))
    db.exeMaps
  let markovs ← snapshot.state.markovEdges.foldlM
    (fun t r => markovRow enc r >>= t.insert (uniqueConstraint "markovs.exe_a, markovs.exe_b"))
    db.markovs
  return { state, exes, maps, exeMaps, markovs }

/-! ## Loading -/

def exeOfRow (row : ExeRow) : ExeRecord where
  path := Path.ofString row.path
  totalRunningTime := row.totalRunningTime.toUInt64
  lastSeenTime := row.lastSeenTime.map Int64.toUInt64

def mapOfRow (row : MapRow) : MapRecord where
  path := Path.ofString row.path
  offset := row.offset.toUInt64
  length := row.length.toUInt64
  updateTime := row.updateTime.toUInt64

def exeMapOfRow (row : ExeMapRow F64) : ExeMapRecord F32 where
  exePath := Path.ofString row.exePath
  mapKey := ⟨Path.ofString row.mapPath, row.mapOffset.toUInt64, row.mapLength.toUInt64⟩
  prob := enc.asF32 row.prob

def markovOfRow (row : MarkovRow) : Except Error (MarkovRecord F32) := do
  let timeToLeave ← rkyvResult .rkyvDeserialize (enc.ttlFromBytes row.timeToLeave)
  let transitionProb ← rkyvResult .rkyvDeserialize (enc.tpFromBytes row.transitionProb)
  return {
    exeA := Path.ofString row.exeA
    exeB := Path.ofString row.exeB
    timeToLeave := timeToLeave
    transitionProb := transitionProb
    bothRunningTime := row.bothRunningTime.toUInt64 }

/-- The metadata and the clocks, with their defaults when no state was saved. -/
def headOfRow (row : Option StateRow) : SnapshotMeta × UInt64 × UInt64 :=
  match row with
  | none => (SnapshotMeta.initial, 0, 0)
  | some row =>
    ({ schemaVersion := row.schemaVersion.toUInt64.toUInt32
       appVersion := row.appVersion
       createdAt := (row.createdAt.bind parseU64).map fun secs => secs.toNat * 1000000000 },
     row.modelTime.toUInt64, row.lastAccountingTime.toUInt64)

/-- `load_snapshot`. -/
def loadSnapshot (db : Database F64) : Except Error (StoresSnapshot F32) := do
  let (info, modelTime, lastAccountingTime) :=
    headOfRow (db.state.rows.find? fun row => row.id = 1)
  let markovEdges ← db.markovs.rows.mapM (markovOfRow enc)
  return {
    info := info
    state :=
      { modelTime := modelTime
        lastAccountingTime := lastAccountingTime
        exes := db.exes.rows.map exeOfRow
        maps := db.maps.rows.map mapOfRow
        exeMaps := db.exeMaps.rows.map (exeMapOfRow enc)
        markovEdges := markovEdges } }

end Repo

end PreloadNg
