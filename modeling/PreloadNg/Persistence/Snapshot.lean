import PreloadNg.Domain

set_option autoImplicit false

/-! # Snapshots

The records a snapshot consists of. Statistics are widened to `f32`. -/

namespace PreloadNg

structure SnapshotMeta where
  schemaVersion : UInt32
  appVersion : Option String
  /-- Nanoseconds since the epoch. -/
  createdAt : Option ℤ
deriving DecidableEq

def SNAPSHOT_SCHEMA_VERSION : UInt32 := 1

/-- The metadata before anything was saved. -/
def SnapshotMeta.initial : SnapshotMeta := ⟨SNAPSHOT_SCHEMA_VERSION, none, none⟩

structure ExeRecord where
  path : Path
  totalRunningTime : UInt64
  lastSeenTime : Option UInt64
deriving DecidableEq

structure MapRecord where
  path : Path
  offset : UInt64
  length : UInt64
  updateTime : UInt64
deriving DecidableEq

def MapRecord.key (r : MapRecord) : MapKey := ⟨r.path, r.offset, r.length⟩

structure ExeMapRecord (F32 : Type) where
  exePath : Path
  mapKey : MapKey
  prob : F32
deriving DecidableEq

structure MarkovRecord (F32 : Type) where
  exeA : Path
  exeB : Path
  timeToLeave : Fin 4 → F32
  transitionProb : Fin 4 → Fin 4 → F32
  bothRunningTime : UInt64
deriving DecidableEq

structure StateSnapshot (F32 : Type) where
  modelTime : UInt64
  lastAccountingTime : UInt64
  exes : List ExeRecord
  maps : List MapRecord
  exeMaps : List (ExeMapRecord F32)
  markovEdges : List (MarkovRecord F32)
deriving DecidableEq

structure StoresSnapshot (F32 : Type) where
  info : SnapshotMeta
  state : StateSnapshot F32
deriving DecidableEq

/-- What an empty repository returns. -/
def StoresSnapshot.empty (F32 : Type) : StoresSnapshot F32 where
  info := SnapshotMeta.initial
  state :=
    { modelTime := 0
      lastAccountingTime := 0
      exes := []
      maps := []
      exeMaps := []
      markovEdges := [] }

/-- The errors of scanning, restoring and persisting. -/
inductive Error where
  | procfs (message : String)
  | exeMissing (path : Path)
  | mapMissing (path : Path)
  | sqlx (message : String)
  | rkyvSerialize (message : String)
  | rkyvDeserialize (message : String)
deriving DecidableEq

end PreloadNg
