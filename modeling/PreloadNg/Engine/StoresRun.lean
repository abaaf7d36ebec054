import PreloadNg.Engine.SnapshotSpec
import PreloadNg.Lib.Transition
import PreloadNg.Observation.ApplySpec

set_option autoImplicit false

/-! # Runs of the stores

The operations through which the engine changes its stores, as one labelled transition system.
Restrictions on a run (a fixed window, times that do not decrease, a policy) are restrictions of the
step relation. -/

namespace PreloadNg

variable {F16 F32 : Type} [Float32Ops F32] (num : Numerics F16 F32)

/-- `model_time` advances by one cycle, as at the end of a tick. -/
def Stores.advance (s : Stores F16) (cycle : UInt64) : Stores F16 :=
  { s with modelTime := satAdd s.modelTime cycle }

inductive StoresOp (F32 : Type) where
  | apply (updater : DefaultModelUpdater F32) (ord : HashOrder) (policy : AdmissionPolicy)
      (obs : Observation)
  | advance (cycle : UInt64)
  | removeMap (key : MapKey)
  | restart (ord : HashOrder) (createdAt : ℤ) (activeWindow : UInt64)

def StoresOp.exec (s : Stores F16) : StoresOp F32 → Except Error (Stores F16)
  | .apply updater ord policy obs => .ok (updater.apply num ord s obs policy).1
  | .advance cycle => .ok (s.advance cycle)
  | .removeMap key => .ok (s.removeMapByKey key)
  | .restart ord createdAt activeWindow =>
    storesFromSnapshot num (snapshotFromStores num ord createdAt s) activeWindow

/-- A step by an operation that is allowed in the state. -/
def StoresStep (allowed : Stores F16 → StoresOp F32 → Prop) (s : Stores F16) (op : StoresOp F32)
    (s' : Stores F16) : Prop :=
  allowed s op ∧ op.exec num s = .ok s'

/-- The stores that runs of allowed operations lead to from the empty stores. -/
def StoresReachable (allowed : Stores F16 → StoresOp F32 → Prop) : Stores F16 → Prop :=
  Reachable (StoresStep num allowed) ∅

end PreloadNg
