import Mathlib.Data.List.Sort
import PreloadNg.Prediction.Predictor

set_option autoImplicit false

/-! # The planner

`GreedyPrefetchPlanner` takes the maps in the order of their scores as long as they fit into the
memory budget, then orders the selection for reading. -/

namespace PreloadNg

@[ext]
structure PrefetchPlan where
  maps : List MapId
  totalBytes : UInt64
  budgetBytes : UInt64
deriving DecidableEq

/-- The plan that is used without a prediction. -/
def PrefetchPlan.empty : PrefetchPlan := ⟨[], 0, 0⟩

structure PrefetchReport where
  numMaps : ℕ
  totalBytes : UInt64
  failures : List MapKey
deriving DecidableEq

inductive SortStrategy where
  | none
  | path
  | block
  | inode
deriving DecidableEq

/-- Block size used for computing the block index. -/
def DEFAULT_BLOCK_SIZE : UInt64 := 4096

/-- Percentages of the total and of the available memory that make up the budget. -/
structure MemoryPolicy where
  memtotal : Int32
  memavailable : Int32
deriving DecidableEq

namespace MemoryPolicy

/-- `MemoryPolicy::default()`. -/
def default : MemoryPolicy := ⟨-5, 95⟩

/-- `percent.clamp(-100, 100)`. -/
def clampPercent (percent : Int32) : Int32 :=
  if percent < -100 then -100 else if 100 < percent then 100 else percent

def clamp (policy : MemoryPolicy) : MemoryPolicy where
  memtotal := clampPercent policy.memtotal
  memavailable := clampPercent policy.memavailable

end MemoryPolicy

structure GreedyPrefetchPlanner where
  sort : SortStrategy
  memtotal : Int32
  memavailable : Int32
deriving DecidableEq

/-- `GreedyPrefetchPlanner::new`, of the two settings it reads. -/
def GreedyPrefetchPlanner.new (sortstrategy : SortStrategy) (memory : MemoryPolicy) :
    GreedyPrefetchPlanner where
  sort := sortstrategy
  memtotal := memory.clamp.memtotal
  memavailable := memory.clamp.memavailable

structure SelectedMap (F16 : Type) where
  id : MapId
  score : F16
  index : ℕ

structure BlockKey where
  device : UInt64
  block : UInt64
  offset : UInt64

structure InodeKey where
  device : UInt64
  inode : UInt64
  offset : UInt64

def cmpU64 (a b : UInt64) : Ordering := compare a.toNat b.toNat

/-- The derived order: field by field. -/
def BlockKey.cmp (a b : BlockKey) : Ordering :=
  ((cmpU64 a.device b.device).then (cmpU64 a.block b.block)).then (cmpU64 a.offset b.offset)

def InodeKey.cmp (a b : InodeKey) : Ordering :=
  ((cmpU64 a.device b.device).then (cmpU64 a.inode b.inode)).then (cmpU64 a.offset b.offset)

section Planner

variable {F16 F32 : Type} (num : Numerics F16 F32)

/-- The order of `sort_by_score_and_key`: the higher score first, then the smaller key, items with a
    key before items without, and the order of selection last. -/
def cmpScoreAndKey {K : Type} (cmp : K → K → Ordering) (a b : SelectedMap F16 × Option K) :
    Ordering :=
  let scoreCmp := num.totalCmp b.1.score a.1.score
  if scoreCmp ≠ .eq then scoreCmp
  else
    match a.2, b.2 with
    | some aKey, some bKey => (cmp aKey bKey).then (compare a.1.index b.1.index)
    | some _, none => .lt
    | none, some _ => .gt
    | none, none => compare a.1.index b.1.index

def sortByScoreAndKey {K : Type} (cmp : K → K → Ordering)
    (items : List (SelectedMap F16 × Option K)) : List (SelectedMap F16 × Option K) :=
  items.insertionSort fun a b => (cmpScoreAndKey num cmp a b).isLE

/-- Attach the keys, sort, and drop the keys. -/
def sortBy {K : Type} (cmp : K → K → Ordering) (key : MapSegment → Option K) (maps : MapStore)
    (selected : List (SelectedMap F16)) : List (SelectedMap F16) :=
  let keyed := selected.map fun item => (item, (maps.get? item.id).bind key)
  (sortByScoreAndKey num cmp keyed).map Prod.fst

def blockKey (map : MapSegment) : Option BlockKey :=
  if map.device = 0 ∧ map.inode = 0 then none
  else some ⟨map.device, map.offset / DEFAULT_BLOCK_SIZE, map.offset⟩

def inodeKey (map : MapSegment) : Option InodeKey :=
  if map.device = 0 ∧ map.inode = 0 then none
  else some ⟨map.device, map.inode, map.offset⟩

namespace GreedyPrefetchPlanner

variable (planner : GreedyPrefetchPlanner)

/-- The budget in KiB, in 64-bit signed arithmetic. -/
def availableKb (mem : MemStat) : UInt64 :=
  let budget := planner.memtotal.toInt64 * mem.total.toInt64 / 100
  let budget := budget + planner.memavailable.toInt64 * mem.available.toInt64 / 100
  if budget < 0 then 0 else budget.toUInt64

/-- `bytes.div_ceil(1024)`. -/
def kb (bytes : UInt64) : UInt64 :=
  if bytes % 1024 = 0 then bytes / 1024 else bytes / 1024 + 1

structure Selection (F16 : Type) where
  budgetKb : UInt64
  selected : List (SelectedMap F16)
  totalBytes : UInt64

/-- One round of the loop over the scored maps. -/
def select (maps : MapStore) (sel : Selection F16) (item : MapId × F16) : Selection F16 :=
  match maps.get? item.1 with
  | none => sel
  | some map =>
    let mapKb := kb map.length
    if sel.budgetKb < mapKb then sel
    else
      { budgetKb := satSub sel.budgetKb mapKb
        totalBytes := satAdd sel.totalBytes map.length
        selected := sel.selected ++ [⟨item.1, item.2, sel.selected.length⟩] }

/-- The scored maps, highest score first. Hash order and the unstable sort leave the order of equal
    scores open. -/
def candidates (ord : HashOrder) (prediction : Prediction F16) : List (MapId × F16) :=
  (ord.enum (prediction.mapScores.iter.filter fun row => num.isPositive row.2)).insertionSort
    fun a b => (num.totalCmp b.2 a.2).isLE

def arrange (maps : MapStore) (selected : List (SelectedMap F16)) : List (SelectedMap F16) :=
  match planner.sort with
  | .none => selected
  | .path => sortBy num Path.cmp (fun map => some map.path) maps selected
  | .block => sortBy num BlockKey.cmp blockKey maps selected
  | .inode => sortBy num InodeKey.cmp inodeKey maps selected

def plan (ord : HashOrder) (prediction : Prediction F16) (s : Stores F16) (mem : MemStat) :
    PrefetchPlan :=
  let sel := (candidates num ord prediction).foldl (select s.maps)
    ⟨planner.availableKb mem, [], 0⟩
  { maps := (planner.arrange num s.maps sel.selected).map SelectedMap.id
    totalBytes := sel.totalBytes
    budgetBytes := planner.availableKb mem * 1024 }

end GreedyPrefetchPlanner

/-! ## What is planned -/

/-- Sorting only reorders the selection. -/
theorem perm_sortBy {K : Type} (cmp : K → K → Ordering) (key : MapSegment → Option K)
    (maps : MapStore) (selected : List (SelectedMap F16)) :
    (sortBy num cmp key maps selected).Perm selected := by
  have hsort := List.perm_insertionSort
    (fun a b => (cmpScoreAndKey num cmp a b).isLE = true)
    (selected.map fun item => (item, (maps.get? item.id).bind key))
  have hfst := hsort.map Prod.fst
  rw [List.map_map] at hfst
  exact hfst.trans (List.Perm.of_eq (List.map_id selected))

namespace GreedyPrefetchPlanner

variable {num} (planner : GreedyPrefetchPlanner)

theorem perm_arrange (maps : MapStore) (selected : List (SelectedMap F16)) :
    (planner.arrange num maps selected).Perm selected := by
  unfold arrange
  split
  · exact List.Perm.refl _
  · exact perm_sortBy num _ _ maps selected
  · exact perm_sortBy num _ _ maps selected
  · exact perm_sortBy num _ _ maps selected

/-- A round of the selection keeps what is selected and adds at most the map at hand, if it is
    stored. -/
theorem mem_select {maps : MapStore} {sel : Selection F16} {item : MapId × F16}
    {x : SelectedMap F16} (h : x ∈ (select maps sel item).selected) :
    x ∈ sel.selected ∨ (x.id = item.1 ∧ ∃ m, maps.get? item.1 = some m) := by
  unfold select at h
  split at h
  · exact Or.inl h
  · next m hm =>
      dsimp only at h
      split at h
      · exact Or.inl h
      · rcases List.mem_append.1 h with h | h
        · exact Or.inl h
        · obtain rfl := List.mem_singleton.1 h
          exact Or.inr ⟨rfl, m, hm⟩

/-- Every selected map is stored. -/
theorem live_of_mem_selected {maps : MapStore} {items : List (MapId × F16)} {sel : Selection F16}
    (hsel : ∀ x ∈ sel.selected, ∃ m, maps.get? x.id = some m) :
    ∀ x ∈ (items.foldl (select maps) sel).selected, ∃ m, maps.get? x.id = some m := by
  induction items generalizing sel with
  | nil => exact hsel
  | cons item rest ih =>
      rw [List.foldl_cons]
      refine ih ?_
      intro x hx
      rcases mem_select hx with hx | ⟨hid, hm⟩
      · exact hsel x hx
      · rw [hid]
        exact hm

/-- Every planned map is stored. -/
theorem live_of_mem_plan {ord : HashOrder} {prediction : Prediction F16} {s : Stores F16}
    {mem : MemStat} {id : MapId} (h : id ∈ (planner.plan num ord prediction s mem).maps) :
    ∃ m, s.maps.get? id = some m := by
  obtain ⟨x, hx, rfl⟩ := List.mem_map.1 h
  refine live_of_mem_selected ?_ x ((planner.perm_arrange s.maps _).mem_iff.1 hx)
  intro x hx
  exact absurd hx List.not_mem_nil

end GreedyPrefetchPlanner

end Planner

end PreloadNg
