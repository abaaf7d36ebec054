import PreloadNg.Prefetch.PlanSelection

set_option autoImplicit false

/-! # The order of a plan

All sort strategies share the comparator of `sort_by_score_and_key`: score, key, place in the
selection. It tells the selected maps apart, so that the unstable sort has one result. -/

namespace PreloadNg

/-! ## The comparators are orders -/

theorem Path.compareBytes_eq (a b : List UInt8) :
    Path.compareBytes a b = List.compareLex (fun x y => compare x.toNat y.toNat) a b := by
  induction a generalizing b with
  | nil => cases b <;> rfl
  | cons x xs ih =>
      cases b with
      | nil => rfl
      | cons y ys => rw [Path.compareBytes, List.compareLex_cons_cons, ih]

theorem Path.compareComponents_eq (a b : List Path.Component) :
    Path.compareComponents a b = List.compareLex Path.Component.cmp a b := by
  induction a generalizing b with
  | nil => cases b <;> rfl
  | cons x xs ih =>
      cases b with
      | nil => rfl
      | cons y ys => rw [Path.compareComponents, List.compareLex_cons_cons, ih]

instance instTransCmpBytes : Std.TransCmp Path.compareBytes := by
  have hbyte : Std.TransCmp fun x y : UInt8 => compare x.toNat y.toNat :=
    transCmp_on compare UInt8.toNat
  have heq : Path.compareBytes = List.compareLex fun x y => compare x.toNat y.toNat := by
    funext a b
    exact Path.compareBytes_eq a b
  rw [heq]
  infer_instance

/-- The name of a normal component. -/
def Path.Component.name : Path.Component → List UInt8
  | .normal name => name
  | _ => []

/-- Components compare by kind, then by name. -/
theorem Path.Component.cmp_eq (a b : Path.Component) :
    a.cmp b = (compare a.rank b.rank).then (Path.compareBytes a.name b.name) := by
  cases a <;> cases b <;> rfl

instance instTransCmpComponent : Std.TransCmp Path.Component.cmp := by
  have heq : Path.Component.cmp =
      fun a b => (compare a.rank b.rank).then (Path.compareBytes a.name b.name) := by
    funext a b
    exact Path.Component.cmp_eq a b
  rw [heq]
  exact transCmp_then (transCmp_on compare Path.Component.rank)
    (transCmp_on Path.compareBytes Path.Component.name)

instance instTransCmpComponents : Std.TransCmp Path.compareComponents := by
  have heq : Path.compareComponents = List.compareLex Path.Component.cmp := by
    funext a b
    exact Path.compareComponents_eq a b
  rw [heq]
  infer_instance

instance instTransCmpRawPath : Std.TransCmp RawPath.cmp :=
  transCmp_on Path.compareComponents RawPath.components

instance instTransCmpPath : Std.TransCmp Path.cmp :=
  transCmp_on Path.compareComponents Path.components

instance instTransCmpU64 : Std.TransCmp cmpU64 := transCmp_on compare UInt64.toNat

instance instTransCmpBlockKey : Std.TransCmp BlockKey.cmp :=
  transCmp_then
    (transCmp_then (transCmp_on cmpU64 BlockKey.device) (transCmp_on cmpU64 BlockKey.block))
    (transCmp_on cmpU64 BlockKey.offset)

instance instTransCmpInodeKey : Std.TransCmp InodeKey.cmp :=
  transCmp_then
    (transCmp_then (transCmp_on cmpU64 InodeKey.device) (transCmp_on cmpU64 InodeKey.inode))
    (transCmp_on cmpU64 InodeKey.offset)

section Comparator

variable {F16 F32 : Type} {num : Numerics F16 F32} {K : Type} {cmp : K → K → Ordering}

open GreedyPrefetchPlanner

/-- The comparator is score, then key, then place. -/
theorem cmpScoreAndKey_eq (a b : SelectedMap F16 × Option K) :
    cmpScoreAndKey num cmp a b =
      (cmpScore num a.1.score b.1.score).then
        ((cmpNoneLast cmp a.2 b.2).then (compare a.1.index b.1.index)) := by
  obtain ⟨a, aKey⟩ := a
  obtain ⟨b, bKey⟩ := b
  simp only [cmpScoreAndKey, cmpScore]
  cases num.totalCmp b.score a.score <;> cases aKey <;> cases bKey <;> rfl

instance instTransCmpScoreAndKey [Std.TransCmp num.totalCmp] [Std.TransCmp cmp] :
    Std.TransCmp (cmpScoreAndKey num cmp) := by
  have heq : cmpScoreAndKey num cmp = fun a b =>
      (cmpScore num a.1.score b.1.score).then
        ((cmpNoneLast cmp a.2 b.2).then (compare a.1.index b.1.index)) := by
    funext a b
    exact cmpScoreAndKey_eq a b
  rw [heq]
  exact transCmp_then (transCmp_on (cmpScore num) fun x : SelectedMap F16 × Option K => x.1.score)
    (transCmp_then (transCmp_on (cmpNoneLast cmp) Prod.snd)
      (transCmp_on compare fun x : SelectedMap F16 × Option K => x.1.index))

/-- It calls only items of one place equal. -/
theorem index_eq_of_cmpScoreAndKey {a b : SelectedMap F16 × Option K}
    (h : cmpScoreAndKey num cmp a b = .eq) : a.1.index = b.1.index := by
  rw [cmpScoreAndKey_eq, Ordering.then_eq_eq, Ordering.then_eq_eq] at h
  exact Nat.compare_eq_eq.1 h.2.2

end Comparator

namespace GreedyPrefetchPlanner

variable {F16 F32 : Type} {num : Numerics F16 F32}

/-! ## Places in the selection -/

theorem map_index_numbered (n : ℕ) (items : List (MapId × F16)) :
    (numbered n items).map SelectedMap.index = List.range' n items.length := by
  rw [numbered, List.map_map]
  exact List.zipIdx_map_snd n items

theorem numbered_inj {n : ℕ} {items : List (MapId × F16)} {a b : SelectedMap F16}
    (ha : a ∈ numbered n items) (hb : b ∈ numbered n items) (h : a.index = b.index) : a = b := by
  refine List.inj_on_of_nodup_map ?_ ha hb h
  rw [map_index_numbered]
  exact List.nodup_range'

theorem nodup_numbered (n : ℕ) (items : List (MapId × F16)) : (numbered n items).Nodup := by
  refine List.Nodup.of_map SelectedMap.index ?_
  rw [map_index_numbered]
  exact List.nodup_range'

theorem pairwise_index_numbered (n : ℕ) (items : List (MapId × F16)) :
    (numbered n items).Pairwise fun a b => a.index < b.index := by
  have h : ((numbered n items).map SelectedMap.index).Pairwise (· < ·) := by
    rw [map_index_numbered]
    exact List.pairwise_lt_range'
  exact List.pairwise_map.1 h

theorem mem_numbered {n : ℕ} {items : List (MapId × F16)} {a : SelectedMap F16}
    (h : a ∈ numbered n items) : (a.id, a.score) ∈ items := by
  obtain ⟨row, hrow, rfl⟩ := List.mem_map.1 h
  exact List.fst_mem_of_mem_zipIdx hrow

/-- The smaller index stands first. -/
theorem sublist_of_index_lt {n : ℕ} {items : List (MapId × F16)} {a b : SelectedMap F16}
    (ha : a ∈ numbered n items) (hb : b ∈ numbered n items) (h : a.index < b.index) :
    [a.id, b.id].Sublist (items.map Prod.fst) := by
  have hne : a ≠ b := by
    intro heq
    rw [heq] at h
    exact Nat.lt_irrefl _ h
  rw [← map_id_numbered n]
  rcases pair_sublist_or ha hb hne with hsub | hsub
  · exact hsub.map SelectedMap.id
  · have hlt := List.pairwise_pair.1 ((pairwise_index_numbered n items).sublist hsub)
    omega

/-! ## The order of the selected maps -/

end GreedyPrefetchPlanner

namespace SortStrategy

/-- The map has a key under the strategy. -/
def HasKey (strategy : SortStrategy) (maps : MapStore) (id : MapId) : Prop :=
  match strategy with
  | .none => False
  | .path => ∃ map, maps.get? id = some map
  | .block => ∃ map, maps.get? id = some map ∧ ¬(map.device = 0 ∧ map.inode = 0)
  | .inode => ∃ map, maps.get? id = some map ∧ ¬(map.device = 0 ∧ map.inode = 0)

/-- How the strategy orders two maps of one score, maps without a key last. -/
def compareKeys (strategy : SortStrategy) (maps : MapStore) (a b : MapId) : Ordering :=
  match strategy with
  | .none => .eq
  | .path => cmpNoneLast Path.cmp ((maps.get? a).bind fun map => some map.path)
      ((maps.get? b).bind fun map => some map.path)
  | .block => cmpNoneLast BlockKey.cmp ((maps.get? a).bind blockKey) ((maps.get? b).bind blockKey)
  | .inode => cmpNoneLast InodeKey.cmp ((maps.get? a).bind inodeKey) ((maps.get? b).bind inodeKey)

instance instTransCmpKeys (strategy : SortStrategy) (maps : MapStore) :
    Std.TransCmp (strategy.compareKeys maps) := by
  cases strategy with
  | none => exact { eq_swap := rfl, isLE_trans := fun _ _ => rfl }
  | path => exact transCmp_on (cmpNoneLast Path.cmp) fun id => (maps.get? id).bind _
  | block => exact transCmp_on (cmpNoneLast BlockKey.cmp) fun id => (maps.get? id).bind _
  | inode => exact transCmp_on (cmpNoneLast InodeKey.cmp) fun id => (maps.get? id).bind _

section Keys

variable {maps : MapStore} {a b : MapId}

theorem hasKey_path (id : MapId) : SortStrategy.path.HasKey maps id ↔
    ((maps.get? id).bind fun map => some map.path).isSome := by
  cases hmap : maps.get? id <;> simp [HasKey, hmap]

theorem hasKey_block (id : MapId) : SortStrategy.block.HasKey maps id ↔
    ((maps.get? id).bind blockKey).isSome := by
  cases hmap : maps.get? id <;> simp [HasKey, hmap, blockKey]

theorem hasKey_inode (id : MapId) : SortStrategy.inode.HasKey maps id ↔
    ((maps.get? id).bind inodeKey).isSome := by
  cases hmap : maps.get? id <;> simp [HasKey, hmap, inodeKey]

theorem hasKey_of_compareKeys (strategy : SortStrategy)
    (h : (strategy.compareKeys maps a b).isLE = true) (hb : strategy.HasKey maps b) :
    strategy.HasKey maps a := by
  cases strategy with
  | none => exact hb
  | path => exact (hasKey_path a).2 (isSome_of_cmpNoneLast h ((hasKey_path b).1 hb))
  | block => exact (hasKey_block a).2 (isSome_of_cmpNoneLast h ((hasKey_block b).1 hb))
  | inode => exact (hasKey_inode a).2 (isSome_of_cmpNoneLast h ((hasKey_inode b).1 hb))

theorem compareKeys_of_keyless (strategy : SortStrategy) (ha : ¬strategy.HasKey maps a)
    (hb : ¬strategy.HasKey maps b) : strategy.compareKeys maps a b = .eq := by
  cases strategy with
  | none => rfl
  | path => exact cmpNoneLast_of_none (mt (hasKey_path a).2 ha) (mt (hasKey_path b).2 hb)
  | block => exact cmpNoneLast_of_none (mt (hasKey_block a).2 ha) (mt (hasKey_block b).2 hb)
  | inode => exact cmpNoneLast_of_none (mt (hasKey_inode a).2 ha) (mt (hasKey_inode b).2 hb)

end Keys

end SortStrategy

namespace GreedyPrefetchPlanner

variable {F16 F32 : Type} {num : Numerics F16 F32}

/-- Score, key under the strategy, place in the selection. -/
def cmpSelected (num : Numerics F16 F32) (strategy : SortStrategy) (maps : MapStore)
    (a b : SelectedMap F16) : Ordering :=
  (cmpScore num a.score b.score).then
    ((strategy.compareKeys maps a.id b.id).then (compare a.index b.index))

variable {maps : MapStore} {selected : List (SelectedMap F16)}

/-- The selection itself is sorted by score and place. -/
theorem numbered_sorted {n : ℕ} {items : List (MapId × F16)}
    (h : SortedBy (fun a b => cmpScore num a.2 b.2) items) :
    SortedBy (cmpSelected num .none maps) (numbered n items) := by
  have hscore : (numbered n items).Pairwise fun a b =>
      (cmpScore num a.score b.score).isLE = true := by
    have hzip : ((items.zipIdx n).map Prod.fst).Pairwise fun a b =>
        (cmpScore num a.2 b.2).isLE = true := by
      rw [List.zipIdx_map_fst]
      exact h
    exact List.pairwise_map.2 (List.pairwise_map.1 hzip)
  refine (hscore.and (pairwise_index_numbered n items)).imp fun {a b} hab => ?_
  refine Ordering.isLE_then_iff_and.2 ⟨hab.1, Or.inr ?_⟩
  show (compare a.index b.index).isLE = true
  rw [Nat.compare_eq_lt.2 hab.2]
  rfl

theorem sortBy_sorted {K : Type} {cmp : K → K → Ordering} [Std.TransCmp num.totalCmp]
    [Std.TransCmp cmp] (key : MapSegment → Option K) :
    SortedBy (fun a b => (cmpScore num a.score b.score).then
        ((cmpNoneLast cmp ((maps.get? a.id).bind key) ((maps.get? b.id).bind key)).then
          (compare a.index b.index)))
      (sortBy num cmp key maps selected) := by
  have hsorted : SortedBy (cmpScoreAndKey num cmp) (sortByScoreAndKey num cmp
      (selected.map fun item => (item, (maps.get? item.id).bind key))) := sortedBy_insertionSort _
  refine List.pairwise_map.2 (List.Pairwise.imp_of_mem ?_ hsorted)
  intro a b ha hb hab
  obtain ⟨a, -, rfl⟩ := List.mem_map.1 ((List.mem_insertionSort _).1 ha)
  obtain ⟨b, -, rfl⟩ := List.mem_map.1 ((List.mem_insertionSort _).1 hb)
  rwa [cmpScoreAndKey_eq] at hab

/-- Every strategy arranges the selection by score, key and place. -/
theorem arrange_sorted [Std.TransCmp num.totalCmp] (planner : GreedyPrefetchPlanner)
    (h : SortedBy (cmpSelected num .none maps) selected) :
    SortedBy (cmpSelected num planner.sort maps) (planner.arrange num maps selected) := by
  unfold arrange
  cases planner.sort with
  | none => exact h
  | path => exact sortBy_sorted fun map => some map.path
  | block => exact sortBy_sorted blockKey
  | inode => exact sortBy_sorted inodeKey

/-! ## The order of the plan -/

def SameScore (num : Numerics F16 F32) (prediction : Prediction F16) (a b : MapId) : Prop :=
  ∃ x y, prediction.mapScores.get? a = some x ∧ prediction.mapScores.get? b = some y ∧
    num.totalCmp x y = .eq

/-- The order of a plan, where `selection` is the order in which its maps were selected. -/
structure IsOrdered (num : Numerics F16 F32) (strategy : SortStrategy)
    (prediction : Prediction F16) (maps : MapStore) (selection plan : List MapId) : Prop where
  scores : plan.Pairwise fun a b => ∃ x y, prediction.mapScores.get? a = some x ∧
    prediction.mapScores.get? b = some y ∧ (num.totalCmp x y).isGE = true
  keyedFirst : plan.Pairwise fun a b => SameScore num prediction a b →
    strategy.HasKey maps b → strategy.HasKey maps a
  keysAscend : plan.Pairwise fun a b => SameScore num prediction a b →
    strategy.HasKey maps a → strategy.HasKey maps b →
      (strategy.compareKeys maps a b).isLE = true
  keyless : plan.Pairwise fun a b => SameScore num prediction a b →
    ¬strategy.HasKey maps a → ¬strategy.HasKey maps b → [a, b].Sublist selection
  equalKeys : plan.Pairwise fun a b => SameScore num prediction a b →
    strategy.HasKey maps a → strategy.HasKey maps b → strategy.compareKeys maps a b = .eq →
      [a, b].Sublist selection

variable (num) in
/-- What the order of the plan says on two of its maps, the first in front of the second. -/
theorem plan_pairwise [Std.TransCmp num.totalCmp] (planner : GreedyPrefetchPlanner)
    (ord : HashOrder) (prediction : Prediction F16) (s : Stores F16) (mem : MemStat) :
    (planner.plan num ord prediction s mem).maps.Pairwise fun a b =>
      ∃ x y, prediction.mapScores.get? a = some x ∧ prediction.mapScores.get? b = some y ∧
        (num.totalCmp x y).isGE = true ∧ (num.totalCmp x y = .eq →
          (planner.sort.compareKeys s.maps a b).isLE = true ∧
            (planner.sort.compareKeys s.maps a b = .eq → [a, b].Sublist
              ((planned num ord prediction s (planner.availableKb mem).toNat).map Prod.fst))) := by
  have hplanned : SortedBy (fun a b => cmpScore num a.2 b.2)
      (planned num ord prediction s (planner.availableKb mem).toNat) :=
    candidates_sorted.sublist (picked_sublist _ _ _)
  have hsorted : SortedBy (cmpSelected num planner.sort s.maps) (planner.arrange num s.maps
      (numbered 0 (planned num ord prediction s (planner.availableKb mem).toNat))) :=
    planner.arrange_sorted (numbered_sorted hplanned)
  have hperm : (planner.arrange num s.maps
      (numbered 0 (planned num ord prediction s (planner.availableKb mem).toNat))).Perm _ :=
    planner.perm_arrange s.maps _
  have hnodup := hperm.nodup_iff.2 (nodup_numbered 0 _)
  rw [plan_maps_eq]
  refine List.pairwise_map.2 (List.Pairwise.imp_of_mem ?_ (hsorted.and hnodup))
  intro a b ha hb ⟨hab, hne⟩
  rw [hperm.mem_iff] at ha hb
  obtain ⟨hscore, hrest⟩ := Ordering.isLE_then_iff_and.1 hab
  refine ⟨a.score, b.score, (scored_of_mem_planned (mem_numbered ha)).2.1,
    (scored_of_mem_planned (mem_numbered hb)).2.1, Std.OrientedCmp.isGE_of_isLE hscore, ?_⟩
  intro heq
  -- with equal scores the keys decide, and with equal keys the places
  rw [cmpScore, Std.OrientedCmp.eq_symm heq] at hrest
  obtain ⟨hkeys, hplaces⟩ := Ordering.isLE_then_iff_and.1 (hrest.resolve_left (by decide))
  refine ⟨hkeys, fun hkeyEq => ?_⟩
  rw [hkeyEq] at hplaces
  have hle := Nat.isLE_compare.1 (hplaces.resolve_left (by decide))
  refine sublist_of_index_lt ha hb (Nat.lt_of_le_of_ne hle fun hindex => ?_)
  exact hne (numbered_inj ha hb hindex)

/-- A plan is ordered by score, then by the keys of its strategy, then as selected. -/
theorem isOrdered_plan [Std.TransCmp num.totalCmp] (planner : GreedyPrefetchPlanner)
    (ord : HashOrder) (prediction : Prediction F16) (s : Stores F16) (mem : MemStat) :
    IsOrdered num planner.sort prediction s.maps
      ((planned num ord prediction s (planner.availableKb mem).toNat).map Prod.fst)
      (planner.plan num ord prediction s mem).maps := by
  have hpairs := planner.plan_pairwise num ord prediction s mem
  have hsame : ∀ {a b : MapId} {x y : F16}, prediction.mapScores.get? a = some x →
      prediction.mapScores.get? b = some y → SameScore num prediction a b →
        num.totalCmp x y = .eq := by
    intro a b x y hx hy ⟨x', y', hx', hy', heq⟩
    rw [hx] at hx'
    rw [hy] at hy'
    rwa [Option.some.inj hx', Option.some.inj hy']
  constructor
  case scores =>
    refine hpairs.imp fun {a b} ⟨x, y, hx, hy, hge, _⟩ => ?_
    exact ⟨x, y, hx, hy, hge⟩
  case keyedFirst =>
    refine hpairs.imp fun {a b} ⟨x, y, hx, hy, _, htie⟩ hscore hb => ?_
    exact planner.sort.hasKey_of_compareKeys (htie (hsame hx hy hscore)).1 hb
  case keysAscend =>
    refine hpairs.imp fun {a b} ⟨x, y, hx, hy, _, htie⟩ hscore _ _ => ?_
    exact (htie (hsame hx hy hscore)).1
  case keyless =>
    refine hpairs.imp fun {a b} ⟨x, y, hx, hy, _, htie⟩ hscore ha hb => ?_
    exact (htie (hsame hx hy hscore)).2 (planner.sort.compareKeys_of_keyless ha hb)
  case equalKeys =>
    refine hpairs.imp fun {a b} ⟨x, y, hx, hy, _, htie⟩ hscore _ _ heq => ?_
    exact (htie (hsame hx hy hscore)).2 heq

/-- `sort_by_score_and_key` has one result: its comparator is a strict total order on the items. -/
def SortDetermined (num : Numerics F16 F32) {K : Type} (cmp : K → K → Ordering)
    (items : List (SelectedMap F16 × Option K)) : Prop :=
  StrictTotalOn (cmpScoreAndKey num cmp) items ∧
    ∀ l, l.Perm items → SortedBy (cmpScoreAndKey num cmp) l → l = sortByScoreAndKey num cmp items

theorem sortDetermined [Std.TransCmp num.totalCmp] {K : Type} {cmp : K → K → Ordering}
    [Std.TransCmp cmp] (key : MapSegment → Option K) (maps : MapStore)
    (items : List (MapId × F16)) :
    SortDetermined num cmp
      ((numbered 0 items).map fun item => (item, (maps.get? item.id).bind key)) := by
  have hstrict : ∀ a ∈ (numbered 0 items).map fun item => (item, (maps.get? item.id).bind key),
      ∀ b ∈ (numbered 0 items).map fun item => (item, (maps.get? item.id).bind key),
        cmpScoreAndKey num cmp a b = .eq → a = b := by
    intro a ha b hb heq
    obtain ⟨a', ha', rfl⟩ := List.mem_map.1 ha
    obtain ⟨b', hb', rfl⟩ := List.mem_map.1 hb
    obtain rfl := numbered_inj ha' hb' (index_eq_of_cmpScoreAndKey heq)
    rfl
  refine ⟨strictTotalOn hstrict, fun l hperm hsorted => ?_⟩
  refine hsorted.eq_of_perm (sortedBy_insertionSort _)
    (hperm.trans (List.perm_insertionSort _ _).symm) fun a ha b hb => ?_
  exact hstrict a (hperm.mem_iff.1 ha) b (hperm.mem_iff.1 hb)

/-- The strategies reorder one selection, and only among maps of equal score. -/
theorem sort_only_breaks_ties [Std.TransCmp num.totalCmp] (planner : GreedyPrefetchPlanner)
    (ord : HashOrder) (prediction : Prediction F16) (s : Stores F16) (mem : MemStat) :
    let plan := fun strategy => ({ planner with sort := strategy } : GreedyPrefetchPlanner).plan
      num ord prediction s mem
    let selected := ((candidates num ord prediction).foldl (select s.maps)
      ⟨planner.availableKb mem, [], 0⟩).selected
    let keyed := fun {K : Type} (key : MapSegment → Option K) =>
      selected.map fun item => (item, (s.maps.get? item.id).bind key)
    (∀ strategy strategy', (plan strategy).maps.Perm (plan strategy').maps ∧
        (plan strategy).totalBytes = (plan strategy').totalBytes) ∧
      (∀ strategy, IsOrdered num strategy prediction s.maps (selected.map SelectedMap.id)
        (plan strategy).maps) ∧
      SortDetermined num Path.cmp (keyed fun map => some map.path) ∧
      SortDetermined num BlockKey.cmp (keyed blockKey) ∧
      SortDetermined num InodeKey.cmp (keyed inodeKey) := by
  intro plan selected keyed
  have hselected : selected =
      numbered 0 (planned num ord prediction s (planner.availableKb mem).toNat) :=
    (foldl_select _ _).1.trans (List.nil_append _)
  have hperm : ∀ strategy, (plan strategy).maps.Perm
      ((planned num ord prediction s (planner.availableKb mem).toNat).map Prod.fst) :=
    fun _ => plan_maps_perm
  refine ⟨?_, ?_, ?_, ?_, ?_⟩
  · intro strategy strategy'
    exact ⟨(hperm strategy).trans (hperm strategy').symm, rfl⟩
  · intro strategy
    rw [hselected, map_id_numbered]
    exact isOrdered_plan { planner with sort := strategy } ord prediction s mem
  · simp only [keyed, hselected]
    exact sortDetermined _ s.maps _
  · simp only [keyed, hselected]
    exact sortDetermined _ s.maps _
  · simp only [keyed, hselected]
    exact sortDetermined _ s.maps _

/-- Two blocks of one file. -/
def twoBlocks : Stores ℚ :=
  (((∅ : Stores ℚ).ensureMap ⟨Path.ofString "/lib/a", 0, 1024, 0, 1, 7⟩).1.ensureMap
    ⟨Path.ofString "/lib/a", 8192, 1024, 0, 1, 7⟩).1

/-- All stored maps have the score `1`. -/
def equalScores (s : Stores ℚ) : Prediction ℚ :=
  ⟨∅, s.maps.iter.foldl (fun scores row => scores.insert row.1 1) ∅⟩

/-- Two blocks of equal score are selected as enumerated and read in block order. -/
theorem sort_only_breaks_ties_two_blocks :
    let plan := fun strategy => (GreedyPrefetchPlanner.mk strategy 0 100).plan Numerics.rational
      .insertion (equalScores twoBlocks) twoBlocks ⟨0, 64, 64, 0, 0, 0⟩
    (plan .block).maps.Perm (plan .none).maps ∧
      IsOrdered Numerics.rational .block (equalScores twoBlocks) twoBlocks.maps (plan .none).maps
        (plan .block).maps ∧
      (plan .block).maps = (plan .none).maps.reverse := by
  have : Std.TransCmp Numerics.rational.totalCmp :=
    inferInstanceAs (Std.TransCmp (compare : ℚ → ℚ → Ordering))
  have h := @sort_only_breaks_ties _ _ Numerics.rational this ⟨.none, 0, 100⟩ .insertion
    (equalScores twoBlocks) twoBlocks ⟨0, 64, 64, 0, 0, 0⟩
  exact ⟨(h.1 .block .none).1, h.2.1 .block, by decide +kernel⟩

end GreedyPrefetchPlanner

end PreloadNg
