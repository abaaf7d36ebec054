import PreloadNg.Lib.Comparators
import PreloadNg.Lib.Greedy
import PreloadNg.Prefetch.Planner

set_option autoImplicit false

/-! # What the planner selects

The loop of `plan` is the greedy selection of `Greedy.pick`, with the sizes of the maps in KiB as
weights and the memory budget as the bound. -/

namespace PreloadNg

/-! ## The budget -/

namespace MemoryPolicy

theorem clampPercent_mem (percent : Int32) :
    -100 ≤ (clampPercent percent).toInt ∧ (clampPercent percent).toInt ≤ 100 := by
  unfold clampPercent
  split
  · decide
  · next hlow =>
      split
      · decide
      · next hhigh =>
          rw [Int32.lt_iff_toInt_lt] at hlow hhigh
          have h₁ : (-100 : Int32).toInt = -100 := rfl
          have h₂ : (100 : Int32).toInt = 100 := rfl
          omega

end MemoryPolicy

/-- A percentage of a memory size, rounded towards zero. -/
def percentOf (percent : Int32) (kb : UInt64) : ℤ := (percent.toInt * kb.toNat).tdiv 100

/-- No percentage of a memory size below `2 ^ 50` leaves the range of `i64`. -/
theorem toInt_percentOf {percent : Int32} {kb : UInt64} (hlow : -100 ≤ percent.toInt)
    (hhigh : percent.toInt ≤ 100) (hkb : kb.toNat < 2 ^ 50) :
    (percent.toInt64 * kb.toInt64 / 100).toInt = percentOf percent kb ∧
      -2 ^ 50 ≤ percentOf percent kb ∧ percentOf percent kb ≤ 2 ^ 50 := by
  have hsize : kb.toInt64.toInt = kb.toNat := toInt_toInt64 (by omega)
  have hmin : -(100 * 2 ^ 50) ≤ percent.toInt * kb.toNat := by nlinarith
  have hmax : percent.toInt * kb.toNat ≤ 100 * 2 ^ 50 := by nlinarith
  have hdivMin : (-(100 * 2 ^ 50) : ℤ).tdiv 100 ≤ percentOf percent kb :=
    Int.tdiv_le_tdiv (by decide) hmin
  have hdivMax : percentOf percent kb ≤ (100 * 2 ^ 50 : ℤ).tdiv 100 :=
    Int.tdiv_le_tdiv (by decide) hmax
  refine ⟨?_, hdivMin, hdivMax⟩
  rw [Int64.toInt_div_of_ne_right _ _ (by decide), Int64.toInt_mul, Int32.toInt_toInt64, hsize,
    Int.bmod_eq_of_le_mul_two (by omega) (by omega)]
  rfl

namespace GreedyPrefetchPlanner

/-- The percentages are in the documented range. -/
structure Clamped (planner : GreedyPrefetchPlanner) : Prop where
  memtotal : -100 ≤ planner.memtotal.toInt ∧ planner.memtotal.toInt ≤ 100
  memavailable : -100 ≤ planner.memavailable.toInt ∧ planner.memavailable.toInt ≤ 100

theorem clamped_new (sortstrategy : SortStrategy) (memory : MemoryPolicy) :
    (new sortstrategy memory).Clamped :=
  ⟨MemoryPolicy.clampPercent_mem _, MemoryPolicy.clampPercent_mem _⟩

/-- The budget in KiB as an integer; a negative one leaves nothing to spend. -/
def budgetOf (planner : GreedyPrefetchPlanner) (mem : MemStat) : ℤ :=
  percentOf planner.memtotal mem.total + percentOf planner.memavailable mem.available

/-- Below `2 ^ 50` KiB of memory the 64-bit computation of the budget is exact. -/
theorem Clamped.toNat_availableKb {planner : GreedyPrefetchPlanner} (h : planner.Clamped)
    {mem : MemStat} (htotal : mem.total.toNat < 2 ^ 50)
    (havailable : mem.available.toNat < 2 ^ 50) :
    (planner.availableKb mem).toNat = (planner.budgetOf mem).toNat ∧
      (planner.availableKb mem).toNat ≤ 2 ^ 51 := by
  obtain ⟨htotalEq, htotalMin, htotalMax⟩ := toInt_percentOf h.memtotal.1 h.memtotal.2 htotal
  obtain ⟨havailEq, havailMin, havailMax⟩ :=
    toInt_percentOf h.memavailable.1 h.memavailable.2 havailable
  have hsum : (planner.memtotal.toInt64 * mem.total.toInt64 / 100 +
      planner.memavailable.toInt64 * mem.available.toInt64 / 100).toInt =
      planner.budgetOf mem := by
    rw [Int64.toInt_add, htotalEq, havailEq]
    exact Int.bmod_eq_of_le_mul_two (by omega) (by omega)
  have hbound : planner.budgetOf mem ≤ 2 ^ 51 := by
    unfold budgetOf
    omega
  have hnat : (planner.availableKb mem).toNat = (planner.budgetOf mem).toNat := by
    simp only [availableKb]
    split
    · next hneg =>
        rw [Int64.lt_iff_toInt_lt, hsum] at hneg
        have hzero : (0 : Int64).toInt = 0 := rfl
        rw [UInt64.toNat_zero]
        omega
    · next hpos =>
        rw [Int64.lt_iff_toInt_lt, Int.not_lt] at hpos
        rw [Int64.toNat_toUInt64_of_le (Int64.le_iff_toInt_le.2 hpos), Int64.toNatClampNeg, hsum]
  refine ⟨hnat, ?_⟩
  omega

/-! ## Sizes -/

/-- The size of a map in KiB, rounded up. -/
def sizeKb (map : MapSegment) : ℕ := (map.length.toNat + 1023) / 1024

theorem toNat_kb (bytes : UInt64) : (kb bytes).toNat = (bytes.toNat + 1023) / 1024 := by
  have hlt := bytes.toNat_lt
  have hmod : (bytes % 1024).toNat = bytes.toNat % 1024 := by
    rw [UInt64.toNat_mod]
    rfl
  have hdiv : (bytes / 1024).toNat = bytes.toNat / 1024 := by
    rw [UInt64.toNat_div]
    rfl
  unfold kb
  split
  · next h =>
      rw [h, UInt64.toNat_zero] at hmod
      omega
  · next h =>
      have hne : bytes.toNat % 1024 ≠ 0 := by
        intro hzero
        rw [hzero] at hmod
        exact h (UInt64.toNat_inj.1 hmod)
      have hone : (1 : UInt64).toNat = 1 := rfl
      rw [UInt64.toNat_add, hdiv, hone]
      omega

theorem length_le_sizeKb (map : MapSegment) : map.length.toNat ≤ sizeKb map * 1024 := by
  unfold sizeKb
  omega

/-! ## The loop -/

section Loop

variable {F16 : Type} (maps : MapStore)

/-- Size in KiB of a stored map. -/
def storedKb (id : MapId) : ℕ := ((maps.get? id).map sizeKb).getD 0

/-- Length in bytes of a stored map. -/
def storedBytes (id : MapId) : ℕ := ((maps.get? id).map fun map => map.length.toNat).getD 0

def itemKb (item : MapId × F16) : ℕ := storedKb maps item.1

def itemBytes (item : MapId × F16) : ℕ := storedBytes maps item.1

/-- The scored maps that are in the store. -/
def storedItems (items : List (MapId × F16)) : List (MapId × F16) :=
  items.filter fun item => (maps.get? item.1).isSome

/-- The scored maps that the loop takes. -/
def picked (budget : ℕ) (items : List (MapId × F16)) : List (MapId × F16) :=
  Greedy.pick (itemKb maps) budget (storedItems maps items)

/-- Number the taken maps in the order of selection. -/
def numbered (n : ℕ) (items : List (MapId × F16)) : List (SelectedMap F16) :=
  (items.zipIdx n).map fun row => ⟨row.1.1, row.1.2, row.2⟩

theorem numbered_cons (n : ℕ) (item : MapId × F16) (rest : List (MapId × F16)) :
    numbered n (item :: rest) = ⟨item.1, item.2, n⟩ :: numbered (n + 1) rest := by
  simp [numbered]

theorem map_id_numbered (n : ℕ) (items : List (MapId × F16)) :
    (numbered n items).map SelectedMap.id = items.map Prod.fst := by
  induction items generalizing n with
  | nil => rfl
  | cons item rest ih => rw [numbered_cons, List.map_cons, List.map_cons, ih]

variable {maps}

theorem itemKb_of_stored {item : MapId × F16} {map : MapSegment}
    (hmap : maps.get? item.1 = some map) : itemKb maps item = (kb map.length).toNat := by
  rw [itemKb, storedKb, hmap, toNat_kb]
  rfl

theorem itemBytes_of_stored {item : MapId × F16} {map : MapSegment}
    (hmap : maps.get? item.1 = some map) : itemBytes maps item = map.length.toNat := by
  rw [itemBytes, storedBytes, hmap]
  rfl

theorem select_of_stored {sel : Selection F16} {item : MapId × F16} {map : MapSegment}
    (hmap : maps.get? item.1 = some map) :
    select maps sel item =
      if sel.budgetKb.toNat < itemKb maps item then sel
      else
        { budgetKb := satSub sel.budgetKb (kb map.length)
          totalBytes := satAdd sel.totalBytes map.length
          selected := sel.selected ++ [⟨item.1, item.2, sel.selected.length⟩] } := by
  rw [select, hmap, itemKb_of_stored hmap]
  exact if_congr UInt64.lt_iff_toNat_lt rfl rfl

/-- The loop adds what the greedy selection takes, numbered in order, and counts its bytes up to
    the largest `u64`. -/
theorem foldl_select (items : List (MapId × F16)) (sel : Selection F16) :
    (items.foldl (select maps) sel).selected =
        sel.selected ++
          numbered sel.selected.length (picked maps sel.budgetKb.toNat items) ∧
      (items.foldl (select maps) sel).totalBytes.toNat =
        min (sel.totalBytes.toNat + Greedy.weight (itemBytes maps)
          (picked maps sel.budgetKb.toNat items)) (2 ^ 64 - 1) := by
  induction items generalizing sel with
  | nil =>
      have := sel.totalBytes.toNat_lt
      refine ⟨(List.append_nil _).symm, ?_⟩
      show sel.totalBytes.toNat = min (sel.totalBytes.toNat + 0) (2 ^ 64 - 1)
      omega
  | cons item rest ih =>
      rw [List.foldl_cons]
      cases hmap : maps.get? item.1 with
      | none =>
          have hstep : select maps sel item = sel := by
            rw [select, hmap]
          have hskip : picked maps sel.budgetKb.toNat (item :: rest) =
              picked maps sel.budgetKb.toNat rest := by
            simp [picked, storedItems, hmap]
          rw [hstep, hskip]
          exact ih sel
      | some map =>
          have hkeep : storedItems maps (item :: rest) = item :: storedItems maps rest := by
            simp [storedItems, hmap]
          rw [select_of_stored hmap, picked, hkeep]
          -- a map over the budget is passed over, and smaller ones may follow
          rcases Nat.lt_or_ge sel.budgetKb.toNat (itemKb maps item) with hlt | hle
          · rw [if_pos hlt, Greedy.pick_cons_of_lt hlt]
            exact ih sel
          · rw [if_neg (Nat.not_lt.2 hle), Greedy.pick_cons_of_le hle]
            obtain ⟨hselected, htotal⟩ := ih
              { budgetKb := satSub sel.budgetKb (kb map.length)
                totalBytes := satAdd sel.totalBytes map.length
                selected := sel.selected ++ [⟨item.1, item.2, sel.selected.length⟩] }
            rw [toNat_satSub, ← itemKb_of_stored hmap] at hselected htotal
            rw [hselected, htotal]
            constructor
            · rw [List.length_append, List.length_singleton, List.append_assoc, numbered_cons]
              rfl
            · rw [toNat_satAdd, Greedy.weight_cons, itemBytes_of_stored hmap, picked]
              omega

end Loop

/-! ## The plan -/

section Plan

variable {F16 F32 : Type} {num : Numerics F16 F32} {ord : HashOrder} {prediction : Prediction F16}

theorem mem_candidates {id : MapId} {score : F16} :
    (id, score) ∈ candidates num ord prediction ↔
      prediction.mapScores.get? id = some score ∧ num.isPositive score = true := by
  rw [candidates, List.mem_insertionSort, ord.mem_enum, List.mem_filter, FxHashMap.mem_iter]

theorem candidates_perm :
    (candidates num ord prediction).Perm
      (prediction.mapScores.iter.filter fun row => num.isPositive row.2) :=
  (List.perm_insertionSort _ _).trans (ord.perm _)

theorem nodup_candidates : ((candidates num ord prediction).map Prod.fst).Nodup := by
  refine (candidates_perm.map Prod.fst).nodup_iff.2 ?_
  have hkeys := prediction.mapScores.keys_nodup
  rw [← FxHashMap.iter_map_fst] at hkeys
  exact hkeys.sublist (List.filter_sublist.map Prod.fst)

/-- The higher score first. -/
def cmpScore (num : Numerics F16 F32) (a b : F16) : Ordering := num.totalCmp b a

instance instTransCmpScore [Std.TransCmp num.totalCmp] : Std.TransCmp (cmpScore num) :=
  inferInstanceAs (Std.TransCmp fun a b => num.totalCmp b a)

theorem candidates_sorted [Std.TransCmp num.totalCmp] :
    SortedBy (fun a b => cmpScore num a.2 b.2) (candidates num ord prediction) := by
  have := transCmp_on (cmpScore num) fun item : MapId × F16 => item.2
  exact sortedBy_insertionSort _

variable (num ord prediction) in
/-- The scored maps that are planned, in the order of selection. -/
def planned (s : Stores F16) (budget : ℕ) : List (MapId × F16) :=
  picked s.maps budget (candidates num ord prediction)

variable {planner : GreedyPrefetchPlanner} {s : Stores F16} {mem : MemStat}

theorem plan_maps_eq :
    (planner.plan num ord prediction s mem).maps =
      (planner.arrange num s.maps
        (numbered 0 (planned num ord prediction s (planner.availableKb mem).toNat))).map
          SelectedMap.id := by
  rw [plan, (foldl_select _ _).1]
  rfl

theorem plan_maps_perm :
    (planner.plan num ord prediction s mem).maps.Perm
      ((planned num ord prediction s (planner.availableKb mem).toNat).map Prod.fst) := by
  rw [plan_maps_eq, ← map_id_numbered 0]
  exact (planner.perm_arrange s.maps _).map SelectedMap.id

theorem toNat_plan_totalBytes :
    (planner.plan num ord prediction s mem).totalBytes.toNat =
      min (Greedy.weight (itemBytes s.maps)
        (planned num ord prediction s (planner.availableKb mem).toNat)) (2 ^ 64 - 1) := by
  rw [plan, (foldl_select _ _).2, UInt64.toNat_zero, Nat.zero_add]
  rfl

@[simp] theorem plan_budgetBytes : (planner.plan num ord prediction s mem).budgetBytes =
    planner.availableKb mem * 1024 := rfl

theorem mem_storedItems {maps : MapStore} {items : List (MapId × F16)} {item : MapId × F16} :
    item ∈ storedItems maps items ↔ item ∈ items ∧ ∃ map, maps.get? item.1 = some map := by
  rw [storedItems, List.mem_filter, Option.isSome_iff_exists]

theorem picked_sublist (maps : MapStore) (budget : ℕ) (items : List (MapId × F16)) :
    (picked maps budget items).Sublist items :=
  (Greedy.pick_sublist _ _).trans List.filter_sublist

theorem nodup_planned {budget : ℕ} : ((planned num ord prediction s budget).map Prod.fst).Nodup :=
  nodup_candidates.sublist ((picked_sublist _ _ _).map Prod.fst)

/-- A planned map is stored and has a positive score. -/
theorem scored_of_mem_planned {budget : ℕ} {id : MapId} {score : F16}
    (h : (id, score) ∈ planned num ord prediction s budget) :
    (∃ map, s.maps.get? id = some map) ∧ prediction.mapScores.get? id = some score ∧
      num.isPositive score = true := by
  have hmem := mem_storedItems.1 ((Greedy.pick_sublist _ _).subset h)
  exact ⟨hmem.2, mem_candidates.1 hmem.1⟩

/-- The bytes of stored maps fit into their KiB. -/
theorem weight_itemBytes_le (maps : MapStore) (items : List (MapId × F16)) :
    Greedy.weight (itemBytes maps) items ≤ Greedy.weight (itemKb maps) items * 1024 := by
  induction items with
  | nil => exact Nat.zero_le _
  | cons item rest ih =>
      have hitem : itemBytes maps item ≤ itemKb maps item * 1024 := by
        unfold itemBytes itemKb storedBytes storedKb
        cases maps.get? item.1 with
        | none => exact Nat.zero_le _
        | some map => exact length_le_sizeKb map
      rw [Greedy.weight_cons, Greedy.weight_cons]
      omega

/-- The map has a score of at least `score`. -/
def scoredAtLeast (num : Numerics F16 F32) (prediction : Prediction F16) (score : F16)
    (id : MapId) : Bool :=
  (prediction.mapScores.get? id).any fun other => (num.totalCmp other score).isGE

/-- What a greedy plan within a budget is. -/
structure IsGreedy (num : Numerics F16 F32) (prediction : Prediction F16) (maps : MapStore)
    (budget : ℕ) (plan : PrefetchPlan) : Prop where
  nodup : plan.maps.Nodup
  scored : ∀ id ∈ plan.maps, (∃ map, maps.get? id = some map) ∧
    ∃ score, prediction.mapScores.get? id = some score ∧ num.isPositive score = true
  withinBudget : Greedy.weight (storedKb maps) plan.maps ≤ budget
  totalBytes : plan.totalBytes.toNat = Greedy.weight (storedBytes maps) plan.maps
  totalBytes_le : plan.totalBytes.toNat ≤ plan.budgetBytes.toNat
  /-- A map that is left out does not fit beside the planned maps of at least its score. -/
  maximal : ∀ id map score, maps.get? id = some map →
    prediction.mapScores.get? id = some score → num.isPositive score = true → id ∉ plan.maps →
    budget < Greedy.weight (storedKb maps)
      (plan.maps.filter (scoredAtLeast num prediction score)) + sizeKb map

theorem weight_map_fst (f : MapId → ℕ) (items : List (MapId × F16)) :
    Greedy.weight f (items.map Prod.fst) = Greedy.weight (fun item => f item.1) items := by
  rw [Greedy.weight, List.map_map]
  rfl

theorem weight_plan (f : MapId → ℕ) :
    Greedy.weight f (planner.plan num ord prediction s mem).maps =
      Greedy.weight (fun item => f item.1)
        (planned num ord prediction s (planner.availableKb mem).toNat) := by
  rw [Greedy.weight_perm plan_maps_perm, weight_map_fst]

theorem mem_plan {id : MapId} : id ∈ (planner.plan num ord prediction s mem).maps ↔
    ∃ score, (id, score) ∈ planned num ord prediction s (planner.availableKb mem).toNat := by
  rw [plan_maps_perm.mem_iff]
  simp

/-- A map that is not selected did not fit beside those of at least its score. -/
theorem budget_lt_of_not_planned [Std.TransCmp num.totalCmp] {budget : ℕ} {id : MapId}
    {map : MapSegment} {score : F16} (hmap : s.maps.get? id = some map)
    (hscore : prediction.mapScores.get? id = some score) (hpos : num.isPositive score = true)
    (hout : (id, score) ∉ planned num ord prediction s budget) :
    budget < Greedy.weight (itemKb s.maps) ((planned num ord prediction s budget).filter
      fun item => scoredAtLeast num prediction score item.1) + sizeKb map := by
  have hmem : (id, score) ∈ storedItems s.maps (candidates num ord prediction) :=
    mem_storedItems.2 ⟨mem_candidates.2 ⟨hscore, hpos⟩, map, hmap⟩
  have hsorted : SortedBy (fun a b => cmpScore num a.2 b.2)
      (storedItems s.maps (candidates num ord prediction)) :=
    candidates_sorted.sublist List.filter_sublist
  obtain ⟨before, after, hsplit⟩ := List.append_of_mem hmem
  have hlt : budget < Greedy.weight (itemKb s.maps) (Greedy.pick (itemKb s.maps) budget before) +
      itemKb s.maps (id, score) := by
    rw [planned, picked, hsplit] at hout
    exact Greedy.lt_of_not_mem_pick hout
  rw [hsplit, SortedBy, List.pairwise_append] at hsorted
  -- everything in front of the map has at least its score
  have hbefore : Greedy.pick (itemKb s.maps) budget before =
      (Greedy.pick (itemKb s.maps) budget before).filter
        fun item => scoredAtLeast num prediction score item.1 := by
    refine (List.filter_eq_self.2 fun item hitem => ?_).symm
    have hin : item ∈ before := (Greedy.pick_sublist _ _).subset hitem
    have hge := hsorted.2.2 item hin (id, score) List.mem_cons_self
    have hcand : item ∈ candidates num ord prediction := by
      refine (mem_storedItems.1 (?_ : item ∈ storedItems s.maps _)).1
      rw [hsplit]
      exact List.mem_append_left _ hin
    rw [scoredAtLeast, (mem_candidates.1 hcand).1]
    exact Std.OrientedCmp.isGE_of_isLE hge
  have hstart : (Greedy.pick (itemKb s.maps) budget before).Sublist
      (planned num ord prediction s budget) := by
    rw [planned, picked, hsplit, Greedy.pick_append]
    exact List.sublist_append_left _ _
  -- so what was chosen before it is planned with at least its score
  have hle := Greedy.weight_sublist (w := itemKb s.maps)
    (hstart.filter fun item => scoredAtLeast num prediction score item.1)
  rw [← hbefore] at hle
  have hsize : itemKb s.maps (id, score) = sizeKb map := by
    rw [itemKb_of_stored hmap, toNat_kb]
    rfl
  omega

/-- The plan of every planner with a valid configuration is greedy: it lists stored maps of
    positive score, each once, keeps to the budget and leaves out only what does not fit. -/
theorem plan_isGreedy [Std.TransCmp num.totalCmp] (sortstrategy : SortStrategy)
    (memory : MemoryPolicy) (ord : HashOrder) (prediction : Prediction F16) (s : Stores F16)
    (mem : MemStat) (htotal : mem.total.toNat < 2 ^ 50)
    (havailable : mem.available.toNat < 2 ^ 50) :
    IsGreedy num prediction s.maps ((new sortstrategy memory).availableKb mem).toNat
      ((new sortstrategy memory).plan num ord prediction s mem) := by
  have hbudget := ((clamped_new sortstrategy memory).toNat_availableKb htotal havailable).2
  have hbytes := weight_itemBytes_le s.maps
    (planned num ord prediction s ((new sortstrategy memory).availableKb mem).toNat)
  have hkb : Greedy.weight (itemKb s.maps)
      (planned num ord prediction s ((new sortstrategy memory).availableKb mem).toNat) ≤
        ((new sortstrategy memory).availableKb mem).toNat := Greedy.weight_pick_le _ _
  have htotalBytes : ((new sortstrategy memory).plan num ord prediction s mem).totalBytes.toNat =
      Greedy.weight (itemBytes s.maps)
        (planned num ord prediction s ((new sortstrategy memory).availableKb mem).toNat) := by
    rw [toNat_plan_totalBytes]
    exact Nat.min_eq_left (by omega)
  constructor
  case nodup => exact plan_maps_perm.nodup_iff.2 nodup_planned
  case scored =>
    intro id hid
    obtain ⟨score, hmem⟩ := mem_plan.1 hid
    obtain ⟨hmap, hscored⟩ := scored_of_mem_planned hmem
    exact ⟨hmap, score, hscored⟩
  case withinBudget =>
    rw [weight_plan]
    exact hkb
  case totalBytes =>
    rw [weight_plan]
    exact htotalBytes
  case totalBytes_le =>
    have h1024 : (1024 : UInt64).toNat = 1024 := rfl
    rw [htotalBytes, plan_budgetBytes, UInt64.toNat_mul, h1024]
    omega
  case maximal =>
    intro id map score hmap hscore hpos hout
    have hout' : (id, score) ∉
        planned num ord prediction s ((new sortstrategy memory).availableKb mem).toNat :=
      fun hin => hout (mem_plan.2 ⟨score, hin⟩)
    have hlt := budget_lt_of_not_planned hmap hscore hpos hout'
    rw [Greedy.weight_perm (plan_maps_perm.filter _), List.filter_map, weight_map_fst]
    exact hlt

/-- Of three stored maps the one with the highest score does not fit into 950 KiB; the two smaller ones
    are planned. All of them fit into 10 MiB. -/
theorem plan_isGreedy_one_map :
    let a := (∅ : Stores ℚ).ensureMap (MapSegment.new (Path.ofString "/lib/a") 0 2097152 0)
    let b := a.1.ensureMap (MapSegment.new (Path.ofString "/lib/b") 0 524288 0)
    let c := b.1.ensureMap (MapSegment.new (Path.ofString "/lib/c") 0 262144 0)
    let prediction : Prediction ℚ :=
      ⟨∅, (((∅ : FxHashMap MapId ℚ).insert a.2 3).insert b.2 2).insert c.2 1⟩
    let planner := new .path MemoryPolicy.default
    let small : MemStat := ⟨0, 1000, 0, 0, 0, 0⟩
    let large : MemStat := ⟨0, 10240, 0, 0, 0, 0⟩
    (planner.plan Numerics.rational .insertion prediction c.1 small).maps = [b.2, c.2] ∧
      (planner.plan Numerics.rational .insertion prediction c.1 large).maps = [a.2, b.2, c.2] ∧
      IsGreedy Numerics.rational prediction c.1.maps (planner.availableKb small).toNat
        (planner.plan Numerics.rational .insertion prediction c.1 small) ∧
      IsGreedy Numerics.rational prediction c.1.maps (planner.availableKb large).toNat
        (planner.plan Numerics.rational .insertion prediction c.1 large) := by
  have : Std.TransCmp Numerics.rational.totalCmp :=
    inferInstanceAs (Std.TransCmp (compare : ℚ → ℚ → Ordering))
  exact ⟨by decide +kernel, by decide +kernel, plan_isGreedy _ _ _ _ _ _ (by decide) (by decide),
    plan_isGreedy _ _ _ _ _ _ (by decide) (by decide)⟩

end Plan

end GreedyPrefetchPlanner

end PreloadNg
