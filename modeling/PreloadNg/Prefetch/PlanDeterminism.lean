import PreloadNg.Lib.RankGroups
import PreloadNg.Prefetch.PlanOrder

set_option autoImplicit false

/-! # When a plan does not depend on the order of enumeration

The sort in front of the selection compares scores only. Maps of equal score are selected as they
are enumerated, and where their keys do not differ they are also read in that order. -/

namespace PreloadNg

namespace GreedyPrefetchPlanner

variable {F16 F32 : Type} (num : Numerics F16 F32)

/-- The order of the first sort. -/
def cmpItem (a b : MapId × F16) : Ordering := cmpScore num a.2 b.2

/-- The stored maps of positive score in groups of equal score, highest score first. -/
def scoreGroups (prediction : Prediction F16) (maps : MapStore) : List (List (MapId × F16)) :=
  groupsBy (cmpItem num) (storedItems maps (candidates num .insertion prediction))

/-- From the highest score down, the maps of one score that fit one by one into what is left of the
    budget also fit together, and the sort strategy tells them apart. -/
structure Unambiguous (planner : GreedyPrefetchPlanner) (prediction : Prediction F16)
    (maps : MapStore) (budget : ℕ) : Prop where
  fitTogether : Greedy.Settled (itemKb maps) budget (scoreGroups num prediction maps)
  toldApart : ∀ g ∈ Greedy.pickGroups (itemKb maps) budget (scoreGroups num prediction maps),
    g.Pairwise fun a b => planner.sort.compareKeys maps a.1 b.1 ≠ .eq

variable {num} {prediction : Prediction F16} {s : Stores F16}

instance instTransCmpItem [Std.TransCmp num.totalCmp] : Std.TransCmp (cmpItem num) :=
  transCmp_on (cmpScore num) fun item : MapId × F16 => item.2

/-! ## The orders of the first sort -/

theorem flatten_scoreGroups (maps : MapStore) : (scoreGroups num prediction maps).flatten =
    storedItems maps (candidates num .insertion prediction) :=
  flatten_groupsBy _ _

theorem storedItems_sorted [Std.TransCmp num.totalCmp] (maps : MapStore) (ord : HashOrder) :
    SortedBy (cmpItem num) (storedItems maps (candidates num ord prediction)) :=
  candidates_sorted.sublist List.filter_sublist

variable (num prediction) in
theorem groupedBy_scoreGroups [Std.TransCmp num.totalCmp] (maps : MapStore) :
    GroupedBy (cmpItem num) (scoreGroups num prediction maps) :=
  groupedBy_groupsBy (storedItems_sorted maps .insertion)

theorem storedItems_perm (maps : MapStore) (ord ord' : HashOrder) :
    (storedItems maps (candidates num ord prediction)).Perm
      (storedItems maps (candidates num ord' prediction)) :=
  (candidates_perm.trans candidates_perm.symm).filter _

variable (num prediction) in
/-- Every enumeration reorders the groups. -/
theorem exists_groups [Std.TransCmp num.totalCmp] (maps : MapStore) (ord : HashOrder) :
    ∃ gs, List.Forall₂ List.Perm (scoreGroups num prediction maps) gs ∧
      gs.flatten = storedItems maps (candidates num ord prediction) := by
  refine (groupedBy_scoreGroups num prediction maps).exists_perm (storedItems_sorted maps ord) ?_
  rw [flatten_scoreGroups]
  exact storedItems_perm maps ord .insertion

/-- Every sorted order of the stored maps is the one of some enumeration. -/
theorem exists_order (maps : MapStore) {l : List (MapId × F16)} (hsorted : SortedBy (cmpItem num) l)
    (hperm : l.Perm (storedItems maps (candidates num .insertion prediction))) :
    ∃ ord, storedItems maps (candidates num ord prediction) = l := by
  let rest := (candidates num .insertion prediction).filter
    fun item => !(maps.get? item.1).isSome
  have hrows : (l ++ rest).Perm
      (prediction.mapScores.iter.filter fun row => num.isPositive row.2) :=
    (hperm.append_right rest).trans
      ((List.filter_append_perm _ _).trans candidates_perm)
  obtain ⟨ord, hord⟩ := HashOrder.exists_enum hrows
  refine ⟨ord, ?_⟩
  -- the sort is stable
  have hsub : l.Sublist (candidates num ord prediction) := by
    rw [candidates, hord]
    exact List.sublist_insertionSort hsorted (List.sublist_append_left l rest)
  have hstored : storedItems maps l = l := by
    refine List.filter_eq_self.2 fun item hitem => ?_
    exact (List.mem_filter.1 (hperm.mem_iff.1 hitem)).2
  have hsub' : l.Sublist (storedItems maps (candidates num ord prediction)) := by
    have := hsub.filter fun item => (maps.get? item.1).isSome
    rwa [← storedItems, ← storedItems, hstored] at this
  refine (hsub'.eq_of_length ?_).symm
  exact (hperm.trans (storedItems_perm maps .insertion ord)).length_eq

/-- Two maps of one score can be enumerated in either order. -/
theorem exists_order_pair [Std.TransCmp num.totalCmp] (maps : MapStore) {a b : MapId × F16}
    (ha : a ∈ storedItems maps (candidates num .insertion prediction))
    (hb : b ∈ storedItems maps (candidates num .insertion prediction)) (hne : a ≠ b)
    (heq : cmpItem num a b = .eq) :
    ∃ ord, [a, b].Sublist (storedItems maps (candidates num ord prediction)) := by
  rcases pair_sublist_or ha hb hne with hsub | hsub
  · exact ⟨.insertion, hsub⟩
  · obtain ⟨rest, hperm⟩ := hsub.exists_perm_append
    have hrows : ([a, b] ++ rest).Perm
        (storedItems maps (candidates num .insertion prediction)) :=
      ((List.Perm.swap b a []).append_right rest).trans hperm.symm
    obtain ⟨ord, hord⟩ := exists_order maps (sortedBy_insertionSort ([a, b] ++ rest))
      ((List.perm_insertionSort _ _).trans hrows)
    refine ⟨ord, ?_⟩
    rw [hord]
    exact List.pair_sublist_insertionSort (Ordering.isLE_of_eq_eq heq)
      (List.sublist_append_left [a, b] rest)

/-! ## Unambiguous scores fix the plan -/

section Fixed

variable [Std.TransCmp num.totalCmp] {budget : ℕ}

/-- Where the maps fit together, every enumeration selects the same maps. -/
theorem planned_perm
    (h : Greedy.Settled (itemKb s.maps) budget (scoreGroups num prediction s.maps))
    (ord : HashOrder) : (planned num ord prediction s budget).Perm
      (Greedy.pickGroups (itemKb s.maps) budget (scoreGroups num prediction s.maps)).flatten := by
  obtain ⟨gs, hgs, hflatten⟩ := exists_groups num prediction s.maps ord
  have hperm := h.pick_perm hgs
  rw [hflatten, Greedy.pick_flatten h] at hperm
  exact hperm

/-- Different selected maps differ in score or key. -/
theorem Unambiguous.eq_of_keys {planner : GreedyPrefetchPlanner}
    (h : planner.Unambiguous num prediction s.maps budget) {ord : HashOrder} {a b : MapId × F16}
    (ha : a ∈ planned num ord prediction s budget) (hb : b ∈ planned num ord prediction s budget)
    (hscore : cmpItem num a b = .eq) (hkeys : planner.sort.compareKeys s.maps a.1 b.1 = .eq) :
    a = b := by
  have hperm := planned_perm h.fitTogether ord
  have hgroups := (groupedBy_scoreGroups num prediction s.maps).subset
    (Greedy.pickGroups_subset (w := itemKb s.maps) budget _)
  have hpairs : (Greedy.pickGroups (itemKb s.maps) budget
      (scoreGroups num prediction s.maps)).flatten.Pairwise fun a b =>
        cmpItem num a b = .lt ∨ planner.sort.compareKeys s.maps a.1 b.1 ≠ .eq := by
    refine List.pairwise_flatten.2 ⟨fun g hg => (h.toldApart g hg).imp Or.inr, ?_⟩
    exact hgroups.across.imp fun hlt a ha b hb => Or.inl (hlt a ha b hb)
  by_contra hne
  rcases pair_sublist_or (hperm.mem_iff.1 ha) (hperm.mem_iff.1 hb) hne with hsub | hsub
  · rcases List.pairwise_pair.1 (hpairs.sublist hsub) with hlt | hdiff
    · rw [hscore] at hlt
      exact Ordering.noConfusion hlt
    · exact hdiff hkeys
  · rcases List.pairwise_pair.1 (hpairs.sublist hsub) with hlt | hdiff
    · rw [Std.OrientedCmp.eq_symm hscore] at hlt
      exact Ordering.noConfusion hlt
    · exact hdiff (Std.OrientedCmp.eq_symm hkeys)

variable (num prediction) in
/-- Score and key let `a` stand in front of `b`. -/
def MayPrecede (strategy : SortStrategy) (maps : MapStore) (a b : MapId) : Prop :=
  ∃ x y, prediction.mapScores.get? a = some x ∧ prediction.mapScores.get? b = some y ∧
    (num.totalCmp x y).isGE = true ∧
      (num.totalCmp x y = .eq → (strategy.compareKeys maps a b).isLE = true)

variable (num) in
theorem plan_mayPrecede (planner : GreedyPrefetchPlanner) (ord : HashOrder)
    (prediction : Prediction F16) (s : Stores F16) (mem : MemStat) :
    (planner.plan num ord prediction s mem).maps.Pairwise
      (MayPrecede num prediction planner.sort s.maps) := by
  refine (planner.plan_pairwise num ord prediction s mem).imp ?_
  intro a b ⟨x, y, hx, hy, hge, htie⟩
  exact ⟨x, y, hx, hy, hge, fun heq => (htie heq).1⟩

/-- Unambiguous scores give one plan. -/
theorem Unambiguous.plan_eq {planner : GreedyPrefetchPlanner} {mem : MemStat}
    (h : planner.Unambiguous num prediction s.maps (planner.availableKb mem).toNat)
    (ord ord' : HashOrder) :
    planner.plan num ord prediction s mem = planner.plan num ord' prediction s mem := by
  have hperm := (planned_perm h.fitTogether ord).trans (planned_perm h.fitTogether ord').symm
  have hmaps : (planner.plan num ord prediction s mem).maps =
      (planner.plan num ord' prediction s mem).maps := by
    refine List.Perm.eq_of_pairwise ?_ (planner.plan_mayPrecede num ord prediction s mem)
      (planner.plan_mayPrecede num ord' prediction s mem) ?_
    · intro a b ha hb ⟨x, y, hx, hy, hxy, hkeys⟩ ⟨y', x', hy', hx', hyx, hkeys'⟩
      obtain rfl : x = x' := Option.some.inj (hx.symm.trans hx')
      obtain rfl : y = y' := Option.some.inj (hy.symm.trans hy')
      have hscore : num.totalCmp x y = .eq := Std.OrientedCmp.isGE_antisymm hxy hyx
      have hkey := Std.OrientedCmp.isLE_antisymm (hkeys hscore)
        (hkeys' (Std.OrientedCmp.eq_symm hscore))
      have ha' : (a, x) ∈ planned num ord prediction s (planner.availableKb mem).toNat := by
        obtain ⟨z, hz⟩ := mem_plan.1 ha
        rwa [Option.some.inj (hx.symm.trans (scored_of_mem_planned hz).2.1)]
      have hb' : (b, y) ∈ planned num ord prediction s (planner.availableKb mem).toNat := by
        obtain ⟨z, hz⟩ := mem_plan.1 hb
        rw [Option.some.inj (hy.symm.trans (scored_of_mem_planned hz).2.1)]
        exact hperm.mem_iff.2 hz
      exact congrArg Prod.fst (h.eq_of_keys ha' hb' (Std.OrientedCmp.eq_symm hscore) hkey)
    · exact plan_maps_perm.trans ((hperm.map Prod.fst).trans plan_maps_perm.symm)
  have htotal : (planner.plan num ord prediction s mem).totalBytes =
      (planner.plan num ord' prediction s mem).totalBytes := by
    rw [← UInt64.toNat_inj, toNat_plan_totalBytes, toNat_plan_totalBytes,
      Greedy.weight_perm hperm]
  exact PrefetchPlan.ext hmaps htotal rfl

/-! ## One plan means unambiguous scores -/

omit [Std.TransCmp num.totalCmp] in
theorem nodup_storedItems (maps : MapStore) (ord : HashOrder) :
    (storedItems maps (candidates num ord prediction)).Nodup :=
  (List.Nodup.of_map Prod.fst nodup_candidates).sublist List.filter_sublist

omit [Std.TransCmp num.totalCmp] in
theorem planned_sublist (ord : HashOrder) : (planned num ord prediction s budget).Sublist
    (storedItems s.maps (candidates num ord prediction)) :=
  Greedy.pick_sublist _ _

omit [Std.TransCmp num.totalCmp] in
/-- Plans of the same maps come from selections of the same maps. -/
theorem planned_perm_of_plan {planner : GreedyPrefetchPlanner} {mem : MemStat}
    {ord ord' : HashOrder} (h : (planner.plan num ord prediction s mem).maps =
      (planner.plan num ord' prediction s mem).maps) :
    (planned num ord prediction s (planner.availableKb mem).toNat).Perm
      (planned num ord' prediction s (planner.availableKb mem).toNat) := by
  have hsub : ∀ {ord ord' : HashOrder}, (planner.plan num ord prediction s mem).maps =
      (planner.plan num ord' prediction s mem).maps →
      planned num ord prediction s (planner.availableKb mem).toNat ⊆
        planned num ord' prediction s (planner.availableKb mem).toNat := by
    intro ord ord' h item hitem
    have hid := mem_plan.2 ⟨item.2, hitem⟩
    rw [h] at hid
    obtain ⟨score, hscore⟩ := mem_plan.1 hid
    have heq := (scored_of_mem_planned hitem).2.1.symm.trans (scored_of_mem_planned hscore).2.1
    rwa [← Option.some.inj heq] at hscore
  have hnodup : ∀ ord, (planned num ord prediction s (planner.availableKb mem).toNat).Nodup :=
    fun ord => (nodup_storedItems s.maps ord).sublist (planned_sublist ord)
  refine (List.perm_ext_iff_of_nodup (hnodup ord) (hnodup ord')).2 fun item => ?_
  exact ⟨fun hitem => hsub h hitem, fun hitem => hsub h.symm hitem⟩

theorem settled_of_plan {planner : GreedyPrefetchPlanner} {mem : MemStat}
    (h : ∀ ord ord', planner.plan num ord prediction s mem =
      planner.plan num ord' prediction s mem) :
    Greedy.Settled (itemKb s.maps) (planner.availableKb mem).toNat
      (scoreGroups num prediction s.maps) := by
  have hnodup : (scoreGroups num prediction s.maps).flatten.Nodup := by
    rw [flatten_scoreGroups]
    exact nodup_storedItems s.maps .insertion
  refine (Greedy.settled_iff hnodup).2 fun gs hgs => ?_
  have hgroups := (groupedBy_scoreGroups num prediction s.maps).subset
    (hgs.imp fun _ _ hperm => hperm.symm.subset)
  have hperm : gs.flatten.Perm (storedItems s.maps (candidates num .insertion prediction)) := by
    rw [← flatten_scoreGroups]
    exact (List.Perm.flatten_congr hgs).symm
  obtain ⟨ord, hord⟩ := exists_order s.maps hgroups.sortedBy hperm
  rw [← hord, flatten_scoreGroups]
  exact planned_perm_of_plan (congrArg PrefetchPlan.maps (h ord .insertion))

/-- Maps that score and key do not tell apart are read as they were selected. -/
theorem pair_sublist_plan {planner : GreedyPrefetchPlanner} {mem : MemStat} {ord : HashOrder}
    {a b : MapId × F16}
    (hsub : [a, b].Sublist (planned num ord prediction s (planner.availableKb mem).toNat))
    (hscore : cmpItem num a b = .eq) (hkeys : planner.sort.compareKeys s.maps a.1 b.1 = .eq) :
    [a.1, b.1].Sublist (planner.plan num ord prediction s mem).maps := by
  have hids := hsub.map Prod.fst
  have hne : a.1 ≠ b.1 := by
    have := hids.nodup nodup_planned
    simpa using this
  have ha := hsub.subset (List.mem_cons_self (a := a))
  have hb := hsub.subset (List.mem_cons_of_mem a List.mem_cons_self)
  rcases pair_sublist_or (mem_plan.2 ⟨a.2, ha⟩) (mem_plan.2 ⟨b.2, hb⟩) hne with h | h
  · exact h
  · obtain ⟨y, x, hy, hx, -, htie⟩ := List.pairwise_pair.1
      ((planner.plan_pairwise num ord prediction s mem).sublist h)
    have hx' : a.2 = x := Option.some.inj ((scored_of_mem_planned ha).2.1.symm.trans hx)
    have hy' : b.2 = y := Option.some.inj ((scored_of_mem_planned hb).2.1.symm.trans hy)
    rw [← hx', ← hy'] at htie
    exact absurd ((htie hscore).2 (Std.OrientedCmp.eq_symm hkeys))
      (not_pair_sublist nodup_planned hids)

/-- Of two maps that score and key do not tell apart either is read first under some order. -/
theorem exists_plan_order {planner : GreedyPrefetchPlanner} {mem : MemStat}
    (h : Greedy.Settled (itemKb s.maps) (planner.availableKb mem).toNat
      (scoreGroups num prediction s.maps)) {a b : MapId × F16}
    (ha : a ∈ planned num .insertion prediction s (planner.availableKb mem).toNat)
    (hb : b ∈ planned num .insertion prediction s (planner.availableKb mem).toNat) (hne : a ≠ b)
    (hscore : cmpItem num a b = .eq) (hkeys : planner.sort.compareKeys s.maps a.1 b.1 = .eq) :
    ∃ ord, [a.1, b.1].Sublist (planner.plan num ord prediction s mem).maps := by
  obtain ⟨ord, hord⟩ := exists_order_pair s.maps ((planned_sublist _).subset ha)
    ((planned_sublist _).subset hb) hne hscore
  have hperm := (planned_perm h ord).trans (planned_perm h .insertion).symm
  refine ⟨ord, pair_sublist_plan ?_ hscore hkeys⟩
  rcases pair_sublist_or (hperm.mem_iff.2 ha) (hperm.mem_iff.2 hb) hne with hsub | hsub
  · exact hsub
  · exact absurd (hsub.trans (planned_sublist ord))
      (not_pair_sublist (nodup_storedItems s.maps ord) hord)

/-- The plan is the same for all orders of enumeration exactly when the scores are unambiguous. -/
theorem plan_order_independent_iff (planner : GreedyPrefetchPlanner) (prediction : Prediction F16)
    (s : Stores F16) (mem : MemStat) :
    (∀ ord ord', planner.plan num ord prediction s mem =
        planner.plan num ord' prediction s mem) ↔
      planner.Unambiguous num prediction s.maps (planner.availableKb mem).toNat := by
  constructor
  · intro h
    have hsettled := settled_of_plan h
    refine ⟨hsettled, fun g hg => ?_⟩
    have hgroups := (groupedBy_scoreGroups num prediction s.maps).subset
      (Greedy.pickGroups_subset (w := itemKb s.maps) (planner.availableKb mem).toNat _)
    have hplanned : g ⊆ planned num .insertion prediction s (planner.availableKb mem).toNat :=
      fun a ha => (planned_perm hsettled .insertion).mem_iff.2 (List.mem_flatten.2 ⟨g, hg, ha⟩)
    have hnodup : g.Nodup := by
      refine List.Nodup.sublist (List.sublist_flatten_of_mem hg) ?_
      exact (planned_perm hsettled .insertion).nodup_iff.1
        ((nodup_storedItems s.maps _).sublist (planned_sublist _))
    refine hnodup.pairwise_of_forall_ne fun a ha b hb hne hkeys => ?_
    have hscore := hgroups.within g hg a ha b hb
    obtain ⟨ord, hord⟩ := exists_plan_order hsettled (hplanned ha) (hplanned hb) hne hscore hkeys
    obtain ⟨ord', hord'⟩ := exists_plan_order hsettled (hplanned hb) (hplanned ha) (Ne.symm hne)
      (Std.OrientedCmp.eq_symm hscore) (Std.OrientedCmp.eq_symm hkeys)
    rw [h ord' ord] at hord'
    exact not_pair_sublist (plan_maps_perm.nodup_iff.2 nodup_planned) hord hord'
  · intro h ord ord'
    exact h.plan_eq ord ord'

end Fixed

/-- Two blocks of equal score that both fit are planned in one way under `Block`. -/
theorem plan_order_independent_two_blocks :
    ((new .block ⟨0, 100⟩).plan Numerics.rational .reverse (equalScores twoBlocks) twoBlocks
        ⟨0, 64, 64, 0, 0, 0⟩).maps.length = 2 ∧
    ∀ ord ord', (new .block ⟨0, 100⟩).plan Numerics.rational ord (equalScores twoBlocks) twoBlocks
        ⟨0, 64, 64, 0, 0, 0⟩ =
      (new .block ⟨0, 100⟩).plan Numerics.rational ord' (equalScores twoBlocks) twoBlocks
        ⟨0, 64, 64, 0, 0, 0⟩ := by
  have : Std.TransCmp Numerics.rational.totalCmp :=
    inferInstanceAs (Std.TransCmp (compare : ℚ → ℚ → Ordering))
  refine ⟨by decide +kernel, (plan_order_independent_iff _ _ _ _).2 ⟨?_, ?_⟩⟩
  · decide +kernel
  · decide +kernel

/-- With room for one of them, the hash order decides which one is planned. -/
theorem plan_depends_on_order :
    ¬∀ ord ord', (new .block ⟨0, 100⟩).plan Numerics.rational ord (equalScores twoBlocks) twoBlocks
        ⟨0, 1, 1, 0, 0, 0⟩ =
      (new .block ⟨0, 100⟩).plan Numerics.rational ord' (equalScores twoBlocks) twoBlocks
        ⟨0, 1, 1, 0, 0, 0⟩ := by
  intro h
  exact absurd (h .insertion .reverse) (by decide +kernel)

end GreedyPrefetchPlanner

end PreloadNg
