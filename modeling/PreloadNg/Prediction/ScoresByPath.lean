import Mathlib.Algebra.BigOperators.Group.Finset.Basic
import Mathlib.Algebra.Order.Ring.Defs
import PreloadNg.Prediction.Predictor
import PreloadNg.Stores.View

set_option autoImplicit false

/-! # Scores by path

With `f32` replaced by an ordered field `K`, the score of an executable is a product over the other
executables, and the score of a map a product over the executables that use it. Both depend on what
the stores hold by path, not on the ids or the order of the edges. (In `f32` the order of the
factors may change the last bit.) -/

namespace PreloadNg

variable {F16 : Type}

/-- The score of the executable of a path. -/
def Prediction.exeScoreAt (prediction : Prediction F16) (s : Stores F16) (p : Path) : Option F16 :=
  (s.exes.idByKey ⟨p⟩).bind prediction.exeScores.get?

/-- The score of the map of a key. -/
def Prediction.mapScoreAt (prediction : Prediction F16) (s : Stores F16) (key : MapKey) :
    Option F16 :=
  (s.maps.idByKey key).bind prediction.mapScores.get?

variable {K : Type} [Field K] [LinearOrder K] (num : Numerics F16 K)

/-! ## One edge -/

/-- The probability of an edge does not depend on the side it is seen from. -/
theorem pNeeded_swapRoles (e : Edge F16) (state target : MarkovState) (cycle : K) :
    pNeeded num e.swapRoles state target cycle = pNeeded num e state.swap target.swap cycle := by
  unfold pNeeded Edge.swapRoles
  dsimp only
  rw [state.index_swap, target.index_swap]
  rfl

/-- The correlation is symmetric. -/
theorem correlation_comm (s : Stores F16) (a b : ExeId) (abTime : UInt64) :
    correlation num s a b abTime = correlation num s b a abTime := by
  unfold correlation
  dsimp only
  refine ite_congr ?_ (fun _ => rfl) fun _ => ?_
  · rw [eq_iff_iff]
    tauto
  · have hnum : (u64AsF32 s.modelTime * u64AsF32 abTime -
          u64AsF32 (s.runningTime a) * u64AsF32 (s.runningTime b) : K) =
        u64AsF32 s.modelTime * u64AsF32 abTime -
          u64AsF32 (s.runningTime b) * u64AsF32 (s.runningTime a) :=
      congrArg _ (mul_comm _ _)
    have hdenom : (u64AsF32 (s.runningTime a) * u64AsF32 (s.runningTime b) *
          u64AsF32 (s.modelTime - s.runningTime a) *
          u64AsF32 (s.modelTime - s.runningTime b) : K) =
        u64AsF32 (s.runningTime b) * u64AsF32 (s.runningTime a) *
          u64AsF32 (s.modelTime - s.runningTime b) *
          u64AsF32 (s.modelTime - s.runningTime a) := by
      ring
    rw [hnum, hdenom]

namespace MarkovPredictor

variable (predictor : MarkovPredictor K)

/-- The weight of an edge between two executables with the given co-running time. -/
def pairWeight (s : Stores F16) (a b : ExeId) (bothTime : UInt64) : K :=
  if predictor.useCorrelation then
    ((correlation num s a b bothTime).map f32Abs).getD num.minPositive
  else 1

/-- The probability that an edge, seen from `a`, does not lead to `target`. -/
def keepFactor (s : Stores F16) (a b : ExeId) (e : Edge F16) (target : MarkovState) : K :=
  let state := MarkovState.fromRunning (s.isRunning a) (s.isRunning b)
  1 - clamp01 (pNeeded num e state target predictor.cycleSecs *
    predictor.pairWeight num s a b e.bothRunningTime)

theorem keepFactor_comm (s : Stores F16) (a b : ExeId) (e : Edge F16) (target : MarkovState) :
    predictor.keepFactor num s b a e target =
      predictor.keepFactor num s a b e.swapRoles target.swap := by
  have hneeded := pNeeded_swapRoles num e
    (MarkovState.fromRunning (s.isRunning a) (s.isRunning b)) target.swap predictor.cycleSecs
  rw [MarkovState.swap_swap, MarkovState.swap_fromRunning] at hneeded
  unfold keepFactor pairWeight
  dsimp only
  rw [hneeded, correlation_comm num s b a]
  rfl

/-- The factor of one row in the entry of `x`. -/
def rowFactor (s : Stores F16) (x : ExeId) (row : EdgeKey × Edge F16) : K :=
  (if x = row.1.a ∧ s.isRunning x = false then
    predictor.keepFactor num s row.1.a row.1.b row.2 .aOnly else 1) *
  (if x = row.1.b ∧ s.isRunning x = false then
    predictor.keepFactor num s row.1.a row.1.b row.2 .bOnly else 1)

theorem getD_lowerNotNeeded (s : Stores F16) (key : EdgeKey) (e : Edge F16) (id : ExeId)
    (target : MarkovState) (m : FxHashMap ExeId K) (x : ExeId) :
    ((predictor.lowerNotNeeded num s key e id target m).get? x).getD 1 =
      (m.get? x).getD 1 * if x = id ∧ s.isRunning x = false then
        predictor.keepFactor num s key.a key.b e target else 1 := by
  unfold lowerNotNeeded
  by_cases hx : x = id
  · subst hx
    cases hrun : s.isRunning x with
    | true => simp
    | false =>
        rw [if_neg (by simp), if_pos ⟨rfl, rfl⟩, FxHashMap.get?_modifyEntry, if_pos rfl]
        rfl
  · have hother : ¬ (x = id ∧ s.isRunning x = false) := fun h => hx h.1
    rw [if_neg hother, mul_one]
    split
    · rfl
    · rw [FxHashMap.get?_modifyEntry, if_neg hx]

/-- The loop over the edges multiplies the factors of the rows. -/
theorem getD_visitEdges (s : Stores F16) (rows : List (EdgeKey × Edge F16))
    (m : FxHashMap ExeId K) (x : ExeId) :
    ((rows.foldl (predictor.visitEdge num s) m).get? x).getD 1 =
      (m.get? x).getD 1 * (rows.map (predictor.rowFactor num s x)).prod := by
  induction rows generalizing m with
  | nil => simp
  | cons row rest ih =>
      rw [List.foldl_cons, ih, List.map_cons, List.prod_cons, visitEdge, getD_lowerNotNeeded,
        getD_lowerNotNeeded, rowFactor]
      ring

theorem getD_notNeeded (s : Stores F16) (x : ExeId) :
    ((predictor.notNeeded num s).get? x).getD 1 =
      (s.markov.iter.map (predictor.rowFactor num s x)).prod := by
  rw [notNeeded, getD_visitEdges, FxHashMap.get?_empty, Option.getD_none, one_mul]

/-- The factor of the edge between `x` and `y`, seen from `x`. -/
theorem rowFactor_new (s : Stores F16) (x y : ExeId) (e : Edge F16) :
    predictor.rowFactor num s x (EdgeKey.new x y, e) =
      if s.isRunning x then 1
      else predictor.keepFactor num s x y (e.seenFrom x y) .aOnly *
        if x = y then predictor.keepFactor num s x y (e.seenFrom x y) .bOnly else 1 := by
  unfold rowFactor
  cases hrun : s.isRunning x with
  | true => simp
  | false =>
      rcases lt_trichotomy x y with hlt | rfl | hgt
      · rw [EdgeKey.new_of_le (le_of_lt hlt), Edge.seenFrom, if_pos (le_of_lt hlt)]
        simp [ne_of_lt hlt]
      · rw [EdgeKey.new_of_le (le_refl x), Edge.seenFrom, if_pos (le_refl x)]
        simp
      · -- the key lists `y` first, so `x` has the other role
        rw [EdgeKey.new_comm, EdgeKey.new_of_le (le_of_lt hgt), Edge.seenFrom,
          if_neg (not_le.2 hgt)]
        dsimp only
        rw [keepFactor_comm num predictor s x y e .bOnly]
        simp [ne_of_gt hgt, MarkovState.swap]

/-! ## All edges of an executable -/

/-- The factor of the edge under a key, if there is one. -/
def edgeFactor (s : Stores F16) (x : ExeId) (key : EdgeKey) : K :=
  match s.markov.get? key with
  | some e => predictor.rowFactor num s x (key, e)
  | none => 1

/-- The rows contribute the factors of their keys. -/
theorem map_rowFactor (s : Stores F16) (x : ExeId) :
    s.markov.iter.map (predictor.rowFactor num s x) =
      s.markov.keys.map (predictor.edgeFactor num s x) := by
  rw [← s.markov.iter_map_fst, List.map_map]
  refine List.map_congr_left fun row hrow => ?_
  rw [Function.comp_apply, edgeFactor, MarkovGraph.mem_iter.1 hrow]

/-- The entry of `x` is a product over the other executables. -/
theorem prod_rowFactor {s : Stores F16} (hs : s.Linked) (x : ExeId) :
    (s.markov.iter.map (predictor.rowFactor num s x)).prod =
      ∏ y ∈ s.exes.ids.toFinset, predictor.edgeFactor num s x (EdgeKey.new x y) := by
  have hinj : Set.InjOn (EdgeKey.new x) (s.exes.ids.toFinset : Set ExeId) := by
    intro y _ z _ h
    rcases EdgeKey.new_inj h with ⟨-, h⟩ | ⟨h, h'⟩
    · exact h
    · exact h'.trans h
  rw [predictor.map_rowFactor, ← List.prod_toFinset _ s.markov.keys_nodup, ← Finset.prod_image hinj]
  refine Finset.prod_congr_of_eq_on_inter ?_ ?_ fun _ _ _ => rfl
  · -- an edge that does not touch `x`
    intro key hkey hnot
    rw [List.mem_toFinset] at hkey
    obtain ⟨e, he⟩ := MarkovGraph.mem_keys_iff.1 hkey
    obtain ⟨ha, hb⟩ := hs.edge_live key hkey
    have hnota : x ≠ key.a := by
      intro hx
      refine hnot (Finset.mem_image.2 ⟨key.b, ?_, by rw [hx, EdgeKey.new_a_b]⟩)
      exact List.mem_toFinset.2 ((s.exes.mem_ids _).2 hb)
    have hnotb : x ≠ key.b := by
      intro hx
      refine hnot (Finset.mem_image.2 ⟨key.a, ?_, by rw [hx, EdgeKey.new_comm, EdgeKey.new_a_b]⟩)
      exact List.mem_toFinset.2 ((s.exes.mem_ids _).2 ha)
    rw [edgeFactor, he]
    simp [rowFactor, hnota, hnotb]
  · -- no edge
    intro key _ hnot
    rw [List.mem_toFinset, MarkovGraph.mem_keys_iff, ← Option.ne_none_iff_exists', not_not] at hnot
    rw [edgeFactor, hnot]

/-- The same product over the keys of the executables. -/
theorem prod_keys {s : Stores F16} (hs : s.Linked) (x : ExeId) :
    (s.markov.iter.map (predictor.rowFactor num s x)).prod =
      (s.exes.keys.map fun key => ((s.exes.idByKey key).map fun y =>
        predictor.edgeFactor num s x (EdgeKey.new x y)).getD 1).prod := by
  rw [predictor.prod_rowFactor num hs x, List.prod_toFinset _ s.exes.ids_nodup,
    ← ExeStore.iter_map_fst, ExeStore.keys, List.map_map, List.map_map]
  congr 1
  refine List.map_congr_left fun row hrow => ?_
  rw [Function.comp_apply, Function.comp_apply,
    ExeStore.idByKey_of_get? ((s.exes.mem_iter row.1 row.2).1 hrow), Option.map_some,
    Option.getD_some]

end MarkovPredictor

/-! ## The same contents by path -/

section AgreesByPath

variable {s t : Stores F16} (h : s.AgreesByPath t) {p q : Path} {a b a' b' : ExeId}
  (ha : s.exes.idByKey ⟨p⟩ = some a) (ha' : t.exes.idByKey ⟨p⟩ = some a')

include h ha ha'

theorem Stores.AgreesByPath.get? : s.exes.get? a = t.exes.get? a' := by
  obtain ⟨e, he, hkey⟩ := ExeStore.idByKey_eq_some.1 ha
  obtain ⟨e', he', hkey'⟩ := ExeStore.idByKey_eq_some.1 ha'
  have hs : s.exeAt p = some e := Stores.exeAt_eq_some.2 ⟨a, he, hkey⟩
  have ht : t.exeAt p = some e' := Stores.exeAt_eq_some.2 ⟨a', he', hkey'⟩
  rw [he, he', ← hs, ← ht, h.exeAt]

theorem Stores.AgreesByPath.isRunning : s.isRunning a = t.isRunning a' := by
  rw [Stores.isRunning, Stores.isRunning, h.get? ha ha']

theorem Stores.AgreesByPath.runningTime : s.runningTime a = t.runningTime a' := by
  rw [Stores.runningTime, Stores.runningTime, h.get? ha ha']

variable (hb : s.exes.idByKey ⟨q⟩ = some b) (hb' : t.exes.idByKey ⟨q⟩ = some b')

include hb hb'

omit h in
theorem Stores.id_eq_iff_of_paths : a = b ↔ a' = b' := by
  constructor
  · rintro rfl
    obtain rfl := ExeKey.mk.inj (ExeStore.idByKey_inj ha hb)
    exact Option.some.inj (ha'.symm.trans hb')
  · rintro rfl
    obtain rfl := ExeKey.mk.inj (ExeStore.idByKey_inj ha' hb')
    exact Option.some.inj (ha.symm.trans hb)

theorem Stores.AgreesByPath.seenFrom :
    (s.markov.get? (EdgeKey.new a b)).map (Edge.seenFrom a b) =
      (t.markov.get? (EdgeKey.new a' b')).map (Edge.seenFrom a' b') := by
  have hedge := h.edgeAt p q
  rw [Stores.edgeAt, Stores.edgeAt, ha, hb, ha', hb'] at hedge
  exact hedge

/-- An edge contributes the same factor. -/
theorem Stores.AgreesByPath.edgeFactor (predictor : MarkovPredictor K) :
    predictor.edgeFactor num s a (EdgeKey.new a b) =
      predictor.edgeFactor num t a' (EdgeKey.new a' b') := by
  have hkeep : ∀ e target, predictor.keepFactor num s a b e target =
      predictor.keepFactor num t a' b' e target := by
    intro e target
    unfold MarkovPredictor.keepFactor MarkovPredictor.pairWeight correlation
    rw [h.isRunning ha ha', h.isRunning hb hb', h.runningTime ha ha', h.runningTime hb hb',
      h.modelTime]
  have hseen := h.seenFrom ha ha' hb hb'
  unfold MarkovPredictor.edgeFactor
  cases hget : s.markov.get? (EdgeKey.new a b) with
  | none =>
      rw [hget, Option.map_none, eq_comm, Option.map_eq_none_iff] at hseen
      rw [hseen]
  | some e =>
      rw [hget, Option.map_some, eq_comm, Option.map_eq_some_iff] at hseen
      obtain ⟨e', hget', hseen⟩ := hseen
      rw [hget']
      dsimp only
      rw [predictor.rowFactor_new, predictor.rowFactor_new, hseen, hkeep, hkeep,
        h.isRunning ha ha', if_congr (Stores.id_eq_iff_of_paths ha ha' hb hb') rfl rfl]

end AgreesByPath

theorem Stores.AgreesByPath.keys {s t : Stores F16} (h : s.AgreesByPath t) :
    s.exes.keys.Perm t.exes.keys := by
  rw [List.perm_ext_iff_of_nodup s.exes.keys_nodup t.exes.keys_nodup]
  intro ⟨p⟩
  have hstored : ∀ u : Stores F16, (⟨p⟩ : ExeKey) ∈ u.exes.keys ↔ u.exeAt p ≠ none := by
    intro u
    rw [ExeStore.mem_keys, Stores.exeAt, ne_eq, ExeStore.lookup_eq_none, ← ne_eq,
      Option.ne_none_iff_exists']
  rw [hstored, hstored, h.exeAt]

/-- The entry of a path in the table of the predictor. -/
theorem Stores.AgreesByPath.notNeeded {s t : Stores F16} (h : s.AgreesByPath t) (hs : s.Linked)
    (ht : t.Linked) (predictor : MarkovPredictor K) {p : Path} {a a' : ExeId}
    (ha : s.exes.idByKey ⟨p⟩ = some a) (ha' : t.exes.idByKey ⟨p⟩ = some a') :
    ((predictor.notNeeded num s).get? a).getD 1 = ((predictor.notNeeded num t).get? a').getD 1 := by
  rw [predictor.getD_notNeeded, predictor.getD_notNeeded, predictor.prod_keys num hs,
    predictor.prod_keys num ht]
  refine ((h.keys.map _).prod_eq).trans ?_
  congr 1
  refine List.map_congr_left fun key hkey => ?_
  obtain ⟨b, hb⟩ := ExeStore.mem_keys.1 (h.keys.mem_iff.2 hkey)
  obtain ⟨b', hb'⟩ := ExeStore.mem_keys.1 hkey
  rw [hb, hb', Option.map_some, Option.map_some, h.edgeFactor num ha ha' hb hb' predictor]

/-! ## Scores -/

section Scores

variable [IsStrictOrderedRing K] (predictor : MarkovPredictor K)

/-- An executable without edges has an empty product. -/
theorem exeScore_eq (s : Stores F16) (notNeeded : FxHashMap ExeId K) (id : ExeId) (exe : Exe) :
    MarkovPredictor.exeScore num s notNeeded id exe =
      if exe.running then num.zero
      else
        let markovNeeded : K := clamp01 (1 - (notNeeded.get? id).getD 1)
        let baseProb : K :=
          if 0 < s.modelTime then clamp01 (u64AsF32 exe.totalRunningTime / u64AsF32 s.modelTime)
          else 0
        num.ofF32 (f32Max (f32Max markovNeeded baseProb) num.minScore) := by
  unfold MarkovPredictor.exeScore
  cases notNeeded.get? id with
  | some p => rfl
  | none =>
      have hzero : clamp01 ((1 : K) - 1) = 0 := by rw [sub_self, clamp01_zero]
      dsimp only [Option.map_none, Option.getD_none]
      rw [hzero]

/-- The score of an executable, by path. -/
theorem Stores.AgreesByPath.exeScoreAt {s t : Stores F16} (h : s.AgreesByPath t) (hs : s.Linked)
    (ht : t.Linked) (ord ord' : HashOrder) (p : Path) :
    (predictor.predict num ord s).exeScoreAt s p =
      (predictor.predict num ord' t).exeScoreAt t p := by
  unfold Prediction.exeScoreAt
  cases ha : s.exes.idByKey ⟨p⟩ with
  | none =>
      have ha' : t.exes.idByKey ⟨p⟩ = none := by
        rw [← ExeStore.lookup_eq_none] at ha ⊢
        exact (h.exeAt p).symm.trans ha
      rw [ha', Option.bind_none, Option.bind_none]
  | some a =>
      obtain ⟨a', ha'⟩ := ExeStore.mem_keys.1 (h.keys.mem_iff.1 (ExeStore.mem_keys.2 ⟨a, ha⟩))
      rw [ha', Option.bind_some, Option.bind_some, exeScores_predict, exeScores_predict,
        h.get? ha ha']
      refine congrArg (Option.map · (t.exes.get? a')) (funext fun exe => ?_)
      rw [exeScore_eq, exeScore_eq, h.notNeeded num hs ht predictor ha ha', h.modelTime]

omit [IsStrictOrderedRing K] in
/-- The four accumulators multiply to the product of all factors. -/
theorem prod_lanes (exeScores : FxHashMap ExeId F16) (exes : List ExeId) :
    (let acc := (MarkovPredictor.lanes num exeScores exes).1
     acc 0 * acc 1 * acc 2 * acc 3) =
      (exes.map fun id => 1 - num.toF32 ((exeScores.get? id).getD num.zero)).prod := by
  have hloop : ∀ (exes : List ExeId) (st : (Fin 4 → K) × Fin 4),
      (let acc := (exes.foldl (MarkovPredictor.takeLane num exeScores) st).1
       acc 0 * acc 1 * acc 2 * acc 3) =
        st.1 0 * st.1 1 * st.1 2 * st.1 3 *
          (exes.map fun id => 1 - num.toF32 ((exeScores.get? id).getD num.zero)).prod := by
    intro exes
    induction exes with
    | nil => intro st; simp
    | cons id rest ih =>
        intro ⟨acc, lane⟩
        rw [List.foldl_cons, ih, List.map_cons, List.prod_cons]
        unfold MarkovPredictor.takeLane
        -- the factor goes to one of the four lanes
        fin_cases lane <;> simp [Function.update] <;> ring
  have hstart := hloop exes (fun _ => 1, 0)
  rw [mul_one, mul_one, mul_one, one_mul] at hstart
  exact hstart

/-- The executables that use a map, by key. -/
def Stores.usersOf (s : Stores F16) (m : MapId) : List ExeKey :=
  (s.exeMaps.exesForMap m).filterMap fun id => (s.exes.get? id).map Exe.key

theorem Stores.mem_usersOf {s : Stores F16} {m : MapId} {mapKey : MapKey}
    (hm : s.maps.idByKey mapKey = some m) (p : Path) : ⟨p⟩ ∈ s.usersOf m ↔ s.relAt p mapKey := by
  rw [usersOf, List.mem_filterMap]
  constructor
  · intro ⟨id, hid, hkey⟩
    rw [Option.map_eq_some_iff] at hkey
    obtain ⟨e, he, hkey⟩ := hkey
    exact ⟨id, m, ExeStore.idByKey_eq_some.2 ⟨e, he, hkey⟩, hm,
      (s.exeMaps.mem_exesForMap id m).1 hid⟩
  · intro ⟨id, m', hid, hm', hrel⟩
    obtain rfl := Option.some.inj (hm.symm.trans hm')
    obtain ⟨e, he, hkey⟩ := ExeStore.idByKey_eq_some.1 hid
    exact ⟨id, (s.exeMaps.mem_exesForMap id m).2 hrel, by rw [he, Option.map_some, hkey]⟩

theorem Stores.usersOf_nodup (s : Stores F16) (m : MapId) : (s.usersOf m).Nodup := by
  refine List.Nodup.filterMap ?_ (s.exeMaps.exesForMap_nodup m)
  intro id id' key hid hid'
  rw [Option.mem_def, Option.map_eq_some_iff] at hid hid'
  obtain ⟨e, he, rfl⟩ := hid
  obtain ⟨e', he', hkey⟩ := hid'
  exact ExeStore.id_unique he he' hkey.symm

omit [IsStrictOrderedRing K] in
/-- The score of a map, from the scores of its executables by key. -/
theorem mapScore_eq {s : Stores F16} (hs : s.Linked) (exeScores : FxHashMap ExeId F16)
    (ord : HashOrder) (m : MapId) :
    MarkovPredictor.mapScore num exeScores (ord.enum (s.exeMaps.exesForMap m)) =
      num.ofF32 (clamp01 (1 - ((s.usersOf m).map fun key =>
        1 - num.toF32 (((s.exes.idByKey key).bind exeScores.get?).getD num.zero)).prod)) := by
  have husers : (s.usersOf m).map (fun key =>
        1 - num.toF32 (((s.exes.idByKey key).bind exeScores.get?).getD num.zero)) =
      (s.exeMaps.exesForMap m).map fun id =>
        1 - num.toF32 ((exeScores.get? id).getD num.zero) := by
    rw [Stores.usersOf, List.map_filterMap, ← List.filterMap_eq_map]
    refine List.filterMap_congr fun id hid => ?_
    obtain ⟨e, he⟩ := hs.exe_live id m ((s.exeMaps.mem_exesForMap id m).1 hid)
    rw [he, Option.map_some, Option.map_some, ExeStore.idByKey_of_get? he, Option.bind_some]
    rfl
  unfold MarkovPredictor.mapScore
  rw [husers, ← ((ord.perm (s.exeMaps.exesForMap m)).map _).prod_eq, ← prod_lanes]

omit [IsStrictOrderedRing K] in
/-- Maps with the same users get the same score, if these have the same scores. -/
theorem mapScore_congr {s t : Stores F16} (hs : s.Linked) (ht : t.Linked)
    {exeScores exeScores' : FxHashMap ExeId F16} {m m' : MapId}
    (husers : (s.usersOf m).Perm (t.usersOf m'))
    (hscores : ∀ key, (s.exes.idByKey key).bind exeScores.get? =
      (t.exes.idByKey key).bind exeScores'.get?) (ord ord' : HashOrder) :
    MarkovPredictor.mapScore num exeScores (ord.enum (s.exeMaps.exesForMap m)) =
      MarkovPredictor.mapScore num exeScores' (ord'.enum (t.exeMaps.exesForMap m')) := by
  rw [mapScore_eq num hs, mapScore_eq num ht, (husers.map _).prod_eq]
  simp only [hscores]

/-- The score of a map, by key. -/
theorem Stores.AgreesByPath.mapScoreAt {s t : Stores F16} (h : s.AgreesByPath t) (hs : s.Linked)
    (ht : t.Linked) (ord ord' : HashOrder) (key : MapKey) :
    (predictor.predict num ord s).mapScoreAt s key =
      (predictor.predict num ord' t).mapScoreAt t key := by
  unfold Prediction.mapScoreAt
  cases hm : s.maps.idByKey key with
  | none =>
      have hm' : t.maps.idByKey key = none := by
        rw [← KeyedStore.lookup_eq_none] at hm ⊢
        exact (h.mapAt key).1 hm
      rw [hm', Option.bind_none, Option.bind_none]
  | some m =>
      obtain ⟨x, hx, -⟩ := KeyedStore.idByKey_eq_some.1 hm
      have hstored : t.maps.idByKey key ≠ none := by
        rw [Ne, ← KeyedStore.lookup_eq_none]
        intro hnone
        exact absurd ((KeyedStore.lookup_eq_none.1 ((h.mapAt key).2 hnone)).symm.trans hm) (by simp)
      obtain ⟨m', hm'⟩ := Option.ne_none_iff_exists'.1 hstored
      obtain ⟨x', hx', -⟩ := KeyedStore.idByKey_eq_some.1 hm'
      have husers : (s.usersOf m).Perm (t.usersOf m') := by
        rw [List.perm_ext_iff_of_nodup (s.usersOf_nodup m) (t.usersOf_nodup m')]
        intro ⟨p⟩
        rw [Stores.mem_usersOf hm, Stores.mem_usersOf hm', h.relAt]
      rw [hm', Option.bind_some, Option.bind_some, mapScores_predict num predictor ord s hx,
        mapScores_predict num predictor ord' t hx']
      refine congrArg some (mapScore_congr num hs ht husers ?_ ord ord')
      intro ⟨p⟩
      exact h.exeScoreAt num predictor hs ht ord ord' p

end Scores

end PreloadNg
