import PreloadNg.Engine.WellFormed
import PreloadNg.Lib.NoisyOr
import PreloadNg.Prediction.EdgeChain
import PreloadNg.Prediction.ScoresByPath

set_option autoImplicit false

/-! # Scores as probabilities

In exact arithmetic the loops of the predictor compute closed formulas. The edges of an executable
combine by a noisy or, so do the executables of a map; the clamps at `0` do nothing and those at `1`
are minima. -/

namespace PreloadNg

variable {K : Type} [Field K] [LinearOrder K]

/-- Exact arithmetic in which the fading is a weight and the constants are those of the code. -/
structure Numerics.Probabilistic (num : Numerics K K) : Prop extends num.StoresExactly where
  fastExpNeg : ∀ x, 0 ≤ num.fastExpNeg x ∧ num.fastExpNeg x ≤ 1
  minPositive : 0 ≤ num.minPositive
  minScore : num.minScore = 1 / 10 ^ 6

/-! ## The formulas -/

section Formulas

variable (num : Numerics K K)

/-- The probability that the edge leaves `state` within the cycle, and then for `target` or `both`. -/
def Edge.startProbability (e : Edge K) (state target : MarkovState) (cycle : K) : K :=
  let tt := e.timeToLeave state.index
  if tt ≤ 0 then 0
  else
    min ((1 - num.fastExpNeg (-cycle / tt)) *
      (e.transitionProb state.index target.index +
        e.transitionProb state.index MarkovState.both.index)) 1

/-- The edges of an executable. -/
def Stores.incident (s : Stores K) (x : ExeId) : Finset EdgeKey :=
  s.markov.keys.toFinset.filter fun key => x = key.a ∨ x = key.b

/-- The share of the model time for which an executable ran. -/
def Stores.usage (s : Stores K) (e : Exe) : K :=
  if s.modelTime = 0 then 0 else min (u64AsF32 e.totalRunningTime / u64AsF32 s.modelTime) 1

/-- The probability that an edge of `x` starts it within the cycle, weighted by the correlation. -/
def MarkovPredictor.edgeProbability (predictor : MarkovPredictor K) (s : Stores K) (x : ExeId)
    (key : EdgeKey) : K :=
  match s.markov.get? key with
  | none => 0
  | some e =>
    let state := MarkovState.fromRunning (s.isRunning key.a) (s.isRunning key.b)
    let target := if x = key.a then MarkovState.aOnly else MarkovState.bOnly
    min (e.startProbability num state target predictor.cycleSecs * predictor.weight num s key e) 1

/-- The score of an executable that does not run. -/
def MarkovPredictor.startScore (predictor : MarkovPredictor K) (s : Stores K) (x : ExeId)
    (e : Exe) : K :=
  max (max (s.usage e) (1 / 10 ^ 6)) (noisyOr (s.incident x) (predictor.edgeProbability num s x))

/-- The edges have no negative probabilities. -/
def Stores.ProbabilitiesNonneg (s : Stores K) : Prop :=
  ∀ key e, s.markov.get? key = some e → ∀ i j, 0 ≤ e.transitionProb i j

end Formulas

section Probabilistic

variable [IsStrictOrderedRing K] {num : Numerics K K} (hnum : num.Probabilistic)

omit hnum in
theorem Stores.usage_mem (s : Stores K) (e : Exe) : 0 ≤ s.usage e ∧ s.usage e ≤ 1 := by
  unfold usage
  split
  · exact ⟨le_refl 0, zero_le_one⟩
  · exact ⟨le_min (div_nonneg (u64AsF32_nonneg _) (u64AsF32_nonneg _)) zero_le_one,
      min_le_right _ _⟩

omit hnum in
theorem Stores.usage_eq (s : Stores K) (e : Exe) :
    (if 0 < s.modelTime then clamp01 (u64AsF32 e.totalRunningTime / u64AsF32 s.modelTime) else 0) =
      (s.usage e : K) := by
  unfold usage
  by_cases h : s.modelTime = 0
  · rw [if_pos h, if_neg (by simp [h])]
  · rw [if_neg h, if_pos (UInt64.pos_iff_ne_zero.2 h),
      clamp01_of_nonneg (div_nonneg (u64AsF32_nonneg _) (u64AsF32_nonneg _))]

include hnum

/-! ## One edge -/

/-- The clamp of `p_needed` is a minimum. -/
theorem pNeeded_eq_startProbability {e : Edge K} (he : ∀ i j, 0 ≤ e.transitionProb i j)
    (state target : MarkovState) (cycle : K) :
    pNeeded num e state target cycle = e.startProbability num state target cycle := by
  rw [pNeeded_eq]
  unfold Edge.startProbability Edge.pRunsNext
  simp only [hnum.toF32]
  split
  · rfl
  · have hleave := sub_nonneg.2 (hnum.fastExpNeg (-cycle / e.timeToLeave state.index)).2
    exact clamp01_of_nonneg
      (mul_nonneg hleave (add_nonneg (he state.index target.index) (he state.index _)))

theorem Edge.startProbability_nonneg {e : Edge K} (he : ∀ i j, 0 ≤ e.transitionProb i j)
    (state target : MarkovState) (cycle : K) :
    0 ≤ e.startProbability num state target cycle := by
  unfold startProbability
  dsimp only
  split
  · exact le_refl 0
  · have hleave := sub_nonneg.2 (hnum.fastExpNeg (-cycle / e.timeToLeave state.index)).2
    exact le_min (mul_nonneg hleave (add_nonneg (he state.index target.index) (he state.index _)))
      zero_le_one

namespace MarkovPredictor

variable (predictor : MarkovPredictor K)

theorem weight_nonneg (s : Stores K) (key : EdgeKey) (e : Edge K) :
    0 ≤ predictor.weight num s key e := by
  unfold weight
  split
  · cases correlation num s key.a key.b e.bothRunningTime with
    | none => exact hnum.minPositive
    | some c => exact f32Abs_nonneg c
  · exact zero_le_one

variable {s : Stores K} (hprob : s.ProbabilitiesNonneg)

include hprob

theorem edgeProbability_mem (x : ExeId) (key : EdgeKey) :
    0 ≤ predictor.edgeProbability num s x key ∧ predictor.edgeProbability num s x key ≤ 1 := by
  unfold edgeProbability
  split
  · exact ⟨le_refl 0, zero_le_one⟩
  · next e he =>
      have hstart := Edge.startProbability_nonneg hnum (hprob key e he)
      exact ⟨le_min (mul_nonneg (hstart _ _ _) (predictor.weight_nonneg hnum s key e))
        zero_le_one, min_le_right _ _⟩

/-- The factor of an edge that `x` is one end of, and not both. -/
theorem edgeFactor_eq {x : ExeId} (hx : s.isRunning x = false) {key : EdgeKey}
    (hkey : key.a ≠ key.b) :
    predictor.edgeFactor num s x key =
      if x = key.a ∨ x = key.b then 1 - predictor.edgeProbability num s x key else 1 := by
  unfold edgeFactor edgeProbability
  cases he : s.markov.get? key with
  | none => simp
  | some e =>
      have hkeep : ∀ target, predictor.keepFactor num s key.a key.b e target =
          1 - min (e.startProbability num
            (MarkovState.fromRunning (s.isRunning key.a) (s.isRunning key.b)) target
            predictor.cycleSecs * predictor.weight num s key e) 1 := by
        intro target
        have hstart := Edge.startProbability_nonneg hnum (hprob key e he)
        have hclamp := clamp01_of_nonneg (mul_nonneg (hstart
          (MarkovState.fromRunning (s.isRunning key.a) (s.isRunning key.b)) target
          predictor.cycleSecs) (predictor.weight_nonneg hnum s key e))
        rw [← hclamp, ← pNeeded_eq_startProbability hnum (hprob key e he)]
        rfl
      dsimp only
      rw [rowFactor, hkeep, hkeep]
      by_cases ha : x = key.a
      · have hb : x ≠ key.b := fun hb => hkey (ha.symm.trans hb)
        rw [if_pos ⟨ha, hx⟩, if_neg fun h => hb h.1, if_pos (Or.inl ha), if_pos ha, mul_one]
      · rw [if_neg fun h => ha h.1, if_neg ha, one_mul]
        by_cases hb : x = key.b
        · rw [if_pos ⟨hb, hx⟩, if_pos (Or.inr hb)]
        · rw [if_neg fun h => hb h.1, if_neg (not_or.2 ⟨ha, hb⟩)]

/-- The product over the edges, in whatever order they come, is the one of the incident edges. -/
theorem getD_notNeeded_eq (hs : s.WF) {x : ExeId} (hx : s.isRunning x = false) :
    1 - ((predictor.notNeeded num s).get? x).getD 1 =
      noisyOr (s.incident x) (predictor.edgeProbability num s x) := by
  rw [getD_notNeeded, predictor.map_rowFactor, ← List.prod_toFinset _ s.markov.keys_nodup, noisyOr,
    Stores.incident, Finset.prod_filter]
  refine congrArg _ (Finset.prod_congr rfl fun key hkey => ?_)
  exact predictor.edgeFactor_eq hnum hprob hx (hs.edge_distinct key (List.mem_toFinset.1 hkey))

/-- The score of an executable. -/
theorem exeScore_eq_startScore (hs : s.WF) {x : ExeId} {e : Exe} (hx : s.exes.get? x = some e) :
    exeScore num s (predictor.notNeeded num s) x e =
      if e.running then 0 else predictor.startScore num s x e := by
  rw [exeScore_eq, hnum.zero]
  cases hrun : e.running with
  | true => rfl
  | false =>
      have hstopped : s.isRunning x = false := by rw [Stores.isRunning_of_get? hx, hrun]
      have hedges := fun key (_ : key ∈ s.incident x) =>
        predictor.edgeProbability_mem hnum hprob x key
      dsimp only
      rw [predictor.getD_notNeeded_eq hnum hprob hs hstopped, s.usage_eq,
        clamp01_of_nonneg (noisyOr_nonneg hedges), min_eq_left (noisyOr_le_one hedges), f32Max_eq,
        f32Max_eq, hnum.ofF32, hnum.minScore, startScore, max_comm (noisyOr _ _)]
      exact max_right_comm _ _ _

theorem startScore_mem (x : ExeId) (e : Exe) :
    1 / 10 ^ 6 ≤ predictor.startScore num s x e ∧ predictor.startScore num s x e ≤ 1 := by
  have hedges := fun key (_ : key ∈ s.incident x) =>
    predictor.edgeProbability_mem hnum hprob x key
  have hmin : (1 : K) / 10 ^ 6 ≤ 1 := by norm_num
  exact ⟨le_max_of_le_left (le_max_right _ _),
    max_le (max_le (s.usage_mem e).2 hmin) (noisyOr_le_one hedges)⟩

/-! ## Scores -/

/-- What `predict` says of the executables. -/
theorem exeScores_predict_eq (hs : s.WF) (ord : HashOrder) (x : ExeId) :
    (predictor.predict num ord s).exeScores.get? x =
      (s.exes.get? x).map fun e => if e.running then 0 else predictor.startScore num s x e := by
  rw [exeScores_predict]
  cases hx : s.exes.get? x with
  | none => rfl
  | some e => rw [Option.map_some, Option.map_some,
      predictor.exeScore_eq_startScore hnum hprob hs hx]

/-- A score, `0` without one, is `0` for what runs or is not stored and positive for the rest. -/
theorem exeScore_mem (hs : s.WF) (ord : HashOrder) (x : ExeId) :
    let score := ((predictor.predict num ord s).exeScores.get? x).getD 0
    0 ≤ score ∧ score ≤ 1 ∧
      (score = 0 ↔ ∀ e, s.exes.get? x = some e → e.running = true) := by
  rw [predictor.exeScores_predict_eq hnum hprob hs]
  cases hx : s.exes.get? x with
  | none => simp
  | some e =>
      cases hrun : e.running with
      | true => simp [hrun]
      | false =>
          obtain ⟨hmin, hone⟩ := predictor.startScore_mem hnum hprob x e
          have hpos : 0 < predictor.startScore num s x e := lt_of_lt_of_le (by norm_num) hmin
          simp [hrun, hone, hpos.le, hpos.ne']

/-- The score of a map, whatever the order of its executables. -/
theorem mapScore_eq_noisyOr (hs : s.WF) (ord : HashOrder) (m : MapId) :
    mapScore num (predictor.predict num ord s).exeScores (ord.enum (s.exeMaps.exesForMap m)) =
      noisyOr (s.exeMaps.exesForMap m).toFinset fun x =>
        ((predictor.predict num ord s).exeScores.get? x).getD 0 := by
  have hscores := fun x (_ : x ∈ (s.exeMaps.exesForMap m).toFinset) =>
    (predictor.exeScore_mem hnum hprob hs ord x).imp_right And.left
  have hprod := prod_lanes num (predictor.predict num ord s).exeScores
    (ord.enum (s.exeMaps.exesForMap m))
  simp only [hnum.toF32, hnum.zero] at hprod
  rw [((ord.perm (s.exeMaps.exesForMap m)).map _).prod_eq,
    ← List.prod_toFinset _ (s.exeMaps.exesForMap_nodup m)] at hprod
  unfold mapScore
  dsimp only
  rw [hprod, ← noisyOr, hnum.ofF32, clamp01_of_nonneg (noisyOr_nonneg hscores),
    min_eq_left (noisyOr_le_one hscores)]

end MarkovPredictor

/-- The score of an executable is the largest of its usage, a small constant and the probability
    that one of its edges starts it; the score of a map is the probability that one of its
    executables is needed. -/
theorem scores_combine_evidence (predictor : MarkovPredictor K) (ord : HashOrder) {s : Stores K}
    (hs : s.WF) (hprob : s.ProbabilitiesNonneg) :
    let prediction := predictor.predict num ord s
    let score := fun x => (prediction.exeScores.get? x).getD 0
    (∀ x e, s.exes.get? x = some e →
      prediction.exeScores.get? x = some (score x) ∧
      (e.running = true → score x = 0) ∧
      (e.running = false →
        1 / 10 ^ 6 ≤ score x ∧ score x ≤ 1 ∧ s.usage e ≤ score x ∧
        score x = max (max (s.usage e) (1 / 10 ^ 6))
          (1 - ∏ key ∈ s.incident x, (1 - predictor.edgeProbability num s x key)))) ∧
    ∀ id m, s.maps.get? id = some m → ∃ mapScore,
      prediction.mapScores.get? id = some mapScore ∧
      mapScore = 1 - ∏ x ∈ (s.exeMaps.exesForMap id).toFinset, (1 - score x) ∧
      (∀ x, s.exeMaps.Rel x id → score x ≤ mapScore) ∧
      (mapScore = 0 ↔ ∀ x, s.exeMaps.Rel x id → s.isRunning x = true) := by
  intro prediction score
  constructor
  · intro x e hx
    have hget := predictor.exeScores_predict_eq hnum hprob hs ord x
    rw [hx, Option.map_some] at hget
    have hscore : score x = if e.running then 0 else predictor.startScore num s x e := by
      simp only [score, prediction, hget, Option.getD_some]
    refine ⟨hget.trans (congrArg some hscore.symm), fun hrun => ?_, fun hrun => ?_⟩
    · rw [hscore, if_pos hrun]
    · rw [if_neg (by simp [hrun])] at hscore
      obtain ⟨hmin, hone⟩ := predictor.startScore_mem hnum hprob x e
      rw [hscore]
      exact ⟨hmin, hone, le_max_of_le_left (le_max_left _ _), rfl⟩
  · intro id m hm
    have hmem : ∀ x, x ∈ (s.exeMaps.exesForMap id).toFinset ↔ s.exeMaps.Rel x id := fun x => by
      rw [List.mem_toFinset, s.exeMaps.mem_exesForMap]
    have hscores := fun x => predictor.exeScore_mem hnum hprob hs ord x
    have hunit := fun x (_ : x ∈ (s.exeMaps.exesForMap id).toFinset) =>
      (hscores x).imp_right And.left
    refine ⟨_, (mapScores_predict num predictor ord s hm).trans
      (congrArg some (predictor.mapScore_eq_noisyOr hnum hprob hs ord id)), rfl, ?_, ?_⟩
    · intro x hx
      exact le_noisyOr hunit ((hmem x).2 hx)
    · refine (noisyOr_eq_zero_iff hunit).trans (forall_congr' fun x => ?_)
      rw [hmem]
      refine imp_congr_right fun hx => ?_
      obtain ⟨e, he⟩ := hs.exe_live x id hx
      rw [(hscores x).2.2, Stores.isRunning_of_get? he]
      simp [he]

end Probabilistic

/-- Of two programs that ran together twice one has stopped: the other predicts it. -/
theorem scores_combine_evidence_pair :
    let num : Numerics ℚ ℚ :=
      Numerics.exact ℚ (fun x => if x < 0 then 1 / 2 else 1) id (1 / 2 ^ 126) (1 / 10 ^ 6)
    let u : DefaultModelUpdater ℚ := ⟨100, 1⟩
    let scan := fun (s : Stores ℚ) (time : UInt64) (programs : List String) =>
      (u.apply num .insertion s (.ofRunning time programs) .permissive).1
    let s := scan (scan (scan (scan (scan ∅ 100 ["/bin/a"]) 110 ["/bin/a", "/bin/b"]) 120
      ["/bin/a"]) 130 ["/bin/a", "/bin/b"]) 140 ["/bin/a"]
    let predictor : MarkovPredictor ℚ := ⟨false, 20⟩
    let prediction := predictor.predict num .insertion s
    let score := fun x => (prediction.exeScores.get? x).getD 0
    s.exes.ids.map score = [0, 1 / 4] ∧
    (∀ x e, s.exes.get? x = some e →
      prediction.exeScores.get? x = some (score x) ∧
      (e.running = true → score x = 0) ∧
      (e.running = false →
        1 / 10 ^ 6 ≤ score x ∧ score x ≤ 1 ∧ s.usage e ≤ score x ∧
        score x = max (max (s.usage e) (1 / 10 ^ 6))
          (1 - ∏ key ∈ s.incident x, (1 - predictor.edgeProbability num s x key)))) ∧
    ∀ id m, s.maps.get? id = some m → ∃ mapScore,
      prediction.mapScores.get? id = some mapScore ∧
      mapScore = 1 - ∏ x ∈ (s.exeMaps.exesForMap id).toFinset, (1 - score x) ∧
      (∀ x, s.exeMaps.Rel x id → score x ≤ mapScore) ∧
      (mapScore = 0 ↔ ∀ x, s.exeMaps.Rel x id → s.isRunning x = true) := by
  intro num u scan s predictor prediction score
  have hnum : num.Probabilistic :=
    { Numerics.storesExactly_exact _ _ _ _ with
      fastExpNeg := fun x => by
        show 0 ≤ (if x < 0 then (1 : ℚ) / 2 else 1) ∧ (if x < 0 then (1 : ℚ) / 2 else 1) ≤ 1
        split <;> norm_num
      minPositive := by decide +kernel
      minScore := rfl }
  have hscan : ∀ t time programs, t.WF → (scan t time programs).WF := fun t time programs ht =>
    (apply_spec num u .insertion t (.ofRunning time programs) .permissive).wf ht
  have hs : s.WF := hscan _ _ _ (hscan _ _ _ (hscan _ _ _ (hscan _ _ _
    (hscan _ _ _ Stores.wf_empty))))
  have hrows : s.markov.iter.all (fun row => decide (∀ i j, 0 ≤ row.2.transitionProb i j)) = true :=
    by decide +kernel
  have hprob : s.ProbabilitiesNonneg := fun key e he =>
    of_decide_eq_true (List.all_eq_true.1 hrows (key, e) (MarkovGraph.mem_iter.2 he))
  exact ⟨by decide +kernel, scores_combine_evidence hnum predictor .insertion hs hprob⟩

end PreloadNg
