import PreloadNg.Stores.Basic

set_option autoImplicit false

/-! # The predictor

`MarkovPredictor` turns the statistics of the edges into a score for each executable and each map:
the probability that it is needed in the next cycle. -/

namespace PreloadNg

structure Prediction (F16 : Type) where
  exeScores : FxHashMap ExeId F16
  mapScores : FxHashMap MapId F16

structure PredictionSummary where
  numExesScored : ℕ
  numMapsScored : ℕ
deriving DecidableEq

namespace Prediction

variable {F16 : Type}

/-- `Prediction::default()`. -/
instance : EmptyCollection (Prediction F16) := ⟨⟨∅, ∅⟩⟩

def summarize (p : Prediction F16) : PredictionSummary where
  numExesScored := p.exeScores.keys.length
  numMapsScored := p.mapScores.keys.length

end Prediction

structure MarkovPredictor (F32 : Type) where
  useCorrelation : Bool
  cycleSecs : F32

section Predictor

variable {F16 F32 : Type} [Float32Ops F32] (num : Numerics F16 F32)

/-- The phi coefficient of two executables; `none` when it is indeterminate. -/
def correlation (s : Stores F16) (a b : ExeId) (abTime : UInt64) : Option F32 :=
  let t := s.modelTime
  let aTime := s.runningTime a
  let bTime := s.runningTime b
  if t = 0 ∨ aTime = 0 ∨ bTime = 0 ∨ t ≤ aTime ∨ t ≤ bTime then none
  else
    let numerator : F32 := u64AsF32 t * u64AsF32 abTime - u64AsF32 aTime * u64AsF32 bTime
    let denom : F32 :=
      num.sqrt (u64AsF32 aTime * u64AsF32 bTime * u64AsF32 (t - aTime) * u64AsF32 (t - bTime))
    if denom == 0 then none else some (numerator / denom)

/-- The probability that the edge leaves `state` within the cycle for `targetState` or `Both`. -/
def pNeeded (edge : Edge F16) (state targetState : MarkovState) (cycle : F32) : F32 :=
  let stateIx := state.index
  let tt := num.toF32 (edge.timeToLeave stateIx)
  if tt ≤ 0 then 0
  else
    let pStateChange := 1 - num.fastExpNeg (-cycle / tt)
    let pRunsNext := num.toF32 (edge.transitionProb stateIx targetState.index) +
      num.toF32 (edge.transitionProb stateIx MarkovState.both.index)
    clamp01 (pStateChange * pRunsNext)

namespace MarkovPredictor

variable (predictor : MarkovPredictor F32)

/-- The weight of an edge: its absolute correlation, where it is used. -/
def weight (s : Stores F16) (key : EdgeKey) (edge : Edge F16) : F32 :=
  if predictor.useCorrelation then
    ((correlation num s key.a key.b edge.bothRunningTime).map f32Abs).getD num.minPositive
  else 1

/-- `*not_needed.entry(id).or_insert(1.0) *= 1.0 - p`, unless the executable runs. -/
def lowerNotNeeded (s : Stores F16) (key : EdgeKey) (edge : Edge F16) (id : ExeId)
    (targetState : MarkovState) (notNeeded : FxHashMap ExeId F32) : FxHashMap ExeId F32 :=
  if s.isRunning id then notNeeded
  else
    let state := MarkovState.fromRunning (s.isRunning key.a) (s.isRunning key.b)
    let base := pNeeded num edge state targetState predictor.cycleSecs
    let p := clamp01 (base * predictor.weight num s key edge)
    notNeeded.modifyEntry id 1 fun entry => entry * (1 - p)

/-- The body of the loop over the edges. -/
def visitEdge (s : Stores F16) (notNeeded : FxHashMap ExeId F32) (row : EdgeKey × Edge F16) :
    FxHashMap ExeId F32 :=
  predictor.lowerNotNeeded num s row.1 row.2 row.1.b .bOnly
    (predictor.lowerNotNeeded num s row.1 row.2 row.1.a .aOnly notNeeded)

def notNeeded (s : Stores F16) : FxHashMap ExeId F32 :=
  s.markov.iter.foldl (predictor.visitEdge num s) ∅

/-- The score of an executable: `0` if it runs, else the largest of its Markov probability, its
    share of the model time and a small constant. -/
def exeScore (s : Stores F16) (notNeeded : FxHashMap ExeId F32) (id : ExeId) (exe : Exe) : F16 :=
  if exe.running then num.zero
  else
    let markovNeeded : F32 := ((notNeeded.get? id).map fun p => clamp01 (1 - p)).getD 0
    let baseProb : F32 :=
      if 0 < s.modelTime then clamp01 (u64AsF32 exe.totalRunningTime / u64AsF32 s.modelTime)
      else 0
    num.ofF32 (f32Max (f32Max markovNeeded baseProb) num.minScore)

/-- The body of the loop over the executables of a map: multiply into the current one of the four
    accumulators, and go to the next one. -/
def takeLane (exeScores : FxHashMap ExeId F16) (st : (Fin 4 → F32) × Fin 4) (exeId : ExeId) :
    (Fin 4 → F32) × Fin 4 :=
  let exeScore := num.toF32 ((exeScores.get? exeId).getD num.zero)
  (Function.update st.1 st.2 (st.1 st.2 * (1 - exeScore)), st.2 + 1)

def lanes (exeScores : FxHashMap ExeId F16) (exes : List ExeId) : (Fin 4 → F32) × Fin 4 :=
  exes.foldl (takeLane num exeScores) (fun _ => 1, 0)

def mapScore (exeScores : FxHashMap ExeId F16) (exes : List ExeId) : F16 :=
  let acc := (lanes num exeScores exes).1
  let notNeeded := acc 0 * acc 1 * acc 2 * acc 3
  num.ofF32 (clamp01 (1 - notNeeded))

/-- Executables of a map come in the iteration order of their hash set. -/
def predict (ord : HashOrder) (s : Stores F16) : Prediction F16 :=
  let notNeeded := predictor.notNeeded num s
  let exeScores := s.exes.iter.foldl
    (fun scores row => scores.insert row.1 (exeScore num s notNeeded row.1 row.2)) ∅
  let mapScores := s.maps.iter.foldl
    (fun scores row =>
      scores.insert row.1 (mapScore num exeScores (ord.enum (s.exeMaps.exesForMap row.1)))) ∅
  { exeScores, mapScores }

end MarkovPredictor

/-! ## What is scored -/

variable (predictor : MarkovPredictor F32)

/-- Every stored executable has its score. -/
theorem exeScores_predict (ord : HashOrder) (s : Stores F16) (id : ExeId) :
    (predictor.predict num ord s).exeScores.get? id =
      (s.exes.get? id).map (MarkovPredictor.exeScore num s (predictor.notNeeded num s) id) := by
  refine Option.ext fun score => ?_
  refine (FxHashMap.get?_foldl_insert Prod.fst _ s.exes.ids_nodup id score).trans ?_
  rw [Option.map_eq_some_iff]
  constructor
  · rintro ⟨⟨id', e⟩, hmem, rfl, hscore⟩
    exact ⟨e, (s.exes.mem_iter id' e).1 hmem, hscore⟩
  · rintro ⟨e, he, hscore⟩
    exact ⟨(id, e), (s.exes.mem_iter id e).2 he, rfl, hscore⟩

/-- So has every stored map. -/
theorem mapScores_predict (ord : HashOrder) (s : Stores F16) {id : MapId} {m : MapSegment}
    (h : s.maps.get? id = some m) :
    (predictor.predict num ord s).mapScores.get? id =
      some (MarkovPredictor.mapScore num (predictor.predict num ord s).exeScores
        (ord.enum (s.exeMaps.exesForMap id))) :=
  (FxHashMap.get?_foldl_insert Prod.fst _ s.maps.ids_nodup id _).2
    ⟨(id, m), (s.maps.mem_iter id m).2 h, rfl, rfl⟩

end Predictor

end PreloadNg
