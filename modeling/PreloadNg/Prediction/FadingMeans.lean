import Mathlib.Analysis.SpecialFunctions.Pow.Real
import PreloadNg.Config.Settings
import PreloadNg.Lib.FadingMean
import PreloadNg.Prediction.EdgeChain

set_option autoImplicit false

/-! # The statistics of an edge as fading means

`update_state` keeps its statistics by a recursion. Under an exponential weight they are weighted
sums over the stays of the edge: a dwell time weighs what fades between the ends of two stays in its
state, a successor what fades during the stay before it. -/

namespace PreloadNg

open FadingMean

/-! ## The stays of an edge -/

/-- A stay that has ended: the time since its state was left before, or since the edge was created,
    its length, and the state that followed. -/
structure Stay where
  since : ℕ
  dwell : ℕ
  next : MarkovState

/-- When the state was last left; if never, when the edge was created. -/
def lastLeft (s : MarkovState) : Visits → ℕ
  | [] => 0
  | [(_, created)] => created.toNat
  | (_, left) :: (s', entered) :: rest =>
    if s' = s then left.toNat else lastLeft s ((s', entered) :: rest)

/-- The stays in `s`, latest first. -/
def stays (s : MarkovState) : Visits → List Stay
  | [] => []
  | [_] => []
  | (next, left) :: (s', entered) :: rest =>
    if s' = s then
      { since := left.toNat - lastLeft s ((s', entered) :: rest)
        dwell := left.toNat - entered.toNat
        next } :: stays s ((s', entered) :: rest)
    else stays s ((s', entered) :: rest)

/-- The time that an edge was in `s`, up to when it left `s` last. -/
def timeIn (s : MarkovState) (visits : Visits) : ℕ := ((stays s visits).map Stay.dwell).sum

section Samples

variable {K : Type} [Field K] [LinearOrder K]

def Stay.dwellSample (stay : Stay) : ℕ × K := (stay.since, (stay.dwell : K))

def Stay.successorSample (next : MarkovState) (stay : Stay) : ℕ × K :=
  (stay.dwell, if stay.next = next then 1 else 0)

/-- The statistics of an edge are the fading means of its visits. -/
structure Edge.Fades (w : ℕ → K) (e : Edge K) (visits : Visits) : Prop where
  current : visits.head? = some (e.state, e.lastChangeTime)
  left : ∀ s : MarkovState, (e.stateLastLeft s.index).toNat = lastLeft s visits
  dwell : ∀ s : MarkovState,
    e.timeToLeave s.index = fade w ((stays s visits).map Stay.dwellSample)
  successor : ∀ s next : MarkovState, e.transitionProb s.index next.index =
    fade w ((stays s visits).map (Stay.successorSample next))

theorem fades_freshEdge (w : ℕ → K) (now : UInt64) (state : MarkovState) :
    (MarkovGraph.freshEdge (0 : K) now state).Fades w [(state, now)] :=
  ⟨rfl, fun _ => rfl, fun _ => rfl, fun _ _ => rfl⟩

/-- The weight that is left after `t` seconds. -/
def decayWeight (num : Numerics K K) (decay : K) (t : ℕ) : K := num.fastExpNeg (-decay * (t : K))

theorem Edge.mixTt_eq (num : Numerics K K) (e : Edge K) (now : UInt64) (decay : K) :
    e.mixTt num now decay =
      decayWeight num decay (now.toNat - (e.stateLastLeft e.state.index).toNat) := by
  rw [mixTt, decayWeight, u64AsF32, toNat_satSub]

theorem Edge.mixTp_eq (num : Numerics K K) (e : Edge K) (now : UInt64) (decay : K) :
    e.mixTp num now decay = decayWeight num decay (now.toNat - e.lastChangeTime.toNat) := by
  rw [mixTp, decayWeight, u64AsF32, toNat_satSub]

/-- One transition adds one stay, in the state that is left. -/
theorem fades_updateState {num : Numerics K K} (hnum : num.StoresExactly) {decay : K} {e : Edge K}
    {visits : Visits} (h : e.Fades (decayWeight num decay) visits) (newState : MarkovState)
    (now : UInt64) :
    (e.updateState num newState now decay).Fades (decayWeight num decay)
      (visits.enter newState now) := by
  obtain ⟨rest, rfl⟩ := List.head?_eq_some_iff.1 h.current
  -- a state that is entered again is no new visit
  have henter : Visits.enter newState now ((e.state, e.lastChangeTime) :: rest) =
      if newState = e.state then (e.state, e.lastChangeTime) :: rest
      else (newState, now) :: (e.state, e.lastChangeTime) :: rest := by
    rw [Visits.enter]
    refine if_congr ?_ rfl rfl
    rw [List.head?_cons, Option.map_some, Option.some_inj, eq_comm]
  rw [henter]
  by_cases hne : newState = e.state
  · rw [if_pos hne, Edge.updateState, if_pos hne]
    exact h
  · rw [if_neg hne]
    constructor
    case current =>
      rw [Edge.updateState_state, Edge.lastChangeTime_updateState num hne]
      rfl
    case left =>
      intro s
      rw [Edge.stateLastLeft_updateState num hne, lastLeft]
      by_cases hs : e.state = s
      · rw [if_pos hs, ← hs, Function.update_self]
      · rw [if_neg hs, Function.update_of_ne fun heq => hs (MarkovState.index_injective heq).symm]
        exact h.left s
    case dwell =>
      intro s
      rw [Edge.timeToLeave_updateState num hne, hnum.ofF32, Edge.nextTimeToLeave_eq hnum, stays]
      -- only the means of the state that is left take in a stay
      by_cases hs : e.state = s
      · subst hs
        rw [if_pos rfl, Function.update_self, h.dwell, Edge.mixTt_eq, h.left, u64AsF32,
          toNat_satSub]
        rfl
      · rw [if_neg hs, Function.update_of_ne fun heq => hs (MarkovState.index_injective heq).symm]
        exact h.dwell s
    case successor =>
      intro s next
      rw [Edge.transitionProb_updateState hnum hne, stays]
      by_cases hs : e.state = s
      · subst hs
        rw [if_pos rfl, Function.update_self, h.successor, Edge.mixTp_eq]
        have hindex : (next.index = newState.index) = (newState = next) :=
          propext ⟨fun heq => (MarkovState.index_injective heq).symm, fun heq => heq ▸ rfl⟩
        simp only [hindex]
        rfl
      · rw [if_neg hs, Function.update_of_ne fun heq => hs (MarkovState.index_injective heq).symm]
        exact h.successor s next

/-! ## Along runs of the graph -/

/-- Transitions are taken with one decay. -/
def ChainOp.DecaysBy (decay : K) : ChainOp K → Prop
  | .updateState _ _ _ d => d = decay
  | .ensureEdge _ _ _ _ => True
  | .pruneInactive _ => True

/-- A step with that decay. -/
def DecayStep (num : Numerics K K) (decay : K) (s : TracedGraph K) (op : ChainOp K)
    (s' : TracedGraph K) : Prop :=
  ChainStep num s op s' ∧ op.DecaysBy decay

/-- The edges of the graph fade. -/
def TracedGraph.Fades (w : ℕ → K) (s : TracedGraph K) : Prop :=
  ∀ key e, s.graph.get? key = some e → e.Fades w (s.visits key)

theorem fades_step {num : Numerics K K} (hnum : num.StoresExactly) {decay : K}
    {s s' : TracedGraph K} {op : ChainOp K} (h : s.Fades (decayWeight num decay))
    (hstep : DecayStep num decay s op s') : s'.Fades (decayWeight num decay) := by
  obtain ⟨hchain, hdecay⟩ := hstep
  intro key e he
  cases edgeChange_of_step hchain he with
  | created _ hvisits =>
      rw [hvisits, hnum.zero]
      exact fades_freshEdge _ _ _
  | @entered newState now decay' e₀ he₀ _ _ hvisits =>
      obtain rfl : decay' = decay := hdecay
      rw [hvisits]
      exact fades_updateState hnum (h key e₀ he₀) newState now
  | kept he₀ _ hvisits =>
      rw [hvisits]
      exact h key e he₀

theorem fades_of_reachable {num : Numerics K K} (hnum : num.StoresExactly) {decay : K}
    {s : TracedGraph K} (h : Reachable (DecayStep num decay) ⟨∅, 0, fun _ => []⟩ s) :
    s.Fades (decayWeight num decay) := by
  refine h.invariant (I := TracedGraph.Fades (decayWeight num decay)) ?_
    fun _ _ _ => fades_step hnum
  intro key e he
  exact absurd he (by simp)

/-! ## Exponential decay -/

/-- The exponential law that `fast_exp_neg` approximates. -/
structure ExponentialLaw (f : K → K) : Prop where
  zero : f 0 = 1
  add : ∀ x y, f (x + y) = f x * f y

theorem isExponential_decayWeight {num : Numerics K K} (hexp : ExponentialLaw num.fastExpNeg)
    (decay : K) : IsExponential (decayWeight num decay) where
  zero := by rw [decayWeight, Nat.cast_zero, mul_zero, hexp.zero]
  add a b := by rw [decayWeight, Nat.cast_add, mul_add, hexp.add, decayWeight, decayWeight]

theorem MarkovState.exists_index (j : Fin 4) : ∃ s : MarkovState, s.index = j := by
  fin_cases j
  · exact ⟨.neither, rfl⟩
  · exact ⟨.aOnly, rfl⟩
  · exact ⟨.bOnly, rfl⟩
  · exact ⟨.both, rfl⟩

theorem Edge.Fades.row_sum {w : ℕ → K} (hw : IsExponential w) {e : Edge K} {visits : Visits}
    (h : e.Fades w visits) (s : MarkovState) :
    ∑ j, e.transitionProb s.index j = 1 - w (timeIn s visits) := by
  let samples : List (ℕ × (Fin 4 → K)) :=
    (stays s visits).map fun stay => (stay.dwell, fun j => if stay.next.index = j then 1 else 0)
  have hentry : ∀ j, e.transitionProb s.index j =
      fade w (samples.map fun sample => (sample.1, sample.2 j)) := by
    intro j
    obtain ⟨next, rfl⟩ := MarkovState.exists_index j
    rw [h.successor, List.map_map]
    refine congrArg (fade w) (List.map_congr_left fun stay _ => ?_)
    show (stay.dwell, if stay.next = next then (1 : K) else 0) =
      (stay.dwell, if stay.next.index = next.index then 1 else 0)
    simp only [(⟨fun heq => heq ▸ rfl, MarkovState.index_injective⟩ :
      stay.next = next ↔ stay.next.index = next.index)]
  rw [Finset.sum_congr rfl fun j _ => hentry j, fade_sum, fade_ones hw]
  · rw [List.map_map, covered, List.map_map]
    rfl
  · intro sample hsample
    obtain ⟨_, hmem, rfl⟩ := List.mem_map.1 hsample
    obtain ⟨stay, -, rfl⟩ := List.mem_map.1 hmem
    show ∑ j, (if stay.next.index = j then (1 : K) else 0) = 1
    rw [Finset.sum_ite_eq, if_pos (Finset.mem_univ _)]

/-- In every run with one decay, under an exponential law: a dwell time is the sum of the lengths of
    the stays in its state, each weighted by what fades between its end and the end before it; the
    probability of a successor is the sum of what fades during the stays that it followed, from their
    start to their end; and a row lacks of one what is left after the time spent in its state. -/
theorem statistics_fade (fastExpNeg sqrt : K → K) (minPositive minScore decay : K)
    (hexp : ExponentialLaw fastExpNeg) {s : TracedGraph K}
    (h : Reachable (DecayStep (Numerics.exact K fastExpNeg sqrt minPositive minScore) decay)
      ⟨∅, 0, fun _ => []⟩ s) {key : EdgeKey} {e : Edge K} (he : s.graph.get? key = some e)
    (state : MarkovState) :
    let w : ℕ → K := fun t => fastExpNeg (-decay * (t : K))
    e.timeToLeave state.index =
        fadedSum w 0 ((stays state (s.visits key)).map Stay.dwellSample) ∧
      (∀ next : MarkovState, e.transitionProb state.index next.index =
        fadedSum w 0 ((stays state (s.visits key)).map (Stay.successorSample next))) ∧
      ∑ j, e.transitionProb state.index j = 1 - w (timeIn state (s.visits key)) := by
  intro w
  have hnum := Numerics.storesExactly_exact fastExpNeg sqrt minPositive minScore
  let num := Numerics.exact K fastExpNeg sqrt minPositive minScore
  have hw : IsExponential (decayWeight num decay) := isExponential_decayWeight hexp decay
  change IsExponential w at hw
  have hfades : e.Fades w (s.visits key) := fades_of_reachable hnum h key e he
  refine ⟨?_, fun next => ?_, hfades.row_sum hw state⟩
  · rw [hfades.dwell, fade_eq_fadedSum hw]
  · rw [hfades.successor, fade_eq_fadedSum hw]

end Samples

/-- A run in which one pair stays in a state for five and, after three seconds in another one, for
    ten seconds. -/
theorem exists_two_stays {decay : ℝ} (hdecay : 0 ≤ decay) :
    ∃ (s : TracedGraph ℝ) (key : EdgeKey) (e : Edge ℝ),
      Reachable (DecayStep (Numerics.exact ℝ Real.exp id 0 0) decay) ⟨∅, 0, fun _ => []⟩ s ∧
      s.graph.get? key = some e ∧
      s.visits key = [(.neither, 28), (.bOnly, 18), (.both, 15), (.bOnly, 10)] := by
  let num : Numerics ℝ ℝ := Numerics.exact ℝ Real.exp id 0 0
  let key := EdgeKey.new ⟨1, 1⟩ ⟨2, 1⟩
  let created : TracedGraph ℝ :=
    ⟨((∅ : MarkovGraph ℝ).ensureEdge 0 ⟨1, 1⟩ ⟨2, 1⟩ 10 .bOnly).1, 10,
      Function.update (fun _ => []) key [(.bOnly, 10)]⟩
  let next (s : TracedGraph ℝ) (state : MarkovState) (now : UInt64) : TracedGraph ℝ :=
    ⟨s.graph.modify key fun e => e.updateState num state now decay, now,
      Function.update s.visits key ((s.visits key).enter state now)⟩
  have hcreate : DecayStep num decay ⟨∅, 0, fun _ => []⟩ (.ensureEdge ⟨1, 1⟩ ⟨2, 1⟩ 10 .bOnly)
      created := ⟨⟨by decide, rfl⟩, trivial⟩
  have hnext : ∀ (s : TracedGraph ℝ) (state : MarkovState) (now : UInt64), s.clock ≤ now →
      DecayStep num decay s (.updateState key state now decay) (next s state now) :=
    fun s state now hle => ⟨⟨hle, hdecay, rfl⟩, rfl⟩
  have hget : ∀ (s : TracedGraph ℝ) (state : MarkovState) (now : UInt64),
      (s.graph.get? key).isSome → ((next s state now).graph.get? key).isSome := by
    intro s state now hs
    rw [MarkovGraph.get?_modify, if_pos rfl, Option.isSome_map]
    exact hs
  have hcreated : (created.graph.get? key).isSome := by
    rw [MarkovGraph.get?_ensureEdge, if_pos ⟨rfl, List.not_mem_nil⟩]
    rfl
  let left := next (next (next created .both 15) .bOnly 18) .neither 28
  obtain ⟨e, he⟩ := Option.isSome_iff_exists.1
    (hget _ .neither 28 (hget _ .bOnly 18 (hget _ .both 15 hcreated)))
  have hreach : Reachable (DecayStep num decay) ⟨∅, 0, fun _ => []⟩ left :=
    (((Reachable.refl.tail hcreate).tail
      (hnext _ .both 15 (show (10 : UInt64) ≤ 15 by decide))).tail
      (hnext _ .bOnly 18 (show (15 : UInt64) ≤ 18 by decide))).tail
      (hnext _ .neither 28 (show (18 : UInt64) ≤ 28 by decide))
  refine ⟨left, key, e, hreach, he, ?_⟩
  simp only [left, next, created, Function.update_self]
  decide

/-- A stay of five seconds, and one of ten that ends thirteen seconds later. -/
theorem statistics_fade_two_stays :
    let w : ℕ → ℝ := fun t => Real.exp (-1 * (t : ℝ))
    ∃ (s : TracedGraph ℝ) (key : EdgeKey) (e : Edge ℝ), s.graph.get? key = some e ∧
      e.timeToLeave MarkovState.bOnly.index = (w 0 - w 13) * 10 + (w 13 - w 18) * 5 ∧
      e.transitionProb MarkovState.bOnly.index MarkovState.neither.index = w 0 - w 10 ∧
      e.transitionProb MarkovState.bOnly.index MarkovState.both.index = w 10 - w 15 ∧
      ∑ j, e.transitionProb MarkovState.bOnly.index j = 1 - w 15 := by
  intro w
  obtain ⟨s, key, e, hreach, hget, hvisits⟩ := exists_two_stays zero_le_one
  obtain ⟨hdwell, hsuccessor, hrow⟩ := statistics_fade Real.exp id 0 0 1
    ⟨Real.exp_zero, Real.exp_add⟩ hreach hget .bOnly
  have hstays : stays .bOnly (s.visits key) = [⟨13, 10, .neither⟩, ⟨5, 5, .both⟩] := by
    rw [hvisits]
    rfl
  rw [hstays] at hdwell hsuccessor
  rw [timeIn, hstays] at hrow
  refine ⟨s, key, e, hget, ?_, ?_, ?_, hrow⟩
  · simpa [fadedSum, Stay.dwellSample, w] using hdwell
  · simpa [fadedSum, Stay.successorSample, w] using hsuccessor .neither
  · simpa [fadedSum, Stay.successorSample, w] using hsuccessor .both

/-! ## The half-life -/

section HalfLife

/-- A fading mean of values within a bound, with weights, is within the bound. -/
theorem fade_within {w : ℕ → ℝ} (hw : ∀ t, 0 ≤ w t ∧ w t ≤ 1) {bound : ℝ} (hbound : 0 ≤ bound)
    {samples : List (ℕ × ℝ)} (h : ∀ sample ∈ samples, 0 ≤ sample.2 ∧ sample.2 ≤ bound) :
    0 ≤ fade w samples ∧ fade w samples ≤ bound := by
  induction samples with
  | nil => exact ⟨le_refl 0, hbound⟩
  | cons sample rest ih =>
      obtain ⟨hnonneg, hle⟩ := ih fun sample' hsample' => h sample' (List.mem_cons_of_mem _ hsample')
      obtain ⟨hvalue, hvalueLe⟩ := h sample List.mem_cons_self
      exact ⟨mix_nonneg (hw _) hnonneg hvalue, mix_le (hw _) hle hvalueLe⟩

/-- No stay is longer than the longest. -/
theorem dwell_le_longestStay (s : MarkovState) (visits : Visits) :
    ∀ stay ∈ stays s visits, stay.dwell ≤ longestStay s visits := by
  induction visits with
  | nil => exact fun stay hstay => absurd hstay List.not_mem_nil
  | cons latest rest ih =>
      cases rest with
      | nil => exact fun stay hstay => absurd hstay List.not_mem_nil
      | cons before rest =>
          obtain ⟨next, left⟩ := latest
          obtain ⟨s', entered⟩ := before
          intro stay hstay
          rw [longestStay_cons]
          rw [stays] at hstay
          split at hstay
          · next hs =>
              rw [if_pos hs]
              rcases List.mem_cons.1 hstay with rfl | hold
              · exact le_max_left _ _
              · exact le_max_of_le_right (ih stay hold)
          · exact le_max_of_le_right (ih stay hstay)

/-- With a half-life of `h` seconds, half of the weight is left after `h` seconds. -/
theorem decayWeight_halfLife {m : Settings.Model ℝ} {h : UInt64} (hm : m.halfLife = some h)
    (hpos : 0 < h.toNat) (sqrt : ℝ → ℝ) (minPositive minScore : ℝ) (t : ℕ) :
    decayWeight (Numerics.exact ℝ Real.exp sqrt minPositive minScore)
      (m.decayFactor (Real.log 2)) t = (2 : ℝ) ^ (-((t : ℝ) / (h.toNat : ℝ))) := by
  have hsecs : (0 : ℝ) < (h.toNat : ℝ) := Nat.cast_pos.2 hpos
  have hdecay : m.decayFactor (Real.log 2) = Real.log 2 / (h.toNat : ℝ) := by
    unfold Settings.Model.decayFactor
    rw [hm]
    exact if_pos hsecs
  rw [decayWeight, hdecay, Real.rpow_def_of_pos two_pos]
  show Real.exp _ = _
  congr 1
  ring

/-- With a half-life of `h` seconds, the stays before some point change the dwell time by at most
    the longest stay, halved for every `h` seconds that the later ones cover. -/
theorem half_life_halves {m : Settings.Model ℝ} {h : UInt64} (hm : m.halfLife = some h)
    (hpos : 0 < h.toNat) (sqrt : ℝ → ℝ) (minPositive minScore : ℝ) {s : TracedGraph ℝ}
    (hreach : Reachable (DecayStep (Numerics.exact ℝ Real.exp sqrt minPositive minScore)
      (m.decayFactor (Real.log 2))) ⟨∅, 0, fun _ => []⟩ s)
    {key : EdgeKey} {e : Edge ℝ} (he : s.graph.get? key = some e) (state : MarkovState)
    {recent older : List Stay} (hsplit : stays state (s.visits key) = recent ++ older) :
    |e.timeToLeave state.index -
        fade (fun t : ℕ => (2 : ℝ) ^ (-((t : ℝ) / (h.toNat : ℝ)))) (recent.map Stay.dwellSample)| ≤
      (2 : ℝ) ^ (-(((recent.map Stay.since).sum : ℝ) / (h.toNat : ℝ))) *
        (longestStay state (s.visits key) : ℝ) := by
  have hnum := Numerics.storesExactly_exact Real.exp sqrt minPositive minScore
  let num := Numerics.exact ℝ Real.exp sqrt minPositive minScore
  have hweight : decayWeight num (m.decayFactor (Real.log 2)) =
      fun t : ℕ => (2 : ℝ) ^ (-((t : ℝ) / (h.toNat : ℝ))) :=
    funext fun t => decayWeight_halfLife hm hpos sqrt minPositive minScore t
  have hw : IsExponential (decayWeight num (m.decayFactor (Real.log 2))) :=
    isExponential_decayWeight ⟨Real.exp_zero, Real.exp_add⟩ _
  have hdwell := (fades_of_reachable hnum hreach key e he).dwell state
  change _ = fade (decayWeight num (m.decayFactor (Real.log 2))) _ at hdwell
  rw [hsplit, List.map_append, fade_append hw, hweight] at hdwell
  have hcovered : covered (recent.map (Stay.dwellSample : Stay → ℕ × ℝ)) =
      (recent.map Stay.since).sum := by
    rw [covered, List.map_map]
    rfl
  have hunit : ∀ t : ℕ, 0 ≤ (2 : ℝ) ^ (-((t : ℝ) / (h.toNat : ℝ))) ∧
      (2 : ℝ) ^ (-((t : ℝ) / (h.toNat : ℝ))) ≤ 1 := by
    intro t
    refine ⟨Real.rpow_nonneg zero_le_two _, Real.rpow_le_one_of_one_le_of_nonpos one_le_two ?_⟩
    exact neg_nonpos.2 (div_nonneg (Nat.cast_nonneg _) (Nat.cast_nonneg _))
  have hvalues : ∀ sample ∈ older.map (Stay.dwellSample : Stay → ℕ × ℝ),
      0 ≤ sample.2 ∧ sample.2 ≤ (longestStay state (s.visits key) : ℝ) := by
    intro sample hsample
    obtain ⟨stay, hstay, rfl⟩ := List.mem_map.1 hsample
    refine ⟨Nat.cast_nonneg _, Nat.cast_le.2 (dwell_le_longestStay state _ stay ?_)⟩
    rw [hsplit]
    exact List.mem_append_right _ hstay
  obtain ⟨hnonneg, hle⟩ := fade_within hunit (Nat.cast_nonneg _) hvalues
  rw [hdwell, add_sub_cancel_left, hcovered, abs_of_nonneg (mul_nonneg (hunit _).1 hnonneg)]
  exact mul_le_mul_of_nonneg_left hle (hunit _).1

/-- With a half-life of five seconds, what a stay of five seconds still changes after a later one,
    thirteen seconds on. -/
theorem half_life_halves_two_stays :
    ∃ (s : TracedGraph ℝ) (key : EdgeKey) (e : Edge ℝ), s.graph.get? key = some e ∧
      stays .bOnly (s.visits key) = [⟨13, 10, .neither⟩] ++ [⟨5, 5, .both⟩] ∧
      |e.timeToLeave MarkovState.bOnly.index -
        fade (fun t : ℕ => (2 : ℝ) ^ (-((t : ℝ) / ((5 : UInt64).toNat : ℝ))))
          ([⟨13, 10, .neither⟩].map Stay.dwellSample)| ≤
        (2 : ℝ) ^ (-(((([⟨13, 10, .neither⟩] : List Stay).map Stay.since).sum : ℝ) /
          ((5 : UInt64).toNat : ℝ))) * 10 := by
  let m : Settings.Model ℝ := { (Settings.default (0 : ℝ)).model with halfLife := some 5 }
  have hdecay : 0 ≤ m.decayFactor (Real.log 2) := by
    unfold Settings.Model.decayFactor
    refine le_of_le_of_eq (div_nonneg (Real.log_nonneg one_le_two) (Nat.cast_nonneg _))
      (if_pos ?_).symm
    exact Nat.cast_pos.2 (by decide)
  obtain ⟨s, key, e, hreach, hget, hvisits⟩ := exists_two_stays hdecay
  have hsplit : stays .bOnly (s.visits key) = [⟨13, 10, .neither⟩] ++ [⟨5, 5, .both⟩] := by
    rw [hvisits]
    rfl
  have hhalf := half_life_halves rfl (by decide) id 0 0 hreach hget .bOnly hsplit
  have hlongest : longestStay .bOnly (s.visits key) = 10 := by
    rw [hvisits]
    rfl
  rw [hlongest] at hhalf
  exact ⟨s, key, e, hget, hsplit, hhalf⟩

end HalfLife

end PreloadNg
