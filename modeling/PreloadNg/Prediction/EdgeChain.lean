import Mathlib.Algebra.BigOperators.Fin
import Mathlib.Algebra.Order.BigOperators.Group.Finset
import Mathlib.Tactic.Linarith
import Mathlib.Tactic.Ring
import PreloadNg.Lib.Transition
import PreloadNg.Prediction.Predictor

set_option autoImplicit false

/-! # The chain of an edge

In exact arithmetic an edge keeps a sub-stochastic chain: each row of `transition_prob` is a convex
combination of its old value and a unit vector, and each `time_to_leave` one of its old value and a
stay that ended. Runs of the graph are traced here with the states each edge was in, so that the
dwell times are compared with stays that the edge has not recorded itself. -/

namespace PreloadNg

/-! ## One transition -/

section Transition

variable {F16 F32 : Type} [Float32Ops F32] (num : Numerics F16 F32)

/-- The weight that a transition leaves to the old value of `time_to_leave`. -/
def Edge.mixTt (e : Edge F16) (now : UInt64) (decay : F32) : F32 :=
  num.fastExpNeg (-decay * u64AsF32 (satSub now (e.stateLastLeft e.state.index)))

/-- The weight that a transition leaves to the row of the state left. -/
def Edge.mixTp (e : Edge F16) (now : UInt64) (decay : F32) : F32 :=
  num.fastExpNeg (-decay * u64AsF32 (satSub now e.lastChangeTime))

/-- The values that a transition computes for `time_to_leave`, before they are stored. -/
def Edge.nextTimeToLeave (e : Edge F16) (now : UInt64) (decay : F32) : Fin 4 → F32 :=
  let oldIx := e.state.index
  Function.update (e.timeToLeaveF32 num) oldIx
    (e.mixTt num now decay * e.timeToLeaveF32 num oldIx +
      (1 - e.mixTt num now decay) * u64AsF32 (satSub now e.lastChangeTime))

theorem Edge.timeToLeave_updateState {e : Edge F16} {newState : MarkovState}
    (hne : newState ≠ e.state) (now : UInt64) (decay : F32) (i : Fin 4) :
    (e.updateState num newState now decay).timeToLeave i =
      num.ofF32 (e.nextTimeToLeave num now decay i) := by
  rw [Edge.updateState, if_neg hne]
  rfl

theorem Edge.lastChangeTime_updateState {e : Edge F16} {newState : MarkovState}
    (hne : newState ≠ e.state) (now : UInt64) (decay : F32) :
    (e.updateState num newState now decay).lastChangeTime = now := by
  rw [Edge.updateState, if_neg hne]

theorem Edge.stateLastLeft_updateState {e : Edge F16} {newState : MarkovState}
    (hne : newState ≠ e.state) (now : UInt64) (decay : F32) :
    (e.updateState num newState now decay).stateLastLeft =
      Function.update e.stateLastLeft e.state.index now := by
  rw [Edge.updateState, if_neg hne]

end Transition

/-! ## Exact arithmetic -/

section Exact

variable {K : Type} [Field K] [LinearOrder K] {num : Numerics K K}

/-- Storage keeps every value. -/
structure Numerics.StoresExactly (num : Numerics K K) : Prop where
  toF32 : ∀ x, num.toF32 x = x
  ofF32 : ∀ x, num.ofF32 x = x
  zero : num.zero = 0

theorem Numerics.storesExactly_exact (fastExpNeg sqrt : K → K) (minPositive minScore : K) :
    (Numerics.exact K fastExpNeg sqrt minPositive minScore).StoresExactly :=
  ⟨fun _ => rfl, fun _ => rfl, rfl⟩

theorem Edge.nextTimeToLeave_eq (hnum : num.StoresExactly) (e : Edge K) (now : UInt64) (decay : K) :
    e.nextTimeToLeave num now decay =
      Function.update e.timeToLeave e.state.index
        (e.mixTt num now decay * e.timeToLeave e.state.index +
          (1 - e.mixTt num now decay) * u64AsF32 (satSub now e.lastChangeTime)) := by
  unfold nextTimeToLeave
  rw [show e.timeToLeaveF32 num = e.timeToLeave from funext fun i => hnum.toF32 _]

/-- The row of the state left moves towards the state entered; the masks keep the other rows. -/
theorem Edge.transitionProb_updateState (hnum : num.StoresExactly) {e : Edge K}
    {newState : MarkovState} (hne : newState ≠ e.state) (now : UInt64) (decay : K) :
    (e.updateState num newState now decay).transitionProb =
      Function.update e.transitionProb e.state.index fun j =>
        e.mixTp num now decay * e.transitionProb e.state.index j +
          (1 - e.mixTp num now decay) * if j = newState.index then 1 else 0 := by
  rw [Edge.updateState, if_neg hne]
  funext i j
  by_cases hi : i = e.state.index
  · subst hi
    rw [Function.update_self]
    simp [hnum.ofF32, hnum.toF32, mixTp]
  · rw [Function.update_of_ne hi]
    simp [hnum.ofF32, hnum.toF32, hi]

/-- What a transition leaves as it is. -/
structure Edge.SameBut (e e' : Edge K) (old : Fin 4) : Prop where
  timeToLeave : ∀ i, i ≠ old → e'.timeToLeave i = e.timeToLeave i
  transitionProb : ∀ i, i ≠ old → e'.transitionProb i = e.transitionProb i
  stateLastLeft : ∀ i, i ≠ old → e'.stateLastLeft i = e.stateLastLeft i
  bothRunningTime : e'.bothRunningTime = e.bothRunningTime

theorem Edge.sameBut_updateState (hnum : num.StoresExactly) {e : Edge K} {newState : MarkovState}
    (hne : newState ≠ e.state) (now : UInt64) (decay : K) :
    e.SameBut (e.updateState num newState now decay) e.state.index where
  timeToLeave i hi := by
    rw [timeToLeave_updateState num hne, hnum.ofF32, nextTimeToLeave_eq hnum,
      Function.update_of_ne hi]
  transitionProb i hi := by
    rw [transitionProb_updateState hnum hne, Function.update_of_ne hi]
  stateLastLeft i hi := by
    rw [stateLastLeft_updateState num hne, Function.update_of_ne hi]
  bothRunningTime := updateState_bothRunningTime num e newState now decay

end Exact

/-! ## Stays -/

/-- The states an edge was in, each with the time it was entered, latest first. -/
abbrev Visits : Type := List (MarkovState × UInt64)

/-- The longest stay in `s` that has ended. -/
def longestStay (s : MarkovState) : Visits → ℕ
  | [] => 0
  | [_] => 0
  | (_, left) :: (s', entered) :: rest =>
    max (if s' = s then left.toNat - entered.toNat else 0)
      (longestStay s ((s', entered) :: rest))

/-- Enter `newState` at `now`, unless it is the current one. -/
def Visits.enter (newState : MarkovState) (now : UInt64) (visits : Visits) : Visits :=
  if visits.head?.map Prod.fst = some newState then visits else (newState, now) :: visits

/-- A new visit ends a stay in the state that was current. -/
theorem longestStay_cons (s s' newState : MarkovState) (entered now : UInt64) (rest : Visits) :
    longestStay s ((newState, now) :: (s', entered) :: rest) =
      max (if s' = s then now.toNat - entered.toNat else 0)
        (longestStay s ((s', entered) :: rest)) :=
  rfl

theorem MarkovState.index_injective {s t : MarkovState} (h : s.index = t.index) : s = t := by
  cases s <;> cases t <;> first | rfl | exact absurd h (by decide)

/-! ## The invariant -/

variable {K : Type} [Field K] [LinearOrder K]

/-- The statistics of an edge are those of a sub-stochastic chain, and its clocks are in order. -/
structure Edge.Chain (e : Edge K) (visits : Visits) (clock : UInt64) : Prop where
  current : visits.head? = some (e.state, e.lastChangeTime)
  prob_nonneg : ∀ i j, 0 ≤ e.transitionProb i j
  row_le_one : ∀ i, ∑ j, e.transitionProb i j ≤ 1
  diagonal : ∀ i, e.transitionProb i i = 0
  dwell_nonneg : ∀ i, 0 ≤ e.timeToLeave i
  dwell_le : ∀ s : MarkovState, e.timeToLeave s.index ≤ (longestStay s visits : K)
  left_le : ∀ i, e.stateLastLeft i ≤ e.lastChangeTime
  change_le : e.lastChangeTime ≤ clock

theorem Edge.Chain.mono {e : Edge K} {visits : Visits} {clock now : UInt64}
    (h : e.Chain visits clock) (hle : clock ≤ now) : e.Chain visits now :=
  { h with change_le := UInt64.le_trans h.change_le hle }

theorem Edge.Chain.enter {e : Edge K} {visits : Visits} {clock : UInt64} (h : e.Chain visits clock)
    (newState : MarkovState) (now : UInt64) :
    visits.enter newState now = if newState = e.state then visits else (newState, now) :: visits := by
  rw [Visits.enter, h.current]
  refine if_congr ?_ rfl rfl
  rw [Option.map_some, Option.some_inj, eq_comm]

variable [IsStrictOrderedRing K]

theorem chain_freshEdge (now : UInt64) (state : MarkovState) :
    (MarkovGraph.freshEdge (0 : K) now state).Chain [(state, now)] now where
  current := rfl
  prob_nonneg _ _ := le_refl _
  row_le_one _ := by simp [MarkovGraph.freshEdge]
  diagonal _ := rfl
  dwell_nonneg _ := le_refl _
  dwell_le _ := by simp [MarkovGraph.freshEdge, longestStay]
  left_le _ := UInt64.le_refl _
  change_le := UInt64.le_refl _

/-- A mean of two values lies below a bound of both. -/
theorem mix_le {m x y b : K} (hm : 0 ≤ m ∧ m ≤ 1) (hx : x ≤ b) (hy : y ≤ b) :
    m * x + (1 - m) * y ≤ b := by
  have h1 := mul_le_mul_of_nonneg_left hx hm.1
  have h2 := mul_le_mul_of_nonneg_left hy (sub_nonneg.2 hm.2)
  calc m * x + (1 - m) * y ≤ m * b + (1 - m) * b := add_le_add h1 h2
    _ = b := by ring

theorem mix_nonneg {m x y : K} (hm : 0 ≤ m ∧ m ≤ 1) (hx : 0 ≤ x) (hy : 0 ≤ y) :
    0 ≤ m * x + (1 - m) * y :=
  add_nonneg (mul_nonneg hm.1 hx) (mul_nonneg (sub_nonneg.2 hm.2) hy)

/-- The new row of the state left stays sub-stochastic, with nothing on the diagonal. -/
theorem mix_row {m : K} (hm : 0 ≤ m ∧ m ≤ 1) {row : Fin 4 → K} (hnonneg : ∀ j, 0 ≤ row j)
    (hsum : ∑ j, row j ≤ 1) (target : Fin 4) :
    (∀ j, 0 ≤ m * row j + (1 - m) * if j = target then 1 else 0) ∧
      ∑ j, (m * row j + (1 - m) * if j = target then 1 else 0) ≤ 1 := by
  constructor
  · intro j
    refine mix_nonneg hm (hnonneg j) ?_
    split
    · exact zero_le_one
    · exact le_refl _
  · rw [Finset.sum_add_distrib, ← Finset.mul_sum, ← Finset.mul_sum,
      Finset.sum_ite_eq' Finset.univ target fun _ => (1 : K), if_pos (Finset.mem_univ _)]
    exact mix_le hm hsum (le_refl 1)

/-- The stay that ends is the dwell time that a transition mixes in. -/
theorem Edge.Chain.nextTimeToLeave_le {num : Numerics K K} (hnum : num.StoresExactly)
    (hexp : ∀ x, 0 ≤ num.fastExpNeg x ∧ num.fastExpNeg x ≤ 1) {e : Edge K} {visits : Visits}
    {clock : UInt64} (h : e.Chain visits clock) (newState : MarkovState) (now : UInt64) (decay : K)
    (s : MarkovState) :
    e.nextTimeToLeave num now decay s.index ≤ (longestStay s ((newState, now) :: visits) : K) := by
  obtain ⟨rest, hvisits⟩ := List.head?_eq_some_iff.1 h.current
  have hold := h.dwell_le s
  rw [hvisits] at hold ⊢
  rw [Edge.nextTimeToLeave_eq hnum, longestStay_cons]
  by_cases hs : s = e.state
  · subst hs
    rw [Function.update_self, if_pos rfl, Nat.cast_max, u64AsF32, toNat_satSub]
    exact mix_le (hexp _) (le_max_of_le_right hold) (le_max_left _ _)
  · rw [Function.update_of_ne fun heq => hs (MarkovState.index_injective heq),
      if_neg fun heq => hs heq.symm, Nat.zero_max]
    exact hold

/-- A transition keeps the invariant: of each table it changes one entry. -/
theorem chain_updateState {num : Numerics K K} (hnum : num.StoresExactly)
    (hexp : ∀ x, 0 ≤ num.fastExpNeg x ∧ num.fastExpNeg x ≤ 1) {e : Edge K} {visits : Visits}
    {clock now : UInt64} (h : e.Chain visits clock) (hclock : clock ≤ now) (newState : MarkovState)
    (decay : K) :
    (e.updateState num newState now decay).Chain (visits.enter newState now) now := by
  rw [h.enter]
  by_cases hne : newState = e.state
  · rw [if_pos hne, Edge.updateState, if_pos hne]
    exact h.mono hclock
  · rw [if_neg hne]
    have hlast := Edge.lastChangeTime_updateState num hne now decay
    have hleft := Edge.stateLastLeft_updateState num hne now decay
    have hprob := Edge.transitionProb_updateState hnum hne now decay
    have hdwell : (e.updateState num newState now decay).timeToLeave =
        e.nextTimeToLeave num now decay := by
      funext i
      rw [Edge.timeToLeave_updateState num hne, hnum.ofF32]
    -- the row of the state that is left moves towards the state entered
    obtain ⟨hnonneg, hsum⟩ := mix_row (hexp (-decay * u64AsF32 (satSub now e.lastChangeTime)))
      (h.prob_nonneg e.state.index) (h.row_le_one e.state.index) newState.index
    refine ⟨?_, ?_, ?_, ?_, ?_, ?_, ?_, ?_⟩
    · rw [hlast, Edge.updateState_state]
      rfl
    · rw [hprob]
      exact (Function.forall_update_iff e.transitionProb fun _ row => ∀ j, 0 ≤ row j).2
        ⟨hnonneg, fun i _ => h.prob_nonneg i⟩
    · rw [hprob]
      exact (Function.forall_update_iff e.transitionProb fun _ row => ∑ j, row j ≤ 1).2
        ⟨hsum, fun i _ => h.row_le_one i⟩
    · rw [hprob]
      refine (Function.forall_update_iff e.transitionProb fun i row => row i = 0).2
        ⟨?_, fun i _ => h.diagonal i⟩
      -- no stay ends in its own state
      have hother : e.state.index ≠ newState.index :=
        fun heq => hne (MarkovState.index_injective heq).symm
      rw [h.diagonal, if_neg hother, mul_zero, mul_zero, add_zero]
    · rw [hdwell, Edge.nextTimeToLeave_eq hnum]
      refine (Function.forall_update_iff e.timeToLeave fun _ tt => 0 ≤ tt).2
        ⟨?_, fun i _ => h.dwell_nonneg i⟩
      exact mix_nonneg (hexp _) (h.dwell_nonneg _) (Nat.cast_nonneg _)
    · rw [hdwell]
      exact h.nextTimeToLeave_le hnum hexp newState now decay
    · rw [hleft, hlast]
      refine (Function.forall_update_iff e.stateLastLeft fun _ left => left ≤ now).2
        ⟨UInt64.le_refl _, fun i _ => ?_⟩
      exact UInt64.le_trans (h.left_le i) (UInt64.le_trans h.change_le hclock)
    · rw [hlast]
      exact UInt64.le_refl _

/-! ## Along runs of the graph -/

inductive ChainOp (K : Type) where
  | ensureEdge (a b : ExeId) (now : UInt64) (state : MarkovState)
  | updateState (key : EdgeKey) (newState : MarkovState) (now : UInt64) (decay : K)
  | pruneInactive (active : FxHashSet ExeId)

/-- A graph, the latest time of a call, and the visits of each edge since it was created. -/
structure TracedGraph (K : Type) where
  graph : MarkovGraph K
  clock : UInt64
  visits : EdgeKey → Visits

/-- A call at a time that is not before the last one. -/
def ChainStep (num : Numerics K K) (s : TracedGraph K) (op : ChainOp K) (s' : TracedGraph K) :
    Prop :=
  match op with
  | .ensureEdge a b now state =>
    s.clock ≤ now ∧
    s' = { graph := (s.graph.ensureEdge num.zero a b now state).1
           clock := now
           visits :=
             if EdgeKey.new a b ∈ s.graph.keys then s.visits
             else Function.update s.visits (EdgeKey.new a b) [(state, now)] }
  | .updateState key newState now decay =>
    s.clock ≤ now ∧ 0 ≤ decay ∧
    s' = { graph := s.graph.modify key fun e => e.updateState num newState now decay
           clock := now
           visits := Function.update s.visits key ((s.visits key).enter newState now) }
  | .pruneInactive active => s' = { s with graph := s.graph.pruneInactive active }

def ChainReachable (num : Numerics K K) : TracedGraph K → Prop :=
  Reachable (ChainStep num) ⟨∅, 0, fun _ => []⟩

/-- Every edge of the graph is a chain. -/
def TracedGraph.Chains (s : TracedGraph K) : Prop :=
  ∀ key e, s.graph.get? key = some e → e.Chain (s.visits key) s.clock

/-- Where an edge after a step comes from. -/
inductive EdgeChange (num : Numerics K K) (s : TracedGraph K) (key : EdgeKey) (s' : TracedGraph K) :
    ChainOp K → Edge K → Prop
  | created {a b : ExeId} {now : UInt64} {state : MarkovState} (hclock : s'.clock = now)
      (hvisits : s'.visits key = [(state, now)]) :
      EdgeChange num s key s' (.ensureEdge a b now state)
        (MarkovGraph.freshEdge num.zero now state)
  | entered {newState : MarkovState} {now : UInt64} {decay : K} {e : Edge K}
      (he : s.graph.get? key = some e) (hle : s.clock ≤ now) (hclock : s'.clock = now)
      (hvisits : s'.visits key = (s.visits key).enter newState now) :
      EdgeChange num s key s' (.updateState key newState now decay)
        (e.updateState num newState now decay)
  | kept {op : ChainOp K} {e : Edge K} (he : s.graph.get? key = some e) (hle : s.clock ≤ s'.clock)
      (hvisits : s'.visits key = s.visits key) : EdgeChange num s key s' op e

omit [IsStrictOrderedRing K] in
theorem edgeChange_of_step {num : Numerics K K} {s s' : TracedGraph K} {op : ChainOp K}
    (hstep : ChainStep num s op s') {key : EdgeKey} {e : Edge K}
    (he : s'.graph.get? key = some e) : EdgeChange num s key s' op e := by
  cases op with
  | ensureEdge a b now state =>
      obtain ⟨hclock, rfl⟩ := hstep
      dsimp only at he
      rw [MarkovGraph.get?_ensureEdge] at he
      split at he
      · next hnew =>
          obtain ⟨rfl, hnew⟩ := hnew
          obtain rfl := Option.some.inj he
          refine .created rfl ?_
          dsimp only
          rw [if_neg hnew, Function.update_self]
      · next hold =>
          refine .kept he hclock ?_
          -- an edge that was there keeps its visits
          dsimp only
          split
          · rfl
          · next hnew => exact Function.update_of_ne (fun hkey => hold ⟨hkey, hnew⟩) _ _
  | updateState key' newState now decay =>
      obtain ⟨hclock, -, rfl⟩ := hstep
      dsimp only at he
      rw [MarkovGraph.get?_modify] at he
      split at he
      · next hkey =>
          subst hkey
          obtain ⟨e₀, he₀, rfl⟩ := Option.map_eq_some_iff.1 he
          exact .entered he₀ hclock rfl (Function.update_self _ _ _)
      · next hkey => exact .kept he hclock (Function.update_of_ne hkey _ _)
  | pruneInactive active =>
      obtain rfl : s' = _ := hstep
      dsimp only at he
      rw [MarkovGraph.get?_pruneInactive, Option.filter_eq_some_iff] at he
      exact .kept he.1 (UInt64.le_refl _) rfl

theorem chains_step {num : Numerics K K} (hnum : num.StoresExactly)
    (hexp : ∀ x, 0 ≤ num.fastExpNeg x ∧ num.fastExpNeg x ≤ 1) {s s' : TracedGraph K}
    {op : ChainOp K} (h : s.Chains) (hstep : ChainStep num s op s') : s'.Chains := by
  intro key e he
  cases edgeChange_of_step hstep he with
  | created hclock hvisits =>
      rw [hvisits, hclock, hnum.zero]
      exact chain_freshEdge _ _
  | entered he₀ hle hclock hvisits =>
      rw [hvisits, hclock]
      exact chain_updateState hnum hexp (h key _ he₀) hle _ _
  | kept he₀ hle hvisits =>
      rw [hvisits]
      exact (h key e he₀).mono hle

/-- `p_runs_next` of `p_needed`. -/
def Edge.pRunsNext (num : Numerics K K) (e : Edge K) (state targetState : MarkovState) : K :=
  num.toF32 (e.transitionProb state.index targetState.index) +
    num.toF32 (e.transitionProb state.index MarkovState.both.index)

omit [IsStrictOrderedRing K] in
theorem pNeeded_eq (num : Numerics K K) (e : Edge K) (state targetState : MarkovState)
    (cycle : K) :
    pNeeded num e state targetState cycle =
      let tt := num.toF32 (e.timeToLeave state.index)
      if tt ≤ 0 then 0
      else clamp01 ((1 - num.fastExpNeg (-cycle / tt)) * e.pRunsNext num state targetState) :=
  rfl

/-- Two entries of a row do not exceed the row. -/
theorem Edge.Chain.pRunsNext_le {num : Numerics K K} (hnum : num.StoresExactly) {e : Edge K}
    {visits : Visits} {clock : UInt64} (h : e.Chain visits clock) (state : MarkovState)
    {targetState : MarkovState} (htarget : targetState ≠ .both) :
    e.pRunsNext num state targetState ≤ 1 := by
  have hne : targetState.index ≠ MarkovState.both.index :=
    fun heq => htarget (MarkovState.index_injective heq)
  have hpair := Finset.sum_le_sum_of_subset_of_nonneg
    (Finset.subset_univ {targetState.index, MarkovState.both.index})
    fun j _ _ => h.prob_nonneg state.index j
  rw [Finset.sum_pair hne] at hpair
  rw [pRunsNext, hnum.toF32, hnum.toF32]
  exact hpair.trans (h.row_le_one state.index)

/-- In every run the edges are sub-stochastic chains, a transition touches nothing outside the state
    it leaves, and the probability that the predictor reads off a row is at most one. -/
theorem edges_stay_substochastic (fastExpNeg sqrt : K → K) (minPositive minScore : K)
    (hexp : ∀ x, 0 ≤ fastExpNeg x ∧ fastExpNeg x ≤ 1) {s : TracedGraph K}
    (h : ChainReachable (Numerics.exact K fastExpNeg sqrt minPositive minScore) s) :
    ∀ key e, s.graph.get? key = some e →
      e.Chain (s.visits key) s.clock ∧
      (∀ newState now decay, newState ≠ e.state →
        e.SameBut (e.updateState (Numerics.exact K fastExpNeg sqrt minPositive minScore)
          newState now decay) e.state.index) ∧
      ∀ state target, target = .aOnly ∨ target = .bOnly →
        e.pRunsNext (Numerics.exact K fastExpNeg sqrt minPositive minScore) state target ≤ 1 := by
  have hnum := Numerics.storesExactly_exact fastExpNeg sqrt minPositive minScore
  have hchains : s.Chains := by
    refine h.invariant (I := TracedGraph.Chains) ?_ fun _ _ _ => chains_step hnum hexp
    intro key e he
    exact absurd he (by simp)
  intro key e he
  have hchain := hchains key e he
  refine ⟨hchain, fun newState now decay hne => Edge.sameBut_updateState hnum hne now decay, ?_⟩
  intro state target htarget
  refine hchain.pRunsNext_le hnum state ?_
  rcases htarget with rfl | rfl
  · exact MarkovState.noConfusion
  · exact MarkovState.noConfusion

/-- A stay of five seconds in one state, mixed in by half. -/
theorem edges_stay_substochastic_one_stay :
    let num : Numerics ℚ ℚ := Numerics.exact ℚ (fun _ => 1 / 2) id 0 0
    let key := EdgeKey.new ⟨1, 1⟩ ⟨2, 1⟩
    let g₁ : MarkovGraph ℚ := ((∅ : MarkovGraph ℚ).ensureEdge 0 ⟨1, 1⟩ ⟨2, 1⟩ 10 .bOnly).1
    let g₂ := g₁.modify key fun e => e.updateState num .both 15 1
    (g₂.get? key).map (fun e => (e.timeToLeave 2, e.transitionProb 2 3)) = some (5 / 2, 1 / 2) ∧
      ∀ e, g₂.get? key = some e → e.Chain [(.both, 15), (.bOnly, 10)] 15 := by
  intro num key g₁ g₂
  refine ⟨by decide +kernel, fun e he => ?_⟩
  let visits : EdgeKey → Visits := Function.update (fun _ => []) key [(.bOnly, 10)]
  have hcreate : ChainStep num ⟨∅, 0, fun _ => []⟩ (.ensureEdge ⟨1, 1⟩ ⟨2, 1⟩ 10 .bOnly)
      ⟨g₁, 10, visits⟩ := ⟨by decide, rfl⟩
  have hleave : ChainStep num ⟨g₁, 10, visits⟩ (.updateState key .both 15 1)
      ⟨g₂, 15, Function.update visits key ((visits key).enter .both 15)⟩ :=
    ⟨by decide, zero_le_one, rfl⟩
  have hchain := (edges_stay_substochastic (fun _ => 1 / 2) id 0 0 (by norm_num)
    ((Reachable.refl.tail hcreate).tail hleave) key e he).1
  have hvisits : Function.update visits key ((visits key).enter .both 15) key =
      [(.both, 15), (.bOnly, 10)] := by
    simp [visits, Visits.enter]
  dsimp only at hchain
  rwa [hvisits] at hchain

end PreloadNg
