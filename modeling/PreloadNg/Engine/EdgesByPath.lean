import PreloadNg.Engine.ApplyByPath

set_option autoImplicit false

/-! # Edges by path

What `apply` does to the edge between two paths, seen from the first. A transition commutes with
the exchange of the two executables, so it does not matter which of the two has the smaller id. A
new edge may start in the state of the exchanged pair; the transition that follows at once corrects
it and, having taken no time, leaves no trace. -/

namespace PreloadNg

theorem swapIndex_eq_iff {i j : Fin 4} : swapIndex i = j ↔ i = swapIndex j := by
  constructor
  · rintro rfl
    exact (swapIndex_swapIndex i).symm
  · rintro rfl
    exact swapIndex_swapIndex j

theorem MarkovState.swap_inj {s t : MarkovState} : s.swap = t.swap ↔ s = t := by
  constructor
  · intro h
    rw [← s.swap_swap, h, t.swap_swap]
  · exact congrArg MarkovState.swap

section Transition

variable {F16 F32 : Type} [Float32Ops F32] (num : Numerics F16 F32)

/-- A transition of the exchanged edge. -/
theorem Edge.swapRoles_updateState (e : Edge F16) (newState : MarkovState) (now : UInt64)
    (decay : F32) :
    (e.updateState num newState now decay).swapRoles =
      e.swapRoles.updateState num newState.swap now decay := by
  have hstate : newState.swap = e.swapRoles.state ↔ newState = e.state := MarkovState.swap_inj
  unfold Edge.updateState
  by_cases h : newState = e.state
  · rw [if_pos h, if_pos (hstate.2 h)]
  · rw [if_neg h, if_neg (mt hstate.1 h)]
    simp only [Edge.swapRoles, MarkovState.index_swap, swapIndex_swapIndex, Function.update_apply,
      swapIndex_eq_iff, Edge.timeToLeaveF32]
    congr 1
    funext i
    exact (Function.update_apply (fun i => e.stateLastLeft (swapIndex i)) _ now i).symm

/-- `advanceEdge`, from the running flags of the two executables. -/
def Edge.advance (now : UInt64) (decay : F32) (period : UInt64) (ra rb : Bool) (e : Edge F16) :
    Edge F16 :=
  let e :=
    if 0 < period ∧ ra ∧ rb then { e with bothRunningTime := satAdd e.bothRunningTime period }
    else e
  e.updateState num (MarkovState.fromRunning ra rb) now decay

theorem Edge.swapRoles_advance (now : UInt64) (decay : F32) (period : UInt64) (ra rb : Bool)
    (e : Edge F16) :
    (e.advance num now decay period ra rb).swapRoles =
      e.swapRoles.advance num now decay period rb ra := by
  unfold Edge.advance
  dsimp only
  rw [Edge.swapRoles_updateState, MarkovState.swap_fromRunning]
  congr 1
  have hboth : (0 < period ∧ ra = true ∧ rb = true) ↔ (0 < period ∧ rb = true ∧ ra = true) :=
    and_congr_right fun _ => and_comm
  by_cases h : 0 < period ∧ ra = true ∧ rb = true
  · rw [if_pos h, if_pos (hboth.1 h)]
    rfl
  · rw [if_neg h, if_neg (mt hboth.2 h)]

/-- The transition of a stored edge is that of the edge seen from either side. -/
theorem seenFrom_advanceEdge (now : UInt64) (decay : F32) (period : UInt64) (s : Stores F16)
    (a b : ExeId) (e : Edge F16) :
    (advanceEdge num now decay period s (EdgeKey.new a b) e).seenFrom a b =
      (e.seenFrom a b).advance num now decay period (s.isRunning a) (s.isRunning b) := by
  unfold Edge.seenFrom
  rcases le_or_gt a b with hle | hlt
  · rw [if_pos hle, if_pos hle, EdgeKey.new_of_le hle]
    rfl
  · rw [if_neg (not_le.2 hlt), if_neg (not_le.2 hlt), EdgeKey.new_comm,
      EdgeKey.new_of_le (le_of_lt hlt), ← Edge.swapRoles_advance]
    rfl

/-- Seen from either side, a fresh edge is fresh. -/
theorem seenFrom_freshEdge (zero : F16) (now : UInt64) (state : MarkovState) (a b : ExeId) :
    ∃ state', (MarkovGraph.freshEdge zero now state).seenFrom a b =
      MarkovGraph.freshEdge zero now state' := by
  unfold Edge.seenFrom
  split
  · exact ⟨state, rfl⟩
  · exact ⟨state.swap, rfl⟩

end Transition

/-! ## Fresh edges in exact arithmetic -/

section Fresh

variable {F16 K : Type} [Field K] [LinearOrder K] (num : Numerics F16 K)

/-- A fresh edge, apart from its co-running time. -/
def Edge.blank (zero : F16) (now : UInt64) (state : MarkovState) (both : UInt64) : Edge F16 where
  state := state
  lastChangeTime := now
  stateLastLeft := fun _ => now
  timeToLeave := fun _ => zero
  transitionProb := fun _ _ => zero
  bothRunningTime := both

/-- A transition that takes no time leaves nothing in the statistics. -/
theorem Edge.updateState_blank (hexp : num.fastExpNeg 0 = 1) (hzero : num.toF32 num.zero = 0)
    (now : UInt64) (decay : K) (state newState : MarkovState) (both : UInt64) :
    (Edge.blank num.zero now state both).updateState num newState now decay =
      Edge.blank num.zero now newState both := by
  have hof : num.ofF32 0 = num.zero := by rw [← hzero, num.ofF32_toF32]
  have hmix : num.fastExpNeg (-decay * u64AsF32 (satSub now now)) = 1 := by
    rw [satSub_self]
    simpa [u64AsF32] using hexp
  unfold Edge.updateState Edge.blank
  by_cases h : newState = state
  · rw [if_pos h, h]
  · rw [if_neg h]
    simp only [hmix, Edge.timeToLeaveF32, hzero]
    simp only [mul_one, mul_zero, sub_self, zero_mul, add_zero, add_sub_cancel, hof,
      Function.update_eq_self, Edge.mk.injEq, true_and, and_true]
    funext i
    rw [Function.update_apply]
    split
    · exact hof
    · rw [Edge.timeToLeaveF32, num.ofF32_toF32]

/-- Whatever state a fresh edge starts in, the transition that follows gives the same edge. -/
theorem Edge.advance_fresh (hexp : num.fastExpNeg 0 = 1) (hzero : num.toF32 num.zero = 0)
    (now : UInt64) (decay : K) (period : UInt64) (ra rb : Bool) (state state' : MarkovState) :
    (MarkovGraph.freshEdge num.zero now state).advance num now decay period ra rb =
      (MarkovGraph.freshEdge num.zero now state').advance num now decay period ra rb := by
  have hblank : ∀ state, (MarkovGraph.freshEdge num.zero now state).advance num now decay period
      ra rb = Edge.blank num.zero now (MarkovState.fromRunning ra rb)
        (if 0 < period ∧ ra ∧ rb then satAdd 0 period else 0) := by
    intro state
    unfold Edge.advance
    split
    · exact Edge.updateState_blank num hexp hzero now decay state _ (satAdd 0 period)
    · exact Edge.updateState_blank num hexp hzero now decay state _ 0
  rw [hblank state, hblank state']

end Fresh

/-! ## The edge between two paths -/

/-- Whether the executable of a path runs. -/
def Stores.runsAt {F16 : Type} (s : Stores F16) (p : Path) : Bool := (s.exeAt p).any Exe.running

theorem Stores.isRunning_eq_runsAt {F16 : Type} {s : Stores F16} {p : Path} {id : ExeId}
    (h : s.exes.idByKey ⟨p⟩ = some id) : s.isRunning id = s.runsAt p := by
  obtain ⟨e, he, hkey⟩ := ExeStore.idByKey_eq_some.1 h
  rw [Stores.isRunning_of_get? he, Stores.runsAt, Stores.exeAt_eq_some.2 ⟨id, he, hkey⟩,
    Option.any_some]

theorem Stores.isSome_activeAt {F16 : Type} {s : Stores F16} {p : Path} {id : ExeId}
    (h : s.exes.idByKey ⟨p⟩ = some id) : (s.activeAt p).isSome ↔ id ∈ s.active.exes := by
  rw [Stores.activeAt, h, Option.bind_some, ActiveSet.mem_exes, Option.isSome_iff_exists]

/-- No edge joins a path to itself. -/
theorem Stores.edgeAt_self {F16 : Type} {s : Stores F16} (hs : s.WF) (p : Path) :
    s.edgeAt p p = none := by
  rw [Option.eq_none_iff_forall_ne_some]
  intro e he
  obtain ⟨a, b, e₀, ha, hb, he₀, -⟩ := Stores.edgeAt_eq_some.1 he
  obtain rfl := Option.some.inj (ha.symm.trans hb)
  exact EdgeKey.new_ne_iff.1 (hs.edge_distinct _ (MarkovGraph.mem_keys_iff.2 ⟨e₀, he₀⟩)) rfl

section Apply

variable {F16 K : Type} [Field K] [LinearOrder K] {num : Numerics F16 K}
  {u : DefaultModelUpdater K} {ord : HashOrder} {s r : Stores F16} {obs : Observation}
  {policy : AdmissionPolicy} (h : ApplySpec num u ord s obs policy r) (hs : s.WF)

include h hs

/-- The edge between two paths joins active executables and is advanced from the old one, or from a
    fresh one. -/
theorem ApplySpec.edgeAt (hexp : num.fastExpNeg 0 = 1) (hzero : num.toF32 num.zero = 0)
    {p q : Path} (hne : p ≠ q) :
    r.edgeAt p q =
      if (r.activeAt p).isSome ∧ (r.activeAt q).isSome then
        some (((s.edgeAt p q).getD
          (MarkovGraph.freshEdge num.zero (obs.time s.modelTime) .neither)).advance num
            (obs.time s.modelTime) u.decay (accountingPeriod s obs) (r.runsAt p) (r.runsAt q))
      else none := by
  cases ha : r.exes.idByKey ⟨p⟩ with
  | none => rw [Stores.edgeAt, ha, Stores.activeAt, ha]; simp
  | some a =>
      cases hb : r.exes.idByKey ⟨q⟩ with
      | none => rw [Stores.edgeAt, ha, hb, Stores.activeAt, Stores.activeAt, hb]; simp
      | some b =>
          have hab : a ≠ b := by
            rintro rfl
            exact hne (congrArg ExeKey.path (ExeStore.idByKey_inj ha hb))
          rw [h.old_edgeAt hs ha hb,
            if_congr (and_congr (Stores.isSome_activeAt ha) (Stores.isSome_activeAt hb)) rfl rfl,
            ← Stores.isRunning_eq_runsAt ha, ← Stores.isRunning_eq_runsAt hb, Stores.edgeAt, ha,
            Option.bind_some, hb, Option.bind_some]
          split
          · next hactive =>
              obtain ⟨e, he⟩ := h.edge_complete a b hactive.1 hactive.2 hab
              obtain ⟨-, -, e₀, rfl, horigin⟩ := h.edge_origin _ e he
              rw [he, Option.map_some, seenFrom_advanceEdge]
              rcases horigin with hold | ⟨hnone, -, state, rfl⟩
              · rw [hold, Option.map_some, Option.getD_some]
              · -- a fresh edge, whichever state it was given
                obtain ⟨state', hstate'⟩ :=
                  seenFrom_freshEdge num.zero (obs.time s.modelTime) state a b
                rw [hnone, Option.map_none, Option.getD_none, hstate']
                exact congrArg some (Edge.advance_fresh num hexp hzero _ _ _ _ _ _ _)
          · next hactive =>
              rw [Option.map_eq_none_iff, Option.eq_none_iff_forall_ne_some]
              intro e he
              exact hactive ((EdgeKey.new_both (· ∈ r.active.exes) a b).1
                (h.edge_active (MarkovGraph.mem_keys_iff.2 ⟨e, he⟩)))

end Apply

end PreloadNg
