import PreloadNg.Engine.ApplyByPath
import PreloadNg.Prediction.EdgeChain

set_option autoImplicit false

/-! # Dwell times and the range of `f16`

A dwell time is mixed into `time_to_leave` as it is, and the mix forgets the old value completely
once the state was last left long enough ago. The stored values therefore stay in the finite range
of `f16` as long as no pair leaves a state in which it stayed longer than that range; nothing in the
code bounds the stay. -/

namespace PreloadNg

/-- The largest finite value of `f16`. -/
def f16Max : UInt64 := 65504

section Transitions

variable {F16 F32 : Type} [Float32Ops F32] (num : Numerics F16 F32) (u : DefaultModelUpdater F32)
  (ord : HashOrder) (s : Stores F16) (obs : Observation) (policy : AdmissionPolicy)

/-! ## The transitions of one `apply` -/

/-- The edge leaves its state in this `apply`. -/
def DefaultModelUpdater.Leaves (e : Edge F16) : Prop :=
  ∃ key, (u.prepare num ord s obs policy).markov.get? key = some e ∧
    edgeState (u.prepare num ord s obs policy) key.a key.b ≠ e.state

omit [Float32Ops F32] in
/-- The edges on which the transitions are taken join active executables. Each was there before or
    is fresh, and none that was there is lost. -/
theorem DefaultModelUpdater.prepare_markov {key : EdgeKey} {e : Edge F16} :
    let t := u.prepare num ord s obs policy
    (t.markov.get? key = some e → key.a ∈ t.active.exes ∧ key.b ∈ t.active.exes ∧
      (s.markov.get? key = some e ∨
        ∃ state, e = MarkovGraph.freshEdge num.zero (obs.time s.modelTime) state)) ∧
    (s.markov.get? key = some e → key.a ∈ t.active.exes → key.b ∈ t.active.exes →
      t.markov.get? key = some e) := by
  obtain ⟨_, active, markov, hprepare, -, -, hfollow⟩ := u.prepare_spec num ord s obs policy
  rw [hprepare]
  refine ⟨fun he => ?_, hfollow.kept key e⟩
  obtain ⟨ha, hb, hold | ⟨-, hfresh⟩⟩ := hfollow.origin key e he
  · exact ⟨ha, hb, Or.inl hold⟩
  · exact ⟨ha, hb, Or.inr hfresh⟩

omit [Float32Ops F32] in
/-- A transition does not read the co-running time. -/
theorem Edge.updateState_credited [Float32Ops F32] (e : Edge F16) (both : UInt64)
    (newState : MarkovState) (now : UInt64) (decay : F32) :
    Edge.updateState num { e with bothRunningTime := both } newState now decay =
      { e.updateState num newState now decay with bothRunningTime := both } := by
  unfold updateState
  split <;> rfl

/-- The edges after `apply`: each has taken its transition, and its co-running time may have been
    credited. -/
theorem DefaultModelUpdater.get?_apply {key : EdgeKey} {e' : Edge F16}
    (he : (u.apply num ord s obs policy).1.markov.get? key = some e') :
    ∃ e both, (u.prepare num ord s obs policy).markov.get? key = some e ∧
      e' = { e.updateState num (edgeState (u.prepare num ord s obs policy) key.a key.b)
        (obs.time s.modelTime) u.decay with bothRunningTime := both } := by
  rw [apply_fst, collect_now] at he
  generalize u.prepare num ord s obs policy = t at he ⊢
  obtain ⟨exes, hcredit, -⟩ :=
    creditExes_spec (satSub (obs.time s.modelTime) t.lastAccountingTime) t
  have hstate : edgeState (creditExes (satSub (obs.time s.modelTime) t.lastAccountingTime) t)
      key.a key.b = edgeState t key.a key.b := by
    unfold edgeState
    rw [isRunning_creditExes, isRunning_creditExes]
  unfold account at he
  dsimp only at he
  rw [MarkovGraph.get?_iterMut, Option.map_eq_some_iff] at he
  obtain ⟨e, hget, rfl⟩ := he
  rw [hcredit] at hget
  unfold advanceEdge
  dsimp only
  rw [hstate]
  split
  · exact ⟨e, _, hget, Edge.updateState_credited num e _ _ _ _⟩
  · exact ⟨e, e.bothRunningTime, hget, Edge.updateState_credited num e e.bothRunningTime _ _ _⟩

theorem DefaultModelUpdater.isRunning_prepare (id : ExeId) :
    (u.prepare num ord s obs policy).isRunning id =
      (u.apply num ord s obs policy).1.isRunning id := by
  rw [apply_fst]
  exact (isRunning_creditExes _ _ id).symm

theorem DefaultModelUpdater.active_prepare :
    (u.prepare num ord s obs policy).active = (u.apply num ord s obs policy).1.active := by
  rw [apply_fst]
  obtain ⟨exes, hcredit, -⟩ := creditExes_spec
    (satSub (collect policy s.modelTime obs).now (u.prepare num ord s obs policy).lastAccountingTime)
    (u.prepare num ord s obs policy)
  unfold account
  dsimp only
  rw [hcredit]

/-! ## In terms of the observation -/

omit [Float32Ops F32] in
/-- Whether the program of a stored executable runs in the observation. -/
def runsIn (id : ExeId) : Bool := (s.exes.get? id).any fun e => decide (obs.sees e.key.path)

/-- The pair of an old edge stays active and, in the observation, leaves the state of the edge. -/
def DefaultModelUpdater.Ends (key : EdgeKey) (e : Edge F16) : Prop :=
  s.markov.get? key = some e ∧ StaysActive u obs s key.a ∧ StaysActive u obs s key.b ∧
    MarkovState.fromRunning (runsIn s obs key.a) (runsIn s obs key.b) ≠ e.state

theorem DefaultModelUpdater.edgeState_prepare {key : EdgeKey} (ha : s.LiveExe key.a)
    (hb : s.LiveExe key.b) :
    edgeState (u.prepare num ord s obs policy) key.a key.b =
      MarkovState.fromRunning (runsIn s obs key.a) (runsIn s obs key.b) := by
  have hruns : ∀ id, s.LiveExe id →
      (u.prepare num ord s obs policy).isRunning id = runsIn s obs id := by
    intro id ⟨e, he⟩
    rw [u.isRunning_prepare, Bool.eq_iff_iff,
      (apply_spec num u ord s obs policy).isRunning_iff he, runsIn, he, Option.any_some,
      decide_eq_true_eq]
  rw [edgeState, hruns _ ha, hruns _ hb]

/-- The edges that leave their state are old ones whose pair does, and fresh ones. -/
theorem DefaultModelUpdater.leaves_cases (hs : s.WF) {e : Edge F16}
    (h : u.Leaves num ord s obs policy e) :
    (∃ key, u.Ends s obs key e) ∨
      ∃ state, e = MarkovGraph.freshEdge num.zero (obs.time s.modelTime) state := by
  obtain ⟨key, he, hne⟩ := h
  obtain ⟨ha, hb, hold | hfresh⟩ := (u.prepare_markov num ord s obs policy).1 he
  · obtain ⟨hla, hlb⟩ := hs.edge_live key (MarkovGraph.mem_keys_iff.2 ⟨e, hold⟩)
    have hspec := apply_spec num u ord s obs policy
    rw [u.active_prepare] at ha hb
    rw [u.edgeState_prepare num ord s obs policy hla hlb] at hne
    exact Or.inl ⟨key, hold, (hspec.mem_active_iff hla).1 ha, (hspec.mem_active_iff hlb).1 hb, hne⟩
  · exact Or.inr hfresh

theorem DefaultModelUpdater.leaves_of_ends (hs : s.WF) {key : EdgeKey} {e : Edge F16}
    (h : u.Ends s obs key e) : u.Leaves num ord s obs policy e := by
  obtain ⟨hold, ha, hb, hne⟩ := h
  obtain ⟨hla, hlb⟩ := hs.edge_live key (MarkovGraph.mem_keys_iff.2 ⟨e, hold⟩)
  have hspec := apply_spec num u ord s obs policy
  refine ⟨key, (u.prepare_markov num ord s obs policy).2 hold ?_ ?_, ?_⟩
  · rw [u.active_prepare]
    exact hspec.mem_active_of_stays ha
  · rw [u.active_prepare]
    exact hspec.mem_active_of_stays hb
  · rw [u.edgeState_prepare num ord s obs policy hla hlb]
    exact hne

/-- No pair leaves a state in which it stayed longer than `f16` can express. -/
def DefaultModelUpdater.DwellsWithin : Prop :=
  ∀ key e, u.Ends s obs key e → satSub (obs.time s.modelTime) e.lastChangeTime ≤ f16Max

/-- Then no stay that a transition ends is longer: a fresh edge was entered just now. -/
theorem DefaultModelUpdater.DwellsWithin.le_of_leaves {u : DefaultModelUpdater F32}
    {s : Stores F16} {obs : Observation} (h : u.DwellsWithin s obs) (hs : s.WF) {e : Edge F16}
    (hleaves : u.Leaves num ord s obs policy e) :
    satSub (obs.time s.modelTime) e.lastChangeTime ≤ f16Max := by
  rcases u.leaves_cases num ord s obs policy hs hleaves with ⟨key, hends⟩ | ⟨state, rfl⟩
  · exact h key e hends
  · exact (satSub_self _).symm ▸ (by decide : (0 : UInt64) ≤ f16Max)

end Transitions

/-! ## The range -/

section Range

variable {F16 K : Type} [Field K] [LinearOrder K] [IsStrictOrderedRing K] {num : Numerics F16 K}

/-- `f32` is exact, `f16` does not leave its finite range by rounding, and `fast_exp_neg` is a
    weight that is cut off below `-87`. -/
structure Numerics.HalfRange (num : Numerics F16 K) : Prop where
  zero : num.toF32 num.zero = 0
  stored : ∀ x, 0 ≤ x → x ≤ u64AsF32 f16Max →
    0 ≤ num.toF32 (num.ofF32 x) ∧ num.toF32 (num.ofF32 x) ≤ u64AsF32 f16Max
  weight : ∀ x, -87 ≤ x → 0 ≤ num.fastExpNeg x ∧ num.fastExpNeg x ≤ 1
  cutoff : ∀ x, x < -87 → num.fastExpNeg x = 0

/-- A value that `f16` can hold. -/
def InHalfRange (x : K) : Prop := 0 ≤ x ∧ x ≤ u64AsF32 f16Max

/-- Every value that this `apply` computes for `time_to_leave` is in the finite range of `f16`. -/
def DefaultModelUpdater.ValuesInRange (num : Numerics F16 K) (u : DefaultModelUpdater K)
    (ord : HashOrder) (s : Stores F16) (obs : Observation) (policy : AdmissionPolicy) : Prop :=
  ∀ e, u.Leaves num ord s obs policy e →
    ∀ i, InHalfRange (e.nextTimeToLeave num (obs.time s.modelTime) u.decay i)

theorem Numerics.HalfRange.fastExpNeg (hnum : num.HalfRange) (x : K) :
    0 ≤ num.fastExpNeg x ∧ num.fastExpNeg x ≤ 1 := by
  rcases lt_or_ge x (-87) with hx | hx
  · rw [hnum.cutoff x hx]
    exact ⟨le_refl 0, zero_le_one⟩
  · exact hnum.weight x hx

/-- The values of an edge whose stored values and dwell time are in the range. -/
theorem Edge.nextTimeToLeave_inHalfRange (hnum : num.HalfRange) {e : Edge F16}
    (hstored : ∀ i, InHalfRange (num.toF32 (e.timeToLeave i))) {now : UInt64}
    (hdwell : satSub now e.lastChangeTime ≤ f16Max) (decay : K) (i : Fin 4) :
    InHalfRange (e.nextTimeToLeave num now decay i) := by
  have hmix : 0 ≤ e.mixTt num now decay ∧ e.mixTt num now decay ≤ 1 := hnum.fastExpNeg _
  unfold nextTimeToLeave
  by_cases hi : i = e.state.index
  · subst hi
    rw [Function.update_self]
    exact ⟨mix_nonneg hmix (hstored _).1 (u64AsF32_nonneg _),
      mix_le hmix (hstored _).2 (u64AsF32_le.2 hdwell)⟩
  · rw [Function.update_of_ne hi]
    exact hstored i

/-- Once the old value is forgotten, the new one is the dwell time. -/
theorem Edge.nextTimeToLeave_of_cutoff (hnum : num.HalfRange) {e : Edge F16} {now : UInt64}
    {decay : K} (hcut : 87 < decay * u64AsF32 (satSub now (e.stateLastLeft e.state.index))) :
    e.nextTimeToLeave num now decay e.state.index = u64AsF32 (satSub now e.lastChangeTime) := by
  have hmix : e.mixTt num now decay = 0 := by
    refine hnum.cutoff _ ?_
    rw [neg_mul]
    exact neg_lt_neg hcut
  unfold nextTimeToLeave
  rw [Function.update_self, hmix, zero_mul, zero_add, sub_zero, one_mul]

/-! ## Along runs -/

/-- The stored values are in the range, and the clocks of the edges are in order. -/
structure Stores.DwellInv (num : Numerics F16 K) (s : Stores F16) : Prop where
  stored : ∀ key e, s.markov.get? key = some e → ∀ i, InHalfRange (num.toF32 (e.timeToLeave i))
  left_le : ∀ key e, s.markov.get? key = some e → ∀ i, e.stateLastLeft i ≤ e.lastChangeTime
  change_le : ∀ key e, s.markov.get? key = some e → e.lastChangeTime ≤ s.modelTime

/-- The same holds of the edges on which the transitions are taken. -/
theorem Stores.DwellInv.prepare (hnum : num.HalfRange) {s : Stores F16} (h : s.DwellInv num)
    {u : DefaultModelUpdater K} {ord : HashOrder} {obs : Observation} {policy : AdmissionPolicy}
    (htime : s.modelTime ≤ obs.time s.modelTime) {key : EdgeKey} {e : Edge F16}
    (he : (u.prepare num ord s obs policy).markov.get? key = some e) :
    (∀ i, InHalfRange (num.toF32 (e.timeToLeave i))) ∧
      (∀ i, e.stateLastLeft i ≤ e.lastChangeTime) ∧ e.lastChangeTime ≤ obs.time s.modelTime := by
  obtain ⟨-, -, hold | ⟨state, rfl⟩⟩ := (u.prepare_markov num ord s obs policy).1 he
  · exact ⟨h.stored key e hold, h.left_le key e hold,
      UInt64.le_trans (h.change_le key e hold) htime⟩
  · refine ⟨fun i => ?_, fun i => UInt64.le_refl _, UInt64.le_refl _⟩
    show InHalfRange (num.toF32 num.zero)
    rw [hnum.zero]
    exact ⟨le_refl 0, u64AsF32_nonneg _⟩

theorem dwellInv_apply (hnum : num.HalfRange) {s : Stores F16} (hs : s.WF) (h : s.DwellInv num)
    (u : DefaultModelUpdater K) (ord : HashOrder) (obs : Observation) (policy : AdmissionPolicy)
    (htime : s.modelTime ≤ obs.time s.modelTime) (hdwell : u.DwellsWithin s obs) :
    (u.apply num ord s obs policy).1.DwellInv num := by
  have hmodel := (apply_spec num u ord s obs policy).modelTime
  have hedge : ∀ key e', (u.apply num ord s obs policy).1.markov.get? key = some e' →
      (∀ i, InHalfRange (num.toF32 (e'.timeToLeave i))) ∧
        (∀ i, e'.stateLastLeft i ≤ e'.lastChangeTime) ∧
        e'.lastChangeTime ≤ obs.time s.modelTime := by
    intro key e' he'
    obtain ⟨e, both, he, rfl⟩ := u.get?_apply num ord s obs policy he'
    obtain ⟨hstored, hleft, hchange⟩ := h.prepare hnum htime he
    -- only a state that is left takes in a stay
    by_cases hne : edgeState (u.prepare num ord s obs policy) key.a key.b = e.state
    · dsimp only
      rw [Edge.updateState, if_pos hne]
      exact ⟨hstored, hleft, hchange⟩
    · have hle := hdwell.le_of_leaves num ord policy hs ⟨key, he, hne⟩
      have hvalues := Edge.nextTimeToLeave_inHalfRange hnum hstored hle u.decay
      dsimp only
      rw [Edge.lastChangeTime_updateState num hne, Edge.stateLastLeft_updateState num hne]
      refine ⟨fun i => ?_, fun i => ?_, UInt64.le_refl _⟩
      · rw [Edge.timeToLeave_updateState num hne]
        exact hnum.stored _ (hvalues i).1 (hvalues i).2
      · by_cases hi : i = e.state.index
        · rw [hi, Function.update_self]
          exact UInt64.le_refl _
        · rw [Function.update_of_ne hi]
          exact UInt64.le_trans (hleft i) hchange
  constructor
  · exact fun key e' he' => (hedge key e' he').1
  · exact fun key e' he' => (hedge key e' he').2.1
  · intro key e' he'
    rw [hmodel]
    exact (hedge key e' he').2.2

/-- An `apply` with a decay that is not negative, at a time that is not before the last one. -/
def StoresOp.Forward (s : Stores F16) : StoresOp K → Prop
  | .apply u _ _ obs => 0 ≤ u.decay ∧ s.modelTime ≤ obs.time s.modelTime
  | _ => False

/-- An `apply` at which no pair leaves a state after a stay beyond the range. -/
def StoresOp.DwellsWithin (s : Stores F16) : StoresOp K → Prop
  | .apply u _ _ obs => u.DwellsWithin s obs
  | _ => False

theorem dwellInv_of_reachable (hnum : num.HalfRange) {s : Stores F16}
    (h : StoresReachable num (fun s op => op.Forward s ∧ op.DwellsWithin s) s) :
    s.DwellInv num := by
  refine h.invariant_of (J := Stores.WF) (I := Stores.DwellInv num)
    (fun _ => wf_of_reachable num) ?_ ?_
  · exact ⟨fun _ _ he => absurd he (by simp [show (∅ : Stores F16).markov = ∅ from rfl]),
      fun _ _ he => absurd he (by simp [show (∅ : Stores F16).markov = ∅ from rfl]),
      fun _ _ he => absurd he (by simp [show (∅ : Stores F16).markov = ∅ from rfl])⟩
  · intro s op s' hs hinv hstep
    obtain ⟨⟨hforward, hdwell⟩, hexec⟩ := hstep
    cases op with
    | apply u ord policy obs =>
        obtain rfl := Except.ok.inj hexec
        exact dwellInv_apply hnum hs hinv u ord obs policy hforward.2 hdwell
    | advance cycle => exact hforward.elim
    | removeMap key => exact hforward.elim
    | restart ord createdAt activeWindow => exact hforward.elim

/-- While no pair leaves a state after a stay beyond the range of `f16`, the stored values and those
    that a transition computes are in the range. With a decay that forgets everything within such a
    stay, this is the exact condition. -/
theorem time_to_leave_in_range (hnum : num.HalfRange) {s : Stores F16}
    (h : StoresReachable num (fun s op => op.Forward s ∧ op.DwellsWithin s) s) :
    (∀ key e, s.markov.get? key = some e → ∀ i, InHalfRange (num.toF32 (e.timeToLeave i))) ∧
      ∀ (u : DefaultModelUpdater K) ord obs policy, 0 ≤ u.decay →
        s.modelTime ≤ obs.time s.modelTime →
        (u.DwellsWithin s obs → u.ValuesInRange num ord s obs policy) ∧
        (87 < u.decay * u64AsF32 f16Max →
          u.ValuesInRange num ord s obs policy → u.DwellsWithin s obs) := by
  have hinv := dwellInv_of_reachable hnum h
  have hs := wf_of_reachable num h
  refine ⟨hinv.stored, fun u ord obs policy hdecay htime => ⟨?_, ?_⟩⟩
  · intro hdwell e hleaves
    have ⟨key, he, _⟩ := hleaves
    exact Edge.nextTimeToLeave_inHalfRange hnum (hinv.prepare hnum htime he).1
      (hdwell.le_of_leaves num ord policy hs hleaves) u.decay
  · intro hforgets hvalues key e hends
    have hleaves := u.leaves_of_ends num ord s obs policy hs hends
    have ⟨_, he, _⟩ := hleaves
    obtain ⟨-, hleft, -⟩ := hinv.prepare hnum htime he
    by_contra hlong
    rw [UInt64.not_le] at hlong
    -- the state was last left before it was entered
    have hsince : satSub (obs.time s.modelTime) e.lastChangeTime ≤
        satSub (obs.time s.modelTime) (e.stateLastLeft e.state.index) := by
      have hle := hleft e.state.index
      rw [UInt64.le_iff_toNat_le] at hle ⊢
      rw [toNat_satSub, toNat_satSub]
      omega
    have hcut : 87 < u.decay * u64AsF32
        (satSub (obs.time s.modelTime) (e.stateLastLeft e.state.index)) := by
      refine lt_of_lt_of_le hforgets (mul_le_mul_of_nonneg_left ?_ hdecay)
      exact u64AsF32_le.2 (UInt64.le_trans (UInt64.le_of_lt hlong) hsince)
    have hvalue := (hvalues e hleaves e.state.index).2
    rw [Edge.nextTimeToLeave_of_cutoff hnum hcut, u64AsF32_le] at hvalue
    exact absurd hvalue (UInt64.not_le.2 hlong)

end Range

/-! ## Two programs that run side by side -/

/-- Exact storage, and a weight that is `1` until it is cut off. -/
def Numerics.cutOff : Numerics ℚ ℚ := Numerics.exact ℚ (fun x => if x < -87 then 0 else 1) id 0 0

theorem Numerics.halfRange_cutOff : Numerics.cutOff.HalfRange where
  zero := rfl
  stored _ h0 h1 := ⟨h0, h1⟩
  weight x hx := by
    show 0 ≤ (if x < -87 then (0 : ℚ) else 1) ∧ (if x < -87 then (0 : ℚ) else 1) ≤ 1
    rw [if_neg (not_lt.2 hx)]
    exact ⟨zero_le_one, le_refl 1⟩
  cutoff _ hx := if_pos hx

/-- The default window and decay. -/
def DefaultModelUpdater.default : DefaultModelUpdater ℚ := ⟨21600, 1 / 100⟩

/-- The stores after scans that find the same two programs running. -/
def bothRunningAt (times : List UInt64) : Stores ℚ :=
  times.foldl (fun s time => (DefaultModelUpdater.default.apply Numerics.cutOff .insertion s
    (.ofRunning time ["/bin/a", "/bin/b"]) .permissive).1) ∅

/-- The one edge of two programs that ran from second 20 on, when one of them stops. -/
theorem leaves_bothRunning (times : List UInt64) (stop : UInt64)
    (hrows : (DefaultModelUpdater.default.prepare Numerics.cutOff .insertion (bothRunningAt times)
      (.ofRunning stop ["/bin/a"]) .permissive).markov.iter.map (fun row =>
        (row.2.state, row.2.lastChangeTime, row.2.stateLastLeft 3, edgeState
          (DefaultModelUpdater.default.prepare Numerics.cutOff .insertion (bothRunningAt times)
            (.ofRunning stop ["/bin/a"]) .permissive) row.1.a row.1.b)) = [(.both, 20, 20, .bOnly)]) :
    ∃ e, e.state = .both ∧ e.lastChangeTime = 20 ∧ e.stateLastLeft 3 = 20 ∧ ∀ e',
      DefaultModelUpdater.default.Leaves Numerics.cutOff .insertion (bothRunningAt times)
        (.ofRunning stop ["/bin/a"]) .permissive e' ↔ e' = e := by
  obtain ⟨⟨key, e⟩, hiter, hrow⟩ := List.map_eq_singleton_iff.1 hrows
  simp only [Prod.mk.injEq] at hrow
  obtain ⟨hstate, hchange, hleft, hnew⟩ := hrow
  refine ⟨e, hstate, hchange, hleft, fun e' => ⟨?_, ?_⟩⟩
  · intro ⟨key', he', _⟩
    have hmem := MarkovGraph.mem_iter.2 he'
    rw [hiter, List.mem_singleton] at hmem
    exact (Prod.mk.inj hmem).2
  · rintro rfl
    refine ⟨key, MarkovGraph.mem_iter.1 (by rw [hiter]; exact List.mem_singleton_self _), ?_⟩
    rw [hnew, hstate]
    exact MarkovState.noConfusion

/-- One of two programs stops after six hours: the stay is within the range. -/
theorem time_to_leave_in_range_six_hours :
    let u := DefaultModelUpdater.default
    let s := bothRunningAt [20]
    let obs := Observation.ofRunning 21620 ["/bin/a"]
    (∃ e, u.Leaves Numerics.cutOff .insertion s obs .permissive e) ∧
      u.ValuesInRange Numerics.cutOff .insertion s obs .permissive := by
  intro u s obs
  have hfirst : StoresStep Numerics.cutOff (fun s op => op.Forward s ∧ op.DwellsWithin s) ∅
      (.apply u .insertion .permissive (.ofRunning 20 ["/bin/a", "/bin/b"])) s := by
    refine ⟨⟨⟨by decide +kernel, by decide⟩, ?_⟩, rfl⟩
    exact fun key e hends => absurd hends.1 (by simp [show (∅ : Stores ℚ).markov = ∅ from rfl])
  obtain ⟨e, -, hchange, -, hleaves⟩ := leaves_bothRunning [20] 21620 (by decide +kernel)
  refine ⟨⟨e, (hleaves e).2 rfl⟩, ?_⟩
  have hreach := Reachable.refl.tail hfirst
  have hrange := (time_to_leave_in_range Numerics.halfRange_cutOff hreach).2
    u .insertion obs .permissive (by decide +kernel) (by decide +kernel)
  refine hrange.1 fun key e' hends => ?_
  have hleft := u.leaves_of_ends Numerics.cutOff .insertion s obs .permissive
    (wf_of_reachable _ hreach) hends
  rw [(hleaves e').1 hleft, hchange]
  decide +kernel

/-- One of two programs stops after 65520 seconds side by side: with the default settings the value
    computed is the whole stay, which `f16` cannot hold. -/
theorem dwell_exceeds_f16 :
    let u := DefaultModelUpdater.default
    let s := bothRunningAt [20, 20020, 40020, 60020]
    let obs := Observation.ofRunning 65540 ["/bin/a"]
    StoresReachable Numerics.cutOff (fun s op => op.Forward s) s ∧ 0 ≤ u.decay ∧
      s.modelTime ≤ obs.time s.modelTime ∧
      ∃ e, u.Leaves Numerics.cutOff .insertion s obs .permissive e ∧
        e.nextTimeToLeave Numerics.cutOff 65540 u.decay e.state.index = 65520 ∧
        ¬ u.ValuesInRange Numerics.cutOff .insertion s obs .permissive := by
  intro u s obs
  have hstep : ∀ (s : Stores ℚ) (time : UInt64), s.modelTime ≤ time →
      StoresStep Numerics.cutOff (fun s op => op.Forward s) s
        (.apply u .insertion .permissive (.ofRunning time ["/bin/a", "/bin/b"]))
        (u.apply Numerics.cutOff .insertion s (.ofRunning time ["/bin/a", "/bin/b"])
          .permissive).1 := fun s time htime =>
    ⟨⟨by decide +kernel, by rwa [Observation.time_ofRunning]⟩, rfl⟩
  obtain ⟨e, hstate, hchange, hleft, hleaves⟩ := leaves_bothRunning
    [20, 20020, 40020, 60020] 65540 (by decide +kernel)
  have hvalue : e.nextTimeToLeave Numerics.cutOff 65540 u.decay e.state.index = 65520 := by
    rw [Edge.nextTimeToLeave_of_cutoff Numerics.halfRange_cutOff, hchange]
    · decide +kernel
    · rw [hstate, show MarkovState.both.index = 3 from rfl, hleft]
      decide +kernel
  refine ⟨?_, by decide +kernel, by decide +kernel, e, (hleaves e).2 rfl, hvalue, fun hrange => ?_⟩
  · exact ((((Reachable.refl.tail (hstep _ 20 (by decide +kernel))).tail
      (hstep _ 20020 (by decide +kernel))).tail (hstep _ 40020 (by decide +kernel))).tail
      (hstep _ 60020 (by decide +kernel)))
  · have hle := (hrange e ((hleaves e).2 rfl) e.state.index).2
    rw [show obs.time s.modelTime = 65540 by decide +kernel, hvalue] at hle
    exact absurd hle (by decide +kernel)

end PreloadNg
