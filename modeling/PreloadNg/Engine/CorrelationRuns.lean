import PreloadNg.Engine.Accounting
import PreloadNg.Lib.PhiCoefficient
import PreloadNg.Prediction.Predictor

set_option autoImplicit false

/-! # The correlation along runs

`total_running_time` is kept for ever, `both_running_time` is lost when an edge is dropped, by
pruning or by a restart, and starts again from `0` when the edge is created again. Along the runs
that drop no edge with a positive co-running time, the times of a pair fill a table without negative
cells, and the correlation is at most `1`. -/

namespace PreloadNg

variable {F16 F32 : Type} [Float32Ops F32] (num : Numerics F16 F32)

/-! ## Runs -/

/-- Applies at times that do not decrease, advances of the model time and restarts. -/
def Nondecreasing (s : Stores F16) : StoresOp F32 → Prop
  | .apply _ _ _ obs => s.lastAccountingTime ≤ obs.time s.modelTime
  | .advance _ => True
  | .removeMap _ => True
  | .restart _ _ _ => True

/-- The executables of every edge with a positive co-running time stay active in the step. -/
def KeepsCoRunning (s : Stores F16) : StoresOp F32 → Prop
  | .apply u _ _ obs => ∀ key e, s.markov.get? key = some e → 0 < e.bothRunningTime →
      StaysActive u obs s key.a ∧ StaysActive u obs s key.b
  | .advance _ => True
  | .removeMap _ => True
  | .restart _ _ activeWindow =>
    ∀ key e, s.markov.get? key = some e → 0 < e.bothRunningTime →
      (s.exes.get? key.a).any (Exe.isRecent s.modelTime activeWindow) = true ∧
      (s.exes.get? key.b).any (Exe.isRecent s.modelTime activeWindow) = true

def NondecreasingKept (s : Stores F16) (op : StoresOp F32) : Prop :=
  Nondecreasing s op ∧ KeepsCoRunning s op

/-! ## The invariant -/

/-- Two executables run together for at least the time by which their running times exceed the
    clock. -/
def Stores.Overlaps (s : Stores F16) : Prop :=
  ∀ a b, a ≠ b → (s.runningTime a).toNat + (s.runningTime b).toNat ≤
    s.lastAccountingTime.toNat + (s.bothTime a b).toNat

section Apply

variable {num} {u : DefaultModelUpdater F32} {ord : HashOrder} {s r : Stores F16}
  {obs : Observation} {policy : AdmissionPolicy} (h : ApplySpec num u ord s obs policy r)

include h

/-- An `apply` that keeps the co-running edges credits every pair. -/
theorem ApplySpec.bothTime
    (hkeep : ∀ key e, s.markov.get? key = some e → 0 < e.bothRunningTime →
      StaysActive u obs s key.a ∧ StaysActive u obs s key.b) {a b : ExeId} (hne : a ≠ b) :
    r.bothTime a b =
      if r.isRunning a = true ∧ r.isRunning b = true then
        satAdd (s.bothTime a b) (accountingPeriod s obs)
      else s.bothTime a b := by
  cases he : r.markov.get? (EdgeKey.new a b) with
  | some e =>
      rw [Stores.bothTime_of_get? he]
      exact (h.bothRunningTime_origin he).2.2
  | none =>
      -- without an edge the pair does not run together, and has no time to lose
      have hrun : ¬ (r.isRunning a = true ∧ r.isRunning b = true) := by
        intro hrun
        obtain ⟨e, he'⟩ := h.edge_complete a b (h.mem_active_of_running hrun.1)
          (h.mem_active_of_running hrun.2) hne
        exact absurd (he.symm.trans he') (by simp)
      rw [if_neg hrun, Stores.bothTime, he]
      cases hold : s.markov.get? (EdgeKey.new a b) with
      | none =>
          rw [Stores.bothTime, hold]
      | some e =>
          rw [Stores.bothTime_of_get? hold]
          by_contra hpos
          have hpos : 0 < e.bothRunningTime := UInt64.pos_iff_ne_zero.2 fun h0 => hpos h0.symm
          obtain ⟨ha, hb⟩ := hkeep _ e hold hpos
          have hkept := h.edge_kept _ e hold (h.mem_active_of_stays ha) (h.mem_active_of_stays hb)
          exact absurd (he.symm.trans hkept) (by simp)

theorem overlaps_apply
    (hkeep : ∀ key e, s.markov.get? key = some e → 0 < e.bothRunningTime →
      StaysActive u obs s key.a ∧ StaysActive u obs s key.b)
    (htime : s.lastAccountingTime ≤ obs.time s.modelTime) (hacc : s.Accounting)
    (ih : s.Overlaps) : r.Overlaps := by
  intro a b hne
  have hab := ih a b hne
  have ha := hacc.exe a
  have hb := hacc.exe b
  have hboth := hacc.both a b
  rw [UInt64.le_iff_toNat_le] at htime ha hb hboth
  have hnow := (obs.time s.modelTime).toNat_lt
  -- no sum saturates, since every time is at most that of the last accounting
  have hcredit : ∀ x : UInt64, x.toNat ≤ s.lastAccountingTime.toNat →
      (satAdd x (accountingPeriod s obs)).toNat + s.lastAccountingTime.toNat =
        x.toNat + (obs.time s.modelTime).toNat := by
    intro x hx
    rw [toNat_satAdd, accountingPeriod, toNat_satSub]
    omega
  have hca := hcredit (s.runningTime a) ha
  have hcb := hcredit (s.runningTime b) hb
  have hcz := hcredit (s.bothTime a b) (le_trans hboth ha)
  rw [h.runningTime, h.runningTime, h.bothTime hkeep hne, h.lastAccountingTime]
  by_cases hra : r.isRunning a = true
  · by_cases hrb : r.isRunning b = true
    · rw [if_pos hra, if_pos hrb, if_pos ⟨hra, hrb⟩]
      omega
    · rw [if_pos hra, if_neg hrb, if_neg fun hrun => hrb hrun.2]
      omega
  · have hnot : ¬ (r.isRunning a = true ∧ r.isRunning b = true) := fun hrun => hra hrun.1
    rw [if_neg hra, if_neg hnot]
    split
    · omega
    · omega

end Apply

omit [Float32Ops F32] in
theorem Stores.isRecentAt_of_idByKey {s : Stores F16} (activeWindow : UInt64) {id : ExeId}
    {key : ExeKey} (hid : s.exes.idByKey key = some id) :
    s.isRecentAt activeWindow key.path =
      (s.exes.get? id).any (Exe.isRecent s.modelTime activeWindow) := by
  obtain ⟨e, he, rfl⟩ := ExeStore.idByKey_eq_some.1 hid
  rw [Stores.isRecentAt, show s.exeAt e.key.path = some e from
    Stores.exeAt_eq_some.2 ⟨id, he, rfl⟩, he]

/-- The edges whose co-running time is positive join recent executables. -/
def Stores.KeepsEdges (s : Stores F16) (activeWindow : UInt64) : Prop :=
  ∀ key e, s.markov.get? key = some e → 0 < e.bothRunningTime →
    (s.exes.get? key.a).any (Exe.isRecent s.modelTime activeWindow) = true ∧
    (s.exes.get? key.b).any (Exe.isRecent s.modelTime activeWindow) = true

omit [Float32Ops F32] in
/-- Then a restart loses no co-running time. -/
theorem bothTime_restart {s t : Stores F16} {activeWindow : UInt64}
    (h : RestartSpec s activeWindow t) (hkeep : s.KeepsEdges activeWindow) {p q : Path}
    {a b a' b' : ExeId} (ha : s.exes.idByKey ⟨p⟩ = some a) (hb : s.exes.idByKey ⟨q⟩ = some b)
    (ha' : t.exes.idByKey ⟨p⟩ = some a') (hb' : t.exes.idByKey ⟨q⟩ = some b') :
    t.bothTime a' b' = s.bothTime a b := by
  have hp := Stores.isRecentAt_of_idByKey activeWindow ha
  have hq := Stores.isRecentAt_of_idByKey activeWindow hb
  dsimp only at hp hq
  rw [h.bothTime ha hb ha' hb', hp, hq]
  cases hold : s.markov.get? (EdgeKey.new a b) with
  | none =>
      rw [Stores.bothTime, hold]
      exact ite_self _
  | some e =>
      rw [Stores.bothTime_of_get? hold]
      by_cases hpos : 0 < e.bothRunningTime
      · have hkept := (EdgeKey.new_both (fun id =>
          (s.exes.get? id).any (Exe.isRecent s.modelTime activeWindow) = true) a b).1
            (hkeep _ e hold hpos)
        rw [hkept.1, hkept.2]
        rfl
      · have hzero : e.bothRunningTime = 0 := UInt64.le_zero_iff.1 (UInt64.not_lt.1 hpos)
        rw [hzero]
        exact ite_self _

omit [Float32Ops F32] in
theorem overlaps_restart {s t : Stores F16} {activeWindow : UInt64}
    (h : RestartSpec s activeWindow t) (hkeep : s.KeepsEdges activeWindow) (hacc : t.Accounting)
    (ih : s.Overlaps) : t.Overlaps := by
  intro a' b' hne
  -- a missing executable has running time `0`
  cases hx : t.exes.get? a' with
  | none =>
      have hb := hacc.exe b'
      rw [UInt64.le_iff_toNat_le] at hb
      rw [show t.runningTime a' = 0 by simp [Stores.runningTime, hx], UInt64.toNat_zero]
      omega
  | some x =>
      cases hy : t.exes.get? b' with
      | none =>
          have ha := hacc.exe a'
          rw [UInt64.le_iff_toNat_le] at ha
          rw [show t.runningTime b' = 0 by simp [Stores.runningTime, hy], UInt64.toNat_zero]
          omega
      | some y =>
          have ha' := ExeStore.idByKey_of_get? hx
          have hb' := ExeStore.idByKey_of_get? hy
          obtain ⟨a, ha⟩ := h.idByKey.1 ⟨a', ha'⟩
          obtain ⟨b, hb⟩ := h.idByKey.1 ⟨b', hb'⟩
          have hne' : a ≠ b := by
            rintro rfl
            have hkey := ExeStore.idByKey_inj ha hb
            exact hne (ExeStore.id_unique hx hy hkey)
          rw [h.runningTime ha ha', h.runningTime hb hb', bothTime_restart h hkeep ha hb ha' hb',
            h.lastAccountingTime]
          exact ih a b hne'

/-! ## Along runs -/

theorem accounting_of_reachable {s : Stores F16}
    (h : StoresReachable num Nondecreasing s) : s.Accounting := by
  refine h.invariant_of (J := Stores.WF) (I := Stores.Accounting) (fun _ => wf_of_reachable num)
    Stores.accounting_empty ?_
  intro s op s' hs ih hstep
  obtain ⟨htime, hexec⟩ := hstep
  cases op with
  | apply u ord policy obs =>
      obtain rfl := Except.ok.inj hexec
      exact accounting_apply (apply_spec num u ord s obs policy) htime ih
  | advance cycle =>
      obtain rfl := Except.ok.inj hexec
      exact ih.congr rfl rfl rfl (le_satAdd _ _)
  | removeMap key =>
      obtain rfl := Except.ok.inj hexec
      exact ih.congr (by simp) (by simp) (by simp) (by simp)
  | restart ord createdAt activeWindow =>
      exact accounting_restart (restart_spec hexec hs) (wf_exec num hs hexec) ih

theorem overlaps_of_reachable {s : Stores F16}
    (h : StoresReachable num NondecreasingKept s) : s.Overlaps := by
  have hweaker : ∀ s : Stores F16, StoresReachable num NondecreasingKept s →
      s.WF ∧ s.Accounting := fun s hs =>
    ⟨wf_of_reachable num hs,
      accounting_of_reachable num (hs.mono fun _ _ _ hstep => ⟨hstep.1.1, hstep.2⟩)⟩
  refine h.invariant_of (J := fun s => s.WF ∧ s.Accounting) (I := Stores.Overlaps) hweaker ?_ ?_
  · intro a b _
    exact Nat.zero_le _
  · intro s op s' hs ih hstep
    obtain ⟨hwf, hacc⟩ := hs
    obtain ⟨⟨htime, hkeep⟩, hexec⟩ := hstep
    cases op with
    | apply u ord policy obs =>
        obtain rfl := Except.ok.inj hexec
        exact overlaps_apply (apply_spec num u ord s obs policy) hkeep htime hacc ih
    | advance cycle =>
        obtain rfl := Except.ok.inj hexec
        exact ih
    | removeMap key =>
        obtain rfl := Except.ok.inj hexec
        unfold Stores.Overlaps Stores.runningTime Stores.bothTime at ih ⊢
        simpa using ih
    | restart ord createdAt activeWindow =>
        have hspec := restart_spec hexec hwf
        exact overlaps_restart hspec hkeep
          (accounting_restart hspec (wf_exec num hwf hexec) hacc) ih

/-! ## The correlation -/

/-- The correlation of an edge with the given times is at most `1` in absolute value, and weighting
    a probability by it never increases the probability. -/
def CorrelationBounded (t x y z : UInt64) : Prop :=
  PhiBounded (t.toNat : ℤ) x.toNat y.toNat z.toNat ∧
    |phi t.toNat x.toNat y.toNat z.toNat| ≤ 1 ∧
    ∀ p : ℝ, 0 ≤ p → p * |phi t.toNat x.toNat y.toNat z.toNat| ≤ p

theorem correlationBounded_of_phiBounded {t x y z : UInt64}
    (h : PhiBounded (t.toNat : ℤ) x.toNat y.toNat z.toNat) : CorrelationBounded t x y z := by
  have hreal : PhiBounded (t.toNat : ℝ) x.toNat y.toNat z.toNat := by
    exact_mod_cast phiBounded_intCast h
  exact ⟨h, abs_phi_le_one hreal, fun p hp => mul_abs_phi_le hreal hp⟩

/-- Every determinate correlation of an edge is a correlation. -/
def Stores.CorrelationsBounded (s : Stores F16) : Prop :=
  ∀ key e c, s.markov.get? key = some e →
    correlation num s key.a key.b e.bothRunningTime = some c →
    CorrelationBounded s.modelTime (s.runningTime key.a) (s.runningTime key.b) e.bothRunningTime

/-- In every run that drops no edge with a positive co-running time. -/
theorem correlations_bounded {s : Stores F16}
    (h : StoresReachable num NondecreasingKept s) : s.CorrelationsBounded num := by
  intro key e c he _
  have hacc := accounting_of_reachable num (h.mono fun _ _ _ hstep => ⟨hstep.1.1, hstep.2⟩)
  have hne := (wf_of_reachable num h).edge_distinct key (MarkovGraph.mem_keys_iff.2 ⟨e, he⟩)
  have hoverlap := overlaps_of_reachable num h key.a key.b hne
  have hboth : s.bothTime key.a key.b = e.bothRunningTime :=
    Stores.bothTime_of_get? (by rw [EdgeKey.new_a_b, he])
  have hza := hacc.both key.a key.b
  have hzb := hacc.both key.b key.a
  have hclock := hacc.clock
  rw [s.bothTime_comm key.b key.a] at hzb
  rw [hboth] at hoverlap hza hzb
  rw [UInt64.le_iff_toNat_le] at hza hzb hclock
  refine correlationBounded_of_phiBounded (phiBounded_of_cells ?_ ?_ ?_ ?_)
  · omega
  · omega
  · omega
  · omega

/-- One scan of a run, at a time that does not decrease. -/
theorem nondecreasing_scan {s : Stores F16} (h : StoresReachable num Nondecreasing s)
    (u : DefaultModelUpdater F32) (time : UInt64) (programs : List String)
    (htime : s.lastAccountingTime ≤ time) :
    StoresReachable num Nondecreasing
      (u.apply num .insertion s (.ofRunning time programs) .permissive).1 := by
  refine h.tail (i := .apply u .insertion .permissive (.ofRunning time programs)) ⟨?_, rfl⟩
  show _ ≤ Observation.time _ _
  rwa [Observation.time_ofRunning]

/-- Some edge with a determinate correlation violates the bound. -/
def Stores.hasUnboundedEdge (s : Stores F16) : Bool :=
  s.markov.iter.any fun row =>
    (correlation num s row.1.a row.1.b row.2.bothRunningTime).isSome &&
      !decide (PhiBounded (s.modelTime.toNat : ℤ) (s.runningTime row.1.a).toNat
        (s.runningTime row.1.b).toNat row.2.bothRunningTime.toNat)

theorem not_correlationsBounded {s : Stores F16} (h : s.hasUnboundedEdge num = true) :
    ¬ s.CorrelationsBounded num := by
  intro hall
  obtain ⟨⟨key, e⟩, hmem, hbad⟩ := List.any_eq_true.1 h
  rw [Bool.and_eq_true, Option.isSome_iff_exists, Bool.not_eq_true', decide_eq_false_iff_not] at hbad
  obtain ⟨⟨c, hc⟩, hbad⟩ := hbad
  exact hbad (hall key e c (MarkovGraph.mem_iter.1 hmem) hc).1

/-- Two programs run together for ten seconds. -/
theorem correlations_bounded_together :
    ∃ s : Stores ℚ, s.markov.keys.length = 1 ∧
      (s.markov.iter.all fun row =>
        (correlation Numerics.rational s row.1.a row.1.b row.2.bothRunningTime).isSome) = true ∧
      s.CorrelationsBounded Numerics.rational := by
  let u : DefaultModelUpdater ℚ := ⟨100, 0⟩
  let s₁ : Stores ℚ := (u.apply Numerics.rational .insertion ∅
    (.ofRunning 10 ["/bin/a", "/bin/b"]) .permissive).1
  have hfirst : StoresReachable Numerics.rational NondecreasingKept s₁ := by
    refine Reachable.refl.tail
      (i := .apply u .insertion .permissive (.ofRunning 10 ["/bin/a", "/bin/b"]))
      ⟨⟨UInt64.zero_le, ?_⟩, rfl⟩
    intro key e he
    exact absurd he (by rw [show (∅ : Stores ℚ).markov.get? key = none from rfl]; simp)
  have hreach : StoresReachable Numerics.rational NondecreasingKept
      (s₁.advance 20) := hfirst.tail (i := .advance 20) ⟨⟨trivial, trivial⟩, rfl⟩
  exact ⟨s₁.advance 20, by decide +kernel, by decide +kernel,
    correlations_bounded Numerics.rational hreach⟩

/-- Two programs run together, are pruned, and run together again: their edge starts again with no
    co-running time, and the correlation is not one. -/
theorem correlation_exceeds_one :
    ∃ s : Stores ℚ, StoresReachable Numerics.rational Nondecreasing s ∧
      ¬ s.CorrelationsBounded Numerics.rational := by
  let u : DefaultModelUpdater ℚ := ⟨0, 0⟩
  let s₁ : Stores ℚ := (u.apply Numerics.rational .insertion ∅
    (.ofRunning 10 ["/bin/a", "/bin/b"]) .permissive).1
  let s₂ : Stores ℚ := (u.apply Numerics.rational .insertion s₁ (.ofRunning 11 []) .permissive).1
  let s₃ : Stores ℚ := (u.apply Numerics.rational .insertion s₂
    (.ofRunning 12 ["/bin/a", "/bin/b"]) .permissive).1
  have hreach₁ : StoresReachable Numerics.rational Nondecreasing s₁ :=
    nondecreasing_scan _ Reachable.refl u 10 ["/bin/a", "/bin/b"] UInt64.zero_le
  have hreach₂ : StoresReachable Numerics.rational Nondecreasing s₂ :=
    nondecreasing_scan _ hreach₁ u 11 [] (by decide +kernel)
  have hreach₃ : StoresReachable Numerics.rational Nondecreasing s₃ :=
    nondecreasing_scan _ hreach₂ u 12 ["/bin/a", "/bin/b"] (by decide +kernel)
  exact ⟨s₃, hreach₃, not_correlationsBounded _ (by decide +kernel)⟩

end PreloadNg
