import PreloadNg.Engine.WellFormed

set_option autoImplicit false

/-! # The active set along runs

A run is traced: beside the stores, the state holds the time and the result of every `apply` so far,
latest first. The active set is then a function of the trace. -/

namespace PreloadNg

variable {F16 F32 : Type} [Float32Ops F32] (num : Numerics F16 F32)

/-- The past applies, latest first, and the current stores. -/
structure Traced (F16 : Type) where
  past : List (UInt64 × Stores F16)
  stores : Stores F16

/-- A step that keeps the trace: observation times do not decrease and the window is fixed. -/
def TracedStep (activeWindow : UInt64) (s : Traced F16) (op : StoresOp F32) (s' : Traced F16) :
    Prop :=
  op.exec num s.stores = .ok s'.stores ∧
    match op with
    | .apply updater _ _ obs =>
      updater.activeWindow = activeWindow ∧
      (∀ p ∈ s.past, p.1 ≤ obs.time s.stores.modelTime) ∧
      s'.past = (obs.time s.stores.modelTime, s'.stores) :: s.past
    | .advance _ => s'.past = s.past
    | .removeMap _ => s'.past = s.past
    | .restart _ _ _ => False

theorem tracedStep_apply (u : DefaultModelUpdater F32) (ord : HashOrder) (policy : AdmissionPolicy)
    (obs : Observation) (s : Traced F16)
    (htimes : ∀ p ∈ s.past, p.1 ≤ obs.time s.stores.modelTime) :
    TracedStep num u.activeWindow s (.apply u ord policy obs)
      ⟨(obs.time s.stores.modelTime, (u.apply num ord s.stores obs policy).1) :: s.past,
        (u.apply num ord s.stores obs policy).1⟩ :=
  ⟨rfl, rfl, htimes, rfl⟩

def TracedReachable (activeWindow : UInt64) : Traced F16 → Prop :=
  Reachable (TracedStep num activeWindow) ⟨[], ∅⟩

theorem TracedReachable.wf {activeWindow : UInt64} {s : Traced F16}
    (h : TracedReachable num activeWindow s) : s.stores.WF :=
  h.invariant (I := fun s : Traced F16 => s.stores.WF) Stores.wf_empty
    fun _ _ _ hs hstep => wf_exec num hs hstep.1

/-- The active set holds the executables that ran in the trace, with the time of their last run, as
    long as that is within the window. -/
structure Traced.ActiveInv (activeWindow : UInt64) (s : Traced F16) : Prop where
  ran : ∀ id t, s.stores.active.seenAt id = some t →
    ∃ p ∈ s.past, p.1 = t ∧ p.2.isRunning id = true
  kept : ∀ id, ∀ p ∈ s.past, p.2.isRunning id = true →
    (∀ q ∈ s.past, satSub q.1 p.1 ≤ activeWindow) →
    ∃ t, s.stores.active.seenAt id = some t ∧ p.1 ≤ t

/-- One `apply` keeps the invariant. -/
theorem activeInv_apply {u : DefaultModelUpdater F32} {ord : HashOrder} {s r : Stores F16}
    {obs : Observation} {policy : AdmissionPolicy} {past : List (UInt64 × Stores F16)}
    (hspec : ApplySpec num u ord s obs policy r) (htimes : ∀ p ∈ past, p.1 ≤ obs.time s.modelTime)
    (ih : Traced.ActiveInv u.activeWindow ⟨past, s⟩) :
    Traced.ActiveInv u.activeWindow ⟨(obs.time s.modelTime, r) :: past, r⟩ := by
  constructor
  · intro id t ht
    rw [hspec.active, Option.filter_eq_some_iff] at ht
    obtain ⟨ht, -⟩ := ht
    split at ht
    · next hrun => exact ⟨_, List.mem_cons_self, Option.some.inj ht, hrun⟩
    · obtain ⟨p, hp, hpt⟩ := ih.ran id t ht
      exact ⟨p, List.mem_cons_of_mem _ hp, hpt⟩
  · intro id p hp hrun hwindow
    have hnow : satSub (obs.time s.modelTime) p.1 ≤ u.activeWindow :=
      hwindow _ List.mem_cons_self
    rw [hspec.active]
    by_cases hrunning : r.isRunning id = true
    · -- running now: last seen now, which is the latest time of the trace
      refine ⟨obs.time s.modelTime, ?_, ?_⟩
      · rw [if_pos hrunning, Option.filter_some, satSub_self, if_pos (by simp)]
      · rcases List.mem_cons.1 hp with rfl | hp
        · exact UInt64.le_refl _
        · exact htimes p hp
    · -- not running now: what was last seen at `t` stays, since `t` is not before `p.1`
      rw [if_neg hrunning]
      rcases List.mem_cons.1 hp with rfl | hp
      · exact absurd hrun hrunning
      · obtain ⟨t, ht, hle⟩ := ih.kept id p hp hrun
          fun q hq => hwindow q (List.mem_cons_of_mem _ hq)
        refine ⟨t, ?_, hle⟩
        rw [satSub_le_iff] at hnow
        rw [UInt64.le_iff_toNat_le] at hle
        have hwithin : satSub (obs.time s.modelTime) t ≤ u.activeWindow := by
          rw [satSub_le_iff]
          omega
        rw [show s.active.seenAt id = some t from ht, Option.filter_some,
          if_pos (decide_eq_true hwithin)]

theorem activeInv_of_reachable {activeWindow : UInt64} {s : Traced F16}
    (h : TracedReachable num activeWindow s) : s.ActiveInv activeWindow := by
  refine h.invariant (I := Traced.ActiveInv activeWindow) ?_ ?_
  · constructor
    · intro id t ht
      exact absurd ht (by simp [show (∅ : Stores F16).active = ∅ from rfl])
    · intro id p hp
      exact absurd hp List.not_mem_nil
  · rintro ⟨past, s⟩ op ⟨past', s'⟩ ih ⟨hexec, htrace⟩
    cases op with
    | restart => exact htrace.elim
    | advance cycle =>
        obtain rfl := Except.ok.inj hexec
        obtain rfl : past' = past := htrace
        exact ⟨ih.ran, ih.kept⟩
    | removeMap key =>
        obtain rfl := Except.ok.inj hexec
        obtain rfl : past' = past := htrace
        constructor
        · simpa using ih.ran
        · simpa using ih.kept
    | apply u ord policy obs =>
        obtain ⟨rfl, htimes, hpast⟩ := htrace
        have hresult : (u.apply num ord s obs policy).1 = s' := Except.ok.inj hexec
        subst hresult
        have hpast : past' = (obs.time s.modelTime, (u.apply num ord s obs policy).1) :: past :=
          hpast
        subst hpast
        exact activeInv_apply num (apply_spec num u ord s obs policy) htimes ih

/-! ## What holds after every `apply` -/

/-- What the stores `r` look like after an `apply` of `obs` at time `now`, when `past` traces all
    applies, this one included. -/
structure AfterApply (activeWindow now : UInt64) (obs : Observation)
    (past : List (UInt64 × Stores F16)) (r : Stores F16) : Prop where
  /-- The running flags are those of the observation. -/
  running : ∀ id e, r.exes.get? id = some e → (e.running = true ↔ obs.sees e.key.path)
  /-- The active set is what ran within the window. -/
  active : ∀ id, id ∈ r.active.exes ↔ r.LiveExe id ∧ ∃ p ∈ past,
    now.toNat ≤ p.1.toNat + activeWindow.toNat ∧
    ∃ e, p.2.exes.get? id = some e ∧ e.running = true
  /-- Each unordered pair of distinct active executables has exactly one edge. -/
  edge_nodup : r.markov.keys.Nodup
  edges : ∀ a b, EdgeKey.new a b ∈ r.markov.keys ↔
    a ≠ b ∧ a ∈ r.active.exes ∧ b ∈ r.active.exes
  /-- The state of an edge is that of its two running flags, in the order of its key. -/
  states : ∀ key e, r.markov.get? key = some e →
    e.state = MarkovState.fromRunning (r.isRunning key.a) (r.isRunning key.b)

/-- After every `apply` of a run from the empty stores. -/
theorem after_apply {activeWindow : UInt64} {s : Traced F16}
    (h : TracedReachable num activeWindow s) (u : DefaultModelUpdater F32) (ord : HashOrder)
    (policy : AdmissionPolicy) (obs : Observation) {s' : Traced F16}
    (hstep : TracedStep num activeWindow s (.apply u ord policy obs) s') :
    AfterApply activeWindow (obs.time s.stores.modelTime) obs s'.past s'.stores := by
  have hreach := Reachable.tail h hstep
  have hwf := TracedReachable.wf num hreach
  have hinv := activeInv_of_reachable num hreach
  obtain ⟨hexec, rfl, htimes, hpast⟩ := hstep
  have hspec : ApplySpec num u ord s.stores obs policy s'.stores :=
    Except.ok.inj hexec ▸ apply_spec num u ord s.stores obs policy
  have hlatest : ∀ p ∈ s'.past, p.1 ≤ obs.time s.stores.modelTime := by
    intro p hp
    rw [hpast] at hp
    rcases List.mem_cons.1 hp with rfl | hp
    · exact UInt64.le_refl _
    · exact htimes p hp
  constructor
  · intro id e he
    exact hspec.running_iff he
  · intro id
    rw [ActiveSet.mem_exes]
    constructor
    · rintro ⟨t, ht⟩
      have hlive := hwf.active_live id ((ActiveSet.mem_exes _ id).2 ⟨t, ht⟩)
      obtain ⟨p, hp, rfl, hrun⟩ := hinv.ran id t ht
      rw [hspec.active, Option.filter_eq_some_iff, decide_eq_true_eq, satSub_le_iff] at ht
      exact ⟨hlive, p, hp, ht.2, Stores.isRunning_eq_true.1 hrun⟩
    · rintro ⟨-, p, hp, hwindow, hrun⟩
      have hall : ∀ q ∈ s'.past, satSub q.1 p.1 ≤ u.activeWindow := by
        intro q hq
        have hle := hlatest q hq
        rw [UInt64.le_iff_toNat_le] at hle
        rw [satSub_le_iff]
        omega
      obtain ⟨t, ht, -⟩ := hinv.kept id p hp (Stores.isRunning_eq_true.2 hrun) hall
      exact ⟨t, ht⟩
  · exact s'.stores.markov.keys_nodup
  · intro a b
    constructor
    · intro hkey
      exact ⟨EdgeKey.new_ne_iff.1 (hwf.edge_distinct _ hkey),
        (EdgeKey.new_both (· ∈ _) a b).1 (hspec.edge_active hkey)⟩
    · rintro ⟨hne, ha, hb⟩
      exact MarkovGraph.mem_keys_iff.2 (hspec.edge_complete a b ha hb hne)
  · intro key e he
    exact hspec.edge_state he

theorem after_apply_second_scan :
    let u : DefaultModelUpdater ℚ := ⟨100, 0⟩
    let s₁ : Stores ℚ := (u.apply Numerics.rational .insertion ∅
      (.ofRunning 10 ["/bin/a", "/bin/b"]) .permissive).1
    let s₂ : Stores ℚ := (u.apply Numerics.rational .reverse s₁
      (.ofRunning 15 ["/bin/a"]) .permissive).1
    s₂.active.exes.iter.length = 2 ∧
      AfterApply 100 15 (.ofRunning 15 ["/bin/a"]) [(15, s₂), (10, s₁)] s₂ := by
  have hsecond : ∀ s : Stores ℚ, TracedReachable Numerics.rational 100 ⟨[(10, s)], s⟩ →
      AfterApply 100 15 (.ofRunning 15 ["/bin/a"])
        [(15, ((⟨100, 0⟩ : DefaultModelUpdater ℚ).apply Numerics.rational .reverse s
          (.ofRunning 15 ["/bin/a"]) .permissive).1), (10, s)]
        ((⟨100, 0⟩ : DefaultModelUpdater ℚ).apply Numerics.rational .reverse s
          (.ofRunning 15 ["/bin/a"]) .permissive).1 := by
    intro s h
    have hstep := tracedStep_apply Numerics.rational ⟨100, 0⟩ .reverse .permissive
      (.ofRunning 15 ["/bin/a"]) ⟨[(10, s)], s⟩ (by simp)
    have hafter := after_apply Numerics.rational h ⟨100, 0⟩ .reverse .permissive _ hstep
    rw [Observation.time_ofRunning] at hafter
    with_reducible exact hafter
  have hfirst := tracedStep_apply Numerics.rational ⟨100, 0⟩ .insertion .permissive
    (.ofRunning 10 ["/bin/a", "/bin/b"]) ⟨[], ∅⟩ (by simp)
  rw [Observation.time_ofRunning] at hfirst
  exact ⟨by decide +kernel, hsecond _ (Reachable.refl.tail hfirst)⟩

end PreloadNg
