import PreloadNg.Engine.CorrelationRuns
import PreloadNg.Engine.EdgesByPath

set_option autoImplicit false

/-! # What the running times count

Along a run, every observation is recorded as a frame: the time since the accounting before it, the
programs it shows, and the programs stored and active after it. A restart is a frame that shows
nothing. The running time of an executable is the time of the frames that show it once it is stored;
the co-running time of a pair is that of the frames that show both since the pair is active. -/

namespace PreloadNg

variable {F16 F32 : Type}

structure Frame where
  period : ℕ
  shows : Path → Bool
  stored : Path → Bool
  active : Path → Bool

/-- The time of the frames that show the stored program. -/
def runningTimeIn (frames : List Frame) (p : Path) : ℕ :=
  ((frames.filter fun f => f.stored p && f.shows p).map Frame.period).sum

/-- The time of the frames that show both programs, back to the latest frame in which one of them is
    not active. -/
def coRunningTimeIn (frames : List Frame) (p q : Path) : ℕ :=
  (((frames.takeWhile fun f => f.active p && f.active q).filter
    fun f => f.shows p && f.shows q).map Frame.period).sum

theorem runningTimeIn_cons (f : Frame) (frames : List Frame) (p : Path) :
    runningTimeIn (f :: frames) p =
      (if f.stored p = true ∧ f.shows p = true then f.period else 0) + runningTimeIn frames p := by
  unfold runningTimeIn
  rw [List.filter_cons]
  by_cases h : f.stored p = true ∧ f.shows p = true
  · rw [if_pos (by simp [h]), if_pos h, List.map_cons, List.sum_cons]
  · rw [if_neg (by simpa using h), if_neg h, Nat.zero_add]

theorem coRunningTimeIn_cons (f : Frame) (frames : List Frame) (p q : Path) :
    coRunningTimeIn (f :: frames) p q =
      if f.active p = true ∧ f.active q = true then
        (if f.shows p = true ∧ f.shows q = true then f.period else 0) + coRunningTimeIn frames p q
      else 0 := by
  unfold coRunningTimeIn
  rw [List.takeWhile_cons]
  by_cases h : f.active p = true ∧ f.active q = true
  · rw [if_pos (by simp [h]), if_pos h, List.filter_cons]
    by_cases hshows : f.shows p = true ∧ f.shows q = true
    · rw [if_pos (by simp [hshows]), if_pos hshows, List.map_cons, List.sum_cons]
    · rw [if_neg (by simpa using hshows), if_neg hshows, Nat.zero_add]
  · rw [if_neg (by simpa using h), if_neg h]
    rfl

namespace Stores

/-- The running time stored for a path, `0` if there is none. -/
def runningTimeAt (s : Stores F16) (p : Path) : UInt64 :=
  ((s.exeAt p).map Exe.totalRunningTime).getD 0

def bothTimeAt (s : Stores F16) (p q : Path) : UInt64 :=
  ((s.edgeAt p q).map Edge.bothRunningTime).getD 0

theorem runningTimeAt_of_idByKey {s : Stores F16} {p : Path} {id : ExeId}
    (hid : s.exes.idByKey ⟨p⟩ = some id) : s.runningTimeAt p = s.runningTime id := by
  obtain ⟨e, he, hkey⟩ := ExeStore.idByKey_eq_some.1 hid
  rw [runningTimeAt, exeAt_eq_some.2 ⟨id, he, hkey⟩, runningTime_of_get? he]
  rfl

theorem bothTimeAt_of_idByKey {s : Stores F16} {p q : Path} {a b : ExeId}
    (ha : s.exes.idByKey ⟨p⟩ = some a) (hb : s.exes.idByKey ⟨q⟩ = some b) :
    s.bothTimeAt p q = s.bothTime a b := by
  rw [bothTimeAt, map_edgeAt ha hb, bothTime]

/-- Running times do not exceed the accounted time. -/
theorem Accounting.runningTimeAt_le {s : Stores F16} (h : s.Accounting) (p : Path) :
    (s.runningTimeAt p).toNat ≤ s.lastAccountingTime.toNat := by
  cases hid : s.exes.idByKey ⟨p⟩ with
  | none =>
      have hat : s.exeAt p = none := ExeStore.lookup_eq_none.2 hid
      rw [runningTimeAt, hat]
      exact Nat.zero_le _
  | some id =>
      rw [runningTimeAt_of_idByKey hid]
      exact UInt64.le_iff_toNat_le.1 (h.exe id)

theorem Accounting.bothTimeAt_le {s : Stores F16} (h : s.Accounting) (p q : Path) :
    (s.bothTimeAt p q).toNat ≤ s.lastAccountingTime.toNat := by
  cases ha : s.exes.idByKey ⟨p⟩ with
  | none =>
      rw [bothTimeAt, edgeAt, ha]
      exact Nat.zero_le _
  | some a =>
      cases hb : s.exes.idByKey ⟨q⟩ with
      | none =>
          rw [bothTimeAt, edgeAt, ha, hb]
          exact Nat.zero_le _
      | some b =>
          rw [bothTimeAt_of_idByKey ha hb]
          exact UInt64.le_iff_toNat_le.1 (UInt64.le_trans (h.both a b) (h.exe a))

end Stores

/-! ## One step -/

section Apply

variable [Float32Ops F32] {num : Numerics F16 F32} {u : DefaultModelUpdater F32} {ord : HashOrder}
  {s r : Stores F16} {obs : Observation} {policy : AdmissionPolicy}

/-- The frame of an observation. -/
def Frame.ofApply (s : Stores F16) (obs : Observation) (r : Stores F16) : Frame where
  period := (accountingPeriod s obs).toNat
  shows p := decide (obs.sees p)
  stored p := (r.exeAt p).isSome
  active p := (r.activeAt p).isSome

/-- A credit does not saturate, since every time is at most that of the last accounting. -/
theorem toNat_credit (htime : s.lastAccountingTime ≤ obs.time s.modelTime) {x : UInt64}
    (hx : x.toNat ≤ s.lastAccountingTime.toNat) :
    (satAdd x (accountingPeriod s obs)).toNat = (accountingPeriod s obs).toNat + x.toNat := by
  have hnow := (obs.time s.modelTime).toNat_lt
  rw [UInt64.le_iff_toNat_le] at htime
  rw [toNat_satAdd, accountingPeriod, toNat_satSub]
  omega

theorem ApplySpec.runningTimeAt (h : ApplySpec num u ord s obs policy r)
    (htime : s.lastAccountingTime ≤ obs.time s.modelTime) (hacc : s.Accounting) (p : Path) :
    (r.runningTimeAt p).toNat =
      (if (r.exeAt p).isSome = true ∧ obs.sees p then (accountingPeriod s obs).toNat else 0) +
        (s.runningTimeAt p).toNat := by
  cases hr : r.exeAt p with
  | none =>
      -- what is not stored afterwards was not stored before
      have hold : s.exeAt p = none := by
        rw [h.exeAt, Option.map_eq_none_iff] at hr
        split at hr
        · cases hr
        · exact hr
      simp [Stores.runningTimeAt, hr, hold]
  | some e =>
      obtain ⟨id, hid, hkey⟩ := Stores.exeAt_eq_some.1 hr
      have hold : s.runningTime id = s.runningTimeAt p := by
        have hadmitted := h.exes id
        rw [hid, eq_comm, Option.map_eq_some_iff] at hadmitted
        obtain ⟨e₀, he₀, rfl⟩ := hadmitted
        have hkey₀ : e₀.key.path = p := by
          rw [← Exe.settle_key, hkey]
        rw [(grows_admitted ord policy s obs).runningTime he₀, hkey₀]
        rfl
      have hsees : r.isRunning id = true ↔ obs.sees p := by
        rw [Stores.isRunning_of_get? hid, h.running_iff hid, hkey]
      rw [Stores.runningTimeAt_of_idByKey (ExeStore.idByKey_eq_some.2 ⟨e, hid, hkey⟩),
        h.runningTime, hold]
      by_cases hrun : r.isRunning id = true
      · rw [if_pos hrun, toNat_credit htime (hacc.runningTimeAt_le p),
          if_pos ⟨rfl, hsees.1 hrun⟩]
      · rw [if_neg hrun, if_neg fun hboth => hrun (hsees.2 hboth.2), Nat.zero_add]

/-- The co-running time of a pair goes on while both stay active, and starts at `0`. -/
theorem ApplySpec.bothTimeAt (h : ApplySpec num u ord s obs policy r) (hs : s.WF)
    (htime : s.lastAccountingTime ≤ obs.time s.modelTime) (hacc : s.Accounting) {p q : Path}
    (hne : p ≠ q) :
    (r.bothTimeAt p q).toNat =
      if (r.activeAt p).isSome = true ∧ (r.activeAt q).isSome = true then
        (if obs.sees p ∧ obs.sees q then (accountingPeriod s obs).toNat else 0) +
          (s.bothTimeAt p q).toNat
      else 0 := by
  by_cases hactive : (r.activeAt p).isSome = true ∧ (r.activeAt q).isSome = true
  · rw [if_pos hactive]
    obtain ⟨hp, hq⟩ := hactive
    obtain ⟨a, ha, hpa⟩ := Option.bind_eq_some_iff.1 (Option.some_get hp).symm
    obtain ⟨b, hb, hqb⟩ := Option.bind_eq_some_iff.1 (Option.some_get hq).symm
    have hab : a ≠ b := by
      rintro rfl
      exact hne (congrArg ExeKey.path (ExeStore.idByKey_inj ha hb))
    -- two active programs have an edge
    obtain ⟨e, he⟩ := h.edge_complete a b ((ActiveSet.mem_exes _ a).2 ⟨_, hpa⟩)
      ((ActiveSet.mem_exes _ b).2 ⟨_, hqb⟩) hab
    obtain ⟨-, -, hboth⟩ := h.bothRunningTime_origin he
    have hold : s.bothTime a b = s.bothTimeAt p q := by
      have hseen : (Edge.bothRunningTime ∘ Edge.seenFrom a b : Edge F16 → UInt64) =
          Edge.bothRunningTime :=
        funext (Edge.seenFrom_bothRunningTime a b)
      rw [Stores.bothTimeAt, h.old_edgeAt hs ha hb, Option.map_map, hseen, Stores.bothTime]
    have hsees : ∀ {id : ExeId} {path : Path}, r.exes.idByKey ⟨path⟩ = some id →
        (r.isRunning id = true ↔ obs.sees path) := by
      intro id path hid
      obtain ⟨e, he, hkey⟩ := ExeStore.idByKey_eq_some.1 hid
      rw [Stores.isRunning_of_get? he, h.running_iff he, hkey]
    rw [Stores.bothTimeAt_of_idByKey ha hb, Stores.bothTime_of_get? he, hboth, hold]
    by_cases hrun : r.isRunning a = true ∧ r.isRunning b = true
    · rw [if_pos hrun, toNat_credit htime (hacc.bothTimeAt_le p q),
        if_pos ⟨(hsees ha).1 hrun.1, (hsees hb).1 hrun.2⟩]
    · rw [if_neg hrun, if_neg fun hboth => hrun ⟨(hsees ha).2 hboth.1, (hsees hb).2 hboth.2⟩,
        Nat.zero_add]
  · rw [if_neg hactive]
    -- an edge is between active programs only
    have hnone : r.edgeAt p q = none := by
      rw [Option.eq_none_iff_forall_ne_some]
      intro e he
      obtain ⟨a, b, e₀, ha, hb, he₀, -⟩ := Stores.edgeAt_eq_some.1 he
      obtain ⟨hae, hbe⟩ := (EdgeKey.new_both (· ∈ r.active.exes) a b).1
        (h.edge_active (MarkovGraph.mem_keys_iff.2 ⟨e₀, he₀⟩))
      exact hactive ⟨(Stores.isSome_activeAt ha).2 hae, (Stores.isSome_activeAt hb).2 hbe⟩
    rw [Stores.bothTimeAt, hnone]
    rfl

end Apply

/-- The frame of a restart. -/
def Frame.ofRestart (t : Stores F16) : Frame where
  period := 0
  shows _ := false
  stored p := (t.exeAt p).isSome
  active p := (t.activeAt p).isSome

section Restart

variable {s t : Stores F16} {activeWindow : UInt64} (h : RestartSpec s activeWindow t)

include h

theorem RestartSpec.runningTimeAt (p : Path) : t.runningTimeAt p = s.runningTimeAt p := by
  rw [Stores.runningTimeAt, h.exeAt, Option.map_map]
  rfl

theorem RestartSpec.bothTimeAt (p q : Path) :
    t.bothTimeAt p q =
      if (t.activeAt p).isSome = true ∧ (t.activeAt q).isSome = true then s.bothTimeAt p q
      else 0 := by
  have hactive : ∀ path, (t.activeAt path).isSome = s.isRecentAt activeWindow path := by
    intro path
    rw [h.activeAt]
    cases s.isRecentAt activeWindow path <;> rfl
  rw [hactive, hactive, Stores.bothTimeAt, h.edgeAt, Option.map_map]
  by_cases hrecent : s.isRecentAt activeWindow p = true ∧ s.isRecentAt activeWindow q = true
  · rw [if_pos hrecent, Stores.bothTimeAt]
    cases s.edgeAt p q with
    | none => rfl
    | some e =>
        rw [Option.filter_some, if_pos (by simp [hrecent])]
        rfl
  · rw [if_neg hrecent]
    cases s.edgeAt p q with
    | none => rfl
    | some e =>
        rw [Option.filter_some, if_neg (by simpa using hrecent)]
        rfl

end Restart

/-! ## Along runs -/

/-- The stores with the frames so far, latest first. -/
structure Timeline (F16 : Type) where
  stores : Stores F16
  frames : List Frame

/-- The frame that an operation adds. -/
def StoresOp.frame (s s' : Stores F16) : StoresOp F32 → Option Frame
  | .apply _ _ _ obs => some (Frame.ofApply s obs s')
  | .restart _ _ _ => some (Frame.ofRestart s')
  | .advance _ => none
  | .removeMap _ => none

section Runs

variable [Float32Ops F32] (num : Numerics F16 F32)

def TimelineStep (s : Timeline F16) (op : StoresOp F32) (s' : Timeline F16) : Prop :=
  StoresStep num Nondecreasing s.stores op s'.stores ∧
    s'.frames = (op.frame s.stores s'.stores).toList ++ s.frames

/-- The times stored are those of the frames. -/
structure Timeline.Exact (s : Timeline F16) : Prop where
  accounted : s.stores.lastAccountingTime.toNat = (s.frames.map Frame.period).sum
  running : ∀ p, (s.stores.runningTimeAt p).toNat = runningTimeIn s.frames p
  both : ∀ p q, p ≠ q → (s.stores.bothTimeAt p q).toNat = coRunningTimeIn s.frames p q

/-- An observation adds its frame. -/
theorem exact_apply {num} {u : DefaultModelUpdater F32} {ord : HashOrder} {s r : Stores F16}
    {obs : Observation} {policy : AdmissionPolicy} {frames : List Frame}
    (h : ApplySpec num u ord s obs policy r) (hs : s.WF) (hacc : s.Accounting)
    (htime : s.lastAccountingTime ≤ obs.time s.modelTime) (ih : Timeline.Exact ⟨s, frames⟩) :
    Timeline.Exact ⟨r, Frame.ofApply s obs r :: frames⟩ where
  accounted := by
    have haccounted := ih.accounted
    have hperiod : (accountingPeriod s obs).toNat + s.lastAccountingTime.toNat =
        (obs.time s.modelTime).toNat := by
      rw [UInt64.le_iff_toNat_le] at htime
      rw [accountingPeriod, toNat_satSub]
      omega
    rw [List.map_cons, List.sum_cons, ← haccounted, h.lastAccountingTime]
    exact hperiod.symm
  running p := by
    rw [runningTimeIn_cons, ← ih.running p, h.runningTimeAt htime hacc p]
    simp [Frame.ofApply]
  both p q hne := by
    rw [coRunningTimeIn_cons, ← ih.both p q hne, h.bothTimeAt hs htime hacc hne]
    simp [Frame.ofApply]

theorem exact_restart {s t : Stores F16} {activeWindow : UInt64} {frames : List Frame}
    (h : RestartSpec s activeWindow t) (ih : Timeline.Exact ⟨s, frames⟩) :
    Timeline.Exact ⟨t, Frame.ofRestart t :: frames⟩ where
  accounted := by
    rw [h.lastAccountingTime, List.map_cons, List.sum_cons, ← ih.accounted]
    exact (Nat.zero_add _).symm
  running p := by
    rw [runningTimeIn_cons, ← ih.running p, h.runningTimeAt]
    simp [Frame.ofRestart]
  both p q hne := by
    rw [coRunningTimeIn_cons, ← ih.both p q hne, h.bothTimeAt]
    have hshows : ¬((Frame.ofRestart t).shows p = true ∧ (Frame.ofRestart t).shows q = true) := by
      simp [Frame.ofRestart]
    rw [if_neg hshows, Nat.zero_add]
    show _ = if (t.activeAt p).isSome = true ∧ (t.activeAt q).isSome = true then
      (s.bothTimeAt p q).toNat else 0
    split
    · rfl
    · rfl

theorem timelineStep_apply (u : DefaultModelUpdater F32) (ord : HashOrder)
    (policy : AdmissionPolicy) (obs : Observation) (s : Timeline F16)
    (htime : s.stores.lastAccountingTime ≤ obs.time s.stores.modelTime) :
    TimelineStep num s (.apply u ord policy obs)
      ⟨(u.apply num ord s.stores obs policy).1,
        Frame.ofApply s.stores obs (u.apply num ord s.stores obs policy).1 :: s.frames⟩ :=
  ⟨⟨htime, rfl⟩, rfl⟩

theorem timeline_reachable {s : Timeline F16} (h : Reachable (TimelineStep num) ⟨∅, []⟩ s) :
    StoresReachable num Nondecreasing s.stores := by
  refine h.invariant (I := fun s : Timeline F16 => StoresReachable num Nondecreasing s.stores) ?_ ?_
  · exact Reachable.refl
  · intro s op s' ih hstep
    exact ih.tail hstep.1

theorem exact_of_reachable {s : Timeline F16} (h : Reachable (TimelineStep num) ⟨∅, []⟩ s) :
    s.Exact := by
  refine h.invariant_of (J := fun s : Timeline F16 => StoresReachable num Nondecreasing s.stores)
    (I := Timeline.Exact) (fun _ => timeline_reachable num) ?_ ?_
  · exact ⟨rfl, fun _ => rfl, fun _ _ _ => rfl⟩
  · rintro ⟨s, frames⟩ op ⟨s', frames'⟩ hreach ih ⟨⟨htime, hexec⟩, hframes⟩
    have hs := wf_of_reachable num hreach
    have hacc := accounting_of_reachable num hreach
    obtain rfl : frames' = (op.frame s s').toList ++ frames := hframes
    cases op with
    | apply u ord policy obs =>
        obtain rfl := Except.ok.inj hexec
        exact exact_apply (apply_spec num u ord s obs policy) hs hacc htime ih
    | advance cycle =>
        obtain rfl := Except.ok.inj hexec
        exact ⟨ih.accounted, ih.running, ih.both⟩
    | removeMap key =>
        obtain rfl := Except.ok.inj hexec
        refine ⟨by simpa [StoresOp.frame] using ih.accounted, fun p => ?_, fun p q hne => ?_⟩
        · rw [Stores.runningTimeAt, Stores.exeAt, Stores.exes_removeMapByKey]
          exact ih.running p
        · rw [Stores.bothTimeAt, Stores.edgeAt, Stores.exes_removeMapByKey,
            Stores.markov_removeMapByKey]
          exact ih.both p q hne
    | restart ord createdAt activeWindow => exact exact_restart (restart_spec hexec hs) ih

end Runs

/-- Along every run at nondecreasing times the stored times are exact: the running time of an
    executable is the time of the observations that show it once it is stored, the co-running time of
    a pair that of the observations that show both since they are active together, and the periods of
    all observations add up to the accounted time. -/
theorem running_times_exact [Float32Ops F32] (num : Numerics F16 F32) {s : Timeline F16}
    (h : Reachable (TimelineStep num) ⟨∅, []⟩ s) :
    s.stores.lastAccountingTime.toNat = (s.frames.map Frame.period).sum ∧
      (∀ p e, s.stores.exeAt p = some e →
        e.totalRunningTime.toNat = runningTimeIn s.frames p) ∧
      ∀ p q e, s.stores.edgeAt p q = some e →
        e.bothRunningTime.toNat = coRunningTimeIn s.frames p q := by
  have hexact := exact_of_reachable num h
  refine ⟨hexact.accounted, fun p e he => ?_, fun p q e he => ?_⟩
  · rw [← hexact.running p, Stores.runningTimeAt, he]
    rfl
  · have hne : p ≠ q := by
      rintro rfl
      have hself := Stores.edgeAt_self (wf_of_reachable num (timeline_reachable num h)) p
      rw [hself] at he
      cases he
    rw [← hexact.both p q hne, Stores.bothTimeAt, he]
    rfl

/-- Two programs until `10`, one of them until `15`. -/
theorem running_times_exact_two_programs :
    ∃ s : Timeline ℚ, (runningTimeIn s.frames (Path.ofString "/bin/a") = 15 ∧
        runningTimeIn s.frames (Path.ofString "/bin/b") = 10 ∧
        coRunningTimeIn s.frames (Path.ofString "/bin/a") (Path.ofString "/bin/b") = 10) ∧
      s.stores.lastAccountingTime.toNat = (s.frames.map Frame.period).sum ∧
      (∀ p e, s.stores.exeAt p = some e →
        e.totalRunningTime.toNat = runningTimeIn s.frames p) ∧
      ∀ p q e, s.stores.edgeAt p q = some e →
        e.bothRunningTime.toNat = coRunningTimeIn s.frames p q := by
  let u : DefaultModelUpdater ℚ := ⟨100, 0⟩
  let both : Observation := .ofRunning 10 ["/bin/a", "/bin/b"]
  let one : Observation := .ofRunning 15 ["/bin/a"]
  let s₁ : Stores ℚ := (u.apply Numerics.rational .insertion ∅ both .permissive).1
  let t₁ : Timeline ℚ := ⟨s₁, [Frame.ofApply ∅ both s₁]⟩
  have htime : t₁.stores.lastAccountingTime ≤ one.time t₁.stores.modelTime := by decide +kernel
  have h₁ : Reachable (TimelineStep Numerics.rational) ⟨∅, []⟩ t₁ :=
    Reachable.refl.tail
      (timelineStep_apply Numerics.rational u .insertion .permissive both ⟨∅, []⟩ UInt64.zero_le)
  have h₂ := h₁.tail (timelineStep_apply Numerics.rational u .reverse .permissive one t₁ htime)
  exact ⟨_, by decide +kernel, running_times_exact Numerics.rational h₂⟩

end PreloadNg
