import PreloadNg.Engine.ApplyByPath

set_option autoImplicit false

/-! # The active set across a restart

Restoring rebuilds the active set from `Exe.last_seen_time`, the time of the last admission, and
stamps its members with the model time. Along runs this is compared with the live active set, which
notes when an executable was last running. -/

namespace PreloadNg

variable {F16 F32 : Type} [Float32Ops F32] (num : Numerics F16 F32)

/-! ## Runs -/

/-- Applies with a fixed window at times that do not decrease, and advances of the model time. -/
def Timed (activeWindow : UInt64) (s : Stores F16) : StoresOp F32 → Prop
  | .apply u _ _ obs => u.activeWindow = activeWindow ∧ s.lastAccountingTime ≤ obs.time s.modelTime
  | .advance _ => True
  | .removeMap _ => False
  | .restart _ _ _ => False

/-- Moreover, an observation lists maps only for executables it lists as running. -/
def Observed (activeWindow : UInt64) (s : Stores F16) (op : StoresOp F32) : Prop :=
  Timed activeWindow s op ∧
    ∀ u ord policy obs, op = .apply u ord policy obs →
      ∀ p m, ObservationEvent.mapSeen p m ∈ obs → obs.sees p

/-- Moreover, a stored executable that runs is admitted. -/
def Admitting (activeWindow : UInt64) (s : Stores F16) (op : StoresOp F32) : Prop :=
  Observed activeWindow s op ∧
    ∀ u ord policy obs, op = .apply u ord policy obs →
      ∀ p e, s.exeAt p = some e → obs.sees p → Admits policy obs s.modelTime p

/-! ## Invariants -/

/-- Nothing was seen or admitted after the last accounting. -/
structure ActiveClock (s : Stores F16) : Prop where
  clock : s.lastAccountingTime ≤ s.modelTime
  seen_le : ∀ p last, s.activeAt p = some last → last ≤ s.lastAccountingTime
  admitted_le : ∀ p e l, s.exeAt p = some e → e.lastSeenTime = some l → l ≤ s.lastAccountingTime

/-- An executable admitted within the window before the last accounting is active since. -/
def AdmittedActive (activeWindow : UInt64) (s : Stores F16) : Prop :=
  ∀ p e l, s.exeAt p = some e → e.lastSeenTime = some l →
    l.toNat + activeWindow.toNat < s.lastAccountingTime.toNat ∨
      ∃ last, s.activeAt p = some last ∧ l ≤ last

/-- An active executable was admitted when it was last seen. -/
def ActiveAdmitted (s : Stores F16) : Prop :=
  ∀ p last, s.activeAt p = some last → ∃ e, s.exeAt p = some e ∧ e.lastSeenTime = some last

section Apply

variable {num} {u : DefaultModelUpdater F32} {ord : HashOrder} {s r : Stores F16}
  {obs : Observation} {policy : AdmissionPolicy} (h : ApplySpec num u ord s obs policy r)
  (hs : s.WF) (htime : s.lastAccountingTime ≤ obs.time s.modelTime)

include h hs htime

theorem activeClock_apply (ih : ActiveClock s) : ActiveClock r := by
  constructor
  · rw [h.modelTime, h.lastAccountingTime]
    exact UInt64.le_refl _
  · intro p last hlast
    rw [h.lastAccountingTime]
    rw [h.activeAt hs] at hlast
    split at hlast
    · obtain rfl := Option.some.inj hlast
      exact UInt64.le_refl _
    · rw [Option.filter_eq_some_iff] at hlast
      exact UInt64.le_trans (ih.seen_le p last hlast.1) htime
  · intro p e l he hl
    rw [h.lastAccountingTime]
    rcases (h.exeAt_cases he).2 with ⟨-, hnow⟩ | ⟨-, e₀, he₀, hsame⟩
    · obtain rfl := Option.some.inj (hnow.symm.trans hl)
      exact UInt64.le_refl _
    · exact UInt64.le_trans (ih.admitted_le p e₀ l he₀ (hsame ▸ hl)) htime

theorem admittedActive_apply (hobs : ∀ p m, ObservationEvent.mapSeen p m ∈ obs → obs.sees p)
    (hclock : ActiveClock s) (ih : AdmittedActive u.activeWindow s) :
    AdmittedActive u.activeWindow r := by
  intro p e l he hl
  obtain ⟨hrunning, hcases⟩ := h.exeAt_cases he
  have hle := (activeClock_apply h hs htime hclock).admitted_le p e l he hl
  rw [h.lastAccountingTime] at hle ⊢
  by_cases hrun : e.running = true
  · -- running: active as of now, and nothing was admitted later
    refine Or.inr ⟨obs.time s.modelTime, ?_, hle⟩
    rw [h.activeAt hs, he, Option.any_some, if_pos hrun]
  · rcases hcases with ⟨⟨c, hc, -⟩, -⟩ | ⟨-, e₀, he₀, hsame⟩
    · -- an admitted executable runs
      have hseen := (candidateOf_collect policy _ obs hc).seen
      have hsees : obs.sees p := hseen.elim (fun h => h) fun ⟨m, hm⟩ => hobs p m hm
      exact absurd (hrunning.2 hsees) hrun
    · rw [UInt64.le_iff_toNat_le] at htime
      rcases ih p e₀ l he₀ (hsame ▸ hl) with hold | ⟨last, hlast, hle'⟩
      · exact Or.inl (by omega)
      · by_cases hwithin : satSub (obs.time s.modelTime) last ≤ u.activeWindow
        · refine Or.inr ⟨last, ?_, hle'⟩
          rw [h.activeAt hs, he, Option.any_some, if_neg hrun, hlast, Option.filter_some,
            if_pos (decide_eq_true hwithin)]
        · rw [satSub_le_iff] at hwithin
          rw [UInt64.le_iff_toNat_le] at hle'
          exact Or.inl (by omega)

omit htime in
theorem activeAdmitted_apply (hobs : ∀ p m, ObservationEvent.mapSeen p m ∈ obs → obs.sees p)
    (hadmits : ∀ p e, s.exeAt p = some e → obs.sees p → Admits policy obs s.modelTime p)
    (ih : ActiveAdmitted s) : ActiveAdmitted r := by
  intro p last hlast
  rw [h.activeAt hs] at hlast
  split at hlast
  · next hrun =>
      obtain ⟨e, he, hrun⟩ := (Option.any_eq_true _ _).1 hrun
      obtain rfl := Option.some.inj hlast
      refine ⟨e, he, ?_⟩
      obtain ⟨hrunning, hcases⟩ := h.exeAt_cases he
      rcases hcases with ⟨-, hnow⟩ | ⟨hnot, e₀, he₀, -⟩
      · exact hnow
      · exact absurd (hadmits p e₀ he₀ (hrunning.1 hrun)) hnot
  · next hrun =>
      rw [Option.filter_eq_some_iff] at hlast
      obtain ⟨e₀, he₀, hl⟩ := ih p last hlast.1
      -- not running, hence not admitted: the time of the last admission is kept
      obtain ⟨id, hid⟩ : ∃ id, r.exes.idByKey ⟨p⟩ = some id := by
        obtain ⟨id, hid, hkey⟩ := Stores.exeAt_eq_some.1 he₀
        exact ⟨id, h.idByKey (hkey ▸ ExeStore.idByKey_of_get? hid)⟩
      obtain ⟨e, he, hkey⟩ := ExeStore.idByKey_eq_some.1 hid
      have he : r.exeAt p = some e := Stores.exeAt_eq_some.2 ⟨id, he, hkey⟩
      refine ⟨e, he, ?_⟩
      obtain ⟨hrunning, hcases⟩ := h.exeAt_cases he
      rcases hcases with ⟨⟨c, hc, -⟩, -⟩ | ⟨-, e₁, he₁, hsame⟩
      · have hseen := (candidateOf_collect policy _ obs hc).seen
        have hsees : obs.sees p := hseen.elim (fun h => h) fun ⟨m, hm⟩ => hobs p m hm
        rw [he, Option.any_some] at hrun
        exact absurd (hrunning.2 hsees) hrun
      · obtain rfl := Option.some.inj (he₁.symm.trans he₀)
        exact hsame.trans hl

end Apply

/-! ## Along runs -/

section Runs

variable {num} {activeWindow : UInt64} {s : Stores F16}

theorem activeClock_of_reachable (h : StoresReachable num (Timed activeWindow) s) :
    ActiveClock s := by
  refine h.invariant_of (J := Stores.WF) (I := ActiveClock) (fun _ => wf_of_reachable num) ?_ ?_
  · exact ⟨UInt64.le_refl _, by simp, by simp⟩
  · rintro s op s' hs ih ⟨hallowed, hexec⟩
    cases op with
    | restart => exact hallowed.elim
    | removeMap => exact hallowed.elim
    | advance cycle =>
        obtain rfl := Except.ok.inj hexec
        exact ⟨UInt64.le_trans ih.clock (le_satAdd _ _), ih.seen_le, ih.admitted_le⟩
    | apply u ord policy obs =>
        obtain rfl := Except.ok.inj hexec
        exact activeClock_apply (apply_spec num u ord s obs policy) hs hallowed.2 ih

theorem timed_of_observed (h : StoresReachable num (Observed activeWindow) s) :
    StoresReachable num (Timed activeWindow) s :=
  h.mono fun _ _ _ hstep => ⟨hstep.1.1, hstep.2⟩

theorem observed_of_admitting (h : StoresReachable num (Admitting activeWindow) s) :
    StoresReachable num (Observed activeWindow) s :=
  h.mono fun _ _ _ hstep => ⟨hstep.1.1, hstep.2⟩

theorem admittedActive_of_reachable (h : StoresReachable num (Observed activeWindow) s) :
    AdmittedActive activeWindow s := by
  refine h.invariant_of (J := fun s => s.WF ∧ ActiveClock s) (I := AdmittedActive activeWindow)
    (fun s hs => ⟨wf_of_reachable num hs, activeClock_of_reachable (timed_of_observed hs)⟩) ?_ ?_
  · intro p e l he
    exact absurd he (by simp)
  · rintro s op s' ⟨hs, hclock⟩ ih ⟨⟨htimed, hobs⟩, hexec⟩
    cases op with
    | restart => exact htimed.elim
    | removeMap => exact htimed.elim
    | advance cycle =>
        obtain rfl := Except.ok.inj hexec
        exact ih
    | apply u ord policy obs =>
        obtain rfl := Except.ok.inj hexec
        obtain ⟨rfl, htime⟩ := htimed
        exact admittedActive_apply (apply_spec num u ord s obs policy) hs htime
          (hobs u ord policy obs rfl) hclock ih

theorem activeAdmitted_of_reachable (h : StoresReachable num (Admitting activeWindow) s) :
    ActiveAdmitted s := by
  refine h.invariant_of (J := Stores.WF) (I := ActiveAdmitted)
    (fun _ => wf_of_reachable num) ?_ ?_
  · intro p last hlast
    exact absurd hlast (by simp)
  · rintro s op s' hs ih ⟨⟨⟨htimed, hobs⟩, hadmits⟩, hexec⟩
    cases op with
    | restart => exact htimed.elim
    | removeMap => exact htimed.elim
    | advance cycle =>
        obtain rfl := Except.ok.inj hexec
        exact ih
    | apply u ord policy obs =>
        obtain rfl := Except.ok.inj hexec
        exact activeAdmitted_apply (apply_spec num u ord s obs policy) hs
          (hobs u ord policy obs rfl) (hadmits u ord policy obs rfl) ih

end Runs

/-! ## Restarting -/

/-- Whether `prune(t, window)` keeps the executable of a path. -/
def Stores.keptAt (s : Stores F16) (t window : UInt64) (p : Path) : Prop :=
  ∃ id last, s.exes.idByKey ⟨p⟩ = some id ∧ (s.active.prune t window).1.seenAt id = some last

theorem Stores.keptAt_iff {s : Stores F16} {t window : UInt64} {p : Path} :
    s.keptAt t window p ↔
      ∃ last, s.activeAt p = some last ∧ t.toNat ≤ last.toNat + window.toNat := by
  simp only [keptAt, activeAt_eq_some, ActiveSet.seenAt_prune, Option.filter_eq_some_iff,
    decide_eq_true_eq, satSub_le_iff]
  constructor
  · rintro ⟨id, last, hid, hlast, hle⟩
    exact ⟨last, ⟨id, hid, hlast⟩, hle⟩
  · rintro ⟨last, ⟨id, hid, hlast⟩, hle⟩
    exact ⟨id, last, hid, hlast, hle⟩

theorem isRecentAt_iff {s : Stores F16} {activeWindow : UInt64} {p : Path} :
    s.isRecentAt activeWindow p = true ↔ ∃ e l, s.exeAt p = some e ∧ e.lastSeenTime = some l ∧
      s.modelTime.toNat ≤ l.toNat + activeWindow.toNat := by
  rw [Stores.isRecentAt, Option.any_eq_true]
  constructor
  · rintro ⟨e, he, hrecent⟩
    unfold Exe.isRecent at hrecent
    split at hrecent
    · next l hl =>
        rw [decide_eq_true_eq, satSub_le_iff] at hrecent
        exact ⟨e, l, he, hl, hrecent⟩
    · exact absurd hrecent (by simp)
  · rintro ⟨e, l, he, hl, hle⟩
    refine ⟨e, he, ?_⟩
    rw [Exe.isRecent, hl, decide_eq_true_eq, satSub_le_iff]
    exact hle

/-- How a restart rebuilds the active set. -/
structure ActiveSetRebuilt (activeWindow : UInt64) (s t : Stores F16) : Prop where
  /-- The members are the executables last admitted within the window before the model time. -/
  members : ∀ p, (∃ last, t.activeAt p = some last) ↔
    ∃ e l, s.exeAt p = some e ∧ e.lastSeenTime = some l ∧
      s.modelTime.toNat ≤ l.toNat + activeWindow.toNat
  /-- From then on they are all pruned together, a window after the model time. -/
  pruning : ∀ now p, t.keptAt now activeWindow p ↔
    (∃ last, t.activeAt p = some last) ∧ now.toNat ≤ s.modelTime.toNat + activeWindow.toNat
  /-- A member is not pruned before the old stores would prune it. -/
  not_sooner : ∀ now p, (∃ last, t.activeAt p = some last) →
    s.keptAt now activeWindow p → t.keptAt now activeWindow p

/-- The active set after a restart, compared with the one before. -/
theorem active_set_rebuilt {activeWindow : UInt64} {s : Stores F16}
    (h : StoresReachable num (Timed activeWindow) s) (ord : HashOrder) (createdAt : ℤ) :
    ∃ t : Stores F16,
      storesFromSnapshot num (snapshotFromStores num ord createdAt s) activeWindow = .ok t ∧
      ActiveSetRebuilt activeWindow s t ∧
      (StoresReachable num (Observed activeWindow) s → ∀ p, (∃ last, t.activeAt p = some last) →
        ∃ last, s.activeAt p = some last ∧
          s.modelTime.toNat ≤ last.toNat + activeWindow.toNat) ∧
      (StoresReachable num (Admitting activeWindow) s → ∀ p, (∃ last, t.activeAt p = some last) ↔
        ∃ last, s.activeAt p = some last ∧
          s.modelTime.toNat ≤ last.toNat + activeWindow.toNat) := by
  obtain ⟨t, ht⟩ := (storesFromSnapshot_isOk_iff num _ activeWindow).2
    (resolves_snapshot num ord createdAt s)
  have hspec := restart_spec ht (wf_of_reachable num h)
  have hclock := activeClock_of_reachable h
  have hmembers : ∀ p, (∃ last, t.activeAt p = some last) ↔
      s.isRecentAt activeWindow p = true := by
    intro p
    rw [hspec.activeAt]
    split <;> simp_all
  have hpruning : ∀ now p, t.keptAt now activeWindow p ↔ (∃ last, t.activeAt p = some last) ∧
      now.toNat ≤ s.modelTime.toNat + activeWindow.toNat := by
    intro now p
    rw [Stores.keptAt_iff, hspec.activeAt]
    split <;> simp
  have hrecent_active : StoresReachable num (Observed activeWindow) s → ∀ p,
      (∃ last, t.activeAt p = some last) → ∃ last, s.activeAt p = some last ∧
        s.modelTime.toNat ≤ last.toNat + activeWindow.toNat := by
    intro hobs p hp
    obtain ⟨e, l, he, hl, hle⟩ := isRecentAt_iff.1 ((hmembers p).1 hp)
    have hlast := hclock.clock
    rw [UInt64.le_iff_toNat_le] at hlast
    rcases admittedActive_of_reachable hobs p e l he hl with hold | ⟨last, hlast, hll⟩
    · omega
    · rw [UInt64.le_iff_toNat_le] at hll
      exact ⟨last, hlast, by omega⟩
  refine ⟨t, ht, ⟨?_, ?_, ?_⟩, hrecent_active, ?_⟩
  · exact fun p => (hmembers p).trans isRecentAt_iff
  · exact hpruning
  · intro now p hp hkept
    obtain ⟨last, hlast, hle⟩ := Stores.keptAt_iff.1 hkept
    refine (hpruning now p).2 ⟨hp, ?_⟩
    have hseen := UInt64.le_trans (hclock.seen_le p last hlast) hclock.clock
    rw [UInt64.le_iff_toNat_le] at hseen
    omega
  · intro hadmits p
    refine ⟨hrecent_active (observed_of_admitting hadmits) p, ?_⟩
    rintro ⟨last, hlast, hle⟩
    obtain ⟨e, he, hl⟩ := activeAdmitted_of_reachable hadmits p last hlast
    exact (hmembers p).2 (isRecentAt_iff.2 ⟨e, last, he, hl, hle⟩)

/-- A scan that lists `/bin/b` without maps, so that it is not admitted, and `/bin/c` with one. -/
def Observation.ofPartlyRead : Observation :=
  [.obsBegin 20 2, .exeSeen (Path.ofString "/bin/b") 1, .exeSeen (Path.ofString "/bin/c") 2,
   .mapSeen (Path.ofString "/bin/c") (MapSegment.new (Path.ofString "/lib/libc.so") 0 4096 20),
   .obsEnd 20 2 []]

/-- A restart after one scan; and one ten seconds after a second scan, when `/bin/a` has expired and
    `/bin/b` runs without having been admitted again. -/
theorem active_set_rebuilt_one_scan :
    let u : DefaultModelUpdater ℚ := ⟨15, 0⟩
    let policy := DefaultAdmissionPolicy.toPolicy ⟨0, [], [], false⟩ fun _ => none
    let first : Stores ℚ := (u.apply Numerics.rational .insertion ∅
      (.ofRunning 10 ["/bin/a", "/bin/b"]) .permissive).1
    let second : Stores ℚ :=
      ((u.apply Numerics.rational .insertion first .ofPartlyRead policy).1).advance 10
    (∃ t : Stores ℚ, storesFromSnapshot Numerics.rational
        (snapshotFromStores Numerics.rational .insertion 0 first) 15 = .ok t ∧
      first.active.exes.iter.length = 2 ∧ ActiveSetRebuilt 15 first t ∧
      ∀ p, (∃ last, t.activeAt p = some last) ↔
        ∃ last, first.activeAt p = some last ∧ first.modelTime.toNat ≤ last.toNat + 15) ∧
    ∃ t : Stores ℚ, storesFromSnapshot Numerics.rational
        (snapshotFromStores Numerics.rational .insertion 0 second) 15 = .ok t ∧
      second.active.exes.iter.length = 3 ∧ t.activeAt (Path.ofString "/bin/a") = none ∧
      t.activeAt (Path.ofString "/bin/b") = none ∧ t.activeAt (Path.ofString "/bin/c") = some 30 ∧
      ActiveSetRebuilt 15 second t ∧
      ∀ p, (∃ last, t.activeAt p = some last) →
        ∃ last, second.activeAt p = some last ∧ second.modelTime.toNat ≤ last.toNat + 15 := by
  intro u policy first second
  have hrunning : StoresStep Numerics.rational (Admitting 15) ∅
      (.apply u .insertion .permissive (.ofRunning 10 ["/bin/a", "/bin/b"])) first := by
    refine ⟨⟨⟨⟨rfl, by decide⟩, ?_⟩, ?_⟩, rfl⟩
    · rintro u ord policy obs ⟨⟩ p m hm
      exact Observation.sees_of_mapSeen_ofRunning hm
    · intro u ord policy obs _ p e he
      exact absurd he (by simp)
  have hadmitting : StoresReachable Numerics.rational (Admitting 15) first :=
    Reachable.refl.tail hrunning
  have hpartly : StoresStep Numerics.rational (Observed 15) first
      (.apply u .insertion policy .ofPartlyRead)
      (u.apply Numerics.rational .insertion first .ofPartlyRead policy).1 := by
    refine ⟨⟨⟨rfl, by decide +kernel⟩, ?_⟩, rfl⟩
    rintro u ord policy obs ⟨⟩ p m hm
    obtain ⟨rfl, -⟩ : p = Path.ofString "/bin/c" ∧
        m = MapSegment.new (Path.ofString "/lib/libc.so") 0 4096 20 := by
      simpa [Observation.ofPartlyRead] using hm
    decide +kernel
  have hobserved : StoresReachable Numerics.rational (Observed 15) second :=
    ((observed_of_admitting hadmitting).tail hpartly).tail (i := .advance 10)
      ⟨⟨trivial, fun _ _ _ _ heq => by cases heq⟩, rfl⟩
  obtain ⟨t, ht, hrebuilt, -, hsame⟩ := active_set_rebuilt Numerics.rational
    (timed_of_observed (observed_of_admitting hadmitting)) .insertion 0
  obtain ⟨t', ht', hrebuilt', hactive, -⟩ := active_set_rebuilt Numerics.rational
    (timed_of_observed hobserved) .insertion 0
  have hspec := restart_spec ht' (wf_of_reachable _ hobserved)
  refine ⟨⟨t, ht, by decide +kernel, hrebuilt, hsame hadmitting⟩, t', ht', by decide +kernel,
    ?_, ?_, ?_, hrebuilt', hactive hobserved⟩
  · rw [hspec.activeAt]
    decide +kernel
  · rw [hspec.activeAt]
    decide +kernel
  · rw [hspec.activeAt]
    decide +kernel

/-- An executable that runs on without being admitted again leaves the active set at a restart, and
    one that no longer runs is kept longer after a restart than without. -/
theorem active_set_not_kept :
    (∃ s t : Stores ℚ, StoresReachable Numerics.rational (Timed 5) s ∧
      storesFromSnapshot Numerics.rational
        (snapshotFromStores Numerics.rational .insertion 0 s) 5 = .ok t ∧
      ¬ ∀ p, (∃ last, t.activeAt p = some last) ↔
        ∃ last, s.activeAt p = some last ∧ s.modelTime.toNat ≤ last.toNat + 5) ∧
    (∃ s t : Stores ℚ, StoresReachable Numerics.rational (Timed 100) s ∧
      storesFromSnapshot Numerics.rational
        (snapshotFromStores Numerics.rational .insertion 0 s) 100 = .ok t ∧
      ¬ ∀ now, s.modelTime ≤ now → ∀ p, t.keptAt now 100 p ↔ s.keptAt now 100 p) := by
  constructor
  · -- at `20` the maps of the program cannot be read, so it runs but is not admitted
    let u : DefaultModelUpdater ℚ := ⟨5, 0⟩
    let s₁ : Stores ℚ := (u.apply Numerics.rational .insertion ∅
      (.ofRunning 10 ["/bin/a"]) .permissive).1
    let obs : Observation := [.obsBegin 20 2, .exeSeen (Path.ofString "/bin/a") 1, .obsEnd 20 2 []]
    let policy := DefaultAdmissionPolicy.toPolicy ⟨0, [], [], false⟩ fun _ => none
    let s₂ : Stores ℚ := (u.apply Numerics.rational .insertion s₁ obs policy).1
    have hfirst : StoresReachable Numerics.rational (Timed 5) s₁ :=
      Reachable.refl.tail (i := .apply u .insertion .permissive (.ofRunning 10 ["/bin/a"]))
        ⟨⟨rfl, by decide⟩, rfl⟩
    have hreach : StoresReachable Numerics.rational (Timed 5) s₂ :=
      hfirst.tail (i := .apply u .insertion policy obs) ⟨⟨rfl, by decide +kernel⟩, rfl⟩
    obtain ⟨t, ht⟩ := (storesFromSnapshot_isOk_iff Numerics.rational _ 5).2
      (resolves_snapshot Numerics.rational .insertion 0 s₂)
    refine ⟨s₂, t, hreach, ht, fun hall => ?_⟩
    have hactive : s₂.activeAt (Path.ofString "/bin/a") = some 20 := by decide +kernel
    have htime : s₂.modelTime = 20 := by decide +kernel
    have hstale : s₂.isRecentAt 5 (Path.ofString "/bin/a") = false := by decide +kernel
    obtain ⟨last, hlast⟩ := (hall _).2 ⟨20, hactive, by rw [htime]; decide⟩
    rw [(restart_spec ht (wf_of_reachable _ hreach)).activeAt, hstale] at hlast
    exact absurd hlast (by simp)
  · let u : DefaultModelUpdater ℚ := ⟨100, 0⟩
    let s₁ : Stores ℚ := (u.apply Numerics.rational .insertion ∅
      (.ofRunning 10 ["/bin/a"]) .permissive).1
    have hfirst : StoresReachable Numerics.rational (Timed 100) s₁ :=
      Reachable.refl.tail (i := .apply u .insertion .permissive (.ofRunning 10 ["/bin/a"]))
        ⟨⟨rfl, by decide⟩, rfl⟩
    have hreach : StoresReachable Numerics.rational (Timed 100) (s₁.advance 20) :=
      hfirst.tail (i := .advance 20) ⟨trivial, rfl⟩
    obtain ⟨t, ht⟩ := (storesFromSnapshot_isOk_iff Numerics.rational _ 100).2
      (resolves_snapshot Numerics.rational .insertion 0 (s₁.advance 20))
    refine ⟨s₁.advance 20, t, hreach, ht, fun hall => ?_⟩
    have hactive : (s₁.advance 20).activeAt (Path.ofString "/bin/a") = some 10 := by
      decide +kernel
    have htime : (s₁.advance 20).modelTime = 30 := by decide +kernel
    have hrecent : (s₁.advance 20).isRecentAt 100 (Path.ofString "/bin/a") = true := by
      decide +kernel
    have hkept : t.keptAt 115 100 (Path.ofString "/bin/a") := by
      rw [Stores.keptAt_iff, (restart_spec ht (wf_of_reachable _ hreach)).activeAt, hrecent, htime]
      exact ⟨30, rfl, by decide⟩
    obtain ⟨last, hlast, hle⟩ := Stores.keptAt_iff.1
      ((hall 115 (by rw [htime]; decide) _).1 hkept)
    obtain rfl := Option.some.inj (hactive.symm.trans hlast)
    exact absurd hle (by decide)

end PreloadNg
