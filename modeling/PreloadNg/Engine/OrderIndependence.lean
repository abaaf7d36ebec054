import PreloadNg.Engine.EdgesByPath
import PreloadNg.Prediction.ScoresByPath

set_option autoImplicit false

/-! # Order of discovery

Two runs whose observations list the same events in different orders give ids in different orders,
create edges from different sides and keep different sightings of a map. In exact arithmetic nothing
else differs: by path the two stores agree, and the predictor gives the same scores. -/

namespace PreloadNg

/-! ## Observations that list the same events -/

/-- The decision depends on the path, on the total size and on whether maps were accepted and
    rejected. -/
def AdmissionPolicy.DecidesBySummary (policy : AdmissionPolicy) : Prop :=
  ∀ c c' : CandidateExe, c.path = c'.path → c.totalSize = c'.totalSize →
    c.maps.isEmpty = c'.maps.isEmpty → c.rejectedMaps.isEmpty = c'.rejectedMaps.isEmpty →
    policy.decide c = policy.decide c'

/-- The default policy decides that way, whatever its cache returns for each path. -/
theorem DefaultAdmissionPolicy.decidesBySummary (p : DefaultAdmissionPolicy)
    (cached : Path → Option RejectReason) : (p.toPolicy cached).DecidesBySummary := by
  intro c c' hpath hsize hmaps hrejected
  simp only [toPolicy, decide, decideUncached, hpath, hsize, hmaps, hrejected]

theorem satAdd_right_comm (a b c : UInt64) : satAdd (satAdd a b) c = satAdd (satAdd a c) b := by
  rw [← UInt64.toNat_inj]
  simp only [toNat_satAdd]
  omega

section Perm

variable {policy : AdmissionPolicy} {obs obs' : Observation} (h : obs.Perm obs')

include h

theorem sees_of_perm (p : Path) : obs.sees p ↔ obs'.sees p :=
  exists_congr fun _ => h.mem_iff

/-- The candidates of a path have the same summary. -/
theorem candidate_of_perm {t t' : UInt64} {p : Path} {c : CandidateExe}
    (hc : (collect policy t obs).candidates.get? p = some c) :
    ∃ c', (collect policy t' obs').candidates.get? p = some c' ∧ c.path = c'.path ∧
      c.totalSize = c'.totalSize ∧ c.maps.isEmpty = c'.maps.isEmpty ∧
      c.rejectedMaps.isEmpty = c'.rejectedMaps.isEmpty := by
  rw [candidate_collect, Option.map_eq_some_iff] at hc
  obtain ⟨pid, hpid, rfl⟩ := hc
  have hseen : (obs'.pidOf p).isSome := by
    have hsome := Observation.isSome_pidOf.1 (Option.isSome_of_mem hpid)
    rw [Observation.isSome_pidOf, ← sees_of_perm h]
    exact hsome.imp id (Exists.imp fun _ => h.mem_iff.1)
  obtain ⟨pid', hpid'⟩ := Option.isSome_iff_exists.1 hseen
  have hmaps : (obs.mapsOf p).Perm (obs'.mapsOf p) := h.filterMap _
  refine ⟨(CandidateExe.new p pid').addMaps policy (obs'.mapsOf p), ?_, ?_, ?_, ?_, ?_⟩
  · rw [candidate_collect, hpid', Option.map_some]
  · simp only [CandidateExe.addMaps_path]
    rfl
  · rw [CandidateExe.addMaps_totalSize, CandidateExe.addMaps_totalSize]
    exact (hmaps.filter _).foldl_eq' (fun x _ y _ z => satAdd_right_comm z x.length y.length) 0
  · rw [CandidateExe.addMaps_maps, CandidateExe.addMaps_maps]
    exact (hmaps.filter _).isEmpty_eq
  · rw [CandidateExe.addMaps_rejectedMaps, CandidateExe.addMaps_rejectedMaps]
    exact ((hmaps.filter _).map _).isEmpty_eq

theorem admits_of_perm (hpolicy : policy.DecidesBySummary) {t t' : UInt64} {p : Path}
    (hadmits : Admits policy obs t p) : Admits policy obs' t' p := by
  obtain ⟨c, hc, k, hk⟩ := hadmits
  obtain ⟨c', hc', hpath, hsize, hmaps, hrejected⟩ := candidate_of_perm h hc
  exact ⟨c', hc', k, (hpolicy c c' hpath hsize hmaps hrejected).symm.trans hk⟩

theorem admits_iff_of_perm (hpolicy : policy.DecidesBySummary) (t t' : UInt64) (p : Path) :
    Admits policy obs t p ↔ Admits policy obs' t' p :=
  ⟨admits_of_perm h hpolicy, admits_of_perm h.symm hpolicy⟩

theorem admittedMap_iff_of_perm (hpolicy : policy.DecidesBySummary) (t t' : UInt64)
    (m : MapSegment) : AdmittedMap policy obs t m ↔ AdmittedMap policy obs' t' m :=
  exists_congr fun p => and_congr (admits_iff_of_perm h hpolicy t t' p)
    (and_congr_left fun _ => h.mem_iff)

end Perm

/-! ## One `apply` -/

/-- An executable is settled by whether its own path runs. -/
theorem Exe.settle_congr {runningPaths runningPaths' : FxHashSet Path} (now period : UInt64)
    (e : Exe) (h : e.key.path ∈ runningPaths ↔ e.key.path ∈ runningPaths') :
    e.settle now runningPaths period = e.settle now runningPaths' period := by
  unfold Exe.settle Exe.refresh
  rw [decide_eq_decide.2 h]

section Step

variable {F16 K : Type} [Field K] [LinearOrder K] {num : Numerics F16 K}
  {u : DefaultModelUpdater K} {ord ord' : HashOrder} {s t r r' : Stores F16}
  {obs obs' : Observation} {policy : AdmissionPolicy}

/-- Stores that agree by path still do after the same events in another order. -/
theorem agreesByPath_apply (hexp : num.fastExpNeg 0 = 1) (hzero : num.toF32 num.zero = 0)
    (hpolicy : policy.DecidesBySummary) (hperm : obs.Perm obs')
    (htime : ∀ modelTime, obs.time modelTime = obs'.time modelTime) (hagree : s.AgreesByPath t)
    (hs : s.WF) (ht : t.WF) (h : ApplySpec num u ord s obs policy r)
    (h' : ApplySpec num u ord' t obs' policy r') : r.AgreesByPath r' := by
  have hnow : obs.time s.modelTime = obs'.time t.modelTime := by
    rw [htime, hagree.modelTime]
  have hperiod : accountingPeriod s obs = accountingPeriod t obs' := by
    rw [accountingPeriod, hnow, hagree.lastAccountingTime, accountingPeriod]
  have hadmits := admits_iff_of_perm hperm hpolicy s.modelTime t.modelTime
  -- a program is settled alike where it is seen alike
  have hexe : ∀ p, r.exeAt p = r'.exeAt p := by
    intro p
    rw [h.exeAt, h'.exeAt, if_congr (hadmits p) rfl rfl, hagree.exeAt, hnow, hperiod]
    refine congrArg (Option.map · _) (funext fun e => Exe.settle_congr _ _ e ?_)
    rw [mem_runningPaths, mem_runningPaths, sees_of_perm hperm]
  have hactive : ∀ p, r.activeAt p = r'.activeAt p := by
    intro p
    rw [h.activeAt hs, h'.activeAt ht, hexe, hagree.activeAt, hnow]
  refine ⟨?_, ?_, hexe, ?_, ?_, hactive, ?_⟩
  · rw [h.modelTime, h'.modelTime, hnow]
  · rw [h.lastAccountingTime, h'.lastAccountingTime, hnow]
  · intro key
    rw [h.mapAt_eq_none, h'.mapAt_eq_none, hagree.mapAt]
    simp only [admittedMap_iff_of_perm hperm hpolicy s.modelTime t.modelTime]
  · intro p key
    rw [h.relAt hs, h'.relAt ht, hagree.relAt, hadmits]
    simp only [hperm.mem_iff]
  · intro p q
    -- no program has an edge with itself
    by_cases hne : p = q
    · subst hne
      rw [Stores.edgeAt_self (h.wf hs), Stores.edgeAt_self (h'.wf ht)]
    · have hruns : ∀ p, r.runsAt p = r'.runsAt p := fun p => by
        rw [Stores.runsAt, hexe, Stores.runsAt]
      rw [h.edgeAt hs hexp hzero hne, h'.edgeAt ht hexp hzero hne, hactive, hactive, hagree.edgeAt,
        hruns, hruns, hnow, hperiod]

end Step

/-! ## Runs -/

/-- An observation to apply, with the updater and the policy in force and the orders in which the
    hash tables are enumerated. -/
structure ModelStep (F32 : Type) where
  updater : DefaultModelUpdater F32
  ord : HashOrder
  obs : Observation
  policy : AdmissionPolicy

/-- The same observation in another order, with any enumeration orders. -/
structure ModelStep.Reorders {F32 : Type} (a b : ModelStep F32) : Prop where
  updater : a.updater = b.updater
  policy : a.policy = b.policy
  decides : a.policy.DecidesBySummary
  perm : a.obs.Perm b.obs
  time : ∀ modelTime, a.obs.time modelTime = b.obs.time modelTime

section Runs

variable {F16 F32 : Type} [Float32Ops F32] (num : Numerics F16 F32)

def ModelStep.exec (s : Stores F16) (step : ModelStep F32) : Stores F16 :=
  (step.updater.apply num step.ord s step.obs step.policy).1

/-- The stores after some observations, from the empty stores. -/
def applyAll (steps : List (ModelStep F32)) : Stores F16 := steps.foldl (ModelStep.exec num) ∅

theorem ModelStep.exec_spec (s : Stores F16) (step : ModelStep F32) :
    ApplySpec num step.updater step.ord s step.obs step.policy (step.exec num s) :=
  apply_spec num step.updater step.ord s step.obs step.policy

theorem wf_applyAll (steps : List (ModelStep F32)) : (applyAll num steps).WF := by
  have hfold : ∀ (s : Stores F16), s.WF → (steps.foldl (ModelStep.exec num) s).WF := by
    induction steps with
    | nil => exact fun s hs => hs
    | cons step rest ih => exact fun s hs => ih _ ((step.exec_spec num s).wf hs)
  exact hfold ∅ Stores.wf_empty

end Runs

/-- The runs stay in step, observation by observation. -/
theorem agreesByPath_applyAll {F16 K : Type} [Field K] [LinearOrder K] {num : Numerics F16 K}
    (hexp : num.fastExpNeg 0 = 1) (hzero : num.toF32 num.zero = 0) {steps steps' : List (ModelStep K)}
    (h : List.Forall₂ ModelStep.Reorders steps steps') :
    (applyAll num steps).AgreesByPath (applyAll num steps') := by
  have hfold : ∀ s t : Stores F16, s.AgreesByPath t → s.WF → t.WF →
      (steps.foldl (ModelStep.exec num) s).AgreesByPath
        (steps'.foldl (ModelStep.exec num) t) := by
    induction h with
    | nil => exact fun s t hagree _ _ => hagree
    | @cons a b _ _ hstep _ ih =>
        intro s t hagree hs ht
        have hspec := a.exec_spec num s
        have hspec' := b.exec_spec num t
        have hwf' := hspec'.wf ht
        rw [← hstep.updater, ← hstep.policy] at hspec'
        have hnext := agreesByPath_apply hexp hzero hstep.decides hstep.perm hstep.time hagree hs ht
          hspec hspec'
        exact ih _ _ hnext (hspec.wf hs) hwf'
  exact hfold ∅ ∅ (Stores.AgreesByPath.refl ∅) Stores.wf_empty Stores.wf_empty

/-- Neither the order of discovery nor that of the hash tables shows, by path, in the stores or in
    the scores. -/
theorem model_order_independent (K : Type) [Field K] [LinearOrder K] [IsStrictOrderedRing K]
    (e sqrt : K → K) (he : e 0 = 1) (minPositive minScore : K) (steps steps' : List (ModelStep K))
    (h : List.Forall₂ ModelStep.Reorders steps steps') :
    let num := Numerics.exact K e sqrt minPositive minScore
    let s := applyAll num steps
    let t := applyAll num steps'
    s.AgreesByPath t ∧
      ∀ (predictor : MarkovPredictor K) (ord ord' : HashOrder),
        (∀ p, (predictor.predict num ord s).exeScoreAt s p =
          (predictor.predict num ord' t).exeScoreAt t p) ∧
        ∀ key, (predictor.predict num ord s).mapScoreAt s key =
          (predictor.predict num ord' t).mapScoreAt t key := by
  intro num s t
  have hagree : s.AgreesByPath t := agreesByPath_applyAll he rfl h
  have hs : s.Linked := (wf_applyAll num steps).linked
  have ht : t.Linked := (wf_applyAll num steps').linked
  refine ⟨hagree, fun predictor ord ord' => ⟨fun p => ?_, fun key => ?_⟩⟩
  · exact hagree.exeScoreAt num predictor hs ht ord ord' p
  · exact hagree.mapScoreAt num predictor hs ht ord ord' key

/-- Two programs found in either order: the scores agree, though the first id goes to a different
    one. -/
theorem model_order_independent_two_programs :
    let num := Numerics.rational
    let policy : AdmissionPolicy := (DefaultAdmissionPolicy.mk 0 [] [] false).toPolicy fun _ => none
    let step : List String → ModelStep ℚ := fun programs =>
      ⟨⟨1, 10⟩, .insertion, .ofRunning 10 programs, policy⟩
    let s := applyAll num [step ["/bin/a", "/bin/b"]]
    let t := applyAll num [step ["/bin/b", "/bin/a"]]
    s.exes.idByKey ⟨Path.ofString "/bin/a"⟩ ≠ t.exes.idByKey ⟨Path.ofString "/bin/a"⟩ ∧
      s.AgreesByPath t ∧
      ∀ (predictor : MarkovPredictor ℚ) (ord ord' : HashOrder),
        (∀ p, (predictor.predict num ord s).exeScoreAt s p =
          (predictor.predict num ord' t).exeScoreAt t p) ∧
        ∀ key, (predictor.predict num ord s).mapScoreAt s key =
          (predictor.predict num ord' t).mapScoreAt t key := by
  refine ⟨by decide +kernel, model_order_independent ℚ (fun _ => 1) id rfl 0 0 _ _ ?_⟩
  have hdecides := DefaultAdmissionPolicy.decidesBySummary ⟨0, [], [], false⟩ fun _ => none
  refine .cons ⟨rfl, rfl, hdecides, ?_, ?_⟩ .nil
  · decide +kernel
  · intro modelTime
    rw [Observation.time_ofRunning, Observation.time_ofRunning]

end PreloadNg
