import PreloadNg.Engine.Accounting
import PreloadNg.Prediction.EdgeChain

set_option autoImplicit false

/-! # The first scan after a restart

Restored edges say that neither executable runs, so the first scan makes most of them take a
transition. It takes no time on the restored clocks, and such a transition leaves the statistics as
they are. -/

namespace PreloadNg

variable {K : Type} [Field K] [LinearOrder K] {num : Numerics K K}

/-! ## One edge -/

/-- A transition in the moment the state was entered and last left. -/
theorem Edge.updateState_at_once (hnum : num.StoresExactly) (hexp : num.fastExpNeg 0 = 1)
    {e : Edge K} {now : UInt64} (hchange : e.lastChangeTime = now)
    (hleft : e.stateLastLeft e.state.index = now) (newState : MarkovState) (decay : K) :
    (e.updateState num newState now decay).timeToLeave = e.timeToLeave ∧
      (e.updateState num newState now decay).transitionProb = e.transitionProb := by
  have hzero : num.fastExpNeg (-decay * u64AsF32 (satSub now now)) = 1 := by
    rw [satSub_self]
    simpa [u64AsF32] using hexp
  have hmixTt : e.mixTt num now decay = 1 := by rw [mixTt, hleft, hzero]
  have hmixTp : e.mixTp num now decay = 1 := by rw [mixTp, hchange, hzero]
  by_cases hstate : newState = e.state
  · rw [updateState, if_pos hstate]
    exact ⟨rfl, rfl⟩
  · constructor
    · funext i
      rw [timeToLeave_updateState num hstate, hnum.ofF32, nextTimeToLeave_eq hnum, hmixTt]
      simp
    · rw [transitionProb_updateState hnum hstate, hmixTp]
      simp

theorem advanceEdge_at_once (hnum : num.StoresExactly) (hexp : num.fastExpNeg 0 = 1)
    {e : Edge K} {now : UInt64} (hchange : e.lastChangeTime = now)
    (hleft : e.stateLastLeft e.state.index = now) (decay : K) (period : UInt64) (s : Stores K)
    (key : EdgeKey) :
    (advanceEdge num now decay period s key e).timeToLeave = e.timeToLeave ∧
      (advanceEdge num now decay period s key e).transitionProb = e.transitionProb := by
  unfold advanceEdge
  dsimp only
  split
  · let credited : Edge K := { e with bothRunningTime := satAdd e.bothRunningTime period }
    exact Edge.updateState_at_once hnum hexp (e := credited) hchange hleft _ decay
  · exact Edge.updateState_at_once hnum hexp hchange hleft _ decay

/-! ## The restored stores -/

section Restored

variable {snapshot : StoresSnapshot K} {activeWindow : UInt64} {t : Stores K}
  (h : RestoreSpec num snapshot activeWindow t)

include h

omit [Field K] [LinearOrder K] in
/-- Every clock of a restored edge shows the model time. -/
theorem RestoreSpec.edge_clocks {key : EdgeKey} {e : Edge K} (he : t.markov.get? key = some e) :
    e.lastChangeTime = t.modelTime ∧ ∀ i, e.stateLastLeft i = t.modelTime := by
  rw [h.markov, Option.filter_eq_some_iff, Option.map_eq_some_iff] at he
  obtain ⟨⟨r, -, rfl⟩, -⟩ := he
  rw [h.modelTime]
  exact ⟨rfl, fun _ => rfl⟩

omit [Field K] [LinearOrder K] in
/-- What is active after a restart was seen at the model time, so it stays active. -/
theorem RestoreSpec.staysActive {u : DefaultModelUpdater K} {obs : Observation}
    (htime : obs.time t.modelTime = t.modelTime) {id : ExeId} (hid : id ∈ t.active.exes) :
    StaysActive u obs t id := by
  obtain ⟨last, hlast⟩ := (ActiveSet.mem_exes _ id).1 hid
  have hsame : last = t.modelTime := by
    rw [h.active] at hlast
    split at hlast
    · rw [h.modelTime, Option.some.inj hlast]
    · exact absurd hlast (by simp)
  refine Or.inr ⟨last, hlast, ?_⟩
  rw [htime, hsame, satSub_self]
  exact UInt64.zero_le

end Restored

/-! ## The first scan -/

section FirstScan

variable {u : DefaultModelUpdater K} {ord : HashOrder} {t r : Stores K} {obs : Observation}
  {policy : AdmissionPolicy} (h : ApplySpec num u ord t obs policy r)

include h

/-- A scan at the model time credits at most the time since the last accounting. -/
theorem ApplySpec.runningTime_le (htime : obs.time t.modelTime = t.modelTime) (id : ExeId) :
    (r.runningTime id).toNat ≤
      (t.runningTime id).toNat + (t.modelTime.toNat - t.lastAccountingTime.toNat) := by
  rw [h.runningTime, accountingPeriod, htime]
  split
  · rw [toNat_satAdd, toNat_satSub]
    exact Nat.min_le_left _ _
  · exact Nat.le_add_right _ _

theorem ApplySpec.bothTime_le (htime : obs.time t.modelTime = t.modelTime) (a b : ExeId) :
    (r.bothTime a b).toNat ≤
      (t.bothTime a b).toNat + (t.modelTime.toNat - t.lastAccountingTime.toNat) := by
  cases hedge : r.markov.get? (EdgeKey.new a b) with
  | none =>
      rw [Stores.bothTime, hedge]
      exact Nat.zero_le _
  | some e =>
      obtain ⟨-, -, hboth⟩ := h.bothRunningTime_origin hedge
      rw [Stores.bothTime_of_get? hedge, hboth, accountingPeriod, htime]
      split
      · rw [toNat_satAdd, toNat_satSub]
        exact Nat.min_le_left _ _
      · exact Nat.le_add_right _ _

/-- A scan at the model time keeps every restored edge with its statistics. -/
theorem ApplySpec.edge_statistics (hnum : num.StoresExactly) (hexp : num.fastExpNeg 0 = 1)
    {snapshot : StoresSnapshot K} {activeWindow : UInt64}
    (ht : RestoreSpec num snapshot activeWindow t) (htime : obs.time t.modelTime = t.modelTime)
    {key : EdgeKey} {e : Edge K} (he : t.markov.get? key = some e) :
    ∃ e', r.markov.get? key = some e' ∧ e'.timeToLeave = e.timeToLeave ∧
      e'.transitionProb = e.transitionProb := by
  obtain ⟨ha, hb⟩ := (ht.edge_origin (MarkovGraph.mem_keys_iff.2 ⟨e, he⟩)).2
  have hstay : ∀ id, id ∈ t.active.exes → id ∈ r.active.exes :=
    fun id hid => h.mem_active_of_stays (ht.staysActive htime hid)
  have hget := h.edge_kept key e he (hstay _ ha) (hstay _ hb)
  rw [htime] at hget
  obtain ⟨hchange, hleft⟩ := ht.edge_clocks he
  exact ⟨_, hget, advanceEdge_at_once hnum hexp hchange (hleft _) _ _ _ _⟩

end FirstScan

/-- The first scan after a restart, at the restored model time, records no transition and credits
    at most the time since the last accounting. -/
theorem restart_records_no_transition (hnum : num.StoresExactly) (hexp : num.fastExpNeg 0 = 1)
    (ord : HashOrder) (createdAt : ℤ) (s : Stores K) (activeWindow : UInt64) :
    ∃ t : Stores K, storesFromSnapshot num (snapshotFromStores num ord createdAt s) activeWindow =
        .ok t ∧
      ∀ (u : DefaultModelUpdater K) (ord' : HashOrder) (obs : Observation)
        (policy : AdmissionPolicy), obs.time t.modelTime = t.modelTime →
        let r := (u.apply num ord' t obs policy).1
        (∀ key e, t.markov.get? key = some e → ∃ e', r.markov.get? key = some e' ∧
          e'.timeToLeave = e.timeToLeave ∧ e'.transitionProb = e.transitionProb) ∧
        (∀ id, (r.runningTime id).toNat ≤
          (t.runningTime id).toNat + (t.modelTime.toNat - t.lastAccountingTime.toNat)) ∧
        ∀ a b, (r.bothTime a b).toNat ≤
          (t.bothTime a b).toNat + (t.modelTime.toNat - t.lastAccountingTime.toNat) := by
  obtain ⟨t, ht⟩ := (storesFromSnapshot_isOk_iff num _ activeWindow).2
    (resolves_snapshot num ord createdAt s)
  refine ⟨t, ht, fun u ord' obs policy htime => ?_⟩
  have hrestored := restore_spec num _ activeWindow ht
  have happly := apply_spec num u ord' t obs policy
  exact ⟨fun key e he => happly.edge_statistics hnum hexp hrestored htime he,
    happly.runningTime_le htime, happly.bothTime_le htime⟩

/-- Two programs run when the stores are saved and when they are scanned again; before that one of them
    had stopped for a while. Their edge takes the transition from `neither` to `both` with the
    statistics that it has by then. -/
theorem restart_records_no_transition_pair :
    let num : Numerics ℚ ℚ := Numerics.exact ℚ (fun x => if x = 0 then 1 else 0) id 0 0
    let u : DefaultModelUpdater ℚ := ⟨100, 1⟩
    let scan (s : Stores ℚ) (time : UInt64) (programs : List String) : Stores ℚ :=
      (u.apply num .insertion s (.ofRunning time programs) .permissive).1
    let s : Stores ℚ := scan (scan (scan ∅ 10 ["/bin/a", "/bin/b"]) 20 ["/bin/a"]) 40
      ["/bin/a", "/bin/b"]
    ∃ t : Stores ℚ, storesFromSnapshot num (snapshotFromStores num .insertion 0 s) 100 = .ok t ∧
      (∃ key e, t.markov.get? key = some e ∧ (∃ i, e.timeToLeave i ≠ 0) ∧
        ∃ i j, e.transitionProb i j ≠ 0) ∧
      (∀ key e, t.markov.get? key = some e →
        ∃ e', (scan t 40 ["/bin/a", "/bin/b"]).markov.get? key = some e' ∧
          e'.timeToLeave = e.timeToLeave ∧ e'.transitionProb = e.transitionProb) ∧
      (∀ id, ((scan t 40 ["/bin/a", "/bin/b"]).runningTime id).toNat ≤
        (t.runningTime id).toNat + (t.modelTime.toNat - t.lastAccountingTime.toNat)) ∧
      ∀ a b, ((scan t 40 ["/bin/a", "/bin/b"]).bothTime a b).toNat ≤
        (t.bothTime a b).toNat + (t.modelTime.toNat - t.lastAccountingTime.toNat) := by
  intro num u scan s
  have hnum : num.StoresExactly := Numerics.storesExactly_exact _ _ _ _
  have hexp : num.fastExpNeg 0 = 1 := by decide
  obtain ⟨t, ht, hall⟩ := restart_records_no_transition hnum hexp .insertion 0 s 100
  have hrestored : (storesFromSnapshot num (snapshotFromStores num .insertion 0 s) 100).map
      (fun t : Stores ℚ => (t.modelTime, t.markov.keys.any fun key =>
        (t.markov.get? key).any fun e => decide (∃ i, e.timeToLeave i ≠ 0) &&
          decide (∃ i j, e.transitionProb i j ≠ 0))) = .ok (40, true) := by
    decide +kernel
  rw [ht] at hrestored
  obtain ⟨htime, hlearnt⟩ := Prod.mk.inj (Except.ok.inj hrestored)
  obtain ⟨key, -, hedge⟩ := List.any_eq_true.1 hlearnt
  obtain ⟨e, he, hboth⟩ := (Option.any_eq_true _ _).1 hedge
  obtain ⟨htimes, hprobs⟩ := (Bool.and_eq_true _ _).mp hboth
  refine ⟨t, ht, ⟨key, e, he, of_decide_eq_true htimes, of_decide_eq_true hprobs⟩,
    hall u .insertion (.ofRunning 40 ["/bin/a", "/bin/b"]) .permissive ?_⟩
  rw [htime]
  rfl

end PreloadNg
