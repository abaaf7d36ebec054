import PreloadNg.Engine.ApplyByPath

set_option autoImplicit false

/-! # Running times

What each operation does to the running time of an executable and to the co-running time of a pair,
and the bounds that every operation keeps. -/

namespace PreloadNg

variable {F16 F32 : Type}

namespace Stores

/-- The co-running time of a pair, `0` without an edge. -/
def bothTime (s : Stores F16) (a b : ExeId) : UInt64 :=
  ((s.markov.get? (EdgeKey.new a b)).map Edge.bothRunningTime).getD 0

theorem bothTime_comm (s : Stores F16) (a b : ExeId) : s.bothTime a b = s.bothTime b a := by
  rw [bothTime, bothTime, EdgeKey.new_comm]

theorem bothTime_of_get? {s : Stores F16} {a b : ExeId} {e : Edge F16}
    (h : s.markov.get? (EdgeKey.new a b) = some e) : s.bothTime a b = e.bothRunningTime := by
  simp [bothTime, h]

/-- The co-running time of two paths is that of their ids. -/
theorem map_edgeAt {s : Stores F16} {p q : Path} {a b : ExeId}
    (ha : s.exes.idByKey ⟨p⟩ = some a) (hb : s.exes.idByKey ⟨q⟩ = some b) :
    (s.edgeAt p q).map Edge.bothRunningTime =
      (s.markov.get? (EdgeKey.new a b)).map Edge.bothRunningTime := by
  rw [edgeAt, ha, hb, Option.bind_some, Option.bind_some, Option.map_map]
  refine congrArg (fun f => Option.map f _) ?_
  funext e
  exact Edge.seenFrom_bothRunningTime a b e

/-- Running times stay below the clocks, co-running times below running times. -/
structure Accounting (s : Stores F16) : Prop where
  clock : s.lastAccountingTime ≤ s.modelTime
  exe : ∀ id, s.runningTime id ≤ s.lastAccountingTime
  both : ∀ a b, s.bothTime a b ≤ s.runningTime a

theorem accounting_empty : (∅ : Stores F16).Accounting where
  clock := UInt64.le_refl _
  exe _ := UInt64.le_refl _
  both _ _ := UInt64.le_refl _

/-- The bounds depend on the executables, the edges and the clocks alone. -/
theorem Accounting.congr {s t : Stores F16} (h : s.Accounting) (hexes : t.exes = s.exes)
    (hmarkov : t.markov = s.markov) (hlast : t.lastAccountingTime = s.lastAccountingTime)
    (hmodel : s.modelTime ≤ t.modelTime) : t.Accounting where
  clock := by
    rw [hlast]
    exact UInt64.le_trans h.clock hmodel
  exe id := by
    rw [hlast, runningTime, hexes]
    exact h.exe id
  both a b := by
    rw [bothTime, runningTime, hmarkov, hexes]
    exact h.both a b

end Stores

/-! ## `apply` -/

/-- The running time an id had before the stores grew, read by its path. -/
theorem Grows.runningTime {s t : Stores F16} (h : Grows s t) {id : ExeId} {e : Exe}
    (he : t.exes.get? id = some e) :
    s.runningTime id = ((s.exeAt e.key.path).map Exe.totalRunningTime).getD 0 := by
  cases hs : s.exeAt e.key.path with
  | some e₀ =>
      obtain ⟨id₀, hid₀, hkey⟩ := Stores.exeAt_eq_some.1 hs
      have hsame := h.exes e₀.key id₀ (ExeStore.idByKey_of_get? hid₀)
      obtain rfl : id₀ = id := by
        rw [hkey] at hsame
        exact Option.some.inj (hsame.symm.trans (ExeStore.idByKey_of_get? he))
      exact Stores.runningTime_of_get? hid₀
  | none =>
      have hold : s.exes.get? id = none := by
        rw [Option.eq_none_iff_forall_ne_some]
        intro e₀ he₀
        have hkey := ExeStore.idByKey_inj (h.exes _ id (ExeStore.idByKey_of_get? he₀))
          (ExeStore.idByKey_of_get? he)
        exact absurd (hs.symm.trans (Stores.exeAt_eq_some.2 ⟨id, he₀, hkey⟩)) (by simp)
      simp [Stores.runningTime, hold]

/-- Admission does not change running times. -/
theorem runningTime_admitted (ord : HashOrder) (policy : AdmissionPolicy) (s : Stores F16)
    (obs : Observation) (id : ExeId) :
    (admitted ord policy s obs).runningTime id = s.runningTime id := by
  have hgrows := grows_admitted ord policy s obs
  cases hget : (admitted ord policy s obs).exes.get? id with
  | none =>
      have hold : s.exes.get? id = none := by
        rw [Option.eq_none_iff_forall_ne_some]
        intro e he
        obtain ⟨e', he', -⟩ := ExeStore.idByKey_eq_some.1
          (hgrows.exes _ id (ExeStore.idByKey_of_get? he))
        exact absurd (hget.symm.trans he') (by simp)
      simp [Stores.runningTime, hget, hold]
  | some e =>
      have hat : (admitted ord policy s obs).exeAt e.key.path = some e :=
        Stores.exeAt_eq_some.2 ⟨id, hget, rfl⟩
      rw [Stores.runningTime_of_get? hget, hgrows.runningTime hget]
      rw [exeAt_admitted] at hat
      split at hat
      · rw [← congrArg Exe.totalRunningTime (Option.some.inj hat)]
        cases s.exeAt e.key.path <;> rfl
      · rw [hat]
        rfl

section Apply

variable [Float32Ops F32] {num : Numerics F16 F32}

theorem advanceEdge_bothRunningTime (now : UInt64) (decay : F32) (period : UInt64)
    (s : Stores F16) (key : EdgeKey) (e : Edge F16) :
    (advanceEdge num now decay period s key e).bothRunningTime =
      if s.isRunning key.a = true ∧ s.isRunning key.b = true then satAdd e.bothRunningTime period
      else e.bothRunningTime := by
  unfold advanceEdge
  rw [Edge.updateState_bothRunningTime]
  by_cases hperiod : 0 < period
  · by_cases hrun : s.isRunning key.a = true ∧ s.isRunning key.b = true
    · rw [if_pos ⟨hperiod, hrun⟩, if_pos hrun]
    · rw [if_neg fun h => hrun h.2, if_neg hrun]
  · have hzero : period = 0 := UInt64.le_zero_iff.1 (UInt64.not_lt.1 hperiod)
    rw [if_neg fun h => hperiod h.1, hzero, satAdd_zero, ite_self]

variable {u : DefaultModelUpdater F32} {ord : HashOrder} {s r : Stores F16} {obs : Observation}
  {policy : AdmissionPolicy} (h : ApplySpec num u ord s obs policy r)

include h

/-- What runs is credited with the period. -/
theorem ApplySpec.runningTime (id : ExeId) :
    r.runningTime id =
      if r.isRunning id = true then satAdd (s.runningTime id) (accountingPeriod s obs)
      else s.runningTime id := by
  rw [← runningTime_admitted ord policy s obs id, Stores.runningTime, Stores.isRunning,
    Stores.runningTime, h.exes]
  cases (admitted ord policy s obs).exes.get? id with
  | none => rfl
  | some e =>
      simp only [Option.map_some, Option.getD_some, Exe.settle_totalRunningTime, Exe.settle_running,
        decide_eq_true_eq]

/-- An edge after `apply` was credited if its two executables run, and comes from the edge before
    or from a fresh one. -/
theorem ApplySpec.bothRunningTime_origin {a b : ExeId} {e : Edge F16}
    (he : r.markov.get? (EdgeKey.new a b) = some e) :
    a ∈ r.active.exes ∧ b ∈ r.active.exes ∧
    e.bothRunningTime =
      if r.isRunning a = true ∧ r.isRunning b = true then
        satAdd (s.bothTime a b) (accountingPeriod s obs)
      else s.bothTime a b := by
  obtain ⟨ha, hb, e₀, rfl, horigin⟩ := h.edge_origin _ e he
  have hold : s.bothTime a b = e₀.bothRunningTime := by
    rcases horigin with hget | ⟨hnone, -, state, rfl⟩
    · exact Stores.bothTime_of_get? hget
    · simp [Stores.bothTime, hnone, MarkovGraph.freshEdge]
  rw [advanceEdge_bothRunningTime, hold]
  rcases EdgeKey.new_cases a b with ⟨h1, h2⟩ | ⟨h1, h2⟩
  · rw [h1] at ha ⊢
    rw [h2] at hb ⊢
    exact ⟨ha, hb, rfl⟩
  · rw [h1] at ha ⊢
    rw [h2] at hb ⊢
    exact ⟨hb, ha, if_congr and_comm rfl rfl⟩

/-- One `apply` keeps the bounds, when its time is not before the last accounting. -/
theorem accounting_apply (htime : s.lastAccountingTime ≤ obs.time s.modelTime)
    (ih : s.Accounting) : r.Accounting := by
  constructor
  · rw [h.modelTime, h.lastAccountingTime]
    exact UInt64.le_refl _
  · intro id
    rw [h.runningTime, h.lastAccountingTime]
    split
    · exact satAdd_satSub_le (ih.exe id) htime
    · exact UInt64.le_trans (ih.exe id) htime
  · intro a b
    cases he : r.markov.get? (EdgeKey.new a b) with
    | none =>
        rw [Stores.bothTime, he]
        exact UInt64.zero_le
    | some e =>
        obtain ⟨-, -, hboth⟩ := h.bothRunningTime_origin he
        rw [Stores.bothTime_of_get? he, hboth, h.runningTime]
        by_cases ha : r.isRunning a = true
        · rw [if_pos ha]
          split
          · exact satAdd_le_satAdd (ih.both a b) _
          · exact UInt64.le_trans (ih.both a b) (le_satAdd _ _)
        · rw [if_neg ha, if_neg fun hrun => ha hrun.1]
          exact ih.both a b

end Apply

/-! ## Restart -/

section Restart

variable {s t : Stores F16} {activeWindow : UInt64} (h : RestartSpec s activeWindow t)

include h

theorem RestartSpec.idByKey {key : ExeKey} :
    (∃ id, t.exes.idByKey key = some id) ↔ ∃ id, s.exes.idByKey key = some id := by
  rw [← ExeStore.mem_keys, ← ExeStore.mem_keys, h.keys]

theorem RestartSpec.runningTime {key : ExeKey} {id id' : ExeId}
    (hid : s.exes.idByKey key = some id) (hid' : t.exes.idByKey key = some id') :
    t.runningTime id' = s.runningTime id := by
  obtain ⟨e, he, rfl⟩ := ExeStore.idByKey_eq_some.1 hid
  obtain ⟨e', he', hkey⟩ := ExeStore.idByKey_eq_some.1 hid'
  have hs : s.exeAt e.key.path = some e := Stores.exeAt_eq_some.2 ⟨id, he, rfl⟩
  have ht : t.exeAt e.key.path = some e' := Stores.exeAt_eq_some.2 ⟨id', he', hkey⟩
  rw [h.exeAt, hs, Option.map_some] at ht
  rw [Stores.runningTime_of_get? he, Stores.runningTime_of_get? he', ← Option.some.inj ht]
  rfl

/-- Co-running times are kept between recent executables and lost otherwise. -/
theorem RestartSpec.bothTime {p q : Path} {a b a' b' : ExeId}
    (ha : s.exes.idByKey ⟨p⟩ = some a) (hb : s.exes.idByKey ⟨q⟩ = some b)
    (ha' : t.exes.idByKey ⟨p⟩ = some a') (hb' : t.exes.idByKey ⟨q⟩ = some b') :
    t.bothTime a' b' =
      if (s.isRecentAt activeWindow p && s.isRecentAt activeWindow q) = true then s.bothTime a b
      else 0 := by
  rw [Stores.bothTime, ← Stores.map_edgeAt ha' hb', h.edgeAt, Stores.bothTime,
    ← Stores.map_edgeAt ha hb]
  cases s.edgeAt p q with
  | none => simp
  | some e =>
      rw [Option.filter_some]
      split <;> rfl

/-- A restart keeps the bounds. -/
theorem accounting_restart (ht : t.WF) (ih : s.Accounting) : t.Accounting := by
  -- an id of the new stores has an old id under the same key
  have hold : ∀ {id' : ExeId} {e' : Exe}, t.exes.get? id' = some e' →
      ∃ id, s.exes.idByKey e'.key = some id ∧ t.runningTime id' = s.runningTime id := by
    intro id' e' he'
    have hid' := ExeStore.idByKey_of_get? he'
    obtain ⟨id, hid⟩ := h.idByKey.1 ⟨id', hid'⟩
    exact ⟨id, hid, h.runningTime hid hid'⟩
  constructor
  · rw [h.modelTime, h.lastAccountingTime]
    exact ih.clock
  · intro id'
    rw [h.lastAccountingTime]
    cases he' : t.exes.get? id' with
    | none =>
        rw [Stores.runningTime, he']
        exact UInt64.zero_le
    | some e' =>
        obtain ⟨id, -, htime⟩ := hold he'
        rw [htime]
        exact ih.exe id
  · intro a' b'
    cases hedge : t.markov.get? (EdgeKey.new a' b') with
    | none =>
        rw [Stores.bothTime, hedge]
        exact UInt64.zero_le
    | some e =>
        -- an edge is between two live ids, and both have old ones
        obtain ⟨⟨x, hx⟩, y, hy⟩ : t.LiveExe a' ∧ t.LiveExe b' :=
          (EdgeKey.new_both t.LiveExe a' b').1
            (ht.edge_live _ (MarkovGraph.mem_keys_iff.2 ⟨e, hedge⟩))
        obtain ⟨a, ha, htime⟩ := hold hx
        obtain ⟨b, hb, -⟩ := hold hy
        rw [htime, h.bothTime ha hb (ExeStore.idByKey_of_get? hx) (ExeStore.idByKey_of_get? hy)]
        split
        · exact ih.both a b
        · exact UInt64.zero_le

end Restart

end PreloadNg
