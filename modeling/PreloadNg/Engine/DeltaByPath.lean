import PreloadNg.Engine.EdgesByPath
import PreloadNg.Engine.WellFormed
import PreloadNg.Observation.DeltaStages

set_option autoImplicit false

/-! # The delta of `apply`

The lists of the delta are filled in different stages. Read by path and map key, they are the
difference between the stores before and after. -/

namespace PreloadNg

variable {F16 F32 : Type}

/-- The delta lists the difference between `s` and `r`, every item once. -/
structure ModelDelta.IsDifference (delta : ModelDelta) (s r : Stores F16) : Prop where
  newExes : delta.newExes.Nodup ∧
    ∀ p, ⟨p⟩ ∈ delta.newExes ↔ r.exeAt p ≠ none ∧ s.exeAt p = none
  newMaps : delta.newMaps.Nodup ∧
    ∀ key, key ∈ delta.newMaps ↔ r.mapAt key ≠ none ∧ s.mapAt key = none
  /-- The two executables of an edge are listed in one of the two orders. -/
  newEdges : (delta.newEdges.map fun edge => s(edge.1, edge.2)).Nodup ∧
    ∀ p q, s(⟨p⟩, ⟨q⟩) ∈ delta.newEdges.map (fun edge => s(edge.1, edge.2)) ↔
      r.edgeAt p q ≠ none ∧ s.edgeAt p q = none
  runningNow : delta.runningNow.Nodup ∧
    ∀ p, ⟨p⟩ ∈ delta.runningNow ↔ r.runsAt p = true ∧ s.runsAt p = false
  stoppedNow : delta.stoppedNow.Nodup ∧
    ∀ p, ⟨p⟩ ∈ delta.stoppedNow ↔ s.runsAt p = true ∧ r.runsAt p = false

/-! ## Reading by path -/

theorem Stores.exeAt_ne_none {s : Stores F16} {p : Path} :
    s.exeAt p ≠ none ↔ s.exes.idByKey ⟨p⟩ ≠ none :=
  not_congr ExeStore.lookup_eq_none

theorem Stores.hasEdge_paths {s : Stores F16} {p q : Path} :
    s.HasEdge s(⟨p⟩, ⟨q⟩) ↔ s.edgeAt p q ≠ none := by
  simp only [hasEdge_mk, Option.ne_none_iff_exists', edgeAt_eq_some, MarkovGraph.mem_keys_iff]
  constructor
  · rintro ⟨a, b, ha, hb, e, he⟩
    exact ⟨_, a, b, e, ha, hb, he, rfl⟩
  · rintro ⟨_, a, b, e, ha, hb, he, -⟩
    exact ⟨a, b, ha, hb, e, he⟩

/-- Admission does not set the flag of what it stores. -/
theorem runsAt_admitted (ord : HashOrder) (policy : AdmissionPolicy) (s : Stores F16)
    (obs : Observation) (p : Path) : (admitted ord policy s obs).runsAt p = s.runsAt p := by
  unfold Stores.runsAt
  rw [exeAt_admitted]
  split
  · cases s.exeAt p <;> rfl
  · rfl

/-! ## The lists -/

section Apply

variable [Float32Ops F32] (num : Numerics F16 F32) (u : DefaultModelUpdater F32) (ord : HashOrder)
  (s : Stores F16) (obs : Observation) (policy : AdmissionPolicy)

omit [Float32Ops F32] in
/-- The delta when the edges are created: the flags that changed are reported. -/
theorem delta_refreshed :
    let c := collect policy s.modelTime obs
    let changed := fun flag => (admitted ord policy s obs).exes.ids.filterMap
      ((admitted ord policy s obs).flippedKey c.runningPaths flag)
    (refreshRunning c.now c.runningPaths (admitAll ord policy c s)).delta =
      { admittedDelta ord policy s obs with
        runningNow := changed true
        stoppedNow := changed false } := by
  intro c changed
  obtain ⟨-, hrunning, hstopped⟩ := admittedDelta_eq ord policy s obs
  have hrefresh : (refreshRunning c.now c.runningPaths (admitAll ord policy c s)).delta =
      { admittedDelta ord policy s obs with
        runningNow := (admittedDelta ord policy s obs).runningNow ++ changed true
        stoppedNow := (admittedDelta ord policy s obs).stoppedNow ++ changed false } :=
    delta_refreshExes c.now c.runningPaths (admitted ord policy s obs).exes.ids
      (admitted ord policy s obs).exes.ids_nodup (admitAll ord policy c s)
  rwa [hrunning, hstopped, List.nil_append, List.nil_append] at hrefresh

/-- The delta of `apply`, besides the edges. -/
theorem apply_delta :
    let c := collect policy s.modelTime obs
    let changed := fun flag => (admitted ord policy s obs).exes.ids.filterMap
      ((admitted ord policy s obs).flippedKey c.runningPaths flag)
    ∃ newEdges, (u.apply num ord s obs policy).2 =
      { admittedDelta ord policy s obs with
        newEdges
        runningNow := changed true
        stoppedNow := changed false } := by
  intro c changed
  obtain ⟨newEdges, hedges⟩ := delta_ensureEdges num.zero c.now ord
    (updateActive ord u.activeWindow c.now
      (refreshRunning c.now c.runningPaths (admitAll ord policy c s)).activeExeIds
      (refreshRunning c.now c.runningPaths (admitAll ord policy c s)).stores)
    (refreshRunning c.now c.runningPaths (admitAll ord policy c s)).delta
  exact ⟨newEdges, hedges.trans (by rw [delta_refreshed])⟩

variable {num u ord s obs policy} {r : Stores F16} (h : ApplySpec num u ord s obs policy r)

include h

/-- What runs after `apply` is what the observation saw of the stored executables. -/
theorem ApplySpec.runsAt (p : Path) :
    r.runsAt p = ((admitted ord policy s obs).exeAt p).any fun _ =>
      decide (p ∈ (collect policy s.modelTime obs).runningPaths) := by
  rw [Stores.runsAt, h.exeAt, ← exeAt_admitted ord policy s obs p]
  cases hat : (admitted ord policy s obs).exeAt p with
  | none => rfl
  | some e =>
      obtain ⟨id, he, hkey⟩ := Stores.exeAt_eq_some.1 hat
      rw [Option.map_some, Option.any_some, Option.any_some, Exe.settle_running, hkey]

/-- The flags that became `flag`. -/
theorem ApplySpec.mem_flippedKeys (flag : Bool) (p : Path) :
    ⟨p⟩ ∈ (admitted ord policy s obs).exes.ids.filterMap
        ((admitted ord policy s obs).flippedKey (collect policy s.modelTime obs).runningPaths flag) ↔
      (admitted ord policy s obs).exeAt p ≠ none ∧ s.runsAt p = !flag ∧ r.runsAt p = flag := by
  rw [h.runsAt, ← runsAt_admitted ord policy s obs p, Stores.runsAt, List.mem_filterMap]
  simp only [Stores.flippedKey_eq_some, ExeStore.mem_ids]
  constructor
  · rintro ⟨id, -, e, he, hkey, hrun, hpath⟩
    rw [Stores.exeAt_eq_some.2 ⟨id, he, hkey⟩]
    rw [hkey] at hpath
    simp [hrun, hpath]
  · rintro ⟨hat, hrun, hpath⟩
    obtain ⟨e, hat⟩ := Option.ne_none_iff_exists'.1 hat
    obtain ⟨id, he, hkey⟩ := Stores.exeAt_eq_some.1 hat
    rw [hat, Option.any_some] at hrun hpath
    exact ⟨id, ⟨e, he⟩, e, he, hkey, hrun, by rw [hkey]; exact hpath⟩

/-- An edge of the old stores, by the ids of the new ones. -/
theorem ApplySpec.hasEdge_old (hs : s.WF) {x y : ExeKey} {a b : ExeId}
    (ha : r.exes.idByKey x = some a) (hb : r.exes.idByKey y = some b) :
    s.HasEdge s(x, y) ↔ EdgeKey.new a b ∈ s.markov.keys := by
  obtain ⟨p⟩ := x
  obtain ⟨q⟩ := y
  rw [Stores.hasEdge_paths, h.old_edgeAt hs ha hb, Ne, Option.map_eq_none_iff, ← Ne,
    Option.ne_none_iff_exists', MarkovGraph.mem_keys_iff]

omit h

variable (num) in
/-- Accounting keeps the edges and the ids of their ends. -/
theorem hasEdge_account (now : UInt64) (decay : F32) (t : Stores F16) (z : Sym2 ExeKey) :
    (account num now decay t).HasEdge z ↔ t.HasEdge z := by
  obtain ⟨exes, hcredit, hget⟩ := creditExes_spec (satSub now t.lastAccountingTime) t
  have hid := ExeStore.idByKey_of_get?_map (Exe.key_credit _) hget
  unfold account Stores.HasEdge
  dsimp only
  rw [hcredit]
  simp only [MarkovGraph.keys_iterMut, hid]

variable (num ord) in
/-- Creating edges and accounting keep the active set and the ids. -/
theorem account_ensureEdges (now : UInt64) (decay : F32) (t : Stores F16) (delta : ModelDelta) :
    let r := account num now decay (ensureEdges num.zero ord now t delta).1
    r.active = t.active ∧ ∀ key, r.exes.idByKey key = t.exes.idByKey key := by
  obtain ⟨markov, hensured, -⟩ := ensureEdges_active num.zero ord now t delta
  obtain ⟨exes, hcredit, hget⟩ := creditExes_spec (satSub now t.lastAccountingTime)
    ({ t with markov := markov } : Stores F16)
  rw [hensured, account]
  dsimp only
  rw [hcredit]
  exact ⟨rfl, ExeStore.idByKey_of_get?_map (Exe.key_credit _) hget⟩

variable (num u ord s obs policy)

/-- The stores on which the missing edges are created hold the old edges of active executables. -/
theorem apply_edges :
    ∃ (now : UInt64) (t : Stores F16) (delta : ModelDelta), delta.newEdges = [] ∧
      (∀ key, key ∈ t.markov.keys ↔
        key ∈ s.markov.keys ∧ key.a ∈ t.active.exes ∧ key.b ∈ t.active.exes) ∧
      (u.apply num ord s obs policy).1 =
        account num now u.decay (ensureEdges num.zero ord now t delta).1 ∧
      (u.apply num ord s obs policy).2 = (ensureEdges num.zero ord now t delta).2 := by
  let c := collect policy s.modelTime obs
  let st := refreshRunning c.now c.runningPaths (admitAll ord policy c s)
  obtain ⟨exes, hstores, -, -⟩ :=
    refreshRunning_spec c.now c.runningPaths (admitAll ord policy c s)
  obtain ⟨active, markov, hupdated, -, hpruned⟩ :=
    updateActive_spec ord u.activeWindow c.now st.activeExeIds st.stores
  refine ⟨c.now, updateActive ord u.activeWindow c.now st.activeExeIds st.stores, st.delta, ?_,
    fun key => ?_, rfl, rfl⟩
  · exact (congrArg ModelDelta.newEdges (delta_refreshed ord s obs policy)).trans
      (admittedDelta_eq ord policy s obs).1
  · have hmarkov : st.stores.markov = s.markov := by
      rw [show st.stores = _ from hstores]
      exact (grows_admitted ord policy s obs).markov
    rw [hupdated]
    simp only [MarkovGraph.mem_keys_iff, hpruned, hmarkov, exists_and_right]

/-- The reported edges join the pairs that have an edge after `apply` and had none before. -/
theorem newEdges_apply (hs : s.WF) :
    ((u.apply num ord s obs policy).2.newEdges.map fun edge => s(edge.1, edge.2)).Nodup ∧
      ∀ z, z ∈ (u.apply num ord s obs policy).2.newEdges.map (fun edge => s(edge.1, edge.2)) ↔
        (u.apply num ord s obs policy).1.HasEdge z ∧ ¬ s.HasEdge z := by
  have hspec := apply_spec num u ord s obs policy
  have hwf := hspec.wf hs
  obtain ⟨now, t, delta, hnil, hkeys, hfirst, hsecond⟩ := apply_edges num u ord s obs policy
  generalize (u.apply num ord s obs policy).1 = r at hspec hwf hfirst ⊢
  obtain ⟨hactive, hids⟩ := account_ensureEdges num ord now u.decay t delta
  rw [← hfirst] at hactive hids
  have hlive : ∀ id ∈ t.active.exes, t.LiveExe id := by
    intro id hid
    obtain ⟨key, hkey⟩ := liveExe_iff_idByKey.1 (hwf.active_live id (hactive ▸ hid))
    exact liveExe_iff_idByKey.2 ⟨key, hids key ▸ hkey⟩
  obtain ⟨hnodup, hmem⟩ := (edgesReported_ensureEdges num.zero now ord delta hlive).of_nil
    (by rw [hnil]; rfl)
  rw [hsecond]
  refine ⟨hnodup, fun z => (hmem z).trans ?_⟩
  rw [← hasEdge_account num now u.decay, ← hfirst]
  refine and_congr_right fun hz => not_congr ?_
  induction z using Sym2.ind with
  | h x y =>
      obtain ⟨a, b, ha, hb, hkey⟩ := Stores.hasEdge_mk.1 hz
      have hends := hspec.edge_active hkey
      rw [hactive] at hends
      rw [hspec.hasEdge_old hs ha hb, Stores.hasEdge_iff ((hids x).symm.trans ha)
        ((hids y).symm.trans hb), hkeys]
      exact and_iff_left hends

theorem apply_isDifference (hs : s.WF) :
    (u.apply num ord s obs policy).2.IsDifference s (u.apply num ord s obs policy).1 := by
  have hspec := apply_spec num u ord s obs policy
  obtain ⟨_, hdelta⟩ := apply_delta num u ord s obs policy
  have hrunning : ∀ flag p, (admitted ord policy s obs).exeAt p ≠ none ∧ s.runsAt p = !flag ∧
      (u.apply num ord s obs policy).1.runsAt p = flag ↔
        s.runsAt p = !flag ∧ (u.apply num ord s obs policy).1.runsAt p = flag := by
    intro flag p
    refine and_iff_right_of_imp fun ⟨hold, hnew⟩ hnone => ?_
    -- what is not stored runs neither before nor after
    rw [← runsAt_admitted ord policy s obs p, Stores.runsAt, hnone] at hold
    rw [hspec.runsAt, hnone] at hnew
    cases flag with
    | true => exact absurd hnew (by simp)
    | false => exact absurd hold (by simp)
  constructor
  case newExes =>
    obtain ⟨hnodup, hmem⟩ := newExes_admitted ord policy s obs
    rw [congrArg ModelDelta.newExes hdelta]
    refine ⟨hnodup, fun p => (hmem ⟨p⟩).trans ?_⟩
    rw [not_not, Stores.exeAt_ne_none, hspec.idByKey_eq]
    exact and_congr_right fun _ => ExeStore.lookup_eq_none.symm
  case newMaps =>
    obtain ⟨hnodup, hmem⟩ := newMaps_admitted ord policy s obs
    rw [congrArg ModelDelta.newMaps hdelta]
    refine ⟨hnodup, fun key => (hmem key).trans ?_⟩
    rw [not_not, Stores.mapAt, Stores.mapAt, Stores.mapAt, hspec.maps]
  case newEdges =>
    obtain ⟨hnodup, hmem⟩ := newEdges_apply num u ord s obs policy hs
    refine ⟨hnodup, fun p q => (hmem _).trans ?_⟩
    rw [Stores.hasEdge_paths, Stores.hasEdge_paths, not_not]
  case runningNow =>
    rw [congrArg ModelDelta.runningNow hdelta]
    refine ⟨flippedKeys_nodup _ true _, fun p => (hspec.mem_flippedKeys true p).trans ?_⟩
    rw [hrunning, and_comm]
    rfl
  case stoppedNow =>
    rw [congrArg ModelDelta.stoppedNow hdelta]
    refine ⟨flippedKeys_nodup _ false _, fun p => (hspec.mem_flippedKeys false p).trans ?_⟩
    rw [hrunning]
    rfl

/-- `apply` loses no executable, map or pair, adds the pairs of the admitted executables with their
    allowed maps, and its delta is the difference it made. -/
theorem apply_delta_exact (hs : s.WF) :
    let r := (u.apply num ord s obs policy).1
    (∀ p, s.exeAt p ≠ none → r.exeAt p ≠ none) ∧
    (∀ key, s.mapAt key ≠ none → r.mapAt key ≠ none) ∧
    (∀ p key, r.relAt p key ↔ s.relAt p key ∨ (Admits policy obs s.modelTime p ∧
      ∃ m, .mapSeen p m ∈ obs ∧ policy.allowMap m.path = true ∧ m.key = key)) ∧
    (u.apply num ord s obs policy).2.IsDifference s r := by
  intro r
  have hspec := apply_spec num u ord s obs policy
  refine ⟨fun p hp => ?_, fun key hkey => ?_, hspec.relAt hs,
    apply_isDifference num u ord s obs policy hs⟩
  · obtain ⟨id, hid⟩ := Option.ne_none_iff_exists'.1 (Stores.exeAt_ne_none.1 hp)
    rw [Stores.exeAt_ne_none, hspec.idByKey hid]
    simp
  · rw [hspec.mapAt, Ne, Option.or_eq_none_iff]
    exact fun h => hkey h.1

end Apply

/-- Of two programs one goes on, and a third one starts. -/
theorem apply_delta_exact_three :
    let u : DefaultModelUpdater ℚ := ⟨100, 1⟩
    let s : Stores ℚ := (u.apply Numerics.rational .insertion ∅
      (.ofRunning 10 ["/bin/a", "/bin/b"]) .permissive).1
    let obs : Observation := .ofRunning 20 ["/bin/b", "/bin/c"]
    let r : Stores ℚ := (u.apply Numerics.rational .insertion s obs .permissive).1
    let delta := (u.apply Numerics.rational .insertion s obs .permissive).2
    (delta.newExes = [⟨Path.ofString "/bin/c"⟩] ∧ delta.newMaps = [] ∧
      delta.newEdges.length = 2 ∧ delta.runningNow = [⟨Path.ofString "/bin/c"⟩] ∧
      delta.stoppedNow = [⟨Path.ofString "/bin/a"⟩]) ∧
    (∀ p, s.exeAt p ≠ none → r.exeAt p ≠ none) ∧
    (∀ key, s.mapAt key ≠ none → r.mapAt key ≠ none) ∧
    (∀ p key, r.relAt p key ↔ s.relAt p key ∨
      (Admits AdmissionPolicy.permissive obs s.modelTime p ∧ ∃ m, .mapSeen p m ∈ obs ∧
        AdmissionPolicy.permissive.allowMap m.path = true ∧ m.key = key)) ∧
    delta.IsDifference s r := by
  intro u s obs r delta
  have hs : s.WF := (apply_spec Numerics.rational u .insertion ∅
    (.ofRunning 10 ["/bin/a", "/bin/b"]) .permissive).wf Stores.wf_empty
  exact ⟨by decide +kernel, apply_delta_exact Numerics.rational u .insertion s obs .permissive hs⟩

end PreloadNg
