import PreloadNg.Engine.ApplyByPath

set_option autoImplicit false

/-! # A tick that is retried

When a tick is dropped after its `apply`, the next one applies an observation of the same time. The
stores then already show what the observation says, and on such stores no stage of `apply` changes
anything. -/

namespace PreloadNg

variable {F16 F32 : Type}

/-! ## Stores that show what an observation says -/

/-- The candidate is stored with its maps, as of the model time. -/
def Stores.HasAdmitted (s : Stores F16) (c : CandidateExe) : Prop :=
  ∃ id e, s.exes.get? id = some e ∧ e.key = ⟨c.path⟩ ∧ e.lastSeenTime = some s.modelTime ∧
    ∀ m ∈ c.maps, ∃ mapId, s.maps.idByKey m.key = some mapId ∧ s.exeMaps.Rel id mapId

structure Stores.Settled (s : Stores F16) (u : DefaultModelUpdater F32) (policy : AdmissionPolicy)
    (obs : Observation) : Prop where
  modelTime : obs.time s.modelTime = s.modelTime
  lastAccountingTime : s.lastAccountingTime = s.modelTime
  admitted : ∀ c, (collect policy s.modelTime obs).candidates.get? c.path = some c →
    policy.Accepts c → s.HasAdmitted c
  running : ∀ id e, s.exes.get? id = some e → (e.running = true ↔ obs.sees e.key.path)
  active : ∀ id, s.isRunning id = true → s.active.seenAt id = some s.modelTime
  recent : ∀ id last, s.active.seenAt id = some last → satSub s.modelTime last ≤ u.activeWindow
  edge_active : ∀ key ∈ s.markov.keys, key.a ∈ s.active.exes ∧ key.b ∈ s.active.exes
  edge_complete : ∀ a b, a ∈ s.active.exes → b ∈ s.active.exes → a ≠ b →
    EdgeKey.new a b ∈ s.markov.keys
  edge_state : ∀ key e, s.markov.get? key = some e → e.state = edgeState s key.a key.b

/-! ## The stages on settled stores -/

theorem admitMap_of_rel {exeId : ExeId} {st : Applying F16} {map : MapSegment} {mapId : MapId}
    (hid : st.stores.maps.idByKey map.key = some mapId)
    (hrel : st.stores.exeMaps.Rel exeId mapId) : admitMap exeId st map = st := by
  unfold admitMap Stores.ensureMapWithFlag Stores.attachMap
  rw [KeyedStore.ensure_eq_self hid]
  dsimp only
  rw [ExeMapIndex.attach_eq_self hrel]
  rfl

theorem admitMaps_of_rel {exeId : ExeId} {st : Applying F16} {maps : List MapSegment}
    (h : ∀ m ∈ maps, ∃ mapId, st.stores.maps.idByKey m.key = some mapId ∧
      st.stores.exeMaps.Rel exeId mapId) : maps.foldl (admitMap exeId) st = st := by
  induction maps with
  | nil => rfl
  | cons map rest ih =>
      obtain ⟨mapId, hid, hrel⟩ := h map List.mem_cons_self
      rw [List.foldl_cons, admitMap_of_rel hid hrel]
      exact ih fun m hm => h m (List.mem_cons_of_mem map hm)

theorem touchExe_of_seen {s : Stores F16} {now : UInt64} {id : ExeId} {e : Exe}
    (he : s.exes.get? id = some e) (hseen : e.lastSeenTime = some now) :
    touchExe now s e.key = (s, id) := by
  have htouch : s.exes.modify id (Exe.touch now) (Exe.key_touch now) = s.exes := by
    refine ExeStore.modify_eq_self _ fun e' he' => ?_
    obtain rfl := Option.some.inj (he.symm.trans he')
    rw [Exe.touch, ← hseen]
  unfold touchExe Stores.ensureExe
  rw [ExeStore.ensure_eq_self (ExeStore.idByKey_of_get? he)]
  dsimp only
  rw [htouch]

section Candidates

variable (policy : AdmissionPolicy) (runningPaths : FxHashSet Path)

/-- Admitting a candidate again is at most noted in the delta. -/
theorem admitCandidate_of_hasAdmitted {st : Applying F16} {c : CandidateExe}
    (h : policy.Accepts c → st.stores.HasAdmitted c) :
    ∃ rejected partialExes activeExeIds,
      admitCandidate policy st.stores.modelTime runningPaths st c =
        { st with
          delta := { st.delta with rejected, partialExes }
          activeExeIds := activeExeIds } := by
  unfold admitCandidate
  split
  · exact ⟨_, st.delta.partialExes, st.activeExeIds, rfl⟩
  · exact ⟨st.delta.rejected, st.delta.partialExes, st.activeExeIds, rfl⟩
  · next completeness haccept =>
      obtain ⟨id, e, he, hkey, hseen, hmaps⟩ := h ⟨completeness, haccept⟩
      have hid : st.stores.exes.idByKey ⟨c.path⟩ = some id := hkey ▸ ExeStore.idByKey_of_get? he
      have htouch := touchExe_of_seen he hseen
      rw [hkey] at htouch
      -- nothing is new, so the delta says at most that the scan was partial
      refine ⟨st.delta.rejected,
        if completeness = .partly then st.delta.partialExes ++ [⟨c.path⟩]
        else st.delta.partialExes,
        if c.path ∈ runningPaths then st.activeExeIds.insert id else st.activeExeIds, ?_⟩
      unfold acceptCandidate
      simp only [htouch, hid, Option.isNone_some, Bool.false_eq_true, if_false]
      rw [admitMaps_of_rel (by exact hmaps)]
      split <;> rfl

theorem admitCandidates_of_hasAdmitted (cs : List CandidateExe) (st : Applying F16)
    (h : ∀ c ∈ cs, policy.Accepts c → st.stores.HasAdmitted c) :
    ∃ rejected partialExes activeExeIds,
      cs.foldl (admitCandidate policy st.stores.modelTime runningPaths) st =
        { st with
          delta := { st.delta with rejected, partialExes }
          activeExeIds := activeExeIds } := by
  induction cs generalizing st with
  | nil => exact ⟨st.delta.rejected, st.delta.partialExes, st.activeExeIds, rfl⟩
  | cons c rest ih =>
      obtain ⟨rejected, partialExes, ids, hc⟩ :=
        admitCandidate_of_hasAdmitted policy runningPaths (h c List.mem_cons_self)
      let st' : Applying F16 :=
        { st with
          delta := { st.delta with rejected, partialExes }
          activeExeIds := ids }
      rw [List.foldl_cons, hc]
      exact ih st' fun c' hc' => h c' (List.mem_cons_of_mem c hc')

end Candidates

section Flags

variable (now : UInt64) {runningPaths : FxHashSet Path}

/-- A running flag that is up to date is left alone. -/
theorem refreshExe_of_fresh (st : Applying F16) {id : ExeId}
    (h : ∀ e, st.stores.exes.get? id = some e →
      (e.running = true ↔ e.key.path ∈ runningPaths)) :
    ∃ activeExeIds,
      refreshExe now runningPaths st id = { st with activeExeIds := activeExeIds } := by
  unfold refreshExe
  split
  · exact ⟨st.activeExeIds, rfl⟩
  · next e he =>
      have hrunning : e.running = decide (e.key.path ∈ runningPaths) := by
        rw [Bool.eq_iff_iff, h e he, decide_eq_true_eq]
      have hrefresh : e.refresh now runningPaths = e := by
        unfold Exe.refresh
        dsimp only
        rw [← hrunning, if_neg (by simp)]
      have hmodify : st.stores.exes.modify id (Exe.refresh now runningPaths)
          (Exe.key_refresh now runningPaths) = st.stores.exes := by
        refine ExeStore.modify_eq_self _ fun e' he' => ?_
        obtain rfl := Option.some.inj (he.symm.trans he')
        exact hrefresh
      refine ⟨if e.running then st.activeExeIds.insert id else st.activeExeIds, ?_⟩
      dsimp only
      rw [hmodify, ← hrunning, if_neg (by simp)]

theorem refreshRunning_of_fresh (st : Applying F16)
    (h : ∀ id e, st.stores.exes.get? id = some e →
      (e.running = true ↔ e.key.path ∈ runningPaths)) :
    ∃ activeExeIds,
      refreshRunning now runningPaths st = { st with activeExeIds := activeExeIds } := by
  have hloop : ∀ (ids : List ExeId) (activeExeIds : FxHashSet ExeId), ∃ activeExeIds',
      ids.foldl (refreshExe now runningPaths) { st with activeExeIds := activeExeIds } =
        { st with activeExeIds := activeExeIds' } := by
    intro ids
    induction ids with
    | nil => exact fun activeExeIds => ⟨activeExeIds, rfl⟩
    | cons id rest ih =>
        intro activeExeIds
        obtain ⟨activeExeIds', hid⟩ := refreshExe_of_fresh now
          { st with activeExeIds := activeExeIds } (h id)
        rw [List.foldl_cons, hid]
        exact ih activeExeIds'
  exact hloop _ st.activeExeIds

end Flags

theorem updateActive_of_seen {s : Stores F16} {ord : HashOrder} {activeWindow now : UInt64}
    {ids : FxHashSet ExeId} (hseen : ∀ id ∈ ids, s.active.seenAt id = some now)
    (hrecent : ∀ id last, s.active.seenAt id = some last → satSub now last ≤ activeWindow)
    (hedges : ∀ key ∈ s.markov.keys, key.a ∈ s.active.exes ∧ key.b ∈ s.active.exes) :
    updateActive ord activeWindow now ids s = s := by
  have hupdate : s.active.update (ord.enum ids.iter) now = s.active := by
    refine ActiveSet.update_eq_self fun id hid => hseen id ?_
    rwa [HashOrder.mem_enum, FxHashSet.mem_iter] at hid
  unfold updateActive
  dsimp only
  rw [hupdate, ActiveSet.prune_eq_self hrecent,
    MarkovGraph.pruneInactive_eq_self fun key hkey => MarkovGraph.isActive_iff.2 (hedges key hkey)]

theorem ensureEdges_of_complete {s : Stores F16} {zero : F16} {ord : HashOrder} {now : UInt64}
    {delta : ModelDelta} (h : ∀ a b, a ∈ s.active.exes → b ∈ s.active.exes → a ≠ b →
      EdgeKey.new a b ∈ s.markov.keys) :
    ensureEdges zero ord now s delta = (s, delta) := by
  have hpair : ∀ p ∈ pairs (ord.enum s.active.exes.iter), EdgeKey.new p.1 p.2 ∈ s.markov.keys := by
    intro p hp
    have hends := mem_of_mem_pairs hp
    rw [HashOrder.mem_enum, HashOrder.mem_enum, FxHashSet.mem_iter, FxHashSet.mem_iter] at hends
    exact h _ _ hends.1 hends.2
      (ne_of_mem_pairs (ord.nodup_enum s.active.exes.iter_nodup) hp)
  unfold ensureEdges
  generalize pairs (ord.enum s.active.exes.iter) = ps at hpair
  induction ps with
  | nil => rfl
  | cons p rest ih =>
      have hone : ensureEdge zero now (s, delta) p = (s, delta) := by
        unfold ensureEdge Stores.ensureMarkovEdge
        dsimp only
        rw [MarkovGraph.ensureEdge_of_mem zero now _ (hpair p List.mem_cons_self)]
      rw [List.foldl_cons, hone]
      exact ih fun q hq => hpair q (List.mem_cons_of_mem p hq)

section Account

variable [Float32Ops F32] (num : Numerics F16 F32)

/-- With no time to account for and no state to change, accounting changes nothing. -/
theorem account_of_current {s : Stores F16} {now : UInt64} (decay : F32)
    (hmodel : s.modelTime = now) (hlast : s.lastAccountingTime = now)
    (hstate : ∀ key e, s.markov.get? key = some e → e.state = edgeState s key.a key.b) :
    account num now decay s = s := by
  have hzero : ¬ (0 : UInt64) < 0 := by simp
  have hperiod : satSub now s.lastAccountingTime = 0 := by rw [hlast, satSub_self]
  have hcredit : creditExes 0 s = s := by
    unfold creditExes
    exact if_neg hzero
  have hedges : s.markov.iterMut (advanceEdge num now decay 0 s) = s.markov := by
    refine MarkovGraph.iterMut_eq_self fun key e he => ?_
    unfold advanceEdge
    dsimp only
    rw [if_neg fun h => hzero h.1, Edge.updateState, if_pos (hstate key e he).symm]
  unfold account
  dsimp only
  rw [hperiod, hcredit, hedges]
  cases s
  simp_all

variable (u : DefaultModelUpdater F32) (ord : HashOrder) (policy : AdmissionPolicy)
  (obs : Observation)

/-- `apply` leaves settled stores as they are, and reports rejections and partial scans only. -/
theorem apply_of_settled {s : Stores F16} (h : s.Settled u policy obs) :
    ∃ rejected partialExes, u.apply num ord s obs policy =
      (s, { ModelDelta.empty with rejected, partialExes }) := by
  have hnow : (collect policy s.modelTime obs).now = s.modelTime :=
    (collect_now policy s.modelTime obs).trans h.modelTime
  have hruns : ∀ id e, s.exes.get? id = some e →
      (e.running = true ↔ e.key.path ∈ (collect policy s.modelTime obs).runningPaths) := by
    intro id e he
    rw [h.running id e he, mem_runningPaths]
  -- admission
  obtain ⟨rejected, partialExes, ids, hadmit⟩ := admitCandidates_of_hasAdmitted policy
    (collect policy s.modelTime obs).runningPaths
    ((ord.enum (collect policy s.modelTime obs).candidates.iter).map Prod.snd)
    ⟨s, ModelDelta.empty, ∅⟩
    fun c hc => h.admitted c ((mem_candidates ord policy s obs c).1 hc)
  have hall : admitAll ord policy (collect policy s.modelTime obs) s =
      ⟨s, { ModelDelta.empty with rejected, partialExes }, ids⟩ := by
    unfold admitAll
    rw [hnow]
    exact hadmit
  -- running flags
  obtain ⟨ids', hrefresh⟩ := refreshRunning_of_fresh s.modelTime
    ⟨s, { ModelDelta.empty with rejected, partialExes }, ids⟩ hruns
  rw [← hall] at hrefresh
  have hseen : ∀ id ∈ ids', s.active.seenAt id = some s.modelTime := by
    intro id hid
    have hmem := mem_activeExeIds_iff ord s obs policy id
    rw [h.modelTime, hrefresh, admitted, hall] at hmem
    obtain ⟨e, he, hrun⟩ := hmem.1 hid
    exact h.active id ((Stores.isRunning_of_get? he).trans ((hruns id e he).2 hrun))
  refine ⟨rejected, partialExes, ?_⟩
  unfold DefaultModelUpdater.apply
  simp only [hnow, hrefresh]
  rw [hall]
  dsimp only
  rw [updateActive_of_seen hseen h.recent h.edge_active, ensureEdges_of_complete h.edge_complete]
  dsimp only
  rw [account_of_current num u.decay rfl h.lastAccountingTime h.edge_state]

/-! ## The stores after `apply` -/

variable {num u ord policy obs}

theorem ApplySpec.settled {s r : Stores F16} (h : ApplySpec num u ord s obs policy r) :
    r.Settled u policy obs where
  modelTime := by rw [h.modelTime, Observation.time_time]
  lastAccountingTime := by rw [h.lastAccountingTime, h.modelTime]
  admitted := by
    intro c hc hacc
    -- the model time does not matter for the candidates
    have hc' : (collect policy s.modelTime obs).candidates.get? c.path = some c := by
      rw [candidate_collect] at hc ⊢
      exact hc
    have hadmits : Admits policy obs s.modelTime c.path := ⟨c, hc', hacc⟩
    have hat := h.exeAt c.path
    rw [if_pos hadmits, Option.map_some] at hat
    obtain ⟨id, he, hkey⟩ := Stores.exeAt_eq_some.1 hat
    refine ⟨id, _, he, hkey, ?_, fun m hm => ?_⟩
    · rw [Exe.settle_lastSeenTime, h.modelTime]
      rfl
    · obtain ⟨id', mapId, hid', hmap, hrel⟩ := relAt_admitCandidates policy _ _ _
        ⟨s, ModelDelta.empty, ∅⟩ ((mem_candidates ord policy s obs c).2 hc') hacc hm
      have hsame := h.idByKey_eq ⟨c.path⟩
      rw [admitted, admitAll, hid', ← hkey, ExeStore.idByKey_of_get? he] at hsame
      obtain rfl := Option.some.inj hsame
      refine ⟨mapId, ?_, ?_⟩
      · rw [h.maps]
        exact hmap
      · rw [h.exeMaps]
        exact hrel
  running := fun id e he => h.running_iff he
  active := by
    intro id hrun
    rw [h.active, if_pos hrun, h.modelTime, Option.filter_some, satSub_self, if_pos (by simp)]
  recent := by
    intro id last hlast
    rw [h.active, Option.filter_eq_some_iff] at hlast
    rw [h.modelTime]
    exact of_decide_eq_true hlast.2
  edge_active := fun key hkey => h.edge_active hkey
  edge_complete := fun a b ha hb hne => MarkovGraph.mem_keys_iff.2 (h.edge_complete a b ha hb hne)
  edge_state := fun key e he => h.edge_state he

/-- Applying an observation again changes nothing, and reports nothing new and no executable that
    started or stopped. The two calls may visit their hash maps in different orders. -/
theorem apply_idempotent (s : Stores F16) (ord' : HashOrder) :
    let first := u.apply num ord s obs policy
    let second := u.apply num ord' first.1 obs policy
    second.1 = first.1 ∧
      second.2.newExes = [] ∧ second.2.newMaps = [] ∧ second.2.newEdges = [] ∧
      second.2.runningNow = [] ∧ second.2.stoppedNow = [] := by
  intro first second
  obtain ⟨rejected, partialExes, heq⟩ := apply_of_settled num u ord' policy obs
    (apply_spec num u ord s obs policy).settled
  have hsecond : second = (first.1, { ModelDelta.empty with rejected, partialExes }) := heq
  rw [hsecond]
  exact ⟨rfl, rfl, rfl, rfl, rfl, rfl⟩

end Account

end PreloadNg
