import PreloadNg.Engine.WellFormed
import PreloadNg.Observation.AdmittedMaps

set_option autoImplicit false

/-! # `apply`, read by path

The effect of one `apply` on the executable and the active entry of a path, on the map of a key and
on the relation between the two. -/

namespace PreloadNg

variable {F16 F32 : Type} [Float32Ops F32] {num : Numerics F16 F32}

/-- The executable runs in the observation, or it was active within the window before it. -/
def StaysActive (u : DefaultModelUpdater F32) (obs : Observation) (s : Stores F16) (id : ExeId) :
    Prop :=
  (∃ e, s.exes.get? id = some e ∧ obs.sees e.key.path) ∨
    ∃ last, s.active.seenAt id = some last ∧
      satSub (obs.time s.modelTime) last ≤ u.activeWindow

section Apply

variable {u : DefaultModelUpdater F32} {ord : HashOrder} {s r : Stores F16} {obs : Observation}
  {policy : AdmissionPolicy} (h : ApplySpec num u ord s obs policy r)

include h

theorem ApplySpec.exeAt (p : Path) :
    r.exeAt p =
      (if Admits policy obs s.modelTime p then
        some (((s.exeAt p).getD (Exe.new ⟨p⟩)).touch (obs.time s.modelTime))
      else s.exeAt p).map
        (Exe.settle (obs.time s.modelTime) (collect policy s.modelTime obs).runningPaths
          (accountingPeriod s obs)) := by
  rw [← exeAt_admitted ord policy s obs p]
  exact ExeStore.lookup_of_get?_map (Exe.settle_key _ _ _) h.exes ⟨p⟩

/-- An executable is stored after `apply` if it was before or is admitted. -/
theorem ApplySpec.exeAt_cases {p : Path} {e : Exe} (he : r.exeAt p = some e) :
    (e.running = true ↔ obs.sees p) ∧
    ((Admits policy obs s.modelTime p ∧ e.lastSeenTime = some (obs.time s.modelTime)) ∨
      (¬ Admits policy obs s.modelTime p ∧
        ∃ e₀, s.exeAt p = some e₀ ∧ e.lastSeenTime = e₀.lastSeenTime)) := by
  obtain ⟨id, hid, hkey⟩ := Stores.exeAt_eq_some.1 he
  refine ⟨by rw [h.running_iff hid, hkey], ?_⟩
  rw [h.exeAt] at he
  by_cases hadmits : Admits policy obs s.modelTime p
  · rw [if_pos hadmits, Option.map_some] at he
    obtain rfl := Option.some.inj he
    exact Or.inl ⟨hadmits, Exe.settle_lastSeenTime _ _ _ _⟩
  · rw [if_neg hadmits, Option.map_eq_some_iff] at he
    obtain ⟨e₀, he₀, rfl⟩ := he
    exact Or.inr ⟨hadmits, e₀, he₀, Exe.settle_lastSeenTime _ _ _ _⟩

theorem ApplySpec.activeAt (hs : s.WF) (p : Path) :
    r.activeAt p =
      if (r.exeAt p).any Exe.running then some (obs.time s.modelTime)
      else (s.activeAt p).filter
        fun last => satSub (obs.time s.modelTime) last ≤ u.activeWindow := by
  cases hid : r.exes.idByKey ⟨p⟩ with
  | none =>
      have hr : r.exeAt p = none := ExeStore.lookup_eq_none.2 hid
      have hold : s.exes.idByKey ⟨p⟩ = none := by
        rw [Option.eq_none_iff_forall_ne_some]
        intro id hid'
        exact absurd (hid.symm.trans (h.idByKey hid')) (by simp)
      rw [Stores.activeAt, hid, hr, Stores.activeAt, hold]
      rfl
  | some id =>
      obtain ⟨e, he, hkey⟩ := ExeStore.idByKey_eq_some.1 hid
      have hr : r.exeAt p = some e := Stores.exeAt_eq_some.2 ⟨id, he, hkey⟩
      -- the id of a path that was not stored before was not active before
      have hold : s.activeAt p = s.active.seenAt id := by
        cases hid' : s.exes.idByKey ⟨p⟩ with
        | some id' =>
            obtain rfl := Option.some.inj ((h.idByKey hid').symm.trans hid)
            rw [Stores.activeAt, hid', Option.bind_some]
        | none =>
            rw [Stores.activeAt, hid']
            symm
            rw [Option.bind_none, Option.eq_none_iff_forall_ne_some]
            intro last hlast
            obtain ⟨key, hk⟩ := liveExe_iff_idByKey.1
              (hs.active_live id ((ActiveSet.mem_exes _ id).2 ⟨last, hlast⟩))
            rw [ExeStore.idByKey_inj (h.idByKey hk) hid] at hk
            exact absurd (hid'.symm.trans hk) (by simp)
      rw [Stores.activeAt, hid, Option.bind_some, h.active, hr, hold,
        Stores.isRunning_of_get? he, Option.any_some]
      split
      · rw [Option.filter_some, satSub_self, if_pos (by simp)]
      · rfl

/-- Refreshing and crediting the executables keeps their ids. -/
theorem ApplySpec.idByKey_eq (key : ExeKey) :
    r.exes.idByKey key = (admitted ord policy s obs).exes.idByKey key :=
  ExeStore.idByKey_of_get?_map (Exe.settle_key _ _ _) h.exes key

/-- An id that was live belongs to the path it belongs to now. -/
theorem ApplySpec.idByKey_of_liveExe {key : ExeKey} {id : ExeId} (hid : r.exes.idByKey key = some id)
    (hl : s.LiveExe id) : s.exes.idByKey key = some id := by
  obtain ⟨key', hkey'⟩ := liveExe_iff_idByKey.1 hl
  rwa [ExeStore.idByKey_inj (h.idByKey hkey') hid] at hkey'

/-- The old edge under the key of two stored paths. -/
theorem ApplySpec.old_edgeAt (hs : s.WF) {p q : Path} {a b : ExeId} (ha : r.exes.idByKey ⟨p⟩ = some a)
    (hb : r.exes.idByKey ⟨q⟩ = some b) :
    s.edgeAt p q = (s.markov.get? (EdgeKey.new a b)).map (Edge.seenFrom a b) := by
  refine Option.ext fun e => ?_
  rw [Stores.edgeAt_eq_some, Option.map_eq_some_iff]
  constructor
  · rintro ⟨a', b', e₀, ha', hb', he₀, hseen⟩
    obtain rfl := Option.some.inj ((h.idByKey ha').symm.trans ha)
    obtain rfl := Option.some.inj ((h.idByKey hb').symm.trans hb)
    exact ⟨e₀, he₀, hseen⟩
  · rintro ⟨e₀, he₀, hseen⟩
    -- the ends of an old edge were live
    obtain ⟨hla, hlb⟩ := (EdgeKey.new_both s.LiveExe a b).1
      (hs.edge_live _ (MarkovGraph.mem_keys_iff.2 ⟨e₀, he₀⟩))
    exact ⟨a, b, e₀, h.idByKey_of_liveExe ha hla, h.idByKey_of_liveExe hb hlb, he₀, hseen⟩

/-- A map that is stored stays as it is, and each other key gets one of its sightings. -/
theorem ApplySpec.mapAt (key : MapKey) :
    r.mapAt key =
      (s.mapAt key).or ((admittedMaps ord policy s obs).find? fun m => m.key = key) := by
  rw [← mapAt_admitted, Stores.mapAt, h.maps, Stores.mapAt]

theorem ApplySpec.mapAt_eq_none (key : MapKey) :
    r.mapAt key = none ↔
      s.mapAt key = none ∧ ∀ m, AdmittedMap policy obs s.modelTime m → m.key ≠ key := by
  rw [h.mapAt, Option.or_eq_none_iff, List.find?_eq_none]
  simp only [mem_admittedMaps, decide_eq_true_eq, ne_eq]

theorem ApplySpec.relAt (hs : s.WF) (p : Path) (key : MapKey) :
    r.relAt p key ↔
      s.relAt p key ∨ (Admits policy obs s.modelTime p ∧
        ∃ m, .mapSeen p m ∈ obs ∧ policy.allowMap m.path = true ∧ m.key = key) := by
  rw [← relAt_admitted ord policy obs hs]
  unfold Stores.relAt
  rw [h.exeMaps, h.maps]
  simp only [h.idByKey_eq]

/-! ### Executables that stay active -/

/-- A stored executable runs after `apply` if the observation sees its path. -/
theorem ApplySpec.isRunning_iff {id : ExeId} {e : Exe} (he : s.exes.get? id = some e) :
    r.isRunning id = true ↔ obs.sees e.key.path := by
  obtain ⟨e', he', hkey⟩ := ExeStore.idByKey_eq_some.1 (h.idByKey (ExeStore.idByKey_of_get? he))
  rw [Stores.isRunning_of_get? he', h.running_iff he', hkey]

theorem ApplySpec.mem_active_of_running {id : ExeId} (hrun : r.isRunning id = true) :
    id ∈ r.active.exes := by
  refine (ActiveSet.mem_exes _ id).2 ⟨obs.time s.modelTime, ?_⟩
  rw [h.active, if_pos hrun, Option.filter_some, satSub_self, if_pos (by simp)]

theorem ApplySpec.mem_active_of_stays {id : ExeId} (hid : StaysActive u obs s id) :
    id ∈ r.active.exes := by
  rcases hid with ⟨e, he, hsees⟩ | ⟨last, hlast, hwithin⟩
  · exact h.mem_active_of_running ((h.isRunning_iff he).2 hsees)
  · by_cases hrun : r.isRunning id = true
    · exact h.mem_active_of_running hrun
    · refine (ActiveSet.mem_exes _ id).2 ⟨last, ?_⟩
      rw [h.active, if_neg hrun, hlast, Option.filter_some, if_pos (decide_eq_true hwithin)]

/-- The stored executables that are active after `apply` are those that stayed active. -/
theorem ApplySpec.mem_active_iff {id : ExeId} (hl : s.LiveExe id) :
    id ∈ r.active.exes ↔ StaysActive u obs s id := by
  refine ⟨fun hid => ?_, h.mem_active_of_stays⟩
  obtain ⟨e, he⟩ := hl
  obtain ⟨last, hlast⟩ := (ActiveSet.mem_exes _ id).1 hid
  rw [h.active, Option.filter_eq_some_iff] at hlast
  by_cases hrun : r.isRunning id = true
  · exact Or.inl ⟨e, he, (h.isRunning_iff he).1 hrun⟩
  · rw [if_neg hrun] at hlast
    exact Or.inr ⟨last, hlast.1, of_decide_eq_true hlast.2⟩

end Apply

end PreloadNg
