import PreloadNg.Engine.WellFormed

set_option autoImplicit false

/-! # Restoring snapshots that are not well formed

A snapshot comes from a file. Unknown paths and keys are refused, duplicate records are absorbed, and
edges of executables that are not recent are dropped. What is not checked is that an edge record
joins two different paths. -/

namespace PreloadNg

variable {F16 F32 : Type} (num : Numerics F16 F32)

/-- Whether the last record of a path was seen within the window before the model time. -/
def StateSnapshot.recent (state : StateSnapshot F32) (activeWindow : UInt64) (p : Path) : Bool :=
  (state.exes.reverse.find? fun r => r.path = p).any fun r =>
    r.lastSeenTime.any fun last => satSub state.modelTime last ≤ activeWindow

/-- The documented invariants, with edges between active executables only. -/
structure Stores.Sound (s : Stores F16) : Prop extends s.Documented where
  edge_active : ∀ key ∈ s.markov.keys, key.a ∈ s.active.exes ∧ key.b ∈ s.active.exes

theorem isRecent_restore (modelTime activeWindow : UInt64) (r : ExeRecord) (e : Exe) :
    (e.restore r).isRecent modelTime activeWindow =
      r.lastSeenTime.any fun last => satSub modelTime last ≤ activeWindow := by
  unfold Exe.isRecent Exe.restore
  cases r.lastSeenTime <;> rfl

/-- The last record of a path decides whether it is recent. -/
theorem isRecent_restoreExes (rs : List ExeRecord) (modelTime activeWindow : UInt64) (p : Path) :
    (rs.foldl (fun o r => if p = r.path then some ((o.getD (Exe.new ⟨p⟩)).restore r) else o)
        none).any (Exe.isRecent modelTime activeWindow) =
      (rs.reverse.find? fun r => r.path = p).any fun r =>
        r.lastSeenTime.any fun last => satSub modelTime last ≤ activeWindow := by
  induction rs using List.reverseRecOn with
  | nil => rfl
  | append_singleton rs r ih =>
      rw [List.foldl_append, List.foldl_cons, List.foldl_nil, List.reverse_append]
      by_cases hp : p = r.path
      · simp [hp, isRecent_restore]
      · simp [hp, Ne.symm hp, ih]

section Restored

variable {num} {snapshot : StoresSnapshot F32} {activeWindow : UInt64} {t : Stores F16}
  (h : RestoreSpec num snapshot activeWindow t)

include h

theorem RestoreSpec.mem_active {p : Path} {id : ExeId} (hid : t.exes.idByKey ⟨p⟩ = some id) :
    id ∈ t.active.exes ↔ snapshot.state.recent activeWindow p = true := by
  obtain ⟨e, he, hkey⟩ := ExeStore.idByKey_eq_some.1 hid
  have hat : t.exeAt p = some e := Stores.exeAt_eq_some.2 ⟨id, he, hkey⟩
  rw [ActiveSet.mem_exes, StateSnapshot.recent, ← isRecent_restoreExes, ← h.exeAt, hat,
    Option.any_some]
  simp only [h.active, he, Option.any_some]
  split <;> simp_all

/-- A recent path has an id. -/
theorem RestoreSpec.idByKey_of_recent {p : Path}
    (hp : snapshot.state.recent activeWindow p = true) : ∃ id, t.exes.idByKey ⟨p⟩ = some id := by
  rw [StateSnapshot.recent, ← isRecent_restoreExes, ← h.exeAt, Option.any_eq_true] at hp
  obtain ⟨e, he, -⟩ := hp
  obtain ⟨id, hid, hkey⟩ := Stores.exeAt_eq_some.1 he
  exact ⟨id, ExeStore.idByKey_eq_some.2 ⟨e, hid, hkey⟩⟩

/-- A record that joins a recent path with itself leaves an edge. -/
theorem RestoreSpec.self_edge {r : MarkovRecord F32} (hr : r ∈ snapshot.state.markovEdges)
    (hself : r.exeA = r.exeB) (hrecent : snapshot.state.recent activeWindow r.exeA = true) :
    ∃ key ∈ t.markov.keys, key.a = key.b := by
  obtain ⟨id, hid⟩ := h.idByKey_of_recent hrecent
  have hkey : r.edgeKey t.exes = some (EdgeKey.new id id) :=
    (MarkovRecord.edgeKey_eq_new hid hid).2 (Or.inl ⟨rfl, hself.symm⟩)
  have hactive : MarkovGraph.isActive t.active.exes (EdgeKey.new id id) = true := by
    have hid' := (h.mem_active hid).2 hrecent
    exact MarkovGraph.isActive_new.2 ⟨hid', hid'⟩
  obtain ⟨first, hfirst⟩ := Option.isSome_iff_exists.1
    (List.find?_isSome.2 ⟨r, hr, by simpa using hkey⟩ :
      (snapshot.state.markovEdges.find? fun r => r.edgeKey t.exes = some
        (EdgeKey.new id id)).isSome)
  have hedge : t.markov.get? (EdgeKey.new id id) =
      some (first.edge num snapshot.state.modelTime) := by
    rw [h.markov, hfirst, Option.map_some, Option.filter_some, if_pos hactive]
  refine ⟨EdgeKey.new id id, MarkovGraph.mem_keys_iff.2 ⟨_, hedge⟩, ?_⟩
  rw [EdgeKey.new_of_le (le_refl id)]

theorem RestoreSpec.sound (hself : ∀ r ∈ snapshot.state.markovEdges, r.exeA = r.exeB →
    snapshot.state.recent activeWindow r.exeA = false) : t.Sound where
  toDocumented := by
    refine (h.wf_of_distinct fun key hkey heq => ?_).documented
    obtain ⟨r, hr, heq', hid⟩ := h.self_record hkey heq
    have hrecent := (h.mem_active hid).1 (h.edge_origin hkey).2.1
    rw [hself r hr heq'] at hrecent
    exact absurd hrecent (by simp)
  edge_active key hkey := (h.edge_origin hkey).2

end Restored

/-- A snapshot is refused or restored to stores with the documented invariants exactly when it refers
    to something that it does not record, or no edge record joins a recent path with itself. -/
theorem restored_sound_iff (snapshot : StoresSnapshot F32) (activeWindow : UInt64) :
    (∀ t : Stores F16, storesFromSnapshot num snapshot activeWindow = .ok t → t.Sound) ↔
      ¬ snapshot.state.Resolves ∨ ∀ r ∈ snapshot.state.markovEdges, r.exeA = r.exeB →
        snapshot.state.recent activeWindow r.exeA = false := by
  constructor
  · intro hsound
    by_cases hres : snapshot.state.Resolves
    · right
      intro r hr hself
      obtain ⟨t, ht⟩ := (storesFromSnapshot_isOk_iff num snapshot activeWindow).2 hres
      rw [Bool.eq_false_iff]
      intro hrecent
      obtain ⟨key, hkey, heq⟩ :=
        (restore_spec num snapshot activeWindow ht).self_edge hr hself hrecent
      exact ((hsound t ht).edge_live key hkey).1 heq
    · exact Or.inl hres
  · rintro (hres | hself) t ht
    · exact absurd ((storesFromSnapshot_isOk_iff num snapshot activeWindow).1 ⟨t, ht⟩) hres
    · exact (restore_spec num snapshot activeWindow ht).sound hself

/-- One executable, and an edge record of it with itself: the restored graph has the edge. -/
theorem self_edge_restored :
    let path := Path.ofString "/bin/a"
    let snapshot : StoresSnapshot ℚ :=
      { info := SnapshotMeta.initial
        state :=
          { modelTime := 100
            lastAccountingTime := 100
            exes := [⟨path, 0, some 100⟩]
            maps := []
            exeMaps := []
            markovEdges := [⟨path, path, fun _ => 0, fun _ _ => 0, 0⟩] } }
    ((storesFromSnapshot Numerics.rational snapshot 10).toOption.map fun t =>
        t.markov.keys.map fun key => decide (key.a = key.b)) = some [true] ∧
      ¬ ∀ t, storesFromSnapshot Numerics.rational snapshot 10 = .ok t → t.Sound := by
  intro path snapshot
  have hkeys : ((storesFromSnapshot Numerics.rational snapshot 10).toOption.map fun t =>
      t.markov.keys.map fun key => decide (key.a = key.b)) = some [true] := by
    decide +kernel
  refine ⟨hkeys, fun hsound => ?_⟩
  obtain ⟨t, ht, hself⟩ := Option.map_eq_some_iff.1 hkeys
  cases hload : storesFromSnapshot Numerics.rational snapshot 10 with
  | error err =>
      rw [hload] at ht
      exact absurd ht (by simp [Except.toOption])
  | ok t' =>
      rw [hload] at ht
      obtain rfl := Option.some.inj ht
      obtain ⟨key, hkey, heq⟩ := List.mem_map.1 (hself ▸ List.mem_singleton_self true)
      exact ((hsound t' hload).edge_live key hkey).1 (of_decide_eq_true heq)

end PreloadNg
