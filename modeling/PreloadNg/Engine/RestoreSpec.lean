import PreloadNg.Engine.Restore
import PreloadNg.Lib.Records
import PreloadNg.Stores.View

set_option autoImplicit false

/-! # What restoring does

One lemma for each loop of `stores_from_snapshot`, for an arbitrary snapshot, and `RestoreSpec`,
which puts them together. -/

namespace PreloadNg

variable {F16 F32 : Type}

/-! ## Maps -/

/-- The segment a record restores. -/
def MapRecord.segment (r : MapRecord) : MapSegment :=
  MapSegment.new r.path r.offset r.length r.updateTime

/-- The loop over the map records keeps what is stored and adds the first record of each new
    key. -/
theorem restoreMaps_spec (rs : List MapRecord) (s : Stores F16) :
    ∃ maps : MapStore, rs.foldl restoreMap s = { s with maps := maps } ∧
      ∀ key, maps.lookup key =
        (s.maps.lookup key).or ((rs.find? fun r => r.key = key).map MapRecord.segment) := by
  induction rs generalizing s with
  | nil => exact ⟨s.maps, rfl, fun key => by simp⟩
  | cons r rest ih =>
      obtain ⟨maps, hstores, hlookup⟩ := ih (restoreMap s r)
      refine ⟨maps, hstores, fun key => ?_⟩
      have hensure : (restoreMap s r).maps.lookup key =
          if key = r.key then some ((s.maps.lookup key).getD r.segment)
          else s.maps.lookup key :=
        s.maps.lookup_ensure r.segment key
      rw [hlookup, hensure, List.find?_cons]
      by_cases hkey : key = r.key
      · subst hkey
        cases s.maps.lookup r.key <;> simp
      · rw [if_neg hkey]
        simp [Ne.symm hkey]

/-! ## Executables -/

/-- The loop over the executable records, read by path: every record overwrites the two persisted
    fields, after storing the executable if it is new. -/
theorem restoreExes_spec (rs : List ExeRecord) (s : Stores F16) :
    ∃ exes : ExeStore, rs.foldl restoreExe s = { s with exes := exes } ∧
      (∀ p, exes.lookup ⟨p⟩ =
        rs.foldl (fun o r => if p = r.path then some ((o.getD (Exe.new ⟨p⟩)).restore r) else o)
          (s.exes.lookup ⟨p⟩)) ∧
      ((rs.map ExeRecord.path).Nodup → (∀ r ∈ rs, s.exes.lookup ⟨r.path⟩ = none) →
        exes.keys = s.exes.keys ++ rs.map fun r => ⟨r.path⟩) := by
  induction rs generalizing s with
  | nil => exact ⟨s.exes, rfl, fun _ => rfl, fun _ _ => by simp⟩
  | cons r rest ih =>
      obtain ⟨exes, hstores, hlookup, hkeys⟩ := ih (restoreExe s r)
      have hone : ∀ p, (restoreExe s r).exes.lookup ⟨p⟩ =
          if p = r.path then some (((s.exes.lookup ⟨p⟩).getD (Exe.new ⟨p⟩)).restore r)
          else s.exes.lookup ⟨p⟩ := by
        intro p
        refine (s.exes.lookup_upsert ⟨r.path⟩ (Exe.restore r) (Exe.key_restore r) ⟨p⟩).trans ?_
        by_cases hp : p = r.path
        · subst hp
          rw [if_pos rfl, if_pos rfl]
        · rw [if_neg hp, if_neg (by simpa using hp)]
      refine ⟨exes, hstores, ?_, ?_⟩
      · intro p
        rw [hlookup, hone]
        rfl
      · intro hnodup hnew
        rw [List.map_cons, List.nodup_cons] at hnodup
        -- paths are distinct, so each record makes a program of its own
        have hfresh := ExeStore.lookup_eq_none.1 (hnew r List.mem_cons_self)
        have hfirst : (restoreExe s r).exes.keys = s.exes.keys ++ [⟨r.path⟩] :=
          s.exes.keys_upsert_new ⟨r.path⟩ (Exe.restore r) (Exe.key_restore r) hfresh
        rw [hkeys hnodup.2 ?_, hfirst, List.append_assoc]
        · rfl
        · intro r' hr'
          have hne : r'.path ≠ r.path := fun h => hnodup.1 (h ▸ List.mem_map_of_mem hr')
          rw [hone, if_neg hne]
          exact hnew r' (List.mem_cons_of_mem r hr')

/-- With distinct paths, the executable of a path is restored from its record. -/
theorem lookup_restoreExes {rs : List ExeRecord} (hnodup : (rs.map ExeRecord.path).Nodup)
    (p : Path) :
    rs.foldl (fun o r => if p = r.path then some ((o.getD (Exe.new ⟨p⟩)).restore r) else o) none =
      (rs.find? fun r => r.path = p).map fun r => (Exe.new ⟨p⟩).restore r := by
  have hskip : ∀ (rs : List ExeRecord) (o : Option Exe), p ∉ rs.map ExeRecord.path →
      rs.foldl (fun o r => if p = r.path then some ((o.getD (Exe.new ⟨p⟩)).restore r) else o) o =
        o := by
    intro rs
    induction rs with
    | nil => intro o _; rfl
    | cons r rest ih =>
        intro o hp
        rw [List.map_cons, List.mem_cons, not_or] at hp
        rw [List.foldl_cons, if_neg hp.1, ih o hp.2]
  induction rs with
  | nil => rfl
  | cons r rest ih =>
      rw [List.map_cons, List.nodup_cons] at hnodup
      rw [List.foldl_cons, List.find?_cons]
      by_cases hp : p = r.path
      · subst hp
        rw [if_pos rfl, hskip rest _ hnodup.1]
        simp
      · rw [if_neg hp, ih hnodup.2]
        simp [Ne.symm hp]

/-- A path is stored after the loop exactly when it is recorded. -/
theorem isSome_restoreExes (rs : List ExeRecord) (p : Path) (o : Option Exe) :
    (rs.foldl (fun o r => if p = r.path then some ((o.getD (Exe.new ⟨p⟩)).restore r) else o)
      o).isSome ↔ o.isSome ∨ p ∈ rs.map ExeRecord.path := by
  induction rs generalizing o with
  | nil => simp
  | cons r rest ih =>
      rw [List.foldl_cons, ih]
      by_cases hp : p = r.path <;> simp [hp]

/-! ## The active set -/

/-- The loop over the executables makes exactly the recent ones active. -/
theorem restoreActives_spec (activeWindow : UInt64) (rows : List (ExeId × Exe)) (s : Stores F16) :
    ∃ active : ActiveSet, rows.foldl (restoreActive activeWindow) s = { s with active := active } ∧
      ∀ id, active.seenAt id =
        if ∃ row ∈ rows, row.1 = id ∧ row.2.isRecent s.modelTime activeWindow then
          some s.modelTime
        else s.active.seenAt id := by
  induction rows generalizing s with
  | nil => exact ⟨s.active, rfl, fun id => by simp⟩
  | cons row rest ih =>
      obtain ⟨active, hstores, hseen⟩ := ih (restoreActive activeWindow s row)
      have hone : ∃ active₀ : ActiveSet,
          restoreActive activeWindow s row = { s with active := active₀ } ∧
          ∀ id, active₀.seenAt id =
            if row.1 = id ∧ row.2.isRecent s.modelTime activeWindow then some s.modelTime
            else s.active.seenAt id := by
        unfold restoreActive
        split
        · next hrecent =>
            refine ⟨_, rfl, fun id => ?_⟩
            rw [ActiveSet.seenAt_update]
            exact if_congr (by simp [hrecent, eq_comm]) rfl rfl
        · next hrecent => exact ⟨s.active, rfl, fun id => by simp [hrecent]⟩
      obtain ⟨active₀, hstores₀, hseen₀⟩ := hone
      rw [hstores₀] at hstores hseen
      refine ⟨active, by rw [List.foldl_cons, hstores₀]; exact hstores, fun id => ?_⟩
      rw [hseen, hseen₀]
      by_cases hrow : row.1 = id ∧ row.2.isRecent s.modelTime activeWindow
      · have hall : ∃ row' ∈ row :: rest, row'.1 = id ∧ row'.2.isRecent s.modelTime activeWindow :=
          ⟨row, List.mem_cons_self, hrow⟩
        rw [if_pos hrow, if_pos hall]
        split <;> rfl
      · rw [if_neg hrow]
        exact if_congr (by simp [hrow]) rfl rfl

/-! ## Pairs -/

/-- Both ends of the record are stored. -/
def ExeMapRecord.Resolves (s : Stores F16) (r : ExeMapRecord F32) : Prop :=
  (∃ e, s.exes.idByKey ⟨r.exePath⟩ = some e) ∧ ∃ m, s.maps.idByKey r.mapKey = some m

/-- The effect of a record that resolves. -/
def attachRecord (s : Stores F16) (r : ExeMapRecord F32) : Stores F16 :=
  match s.exes.idByKey ⟨r.exePath⟩, s.maps.idByKey r.mapKey with
  | some e, some m => s.attachMap e m
  | _, _ => s

theorem restoreExeMap_eq_ok (s : Stores F16) (r : ExeMapRecord F32) (t : Stores F16) :
    restoreExeMap s r = .ok t ↔ r.Resolves s ∧ attachRecord s r = t := by
  unfold restoreExeMap ExeMapRecord.Resolves attachRecord
  cases s.exes.idByKey ⟨r.exePath⟩ with
  | none => simp [okOr, bind, Except.bind]
  | some e =>
      cases s.maps.idByKey r.mapKey with
      | none => simp [okOr, bind, Except.bind]
      | some m => simp [okOr, bind, Except.bind, pure, Except.pure]

theorem attachRecord_eq (s : Stores F16) (r : ExeMapRecord F32) :
    ∃ exeMaps : ExeMapIndex, attachRecord s r = { s with exeMaps := exeMaps } ∧
      ∀ e m, exeMaps.Rel e m ↔ s.exeMaps.Rel e m ∨
        (s.exes.idByKey ⟨r.exePath⟩ = some e ∧ s.maps.idByKey r.mapKey = some m) := by
  unfold attachRecord
  split
  · next e₀ m₀ he hm =>
      refine ⟨_, rfl, fun e m => ?_⟩
      rw [ExeMapIndex.rel_attach, he, hm, or_comm, Option.some.injEq, Option.some.injEq, eq_comm,
        @eq_comm _ m]
  · next hnot =>
      refine ⟨s.exeMaps, rfl, fun e m => ⟨Or.inl, ?_⟩⟩
      rintro (h | ⟨he, hm⟩)
      · exact h
      · exact (hnot e m he hm).elim

theorem attachRecords_spec (rs : List (ExeMapRecord F32)) (s : Stores F16) :
    ∃ exeMaps : ExeMapIndex, rs.foldl attachRecord s = { s with exeMaps := exeMaps } ∧
      ∀ e m, exeMaps.Rel e m ↔ s.exeMaps.Rel e m ∨
        ∃ r ∈ rs, s.exes.idByKey ⟨r.exePath⟩ = some e ∧ s.maps.idByKey r.mapKey = some m := by
  induction rs generalizing s with
  | nil => exact ⟨s.exeMaps, rfl, fun e m => by simp⟩
  | cons r rest ih =>
      obtain ⟨exeMaps₀, hstores₀, hrel₀⟩ := attachRecord_eq s r
      obtain ⟨exeMaps, hstores, hrel⟩ := ih (attachRecord s r)
      rw [hstores₀] at hstores hrel
      refine ⟨exeMaps, by rw [List.foldl_cons, hstores₀]; exact hstores, fun e m => ?_⟩
      rw [hrel, hrel₀, or_assoc]
      simp

/-- The loop over the pairs. -/
theorem restoreExeMaps_eq_ok (rs : List (ExeMapRecord F32)) (s t : Stores F16) :
    rs.foldlM restoreExeMap s = .ok t ↔
      (∀ r ∈ rs, r.Resolves s) ∧ rs.foldl attachRecord s = t := by
  refine foldlM_eq_ok_iff restoreExeMap_eq_ok ?_ rs s t
  intro s r r' _
  obtain ⟨exeMaps, hstores, -⟩ := attachRecord_eq s r
  rw [hstores]
  rfl

/-! ## Edges -/

section Edges

variable (num : Numerics F16 F32)

/-- The key a record's edge is stored under. -/
def MarkovRecord.edgeKey (exes : ExeStore) (r : MarkovRecord F32) : Option EdgeKey := do
  let a ← exes.idByKey ⟨r.exeA⟩
  let b ← exes.idByKey ⟨r.exeB⟩
  return EdgeKey.new a b

omit num in
theorem MarkovRecord.edgeKey_eq_some {exes : ExeStore} {r : MarkovRecord F32} {key : EdgeKey} :
    r.edgeKey exes = some key ↔ ∃ a b, exes.idByKey ⟨r.exeA⟩ = some a ∧
      exes.idByKey ⟨r.exeB⟩ = some b ∧ EdgeKey.new a b = key := by
  simp [MarkovRecord.edgeKey, Option.bind_eq_some_iff]

omit num in
/-- The records under the key of two paths are the records of these paths. -/
theorem MarkovRecord.edgeKey_eq_new {exes : ExeStore} {r : MarkovRecord F32} {p q : Path}
    {a b : ExeId} (ha : exes.idByKey ⟨p⟩ = some a) (hb : exes.idByKey ⟨q⟩ = some b) :
    r.edgeKey exes = some (EdgeKey.new a b) ↔
      (r.exeA = p ∧ r.exeB = q) ∨ (r.exeA = q ∧ r.exeB = p) := by
  rw [MarkovRecord.edgeKey_eq_some]
  constructor
  · rintro ⟨a', b', ha', hb', hnew⟩
    rcases EdgeKey.new_inj hnew with ⟨rfl, rfl⟩ | ⟨rfl, rfl⟩
    · exact Or.inl ⟨congrArg ExeKey.path (ExeStore.idByKey_inj ha' ha),
        congrArg ExeKey.path (ExeStore.idByKey_inj hb' hb)⟩
    · exact Or.inr ⟨congrArg ExeKey.path (ExeStore.idByKey_inj ha' hb),
        congrArg ExeKey.path (ExeStore.idByKey_inj hb' ha)⟩
  · rintro (⟨rfl, rfl⟩ | ⟨rfl, rfl⟩)
    · exact ⟨a, b, ha, hb, rfl⟩
    · exact ⟨b, a, hb, ha, EdgeKey.new_comm b a⟩

/-- Both endpoints of the record are stored. -/
def MarkovRecord.Resolves (exes : ExeStore) (r : MarkovRecord F32) : Prop :=
  ∃ key, r.edgeKey exes = some key

/-- The edge a record restores, at model time `now`. -/
def MarkovRecord.edge (now : UInt64) (r : MarkovRecord F32) : Edge F16 :=
  (MarkovGraph.freshEdge num.zero now .neither).restore num r

/-- The effect of a record that resolves. -/
def linkRecord (s : Stores F16) (r : MarkovRecord F32) : Stores F16 :=
  match s.exes.idByKey ⟨r.exeA⟩, s.exes.idByKey ⟨r.exeB⟩ with
  | some a, some b =>
    let key := EdgeKey.new a b
    let (s, isNew) := s.ensureMarkovEdge num.zero a b s.modelTime .neither
    if isNew then { s with markov := s.markov.modify key (Edge.restore num r) } else s
  | _, _ => s

theorem restoreEdge_eq_ok (s : Stores F16) (r : MarkovRecord F32) (t : Stores F16) :
    restoreEdge num s r = .ok t ↔ r.Resolves s.exes ∧ linkRecord num s r = t := by
  unfold restoreEdge MarkovRecord.Resolves MarkovRecord.edgeKey linkRecord
  cases s.exes.idByKey ⟨r.exeA⟩ with
  | none => simp [okOr, bind, Except.bind]
  | some a =>
      cases s.exes.idByKey ⟨r.exeB⟩ with
      | none => simp [okOr, bind, Except.bind]
      | some b => simp [okOr, bind, Except.bind, pure, Except.pure]

/-- A record adds its edge unless the pair has one. -/
theorem linkRecord_eq (s : Stores F16) (r : MarkovRecord F32) :
    ∃ markov : MarkovGraph F16, linkRecord num s r = { s with markov := markov } ∧
      ∀ key, markov.get? key = (s.markov.get? key).or
        (if r.edgeKey s.exes = some key then some (r.edge num s.modelTime) else none) := by
  unfold linkRecord MarkovRecord.edgeKey
  cases ha : s.exes.idByKey ⟨r.exeA⟩ with
  | none => exact ⟨s.markov, rfl, fun key => by simp⟩
  | some a =>
      cases hb : s.exes.idByKey ⟨r.exeB⟩ with
      | none => exact ⟨s.markov, rfl, fun key => by simp⟩
      | some b =>
          dsimp only [Option.bind_eq_bind, Option.bind_some, Stores.ensureMarkovEdge]
          by_cases hmem : EdgeKey.new a b ∈ s.markov.keys
          · rw [MarkovGraph.ensureEdge_of_mem _ _ _ hmem]
            refine ⟨s.markov, rfl, fun key => ?_⟩
            obtain ⟨e, he⟩ := MarkovGraph.mem_keys_iff.1 hmem
            by_cases hkey : EdgeKey.new a b = key
            · subst hkey
              rw [he]
              rfl
            · rw [if_neg (by simpa using hkey), Option.or_none]
          · rw [if_pos ((MarkovGraph.ensureEdge_flag _ _ _ _ _ _).2 hmem)]
            refine ⟨_, rfl, fun key => ?_⟩
            rw [MarkovGraph.get?_modify, MarkovGraph.get?_ensureEdge, MarkovGraph.get?_ensureEdge]
            by_cases hkey : EdgeKey.new a b = key
            · subst hkey
              have hnone : s.markov.get? (EdgeKey.new a b) = none := by
                rw [Option.eq_none_iff_forall_ne_some]
                exact fun e he => hmem (MarkovGraph.mem_keys_iff.2 ⟨e, he⟩)
              rw [if_pos rfl, if_pos ⟨rfl, hmem⟩, hnone]
              simp [MarkovRecord.edge]
            · rw [if_neg (Ne.symm hkey), if_neg (fun h => hkey h.1.symm),
                if_neg (by simpa using hkey), Option.or_none]

theorem linkRecords_spec (rs : List (MarkovRecord F32)) (s : Stores F16) :
    ∃ markov : MarkovGraph F16, rs.foldl (linkRecord num) s = { s with markov := markov } ∧
      ∀ key, markov.get? key = (s.markov.get? key).or
        ((rs.find? fun r => r.edgeKey s.exes = some key).map (MarkovRecord.edge num s.modelTime)) := by
  induction rs generalizing s with
  | nil => exact ⟨s.markov, rfl, fun key => by simp⟩
  | cons r rest ih =>
      obtain ⟨markov₀, hstores₀, hget₀⟩ := linkRecord_eq num s r
      obtain ⟨markov, hstores, hget⟩ := ih (linkRecord num s r)
      rw [hstores₀] at hstores hget
      refine ⟨markov, by rw [List.foldl_cons, hstores₀]; exact hstores, fun key => ?_⟩
      rw [hget, hget₀, List.find?_cons]
      by_cases hkey : r.edgeKey s.exes = some key
      · simp [hkey]
      · simp [hkey]

/-- The loop over the edges. -/
theorem restoreEdges_eq_ok (rs : List (MarkovRecord F32)) (s t : Stores F16) :
    rs.foldlM (restoreEdge num) s = .ok t ↔
      (∀ r ∈ rs, r.Resolves s.exes) ∧ rs.foldl (linkRecord num) s = t := by
  refine foldlM_eq_ok_iff (restoreEdge_eq_ok num) ?_ rs s t
  intro s r r' _
  obtain ⟨markov, hstores, -⟩ := linkRecord_eq num s r
  rw [hstores]

end Edges

/-! ## The whole restore -/

section Restore

variable (num : Numerics F16 F32) (snapshot : StoresSnapshot F32) (activeWindow : UInt64)

/-- The paths and keys that the relation and the edges of a snapshot refer to are recorded. -/
structure StateSnapshot.Resolves (state : StateSnapshot F32) : Prop where
  exeMaps : ∀ r ∈ state.exeMaps, r.exePath ∈ state.exes.map ExeRecord.path ∧
    r.mapKey ∈ state.maps.map MapRecord.key
  markovEdges : ∀ r ∈ state.markovEdges, r.exeA ∈ state.exes.map ExeRecord.path ∧
    r.exeB ∈ state.exes.map ExeRecord.path

/-- The stores `t` are what a snapshot restores to. -/
structure RestoreSpec (t : Stores F16) : Prop where
  modelTime : t.modelTime = snapshot.state.modelTime
  lastAccountingTime : t.lastAccountingTime = snapshot.state.lastAccountingTime
  mapAt : ∀ key, t.mapAt key =
    (snapshot.state.maps.find? fun r => r.key = key).map MapRecord.segment
  /-- The executable of a path is written by every record of the path, the last one winning. -/
  exeAt : ∀ p, t.exeAt p = snapshot.state.exes.foldl
    (fun o r => if p = r.path then some ((o.getD (Exe.new ⟨p⟩)).restore r) else o) none
  /-- Ids follow the order of the records. -/
  keys : (snapshot.state.exes.map ExeRecord.path).Nodup →
    t.exes.keys = snapshot.state.exes.map fun r => ⟨r.path⟩
  /-- The recent executables are active, as of the model time. -/
  active : ∀ id, t.active.seenAt id =
    if (t.exes.get? id).any (Exe.isRecent snapshot.state.modelTime activeWindow) then
      some snapshot.state.modelTime
    else none
  rel : ∀ e m, t.exeMaps.Rel e m ↔ ∃ r ∈ snapshot.state.exeMaps,
    t.exes.idByKey ⟨r.exePath⟩ = some e ∧ t.maps.idByKey r.mapKey = some m
  /-- Each pair has the edge of its first record, if both endpoints are active. -/
  markov : ∀ key, t.markov.get? key =
    ((snapshot.state.markovEdges.find? fun r => r.edgeKey t.exes = some key).map
      (MarkovRecord.edge num snapshot.state.modelTime)).filter
      fun _ => MarkovGraph.isActive t.active.exes key

/-- The stores before the two loops that may fail. -/
def restoredEntities : Stores F16 :=
  let state := snapshot.state
  let s : Stores F16 :=
    { (∅ : Stores F16) with
      modelTime := state.modelTime
      lastAccountingTime := state.lastAccountingTime }
  let s := state.exes.foldl restoreExe (state.maps.foldl restoreMap s)
  s.exes.iter.foldl (restoreActive activeWindow) s

theorem restoredEntities_eq {s : Stores F16} (hs : restoredEntities snapshot activeWindow = s) :
    ∃ (maps : MapStore) (exes : ExeStore) (active : ActiveSet),
      s =
        { exes := exes
          maps := maps
          exeMaps := ∅
          markov := ∅
          active := active
          modelTime := snapshot.state.modelTime
          lastAccountingTime := snapshot.state.lastAccountingTime } ∧
      (∀ key, maps.lookup key =
        (snapshot.state.maps.find? fun r => r.key = key).map MapRecord.segment) ∧
      (∀ p, exes.lookup ⟨p⟩ = snapshot.state.exes.foldl
        (fun o r => if p = r.path then some ((o.getD (Exe.new ⟨p⟩)).restore r) else o) none) ∧
      ((snapshot.state.exes.map ExeRecord.path).Nodup →
        exes.keys = snapshot.state.exes.map fun r => ⟨r.path⟩) ∧
      ∀ id, active.seenAt id =
        if (exes.get? id).any (Exe.isRecent snapshot.state.modelTime activeWindow) then
          some snapshot.state.modelTime
        else none := by
  -- maps, then programs, then the active set, each over what was restored before
  obtain ⟨maps, hmaps, hmapAt⟩ := restoreMaps_spec snapshot.state.maps
    { (∅ : Stores F16) with
      modelTime := snapshot.state.modelTime
      lastAccountingTime := snapshot.state.lastAccountingTime }
  obtain ⟨exes, hexes, hexeAt, hkeys⟩ := restoreExes_spec snapshot.state.exes
    (snapshot.state.maps.foldl restoreMap
      { (∅ : Stores F16) with
        modelTime := snapshot.state.modelTime
        lastAccountingTime := snapshot.state.lastAccountingTime })
  rw [hmaps] at hexes hexeAt hkeys
  obtain ⟨active, hactive, hseen⟩ := restoreActives_spec activeWindow exes.iter
    { (∅ : Stores F16) with
      exes := exes
      maps := maps
      modelTime := snapshot.state.modelTime
      lastAccountingTime := snapshot.state.lastAccountingTime }
  refine ⟨maps, exes, active, ?_, fun key => ?_, hexeAt, fun h => hkeys h fun _ _ => rfl, ?_⟩
  · rw [← hs]
    unfold restoredEntities
    dsimp only
    rw [hmaps, hexes]
    exact hactive
  · rw [hmapAt]
    rfl
  · intro id
    have hempty : (∅ : Stores F16).active.seenAt id = none := ActiveSet.seenAt_empty id
    rw [hseen]
    refine if_congr ?_ rfl hempty
    rw [Option.any_eq_true]
    constructor
    · rintro ⟨⟨id', e⟩, hmem, rfl, hrecent⟩
      exact ⟨e, (exes.mem_iter _ e).1 hmem, hrecent⟩
    · rintro ⟨e, he, hrecent⟩
      exact ⟨(id, e), (exes.mem_iter id e).2 he, rfl, hrecent⟩

/-- Restoring is the two checks, then the loops without them. -/
theorem storesFromSnapshot_eq_ok (t : Stores F16) :
    storesFromSnapshot num snapshot activeWindow = .ok t ↔
      (∀ r ∈ snapshot.state.exeMaps,
        r.Resolves (restoredEntities snapshot activeWindow : Stores F16)) ∧
      (∀ r ∈ snapshot.state.markovEdges,
        r.Resolves (restoredEntities snapshot activeWindow : Stores F16).exes) ∧
      (let s : Stores F16 := snapshot.state.markovEdges.foldl (linkRecord num)
        (snapshot.state.exeMaps.foldl attachRecord (restoredEntities snapshot activeWindow))
       { s with markov := s.markov.pruneInactive s.active.exes }) = t := by
  have hexes : (snapshot.state.exeMaps.foldl attachRecord
      (restoredEntities snapshot activeWindow : Stores F16)).exes =
      (restoredEntities snapshot activeWindow : Stores F16).exes := by
    obtain ⟨exeMaps, hstores, -⟩ := attachRecords_spec snapshot.state.exeMaps
      (restoredEntities snapshot activeWindow : Stores F16)
    rw [hstores]
  have hstart : storesFromSnapshot num snapshot activeWindow =
      (snapshot.state.exeMaps.foldlM restoreExeMap
        (restoredEntities snapshot activeWindow : Stores F16)).bind fun s =>
      (snapshot.state.markovEdges.foldlM (restoreEdge num) s).bind fun s =>
      .ok { s with markov := s.markov.pruneInactive s.active.exes } := rfl
  rw [hstart]
  refine except_bind_eq_ok.trans ?_
  constructor
  · rintro ⟨s₁, h₁, h⟩
    obtain ⟨hpairs, rfl⟩ := (restoreExeMaps_eq_ok _ _ _).1 h₁
    obtain ⟨s₂, h₂, h⟩ := except_bind_eq_ok.1 h
    obtain ⟨hedges, rfl⟩ := (restoreEdges_eq_ok num _ _ _).1 h₂
    rw [hexes] at hedges
    exact ⟨hpairs, hedges, Except.ok.inj h⟩
  · rintro ⟨hpairs, hedges, rfl⟩
    rw [← hexes] at hedges
    exact ⟨_, (restoreExeMaps_eq_ok _ _ _).2 ⟨hpairs, rfl⟩, except_bind_eq_ok.2
      ⟨_, (restoreEdges_eq_ok num _ _ _).2 ⟨hedges, rfl⟩, rfl⟩⟩

/-- Restoring succeeds exactly when every reference is recorded. -/
theorem storesFromSnapshot_isOk_iff :
    (∃ t : Stores F16, storesFromSnapshot num snapshot activeWindow = .ok t) ↔
      snapshot.state.Resolves := by
  simp only [storesFromSnapshot_eq_ok]
  generalize hs : (restoredEntities snapshot activeWindow : Stores F16) = s
  obtain ⟨maps, exes, active, rfl, hmapAt, hexeAt, -, -⟩ := restoredEntities_eq snapshot _ hs
  -- a path resolves when a record has it
  have hexe : ∀ p, (∃ id, exes.idByKey ⟨p⟩ = some id) ↔
      p ∈ snapshot.state.exes.map ExeRecord.path := by
    intro p
    rw [← Option.isSome_iff_exists, ← Option.ne_none_iff_isSome, ne_eq,
      ← ExeStore.lookup_eq_none, ← ne_eq, Option.ne_none_iff_isSome, hexeAt, isSome_restoreExes]
    simp
  have hmap : ∀ key, (∃ id, maps.idByKey key = some id) ↔
      key ∈ snapshot.state.maps.map MapRecord.key := by
    intro key
    rw [← Option.isSome_iff_exists, ← Option.ne_none_iff_isSome, ne_eq,
      ← KeyedStore.lookup_eq_none, ← ne_eq, Option.ne_none_iff_isSome, hmapAt, Option.isSome_map,
      List.find?_isSome]
    simp
  have hedge : ∀ r : MarkovRecord F32, r.Resolves exes ↔
      r.exeA ∈ snapshot.state.exes.map ExeRecord.path ∧
        r.exeB ∈ snapshot.state.exes.map ExeRecord.path := by
    intro r
    rw [← hexe, ← hexe]
    unfold MarkovRecord.Resolves MarkovRecord.edgeKey
    cases exes.idByKey ⟨r.exeA⟩ with
    | none => simp
    | some a => cases exes.idByKey ⟨r.exeB⟩ <;> simp
  constructor
  · rintro ⟨t, hpairs, hedges, -⟩
    exact
      { exeMaps := fun r hr => ⟨(hexe _).1 (hpairs r hr).1, (hmap _).1 (hpairs r hr).2⟩
        markovEdges := fun r hr => (hedge r).1 (hedges r hr) }
  · intro h
    exact ⟨_, fun r hr => ⟨(hexe _).2 (h.exeMaps r hr).1, (hmap _).2 (h.exeMaps r hr).2⟩,
      fun r hr => (hedge r).2 (h.markovEdges r hr), rfl⟩

/-- Restoring reads the state of a snapshot, not its metadata. -/
theorem storesFromSnapshot_congr {snapshot' : StoresSnapshot F32}
    (h : snapshot.state = snapshot'.state) :
    (storesFromSnapshot num snapshot activeWindow : Except Error (Stores F16)) =
      storesFromSnapshot num snapshot' activeWindow := by
  unfold storesFromSnapshot
  rw [h]

theorem restore_spec {t : Stores F16}
    (h : storesFromSnapshot num snapshot activeWindow = .ok t) :
    RestoreSpec num snapshot activeWindow t := by
  obtain ⟨-, -, rfl⟩ := (storesFromSnapshot_eq_ok num snapshot activeWindow t).1 h
  generalize hs : (restoredEntities snapshot activeWindow : Stores F16) = s
  obtain ⟨maps, exes, active, rfl, hmapAt, hexeAt, hkeys, hactive⟩ :=
    restoredEntities_eq snapshot _ hs
  obtain ⟨exeMaps, hstores, hrel⟩ := attachRecords_spec snapshot.state.exeMaps
    ({ exes := exes, maps := maps, exeMaps := ∅, markov := ∅, active := active
       modelTime := snapshot.state.modelTime
       lastAccountingTime := snapshot.state.lastAccountingTime } : Stores F16)
  rw [hstores]
  obtain ⟨markov, hstores', hget⟩ := linkRecords_spec num snapshot.state.markovEdges
    ({ exes := exes, maps := maps, exeMaps := exeMaps, markov := ∅, active := active
       modelTime := snapshot.state.modelTime
       lastAccountingTime := snapshot.state.lastAccountingTime } : Stores F16)
  rw [hstores']
  exact
    { modelTime := rfl
      lastAccountingTime := rfl
      mapAt := hmapAt
      exeAt := hexeAt
      keys := hkeys
      active := hactive
      rel := by
        intro e m
        rw [hrel]
        simp
      markov := by
        intro key
        dsimp only
        rw [MarkovGraph.get?_pruneInactive, hget]
        rfl }

end Restore

end PreloadNg
