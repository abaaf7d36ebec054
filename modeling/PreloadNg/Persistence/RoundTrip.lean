import PreloadNg.Persistence.Repo

set_option autoImplicit false

/-! # Saving and loading a snapshot

A snapshot with valid UTF-8 paths and without repeated keys is loaded as it was saved, up to its
metadata. -/

namespace PreloadNg

variable {F32 F64 : Type} {enc : Encoding F32 F64}

/-- What the text columns and the primary keys ask of a snapshot. -/
structure StateSnapshot.Storable (state : StateSnapshot F32) : Prop where
  exes_utf8 : ∀ r ∈ state.exes, r.path.toStr.isSome
  maps_utf8 : ∀ r ∈ state.maps, r.path.toStr.isSome
  exeMaps_utf8 : ∀ r ∈ state.exeMaps, r.exePath.toStr.isSome ∧ r.mapKey.path.toStr.isSome
  markovs_utf8 : ∀ r ∈ state.markovEdges, r.exeA.toStr.isSome ∧ r.exeB.toStr.isSome
  exes_nodup : (state.exes.map ExeRecord.path).Nodup
  maps_nodup : (state.maps.map MapRecord.key).Nodup
  exeMaps_nodup : (state.exeMaps.map fun r => (r.exePath, r.mapKey)).Nodup
  markovs_nodup : (state.markovEdges.map fun r => (r.exeA, r.exeB)).Nodup

/-! ## Records and rows -/

/-- The text of a UTF-8 path determines it. -/
theorem Path.toStringLossy_inj {p q : Path} (hp : p.toStr.isSome) (hq : q.toStr.isSome)
    (h : p.toStringLossy = q.toStringLossy) : p = q := by
  rw [← Path.ofString_toStringLossy hp, h, Path.ofString_toStringLossy hq]

theorem exeOfRow_exeRow {r : ExeRecord} (h : r.path.toStr.isSome) : exeOfRow (exeRow r) = r := by
  obtain ⟨path, total, last⟩ := r
  simp only [exeOfRow, exeRow, Path.ofString_toStringLossy h]
  cases last <;> rfl

theorem mapOfRow_mapRow {r : MapRecord} (h : r.path.toStr.isSome) : mapOfRow (mapRow r) = r := by
  obtain ⟨path, offset, length, updateTime⟩ := r
  simp only [mapOfRow, mapRow, Path.ofString_toStringLossy h]
  rfl

theorem exeMapOfRow_exeMapRow {r : ExeMapRecord F32} (hexe : r.exePath.toStr.isSome)
    (hmap : r.mapKey.path.toStr.isSome) : exeMapOfRow enc (exeMapRow enc r) = r := by
  obtain ⟨exePath, ⟨mapPath, offset, length⟩, prob⟩ := r
  simp only [exeMapOfRow, exeMapRow, Path.ofString_toStringLossy hexe,
    Path.ofString_toStringLossy hmap, enc.asF32_asF64]
  rfl

/-- The row of an edge record keeps its paths and decodes to the record. -/
theorem markovRow_eq_ok (henc : enc.RoundTrips) (r : MarkovRecord F32) :
    ∃ row, markovRow enc r = .ok row ∧ row.key = (r.exeA.toStringLossy, r.exeB.toStringLossy) ∧
      (r.exeA.toStr.isSome → r.exeB.toStr.isSome → markovOfRow enc row = .ok r) := by
  obtain ⟨ttl, httl, httl'⟩ := henc.ttl r.timeToLeave
  obtain ⟨tp, htp, htp'⟩ := henc.tp r.transitionProb
  refine ⟨⟨r.exeA.toStringLossy, r.exeB.toStringLossy, ttl, tp, r.bothRunningTime.toInt64⟩, ?_,
    rfl, ?_⟩
  · unfold markovRow
    rw [httl, htp]
    rfl
  · intro ha hb
    unfold markovOfRow
    dsimp only
    rw [httl', htp', Path.ofString_toStringLossy ha, Path.ofString_toStringLossy hb]
    rfl

/-! ## The whole snapshot -/

/-- The primary keys of the rows are distinct as those of the records are. -/
theorem nodup_rowKeys {ρ Row K K' : Type} {rs : List ρ} {row : ρ → Row} {rowKey : Row → K'}
    {key : ρ → K} (hnodup : (rs.map key).Nodup)
    (hinj : ∀ r ∈ rs, ∀ r' ∈ rs, rowKey (row r) = rowKey (row r') → key r = key r') :
    ((rs.map row).map rowKey).Nodup := by
  rw [List.map_map]
  refine List.Nodup.map_on ?_ (List.Nodup.of_map key hnodup)
  intro r hr r' hr' heq
  exact List.inj_on_of_nodup_map hnodup hr hr' (hinj r hr r' hr' heq)

variable {snapshot : StoresSnapshot F32} (h : snapshot.state.Storable)

include h

theorem exeRows_nodup : ((snapshot.state.exes.map exeRow).map ExeRow.path).Nodup :=
  nodup_rowKeys h.exes_nodup fun r hr r' hr' heq =>
    Path.toStringLossy_inj (h.exes_utf8 r hr) (h.exes_utf8 r' hr') heq

theorem mapRows_nodup : ((snapshot.state.maps.map mapRow).map MapRow.key).Nodup := by
  refine nodup_rowKeys h.maps_nodup ?_
  intro r hr r' hr' heq
  have heq : mapOfRow (mapRow r) = { mapOfRow (mapRow r') with updateTime := r.updateTime } := by
    simp only [MapRow.key, Prod.mk.injEq] at heq
    obtain ⟨hpath, hoffset, hlength⟩ := heq
    simp only [mapOfRow, hpath, hoffset, hlength]
    rfl
  rw [mapOfRow_mapRow (h.maps_utf8 r hr), mapOfRow_mapRow (h.maps_utf8 r' hr')] at heq
  rw [heq]
  rfl

theorem exeMapRows_nodup :
    ((snapshot.state.exeMaps.map (exeMapRow enc)).map ExeMapRow.key).Nodup := by
  refine nodup_rowKeys h.exeMaps_nodup ?_
  intro r hr r' hr' heq
  obtain ⟨hexe, hmap⟩ := h.exeMaps_utf8 r hr
  obtain ⟨hexe', hmap'⟩ := h.exeMaps_utf8 r' hr'
  have heq : exeMapOfRow enc (exeMapRow enc r) =
      { exeMapOfRow enc (exeMapRow enc r') with prob := r.prob } := by
    simp only [ExeMapRow.key, Prod.mk.injEq] at heq
    obtain ⟨hpath, hmapPath, hoffset, hlength⟩ := heq
    simp only [exeMapOfRow, hpath, hmapPath, hoffset, hlength]
    exact congrArg _ (enc.asF32_asF64 r.prob)
  rw [exeMapOfRow_exeMapRow hexe hmap, exeMapOfRow_exeMapRow hexe' hmap'] at heq
  rw [heq]

omit h in
/-- A function that gives the row of each record. -/
theorem exists_markovRow (henc : enc.RoundTrips) :
    ∃ row : MarkovRecord F32 → MarkovRow, ∀ r, markovRow enc r = .ok (row r) ∧
      (row r).key = (r.exeA.toStringLossy, r.exeB.toStringLossy) ∧
      (r.exeA.toStr.isSome → r.exeB.toStr.isSome → markovOfRow enc (row r) = .ok r) :=
  ⟨fun r => (markovRow_eq_ok henc r).choose, fun r => (markovRow_eq_ok henc r).choose_spec⟩

/-- What is saved is what is loaded, whatever was in the database. -/
theorem load_saveSnapshot (henc : enc.RoundTrips) (db : Database F64) :
    ∃ db' loaded, saveSnapshot enc snapshot db = .ok db' ∧ loadSnapshot enc db' = .ok loaded ∧
      loaded.state = snapshot.state := by
  obtain ⟨row, hrow⟩ := exists_markovRow henc
  -- one table after the other
  obtain ⟨state, hstate, hstateRows⟩ := Table.insert_of_new (uniqueConstraint "state.id")
    (show (stateRow snapshot).id ∉ (∅ : Table StateRow.id).rows.map StateRow.id from
      List.not_mem_nil)
  obtain ⟨exes, hexes, hexeRows⟩ := Table.foldlM_insert (uniqueConstraint "exes.path")
    (∅ : Table ExeRow.path) (fun _ _ => rfl) (exeRows_nodup h)
  obtain ⟨maps, hmaps, hmapRows⟩ := Table.foldlM_insert
    (uniqueConstraint "maps.path, maps.offset, maps.length")
    (∅ : Table MapRow.key) (fun _ _ => rfl) (mapRows_nodup h)
  obtain ⟨exeMaps, hexeMaps, hexeMapRows⟩ := Table.foldlM_insert
    (uniqueConstraint
      "exe_maps.exe_path, exe_maps.map_path, exe_maps.map_offset, exe_maps.map_length")
    (∅ : Table (ExeMapRow.key : ExeMapRow F64 → _)) (fun _ _ => rfl) (exeMapRows_nodup h)
  have hmarkovNodup : ((snapshot.state.markovEdges.map row).map MarkovRow.key).Nodup := by
    refine nodup_rowKeys h.markovs_nodup ?_
    intro r hr r' hr' heq
    rw [(hrow r).2.1, (hrow r').2.1, Prod.mk.injEq] at heq
    rw [Path.toStringLossy_inj (h.markovs_utf8 r hr).1 (h.markovs_utf8 r' hr').1 heq.1,
      Path.toStringLossy_inj (h.markovs_utf8 r hr).2 (h.markovs_utf8 r' hr').2 heq.2]
  obtain ⟨markovs, hmarkovs, hmarkovRows⟩ := Table.foldlM_insert
    (uniqueConstraint "markovs.exe_a, markovs.exe_b")
    (∅ : Table MarkovRow.key) (fun r _ => (hrow r).1) hmarkovNodup
  -- and each table decodes to the records it was made of
  have hhead : state.rows.find? (fun row => row.id = 1) = some (stateRow snapshot) := by
    rw [hstateRows]
    rfl
  have hexesBack : exes.rows.map exeOfRow = snapshot.state.exes := by
    rw [hexeRows]
    exact map_decode fun r hr => exeOfRow_exeRow (h.exes_utf8 r hr)
  have hmapsBack : maps.rows.map mapOfRow = snapshot.state.maps := by
    rw [hmapRows]
    exact map_decode fun r hr => mapOfRow_mapRow (h.maps_utf8 r hr)
  have hexeMapsBack : exeMaps.rows.map (exeMapOfRow enc) = snapshot.state.exeMaps := by
    rw [hexeMapRows]
    exact map_decode fun r hr =>
      exeMapOfRow_exeMapRow (h.exeMaps_utf8 r hr).1 (h.exeMaps_utf8 r hr).2
  have hmarkovsBack : markovs.rows.mapM (markovOfRow enc) = .ok snapshot.state.markovEdges := by
    rw [hmarkovRows]
    exact mapM_decode fun r hr => (hrow r).2.2 (h.markovs_utf8 r hr).1 (h.markovs_utf8 r hr).2
  refine ⟨⟨state, exes, maps, exeMaps, markovs⟩,
    ⟨(headOfRow (some (stateRow snapshot))).1, snapshot.state⟩, ?_, ?_, rfl⟩
  · exact except_bind_eq_ok.2 ⟨state, hstate, except_bind_eq_ok.2 ⟨exes, hexes,
      except_bind_eq_ok.2 ⟨maps, hmaps, except_bind_eq_ok.2 ⟨exeMaps, hexeMaps,
        except_bind_eq_ok.2 ⟨markovs, hmarkovs, rfl⟩⟩⟩⟩⟩
  · unfold loadSnapshot
    dsimp only
    rw [hmarkovsBack, hhead, hexesBack, hmapsBack, hexeMapsBack]
    rfl

end PreloadNg
