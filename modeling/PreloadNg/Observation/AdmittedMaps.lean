import PreloadNg.Observation.ApplySpec
import PreloadNg.Stores.View

set_option autoImplicit false

/-! # Maps and relation after admission

Admission stores the first sighting of each new map and relates every admitted executable to its
maps. Both are read off the candidates, by map key and by path. -/

namespace PreloadNg

/-! ## The stored maps -/

section Admission

variable {F16 : Type}

theorem mapAt_admitMaps (exeId : ExeId) (maps : List MapSegment) (st : Applying F16)
    (key : MapKey) :
    (maps.foldl (admitMap exeId) st).stores.mapAt key =
      (st.stores.mapAt key).or (maps.find? fun m => m.key = key) := by
  induction maps generalizing st with
  | nil => exact (Option.or_none).symm
  | cons map rest ih =>
      have hstep : (admitMap exeId st map).stores.mapAt key =
          if key = map.key then some ((st.stores.mapAt key).getD map) else st.stores.mapAt key :=
        st.stores.maps.lookup_ensure map key
      rw [List.foldl_cons, ih, hstep, List.find?_cons]
      by_cases hkey : map.key = key
      · rw [if_pos hkey.symm, decide_eq_true hkey]
        cases st.stores.mapAt key <;> rfl
      · rw [if_neg fun h => hkey h.symm, decide_eq_false hkey]

section Candidates

variable (policy : AdmissionPolicy) (now : UInt64) (runningPaths : FxHashSet Path)

theorem mapAt_admitCandidate (st : Applying F16) (c : CandidateExe) (key : MapKey) :
    (admitCandidate policy now runningPaths st c).stores.mapAt key =
      (st.stores.mapAt key).or
        ((if policy.Accepts c then c.maps else []).find? fun m => m.key = key) := by
  by_cases h : policy.Accepts c
  · rw [if_pos h]
    obtain ⟨k, hk⟩ := h
    obtain ⟨st', hst', -, hstores, -⟩ := acceptCandidate_eq now runningPaths st c k
    have hold : st'.stores.mapAt key = st.stores.mapAt key := by
      rw [hst']
      rfl
    simp only [admitCandidate, hk]
    rw [hstores, mapAt_admitMaps, hold]
  · rw [if_neg h, (admitCandidate_of_not_accepts policy now runningPaths st c h).1]
    exact (Option.or_none).symm

/-- The maps of the accepted candidates, in the order in which they are stored. -/
def acceptedMaps (cs : List CandidateExe) : List MapSegment :=
  cs.flatMap fun c => if policy.Accepts c then c.maps else []

theorem mapAt_admitCandidates (cs : List CandidateExe) (st : Applying F16) (key : MapKey) :
    (cs.foldl (admitCandidate policy now runningPaths) st).stores.mapAt key =
      (st.stores.mapAt key).or ((acceptedMaps policy cs).find? fun m => m.key = key) := by
  induction cs generalizing st with
  | nil => exact (Option.or_none).symm
  | cons c rest ih =>
      rw [List.foldl_cons, ih, mapAt_admitCandidate, Option.or_assoc, ← List.find?_append]
      rfl

end Candidates

section Admitted

variable (ord : HashOrder) (policy : AdmissionPolicy) (s : Stores F16) (obs : Observation)

/-- A sighting of a map that is stored: the map is allowed and its executable admitted. -/
def AdmittedMap (modelTime : UInt64) (m : MapSegment) : Prop :=
  ∃ p, Admits policy obs modelTime p ∧ .mapSeen p m ∈ obs ∧ policy.allowMap m.path = true

/-- The sightings in the order in which they are stored. -/
def admittedMaps : List MapSegment :=
  acceptedMaps policy ((ord.enum (collect policy s.modelTime obs).candidates.iter).map Prod.snd)

theorem mem_admittedMaps (m : MapSegment) :
    m ∈ admittedMaps ord policy s obs ↔ AdmittedMap policy obs s.modelTime m := by
  rw [admittedMaps, acceptedMaps, List.mem_flatMap]
  constructor
  · rintro ⟨c, hc, hm⟩
    rw [mem_candidates] at hc
    split at hm
    · next hacc =>
        exact ⟨c.path, ⟨c, hc, hacc⟩, (mem_maps_candidate policy hc m).1 hm⟩
    · exact absurd hm List.not_mem_nil
  · rintro ⟨p, ⟨c, hc, hacc⟩, hm⟩
    have hpath := (candidateOf_collect policy _ obs hc).path_eq
    refine ⟨c, (mem_candidates ord policy s obs c).2 (hpath.symm ▸ hc), ?_⟩
    rw [if_pos hacc]
    exact (mem_maps_candidate policy hc m).2 hm

/-- Admission keeps the maps that are stored, and stores a sighting for each other key. -/
theorem mapAt_admitted (key : MapKey) :
    (admitted ord policy s obs).mapAt key =
      (s.mapAt key).or ((admittedMaps ord policy s obs).find? fun m => m.key = key) :=
  mapAt_admitCandidates policy _ _ _ ⟨s, ModelDelta.empty, ∅⟩ key

end Admitted

/-! ## The relation -/

variable {s t : Stores F16}

theorem Grows.mapIdByKey (h : Grows s t) {key : MapKey} {id : MapId}
    (hid : s.maps.idByKey key = some id) : t.maps.idByKey key = some id := by
  obtain ⟨m, hm, rfl⟩ := KeyedStore.idByKey_eq_some.1 hid
  exact KeyedStore.idByKey_of_get? (h.maps id m hm)

theorem Grows.relAt (h : Grows s t) {p : Path} {key : MapKey} (hrel : s.relAt p key) :
    t.relAt p key := by
  obtain ⟨e, m, he, hm, hem⟩ := hrel
  exact ⟨e, m, h.exes _ e he, h.mapIdByKey hm, h.rel e m hem⟩

/-- Ids that were related before belong to the path and the key they belong to now. -/
theorem Grows.relAt_of_rel (h : Grows s t) (hs : s.WF) {p : Path} {key : MapKey} {e : ExeId}
    {m : MapId} (he : t.exes.idByKey ⟨p⟩ = some e) (hm : t.maps.idByKey key = some m)
    (hrel : s.exeMaps.Rel e m) : s.relAt p key := by
  obtain ⟨k, hk⟩ := liveExe_iff_idByKey.1 (hs.exe_live e m hrel)
  obtain ⟨seg, hseg⟩ := hs.map_live e m hrel
  have hseg := KeyedStore.idByKey_of_get? hseg
  obtain rfl := ExeStore.idByKey_inj (h.exes k e hk) he
  obtain rfl := KeyedStore.idByKey_inj (h.mapIdByKey hseg) hm
  exact ⟨e, m, hk, hseg, hrel⟩

section Candidates

variable (policy : AdmissionPolicy) (now : UInt64) (runningPaths : FxHashSet Path)

/-- An accepted candidate is related to each of its maps. -/
theorem relAt_admitCandidate (st : Applying F16) {c : CandidateExe} (hacc : policy.Accepts c)
    {m : MapSegment} (hm : m ∈ c.maps) :
    (admitCandidate policy now runningPaths st c).stores.relAt c.path m.key := by
  have hid := idByKey_admitCandidate policy now runningPaths st c hacc
  have hat : (admitCandidate policy now runningPaths st c).stores.mapAt m.key ≠ none := by
    rw [mapAt_admitCandidate, if_pos hacc, Ne, Option.or_eq_none_iff, not_and, List.find?_eq_none]
    exact fun _ h => h m hm (decide_eq_true rfl)
  obtain ⟨id, hmap⟩ := Option.ne_none_iff_exists'.1 fun h => hat (KeyedStore.lookup_eq_none.2 h)
  refine ⟨_, id, hid, hmap, ?_⟩
  rw [rel_admitCandidate]
  exact Or.inr ⟨hacc, hid, m, hm, hmap⟩

theorem relAt_admitCandidates (cs : List CandidateExe) (st : Applying F16) {c : CandidateExe}
    (hc : c ∈ cs) (hacc : policy.Accepts c) {m : MapSegment} (hm : m ∈ c.maps) :
    (cs.foldl (admitCandidate policy now runningPaths) st).stores.relAt c.path m.key := by
  induction cs generalizing st with
  | nil => exact absurd hc List.not_mem_nil
  | cons c' rest ih =>
      rcases List.mem_cons.1 hc with rfl | hc
      · exact (grows_admitCandidates policy now runningPaths rest _).relAt
          (relAt_admitCandidate policy now runningPaths st hacc hm)
      · exact ih _ hc

end Candidates

/-- Admission relates each admitted executable to the allowed maps seen for it. -/
theorem relAt_admitted (ord : HashOrder) (policy : AdmissionPolicy) (obs : Observation)
    (hs : s.WF) (p : Path) (key : MapKey) :
    (admitted ord policy s obs).relAt p key ↔
      s.relAt p key ∨ (Admits policy obs s.modelTime p ∧
        ∃ m, .mapSeen p m ∈ obs ∧ policy.allowMap m.path = true ∧ m.key = key) := by
  have hgrows := grows_admitted ord policy s obs
  constructor
  · rintro ⟨e, id, he, hid, hrel⟩
    rcases rel_admitCandidates policy _ _ _ _ e id hrel with hold | ⟨c, hc, hacc, hce, m, hm, hmid⟩
    · exact Or.inl (hgrows.relAt_of_rel hs he hid hold)
    · rw [mem_candidates] at hc
      obtain ⟨hseen, hallow⟩ := (mem_maps_candidate policy hc m).1 hm
      obtain rfl : c.path = p := congrArg ExeKey.path (ExeStore.idByKey_inj hce he)
      exact Or.inr ⟨⟨c, hc, hacc⟩, m, hseen, hallow, KeyedStore.idByKey_inj hmid hid⟩
  · rintro (hold | ⟨⟨c, hc, hacc⟩, m, hseen, hallow, rfl⟩)
    · exact hgrows.relAt hold
    · have hpath := (candidateOf_collect policy _ obs hc).path_eq
      have hm := (mem_maps_candidate policy hc m).2 ⟨hseen, hallow⟩
      subst hpath
      exact relAt_admitCandidates policy _ _ _ _ ((mem_candidates ord policy s obs c).2 hc) hacc hm

end Admission

end PreloadNg
