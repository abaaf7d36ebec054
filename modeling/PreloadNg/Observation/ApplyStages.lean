import PreloadNg.Observation.Candidates

set_option autoImplicit false

/-! # The stages of `apply`

One lemma for each stage of `apply`: what it does to each container. Admission is described by
executable path and map id, the running flags by executable id, the edges by edge key. -/

namespace PreloadNg

/-! ## Collecting -/

section Collect

variable (policy : AdmissionPolicy)

theorem collect_now (modelTime : UInt64) (obs : Observation) :
    (collect policy modelTime obs).now = obs.time modelTime := by
  have hfold : ∀ (obs : Observation) (c : Collected),
      (obs.foldl (Collected.event policy) c).now = obs.time c.now := by
    intro obs
    induction obs with
    | nil => intro c; rfl
    | cons event rest ih =>
        intro c
        rw [List.foldl_cons, ih]
        cases event <;> rfl
  exact hfold obs _

theorem mem_runningPaths (modelTime : UInt64) (obs : Observation) (p : Path) :
    p ∈ (collect policy modelTime obs).runningPaths ↔ obs.sees p := by
  have hfold : ∀ (obs : Observation) (c : Collected),
      p ∈ (obs.foldl (Collected.event policy) c).runningPaths ↔
        obs.sees p ∨ p ∈ c.runningPaths := by
    intro obs
    induction obs with
    | nil => intro c; simp [Observation.sees]
    | cons event rest ih =>
        intro c
        rw [List.foldl_cons, ih]
        cases event <;>
          simp only [Observation.sees, Collected.event, Collected.withCandidate, List.mem_cons,
            FxHashSet.mem_insert, reduceCtorEq, false_or, ObservationEvent.exeSeen.injEq]
        case exeSeen path pid =>
          constructor
          · rintro (⟨q, hq⟩ | rfl | h)
            · exact Or.inl ⟨q, Or.inr hq⟩
            · exact Or.inl ⟨pid, Or.inl ⟨rfl, rfl⟩⟩
            · exact Or.inr h
          · rintro (⟨q, ⟨rfl, -⟩ | hq⟩ | h)
            · exact Or.inr (Or.inl rfl)
            · exact Or.inl ⟨q, hq⟩
            · exact Or.inr (Or.inr h)
  rw [collect, hfold]
  simp

end Collect

/-! ## Admission -/

section Admission

variable {F16 : Type}

/-- Whether the policy admits the candidate. -/
def AdmissionPolicy.Accepts (policy : AdmissionPolicy) (c : CandidateExe) : Prop :=
  ∃ completeness, policy.decide c = .accept completeness

instance (policy : AdmissionPolicy) (c : CandidateExe) : Decidable (policy.Accepts c) :=
  match h : policy.decide c with
  | .accept completeness => isTrue ⟨completeness, h⟩
  | .reject _ => isFalse (by rintro ⟨k, hk⟩; exact absurd (h.symm.trans hk) (by simp))
  | .defer => isFalse (by rintro ⟨k, hk⟩; exact absurd (h.symm.trans hk) (by simp))

/-- Nothing stored is lost, and neither edges nor active set nor clocks are touched. -/
structure Grows (s t : Stores F16) : Prop where
  exes : ∀ key id, s.exes.idByKey key = some id → t.exes.idByKey key = some id
  maps : ∀ id m, s.maps.get? id = some m → t.maps.get? id = some m
  rel : ∀ e m, s.exeMaps.Rel e m → t.exeMaps.Rel e m
  markov : t.markov = s.markov
  active : t.active = s.active
  modelTime : t.modelTime = s.modelTime
  lastAccountingTime : t.lastAccountingTime = s.lastAccountingTime

theorem Grows.refl (s : Stores F16) : Grows s s :=
  ⟨fun _ _ h => h, fun _ _ h => h, fun _ _ h => h, rfl, rfl, rfl, rfl⟩

theorem Grows.trans {s t u : Stores F16} (h : Grows s t) (h' : Grows t u) : Grows s u where
  exes key id hk := h'.exes key id (h.exes key id hk)
  maps id m hm := h'.maps id m (h.maps id m hm)
  rel e m hr := h'.rel e m (h.rel e m hr)
  markov := h'.markov.trans h.markov
  active := h'.active.trans h.active
  modelTime := h'.modelTime.trans h.modelTime
  lastAccountingTime := h'.lastAccountingTime.trans h.lastAccountingTime

theorem liveExe_iff_idByKey {s : Stores F16} {id : ExeId} :
    s.LiveExe id ↔ ∃ key, s.exes.idByKey key = some id := by
  constructor
  · rintro ⟨e, he⟩
    exact ⟨e.key, ExeStore.idByKey_of_get? he⟩
  · rintro ⟨key, hkey⟩
    obtain ⟨e, he, -⟩ := ExeStore.idByKey_eq_some.1 hkey
    exact ⟨e, he⟩

theorem Grows.liveExe {s t : Stores F16} (h : Grows s t) {id : ExeId} (hl : s.LiveExe id) :
    t.LiveExe id := by
  rw [liveExe_iff_idByKey] at hl ⊢
  obtain ⟨key, hkey⟩ := hl
  exact ⟨key, h.exes key id hkey⟩

/-- Growth keeps the stores well formed, provided the new pairs join live ids. -/
theorem Grows.wf {s t : Stores F16} (h : Grows s t) (hs : s.WF)
    (hnew : ∀ e m, t.exeMaps.Rel e m → s.exeMaps.Rel e m ∨ (t.LiveExe e ∧ t.LiveMap m)) :
    t.WF where
  exe_live e m hr := (hnew e m hr).elim (fun hr => h.liveExe (hs.exe_live e m hr)) And.left
  map_live e m hr := by
    rcases hnew e m hr with hr | ⟨-, hl⟩
    · obtain ⟨seg, hseg⟩ := hs.map_live e m hr
      exact ⟨seg, h.maps m seg hseg⟩
    · exact hl
  edge_distinct key hk := hs.edge_distinct key (h.markov ▸ hk)
  edge_live key hk :=
    (hs.edge_live key (h.markov ▸ hk)).imp (fun hl => h.liveExe hl) fun hl => h.liveExe hl
  active_live e he := h.liveExe (hs.active_live e (h.active ▸ he))

/-! ### Maps of an admitted executable -/

theorem grows_admitMap (exeId : ExeId) (st : Applying F16) (map : MapSegment) :
    Grows st.stores (admitMap exeId st map).stores where
  exes _ _ h := h
  maps _ _ h := KeyedStore.get?_ensure_of_some h map
  rel e m h := (ExeMapIndex.rel_attach _ _ _ e m).2 (Or.inr h)
  markov := rfl
  active := rfl
  modelTime := rfl
  lastAccountingTime := rfl

@[simp] theorem exes_admitMaps (exeId : ExeId) (maps : List MapSegment) (st : Applying F16) :
    (maps.foldl (admitMap exeId) st).stores.exes = st.stores.exes := by
  induction maps generalizing st with
  | nil => rfl
  | cons map rest ih => exact ih (admitMap exeId st map)

@[simp] theorem activeExeIds_admitMaps (exeId : ExeId) (maps : List MapSegment)
    (st : Applying F16) : (maps.foldl (admitMap exeId) st).activeExeIds = st.activeExeIds := by
  induction maps generalizing st with
  | nil => rfl
  | cons map rest ih => exact ih (admitMap exeId st map)

theorem grows_admitMaps (exeId : ExeId) (maps : List MapSegment) (st : Applying F16) :
    Grows st.stores (maps.foldl (admitMap exeId) st).stores := by
  induction maps generalizing st with
  | nil => exact Grows.refl _
  | cons map rest ih => exact (grows_admitMap exeId st map).trans (ih (admitMap exeId st map))

/-- A map stored after the loop was stored before or is one of the list. -/
theorem get?_admitMaps (exeId : ExeId) (maps : List MapSegment) (st : Applying F16) {id : MapId}
    {m : MapSegment} (h : (maps.foldl (admitMap exeId) st).stores.maps.get? id = some m) :
    st.stores.maps.get? id = some m ∨ m ∈ maps := by
  induction maps generalizing st with
  | nil => exact Or.inl h
  | cons map rest ih =>
      rcases ih (admitMap exeId st map) h with h | h
      · rcases (KeyedStore.get?_ensure_iff st.stores.maps map id m).1 h with h | ⟨-, -, rfl⟩
        · exact Or.inl h
        · exact Or.inr List.mem_cons_self
      · exact Or.inr (List.mem_cons_of_mem map h)

/-- The loop adds exactly the pairs of the executable with the stored maps of the list. -/
theorem rel_admitMaps (exeId : ExeId) (maps : List MapSegment) (st : Applying F16) (e : ExeId)
    (m : MapId) :
    (maps.foldl (admitMap exeId) st).stores.exeMaps.Rel e m ↔
      st.stores.exeMaps.Rel e m ∨ (e = exeId ∧ ∃ map ∈ maps,
        (maps.foldl (admitMap exeId) st).stores.maps.idByKey map.key = some m) := by
  induction maps generalizing st with
  | nil => simp
  | cons map rest ih =>
      rw [List.foldl_cons, ih (admitMap exeId st map)]
      have hattach : (admitMap exeId st map).stores.exeMaps.Rel e m ↔
          (e = exeId ∧ m = (st.stores.maps.ensure map).2.1) ∨ st.stores.exeMaps.Rel e m :=
        ExeMapIndex.rel_attach _ _ _ e m
      -- the id given to `map` stays the id of its key for the rest of the loop
      have hid : (rest.foldl (admitMap exeId) (admitMap exeId st map)).stores.maps.idByKey map.key =
          some (st.stores.maps.ensure map).2.1 := by
        obtain ⟨m', hm', hkey⟩ := st.stores.maps.get?_ensure_id map
        have hgrown := (grows_admitMaps exeId rest (admitMap exeId st map)).maps _ m' hm'
        exact hkey ▸ KeyedStore.idByKey_of_get? hgrown
      rw [hattach]
      constructor
      · rintro ((⟨he, hm⟩ | h) | ⟨he, map', hmem, hm'⟩)
        · exact Or.inr ⟨he, map, List.mem_cons_self, hm ▸ hid⟩
        · exact Or.inl h
        · exact Or.inr ⟨he, map', List.mem_cons_of_mem map hmem, hm'⟩
      · rintro (h | ⟨he, map', hmem, hm'⟩)
        · exact Or.inl (Or.inr h)
        · rcases List.mem_cons.1 hmem with rfl | hmem
          · exact Or.inl (Or.inl ⟨he, Option.some.inj (hm'.symm.trans hid)⟩)
          · exact Or.inr ⟨he, map', hmem, hm'⟩

/-! ### One candidate -/

theorem idByKey_touchExe (now : UInt64) (s : Stores F16) (key k : ExeKey) :
    (touchExe now s key).1.exes.idByKey k =
      if k = key then some (s.exes.ensure key).2 else s.exes.idByKey k :=
  s.exes.idByKey_ensure key k

theorem exeAt_touchExe (now : UInt64) (s : Stores F16) (key : ExeKey) (p : Path) :
    (touchExe now s key).1.exeAt p =
      if p = key.path then some (((s.exeAt p).getD (Exe.new key)).touch now) else s.exeAt p := by
  refine (s.exes.lookup_upsert key (Exe.touch now) (Exe.key_touch now) ⟨p⟩).trans ?_
  exact if_congr (by cases key; simp) rfl rfl

theorem grows_touchExe (now : UInt64) (s : Stores F16) (key : ExeKey) :
    Grows s (touchExe now s key).1 where
  exes k id h := by
    rw [idByKey_touchExe]
    split
    · next hk =>
        obtain ⟨e, he, hkey⟩ := ExeStore.idByKey_eq_some.1 h
        have hkept := ExeStore.idByKey_of_get? (ExeStore.get?_ensure_of_some he key)
        rw [s.exes.idByKey_ensure, if_pos (hkey.trans hk)] at hkept
        exact hkept
    · exact h
  maps _ _ h := h
  rel _ _ h := h
  markov := rfl
  active := rfl
  modelTime := rfl
  lastAccountingTime := rfl

/-- The state in which the maps of an accepted candidate are admitted. -/
theorem acceptCandidate_eq (now : UInt64) (runningPaths : FxHashSet Path) (st : Applying F16)
    (c : CandidateExe) (completeness : Completeness) :
    ∃ st' : Applying F16, st'.stores = (touchExe now st.stores ⟨c.path⟩).1 ∧
      st'.activeExeIds = st.activeExeIds ∧
      (acceptCandidate now runningPaths st c completeness).stores =
        (c.maps.foldl (admitMap (st.stores.exes.ensure ⟨c.path⟩).2) st').stores ∧
      (acceptCandidate now runningPaths st c completeness).activeExeIds =
        if c.path ∈ runningPaths then
          st.activeExeIds.insert (st.stores.exes.ensure ⟨c.path⟩).2
        else st.activeExeIds := by
  refine ⟨⟨(touchExe now st.stores ⟨c.path⟩).1, _, st.activeExeIds⟩, rfl, rfl, rfl, ?_⟩
  unfold acceptCandidate
  dsimp only
  rw [activeExeIds_admitMaps]
  rfl

section OneCandidate

variable (policy : AdmissionPolicy) (now : UInt64) (runningPaths : FxHashSet Path)
  (st : Applying F16) (c : CandidateExe)

/-- A candidate that is not accepted changes at most the delta. -/
theorem admitCandidate_of_not_accepts (h : ¬ policy.Accepts c) :
    (admitCandidate policy now runningPaths st c).stores = st.stores ∧
      (admitCandidate policy now runningPaths st c).activeExeIds = st.activeExeIds := by
  unfold admitCandidate
  split
  · exact ⟨rfl, rfl⟩
  · exact ⟨rfl, rfl⟩
  · next k hk => exact absurd ⟨k, hk⟩ h

theorem grows_admitCandidate :
    Grows st.stores (admitCandidate policy now runningPaths st c).stores := by
  by_cases h : policy.Accepts c
  · obtain ⟨k, hk⟩ := h
    obtain ⟨st', hst', -, hstores, -⟩ := acceptCandidate_eq now runningPaths st c k
    simp only [admitCandidate, hk]
    rw [hstores]
    exact (hst' ▸ grows_touchExe now st.stores ⟨c.path⟩).trans (grows_admitMaps _ c.maps st')
  · rw [(admitCandidate_of_not_accepts policy now runningPaths st c h).1]
    exact Grows.refl _

theorem exeAt_admitCandidate (p : Path) :
    (admitCandidate policy now runningPaths st c).stores.exeAt p =
      if c.path = p ∧ policy.Accepts c then
        some (((st.stores.exeAt p).getD (Exe.new ⟨p⟩)).touch now)
      else st.stores.exeAt p := by
  by_cases h : policy.Accepts c
  · obtain ⟨k, hk⟩ := h
    obtain ⟨st', hst', -, hstores, -⟩ := acceptCandidate_eq now runningPaths st c k
    have hexes : (admitCandidate policy now runningPaths st c).stores.exes =
        (touchExe now st.stores ⟨c.path⟩).1.exes := by
      simp only [admitCandidate, hk]
      rw [hstores, exes_admitMaps, hst']
    have hat : (admitCandidate policy now runningPaths st c).stores.exeAt p =
        (touchExe now st.stores ⟨c.path⟩).1.exeAt p := by
      rw [Stores.exeAt, hexes, Stores.exeAt]
    rw [hat, exeAt_touchExe]
    by_cases hp : c.path = p
    · subst hp
      rw [if_pos rfl, if_pos ⟨rfl, k, hk⟩]
    · rw [if_neg (fun h => hp h.symm), if_neg fun h => hp h.1]
  · rw [if_neg fun hh => h hh.2, (admitCandidate_of_not_accepts policy now runningPaths st c h).1]

/-- The id of an accepted candidate's executable. -/
theorem idByKey_admitCandidate (h : policy.Accepts c) :
    (admitCandidate policy now runningPaths st c).stores.exes.idByKey ⟨c.path⟩ =
      some (st.stores.exes.ensure ⟨c.path⟩).2 := by
  obtain ⟨k, hk⟩ := h
  obtain ⟨st', hst', -, hstores, -⟩ := acceptCandidate_eq now runningPaths st c k
  simp only [admitCandidate, hk]
  rw [hstores, exes_admitMaps, hst', idByKey_touchExe, if_pos rfl]

theorem get?_maps_admitCandidate {id : MapId} {m : MapSegment}
    (h : (admitCandidate policy now runningPaths st c).stores.maps.get? id = some m) :
    st.stores.maps.get? id = some m ∨ (policy.Accepts c ∧ m ∈ c.maps) := by
  by_cases hacc : policy.Accepts c
  · obtain ⟨k, hk⟩ := hacc
    obtain ⟨st', hst', -, hstores, -⟩ := acceptCandidate_eq now runningPaths st c k
    simp only [admitCandidate, hk] at h
    rw [hstores] at h
    rcases get?_admitMaps _ c.maps st' h with h | h
    · rw [hst'] at h
      exact Or.inl h
    · exact Or.inr ⟨⟨k, hk⟩, h⟩
  · rw [(admitCandidate_of_not_accepts policy now runningPaths st c hacc).1] at h
    exact Or.inl h

theorem rel_admitCandidate (e : ExeId) (m : MapId) :
    (admitCandidate policy now runningPaths st c).stores.exeMaps.Rel e m ↔
      st.stores.exeMaps.Rel e m ∨
        (policy.Accepts c ∧
          (admitCandidate policy now runningPaths st c).stores.exes.idByKey ⟨c.path⟩ = some e ∧
          ∃ map ∈ c.maps,
            (admitCandidate policy now runningPaths st c).stores.maps.idByKey map.key = some m) := by
  by_cases hacc : policy.Accepts c
  · rw [idByKey_admitCandidate policy now runningPaths st c hacc]
    obtain ⟨k, hk⟩ := hacc
    obtain ⟨st', hst', -, hstores, -⟩ := acceptCandidate_eq now runningPaths st c k
    simp only [admitCandidate, hk]
    rw [hstores, rel_admitMaps, hst']
    have hrel : (touchExe now st.stores ⟨c.path⟩).1.exeMaps = st.stores.exeMaps := rfl
    rw [hrel]
    constructor
    · rintro (h | ⟨rfl, map, hmap⟩)
      · exact Or.inl h
      · exact Or.inr ⟨⟨k, hk⟩, rfl, map, hmap⟩
    · rintro (h | ⟨-, he, map, hmap⟩)
      · exact Or.inl h
      · exact Or.inr ⟨(Option.some.inj he).symm, map, hmap⟩
  · rw [(admitCandidate_of_not_accepts policy now runningPaths st c hacc).1]
    simp [hacc]

theorem mem_activeExeIds_admitCandidate (e : ExeId) :
    e ∈ (admitCandidate policy now runningPaths st c).activeExeIds ↔
      e ∈ st.activeExeIds ∨ (policy.Accepts c ∧ c.path ∈ runningPaths ∧
        (admitCandidate policy now runningPaths st c).stores.exes.idByKey ⟨c.path⟩ = some e) := by
  by_cases hacc : policy.Accepts c
  · rw [idByKey_admitCandidate policy now runningPaths st c hacc]
    obtain ⟨k, hk⟩ := hacc
    obtain ⟨st', -, -, -, hids⟩ := acceptCandidate_eq now runningPaths st c k
    have haccepts : policy.Accepts c := ⟨k, hk⟩
    simp only [admitCandidate, hk]
    rw [hids]
    split
    · next hrun =>
        rw [FxHashSet.mem_insert, Option.some.injEq]
        constructor
        · rintro (rfl | h)
          · exact Or.inr ⟨haccepts, hrun, rfl⟩
          · exact Or.inl h
        · rintro (h | ⟨-, -, rfl⟩)
          · exact Or.inr h
          · exact Or.inl rfl
    · next hrun => simp [hrun]
  · rw [(admitCandidate_of_not_accepts policy now runningPaths st c hacc).2]
    simp [hacc]

end OneCandidate

/-! ### All candidates -/

section AllCandidates

variable (policy : AdmissionPolicy) (now : UInt64) (runningPaths : FxHashSet Path)

theorem grows_admitCandidates (cs : List CandidateExe) (st : Applying F16) :
    Grows st.stores (cs.foldl (admitCandidate policy now runningPaths) st).stores := by
  induction cs generalizing st with
  | nil => exact Grows.refl _
  | cons c rest ih => exact (grows_admitCandidate policy now runningPaths st c).trans (ih _)

theorem exeAt_admitCandidates (cs : List CandidateExe) (st : Applying F16) (p : Path) :
    (cs.foldl (admitCandidate policy now runningPaths) st).stores.exeAt p =
      if ∃ c ∈ cs, c.path = p ∧ policy.Accepts c then
        some (((st.stores.exeAt p).getD (Exe.new ⟨p⟩)).touch now)
      else st.stores.exeAt p := by
  induction cs generalizing st with
  | nil => simp
  | cons c rest ih =>
      rw [List.foldl_cons, ih, exeAt_admitCandidate]
      by_cases hc : c.path = p ∧ policy.Accepts c
      · have hall : ∃ c' ∈ c :: rest, c'.path = p ∧ policy.Accepts c' :=
          ⟨c, List.mem_cons_self, hc⟩
        rw [if_pos hc, if_pos hall]
        -- touching twice at the same time is touching once
        split <;> rfl
      · rw [if_neg hc]
        refine if_congr ?_ rfl rfl
        simp [hc]

theorem get?_maps_admitCandidates (cs : List CandidateExe) (st : Applying F16) {id : MapId}
    {m : MapSegment}
    (h : (cs.foldl (admitCandidate policy now runningPaths) st).stores.maps.get? id = some m) :
    st.stores.maps.get? id = some m ∨ ∃ c ∈ cs, policy.Accepts c ∧ m ∈ c.maps := by
  induction cs generalizing st with
  | nil => exact Or.inl h
  | cons c rest ih =>
      rcases ih _ h with h | ⟨c', hmem, h⟩
      · rcases get?_maps_admitCandidate policy now runningPaths st c h with h | h
        · exact Or.inl h
        · exact Or.inr ⟨c, List.mem_cons_self, h⟩
      · exact Or.inr ⟨c', List.mem_cons_of_mem c hmem, h⟩

/-- A pair related after the loop was related before, or joins the executable of an accepted
    candidate with one of its maps. -/
theorem rel_admitCandidates (cs : List CandidateExe) (st : Applying F16) (e : ExeId) (m : MapId)
    (h : (cs.foldl (admitCandidate policy now runningPaths) st).stores.exeMaps.Rel e m) :
    st.stores.exeMaps.Rel e m ∨ ∃ c ∈ cs, policy.Accepts c ∧
      (cs.foldl (admitCandidate policy now runningPaths) st).stores.exes.idByKey ⟨c.path⟩ =
        some e ∧
      ∃ map ∈ c.maps,
        (cs.foldl (admitCandidate policy now runningPaths) st).stores.maps.idByKey map.key =
          some m := by
  induction cs generalizing st with
  | nil => exact Or.inl h
  | cons c rest ih =>
      rcases ih _ h with h | ⟨c', hmem, h⟩
      · rcases (rel_admitCandidate policy now runningPaths st c e m).1 h with h | ⟨hacc, he, hm⟩
        · exact Or.inl h
        · have hg := grows_admitCandidates policy now runningPaths rest
            (admitCandidate policy now runningPaths st c)
          obtain ⟨map, hmap, hid⟩ := hm
          obtain ⟨seg, hseg, hkey⟩ := KeyedStore.idByKey_eq_some.1 hid
          have hkept := KeyedStore.idByKey_of_get? (hg.maps m seg hseg)
          exact Or.inr ⟨c, List.mem_cons_self, hacc, hg.exes _ e he, map, hmap, hkey ▸ hkept⟩
      · exact Or.inr ⟨c', List.mem_cons_of_mem c hmem, h⟩

/-- The executables collected as active are stored and run. -/
theorem activeExeIds_admitCandidates (cs : List CandidateExe) (st : Applying F16) {e : ExeId}
    (h : e ∈ (cs.foldl (admitCandidate policy now runningPaths) st).activeExeIds) :
    e ∈ st.activeExeIds ∨ ∃ p ∈ runningPaths,
      (cs.foldl (admitCandidate policy now runningPaths) st).stores.exes.idByKey ⟨p⟩ = some e := by
  induction cs generalizing st with
  | nil => exact Or.inl h
  | cons c rest ih =>
      rcases ih _ h with h | h
      · rcases (mem_activeExeIds_admitCandidate policy now runningPaths st c e).1 h with
          h | ⟨-, hrun, he⟩
        · exact Or.inl h
        · have hg := grows_admitCandidates policy now runningPaths rest
            (admitCandidate policy now runningPaths st c)
          exact Or.inr ⟨c.path, hrun, hg.exes _ e he⟩
      · exact Or.inr h

end AllCandidates

/-! ### The whole stage -/

section AdmitAll

variable (ord : HashOrder) (policy : AdmissionPolicy) (s : Stores F16) (obs : Observation)

/-- Whether the observation gets the executable of a path admitted. -/
def Admits (modelTime : UInt64) (p : Path) : Prop :=
  ∃ c, (collect policy modelTime obs).candidates.get? p = some c ∧ policy.Accepts c

instance (modelTime : UInt64) (p : Path) : Decidable (Admits policy obs modelTime p) :=
  match h : (collect policy modelTime obs).candidates.get? p with
  | none => isFalse (by rintro ⟨c, hc, -⟩; exact absurd (h.symm.trans hc) (by simp))
  | some c =>
    if hacc : policy.Accepts c then isTrue ⟨c, h, hacc⟩
    else isFalse (by
      rintro ⟨c', hc', hacc'⟩
      exact hacc (Option.some.inj (h.symm.trans hc') ▸ hacc'))

theorem mem_candidates (c : CandidateExe) :
    c ∈ (ord.enum (collect policy s.modelTime obs).candidates.iter).map Prod.snd ↔
      (collect policy s.modelTime obs).candidates.get? c.path = some c := by
  simp only [List.mem_map, HashOrder.mem_enum, Prod.exists, exists_eq_right, FxHashMap.mem_iter]
  constructor
  · rintro ⟨p, hp⟩
    rwa [(candidateOf_collect policy _ obs hp).path_eq]
  · exact fun h => ⟨c.path, h⟩

theorem admits_iff (p : Path) :
    (∃ c ∈ (ord.enum (collect policy s.modelTime obs).candidates.iter).map Prod.snd,
      c.path = p ∧ policy.Accepts c) ↔ Admits policy obs s.modelTime p := by
  simp only [mem_candidates]
  constructor
  · rintro ⟨c, hc, rfl, hacc⟩
    exact ⟨c, hc, hacc⟩
  · rintro ⟨c, hc, hacc⟩
    have hpath := (candidateOf_collect policy _ obs hc).path_eq
    exact ⟨c, hpath.symm ▸ hc, hpath, hacc⟩

/-- The stores after the admission stage. -/
def admitted : Stores F16 := (admitAll ord policy (collect policy s.modelTime obs) s).stores

theorem grows_admitted : Grows s (admitted ord policy s obs) :=
  grows_admitCandidates policy _ _ _ ⟨s, ModelDelta.empty, ∅⟩

theorem exeAt_admitted (p : Path) :
    (admitted ord policy s obs).exeAt p =
      if Admits policy obs s.modelTime p then
        some (((s.exeAt p).getD (Exe.new ⟨p⟩)).touch (obs.time s.modelTime))
      else s.exeAt p := by
  rw [admitted, admitAll, exeAt_admitCandidates, collect_now]
  exact if_congr (admits_iff ord policy s obs p) rfl rfl

/-- Every map stored by the stage was seen in the observation and is allowed. -/
theorem get?_maps_admitted {id : MapId} {m : MapSegment}
    (h : (admitted ord policy s obs).maps.get? id = some m) :
    s.maps.get? id = some m ∨ policy.allowMap m.path = true := by
  rcases get?_maps_admitCandidates policy _ _ _ _ h with h | ⟨c, hmem, -, hm⟩
  · exact Or.inl h
  · have hc := (mem_candidates ord policy s obs c).1 hmem
    exact Or.inr ((candidateOf_collect policy _ obs hc).maps_seen m hm).1

theorem wf_admitted (h : s.WF) : (admitted ord policy s obs).WF := by
  refine (grows_admitted ord policy s obs).wf h ?_
  intro e m hrel
  rcases rel_admitCandidates policy _ _ _ _ e m hrel with hrel | ⟨c, -, -, he, map, -, hmap⟩
  · exact Or.inl hrel
  · obtain ⟨seg, hseg, -⟩ := KeyedStore.idByKey_eq_some.1 hmap
    exact Or.inr ⟨liveExe_iff_idByKey.2 ⟨_, he⟩, seg, hseg⟩

end AdmitAll

end Admission

/-! ## Running flags -/

section Refresh

variable {F16 : Type} (now : UInt64) (runningPaths : FxHashSet Path)

/-- One round of the loop over the executables, besides the delta. -/
theorem refreshExe_spec (st : Applying F16) (id : ExeId) :
    ∃ exes : ExeStore, (refreshExe now runningPaths st id).stores = { st.stores with exes := exes } ∧
      (∀ j, exes.get? j =
        if j = id then (st.stores.exes.get? j).map (Exe.refresh now runningPaths)
        else st.stores.exes.get? j) ∧
      ∀ j, j ∈ (refreshExe now runningPaths st id).activeExeIds ↔
        j ∈ st.activeExeIds ∨
          (j = id ∧ ∃ e, st.stores.exes.get? j = some e ∧ e.key.path ∈ runningPaths) := by
  unfold refreshExe
  split
  · next hnone =>
      refine ⟨st.stores.exes, rfl, ?_, ?_⟩
      · intro j
        by_cases hj : j = id
        · subst hj
          rw [if_pos rfl, hnone]
          rfl
        · rw [if_neg hj]
      · intro j
        refine ⟨Or.inl, ?_⟩
        rintro (h | ⟨rfl, e, he, -⟩)
        · exact h
        · exact absurd (hnone.symm.trans he) (by simp)
  · next exe hsome =>
      refine ⟨_, rfl, ?_, ?_⟩
      · intro j
        rw [ExeStore.get?_modify]
        by_cases hj : j = id
        · rw [if_pos hj, if_pos hj, hj]
        · rw [if_neg hj, if_neg hj]
      · intro j
        dsimp only
        by_cases hrun : exe.key.path ∈ runningPaths
        · rw [if_pos (decide_eq_true hrun), FxHashSet.mem_insert]
          constructor
          · rintro (rfl | h)
            · exact Or.inr ⟨rfl, exe, hsome, hrun⟩
            · exact Or.inl h
          · rintro (h | ⟨hj, -⟩)
            · exact Or.inr h
            · exact Or.inl hj
        · rw [if_neg (by rwa [decide_eq_true_eq])]
          refine ⟨Or.inl, ?_⟩
          rintro (h | ⟨rfl, e, he, hrun'⟩)
          · exact h
          · obtain rfl := Option.some.inj (hsome.symm.trans he)
            exact absurd hrun' hrun

theorem refreshExes_spec (ids : List ExeId) (hnodup : ids.Nodup) (st : Applying F16) :
    ∃ exes : ExeStore,
      (ids.foldl (refreshExe now runningPaths) st).stores = { st.stores with exes := exes } ∧
      (∀ j, exes.get? j =
        if j ∈ ids then (st.stores.exes.get? j).map (Exe.refresh now runningPaths)
        else st.stores.exes.get? j) ∧
      ∀ j, j ∈ (ids.foldl (refreshExe now runningPaths) st).activeExeIds ↔
        j ∈ st.activeExeIds ∨
          (j ∈ ids ∧ ∃ e, st.stores.exes.get? j = some e ∧ e.key.path ∈ runningPaths) := by
  induction ids generalizing st with
  | nil => exact ⟨st.stores.exes, rfl, fun j => by simp, fun j => by simp⟩
  | cons id rest ih =>
      rw [List.nodup_cons] at hnodup
      obtain ⟨exes, hstores, hget, hactive⟩ := refreshExe_spec now runningPaths st id
      obtain ⟨exes', hstores', hget', hactive'⟩ :=
        ih hnodup.2 (refreshExe now runningPaths st id)
      rw [hstores] at hstores' hget' hactive'
      refine ⟨exes', hstores', ?_, ?_⟩
      · intro j
        rw [hget', hget]
        by_cases hj : j = id
        · subst hj
          simp [hnodup.1]
        · simp [hj]
      · intro j
        rw [List.foldl_cons, hactive', hactive, List.mem_cons]
        by_cases hj : j = id
        · subst hj
          simp [hnodup.1]
        · simp [hj, hget]

/-- The stage refreshes every executable and collects those that run. -/
theorem refreshRunning_spec (st : Applying F16) :
    ∃ exes : ExeStore,
      (refreshRunning now runningPaths st).stores = { st.stores with exes := exes } ∧
      (∀ j, exes.get? j = (st.stores.exes.get? j).map (Exe.refresh now runningPaths)) ∧
      ∀ j, j ∈ (refreshRunning now runningPaths st).activeExeIds ↔
        j ∈ st.activeExeIds ∨
          ∃ e, st.stores.exes.get? j = some e ∧ e.key.path ∈ runningPaths := by
  obtain ⟨exes, hstores, hget, hactive⟩ :=
    refreshExes_spec now runningPaths st.stores.exes.ids st.stores.exes.ids_nodup st
  refine ⟨exes, hstores, ?_, ?_⟩
  · intro j
    rw [hget]
    split
    · rfl
    · next hj =>
        cases hget : st.stores.exes.get? j with
        | none => rfl
        | some e => exact absurd ((ExeStore.mem_ids _ j).2 ⟨e, hget⟩) hj
  · intro j
    rw [refreshRunning, hactive, ExeStore.mem_ids]
    constructor
    · exact Or.imp_right And.right
    · exact Or.imp_right fun ⟨e, he, hrun⟩ => ⟨⟨e, he⟩, e, he, hrun⟩

end Refresh

/-! ## Edges among the active executables -/

section Pairs

variable {α : Type}

theorem mem_of_mem_pairs {l : List α} {p : α × α} (h : p ∈ pairs l) : p.1 ∈ l ∧ p.2 ∈ l := by
  induction l with
  | nil => exact absurd h List.not_mem_nil
  | cons a rest ih =>
      rw [pairs, List.mem_append, List.mem_map] at h
      rcases h with ⟨b, hb, rfl⟩ | h
      · exact ⟨List.mem_cons_self, List.mem_cons_of_mem a hb⟩
      · exact ⟨List.mem_cons_of_mem a (ih h).1, List.mem_cons_of_mem a (ih h).2⟩

theorem ne_of_mem_pairs {l : List α} (hl : l.Nodup) {p : α × α} (h : p ∈ pairs l) : p.1 ≠ p.2 := by
  induction l with
  | nil => exact absurd h List.not_mem_nil
  | cons a rest ih =>
      rw [List.nodup_cons] at hl
      rw [pairs, List.mem_append, List.mem_map] at h
      rcases h with ⟨b, hb, rfl⟩ | h
      · intro hab
        exact hl.1 ((show a = b from hab) ▸ hb)
      · exact ih hl.2 h

/-- Two distinct elements form a pair, in one of the two orders. -/
theorem pairs_complete {l : List α} {a b : α} (ha : a ∈ l) (hb : b ∈ l) (hne : a ≠ b) :
    (a, b) ∈ pairs l ∨ (b, a) ∈ pairs l := by
  induction l with
  | nil => exact absurd ha List.not_mem_nil
  | cons c rest ih =>
      simp only [pairs, List.mem_append, List.mem_map, Prod.mk.injEq, exists_eq_right_right]
      rcases List.mem_cons.1 ha with rfl | ha'
      · rcases List.mem_cons.1 hb with rfl | hb'
        · exact absurd rfl hne
        · exact Or.inl (Or.inl ⟨hb', rfl⟩)
      · rcases List.mem_cons.1 hb with rfl | hb'
        · exact Or.inr (Or.inl ⟨ha', rfl⟩)
        · exact (ih ha' hb').imp Or.inr Or.inr

end Pairs

section Edges

variable {F16 : Type} (zero : F16) (now : UInt64)

theorem ensureEdge_fst (st : Stores F16 × ModelDelta) (p : ExeId × ExeId) :
    (ensureEdge zero now st p).1 =
      { st.1 with
        markov :=
          (st.1.markov.ensureEdge zero p.1 p.2 now (edgeState st.1 p.1 p.2)).1 } :=
  rfl

/-- The loop over the pairs touches nothing but the edges; an edge that exists stays, and a pair
    without one gets a fresh one. -/
theorem ensureEdges_spec (ps : List (ExeId × ExeId)) (st : Stores F16 × ModelDelta) :
    ∃ markov : MarkovGraph F16,
      (ps.foldl (ensureEdge zero now) st).1 = { st.1 with markov := markov } ∧
      (∀ key e, st.1.markov.get? key = some e → markov.get? key = some e) ∧
      (∀ key e, markov.get? key = some e → st.1.markov.get? key = some e ∨
        ∃ p ∈ ps, EdgeKey.new p.1 p.2 = key ∧
          e = MarkovGraph.freshEdge zero now (edgeState st.1 p.1 p.2)) ∧
      ∀ p ∈ ps, ∃ e, markov.get? (EdgeKey.new p.1 p.2) = some e := by
  induction ps generalizing st with
  | nil => exact ⟨st.1.markov, rfl, fun _ _ h => h, fun _ _ h => Or.inl h, by simp⟩
  | cons p rest ih =>
      -- the pairs after the first one keep the edge that it adds
      obtain ⟨markov, hstores, hkeep, horigin, hall⟩ := ih (ensureEdge zero now st p)
      rw [ensureEdge_fst] at hstores hkeep horigin
      refine ⟨markov, hstores, ?_, ?_, ?_⟩
      · intro key e he
        refine hkeep key e ?_
        rw [MarkovGraph.get?_ensureEdge, if_neg, he]
        rintro ⟨rfl, hnot⟩
        exact hnot (MarkovGraph.mem_keys_iff.2 ⟨e, he⟩)
      · intro key e he
        rcases horigin key e he with he | ⟨q, hq, hkey, he⟩
        · rw [MarkovGraph.get?_ensureEdge] at he
          split at he
          · next hk =>
              exact Or.inr ⟨p, List.mem_cons_self, hk.1.symm, (Option.some.inj he).symm⟩
          · exact Or.inl he
        · exact Or.inr ⟨q, List.mem_cons_of_mem p hq, hkey, he⟩
      · intro q hq
        rcases List.mem_cons.1 hq with rfl | hq
        · have hnew : EdgeKey.new q.1 q.2 ∈ (ensureEdge zero now st q).1.markov.keys := by
            rw [ensureEdge_fst]
            exact (MarkovGraph.mem_keys_ensureEdge zero _ _ _ now _ _).2 (Or.inl rfl)
          obtain ⟨e, he⟩ := MarkovGraph.mem_keys_iff.1 hnew
          rw [ensureEdge_fst] at he
          exact ⟨e, hkeep _ e he⟩
        · exact hall q hq

end Edges

end PreloadNg
