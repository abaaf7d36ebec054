import PreloadNg.Observation.Candidates

set_option autoImplicit false

/-! # Further processes of a program

A scan reports the maps of every process, so a program that runs twice has each of its maps reported
twice, and its candidate's size counts them twice. -/

namespace PreloadNg

/-! ## Copies of events -/

/-- `o'` is `o` with further events of `p` inserted: processes of an executable that `obs` sees, and
    maps under keys that `obs` reports for `p`. -/
inductive WithCopies (p : Path) (obs : Observation) : Observation → Observation → Prop where
  | nil : WithCopies p obs [] []
  | keep {o o' : Observation} (event : ObservationEvent) :
      WithCopies p obs o o' → WithCopies p obs (event :: o) (event :: o')
  | exe {o o' : Observation} (pid : UInt32) :
      obs.sees p → WithCopies p obs o o' → WithCopies p obs o (.exeSeen p pid :: o')
  | map {o o' : Observation} (m : MapSegment) :
      m.key ∈ (obs.mapsOf p).map MapSegment.key → WithCopies p obs o o' →
        WithCopies p obs o (.mapSeen p m :: o')

namespace WithCopies

variable {p : Path} {obs o o' : Observation}

theorem refl (o : Observation) : WithCopies p obs o o := by
  induction o with
  | nil => exact nil
  | cons event o ih => exact keep event ih

/-- One more process that has one of the known maps. -/
theorem append_replicate {m : MapSegment} (hm : m ∈ obs.mapsOf p) (n : ℕ) (o : Observation) :
    WithCopies p obs o (o ++ List.replicate n (.mapSeen p m)) := by
  induction o with
  | nil =>
      induction n with
      | zero => exact nil
      | succ n ih => exact map m (List.mem_map_of_mem hm) ih
  | cons event o ih => exact keep event ih

theorem sublist (h : WithCopies p obs o o') : List.Sublist o o' := by
  induction h with
  | nil => exact List.Sublist.refl _
  | keep event _ ih => exact ih.cons_cons event
  | exe pid _ _ ih => exact ih.cons _
  | map m _ _ ih => exact ih.cons _

theorem sees_of (h : WithCopies p obs o o') (hsees : o'.sees p) : o.sees p ∨ obs.sees p := by
  obtain ⟨pid, hpid⟩ := hsees
  induction h with
  | nil => simp at hpid
  | keep event _ ih =>
      rcases List.mem_cons.1 hpid with rfl | hpid
      · exact Or.inl ⟨pid, List.mem_cons_self⟩
      · exact (ih hpid).imp_left fun ⟨pid, hmem⟩ => ⟨pid, List.mem_cons_of_mem _ hmem⟩
  | exe _ hobs _ _ => exact Or.inr hobs
  | map m _ _ ih => exact ih (by simpa using hpid)

/-- A map of the longer observation is a map of the shorter one or repeats a known key. -/
theorem key_of_mem (h : WithCopies p obs o o') {m : MapSegment} (hm : m ∈ o'.mapsOf p) :
    m ∈ o.mapsOf p ∨ m.key ∈ (obs.mapsOf p).map MapSegment.key := by
  rw [Observation.mem_mapsOf] at hm ⊢
  induction h with
  | nil => simp at hm
  | keep event _ ih =>
      rcases List.mem_cons.1 hm with rfl | hm
      · exact Or.inl List.mem_cons_self
      · exact (ih hm).imp_left (List.mem_cons_of_mem _)
  | exe pid _ _ ih => exact ih (by simpa using hm)
  | map m' hkey _ ih =>
      rcases List.mem_cons.1 hm with heq | hm
      · obtain rfl := (ObservationEvent.mapSeen.inj heq).2
        exact Or.inr hkey
      · exact ih hm

theorem known_of_mem (h : WithCopies p obs obs o') {m : MapSegment} (hm : m ∈ o'.mapsOf p) :
    ∃ m' ∈ obs.mapsOf p, m'.key = m.key := by
  rcases h.key_of_mem hm with hold | hkey
  · exact ⟨m, hold, rfl⟩
  · exact List.mem_map.1 hkey

theorem sublist_mapsOf (h : WithCopies p obs o o') :
    List.Sublist (o.mapsOf p) (o'.mapsOf p) :=
  h.sublist.filterMap _

end WithCopies

/-! ## The decision in terms of the maps -/

namespace DefaultAdmissionPolicy

/-- The total of the lengths of the allowed maps reported for a path, without saturation. -/
def mappedBytes (p : DefaultAdmissionPolicy) (obs : Observation) (path : Path) : ℕ :=
  (((obs.mapsOf path).filter fun m => p.allowMap m.path).map fun m => m.length.toNat).sum

theorem toNat_foldl_satAdd (maps : List MapSegment) (t : UInt64) :
    (maps.foldl (fun t m => satAdd t m.length) t).toNat =
      min (t.toNat + (maps.map fun m => m.length.toNat).sum) (2 ^ 64 - 1) := by
  induction maps generalizing t with
  | nil =>
      have := t.toNat_lt
      simp only [List.foldl_nil, List.map_nil, List.sum_nil]
      omega
  | cons m maps ih =>
      rw [List.foldl_cons, ih, toNat_satAdd, List.map_cons, List.sum_cons]
      omega

theorem mappedBytes_of_denied {p : DefaultAdmissionPolicy} {obs : Observation} {path : Path}
    (h : ((obs.mapsOf path).all fun m => !p.allowMap m.path) = true) :
    p.mappedBytes obs path = 0 := by
  have hnil : ((obs.mapsOf path).filter fun m => p.allowMap m.path) = [] := by
    rw [List.filter_eq_nil_iff]
    simpa using h
  rw [mappedBytes, hnil]
  rfl

/-- A path that is not mentioned has no bytes. -/
theorem mappedBytes_of_pidOf {p : DefaultAdmissionPolicy} {obs : Observation} {path : Path}
    (h : obs.pidOf path = none) : p.mappedBytes obs path = 0 := by
  refine mappedBytes_of_denied (List.all_eq_true.2 fun m hm => ?_)
  have hsome : (obs.pidOf path).isSome :=
    Observation.isSome_pidOf.2 (Or.inr ⟨m, Observation.mem_mapsOf.1 hm⟩)
  rw [h] at hsome
  exact absurd hsome (by simp)

variable (p : DefaultAdmissionPolicy)

/-- The decision on a candidate, in terms of what it depends on. -/
def verdict (path : Path) (noMaps noRejected : Bool) (tooSmall : Prop) [Decidable tooSmall] :
    AdmissionDecision :=
  if !p.allowExe path then .reject .exePrefixDenied
  else if noMaps then .reject (if noRejected then .missingMaps else .mapPrefixDenied)
  else if tooSmall then .reject .tooSmall
  else .accept (if noRejected then .full else .partly)

theorem decideUncached_eq (c : CandidateExe) :
    (p.decideUncached c).1 =
      p.verdict c.path c.maps.isEmpty c.rejectedMaps.isEmpty (c.totalSize < p.minsize) := by
  unfold decideUncached verdict
  split
  · rfl
  · split
    · rfl
    · split <;> rfl

theorem verdict_eq_iff (path : Path) (noMaps noRejected : Bool) (small small' : Prop)
    [Decidable small] [Decidable small'] :
    p.verdict path noMaps noRejected small = p.verdict path noMaps noRejected small' ↔
      p.allowExe path = false ∨ noMaps = true ∨ (small ↔ small') := by
  unfold verdict
  cases p.allowExe path with
  | false => simp
  | true =>
      cases noMaps with
      | true => simp
      | false => by_cases h : small <;> by_cases h' : small' <;> simp [h, h']

variable {p}

theorem totalSize_lt_iff {maps : List MapSegment} {path : Path} {pid : UInt32}
    {cached : Path → Option RejectReason} :
    ((CandidateExe.new path pid).addMaps (p.toPolicy cached) maps).totalSize < p.minsize ↔
      ((maps.filter fun m => p.allowMap m.path).map fun m => m.length.toNat).sum <
        p.minsize.toNat := by
  have hmin := p.minsize.toNat_lt
  rw [CandidateExe.addMaps_totalSize, UInt64.lt_iff_toNat_lt, toNat_foldl_satAdd]
  simp only [toPolicy, CandidateExe.new, UInt64.toNat_zero]
  omega

/-- With the cache disabled the decision depends on whether the path is mentioned, has allowed maps,
    has denied maps, and on the bytes mapped. -/
theorem admissionDecision_eq (hcache : p.cacheEnabled = false)
    (cached : Path → Option RejectReason) (modelTime : UInt64) (obs : Observation) (path : Path) :
    admissionDecision (p.toPolicy cached) modelTime obs path =
      (obs.pidOf path).map fun _ =>
        p.verdict path ((obs.mapsOf path).all fun m => !p.allowMap m.path)
          ((obs.mapsOf path).all fun m => p.allowMap m.path)
          (p.mappedBytes obs path < p.minsize.toNat) := by
  rw [admissionDecision, candidate_collect, Option.map_map]
  congr 1
  funext pid
  have hdecide : ∀ c, (p.toPolicy cached).decide c = (p.decideUncached c).1 := by
    intro c
    simp [toPolicy, DefaultAdmissionPolicy.decide, hcache]
  have hnone (f : MapSegment → Bool) :
      ((obs.mapsOf path).filter f).isEmpty = (obs.mapsOf path).all fun m => !f m := by
    rw [Bool.eq_iff_iff]
    simp [List.filter_eq_nil_iff]
  rw [Function.comp_apply, hdecide, decideUncached_eq, CandidateExe.addMaps_path,
    CandidateExe.addMaps_maps, CandidateExe.addMaps_rejectedMaps]
  simp only [CandidateExe.new, toPolicy, List.nil_append, List.isEmpty_map, hnone, Bool.not_not]
  exact (p.verdict_eq_iff _ _ _ _ _).2 (Or.inr (Or.inr totalSize_lt_iff))

end DefaultAdmissionPolicy

/-! ## When further processes change nothing -/

namespace WithCopies

variable {p : Path} {obs obs' : Observation}

/-- The paths that are mentioned, with which map files, are the same. -/
theorem isSome_pidOf (h : WithCopies p obs obs obs') :
    (obs'.pidOf p).isSome = (obs.pidOf p).isSome := by
  rw [Bool.eq_iff_iff, Observation.isSome_pidOf, Observation.isSome_pidOf]
  constructor
  · rintro (hsees | ⟨m, hm⟩)
    · exact Or.inl ((h.sees_of hsees).elim id id)
    · obtain ⟨m', hm', -⟩ := h.known_of_mem (Observation.mem_mapsOf.2 hm)
      exact Or.inr ⟨m', Observation.mem_mapsOf.1 hm'⟩
  · rintro (⟨pid, hpid⟩ | ⟨m, hm⟩)
    · exact Or.inl ⟨pid, h.sublist.subset hpid⟩
    · exact Or.inr ⟨m, h.sublist.subset hm⟩

theorem all_mapsOf (h : WithCopies p obs obs obs') (f : Path → Bool) :
    ((obs'.mapsOf p).all fun m => f m.path) = (obs.mapsOf p).all fun m => f m.path := by
  rw [Bool.eq_iff_iff, List.all_eq_true, List.all_eq_true]
  constructor
  · exact fun hall m hm => hall m (h.sublist_mapsOf.subset hm)
  · intro hall m hm
    obtain ⟨m', hm', hkey⟩ := h.known_of_mem hm
    have hpath : m.path = m'.path := (congrArg MapKey.path hkey).symm
    rw [hpath]
    exact hall m' hm'

theorem mappedBytes_le (h : WithCopies p obs obs obs') (policy : DefaultAdmissionPolicy) :
    policy.mappedBytes obs p ≤ policy.mappedBytes obs' p :=
  ((h.sublist_mapsOf.filter _).map _).sum_le_sum fun _ _ => Nat.zero_le _

/-- Copies of maps of length `0` add no bytes. -/
theorem mappedBytes_eq_zero (h : WithCopies p obs obs obs') {policy : DefaultAdmissionPolicy}
    (hzero : policy.mappedBytes obs p = 0) : policy.mappedBytes obs' p = 0 := by
  have hlen : ∀ m ∈ obs.mapsOf p, policy.allowMap m.path = true → m.length.toNat = 0 :=
    fun m hm hallow => List.sum_eq_zero_iff.1 hzero _
      (List.mem_map_of_mem (List.mem_filter.2 ⟨hm, hallow⟩))
  refine List.sum_eq_zero fun n hn => ?_
  obtain ⟨m, hm, rfl⟩ := List.mem_map.1 hn
  obtain ⟨hmem, hallow⟩ := List.mem_filter.1 hm
  obtain ⟨m', hm', hkey⟩ := h.known_of_mem hmem
  have hpath : m'.path = m.path := congrArg MapKey.path hkey
  have hsame : m'.length = m.length := congrArg MapKey.length hkey
  rw [← hsame]
  exact hlen m' hm' (by rw [hpath]; exact hallow)

end WithCopies

namespace DefaultAdmissionPolicy

variable {p : DefaultAdmissionPolicy} {obs obs' : Observation} {path : Path}

/-- Further processes change the decision exactly when they lift the bytes over `minsize`. -/
theorem admissionDecision_copies (hcache : p.cacheEnabled = false)
    (cached : Path → Option RejectReason) (modelTime : UInt64)
    (h : WithCopies path obs obs obs') :
    admissionDecision (p.toPolicy cached) modelTime obs' path =
        admissionDecision (p.toPolicy cached) modelTime obs path ↔
      p.allowExe path = false ∨ p.minsize.toNat ≤ p.mappedBytes obs path ∨
        p.mappedBytes obs' path < p.minsize.toNat := by
  rw [admissionDecision_eq hcache, admissionDecision_eq hcache,
    h.all_mapsOf fun q => p.allowMap q, h.all_mapsOf fun q => !p.allowMap q]
  have hle := h.mappedBytes_le p
  have hsome := h.isSome_pidOf
  cases hpid : obs.pidOf path with
  | none =>
      -- a path that is not mentioned has no bytes
      rw [hpid, Option.isSome_none, Option.isSome_eq_false_iff, Option.isNone_iff_eq_none] at hsome
      rw [hsome]
      have hzero : p.mappedBytes obs' path = 0 := mappedBytes_of_pidOf hsome
      simp only [Option.map_none, true_iff]
      omega
  | some pid =>
      rw [hpid, Option.isSome_some] at hsome
      obtain ⟨pid', hpid'⟩ := Option.isSome_iff_exists.1 hsome
      rw [hpid', Option.map_some, Option.map_some, Option.some_inj, verdict_eq_iff]
      -- a program that has denied maps only has no bytes
      have hnone : ((obs.mapsOf path).all fun m => !p.allowMap m.path) = true →
          p.mappedBytes obs' path = 0 := by
        intro hall
        rw [← h.all_mapsOf fun q => !p.allowMap q] at hall
        exact mappedBytes_of_denied hall
      constructor
      · rintro (hexe | hall | hiff)
        · exact Or.inl hexe
        · have := hnone hall
          omega
        · omega
      · rintro (hexe | hbytes)
        · exact Or.inl hexe
        · exact Or.inr (Or.inr (by omega))

theorem mappedBytes_append_replicate {m : MapSegment} (hm : p.allowMap m.path = true) (n : ℕ) :
    p.mappedBytes (obs ++ List.replicate n (.mapSeen path m)) path =
      p.mappedBytes obs path + n * m.length.toNat := by
  have hmaps : Observation.mapsOf (obs ++ List.replicate n (.mapSeen path m)) path =
      obs.mapsOf path ++ List.replicate n m := by
    rw [Observation.mapsOf, List.filterMap_append, List.filterMap_replicate_of_some
      (ObservationEvent.mapFor_eq_some.2 rfl)]
    rfl
  rw [mappedBytes, mappedBytes, hmaps]
  simp [hm]

/-- Enough processes lift a candidate that maps anything over `minsize`. -/
theorem exists_copies (hbytes : p.mappedBytes obs path ≠ 0) :
    ∃ obs', WithCopies path obs obs obs' ∧ p.minsize.toNat ≤ p.mappedBytes obs' path := by
  have hsome : ∃ m ∈ obs.mapsOf path, p.allowMap m.path = true ∧ m.length.toNat ≠ 0 := by
    by_contra hno
    push Not at hno
    refine hbytes (List.sum_eq_zero fun n hn => ?_)
    obtain ⟨m, hm, rfl⟩ := List.mem_map.1 hn
    obtain ⟨hmem, hallow⟩ := List.mem_filter.1 hm
    exact hno m hmem hallow
  obtain ⟨m, hm, hallow, hlen⟩ := hsome
  refine ⟨_, WithCopies.append_replicate hm p.minsize.toNat obs, ?_⟩
  rw [mappedBytes_append_replicate hallow]
  exact le_trans (Nat.le_mul_of_pos_right _ (Nat.pos_of_ne_zero hlen)) (Nat.le_add_left _ _)

/-- With the cache disabled, further processes of a program leave the decision on it as it was
    exactly when its path is denied, or the bytes reported for it reach `minsize` already, or they
    stay below it. They do so whatever the number of processes only in the first two cases and if
    no bytes are mapped at all. -/
theorem minsize_counts_bytes_iff (hcache : p.cacheEnabled = false)
    (cached : Path → Option RejectReason) (modelTime : UInt64) (obs : Observation) (path : Path) :
    (∀ obs', WithCopies path obs obs obs' →
        (admissionDecision (p.toPolicy cached) modelTime obs' path =
            admissionDecision (p.toPolicy cached) modelTime obs path ↔
          p.allowExe path = false ∨ p.minsize.toNat ≤ p.mappedBytes obs path ∨
            p.mappedBytes obs' path < p.minsize.toNat)) ∧
      ((∀ obs', WithCopies path obs obs obs' →
          admissionDecision (p.toPolicy cached) modelTime obs' path =
            admissionDecision (p.toPolicy cached) modelTime obs path) ↔
        p.allowExe path = false ∨ p.minsize.toNat ≤ p.mappedBytes obs path ∨
          p.mappedBytes obs path = 0) := by
  refine ⟨fun obs' h => admissionDecision_copies hcache cached modelTime h, ?_⟩
  constructor
  · intro hsame
    by_cases hzero : p.mappedBytes obs path = 0
    · exact Or.inr (Or.inr hzero)
    · obtain ⟨obs', hcopies, hreach⟩ := exists_copies hzero
      have hcond := (admissionDecision_copies hcache cached modelTime hcopies).1
        (hsame obs' hcopies)
      rcases hcond with hexe | hbytes | hstay
      · exact Or.inl hexe
      · exact Or.inr (Or.inl hbytes)
      · omega
  · intro hcond obs' h
    rw [admissionDecision_copies hcache cached modelTime h]
    rcases hcond with hexe | hbytes | hzero
    · exact Or.inl hexe
    · exact Or.inr (Or.inl hbytes)
    · have hzero' := h.mappedBytes_eq_zero hzero
      omega

/-- A process of a program with one map of 60000 bytes. -/
def toolProcess (pid : UInt32) : Observation :=
  [.exeSeen (Path.ofString "/usr/bin/tool") pid,
   .mapSeen (Path.ofString "/usr/bin/tool")
     (MapSegment.new (Path.ofString "/lib/libtool.so") 0 60000 10)]

/-- A scan that finds these processes of the program. -/
def toolScan (pids : List UInt32) : Observation :=
  .obsBegin 10 1 :: (pids.flatMap toolProcess ++ [.obsEnd 10 1 []])

/-- The default settings, without the cache. -/
def withoutCache : DefaultAdmissionPolicy where
  minsize := 100000
  exeprefix := ["/"]
  mapprefix := ["/"]
  cacheEnabled := false

/-- One process of the program is too small, two are not. -/
theorem minsize_counts_processes :
    WithCopies (Path.ofString "/usr/bin/tool") (toolScan [7]) (toolScan [7]) (toolScan [7, 8]) ∧
      admissionDecision (withoutCache.toPolicy fun _ => none) 0 (toolScan [7])
          (Path.ofString "/usr/bin/tool") = some (.reject .tooSmall) ∧
      admissionDecision (withoutCache.toPolicy fun _ => none) 0 (toolScan [7, 8])
          (Path.ofString "/usr/bin/tool") = some (.accept .full) := by
  refine ⟨?_, by decide +kernel, by decide +kernel⟩
  refine .keep _ (.keep _ (.keep _ (.exe 8 ⟨7, ?_⟩ (.map _ ?_ (.keep _ .nil)))))
  · decide +kernel
  · decide +kernel

theorem minsize_counts_bytes_tool :
    withoutCache.cacheEnabled = false ∧
      ¬ ∀ obs', WithCopies (Path.ofString "/usr/bin/tool") (toolScan [7]) (toolScan [7]) obs' →
        admissionDecision (withoutCache.toPolicy fun _ => none) 0 obs'
            (Path.ofString "/usr/bin/tool") =
          admissionDecision (withoutCache.toPolicy fun _ => none) 0 (toolScan [7])
            (Path.ofString "/usr/bin/tool") :=
  ⟨rfl, fun h =>
    absurd ((minsize_counts_bytes_iff rfl (fun _ => none) 0 (toolScan [7])
      (Path.ofString "/usr/bin/tool")).2.1 h) (by decide +kernel)⟩

end DefaultAdmissionPolicy

end PreloadNg
