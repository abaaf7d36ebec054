import PreloadNg.Observation.ModelUpdater

set_option autoImplicit false

/-! # Candidates in closed form

The candidate of a path is determined by the events that mention the path: the first of them gives
the process id, the `MapSeen` events give the maps in their order. -/

namespace PreloadNg

/-! ## What an observation says about one path -/

namespace ObservationEvent

/-- The process id a candidate of `p` gets when this event is the first to mention `p`. -/
def pidFor (p : Path) : ObservationEvent → Option UInt32
  | .exeSeen path pid => if path = p then some pid else none
  | .mapSeen exePath _ => if exePath = p then some 0 else none
  | _ => none

/-- The segment the event reports for `p`. -/
def mapFor (p : Path) : ObservationEvent → Option MapSegment
  | .mapSeen exePath map => if exePath = p then some map else none
  | _ => none

theorem mapFor_eq_some {p : Path} {event : ObservationEvent} {m : MapSegment} :
    event.mapFor p = some m ↔ event = .mapSeen p m := by
  cases event <;> simp [mapFor]

theorem isSome_pidFor {p : Path} {event : ObservationEvent} :
    (event.pidFor p).isSome ↔ (∃ pid, event = .exeSeen p pid) ∨ ∃ m, event = .mapSeen p m := by
  cases event <;> simp [pidFor]

/-- An event that does not mention `p` reports no map for it. -/
theorem mapFor_of_pidFor {p : Path} {event : ObservationEvent} (h : event.pidFor p = none) :
    event.mapFor p = none := by
  cases event <;> simp_all [pidFor, mapFor]

end ObservationEvent

namespace Observation

def pidOf (obs : Observation) (p : Path) : Option UInt32 := obs.findSome? (·.pidFor p)

def mapsOf (obs : Observation) (p : Path) : List MapSegment := obs.filterMap (·.mapFor p)

theorem mem_mapsOf {obs : Observation} {p : Path} {m : MapSegment} :
    m ∈ obs.mapsOf p ↔ .mapSeen p m ∈ obs := by
  simp only [mapsOf, List.mem_filterMap, ObservationEvent.mapFor_eq_some, exists_eq_right]

theorem isSome_pidOf {obs : Observation} {p : Path} :
    (obs.pidOf p).isSome ↔ obs.sees p ∨ ∃ m, .mapSeen p m ∈ obs := by
  rw [pidOf, List.findSome?_isSome_iff]
  simp only [ObservationEvent.isSome_pidFor, sees]
  constructor
  · rintro ⟨event, hmem, ⟨pid, rfl⟩ | ⟨m, rfl⟩⟩
    · exact Or.inl ⟨pid, hmem⟩
    · exact Or.inr ⟨m, hmem⟩
  · rintro (⟨pid, hmem⟩ | ⟨m, hmem⟩)
    · exact ⟨_, hmem, Or.inl ⟨pid, rfl⟩⟩
    · exact ⟨_, hmem, Or.inr ⟨m, rfl⟩⟩

end Observation

/-! ## The candidate of a path -/

section Collect

variable (policy : AdmissionPolicy)

/-- Add the maps of a list in their order. -/
def CandidateExe.addMaps (maps : List MapSegment) (c : CandidateExe) : CandidateExe :=
  maps.foldl (fun c map => Collected.addMap policy map c) c

namespace CandidateExe

variable {policy}

@[simp] theorem addMaps_nil (c : CandidateExe) : c.addMaps policy [] = c := rfl

@[simp] theorem addMaps_cons (map : MapSegment) (maps : List MapSegment) (c : CandidateExe) :
    c.addMaps policy (map :: maps) = (Collected.addMap policy map c).addMaps policy maps :=
  rfl

@[simp] theorem addMaps_path (maps : List MapSegment) (c : CandidateExe) :
    (c.addMaps policy maps).path = c.path := by
  induction maps generalizing c with
  | nil => rfl
  | cons map rest ih =>
      rw [addMaps_cons, ih]
      unfold Collected.addMap
      split <;> rfl

theorem addMaps_maps (maps : List MapSegment) (c : CandidateExe) :
    (c.addMaps policy maps).maps = c.maps ++ maps.filter fun m => policy.allowMap m.path := by
  induction maps generalizing c with
  | nil => exact (List.append_nil _).symm
  | cons map rest ih =>
      rw [addMaps_cons, ih]
      unfold Collected.addMap
      split
      · next h => simp [h]
      · next h => simp [h]

theorem addMaps_rejectedMaps (maps : List MapSegment) (c : CandidateExe) :
    (c.addMaps policy maps).rejectedMaps =
      c.rejectedMaps ++ (maps.filter fun m => !policy.allowMap m.path).map MapSegment.path := by
  induction maps generalizing c with
  | nil => exact (List.append_nil _).symm
  | cons map rest ih =>
      rw [addMaps_cons, ih]
      unfold Collected.addMap
      split
      · next h => simp [h]
      · next h => simp [h]

theorem addMaps_totalSize (maps : List MapSegment) (c : CandidateExe) :
    (c.addMaps policy maps).totalSize =
      (maps.filter fun m => policy.allowMap m.path).foldl (fun t m => satAdd t m.length)
        c.totalSize := by
  induction maps generalizing c with
  | nil => rfl
  | cons map rest ih =>
      rw [addMaps_cons, ih]
      unfold Collected.addMap
      split
      · next h => simp [h]
      · next h => simp [h]

end CandidateExe

/-- One event: the candidate of `p` is created if the event mentions `p`, then given the map. -/
theorem candidates_event (acc : Collected) (event : ObservationEvent) (p : Path) :
    (Collected.event policy acc event).candidates.get? p =
      ((acc.candidates.get? p).or ((event.pidFor p).map (CandidateExe.new p))).map
        (CandidateExe.addMaps policy (event.mapFor p).toList) := by
  -- an event that mentions no path changes no candidate
  have hnone : acc.candidates.get? p = ((acc.candidates.get? p).or none).map
      (CandidateExe.addMaps policy []) := by
    cases acc.candidates.get? p <;> rfl
  cases event with
  | obsBegin _ _ => exact hnone
  | memStat _ => exact hnone
  | obsEnd _ _ _ => exact hnone
  | exeSeen path pid =>
      simp only [Collected.event, Collected.withCandidate, FxHashMap.get?_modifyEntry,
        ObservationEvent.pidFor, ObservationEvent.mapFor, eq_comm (a := path)]
      split
      · next h =>
          subst h
          cases acc.candidates.get? p <;> rfl
      · exact hnone
  | mapSeen exePath map =>
      simp only [Collected.event, Collected.withCandidate, FxHashMap.get?_modifyEntry,
        ObservationEvent.pidFor, ObservationEvent.mapFor, eq_comm (a := exePath)]
      split
      · next h =>
          subst h
          cases acc.candidates.get? p <;> rfl
      · exact hnone

/-- The whole pass: the first mention gives the process id, the maps are added in order. -/
theorem candidates_fold (obs : Observation) (acc : Collected) (p : Path) :
    (obs.foldl (Collected.event policy) acc).candidates.get? p =
      ((acc.candidates.get? p).or ((obs.pidOf p).map (CandidateExe.new p))).map
        (CandidateExe.addMaps policy (obs.mapsOf p)) := by
  induction obs generalizing acc with
  | nil => cases h : acc.candidates.get? p <;> simp [h, Observation.pidOf, Observation.mapsOf]
  | cons event rest ih =>
      -- the map of the first event comes before the others
      have hmaps : ∀ c : CandidateExe, CandidateExe.addMaps policy (Observation.mapsOf rest p)
          (CandidateExe.addMaps policy (event.mapFor p).toList c) =
            CandidateExe.addMaps policy (Observation.mapsOf (event :: rest) p) c := by
        intro c
        unfold Observation.mapsOf CandidateExe.addMaps
        cases hm : event.mapFor p <;> simp [hm]
      rw [List.foldl_cons, ih, candidates_event]
      cases hold : acc.candidates.get? p with
      | some c =>
          simp only [Option.some_or, Option.map_some]
          rw [hmaps]
      | none =>
          cases hpid : event.pidFor p with
          | some pid =>
              have hfirst : Observation.pidOf (event :: rest) p = some pid := by
                simp [Observation.pidOf, hpid]
              rw [hfirst]
              simp only [Option.none_or, Option.map_some, Option.some_or]
              rw [hmaps]
          | none =>
              -- neither the candidate nor its maps are touched
              have hrest : Observation.pidOf (event :: rest) p =
                  Observation.pidOf rest p := by
                simp [Observation.pidOf, hpid]
              have hsame : Observation.mapsOf (event :: rest) p =
                  Observation.mapsOf rest p := by
                simp [Observation.mapsOf, ObservationEvent.mapFor_of_pidFor hpid]
              rw [hrest, hsame]
              simp

theorem candidate_collect (modelTime : UInt64) (obs : Observation) (p : Path) :
    (collect policy modelTime obs).candidates.get? p =
      (obs.pidOf p).map fun pid => (CandidateExe.new p pid).addMaps policy (obs.mapsOf p) := by
  rw [collect, candidates_fold]
  simp [Function.comp_def]

/-- A candidate lists the allowed maps that were seen for its path. -/
theorem mem_maps_candidate {modelTime : UInt64} {obs : Observation} {p : Path} {c : CandidateExe}
    (h : (collect policy modelTime obs).candidates.get? p = some c) (m : MapSegment) :
    m ∈ c.maps ↔ .mapSeen p m ∈ obs ∧ policy.allowMap m.path = true := by
  rw [candidate_collect, Option.map_eq_some_iff] at h
  obtain ⟨pid, -, rfl⟩ := h
  rw [CandidateExe.addMaps_maps, CandidateExe.new, List.nil_append, List.mem_filter,
    Observation.mem_mapsOf]

/-- What is known of the candidate of a path: every allowed map it lists was seen for it, and it was
    seen itself, by a process or through a map. -/
structure CandidateOf (obs : Observation) (path : Path) (c : CandidateExe) : Prop where
  path_eq : c.path = path
  maps_seen : ∀ m ∈ c.maps, policy.allowMap m.path = true ∧ .mapSeen path m ∈ obs
  seen : obs.sees path ∨ ∃ m, .mapSeen path m ∈ obs

theorem candidateOf_collect (modelTime : UInt64) (obs : Observation) {p : Path} {c : CandidateExe}
    (h : (collect policy modelTime obs).candidates.get? p = some c) :
    CandidateOf policy obs p c where
  path_eq := by
    rw [candidate_collect, Option.map_eq_some_iff] at h
    obtain ⟨pid, -, rfl⟩ := h
    exact CandidateExe.addMaps_path _ _
  maps_seen m hm := ((mem_maps_candidate policy h m).1 hm).symm
  seen := by
    rw [candidate_collect, Option.map_eq_some_iff] at h
    obtain ⟨pid, hpid, -⟩ := h
    exact Observation.isSome_pidOf.1 (Option.isSome_of_mem hpid)

/-- What `apply` decides on the candidate of `path`, if the observation has one. -/
def admissionDecision (modelTime : UInt64) (obs : Observation) (path : Path) :
    Option AdmissionDecision :=
  ((collect policy modelTime obs).candidates.get? path).map policy.decide

end Collect

end PreloadNg
