import PreloadNg.Domain

set_option autoImplicit false

/-! # Observation events -/

namespace PreloadNg

inductive ScanWarning where
  | mapScanFailed (pid : UInt32) (reason : String)
deriving DecidableEq

inductive ObservationEvent where
  | obsBegin (time scanId : UInt64)
  | exeSeen (path : Path) (pid : UInt32)
  | mapSeen (exePath : Path) (map : MapSegment)
  | memStat (mem : MemStat)
  | obsEnd (time scanId : UInt64) (warnings : List ScanWarning)
deriving DecidableEq

abbrev Observation : Type := List ObservationEvent

/-- An executable seen in one observation, with what was seen of its maps. -/
structure CandidateExe where
  path : Path
  pid : UInt32
  maps : List MapSegment
  totalSize : UInt64
  rejectedMaps : List Path
deriving DecidableEq

def CandidateExe.new (path : Path) (pid : UInt32) : CandidateExe where
  path := path
  pid := pid
  maps := []
  totalSize := 0
  rejectedMaps := []

/-- The time an observation is taken at: that of its last `ObsBegin`, else the model time. -/
def Observation.time (obs : Observation) (modelTime : UInt64) : UInt64 :=
  obs.foldl (fun now event =>
    match event with
    | .obsBegin time _ => time
    | _ => now) modelTime

/-- A scan at `time` that finds the given programs running, each mapping the same library. -/
def Observation.ofRunning (time : UInt64) (programs : List String) : Observation :=
  .obsBegin time 1 ::
    programs.flatMap (fun p =>
      [.exeSeen (Path.ofString p) 1,
       .mapSeen (Path.ofString p) (MapSegment.new (Path.ofString "/lib/libc.so") 0 4096 time)]) ++
    [.obsEnd time 1 []]

@[simp] theorem Observation.time_ofRunning (time : UInt64) (programs : List String)
    (modelTime : UInt64) : (Observation.ofRunning time programs).time modelTime = time := by
  unfold ofRunning Observation.time
  rw [List.cons_append, List.foldl_cons, List.foldl_append]
  induction programs with
  | nil => rfl
  | cons p rest ih => exact ih

/-- An observation says when it was taken, or takes the time it was asked for. -/
theorem Observation.time_cases (obs : Observation) :
    (∀ t, obs.time t = t) ∨ ∃ now, ∀ t, obs.time t = now := by
  induction obs with
  | nil => exact Or.inl fun _ => rfl
  | cons event rest ih =>
      rcases ih with hkeep | ⟨now, hnow⟩
      · cases event with
        | obsBegin time scanId => exact Or.inr ⟨time, fun _ => hkeep time⟩
        | exeSeen path pid => exact Or.inl hkeep
        | mapSeen exePath map => exact Or.inl hkeep
        | memStat mem => exact Or.inl hkeep
        | obsEnd time scanId warnings => exact Or.inl hkeep
      · exact Or.inr ⟨now, fun _ => hnow _⟩

/-- An observation that is applied again has the same time. -/
theorem Observation.time_time (obs : Observation) (t : UInt64) :
    obs.time (obs.time t) = obs.time t := by
  rcases obs.time_cases with hkeep | ⟨now, hnow⟩
  · rw [hkeep, hkeep]
  · rw [hnow, hnow]

/-- Whether the observation was taken at the time it was asked for. -/
def Observation.Echoes (obs : Observation) (now : UInt64) : Prop :=
  ∀ time scanId, ObservationEvent.obsBegin time scanId ∈ obs → time = now

theorem Observation.time_of_echoes {obs : Observation} {now : UInt64} (h : obs.Echoes now) :
    obs.time now = now := by
  unfold Observation.time
  induction obs with
  | nil => rfl
  | cons event rest ih =>
      have hrest : Observation.Echoes rest now :=
        fun time scanId hmem => h time scanId (List.mem_cons_of_mem _ hmem)
      rw [List.foldl_cons]
      cases event with
      | obsBegin time scanId =>
          obtain rfl := h time scanId List.mem_cons_self
          exact ih hrest
      | exeSeen path pid => exact ih hrest
      | mapSeen exePath map => exact ih hrest
      | memStat mem => exact ih hrest
      | obsEnd time scanId warnings => exact ih hrest

theorem Observation.echoes_ofRunning (time : UInt64) (programs : List String) :
    (Observation.ofRunning time programs).Echoes time := by
  intro time' scanId h
  simp only [ofRunning, List.mem_append, List.mem_cons, List.mem_flatMap, reduceCtorEq,
    or_false, List.not_mem_nil, ObservationEvent.obsBegin.injEq, and_false, exists_false] at h
  exact h.1

/-- Whether the event is a process that runs `path`. -/
def ObservationEvent.runs (path : Path) : ObservationEvent → Bool
  | .exeSeen path' _ => path' = path
  | _ => false

theorem ObservationEvent.runs_iff {path : Path} {event : ObservationEvent} :
    event.runs path = true ↔ ∃ pid, event = .exeSeen path pid := by
  cases event <;> simp [runs]

/-- Whether some process of the observation runs `path`. -/
def Observation.sees (obs : Observation) (path : Path) : Prop :=
  ∃ pid, ObservationEvent.exeSeen path pid ∈ obs

instance (obs : Observation) (path : Path) : Decidable (obs.sees path) :=
  decidable_of_iff (∃ event ∈ obs, event.runs path) (by
    constructor
    · rintro ⟨event, hmem, hruns⟩
      obtain ⟨pid, rfl⟩ := ObservationEvent.runs_iff.1 hruns
      exact ⟨pid, hmem⟩
    · intro ⟨pid, hmem⟩
      exact ⟨_, hmem, ObservationEvent.runs_iff.2 ⟨pid, rfl⟩⟩)

/-- Such a scan lists maps only for programs it lists as running. -/
theorem Observation.sees_of_mapSeen_ofRunning {time : UInt64} {programs : List String} {p : Path}
    {m : MapSegment} (h : .mapSeen p m ∈ Observation.ofRunning time programs) :
    (Observation.ofRunning time programs).sees p := by
  simp only [ofRunning, List.mem_append, List.mem_cons, List.mem_flatMap, reduceCtorEq,
    false_or, or_false, List.not_mem_nil, ObservationEvent.mapSeen.injEq] at h
  obtain ⟨q, hq, rfl, -⟩ := h
  refine ⟨1, ?_⟩
  simp only [ofRunning, List.mem_append, List.mem_cons, List.mem_flatMap]
  exact Or.inl (Or.inr ⟨q, hq, Or.inl rfl⟩)

end PreloadNg
