import PreloadNg.Observation.Admission
import PreloadNg.Stores.Basic

set_option autoImplicit false

/-! # The model updater

`DefaultModelUpdater::apply` turns one observation into a change of the stores. The method is one
long body in the source; its stages are definitions of their own here, in the order in which the
body runs them: collect the candidates, admit them, refresh the running flags, update the active set
and prune edges, create the missing edges, account for running time and take the transitions. -/

namespace PreloadNg

structure ModelDelta where
  newExes : List ExeKey
  newMaps : List MapKey
  newEdges : List (ExeKey × ExeKey)
  runningNow : List ExeKey
  stoppedNow : List ExeKey
  rejected : List (ExeKey × RejectReason)
  partialExes : List ExeKey
deriving DecidableEq

def ModelDelta.empty : ModelDelta := ⟨[], [], [], [], [], [], []⟩

/-! ## Collecting candidates -/

/-- What the pass over the events accumulates. -/
structure Collected where
  candidates : FxHashMap Path CandidateExe
  runningPaths : FxHashSet Path
  now : UInt64

namespace Collected

/-- `candidates.entry(path)`, created with `pid` when absent, rewritten by `f`. -/
def withCandidate (c : Collected) (path : Path) (pid : UInt32) (f : CandidateExe → CandidateExe) :
    Collected :=
  { c with candidates := c.candidates.modifyEntry path (CandidateExe.new path pid) f }

def addMap (policy : AdmissionPolicy) (map : MapSegment) (c : CandidateExe) : CandidateExe :=
  if policy.allowMap map.path then
    { c with totalSize := satAdd c.totalSize map.length, maps := c.maps ++ [map] }
  else { c with rejectedMaps := c.rejectedMaps ++ [map.path] }

def event (policy : AdmissionPolicy) (c : Collected) : ObservationEvent → Collected
  | .obsBegin time _ => { c with now := time }
  | .exeSeen path pid =>
    let c := { c with runningPaths := c.runningPaths.insert path }
    c.withCandidate path pid id
  | .mapSeen exePath map => c.withCandidate exePath 0 (addMap policy map)
  | .memStat _ => c
  | .obsEnd _ _ _ => c

end Collected

def collect (policy : AdmissionPolicy) (modelTime : UInt64) (obs : Observation) : Collected :=
  obs.foldl (Collected.event policy) ⟨∅, ∅, modelTime⟩

/-! ## Admitting candidates -/

/-- The stores, the delta and the executables found active, while `apply` runs. -/
structure Applying (F16 : Type) where
  stores : Stores F16
  delta : ModelDelta
  activeExeIds : FxHashSet ExeId

section Stages

variable {F16 F32 : Type}

/-- Store a map of an admitted executable and relate the two. -/
def admitMap (exeId : ExeId) (st : Applying F16) (map : MapSegment) : Applying F16 :=
  let (stores, mapId, isNew) := st.stores.ensureMapWithFlag map
  { st with
    stores := stores.attachMap exeId mapId
    delta :=
      if isNew then { st.delta with newMaps := st.delta.newMaps ++ [map.key] } else st.delta }

/-- `exe.last_seen_time = Some(now)`. -/
def Exe.touch (now : UInt64) (e : Exe) : Exe := { e with lastSeenTime := some now }

theorem Exe.key_touch (now : UInt64) (e : Exe) : (e.touch now).key = e.key := rfl

/-- Store the executable of an accepted candidate, if it is new, and note that it was seen. -/
def touchExe (now : UInt64) (s : Stores F16) (key : ExeKey) : Stores F16 × ExeId :=
  let (s, exeId) := s.ensureExe key
  ({ s with exes := s.exes.modify exeId (Exe.touch now) (Exe.key_touch now) }, exeId)

/-- The branch of an accepted candidate. -/
def acceptCandidate (now : UInt64) (runningPaths : FxHashSet Path) (st : Applying F16)
    (c : CandidateExe) (completeness : Completeness) : Applying F16 :=
  let exeKey : ExeKey := ⟨c.path⟩
  let isNewExe := (st.stores.exes.idByKey exeKey).isNone
  let (stores, exeId) := touchExe now st.stores exeKey
  let delta :=
    if isNewExe then { st.delta with newExes := st.delta.newExes ++ [exeKey] } else st.delta
  let delta :=
    if completeness = .partly then { delta with partialExes := delta.partialExes ++ [exeKey] }
    else delta
  let st := c.maps.foldl (admitMap exeId) { st with stores, delta }
  { st with
    activeExeIds :=
      if c.path ∈ runningPaths then st.activeExeIds.insert exeId else st.activeExeIds }

def admitCandidate (policy : AdmissionPolicy) (now : UInt64) (runningPaths : FxHashSet Path)
    (st : Applying F16) (c : CandidateExe) : Applying F16 :=
  match policy.decide c with
  | .reject reason =>
    { st with delta := { st.delta with rejected := st.delta.rejected ++ [(⟨c.path⟩, reason)] } }
  | .defer => st
  | .accept completeness => acceptCandidate now runningPaths st c completeness

/-- Candidates come in the iteration order of their hash map. -/
def admitAll (ord : HashOrder) (policy : AdmissionPolicy) (c : Collected) (s : Stores F16) :
    Applying F16 :=
  ((ord.enum c.candidates.iter).map Prod.snd).foldl
    (admitCandidate policy c.now c.runningPaths) ⟨s, ModelDelta.empty, ∅⟩

/-! ## Running flags -/

def Exe.refresh (now : UInt64) (runningPaths : FxHashSet Path) (e : Exe) : Exe :=
  let isRunning := decide (e.key.path ∈ runningPaths)
  { e with
    changeTime := if e.running ≠ isRunning then now else e.changeTime
    running := isRunning }

theorem Exe.key_refresh (now : UInt64) (runningPaths : FxHashSet Path) (e : Exe) :
    (e.refresh now runningPaths).key = e.key := rfl

def refreshExe (now : UInt64) (runningPaths : FxHashSet Path) (st : Applying F16) (id : ExeId) :
    Applying F16 :=
  match st.stores.exes.get? id with
  | none => st
  | some exe =>
    let isRunning := decide (exe.key.path ∈ runningPaths)
    { stores :=
        { st.stores with
          exes :=
            st.stores.exes.modify id (Exe.refresh now runningPaths)
              (Exe.key_refresh now runningPaths) }
      delta :=
        if exe.running ≠ isRunning then
          if isRunning then { st.delta with runningNow := st.delta.runningNow ++ [exe.key] }
          else { st.delta with stoppedNow := st.delta.stoppedNow ++ [exe.key] }
        else st.delta
      activeExeIds := if isRunning then st.activeExeIds.insert id else st.activeExeIds }

def refreshRunning (now : UInt64) (runningPaths : FxHashSet Path) (st : Applying F16) :
    Applying F16 :=
  st.stores.exes.ids.foldl (refreshExe now runningPaths) st

/-! ## Active set and edges -/

/-- Update and prune the active set, then drop the edges that left it. -/
def updateActive (ord : HashOrder) (activeWindow now : UInt64) (activeExeIds : FxHashSet ExeId)
    (s : Stores F16) : Stores F16 :=
  let active := ((s.active.update (ord.enum activeExeIds.iter) now).prune now activeWindow).1
  { s with active, markov := s.markov.pruneInactive active.exes }

/-- The pairs of positions `i < j` of a vector, in the order of two nested loops. -/
def pairs {α : Type} : List α → List (α × α)
  | [] => []
  | a :: rest => rest.map (fun b => (a, b)) ++ pairs rest

def edgeState (s : Stores F16) (a b : ExeId) : MarkovState :=
  MarkovState.fromRunning (s.isRunning a) (s.isRunning b)

/-- One round of the nested loops over the active executables. -/
def ensureEdge (zero : F16) (now : UInt64) (st : Stores F16 × ModelDelta) (p : ExeId × ExeId) :
    Stores F16 × ModelDelta :=
  let (s, delta) := st
  let (s', isNew) := s.ensureMarkovEdge zero p.1 p.2 now (edgeState s p.1 p.2)
  let delta :=
    match isNew, s'.exes.get? p.1, s'.exes.get? p.2 with
    | true, some a, some b => { delta with newEdges := delta.newEdges ++ [(a.key, b.key)] }
    | _, _, _ => delta
  (s', delta)

def ensureEdges (zero : F16) (ord : HashOrder) (now : UInt64) (s : Stores F16)
    (delta : ModelDelta) : Stores F16 × ModelDelta :=
  (pairs (ord.enum s.active.exes.iter)).foldl (ensureEdge zero now) (s, delta)

/-! ## Accounting and transitions -/

/-- Credit a running executable with the period. -/
def Exe.credit (period : UInt64) (e : Exe) : Exe :=
  if e.running then { e with totalRunningTime := satAdd e.totalRunningTime period } else e

theorem Exe.key_credit (period : UInt64) (e : Exe) : (e.credit period).key = e.key := by
  unfold Exe.credit
  split <;> rfl

def creditExes (period : UInt64) (s : Stores F16) : Stores F16 :=
  if 0 < period then
    { s with exes := s.exes.modifyEach s.exes.ids (Exe.credit period) (Exe.key_credit period) }
  else s

variable [Float32Ops F32] (num : Numerics F16 F32)

/-- Credit an edge whose two executables run with the period, then take its transition. -/
def advanceEdge (now : UInt64) (decay : F32) (period : UInt64) (s : Stores F16) (key : EdgeKey)
    (e : Edge F16) : Edge F16 :=
  let e :=
    if 0 < period ∧ s.isRunning key.a ∧ s.isRunning key.b then
      { e with bothRunningTime := satAdd e.bothRunningTime period }
    else e
  e.updateState num (edgeState s key.a key.b) now decay

def account (now : UInt64) (decay : F32) (s : Stores F16) : Stores F16 :=
  let period := satSub now s.lastAccountingTime
  let s := creditExes period s
  { s with
    markov := s.markov.iterMut (advanceEdge num now decay period s)
    lastAccountingTime := now
    modelTime := now }

/-! ## The updater -/

structure DefaultModelUpdater (F32 : Type) where
  activeWindow : UInt64
  decay : F32

def DefaultModelUpdater.apply (u : DefaultModelUpdater F32) (ord : HashOrder) (s : Stores F16)
    (obs : Observation) (policy : AdmissionPolicy) : Stores F16 × ModelDelta :=
  let c := collect policy s.modelTime obs
  let st := admitAll ord policy c s
  let st := refreshRunning c.now c.runningPaths st
  let s := updateActive ord u.activeWindow c.now st.activeExeIds st.stores
  let (s, delta) := ensureEdges num.zero ord c.now s st.delta
  (account num c.now u.decay s, delta)

end Stages

end PreloadNg
