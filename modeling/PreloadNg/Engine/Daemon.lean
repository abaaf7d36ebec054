import PreloadNg.Config.Settings
import PreloadNg.Lib.Simulation
import PreloadNg.Persistence.Repo

set_option autoImplicit false

/-! # The daemon

`run_until` as a transition system: the loop advances from one suspension point to the next, and
between any two of its steps time passes, signals arrive or the process is killed. What `select!`
picks is the choice of the step. A new process loads from the database of its state file, as the last
one with that file left it; without a state file nothing is loaded or saved. -/

namespace PreloadNg

variable {F16 F32 F64 : Type}

inductive ControlEvent (F32 : Type) where
  | reload (bundle : Bundle F32)
  | dumpStatus
  | saveNow

/-- Where the loop is suspended; instants in nanoseconds. -/
inductive Phase (F16 : Type) where
  /-- In the first `select!`, with nothing begun. -/
  | selecting (tickStart : ℕ)
  /-- In the first `select!`, the tick waits for its prefetch. -/
  | prefetching (tickStart : ℕ) (tick : Suspended F16)
  /-- In front of the autosave. -/
  | autosaving (tickStart : ℕ) (didTick : Bool)
  /-- In the second `select!`. -/
  | sleeping (wakeAt : ℕ)
  | stopped (result : Except Error Unit)

/-- `SqliteRepository` with its file, or `NoopRepository`. State files are told apart by their paths. -/
inductive Repository where
  | noop
  | sqlite (file : Path)
deriving DecidableEq

/-- What `main` picks; a reload does not change it. -/
def Repository.select (noPersist : Bool) (statePath : Option RawPath) : Repository :=
  if noPersist then .noop
  else
    match statePath with
    | some path => .sqlite (.ofRaw path)
    | none => .noop

def Repository.file : Repository → Option Path
  | .noop => none
  | .sqlite file => some file

/-- What a process gets from outside when it starts: its flags, what it finds out about the host, and
    an error when its database is opened or loaded. -/
structure Launch where
  noPersist : Bool
  noPrefetch : Bool
  features : HostFeatures
  fault : Option Error

/-- A start without flags on a host with one processor and every backend, without an error. -/
def Launch.plain : Launch where
  noPersist := false
  noPrefetch := false
  features := ⟨some 1, true, true⟩
  fault := none

/-- The repository of a process. -/
def Launch.repo {F32 : Type} (launch : Launch) (config : Settings F32) : Repository :=
  .select launch.noPersist config.persistence.statePath

/-- `PreloadEngine` with the arguments of `run_until`, the flag that the signal handlers remember, and
    its place in the loop. -/
structure Daemon (F16 F32 : Type) where
  config : Settings F32
  services : DefaultServices F32
  repo : Repository
  noPrefetch : Bool
  stores : Stores F16
  scanId : UInt64
  lastSave : ℕ
  cancelled : Bool
  control : List (ControlEvent F32)
  phase : Phase F16

/-- The databases by their files, the monotonic clock, and the process if there is one. -/
structure Host (F16 F32 F64 : Type) where
  dbs : Path → Database F64
  now : ℕ
  daemon : Option (Daemon F16 F32)

/-- What a tick gets from outside before it suspends; `cached` is what the rejection cache has. -/
structure DaemonTickInput where
  scan : Except Error Observation
  cached : Path → Option RejectReason
  applyOrder : HashOrder
  predictOrder : HashOrder
  planOrder : HashOrder

/-- A tick with nothing cached and hash tables in insertion order. -/
def DaemonTickInput.ofScan (scan : Except Error Observation) : DaemonTickInput where
  scan := scan
  cached := fun _ => none
  applyOrder := .insertion
  predictOrder := .insertion
  planOrder := .insertion

/-- What a save gets from outside: an I/O error rolls the transaction back. -/
structure SaveInput where
  ord : HashOrder
  createdAt : ℤ
  fault : Option Error
  took : ℕ

inductive HostOp (F32 : Type) where
  | pass (elapsed : ℕ)
  | kill
  | start (config : Settings F32) (launch : Launch)
  /-- `none` when the configuration cannot be loaded. -/
  | sighup (loaded : Option (Settings F32)) (features : HostFeatures)
  | sigusr1
  | sigusr2
  | ctrlC
  | beginTick (input : DaemonTickInput)
  | finishTick (prefetch : PrefetchReport) (exist : Path → Bool)
  | control (save : SaveInput)
  | cancelled (save : SaveInput)
  | autosave (save : SaveInput)
  | wake

namespace Daemon

/-- The engine inside. -/
def engine (d : Daemon F16 F32) : PreloadEngine F16 F32 where
  config := d.config.engine
  services := d.services.toServices
  stores := d.stores
  scanId := d.scanId

/-- The decisions of a tick are those of the installed policy. -/
def tickInput (d : Daemon F16 F32) (input : DaemonTickInput) : TickInput where
  scan := input.scan
  decide := (d.services.admission.toPolicy input.cached).decide
  applyOrder := input.applyOrder
  predictOrder := input.predictOrder
  planOrder := input.planOrder

/-- `apply_reload`. -/
def applyReload (d : Daemon F16 F32) (bundle : Bundle F32) : Daemon F16 F32 :=
  { d with
    config :=
      { bundle.config with
        persistence :=
          { bundle.config.persistence with statePath := d.config.persistence.statePath } }
    services := bundle.services }

/-- Nanoseconds of a duration in seconds. -/
def nanos (secs : UInt64) : ℕ := secs.toNat * 1000000000

/-- Whether the loop saves before the next round. -/
def autosaveDue (d : Daemon F16 F32) (now : ℕ) : Bool :=
  decide (0 < d.config.autosaveInterval) &&
    decide (nanos d.config.autosaveInterval ≤ now - d.lastSave)

/-- The end of a round: after a tick, the rest of the cycle is slept. -/
def nextPhase (d : Daemon F16 F32) (now tickStart : ℕ) (didTick : Bool) : Phase F16 :=
  if didTick && decide (now - tickStart < nanos d.config.model.cycle) then
    .sleeping (now + (nanos d.config.model.cycle - (now - tickStart)))
  else .selecting now

/-- A signal task sends an event; it gets lost when the loop has ended. -/
def send (d : Daemon F16 F32) (event : ControlEvent F32) : Daemon F16 F32 :=
  match d.phase with
  | .stopped _ => d
  | _ => { d with control := d.control ++ [event] }

end Daemon

section Exec

variable [Float32Ops F32] (num : Numerics F16 F32) (enc : Encoding F32 F64) (ln2 : F32)

/-- `StateRepository::load`, where the file system may answer with an error. -/
def Repository.load (fault : Option Error) (dbs : Path → Database F64) :
    Repository → Except Error (StoresSnapshot F32)
  | .noop => .ok (.empty F32)
  | .sqlite file =>
    match fault with
    | some err => .error err
    | none => loadSnapshot enc (dbs file)

/-- `StateRepository::save`. -/
def Repository.save (fault : Option Error) (snapshot : StoresSnapshot F32)
    (dbs : Path → Database F64) : Repository → Except Error (Path → Database F64)
  | .noop => .ok dbs
  | .sqlite file =>
    match fault with
    | some err => .error err
    | none => (saveSnapshot enc snapshot (dbs file)).map (Function.update dbs file)

/-- `PreloadEngine::save`. -/
def Daemon.save (d : Daemon F16 F32) (input : SaveInput) (dbs : Path → Database F64) :
    Except Error (Path → Database F64) :=
  d.repo.save enc input.fault (snapshotFromStores num input.ord input.createdAt d.stores) dbs

/-- The first part of `tick`; an error of the scan ends the loop. -/
def Daemon.beginTick (d : Daemon F16 F32) (tickStart : ℕ) (input : DaemonTickInput) :
    Daemon F16 F32 :=
  let (e, result) := d.engine.beginTick num (d.tickInput input)
  { d with
    stores := e.stores
    scanId := e.scanId
    phase :=
      match result with
      | .ok tick => .prefetching tickStart tick
      | .error err => .stopped (.error err) }

def Daemon.finishTick (d : Daemon F16 F32) (tickStart : ℕ) (tick : Suspended F16)
    (prefetch : PrefetchReport) (exist : Path → Bool) : Daemon F16 F32 :=
  let (e, _) := d.engine.finishTick tick prefetch exist
  { d with
    stores := e.stores
    phase := .autosaving tickStart true }

/-- Save and note the time; an error ends the loop. -/
def Host.saveOrStop (h : Host F16 F32 F64) (d : Daemon F16 F32) (input : SaveInput) :
    Host F16 F32 F64 :=
  let now := h.now + input.took
  match d.save num enc input h.dbs with
  | .ok dbs => { dbs, now, daemon := some { d with lastSave := now } }
  | .error err => { h with now, daemon := some { d with phase := .stopped (.error err) } }

/-- `handle_control`, then on to the autosave. -/
def Host.handleControl (h : Host F16 F32 F64) (d : Daemon F16 F32) (tickStart : ℕ)
    (event : ControlEvent F32) (input : SaveInput) : Host F16 F32 F64 :=
  let d := { d with phase := .autosaving tickStart false }
  match event with
  | .reload bundle => { h with daemon := some (d.applyReload bundle) }
  | .dumpStatus => { h with daemon := some d }
  | .saveNow => h.saveOrStop num enc d input

/-- The branch of `select!` for a cancellation; an error of the save is ignored. -/
def Host.shutdown (h : Host F16 F32 F64) (d : Daemon F16 F32) (input : SaveInput) :
    Host F16 F32 F64 :=
  let d := { d with phase := .stopped (.ok ()) }
  if d.config.persistence.saveOnShutdown then
    let now := h.now + input.took
    match d.save num enc input h.dbs with
    | .ok dbs => { dbs, now, daemon := some d }
    | .error _ => { h with now, daemon := some d }
  else { h with daemon := some d }

/-- The autosave and the end of the round. -/
def Host.autosave (h : Host F16 F32 F64) (d : Daemon F16 F32) (tickStart : ℕ) (didTick : Bool)
    (input : SaveInput) : Host F16 F32 F64 :=
  if d.autosaveDue h.now then
    let now := h.now + input.took
    h.saveOrStop num enc { d with phase := d.nextPhase now tickStart didTick } input
  else { h with daemon := some { d with phase := d.nextPhase h.now tickStart didTick } }

/-- `PreloadEngine::load` from the repository. -/
def Host.loadEngine (h : Host F16 F32 F64) (config : Settings F32)
    (services : DefaultServices F32) (launch : Launch) : Except Error (PreloadEngine F16 F32) := do
  let snapshot ← (launch.repo config).load enc launch.fault h.dbs
  PreloadEngine.load num snapshot config.engine services.toServices

/-- `main` up to the loop. When the database cannot be opened or loaded, there is no process. -/
def Host.start (h : Host F16 F32 F64) (config : Settings F32) (launch : Launch) :
    Host F16 F32 F64 :=
  let services := (buildReloadBundle ln2 launch.features config launch.noPrefetch).services
  match h.loadEngine num enc config services launch with
  | .error _ => { h with daemon := none }
  | .ok e =>
    { h with
      daemon := some
        { config
          services
          repo := launch.repo config
          noPrefetch := launch.noPrefetch
          stores := e.stores
          scanId := e.scanId
          lastSave := h.now
          cancelled := false
          control := []
          phase := .selecting h.now } }

/-- A step is not possible in every state. -/
def HostOp.exec (h : Host F16 F32 F64) : HostOp F32 → Option (Host F16 F32 F64)
  | .pass elapsed => some { h with now := h.now + elapsed }
  | .kill => some { h with daemon := none }
  | .start config launch =>
    match h.daemon with
    | none => some (h.start num enc ln2 config launch)
    | some _ => none
  | .sighup loaded features =>
    match loaded with
    | none => some h
    | some config =>
      h.daemon.map fun d =>
        { h with
          daemon := some (d.send (.reload (buildReloadBundle ln2 features config d.noPrefetch))) }
  | .sigusr1 => h.daemon.map fun d => { h with daemon := some (d.send .dumpStatus) }
  | .sigusr2 => h.daemon.map fun d => { h with daemon := some (d.send .saveNow) }
  | .ctrlC => h.daemon.map fun d => { h with daemon := some { d with cancelled := true } }
  | .beginTick input =>
    h.daemon.bind fun d =>
      match d.phase with
      | .selecting tickStart => some { h with daemon := some (d.beginTick num tickStart input) }
      | _ => none
  | .finishTick prefetch exist =>
    h.daemon.bind fun d =>
      match d.phase with
      | .prefetching tickStart tick =>
        some { h with daemon := some (d.finishTick tickStart tick prefetch exist) }
      | _ => none
  | .control save =>
    h.daemon.bind fun d =>
      match d.phase, d.control with
      | .selecting tickStart, event :: rest
      | .prefetching tickStart _, event :: rest =>
        some (h.handleControl num enc { d with control := rest } tickStart event save)
      | _, _ => none
  | .cancelled save =>
    h.daemon.bind fun d =>
      match d.phase, d.cancelled with
      | .selecting _, true
      | .prefetching _ _, true
      | .sleeping _, true => some (h.shutdown num enc d save)
      | _, _ => none
  | .autosave save =>
    h.daemon.bind fun d =>
      match d.phase with
      | .autosaving tickStart didTick => some (h.autosave num enc d tickStart didTick save)
      | _ => none
  | .wake =>
    h.daemon.bind fun d =>
      match d.phase with
      | .sleeping wakeAt =>
        if wakeAt ≤ h.now then
          some { h with daemon := some { d with phase := .selecting h.now } }
        else none
      | _ => none

def HostStep (h : Host F16 F32 F64) (op : HostOp F32) (h' : Host F16 F32 F64) : Prop :=
  op.exec num enc ln2 h = some h'

/-- Empty databases and no process. -/
def Host.initial (F16 F32 F64 : Type) (now : ℕ) : Host F16 F32 F64 where
  dbs := fun _ => ⟨∅, ∅, ∅, ∅, ∅⟩
  now := now
  daemon := none

/-- One operation after the other. -/
def Host.execAll (h : Host F16 F32 F64) (ops : List (HostOp F32)) : Option (Host F16 F32 F64) :=
  ops.foldlM (fun h op => op.exec num enc ln2 h) h

theorem run_of_execAll {ops : List (HostOp F32)} {h h' : Host F16 F32 F64}
    (hexec : h.execAll num enc ln2 ops = some h') : Run (HostStep num enc ln2) h ops h' :=
  Run.of_foldlM hexec

end Exec

/-! ## What a step does -/

section Moves

variable [Float32Ops F32] (num : Numerics F16 F32) (enc : Encoding F32 F64) (ln2 : F32)

/-- The event that a signal queues, in a process with the flag. -/
def HostOp.event (noPrefetch : Bool) : HostOp F32 → Option (ControlEvent F32)
  | .sighup loaded features =>
    loaded.map fun config => .reload (buildReloadBundle ln2 features config noPrefetch)
  | .sigusr1 => some .dumpStatus
  | .sigusr2 => some .saveNow
  | _ => none

/-- Everything that a step can do. -/
inductive HostMove (h : Host F16 F32 F64) : HostOp F32 → Host F16 F32 F64 → Prop
  | passes {elapsed : ℕ} : HostMove h (.pass elapsed) { h with now := h.now + elapsed }
  | dies : HostMove h .kill { h with daemon := none }
  | starts {config : Settings F32} {launch : Launch} (hd : h.daemon = none) :
      HostMove h (.start config launch) (h.start num enc ln2 config launch)
  | ignores {features : HostFeatures} : HostMove h (.sighup none features) h
  | sends {op : HostOp F32} {event : ControlEvent F32} {d : Daemon F16 F32} (hd : h.daemon = some d)
      (hevent : op.event ln2 d.noPrefetch = some event) :
      HostMove h op { h with daemon := some (d.send event) }
  | cancels {d : Daemon F16 F32} (hd : h.daemon = some d) :
      HostMove h .ctrlC { h with daemon := some { d with cancelled := true } }
  | begins {input : DaemonTickInput} {d : Daemon F16 F32} {t : ℕ} (hd : h.daemon = some d)
      (hphase : d.phase = .selecting t) :
      HostMove h (.beginTick input) { h with daemon := some (d.beginTick num t input) }
  | finishes {prefetch : PrefetchReport} {exist : Path → Bool} {d : Daemon F16 F32} {t : ℕ}
      {tick : Suspended F16} (hd : h.daemon = some d) (hphase : d.phase = .prefetching t tick) :
      HostMove h (.finishTick prefetch exist)
        { h with daemon := some (d.finishTick t tick prefetch exist) }
  | controls {save : SaveInput} {d : Daemon F16 F32} {t : ℕ} {event : ControlEvent F32}
      {rest : List (ControlEvent F32)} (hd : h.daemon = some d)
      (hphase : d.phase = .selecting t ∨ ∃ tick, d.phase = .prefetching t tick)
      (hqueue : d.control = event :: rest) :
      HostMove h (.control save) (h.handleControl num enc { d with control := rest } t event save)
  | shuts {save : SaveInput} {d : Daemon F16 F32} (hd : h.daemon = some d)
      (hphase : ∀ result, d.phase ≠ .stopped result) :
      HostMove h (.cancelled save) (h.shutdown num enc d save)
  | autosaves {save : SaveInput} {d : Daemon F16 F32} {t : ℕ} {didTick : Bool}
      (hd : h.daemon = some d) (hphase : d.phase = .autosaving t didTick) :
      HostMove h (.autosave save) (h.autosave num enc d t didTick save)
  | wakes {d : Daemon F16 F32} {wakeAt : ℕ} (hd : h.daemon = some d)
      (hphase : d.phase = .sleeping wakeAt) (hwake : wakeAt ≤ h.now) :
      HostMove h .wake { h with daemon := some { d with phase := .selecting h.now } }

variable {num enc ln2} {h h' : Host F16 F32 F64} {op : HostOp F32} {d' : Daemon F16 F32}

theorem hostMove_of_step (hstep : HostStep num enc ln2 h op h') : HostMove num enc ln2 h op h' := by
  unfold HostStep HostOp.exec at hstep
  cases op with
  | pass elapsed =>
      obtain rfl := Option.some.inj hstep
      exact .passes
  | kill =>
      obtain rfl := Option.some.inj hstep
      exact .dies
  | start config launch =>
      dsimp only at hstep
      split at hstep
      · next hd =>
        obtain rfl := Option.some.inj hstep
        exact .starts hd
      · cases hstep
  | sighup loaded features =>
      cases loaded with
      | none =>
          obtain rfl := Option.some.inj hstep
          exact .ignores
      | some config =>
          obtain ⟨d, hd, rfl⟩ := Option.map_eq_some_iff.1 hstep
          exact .sends hd rfl
  | sigusr1 =>
      obtain ⟨d, hd, rfl⟩ := Option.map_eq_some_iff.1 hstep
      exact .sends hd rfl
  | sigusr2 =>
      obtain ⟨d, hd, rfl⟩ := Option.map_eq_some_iff.1 hstep
      exact .sends hd rfl
  | ctrlC =>
      obtain ⟨d, hd, rfl⟩ := Option.map_eq_some_iff.1 hstep
      exact .cancels hd
  | beginTick input =>
      obtain ⟨d, hd, hexec⟩ := Option.bind_eq_some_iff.1 hstep
      split at hexec
      · next t hphase =>
        obtain rfl := Option.some.inj hexec
        exact .begins hd hphase
      · cases hexec
  | finishTick prefetch exist =>
      obtain ⟨d, hd, hexec⟩ := Option.bind_eq_some_iff.1 hstep
      split at hexec
      · next t tick hphase =>
        obtain rfl := Option.some.inj hexec
        exact .finishes hd hphase
      · cases hexec
  | control save =>
      obtain ⟨d, hd, hexec⟩ := Option.bind_eq_some_iff.1 hstep
      split at hexec
      · next t event rest hphase hqueue =>
        obtain rfl := Option.some.inj hexec
        exact .controls hd (Or.inl hphase) hqueue
      · next t tick event rest hphase hqueue =>
        obtain rfl := Option.some.inj hexec
        exact .controls hd (Or.inr ⟨tick, hphase⟩) hqueue
      · cases hexec
  | cancelled save =>
      -- the loop looks for a cancellation in every phase in which it waits
      obtain ⟨d, hd, hexec⟩ := Option.bind_eq_some_iff.1 hstep
      split at hexec
      · next t hphase _ =>
        obtain rfl := Option.some.inj hexec
        exact .shuts hd (by simp [hphase])
      · next t tick hphase _ =>
        obtain rfl := Option.some.inj hexec
        exact .shuts hd (by simp [hphase])
      · next t hphase _ =>
        obtain rfl := Option.some.inj hexec
        exact .shuts hd (by simp [hphase])
      · cases hexec
  | autosave save =>
      obtain ⟨d, hd, hexec⟩ := Option.bind_eq_some_iff.1 hstep
      split at hexec
      · next t didTick hphase =>
        obtain rfl := Option.some.inj hexec
        exact .autosaves hd hphase
      · cases hexec
  | wake =>
      obtain ⟨d, hd, hexec⟩ := Option.bind_eq_some_iff.1 hstep
      split at hexec
      · next wakeAt hphase =>
        split at hexec
        · next hwake =>
          obtain rfl := Option.some.inj hexec
          exact .wakes hd hphase hwake
        · cases hexec
      · cases hexec

/-- A process that starts has loaded from its repository. -/
theorem daemon_start {config : Settings F32} {launch : Launch}
    (hd' : (h.start num enc ln2 config launch).daemon = some d') :
    ∃ e, h.loadEngine num enc config
        (buildReloadBundle ln2 launch.features config launch.noPrefetch).services launch = .ok e ∧
      d' =
        { config
          services := (buildReloadBundle ln2 launch.features config launch.noPrefetch).services
          repo := launch.repo config
          noPrefetch := launch.noPrefetch
          stores := e.stores
          scanId := e.scanId
          lastSave := h.now
          cancelled := false
          control := []
          phase := .selecting h.now } := by
  unfold Host.start at hd'
  dsimp only at hd'
  split at hd'
  · cases hd'
  · next e hloaded => exact ⟨e, hloaded, (Option.some.inj hd').symm⟩

end Moves

end PreloadNg
