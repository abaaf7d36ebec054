import PreloadNg.Engine.DaemonSignals
import PreloadNg.Observation.Accesses

set_option autoImplicit false

/-! # The daemon with its scanner

A process has a scanner, and a fanotify reader if its configuration asks for one and the kernel
allows it. A tick that scans gets what this scanner reports at the model time. What comes from
outside is what `/proc` lists, which files are opened, and what the file system and the signals do. -/

namespace PreloadNg

variable {F16 F32 F64 : Type}

/-- The host, with the scanner and the pid of its process. -/
structure WatchedHost (F16 F32 F64 : Type) where
  host : Host F16 F32 F64
  scanner : WatchedScanner
  selfPid : Int32

/-- What a tick that scans gets from outside. -/
structure ScanTickInput where
  allProcesses : Except String ProcessTable
  memstat : Except String MemStat
  drainOrder : HashOrder
  cached : Path → Option RejectReason
  applyOrder : HashOrder
  predictOrder : HashOrder
  planOrder : HashOrder

namespace ScanTickInput

/-- `scan(now, self.scan_id)`. -/
def scanInput (input : ScanTickInput) (d : Daemon F16 F32) : ScanInput where
  time := d.stores.modelTime
  scanId := satAdd d.scanId 1
  allProcesses := input.allProcesses
  fanotify := none
  drainOrder := input.drainOrder
  memstat := input.memstat

def daemonInput (input : ScanTickInput) (d : Daemon F16 F32) (scanner : WatchedScanner) :
    DaemonTickInput where
  scan := scanner.observe (input.scanInput d)
  cached := input.cached
  applyOrder := input.applyOrder
  predictOrder := input.predictOrder
  planOrder := input.planOrder

end ScanTickInput

inductive WatchedHostOp (F32 : Type) where
  /-- `watches` is whether the kernel lets a fanotify reader start. -/
  | start (config : Settings F32) (launch : Launch) (selfPid : Int32) (watches : Bool)
  /-- The reader handles an event. -/
  | opened (event : OpenEvent)
  | beginTick (input : ScanTickInput)
  /-- A tick with scanning switched off. -/
  | beginBlindTick (input : DaemonTickInput)
  | other (op : HostOp F32)

section Exec

variable [Float32Ops F32] (num : Numerics F16 F32) (enc : Encoding F32 F64) (ln2 : F32)

def WatchedHostOp.exec (w : WatchedHost F16 F32 F64) :
    WatchedHostOp F32 → Option (WatchedHost F16 F32 F64)
  | .start config launch selfPid watches =>
    ((HostOp.start config launch).exec num enc ln2 w.host).map fun host =>
      { host, scanner := .new (config.system.fanotify && watches), selfPid }
  | .opened event =>
    w.host.daemon.map fun _ => { w with scanner := w.scanner.exec w.selfPid (.opened event) }
  | .beginTick input =>
    w.host.daemon.bind fun d =>
      if d.config.system.doscan then
        ((HostOp.beginTick (input.daemonInput d w.scanner)).exec num enc ln2 w.host).map fun host =>
          { w with host, scanner := w.scanner.exec w.selfPid (.scan (input.scanInput d)) }
      else none
  | .beginBlindTick input =>
    w.host.daemon.bind fun d =>
      if d.config.system.doscan then none
      else ((HostOp.beginTick input).exec num enc ln2 w.host).map fun host => { w with host }
  | .other (.start _ _) => none
  | .other (.beginTick _) => none
  | .other op => (op.exec num enc ln2 w.host).map fun host => { w with host }

def WatchedHostStep (w : WatchedHost F16 F32 F64) (op : WatchedHostOp F32)
    (w' : WatchedHost F16 F32 F64) : Prop :=
  op.exec num enc ln2 w = some w'

/-- An empty database and no process. -/
def WatchedHost.initial (F16 F32 F64 : Type) (now : ℕ) : WatchedHost F16 F32 F64 where
  host := .initial F16 F32 F64 now
  scanner := .new false
  selfPid := 0

def WatchedHost.execAll (w : WatchedHost F16 F32 F64) (ops : List (WatchedHostOp F32)) :
    Option (WatchedHost F16 F32 F64) :=
  ops.foldlM (fun w op => op.exec num enc ln2 w) w

theorem run_of_watchedExecAll {ops : List (WatchedHostOp F32)} {w w' : WatchedHost F16 F32 F64}
    (hexec : w.execAll num enc ln2 ops = some w') : Run (WatchedHostStep num enc ln2) w ops w' :=
  Run.of_foldlM hexec

end Exec

/-! ## Steps of the host -/

section Steps

variable [Float32Ops F32] (num : Numerics F16 F32) (enc : Encoding F32 F64) (ln2 : F32)

/-- Without scanning an observation is never applied. -/
def HostOp.Unscanned (h : Host F16 F32 F64) (op : HostOp F32) : Prop :=
  ∀ input, op = .beginTick input → ∀ d, h.daemon = some d → d.config.system.doscan = false

/-- What a step does to the host and to the scanner. -/
inductive WatchedChange (w : WatchedHost F16 F32 F64) :
    WatchedHostOp F32 → WatchedHost F16 F32 F64 → Prop
  | starts {config : Settings F32} {launch : Launch} {selfPid : Int32} {watches : Bool}
      {host : Host F16 F32 F64} (hstep : HostStep num enc ln2 w.host (.start config launch) host) :
      WatchedChange w (.start config launch selfPid watches)
        ⟨host, .new (config.system.fanotify && watches), selfPid⟩
  | opens {event : OpenEvent} :
      WatchedChange w (.opened event)
        { w with scanner := w.scanner.exec w.selfPid (.opened event) }
  | scans {input : ScanTickInput} {d : Daemon F16 F32} {host : Host F16 F32 F64}
      (hd : w.host.daemon = some d)
      (hstep : HostStep num enc ln2 w.host (.beginTick (input.daemonInput d w.scanner)) host) :
      WatchedChange w (.beginTick input)
        { w with
          host
          scanner := w.scanner.exec w.selfPid (.scan (input.scanInput d)) }
  | blind {input : DaemonTickInput} {host : Host F16 F32 F64}
      (hblind : HostOp.Unscanned w.host (.beginTick input))
      (hstep : HostStep num enc ln2 w.host (.beginTick input) host) :
      WatchedChange w (.beginBlindTick input) { w with host }
  | others {op : HostOp F32} {host : Host F16 F32 F64} (hnostart : ∀ c launch, op ≠ .start c launch)
      (hnotick : ∀ input, op ≠ .beginTick input) (hstep : HostStep num enc ln2 w.host op host) :
      WatchedChange w (.other op) { w with host }

variable {num enc ln2} {w w' : WatchedHost F16 F32 F64} {op : WatchedHostOp F32}

theorem watchedChange_other {hop : HostOp F32} (hnostart : ∀ c launch, hop ≠ .start c launch)
    (hnotick : ∀ input, hop ≠ .beginTick input)
    (hexec : ((hop.exec num enc ln2 w.host).map fun host => { w with host }) = some w') :
    WatchedChange num enc ln2 w (.other hop) w' := by
  obtain ⟨host, hhost, rfl⟩ := Option.map_eq_some_iff.1 hexec
  exact .others hnostart hnotick hhost

theorem watchedChange_of_step (hstep : WatchedHostStep num enc ln2 w op w') :
    WatchedChange num enc ln2 w op w' := by
  unfold WatchedHostStep at hstep
  cases op with
  | start config launch selfPid watches =>
      obtain ⟨host, hhost, rfl⟩ := Option.map_eq_some_iff.1 hstep
      exact .starts hhost
  | opened event =>
      obtain ⟨d, -, rfl⟩ := Option.map_eq_some_iff.1 hstep
      exact .opens
  | beginTick input =>
      obtain ⟨d, hd, hexec⟩ := Option.bind_eq_some_iff.1 hstep
      split at hexec
      · obtain ⟨host, hhost, rfl⟩ := Option.map_eq_some_iff.1 hexec
        exact .scans hd hhost
      · cases hexec
  | beginBlindTick input =>
      obtain ⟨d, hd, hexec⟩ := Option.bind_eq_some_iff.1 hstep
      split at hexec
      · cases hexec
      · next hoff =>
        obtain ⟨host, hhost, rfl⟩ := Option.map_eq_some_iff.1 hexec
        refine .blind (fun _ _ d' hd' => ?_) hhost
        obtain rfl := Option.some.inj (hd.symm.trans hd')
        exact Bool.eq_false_of_not_eq_true hoff
  | other hop =>
      cases hop with
      | start _ _ => cases hstep
      | beginTick _ => cases hstep
      | pass _ | kill | sighup _ _ | sigusr1 | sigusr2 | ctrlC | finishTick _ _ | control _
        | cancelled _ | autosave _ | wake =>
          exact watchedChange_other (fun _ _ heq => by cases heq) (fun _ heq => by cases heq) hstep

/-- The host of a watched host takes steps of its own. -/
theorem host_of_watchedChange (h : WatchedChange num enc ln2 w op w') :
    Reachable (HostStep num enc ln2) w.host w'.host := by
  cases h with
  | starts hstep => exact Reachable.refl.tail hstep
  | opens => exact Reachable.refl
  | scans _ hstep => exact Reachable.refl.tail hstep
  | blind _ hstep => exact Reachable.refl.tail hstep
  | others _ _ hstep => exact Reachable.refl.tail hstep

theorem host_reachable {now : ℕ}
    (hr : Reachable (WatchedHostStep num enc ln2) (WatchedHost.initial F16 F32 F64 now) w) :
    Reachable (HostStep num enc ln2) (Host.initial F16 F32 F64 now) w.host := by
  refine hr.invariant
    (I := fun w => Reachable (HostStep num enc ln2) (Host.initial F16 F32 F64 now) w.host)
    Reachable.refl ?_
  intro w op w' ih hstep
  exact ih.trans (host_of_watchedChange (watchedChange_of_step hstep))

end Steps

end PreloadNg
