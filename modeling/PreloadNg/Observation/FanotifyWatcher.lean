import PreloadNg.Observation.ScannedPrograms

set_option autoImplicit false

/-! # The fanotify watcher

A reader thread turns file-open events into entries of a buffer, one event under one lock; a scan
takes the whole buffer. The interleavings of the two are the sequences of such steps. -/

namespace PreloadNg

def SKIP_PREFIXES : List String :=
  ["/proc/", "/sys/", "/dev/", "/tmp/", "/run/", "/var/run/", "/var/lock/"]

/-! ## The reader -/

structure Metadata where
  isFile : Bool
  len : UInt64
  stDev : UInt64
  stIno : UInt64

/-- What the reader finds when it handles one event: the link of the file descriptor (no descriptor
    when the queue overflowed), the opening process, the metadata of the file and the link of the
    process's executable. -/
structure OpenEvent where
  fd : Option (Except String RawPath)
  pid : Int32
  metadata : Except String Metadata
  exe : Except String RawPath

/-- The executable, the file and its metadata, when the event passes the checks of `reader_loop`. -/
def OpenEvent.accepted (selfPid : Int32) (event : OpenEvent) : Option (Path × Path × FileMeta) := do
  let link ← event.fd
  if event.pid = selfPid ∨ event.pid ≤ 0 then none
  let filePath ← link.toOption
  let pathStr ← filePath.toStr
  if SKIP_PREFIXES.any fun skipped => skipped.toList.isPrefixOf pathStr.toList then none
  let file ← event.metadata.toOption
  if !file.isFile ∨ file.len = 0 then none
  let exePath ← event.exe.toOption
  some (.ofRaw exePath, .ofRaw filePath, ⟨file.len, file.stDev, file.stIno⟩)

namespace EventBuffer

/-- `EventBuffer::default()`. -/
instance : EmptyCollection EventBuffer := ⟨⟨∅, ∅⟩⟩

@[simp] theorem exes_empty : (∅ : EventBuffer).exes = ∅ := rfl

@[simp] theorem maps_empty : (∅ : EventBuffer).maps = ∅ := rfl

/-- Both insertions of `reader_loop`, each by `entry(..).or_insert(..)`. -/
def insert (buffer : EventBuffer) (exePath filePath : Path) (pid : UInt32) (file : FileMeta) :
    EventBuffer where
  exes := buffer.exes.modifyEntry exePath pid id
  maps := buffer.maps.modifyEntry (exePath, filePath) file id

/-- One round of the loop over the events. -/
def read (selfPid : Int32) (buffer : EventBuffer) (event : OpenEvent) : EventBuffer :=
  match event.accepted selfPid with
  | none => buffer
  | some (exePath, filePath, file) => buffer.insert exePath filePath event.pid.toUInt32 file

/-- The buffer holds the paths of the accepted events. -/
structure Holds (selfPid : Int32) (events : List OpenEvent) (buffer : EventBuffer) : Prop where
  exes : ∀ p, (buffer.exes.get? p).isSome ↔
    ∃ event ∈ events, ∃ f file, event.accepted selfPid = some (p, f, file)
  maps : ∀ p f, (buffer.maps.get? (p, f)).isSome ↔
    ∃ event ∈ events, ∃ file, event.accepted selfPid = some (p, f, file)

theorem holds_empty (selfPid : Int32) : Holds selfPid [] ∅ where
  exes p := iff_of_false (by rw [exes_empty, FxHashMap.get?_empty]; simp) (by simp)
  maps p f := iff_of_false (by rw [maps_empty, FxHashMap.get?_empty]; simp) (by simp)

theorem holds_read {selfPid : Int32} {events : List OpenEvent} {buffer : EventBuffer}
    (h : Holds selfPid events buffer) (event : OpenEvent) :
    Holds selfPid (events ++ [event]) (buffer.read selfPid event) := by
  unfold read
  cases haccepted : event.accepted selfPid with
  | none =>
      refine ⟨fun p => (h.exes p).trans ?_, fun p f => (h.maps p f).trans ?_⟩
      · simp [or_and_right, exists_or, haccepted]
      · simp [or_and_right, exists_or, haccepted]
  | some found =>
      obtain ⟨exePath, filePath, file⟩ := found
      refine ⟨fun p => ?_, fun p f => ?_⟩
      · have hget : ((buffer.insert exePath filePath event.pid.toUInt32 file).exes.get? p).isSome ↔
            p = exePath ∨ (buffer.exes.get? p).isSome := by
          rw [insert, FxHashMap.get?_modifyEntry]
          by_cases hp : p = exePath <;> simp [hp]
        rw [hget, h.exes]
        simp [or_and_right, exists_or, haccepted, or_comm, eq_comm]
      · have hget : ((buffer.insert exePath filePath event.pid.toUInt32 file).maps.get?
            (p, f)).isSome ↔ (p, f) = (exePath, filePath) ∨ (buffer.maps.get? (p, f)).isSome := by
          rw [insert, FxHashMap.get?_modifyEntry]
          by_cases hp : (p, f) = (exePath, filePath) <;> simp [hp]
        rw [hget, h.maps]
        simp [or_and_right, exists_or, haccepted, or_comm, eq_comm]

end EventBuffer

/-! ## The scanner with its watcher -/

/-- The scanner and the buffer it shares with the reader; there is no buffer without a watcher. -/
structure WatchedScanner where
  scanner : ProcfsScanner
  buffer : Option EventBuffer

/-- The reader handles an event, or a scan runs. The buffer of a scan is the shared one. -/
inductive WatchedOp where
  | opened (event : OpenEvent)
  | scan (input : ScanInput)

namespace WatchedScanner

def new (watching : Bool) : WatchedScanner where
  scanner := .new
  buffer := if watching then some ∅ else none

/-- What a scan reads, the content of the shared buffer included. -/
def input (w : WatchedScanner) (input : ScanInput) : ScanInput := { input with fanotify := w.buffer }

/-- A scan that lists the processes drains the buffer. -/
def exec (selfPid : Int32) (w : WatchedScanner) : WatchedOp → WatchedScanner
  | .opened event => { w with buffer := w.buffer.map fun buffer => buffer.read selfPid event }
  | .scan input =>
    { scanner := (w.scanner.scan (w.input input)).1
      buffer :=
        match input.allProcesses with
        | .error _ => w.buffer
        | .ok _ => w.buffer.map fun _ => ∅ }

def run (selfPid : Int32) (watching : Bool) (ops : List WatchedOp) : WatchedScanner :=
  ops.foldl (exec selfPid) (new watching)

theorem run_concat (selfPid : Int32) (watching : Bool) (past : List WatchedOp) (op : WatchedOp) :
    run selfPid watching (past ++ [op]) = exec selfPid (run selfPid watching past) op :=
  List.foldl_concat ..

/-- The observation of a scan. -/
def observe (w : WatchedScanner) (input : ScanInput) : Except Error Observation :=
  (w.scanner.scan (w.input input)).2

end WatchedScanner

/-- The events that were handled since the buffer was last drained. -/
def WatchedOp.collect (events : List OpenEvent) : WatchedOp → List OpenEvent
  | .opened event => events ++ [event]
  | .scan input =>
    match input.allProcesses with
    | .error _ => events
    | .ok _ => []

def pendingEvents (ops : List WatchedOp) : List OpenEvent := ops.foldl WatchedOp.collect []

theorem pendingEvents_concat (past : List WatchedOp) (op : WatchedOp) :
    pendingEvents (past ++ [op]) = op.collect (pendingEvents past) :=
  List.foldl_concat ..

/-- In every run the buffer holds the paths of the events since the last drain. -/
theorem holds_run (selfPid : Int32) (watching : Bool) (ops : List WatchedOp) (buffer : EventBuffer)
    (h : (WatchedScanner.run selfPid watching ops).buffer = some buffer) :
    buffer.Holds selfPid (pendingEvents ops) := by
  induction ops using List.reverseRecOn generalizing buffer with
  | nil =>
      cases watching with
      | false => exact absurd h (by simp [WatchedScanner.run, WatchedScanner.new])
      | true =>
          obtain rfl := Option.some.inj h
          exact EventBuffer.holds_empty selfPid
  | append_singleton past op ih =>
      rw [WatchedScanner.run_concat] at h
      rw [pendingEvents_concat]
      cases op with
      | opened event =>
          obtain ⟨buffer', hbuffer', rfl⟩ := Option.map_eq_some_iff.1 h
          exact EventBuffer.holds_read (ih buffer' hbuffer') event
      | scan input =>
          unfold WatchedOp.collect
          unfold WatchedScanner.exec at h
          cases hlist : input.allProcesses with
          | error message =>
              simp only [hlist] at h ⊢
              exact ih buffer h
          | ok table =>
              simp only [hlist] at h ⊢
              obtain ⟨_, -, rfl⟩ := Option.map_eq_some_iff.1 h
              exact EventBuffer.holds_empty selfPid

end PreloadNg
