import PreloadNg.Lib.HashMap
import PreloadNg.Persistence.Snapshot
import PreloadNg.Observation.Event

set_option autoImplicit false

/-! # The scanner

`ProcfsScanner` lists the processes and their maps. It remembers every process it listed under the
pid, and as long as the start time stays the same it reports the program it remembers; the link of
the executable is read only for a process it does not remember. What `/proc` and the fanotify
watcher answer during one scan is input. -/

namespace PreloadNg

/-! ## Input -/

inductive MMapPath where
  | path (path : RawPath)
  | other

structure MemoryMap where
  address : UInt64 × UInt64
  offset : UInt64
  dev : Int32 × Int32
  inode : UInt64
  pathname : MMapPath

/-- What `/proc/PID` answers: `stat` (the start time), `exe` and `maps`. -/
structure Process where
  pid : UInt32
  stat : Except String UInt64
  exe : Except String RawPath
  maps : Except String (List MemoryMap)

/-- The process entries; the readable ones have distinct pids. -/
structure ProcessTable where
  entries : List (Except String Process)
  nodup : ((entries.filterMap Except.toOption).map Process.pid).Nodup

structure FileMeta where
  size : UInt64
  device : UInt64
  inode : UInt64

/-- What the fanotify watcher has collected. -/
structure EventBuffer where
  maps : FxHashMap (Path × Path) FileMeta
  exes : FxHashMap Path UInt32

structure ScanInput where
  time : UInt64
  scanId : UInt64
  allProcesses : Except String ProcessTable
  /-- `none` without a watcher. -/
  fanotify : Option EventBuffer
  drainOrder : HashOrder
  memstat : Except String MemStat

/-! ## Reading `/proc` -/

/-- The text before the first occurrence of `sep` (`str::split(sep).next()`). -/
def beforeFirst (sep : List Char) : List Char → List Char
  | [] => []
  | c :: rest => if sep.isPrefixOf (c :: rest) then [] else c :: beforeFirst sep rest

def sanitizePath (path : RawPath) : Option Path :=
  if !path.hasRoot then none
  else
    match path.toStr with
    | none => none
    | some pathStr =>
      if "(deleted)".toList <:+: pathStr.toList then none
      else some (Path.ofString (String.ofList (beforeFirst ".#prelink#.".toList pathStr.toList)))

structure CachedMap where
  path : Path
  offset : UInt64
  length : UInt64
  device : UInt64
  inode : UInt64

structure CachedProcess where
  starttime : UInt64
  exePath : Path
  maps : List CachedMap
  lastMapScan : UInt64

/-- A file mapping as it is cached; other mappings are skipped. -/
def CachedMap.ofMemoryMap (map : MemoryMap) : Option CachedMap :=
  match map.pathname with
  | .other => none
  | .path path =>
    (sanitizePath path).map fun path =>
      { path := path
        offset := map.offset
        length := satSub map.address.2 map.address.1
        device := (map.dev.1.toInt64.toUInt64 <<< 20) ||| map.dev.2.toInt64.toUInt64
        inode := map.inode }

def emitCachedMaps (exePath : Path) (cachedMaps : List CachedMap) (time : UInt64) :
    List ObservationEvent :=
  cachedMaps.map fun cm =>
    .mapSeen exePath
      { MapSegment.new cm.path cm.offset cm.length time with
        device := cm.device
        inode := cm.inode }

/-- Events, warnings, and the maps to cache. -/
def scanMaps (process : Process) (exePath : Path) (time : UInt64) :
    List ObservationEvent × List ScanWarning × List CachedMap :=
  match process.maps with
  | .ok maps =>
    let cachedMaps := maps.filterMap CachedMap.ofMemoryMap
    (emitCachedMaps exePath cachedMaps time, [], cachedMaps)
  | .error reason => ([], [.mapScanFailed process.pid reason], [])

def EventBuffer.drain (buffer : EventBuffer) (ord : HashOrder) (time : UInt64) :
    List ObservationEvent :=
  (ord.enum buffer.exes.iter).map (fun row => .exeSeen row.1 row.2) ++
  (ord.enum buffer.maps.iter).map fun row =>
    .mapSeen row.1.1
      { MapSegment.new row.1.2 0 row.2.size time with
        device := row.2.device
        inode := row.2.inode }

/-! ## The scanner -/

/-- How often (in scan cycles) to re-scan maps of already-known processes. -/
def DEFAULT_MAP_RESCAN_INTERVAL : UInt64 := 5

structure ProcfsScanner where
  cache : FxHashMap UInt32 CachedProcess
  scanCount : UInt64
  mapRescanInterval : UInt64

/-- What the scan of one process adds. -/
structure ProcessScan where
  events : List ObservationEvent
  warnings : List ScanWarning
  cached : CachedProcess

structure ScanLoop where
  events : List ObservationEvent
  warnings : List ScanWarning
  seenPids : FxHashMap UInt32 CachedProcess

namespace ProcfsScanner

def new : ProcfsScanner where
  cache := ∅
  scanCount := 0
  mapRescanInterval := DEFAULT_MAP_RESCAN_INTERVAL

/-- The cached entry of the same process: the pid and the start time agree. -/
def sameProcess (sc : ProcfsScanner) (pid : UInt32) (starttime : UInt64) : Option CachedProcess :=
  (sc.cache.get? pid).filter fun c => c.starttime = starttime

/-- The program, its maps read anew. -/
def readMaps (sc : ProcfsScanner) (time : UInt64) (process : Process) (starttime : UInt64)
    (exePath : Path) : ProcessScan :=
  let (events, warnings, maps) := scanMaps process exePath time
  { events := .exeSeen exePath process.pid :: events
    warnings := warnings
    cached := ⟨starttime, exePath, maps, sc.scanCount⟩ }

/-- The body of the loop over the processes, for an entry that can be read. -/
def scanProcess (sc : ProcfsScanner) (time : UInt64) (process : Process) : Option ProcessScan :=
  match process.stat with
  | .error _ => none
  | .ok starttime =>
    match sc.sameProcess process.pid starttime with
    | some cached =>
      if sc.mapRescanInterval ≤ satSub sc.scanCount cached.lastMapScan then
        some (sc.readMaps time process starttime cached.exePath)
      else
        some
          { events := .exeSeen cached.exePath process.pid ::
              emitCachedMaps cached.exePath cached.maps time
            warnings := []
            cached := cached }
    | none =>
      match process.exe with
      | .error _ => none
      | .ok exe => (sanitizePath exe).map (sc.readMaps time process starttime)

def scanEntry (sc : ProcfsScanner) (time : UInt64) (loop : ScanLoop)
    (entry : Except String Process) : ScanLoop :=
  match entry with
  | .error _ => loop
  | .ok process =>
    match sc.scanProcess time process with
    | none => loop
    | some found =>
      { events := loop.events ++ found.events
        warnings := loop.warnings ++ found.warnings
        seenPids := loop.seenPids.insert process.pid found.cached }

/-- The counter of a scan under way. -/
def counted (sc : ProcfsScanner) : ProcfsScanner := { sc with scanCount := sc.scanCount + 1 }

def scan (sc : ProcfsScanner) (input : ScanInput) : ProcfsScanner × Except Error Observation :=
  let sc := sc.counted
  match input.allProcesses with
  | .error message => (sc, .error (.procfs message))
  | .ok table =>
    let loop := table.entries.foldl (sc.scanEntry input.time)
      ⟨[.obsBegin input.time input.scanId], [], ∅⟩
    let drained :=
      match input.fanotify with
      | some watcher => watcher.drain input.drainOrder input.time
      | none => []
    let mem :=
      match input.memstat with
      | .ok mem => [ObservationEvent.memStat mem]
      | .error _ => []
    ({ sc with cache := loop.seenPids },
     .ok (loop.events ++ drained ++ mem ++ [.obsEnd input.time input.scanId loop.warnings]))

/-- The scanner after the given scans. -/
def run (scans : List ScanInput) : ProcfsScanner :=
  scans.foldl (fun sc input => (sc.scan input).1) new

end ProcfsScanner

end PreloadNg
