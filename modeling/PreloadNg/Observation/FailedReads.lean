import PreloadNg.Observation.ScannedPrograms

set_option autoImplicit false

/-! # Maps that cannot be read

The maps of a known process are read again every few scans. A read that fails yields no maps, and
these are cached like those of a read that succeeds: the process appears without maps until the next
read is due. -/

namespace PreloadNg.ProcfsScanner

/-! ## One process in one scan -/

/-- Whether the next scan reads the maps of a cached process again. -/
def Due (sc : ProcfsScanner) (cached : CachedProcess) : Prop :=
  sc.counted.mapRescanInterval ≤ satSub sc.counted.scanCount cached.lastMapScan

instance (sc : ProcfsScanner) : DecidablePred sc.Due := fun cached =>
  inferInstanceAs (Decidable
    (sc.counted.mapRescanInterval ≤ satSub sc.counted.scanCount cached.lastMapScan))

/-- The scan lists the process `pid` that was started at `starttime`. -/
def Lists (input : ScanInput) (pid : UInt32) (starttime : UInt64) (process : Process) : Prop :=
  process ∈ input.listed ∧ process.pid = pid ∧ process.stat = .ok starttime

section Scan

variable {sc : ProcfsScanner} {input : ScanInput} {pid : UInt32} {starttime : UInt64}
  {process : Process} {cached : CachedProcess}

/-- After a scan the cache holds what the scan found of the process. -/
theorem sameProcess_scan (h : Lists input pid starttime process) :
    (sc.scan input).1.sameProcess pid starttime =
      (sc.counted.scanProcess input.time process).map ProcessScan.cached := by
  obtain ⟨hmem, rfl, hstat⟩ := h
  rcases sc.scan_cases input with ⟨message, herr, -⟩ | ⟨table, loop, mem, -, hloop, -, hscan⟩
  · exact absurd hmem (by simp [ScanInput.listed, herr])
  · have hentry : loop.seenPids.get? process.pid =
        (sc.counted.scanProcess input.time process).map ProcessScan.cached := by
      refine Option.ext fun cached => ?_
      rw [hloop.seenPids, Option.map_eq_some_iff]
      constructor
      · rintro ⟨process', hmem', hpid, found, hfound, hcached⟩
        obtain rfl := ScanInput.eq_of_pid hmem' hmem hpid
        exact ⟨found, hfound, hcached⟩
      · rintro ⟨found, hfound, hcached⟩
        exact ⟨process, hmem, rfl, found, hfound, hcached⟩
    rw [hscan]
    show (loop.seenPids.get? process.pid).filter _ = _
    rw [hentry]
    cases hfound : sc.counted.scanProcess input.time process with
    | none => rfl
    | some found =>
        obtain ⟨starttime', path, hstat', -, hreports⟩ := reports_of_scanProcess hfound
        obtain rfl := Except.ok.inj (hstat.symm.trans hstat')
        rw [Option.map_some, Option.filter_some, if_pos (by simpa using hreports.starttime)]

/-- A process in the cache is reported from it, unless a read is due. -/
theorem scanProcess_cached (h : Lists input pid starttime process)
    (hcached : sc.sameProcess pid starttime = some cached) :
    sc.counted.scanProcess input.time process = some
      (if sc.Due cached then sc.counted.readMaps input.time process starttime cached.exePath
      else
        { events := .exeSeen cached.exePath process.pid ::
            emitCachedMaps cached.exePath cached.maps input.time
          warnings := []
          cached := cached }) := by
  obtain ⟨-, rfl, hstat⟩ := h
  have hsame : sc.counted.sameProcess process.pid starttime = some cached := hcached
  unfold scanProcess
  rw [hstat]
  dsimp only
  rw [hsame]
  dsimp only
  split
  · next hdue => rw [if_pos (show sc.Due cached from hdue)]
  · next hdue => rw [if_neg (show ¬ sc.Due cached from hdue)]

/-- What a failed read leaves: no maps, to be read again after the interval. -/
theorem readMaps_error {message : String} (herr : process.maps = .error message) (time : UInt64)
    (exePath : Path) :
    sc.readMaps time process starttime exePath =
      ⟨[.exeSeen exePath process.pid], [.mapScanFailed process.pid message],
        ⟨starttime, exePath, [], sc.scanCount⟩⟩ := by
  simp only [readMaps, scanMaps, herr]

/-- Whether a scan keeps the maps of a process as they were cached, and reports them. -/
structure KeepsMaps (sc : ProcfsScanner) (input : ScanInput) (pid : UInt32) (starttime : UInt64)
    (path : Path) (maps : List CachedMap) : Prop where
  cached : ∃ cached, (sc.scan input).1.sameProcess pid starttime = some cached ∧
    cached.exePath = path ∧ cached.maps = maps
  events : ∀ process, Lists input pid starttime process →
    sc.processEvents input process =
      .exeSeen path pid :: emitCachedMaps path maps input.time

/-- A scan that reads no maps of a process keeps those it has, unless it tries and has some. -/
theorem keepsMaps_iff (h : Lists input pid starttime process)
    (hcached : sc.sameProcess pid starttime = some cached)
    (hfails : sc.Due cached → ∃ message, process.maps = .error message) :
    KeepsMaps sc input pid starttime cached.exePath cached.maps ↔
      (sc.Due cached → cached.maps = []) := by
  have hfound := scanProcess_cached h hcached
  have hafter : (sc.scan input).1.sameProcess pid starttime = _ := sameProcess_scan h
  rw [hfound, Option.map_some] at hafter
  constructor
  · intro hkeeps hdue
    obtain ⟨message, herr⟩ := hfails hdue
    obtain ⟨after, hsome, -, hmaps⟩ := hkeeps.cached
    rw [hafter, if_pos hdue, readMaps_error herr] at hsome
    rw [← hmaps, ← Option.some.inj hsome]
  · intro hcond
    constructor
    · refine ⟨_, hafter, ?_⟩
      by_cases hdue : sc.Due cached
      · obtain ⟨message, herr⟩ := hfails hdue
        rw [if_pos hdue, readMaps_error herr]
        exact ⟨rfl, (hcond hdue).symm⟩
      · rw [if_neg hdue]
        exact ⟨rfl, rfl⟩
    · intro process' h'
      have heq : process' = process := ScanInput.eq_of_pid h'.1 h.1 (h'.2.1.trans h.2.1.symm)
      rw [heq, processEvents, hfound, ← h.2.1]
      by_cases hdue : sc.Due cached
      · obtain ⟨message, herr⟩ := hfails hdue
        rw [if_pos hdue, readMaps_error herr, hcond hdue]
        rfl
      · rw [if_neg hdue]
        rfl

end Scan

/-! ## A run of scans -/

/-- `P` holds of every scan of a run, with the scanner it starts from. -/
def AtEveryScan (P : ProcfsScanner → ScanInput → Prop) : ProcfsScanner → List ScanInput → Prop
  | _, [] => True
  | sc, input :: rest => P sc input ∧ AtEveryScan P (sc.scan input).1 rest

/-- Whether the next scan reads the maps of this process again. -/
def DueFor (sc : ProcfsScanner) (pid : UInt32) (starttime : UInt64) : Prop :=
  ∃ cached, sc.sameProcess pid starttime = some cached ∧ sc.Due cached

theorem dueFor_iff {sc : ProcfsScanner} {pid : UInt32} {starttime : UInt64}
    {cached : CachedProcess} (h : sc.sameProcess pid starttime = some cached) :
    sc.DueFor pid starttime ↔ sc.Due cached := by
  unfold DueFor
  rw [h]
  simp

/-- The process is still there, and if its maps are read, they cannot be. -/
def LivesUnread (pid : UInt32) (starttime : UInt64) (sc : ProcfsScanner) (input : ScanInput) :
    Prop :=
  ∃ process, Lists input pid starttime process ∧
    (sc.DueFor pid starttime → ∃ message, process.maps = .error message)

/-- As long as a process lives and no read of its maps succeeds, the maps it was last cached with stay
    cached and are reported by every scan exactly when no scan tries to read them, unless there are
    none to lose. -/
theorem failed_reads_keep_maps_iff {sc : ProcfsScanner} {pid : UInt32} {starttime : UInt64}
    {cached : CachedProcess} (hcached : sc.sameProcess pid starttime = some cached)
    {scans : List ScanInput} (hlives : AtEveryScan (LivesUnread pid starttime) sc scans) :
    AtEveryScan (fun sc input => KeepsMaps sc input pid starttime cached.exePath cached.maps)
        sc scans ↔
      AtEveryScan (fun sc _ => sc.DueFor pid starttime → cached.maps = []) sc scans := by
  induction scans generalizing sc cached with
  | nil => exact Iff.rfl
  | cons input rest ih =>
      obtain ⟨⟨process, hlist, hfails⟩, hlives⟩ := hlives
      have hstep : KeepsMaps sc input pid starttime cached.exePath cached.maps ↔
          (sc.DueFor pid starttime → cached.maps = []) := by
        rw [dueFor_iff hcached] at hfails ⊢
        exact keepsMaps_iff hlist hcached hfails
      unfold AtEveryScan
      rw [hstep]
      refine and_congr_right fun hkept => ?_
      -- what the first scan keeps is what the others start from
      obtain ⟨cached', hcached', hpath, hmaps⟩ := (hstep.2 hkept).cached
      have hrest := ih hcached' hlives
      rw [hpath, hmaps] at hrest
      exact hrest

/-! ## A read that fails once -/

deriving instance DecidableEq for CachedMap, CachedProcess

/-- A tool with one library, whose maps are read with the given answer. -/
def toolScan (time : UInt64) (maps : Except String (List MemoryMap)) : ScanInput :=
  let process : Process := ⟨7, .ok 100, .ok (RawPath.ofString "/usr/bin/tool"), maps⟩
  ⟨time, time, .ok ⟨[.ok process], List.nodup_singleton _⟩, none, HashOrder.insertion, .error ""⟩

/-- The library as it is mapped, and as it is cached. -/
def toolMaps : List MemoryMap :=
  [⟨(0x1000, 0x5000), 0, (0, 0), 1, .path (RawPath.ofString "/lib/libtool.so")⟩]

def toolCached : CachedProcess :=
  ⟨100, Path.ofString "/usr/bin/tool", [⟨Path.ofString "/lib/libtool.so", 0, 0x4000, 0, 1⟩], 1⟩

/-- The scanner when the maps of the tool are to be read for the second time. -/
def toolScanner : ProcfsScanner :=
  run [toolScan 1 (.ok toolMaps), toolScan 2 (.ok toolMaps), toolScan 3 (.ok toolMaps),
    toolScan 4 (.ok toolMaps), toolScan 5 (.ok toolMaps)]

theorem sameProcess_toolScanner : toolScanner.sameProcess 7 100 = some toolCached := by
  decide +kernel

/-- One failed read, and the tool is reported without its library, also by the next scan, which could
    have read it. -/
theorem failed_read_loses_maps :
    ¬ KeepsMaps toolScanner (toolScan 6 (.error "busy")) 7 100 toolCached.exePath
        toolCached.maps ∧
      ((toolScanner.scan (toolScan 6 (.error "busy"))).1.scan
          (toolScan 7 (.ok toolMaps))).2.toOption =
        some [.obsBegin 7 7, .exeSeen (Path.ofString "/usr/bin/tool") 7, .obsEnd 7 7 []] := by
  constructor
  · intro h
    obtain ⟨cached, hcached, -, hmaps⟩ := h.cached
    have hlost : (toolScanner.scan (toolScan 6 (.error "busy"))).1.sameProcess 7 100 =
        some { toolCached with maps := [], lastMapScan := 6 } := by decide +kernel
    obtain rfl := Option.some.inj (hlost.symm.trans hcached)
    exact absurd hmaps (by decide +kernel)
  · decide +kernel

theorem failed_reads_keep_maps_tool :
    AtEveryScan (LivesUnread 7 100) toolScanner [toolScan 6 (.error "busy")] ∧
      ¬ AtEveryScan (fun sc input =>
          KeepsMaps sc input 7 100 toolCached.exePath toolCached.maps)
        toolScanner [toolScan 6 (.error "busy")] := by
  have hlives : AtEveryScan (LivesUnread 7 100) toolScanner [toolScan 6 (.error "busy")] :=
    ⟨⟨_, ⟨List.mem_singleton_self _, rfl, rfl⟩, fun _ => ⟨"busy", rfl⟩⟩, trivial⟩
  refine ⟨hlives, fun hkeeps => ?_⟩
  have hcond := (failed_reads_keep_maps_iff sameProcess_toolScanner hlives).1 hkeeps
  have hdue : toolScanner.DueFor 7 100 :=
    (dueFor_iff sameProcess_toolScanner).2 (by decide +kernel)
  exact absurd (hcond.1 hdue) (by decide +kernel)

end PreloadNg.ProcfsScanner
