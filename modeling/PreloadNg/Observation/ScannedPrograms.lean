import PreloadNg.Observation.ProcfsScanner

set_option autoImplicit false

/-! # Which program a scan reports

The cache of the scanner is a function of the process tables seen so far: under a pid and a start
time it holds the link the process was first listed with (`firstLink`). A process that runs another
program under the same pid and start time is therefore reported under the old one, and the exact
condition for a correct report is that the link is still the first one. -/

namespace PreloadNg

/-- The program that the link of the executable names, when it can be read and used. -/
def Process.exeLink (process : Process) : Option Path := process.exe.toOption.bind sanitizePath

/-- The processes that a scan lists. -/
def ScanInput.listed (input : ScanInput) : List Process :=
  match input.allProcesses with
  | .error _ => []
  | .ok table => table.entries.filterMap Except.toOption

theorem ScanInput.listed_nodup (input : ScanInput) : (input.listed.map Process.pid).Nodup := by
  unfold listed
  split
  · exact List.nodup_nil
  · next table _ => exact table.nodup

/-- A pid stands for one process of a scan. -/
theorem ScanInput.eq_of_pid {input : ScanInput} {p q : Process} (hp : p ∈ input.listed)
    (hq : q ∈ input.listed) (h : p.pid = q.pid) : p = q :=
  List.inj_on_of_nodup_map input.listed_nodup hp hq h

/-! ## The history of links -/

/-- One scan of the history. A scan that fails changes nothing; a process that is not listed with
    the start time loses its link. -/
def linkStep (pid : UInt32) (starttime : UInt64) (held : Option Path) (input : ScanInput) :
    Option Path :=
  match input.allProcesses with
  | .error _ => held
  | .ok _ =>
    match input.listed.find? fun process => process.pid = pid with
    | none => none
    | some process =>
      match process.stat with
      | .error _ => none
      | .ok t => if t = starttime then held.or process.exeLink else none

/-- The link with which the process was first listed, since when every scan has listed it. -/
def firstLink (pid : UInt32) (starttime : UInt64) (past : List ScanInput) : Option Path :=
  past.foldl (linkStep pid starttime) none

namespace ProcfsScanner

/-- The program that the cache holds for a process. -/
def heldLink (sc : ProcfsScanner) (pid : UInt32) (starttime : UInt64) : Option Path :=
  (sc.sameProcess pid starttime).map CachedProcess.exePath

/-- The program that a scan reports for a process with the given start time. -/
def program (sc : ProcfsScanner) (process : Process) (starttime : UInt64) : Option Path :=
  (sc.heldLink process.pid starttime).or process.exeLink

theorem heldLink_eq_some {sc : ProcfsScanner} {pid : UInt32} {starttime : UInt64} {path : Path} :
    sc.heldLink pid starttime = some path ↔
      ∃ cached, sc.cache.get? pid = some cached ∧ cached.starttime = starttime ∧
        cached.exePath = path := by
  simp [heldLink, sameProcess, Option.filter_eq_some_iff, and_assoc]

@[simp] theorem program_counted (sc : ProcfsScanner) (process : Process) (starttime : UInt64) :
    sc.counted.program process starttime = sc.program process starttime := rfl

/-! ## One process -/

/-- What the scan of a process adds names `path` and nothing else. -/
structure Reports (process : Process) (starttime : UInt64) (path : Path) (found : ProcessScan) :
    Prop where
  starttime : found.cached.starttime = starttime
  exePath : found.cached.exePath = path
  exeSeen : ∀ p pid, .exeSeen p pid ∈ found.events ↔ p = path ∧ pid = process.pid
  mapSeen : ∀ p m, .mapSeen p m ∈ found.events → p = path

theorem exeSeen_not_mem_emit (exePath : Path) (maps : List CachedMap) (time : UInt64) (p : Path)
    (pid : UInt32) : .exeSeen p pid ∉ emitCachedMaps exePath maps time := by
  simp [emitCachedMaps]

theorem path_of_mem_emit {exePath p : Path} {maps : List CachedMap} {time : UInt64}
    {m : MapSegment} (h : .mapSeen p m ∈ emitCachedMaps exePath maps time) : p = exePath := by
  simp only [emitCachedMaps, List.mem_map, ObservationEvent.mapSeen.injEq] at h
  obtain ⟨cm, -, rfl, -⟩ := h
  rfl

/-- Reading the maps only adds events of cached maps. -/
theorem scanMaps_events (process : Process) (exePath : Path) (time : UInt64) :
    ∃ maps, (scanMaps process exePath time).1 = emitCachedMaps exePath maps time := by
  unfold scanMaps
  split
  · exact ⟨_, rfl⟩
  · exact ⟨[], rfl⟩

theorem reports_emit {process : Process} {starttime : UInt64} {path : Path} {maps : List CachedMap}
    {time : UInt64} {warnings : List ScanWarning} {cached : CachedProcess}
    (hstart : cached.starttime = starttime) (hpath : cached.exePath = path) :
    Reports process starttime path
      ⟨.exeSeen path process.pid :: emitCachedMaps path maps time, warnings, cached⟩ where
  starttime := hstart
  exePath := hpath
  exeSeen p pid := by
    rw [List.mem_cons, ObservationEvent.exeSeen.injEq]
    exact or_iff_left (exeSeen_not_mem_emit path maps time p pid)
  mapSeen p m h := by
    rcases List.mem_cons.1 h with h | h
    · exact absurd h (by simp)
    · exact path_of_mem_emit h

theorem reports_readMaps (sc : ProcfsScanner) (time : UInt64) (process : Process)
    (starttime : UInt64) (path : Path) :
    Reports process starttime path (sc.readMaps time process starttime path) := by
  obtain ⟨maps, hmaps⟩ := scanMaps_events process path time
  unfold readMaps
  dsimp only
  rw [hmaps]
  exact reports_emit rfl rfl

/-- A process is skipped, or reported under its program. -/
theorem scanProcess_spec (sc : ProcfsScanner) (time : UInt64) (process : Process) :
    match sc.scanProcess time process with
    | none => ∀ starttime, process.stat = .ok starttime → sc.program process starttime = none
    | some found => ∃ starttime path, process.stat = .ok starttime ∧
        sc.program process starttime = some path ∧ Reports process starttime path found := by
  unfold scanProcess program heldLink
  cases hstat : process.stat with
  | error message => simp
  | ok starttime =>
      dsimp only
      cases hsame : sc.sameProcess process.pid starttime with
      | some cached =>
          -- the process of the last scan: its program is not read again
          have hstart : cached.starttime = starttime := by
            simpa using (Option.filter_eq_some_iff.1 hsame).2
          dsimp only
          split
          · next hdue =>
              split at hdue
              all_goals cases hdue
          · next found hfound =>
              refine ⟨starttime, cached.exePath, rfl, by rw [hsame]; rfl, ?_⟩
              split at hfound
              · obtain rfl := Option.some.inj hfound
                exact sc.reports_readMaps time process starttime cached.exePath
              · obtain rfl := Option.some.inj hfound
                exact reports_emit hstart rfl
      | none =>
          dsimp only
          -- a pid that is new, or was reused
          have hlink : ((none : Option CachedProcess).map CachedProcess.exePath).or
              process.exeLink = process.exeLink := rfl
          cases hexe : process.exe with
          | error message =>
              intro starttime' heq
              obtain rfl := Except.ok.inj heq
              rw [hsame, hlink, Process.exeLink, hexe]
              rfl
          | ok exe =>
              have hexeLink : process.exeLink = sanitizePath exe := by
                rw [Process.exeLink, hexe]
                rfl
              dsimp only
              cases hpath : sanitizePath exe with
              | none =>
                  intro starttime' heq
                  obtain rfl := Except.ok.inj heq
                  rw [hsame, hlink, hexeLink, hpath]
              | some path =>
                  refine ⟨starttime, path, rfl, ?_,
                    sc.reports_readMaps time process starttime path⟩
                  rw [hsame, hlink, hexeLink, hpath]

theorem reports_of_scanProcess {sc : ProcfsScanner} {time : UInt64} {process : Process}
    {found : ProcessScan} (h : sc.scanProcess time process = some found) :
    ∃ starttime path, process.stat = .ok starttime ∧
      sc.program process starttime = some path ∧ Reports process starttime path found := by
  have hspec := sc.scanProcess_spec time process
  rw [h] at hspec
  exact hspec

theorem scanProcess_of_program (sc : ProcfsScanner) (time : UInt64) {process : Process}
    {starttime : UInt64} {path : Path} (hstat : process.stat = .ok starttime)
    (hprogram : sc.program process starttime = some path) :
    ∃ found, sc.scanProcess time process = some found ∧
      Reports process starttime path found := by
  have hspec := sc.scanProcess_spec time process
  cases hfound : sc.scanProcess time process with
  | none =>
      rw [hfound] at hspec
      exact absurd ((hspec starttime hstat).symm.trans hprogram) (by simp)
  | some found =>
      rw [hfound] at hspec
      obtain ⟨starttime', path', hstat', hprogram', hreports⟩ := hspec
      obtain rfl := Except.ok.inj (hstat.symm.trans hstat')
      obtain rfl := Option.some.inj (hprogram.symm.trans hprogram')
      exact ⟨found, rfl, hreports⟩

/-! ## One scan -/

/-- The events of a scan that come from `/proc/PID` of a process. -/
def processEvents (sc : ProcfsScanner) (input : ScanInput) (process : Process) :
    List ObservationEvent :=
  ((sc.counted.scanProcess input.time process).map ProcessScan.events).getD []

/-- What is known of the loop after some processes. -/
structure LoopSpec (sc : ProcfsScanner) (time : UInt64) (start : List ObservationEvent)
    (processes : List Process) (loop : ScanLoop) : Prop where
  events : loop.events = start ++ processes.flatMap fun process =>
    ((sc.scanProcess time process).map ProcessScan.events).getD []
  seenPids : ∀ pid cached, loop.seenPids.get? pid = some cached ↔
    ∃ process ∈ processes, process.pid = pid ∧
      ∃ found, sc.scanProcess time process = some found ∧ found.cached = cached

section Loop

variable {sc : ProcfsScanner} {time : UInt64} {start : List ObservationEvent}

theorem loopSpec_start (sc : ProcfsScanner) (time : UInt64) (start : List ObservationEvent) :
    LoopSpec sc time start [] ⟨start, [], ∅⟩ where
  events := by simp
  seenPids pid cached := by simp

/-- One process more. -/
theorem loopSpec_entry {processes : List Process} {loop : ScanLoop} {process : Process}
    (h : LoopSpec sc time start processes loop)
    (hnew : process.pid ∉ processes.map Process.pid) :
    LoopSpec sc time start (processes ++ [process]) (sc.scanEntry time loop (.ok process)) := by
  unfold scanEntry
  dsimp only
  cases hfound : sc.scanProcess time process with
  | none =>
      -- a process that is not read leaves no events and no entry
      refine ⟨?_, ?_⟩
      · rw [List.flatMap_append, h.events]
        simp [hfound]
      · intro pid cached
        rw [h.seenPids]
        simp [or_and_right, exists_or, hfound]
  | some found =>
      refine ⟨?_, ?_⟩
      · rw [List.flatMap_append, ← List.append_assoc, ← h.events]
        simp [hfound]
      · intro pid cached
        show (loop.seenPids.insert process.pid found.cached).get? pid = some cached ↔ _
        rw [FxHashMap.get?_insert]
        by_cases hpid : pid = process.pid
        · subst hpid
          rw [if_pos rfl]
          constructor
          · intro heq
            exact ⟨process, by simp, rfl, found, hfound, Option.some.inj heq⟩
          · -- the processes before have other pids
            rintro ⟨process', hmem, hpid', found', hfound', rfl⟩
            rcases List.mem_append.1 hmem with hmem | hmem
            · exact absurd (List.mem_map.2 ⟨process', hmem, hpid'⟩) hnew
            · obtain rfl := List.mem_singleton.1 hmem
              rw [Option.some.inj (hfound.symm.trans hfound')]
        · rw [if_neg hpid, h.seenPids]
          constructor
          · rintro ⟨process', hmem, hrest⟩
            exact ⟨process', List.mem_append_left _ hmem, hrest⟩
          · rintro ⟨process', hmem, hpid', hrest⟩
            rcases List.mem_append.1 hmem with hmem | hmem
            · exact ⟨process', hmem, hpid', hrest⟩
            · obtain rfl := List.mem_singleton.1 hmem
              exact absurd hpid'.symm hpid

/-- The whole loop. -/
theorem loopSpec_entries {entries : List (Except String Process)} {processes : List Process}
    {loop : ScanLoop} (h : LoopSpec sc time start processes loop)
    (hnodup : ((processes ++ entries.filterMap Except.toOption).map Process.pid).Nodup) :
    LoopSpec sc time start (processes ++ entries.filterMap Except.toOption)
      (entries.foldl (sc.scanEntry time) loop) := by
  induction entries generalizing processes loop with
  | nil => simpa using h
  | cons entry rest ih =>
      cases entry with
      | error message => exact ih h hnodup
      | ok process =>
          have hcons : processes ++ (Except.ok process :: rest).filterMap Except.toOption =
              (processes ++ [process]) ++ rest.filterMap Except.toOption := by
            simp [Except.toOption]
          rw [hcons] at hnodup ⊢
          refine ih (loopSpec_entry h ?_) hnodup
          rw [List.map_append, List.map_append, List.append_assoc] at hnodup
          intro hmem
          exact (List.nodup_append.1 hnodup).2.2 _ hmem _ (by simp) rfl

end Loop

/-- The drained events of a scan. -/
def drained (input : ScanInput) : List ObservationEvent :=
  match input.fanotify with
  | some watcher => watcher.drain input.drainOrder input.time
  | none => []

theorem exeSeen_mem_drained {input : ScanInput} {path : Path} {pid : UInt32} :
    .exeSeen path pid ∈ drained input ↔
      ∃ watcher, input.fanotify = some watcher ∧ watcher.exes.get? path = some pid := by
  unfold drained
  cases input.fanotify with
  | none => simp
  | some watcher => simp [EventBuffer.drain, FxHashMap.mem_iter]

/-- A scan fails with the cache kept, or lists every process in turn. -/
theorem scan_cases (sc : ProcfsScanner) (input : ScanInput) :
    (∃ message, input.allProcesses = .error message ∧
      sc.scan input = (sc.counted, .error (.procfs message))) ∨
    ∃ table loop mem, input.allProcesses = .ok table ∧
      LoopSpec sc.counted input.time [.obsBegin input.time input.scanId] input.listed loop ∧
      (∀ event ∈ (mem : List ObservationEvent), ∃ stat, event = .memStat stat) ∧
      sc.scan input = ({ sc.counted with cache := loop.seenPids },
        .ok (loop.events ++ drained input ++ mem ++
          [.obsEnd input.time input.scanId loop.warnings])) := by
  unfold scan
  cases htable : input.allProcesses with
  | error message => exact Or.inl ⟨message, rfl, rfl⟩
  | ok table =>
      have hlisted : input.listed = table.entries.filterMap Except.toOption := by
        rw [ScanInput.listed, htable]
      have hloop := loopSpec_entries
        (loopSpec_start sc.counted input.time [.obsBegin input.time input.scanId]) table.nodup
      refine Or.inr ⟨table, _, _, rfl, by rw [hlisted]; exact hloop, ?_, rfl⟩
      intro event hevent
      cases hstat : input.memstat with
      | error message => simp [hstat] at hevent
      | ok stat => exact ⟨stat, by simpa [hstat] using hevent⟩

/-- The events of a scan: those of the processes, then those of the watcher, within the frame. -/
theorem scan_events {sc : ProcfsScanner} {input : ScanInput} {obs : Observation}
    (h : (sc.scan input).2 = .ok obs) :
    ∃ mem warnings, obs = .obsBegin input.time input.scanId ::
        (input.listed.flatMap (sc.processEvents input) ++ drained input ++ mem) ++
          [.obsEnd input.time input.scanId warnings] ∧
      ∀ event ∈ (mem : List ObservationEvent), ∃ stat, event = .memStat stat := by
  rcases sc.scan_cases input with ⟨message, -, hscan⟩ | ⟨table, loop, mem, -, hloop, hmem, hscan⟩
  · rw [hscan] at h
    exact absurd h (by simp)
  · rw [hscan] at h
    obtain rfl := Except.ok.inj h
    refine ⟨mem, loop.warnings, ?_, hmem⟩
    rw [hloop.events]
    rfl

/-- The executables that a scan names: the programs of the processes, and what was drained. -/
theorem exeSeen_mem_scan {sc : ProcfsScanner} {input : ScanInput} {obs : Observation}
    (h : (sc.scan input).2 = .ok obs) (path : Path) (pid : UInt32) :
    .exeSeen path pid ∈ obs ↔
      (∃ process ∈ input.listed, process.pid = pid ∧
        ∃ starttime, process.stat = .ok starttime ∧ sc.program process starttime = some path) ∨
      ∃ watcher, input.fanotify = some watcher ∧ watcher.exes.get? path = some pid := by
  obtain ⟨mem, warnings, rfl, hmem⟩ := scan_events h
  -- the memory statistics name no program
  have hnot : .exeSeen path pid ∉ mem := by
    intro hexe
    obtain ⟨stat, hstat⟩ := hmem _ hexe
    exact absurd hstat (by simp)
  have hlisted : .exeSeen path pid ∈ input.listed.flatMap (sc.processEvents input) ↔
      ∃ process ∈ input.listed, process.pid = pid ∧
        ∃ starttime, process.stat = .ok starttime ∧
          sc.program process starttime = some path := by
    rw [List.mem_flatMap]
    refine exists_congr fun process => and_congr_right fun _ => ?_
    unfold processEvents
    constructor
    · intro hmem
      cases hfound : sc.counted.scanProcess input.time process with
      | none =>
          rw [hfound] at hmem
          exact absurd hmem List.not_mem_nil
      | some found =>
          rw [hfound] at hmem
          obtain ⟨starttime, path', hstat, hprogram, hreports⟩ := reports_of_scanProcess hfound
          obtain ⟨rfl, rfl⟩ := (hreports.exeSeen path pid).1 hmem
          exact ⟨rfl, starttime, hstat, hprogram⟩
    · rintro ⟨rfl, starttime, hstat, hprogram⟩
      obtain ⟨found, hfound, hreports⟩ :=
        scanProcess_of_program sc.counted input.time hstat hprogram
      rw [hfound]
      exact (hreports.exeSeen path process.pid).2 ⟨rfl, rfl⟩
  rw [List.mem_append, List.mem_cons, List.mem_append, List.mem_append, hlisted,
    exeSeen_mem_drained]
  simp [hnot]

/-! ## The cache -/

/-- A scan does to the cached links what `linkStep` says. -/
theorem heldLink_scan (sc : ProcfsScanner) (input : ScanInput) (pid : UInt32)
    (starttime : UInt64) :
    (sc.scan input).1.heldLink pid starttime =
      linkStep pid starttime (sc.heldLink pid starttime) input := by
  rcases sc.scan_cases input with ⟨message, herr, hscan⟩ | ⟨table, loop, mem, hok, hloop, -, hscan⟩
  · rw [hscan, linkStep, herr]
    rfl
  · rw [hscan, linkStep, hok]
    dsimp only
    refine Option.ext fun path => ?_
    rw [heldLink_eq_some]
    dsimp only
    cases hfind : input.listed.find? fun process => process.pid = pid with
    | none =>
        rw [List.find?_eq_none] at hfind
        refine iff_of_false ?_ (by simp)
        rintro ⟨cached, hcached, -⟩
        obtain ⟨process, hmem, hpid, -⟩ := (hloop.seenPids pid cached).1 hcached
        exact hfind process hmem (by simpa using hpid)
    | some process =>
        have hmem := List.mem_of_find?_eq_some hfind
        have hpid : process.pid = pid := by simpa using List.find?_some hfind
        -- the entry of the pid is that of this process
        have hentry : (∃ cached, loop.seenPids.get? pid = some cached ∧
              cached.starttime = starttime ∧ cached.exePath = path) ↔
            process.stat = .ok starttime ∧ sc.program process starttime = some path := by
          constructor
          · rintro ⟨cached, hcached, rfl, rfl⟩
            obtain ⟨process', hmem', hpid', found, hfound, rfl⟩ :=
              (hloop.seenPids pid cached).1 hcached
            obtain rfl := ScanInput.eq_of_pid hmem' hmem (hpid'.trans hpid.symm)
            obtain ⟨starttime', path', hstat, hprogram, hreports⟩ := reports_of_scanProcess hfound
            rw [hreports.starttime, hreports.exePath]
            exact ⟨hstat, hprogram⟩
          · rintro ⟨hstat, hprogram⟩
            obtain ⟨found, hfound, hreports⟩ :=
              scanProcess_of_program sc.counted input.time hstat hprogram
            exact ⟨found.cached, (hloop.seenPids pid _).2 ⟨process, hmem, hpid, found, hfound, rfl⟩,
              hreports.starttime, hreports.exePath⟩
        rw [hentry]
        cases hstat : process.stat with
        | error message => simp [hstat]
        | ok t =>
            simp only [hstat, Except.ok.injEq]
            split
            · next ht => rw [program, hpid, and_iff_right ht]
            · next ht => simp [ht]

/-- In every run, the cache holds the first links. -/
theorem heldLink_run (scans : List ScanInput) (pid : UInt32) (starttime : UInt64) :
    (run scans).heldLink pid starttime = firstLink pid starttime scans := by
  induction scans using List.reverseRecOn with
  | nil => rfl
  | append_singleton past input ih =>
      unfold run firstLink at ih ⊢
      rw [List.foldl_append, List.foldl_append, ← ih]
      exact heldLink_scan _ input pid starttime

/-! ## Attribution -/

/-- Whether a scan names the programs that are running now: for every listed process whose link can
    be used, and as a scan with an empty cache would. -/
structure Attributed (sc : ProcfsScanner) (input : ScanInput) : Prop where
  exeSeen : ∀ obs, (sc.scan input).2 = .ok obs → ∀ process ∈ input.listed, ∀ link,
    process.exeLink = some link → ∀ path, .exeSeen path process.pid ∈ obs → path = link
  mapSeen : ∀ process ∈ input.listed, ∀ link, process.exeLink = some link →
    ∀ path map, .mapSeen path map ∈ sc.processEvents input process → path = link
  asFresh : ∀ obs fresh, (sc.scan input).2 = .ok obs →
    ({ sc with cache := ∅ }.scan input).2 = .ok fresh → ∀ process ∈ input.listed,
    process.exeLink.isSome → ∀ path,
      (.exeSeen path process.pid ∈ obs ↔ .exeSeen path process.pid ∈ fresh)

/-- Whether every listed process whose link can be used still has its first link, and what the
    watcher has collected under its pid is that link too. -/
structure KeepsPrograms (past : List ScanInput) (input : ScanInput) : Prop where
  link : ∀ process ∈ input.listed, ∀ starttime, process.stat = .ok starttime → ∀ link first,
    process.exeLink = some link → firstLink process.pid starttime past = some first → first = link
  watched : ∀ process ∈ input.listed, ∀ link, process.exeLink = some link → ∀ watcher path,
    input.fanotify = some watcher → watcher.exes.get? path = some process.pid → path = link

/-- Then the program a scan reports is the link. -/
theorem program_of_keeps {past : List ScanInput} {input : ScanInput} (h : KeepsPrograms past input)
    {process : Process} (hmem : process ∈ input.listed) {starttime : UInt64} {link : Path}
    (hstat : process.stat = .ok starttime) (hlink : process.exeLink = some link) :
    (run past).program process starttime = some link := by
  unfold program
  rw [heldLink_run]
  cases hfirst : firstLink process.pid starttime past with
  | none => exact hlink
  | some first => rw [h.link process hmem starttime hstat link first hlink hfirst, Option.some_or]

/-- A scan that names the running programs finds them under their first links. -/
theorem keepsPrograms_of_attributed {past : List ScanInput} {input : ScanInput}
    (h : Attributed (run past) input) : KeepsPrograms past input := by
  rcases (run past).scan_cases input with
    ⟨message, herr, -⟩ | ⟨table, loop, mem, -, -, -, hscan⟩
  · -- a scan that fails lists nothing
    have hnil : input.listed = [] := by rw [ScanInput.listed, herr]
    exact ⟨by simp [hnil], by simp [hnil]⟩
  · have hobs := congrArg Prod.snd hscan
    refine ⟨?_, ?_⟩
    · intro process hmem starttime hstat link first hlink hfirst
      refine h.exeSeen _ hobs process hmem link hlink first ?_
      refine (exeSeen_mem_scan hobs first process.pid).2
        (Or.inl ⟨process, hmem, rfl, starttime, hstat, ?_⟩)
      rw [program, heldLink_run, hfirst, Option.some_or]
    · intro process hmem link hlink watcher path hwatcher hpath
      refine h.exeSeen _ hobs process hmem link hlink path ?_
      exact (exeSeen_mem_scan hobs path process.pid).2 (Or.inr ⟨watcher, hwatcher, hpath⟩)

/-- With the processes under their first links, a scan names the running programs, as a scan with an
    empty cache would. -/
theorem KeepsPrograms.attributed {past : List ScanInput} {input : ScanInput}
    (h : KeepsPrograms past input) : Attributed (run past) input := by
  refine ⟨?_, ?_, ?_⟩
  · intro obs hobs process hmem link hlink path hpath
    rcases (exeSeen_mem_scan hobs path process.pid).1 hpath with
      ⟨process', hmem', hpid, starttime, hstat, hprogram⟩ | ⟨watcher, hwatcher, hexe⟩
    · obtain rfl := ScanInput.eq_of_pid hmem' hmem hpid
      rw [program_of_keeps h hmem hstat hlink] at hprogram
      exact (Option.some.inj hprogram).symm
    · exact h.watched process hmem link hlink watcher path hwatcher hexe
  · intro process hmem link hlink path map hmap
    unfold processEvents at hmap
    cases hfound : (run past).counted.scanProcess input.time process with
    | none =>
        rw [hfound] at hmap
        exact absurd hmap List.not_mem_nil
    | some found =>
        rw [hfound] at hmap
        obtain ⟨starttime, path', hstat, hprogram, hreports⟩ := reports_of_scanProcess hfound
        rw [program_counted, program_of_keeps h hmem hstat hlink] at hprogram
        rw [Option.some.inj hprogram]
        exact hreports.mapSeen path map hmap
  · intro obs fresh hobs hfresh process hmem hlink path
    obtain ⟨link, hlink⟩ := Option.isSome_iff_exists.1 hlink
    rw [exeSeen_mem_scan hobs, exeSeen_mem_scan hfresh]
    refine or_congr_left (exists_congr fun process' => and_congr_right fun hmem' =>
      and_congr_right fun hpid => exists_congr fun starttime => and_congr_right fun hstat => ?_)
    obtain rfl := ScanInput.eq_of_pid hmem' hmem hpid
    -- the empty cache leaves the link
    have hempty : program { run past with cache := ∅ } process' starttime = some link := by
      simp [program, heldLink, sameProcess, hlink]
    rw [program_of_keeps h hmem hstat hlink, hempty]

/-- Every scan of a run names the running programs exactly when in every scan the processes still
    have their first links. -/
theorem programs_attributed_iff (scans : List ScanInput) :
    (∀ past input later, scans = past ++ input :: later → Attributed (run past) input) ↔
      ∀ past input later, scans = past ++ input :: later → KeepsPrograms past input := by
  refine forall_congr' fun past => forall_congr' fun input => forall_congr' fun later =>
    imp_congr_right fun _ => ?_
  exact ⟨keepsPrograms_of_attributed, KeepsPrograms.attributed⟩

/-- A shell becomes `ls` under its pid: the second scan reports the shell. -/
theorem program_replaced_by_exec :
    let process : String → Process := fun exe => ⟨7, .ok 100, .ok (RawPath.ofString exe), .ok []⟩
    let table : String → ProcessTable := fun exe => ⟨[.ok (process exe)], List.nodup_singleton _⟩
    let scanAt : UInt64 → String → ScanInput := fun time exe =>
      ⟨time, time, .ok (table exe), none, HashOrder.insertion, .error ""⟩
    let past := [scanAt 1 "/usr/bin/sh"]
    ((run past).scan (scanAt 2 "/usr/bin/ls")).2.toOption =
        some [.obsBegin 2 2, .exeSeen (Path.ofString "/usr/bin/sh") 7, .obsEnd 2 2 []] ∧
      (process "/usr/bin/ls").exeLink = some (Path.ofString "/usr/bin/ls") ∧
      ¬ Attributed (run past) (scanAt 2 "/usr/bin/ls") := by
  intro process table scanAt past
  have hscan : ((run past).scan (scanAt 2 "/usr/bin/ls")).2.toOption =
      some [.obsBegin 2 2, .exeSeen (Path.ofString "/usr/bin/sh") 7, .obsEnd 2 2 []] := by
    decide +kernel
  have hlink : (process "/usr/bin/ls").exeLink = some (Path.ofString "/usr/bin/ls") := by
    decide +kernel
  refine ⟨hscan, hlink, ?_⟩
  intro h
  cases hobs : ((run past).scan (scanAt 2 "/usr/bin/ls")).2 with
  | error err =>
      rw [hobs] at hscan
      exact absurd hscan (by simp [Except.toOption])
  | ok obs =>
      rw [hobs] at hscan
      obtain rfl := Option.some.inj hscan
      have hmem : process "/usr/bin/ls" ∈ (scanAt 2 "/usr/bin/ls").listed :=
        List.mem_singleton_self _
      have hpath := h.exeSeen _ hobs _ hmem _ hlink (Path.ofString "/usr/bin/sh") (by decide)
      exact absurd hpath (by decide)

end ProcfsScanner

end PreloadNg
