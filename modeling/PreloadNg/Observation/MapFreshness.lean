import PreloadNg.Observation.FailedReads

set_option autoImplicit false

/-! # How old the reported maps are

A scan reports a known process from its cache, under the program it was first listed with. Its maps
were read at one of the last five scans, from the process that is reported, and the process was listed
by every scan since; a cached entry does not outlive its process. -/

namespace PreloadNg

/-- What reading `/proc/PID/maps` yields to the cache: the file mappings with a usable path, and
    nothing when it fails. -/
def Process.mapsRead (process : Process) : List CachedMap :=
  match process.maps with
  | .ok maps => maps.filterMap CachedMap.ofMemoryMap
  | .error _ => []

namespace ProcfsScanner

/-! ## One process -/

theorem cached_readMaps (sc : ProcfsScanner) (time : UInt64) (process : Process)
    (starttime : UInt64) (exePath : Path) :
    (sc.readMaps time process starttime exePath).cached =
      ⟨starttime, exePath, process.mapsRead, sc.scanCount⟩ := by
  unfold readMaps scanMaps Process.mapsRead
  cases process.maps <;> rfl

theorem events_readMaps (sc : ProcfsScanner) (time : UInt64) (process : Process)
    (starttime : UInt64) (exePath : Path) :
    (sc.readMaps time process starttime exePath).events =
      .exeSeen exePath process.pid :: emitCachedMaps exePath process.mapsRead time := by
  unfold readMaps scanMaps Process.mapsRead
  cases process.maps <;> rfl

/-- What the scan of a process finds: a new process is read, a known one is read again when that is
    due, and is reported from the cache otherwise. -/
theorem scanProcess_cases {sc : ProcfsScanner} {time : UInt64} {process : Process}
    {found : ProcessScan} (hfound : sc.scanProcess time process = some found) :
    ∃ starttime, process.stat = .ok starttime ∧
      ((∃ path, process.exeLink = some path ∧
          found = sc.readMaps time process starttime path) ∨
        ∃ cached, sc.cache.get? process.pid = some cached ∧ cached.starttime = starttime ∧
          (found = sc.readMaps time process starttime cached.exePath ∨
            ¬sc.mapRescanInterval ≤ satSub sc.scanCount cached.lastMapScan ∧
              found.events = .exeSeen cached.exePath process.pid ::
                emitCachedMaps cached.exePath cached.maps time ∧ found.cached = cached)) := by
  unfold scanProcess at hfound
  cases hstat : process.stat with
  | error message =>
      rw [hstat] at hfound
      cases hfound
  | ok starttime =>
      rw [hstat] at hfound
      dsimp only at hfound
      refine ⟨starttime, rfl, ?_⟩
      cases hsame : sc.sameProcess process.pid starttime with
      | some cached =>
          rw [hsame] at hfound
          dsimp only at hfound
          -- the process of an earlier scan: its maps are read again when they are due
          obtain ⟨hcached, hstart⟩ := Option.filter_eq_some_iff.1 hsame
          refine Or.inr ⟨cached, hcached, of_decide_eq_true hstart, ?_⟩
          split at hfound
          · exact Or.inl (Option.some.inj hfound).symm
          · next hdue =>
            obtain rfl := Option.some.inj hfound
            exact Or.inr ⟨hdue, rfl, rfl⟩
      | none =>
          rw [hsame] at hfound
          dsimp only at hfound
          split at hfound
          · cases hfound
          · next exe hexe =>
            obtain ⟨path, hpath, rfl⟩ := Option.map_eq_some_iff.1 hfound
            refine Or.inl ⟨path, ?_, rfl⟩
            rw [Process.exeLink, hexe]
            exact hpath

/-! ## The cache -/

/-- The scan numbered `k` read the maps of the process, and every scan from then on that listed
    processes listed it. -/
structure ReadAt (scans : List ScanInput) (pid : UInt32) (starttime : UInt64)
    (maps : List CachedMap) (k : ℕ) : Prop where
  read : ∃ input process, scans[k]? = some input ∧ Lists input pid starttime process ∧
    maps = process.mapsRead
  alive : ∀ i input table, k ≤ i → scans[i]? = some input → input.allProcesses = .ok table →
    ∃ process, Lists input pid starttime process

/-- A scan that lists the process, or cannot list processes, keeps what is known. -/
theorem ReadAt.concat {scans : List ScanInput} {pid : UInt32} {starttime : UInt64}
    {maps : List CachedMap} {k : ℕ} (h : ReadAt scans pid starttime maps k) {input : ScanInput}
    (hlists : ∀ table, input.allProcesses = .ok table →
      ∃ process, Lists input pid starttime process) :
    ReadAt (scans ++ [input]) pid starttime maps k where
  read := by
    obtain ⟨input₀, process, hk, hlist, hmaps⟩ := h.read
    obtain ⟨hlt, -⟩ := List.getElem?_eq_some_iff.1 hk
    exact ⟨input₀, process, by rw [List.getElem?_append_left hlt, hk], hlist, hmaps⟩
  alive i input₀ table hki hi htable := by
    rcases Nat.lt_or_ge i scans.length with hlt | hge
    · rw [List.getElem?_append_left hlt] at hi
      exact h.alive i input₀ table hki hi htable
    · rw [List.getElem?_append_right hge, List.getElem?_singleton] at hi
      split at hi
      · obtain rfl := Option.some.inj hi
        exact hlists table htable
      · cases hi

/-- A read by the latest scan. -/
theorem readAt_last {scans : List ScanInput} {input : ScanInput} {process : Process}
    {starttime : UInt64} (hlist : Lists input process.pid starttime process) :
    ReadAt (scans ++ [input]) process.pid starttime (process.mapsRead) scans.length where
  read := ⟨input, process, by simp, hlist, rfl⟩
  alive i input₀ table hki hi _ := by
    rw [List.getElem?_append_right hki, List.getElem?_singleton] at hi
    split at hi
    · obtain rfl := Option.some.inj hi
      exact ⟨process, hlist⟩
    · cases hi

/-- What is known of the cache after some scans. -/
structure Fresh (scans : List ScanInput) (sc : ProcfsScanner) : Prop where
  count : sc.scanCount.toNat = scans.length
  interval : sc.mapRescanInterval = DEFAULT_MAP_RESCAN_INTERVAL
  cache : ∀ pid cached, sc.cache.get? pid = some cached →
    ∃ k, cached.lastMapScan.toNat = k + 1 ∧ ReadAt scans pid cached.starttime cached.maps k

/-- A process is reported with its program and its maps, which were read at most four scans ago. -/
structure ReportsRecent (scans : List ScanInput) (input : ScanInput) (process : Process)
    (found : ProcessScan) : Prop where
  stat : process.stat = .ok found.cached.starttime
  events : found.events = .exeSeen found.cached.exePath process.pid ::
    emitCachedMaps found.cached.exePath found.cached.maps input.time
  read : ∃ k, found.cached.lastMapScan.toNat = k + 1 ∧ scans.length < k + 5 ∧
    ReadAt (scans ++ [input]) process.pid found.cached.starttime found.cached.maps k

section Scan

variable {scans : List ScanInput} {sc : ProcfsScanner} {input : ScanInput} {process : Process}

theorem toNat_counted (h : Fresh scans sc) (hlen : scans.length + 1 < 2 ^ 64) :
    sc.counted.scanCount.toNat = scans.length + 1 := by
  have hcount := h.count
  show (sc.scanCount + 1).toNat = _
  rw [UInt64.toNat_add, hcount]
  exact Nat.mod_eq_of_lt hlen

/-- The maps are read now. -/
theorem reportsRecent_readMaps (h : Fresh scans sc) (hlen : scans.length + 1 < 2 ^ 64)
    (hmem : process ∈ input.listed) {starttime : UInt64} (hstat : process.stat = .ok starttime)
    (exePath : Path) :
    ReportsRecent scans input process
      (sc.counted.readMaps input.time process starttime exePath) := by
  refine ⟨?_, ?_, scans.length, ?_, by omega, ?_⟩
  · rw [cached_readMaps]
    exact hstat
  · rw [cached_readMaps, events_readMaps]
  · rw [cached_readMaps]
    exact toNat_counted h hlen
  · rw [cached_readMaps]
    exact readAt_last ⟨hmem, rfl, hstat⟩

theorem reportsRecent_scanProcess (h : Fresh scans sc) (hlen : scans.length + 1 < 2 ^ 64)
    (hmem : process ∈ input.listed) {found : ProcessScan}
    (hfound : sc.counted.scanProcess input.time process = some found) :
    ReportsRecent scans input process found := by
  obtain ⟨starttime, hstat, ⟨path, -, rfl⟩ | ⟨cached, hcached, rfl, rfl | hkept⟩⟩ :=
    scanProcess_cases hfound
  · exact reportsRecent_readMaps h hlen hmem hstat path
  · exact reportsRecent_readMaps h hlen hmem hstat _
  · -- not due, so that the entry is from one of the last four scans
    obtain ⟨hdue, hevents, rfl⟩ := hkept
    obtain ⟨k, hk, hread⟩ := h.cache _ _ hcached
    refine ⟨hstat, hevents, k, hk, ?_, hread.concat fun _ _ => ⟨process, hmem, rfl, hstat⟩⟩
    have hcount := toNat_counted h hlen
    rw [show sc.counted.mapRescanInterval = DEFAULT_MAP_RESCAN_INTERVAL from h.interval,
      UInt64.le_iff_toNat_le, toNat_satSub, hcount, hk] at hdue
    have hinterval : DEFAULT_MAP_RESCAN_INTERVAL.toNat = 5 := rfl
    omega

/-- One scan. -/
theorem fresh_scan (h : Fresh scans sc) (hlen : scans.length + 1 < 2 ^ 64) :
    Fresh (scans ++ [input]) (sc.scan input).1 := by
  have hcount : sc.counted.scanCount.toNat = (scans ++ [input]).length := by
    rw [toNat_counted h hlen, List.length_append, List.length_singleton]
  rcases sc.scan_cases input with ⟨message, herr, hscan⟩ | ⟨table, loop, mem, hok, hloop, -, hscan⟩
  · rw [hscan]
    refine ⟨hcount, h.interval, fun pid cached hcached => ?_⟩
    obtain ⟨k, hk, hread⟩ := h.cache pid cached hcached
    refine ⟨k, hk, hread.concat fun table htable => ?_⟩
    rw [herr] at htable
    cases htable
  · rw [hscan]
    refine ⟨hcount, h.interval, fun pid cached hcached => ?_⟩
    obtain ⟨process, hmem, rfl, found, hfound, rfl⟩ := (hloop.seenPids pid cached).1 hcached
    obtain ⟨-, -, k, hk, -, hread⟩ := reportsRecent_scanProcess h hlen hmem hfound
    exact ⟨k, hk, hread⟩

end Scan

/-- In every run. -/
theorem fresh_run (scans : List ScanInput) (hlen : scans.length < 2 ^ 64) :
    Fresh scans (run scans) := by
  induction scans using List.reverseRecOn with
  | nil =>
      refine ⟨rfl, rfl, fun pid cached hcached => ?_⟩
      rw [run, List.foldl_nil, new, FxHashMap.get?_empty] at hcached
      cases hcached
  | append_singleton past input ih =>
      rw [List.length_append, List.length_singleton] at hlen
      have hpast := ih (by omega)
      unfold run
      rw [List.foldl_append]
      exact fresh_scan hpast hlen

/-- What a scan reports of a process is the program of its first link, also when it runs another one
    by now, and what was read of its maps at one of the last five scans, while it was listed all along;
    and only processes of the last listing stay cached. -/
theorem maps_read_recently (past : List ScanInput) (input : ScanInput)
    (hlen : past.length + 1 < 2 ^ 64) {obs : Observation}
    (hobs : ((run past).scan input).2 = .ok obs) :
    (∃ mem warnings, obs = .obsBegin input.time input.scanId ::
        (input.listed.flatMap ((run past).processEvents input) ++ drained input ++ mem) ++
          [.obsEnd input.time input.scanId warnings]) ∧
      (∀ process ∈ input.listed, (run past).processEvents input process = [] ∨
        ∃ starttime path maps k, process.stat = .ok starttime ∧
          (firstLink process.pid starttime past).or process.exeLink = some path ∧
          (run past).processEvents input process =
            .exeSeen path process.pid :: emitCachedMaps path maps input.time ∧
          past.length < k + 5 ∧ ReadAt (past ++ [input]) process.pid starttime maps k) ∧
      ∀ pid cached, (run (past ++ [input])).cache.get? pid = some cached →
        ∃ process, Lists input pid cached.starttime process := by
  have hfresh := fresh_run past (by omega)
  refine ⟨?_, fun process hmem => ?_, fun pid cached hcached => ?_⟩
  · obtain ⟨mem, warnings, heq, -⟩ := scan_events hobs
    exact ⟨mem, warnings, heq⟩
  · unfold processEvents
    cases hfound : (run past).counted.scanProcess input.time process with
    | none => exact Or.inl rfl
    | some found =>
        obtain ⟨hstat, hevents, k, -, hk, hread⟩ :=
          reportsRecent_scanProcess hfresh hlen hmem hfound
        obtain ⟨starttime, path, -, hprogram, hreports⟩ := reports_of_scanProcess hfound
        rw [program_counted, program, heldLink_run, ← hreports.starttime,
          ← hreports.exePath] at hprogram
        exact Or.inr ⟨_, _, _, k, hstat, hprogram, hevents, hk, hread⟩
  · have hnext := fresh_run (past ++ [input]) (by simpa using hlen)
    obtain ⟨k, -, hread⟩ := hnext.cache pid cached hcached
    rcases (run past).scan_cases input with ⟨message, -, hscan⟩ | ⟨table, _, _, hok, -⟩
    · rw [hscan] at hobs
      cases hobs
    · obtain ⟨input₀, -, hk, -⟩ := hread.read
      have hle : k ≤ past.length := by
        obtain ⟨hlt, -⟩ := List.getElem?_eq_some_iff.1 hk
        rw [List.length_append, List.length_singleton] at hlt
        omega
      exact hread.alive past.length input table hle (by simp) hok

/-- A known process whose maps cannot be read now is reported with those of the scan before. -/
theorem maps_read_recently_tool :
    let past := [toolScan 10 (.ok toolMaps)]
    let input := toolScan 15 (.error "EACCES")
    ∃ obs, ((run past).scan input).2 = .ok obs ∧ obs.length = 4 ∧
      (∃ mem warnings, obs = .obsBegin input.time input.scanId ::
        (input.listed.flatMap ((run past).processEvents input) ++ drained input ++ mem) ++
          [.obsEnd input.time input.scanId warnings]) ∧
      (∀ process ∈ input.listed, (run past).processEvents input process = [] ∨
        ∃ starttime path maps k, process.stat = .ok starttime ∧
          (firstLink process.pid starttime past).or process.exeLink = some path ∧
          (run past).processEvents input process =
            .exeSeen path process.pid :: emitCachedMaps path maps input.time ∧
          past.length < k + 5 ∧ ReadAt (past ++ [input]) process.pid starttime maps k) ∧
      ∀ pid cached, (run (past ++ [input])).cache.get? pid = some cached →
        ∃ process, Lists input pid cached.starttime process := by
  intro past input
  have hlen : past.length + 1 < 2 ^ 64 := by decide
  cases hobs : ((run past).scan input).2 with
  | error err => cases hobs
  | ok obs =>
      obtain rfl := Except.ok.inj hobs
      exact ⟨_, rfl, by decide +kernel, maps_read_recently past input hlen hobs⟩

end ProcfsScanner

end PreloadNg
