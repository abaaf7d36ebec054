import PreloadNg.Observation.Accesses
import PreloadNg.Observation.MapFreshness

set_option autoImplicit false

/-! # Where observations come from

A scan reports what `/proc` shows it or showed an earlier scan, and what the reader of the watcher
was shown. The evidence of a scanner is everything that was shown to it. -/

namespace PreloadNg

structure Evidence where
  processes : List Process
  events : List OpenEvent

namespace Evidence

structure Within (E E' : Evidence) : Prop where
  processes : E.processes ⊆ E'.processes
  events : E.events ⊆ E'.events

/-- The event of an opened file passed the checks of the reader. -/
def Opened (E : Evidence) (p f : Path) (file : FileMeta) : Prop :=
  ∃ event ∈ E.events, ∃ selfPid, event.accepted selfPid = some (p, f, file)

/-- A process of this pid and start time was listed. -/
def Listed (E : Evidence) (pid : UInt32) (starttime : UInt64) (process : Process) : Prop :=
  process ∈ E.processes ∧ process.pid = pid ∧ process.stat = .ok starttime

/-- A listed process ran the program, or some process that runs it opened a file. -/
inductive ShowsExe (E : Evidence) (p : Path) : Prop
  | listed {pid : UInt32} {starttime : UInt64} {process : Process}
      (hlisted : E.Listed pid starttime process) (hlink : process.exeLink = some p)
  | opened {f : Path} {file : FileMeta} (hopened : E.Opened p f file)

/-- A process that was once listed with the link of the program was once listed with the range of the
    file mapped, in this listing or in another one; or a process that runs the program opened the file
    and the range is the whole file. -/
inductive ShowsMap (E : Evidence) (p : Path) : MapKey → Prop
  | mapped {pid : UInt32} {starttime : UInt64} {first mapping : Process} {cm : CachedMap}
      (hfirst : E.Listed pid starttime first) (hlink : first.exeLink = some p)
      (hmapping : E.Listed pid starttime mapping) (hmapped : cm ∈ mapping.mapsRead) :
      ShowsMap E p ⟨cm.path, cm.offset, cm.length⟩
  | opened {f : Path} {file : FileMeta} (hopened : E.Opened p f file) :
      ShowsMap E p ⟨f, 0, file.size⟩

variable {E E' : Evidence}

theorem Within.trans {E'' : Evidence} (h : E.Within E') (h' : E'.Within E'') : E.Within E'' :=
  ⟨fun _ hp => h'.processes (h.processes hp), fun _ he => h'.events (h.events he)⟩

theorem Opened.mono {p f : Path} {file : FileMeta} (h : E.Opened p f file) (hsub : E.Within E') :
    E'.Opened p f file := by
  obtain ⟨event, hmem, hevent⟩ := h
  exact ⟨event, hsub.events hmem, hevent⟩

theorem Listed.mono {pid : UInt32} {starttime : UInt64} {process : Process}
    (h : E.Listed pid starttime process) (hsub : E.Within E') : E'.Listed pid starttime process :=
  ⟨hsub.processes h.1, h.2⟩

theorem ShowsExe.mono {p : Path} (h : E.ShowsExe p) (hsub : E.Within E') : E'.ShowsExe p := by
  cases h with
  | listed hlisted hlink => exact .listed (hlisted.mono hsub) hlink
  | opened hopened => exact .opened (hopened.mono hsub)

theorem ShowsMap.showsExe {p : Path} {key : MapKey} (h : E.ShowsMap p key) : E.ShowsExe p := by
  cases h with
  | mapped hfirst hlink _ _ => exact .listed hfirst hlink
  | opened hopened => exact .opened hopened

theorem ShowsMap.mono {p : Path} {key : MapKey} (h : E.ShowsMap p key) (hsub : E.Within E') :
    E'.ShowsMap p key := by
  cases h with
  | mapped hfirst hlink hmapping hmapped =>
      exact .mapped (hfirst.mono hsub) hlink (hmapping.mono hsub) hmapped
  | opened hopened => exact .opened (hopened.mono hsub)

end Evidence

/-- What an event of an observation names was shown. -/
def ObservationEvent.From (E : Evidence) : ObservationEvent → Prop
  | .exeSeen path _ => E.ShowsExe path
  | .mapSeen exePath map => E.ShowsMap exePath map.key
  | _ => True

/-! ## What the scanner holds -/

/-- The link and the maps of a cached process were shown. -/
structure CachedProcess.From (E : Evidence) (pid : UInt32) (cached : CachedProcess) : Prop where
  linked : ∃ process, E.Listed pid cached.starttime process ∧
    process.exeLink = some cached.exePath
  mapped : ∀ cm ∈ cached.maps, ∃ process, E.Listed pid cached.starttime process ∧
    cm ∈ process.mapsRead

/-- What a buffer has collected was shown. -/
structure EventBuffer.From (E : Evidence) (buffer : EventBuffer) : Prop where
  exes : ∀ p, (buffer.exes.get? p).isSome → ∃ f file, E.Opened p f file
  maps : ∀ p f file, buffer.maps.get? (p, f) = some file → E.Opened p f file

structure WatchedScanner.From (E : Evidence) (w : WatchedScanner) : Prop where
  cache : ∀ pid cached, w.scanner.cache.get? pid = some cached → cached.From E pid
  buffer : ∀ buffer, w.buffer = some buffer → buffer.From E

section Holds

variable {E E' : Evidence}

theorem CachedProcess.From.mono {pid : UInt32} {cached : CachedProcess} (h : cached.From E pid)
    (hsub : E.Within E') : cached.From E' pid where
  linked := by
    obtain ⟨process, hlisted, hlink⟩ := h.linked
    exact ⟨process, hlisted.mono hsub, hlink⟩
  mapped cm hcm := by
    obtain ⟨process, hlisted, hmaps⟩ := h.mapped cm hcm
    exact ⟨process, hlisted.mono hsub, hmaps⟩

theorem EventBuffer.From.mono {buffer : EventBuffer} (h : buffer.From E) (hsub : E.Within E') :
    buffer.From E' where
  exes p hp := by
    obtain ⟨f, file, hopened⟩ := h.exes p hp
    exact ⟨f, file, hopened.mono hsub⟩
  maps p f file hget := (h.maps p f file hget).mono hsub

theorem WatchedScanner.From.mono {w : WatchedScanner} (h : w.From E) (hsub : E.Within E') :
    w.From E' where
  cache pid cached hcached := (h.cache pid cached hcached).mono hsub
  buffer b hb := (h.buffer b hb).mono hsub

theorem EventBuffer.from_empty (E : Evidence) : (∅ : EventBuffer).From E where
  exes p hp := absurd hp (by simp)
  maps p f file hget := absurd hget (by simp)

theorem WatchedScanner.from_new (E : Evidence) (watching : Bool) : (new watching).From E where
  cache pid cached h := absurd h (by simp [new, ProcfsScanner.new])
  buffer buffer h := by
    unfold new at h
    split at h
    · obtain rfl := Option.some.inj h
      exact EventBuffer.from_empty E
    · cases h

/-- The reader puts into the buffer what it is shown. -/
theorem EventBuffer.from_read {selfPid : Int32} {event : OpenEvent} {buffer : EventBuffer}
    (h : buffer.From E) (hevent : event ∈ E.events) : (buffer.read selfPid event).From E := by
  unfold read
  cases haccepted : event.accepted selfPid with
  | none => exact h
  | some found =>
      obtain ⟨exePath, filePath, file⟩ := found
      have hopened : E.Opened exePath filePath file := ⟨event, hevent, selfPid, haccepted⟩
      constructor
      · intro p hp
        change ((buffer.exes.modifyEntry exePath event.pid.toUInt32 id).get? p).isSome at hp
        rw [get?_orInsert] at hp
        by_cases heq : p = exePath
        · exact ⟨filePath, file, heq ▸ hopened⟩
        · rw [if_neg heq, Option.or_none] at hp
          exact h.exes p hp
      · intro p f file' hget
        change (buffer.maps.modifyEntry (exePath, filePath) file id).get? (p, f) = some file' at hget
        rw [get?_orInsert, Option.or_eq_some_iff] at hget
        rcases hget with hget | ⟨-, hget⟩
        · exact h.maps p f file' hget
        · split at hget
          · next heq =>
            obtain ⟨rfl, rfl⟩ := Prod.mk.inj heq
            obtain rfl := Option.some.inj hget
            exact hopened
          · cases hget

/-! ## What a scan reports -/

/-- Processes are cached, and reported, as they were shown. -/
theorem from_scanProcess {sc : ProcfsScanner}
    (h : ∀ pid cached, sc.cache.get? pid = some cached → cached.From E pid) {time : UInt64}
    {process : Process} (hprocess : process ∈ E.processes) {found : ProcessScan}
    (hfound : sc.scanProcess time process = some found) :
    found.cached.From E process.pid ∧
      found.events = .exeSeen found.cached.exePath process.pid ::
        emitCachedMaps found.cached.exePath found.cached.maps time := by
  obtain ⟨starttime, hstat, hcases⟩ := ProcfsScanner.scanProcess_cases hfound
  have hlisted : E.Listed process.pid starttime process := ⟨hprocess, rfl, hstat⟩
  have hread : ∀ path first, E.Listed process.pid starttime first → first.exeLink = some path →
      found = sc.readMaps time process starttime path →
        found.cached.From E process.pid ∧
          found.events = .exeSeen found.cached.exePath process.pid ::
            emitCachedMaps found.cached.exePath found.cached.maps time := by
    rintro path first hfirst hlink rfl
    rw [ProcfsScanner.cached_readMaps, ProcfsScanner.events_readMaps]
    exact ⟨⟨⟨first, hfirst, hlink⟩, fun cm hcm => ⟨process, hlisted, hcm⟩⟩, rfl⟩
  rcases hcases with ⟨path, hlink, heq⟩ | ⟨cached, hcached, rfl, heq | ⟨-, hevents, rfl⟩⟩
  · exact hread path process hlisted hlink heq
  · obtain ⟨first, hfirst, hlink⟩ := (h _ _ hcached).linked
    exact hread cached.exePath first hfirst hlink heq
  · exact ⟨h _ _ hcached, hevents⟩

/-- The events of a process name what its cached entry has. -/
theorem CachedProcess.From.events {pid : UInt32} {cached : CachedProcess} (h : cached.From E pid)
    (time : UInt64) : ∀ event ∈ .exeSeen cached.exePath pid ::
      emitCachedMaps cached.exePath cached.maps time, ObservationEvent.From E event := by
  obtain ⟨first, hfirst, hlink⟩ := h.linked
  intro event hevent
  rcases List.mem_cons.1 hevent with rfl | hevent
  · exact .listed hfirst hlink
  · obtain ⟨cm, hcm, rfl⟩ := List.mem_map.1 hevent
    obtain ⟨mapping, hmapping, hmapped⟩ := h.mapped cm hcm
    exact .mapped hfirst hlink hmapping hmapped

theorem EventBuffer.From.events {buffer : EventBuffer} (h : buffer.From E) (ord : HashOrder)
    (time : UInt64) : ∀ event ∈ buffer.drain ord time, event.From E := by
  intro event hevent
  rcases List.mem_append.1 hevent with hexes | hmaps
  · obtain ⟨row, hrow, rfl⟩ := List.mem_map.1 hexes
    rw [HashOrder.mem_enum, FxHashMap.mem_iter] at hrow
    obtain ⟨f, file, hopened⟩ := h.exes row.1 (Option.isSome_of_mem hrow)
    exact .opened hopened
  · obtain ⟨⟨⟨p, f⟩, file⟩, hrow, rfl⟩ := List.mem_map.1 hmaps
    rw [HashOrder.mem_enum, FxHashMap.mem_iter] at hrow
    exact .opened (h.maps p f file hrow)

namespace WatchedScanner

variable {w : WatchedScanner} {input : ScanInput}

theorem from_exec_opened (h : w.From E) (selfPid : Int32) {event : OpenEvent}
    (hevent : event ∈ E.events) : (w.exec selfPid (.opened event)).From E where
  cache := h.cache
  buffer buffer hbuffer := by
    obtain ⟨buffer', hbuffer', rfl⟩ := Option.map_eq_some_iff.1 hbuffer
    exact EventBuffer.from_read (h.buffer buffer' hbuffer') hevent

theorem from_exec_scan (h : w.From E) (selfPid : Int32)
    (hinput : ∀ process ∈ input.listed, process ∈ E.processes) :
    (w.exec selfPid (.scan input)).From E := by
  constructor
  · intro pid cached hcached
    change (w.scanner.scan (w.input input)).1.cache.get? pid = some cached at hcached
    rcases w.scanner.scan_cases (w.input input) with
      ⟨message, -, hscan⟩ | ⟨table, loop, mem, -, hloop, -, hscan⟩
    · rw [hscan] at hcached
      exact h.cache pid cached hcached
    · rw [hscan] at hcached
      obtain ⟨process, hmem, rfl, found, hfound, rfl⟩ := (hloop.seenPids pid cached).1 hcached
      have hcache : ∀ pid cached, w.scanner.counted.cache.get? pid = some cached →
          cached.From E pid := h.cache
      exact (from_scanProcess hcache (hinput process hmem) hfound).1
  · intro buffer hbuffer
    unfold exec at hbuffer
    dsimp only at hbuffer
    split at hbuffer
    · exact h.buffer buffer hbuffer
    · obtain ⟨_, -, rfl⟩ := Option.map_eq_some_iff.1 hbuffer
      exact EventBuffer.from_empty E

theorem from_processEvents (h : w.From E) {process : Process} (hprocess : process ∈ E.processes) :
    ∀ event ∈ w.scanner.processEvents (w.input input) process, event.From E := by
  have hcache : ∀ pid cached, w.scanner.counted.cache.get? pid = some cached →
      cached.From E pid := h.cache
  intro event hevent
  unfold ProcfsScanner.processEvents at hevent
  cases hfound : w.scanner.counted.scanProcess (w.input input).time process with
  | none =>
      rw [hfound] at hevent
      exact absurd hevent List.not_mem_nil
  | some found =>
      rw [hfound, Option.map_some, Option.getD_some] at hevent
      obtain ⟨hfrom, hevents⟩ := from_scanProcess hcache hprocess hfound
      rw [hevents] at hevent
      exact hfrom.events _ event hevent

/-- Everything that a scan reports was shown. -/
theorem from_observe (h : w.From E) (hinput : ∀ process ∈ input.listed, process ∈ E.processes)
    {obs : Observation} (hobs : w.observe input = .ok obs) : ∀ event ∈ obs, event.From E := by
  obtain ⟨mem, warnings, rfl, hmem⟩ := ProcfsScanner.scan_events hobs
  intro event hevent
  rw [List.mem_append, List.mem_cons, List.mem_append, List.mem_append, List.mem_singleton]
    at hevent
  rcases hevent with (rfl | (hprocess | hdrained) | hstat) | rfl
  · trivial
  · obtain ⟨process, hlisted, hprocess⟩ := List.mem_flatMap.1 hprocess
    exact from_processEvents h (hinput process hlisted) event hprocess
  · unfold ProcfsScanner.drained at hdrained
    split at hdrained
    · next buffer hbuffer => exact (h.buffer buffer hbuffer).events _ _ event hdrained
    · exact absurd hdrained List.not_mem_nil
  · obtain ⟨stat, rfl⟩ := hmem event hstat
    trivial
  · trivial

end WatchedScanner

end Holds

end PreloadNg
