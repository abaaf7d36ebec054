import PreloadNg.Observation.FanotifyWatcher

set_option autoImplicit false

/-! # The contract of the observation stream

A scan announces each executable before its maps, whichever of its sources the events come from.
The paths that `/proc` gives are sanitized on the way into the cache; those of the watcher's buffer
are passed on as the kernel reports them. -/

namespace PreloadNg

/-! ## Sanitized paths -/

/-- An absolute path, valid UTF-8, without the marks of a deleted or a prelinked file. -/
structure Sanitized (p : Path) : Prop where
  hasRoot : p.hasRoot = true
  text : ∃ s, p.toStr = some s ∧ ¬ "(deleted)".toList <:+: s.toList ∧
    ¬ ".#prelink#.".toList <:+: s.toList

theorem beforeFirst_prefix (sep l : List Char) : beforeFirst sep l <+: l := by
  induction l with
  | nil => exact List.prefix_refl []
  | cons c rest ih =>
      rw [beforeFirst]
      split
      · exact List.nil_prefix
      · exact (List.cons_prefix_cons.2 ⟨rfl, ih⟩)

theorem not_infix_beforeFirst {sep : List Char} (hsep : sep ≠ []) (l : List Char) :
    ¬ sep <:+: beforeFirst sep l := by
  induction l with
  | nil => exact fun h => hsep (List.infix_nil.1 h)
  | cons c rest ih =>
      rw [beforeFirst]
      split
      · exact fun h => hsep (List.infix_nil.1 h)
      · next hstart =>
          rw [List.infix_cons_iff, not_or]
          refine ⟨fun h => hstart ?_, ih⟩
          have hrest : c :: beforeFirst sep rest <+: c :: rest :=
            List.cons_prefix_cons.2 ⟨rfl, beforeFirst_prefix sep rest⟩
          exact List.isPrefixOf_iff_prefix.2 (h.trans hrest)

/-- The normal spelling of a text bears a mark only if the text does. -/
theorem infix_of_infix_normalSpelling {mark : String} (hslash : '/' ∉ mark.toList)
    (hlong : 1 < mark.toList.length) {s : String}
    (h : mark.toList <:+: (String.ofList (Segments.normalize '/' '.' s.toList)).toList) :
    mark.toList <:+: s.toList := by
  rw [String.toList_ofList] at h
  exact Segments.infix_of_infix_normalize (by decide) hslash hlong h

theorem sanitized_of_sanitizePath {p : RawPath} {q : Path} (h : sanitizePath p = some q) :
    Sanitized q := by
  unfold sanitizePath at h
  split at h
  · exact absurd h (by simp)
  · next hroot =>
      split at h
      · exact absurd h (by simp)
      · next s hs =>
          split at h
          · exact absurd h (by simp)
          · next hdeleted =>
              obtain rfl := Option.some.inj h
              have hcut := beforeFirst_prefix ".#prelink#.".toList s.toList
              have htext : (String.ofList (beforeFirst ".#prelink#.".toList s.toList)).toList =
                  beforeFirst ".#prelink#.".toList s.toList := String.toList_ofList
              refine ⟨?_, _, Path.toStr_ofString _, ?_, ?_⟩
              · -- the first character stays, for it is not the dot that starts the suffix
                have hroot : (RawPath.ofString s).hasRoot = true := by
                  rw [RawPath.ofString_of_toStr hs]
                  simpa using hroot
                obtain ⟨c, rest, hc, hbyte⟩ := RawPath.hasRoot_ofString.1 hroot
                rw [Path.ofString, Path.hasRoot_ofRaw, RawPath.hasRoot_ofString, htext, hc,
                  beforeFirst]
                have hne : c ≠ '.' := by
                  rintro rfl
                  exact absurd hbyte (by decide)
                rw [if_neg]
                · exact ⟨c, _, rfl, hbyte⟩
                · intro hstart
                  obtain ⟨t, ht⟩ := List.isPrefixOf_iff_prefix.1 hstart
                  exact hne (List.cons.inj ht).1.symm
              · intro hmark
                have hcutMark := infix_of_infix_normalSpelling (by decide) (by decide) hmark
                rw [htext] at hcutMark
                exact hdeleted (hcutMark.trans hcut.isInfix)
              · intro hmark
                have hcutMark := infix_of_infix_normalSpelling (by decide) (by decide) hmark
                rw [htext] at hcutMark
                exact not_infix_beforeFirst (by decide) _ hcutMark

/-! ## The contract -/

/-- The first or the last event of a scan. -/
def ObservationEvent.isFrame : ObservationEvent → Bool
  | .obsBegin _ _ => true
  | .obsEnd _ _ _ => true
  | _ => false

/-- Every executable is seen before its maps. -/
def ExeFirst (events : List ObservationEvent) : Prop :=
  ∀ before after p m, events = before ++ .mapSeen p m :: after → ∃ pid, .exeSeen p pid ∈ before

/-- One `ObsBegin` at the start, one `ObsEnd` at the end, and executables before their maps. -/
structure Observation.Ordered (obs : Observation) : Prop where
  framed : ∃ time scanId middle time' scanId' warnings,
    obs = .obsBegin time scanId :: middle ++ [.obsEnd time' scanId' warnings] ∧
      ∀ event ∈ middle, event.isFrame = false
  exeFirst : ExeFirst obs

/-- The events name sanitized paths only. -/
structure SanitizedPaths (events : List ObservationEvent) : Prop where
  exePaths : ∀ p pid, .exeSeen p pid ∈ events → Sanitized p
  mapPaths : ∀ p m, .mapSeen p m ∈ events → Sanitized p ∧ Sanitized m.path

structure ObservationContract (obs : Observation) : Prop extends obs.Ordered, SanitizedPaths obs

theorem sanitizedPaths_append {a b : List ObservationEvent} :
    SanitizedPaths (a ++ b) ↔ SanitizedPaths a ∧ SanitizedPaths b := by
  constructor
  · intro h
    exact ⟨⟨fun p pid hp => h.exePaths p pid (List.mem_append_left b hp),
        fun p m hm => h.mapPaths p m (List.mem_append_left b hm)⟩,
      ⟨fun p pid hp => h.exePaths p pid (List.mem_append_right a hp),
        fun p m hm => h.mapPaths p m (List.mem_append_right a hm)⟩⟩
  · rintro ⟨ha, hb⟩
    exact ⟨fun p pid hp => (List.mem_append.1 hp).elim (ha.exePaths p pid) (hb.exePaths p pid),
      fun p m hm => (List.mem_append.1 hm).elim (ha.mapPaths p m) (hb.mapPaths p m)⟩

/-- Events that name no path. -/
theorem sanitizedPaths_of_no_paths {events : List ObservationEvent}
    (hexe : ∀ p pid, .exeSeen p pid ∉ events) (hmap : ∀ p m, .mapSeen p m ∉ events) :
    SanitizedPaths events :=
  ⟨fun p pid hp => absurd hp (hexe p pid), fun p m hm => absurd hm (hmap p m)⟩

section ExeFirst

variable {a b : List ObservationEvent}

/-- Events without maps, then maps of executables seen in them. -/
theorem exeFirst_block (ha : ∀ p m, .mapSeen p m ∉ a)
    (hb : ∀ p m, .mapSeen p m ∈ b → ∃ pid, .exeSeen p pid ∈ a) : ExeFirst (a ++ b) := by
  intro before after p m h
  rcases List.append_eq_append_iff.1 h with ⟨c, hbefore, hc⟩ | ⟨c, hbefore, hc⟩
  · obtain ⟨pid, hpid⟩ := hb p m (hc ▸ List.mem_append_right c List.mem_cons_self)
    exact ⟨pid, hbefore ▸ List.mem_append_left c hpid⟩
  · -- otherwise the map would be among the first events
    cases c with
    | nil =>
        rw [List.nil_append] at hc
        obtain ⟨pid, hpid⟩ := hb p m (hc ▸ List.mem_cons_self)
        rw [List.append_nil] at hbefore
        exact ⟨pid, hbefore ▸ hpid⟩
    | cons event rest =>
        obtain ⟨rfl, -⟩ := List.cons.inj hc
        exact absurd (hbefore ▸ List.mem_append_right before List.mem_cons_self) (ha p m)

theorem exeFirst_append (ha : ExeFirst a) (hb : ExeFirst b) : ExeFirst (a ++ b) := by
  intro before after p m h
  rcases List.append_eq_append_iff.1 h with ⟨c, hbefore, hc⟩ | ⟨c, hbefore, hc⟩
  · obtain ⟨pid, hpid⟩ := hb c after p m hc
    exact ⟨pid, hbefore ▸ List.mem_append_right a hpid⟩
  · cases c with
    | nil =>
        obtain ⟨pid, hpid⟩ := hb [] after p m hc.symm
        exact absurd hpid List.not_mem_nil
    | cons event rest =>
        obtain ⟨rfl, -⟩ := List.cons.inj hc
        exact ha before rest p m hbefore

theorem exeFirst_of_no_maps (ha : ∀ p m, .mapSeen p m ∉ a) : ExeFirst a := by
  intro before after p m h
  exact absurd (h ▸ List.mem_append_right before List.mem_cons_self) (ha p m)

theorem exeFirst_flatMap {α : Type} (f : α → List ObservationEvent) (l : List α)
    (h : ∀ x ∈ l, ExeFirst (f x)) : ExeFirst (l.flatMap f) := by
  induction l with
  | nil => exact exeFirst_of_no_maps (by simp)
  | cons x rest ih =>
      rw [List.flatMap_cons]
      exact exeFirst_append (h x List.mem_cons_self)
        (ih fun y hy => h y (List.mem_cons_of_mem x hy))

end ExeFirst

/-! ## The processes -/

structure CachedProcess.Clean (cached : CachedProcess) : Prop where
  exePath : Sanitized cached.exePath
  maps : ∀ cm ∈ cached.maps, Sanitized cm.path

/-- Every cached path is sanitized. -/
def ProcfsScanner.Clean (sc : ProcfsScanner) : Prop :=
  ∀ pid cached, sc.cache.get? pid = some cached → cached.Clean

namespace ProcfsScanner

theorem clean_scanMaps (process : Process) (exePath : Path) (time : UInt64) :
    (scanMaps process exePath time).1 =
        emitCachedMaps exePath (scanMaps process exePath time).2.2 time ∧
      ∀ cm ∈ (scanMaps process exePath time).2.2, Sanitized cm.path := by
  unfold scanMaps
  split
  · refine ⟨rfl, fun cm hcm => ?_⟩
    obtain ⟨map, -, hmap⟩ := List.mem_filterMap.1 hcm
    unfold CachedMap.ofMemoryMap at hmap
    split at hmap
    · exact absurd hmap (by simp)
    · obtain ⟨path, hpath, rfl⟩ := Option.map_eq_some_iff.1 hmap
      exact sanitized_of_sanitizePath hpath
  · exact ⟨rfl, by simp⟩

/-- The events of a process are those of what is cached for it. -/
structure Emits (time : UInt64) (process : Process) (found : ProcessScan) : Prop where
  events : found.events = .exeSeen found.cached.exePath process.pid ::
    emitCachedMaps found.cached.exePath found.cached.maps time
  clean : found.cached.Clean

theorem emits_readMaps (sc : ProcfsScanner) (time : UInt64) (process : Process)
    (starttime : UInt64) {exePath : Path} (h : Sanitized exePath) :
    Emits time process (sc.readMaps time process starttime exePath) := by
  obtain ⟨hevents, hmaps⟩ := clean_scanMaps process exePath time
  exact ⟨congrArg _ hevents, h, hmaps⟩

theorem emits_scanProcess (sc : ProcfsScanner) (hclean : sc.Clean) {time : UInt64}
    {process : Process} {found : ProcessScan} (h : sc.scanProcess time process = some found) :
    Emits time process found := by
  unfold scanProcess at h
  split at h
  · exact absurd h (by simp)
  · split at h
    · next cached hcached =>
        -- full rescan of a known process, or replay of its maps
        have hkept : cached.Clean := hclean _ _ (Option.filter_eq_some_iff.1 hcached).1
        split at h
        · obtain rfl := Option.some.inj h
          exact emits_readMaps sc time process _ hkept.exePath
        · obtain rfl := Option.some.inj h
          exact ⟨rfl, hkept⟩
    · split at h
      · exact absurd h (by simp)
      · obtain ⟨exePath, hpath, rfl⟩ := Option.map_eq_some_iff.1 h
        exact emits_readMaps sc time process _ (sanitized_of_sanitizePath hpath)

theorem clean_scan {sc : ProcfsScanner} (hclean : sc.Clean) (input : ScanInput) :
    (sc.scan input).1.Clean := by
  rcases sc.scan_cases input with ⟨message, -, hscan⟩ | ⟨table, loop, mem, -, hloop, -, hscan⟩
  · rw [hscan]
    exact hclean
  · rw [hscan]
    intro pid cached hcached
    obtain ⟨process, -, -, found, hfound, rfl⟩ := (hloop.seenPids pid cached).1 hcached
    exact (emits_scanProcess sc.counted hclean hfound).clean

/-- What the processes contribute to a scan: ordered, sanitized, and between the two frames. -/
structure ProcessPart (events : List ObservationEvent) : Prop extends SanitizedPaths events where
  exeFirst : ExeFirst events
  inner : ∀ event ∈ events, event.isFrame = false

theorem processPart_emits {time : UInt64} {process : Process} {found : ProcessScan}
    (h : Emits time process found) : ProcessPart found.events := by
  have hmaps : ∀ p m, .mapSeen p m ∈ found.events →
      p = found.cached.exePath ∧ ∃ cm ∈ found.cached.maps, m.path = cm.path := by
    intro p m hm
    simp only [h.events, emitCachedMaps, List.mem_cons, reduceCtorEq, false_or, List.mem_map,
      ObservationEvent.mapSeen.injEq] at hm
    obtain ⟨cm, hcm, rfl, rfl⟩ := hm
    exact ⟨rfl, cm, hcm, rfl⟩
  refine ⟨⟨?_, ?_⟩, ?_, ?_⟩
  · intro p pid hp
    rw [h.events, List.mem_cons, ObservationEvent.exeSeen.injEq] at hp
    rcases hp with ⟨rfl, -⟩ | hp
    · exact h.clean.exePath
    · exact absurd hp (exeSeen_not_mem_emit _ _ _ _ _)
  · intro p m hm
    obtain ⟨rfl, cm, hcm, hpath⟩ := hmaps p m hm
    exact ⟨h.clean.exePath, hpath ▸ h.clean.maps cm hcm⟩
  · rw [h.events]
    refine exeFirst_block (a := [_]) (by simp) fun p m hm => ⟨process.pid, ?_⟩
    rw [path_of_mem_emit hm]
    exact List.mem_singleton_self _
  · intro event hevent
    simp only [h.events, emitCachedMaps, List.mem_cons, List.mem_map] at hevent
    rcases hevent with rfl | ⟨cm, -, rfl⟩
    · rfl
    · rfl

theorem processPart_scan {sc : ProcfsScanner} (hclean : sc.Clean) (input : ScanInput) :
    ProcessPart (input.listed.flatMap (sc.processEvents input)) := by
  have hone : ∀ process, ProcessPart (sc.processEvents input process) := by
    intro process
    unfold processEvents
    cases hfound : sc.counted.scanProcess input.time process with
    | none => exact ⟨⟨by simp, by simp⟩, exeFirst_of_no_maps (by simp), by simp⟩
    | some found => exact processPart_emits (emits_scanProcess sc.counted hclean hfound)
  refine ⟨⟨?_, ?_⟩, exeFirst_flatMap _ _ fun process _ => (hone process).exeFirst, ?_⟩
  · intro p pid hp
    obtain ⟨process, -, hprocess⟩ := List.mem_flatMap.1 hp
    exact (hone process).exePaths p pid hprocess
  · intro p m hm
    obtain ⟨process, -, hprocess⟩ := List.mem_flatMap.1 hm
    exact (hone process).mapPaths p m hprocess
  · intro event hevent
    obtain ⟨process, -, hprocess⟩ := List.mem_flatMap.1 hevent
    exact (hone process).inner event hprocess

/-! ## The watcher -/

theorem mapSeen_mem_drain {buffer : EventBuffer} {ord : HashOrder} {time : UInt64} {p : Path}
    {m : MapSegment} (h : .mapSeen p m ∈ buffer.drain ord time) :
    (buffer.maps.get? (p, m.path)).isSome := by
  simp only [EventBuffer.drain, List.mem_append, List.mem_map, HashOrder.mem_enum, reduceCtorEq,
    and_false, exists_false, false_or, ObservationEvent.mapSeen.injEq, Prod.exists,
    FxHashMap.mem_iter] at h
  obtain ⟨p', f, file, hget, rfl, rfl⟩ := h
  exact Option.isSome_iff_exists.2 ⟨file, hget⟩

theorem exeSeen_mem_drain {buffer : EventBuffer} {ord : HashOrder} {time : UInt64} {p : Path}
    {pid : UInt32} (h : .exeSeen p pid ∈ buffer.drain ord time) :
    (buffer.exes.get? p).isSome := by
  simp only [EventBuffer.drain, List.mem_append, List.mem_map, HashOrder.mem_enum, reduceCtorEq,
    and_false, exists_false, or_false, ObservationEvent.exeSeen.injEq, Prod.exists,
    FxHashMap.mem_iter] at h
  obtain ⟨p', pid', hget, rfl, rfl⟩ := h
  exact Option.isSome_iff_exists.2 ⟨pid', hget⟩

theorem mapSeen_drain {buffer : EventBuffer} (ord : HashOrder) (time : UInt64) {p f : Path}
    (h : (buffer.maps.get? (p, f)).isSome) :
    ∃ m, .mapSeen p m ∈ buffer.drain ord time ∧ m.path = f := by
  obtain ⟨file, hfile⟩ := Option.isSome_iff_exists.1 h
  refine ⟨{ MapSegment.new f 0 file.size time with device := file.device, inode := file.inode },
    List.mem_append_right _ (List.mem_map.2 ⟨((p, f), file), ?_, rfl⟩), rfl⟩
  exact (HashOrder.mem_enum _ _ _).2 ((FxHashMap.mem_iter _ _ _).2 hfile)

/-- Of a buffer that the reader filled, executables are announced before their files. -/
theorem exeFirst_drain {selfPid : Int32} {events : List OpenEvent} {buffer : EventBuffer}
    (h : buffer.Holds selfPid events) (ord : HashOrder) (time : UInt64) :
    ExeFirst (buffer.drain ord time) := by
  refine exeFirst_block (by simp) fun p m hm => ?_
  have hget := mapSeen_mem_drain (List.mem_append_right _ hm)
  obtain ⟨event, hevent, file, haccepted⟩ := (h.maps p m.path).1 hget
  obtain ⟨pid, hpid⟩ := Option.isSome_iff_exists.1
    ((h.exes p).2 ⟨event, hevent, m.path, file, haccepted⟩)
  refine ⟨pid, List.mem_map.2 ⟨(p, pid), ?_, rfl⟩⟩
  exact (HashOrder.mem_enum _ _ _).2 ((FxHashMap.mem_iter _ _ _).2 hpid)

theorem isFrame_drain {buffer : EventBuffer} (ord : HashOrder) (time : UInt64) :
    ∀ event ∈ buffer.drain ord time, event.isFrame = false := by
  intro event hevent
  rcases List.mem_append.1 hevent with hevent | hevent
  · obtain ⟨row, -, rfl⟩ := List.mem_map.1 hevent
    rfl
  · obtain ⟨row, -, rfl⟩ := List.mem_map.1 hevent
    rfl

end ProcfsScanner

/-! ## The stream of a scan -/

section Stream

variable {time scanId : UInt64} {warnings : List ScanWarning}
  {processes drained mem : List ObservationEvent}

variable (time scanId warnings) in
theorem ordered_stream (hprocesses : ProcfsScanner.ProcessPart processes)
    (hfirst : ExeFirst drained) (hframe : ∀ event ∈ drained, event.isFrame = false)
    (hmem : ∀ event ∈ mem, ∃ stat, event = .memStat stat) :
    Observation.Ordered (.obsBegin time scanId :: (processes ++ drained ++ mem) ++
      [.obsEnd time scanId warnings]) := by
  refine ⟨⟨_, _, _, _, _, _, rfl, ?_⟩, ?_⟩
  · intro event hevent
    rcases List.mem_append.1 hevent with hevent | hevent
    · exact (List.mem_append.1 hevent).elim (hprocesses.inner event) (hframe event)
    · obtain ⟨stat, rfl⟩ := hmem event hevent
      rfl
  · have hlast : ExeFirst (mem ++ [.obsEnd time scanId warnings]) := by
      refine exeFirst_of_no_maps fun p m hm => ?_
      rcases List.mem_append.1 hm with hm | hm
      · obtain ⟨stat, hstat⟩ := hmem _ hm
        exact absurd hstat (by simp)
      · exact absurd hm (by simp)
    rw [List.cons_append, List.append_assoc]
    exact exeFirst_append (a := [_]) (exeFirst_of_no_maps (by simp))
      (exeFirst_append (exeFirst_append hprocesses.exeFirst hfirst) hlast)

/-- An ordered stream keeps the contract when the drained events name sanitized paths. -/
theorem contract_stream_iff (hprocesses : ProcfsScanner.ProcessPart processes)
    (hmem : ∀ event ∈ mem, ∃ stat, event = .memStat stat)
    (hordered : Observation.Ordered (.obsBegin time scanId :: (processes ++ drained ++ mem) ++
      [.obsEnd time scanId warnings])) :
    ObservationContract (.obsBegin time scanId :: (processes ++ drained ++ mem) ++
      [.obsEnd time scanId warnings]) ↔ SanitizedPaths drained := by
  have hmemPaths : SanitizedPaths mem := by
    refine sanitizedPaths_of_no_paths (fun p pid hp => ?_) fun p m hm => ?_
    · obtain ⟨stat, hstat⟩ := hmem _ hp
      exact absurd hstat (by simp)
    · obtain ⟨stat, hstat⟩ := hmem _ hm
      exact absurd hstat (by simp)
  have hpaths : SanitizedPaths (.obsBegin time scanId :: (processes ++ drained ++ mem) ++
      [.obsEnd time scanId warnings]) ↔ SanitizedPaths drained := by
    rw [sanitizedPaths_append, ← List.singleton_append, sanitizedPaths_append,
      sanitizedPaths_append, sanitizedPaths_append]
    constructor
    · exact fun h => h.1.2.1.2
    · exact fun h => ⟨⟨sanitizedPaths_of_no_paths (by simp) (by simp),
        ⟨hprocesses.toSanitizedPaths, h⟩, hmemPaths⟩,
        sanitizedPaths_of_no_paths (by simp) (by simp)⟩
  exact ⟨fun h => hpaths.1 h.toSanitizedPaths, fun h => ⟨hordered, hpaths.2 h⟩⟩

end Stream

/-! ## Every scan of every run -/

/-- What the reader put in the buffer since the last drain is sanitized. -/
def SanitizedEvents (selfPid : Int32) (events : List OpenEvent) : Prop :=
  ∀ event ∈ events, ∀ exePath filePath file,
    event.accepted selfPid = some (exePath, filePath, file) →
      Sanitized exePath ∧ Sanitized filePath

/-- The drained paths are those of the events that the buffer holds. -/
theorem sanitizedPaths_drain_iff {selfPid : Int32} {events : List OpenEvent} {buffer : EventBuffer}
    (h : buffer.Holds selfPid events) (ord : HashOrder) (time : UInt64) :
    SanitizedPaths (buffer.drain ord time) ↔ SanitizedEvents selfPid events := by
  constructor
  · intro hpaths event hevent exePath filePath file haccepted
    obtain ⟨m, hm, rfl⟩ := ProcfsScanner.mapSeen_drain ord time
      ((h.maps exePath filePath).2 ⟨event, hevent, file, haccepted⟩)
    exact hpaths.mapPaths exePath m hm
  · intro hclean
    refine ⟨fun p pid hp => ?_, fun p m hm => ?_⟩
    · obtain ⟨event, hevent, f, file, haccepted⟩ :=
        (h.exes p).1 (ProcfsScanner.exeSeen_mem_drain hp)
      exact (hclean event hevent p f file haccepted).1
    · obtain ⟨event, hevent, file, haccepted⟩ :=
        (h.maps p m.path).1 (ProcfsScanner.mapSeen_mem_drain hm)
      exact hclean event hevent p m.path file haccepted

namespace WatchedScanner

variable (selfPid : Int32) (watching : Bool) (past : List WatchedOp)

theorem clean_run : (run selfPid watching past).scanner.Clean := by
  induction past using List.reverseRecOn with
  | nil => exact fun pid cached h => absurd h (by simp [run, new, ProcfsScanner.new])
  | append_singleton past op ih =>
      rw [run_concat]
      cases op with
      | opened event => exact ih
      | scan input => exact ProcfsScanner.clean_scan ih _

theorem isSome_buffer_run : (run selfPid watching past).buffer.isSome = watching := by
  induction past using List.reverseRecOn with
  | nil => cases watching <;> rfl
  | append_singleton past op ih =>
      rw [run_concat]
      cases op with
      | opened event => simpa [exec] using ih
      | scan input =>
          unfold exec
          cases hlist : input.allProcesses with
          | error message =>
              simp only [hlist]
              exact ih
          | ok table => simpa [hlist] using ih

/-- A scan without a watcher drains nothing; one with a watcher drains what the reader collected. -/
theorem drained_cases (input : ScanInput) :
    (watching = false ∧
      ProcfsScanner.drained ((run selfPid watching past).input input) = []) ∨
    ∃ buffer : EventBuffer, watching = true ∧ buffer.Holds selfPid (pendingEvents past) ∧
      ProcfsScanner.drained ((run selfPid watching past).input input) =
        buffer.drain input.drainOrder input.time := by
  have hwatching := isSome_buffer_run selfPid watching past
  unfold ProcfsScanner.drained WatchedScanner.input
  cases hbuffer : (run selfPid watching past).buffer with
  | none =>
      rw [hbuffer] at hwatching
      exact Or.inl ⟨hwatching.symm, rfl⟩
  | some buffer =>
      rw [hbuffer] at hwatching
      exact Or.inr ⟨buffer, hwatching.symm, holds_run selfPid watching past buffer hbuffer, rfl⟩

/-- Every scan of every run is ordered; it keeps the contract exactly when the links that the reader
    collected since the last drain are sanitized. -/
theorem contract_iff (input : ScanInput) (obs : Observation)
    (h : (run selfPid watching past).observe input = .ok obs) :
    obs.Ordered ∧ (ObservationContract obs ↔
      (watching = true → SanitizedEvents selfPid (pendingEvents past))) := by
  obtain ⟨mem, warnings, rfl, hmem⟩ := ProcfsScanner.scan_events h
  have hprocesses := ProcfsScanner.processPart_scan (clean_run selfPid watching past)
    ((run selfPid watching past).input input)
  rcases drained_cases selfPid watching past input with
    ⟨rfl, hdrained⟩ | ⟨buffer, rfl, hholds, hdrained⟩
  · rw [hdrained]
    have hfirst : ExeFirst [] := exeFirst_of_no_maps (by simp)
    have hframe : ∀ event ∈ ([] : List ObservationEvent), event.isFrame = false := by simp
    have hord := ordered_stream input.time input.scanId warnings hprocesses hfirst hframe hmem
    refine ⟨hord, iff_of_true ((contract_stream_iff hprocesses hmem hord).2 ?_) (by simp)⟩
    exact ⟨by simp, by simp⟩
  · rw [hdrained]
    have hord := ordered_stream input.time input.scanId warnings hprocesses
      (ProcfsScanner.exeFirst_drain hholds input.drainOrder input.time)
      (ProcfsScanner.isFrame_drain input.drainOrder input.time) hmem
    refine ⟨hord, (contract_stream_iff hprocesses hmem hord).trans ?_⟩
    rw [sanitizedPaths_drain_iff hholds]
    exact ⟨fun hclean _ => hclean, fun hclean => hclean rfl⟩

theorem eq_ok_of_toOption {ε α : Type} {x : Except ε α} {a : α} (h : x.toOption = some a) :
    x = .ok a := by
  cases x with
  | error err => cases h
  | ok b => exact congrArg _ (Option.some.inj h)

/-- A process whose executable link is `exe` opens a library. -/
def openBy (exe : String) : OpenEvent where
  fd := some (.ok (RawPath.ofString "/usr/lib/libfoo.so"))
  pid := 42
  metadata := .ok ⟨true, 4096, 1, 7⟩
  exe := .ok (RawPath.ofString exe)

/-- A scan that finds no process. -/
def emptyScan : ScanInput :=
  ⟨1, 1, .ok ⟨[], List.nodup_nil⟩, none, HashOrder.insertion, .error ""⟩

theorem accepted_openBy (exe : String) :
    (openBy exe).accepted 1 =
      some (Path.ofString exe, Path.ofString "/usr/lib/libfoo.so", ⟨4096, 1, 7⟩) := by
  have hpid : ¬ ((42 : Int32) = 1 ∨ (42 : Int32) ≤ 0) := by decide
  have htext : (RawPath.ofString "/usr/lib/libfoo.so").toStr = some "/usr/lib/libfoo.so" :=
    RawPath.toStr_ofString _
  have hskip : SKIP_PREFIXES.any (fun skipped =>
      skipped.toList.isPrefixOf "/usr/lib/libfoo.so".toList) = false := by decide
  have hfile : ¬ ((!true) = true ∨ (4096 : UInt64) = 0) := by decide
  unfold OpenEvent.accepted openBy
  simp only [Except.toOption, Option.bind_eq_bind, Option.bind_some, if_neg hpid, htext]
  rw [hskip]
  simp only [if_neg hfile]
  rfl

/-- A scan that finds a tool with a library. -/
def toolScan : ScanInput :=
  { emptyScan with
    allProcesses := .ok
      ⟨[.ok ⟨7, .ok 100, .ok (RawPath.ofString "/usr/bin/tool"),
        .ok [⟨(0, 200000), 0, (8, 1), 5, .path (RawPath.ofString "/usr/lib/libtool.so")⟩]⟩],
        by decide⟩ }

def toolMap : MapSegment :=
  { MapSegment.new (Path.ofString "/usr/lib/libtool.so") 0 200000 1 with device := 8388609, inode := 5 }

/-- One open is collected before a scan that lists a process with a map. -/
theorem contract_iff_one_open :
    ∃ obs, (run 1 true [.opened (openBy "/usr/bin/foo")]).observe toolScan = .ok obs ∧
      .exeSeen (Path.ofString "/usr/bin/foo") 42 ∈ obs ∧
      .mapSeen (Path.ofString "/usr/bin/tool") toolMap ∈ obs ∧ obs.Ordered ∧
      ObservationContract obs := by
  have hscan : ((run 1 true [.opened (openBy "/usr/bin/foo")]).observe toolScan).toOption.any
      (fun obs => decide (.exeSeen (Path.ofString "/usr/bin/foo") 42 ∈ obs) &&
        decide (.mapSeen (Path.ofString "/usr/bin/tool") toolMap ∈ obs)) = true := by
    decide +kernel
  obtain ⟨obs, hobs, hboth⟩ := (Option.any_eq_true _ _).1 hscan
  obtain ⟨hexe, hmap⟩ := (Bool.and_eq_true _ _).mp hboth
  have hok := eq_ok_of_toOption hobs
  obtain ⟨hord, hcontract⟩ := contract_iff 1 true [.opened (openBy "/usr/bin/foo")] toolScan obs hok
  refine ⟨obs, hok, of_decide_eq_true hexe, of_decide_eq_true hmap, hord, hcontract.2 ?_⟩
  intro _ event hevent exePath filePath file haccepted
  obtain rfl : event = openBy "/usr/bin/foo" := List.mem_singleton.1 hevent
  rw [accepted_openBy] at haccepted
  obtain ⟨rfl, rfl, rfl⟩ := Option.some.inj haccepted
  have hexe : sanitizePath (RawPath.ofString "/usr/bin/foo") = some (Path.ofString "/usr/bin/foo") := by
    decide +kernel
  have hfile : sanitizePath (RawPath.ofString "/usr/lib/libfoo.so") =
      some (Path.ofString "/usr/lib/libfoo.so") := by
    decide +kernel
  exact ⟨sanitized_of_sanitizePath hexe, sanitized_of_sanitizePath hfile⟩

/-- A process whose program was deleted opens a file: the scan names the program as the kernel marks
    it. -/
theorem contract_broken_by_deleted_exe :
    ¬ ∀ past input obs, (run 1 true past).observe input = .ok obs → ObservationContract obs := by
  intro hall
  have hscan : ((run 1 true [.opened (openBy "/usr/bin/foo (deleted)")]).observe
      emptyScan).toOption.any (fun obs =>
        decide (.exeSeen (Path.ofString "/usr/bin/foo (deleted)") 42 ∈ obs)) = true := by
    decide +kernel
  obtain ⟨obs, hobs, hmem⟩ := (Option.any_eq_true _ _).1 hscan
  have hcontract := hall _ emptyScan obs (eq_ok_of_toOption hobs)
  obtain ⟨s, hs, hdeleted, -⟩ := (hcontract.exePaths _ 42 (of_decide_eq_true hmem)).text
  rw [Path.toStr_ofString] at hs
  obtain rfl := Option.some.inj hs
  rw [String.toList_ofList] at hdeleted
  exact hdeleted (by decide)

end WatchedScanner

end PreloadNg
