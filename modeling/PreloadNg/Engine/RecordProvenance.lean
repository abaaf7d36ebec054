import PreloadNg.Engine.IdleRuns
import PreloadNg.Engine.WatchedDaemon
import PreloadNg.Observation.ObservationContract
import PreloadNg.Observation.Provenance
import PreloadNg.Prefetch.Prefetcher

set_option autoImplicit false

/-! # Where the records come from

Records pass through caches, buffers, stores, the database and the stores of later processes. Each
of them was shown to some process of the run, by `/proc` or by an opened file, and was let in by a
configuration that the run had loaded. -/

namespace PreloadNg

variable {F16 F32 F64 : Type}

/-! ## The history -/

/-- The processes that a tick lists. -/
def ScanTickInput.listed (input : ScanTickInput) : List Process :=
  match input.allProcesses with
  | .error _ => []
  | .ok table => table.entries.filterMap Except.toOption

namespace WatchedHostOp

def listed : WatchedHostOp F32 → List Process
  | .beginTick input => input.listed
  | _ => []

def openEvents : WatchedHostOp F32 → List OpenEvent
  | .opened event => [event]
  | _ => []

/-- The configuration that is loaded at the start or for a reload. -/
def loaded : WatchedHostOp F32 → Option (Settings F32)
  | .start config _ _ _ => some config
  | .other (.sighup config _) => config
  | _ => none

end WatchedHostOp

/-- What the operations showed. -/
def shownBy (ops : List (WatchedHostOp F32)) : Evidence where
  processes := ops.flatMap WatchedHostOp.listed
  events := ops.flatMap WatchedHostOp.openEvents

def loadedBy (ops : List (WatchedHostOp F32)) : List (Settings F32) :=
  ops.filterMap WatchedHostOp.loaded

theorem shownBy_within (ops : List (WatchedHostOp F32)) (op : WatchedHostOp F32) :
    (shownBy ops).Within (shownBy (ops ++ [op])) where
  processes _ h := by
    simp only [shownBy, List.flatMap_append]
    exact List.mem_append_left _ h
  events _ h := by
    simp only [shownBy, List.flatMap_append]
    exact List.mem_append_left _ h

theorem mem_processes_shownBy {ops : List (WatchedHostOp F32)} {op : WatchedHostOp F32}
    {process : Process} (h : process ∈ op.listed) :
    process ∈ (shownBy (ops ++ [op])).processes :=
  List.mem_flatMap.2 ⟨op, List.mem_append_right _ (List.mem_singleton_self op), h⟩

theorem mem_events_shownBy {ops : List (WatchedHostOp F32)} {op : WatchedHostOp F32}
    {event : OpenEvent} (h : event ∈ op.openEvents) :
    event ∈ (shownBy (ops ++ [op])).events :=
  List.mem_flatMap.2 ⟨op, List.mem_append_right _ (List.mem_singleton_self op), h⟩

theorem loadedBy_subset (ops : List (WatchedHostOp F32)) (op : WatchedHostOp F32) :
    loadedBy ops ⊆ loadedBy (ops ++ [op]) := by
  rw [loadedBy, loadedBy, List.filterMap_append]
  exact List.subset_append_left _ _

theorem mem_loadedBy {ops : List (WatchedHostOp F32)} {op : WatchedHostOp F32}
    {config : Settings F32} (h : op.loaded = some config) : config ∈ loadedBy (ops ++ [op]) :=
  List.mem_filterMap.2 ⟨op, List.mem_append_right _ (List.mem_singleton_self op), h⟩

/-! ## What is known of stores -/

/-- Whether the policy of a configuration lets an executable in. -/
def Settings.allowsExe (config : Settings F32) (path : Path) : Bool :=
  (DefaultAdmissionPolicy.new config.policy).allowExe path

/-- One process was shown with the program and, maybe in another listing, with the range of the file;
    and one of the configurations lets both in. -/
structure Attested (E : Evidence) (configs : List (Settings F32)) (p : Path) (key : MapKey) :
    Prop where
  shown : E.ShowsMap p key
  allowed : ∃ config ∈ configs, config.allowsExe p = true ∧ config.allowsMap key.path = true

/-- Every record was shown and let in. -/
structure Stores.KnownFrom (E : Evidence) (configs : List (Settings F32)) (s : Stores F16) :
    Prop where
  exes : ∀ p, (s.exeAt p).isSome →
    E.ShowsExe p ∧ ∃ config ∈ configs, config.allowsExe p = true
  maps : ∀ key, (s.mapAt key).isSome → ∃ p, Attested E configs p key
  rel : ∀ p key, s.relAt p key → Attested E configs p key

section Known

variable {E E' : Evidence} {configs configs' : List (Settings F32)} {s t : Stores F16}

theorem Attested.mono {p : Path} {key : MapKey} (h : Attested E configs p key)
    (hsub : E.Within E') (hconfigs : configs ⊆ configs') : Attested E' configs' p key where
  shown := h.shown.mono hsub
  allowed := by
    obtain ⟨config, hmem, hallowed⟩ := h.allowed
    exact ⟨config, hconfigs hmem, hallowed⟩

namespace Stores.KnownFrom

theorem mono (h : s.KnownFrom E configs) (hsub : E.Within E') (hconfigs : configs ⊆ configs') :
    s.KnownFrom E' configs' where
  exes p hp := by
    obtain ⟨hshown, config, hmem, hallowed⟩ := h.exes p hp
    exact ⟨hshown.mono hsub, config, hconfigs hmem, hallowed⟩
  maps key hkey := by
    obtain ⟨p, hp⟩ := h.maps key hkey
    exact ⟨p, hp.mono hsub hconfigs⟩
  rel p key hrel := (h.rel p key hrel).mono hsub hconfigs

theorem empty (E : Evidence) (configs : List (Settings F32)) :
    (∅ : Stores F16).KnownFrom E configs where
  exes p hp := by cases hp
  maps key hkey := by cases hkey
  rel p key hrel := by
    obtain ⟨e, m, he, -⟩ := hrel
    cases he

/-- Records that are left were there before. -/
theorem of_le (h : s.KnownFrom E configs) (hexes : ∀ p, (t.exeAt p).isSome → (s.exeAt p).isSome)
    (hmaps : ∀ key, (t.mapAt key).isSome → (s.mapAt key).isSome)
    (hrel : ∀ p key, t.relAt p key → s.relAt p key) : t.KnownFrom E configs where
  exes p hp := h.exes p (hexes p hp)
  maps key hkey := h.maps key (hmaps key hkey)
  rel p key hpk := h.rel p key (hrel p key hpk)

theorem removeMaps (h : s.KnownFrom E configs) (hs : s.WF) (keys : List MapKey)
    (cycle : UInt64) :
    ((keys.foldl Stores.removeMapByKey s).advance cycle).KnownFrom E configs := by
  have hpurged := purged_removeMaps hs keys
  refine h.of_le (fun p hp => ?_) (fun key hkey => ?_) fun p key hrel => ?_
  · change ((keys.foldl Stores.removeMapByKey s).exeAt p).isSome at hp
    rwa [Stores.exeAt, hpurged.exes] at hp
  · change ((keys.foldl Stores.removeMapByKey s).mapAt key).isSome at hkey
    rw [hpurged.mapAt] at hkey
    exact Option.isSome_of_isSome_filter _ _ hkey
  · exact ((hpurged.relAt p key).1 hrel).1

variable [Float32Ops F32] {num : Numerics F16 F32}

theorem restored (h : s.KnownFrom E configs) (hs : s.WF) {config : Settings F32}
    (ht : RestoredUnder num config s t) : t.KnownFrom E configs := by
  have hkept := keptThrough_restored hs ht
  refine h.of_le (fun p hp => ?_) (fun key hkey => ?_) fun p key hrel => ?_
  · rwa [hkept.exeAt, Option.isSome_map] at hp
  · rw [hkept.mapAt, Option.isSome_map] at hkey
    exact Option.isSome_of_isSome_filter _ _ hkey
  · exact ((hkept.relAt p key).1 hrel).1

/-- What an observation adds was shown, and the policy lets it in. -/
theorem apply (h : s.KnownFrom E configs) (hs : s.WF) {obs : Observation}
    (hobs : ∀ event ∈ obs, event.From E) {config : Settings F32} (hconfig : config ∈ configs)
    (u : DefaultModelUpdater F32) (ord : HashOrder) (cached : Path → Option RejectReason) :
    (u.apply num ord s obs
      ((DefaultAdmissionPolicy.new config.policy).toPolicy cached)).1.KnownFrom E configs := by
  have hspec := apply_spec num u ord s obs
    ((DefaultAdmissionPolicy.new config.policy).toPolicy cached)
  -- a program is admitted on an event of its own, by the rules in force
  have hadmits : ∀ p, Admits ((DefaultAdmissionPolicy.new config.policy).toPolicy cached) obs
      s.modelTime p → E.ShowsExe p ∧ config.allowsExe p = true := by
    rintro p ⟨c, hc, completeness, haccept⟩
    have hcandidate := candidateOf_collect _ _ obs hc
    have hallowed : config.allowsExe c.path = true :=
      DefaultAdmissionPolicy.allowExe_of_accept haccept
    rw [hcandidate.path_eq] at hallowed
    refine ⟨?_, hallowed⟩
    rcases hcandidate.seen with ⟨pid, hseen⟩ | ⟨m, hseen⟩
    · exact hobs _ hseen
    · exact (hobs _ hseen).showsExe
  have hmap : ∀ p m, Admits ((DefaultAdmissionPolicy.new config.policy).toPolicy cached) obs
      s.modelTime p → .mapSeen p m ∈ obs → config.allowsMap m.path = true →
        Attested E configs p m.key := by
    intro p m hp hseen hallowed
    exact ⟨hobs _ hseen, config, hconfig, (hadmits p hp).2, hallowed⟩
  constructor
  · intro p hp
    rw [hspec.exeAt, Option.isSome_map] at hp
    by_cases hnew : Admits ((DefaultAdmissionPolicy.new config.policy).toPolicy cached) obs
        s.modelTime p
    · exact ⟨(hadmits p hnew).1, config, hconfig, (hadmits p hnew).2⟩
    · rw [if_neg hnew] at hp
      exact h.exes p hp
  · intro key hkey
    by_cases hold : (s.mapAt key).isSome
    · exact h.maps key hold
    -- a map that was not stored comes with a program that is admitted
    · have hnew : ¬∀ m, AdmittedMap ((DefaultAdmissionPolicy.new config.policy).toPolicy cached)
          obs s.modelTime m → m.key ≠ key := by
        intro hnone
        rw [(hspec.mapAt_eq_none key).2 ⟨by simpa using hold, hnone⟩] at hkey
        cases hkey
      push Not at hnew
      obtain ⟨m, ⟨p, hp, hseen, hallowed⟩, rfl⟩ := hnew
      exact ⟨p, hmap p m hp hseen hallowed⟩
  · intro p key hrel
    rcases (hspec.relAt hs p key).1 hrel with hold | ⟨hp, m, hseen, hallowed, rfl⟩
    · exact h.rel p key hold
    · exact hmap p m hp hseen hallowed

end Stores.KnownFrom

end Known

/-! ## One step -/

section Steps

variable [Float32Ops F32] {num : Numerics F16 F32} {enc : Encoding F32 F64} {ln2 : F32}
  {E : Evidence} {configs configs' : List (Settings F32)} {h h' : Host F16 F32 F64}
  {d d' : Daemon F16 F32}

/-- The services, and those that wait in the queue, are built from some of the configurations. -/
structure Daemon.ServedBy (ln2 : F32) (configs : List (Settings F32)) (d : Daemon F16 F32) :
    Prop where
  services : ∃ config ∈ configs, ∃ features noPrefetch,
    d.services = (buildReloadBundle ln2 features config noPrefetch).services
  waiting : d.Running → ∀ bundle, .reload bundle ∈ d.control →
    ∃ config ∈ configs, ∃ features noPrefetch,
      bundle = buildReloadBundle ln2 features config noPrefetch

theorem Daemon.ServedBy.mono (hserved : d.ServedBy ln2 configs) (hsub : configs ⊆ configs') :
    d.ServedBy ln2 configs' where
  services := by
    obtain ⟨config, hconfig, hsame⟩ := hserved.services
    exact ⟨config, hsub hconfig, hsame⟩
  waiting hrunning bundle hmem := by
    obtain ⟨config, hconfig, hbundle⟩ := hserved.waiting hrunning bundle hmem
    exact ⟨config, hsub hconfig, hbundle⟩

theorem servedBy_step {op : HostOp F32} (hserved : d.ServedBy ln2 configs)
    (hloaded : ∀ config features, op = .sighup (some config) features → config ∈ configs)
    (hstep : SignalStep ln2 d op d') : d'.ServedBy ln2 configs := by
  cases hop : op.isControl with
  | true =>
      obtain ⟨event, hrunning, hqueue, -, hnew⟩ := hstep.handled hop
      constructor
      · rcases hnew with ⟨bundle, rfl, hbundle⟩ | ⟨-, hkept⟩
        · obtain ⟨config, hconfig, features, noPrefetch, rfl⟩ :=
            hserved.waiting hrunning bundle (hqueue ▸ List.mem_cons_self)
          exact ⟨config, hconfig, features, noPrefetch, hbundle⟩
        · rw [hkept]
          exact hserved.services
      · intro _ bundle hmem
        exact hserved.waiting hrunning bundle (hqueue ▸ List.mem_cons_of_mem _ hmem)
  | false =>
      obtain ⟨-, hkept, hqueue⟩ := hstep.kept hop
      refine ⟨by rw [hkept]; exact hserved.services, fun hrunning bundle hmem => ?_⟩
      obtain ⟨hbefore, hcontrol⟩ := hqueue hrunning
      rw [hcontrol, List.mem_append, Option.mem_toList] at hmem
      rcases hmem with hmem | hsent
      · exact hserved.waiting hbefore bundle hmem
      · obtain ⟨config, features, heq, hbundle⟩ := sighup_of_event hsent
        exact ⟨config, hloaded config features heq, features, _, hbundle⟩

theorem servedBy_start {config : Settings F32} {launch : Launch} (hmem : config ∈ configs)
    (hstep : HostStep num enc ln2 h (.start config launch) h') (hd' : h'.daemon = some d') :
    d'.ServedBy ln2 configs := by
  have hsignals := signalsHandled_start hstep hd'
  constructor
  · obtain ⟨features, -, hservices⟩ := hsignals.services
    refine ⟨config, hmem, features, launch.noPrefetch, ?_⟩
    rw [hservices, hsignals.config]
    rfl
  · intro hrunning bundle hwaits
    rw [hsignals.waiting hrunning] at hwaits
    exact absurd hwaits List.not_mem_nil

/-- A step of the host keeps what is known, if the observation that it applies was shown. -/
theorem knownFrom_step (henc : enc.RoundTrips) {now : ℕ} {op : HostOp F32}
    (hr : Reachable (HostStep num enc ln2) (Host.initial F16 F32 F64 now) h)
    (hknown : h.Holds num enc (fun _ => True) (Stores.KnownFrom E configs))
    (hstep : HostStep num enc ln2 h op h')
    (hserved : ∀ d, h.daemon = some d → d.ServedBy ln2 configs)
    (hshown : ∀ input obs d, op = .beginTick input → input.scan = .ok obs → h.daemon = some d →
      d.config.system.doscan = true → ∀ event ∈ obs, event.From E) :
    h'.Holds num enc (fun _ => True) (Stores.KnownFrom E configs) := by
  refine holds_step henc hr hknown hstep (fun _ _ _ _ _ _ hs hfrom ht => hfrom.restored hs ht) ?_
  intro d s' hd hs hlive hwork
  cases hwork with
  | applies hscan hobs hstores =>
      obtain ⟨config, hconfig, _, _, hservices⟩ := (hserved d hd).services
      rw [hstores, hservices]
      exact hlive.apply hs (hshown _ _ d rfl hobs hd hscan) hconfig _ _ _
  | advances keys hstores =>
      rw [hstores]
      exact hlive.removeMaps hs keys _

end Steps

/-! ## Runs -/

section Runs

variable [Float32Ops F32] {num : Numerics F16 F32} {enc : Encoding F32 F64} {ln2 : F32}
  {ops : List (WatchedHostOp F32)} {w w' : WatchedHost F16 F32 F64} {op : WatchedHostOp F32}

/-- What the operations of a run account for. -/
structure WatchedHost.Accounted (num : Numerics F16 F32) (enc : Encoding F32 F64) (ln2 : F32)
    (ops : List (WatchedHostOp F32)) (w : WatchedHost F16 F32 F64) : Prop where
  scanner : w.scanner.From (shownBy ops)
  served : ∀ d, w.host.daemon = some d → d.ServedBy ln2 (loadedBy ops)
  known : w.host.Holds num enc (fun _ => True) (Stores.KnownFrom (shownBy ops) (loadedBy ops))

theorem scanner_from_step (h : w.scanner.From (shownBy ops))
    (hchange : WatchedChange num enc ln2 w op w') :
    w'.scanner.From (shownBy (ops ++ [op])) := by
  have hold := h.mono (shownBy_within ops op)
  cases hchange with
  | starts _ => exact WatchedScanner.from_new _ _
  | opens =>
      exact WatchedScanner.from_exec_opened hold _ (mem_events_shownBy (List.mem_singleton_self _))
  | @scans input d host hd _ =>
      refine WatchedScanner.from_exec_scan hold w.selfPid fun process hmem => ?_
      have hlisted : process ∈ (WatchedHostOp.beginTick input : WatchedHostOp F32).listed := hmem
      exact mem_processes_shownBy hlisted
  | blind _ _ => exact hold
  | others _ _ _ => exact hold

theorem served_step (h : ∀ d, w.host.daemon = some d → d.ServedBy ln2 (loadedBy ops))
    (hchange : WatchedChange num enc ln2 w op w') :
    ∀ d, w'.host.daemon = some d → d.ServedBy ln2 (loadedBy (ops ++ [op])) := by
  have hnext : ∀ hop host, NoStart num enc ln2 w.host hop host →
      (∀ config features, hop = .sighup (some config) features → config ∈ loadedBy (ops ++ [op])) →
        ∀ d, host.daemon = some d → d.ServedBy ln2 (loadedBy (ops ++ [op])) := by
    intro hop host hstep hloaded d' hd'
    obtain ⟨d, hd, hsignal⟩ := signalStep_of_step hstep hd'
    exact servedBy_step ((h d hd).mono (loadedBy_subset ops op)) hloaded hsignal
  intro d' hd'
  cases hchange with
  | starts hstep => exact servedBy_start (mem_loadedBy rfl) hstep hd'
  | opens => exact (h d' hd').mono (loadedBy_subset ops _)
  | scans hd hstep =>
      exact hnext _ _ ⟨hstep, fun _ _ heq => by cases heq⟩ (fun _ _ heq => by cases heq) d' hd'
  | blind _ hstep =>
      exact hnext _ _ ⟨hstep, fun _ _ heq => by cases heq⟩ (fun _ _ heq => by cases heq) d' hd'
  | others hnostart _ hstep =>
      refine hnext _ _ ⟨hstep, hnostart⟩ (fun config features heq => ?_) d' hd'
      subst heq
      exact mem_loadedBy rfl

theorem known_step (henc : enc.RoundTrips) {now : ℕ}
    (hr : Reachable (WatchedHostStep num enc ln2) (WatchedHost.initial F16 F32 F64 now) w)
    (h : w.Accounted num enc ln2 ops) (hchange : WatchedChange num enc ln2 w op w') :
    w'.host.Holds num enc (fun _ => True)
      (Stores.KnownFrom (shownBy (ops ++ [op])) (loadedBy (ops ++ [op]))) := by
  have hhost := host_reachable hr
  have hold := h.known.mono fun _ hs => hs.mono (shownBy_within ops op) (loadedBy_subset ops op)
  have hserved : ∀ d, w.host.daemon = some d → d.ServedBy ln2 (loadedBy (ops ++ [op])) :=
    fun d hd => (h.served d hd).mono (loadedBy_subset ops op)
  cases hchange with
  | starts hstep =>
      exact knownFrom_step henc hhost hold hstep hserved fun _ _ _ heq => by cases heq
  | opens => exact hold
  | @scans input d host hd hstep =>
      refine knownFrom_step henc hhost hold hstep hserved ?_
      rintro input' obs d' heq hobs hd' -
      obtain rfl := HostOp.beginTick.inj heq
      -- the observation is the report of the scanner
      have hreport : w.scanner.observe (input.scanInput d) = .ok obs := hobs
      have hfrom := h.scanner.mono (shownBy_within ops (.beginTick input))
      refine WatchedScanner.from_observe hfrom (fun process hmem => ?_) hreport
      have hlisted : process ∈ (WatchedHostOp.beginTick input : WatchedHostOp F32).listed := hmem
      exact mem_processes_shownBy hlisted
  | blind hblind hstep =>
      refine knownFrom_step henc hhost hold hstep hserved ?_
      rintro input obs d heq - hd hscan
      rw [hblind input heq d hd] at hscan
      cases hscan
  | others _ hnotick hstep =>
      refine knownFrom_step henc hhost hold hstep hserved ?_
      intro input _ _ heq
      exact absurd heq (hnotick input)

theorem accounted_of_run (henc : enc.RoundTrips) {now : ℕ}
    (hrun : Run (WatchedHostStep num enc ln2) (WatchedHost.initial F16 F32 F64 now) ops w) :
    w.Accounted num enc ln2 ops := by
  refine hrun.invariant_of
    (J := Reachable (WatchedHostStep num enc ln2) (WatchedHost.initial F16 F32 F64 now))
    (I := WatchedHost.Accounted num enc ln2) (fun _ hr => hr) ?_ ?_
  · exact ⟨WatchedScanner.from_new _ _, fun d hd => (by cases hd),
      holds_initial (Stores.KnownFrom.empty _ _) now⟩
  · intro ops w op w' hr ih hstep
    have hchange := watchedChange_of_step hstep
    exact ⟨scanner_from_step ih.scanner hchange, served_step ih.served hchange,
      known_step henc hr ih hchange⟩

end Runs

/-- Nothing is invented: in every run, whatever is cached, buffered, saved and restored in it, each
    record was shown and let in by a configuration loaded before, and so was everything that a plan can
    have prefetched. The link and a map of a process may be from two listings of it, so that a map of
    the program that it runs by now is recorded for the first one. -/
theorem records_were_shown [Float32Ops F32] {num : Numerics F16 F32} {enc : Encoding F32 F64}
    {ln2 : F32} (henc : enc.RoundTrips) {now : ℕ} {ops : List (WatchedHostOp F32)}
    {w : WatchedHost F16 F32 F64} {d : Daemon F16 F32}
    (hrun : Run (WatchedHostStep num enc ln2) (WatchedHost.initial F16 F32 F64 now) ops w)
    (hd : w.host.daemon = some d) :
    d.stores.KnownFrom (shownBy ops) (loadedBy ops) ∧
      ∀ plan, ∀ task ∈ prefetchTasks plan d.stores,
        ∃ p, Attested (shownBy ops) (loadedBy ops) p task.mapKey := by
  have hknown := (accounted_of_run henc hrun).known.live d hd trivial
  refine ⟨hknown, fun plan task htask => ?_⟩
  obtain ⟨id, -, hid⟩ := List.mem_filterMap.1 htask
  obtain ⟨m, hm, rfl⟩ := Option.map_eq_some_iff.1 hid
  refine hknown.maps m.key (Option.isSome_iff_exists.2 ⟨m, ?_⟩)
  exact Stores.mapAt_eq_some.2 ⟨id, hm, rfl⟩

/-- A tool that has one library mapped opens another one. A tick stores both; they are saved on demand,
    and after a kill the next process has both. -/
theorem records_were_shown_tool :
    let tool : Process :=
      ⟨7, .ok 100, .ok (RawPath.ofString "/usr/bin/tool"),
        .ok [⟨(0, 200000), 0, (8, 1), 5, .path (RawPath.ofString "/usr/lib/libtool.so")⟩]⟩
    let table : ProcessTable := ⟨[.ok tool], by decide⟩
    let config : Settings ℚ := .stateful "/a.db"
    let ops : List (WatchedHostOp ℚ) :=
      [.start config .plain 1 true, .opened (WatchedScanner.openBy "/usr/bin/tool"),
        .beginTick ⟨.ok table, .error "", .insertion, fun _ => none, .insertion, .insertion,
          .insertion⟩,
        .other .sigusr2, .other (.control ⟨.insertion, 0, none, 1⟩), .other .kill,
        .start config .plain 1 false]
    ∃ (w : WatchedHost ℚ ℚ ℚ) (d : Daemon ℚ ℚ), w.host.daemon = some d ∧
      d.stores.maps.ids.length = 2 ∧ d.stores.KnownFrom (shownBy ops) (loadedBy ops) ∧
      ∀ plan, ∀ task ∈ prefetchTasks plan d.stores,
        ∃ p, Attested (shownBy ops) (loadedBy ops) p task.mapKey := by
  intro tool table config ops
  have hany : ((WatchedHost.initial ℚ ℚ ℚ 0).execAll Numerics.rational Encoding.rational 1 ops).any
      (fun w => w.host.daemon.any fun d => decide (d.stores.maps.ids.length = 2)) = true := by
    decide +kernel
  obtain ⟨w, hexec, hlast⟩ := (Option.any_eq_true _ _).1 hany
  obtain ⟨d, hd, hlength⟩ := (Option.any_eq_true _ _).1 hlast
  exact ⟨w, d, hd, of_decide_eq_true hlength,
    records_were_shown Encoding.roundTrips_rational (run_of_watchedExecAll _ _ _ hexec) hd⟩

end PreloadNg
