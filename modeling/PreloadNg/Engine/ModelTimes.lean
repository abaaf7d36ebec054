import PreloadNg.Engine.CorrelationRuns
import PreloadNg.Engine.Purge
import PreloadNg.Engine.WatchedDaemon
import PreloadNg.Observation.MapFreshness

set_option autoImplicit false

/-! # Model times

The model time of a process counts its cycles, and every time in the stores was once the model time
of some process. The updater and the predictor subtract stored times from it. None of them lies
ahead, so that no difference is cut off at zero. -/

namespace PreloadNg

variable {F16 F32 F64 : Type}

/-! ## Stored times -/

/-- The pair was left and changed no later than at `now`. -/
structure Edge.Past (now : UInt64) (e : Edge F16) : Prop where
  changed : e.lastChangeTime ≤ now
  left : ∀ i, e.stateLastLeft i ≤ e.lastChangeTime

/-- Nothing that is stored happened after `now`. -/
structure Exe.Past (now : UInt64) (e : Exe) : Prop where
  seen : ∀ last, e.lastSeenTime = some last → last ≤ now
  changed : e.changeTime ≤ now

/-- No stored time lies ahead of the model time. -/
structure Stores.Past (s : Stores F16) : Prop where
  clock : s.lastAccountingTime ≤ s.modelTime
  exe : ∀ p e, s.exeAt p = some e → e.Past s.modelTime
  map : ∀ key m, s.mapAt key = some m → m.updateTime ≤ s.modelTime
  active : ∀ p last, s.activeAt p = some last → last ≤ s.modelTime
  edge : ∀ p q e, s.edgeAt p q = some e → e.Past s.modelTime

section Records

variable {now now' : UInt64}

theorem Edge.Past.mono {e : Edge F16} (h : e.Past now) (hle : now ≤ now') : e.Past now' :=
  ⟨UInt64.le_trans h.changed hle, h.left⟩

theorem Edge.past_seenFrom (a b : ExeId) (e : Edge F16) : (e.seenFrom a b).Past now ↔ e.Past now := by
  unfold seenFrom
  split
  · exact Iff.rfl
  · refine ⟨fun h => ⟨h.changed, fun i => ?_⟩, fun h => ⟨h.changed, fun i => h.left (swapIndex i)⟩⟩
    have hleft := h.left (swapIndex i)
    change e.stateLastLeft (swapIndex (swapIndex i)) ≤ e.lastChangeTime at hleft
    rwa [swapIndex_swapIndex] at hleft

theorem Edge.past_freshEdge (zero : F16) (state : MarkovState) :
    (MarkovGraph.freshEdge zero now state).Past now :=
  ⟨UInt64.le_refl _, fun _ => UInt64.le_refl _⟩

theorem Edge.past_persisted (e : Edge F16) : (e.persisted now).Past now :=
  ⟨UInt64.le_refl _, fun _ => UInt64.le_refl _⟩

/-- A transition takes place now. -/
theorem Edge.Past.updateState [Float32Ops F32] (num : Numerics F16 F32) {e : Edge F16}
    (h : e.Past now) (newState : MarkovState) (decay : F32) :
    (e.updateState num newState now decay).Past now := by
  unfold Edge.updateState
  split
  · exact h
  · refine ⟨UInt64.le_refl _, fun i => ?_⟩
    change Function.update e.stateLastLeft e.state.index now i ≤ now
    by_cases hi : i = e.state.index
    · rw [hi, Function.update_self]
      exact UInt64.le_refl _
    · rw [Function.update_of_ne hi]
      exact UInt64.le_trans (h.left i) h.changed

theorem Edge.Past.advanceEdge [Float32Ops F32] (num : Numerics F16 F32) {e : Edge F16}
    (h : e.Past now) (decay : F32) (period : UInt64) (s : Stores F16) (key : EdgeKey) :
    (advanceEdge num now decay period s key e).Past now := by
  unfold PreloadNg.advanceEdge
  refine Edge.Past.updateState num ?_ _ _
  split
  · exact ⟨h.changed, h.left⟩
  · exact h

theorem Exe.Past.mono {e : Exe} (h : e.Past now) (hle : now ≤ now') : e.Past now' :=
  ⟨fun last hlast => UInt64.le_trans (h.seen last hlast) hle, UInt64.le_trans h.changed hle⟩

theorem Exe.past_new (key : ExeKey) : (Exe.new key).Past now :=
  ⟨fun _ hlast => (by cases hlast), UInt64.zero_le⟩

theorem Exe.Past.touch {e : Exe} (h : e.Past now) : (e.touch now).Past now :=
  ⟨fun _ hlast => Option.some.inj hlast ▸ UInt64.le_refl _, h.changed⟩

theorem Exe.Past.persisted {e : Exe} (h : e.Past now) : e.persisted.Past now :=
  ⟨h.seen, UInt64.zero_le⟩

theorem Exe.Past.settle {e : Exe} (h : e.Past now) (runningPaths : FxHashSet Path)
    (period : UInt64) : (e.settle now runningPaths period).Past now := by
  refine ⟨fun last hlast => h.seen last (by rwa [Exe.settle_lastSeenTime] at hlast), ?_⟩
  have hrefresh : (e.refresh now runningPaths).changeTime ≤ now := by
    unfold Exe.refresh
    dsimp only
    split
    · exact UInt64.le_refl _
    · exact h.changed
  unfold Exe.settle Exe.credit
  split <;> exact hrefresh

end Records

/-! ## The operations on stores -/

/-- What an event says of times is that it is `now`. -/
def ObservationEvent.StampedAt (now : UInt64) : ObservationEvent → Prop
  | .obsBegin time _ => time = now
  | .mapSeen _ map => map.updateTime = now
  | .exeSeen _ _ | .memStat _ | .obsEnd _ _ _ => True

/-- An observation of `now`. -/
def Observation.Stamped (obs : Observation) (now : UInt64) : Prop :=
  ∀ event ∈ obs, event.StampedAt now

theorem Observation.Stamped.time {obs : Observation} {now : UInt64} (h : obs.Stamped now) :
    obs.time now = now :=
  Observation.time_of_echoes fun _ _ hmem => h _ hmem

namespace Stores.Past

variable {s t : Stores F16}

theorem empty : (∅ : Stores F16).Past where
  clock := UInt64.le_refl _
  exe p e he := by cases he
  map key m hm := by cases hm
  active p last hlast := by cases hlast
  edge p q e he := by cases he

/-- Time goes on, and maps are removed. -/
theorem purged (h : s.Past) {gone : MapKey → Prop} {now : UInt64} (hpurged : Purged gone s t)
    (hle : t.modelTime ≤ now) : ({ t with modelTime := now } : Stores F16).Past := by
  have hnow : s.modelTime ≤ now := hpurged.modelTime ▸ hle
  constructor
  · change t.lastAccountingTime ≤ now
    rw [hpurged.lastAccountingTime]
    exact UInt64.le_trans h.clock hnow
  · intro p e he
    change t.exeAt p = some e at he
    rw [Stores.exeAt, hpurged.exes] at he
    exact (h.exe p e he).mono hnow
  · intro key m hm
    obtain ⟨id, hid, hkey⟩ := Stores.mapAt_eq_some.1 hm
    have hold : s.mapAt key = some m :=
      Stores.mapAt_eq_some.2 ⟨id, ((hpurged.maps id m).1 hid).1, hkey⟩
    exact UInt64.le_trans (h.map key m hold) hnow
  · intro p last hlast
    change t.activeAt p = some last at hlast
    rw [Stores.activeAt, hpurged.exes, hpurged.active] at hlast
    exact UInt64.le_trans (h.active p last hlast) hnow
  · intro p q e he
    change t.edgeAt p q = some e at he
    rw [Stores.edgeAt, hpurged.exes, hpurged.markov] at he
    exact (h.edge p q e he).mono hnow

theorem removeMaps (h : s.Past) (hs : s.WF) (keys : List MapKey) :
    (keys.foldl Stores.removeMapByKey s).Past :=
  h.purged (purged_removeMaps hs keys) (UInt64.le_refl _)

theorem restart (h : s.Past) {activeWindow : UInt64} (ht : RestartSpec s activeWindow t) :
    t.Past where
  clock := by
    rw [ht.modelTime, ht.lastAccountingTime]
    exact h.clock
  exe p e he := by
    rw [ht.exeAt] at he
    obtain ⟨e₀, he₀, rfl⟩ := Option.map_eq_some_iff.1 he
    rw [ht.modelTime]
    exact (h.exe p e₀ he₀).persisted
  map key m hm := by
    rw [ht.mapAt] at hm
    obtain ⟨m₀, hm₀, rfl⟩ := Option.map_eq_some_iff.1 hm
    rw [ht.modelTime]
    exact h.map key m₀ hm₀
  active p last hlast := by
    rw [ht.activeAt] at hlast
    split at hlast
    · rw [ht.modelTime, Option.some.inj hlast]
      exact UInt64.le_refl _
    · cases hlast
  edge p q e he := by
    rw [ht.edgeAt] at he
    obtain ⟨e₀, -, rfl⟩ := Option.map_eq_some_iff.1 he
    rw [ht.modelTime]
    exact Edge.past_persisted e₀

variable [Float32Ops F32] {num : Numerics F16 F32}

/-- An observation of now adds nothing that is ahead of now. -/
theorem apply (h : s.Past) (hs : s.WF) {obs : Observation} (hobs : obs.Stamped s.modelTime)
    (u : DefaultModelUpdater F32) (ord : HashOrder) (policy : AdmissionPolicy) :
    (u.apply num ord s obs policy).1.Past := by
  have hspec := apply_spec num u ord s obs policy
  have htime := hobs.time
  have hnow : (u.apply num ord s obs policy).1.modelTime = s.modelTime :=
    hspec.modelTime.trans htime
  constructor
  · rw [hspec.modelTime, hspec.lastAccountingTime]
    exact UInt64.le_refl _
  · intro p e he
    rw [hspec.exeAt, htime] at he
    obtain ⟨e₀, he₀, rfl⟩ := Option.map_eq_some_iff.1 he
    rw [hnow]
    -- a program is settled at the time of the scan
    refine Exe.Past.settle ?_ _ _
    split at he₀
    · obtain rfl := Option.some.inj he₀
      refine Exe.Past.touch ?_
      cases hold : s.exeAt p with
      | none => exact Exe.past_new _
      | some e₁ => exact h.exe p e₁ hold
    · exact h.exe p e₀ he₀
  · intro key m hm
    rw [hnow]
    rw [hspec.mapAt, Option.or_eq_some_iff] at hm
    rcases hm with hold | ⟨-, hnew⟩
    · exact h.map key m hold
    · obtain ⟨p, -, hseen, -⟩ := (mem_admittedMaps _ _ _ _ _).1 (List.mem_of_find?_eq_some hnew)
      have hstamp : m.updateTime = s.modelTime := hobs _ hseen
      rw [hstamp]
      exact UInt64.le_refl _
  · intro p last hlast
    rw [hnow]
    rw [hspec.activeAt hs, htime] at hlast
    split at hlast
    · rw [Option.some.inj hlast]
      exact UInt64.le_refl _
    · exact h.active p last (Option.filter_eq_some_iff.1 hlast).1
  · intro p q e he
    obtain ⟨a, b, e₁, ha, hb, he₁, rfl⟩ := Stores.edgeAt_eq_some.1 he
    rw [hnow, Edge.past_seenFrom]
    obtain ⟨-, -, e₀, rfl, horigin⟩ := hspec.edge_origin _ e₁ he₁
    rw [htime] at horigin ⊢
    refine Edge.Past.advanceEdge num ?_ _ _ _ _
    -- an edge is an old one or starts at the time of the scan
    rcases horigin with hold | ⟨-, -, state, rfl⟩
    · refine (Edge.past_seenFrom a b e₀).1 (h.edge p q _ ?_)
      rw [hspec.old_edgeAt hs ha hb, hold, Option.map_some]
    · exact Edge.past_freshEdge _ _

end Stores.Past

/-! ## Runs of the stores -/

section StoresRuns

variable [Float32Ops F32] (num : Numerics F16 F32) {s : Stores F16}

/-- Observations are those of the model time. -/
def AtModelTime (s : Stores F16) : StoresOp F32 → Prop
  | .apply _ _ _ obs => obs.Stamped s.modelTime
  | .advance _ => True
  | .removeMap _ => True
  | .restart _ _ _ => True

theorem past_of_reachable (h : StoresReachable num AtModelTime s) : s.Past := by
  refine h.invariant_of (J := Stores.WF) (I := Stores.Past) (fun _ => wf_of_reachable num)
    Stores.Past.empty ?_
  intro s op s' hs ih hstep
  obtain ⟨hallowed, hexec⟩ := hstep
  cases op with
  | apply u ord policy obs =>
      obtain rfl := Except.ok.inj hexec
      exact ih.apply hs hallowed u ord policy
  | advance cycle =>
      obtain rfl := Except.ok.inj hexec
      exact ih.purged (purged_removeMaps hs []) (le_satAdd _ _)
  | removeMap key =>
      obtain rfl := Except.ok.inj hexec
      exact ih.removeMaps hs [key]
  | restart ord createdAt activeWindow => exact ih.restart (restart_spec hexec hs)

/-- At the model time, times do not decrease. -/
theorem nondecreasing_of_atModelTime (h : StoresReachable num AtModelTime s) :
    StoresReachable num Nondecreasing s := by
  refine h.invariant_of (J := Stores.Past) (I := StoresReachable num Nondecreasing)
    (fun _ => past_of_reachable num) Reachable.refl ?_
  intro s op s' hs ih hstep
  obtain ⟨hallowed, hexec⟩ := hstep
  refine ih.tail ⟨?_, hexec⟩
  cases op with
  | apply u ord policy obs =>
      change s.lastAccountingTime ≤ obs.time s.modelTime
      rw [Observation.Stamped.time hallowed]
      exact hs.clock
  | advance _ | removeMap _ | restart _ _ _ => trivial

variable {num}

theorem atModelTime_removeMaps (h : StoresReachable num AtModelTime s) (keys : List MapKey) :
    StoresReachable num AtModelTime (keys.foldl Stores.removeMapByKey s) := by
  induction keys generalizing s with
  | nil => exact h
  | cons key rest ih => exact ih (h.tail (i := .removeMap key) ⟨trivial, rfl⟩)

theorem atModelTime_restored (h : StoresReachable num AtModelTime s) {config : Settings F32}
    {t : Stores F16} (ht : RestoredUnder num config s t) : StoresReachable num AtModelTime t := by
  obtain ⟨ord, createdAt, r, hr, rfl⟩ := ht
  have hrestart : StoresReachable num AtModelTime r :=
    h.tail (i := .restart ord createdAt config.model.activeWindow) ⟨trivial, hr⟩
  exact atModelTime_removeMaps hrestart _

/-- The work of a tick, if what it observes is of the model time. -/
theorem atModelTime_work {d : Daemon F16 F32} {op : HostOp F32}
    (h : StoresReachable num AtModelTime d.stores) (hwork : TickWork num d op s)
    (hstamped : ∀ input obs, op = .beginTick input → d.config.system.doscan = true →
      input.scan = .ok obs → obs.Stamped d.stores.modelTime) :
    StoresReachable num AtModelTime s := by
  cases hwork with
  | @applies input obs _ hscan hobs hstores =>
      refine h.tail (i := .apply d.services.updater input.applyOrder
        (d.services.admission.toPolicy input.cached) obs) ⟨hstamped input obs rfl hscan hobs, ?_⟩
      rw [hstores]
      rfl
  | advances keys hstores =>
      refine (atModelTime_removeMaps h keys).tail (i := .advance d.config.model.cycle)
        ⟨trivial, ?_⟩
      rw [hstores]
      rfl

/-- A tick never sets the model time back. -/
theorem modelTime_work {d : Daemon F16 F32} {op : HostOp F32} (hwork : TickWork num d op s)
    (hstamped : ∀ input obs, op = .beginTick input → d.config.system.doscan = true →
      input.scan = .ok obs → obs.Stamped d.stores.modelTime) :
    d.stores.modelTime ≤ s.modelTime := by
  cases hwork with
  | @applies input obs _ hscan hobs hstores =>
      rw [hstores, (apply_spec num _ _ d.stores obs _).modelTime,
        (hstamped input obs rfl hscan hobs).time]
      exact UInt64.le_refl _
  | advances keys hstores =>
      rw [hstores, Stores.advance, (Stores.sameButMaps_removeMaps keys d.stores).modelTime]
      exact le_satAdd _ _

end StoresRuns

/-! ## What a scan stamps -/

theorem stampedAt_emitCachedMaps (exePath : Path) (cachedMaps : List CachedMap) (time : UInt64) :
    ∀ event ∈ emitCachedMaps exePath cachedMaps time, event.StampedAt time := by
  intro event hevent
  obtain ⟨cm, -, rfl⟩ := List.mem_map.1 hevent
  rfl

/-- Maps that were read before are reported as seen now. -/
theorem stampedAt_scanProcess {sc : ProcfsScanner} {time : UInt64} {process : Process}
    {found : ProcessScan} (hfound : sc.scanProcess time process = some found) :
    ∀ event ∈ found.events, event.StampedAt time := by
  have hread : ∀ starttime path,
      ∀ event ∈ (sc.readMaps time process starttime path).events, event.StampedAt time := by
    intro starttime path event hevent
    rw [ProcfsScanner.events_readMaps] at hevent
    rcases List.mem_cons.1 hevent with rfl | hevent
    · trivial
    · exact stampedAt_emitCachedMaps _ _ _ event hevent
  obtain ⟨starttime, -, hcases⟩ := ProcfsScanner.scanProcess_cases hfound
  rcases hcases with ⟨path, -, rfl⟩ | ⟨cached, -, rfl, rfl | ⟨-, hevents, rfl⟩⟩
  · exact hread starttime path
  · exact hread cached.starttime cached.exePath
  · intro event hevent
    rw [hevents] at hevent
    rcases List.mem_cons.1 hevent with rfl | hevent
    · trivial
    · exact stampedAt_emitCachedMaps _ _ _ event hevent

theorem stampedAt_drain (buffer : EventBuffer) (ord : HashOrder) (time : UInt64) :
    ∀ event ∈ buffer.drain ord time, event.StampedAt time := by
  intro event hevent
  rcases List.mem_append.1 hevent with hexes | hmaps
  · obtain ⟨row, -, rfl⟩ := List.mem_map.1 hexes
    trivial
  · obtain ⟨row, -, rfl⟩ := List.mem_map.1 hmaps
    rfl

/-- Whatever a scan reports, cached or drained, it reports for the time it was asked for. -/
theorem WatchedScanner.stamped_observe {w : WatchedScanner} {input : ScanInput}
    {obs : Observation} (hobs : w.observe input = .ok obs) : obs.Stamped input.time := by
  obtain ⟨mem, warnings, rfl, hmem⟩ := ProcfsScanner.scan_events hobs
  intro event hevent
  rw [List.mem_append, List.mem_cons, List.mem_append, List.mem_append, List.mem_singleton]
    at hevent
  rcases hevent with (rfl | (hprocess | hdrained) | hstat) | rfl
  · rfl
  · obtain ⟨process, -, hprocess⟩ := List.mem_flatMap.1 hprocess
    unfold ProcfsScanner.processEvents at hprocess
    cases hfound : w.scanner.counted.scanProcess (w.input input).time process with
    | none =>
        rw [hfound] at hprocess
        exact absurd hprocess List.not_mem_nil
    | some found =>
        rw [hfound, Option.map_some, Option.getD_some] at hprocess
        exact stampedAt_scanProcess hfound event hprocess
  · unfold ProcfsScanner.drained at hdrained
    split at hdrained
    · exact stampedAt_drain _ _ _ event hdrained
    · exact absurd hdrained List.not_mem_nil
  · obtain ⟨stat, rfl⟩ := hmem event hstat
    trivial
  · trivial

/-! ## Runs of the daemon -/

section Runs

variable [Float32Ops F32] (num : Numerics F16 F32) (enc : Encoding F32 F64) (ln2 : F32)

/-- A step other than the start of a process. -/
def WatchedNoStart (w : WatchedHost F16 F32 F64) (op : WatchedHostOp F32)
    (w' : WatchedHost F16 F32 F64) : Prop :=
  WatchedHostStep num enc ln2 w op w' ∧
    ∀ config launch selfPid watches, op ≠ .start config launch selfPid watches

variable {num enc ln2} {w w' : WatchedHost F16 F32 F64} {op : WatchedHostOp F32}

/-- A step takes the host along, and what it observes is of the model time. -/
theorem hostStep_of_watched (hstep : WatchedHostStep num enc ln2 w op w') :
    w'.host = w.host ∨ ∃ hop, HostStep num enc ln2 w.host hop w'.host ∧
      ((∃ config launch, hop = .start config launch) →
        ∃ config launch selfPid watches, op = .start config launch selfPid watches) ∧
      ∀ d input obs, w.host.daemon = some d → hop = .beginTick input →
        d.config.system.doscan = true → input.scan = .ok obs → obs.Stamped d.stores.modelTime := by
  cases watchedChange_of_step hstep with
  | @starts config launch selfPid watches host hhost =>
      refine Or.inr ⟨_, hhost, fun _ => ⟨config, launch, selfPid, watches, rfl⟩, ?_⟩
      intro d input obs _ heq
      cases heq
  | opens => exact Or.inl rfl
  | @scans input d host hd hhost =>
      refine Or.inr ⟨_, hhost, fun ⟨_, _, heq⟩ => (by cases heq), ?_⟩
      intro d' input' obs hd' heq _ hobs
      obtain rfl := Option.some.inj (hd.symm.trans hd')
      obtain rfl := HostOp.beginTick.inj heq
      exact WatchedScanner.stamped_observe hobs
  | @blind input host hblind hhost =>
      refine Or.inr ⟨_, hhost, fun ⟨_, _, heq⟩ => (by cases heq), ?_⟩
      intro d input' obs hd heq hscan
      rw [hblind input' heq d hd] at hscan
      cases hscan
  | others hnostart hnotick hhost =>
      refine Or.inr ⟨_, hhost, fun ⟨config, launch, heq⟩ => absurd heq (hnostart config launch), ?_⟩
      intro d input obs _ heq
      exact absurd heq (hnotick input)

/-- In a process and in the database, the stores are made by observations at their model time. -/
theorem atModelTime_of_reachable (henc : enc.RoundTrips) {now : ℕ}
    (hr : Reachable (WatchedHostStep num enc ln2) (WatchedHost.initial F16 F32 F64 now) w) :
    w.host.Holds num enc (fun _ => True) (StoresReachable num AtModelTime) := by
  refine hr.invariant_of
    (J := Reachable (WatchedHostStep num enc ln2) (WatchedHost.initial F16 F32 F64 now))
    (I := fun w => w.host.Holds num enc (fun _ => True) (StoresReachable num AtModelTime))
    (fun _ h => h) (holds_initial Reachable.refl now) ?_
  intro w op w' hr ih hstep
  rcases hostStep_of_watched hstep with hsame | ⟨hop, hhost, -, hstamped⟩
  · rw [hsame]
    exact ih
  · refine holds_step henc (host_reachable hr) ih hhost ?_ ?_
    · intro config launch s t _ _ _ hs ht
      exact atModelTime_restored hs ht
    · intro d s' hd _ hs hwork
      exact atModelTime_work hs hwork fun input obs => hstamped d input obs hd

/-- A step within a process does not set the model time back. -/
theorem modelTime_step {t : UInt64}
    (h : ∀ d, w.host.daemon = some d → t ≤ d.stores.modelTime)
    (hstep : WatchedNoStart num enc ln2 w op w') :
    ∀ d', w'.host.daemon = some d' → t ≤ d'.stores.modelTime := by
  obtain ⟨hstep, hnostart⟩ := hstep
  intro d' hd'
  rcases hostStep_of_watched hstep with hsame | ⟨hop, hhost, hstart, hstamped⟩
  · rw [hsame] at hd'
    exact h d' hd'
  · cases hostChange_of_step hhost with
    | rests _ hlive _ =>
        obtain ⟨d, hd, -, hstores⟩ := hlive d' hd'
        rw [hstores]
        exact h d hd
    | @works d d₁ hd hd₁ _ _ hwork =>
        obtain rfl := Option.some.inj (hd₁.symm.trans hd')
        exact UInt64.le_trans (h d hd)
          (modelTime_work hwork fun input obs => hstamped d input obs hd)
    | @saves d d₁ hd hd₁ _ hstores _ =>
        obtain rfl := Option.some.inj (hd₁.symm.trans hd')
        rw [hstores]
        exact h d hd
    | ends _ hnone =>
        rw [hnone] at hd'
        cases hd'
    | @starts config launch snapshot r d₁ heq _ _ _ _ _ _ _ =>
        obtain ⟨config, launch, selfPid, watches, hop⟩ := hstart ⟨config, launch, heq⟩
        exact absurd hop (hnostart _ _ _ _)

end Runs

/-- In every run of the daemon no stored time lies ahead of the model time, the running times are
    within the time accounted for, and the stores are those of operations at times that do not
    decrease. While a process lives its model time is never set back. -/
theorem stored_times_past [Float32Ops F32] {num : Numerics F16 F32} {enc : Encoding F32 F64}
    {ln2 : F32} (henc : enc.RoundTrips) {now : ℕ} {w : WatchedHost F16 F32 F64}
    {d : Daemon F16 F32}
    (hr : Reachable (WatchedHostStep num enc ln2) (WatchedHost.initial F16 F32 F64 now) w)
    (hd : w.host.daemon = some d) :
    d.stores.Past ∧ d.stores.Accounting ∧ StoresReachable num Nondecreasing d.stores ∧
      ∀ w' d', Reachable (WatchedNoStart num enc ln2) w w' → w'.host.daemon = some d' →
        d.stores.modelTime ≤ d'.stores.modelTime := by
  have hstores := (atModelTime_of_reachable henc hr).live d hd trivial
  have htimes := nondecreasing_of_atModelTime num hstores
  refine ⟨past_of_reachable num hstores, accounting_of_reachable num htimes, htimes, ?_⟩
  intro w' d' hrun hd'
  refine hrun.invariant
    (I := fun w' => ∀ d', w'.host.daemon = some d' → d.stores.modelTime ≤ d'.stores.modelTime) ?_ ?_
    d' hd'
  · intro d₁ hd₁
    obtain rfl := Option.some.inj (hd.symm.trans hd₁)
    exact UInt64.le_refl _
  · intro w₁ op w₂ ih hstep
    exact modelTime_step ih hstep

/-- A process ticks twice, twenty seconds apart. -/
theorem stored_times_past_two_ticks :
    ∃ (w : WatchedHost ℚ ℚ ℚ) (d d' : Daemon ℚ ℚ), w.host.daemon = some d ∧
      d.stores.exes.ids.length = 1 ∧ d'.stores.modelTime = 40 ∧
      (d.stores.Past ∧ d.stores.Accounting ∧
        StoresReachable Numerics.rational Nondecreasing d.stores) ∧
      d.stores.modelTime ≤ d'.stores.modelTime := by
  let tool : Process :=
    ⟨7, .ok 100, .ok (RawPath.ofString "/usr/bin/tool"),
      .ok [⟨(0, 200000), 0, (8, 1), 5, .path (RawPath.ofString "/usr/lib/libtool.so")⟩]⟩
  let table : ProcessTable := ⟨[.ok tool], by decide⟩
  let tick : List (WatchedHostOp ℚ) :=
    [.beginTick ⟨.ok table, .error "", .insertion, fun _ => none, .insertion, .insertion,
        .insertion⟩,
      .other (.finishTick ⟨0, 0, []⟩ fun _ => true),
      .other (.autosave ⟨.insertion, 0, none, 1⟩), .other (.pass 20000000000), .other .wake]
  have hany : ((WatchedHost.initial ℚ ℚ ℚ 0).execAll Numerics.rational Encoding.rational 1
      (.start (Settings.default 0) Launch.plain 1 false :: tick)).any
      (fun w => w.host.daemon.any fun d => decide (d.stores.exes.ids.length = 1) &&
        (w.execAll Numerics.rational Encoding.rational 1 tick).any fun w' =>
          w'.host.daemon.any fun d' => decide (d'.stores.modelTime = 40)) = true := by
    decide +kernel
  obtain ⟨w, hexec, hlast⟩ := (Option.any_eq_true _ _).1 hany
  obtain ⟨d, hd, hboth⟩ := (Option.any_eq_true _ _).1 hlast
  obtain ⟨hlength, hagain⟩ := (Bool.and_eq_true _ _).mp hboth
  obtain ⟨w', hexec', hlast'⟩ := (Option.any_eq_true _ _).1 hagain
  obtain ⟨d', hd', htime⟩ := (Option.any_eq_true _ _).1 hlast'
  have hr := (run_of_watchedExecAll _ _ _ hexec).reachable
  have hops : ∀ op ∈ tick, ∀ config launch selfPid watches,
      op ≠ WatchedHostOp.start config launch selfPid watches := by simp [tick]
  have hrun : Run (WatchedNoStart Numerics.rational Encoding.rational 1) w tick w' :=
    (run_of_watchedExecAll _ _ _ hexec').restrict hops
  obtain ⟨hpast, haccounting, htimes, hlater⟩ :=
    stored_times_past Encoding.roundTrips_rational hr hd
  exact ⟨w, d, d', hd, of_decide_eq_true hlength, of_decide_eq_true htime,
    ⟨hpast, haccounting, htimes⟩, hlater w' d' hrun.reachable hd'⟩

end PreloadNg
