import PreloadNg.Engine.Daemon
import PreloadNg.Engine.EngineRun
import PreloadNg.Engine.SavedRuns
import PreloadNg.Lib.Checkpoint

set_option autoImplicit false

/-! # Runs of the daemon

For the stores and the databases a run of the daemon is a run of a checkpointed state: the loop works
on the stores, saves commit them to the state file of the process, and a new process recovers what was
committed last to its file, whatever was interrupted. -/

namespace PreloadNg

variable {F16 F32 F64 : Type} [Float32Ops F32] (num : Numerics F16 F32) (enc : Encoding F32 F64)
  (ln2 : F32)

/-! ## The abstract state -/

/-- What the loop does to the stores between two saves. -/
def DefaultWork (s : Stores F16) (op : StoresOp F32) : Prop :=
  UnderDefaultPolicy s op ∧ ∀ ord createdAt activeWindow, op ≠ .restart ord createdAt activeWindow

/-- `t` is what a process with this configuration loads when the records of `s` were saved. -/
def RestoredUnder (config : Settings F32) (s t : Stores F16) : Prop :=
  ∃ (ord : HashOrder) (createdAt : ℤ) (r : Stores F16),
    storesFromSnapshot num (snapshotFromStores num ord createdAt s) config.model.activeWindow =
      .ok r ∧
    t = (PreloadEngine.deniedKeys ((DefaultAdmissionPolicy.new config.policy).toPolicy
      fun _ => none) r).foldl Stores.removeMapByKey r

def Recovers (s t : Stores F16) : Prop := ∃ config : Settings F32, RestoredUnder num config s t

/-- The database has the records of the stores. -/
def Stored (db : Database F64) (s : Stores F16) : Prop :=
  ∃ (ord : HashOrder) (createdAt : ℤ) (loaded : StoresSnapshot F32),
    loadSnapshot enc db = .ok loaded ∧
      loaded.state = (snapshotFromStores num ord createdAt s).state

/-- The second database is what saving the stores makes of the first. -/
def SavedAs (s : Stores F16) (db db' : Database F64) : Prop :=
  ∃ (ord : HashOrder) (createdAt : ℤ),
    saveSnapshot enc (snapshotFromStores num ord createdAt s) db = .ok db'

/-- The databases after the stores are saved to a repository. -/
def Repository.Saved (repo : Repository) (s : Stores F16) (dbs dbs' : Path → Database F64) : Prop :=
  match repo with
  | .noop => dbs' = dbs
  | .sqlite file => ∃ db, SavedAs num enc s (dbs file) db ∧ dbs' = Function.update dbs file db

/-! ## What a step does to the stores and the databases -/

/-- What a tick of the process has made of its stores: one observation is applied, or maps that could
    not be prefetched and whose files are gone are removed and the model time advances. -/
inductive TickWork (d : Daemon F16 F32) : HostOp F32 → Stores F16 → Prop
  | applies {input : DaemonTickInput} {obs : Observation} {s' : Stores F16}
      (hscan : d.config.system.doscan = true) (hobs : input.scan = .ok obs)
      (hstores : s' = (d.services.updater.apply num input.applyOrder d.stores obs
        (d.services.admission.toPolicy input.cached)).1) : TickWork d (.beginTick input) s'
  | advances {prefetch : PrefetchReport} {exist : Path → Bool} {s' : Stores F16}
      (keys : List MapKey)
      (hstores : s' = (keys.foldl Stores.removeMapByKey d.stores).advance d.config.model.cycle)
      (hgone : ∀ key ∈ keys, key ∈ prefetch.failures ∧ exist key.path = false) :
      TickWork d (.finishTick prefetch exist) s'

/-- The state file of a process, if it has one, and its stores. -/
def Daemon.live (d : Daemon F16 F32) : Option Path × Stores F16 := (d.repo.file, d.stores)

inductive HostChange (h : Host F16 F32 F64) (op : HostOp F32) (h' : Host F16 F32 F64) : Prop
  | rests (hdbs : h'.dbs = h.dbs)
      (hlive : ∀ d', h'.daemon = some d' →
        ∃ d, h.daemon = some d ∧ d'.repo = d.repo ∧ d'.stores = d.stores)
      (hnone : h'.daemon = none → h.daemon = none)
  | works {d d' : Daemon F16 F32} (hd : h.daemon = some d) (hd' : h'.daemon = some d')
      (hdbs : h'.dbs = h.dbs) (hrepo : d'.repo = d.repo) (hwork : TickWork num d op d'.stores)
  | saves {d d' : Daemon F16 F32} (hd : h.daemon = some d) (hd' : h'.daemon = some d')
      (hrepo : d'.repo = d.repo) (hstores : d'.stores = d.stores)
      (hsaved : d.repo.Saved num enc d.stores h.dbs h'.dbs)
  | ends (hdbs : h'.dbs = h.dbs) (hnone : h'.daemon = none)
  | starts {config : Settings F32} {launch : Launch} {snapshot : StoresSnapshot F32}
      {r : Stores F16} {d' : Daemon F16 F32} (hop : op = .start config launch)
      (hd : h.daemon = none) (hdbs : h'.dbs = h.dbs)
      (hload : (launch.repo config).load enc launch.fault h.dbs = .ok snapshot)
      (hrestore : storesFromSnapshot num snapshot config.model.activeWindow = .ok r)
      (hd' : h'.daemon = some d') (hrepo : d'.repo = launch.repo config)
      (hstores : d'.stores = (PreloadEngine.deniedKeys
        ((DefaultAdmissionPolicy.new config.policy).toPolicy fun _ => none) r).foldl
          Stores.removeMapByKey r)

section Change

variable {num enc ln2} {h h' : Host F16 F32 F64} {op : HostOp F32} {d : Daemon F16 F32}

theorem Daemon.saved_of_save {input : SaveInput} {dbs dbs' : Path → Database F64}
    (h : d.save num enc input dbs = .ok dbs') : d.repo.Saved num enc d.stores dbs dbs' := by
  unfold Daemon.save Repository.save at h
  unfold Repository.Saved
  cases hrepo : d.repo with
  | noop =>
      rw [hrepo] at h
      exact (Except.ok.inj h).symm
  | sqlite file =>
      rw [hrepo] at h
      dsimp only at h ⊢
      cases hfault : input.fault with
      | some err =>
          rw [hfault] at h
          cases h
      | none =>
          rw [hfault] at h
          cases hsave : saveSnapshot enc
              (snapshotFromStores num input.ord input.createdAt d.stores) (dbs file) with
          | error err =>
              rw [hsave] at h
              cases h
          | ok db =>
              rw [hsave] at h
              exact ⟨db, ⟨input.ord, input.createdAt, hsave⟩, (Except.ok.inj h).symm⟩

omit [Float32Ops F32] in
theorem Daemon.stores_send (d : Daemon F16 F32) (event : ControlEvent F32) :
    (d.send event).stores = d.stores := by
  unfold Daemon.send
  split <;> rfl

omit [Float32Ops F32] in
theorem Daemon.repo_send (d : Daemon F16 F32) (event : ControlEvent F32) :
    (d.send event).repo = d.repo := by
  unfold Daemon.send
  split <;> rfl

/-- A step that keeps the stores and at most saves them. -/
theorem hostChange_of_kept {d' : Daemon F16 F32} (hd : h.daemon = some d)
    (hd' : h'.daemon = some d') (hrepo : d'.repo = d.repo) (hstores : d'.stores = d.stores)
    (hdbs : h'.dbs = h.dbs ∨ d.repo.Saved num enc d.stores h.dbs h'.dbs) :
    HostChange num enc h op h' := by
  rcases hdbs with hsame | hsaved
  · refine .rests hsame (fun d₁ hd₁ => ?_) fun hnone => ?_
    · obtain rfl := Option.some.inj (hd'.symm.trans hd₁)
      exact ⟨d, hd, hrepo, hstores⟩
    · rw [hnone] at hd'
      cases hd'
  · exact .saves hd hd' hrepo hstores hsaved

theorem hostChange_beginTick (hd : h.daemon = some d) (tickStart : ℕ) (input : DaemonTickInput) :
    HostChange num enc h (.beginTick input)
      { h with daemon := some (d.beginTick num tickStart input) } := by
  obtain ⟨-, -, hstores⟩ := d.engine.beginTick_spec num (d.tickInput input)
  have hsame : (d.beginTick num tickStart input).stores =
      (d.engine.beginTick num (d.tickInput input)).1.stores := rfl
  rcases hstores with hrest | ⟨obs, hscan, hobs, happly⟩
  · exact hostChange_of_kept hd rfl rfl (hsame.trans hrest) (Or.inl rfl)
  · exact .works hd rfl rfl rfl (.applies hscan hobs (hsame.trans happly))

theorem hostChange_finishTick (hd : h.daemon = some d) (tickStart : ℕ) (tick : Suspended F16)
    (prefetch : PrefetchReport) (exist : Path → Bool) :
    HostChange num enc h (.finishTick prefetch exist)
      { h with daemon := some (d.finishTick tickStart tick prefetch exist) } := by
  have hsame : (d.finishTick tickStart tick prefetch exist).stores =
      (d.engine.finishTick tick prefetch exist).1.stores := rfl
  refine .works hd rfl rfl rfl (.advances (prefetch.failures.filter fun key => !exist key.path) ?_ ?_)
  · rw [hsame, PreloadEngine.finishTick_eq, Stores.advance,
      (Stores.sameButMaps_removeMaps _ d.stores).modelTime]
    rfl
  · intro key hkey
    obtain ⟨hfailed, hgone⟩ := List.mem_filter.1 hkey
    exact ⟨hfailed, by simpa using hgone⟩

/-- Removing maps is work. -/
theorem reachable_removeMaps (keys : List MapKey) (s : Stores F16) :
    Reachable (StoresStep num DefaultWork) s (keys.foldl Stores.removeMapByKey s) := by
  induction keys generalizing s with
  | nil => exact Reachable.refl
  | cons key rest ih =>
      have hstep : StoresStep num DefaultWork s (.removeMap key) (s.removeMapByKey key) :=
        ⟨⟨trivial, fun _ _ _ heq => by cases heq⟩, rfl⟩
      exact (Reachable.refl.tail hstep).trans (ih _)

theorem TickWork.reachable {s' : Stores F16} (h : TickWork num d op s') :
    Reachable (StoresStep num DefaultWork) d.stores s' := by
  cases h with
  | @applies input obs _ _ _ hstores =>
      refine Reachable.refl.tail (i := .apply d.services.updater input.applyOrder
        (d.services.admission.toPolicy input.cached) obs) ⟨⟨⟨d.services.admission, _, rfl⟩, ?_⟩, ?_⟩
      · intro ord createdAt activeWindow heq
        cases heq
      · rw [hstores]
        rfl
  | advances keys hstores =>
      refine (reachable_removeMaps keys d.stores).tail (i := .advance d.config.model.cycle)
        ⟨⟨trivial, fun _ _ _ heq => by cases heq⟩, ?_⟩
      rw [hstores]
      rfl

theorem stores_saveOrStop (num : Numerics F16 F32) (enc : Encoding F32 F64)
    (h : Host F16 F32 F64) (d : Daemon F16 F32) (input : SaveInput) :
    ∃ d', (h.saveOrStop num enc d input).daemon = some d' ∧ d'.repo = d.repo ∧
      d'.stores = d.stores ∧ ((h.saveOrStop num enc d input).dbs = h.dbs ∨
        d.repo.Saved num enc d.stores h.dbs (h.saveOrStop num enc d input).dbs) := by
  unfold Host.saveOrStop
  dsimp only
  cases hsave : d.save num enc input h.dbs with
  | ok dbs => exact ⟨_, rfl, rfl, rfl, Or.inr (Daemon.saved_of_save hsave)⟩
  | error err => exact ⟨_, rfl, rfl, rfl, Or.inl rfl⟩

theorem hostChange_saveOrStop (hd : h.daemon = some d) {d₁ : Daemon F16 F32}
    (hrepo : d₁.repo = d.repo) (hstores : d₁.stores = d.stores) (input : SaveInput) :
    HostChange num enc h op (h.saveOrStop num enc d₁ input) := by
  obtain ⟨d', hd', hsame, hkept, hdbs⟩ := stores_saveOrStop num enc h d₁ input
  rw [hrepo] at hsame hdbs
  rw [hstores] at hkept hdbs
  exact hostChange_of_kept hd hd' hsame hkept hdbs

theorem hostChange_handleControl (hd : h.daemon = some d) {d₁ : Daemon F16 F32}
    (hrepo : d₁.repo = d.repo) (hstores : d₁.stores = d.stores) (tickStart : ℕ)
    (event : ControlEvent F32) (input : SaveInput) :
    HostChange num enc h op (h.handleControl num enc d₁ tickStart event input) := by
  unfold Host.handleControl
  cases event with
  | reload bundle => exact hostChange_of_kept hd rfl hrepo hstores (Or.inl rfl)
  | dumpStatus => exact hostChange_of_kept hd rfl hrepo hstores (Or.inl rfl)
  | saveNow =>
      refine hostChange_saveOrStop hd ?_ ?_ input
      · exact hrepo
      · exact hstores

theorem hostChange_shutdown (hd : h.daemon = some d) (input : SaveInput) :
    HostChange num enc h op (h.shutdown num enc d input) := by
  unfold Host.shutdown
  dsimp only
  split
  · cases hsave : Daemon.save num enc { d with phase := .stopped (.ok ()) } input h.dbs with
    | ok dbs => exact hostChange_of_kept hd rfl rfl rfl (Or.inr (Daemon.saved_of_save hsave))
    | error err => exact hostChange_of_kept hd rfl rfl rfl (Or.inl rfl)
  · exact hostChange_of_kept hd rfl rfl rfl (Or.inl rfl)

theorem hostChange_autosave (hd : h.daemon = some d) (tickStart : ℕ) (didTick : Bool)
    (input : SaveInput) :
    HostChange num enc h op (h.autosave num enc d tickStart didTick input) := by
  unfold Host.autosave
  split
  · refine hostChange_saveOrStop hd ?_ ?_ input
    · rfl
    · rfl
  · exact hostChange_of_kept hd rfl rfl rfl (Or.inl rfl)

theorem hostChange_start (hd : h.daemon = none) (config : Settings F32) (launch : Launch) :
    HostChange num enc h (.start config launch) (h.start num enc ln2 config launch) := by
  unfold Host.start
  dsimp only
  split
  · exact .ends rfl rfl
  · next e hloaded =>
    obtain ⟨snapshot, hload, he⟩ := except_bind_eq_ok.1 hloaded
    obtain ⟨r, hr, rfl⟩ := (PreloadEngine.load_eq_ok num).1 he
    exact .starts rfl hd rfl hload hr rfl rfl rfl

/-- Every step. -/
theorem hostChange_of_step (hstep : HostStep num enc ln2 h op h') :
    HostChange num enc h op h' := by
  cases hostMove_of_step hstep with
  | passes => exact .rests rfl (fun d hd => ⟨d, hd, rfl, rfl⟩) id
  | dies => exact .ends rfl rfl
  | starts hd => exact hostChange_start hd _ _
  | ignores => exact .rests rfl (fun d hd => ⟨d, hd, rfl, rfl⟩) id
  | sends hd _ =>
      exact hostChange_of_kept hd rfl (Daemon.repo_send _ _) (Daemon.stores_send _ _) (Or.inl rfl)
  | cancels hd => exact hostChange_of_kept hd rfl rfl rfl (Or.inl rfl)
  | begins hd _ => exact hostChange_beginTick hd _ _
  | finishes hd _ => exact hostChange_finishTick hd _ _ _ _
  | controls hd _ _ =>
      refine hostChange_handleControl hd ?_ ?_ _ _ _
      · rfl
      · rfl
  | shuts hd _ => exact hostChange_shutdown hd _
  | autosaves hd _ => exact hostChange_autosave hd _ _ _
  | wakes hd _ _ => exact hostChange_of_kept hd rfl rfl rfl (Or.inl rfl)

end Change

/-! ## What a database has -/

section Stored

variable {num enc} {s : Stores F16} {db db' : Database F64}

/-- An empty database has the records of the empty stores. -/
theorem stored_empty : Stored num enc (⟨∅, ∅, ∅, ∅, ∅⟩ : Database F64) ∅ :=
  ⟨.insertion, 0, StoresSnapshot.empty F32, rfl, rfl⟩

/-- Saving stores with UTF-8 paths succeeds, whatever was in the database. -/
theorem saveSnapshot_isOk (henc : enc.RoundTrips) (hs : s.Utf8) (ord : HashOrder) (createdAt : ℤ)
    (db : Database F64) :
    ∃ db', saveSnapshot enc (snapshotFromStores num ord createdAt s) db = .ok db' := by
  obtain ⟨db', -, hsave, -⟩ := load_saveSnapshot (storable_snapshot num ord createdAt hs) henc db
  exact ⟨db', hsave⟩

theorem stored_of_savedAs (henc : enc.RoundTrips) (hs : s.Utf8) (h : SavedAs num enc s db db') :
    Stored num enc db' s := by
  obtain ⟨ord, createdAt, hsave⟩ := h
  obtain ⟨db₁, loaded, hsave₁, hload, hstate⟩ :=
    load_saveSnapshot (storable_snapshot num ord createdAt hs) henc db
  obtain rfl := Except.ok.inj (hsave.symm.trans hsave₁)
  exact ⟨ord, createdAt, loaded, hload, hstate⟩

theorem stored_of_saved (henc : enc.RoundTrips) (hs : s.Utf8) {repo : Repository} {file : Path}
    {dbs dbs' : Path → Database F64} (hrepo : repo = .sqlite file)
    (h : repo.Saved num enc s dbs dbs') : Stored num enc (dbs' file) s := by
  subst hrepo
  obtain ⟨db, hsaved, rfl⟩ := h
  rw [Function.update_self]
  exact stored_of_savedAs henc hs hsaved

/-- The other databases stay as they are. -/
theorem Repository.Saved.other {repo : Repository} {dbs dbs' : Path → Database F64}
    (h : repo.Saved num enc s dbs dbs') {file : Path} (hrepo : repo ≠ .sqlite file) :
    dbs' file = dbs file := by
  cases repo with
  | noop => exact congrFun h file
  | sqlite file' =>
      obtain ⟨db, -, rfl⟩ := h
      rw [Function.update_of_ne]
      rintro rfl
      exact hrepo rfl

/-- A repository has the records of the stores; without a file these are empty. -/
def Repository.Has (num : Numerics F16 F32) (enc : Encoding F32 F64) (repo : Repository)
    (dbs : Path → Database F64) (s : Stores F16) : Prop :=
  match repo with
  | .noop => s = ∅
  | .sqlite file => Stored num enc (dbs file) s

/-- What is loaded is restored from the records of the stores. -/
theorem restoredUnder_of_has {repo : Repository} {dbs : Path → Database F64}
    (h : repo.Has num enc dbs s) {config : Settings F32} {fault : Option Error}
    {snapshot : StoresSnapshot F32} {r : Stores F16}
    (hload : repo.load enc fault dbs = .ok snapshot)
    (hr : storesFromSnapshot num snapshot config.model.activeWindow = .ok r) :
    RestoredUnder num config s ((PreloadEngine.deniedKeys
      ((DefaultAdmissionPolicy.new config.policy).toPolicy fun _ => none) r).foldl
        Stores.removeMapByKey r) := by
  cases repo with
  | noop =>
      obtain rfl : s = ∅ := h
      obtain rfl := Except.ok.inj hload
      exact ⟨.insertion, 0, r, hr, rfl⟩
  | sqlite file =>
      obtain ⟨ord, createdAt, loaded, hloaded, hstate⟩ := h
      cases fault with
      | some err => cases hload
      | none =>
          obtain rfl := Except.ok.inj (Eq.trans (Eq.symm hload) hloaded)
          exact ⟨ord, createdAt, r, (storesFromSnapshot_congr num _ _ hstate).symm.trans hr, rfl⟩

end Stored

/-! ## The refinement -/

section Refines

variable {num enc ln2}

theorem storesReachable_work {s s' : Stores F16} {op : StoresOp F32}
    (h : StoresReachable num UnderDefaultPolicy s) (hstep : StoresStep num DefaultWork s op s') :
    StoresReachable num UnderDefaultPolicy s' :=
  h.tail ⟨hstep.1.1, hstep.2⟩

theorem storesReachable_recovers {s t : Stores F16}
    (h : StoresReachable num UnderDefaultPolicy s) (hrecovers : Recovers num s t) :
    StoresReachable num UnderDefaultPolicy t := by
  obtain ⟨config, ord, createdAt, r, hr, rfl⟩ := hrecovers
  have hrestart : StoresReachable num UnderDefaultPolicy r :=
    h.tail (i := .restart ord createdAt config.model.activeWindow) ⟨trivial, hr⟩
  exact hrestart.trans ((reachable_removeMaps _ r).mono fun _ _ _ hstep => ⟨hstep.1.1, hstep.2⟩)

/-- The live stores and their place are those of the process, the durable ones those that the
    databases have. -/
structure Represents (num : Numerics F16 F32) (enc : Encoding F32 F64) (h : Host F16 F32 F64)
    (c : Checkpoint Path (Stores F16)) : Prop where
  live : c.live = h.daemon.map Daemon.live
  durable : ∀ file, Stored num enc (h.dbs file) (c.durable file)

/-- Stores are worked on, committed to files and recovered. -/
abbrev StoresCheckpointStep (num : Numerics F16 F32) :=
  Checkpoint.Step (κ := Path) (∅ : Stores F16) (StoresStep num DefaultWork) (Recovers num)

/-- Live and durable stores are reachable by the operations on stores. -/
abbrev SoundStores (num : Numerics F16 F32) (c : Checkpoint Path (Stores F16)) : Prop :=
  c.Holds (StoresReachable num UnderDefaultPolicy)

theorem soundStores_of_reachable {c c' : Checkpoint Path (Stores F16)} (hc : SoundStores num c)
    (h : Reachable (StoresCheckpointStep num) c c') : SoundStores num c' := by
  refine Checkpoint.holds_of_reachable Reachable.refl ?_ ?_ hc h
  · intro s op s' hs hstep
    exact storesReachable_work hs hstep
  · intro s t hs hrecovers
    exact storesReachable_recovers hs hrecovers

theorem soundStores_initial : SoundStores num ⟨none, fun _ => (∅ : Stores F16)⟩ :=
  ⟨fun _ s hs => absurd hs (by simp), fun _ => Reachable.refl⟩

theorem Represents.has {h : Host F16 F32 F64} {c : Checkpoint Path (Stores F16)}
    (hrep : Represents num enc h c) (repo : Repository) :
    repo.Has num enc h.dbs (c.source ∅ repo.file) := by
  cases repo with
  | noop => rfl
  | sqlite file => exact hrep.durable file

/-- Every change of the host is a run of the checkpointed stores. -/
theorem represents_change (henc : enc.RoundTrips) {h h' : Host F16 F32 F64} {op : HostOp F32}
    {c : Checkpoint Path (Stores F16)} (hc : SoundStores num c) (hrep : Represents num enc h c)
    (hchange : HostChange num enc h op h') :
    ∃ c', Reachable (StoresCheckpointStep num) c c' ∧ Represents num enc h' c' := by
  have hhas := hrep.has
  obtain ⟨live, durable⟩ := c
  obtain ⟨hlive, hdurable⟩ := hrep
  cases hchange with
  | rests hdbs hkept hnone =>
      refine ⟨_, Reachable.refl, hlive.trans ?_, fun file => by rw [hdbs]; exact hdurable file⟩
      cases hd' : h'.daemon with
      | none => rw [hnone hd']
      | some d' =>
          obtain ⟨d, hd, hrepo, hstores⟩ := hkept d' hd'
          rw [hd, Option.map_some, Option.map_some, Daemon.live, Daemon.live, hrepo, hstores]
  | @works d d' hd hd' hdbs hrepo hwork =>
      rw [hd] at hlive
      subst hlive
      refine ⟨_, Checkpoint.reachable_work hwork.reachable, ?_,
        fun file => by rw [hdbs]; exact hdurable file⟩
      rw [hd', Option.map_some, Daemon.live, hrepo]
  | @saves d d' hd hd' hrepo hstores hsaved =>
      rw [hd] at hlive
      subst hlive
      have hutf8 : d.stores.Utf8 := utf8_of_reachable num (hc.live _ _ rfl)
      have hsame : h'.daemon.map Daemon.live = some d.live := by
        rw [hd', Option.map_some, Daemon.live, hrepo, hstores]
        rfl
      cases hfile : d.repo with
      | noop =>
          -- nothing is written
          rw [hfile] at hsaved
          refine ⟨_, Reachable.refl, hsame.symm, fun file => ?_⟩
          rw [show h'.dbs = h.dbs from hsaved]
          exact hdurable file
      | sqlite file =>
          have hlive : d.live = (some file, d.stores) := by
            rw [Daemon.live, hfile]
            rfl
          rw [Option.map_some, hlive]
          refine ⟨_, Reachable.refl.tail Checkpoint.Step.commit, hlive ▸ hsame.symm,
            fun file' => ?_⟩
          change Stored num enc (h'.dbs file') (Function.update durable file d.stores file')
          by_cases hne : file' = file
          · rw [hne, Function.update_self]
            exact stored_of_saved henc hutf8 hfile hsaved
          · rw [Function.update_of_ne hne, hsaved.other fun heq => hne ?_]
            · exact hdurable file'
            · exact (Repository.sqlite.inj (hfile.symm.trans heq)).symm
  | ends hdbs hnone =>
      refine ⟨_, Reachable.refl.tail Checkpoint.Step.stop, ?_,
        fun file => by rw [hdbs]; exact hdurable file⟩
      rw [hnone]
      rfl
  | starts _ hd hdbs hload hrestore hd' hrepo hstores =>
      have hrecovers := restoredUnder_of_has (hhas _) hload hrestore
      rw [hd] at hlive
      refine ⟨_, Reachable.refl.tail (Checkpoint.Step.recover hlive ⟨_, hrecovers⟩), ?_,
        fun file => by rw [hdbs]; exact hdurable file⟩
      rw [hd', Option.map_some, Daemon.live, hrepo, hstores]

theorem exists_represented (henc : enc.RoundTrips) {now : ℕ} {h : Host F16 F32 F64}
    (hr : Reachable (HostStep num enc ln2) (Host.initial F16 F32 F64 now) h) :
    ∃ c, Reachable (StoresCheckpointStep num) ⟨none, fun _ => ∅⟩ c ∧
      Represents num enc h c ∧ SoundStores num c := by
  refine hr.simulation (R := fun h c => Represents num enc h c ∧ SoundStores num c) ?_ ?_
  · exact ⟨⟨rfl, fun _ => stored_empty⟩, soundStores_initial⟩
  · rintro h₁ op h₂ c ⟨hrep, hc⟩ hstep
    obtain ⟨c', hc', hrep'⟩ := represents_change henc hc hrep (hostChange_of_step hstep)
    exact ⟨c', hc', hrep', soundStores_of_reachable hc hc'⟩

end Refines

/-- Every run of the daemon is a run of checkpointed stores: however ticks, reloads, saves, failures
    and kills interleave, the database of each state file has the records of what was committed to it
    last, and a process without a state file starts from empty stores and commits nothing. -/
theorem daemon_refines_checkpoint (henc : enc.RoundTrips) {now : ℕ} {h : Host F16 F32 F64}
    (hr : Reachable (HostStep num enc ln2) (Host.initial F16 F32 F64 now) h) :
    ∃ c, Reachable (StoresCheckpointStep num) ⟨none, fun _ => ∅⟩ c ∧
      Represents num enc h c := by
  obtain ⟨c, hc, hrep, -⟩ := exists_represented henc hr
  exact ⟨c, hc, hrep⟩

/-- The default configuration with a state file and without a least size. -/
def Settings.stateful (file : String) : Settings ℚ :=
  let config := Settings.default 0
  { config with
    model := { config.model with minsize := 0 }
    persistence := { config.persistence with statePath := some (.ofString file) } }

/-- A save on demand drops the tick that waits for its prefetch; then the process is killed. One with
    another state file and one without any find nothing. -/
theorem daemon_refines_checkpoint_killed :
    ∃ (h : Host ℚ ℚ ℚ) (c : Checkpoint Path (Stores ℚ)),
      (h.dbs (Path.ofString "/a.db")).exes.rows.length = 2 ∧
      (h.dbs (Path.ofString "/b.db")).exes.rows.length = 0 ∧ h.daemon.isNone = true ∧
      Reachable (StoresCheckpointStep Numerics.rational) ⟨none, fun _ => ∅⟩ c ∧
      Represents Numerics.rational Encoding.rational h c := by
  let save : HostOp ℚ := .control ⟨.insertion, 0, none, 1⟩
  let ops : List (HostOp ℚ) :=
    [.start (.stateful "/a.db") .plain,
      .beginTick (.ofScan (.ok (.ofRunning 0 ["/bin/a", "/bin/b"]))), .sigusr2, save, .kill,
      .start (.stateful "/b.db") .plain, .sigusr2, save, .kill,
      .start (.stateful "/a.db") { Launch.plain with noPersist := true }, .sigusr2, save, .kill]
  have hany : ((Host.initial ℚ ℚ ℚ 0).execAll Numerics.rational Encoding.rational 1 ops).any
      (fun h => decide ((h.dbs (Path.ofString "/a.db")).exes.rows.length = 2) &&
        decide ((h.dbs (Path.ofString "/b.db")).exes.rows.length = 0) &&
          h.daemon.isNone) = true := by decide +kernel
  obtain ⟨h, hexec, hfinal⟩ := (Option.any_eq_true _ _).1 hany
  rw [Bool.and_eq_true, Bool.and_eq_true, decide_eq_true_iff, decide_eq_true_iff] at hfinal
  obtain ⟨c, hc, hrep⟩ := daemon_refines_checkpoint Numerics.rational Encoding.rational 1
    Encoding.roundTrips_rational (run_of_execAll _ _ _ hexec).reachable
  exact ⟨h, c, hfinal.1.1, hfinal.1.2, hfinal.2, hc, hrep⟩

end PreloadNg
