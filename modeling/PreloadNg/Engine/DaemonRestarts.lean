import PreloadNg.Engine.DaemonRun

set_option autoImplicit false

/-! # Restarts of the daemon

What a new process starts from, and what can end a process: the stores of the last save to its state
file, and nothing but errors from outside. -/

namespace PreloadNg

variable {F16 F32 F64 : Type} [Float32Ops F32] (num : Numerics F16 F32) (enc : Encoding F32 F64)
  (ln2 : F32)

/-! ## The last save -/

/-- The step leaves the database of the file that saving the stores of its process makes. -/
def Saves (file : Path) (h : Host F16 F32 F64) (_ : HostOp F32) (h' : Host F16 F32 F64) : Prop :=
  ∃ d, h.daemon = some d ∧ d.repo = .sqlite file ∧
    SavedAs num enc d.stores (h.dbs file) (h'.dbs file)

/-- A step without a save to the file. -/
def QuietStep (file : Path) (h : Host F16 F32 F64) (op : HostOp F32) (h' : Host F16 F32 F64) : Prop :=
  HostStep num enc ln2 h op h' ∧ ¬Saves num enc file h op h'

section LastSave

variable {num enc ln2} {h h' : Host F16 F32 F64} {file : Path}

theorem savedAs_of_saved {repo : Repository} {s : Stores F16} {dbs dbs' : Path → Database F64}
    (h : repo.Saved num enc s dbs dbs') (hrepo : repo = .sqlite file) :
    SavedAs num enc s (dbs file) (dbs' file) := by
  subst hrepo
  obtain ⟨db, hsaved, rfl⟩ := h
  rwa [Function.update_self]

theorem db_of_quiet (hr : Reachable (QuietStep num enc ln2 file) h h') :
    h'.dbs file = h.dbs file := by
  refine hr.invariant (I := fun h' => h'.dbs file = h.dbs file) rfl ?_
  rintro h₁ op h₂ ih ⟨hstep, hquiet⟩
  rw [← ih]
  cases hostChange_of_step hstep with
  | rests hdbs _ _ => rw [hdbs]
  | works _ _ hdbs _ _ => rw [hdbs]
  | saves hd _ _ _ hsaved =>
      exact hsaved.other fun hrepo => hquiet ⟨_, hd, hrepo, savedAs_of_saved hsaved hrepo⟩
  | ends hdbs _ => rw [hdbs]
  | starts _ _ hdbs _ _ _ _ _ => rw [hdbs]

/-- The stores of a process are reachable by the operations on stores. -/
theorem storesReachable_daemon (henc : enc.RoundTrips) {now : ℕ}
    (hr : Reachable (HostStep num enc ln2) (Host.initial F16 F32 F64 now) h) {d : Daemon F16 F32}
    (hd : h.daemon = some d) : StoresReachable num UnderDefaultPolicy d.stores := by
  obtain ⟨c, -, hrep, hsound⟩ := exists_represented henc hr
  exact hsound.live d.repo.file d.stores (by rw [hrep.live, hd, Option.map_some, Daemon.live])

theorem utf8_daemon (henc : enc.RoundTrips) {now : ℕ}
    (hr : Reachable (HostStep num enc ln2) (Host.initial F16 F32 F64 now) h) {d : Daemon F16 F32}
    (hd : h.daemon = some d) : d.stores.Utf8 :=
  utf8_of_reachable num (storesReachable_daemon henc hr hd)

theorem wf_daemon (henc : enc.RoundTrips) {now : ℕ}
    (hr : Reachable (HostStep num enc ln2) (Host.initial F16 F32 F64 now) h) {d : Daemon F16 F32}
    (hd : h.daemon = some d) : d.stores.WF :=
  wf_of_reachable num (storesReachable_daemon henc hr hd)

/-- For the given repositories: the stores of a process with one of them have the property, and so have
    those that it would load from one of them. -/
structure Host.Holds (num : Numerics F16 F32) (enc : Encoding F32 F64) (repos : Repository → Prop)
    (I : Stores F16 → Prop) (h : Host F16 F32 F64) : Prop where
  live : ∀ d, h.daemon = some d → repos d.repo → I d.stores
  durable : ∀ repo, repos repo → ∃ s : Stores F16, s.WF ∧ repo.Has num enc h.dbs s ∧ I s

variable {repos : Repository → Prop}

theorem Host.Holds.mono {I J : Stores F16 → Prop} (hholds : h.Holds num enc repos I)
    (hIJ : ∀ s, I s → J s) : h.Holds num enc repos J where
  live d hd hrepo := hIJ _ (hholds.live d hd hrepo)
  durable repo hrepo := by
    obtain ⟨s, hs, hhas, hI⟩ := hholds.durable repo hrepo
    exact ⟨s, hs, hhas, hIJ s hI⟩

theorem has_initial (repo : Repository) (now : ℕ) :
    repo.Has num enc (Host.initial F16 F32 F64 now).dbs (∅ : Stores F16) := by
  cases repo with
  | noop => rfl
  | sqlite file => exact stored_empty

theorem holds_initial {I : Stores F16 → Prop} (hempty : I ∅) (now : ℕ) :
    (Host.initial F16 F32 F64 now).Holds num enc repos I :=
  ⟨fun _ hd => (by cases hd), fun repo _ => ⟨∅, Stores.wf_empty, has_initial repo now, hempty⟩⟩

/-- What a repository has after a save: what was saved to it, or what it had. -/
theorem has_of_saved (henc : enc.RoundTrips) {repo repo' : Repository} {s t : Stores F16}
    (hs : s.Utf8) {dbs dbs' : Path → Database F64} (hsaved : repo.Saved num enc s dbs dbs')
    (hhas : repo'.Has num enc dbs t) :
    (repo' = repo ∧ repo'.Has num enc dbs' s) ∨ repo'.Has num enc dbs' t := by
  cases repo' with
  | noop => exact Or.inr hhas
  | sqlite file =>
      by_cases hrepo : repo = .sqlite file
      · exact Or.inl ⟨hrepo.symm, stored_of_saved henc hs hrepo hsaved⟩
      · right
        change Stored num enc (dbs' file) t
        rw [hsaved.other hrepo]
        exact hhas

/-- A property that restarts and the work of the step keep is kept by the step. -/
theorem holds_step (henc : enc.RoundTrips) {now : ℕ} {op : HostOp F32} {I : Stores F16 → Prop}
    (hr : Reachable (HostStep num enc ln2) (Host.initial F16 F32 F64 now) h)
    (hholds : h.Holds num enc repos I) (hstep : HostStep num enc ln2 h op h')
    (hrestored : ∀ (config : Settings F32) launch s t, op = .start config launch →
      repos (launch.repo config) → s.WF → I s → RestoredUnder num config s t → I t)
    (hworks : ∀ d s', h.daemon = some d → d.stores.WF → I d.stores → TickWork num d op s' → I s') :
    h'.Holds num enc repos I := by
  -- the databases change with a save only
  have hdurable : h'.dbs = h.dbs → ∀ repo, repos repo →
      ∃ s : Stores F16, s.WF ∧ repo.Has num enc h'.dbs s ∧ I s := by
    intro hdbs
    rw [hdbs]
    exact hholds.durable
  cases hostChange_of_step hstep with
  | rests hdbs hkept _ =>
      refine ⟨fun d' hd' hrepo' => ?_, hdurable hdbs⟩
      obtain ⟨d, hd, hrepo, hstores⟩ := hkept d' hd'
      rw [hrepo] at hrepo'
      rw [hstores]
      exact hholds.live d hd hrepo'
  | @works d d' hd hd' hdbs hrepo hwork =>
      refine ⟨fun d₁ hd₁ hrepo₁ => ?_, hdurable hdbs⟩
      obtain rfl := Option.some.inj (hd'.symm.trans hd₁)
      rw [hrepo] at hrepo₁
      exact hworks d _ hd (wf_daemon henc hr hd) (hholds.live d hd hrepo₁) hwork
  | @saves d d' hd hd' hrepo hstores hsaved =>
      refine ⟨fun d₁ hd₁ hrepo₁ => ?_, fun repo hrepo₁ => ?_⟩
      · obtain rfl := Option.some.inj (hd'.symm.trans hd₁)
        rw [hrepo] at hrepo₁
        rw [hstores]
        exact hholds.live d hd hrepo₁
      · obtain ⟨s, hs, hhas, hI⟩ := hholds.durable repo hrepo₁
        rcases has_of_saved henc (utf8_daemon henc hr hd) hsaved hhas with ⟨rfl, hnew⟩ | hold
        · exact ⟨d.stores, wf_daemon henc hr hd, hnew, hholds.live d hd hrepo₁⟩
        · exact ⟨s, hs, hold, hI⟩
  | ends hdbs hnone =>
      refine ⟨fun d' hd' => ?_, hdurable hdbs⟩
      rw [hnone] at hd'
      cases hd'
  | starts hop _ hdbs hload hrestore hd' hrepo hstores =>
      refine ⟨fun d₁ hd₁ hrepo₁ => ?_, hdurable hdbs⟩
      obtain rfl := Option.some.inj (hd'.symm.trans hd₁)
      rw [hrepo] at hrepo₁
      -- a process restores what its repository has
      obtain ⟨s, hs, hhas, hI⟩ := hholds.durable _ hrepo₁
      rw [hstores]
      exact hrestored _ _ s _ hop hrepo₁ hs hI (restoredUnder_of_has hhas hload hrestore)

/-- What a new process loads, from what its repository has. -/
theorem restored_of_start {config : Settings F32} {launch : Launch} {d' : Daemon F16 F32}
    {s : Stores F16} (hhas : (launch.repo config).Has num enc h.dbs s)
    (hstep : HostStep num enc ln2 h (.start config launch) h') (hd' : h'.daemon = some d') :
    d'.repo = launch.repo config ∧ RestoredUnder num config s d'.stores := by
  cases hostMove_of_step hstep with
  | starts _ =>
      obtain ⟨e, hloaded, rfl⟩ := daemon_start hd'
      obtain ⟨snapshot, hload, he⟩ := except_bind_eq_ok.1 hloaded
      obtain ⟨r, hr, rfl⟩ := (PreloadEngine.load_eq_ok num).1 he
      exact ⟨rfl, restoredUnder_of_has hhas hload hr⟩
  | sends _ hevent => cases hevent

end LastSave

/-- Where the records of a repository come from. A database is as it was at first, or some process with
    its file saved its stores `s` and nothing was saved to it since; without a file there is nothing. -/
def LastSaved (init h : Host F16 F32 F64) (repo : Repository) (s : Stores F16) : Prop :=
  match repo with
  | .noop => s = ∅
  | .sqlite file =>
    (s = ∅ ∧ Reachable (QuietStep num enc ln2 file) init h) ∨
      ∃ h₁ op h₂ d₁, Reachable (HostStep num enc ln2) init h₁ ∧ HostStep num enc ln2 h₁ op h₂ ∧
        h₁.daemon = some d₁ ∧ d₁.repo = .sqlite file ∧ d₁.stores = s ∧
        SavedAs num enc s (h₁.dbs file) (h₂.dbs file) ∧
        Reachable (QuietStep num enc ln2 file) h₂ h

section LastSave

variable {num enc ln2} {now : ℕ} {h : Host F16 F32 F64} {repo : Repository}

theorem exists_lastSaved
    (hr : Reachable (HostStep num enc ln2) (Host.initial F16 F32 F64 now) h) (repo : Repository) :
    ∃ s : Stores F16, LastSaved num enc ln2 (Host.initial F16 F32 F64 now) h repo s := by
  cases repo with
  | noop => exact ⟨∅, rfl⟩
  | sqlite file =>
      rcases hr.last (Saves num enc file) with
        hquiet | ⟨h₁, op, h₂, hr₁, hstep₁, ⟨d₁, hd₁, hrepo, hsaved⟩, hquiet⟩
      · exact ⟨∅, Or.inl ⟨rfl, hquiet⟩⟩
      · exact ⟨d₁.stores,
          Or.inr ⟨h₁, op, h₂, d₁, hr₁, hstep₁, hd₁, hrepo, rfl, hsaved, hquiet⟩⟩

/-- The repository still has the records that were saved last. -/
theorem has_of_lastSaved (henc : enc.RoundTrips) {s : Stores F16}
    (hlast : LastSaved num enc ln2 (Host.initial F16 F32 F64 now) h repo s) :
    s.WF ∧ repo.Has num enc h.dbs s := by
  cases repo with
  | noop =>
      obtain rfl : s = ∅ := hlast
      exact ⟨Stores.wf_empty, rfl⟩
  | sqlite file =>
      rcases hlast with ⟨rfl, hquiet⟩ | ⟨h₁, op, h₂, d₁, hr₁, -, hd₁, -, rfl, hsaved, hquiet⟩
      · refine ⟨Stores.wf_empty, ?_⟩
        change Stored num enc (h.dbs file) ∅
        rw [db_of_quiet hquiet]
        exact stored_empty
      · refine ⟨wf_daemon henc hr₁ hd₁, ?_⟩
        change Stored num enc (h.dbs file) d₁.stores
        rw [db_of_quiet hquiet]
        exact stored_of_savedAs henc (utf8_daemon henc hr₁ hd₁) hsaved

end LastSave

/-- A process that starts, at any point of any run, continues from the stores of the last save to its
    state file: what they recorded is restored, and the maps that its own policy denies are removed. -/
theorem start_recovers_last_save {num} {enc : Encoding F32 F64} {ln2} (henc : enc.RoundTrips)
    {now : ℕ} {h h' : Host F16 F32 F64} {config : Settings F32} {launch : Launch}
    {d' : Daemon F16 F32}
    (hr : Reachable (HostStep num enc ln2) (Host.initial F16 F32 F64 now) h)
    (hstep : HostStep num enc ln2 h (.start config launch) h') (hd' : h'.daemon = some d') :
    d'.repo = launch.repo config ∧
      ∃ s t, LastSaved num enc ln2 (Host.initial F16 F32 F64 now) h (launch.repo config) s ∧
        RestartSpec s config.model.activeWindow t ∧
        d'.stores = (PreloadEngine.deniedKeys ((DefaultAdmissionPolicy.new config.policy).toPolicy
          fun _ => none) t).foldl Stores.removeMapByKey t := by
  obtain ⟨s, hlast⟩ := exists_lastSaved hr (launch.repo config)
  obtain ⟨hs, hhas⟩ := has_of_lastSaved henc hlast
  obtain ⟨hrepo, ord, createdAt, t, ht, heq⟩ := restored_of_start hhas hstep hd'
  exact ⟨hrepo, s, t, hlast, restart_spec ht hs, heq⟩

/-- Two programs are saved on demand and the process is killed. One without a state file saves nothing,
    and the next one with the file has them again. -/
theorem start_recovers_last_save_killed :
    let config := Settings.stateful "/state.db"
    ∃ (h : Host ℚ ℚ ℚ) (d' : Daemon ℚ ℚ) (s t : Stores ℚ), d'.stores.exes.ids.length = 2 ∧
      d'.repo = .sqlite (Path.ofString "/state.db") ∧
      LastSaved Numerics.rational Encoding.rational 1 (Host.initial ℚ ℚ ℚ 0) h
        (Launch.plain.repo config) s ∧
      RestartSpec s config.model.activeWindow t ∧ d'.stores = (PreloadEngine.deniedKeys
        ((DefaultAdmissionPolicy.new config.policy).toPolicy
          fun _ => none) t).foldl Stores.removeMapByKey t := by
  intro config
  let save : HostOp ℚ := .control ⟨.insertion, 0, none, 1⟩
  let ops : List (HostOp ℚ) :=
    [.start config .plain, .beginTick (.ofScan (.ok (.ofRunning 0 ["/bin/a", "/bin/b"]))), .sigusr2,
      save, .kill, .start config { Launch.plain with noPersist := true }, .sigusr2, save, .kill]
  let final (h : Host ℚ ℚ ℚ) : Host ℚ ℚ ℚ :=
    h.start Numerics.rational Encoding.rational 1 config .plain
  have hany : ((Host.initial ℚ ℚ ℚ 0).execAll Numerics.rational Encoding.rational 1 ops).any
      (fun h => h.daemon.isNone && (final h).daemon.any fun d' =>
        decide (d'.stores.exes.ids.length = 2)) = true := by decide +kernel
  obtain ⟨h, hexec, hfinal⟩ := (Option.any_eq_true _ _).1 hany
  obtain ⟨hnone, hstarted⟩ := (Bool.and_eq_true _ _).mp hfinal
  obtain ⟨d', hd', hlength⟩ := (Option.any_eq_true _ _).1 hstarted
  have hstep : HostStep Numerics.rational Encoding.rational 1 h (.start config .plain)
      (final h) := by
    rw [HostStep, HostOp.exec, Option.isNone_iff_eq_none.1 hnone]
  obtain ⟨hrepo, s, t, hlast, hspec, heq⟩ := start_recovers_last_save Encoding.roundTrips_rational
    (run_of_execAll _ _ _ hexec).reachable hstep hd'
  exact ⟨h, d', s, t, of_decide_eq_true hlength, hrepo, hlast, hspec, heq⟩

/-! ## After the loop has ended -/

/-- There is no process, or its loop has ended. -/
def Idle (h : Host F16 F32 F64) : Prop :=
  ∀ d, h.daemon = some d → ∃ result, d.phase = .stopped result

/-- A step other than the start of a process. -/
def NoStart (h : Host F16 F32 F64) (op : HostOp F32) (h' : Host F16 F32 F64) : Prop :=
  HostStep num enc ln2 h op h' ∧ ∀ config launch, op ≠ .start config launch

theorem noStart_of_execAll {ops : List (HostOp F32)} {h h' : Host F16 F32 F64}
    (hexec : h.execAll num enc ln2 ops = some h')
    (hops : ∀ config launch, .start config launch ∉ ops) : Run (NoStart num enc ln2) h ops h' := by
  refine (run_of_execAll num enc ln2 hexec).restrict fun op hop config launch heq => ?_
  exact hops config launch (heq ▸ hop)

section Ended

variable {num enc ln2} {h h' : Host F16 F32 F64} {op : HostOp F32}

/-- Without a running loop nothing is done. -/
theorem idle_step (hidle : Idle h) (hstep : NoStart num enc ln2 h op h') :
    h'.dbs = h.dbs ∧ ∀ d', h'.daemon = some d' → ∃ d, h.daemon = some d ∧ d'.phase = d.phase := by
  obtain ⟨hexec, hop⟩ := hstep
  -- the other steps are of a loop that runs
  have hrests : ∀ {d : Daemon F16 F32} {P : Prop}, h.daemon = some d →
      (∀ result, d.phase ≠ .stopped result) → P := by
    intro d P hd hphase
    obtain ⟨result, hresult⟩ := hidle d hd
    exact absurd hresult (hphase result)
  cases hostMove_of_step hexec with
  | passes => exact ⟨rfl, fun d hd => ⟨d, hd, rfl⟩⟩
  | dies => exact ⟨rfl, fun d hd => by cases hd⟩
  | starts _ => exact absurd rfl (hop _ _)
  | ignores => exact ⟨rfl, fun d hd => ⟨d, hd, rfl⟩⟩
  | sends hd _ =>
      obtain ⟨result, hresult⟩ := hidle _ hd
      refine ⟨rfl, fun d' hd' => ⟨_, hd, ?_⟩⟩
      obtain rfl := Option.some.inj hd'
      rw [Daemon.send, hresult]
      exact hresult
  | cancels hd => exact ⟨rfl, fun d' hd' => ⟨_, hd, Option.some.inj hd' ▸ rfl⟩⟩
  | begins hd hphase | finishes hd hphase | autosaves hd hphase | wakes hd hphase _ =>
      exact hrests hd (by simp [hphase])
  | controls hd hphase _ =>
      rcases hphase with hphase | ⟨tick, hphase⟩
      · exact hrests hd (by simp [hphase])
      · exact hrests hd (by simp [hphase])
  | shuts hd hphase => exact hrests hd hphase

theorem idle_of_idle_step (hidle : Idle h) (hstep : NoStart num enc ln2 h op h') : Idle h' := by
  intro d' hd'
  obtain ⟨d, hd, hphase⟩ := (idle_step hidle hstep).2 d' hd'
  rw [hphase]
  exact hidle d hd

theorem dbs_of_idle (hidle : Idle h) (hr : Reachable (NoStart num enc ln2) h h') :
    h'.dbs = h.dbs := by
  have hinv : Idle h' ∧ h'.dbs = h.dbs := by
    refine hr.invariant (I := fun h' => Idle h' ∧ h'.dbs = h.dbs) ⟨hidle, rfl⟩ ?_
    rintro h₁ op h₂ ⟨hidle₁, hdbs⟩ hstep
    exact ⟨idle_of_idle_step hidle₁ hstep, (idle_step hidle₁ hstep).1.trans hdbs⟩
  exact hinv.2

/-- What a shutdown does. -/
theorem exec_cancelled {input : SaveInput} (hexec : HostStep num enc ln2 h (.cancelled input) h') :
    ∃ d, h.daemon = some d ∧ h' = h.shutdown num enc d input := by
  cases hostMove_of_step hexec with
  | shuts hd _ => exact ⟨_, hd, rfl⟩
  | sends _ hevent => cases hevent

theorem phase_shutdown {d d' : Daemon F16 F32} {input : SaveInput}
    (hd' : (h.shutdown num enc d input).daemon = some d') : d'.phase = .stopped (.ok ()) := by
  unfold Host.shutdown at hd'
  dsimp only at hd'
  split at hd'
  · split at hd'
    · exact (congrArg Daemon.phase (Option.some.inj hd')).symm
    · exact (congrArg Daemon.phase (Option.some.inj hd')).symm
  · exact (congrArg Daemon.phase (Option.some.inj hd')).symm

end Ended

/-- Nothing is lost by an orderly shutdown: the next process, whenever it starts with the same state
    file, continues from the stores that the loop ended with. -/
theorem restart_after_shutdown {num} {enc : Encoding F32 F64} {ln2} (henc : enc.RoundTrips)
    {now : ℕ} {h h₁ h₂ h₃ : Host F16 F32 F64} {d d₃ : Daemon F16 F32} {input : SaveInput}
    {file : Path} {config : Settings F32} {launch : Launch}
    (hr : Reachable (HostStep num enc ln2) (Host.initial F16 F32 F64 now) h)
    (hd : h.daemon = some d) (hfile : d.repo = .sqlite file)
    (hsaves : d.config.persistence.saveOnShutdown = true)
    (hfault : input.fault = none) (hcancelled : HostStep num enc ln2 h (.cancelled input) h₁)
    (hidle : Reachable (NoStart num enc ln2) h₁ h₂)
    (hstart : HostStep num enc ln2 h₂ (.start config launch) h₃)
    (hsame : launch.repo config = .sqlite file) (hd₃ : h₃.daemon = some d₃) :
    ∃ t, RestartSpec d.stores config.model.activeWindow t ∧
      d₃.stores = (PreloadEngine.deniedKeys ((DefaultAdmissionPolicy.new config.policy).toPolicy
        fun _ => none) t).foldl Stores.removeMapByKey t := by
  obtain ⟨d', hd', rfl⟩ := exec_cancelled hcancelled
  obtain rfl := Option.some.inj (hd.symm.trans hd')
  have hutf8 := utf8_daemon henc hr hd
  obtain ⟨db, hdb⟩ := saveSnapshot_isOk henc hutf8 input.ord input.createdAt (h.dbs file)
  have hsave : Daemon.save num enc { d with phase := .stopped (.ok ()) } input h.dbs =
      .ok (Function.update h.dbs file db) := by
    unfold Daemon.save Repository.save
    dsimp only
    rw [hfile, hfault]
    dsimp only
    rw [hdb]
    rfl
  have hafter : (h.shutdown num enc d input).dbs = Function.update h.dbs file db := by
    unfold Host.shutdown
    simp only [hsaves, if_true, hsave]
  have hhas : (launch.repo config).Has num enc h₂.dbs d.stores := by
    rw [hsame]
    change Stored num enc (h₂.dbs file) d.stores
    rw [dbs_of_idle (fun _ hd' => ⟨_, phase_shutdown hd'⟩) hidle, hafter, Function.update_self]
    exact stored_of_savedAs henc hutf8 ⟨input.ord, input.createdAt, hdb⟩
  obtain ⟨-, ord, createdAt, t, ht, heq⟩ := restored_of_start hhas hstart hd₃
  exact ⟨t, restart_spec ht (wf_daemon henc hr hd), heq⟩

/-- A cancellation drops the first tick, whose two programs are saved and loaded again. -/
theorem restart_after_shutdown_first_tick :
    let config := Settings.stateful "/state.db"
    ∃ (d d₃ : Daemon ℚ ℚ) (t : Stores ℚ), d.stores.exes.ids.length = 2 ∧
      d₃.stores.exes.ids.length = 2 ∧ RestartSpec d.stores config.model.activeWindow t ∧
      d₃.stores = (PreloadEngine.deniedKeys ((DefaultAdmissionPolicy.new config.policy).toPolicy
        fun _ => none) t).foldl Stores.removeMapByKey t := by
  intro config
  let ops : List (HostOp ℚ) :=
    [.start config .plain, .beginTick (.ofScan (.ok (.ofRunning 0 ["/bin/a", "/bin/b"]))), .ctrlC]
  let save : SaveInput := ⟨.insertion, 0, none, 1⟩
  let after (h : Host ℚ ℚ ℚ) : Option (Host ℚ ℚ ℚ) :=
    HostOp.exec Numerics.rational Encoding.rational 1 h (.cancelled save)
  let ended (h : Host ℚ ℚ ℚ) : Host ℚ ℚ ℚ := { h with daemon := none }
  let final (h : Host ℚ ℚ ℚ) : Host ℚ ℚ ℚ :=
    (ended h).start Numerics.rational Encoding.rational 1 config .plain
  have hany : ((Host.initial ℚ ℚ ℚ 0).execAll Numerics.rational Encoding.rational 1 ops).any
      (fun h => (h.daemon.any fun d => d.config.persistence.saveOnShutdown &&
        decide (d.repo = .sqlite (Path.ofString "/state.db")) &&
        decide (d.stores.exes.ids.length = 2)) &&
        (after h).any fun h₁ => (final h₁).daemon.any fun d₃ =>
          decide (d₃.stores.exes.ids.length = 2)) = true := by decide +kernel
  obtain ⟨h, hexec, hfinal⟩ := (Option.any_eq_true _ _).1 hany
  obtain ⟨hdaemon, hafter⟩ := (Bool.and_eq_true _ _).mp hfinal
  obtain ⟨d, hd, hall⟩ := (Option.any_eq_true _ _).1 hdaemon
  obtain ⟨hboth, hlength⟩ := (Bool.and_eq_true _ _).mp hall
  obtain ⟨hsaves, hrepo⟩ := (Bool.and_eq_true _ _).mp hboth
  obtain ⟨h₁, hcancelled, hany₃⟩ := (Option.any_eq_true _ _).1 hafter
  obtain ⟨d₃, hd₃, hlength₃⟩ := (Option.any_eq_true _ _).1 hany₃
  have hended : Reachable (NoStart Numerics.rational Encoding.rational 1) h₁ (ended h₁) :=
    Reachable.refl.tail (i := .kill) ⟨rfl, fun _ _ heq => by cases heq⟩
  obtain ⟨t, hspec, heq⟩ := restart_after_shutdown Encoding.roundTrips_rational
    (run_of_execAll _ _ _ hexec).reachable hd (of_decide_eq_true hrepo) hsaves rfl hcancelled
    hended (show HostStep _ _ _ (ended h₁) (.start config .plain) (final h₁) from rfl) rfl hd₃
  exact ⟨d, d₃, t, of_decide_eq_true hlength, of_decide_eq_true hlength₃, hspec, heq⟩

/-! ## What ends a process -/

/-- The step meets an error from outside: of the scan or of the file system. -/
def HostOp.Meets (err : Error) : HostOp F32 → Prop
  | .beginTick input => input.scan = .error err
  | .control save => save.fault = some err
  | .autosave save => save.fault = some err
  | _ => False

/-- The error that the loop has ended with. -/
def Phase.failure : Phase F16 → Option Error
  | .stopped (.error err) => some err
  | _ => none

theorem Phase.failure_eq_some {phase : Phase F16} {err : Error} :
    phase.failure = some err ↔ phase = .stopped (.error err) := by
  cases phase with
  | stopped result => cases result <;> simp [Phase.failure]
  | _ => simp [Phase.failure]

/-- The loop has ended with an error. -/
def FailedWith (err : Error) (h : Host F16 F32 F64) : Prop :=
  ∃ d, h.daemon = some d ∧ d.phase = .stopped (.error err)

section Failures

variable {num enc ln2} {h h' : Host F16 F32 F64} {err : Error}

/-- A save that does not meet an error succeeds. -/
def SavesSucceed (num : Numerics F16 F32) (enc : Encoding F32 F64) (h : Host F16 F32 F64) : Prop :=
  ∀ d, h.daemon = some d → ∀ (ord : HashOrder) (createdAt : ℤ), ∃ dbs,
    d.repo.save enc none (snapshotFromStores num ord createdAt d.stores) h.dbs = .ok dbs

/-- Saving stores with UTF-8 paths to a repository succeeds. -/
theorem save_isOk (henc : enc.RoundTrips) {s : Stores F16} (hs : s.Utf8) (ord : HashOrder)
    (createdAt : ℤ) (repo : Repository) (dbs : Path → Database F64) :
    ∃ dbs', repo.save enc none (snapshotFromStores num ord createdAt s) dbs = .ok dbs' := by
  cases repo with
  | noop => exact ⟨dbs, rfl⟩
  | sqlite file =>
      obtain ⟨db, hdb⟩ := saveSnapshot_isOk henc hs ord createdAt (dbs file)
      refine ⟨Function.update dbs file db, ?_⟩
      unfold Repository.save
      dsimp only
      rw [hdb]
      rfl

omit [Float32Ops F32] in
/-- Only an error from outside makes a save fail. -/
theorem fault_of_save_error {fault : Option Error} {snapshot : StoresSnapshot F32}
    {repo : Repository} {dbs : Path → Database F64}
    (hsave : ∃ dbs', repo.save enc none snapshot dbs = .ok dbs')
    (herr : repo.save enc fault snapshot dbs = .error err) : fault = some err := by
  cases repo with
  | noop => cases herr
  | sqlite file =>
      cases fault with
      | some e =>
          cases herr
          rfl
      | none =>
          obtain ⟨dbs', hok⟩ := hsave
          rw [hok] at herr
          cases herr

theorem fault_of_failed_saveOrStop {d : Daemon F16 F32} {input : SaveInput}
    (hfailed : FailedWith err (h.saveOrStop num enc d input))
    (hphase : ∀ result, d.phase ≠ .stopped result)
    (hsave : ∃ dbs, d.repo.save enc none
      (snapshotFromStores num input.ord input.createdAt d.stores) h.dbs = .ok dbs) :
    input.fault = some err := by
  obtain ⟨d', hd', hstopped⟩ := hfailed
  unfold Host.saveOrStop at hd'
  dsimp only at hd'
  cases hresult : d.save num enc input h.dbs with
  | ok dbs =>
      rw [hresult] at hd'
      obtain rfl := Option.some.inj hd'
      exact absurd hstopped (hphase _)
  | error e =>
      rw [hresult] at hd'
      obtain rfl := Option.some.inj hd'
      obtain rfl := Except.error.inj (Phase.stopped.inj hstopped)
      exact fault_of_save_error hsave hresult

omit [Float32Ops F32] in
theorem nextPhase_ne_stopped (d : Daemon F16 F32) (now tickStart : ℕ) (didTick : Bool)
    (result : Except Error Unit) : d.nextPhase now tickStart didTick ≠ .stopped result := by
  unfold Daemon.nextPhase
  split
  · exact fun heq => by cases heq
  · exact fun heq => by cases heq

omit [Float32Ops F32] in
/-- Sending an event does not end the loop. -/
theorem failed_of_send {d : Daemon F16 F32} {event : ControlEvent F32} (hd : h.daemon = some d)
    (hfailed : FailedWith err { h with daemon := some (d.send event) }) : FailedWith err h := by
  obtain ⟨d', hd', hphase⟩ := hfailed
  obtain rfl := Option.some.inj hd'
  refine ⟨d, hd, ?_⟩
  unfold Daemon.send at hphase
  split at hphase
  · exact hphase
  · exact hphase

theorem fault_of_failed_control {d : Daemon F16 F32} {control : List (ControlEvent F32)}
    {tickStart : ℕ} {event : ControlEvent F32} {input : SaveInput}
    (hsave : ∀ (ord : HashOrder) (createdAt : ℤ), ∃ dbs,
      d.repo.save enc none (snapshotFromStores num ord createdAt d.stores) h.dbs = .ok dbs)
    (hfailed : FailedWith err
      (h.handleControl num enc { d with control } tickStart event input)) :
    input.fault = some err := by
  unfold Host.handleControl at hfailed
  cases event with
  | reload bundle =>
      obtain ⟨d', hd', hphase⟩ := hfailed
      obtain rfl := Option.some.inj hd'
      cases hphase
  | dumpStatus =>
      obtain ⟨d', hd', hphase⟩ := hfailed
      obtain rfl := Option.some.inj hd'
      cases hphase
  | saveNow =>
      refine fault_of_failed_saveOrStop hfailed ?_ (hsave _ _)
      exact fun _ heq => by cases heq

/-- An error of `beginTick` is that of the scan. -/
theorem scan_of_beginTick_error {e : PreloadEngine F16 F32} {input : TickInput}
    (herr : (e.beginTick num input).2 = .error err) : input.scan = .error err := by
  cases hscan : input.scan with
  | ok obs =>
      obtain ⟨t, ht⟩ := e.beginTick_isOk num input hscan
      exact absurd (ht.symm.trans herr) (by simp)
  | error e₀ =>
      unfold PreloadEngine.beginTick at herr
      dsimp only at herr
      rw [hscan] at herr
      by_cases hdoscan : e.config.doscan = true
      · simp only [hdoscan, if_true] at herr
        cases herr
        rfl
      · simp only [hdoscan] at herr
        exact absurd herr (by simp)

/-- A step after which the loop has failed met the error, or the loop had failed before. -/
theorem failed_step {op : HostOp F32} (hsaves : SavesSucceed num enc h)
    (hstep : HostStep num enc ln2 h op h') (hfailed : FailedWith err h') :
    op.Meets err ∨ FailedWith err h := by
  cases hostMove_of_step hstep with
  | passes => exact Or.inr hfailed
  | dies =>
      obtain ⟨d', hd', -⟩ := hfailed
      cases hd'
  | starts _ =>
      obtain ⟨d', hd', hphase⟩ := hfailed
      obtain ⟨e, -, rfl⟩ := daemon_start hd'
      cases hphase
  | ignores => exact Or.inr hfailed
  | sends hd _ => exact Or.inr (failed_of_send hd hfailed)
  | cancels hd =>
      obtain ⟨d', hd', hphase⟩ := hfailed
      obtain rfl := Option.some.inj hd'
      exact Or.inr ⟨_, hd, hphase⟩
  | begins hd _ =>
      obtain ⟨d', hd', hphase⟩ := hfailed
      obtain rfl := Option.some.inj hd'
      unfold Daemon.beginTick at hphase
      dsimp only at hphase
      split at hphase
      · cases hphase
      · next e herr =>
        cases hphase
        exact Or.inl (scan_of_beginTick_error herr)
  | finishes hd _ =>
      obtain ⟨d', hd', hphase⟩ := hfailed
      obtain rfl := Option.some.inj hd'
      cases hphase
  | controls hd _ _ => exact Or.inl (fault_of_failed_control (hsaves _ hd) hfailed)
  | shuts hd _ =>
      obtain ⟨d', hd', hphase⟩ := hfailed
      exact absurd hphase (by rw [phase_shutdown hd']; simp)
  | autosaves hd _ =>
      unfold Host.autosave at hfailed
      split at hfailed
      · exact Or.inl (fault_of_failed_saveOrStop hfailed
          (fun _ => nextPhase_ne_stopped _ _ _ _ _) (hsaves _ hd _ _))
      · obtain ⟨d', hd', hphase⟩ := hfailed
        obtain rfl := Option.some.inj hd'
        exact absurd hphase (nextPhase_ne_stopped _ _ _ _ _)
  | wakes hd _ _ =>
      obtain ⟨d', hd', hphase⟩ := hfailed
      obtain rfl := Option.some.inj hd'
      cases hphase

/-- A repository that a run has left can be loaded, when the file system lets it be opened. -/
theorem exists_loaded (henc : enc.RoundTrips) {now : ℕ}
    (hr : Reachable (HostStep num enc ln2) (Host.initial F16 F32 F64 now) h) (repo : Repository)
    (activeWindow : UInt64) :
    ∃ snapshot t, repo.load enc none h.dbs = .ok snapshot ∧
      storesFromSnapshot num snapshot activeWindow = .ok t := by
  obtain ⟨c, -, hrep, -⟩ := exists_represented henc hr
  have hrestored : ∀ (ord : HashOrder) (createdAt : ℤ) (s : Stores F16), ∃ t,
      storesFromSnapshot num (snapshotFromStores num ord createdAt s) activeWindow = .ok t :=
    fun ord createdAt s => (storesFromSnapshot_isOk_iff num _ activeWindow).2
      (resolves_snapshot num ord createdAt s)
  cases repo with
  | noop =>
      obtain ⟨t, ht⟩ := hrestored .insertion 0 ∅
      exact ⟨_, t, rfl, ht⟩
  | sqlite file =>
      obtain ⟨ord, createdAt, loaded, hload, hstate⟩ := hrep.durable file
      obtain ⟨t, ht⟩ := hrestored ord createdAt (c.durable file)
      rw [storesFromSnapshot_congr num _ _ hstate.symm] at ht
      exact ⟨loaded, t, hload, ht⟩

end Failures

end PreloadNg
