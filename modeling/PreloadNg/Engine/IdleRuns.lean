import PreloadNg.Engine.DaemonRestarts
import PreloadNg.Engine.Purge

set_option autoImplicit false

/-! # Runs without ticks

What is saved to a state file is restored, saved again and restored again by process after process,
each under its own configuration. As long as no tick does any work, the records only lose what one of these
configurations has no use for: maps that its policy denies, and edges of executables that it takes
for inactive. -/

namespace PreloadNg

variable {F16 F32 F64 : Type}

section Persisted

@[simp] theorem Exe.persisted_persisted (e : Exe) : e.persisted.persisted = e.persisted := rfl

@[simp] theorem MapSegment.persisted_persisted (m : MapSegment) :
    m.persisted.persisted = m.persisted := rfl

@[simp] theorem Edge.persisted_persisted (now now' : UInt64) (e : Edge F16) :
    (e.persisted now).persisted now' = e.persisted now' := rfl

end Persisted

/-- Two conditions that do not depend on the value, each followed by a map. -/
theorem filter_map_filter {α : Type} (o : Option α) (b c : Bool) (f g : α → α) :
    (((o.filter fun _ => b).map f).filter fun _ => c).map g =
      (o.filter fun _ => c && b).map (g ∘ f) := by
  cases o with
  | none => rfl
  | some a => cases b <;> cases c <;> rfl

variable [Float32Ops F32]

/-- Whether `load` keeps the maps of a path. -/
def Settings.allowsMap (config : Settings F32) (path : Path) : Bool :=
  ((DefaultAdmissionPolicy.new config.policy).toPolicy fun _ => none).allowMap path

/-- The stores `t` have the records of `s` that every one of the configurations keeps, the latest
    first; it alone decides what is active. -/
structure KeptThrough (s : Stores F16) (config : Settings F32) (earlier : List (Settings F32))
    (t : Stores F16) : Prop where
  modelTime : t.modelTime = s.modelTime
  lastAccountingTime : t.lastAccountingTime = s.lastAccountingTime
  exeAt : ∀ p, t.exeAt p = (s.exeAt p).map Exe.persisted
  mapAt : ∀ key, t.mapAt key = ((s.mapAt key).filter fun _ =>
    (config :: earlier).all fun c => c.allowsMap key.path).map MapSegment.persisted
  relAt : ∀ p key, t.relAt p key ↔
    s.relAt p key ∧ ∀ c ∈ config :: earlier, c.allowsMap key.path = true
  activeAt : ∀ p, t.activeAt p =
    if s.isRecentAt config.model.activeWindow p then some s.modelTime else none
  edgeAt : ∀ p q, t.edgeAt p q = ((s.edgeAt p q).filter fun _ => (config :: earlier).all fun c =>
    s.isRecentAt c.model.activeWindow p && s.isRecentAt c.model.activeWindow q).map
      (Edge.persisted s.modelTime)

/-! ## One process -/

section Restored

variable {num : Numerics F16 F32} {config : Settings F32} {s t : Stores F16}

omit [Float32Ops F32] in
/-- The maps that are left after a purge. -/
theorem Purged.mapAt {gone : MapKey → Prop} [DecidablePred gone] (h : Purged gone s t)
    (key : MapKey) : t.mapAt key = (s.mapAt key).filter fun _ => !decide (gone key) := by
  refine Option.ext fun m => ?_
  rw [Stores.mapAt_eq_some, Option.filter_eq_some_iff, Stores.mapAt_eq_some]
  constructor
  · rintro ⟨id, hm, rfl⟩
    obtain ⟨hm, hkept⟩ := (h.maps id m).1 hm
    exact ⟨⟨id, hm, rfl⟩, by simpa using hkept⟩
  · rintro ⟨⟨id, hm, rfl⟩, hkept⟩
    exact ⟨id, (h.maps id m).2 ⟨hm, by simpa using hkept⟩, rfl⟩

omit [Float32Ops F32] in
theorem Purged.relAt {gone : MapKey → Prop} (h : Purged gone s t) (p : Path) (key : MapKey) :
    t.relAt p key ↔ s.relAt p key ∧ ¬gone key := by
  unfold Stores.relAt
  rw [h.exes]
  constructor
  · rintro ⟨e, m, he, hm, hrel⟩
    obtain ⟨hm, hkept⟩ := (h.idByKey key m).1 hm
    exact ⟨⟨e, m, he, hm, ((h.rel e m).1 hrel).1⟩, hkept⟩
  · rintro ⟨⟨e, m, he, hm, hrel⟩, hkept⟩
    have hm' := (h.idByKey key m).2 ⟨hm, hkept⟩
    obtain ⟨seg, hseg, -⟩ := KeyedStore.idByKey_eq_some.1 hm'
    exact ⟨e, m, he, hm', (h.rel e m).2 ⟨hrel, seg, hseg⟩⟩

/-- The records that a process loads. -/
theorem keptThrough_restored (hs : s.WF) (h : RestoredUnder num config s t) :
    KeptThrough s config [] t := by
  obtain ⟨ord, createdAt, r, hr, rfl⟩ := h
  have hspec := restart_spec hr hs
  have hrestart : (StoresOp.restart ord createdAt config.model.activeWindow).exec num s = .ok r := hr
  have hwf : r.WF := wf_exec num hs hrestart
  -- of what is restored, the maps that the rules deny go
  have hpurged : Purged (fun key => config.allowsMap key.path = false) r
      ((PreloadEngine.deniedKeys ((DefaultAdmissionPolicy.new config.policy).toPolicy
        fun _ => none) r).foldl Stores.removeMapByKey r) :=
    (purged_removeMaps hwf _).congr fun _ _ hm => mem_deniedKeys hm
  generalize (PreloadEngine.deniedKeys ((DefaultAdmissionPolicy.new config.policy).toPolicy
    fun _ => none) r).foldl Stores.removeMapByKey r = t at hpurged
  constructor
  · exact hpurged.modelTime.trans hspec.modelTime
  · exact hpurged.lastAccountingTime.trans hspec.lastAccountingTime
  · intro p
    rw [Stores.exeAt, hpurged.exes]
    exact hspec.exeAt p
  · intro key
    rw [hpurged.mapAt, hspec.mapAt]
    cases s.mapAt key with
    | none => rfl
    | some m =>
        rw [List.all_cons, List.all_nil, Bool.and_true]
        cases config.allowsMap key.path <;> rfl
  · intro p key
    rw [hpurged.relAt, hspec.relAt]
    simp
  · intro p
    rw [Stores.activeAt, hpurged.exes, hpurged.active]
    exact hspec.activeAt p
  · intro p q
    rw [Stores.edgeAt, hpurged.exes, hpurged.markov]
    refine (hspec.edgeAt p q).trans ?_
    simp

/-- One more process. -/
theorem KeptThrough.restored {config₀ : Settings F32} {earlier : List (Settings F32)}
    {u : Stores F16} (h : KeptThrough s config₀ earlier t) (ht : t.WF)
    (hu : RestoredUnder num config t u) : KeptThrough s config (config₀ :: earlier) u := by
  have hnext := keptThrough_restored ht hu
  have hrecent : ∀ window p, t.isRecentAt window p = s.isRecentAt window p := by
    intro window p
    rw [Stores.isRecentAt, h.exeAt, h.modelTime, Stores.isRecentAt]
    cases s.exeAt p <;> rfl
  constructor
  · exact hnext.modelTime.trans h.modelTime
  · exact hnext.lastAccountingTime.trans h.lastAccountingTime
  · intro p
    rw [hnext.exeAt, h.exeAt, Option.map_map]
    rfl
  · intro key
    rw [hnext.mapAt, h.mapAt, filter_map_filter, List.all_cons, List.all_nil, Bool.and_true]
    rfl
  · intro p key
    rw [hnext.relAt, h.relAt, List.forall_mem_singleton, List.forall_mem_cons (a := config),
      and_assoc]
    exact and_congr_right fun _ => and_comm
  · intro p
    rw [hnext.activeAt, hrecent, h.modelTime]
  · intro p q
    rw [hnext.edgeAt, h.edgeAt, h.modelTime, filter_map_filter, List.all_cons, List.all_nil,
      Bool.and_true, hrecent, hrecent]
    rfl

end Restored

/-! ## Runs -/

variable (num : Numerics F16 F32) (enc : Encoding F32 F64) (ln2 : F32)

/-- The operations of a tick. -/
def HostOp.Ticks : HostOp F32 → Prop
  | .beginTick _ => True
  | .finishTick _ _ => True
  | _ => False

/-- A step of a process that does not tick. -/
def NoTick (h : Host F16 F32 F64) (op : HostOp F32) (h' : Host F16 F32 F64) : Prop :=
  HostStep num enc ln2 h op h' ∧ ¬op.Ticks

/-- The configuration of a process that is started with the repository. -/
def HostOp.startConfig (repo : Repository) : HostOp F32 → Option (Settings F32)
  | .start config launch => if launch.repo config = repo then some config else none
  | _ => none

/-- The configurations that processes were started with on the repository, the latest first. -/
def startedWith (repo : Repository) (ops : List (HostOp F32)) : List (Settings F32) :=
  (ops.filterMap (HostOp.startConfig repo)).reverse

section Runs

variable {num enc ln2} {s : Stores F16} {repo : Repository}

omit [Float32Ops F32] in
theorem startedWith_concat (ops : List (HostOp F32)) (op : HostOp F32) :
    startedWith repo (ops ++ [op]) = (op.startConfig repo).toList ++ startedWith repo ops := by
  unfold startedWith
  cases h : op.startConfig repo <;> simp [h]

theorem TickWork.ticks {d : Daemon F16 F32} {op : HostOp F32} {s' : Stores F16}
    (h : TickWork num d op s') : op.Ticks := by
  cases h <;> trivial

/-- The stores are what some of the configurations keep of `s`. -/
def KeptBy (s : Stores F16) (configs : List (Settings F32)) (t : Stores F16) : Prop :=
  ∃ config earlier, (config :: earlier).Sublist configs ∧ KeptThrough s config earlier t

omit [Float32Ops F32] in
theorem KeptBy.mono {configs configs' : List (Settings F32)} {t : Stores F16}
    (h : KeptBy s configs t) (hsub : configs.Sublist configs') : KeptBy s configs' t := by
  obtain ⟨config, earlier, hsub₁, hkept⟩ := h
  exact ⟨config, earlier, hsub₁.trans hsub, hkept⟩

/-- What is known after operations without a tick, begun without a process. -/
structure KeptSoFar (num : Numerics F16 F32) (enc : Encoding F32 F64) (repo : Repository)
    (s : Stores F16) (configs : List (Settings F32)) (h : Host F16 F32 F64) : Prop where
  has : repo.Has num enc h.dbs s ∨
    ∃ t : Stores F16, t.WF ∧ repo.Has num enc h.dbs t ∧ KeptBy s configs t
  live : ∀ d, h.daemon = some d → d.repo = repo → KeptBy s configs d.stores

theorem KeptSoFar.mono {configs configs' : List (Settings F32)} {h : Host F16 F32 F64}
    (hkept : KeptSoFar num enc repo s configs h) (hsub : configs.Sublist configs') :
    KeptSoFar num enc repo s configs' h where
  has := hkept.has.imp_right fun ⟨t, ht, hhas, hby⟩ => ⟨t, ht, hhas, hby.mono hsub⟩
  live d hd hrepo := (hkept.live d hd hrepo).mono hsub

/-- A process that starts keeps what its configuration keeps. -/
theorem KeptSoFar.start {configs : List (Settings F32)} {h : Host F16 F32 F64}
    (hkept : KeptSoFar num enc repo s configs h) (hs : s.WF) {config : Settings F32}
    {fault : Option Error} {snapshot : StoresSnapshot F32} {r : Stores F16}
    (hload : repo.load enc fault h.dbs = .ok snapshot)
    (hrestore : storesFromSnapshot num snapshot config.model.activeWindow = .ok r) :
    KeptBy s (config :: configs) ((PreloadEngine.deniedKeys
      ((DefaultAdmissionPolicy.new config.policy).toPolicy fun _ => none) r).foldl
        Stores.removeMapByKey r) := by
  rcases hkept.has with hhas | ⟨t, ht, hhas, config₀, earlier, hsub, hthrough⟩
  · have hrestored := restoredUnder_of_has hhas hload hrestore
    exact ⟨config, [], List.singleton_sublist.2 List.mem_cons_self,
      keptThrough_restored hs hrestored⟩
  · have hrestored := restoredUnder_of_has hhas hload hrestore
    exact ⟨config, config₀ :: earlier, hsub.cons_cons config, hthrough.restored ht hrestored⟩

/-- Every step. -/
theorem keptSoFar_step (henc : enc.RoundTrips) (hs : s.WF) {now : ℕ} {ops : List (HostOp F32)}
    {h h' : Host F16 F32 F64} {op : HostOp F32}
    (hr : Reachable (HostStep num enc ln2) (Host.initial F16 F32 F64 now) h)
    (hkept : KeptSoFar num enc repo s (startedWith repo ops) h)
    (hstep : NoTick num enc ln2 h op h') :
    KeptSoFar num enc repo s (startedWith repo (ops ++ [op])) h' := by
  obtain ⟨hexec, hop⟩ := hstep
  rw [startedWith_concat]
  have hmono := hkept.mono
    (List.sublist_append_right (op.startConfig repo).toList (startedWith repo ops))
  cases hostChange_of_step hexec with
  | rests hdbs hlive _ =>
      refine ⟨by rw [hdbs]; exact hmono.has, fun d' hd' hrepo' => ?_⟩
      obtain ⟨d, hd, hrepo, hstores⟩ := hlive d' hd'
      rw [hstores]
      exact hmono.live d hd (hrepo.symm.trans hrepo')
  -- only a tick works on the stores
  | works _ _ _ _ hwork => exact absurd hwork.ticks hop
  | saves hd hd' hrepo hstores hsaved =>
      have hlive := hmono.live _ hd
      refine ⟨?_, fun d₁ hd₁ hrepo₁ => ?_⟩
      · have hutf8 := utf8_daemon henc hr hd
        rcases hmono.has with hhas | ⟨t, ht, hhas, hby⟩
        · rcases has_of_saved henc hutf8 hsaved hhas with ⟨hsame, hnew⟩ | hold
          · exact Or.inr ⟨_, wf_daemon henc hr hd, hnew, hlive hsame.symm⟩
          · exact Or.inl hold
        · rcases has_of_saved henc hutf8 hsaved hhas with ⟨hsame, hnew⟩ | hold
          · exact Or.inr ⟨_, wf_daemon henc hr hd, hnew, hlive hsame.symm⟩
          · exact Or.inr ⟨t, ht, hold, hby⟩
      · obtain rfl := Option.some.inj (hd'.symm.trans hd₁)
        rw [hstores]
        exact hlive (hrepo.symm.trans hrepo₁)
  | ends hdbs hnone =>
      refine ⟨by rw [hdbs]; exact hmono.has, fun d' hd' => ?_⟩
      rw [hnone] at hd'
      cases hd'
  | starts hstart hnone hdbs hload hrestore hd' hrepo hstores =>
      refine ⟨by rw [hdbs]; exact hmono.has, fun d₁ hd₁ hrepo₁ => ?_⟩
      obtain rfl := Option.some.inj (hd'.symm.trans hd₁)
      have hsame := hrepo.symm.trans hrepo₁
      rw [hsame] at hload
      rw [hstart, HostOp.startConfig, if_pos hsame, hstores]
      exact hkept.start hs hload hrestore

end Runs

/-- In every run without ticks, whatever starts, reloads, saves, failures and kills it has, a process
    has the records last saved to its state file before it, but for what some of the configurations that
    processes were started with on this file do not keep. -/
theorem idle_runs_keep_records {num} {enc : Encoding F32 F64} {ln2} (henc : enc.RoundTrips)
    {now : ℕ} {h₀ h : Host F16 F32 F64} {ops : List (HostOp F32)} {s : Stores F16}
    {d : Daemon F16 F32}
    (hr : Reachable (HostStep num enc ln2) (Host.initial F16 F32 F64 now) h₀)
    (hsaved : LastSaved num enc ln2 (Host.initial F16 F32 F64 now) h₀ d.repo s)
    (hnone : h₀.daemon = none) (hrun : Run (NoTick num enc ln2) h₀ ops h)
    (hd : h.daemon = some d) :
    ∃ config earlier, (config :: earlier).Sublist (startedWith d.repo ops) ∧
      KeptThrough s config earlier d.stores := by
  obtain ⟨hs, hhas⟩ := has_of_lastSaved henc hsaved
  have hkept : KeptSoFar num enc d.repo s (startedWith d.repo ops) h := by
    refine hrun.invariant_of
      (J := fun h => Reachable (HostStep num enc ln2) (Host.initial F16 F32 F64 now) h)
      (I := fun ops h => KeptSoFar num enc d.repo s (startedWith d.repo ops) h) ?_ ?_ ?_
    · intro h₁ hr₁
      exact hr.trans (hr₁.mono fun _ _ _ hstep => hstep.1)
    · refine ⟨Or.inl hhas, fun d₁ hd₁ => ?_⟩
      rw [hnone] at hd₁
      cases hd₁
    · intro ops h₁ op h₂ hr₁ hkept hstep
      exact keptSoFar_step henc hs hr₁ hkept hstep
  exact hkept.live d hd rfl

/-- Two programs are saved and the process is killed. The next one saves them again on demand, one with
    another state file comes between, and the one after it still has them. -/
theorem idle_runs_keep_records_two_starts :
    let config := Settings.stateful "/state.db"
    let file : Repository := .sqlite (Path.ofString "/state.db")
    let ops : List (HostOp ℚ) :=
      [.start config .plain, .sigusr2, .control ⟨.insertion, 0, none, 1⟩, .kill,
        .start (.stateful "/other.db") .plain, .sigusr2, .control ⟨.insertion, 0, none, 1⟩, .kill,
        .start config .plain]
    ∃ (h₀ : Host ℚ ℚ ℚ) (s : Stores ℚ) (d : Daemon ℚ ℚ), d.stores.exes.ids.length = 2 ∧
      (startedWith file ops).length = 2 ∧
      LastSaved Numerics.rational Encoding.rational 1 (Host.initial ℚ ℚ ℚ 0) h₀ file s ∧
      ∃ config earlier, (config :: earlier).Sublist (startedWith file ops) ∧
        KeptThrough s config earlier d.stores := by
  intro config file ops
  let before : List (HostOp ℚ) :=
    [.start config .plain, .beginTick (.ofScan (.ok (.ofRunning 0 ["/bin/a", "/bin/b"]))),
      .sigusr2, .control ⟨.insertion, 0, none, 1⟩, .kill]
  have hany : ((Host.initial ℚ ℚ ℚ 0).execAll Numerics.rational Encoding.rational 1 before).any
      (fun h₀ => h₀.daemon.isNone &&
        (h₀.execAll Numerics.rational Encoding.rational 1 ops).any fun h =>
          h.daemon.any fun d => decide (d.repo = file) &&
            decide (d.stores.exes.ids.length = 2)) = true := by decide +kernel
  obtain ⟨h₀, hbefore, hrest⟩ := (Option.any_eq_true _ _).1 hany
  obtain ⟨hnone, hafter⟩ := (Bool.and_eq_true _ _).mp hrest
  obtain ⟨h, hexec, hlast⟩ := (Option.any_eq_true _ _).1 hafter
  obtain ⟨d, hd, hboth⟩ := (Option.any_eq_true _ _).1 hlast
  obtain ⟨hrepo, hlength⟩ := (Bool.and_eq_true _ _).mp hboth
  have hfile : d.repo = file := of_decide_eq_true hrepo
  have hr := (run_of_execAll _ _ _ hbefore).reachable
  obtain ⟨s, hsaved⟩ := exists_lastSaved hr file
  have hticks : ∀ op ∈ ops, ¬op.Ticks := by simp [ops, HostOp.Ticks]
  have hrun : Run (NoTick Numerics.rational Encoding.rational 1) h₀ ops h :=
    (run_of_execAll _ _ _ hexec).restrict (P := fun op : HostOp ℚ => ¬op.Ticks) hticks
  have hkept := idle_runs_keep_records Encoding.roundTrips_rational hr (hfile ▸ hsaved)
    (Option.isNone_iff_eq_none.1 hnone) hrun hd
  rw [hfile] at hkept
  exact ⟨h₀, s, d, of_decide_eq_true hlength, by decide +kernel, hsaved, hkept⟩

end PreloadNg
