import PreloadNg.Engine.ApplyByPath
import PreloadNg.Engine.DaemonTiming
import PreloadNg.Observation.RejectionCache

set_option autoImplicit false

/-! # The daemon with its rejection cache

The policy in force has a cache of its own from the reload that installs it to the next one. A tick
that scans looks up each candidate once and notes its answer; entries expire by the monotonic clock,
and the cache may lose any of them. -/

namespace PreloadNg

variable {F16 F32 F64 : Type}

/-- The host, with the cache of the policy in force and the calls that this policy answered. -/
structure CachedHost (F16 F32 F64 : Type) where
  host : Host F16 F32 F64
  policy : CachedPolicy

/-- What a tick gets from outside; `lost` are the paths whose entries the cache has lost. -/
structure CachedTickInput where
  scan : Except Error Observation
  lost : Path → Bool
  applyOrder : HashOrder
  predictOrder : HashOrder
  planOrder : HashOrder

/-- `cache.get(path)`: an entry that is not lost and has not expired. -/
def CachedPolicy.get? (s : CachedPolicy) (ttl now : ℕ) (lost : Path → Bool) (path : Path) :
    Option RejectReason :=
  if lost path then none
  else (s.cache.entries path).bind fun entry => if now < entry.2 + ttl then some entry.1 else none

/-- `decide` for one candidate after the other. -/
def CachedPolicy.askAll (p : DefaultAdmissionPolicy) (now : ℕ) (cached : Path → Option RejectReason)
    (s : CachedPolicy) (candidates : List CandidateExe) : CachedPolicy :=
  candidates.foldl (fun s c => s.ask p now c (cached c.path)) s

/-- The time to live of the cache in force, in nanoseconds. -/
def Daemon.policyTtl (d : Daemon F16 F32) : ℕ := d.config.system.policyCacheTtl * 1000000000

namespace CachedHost

variable (w : CachedHost F16 F32 F64) (d : Daemon F16 F32) (input : CachedTickInput)

/-- What the lookups of a tick return. -/
def cached : Path → Option RejectReason := w.policy.get? d.policyTtl w.host.now input.lost

def daemonInput : DaemonTickInput where
  scan := input.scan
  cached := w.cached d input
  applyOrder := input.applyOrder
  predictOrder := input.predictOrder
  planOrder := input.planOrder

/-- The candidates of a tick, in the order in which `apply` decides on them. -/
def candidates (obs : Observation) : List CandidateExe :=
  (input.applyOrder.enum (collect (d.services.admission.toPolicy (w.cached d input))
    d.stores.modelTime obs).candidates.iter).map Prod.snd

/-- The cache after a tick. -/
def policyAfter : CachedPolicy :=
  match d.config.system.doscan, input.scan with
  | true, .ok obs =>
    w.policy.askAll d.services.admission w.host.now (w.cached d input) (w.candidates d input obs)
  | _, _ => w.policy

end CachedHost

def ControlEvent.isReload {F32 : Type} : ControlEvent F32 → Bool
  | .reload _ => true
  | _ => false

inductive CachedHostOp (F32 : Type) where
  | start (config : Settings F32) (launch : Launch)
  /-- The cache loses an entry for good. -/
  | evict (path : Path)
  | beginTick (input : CachedTickInput)
  | control (save : SaveInput)
  | other (op : HostOp F32)

section Exec

variable [Float32Ops F32] (num : Numerics F16 F32) (enc : Encoding F32 F64) (ln2 : F32)

def CachedHostOp.exec (w : CachedHost F16 F32 F64) :
    CachedHostOp F32 → Option (CachedHost F16 F32 F64)
  | .start config launch =>
    ((HostOp.start config launch).exec num enc ln2 w.host).map fun host => { host, policy := .start }
  | .evict path =>
    some { w with policy := { w.policy with cache := w.policy.cache.remove path } }
  | .beginTick input =>
    w.host.daemon.bind fun d =>
      ((HostOp.beginTick (w.daemonInput d input)).exec num enc ln2 w.host).map fun host =>
        { host, policy := w.policyAfter d input }
  | .control save =>
    w.host.daemon.bind fun d =>
      ((HostOp.control save).exec num enc ln2 w.host).map fun host =>
        { host, policy := if d.control.head?.any ControlEvent.isReload then .start else w.policy }
  | .other (.start _ _) => none
  | .other (.beginTick _) => none
  | .other (.control _) => none
  | .other op => (op.exec num enc ln2 w.host).map fun host => { w with host }

def CachedHostStep (w : CachedHost F16 F32 F64) (op : CachedHostOp F32)
    (w' : CachedHost F16 F32 F64) : Prop :=
  op.exec num enc ln2 w = some w'

/-- An empty database and no process. -/
def CachedHost.initial (F16 F32 F64 : Type) (now : ℕ) : CachedHost F16 F32 F64 where
  host := .initial F16 F32 F64 now
  policy := .start

def CachedHost.execAll (w : CachedHost F16 F32 F64) (ops : List (CachedHostOp F32)) :
    Option (CachedHost F16 F32 F64) :=
  ops.foldlM (fun w op => op.exec num enc ln2 w) w

theorem run_of_cachedExecAll {ops : List (CachedHostOp F32)} {w w' : CachedHost F16 F32 F64}
    (hexec : w.execAll num enc ln2 ops = some w') : Run (CachedHostStep num enc ln2) w ops w' :=
  Run.of_foldlM hexec

end Exec

/-! ## The calls of one tick -/

section Calls

variable {p : DefaultAdmissionPolicy} {ttl now : ℕ}

theorem CachedPolicy.mayReturn_get? (s : CachedPolicy) (lost : Path → Bool) (path : Path) :
    s.cache.MayReturn ttl now path (s.get? ttl now lost path) := by
  unfold get?
  split
  · trivial
  · cases hentry : s.cache.entries path with
    | none => trivial
    | some entry =>
        rw [Option.bind_some]
        split
        · next hfresh => exact ⟨entry.2, hentry, hfresh⟩
        · trivial

/-- A call touches the entry of its path only. -/
theorem CachedPolicy.entries_ask {s : CachedPolicy} {c : CandidateExe} {cached : Option RejectReason}
    {path : Path} (hne : path ≠ c.path) :
    (s.ask p now c cached).cache.entries path = s.cache.entries path := by
  unfold ask CacheOp.run
  dsimp only
  split
  · rfl
  · rw [TtlCache.entries_insert, if_neg hne]
  · rw [TtlCache.entries_remove, if_neg hne]

/-- What a lookup may return before the calls on other paths, it may return after them. -/
theorem mayReturn_ask {s : CachedPolicy} {c : CandidateExe} {cached answer : Option RejectReason}
    {path : Path} (hne : path ≠ c.path) (h : s.cache.MayReturn ttl now path answer) :
    (s.ask p now c cached).cache.MayReturn ttl now path answer := by
  cases answer with
  | none => trivial
  | some reason =>
      obtain ⟨inserted, hentry, hfresh⟩ := h
      exact ⟨inserted, (CachedPolicy.entries_ask hne).trans hentry, hfresh⟩

/-- The calls of a tick are calls of a run, one for each path. -/
theorem reachable_askAll {cached : Path → Option RejectReason} {cs : List CandidateExe}
    {s : CachedPolicy} (hs : Reachable (PolicyStep p ttl) .start s) (hclock : s.clock ≤ now)
    (hnodup : (cs.map CandidateExe.path).Nodup)
    (hcached : ∀ c ∈ cs, s.cache.MayReturn ttl now c.path (cached c.path)) :
    Reachable (PolicyStep p ttl) .start (s.askAll p now cached cs) ∧
      (s.askAll p now cached cs).clock ≤ now := by
  induction cs generalizing s with
  | nil => exact ⟨hs, hclock⟩
  | cons c rest ih =>
      rw [List.map_cons, List.nodup_cons] at hnodup
      have hstep : PolicyStep p ttl s (.call now c (cached c.path)) (s.ask p now c (cached c.path)) :=
        ⟨hclock, hcached c List.mem_cons_self, rfl⟩
      -- the later candidates are on other paths, so what was looked up for them stands
      refine ih (hs.tail hstep) (Nat.le_refl now) hnodup.2 fun c' hc' => ?_
      refine mayReturn_ask (fun heq => hnodup.1 ?_) (hcached c' (List.mem_cons_of_mem _ hc'))
      rw [← heq]
      exact List.mem_map_of_mem hc'

end Calls

/-! ## The cache of the policy in force -/

section Sound

variable {w : CachedHost F16 F32 F64}

/-- The cache is what calls of the policy in force have made of an empty one, up to now. -/
def CachedHost.Sound (w : CachedHost F16 F32 F64) : Prop :=
  ∀ d, w.host.daemon = some d → d.Running →
    Reachable (PolicyStep d.services.admission d.policyTtl) .start w.policy ∧
      w.policy.clock ≤ w.host.now

/-- An empty cache is sound for every policy. -/
theorem sound_start (host : Host F16 F32 F64) : (⟨host, .start⟩ : CachedHost F16 F32 F64).Sound :=
  fun _ _ _ => ⟨Reachable.refl, Nat.zero_le _⟩

theorem sound_evict (hw : w.Sound) (path : Path) :
    CachedHost.Sound { w with policy := { w.policy with cache := w.policy.cache.remove path } } := by
  intro d hd hrunning
  obtain ⟨hpolicy, hclock⟩ := hw d hd hrunning
  exact ⟨hpolicy.tail (i := .evict path) rfl, hclock⟩

/-- Each path is decided on once in a tick. -/
theorem nodup_candidates (w : CachedHost F16 F32 F64) (d : Daemon F16 F32) (input : CachedTickInput)
    (obs : Observation) : ((w.candidates d input obs).map CandidateExe.path).Nodup := by
  unfold CachedHost.candidates
  generalize d.services.admission.toPolicy (w.cached d input) = policy
  -- a candidate is collected under its own path, whatever the policy
  have hpaths : ∀ row ∈ input.applyOrder.enum (collect policy d.stores.modelTime obs).candidates.iter,
      row.2.path = row.1 := by
    rintro ⟨path, c⟩ hmem
    rw [HashOrder.mem_enum, FxHashMap.mem_iter] at hmem
    exact (candidateOf_collect policy _ obs hmem).path_eq
  rw [List.map_map, List.map_congr_left (f := CandidateExe.path ∘ Prod.snd) (g := Prod.fst) hpaths]
  refine ((input.applyOrder.perm _).map Prod.fst).nodup_iff.2 ?_
  rw [FxHashMap.iter_map_fst]
  exact FxHashMap.keys_nodup _

/-- A tick keeps the cache sound. -/
theorem sound_tick (hw : w.Sound) {d : Daemon F16 F32} (hd : w.host.daemon = some d)
    (hrunning : d.Running) (input : CachedTickInput) :
    Reachable (PolicyStep d.services.admission d.policyTtl) .start (w.policyAfter d input) ∧
      (w.policyAfter d input).clock ≤ w.host.now := by
  obtain ⟨hpolicy, hclock⟩ := hw d hd hrunning
  unfold CachedHost.policyAfter
  split
  · next obs _ _ =>
    exact reachable_askAll hpolicy hclock (nodup_candidates w d input obs)
      fun c _ => w.policy.mayReturn_get? input.lost c.path
  · exact ⟨hpolicy, hclock⟩

end Sound

/-! ## Steps -/

section Steps

variable [Float32Ops F32] (num : Numerics F16 F32) (enc : Encoding F32 F64) (ln2 : F32)

/-- What a step does to the host and to the cache. -/
inductive CachedChange (w : CachedHost F16 F32 F64) :
    CachedHostOp F32 → CachedHost F16 F32 F64 → Prop
  | starts {config : Settings F32} {launch : Launch} {host : Host F16 F32 F64}
      (hstep : HostStep num enc ln2 w.host (.start config launch) host) :
      CachedChange w (.start config launch) ⟨host, .start⟩
  | evicts {path : Path} :
      CachedChange w (.evict path)
        { w with policy := { w.policy with cache := w.policy.cache.remove path } }
  | ticks {input : CachedTickInput} {d : Daemon F16 F32} {host : Host F16 F32 F64}
      (hd : w.host.daemon = some d)
      (hstep : HostStep num enc ln2 w.host (.beginTick (w.daemonInput d input)) host) :
      CachedChange w (.beginTick input) ⟨host, w.policyAfter d input⟩
  | controls {save : SaveInput} {d : Daemon F16 F32} {host : Host F16 F32 F64}
      (hd : w.host.daemon = some d) (hstep : HostStep num enc ln2 w.host (.control save) host) :
      CachedChange w (.control save)
        ⟨host, if d.control.head?.any ControlEvent.isReload then .start else w.policy⟩
  | others {op : HostOp F32} {host : Host F16 F32 F64} (hnostart : ∀ c launch, op ≠ .start c launch)
      (hnocontrol : op.isControl = false) (hstep : HostStep num enc ln2 w.host op host) :
      CachedChange w (.other op) { w with host }

variable {num enc ln2} {w w' : CachedHost F16 F32 F64} {op : CachedHostOp F32}

theorem cachedChange_other {hop : HostOp F32} (hnostart : ∀ c launch, hop ≠ .start c launch)
    (hnocontrol : hop.isControl = false)
    (hexec : ((hop.exec num enc ln2 w.host).map fun host => { w with host }) = some w') :
    CachedChange num enc ln2 w (.other hop) w' := by
  obtain ⟨host, hhost, rfl⟩ := Option.map_eq_some_iff.1 hexec
  exact .others hnostart hnocontrol hhost

theorem cachedChange_of_step (hstep : CachedHostStep num enc ln2 w op w') :
    CachedChange num enc ln2 w op w' := by
  unfold CachedHostStep at hstep
  cases op with
  | start config launch =>
      obtain ⟨host, hhost, rfl⟩ := Option.map_eq_some_iff.1 hstep
      exact .starts hhost
  | evict path =>
      obtain rfl := Option.some.inj hstep
      exact .evicts
  | beginTick input =>
      obtain ⟨d, hd, hexec⟩ := Option.bind_eq_some_iff.1 hstep
      obtain ⟨host, hhost, rfl⟩ := Option.map_eq_some_iff.1 hexec
      exact .ticks hd hhost
  | control save =>
      obtain ⟨d, hd, hexec⟩ := Option.bind_eq_some_iff.1 hstep
      obtain ⟨host, hhost, rfl⟩ := Option.map_eq_some_iff.1 hexec
      exact .controls hd hhost
  | other hop =>
      cases hop with
      | start _ _ => cases hstep
      | beginTick _ => cases hstep
      | control _ => cases hstep
      | pass _ | kill | sighup _ _ | sigusr1 | sigusr2 | ctrlC | finishTick _ _ | cancelled _
        | autosave _ | wake =>
          exact cachedChange_other (fun _ _ heq => by cases heq) rfl hstep

/-- The host of a cached host takes steps of its own. -/
theorem host_of_cachedChange (h : CachedChange num enc ln2 w op w') :
    Reachable (HostStep num enc ln2) w.host w'.host := by
  cases h with
  | starts hstep => exact Reachable.refl.tail hstep
  | evicts => exact Reachable.refl
  | ticks _ hstep => exact Reachable.refl.tail hstep
  | controls _ hstep => exact Reachable.refl.tail hstep
  | others _ _ hstep => exact Reachable.refl.tail hstep

theorem cachedHost_reachable {now : ℕ}
    (hr : Reachable (CachedHostStep num enc ln2) (CachedHost.initial F16 F32 F64 now) w) :
    Reachable (HostStep num enc ln2) (Host.initial F16 F32 F64 now) w.host := by
  refine hr.invariant
    (I := fun w => Reachable (HostStep num enc ln2) (Host.initial F16 F32 F64 now) w.host)
    Reachable.refl ?_
  intro w op w' ih hstep
  exact ih.trans (host_of_cachedChange (cachedChange_of_step hstep))

/-- A step that leaves the loop running, as its cache sees it. -/
theorem signalStep_of_running {h h' : Host F16 F32 F64} {hop : HostOp F32} {d' : Daemon F16 F32}
    (hstep : NoStart num enc ln2 h hop h') (hd' : h'.daemon = some d') (hrunning : d'.Running) :
    ∃ d, h.daemon = some d ∧ d.Running ∧ h.now ≤ h'.now ∧ SignalStep ln2 d hop d' := by
  obtain ⟨d, hd, hloop⟩ := loopStep_of_step hstep hd' hrunning
  obtain ⟨d₁, hd₁, hsignal⟩ := signalStep_of_step hstep hd'
  obtain rfl := Option.some.inj (hd.symm.trans hd₁)
  exact ⟨d, hd, hloop.running, hloop.now, hsignal⟩

theorem sound_step (hw : w.Sound) (hstep : CachedHostStep num enc ln2 w op w') : w'.Sound := by
  cases cachedChange_of_step hstep with
  | starts hhost => exact sound_start _
  | evicts => exact sound_evict hw _
  | ticks hd hhost =>
      intro d' hd' hrunning
      obtain ⟨d, hd₁, hbefore, hnow, hsignal⟩ :=
        signalStep_of_running ⟨hhost, fun _ _ heq => by cases heq⟩ hd' hrunning
      obtain rfl := Option.some.inj (hd.symm.trans hd₁)
      -- the policy that answers the tick is still in force after it
      obtain ⟨hconfig, hservices, -⟩ := hsignal.kept rfl
      obtain ⟨hpolicy, hclock⟩ := sound_tick hw hd hbefore _
      rw [hservices, Daemon.policyTtl, hconfig]
      exact ⟨hpolicy, hclock.trans hnow⟩
  | controls hd hhost =>
      intro d' hd' hrunning
      obtain ⟨d, hd₁, hbefore, hnow, hsignal⟩ :=
        signalStep_of_running ⟨hhost, fun _ _ heq => by cases heq⟩ hd' hrunning
      obtain rfl := Option.some.inj (hd.symm.trans hd₁)
      -- the cache is emptied exactly when the event replaces the policy
      obtain ⟨event, -, hqueue, hconfig, hservices⟩ := hsignal.handled rfl
      rw [hqueue, List.head?_cons, Option.any_some]
      cases event with
      | reload bundle => exact ⟨Reachable.refl, Nat.zero_le _⟩
      | dumpStatus | saveNow =>
          obtain ⟨bundle, heq, -⟩ | ⟨-, hkept⟩ := hservices
          · cases heq
          · obtain ⟨hpolicy, hclock⟩ := hw _ hd hbefore
            rw [hkept, Daemon.policyTtl, hconfig]
            exact ⟨hpolicy, hclock.trans hnow⟩
  | others hnostart hnocontrol hhost =>
      intro d' hd' hrunning
      obtain ⟨d, hd, hbefore, hnow, hsignal⟩ :=
        signalStep_of_running ⟨hhost, hnostart⟩ hd' hrunning
      obtain ⟨hconfig, hservices, -⟩ := hsignal.kept hnocontrol
      obtain ⟨hpolicy, hclock⟩ := hw d hd hbefore
      rw [hservices, Daemon.policyTtl, hconfig]
      exact ⟨hpolicy, hclock.trans hnow⟩

theorem sound_of_reachable {now : ℕ}
    (hr : Reachable (CachedHostStep num enc ln2) (CachedHost.initial F16 F32 F64 now) w) : w.Sound :=
  hr.invariant (sound_start _) fun _ _ _ => sound_step

end Steps

/-! ## What a tick admits -/

/-- What becomes of the candidate `c` in a tick at `now` that turns `s` into `s'`, when the policy `p`
    has answered `calls` before. -/
inductive AdmissionOutcome (p : DefaultAdmissionPolicy) (ttl now : ℕ) (calls : List PolicyCall)
    (obs : Observation) (s s' : Stores F16) (c : CandidateExe) : Prop
  | admitted {completeness : Completeness} (hrule : p.uncachedRule c = .accept completeness)
      (hstored : s'.exeAt c.path ≠ none)
      (hmaps : ∀ m, .mapSeen c.path m ∈ obs → p.allowMap m.path = true → s'.relAt c.path m.key)
  | rejected {reason : RejectReason} (hrule : p.uncachedRule c = .reject reason)
      (hkept : s'.exeAt c.path = none ↔ s.exeAt c.path = none)
  /-- The rules accept, but they rejected the path less than the time to live ago. -/
  | repeated {completeness : Completeness} {reason : RejectReason} {time : ℕ}
      (hrule : p.uncachedRule c = .accept completeness)
      (hbefore : RejectedAt p calls c.path reason time) (hrecent : now < time + ttl)
      (hkept : s'.exeAt c.path = none ↔ s.exeAt c.path = none)

section Tick

variable [Float32Ops F32] {num : Numerics F16 F32} {d : Daemon F16 F32} {obs : Observation}

theorem stores_beginTick {input : DaemonTickInput} {t : ℕ} (hscan : d.config.system.doscan = true)
    (hobs : input.scan = .ok obs) :
    (d.beginTick num t input).stores = (d.services.updater.apply num input.applyOrder d.stores obs
      (d.services.admission.toPolicy input.cached)).1 := by
  change (d.engine.beginTick num (d.tickInput input)).1.stores = _
  unfold PreloadEngine.beginTick
  have hdoscan : d.engine.config.doscan = true := hscan
  have hinput : (d.tickInput input).scan = .ok obs := hobs
  simp only [hdoscan, hinput, if_true]
  rfl

section Outcome

variable {s r : Stores F16} {u : DefaultModelUpdater F32} {ord : HashOrder}
  {p : DefaultAdmissionPolicy} {cached : Path → Option RejectReason} {c : CandidateExe}
  (h : ApplySpec num u ord s obs (p.toPolicy cached) r)
  (hc : (collect (p.toPolicy cached) s.modelTime obs).candidates.get? c.path = some c)

include h hc

theorem kept_of_not_accepted (hdecide : ¬(p.toPolicy cached).Accepts c) :
    r.exeAt c.path = none ↔ s.exeAt c.path = none := by
  have hadmits : ¬Admits (p.toPolicy cached) obs s.modelTime c.path := by
    rintro ⟨c', hc', haccepts⟩
    obtain rfl := Option.some.inj (hc.symm.trans hc')
    exact hdecide haccepts
  rw [h.exeAt, if_neg hadmits, Option.map_eq_none_iff]

theorem stored_of_accepted (hs : s.WF) (hdecide : (p.toPolicy cached).Accepts c) :
    r.exeAt c.path ≠ none ∧
      ∀ m, .mapSeen c.path m ∈ obs → p.allowMap m.path = true → r.relAt c.path m.key := by
  have hadmits : Admits (p.toPolicy cached) obs s.modelTime c.path := ⟨c, hc, hdecide⟩
  refine ⟨?_, fun m hm hallow => (h.relAt hs _ _).2 (Or.inr ⟨hadmits, m, hm, hallow, rfl⟩)⟩
  rw [h.exeAt, if_pos hadmits, Option.map_some]
  exact Option.some_ne_none _

theorem kept_of_rejected {reason : RejectReason}
    (hdecide : (p.decide (cached c.path) c).1 = .reject reason) :
    r.exeAt c.path = none ↔ s.exeAt c.path = none := by
  refine kept_of_not_accepted h hc ?_
  rintro ⟨k, hk⟩
  cases hdecide.symm.trans hk

/-- The rules decide, unless the cache answers. -/
theorem outcome_of_decide (hs : s.WF) {ttl now : ℕ} {calls : List PolicyCall}
    (hentry : ∀ reason, p.cacheEnabled = true → cached c.path = some reason →
      ∃ time, RejectedAt p calls c.path reason time ∧ now < time + ttl) :
    AdmissionOutcome p ttl now calls obs s r c := by
  rcases p.decide_cases (cached c.path) c with
    ⟨reason, henabled, hcached, hdecide⟩ | ⟨reason, hrule, hdecide⟩ | ⟨k, hrule, hdecide⟩
  -- the cache answers, whatever the rules say of the candidate as it is now
  · have hkept := kept_of_rejected h hc (congrArg Prod.fst hdecide)
    rcases p.decide_cases none c with ⟨_, _, hnone, _⟩ | ⟨reason', hrule, _⟩ | ⟨k, hrule, _⟩
    · cases hnone
    · exact .rejected hrule hkept
    · obtain ⟨time, hbefore, hrecent⟩ := hentry reason henabled hcached
      exact .repeated hrule hbefore hrecent hkept
  · exact .rejected hrule (kept_of_rejected h hc (congrArg Prod.fst hdecide))
  · obtain ⟨hstored, hmaps⟩ := stored_of_accepted h hc hs ⟨k, congrArg Prod.fst hdecide⟩
    exact .admitted hrule hstored hmaps

end Outcome

/-- A lookup that returns a reason goes back to a rejection by the rules. -/
theorem rejectedAt_of_get? {p : DefaultAdmissionPolicy} {ttl now : ℕ} {s : CachedPolicy}
    (hs : SoundEntries p s) {lost : Path → Bool} {path : Path} {reason : RejectReason}
    (hget : s.get? ttl now lost path = some reason) :
    ∃ time, RejectedAt p s.calls path reason time ∧ now < time + ttl := by
  have hmay : s.cache.MayReturn ttl now path (s.get? ttl now lost path) := s.mayReturn_get? lost path
  rw [hget] at hmay
  obtain ⟨time, hentry, hrecent⟩ := hmay
  exact ⟨time, hs.entry path reason time hentry, hrecent⟩

end Tick

/-- The candidate of a path in the scan of a tick. -/
def Daemon.candidateAt (d : Daemon F16 F32) (obs : Observation) (path : Path) : Option CandidateExe :=
  (collect (d.services.admission.toPolicy fun _ => none) d.stores.modelTime obs).candidates.get? path

/-- What a tick at `now` stores, when the policy in force has answered `calls` before. -/
structure FollowsRules (d : Daemon F16 F32) (now : ℕ) (calls : List PolicyCall) (obs : Observation)
    (s' : Stores F16) : Prop where
  outcome : ∀ path c, d.candidateAt obs path = some c →
    AdmissionOutcome d.services.admission d.policyTtl now calls obs d.stores s' c
  others : ∀ path, d.candidateAt obs path = none →
    (s'.exeAt path = none ↔ d.stores.exeAt path = none)
  /-- No program that the rules accept waits longer than the time to live. -/
  prompt : ∀ path c since k, d.candidateAt obs path = some c →
    d.services.admission.uncachedRule c = .accept k → since + d.policyTtl ≤ now →
    (∀ call ∈ calls, call.candidate.path = path → since ≤ call.time →
      ∃ k, d.services.admission.uncachedRule call.candidate = .accept k) →
    s'.exeAt path ≠ none

section Rules

variable {d : Daemon F16 F32} {now : ℕ} {calls : List PolicyCall} {obs : Observation}
  {s' : Stores F16}

theorem path_of_candidateAt {path : Path} {c : CandidateExe} (hc : d.candidateAt obs path = some c) :
    c.path = path :=
  (candidateOf_collect _ _ obs hc).path_eq

/-- A rejection that is repeated is older than the rules' acceptance. -/
theorem stored_of_outcome {c : CandidateExe} {since : ℕ} {k : Completeness}
    (houtcome : AdmissionOutcome d.services.admission d.policyTtl now calls obs d.stores s' c)
    (hrule : d.services.admission.uncachedRule c = .accept k) (htime : since + d.policyTtl ≤ now)
    (haccepts : ∀ call ∈ calls, call.candidate.path = c.path → since ≤ call.time →
      ∃ k, d.services.admission.uncachedRule call.candidate = .accept k) :
    s'.exeAt c.path ≠ none := by
  cases houtcome with
  | admitted _ hstored _ => exact hstored
  | rejected hreject _ => cases hrule.symm.trans hreject
  | repeated _ hbefore hrecent _ =>
      -- the rejection is no older than `since`, where the rules accept
      obtain ⟨pre, call, post, rfl, hpath, rfl, hreject, -⟩ := hbefore
      obtain ⟨k', hk'⟩ := haccepts call (by simp) hpath (by omega)
      cases hk'.symm.trans hreject

variable [Float32Ops F32] {num : Numerics F16 F32} {enc : Encoding F32 F64} {ln2 : F32}

/-- A tick that begins was the next thing of a running loop. -/
theorem beginTick_of_step {w w' : CachedHost F16 F32 F64} {d' : Daemon F16 F32}
    {input : CachedTickInput} (hd : w.host.daemon = some d)
    (hstep : CachedHostStep num enc ln2 w (.beginTick input) w') (hd' : w'.host.daemon = some d') :
    d.Running ∧ ∃ t, d' = d.beginTick num t (w.daemonInput d input) := by
  obtain ⟨d₁, hd₁, hexec⟩ := Option.bind_eq_some_iff.1 hstep
  obtain rfl := Option.some.inj (hd.symm.trans hd₁)
  obtain ⟨host, hhost, rfl⟩ := Option.map_eq_some_iff.1 hexec
  cases hostMove_of_step hhost with
  | begins hd₂ hphase =>
      obtain rfl := Option.some.inj (hd.symm.trans hd₂)
      refine ⟨?_, _, (Option.some.inj hd').symm⟩
      exact running_of_phase hphase fun _ heq => by cases heq
  | sends _ hevent => cases hevent

/-- In every run of the daemon with its rejection cache, whatever the cache loses and whichever
    policies are installed, a tick that scans stores the candidates that the rules in force accept,
    except those that the rules rejected less than the time to live ago. -/
theorem admission_follows_rules (henc : enc.RoundTrips) {start : ℕ} {w w' : CachedHost F16 F32 F64}
    {d' : Daemon F16 F32} {input : CachedTickInput}
    (hr : Reachable (CachedHostStep num enc ln2) (CachedHost.initial F16 F32 F64 start) w)
    (hd : w.host.daemon = some d) (hscan : d.config.system.doscan = true)
    (hobs : input.scan = .ok obs) (hstep : CachedHostStep num enc ln2 w (.beginTick input) w')
    (hd' : w'.host.daemon = some d') : FollowsRules d w.host.now w.policy.calls obs d'.stores := by
  obtain ⟨hrunning, t, rfl⟩ := beginTick_of_step hd hstep hd'
  have hs : d.stores.WF := wf_daemon henc (cachedHost_reachable hr) hd
  have hentries := soundEntries_of_reachable (sound_of_reachable hr d hd hrunning).1
  have hspec : ApplySpec num d.services.updater input.applyOrder d.stores obs
      (d.services.admission.toPolicy (w.cached d input))
      (d.beginTick num t (w.daemonInput d input)).stores := by
    rw [stores_beginTick hscan hobs]
    exact apply_spec _ _ _ _ _ _
  have houtcome : ∀ path c, d.candidateAt obs path = some c →
      AdmissionOutcome d.services.admission d.policyTtl w.host.now w.policy.calls obs d.stores
        (d.beginTick num t (w.daemonInput d input)).stores c := by
    intro path c hc
    obtain rfl := path_of_candidateAt hc
    exact outcome_of_decide hspec hc hs fun reason _ hcached => rejectedAt_of_get? hentries hcached
  refine ⟨houtcome, fun path hnone => ?_, fun path c since k hc hrule htime haccepts => ?_⟩
  · have hadmits : ¬Admits (d.services.admission.toPolicy (w.cached d input)) obs d.stores.modelTime
        path := by
      rintro ⟨c, hc, -⟩
      cases hnone.symm.trans hc
    rw [hspec.exeAt, if_neg hadmits, Option.map_eq_none_iff]
  · obtain rfl := path_of_candidateAt hc
    exact stored_of_outcome (houtcome _ c hc) hrule htime haccepts

end Rules

/-- A program that grows is refused from the cache at first, and stored when its entry has expired. -/
theorem admission_follows_rules_grown :
    let path := Path.ofString "/bin/a"
    ∃ (w w' : CachedHost ℚ ℚ ℚ) (d d' : Daemon ℚ ℚ) (obs : Observation),
      w.policy.calls.length = 2 ∧ d.stores.exeAt path = none ∧ d'.stores.exeAt path ≠ none ∧
        w'.policy.calls.length = 3 ∧
        FollowsRules d w.host.now w.policy.calls obs d'.stores := by
  intro path
  let config : Settings ℚ := Settings.default 0
  let config : Settings ℚ := { config with model := { config.model with minsize := 5000 } }
  let grown (time : UInt64) : Observation :=
    Observation.ofRunning time ["/bin/a"] ++
      [.mapSeen path (MapSegment.new (Path.ofString "/lib/libm.so") 0 4096 time)]
  let tick (obs : Observation) : CachedTickInput :=
    ⟨.ok obs, fun _ => false, .insertion, .insertion, .insertion⟩
  let rest (elapsed : UInt64) : List (CachedHostOp ℚ) :=
    [.other (.finishTick ⟨0, 0, []⟩ fun _ => true), .other (.autosave ⟨.insertion, 0, none, 1⟩),
      .other (.pass (Daemon.nanos elapsed)), .other .wake]
  let ops : List (CachedHostOp ℚ) :=
    [.start config .plain, .beginTick (tick (.ofRunning 0 ["/bin/a"]))] ++ rest 20 ++
      [.beginTick (tick (grown 20))] ++ rest 300
  have hany : ((CachedHost.initial ℚ ℚ ℚ 0).execAll Numerics.rational Encoding.rational 1 ops).any
      (fun w => decide (w.policy.calls.length = 2) &&
        w.host.daemon.any (fun d =>
          d.config.system.doscan && (d.stores.exeAt path).isNone) &&
        ((CachedHostOp.beginTick (tick (grown 320)) : CachedHostOp ℚ).exec Numerics.rational
          Encoding.rational 1 w).any fun w' =>
            decide (w'.policy.calls.length = 3) &&
              w'.host.daemon.any fun d' => (d'.stores.exeAt path).isSome) = true := by
    decide +kernel
  obtain ⟨w, hexec, hrest⟩ := (Option.any_eq_true _ _).1 hany
  obtain ⟨hboth, hnext⟩ := (Bool.and_eq_true _ _).mp hrest
  obtain ⟨htwo, hdaemon⟩ := (Bool.and_eq_true _ _).mp hboth
  obtain ⟨d, hd, hbefore⟩ := (Option.any_eq_true _ _).1 hdaemon
  obtain ⟨hscan, hnone⟩ := (Bool.and_eq_true _ _).mp hbefore
  obtain ⟨w', hstep, hafter⟩ := (Option.any_eq_true _ _).1 hnext
  obtain ⟨hthree, hdaemon'⟩ := (Bool.and_eq_true _ _).mp hafter
  obtain ⟨d', hd', hsome⟩ := (Option.any_eq_true _ _).1 hdaemon'
  exact ⟨w, w', d, d', grown 320, of_decide_eq_true htwo, Option.isNone_iff_eq_none.1 hnone,
    Option.isSome_iff_ne_none.1 hsome, of_decide_eq_true hthree,
    admission_follows_rules Encoding.roundTrips_rational
      (run_of_cachedExecAll _ _ _ hexec).reachable hd hscan rfl hstep hd'⟩

end PreloadNg
