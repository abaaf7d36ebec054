import PreloadNg.Engine.DaemonSignals

set_option autoImplicit false

/-! # Rounds of the loop

A round of the loop begins a tick, is interrupted or completes it, saves when the autosave is due, and
sleeps for the rest of the cycle. However signals interrupt the rounds, what a crash can lose is
younger than the autosave interval at every autosave, and ticks complete no faster than one each
cycle. -/

namespace PreloadNg

variable {F16 F32 F64 : Type} [Float32Ops F32] (num : Numerics F16 F32) (enc : Encoding F32 F64)
  (ln2 : F32)

def HostOp.completesTick : HostOp F32 → Bool
  | .finishTick _ _ => true
  | _ => false

/-- How many ticks the operations complete. -/
def completedTicks (ops : List (HostOp F32)) : ℕ := ops.countP HostOp.completesTick

/-! ## One step -/

/-- Where the loop gets, at `now`, with the configuration of `d`. -/
inductive PhaseStep (d : Daemon F16 F32) (now : ℕ) :
    HostOp F32 → Phase F16 → Phase F16 → Prop
  | stays {op : HostOp F32} {phase : Phase F16} (hop : op.completesTick = false) :
      PhaseStep d now op phase phase
  | begins {input : DaemonTickInput} {t : ℕ} {tick : Suspended F16} :
      PhaseStep d now (.beginTick input) (.selecting t) (.prefetching t tick)
  | completes {prefetch : PrefetchReport} {exist : Path → Bool} {t : ℕ} {tick : Suspended F16} :
      PhaseStep d now (.finishTick prefetch exist) (.prefetching t tick) (.autosaving t true)
  | handles {save : SaveInput} {t : ℕ} :
      PhaseStep d now (.control save) (.selecting t) (.autosaving t false)
  | interrupts {save : SaveInput} {t : ℕ} {tick : Suspended F16} :
      PhaseStep d now (.control save) (.prefetching t tick) (.autosaving t false)
  | ends {save : SaveInput} {t : ℕ} {didTick : Bool} :
      PhaseStep d now (.autosave save) (.autosaving t didTick) (d.nextPhase now t didTick)
  | wakes {wakeAt : ℕ} (hwake : wakeAt ≤ now) :
      PhaseStep d now .wake (.sleeping wakeAt) (.selecting now)

/-- A step that leaves the loop running. -/
structure LoopStep (h : Host F16 F32 F64) (d : Daemon F16 F32) (op : HostOp F32)
    (h' : Host F16 F32 F64) (d' : Daemon F16 F32) : Prop where
  running : d.Running
  now : h.now ≤ h'.now
  repo : d'.repo = d.repo
  saves : (h'.dbs = h.dbs ∧ d'.lastSave = d.lastSave) ∨
    (d'.repo.Saved num enc d'.stores h.dbs h'.dbs ∧ d'.lastSave = h'.now)
  phase : PhaseStep d h'.now op d.phase d'.phase

section Step

variable {num enc ln2} {h h' : Host F16 F32 F64} {d d₁ d' : Daemon F16 F32} {op : HostOp F32}

/-- A save after which the loop goes on. -/
theorem saveOrStop_running {input : SaveInput}
    (hd' : (h.saveOrStop num enc d₁ input).daemon = some d') (hrunning : d'.Running) :
    (h.saveOrStop num enc d₁ input).now = h.now + input.took ∧
      d' = { d₁ with lastSave := h.now + input.took } ∧
      d₁.repo.Saved num enc d₁.stores h.dbs (h.saveOrStop num enc d₁ input).dbs := by
  unfold Host.saveOrStop at hd' ⊢
  dsimp only at hd' ⊢
  cases hsave : d₁.save num enc input h.dbs with
  | ok dbs =>
      rw [hsave] at hd'
      exact ⟨rfl, (Option.some.inj hd').symm, Daemon.saved_of_save hsave⟩
  | error err =>
      rw [hsave] at hd'
      obtain rfl := Option.some.inj hd'
      exact absurd rfl (hrunning _)

/-- A step that neither saves nor completes a tick. -/
theorem loopStep_of_kept (hrunning : d.Running) (hnow : h.now ≤ h'.now) (hrepo : d'.repo = d.repo)
    (hdbs : h'.dbs = h.dbs) (hlast : d'.lastSave = d.lastSave) (hphase : PhaseStep d h'.now op d.phase d'.phase) :
    LoopStep num enc h d op h' d' :=
  ⟨hrunning, hnow, hrepo, Or.inl ⟨hdbs, hlast⟩, hphase⟩

omit [Float32Ops F32] in
theorem phaseStep_of_eq {now : ℕ} {phase phase' : Phase F16} (hop : op.completesTick = false)
    (h : phase' = phase) : PhaseStep d now op phase phase' :=
  h ▸ .stays hop

theorem loopStep_send {event : ControlEvent F32} (hop : op.completesTick = false)
    (hrunning : (d.send event).Running) :
    LoopStep num enc h d op { h with daemon := some (d.send event) } (d.send event) := by
  have hkept : (d.send event).lastSave = d.lastSave ∧ (d.send event).phase = d.phase := by
    unfold Daemon.send
    split <;> exact ⟨rfl, rfl⟩
  exact loopStep_of_kept (send_running hrunning).1 (Nat.le_refl _) (d.repo_send event) rfl hkept.1
    (phaseStep_of_eq hop hkept.2)

/-- Handling an event ends the round without a tick. -/
theorem loopStep_control {save : SaveInput} {event : ControlEvent F32}
    {rest : List (ControlEvent F32)} {t : ℕ} (hphase : d.phase = .selecting t ∨
      ∃ tick, d.phase = .prefetching t tick)
    (hd' : (h.handleControl num enc { d with control := rest } t event save).daemon = some d')
    (hrunning : d'.Running) :
    LoopStep num enc h d (.control save)
      (h.handleControl num enc { d with control := rest } t event save) d' := by
  have hrunningBefore : d.Running := by
    rcases hphase with hphase | ⟨tick, hphase⟩
    · exact running_of_phase hphase fun _ heq => by cases heq
    · exact running_of_phase hphase fun _ heq => by cases heq
  -- a tick that is interrupted does not count
  have hstep : ∀ now, PhaseStep d now (.control save) d.phase (.autosaving t false) := by
    intro now
    rcases hphase with hphase | ⟨tick, hphase⟩
    · rw [hphase]
      exact .handles
    · rw [hphase]
      exact .interrupts
  unfold Host.handleControl at hd' ⊢
  dsimp only at hd' ⊢
  cases event with
  | reload bundle =>
      obtain rfl := Option.some.inj hd'
      exact loopStep_of_kept hrunningBefore (Nat.le_refl _) rfl rfl rfl (hstep _)
  | dumpStatus =>
      obtain rfl := Option.some.inj hd'
      exact loopStep_of_kept hrunningBefore (Nat.le_refl _) rfl rfl rfl (hstep _)
  | saveNow =>
      obtain ⟨hnow, rfl, hsaved⟩ := saveOrStop_running hd' hrunning
      refine ⟨hrunningBefore, ?_, rfl, Or.inr ⟨hsaved, hnow.symm⟩, hstep _⟩
      change h.now ≤ (h.saveOrStop num enc _ save).now
      rw [hnow]
      exact Nat.le_add_right _ _

/-- The end of a round. -/
theorem loopStep_autosave {save : SaveInput} {t : ℕ} {didTick : Bool}
    (hphase : d.phase = .autosaving t didTick)
    (hd' : (h.autosave num enc d t didTick save).daemon = some d') (hrunning : d'.Running) :
    LoopStep num enc h d (.autosave save) (h.autosave num enc d t didTick save) d' := by
  have hrunningBefore : d.Running := running_of_phase hphase fun _ heq => by cases heq
  unfold Host.autosave at hd' ⊢
  dsimp only at hd' ⊢
  split at hd'
  · next hdue =>
    rw [if_pos hdue]
    obtain ⟨hnow, rfl, hsaved⟩ := saveOrStop_running hd' hrunning
    refine ⟨hrunningBefore, ?_, rfl, Or.inr ⟨hsaved, hnow.symm⟩, ?_⟩
    · rw [hnow]
      exact Nat.le_add_right _ _
    · rw [hnow, hphase]
      exact .ends
  · next hdue =>
    rw [if_neg hdue]
    obtain rfl := Option.some.inj hd'
    refine loopStep_of_kept hrunningBefore (Nat.le_refl _) rfl rfl rfl ?_
    rw [hphase]
    exact .ends

/-- A tick that begins gets to the prefetcher, unless its scan fails. -/
theorem phaseStep_beginTick {now t : ℕ} {input : DaemonTickInput}
    (hrunning : (d.beginTick num t input).Running) :
    PhaseStep d now (.beginTick input) (.selecting t) (d.beginTick num t input).phase := by
  unfold Daemon.beginTick at hrunning ⊢
  cases hresult : (d.engine.beginTick num (d.tickInput input)).2 with
  | ok tick =>
      simp only [hresult]
      exact .begins
  | error err =>
      simp only [hresult] at hrunning
      exact absurd rfl (hrunning _)

theorem completesTick_of_event {noPrefetch : Bool} {event : ControlEvent F32}
    (hevent : op.event ln2 noPrefetch = some event) : op.completesTick = false := by
  cases op with
  | sighup _ _ | sigusr1 | sigusr2 => rfl
  | pass _ | kill | start _ _ | ctrlC | beginTick _ | finishTick _ _ | control _ | cancelled _
    | autosave _ | wake => cases hevent

/-- Every step after which the loop of a process runs. -/
theorem loopStep_of_step (hstep : NoStart num enc ln2 h op h') (hd' : h'.daemon = some d')
    (hrunning : d'.Running) : ∃ d, h.daemon = some d ∧ LoopStep num enc h d op h' d' := by
  obtain ⟨hexec, hop⟩ := hstep
  cases hostMove_of_step hexec with
  | passes => exact ⟨d', hd', loopStep_of_kept hrunning (Nat.le_add_right _ _) rfl rfl rfl (.stays rfl)⟩
  | dies => cases hd'
  | starts _ => exact absurd rfl (hop _ _)
  | ignores => exact ⟨d', hd', loopStep_of_kept hrunning (Nat.le_refl _) rfl rfl rfl (.stays rfl)⟩
  | sends hd hevent =>
      obtain rfl := Option.some.inj hd'
      exact ⟨_, hd, loopStep_send (completesTick_of_event hevent) hrunning⟩
  | cancels hd =>
      obtain rfl := Option.some.inj hd'
      exact ⟨_, hd, loopStep_of_kept hrunning (Nat.le_refl _) rfl rfl rfl (.stays rfl)⟩
  | begins hd hphase =>
      obtain rfl := Option.some.inj hd'
      refine ⟨_, hd, loopStep_of_kept (running_of_phase hphase fun _ heq => by cases heq)
        (Nat.le_refl _) rfl rfl rfl ?_⟩
      rw [hphase]
      exact phaseStep_beginTick hrunning
  | finishes hd hphase =>
      obtain rfl := Option.some.inj hd'
      refine ⟨_, hd, loopStep_of_kept (running_of_phase hphase fun _ heq => by cases heq)
        (Nat.le_refl _) rfl rfl rfl ?_⟩
      rw [hphase]
      exact .completes
  | controls hd hphase _ => exact ⟨_, hd, loopStep_control hphase hd' hrunning⟩
  | shuts hd _ =>
      obtain rfl := daemon_shutdown hd'
      exact absurd rfl (hrunning _)
  | autosaves hd hphase => exact ⟨_, hd, loopStep_autosave hphase hd' hrunning⟩
  | wakes hd hphase hwake =>
      obtain rfl := Option.some.inj hd'
      refine ⟨_, hd, loopStep_of_kept (running_of_phase hphase fun _ heq => by cases heq)
        (Nat.le_refl _) rfl rfl rfl ?_⟩
      rw [hphase]
      exact .wakes hwake

/-- A process that has just started. -/
theorem loop_of_start {c₀ : Settings F32} {launch : Launch}
    (hstep : HostStep num enc ln2 h (.start c₀ launch) h') (hd' : h'.daemon = some d') :
    d'.lastSave = h'.now ∧ d'.phase = .selecting h'.now ∧ d'.repo = launch.repo c₀ := by
  cases hostMove_of_step hstep with
  | starts _ =>
      have hnow : (h.start num enc ln2 c₀ launch).now = h.now := by
        unfold Host.start
        dsimp only
        split <;> rfl
      obtain ⟨e, -, rfl⟩ := daemon_start hd'
      exact ⟨hnow.symm, congrArg Phase.selecting hnow.symm, rfl⟩
  | sends _ hevent => cases hevent

end Step

/-! ## What is not saved yet -/

/-- At `t` the database of the file was what the process had in memory, or what it started from, and it
    has not changed since. -/
def SavedAtTime (file : Path) (h₁ : Host F16 F32 F64) (ops : List (HostOp F32))
    (h : Host F16 F32 F64) (t : ℕ) : Prop :=
  ∃ ops₁ ops₂ hs, ops = ops₁ ++ ops₂ ∧ Run (NoStart num enc ln2) h₁ ops₁ hs ∧
    Run (NoStart num enc ln2) hs ops₂ h ∧ hs.now = t ∧ h.dbs file = hs.dbs file ∧
    (ops₁ = [] ∨ ∃ d db, hs.daemon = some d ∧ SavedAs num enc d.stores db (hs.dbs file))

section Saved

variable {num enc ln2} {h₀ h₁ h h' : Host F16 F32 F64} {d d' : Daemon F16 F32}
  {ops : List (HostOp F32)} {op : HostOp F32} {c₀ : Settings F32} {launch : Launch} {file : Path}

theorem savedAtTime_step (hrun : Run (NoStart num enc ln2) h₁ ops h)
    (hstep : NoStart num enc ln2 h op h') (hd' : h'.daemon = some d')
    (hloop : LoopStep num enc h d op h' d') (hrepo : d'.repo = .sqlite file)
    (hsaved : SavedAtTime num enc ln2 file h₁ ops h d.lastSave) :
    SavedAtTime num enc ln2 file h₁ (ops ++ [op]) h' d'.lastSave := by
  rcases hloop.saves with ⟨hdbs, hlast⟩ | ⟨hsave, hlast⟩
  -- without a save, the step is one more of those since the last one
  · obtain ⟨ops₁, ops₂, hs, rfl, hrun₁, hrun₂, hnow, hsame, hor⟩ := hsaved
    exact ⟨ops₁, ops₂ ++ [op], hs, List.append_assoc _ _ _, hrun₁, hrun₂.snoc hstep,
      hnow.trans hlast.symm, (congrFun hdbs file).trans hsame, hor⟩
  · exact ⟨ops ++ [op], [], h', (List.append_nil _).symm, hrun.snoc hstep, .nil, hlast.symm, rfl,
      Or.inr ⟨d', h.dbs file, hd', savedAs_of_saved hsave hrepo⟩⟩

/-- The time of the last save is what it says. -/
theorem savedAtTime_lastSave (hstart : HostStep num enc ln2 h₀ (.start c₀ launch) h₁)
    (hfile : launch.repo c₀ = .sqlite file) (hrun : Run (NoStart num enc ln2) h₁ ops h)
    (hd : h.daemon = some d) (hrunning : d.Running) :
    SavedAtTime num enc ln2 file h₁ ops h d.lastSave := by
  have hsaved : d.repo = .sqlite file ∧ SavedAtTime num enc ln2 file h₁ ops h d.lastSave := by
    induction hrun generalizing d with
    | nil =>
        obtain ⟨hlast, -, hrepo⟩ := loop_of_start hstart hd
        exact ⟨hrepo.trans hfile, [], [], h₁, rfl, .nil, .nil, hlast.symm, rfl, Or.inl rfl⟩
    | snoc hrun hstep ih =>
        obtain ⟨d₁, hd₁, hloop⟩ := loopStep_of_step hstep hd hrunning
        obtain ⟨hrepo, hbefore⟩ := ih hd₁ hloop.running
        have hrepo' := hloop.repo.trans hrepo
        exact ⟨hrepo', savedAtTime_step hrun hstep hd hloop hrepo' hbefore⟩
  exact hsaved.2

/-- Past its autosave, a process has saved within the interval. -/
theorem recent_of_autosave {input : SaveInput} {t : ℕ} {didTick : Bool}
    (hd' : (h.autosave num enc d t didTick input).daemon = some d') (hrunning : d'.Running)
    (hinterval : 0 < d.config.autosaveInterval) :
    (h.autosave num enc d t didTick input).now <
      d'.lastSave + Daemon.nanos d.config.autosaveInterval := by
  have hpos : 0 < Daemon.nanos d.config.autosaveInterval :=
    Nat.mul_pos (UInt64.lt_iff_toNat_lt.1 hinterval) (by decide)
  unfold Host.autosave at hd' ⊢
  dsimp only at hd' ⊢
  split at hd'
  · next hdue =>
    rw [if_pos hdue]
    obtain ⟨hnow, rfl, -⟩ := saveOrStop_running hd' hrunning
    rw [hnow]
    exact Nat.lt_add_of_pos_right hpos
  · next hdue =>
    rw [if_neg hdue]
    obtain rfl := Option.some.inj hd'
    change h.now < d.lastSave + _
    -- not due: the interval is not over
    have hnot : ¬Daemon.nanos d.config.autosaveInterval ≤ h.now - d.lastSave := by
      intro hle
      exact hdue (by simp [Daemon.autosaveDue, hinterval, hle])
    omega

end Saved

/-- In this phase at `now`, `n` ticks were completed since `start`, no two within `c`. -/
def Phase.Paced (c start n now : ℕ) : Phase F16 → Prop
  | .selecting t => t ≤ now ∧ start + n * c ≤ t
  | .prefetching t _ => t ≤ now ∧ start + n * c ≤ t
  -- the tick of this round counts already
  | .autosaving t true => t ≤ now ∧ start + n * c ≤ t + c
  | .autosaving t false => t ≤ now ∧ start + n * c ≤ t
  | .sleeping wakeAt => start + n * c ≤ wakeAt ∧ start + n * c ≤ now + c
  | .stopped _ => True

section Paced

variable {num enc ln2} {h₀ h₁ h : Host F16 F32 F64} {d : Daemon F16 F32}
  {ops : List (HostOp F32)} {op : HostOp F32} {c₀ : Settings F32} {launch : Launch}
  {c start n now now' : ℕ} {phase phase' : Phase F16}

omit [Float32Ops F32] in
theorem Phase.Paced.mono (h : phase.Paced c start n now) (hle : now ≤ now') :
    phase.Paced c start n now' := by
  cases phase with
  | selecting t => exact ⟨h.1.trans hle, h.2⟩
  | prefetching t tick => exact ⟨h.1.trans hle, h.2⟩
  | autosaving t didTick =>
      cases didTick with
      | true => exact ⟨h.1.trans hle, h.2⟩
      | false => exact ⟨h.1.trans hle, h.2⟩
  | sleeping wakeAt => exact ⟨h.1, h.2.trans (Nat.add_le_add_right hle c)⟩
  | stopped result => trivial

omit [Float32Ops F32] in
/-- The rest of the cycle is slept after a tick. -/
theorem paced_nextPhase {t : ℕ} {didTick : Bool} (hcycle : c ≤ Daemon.nanos d.config.model.cycle)
    (h : (Phase.autosaving t didTick : Phase F16).Paced c start n now) :
    (d.nextPhase now t didTick).Paced c start n now := by
  unfold Daemon.nextPhase
  cases didTick with
  | false => exact ⟨Nat.le_refl _, h.2.trans h.1⟩
  | true =>
      obtain ⟨hle, hcount⟩ := h
      by_cases hearly : now - t < Daemon.nanos d.config.model.cycle
      · rw [if_pos (by simpa using hearly)]
        constructor
        · omega
        · omega
      · rw [if_neg (by simpa using hearly)]
        constructor
        · exact Nat.le_refl _
        · omega

omit [Float32Ops F32] in
theorem paced_step (hphase : PhaseStep d now' op phase phase') (hle : now ≤ now')
    (hcycle : c ≤ Daemon.nanos d.config.model.cycle) (h : phase.Paced c start n now) :
    phase'.Paced c start (n + if op.completesTick = true then 1 else 0) now' := by
  have hlater := h.mono hle
  cases hphase with
  | stays hop =>
      rw [hop, if_neg Bool.false_ne_true, Nat.add_zero]
      exact hlater
  | begins => exact hlater
  | completes =>
      -- one tick more, and the cycle that it may still sleep for
      refine ⟨hlater.1, ?_⟩
      change start + (n + 1) * c ≤ _
      rw [Nat.add_mul, Nat.one_mul, ← Nat.add_assoc]
      exact Nat.add_le_add_right hlater.2 c
  | handles => exact hlater
  | interrupts => exact hlater
  | ends => exact paced_nextPhase hcycle hlater
  | wakes hwake => exact ⟨Nat.le_refl _, hlater.1.trans hwake⟩

/-- Any number of steps, if no configuration has a shorter cycle. -/
theorem paced_of_run {minCycle : UInt64} (hstart : HostStep num enc ln2 h₀ (.start c₀ launch) h₁)
    (hrun : Run (NoStart num enc ln2) h₁ ops h) (hcycle : minCycle ≤ c₀.model.cycle)
    (hreloads : ∀ config features, .sighup (some config) features ∈ ops → minCycle ≤ config.model.cycle)
    (hd : h.daemon = some d) (hrunning : d.Running) :
    d.phase.Paced (Daemon.nanos minCycle) h₁.now (completedTicks ops) h.now := by
  induction hrun generalizing d with
  | nil =>
      rw [(loop_of_start hstart hd).2.1]
      exact ⟨Nat.le_refl _, by simp [completedTicks]⟩
  | @snoc ops h op h' hrun hstep ih =>
      obtain ⟨d₁, hd₁, hloop⟩ := loopStep_of_step hstep hd hrunning
      have hbefore : ∀ config features, .sighup (some config) features ∈ ops → minCycle ≤ config.model.cycle :=
        fun config features hmem => hreloads config features (List.mem_append_left _ hmem)
      -- the cycle in force is the one of the start or of a reload
      obtain ⟨c, hc, hconfig⟩ := (signalsHandled_of_run hstart hrun hd₁).inForce hcycle hbefore
      have hshortest : Daemon.nanos minCycle ≤ Daemon.nanos d₁.config.model.cycle := by
        rw [hconfig]
        exact Nat.mul_le_mul_right _ (UInt64.le_iff_toNat_le.1 hc)
      have hcount : completedTicks (ops ++ [op]) =
          completedTicks ops + if op.completesTick = true then 1 else 0 := by
        unfold completedTicks
        rw [List.countP_append, List.countP_singleton]
      rw [hcount]
      exact paced_step hloop.phase hloop.now hshortest (ih hbefore hd₁ hloop.running)

end Paced

/-- In every run of a process, however signals interrupt its rounds, no two ticks complete within the
    shortest cycle that was configured: as many as fit into the time since the start, and one. -/
theorem ticks_are_paced {num} {enc : Encoding F32 F64} {ln2} {h₀ h₁ h : Host F16 F32 F64}
    {c₀ : Settings F32} {launch : Launch} {ops : List (HostOp F32)} {d : Daemon F16 F32}
    {minCycle : UInt64} (hstart : HostStep num enc ln2 h₀ (.start c₀ launch) h₁)
    (hrun : Run (NoStart num enc ln2) h₁ ops h) (hcycle : minCycle ≤ c₀.model.cycle)
    (hreloads : ∀ config features, .sighup (some config) features ∈ ops → minCycle ≤ config.model.cycle)
    (hd : h.daemon = some d) (hrunning : d.Running) :
    completedTicks ops * Daemon.nanos minCycle ≤ h.now - h₁.now + Daemon.nanos minCycle := by
  have hpaced := paced_of_run hstart hrun hcycle hreloads hd hrunning
  revert hpaced
  cases hphase : d.phase with
  | selecting t =>
      rintro ⟨hle, hcount⟩
      omega
  | prefetching t tick =>
      rintro ⟨hle, hcount⟩
      omega
  | autosaving t didTick =>
      cases didTick with
      | true =>
          rintro ⟨hle, hcount⟩
          omega
      | false =>
          rintro ⟨hle, hcount⟩
          omega
  | sleeping wakeAt =>
      rintro ⟨-, hcount⟩
      omega
  | stopped result => exact absurd hphase (hrunning result)

/-- Two ticks in the shortest time. -/
theorem ticks_are_paced_two :
    ∃ (h : Host ℚ ℚ ℚ) (ops : List (HostOp ℚ)), completedTicks ops = 2 ∧
      h.now = Daemon.nanos 20 ∧
      completedTicks ops * Daemon.nanos 20 ≤ h.now - 0 + Daemon.nanos 20 := by
  let config : Settings ℚ := Settings.default 0
  let started : Host ℚ ℚ ℚ :=
    (Host.initial ℚ ℚ ℚ 0).start Numerics.rational Encoding.rational 1 config .plain
  let begins (time : UInt64) : HostOp ℚ := .beginTick (.ofScan (.ok (.ofRunning time ["/bin/a"])))
  let completes : HostOp ℚ := .finishTick ⟨0, 0, []⟩ fun _ => true
  let ops : List (HostOp ℚ) :=
    [begins 0, completes, .autosave ⟨.insertion, 0, none, 1⟩, .pass (Daemon.nanos 20), .wake,
      begins 20, completes]
  have hany : (started.execAll Numerics.rational Encoding.rational 1 ops).any (fun h =>
      decide (h.now = Daemon.nanos 20) && h.daemon.any fun d => decide d.Running) = true := by
    decide +kernel
  obtain ⟨h, hexec, hrest⟩ := (Option.any_eq_true _ _).1 hany
  obtain ⟨hnow, hdaemon⟩ := (Bool.and_eq_true _ _).mp hrest
  obtain ⟨d, hd, hrunning⟩ := (Option.any_eq_true _ _).1 hdaemon
  have hrun := noStart_of_execAll _ _ _ hexec fun config launch => by simp [ops, begins, completes]
  have hstarted : started.now = 0 := by decide +kernel
  refine ⟨h, ops, rfl, of_decide_eq_true hnow, ?_⟩
  rw [← hstarted]
  exact ticks_are_paced
    (show HostStep _ _ _ (Host.initial ℚ ℚ ℚ 0) (.start config .plain) started from rfl) hrun
    (by decide) (fun config features hmem => by simp [ops, begins, completes] at hmem) hd
    (of_decide_eq_true hrunning)

end PreloadNg
