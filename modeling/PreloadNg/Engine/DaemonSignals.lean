import PreloadNg.Engine.DaemonRestarts

set_option autoImplicit false

/-! # Signals to the daemon

Signal tasks queue events while the loop is anywhere in a round; the loop takes them one at a time.
The queue and the configuration in force are functions of the events sent and of how many of them
were handled, however ticks and saves interleave. -/

namespace PreloadNg

variable {F16 F32 F64 : Type} [Float32Ops F32] (num : Numerics F16 F32) (enc : Encoding F32 F64)
  (ln2 : F32)

/-! ## The sequential reading of events -/

/-- The configuration after an event: a reload keeps the state path. -/
def Settings.after (c : Settings F32) : ControlEvent F32 → Settings F32
  | .reload bundle =>
    { bundle.config with
      persistence := { bundle.config.persistence with statePath := c.persistence.statePath } }
  | .dumpStatus => c
  | .saveNow => c

/-- The events sent by the operations to a process with the flag, in order. -/
def sentEvents (noPrefetch : Bool) (ops : List (HostOp F32)) : List (ControlEvent F32) :=
  ops.filterMap (HostOp.event ln2 noPrefetch)

def HostOp.isControl : HostOp F32 → Bool
  | .control _ => true
  | _ => false

def HostOp.isCtrlC : HostOp F32 → Bool
  | .ctrlC => true
  | _ => false

def Daemon.Running (d : Daemon F16 F32) : Prop := ∀ result, d.phase ≠ .stopped result

instance (d : Daemon F16 F32) : Decidable d.Running :=
  match h : d.phase with
  | .stopped result => isFalse fun hrunning => hrunning result h
  | .selecting _ | .prefetching _ _ | .autosaving _ _ | .sleeping _ =>
    isTrue fun result => by simp [h]

/-- What was found out about the host at the start or at a reload. -/
def Found (launch : Launch) (ops : List (HostOp F32)) (features : HostFeatures) : Prop :=
  features = launch.features ∨ ∃ loaded, HostOp.sighup loaded features ∈ ops

/-- Every reload that waits was built from its configuration. -/
def Built (noPrefetch : Bool) (found : HostFeatures → Prop) (events : List (ControlEvent F32)) :
    Prop :=
  ∀ bundle, .reload bundle ∈ events →
    ∃ features config, found features ∧ bundle = buildReloadBundle ln2 features config noPrefetch

/-! ## One step -/

section Step

variable {num enc ln2} {h h' : Host F16 F32 F64} {d d' : Daemon F16 F32}

/-- A save changes the time of the last save, and may end the loop. -/
theorem daemon_saveOrStop {input : SaveInput}
    (hd' : (h.saveOrStop num enc d input).daemon = some d') :
    ∃ lastSave phase, d' = { d with lastSave, phase } := by
  unfold Host.saveOrStop at hd'
  dsimp only at hd'
  split at hd'
  · exact ⟨_, _, (Option.some.inj hd').symm⟩
  · exact ⟨_, _, (Option.some.inj hd').symm⟩

theorem daemon_shutdown {input : SaveInput}
    (hd' : (h.shutdown num enc d input).daemon = some d') :
    d' = { d with phase := .stopped (.ok ()) } := by
  unfold Host.shutdown at hd'
  dsimp only at hd'
  split at hd'
  · split at hd'
    · exact (Option.some.inj hd').symm
    · exact (Option.some.inj hd').symm
  · exact (Option.some.inj hd').symm

theorem daemon_autosave {tickStart : ℕ} {didTick : Bool} {input : SaveInput}
    (hd' : (h.autosave num enc d tickStart didTick input).daemon = some d') :
    ∃ lastSave phase, d' = { d with lastSave, phase } := by
  unfold Host.autosave at hd'
  dsimp only at hd'
  split at hd'
  · obtain ⟨lastSave, phase, rfl⟩ := daemon_saveOrStop hd'
    exact ⟨lastSave, phase, rfl⟩
  · exact ⟨_, _, (Option.some.inj hd').symm⟩

/-- What handling an event does beside saving. -/
theorem daemon_handleControl {tickStart : ℕ} {event : ControlEvent F32} {input : SaveInput}
    (hd' : (h.handleControl num enc d tickStart event input).daemon = some d') :
    d'.config = d.config.after event ∧ d'.control = d.control ∧ d'.cancelled = d.cancelled ∧
      (d'.repo = d.repo ∧ d'.noPrefetch = d.noPrefetch) ∧
      ((∃ bundle, event = .reload bundle ∧ d'.services = bundle.services) ∨
        ((∀ bundle, event ≠ .reload bundle) ∧ d'.services = d.services)) := by
  unfold Host.handleControl at hd'
  dsimp only at hd'
  cases event with
  | reload bundle =>
      obtain rfl := Option.some.inj hd'
      exact ⟨rfl, rfl, rfl, ⟨rfl, rfl⟩, Or.inl ⟨bundle, rfl, rfl⟩⟩
  | dumpStatus =>
      obtain rfl := Option.some.inj hd'
      exact ⟨rfl, rfl, rfl, ⟨rfl, rfl⟩, Or.inr ⟨fun _ heq => (by cases heq), rfl⟩⟩
  | saveNow =>
      obtain ⟨lastSave, phase, rfl⟩ := daemon_saveOrStop hd'
      exact ⟨rfl, rfl, rfl, ⟨rfl, rfl⟩, Or.inr ⟨fun _ heq => (by cases heq), rfl⟩⟩

/-- Services that were built from the configuration are those of the new one after an event that was
    built. -/
theorem built_after {event : ControlEvent F32} {noPrefetch : Bool} {found : HostFeatures → Prop}
    (hd : ∃ features, found features ∧
      d.services = (buildReloadBundle ln2 features d.config noPrefetch).services)
    (hbuilt : Built ln2 noPrefetch found [event]) (hconfig : d'.config = d.config.after event)
    (hservices : (∃ bundle, event = .reload bundle ∧ d'.services = bundle.services) ∨
      ((∀ bundle, event ≠ .reload bundle) ∧ d'.services = d.services)) :
    ∃ features, found features ∧
      d'.services = (buildReloadBundle ln2 features d'.config noPrefetch).services := by
  rcases hservices with ⟨bundle, rfl, hservices⟩ | ⟨hother, hservices⟩
  · obtain ⟨features, config, hfound, rfl⟩ := hbuilt bundle (List.mem_singleton_self _)
    refine ⟨features, hfound, ?_⟩
    rw [hconfig, hservices]
    rfl
  · rw [hservices, hconfig]
    cases event with
    | reload bundle => exact absurd rfl (hother bundle)
    | dumpStatus => exact hd
    | saveNow => exact hd

/-- What a step of the loop or a signal does to the queue and the configuration. -/
structure SignalStep (ln2 : F32) (d : Daemon F16 F32) (op : HostOp F32) (d' : Daemon F16 F32) :
    Prop where
  repo : d'.repo = d.repo
  noPrefetch : d'.noPrefetch = d.noPrefetch
  cancelled : d'.cancelled = (d.cancelled || op.isCtrlC)
  handled : op.isControl = true → ∃ event, d.Running ∧ d.control = event :: d'.control ∧
    d'.config = d.config.after event ∧
    ((∃ bundle, event = .reload bundle ∧ d'.services = bundle.services) ∨
      ((∀ bundle, event ≠ .reload bundle) ∧ d'.services = d.services))
  kept : op.isControl = false → d'.config = d.config ∧ d'.services = d.services ∧
    (d'.Running → d.Running ∧
      d'.control = d.control ++ (op.event ln2 d.noPrefetch).toList)

omit [Float32Ops F32] in
theorem send_running {event : ControlEvent F32} (hrunning : (d.send event).Running) :
    d.Running ∧ (d.send event).control = d.control ++ [event] := by
  unfold Daemon.send at hrunning ⊢
  split at hrunning
  · next result hphase => exact absurd hphase (hrunning result)
  · next hphase =>
    exact ⟨fun result heq => hphase result heq, rfl⟩

omit [Float32Ops F32] in
theorem send_kept (d : Daemon F16 F32) (event : ControlEvent F32) :
    (d.send event).config = d.config ∧ (d.send event).services = d.services ∧
      (d.send event).cancelled = d.cancelled ∧ (d.send event).noPrefetch = d.noPrefetch := by
  unfold Daemon.send
  split
  · exact ⟨rfl, rfl, rfl, rfl⟩
  · exact ⟨rfl, rfl, rfl, rfl⟩

theorem signalStep_send {op : HostOp F32} {event : ControlEvent F32}
    (hevent : op.event ln2 d.noPrefetch = some event) (hcontrol : op.isControl = false)
    (hctrlC : op.isCtrlC = false) : SignalStep ln2 d op (d.send event) := by
  obtain ⟨hconfig, hservices, hcancelled, hflag⟩ := send_kept d event
  refine ⟨d.repo_send event, hflag, by rw [hcancelled, hctrlC, Bool.or_false], fun heq => ?_,
    fun _ => ?_⟩
  · exact absurd (heq.symm.trans hcontrol) (by simp)
  · refine ⟨hconfig, hservices, fun hrunning => ?_⟩
    rw [hevent]
    exact send_running hrunning

/-- A step that neither sends nor handles an event. -/
theorem signalStep_of_kept {op : HostOp F32} (hevent : op.event ln2 d.noPrefetch = none)
    (hcontrol : op.isControl = false) (hctrlC : op.isCtrlC = false) (hrepo : d'.repo = d.repo)
    (hflag : d'.noPrefetch = d.noPrefetch) (hconfig : d'.config = d.config)
    (hservices : d'.services = d.services) (hcancelled : d'.cancelled = d.cancelled)
    (hqueue : d'.control = d.control) (hrunning : d'.Running → d.Running) :
    SignalStep ln2 d op d' := by
  refine ⟨hrepo, hflag, by rw [hcancelled, hctrlC, Bool.or_false], fun heq => ?_, fun _ => ?_⟩
  · exact absurd (heq.symm.trans hcontrol) (by simp)
  · refine ⟨hconfig, hservices, fun hrun => ⟨hrunning hrun, ?_⟩⟩
    rw [hevent, hqueue, Option.toList_none, List.append_nil]

omit [Float32Ops F32] in
/-- A phase other than the last one. -/
theorem running_of_phase {phase : Phase F16} (hphase : d.phase = phase)
    (hne : ∀ result, phase ≠ .stopped result) : d.Running := by
  intro result hstopped
  exact hne result (hphase.symm.trans hstopped)

theorem signalStep_control {save : SaveInput} {event : ControlEvent F32}
    {rest : List (ControlEvent F32)} {tickStart : ℕ} (hrunning : d.Running)
    (hqueue : d.control = event :: rest)
    (hd' : (h.handleControl num enc { d with control := rest } tickStart event save).daemon =
      some d') : SignalStep ln2 d (.control save) d' := by
  obtain ⟨hconfig, hcontrol, hcancelled, ⟨hrepo, hflag⟩, hservices⟩ := daemon_handleControl hd'
  refine ⟨hrepo, hflag, by rw [hcancelled]; exact (Bool.or_false _).symm, fun _ => ?_,
    fun heq => by cases heq⟩
  exact ⟨event, hrunning, by rw [hqueue, hcontrol], hconfig, hservices⟩

theorem isControl_of_event {op : HostOp F32} {noPrefetch : Bool} {event : ControlEvent F32}
    (hevent : op.event ln2 noPrefetch = some event) : op.isControl = false ∧ op.isCtrlC = false := by
  cases op with
  | sighup _ _ | sigusr1 | sigusr2 => exact ⟨rfl, rfl⟩
  | pass _ | kill | start _ _ | ctrlC | beginTick _ | finishTick _ _ | control _ | cancelled _
    | autosave _ | wake => cases hevent

/-- Every step of a process. -/
theorem signalStep_of_step {op : HostOp F32} (hstep : NoStart num enc ln2 h op h')
    (hd' : h'.daemon = some d') : ∃ d, h.daemon = some d ∧ SignalStep ln2 d op d' := by
  obtain ⟨hexec, hop⟩ := hstep
  cases hostMove_of_step hexec with
  | passes => exact ⟨d', hd', signalStep_of_kept rfl rfl rfl rfl rfl rfl rfl rfl rfl id⟩
  | dies => cases hd'
  | starts _ => exact absurd rfl (hop _ _)
  | ignores => exact ⟨d', hd', signalStep_of_kept rfl rfl rfl rfl rfl rfl rfl rfl rfl id⟩
  | sends hd hevent =>
      obtain rfl := Option.some.inj hd'
      obtain ⟨hcontrol, hctrlC⟩ := isControl_of_event hevent
      exact ⟨_, hd, signalStep_send hevent hcontrol hctrlC⟩
  | cancels hd =>
      obtain rfl := Option.some.inj hd'
      refine ⟨_, hd, rfl, rfl, (Bool.or_true _).symm, fun heq => (by cases heq),
        fun _ => ⟨rfl, rfl, ?_⟩⟩
      intro hrunning
      exact ⟨hrunning, (List.append_nil _).symm⟩
  | begins hd hphase =>
      obtain rfl := Option.some.inj hd'
      exact ⟨_, hd, signalStep_of_kept rfl rfl rfl rfl rfl rfl rfl rfl rfl
        fun _ => running_of_phase hphase fun _ heq => by cases heq⟩
  | finishes hd hphase =>
      obtain rfl := Option.some.inj hd'
      exact ⟨_, hd, signalStep_of_kept rfl rfl rfl rfl rfl rfl rfl rfl rfl
        fun _ => running_of_phase hphase fun _ heq => by cases heq⟩
  | controls hd hphase hqueue =>
      refine ⟨_, hd, signalStep_control ?_ hqueue hd'⟩
      rcases hphase with hphase | ⟨tick, hphase⟩
      · exact running_of_phase hphase fun _ heq => by cases heq
      · exact running_of_phase hphase fun _ heq => by cases heq
  | shuts hd _ =>
      obtain rfl := daemon_shutdown hd'
      exact ⟨_, hd, signalStep_of_kept rfl rfl rfl rfl rfl rfl rfl rfl rfl
        fun hrunning => absurd rfl (hrunning _)⟩
  | autosaves hd hphase =>
      obtain ⟨lastSave, phase, rfl⟩ := daemon_autosave hd'
      exact ⟨_, hd, signalStep_of_kept rfl rfl rfl rfl rfl rfl rfl rfl rfl
        fun _ => running_of_phase hphase fun _ heq => by cases heq⟩
  | wakes hd hphase _ =>
      obtain rfl := Option.some.inj hd'
      exact ⟨_, hd, signalStep_of_kept rfl rfl rfl rfl rfl rfl rfl rfl rfl
        fun _ => running_of_phase hphase fun _ heq => by cases heq⟩

end Step

/-! ## Runs -/

/-- How many events the operations handle. -/
def handledCount (ops : List (HostOp F32)) : ℕ := ops.countP HostOp.isControl

/-- What the signals of the operations have come to in a process started with `c₀`. -/
structure SignalsHandled (ln2 : F32) (c₀ : Settings F32) (launch : Launch) (ops : List (HostOp F32))
    (d : Daemon F16 F32) : Prop where
  cancelled : d.cancelled = true ↔ HostOp.ctrlC ∈ ops
  handled_le : handledCount ops ≤ (sentEvents ln2 launch.noPrefetch ops).length
  /-- What was sent and not handled waits, in order. -/
  waiting : d.Running → d.control = (sentEvents ln2 launch.noPrefetch ops).drop (handledCount ops)
  config : d.config =
    ((sentEvents ln2 launch.noPrefetch ops).take (handledCount ops)).foldl Settings.after c₀
  services : ∃ features, Found launch ops features ∧
    d.services = (buildReloadBundle ln2 features d.config launch.noPrefetch).services
  statePath : d.config.persistence.statePath = c₀.persistence.statePath
  repo : d.repo = launch.repo c₀
  noPrefetch : d.noPrefetch = launch.noPrefetch

section Runs

variable {num enc ln2} {ops : List (HostOp F32)} {d d' : Daemon F16 F32} {c₀ : Settings F32}
  {launch : Launch}

/-- Only SIGHUP sends a configuration. -/
theorem sighup_of_event {op : HostOp F32} {noPrefetch : Bool} {bundle : Bundle F32}
    (hevent : op.event ln2 noPrefetch = some (.reload bundle)) :
    ∃ config features, op = .sighup (some config) features ∧
      bundle = buildReloadBundle ln2 features config noPrefetch := by
  cases op with
  | sighup loaded features =>
      obtain ⟨config, rfl, hbundle⟩ := Option.map_eq_some_iff.1 hevent
      exact ⟨config, features, rfl, (ControlEvent.reload.inj hbundle).symm⟩
  | sigusr1 | sigusr2 => cases hevent
  | pass _ | kill | start _ _ | ctrlC | beginTick _ | finishTick _ _ | control _ | cancelled _
    | autosave _ | wake => cases hevent

theorem built_sentEvents (launch : Launch) (ops : List (HostOp F32)) :
    Built ln2 launch.noPrefetch (Found launch ops) (sentEvents ln2 launch.noPrefetch ops) := by
  intro bundle hmem
  obtain ⟨op, hop, hevent⟩ := List.mem_filterMap.1 hmem
  obtain ⟨config, features, rfl, hbundle⟩ := sighup_of_event hevent
  exact ⟨features, config, Or.inr ⟨_, hop⟩, hbundle⟩

omit [Float32Ops F32] in
theorem Found.append {features : HostFeatures} (h : Found launch ops features) (op : HostOp F32) :
    Found launch (ops ++ [op]) features :=
  h.imp_right fun ⟨loaded, hmem⟩ => ⟨loaded, List.mem_append_left _ hmem⟩

theorem sentEvents_append (noPrefetch : Bool) (ops : List (HostOp F32)) (op : HostOp F32) :
    sentEvents ln2 noPrefetch (ops ++ [op]) =
      sentEvents ln2 noPrefetch ops ++ (op.event ln2 noPrefetch).toList := by
  unfold sentEvents
  rw [List.filterMap_append, List.filterMap_cons, List.filterMap_nil]
  cases op.event ln2 noPrefetch <;> rfl

omit [Float32Ops F32] in
theorem statePath_after (c : Settings F32) (event : ControlEvent F32) :
    (c.after event).persistence.statePath = c.persistence.statePath := by
  cases event <;> rfl

theorem event_of_isControl {op : HostOp F32} (hop : op.isControl = true) (noPrefetch : Bool) :
    op.event ln2 noPrefetch = none := by
  cases op with
  | control save => rfl
  | pass _ | kill | start _ _ | sighup _ _ | sigusr1 | sigusr2 | ctrlC | beginTick _
    | finishTick _ _ | cancelled _ | autosave _ | wake => cases hop

omit [Float32Ops F32] in
theorem isCtrlC_iff {op : HostOp F32} : op.isCtrlC = true ↔ op = .ctrlC := by
  cases op <;> simp [HostOp.isCtrlC]

/-- One more step. -/
theorem signalsHandled_step (ih : SignalsHandled ln2 c₀ launch ops d) {op : HostOp F32}
    (hstep : SignalStep ln2 d op d') : SignalsHandled ln2 c₀ launch (ops ++ [op]) d' := by
  have hcancelled : d'.cancelled = true ↔ HostOp.ctrlC ∈ ops ++ [op] := by
    rw [hstep.cancelled, Bool.or_eq_true, ih.cancelled, isCtrlC_iff, List.mem_append,
      List.mem_singleton, eq_comm (a := op)]
  have hcount : handledCount (ops ++ [op]) =
      handledCount ops + if op.isControl = true then 1 else 0 := by
    unfold handledCount
    rw [List.countP_append, List.countP_singleton]
  have hfound : ∀ features, Found launch ops features → Found launch (ops ++ [op]) features :=
    fun _ hfeatures => hfeatures.append op
  have hrepo : d'.repo = launch.repo c₀ := hstep.repo.trans ih.repo
  have hflag : d'.noPrefetch = launch.noPrefetch := hstep.noPrefetch.trans ih.noPrefetch
  obtain ⟨features, hfeatures, hbefore⟩ := ih.services
  cases hop : op.isControl with
  | true =>
      obtain ⟨event, hrunning, hqueue, hconfig, hservices⟩ := hstep.handled hop
      have hsent : sentEvents ln2 launch.noPrefetch (ops ++ [op]) =
          sentEvents ln2 launch.noPrefetch ops := by
        rw [sentEvents_append, event_of_isControl hop, Option.toList_none, List.append_nil]
      -- the event is the first one that was sent and not handled
      have hhead : (sentEvents ln2 launch.noPrefetch ops).drop (handledCount ops) =
          event :: d'.control := (ih.waiting hrunning).symm.trans hqueue
      have hlt : handledCount ops < (sentEvents ln2 launch.noPrefetch ops).length := by
        rw [← List.drop_eq_nil_iff.not.trans Nat.not_le, hhead]
        exact List.cons_ne_nil _ _
      rw [List.drop_eq_getElem_cons hlt, List.cons.injEq] at hhead
      have hmem : event ∈ sentEvents ln2 launch.noPrefetch ops := hhead.1 ▸ List.getElem_mem hlt
      -- it was sent, so its services were built from its configuration
      have hbuilt : Built ln2 launch.noPrefetch (Found launch (ops ++ [op])) [event] := by
        intro bundle hbundle
        obtain ⟨features, config, hfeatures, heq⟩ := built_sentEvents launch ops bundle (by
          rwa [List.mem_singleton.1 hbundle])
        exact ⟨features, config, hfound _ hfeatures, heq⟩
      rw [hop, if_pos rfl] at hcount
      refine ⟨hcancelled, ?_, fun _ => ?_, ?_,
        built_after ⟨features, hfound _ hfeatures, hbefore⟩ hbuilt hconfig hservices, ?_, hrepo, hflag⟩
      · rw [hcount, hsent]
        exact hlt
      · rw [hcount, hsent]
        exact hhead.2.symm
      · rw [hcount, hsent, List.take_succ_eq_append_getElem hlt, List.foldl_append, ← ih.config,
          hhead.1]
        exact hconfig
      · rw [hconfig, statePath_after, ih.statePath]
  | false =>
      obtain ⟨hconfig, hservices, hqueue⟩ := hstep.kept hop
      rw [ih.noPrefetch] at hqueue
      rw [hop, if_neg Bool.false_ne_true, Nat.add_zero] at hcount
      -- an event that is sent joins the queue at its end
      refine ⟨hcancelled, ?_, fun hrunning => ?_, ?_, ⟨features, hfound _ hfeatures, ?_⟩,
        hconfig ▸ ih.statePath, hrepo, hflag⟩
      · rw [hcount, sentEvents_append, List.length_append]
        exact Nat.le_add_right_of_le ih.handled_le
      · obtain ⟨hrunningBefore, hcontrol⟩ := hqueue hrunning
        rw [hcontrol, ih.waiting hrunningBefore, hcount, sentEvents_append,
          List.drop_append_of_le_length ih.handled_le]
      · rw [hconfig, ih.config, hcount, sentEvents_append,
          List.take_append_of_le_length ih.handled_le]
      · rw [hservices, hconfig]
        exact hbefore

/-- A process that has just started. -/
theorem signalsHandled_start {h h' : Host F16 F32 F64}
    (hstep : HostStep num enc ln2 h (.start c₀ launch) h') (hd' : h'.daemon = some d') :
    SignalsHandled ln2 c₀ launch [] d' := by
  cases hostMove_of_step hstep with
  | starts _ =>
      obtain ⟨e, -, rfl⟩ := daemon_start hd'
      exact ⟨⟨fun heq => (by cases heq), fun hmem => (by cases hmem)⟩, Nat.le_refl _, fun _ => rfl,
        rfl, ⟨launch.features, Or.inl rfl, rfl⟩, rfl, rfl, rfl⟩
  | sends _ hevent => cases hevent

/-- Any number of steps. -/
theorem signalsHandled_of_run {h₀ h₁ h : Host F16 F32 F64}
    (hstart : HostStep num enc ln2 h₀ (.start c₀ launch) h₁)
    (hrun : Run (NoStart num enc ln2) h₁ ops h) (hd : h.daemon = some d) :
    SignalsHandled ln2 c₀ launch ops d := by
  refine hrun.invariant
    (I := fun ops h => ∀ d, h.daemon = some d → SignalsHandled ln2 c₀ launch ops d) ?_ ?_ d hd
  · intro d' hd'
    exact signalsHandled_start hstart hd'
  · intro ops h op h' ih hstep d' hd'
    obtain ⟨d₁, hd₁, hsignal⟩ := signalStep_of_step hstep hd'
    exact signalsHandled_step (ih d₁ hd₁) hsignal

end Runs

/-! ## The configuration in force -/

def Settings.withStatePath (c : Settings F32) (statePath : Option RawPath) : Settings F32 :=
  { c with persistence := { c.persistence with statePath } }

section InForce

variable {P : Settings F32 → Prop} {events : List (ControlEvent F32)} {c : Settings F32}
  (statePath : Option RawPath)

omit [Float32Ops F32] in
/-- One more event. -/
theorem after_withStatePath {event : ControlEvent F32} (hc : P c)
    (hevent : ∀ bundle, event = .reload bundle → P bundle.config) :
    ∃ c', P c' ∧ (c.withStatePath statePath).after event = c'.withStatePath statePath := by
  cases event with
  | reload bundle => exact ⟨bundle.config, hevent bundle rfl, rfl⟩
  | dumpStatus => exact ⟨c, hc, rfl⟩
  | saveNow => exact ⟨c, hc, rfl⟩

omit [Float32Ops F32] in
/-- After any events the configuration is that of the start or of a reload. -/
theorem foldl_after (hc : P c) (hevents : ∀ bundle, .reload bundle ∈ events → P bundle.config) :
    ∃ c', P c' ∧
      events.foldl Settings.after (c.withStatePath statePath) = c'.withStatePath statePath := by
  induction events generalizing c with
  | nil => exact ⟨c, hc, rfl⟩
  | cons event rest ih =>
      obtain ⟨c₁, hc₁, hafter⟩ := after_withStatePath statePath hc
        fun bundle heq => hevents bundle (heq ▸ List.mem_cons_self)
      obtain ⟨c', hc', hrest⟩ :=
        ih hc₁ fun bundle hmem => hevents bundle (List.mem_cons_of_mem _ hmem)
      refine ⟨c', hc', ?_⟩
      rw [List.foldl_cons, hafter, hrest]

/-- What is in force is the configuration of the start or one that was sent, except for its state
    path. -/
theorem SignalsHandled.inForce {ops : List (HostOp F32)} {ln2 : F32} {c₀ : Settings F32}
    {launch : Launch} {d : Daemon F16 F32} (h : SignalsHandled ln2 c₀ launch ops d) (hc₀ : P c₀)
    (hsent : ∀ config features, .sighup (some config) features ∈ ops → P config) :
    ∃ c, P c ∧ d.config = c.withStatePath c₀.persistence.statePath := by
  have hevents : ∀ bundle,
      .reload bundle ∈ (sentEvents ln2 launch.noPrefetch ops).take (handledCount ops) →
        P bundle.config := by
    intro bundle hmem
    obtain ⟨op, hop, hevent⟩ := List.mem_filterMap.1 (List.mem_of_mem_take hmem)
    obtain ⟨config, features, rfl, rfl⟩ := sighup_of_event hevent
    exact hsent config features hop
  obtain ⟨c, hc, hfold⟩ := foldl_after c₀.persistence.statePath hc₀ hevents
  exact ⟨c, hc, h.config.trans hfold⟩

end InForce

/-- In every run of a process, events are handled in the order in which they were sent and none is
    lost or handled twice; the configuration in force is the sequential reading of those handled, with
    the state path of the start, and the services that a reload replaces are built from it, the
    prefetcher with what was found out about the host at the start or at a reload. The repository is
    that of the start. -/
theorem signals_handled_in_order {num} {enc : Encoding F32 F64} {ln2} {h₀ h₁ h : Host F16 F32 F64}
    {c₀ : Settings F32} {launch : Launch} {ops : List (HostOp F32)} {d : Daemon F16 F32}
    (hstart : HostStep num enc ln2 h₀ (.start c₀ launch) h₁)
    (hrun : Run (NoStart num enc ln2) h₁ ops h) (hd : h.daemon = some d) :
    SignalsHandled ln2 c₀ launch ops d :=
  signalsHandled_of_run hstart hrun hd

/-- A reload is handled while a tick waits for its prefetch, and brings another prefetcher but no other
    state file; a status request still waits. -/
theorem signals_handled_in_order_reload :
    ∃ (c₀ : Settings ℚ) (ops : List (HostOp ℚ)) (d : Daemon ℚ ℚ), handledCount ops = 1 ∧
      d.control.length = 1 ∧ d.config.model.cycle = 60 ∧ d.services.prefetcher = .madvise 4 ∧
      d.repo = .sqlite (Path.ofString "/a.db") ∧ SignalsHandled 1 c₀ Launch.plain ops d := by
  let c₀ : Settings ℚ := .stateful "/a.db"
  let other : Settings ℚ := .stateful "/b.db"
  let c₁ : Settings ℚ :=
    { other with
      model := { other.model with cycle := 60 }
      system := { other.system with prefetchConcurrency := none } }
  let ops : List (HostOp ℚ) :=
    [.beginTick (.ofScan (.ok (.ofRunning 0 ["/bin/a"]))),
      .sighup (some c₁) ⟨some 4, false, true⟩, .sigusr1, .control ⟨.insertion, 0, none, 0⟩]
  let started : Host ℚ ℚ ℚ :=
    (Host.initial ℚ ℚ ℚ 0).start Numerics.rational Encoding.rational 1 c₀ .plain
  have hany : (started.execAll Numerics.rational Encoding.rational 1 ops).any
      (fun h => h.daemon.any fun d => decide (d.control.length = 1) &&
        decide (d.config.model.cycle = 60) && decide (d.services.prefetcher = .madvise 4)) = true := by
    decide +kernel
  obtain ⟨h, hexec, hfinal⟩ := (Option.any_eq_true _ _).1 hany
  obtain ⟨d, hd, hall⟩ := (Option.any_eq_true _ _).1 hfinal
  obtain ⟨hboth, hprefetcher⟩ := (Bool.and_eq_true _ _).mp hall
  obtain ⟨hwaiting, hcycle⟩ := (Bool.and_eq_true _ _).mp hboth
  have hrun := noStart_of_execAll _ _ _ hexec fun config launch => by simp [ops]
  have hsignals := signals_handled_in_order
    (show HostStep _ _ _ (Host.initial ℚ ℚ ℚ 0) (.start c₀ .plain) started from rfl) hrun hd
  exact ⟨c₀, ops, d, rfl, of_decide_eq_true hwaiting, of_decide_eq_true hcycle,
    of_decide_eq_true hprefetcher, hsignals.repo, hsignals⟩

end PreloadNg
