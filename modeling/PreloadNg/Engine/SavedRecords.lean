import PreloadNg.Engine.IdleRuns

set_option autoImplicit false

/-! # What becomes of saved records

Once a save to a state file has succeeded, its records outlive every crash, reload, save and restart.
An executable is never forgotten and its running time never goes down; a map is forgotten only by a
process with this state file whose policy denies it, or when it could not be prefetched and its file
is gone. -/

namespace PreloadNg

variable {F16 F32 F64 : Type}

/-! ## What stores keep of others -/

/-- The records of `s` are still in `t`, except for maps that may be gone. -/
structure Stores.KeptIn (gone : MapKey → Prop) (s t : Stores F16) : Prop where
  exe : ∀ p e, s.exeAt p = some e →
    ∃ e', t.exeAt p = some e' ∧ e.totalRunningTime ≤ e'.totalRunningTime
  map : ∀ key, (s.mapAt key).isSome → (t.mapAt key).isSome ∨ gone key
  rel : ∀ p key, s.relAt p key → t.relAt p key ∨ gone key

namespace Stores.KeptIn

variable {gone gone' : MapKey → Prop} {s t u : Stores F16}

theorem refl (gone : MapKey → Prop) (s : Stores F16) : s.KeptIn gone s where
  exe _ e he := ⟨e, he, UInt64.le_refl _⟩
  map _ hm := Or.inl hm
  rel _ _ hrel := Or.inl hrel

theorem trans (h : s.KeptIn gone t) (h' : t.KeptIn gone u) : s.KeptIn gone u where
  exe p e he := by
    obtain ⟨e', he', hle⟩ := h.exe p e he
    obtain ⟨e'', he'', hle'⟩ := h'.exe p e' he'
    exact ⟨e'', he'', UInt64.le_trans hle hle'⟩
  map key hm := (h.map key hm).elim (h'.map key) Or.inr
  rel p key hrel := (h.rel p key hrel).elim (h'.rel p key) Or.inr

theorem mono (h : s.KeptIn gone t) (hsub : ∀ key, gone key → gone' key) : s.KeptIn gone' t where
  exe := h.exe
  map key hm := (h.map key hm).imp_right (hsub key)
  rel p key hrel := (h.rel p key hrel).imp_right (hsub key)

/-- Maps are removed. -/
theorem removeMaps (hs : s.WF) {keys : List MapKey} (hkeys : ∀ key ∈ keys, gone key)
    (cycle : UInt64) : s.KeptIn gone ((keys.foldl Stores.removeMapByKey s).advance cycle) := by
  have hpurged := purged_removeMaps hs keys
  constructor
  · intro p e he
    refine ⟨e, ?_, UInt64.le_refl _⟩
    change (keys.foldl Stores.removeMapByKey s).exeAt p = some e
    rwa [Stores.exeAt, hpurged.exes]
  · intro key hm
    by_cases hkey : key ∈ keys
    · exact Or.inr (hkeys key hkey)
    · left
      change ((keys.foldl Stores.removeMapByKey s).mapAt key).isSome
      rw [hpurged.mapAt, decide_eq_false hkey]
      simpa using hm
  · intro p key hrel
    by_cases hkey : key ∈ keys
    · exact Or.inr (hkeys key hkey)
    · exact Or.inl ((hpurged.relAt p key).2 ⟨hrel, hkey⟩)

variable [Float32Ops F32] {num : Numerics F16 F32}

/-- A process that starts keeps what its policy allows. -/
theorem restored (hs : s.WF) {config : Settings F32} (ht : RestoredUnder num config s t)
    (hgone : ∀ key : MapKey, config.allowsMap key.path = false → gone key) : s.KeptIn gone t := by
  have hkept := keptThrough_restored hs ht
  constructor
  · intro p e he
    exact ⟨e.persisted, by rw [hkept.exeAt, he, Option.map_some], UInt64.le_refl _⟩
  · intro key hm
    cases hallowed : config.allowsMap key.path with
    | false => exact Or.inr (hgone key hallowed)
    | true =>
        left
        rw [hkept.mapAt, Option.isSome_map]
        simpa [hallowed] using hm
  · intro p key hrel
    cases hallowed : config.allowsMap key.path with
    | false => exact Or.inr (hgone key hallowed)
    | true =>
        refine Or.inl ((hkept.relAt p key).2 ⟨hrel, fun c hc => ?_⟩)
        rwa [List.mem_singleton.1 hc]

/-- An observation adds to what there is. -/
theorem apply (hs : s.WF) (u : DefaultModelUpdater F32) (ord : HashOrder) (obs : Observation)
    (policy : AdmissionPolicy) : s.KeptIn gone (u.apply num ord s obs policy).1 := by
  have hspec := apply_spec num u ord s obs policy
  constructor
  · intro p e he
    have hcredit : ∀ e₀ : Exe, e₀.totalRunningTime = e.totalRunningTime →
        e.totalRunningTime ≤ (e₀.settle (obs.time s.modelTime)
          (collect policy s.modelTime obs).runningPaths (accountingPeriod s obs)).totalRunningTime := by
      intro e₀ heq
      rw [Exe.settle_totalRunningTime, heq]
      split
      · exact le_satAdd _ _
      · exact UInt64.le_refl _
    rw [hspec.exeAt, he]
    split
    · exact ⟨_, rfl, hcredit _ rfl⟩
    · exact ⟨_, rfl, hcredit e rfl⟩
  · intro key hm
    left
    by_contra hnone
    rw [Option.not_isSome_iff_eq_none, hspec.mapAt_eq_none key] at hnone
    rw [hnone.1] at hm
    cases hm
  · intro p key hrel
    exact Or.inl ((hspec.relAt hs p key).2 (Or.inl hrel))

end Stores.KeptIn

/-! ## Runs -/

/-- The operation may make a process with the repository forget the map. -/
def HostOp.Forgets {F32 : Type} [Float32Ops F32] (repo : Repository) (key : MapKey) :
    HostOp F32 → Prop
  | .start config launch => launch.repo config = repo ∧ config.allowsMap key.path = false
  | .finishTick prefetch exist => key ∈ prefetch.failures ∧ exist key.path = false
  | _ => False

/-- One of the operations may have made a process with the repository forget the map. -/
def Forgotten {F32 : Type} [Float32Ops F32] (repo : Repository) (ops : List (HostOp F32))
    (key : MapKey) : Prop :=
  ∃ op ∈ ops, op.Forgets repo key

section Runs

variable [Float32Ops F32] {num : Numerics F16 F32} {enc : Encoding F32 F64} {ln2 : F32}
  {h h' : Host F16 F32 F64} {d : Daemon F16 F32} {op : HostOp F32} {s : Stores F16}
  {repo : Repository}

/-- The work of a tick. -/
theorem TickWork.keptIn {t : Stores F16} (hwork : TickWork num d op t) (hd : d.stores.WF) :
    d.stores.KeptIn (op.Forgets repo) t := by
  cases hwork with
  | applies hscan hobs hstores =>
      rw [hstores]
      exact Stores.KeptIn.apply hd _ _ _ _
  | advances keys hstores hgone =>
      rw [hstores]
      exact Stores.KeptIn.removeMaps hd hgone _

/-- One more step. -/
theorem keptIn_step (henc : enc.RoundTrips) {now : ℕ} {ops : List (HostOp F32)}
    (hr : Reachable (HostStep num enc ln2) (Host.initial F16 F32 F64 now) h)
    (hkept : h.Holds num enc (· = repo) (s.KeptIn (Forgotten repo ops)))
    (hstep : HostStep num enc ln2 h op h') :
    h'.Holds num enc (· = repo) (s.KeptIn (Forgotten repo (ops ++ [op]))) := by
  have hold : ∀ key, Forgotten repo ops key → Forgotten repo (ops ++ [op]) key := by
    rintro key ⟨op', hmem, hforgets⟩
    exact ⟨op', List.mem_append_left _ hmem, hforgets⟩
  have hnew : ∀ key, op.Forgets repo key → Forgotten repo (ops ++ [op]) key :=
    fun key hforgets => ⟨op, List.mem_append_right _ (List.mem_singleton_self op), hforgets⟩
  refine holds_step henc hr (hkept.mono fun t ht => ht.mono hold) hstep ?_ ?_
  · intro config launch t u hop hrepo ht hkept hu
    refine hkept.trans (Stores.KeptIn.restored ht hu fun key hdenied => hnew key ?_)
    rw [hop]
    exact ⟨hrepo, hdenied⟩
  · intro d t _ hd hkept hwork
    exact hkept.trans ((hwork.keptIn hd).mono hnew)

/-- The step of a save. -/
theorem keptIn_saved (henc : enc.RoundTrips) {now : ℕ} {file : Path}
    (hr : Reachable (HostStep num enc ln2) (Host.initial F16 F32 F64 now) h)
    (hd : h.daemon = some d) (hstep : HostStep num enc ln2 h op h')
    (hsaved : SavedAs num enc d.stores (h.dbs file) (h'.dbs file)) :
    h'.Holds num enc (· = .sqlite file) (d.stores.KeptIn (Forgotten (.sqlite file) [op])) := by
  refine ⟨fun d' hd' _ => ?_, fun repo hrepo => ⟨d.stores, wf_daemon henc hr hd, ?_,
    Stores.KeptIn.refl _ _⟩⟩
  · have hsame : d'.stores = d.stores →
        d.stores.KeptIn (Forgotten (.sqlite file) [op]) d'.stores := by
      intro heq
      rw [heq]
      exact Stores.KeptIn.refl _ _
    cases hostChange_of_step hstep with
    | rests hdbs hlive _ =>
        obtain ⟨d₁, hd₁, -, hstores⟩ := hlive d' hd'
        obtain rfl := Option.some.inj (hd.symm.trans hd₁)
        exact hsame hstores
    | works hd₁ hd₁' hdbs _ hwork =>
        obtain rfl := Option.some.inj (hd.symm.trans hd₁)
        obtain rfl := Option.some.inj (hd'.symm.trans hd₁')
        have hkept : d.stores.KeptIn (op.Forgets (.sqlite file)) d'.stores :=
          hwork.keptIn (wf_daemon henc hr hd)
        exact hkept.mono fun key hforgets => ⟨op, List.mem_singleton_self op, hforgets⟩
    | saves hd₁ hd₁' _ hstores hsaved₁ =>
        obtain rfl := Option.some.inj (hd.symm.trans hd₁)
        obtain rfl := Option.some.inj (hd'.symm.trans hd₁')
        exact hsame hstores
    | ends hdbs hnone =>
        rw [hnone] at hd'
        cases hd'
    | starts hop hnone _ _ _ _ _ _ =>
        rw [hnone] at hd
        cases hd
  · subst hrepo
    exact stored_of_savedAs henc (utf8_daemon henc hr hd) hsaved

end Runs

/-- What a successful save to a state file has recorded is kept by its database and by the processes
    with this file, in every run: executables with at least their running time, and the maps and their
    programs except for maps that a later process with the file was told to deny, or that could not be
    prefetched and whose files were gone. -/
theorem saved_records_outlive [Float32Ops F32] {num : Numerics F16 F32} {enc : Encoding F32 F64}
    {ln2 : F32} (henc : enc.RoundTrips) {now : ℕ} {h₀ h₁ h : Host F16 F32 F64}
    {d : Daemon F16 F32} {file : Path} {op : HostOp F32} {ops : List (HostOp F32)}
    (hr : Reachable (HostStep num enc ln2) (Host.initial F16 F32 F64 now) h₀)
    (hd : h₀.daemon = some d) (hsave : HostStep num enc ln2 h₀ op h₁)
    (hsaved : SavedAs num enc d.stores (h₀.dbs file) (h₁.dbs file))
    (hrun : Run (HostStep num enc ln2) h₁ ops h) :
    h.Holds num enc (· = .sqlite file)
      (d.stores.KeptIn (Forgotten (.sqlite file) (op :: ops))) := by
  refine hrun.invariant_of
    (J := fun h => Reachable (HostStep num enc ln2) (Host.initial F16 F32 F64 now) h)
    (I := fun ops h => h.Holds num enc (· = .sqlite file)
      (d.stores.KeptIn (Forgotten (.sqlite file) (op :: ops)))) ?_ ?_ ?_
  · intro h₂ hr₂
    exact (hr.tail hsave).trans hr₂
  · exact keptIn_saved henc hr hd hsave hsaved
  · intro ops h₂ op' h₃ hr₂ ih hstep
    exact keptIn_step henc hr₂ ih hstep

/-- Two programs are saved and the process is killed. One without a state file sees nothing and saves
    nothing; the next one with it sees a third program and ends its tick. -/
theorem saved_records_outlive_killed :
    ∃ (d d' : Daemon ℚ ℚ) (ops : List (HostOp ℚ)), d.stores.exes.ids.length = 2 ∧
      d'.stores.exes.ids.length = 3 ∧ .kill ∈ ops ∧
      d.stores.KeptIn (Forgotten (.sqlite (Path.ofString "/state.db")) ops) d'.stores := by
  let config := Settings.stateful "/state.db"
  let file := Path.ofString "/state.db"
  let before : List (HostOp ℚ) :=
    [.start config .plain, .beginTick (.ofScan (.ok (.ofRunning 0 ["/bin/a", "/bin/b"]))), .sigusr2]
  let save : HostOp ℚ := .control ⟨.insertion, 0, none, 1⟩
  let ops : List (HostOp ℚ) :=
    [.kill, .start config { Launch.plain with noPersist := true }, .sigusr2, save, .kill,
      .start config .plain, .beginTick (.ofScan (.ok (.ofRunning 0 ["/bin/c"]))),
      .finishTick ⟨0, 0, []⟩ fun _ => true]
  have hany : ((Host.initial ℚ ℚ ℚ 0).execAll Numerics.rational Encoding.rational 1 before).any
      (fun h₀ => (save.exec Numerics.rational Encoding.rational 1 h₀).any fun h₁ =>
        decide ((h₁.dbs file).exes.rows.length ≠ (h₀.dbs file).exes.rows.length) &&
          h₀.daemon.any (fun d => decide (d.stores.exes.ids.length = 2)) &&
            (h₁.execAll Numerics.rational Encoding.rational 1 ops).any fun h =>
              h.daemon.any fun d' => decide (d'.repo = .sqlite file) &&
                decide (d'.stores.exes.ids.length = 3)) = true := by
    decide +kernel
  obtain ⟨h₀, hbefore, hrest⟩ := (Option.any_eq_true _ _).1 hany
  obtain ⟨h₁, hsave, hrest⟩ := (Option.any_eq_true _ _).1 hrest
  obtain ⟨hboth, hafter⟩ := (Bool.and_eq_true _ _).mp hrest
  obtain ⟨hdb, htwo⟩ := (Bool.and_eq_true _ _).mp hboth
  obtain ⟨d, hd, htwo⟩ := (Option.any_eq_true _ _).1 htwo
  obtain ⟨h, hexec, hlast⟩ := (Option.any_eq_true _ _).1 hafter
  obtain ⟨d', hd', hlast⟩ := (Option.any_eq_true _ _).1 hlast
  obtain ⟨hrepo, hthree⟩ := (Bool.and_eq_true _ _).mp hlast
  have hsaves : Saves Numerics.rational Encoding.rational file h₀ save h₁ := by
    by_contra hquiet
    have hsame := db_of_quiet (Reachable.refl.tail ⟨hsave, hquiet⟩)
    exact absurd (by rw [hsame]) (of_decide_eq_true hdb)
  obtain ⟨d₁, hd₁, -, hsaved⟩ := hsaves
  obtain rfl := Option.some.inj (hd.symm.trans hd₁)
  have hkept := saved_records_outlive Encoding.roundTrips_rational
    (run_of_execAll _ _ _ hbefore).reachable hd hsave hsaved (run_of_execAll _ _ _ hexec)
  exact ⟨d, d', save :: ops, of_decide_eq_true htwo, of_decide_eq_true hthree,
    List.mem_cons_of_mem _ List.mem_cons_self,
    hkept.live d' hd' (of_decide_eq_true hrepo)⟩

end PreloadNg
