import PreloadNg.Config.Settings
import PreloadNg.Prefetch.Backends
import PreloadNg.Prefetch.Prefetcher

set_option autoImplicit false

/-! # Executing a plan

`main` selects a prefetcher from the configuration and from what the host can do, and the engine
executes each plan with it. However many jobs are in flight and in whatever order they finish, the
report credits nobody with bytes that were not asked for: every map it counts is a planned one whose
job asked for all its uncached bytes within reach of the backend, and every failure is a planned map
one of whose calls failed. -/

namespace PreloadNg

variable {F16 : Type}

/-! ## The executed jobs -/

/-- What the host answers to the job at each place: its calls, and the error of a job that could not
    be joined. -/
structure JobAnswers where
  kernel : ℕ → Kernel
  joinError : ℕ → Option String

/-- The result of the job at a place; an endless job never has one. -/
def jobResult (answers : JobAnswers) (kind : PrefetcherKind) (job : PrefetchJob) :
    Option (Except String Unit) :=
  match answers.joinError job.2 with
  | some err => some (.error err)
  | none =>
    (prefetchJob (answers.kernel job.2) kind job.1.offset job.1.length).map IoResult.result

def jobOutcome (answers : JobAnswers) (kind : PrefetcherKind) (plan : PrefetchPlan) (s : Stores F16)
    (k : ℕ) : Except String Unit :=
  -- the default is for places after the end of the stream
  (((prefetchJobs plan s)[k]?).bind (jobResult answers kind)).getD (.ok ())

/-- `Prefetcher::execute`. -/
def PrefetcherKind.execute (answers : JobAnswers) (kind : PrefetcherKind) (plan : PrefetchPlan)
    (s : Stores F16) (schedule : List ℕ) : Option PrefetchReport :=
  let executeWith concurrency :=
    executeConcurrent plan s concurrency (jobOutcome answers kind plan s) schedule
  match kind with
  | .noop => some PrefetchReport.default
  | .read concurrency => executeWith concurrency
  | .readahead concurrency => executeWith concurrency
  | .madvise concurrency => executeWith concurrency

/-! ## The results recorded -/

section Rounds

variable {n : ℕ} {outcome : ℕ → Except String Unit}

/-- What some rounds recorded: one job of every `n` of the stream. -/
structure Recorded (n : ℕ) (outcome : ℕ → Except String Unit) (jobs : List PrefetchJob)
    (st : PrefetchLoop) (recorded : List PrefetchJob) : Prop where
  report : st.report = recorded.foldl (recordResult outcome) PrefetchReport.default
  sublist : (recorded ++ st.stream).Sublist jobs
  stream : st.stream = jobs.drop (recorded.length * n)
  before : ∀ m < recorded.length, m * n < jobs.length

/-- One round records one more. -/
theorem Recorded.round {jobs recorded : List PrefetchJob} {st st' : PrefetchLoop} {i : ℕ}
    (h : Recorded n outcome jobs st recorded) (hround : st.round n outcome i = some st') :
    ∃ job, Recorded n outcome jobs st' (recorded ++ [job]) := by
  obtain ⟨job, hjob, hstream, hreport⟩ := round_eq_some hround
  have hmem := List.mem_of_getElem? hjob
  refine ⟨job, ?_, ?_, ?_, ?_⟩
  · rw [hreport, h.report, List.foldl_append]
    rfl
  · have htaken : ([job] ++ st.stream.drop n).Sublist st.stream := by
      conv_rhs => rw [← List.take_append_drop n st.stream]
      exact (List.singleton_sublist.2 hmem).append (List.Sublist.refl _)
    rw [hstream, List.append_assoc]
    exact ((List.Sublist.refl recorded).append htaken).trans h.sublist
  · rw [hstream, h.stream, List.drop_drop, List.length_append, List.length_singleton, Nat.add_mul,
      Nat.one_mul]
  · intro m hm
    rw [List.length_append, List.length_singleton] at hm
    rcases Nat.lt_succ_iff_lt_or_eq.1 hm with hlt | rfl
    · exact h.before m hlt
    · -- the round took a job
      by_contra hle
      have hnil : st.stream = [] := by rw [h.stream, List.drop_eq_nil_of_le (by omega)]
      rw [hnil, List.take_nil] at hmem
      exact absurd hmem List.not_mem_nil

/-- Any number of rounds. -/
theorem Recorded.rounds {jobs recorded : List PrefetchJob} {schedule : List ℕ}
    {st st' : PrefetchLoop} (h : Recorded n outcome jobs st recorded)
    (hrun : schedule.foldlM (PrefetchLoop.round n outcome) st = some st') :
    ∃ recorded', Recorded n outcome jobs st' recorded' := by
  induction schedule generalizing st recorded with
  | nil =>
      obtain rfl := Option.some.inj hrun
      exact ⟨recorded, h⟩
  | cons i rest ih =>
      rw [List.foldlM_cons, Option.bind_eq_bind, Option.bind_eq_some_iff] at hrun
      obtain ⟨st₁, hround, hrest⟩ := hrun
      obtain ⟨job, h₁⟩ := h.round hround
      exact ih h₁ hrest

/-- Of every `n` jobs one is recorded by the time the stream is exhausted. -/
theorem Recorded.length_eq (hn : 0 < n) {jobs recorded : List PrefetchJob} {st : PrefetchLoop}
    (h : Recorded n outcome jobs st recorded) (hnil : st.stream = []) :
    recorded.length = (jobs.length + (n - 1)) / n := by
  have hstream := h.stream
  rw [hnil] at hstream
  have hall : jobs.length ≤ recorded.length * n := List.drop_eq_nil_iff.1 hstream.symm
  symm
  refine Nat.div_eq_of_lt_le ?_ ?_
  · rcases Nat.eq_zero_or_pos recorded.length with hzero | hpos
    · rw [hzero, Nat.zero_mul]
      exact Nat.zero_le _
    · obtain ⟨m, hm⟩ : ∃ m, recorded.length = m + 1 := ⟨_, (Nat.succ_pred_eq_of_pos hpos).symm⟩
      have hlast := h.before m (by omega)
      rw [hm, Nat.add_mul, Nat.one_mul]
      omega
  · rw [Nat.add_mul, Nat.one_mul]
    omega

end Rounds

/-- What `execute_concurrent` returns is the report of the jobs recorded. -/
theorem exists_recorded {plan : PrefetchPlan} {s : Stores F16} {concurrency : ℕ}
    {outcome : ℕ → Except String Unit} {schedule : List ℕ} {report : PrefetchReport}
    (h : executeConcurrent plan s concurrency outcome schedule = some report) :
    ∃ recorded : List PrefetchJob, recorded.Sublist (prefetchJobs plan s) ∧
      recorded.length = ((prefetchJobs plan s).length + (max concurrency 1 - 1)) /
        max concurrency 1 ∧
      report.numMaps = (recorded.filter fun job => (outcome job.2).isOk).length ∧
      report.failures = (recorded.filter fun job => !(outcome job.2).isOk).map
        (fun job => job.1.mapKey) ∧
      report.totalBytes = plan.totalBytes := by
  obtain ⟨st, hrun, hnil, rfl⟩ := executeConcurrent_eq_some.1 h
  have hstart : Recorded (max concurrency 1) outcome (prefetchJobs plan s)
      ⟨prefetchJobs plan s, PrefetchReport.default⟩ [] :=
    ⟨rfl, List.Sublist.refl _, by simp, fun m hm => absurd hm (Nat.not_lt_zero m)⟩
  obtain ⟨recorded, hrec⟩ := hstart.rounds hrun
  have hsub := hrec.sublist
  rw [hnil, List.append_nil] at hsub
  refine ⟨recorded, hsub, hrec.length_eq (by omega) hnil, ?_⟩
  dsimp only
  rw [hrec.report, foldl_recordResult]
  exact ⟨by simp [PrefetchReport.default], by simp [PrefetchReport.default], rfl⟩

/-! ## What is reported -/

def PrefetcherKind.concurrency : PrefetcherKind → Option ℕ
  | .noop => none
  | .read concurrency => some concurrency
  | .readahead concurrency => some concurrency
  | .madvise concurrency => some concurrency

/-- The job asked, without an error, for all bytes of its map that are within the backend's reach
    and not known to be resident, for each once, and for no others. -/
def Fetched (answers : JobAnswers) (kind : PrefetcherKind) (job : PrefetchJob) : Prop :=
  let kernel := answers.kernel job.2
  let offset := job.1.offset.toInt
  ∃ r, prefetchJob kernel kind job.1.offset job.1.length = some r ∧ r.Ok ∧
    TouchesRange (fun x => kind.Reaches kernel x ∧ kernel.cache.Wanted offset x) offset
      (offset + job.1.length.toInt) r

/-- The job could not be joined, or one of its calls failed. -/
def FailedJob (answers : JobAnswers) (kind : PrefetcherKind) (job : PrefetchJob) : Prop :=
  (∃ err, answers.joinError job.2 = some err) ∨
    ∃ r err, prefetchJob (answers.kernel job.2) kind job.1.offset job.1.length = some r ∧
      r.result = .error err

/-- The region of a job, with a page to spare, does not end beyond the range of `i64`. -/
structure JobBounds (answers : JobAnswers) (job : PrefetchJob) : Prop where
  reads : (answers.kernel job.2).ReadsFile
  page : ∃ e, (answers.kernel job.2).cache.pageSize.toNat = 2 ^ e
  offset : 0 ≤ job.1.offset.toInt
  bound : job.1.offset.toInt + job.1.length.toInt + (answers.kernel job.2).cache.pageSize.toNat <
    2 ^ 63

/-- What the result of a job says about it. -/
theorem jobOutcome_spec {answers : JobAnswers} {kind : PrefetcherKind} {plan : PrefetchPlan}
    {s : Stores F16} {job : PrefetchJob} (hjob : job ∈ prefetchJobs plan s)
    (hbounds : JobBounds answers job) :
    if (jobOutcome answers kind plan s job.2).isOk then Fetched answers kind job
    else FailedJob answers kind job := by
  have hplace : (prefetchJobs plan s)[job.2]? = some job := by
    obtain ⟨task, k⟩ := job
    have htask := List.mk_mem_zipIdx_iff_getElem?.1 hjob
    rw [prefetchJobs, List.getElem?_zipIdx, htask, Option.map_some, Nat.zero_add]
  obtain ⟨e, hpage⟩ := hbounds.page
  obtain ⟨r, hr, hspec⟩ :=
    job_touches_region hbounds.reads kind hpage hbounds.offset hbounds.bound
  unfold jobOutcome
  rw [hplace, Option.bind_some, jobResult, hr]
  cases hjoin : answers.joinError job.2 with
  | some err =>
      rw [if_neg (by simp [Except.isOk, Except.toBool])]
      exact Or.inl ⟨err, hjoin⟩
  | none =>
      cases hresult : r.result with
      | ok u =>
          rw [if_pos (by simp [hresult, Except.isOk, Except.toBool])]
          exact ⟨r, hr, hresult, hspec⟩
      | error err =>
          rw [if_neg (by simp [hresult, Except.isOk, Except.toBool])]
          exact Or.inr ⟨r, err, hr, hresult⟩

/-- A report is about distinct places of the plan whose maps are stored, one of every `concurrency` of
    them. The maps it counts were fetched, as far as the backend reaches, and those it names as failures
    failed. -/
theorem report_sound {answers : JobAnswers} {kind : PrefetcherKind} {plan : PrefetchPlan}
    {s : Stores F16} {schedule : List ℕ} {report : PrefetchReport}
    (hbounds : ∀ job ∈ prefetchJobs plan s, JobBounds answers job)
    (h : kind.execute answers plan s schedule = some report) :
    ∃ counted failed : List PrefetchJob, (counted ++ failed).Subperm (prefetchJobs plan s) ∧
      report.numMaps = counted.length ∧ report.failures = failed.map (fun job => job.1.mapKey) ∧
      (∀ job ∈ counted, Fetched answers kind job) ∧
      (∀ job ∈ failed, FailedJob answers kind job) ∧
      ∀ n, kind.concurrency = some n → report.totalBytes = plan.totalBytes ∧
        counted.length + failed.length =
          ((prefetchTasks plan s).length + (max n 1 - 1)) / max n 1 := by
  have hlen : (prefetchJobs plan s).length = (prefetchTasks plan s).length := List.length_zipIdx
  -- the concurrent backends share their executor
  have hexec : ∀ n, executeConcurrent plan s n (jobOutcome answers kind plan s) schedule =
      some report → ∃ counted failed : List PrefetchJob,
        (counted ++ failed).Subperm (prefetchJobs plan s) ∧
        report.numMaps = counted.length ∧ report.failures = failed.map (fun job => job.1.mapKey) ∧
        (∀ job ∈ counted, Fetched answers kind job) ∧
        (∀ job ∈ failed, FailedJob answers kind job) ∧
        report.totalBytes = plan.totalBytes ∧ counted.length + failed.length =
          ((prefetchTasks plan s).length + (max n 1 - 1)) / max n 1 := by
    intro n hn
    obtain ⟨recorded, hsub, hcount, hmaps, hfailures, hbytes⟩ := exists_recorded hn
    let ok : PrefetchJob → Bool := fun job => (jobOutcome answers kind plan s job.2).isOk
    have hspec : ∀ job ∈ recorded,
        if ok job then Fetched answers kind job else FailedJob answers kind job :=
      fun job hjob => jobOutcome_spec (hsub.subset hjob) (hbounds job (hsub.subset hjob))
    -- each recorded job succeeded or failed
    have hperm : (recorded.filter ok ++ recorded.filter fun job => !ok job).Perm recorded :=
      List.filter_append_perm ok recorded
    refine ⟨_, _, hperm.subperm.trans hsub.subperm, hmaps, hfailures, ?_, ?_, hbytes, ?_⟩
    · intro job hjob
      obtain ⟨hmem, hok⟩ := List.mem_filter.1 hjob
      have h := hspec job hmem
      rwa [if_pos hok] at h
    · intro job hjob
      obtain ⟨hmem, hok⟩ := List.mem_filter.1 hjob
      have h := hspec job hmem
      rwa [if_neg (by simpa [ok] using hok)] at h
    · rw [← List.length_append, hperm.length_eq, hcount, hlen]
  cases kind with
  | noop =>
      obtain rfl := Option.some.inj h
      exact ⟨[], [], List.nil_subperm, rfl, rfl, fun _ hj => absurd hj List.not_mem_nil,
        fun _ hj => absurd hj List.not_mem_nil, fun n hn => by cases hn⟩
  | read n | readahead n | madvise n =>
      obtain ⟨counted, failed, hsub, hmaps, hfailures, hcounted, hfailed, hrest⟩ := hexec n h
      refine ⟨counted, failed, hsub, hmaps, hfailures, hcounted, hfailed, fun m hm => ?_⟩
      obtain rfl := Option.some.inj hm
      exact hrest

/-- Two planned maps, none of their bytes resident, and two jobs in flight: one result is recorded,
    of a map that was fetched. -/
theorem report_sound_two_maps :
    let libc := MapSegment.new (Path.ofString "/lib/libc.so") 0 4096 1
    let libm := MapSegment.new (Path.ofString "/lib/libm.so") 0 8192 1
    let s₁ := (∅ : Stores ℚ).ensureMap libc
    let s₂ := s₁.1.ensureMap libm
    let plan : PrefetchPlan := ⟨[s₁.2, s₂.2], 12288, 1048576⟩
    let kernel : Kernel :=
      { cache := ⟨4096, true, true, some fun _ => 0⟩
        openError := fun _ => none
        seekError := fun _ => none
        size := 0
        read := fun _ _ => .ok 0
        readahead := fun _ _ => none
        mmapError := fun _ => none
        madviseError := fun _ => none }
    let answers : JobAnswers := ⟨fun _ => kernel, fun _ => none⟩
    let config := Settings.default (1 / 100 : ℚ)
    let kind := buildPrefetcher ⟨some 2, true, true⟩
      { config with system := { config.system with prefetchConcurrency := none } } false
    kind = .readahead 2 ∧ kind.execute answers plan s₂.1 [0] = some ⟨1, 12288, []⟩ ∧
      ∃ counted failed : List PrefetchJob, (counted ++ failed).Subperm (prefetchJobs plan s₂.1) ∧
        1 = counted.length ∧ [] = failed.map (fun job => job.1.mapKey) ∧
        (∀ job ∈ counted, Fetched answers kind job) ∧
        (∀ job ∈ failed, FailedJob answers kind job) ∧
        ∀ n, kind.concurrency = some n → (12288 : UInt64) = plan.totalBytes ∧
          counted.length + failed.length =
            ((prefetchTasks plan s₂.1).length + (max n 1 - 1)) / max n 1 := by
  intro libc libm s₁ s₂ plan kernel answers config kind
  have hexec : kind.execute answers plan s₂.1 [0] = some ⟨1, 12288, []⟩ := by decide +kernel
  have hjobs : prefetchJobs plan s₂.1 =
      [(⟨libc.key, libc.path, 0, 4096⟩, 0), (⟨libm.key, libm.path, 0, 8192⟩, 1)] := by
    decide +kernel
  have hreads : kernel.ReadsFile := by
    refine ⟨fun _ _ _ hn => ?_, fun _ _ _ hn hpos => ?_, fun _ _ _ _ => Nat.zero_le _⟩
    · cases hn
      exact Nat.zero_le _
    · cases hn
      exact absurd hpos (Nat.lt_irrefl 0)
  refine ⟨by decide +kernel, hexec, report_sound (fun job hjob => ?_) hexec⟩
  rw [hjobs] at hjob
  rcases List.mem_cons.1 hjob with rfl | hjob
  · exact ⟨hreads, ⟨12, rfl⟩, by decide, by decide⟩
  · obtain rfl := List.mem_singleton.1 hjob
    exact ⟨hreads, ⟨12, rfl⟩, by decide, by decide⟩

end PreloadNg
