import PreloadNg.Lib.BufferUnordered
import PreloadNg.Prefetch.Planner

set_option autoImplicit false

/-! # The prefetcher

`execute_concurrent` runs one blocking job for each planned map that is stored. The loop takes every
result from a *new* `buffer_unordered` adaptor over the stream of jobs; the jobs that the adaptor
had in flight beside the one it yields are dropped with it. All results are accounted for exactly
when an adaptor never has a second job in flight. -/

namespace PreloadNg

variable {F16 : Type}

/-- The key of the map, and the arguments of the blocking job. -/
structure PrefetchTask where
  mapKey : MapKey
  path : Path
  offset : Int64
  length : Int64
deriving DecidableEq

/-- `PrefetchReport::default()`. -/
def PrefetchReport.default : PrefetchReport := ⟨0, 0, []⟩

/-- The tasks of the planned maps that are stored. -/
def prefetchTasks (plan : PrefetchPlan) (s : Stores F16) : List PrefetchTask :=
  plan.maps.filterMap fun mapId => (s.maps.get? mapId).map fun map =>
    { mapKey := map.key
      path := map.path
      offset := map.offset.toInt64
      length := map.length.toInt64 }

/-- A task and its place in the stream. -/
abbrev PrefetchJob : Type := PrefetchTask × ℕ

def prefetchJobs (plan : PrefetchPlan) (s : Stores F16) : List PrefetchJob :=
  (prefetchTasks plan s).zipIdx

/-! ## The loop -/

/-- The body of the loop; `outcome k` is the result of the job at place `k`. -/
def recordResult (outcome : ℕ → Except String Unit) (report : PrefetchReport) (job : PrefetchJob) :
    PrefetchReport :=
  match outcome job.2 with
  | .ok () => { report with numMaps := report.numMaps + 1 }
  | .error _ => { report with failures := report.failures ++ [job.1.mapKey] }

structure PrefetchLoop where
  stream : List PrefetchJob
  report : PrefetchReport

/-- One round: a new adaptor over the stream yields the job at place `i` of those it has in flight,
    and is dropped. -/
def PrefetchLoop.round (concurrency : ℕ) (outcome : ℕ → Except String Unit) (st : PrefetchLoop)
    (i : ℕ) : Option PrefetchLoop :=
  ((BufferUnordered.ofStream st.stream).next concurrency i).map fun (job, adaptor) =>
    { stream := adaptor.stream, report := recordResult outcome st.report job }

/-- `execute_concurrent`. The schedule says for each round which job finishes first; the function
    returns when the stream is exhausted. -/
def executeConcurrent (plan : PrefetchPlan) (s : Stores F16) (concurrency : ℕ)
    (outcome : ℕ → Except String Unit) (schedule : List ℕ) : Option PrefetchReport := do
  let concurrency := max concurrency 1
  let st ← schedule.foldlM (PrefetchLoop.round concurrency outcome)
    ⟨prefetchJobs plan s, PrefetchReport.default⟩
  if (BufferUnordered.ofStream st.stream).exhausted concurrency then
    some { st.report with totalBytes := plan.totalBytes }
  else none

/-! ## What is yielded -/

section Rounds

variable {n : ℕ} {outcome : ℕ → Except String Unit}

/-- A round records one of the first `n` jobs and drops the others. -/
theorem round_eq_some {st st' : PrefetchLoop} {i : ℕ} (h : st.round n outcome i = some st') :
    ∃ job, (st.stream.take n)[i]? = some job ∧ st'.stream = st.stream.drop n ∧
      st'.report = recordResult outcome st.report job := by
  unfold PrefetchLoop.round at h
  rw [Option.map_eq_some_iff] at h
  obtain ⟨⟨job, adaptor⟩, hnext, rfl⟩ := h
  obtain ⟨hjob, hstream⟩ := BufferUnordered.next_ofStream hnext
  exact ⟨job, hjob, hstream, rfl⟩

/-- What is known after some rounds that began with `jobs`: the report is that of the jobs yielded,
    and jobs are lost unless no adaptor ever had a second one in flight. -/
structure RoundsInv (n : ℕ) (outcome : ℕ → Except String Unit) (jobs : List PrefetchJob)
    (st : PrefetchLoop) (yielded : List PrefetchJob) : Prop where
  report : st.report = yielded.foldl (recordResult outcome) PrefetchReport.default
  all : n ≤ 1 ∨ jobs.length ≤ 1 → yielded ++ st.stream = jobs
  start : yielded = [] → st.stream = jobs
  lost : 1 < n → 1 < jobs.length → yielded ≠ [] →
    yielded.length + st.stream.length < jobs.length

theorem roundsInv_start (jobs : List PrefetchJob) :
    RoundsInv n outcome jobs ⟨jobs, PrefetchReport.default⟩ [] where
  report := rfl
  all _ := rfl
  start _ := rfl
  lost _ _ h := absurd rfl h

/-- One round keeps the invariant. -/
theorem roundsInv_round (hn : 0 < n) {jobs yielded : List PrefetchJob} {st st' : PrefetchLoop}
    {i : ℕ} (h : RoundsInv n outcome jobs st yielded) (hround : st.round n outcome i = some st') :
    ∃ job, RoundsInv n outcome jobs st' (yielded ++ [job]) := by
  obtain ⟨job, hjob, hstream, hreport⟩ := round_eq_some hround
  obtain ⟨hi, -⟩ := List.getElem?_eq_some_iff.1 hjob
  rw [List.length_take] at hi
  refine ⟨job, ?_, ?_, ?_, ?_⟩
  · rw [hreport, h.report, List.foldl_append]
    rfl
  · -- with one job in flight, the job yielded is the head of the stream
    intro hsmall
    have hjobs := h.all hsmall
    have hlen := congrArg List.length hjobs
    rw [List.length_append] at hlen
    cases hs : st.stream with
    | nil =>
        rw [hs, List.length_nil] at hi
        omega
    | cons first rest =>
        rw [hs, List.length_cons] at hi hlen
        have hi0 : i = 0 := by omega
        have hrest : rest.drop (n - 1) = rest := by
          rcases hsmall with hn1 | hlen1
          · rw [show n - 1 = 0 by omega, List.drop_zero]
          · have hnil : rest = [] := List.eq_nil_of_length_eq_zero (by omega)
            rw [hnil, List.drop_nil]
        have hsplit : n = (n - 1) + 1 := by omega
        rw [hs, hsplit, List.take_succ_cons, hi0, List.getElem?_cons_zero] at hjob
        obtain rfl := Option.some.inj hjob
        rw [hstream, hs, hsplit, List.drop_succ_cons, hrest, List.append_assoc,
          List.singleton_append, ← hs]
        exact hjobs
  · intro hnil
    exact absurd (List.append_eq_nil_iff.1 hnil).2 (List.cons_ne_nil _ _)
  · intro hn1 hjobs1 _
    rw [List.length_append, List.length_singleton, hstream, List.length_drop]
    by_cases hfirst : yielded = []
    · -- the first round takes a second job with it
      rw [hfirst, h.start hfirst, List.length_nil]
      omega
    · have hlost := h.lost hn1 hjobs1 hfirst
      omega

/-- Any number of rounds keeps it. -/
theorem roundsInv_rounds (hn : 0 < n) {jobs : List PrefetchJob} {schedule : List ℕ}
    {st st' : PrefetchLoop} {yielded : List PrefetchJob} (h : RoundsInv n outcome jobs st yielded)
    (hrun : schedule.foldlM (PrefetchLoop.round n outcome) st = some st') :
    ∃ yielded', RoundsInv n outcome jobs st' yielded' := by
  induction schedule generalizing st yielded with
  | nil =>
      obtain rfl := Option.some.inj hrun
      exact ⟨yielded, h⟩
  | cons i rest ih =>
      rw [List.foldlM_cons, Option.bind_eq_bind, Option.bind_eq_some_iff] at hrun
      obtain ⟨st₁, hround, hrest⟩ := hrun
      obtain ⟨job, h₁⟩ := roundsInv_round hn h hround
      exact ih h₁ hrest

/-- Some schedule exhausts the stream. -/
theorem exists_schedule (hn : 0 < n) (outcome : ℕ → Except String Unit) (st : PrefetchLoop) :
    ∃ (schedule : List ℕ) (st' : PrefetchLoop),
      schedule.foldlM (PrefetchLoop.round n outcome) st = some st' ∧ st'.stream = [] := by
  -- every round shortens the stream
  induction hlen : st.stream.length using Nat.strong_induction_on generalizing st with
  | _ len ih =>
      cases hs : st.stream with
      | nil => exact ⟨[], st, rfl, hs⟩
      | cons first rest =>
          let st₁ : PrefetchLoop := ⟨st.stream.drop n, recordResult outcome st.report first⟩
          have hround : st.round n outcome 0 = some st₁ := by
            unfold PrefetchLoop.round BufferUnordered.next
            rw [BufferUnordered.fill_ofStream, hs]
            obtain ⟨k, rfl⟩ : ∃ k, n = k + 1 := ⟨n - 1, by omega⟩
            simp [st₁, hs]
          have hshorter : st₁.stream.length < len := by
            show (st.stream.drop n).length < len
            rw [List.length_drop, ← hlen, hs, List.length_cons]
            omega
          obtain ⟨schedule, st', hrun, hnil⟩ := ih _ hshorter st₁ rfl
          refine ⟨0 :: schedule, st', ?_, hnil⟩
          rw [List.foldlM_cons, hround]
          exact hrun

end Rounds

/-! ## What is reported -/

/-- Every job is accounted for exactly once. -/
structure Accounted (jobs : List PrefetchJob) (outcome : ℕ → Except String Unit)
    (report : PrefetchReport) : Prop where
  numMaps : report.numMaps = (jobs.filter fun job => (outcome job.2).isOk).length
  failures : report.failures.Perm
    ((jobs.filter fun job => !(outcome job.2).isOk).map fun job => job.1.mapKey)

/-- The report of a list of results. -/
theorem foldl_recordResult (outcome : ℕ → Except String Unit) (yielded : List PrefetchJob)
    (report : PrefetchReport) :
    yielded.foldl (recordResult outcome) report =
      { report with
        numMaps := report.numMaps + (yielded.filter fun job => (outcome job.2).isOk).length
        failures := report.failures ++
          (yielded.filter fun job => !(outcome job.2).isOk).map fun job => job.1.mapKey } := by
  induction yielded generalizing report with
  | nil => simp
  | cons job rest ih =>
      rw [List.foldl_cons, ih]
      unfold recordResult
      cases hjob : outcome job.2 with
      | ok u => simp [hjob, Except.isOk, Except.toBool, Nat.add_assoc, Nat.add_comm]
      | error message => simp [hjob, Except.isOk, Except.toBool]

/-- An accounted report counts every job. -/
theorem Accounted.count {jobs : List PrefetchJob} {outcome : ℕ → Except String Unit}
    {report : PrefetchReport} (h : Accounted jobs outcome report) :
    report.numMaps + report.failures.length = jobs.length := by
  rw [h.numMaps, h.failures.length_eq, List.length_map]
  exact (List.length_eq_length_filter_add _).symm

theorem accounted_foldl (jobs : List PrefetchJob) (outcome : ℕ → Except String Unit)
    (totalBytes : UInt64) :
    Accounted jobs outcome
      { jobs.foldl (recordResult outcome) PrefetchReport.default with totalBytes := totalBytes } := by
  rw [foldl_recordResult]
  exact ⟨by simp [PrefetchReport.default], by simp [PrefetchReport.default]⟩

/-- Once the stream is exhausted, the report accounts for all jobs if none was lost. -/
theorem RoundsInv.accounted_iff {n : ℕ} {outcome : ℕ → Except String Unit}
    {jobs yielded : List PrefetchJob} {st : PrefetchLoop} (h : RoundsInv n outcome jobs st yielded)
    (hnil : st.stream = []) (totalBytes : UInt64) :
    Accounted jobs outcome { st.report with totalBytes := totalBytes } ↔
      n ≤ 1 ∨ jobs.length ≤ 1 := by
  rw [h.report]
  constructor
  · -- fewer results than jobs, when a second job was in flight
    intro hacc
    by_contra hcond
    rw [not_or] at hcond
    have hne : yielded ≠ [] := by
      intro hy
      have hstart := h.start hy
      rw [hnil] at hstart
      rw [← hstart, List.length_nil] at hcond
      omega
    have hlost := h.lost (by omega) (by omega) hne
    have hcount := (accounted_foldl yielded outcome totalBytes).count
    have hcountJobs := hacc.count
    rw [hnil, List.length_nil] at hlost
    omega
  · intro hcond
    have hall := h.all hcond
    rw [hnil, List.append_nil] at hall
    rw [hall]
    exact accounted_foldl jobs outcome totalBytes

/-- A report is returned after rounds that exhaust the stream. -/
theorem executeConcurrent_eq_some {plan : PrefetchPlan} {s : Stores F16} {concurrency : ℕ}
    {outcome : ℕ → Except String Unit} {schedule : List ℕ} {report : PrefetchReport} :
    executeConcurrent plan s concurrency outcome schedule = some report ↔
      ∃ st, schedule.foldlM (PrefetchLoop.round (max concurrency 1) outcome)
          ⟨prefetchJobs plan s, PrefetchReport.default⟩ = some st ∧ st.stream = [] ∧
        report = { st.report with totalBytes := plan.totalBytes } := by
  have hn : 0 < max concurrency 1 := by omega
  unfold executeConcurrent
  dsimp only
  rw [Option.bind_eq_bind, Option.bind_eq_some_iff]
  refine exists_congr fun st => and_congr_right fun _ => ?_
  rw [Option.ite_none_right_eq_some, Option.some_inj, BufferUnordered.exhausted_ofStream hn,
    eq_comm (a := report)]

/-- The jobs of a plan are all accounted for exactly when at most one of them is in flight at a
    time: with a concurrency of one, or with at most one planned map that is stored. -/
theorem results_accounted_iff (plan : PrefetchPlan) (s : Stores F16) (concurrency : ℕ)
    (outcome : ℕ → Except String Unit) :
    (∃ schedule report, executeConcurrent plan s concurrency outcome schedule = some report) ∧
    ∀ schedule report, executeConcurrent plan s concurrency outcome schedule = some report →
      (Accounted (prefetchJobs plan s) outcome report ↔
        concurrency ≤ 1 ∨ (prefetchTasks plan s).length ≤ 1) := by
  have hn : 0 < max concurrency 1 := by omega
  constructor
  · obtain ⟨schedule, st, hrun, hnil⟩ := exists_schedule hn outcome
      ⟨prefetchJobs plan s, PrefetchReport.default⟩
    exact ⟨schedule, _, executeConcurrent_eq_some.2 ⟨st, hrun, hnil, rfl⟩⟩
  · intro schedule report hreport
    obtain ⟨st, hrun, hnil, rfl⟩ := executeConcurrent_eq_some.1 hreport
    obtain ⟨yielded, hinv⟩ := roundsInv_rounds hn (roundsInv_start (prefetchJobs plan s)) hrun
    have hlen : (prefetchJobs plan s).length = (prefetchTasks plan s).length :=
      List.length_zipIdx
    rw [hinv.accounted_iff hnil, hlen, Nat.max_le, and_iff_left (le_refl 1)]

/-- Two planned maps and a concurrency of two: the job that finishes second is not in the report,
    whether it succeeds or fails. -/
theorem result_lost_with_two_jobs :
    let libc := MapSegment.new (Path.ofString "/lib/libc.so") 0 4096 1
    let libm := MapSegment.new (Path.ofString "/lib/libm.so") 0 8192 1
    let s₁ := (∅ : Stores ℚ).ensureMap libc
    let s₂ := s₁.1.ensureMap libm
    let plan : PrefetchPlan := ⟨[s₁.2, s₂.2], 12288, 1048576⟩
    let outcome : ℕ → Except String Unit := fun k => if k = 0 then .ok () else .error "ENOENT"
    plan.maps.map (fun id => (s₂.1.maps.get? id).map MapSegment.key) =
        [some libc.key, some libm.key] ∧
      executeConcurrent plan s₂.1 2 outcome [0] = some ⟨1, 12288, []⟩ ∧
      ¬ Accounted (prefetchJobs plan s₂.1) outcome ⟨1, 12288, []⟩ := by
  intro libc libm s₁ s₂ plan outcome
  refine ⟨by decide +kernel, by decide +kernel, ?_⟩
  intro hacc
  have hcount := hacc.count
  rw [show (prefetchJobs plan s₂.1).length = 2 by decide +kernel] at hcount
  exact absurd hcount (by decide)

end PreloadNg
