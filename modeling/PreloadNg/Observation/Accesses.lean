import PreloadNg.Observation.ObservationContract

set_option autoImplicit false

/-! # What becomes of the opened files

However the reader and the scans interleave, every event that the reader accepts falls to exactly one
scan. That scan reports each executable and each of its files once, as the first event found them,
beside what it would report without a watcher. -/

namespace PreloadNg

/-- An accepted event. -/
structure Access where
  exePath : Path
  filePath : Path
  pid : UInt32
  found : FileMeta

def OpenEvent.access (selfPid : Int32) (event : OpenEvent) : Option Access :=
  (event.accepted selfPid).map fun (exePath, filePath, file) =>
    ⟨exePath, filePath, event.pid.toUInt32, file⟩

def accesses (selfPid : Int32) (events : List OpenEvent) : List Access :=
  events.filterMap (OpenEvent.access selfPid)

theorem accesses_concat (selfPid : Int32) (events : List OpenEvent) (event : OpenEvent) :
    accesses selfPid (events ++ [event]) =
      accesses selfPid events ++ (event.access selfPid).toList := by
  unfold accesses
  rw [List.filterMap_append]
  cases h : event.access selfPid <;> simp [h]

/-- The segment of the whole file. -/
def Access.segment (a : Access) (time : UInt64) : MapSegment :=
  { MapSegment.new a.filePath 0 a.found.size time with
    device := a.found.device
    inode := a.found.inode }

/-- The first access by an executable, and its first access to a file. -/
def firstBy (l : List Access) (p : Path) : Option Access := l.find? fun a => a.exePath = p

def firstOf (l : List Access) (p f : Path) : Option Access :=
  l.find? fun a => a.exePath = p ∧ a.filePath = f

/-! ## The buffer -/

namespace EventBuffer

/-- The buffer has the first accesses, and nothing else. -/
structure Collects (l : List Access) (buffer : EventBuffer) : Prop where
  exes : ∀ p, buffer.exes.get? p = (firstBy l p).map Access.pid
  maps : ∀ p f, buffer.maps.get? (p, f) = (firstOf l p f).map Access.found

theorem collects_empty : Collects [] ∅ where
  exes p := FxHashMap.get?_empty p
  maps p f := FxHashMap.get?_empty (p, f)

/-- `entry(..).or_insert(..)` keeps what is there. -/
theorem get?_orInsert {K V : Type} [DecidableEq K] (m : FxHashMap K V) (k : K) (v : V) (a : K) :
    (m.modifyEntry k v id).get? a = (m.get? a).or (if a = k then some v else none) := by
  rw [FxHashMap.get?_modifyEntry]
  by_cases h : a = k
  · subst h
    rw [if_pos rfl, if_pos rfl]
    cases m.get? a <;> rfl
  · rw [if_neg h, if_neg h, Option.or_none]

theorem collects_read {selfPid : Int32} {events : List OpenEvent} {buffer : EventBuffer}
    (h : Collects (accesses selfPid events) buffer) (event : OpenEvent) :
    Collects (accesses selfPid (events ++ [event])) (buffer.read selfPid event) := by
  rw [accesses_concat]
  unfold read OpenEvent.access
  cases haccepted : event.accepted selfPid with
  | none => simpa using h
  | some found =>
      obtain ⟨exePath, filePath, file⟩ := found
      constructor
      · intro p
        show (buffer.exes.modifyEntry exePath event.pid.toUInt32 id).get? p = _
        rw [get?_orInsert, h.exes, firstBy, firstBy, Option.map_some, Option.toList_some,
          List.find?_append, List.find?_singleton]
        by_cases hp : p = exePath
        · subst hp
          cases (accesses selfPid events).find? fun a => a.exePath = p <;> simp
        · have hne : ¬exePath = p := fun heq => hp heq.symm
          cases (accesses selfPid events).find? fun a => a.exePath = p <;> simp [hp, hne]
      · intro p f
        show (buffer.maps.modifyEntry (exePath, filePath) file id).get? (p, f) = _
        rw [get?_orInsert, h.maps, firstOf, firstOf, Option.map_some, Option.toList_some,
          List.find?_append, List.find?_singleton]
        by_cases hp : p = exePath ∧ f = filePath
        · obtain ⟨rfl, rfl⟩ := hp
          cases (accesses selfPid events).find? fun a => a.exePath = p ∧ a.filePath = f <;> simp
        · have hne : ¬(exePath = p ∧ filePath = f) := fun heq => hp ⟨heq.1.symm, heq.2.symm⟩
          have hpair : ¬(p, f) = (exePath, filePath) := fun heq => hp (Prod.mk.inj heq)
          cases (accesses selfPid events).find? fun a => a.exePath = p ∧ a.filePath = f <;>
            simp [hpair, hne]

end EventBuffer

/-! ## The report -/

/-- Of every executable that accessed a file, and of every file it accessed, there is exactly one
    event, from the first access. -/
structure ReportsAccesses (l : List Access) (time : UInt64) (events : List ObservationEvent) :
    Prop where
  nodup : events.Nodup
  exe : ∀ p pid, .exeSeen p pid ∈ events ↔ ∃ a, firstBy l p = some a ∧ a.pid = pid
  map : ∀ p m, .mapSeen p m ∈ events ↔ ∃ f a, firstOf l p f = some a ∧ m = a.segment time
  only : ∀ event ∈ events, (∃ p pid, event = .exeSeen p pid) ∨ ∃ p m, event = .mapSeen p m

theorem file_firstOf {l : List Access} {p f : Path} {a : Access} (h : firstOf l p f = some a) :
    a.filePath = f := by
  have hfound := List.find?_some h
  exact (of_decide_eq_true hfound).2

theorem exeSeen_mem_drain_iff {buffer : EventBuffer} {ord : HashOrder} {time : UInt64} {p : Path}
    {pid : UInt32} :
    .exeSeen p pid ∈ buffer.drain ord time ↔ buffer.exes.get? p = some pid := by
  simp [EventBuffer.drain, FxHashMap.mem_iter]

theorem mapSeen_mem_drain_iff {buffer : EventBuffer} {ord : HashOrder} {time : UInt64} {p : Path}
    {m : MapSegment} :
    .mapSeen p m ∈ buffer.drain ord time ↔ ∃ f file, buffer.maps.get? (p, f) = some file ∧
      m = { MapSegment.new f 0 file.size time with
            device := file.device
            inode := file.inode } := by
  simp [EventBuffer.drain, FxHashMap.mem_iter, eq_comm]

theorem nodup_drain (buffer : EventBuffer) (ord : HashOrder) (time : UInt64) :
    (buffer.drain ord time).Nodup := by
  have hexes : buffer.exes.iter.Nodup :=
    List.Nodup.of_map Prod.fst (by rw [FxHashMap.iter_map_fst]; exact buffer.exes.keys_nodup)
  have hmaps : buffer.maps.iter.Nodup :=
    List.Nodup.of_map Prod.fst (by rw [FxHashMap.iter_map_fst]; exact buffer.maps.keys_nodup)
  refine List.Nodup.append ((ord.nodup_enum hexes).map ?_) ((ord.nodup_enum hmaps).map ?_) ?_
  · rintro ⟨p, pid⟩ ⟨p', pid'⟩ heq
    simpa using heq
  · rintro ⟨⟨p, f⟩, size, device, inode⟩ ⟨⟨p', f'⟩, size', device', inode'⟩ heq
    simp only [ObservationEvent.mapSeen.injEq, MapSegment.new, MapSegment.mk.injEq] at heq
    obtain ⟨rfl, rfl, -, rfl, -, rfl, rfl⟩ := heq
    rfl
  · intro event hexe hmap
    obtain ⟨row, -, rfl⟩ := List.mem_map.1 hexe
    obtain ⟨row', -, heq⟩ := List.mem_map.1 hmap
    exact absurd heq (by simp)

theorem reportsAccesses_drain {l : List Access} {buffer : EventBuffer} (h : buffer.Collects l)
    (ord : HashOrder) (time : UInt64) : ReportsAccesses l time (buffer.drain ord time) where
  nodup := nodup_drain buffer ord time
  exe p pid := by
    rw [exeSeen_mem_drain_iff, h.exes]
    exact Option.map_eq_some_iff
  map p m := by
    rw [mapSeen_mem_drain_iff]
    constructor
    · rintro ⟨f, file, hget, rfl⟩
      rw [h.maps] at hget
      obtain ⟨a, ha, rfl⟩ := Option.map_eq_some_iff.1 hget
      exact ⟨f, a, ha, by rw [Access.segment, file_firstOf ha]⟩
    · rintro ⟨f, a, ha, rfl⟩
      exact ⟨f, a.found, by rw [h.maps, ha]; rfl, by rw [Access.segment, file_firstOf ha]⟩
  only event hevent := by
    rcases List.mem_append.1 hevent with hevent | hevent
    · obtain ⟨row, -, rfl⟩ := List.mem_map.1 hevent
      exact Or.inl ⟨row.1, row.2, rfl⟩
    · obtain ⟨row, -, rfl⟩ := List.mem_map.1 hevent
      exact Or.inr ⟨row.1.1, _, rfl⟩

/-! ## The shares of the scans -/

/-- What the reader handles in a step. -/
def WatchedOp.handled : WatchedOp → List OpenEvent
  | .opened event => [event]
  | .scan _ => []

/-- A scan that listed the processes: the scanner before it, its input and what it observed. -/
structure ScanReport where
  scanner : ProcfsScanner
  input : ScanInput
  obs : Observation

/-- The report is that of the scanner alone, with the accesses of the share in one place. -/
def ScanReport.Covers (selfPid : Int32) (share : List OpenEvent) (report : ScanReport) : Prop :=
  ∃ before drained after,
    (report.scanner.scan { report.input with fanotify := none }).2 = .ok (before ++ after) ∧
    report.obs = before ++ drained ++ after ∧
    ReportsAccesses (accesses selfPid share) report.input.time drained

/-- The drained events stand in one place of the observation; the rest does not depend on them. -/
theorem ProcfsScanner.scan_split (sc : ProcfsScanner) {input : ScanInput} {table : ProcessTable}
    (h : input.allProcesses = .ok table) :
    ∃ before after, ∀ fanotify,
      (sc.scan { input with fanotify := fanotify }).2 =
        .ok (before ++ drained { input with fanotify := fanotify } ++ after) := by
  let loop := table.entries.foldl (sc.counted.scanEntry input.time)
    ⟨[.obsBegin input.time input.scanId], [], ∅⟩
  cases input.memstat with
  | error message =>
      refine ⟨loop.events, [.obsEnd input.time input.scanId loop.warnings], fun fanotify => ?_⟩
      simp only [scan, h, List.append_nil]
      rfl
  | ok mem =>
      refine ⟨loop.events, [.memStat mem, .obsEnd input.time input.scanId loop.warnings],
        fun fanotify => ?_⟩
      simp only [scan, h, List.append_assoc]
      rfl

namespace WatchedScanner

/-- The report of one step. -/
def report (w : WatchedScanner) : WatchedOp → List ScanReport
  | .opened _ => []
  | .scan input =>
    match w.observe input with
    | .error _ => []
    | .ok obs => [⟨w.scanner, input, obs⟩]

def reports (selfPid : Int32) : WatchedScanner → List WatchedOp → List ScanReport
  | _, [] => []
  | w, op :: rest => w.report op ++ reports selfPid (exec selfPid w op) rest

/-- A scan without a listing reports nothing and leaves the buffer. -/
theorem scan_unlisted (selfPid : Int32) (w : WatchedScanner) {input : ScanInput} {message : String}
    (h : input.allProcesses = .error message) :
    w.report (.scan input) = [] ∧ (w.exec selfPid (.scan input)).buffer = w.buffer := by
  constructor
  · simp [report, observe, WatchedScanner.input, ProcfsScanner.scan, h]
  · simp [exec, h]

/-- A scan with a listing takes the whole buffer. -/
theorem scan_listed {selfPid : Int32} {w : WatchedScanner} {events : List OpenEvent}
    {buffer : EventBuffer} (hbuffer : w.buffer = some buffer)
    (hcollects : buffer.Collects (accesses selfPid events)) {input : ScanInput}
    {table : ProcessTable} (h : input.allProcesses = .ok table) :
    (∃ report : ScanReport, w.report (.scan input) = [report] ∧ report.Covers selfPid events) ∧
      (w.exec selfPid (.scan input)).buffer = some ∅ := by
  obtain ⟨before, after, hscan⟩ := ProcfsScanner.scan_split w.scanner h
  have hobs : w.observe input =
      .ok (before ++ buffer.drain input.drainOrder input.time ++ after) := by
    unfold observe WatchedScanner.input
    rw [hbuffer]
    exact hscan (some buffer)
  refine ⟨⟨_, by rw [report, hobs], before, _, after, ?_, rfl,
    reportsAccesses_drain hcollects input.drainOrder input.time⟩, by simp [exec, h, hbuffer]⟩
  have halone := hscan none
  rwa [ProcfsScanner.drained, List.append_nil] at halone

/-- From any state whose buffer has the accesses of some events, these and the later ones are
    shared out among the scans and the buffer. -/
theorem exists_shares (selfPid : Int32) (ops : List WatchedOp) (w : WatchedScanner)
    (events : List OpenEvent) (buffer : EventBuffer) (hbuffer : w.buffer = some buffer)
    (hcollects : buffer.Collects (accesses selfPid events)) :
    ∃ shares : List (List OpenEvent),
      shares.flatten ++ ops.foldl WatchedOp.collect events =
        events ++ ops.flatMap WatchedOp.handled ∧
      List.Forall₂ (ScanReport.Covers selfPid) shares (reports selfPid w ops) := by
  induction ops generalizing w events buffer with
  | nil => exact ⟨[], by simp, List.Forall₂.nil⟩
  | cons op rest ih =>
      cases op with
      | opened event =>
          obtain ⟨shares, hshares, hcovers⟩ := ih (w.exec selfPid (.opened event))
            (events ++ [event]) (buffer.read selfPid event) (by simp [exec, hbuffer])
            (EventBuffer.collects_read hcollects event)
          refine ⟨shares, ?_, hcovers⟩
          rw [List.foldl_cons, WatchedOp.collect, hshares, List.flatMap_cons, WatchedOp.handled,
            List.append_assoc]
      | scan input =>
          cases hlist : input.allProcesses with
          | error message =>
              -- a scan that lists no processes leaves the buffer to the next one
              obtain ⟨hreport, hkept⟩ := scan_unlisted selfPid w hlist
              obtain ⟨shares, hshares, hcovers⟩ := ih (w.exec selfPid (.scan input)) events buffer
                (hkept.trans hbuffer) hcollects
              refine ⟨shares, ?_, ?_⟩
              · simp only [List.foldl_cons, WatchedOp.collect, hlist, hshares, List.flatMap_cons,
                  WatchedOp.handled, List.nil_append]
              · rw [reports, hreport, List.nil_append]
                exact hcovers
          | ok table =>
              -- the others report what was collected and empty the buffer
              obtain ⟨⟨report, hreport, hcover⟩, hdrained⟩ := scan_listed hbuffer hcollects hlist
              obtain ⟨shares, hshares, hcovers⟩ := ih (w.exec selfPid (.scan input)) [] ∅
                hdrained EventBuffer.collects_empty
              refine ⟨events :: shares, ?_, ?_⟩
              · simp only [List.foldl_cons, WatchedOp.collect, hlist, List.flatten_cons,
                  List.append_assoc, hshares, List.flatMap_cons, WatchedOp.handled,
                  List.nil_append]
              · rw [reports, hreport]
                exact List.Forall₂.cons hcover hcovers

/-- Every event that the reader handles is in the share of exactly one scan, or still waits. Each
    scan reports what its share accessed, once, beside what it would report without a watcher. -/
theorem accesses_reported_once (selfPid : Int32) (ops : List WatchedOp) :
    ∃ shares : List (List OpenEvent),
      shares.flatten ++ pendingEvents ops = ops.flatMap WatchedOp.handled ∧
      List.Forall₂ (ScanReport.Covers selfPid) shares (reports selfPid (new true) ops) :=
  exists_shares selfPid ops (new true) [] ∅ rfl EventBuffer.collects_empty

end WatchedScanner

end PreloadNg
