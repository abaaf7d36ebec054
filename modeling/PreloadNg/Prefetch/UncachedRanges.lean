import PreloadNg.Lib.Machine
import PreloadNg.Lib.Runs

set_option autoImplicit false

/-! # Uncached ranges

`uncached_ranges` maps a file region, asks `mincore` which of its pages are resident and returns the
byte ranges of the others. `usize` is 64 bits wide. -/

namespace PreloadNg

/-- What the system answers while the ranges of one region are computed. -/
structure PageCache where
  /-- `sysconf(_SC_PAGESIZE)`. -/
  pageSize : UInt64
  /-- The file can be opened. -/
  opens : Bool
  /-- `mmap` succeeds. -/
  maps : Bool
  /-- The residency byte of each mapped page, when `mincore` succeeds. -/
  mincore : Option (ℕ → UInt8)

namespace UncachedRanges

/-- The two variables of the loop. -/
structure RunState where
  ranges : List (Int64 × Int64)
  runStart : Option UInt64

/-- Push a range if it is not empty. -/
def pushRange (ranges : List (Int64 × Int64)) (start stop : UInt64) : List (Int64 × Int64) :=
  let clampedStart := start.toInt64
  let clampedEnd := stop.toInt64
  if clampedStart < clampedEnd then ranges ++ [(clampedStart, clampedEnd - clampedStart)]
  else ranges

/-- Take the open run, if there is one, and push it up to `stop`. -/
def closeRun (origStart stop : UInt64) (st : RunState) : RunState :=
  match st.runStart with
  | none => st
  | some start => ⟨pushRange st.ranges (max start origStart) stop, none⟩

/-- The body of the loop over the residency bytes. -/
def visitPage (alignedOffset pageSize origStart origEnd : UInt64) (st : RunState)
    (row : UInt8 × ℕ) : RunState :=
  let pageStart := alignedOffset + UInt64.ofNat row.2 * pageSize
  let pageEnd := pageStart + pageSize
  if pageEnd ≤ origStart ∨ origEnd ≤ pageStart then closeRun origStart (min pageStart origEnd) st
  else if row.1 &&& 1 = 0 then
    match st.runStart with
    | none => { st with runStart := some pageStart }
    | some _ => st
  else closeRun origStart (min pageStart origEnd) st

end UncachedRanges

open UncachedRanges in
def uncachedRanges (sys : PageCache) (offset length : Int64) : List (Int64 × Int64) :=
  if length ≤ 0 then []
  else if sys.pageSize = 0 then [(offset, length)]
  else if sys.opens = false then [(offset, length)]
  else
    -- align down and up to page boundaries
    let alignedOffset := offset.toUInt64 &&& ~~~(sys.pageSize - 1)
    let origEnd := offset.toUInt64 + length.toUInt64
    let alignedEnd := (origEnd + sys.pageSize - 1) &&& ~~~(sys.pageSize - 1)
    let alignedLength := alignedEnd - alignedOffset
    if alignedLength = 0 then []
    else if sys.maps = false then [(offset, length)]
    else
      match sys.mincore with
      | none => [(offset, length)]
      | some residency =>
        let numPages := alignedLength / sys.pageSize
        let vec := (List.range numPages.toNat).map residency
        let st := vec.zipIdx.foldl
          (visitPage alignedOffset sys.pageSize offset.toUInt64 origEnd) ⟨[], none⟩
        (closeRun offset.toUInt64 origEnd st).ranges

namespace UncachedRanges

/-! ## The loop walks over runs -/

/-- A range of points as the code returns it. -/
def toRange (r : ℕ × ℕ) : Int64 × Int64 := (Int64.ofNat r.1, Int64.ofNat (r.2 - r.1))

/-- The loop variables hold the runs of an abstract walk. -/
structure Refines (st : RunState) (runs : Runs.State) : Prop where
  ranges : st.ranges = runs.closed.map toRange
  runStart : st.runStart.map UInt64.toNat = runs.opened

theorem pushRange_eq {ranges : List (Int64 × Int64)} {start stop : UInt64}
    (hlt : start.toNat < stop.toNat) (hstop : stop.toNat < 2 ^ 63) :
    pushRange ranges start stop = ranges ++ [toRange (start.toNat, stop.toNat)] := by
  have hstart : start.toInt64.toInt = start.toNat := toInt_toInt64 (by omega)
  have hend : stop.toInt64.toInt = stop.toNat := toInt_toInt64 hstop
  have hle : start.toInt64 < stop.toInt64 := by
    rw [Int64.lt_iff_toInt_lt, hstart, hend]
    omega
  have hlen : stop.toInt64 - start.toInt64 = Int64.ofNat (stop.toNat - start.toNat) := by
    rw [← Int64.toInt_inj, Int64.toInt_sub, hstart, hend, Int64.toInt_ofNat_of_lt (by omega),
      Int.bmod_eq_of_le_mul_two (by omega) (by omega)]
    omega
  simp only [pushRange]
  rw [if_pos hle, hlen, toInt64_eq_ofNat, toRange]

/-- Closing a run whose cut is not empty. -/
theorem refines_closeRun {st : RunState} {runs : Runs.State} (h : Refines st runs)
    {origStart stop : UInt64} (hstop : stop.toNat < 2 ^ 63)
    (hlt : ∀ start, runs.opened = some start → max start origStart.toNat < stop.toNat) :
    Refines (closeRun origStart stop st) (Runs.close origStart.toNat stop.toNat runs) := by
  obtain ⟨ranges, runStart⟩ := st
  obtain ⟨closed, opened⟩ := runs
  obtain ⟨hranges, hopened⟩ := h
  obtain rfl : runStart.map UInt64.toNat = opened := hopened
  cases runStart with
  | none => exact ⟨hranges, rfl⟩
  | some start =>
      have hcut := hlt start.toNat rfl
      rw [← toNat_max] at hcut
      refine ⟨?_, rfl⟩
      show pushRange ranges (max start origStart) stop =
        (closed ++ [(max start.toNat origStart.toNat, stop.toNat)]).map toRange
      rw [pushRange_eq hcut hstop, toNat_max, List.map_append, ← hranges]
      rfl

/-- Visiting a page that meets the region. -/
theorem refines_visitPage {st : RunState} {runs : Runs.State} (h : Refines st runs)
    {alignedOffset pageSize origStart origEnd : UInt64} {row : UInt8 × ℕ} {pos : ℕ} {p : ℕ → Prop}
    (hinv : Runs.Inv origStart.toNat origEnd.toNat p pos runs)
    (hpos : (alignedOffset + UInt64.ofNat row.2 * pageSize).toNat = pos)
    (hpage : pos + pageSize.toNat < 2 ^ 63) (hlo : origStart.toNat < pos + pageSize.toNat)
    (hhi : pos < origEnd.toNat) (hwindow : origStart.toNat < origEnd.toNat)
    (hend : origEnd.toNat < 2 ^ 63) :
    Refines (visitPage alignedOffset pageSize origStart origEnd st row)
      (Runs.visit origStart.toNat origEnd.toNat pos (row.1 &&& 1 = 0) runs) := by
  have hpageEnd : (alignedOffset + UInt64.ofNat row.2 * pageSize + pageSize).toNat =
      pos + pageSize.toNat := by
    rw [UInt64.toNat_add, hpos]
    omega
  have hmeets : ¬(alignedOffset + UInt64.ofNat row.2 * pageSize + pageSize ≤ origStart ∨
      origEnd ≤ alignedOffset + UInt64.ofNat row.2 * pageSize) := by
    rw [UInt64.le_iff_toNat_le, UInt64.le_iff_toNat_le, hpageEnd, hpos]
    omega
  simp only [visitPage]
  rw [if_neg hmeets]
  by_cases hbit : row.1 &&& 1 = 0
  · rw [if_pos hbit]
    obtain ⟨ranges, runStart⟩ := st
    obtain ⟨closed, opened⟩ := runs
    obtain ⟨hranges, hopened⟩ := h
    obtain rfl : runStart.map UInt64.toNat = opened := hopened
    simp only [Runs.visit, hbit]
    cases runStart with
    | none => exact ⟨hranges, by simp [hpos]⟩
    | some start => exact ⟨hranges, rfl⟩
  · rw [if_neg hbit]
    have hclosed : Refines
        (closeRun origStart (min (alignedOffset + UInt64.ofNat row.2 * pageSize) origEnd) st)
        (Runs.close origStart.toNat (min pos origEnd.toNat) runs) := by
      rw [← hpos, ← toNat_min]
      refine refines_closeRun h ?_ fun start hstart => ?_
      · rw [toNat_min]
        omega
      · rw [toNat_min, hpos]
        rw [Runs.Inv, hstart] at hinv
        obtain ⟨-, -, hstart, hlow, hopen, -⟩ := hinv
        exact max_lt (lt_min hopen hstart) (lt_min hlow hwindow)
    simpa [Runs.visit, hbit] using hclosed

/-- The point `x` lies in a page that is not resident. -/
def Uncached (residency : ℕ → UInt8) (aligned pageSize x : ℕ) : Prop :=
  residency ((x - aligned) / pageSize) &&& 1 = 0

/-- The region and its pages, without overflow. -/
structure Region (alignedOffset pageSize origStart origEnd : UInt64) (numPages : ℕ) : Prop where
  page_pos : 0 < pageSize.toNat
  start_ge : alignedOffset.toNat ≤ origStart.toNat
  start_lt : origStart.toNat < alignedOffset.toNat + pageSize.toNat
  window : origStart.toNat < origEnd.toNat
  end_le : origEnd.toNat ≤ alignedOffset.toNat + numPages * pageSize.toNat
  meets : ∀ i < numPages, alignedOffset.toNat + i * pageSize.toNat < origEnd.toNat
  bound : alignedOffset.toNat + numPages * pageSize.toNat < 2 ^ 63

section Loop

variable {alignedOffset pageSize origStart origEnd : UInt64} {numPages : ℕ}

theorem Region.toNat_pageStart (h : Region alignedOffset pageSize origStart origEnd numPages)
    {i : ℕ} (hi : i < numPages) : (alignedOffset + UInt64.ofNat i * pageSize).toNat =
      alignedOffset.toNat + i * pageSize.toNat := by
  have hmul : i * pageSize.toNat ≤ numPages * pageSize.toNat :=
    Nat.mul_le_mul_right _ (Nat.le_of_lt hi)
  have hle : i ≤ i * pageSize.toNat := Nat.le_mul_of_pos_right i h.page_pos
  have hbound := h.bound
  have hofNat : (UInt64.ofNat i).toNat = i := UInt64.toNat_ofNat_of_lt' (by
    show i < 2 ^ 64
    omega)
  rw [UInt64.toNat_add, UInt64.toNat_mul, hofNat]
  omega

/-- The loop over the first `n` pages. -/
theorem Region.loop (h : Region alignedOffset pageSize origStart origEnd numPages)
    (residency : ℕ → UInt8) (n : ℕ) (hn : n ≤ numPages) :
    ∃ runs, Refines ((List.range n).foldl (fun st i =>
        visitPage alignedOffset pageSize origStart origEnd st (residency i, i)) ⟨[], none⟩) runs ∧
      Runs.Inv origStart.toNat origEnd.toNat
        (Uncached residency alignedOffset.toNat pageSize.toNat)
        (alignedOffset.toNat + n * pageSize.toNat) runs ∧
      Runs.StartsAt origStart.toNat
        (fun start => ∃ i, start = alignedOffset.toNat + i * pageSize.toNat) runs := by
  induction n with
  | zero =>
      refine ⟨.empty, ⟨rfl, rfl⟩, Runs.inv_empty ?_, .empty⟩
      rw [Nat.zero_mul]
      exact h.start_ge
  | succ n ih =>
      obtain ⟨runs, hrefines, hinv, hstarts⟩ := ih (Nat.le_of_succ_le hn)
      have hmul : (n + 1) * pageSize.toNat ≤ numPages * pageSize.toNat :=
        Nat.mul_le_mul_right _ hn
      have hsucc : alignedOffset.toNat + (n + 1) * pageSize.toNat =
          alignedOffset.toNat + n * pageSize.toNat + pageSize.toNat := by
        rw [Nat.succ_mul, Nat.add_assoc]
      have hbound := h.bound
      have hlo := h.start_lt
      have hmeets := h.meets n hn
      have hcell : ∀ x, alignedOffset.toNat + n * pageSize.toNat ≤ x →
          x < alignedOffset.toNat + n * pageSize.toNat + pageSize.toNat →
            (Uncached residency alignedOffset.toNat pageSize.toNat x ↔
              decide (residency n &&& 1 = 0) = true) := by
        intro x hx hx'
        have hpage : (x - alignedOffset.toNat) / pageSize.toNat = n := by
          refine Nat.div_eq_of_lt_le (by omega) ?_
          rw [Nat.succ_mul]
          omega
        rw [Uncached, hpage, decide_eq_true_iff]
      have hend : origEnd.toNat < 2 ^ 63 := Nat.lt_of_le_of_lt h.end_le hbound
      rw [List.range_succ, List.foldl_append]
      refine ⟨_, refines_visitPage hrefines hinv (h.toNat_pageStart hn) (by omega) (by omega)
        hmeets h.window hend, ?_, hstarts.visit ⟨n, rfl⟩⟩
      rw [hsucc]
      exact hinv.visit (by omega) hmeets hcell h.page_pos h.window

/-- The ranges returned are those of the abstract walk. -/
theorem Region.ranges_eq (h : Region alignedOffset pageSize origStart origEnd numPages)
    (residency : ℕ → UInt8) :
    ∃ runs : List (ℕ × ℕ), (closeRun origStart origEnd
        (((List.range numPages).map residency).zipIdx.foldl
          (visitPage alignedOffset pageSize origStart origEnd) ⟨[], none⟩)).ranges =
        runs.map toRange ∧
      Runs.Covers origStart.toNat origEnd.toNat
        (Uncached residency alignedOffset.toNat pageSize.toNat) origEnd.toNat runs ∧
      ∀ r ∈ runs, ∃ i, r.1 = max (alignedOffset.toNat + i * pageSize.toNat) origStart.toNat := by
  obtain ⟨runs, hrefines, hinv, hstarts⟩ := h.loop residency numPages le_rfl
  have hzip : ((List.range numPages).map residency).zipIdx =
      (List.range numPages).map fun i => (residency i, i) := by
    refine List.ext_getElem (by simp) fun i _ _ => ?_
    simp
  rw [hzip, List.foldl_map]
  have hend : origEnd.toNat < 2 ^ 63 := Nat.lt_of_le_of_lt h.end_le h.bound
  have hclosed := refines_closeRun hrefines hend fun start hstart => by
    rw [Runs.Inv, hstart] at hinv
    exact max_lt hinv.2.2.1 h.window
  refine ⟨_, hclosed.ranges, hinv.finish h.end_le h.window, fun r hr => ?_⟩
  obtain ⟨start, ⟨i, rfl⟩, heq⟩ := hstarts.finish r hr
  exact ⟨i, heq⟩

end Loop

/-! ## Alignment -/

theorem toNat_toUInt64 {a : Int64} (h : 0 ≤ a.toInt) : a.toUInt64.toNat = a.toInt.toNat := by
  rw [Int64.toNat_toUInt64_of_le (Int64.le_iff_toInt_le.2 h)]
  rfl

section Align

variable {pageSize : UInt64} {k : ℕ} {offset length : Int64}

/-- Rounding up to a multiple of the page size. -/
theorem toNat_alignUp (hpage : pageSize.toNat = 2 ^ k) {x : UInt64}
    (hbound : x.toNat + pageSize.toNat < 2 ^ 64) :
    ((x + pageSize - 1) &&& ~~~(pageSize - 1)).toNat =
      (x.toNat + (2 ^ k - 1)) / 2 ^ k * 2 ^ k := by
  have hpos : 0 < 2 ^ k := Nat.two_pow_pos k
  have hone : (1 : UInt64).toNat = 1 := rfl
  have hsum : (x + pageSize).toNat = x.toNat + 2 ^ k := by
    rw [UInt64.toNat_add, Nat.mod_eq_of_lt hbound, hpage]
  have hup : (x + pageSize - 1).toNat = x.toNat + (2 ^ k - 1) := by
    rw [UInt64.toNat_sub_of_le _ _ ?_, hsum, hone]
    · omega
    · rw [UInt64.le_iff_toNat_le, hsum, hone]
      omega
  rw [toNat_and_not_mask hpage, hup]

/-- Aligning the region to pages of a power of two gives whole pages around it. -/
theorem region_of_aligned (hpage : pageSize.toNat = 2 ^ k) (hoffset : 0 ≤ offset.toInt)
    (hlength : 0 < length.toInt) (hbound : offset.toInt + length.toInt + pageSize.toNat < 2 ^ 63) :
    let mask := ~~~(pageSize - 1)
    let alignedOffset := offset.toUInt64 &&& mask
    let origEnd := offset.toUInt64 + length.toUInt64
    let alignedLength := ((origEnd + pageSize - 1) &&& mask) - alignedOffset
    origEnd.toNat = offset.toInt.toNat + length.toInt.toNat ∧
      alignedOffset.toNat = offset.toInt.toNat / 2 ^ k * 2 ^ k ∧ alignedLength ≠ 0 ∧
      Region alignedOffset pageSize offset.toUInt64 origEnd (alignedLength / pageSize).toNat := by
  intro mask alignedOffset origEnd alignedLength
  have hstart := toNat_toUInt64 hoffset
  have hlen := toNat_toUInt64 (le_of_lt hlength)
  have hpos : 0 < 2 ^ k := Nat.two_pow_pos k
  have hend : origEnd.toNat = offset.toInt.toNat + length.toInt.toNat := by
    show (offset.toUInt64 + length.toUInt64).toNat = _
    rw [UInt64.toNat_add, hstart, hlen]
    omega
  have halignedOffset : alignedOffset.toNat = offset.toInt.toNat / 2 ^ k * 2 ^ k := by
    rw [toNat_and_not_mask hpage, hstart]
  have halignedEnd : ((origEnd + pageSize - 1) &&& mask).toNat =
      (origEnd.toNat + (2 ^ k - 1)) / 2 ^ k * 2 ^ k :=
    toNat_alignUp hpage (by omega)
  -- rounding down and up by less than a page
  have hdown := Nat.div_mul_le_self offset.toInt.toNat (2 ^ k)
  have hdownLt := Nat.lt_div_mul_add (a := offset.toInt.toNat) hpos
  have hrise := Nat.div_mul_le_self (origEnd.toNat + (2 ^ k - 1)) (2 ^ k)
  have hriseLt := Nat.lt_div_mul_add (a := origEnd.toNat + (2 ^ k - 1)) hpos
  have hlengthNat : alignedLength.toNat =
      (origEnd.toNat + (2 ^ k - 1)) / 2 ^ k * 2 ^ k - offset.toInt.toNat / 2 ^ k * 2 ^ k := by
    show (_ - _ : UInt64).toNat = _
    rw [UInt64.toNat_sub_of_le _ _ ?_, halignedEnd, halignedOffset]
    rw [UInt64.le_iff_toNat_le, halignedEnd, halignedOffset]
    omega
  have hnumPages : (alignedLength / pageSize).toNat =
      (origEnd.toNat + (2 ^ k - 1)) / 2 ^ k - offset.toInt.toNat / 2 ^ k := by
    rw [UInt64.toNat_div, hlengthNat, hpage, ← Nat.sub_mul, Nat.mul_div_cancel _ hpos]
  -- so the pages end where the aligned end is
  have hcover : alignedOffset.toNat + (alignedLength / pageSize).toNat * pageSize.toNat =
      (origEnd.toNat + (2 ^ k - 1)) / 2 ^ k * 2 ^ k := by
    rw [hnumPages, hpage, halignedOffset, Nat.sub_mul]
    omega
  refine ⟨hend, halignedOffset, ?_, ?_⟩
  · intro hzero
    rw [hzero, UInt64.toNat_zero] at hlengthNat
    omega
  · constructor
    case page_pos => omega
    case start_ge => omega
    case start_lt => omega
    case window => omega
    case end_le => omega
    case meets =>
      intro i hi
      have hmul : (i + 1) * pageSize.toNat ≤ (alignedLength / pageSize).toNat * pageSize.toNat :=
        Nat.mul_le_mul_right _ hi
      rw [Nat.succ_mul] at hmul
      omega
    case bound => omega

end Align

end UncachedRanges

/-- The ranges are in order, apart from each other and inside the region, and cover exactly the
    bytes of pages that are not resident. Byte `x` lies in page `x / pageSize - offset / pageSize`
    of the mapping. -/
structure CoversUncached (residency : ℕ → UInt8) (pageSize : ℕ) (offset length : ℤ)
    (ranges : List (Int64 × Int64)) : Prop where
  increasing : ranges.Pairwise fun a b => a.1.toInt < b.1.toInt
  apart : ranges.Pairwise fun a b => a.1.toInt + a.2.toInt < b.1.toInt
  nonempty : ∀ r ∈ ranges, 0 < r.2.toInt
  within : ∀ r ∈ ranges, offset ≤ r.1.toInt ∧ r.1.toInt + r.2.toInt ≤ offset + length
  exact : ∀ x : ℤ, offset ≤ x → x < offset + length →
    ((∃ r ∈ ranges, r.1.toInt ≤ x ∧ x < r.1.toInt + r.2.toInt) ↔
      residency (x / pageSize - offset / pageSize).toNat &&& 1 = 0)
  aligned : (pageSize : ℤ) ∣ offset → ∀ r ∈ ranges, (pageSize : ℤ) ∣ r.1.toInt

namespace UncachedRanges

/-- The integers of a returned range. -/
theorem toInt_toRange {r : ℕ × ℕ} (hlt : r.1 < r.2) (hbound : r.2 < 2 ^ 63) :
    (toRange r).1.toInt = r.1 ∧ (toRange r).1.toInt + (toRange r).2.toInt = r.2 := by
  rw [toRange, Int64.toInt_ofNat_of_lt (by omega), Int64.toInt_ofNat_of_lt (by omega)]
  omega

/-- The page of a byte, counted from the start of the mapping. -/
theorem page_of_byte (x start pageSize : ℕ) :
    (x - start / pageSize * pageSize) / pageSize =
      ((x : ℤ) / pageSize - (start : ℤ) / pageSize).toNat := by
  rw [Nat.mul_comm, Nat.sub_mul_div]
  omega

/-- Where the system answers, the ranges are those of the loop. -/
theorem uncachedRanges_eq {sys : PageCache} {residency : ℕ → UInt8} (hopens : sys.opens = true)
    (hmaps : sys.maps = true) (hmincore : sys.mincore = some residency) {offset length : Int64}
    (hlength : 0 < length.toInt) (hpage : 0 < sys.pageSize.toNat) :
    let mask := ~~~(sys.pageSize - 1)
    let alignedOffset := offset.toUInt64 &&& mask
    let origEnd := offset.toUInt64 + length.toUInt64
    let alignedLength := ((origEnd + sys.pageSize - 1) &&& mask) - alignedOffset
    alignedLength ≠ 0 →
      uncachedRanges sys offset length =
        (closeRun offset.toUInt64 origEnd
          (((List.range (alignedLength / sys.pageSize).toNat).map residency).zipIdx.foldl
            (visitPage alignedOffset sys.pageSize offset.toUInt64 origEnd) ⟨[], none⟩)).ranges := by
  intro mask alignedOffset origEnd alignedLength hne
  have hlen : ¬length ≤ 0 := by
    rw [Int64.le_iff_toInt_le]
    exact not_le_of_gt hlength
  have hsize : sys.pageSize ≠ 0 := by
    intro hzero
    rw [hzero] at hpage
    exact Nat.lt_irrefl 0 hpage
  simp only [uncachedRanges]
  rw [if_neg hlen, if_neg hsize, if_neg (by simp [hopens]), if_neg hne, if_neg (by simp [hmaps]),
    hmincore]

/-- Runs that cover the uncached points of the region, each from the start of a page on, give
    ranges that cover its uncached bytes. -/
theorem coversUncached_map {residency : ℕ → UInt8} {pageSize start length : ℕ}
    {runs : List (ℕ × ℕ)} (hbound : start + length < 2 ^ 63)
    (h : Runs.Covers start (start + length)
      (Uncached residency (start / pageSize * pageSize) pageSize) (start + length) runs)
    (hstarts : ∀ r ∈ runs, ∃ i, r.1 = max (start / pageSize * pageSize + i * pageSize) start) :
    CoversUncached residency pageSize start length (runs.map toRange) := by
  -- the runs stay below 2^63, so each one is its range
  have hrange : ∀ r ∈ runs, (toRange r).1.toInt = r.1 ∧
      (toRange r).1.toInt + (toRange r).2.toInt = r.2 := by
    intro r hr
    have := (h.within r hr).2
    exact toInt_toRange (h.nonempty r hr) (by omega)
  constructor
  case increasing =>
    refine List.pairwise_map.2 (h.apart.imp_of_mem fun {a b} ha hb hab => ?_)
    have := h.nonempty a ha
    rw [(hrange a ha).1, (hrange b hb).1]
    omega
  case apart =>
    refine List.pairwise_map.2 (h.apart.imp_of_mem fun {a b} ha hb hab => ?_)
    rw [(hrange a ha).2, (hrange b hb).1]
    omega
  case nonempty =>
    intro y hy
    obtain ⟨r, hr, rfl⟩ := List.mem_map.1 hy
    have := h.nonempty r hr
    have := hrange r hr
    omega
  case within =>
    intro y hy
    obtain ⟨r, hr, rfl⟩ := List.mem_map.1 hy
    have := h.within r hr
    rw [(hrange r hr).2, (hrange r hr).1]
    omega
  case exact =>
    intro x hlo hhi
    obtain ⟨n, rfl⟩ := Int.eq_ofNat_of_zero_le ((Int.natCast_nonneg start).trans hlo)
    -- the byte is uncached when its page is
    have hpoint := h.covers n (by omega) (by omega) (by omega)
    rw [Uncached, page_of_byte] at hpoint
    rw [← hpoint]
    constructor
    · intro ⟨y, hy, hle, hlt⟩
      obtain ⟨r, hr, rfl⟩ := List.mem_map.1 hy
      have := hrange r hr
      exact ⟨r, hr, by omega, by omega⟩
    · intro ⟨r, hr, hle, hlt⟩
      have := hrange r hr
      exact ⟨toRange r, List.mem_map_of_mem hr, by omega, by omega⟩
  case aligned =>
    intro hdvd y hy
    obtain ⟨r, hr, rfl⟩ := List.mem_map.1 hy
    obtain ⟨i, hi⟩ := hstarts r hr
    -- the mapping starts at the region
    rw [Nat.div_mul_cancel (Int.natCast_dvd_natCast.1 hdvd),
      Nat.max_eq_left (Nat.le_add_right _ _)] at hi
    rw [(hrange r hr).1, hi, Nat.cast_add, Nat.cast_mul]
    exact dvd_add hdvd (dvd_mul_left _ _)

end UncachedRanges

open UncachedRanges in
/-- Where the system answers, `uncached_ranges` covers exactly the bytes that are not resident. -/
theorem uncached_ranges_exact {sys : PageCache} {residency : ℕ → UInt8} {k : ℕ}
    (hpage : sys.pageSize.toNat = 2 ^ k) (hopens : sys.opens = true) (hmaps : sys.maps = true)
    (hmincore : sys.mincore = some residency) {offset length : Int64} (hoffset : 0 ≤ offset.toInt)
    (hlength : 0 < length.toInt)
    (hbound : offset.toInt + length.toInt + sys.pageSize.toNat < 2 ^ 63) :
    CoversUncached residency sys.pageSize.toNat offset.toInt length.toInt
      (uncachedRanges sys offset length) := by
  obtain ⟨hend, haligned, hne, hregion⟩ := region_of_aligned hpage hoffset hlength hbound
  obtain ⟨runs, hranges, hcovers, hstarts⟩ := hregion.ranges_eq residency
  rw [hend, haligned, toNat_toUInt64 hoffset, ← hpage] at hcovers
  rw [haligned, toNat_toUInt64 hoffset, ← hpage] at hstarts
  rw [uncachedRanges_eq hopens hmaps hmincore hlength hregion.page_pos hne, hranges]
  have hcover := coversUncached_map (by omega) hcovers hstarts
  rwa [Int.toNat_of_nonneg hoffset, Int.toNat_of_nonneg (le_of_lt hlength)] at hcover

/-- Three pages, the second one resident: the ends are cut to the region. -/
theorem uncached_ranges_exact_three_pages :
    let residency : ℕ → UInt8 := fun i => if i = 1 then 1 else 0
    let sys : PageCache := ⟨4096, true, true, some residency⟩
    uncachedRanges sys 100 10000 = [(100, 3996), (8192, 1908)] ∧
      CoversUncached residency 4096 100 10000 (uncachedRanges sys 100 10000) := by
  intro residency sys
  have h := @uncached_ranges_exact sys residency 12 rfl rfl rfl rfl 100 10000 (by decide)
    (by decide) (by decide)
  exact ⟨by decide +kernel, h⟩

end PreloadNg
