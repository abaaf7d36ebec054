import PreloadNg.Prefetch.UncachedRanges

set_option autoImplicit false

/-! # Prefetch backends

The three ways a blocking job asks the kernel for the uncached ranges of a map: a read loop, a loop
of `readahead` calls, and `madvise` on a mapping. What the kernel answers is input. Whichever of
them is chosen, a job asks once for the bytes that are not resident, and for no others. -/

namespace PreloadNg

/-- The implementations of `Prefetcher`, with their concurrency. -/
inductive PrefetcherKind where
  | noop
  | read (concurrency : ℕ)
  | readahead (concurrency : ℕ)
  | madvise (concurrency : ℕ)
deriving DecidableEq

/-- The answers to the calls of one job. Every call of a job is made at a position of its own, so
    that answers by position are no restriction. -/
structure Kernel where
  cache : PageCache
  /-- `OpenOptions::open`, for the range that starts here. -/
  openError : Int64 → Option String
  /-- `File::seek`. -/
  seekError : Int64 → Option String
  size : ℕ
  /-- `File::read` at a position into a buffer of some length. -/
  read : ℕ → ℕ → Except String ℕ
  readahead : Int64 → UInt64 → Option String
  mmapError : Int64 → Option String
  madviseError : Int64 → Option String

/-- `read` fills at most the buffer, from the file, and nothing at its end only. -/
structure Kernel.ReadsFile (kernel : Kernel) : Prop where
  le : ∀ pos len n, kernel.read pos len = .ok n → n ≤ len
  within : ∀ pos len n, kernel.read pos len = .ok n → 0 < n → pos + n ≤ kernel.size
  atEnd : ∀ pos len, 0 < len → kernel.read pos len = .ok 0 → kernel.size ≤ pos

/-- The ranges a job asked for, as `(start, stop)`, and its result. -/
structure IoResult where
  touched : List (ℤ × ℤ)
  result : Except String Unit
deriving DecidableEq

/-- The byte `x` was asked for. -/
def IoResult.Touches (r : IoResult) (x : ℤ) : Prop := ∃ t ∈ r.touched, t.1 ≤ x ∧ x < t.2

def IoResult.Ok (r : IoResult) : Prop := r.result = .ok ()

namespace IoResult

def done : IoResult := ⟨[], .ok ()⟩

def failed (message : String) : IoResult := ⟨[], .error message⟩

/-- A range that was asked for before. -/
def cons (start stop : ℤ) (r : IoResult) : IoResult := ⟨(start, stop) :: r.touched, r.result⟩

end IoResult

/-- The size of the read buffer and of a `readahead` call. -/
def CHUNK : ℕ := 128 * 1024

/-! ## The backends -/

/-- The loop of `ReadPrefetcher::readahead`; `none` when the fuel runs out. -/
def readLoop (kernel : Kernel) : ℕ → ℕ → ℕ → Option IoResult
  | 0, _, _ => none
  | fuel + 1, pos, remaining =>
    if remaining = 0 then some .done
    else
      match kernel.read pos (min remaining CHUNK) with
      | .error err => some (.failed err)
      | .ok n =>
        if n = 0 then some .done
        else (readLoop kernel fuel (pos + n) (remaining - n)).map (IoResult.cons pos (pos + n))

/-- `ReadPrefetcher::readahead`. -/
def ReadPrefetcher.readahead (kernel : Kernel) (offset length : Int64) : Option IoResult :=
  match kernel.openError offset with
  | some err => some (.failed err)
  | none =>
    let remaining := length.toUInt64.toNat
    if 0 < offset then
      match kernel.seekError offset with
      | some err => some (.failed err)
      | none => readLoop kernel (remaining + 1) offset.toUInt64.toNat remaining
    else readLoop kernel (remaining + 1) 0 remaining

/-- The loop of `ReadaheadPrefetcher::do_readahead`. -/
def readaheadLoop (kernel : Kernel) (stop : Int64) : ℕ → Int64 → Option IoResult
  | 0, _ => none
  | fuel + 1, off =>
    if off < stop then
      let count := min (stop - off).toUInt64 (UInt64.ofNat CHUNK)
      match kernel.readahead off count with
      | some err => some (.failed err)
      | none =>
        (readaheadLoop kernel stop fuel (off + count.toInt64)).map
          (IoResult.cons off.toInt (off.toInt + count.toNat))
    else some .done

/-- `ReadaheadPrefetcher::do_readahead`. -/
def ReadaheadPrefetcher.doReadahead (kernel : Kernel) (offset length : Int64) : Option IoResult :=
  match kernel.openError offset with
  | some err => some (.failed err)
  | none => readaheadLoop kernel (offset + length) (length.toUInt64.toNat + 1) offset

/-- `MadvisePrefetcher::do_madvise`. -/
def MadvisePrefetcher.doMadvise (kernel : Kernel) (offset length : Int64) : Option IoResult :=
  if length ≤ 0 then some .done
  else
    match kernel.openError offset, kernel.mmapError offset, kernel.madviseError offset with
    | some err, _, _ => some (.failed err)
    | none, some err, _ => some (.failed err)
    | none, none, some err => some (.failed err)
    | none, none, none => some (IoResult.cons offset.toInt (offset.toInt + length.toInt) .done)

/-- What a prefetcher does with one range. -/
def PrefetcherKind.touch (kernel : Kernel) : PrefetcherKind → Int64 → Int64 → Option IoResult
  | .noop, _, _ => some .done
  | .read _, offset, length => ReadPrefetcher.readahead kernel offset length
  | .readahead _, offset, length => ReadaheadPrefetcher.doReadahead kernel offset length
  | .madvise _, offset, length => MadvisePrefetcher.doMadvise kernel offset length

/-- The ranges of a job one after the other; an error ends it. -/
def touchRanges (touch : Int64 → Int64 → Option IoResult) : List (Int64 × Int64) → Option IoResult
  | [] => some .done
  | (offset, length) :: rest => do
    let r ← touch offset length
    match r.result with
    | .error _ => return r
    | .ok () =>
      let r' ← touchRanges touch rest
      return ⟨r.touched ++ r'.touched, r'.result⟩

/-- The blocking job of one map. -/
def prefetchJob (kernel : Kernel) (kind : PrefetcherKind) (offset length : Int64) :
    Option IoResult :=
  touchRanges (kind.touch kernel) (uncachedRanges kernel.cache offset length)

/-! ## One range -/

/-- What a job is to do with the bytes `p` of `[start, stop)`: it asks for such bytes only, for none
    of them twice, and without an error for all of them. -/
structure TouchesRange (p : ℤ → Prop) (start stop : ℤ) (r : IoResult) : Prop where
  within : ∀ t ∈ r.touched, start ≤ t.1 ∧ t.1 < t.2 ∧ t.2 ≤ stop
  once : r.touched.Pairwise fun t u => t.2 ≤ u.1
  only : ∀ x, r.Touches x → p x
  all : r.Ok → ∀ x, start ≤ x → x < stop → p x → r.Touches x

theorem touches_cons {start stop x : ℤ} {r : IoResult} :
    (r.cons start stop).Touches x ↔ (start ≤ x ∧ x < stop) ∨ r.Touches x := by
  simp [IoResult.Touches, IoResult.cons]

theorem touchesRange_failed (p : ℤ → Prop) (start stop : ℤ) (message : String) :
    TouchesRange p start stop (.failed message) where
  within t ht := absurd ht List.not_mem_nil
  once := List.Pairwise.nil
  only x hx := by
    obtain ⟨t, ht, -⟩ := hx
    exact absurd ht List.not_mem_nil
  all hok := by cases hok

/-- Nothing is left to ask for. -/
theorem touchesRange_done {p : ℤ → Prop} {start stop : ℤ}
    (h : ∀ x, start ≤ x → x < stop → ¬p x) : TouchesRange p start stop .done where
  within t ht := absurd ht List.not_mem_nil
  once := List.Pairwise.nil
  only x hx := by
    obtain ⟨t, ht, -⟩ := hx
    exact absurd ht List.not_mem_nil
  all _ x hlo hhi hp := absurd hp (h x hlo hhi)

/-- A part of the range in front of the rest. -/
theorem TouchesRange.cons {p : ℤ → Prop} {start mid stop : ℤ} {r : IoResult}
    (h : TouchesRange p mid stop r) (hlo : start < mid) (hhi : mid ≤ stop)
    (hp : ∀ x, start ≤ x → x < mid → p x) :
    TouchesRange p start stop (r.cons start mid) where
  within t ht := by
    rcases List.mem_cons.1 ht with rfl | hrest
    · exact ⟨le_refl _, hlo, hhi⟩
    · obtain ⟨h₁, h₂, h₃⟩ := h.within t hrest
      exact ⟨by omega, h₂, h₃⟩
  once := List.pairwise_cons.2 ⟨fun t ht => (h.within t ht).1, h.once⟩
  only x hx := by
    rcases touches_cons.1 hx with ⟨hx₁, hx₂⟩ | hrest
    · exact hp x hx₁ hx₂
    · exact h.only x hrest
  all hok x hx₁ hx₂ hpx := by
    rcases lt_or_ge x mid with hx | hx
    · exact touches_cons.2 (Or.inl ⟨hx₁, hx⟩)
    · exact touches_cons.2 (Or.inr (h.all hok x hx hx₂ hpx))

/-- The read loop asks for the bytes of the file, and never runs out of fuel. -/
theorem readLoop_spec {kernel : Kernel} (hread : kernel.ReadsFile) (fuel pos remaining : ℕ)
    (hfuel : remaining < fuel) :
    ∃ r, readLoop kernel fuel pos remaining = some r ∧
      TouchesRange (fun x => x < kernel.size) pos (pos + remaining : ℕ) r := by
  induction fuel generalizing pos remaining with
  | zero => omega
  | succ fuel ih =>
      unfold readLoop
      by_cases hzero : remaining = 0
      · rw [if_pos hzero]
        exact ⟨_, rfl, touchesRange_done fun x hlo hhi => by omega⟩
      · rw [if_neg hzero]
        cases hn : kernel.read pos (min remaining CHUNK) with
        | error err => exact ⟨_, rfl, touchesRange_failed _ _ _ err⟩
        | ok n =>
            dsimp only
            have hle := hread.le _ _ _ hn
            by_cases hn0 : n = 0
            · -- the end of the file
              subst hn0
              have hend := hread.atEnd _ _ (by unfold CHUNK; omega) hn
              refine ⟨_, if_pos rfl, touchesRange_done fun x hlo hhi => ?_⟩
              omega
            · obtain ⟨r, hr, hspec⟩ := ih (pos + n) (remaining - n) (by omega)
              have hwithin := hread.within _ _ _ hn (Nat.pos_of_ne_zero hn0)
              have hstop : pos + n + (remaining - n) = pos + remaining := by omega
              rw [hstop] at hspec
              rw [if_neg hn0, hr]
              refine ⟨_, rfl, TouchesRange.cons (by exact_mod_cast hspec) (by omega) (by omega) ?_⟩
              intro x hlo hhi
              omega

/-- The loop of `readahead` calls asks for the whole range, and never runs out of fuel. -/
theorem readaheadLoop_spec (kernel : Kernel) {stop : Int64} (fuel : ℕ) {off : Int64}
    (hoff : 0 ≤ off.toInt) (hle : off.toInt ≤ stop.toInt)
    (hfuel : stop.toInt - off.toInt < fuel) :
    ∃ r, readaheadLoop kernel stop fuel off = some r ∧
      TouchesRange (fun _ => True) off.toInt stop.toInt r := by
  induction fuel generalizing off with
  | zero => omega
  | succ fuel ih =>
      unfold readaheadLoop
      by_cases hlt : off < stop
      · rw [if_pos hlt]
        rw [Int64.lt_iff_toInt_lt] at hlt
        have hstop := stop.toInt_lt
        -- the offset is below the stop, so the difference does not wrap
        have hdiff : (stop - off).toInt = stop.toInt - off.toInt := by
          rw [Int64.toInt_sub, Int.bmod_eq_of_le_mul_two (by omega) (by omega)]
        dsimp only
        generalize hc : min (stop - off).toUInt64 (UInt64.ofNat CHUNK) = count
        have hcount : count.toNat = min (stop.toInt - off.toInt).toNat CHUNK := by
          have hchunk : (UInt64.ofNat CHUNK).toNat = CHUNK := rfl
          rw [← hc, toNat_min, UncachedRanges.toNat_toUInt64 (by omega), hdiff, hchunk]
        have hsmall : count.toNat ≤ CHUNK := by omega
        -- each call moves on by a byte at least
        have hpos : 0 < count.toNat := by
          rw [hcount]
          unfold CHUNK
          omega
        have hcountInt : count.toInt64.toInt = count.toNat :=
          toInt_toInt64 (Nat.lt_of_le_of_lt hsmall (by decide))
        have hnext : (off + count.toInt64).toInt = off.toInt + count.toNat := by
          rw [Int64.toInt_add, hcountInt, Int.bmod_eq_of_le_mul_two (by omega) (by omega)]
        cases kernel.readahead off count with
        | some err => exact ⟨_, rfl, touchesRange_failed _ _ _ err⟩
        | none =>
            have hrest := @ih (off + count.toInt64) (by omega) (by omega) (by omega)
            obtain ⟨r, hr, hspec⟩ := hrest
            rw [hnext] at hspec
            dsimp only
            rw [hr]
            exact ⟨_, rfl, hspec.cons (by omega) (by omega) fun _ _ _ => trivial⟩
      · rw [if_neg hlt]
        rw [Int64.lt_iff_toInt_lt] at hlt
        exact ⟨_, rfl, touchesRange_done fun x hlo hhi => by omega⟩

/-- The bytes a backend can ask for: a read loop stops at the end of the file. -/
def PrefetcherKind.Reaches (kernel : Kernel) : PrefetcherKind → ℤ → Prop
  | .noop, _ => False
  | .read _, x => x < kernel.size
  | .readahead _, _ => True
  | .madvise _, _ => True

/-- One range, whichever the backend. -/
theorem touch_spec {kernel : Kernel} (hread : kernel.ReadsFile) (kind : PrefetcherKind)
    {offset length : Int64} (hoffset : 0 ≤ offset.toInt) (hlength : 0 < length.toInt)
    (hbound : offset.toInt + length.toInt < 2 ^ 63) :
    ∃ r, kind.touch kernel offset length = some r ∧
      TouchesRange (kind.Reaches kernel) offset.toInt (offset.toInt + length.toInt) r := by
  have hlengthNat := UncachedRanges.toNat_toUInt64 (a := length) (by omega)
  have hoffsetNat := UncachedRanges.toNat_toUInt64 hoffset
  cases kind with
  | noop => exact ⟨_, rfl, touchesRange_done fun x _ _ hx => hx⟩
  | read concurrency =>
      -- a seek to the start of the file is left out
      have hloop := readLoop_spec hread (length.toUInt64.toNat + 1) offset.toInt.toNat
        length.toUInt64.toNat (Nat.lt_succ_self _)
      rw [Nat.cast_add, Int.toNat_of_nonneg hoffset, hlengthNat,
        Int.toNat_of_nonneg (le_of_lt hlength), ← hlengthNat] at hloop
      show ∃ r, ReadPrefetcher.readahead kernel offset length = some r ∧ _
      unfold ReadPrefetcher.readahead
      cases kernel.openError offset with
      | some err => exact ⟨_, rfl, touchesRange_failed _ _ _ err⟩
      | none =>
          dsimp only
          by_cases hpos : 0 < offset
          · rw [if_pos hpos]
            cases kernel.seekError offset with
            | some err => exact ⟨_, rfl, touchesRange_failed _ _ _ err⟩
            | none =>
                dsimp only
                rw [hoffsetNat]
                exact hloop
          · rw [if_neg hpos]
            rw [Int64.lt_iff_toInt_lt, Int64.toInt_zero] at hpos
            rw [show offset.toInt.toNat = 0 by omega] at hloop
            exact hloop
  | readahead concurrency =>
      show ∃ r, ReadaheadPrefetcher.doReadahead kernel offset length = some r ∧ _
      unfold ReadaheadPrefetcher.doReadahead
      -- the end of the range does not overflow
      have hstop : (offset + length).toInt = offset.toInt + length.toInt := by
        rw [Int64.toInt_add, Int.bmod_eq_of_le_mul_two (by omega) (by omega)]
      cases kernel.openError offset with
      | some err => exact ⟨_, rfl, touchesRange_failed _ _ _ err⟩
      | none =>
          rw [← hstop]
          exact readaheadLoop_spec kernel _ hoffset (by omega) (by omega)
  | madvise concurrency =>
      show ∃ r, MadvisePrefetcher.doMadvise kernel offset length = some r ∧ _
      unfold MadvisePrefetcher.doMadvise
      have hnonpos : ¬length ≤ 0 := by
        rw [Int64.le_iff_toInt_le, Int64.toInt_zero]
        omega
      rw [if_neg hnonpos]
      cases kernel.openError offset with
      | some err => exact ⟨_, rfl, touchesRange_failed _ _ _ err⟩
      | none =>
          cases kernel.mmapError offset with
          | some err => exact ⟨_, rfl, touchesRange_failed _ _ _ err⟩
          | none =>
              cases kernel.madviseError offset with
              | some err => exact ⟨_, rfl, touchesRange_failed _ _ _ err⟩
              | none =>
                  refine ⟨_, rfl, TouchesRange.cons ?_ (by omega) (le_refl _) fun _ _ _ => trivial⟩
                  exact touchesRange_done fun x hlo hhi => by omega

/-! ## One job -/

/-- The byte lies in one of the ranges. -/
def InRanges (ranges : List (Int64 × Int64)) (x : ℤ) : Prop :=
  ∃ r ∈ ranges, r.1.toInt ≤ x ∧ x < r.1.toInt + r.2.toInt

/-- The ranges of a job, one after the other, when each of them is touched. -/
theorem touchRanges_spec {touch : Int64 → Int64 → Option IoResult} {p : ℤ → Prop} {stop : ℤ}
    {ranges : List (Int64 × Int64)} {start : ℤ} (hstart : start ≤ stop)
    (hwithin : ∀ range ∈ ranges,
      start ≤ range.1.toInt ∧ range.1.toInt + range.2.toInt ≤ stop)
    (hapart : ranges.Pairwise fun a b => a.1.toInt + a.2.toInt ≤ b.1.toInt)
    (htouch : ∀ range ∈ ranges, 0 < range.2.toInt ∧ ∃ r, touch range.1 range.2 = some r ∧
      TouchesRange p range.1.toInt (range.1.toInt + range.2.toInt) r) :
    ∃ r, touchRanges touch ranges = some r ∧
      TouchesRange (fun x => p x ∧ InRanges ranges x) start stop r := by
  induction ranges generalizing start with
  | nil =>
      refine ⟨_, rfl, touchesRange_done fun x _ _ hx => ?_⟩
      obtain ⟨-, range, hrange, -⟩ := hx
      exact absurd hrange List.not_mem_nil
  | cons range rest ih =>
      obtain ⟨offset, length⟩ := range
      obtain ⟨hrest, hapart⟩ := List.pairwise_cons.1 hapart
      obtain ⟨hlo, hhi⟩ := hwithin _ List.mem_cons_self
      obtain ⟨hpos, r, hr, hspec⟩ := htouch _ List.mem_cons_self
      dsimp only at hr hspec hlo hhi hpos hrest
      -- what the first range touches is in it
      have hhead : ∀ x, r.Touches x → InRanges ((offset, length) :: rest) x := by
        intro x ⟨t, ht, h₁, h₂⟩
        have := hspec.within t ht
        exact ⟨_, List.mem_cons_self, by dsimp only; omega, by dsimp only; omega⟩
      unfold touchRanges
      rw [hr]
      show ∃ r', (match r.result with | .error _ => some r | .ok () => _) = some r' ∧ _
      cases hresult : r.result with
      | error err =>
          -- the first range that fails ends the loop: nothing else is touched
          refine ⟨r, rfl, ?_, hspec.once, fun x hx => ⟨hspec.only x hx, hhead x hx⟩, ?_⟩
          · intro t ht
            have := hspec.within t ht
            omega
          · intro hok
            rw [IoResult.Ok, hresult] at hok
            cases hok
      | ok u =>
          -- the ranges are apart, so the rest begins where the first one ends
          obtain ⟨r', hr', hspec'⟩ := @ih (offset.toInt + length.toInt) (by omega)
            (fun b hb => ⟨hrest b hb, (hwithin b (List.mem_cons_of_mem _ hb)).2⟩) hapart
            (fun b hb => htouch b (List.mem_cons_of_mem _ hb))
          dsimp only
          rw [hr']
          refine ⟨_, rfl, ?_, ?_, ?_, ?_⟩
          · intro t ht
            rcases List.mem_append.1 ht with ht | ht
            · have := hspec.within t ht
              omega
            · have := hspec'.within t ht
              omega
          · refine List.pairwise_append.2 ⟨hspec.once, hspec'.once, fun t ht u hu => ?_⟩
            have := hspec.within t ht
            have := hspec'.within u hu
            omega
          · intro x ⟨t, ht, hx⟩
            rcases List.mem_append.1 ht with ht | ht
            · exact ⟨hspec.only x ⟨t, ht, hx⟩, hhead x ⟨t, ht, hx⟩⟩
            · obtain ⟨hp, b, hb, hbx⟩ := hspec'.only x ⟨t, ht, hx⟩
              exact ⟨hp, b, List.mem_cons_of_mem _ hb, hbx⟩
          · intro hok x hx₁ hx₂ ⟨hp, b, hb, hb₁, hb₂⟩
            rcases List.mem_cons.1 hb with rfl | hb
            · obtain ⟨t, ht, htx⟩ := hspec.all hresult x hb₁ hb₂ hp
              exact ⟨t, List.mem_append_left _ ht, htx⟩
            · have := hrest b hb
              obtain ⟨t, ht, htx⟩ := hspec'.all hok x (by omega) hx₂ ⟨hp, b, hb, hb₁, hb₂⟩
              exact ⟨t, List.mem_append_right _ ht, htx⟩

/-- The byte is not known to be resident; nothing is known when the kernel does not answer. -/
def PageCache.Wanted (cache : PageCache) (offset x : ℤ) : Prop :=
  cache.opens = true → cache.maps = true → ∀ residency, cache.mincore = some residency →
    residency (x / cache.pageSize.toNat - offset / cache.pageSize.toNat).toNat &&& 1 = 0

/-- Disjoint ranges in the region that hold exactly the wanted bytes. -/
structure CoversWanted (cache : PageCache) (offset length : ℤ) (ranges : List (Int64 × Int64)) :
    Prop where
  nonempty : ∀ r ∈ ranges, 0 < r.2.toInt
  within : ∀ r ∈ ranges, offset ≤ r.1.toInt ∧ r.1.toInt + r.2.toInt ≤ offset + length
  apart : ranges.Pairwise fun a b => a.1.toInt + a.2.toInt ≤ b.1.toInt
  exact : ∀ x, offset ≤ x → x < offset + length → (InRanges ranges x ↔ cache.Wanted offset x)

/-- The whole region, where nothing is known. -/
theorem coversWanted_whole {cache : PageCache} {offset length : Int64} (hlength : 0 < length.toInt)
    (hunknown : ∀ x, cache.Wanted offset.toInt x) :
    CoversWanted cache offset.toInt length.toInt [(offset, length)] where
  nonempty r hr := by
    rw [List.mem_singleton.1 hr]
    exact hlength
  within r hr := by
    rw [List.mem_singleton.1 hr]
    exact ⟨le_refl _, le_refl _⟩
  apart := List.pairwise_singleton _ _
  exact x hlo hhi := ⟨fun _ => hunknown x, fun _ => ⟨_, List.mem_singleton_self _, hlo, hhi⟩⟩

/-- What `uncached_ranges` returns, whether the kernel answers or not. -/
theorem coversWanted_uncachedRanges {cache : PageCache} {k : ℕ}
    (hpage : cache.pageSize.toNat = 2 ^ k) {offset length : Int64} (hoffset : 0 ≤ offset.toInt)
    (hlength : 0 < length.toInt)
    (hbound : offset.toInt + length.toInt + cache.pageSize.toNat < 2 ^ 63) :
    CoversWanted cache offset.toInt length.toInt (uncachedRanges cache offset length) := by
  obtain ⟨hend, haligned, hne, hregion⟩ :=
    UncachedRanges.region_of_aligned hpage hoffset hlength hbound
  have hlen : ¬length ≤ 0 := by
    rw [Int64.le_iff_toInt_le]
    exact not_le_of_gt hlength
  have hsize : cache.pageSize ≠ 0 := by
    intro hzero
    rw [hzero] at hpage
    exact absurd hpage.symm (by positivity)
  by_cases hopens : cache.opens = true
  case neg =>
    -- a file that does not open is loaded whole, and so is one without residency
    have hranges : uncachedRanges cache offset length = [(offset, length)] := by
      unfold uncachedRanges
      rw [if_neg hlen, if_neg hsize, if_pos (Bool.eq_false_of_not_eq_true hopens)]
    rw [hranges]
    exact coversWanted_whole hlength fun x hop => absurd hop hopens
  by_cases hmaps : cache.maps = true
  case neg =>
    have hranges : uncachedRanges cache offset length = [(offset, length)] := by
      simp only [uncachedRanges]
      rw [if_neg hlen, if_neg hsize, if_neg (by simp [hopens]), if_neg hne,
        if_pos (Bool.eq_false_of_not_eq_true hmaps)]
    rw [hranges]
    exact coversWanted_whole hlength fun x _ hmap => absurd hmap hmaps
  cases hmincore : cache.mincore with
  | none =>
      have hranges : uncachedRanges cache offset length = [(offset, length)] := by
        simp only [uncachedRanges]
        rw [if_neg hlen, if_neg hsize, if_neg (by simp [hopens]), if_neg hne,
          if_neg (by simp [hmaps]), hmincore]
      rw [hranges]
      refine coversWanted_whole hlength fun x _ _ residency hres => ?_
      rw [hmincore] at hres
      cases hres
  | some residency =>
      -- the residency of each page is known: the runs of the loop are the ranges
      obtain ⟨runs, hranges, hcovers, hstarts⟩ := hregion.ranges_eq residency
      rw [hend, haligned, UncachedRanges.toNat_toUInt64 hoffset, ← hpage] at hcovers
      rw [haligned, UncachedRanges.toNat_toUInt64 hoffset, ← hpage] at hstarts
      rw [UncachedRanges.uncachedRanges_eq hopens hmaps hmincore hlength hregion.page_pos hne,
        hranges]
      have hcover := UncachedRanges.coversUncached_map (by omega) hcovers hstarts
      rw [Int.toNat_of_nonneg hoffset, Int.toNat_of_nonneg (le_of_lt hlength)] at hcover
      refine ⟨hcover.nonempty, hcover.within, hcover.apart.imp le_of_lt, fun x hlo hhi => ?_⟩
      refine (hcover.exact x hlo hhi).trans ⟨fun hx _ _ residency' hres => ?_, fun hx => ?_⟩
      · rw [hmincore] at hres
        obtain rfl := Option.some.inj hres
        exact hx
      · exact hx hopens hmaps residency hmincore

/-- A job ends, whichever the backend and whatever the kernel answers. It asks for bytes of its
    region that are not known to be resident, for each at most once, and for all of them within the
    backend's reach unless a call fails. -/
theorem job_touches_region {kernel : Kernel} (hread : kernel.ReadsFile) (kind : PrefetcherKind)
    {k : ℕ} (hpage : kernel.cache.pageSize.toNat = 2 ^ k) {offset length : Int64}
    (hoffset : 0 ≤ offset.toInt)
    (hbound : offset.toInt + length.toInt + kernel.cache.pageSize.toNat < 2 ^ 63) :
    ∃ r, prefetchJob kernel kind offset length = some r ∧
      TouchesRange (fun x => kind.Reaches kernel x ∧ kernel.cache.Wanted offset.toInt x)
        offset.toInt (offset.toInt + length.toInt) r := by
  unfold prefetchJob
  rcases le_or_gt length.toInt 0 with hempty | hlength
  · have hle : length ≤ 0 := by
      rw [Int64.le_iff_toInt_le]
      exact hempty
    have hranges : uncachedRanges kernel.cache offset length = [] := by
      unfold uncachedRanges
      rw [if_pos hle]
    rw [hranges]
    exact ⟨_, rfl, touchesRange_done fun x hlo hhi => by omega⟩
  · have hcover := coversWanted_uncachedRanges hpage hoffset hlength hbound
    have htouch : ∀ range ∈ uncachedRanges kernel.cache offset length, 0 < range.2.toInt ∧
        ∃ r, kind.touch kernel range.1 range.2 = some r ∧
          TouchesRange (kind.Reaches kernel) range.1.toInt (range.1.toInt + range.2.toInt) r := by
      intro range hrange
      have hpos := hcover.nonempty range hrange
      have hwithin := hcover.within range hrange
      exact ⟨hpos, touch_spec hread kind (by omega) hpos (by omega)⟩
    obtain ⟨r, hr, hspec⟩ := touchRanges_spec (by omega) hcover.within hcover.apart htouch
    refine ⟨r, hr, hspec.within, hspec.once, fun x hx => ?_, fun hok x hlo hhi hx => ?_⟩
    · obtain ⟨hp, hin⟩ := hspec.only x hx
      obtain ⟨t, ht, h₁, h₂⟩ := hx
      have := hspec.within t ht
      exact ⟨hp, (hcover.exact x (by omega) (by omega)).1 hin⟩
    · exact hspec.all hok x hlo hhi ⟨hx.1, (hcover.exact x hlo hhi).2 hx.2⟩

/-- Three pages of a file that ends in the third one, the second page resident: a read loop asks for
    the rest of the file. -/
example :
    prefetchJob
      { cache := ⟨4096, true, true, some fun i => if i = 1 then 1 else 0⟩
        openError := fun _ => none
        seekError := fun _ => none
        size := 10000
        read := fun pos len => .ok (min len (10000 - pos))
        readahead := fun _ _ => none
        mmapError := fun _ => none
        madviseError := fun _ => none } (.read 1) 0 12288 =
      some ⟨[(0, 4096), (8192, 10000)], .ok ()⟩ := by
  decide +kernel

end PreloadNg
