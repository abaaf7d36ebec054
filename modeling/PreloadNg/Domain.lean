import PreloadNg.Lib.Machine
import PreloadNg.Lib.Segments
import PreloadNg.Lib.SlotMap

set_option autoImplicit false

/-! # Domain model

Paths, the keys and ids of executables and map segments, and the records stored under them. -/

namespace PreloadNg

/-! ## Spellings of paths

A path comes from outside as a byte string. `std::path` compares two paths component by component,
so that `/bin/a`, `/bin//a` and `/bin/./a/` are one path in three spellings. -/

/-- A file-system path as it is spelled. -/
structure RawPath where
  bytes : ByteArray

instance : DecidableEq RawPath := fun p q =>
  decidable_of_iff (p.bytes.data = q.bytes.data) (by
    obtain ⟨⟨a⟩⟩ := p
    obtain ⟨⟨b⟩⟩ := q
    simp)

/-- `std::path::Component`, in the order of its variants. -/
inductive Path.Component where
  | rootDir
  | curDir
  | parentDir
  | normal (name : List UInt8)
deriving DecidableEq

namespace RawPath

def ofString (s : String) : RawPath := ⟨s.toUTF8⟩

/-- `Path::to_str`: the text, when the bytes are valid UTF-8. -/
def toStr (p : RawPath) : Option String := String.fromUTF8? p.bytes

theorem ofString_of_toStr {p : RawPath} {s : String} (h : p.toStr = some s) : ofString s = p := by
  obtain ⟨b⟩ := p
  simp only [toStr, String.fromUTF8?] at h
  split at h
  · obtain rfl := Option.some.inj h
    rfl
  · exact absurd h (by simp)

theorem toStr_ofString (s : String) : (ofString s).toStr = some s := by
  have hv : s.toByteArray.IsValidUTF8 := s.isValidUTF8
  simp [toStr, ofString, String.fromUTF8?, hv, String.fromUTF8]

/-- Number of bytes that one replacement character stands for, at the start of an ill-formed
    sequence (the maximal subpart rule of `String::from_utf8_lossy`). -/
def invalidLength : List UInt8 → ℕ
  | [] => 0
  | lead :: rest =>
    let cont (b : UInt8) : Bool := 0x80 ≤ b && b ≤ 0xBF
    let second (b : UInt8) : Bool :=
      if lead = 0xE0 then 0xA0 ≤ b && b ≤ 0xBF
      else if lead = 0xED then 0x80 ≤ b && b ≤ 0x9F
      else if lead = 0xF0 then 0x90 ≤ b && b ≤ 0xBF
      else if lead = 0xF4 then 0x80 ≤ b && b ≤ 0x8F
      else cont b
    if 0xE0 ≤ lead && lead ≤ 0xEF then
      match rest with
      | b :: _ => if second b then 2 else 1
      | [] => 1
    else if 0xF0 ≤ lead && lead ≤ 0xF4 then
      match rest with
      | b :: c :: _ => if second b then (if cont c then 3 else 2) else 1
      | [b] => if second b then 2 else 1
      | [] => 1
    else 1

/-- Decode, with one replacement character for each maximal ill-formed subpart. Every step
    consumes a byte, so `fuel` steps suffice for `fuel` bytes. -/
def lossyChars : ℕ → List UInt8 → List Char
  | 0, _ => []
  | _, [] => []
  | fuel + 1, bytes =>
    match ByteArray.utf8DecodeChar? ⟨bytes.toArray⟩ 0 with
    | some c => c :: lossyChars fuel (bytes.drop c.utf8Size)
    | none => '\uFFFD' :: lossyChars fuel (bytes.drop (invalidLength bytes))

/-- `Path::to_string_lossy`. -/
def toStringLossy (p : RawPath) : String :=
  match p.toStr with
  | some s => s
  | none => String.ofList (lossyChars p.bytes.size p.bytes.data.toList)

/-- `Path::has_root`. -/
def hasRoot (p : RawPath) : Bool := p.bytes.data.toList.head? = some 0x2F

/-- The component of a name. -/
def component (name : List UInt8) : Path.Component :=
  if name = [0x2E, 0x2E] then .parentDir else .normal name

/-- `Path::components`: empty components and inner `.` components are dropped. -/
def components (p : RawPath) : List Path.Component :=
  let tail := (Segments.named 0x2F 0x2E p.bytes.data.toList).map component
  if p.hasRoot then .rootDir :: tail
  else if (p.bytes.data.toList.splitOn 0x2F).head? = some [0x2E] then .curDir :: tail
  else tail

/-- The spelling without empty and inner `.` components. -/
def normalize (p : RawPath) : RawPath :=
  ⟨⟨(Segments.normalize 0x2F 0x2E p.bytes.data.toList).toArray⟩⟩

theorem normalize_normalize (p : RawPath) : p.normalize.normalize = p.normalize :=
  congrArg (fun l => (⟨⟨List.toArray l⟩⟩ : RawPath)) (Segments.normalize_normalize (by decide) _)

theorem hasRoot_normalize (p : RawPath) : p.normalize.hasRoot = p.hasRoot :=
  decide_eq_decide.2 (Segments.head?_normalize (by decide) _)

theorem components_normalize (p : RawPath) : p.normalize.components = p.components := by
  unfold components
  dsimp only
  rw [hasRoot_normalize]
  simp only [normalize, Segments.named_normalize (show (0x2E : UInt8) ≠ 0x2F by decide),
    Segments.head?_splitOn_normalize (show (0x2E : UInt8) ≠ 0x2F by decide)]

theorem component_injective : Function.Injective component := by
  intro c c' h
  unfold component at h
  split at h
  · next hc =>
    split at h
    · next hc' => exact hc.trans hc'.symm
    · cases h
  · split at h
    · cases h
    · exact Path.Component.normal.inj h

theorem component_ne (c : List UInt8) : component c ≠ .rootDir ∧ component c ≠ .curDir := by
  unfold component
  split
  · exact ⟨by simp, by simp⟩
  · exact ⟨by simp, by simp⟩

theorem rootDir_mem_components (p : RawPath) : .rootDir ∈ p.components ↔ p.hasRoot = true := by
  have htail : ∀ names : List (List UInt8), Path.Component.rootDir ∉ names.map component := by
    intro names h
    obtain ⟨c, -, hc⟩ := List.mem_map.1 h
    exact (component_ne c).1 hc
  unfold components
  split
  · next hroot => exact iff_of_true List.mem_cons_self hroot
  · next hroot =>
    refine iff_of_false (fun h => ?_) hroot
    split at h
    · rcases List.mem_cons.1 h with h | h
      · cases h
      · exact htail _ h
    · exact htail _ h

/-- A path does not start with a separator and a dot. -/
theorem curDir_mem_components (p : RawPath) : .curDir ∈ p.components ↔
    (p.bytes.data.toList.splitOn 0x2F).head? = some [0x2E] := by
  have htail : ∀ names : List (List UInt8), Path.Component.curDir ∉ names.map component := by
    intro names h
    obtain ⟨c, -, hc⟩ := List.mem_map.1 h
    exact (component_ne c).2 hc
  unfold components
  split
  · next hroot =>
    obtain ⟨rest, hrest⟩ := List.head?_eq_some_iff.1 (of_decide_eq_true hroot)
    refine iff_of_false (fun h => ?_) (by rw [hrest, Segments.splitOn_cons_self]; simp)
    rcases List.mem_cons.1 h with h | h
    · cases h
    · exact htail _ h
  · split
    · next hhead => exact iff_of_true List.mem_cons_self hhead
    · next hhead => exact iff_of_false (htail _) hhead

theorem filter_components (p : RawPath) :
    p.components.filter (fun c => c ≠ .rootDir && c ≠ .curDir) =
      (Segments.named 0x2F 0x2E p.bytes.data.toList).map component := by
  have htail : ∀ names : List (List UInt8), (names.map component).filter
      (fun c => c ≠ .rootDir && c ≠ .curDir) = names.map component := by
    intro names
    refine List.filter_eq_self.2 fun c hc => ?_
    obtain ⟨name, -, rfl⟩ := List.mem_map.1 hc
    simp [component_ne name]
  unfold components
  split
  · rw [List.filter_cons_of_neg (by simp)]
    exact htail _
  · split
    · rw [List.filter_cons_of_neg (by simp)]
      exact htail _
    · exact htail _

/-- Spellings of one path have one normal spelling. -/
theorem normalize_eq_of_components {p q : RawPath} (h : p.components = q.components) :
    p.normalize = q.normalize := by
  have hnamed : (Segments.named 0x2F 0x2E p.bytes.data.toList).map component =
      (Segments.named 0x2F 0x2E q.bytes.data.toList).map component := by
    rw [← filter_components, h, filter_components]
  have hroot : p.hasRoot = true ↔ q.hasRoot = true := by
    rw [← rootDir_mem_components, h, rootDir_mem_components]
  refine congrArg (fun l => (⟨⟨List.toArray l⟩⟩ : RawPath)) (Segments.normalize_congr
    (List.map_injective_iff.2 component_injective hnamed) ?_ ?_)
  · rwa [hasRoot, hasRoot, decide_eq_true_eq, decide_eq_true_eq] at hroot
  · rw [← curDir_mem_components, h, curDir_mem_components]

/-! ## Text -/

theorem data_ofString (s : String) :
    (ofString s).bytes.data.toList = s.toList.flatMap String.utf8EncodeChar := by
  rw [ofString, String.toUTF8_eq_toByteArray, ← String.utf8Encode_toList, List.utf8Encode]
  simp

/-- A byte below `0x80` encodes one character. -/
theorem ascii_of_mem_utf8EncodeChar {c : Char} {b : UInt8} (h : b ∈ String.utf8EncodeChar c)
    (hb : b.toNat < 0x80) : c.toNat = b.toNat := by
  change c.val.toNat = b.toNat
  unfold String.utf8EncodeChar at h
  dsimp only at h
  split at h
  · rw [List.mem_singleton] at h
    rw [h, UInt8.toNat_ofNat']
    omega
  · split at h
    · simp only [List.mem_cons, List.not_mem_nil, or_false] at h
      rcases h with rfl | rfl
      all_goals
        rw [UInt8.toNat_ofNat'] at hb
        omega
    · split at h
      · simp only [List.mem_cons, List.not_mem_nil, or_false] at h
        rcases h with rfl | rfl | rfl
        all_goals
          rw [UInt8.toNat_ofNat'] at hb
          omega
      · simp only [List.mem_cons, List.not_mem_nil, or_false] at h
        rcases h with rfl | rfl | rfl | rfl
        all_goals
          rw [UInt8.toNat_ofNat'] at hb
          omega

/-- The normal spelling of a text is that of its characters. -/
theorem normalize_ofString (s : String) :
    (ofString s).normalize = ofString (String.ofList (Segments.normalize '/' '.' s.toList)) := by
  have honly : ∀ (c d : Char), UInt8.ofNat d.toNat ∈ String.utf8EncodeChar c → d.toNat < 0x80 →
      c = d := by
    intro c d h hd
    have hbyte : (UInt8.ofNat d.toNat).toNat = d.toNat := by
      rw [UInt8.toNat_ofNat']
      omega
    have := ascii_of_mem_utf8EncodeChar h (by omega)
    exact Char.ext (UInt32.toNat_inj.1 (this.trans hbyte))
  have hbytes : (ofString s).normalize.bytes.data.toList =
      (ofString (String.ofList (Segments.normalize '/' '.' s.toList))).bytes.data.toList := by
    rw [data_ofString, String.toList_ofList, normalize, data_ofString]
    exact Segments.normalize_flatMap (show String.utf8EncodeChar '/' = [0x2F] from rfl)
      (fun c h => honly c '/' h (by decide)) (fun c => String.utf8EncodeChar_ne_nil)
      (show String.utf8EncodeChar '.' = [0x2E] from rfl)
      (fun c h => honly c '.' h (by decide)) _
  exact congrArg (fun l => (⟨⟨List.toArray l⟩⟩ : RawPath)) hbytes

/-- Whether a text has a root is up to the first byte of its first character. -/
theorem hasRoot_ofString {s : String} :
    (ofString s).hasRoot = true ↔
      ∃ c rest, s.toList = c :: rest ∧ (String.utf8EncodeChar c).head? = some 0x2F := by
  rw [hasRoot, data_ofString, decide_eq_true_eq]
  cases h : s.toList with
  | nil => simp
  | cons c rest =>
      have hne : String.utf8EncodeChar c ≠ [] := String.utf8EncodeChar_ne_nil
      obtain ⟨b, bs, hb⟩ := List.exists_cons_of_ne_nil hne
      simp [hb]

end RawPath

/-! ## Paths -/

/-- A path as a key (`std::path::Path` with its `Eq` and `Hash`), given by its normal spelling: two
    paths are equal when their components are. The links of the kernel are spelled so already. -/
structure Path where
  raw : RawPath
  normal : raw.normalize = raw

instance : DecidableEq Path := fun p q =>
  decidable_of_iff (p.raw = q.raw) (by
    obtain ⟨p, hp⟩ := p
    obtain ⟨q, hq⟩ := q
    simp)

namespace Path

/-- The path that is spelled so. -/
def ofRaw (p : RawPath) : Path := ⟨p.normalize, p.normalize_normalize⟩

/-- `PartialEq` of `Path`. -/
theorem ofRaw_eq_iff {p q : RawPath} : ofRaw p = ofRaw q ↔ p.components = q.components := by
  constructor
  · intro h
    rw [← p.components_normalize, ← q.components_normalize]
    exact congrArg (RawPath.components ∘ raw) h
  · intro h
    simp only [ofRaw, RawPath.normalize_eq_of_components h]

@[simp] theorem ofRaw_raw (p : Path) : ofRaw p.raw = p := by
  obtain ⟨p, hp⟩ := p
  simp [ofRaw, hp]

def ofString (s : String) : Path := ofRaw (.ofString s)

example : ofString "/bin/a" = ofString "/bin//./a/" ∧ ofString "/bin/a" ≠ ofString "bin/a" := by
  decide

def toStr (p : Path) : Option String := p.raw.toStr

def toStringLossy (p : Path) : String := p.raw.toStringLossy

def hasRoot (p : Path) : Bool := p.raw.hasRoot

theorem hasRoot_ofRaw (p : RawPath) : (ofRaw p).hasRoot = p.hasRoot := p.hasRoot_normalize

theorem ofString_of_toStr {p : Path} {s : String} (h : p.toStr = some s) : ofString s = p := by
  rw [ofString, RawPath.ofString_of_toStr h, ofRaw_raw]

theorem toStringLossy_of_toStr {p : Path} {s : String} (h : p.toStr = some s) :
    p.toStringLossy = s := by
  have hraw : p.raw.toStr = some s := h
  simp [toStringLossy, RawPath.toStringLossy, hraw]

/-- Text round trip of a UTF-8 path. -/
theorem ofString_toStringLossy {p : Path} (h : p.toStr.isSome) : ofString p.toStringLossy = p := by
  obtain ⟨s, hs⟩ := Option.isSome_iff_exists.1 h
  rw [toStringLossy_of_toStr hs, ofString_of_toStr hs]

/-- The text of a path is that of its spelling in normal form. -/
theorem toStr_ofString (s : String) :
    (ofString s).toStr = some (String.ofList (Segments.normalize '/' '.' s.toList)) := by
  change (RawPath.ofString s).normalize.toStr = _
  rw [RawPath.normalize_ofString, RawPath.toStr_ofString]

/-- Byte strings compare lexicographically. -/
def compareBytes : List UInt8 → List UInt8 → Ordering
  | [], [] => .eq
  | [], _ :: _ => .lt
  | _ :: _, [] => .gt
  | a :: as, b :: bs => (compare a.toNat b.toNat).then (compareBytes as bs)

def Component.rank : Component → ℕ
  | .rootDir => 0
  | .curDir => 1
  | .parentDir => 2
  | .normal _ => 3

def Component.cmp : Component → Component → Ordering
  | .normal a, .normal b => compareBytes a b
  | a, b => compare a.rank b.rank

def compareComponents : List Component → List Component → Ordering
  | [], [] => .eq
  | [], _ :: _ => .lt
  | _ :: _, [] => .gt
  | a :: as, b :: bs => (a.cmp b).then (compareComponents as bs)

def components (p : Path) : List Component := p.raw.components

/-- The order of `Path`, by components. -/
def cmp (p q : Path) : Ordering := compareComponents p.components q.components

end Path

def RawPath.cmp (p q : RawPath) : Ordering := Path.compareComponents p.components q.components

/-! ## Ids and keys -/

inductive ExeTag : Type
inductive MapTag : Type

abbrev ExeId : Type := SlotMap.Key ExeTag
abbrev MapId : Type := SlotMap.Key MapTag

/-- Stable identifier of an executable: its path. -/
structure ExeKey where
  path : Path
deriving DecidableEq

/-- Stable identifier of a mapped file region. -/
structure MapKey where
  path : Path
  offset : UInt64
  length : UInt64
deriving DecidableEq

/-! ## Stored records -/

/-- A mapped file region. A `device` or `inode` of `0` is unknown. -/
structure MapSegment where
  path : Path
  offset : UInt64
  length : UInt64
  updateTime : UInt64
  device : UInt64
  inode : UInt64
deriving DecidableEq

/-- `MapSegment::new`: a segment without device metadata. -/
def MapSegment.new (path : Path) (offset length updateTime : UInt64) : MapSegment where
  path := path
  offset := offset
  length := length
  updateTime := updateTime
  device := 0
  inode := 0

def MapSegment.key (m : MapSegment) : MapKey := ⟨m.path, m.offset, m.length⟩

structure Exe where
  key : ExeKey
  totalRunningTime : UInt64
  lastSeenTime : Option UInt64
  running : Bool
  changeTime : UInt64
deriving DecidableEq

def Exe.new (key : ExeKey) : Exe where
  key := key
  totalRunningTime := 0
  lastSeenTime := none
  running := false
  changeTime := 0

structure MemStat where
  total : UInt64
  available : UInt64
  free : UInt64
  cached : UInt64
  pagein : ℤ
  pageout : ℤ
deriving DecidableEq

/-! ## The four states of an executable pair -/

/-- The statistics of a pair are indexed by `Fin 4`. -/
instance instNeZeroFour : NeZero 4 := ⟨by decide⟩

inductive MarkovState where
  | neither
  | aOnly
  | bOnly
  | both
deriving DecidableEq, Repr

namespace MarkovState

def fromRunning : Bool → Bool → MarkovState
  | false, false => neither
  | true, false => aOnly
  | false, true => bOnly
  | true, true => both

def index : MarkovState → Fin 4
  | neither => 0
  | aOnly => 1
  | bOnly => 2
  | both => 3

/-- The state seen with the two executables exchanged. -/
def swap : MarkovState → MarkovState
  | aOnly => bOnly
  | bOnly => aOnly
  | s => s

@[simp] theorem swap_swap (s : MarkovState) : s.swap.swap = s := by
  cases s <;> rfl

theorem swap_fromRunning (a b : Bool) : (fromRunning a b).swap = fromRunning b a := by
  cases a <;> cases b <;> rfl

end MarkovState

end PreloadNg
