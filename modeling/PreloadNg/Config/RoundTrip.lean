import PreloadNg.Config.Deserialize

set_option autoImplicit false

/-! # Writing and reading a configuration

What `Config::save` writes and `Config::load` reads back. A number of workers that is left open is not
written, and what is not written is read as the default, which is one. -/

namespace PreloadNg

variable {F32 F64 : Type}

open TomlItem

/-! ## Tables that were written -/

section Tables

variable {α : Type} {entries rest : TomlEntries F64} {names : List String} {key k : String}
  {item : TomlItem F64} {read : (String → TomlItem F64) → Option α}
  {de : TomlItem F64 → Option α} {default : α}

@[simp] theorem asStruct_table :
    asStruct names read (.table entries : TomlItem F64) = read fun name => getEntry name entries :=
  rfl

@[simp] theorem getEntry_nil : getEntry key ([] : TomlEntries F64) = .none := rfl

@[simp] theorem getEntry_cons :
    getEntry key ((k, item) :: rest) = if k = key then item else getEntry key rest := rfl

@[simp] theorem orDefault_none : orDefault (.none : TomlItem F64) de default = some default :=
  rfl

@[simp] theorem orDefault_scalar (s : TomlScalar F64) :
    (ofScalar s).orDefault de default = de (ofScalar s) :=
  rfl

@[simp] theorem orDefault_array (elems : List (Value (TomlScalar F64))) :
    orDefault (.value (.array elems) : TomlItem F64) de default = de (.value (.array elems)) :=
  rfl

@[simp] theorem orDefault_table :
    orDefault (.table entries : TomlItem F64) de default = de (.table entries) :=
  rfl

end Tables

/-! ## Values that were written -/

section Values

variable {item : TomlItem F64}

theorem asU64_ofU64 {n : UInt64} (h : ofU64 n = some item) :
    ∃ k, item = ofScalar (.integer k) ∧
      asU64 (ofScalar (.integer k) : TomlItem F64) = some n := by
  unfold ofU64 at h
  split at h
  · next hlt =>
    obtain rfl := Option.some.inj h
    refine ⟨_, rfl, ?_⟩
    change (if 0 ≤ n.toInt64.toInt then some n.toInt64.toUInt64 else none) = some n
    rw [UInt64.toUInt64_toInt64, toInt64_eq_ofNat, Int64.toInt_ofNat_of_lt hlt,
      if_pos (Int.natCast_nonneg _)]
  · cases h

theorem asU64_ofUsize {n : ℕ} (h : ofUsize n = some item) :
    ∃ k, item = ofScalar (.integer k) ∧
      asU64 (ofScalar (.integer k) : TomlItem F64) = some (UInt64.ofNat n) ∧
      (UInt64.ofNat n).toNat = n := by
  unfold ofUsize at h
  split at h
  · next hlt =>
    obtain ⟨k, hitem, hk⟩ := asU64_ofU64 h
    exact ⟨k, hitem, hk, UInt64.toNat_ofNat_of_lt' (hlt.trans (by decide))⟩
  · cases h

@[simp] theorem asI32_ofI32 (n : Int32) : asI32 (ofI32 n : TomlItem F64) = some n := by
  change (if n.toInt64.toInt32.toInt64 = n.toInt64 then some n.toInt64.toInt32 else none) = some n
  rw [Int32.toInt32_toInt64, if_pos rfl]

@[simp] theorem asStrings_ofStrings (l : List String) :
    asStrings (ofStrings l : TomlItem F64) = some l := by
  change ((l.map fun s => Value.scalar (TomlScalar.string s)).map Item.value).mapM asString = some l
  rw [List.mapM_map, List.mapM_map]
  induction l with
  | nil => rfl
  | cons s rest ih =>
      rw [List.mapM_cons, ih]
      rfl

@[simp] theorem asBool_ofBool (b : Bool) :
    asBool (ofBool b : TomlItem F64) = some b :=
  rfl

theorem asPath_ofPath {p : RawPath} (h : ofPath p = some item) :
    ∃ s, item = TomlItem.ofString s ∧
      asPath (TomlItem.ofString s : TomlItem F64) = some p := by
  obtain ⟨s, hs, rfl⟩ := Option.map_eq_some_iff.1 h
  exact ⟨s, rfl, congrArg some (RawPath.ofString_of_toStr hs)⟩

@[simp] theorem asVariant_sortStrategy (strategy : SortStrategy) :
    asVariant SortStrategy.variants (TomlItem.ofString strategy.name : TomlItem F64) =
      some strategy := by
  cases strategy <;> rfl

@[simp] theorem asVariant_prefetchBackend (backend : PrefetchBackend) :
    asVariant PrefetchBackend.variants (TomlItem.ofString backend.name : TomlItem F64) =
      some backend := by
  cases backend <;> rfl

@[simp] theorem asF32_float [Float32Ops F32] (enc : Encoding F32 F64) (x : F32) :
    asF32 enc (ofScalar (.float (enc.asF64 x))) = some x :=
  congrArg some (enc.asF32_asF64 x)

end Values

/-! ## Structs that were written -/

section Structs

variable {entries : TomlEntries F64}

@[simp] theorem MemoryPolicy.deserialize_serialize (policy : MemoryPolicy) :
    MemoryPolicy.deserialize (.table policy.serialize : TomlItem F64) =
      some policy := by
  simp [MemoryPolicy.deserialize, MemoryPolicy.serialize]

/-- What is written of an optional field: nothing, or its key with what is written of the value. -/
theorem optional_eq_some {α : Type} {key : String} {ser : α → Option (TomlItem F64)}
    {x : Option α} (h : optional key ser x = some entries) :
    (x = none ∧ entries = []) ∨
      ∃ a item, x = some a ∧ ser a = some item ∧ entries = [(key, item)] := by
  cases x with
  | none => exact Or.inl ⟨rfl, (Option.some.inj h).symm⟩
  | some a =>
      obtain ⟨item, hitem, rfl⟩ := Option.map_eq_some_iff.1 h
      exact Or.inr ⟨a, item, rfl, hitem, rfl⟩

namespace Settings

theorem Persistence.deserialize_serialize {p default : Persistence}
    (h : p.serialize = some entries) (hpath : default.statePath = none)
    (hinterval : default.autosaveInterval = none) :
    Persistence.deserialize default (.table entries) = some p := by
  obtain ⟨statePath, autosaveInterval, saveOnShutdown⟩ := p
  simp only [Persistence.serialize, Option.bind_eq_bind, Option.bind_eq_some_iff,
    Option.pure_def, Option.some.injEq] at h
  obtain ⟨paths, hpaths, intervals, hintervals, rfl⟩ := h
  rcases optional_eq_some hpaths with ⟨rfl, rfl⟩ | ⟨path, _, rfl, hser, rfl⟩
  · rcases optional_eq_some hintervals with ⟨rfl, rfl⟩ | ⟨interval, _, rfl, hser, rfl⟩
    · simp [Persistence.deserialize, hpath, hinterval]
    · obtain ⟨k, rfl, hk⟩ := asU64_ofU64 hser
      simp [Persistence.deserialize, hpath, asDuration, hk]
  · obtain ⟨s, rfl, hs⟩ := asPath_ofPath hser
    rcases optional_eq_some hintervals with ⟨rfl, rfl⟩ | ⟨interval, _, rfl, hser, rfl⟩
    · simp [Persistence.deserialize, hinterval, hs]
    · obtain ⟨k, rfl, hk⟩ := asU64_ofU64 hser
      simp [Persistence.deserialize, hs, asDuration, hk]

theorem Model.deserialize_serialize [Float32Ops F32] {enc : Encoding F32 F64}
    {m default : Model F32} (h : m.serialize enc = some entries)
    (hhalfLife : default.halfLife = none) :
    Model.deserialize enc default (.table entries) = some m := by
  obtain ⟨cycle, useCorrelation, minsize, activeWindow, halfLife, decay, memory⟩ := m
  simp only [Model.serialize, Option.bind_eq_bind, Option.bind_eq_some_iff,
    Option.pure_def, Option.some.injEq] at h
  obtain ⟨_, hcycle, _, hminsize, _, hwindow, halfLives, hhalfLives, rfl⟩ := h
  obtain ⟨_, rfl, hcycle'⟩ := asU64_ofU64 hcycle
  obtain ⟨_, rfl, hminsize'⟩ := asU64_ofU64 hminsize
  obtain ⟨_, rfl, hwindow'⟩ := asU64_ofU64 hwindow
  rcases optional_eq_some hhalfLives with ⟨rfl, rfl⟩ | ⟨secs, _, rfl, hser, rfl⟩
  · simp [Model.deserialize, asDuration, hcycle', hminsize', hwindow', hhalfLife]
  · obtain ⟨_, rfl, hsecs⟩ := asU64_ofU64 hser
    simp [Model.deserialize, asDuration, hcycle', hminsize', hwindow', hsecs]

/-- The number of workers that is read: what is left open becomes that of the default. -/
theorem System.deserialize_serialize {s default : System} (h : s.serialize = some entries) :
    System.deserialize default (.table entries) =
      some { s with
        prefetchConcurrency := s.prefetchConcurrency.or default.prefetchConcurrency } := by
  obtain ⟨doscan, dopredict, autosave, exeprefix, mapprefix, sortstrategy, concurrency, ttl,
    capacity, fanotify, backend⟩ := s
  simp only [System.serialize, Option.bind_eq_bind, Option.bind_eq_some_iff,
    Option.pure_def, Option.some.injEq] at h
  obtain ⟨_, hautosave, workers, hworkers, _, httl, _, hcapacity, rfl⟩ := h
  obtain ⟨_, rfl, hautosave'⟩ := asU64_ofU64 hautosave
  obtain ⟨_, rfl, httl', hsecs⟩ := asU64_ofUsize httl
  obtain ⟨_, rfl, hcapacity', hentries⟩ := asU64_ofUsize hcapacity
  rcases optional_eq_some hworkers with ⟨rfl, rfl⟩ | ⟨n, _, rfl, hser, rfl⟩
  · simp [System.deserialize, asDuration, asUsize, hautosave', httl', hsecs, hcapacity', hentries]
  · obtain ⟨_, rfl, hn, hcount⟩ := asU64_ofUsize hser
    simp [System.deserialize, asDuration, asUsize, hautosave', httl', hsecs, hcapacity', hentries, hn,
      hcount]

/-- The number of workers that is left open is filled in. -/
def filled (c : Settings F32) : Settings F32 :=
  { c with
    system := { c.system with prefetchConcurrency := c.system.prefetchConcurrency.or (some 1) } }

theorem deserialize_serialize [Float32Ops F32] {enc : Encoding F32 F64} {c : Settings F32}
    (h : c.serialize enc = some entries) (decay : F32) :
    deserialize enc decay (.table entries) = some c.filled := by
  simp only [serialize, Option.bind_eq_bind, Option.bind_eq_some_iff, Option.pure_def,
    Option.some.injEq] at h
  obtain ⟨model, hmodel, system, hsystem, persistence, hpersistence, rfl⟩ := h
  simp [deserialize, Model.deserialize_serialize hmodel, System.deserialize_serialize hsystem,
    Persistence.deserialize_serialize hpersistence, Settings.default, filled]

/-! ## What can be written -/

@[simp] theorem isSome_ofU64 (n : UInt64) :
    (ofU64 n : Option (TomlItem F64)).isSome = decide (n.toNat < 2 ^ 63) := by
  unfold ofU64
  split <;> simp_all

@[simp] theorem isSome_ofUsize (n : ℕ) :
    (ofUsize n : Option (TomlItem F64)).isSome = decide (n < 2 ^ 63) := by
  unfold ofUsize
  split
  · simp
    omega
  · simp_all

@[simp] theorem isSome_optional {α : Type} {key : String}
    {ser : α → Option (TomlItem F64)} {x : Option α} :
    (TomlItem.optional key ser x).isSome = x.all fun a => (ser a).isSome := by
  cases x <;> simp [TomlItem.optional]

@[simp] theorem any_const {α : Type} (x : Option α) (b : Bool) :
    (x.any fun _ => b) = (x.isSome && b) := by
  cases x <;> simp

/-- The numbers of a configuration. -/
def numbers (c : Settings F32) : List ℕ :=
  [c.model.cycle.toNat, c.model.minsize.toNat, c.model.activeWindow.toNat,
    c.system.autosave.toNat, c.system.policyCacheTtl, c.system.policyCacheCapacity] ++
  (c.model.halfLife.map UInt64.toNat).toList ++ c.system.prefetchConcurrency.toList ++
  (c.persistence.autosaveInterval.map UInt64.toNat).toList

/-- TOML has the numbers, and the state path is a text. -/
structure Writable (c : Settings F32) : Prop where
  numbers : ∀ n ∈ c.numbers, n < 2 ^ 63
  statePath : ∀ p, c.persistence.statePath = some p → p.toStr.isSome

theorem isSome_serialize_iff (enc : Encoding F32 F64) (c : Settings F32) :
    (c.serialize enc).isSome ↔ c.Writable := by
  have hsplit : c.Writable ↔ (∀ n ∈ c.numbers, n < 2 ^ 63) ∧
      ∀ p, c.persistence.statePath = some p → p.toStr.isSome :=
    ⟨fun h => ⟨h.numbers, h.statePath⟩, fun h => ⟨h.1, h.2⟩⟩
  rw [hsplit]
  simp [serialize, Model.serialize, System.serialize, Persistence.serialize, Option.isSome_bind,
    Option.all_eq_true, ofPath, numbers, or_imp, forall_and]
  tauto

/-! ## What is loaded -/

section Loaded

variable [Float32Ops F32] {enc : Encoding F32 F64} {decay : F32} {t : TomlItem F64}

theorem asStruct_eq_some {α : Type} {names : List String}
    {read : (String → TomlItem F64) → Option α} {a : α} (h : asStruct names read t = some a) :
    ∃ found, read found = some a := by
  obtain ⟨found, -, hread⟩ := Option.bind_eq_some_iff.1 h
  exact ⟨found, hread⟩

theorem orDefault_eq_some {α : Type} {de : TomlItem F64 → Option α} {default a : α}
    (h : t.orDefault de default = some a) : a = default ∨ de t = some a := by
  unfold orDefault at h
  split at h
  · exact Or.inl (Option.some.inj h).symm
  · exact Or.inr h

/-- A document never leaves the number of workers open if the default does not. -/
theorem System.concurrency_of_deserialize {default s : System}
    (hdefault : default.prefetchConcurrency ≠ none)
    (h : System.deserialize default t = some s) : s.prefetchConcurrency ≠ none := by
  obtain ⟨found, hfields⟩ := asStruct_eq_some h
  simp only [Option.bind_eq_bind, Option.bind_eq_some_iff, Option.pure_def,
    Option.some.injEq] at hfields
  obtain ⟨_, -, _, -, _, -, _, -, _, -, _, -, workers, hworkers, _, -, _, -, _, -, _, -, rfl⟩ :=
    hfields
  rcases orDefault_eq_some hworkers with heq | hitem
  · exact heq ▸ hdefault
  · obtain ⟨n, -, rfl⟩ := Option.map_eq_some_iff.1 hitem
    exact Option.some_ne_none n

theorem concurrency_of_ofDocument {entries : List (String × TomlItem F64)}
    {c : Settings F32} (h : ofDocument enc decay entries = some c) :
    c.system.prefetchConcurrency ≠ none := by
  obtain ⟨c₀, hc₀, rfl⟩ := Option.map_eq_some_iff.1 h
  obtain ⟨found, hfields⟩ := asStruct_eq_some hc₀
  simp only [Option.bind_eq_bind, Option.bind_eq_some_iff, Option.pure_def,
    Option.some.injEq] at hfields
  obtain ⟨_, -, system, hsystem, _, -, rfl⟩ := hfields
  change system.prefetchConcurrency ≠ none
  have hdefault : (Settings.default decay).system.prefetchConcurrency ≠ none :=
    Option.some_ne_none 1
  rcases orDefault_eq_some hsystem with rfl | hitem
  · exact hdefault
  · exact System.concurrency_of_deserialize hdefault hitem

end Loaded

end Settings

end Structs

/-- A configuration can be saved exactly when its numbers and its state path can be written. What was
    saved is loaded with its rules sorted, whatever the defaults, except that a number of workers that
    was left open is loaded as one: nothing that is loaded leaves it open. -/
theorem config_round_trip [Float32Ops F32] (enc : Encoding F32 F64) (decay : F32)
    (c : Settings F32) :
    ((c.serialize enc).isSome ↔ c.Writable) ∧
      (∀ entries, c.serialize enc = some entries →
        Settings.ofDocument enc decay entries = some c.filled.applyDefaults ∧
          (Settings.ofDocument enc decay entries = some c.applyDefaults ↔
            c.system.prefetchConcurrency ≠ none)) ∧
      ∀ entries loaded, Settings.ofDocument enc decay entries = some loaded →
        loaded.system.prefetchConcurrency ≠ none := by
  refine ⟨Settings.isSome_serialize_iff enc c, fun entries h => ?_,
    fun entries loaded h => Settings.concurrency_of_ofDocument h⟩
  have hload : Settings.ofDocument enc decay entries = some c.filled.applyDefaults := by
    rw [Settings.ofDocument, Settings.deserialize_serialize h, Option.map_some]
  refine ⟨hload, ?_⟩
  constructor
  · intro hsame hopen
    exact Settings.concurrency_of_ofDocument hsame hopen
  · intro hset
    have hfilled : c.filled = c := by
      obtain ⟨n, hn⟩ := Option.ne_none_iff_exists'.1 hset
      obtain ⟨model, system, persistence⟩ := c
      obtain ⟨_, _, _, _, _, _, workers, _, _, _, _⟩ := system
      obtain rfl : workers = some n := hn
      rfl
    rw [hload, hfilled]

/-- The defaults with the number of workers left open, and a document that gives the fields of a struct
    by their places. -/
theorem config_round_trip_open_workers :
    let enc : Encoding ℚ ℚ :=
      ⟨id, id, fun _ => rfl, fun _ => .error "", fun _ => .error "", fun _ => .error "",
        fun _ => .error ""⟩
    let base : Settings ℚ := Settings.default (1 / 100)
    let c : Settings ℚ := { base with system := { base.system with prefetchConcurrency := none } }
    let places : List (Value (TomlScalar ℚ)) :=
      [.scalar (.boolean true), .scalar (.boolean false), .scalar (.integer 60), .array [], .array [],
        .inlineTable [("path", .inlineTable [])]]
    ∃ entries, c.serialize enc = some entries ∧
      Settings.ofDocument enc (1 / 100) entries ≠ some c.applyDefaults ∧
      (∀ loaded, Settings.ofDocument enc (1 / 100) entries = some loaded →
        loaded.system.prefetchConcurrency = some 1) ∧
      ∃ loaded, Settings.ofDocument enc (1 / 100) [("system", .value (.array places))] = some loaded ∧
        loaded.system.sortstrategy = .path ∧ loaded.system.prefetchConcurrency ≠ none := by
  intro enc base c places
  obtain ⟨hsave, hload, hset⟩ := config_round_trip enc (1 / 100 : ℚ) c
  have hwritable : c.Writable := by
    constructor
    · decide
    · intro p hp
      cases hp
  obtain ⟨entries, hentries⟩ := Option.isSome_iff_exists.1 (hsave.2 hwritable)
  obtain ⟨hfilled, hsame⟩ := hload entries hentries
  have hplaces : (Settings.ofDocument enc (1 / 100) [("system", .value (.array places))]).any
      (fun loaded => loaded.system.sortstrategy = .path) = true := by decide +kernel
  obtain ⟨loaded, hloaded, hpath⟩ := (Option.any_eq_true _ _).1 hplaces
  refine ⟨entries, hentries, fun heq => hsame.1 heq rfl, fun loaded hloaded => ?_,
    loaded, hloaded, of_decide_eq_true hpath, hset _ loaded hloaded⟩
  obtain rfl := Option.some.inj (hfilled.symm.trans hloaded)
  rfl

end PreloadNg
