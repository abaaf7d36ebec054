import PreloadNg.Config.Merge
import PreloadNg.Config.Settings
import PreloadNg.Persistence.Repo

set_option autoImplicit false

/-! # Configuration files

A configuration is read from the items of a document and written as a document. A struct is read from
a table by the names of its fields or from an array by their places. Fields that are missing have the
value of the default, whatever is optional included; keys that nobody asks for are ignored. -/

namespace PreloadNg

variable {F32 F64 : Type}

/-- Scalars of TOML. No setting is a date or a time, so what one says is left out. -/
inductive TomlScalar (F64 : Type) where
  | string (s : String)
  | integer (n : Int64)
  | float (x : F64)
  | boolean (b : Bool)
  | datetime

abbrev TomlItem (F64 : Type) : Type := Item (TomlScalar F64)

/-! ## Deserializing -/

namespace TomlItem

def scalar : TomlItem F64 → Option (TomlScalar F64)
  | .value (.scalar s) => some s
  | _ => none

def asBool (t : TomlItem F64) : Option Bool :=
  t.scalar.bind fun
    | .boolean b => some b
    | _ => none

def asInteger (t : TomlItem F64) : Option Int64 :=
  t.scalar.bind fun
    | .integer n => some n
    | _ => none

def asString (t : TomlItem F64) : Option String :=
  t.scalar.bind fun
    | .string s => some s
    | _ => none

def asU64 (t : TomlItem F64) : Option UInt64 :=
  t.asInteger.bind fun n => if 0 ≤ n.toInt then some n.toUInt64 else none

/-- `usize` has 64 bits. -/
def asUsize (t : TomlItem F64) : Option ℕ := t.asU64.map UInt64.toNat

def asI32 (t : TomlItem F64) : Option Int32 :=
  t.asInteger.bind fun n => if n.toInt32.toInt64 = n then some n.toInt32 else none

/-- `i64 as f32`. -/
def i64AsF32 [Float32Ops F32] (n : Int64) : F32 :=
  if n.toInt < 0 then -(n.toInt.natAbs : F32) else (n.toInt.natAbs : F32)

/-- A number without a fraction is an integer in TOML. -/
def asF32 [Float32Ops F32] (enc : Encoding F32 F64) (t : TomlItem F64) : Option F32 :=
  t.scalar.bind fun
    | .float x => some (enc.asF32 x)
    | .integer n => some (i64AsF32 n)
    | _ => none

/-- `DurationSeconds`, in seconds. -/
def asDuration (t : TomlItem F64) : Option UInt64 := t.asU64

def asPath (t : TomlItem F64) : Option RawPath := t.asString.map RawPath.ofString

/-- The entries of a table, however it is written. -/
def entries? : TomlItem F64 → Option (List (String × TomlItem F64))
  | .table entries => some entries
  | .value (.inlineTable entries) => some (entries.map fun entry => (entry.1, .value entry.2))
  | _ => none

def elements? : TomlItem F64 → Option (List (TomlItem F64))
  | .value (.array elems) => some (elems.map .value)
  | .arrayOfTables tables => some (tables.map .table)
  | _ => none

def asStrings (t : TomlItem F64) : Option (List String) := t.elements?.bind fun l => l.mapM asString

/-- An empty table or array. -/
def isEmpty (t : TomlItem F64) : Bool :=
  t.entries?.any List.isEmpty || t.elements?.any List.isEmpty

/-- A variant without data is its name, or a table with its name as the only key and nothing in it. -/
def asVariant {α : Type} (variants : List (String × α)) (t : TomlItem F64) : Option α :=
  match t.asString, t.entries? with
  | some s, _ => variants.lookup s
  | none, some [(name, item)] => if item.isEmpty then variants.lookup name else none
  | none, _ => none

/-- Where the fields of a struct are: at their names in a table, at their places in an array. A date is
    read as a table in which nobody knows the key. -/
def fields? (names : List String) (t : TomlItem F64) : Option (String → TomlItem F64) :=
  match t.entries?, t.elements?, t.scalar with
  | some entries, _, _ => some fun name => getEntry name entries
  | none, some elems, _ => some fun name => elems.getD (names.idxOf name) .none
  | none, none, some .datetime => some fun _ => .none
  | none, none, _ => none

/-- A struct with the fields, in their order; `read` gets what there is at each. -/
def asStruct {α : Type} (names : List String) (read : (String → TomlItem F64) → Option α)
    (t : TomlItem F64) : Option α :=
  (t.fields? names).bind read

/-- What a field with a default makes of what it finds. -/
def orDefault {α : Type} (t : TomlItem F64) (de : TomlItem F64 → Option α) (default : α) :
    Option α :=
  match t with
  | .none => some default
  | item => de item

end TomlItem

open TomlItem

def SortStrategy.variants : List (String × SortStrategy) :=
  [("none", .none), ("path", .path), ("block", .block), ("inode", .inode)]

def PrefetchBackend.variants : List (String × PrefetchBackend) :=
  [("auto", .auto), ("readahead", .readahead), ("madvise", .madvise), ("read", .read)]

def MemoryPolicy.deserialize : TomlItem F64 → Option MemoryPolicy :=
  asStruct ["memtotal", "memavailable"] fun t => do
    let memtotal ← (t "memtotal").orDefault asI32 MemoryPolicy.default.memtotal
    let memavailable ← (t "memavailable").orDefault asI32 MemoryPolicy.default.memavailable
    return ⟨memtotal, memavailable⟩

namespace Settings

section Deserialize

variable [Float32Ops F32] (enc : Encoding F32 F64)

def Model.names : List String :=
  ["cycle", "use_correlation", "minsize", "active_window", "half_life", "decay", "memory"]

def Model.deserialize (default : Model F32) : TomlItem F64 → Option (Model F32) :=
  asStruct Model.names fun t => do
    let cycle ← (t "cycle").orDefault asDuration default.cycle
    let useCorrelation ← (t "use_correlation").orDefault asBool default.useCorrelation
    let minsize ← (t "minsize").orDefault asU64 default.minsize
    let activeWindow ← (t "active_window").orDefault asDuration default.activeWindow
    let halfLife ← (t "half_life").orDefault (fun t => t.asDuration.map some) default.halfLife
    let decay ← (t "decay").orDefault (asF32 enc) default.decay
    let memory ← (t "memory").orDefault MemoryPolicy.deserialize default.memory
    return { cycle, useCorrelation, minsize, activeWindow, halfLife, decay, memory }

def System.names : List String :=
  ["doscan", "dopredict", "autosave", "exeprefix", "mapprefix", "sortstrategy",
    "prefetch_concurrency", "policy_cache_ttl", "policy_cache_capacity", "fanotify",
    "prefetch_backend"]

def System.deserialize (default : System) : TomlItem F64 → Option System :=
  asStruct System.names fun t => do
    let doscan ← (t "doscan").orDefault asBool default.doscan
    let dopredict ← (t "dopredict").orDefault asBool default.dopredict
    let autosave ← (t "autosave").orDefault asDuration default.autosave
    let exeprefix ← (t "exeprefix").orDefault asStrings default.exeprefix
    let mapprefix ← (t "mapprefix").orDefault asStrings default.mapprefix
    let sortstrategy ←
      (t "sortstrategy").orDefault (asVariant SortStrategy.variants) default.sortstrategy
    let prefetchConcurrency ←
      (t "prefetch_concurrency").orDefault (fun t => t.asUsize.map some) default.prefetchConcurrency
    let policyCacheTtl ←
      (t "policy_cache_ttl").orDefault (fun t => t.asDuration.map UInt64.toNat) default.policyCacheTtl
    let policyCacheCapacity ←
      (t "policy_cache_capacity").orDefault asUsize default.policyCacheCapacity
    let fanotify ← (t "fanotify").orDefault asBool default.fanotify
    let prefetchBackend ←
      (t "prefetch_backend").orDefault (asVariant PrefetchBackend.variants) default.prefetchBackend
    return { doscan, dopredict, autosave, exeprefix, mapprefix, sortstrategy, prefetchConcurrency,
             policyCacheTtl, policyCacheCapacity, fanotify, prefetchBackend }

def Persistence.deserialize (default : Persistence) : TomlItem F64 → Option Persistence :=
  asStruct ["state_path", "autosave_interval", "save_on_shutdown"] fun t => do
    let statePath ← (t "state_path").orDefault (fun t => t.asPath.map some) default.statePath
    let autosaveInterval ←
      (t "autosave_interval").orDefault (fun t => t.asDuration.map some) default.autosaveInterval
    let saveOnShutdown ← (t "save_on_shutdown").orDefault asBool default.saveOnShutdown
    return { statePath, autosaveInterval, saveOnShutdown }

/-- `Config` from a document; `decay` is the default one. -/
def deserialize (decay : F32) : TomlItem F64 → Option (Settings F32) :=
  asStruct ["model", "system", "persistence"] fun t => do
    let model ← (t "model").orDefault (Model.deserialize enc (default decay).model)
      (default decay).model
    let system ← (t "system").orDefault (System.deserialize (default decay).system)
      (default decay).system
    let persistence ← (t "persistence").orDefault
      (Persistence.deserialize (default decay).persistence) (default decay).persistence
    return { model, system, persistence }

/-- `from_str` and `apply_defaults`, of a document that was parsed or merged. -/
def ofDocument (decay : F32) (entries : List (String × TomlItem F64)) : Option (Settings F32) :=
  (deserialize enc decay (.table entries)).map applyDefaults

end Deserialize

end Settings

/-! ## Serializing -/

/-- The entries of a table that is written. -/
abbrev TomlEntries (F64 : Type) : Type := List (String × TomlItem F64)

namespace TomlItem

variable {α : Type}

def ofScalar (s : TomlScalar F64) : TomlItem F64 := .value (.scalar s)

abbrev ofBool (b : Bool) : TomlItem F64 := ofScalar (.boolean b)

abbrev ofString (s : String) : TomlItem F64 := ofScalar (.string s)

/-- A `u64` that is no `i64` cannot be written. -/
def ofU64 (n : UInt64) : Option (TomlItem F64) :=
  if n.toNat < 2 ^ 63 then some (ofScalar (.integer n.toInt64)) else none

def ofUsize (n : ℕ) : Option (TomlItem F64) :=
  if n < 2 ^ 63 then ofU64 (UInt64.ofNat n) else none

abbrev ofI32 (n : Int32) : TomlItem F64 := ofScalar (.integer n.toInt64)

abbrev ofStrings (l : List String) : TomlItem F64 :=
  .value (.array (l.map fun s => .scalar (.string s)))

def ofPath (p : RawPath) : Option (TomlItem F64) := p.toStr.map ofString

/-- A field that is `None` is not written. -/
def optional (key : String) (ser : α → Option (TomlItem F64)) :
    Option α → Option (TomlEntries F64)
  | none => some []
  | some a => (ser a).map fun item => [(key, item)]

end TomlItem

open TomlItem

def SortStrategy.name : SortStrategy → String
  | .none => "none"
  | .path => "path"
  | .block => "block"
  | .inode => "inode"

def PrefetchBackend.name : PrefetchBackend → String
  | .auto => "auto"
  | .readahead => "readahead"
  | .madvise => "madvise"
  | .read => "read"

def MemoryPolicy.serialize (policy : MemoryPolicy) : TomlEntries F64 :=
  [("memtotal", ofI32 policy.memtotal), ("memavailable", ofI32 policy.memavailable)]

namespace Settings

def Model.serialize (enc : Encoding F32 F64) (m : Model F32) : Option (TomlEntries F64) := do
  let cycle ← ofU64 m.cycle
  let minsize ← ofU64 m.minsize
  let activeWindow ← ofU64 m.activeWindow
  let halfLife ← optional "half_life" ofU64 m.halfLife
  return [("cycle", cycle), ("use_correlation", ofBool m.useCorrelation), ("minsize", minsize),
      ("active_window", activeWindow)] ++ halfLife ++
    [("decay", ofScalar (.float (enc.asF64 m.decay))), ("memory", .table m.memory.serialize)]

def System.serialize (s : System) : Option (TomlEntries F64) := do
  let autosave ← ofU64 s.autosave
  let concurrency ← optional "prefetch_concurrency" ofUsize s.prefetchConcurrency
  let ttl ← ofUsize s.policyCacheTtl
  let capacity ← ofUsize s.policyCacheCapacity
  return [("doscan", ofBool s.doscan), ("dopredict", ofBool s.dopredict), ("autosave", autosave),
      ("exeprefix", ofStrings s.exeprefix), ("mapprefix", ofStrings s.mapprefix),
      ("sortstrategy", TomlItem.ofString s.sortstrategy.name)] ++ concurrency ++
    [("policy_cache_ttl", ttl), ("policy_cache_capacity", capacity),
      ("fanotify", ofBool s.fanotify), ("prefetch_backend", TomlItem.ofString s.prefetchBackend.name)]

def Persistence.serialize (p : Persistence) : Option (TomlEntries F64) := do
  let statePath ← optional "state_path" ofPath p.statePath
  let autosaveInterval ← optional "autosave_interval" ofU64 p.autosaveInterval
  return statePath ++ autosaveInterval ++ [("save_on_shutdown", ofBool p.saveOnShutdown)]

/-- The document that `Config::save` writes; it fails on what TOML cannot express. -/
def serialize (enc : Encoding F32 F64) (c : Settings F32) : Option (TomlEntries F64) := do
  let model ← c.model.serialize enc
  let system ← c.system.serialize
  let persistence ← c.persistence.serialize
  return [("model", .table model), ("system", .table system), ("persistence", .table persistence)]

end Settings

end PreloadNg
