import PreloadNg.Domain
import PreloadNg.Lib.KeyedStore
import Mathlib.Data.List.Sort

set_option autoImplicit false

/-! # The executable store and the map store

Both are slot maps with a key index. Executables are never removed, so their slot map has no
vacant slot: iteration follows insertion and ids increase with it. -/

namespace PreloadNg

/-! ## Executables -/

structure ExeStore where
  base : KeyedStore ExeTag ExeKey Exe Exe.key
  /-- No executable is ever removed. -/
  dense : base.slots.free = []

namespace ExeStore

instance : DecidableEq ExeStore := fun a b =>
  decidable_of_iff (a.base = b.base) (by cases a; cases b; simp)

def empty : ExeStore := ⟨∅, rfl⟩

instance : EmptyCollection ExeStore := ⟨empty⟩

def ensure (s : ExeStore) (key : ExeKey) : ExeStore × ExeId :=
  (⟨(s.base.ensure (Exe.new key)).1, by
      rcases s.base.ensure_cases (Exe.new key) with ⟨id, -, h⟩ | ⟨-, -, hslots⟩
      · rw [h]
        exact s.dense
      · rw [hslots]
        exact s.base.slots.insert_free_of_free_nil _ s.dense⟩,
   (s.base.ensure (Exe.new key)).2.1)

def get? (s : ExeStore) (id : ExeId) : Option Exe := s.base.get? id

/-- Write through `get_mut`; the key of an executable never changes. -/
def modify (s : ExeStore) (id : ExeId) (f : Exe → Exe) (hf : ∀ e, (f e).key = e.key) : ExeStore :=
  ⟨s.base.modify id f hf, (s.base.slots.modify_free id f).trans s.dense⟩

def idByKey (s : ExeStore) (key : ExeKey) : Option ExeId := s.base.idByKey key

/-- The executable with a key. -/
def lookup (s : ExeStore) (key : ExeKey) : Option Exe := s.base.lookup key

def iter (s : ExeStore) : List (ExeId × Exe) := s.base.iter

/-- The ids a loop over the store collects first. -/
def ids (s : ExeStore) : List ExeId := s.base.ids

@[simp] theorem get?_empty (id : ExeId) : (∅ : ExeStore).get? id = none := rfl

theorem idByKey_eq_some {s : ExeStore} {key : ExeKey} {id : ExeId} :
    s.idByKey key = some id ↔ ∃ e, s.get? id = some e ∧ e.key = key :=
  KeyedStore.idByKey_eq_some

theorem idByKey_of_get? {s : ExeStore} {id : ExeId} {e : Exe} (h : s.get? id = some e) :
    s.idByKey e.key = some id :=
  KeyedStore.idByKey_of_get? h

theorem lookup_eq_some {s : ExeStore} {key : ExeKey} {e : Exe} :
    s.lookup key = some e ↔ ∃ id, s.get? id = some e ∧ e.key = key :=
  KeyedStore.lookup_eq_some

theorem lookup_eq_none {s : ExeStore} {key : ExeKey} :
    s.lookup key = none ↔ s.idByKey key = none :=
  KeyedStore.lookup_eq_none

theorem id_unique {s : ExeStore} {i j : ExeId} {x y : Exe} (hi : s.get? i = some x)
    (hj : s.get? j = some y) (h : x.key = y.key) : i = j :=
  KeyedStore.id_unique hi hj h

theorem idByKey_inj {s : ExeStore} {k l : ExeKey} {id : ExeId} (hk : s.idByKey k = some id)
    (hl : s.idByKey l = some id) : k = l :=
  KeyedStore.idByKey_inj hk hl

theorem mem_iter (s : ExeStore) (id : ExeId) (e : Exe) : (id, e) ∈ s.iter ↔ s.get? id = some e :=
  s.base.mem_iter id e

theorem mem_ids (s : ExeStore) (id : ExeId) : id ∈ s.ids ↔ ∃ e, s.get? id = some e :=
  s.base.mem_ids id

theorem ids_nodup (s : ExeStore) : s.ids.Nodup := s.base.ids_nodup

theorem iter_map_fst (s : ExeStore) : s.iter.map Prod.fst = s.ids := rfl

theorem get?_ensure_iff (s : ExeStore) (key : ExeKey) (id : ExeId) (e : Exe) :
    (s.ensure key).1.get? id = some e ↔
      s.get? id = some e ∨
        (s.idByKey key = none ∧ id = (s.ensure key).2 ∧ e = Exe.new key) :=
  s.base.get?_ensure_iff (Exe.new key) id e

theorem get?_ensure_of_some {s : ExeStore} {id : ExeId} {e : Exe} (h : s.get? id = some e)
    (key : ExeKey) : (s.ensure key).1.get? id = some e :=
  KeyedStore.get?_ensure_of_some h (Exe.new key)

theorem get?_ensure_id (s : ExeStore) (key : ExeKey) :
    ∃ e, (s.ensure key).1.get? (s.ensure key).2 = some e ∧ e.key = key :=
  s.base.get?_ensure_id (Exe.new key)

theorem idByKey_ensure (s : ExeStore) (key k : ExeKey) :
    (s.ensure key).1.idByKey k = if k = key then some (s.ensure key).2 else s.idByKey k :=
  s.base.idByKey_ensure (Exe.new key) k

theorem get?_modify (s : ExeStore) (id : ExeId) (f : Exe → Exe) (hf : ∀ e, (f e).key = e.key)
    (j : ExeId) :
    (s.modify id f hf).get? j = if j = id then (s.get? id).map f else s.get? j :=
  s.base.get?_modify id f hf j

theorem ensure_eq_self {s : ExeStore} {key : ExeKey} {id : ExeId} (h : s.idByKey key = some id) :
    s.ensure key = (s, id) := by
  obtain ⟨base, hdense⟩ := s
  simp only [ensure, KeyedStore.ensure_eq_self (x := Exe.new key) h]

theorem modify_eq_self {s : ExeStore} {id : ExeId} {f : Exe → Exe}
    (hf : ∀ e, (f e).key = e.key) (h : ∀ e, s.get? id = some e → f e = e) :
    s.modify id f hf = s := by
  obtain ⟨base, hdense⟩ := s
  simp only [modify, KeyedStore.modify_eq_self hf h]

@[simp] theorem idByKey_modify (s : ExeStore) (id : ExeId) (f : Exe → Exe)
    (hf : ∀ e, (f e).key = e.key) (key : ExeKey) :
    (s.modify id f hf).idByKey key = s.idByKey key :=
  rfl

/-- A new executable is appended to the iteration. -/
theorem iter_ensure_new (s : ExeStore) (key : ExeKey) (h : s.idByKey key = none) :
    (s.ensure key).1.iter = s.iter ++ [((s.ensure key).2, Exe.new key)] := by
  rcases s.base.ensure_cases (Exe.new key) with ⟨id, hid, -⟩ | ⟨-, h2, hslots⟩
  · exact absurd (h.symm.trans hid) (by simp)
  · show (s.base.ensure (Exe.new key)).1.slots.iter = _
    rw [hslots, SlotMap.iter_insert_of_free_nil _ _ s.dense]
    show _ = s.base.slots.iter ++ [((s.base.ensure (Exe.new key)).2.1, Exe.new key)]
    rw [h2]

/-- Iteration visits the ids in increasing order. -/
theorem iter_sorted (s : ExeStore) : s.iter.Pairwise fun a b => a.1 < b.1 :=
  s.base.slots.iter_sorted

/-! ### Rewriting every executable -/

/-- Visit the ids of a list in order and rewrite the executable under each. -/
def modifyEach (s : ExeStore) (ids : List ExeId) (f : Exe → Exe) (hf : ∀ e, (f e).key = e.key) :
    ExeStore :=
  ids.foldl (fun t id => t.modify id f hf) s

theorem modifyEach_base (ids : List ExeId) (s : ExeStore) {f : Exe → Exe}
    (hf : ∀ e, (f e).key = e.key) :
    (s.modifyEach ids f hf).base = s.base.modifyEach ids f hf := by
  unfold modifyEach KeyedStore.modifyEach
  induction ids generalizing s with
  | nil => rfl
  | cons id rest ih => exact ih (s.modify id f hf)

theorem get?_modifyEach_ids (s : ExeStore) {f : Exe → Exe} (hf : ∀ e, (f e).key = e.key)
    (id : ExeId) : (s.modifyEach s.ids f hf).get? id = (s.get? id).map f := by
  rw [get?, modifyEach_base]
  exact s.base.get?_modifyEach_ids hf id

/-- A rewriting of every executable, read by key. -/
theorem lookup_of_get?_map {s t : ExeStore} {f : Exe → Exe} (hf : ∀ e, (f e).key = e.key)
    (h : ∀ id, t.get? id = (s.get? id).map f) (key : ExeKey) :
    t.lookup key = (s.lookup key).map f := by
  refine Option.ext fun e => ?_
  simp only [lookup_eq_some, Option.map_eq_some_iff, h]
  constructor
  · rintro ⟨id, ⟨e₀, he₀, rfl⟩, hkey⟩
    exact ⟨e₀, ⟨id, he₀, (hf e₀).symm.trans hkey⟩, rfl⟩
  · rintro ⟨e₀, ⟨id, he₀, hkey⟩, rfl⟩
    exact ⟨id, ⟨e₀, he₀, rfl⟩, (hf e₀).trans hkey⟩

/-- A rewriting of every executable keeps the ids of the keys. -/
theorem idByKey_of_get?_map {s t : ExeStore} {f : Exe → Exe} (hf : ∀ e, (f e).key = e.key)
    (h : ∀ id, t.get? id = (s.get? id).map f) (key : ExeKey) : t.idByKey key = s.idByKey key := by
  refine Option.ext fun id => ?_
  simp only [idByKey_eq_some, h, Option.map_eq_some_iff]
  constructor
  · rintro ⟨_, ⟨e, he, rfl⟩, hkey⟩
    exact ⟨e, he, (hf e).symm.trans hkey⟩
  · rintro ⟨e, he, hkey⟩
    exact ⟨_, ⟨e, he, rfl⟩, (hf e).trans hkey⟩

/-! ### The keys in the order of the ids -/

/-- The keys of the stored executables, oldest id first. -/
def keys (s : ExeStore) : List ExeKey := s.iter.map fun row => row.2.key

theorem mem_keys {s : ExeStore} {key : ExeKey} : key ∈ s.keys ↔ ∃ id, s.idByKey key = some id := by
  simp only [keys, List.mem_map, Prod.exists, mem_iter, idByKey_eq_some]

theorem keys_getElem? {s : ExeStore} {i : ℕ} {key : ExeKey} (h : s.keys[i]? = some key) :
    ∃ id e, s.iter[i]? = some (id, e) ∧ s.idByKey key = some id := by
  rw [keys, List.getElem?_map, Option.map_eq_some_iff] at h
  obtain ⟨⟨id, e⟩, hi, rfl⟩ := h
  exact ⟨id, e, hi, idByKey_of_get? ((s.mem_iter id e).1 (List.mem_of_getElem? hi))⟩

/-- Ids are ordered as their keys are listed. -/
theorem lt_iff_of_keys {s : ExeStore} {i j : ℕ} {k l : ExeKey} {a b : ExeId}
    (hi : s.keys[i]? = some k) (hj : s.keys[j]? = some l) (ha : s.idByKey k = some a)
    (hb : s.idByKey l = some b) : a < b ↔ i < j := by
  have hsorted := List.pairwise_iff_getElem.1 s.iter_sorted
  have hmono : ∀ {i j : ℕ} {k l : ExeKey} {a b : ExeId}, s.keys[i]? = some k →
      s.keys[j]? = some l → s.idByKey k = some a → s.idByKey l = some b → i < j → a < b := by
    intro i j k l a b hi hj ha hb hij
    obtain ⟨a', x, hix, ha'⟩ := keys_getElem? hi
    obtain ⟨b', y, hjy, hb'⟩ := keys_getElem? hj
    obtain rfl := Option.some.inj (ha'.symm.trans ha)
    obtain rfl := Option.some.inj (hb'.symm.trans hb)
    obtain ⟨hilt, hi'⟩ := List.getElem?_eq_some_iff.1 hix
    obtain ⟨hjlt, hj'⟩ := List.getElem?_eq_some_iff.1 hjy
    have := hsorted i j hilt hjlt hij
    rwa [hi', hj'] at this
  constructor
  · intro hab
    by_contra hle
    rcases Nat.lt_or_eq_of_le (not_lt.1 hle) with hji | rfl
    · exact absurd (hmono hj hi hb ha hji) (not_lt.2 (le_of_lt hab))
    · obtain rfl := Option.some.inj (hi.symm.trans hj)
      obtain rfl := Option.some.inj (ha.symm.trans hb)
      exact absurd hab (lt_irrefl a)
  · exact hmono hi hj ha hb

/-- Stores that list the same keys order their ids alike. -/
theorem lt_iff_lt_of_keys {s t : ExeStore} (h : s.keys = t.keys) {k l : ExeKey} {a b a' b' : ExeId}
    (ha : s.idByKey k = some a) (hb : s.idByKey l = some b) (ha' : t.idByKey k = some a')
    (hb' : t.idByKey l = some b') : a < b ↔ a' < b' := by
  obtain ⟨i, hi⟩ := List.mem_iff_getElem?.1 (mem_keys.2 ⟨a, ha⟩)
  obtain ⟨j, hj⟩ := List.mem_iff_getElem?.1 (mem_keys.2 ⟨b, hb⟩)
  rw [lt_iff_of_keys hi hj ha hb, lt_iff_of_keys (h ▸ hi) (h ▸ hj) ha' hb']

theorem keys_nodup (s : ExeStore) : s.keys.Nodup := s.base.keys_nodup

theorem keys_eq (s : ExeStore) :
    s.keys = s.ids.filterMap fun id => (s.get? id).map Exe.key := by
  rw [← iter_map_fst, List.filterMap_map, keys, ← List.filterMap_eq_map]
  refine List.filterMap_congr ?_
  rintro ⟨id, e⟩ hmem
  simp [(s.mem_iter id e).1 hmem]

/-- The list of keys depends on the keys stored under each id only. -/
theorem keys_congr {s t : ExeStore}
    (h : ∀ id, (s.get? id).map Exe.key = (t.get? id).map Exe.key) : s.keys = t.keys := by
  have hsorted : ∀ u : ExeStore, u.ids.SortedLT := fun u =>
    (List.pairwise_map.2 u.iter_sorted).sortedLT
  have hids : s.ids = t.ids := by
    have hlive : ∀ (u : ExeStore) id, id ∈ u.ids ↔ ((u.get? id).map Exe.key).isSome := by
      intro u id
      rw [mem_ids, Option.isSome_map, Option.isSome_iff_exists]
    refine (hsorted s).eq_of_mem_iff (hsorted t) fun id => ?_
    rw [hlive, hlive, h]
  rw [keys_eq, keys_eq, hids]
  exact List.filterMap_congr fun id _ => h id

theorem keys_ensure_new (s : ExeStore) (key : ExeKey) (h : s.idByKey key = none) :
    (s.ensure key).1.keys = s.keys ++ [key] := by
  rw [keys, iter_ensure_new s key h, List.map_append]
  rfl

/-! ### Storing and rewriting under a key -/

/-- Read by key, `ensure` followed by a write through the returned id. -/
theorem lookup_upsert (s : ExeStore) (key : ExeKey) (f : Exe → Exe) (hf : ∀ e, (f e).key = e.key)
    (k : ExeKey) :
    ((s.ensure key).1.modify (s.ensure key).2 f hf).lookup k =
      if k = key then some (f ((s.lookup k).getD (Exe.new key))) else s.lookup k := by
  have hid : (s.ensure key).1.base.idByKey key = some (s.ensure key).2 := by
    have h := s.idByKey_ensure key key
    rwa [if_pos rfl] at h
  refine ((s.ensure key).1.base.lookup_modify hid f hf k).trans ?_
  have hensure : (s.ensure key).1.base.lookup k =
      if k = key then some ((s.lookup k).getD (Exe.new key)) else s.lookup k :=
    s.base.lookup_ensure (Exe.new key) k
  rw [hensure]
  split <;> rfl

/-- A write through the returned id leaves the list of keys to `ensure`. -/
theorem keys_upsert_new (s : ExeStore) (key : ExeKey) (f : Exe → Exe)
    (hf : ∀ e, (f e).key = e.key) (h : s.idByKey key = none) :
    ((s.ensure key).1.modify (s.ensure key).2 f hf).keys = s.keys ++ [key] := by
  rw [← keys_ensure_new s key h]
  refine keys_congr fun id => ?_
  rw [get?_modify]
  split
  · next hid =>
      subst hid
      rw [Option.map_map]
      exact congrFun (congrArg Option.map (funext hf)) _
  · rfl

end ExeStore

/-! ## Map segments -/

abbrev MapStore : Type := KeyedStore MapTag MapKey MapSegment MapSegment.key

end PreloadNg
