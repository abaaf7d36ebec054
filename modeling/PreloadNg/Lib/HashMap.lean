import Mathlib.Data.List.AList
import Mathlib.Data.List.Induction

set_option autoImplicit false

/-! # Hash maps and hash sets

`FxHashMap K V` is an association list without repeated keys (`AList`), `FxHashSet K` a map to
`Unit`. Overwriting an entry keeps its place. The order of the list stands for *some* iteration
order only: code that iterates a container takes its order from a `HashOrder`, so a theorem over
all `HashOrder`s is a theorem over all iteration orders. -/

namespace PreloadNg

/-- One choice of iteration order for every hash container: an arbitrary permutation of its
    entries. -/
structure HashOrder where
  enum : ∀ {α : Type}, List α → List α
  perm : ∀ {α : Type} (l : List α), (enum l).Perm l

/-- Iterate in insertion order. -/
def HashOrder.insertion : HashOrder where
  enum l := l
  perm _ := List.Perm.refl _

/-- Iterate in reverse insertion order. -/
def HashOrder.reverse : HashOrder where
  enum l := l.reverse
  perm l := l.reverse_perm

@[simp] theorem HashOrder.mem_enum (ord : HashOrder) {α : Type} (l : List α) (a : α) :
    a ∈ ord.enum l ↔ a ∈ l :=
  (ord.perm l).mem_iff

theorem HashOrder.nodup_enum (ord : HashOrder) {α : Type} {l : List α} (h : l.Nodup) :
    (ord.enum l).Nodup :=
  (ord.perm l).nodup_iff.2 h

/-- Every order of a container is an iteration order. -/
theorem HashOrder.exists_enum {α : Type} {l l' : List α} (h : l'.Perm l) :
    ∃ ord : HashOrder, ord.enum l = l' := by
  classical
  let pick {β : Type} (m : List β) : List β :=
    if hm : ∃ eq : α = β, cast (congrArg List eq) l = m then cast (congrArg List hm.choose) l'
    else m
  have hpick : ∀ {β : Type} (m : List β), (pick m).Perm m := by
    intro β m
    by_cases hm : ∃ eq : α = β, cast (congrArg List eq) l = m
    · obtain ⟨rfl, rfl⟩ := hm
      simpa [pick] using h
    · simp [pick, hm]
  refine ⟨⟨pick, hpick⟩, ?_⟩
  show pick l = l'
  simp [pick]

/-! ## Maps -/

/-- A finite map with at most one value per key. -/
structure FxHashMap (K V : Type) where
  table : AList (fun _ : K => V)

instance {K V : Type} [DecidableEq K] [DecidableEq V] : DecidableEq (FxHashMap K V) :=
  fun a b => decidable_of_iff (a.table = b.table) (by cases a; cases b; simp)

namespace FxHashMap

variable {K V : Type}

instance : EmptyCollection (FxHashMap K V) := ⟨⟨∅⟩⟩

/-- The entries, in the order of the table. -/
def iter (m : FxHashMap K V) : List (K × V) := m.table.entries.map fun e => (e.1, e.2)

/-- The keys, in the order of the table. -/
def keys (m : FxHashMap K V) : List K := m.table.keys

/-- Keep the entries that satisfy `p`. -/
def retain (m : FxHashMap K V) (p : K → V → Bool) : FxHashMap K V :=
  ⟨⟨m.table.entries.filter fun e => p e.1 e.2,
    (List.NodupKeys.sublist (List.filter_sublist) m.table.nodupKeys)⟩⟩

variable [DecidableEq K]

def get? (m : FxHashMap K V) (k : K) : Option V := m.table.lookup k

/-- Insert or overwrite; an overwritten entry keeps its place. -/
def insert (m : FxHashMap K V) (k : K) (v : V) : FxHashMap K V :=
  ⟨if k ∈ m.table then m.table.replace k v else AList.insert k v m.table⟩

def remove (m : FxHashMap K V) (k : K) : FxHashMap K V := ⟨m.table.erase k⟩

/-- `entry(k)`, the default `d` when absent, then write `f` of the value. -/
def modifyEntry (m : FxHashMap K V) (k : K) (d : V) (f : V → V) : FxHashMap K V :=
  m.insert k (f ((m.get? k).getD d))

/-! ## Lookups after each operation -/

@[simp] theorem get?_empty (k : K) : (∅ : FxHashMap K V).get? k = none :=
  AList.lookup_empty k

theorem mem_iter (m : FxHashMap K V) (k : K) (v : V) :
    (k, v) ∈ m.iter ↔ m.get? k = some v := by
  rw [get?, ← Option.mem_def, AList.mem_lookup_iff]
  simp only [iter, List.mem_map, Prod.mk.injEq]
  constructor
  · rintro ⟨⟨k', v'⟩, hmem, rfl, rfl⟩
    exact hmem
  · exact fun hmem => ⟨⟨k, v⟩, hmem, rfl, rfl⟩

theorem mem_keys (m : FxHashMap K V) (k : K) : k ∈ m.keys ↔ (m.get? k).isSome := by
  rw [keys, ← AList.mem_keys, get?, AList.lookup_isSome]

omit [DecidableEq K] in
theorem keys_nodup (m : FxHashMap K V) : m.keys.Nodup := m.table.keys_nodup

omit [DecidableEq K] in
theorem iter_map_fst (m : FxHashMap K V) : m.iter.map Prod.fst = m.keys := by
  simp only [iter, keys, AList.keys, List.keys, List.map_map]
  rfl

theorem lookup_replace (t : AList (fun _ : K => V)) (k : K) (v : V) (a : K) (h : k ∈ t) :
    (t.replace k v).lookup a = if a = k then some v else t.lookup a := by
  obtain ⟨l, hl⟩ := t
  simp only [AList.lookup, AList.replace]
  rw [AList.mem_mk] at h
  induction l with
  | nil => simp at h
  | cons e rest ih =>
      obtain ⟨k', v'⟩ := e
      rw [List.nodupKeys_cons] at hl
      by_cases hk : k = k'
      · subst hk
        by_cases ha : a = k
        · subst ha
          simp [List.kreplace]
        · simp [List.kreplace, ha, List.dlookup_cons_ne]
      · have hrest : k ∈ rest.keys := by
          simpa [hk] using h
        have hstep : List.kreplace k v (⟨k', v'⟩ :: rest) = ⟨k', v'⟩ :: List.kreplace k v rest := by
          exact List.lookmap_cons_none _ _ (by rw [if_neg hk])
        rw [hstep]
        by_cases ha : a = k'
        · subst ha
          rw [List.dlookup_cons_eq, if_neg (fun h => hk h.symm), List.dlookup_cons_eq]
        · rw [List.dlookup_cons_ne _ _ ha, List.dlookup_cons_ne _ _ ha]
          exact ih hl.2 hrest

theorem get?_insert (m : FxHashMap K V) (k : K) (v : V) (a : K) :
    (m.insert k v).get? a = if a = k then some v else m.get? a := by
  simp only [get?, insert]
  split
  · next h => exact lookup_replace m.table k v a h
  · by_cases ha : a = k
    · subst ha
      simp
    · rw [if_neg ha, AList.lookup_insert_ne ha]

@[simp] theorem get?_insert_self (m : FxHashMap K V) (k : K) (v : V) :
    (m.insert k v).get? k = some v := by
  rw [get?_insert, if_pos rfl]

theorem get?_insert_ne (m : FxHashMap K V) (v : V) {k a : K} (h : a ≠ k) :
    (m.insert k v).get? a = m.get? a := by
  rw [get?_insert, if_neg h]

theorem get?_remove (m : FxHashMap K V) (k a : K) :
    (m.remove k).get? a = if a = k then none else m.get? a := by
  simp only [get?, remove]
  by_cases ha : a = k
  · subst ha
    simp
  · rw [if_neg ha, AList.lookup_erase_ne ha]

theorem get?_modifyEntry (m : FxHashMap K V) (k : K) (d : V) (f : V → V) (a : K) :
    (m.modifyEntry k d f).get? a = if a = k then some (f ((m.get? k).getD d)) else m.get? a :=
  get?_insert m k _ a

theorem get?_retain (m : FxHashMap K V) (p : K → V → Bool) (k : K) :
    (m.retain p).get? k = (m.get? k).filter (p k) := by
  refine Option.ext fun v => ?_
  rw [← mem_iter, Option.filter_eq_some_iff, ← mem_iter]
  simp only [iter, retain, List.mem_map, List.mem_filter, Prod.mk.injEq]
  constructor
  · rintro ⟨⟨k', v'⟩, ⟨hmem, hp⟩, rfl, rfl⟩
    exact ⟨⟨_, hmem, rfl, rfl⟩, hp⟩
  · rintro ⟨⟨⟨k', v'⟩, hmem, rfl, rfl⟩, hp⟩
    exact ⟨_, ⟨hmem, hp⟩, rfl, rfl⟩

/-- Overwriting an entry with its own value changes nothing, the order included. -/
theorem insert_eq_self {m : FxHashMap K V} {k : K} {v : V} (h : m.get? k = some v) :
    m.insert k v = m := by
  obtain ⟨t⟩ := m
  have hmem : k ∈ t := AList.lookup_isSome.1 (Option.isSome_of_mem h)
  have hentry : Sigma.mk k v ∈ t.entries := AList.mem_lookup_iff.1 h
  rw [insert, if_pos hmem]
  exact congrArg FxHashMap.mk (AList.ext (List.kreplace_self t.nodupKeys hentry))

theorem retain_eq_self {m : FxHashMap K V} {p : K → V → Bool}
    (h : ∀ k v, m.get? k = some v → p k v = true) : m.retain p = m := by
  obtain ⟨t⟩ := m
  refine congrArg FxHashMap.mk (AList.ext (List.filter_eq_self.2 fun e he => ?_))
  exact h e.1 e.2 (AList.mem_lookup_iff.2 he)

/-- A map that is filled from rows with distinct keys. -/
theorem get?_foldl_insert {ρ : Type} (key : ρ → K) (val : ρ → V) {rows : List ρ}
    (hnodup : (rows.map key).Nodup) (k : K) (v : V) :
    (rows.foldl (fun m row => m.insert (key row) (val row)) (∅ : FxHashMap K V)).get? k = some v ↔
      ∃ row ∈ rows, key row = k ∧ val row = v := by
  induction rows using List.reverseRecOn with
  | nil => simp
  | append_singleton rows row ih =>
      rw [List.map_append, List.nodup_append] at hnodup
      obtain ⟨hrows, -, hnew⟩ := hnodup
      rw [List.foldl_append, List.foldl_cons, List.foldl_nil, get?_insert]
      by_cases hk : k = key row
      · subst hk
        -- the last row has a key of its own
        have hother : ∀ row' ∈ rows, key row' ≠ key row := fun row' hmem =>
          hnew _ (List.mem_map_of_mem hmem) _ (by simp)
        rw [if_pos rfl, Option.some.injEq]
        constructor
        · intro hv
          exact ⟨row, by simp, rfl, hv⟩
        · intro ⟨row', hmem, hkey, hv⟩
          rcases List.mem_append.1 hmem with hmem | hmem
          · exact absurd hkey (hother row' hmem)
          · rwa [List.mem_singleton.1 hmem] at hv
      · rw [if_neg hk, ih hrows]
        constructor
        · intro ⟨row', hmem, hrow⟩
          exact ⟨row', List.mem_append_left _ hmem, hrow⟩
        · intro ⟨row', hmem, hkey, hv⟩
          rcases List.mem_append.1 hmem with hmem | hmem
          · exact ⟨row', hmem, hkey, hv⟩
          · rw [List.mem_singleton.1 hmem] at hkey
            exact absurd hkey.symm hk

end FxHashMap

/-! ## Sets -/

/-- A finite set, as the map from its elements to `()`. -/
structure FxHashSet (K : Type) where
  map : FxHashMap K Unit

instance {K : Type} [DecidableEq K] : DecidableEq (FxHashSet K) :=
  fun a b => decidable_of_iff (a.map = b.map) (by cases a; cases b; simp)

namespace FxHashSet

variable {K : Type}

instance : EmptyCollection (FxHashSet K) := ⟨⟨∅⟩⟩

/-- The elements, in the order of the table. -/
def iter (s : FxHashSet K) : List K := s.map.keys

instance : Membership K (FxHashSet K) := ⟨fun s a => a ∈ s.iter⟩

def isEmpty (s : FxHashSet K) : Bool := s.iter.isEmpty

theorem mem_iter (s : FxHashSet K) (a : K) : a ∈ s.iter ↔ a ∈ s := Iff.rfl

theorem iter_nodup (s : FxHashSet K) : s.iter.Nodup := s.map.keys_nodup

theorem isEmpty_iff (s : FxHashSet K) : s.isEmpty = true ↔ ∀ a, a ∉ s := by
  rw [isEmpty, List.isEmpty_iff, List.eq_nil_iff_forall_not_mem]
  rfl

variable [DecidableEq K]

instance (a : K) (s : FxHashSet K) : Decidable (a ∈ s) :=
  inferInstanceAs (Decidable (a ∈ s.iter))

def insert (s : FxHashSet K) (a : K) : FxHashSet K := ⟨s.map.insert a ()⟩

def remove (s : FxHashSet K) (a : K) : FxHashSet K := ⟨s.map.remove a⟩

@[simp] theorem not_mem_empty (a : K) : a ∉ (∅ : FxHashSet K) := by
  rw [← mem_iter, iter, FxHashMap.mem_keys]
  simp [EmptyCollection.emptyCollection, FxHashMap.get?, AList.lookup]

@[simp] theorem mem_insert (s : FxHashSet K) (a b : K) : b ∈ s.insert a ↔ b = a ∨ b ∈ s := by
  rw [← mem_iter, ← mem_iter, iter, iter, FxHashMap.mem_keys, FxHashMap.mem_keys, insert,
    FxHashMap.get?_insert]
  split <;> simp [*]

@[simp] theorem mem_remove (s : FxHashSet K) (a b : K) : b ∈ s.remove a ↔ b ≠ a ∧ b ∈ s := by
  rw [← mem_iter, ← mem_iter, iter, iter, FxHashMap.mem_keys, FxHashMap.mem_keys, remove,
    FxHashMap.get?_remove]
  split <;> simp [*]

theorem insert_eq_self {s : FxHashSet K} {a : K} (h : a ∈ s) : s.insert a = s := by
  obtain ⟨m⟩ := s
  obtain ⟨⟨⟩, hget⟩ := Option.isSome_iff_exists.1 ((m.mem_keys a).1 h)
  exact congrArg FxHashSet.mk (FxHashMap.insert_eq_self hget)

/-- Inserting a list of elements one by one. -/
theorem mem_foldl_insert (l : List K) (s : FxHashSet K) (b : K) :
    b ∈ l.foldl insert s ↔ b ∈ l ∨ b ∈ s := by
  induction l generalizing s with
  | nil => simp
  | cons a rest ih =>
      rw [List.foldl_cons, ih, mem_insert, List.mem_cons]
      tauto

/-- Collect a list into a set. -/
def ofList (l : List K) : FxHashSet K := l.foldl insert ∅

@[simp] theorem mem_ofList (l : List K) (b : K) : b ∈ ofList l ↔ b ∈ l := by
  simp [ofList, mem_foldl_insert]

end FxHashSet

end PreloadNg
