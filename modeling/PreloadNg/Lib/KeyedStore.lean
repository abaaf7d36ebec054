import PreloadNg.Lib.HashMap
import PreloadNg.Lib.SlotMap

set_option autoImplicit false

/-! # Slot maps with a key index

Values of type `α` live in a slot map; each carries a key `keyOf x : K`, and an index maps keys to
ids. The structure carries the consistency of the two as a field, so keys and live ids are in
bijection by construction. -/

namespace PreloadNg

/-- A slot map together with the index from the keys of its values to their ids. -/
structure KeyedStore (κ K α : Type) [DecidableEq K] (keyOf : α → K) where
  slots : SlotMap κ α
  byKey : FxHashMap K (SlotMap.Key κ)
  byKey_spec : ∀ k id, byKey.get? k = some id ↔ ∃ x, slots.get? id = some x ∧ keyOf x = k

namespace KeyedStore

variable {κ K α : Type} [DecidableEq K] {keyOf : α → K}

instance [DecidableEq α] : DecidableEq (KeyedStore κ K α keyOf) := fun a b =>
  decidable_of_iff (a.slots = b.slots ∧ a.byKey = b.byKey) (by cases a; cases b; simp)

def empty : KeyedStore κ K α keyOf where
  slots := ∅
  byKey := ∅
  byKey_spec := by simp

instance : EmptyCollection (KeyedStore κ K α keyOf) := ⟨empty⟩

def get? (s : KeyedStore κ K α keyOf) (id : SlotMap.Key κ) : Option α := s.slots.get? id

def idByKey (s : KeyedStore κ K α keyOf) (k : K) : Option (SlotMap.Key κ) := s.byKey.get? k

def iter (s : KeyedStore κ K α keyOf) : List (SlotMap.Key κ × α) := s.slots.iter

theorem idByKey_eq_some {s : KeyedStore κ K α keyOf} {k : K} {id : SlotMap.Key κ} :
    s.idByKey k = some id ↔ ∃ x, s.get? id = some x ∧ keyOf x = k :=
  s.byKey_spec k id

theorem idByKey_of_get? {s : KeyedStore κ K α keyOf} {id : SlotMap.Key κ} {x : α}
    (h : s.get? id = some x) : s.idByKey (keyOf x) = some id :=
  idByKey_eq_some.2 ⟨x, h, rfl⟩

/-- Two ids whose values share a key are the same id. -/
theorem id_unique {s : KeyedStore κ K α keyOf} {i j : SlotMap.Key κ} {x y : α}
    (hi : s.get? i = some x) (hj : s.get? j = some y) (h : keyOf x = keyOf y) : i = j := by
  have hx := idByKey_of_get? hi
  rw [h, idByKey_of_get? hj] at hx
  exact (Option.some.inj hx).symm

/-- An id belongs to one key. -/
theorem idByKey_inj {s : KeyedStore κ K α keyOf} {k l : K} {id : SlotMap.Key κ}
    (hk : s.idByKey k = some id) (hl : s.idByKey l = some id) : k = l := by
  obtain ⟨x, hx, rfl⟩ := idByKey_eq_some.1 hk
  obtain ⟨y, hy, rfl⟩ := idByKey_eq_some.1 hl
  rw [Option.some.inj (hx.symm.trans hy)]

theorem mem_iter (s : KeyedStore κ K α keyOf) (id : SlotMap.Key κ) (x : α) :
    (id, x) ∈ s.iter ↔ s.get? id = some x :=
  s.slots.mem_iter id x

/-! ## Insertion -/

/-- The id of the value with the key of `x`; `x` is inserted when there is none, which the flag
    reports. -/
def ensure (s : KeyedStore κ K α keyOf) (x : α) : KeyedStore κ K α keyOf × SlotMap.Key κ × Bool :=
  match hk : s.idByKey (keyOf x) with
  | some id => (s, id, false)
  | none =>
    ({ slots := (s.slots.insert x).1
       byKey := s.byKey.insert (keyOf x) (s.slots.insert x).2
       byKey_spec := by
         intro k id
         rw [FxHashMap.get?_insert, SlotMap.insert_snd, SlotMap.get?_insert]
         by_cases hkx : k = keyOf x
         · subst hkx
           rw [if_pos rfl]
           constructor
           · intro h
             obtain rfl := Option.some.inj h
             exact ⟨x, if_pos rfl, rfl⟩
           · rintro ⟨y, hy, hkey⟩
             by_cases hid : id = s.slots.nextKey
             · rw [hid]
             · rw [if_neg hid] at hy
               have := idByKey_eq_some.2 ⟨y, hy, hkey⟩
               rw [hk] at this
               exact absurd this (by simp)
         · rw [if_neg hkx, s.byKey_spec]
           constructor
           · rintro ⟨y, hy, hkey⟩
             have hid : id ≠ s.slots.nextKey := by
               rintro rfl
               rw [s.slots.get?_nextKey] at hy
               exact absurd hy (by simp)
             exact ⟨y, by rw [if_neg hid]; exact hy, hkey⟩
           · rintro ⟨y, hy, hkey⟩
             by_cases hid : id = s.slots.nextKey
             · rw [if_pos hid] at hy
               obtain rfl := Option.some.inj hy
               exact absurd hkey.symm hkx
             · rw [if_neg hid] at hy
               exact ⟨y, hy, hkey⟩ },
     (s.slots.insert x).2, true)

/-- What `ensure` does, in its two cases. -/
theorem ensure_cases (s : KeyedStore κ K α keyOf) (x : α) :
    (∃ id, s.idByKey (keyOf x) = some id ∧ s.ensure x = (s, id, false)) ∨
    (s.idByKey (keyOf x) = none ∧ (s.ensure x).2 = (s.slots.nextKey, true) ∧
      (s.ensure x).1.slots = (s.slots.insert x).1) := by
  unfold ensure
  split
  · next id hk => exact Or.inl ⟨id, hk, rfl⟩
  · next hk => exact Or.inr ⟨hk, by simp, rfl⟩

/-- A value whose key is stored is not inserted. -/
theorem ensure_eq_self {s : KeyedStore κ K α keyOf} {x : α} {id : SlotMap.Key κ}
    (h : s.idByKey (keyOf x) = some id) : s.ensure x = (s, id, false) := by
  rcases s.ensure_cases x with ⟨id', hid, heq⟩ | ⟨hnone, -⟩
  · rw [heq, Option.some.inj (h.symm.trans hid)]
  · exact absurd (h.symm.trans hnone) (by simp)

theorem get?_ensure_iff (s : KeyedStore κ K α keyOf) (x : α) (id : SlotMap.Key κ) (y : α) :
    (s.ensure x).1.get? id = some y ↔
      s.get? id = some y ∨ (s.idByKey (keyOf x) = none ∧ id = (s.ensure x).2.1 ∧ y = x) := by
  rcases s.ensure_cases x with ⟨id', hid, h⟩ | ⟨hk, h, hslots⟩
  · simp [h, hid]
  · rw [get?, hslots, SlotMap.get?_insert, h]
    simp only [hk, true_and]
    by_cases hid : id = s.slots.nextKey
    · subst hid
      rw [if_pos rfl, get?, s.slots.get?_nextKey]
      simp [eq_comm]
    · rw [if_neg hid]
      simp [hid, get?]

/-- `ensure` keeps what is stored. -/
theorem get?_ensure_of_some {s : KeyedStore κ K α keyOf} {id : SlotMap.Key κ} {y : α}
    (h : s.get? id = some y) (x : α) : (s.ensure x).1.get? id = some y :=
  (s.get?_ensure_iff x id y).2 (Or.inl h)

/-- The returned id holds a value with the key of `x`. -/
theorem get?_ensure_id (s : KeyedStore κ K α keyOf) (x : α) :
    ∃ y, (s.ensure x).1.get? (s.ensure x).2.1 = some y ∧ keyOf y = keyOf x := by
  rcases s.ensure_cases x with ⟨id, hid, h⟩ | ⟨hk, h, -⟩
  · rw [h]
    exact idByKey_eq_some.1 hid
  · exact ⟨x, (s.get?_ensure_iff x _ x).2 (Or.inr ⟨hk, rfl, rfl⟩), rfl⟩

theorem idByKey_ensure (s : KeyedStore κ K α keyOf) (x : α) (k : K) :
    (s.ensure x).1.idByKey k = if k = keyOf x then some (s.ensure x).2.1 else s.idByKey k := by
  obtain ⟨y, hy, hkey⟩ := s.get?_ensure_id x
  by_cases hk : k = keyOf x
  · rw [if_pos hk, hk, ← hkey]
    exact idByKey_of_get? hy
  · rw [if_neg hk]
    refine Option.ext fun id => ?_
    rw [idByKey_eq_some, idByKey_eq_some]
    constructor
    · rintro ⟨z, hz, rfl⟩
      rcases (s.get?_ensure_iff x id z).1 hz with hz | ⟨-, -, rfl⟩
      · exact ⟨z, hz, rfl⟩
      · exact absurd rfl hk
    · rintro ⟨z, hz, rfl⟩
      exact ⟨z, get?_ensure_of_some hz x, rfl⟩

/-! ## Reading by key -/

/-- The value with key `k`. -/
def lookup (s : KeyedStore κ K α keyOf) (k : K) : Option α := (s.idByKey k).bind s.get?

theorem lookup_eq_some {s : KeyedStore κ K α keyOf} {k : K} {x : α} :
    s.lookup k = some x ↔ ∃ id, s.get? id = some x ∧ keyOf x = k := by
  simp only [lookup, Option.bind_eq_some_iff, idByKey_eq_some]
  constructor
  · rintro ⟨id, ⟨y, hy, hkey⟩, hx⟩
    obtain rfl := Option.some.inj (hy.symm.trans hx)
    exact ⟨id, hx, hkey⟩
  · rintro ⟨id, hx, hkey⟩
    exact ⟨id, ⟨x, hx, hkey⟩, hx⟩

theorem lookup_eq_none {s : KeyedStore κ K α keyOf} {k : K} :
    s.lookup k = none ↔ s.idByKey k = none := by
  simp only [Option.eq_none_iff_forall_ne_some, ne_eq, lookup_eq_some, idByKey_eq_some,
    not_exists]
  exact forall_comm

/-- `ensure` keeps what is stored under its key. -/
theorem lookup_ensure (s : KeyedStore κ K α keyOf) (x : α) (k : K) :
    (s.ensure x).1.lookup k = if k = keyOf x then some ((s.lookup k).getD x) else s.lookup k := by
  refine Option.ext fun y => ?_
  rw [lookup_eq_some]
  simp only [get?_ensure_iff]
  by_cases hk : k = keyOf x
  · subst hk
    rw [if_pos rfl, Option.some.injEq]
    -- a key that is there keeps its value
    cases hold : s.idByKey (keyOf x) with
    | none =>
        have hnone : s.lookup (keyOf x) = none := by rw [lookup, hold]; rfl
        rw [hnone, Option.getD_none]
        constructor
        · rintro ⟨id, h | ⟨-, -, rfl⟩, hkey⟩
          · exact absurd (hold.symm.trans (idByKey_eq_some.2 ⟨y, h, hkey⟩)) (by simp)
          · rfl
        · rintro rfl
          exact ⟨_, Or.inr ⟨rfl, rfl, rfl⟩, rfl⟩
    | some id =>
        obtain ⟨z, hz, hzkey⟩ := idByKey_eq_some.1 hold
        have hsome : s.lookup (keyOf x) = some z := lookup_eq_some.2 ⟨id, hz, hzkey⟩
        rw [hsome, Option.getD_some]
        constructor
        · rintro ⟨id', h | ⟨h, -⟩, hkey⟩
          · have hid := id_unique h hz (hkey.trans hzkey.symm)
            exact Option.some.inj (hz.symm.trans (hid ▸ h))
          · exact absurd h (by simp)
        · rintro rfl
          exact ⟨id, Or.inl hz, hzkey⟩
  · rw [if_neg hk, lookup_eq_some]
    constructor
    · rintro ⟨id, h | ⟨-, -, rfl⟩, hkey⟩
      · exact ⟨id, h, hkey⟩
      · exact absurd hkey.symm hk
    · rintro ⟨id, h, hkey⟩
      exact ⟨id, Or.inl h, hkey⟩

/-! ## Rewriting and removing values -/

/-- Rewrite the value under `id` by a function that keeps its key. -/
def modify (s : KeyedStore κ K α keyOf) (id : SlotMap.Key κ) (f : α → α)
    (hf : ∀ x, keyOf (f x) = keyOf x) : KeyedStore κ K α keyOf where
  slots := s.slots.modify id f
  byKey := s.byKey
  byKey_spec := by
    intro k j
    rw [s.byKey_spec, SlotMap.get?_modify]
    by_cases hj : j = id
    · subst hj
      rw [if_pos rfl]
      cases s.slots.get? j <;> simp [hf]
    · rw [if_neg hj]

theorem get?_modify (s : KeyedStore κ K α keyOf) (id : SlotMap.Key κ) (f : α → α)
    (hf : ∀ x, keyOf (f x) = keyOf x) (j : SlotMap.Key κ) :
    (s.modify id f hf).get? j = if j = id then (s.get? id).map f else s.get? j :=
  s.slots.get?_modify id f j

theorem modify_eq_self {s : KeyedStore κ K α keyOf} {id : SlotMap.Key κ} {f : α → α}
    (hf : ∀ x, keyOf (f x) = keyOf x) (h : ∀ x, s.get? id = some x → f x = x) :
    s.modify id f hf = s := by
  obtain ⟨slots, byKey, hspec⟩ := s
  simp only [modify, SlotMap.modify_eq_self h]

@[simp] theorem idByKey_modify (s : KeyedStore κ K α keyOf) (id : SlotMap.Key κ) (f : α → α)
    (hf : ∀ x, keyOf (f x) = keyOf x) (k : K) : (s.modify id f hf).idByKey k = s.idByKey k :=
  rfl

/-- Rewriting the value under the id of a key, read by key. -/
theorem lookup_modify (s : KeyedStore κ K α keyOf) {id : SlotMap.Key κ} {k : K}
    (h : s.idByKey k = some id) (f : α → α) (hf : ∀ x, keyOf (f x) = keyOf x) (l : K) :
    (s.modify id f hf).lookup l = if l = k then (s.lookup l).map f else s.lookup l := by
  rw [lookup, idByKey_modify]
  by_cases hl : l = k
  · subst hl
    rw [if_pos rfl, lookup, h, Option.bind_some, get?_modify, if_pos rfl, Option.bind_some]
  · rw [if_neg hl, lookup]
    cases hid : s.idByKey l with
    | none => rfl
    | some j =>
        have hne : j ≠ id := by
          rintro rfl
          obtain ⟨x, hx, hxk⟩ := idByKey_eq_some.1 h
          obtain ⟨y, hy, hyl⟩ := idByKey_eq_some.1 hid
          obtain rfl := Option.some.inj (hx.symm.trans hy)
          exact hl (hyl.symm.trans hxk)
        rw [Option.bind_some, Option.bind_some, get?_modify, if_neg hne]

/-- Remove the value under `id` and its key; the flag reports whether there was one. -/
def remove (s : KeyedStore κ K α keyOf) (id : SlotMap.Key κ) : KeyedStore κ K α keyOf × Bool :=
  match hid : s.get? id with
  | none => (s, false)
  | some x =>
    ({ slots := s.slots.remove id
       byKey := s.byKey.remove (keyOf x)
       byKey_spec := by
         intro k j
         rw [FxHashMap.get?_remove, SlotMap.get?_remove]
         by_cases hk : k = keyOf x
         · subst hk
           rw [if_pos rfl]
           refine iff_of_false (by simp) ?_
           rintro ⟨y, hy, hkey⟩
           by_cases hj : j = id
           · rw [if_pos hj] at hy
             exact absurd hy (by simp)
           · rw [if_neg hj] at hy
             exact hj (id_unique hy hid hkey)
         · rw [if_neg hk, s.byKey_spec]
           constructor
           · rintro ⟨y, hy, hkey⟩
             refine ⟨y, ?_, hkey⟩
             have hj : j ≠ id := by
               rintro rfl
               rw [get?, hy] at hid
               obtain rfl := Option.some.inj hid
               exact hk hkey.symm
             rw [if_neg hj]
             exact hy
           · rintro ⟨y, hy, hkey⟩
             by_cases hj : j = id
             · rw [if_pos hj] at hy
               exact absurd hy (by simp)
             · rw [if_neg hj] at hy
               exact ⟨y, hy, hkey⟩ },
     true)

theorem get?_remove (s : KeyedStore κ K α keyOf) (id j : SlotMap.Key κ) :
    (s.remove id).1.get? j = if j = id then none else s.get? j := by
  unfold remove
  split
  · next hid =>
      by_cases hj : j = id
      · rw [if_pos hj, hj, hid]
      · rw [if_neg hj]
  · exact s.slots.get?_remove id j

/-! ## Rewriting every value

The loops of the source collect the ids first and then rewrite the value under each. -/

/-- Visit the ids of `ids` in order and rewrite the value under each. -/
def modifyEach (s : KeyedStore κ K α keyOf) (ids : List (SlotMap.Key κ)) (f : α → α)
    (hf : ∀ x, keyOf (f x) = keyOf x) : KeyedStore κ K α keyOf :=
  ids.foldl (fun t id => t.modify id f hf) s

theorem get?_modifyEach {f : α → α} (hf : ∀ x, keyOf (f x) = keyOf x)
    (ids : List (SlotMap.Key κ)) (hnodup : ids.Nodup) (s : KeyedStore κ K α keyOf)
    (j : SlotMap.Key κ) :
    (s.modifyEach ids f hf).get? j = if j ∈ ids then (s.get? j).map f else s.get? j := by
  unfold modifyEach
  induction ids generalizing s with
  | nil => simp
  | cons id rest ih =>
      rw [List.nodup_cons] at hnodup
      rw [List.foldl_cons, ih hnodup.2, get?_modify]
      by_cases hj : j = id
      · subst hj
        simp [hnodup.1]
      · simp [hj]

/-- The ids of the live values. -/
def ids (s : KeyedStore κ K α keyOf) : List (SlotMap.Key κ) := s.iter.map Prod.fst

theorem ids_nodup (s : KeyedStore κ K α keyOf) : s.ids.Nodup := s.slots.iter_keys_nodup

theorem mem_ids (s : KeyedStore κ K α keyOf) (id : SlotMap.Key κ) :
    id ∈ s.ids ↔ ∃ x, s.get? id = some x := by
  simp only [ids, List.mem_map, Prod.exists, exists_and_right, exists_eq_right, mem_iter]

/-- No two values share a key. -/
theorem keys_nodup (s : KeyedStore κ K α keyOf) : (s.iter.map fun row => keyOf row.2).Nodup := by
  have hids : s.iter.Nodup := List.Nodup.of_map Prod.fst s.ids_nodup
  refine hids.map_on ?_
  rintro ⟨i, x⟩ hx ⟨j, y⟩ hy hkey
  have hx' := (s.mem_iter i x).1 hx
  have hy' := (s.mem_iter j y).1 hy
  obtain rfl := id_unique hx' hy' hkey
  rw [Option.some.inj (hx'.symm.trans hy')]

/-- Rewriting the value under every live id. -/
theorem get?_modifyEach_ids (s : KeyedStore κ K α keyOf) {f : α → α}
    (hf : ∀ x, keyOf (f x) = keyOf x) (j : SlotMap.Key κ) :
    (s.modifyEach s.ids f hf).get? j = (s.get? j).map f := by
  rw [get?_modifyEach hf _ s.ids_nodup]
  split
  · rfl
  · next h =>
      rw [mem_ids] at h
      cases hj : s.get? j with
      | none => rfl
      | some x => exact absurd ⟨x, hj⟩ h

end KeyedStore

end PreloadNg
