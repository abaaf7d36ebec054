import Mathlib.Algebra.Group.Nat.Defs
import Mathlib.Data.List.Nodup
import Mathlib.Data.Prod.Lex
import Mathlib.Order.Basic

set_option autoImplicit false

/-! # Slot maps

A slot map hands out a fresh key for every inserted value. A key is the index of a slot together
with the version of the slot at insertion; a vacant slot is reused before the vector grows, with
the version bumped, so the key of a removed value is not resolved by its successor.

`SlotMap κ α` keeps the free list (most recently freed first) together with the proof that it
lists exactly the vacant slots. Keys carry a phantom tag `κ`, so that keys of different maps have
different types. Slots are numbered from `0` (the sentinel slot of the crate is not represented).
-/

namespace PreloadNg

namespace SlotMap

/-- A slot-map key. Keys are ordered by slot index first, then by version. -/
structure Key (κ : Type) where
  idx : ℕ
  version : ℕ
deriving DecidableEq, Repr

namespace Key

variable {κ : Type}

/-- The lexicographic key behind the order. -/
def toLexPair (k : Key κ) : ℕ ×ₗ ℕ := toLex (k.idx, k.version)

theorem toLexPair_injective : Function.Injective (toLexPair (κ := κ)) := by
  rintro ⟨i, v⟩ ⟨j, w⟩ h
  simpa [toLexPair] using h

instance : LinearOrder (Key κ) := LinearOrder.lift' toLexPair toLexPair_injective

theorem lt_of_idx_lt {a b : Key κ} (h : a.idx < b.idx) : a < b :=
  Prod.Lex.toLex_lt_toLex.2 (Or.inl h)

end Key

/-- A slot: vacant with its last version, or occupied. -/
inductive Slot (α : Type) where
  | vacant (version : ℕ)
  | occupied (version : ℕ) (value : α)
deriving DecidableEq, Repr

namespace Slot

variable {α : Type}

def version : Slot α → ℕ
  | vacant v => v
  | occupied v _ => v

def isVacant : Slot α → Bool
  | vacant _ => true
  | occupied _ _ => false

/-- The value under version `v`. -/
def at? (v : ℕ) : Slot α → Option α
  | vacant _ => none
  | occupied w x => if w = v then some x else none

/-- Rewrite the value, if there is one. -/
def map (f : α → α) : Slot α → Slot α
  | vacant v => vacant v
  | occupied v x => occupied v (f x)

@[simp] theorem isVacant_map (f : α → α) (s : Slot α) : (s.map f).isVacant = s.isVacant := by
  cases s <;> rfl

theorem at?_eq_some {v : ℕ} {s : Slot α} {x : α} : s.at? v = some x ↔ s = occupied v x := by
  cases s with
  | vacant w => simp [at?]
  | occupied w y =>
      simp only [at?, occupied.injEq]
      split <;> simp [*]

end Slot

end SlotMap

open SlotMap

/-- Versioned slots with their free list. -/
structure SlotMap (κ α : Type) where
  slots : List (Slot α)
  free : List ℕ
  free_nodup : free.Nodup
  /-- The free list holds exactly the indices of the vacant slots. -/
  mem_free : ∀ i, i ∈ free ↔ (slots[i]?.map Slot.isVacant) = some true

namespace SlotMap

variable {κ α : Type}

instance [DecidableEq α] : DecidableEq (SlotMap κ α) := fun a b =>
  decidable_of_iff (a.slots = b.slots ∧ a.free = b.free) (by cases a; cases b; simp)

def empty : SlotMap κ α where
  slots := []
  free := []
  free_nodup := List.nodup_nil
  mem_free := by simp

instance : EmptyCollection (SlotMap κ α) := ⟨empty⟩

def get? (m : SlotMap κ α) (k : Key κ) : Option α := m.slots[k.idx]?.bind (Slot.at? k.version)

/-- The slots of `m` in order, as keys and values. -/
def iter (m : SlotMap κ α) : List (Key κ × α) :=
  m.slots.zipIdx.filterMap fun
    | (.occupied v x, i) => some (⟨i, v⟩, x)
    | (.vacant _, _) => none

/-- The key the next insertion returns. -/
def nextKey (m : SlotMap κ α) : Key κ :=
  match m.free with
  | i :: _ => ⟨i, (m.slots[i]?.map Slot.version).getD 0 ||| 1⟩
  | [] => ⟨m.slots.length, 1⟩

/-- Insert under `nextKey`: reuse the head of the free list, or push a new slot. -/
def insert (m : SlotMap κ α) (x : α) : SlotMap κ α × Key κ :=
  match hfree : m.free with
  | i :: rest =>
    ({ slots := m.slots.set i (.occupied m.nextKey.version x)
       free := rest
       free_nodup := (List.nodup_cons.1 (hfree ▸ m.free_nodup)).2
       mem_free := by
         intro j
         have hmem := m.mem_free j
         have hnot : i ∉ rest := (List.nodup_cons.1 (hfree ▸ m.free_nodup)).1
         rw [hfree, List.mem_cons] at hmem
         rw [List.getElem?_set]
         by_cases hij : i = j
         · subst hij
           by_cases hlt : i < m.slots.length <;> simp [hnot, hlt, Slot.isVacant]
         · rw [if_neg hij, ← hmem]
           exact ⟨Or.inr, fun h => h.resolve_left (fun h' => hij h'.symm)⟩ },
     m.nextKey)
  | [] =>
    ({ slots := m.slots ++ [.occupied m.nextKey.version x]
       free := []
       free_nodup := List.nodup_nil
       mem_free := by
         intro j
         have hmem := m.mem_free j
         rw [hfree] at hmem
         rw [List.getElem?_append]
         split
         · exact hmem
         · simp only [List.not_mem_nil, false_iff]
           cases hj : j - m.slots.length <;> simp [Slot.isVacant] },
     m.nextKey)

/-- Rewrite the value under `k`, if there is one. -/
def modify (m : SlotMap κ α) (k : Key κ) (f : α → α) : SlotMap κ α :=
  match m.get? k with
  | none => m
  | some _ =>
    { slots := m.slots.modify k.idx (Slot.map f)
      free := m.free
      free_nodup := m.free_nodup
      mem_free := by
        intro j
        rw [m.mem_free, List.getElem?_modify]
        by_cases hj : k.idx = j <;> cases m.slots[j]? <;> simp [hj] }

/-- Remove the value under `k`: its slot becomes vacant, one version later, and the head of the
    free list. -/
def remove (m : SlotMap κ α) (k : Key κ) : SlotMap κ α :=
  match hk : m.get? k with
  | none => m
  | some x =>
    { slots := m.slots.set k.idx (.vacant ((k.version + 1) % 2 ^ 32))
      free := k.idx :: m.free
      free_nodup := by
        refine List.nodup_cons.2 ⟨fun hmem => ?_, m.free_nodup⟩
        rw [m.mem_free] at hmem
        simp only [get?, Option.bind_eq_some_iff, Slot.at?_eq_some] at hk
        obtain ⟨s, hs, rfl⟩ := hk
        simp [hs, Slot.isVacant] at hmem
      mem_free := by
        intro j
        have hlt : k.idx < m.slots.length := by
          simp only [get?, Option.bind_eq_some_iff] at hk
          obtain ⟨s, hs, -⟩ := hk
          exact (List.getElem?_eq_some_iff.1 hs).1
        rw [List.mem_cons, m.mem_free, List.getElem?_set]
        by_cases hij : k.idx = j
        · subst hij
          simp [hlt, Slot.isVacant]
        · rw [if_neg hij]
          exact ⟨fun h => h.resolve_left (fun h' => hij h'.symm), Or.inr⟩ }

/-! ## Lookups after each operation -/

@[simp] theorem get?_empty (k : Key κ) : (∅ : SlotMap κ α).get? k = none := rfl

theorem get?_eq_some {m : SlotMap κ α} {k : Key κ} {x : α} :
    m.get? k = some x ↔ m.slots[k.idx]? = some (.occupied k.version x) := by
  simp only [get?, Option.bind_eq_some_iff, Slot.at?_eq_some]
  constructor
  · rintro ⟨s, hs, rfl⟩
    exact hs
  · exact fun h => ⟨_, h, rfl⟩

/-- The slot of the next key holds no value. -/
theorem nextKey_slot (m : SlotMap κ α) (v : ℕ) (x : α) :
    m.slots[m.nextKey.idx]? ≠ some (.occupied v x) := by
  unfold nextKey
  cases hfree : m.free with
  | nil => simp
  | cons i rest =>
      have hvac := (m.mem_free i).1 (by rw [hfree]; exact List.mem_cons_self)
      intro h
      simp [h, Slot.isVacant] at hvac

theorem get?_nextKey (m : SlotMap κ α) : m.get? m.nextKey = none := by
  refine Option.eq_none_iff_forall_ne_some.2 fun x hx => ?_
  exact m.nextKey_slot _ x (get?_eq_some.1 hx)

theorem get?_insert (m : SlotMap κ α) (x : α) (k : Key κ) :
    (m.insert x).1.get? k = if k = m.nextKey then some x else m.get? k := by
  -- the slot written is the head of the free list, or a new one
  have hslot : ∀ i, (m.insert x).1.slots[i]? =
      if i = m.nextKey.idx then some (.occupied m.nextKey.version x) else m.slots[i]? := by
    intro i
    unfold insert nextKey
    split
    · next j rest hfree =>
        have hvac := (m.mem_free j).1 (by rw [hfree]; exact List.mem_cons_self)
        have hlt : j < m.slots.length := by
          by_contra hge
          simp [List.getElem?_eq_none (not_lt.1 hge)] at hvac
        simp only [hfree, List.getElem?_set, hlt, if_true]
        by_cases hji : j = i
        · subst hji
          simp
        · rw [if_neg hji, if_neg (fun h => hji h.symm)]
    · next hfree =>
        simp only [hfree]
        by_cases hi : i = m.slots.length
        · subst hi
          simp
        · rw [if_neg hi, List.getElem?_append]
          split
          · rfl
          · next hge =>
              have : i - m.slots.length ≠ 0 := by omega
              rw [List.getElem?_eq_none (not_lt.1 hge)]
              cases hd : i - m.slots.length with
              | zero => exact absurd hd this
              | succ n => simp
  refine Option.ext fun y => ?_
  rw [get?_eq_some, hslot]
  by_cases hidx : k.idx = m.nextKey.idx
  · rw [if_pos hidx]
    by_cases hk : k = m.nextKey
    · rw [if_pos hk, hk]
      simp
    · rw [if_neg hk]
      -- the same slot at another version: the key was dead before and stays so
      have hver : m.nextKey.version ≠ k.version := by
        intro hv
        apply hk
        cases k
        cases hn : m.nextKey
        simp_all
      simp only [Option.some.injEq, Slot.occupied.injEq, hver, false_and, false_iff]
      intro hget
      exact m.nextKey_slot _ y (hidx ▸ get?_eq_some.1 hget)
  · rw [if_neg hidx, if_neg (fun h : k = m.nextKey => hidx (by rw [h])), get?_eq_some]

@[simp] theorem insert_snd (m : SlotMap κ α) (x : α) : (m.insert x).2 = m.nextKey := by
  unfold insert
  split <;> rfl

theorem get?_modify (m : SlotMap κ α) (k : Key κ) (f : α → α) (a : Key κ) :
    (m.modify k f).get? a = if a = k then (m.get? k).map f else m.get? a := by
  unfold modify
  cases hk : m.get? k with
  | none =>
      by_cases ha : a = k
      · rw [if_pos ha, ha, hk]
        rfl
      · rw [if_neg ha]
  | some x =>
      have hslot := get?_eq_some.1 hk
      refine Option.ext fun y => ?_
      rw [get?_eq_some]
      simp only [List.getElem?_modify]
      by_cases ha : a = k
      · subst ha
        simp [hslot, Slot.map]
      · rw [if_neg ha, get?_eq_some]
        by_cases hidx : k.idx = a.idx
        · have hver : k.version ≠ a.version := by
            intro hv
            apply ha
            cases k
            cases a
            simp_all
          rw [← hidx, hslot]
          simp [Slot.map, hver]
        · simp [hidx]

/-- Rewriting a value to itself changes nothing. -/
theorem modify_eq_self {m : SlotMap κ α} {k : Key κ} {f : α → α}
    (h : ∀ x, m.get? k = some x → f x = x) : m.modify k f = m := by
  obtain ⟨slots, free, hnodup, hmem⟩ := m
  unfold modify
  split
  · rfl
  · next x hx =>
      have hslot := get?_eq_some.1 hx
      have hslots : slots.modify k.idx (Slot.map f) = slots := by
        refine List.ext_getElem? fun i => ?_
        rw [List.getElem?_modify]
        split
        · next hi =>
            subst hi
            rw [show slots[k.idx]? = _ from hslot]
            simp [Slot.map, h x hx]
        · simp
      simp only [hslots]

theorem get?_remove (m : SlotMap κ α) (k a : Key κ) :
    (m.remove k).get? a = if a = k then none else m.get? a := by
  unfold remove
  split
  · next hk =>
      by_cases ha : a = k
      · rw [if_pos ha, ha, hk]
      · rw [if_neg ha]
  · next x hk =>
      have hslot := get?_eq_some.1 hk
      refine Option.ext fun y => ?_
      rw [get?_eq_some, List.getElem?_set]
      by_cases ha : a = k
      · subst ha
        rw [if_pos rfl]
        split <;> simp
      · rw [if_neg ha, get?_eq_some]
        by_cases hidx : k.idx = a.idx
        · have hver : k.version ≠ a.version := by
            intro hv
            apply ha
            cases k
            cases a
            simp_all
          rw [if_pos hidx, ← hidx, hslot]
          split <;> simp [hver]
        · rw [if_neg hidx]

/-! ## Iteration -/

theorem mem_iter (m : SlotMap κ α) (k : Key κ) (x : α) : (k, x) ∈ m.iter ↔ m.get? k = some x := by
  rw [get?_eq_some, iter, List.mem_filterMap]
  constructor
  · rintro ⟨⟨s, i⟩, hmem, hs⟩
    cases s with
    | vacant v => simp at hs
    | occupied v y =>
        simp only [Option.some.injEq, Prod.mk.injEq] at hs
        obtain ⟨rfl, rfl⟩ := hs
        simpa using List.mem_zipIdx_iff_getElem?.1 hmem
  · intro h
    exact ⟨(.occupied k.version x, k.idx), List.mem_zipIdx_iff_getElem?.2 (by simpa using h), rfl⟩

/-- Iteration visits the keys in increasing order. -/
theorem iter_sorted (m : SlotMap κ α) : m.iter.Pairwise fun a b => a.1 < b.1 := by
  rw [iter, List.pairwise_filterMap]
  have hidx : (m.slots.zipIdx).Pairwise fun a b => a.2 < b.2 := by
    rw [← List.pairwise_map (f := Prod.snd) (R := (· < ·)), List.zipIdx_map_snd]
    exact List.pairwise_lt_range'
  refine hidx.imp ?_
  rintro ⟨s, i⟩ ⟨t, j⟩ hij a ha b hb
  cases s <;> cases t <;> simp at ha hb
  subst ha hb
  exact Key.lt_of_idx_lt hij

theorem iter_keys_nodup (m : SlotMap κ α) : (m.iter.map Prod.fst).Nodup := by
  rw [List.nodup_iff_pairwise_ne, List.pairwise_map]
  exact m.iter_sorted.imp fun h => h.ne

/-- The iteration is determined by the lookups. -/
theorem iter_congr {m m' : SlotMap κ α} (h : ∀ k, m.get? k = m'.get? k) : m.iter = m'.iter := by
  have hmem : ∀ row, row ∈ m.iter ↔ row ∈ m'.iter := fun row => by rw [mem_iter, mem_iter, h]
  have hperm : m.iter.Perm m'.iter :=
    (List.perm_ext_iff_of_nodup (List.Nodup.of_map _ m.iter_keys_nodup)
      (List.Nodup.of_map _ m'.iter_keys_nodup)).2 hmem
  refine hperm.eq_of_pairwise (fun a b _ _ hab hba => ?_) m.iter_sorted m'.iter_sorted
  exact absurd (hab.trans hba) (lt_irrefl _)

/-- Without vacant slots an insertion appends to the iteration. -/
theorem iter_insert_of_free_nil (m : SlotMap κ α) (x : α) (h : m.free = []) :
    (m.insert x).1.iter = m.iter ++ [(m.nextKey, x)] := by
  have hslots : (m.insert x).1.slots = m.slots ++ [.occupied m.nextKey.version x] := by
    unfold insert
    split
    · next j rest hfree => simp [h] at hfree
    · rfl
  rw [iter, hslots, List.zipIdx_append, List.filterMap_append, iter]
  simp [nextKey, h]

theorem insert_free_of_free_nil (m : SlotMap κ α) (x : α) (h : m.free = []) :
    (m.insert x).1.free = [] := by
  unfold insert
  split
  · next j rest hfree => simp [h] at hfree
  · rfl

@[simp] theorem modify_free (m : SlotMap κ α) (k : Key κ) (f : α → α) :
    (m.modify k f).free = m.free := by
  unfold modify
  split <;> rfl

end SlotMap

end PreloadNg
