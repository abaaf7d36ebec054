import Mathlib.Data.List.Sort
import Mathlib.Tactic

set_option autoImplicit false

/-! # Sorting with a comparator

Facts on lists that are sorted by a function into `Ordering`. What a comparator calls equal may come
in any order; where it calls only equal elements equal, the sorted list is unique. -/

namespace PreloadNg

section Sorted

variable {α : Type} {cmp : α → α → Ordering}

/-- Sorted by a comparator. -/
def SortedBy (cmp : α → α → Ordering) (l : List α) : Prop :=
  l.Pairwise fun a b => (cmp a b).isLE = true

variable [Std.TransCmp cmp]

instance instTotalIsLE : Std.Total fun a b : α => (cmp a b).isLE = true where
  total a b := by
    by_cases h : (cmp a b).isLE = true
    · exact Or.inl h
    · exact Or.inr (Ordering.isLE_of_eq_lt (Std.OrientedCmp.lt_of_not_isLE h))

instance instTransIsLE : IsTrans α fun a b : α => (cmp a b).isLE = true where
  trans _ _ _ := Std.TransCmp.isLE_trans

theorem sortedBy_insertionSort (l : List α) :
    SortedBy cmp (l.insertionSort fun a b => (cmp a b).isLE = true) :=
  List.pairwise_insertionSort _ l

/-- Where the comparator tells all elements apart, there is one sorted order. -/
theorem SortedBy.eq_of_perm {l₁ l₂ : List α} (h₁ : SortedBy cmp l₁) (h₂ : SortedBy cmp l₂)
    (hperm : l₁.Perm l₂) (hstrict : ∀ a ∈ l₁, ∀ b ∈ l₁, cmp a b = .eq → a = b) : l₁ = l₂ := by
  refine List.Perm.eq_of_pairwise ?_ h₁ h₂ hperm
  intro a b ha hb hab hba
  exact hstrict a ha b (hperm.mem_iff.2 hb) (Std.OrientedCmp.isLE_antisymm hab hba)

/-- A strict total order on the elements of a list. -/
structure StrictTotalOn (cmp : α → α → Ordering) (l : List α) : Prop where
  irrefl : ∀ a ∈ l, cmp a a ≠ .lt
  trans : ∀ a ∈ l, ∀ b ∈ l, ∀ c ∈ l, cmp a b = .lt → cmp b c = .lt → cmp a c = .lt
  total : ∀ a ∈ l, ∀ b ∈ l, a = b ∨ cmp a b = .lt ∨ cmp b a = .lt

theorem strictTotalOn {l : List α} (hstrict : ∀ a ∈ l, ∀ b ∈ l, cmp a b = .eq → a = b) :
    StrictTotalOn cmp l where
  irrefl a _ := by
    have heq : cmp a a = .eq := Std.ReflCmp.compare_self
    simp [heq]
  trans _ _ _ _ _ _ := Std.TransCmp.lt_trans
  total a ha b hb := by
    cases h : cmp a b with
    | lt => exact Or.inr (Or.inl rfl)
    | eq => exact Or.inl (hstrict a ha b hb h)
    | gt => exact Or.inr (Or.inr (Std.OrientedCmp.lt_of_gt h))

end Sorted

/-- Two elements of a list stand in it in one of the two orders. -/
theorem pair_sublist_or {α : Type} {a b : α} {l : List α} (ha : a ∈ l) (hb : b ∈ l) (hne : a ≠ b) :
    [a, b].Sublist l ∨ [b, a].Sublist l := by
  obtain ⟨l₁, l₂, rfl⟩ := List.append_of_mem ha
  rcases List.mem_append.1 hb with hb | hb
  · refine Or.inr ((List.singleton_sublist.2 hb).append ?_)
    exact List.singleton_sublist.2 List.mem_cons_self
  · refine Or.inl (List.Sublist.trans ?_ (List.sublist_append_right l₁ _))
    refine List.Sublist.cons_cons a (List.singleton_sublist.2 ?_)
    exact (List.mem_cons.1 hb).resolve_left fun h => hne h.symm

/-- In a list without repetitions they stand in only one of them. -/
theorem not_pair_sublist {α : Type} {a b : α} {l : List α} (hnodup : l.Nodup)
    (hab : [a, b].Sublist l) : ¬[b, a].Sublist l := by
  have hne : a ≠ b := by
    have h := hab.nodup hnodup
    simpa using h
  induction l with
  | nil => simp at hab
  | cons x rest ih =>
      rw [List.nodup_cons] at hnodup
      intro hba
      rcases List.cons_sublist_cons'.1 hab with hab' | ⟨rfl, hb⟩
      · rcases List.cons_sublist_cons'.1 hba with hba' | ⟨rfl, -⟩
        · exact ih hnodup.2 hab' hba'
        · exact hnodup.1 (hab'.subset (List.mem_cons_of_mem a List.mem_cons_self))
      · rcases List.cons_sublist_cons'.1 hba with hba' | ⟨rfl, -⟩
        · exact hnodup.1 (hba'.subset (List.mem_cons_of_mem b List.mem_cons_self))
        · exact hne rfl

/-- A list splits at a property that, with an element, all elements before it have. -/
theorem filter_append_filter_not {α : Type} {r : α → α → Prop} {p : α → Bool} {l : List α}
    (hl : l.Pairwise r) (hp : ∀ a ∈ l, ∀ b ∈ l, r a b → p b = true → p a = true) :
    l = l.filter p ++ l.filter fun a => !p a := by
  induction l with
  | nil => rfl
  | cons a rest ih =>
      rw [List.pairwise_cons] at hl
      have hrest := ih hl.2 fun b hb c hc =>
        hp b (List.mem_cons_of_mem a hb) c (List.mem_cons_of_mem a hc)
      by_cases ha : p a = true
      · rw [List.filter_cons_of_pos ha, List.filter_cons_of_neg (by simp [ha]), List.cons_append,
          ← hrest]
      · have hnone : rest.filter p = [] := by
          refine List.filter_eq_nil_iff.2 fun b hb hpb => ha ?_
          exact hp a List.mem_cons_self b (List.mem_cons_of_mem a hb) (hl.1 b hb) hpb
        rw [List.filter_cons_of_neg ha, List.filter_cons_of_pos (by simp [ha]), hnone,
          List.nil_append]
        rw [hnone, List.nil_append] at hrest
        rw [← hrest]

/-! ## Optional keys -/

/-- Compare optional keys, missing ones last. -/
def cmpNoneLast {K : Type} (cmp : K → K → Ordering) : Option K → Option K → Ordering
  | some a, some b => cmp a b
  | some _, none => .lt
  | none, some _ => .gt
  | none, none => .eq

instance instTransCmpNoneLast {K : Type} (cmp : K → K → Ordering) [h : Std.TransCmp cmp] :
    Std.TransCmp (cmpNoneLast cmp) where
  eq_swap {a b} := by
    cases a <;> cases b <;> first | rfl | exact h.eq_swap
  isLE_trans {a b c} hab hbc := by
    cases a <;> cases b <;> cases c <;>
      first
        | exact h.isLE_trans hab hbc
        | simp_all [cmpNoneLast]

/-- What comes no later than an element with a key has a key. -/
theorem isSome_of_cmpNoneLast {K : Type} {cmp : K → K → Ordering} {a b : Option K}
    (h : (cmpNoneLast cmp a b).isLE = true) (hb : b.isSome) : a.isSome := by
  cases a with
  | some a => rfl
  | none =>
      obtain ⟨b, rfl⟩ := Option.isSome_iff_exists.1 hb
      exact absurd h (by simp [cmpNoneLast])

theorem cmpNoneLast_of_none {K : Type} {cmp : K → K → Ordering} {a b : Option K}
    (ha : ¬a.isSome) (hb : ¬b.isSome) : cmpNoneLast cmp a b = .eq := by
  rw [Option.not_isSome_iff_eq_none] at ha hb
  rw [ha, hb]
  rfl

/-- Compare by a key. -/
theorem transCmp_on {α K : Type} (cmp : K → K → Ordering) [h : Std.TransCmp cmp]
    (f : α → K) : Std.TransCmp fun a b => cmp (f a) (f b) where
  eq_swap := h.eq_swap
  isLE_trans := h.isLE_trans

/-- One comparison after the other. -/
theorem transCmp_then {α : Type} {cmp₁ cmp₂ : α → α → Ordering} (_ : Std.TransCmp cmp₁)
    (_ : Std.TransCmp cmp₂) : Std.TransCmp fun a b => (cmp₁ a b).then (cmp₂ a b) :=
  inferInstanceAs (Std.TransCmp (compareLex cmp₁ cmp₂))

end PreloadNg
