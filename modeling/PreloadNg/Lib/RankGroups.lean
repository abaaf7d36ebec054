import Mathlib.Data.List.SplitBy
import Mathlib.Data.List.Forall2
import PreloadNg.Lib.Comparators

set_option autoImplicit false

/-! # Groups of equal rank

A sorted list falls into groups of elements that the comparator calls equal. Its other sorted orders
are those that reorder the groups. -/

namespace PreloadNg

variable {α : Type}

/-- The groups of equal rank of a sorted list. -/
def groupsBy (cmp : α → α → Ordering) (l : List α) : List (List α) :=
  l.splitBy fun a b => cmp a b = .eq

/-- The elements of a group are equal, those of an earlier group come first. -/
structure GroupedBy (cmp : α → α → Ordering) (gs : List (List α)) : Prop where
  within : ∀ g ∈ gs, ∀ a ∈ g, ∀ b ∈ g, cmp a b = .eq
  across : gs.Pairwise fun g g' => ∀ a ∈ g, ∀ b ∈ g', cmp a b = .lt

theorem flatten_groupsBy (cmp : α → α → Ordering) (l : List α) : (groupsBy cmp l).flatten = l :=
  List.flatten_splitBy _ l

variable {cmp : α → α → Ordering}

theorem GroupedBy.cons {g : List α} {gs : List (List α)} (h : GroupedBy cmp (g :: gs)) :
    GroupedBy cmp gs where
  within g' hg' := h.within g' (List.mem_cons_of_mem g hg')
  across := (List.pairwise_cons.1 h.across).2

theorem GroupedBy.lt_of_mem {g : List α} {gs : List (List α)} (h : GroupedBy cmp (g :: gs))
    {a b : α} (ha : a ∈ g) (hb : b ∈ gs.flatten) : cmp a b = .lt := by
  obtain ⟨g', hg', hb⟩ := List.mem_flatten.1 hb
  exact (List.pairwise_cons.1 h.across).1 g' hg' a ha b hb

theorem GroupedBy.sortedBy {gs : List (List α)} (h : GroupedBy cmp gs) :
    SortedBy cmp gs.flatten := by
  refine List.pairwise_flatten.2 ⟨fun g hg => ?_, ?_⟩
  · have hall : g.Pairwise fun _ _ => True := List.pairwise_of_forall fun _ _ => trivial
    refine hall.imp_of_mem fun {a b} ha hb _ => ?_
    exact Ordering.isLE_of_eq_eq (h.within g hg a ha b hb)
  · refine h.across.imp fun {g g'} hlt a ha b hb => ?_
    exact Ordering.isLE_of_eq_lt (hlt a ha b hb)

theorem flatten_subset {gs gs' : List (List α)}
    (hsub : List.Forall₂ (fun g g' => g' ⊆ g) gs gs') : gs'.flatten ⊆ gs.flatten := by
  induction hsub with
  | nil => exact List.Subset.refl _
  | cons hg _ ih =>
      rw [List.flatten_cons, List.flatten_cons]
      exact List.append_subset.2 ⟨List.Subset.trans hg (List.subset_append_left _ _),
        List.Subset.trans ih (List.subset_append_right _ _)⟩

/-- Groups stay groups when their elements are reordered or left out. -/
theorem GroupedBy.subset {gs gs' : List (List α)} (h : GroupedBy cmp gs)
    (hsub : List.Forall₂ (fun g g' => g' ⊆ g) gs gs') : GroupedBy cmp gs' := by
  induction hsub with
  | nil => exact h
  | @cons g g' gs gs' hg hgs ih =>
      have hrest := ih h.cons
      constructor
      · intro x hx a ha b hb
        rcases List.mem_cons.1 hx with rfl | hx
        · exact h.within g List.mem_cons_self a (hg ha) b (hg hb)
        · exact hrest.within x hx a ha b hb
      · refine List.pairwise_cons.2 ⟨fun x hx a ha b hb => ?_, hrest.across⟩
        exact h.lt_of_mem (hg ha) (flatten_subset hgs (List.mem_flatten.2 ⟨x, hx, hb⟩))

variable [Std.TransCmp cmp]

/-- Sorted runs of equal elements that change rank from one to the next are groups. -/
theorem across_of_isChain {gs : List (List α)}
    (hwithin : ∀ g ∈ gs, ∀ a ∈ g, ∀ b ∈ g, cmp a b = .eq) (hne : [] ∉ gs)
    (hsorted : SortedBy cmp gs.flatten)
    (hchain : gs.IsChain fun g g' => ∃ hg hg', cmp (g.getLast hg) (g'.head hg') ≠ .eq) :
    gs.Pairwise fun g g' => ∀ a ∈ g, ∀ b ∈ g', cmp a b = .lt := by
  induction gs with
  | nil => exact List.Pairwise.nil
  | cons g gs ih =>
      rw [List.flatten_cons, SortedBy, List.pairwise_append] at hsorted
      have hrest := ih (fun g' hg' => hwithin g' (List.mem_cons_of_mem g hg'))
        (fun hmem => hne (List.mem_cons_of_mem g hmem)) hsorted.2.1 hchain.tail
      refine List.pairwise_cons.2 ⟨?_, hrest⟩
      cases gs with
      | nil =>
          intro g' hg'
          exact absurd hg' List.not_mem_nil
      | cons g₁ gs =>
          obtain ⟨⟨hg, hg₁, hdiff⟩, -⟩ := List.isChain_cons_cons.1 hchain
          have hfirst : ∀ a ∈ g, ∀ b ∈ g₁, cmp a b = .lt := by
            intro a ha b hb
            have hle := hsorted.2.2 a ha b (List.mem_append_left _ hb)
            refine (Ordering.isLE_iff_eq_lt_or_eq_eq.1 hle).resolve_right fun heq => hdiff ?_
            -- equal elements would give equal ends
            have hlast := hwithin g List.mem_cons_self (g.getLast hg) (List.getLast_mem hg) a ha
            have hhead := hwithin g₁ (List.mem_cons_of_mem g List.mem_cons_self) b hb (g₁.head hg₁)
              (List.head_mem hg₁)
            exact Std.TransCmp.eq_trans hlast (Std.TransCmp.eq_trans heq hhead)
          intro g' hg' a ha b hb
          rcases List.mem_cons.1 hg' with rfl | hg'
          · exact hfirst a ha b hb
          · have hmid := List.head_mem hg₁
            exact Std.TransCmp.lt_trans (hfirst a ha _ hmid)
              ((List.pairwise_cons.1 hrest).1 g' hg' _ hmid b hb)

/-- The groups of a sorted list. -/
theorem groupedBy_groupsBy {l : List α} (h : SortedBy cmp l) : GroupedBy cmp (groupsBy cmp l) := by
  have hwithin : ∀ g ∈ groupsBy cmp l, ∀ a ∈ g, ∀ b ∈ g, cmp a b = .eq := by
    intro g hg a ha b hb
    have htrans : Trans (fun a b : α => cmp a b = .eq) (fun a b => cmp a b = .eq)
      fun a b => cmp a b = .eq := ⟨Std.TransCmp.eq_trans⟩
    have hchain : g.IsChain fun a b => cmp a b = .eq :=
      (List.isChain_of_mem_splitBy hg).imp fun _ _ => of_decide_eq_true
    have hsymm : Std.Symm fun a b : α => cmp a b = .eq := ⟨fun _ _ => Std.OrientedCmp.eq_symm⟩
    exact (List.isChain_iff_pairwise.1 hchain).forall_of_forall
      (fun _ _ => Std.ReflCmp.compare_self) ha hb
  refine ⟨hwithin, across_of_isChain hwithin (List.nil_notMem_splitBy _ l) ?_ ?_⟩
  · rw [flatten_groupsBy]
    exact h
  · refine (List.isChain_getLast_head_splitBy _ l).imp fun g g' ⟨hg, hg', hdiff⟩ => ?_
    exact ⟨hg, hg', of_decide_eq_false hdiff⟩

/-- A sorted reordering of the groups' elements reorders the groups. -/
theorem GroupedBy.exists_perm {gs : List (List α)} (h : GroupedBy cmp gs) {l : List α}
    (hsorted : SortedBy cmp l) (hperm : l.Perm gs.flatten) :
    ∃ gs', List.Forall₂ List.Perm gs gs' ∧ gs'.flatten = l := by
  classical
  induction gs generalizing l with
  | nil =>
      refine ⟨[], List.Forall₂.nil, ?_⟩
      exact (List.perm_nil.1 hperm).symm
  | cons g gs ih =>
      rw [List.flatten_cons] at hperm
      -- an element before one of the first group belongs to it
      have hsplit : l = l.filter (fun a => decide (a ∈ g)) ++
          l.filter fun a => !decide (a ∈ g) := by
        refine filter_append_filter_not hsorted fun a ha b _ hab hb => ?_
        refine decide_eq_true ?_
        by_contra hag
        have hmem := (List.mem_append.1 (hperm.mem_iff.1 ha)).resolve_left hag
        exact Std.OrientedCmp.not_isLE_of_lt (h.lt_of_mem (of_decide_eq_true hb) hmem) hab
      have hnot : ∀ a ∈ gs.flatten, a ∉ g := by
        intro a ha hag
        have hlt := h.lt_of_mem hag ha
        rw [h.within g List.mem_cons_self a hag a hag] at hlt
        exact Ordering.noConfusion hlt
      have hhead : (l.filter fun a => decide (a ∈ g)).Perm g := by
        refine (hperm.filter _).trans (List.Perm.of_eq ?_)
        rw [List.filter_append, List.filter_eq_self.2 (by simp),
          List.filter_eq_nil_iff.2 (by simpa using hnot), List.append_nil]
      have htail : (l.filter fun a => !decide (a ∈ g)).Perm gs.flatten := by
        refine (hperm.filter _).trans (List.Perm.of_eq ?_)
        rw [List.filter_append, List.filter_eq_nil_iff.2 (by simp), List.nil_append,
          List.filter_eq_self.2 (by simpa using hnot)]
      obtain ⟨gs', hgs', hflatten⟩ := ih h.cons (hsorted.sublist List.filter_sublist) htail
      refine ⟨_ :: gs', List.Forall₂.cons hhead.symm hgs', ?_⟩
      rw [List.flatten_cons, hflatten]
      exact hsplit.symm

end PreloadNg
