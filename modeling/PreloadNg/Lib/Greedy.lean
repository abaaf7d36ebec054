import Mathlib.Algebra.Order.BigOperators.Group.List
import Mathlib.Data.List.Perm.Subperm
import Mathlib.Tactic

set_option autoImplicit false

/-! # Greedy selection under a budget

Items are taken in order as long as they fit into what is left of a budget; an item that does not
fit is skipped, and smaller ones after it are still taken. -/

namespace PreloadNg

namespace Greedy

variable {α : Type} (w : α → ℕ)

/-- Total weight. -/
def weight (l : List α) : ℕ := (l.map w).sum

/-- The items taken from `l` with budget `b`. -/
def pick : ℕ → List α → List α
  | _, [] => []
  | b, a :: rest => if w a ≤ b then a :: pick (b - w a) rest else pick b rest

variable {w}

@[simp] theorem weight_nil : weight w [] = 0 := rfl

@[simp] theorem weight_cons (a : α) (l : List α) : weight w (a :: l) = w a + weight w l := by
  simp [weight]

@[simp] theorem weight_append (l₁ l₂ : List α) :
    weight w (l₁ ++ l₂) = weight w l₁ + weight w l₂ := by
  simp [weight]

theorem weight_perm {l₁ l₂ : List α} (h : l₁.Perm l₂) : weight w l₁ = weight w l₂ :=
  (h.map w).sum_eq

theorem weight_sublist {l₁ l₂ : List α} (h : l₁.Sublist l₂) : weight w l₁ ≤ weight w l₂ :=
  (h.map w).sum_le_sum (fun _ _ => Nat.zero_le _)

theorem weight_subset {l₁ l₂ : List α} (hnodup : l₁.Nodup) (h : l₁ ⊆ l₂) :
    weight w l₁ ≤ weight w l₂ := by
  obtain ⟨l, hperm, hsub⟩ := List.subperm_of_subset hnodup h
  rw [← weight_perm hperm]
  exact weight_sublist hsub

theorem le_weight {a : α} {l : List α} (h : a ∈ l) : w a ≤ weight w l := by
  obtain ⟨l₁, l₂, rfl⟩ := List.append_of_mem h
  rw [weight_append, weight_cons]
  omega

/-! ## What is taken -/

theorem pick_cons_of_le {a : α} {b : ℕ} (h : w a ≤ b) (l : List α) :
    pick w b (a :: l) = a :: pick w (b - w a) l := by
  rw [pick, if_pos h]

theorem pick_cons_of_lt {a : α} {b : ℕ} (h : b < w a) (l : List α) :
    pick w b (a :: l) = pick w b l := by
  rw [pick, if_neg (by omega)]

theorem pick_sublist (b : ℕ) (l : List α) : (pick w b l).Sublist l := by
  induction l generalizing b with
  | nil => exact List.Sublist.refl _
  | cons a rest ih =>
      rcases Nat.lt_or_ge b (w a) with h | h
      · rw [pick_cons_of_lt h]
        exact (ih b).cons a
      · rw [pick_cons_of_le h]
        exact (ih _).cons_cons a

theorem weight_pick_le (b : ℕ) (l : List α) : weight w (pick w b l) ≤ b := by
  induction l generalizing b with
  | nil => exact Nat.zero_le _
  | cons a rest ih =>
      rcases Nat.lt_or_ge b (w a) with h | h
      · rw [pick_cons_of_lt h]
        exact ih b
      · rw [pick_cons_of_le h, weight_cons]
        have := ih (b - w a)
        omega

theorem pick_append (b : ℕ) (l₁ l₂ : List α) :
    pick w b (l₁ ++ l₂) = pick w b l₁ ++ pick w (b - weight w (pick w b l₁)) l₂ := by
  induction l₁ generalizing b with
  | nil => simp [pick]
  | cons a rest ih =>
      rcases Nat.lt_or_ge b (w a) with h | h
      · rw [List.cons_append, pick_cons_of_lt h, pick_cons_of_lt h, ih]
      · rw [List.cons_append, pick_cons_of_le h, pick_cons_of_le h, ih, weight_cons,
          List.cons_append, Nat.sub_sub]

/-- An item that is not taken did not fit beside what was taken before it. -/
theorem lt_of_not_mem_pick {a : α} {b : ℕ} {l₁ l₂ : List α}
    (h : a ∉ pick w b (l₁ ++ a :: l₂)) : b < weight w (pick w b l₁) + w a := by
  have hle := weight_pick_le (w := w) b l₁
  by_contra hfit
  have hroom : w a ≤ b - weight w (pick w b l₁) := by omega
  rw [pick_append, pick_cons_of_le hroom] at h
  exact h (List.mem_append_right _ List.mem_cons_self)

/-! ## Groups of equal rank

The items come group by group; the order within a group is open. The selection does not depend on
it when the items of each group that fit one by one also fit together. -/

variable (w)

/-- The items that fit one by one. -/
def fits (b : ℕ) (g : List α) : List α := g.filter fun a => w a ≤ b

/-- In each group, the items that fit one by one into what the earlier groups leave. -/
def pickGroups : ℕ → List (List α) → List (List α)
  | _, [] => []
  | b, g :: gs => fits w b g :: pickGroups (b - weight w (fits w b g)) gs

/-- In each group, the items that fit one by one also fit together. -/
def Settled : ℕ → List (List α) → Prop
  | _, [] => True
  | b, g :: gs => weight w (fits w b g) ≤ b ∧ Settled (b - weight w (fits w b g)) gs

instance instDecidableSettled : ∀ (b : ℕ) (gs : List (List α)), Decidable (Settled w b gs)
  | _, [] => inferInstanceAs (Decidable True)
  | b, g :: gs =>
    have := instDecidableSettled (b - weight w (fits w b g)) gs
    inferInstanceAs (Decidable (_ ∧ _))

variable {w}

theorem mem_fits {b : ℕ} {g : List α} {a : α} : a ∈ fits w b g ↔ a ∈ g ∧ w a ≤ b := by
  simp [fits]

theorem fits_perm {g g' : List α} (h : g.Perm g') (b : ℕ) : (fits w b g).Perm (fits w b g') :=
  h.filter _

/-- If all that fit fit together, all are taken. -/
theorem pick_eq_fits {b : ℕ} {g : List α} (h : weight w (fits w b g) ≤ b) :
    pick w b g = fits w b g := by
  induction g generalizing b with
  | nil => rfl
  | cons a rest ih =>
      rcases Nat.lt_or_ge b (w a) with ha | ha
      · have hfits : fits w b (a :: rest) = fits w b rest :=
          List.filter_cons_of_neg (by simpa using ha)
        rw [hfits] at h ⊢
        rw [pick_cons_of_lt ha, ih h]
      · have hfits : fits w b (a :: rest) = a :: fits w b rest :=
          List.filter_cons_of_pos (by simpa using ha)
        rw [hfits, weight_cons] at h
        -- what fits at first still fits after `a` is taken
        have hrest : fits w (b - w a) rest = fits w b rest := by
          refine List.filter_congr fun x hx => ?_
          refine decide_eq_decide.2 ⟨fun hle => by omega, fun hle => ?_⟩
          have := le_weight (w := w) (mem_fits.2 ⟨hx, hle⟩)
          omega
        rw [hfits, pick_cons_of_le ha, ih (by rw [hrest]; omega), hrest]

theorem pick_flatten {b : ℕ} {gs : List (List α)} (h : Settled w b gs) :
    pick w b gs.flatten = (pickGroups w b gs).flatten := by
  induction gs generalizing b with
  | nil => rfl
  | cons g gs ih =>
      rw [List.flatten_cons, pick_append, pick_eq_fits h.1, ih h.2, pickGroups, List.flatten_cons]

theorem pickGroups_subset (b : ℕ) (gs : List (List α)) :
    List.Forall₂ (fun g g' => g' ⊆ g) gs (pickGroups w b gs) := by
  induction gs generalizing b with
  | nil => exact List.Forall₂.nil
  | cons g gs ih => exact List.Forall₂.cons (List.filter_subset_self g) (ih _)

theorem pickGroups_perm {gs gs' : List (List α)} (h : List.Forall₂ List.Perm gs gs') (b : ℕ) :
    List.Forall₂ List.Perm (pickGroups w b gs) (pickGroups w b gs') := by
  induction h generalizing b with
  | nil => exact List.Forall₂.nil
  | cons hg _ ih =>
      have hfits := fits_perm (w := w) hg b
      rw [pickGroups, pickGroups, weight_perm hfits]
      exact List.Forall₂.cons hfits (ih _)

theorem Settled.perm {b : ℕ} {gs gs' : List (List α)} (h : List.Forall₂ List.Perm gs gs')
    (hs : Settled w b gs) : Settled w b gs' := by
  induction h generalizing b with
  | nil => trivial
  | cons hg _ ih =>
      rw [Settled, weight_perm (fits_perm (w := w) hg b)] at hs
      exact ⟨hs.1, ih hs.2⟩

/-- In a settled list, reordering the groups reorders the selection. -/
theorem Settled.pick_perm {b : ℕ} {gs gs' : List (List α)} (hs : Settled w b gs)
    (h : List.Forall₂ List.Perm gs gs') : (pick w b gs'.flatten).Perm (pick w b gs.flatten) := by
  rw [pick_flatten hs, pick_flatten (hs.perm h)]
  exact (List.Perm.flatten_congr (pickGroups_perm h b)).symm

/-- If what fits does not fit together, an item of the group that is left out could be taken
    first. -/
theorem exists_left_out {b : ℕ} {g : List α} (hnodup : g.Nodup) (h : b < weight w (fits w b g)) :
    ∃ a ∈ g, w a ≤ b ∧ a ∉ pick w b g := by
  by_contra hall
  push Not at hall
  have hsub : fits w b g ⊆ pick w b g := fun a ha =>
    hall a (mem_fits.1 ha).1 (mem_fits.1 ha).2
  have hle := (weight_subset (w := w) (hnodup.filter _) hsub).trans (weight_pick_le b g)
  exact absurd hle (by unfold fits at h; omega)

/-- The selection is the same for every order within the groups exactly when the list is
    settled. -/
theorem settled_iff {b : ℕ} {gs : List (List α)} (hnodup : gs.flatten.Nodup) :
    Settled w b gs ↔ ∀ gs', List.Forall₂ List.Perm gs gs' →
      (pick w b gs'.flatten).Perm (pick w b gs.flatten) := by
  constructor
  · intro hs gs' h
    exact hs.pick_perm h
  · intro hsame
    induction gs generalizing b with
    | nil => trivial
    | cons g gs ih =>
        rw [List.flatten_cons, List.nodup_append'] at hnodup
        obtain ⟨hg, hgs, hdisj⟩ := hnodup
        have hhead : weight w (fits w b g) ≤ b := by
          by_contra hlt
          obtain ⟨a, hag, hab, hout⟩ := exists_left_out hg (Nat.lt_of_not_le hlt)
          obtain ⟨l₁, l₂, rfl⟩ := List.append_of_mem hag
          -- put `a` first
          have hperm := hsame ((a :: (l₁ ++ l₂)) :: gs)
            (List.Forall₂.cons List.perm_middle (List.forall₂_same.2 fun g _ => List.Perm.refl g))
          have hin : a ∈ pick w b ((l₁ ++ a :: l₂) :: gs).flatten := by
            refine hperm.mem_iff.1 ?_
            rw [List.flatten_cons, List.cons_append, pick_cons_of_le hab]
            exact List.mem_cons_self
          rw [List.flatten_cons, pick_append, List.mem_append] at hin
          rcases hin with hin | hin
          · exact hout hin
          · exact hdisj hag ((pick_sublist _ _).subset hin)
        refine ⟨hhead, ih hgs ?_⟩
        intro gs' h
        have hperm := hsame (g :: gs') (List.Forall₂.cons (List.Perm.refl g) h)
        rw [List.flatten_cons, List.flatten_cons, pick_append, pick_append, pick_eq_fits hhead]
          at hperm
        exact (List.perm_append_left_iff _).1 hperm

end Greedy

end PreloadNg
