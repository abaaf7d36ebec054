import Mathlib.Analysis.Complex.Exponential
import Mathlib.Data.Rat.BigOperators
import Mathlib.Topology.Order.IntermediateValue

set_option autoImplicit false

/-! # Real functions

Rational enclosures of the exponential, to be evaluated, and the points where a strictly monotone
function crosses a level. -/

/-! ## Enclosures of the exponential -/

/-- The Taylor polynomial of `exp` with `terms` terms. -/
def expSum (terms : ℕ) (x : ℚ) : ℚ := ∑ i ∈ Finset.range terms, x ^ i / i.factorial

/-- A bound of its remainder on `[-1, 1]`. -/
def expRest (terms : ℕ) (x : ℚ) : ℚ := |x| ^ terms * (terms.succ / (terms.factorial * terms))

theorem abs_exp_sub_expSum_le {terms : ℕ} (hterms : 0 < terms) {x : ℚ} (hx : |x| ≤ 1) :
    |Real.exp x - expSum terms x| ≤ expRest terms x := by
  have hx' : |(x : ℝ)| ≤ 1 := by exact_mod_cast hx
  have hbound := Real.exp_bound hx' hterms
  rw [expSum, expRest]
  push_cast
  push_cast at hbound
  exact hbound

theorem exp_le_of_expSum {terms : ℕ} (hterms : 0 < terms) {x v : ℚ} (hx : |x| ≤ 1)
    (h : expSum terms x + expRest terms x ≤ v) : Real.exp x ≤ v := by
  have hbound := (abs_le.1 (abs_exp_sub_expSum_le hterms hx)).2
  have h' : (expSum terms x : ℝ) + expRest terms x ≤ v := by exact_mod_cast h
  linarith

theorem le_exp_of_expSum {terms : ℕ} (hterms : 0 < terms) {x v : ℚ} (hx : |x| ≤ 1)
    (h : v ≤ expSum terms x - expRest terms x) : v ≤ Real.exp x := by
  have hbound := (abs_le.1 (abs_exp_sub_expSum_le hterms hx)).1
  have h' : (v : ℝ) ≤ expSum terms x - expRest terms x := by exact_mod_cast h
  linarith

/-! ## Thresholds -/

section Thresholds

variable {α β : Type} [ConditionallyCompleteLinearOrder α] [DenselyOrdered α] [TopologicalSpace α]
  [OrderTopology α] [LinearOrder β] [TopologicalSpace β] [OrderClosedTopology β]
  {f : α → β} {s : Set α} {a b : α} {v : β}

theorem StrictMonoOn.exists_le_iff (hf : StrictMonoOn f s) (hcont : ContinuousOn f s)
    (hab : a ≤ b) (hs : Set.Icc a b ⊆ s) (ha : f a < v) (hb : v < f b) :
    ∃ c ∈ Set.Ioo a b, ∀ x ∈ s, v ≤ f x ↔ c ≤ x := by
  obtain ⟨c, hc, hcv⟩ := intermediate_value_Ioo hab (hcont.mono hs) ⟨ha, hb⟩
  refine ⟨c, hc, fun x hx => ?_⟩
  rw [← hcv]
  exact hf.le_iff_le (hs (Set.Ioo_subset_Icc_self hc)) hx

theorem StrictAntiOn.exists_le_iff (hf : StrictAntiOn f s) (hcont : ContinuousOn f s)
    (hab : a ≤ b) (hs : Set.Icc a b ⊆ s) (ha : v < f a) (hb : f b < v) :
    ∃ c ∈ Set.Ioo a b, ∀ x ∈ s, v ≤ f x ↔ x ≤ c := by
  obtain ⟨c, hc, hcv⟩ := intermediate_value_Ioo' hab (hcont.mono hs) ⟨hb, ha⟩
  refine ⟨c, hc, fun x hx => ?_⟩
  rw [← hcv]
  exact hf.le_iff_ge (hs (Set.Ioo_subset_Icc_self hc)) hx

end Thresholds
