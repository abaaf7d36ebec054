import Mathlib.Algebra.Order.BigOperators.Ring.Finset
import Mathlib.Tactic.Linarith

set_option autoImplicit false

/-! # Noisy or

The probability that at least one of several independent causes has its effect: one minus the
probability that none has. -/

namespace PreloadNg

variable {ι R : Type*} [CommRing R]

def noisyOr (causes : Finset ι) (p : ι → R) : R := 1 - ∏ i ∈ causes, (1 - p i)

section Order

variable [LinearOrder R] [IsStrictOrderedRing R] {causes : Finset ι} {p : ι → R}
  (h : ∀ i ∈ causes, 0 ≤ p i ∧ p i ≤ 1)

include h

theorem noisyOr_nonneg : 0 ≤ noisyOr causes p := by
  have hprod : ∏ i ∈ causes, (1 - p i) ≤ 1 :=
    Finset.prod_le_one (fun i hi => sub_nonneg.2 (h i hi).2)
      fun i hi => sub_le_self 1 (h i hi).1
  exact sub_nonneg.2 hprod

theorem noisyOr_le_one : noisyOr causes p ≤ 1 := by
  have hprod : 0 ≤ ∏ i ∈ causes, (1 - p i) :=
    Finset.prod_nonneg fun i hi => sub_nonneg.2 (h i hi).2
  exact sub_le_self 1 hprod

/-- Each cause alone has its effect at most as likely. -/
theorem le_noisyOr {i : ι} (hi : i ∈ causes) : p i ≤ noisyOr causes p := by
  classical
  have hrest : ∏ j ∈ causes.erase i, (1 - p j) ≤ 1 :=
    Finset.prod_le_one (fun j hj => sub_nonneg.2 (h j (Finset.mem_of_mem_erase hj)).2)
      fun j hj => sub_le_self 1 (h j (Finset.mem_of_mem_erase hj)).1
  have hprod : ∏ j ∈ causes, (1 - p j) ≤ 1 - p i := by
    rw [← Finset.mul_prod_erase causes _ hi]
    exact mul_le_of_le_one_right (sub_nonneg.2 (h i hi).2) hrest
  unfold noisyOr
  linarith

/-- There is no effect exactly if no cause has one. -/
theorem noisyOr_eq_zero_iff : noisyOr causes p = 0 ↔ ∀ i ∈ causes, p i = 0 := by
  constructor
  · intro hzero i hi
    exact le_antisymm (hzero ▸ le_noisyOr h hi) (h i hi).1
  · intro hall
    unfold noisyOr
    rw [Finset.prod_eq_one fun i hi => by rw [hall i hi, sub_zero], sub_self]

end Order

end PreloadNg
