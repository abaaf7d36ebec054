import Mathlib.Analysis.Real.Sqrt
import Mathlib.Tactic.Linarith
import Mathlib.Tactic.Ring

set_option autoImplicit false

/-! # The phi coefficient

Two events over a span `t`, with the times `x` and `y` that each of them lasts and the time `z` that
both last. The four cells of the table are `z`, `x - z`, `y - z` and `t - x - y + z`; when none is
negative, the phi coefficient is at most `1` in absolute value. -/

namespace PreloadNg

section Ring

variable {R : Type*} [CommRing R] [LinearOrder R] [IsStrictOrderedRing R]

/-- `phi` is at most `1` in absolute value, without the division and the root. -/
def PhiBounded (t x y z : R) : Prop := (t * z - x * y) ^ 2 ≤ x * y * (t - x) * (t - y)

instance (t x y z : R) : Decidable (PhiBounded t x y z) :=
  inferInstanceAs (Decidable (_ ≤ _))

/-- The square of the determinant of a table is at most the product of its margins. -/
theorem sq_det_le_margins {n₁₁ n₁₀ n₀₁ n₀₀ : R} (h₁₁ : 0 ≤ n₁₁) (h₁₀ : 0 ≤ n₁₀) (h₀₁ : 0 ≤ n₀₁)
    (h₀₀ : 0 ≤ n₀₀) :
    (n₁₁ * n₀₀ - n₁₀ * n₀₁) ^ 2 ≤
      (n₁₁ + n₁₀) * (n₀₁ + n₀₀) * ((n₁₁ + n₀₁) * (n₁₀ + n₀₀)) := by
  have hmain : 0 ≤ n₁₁ * n₀₀ := mul_nonneg h₁₁ h₀₀
  have hcross : 0 ≤ n₁₀ * n₀₁ := mul_nonneg h₁₀ h₀₁
  have hrows : n₁₁ * n₀₀ + n₁₀ * n₀₁ ≤ (n₁₁ + n₁₀) * (n₀₁ + n₀₀) := by
    have := mul_nonneg h₁₁ h₀₁
    have := mul_nonneg h₁₀ h₀₀
    linarith [add_mul n₁₁ n₁₀ (n₀₁ + n₀₀), mul_add n₁₁ n₀₁ n₀₀, mul_add n₁₀ n₀₁ n₀₀]
  have hcols : n₁₁ * n₀₀ + n₁₀ * n₀₁ ≤ (n₁₁ + n₀₁) * (n₁₀ + n₀₀) := by
    have := mul_nonneg h₁₁ h₁₀
    have := mul_nonneg h₀₁ h₀₀
    linarith [add_mul n₁₁ n₀₁ (n₁₀ + n₀₀), mul_add n₁₁ n₁₀ n₀₀, mul_add n₀₁ n₁₀ n₀₀,
      mul_comm n₁₀ n₀₁]
  calc (n₁₁ * n₀₀ - n₁₀ * n₀₁) ^ 2
      ≤ (n₁₁ * n₀₀ + n₁₀ * n₀₁) ^ 2 := by
        refine sq_le_sq' ?_ ?_
        · linarith
        · linarith
    _ = (n₁₁ * n₀₀ + n₁₀ * n₀₁) * (n₁₁ * n₀₀ + n₁₀ * n₀₁) := sq _
    _ ≤ (n₁₁ + n₁₀) * (n₀₁ + n₀₀) * ((n₁₁ + n₀₁) * (n₁₀ + n₀₀)) :=
        mul_le_mul hrows hcols (add_nonneg hmain hcross)
          (le_trans (add_nonneg hmain hcross) hrows)

theorem phiBounded_of_cells {t x y z : R} (hz : 0 ≤ z) (hx : z ≤ x) (hy : z ≤ y)
    (hxy : x + y ≤ t + z) : PhiBounded t x y z := by
  have htable := sq_det_le_margins hz (sub_nonneg.2 hx) (sub_nonneg.2 hy)
    (show 0 ≤ t + z - (x + y) from sub_nonneg.2 hxy)
  unfold PhiBounded
  calc (t * z - x * y) ^ 2
      = (z * (t + z - (x + y)) - (x - z) * (y - z)) ^ 2 := by ring
    _ ≤ (z + (x - z)) * (y - z + (t + z - (x + y))) *
          ((z + (y - z)) * (x - z + (t + z - (x + y)))) := htable
    _ = x * y * (t - x) * (t - y) := by ring

end Ring

/-- The phi coefficient. -/
noncomputable def phi (t x y z : ℝ) : ℝ := (t * z - x * y) / √(x * y * (t - x) * (t - y))

theorem abs_phi_le_one {t x y z : ℝ} (h : PhiBounded t x y z) : |phi t x y z| ≤ 1 := by
  rw [phi, abs_div, abs_of_nonneg (Real.sqrt_nonneg _)]
  exact div_le_one_of_le₀ (Real.abs_le_sqrt h) (Real.sqrt_nonneg _)

/-- Weighting by it never increases a probability. -/
theorem mul_abs_phi_le {t x y z p : ℝ} (h : PhiBounded t x y z) (hp : 0 ≤ p) :
    p * |phi t x y z| ≤ p :=
  mul_le_of_le_one_right hp (abs_phi_le_one h)

/-- The exact inequality over the integers is that over the reals. -/
theorem phiBounded_intCast {t x y z : ℤ} (h : PhiBounded t x y z) :
    PhiBounded (t : ℝ) x y z := by
  unfold PhiBounded at h ⊢
  exact_mod_cast h

end PreloadNg
