import Mathlib.Analysis.Calculus.Deriv.MeanValue
import Mathlib.Analysis.Calculus.Deriv.Pow
import Mathlib.Analysis.SpecialFunctions.ExpDeriv
import Mathlib.Topology.Algebra.Module.ModuleTopology
import PreloadNg.Lib.RealFunctions
import PreloadNg.Math.ExpSeams

set_option autoImplicit false

/-! # Accuracy

The relative error of `fastExpNeg` is that of its polynomial, which stops at the fifth power: it is
largest where the reduced argument is half a step of `ln2`, and there it is `3.2e-6`. -/

namespace PreloadNg

namespace FastExpNeg

/-! ## The polynomial against the exponential -/

theorem cast_p (q : ℚ) : p (q : ℝ) = (p q : ℚ) := by
  rw [p_eq, p_eq]
  push_cast
  rfl

theorem hasDerivAt_p (x : ℝ) : HasDerivAt p (slope x) x := by
  have hsquare := ((hasDerivAt_id x).const_add 1).add ((hasDerivAt_pow 2 x).div_const 2)
  have hcubic := hsquare.add ((hasDerivAt_pow 3 x).const_mul (11184811 / 2 ^ 26))
  have hquartic := hcubic.add ((hasDerivAt_pow 4 x).const_mul (11184811 / 2 ^ 28))
  have hquintic := hquartic.add ((hasDerivAt_pow 5 x).const_mul (8947849 / 2 ^ 30))
  rw [show (p : ℝ → ℝ) = _ from funext p_eq]
  refine hquintic.congr_deriv ?_
  rw [slope]
  push_cast
  ring

/-- The share of `exp r` that the polynomial computes. -/
noncomputable def share (r : ℝ) : ℝ := p r * Real.exp (-r)

theorem hasDerivAt_share (x : ℝ) : HasDerivAt share ((slope x - p x) * Real.exp (-x)) x := by
  refine ((hasDerivAt_p x).mul (hasDerivAt_neg x).exp).congr_deriv ?_
  ring

theorem continuous_share : Continuous share :=
  continuous_iff_continuousAt.2 fun x => (hasDerivAt_share x).continuousAt

/-- The sixth term of the series is missing, and the coefficients are rounded. -/
theorem slope_sub_p (x : ℝ) :
    slope x - p x = x ^ 2 * (1 / 2 ^ 26 + x ^ 2 / 2 ^ 30 - 8947849 / 2 ^ 30 * x ^ 3) := by
  rw [slope, p_eq]
  ring

theorem strictMonoOn_share : StrictMonoOn share (Set.Icc (-0.35) 0) := by
  refine strictMonoOn_of_deriv_pos (convex_Icc _ _) continuous_share.continuousOn fun x hx => ?_
  rw [interior_Icc] at hx
  have hcubic : x ^ 3 < 0 := Odd.pow_neg (by decide) hx.2
  have hsq : 0 < x ^ 2 := sq_pos_of_neg hx.2
  have hrest : 0 < 1 / 2 ^ 26 + x ^ 2 / 2 ^ 30 - 8947849 / 2 ^ 30 * x ^ 3 := by linarith
  rw [(hasDerivAt_share x).deriv, slope_sub_p]
  positivity

theorem strictAntiOn_share : StrictAntiOn share (Set.Icc (1 / 50) 0.35) := by
  refine strictAntiOn_of_deriv_neg (convex_Icc _ _) continuous_share.continuousOn fun x hx => ?_
  rw [interior_Icc] at hx
  obtain ⟨hlo, hhi⟩ := hx
  have hsq : (1 / 50) ^ 2 ≤ x ^ 2 := by gcongr
  have hcubic : 1 / 50 * x ^ 2 ≤ x * x ^ 2 := by gcongr
  have hrest : 1 / 2 ^ 26 + x ^ 2 / 2 ^ 30 - 8947849 / 2 ^ 30 * x ^ 3 < 0 := by linarith
  rw [(hasDerivAt_share x).deriv, slope_sub_p]
  exact mul_neg_of_neg_of_pos (mul_neg_of_pos_of_neg (by positivity) hrest) (Real.exp_pos _)

/-! ## Bounds of the share -/

theorem share_lt_iff {x v : ℝ} : share x < v ↔ p x < v * Real.exp x := by
  rw [share, Real.exp_neg, ← div_eq_mul_inv, div_lt_iff₀ (Real.exp_pos x)]

theorem lt_share_iff {x v : ℝ} : v < share x ↔ v * Real.exp x < p x := by
  rw [share, Real.exp_neg, ← div_eq_mul_inv, lt_div_iff₀ (Real.exp_pos x)]

theorem share_zero : share 0 = 1 := by
  rw [share, p_eq]
  simp

/-- A value of the share is compared in the rationals. -/
theorem share_lt {q v : ℚ}
    (h : |q| ≤ 1 ∧ 0 ≤ v ∧ p q < v * (expSum 12 q - expRest 12 q)) : share q < v := by
  obtain ⟨hq, hv, h⟩ := h
  have hexp := le_exp_of_expSum (show 0 < 12 by decide) hq le_rfl
  rw [share_lt_iff, cast_p]
  calc ((p q : ℚ) : ℝ) < ((v * (expSum 12 q - expRest 12 q) : ℚ) : ℝ) := by exact_mod_cast h
    _ = v * ((expSum 12 q - expRest 12 q : ℚ) : ℝ) := by push_cast; rfl
    _ ≤ v * Real.exp q := by gcongr

theorem lt_share {q v : ℚ}
    (h : |q| ≤ 1 ∧ 0 ≤ v ∧ v * (expSum 12 q + expRest 12 q) < p q) : v < share q := by
  obtain ⟨hq, hv, h⟩ := h
  have hexp := exp_le_of_expSum (show 0 < 12 by decide) hq le_rfl
  rw [lt_share_iff, cast_p]
  calc (v : ℝ) * Real.exp q ≤ v * ((expSum 12 q + expRest 12 q : ℚ) : ℝ) := by gcongr
    _ = ((v * (expSum 12 q + expRest 12 q) : ℚ) : ℝ) := by push_cast; rfl
    _ < ((p q : ℚ) : ℝ) := by exact_mod_cast h

/-- The first six terms of the series. -/
theorem sum_range_six (x : ℝ) :
    ∑ i ∈ Finset.range 6, x ^ i / (i.factorial : ℝ) =
      1 + x + x ^ 2 / 2 + x ^ 3 / 6 + x ^ 4 / 24 + x ^ 5 / 120 := by
  simp [Finset.sum_range_succ, Nat.factorial]

/-- The coefficients are rounded up, a little. -/
theorem p_mem_of_nonneg {x : ℝ} (hx : 0 ≤ x) :
    ∑ i ∈ Finset.range 6, x ^ i / (i.factorial : ℝ) ≤ p x ∧
      p x ≤ (1 + 1e-7) * ∑ i ∈ Finset.range 6, x ^ i / (i.factorial : ℝ) := by
  have hsquare : 0 ≤ x ^ 2 := by positivity
  have hcubic : 0 ≤ x ^ 3 := by positivity
  have hquartic : 0 ≤ x ^ 4 := by positivity
  have hquintic : 0 ≤ x ^ 5 := by positivity
  rw [sum_range_six, p_eq]
  constructor <;> linarith

theorem share_le {x : ℝ} (hlo : -0.35 ≤ x) : share x ≤ 1 + 1e-7 := by
  rcases le_total x 0 with hneg | hpos
  · have hmono : share x ≤ share 0 :=
      strictMonoOn_share.monotoneOn ⟨hlo, hneg⟩ ⟨by norm_num, le_rfl⟩ hneg
    rw [share_zero] at hmono
    linarith
  · rw [← not_lt, lt_share_iff, not_lt]
    calc p x ≤ (1 + 1e-7) * ∑ i ∈ Finset.range 6, x ^ i / (i.factorial : ℝ) :=
          (p_mem_of_nonneg hpos).2
      _ ≤ (1 + 1e-7) * Real.exp x := by
          gcongr
          exact Real.sum_le_exp_of_nonneg hpos 6

/-- Between the two pieces on which the share is monotone it is almost `1`. -/
theorem le_share_of_small {x : ℝ} (hlo : 0 ≤ x) (hhi : x ≤ 1 / 50) : 1 - 1e-8 ≤ share x := by
  have hrest : x ^ 6 ≤ (1 / 50) ^ 6 := by gcongr
  have hbound := Real.exp_bound' hlo (hhi.trans (by norm_num)) (show 0 < 6 by decide)
  have hseries := (p_mem_of_nonneg hlo).1
  have hone := Real.one_le_exp hlo
  rw [← not_lt, share_lt_iff, not_lt]
  norm_num [Nat.factorial] at hbound
  linarith

/-- What the polynomial loses where a reduced argument can be. -/
theorem le_share_of_mem {x : ℝ} (hlo : -0.3465748 ≤ x) (hhi : x ≤ 0.3465736) :
    1 - 3.25e-6 ≤ share x := by
  have hleft := lt_share (q := -0.3465748) (v := 1 - 3.25e-6) (by decide +kernel)
  have hright := lt_share (q := 0.3465736) (v := 1 - 3.25e-6) (by decide +kernel)
  push_cast at hleft hright
  rcases le_total x 0 with hneg | hpos
  · exact hleft.le.trans (strictMonoOn_share.monotoneOn ⟨by norm_num, by norm_num⟩
      ⟨by linarith, hneg⟩ hlo)
  · rcases le_total x (1 / 50) with hsmall | hlarge
    · exact le_trans (by norm_num) (le_share_of_small hpos hsmall)
    · exact hright.le.trans (strictAntiOn_share.antitoneOn ⟨hlarge, by linarith⟩
        ⟨by norm_num, by norm_num⟩ hhi)

/-- The arguments at which the share reaches a level close to the documented accuracy. -/
theorem exists_le_share_iff {v : ℝ} (hv : 1 - 2e-7 ≤ v) (hv' : v ≤ 1 - 2e-7 + 1e-11) :
    ∃ lo ∈ Set.Ioo (-0.22178 : ℝ) (-0.22177), ∃ hi ∈ Set.Ioo (0.23681 : ℝ) 0.23682,
      ∀ x ∈ Set.Icc (-0.35 : ℝ) 0.35, v ≤ share x ↔ lo ≤ x ∧ x ≤ hi := by
  have hbelow := share_lt (q := -0.22178) (v := 1 - 2e-7) (by decide +kernel)
  have habove := lt_share (q := -0.22177) (v := 1 - 2e-7 + 1e-11) (by decide +kernel)
  have habove' := lt_share (q := 0.23681) (v := 1 - 2e-7 + 1e-11) (by decide +kernel)
  have hbelow' := share_lt (q := 0.23682) (v := 1 - 2e-7) (by decide +kernel)
  push_cast at hbelow habove habove' hbelow'
  obtain ⟨lo, hlo, hlo'⟩ := strictMonoOn_share.exists_le_iff continuous_share.continuousOn
    (a := -0.22178) (b := -0.22177) (by norm_num) (Set.Icc_subset_Icc (by norm_num) (by norm_num))
    (hbelow.trans_le hv) (hv'.trans_lt habove)
  obtain ⟨hi, hhi, hhi'⟩ := strictAntiOn_share.exists_le_iff continuous_share.continuousOn
    (a := 0.23681) (b := 0.23682) (by norm_num) (Set.Icc_subset_Icc (by norm_num) (by norm_num))
    (hv'.trans_lt habove') (hbelow'.trans_le hv)
  have hzero : lo < 0 := hlo.2.trans (by norm_num)
  have hfifty : 1 / 50 < hi := lt_trans (by norm_num) hhi.1
  refine ⟨lo, hlo, hi, hhi, fun x hx => ?_⟩
  rcases le_total x 0 with hneg | hpos
  · rw [hlo' x ⟨hx.1, hneg⟩, and_iff_left (by linarith)]
  · rw [and_iff_right (hzero.le.trans hpos)]
    rcases le_total x (1 / 50) with hsmall | hlarge
    · have hsettled : v ≤ share x := le_trans (by linarith) (le_share_of_small hpos hsmall)
      exact iff_of_true hsettled (by linarith)
    · exact hhi' x ⟨hlarge, hx.2⟩

/-! ## The constant for `ln 2` -/

/-- What the power of two makes of `n` steps of `ln2`. -/
noncomputable def drift (n : ℤ) : ℝ :=
  ((Binary32.fromBits (bits n)).getD 0 : ℚ) / Real.exp (n * ln2)

theorem drift_eq {m : ℤ} (hlo : -126 ≤ m) (hhi : m ≤ 0) : drift m = (2 / Real.exp ln2) ^ m := by
  have hsteps : Real.exp (m * ln2) = Real.exp ln2 ^ m := by
    exact_mod_cast Complex.exp_int_mul (ln2 : ℝ) m
  rw [drift, fromBits_bits hlo (by omega), hsteps, div_zpow]
  simp

theorem exp_ln2_mem : 1 - 6e-14 ≤ Real.exp ln2 / 2 ∧ Real.exp ln2 / 2 ≤ 1 := by
  have hlo := le_exp_of_expSum (x := ln2) (v := 2 * (1 - 6e-14)) (show 0 < 20 by decide)
    (by decide +kernel) (by decide +kernel)
  have hhi := exp_le_of_expSum (x := ln2) (v := 2) (show 0 < 20 by decide)
    (by decide +kernel) (by decide +kernel)
  push_cast at hlo hhi
  constructor <;> linarith

theorem drift_mem {m : ℤ} (hlo : -126 ≤ m) (hhi : m ≤ 0) : 1 - 1e-11 ≤ drift m ∧ drift m ≤ 1 := by
  obtain ⟨k, rfl⟩ : ∃ k : ℕ, m = -k := ⟨(-m).toNat, by omega⟩
  obtain ⟨hbelow, habove⟩ := exp_ln2_mem
  have hpow : drift (-k) = (Real.exp ln2 / 2) ^ k := by
    rw [drift_eq hlo hhi, zpow_neg, zpow_natCast, ← inv_pow, inv_div]
  have hsteps : (k : ℝ) ≤ 126 := by exact_mod_cast (show k ≤ 126 by omega)
  have hbernoulli : 1 + k * (Real.exp ln2 / 2 - 1) ≤ (Real.exp ln2 / 2) ^ k := by
    simpa using one_add_mul_le_pow (show -2 ≤ Real.exp ln2 / 2 - 1 by linarith) k
  have hloss : 126 * (Real.exp ln2 / 2 - 1) ≤ k * (Real.exp ln2 / 2 - 1) :=
    mul_le_mul_of_nonpos_right hsteps (by linarith)
  rw [hpow]
  exact ⟨by linarith, pow_le_one₀ (by linarith) habove⟩

/-- The two sources of error. -/
theorem fastExpNeg_eq_share {x : ℝ} (hx : -87 ≤ x) :
    fastExpNeg x = share (r x) * drift (n x) * Real.exp x := by
  have hexp : Real.exp x = Real.exp (r x) * Real.exp (n x * ln2) := by
    rw [← Real.exp_add, r_eq, sub_add_cancel]
  have hpos := Real.exp_pos (r x)
  have hpos' := Real.exp_pos (n x * ln2)
  rw [fastExpNeg, if_neg (not_lt.2 hx), hexp, share, drift, Real.exp_neg]
  field_simp

/-! ## The error -/

/-- The value is never much too large, so the error is what the share loses. -/
theorem abs_sub_le_iff {ε x : ℝ} (hε : 1e-7 ≤ ε) (hx : -87 ≤ x) (hx' : x ≤ 0) :
    |fastExpNeg x - Real.exp x| ≤ ε * Real.exp x ↔ (1 - ε) / drift (n x) ≤ share (r x) := by
  obtain ⟨hlo, hhi⟩ := n_mem hx hx'
  obtain ⟨hdrift, hdrift'⟩ := drift_mem hlo hhi
  have hpos := Real.exp_pos x
  have hdriftPos : 0 < drift (n x) := lt_of_lt_of_le (by norm_num) hdrift
  have hsplit : fastExpNeg x - Real.exp x =
      (share (r x) * drift (n x) - 1) * Real.exp x := by
    rw [fastExpNeg_eq_share hx]
    ring
  have habove : share (r x) * drift (n x) - 1 ≤ ε := by
    have hshare : share (r x) ≤ 1 + 1e-7 := share_le (by linarith [(r_mem hx hx').1])
    have hprod : share (r x) * drift (n x) ≤ (1 + 1e-7) * 1 := by gcongr
    linarith
  rw [hsplit, abs_mul, abs_of_pos hpos, mul_le_mul_iff_left₀ hpos, abs_le,
    and_iff_left habove, div_le_iff₀ hdriftPos]
  constructor <;> intro h <;> linarith

/-- The error is below the tolerance of the unit test. -/
theorem abs_fastExpNeg_sub_exp_le {x : ℝ} (hx : -87 ≤ x) (hx' : x ≤ 0) :
    |fastExpNeg x - Real.exp x| ≤ 3.3e-6 * Real.exp x := by
  obtain ⟨hlo, hhi⟩ := n_mem hx hx'
  have hdrift := (drift_mem hlo hhi).1
  obtain ⟨hr, hr'⟩ := r_mem hx hx'
  rw [abs_sub_le_iff (by norm_num) hx hx', div_le_iff₀ (by linarith)]
  calc 1 - 3.3e-6 ≤ (1 - 3.25e-6) * (1 - 1e-11) := by norm_num
    _ ≤ share (r x) * drift (n x) := by
      have hshare := le_share_of_mem hr hr'
      gcongr

theorem level_mem {m : ℤ} (hlo : -126 ≤ m) (hhi : m ≤ 0) :
    1 - 2e-7 ≤ (1 - 2e-7) / drift m ∧ (1 - 2e-7) / drift m ≤ 1 - 2e-7 + 1e-11 := by
  obtain ⟨hdrift, hdrift'⟩ := drift_mem hlo hhi
  have hpos : 0 < drift m := lt_of_lt_of_le (by norm_num) hdrift
  rw [le_div_iff₀ hpos, div_le_iff₀ hpos]
  constructor <;> linarith

end FastExpNeg

/-! ## The documented accuracy -/

open FastExpNeg

/-- In each piece the documented accuracy holds from `0.2218` below the multiple of `ln2` to `0.2368`
    above it, and nowhere else. -/
theorem accurate_iff (m : ℤ) :
    ∃ lo hi : ℝ, (-0.22178 < lo ∧ lo < -0.22177) ∧ (0.23681 < hi ∧ hi < 0.23682) ∧
      ∀ x : ℝ, -87 ≤ x → x ≤ 0 → m - 1 / 2 ≤ x * log2e.value → x * log2e.value < m + 1 / 2 →
        (|fastExpNeg x - Real.exp x| ≤ 2e-7 * Real.exp x ↔
          lo ≤ x - m * ln2 ∧ x - m * ln2 ≤ hi) := by
  by_cases hm : -126 ≤ m ∧ m ≤ 0
  · obtain ⟨lo, hlo, hi, hhi, hiff⟩ :=
      exists_le_share_iff (level_mem hm.1 hm.2).1 (level_mem hm.1 hm.2).2
    refine ⟨lo, hi, hlo, hhi, fun x hx hx' hleft hright => ?_⟩
    obtain rfl : n x = m := n_eq_iff.2 ⟨hleft, hright⟩
    obtain ⟨hr, hr'⟩ := r_mem hx hx'
    rw [abs_sub_le_iff (by norm_num) hx hx', hiff (r x) ⟨by linarith, by linarith⟩, r_eq]
  · -- no argument is in such a piece
    refine ⟨-0.221775, 0.236815, by norm_num, by norm_num, fun x hx hx' hleft hright => ?_⟩
    obtain rfl : n x = m := n_eq_iff.2 ⟨hleft, hright⟩
    exact absurd (n_mem hx hx') hm

/-- Nearly half a step below `0`. -/
theorem error_exceeds_documented :
    ¬ |fastExpNeg (-11 / 32 : ℝ) - Real.exp (-11 / 32)| ≤ 2e-7 * Real.exp (-11 / 32) := by
  have hn : n (-11 / 32 : ℝ) = 0 := by
    rw [n_eq_iff, cast_log2e]
    norm_num
  have hr : r (-11 / 32 : ℝ) = -11 / 32 := by
    rw [r_eq, hn]
    simp
  have hshare := share_lt (q := -11 / 32) (v := 1 - 2e-7) (by decide +kernel)
  push_cast at hshare
  rw [abs_sub_le_iff (by norm_num) (by norm_num) (by norm_num), hn, hr, not_le]
  simpa [drift_eq] using hshare

end PreloadNg
