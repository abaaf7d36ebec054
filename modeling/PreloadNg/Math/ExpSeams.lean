import Mathlib.Algebra.Order.Field.Power
import Mathlib.Tactic.GCongr
import Mathlib.Tactic.Positivity
import PreloadNg.Math.FastExpNeg
import PreloadNg.Prediction.ScoreFormulas

set_option autoImplicit false

/-! # Order of the weights

Each piece of `fastExpNeg` increases. Where two pieces meet the value drops, since the polynomial
of a half step of `ln2` is a little more than twice the polynomial of minus half a step; the drop is
less than what the function gains over `1.5e-6`. -/

namespace PreloadNg

namespace FastExpNeg

variable {K : Type} [Field K] [LinearOrder K] [IsStrictOrderedRing K]

/-! ## The polynomial -/

theorem slope_nonneg {a : K} (ha : -0.35 ≤ a) : 0 ≤ slope a := by
  have hcubic : 0 ≤ a ^ 2 * (33554433 / 2 ^ 26 + 11184811 / 2 ^ 26 * a) :=
    mul_nonneg (sq_nonneg a) (by linarith)
  have hquartic : 0 ≤ 44739245 / 2 ^ 30 * a ^ 4 := by positivity
  rw [slope]
  linarith

/-- `p` lies above its tangents. -/
theorem tangent_le {a b : K} (halo : -0.35 ≤ a) (hahi : a ≤ 0.35) (hblo : -0.35 ≤ b)
    (hbhi : b ≤ 0.35) : p a + slope a * (b - a) ≤ p b := by
  have hcubic : 0 ≤ a ^ 2 * (4 * a + 3 * b + 7 * 0.35) + b ^ 2 * (2 * a + b + 3 * 0.35) :=
    add_nonneg (mul_nonneg (sq_nonneg a) (by linarith)) (mul_nonneg (sq_nonneg b) (by linarith))
  have hquadratic : 0 ≤ 2 * a ^ 2 + (a + b) ^ 2 := by positivity
  have hrest : 0 ≤ 1 / 2 + 11184811 / 2 ^ 26 * (2 * a + b) +
      11184811 / 2 ^ 28 * (2 * a ^ 2 + (a + b) ^ 2) +
      8947849 / 2 ^ 30 * (a ^ 2 * (4 * a + 3 * b) + b ^ 2 * (2 * a + b)) := by
    have hsq : a ^ 2 ≤ 0.35 ^ 2 := sq_le_sq' halo hahi
    have hsq' : b ^ 2 ≤ 0.35 ^ 2 := sq_le_sq' hblo hbhi
    linarith
  have hfactor := mul_nonneg (sq_nonneg (b - a)) hrest
  rw [p_eq, p_eq, slope]
  linarith

theorem p_le_p {a b : K} (ha : -0.35 ≤ a) (hab : a ≤ b) (hb : b ≤ 0.35) : p a ≤ p b := by
  have htangent := tangent_le ha (hab.trans hb) (ha.trans hab) hb
  have hrise := mul_nonneg (slope_nonneg ha) (sub_nonneg.2 hab)
  linarith

theorem p_mem {a : K} (hlo : -0.35 ≤ a) (hhi : a ≤ 0.35) : 1 / 2 ≤ p a ∧ p a ≤ 3 / 2 := by
  have hleft : p (-0.35) ≤ p a := p_le_p le_rfl hlo hhi
  have hright : p a ≤ p 0.35 := p_le_p hlo hhi le_rfl
  constructor
  · refine le_trans ?_ hleft
    norm_num [p_eq]
  · refine hright.trans ?_
    norm_num [p_eq]

/-! ## The seams -/

/-- If `p` at `e` is at most twice `p` at `l`, up to the factor `k`, it stays so to the right: there
    twice the second is the steeper one. -/
theorem p_le_of_base {k l e b c : K} (hk : 1 ≤ k) (hbase : p e ≤ k * (2 * p l))
    (he : -0.35 ≤ e) (he' : e ≤ 0.35) (hl : -0.35 ≤ l) (hb : -0.35 ≤ b) (hb' : b ≤ 0.35)
    (hc : l ≤ c) (hc' : c ≤ 0.35) (hbc : b - e ≤ c - l)
    (hslope : e ≤ b → slope b ≤ 2 * slope l) : p b ≤ k * (2 * p c) := by
  rcases le_total b e with hleft | hright
  · have hmono : p l ≤ p c := p_le_p hl hc hc'
    calc p b ≤ p e := p_le_p hb hleft he'
      _ ≤ k * (2 * p l) := hbase
      _ ≤ k * (2 * p c) := by gcongr
  · have hstep : 0 ≤ b - e := sub_nonneg.2 hright
    have hbelow : p b ≤ p e + slope b * (b - e) := by
      have htangent := tangent_le hb hb' he he'
      linarith
    have habove : p l + slope l * (b - e) ≤ p c := by
      have htangent := tangent_le hl (hc.trans hc') (hl.trans hc) hc'
      have hless := mul_le_mul_of_nonneg_left hbc (slope_nonneg hl)
      linarith
    have hsteeper := mul_le_mul_of_nonneg_right (hslope hright) hstep
    have hrise : 0 ≤ 2 * slope l * (b - e) :=
      mul_nonneg (mul_nonneg two_pos.le (slope_nonneg hl)) hstep
    calc p b ≤ p e + slope b * (b - e) := hbelow
      _ ≤ k * (2 * p l) + 2 * slope l * (b - e) := add_le_add hbase hsteeper
      _ ≤ k * (2 * p l) + k * (2 * slope l * (b - e)) :=
        add_le_add le_rfl (le_mul_of_one_le_left hrise hk)
      _ = k * (2 * (p l + slope l * (b - e))) := by ring
      _ ≤ k * (2 * p c) := by gcongr

theorem slope_le {b : K} (hb : 0 ≤ b) (hb' : b ≤ 0.3465736) :
    slope b ≤ 2 * slope (-0.3465748) := by
  have hmono : slope b ≤ slope 0.3465736 := by
    unfold slope
    gcongr
  refine hmono.trans ?_
  norm_num [slope]

/-- The margins at a seam: `δ` in the argument or `k` in the value make up for the drop. -/
structure Margin (δ k : K) : Prop where
  nonneg : 0 ≤ δ
  small : δ ≤ 0.1
  one_le : 1 ≤ k
  base : p (-0.3465748 + ln2 - δ) ≤ k * (2 * p (-0.3465748))

theorem margin_argument : Margin (K := K) 1.5e-6 1 where
  nonneg := by norm_num
  small := by norm_num
  one_le := le_rfl
  base := by norm_num [p_eq, cast_ln2]

theorem margin_value : Margin (K := K) 0 (1 + 1.5e-6) where
  nonneg := le_rfl
  small := by norm_num
  one_le := by norm_num
  base := by norm_num [p_eq, cast_ln2]

variable {δ k : K}

theorem Margin.p_le (h : Margin δ k) {b c : K} (hb : -0.3465748 ≤ b) (hb' : b ≤ 0.3465736)
    (hc : -0.3465748 ≤ c) (hc' : c ≤ 0.3465736) (hbc : b - ln2 + δ ≤ c) :
    p b ≤ k * (2 * p c) := by
  have hnonneg := h.nonneg
  have hsmall := h.small
  obtain ⟨hln2, hln2'⟩ := ln2_mem (K := K)
  exact p_le_of_base h.one_le h.base (by linarith) (by linarith) (by norm_num) (by linarith)
    (by linarith) hc (by linarith) (by linarith) fun hright => slope_le (by linarith) hb'

/-- Close to the leftmost reduced argument the margin is not less than `1e-6`. -/
theorem two_mul_p_lt {c : K} (hc : -0.3465748 ≤ c) (hc' : c ≤ -0.3465735) :
    2 * p c < p (c + ln2 - 1e-6) := by
  obtain ⟨hln2, hln2'⟩ := ln2_mem (K := K)
  have hright : p (-0.3465748 + ln2 - 1e-6 : K) + 1.4 * (c + 0.3465748) ≤ p (c + ln2 - 1e-6) := by
    have htangent := tangent_le (K := K) (a := -0.3465748 + ln2 - 1e-6) (b := c + ln2 - 1e-6)
      (by linarith) (by linarith) (by linarith) (by linarith)
    have hslope : (1.4 : K) ≤ slope (-0.3465748 + ln2 - 1e-6 : K) := by
      norm_num [slope, cast_ln2]
    have hstep := mul_le_mul_of_nonneg_right hslope (show 0 ≤ c + 0.3465748 by linarith)
    linarith
  have hleft : p c ≤ p (-0.3465748) + 0.8 * (c + 0.3465748) := by
    have htangent := tangent_le (a := c) (b := -0.3465748) (by linarith) (by linarith)
      (by norm_num) (by norm_num)
    have hslope : slope c ≤ 0.8 := by
      have hsq : c ^ 2 ≤ 0.35 ^ 2 := sq_le_sq' (by linarith) (by linarith)
      have hcubic : 0 ≤ c ^ 2 * -c := mul_nonneg (sq_nonneg c) (by linarith)
      have hquartic : c ^ 2 * c ^ 2 ≤ 0.35 ^ 2 * 0.35 ^ 2 := by gcongr
      rw [slope]
      linarith
    have hstep := mul_le_mul_of_nonneg_right hslope (show 0 ≤ c + 0.3465748 by linarith)
    linarith
  have hbase : 2 * p (-0.3465748) + 5e-7 ≤ p (-0.3465748 + ln2 - 1e-6 : K) := by
    norm_num [p_eq, cast_ln2]
  linarith

/-! ## Two arguments -/

section Order

variable [FloorRing K] {x y : K}

theorem fastExpNeg_nonneg (hx : x ≤ 0) : 0 ≤ fastExpNeg x := by
  rcases lt_or_ge x (-87) with hcut | hcut
  · rw [fastExpNeg, if_pos hcut]
  · obtain ⟨hlo, hhi⟩ := r_mem hcut hx
    have hp : 1 / 2 ≤ p (r x) := (p_mem (by linarith) (by linarith)).1
    rw [fastExpNeg_eq hcut hx]
    exact mul_nonneg (by linarith) (by positivity)

/-- In one piece. -/
theorem fastExpNeg_le_of_n_eq (hx : -87 ≤ x) (hxy : x ≤ y) (hy : y ≤ 0) (hn : n x = n y) :
    fastExpNeg x ≤ fastExpNeg y := by
  have hlo := (r_mem hx (hxy.trans hy)).1
  have hhi := (r_mem (hx.trans hxy) hy).2
  have hr : r x ≤ r y := by
    rw [r_eq, r_eq, hn]
    linarith
  have hp : p (r x) ≤ p (r y) := p_le_p (by linarith) hr (by linarith)
  rw [fastExpNeg_eq hx (hxy.trans hy), fastExpNeg_eq (hx.trans hxy) hy, hn]
  gcongr

/-- Across a seam, or several. -/
theorem Margin.fastExpNeg_le (h : Margin δ k) (hx : -87 ≤ x) (hxy : x + δ ≤ y) (hy : y ≤ 0)
    (hn : n x < n y) : fastExpNeg x ≤ k * fastExpNeg y := by
  have hle : x ≤ y := le_trans (le_add_of_nonneg_right h.nonneg) hxy
  obtain ⟨hxlo, hxhi⟩ := r_mem hx (hle.trans hy)
  obtain ⟨hylo, hyhi⟩ := r_mem (hx.trans hle) hy
  rw [fastExpNeg_eq hx (hle.trans hy), fastExpNeg_eq (hx.trans hle) hy]
  rcases eq_or_lt_of_le (Int.add_one_le_iff.2 hn) with hnext | hfar
  · have hr : r x - ln2 + δ ≤ r y := by
      rw [r_eq, r_eq, ← hnext]
      push_cast
      linarith
    calc p (r x) * 2 ^ n x ≤ k * (2 * p (r y)) * 2 ^ n x := by
          gcongr
          exact h.p_le hxlo hxhi hylo hyhi hr
      _ = k * (p (r y) * 2 ^ (n x + 1)) := by
          rw [zpow_add_one₀ two_ne_zero]
          ring
      _ = k * (p (r y) * 2 ^ n y) := by rw [hnext]
  · have hpow : (2 : K) ^ n x * 2 ^ 2 ≤ 2 ^ n y := by
      rw [← zpow_natCast, ← zpow_add₀ two_ne_zero]
      exact zpow_le_zpow_right₀ one_le_two (show n x + 2 ≤ n y by omega)
    have hpx : p (r x) ≤ 3 / 2 := (p_mem (by linarith) (by linarith)).2
    have hpy : 1 / 2 ≤ p (r y) := (p_mem (by linarith) (by linarith)).1
    have hpos : (0 : K) ≤ 2 ^ n x := by positivity
    calc p (r x) * 2 ^ n x ≤ 3 / 2 * 2 ^ n x := by gcongr
      _ ≤ 1 / 2 * (2 ^ n x * 2 ^ 2) := by linarith
      _ ≤ p (r y) * 2 ^ n y := by gcongr
      _ ≤ k * (p (r y) * 2 ^ n y) :=
        le_mul_of_one_le_left (mul_nonneg (by linarith) (by positivity)) h.one_le

theorem n_zero : n (0 : K) = 0 := by
  rw [n_eq_iff]
  norm_num

theorem fastExpNeg_zero : fastExpNeg (0 : K) = 1 := by
  have hr : r (0 : K) = 0 := by
    rw [r_eq, n_zero]
    simp
  rw [fastExpNeg_eq (by norm_num) le_rfl, n_zero, hr, p_eq]
  norm_num

theorem fastExpNeg_le_one (hx : x ≤ 0) : fastExpNeg x ≤ 1 := by
  rcases lt_or_ge x (-87) with hcut | hcut
  · rw [fastExpNeg, if_pos hcut]
    exact zero_le_one
  · obtain ⟨hlo, hhi⟩ := r_mem hcut hx
    rcases eq_or_lt_of_le (n_mem hcut hx).2 with hn | hn
    · rw [← fastExpNeg_zero]
      exact fastExpNeg_le_of_n_eq hcut hx le_rfl (hn.trans n_zero.symm)
    · have hpow : (2 : K) ^ n x ≤ 2 ^ (-1 : ℤ) := zpow_le_zpow_right₀ one_le_two (by omega)
      have hp : p (r x) ≤ 3 / 2 := (p_mem (by linarith) (by linarith)).2
      calc fastExpNeg x = p (r x) * 2 ^ n x := fastExpNeg_eq hcut hx
        _ ≤ 3 / 2 * 2 ^ (-1 : ℤ) := by gcongr
        _ ≤ 1 := by norm_num

theorem fastExpNeg_le (hxy : x ≤ y) (hy : y ≤ 0)
    (h : x < -87 ∨ n x = n y ∨ x + 1.5e-6 ≤ y) : fastExpNeg x ≤ fastExpNeg y := by
  rcases lt_or_ge x (-87) with hcut | hcut
  · rw [fastExpNeg, if_pos hcut]
    exact fastExpNeg_nonneg hy
  · rcases eq_or_lt_of_le (n_le_n hxy) with hn | hn
    · exact fastExpNeg_le_of_n_eq hcut hxy hy hn
    · have hfar : x + 1.5e-6 ≤ y := (h.resolve_left (not_lt.2 hcut)).resolve_left hn.ne
      rw [← one_mul (fastExpNeg y)]
      exact margin_argument.fastExpNeg_le hcut hfar hy hn

theorem fastExpNeg_le_mul (hxy : x ≤ y) (hy : y ≤ 0) :
    fastExpNeg x ≤ (1 + 1.5e-6) * fastExpNeg y := by
  by_cases h : x < -87 ∨ n x = n y
  · refine (fastExpNeg_le hxy hy (h.imp_right .inl)).trans ?_
    exact le_mul_of_one_le_left (fastExpNeg_nonneg hy) (by norm_num)
  · obtain ⟨hcut, hn⟩ := not_or.1 h
    exact margin_value.fastExpNeg_le (not_lt.1 hcut) (by simpa using hxy) hy
      (lt_of_le_of_ne (n_le_n hxy) hn)

/-- Every seam is a drop. -/
theorem drops_at_seam {m : ℤ} (hlo : -126 ≤ m) (hhi : m < 0) :
    ∃ x y : K, -87 ≤ x ∧ x < y ∧ y ≤ 0 ∧ n x = m ∧ n y = m + 1 ∧ fastExpNeg y < fastExpNeg x := by
  have hlo' : (-126 : K) ≤ m := by exact_mod_cast hlo
  have hhi' : (m : K) ≤ -1 := by exact_mod_cast Int.le_sub_one_of_lt hhi
  -- the seam itself belongs to the right piece
  obtain ⟨y, hy⟩ : ∃ y : K, y * (12102203 / 2 ^ 23) = m + 1 / 2 :=
    ⟨(m + 1 / 2) / (12102203 / 2 ^ 23), div_mul_cancel₀ _ (by norm_num)⟩
  have hny : n y = m + 1 := by
    rw [n_eq_iff, cast_log2e]
    push_cast
    constructor <;> linarith
  have hnx : n (y - 1e-6) = m := by
    rw [n_eq_iff, cast_log2e]
    constructor <;> linarith
  refine ⟨y - 1e-6, y, by linarith, by linarith, by linarith, hnx, hny, ?_⟩
  rw [fastExpNeg_eq (by linarith) (by linarith), fastExpNeg_eq (by linarith) (by linarith), hnx, hny,
    zpow_add_one₀ two_ne_zero]
  have hry : r y = y - (m + 1) * ln2 := by
    rw [r_eq, hny]
    push_cast
    rfl
  have hrx : r (y - 1e-6) = r y + ln2 - 1e-6 := by
    rw [r_eq (y - 1e-6), hnx, hry]
    ring
  -- left of the seam the residue is larger by almost ln2, and the value more than twice
  have hdrop : 2 * p (r y) < p (r (y - 1e-6)) := by
    rw [hrx]
    refine two_mul_p_lt (r_mem (by linarith) (by linarith)).1 ?_
    rw [hry, cast_ln2]
    linarith
  calc p (r y) * (2 ^ m * 2) = 2 * p (r y) * 2 ^ m := by ring
    _ < p (r (y - 1e-6)) * 2 ^ m := by gcongr

end Order

end FastExpNeg

/-! ## The order of the weights -/

section Weights

open FastExpNeg

/-- A weight between `0` and `1`, in order up to the drops at the seams: a smaller argument gets a
    larger value only across a seam less than `1.5e-6` away, and then by a factor below
    `1 + 1.5e-6`. -/
theorem weights_nearly_monotone {x y : ℚ} (hxy : x ≤ y) (hy : y ≤ 0) :
    0 ≤ fastExpNeg x ∧ fastExpNeg y ≤ 1 ∧ fastExpNeg (0 : ℚ) = 1 ∧
      (x < -87 ∨ n x = n y ∨ x + 1.5e-6 ≤ y → fastExpNeg x ≤ fastExpNeg y) ∧
      fastExpNeg x ≤ (1 + 1.5e-6) * fastExpNeg y ∧
      (-87 ≤ x → 1 ≤ n x + 127 ∧ n x + 127 ≤ 127 ∧
        Binary32.fields (bits (n x)) = (0, (n x + 127).toNat, 0) ∧
        Binary32.fromBits (bits (n x)) = some (2 ^ n x)) := by
  have hx := hxy.trans hy
  refine ⟨fastExpNeg_nonneg hx, fastExpNeg_le_one hy, fastExpNeg_zero, ?_, ?_, ?_⟩
  · exact fastExpNeg_le hxy hy
  · exact fastExpNeg_le_mul hxy hy
  · intro hcut
    obtain ⟨hlo, hhi⟩ := n_mem hcut hx
    exact ⟨by omega, by omega, fields_bits hlo (by omega), fromBits_bits hlo (by omega)⟩

/-- One time constant against half of one. -/
theorem weights_nearly_monotone_half :
    (-1 : ℚ) + 1.5e-6 ≤ -1 / 2 ∧ fastExpNeg (-1 : ℚ) ≤ fastExpNeg (-1 / 2 : ℚ) := by
  have hfar : (-1 : ℚ) + 1.5e-6 ≤ -1 / 2 := by norm_num
  exact ⟨hfar, (weights_nearly_monotone (by norm_num) (by norm_num)).2.2.2.1 (.inr (.inr hfar))⟩

/-- Two neighbouring numbers of single precision, left and right of the first seam. -/
theorem weight_drops :
    (-11629081 / 2 ^ 25 : ℚ) ≤ -11629080 / 2 ^ 25 ∧ (-11629080 / 2 ^ 25 : ℚ) ≤ 0 ∧
      ¬ fastExpNeg (-11629081 / 2 ^ 25 : ℚ) ≤ fastExpNeg (-11629080 / 2 ^ 25 : ℚ) := by
  decide +kernel

end Weights

/-! ## The weights of an edge -/

section Edges

variable {K : Type} [Field K] [LinearOrder K] [IsStrictOrderedRing K] {decay : K}

theorem elapsed_nonpos (hdecay : 0 ≤ decay) (dt : UInt64) : -decay * u64AsF32 dt ≤ 0 :=
  mul_nonpos_of_nonpos_of_nonneg (neg_nonpos.2 hdecay) (u64AsF32_nonneg dt)

variable [FloorRing K] {sqrt : K → K} {minPositive minScore : K}

theorem fade_mem (hdecay : 0 ≤ decay) (dt : UInt64) :
    0 ≤ fastExpNeg (-decay * u64AsF32 dt) ∧ fastExpNeg (-decay * u64AsF32 dt) ≤ 1 :=
  ⟨FastExpNeg.fastExpNeg_nonneg (elapsed_nonpos hdecay dt),
    FastExpNeg.fastExpNeg_le_one (elapsed_nonpos hdecay dt)⟩

theorem fade_le (hdecay : 0 ≤ decay) {dt dt' : UInt64} (h : dt ≤ dt') :
    fastExpNeg (-decay * u64AsF32 dt') ≤ (1 + 1.5e-6) * fastExpNeg (-decay * u64AsF32 dt) :=
  FastExpNeg.fastExpNeg_le_mul
    (mul_le_mul_of_nonpos_left (u64AsF32_le.2 h) (neg_nonpos.2 hdecay)) (elapsed_nonpos hdecay dt)

/-- A transition mixes the past in with a convex weight. -/
theorem Edge.mixTt_mem (hdecay : 0 ≤ decay) (e : Edge K) (now : UInt64) :
    0 ≤ e.mixTt (.exact K fastExpNeg sqrt minPositive minScore) now decay ∧
      e.mixTt (.exact K fastExpNeg sqrt minPositive minScore) now decay ≤ 1 :=
  fade_mem hdecay _

theorem Edge.mixTp_mem (hdecay : 0 ≤ decay) (e : Edge K) (now : UInt64) :
    0 ≤ e.mixTp (.exact K fastExpNeg sqrt minPositive minScore) now decay ∧
      e.mixTp (.exact K fastExpNeg sqrt minPositive minScore) now decay ≤ 1 :=
  fade_mem hdecay _

/-- A later transition gives the past hardly more weight. -/
theorem Edge.mixTt_le (hdecay : 0 ≤ decay) (e : Edge K) {now now' : UInt64} (h : now ≤ now') :
    e.mixTt (.exact K fastExpNeg sqrt minPositive minScore) now' decay ≤
      (1 + 1.5e-6) * e.mixTt (.exact K fastExpNeg sqrt minPositive minScore) now decay :=
  fade_le hdecay (satSub_le_satSub h _)

theorem Edge.mixTp_le (hdecay : 0 ≤ decay) (e : Edge K) {now now' : UInt64} (h : now ≤ now') :
    e.mixTp (.exact K fastExpNeg sqrt minPositive minScore) now' decay ≤
      (1 + 1.5e-6) * e.mixTp (.exact K fastExpNeg sqrt minPositive minScore) now decay :=
  fade_le hdecay (satSub_le_satSub h _)

end Edges

/-! ## The assumptions on the weights -/

section Assumptions

variable {K : Type} [Field K] [LinearOrder K] [IsStrictOrderedRing K] [FloorRing K]

theorem fastExpNeg_min_mem (x : K) : 0 ≤ fastExpNeg (min x 0) ∧ fastExpNeg (min x 0) ≤ 1 :=
  ⟨FastExpNeg.fastExpNeg_nonneg (min_le_right x 0), FastExpNeg.fastExpNeg_le_one (min_le_right x 0)⟩

/-- What the results on scores assume of the weights holds of `fastExpNeg`, which is called with
    arguments up to `0` only. -/
theorem probabilistic_fastExpNeg (sqrt : K → K) {minPositive : K} (h : 0 ≤ minPositive) :
    (Numerics.exact K (fun x => fastExpNeg (min x 0)) sqrt minPositive
      (1 / 10 ^ 6)).Probabilistic where
  toStoresExactly := Numerics.storesExactly_exact _ _ _ _
  fastExpNeg := fastExpNeg_min_mem
  minPositive := h
  minScore := rfl

end Assumptions

end PreloadNg
