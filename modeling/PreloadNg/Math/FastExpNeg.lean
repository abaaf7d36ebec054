import Mathlib.Algebra.Order.Floor.Ring
import Mathlib.Data.Rat.Cast.Order
import Mathlib.Data.Rat.Floor
import Mathlib.Tactic.Linarith
import PreloadNg.Lib.Binary32
import PreloadNg.Numerics

set_option autoImplicit false

/-! # `fast_exp_neg`

`exp(x)` for `x ≤ 0` by range reduction and a polynomial of degree five, in exact arithmetic: the
constants are the single-precision numbers the compiler puts for the literals, the operations are
those of an ordered field and the power of two is read from its bit pattern. -/

namespace PreloadNg

namespace FastExpNeg

open Binary32 (Literal)

/-! ## Constants -/

def log2e : Literal where
  decimal := 1.442_695_04
  mantissa := 12102203
  exponent := -23
  normal := by decide
  inRange := by decide
  nearest := by norm_num [abs_lt]

def ln2Hi : Literal where
  decimal := 0.693_145_75
  mantissa := 11629056
  exponent := -24
  normal := by decide
  inRange := by decide
  nearest := by norm_num [abs_lt]

def ln2Lo : Literal where
  decimal := 1.428_606_8e-6
  mantissa := 12566158
  exponent := -43
  normal := by decide
  inRange := by decide
  nearest := by norm_num [abs_lt]

/-- `r³/6`. -/
def coeff3 : Literal where
  decimal := 1.666_666_7e-1
  mantissa := 11184811
  exponent := -26
  normal := by decide
  inRange := by decide
  nearest := by norm_num [abs_lt]

/-- `r⁴/24`. -/
def coeff4 : Literal where
  decimal := 4.166_666_8e-2
  mantissa := 11184811
  exponent := -28
  normal := by decide
  inRange := by decide
  nearest := by norm_num [abs_lt]

/-- `r⁵/120`. -/
def coeff5 : Literal where
  decimal := 8.333_334e-3
  mantissa := 8947849
  exponent := -30
  normal := by decide
  inRange := by decide
  nearest := by norm_num [abs_lt]

/-- The constant for `ln 2`, in two parts. -/
def ln2 : ℚ := ln2Hi.value + ln2Lo.value

/-! ## The function -/

/-- `exp(r)` in Horner form. -/
def p {K : Type} [Field K] (r : K) : K :=
  1 + r * (1 + r * (1 / 2 + r * (coeff3.value + r * (coeff4.value + r * coeff5.value))))

/-- The derivative of `p`. -/
def slope {K : Type} [Field K] (r : K) : K :=
  1 + r + 33554433 / 2 ^ 26 * r ^ 2 + 11184811 / 2 ^ 26 * r ^ 3 + 44739245 / 2 ^ 30 * r ^ 4

/-- The bit pattern of `2^n`. -/
def bits (n : ℤ) : UInt32 :=
  let ni := Int32.ofIntClamp n
  (ni + 127).toUInt32 <<< 23

section Reduction

variable {K : Type} [Field K] [LinearOrder K] [FloorRing K]

/-- Range reduction: the multiple of `ln 2`. -/
def n (x : K) : ℤ :=
  let t := x * log2e.value
  ⌊t + 1 / 2⌋

/-- Range reduction: the rest. -/
def r (x : K) : K := x - n x * ln2Hi.value - n x * ln2Lo.value

end Reduction

end FastExpNeg

open FastExpNeg in
/-- Fast approximate `exp(x)` for `x ≤ 0`. -/
def fastExpNeg {K : Type} [Field K] [LinearOrder K] [FloorRing K] (x : K) : K :=
  if x < -87 then 0
  else p (r x) * ((Binary32.fromBits (bits (n x))).getD 0 : ℚ)

namespace FastExpNeg

/-! ## The constants as fractions -/

section Constants

variable {K : Type} [Field K] [CharZero K]

theorem cast_log2e : (log2e.value : K) = 12102203 / 2 ^ 23 := by
  rw [Binary32.Literal.value, log2e]
  push_cast
  norm_num

theorem cast_ln2 : (ln2 : K) = 6096987078286 / 2 ^ 43 := by
  rw [ln2, Binary32.Literal.value, ln2Hi, Binary32.Literal.value, ln2Lo]
  push_cast
  norm_num

theorem p_eq (r : K) :
    p r = 1 + r + r ^ 2 / 2 + 11184811 / 2 ^ 26 * r ^ 3 + 11184811 / 2 ^ 28 * r ^ 4 +
      8947849 / 2 ^ 30 * r ^ 5 := by
  rw [p, Binary32.Literal.value, coeff3, Binary32.Literal.value, coeff4, Binary32.Literal.value,
    coeff5]
  push_cast
  ring

end Constants

/-! ## The power of two -/

/-- The biased exponent of a normal number stands in a field of its own. -/
theorem biased_bits {m : ℤ} (hlo : -126 ≤ m) (hhi : m ≤ 127) :
    ∃ e : UInt32, 0 < e ∧ e < 255 ∧ (e.toNat : ℤ) = m + 127 ∧ bits m = e <<< 23 := by
  have hm : (Int32.ofIntClamp m).toInt = m :=
    Int32.toInt_ofIntClamp (le_trans (by decide) hlo) (hhi.trans (by decide))
  have hsum : (Int32.ofIntClamp m + 127).toInt = m + 127 := by
    rw [Int32.toInt_add, hm]
    exact Int.bmod_eq_of_le (by simp; omega) (by simp; omega)
  have hbiased : ((Int32.ofIntClamp m + 127).toUInt32.toNat : ℤ) = m + 127 := by
    have hnonneg : 0 ≤ Int32.ofIntClamp m + 127 := by
      rw [Int32.le_iff_toInt_le, hsum]
      simp
      omega
    rw [Int32.toNat_toUInt32_of_le hnonneg, Int32.toNatClampNeg, hsum]
    omega
  exact ⟨_, UInt32.lt_iff_toNat_lt.2 (show 0 < _ by omega),
    UInt32.lt_iff_toNat_lt.2 (show _ < 255 by omega), hbiased, rfl⟩

theorem fields_bits {m : ℤ} (hlo : -126 ≤ m) (hhi : m ≤ 127) :
    Binary32.fields (bits m) = (0, (m + 127).toNat, 0) := by
  obtain ⟨e, -, hlt, hbiased, hbits⟩ := biased_bits hlo hhi
  have hbyte : e < 256 := UInt32.lt_trans hlt (by decide)
  rw [hbits, Binary32.fields_shiftLeft hbyte, ← hbiased, Int.toNat_natCast]

theorem fromBits_bits {m : ℤ} (hlo : -126 ≤ m) (hhi : m ≤ 127) :
    Binary32.fromBits (bits m) = some (2 ^ m) := by
  obtain ⟨e, hpos, hlt, hbiased, hbits⟩ := biased_bits hlo hhi
  rw [hbits, Binary32.fromBits_shiftLeft hpos hlt, hbiased, add_sub_cancel_right]

/-! ## Range reduction -/

section Reduction

variable {K : Type} [Field K] [LinearOrder K] [FloorRing K]

theorem r_eq (x : K) : r x = x - n x * ln2 := by
  rw [r, ln2]
  push_cast
  ring

variable [IsStrictOrderedRing K] {x : K}

omit [FloorRing K] in
theorem ln2_mem : 0.6931 ≤ (ln2 : K) ∧ (ln2 : K) ≤ 0.69315 := by
  rw [cast_ln2]
  norm_num

/-- The pieces of the reduction. -/
theorem n_eq_iff {m : ℤ} : n x = m ↔ m - 1 / 2 ≤ x * log2e.value ∧ x * log2e.value < m + 1 / 2 := by
  rw [n, Int.floor_eq_iff]
  constructor <;> rintro ⟨hle, hlt⟩ <;> constructor <;> linarith

theorem n_le_n {y : K} (h : x ≤ y) : n x ≤ n y := by
  have hpos : (0 : K) ≤ log2e.value := by
    rw [cast_log2e]
    norm_num
  exact Int.floor_mono (add_le_add_left (mul_le_mul_of_nonneg_right h hpos) _)

theorem n_mem (hx : -87 ≤ x) (hx' : x ≤ 0) : -126 ≤ n x ∧ n x ≤ 0 := by
  rw [n, Int.le_floor, ← Int.lt_add_one_iff, Int.floor_lt, cast_log2e]
  push_cast
  constructor <;> linarith

/-- The interval is not symmetric: `log2e` is not quite the reciprocal of `ln2`. -/
theorem r_mem (hx : -87 ≤ x) (hx' : x ≤ 0) : -0.3465748 ≤ r x ∧ r x ≤ 0.3465736 := by
  obtain ⟨hlo, hhi⟩ := n_mem hx hx'
  have hlo' : (-126 : K) ≤ n x := by exact_mod_cast hlo
  have hhi' : (n x : K) ≤ 0 := by exact_mod_cast hhi
  obtain ⟨hle, hlt⟩ := n_eq_iff.1 (rfl : n x = n x)
  rw [cast_log2e] at hle hlt
  rw [r_eq, cast_ln2]
  constructor <;> linarith

/-- Down to the cut-off the pattern is a power of two. -/
theorem fastExpNeg_eq (hx : -87 ≤ x) (hx' : x ≤ 0) : fastExpNeg x = p (r x) * 2 ^ n x := by
  obtain ⟨hlo, hhi⟩ := n_mem hx hx'
  rw [fastExpNeg, if_neg (not_lt.2 hx), fromBits_bits hlo (by omega)]
  simp

end Reduction

end FastExpNeg

end PreloadNg
