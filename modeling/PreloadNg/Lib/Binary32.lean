import Mathlib.Algebra.Order.Field.Rat
import Mathlib.Data.UInt
import Mathlib.Tactic.NormNum
import Mathlib.Tactic.Ring

set_option autoImplicit false

/-! # Single precision

The values of the format, exactly: what a decimal literal denotes and what a bit pattern denotes. -/

/-- A decimal literal that is no tie, with the normal number it is rounded to. -/
structure Binary32.Literal where
  decimal : ℚ
  mantissa : ℕ
  exponent : ℤ
  normal : 2 ^ 23 < mantissa ∧ mantissa < 2 ^ 24
  inRange : -149 ≤ exponent ∧ exponent ≤ 104
  nearest : |decimal - mantissa * 2 ^ exponent| < 2 ^ exponent / 2

namespace Binary32

/-- The value of a literal. -/
def Literal.value (l : Literal) : ℚ := l.mantissa * 2 ^ l.exponent

/-- The fields of a bit pattern: sign, exponent and fraction. -/
def fields (bits : UInt32) : ℕ × ℕ × ℕ :=
  (bits.toNat / 2 ^ 31, bits.toNat / 2 ^ 23 % 2 ^ 8, bits.toNat % 2 ^ 23)

/-- `f32::from_bits`; the infinities and the NaNs have no value. -/
def fromBits (bits : UInt32) : Option ℚ :=
  match fields bits with
  | (sign, exponent, fraction) =>
    if exponent = 255 then none
    else if exponent = 0 then some ((-1) ^ sign * (fraction * 2 ^ (-149 : ℤ)))
    else some ((-1) ^ sign * ((2 ^ 23 + fraction) * 2 ^ (exponent - 150 : ℤ)))

theorem fields_shiftLeft {e : UInt32} (h : e < 256) : fields (e <<< 23) = (0, e.toNat, 0) := by
  have he : e.toNat < 256 := UInt32.lt_iff_toNat_lt.1 h
  have hbits : (e <<< 23).toNat = e.toNat * 2 ^ 23 := by
    rw [UInt32.toNat_shiftLeft, Nat.shiftLeft_eq]
    exact Nat.mod_eq_of_lt (by simp; omega)
  rw [fields, hbits]
  refine Prod.ext ?_ (Prod.ext ?_ ?_) <;> simp only <;> omega

/-- A pattern with an exponent field alone is a power of two. -/
theorem fromBits_shiftLeft {e : UInt32} (hpos : 0 < e) (h : e < 255) :
    fromBits (e <<< 23) = some (2 ^ (e.toNat - 127 : ℤ)) := by
  have hlt : e.toNat < 255 := UInt32.lt_iff_toNat_lt.1 h
  have hne : e.toNat ≠ 0 := (UInt32.lt_iff_toNat_lt.1 hpos).ne'
  have hsplit : (2 : ℚ) ^ (e.toNat - 127 : ℤ) = 2 ^ 23 * 2 ^ (e.toNat - 150 : ℤ) := by
    rw [← zpow_natCast, ← zpow_add₀ two_ne_zero]
    congr 1
    push_cast
    ring
  have hfields := fields_shiftLeft (e := e) (UInt32.lt_iff_toNat_lt.2 (hlt.trans (by decide)))
  simp [fromBits, hfields, hlt.ne, hne, hsplit]

end Binary32
