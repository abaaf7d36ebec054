import Mathlib.Algebra.Field.Rat
import Mathlib.Algebra.Order.Field.Basic
import Mathlib.Algebra.Order.Ring.Unbundled.Rat

set_option autoImplicit false

/-! # The floating-point interface

The code computes in `f32` and stores statistics and scores in `f16`. The two formats are type
parameters here: `Float32Ops` lists the `f32` operations the code applies, without any law, and
`Numerics` the conversions, comparisons and constants. Results that do not depend on arithmetic
hold for every choice, hence for the hardware one. *Exact arithmetic* is the choice where `f32` is
an ordered field `K` (`Float32Ops.ofField`). -/

namespace PreloadNg

/-- The `f32` operations the code applies. -/
class Float32Ops (F : Type) extends Zero F, One F, Neg F, Add F, Sub F, Mul F, Div F, NatCast F,
    LE F, LT F, BEq F where
  decLE : DecidableLE F
  decLT : DecidableLT F

attribute [reducible, instance] Float32Ops.decLE Float32Ops.decLT

/-- Exact arithmetic in an ordered field. -/
instance Float32Ops.ofField (K : Type) [Field K] [LinearOrder K] : Float32Ops K where
  decLE := inferInstance
  decLT := inferInstance
  beq := fun a b => decide (a = b)

/-- `u64 as f32`. -/
def u64AsF32 {F : Type} [Float32Ops F] (n : UInt64) : F := (n.toNat : F)

/-- `f32::abs`. -/
def f32Abs {F : Type} [Float32Ops F] (x : F) : F := if x < 0 then -x else x

/-- `f32::max`. -/
def f32Max {F : Type} [Float32Ops F] (x y : F) : F := if x < y then y else x

/-- `x.clamp(0.0, 1.0)`. -/
def clamp01 {F : Type} [Float32Ops F] (x : F) : F := if x < 0 then 0 else if 1 < x then 1 else x

/-! ## Exact comparisons -/

section Exact

variable {K : Type} [Field K] [LinearOrder K]

theorem clamp01_of_nonneg {x : K} (h : 0 ≤ x) : clamp01 x = min x 1 := by
  refine (if_neg (not_lt.2 h)).trans ?_
  rcases le_or_gt x 1 with hx | hx
  · rw [min_eq_left hx]
    exact if_neg (not_lt.2 hx)
  · rw [min_eq_right hx.le]
    exact if_pos hx

theorem f32Max_eq (x y : K) : f32Max x y = max x y := by
  rcases lt_or_ge x y with h | h
  · rw [max_eq_right h.le]
    exact if_pos h
  · rw [max_eq_left h]
    exact if_neg (not_lt.2 h)

section Ordered

variable [IsStrictOrderedRing K]

theorem u64AsF32_le {a b : UInt64} : (u64AsF32 a : K) ≤ u64AsF32 b ↔ a ≤ b := by
  rw [u64AsF32, u64AsF32, UInt64.le_iff_toNat_le]
  exact Nat.cast_le

theorem u64AsF32_nonneg (a : UInt64) : (0 : K) ≤ u64AsF32 a := Nat.cast_nonneg _

theorem f32Abs_nonneg (x : K) : 0 ≤ f32Abs x := by
  unfold f32Abs
  split
  · next h => exact neg_nonneg.2 (le_of_lt h)
  · next h => exact not_lt.1 h

theorem clamp01_zero : clamp01 (0 : K) = 0 := by
  rw [clamp01_of_nonneg (le_refl 0), min_eq_left zero_le_one]

end Ordered

end Exact

/-! ## Storage and library functions -/

/-- The half-precision format and the library functions of `f32`. -/
structure Numerics (F16 F32 : Type) where
  /-- `f16::to_f32`. -/
  toF32 : F16 → F32
  /-- `f16::from_f32`. -/
  ofF32 : F32 → F16
  /-- Widening to `f32` loses nothing. -/
  ofF32_toF32 : ∀ x, ofF32 (toF32 x) = x
  /-- `f16::ZERO`. -/
  zero : F16
  /-- `f16::total_cmp`. -/
  totalCmp : F16 → F16 → Ordering
  /-- `score > f16::ZERO`. -/
  isPositive : F16 → Bool
  fastExpNeg : F32 → F32
  /-- `f32::sqrt`. -/
  sqrt : F32 → F32
  /-- `f32::MIN_POSITIVE`. -/
  minPositive : F32
  /-- The literal `1e-6`. -/
  minScore : F32

/-- Exact arithmetic in `K`: storage keeps the value, and the functions on `f32` are arbitrary. -/
def Numerics.exact (K : Type) [Field K] [LinearOrder K] (fastExpNeg sqrt : K → K)
    (minPositive minScore : K) : Numerics K K where
  toF32 x := x
  ofF32 x := x
  ofF32_toF32 _ := rfl
  zero := 0
  totalCmp := compare
  isPositive x := decide (0 < x)
  fastExpNeg := fastExpNeg
  sqrt := sqrt
  minPositive := minPositive
  minScore := minScore

/-- Exact rational arithmetic in which the past never fades. -/
def Numerics.rational : Numerics ℚ ℚ := Numerics.exact ℚ (fun _ => 1) id 0 0

end PreloadNg
