import Mathlib.Data.List.Basic
import Mathlib.Data.UInt
import Mathlib.Tactic

set_option autoImplicit false

/-! # Machine-level operations

Saturating `u64` arithmetic and `Vec::swap_remove`. Order facts about `u64` values are proved on
their `toNat`, where `omega` applies. -/

namespace PreloadNg

/-! ## Saturating `u64` arithmetic -/

/-- `u64::MAX`. -/
def u64Max : UInt64 := 0xFFFFFFFFFFFFFFFF

/-- `u64::saturating_sub`. -/
def satSub (a b : UInt64) : UInt64 := if b ≤ a then a - b else 0

/-- `u64::saturating_add`. -/
def satAdd (a b : UInt64) : UInt64 := if a ≤ u64Max - b then a + b else u64Max

@[simp] theorem toNat_u64Max : u64Max.toNat = 2 ^ 64 - 1 := rfl

@[simp] theorem toNat_satSub (a b : UInt64) : (satSub a b).toNat = a.toNat - b.toNat := by
  unfold satSub
  split
  · next h => exact UInt64.toNat_sub_of_le a b h
  · next h =>
      rw [UInt64.le_iff_toNat_le] at h
      rw [UInt64.toNat_zero]
      omega

@[simp] theorem toNat_satAdd (a b : UInt64) :
    (satAdd a b).toNat = min (a.toNat + b.toNat) (2 ^ 64 - 1) := by
  have ha := a.toNat_lt
  have hb := b.toNat_lt
  have hle : b ≤ u64Max := by
    rw [UInt64.le_iff_toNat_le, toNat_u64Max]
    omega
  have hsub : (u64Max - b).toNat = 2 ^ 64 - 1 - b.toNat := by
    rw [UInt64.toNat_sub_of_le _ _ hle, toNat_u64Max]
  unfold satAdd
  split
  · next h =>
      rw [UInt64.le_iff_toNat_le, hsub] at h
      rw [UInt64.toNat_add]
      omega
  · next h =>
      rw [UInt64.le_iff_toNat_le, hsub] at h
      rw [toNat_u64Max]
      omega

theorem satSub_self (a : UInt64) : satSub a a = 0 := by
  simp [satSub]

theorem satAdd_zero (a : UInt64) : satAdd a 0 = a := by
  rw [← UInt64.toNat_inj, toNat_satAdd]
  have := a.toNat_lt
  simp only [UInt64.toNat_zero]
  omega

theorem satSub_le_satSub {a b : UInt64} (h : a ≤ b) (c : UInt64) : satSub a c ≤ satSub b c := by
  rw [UInt64.le_iff_toNat_le] at h ⊢
  rw [toNat_satSub, toNat_satSub]
  omega

theorem satSub_le_iff (now last window : UInt64) :
    satSub now last ≤ window ↔ now.toNat ≤ last.toNat + window.toNat := by
  rw [UInt64.le_iff_toNat_le, toNat_satSub]
  omega

theorem le_satAdd (a b : UInt64) : a ≤ satAdd a b := by
  rw [UInt64.le_iff_toNat_le, toNat_satAdd]
  have := a.toNat_lt
  omega

theorem satAdd_le_satAdd {a b : UInt64} (h : a ≤ b) (c : UInt64) : satAdd a c ≤ satAdd b c := by
  rw [UInt64.le_iff_toNat_le] at h ⊢
  rw [toNat_satAdd, toNat_satAdd]
  omega

/-- Crediting the time since `last` to an amount of at most `last` stays within `now`. -/
theorem satAdd_satSub_le {x last now : UInt64} (hx : x ≤ last) (h : last ≤ now) :
    satAdd x (satSub now last) ≤ now := by
  rw [UInt64.le_iff_toNat_le] at hx h ⊢
  rw [toNat_satAdd, toNat_satSub]
  omega

/-! ## Other operations of `u64` -/

theorem toNat_max (a b : UInt64) : (max a b).toNat = max a.toNat b.toNat := by
  show (if a ≤ b then b else a).toNat = _
  split
  · next h => exact (Nat.max_eq_right (UInt64.le_iff_toNat_le.1 h)).symm
  · next h =>
      rw [UInt64.le_iff_toNat_le] at h
      omega

theorem toNat_min (a b : UInt64) : (min a b).toNat = min a.toNat b.toNat := by
  show (if a ≤ b then a else b).toNat = _
  split
  · next h => exact (Nat.min_eq_left (UInt64.le_iff_toNat_le.1 h)).symm
  · next h =>
      rw [UInt64.le_iff_toNat_le] at h
      omega

theorem toInt64_eq_ofNat (a : UInt64) : a.toInt64 = Int64.ofNat a.toNat := by
  have h := UInt64.toInt64_ofNat' (n := a.toNat)
  rwa [UInt64.ofNat_toNat] at h

/-- `as i64` keeps values below `2 ^ 63`. -/
theorem toInt_toInt64 {a : UInt64} (h : a.toNat < 2 ^ 63) : a.toInt64.toInt = a.toNat := by
  rw [toInt64_eq_ofNat, Int64.toInt_ofNat_of_lt h]

/-- Rounding down to a multiple of a power of two by masking. -/
theorem toNat_and_not_mask {x size : UInt64} {k : ℕ} (hsize : size.toNat = 2 ^ k) :
    (x &&& ~~~(size - 1)).toNat = x.toNat / 2 ^ k * 2 ^ k := by
  have hk : k < 64 := by
    have := size.toNat_lt
    rw [hsize] at this
    exact (Nat.pow_lt_pow_iff_right (by decide)).1 this
  have hmask : (size - 1).toNat = 2 ^ k - 1 := by
    rw [UInt64.toNat_sub_of_le _ _ ?_, hsize]
    · rfl
    · rw [UInt64.le_iff_toNat_le, hsize]
      exact Nat.one_le_two_pow
  have hnot : UInt64.size - 1 - (2 ^ k - 1) = 2 ^ 64 - (2 ^ k - 1 + 1) := by
    show 2 ^ 64 - 1 - (2 ^ k - 1) = _
    omega
  have hlt : 2 ^ k - 1 < 2 ^ 64 := by
    have := size.toNat_lt
    omega
  -- bit `j` is kept from place `k` on
  refine Nat.eq_of_testBit_eq fun j => ?_
  rw [UInt64.toNat_and, Nat.testBit_and, UInt64.toNat_not, hmask, hnot,
    Nat.testBit_two_pow_sub_succ hlt, Nat.testBit_two_pow_sub_one, Nat.testBit_mul_two_pow,
    Nat.testBit_div_two_pow]
  by_cases hkj : k ≤ j
  · rw [Nat.sub_add_cancel hkj]
    by_cases hj : j < 64
    · simp [hj, hkj]
    · have hbit := Nat.testBit_lt_two_pow (Nat.lt_of_lt_of_le x.toNat_lt
        (Nat.pow_le_pow_right (by decide) (Nat.not_lt.1 hj)))
      simp [hbit]
  · simp [hkj, Nat.lt_of_not_le hkj]

/-! ## `Vec::swap_remove` -/

/-- Remove index `i` by moving the last element into its place. -/
def vecSwapRemove {α : Type} (l : List α) (i : ℕ) : List α :=
  match l.getLast? with
  | none => []
  | some x => (l.set i x).dropLast

section SwapRemove

variable {α : Type}

@[simp] theorem length_vecSwapRemove (l : List α) (i : ℕ) :
    (vecSwapRemove l i).length = l.length - 1 := by
  unfold vecSwapRemove
  split
  · next h => simp [List.getLast?_eq_none_iff.1 h]
  · simp

theorem getElem?_vecSwapRemove (l : List α) (i j : ℕ) (hi : i < l.length) :
    (vecSwapRemove l i)[j]? =
      if j < l.length - 1 then (if j = i then l[l.length - 1]? else l[j]?) else none := by
  unfold vecSwapRemove
  split
  · next h => simp [List.getLast?_eq_none_iff.1 h] at hi
  · next x h =>
      rw [List.getLast?_eq_getElem?] at h
      rw [List.getElem?_dropLast, List.length_set, List.getElem?_set]
      by_cases hj : j < l.length - 1
      · by_cases hij : i = j
        · subst hij
          simp [hj, hi, h]
        · simp [hj, hij, Ne.symm hij]
      · simp [hj]

end SwapRemove

end PreloadNg
