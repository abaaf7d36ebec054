import Mathlib.Algebra.BigOperators.Ring.Finset
import Mathlib.Tactic.Ring

set_option autoImplicit false

/-! # Fading means

A running mean that lets its old value fade with the time a new sample covers. When the weight that
is left after some time is exponential, the mean is a weighted sum of the samples: each weighs what
the exponential loses over the time it covers, at its age. -/

namespace PreloadNg

namespace FadingMean

variable {T K : Type*} [AddMonoid T] [CommRing K] (w : T → K)

/-- The mean after the samples, latest first; a sample is the time it covers and a value. -/
def fade : List (T × K) → K
  | [] => 0
  | (t, x) :: rest => w t * fade rest + (1 - w t) * x

/-- The time that the samples cover. -/
def covered (samples : List (T × K)) : T := (samples.map Prod.fst).sum

/-- The weighted sum of samples, the latest of which ended `age` ago. -/
def fadedSum : T → List (T × K) → K
  | _, [] => 0
  | age, (t, x) :: rest => (w age - w (age + t)) * x + fadedSum (age + t) rest

omit [AddMonoid T] in
/-- The mean is linear in the values. -/
theorem fade_sum {ι : Type*} [Fintype ι] (samples : List (T × (ι → K))) :
    ∑ i, fade w (samples.map fun sample => (sample.1, sample.2 i)) =
      fade w (samples.map fun sample => (sample.1, ∑ i, sample.2 i)) := by
  induction samples with
  | nil => exact Finset.sum_const_zero
  | cons sample rest ih =>
      simp only [List.map_cons, fade]
      rw [Finset.sum_add_distrib, ← Finset.mul_sum, ← Finset.mul_sum, ih]

/-- The weight that is left after some time. -/
structure IsExponential : Prop where
  zero : w 0 = 1
  add : ∀ a b, w (a + b) = w a * w b

variable {w} (hw : IsExponential w)

include hw

theorem mul_fade (age : T) (samples : List (T × K)) :
    w age * fade w samples = fadedSum w age samples := by
  induction samples generalizing age with
  | nil => exact mul_zero _
  | cons sample rest ih =>
      obtain ⟨t, x⟩ := sample
      calc w age * fade w ((t, x) :: rest)
          = (w age - w age * w t) * x + w age * w t * fade w rest := by rw [fade]; ring
        _ = (w age - w (age + t)) * x + w (age + t) * fade w rest := by rw [hw.add]
        _ = fadedSum w age ((t, x) :: rest) := by rw [ih, fadedSum]

/-- The running mean is the weighted sum. -/
theorem fade_eq_fadedSum (samples : List (T × K)) : fade w samples = fadedSum w 0 samples := by
  rw [← mul_fade hw, hw.zero, one_mul]

/-- Old samples fade with the time that the recent ones cover. -/
theorem fade_append (recent older : List (T × K)) :
    fade w (recent ++ older) = fade w recent + w (covered recent) * fade w older := by
  induction recent with
  | nil =>
      show fade w older = 0 + w 0 * fade w older
      rw [hw.zero, one_mul, zero_add]
  | cons sample rest ih =>
      obtain ⟨t, x⟩ := sample
      have hcovered : w (covered ((t, x) :: rest)) = w t * w (covered rest) := by
        rw [← hw.add]
        rfl
      rw [List.cons_append, fade, ih, hcovered, fade]
      ring

/-- The weights of the samples add up to what the exponential loses over the time they cover. -/
theorem fade_ones {samples : List (T × K)} (h : ∀ sample ∈ samples, sample.2 = 1) :
    fade w samples = 1 - w (covered samples) := by
  induction samples with
  | nil =>
      show 0 = 1 - w 0
      rw [hw.zero, sub_self]
  | cons sample rest ih =>
      obtain ⟨t, x⟩ := sample
      obtain rfl : x = 1 := h (t, x) List.mem_cons_self
      have hcovered : w (covered ((t, 1) :: rest)) = w t * w (covered rest) := by
        rw [← hw.add]
        rfl
      rw [fade, ih fun sample hsample => h sample (List.mem_cons_of_mem _ hsample), hcovered]
      ring

end FadingMean

end PreloadNg
