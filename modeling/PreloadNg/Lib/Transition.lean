import Mathlib.Logic.Relation

set_option autoImplicit false

/-! # Labelled transition systems

A step relation `step s i s'` reads: in state `s` the operation `i` may lead to `s'`. The two rules
of this module turn what one step preserves into what a whole run preserves. -/

namespace PreloadNg

variable {σ ι : Type*}

/-- The states that finitely many steps lead to from `init`. -/
def Reachable (step : σ → ι → σ → Prop) (init : σ) : σ → Prop :=
  Relation.ReflTransGen (fun s s' => ∃ i, step s i s') init

namespace Reachable

variable {step : σ → ι → σ → Prop} {init : σ}

theorem refl : Reachable step init init := Relation.ReflTransGen.refl

theorem tail {s s' : σ} {i : ι} (h : Reachable step init s) (hs : step s i s') :
    Reachable step init s' :=
  Relation.ReflTransGen.tail h ⟨i, hs⟩

/-- The invariant rule. -/
theorem invariant {I : σ → Prop} (hinit : I init)
    (hstep : ∀ s i s', I s → step s i s' → I s') {s : σ} (h : Reachable step init s) : I s := by
  induction h with
  | refl => exact hinit
  | tail _ hs ih =>
      obtain ⟨i, hi⟩ := hs
      exact hstep _ i _ ih hi

/-- The invariant rule, with the help of a property already known of every reachable state. -/
theorem invariant_of {J I : σ → Prop} (hJ : ∀ s, Reachable step init s → J s) (hinit : I init)
    (hstep : ∀ s i s', J s → I s → step s i s' → I s') {s : σ} (h : Reachable step init s) :
    I s := by
  induction h with
  | refl => exact hinit
  | tail hr hs ih =>
      obtain ⟨i, hi⟩ := hs
      exact hstep _ i _ (hJ _ hr) ih hi

/-- Fewer steps reach fewer states. -/
theorem mono {step' : σ → ι → σ → Prop} (hstep : ∀ s i s', step s i s' → step' s i s') {s : σ}
    (h : Reachable step init s) : Reachable step' init s :=
  Relation.ReflTransGen.mono (fun _ _ ⟨i, hi⟩ => ⟨i, hstep _ i _ hi⟩) _ _ h

end Reachable

end PreloadNg
