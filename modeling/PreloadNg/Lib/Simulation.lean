import Mathlib.Data.List.Induction
import PreloadNg.Lib.Transition

set_option autoImplicit false

/-! # Runs with their operations, and simulations

`Lib/Transition.lean` forgets the operations of a run. Here they are kept, in order, for properties
that speak of what was done. A simulation maps the runs of one system to runs of another. -/

namespace PreloadNg

variable {σ τ ι κ : Type*}

/-- The states that the operations `ops` lead to from `init`. -/
inductive Run (step : σ → ι → σ → Prop) (init : σ) : List ι → σ → Prop
  | nil : Run step init [] init
  | snoc {ops : List ι} {s : σ} {i : ι} {s' : σ} (h : Run step init ops s) (hs : step s i s') :
      Run step init (ops ++ [i]) s'

namespace Run

variable {step : σ → ι → σ → Prop} {init : σ}

theorem reachable {ops : List ι} {s : σ} (h : Run step init ops s) : Reachable step init s := by
  induction h with
  | nil => exact Reachable.refl
  | snoc _ hs ih => exact ih.tail hs

/-- The invariant rule for properties of the state and of what was done. -/
theorem invariant {I : List ι → σ → Prop} (hinit : I [] init)
    (hstep : ∀ ops s i s', I ops s → step s i s' → I (ops ++ [i]) s') {ops : List ι} {s : σ}
    (h : Run step init ops s) : I ops s := by
  induction h with
  | nil => exact hinit
  | snoc _ hs ih => exact hstep _ _ _ _ ih hs

/-- The same, with the help of a property already known of every reachable state. -/
theorem invariant_of {J : σ → Prop} {I : List ι → σ → Prop}
    (hJ : ∀ s, Reachable step init s → J s) (hinit : I [] init)
    (hstep : ∀ ops s i s', J s → I ops s → step s i s' → I (ops ++ [i]) s') {ops : List ι} {s : σ}
    (h : Run step init ops s) : I ops s := by
  induction h with
  | nil => exact hinit
  | snoc hr hs ih => exact hstep _ _ _ _ (hJ _ hr.reachable) ih hs

/-- A run whose operations all satisfy `P` is one of the steps so restricted. -/
theorem restrict {P : ι → Prop} {ops : List ι} {s : σ} (h : Run step init ops s)
    (hP : ∀ i ∈ ops, P i) : Run (fun s i s' => step s i s' ∧ P i) init ops s := by
  induction h with
  | nil => exact nil
  | snoc _ hs ih =>
      have hlast := hP _ (List.mem_append_right _ (List.mem_singleton_self _))
      exact (ih fun i hi => hP i (List.mem_append_left _ hi)).snoc ⟨hs, hlast⟩

/-- The runs of a partial step function are its folds. -/
theorem of_foldlM {exec : σ → ι → Option σ} {init : σ} {ops : List ι} {s : σ}
    (h : ops.foldlM exec init = some s) : Run (fun s i s' => exec s i = some s') init ops s := by
  induction ops using List.reverseRecOn generalizing s with
  | nil =>
      obtain rfl := Option.some.inj h
      exact nil
  | append_singleton ops i ih =>
      rw [List.foldlM_append] at h
      obtain ⟨t, ht, hlast⟩ := Option.bind_eq_some_iff.1 h
      obtain ⟨u, hu, hret⟩ := Option.bind_eq_some_iff.1 hlast
      obtain rfl := Option.some.inj hret
      exact (ih ht).snoc hu

end Run

namespace Reachable

theorem trans {step : σ → ι → σ → Prop} {s t u : σ} (h : Reachable step s t)
    (h' : Reachable step t u) : Reachable step s u :=
  Relation.ReflTransGen.trans h h'

/-- Forward simulation: every step is matched by a run of the other system. -/
theorem simulation {step : σ → ι → σ → Prop} {step' : τ → κ → τ → Prop} {init : σ} {init' : τ}
    {R : σ → τ → Prop} (hinit : R init init')
    (hstep : ∀ s i s' t, R s t → step s i s' → ∃ t', Reachable step' t t' ∧ R s' t') {s : σ}
    (h : Reachable step init s) : ∃ t, Reachable step' init' t ∧ R s t := by
  induction h with
  | refl => exact ⟨init', refl, hinit⟩
  | tail _ hs ih =>
      obtain ⟨t, ht, hR⟩ := ih
      obtain ⟨i, hi⟩ := hs
      obtain ⟨t', ht', hR'⟩ := hstep _ i _ t hR hi
      exact ⟨t', ht.trans ht', hR'⟩

/-- A run has no step of a kind, or it has a last one. -/
theorem last {step : σ → ι → σ → Prop} (P : σ → ι → σ → Prop) {init s : σ}
    (h : Reachable step init s) :
    Reachable (fun s i s' => step s i s' ∧ ¬P s i s') init s ∨
      ∃ s₁ i s₂, Reachable step init s₁ ∧ step s₁ i s₂ ∧ P s₁ i s₂ ∧
        Reachable (fun s i s' => step s i s' ∧ ¬P s i s') s₂ s := by
  induction h with
  | refl => exact Or.inl refl
  | @tail t u hr hs ih =>
      obtain ⟨i, hi⟩ := hs
      by_cases hP : P t i u
      · exact Or.inr ⟨_, i, _, hr, hi, hP, refl⟩
      · rcases ih with hnone | ⟨s₁, j, s₂, h₁, hj, hPj, h₂⟩
        · exact Or.inl (hnone.tail ⟨hi, hP⟩)
        · exact Or.inr ⟨s₁, j, s₂, h₁, hj, hPj, h₂.tail ⟨hi, hP⟩⟩

end Reachable

end PreloadNg
