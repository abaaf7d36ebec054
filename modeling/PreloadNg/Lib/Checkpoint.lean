import Mathlib.Logic.Function.Basic
import PreloadNg.Lib.Simulation

set_option autoImplicit false

/-! # Checkpointed state

A program works on a live state and now and then commits a copy of it to its place, if it was given
one. When it stops, only the copies are left; it starts again from a state that the copy at its new
place recovers to, or without a place from an empty one. -/

namespace PreloadNg

variable {κ σ ι : Type*}

structure Checkpoint (κ σ : Type*) where
  /-- The place and the state of the program, when it runs. -/
  live : Option (Option κ × σ)
  durable : κ → σ

namespace Checkpoint

inductive Op (κ ι : Type*) where
  | work (i : ι)
  | commit
  | stop
  | recover (place : Option κ)

/-- What a program with this place starts from. -/
def source (empty : σ) (c : Checkpoint κ σ) (place : Option κ) : σ := place.elim empty c.durable

variable [DecidableEq κ] (empty : σ) (work : σ → ι → σ → Prop) (recovers : σ → σ → Prop)

inductive Step : Checkpoint κ σ → Op κ ι → Checkpoint κ σ → Prop
  | work {place : Option κ} {s s' : σ} {d : κ → σ} {i : ι} (h : work s i s') :
      Step ⟨some (place, s), d⟩ (.work i) ⟨some (place, s'), d⟩
  | commit {k : κ} {s : σ} {d : κ → σ} :
      Step ⟨some (some k, s), d⟩ .commit ⟨some (some k, s), Function.update d k s⟩
  | stop {c : Checkpoint κ σ} : Step c .stop ⟨none, c.durable⟩
  | recover {c : Checkpoint κ σ} {place : Option κ} {s : σ} (hnone : c.live = none)
      (h : recovers (c.source empty place) s) : Step c (.recover place) ⟨some (place, s), c.durable⟩

variable {empty work recovers}

/-- What a whole run of work does. -/
theorem reachable_work {place : Option κ} {s s' : σ} {d : κ → σ} (h : Reachable work s s') :
    Reachable (Step empty work recovers) ⟨some (place, s), d⟩ ⟨some (place, s'), d⟩ := by
  induction h with
  | refl => exact Reachable.refl
  | tail _ hs ih =>
      obtain ⟨i, hi⟩ := hs
      exact ih.tail (Step.work hi)

/-- A property of the live and of the durable states. -/
structure Holds (I : σ → Prop) (c : Checkpoint κ σ) : Prop where
  live : ∀ place s, c.live = some (place, s) → I s
  durable : ∀ k, I (c.durable k)

omit [DecidableEq κ] in
theorem Holds.source {I : σ → Prop} (hempty : I empty) {c : Checkpoint κ σ} (h : c.Holds I)
    (place : Option κ) : I (c.source empty place) := by
  cases place with
  | none => exact hempty
  | some k => exact h.durable k

theorem Holds.step {I : σ → Prop} (hempty : I empty) (hwork : ∀ s i s', I s → work s i s' → I s')
    (hrecovers : ∀ d s, I d → recovers d s → I s) {c c' : Checkpoint κ σ} {op : Op κ ι}
    (h : c.Holds I) (hstep : Step empty work recovers c op c') : c'.Holds I := by
  cases hstep with
  | work hs =>
      refine ⟨fun place s' hs' => ?_, h.durable⟩
      obtain ⟨rfl, rfl⟩ := Prod.mk.inj (Option.some.inj hs')
      exact hwork _ _ _ (h.live _ _ rfl) hs
  | @commit k s d =>
      refine ⟨h.live, fun k' => ?_⟩
      change I (Function.update d k s k')
      by_cases hk : k' = k
      · rw [hk, Function.update_self]
        exact h.live _ _ rfl
      · rw [Function.update_of_ne hk]
        exact h.durable k'
  | stop => exact ⟨fun place s hs => absurd hs (by simp), h.durable⟩
  | recover hnone hs =>
      refine ⟨fun place s' hs' => ?_, h.durable⟩
      obtain ⟨rfl, rfl⟩ := Prod.mk.inj (Option.some.inj hs')
      exact hrecovers _ _ (h.source hempty _) hs

/-- The invariant rule: what work and recovery preserve holds of the live and the durable states. -/
theorem holds_of_reachable {I : σ → Prop} (hempty : I empty)
    (hwork : ∀ s i s', I s → work s i s' → I s') (hrecovers : ∀ d s, I d → recovers d s → I s)
    {init c : Checkpoint κ σ} (hinit : init.Holds I)
    (h : Reachable (Step empty work recovers) init c) : c.Holds I :=
  h.invariant hinit fun _ _ _ hc hstep => hc.step hempty hwork hrecovers hstep

end Checkpoint

end PreloadNg
