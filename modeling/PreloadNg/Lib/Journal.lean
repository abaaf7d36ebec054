import Mathlib.Data.List.Nodup

set_option autoImplicit false

/-! # Journals

A journal is a list that a computation extends whenever its state gains something. If each step
records exactly what it adds, the journal of a run lists, once each, what is present at its end and
was not at its start. -/

namespace PreloadNg

variable {σ α ι : Type}

/-- From `s` to `s'` nothing is lost, and the journal is extended by exactly what is gained. -/
structure Journaled (journal : σ → List α) (present : σ → α → Prop) (s s' : σ) : Prop where
  kept : ∀ x, present s x → present s' x
  recorded : ∃ new, journal s' = journal s ++ new ∧ new.Nodup ∧
    ∀ x, x ∈ new ↔ present s' x ∧ ¬ present s x

namespace Journaled

variable {journal : σ → List α} {present : σ → α → Prop} {s s' s'' : σ}

/-- A step that gains nothing. -/
theorem of_same (hjournal : journal s' = journal s) (hpresent : ∀ x, present s' x ↔ present s x) :
    Journaled journal present s s' where
  kept x hx := (hpresent x).2 hx
  recorded := by
    refine ⟨[], by rw [hjournal, List.append_nil], List.nodup_nil, fun x => ?_⟩
    rw [hpresent]
    simp

theorem refl (s : σ) : Journaled journal present s s := of_same rfl fun _ => Iff.rfl

/-- A step that gains one thing. -/
theorem of_added {a : α} (ha : ¬ present s a) (hjournal : journal s' = journal s ++ [a])
    (hpresent : ∀ x, present s' x ↔ x = a ∨ present s x) : Journaled journal present s s' where
  kept x hx := (hpresent x).2 (Or.inr hx)
  recorded := by
    refine ⟨[a], hjournal, List.nodup_singleton a, fun x => ?_⟩
    rw [hpresent, List.mem_singleton]
    constructor
    · rintro rfl
      exact ⟨Or.inl rfl, ha⟩
    · rintro ⟨hx | hx, hnot⟩
      · exact hx
      · exact absurd hx hnot

theorem trans (h : Journaled journal present s s') (h' : Journaled journal present s' s'') :
    Journaled journal present s s'' where
  kept x hx := h'.kept x (h.kept x hx)
  recorded := by
    obtain ⟨new, hjournal, hnodup, hmem⟩ := h.recorded
    obtain ⟨new', hjournal', hnodup', hmem'⟩ := h'.recorded
    refine ⟨new ++ new', by rw [hjournal', hjournal, List.append_assoc], ?_, fun x => ?_⟩
    · refine List.nodup_append.2 ⟨hnodup, hnodup', fun x hx y hy hxy => ?_⟩
      subst hxy
      exact ((hmem' x).1 hy).2 ((hmem x).1 hx).1
    · rw [List.mem_append, hmem, hmem']
      constructor
      · rintro (⟨hx, hnot⟩ | ⟨hx, hnot⟩)
        · exact ⟨h'.kept x hx, hnot⟩
        · exact ⟨hx, fun hold => hnot (h.kept x hold)⟩
      · rintro ⟨hx, hnot⟩
        by_cases hmid : present s' x
        · exact Or.inl ⟨hmid, hnot⟩
        · exact Or.inr ⟨hx, hmid⟩

/-- The run of a loop whose rounds record what they add, under an invariant of the loop. -/
theorem foldl {step : σ → ι → σ} (Inv : σ → Prop) {is : List ι}
    (hstep : ∀ s, Inv s → ∀ i ∈ is, Journaled journal present s (step s i) ∧ Inv (step s i))
    (s : σ) (hs : Inv s) : Journaled journal present s (is.foldl step s) := by
  induction is generalizing s with
  | nil => exact refl s
  | cons i rest ih =>
      obtain ⟨hone, hinv⟩ := hstep s hs i List.mem_cons_self
      exact hone.trans
        (ih (fun s hs j hj => hstep s hs j (List.mem_cons_of_mem i hj)) _ hinv)

/-- A journal that starts empty lists the difference. -/
theorem of_nil (h : Journaled journal present s s') (hnil : journal s = []) :
    (journal s').Nodup ∧ ∀ x, x ∈ journal s' ↔ present s' x ∧ ¬ present s x := by
  obtain ⟨new, hjournal, hnodup, hmem⟩ := h.recorded
  rw [hjournal, hnil, List.nil_append]
  exact ⟨hnodup, hmem⟩

end Journaled

end PreloadNg
