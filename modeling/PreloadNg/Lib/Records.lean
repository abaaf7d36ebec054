import Mathlib.Data.List.Basic

set_option autoImplicit false

/-! # Lists of records

Looking a record up by its key, and loops over records that may fail. A fallible loop body `step`
that succeeds exactly on good records, and whose effect does not change which records are good, is a
check of all records followed by an infallible loop. -/

namespace PreloadNg

variable {ε α β σ ρ : Type}

/-! ## Lookup by key -/

/-- With distinct keys, the record of a key is the one that has it. -/
theorem find?_key_eq_some {K : Type} [DecidableEq K] {key : ρ → K} {rs : List ρ}
    (hnodup : (rs.map key).Nodup) {k : K} {r : ρ} :
    (rs.find? fun r => key r = k) = some r ↔ r ∈ rs ∧ key r = k := by
  induction rs with
  | nil => simp
  | cons r' rest ih =>
      rw [List.map_cons, List.nodup_cons] at hnodup
      rw [List.find?_cons, List.mem_cons]
      by_cases hk : key r' = k
      · simp only [hk, decide_true, Option.some.injEq]
        constructor
        · rintro rfl
          exact ⟨Or.inl rfl, hk⟩
        · rintro ⟨rfl | hmem, hr⟩
          · rfl
          · exact absurd (List.mem_map.2 ⟨r, hmem, hr.trans hk.symm⟩) hnodup.1
      · simp only [hk, decide_false, ih hnodup.2]
        constructor
        · rintro ⟨hmem, hr⟩
          exact ⟨Or.inr hmem, hr⟩
        · rintro ⟨rfl | hmem, hr⟩
          · exact absurd hr hk
          · exact ⟨hmem, hr⟩

/-- The order of records with distinct keys does not matter for a lookup. -/
theorem find?_key_eq_of_perm {K : Type} [DecidableEq K] {key : ρ → K} {rs rs' : List ρ}
    (h : rs.Perm rs') (hnodup : (rs.map key).Nodup) (k : K) :
    (rs.find? fun r => key r = k) = rs'.find? fun r => key r = k := by
  have hnodup' : (rs'.map key).Nodup := (h.map key).nodup_iff.1 hnodup
  refine Option.ext fun r => ?_
  rw [find?_key_eq_some hnodup, find?_key_eq_some hnodup', h.mem_iff]

/-! ## Loops that may fail -/

theorem except_bind_eq_ok {x : Except ε α} {f : α → Except ε β} {b : β} :
    x >>= f = .ok b ↔ ∃ a, x = .ok a ∧ f a = .ok b := by
  cases x with
  | error e => simp [bind, Except.bind]
  | ok a => simp [bind, Except.bind]

/-- Separate the check from the effect. -/
theorem foldlM_eq_ok_iff {step : σ → ρ → Except ε σ} {Good : σ → ρ → Prop} {next : σ → ρ → σ}
    (hstep : ∀ s r t, step s r = .ok t ↔ Good s r ∧ next s r = t)
    (hgood : ∀ s r r', Good s r → (Good (next s r) r' ↔ Good s r')) (rs : List ρ) (s t : σ) :
    rs.foldlM step s = .ok t ↔ (∀ r ∈ rs, Good s r) ∧ rs.foldl next s = t := by
  induction rs generalizing s with
  | nil => simp [pure, Except.pure]
  | cons r rest ih =>
      rw [List.foldlM_cons, except_bind_eq_ok, List.foldl_cons]
      constructor
      · rintro ⟨s', hs', hrest⟩
        obtain ⟨hr, rfl⟩ := (hstep s r s').1 hs'
        obtain ⟨hall, heq⟩ := (ih (next s r)).1 hrest
        refine ⟨?_, heq⟩
        intro r' hr'
        rcases List.mem_cons.1 hr' with rfl | hr'
        · exact hr
        · exact (hgood s r r' hr).1 (hall r' hr')
      · rintro ⟨hall, heq⟩
        have hr := hall r List.mem_cons_self
        refine ⟨next s r, (hstep s r _).2 ⟨hr, rfl⟩, (ih (next s r)).2 ⟨?_, heq⟩⟩
        intro r' hr'
        exact (hgood s r r' hr).2 (hall r' (List.mem_cons_of_mem r hr'))

end PreloadNg
