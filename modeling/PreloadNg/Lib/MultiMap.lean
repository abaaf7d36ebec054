import PreloadNg.Lib.HashMap

set_option autoImplicit false

/-! # Maps from keys to nonempty sets

A binary relation stored as `FxHashMap K (FxHashSet V)`. `link` adds a pair, `unlink` removes one
and drops the key once its set is empty. -/

namespace PreloadNg

namespace MultiMap

variable {K V : Type} [DecidableEq K]

/-- The relation stored in `m`. -/
def Has (m : FxHashMap K (FxHashSet V)) (k : K) (v : V) : Prop :=
  ∃ s, m.get? k = some s ∧ v ∈ s

/-- No key is mapped to the empty set. -/
def NoEmpty (m : FxHashMap K (FxHashSet V)) : Prop :=
  ∀ k s, m.get? k = some s → ∃ v, v ∈ s

/-- The values of `k`. -/
def values (m : FxHashMap K (FxHashSet V)) (k : K) : List V :=
  match m.get? k with
  | some s => s.iter
  | none => []

theorem mem_values (m : FxHashMap K (FxHashSet V)) (k : K) (v : V) :
    v ∈ values m k ↔ Has m k v := by
  unfold values Has
  cases m.get? k with
  | none => simp
  | some s => simp [FxHashSet.mem_iter]

theorem values_nodup (m : FxHashMap K (FxHashSet V)) (k : K) : (values m k).Nodup := by
  unfold values
  cases m.get? k with
  | none => exact List.nodup_nil
  | some s => exact s.iter_nodup

theorem has_remove (m : FxHashMap K (FxHashSet V)) (k k' : K) (v' : V) :
    Has (m.remove k) k' v' ↔ k' ≠ k ∧ Has m k' v' := by
  unfold Has
  rw [FxHashMap.get?_remove]
  by_cases h : k' = k <;> simp [h]

theorem noEmpty_remove {m : FxHashMap K (FxHashSet V)} (h : NoEmpty m) (k : K) :
    NoEmpty (m.remove k) := by
  intro k' s hs
  rw [FxHashMap.get?_remove] at hs
  by_cases hk : k' = k
  · rw [if_pos hk] at hs
    exact absurd hs (by simp)
  · rw [if_neg hk] at hs
    exact h k' s hs

variable [DecidableEq V]

/-- `entry(k).or_default().insert(v)`. -/
def link (m : FxHashMap K (FxHashSet V)) (k : K) (v : V) : FxHashMap K (FxHashSet V) :=
  m.modifyEntry k ∅ fun s => s.insert v

/-- Remove `v` from the set of `k`, if it has one, and the set once it is empty. -/
def unlink (m : FxHashMap K (FxHashSet V)) (k : K) (v : V) : FxHashMap K (FxHashSet V) :=
  match m.get? k with
  | none => m
  | some s =>
    let s := s.remove v
    if s.isEmpty then (m.insert k s).remove k else m.insert k s

/-- A pair that is there is not added again. -/
theorem link_eq_self {m : FxHashMap K (FxHashSet V)} {k : K} {v : V} (h : Has m k v) :
    link m k v = m := by
  obtain ⟨s, hs, hv⟩ := h
  rw [link, FxHashMap.modifyEntry, hs, Option.getD_some, FxHashSet.insert_eq_self hv,
    FxHashMap.insert_eq_self hs]

theorem has_link (m : FxHashMap K (FxHashSet V)) (k k' : K) (v v' : V) :
    Has (link m k v) k' v' ↔ (k' = k ∧ v' = v) ∨ Has m k' v' := by
  unfold Has link
  rw [FxHashMap.get?_modifyEntry]
  by_cases hk : k' = k
  · subst hk
    cases m.get? k' <;> simp
  · simp [hk]

theorem noEmpty_link {m : FxHashMap K (FxHashSet V)} (h : NoEmpty m) (k : K) (v : V) :
    NoEmpty (link m k v) := by
  intro k' s hs
  rw [link, FxHashMap.get?_modifyEntry] at hs
  by_cases hk : k' = k
  · rw [if_pos hk] at hs
    obtain rfl := Option.some.inj hs
    exact ⟨v, by simp⟩
  · rw [if_neg hk] at hs
    exact h k' s hs

theorem get?_unlink_ne (m : FxHashMap K (FxHashSet V)) {k k' : K} (v : V) (h : k' ≠ k) :
    (unlink m k v).get? k' = m.get? k' := by
  unfold unlink
  cases m.get? k with
  | none => rfl
  | some s =>
      dsimp only
      split
      · rw [FxHashMap.get?_remove, if_neg h, FxHashMap.get?_insert_ne _ _ h]
      · rw [FxHashMap.get?_insert_ne _ _ h]

theorem has_unlink (m : FxHashMap K (FxHashSet V)) (k k' : K) (v v' : V) :
    Has (unlink m k v) k' v' ↔ Has m k' v' ∧ ¬ (k' = k ∧ v' = v) := by
  by_cases hk : k' = k
  · subst hk
    unfold Has unlink
    cases hs : m.get? k' with
    | none => simp [hs]
    | some s =>
        dsimp only
        split
        · next hempty =>
            rw [FxHashSet.isEmpty_iff] at hempty
            have hnot := hempty v'
            rw [FxHashSet.mem_remove] at hnot
            rw [FxHashMap.get?_remove, if_pos rfl]
            simp only [reduceCtorEq, false_and, exists_false, Option.some.injEq, exists_eq_left',
              false_iff]
            tauto
        · rw [FxHashMap.get?_insert_self]
          simp only [Option.some.injEq, exists_eq_left', FxHashSet.mem_remove]
          tauto
  · unfold Has
    rw [get?_unlink_ne m v hk]
    simp [hk]

theorem noEmpty_unlink {m : FxHashMap K (FxHashSet V)} (h : NoEmpty m) (k : K) (v : V) :
    NoEmpty (unlink m k v) := by
  intro k' s hs
  by_cases hk : k' = k
  · subst hk
    unfold unlink at hs
    split at hs
    · exact h k' s hs
    · next t hm =>
        dsimp only at hs
        split at hs
        · rw [FxHashMap.get?_remove, if_pos rfl] at hs
          exact absurd hs (by simp)
        · next hne =>
            rw [FxHashMap.get?_insert_self] at hs
            obtain rfl := Option.some.inj hs
            rw [FxHashSet.isEmpty_iff] at hne
            push Not at hne
            exact hne
  · rw [get?_unlink_ne m v hk] at hs
    exact h k' s hs

/-- Unlink `v` from every key of a list. -/
def unlinkAll (m : FxHashMap K (FxHashSet V)) (ks : List K) (v : V) : FxHashMap K (FxHashSet V) :=
  ks.foldl (fun m k => unlink m k v) m

theorem has_unlinkAll (ks : List K) (m : FxHashMap K (FxHashSet V)) (v : V) (k' : K) (v' : V) :
    Has (unlinkAll m ks v) k' v' ↔ Has m k' v' ∧ ¬ (k' ∈ ks ∧ v' = v) := by
  unfold unlinkAll
  induction ks generalizing m with
  | nil => simp
  | cons k rest ih =>
      rw [List.foldl_cons, ih, has_unlink, List.mem_cons]
      tauto

theorem noEmpty_unlinkAll (ks : List K) {m : FxHashMap K (FxHashSet V)} (h : NoEmpty m) (v : V) :
    NoEmpty (unlinkAll m ks v) := by
  unfold unlinkAll
  induction ks generalizing m with
  | nil => exact h
  | cons k rest ih => exact ih (noEmpty_unlink h k v)

end MultiMap

end PreloadNg
