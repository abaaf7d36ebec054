import Mathlib.Data.List.Infix

set_option autoImplicit false

/-! # Trees of keys and their merges

A tree holds nothing, a leaf, or a table with what each key holds; a table has a label. In the deep
merge of two trees the later one wins, and two tables at one place are merged key by key. A merge may
also replace the earlier table by the later one, depending on their labels. This module says, for a
list of trees merged in order, exactly when the replacements make no difference. -/

namespace PreloadNg

inductive KeyTree (κ α β : Type) where
  | absent
  | leaf (a : α)
  | table (label : β) (child : κ → KeyTree κ α β)

namespace KeyTree

variable {κ α β γ : Type}

/-- The later tree over the earlier one. Two tables are merged where `keep` says so of their labels,
    otherwise the later one replaces the earlier one. -/
def mergeWhere (keep : β → β → Bool) : KeyTree κ α β → KeyTree κ α β → KeyTree κ α β
  | t, absent => t
  | table a f, table b g =>
      table b fun k => if keep a b then mergeWhere keep (f k) (g k) else g k
  | _, t => t

/-- The right-biased deep merge. -/
def deepMerge : KeyTree κ α β → KeyTree κ α β → KeyTree κ α β := mergeWhere fun _ _ => true

/-! ## Following a path -/

def child : KeyTree κ α β → κ → KeyTree κ α β
  | table _ f, k => f k
  | _, _ => absent

/-- What is at a place: nothing, a leaf or a table. -/
def shape : KeyTree κ α β → Option (α ⊕ β)
  | absent => none
  | leaf a => some (.inl a)
  | table b _ => some (.inr b)

def shapeAt : KeyTree κ α β → List κ → Option (α ⊕ β)
  | t, [] => t.shape
  | t, k :: p => (t.child k).shapeAt p

/-- Whether the tree says what is at a path: it reaches the path or has a leaf above it. -/
def Decides : KeyTree κ α β → List κ → Prop
  | absent, _ => False
  | leaf _, _ => True
  | table _ _, [] => True
  | table _ f, k :: p => (f k).Decides p

/-- Whether a table above the path is replaced by the later tree. -/
def Replaces (keep : β → β → Bool) : KeyTree κ α β → KeyTree κ α β → List κ → Prop
  | table a f, table b g, k :: p => keep a b = false ∨ Replaces keep (f k) (g k) p
  | _, _, _ => False

@[simp] theorem shapeAt_absent (p : List κ) : (absent : KeyTree κ α β).shapeAt p = none := by
  induction p with
  | nil => rfl
  | cons k p ih => exact ih

@[simp] theorem shapeAt_leaf_cons (a : α) (k : κ) (p : List κ) :
    (leaf a : KeyTree κ α β).shapeAt (k :: p) = none :=
  shapeAt_absent p

@[simp] theorem shapeAt_table_cons (b : β) (f : κ → KeyTree κ α β) (k : κ) (p : List κ) :
    (table b f).shapeAt (k :: p) = (f k).shapeAt p := rfl

/-- Trees are equal when they have the same shape at every path. -/
theorem ext_shapeAt {s t : KeyTree κ α β} (h : ∀ p, s.shapeAt p = t.shapeAt p) : s = t := by
  induction s generalizing t with
  | absent => cases t <;> first | rfl | exact absurd (h []) (by simp [shapeAt, shape])
  | leaf a =>
      cases t with
      | absent => exact absurd (h []) (by simp [shapeAt, shape])
      | leaf a' =>
          obtain rfl : a = a' := by simpa [shapeAt, shape] using h []
          rfl
      | table b g => exact absurd (h []) (by simp [shapeAt, shape])
  | table b f ih =>
      cases t with
      | absent => exact absurd (h []) (by simp [shapeAt, shape])
      | leaf a => exact absurd (h []) (by simp [shapeAt, shape])
      | table b' g =>
          obtain rfl : b = b' := by simpa [shapeAt, shape] using h []
          have hfg : f = g := funext fun k => ih k fun p => h (k :: p)
          rw [hfg]

theorem shapeAt_of_not_decides {t : KeyTree κ α β} {p : List κ} (h : ¬ t.Decides p) :
    t.shapeAt p = none := by
  induction p generalizing t with
  | nil => cases t <;> simp_all [Decides, shapeAt, shape]
  | cons k p ih =>
      cases t with
      | absent => simp
      | leaf a => simp
      | table b f => exact ih h

/-- What is reached has something at every path above it. -/
theorem shapeAt_initial {t : KeyTree κ α β} {p q : List κ} (hq : q <+: p)
    (h : t.shapeAt p ≠ none) : t.shapeAt q ≠ none := by
  induction q generalizing t p with
  | nil => cases t <;> simp_all [shapeAt, shape]
  | cons k q ih =>
      obtain ⟨r, rfl⟩ := hq
      cases t with
      | absent => simp at h
      | leaf a => simp at h
      | table b f => exact ih ⟨r, rfl⟩ h

/-! ## One merge

At a path, the later tree decides; else what lies below a replaced table is lost; else the earlier
tree stays. -/

section Merge

variable {keep : β → β → Bool} {t d : KeyTree κ α β} {p : List κ}

theorem mergeWhere_of_decides (h : d.Decides p) :
    (mergeWhere keep t d).shapeAt p = d.shapeAt p := by
  induction p generalizing t d with
  | nil =>
      cases d with
      | absent => exact absurd h id
      | leaf a => cases t <;> rfl
      | table b g => cases t <;> rfl
  | cons k p ih =>
      cases d with
      | absent => exact absurd h id
      | leaf a => cases t <;> rfl
      | table b g =>
          cases t with
          | absent => rfl
          | leaf a => rfl
          | table a f =>
              simp only [mergeWhere, shapeAt_table_cons]
              split
              · exact ih h
              · rfl

theorem mergeWhere_of_replaces (hd : ¬ d.Decides p) (hr : Replaces keep t d p) :
    (mergeWhere keep t d).shapeAt p = none := by
  induction p generalizing t d with
  | nil => cases t <;> cases d <;> exact absurd hr id
  | cons k p ih =>
      cases d with
      | absent => cases t <;> exact absurd hr id
      | leaf a => cases t <;> exact absurd hr id
      | table b g =>
          cases t with
          | absent => exact absurd hr id
          | leaf a => exact absurd hr id
          | table a f =>
              simp only [mergeWhere, shapeAt_table_cons]
              split
              · next hkeep => exact ih hd (hr.resolve_left (by simp [hkeep]))
              · exact shapeAt_of_not_decides hd

theorem mergeWhere_of_keeps (hd : ¬ d.Decides p) (hr : ¬ Replaces keep t d p) :
    (mergeWhere keep t d).shapeAt p = t.shapeAt p := by
  induction p generalizing t d with
  | nil => cases d <;> simp_all [Decides, mergeWhere]
  | cons k p ih =>
      cases d with
      | absent => cases t <;> rfl
      | leaf a => exact absurd trivial hd
      | table b g =>
          have hnone : (g k).shapeAt p = none := shapeAt_of_not_decides hd
          cases t with
          | absent => exact hnone.trans (shapeAt_absent _).symm
          | leaf a => exact hnone.trans (shapeAt_leaf_cons a k p).symm
          | table a f =>
              have hr' : ¬ (keep a b = false ∨ Replaces keep (f k) (g k) p) := hr
              rw [not_or, Bool.not_eq_false] at hr'
              simp only [mergeWhere, shapeAt_table_cons, hr'.1, if_true]
              exact ih hd hr'.2

theorem not_replaces_all (h : Replaces (fun _ _ => true) t d p) : False := by
  induction p generalizing t d with
  | nil => cases t <;> cases d <;> exact h
  | cons k p ih =>
      cases t <;> cases d <;> try exact h
      exact h.elim (by simp) ih

theorem deepMerge_of_decides (h : d.Decides p) : (deepMerge t d).shapeAt p = d.shapeAt p :=
  mergeWhere_of_decides h

theorem deepMerge_of_not_decides (h : ¬ d.Decides p) :
    (deepMerge t d).shapeAt p = t.shapeAt p :=
  mergeWhere_of_keeps h not_replaces_all

/-- Which tables are replaced above a path depends on the shapes above it. -/
theorem replaces_congr {s t : KeyTree κ α β} (h : ∀ q, q <+: p → s.shapeAt q = t.shapeAt q) :
    Replaces keep s d p ↔ Replaces keep t d p := by
  induction p generalizing s t d with
  | nil => cases s <;> cases t <;> cases d <;> exact Iff.rfl
  | cons k p ih =>
      have hroot := h [] List.nil_prefix
      cases d with
      | absent => cases s <;> cases t <;> exact Iff.rfl
      | leaf a => cases s <;> cases t <;> exact Iff.rfl
      | table b g =>
          cases s with
          | absent => cases t <;> simp_all [shapeAt, shape, Replaces]
          | leaf a => cases t <;> simp_all [shapeAt, shape, Replaces]
          | table a f =>
              cases t with
              | absent => simp [shapeAt, shape] at hroot
              | leaf a => simp [shapeAt, shape] at hroot
              | table a' f' =>
                  obtain rfl : a = a' := by simpa [shapeAt, shape] using hroot
                  exact or_congr_right (ih fun q hq => h (k :: q) (List.cons_prefix_cons.2 ⟨rfl, hq⟩))

end Merge

/-! ## A list of merges -/

section Fold

variable (keep : β → β → Bool) (init : KeyTree κ α β)

/-- The list merged in order, with and without replacements. -/
def mergeAll (ts : List (KeyTree κ α β)) : KeyTree κ α β := ts.foldl (mergeWhere keep) init

def deepMergeAll (ts : List (KeyTree κ α β)) : KeyTree κ α β := ts.foldl deepMerge init

theorem mergeAll_concat (ts : List (KeyTree κ α β)) (d : KeyTree κ α β) :
    mergeAll keep init (ts ++ [d]) = mergeWhere keep (mergeAll keep init ts) d := by
  simp [mergeAll]

theorem deepMergeAll_concat (ts : List (KeyTree κ α β)) (d : KeyTree κ α β) :
    deepMergeAll init (ts ++ [d]) = deepMerge (deepMergeAll init ts) d := by
  simp [deepMergeAll]

/-- What a path holds before a tree is not lost when the tree replaces a table above it, if that tree
    or a later one decides the path. -/
def SavedAt (ts : List (KeyTree κ α β)) (p : List κ) : Prop :=
  ∀ pre d post, ts = pre ++ d :: post → (deepMergeAll init pre).shapeAt p ≠ none →
    Replaces keep (deepMergeAll init pre) d p → ∃ d' ∈ d :: post, d'.Decides p

variable {keep init}

/-- Replacements only lose what is there. -/
theorem mergeAll_le (ts : List (KeyTree κ α β)) (p : List κ) :
    (mergeAll keep init ts).shapeAt p = none ∨
      (mergeAll keep init ts).shapeAt p = (deepMergeAll init ts).shapeAt p := by
  induction ts using List.reverseRecOn with
  | nil => exact Or.inr rfl
  | append_singleton ts d ih =>
      rw [mergeAll_concat, deepMergeAll_concat]
      by_cases hd : d.Decides p
      · rw [mergeWhere_of_decides hd, deepMerge_of_decides hd]
        exact Or.inr rfl
      · rw [deepMerge_of_not_decides hd]
        by_cases hr : Replaces keep (mergeAll keep init ts) d p
        · exact Or.inl (mergeWhere_of_replaces hd hr)
        · rw [mergeWhere_of_keeps hd hr]
          exact ih

/-- Above a path that is still there, the same tables are replaced in both merges. -/
theorem replaces_mergeAll {ts : List (KeyTree κ α β)} {d : KeyTree κ α β} {p : List κ}
    (h : (mergeAll keep init ts).shapeAt p ≠ none) :
    Replaces keep (mergeAll keep init ts) d p ↔ Replaces keep (deepMergeAll init ts) d p :=
  replaces_congr fun q hq => (mergeAll_le ts q).resolve_left (shapeAt_initial hq h)

/-- One tree more. -/
theorem savedAt_concat {ts : List (KeyTree κ α β)} {d : KeyTree κ α β} {p : List κ} :
    SavedAt keep init (ts ++ [d]) p ↔
      d.Decides p ∨ (SavedAt keep init ts p ∧
        ((deepMergeAll init ts).shapeAt p ≠ none → ¬ Replaces keep (deepMergeAll init ts) d p)) := by
  constructor
  · intro h
    by_cases hd : d.Decides p
    · exact Or.inl hd
    · refine Or.inr ⟨?_, fun hp hr => ?_⟩
      · rintro pre d' post rfl hp hr
        obtain ⟨d'', hmem, hdec⟩ := h pre d' (post ++ [d]) (by simp) hp hr
        have hmem' : d'' ∈ (d' :: post) ++ [d] := by simpa using hmem
        rcases List.mem_append.1 hmem' with hmem' | hmem'
        · exact ⟨d'', hmem', hdec⟩
        · obtain rfl := List.mem_singleton.1 hmem'
          exact absurd hdec hd
      · obtain ⟨d', hmem, hdec⟩ := h ts d [] rfl hp hr
        obtain rfl := List.mem_singleton.1 hmem
        exact hd hdec
  · intro h pre d' post heq hp hr
    rcases List.eq_nil_or_concat' post with rfl | ⟨post, last, rfl⟩
    · obtain ⟨rfl, hlast⟩ := List.append_inj' heq rfl
      obtain rfl := List.singleton_inj.1 hlast
      rcases h with hd | ⟨-, hnot⟩
      · exact ⟨d, List.mem_singleton_self d, hd⟩
      · exact absurd hr (hnot hp)
    · rw [← List.cons_append, ← List.append_assoc] at heq
      obtain ⟨hts, hlast⟩ := List.append_inj' heq rfl
      obtain rfl := List.singleton_inj.1 hlast
      rcases h with hd | ⟨hsaved, -⟩
      · exact ⟨d, by simp, hd⟩
      · obtain ⟨d'', hmem, hdec⟩ := hsaved pre d' post hts hp hr
        exact ⟨d'', List.mem_append_left _ hmem, hdec⟩

/-- At a path the replacements make no difference exactly when what it holds is saved. -/
theorem shapeAt_mergeAll_iff (ts : List (KeyTree κ α β)) (p : List κ) :
    (mergeAll keep init ts).shapeAt p = (deepMergeAll init ts).shapeAt p ↔
      SavedAt keep init ts p := by
  induction ts using List.reverseRecOn with
  | nil => simp [mergeAll, deepMergeAll, SavedAt]
  | append_singleton ts d ih =>
      rw [mergeAll_concat, deepMergeAll_concat, savedAt_concat]
      by_cases hd : d.Decides p
      · rw [mergeWhere_of_decides hd, deepMerge_of_decides hd]
        exact iff_of_true rfl (Or.inl hd)
      · rw [deepMerge_of_not_decides hd, or_iff_right hd, ← ih]
        by_cases hnone : (mergeAll keep init ts).shapeAt p = none
        · -- what was lost stays lost
          have hlost : (mergeWhere keep (mergeAll keep init ts) d).shapeAt p = none := by
            by_cases hr : Replaces keep (mergeAll keep init ts) d p
            · exact mergeWhere_of_replaces hd hr
            · rw [mergeWhere_of_keeps hd hr, hnone]
          rw [hlost, hnone]
          exact ⟨fun h => ⟨h, fun hp => absurd h.symm hp⟩, fun h => h.1⟩
        · have hsame := (mergeAll_le ts p).resolve_left hnone
          rw [← replaces_mergeAll hnone, ← hsame]
          by_cases hr : Replaces keep (mergeAll keep init ts) d p
          · rw [mergeWhere_of_replaces hd hr]
            exact iff_of_false (fun h => hnone h.symm) fun h => h.2 hnone hr
          · rw [mergeWhere_of_keeps hd hr]
            exact iff_of_true rfl ⟨rfl, fun _ => hr⟩

theorem mergeAll_eq_iff (ts : List (KeyTree κ α β)) :
    mergeAll keep init ts = deepMergeAll init ts ↔ ∀ p, SavedAt keep init ts p := by
  constructor
  · intro h p
    rw [← shapeAt_mergeAll_iff, h]
  · exact fun h => ext_shapeAt fun p => (shapeAt_mergeAll_iff ts p).2 (h p)

end Fold

/-! ## Forgetting the labels -/

def relabel (f : β → γ) : KeyTree κ α β → KeyTree κ α γ
  | absent => absent
  | leaf a => leaf a
  | table b g => table (f b) fun k => (g k).relabel f

theorem shapeAt_relabel (f : β → γ) (t : KeyTree κ α β) (p : List κ) :
    (t.relabel f).shapeAt p = (t.shapeAt p).map (Sum.map id f) := by
  induction p generalizing t with
  | nil => cases t <;> rfl
  | cons k p ih =>
      cases t with
      | absent => exact ih absent
      | leaf a => exact ih absent
      | table b g => exact ih (g k)

theorem relabel_deepMerge (f : β → γ) (s t : KeyTree κ α β) :
    (deepMerge s t).relabel f = deepMerge (s.relabel f) (t.relabel f) := by
  induction t generalizing s with
  | absent => cases s <;> rfl
  | leaf a => cases s <;> rfl
  | table b g ih =>
      cases s with
      | absent => rfl
      | leaf a => rfl
      | table a h => exact congrArg _ (funext fun k => ih k (h k))

theorem relabel_deepMergeAll (f : β → γ) (init : KeyTree κ α β) (ts : List (KeyTree κ α β)) :
    (deepMergeAll init ts).relabel f = deepMergeAll (init.relabel f) (ts.map (relabel f)) := by
  induction ts using List.reverseRecOn with
  | nil => rfl
  | append_singleton ts t ih =>
      rw [List.map_append, deepMergeAll_concat, relabel_deepMerge, ih]
      exact (deepMergeAll_concat _ _ _).symm

/-- Up to labels the two merges differ exactly where they differ. -/
theorem relabel_mergeAll_eq_iff (keep : β → β → Bool) (f : β → γ) (init : KeyTree κ α β)
    (ts : List (KeyTree κ α β)) :
    (mergeAll keep init ts).relabel f = (deepMergeAll init ts).relabel f ↔
      ∀ p, SavedAt keep init ts p := by
  rw [← mergeAll_eq_iff]
  constructor
  · intro h
    refine ext_shapeAt fun p => (mergeAll_le ts p).elim (fun hnone => ?_) id
    have hp := shapeAt_relabel f (deepMergeAll init ts) p
    rw [← h, shapeAt_relabel, hnone] at hp
    rw [hnone, Option.map_eq_none_iff.1 hp.symm]
  · exact congrArg _

end KeyTree

end PreloadNg
