import Mathlib.Data.List.Basic
import Mathlib.Tactic

set_option autoImplicit false

/-! # Runs of marked cells in a window

A row of cells of one width is walked from left to right; consecutive marked cells form a run, which
is cut to a window `[lo, hi)` when it ends. The runs cover exactly the marked points of the window. -/

namespace PreloadNg

namespace Runs

/-- The finished runs as `(start, stop)`, and the start of a run that is still open. -/
structure State where
  closed : List (ℕ × ℕ)
  opened : Option ℕ

def State.empty : State := ⟨[], none⟩

/-- End the open run, if there is one. -/
def close (lo stop : ℕ) (st : State) : State :=
  match st.opened with
  | none => st
  | some start => ⟨st.closed ++ [(max start lo, stop)], none⟩

/-- Visit the cell that starts at `pos`. -/
def visit (lo hi pos : ℕ) (marked : Bool) (st : State) : State :=
  if marked then { st with opened := some (st.opened.getD pos) }
  else close lo (min pos hi) st

def finish (lo hi : ℕ) (st : State) : List (ℕ × ℕ) := (close lo hi st).closed

/-- The runs are in order, apart from each other and inside the window, and cover the points below
    `pos` that satisfy `p`. -/
structure Covers (lo hi : ℕ) (p : ℕ → Prop) (pos : ℕ) (runs : List (ℕ × ℕ)) : Prop where
  apart : runs.Pairwise fun a b => a.2 < b.1
  nonempty : ∀ r ∈ runs, r.1 < r.2
  within : ∀ r ∈ runs, lo ≤ r.1 ∧ r.2 ≤ hi
  covers : ∀ x, lo ≤ x → x < hi → x < pos → ((∃ r ∈ runs, r.1 ≤ x ∧ x < r.2) ↔ p x)

/-- What holds in front of the cell at `pos`. -/
def Inv (lo hi : ℕ) (p : ℕ → Prop) (pos : ℕ) (st : State) : Prop :=
  match st.opened with
  | none => Covers lo hi p pos st.closed ∧ ∀ r ∈ st.closed, r.2 < pos
  | some start => Covers lo hi p start st.closed ∧ (∀ r ∈ st.closed, r.2 < start) ∧
      start < hi ∧ lo < pos ∧ start < pos ∧ ∀ x, start ≤ x → x < pos → p x

variable {lo hi pos width : ℕ} {p : ℕ → Prop} {st : State}

theorem inv_empty (h : pos ≤ lo) : Inv lo hi p pos .empty := by
  have hnone : ∀ r ∈ ([] : List (ℕ × ℕ)), False := fun r hr => List.not_mem_nil hr
  refine ⟨⟨List.Pairwise.nil, fun r hr => (hnone r hr).elim, fun r hr => (hnone r hr).elim,
    fun x hx _ hpos => ?_⟩, fun r hr => (hnone r hr).elim⟩
  omega

/-- A run is added behind the others. -/
theorem Covers.append {runs : List (ℕ × ℕ)} {start stop pos' : ℕ} (h : Covers lo hi p start runs)
    (hbefore : ∀ r ∈ runs, r.2 < start) (hlt : max start lo < stop) (hstop : stop ≤ hi)
    (hrun : ∀ x, start ≤ x → x < stop → p x) (hafter : ∀ x, stop ≤ x → x < hi → x < pos' → ¬p x) :
    Covers lo hi p pos' (runs ++ [(max start lo, stop)]) := by
  constructor
  case apart =>
    refine List.pairwise_append.2 ⟨h.apart, List.pairwise_singleton _ _, fun a ha b hb => ?_⟩
    obtain rfl := List.mem_singleton.1 hb
    exact lt_of_lt_of_le (hbefore a ha) (le_max_left _ _)
  case nonempty =>
    intro r hr
    rcases List.mem_append.1 hr with hr | hr
    · exact h.nonempty r hr
    · obtain rfl := List.mem_singleton.1 hr
      exact hlt
  case within =>
    intro r hr
    rcases List.mem_append.1 hr with hr | hr
    · exact h.within r hr
    · obtain rfl := List.mem_singleton.1 hr
      exact ⟨le_max_right _ _, hstop⟩
  case covers =>
    intro x hlo hhi hpos
    have hsplit : (∃ r ∈ runs ++ [(max start lo, stop)], r.1 ≤ x ∧ x < r.2) ↔
        (∃ r ∈ runs, r.1 ≤ x ∧ x < r.2) ∨ (max start lo ≤ x ∧ x < stop) := by
      simp [or_and_right, exists_or]
    rw [hsplit]
    -- before the new run the old ones decide, after it there are none
    rcases Nat.lt_or_ge x start with hx | hx
    · rw [← h.covers x hlo hhi hx]
      constructor
      · rintro (hold | hnew)
        · exact hold
        · omega
      · exact Or.inl
    · have hold : ¬∃ r ∈ runs, r.1 ≤ x ∧ x < r.2 := by
        rintro ⟨r, hr, -, hlt⟩
        have := hbefore r hr
        omega
      rw [or_iff_right hold]
      constructor
      · intro hnew
        exact hrun x hx hnew.2
      · intro hp
        refine ⟨by omega, Nat.lt_of_not_le fun hle => ?_⟩
        exact hafter x hle hhi hpos hp

/-- Nothing is marked from the covered points up to `pos'`. -/
theorem Covers.extend {runs : List (ℕ × ℕ)} {pos' : ℕ} (h : Covers lo hi p pos runs)
    (hbefore : ∀ r ∈ runs, r.2 < pos) (hno : ∀ x, pos ≤ x → x < pos' → ¬p x) :
    Covers lo hi p pos' runs := by
  refine { h with covers := fun x hlo hhi hpos => ?_ }
  rcases Nat.lt_or_ge x pos with hx | hx
  · exact h.covers x hlo hhi hx
  · constructor
    · rintro ⟨r, hr, -, hlt⟩
      have := hbefore r hr
      omega
    · intro hp
      exact absurd hp (hno x hx hpos)

/-- Visiting a cell that meets the window, all of it marked or none. -/
theorem Inv.visit {marked : Bool} (h : Inv lo hi p pos st) (hlo : lo < pos + width) (hhi : pos < hi)
    (hcell : ∀ x, pos ≤ x → x < pos + width → (p x ↔ marked = true)) (hwidth : 0 < width)
    (hwindow : lo < hi) : Inv lo hi p (pos + width) (visit lo hi pos marked st) := by
  obtain ⟨closed, opened⟩ := st
  cases marked with
  | true =>
      cases opened with
      | none =>
          obtain ⟨hcovers, hbefore⟩ := h
          refine ⟨hcovers, hbefore, hhi, hlo, Nat.lt_add_of_pos_right hwidth, fun x hx hx' => ?_⟩
          exact (hcell x hx hx').2 rfl
      | some start =>
          obtain ⟨hcovers, hbefore, hstart, hlow, hopen, hrun⟩ := h
          refine ⟨hcovers, hbefore, hstart, hlo, Nat.lt_add_right width hopen, fun x hx hx' => ?_⟩
          rcases Nat.lt_or_ge x pos with hlt | hge
          · exact hrun x hx hlt
          · exact (hcell x hge hx').2 rfl
  | false =>
      have hno : ∀ x, pos ≤ x → x < pos + width → ¬p x := by
        intro x hx hx' hp
        exact Bool.false_ne_true ((hcell x hx hx').1 hp)
      cases opened with
      | none =>
          obtain ⟨hcovers, hbefore⟩ := h
          refine ⟨hcovers.extend hbefore hno, fun r hr => ?_⟩
          exact Nat.lt_add_right width (hbefore r hr)
      | some start =>
          obtain ⟨hcovers, hbefore, hstart, hlow, hopen, hrun⟩ := h
          -- the open run ends where this cell begins
          have hlt : max start lo < min pos hi :=
            max_lt (lt_min hopen hstart) (lt_min hlow hwindow)
          refine ⟨hcovers.append hbefore hlt (min_le_right _ _) ?_ ?_, ?_⟩
          · intro x hx hx'
            exact hrun x hx (by omega)
          · intro x hx hxhi hx'
            exact hno x (by omega) hx'
          · intro r hr
            rcases List.mem_append.1 hr with hr | hr
            · have := hbefore r hr
              omega
            · obtain rfl := List.mem_singleton.1 hr
              show min pos hi < pos + width
              omega

/-- Once the cells reach the end of the window, the finished runs cover it. -/
theorem Inv.finish (h : Inv lo hi p pos st) (hpos : hi ≤ pos) (hwindow : lo < hi) :
    Covers lo hi p hi (finish lo hi st) := by
  obtain ⟨closed, opened⟩ := st
  cases opened with
  | none =>
      refine { h.1 with covers := fun x hlo hhi _ => h.1.covers x hlo hhi (by omega) }
  | some start =>
      obtain ⟨hcovers, hbefore, hstart, hlow, hopen, hrun⟩ := h
      refine hcovers.append hbefore (by omega) le_rfl ?_ ?_
      · intro x hx hx'
        exact hrun x hx (by omega)
      · intro x hx hxhi _
        omega

/-! ## Where runs start -/

/-- Every run starts at a cell that satisfies `q`, cut to the window. -/
structure StartsAt (lo : ℕ) (q : ℕ → Prop) (st : State) : Prop where
  closed : ∀ r ∈ st.closed, ∃ start, q start ∧ r.1 = max start lo
  opened : ∀ start, st.opened = some start → q start

variable {q : ℕ → Prop}

theorem StartsAt.empty : StartsAt lo q .empty where
  closed _ hr := absurd hr List.not_mem_nil
  opened _ h := by cases h

theorem StartsAt.visit {marked : Bool} (h : StartsAt lo q st) (hq : q pos) :
    StartsAt lo q (visit lo hi pos marked st) := by
  obtain ⟨closed, opened⟩ := st
  cases marked with
  | true =>
      cases opened with
      | none => exact ⟨h.closed, fun start hstart => Option.some.inj hstart ▸ hq⟩
      | some start => exact h
  | false =>
      cases opened with
      | none => exact h
      | some start =>
          refine ⟨fun r hr => ?_, fun _ hstart => by cases hstart⟩
          rcases List.mem_append.1 hr with hr | hr
          · exact h.closed r hr
          · obtain rfl := List.mem_singleton.1 hr
            exact ⟨start, h.opened start rfl, rfl⟩

theorem StartsAt.finish (h : StartsAt lo q st) :
    ∀ r ∈ finish lo hi st, ∃ start, q start ∧ r.1 = max start lo := by
  obtain ⟨closed, opened⟩ := st
  cases opened with
  | none => exact h.closed
  | some start =>
      intro r hr
      rcases List.mem_append.1 hr with hr | hr
      · exact h.closed r hr
      · obtain rfl := List.mem_singleton.1 hr
        exact ⟨start, h.opened start rfl, rfl⟩

end Runs

end PreloadNg
