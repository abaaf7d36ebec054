import Mathlib.Data.List.Basic

set_option autoImplicit false

/-! # Buffered streams of futures

`buffer_unordered(n)` keeps up to `n` futures of a stream in flight and yields them as they finish.
The adaptor owns the futures in flight: what it has pulled and not yielded goes with it when it is
dropped, even if the stream itself belongs to somebody else. -/

namespace PreloadNg

structure BufferUnordered (α : Type) where
  stream : List α
  inFlight : List α

namespace BufferUnordered

variable {α : Type}

/-- A new adaptor over what is left of a stream. -/
def ofStream (stream : List α) : BufferUnordered α := ⟨stream, []⟩

/-- Pull futures until `n` are in flight. -/
def fill (n : ℕ) (b : BufferUnordered α) : BufferUnordered α where
  stream := b.stream.drop (n - b.inFlight.length)
  inFlight := b.inFlight ++ b.stream.take (n - b.inFlight.length)

/-- `next`, when the first future to finish is the one at place `i` of those in flight. -/
def next (n i : ℕ) (b : BufferUnordered α) : Option (α × BufferUnordered α) :=
  let b := b.fill n
  b.inFlight[i]?.map fun a => (a, { b with inFlight := b.inFlight.eraseIdx i })

/-- Nothing is in flight, and nothing is left to pull. -/
def exhausted (n : ℕ) (b : BufferUnordered α) : Bool := (b.fill n).inFlight.isEmpty

@[simp] theorem fill_ofStream (n : ℕ) (l : List α) : (ofStream l).fill n = ⟨l.drop n, l.take n⟩ := by
  simp [fill, ofStream]

/-- A new adaptor takes `n` futures from the stream, and yields one of them. -/
theorem next_ofStream {n i : ℕ} {l : List α} {a : α} {b : BufferUnordered α}
    (h : (ofStream l).next n i = some (a, b)) : (l.take n)[i]? = some a ∧ b.stream = l.drop n := by
  unfold next at h
  rw [fill_ofStream, Option.map_eq_some_iff] at h
  obtain ⟨a', ha', heq⟩ := h
  obtain ⟨rfl, rfl⟩ := Prod.mk.inj heq
  exact ⟨ha', rfl⟩

theorem exhausted_ofStream {n : ℕ} (hn : 0 < n) (l : List α) :
    (ofStream l).exhausted n = true ↔ l = [] := by
  rw [exhausted, fill_ofStream, List.isEmpty_iff, List.take_eq_nil_iff]
  constructor
  · intro h
    exact h.resolve_left (by omega)
  · exact Or.inr

end BufferUnordered

end PreloadNg
