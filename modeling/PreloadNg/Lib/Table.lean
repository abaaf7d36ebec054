import Mathlib.Data.List.Nodup
import PreloadNg.Lib.Records

set_option autoImplicit false

/-! # Tables with a primary key

A table lists its rows in the order in which they were inserted, and no two rows have one key. -/

namespace PreloadNg

variable {Row K ε ρ : Type}

structure Table (key : Row → K) where
  rows : List Row
  nodup : (rows.map key).Nodup

namespace Table

variable {key : Row → K}

instance : EmptyCollection (Table key) := ⟨⟨[], List.nodup_nil⟩⟩

variable [DecidableEq K]

/-- `INSERT INTO`, failing with `conflict` when the key is taken. -/
def insert (conflict : ε) (t : Table key) (row : Row) : Except ε (Table key) :=
  if h : key row ∈ t.rows.map key then .error conflict
  else
    .ok
      { rows := t.rows ++ [row]
        nodup := by
          rw [List.map_append, List.map_singleton]
          exact List.nodup_append_comm.1 (List.nodup_cons.2 ⟨h, t.nodup⟩) }

/-- A row with a new key is appended. -/
theorem insert_of_new (conflict : ε) {t : Table key} {row : Row} (h : key row ∉ t.rows.map key) :
    ∃ t', t.insert conflict row = .ok t' ∧ t'.rows = t.rows ++ [row] := by
  unfold insert
  rw [dif_neg h]
  exact ⟨_, rfl, rfl⟩

/-- A loop that encodes records and inserts them appends one row per record, when the encoding does
    not fail and the keys are distinct. -/
theorem foldlM_insert (conflict : ε) {encode : ρ → Except ε Row} {row : ρ → Row} {rs : List ρ}
    (t : Table key) (hencode : ∀ r ∈ rs, encode r = .ok (row r))
    (hnodup : ((t.rows ++ rs.map row).map key).Nodup) :
    ∃ t', rs.foldlM (fun t r => encode r >>= t.insert conflict) t = .ok t' ∧
      t'.rows = t.rows ++ rs.map row := by
  induction rs generalizing t with
  | nil => exact ⟨t, rfl, by simp⟩
  | cons r rest ih =>
      have hnew : key (row r) ∉ t.rows.map key := by
        rw [List.map_append, List.map_cons, List.map_cons, List.nodup_append] at hnodup
        exact fun hmem => hnodup.2.2 _ hmem _ List.mem_cons_self rfl
      obtain ⟨t₁, ht₁, hrows₁⟩ := insert_of_new conflict hnew
      have hsplit : t.rows ++ (r :: rest).map row = t₁.rows ++ rest.map row := by
        rw [hrows₁, List.map_cons, List.append_assoc, List.singleton_append]
      obtain ⟨t', ht', hrows'⟩ := ih t₁
        (fun r' hr' => hencode r' (List.mem_cons_of_mem _ hr')) (hsplit ▸ hnodup)
      refine ⟨t', ?_, hrows'.trans hsplit.symm⟩
      rw [List.foldlM_cons]
      exact except_bind_eq_ok.2
        ⟨t₁, except_bind_eq_ok.2 ⟨row r, hencode r List.mem_cons_self, ht₁⟩, ht'⟩

end Table

/-- Decoding the rows that records were encoded to. -/
theorem map_decode {row : ρ → Row} {decode : Row → ρ} {rs : List ρ}
    (h : ∀ r ∈ rs, decode (row r) = r) : (rs.map row).map decode = rs := by
  rw [List.map_map]
  exact (List.map_congr_left h).trans (List.map_id rs)

/-- Decoding the rows that records were encoded to, when decoding may fail. -/
theorem mapM_decode {row : ρ → Row} {decode : Row → Except ε ρ} {rs : List ρ}
    (h : ∀ r ∈ rs, decode (row r) = .ok r) : (rs.map row).mapM decode = .ok rs := by
  induction rs with
  | nil => rfl
  | cons r rest ih =>
      rw [List.map_cons, List.mapM_cons]
      refine except_bind_eq_ok.2 ⟨r, h r List.mem_cons_self, ?_⟩
      exact except_bind_eq_ok.2
        ⟨rest, ih fun r' hr' => h r' (List.mem_cons_of_mem _ hr'), rfl⟩

end PreloadNg
