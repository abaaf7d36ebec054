import Mathlib.Data.Nat.Notation
import Mathlib.Logic.Function.Basic

set_option autoImplicit false

/-! # A cache with a time to live

What the users of such a cache rely on: a lookup returns nothing, or the value last inserted for the
key, if that was less than the time to live ago and the entry was not removed since. The cache may
forget an entry at any moment. -/

namespace PreloadNg

variable {κ α : Type}

/-- For each key the last value inserted with its time, until it is removed. -/
structure TtlCache (κ α : Type) where
  entries : κ → Option (α × ℕ)

namespace TtlCache

def empty : TtlCache κ α := ⟨fun _ => none⟩

variable [DecidableEq κ]

def insert (c : TtlCache κ α) (key : κ) (a : α) (now : ℕ) : TtlCache κ α :=
  ⟨Function.update c.entries key (some (a, now))⟩

/-- Invalidation by the user, or eviction by the cache. -/
def remove (c : TtlCache κ α) (key : κ) : TtlCache κ α := ⟨Function.update c.entries key none⟩

omit [DecidableEq κ] in
@[simp] theorem entries_empty (key : κ) : (empty : TtlCache κ α).entries key = none := rfl

theorem entries_insert (c : TtlCache κ α) (key key' : κ) (a : α) (now : ℕ) :
    (c.insert key a now).entries key' = if key' = key then some (a, now) else c.entries key' :=
  Function.update_apply _ _ _ _

theorem entries_remove (c : TtlCache κ α) (key key' : κ) :
    (c.remove key).entries key' = if key' = key then none else c.entries key' :=
  Function.update_apply _ _ _ _

/-- What a lookup of `key` may return at `now`. -/
def MayReturn (c : TtlCache κ α) (ttl now : ℕ) (key : κ) : Option α → Prop
  | none => True
  | some a => ∃ inserted, c.entries key = some (a, inserted) ∧ now < inserted + ttl

end TtlCache

end PreloadNg
