import PreloadNg.Domain
import PreloadNg.Lib.HashMap

set_option autoImplicit false

/-! # The active set

The executables seen running within a configurable window, each with the time it was last seen. -/

namespace PreloadNg

structure ActiveSet where
  lastSeen : FxHashMap ExeId UInt64
deriving DecidableEq

namespace ActiveSet

instance : EmptyCollection ActiveSet := ⟨⟨∅⟩⟩

def update (s : ActiveSet) (activeNow : List ExeId) (now : UInt64) : ActiveSet :=
  ⟨activeNow.foldl (fun m exeId => m.insert exeId now) s.lastSeen⟩

/-- Drop what was last seen more than `window` ago; also returns what was dropped. -/
def prune (s : ActiveSet) (now window : UInt64) : ActiveSet × FxHashSet ExeId :=
  let expired (last : UInt64) : Bool := window < satSub now last
  (⟨s.lastSeen.retain fun _ last => !expired last⟩,
   FxHashSet.ofList ((s.lastSeen.retain fun _ last => expired last).keys))

def exes (s : ActiveSet) : FxHashSet ExeId := FxHashSet.ofList s.lastSeen.keys

/-- The time at which `exeId` was last seen, when it is a member. -/
def seenAt (s : ActiveSet) (exeId : ExeId) : Option UInt64 := s.lastSeen.get? exeId

@[simp] theorem seenAt_empty (e : ExeId) : (∅ : ActiveSet).seenAt e = none :=
  FxHashMap.get?_empty e

theorem seenAt_update (s : ActiveSet) (ids : List ExeId) (now : UInt64) (e : ExeId) :
    (s.update ids now).seenAt e = if e ∈ ids then some now else s.seenAt e := by
  obtain ⟨m⟩ := s
  simp only [update, seenAt]
  induction ids generalizing m with
  | nil => simp
  | cons a rest ih =>
      rw [List.foldl_cons, ih, FxHashMap.get?_insert]
      by_cases h : e ∈ rest
      · simp [h]
      · by_cases ha : e = a <;> simp [h, ha]

theorem update_eq_self {s : ActiveSet} {ids : List ExeId} {now : UInt64}
    (h : ∀ id ∈ ids, s.seenAt id = some now) : s.update ids now = s := by
  unfold update
  induction ids with
  | nil => rfl
  | cons id rest ih =>
      rw [List.foldl_cons, FxHashMap.insert_eq_self (h id List.mem_cons_self)]
      exact ih fun id' hid' => h id' (List.mem_cons_of_mem id hid')

theorem prune_eq_self {s : ActiveSet} {now window : UInt64}
    (h : ∀ id last, s.seenAt id = some last → satSub now last ≤ window) :
    (s.prune now window).1 = s := by
  unfold prune
  dsimp only
  rw [FxHashMap.retain_eq_self]
  intro id last hlast
  simpa using h id last hlast

theorem seenAt_prune (s : ActiveSet) (now window : UInt64) (e : ExeId) :
    (s.prune now window).1.seenAt e = (s.seenAt e).filter fun last => satSub now last ≤ window := by
  simp only [prune, seenAt, FxHashMap.get?_retain]
  congr 1
  funext last
  by_cases h : satSub now last ≤ window
  · simp [h, UInt64.not_lt.2 h]
  · simp [h, UInt64.not_le.1 h]

theorem mem_exes (s : ActiveSet) (e : ExeId) : e ∈ s.exes ↔ ∃ last, s.seenAt e = some last := by
  rw [exes, FxHashSet.mem_ofList, FxHashMap.mem_keys, Option.isSome_iff_exists]
  rfl

end ActiveSet

end PreloadNg
