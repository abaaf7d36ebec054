import PreloadNg.Stores.Basic

set_option autoImplicit false

/-! # Stores read by path

Ids are an accident of the order of discovery. Here the contents of the stores are read by path and
map key: an edge between two paths is read from the side of the first one, which exchanges the roles
`AOnly` and `BOnly` when its key lists the two ids the other way around. -/

namespace PreloadNg

variable {F16 : Type}

/-- The index of the same state seen with the two executables exchanged. -/
def swapIndex : Fin 4 → Fin 4
  | 0 => 0
  | 1 => 2
  | 2 => 1
  | 3 => 3

@[simp] theorem swapIndex_swapIndex (i : Fin 4) : swapIndex (swapIndex i) = i := by
  revert i
  decide

theorem MarkovState.index_swap (s : MarkovState) : s.swap.index = swapIndex s.index := by
  cases s <;> rfl

namespace Edge

/-- The same edge with its two executables exchanged. -/
def swapRoles (e : Edge F16) : Edge F16 where
  state := e.state.swap
  lastChangeTime := e.lastChangeTime
  stateLastLeft := fun i => e.stateLastLeft (swapIndex i)
  timeToLeave := fun i => e.timeToLeave (swapIndex i)
  transitionProb := fun i j => e.transitionProb (swapIndex i) (swapIndex j)
  bothRunningTime := e.bothRunningTime

@[simp] theorem swapRoles_swapRoles (e : Edge F16) : e.swapRoles.swapRoles = e := by
  obtain ⟨state, _, _, _, _, _⟩ := e
  simp [swapRoles]

/-- The edge seen from `a`, when it is stored under the key of `a` and `b`. -/
def seenFrom (a b : ExeId) (e : Edge F16) : Edge F16 := if a ≤ b then e else e.swapRoles

theorem seenFrom_comm {a b : ExeId} (hne : a ≠ b) (e : Edge F16) :
    e.seenFrom b a = (e.seenFrom a b).swapRoles := by
  unfold seenFrom
  rcases lt_or_gt_of_ne hne with h | h
  · rw [if_neg (not_le.2 h), if_pos (le_of_lt h)]
  · rw [if_pos (le_of_lt h), if_neg (not_le.2 h), swapRoles_swapRoles]

@[simp] theorem seenFrom_bothRunningTime (a b : ExeId) (e : Edge F16) :
    (e.seenFrom a b).bothRunningTime = e.bothRunningTime := by
  unfold seenFrom
  split <;> rfl

end Edge

namespace Stores

/-- The map of a key. -/
def mapAt (s : Stores F16) (key : MapKey) : Option MapSegment := s.maps.lookup key

/-- Whether the executable of `path` uses the map of `key`. -/
def relAt (s : Stores F16) (path : Path) (key : MapKey) : Prop :=
  ∃ e m, s.exes.idByKey ⟨path⟩ = some e ∧ s.maps.idByKey key = some m ∧ s.exeMaps.Rel e m

/-- The time at which the executable of `path` was last seen active. -/
def activeAt (s : Stores F16) (path : Path) : Option UInt64 :=
  (s.exes.idByKey ⟨path⟩).bind s.active.seenAt

/-- The edge between two paths, seen from the first. -/
def edgeAt (s : Stores F16) (p q : Path) : Option (Edge F16) :=
  (s.exes.idByKey ⟨p⟩).bind fun a =>
    (s.exes.idByKey ⟨q⟩).bind fun b =>
      (s.markov.get? (EdgeKey.new a b)).map (Edge.seenFrom a b)

theorem mapAt_eq_some {s : Stores F16} {key : MapKey} {m : MapSegment} :
    s.mapAt key = some m ↔ ∃ id, s.maps.get? id = some m ∧ m.key = key :=
  KeyedStore.lookup_eq_some

@[simp] theorem mapAt_empty (key : MapKey) : (∅ : Stores F16).mapAt key = none := rfl

@[simp] theorem activeAt_empty (path : Path) : (∅ : Stores F16).activeAt path = none := rfl

theorem activeAt_eq_some {s : Stores F16} {path : Path} {last : UInt64} :
    s.activeAt path = some last ↔
      ∃ id, s.exes.idByKey ⟨path⟩ = some id ∧ s.active.seenAt id = some last :=
  Option.bind_eq_some_iff

theorem edgeAt_eq_some {s : Stores F16} {p q : Path} {e : Edge F16} :
    s.edgeAt p q = some e ↔ ∃ a b e₀, s.exes.idByKey ⟨p⟩ = some a ∧ s.exes.idByKey ⟨q⟩ = some b ∧
      s.markov.get? (EdgeKey.new a b) = some e₀ ∧ e₀.seenFrom a b = e := by
  simp only [edgeAt, Option.bind_eq_some_iff, Option.map_eq_some_iff]
  constructor
  · rintro ⟨a, ha, b, hb, e₀, he₀, he⟩
    exact ⟨a, b, e₀, ha, hb, he₀, he⟩
  · rintro ⟨a, b, e₀, ha, hb, he₀, he⟩
    exact ⟨a, ha, b, hb, e₀, he₀, he⟩

/-- Two stores that cannot be told apart by path. -/
structure SameByPath (s t : Stores F16) : Prop where
  modelTime : s.modelTime = t.modelTime
  lastAccountingTime : s.lastAccountingTime = t.lastAccountingTime
  exeAt : ∀ p, s.exeAt p = t.exeAt p
  mapAt : ∀ key, s.mapAt key = t.mapAt key
  relAt : ∀ p key, s.relAt p key ↔ t.relAt p key
  activeAt : ∀ p, s.activeAt p = t.activeAt p
  edgeAt : ∀ p q, s.edgeAt p q = t.edgeAt p q

/-- Two stores that agree by path on everything but the metadata of the stored maps. -/
structure AgreesByPath (s t : Stores F16) : Prop where
  modelTime : s.modelTime = t.modelTime
  lastAccountingTime : s.lastAccountingTime = t.lastAccountingTime
  exeAt : ∀ p, s.exeAt p = t.exeAt p
  mapAt : ∀ key, s.mapAt key = none ↔ t.mapAt key = none
  relAt : ∀ p key, s.relAt p key ↔ t.relAt p key
  activeAt : ∀ p, s.activeAt p = t.activeAt p
  edgeAt : ∀ p q, s.edgeAt p q = t.edgeAt p q

theorem AgreesByPath.refl (s : Stores F16) : s.AgreesByPath s :=
  ⟨rfl, rfl, fun _ => rfl, fun _ => Iff.rfl, fun _ _ => Iff.rfl, fun _ => rfl, fun _ _ => rfl⟩

theorem SameByPath.agrees {s t : Stores F16} (h : s.SameByPath t) : s.AgreesByPath t where
  modelTime := h.modelTime
  lastAccountingTime := h.lastAccountingTime
  exeAt := h.exeAt
  mapAt key := by rw [h.mapAt]
  relAt := h.relAt
  activeAt := h.activeAt
  edgeAt := h.edgeAt

end Stores

end PreloadNg
