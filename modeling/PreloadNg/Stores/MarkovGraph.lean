import PreloadNg.Domain
import PreloadNg.Lib.HashMap
import PreloadNg.Numerics

set_option autoImplicit false

/-! # The Markov graph

Edges between pairs of executables, stored as a structure of arrays: seven parallel vectors and an
index from edge keys to positions. The type carries that the vectors have one length and that the
index is the inverse of the key vector. Everything above this module reads a graph through `get?`,
the finite map from edge keys to edges that the vectors represent; the `get?_…` lemmas say what each
operation does to that map. -/

namespace PreloadNg

/-! ## Edge keys -/

/-- An unordered pair of executables, with the smaller id first. -/
structure EdgeKey where
  a : ExeId
  b : ExeId
  le : a ≤ b
deriving DecidableEq

namespace EdgeKey

def new (a b : ExeId) : EdgeKey :=
  if h : a < b then ⟨a, b, le_of_lt h⟩ else ⟨b, a, not_lt.1 h⟩

@[ext] theorem ext {k l : EdgeKey} (ha : k.a = l.a) (hb : k.b = l.b) : k = l := by
  cases k
  cases l
  simp_all

theorem new_comm (a b : ExeId) : new a b = new b a := by
  unfold new
  rcases lt_trichotomy a b with h | h | h
  · rw [dif_pos h, dif_neg (not_lt.2 (le_of_lt h))]
  · subst h
    rfl
  · rw [dif_neg (not_lt.2 (le_of_lt h)), dif_pos h]

theorem new_of_le {a b : ExeId} (h : a ≤ b) : new a b = ⟨a, b, h⟩ := by
  unfold new
  rcases lt_or_eq_of_le h with hlt | rfl
  · rw [dif_pos hlt]
  · rw [dif_neg (lt_irrefl a)]

theorem new_a_b (k : EdgeKey) : new k.a k.b = k := new_of_le k.le

/-- The endpoints of `new a b` are `a` and `b`, in one of the two orders. -/
theorem new_cases (a b : ExeId) :
    ((new a b).a = a ∧ (new a b).b = b) ∨ ((new a b).a = b ∧ (new a b).b = a) := by
  unfold new
  split
  · exact Or.inl ⟨rfl, rfl⟩
  · exact Or.inr ⟨rfl, rfl⟩

/-- What holds of both endpoints of `new a b` holds of `a` and `b`. -/
theorem new_both (P : ExeId → Prop) (a b : ExeId) :
    (P (new a b).a ∧ P (new a b).b) ↔ (P a ∧ P b) := by
  rcases new_cases a b with ⟨h1, h2⟩ | ⟨h1, h2⟩
  · rw [h1, h2]
  · rw [h1, h2, and_comm]

theorem new_ne_iff {a b : ExeId} : (new a b).a ≠ (new a b).b ↔ a ≠ b := by
  rcases new_cases a b with ⟨h1, h2⟩ | ⟨h1, h2⟩
  · rw [h1, h2]
  · rw [h1, h2, ne_comm]

theorem new_eq_iff {a b : ExeId} {k : EdgeKey} :
    new a b = k ↔ (a = k.a ∧ b = k.b) ∨ (a = k.b ∧ b = k.a) := by
  constructor
  · rintro rfl
    rcases new_cases a b with ⟨h1, h2⟩ | ⟨h1, h2⟩
    · exact Or.inl ⟨h1.symm, h2.symm⟩
    · exact Or.inr ⟨h2.symm, h1.symm⟩
  · rintro (⟨rfl, rfl⟩ | ⟨rfl, rfl⟩)
    · exact new_a_b k
    · rw [new_comm, new_a_b]

theorem new_inj {a b c d : ExeId} (h : new a b = new c d) :
    (a = c ∧ b = d) ∨ (a = d ∧ b = c) := by
  rcases new_eq_iff.1 h with ⟨ha, hb⟩ | ⟨ha, hb⟩ <;> rcases new_cases c d with ⟨hc, hd⟩ | ⟨hc, hd⟩
  · exact Or.inl ⟨ha.trans hc, hb.trans hd⟩
  · exact Or.inr ⟨ha.trans hc, hb.trans hd⟩
  · exact Or.inr ⟨ha.trans hd, hb.trans hc⟩
  · exact Or.inl ⟨ha.trans hd, hb.trans hc⟩

end EdgeKey

/-! ## Edges -/

/-- One edge: the statistics of a four-state chain and its clocks. -/
structure Edge (F16 : Type) where
  state : MarkovState
  lastChangeTime : UInt64
  stateLastLeft : Fin 4 → UInt64
  timeToLeave : Fin 4 → F16
  transitionProb : Fin 4 → Fin 4 → F16
  bothRunningTime : UInt64
deriving DecidableEq

section Edge

variable {F16 F32 : Type} [Float32Ops F32] (num : Numerics F16 F32)

/-- `time_to_leave_f32`. -/
def Edge.timeToLeaveF32 (e : Edge F16) : Fin 4 → F32 := fun i => num.toF32 (e.timeToLeave i)

/-- `transition_prob_f32`. -/
def Edge.transitionProbF32 (e : Edge F16) : Fin 4 → Fin 4 → F32 :=
  fun i j => num.toF32 (e.transitionProb i j)

/-- `set_time_to_leave_f32`. -/
def Edge.setTimeToLeaveF32 (e : Edge F16) (values : Fin 4 → F32) : Edge F16 :=
  { e with timeToLeave := fun i => num.ofF32 (values i) }

/-- `set_transition_prob_f32`. -/
def Edge.setTransitionProbF32 (e : Edge F16) (values : Fin 4 → Fin 4 → F32) : Edge F16 :=
  { e with transitionProb := fun i j => num.ofF32 (values i j) }

/-- Take the transition to `newState` at `now`: mix the dwell time into `time_to_leave` and the
    observed successor into the row of the state left. Every row is recomputed, with mix `1`
    outside the observed one. -/
def Edge.updateState (e : Edge F16) (newState : MarkovState) (now : UInt64) (decay : F32) :
    Edge F16 :=
  if newState = e.state then e
  else
    let oldIx := e.state.index
    let newIx := newState.index
    let dtSinceLeft := satSub now (e.stateLastLeft oldIx)
    let dtSinceChange := satSub now e.lastChangeTime
    let mixTt := num.fastExpNeg (-decay * u64AsF32 dtSinceLeft)
    let mixTp := num.fastExpNeg (-decay * u64AsF32 dtSinceChange)
    let dwell : F32 := u64AsF32 dtSinceChange
    let ttl := e.timeToLeaveF32 num
    let ttl := Function.update ttl oldIx (mixTt * ttl oldIx + (1 - mixTt) * dwell)
    let row (i : Fin 4) : Fin 4 → F32 :=
      let isActiveRow : F32 := if i = oldIx then 1 else 0
      let mix := isActiveRow * mixTp + (1 - isActiveRow)
      let oneMinusMix := 1 - mix
      fun j =>
        let target := isActiveRow * (if j = newIx then 1 else 0)
        mix * num.toF32 (e.transitionProb i j) + oneMinusMix * target
    { state := newState
      lastChangeTime := now
      stateLastLeft := Function.update e.stateLastLeft oldIx now
      timeToLeave := fun i => num.ofF32 (ttl i)
      transitionProb := fun i j => num.ofF32 (row i j)
      bothRunningTime := e.bothRunningTime }

/-- A transition does not touch the co-running time. -/
@[simp] theorem Edge.updateState_bothRunningTime (e : Edge F16) (newState : MarkovState)
    (now : UInt64) (decay : F32) :
    (e.updateState num newState now decay).bothRunningTime = e.bothRunningTime := by
  unfold Edge.updateState
  split <;> rfl

@[simp] theorem Edge.updateState_state (e : Edge F16) (newState : MarkovState) (now : UInt64)
    (decay : F32) : (e.updateState num newState now decay).state = newState := by
  unfold Edge.updateState
  split
  · next h => exact h.symm
  · rfl

end Edge

/-! ## The structure of arrays -/

structure MarkovGraph (F16 : Type) where
  keys : List EdgeKey
  states : List MarkovState
  lastChangeTimes : List UInt64
  stateLastLeft : List (Fin 4 → UInt64)
  timeToLeave : List (Fin 4 → F16)
  transitionProb : List (Fin 4 → Fin 4 → F16)
  bothRunningTimes : List UInt64
  keyToIndex : FxHashMap EdgeKey ℕ
  states_length : states.length = keys.length
  lastChangeTimes_length : lastChangeTimes.length = keys.length
  stateLastLeft_length : stateLastLeft.length = keys.length
  timeToLeave_length : timeToLeave.length = keys.length
  transitionProb_length : transitionProb.length = keys.length
  bothRunningTimes_length : bothRunningTimes.length = keys.length
  /-- The index is the inverse of the key vector. -/
  index_spec : ∀ key i, keyToIndex.get? key = some i ↔ keys[i]? = some key

namespace MarkovGraph

variable {F16 : Type}

instance [DecidableEq F16] : DecidableEq (MarkovGraph F16) := fun g h =>
  decidable_of_iff
    (g.keys = h.keys ∧ g.states = h.states ∧ g.lastChangeTimes = h.lastChangeTimes ∧
      g.stateLastLeft = h.stateLastLeft ∧ g.timeToLeave = h.timeToLeave ∧
      g.transitionProb = h.transitionProb ∧ g.bothRunningTimes = h.bothRunningTimes ∧
      g.keyToIndex = h.keyToIndex)
    (by cases g; cases h; simp)

def empty : MarkovGraph F16 where
  keys := []
  states := []
  lastChangeTimes := []
  stateLastLeft := []
  timeToLeave := []
  transitionProb := []
  bothRunningTimes := []
  keyToIndex := ∅
  states_length := rfl
  lastChangeTimes_length := rfl
  stateLastLeft_length := rfl
  timeToLeave_length := rfl
  transitionProb_length := rfl
  bothRunningTimes_length := rfl
  index_spec := by simp

instance : EmptyCollection (MarkovGraph F16) := ⟨empty⟩

/-- The view of position `i`: the elements of the seven vectors there. -/
def edgeAt? (g : MarkovGraph F16) (i : ℕ) : Option (Edge F16) := do
  let state ← g.states[i]?
  let lastChangeTime ← g.lastChangeTimes[i]?
  let stateLastLeft ← g.stateLastLeft[i]?
  let timeToLeave ← g.timeToLeave[i]?
  let transitionProb ← g.transitionProb[i]?
  let bothRunningTime ← g.bothRunningTimes[i]?
  return { state, lastChangeTime, stateLastLeft, timeToLeave, transitionProb, bothRunningTime }

/-- The edge stored under a key: what `get_mut` gives a view of. -/
def get? (g : MarkovGraph F16) (key : EdgeKey) : Option (Edge F16) :=
  (g.keyToIndex.get? key).bind g.edgeAt?

/-- `iter`: the positions in order, each with its key. -/
def iter (g : MarkovGraph F16) : List (EdgeKey × Edge F16) :=
  g.keys.zipIdx.filterMap fun (key, i) => (g.edgeAt? i).map fun e => (key, e)

theorem edgeAt?_isSome {g : MarkovGraph F16} {i : ℕ} :
    (g.edgeAt? i).isSome ↔ i < g.keys.length := by
  constructor
  · intro h
    by_contra hge
    have : g.states[i]? = none := List.getElem?_eq_none (by rw [g.states_length]; omega)
    simp [edgeAt?, this] at h
  · intro h
    have h1 := List.getElem?_eq_getElem (g.states_length.symm ▸ h)
    have h2 := List.getElem?_eq_getElem (g.lastChangeTimes_length.symm ▸ h)
    have h3 := List.getElem?_eq_getElem (g.stateLastLeft_length.symm ▸ h)
    have h4 := List.getElem?_eq_getElem (g.timeToLeave_length.symm ▸ h)
    have h5 := List.getElem?_eq_getElem (g.transitionProb_length.symm ▸ h)
    have h6 := List.getElem?_eq_getElem (g.bothRunningTimes_length.symm ▸ h)
    simp [edgeAt?, h1, h2, h3, h4, h5, h6]

/-- Keys do not repeat. -/
theorem key_injective {g : MarkovGraph F16} {i j : ℕ} {key : EdgeKey}
    (hi : g.keys[i]? = some key) (hj : g.keys[j]? = some key) : i = j := by
  rw [← g.index_spec] at hi hj
  exact Option.some.inj (hi.symm.trans hj)

theorem get?_of_key {g : MarkovGraph F16} {i : ℕ} {key : EdgeKey} (h : g.keys[i]? = some key) :
    g.get? key = g.edgeAt? i := by
  rw [get?, (g.index_spec key i).2 h, Option.bind_some]

theorem get?_eq_some {g : MarkovGraph F16} {key : EdgeKey} {e : Edge F16} :
    g.get? key = some e ↔ ∃ i, g.keys[i]? = some key ∧ g.edgeAt? i = some e := by
  simp only [get?, Option.bind_eq_some_iff, g.index_spec]

theorem mem_keys_iff {g : MarkovGraph F16} {key : EdgeKey} :
    key ∈ g.keys ↔ ∃ e, g.get? key = some e := by
  constructor
  · intro h
    obtain ⟨i, hi⟩ := List.mem_iff_getElem?.1 h
    have hlt := (List.getElem?_eq_some_iff.1 hi).1
    obtain ⟨e, he⟩ := Option.isSome_iff_exists.1 (edgeAt?_isSome.2 hlt)
    exact ⟨e, get?_eq_some.2 ⟨i, hi, he⟩⟩
  · rintro ⟨e, he⟩
    obtain ⟨i, hi, -⟩ := get?_eq_some.1 he
    exact List.mem_iff_getElem?.2 ⟨i, hi⟩

theorem contains_iff {g : MarkovGraph F16} {key : EdgeKey} :
    (g.keyToIndex.get? key).isSome ↔ key ∈ g.keys := by
  rw [Option.isSome_iff_exists, List.mem_iff_getElem?]
  simp only [g.index_spec]

theorem mem_iter {g : MarkovGraph F16} {key : EdgeKey} {e : Edge F16} :
    (key, e) ∈ g.iter ↔ g.get? key = some e := by
  rw [get?_eq_some, iter, List.mem_filterMap]
  constructor
  · rintro ⟨⟨k, i⟩, hmem, h⟩
    rw [Option.map_eq_some_iff] at h
    obtain ⟨e', he', h⟩ := h
    obtain ⟨rfl, rfl⟩ := Prod.mk.inj h
    exact ⟨i, by simpa using List.mem_zipIdx_iff_getElem?.1 hmem, he'⟩
  · rintro ⟨i, hi, he⟩
    exact ⟨(key, i), List.mem_zipIdx_iff_getElem?.2 (by simpa using hi), by simp [he]⟩

theorem keys_nodup (g : MarkovGraph F16) : g.keys.Nodup := by
  rw [List.nodup_iff_getElem?_ne_getElem?]
  intro i j hij hlt h
  have hj := List.getElem?_eq_getElem hlt
  exact absurd (key_injective (h.trans hj) hj) (by omega)

theorem iter_map_fst (g : MarkovGraph F16) : g.iter.map Prod.fst = g.keys := by
  have hall : ∀ x ∈ g.keys.zipIdx, ((g.edgeAt? x.2).map fun e => (x.1, e)).map Prod.fst =
      some x.1 := by
    rintro ⟨key, i⟩ hmem
    have hlt : i < g.keys.length := by
      have := List.mem_zipIdx_iff_getElem?.1 hmem
      exact (List.getElem?_eq_some_iff.1 this).1
    obtain ⟨e, he⟩ := Option.isSome_iff_exists.1 (edgeAt?_isSome.2 hlt)
    simp [he]
  rw [iter, List.map_filterMap, List.filterMap_congr hall, List.filterMap_eq_map']
  exact List.zipIdx_map_fst _ _

@[simp] theorem get?_empty (key : EdgeKey) : (∅ : MarkovGraph F16).get? key = none := rfl

/-! ## Creating edges -/

/-- The record a new edge starts with. -/
def freshEdge (zero : F16) (now : UInt64) (state : MarkovState) : Edge F16 where
  state := state
  lastChangeTime := now
  stateLastLeft := fun _ => now
  timeToLeave := fun _ => zero
  transitionProb := fun _ _ => zero
  bothRunningTime := 0

/-- `ensure_edge`: push a fresh record on each vector unless the pair has an edge. The flag reports
    the push. -/
def ensureEdge (zero : F16) (g : MarkovGraph F16) (a b : ExeId) (now : UInt64)
    (state : MarkovState) : MarkovGraph F16 × Bool :=
  let key := EdgeKey.new a b
  if h : (g.keyToIndex.get? key).isSome then (g, false)
  else
    ({ keys := g.keys ++ [key]
       states := g.states ++ [state]
       lastChangeTimes := g.lastChangeTimes ++ [now]
       stateLastLeft := g.stateLastLeft ++ [fun _ => now]
       timeToLeave := g.timeToLeave ++ [fun _ => zero]
       transitionProb := g.transitionProb ++ [fun _ _ => zero]
       bothRunningTimes := g.bothRunningTimes ++ [0]
       keyToIndex := g.keyToIndex.insert key g.keys.length
       states_length := by simp [g.states_length]
       lastChangeTimes_length := by simp [g.lastChangeTimes_length]
       stateLastLeft_length := by simp [g.stateLastLeft_length]
       timeToLeave_length := by simp [g.timeToLeave_length]
       transitionProb_length := by simp [g.transitionProb_length]
       bothRunningTimes_length := by simp [g.bothRunningTimes_length]
       index_spec := by
         intro k i
         have hnew : key ∉ g.keys := fun hmem => h (contains_iff.2 hmem)
         rw [FxHashMap.get?_insert, List.getElem?_append]
         by_cases hk : k = key
         · subst hk
           rw [if_pos rfl, Option.some.injEq]
           split
           · next hlt =>
               refine iff_of_false (by omega) fun hi => hnew ?_
               exact List.mem_of_getElem? hi
           · next hge =>
               rw [List.getElem?_singleton]
               split <;> simp <;> omega
         · rw [if_neg hk, g.index_spec]
           split
           · rfl
           · next hge =>
               rw [List.getElem?_eq_none (not_lt.1 hge), List.getElem?_singleton]
               split <;> simp [Ne.symm hk] },
     true)

theorem ensureEdge_of_mem (zero : F16) {g : MarkovGraph F16} {a b : ExeId} (now : UInt64)
    (state : MarkovState) (h : EdgeKey.new a b ∈ g.keys) :
    g.ensureEdge zero a b now state = (g, false) := by
  unfold ensureEdge
  rw [dif_pos (contains_iff.2 h)]

theorem ensureEdge_flag (zero : F16) (g : MarkovGraph F16) (a b : ExeId) (now : UInt64)
    (state : MarkovState) :
    (g.ensureEdge zero a b now state).2 = true ↔ EdgeKey.new a b ∉ g.keys := by
  by_cases hmem : EdgeKey.new a b ∈ g.keys
  · rw [ensureEdge_of_mem zero now state hmem]
    simp [hmem]
  · have hn : ¬ (g.keyToIndex.get? (EdgeKey.new a b)).isSome := fun h => hmem (contains_iff.1 h)
    unfold ensureEdge
    rw [dif_neg hn]
    simp [hmem]

/-- `ensure_edge` inserts a fresh record exactly where there is none. -/
theorem get?_ensureEdge (zero : F16) (g : MarkovGraph F16) (a b : ExeId) (now : UInt64)
    (state : MarkovState) (key : EdgeKey) :
    (g.ensureEdge zero a b now state).1.get? key =
      if key = EdgeKey.new a b ∧ EdgeKey.new a b ∉ g.keys then some (freshEdge zero now state)
      else g.get? key := by
  by_cases hmem : EdgeKey.new a b ∈ g.keys
  · rw [ensureEdge_of_mem zero now state hmem, if_neg (fun h => h.2 hmem)]
  · have hn : ¬ (g.keyToIndex.get? (EdgeKey.new a b)).isSome := fun h => hmem (contains_iff.1 h)
    -- the record is pushed at the end of every vector
    have hedge : ∀ i, (g.ensureEdge zero a b now state).1.edgeAt? i =
        if i = g.keys.length then some (freshEdge zero now state) else g.edgeAt? i := by
      intro i
      unfold ensureEdge
      rw [dif_neg hn]
      simp only [edgeAt?, List.getElem?_append, g.states_length, g.lastChangeTimes_length,
        g.stateLastLeft_length, g.timeToLeave_length, g.transitionProb_length,
        g.bothRunningTimes_length]
      rcases lt_trichotomy i g.keys.length with hi | hi | hi
      · simp [hi, Nat.ne_of_lt hi]
      · simp [hi, freshEdge]
      · have h1 : ¬ i < g.keys.length := by omega
        have h2 : i - g.keys.length ≠ 0 := by omega
        have h3 : g.states[i]? = none := List.getElem?_eq_none (by rw [g.states_length]; omega)
        simp [h1, h2, h3, Nat.ne_of_gt hi]
    have hindex : (g.ensureEdge zero a b now state).1.keyToIndex =
        g.keyToIndex.insert (EdgeKey.new a b) g.keys.length := by
      unfold ensureEdge
      rw [dif_neg hn]
    rw [get?, hindex, FxHashMap.get?_insert]
    by_cases hk : key = EdgeKey.new a b
    · rw [if_pos hk, if_pos ⟨hk, hmem⟩, Option.bind_some, hedge, if_pos rfl]
    · rw [if_neg hk, if_neg (fun h => hk h.1), get?]
      cases hi : g.keyToIndex.get? key with
      | none => rfl
      | some i =>
          have hlt := (List.getElem?_eq_some_iff.1 ((g.index_spec key i).1 hi)).1
          rw [Option.bind_some, Option.bind_some, hedge, if_neg (Nat.ne_of_lt hlt)]

theorem mem_keys_ensureEdge (zero : F16) (g : MarkovGraph F16) (a b : ExeId) (now : UInt64)
    (state : MarkovState) (key : EdgeKey) :
    key ∈ (g.ensureEdge zero a b now state).1.keys ↔ key = EdgeKey.new a b ∨ key ∈ g.keys := by
  rw [mem_keys_iff, mem_keys_iff]
  simp only [get?_ensureEdge]
  by_cases hk : key = EdgeKey.new a b
  · subst hk
    by_cases hmem : EdgeKey.new a b ∈ g.keys
    · simp [hmem, mem_keys_iff.1 hmem]
    · simp [hmem]
  · simp [hk]

/-! ## Writing through views -/

/-- Replace the record at every position: the writes of a loop over `iter_mut`. -/
def iterMut (g : MarkovGraph F16) (f : EdgeKey → Edge F16 → Edge F16) : MarkovGraph F16 :=
  let edges := g.iter.map fun (key, e) => f key e
  have hlen : edges.length = g.keys.length := by
    rw [List.length_map, ← g.iter_map_fst, List.length_map]
  { keys := g.keys
    states := edges.map (·.state)
    lastChangeTimes := edges.map (·.lastChangeTime)
    stateLastLeft := edges.map (·.stateLastLeft)
    timeToLeave := edges.map (·.timeToLeave)
    transitionProb := edges.map (·.transitionProb)
    bothRunningTimes := edges.map (·.bothRunningTime)
    keyToIndex := g.keyToIndex
    states_length := by rw [List.length_map, hlen]
    lastChangeTimes_length := by rw [List.length_map, hlen]
    stateLastLeft_length := by rw [List.length_map, hlen]
    timeToLeave_length := by rw [List.length_map, hlen]
    transitionProb_length := by rw [List.length_map, hlen]
    bothRunningTimes_length := by rw [List.length_map, hlen]
    index_spec := g.index_spec }

@[simp] theorem keys_iterMut (g : MarkovGraph F16) (f : EdgeKey → Edge F16 → Edge F16) :
    (g.iterMut f).keys = g.keys :=
  rfl

/-- Position `i` of `iter` is the key and the view of position `i`. -/
theorem iter_getElem? (g : MarkovGraph F16) (i : ℕ) :
    g.iter[i]? = (g.keys[i]?).bind fun key => (g.edgeAt? i).map fun e => (key, e) := by
  cases hi : g.iter[i]? with
  | none =>
      have hlen : g.iter.length = g.keys.length := by rw [← g.iter_map_fst, List.length_map]
      have hge : g.keys.length ≤ i := by
        rw [List.getElem?_eq_none_iff] at hi
        omega
      rw [List.getElem?_eq_none hge, Option.bind_none]
  | some row =>
      obtain ⟨key, e⟩ := row
      have hkey : g.keys[i]? = some key := by
        rw [← g.iter_map_fst, List.getElem?_map, hi]
        rfl
      have hget : g.get? key = some e := mem_iter.1 (List.mem_of_getElem? hi)
      rw [get?_of_key hkey] at hget
      simp [hkey, hget]

/-- Writing through `iter_mut` rewrites every entry of the map. -/
theorem get?_iterMut (g : MarkovGraph F16) (f : EdgeKey → Edge F16 → Edge F16) (key : EdgeKey) :
    (g.iterMut f).get? key = (g.get? key).map (f key) := by
  have hedge : ∀ i, (g.iterMut f).edgeAt? i = (g.iter[i]?).map fun row => f row.1 row.2 := by
    intro i
    simp only [edgeAt?, iterMut, List.getElem?_map]
    cases g.iter[i]? <;> rfl
  show (g.keyToIndex.get? key).bind (g.iterMut f).edgeAt? = _
  rw [get?]
  cases hi : g.keyToIndex.get? key with
  | none => rfl
  | some i =>
      have hkey := (g.index_spec key i).1 hi
      rw [Option.bind_some, Option.bind_some, hedge, iter_getElem?, hkey]
      cases g.edgeAt? i <;> rfl

/-- A vector that holds a component of every position is the list of that component. -/
theorem map_iter {β : Type} {g : MarkovGraph F16} (component : Edge F16 → β) {column : List β}
    (hlen : column.length = g.keys.length)
    (h : ∀ i e, g.edgeAt? i = some e → column[i]? = some (component e)) :
    g.iter.map (fun row => component row.2) = column := by
  refine List.ext_getElem? fun i => ?_
  rw [List.getElem?_map, iter_getElem?]
  cases he : g.edgeAt? i with
  | some e =>
      have hlt := edgeAt?_isSome.1 (Option.isSome_of_mem he)
      rw [h i e he, List.getElem?_eq_getElem hlt]
      rfl
  | none =>
      have hge : g.keys.length ≤ i := by
        rw [← not_lt, ← edgeAt?_isSome, he]
        simp
      rw [List.getElem?_eq_none hge, List.getElem?_eq_none (hlen ▸ hge)]
      rfl

/-- Writing back what is there changes nothing. -/
theorem iterMut_eq_self {g : MarkovGraph F16} {f : EdgeKey → Edge F16 → Edge F16}
    (h : ∀ key e, g.get? key = some e → f key e = e) : g.iterMut f = g := by
  have hrows : g.iter.map (fun row => f row.1 row.2) = g.iter.map fun row => row.2 :=
    List.map_congr_left fun row hrow => h row.1 row.2 (mem_iter.1 hrow)
  have hcolumn : ∀ i e, g.edgeAt? i = some e →
      g.states[i]? = some e.state ∧ g.lastChangeTimes[i]? = some e.lastChangeTime ∧
      g.stateLastLeft[i]? = some e.stateLastLeft ∧ g.timeToLeave[i]? = some e.timeToLeave ∧
      g.transitionProb[i]? = some e.transitionProb ∧
      g.bothRunningTimes[i]? = some e.bothRunningTime := by
    intro i e he
    simp only [edgeAt?, Option.bind_eq_bind, Option.bind_eq_some_iff, Option.pure_def,
      Option.some.injEq] at he
    obtain ⟨_, h1, _, h2, _, h3, _, h4, _, h5, _, h6, rfl⟩ := he
    exact ⟨h1, h2, h3, h4, h5, h6⟩
  have h1 := map_iter (·.state) g.states_length fun i e he => (hcolumn i e he).1
  have h2 := map_iter (·.lastChangeTime) g.lastChangeTimes_length fun i e he =>
    (hcolumn i e he).2.1
  have h3 := map_iter (·.stateLastLeft) g.stateLastLeft_length fun i e he =>
    (hcolumn i e he).2.2.1
  have h4 := map_iter (·.timeToLeave) g.timeToLeave_length fun i e he =>
    (hcolumn i e he).2.2.2.1
  have h5 := map_iter (·.transitionProb) g.transitionProb_length fun i e he =>
    (hcolumn i e he).2.2.2.2.1
  have h6 := map_iter (·.bothRunningTime) g.bothRunningTimes_length fun i e he =>
    (hcolumn i e he).2.2.2.2.2
  unfold iterMut
  simp only [hrows, List.map_map, Function.comp_def, h1, h2, h3, h4, h5, h6]

/-- Write through the view `get_mut` returns, if there is one. -/
def modify (g : MarkovGraph F16) (key : EdgeKey) (f : Edge F16 → Edge F16) : MarkovGraph F16 :=
  match g.keyToIndex.get? key with
  | none => g
  | some i =>
    match g.edgeAt? i with
    | none => g
    | some e =>
      { keys := g.keys
        states := g.states.set i (f e).state
        lastChangeTimes := g.lastChangeTimes.set i (f e).lastChangeTime
        stateLastLeft := g.stateLastLeft.set i (f e).stateLastLeft
        timeToLeave := g.timeToLeave.set i (f e).timeToLeave
        transitionProb := g.transitionProb.set i (f e).transitionProb
        bothRunningTimes := g.bothRunningTimes.set i (f e).bothRunningTime
        keyToIndex := g.keyToIndex
        states_length := by rw [List.length_set, g.states_length]
        lastChangeTimes_length := by rw [List.length_set, g.lastChangeTimes_length]
        stateLastLeft_length := by rw [List.length_set, g.stateLastLeft_length]
        timeToLeave_length := by rw [List.length_set, g.timeToLeave_length]
        transitionProb_length := by rw [List.length_set, g.transitionProb_length]
        bothRunningTimes_length := by rw [List.length_set, g.bothRunningTimes_length]
        index_spec := g.index_spec }

@[simp] theorem keys_modify (g : MarkovGraph F16) (key : EdgeKey) (f : Edge F16 → Edge F16) :
    (g.modify key f).keys = g.keys := by
  unfold modify
  split
  · rfl
  · split <;> rfl

/-- Writing through `get_mut` rewrites the one entry. -/
theorem get?_modify (g : MarkovGraph F16) (key : EdgeKey) (f : Edge F16 → Edge F16)
    (k : EdgeKey) :
    (g.modify key f).get? k = if k = key then (g.get? key).map f else g.get? k := by
  unfold modify
  split
  · next hnone =>
      by_cases hk : k = key
      · rw [if_pos hk, hk, get?, hnone]
        rfl
      · rw [if_neg hk]
  · next i hi =>
      have hkey := (g.index_spec key i).1 hi
      have hlt := (List.getElem?_eq_some_iff.1 hkey).1
      split
      · next hnone =>
          rw [← Option.not_isSome_iff_eq_none, edgeAt?_isSome] at hnone
          exact absurd hlt hnone
      · next e he =>
          have hgetkey : g.get? key = some e := (get?_of_key hkey).trans he
          simp only [get?] at hgetkey ⊢
          cases hj : g.keyToIndex.get? k with
          | none =>
              have hk : k ≠ key := by
                rintro rfl
                exact absurd (hj.symm.trans hi) (by simp)
              rw [if_neg hk]
              rfl
          | some j =>
              have hkeyj := (g.index_spec k j).1 hj
              rw [Option.bind_some, Option.bind_some]
              -- keys do not repeat, so another record has another key
              by_cases hij : i = j
              · subst hij
                have hk : k = key := Option.some.inj (hkeyj.symm.trans hkey)
                rw [if_pos hk, hgetkey]
                simp [edgeAt?, hlt, g.states_length, g.lastChangeTimes_length,
                  g.stateLastLeft_length, g.timeToLeave_length, g.transitionProb_length,
                  g.bothRunningTimes_length]
              · have hk : k ≠ key := by
                  rintro rfl
                  exact hij (key_injective hkey hkeyj)
                rw [if_neg hk]
                simp only [edgeAt?, List.getElem?_set_ne hij]

/-! ## Removing edges -/

/-- Remove position `i` from the seven vectors by moving the last position into its place, and
    repair the index. -/
def swapRemove (g : MarkovGraph F16) (i : ℕ) (h : i < g.keys.length) : MarkovGraph F16 :=
  let last := g.keys.length - 1
  let keyToIndex :=
    if i ≠ last then
      match g.keys[last]? with
      | some movedKey => g.keyToIndex.insert movedKey i
      | none => g.keyToIndex
    else g.keyToIndex
  { keys := vecSwapRemove g.keys i
    states := vecSwapRemove g.states i
    lastChangeTimes := vecSwapRemove g.lastChangeTimes i
    stateLastLeft := vecSwapRemove g.stateLastLeft i
    timeToLeave := vecSwapRemove g.timeToLeave i
    transitionProb := vecSwapRemove g.transitionProb i
    bothRunningTimes := vecSwapRemove g.bothRunningTimes i
    keyToIndex := keyToIndex.remove (g.keys.get ⟨i, h⟩)
    states_length := by simp [g.states_length]
    lastChangeTimes_length := by simp [g.lastChangeTimes_length]
    stateLastLeft_length := by simp [g.stateLastLeft_length]
    timeToLeave_length := by simp [g.timeToLeave_length]
    transitionProb_length := by simp [g.transitionProb_length]
    bothRunningTimes_length := by simp [g.bothRunningTimes_length]
    index_spec := by
      intro key j
      have hremoved : g.keys[i]? = some (g.keys.get ⟨i, h⟩) := by
        simp
      have hlast : g.keys[last]? = some (g.keys[g.keys.length - 1]) :=
        List.getElem?_eq_getElem (by omega)
      rw [FxHashMap.get?_remove, getElem?_vecSwapRemove _ _ _ h]
      by_cases hkey : key = g.keys.get ⟨i, h⟩
      · rw [if_pos hkey]
        refine iff_of_false (by simp) fun hj => ?_
        split at hj
        · split at hj
          · have := key_injective (hj.trans (congrArg some hkey)) hremoved
            omega
          · next hne =>
              exact hne (key_injective (hj.trans (congrArg some hkey)) hremoved)
        · exact absurd hj (by simp)
      · rw [if_neg hkey]
        have hne : g.keys[i]? ≠ some key := by
          rw [hremoved]
          exact fun hh => hkey (Option.some.inj hh).symm
        have hrange : ∀ j, g.keys[j]? = some key → j < g.keys.length := fun j hj =>
          (List.getElem?_eq_some_iff.1 hj).1
        simp only [keyToIndex, hlast]
        by_cases hil : i = last
        · rw [if_neg (by simpa using hil), g.index_spec]
          constructor
          · intro hj
            have hlt := hrange j hj
            have hji : j ≠ i := by
              rintro rfl
              exact hne hj
            rw [if_pos (by omega), if_neg hji]
            exact hj
          · intro hj
            split at hj
            · rwa [if_neg (by omega)] at hj
            · exact absurd hj (by simp)
        · rw [if_pos hil, FxHashMap.get?_insert]
          by_cases hmoved : key = g.keys[g.keys.length - 1]
          · rw [if_pos hmoved, Option.some.injEq]
            have hkl : g.keys[g.keys.length - 1]? = some key := hlast.trans (congrArg some hmoved.symm)
            constructor
            · rintro rfl
              rw [if_pos (by omega), if_pos rfl]
              exact hkl
            · intro hj
              split at hj
              · split at hj
                · next hji => exact hji.symm
                · have := key_injective hj hkl
                  omega
              · exact absurd hj (by simp)
          · have hkl : g.keys[g.keys.length - 1]? ≠ some key := by
              rw [show g.keys[g.keys.length - 1]? = _ from hlast]
              exact fun hh => hmoved (Option.some.inj hh).symm
            rw [if_neg hmoved, g.index_spec]
            constructor
            · intro hj
              have hlt := hrange j hj
              have hji : j ≠ i := by
                rintro rfl
                exact hne hj
              have hjl : j ≠ g.keys.length - 1 := by
                rintro rfl
                exact hkl hj
              rw [if_pos (by omega), if_neg hji]
              exact hj
            · intro hj
              split at hj
              · split at hj
                · exact absurd hj hkl
                · exact hj
              · exact absurd hj (by simp) }

theorem edgeAt?_swapRemove (g : MarkovGraph F16) (i : ℕ) (h : i < g.keys.length) (j : ℕ) :
    (g.swapRemove i h).edgeAt? j =
      if j < g.keys.length - 1 then
        (if j = i then g.edgeAt? (g.keys.length - 1) else g.edgeAt? j)
      else none := by
  have h1 := getElem?_vecSwapRemove g.states i j (g.states_length.symm ▸ h)
  have h2 := getElem?_vecSwapRemove g.lastChangeTimes i j (g.lastChangeTimes_length.symm ▸ h)
  have h3 := getElem?_vecSwapRemove g.stateLastLeft i j (g.stateLastLeft_length.symm ▸ h)
  have h4 := getElem?_vecSwapRemove g.timeToLeave i j (g.timeToLeave_length.symm ▸ h)
  have h5 := getElem?_vecSwapRemove g.transitionProb i j (g.transitionProb_length.symm ▸ h)
  have h6 := getElem?_vecSwapRemove g.bothRunningTimes i j (g.bothRunningTimes_length.symm ▸ h)
  rw [g.states_length] at h1
  rw [g.lastChangeTimes_length] at h2
  rw [g.stateLastLeft_length] at h3
  rw [g.timeToLeave_length] at h4
  rw [g.transitionProb_length] at h5
  rw [g.bothRunningTimes_length] at h6
  simp only [edgeAt?, swapRemove, h1, h2, h3, h4, h5, h6]
  by_cases hj : j < g.keys.length - 1
  · by_cases hji : j = i
    · subst hji
      simp only [if_pos hj, if_true]
    · simp only [if_pos hj, if_neg hji]
  · simp [hj]

/-- `swap_remove` deletes the entry of its position from the map and nothing else. -/
theorem get?_swapRemove (g : MarkovGraph F16) (i : ℕ) (h : i < g.keys.length) (key : EdgeKey) :
    (g.swapRemove i h).get? key = if key = g.keys.get ⟨i, h⟩ then none else g.get? key := by
  have hremoved : g.keys[i]? = some (g.keys.get ⟨i, h⟩) := by simp
  have hkeys : ∀ j, (g.swapRemove i h).keys[j]? =
      if j < g.keys.length - 1 then
        (if j = i then g.keys[g.keys.length - 1]? else g.keys[j]?)
      else none := fun j => getElem?_vecSwapRemove g.keys i j h
  refine Option.ext fun e => ?_
  rw [get?_eq_some]
  simp only [hkeys, edgeAt?_swapRemove]
  by_cases hkey : key = g.keys.get ⟨i, h⟩
  · rw [if_pos hkey]
    refine iff_of_false ?_ (by simp)
    -- the key was unique, so it is gone with its record
    rintro ⟨j, hj, -⟩
    split at hj
    · split at hj
      · have := key_injective (hj.trans (congrArg some hkey)) hremoved
        omega
      · next hne => exact hne (key_injective (hj.trans (congrArg some hkey)) hremoved)
    · exact absurd hj (by simp)
  · rw [if_neg hkey, get?_eq_some]
    constructor
    · rintro ⟨j, hj, he⟩
      split at hj
      · next hlt =>
          rw [if_pos hlt] at he
          split at hj
          · next hji =>
              rw [if_pos hji] at he
              exact ⟨_, hj, he⟩
          · next hji =>
              rw [if_neg hji] at he
              exact ⟨_, hj, he⟩
      · exact absurd hj (by simp)
    · rintro ⟨j, hj, he⟩
      have hlt := (List.getElem?_eq_some_iff.1 hj).1
      have hji : j ≠ i := by
        rintro rfl
        exact hkey (Option.some.inj (hj.symm.trans hremoved))
      -- the last record moves to the place removed, the others stay
      by_cases hjl : j = g.keys.length - 1
      · subst hjl
        exact ⟨i, by rw [if_pos (by omega), if_pos rfl]; exact hj,
          by rw [if_pos (by omega), if_pos rfl]; exact he⟩
      · exact ⟨j, by rw [if_pos (by omega), if_neg hji]; exact hj,
          by rw [if_pos (by omega), if_neg hji]; exact he⟩

/-- Whether both endpoints are active. -/
def isActive (active : FxHashSet ExeId) (key : EdgeKey) : Bool :=
  decide (key.a ∈ active) && decide (key.b ∈ active)

theorem isActive_iff {active : FxHashSet ExeId} {key : EdgeKey} :
    isActive active key = true ↔ key.a ∈ active ∧ key.b ∈ active := by
  simp [isActive]

theorem isActive_new {active : FxHashSet ExeId} {a b : ExeId} :
    isActive active (EdgeKey.new a b) = true ↔ a ∈ active ∧ b ∈ active :=
  isActive_iff.trans (EdgeKey.new_both (· ∈ active) a b)

/-- The pruning loop from position `i`. A round either advances `i` or drops the last position, so
    `fuel` rounds suffice for `fuel` positions from `i` on. -/
def pruneLoop (active : FxHashSet ExeId) : ℕ → ℕ → MarkovGraph F16 → MarkovGraph F16
  | 0, _, g => g
  | fuel + 1, i, g =>
    if h : i < g.keys.length then
      if isActive active (g.keys.get ⟨i, h⟩) then pruneLoop active fuel (i + 1) g
      else pruneLoop active fuel i (g.swapRemove i h)
    else g

def pruneInactive (g : MarkovGraph F16) (active : FxHashSet ExeId) : MarkovGraph F16 :=
  pruneLoop active g.keys.length 0 g

/-- The loop keeps the active entries, provided the positions before `i` are active. -/
theorem get?_pruneLoop (active : FxHashSet ExeId) (fuel i : ℕ) (g : MarkovGraph F16)
    (hfuel : g.keys.length ≤ i + fuel)
    (hbefore : ∀ j key, j < i → g.keys[j]? = some key → isActive active key = true)
    (key : EdgeKey) :
    (pruneLoop active fuel i g).get? key = (g.get? key).filter fun _ => isActive active key := by
  -- past the last record, every edge was found active
  have hdone : ∀ (g : MarkovGraph F16) (i : ℕ), g.keys.length ≤ i →
      (∀ j key, j < i → g.keys[j]? = some key → isActive active key = true) →
      g.get? key = (g.get? key).filter fun _ => isActive active key := by
    intro g i hlen hb
    cases hget : g.get? key with
    | none => rfl
    | some e =>
        obtain ⟨j, hj, -⟩ := get?_eq_some.1 hget
        have hlt := (List.getElem?_eq_some_iff.1 hj).1
        rw [Option.filter_some, if_pos (hb j key (by omega) hj)]
  induction fuel generalizing i g with
  | zero => exact hdone g i (by omega) hbefore
  | succ fuel ih =>
      rw [pruneLoop]
      split
      · next h =>
          have hi : g.keys[i]? = some (g.keys.get ⟨i, h⟩) := by simp
          split
          · next hact =>
              refine ih (i + 1) g (by omega) fun j k hj hk => ?_
              rcases Nat.lt_succ_iff_lt_or_eq.1 hj with hlt | rfl
              · exact hbefore j k hlt hk
              · rw [hi] at hk
                obtain rfl := Option.some.inj hk
                exact hact
          · next hact =>
              -- the last record takes the place of the one removed, and is looked at next
              have hlen : (g.swapRemove i h).keys.length = g.keys.length - 1 :=
                length_vecSwapRemove g.keys i
              rw [ih i (g.swapRemove i h) (by omega) ?_, get?_swapRemove]
              · by_cases hkey : key = g.keys.get ⟨i, h⟩
                · rw [if_pos hkey, hkey]
                  cases g.get? (g.keys.get ⟨i, h⟩) with
                  | none => rfl
                  | some e =>
                      rw [Option.filter_some, if_neg hact]
                      rfl
                · rw [if_neg hkey]
              · intro j k hj hk
                rw [show (g.swapRemove i h).keys[j]? = _ from
                  getElem?_vecSwapRemove g.keys i j h] at hk
                split at hk
                · rw [if_neg (by omega)] at hk
                  exact hbefore j k hj hk
                · exact absurd hk (by simp)
      · next h => exact hdone g i (not_lt.1 h) hbefore

/-- The loop drops nothing when every edge joins active executables. -/
theorem pruneInactive_eq_self {g : MarkovGraph F16} {active : FxHashSet ExeId}
    (h : ∀ key ∈ g.keys, isActive active key = true) : g.pruneInactive active = g := by
  have hloop : ∀ fuel i, pruneLoop active fuel i g = g := by
    intro fuel
    induction fuel with
    | zero => intro i; rfl
    | succ fuel ih =>
        intro i
        rw [pruneLoop]
        split
        · next hi => rw [if_pos (h _ (List.get_mem _ _)), ih]
        · rfl
  exact hloop _ 0

/-- `prune_inactive` keeps exactly the entries with both endpoints active, unchanged. -/
theorem get?_pruneInactive (g : MarkovGraph F16) (active : FxHashSet ExeId) (key : EdgeKey) :
    (g.pruneInactive active).get? key = (g.get? key).filter fun _ => isActive active key :=
  get?_pruneLoop active _ 0 g (by omega) (by omega) key

end MarkovGraph

end PreloadNg
