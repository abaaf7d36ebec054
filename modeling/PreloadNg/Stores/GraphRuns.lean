import Mathlib.Data.Sym.Sym2
import PreloadNg.Stores.MarkovGraph

set_option autoImplicit false

/-! # The Markov graph as a map

A graph stands for a map from unordered pairs of executables to edges. Each call on the graph is the
corresponding change of that map, so any sequence of calls is. -/

namespace PreloadNg

namespace EdgeKey

/-- The pair a key stands for. -/
def pair (key : EdgeKey) : Sym2 ExeId := s(key.a, key.b)

/-- The key of a pair. -/
def ofPair : Sym2 ExeId → EdgeKey := Sym2.lift ⟨new, new_comm⟩

@[simp] theorem ofPair_mk (a b : ExeId) : ofPair s(a, b) = new a b := rfl

@[simp] theorem ofPair_pair (key : EdgeKey) : ofPair key.pair = key := new_a_b key

@[simp] theorem pair_new (a b : ExeId) : (new a b).pair = s(a, b) := by
  unfold pair
  rcases new_cases a b with ⟨h1, h2⟩ | ⟨h1, h2⟩
  · rw [h1, h2]
  · rw [h1, h2, Sym2.eq_swap]

theorem ofPair_eq_iff {z : Sym2 ExeId} {key : EdgeKey} : ofPair z = key ↔ z = key.pair := by
  induction z with
  | _ a b =>
      constructor
      · rintro rfl
        exact (pair_new a b).symm
      · intro h
        rw [h, ofPair_pair]

end EdgeKey

variable {F16 : Type}

/-- A map from unordered pairs of executables to edges. -/
abbrev EdgeMap (F16 : Type) : Type := Sym2 ExeId → Option (Edge F16)

/-- The map a graph stands for. -/
def MarkovGraph.toMap (g : MarkovGraph F16) : EdgeMap F16 := fun z => g.get? (EdgeKey.ofPair z)

/-- A call on the graph. Code that writes through a view replaces the record it sees. -/
inductive GraphOp (F16 : Type) where
  | ensureEdge (a b : ExeId) (now : UInt64) (state : MarkovState)
  | getMut (key : EdgeKey) (write : Edge F16 → Edge F16)
  | iterMut (write : EdgeKey → Edge F16 → Edge F16)
  | pruneInactive (active : FxHashSet ExeId)

namespace GraphOp

variable (zero : F16)

def exec (g : MarkovGraph F16) : GraphOp F16 → MarkovGraph F16
  | ensureEdge a b now state => (g.ensureEdge zero a b now state).1
  | getMut key write => g.modify key write
  | iterMut write => g.iterMut write
  | pruneInactive active => g.pruneInactive active

open scoped Classical in
/-- What the call does to the map. -/
noncomputable def onMap (m : EdgeMap F16) : GraphOp F16 → EdgeMap F16
  | ensureEdge a b now state => fun z =>
    if z = s(a, b) then some ((m z).getD (MarkovGraph.freshEdge zero now state)) else m z
  | getMut key write => fun z => if z = key.pair then (m z).map write else m z
  | iterMut write => fun z => (m z).map (write (EdgeKey.ofPair z))
  | pruneInactive active => fun z => if ∀ id ∈ z, id ∈ active then m z else none

theorem toMap_exec (g : MarkovGraph F16) (op : GraphOp F16) :
    (op.exec zero g).toMap = op.onMap zero g.toMap := by
  funext z
  cases op with
  | ensureEdge a b now state =>
      have hkey : EdgeKey.ofPair z = EdgeKey.new a b ↔ z = s(a, b) := by
        rw [EdgeKey.ofPair_eq_iff, EdgeKey.pair_new]
      simp only [exec, onMap, MarkovGraph.toMap, MarkovGraph.get?_ensureEdge, hkey]
      by_cases hz : z = s(a, b)
      · subst hz
        rw [EdgeKey.ofPair_mk, if_pos rfl]
        cases hget : g.get? (EdgeKey.new a b) with
        | none =>
            have hnew : EdgeKey.new a b ∉ g.keys := by
              intro hmem
              obtain ⟨e, he⟩ := MarkovGraph.mem_keys_iff.1 hmem
              exact absurd (hget.symm.trans he) (by simp)
            exact if_pos ⟨rfl, hnew⟩
        | some e => exact if_neg fun h => h.2 (MarkovGraph.mem_keys_iff.2 ⟨e, hget⟩)
      · rw [if_neg fun h => hz h.1, if_neg hz]
  | getMut key write =>
      simp only [exec, onMap, MarkovGraph.toMap, MarkovGraph.get?_modify, EdgeKey.ofPair_eq_iff]
      by_cases hz : z = key.pair
      · rw [if_pos hz, if_pos hz, hz, EdgeKey.ofPair_pair]
      · rw [if_neg hz, if_neg hz]
  | iterMut write => exact MarkovGraph.get?_iterMut g write _
  | pruneInactive active =>
      simp only [exec, onMap, MarkovGraph.toMap, MarkovGraph.get?_pruneInactive]
      induction z with
      | _ a b =>
          -- an edge stays when both of its programs are active
          have hactive : MarkovGraph.isActive active (EdgeKey.ofPair s(a, b)) = true ↔
              ∀ id ∈ s(a, b), id ∈ active := by
            rw [EdgeKey.ofPair_mk, MarkovGraph.isActive_new]
            simp
          by_cases hboth : ∀ id ∈ s(a, b), id ∈ active
          · rw [if_pos hboth, hactive.2 hboth]
            cases g.get? (EdgeKey.ofPair s(a, b)) <;> rfl
          · rw [if_neg hboth, Bool.eq_false_iff.2 (mt hactive.1 hboth)]
            cases g.get? (EdgeKey.ofPair s(a, b)) <;> rfl

/-- The map after any sequence of calls. -/
theorem toMap_execs (ops : List (GraphOp F16)) (g : MarkovGraph F16) :
    (ops.foldl (exec zero) g).toMap = ops.foldl (onMap zero) g.toMap :=
  (List.foldl_hom MarkovGraph.toMap fun g op => (toMap_exec zero g op).symm).symm

end GraphOp

/-- The vectors and the index of `g` store the map `m`. -/
structure MarkovGraph.Represents (g : MarkovGraph F16) (m : EdgeMap F16) : Prop where
  states_length : g.states.length = g.keys.length
  lastChangeTimes_length : g.lastChangeTimes.length = g.keys.length
  stateLastLeft_length : g.stateLastLeft.length = g.keys.length
  timeToLeave_length : g.timeToLeave.length = g.keys.length
  transitionProb_length : g.transitionProb.length = g.keys.length
  bothRunningTimes_length : g.bothRunningTimes.length = g.keys.length
  keys_nodup : g.keys.Nodup
  index : ∀ key i, g.keyToIndex.get? key = some i ↔ g.keys[i]? = some key
  /-- The entries of the map are the positions of the vectors. -/
  entries : ∀ z e, m z = some e ↔
    ∃ i, g.keys[i]? = some (EdgeKey.ofPair z) ∧ g.edgeAt? i = some e
  /-- `get_mut` and the iterators see the entry of the map. -/
  getMut : ∀ key, g.get? key = m key.pair
  iter : ∀ key e, (key, e) ∈ g.iter ↔ m key.pair = some e
  /-- `ensure_edge` reports whether it inserts. -/
  ensureEdge : ∀ zero a b now state,
    (g.ensureEdge zero a b now state).2 = true ↔ m s(a, b) = none

theorem MarkovGraph.represents_toMap (g : MarkovGraph F16) : g.Represents g.toMap where
  states_length := g.states_length
  lastChangeTimes_length := g.lastChangeTimes_length
  stateLastLeft_length := g.stateLastLeft_length
  timeToLeave_length := g.timeToLeave_length
  transitionProb_length := g.transitionProb_length
  bothRunningTimes_length := g.bothRunningTimes_length
  keys_nodup := g.keys_nodup
  index := g.index_spec
  entries _ _ := get?_eq_some
  getMut key := by rw [toMap, EdgeKey.ofPair_pair]
  iter key e := by rw [toMap, EdgeKey.ofPair_pair, mem_iter]
  ensureEdge zero a b now state := by
    rw [ensureEdge_flag, mem_keys_iff, ← Option.ne_none_iff_exists', not_not]
    rfl

/-- After any sequence of calls, the vectors store the map that the calls lead to. -/
theorem graph_implements_map (zero : F16) (ops : List (GraphOp F16)) :
    (ops.foldl (GraphOp.exec zero) ∅).Represents
      (ops.foldl (GraphOp.onMap zero) fun _ => none) := by
  have hmap : (ops.foldl (GraphOp.exec zero) ∅).toMap =
      ops.foldl (GraphOp.onMap zero) fun _ => none := GraphOp.toMap_execs zero ops ∅
  rw [← hmap]
  exact MarkovGraph.represents_toMap _

end PreloadNg
