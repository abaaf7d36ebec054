import PreloadNg.Stores.ActiveSet
import PreloadNg.Stores.Entities
import PreloadNg.Stores.ExeMapIndex
import PreloadNg.Stores.MarkovGraph

set_option autoImplicit false

/-! # Stores

The five containers and the two clocks. Each container carries its own invariant; that the ids one
container holds are live in the others is `Stores.WF`. -/

namespace PreloadNg

structure Stores (F16 : Type) where
  exes : ExeStore
  maps : MapStore
  exeMaps : ExeMapIndex
  markov : MarkovGraph F16
  active : ActiveSet
  modelTime : UInt64
  lastAccountingTime : UInt64
deriving DecidableEq

namespace Stores

variable {F16 : Type}

/-- `Stores::default()`. -/
instance : EmptyCollection (Stores F16) where
  emptyCollection :=
    { exes := ∅
      maps := ∅
      exeMaps := ∅
      markov := ∅
      active := ∅
      modelTime := 0
      lastAccountingTime := 0 }

def ensureExe (s : Stores F16) (key : ExeKey) : Stores F16 × ExeId :=
  ({ s with exes := (s.exes.ensure key).1 }, (s.exes.ensure key).2)

/-- The id of the segment's key, and whether the segment was inserted. A segment that is already
    stored stays as it is. -/
def ensureMapWithFlag (s : Stores F16) (segment : MapSegment) : Stores F16 × MapId × Bool :=
  ({ s with maps := (s.maps.ensure segment).1 }, (s.maps.ensure segment).2)

/-- The boolean of `ensure_map_with_flag` dropped. -/
def ensureMap (s : Stores F16) (segment : MapSegment) : Stores F16 × MapId :=
  ((s.ensureMapWithFlag segment).1, (s.ensureMapWithFlag segment).2.1)

def attachMap (s : Stores F16) (exeId : ExeId) (mapId : MapId) : Stores F16 :=
  { s with exeMaps := s.exeMaps.attach exeId mapId }

def ensureMarkovEdge (zero : F16) (s : Stores F16) (a b : ExeId) (now : UInt64)
    (state : MarkovState) : Stores F16 × Bool :=
  ({ s with markov := (s.markov.ensureEdge zero a b now state).1 },
   (s.markov.ensureEdge zero a b now state).2)

def removeMapByKey (s : Stores F16) (key : MapKey) : Stores F16 :=
  match s.maps.idByKey key with
  | some id => { s with exeMaps := s.exeMaps.detachMap id, maps := (s.maps.remove id).1 }
  | none => s

/-- The executable of a path. -/
def exeAt (s : Stores F16) (path : Path) : Option Exe := s.exes.lookup ⟨path⟩

/-- `stores.exes.get(id).map(|e| e.running).unwrap_or(false)`. -/
def isRunning (s : Stores F16) (id : ExeId) : Bool :=
  ((s.exes.get? id).map Exe.running).getD false

/-- `stores.exes.get(id).map(|e| e.total_running_time).unwrap_or(0)`. -/
def runningTime (s : Stores F16) (id : ExeId) : UInt64 :=
  ((s.exes.get? id).map Exe.totalRunningTime).getD 0

/-! ## Well-formedness across containers -/

def LiveExe (s : Stores F16) (id : ExeId) : Prop := ∃ e, s.exes.get? id = some e

def LiveMap (s : Stores F16) (id : MapId) : Prop := ∃ m, s.maps.get? id = some m

/-- Every id that a container holds is live, and no edge is a loop. -/
structure WF (s : Stores F16) : Prop where
  exe_live : ∀ e m, s.exeMaps.Rel e m → s.LiveExe e
  map_live : ∀ e m, s.exeMaps.Rel e m → s.LiveMap m
  edge_distinct : ∀ key ∈ s.markov.keys, key.a ≠ key.b
  edge_live : ∀ key ∈ s.markov.keys, s.LiveExe key.a ∧ s.LiveExe key.b
  active_live : ∀ e ∈ s.active.exes, s.LiveExe e

/-- The relation and the edges refer to stored executables. -/
structure Linked (s : Stores F16) : Prop where
  exe_live : ∀ e m, s.exeMaps.Rel e m → s.LiveExe e
  edge_live : ∀ key ∈ s.markov.keys, s.LiveExe key.a ∧ s.LiveExe key.b

theorem WF.linked {s : Stores F16} (h : s.WF) : s.Linked := ⟨h.exe_live, h.edge_live⟩

theorem wf_empty : (∅ : Stores F16).WF where
  exe_live := fun e m h => absurd h (ExeMapIndex.rel_empty e m)
  map_live := fun e m h => absurd h (ExeMapIndex.rel_empty e m)
  edge_distinct := fun _ h => absurd h List.not_mem_nil
  edge_live := fun _ h => absurd h List.not_mem_nil
  active_live := by
    intro e h
    obtain ⟨last, hlast⟩ := (ActiveSet.mem_exes _ e).1 h
    exact absurd hlast (by rw [show (∅ : Stores F16).active = ∅ from rfl]; simp)

theorem exeAt_eq_some {s : Stores F16} {path : Path} {e : Exe} :
    s.exeAt path = some e ↔ ∃ id, s.exes.get? id = some e ∧ e.key = ⟨path⟩ :=
  ExeStore.lookup_eq_some

@[simp] theorem exeAt_empty (path : Path) : (∅ : Stores F16).exeAt path = none := rfl

theorem isRunning_of_get? {s : Stores F16} {id : ExeId} {e : Exe} (h : s.exes.get? id = some e) :
    s.isRunning id = e.running := by
  simp [isRunning, h]

theorem isRunning_eq_true {s : Stores F16} {id : ExeId} :
    s.isRunning id = true ↔ ∃ e, s.exes.get? id = some e ∧ e.running = true := by
  unfold isRunning
  cases s.exes.get? id <;> simp

theorem runningTime_of_get? {s : Stores F16} {id : ExeId} {e : Exe}
    (h : s.exes.get? id = some e) : s.runningTime id = e.totalRunningTime := by
  simp [runningTime, h]

/-! ## Removing a map -/

/-- Removing a map leaves everything but the map and its pairs as it is. -/
theorem removeMapByKey_cases (s : Stores F16) (key : MapKey) :
    (s.maps.idByKey key = none ∧ s.removeMapByKey key = s) ∨
    ∃ id, s.maps.idByKey key = some id ∧
      s.removeMapByKey key =
        { s with exeMaps := s.exeMaps.detachMap id, maps := (s.maps.remove id).1 } := by
  unfold removeMapByKey
  cases h : s.maps.idByKey key with
  | none => exact Or.inl ⟨rfl, rfl⟩
  | some id => exact Or.inr ⟨id, rfl, rfl⟩

/-- The maps after a removal are the old ones with another key, under their old ids. -/
theorem get?_removeMapByKey (s : Stores F16) (key : MapKey) (id : MapId) (m : MapSegment) :
    (s.removeMapByKey key).maps.get? id = some m ↔ s.maps.get? id = some m ∧ m.key ≠ key := by
  rcases s.removeMapByKey_cases key with ⟨hnone, h⟩ | ⟨id', hid, h⟩
  · rw [h]
    refine ⟨fun hm => ⟨hm, ?_⟩, And.left⟩
    rintro rfl
    exact absurd (hnone.symm.trans (KeyedStore.idByKey_of_get? hm)) (by simp)
  · rw [h]
    show (s.maps.remove id').1.get? id = some m ↔ _
    obtain ⟨m', hm', hkey⟩ := KeyedStore.idByKey_eq_some.1 hid
    rw [KeyedStore.get?_remove]
    by_cases hi : id = id'
    · subst hi
      rw [if_pos rfl, hm']
      refine iff_of_false (by simp) ?_
      rintro ⟨hmm, hne⟩
      exact hne (Option.some.inj hmm ▸ hkey)
    · rw [if_neg hi]
      refine ⟨fun hm => ⟨hm, fun hk => hi ?_⟩, And.left⟩
      exact KeyedStore.id_unique hm hm' (hk.trans hkey.symm)

/-- The pairs of the removed map are gone. -/
theorem rel_removeMapByKey (s : Stores F16) (key : MapKey) (e : ExeId) (id : MapId) :
    (s.removeMapByKey key).exeMaps.Rel e id ↔
      s.exeMaps.Rel e id ∧ ∀ m, s.maps.get? id = some m → m.key ≠ key := by
  rcases s.removeMapByKey_cases key with ⟨hnone, h⟩ | ⟨id', hid, h⟩
  · rw [h]
    refine ⟨fun hrel => ⟨hrel, ?_⟩, And.left⟩
    rintro m hm rfl
    exact absurd (hnone.symm.trans (KeyedStore.idByKey_of_get? hm)) (by simp)
  · obtain ⟨m', hm', hkey⟩ := KeyedStore.idByKey_eq_some.1 hid
    rw [h]
    refine (s.exeMaps.rel_detachMap id' e id).trans (and_congr_right fun _ => ?_)
    constructor
    · intro hne m hm hk
      exact hne (KeyedStore.id_unique hm hm' (hk.trans hkey.symm))
    · rintro hkeys rfl
      exact hkeys m' hm' hkey

@[simp] theorem exes_removeMapByKey (s : Stores F16) (key : MapKey) :
    (s.removeMapByKey key).exes = s.exes := by
  unfold removeMapByKey
  split <;> rfl

@[simp] theorem markov_removeMapByKey (s : Stores F16) (key : MapKey) :
    (s.removeMapByKey key).markov = s.markov := by
  unfold removeMapByKey
  split <;> rfl

@[simp] theorem active_removeMapByKey (s : Stores F16) (key : MapKey) :
    (s.removeMapByKey key).active = s.active := by
  unfold removeMapByKey
  split <;> rfl

@[simp] theorem modelTime_removeMapByKey (s : Stores F16) (key : MapKey) :
    (s.removeMapByKey key).modelTime = s.modelTime := by
  unfold removeMapByKey
  split <;> rfl

@[simp] theorem lastAccountingTime_removeMapByKey (s : Stores F16) (key : MapKey) :
    (s.removeMapByKey key).lastAccountingTime = s.lastAccountingTime := by
  unfold removeMapByKey
  split <;> rfl

theorem wf_removeMapByKey {s : Stores F16} (h : s.WF) (key : MapKey) :
    (s.removeMapByKey key).WF := by
  rcases s.removeMapByKey_cases key with ⟨-, heq⟩ | ⟨id, hid, heq⟩
  · rw [heq]
    exact h
  · rw [heq]
    exact
      { exe_live := fun e m hr => h.exe_live e m ((ExeMapIndex.rel_detachMap _ _ _ _).1 hr).1
        map_live := by
          intro e m hr
          obtain ⟨hrel, hne⟩ := (ExeMapIndex.rel_detachMap _ _ _ _).1 hr
          obtain ⟨seg, hseg⟩ := h.map_live e m hrel
          exact ⟨seg, by rw [KeyedStore.get?_remove, if_neg hne]; exact hseg⟩
        edge_distinct := h.edge_distinct
        edge_live := h.edge_live
        active_live := h.active_live }

/-! ## Removing several maps -/

/-- Removing maps touches no other container than the maps and the relation. -/
structure SameButMaps (s t : Stores F16) : Prop where
  exes : t.exes = s.exes
  markov : t.markov = s.markov
  active : t.active = s.active
  modelTime : t.modelTime = s.modelTime
  lastAccountingTime : t.lastAccountingTime = s.lastAccountingTime

theorem sameButMaps_removeMaps (keys : List MapKey) (s : Stores F16) :
    s.SameButMaps (keys.foldl removeMapByKey s) := by
  induction keys generalizing s with
  | nil => exact ⟨rfl, rfl, rfl, rfl, rfl⟩
  | cons key rest ih =>
      obtain ⟨hexes, hmarkov, hactive, hmodel, hlast⟩ := ih (s.removeMapByKey key)
      exact ⟨by simpa using hexes, by simpa using hmarkov, by simpa using hactive,
        by simpa using hmodel, by simpa using hlast⟩

theorem get?_removeMaps (keys : List MapKey) (s : Stores F16) (id : MapId) (m : MapSegment) :
    (keys.foldl removeMapByKey s).maps.get? id = some m ↔
      s.maps.get? id = some m ∧ m.key ∉ keys := by
  induction keys generalizing s with
  | nil => simp
  | cons key rest ih =>
      rw [List.foldl_cons, ih, get?_removeMapByKey, List.mem_cons, not_or]
      tauto

theorem rel_removeMaps (keys : List MapKey) (s : Stores F16) (e : ExeId) (id : MapId) :
    (keys.foldl removeMapByKey s).exeMaps.Rel e id ↔
      s.exeMaps.Rel e id ∧ ∀ m, s.maps.get? id = some m → m.key ∉ keys := by
  induction keys generalizing s with
  | nil => simp
  | cons key rest ih =>
      rw [List.foldl_cons, ih, rel_removeMapByKey]
      simp only [get?_removeMapByKey, List.mem_cons, not_or, and_imp, forall_and, and_assoc]
      refine and_congr_right fun _ => and_congr_right fun hne => ?_
      exact forall_congr' fun m => forall_congr' fun hm => forall_prop_of_true (hne m hm)

theorem wf_removeMaps {s : Stores F16} (h : s.WF) (keys : List MapKey) :
    (keys.foldl removeMapByKey s).WF := by
  induction keys generalizing s with
  | nil => exact h
  | cons key rest ih => exact ih (wf_removeMapByKey h key)

end Stores

end PreloadNg
