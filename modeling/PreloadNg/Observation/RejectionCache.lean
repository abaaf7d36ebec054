import PreloadNg.Lib.Transition
import PreloadNg.Lib.TtlCache
import PreloadNg.Observation.Admission

set_option autoImplicit false

/-! # The rejection cache along a run of calls

`decide` remembers the reason of every rejection it computes and repeats it while the cache returns
it. A run is any sequence of calls and evictions at times that do not decrease. -/

namespace PreloadNg

namespace DefaultAdmissionPolicy

/-- The decision with the cache disabled. -/
def uncachedRule (p : DefaultAdmissionPolicy) (c : CandidateExe) : AdmissionDecision :=
  ({ p with cacheEnabled := false }.decide none c).1

theorem uncachedRule_eq (p : DefaultAdmissionPolicy) (c : CandidateExe) :
    p.uncachedRule c = (p.decideUncached c).1 := by
  simp only [uncachedRule, DefaultAdmissionPolicy.decide, decideUncached, allowExe]
  split_ifs <;> rfl

/-- A call repeats the reason that the cache returned, or it follows the rule: then a rejection is
    inserted and an acceptance invalidates the entry. -/
theorem decide_cases (p : DefaultAdmissionPolicy) (cached : Option RejectReason)
    (c : CandidateExe) :
    (∃ r, p.cacheEnabled = true ∧ cached = some r ∧ p.decide cached c = (.reject r, .keep)) ∨
      (∃ r, p.uncachedRule c = .reject r ∧ p.decide cached c = (.reject r, p.cacheReject r)) ∨
        ∃ k, p.uncachedRule c = .accept k ∧ p.decide cached c = (.accept k, p.cacheClear) := by
  rw [uncachedRule_eq]
  unfold DefaultAdmissionPolicy.decide
  split
  · next r henabled => exact Or.inl ⟨r, henabled, rfl, rfl⟩
  · right
    unfold decideUncached
    split_ifs <;> simp

end DefaultAdmissionPolicy

/-! ## Runs of calls -/

/-- An answered call. -/
structure PolicyCall where
  time : ℕ
  candidate : CandidateExe
  answer : AdmissionDecision

/-- The policy with its cache, and the calls answered so far. -/
structure CachedPolicy where
  cache : TtlCache Path RejectReason
  clock : ℕ
  calls : List PolicyCall

def CachedPolicy.start : CachedPolicy := ⟨.empty, 0, []⟩

inductive PolicyOp where
  | evict (path : Path)
  | call (time : ℕ) (candidate : CandidateExe) (cached : Option RejectReason)

/-- The effect of a call on the cache. -/
def CacheOp.run (op : CacheOp) (path : Path) (now : ℕ) (cache : TtlCache Path RejectReason) :
    TtlCache Path RejectReason :=
  match op with
  | .keep => cache
  | .insert reason => cache.insert path reason now
  | .invalidate => cache.remove path

section Runs

variable (p : DefaultAdmissionPolicy) (ttl : ℕ)

/-- A call of `decide` at `time`, for which the cache returns `cached`. -/
def CachedPolicy.ask (s : CachedPolicy) (time : ℕ) (candidate : CandidateExe)
    (cached : Option RejectReason) : CachedPolicy where
  cache := (p.decide cached candidate).2.run candidate.path time s.cache
  clock := time
  calls := s.calls ++ [⟨time, candidate, (p.decide cached candidate).1⟩]

def PolicyStep (s : CachedPolicy) (op : PolicyOp) (s' : CachedPolicy) : Prop :=
  match op with
  | .evict path => s' = { s with cache := s.cache.remove path }
  | .call time candidate cached =>
    s.clock ≤ time ∧ s.cache.MayReturn ttl time candidate.path cached ∧
      s' = s.ask p time candidate cached

/-- The rule rejected a candidate of `path` for `reason` at `time`, and no call on the path was
    answered by an acceptance since. -/
def RejectedAt (calls : List PolicyCall) (path : Path) (reason : RejectReason) (time : ℕ) : Prop :=
  ∃ pre call post, calls = pre ++ call :: post ∧ call.candidate.path = path ∧ call.time = time ∧
    p.uncachedRule call.candidate = .reject reason ∧
      ∀ later ∈ post, later.candidate.path = path → ∀ k, later.answer ≠ .accept k

/-- What an answer says after `history`: an acceptance is that of the rule, a rejection is that of
    the rule or was one less than the time to live ago. -/
def Justified (history : List PolicyCall) (call : PolicyCall) : Prop :=
  match call.answer with
  | .accept k => p.uncachedRule call.candidate = .accept k
  | .reject r => p.uncachedRule call.candidate = .reject r ∨
      ∃ time, RejectedAt p history call.candidate.path r time ∧ call.time < time + ttl
  | .defer => False

variable {p}

theorem RejectedAt.append {calls : List PolicyCall} {path : Path} {reason : RejectReason}
    {time : ℕ} (h : RejectedAt p calls path reason time) {call : PolicyCall}
    (hcall : call.candidate.path = path → ∀ k, call.answer ≠ .accept k) :
    RejectedAt p (calls ++ [call]) path reason time := by
  obtain ⟨pre, first, post, rfl, hpath, htime, hrule, hpost⟩ := h
  refine ⟨pre, first, post ++ [call], by simp, hpath, htime, hrule, fun later hlater => ?_⟩
  rcases List.mem_append.1 hlater with hlater | hlater
  · exact hpost later hlater
  · obtain rfl := List.mem_singleton.1 hlater
    exact hcall

theorem rejectedAt_last (calls : List PolicyCall) {call : PolicyCall} {reason : RejectReason}
    (h : p.uncachedRule call.candidate = .reject reason) :
    RejectedAt p (calls ++ [call]) call.candidate.path reason call.time :=
  ⟨calls, call, [], rfl, rfl, rfl, h, by simp⟩

variable (p)

/-- Every entry of the cache goes back to a rejection that no acceptance followed. -/
structure SoundEntries (s : CachedPolicy) : Prop where
  entry : ∀ path reason time, s.cache.entries path = some (reason, time) →
    RejectedAt p s.calls path reason time
  enabled : ∀ path, s.cache.entries path ≠ none → p.cacheEnabled = true

variable {p ttl}

theorem soundEntries_evict {s : CachedPolicy} (h : SoundEntries p s) (path : Path) :
    SoundEntries p { s with cache := s.cache.remove path } := by
  have hold : ∀ {q reason time}, (s.cache.remove path).entries q = some (reason, time) →
      s.cache.entries q = some (reason, time) := by
    intro q reason time hq
    rw [TtlCache.entries_remove] at hq
    split at hq
    · exact absurd hq (by simp)
    · exact hq
  constructor
  · exact fun q reason time hq => h.entry q reason time (hold hq)
  · intro q hq
    obtain ⟨⟨reason, time⟩, hsome⟩ := Option.ne_none_iff_exists'.1 hq
    exact h.enabled q (by rw [hold hsome]; simp)

/-- A rejection is noted, whether it is inserted or the cache is disabled. -/
theorem soundEntries_reject {s : CachedPolicy} (h : SoundEntries p s) (call : PolicyCall)
    {reason : RejectReason} (hrule : p.uncachedRule call.candidate = .reject reason)
    (hanswer : call.answer = .reject reason) :
    SoundEntries p
      { cache := (p.cacheReject reason).run call.candidate.path call.time s.cache
        clock := call.time
        calls := s.calls ++ [call] } := by
  have hkeep : ∀ q r t, s.cache.entries q = some (r, t) → RejectedAt p (s.calls ++ [call]) q r t :=
    fun q r t hq => (h.entry q r t hq).append fun _ k => by simp [hanswer]
  unfold DefaultAdmissionPolicy.cacheReject
  split
  · next henabled =>
      constructor
      · intro q r t hq
        simp only [CacheOp.run, TtlCache.entries_insert] at hq
        split at hq
        · next hpath =>
            obtain ⟨rfl, rfl⟩ := Prod.mk.inj (Option.some.inj hq)
            rw [hpath]
            exact rejectedAt_last s.calls hrule
        · exact hkeep q r t hq
      · exact fun _ _ => henabled
  · exact ⟨hkeep, h.enabled⟩

/-- An acceptance leaves no entry for the path. -/
theorem soundEntries_accept {s : CachedPolicy} (h : SoundEntries p s) (call : PolicyCall) :
    SoundEntries p
      { cache := p.cacheClear.run call.candidate.path call.time s.cache
        clock := call.time
        calls := s.calls ++ [call] } := by
  unfold DefaultAdmissionPolicy.cacheClear
  split
  · have hevict := soundEntries_evict h call.candidate.path
    constructor
    · intro q r t hq
      refine (hevict.entry q r t hq).append fun hpath => ?_
      simp only [CacheOp.run, TtlCache.entries_remove, hpath, if_true] at hq
      exact absurd hq (by simp)
    · exact hevict.enabled
  · next hdisabled =>
      -- with the cache disabled there is no entry at all
      have hnone : ∀ q, s.cache.entries q = none := fun q =>
        by_contra fun hq => hdisabled (h.enabled q hq)
      constructor
      · exact fun q r t hq => absurd hq (by simp [CacheOp.run, hnone])
      · exact h.enabled

theorem soundEntries_step {s s' : CachedPolicy} {op : PolicyOp} (h : SoundEntries p s)
    (hstep : PolicyStep p ttl s op s') : SoundEntries p s' := by
  cases op with
  | evict path =>
      obtain rfl : s' = _ := hstep
      exact soundEntries_evict h path
  | call time candidate cached =>
      obtain ⟨-, -, rfl⟩ := hstep
      unfold CachedPolicy.ask
      rcases p.decide_cases cached candidate with ⟨r, -, -, hdec⟩ | ⟨r, hrule, hdec⟩ | ⟨k, -, hdec⟩
      · rw [hdec]
        constructor
        · exact fun q r' t hq => (h.entry q r' t hq).append fun _ k => by simp
        · exact h.enabled
      · rw [hdec]
        exact soundEntries_reject h ⟨time, candidate, .reject r⟩ hrule rfl
      · rw [hdec]
        exact soundEntries_accept h ⟨time, candidate, .accept k⟩

theorem soundEntries_start : SoundEntries p .start where
  entry _ _ _ h := absurd h (by simp [CachedPolicy.start])
  enabled _ h := absurd rfl h

theorem soundEntries_of_reachable {s : CachedPolicy}
    (h : Reachable (PolicyStep p ttl) .start s) : SoundEntries p s :=
  h.invariant soundEntries_start fun _ _ _ => soundEntries_step

/-! ## What the answers say -/

/-- The answer of a step is justified by the calls before it. -/
theorem justified_call {s : CachedPolicy} (h : SoundEntries p s) {time : ℕ}
    {candidate : CandidateExe} {cached : Option RejectReason}
    (hcached : s.cache.MayReturn ttl time candidate.path cached) :
    Justified p ttl s.calls ⟨time, candidate, (p.decide cached candidate).1⟩ := by
  rcases p.decide_cases cached candidate with ⟨r, -, rfl, hdec⟩ | ⟨r, hrule, hdec⟩ | ⟨k, hrule, hdec⟩
  · obtain ⟨inserted, hentry, htime⟩ := hcached
    rw [hdec]
    exact Or.inr ⟨inserted, h.entry _ _ _ hentry, htime⟩
  · rw [hdec]
    exact Or.inl hrule
  · rw [hdec]
    exact hrule

theorem justified_step {s s' : CachedPolicy} {op : PolicyOp} (h : SoundEntries p s)
    (hcalls : ∀ pre call post, s.calls = pre ++ call :: post → Justified p ttl pre call)
    (hstep : PolicyStep p ttl s op s') :
    ∀ pre call post, s'.calls = pre ++ call :: post → Justified p ttl pre call := by
  cases op with
  | evict path =>
      obtain rfl : s' = _ := hstep
      exact hcalls
  | call time candidate cached =>
      obtain ⟨-, hcached, rfl⟩ := hstep
      intro pre call post heq
      rcases List.eq_nil_or_concat' post with rfl | ⟨post, last, rfl⟩
      · obtain ⟨rfl, hlast⟩ := List.append_inj' heq rfl
        obtain rfl := List.singleton_inj.1 hlast
        exact justified_call h hcached
      · rw [← List.cons_append, ← List.append_assoc] at heq
        exact hcalls pre call post (List.append_inj' heq rfl).1

/-- The invariant over a run. -/
theorem justified_of_reachable {s : CachedPolicy} (h : Reachable (PolicyStep p ttl) .start s) :
    ∀ pre call post, s.calls = pre ++ call :: post → Justified p ttl pre call :=
  h.invariant_of (fun _ => soundEntries_of_reachable)
    (fun pre call post hnil => by simp [CachedPolicy.start] at hnil)
    fun _ _ _ hsound hcalls => justified_step hsound hcalls

/-- Every answer of a run is justified: an acceptance is the rule's, a rejection is the rule's or
    repeats one of the rule less than the time to live ago. So where the rule accepts a path from
    `since` on, every call is accepted once the time to live has passed. -/
theorem rejection_cache_sound {s : CachedPolicy} (h : Reachable (PolicyStep p ttl) .start s) :
    (∀ pre call post, s.calls = pre ++ call :: post → Justified p ttl pre call) ∧
      ∀ path since,
        (∀ call ∈ s.calls, call.candidate.path = path → since ≤ call.time →
          ∃ k, p.uncachedRule call.candidate = .accept k) →
        ∀ call ∈ s.calls, call.candidate.path = path → since + ttl ≤ call.time →
          ∃ k, call.answer = .accept k := by
  have hjust := justified_of_reachable h
  refine ⟨hjust, fun path since hrule call hmem hpath htime => ?_⟩
  obtain ⟨pre, post, hsplit⟩ := List.append_of_mem hmem
  have hcall := hjust pre call post hsplit
  obtain ⟨k, hk⟩ := hrule call hmem hpath (by omega)
  unfold Justified at hcall
  cases hanswer : call.answer with
  | accept k => exact ⟨k, rfl⟩
  | «defer» => simp [hanswer] at hcall
  | reject r =>
      rw [hanswer] at hcall
      rcases hcall with hreject | ⟨time, ⟨pre', first, post', rfl, hfirst, rfl, hreject, -⟩, hfresh⟩
      · simp [hk] at hreject
      · -- the rejection that is repeated came before `since`
        have hmem' : first ∈ s.calls := by
          rw [hsplit]
          simp
        obtain ⟨k', hk'⟩ := hrule first hmem' (hfirst.trans hpath) (by omega)
        simp [hk'] at hreject

/-- A candidate of one program, with the given bytes mapped. -/
def toolWith (bytes : UInt64) : CandidateExe where
  path := Path.ofString "/usr/bin/tool"
  pid := 1
  maps := [MapSegment.new (Path.ofString "/lib/libtool.so") 0 bytes 0]
  totalSize := bytes
  rejectedMaps := []

/-- The default settings. -/
def withCache : DefaultAdmissionPolicy where
  minsize := 100000
  exeprefix := ["/"]
  mapprefix := ["/"]
  cacheEnabled := true

/-- A program that grows is refused from the cache at first and accepted in the end. -/
theorem rejection_cache_sound_tool :
    ∃ s : CachedPolicy, Reachable (PolicyStep withCache 300) .start s ∧
      s.calls.map PolicyCall.answer = [.reject .tooSmall, .reject .tooSmall, .accept .full] ∧
        ∀ pre call post, s.calls = pre ++ call :: post → Justified withCache 300 pre call := by
  have hsmall : withCache.decide none (toolWith 60000) =
      (.reject .tooSmall, .insert .tooSmall) := by decide +kernel
  have hcached : withCache.decide (some .tooSmall) (toolWith 200000) =
      (.reject .tooSmall, .keep) := rfl
  have hlarge : withCache.decide none (toolWith 200000) = (.accept .full, .invalidate) := by
    decide +kernel
  let s₁ := CachedPolicy.start.ask withCache 0 (toolWith 60000) none
  let s₂ := s₁.ask withCache 100 (toolWith 200000) (some .tooSmall)
  let s₃ := s₂.ask withCache 300 (toolWith 200000) none
  have hentry : s₁.cache.entries (toolWith 200000).path = some (.tooSmall, 0) := by
    simp only [s₁, CachedPolicy.ask, hsmall, CacheOp.run, TtlCache.entries_insert]
    rfl
  have hfirst : PolicyStep withCache 300 .start (.call 0 (toolWith 60000) none) s₁ :=
    ⟨Nat.le_refl 0, trivial, rfl⟩
  have hsecond : PolicyStep withCache 300 s₁ (.call 100 (toolWith 200000) (some .tooSmall)) s₂ :=
    ⟨Nat.zero_le 100, ⟨0, hentry, by decide⟩, rfl⟩
  have hthird : PolicyStep withCache 300 s₂ (.call 300 (toolWith 200000) none) s₃ :=
    ⟨by decide, trivial, rfl⟩
  have hreach : Reachable (PolicyStep withCache 300) .start s₃ :=
    ((Reachable.refl.tail hfirst).tail hsecond).tail hthird
  refine ⟨s₃, hreach, ?_, (rejection_cache_sound hreach).1⟩
  simp only [s₃, s₂, s₁, CachedPolicy.ask, hsmall, hcached, hlarge]
  rfl

end Runs

end PreloadNg
