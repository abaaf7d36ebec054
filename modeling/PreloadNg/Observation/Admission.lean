import PreloadNg.Lib.Machine
import PreloadNg.Observation.Event

set_option autoImplicit false

/-! # Admission policies

A policy says which paths are eligible and which candidates are admitted. The default policy keeps a
cache of rejections; `decide` takes the cached reason as an argument and returns what it does to the
cache, so that nothing is assumed about retention. -/

namespace PreloadNg

inductive Completeness where
  | full
  | partly
deriving DecidableEq

inductive RejectReason where
  | tooSmall
  | exePrefixDenied
  | mapPrefixDenied
  | missingMaps
deriving DecidableEq

inductive AdmissionDecision where
  | accept (completeness : Completeness)
  | reject (reason : RejectReason)
  | defer
deriving DecidableEq

structure AdmissionPolicy where
  allowExe : Path → Bool
  allowMap : Path → Bool
  decide : CandidateExe → AdmissionDecision

/-- The policy that admits every candidate with every map. -/
def AdmissionPolicy.permissive : AdmissionPolicy where
  allowExe _ := true
  allowMap _ := true
  decide _ := .accept .full

/-! ## The default policy -/

/-- What a call does to the entry of the candidate's path in the cache of rejections. -/
inductive CacheOp where
  | keep
  | insert (reason : RejectReason)
  | invalidate
deriving DecidableEq

structure DefaultAdmissionPolicy where
  minsize : UInt64
  exeprefix : List String
  mapprefix : List String
  cacheEnabled : Bool
deriving DecidableEq

namespace DefaultAdmissionPolicy

/-- A leading `!` negates a rule; the rest is its text. -/
def parseRule (rule : String) : Bool × List Char :=
  match rule.toList with
  | '!' :: p => (true, p)
  | p => (false, p)

/-- `str::len`, in bytes. -/
def byteLen (p : List Char) : ℕ := (p.map Char.utf8Size).sum

/-- Take the rule if it matches and is longer than the best one so far. -/
def considerRule (path : List Char) (best : Option (Bool × ℕ)) (rule : String) :
    Option (Bool × ℕ) :=
  let (neg, p) := parseRule rule
  if p.isPrefixOf path then
    let len := byteLen p
    if (best.map Prod.snd).getD 0 < len then some (!neg, len) else best
  else best

/-- The longest matching rule decides; a path that is not UTF-8 is refused. -/
def acceptPath (path : RawPath) (rules : List String) : Bool :=
  match path.toStr with
  | none => false
  | some s => ((rules.foldl (considerRule s.toList) none).map Prod.fst).getD true

def allowExe (p : DefaultAdmissionPolicy) (path : Path) : Bool := acceptPath path.raw p.exeprefix

def allowMap (p : DefaultAdmissionPolicy) (path : Path) : Bool := acceptPath path.raw p.mapprefix

/-- `cache_reject`. -/
def cacheReject (p : DefaultAdmissionPolicy) (reason : RejectReason) : CacheOp :=
  if p.cacheEnabled then .insert reason else .keep

/-- `cache_clear`. -/
def cacheClear (p : DefaultAdmissionPolicy) : CacheOp :=
  if p.cacheEnabled then .invalidate else .keep

/-- The answer when no rejection is cached. -/
def decideUncached (p : DefaultAdmissionPolicy) (c : CandidateExe) : AdmissionDecision × CacheOp :=
  if !p.allowExe c.path then
    (.reject .exePrefixDenied, p.cacheReject .exePrefixDenied)
  else if c.maps.isEmpty then
    let reason := if c.rejectedMaps.isEmpty then RejectReason.missingMaps else .mapPrefixDenied
    (.reject reason, p.cacheReject reason)
  else if c.totalSize < p.minsize then
    (.reject .tooSmall, p.cacheReject .tooSmall)
  else
    let completeness := if c.rejectedMaps.isEmpty then Completeness.full else .partly
    (.accept completeness, p.cacheClear)

/-- `decide`, where `cached` is what the cache returns for the path. -/
def decide (p : DefaultAdmissionPolicy) (cached : Option RejectReason) (c : CandidateExe) :
    AdmissionDecision × CacheOp :=
  match p.cacheEnabled, cached with
  | true, some reason => (.reject reason, .keep)
  | _, _ => p.decideUncached c

/-- The policy an `apply` sees when the cache returns `cached path` for each path. -/
def toPolicy (p : DefaultAdmissionPolicy) (cached : Path → Option RejectReason) :
    AdmissionPolicy where
  allowExe := p.allowExe
  allowMap := p.allowMap
  decide c := (p.decide (cached c.path) c).1

/-- An accepted path is valid UTF-8. -/
theorem toStr_of_acceptPath {path : RawPath} {rules : List String}
    (h : acceptPath path rules = true) : path.toStr.isSome := by
  unfold acceptPath at h
  split at h
  · exact absurd h (by simp)
  · next s hs => rw [hs]; rfl

/-- Only an allowed executable is admitted. -/
theorem allowExe_of_accept {p : DefaultAdmissionPolicy} {cached : Option RejectReason}
    {c : CandidateExe} {completeness : Completeness}
    (h : (p.decide cached c).1 = .accept completeness) : p.allowExe c.path = true := by
  have huncached : (p.decideUncached c).1 = .accept completeness := by
    unfold decide at h
    split at h
    · exact absurd h (by simp)
    · exact h
  unfold decideUncached at huncached
  split at huncached
  · exact absurd huncached (by simp)
  · next hallow => simpa using hallow

end DefaultAdmissionPolicy

end PreloadNg
