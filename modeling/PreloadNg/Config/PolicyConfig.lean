import PreloadNg.Observation.Admission
import Mathlib.Data.String.Basic

set_option autoImplicit false

/-! # Settings of the admission policy

The part of `Config` that the default admission policy is built from. -/

namespace PreloadNg

/-- The settings of `Model` and `System` that the admission policy reads. The time to live is in
    seconds. -/
structure PolicyConfig where
  minsize : UInt64
  exeprefix : List String
  mapprefix : List String
  policyCacheTtl : ℕ
  policyCacheCapacity : ℕ
deriving DecidableEq

namespace PolicyConfig

/-- `Vec::sort` on strings, which compare by their bytes; this is the order by code points. -/
def sortRules (rules : List String) : List String := rules.mergeSort fun a b => decide (a ≤ b)

def applyDefaults (c : PolicyConfig) : PolicyConfig :=
  { c with exeprefix := sortRules c.exeprefix, mapprefix := sortRules c.mapprefix }

theorem mem_sortRules {rules : List String} {rule : String} :
    rule ∈ sortRules rules ↔ rule ∈ rules :=
  List.mem_mergeSort

theorem pairwise_sortRules (rules : List String) : (sortRules rules).Pairwise (· ≤ ·) := by
  have h : (sortRules rules).Pairwise fun a b => decide (a ≤ b) = true :=
    List.pairwise_mergeSort (by simpa using fun a b c => le_trans)
      (by simpa using fun a b => le_total a b) rules
  simpa using h

end PolicyConfig

/-- `DefaultAdmissionPolicy::new`. -/
def DefaultAdmissionPolicy.new (config : PolicyConfig) : DefaultAdmissionPolicy where
  minsize := config.minsize
  exeprefix := config.exeprefix
  mapprefix := config.mapprefix
  cacheEnabled := !(config.policyCacheCapacity = 0 || config.policyCacheTtl = 0)

end PreloadNg
