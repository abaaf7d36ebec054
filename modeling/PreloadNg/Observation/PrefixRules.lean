import PreloadNg.Config.PolicyConfig
import Mathlib.Data.List.MinMax

set_option autoImplicit false

/-! # Which prefix rule decides

The rules are meant as a set: the longest prefix that a path starts with decides, and a denial wins
over a permission of the same prefix. `accept_path` folds over the rules in their sorted order and
keeps the first of the longest nonempty matches. Since `!` sorts before `/`, on an absolute path the
first one is the denial. -/

namespace PreloadNg.DefaultAdmissionPolicy

/-! ## What a set of rules says -/

/-- The longest prefix of a rule that the path starts with. -/
def longestPrefix (rules : List String) (path : List Char) : Option (List Char) :=
  ((rules.map fun r => (parseRule r).2).filter fun p => p.isPrefixOf path).argmax List.length

/-- The sign of the longest prefix. Where no rule matches, the path is accepted. -/
def ruledBy (rules : List String) (path : List Char) : Bool :=
  match longestPrefix rules path with
  | none => true
  | some p => !(rules.any fun r => parseRule r = (true, p))

/-- The rules that the sorted order decides as their set does: the longest prefix is not the empty
    one of the rule `!`, and if it is both allowed and denied, its first character sorts after
    `!`. -/
def OrderedBySign (rules : List String) (path : List Char) : Prop :=
  match longestPrefix rules path with
  | none => True
  | some [] => "!" ∉ rules
  | some (c :: p) =>
      (∃ r ∈ rules, parseRule r = (false, c :: p)) → (∃ r ∈ rules, parseRule r = (true, c :: p)) →
        '!' < c

/-! ## Rules as text -/

theorem toList_of_parseRule {r : String} {neg : Bool} {p : List Char}
    (h : parseRule r = (neg, p)) : r.toList = if neg then '!' :: p else p := by
  unfold parseRule at h
  split at h
  · next q hq =>
      obtain ⟨rfl, rfl⟩ := Prod.mk.injEq .. ▸ h
      exact hq
  · obtain ⟨rfl, rfl⟩ := Prod.mk.injEq .. ▸ h
    rfl

/-- A prefix that begins with `!` cannot be allowed. -/
theorem ne_bang_of_parseRule {r : String} {c : Char} {p : List Char}
    (h : parseRule r = (false, c :: p)) : c ≠ '!' := by
  rintro rfl
  have hr : r.toList = '!' :: p := by simpa using toList_of_parseRule h
  simp [parseRule, hr] at h

theorem parseRule_bang {r : String} : parseRule r = (true, []) ↔ r = "!" := by
  constructor
  · intro h
    have hr : r.toList = ['!'] := by simpa using toList_of_parseRule h
    rw [← String.toList_inj, hr]
    rfl
  · rintro rfl
    rfl

/-- The denial of a prefix sorts before its permission as `!` sorts before its first character. -/
theorem deny_le_allow {r r' : String} {c : Char} {p : List Char}
    (hdeny : parseRule r = (true, c :: p)) (hallow : parseRule r' = (false, c :: p)) :
    r ≤ r' ↔ '!' < c := by
  have hne := ne_bang_of_parseRule hallow
  rw [← not_lt, String.lt_iff_toList_lt, toList_of_parseRule hdeny, toList_of_parseRule hallow]
  simp only [if_true, Bool.false_eq_true, if_false, List.cons_lt_cons_iff, hne, false_and, or_false,
    not_lt]
  exact ⟨fun h => lt_of_le_of_ne h (Ne.symm hne), le_of_lt⟩

/-! ## Prefixes of one path -/

theorem byteLen_cons (c : Char) (p : List Char) : byteLen (c :: p) = c.utf8Size + byteLen p := by
  simp [byteLen]

theorem byteLen_append (p q : List Char) : byteLen (p ++ q) = byteLen p + byteLen q := by
  simp [byteLen]

theorem byteLen_pos {p : List Char} : 0 < byteLen p ↔ p ≠ [] := by
  cases p with
  | nil => simp [byteLen]
  | cons c p =>
      have hc := c.utf8Size_pos
      rw [byteLen_cons]
      simp only [ne_eq, reduceCtorEq, not_false_eq_true, iff_true]
      omega

/-- Of two prefixes of one path, the one with at least as many bytes contains the other. -/
theorem prefix_of_byteLen_le {path p q : List Char} (hp : p <+: path) (hq : q <+: path)
    (h : byteLen p ≤ byteLen q) : p <+: q := by
  rcases List.prefix_or_prefix_of_prefix hp hq with hpq | ⟨t, rfl⟩
  · exact hpq
  · have ht : t = [] := by
      rw [byteLen_append] at h
      by_contra hne
      have := byteLen_pos.2 hne
      omega
    rw [ht, List.append_nil]

theorem prefix_eq_of_length {path p q : List Char} (hp : p <+: path) (hq : q <+: path)
    (h : p.length = q.length) : p = q := by
  rcases List.prefix_or_prefix_of_prefix hp hq with hpq | hqp
  · exact hpq.eq_of_length h
  · exact (hqp.eq_of_length h.symm).symm

/-! ## The longest prefix is that of the set -/

section LongestPrefix

variable {rules : List String} {path : List Char}

theorem longestPrefix_eq_none :
    longestPrefix rules path = none ↔ ∀ r ∈ rules, ¬ (parseRule r).2 <+: path := by
  simp [longestPrefix, List.argmax_eq_none, List.filter_eq_nil_iff]

theorem longestPrefix_eq_some {p : List Char} :
    longestPrefix rules path = some p ↔
      (∃ r ∈ rules, (parseRule r).2 = p) ∧ p <+: path ∧
        ∀ r ∈ rules, (parseRule r).2 <+: path → (parseRule r).2.length ≤ p.length := by
  rw [longestPrefix, List.argmax_eq_some_iff]
  simp only [List.mem_filter, List.mem_map, List.isPrefixOf_iff_prefix, and_imp,
    forall_exists_index]
  constructor
  · rintro ⟨⟨hmem, hp⟩, hmax, -⟩
    exact ⟨hmem, hp, fun r hr hpre => hmax _ r hr rfl hpre⟩
  · rintro ⟨hmem, hp, hmax⟩
    refine ⟨⟨hmem, hp⟩, ?_, ?_⟩
    · rintro q r hr rfl hq
      exact hmax r hr hq
    · rintro q r hr rfl hq hle
      rw [prefix_eq_of_length hp hq (Nat.le_antisymm hle (hmax r hr hq))]

variable {rules' : List String} (hset : ∀ r, r ∈ rules' ↔ r ∈ rules)

include hset

theorem longestPrefix_congr : longestPrefix rules' path = longestPrefix rules path := by
  cases h : longestPrefix rules path with
  | none =>
      rw [longestPrefix_eq_none] at h ⊢
      simpa only [hset] using h
  | some p =>
      rw [longestPrefix_eq_some] at h ⊢
      simpa only [hset] using h

theorem ruledBy_congr : ruledBy rules' path = ruledBy rules path := by
  have hany (p : List Char) : (rules'.any fun r => parseRule r = (true, p)) =
      rules.any fun r => parseRule r = (true, p) := by
    rw [Bool.eq_iff_iff]
    simp only [List.any_eq_true, hset]
  simp only [ruledBy, longestPrefix_congr hset, hany]

theorem orderedBySign_congr : OrderedBySign rules' path ↔ OrderedBySign rules path := by
  simp only [OrderedBySign, longestPrefix_congr hset, hset]

end LongestPrefix

/-! ## What the fold keeps -/

/-- The rules that the fold can keep. -/
def IsDecisive (path : List Char) (r : String) : Prop :=
  (parseRule r).2 <+: path ∧ 0 < byteLen (parseRule r).2

instance (path : List Char) : DecidablePred (IsDecisive path) := fun r =>
  inferInstanceAs (Decidable ((parseRule r).2 <+: path ∧ 0 < byteLen (parseRule r).2))

/-- What the fold keeps of a rule. -/
def keptOf (r : String) : Bool × ℕ := (!(parseRule r).1, byteLen (parseRule r).2)

theorem considerRule_keptOf (path : List Char) (best : Option String) (r : String) :
    considerRule path (best.map keptOf) r =
      if IsDecisive path r then
        (List.argAux (fun b c => byteLen (parseRule c).2 < byteLen (parseRule b).2) best r).map
          keptOf
      else best.map keptOf := by
  unfold considerRule IsDecisive
  by_cases hpre : (parseRule r).2 <+: path
  · cases best with
    | none => simp [hpre, List.argAux, keptOf]
    | some b =>
        by_cases hlt : byteLen (parseRule b).2 < byteLen (parseRule r).2
        · have hpos : 0 < byteLen (parseRule r).2 := by omega
          simp [hpre, hlt, hpos, List.argAux, keptOf]
        · simp [hpre, hlt, List.argAux, keptOf]
  · simp [hpre]

/-- The fold keeps the first of the longest nonempty matches. -/
theorem foldl_considerRule (path : List Char) (rules : List String) :
    rules.foldl (considerRule path) none =
      ((rules.filter fun r => IsDecisive path r).argmax fun r => byteLen (parseRule r).2).map
        keptOf := by
  have hgen : ∀ (best : Option String), rules.foldl (considerRule path) (best.map keptOf) =
      ((rules.filter fun r => IsDecisive path r).foldl
        (List.argAux fun b c => byteLen (parseRule c).2 < byteLen (parseRule b).2) best).map
          keptOf := by
    induction rules with
    | nil => intro best; rfl
    | cons r rules ih =>
        intro best
        rw [List.foldl_cons, considerRule_keptOf, List.filter_cons]
        by_cases hr : IsDecisive path r
        · simp [hr, ih]
        · simp [hr, ih]
  exact hgen none

/-- The first of the longest nonempty matches in the sorted rules. -/
def sortedBest (rules : List String) (path : List Char) : Option String :=
  ((PolicyConfig.sortRules rules).filter fun r => IsDecisive path r).argmax fun r =>
    byteLen (parseRule r).2

theorem acceptPath_sortRules (s : String) (rules : List String) :
    acceptPath (RawPath.ofString s) (PolicyConfig.sortRules rules) =
      ((sortedBest rules s.toList).map fun r => !(parseRule r).1).getD true := by
  rw [acceptPath, RawPath.toStr_ofString]
  simp only [foldl_considerRule, Option.map_map, sortedBest]
  rfl

/-! ## The fold against the set -/

section Sorted

variable {rules : List String} {path : List Char}

theorem sortedBest_eq_none (h : sortedBest rules path = none) {r : String} (hr : r ∈ rules)
    (hpre : (parseRule r).2 <+: path) : (parseRule r).2 = [] := by
  rw [sortedBest, List.argmax_eq_none, List.filter_eq_nil_iff] at h
  have hnot := h r (PolicyConfig.mem_sortRules.2 hr)
  by_contra hne
  exact hnot (by simpa [IsDecisive, hpre] using byteLen_pos.2 hne)

theorem longestPrefix_of_best {m : String} (h : sortedBest rules path = some m) :
    longestPrefix rules path = some (parseRule m).2 := by
  rw [sortedBest, List.argmax_eq_some_iff] at h
  obtain ⟨hm, hmax, -⟩ := h
  simp only [List.mem_filter, PolicyConfig.mem_sortRules, decide_eq_true_eq] at hm hmax
  obtain ⟨hmem, hpre, hpos⟩ := hm
  refine longestPrefix_eq_some.2 ⟨⟨m, hmem, rfl⟩, hpre, fun r hr hrpre => ?_⟩
  have hle : byteLen (parseRule r).2 ≤ byteLen (parseRule m).2 := by
    by_cases hr0 : 0 < byteLen (parseRule r).2
    · exact hmax r ⟨hr, hrpre, hr0⟩
    · omega
  exact (prefix_of_byteLen_le hrpre hpre hle).length_le

theorem best_mem {m : String} (h : sortedBest rules path = some m) : m ∈ rules := by
  have hm := List.argmax_mem h
  rw [List.mem_filter, PolicyConfig.mem_sortRules] at hm
  exact hm.1

theorem best_ne_nil {m : String} (h : sortedBest rules path = some m) : (parseRule m).2 ≠ [] := by
  have hm := List.argmax_mem h
  rw [List.mem_filter] at hm
  exact byteLen_pos.1 (of_decide_eq_true hm.2).2

/-- The fold's choice sorts before every other rule of the same prefix. -/
theorem best_le {m r : String} (h : sortedBest rules path = some m) (hr : r ∈ rules)
    (heq : (parseRule r).2 = (parseRule m).2) : m ≤ r := by
  rw [sortedBest, List.argmax_eq_some_iff] at h
  obtain ⟨hm, -, hfirst⟩ := h
  have hr' : r ∈ (PolicyConfig.sortRules rules).filter fun r => IsDecisive path r := by
    have hdec : IsDecisive path r := by
      have hdec := of_decide_eq_true (List.mem_filter.1 hm).2
      simpa only [IsDecisive, heq] using hdec
    simp [PolicyConfig.mem_sortRules, hr, hdec]
  have hidx := hfirst r hr' (by rw [heq])
  have hsorted := (PolicyConfig.pairwise_sortRules rules).filter fun r => IsDecisive path r
  have hlt := List.idxOf_lt_length_of_mem hr'
  have hle := hsorted.rel_get_of_le (a := ⟨_, lt_of_le_of_lt hidx hlt⟩) (b := ⟨_, hlt⟩) hidx
  simpa using hle

/-- Where only empty prefixes match, the path is accepted, whatever the set says. -/
theorem empty_prefix_iff (h : sortedBest rules path = none) :
    ((none : Option String).map fun r => !(parseRule r).1).getD true = ruledBy rules path ↔
      OrderedBySign rules path := by
  unfold ruledBy OrderedBySign
  cases hp : longestPrefix rules path with
  | none => simp
  | some p =>
      obtain ⟨⟨r, hr, rfl⟩, hpre, -⟩ := longestPrefix_eq_some.1 hp
      rw [sortedBest_eq_none h hr hpre]
      simp only [Option.map_none, Option.getD_none, eq_comm (a := true), Bool.not_eq_true',
        List.any_eq_false, decide_eq_true_eq, parseRule_bang]
      exact ⟨fun hno hbang => hno "!" hbang rfl, fun hno r hr hbang => hno (hbang ▸ hr)⟩

/-- The fold's choice has the sign that the set gives its prefix, unless the prefix is both allowed
    and denied and its permission comes first. -/
theorem best_iff {m : String} (h : sortedBest rules path = some m) :
    ((some m).map fun r => !(parseRule r).1).getD true = ruledBy rules path ↔
      OrderedBySign rules path := by
  have hmem := best_mem h
  obtain ⟨c, p, hp⟩ := List.exists_cons_of_ne_nil (best_ne_nil h)
  have hlongest : longestPrefix rules path = some (c :: p) := by
    rw [longestPrefix_of_best h, hp]
  simp only [ruledBy, OrderedBySign, hlongest, Option.map_some, Option.getD_some]
  cases hneg : (parseRule m).1 with
  | true =>
      have hdeny : parseRule m = (true, c :: p) := by rw [← hneg, ← hp]
      have hany : (rules.any fun r => parseRule r = (true, c :: p)) = true :=
        List.any_eq_true.2 ⟨m, hmem, by simpa using hdeny⟩
      simp only [hany, Bool.not_true, true_iff]
      rintro ⟨r, hr, hallow⟩ -
      exact (deny_le_allow hdeny hallow).1 (best_le h hr (by rw [hallow, hdeny]))
  | false =>
      have hallow : parseRule m = (false, c :: p) := by rw [← hneg, ← hp]
      -- the rule that decides is the least string among those of its prefix
      have hfirst : ∀ r ∈ rules, parseRule r = (true, c :: p) → ¬ '!' < c := by
        intro r hr hdeny hlt
        have hmr : m ≤ r := best_le h hr (by rw [hallow, hdeny])
        have hrm : r ≤ m := (deny_le_allow hdeny hallow).2 hlt
        rw [le_antisymm hmr hrm, hdeny] at hallow
        simp at hallow
      constructor
      · intro hno _ hdeny
        obtain ⟨r, hr, hdeny⟩ := hdeny
        have hany : (rules.any fun r => parseRule r = (true, c :: p)) = true :=
          List.any_eq_true.2 ⟨r, hr, by simpa using hdeny⟩
        rw [hany] at hno
        simp at hno
      · intro hord
        have hany : (rules.any fun r => parseRule r = (true, c :: p)) = false := by
          rw [List.any_eq_false]
          intro r hr hdeny
          have hdeny : parseRule r = (true, c :: p) := by simpa using hdeny
          exact hfirst r hr hdeny (hord ⟨m, hmem, hallow⟩ ⟨r, hr, hdeny⟩)
        rw [hany]

end Sorted

theorem acceptPath_sortRules_iff (s : String) (rules : List String) :
    acceptPath (RawPath.ofString s) (PolicyConfig.sortRules rules) = ruledBy rules s.toList ↔
      OrderedBySign rules s.toList := by
  rw [acceptPath_sortRules]
  cases hbest : sortedBest rules s.toList with
  | none => exact empty_prefix_iff hbest
  | some m => exact best_iff hbest

/-- The rules decide a path as their set does exactly when they are ordered by sign: the rule `!` is
    never applied, and a permission sorted before the denial of the same prefix wins. Then only the
    set of rules matters. -/
theorem longest_prefix_decides_iff (s : String) (rules : List String) :
    (acceptPath (RawPath.ofString s) (PolicyConfig.sortRules rules) = ruledBy rules s.toList ∧
        ∀ rules' : List String, (∀ r, r ∈ rules' ↔ r ∈ rules) →
          acceptPath (RawPath.ofString s) (PolicyConfig.sortRules rules') =
            acceptPath (RawPath.ofString s) (PolicyConfig.sortRules rules)) ↔
      OrderedBySign rules s.toList := by
  constructor
  · exact fun h => (acceptPath_sortRules_iff s rules).1 h.1
  · intro hord
    refine ⟨(acceptPath_sortRules_iff s rules).2 hord, fun rules' hset => ?_⟩
    rw [(acceptPath_sortRules_iff s rules').2 ((orderedBySign_congr hset).2 hord),
      (acceptPath_sortRules_iff s rules).2 hord, ruledBy_congr hset]

/-- The rule `!` denies every path and is ignored; for a prefix that begins with a blank, the
    permission is sorted before the denial and wins. -/
theorem longest_prefix_ignored :
    (acceptPath (RawPath.ofString "/usr/bin/foo") (PolicyConfig.sortRules ["!"]) = true ∧
        ruledBy ["!"] "/usr/bin/foo".toList = false) ∧
      acceptPath (RawPath.ofString " a") (PolicyConfig.sortRules [" a", "! a"]) = true ∧
        ruledBy [" a", "! a"] " a".toList = false := by
  have hbang : PolicyConfig.sortRules ["!"] = ["!"] := List.mergeSort_singleton _
  have hblank : PolicyConfig.sortRules [" a", "! a"] = [" a", "! a"] :=
    List.mergeSort_of_pairwise (by decide)
  rw [hbang, hblank, acceptPath, acceptPath, RawPath.toStr_ofString, RawPath.toStr_ofString]
  decide

end PreloadNg.DefaultAdmissionPolicy
