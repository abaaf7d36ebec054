import Mathlib.Data.List.Basic
import Mathlib.Data.List.Infix

set_option autoImplicit false

/-! # Segments of a list

A list that is read in segments between separators, where empty segments and, except at the start,
segments of a single dot mean nothing. Lists with the same segments have one normal form. -/

namespace Segments

variable {α β : Type} [DecidableEq α] [DecidableEq β] {slash dot : α} {slash' dot' : β}

/-- The segments that mean something. -/
def named (slash dot : α) (l : List α) : List (List α) :=
  (l.splitOn slash).filter fun c => c ≠ [] && c ≠ [dot]

/-- The normal form: one separator between two segments. -/
def normalize (slash dot : α) (l : List α) : List α :=
  if l.head? = some slash then slash :: [slash].intercalate (named slash dot l)
  else if (l.splitOn slash).head? = some [dot] then
    [slash].intercalate ([dot] :: named slash dot l)
  else [slash].intercalate (named slash dot l)

theorem not_mem_of_mem_splitOn {l c : List α} (hc : c ∈ l.splitOn slash) : slash ∉ c := by
  induction l generalizing c with
  | nil =>
      rw [List.splitOn_nil, List.mem_singleton] at hc
      rw [hc]
      exact List.not_mem_nil
  | cons x xs ih =>
      rw [List.splitOn_cons_eq_if_modifyHead] at hc
      split at hc
      · rcases List.mem_cons.1 hc with rfl | hc
        · exact List.not_mem_nil
        · exact ih hc
      · next hx =>
        obtain ⟨first, rest, hsplit⟩ := List.exists_cons_of_ne_nil (List.splitOn_ne_nil slash xs)
        rw [hsplit, List.modifyHead_cons, List.mem_cons] at hc
        rcases hc with rfl | hc
        · rw [List.mem_cons, not_or]
          refine ⟨fun heq => hx (by simp [heq]), ih ?_⟩
          rw [hsplit]
          exact List.mem_cons_self
        · refine ih ?_
          rw [hsplit]
          exact List.mem_cons_of_mem _ hc

theorem not_mem_named {l c : List α} (hc : c ∈ named slash dot l) : slash ∉ c :=
  not_mem_of_mem_splitOn (List.mem_of_mem_filter hc)

theorem splitOn_cons_self (l : List α) : (slash :: l).splitOn slash = [] :: l.splitOn slash := by
  rw [List.splitOn_cons_eq_if_modifyHead, if_pos (beq_self_eq_true slash)]

/-- What is put together from segments has these segments, and none has an empty one. -/
theorem filter_splitOn_intercalate {segments : List (List α)} (h : ∀ c ∈ segments, slash ∉ c) :
    (([slash].intercalate segments).splitOn slash).filter (fun c => c ≠ [] && c ≠ [dot]) =
      segments.filter fun c => c ≠ [] && c ≠ [dot] := by
  cases segments with
  | nil => rfl
  | cons c rest => rw [List.splitOn_intercalate slash h (List.cons_ne_nil c rest)]

theorem filter_named (l : List α) :
    (named slash dot l).filter (fun c => c ≠ [] && c ≠ [dot]) = named slash dot l := by
  unfold named
  rw [List.filter_filter]
  simp

omit [DecidableEq α] in
theorem head?_intercalate {c : List α} {rest : List (List α)} (hc : c ≠ []) :
    ([slash].intercalate (c :: rest)).head? = c.head? := by
  obtain ⟨x, xs, rfl⟩ := List.exists_cons_of_ne_nil hc
  cases rest with
  | nil => rfl
  | cons c' rest => rfl

theorem ne_of_mem_named {l c : List α} (hc : c ∈ named slash dot l) : c ≠ [] ∧ c ≠ [dot] := by
  simpa using List.of_mem_filter hc

/-- The normal form starts with a separator as the list does. -/
theorem head?_normalize (hne : dot ≠ slash) (l : List α) :
    (normalize slash dot l).head? = some slash ↔ l.head? = some slash := by
  unfold normalize
  split
  · next hroot => simp [hroot]
  · next hroot =>
    refine iff_of_false (fun h => ?_) hroot
    split at h
    · rw [head?_intercalate (List.cons_ne_nil _ _)] at h
      exact hne (Option.some.inj h)
    · cases hnamed : named slash dot l with
      | nil =>
          rw [hnamed] at h
          cases h
      | cons c rest =>
          have hc : c ∈ named slash dot l := by
            rw [hnamed]
            exact List.mem_cons_self
          rw [hnamed, head?_intercalate (ne_of_mem_named hc).1] at h
          exact not_mem_named hc (List.mem_of_mem_head? h)

/-- The normal form has the segments of the list. -/
theorem named_normalize (hne : dot ≠ slash) (l : List α) :
    named slash dot (normalize slash dot l) = named slash dot l := by
  have hmem : ∀ c ∈ named slash dot l, slash ∉ c := fun c hc => not_mem_named hc
  have hjoined : named slash dot ([slash].intercalate (named slash dot l)) = named slash dot l := by
    rw [named, filter_splitOn_intercalate hmem, filter_named]
  unfold normalize
  split
  · rw [named, splitOn_cons_self, List.filter_cons_of_neg (by simp)]
    exact hjoined
  · split
    · have hdot : ∀ c ∈ [dot] :: named slash dot l, slash ∉ c := by
        intro c hc
        rcases List.mem_cons.1 hc with rfl | hc
        · simpa using hne.symm
        · exact hmem c hc
      rw [named, filter_splitOn_intercalate hdot, List.filter_cons_of_neg (by simp), filter_named]
    · exact hjoined

/-- The normal form starts with a dot as the list does. -/
theorem head?_splitOn_normalize (hne : dot ≠ slash) (l : List α) :
    ((normalize slash dot l).splitOn slash).head? = some [dot] ↔
      (l.splitOn slash).head? = some [dot] := by
  unfold normalize
  split
  · next hroot =>
    obtain ⟨xs, rfl⟩ := List.head?_eq_some_iff.1 hroot
    rw [splitOn_cons_self, splitOn_cons_self]
    simp
  · split
    · next hhead =>
      rw [List.splitOn_intercalate slash ?_ (List.cons_ne_nil _ _)]
      · simp [hhead]
      · intro c hc
        rcases List.mem_cons.1 hc with rfl | hc
        · simpa using hne.symm
        · exact not_mem_named hc
    · next hhead =>
      refine iff_of_false (fun h => ?_) hhead
      cases hnamed : named slash dot l with
      | nil =>
          rw [hnamed, List.intercalate_nil, List.splitOn_nil] at h
          cases h
      | cons c rest =>
          rw [hnamed, List.splitOn_intercalate slash ?_ (List.cons_ne_nil _ _), List.head?_cons] at h
          · have hc : c ∈ named slash dot l := by
              rw [hnamed]
              exact List.mem_cons_self
            exact (ne_of_mem_named hc).2 (Option.some.inj h)
          · intro c' hc'
            rw [← hnamed] at hc'
            exact not_mem_named hc'

/-- Lists with the same segments, after the same start, have the same normal form. -/
theorem normalize_congr {l l' : List α} (hnamed : named slash dot l = named slash dot l')
    (hroot : l.head? = some slash ↔ l'.head? = some slash)
    (hhead : (l.splitOn slash).head? = some [dot] ↔ (l'.splitOn slash).head? = some [dot]) :
    normalize slash dot l = normalize slash dot l' := by
  unfold normalize
  rw [hnamed, if_congr hroot rfl (if_congr hhead rfl rfl)]

theorem normalize_normalize (hne : dot ≠ slash) (l : List α) :
    normalize slash dot (normalize slash dot l) = normalize slash dot l :=
  normalize_congr (named_normalize hne l) (head?_normalize hne l) (head?_splitOn_normalize hne l)

/-! ## Parts without a separator -/

theorem exists_segment_of_prefix {sep l : List α} (h : sep <+: l) (hsep : slash ∉ sep) :
    ∃ c rest, l.splitOn slash = c :: rest ∧ sep <+: c := by
  induction l generalizing sep with
  | nil => exact ⟨[], [], List.splitOn_nil slash, h⟩
  | cons x xs ih =>
      cases sep with
      | nil =>
          obtain ⟨c, rest, hsplit⟩ := List.exists_cons_of_ne_nil (List.splitOn_ne_nil slash (x :: xs))
          exact ⟨c, rest, hsplit, List.nil_prefix⟩
      | cons y sep =>
          obtain ⟨rfl, hrest⟩ := List.cons_prefix_cons.1 h
          rw [List.mem_cons, not_or] at hsep
          obtain ⟨c, rest, hsplit, hc⟩ := ih hrest hsep.2
          refine ⟨y :: c, rest, ?_, List.cons_prefix_cons.2 ⟨rfl, hc⟩⟩
          rw [List.splitOn_cons_eq_if_modifyHead, if_neg (by simpa using Ne.symm hsep.1), hsplit,
            List.modifyHead_cons]

/-- A part without a separator lies in one segment. -/
theorem exists_segment_of_infix {sep l : List α} (h : sep <:+: l) (hsep : slash ∉ sep) :
    ∃ c ∈ l.splitOn slash, sep <:+: c := by
  induction l with
  | nil => exact ⟨[], by simp, h⟩
  | cons x xs ih =>
      rcases List.infix_cons_iff.1 h with h | h
      · obtain ⟨c, rest, hsplit, hc⟩ := exists_segment_of_prefix h hsep
        rw [hsplit]
        exact ⟨c, List.mem_cons_self, hc.isInfix⟩
      · obtain ⟨c, hmem, hc⟩ := ih h
        rw [List.splitOn_cons_eq_if_modifyHead]
        split
        · exact ⟨c, List.mem_cons_of_mem _ hmem, hc⟩
        · obtain ⟨first, rest, hsplit⟩ := List.exists_cons_of_ne_nil (List.splitOn_ne_nil slash xs)
          rw [hsplit] at hmem
          rw [hsplit, List.modifyHead_cons]
          rcases List.mem_cons.1 hmem with rfl | hmem
          · exact ⟨x :: c, List.mem_cons_self, List.infix_cons hc⟩
          · exact ⟨c, List.mem_cons_of_mem _ hmem, hc⟩

theorem infix_of_mem_splitOn {l c : List α} (hc : c ∈ l.splitOn slash) : c <:+: l := by
  induction l generalizing c with
  | nil =>
      rw [List.splitOn_nil, List.mem_singleton] at hc
      rw [hc]
  | cons x xs ih =>
      rw [List.splitOn_cons_eq_if_modifyHead] at hc
      split at hc
      · rcases List.mem_cons.1 hc with rfl | hc
        · exact List.nil_infix
        · exact List.infix_cons (ih hc)
      · obtain ⟨first, rest, hsplit⟩ := List.exists_cons_of_ne_nil (List.splitOn_ne_nil slash xs)
        have hjoined : [slash].intercalate (first :: rest) = xs := by
          rw [← hsplit, List.intercalate_splitOn]
        have hstart : first <+: xs := by
          rw [← hjoined]
          cases rest with
          | nil => rw [List.intercalate_singleton]
          | cons c' rest =>
              rw [List.intercalate_cons_cons, List.append_assoc]
              exact List.prefix_append _ _
        rw [hsplit, List.modifyHead_cons, List.mem_cons] at hc
        rcases hc with rfl | hc
        · exact (List.cons_prefix_cons.2 ⟨rfl, hstart⟩).isInfix
        · refine List.infix_cons (ih ?_)
          rw [hsplit]
          exact List.mem_cons_of_mem _ hc

/-- Normalizing puts no such part together. -/
theorem infix_of_infix_normalize {sep l : List α} (hne : dot ≠ slash) (hsep : slash ∉ sep)
    (hlong : 1 < sep.length) (h : sep <:+: normalize slash dot l) : sep <:+: l := by
  obtain ⟨c, hmem, hc⟩ := exists_segment_of_infix h hsep
  have hlength : 1 < c.length := hlong.trans_le hc.length_le
  have hnamed : c ∈ named slash dot (normalize slash dot l) := by
    rw [named, List.mem_filter]
    refine ⟨hmem, ?_⟩
    rw [Bool.and_eq_true, decide_eq_true_eq, decide_eq_true_eq]
    constructor
    · rintro rfl
      exact absurd hlength (by simp)
    · rintro rfl
      exact absurd hlength (by simp)
  rw [named_normalize hne] at hnamed
  exact hc.trans (infix_of_mem_splitOn (List.mem_of_mem_filter hnamed))

/-! ## Encoded lists -/

section Encoded

variable {enc : α → List β}

omit [DecidableEq α] in
theorem splitOn_append_of_not_mem {a : List β} (ha : slash' ∉ a) (l : List β) :
    (a ++ l).splitOn slash' = (l.splitOn slash').modifyHead (a ++ ·) := by
  induction a with
  | nil =>
      obtain ⟨c, rest, hsplit⟩ := List.exists_cons_of_ne_nil (List.splitOn_ne_nil slash' l)
      rw [List.nil_append, hsplit]
      rfl
  | cons x a ih =>
      rw [List.mem_cons, not_or] at ha
      rw [List.cons_append, List.splitOn_cons_eq_if_modifyHead,
        if_neg (by simpa using Ne.symm ha.1), ih ha.2, List.modifyHead_modifyHead]
      rfl

theorem splitOn_flatMap (hslash : enc slash = [slash']) (honly : ∀ c, slash' ∈ enc c → c = slash)
    (l : List α) : (l.flatMap enc).splitOn slash' = (l.splitOn slash).map (List.flatMap enc) := by
  induction l with
  | nil => rfl
  | cons x xs ih =>
      rw [List.flatMap_cons, List.splitOn_cons_eq_if_modifyHead]
      by_cases hx : x = slash
      · subst hx
        rw [hslash, List.singleton_append, splitOn_cons_self, ih, if_pos (by simp)]
        rfl
      · rw [if_neg (by simpa using hx), splitOn_append_of_not_mem fun h => hx (honly x h), ih]
        obtain ⟨c, rest, hsplit⟩ := List.exists_cons_of_ne_nil (List.splitOn_ne_nil slash xs)
        rw [hsplit]
        rfl

variable (hslash : enc slash = [slash']) (honly : ∀ c, slash' ∈ enc c → c = slash)
  (hempty : ∀ c, enc c ≠ []) (hdot : enc dot = [dot']) (hdotOnly : ∀ c, dot' ∈ enc c → c = dot)

include hempty

omit [DecidableEq α] [DecidableEq β] in
theorem flatMap_eq_nil (c : List α) : c.flatMap enc = [] ↔ c = [] := by
  cases c with
  | nil => simp
  | cons x xs => simp [hempty x]

include hdot hdotOnly

omit [DecidableEq α] [DecidableEq β] in
theorem flatMap_eq_dot (c : List α) : c.flatMap enc = [dot'] ↔ c = [dot] := by
  constructor
  · intro h
    cases c with
    | nil => cases h
    | cons x xs =>
        obtain ⟨b, bs, hb⟩ := List.exists_cons_of_ne_nil (hempty x)
        rw [List.flatMap_cons, hb, List.cons_append, List.cons.injEq, List.append_eq_nil_iff] at h
        obtain ⟨rfl, -, hrest⟩ := h
        rw [(flatMap_eq_nil hempty xs).1 hrest,
          hdotOnly x (hb ▸ List.mem_cons_self)]
  · rintro rfl
    rw [List.flatMap_cons, hdot]
    rfl

include hslash honly

theorem named_flatMap (l : List α) :
    named slash' dot' (l.flatMap enc) = (named slash dot l).map (List.flatMap enc) := by
  unfold named
  rw [splitOn_flatMap hslash honly, List.filter_map]
  refine congrArg _ (List.filter_congr fun c _ => ?_)
  simp [flatMap_eq_nil hempty c, flatMap_eq_dot hempty hdot hdotOnly c]

omit [DecidableEq α] [DecidableEq β] hdot hdotOnly hempty honly in
theorem intercalate_map_flatMap (segments : List (List α)) :
    [slash'].intercalate (segments.map (List.flatMap enc)) =
      ([slash].intercalate segments).flatMap enc := by
  induction segments with
  | nil => rfl
  | cons c rest ih =>
      cases rest with
      | nil => simp
      | cons c' rest =>
          rw [List.map_cons, List.map_cons, List.intercalate_cons_cons, ← List.map_cons, ih,
            List.intercalate_cons_cons, List.flatMap_append, List.flatMap_append, List.flatMap_cons,
            hslash]
          rfl

/-- Normalizing an encoding encodes the normal form. -/
theorem normalize_flatMap (l : List α) :
    normalize slash' dot' (l.flatMap enc) = (normalize slash dot l).flatMap enc := by
  have hroot : (l.flatMap enc).head? = some slash' ↔ l.head? = some slash := by
    cases l with
    | nil => simp
    | cons x xs =>
        obtain ⟨b, bs, hb⟩ := List.exists_cons_of_ne_nil (hempty x)
        rw [List.flatMap_cons, hb, List.cons_append, List.head?_cons, List.head?_cons,
          Option.some_inj, Option.some_inj]
        constructor
        · rintro rfl
          exact honly x (hb ▸ List.mem_cons_self)
        · rintro rfl
          exact (List.cons.inj (hb.symm.trans hslash)).1
  have hhead : ((l.flatMap enc).splitOn slash').head? = some [dot'] ↔
      (l.splitOn slash).head? = some [dot] := by
    rw [splitOn_flatMap hslash honly, List.head?_map, Option.map_eq_some_iff]
    constructor
    · rintro ⟨c, hc, hdots⟩
      rw [hc, (flatMap_eq_dot hempty hdot hdotOnly c).1 hdots]
    · intro hc
      exact ⟨_, hc, (flatMap_eq_dot hempty hdot hdotOnly _).2 rfl⟩
  have hjoined : ∀ segments : List (List α), [slash'].intercalate (segments.map (List.flatMap enc)) =
      ([slash].intercalate segments).flatMap enc := intercalate_map_flatMap hslash
  unfold normalize
  rw [named_flatMap hslash honly hempty hdot hdotOnly, if_congr hroot rfl (if_congr hhead rfl rfl)]
  split
  · rw [hjoined, List.flatMap_cons, hslash]
    rfl
  · split
    · have hdots : [dot'] = [dot].flatMap enc :=
        ((flatMap_eq_dot hempty hdot hdotOnly [dot]).2 rfl).symm
      rw [hdots, ← List.map_cons, hjoined]
    · exact hjoined _

end Encoded

end Segments
