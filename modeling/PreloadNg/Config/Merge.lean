import PreloadNg.Lib.KeyTree

set_option autoImplicit false

/-! # Merging configuration files

`Config::load_multiple` merges the documents in order with `merge_document`. The items are those of
`toml_edit`; scalars are left abstract. A table is written as `[t]` or with dotted keys (`table`), or
inline as `t = {..}` (a value). -/

namespace PreloadNg

inductive Value (σ : Type) where
  | scalar (s : σ)
  | array (elems : List (Value σ))
  | inlineTable (entries : List (String × Value σ))

inductive Item (σ : Type) where
  | none
  | value (v : Value σ)
  | table (entries : List (String × Item σ))
  | arrayOfTables (tables : List (List (String × Item σ)))

variable {σ : Type}

/-- Write the item of a key, in its place or at the end. -/
def setEntry (key : String) (item : Item σ) : List (String × Item σ) → List (String × Item σ)
  | [] => [(key, item)]
  | (k, i) :: rest => if k = key then (k, item) :: rest else (k, i) :: setEntry key item rest

/-- `table.entry(key).or_insert(Item::None)`. -/
def getEntry (key : String) : List (String × Item σ) → Item σ
  | [] => .none
  | (k, i) :: rest => if k = key then i else getEntry key rest

mutual

def mergeItem : Item σ → Item σ → Item σ
  | .table target, .table source => .table (mergeEntries target source)
  | .arrayOfTables target, .arrayOfTables source => .arrayOfTables (target ++ source)
  | _, source => source

/-- The loop over the entries of the source; the iterator skips `Item::None`. -/
def mergeEntries (target : List (String × Item σ)) :
    List (String × Item σ) → List (String × Item σ)
  | [] => target
  | (_, .none) :: rest => mergeEntries target rest
  | (key, item) :: rest =>
    mergeEntries (setEntry key (mergeItem (getEntry key target) item) target) rest

end

/-- A parsed document: every key is there once, with a value or a table. Arrays of tables are left
    out. -/
def Item.Parsed : Item σ → Prop
  | .none => False
  | .value _ => True
  | .table entries => EntriesParsed entries
  | .arrayOfTables _ => False
where
  EntriesParsed : List (String × Item σ) → Prop
    | [] => True
    | (key, item) :: rest => key ∉ rest.map Prod.fst ∧ item.Parsed ∧ EntriesParsed rest

/-- A parsed document without arrays of tables. -/
structure Document (σ : Type) where
  entries : List (String × Item σ)
  parsed : Item.Parsed.EntriesParsed entries

def mergeDocument (target : List (String × Item σ)) (source : Document σ) :
    List (String × Item σ) :=
  mergeEntries target source.entries

/-- The loop of `Config::load_multiple`, over the files that exist; one that cannot be read or parsed
    ends it. -/
def loadMultiple {ε : Type} (files : List (Option (Except ε (Document σ)))) :
    Except ε (List (String × Item σ)) :=
  files.foldlM (fun merged file =>
    match file with
    | none => .ok merged
    | some text => text.map (mergeDocument merged)) []

/-! ## Documents as trees of keys -/

/-- How a table is written. -/
inductive Spelling where
  | standard
  | inline
deriving DecidableEq

/-- A key has the item of its first entry. -/
def Value.tree : Value σ → KeyTree String (Item σ) Spelling
  | .scalar s => .leaf (.value (.scalar s))
  | .array elems => .leaf (.value (.array elems))
  | .inlineTable entries => .table .inline (entriesTree entries)
where
  entriesTree : List (String × Value σ) → String → KeyTree String (Item σ) Spelling
    | [], _ => .absent
    | (k, v) :: rest, key => if k = key then v.tree else entriesTree rest key

def Item.tree : Item σ → KeyTree String (Item σ) Spelling
  | .none => .absent
  | .value v => v.tree
  | .table entries => .table .standard (entriesTree entries)
  | .arrayOfTables tables => .leaf (.arrayOfTables tables)
where
  entriesTree : List (String × Item σ) → String → KeyTree String (Item σ) Spelling
    | [], _ => .absent
    | (k, i) :: rest, key => if k = key then i.tree else entriesTree rest key

open Item.tree (entriesTree)

theorem tree_getEntry (key : String) (entries : List (String × Item σ)) :
    (getEntry key entries).tree = entriesTree entries key := by
  induction entries with
  | nil => rfl
  | cons entry rest ih =>
      unfold getEntry entriesTree
      split
      · rfl
      · exact ih

theorem entriesTree_setEntry (key : String) (item : Item σ) (entries : List (String × Item σ))
    (key' : String) :
    entriesTree (setEntry key item entries) key' =
      if key = key' then item.tree else entriesTree entries key' := by
  induction entries with
  | nil => rfl
  | cons entry rest ih =>
      obtain ⟨k, i⟩ := entry
      unfold setEntry
      by_cases hk : k = key
      · subst hk
        simp only [if_true, entriesTree]
        split <;> rfl
      · rw [if_neg hk]
        simp only [entriesTree, ih]
        by_cases hkey : key = key'
        · simp [← hkey, hk]
        · simp [hkey]

theorem entriesTree_of_not_mem {key : String} {entries : List (String × Item σ)}
    (h : key ∉ entries.map Prod.fst) : entriesTree entries key = .absent := by
  induction entries with
  | nil => rfl
  | cons entry rest ih =>
      simp only [List.map_cons, List.mem_cons, not_or] at h
      simp [entriesTree, ih h.2, Ne.symm h.1]

/-! ## The merge of the code -/

/-- Tables are merged where both are written in the standard way. -/
def bothStandard (a b : Spelling) : Bool := a = .standard && b = .standard

open KeyTree (mergeWhere)

theorem mergeWhere_absent (t : KeyTree String (Item σ) Spelling) :
    mergeWhere bothStandard t .absent = t := by
  cases t <;> rfl

/-- A value replaces what was there. -/
theorem mergeWhere_value (t : KeyTree String (Item σ) Spelling) (v : Value σ) :
    mergeWhere bothStandard t v.tree = v.tree := by
  cases v with
  | scalar s => cases t <;> rfl
  | array elems => cases t <;> rfl
  | inlineTable entries => cases t <;> simp [Value.tree, mergeWhere, bothStandard]

/-- A standard table replaces a value, inline tables included. -/
theorem value_mergeWhere (v : Value σ) (f : String → KeyTree String (Item σ) Spelling) :
    mergeWhere bothStandard v.tree (.table .standard f) = .table .standard f := by
  cases v with
  | scalar s => rfl
  | array elems => rfl
  | inlineTable entries => simp [Value.tree, mergeWhere, bothStandard]

mutual

/-- `merge_item` merges two tables that are both written in the standard way; otherwise the source
    replaces the target. -/
theorem tree_mergeItem (target : Item σ) : ∀ source : Item σ, source.Parsed →
    (mergeItem target source).tree = mergeWhere bothStandard target.tree source.tree
  | .none, h => absurd h id
  | .arrayOfTables _, h => absurd h id
  | .value v, _ => by
      have hitem : mergeItem target (.value v) = .value v := by cases target <;> rfl
      rw [hitem]
      exact (mergeWhere_value target.tree v).symm
  | .table source, h => by
      cases target with
      | none => rfl
      | arrayOfTables tables => rfl
      | value v => exact (value_mergeWhere v _).symm
      | table entries =>
          exact congrArg _ (funext fun key => tree_mergeEntries entries source h key)

theorem tree_mergeEntries (target : List (String × Item σ)) :
    ∀ source : List (String × Item σ), Item.Parsed.EntriesParsed source → ∀ key,
      entriesTree (mergeEntries target source) key =
        mergeWhere bothStandard (entriesTree target key) (entriesTree source key)
  | [], _, key => (mergeWhere_absent _).symm
  | (k, item) :: rest, ⟨hnew, hitem, hrest⟩, key => by
      have hmerge : mergeEntries target ((k, item) :: rest) =
          mergeEntries (setEntry k (mergeItem (getEntry k target) item) target) rest := by
        cases item with
        | none => exact absurd hitem id
        | value v => rfl
        | table entries => rfl
        | arrayOfTables tables => rfl
      rw [hmerge, tree_mergeEntries _ rest hrest key, entriesTree_setEntry]
      by_cases hkey : k = key
      · subst hkey
        rw [if_pos rfl, tree_mergeItem _ item hitem, tree_getEntry, entriesTree_of_not_mem hnew,
          mergeWhere_absent]
        simp [entriesTree]
      · simp [entriesTree, hkey]

end

/-! ## The merge of a list of documents -/

open KeyTree (mergeAll deepMergeAll SavedAt)

def mergeDocuments (docs : List (Document σ)) : List (String × Item σ) :=
  docs.foldl mergeDocument []

/-- `load_multiple` builds the merge of the documents in the files that exist. -/
theorem loadMultiple_eq_ok {ε : Type} {files : List (Option (Except ε (Document σ)))}
    {merged : List (String × Item σ)} :
    loadMultiple files = .ok merged ↔
      ∃ docs, files.filterMap id = docs.map .ok ∧ merged = mergeDocuments docs := by
  unfold loadMultiple mergeDocuments
  generalize ([] : List (String × Item σ)) = start
  induction files generalizing start with
  | nil =>
      rw [List.foldlM_nil]
      constructor
      · exact fun h => ⟨[], rfl, (Except.ok.inj h).symm⟩
      · rintro ⟨docs, hdocs, rfl⟩
        obtain rfl := List.map_eq_nil_iff.1 hdocs.symm
        rfl
  | cons file rest ih =>
      rw [List.foldlM_cons]
      cases file with
      | none => exact ih start
      | some text =>
          cases text with
          | error e =>
              -- a file that does not parse fails the load
              refine iff_of_false (fun h => ?_) ?_
              · exact absurd (show Except.error e = .ok merged from h) (by simp)
              · rintro ⟨docs, hdocs, -⟩
                cases docs <;> simp at hdocs
          | ok doc =>
              refine (ih (mergeDocument start doc)).trans ?_
              constructor
              · rintro ⟨docs, hdocs, rfl⟩
                exact ⟨doc :: docs, congrArg (Except.ok doc :: ·) hdocs, rfl⟩
              · rintro ⟨docs, hdocs, rfl⟩
                obtain ⟨doc', docs, rfl⟩ : ∃ doc' docs', docs = doc' :: docs' :=
                  List.exists_cons_of_ne_nil (by rintro rfl; simp at hdocs)
                simp only [List.filterMap_cons, id_eq, List.map_cons, List.cons.injEq,
                  Except.ok.injEq] at hdocs
                obtain ⟨rfl, hdocs⟩ := hdocs
                exact ⟨docs, hdocs, rfl⟩

/-- The tree of a document, with and without the spelling of its tables. -/
def spelledTree (entries : List (String × Item σ)) : KeyTree String (Item σ) Spelling :=
  .table .standard (entriesTree entries)

def keyTree (entries : List (String × Item σ)) : KeyTree String (Item σ) Unit :=
  (spelledTree entries).relabel fun _ => ()

/-- The merge of the code, in terms of trees. -/
theorem spelledTree_mergeDocuments (docs : List (Document σ)) :
    spelledTree (mergeDocuments docs) =
      mergeAll bothStandard (spelledTree []) (docs.map fun doc => spelledTree doc.entries) := by
  induction docs using List.reverseRecOn with
  | nil => rfl
  | append_singleton docs doc ih =>
      rw [List.map_append, List.map_singleton, KeyTree.mergeAll_concat, ← ih, mergeDocuments,
        List.foldl_append]
      exact congrArg _ (funext fun key => tree_mergeEntries _ doc.entries doc.parsed key)

/-- The documents merge key by key exactly when no key is lost: where a document replaces a table of
    the earlier ones, because one of the two is written inline, it or a later document says what
    every key of that table is. -/
theorem later_files_override_iff (docs : List (Document σ)) :
    keyTree (mergeDocuments docs) =
        deepMergeAll (keyTree []) (docs.map fun doc => keyTree doc.entries) ↔
      ∀ p, SavedAt bothStandard (spelledTree []) (docs.map fun doc => spelledTree doc.entries)
        p := by
  rw [← KeyTree.relabel_mergeAll_eq_iff bothStandard fun _ : Spelling => (),
    KeyTree.relabel_deepMergeAll, List.map_map, ← spelledTree_mergeDocuments]
  exact Iff.rfl

/-- `[system]` with two keys, then `system = { autosave = 120 }`: the other key is lost. -/
theorem inline_table_loses_key :
    let entry : String → String → String × Value String := fun key text => (key, .scalar text)
    let first : Document String :=
      ⟨[("system", .table [("doscan", .value (.scalar "false")),
        ("autosave", .value (.scalar "60"))])], by simp [Item.Parsed.EntriesParsed, Item.Parsed]⟩
    let second : Document String :=
      ⟨[("system", .value (.inlineTable [entry "autosave" "120"]))],
        by simp [Item.Parsed.EntriesParsed, Item.Parsed]⟩
    (keyTree (mergeDocuments [first, second])).shapeAt ["system", "doscan"] = none ∧
      (deepMergeAll (keyTree []) [keyTree first.entries, keyTree second.entries]).shapeAt
        ["system", "doscan"] = some (.inl (.value (.scalar "false"))) :=
  ⟨rfl, rfl⟩

end PreloadNg
