import PowDB.Storage.FileInv
import PowDB.Storage.MaintainedRun
import Mathlib

/-! Columns added to and dropped from a table with indexes. Rows are rewritten and indexes find their
columns again by name, but only when there are rows: a drop on an empty table leaves the positions
that its indexes remember where they were. -/
namespace PowDB.Storage
open Lib List Option
/-- Where the heap puts a row that is written anew. -/
structure Placement where
  spills : ℕ → Bool
  chain : List ℕ
  rid : ℕ

namespace MaintainedTable
variable (P : TreeParams)

/-- A row goes back into the heap in the shape of the new schema. -/
def rewriteRow (old : Schema) (moves : ℕ → Placement) (t : MaintainedTable) (r : HeapRow × ℕ) :
    Except IndexError MaintainedTable :=
  let m := moves r.2
  if !t.mayChain m.chain then .error .slotUsed
  else
    let rest := {t with overflowPages := m.chain++t.overflowPages, rows := t.rows.filter (·.2 ≠ r.2)}
    if !rest.mayPlace (some (ridPage r.2)) m.rid then .error .slotUsed
    else .ok {rest with
      rows := rest.putRow (storeRow t.columns m.spills (Table.reshape inlineCodec old t.columns r.1.values)) m.rid
      pinned := some (ridPage m.rid)}

/-- An index whose column is gone is dropped. -/
def relocateCol (schema : Schema) (idx : IndexedCol) : Option IndexedCol :=
  (columnIndex schema idx.colName).map fun c => {idx with colIdx := c}

def relocatePath (schema : Schema) (e : ExpressionIndexedPath) : Except IndexError ExpressionIndexedPath :=
  match columnIndex schema e.column with
  | none => .error .indexRootGone
  | some c => .ok {e with rootColIdx := c}

def rewriteRowsForSchemaChange (t : MaintainedTable) (old : Schema) (moves : ℕ → Placement) :
    Except IndexError MaintainedTable := do
  let t' ← t.rows.foldlM (rewriteRow old moves) t
  let t' := {t' with indexedCols := (t.indexedCols.filterMap (relocateCol t.columns)).map (t'.rebuildCol P)}
  if t.expressionIndexes.isEmpty then .ok t'
  else
    let paths ← t.expressionIndexes.mapM (relocatePath t.columns)
    {t' with expressionIndexes := paths}.rebuildIndexesFromHeap P

def alterTableAddColumn (t : MaintainedTable) (col : ColumnDef) (moves : ℕ → Placement) :
    Except IndexError MaintainedTable :=
  if t.columns.any (·.name = col.name) then .error .columnExists
  else if !t.rows.isEmpty && col.required then .error .requiredOverRows
  else
    let t' := {t with columns := t.columns++[col]}
    if t.rows.isEmpty then .ok t' else t'.rewriteRowsForSchemaChange P t.columns moves

def alterTableDropColumn (t : MaintainedTable) (name : String) (moves : ℕ → Placement) :
    Except IndexError MaintainedTable :=
  if !t.columns.any (·.name = name) then .error .columnNotFound
  else
    let t' := {t with
      columns := t.columns.eraseP (·.name = name)
      indexedCols := t.indexedCols.filter (·.colName ≠ name)
      expressionIndexes := t.expressionIndexes.filter (·.column ≠ name)}
    if t.rows.isEmpty then .ok t' else t'.rewriteRowsForSchemaChange P t.columns moves

end MaintainedTable

inductive ColumnCall
  | rows (call : TableCall)
  | addColumn (col : ColumnDef) (moves : ℕ → Placement)
  | dropColumn (name : String) (moves : ℕ → Placement)

namespace MaintainedTable

def alterCall (P : TreeParams) (t : MaintainedTable) : ColumnCall → Except IndexError MaintainedTable
  | .rows call => t.call P call
  | .addColumn col moves => t.alterTableAddColumn P col moves
  | .dropColumn name moves => t.alterTableDropColumn P name moves

/-! ### Columns by name -/

section Names
variable {old new : Schema}

lemma columnIndex_spec (h : columnIndex old name = some c) : ∃ col, old[c]? = some col ∧ col.name = name := by
  obtain ⟨hc,hname,-⟩ := findIdx?_eq_some_iff_getElem.mp h
  exact ⟨old[c],getElem?_eq_getElem hc,by simpa using hname⟩

lemma columnIndex_name (h : columnIndex old name = some c) (h' : columnIndex old name' = some c) : name = name' := by
  obtain ⟨col,hcol,rfl⟩ := columnIndex_spec h
  obtain ⟨col',hcol',rfl⟩ := columnIndex_spec h'
  rw [hcol] at hcol'
  rw [some.inj hcol']

lemma columnIndex_none : columnIndex old name = none ↔ ∀ col ∈ old, col.name ≠ name := by
  simp [columnIndex]

lemma columnIndex_of_nodup (hnodup : (old.map ColumnDef.name).Nodup) (hc : old[c]? = some col) :
    columnIndex old col.name = some c := by
  cases hfind : columnIndex old col.name with
  | none => exact absurd rfl (columnIndex_none.mp hfind col (mem_of_getElem? hc))
  | some c' =>
    obtain ⟨col',hc',hname⟩ := columnIndex_spec hfind
    have hlt : c' < (old.map ColumnDef.name).length := by
      rw [length_map]
      exact (List.getElem?_eq_some_iff.mp hc').1
    have heq : (old.map ColumnDef.name)[c']? = (old.map ColumnDef.name)[c]? := by
      rw [getElem?_map,getElem?_map,hc,hc',map_some,map_some,hname]
    rw [(getElem?_inj hlt hnodup).mp heq]

/-- Columns of one name are one column. -/
def Kept (old new : Schema) : Prop := ∀ col ∈ new, ∀ col' ∈ old, col.name = col'.name → col = col'

lemma Kept.columnType (hkept : Kept old new) (h : columnIndex old name = some c)
    (h' : columnIndex new name = some c') :
    ((new[c']?).map ColumnDef.typeId).getD .empty = ((old[c]?).map ColumnDef.typeId).getD .empty := by
  obtain ⟨col,hcol,rfl⟩ := columnIndex_spec h
  obtain ⟨col',hcol',hname⟩ := columnIndex_spec h'
  rw [hcol,hcol',hkept col' (mem_of_getElem? hcol') col (mem_of_getElem? hcol) hname]

lemma kept_append (hnodup : (old.map ColumnDef.name).Nodup)
    (hnew : ∀ col' ∈ old, col'.name ≠ col.name) : Kept old (old++[col]) := by
  intro col₁ h₁ col₂ h₂ hname
  rcases mem_append.mp h₁ with h₁ | h₁
  · exact inj_on_of_nodup_map hnodup h₁ h₂ hname
  · rw [mem_singleton.mp h₁] at hname
    exact absurd hname.symm (hnew col₂ h₂)

lemma kept_eraseP (hnodup : (old.map ColumnDef.name).Nodup) (name : String) : Kept old (old.eraseP (·.name = name)) :=
  fun _ h₁ _ h₂ hname => inj_on_of_nodup_map hnodup (mem_of_mem_eraseP h₁) h₂ hname

/-- One value of a row in its old shape goes to the column of its name. -/
def carry (new : Schema) (row : List Value) (x : ColumnDef × Value) : List Value :=
  match new.findIdx? (·.name = x.1.name) with
  | none => row
  | some j => row.set j x.2

lemma length_carry (new : Schema) (row : List Value) (x : ColumnDef × Value) : (carry new row x).length = row.length := by
  unfold carry
  split
  · rfl
  · exact length_set

lemma columnValue_carry (hc : columnIndex new name = some c) (hrow : c < row.length)
    (x : ColumnDef × Value) : columnValue c (carry new row x) = if x.1.name = name then x.2 else columnValue c row := by
  unfold carry
  split_ifs with hname
  · have hset : new.findIdx? (fun col => decide (col.name = x.1.name)) = some c := hname.symm ▸ hc
    simp [hset,columnValue,hrow]
  · split
    · rfl
    · rename_i j hj
      have hne : j ≠ c := by
        rintro rfl
        exact hname (columnIndex_name hj hc)
      rw [columnValue,columnValue,getElem?_set_ne hne]

lemma reshape_fold (hc : columnIndex new name = some c) (hnodup : (old.map ColumnDef.name).Nodup)
    (values row : List Value) (hrow : c < row.length) : columnValue c ((old.zip values).foldl (carry new) row) =
      match columnIndex old name with
      | some c₀ => if c₀ < values.length then columnValue c₀ values else columnValue c row
      | none => columnValue c row := by
  induction old generalizing values row with
  | nil => rfl
  | cons col old ih =>
    rw [map_cons,nodup_cons] at hnodup
    cases values with
    | nil => cases columnIndex (col::old) name <;> simp
    | cons v values =>
      rw [zip_cons_cons,foldl_cons,ih hnodup.2 values _ (by rwa [length_carry]),columnValue_carry hc hrow]
      by_cases hname : col.name = name
      · have hfirst : columnIndex (col::old) name = some 0 := by simp [columnIndex,findIdx?_cons,hname]
        have hrest : columnIndex old name = none := by
          rw [columnIndex_none]
          intro col' hcol' hname'
          exact hnodup.1 (mem_map.mpr ⟨col',hcol',hname'.trans hname.symm⟩)
        rw [hfirst,hrest]
        simp [columnValue,hname]
      · have hskip : columnIndex (col::old) name = (columnIndex old name).map (·+1) := by
          simp [columnIndex,findIdx?_cons,hname]
        rw [hskip,if_neg hname]
        cases columnIndex old name with
        | none => rfl
        | some c₀ => simp [columnValue]

lemma reshape_length (old new : Schema) (values : List Value) :
    (Table.reshape inlineCodec old new values).length = new.length := by
  have hfold (xs : List (ColumnDef × Value)) (row : List Value) : (xs.foldl (carry new) row).length = row.length := by
    induction xs generalizing row with
    | nil => rfl
    | cons x xs ih => rw [foldl_cons,ih,length_carry]
  exact (hfold _ _).trans (length_map _)

/-- A row in another shape has its old values under their names, and nothing elsewhere. -/
lemma columnValue_reshape (hc : columnIndex new name = some c) (hnodup : (old.map ColumnDef.name).Nodup)
    (values : List Value) : columnValue c (Table.reshape inlineCodec old new values) =
      match columnIndex old name with
      | some c₀ => columnValue c₀ values
      | none => .empty := by
  obtain ⟨col,hcol,-⟩ := columnIndex_spec hc
  have hlt : c < (new.map fun _ => inlineCodec.empty).length := by
    rw [length_map]
    exact (List.getElem?_eq_some_iff.mp hcol).1
  refine (reshape_fold hc hnodup values _ hlt).trans ?_
  rw [show columnValue c (new.map fun _ => inlineCodec.empty) = .empty by
    rw [columnValue,getElem?_map]; cases new[c]? <;> rfl]
  cases columnIndex old name with
  | none => rfl
  | some c₀ =>
    dsimp only
    split_ifs with hlen
    · rfl
    · rw [columnValue,getElem?_eq_none (Nat.le_of_not_lt hlen)]
      rfl

end Names

/-! ### Rewritten rows -/

/-- What a rewrite makes of a row. -/
def moved (old new : Schema) (moves : ℕ → Placement) (r : HeapRow × ℕ) : HeapRow × ℕ :=
  (storeRow new (moves r.2).spills (Table.reshape inlineCodec old new r.1.values),(moves r.2).rid)

section Rewrite
variable {P : TreeParams} {t : MaintainedTable} {old : Schema} {moves : ℕ → Placement}

/-- The state of a rewrite between two rows: some are moved, the rest is where it was. -/
structure Rewriting (old : Schema) (moves : ℕ → Placement) (done todo : List (HeapRow × ℕ)) (t : MaintainedTable) : Prop where
  increasing : Increasing t.rows
  visible : ∀ r ∈ t.rows, ridPage r.2 ∉ t.overflowPages
  rows : t.rows.Perm (done.map (moved old t.columns moves)++todo)


lemma filter_perm {rows rest : List (HeapRow × ℕ)} (hinc : Increasing rows)
    (hperm : rows.Perm (r::rest)) : (rows.filter (·.2 ≠ r.2)).Perm rest := by
  have hnodup : ((r::rest).map Prod.snd).Nodup := by
    refine (hperm.map Prod.snd).nodup_iff.mp (pairwise_map.mpr (hinc.imp ?_))
    exact fun hab => Nat.ne_of_lt hab
  rw [map_cons,nodup_cons] at hnodup
  have hkeep : rest.filter (·.2 ≠ r.2) = rest := by
    apply filter_eq_self.mpr
    intro r' hr'
    rw [decide_eq_true_iff]
    intro heq
    exact hnodup.1 (heq ▸ mem_map_of_mem hr')
  have hfilter := hperm.filter (·.2 ≠ r.2)
  rwa [filter_cons_of_neg (by simp),hkeep] at hfilter

lemma Rewriting.step {done todo : List (HeapRow × ℕ)} (h : Rewriting old moves done (r::todo) t)
    (hrun : rewriteRow old moves t r = .ok t') :
    Rewriting old moves (done++[r]) todo t' ∧ t'.columns = t.columns ∧ t'.indexedCols = t.indexedCols ∧
      t'.expressionIndexes = t.expressionIndexes := by
  rw [rewriteRow] at hrun
  dsimp only at hrun
  split_ifs at hrun with hchain hplace
  have hchain : t.mayChain (moves r.2).chain = true := by simpa using hchain
  cases hrun
  obtain ⟨hfree,hplace⟩ := mayPlace_ok hplace
  have hperm : t.rows.Perm (r::(done.map (moved old t.columns moves)++todo)) := h.rows.trans List.perm_middle
  have hr : r ∈ t.rows := hperm.mem_iff.mpr List.mem_cons_self
  have hpage : ridPage (moves r.2).rid ∉ (moves r.2).chain++t.overflowPages := by
    rcases hplace with hplace | hplace
    · exact hplace
    · rw [← Option.some.inj hplace]
      exact visible_chain h.visible hchain hr
  rw [putRow_visible _ hpage]
  refine ⟨⟨(h.increasing.filter _).insertNumbered hfree,fun r' hr' => ?_,?_⟩,rfl,rfl,rfl⟩
  · rcases mem_insertNumbered.mp hr' with rfl | hr'
    · exact hpage
    · exact visible_chain h.visible hchain (List.mem_filter.mp hr').1
  · refine (insertNumbered_perm _ _).trans ?_
    refine ((filter_perm h.increasing hperm).cons _).trans ?_
    rw [List.map_append,List.append_assoc]
    exact List.perm_middle.symm

lemma Rewriting.run (h : Rewriting old moves done todo t)
    (hrun : todo.foldlM (rewriteRow old moves) t = .ok t') :
    Rewriting old moves (done++todo) [] t' ∧ t'.columns = t.columns ∧ t'.indexedCols = t.indexedCols ∧
      t'.expressionIndexes = t.expressionIndexes := by
  induction todo generalizing t done with
  | nil =>
    rw [foldlM_nil,pure_ok_iff] at hrun
    subst hrun
    rw [append_nil]
    exact ⟨h,rfl,rfl,rfl⟩
  | cons r todo ih =>
    obtain ⟨t₁,hstep,hrun⟩ := bind_ok_iff.mp hrun
    obtain ⟨h₁,hcols,hidx,hpaths⟩ := h.step hstep
    obtain ⟨h₂,hcols',hidx',hpaths'⟩ := ih h₁ hrun
    rw [append_assoc] at h₂
    exact ⟨h₂,hcols'.trans hcols,hidx'.trans hidx,hpaths'.trans hpaths⟩

end Rewrite
end MaintainedTable

/-- Every index agrees with the rows, and stands at the column it is named after. -/
structure Tracks (P : TreeParams) (t : MaintainedTable) : Prop where
  agrees : Agrees P t
  names : (t.columns.map ColumnDef.name).Nodup
  cols : ∀ idx ∈ t.indexedCols, columnIndex t.columns idx.colName = some idx.colIdx
  roots : ∀ e ∈ t.expressionIndexes, columnIndex t.columns e.column = some e.rootColIdx

namespace Tracks
open MaintainedTable Agrees
variable {P : TreeParams} {t : MaintainedTable} {new : Schema} {moves : ℕ → Placement} {name : String} {c : ℕ}
  {indexedCols : List IndexedCol}

lemma columnValue_moved (t : MaintainedTable) (new : Schema) (moves : ℕ → Placement) (r : HeapRow × ℕ) (c : ℕ) :
    columnValue c (moved t.columns new moves r).1.values =
      storedValue (MaintainedTable.columnType {t with columns := new} c)
        (columnValue c (Table.reshape inlineCodec t.columns new r.1.values)) :=
  columnValue_stored (t := {t with columns := new}) (reshape_length t.columns new r.1.values) c

lemma moved_value (h : Tracks P t) (hkept : Kept t.columns new) (hc₀ : columnIndex t.columns name = some c₀)
    (hc : columnIndex new name = some c) (hr : r ∈ t.rows) :
    columnValue c (moved t.columns new moves r).1.values = columnValue c₀ r.1.values := by
  have hstored := columnValue_moved t new moves r c
  rw [columnValue_reshape hc h.names,hc₀] at hstored
  dsimp only at hstored
  apply hstored.trans
  have htype : MaintainedTable.columnType {t with columns := new} c = t.columnType c₀ := hkept.columnType hc₀ hc
  rcases h.agrees.typed c₀ r hr with he | ht
  · rw [he]
    rfl
  · exact storedValue_of_typeId (ht.trans htype.symm)

/-- A rewritten row has values of the new types. -/
lemma moved_typed (h : Tracks P t) (hkept : Kept t.columns new) (hnew : (new.map ColumnDef.name).Nodup)
    (hr : r ∈ t.rows) (c : ℕ) : columnValue c (moved t.columns new moves r).1.values = .empty ∨
      (columnValue c (moved t.columns new moves r).1.values).typeId =
        MaintainedTable.columnType {t with columns := new} c := by
  have hstored := columnValue_moved t new moves r c
  cases hcol : new[c]? with
  | none =>
    left
    apply hstored.trans
    have hlen : new.length ≤ c := getElem?_eq_none_iff.mp hcol
    rw [columnValue,getElem?_eq_none (by rwa [reshape_length])]
    rfl
  | some col =>
    have hc := columnIndex_of_nodup hnew hcol
    cases hold : columnIndex t.columns col.name with
    | none =>
      left
      apply hstored.trans
      rw [columnValue_reshape hc h.names,hold]
      rfl
    | some c₀ =>
      rw [h.moved_value hkept hold hc hr]
      have htype : MaintainedTable.columnType {t with columns := new} c = t.columnType c₀ := hkept.columnType hold hc
      rw [htype]
      exact h.agrees.typed c₀ r hr

lemma moved_distinct (h : Tracks P t) {rows : List (HeapRow × ℕ)}
    (hrows : rows.Perm (t.rows.map (moved t.columns new moves)))
    (hkey : ∀ r ∈ t.rows, key' (moved t.columns new moves r).1 = key r.1) (hdistinct : KeysDistinct P key t.rows) :
    KeysDistinct P key' rows := by
  intro r₁ hr₁ r₂ hr₂ hsame
  obtain ⟨s₁,hs₁,rfl⟩ := mem_map.mp (hrows.mem_iff.mp hr₁)
  obtain ⟨s₂,hs₂,rfl⟩ := mem_map.mp (hrows.mem_iff.mp hr₂)
  rw [hkey s₁ hs₁,hkey s₂ hs₂] at hsame
  rw [h.agrees.increasing.eq_of_number hs₁ hs₂ (hdistinct s₁ hs₁ s₂ hs₂ hsame)]

/-- The rewritten table with its column indexes built anew. -/
lemma rewritten_cols [Exact P.pj1Cmp] (h : Tracks P t) (hkept : Kept t.columns new)
    (hnew : (new.map ColumnDef.name).Nodup) (hsub : ∀ idx ∈ indexedCols, idx ∈ t.indexedCols)
    (hrun : Rewriting t.columns moves t.rows [] t₁) (hcols : t₁.columns = new) : Tracks P {t₁ with
      indexedCols := (indexedCols.filterMap (relocateCol new)).map (t₁.rebuildCol P), expressionIndexes := []} := by
  subst hcols
  have hrows : t₁.rows.Perm (t.rows.map (moved t.columns t₁.columns moves)) := by
    simpa using hrun.rows
  have htyped : ∀ c, FilesCol.Typed (t₁.columnType c) c t₁.rows := by
    intro c r' hr'
    obtain ⟨r,hr,rfl⟩ := mem_map.mp (hrows.mem_iff.mp hr')
    exact h.moved_typed hkept hnew hr c
  have hspec : ∀ idx' ∈ (indexedCols.filterMap (relocateCol t₁.columns)).map (t₁.rebuildCol P), ∃ idx ∈ t.indexedCols,
      columnIndex t₁.columns idx.colName = some idx'.colIdx ∧ idx'.colName = idx.colName ∧ idx'.isInt = idx.isInt ∧
        FilesCol P t₁.rows idx' := by
    intro idx' hidx'
    obtain ⟨idx₁,hidx₁,rfl⟩ := mem_map.mp hidx'
    obtain ⟨idx,hidx,hloc⟩ := mem_filterMap.mp hidx₁
    obtain ⟨c,hc,rfl⟩ := map_eq_some_iff.mp hloc
    obtain ⟨es,hfold,hfiles⟩ := @rebuilt_col _ _ {idx with colIdx := c} _ _ hrun.increasing (htyped c) fun hu =>
      h.moved_distinct hrows (fun r hr => h.moved_value hkept (h.cols idx (hsub idx hidx)) hc hr)
        (h.agrees.cols_distinct (hsub idx hidx) hu)
    rw [rebuildCol,hfold]
    exact ⟨idx,hsub idx hidx,hc,rfl,rfl,hfiles⟩
  refine ⟨⟨hrun.increasing,hrun.visible,htyped,?_,?_,?_,by simp⟩,hnew,?_,by simp⟩
  · intro r' hr'
    obtain ⟨r,hr,rfl⟩ := mem_map.mp (hrows.mem_iff.mp hr')
    exact storeRow_inline _ _ _
  · intro idx' hidx' hint
    obtain ⟨idx,hidx,hc,-,hisInt,-⟩ := hspec idx' hidx'
    have htype : t₁.columnType idx'.colIdx = t.columnType idx.colIdx := hkept.columnType (h.cols idx hidx) hc
    exact htype.trans (h.agrees.ints idx hidx (hisInt ▸ hint))
  · intro idx' hidx'
    exact (hspec idx' hidx').choose_spec.2.2.2.2
  · intro idx' hidx'
    obtain ⟨idx,hidx,hc,hname,-⟩ := hspec idx' hidx'
    exact hname ▸ hc

lemma relocatePath_ok (h : relocatePath new e = .ok e') :
    ∃ c, columnIndex new e.column = some c ∧ e' = {e with rootColIdx := c} := by
  rw [relocatePath] at h
  split at h
  · cases h
  · rename_i c hc
    cases h
    exact ⟨c,hc,rfl⟩

/-- A path index built anew over the rewritten rows. -/
lemma rewritten_path (h : Tracks P t) (hkept : Kept t.columns new) {rows : List (HeapRow × ℕ)}
    (hinc : Increasing rows) (hrows : rows.Perm (t.rows.map (moved t.columns new moves)))
    (he : e ∈ t.expressionIndexes) (hc : columnIndex new e.column = some c) :
    ∃ e', rows.foldlM (rebuildRow P) {e with rootColIdx := c, entries := [], held := []} = .ok e' ∧
      e'.column = e.column ∧ e'.rootColIdx = c ∧ FilesPath P rows e' := by
  have hfiles := h.agrees.paths e he
  have hvalue : ∀ r ∈ t.rows, columnValue c (moved t.columns new moves r).1.values = columnValue e.rootColIdx r.1.values :=
    fun r hr => h.moved_value hkept (h.roots e he) hc hr
  have hkey : ∀ r ∈ t.rows, pathKey P e.canonicalText c (moved t.columns new moves r).1 =
      pathKey P e.canonicalText e.rootColIdx r.1 := by
    intro r hr
    rw [pathKey,hvalue r hr]
    rfl
  have hkeys : ∀ r' ∈ rows, ∃ key, expressionKey P e.canonicalText (columnValue c r'.1.values) = .ok key := by
    intro r' hr'
    obtain ⟨r,hr,rfl⟩ := mem_map.mp (hrows.mem_iff.mp hr')
    rw [hvalue r hr]
    exact hfiles.keys r hr
  have hheld : ∀ r' ∈ rows, pathKey P e.canonicalText c r'.1 ≠ .empty → pathKey P e.canonicalText c r'.1 ∈ e.held := by
    intro r' hr'
    obtain ⟨r,hr,rfl⟩ := mem_map.mp (hrows.mem_iff.mp hr')
    rw [hkey r hr]
    exact hfiles.held (_,r.2) (hfiles.mem_entries.mpr ⟨r,hr,rfl,rfl⟩)
  obtain ⟨es,hs,hfold,hnew,-⟩ := rebuilt_path (e := {e with rootColIdx := c}) hfiles.ordered hinc hkeys hheld
    fun hu => h.moved_distinct hrows hkey (h.agrees.paths_distinct he hu)
  exact ⟨_,hfold,rfl,rfl,hnew⟩

lemma rewrite [Exact P.pj1Cmp] (h : Tracks P t) (hkept : Kept t.columns new)
    (hnew : (new.map ColumnDef.name).Nodup) {paths : List ExpressionIndexedPath}
    (hsub : ∀ idx ∈ indexedCols, idx ∈ t.indexedCols) (hsubp : ∀ e ∈ paths, e ∈ t.expressionIndexes)
    (hrun : MaintainedTable.rewriteRowsForSchemaChange P
      {t with columns := new, indexedCols := indexedCols, expressionIndexes := paths} t.columns moves = .ok t') :
    Tracks P t' := by
  obtain ⟨t₁,hfold,hrun⟩ := bind_ok_iff.mp hrun
  have hstart : Rewriting t.columns moves [] t.rows
      {t with columns := new, indexedCols := indexedCols, expressionIndexes := paths} :=
    ⟨h.agrees.increasing,h.agrees.visible,List.Perm.refl _⟩
  obtain ⟨hdone,rfl,-,hexprs⟩ := hstart.run hfold
  have hrows : t₁.rows.Perm (t.rows.map (moved t.columns t₁.columns moves)) := by
    simpa using hdone.rows
  have htracks := h.rewritten_cols hkept hnew hsub hdone rfl
  split at hrun
  · rename_i hnil
    cases hrun
    rw [isEmpty_iff.mp hnil] at hexprs
    rw [hexprs]
    exact htracks
  · obtain ⟨paths₁,hloc,hrun⟩ := bind_ok_iff.mp hrun
    obtain ⟨paths₂,hbuilt,hrun⟩ := bind_ok_iff.mp hrun
    cases hrun
    have heq : ((indexedCols.filterMap (relocateCol t₁.columns)).map (t₁.rebuildCol P)).map (t₁.rebuildCol P) =
        (indexedCols.filterMap (relocateCol t₁.columns)).map (t₁.rebuildCol P) := by
      refine (map_congr_left fun idx hidx => htracks.agrees.rebuildCol_eq hidx).trans ?_
      exact map_id' _
    have hpaths : ∀ e' ∈ paths₂, columnIndex t₁.columns e'.column = some e'.rootColIdx ∧ FilesPath P t₁.rows e' := by
      intro e' he'
      obtain ⟨e₁,he₁,hok₁⟩ := mem_of_mapM_ok hbuilt he'
      obtain ⟨e,he,hok⟩ := mem_of_mapM_ok hloc he₁
      obtain ⟨c,hc,rfl⟩ := relocatePath_ok hok
      obtain ⟨e'',hfold',hcol,hroot,hfiles⟩ := h.rewritten_path hkept hdone.increasing hrows (hsubp e he) hc
      obtain rfl : e' = e'' := Except.ok.inj (hok₁.symm.trans hfold')
      rw [hcol,hroot]
      exact ⟨hc,hfiles⟩
    obtain ⟨⟨hinc,hvis,htyped,hinline,hints,hfcols,-⟩,hnames,hnamed,-⟩ := htracks
    refine ⟨⟨hinc,hvis,htyped,hinline,?_,?_,fun e he => (hpaths e he).2⟩,hnames,?_,fun e he => (hpaths e he).1⟩
    · exact fun idx hidx => hints idx (heq ▸ hidx)
    · exact fun idx hidx => hfcols idx (heq ▸ hidx)
    · exact fun idx hidx => hnamed idx (heq ▸ hidx)

/-- An empty table in another shape, with every index that is left at the column of its name. -/
lemma reshaped_empty (h : Tracks P t) (hrows : t.rows = []) (hkept : Kept t.columns new)
    (hnew : (new.map ColumnDef.name).Nodup) {paths : List ExpressionIndexedPath}
    (hcols : ∀ idx ∈ indexedCols, idx ∈ t.indexedCols ∧ columnIndex new idx.colName = some idx.colIdx)
    (hpaths : ∀ e ∈ paths, e ∈ t.expressionIndexes ∧ columnIndex new e.column = some e.rootColIdx) :
    Tracks P {t with columns := new, indexedCols := indexedCols, expressionIndexes := paths} where
  agrees := by
    refine ⟨h.agrees.increasing,h.agrees.visible,?_,h.agrees.inline,?_,?_,?_⟩
    · intro c r hr
      rw [hrows] at hr
      cases hr
    · intro idx hidx hint
      obtain ⟨hold,hc⟩ := hcols idx hidx
      have htype : MaintainedTable.columnType {t with columns := new} idx.colIdx = t.columnType idx.colIdx :=
        hkept.columnType (h.cols idx hold) hc
      exact htype.trans (h.agrees.ints idx hold hint)
    · exact fun idx hidx => h.agrees.cols idx (hcols idx hidx).1
    · exact fun e he => h.agrees.paths e (hpaths e he).1
  names := hnew
  cols idx hidx := (hcols idx hidx).2
  roots e he := (hpaths e he).2

lemma columnIndex_append (hc : columnIndex new name = some c) (col : ColumnDef) :
    columnIndex (new++[col]) name = some c := by
  rw [columnIndex,findIdx?_append]
  have hc : new.findIdx? (fun x => decide (x.name = name)) = some c := hc
  rw [hc]
  rfl

lemma addColumn [Exact P.pj1Cmp] (h : Tracks P t) {col : ColumnDef}
    (hrun : t.alterTableAddColumn P col moves = .ok t') : Tracks P t' := by
  rw [alterTableAddColumn] at hrun
  split at hrun
  · cases hrun
  rename_i hfresh
  have hfresh : ∀ col' ∈ t.columns, col'.name ≠ col.name := by
    intro col' hcol' hname
    exact hfresh (any_eq_true.mpr ⟨col',hcol',by simpa using hname⟩)
  split at hrun
  · cases hrun
  have hnew : ((t.columns++[col]).map ColumnDef.name).Nodup := by
    rw [map_append,nodup_append]
    refine ⟨h.names,nodup_singleton _,?_⟩
    intro n hn m hm
    obtain ⟨col',hcol',rfl⟩ := mem_map.mp hn
    rw [mem_singleton.mp hm]
    exact hfresh col' hcol'
  have hkept := kept_append h.names hfresh
  split at hrun
  · rename_i hnil
    cases hrun
    refine h.reshaped_empty (isEmpty_iff.mp hnil) hkept hnew ?_ ?_
    · exact fun idx hidx => ⟨hidx,columnIndex_append (h.cols idx hidx) col⟩
    · exact fun e he => ⟨he,columnIndex_append (h.roots e he) col⟩
  · exact h.rewrite hkept hnew (fun _ hidx => hidx) (fun _ he => he) hrun

/-- A column is dropped from a table with rows, or stands behind all columns with indexes that stay. -/
def DropsBehind (t : MaintainedTable) (name : String) : Prop :=
  t.rows ≠ [] ∨ ∀ c ∈ columnIndex t.columns name,
    (∀ idx ∈ t.indexedCols, idx.colName ≠ name → idx.colIdx < c) ∧
      ∀ e ∈ t.expressionIndexes, e.column ≠ name → e.rootColIdx < c

lemma dropColumn [Exact P.pj1Cmp] (h : Tracks P t) (hbehind : DropsBehind t name)
    (hrun : t.alterTableDropColumn P name moves = .ok t') : Tracks P t' := by
  rw [alterTableDropColumn] at hrun
  split at hrun
  · cases hrun
  rename_i hhas
  have hhas : t.columns.any (·.name = name) = true := by simpa using hhas
  have hnew : ((t.columns.eraseP (·.name = name)).map ColumnDef.name).Nodup :=
    h.names.sublist (eraseP_sublist.map _)
  have hkept := kept_eraseP h.names name
  split at hrun
  · rename_i hnil
    cases hrun
    cases hc : columnIndex t.columns name with
    | none =>
      obtain ⟨col,hcol,hname⟩ := any_eq_true.mp hhas
      exact absurd (of_decide_eq_true hname) (columnIndex_none.mp hc col hcol)
    | some c =>
      have hrows := isEmpty_iff.mp hnil
      obtain ⟨hcols,hpaths⟩ := hbehind.resolve_left (fun hne => hne hrows) c hc
      refine h.reshaped_empty hrows hkept hnew ?_ ?_
      · intro idx hidx
        obtain ⟨hidx,hne⟩ := mem_filter.mp hidx
        exact ⟨hidx,columnIndex_eraseP (h.cols idx hidx) hc (hcols idx hidx (of_decide_eq_true hne))⟩
      · intro e he
        obtain ⟨he,hne⟩ := mem_filter.mp he
        exact ⟨he,columnIndex_eraseP (h.roots e he) hc (hpaths e he (of_decide_eq_true hne))⟩
  · exact h.rewrite hkept hnew (fun _ hidx => (mem_filter.mp hidx).1) (fun _ he => (mem_filter.mp he).1) hrun

lemma of_sameShape (h : Tracks P t) (hshape : SameShape t t') (hagrees : Agrees P t') : Tracks P t' where
  agrees := hagrees
  names := hshape.columns ▸ h.names
  cols idx' hidx' := by
    obtain ⟨idx,hidx,hname,hcol,-⟩ := hshape.cols idx' hidx'
    rw [hshape.columns,hname,hcol]
    exact h.cols idx hidx
  roots e' he' := by
    obtain ⟨e,he,hcol,hroot⟩ := hshape.paths e' he'
    rw [hshape.columns,hcol,hroot]
    exact h.roots e he

end Tracks

/-! ### Runs -/

namespace ColumnCall
open MaintainedTable

/-- Hints are honest, row statements are regular, and no column is dropped from an empty table in
front of a column with an index. -/
def Regular (P : TreeParams) (t : MaintainedTable) : ColumnCall → Prop
  | .rows call => call.Honest t ∧ call.Regular P t
  | .addColumn _ _ => True
  | .dropColumn name _ => Tracks.DropsBehind t name

instance (t : MaintainedTable) (name : String) : Decidable (Tracks.DropsBehind t name) :=
  inferInstanceAs (Decidable (t.rows ≠ [] ∨ _))

instance (P : TreeParams) (t : MaintainedTable) : (c : ColumnCall) → Decidable (c.Regular P t)
  | .rows call => inferInstanceAs (Decidable (call.Honest t ∧ call.Regular P t))
  | .addColumn _ _ => .isTrue trivial
  | .dropColumn name _ => inferInstanceAs (Decidable (Tracks.DropsBehind t name))

end ColumnCall

namespace MaintainedTable
variable {P : TreeParams} {t t₀ t' : MaintainedTable}

def alterStep (P : TreeParams) (t : MaintainedTable) (c : ColumnCall) : Option MaintainedTable := (t.alterCall P c).toOption

lemma alterStep_tracks [Exact P.pj1Cmp] (h : Tracks P t)
    (hreg : c.Regular P t) (hrun : t.alterStep P c = some t') : Tracks P t' := by
  have hok := toOption_eq_some hrun
  cases c with
  | rows call =>
    obtain ⟨hagrees,hshape⟩ := step_keeps h.agrees hreg.1 hreg.2 hrun
    exact h.of_sameShape hshape hagrees
  | addColumn col moves => exact h.addColumn hok
  | dropColumn name moves => exact h.dropColumn hreg hok

/-- Notes get a column in front of nothing, lose their text column, and go on. -/
def notesAltered : List ColumnCall :=
  [.rows (.insert [.int 1,.str "a",.json [7]] (fun _ => false) [] 65536),
    .rows (.insert [.int 2,.str "long",.json [8]] (· = 1) [2,3] 65537),
    .addColumn ⟨"tag",.str,false⟩ fun rid => ⟨fun _ => false,[],rid+196608⟩,
    .rows (.update 262144 [.int 1,.str "b",.json [9],.str "t"] (some [1,2,3]) (fun _ => false) [] 262144),
    .dropColumn "text" fun rid => ⟨fun _ => false,[],rid⟩,
    .rows (.insert [.int 3,.json [5],.empty] (fun _ => false) [] 262146),
    .rows (.delete 262145)]

def notesNow : MaintainedTable := (runSteps (alterStep firstByte) notes notesAltered).getD notes

lemma notes_tracked : Tracks firstByte notes := ⟨notes_fresh,by decide,by decide,by decide⟩

lemma notes_altered : runSteps (alterStep firstByte) notes notesAltered = some notesNow := by
  have hsome : (runSteps (alterStep firstByte) notes notesAltered).isSome = true := by decide +kernel
  obtain ⟨t,ht⟩ := isSome_iff_exists.mp hsome
  rfl

end MaintainedTable
end PowDB.Storage
