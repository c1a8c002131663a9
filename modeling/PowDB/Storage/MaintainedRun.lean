import Mathlib.Data.List.Induction
import PowDB.Lib.Outcome
import PowDB.Lib.Steps
import PowDB.Storage.MaintainedSteps

/-! Every statement on a table keeps its indexes what a rebuild from the heap would make them,
unless it gives an integer for an indexed timestamp, mixes large integers and floats in the keys
of a path, or writes a row while an overflow page is pinned. -/
namespace PowDB.Storage
open Lib List Option ColumnIndex
structure Agrees (P : TreeParams) (t : MaintainedTable) : Prop where
  increasing : Increasing t.rows
  visible : ∀ r ∈ t.rows, ridPage r.2 ∉ t.overflowPages
  typed : ∀ c, FilesCol.Typed (t.columnType c) c t.rows
  inline : ∀ r ∈ t.rows, FilesCol.Inline r.1
  ints : ∀ idx ∈ t.indexedCols, idx.isInt = true → t.columnType idx.colIdx = .int
  cols : ∀ idx ∈ t.indexedCols, FilesCol P t.rows idx
  paths : ∀ e ∈ t.expressionIndexes, FilesPath P t.rows e

/-- No two rows share a key that is not empty. -/
def KeysDistinct (P : TreeParams) (key : HeapRow → Value) (rows : List (HeapRow × ℕ)) : Prop :=
  ∀ r ∈ rows, ∀ r' ∈ rows, P.Same (key r.1) (key r'.1) → r.2 = r'.2

lemma KeysDistinct.append_left
    (h : KeysDistinct P key (rows++[r])) : KeysDistinct P key rows :=
  fun a ha b hb => h a (mem_append_left _ ha) b (mem_append_left _ hb)

namespace ExpressionIndexedPath

/-- The declaration of a path index. -/
def bare (e : ExpressionIndexedPath) : ExpressionIndexedPath := {e with entries := [], held := []}

def SameColumn (e' e : ExpressionIndexedPath) : Prop := e'.column = e.column ∧ e'.rootColIdx = e.rootColIdx

/-- What a path index answers from: its declaration and its entries, but not the separators. -/
def contents (e : ExpressionIndexedPath) : ExpressionIndexedPath := {e with held := []}

end ExpressionIndexedPath

def IndexedCol.SameColumn (idx' idx : IndexedCol) : Prop :=
  idx'.colName = idx.colName ∧ idx'.colIdx = idx.colIdx ∧ idx'.isInt = idx.isInt

/-- No index of the second table is declared otherwise than one of the first. -/
structure SameShape (t t' : MaintainedTable) : Prop where
  columns : t'.columns = t.columns
  cols : ∀ idx' ∈ t'.indexedCols, ∃ idx ∈ t.indexedCols, idx'.SameColumn idx
  paths : ∀ e' ∈ t'.expressionIndexes, ∃ e ∈ t.expressionIndexes, e'.SameColumn e

namespace SameShape
variable {t : MaintainedTable}

lemma refl (t : MaintainedTable) : SameShape t t :=
  ⟨rfl,fun idx hidx => ⟨idx,hidx,rfl,rfl,rfl⟩,fun e he => ⟨e,he,rfl,rfl⟩⟩

lemma trans (h : SameShape t t₁) (h' : SameShape t₁ t₂) : SameShape t t₂ where
  columns := h'.columns.trans h.columns
  cols idx₂ hidx₂ := by
    obtain ⟨idx₁,hidx₁,hname₁,hcol₁,hint₁⟩ := h'.cols idx₂ hidx₂
    obtain ⟨idx,hidx,hname,hcol,hint⟩ := h.cols idx₁ hidx₁
    exact ⟨idx,hidx,hname₁.trans hname,hcol₁.trans hcol,hint₁.trans hint⟩
  paths e₂ he₂ := by
    obtain ⟨e₁,he₁,hcol₁,hroot₁⟩ := h'.paths e₂ he₂
    obtain ⟨e,he,hcol,hroot⟩ := h.paths e₁ he₁
    exact ⟨e,he,hcol₁.trans hcol,hroot₁.trans hroot⟩

/-- Indexes changed one by one, each at its place. -/
lemma map
    (hf : ∀ idx ∈ t.indexedCols, (f idx).SameColumn idx) (hg : ∀ e ∈ t.expressionIndexes, (g e).SameColumn e)
    (rows : List (HeapRow × ℕ)) (overflowPages : List ℕ) (pinned : Option ℕ) :
    SameShape t ⟨t.columns,rows,t.indexedCols.map f,t.expressionIndexes.map g,overflowPages,pinned⟩ := by
  refine ⟨rfl,fun idx' hidx' => ?_,fun e' he' => ?_⟩
  · obtain ⟨idx,hidx,rfl⟩ := mem_map.mp hidx'
    exact ⟨idx,hidx,hf idx hidx⟩
  · obtain ⟨e,he,rfl⟩ := mem_map.mp he'
    exact ⟨e,he,hg e he⟩

end SameShape

/-- What a statement on rows keeps. -/
def Keeps (P : TreeParams) (t t' : MaintainedTable) : Prop := Agrees P t' ∧ SameShape t t'

namespace MaintainedTable
variable {P : TreeParams} {t t' : MaintainedTable} {values : List Value} {spills : ℕ → Bool} {chain : List ℕ} {rid newRid : ℕ}

/-! ### Stored rows -/

lemma columnValue_stored (hlen : values.length = t.columns.length) (c : ℕ) :
    columnValue c (storeRow t.columns spills values).values = storedValue (t.columnType c) (columnValue c values) := by
  have hvalues : (storeRow t.columns spills values).values = KeyedTable.storeRow t.columns values := by
    refine ext_getElem? ?_
    intro i
    rw [HeapRow.values,List.getElem?_map,storeRow,List.getElem?_mapIdx,Option.map_map]
    exact map_id'
  rw [hvalues]
  exact PowDB.Storage.columnValue_storeRow (t := ⟨t.columns,[],[]⟩) hlen c

lemma storeRow_inline (columns : Schema) (spills : ℕ → Bool) (values : List Value) :
    FilesCol.Inline (storeRow columns spills values) := by
  intro v hv hspill
  obtain ⟨i,hi⟩ := mem_iff_getElem?.mp hv
  rw [storeRow,getElem?_mapIdx] at hi
  obtain ⟨w,-,rfl⟩ := map_eq_some_iff.mp hi
  exact (Bool.and_eq_true_iff.mp hspill).2

lemma accepts_iff : t.accepts values = true ↔
    values.length = t.columns.length ∧ ∀ c, Acceptable (t.columnType c) (columnValue c values) := by
  rw [accepts,decide_eq_true_iff]
  refine and_congr_right fun _ => ⟨fun h c => ?_,fun h c _ => h c⟩
  by_cases hc : c < values.length
  · exact h c hc
  · rw [columnValue,getElem?_eq_none (Nat.le_of_not_lt hc)]
    exact .inl rfl

lemma rowAt_some (h : t.rowAt rid = some row) : (row,rid) ∈ t.rows := mem_of_find_number h

lemma rowAt_none (h : t.rowAt rid = none) : ∀ r ∈ t.rows, r.2 ≠ rid := by
  rw [rowAt,map_eq_none_iff,find?_eq_none] at h
  intro r hr heq
  exact h r hr (by simp [heq])

/-! ### Keys of a statement -/

/-- No indexed timestamp is given as an integer. -/
def Timestamps (t : MaintainedTable) (values : List Value) : Prop :=
  ∀ idx ∈ t.indexedCols, t.columnType idx.colIdx = .dateTime → (columnValue idx.colIdx values).typeId ≠ .int

/-- The keys of the given values can be told apart from all that the trees have held. -/
def KeysOrdered (P : TreeParams) (t : MaintainedTable) (values : List Value) : Prop :=
  ∀ e ∈ t.expressionIndexes, ∀ key ∈ (expressionKey P e.canonicalText (columnValue e.rootColIdx values)).toOption,
    key ≠ .empty → Ordered P (key::e.held)

/-- A hint names every column whose value changes; it is given for rows that are there. -/
def Honest (t : MaintainedTable) (rid : ℕ) (values : List Value) : Option (List ℕ) → Prop
  | none => True
  | some changed => ∃ row ∈ t.rowAt rid, ∀ c < t.columns.length, c ∉ changed →
      columnValue c values = columnValue c row.values

lemma storedValue_of_timestamps (hacc : t.accepts values = true) (ht : t.Timestamps values)
    (hidx : idx ∈ t.indexedCols) :
    storedValue (t.columnType idx.colIdx) (columnValue idx.colIdx values) = columnValue idx.colIdx values := by
  rcases (accepts_iff.mp hacc).2 idx.colIdx with he | htype | ⟨htype,hint⟩
  · rw [he]
    rfl
  · exact storedValue_of_typeId htype
  · exact absurd hint (ht idx hidx htype)

lemma value_typed (hacc : t.accepts values = true) (ht : t.Timestamps values)
    (hidx : idx ∈ t.indexedCols) :
    columnValue idx.colIdx values = .empty ∨ (columnValue idx.colIdx values).typeId = t.columnType idx.colIdx := by
  rcases (accepts_iff.mp hacc).2 idx.colIdx with he | htype | ⟨htype,hint⟩
  · exact .inl he
  · exact .inr htype
  · exact absurd hint (ht idx hidx htype)

lemma expressionKey_stored (type : TypeId) (h : expressionKey P text v = .ok key) :
    expressionKey P text (storedValue type v) = .ok key := by
  cases v <;> first | exact h | exact nomatch h

/-- The key of given values; it is used only where there is one. -/
def givenKey (P : TreeParams) (values : List Value) (e : ExpressionIndexedPath) : Value :=
  (expressionKey P e.canonicalText (columnValue e.rootColIdx values)).toOption.getD .empty

lemma expressionKeys_ok {keys : List Value} (h : t.expressionKeys P values = .ok keys) :
    keys = t.expressionIndexes.map (givenKey P values) ∧
      ∀ e ∈ t.expressionIndexes, expressionKey P e.canonicalText (columnValue e.rootColIdx values) =
        .ok (givenKey P values e) :=
  mapM_ok Value.empty h

lemma KeysOrdered.givenKey (h : t.KeysOrdered P values) (he : e ∈ t.expressionIndexes)
    (hkey : expressionKey P e.canonicalText (columnValue e.rootColIdx values) = .ok (givenKey P values e))
    (hne : MaintainedTable.givenKey P values e ≠ .empty) : Ordered P (MaintainedTable.givenKey P values e::e.held) := by
  refine h e he _ ?_ hne
  rw [hkey]
  rfl

/-! ### Rows taken out together -/


/-- A tree of integers holds integers, and its column has them in the rows. -/
structure IntKeys (t : MaintainedTable) : Prop where
  inline : ∀ r ∈ t.rows, FilesCol.Inline r.1
  typed : ∀ idx ∈ t.indexedCols, idx.isInt = true → FilesCol.Typed .int idx.colIdx t.rows
  entries : ∀ idx ∈ t.indexedCols, idx.isInt = true → ∀ x ∈ idx.entries, x.1.typeId = .int

lemma IntKeys.sweepInts_map (h : IntKeys t) (hall : t.allIntUnique = true) (hsub : ∀ r ∈ victims, r ∈ t.rows) :
    t.indexedCols.map (sweepInts victims) = t.indexedCols.map (·.dropRows P victims) := by
  refine map_congr_left fun idx hidx => ?_
  obtain ⟨hint,hu⟩ := Bool.and_eq_true_iff.mp (all_eq_true.mp hall idx hidx)
  exact FilesCol.sweepInts_eq hu (h.entries idx hidx hint) (fun r hr => h.inline r (hsub r hr))
    fun r hr => h.typed idx hidx hint r (hsub r hr)

/-- The entries collected in a scan are those of the victims, first the ones read from the rows. -/
lemma deleteCollected_eq (victims : List (HeapRow × ℕ)) (idx : IndexedCol) :
    deleteCollected P victims idx = idx.dropRows P victims := by
  have hinline : ∀ i : ColumnIndex, (((victims.filter fun r => !rawStub idx.colIdx r.1).map
        fun r => (decodeColumn idx.colIdx r.1,r.2)).filter (fun x => !x.1.isEmpty)).foldl
          (fun i x => i.delete P.cmp x.1 x.2) i =
      (victims.filter fun r => !rawStub idx.colIdx r.1).foldl
        (fun i r => i.delete P.cmp (columnValue idx.colIdx r.1.values) r.2) i := by
    intro i
    rw [foldl_filter,foldl_map]
    apply foldl_ext _ _ _
    intro i r hr
    have hstub : rawStub idx.colIdx r.1 = false := by simpa using (mem_filter.mp hr).2
    rw [FilesCol.decodeColumn_of_not_stub hstub]
    by_cases he : (columnValue idx.colIdx r.1.values).isEmpty = true
    · simp [ColumnIndex.delete,he]
    · simp [he]
  rw [deleteCollected,collected,foldl_append,hinline,foldl_map,← foldl_append,idx.foldl_dropRows]
  rw [IndexedCol.dropRows,passing_congr fun r => ?_]
  · rfl
  · rw [mem_append,mem_filter,mem_filter,← and_or_left,and_iff_left]
    cases rawStub idx.colIdx r.1 <;> simp

lemma IntKeys.scanned (h : IntKeys t) (pred : HeapRow → Bool) :
    t.indexedCols.map (if t.allIntUnique then sweepInts (t.rows.filter fun r => pred r.1)
      else deleteCollected P (t.rows.filter fun r => pred r.1)) =
      t.indexedCols.map (·.dropRows P (t.rows.filter fun r => pred r.1)) := by
  split_ifs with hall
  · exact h.sweepInts_map hall fun r hr => (mem_filter.mp hr).1
  · exact map_congr_left fun idx _ => deleteCollected_eq _ idx

/-! ### Rows put into the table -/

lemma visible_chain (hvis : ∀ r ∈ t.rows, ridPage r.2 ∉ t.overflowPages) (hchain : t.mayChain chain = true)
    (hr : r ∈ t.rows) : ridPage r.2 ∉ chain++t.overflowPages := by
  intro hmem
  rcases mem_append.mp hmem with hmem | hmem
  · have hp := all_eq_true.mp hchain _ hmem
    simp only [Bool.or_eq_true,decide_eq_true_iff,Bool.and_eq_true,Bool.not_eq_true'] at hp
    rcases hp with hp | ⟨hp,-⟩
    · exact hvis r hr hp
    · rw [List.any_eq_false] at hp
      exact hp r hr (by simp)
  · exact hvis r hr hmem

lemma putRow_visible (row : HeapRow) (h : ridPage rid ∉ t.overflowPages) : t.putRow row rid = insertNumbered (row,rid) t.rows :=
  if_neg h

lemma mayPlace_ok {pinned : Option ℕ} (h : ¬(!t.mayPlace pinned rid) = true) :
    (∀ r ∈ t.rows, r.2 ≠ rid) ∧ (ridPage rid ∉ t.overflowPages ∨ pinned = some (ridPage rid)) := by
  simpa only [mayPlace,Bool.not_eq_true',Bool.not_eq_false,Bool.and_eq_true,Bool.or_eq_true,decide_eq_true_iff,
    List.any_eq_false] using h

end MaintainedTable

namespace Agrees
open MaintainedTable
variable {P : TreeParams} {t t' : MaintainedTable} {values : List Value} {spills : ℕ → Bool} {chain : List ℕ} {rid newRid : ℕ}
  {rows : List (HeapRow × ℕ)} {keys : List Value} {row : HeapRow} {idx : IndexedCol}
  {e : ExpressionIndexedPath}

/-- Other rows, with every index changed to file them. -/
lemma refile (h : Agrees P t) (f : IndexedCol → IndexedCol)
    (g : ExpressionIndexedPath → ExpressionIndexedPath) (hinc : Increasing rows)
    (hrows : ∀ r ∈ rows, ridPage r.2 ∉ pages ∧ FilesCol.Inline r.1 ∧
      ∀ c, columnValue c r.1.values = .empty ∨ (columnValue c r.1.values).typeId = t.columnType c)
    (hf : ∀ idx ∈ t.indexedCols, (f idx).SameColumn idx ∧ FilesCol P rows (f idx))
    (hg : ∀ e ∈ t.expressionIndexes, (g e).SameColumn e ∧ FilesPath P rows (g e)) (pinned : Option ℕ) :
    Keeps P t ⟨t.columns,rows,t.indexedCols.map f,t.expressionIndexes.map g,pages,pinned⟩ := by
  refine ⟨⟨hinc,fun r hr => (hrows r hr).1,fun c r hr => (hrows r hr).2.2 c,fun r hr => (hrows r hr).2.1,fun idx hidx => ?_,
    fun idx hidx => ?_,fun e he => ?_⟩,.map (fun idx hidx => (hf idx hidx).1) (fun e he => (hg e he).1) _ _ _⟩
  · obtain ⟨idx,hmem,rfl⟩ := mem_map.mp hidx
    rw [(hf idx hmem).1.2.1,(hf idx hmem).1.2.2]
    exact h.ints idx hmem
  · obtain ⟨idx,hmem,rfl⟩ := mem_map.mp hidx
    exact (hf idx hmem).2
  · obtain ⟨e,hmem,rfl⟩ := mem_map.mp he
    exact (hg e hmem).2

/-- A row put into a table beside some of its rows. -/
lemma place (h : Agrees P t) (spills : ℕ → Bool) (rid : ℕ) (f : IndexedCol → IndexedCol)
    (g : ExpressionIndexedPath → ExpressionIndexedPath) (hsub : ∀ r ∈ rows, r ∈ t.rows) (hinc : Increasing rows)
    (hacc : t.accepts values = true) (hrid : ∀ r ∈ rows, r.2 ≠ rid) (hchain : t.mayChain chain = true)
    (hpage : ridPage rid ∉ chain++t.overflowPages)
    (hf : ∀ idx ∈ t.indexedCols, (f idx).SameColumn idx ∧
      FilesCol P (insertNumbered (storeRow t.columns spills values,rid) rows) (f idx))
    (hg : ∀ e ∈ t.expressionIndexes, (g e).SameColumn e ∧
      FilesPath P (insertNumbered (storeRow t.columns spills values,rid) rows) (g e)) (pinned : Option ℕ) :
    Keeps P t ⟨t.columns,insertNumbered (storeRow t.columns spills values,rid) rows,t.indexedCols.map f,
      t.expressionIndexes.map g,chain++t.overflowPages,pinned⟩ := by
  refine h.refile f g (hinc.insertNumbered hrid) (fun r hr => ?_) hf hg pinned
  rcases mem_insertNumbered.mp hr with rfl | hr
  · refine ⟨hpage,storeRow_inline _ _ _,fun c => ?_⟩
    rw [columnValue_stored (accepts_iff.mp hacc).1]
    exact storedValue_typed ((accepts_iff.mp hacc).2 c)
  · have hr := hsub r hr
    exact ⟨visible_chain h.visible hchain hr,h.inline r hr,fun c => h.typed c r hr⟩

lemma mem_zip_map {α β : Type} {xs : List α} {x : α} (hx : x ∈ xs) (k : α → β) : (x,k x) ∈ xs.zip (xs.map k) := by
  rw [zip_map_right]
  refine mem_map.mpr ⟨(x,x),?_,rfl⟩
  rw [zip,zipWith_self]
  exact mem_map.mpr ⟨x,hx,rfl⟩

lemma preflightInsert_ok (h : t.preflightInsert P values = .ok keys) :
    (∀ idx ∈ t.indexedCols, idx.unique = true → columnValue idx.colIdx values ≠ .empty →
      idx.lookup P.cmp (columnValue idx.colIdx values) = none) ∧
    t.expressionKeys P values = .ok keys ∧
    ∀ e ∈ t.expressionIndexes, e.unique = true → givenKey P values e ≠ .empty →
      e.lookup P (givenKey P values e) = none := by
  rw [preflightInsert] at h
  split at h
  · cases h
  · rename_i hcols
    obtain ⟨keys',hkeys,h⟩ := bind_ok_iff.mp h
    split at h
    · cases h
    · rename_i hpaths
      cases h
      refine ⟨?_,hkeys,?_⟩
      · intro idx hidx hu hne
        have hcol := find?_eq_none.mp hcols idx hidx
        simpa [hu,hne] using hcol
      · intro e he hu hne
        rw [(expressionKeys_ok hkeys).1] at hpaths
        have hpath := find?_eq_none.mp hpaths _ (mem_zip_map he _)
        simpa [hu,hne] using hpath

lemma add_column (e : ExpressionIndexedPath) (key : Value) (rid : ℕ) : (e.add P key rid).SameColumn e := by
  rw [ExpressionIndexedPath.add]
  split_ifs <;> exact ⟨rfl,rfl⟩

lemma insert [Exact P.pj1Cmp] (h : Agrees P t) (htime : t.Timestamps values)
    (hkeys : t.KeysOrdered P values) (hpin : ∀ p ∈ t.pinned, p ∉ t.overflowPages)
    (hrun : t.insert P values spills chain rid = .ok t') : Keeps P t t' := by
  rw [MaintainedTable.insert] at hrun
  split at hrun
  · exact nomatch hrun
  rename_i hacc
  have hacc : t.accepts values = true := by simpa using hacc
  obtain ⟨keys,hpre,hrun⟩ := bind_ok_iff.mp hrun
  split_ifs at hrun with hchain
  have hchain : t.mayChain chain = true := by simpa using hchain
  dsimp only at hrun
  split_ifs at hrun with hplace
  cases hrun
  obtain ⟨hcols,hexpr,hpaths⟩ := preflightInsert_ok hpre
  obtain ⟨rfl,hok⟩ := expressionKeys_ok hexpr
  obtain ⟨hrid,hplace⟩ := mayPlace_ok hplace
  have hpage : ridPage rid ∉ chain++t.overflowPages := by
    rcases hplace with hplace | hplace
    · exact hplace
    · have hout := hpin _ hplace
      intro hmem
      rcases mem_append.mp hmem with hmem | hmem
      · have hp := all_eq_true.mp hchain _ hmem
        simp [hout,hplace] at hp
      · exact hout hmem
  have hstored : ∀ c, columnValue c (storeRow t.columns spills values).values =
      storedValue (t.columnType c) (columnValue c values) := columnValue_stored (accepts_iff.mp hacc).1
  have hzip : addKeys P t.expressionIndexes (t.expressionIndexes.map (givenKey P values)) rid =
      t.expressionIndexes.map fun e => e.add P (givenKey P values e) rid := by
    rw [addKeys,zipWith_map_right,zipWith_self]
  rw [putRow_visible _ hpage,hzip]
  refine h.place spills rid _ _ (fun _ hr => hr) h.increasing hacc hrid hchain hpage ?_ ?_ _
  · intro idx hidx
    refine ⟨⟨rfl,insert_colIdx _ _ _ _,rfl⟩,?_⟩
    refine (h.cols idx hidx).insert h.increasing (h.typed _) ?_ (value_typed hacc htime hidx) ?_ rid
    · exact (hstored idx.colIdx).trans (storedValue_of_timestamps hacc htime hidx)
    · intro hu hne
      exact FilesCol.fresh_of_lookup (hcols idx hidx hu hne)
  · intro e he
    refine ⟨add_column _ _ _,(h.paths e he).add h.increasing hrid ?_ (hkeys.givenKey he (hok e he)) ?_⟩
    · rw [hstored]
      exact expressionKey_stored _ (hok e he)
    · intro hu hne
      exact FilesPath.fresh_of_lookup (hkeys.givenKey he (hok e he) hne) (hpaths e he hu hne)

/-! ### Updates -/

lemma filter_missing (hrow : t.rowAt rid = none) : t.rows.filter (·.2 ≠ rid) = t.rows :=
  filter_eq_self.mpr fun r hr => by simpa using rowAt_none hrow r hr

/-- A row is there if there is a path to read. -/
lemma expressionKeysAt_none (h : t.expressionKeysAt P rid = .ok keys) (hrow : t.rowAt rid = none) :
    t.expressionIndexes = [] ∧ keys = [] := by
  rw [expressionKeysAt,hrow] at h
  split_ifs at h with hnil
  cases h
  exact ⟨isEmpty_iff.mp hnil,rfl⟩

lemma expressionKeysAt_row (h : t.expressionKeysAt P rid = .ok keys) (hrow : t.rowAt rid = some row) :
    keys = t.expressionIndexes.map (givenKey P row.values) := by
  rw [expressionKeysAt,hrow] at h
  split_ifs at h with hnil
  · cases h
    rw [isEmpty_iff.mp hnil]
    rfl
  · exact (expressionKeys_ok h).1

lemma preflightUpdate_ok (h : t.preflightUpdate P rid values = .ok ()) :
    (∀ idx ∈ t.indexedCols, idx.unique = true → columnValue idx.colIdx values ≠ .empty →
      (∀ row, t.rowAt rid = some row → columnValue idx.colIdx row.values ≠ columnValue idx.colIdx values) →
      (idx.lookup P.cmp (columnValue idx.colIdx values)).any (· != rid) = false) ∧
    ∀ row, t.rowAt rid = some row → ∀ e ∈ t.expressionIndexes, e.unique = true → givenKey P values e ≠ .empty →
      givenKey P row.values e ≠ givenKey P values e → (e.lookup P (givenKey P values e)).any (· != rid) = false := by
  rw [preflightUpdate] at h
  split at h
  · cases h
  · rename_i hcols
    obtain ⟨newKeys,hnew,h⟩ := bind_ok_iff.mp h
    obtain ⟨oldKeys,hold,h⟩ := bind_ok_iff.mp h
    split at h
    · cases h
    · rename_i hpaths
      refine ⟨?_,?_⟩
      · intro idx hidx hu hne hold
        have hcol := find?_eq_none.mp hcols idx hidx
        have hany : (t.rowAt rid).any (fun row => decide (columnValue idx.colIdx row.values =
            columnValue idx.colIdx values)) = false := by
          cases hrow : t.rowAt rid with
          | none => rfl
          | some row => simpa using hold row hrow
        simpa only [hu,hany,isEmpty_eq_false.mpr hne,Bool.not_false,Bool.true_and,Bool.not_eq_true] using hcol
      · intro row hrow e he hu hne hdiff
        rw [expressionKeysAt_row hold hrow,(expressionKeys_ok hnew).1,zip_map'] at hpaths
        have hpath := find?_eq_none.mp hpaths _ (mem_zip_map he _)
        simpa [hu,hne,hdiff] using hpath

/-- The column index of a row that is written anew. -/
lemma moved_col [Exact P.pj1Cmp] (h : Agrees P t)
    (hr : (row,rid) ∈ t.rows) (hidx : idx ∈ t.indexedCols)
    (hnew : columnValue idx.colIdx new.values = columnValue idx.colIdx values)
    (htyped : columnValue idx.colIdx values = .empty ∨ (columnValue idx.colIdx values).typeId = t.columnType idx.colIdx)
    (htouches : touches = false → columnValue idx.colIdx values = columnValue idx.colIdx row.values)
    (hown : idx.unique = true → columnValue idx.colIdx values ≠ .empty →
      columnValue idx.colIdx row.values ≠ columnValue idx.colIdx values →
      (idx.lookup P.cmp (columnValue idx.colIdx values)).any (· != rid) = false) (newRid : ℕ) :
    (moveEntry P touches (some row) values rid newRid idx).SameColumn idx ∧
    FilesCol P (insertNumbered (new,newRid) (t.rows.filter (·.2 ≠ rid)))
      (moveEntry P touches (some row) values rid newRid idx) := by
  have hcol := h.cols idx hidx
  have hcol' : moveEntry P touches (some row) values rid newRid idx =
      {idx with toColumnIndex := KeyedTable.moveEntry P.cmp touches row.values values rid newRid idx.toColumnIndex} := rfl
  rw [hcol']
  rcases moveEntry_cases P.cmp rid newRid htouches with ⟨hkeep,hsame,rfl⟩ | hmove
  · rw [hkeep]
    exact ⟨⟨rfl,rfl,rfl⟩,hcol.replace h.increasing hr (hnew.trans hsame)⟩
  · have hdel := hcol.delete h.increasing (h.typed _) hr
    rw [delete_eq] at hdel
    rw [hmove,delete_eq]
    refine ⟨⟨rfl,insert_colIdx _ _ _ _,rfl⟩,?_⟩
    refine hdel.insert (h.increasing.filter _) (fun r hr => h.typed _ r (mem_filter.mp hr).1) hnew htyped ?_ newRid
    intro hu hne x hx hcmp
    obtain ⟨hx,hxrid⟩ := hcol.filed.mem_rest hdel.filed hx
    by_cases hold : columnValue idx.colIdx row.values = columnValue idx.colIdx values
    · have hmem : (columnValue idx.colIdx row.values,rid) ∈ idx.entries :=
        hcol.mem_entries.mpr ⟨(row,rid),hr,⟨hold ▸ hne,rfl⟩,rfl⟩
      exact hcol.filed.unlike hu hx hmem hxrid ⟨P.ne_empty hcmp hne,hold ▸ hcmp⟩
    · exact hcol.fresh_of_lookup_own (h.typed _) hu (htyped.resolve_left hne) (hown hu hne hold) x hx hxrid hcmp

/-- The path index of a row that is written anew. -/
lemma moved_path (h : Agrees P t) (hr : (row,rid) ∈ t.rows)
    (hrid : ∀ r ∈ t.rows.filter (·.2 ≠ rid), r.2 ≠ newRid) (he : e ∈ t.expressionIndexes)
    (hkey : expressionKey P e.canonicalText (columnValue e.rootColIdx new.values) = .ok key)
    (hord : key ≠ .empty → Ordered P (key::e.held))
    (hown : e.unique = true → key ≠ .empty → givenKey P row.values e ≠ key → (e.lookup P key).any (· != rid) = false) :
    (moveKey P rid newRid e (givenKey P row.values e,key)).SameColumn e ∧
      FilesPath P (insertNumbered (new,newRid) (t.rows.filter (·.2 ≠ rid)))
        (moveKey P rid newRid e (givenKey P row.values e,key)) := by
  have hpath := h.paths e he
  rw [moveKey]
  split_ifs with hsame
  · obtain ⟨hold,rfl⟩ := hsame
    exact ⟨⟨rfl,rfl⟩,hpath.replace h.increasing hr (hkey.trans (congrArg Except.ok hold.symm))⟩
  · have hrem := hpath.remove h.increasing hr
    refine ⟨add_column _ _ _,hrem.add (h.increasing.filter _) hrid hkey hord ?_⟩
    intro hu hne x hx hcmp
    obtain ⟨hx,hxrid⟩ := hpath.filed.mem_rest hrem.filed hx
    by_cases hold : givenKey P row.values e = key
    · have hmem : (givenKey P row.values e,rid) ∈ e.entries := hpath.mem_entries.mpr ⟨(row,rid),hr,rfl,rfl⟩
      exact hpath.filed.unlike hu hx hmem hxrid ⟨P.ne_empty hcmp hne,hold ▸ hcmp⟩
    · exact hpath.fresh_of_lookup_own hu hne (hord hne) (hown hu hne hold) x hx hxrid hcmp

lemma columnValue_beyond (h : Agrees P t) (hr : (row,rid) ∈ t.rows) (hc : t.columns.length ≤ c) :
    columnValue c row.values = .empty := by
  have htype : t.columnType c = .empty := by rw [columnType,getElem?_eq_none hc]; rfl
  rcases h.typed c (row,rid) hr with he | ht
  · exact he
  · rw [htype] at ht
    cases hv : columnValue c row.values <;> rw [hv] at ht <;> first | exact nomatch ht

/-- Indexes that are not touched belong to columns whose values stay. -/
lemma unchanged_of_not_touches (h : Agrees P t) (hacc : t.accepts values = true)
    (hhonest : Honest t rid values changed) (hrow : t.rowAt rid = some row) (hidx : idx ∈ t.indexedCols)
    (htouches : t.touchesIndex changed = false) :
    columnValue idx.colIdx values = columnValue idx.colIdx row.values := by
  cases changed with
  | none =>
    rw [touchesIndex,Bool.not_eq_false',List.isEmpty_iff] at htouches
    rw [htouches] at hidx
    exact nomatch hidx
  | some changed =>
    obtain ⟨row',hrow',hsame⟩ := hhonest
    rw [hrow] at hrow'
    cases hrow'
    by_cases hc : idx.colIdx < t.columns.length
    · have hout := any_eq_false.mp htouches idx hidx
      exact hsame _ hc (by simpa using hout)
    · have hlen := (accepts_iff.mp hacc).1
      rw [h.columnValue_beyond (rowAt_some hrow) (Nat.le_of_not_lt hc),columnValue,
        getElem?_eq_none (by omega)]
      rfl

lemma touches_of_missing (hhonest : Honest t rid values changed) (hrow : t.rowAt rid = none)
    (hidx : idx ∈ t.indexedCols) : t.touchesIndex changed = true := by
  cases changed with
  | none => simpa [touchesIndex] using ne_nil_of_mem hidx
  | some changed =>
    obtain ⟨row,hrow',-⟩ := hhonest
    rw [hrow] at hrow'
    cases hrow'

/-- The column index of a row that was not there. -/
lemma missing_col [Exact P.pj1Cmp] (h : Agrees P t)
    (hnone : t.rowAt rid = none) (hidx : idx ∈ t.indexedCols)
    (hnew : columnValue idx.colIdx new.values = columnValue idx.colIdx values)
    (htyped : columnValue idx.colIdx values = .empty ∨ (columnValue idx.colIdx values).typeId = t.columnType idx.colIdx)
    (hown : idx.unique = true → columnValue idx.colIdx values ≠ .empty →
      (idx.lookup P.cmp (columnValue idx.colIdx values)).any (· != rid) = false) (newRid : ℕ) :
    (moveEntry P true none values rid newRid idx).SameColumn idx ∧
    FilesCol P (insertNumbered (new,newRid) t.rows) (moveEntry P true none values rid newRid idx) := by
  refine ⟨⟨rfl,insert_colIdx _ _ _ _,rfl⟩,?_⟩
  refine (h.cols idx hidx).insert h.increasing (h.typed _) hnew htyped ?_ newRid
  intro hu hne x hx
  obtain ⟨r,hr,-,hnum⟩ := (h.cols idx hidx).mem_entries.mp hx
  have hxrid : x.2 ≠ rid := hnum ▸ rowAt_none hnone r hr
  exact (h.cols idx hidx).fresh_of_lookup_own (h.typed _) hu (htyped.resolve_left hne) (hown hu hne) x hx hxrid

lemma update [Exact P.pj1Cmp] (h : Agrees P t) (htime : t.Timestamps values)
    (hkeys : t.KeysOrdered P values) (hhonest : Honest t rid values changed)
    (hmissing : t.rowAt rid = none → ridPage rid ∉ chain++t.overflowPages)
    (hrun : t.update P rid values changed spills chain newRid = .ok t') : Keeps P t t' := by
  rw [MaintainedTable.update] at hrun
  split at hrun
  · exact nomatch hrun
  rename_i hacc
  have hacc : t.accepts values = true := by simpa using hacc
  obtain ⟨_,hpre,hrun⟩ := bind_ok_iff.mp hrun
  obtain ⟨oldKeys,hold,hrun⟩ := bind_ok_iff.mp hrun
  obtain ⟨newKeys,hexpr,hrun⟩ := bind_ok_iff.mp hrun
  split_ifs at hrun with hchain
  have hchain : t.mayChain chain = true := by simpa using hchain
  dsimp only at hrun
  split_ifs at hrun with hplace
  cases hrun
  obtain ⟨hcols,hpaths⟩ := preflightUpdate_ok hpre
  obtain ⟨rfl,hok⟩ := expressionKeys_ok hexpr
  obtain ⟨hrid,hplace⟩ := mayPlace_ok hplace
  have hrid : ∀ r ∈ t.rows.filter (·.2 ≠ rid), r.2 ≠ newRid := hrid
  have hold_page : ridPage rid ∉ chain++t.overflowPages := by
    cases hrow : t.rowAt rid with
    | none => exact hmissing hrow
    | some row => exact visible_chain h.visible hchain (rowAt_some hrow)
  have hpage : ridPage newRid ∉ chain++t.overflowPages := by
    rcases hplace with hplace | hplace
    · exact hplace
    · rwa [← some.inj hplace]
  have hstored : ∀ c, columnValue c (storeRow t.columns spills values).values =
      storedValue (t.columnType c) (columnValue c values) := columnValue_stored (accepts_iff.mp hacc).1
  rw [putRow_visible _ hpage]
  cases hrow : t.rowAt rid with
  | none =>
    obtain ⟨hnil,rfl⟩ := expressionKeysAt_none hold hrow
    have hall := filter_missing hrow
    have hexprs : zipWith (moveKey P rid newRid) t.expressionIndexes
        ([].zip (t.expressionIndexes.map (givenKey P values))) = t.expressionIndexes.map id := by
      rw [hnil]
      rfl
    rw [hall] at hrid
    rw [hall,hexprs]
    refine h.place spills newRid _ _ (fun _ hr => hr) h.increasing hacc hrid hchain hpage ?_ ?_ _
    · intro idx hidx
      rw [touches_of_missing hhonest hrow hidx]
      refine h.missing_col hrow hidx ?_ (value_typed hacc htime hidx) ?_ newRid
      · exact (hstored idx.colIdx).trans (storedValue_of_timestamps hacc htime hidx)
      · intro hu hne
        exact hcols idx hidx hu hne fun row hrow' => nomatch hrow.symm.trans hrow'
    · rw [hnil]
      exact fun _ he => nomatch he
  | some row =>
    have hr := rowAt_some hrow
    rw [expressionKeysAt_row hold hrow,zip_map',zipWith_map_right,zipWith_self]
    refine h.place spills newRid _ _ (fun _ hr => (mem_filter.mp hr).1) (h.increasing.filter _) hacc hrid hchain hpage ?_ ?_ _
    · intro idx hidx
      refine h.moved_col hr hidx ?_ (value_typed hacc htime hidx)
        (h.unchanged_of_not_touches hacc hhonest hrow hidx) ?_ newRid
      · exact (hstored idx.colIdx).trans (storedValue_of_timestamps hacc htime hidx)
      · intro hu hne hdiff
        refine hcols idx hidx hu hne ?_
        intro row' hrow'
        rw [hrow] at hrow'
        rwa [← some.inj hrow']
    · intro e he
      refine h.moved_path hr hrid he ?_ (hkeys.givenKey he (hok e he)) (hpaths row hrow e he)
      rw [hstored]
      exact expressionKey_stored _ (hok e he)

/-! ### Deletes -/

/-- A table that keeps some of its rows, with every index rid of the others. -/
lemma thin (h : Agrees P t) (q : HeapRow × ℕ → Bool) (f : IndexedCol → IndexedCol)
    (g : ExpressionIndexedPath → ExpressionIndexedPath)
    (hf : ∀ idx ∈ t.indexedCols, (f idx).SameColumn idx ∧ FilesCol P (t.rows.filter q) (f idx))
    (hg : ∀ e ∈ t.expressionIndexes, (g e).SameColumn e ∧ FilesPath P (t.rows.filter q) (g e)) (pinned : Option ℕ) :
    Keeps P t ⟨t.columns,t.rows.filter q,t.indexedCols.map f,t.expressionIndexes.map g,t.overflowPages,pinned⟩ := by
  refine h.refile f g (h.increasing.filter _) (fun r hr => ?_) hf hg pinned
  have hr := (mem_filter.mp hr).1
  exact ⟨h.visible r hr,h.inline r hr,fun c => h.typed c r hr⟩

/-- Keys read from the row and keys read from overflow pages come to the same. -/
lemma deleteEntries_eq (row : HeapRow) (rid : ℕ) (cols : List IndexedCol) :
    deleteEntries P row rid cols = cols.map fun idx =>
      {idx with toColumnIndex := idx.toColumnIndex.delete P.cmp (columnValue idx.colIdx row.values) rid} := by
  rw [deleteEntries,List.map_map]
  refine List.map_congr_left ?_
  intro idx _
  by_cases hstub : rawStub idx.colIdx row = true
  · simp [deleteInline,deleteDeferred,hstub]
  · have hstub : rawStub idx.colIdx row = false := by simpa using hstub
    simp [deleteInline,deleteDeferred,hstub,FilesCol.decodeColumn_of_not_stub hstub]

lemma delete [Exact P.pj1Cmp] (h : Agrees P t) (hrun : t.delete P rid = .ok t') : Keeps P t t' := by
  obtain ⟨keys,hkeys,hrun⟩ := bind_ok_iff.mp hrun
  cases hrun
  cases hrow : t.rowAt rid with
  | none =>
    obtain ⟨hnil,rfl⟩ := expressionKeysAt_none hkeys hrow
    have hthin := h.thin (·.2 ≠ rid) id id ?_ ?_ (some (ridPage rid))
    · rw [List.map_id,List.map_id,hnil] at hthin
      rw [hnil]
      exact hthin
    · intro idx hidx
      rw [filter_missing hrow]
      exact ⟨⟨rfl,rfl,rfl⟩,h.cols idx hidx⟩
    · rw [hnil]
      exact fun _ he => nomatch he
  | some row =>
    have hr := rowAt_some hrow
    rw [expressionKeysAt_row hkeys hrow,zipWith_map_right,zipWith_self,map_some,getD_some,
      deleteEntries_eq]
    refine h.thin (·.2 ≠ rid) _ _ ?_ ?_ _
    · intro idx hidx
      exact ⟨⟨rfl,by simp,rfl⟩,(h.cols idx hidx).delete h.increasing (h.typed _) hr⟩
    · intro e he
      exact ⟨⟨rfl,rfl⟩,(h.paths e he).remove h.increasing hr⟩

lemma deleteEach [Exact P.pj1Cmp] (h : Agrees P t)
    (hrun : t.deleteEach P rids = .ok t') : Keeps P t t' := by
  refine foldlM_inv (fun b _ b' (hb : Keeps P t b) hrun => show Keeps P t b' from ?_) ⟨h,.refl t⟩ hrun
  obtain ⟨hb',hshape⟩ := hb.1.delete hrun
  exact ⟨hb',hb.2.trans hshape⟩

lemma takeRows_spec (hinc : Increasing rows) (rids : List ℕ) :
    (takeRows rows rids).2 = rows.filter (fun r => decide (r.2 ∉ rids)) ∧
      ∀ r, r ∈ (takeRows rows rids).1 ↔ r ∈ rows ∧ decide (r.2 ∉ rids) = false := by
  induction rids generalizing rows with
  | nil => simp [takeRows]
  | cons rid rids ih =>
    rw [filter_not_mem_cons,takeRows]
    cases hfind : rows.find? (·.2 = rid) with
    | none =>
      have hout : ∀ r ∈ rows, r.2 ≠ rid := fun r hr => by simpa using find?_eq_none.mp hfind r hr
      have hall : rows.filter (·.2 ≠ rid) = rows := filter_eq_self.mpr fun r hr => by simpa using hout r hr
      rw [hall]
      refine ⟨(ih hinc).1,?_⟩
      intro r
      rw [(ih hinc).2]
      refine and_congr_right fun hr => ?_
      simp [hout r hr]
    | some r₀ =>
      have hr₀ : r₀.2 = rid := by simpa using find?_some hfind
      have hmem := mem_of_find?_eq_some hfind
      obtain ⟨hrest,htaken⟩ := ih (hinc.filter (·.2 ≠ rid))
      refine ⟨hrest,?_⟩
      intro r
      rw [mem_cons,htaken,mem_filter]
      by_cases hr : r.2 = rid
      · have heq : r ∈ rows → r = r₀ := fun h => hinc.eq_of_number h hmem (hr.trans hr₀.symm)
        simp only [hr,mem_cons,true_or,not_true_eq_false,decide_false,and_true]
        constructor
        · rintro (rfl | ⟨⟨-,hfalse⟩,-⟩)
          · exact hmem
          · simp at hfalse
        · exact fun h => .inl (heq h)
      · have hne : r ≠ r₀ := fun heq => hr (heq ▸ hr₀)
        simp [hr,hne]

lemma intKeys (h : Agrees P t) : IntKeys t where
  inline := h.inline
  typed idx hidx hint := by
    rw [← h.ints idx hidx hint]
    exact h.typed _
  entries idx hidx hint x hx := by
    rw [← h.ints idx hidx hint]
    exact (h.cols idx hidx).entry_typed (h.typed _) hx

lemma dropRows [Exact P.pj1Cmp] (h : Agrees P t) (hnil : t.expressionIndexes = [])
    (hvict : ∀ r, r ∈ victims ↔ r ∈ t.rows ∧ q r = false) (pinned : Option ℕ) :
    Keeps P t {t with rows := t.rows.filter q, indexedCols := t.indexedCols.map (·.dropRows P victims), pinned := pinned} := by
  have hthin := h.thin q (·.dropRows P victims) id ?_ ?_ pinned
  · rwa [List.map_id] at hthin
  · exact fun idx hidx => ⟨⟨rfl,rfl,rfl⟩,(h.cols idx hidx).dropRows h.increasing (h.typed _) hvict⟩
  · rw [hnil]
    exact fun _ he => nomatch he

lemma deleteMany [Exact P.pj1Cmp] (h : Agrees P t)
    (hrun : t.deleteMany P rids = .ok t') : Keeps P t t' := by
  rw [MaintainedTable.deleteMany] at hrun
  split_ifs at hrun with hslow
  · exact h.deleteEach hrun
  · cases hrun
    simp only [Bool.or_eq_true,Bool.not_eq_true',not_or,Bool.not_eq_false,List.isEmpty_iff] at hslow
    obtain ⟨hrest,htaken⟩ := takeRows_spec h.increasing rids
    rw [hrest,h.intKeys.sweepInts_map hslow.2 fun r hr => ((htaken r).mp hr).1]
    exact h.dropRows hslow.1 htaken _

lemma scanDeleteMatching [Exact P.pj1Cmp] (h : Agrees P t)
    (hrun : t.scanDeleteMatching P pred lastPage = .ok t') : Keeps P t t' := by
  rw [MaintainedTable.scanDeleteMatching] at hrun
  split at hrun
  · exact h.deleteEach hrun
  · rename_i hpaths
    cases hrun
    rw [h.intKeys.scanned pred]
    refine h.dropRows (by simpa using hpaths) ?_ _
    intro r
    rw [mem_filter,Bool.not_eq_false']

/-! ### Rebuilds -/

lemma cols_distinct (h : Agrees P t) (hidx : idx ∈ t.indexedCols) (hu : idx.unique = true) :
    KeysDistinct P (fun row => columnValue idx.colIdx row.values) t.rows := by
  intro r hr r' hr' hsame
  dsimp only at hsame
  by_contra hnum
  have hne : columnValue idx.colIdx r'.1.values ≠ .empty := fun he => hsame.1 (P.cmp_empty (he ▸ hsame.2))
  have hmem : ∀ r ∈ t.rows, columnValue idx.colIdx r.1.values ≠ .empty →
      (columnValue idx.colIdx r.1.values,r.2) ∈ idx.entries :=
    fun r hr hne => (h.cols idx hidx).mem_entries.mpr ⟨r,hr,⟨hne,rfl⟩,rfl⟩
  exact (h.cols idx hidx).filed.unlike hu (hmem r hr hsame.1) (hmem r' hr' hne) hnum hsame

lemma paths_distinct (h : Agrees P t) (he : e ∈ t.expressionIndexes) (hu : e.unique = true) :
    KeysDistinct P (pathKey P e.canonicalText e.rootColIdx) t.rows := by
  intro r hr r' hr' hsame
  by_contra hnum
  have hmem : ∀ r ∈ t.rows, (pathKey P e.canonicalText e.rootColIdx r.1,r.2) ∈ e.entries :=
    fun r hr => (h.paths e he).mem_entries.mpr ⟨r,hr,rfl,rfl⟩
  exact (h.paths e he).filed.unlike hu (hmem r hr) (hmem r' hr') hnum hsame

lemma rebuilt_col [Exact P.pj1Cmp] {type : TypeId} (hinc : Increasing rows)
    (ht : FilesCol.Typed type idx.colIdx rows)
    (hdistinct : idx.unique = true → KeysDistinct P (fun row => columnValue idx.colIdx row.values) rows) :
    ∃ es, rows.foldl (fun (i : ColumnIndex) r => i.insert P.cmp (columnValue idx.colIdx r.1.values) r.2)
      ⟨idx.colIdx,idx.unique,[]⟩ = ⟨idx.colIdx,idx.unique,es⟩ ∧ FilesCol P rows {idx with entries := es} := by
  -- The rows come in order, so each goes behind the ones before it.
  induction rows using reverseRecOn with
  | nil => exact ⟨[],rfl,rfl,fun _ _ hx => nomatch hx⟩
  | append_singleton rows r ih =>
    obtain ⟨hinc',hlast⟩ := hinc.init
    have hr : r ∈ rows++[r] := mem_append_right _ (mem_singleton_self r)
    have ht' : FilesCol.Typed type idx.colIdx rows := fun r' hr' => ht r' (mem_append_left _ hr')
    obtain ⟨es,hfold,hbefore⟩ := ih hinc' ht' fun hu => (hdistinct hu).append_left
    have hstep : FilesCol P (insertNumbered r rows) _ := hbefore.insert hinc' ht' rfl (ht r hr) ?_ r.2
    · obtain ⟨es',hes⟩ := exists_insert P.cmp ⟨idx.colIdx,idx.unique,es⟩ (columnValue idx.colIdx r.1.values) r.2
      rw [hes,insertNumbered_last hlast] at hstep
      refine ⟨es',?_,hstep⟩
      rw [foldl_append,hfold]
      exact hes
    · intro hu _ x hx hcmp
      obtain ⟨r',hr',⟨hxne,hval⟩,hnum⟩ := hbefore.mem_entries.mp hx
      rw [← hval] at hxne hcmp
      exact Nat.ne_of_lt (hlast r' hr') (hdistinct hu r' (mem_append_left _ hr') r hr ⟨hxne,hcmp⟩)

lemma rebuildCol_eq [Exact P.pj1Cmp] (h : Agrees P t) (hidx : idx ∈ t.indexedCols) :
    t.rebuildCol P idx = idx := by
  obtain ⟨es,hfold,hnew⟩ := rebuilt_col h.increasing (h.typed _) (h.cols_distinct hidx)
  have hentries : es = idx.entries := hnew.entries.trans (h.cols idx hidx).entries.symm
  rw [rebuildCol,hfold,hentries]

/-- A rebuild of a path index from rows in order, whose keys are all among some that can be told apart. -/
lemma rebuilt_path (hord : Ordered P held)
    (hinc : Increasing rows)
    (hkeys : ∀ r ∈ rows, ∃ key, expressionKey P e.canonicalText (columnValue e.rootColIdx r.1.values) = .ok key)
    (hheld : ∀ r ∈ rows, pathKey P e.canonicalText e.rootColIdx r.1 ≠ .empty →
      pathKey P e.canonicalText e.rootColIdx r.1 ∈ held)
    (hdistinct : e.unique = true → KeysDistinct P (pathKey P e.canonicalText e.rootColIdx) rows) :
    ∃ es hs, rows.foldlM (rebuildRow P) e.bare = .ok {e with entries := es, held := hs} ∧
      FilesPath P rows {e with entries := es, held := hs} ∧ ∀ k ∈ hs, k ∈ held := by
  induction rows using reverseRecOn with
  | nil => exact ⟨[],[],rfl,⟨nofun,rfl,fun _ => nofun,nofun,nofun⟩,nofun⟩
  | append_singleton rows r ih =>
    obtain ⟨hinc',hlast⟩ := hinc.init
    have hr : r ∈ rows++[r] := mem_append_right _ (mem_singleton_self r)
    obtain ⟨es,hs,hfold,hfiles,hsub⟩ := ih hinc' (fun r' hr' => hkeys r' (mem_append_left _ hr'))
      (fun r' hr' => hheld r' (mem_append_left _ hr')) fun hu => (hdistinct hu).append_left
    obtain ⟨key,hkey⟩ := hkeys r hr
    have hpath := pathKey_of_ok hkey
    have hin : key ≠ .empty → ∀ k ∈ key::hs, k ∈ held := by
      intro hne k hk
      rcases mem_cons.mp hk with rfl | hk
      · exact hpath ▸ hheld r hr (hpath.symm ▸ hne)
      · exact hsub k hk
    have hordered : key ≠ .empty → Ordered P (key::hs) := fun hne => hord.subset (hin hne)
    have hfresh : e.unique = true → key ≠ .empty → ∀ x ∈ es, P.cmp x.1 key ≠ .eq := by
      intro hu hne x hx hcmp
      obtain ⟨r',hr',hval,hnum⟩ := hfiles.mem_entries.mp hx
      have hxne := P.ne_empty hcmp hne
      rw [← hval] at hcmp hxne
      rw [← hpath] at hcmp
      exact Nat.ne_of_lt (hlast r' hr')
        (hdistinct hu r' (mem_append_left _ hr') r hr ⟨hxne,hcmp⟩)
    have hadd : FilesPath P (insertNumbered r rows) _ := hfiles.add hinc' (fun r' hr' => Nat.ne_of_lt (hlast r' hr')) hkey hordered hfresh
    have heq : ({e with entries := es, held := hs} : ExpressionIndexedPath).add P key r.2 = _ :=
      FilesPath.add_eq (fun x hx => ?_) hordered hfresh
    · rw [heq,insertNumbered_last hlast] at hadd
      refine ⟨_,_,?_,hadd,fun k hk => ?_⟩
      · rw [foldlM_append]
        refine bind_ok_iff.mpr ⟨_,hfold,bind_ok_iff.mpr ⟨_,?_,rfl⟩⟩
        refine bind_ok_iff.mpr ⟨key,hkey,?_⟩
        rw [if_neg,heq]
        simp only [Bool.and_eq_true,Bool.not_eq_true',not_and,Bool.not_eq_true,isSome_eq_false_iff,
          isNone_iff_eq_none]
        rintro ⟨hne,hu⟩
        have hne : key ≠ .empty := isEmpty_eq_false.mp hne
        rw [ExpressionIndexedPath.lookup,if_pos (hordered hne),map_eq_none_iff,find?_eq_none]
        intro x hx
        simpa using hfresh hu hne x hx
      · split_ifs at hk with hne
        · exact hsub k hk
        · exact hin hne k hk
    · obtain ⟨r',hr',-,hnum⟩ := hfiles.mem_entries.mp hx
      exact hnum ▸ Nat.ne_of_lt (hlast r' hr')

lemma rebuildPath_ok (h : Agrees P t) (he : e ∈ t.expressionIndexes) :
    ∃ e', t.rebuildPath P e = .ok e' ∧ e'.contents = e.contents := by
  have hfiles := h.paths e he
  obtain ⟨es,hs,hfold,hnew,-⟩ := rebuilt_path hfiles.ordered h.increasing hfiles.keys
    (fun r hr hne => hfiles.held (_,r.2) (hfiles.mem_entries.mpr ⟨r,hr,rfl,rfl⟩) hne) (h.paths_distinct he)
  have hentries : es = e.entries := hnew.entries.trans hfiles.entries.symm
  exact ⟨_,hfold,congrArg (fun es => {e with entries := es, held := []}) hentries⟩

/-- A rebuild leaves the column indexes as they are and finds the same entries for every path. -/
lemma rebuild [Exact P.pj1Cmp] (h : Agrees P t) :
    ∃ paths, t.rebuildIndexesFromHeap P = .ok {t with expressionIndexes := paths} ∧
      paths.map ExpressionIndexedPath.contents = t.expressionIndexes.map ExpressionIndexedPath.contents := by
  have hok : ∀ e ∈ t.expressionIndexes, t.rebuildPath P e = .ok ((t.rebuildPath P e).toOption.getD e) ∧
      ((t.rebuildPath P e).toOption.getD e).contents = e.contents := by
    intro e he
    obtain ⟨e',hrun,hsame⟩ := h.rebuildPath_ok he
    rw [hrun]
    exact ⟨rfl,hsame⟩
  refine ⟨t.expressionIndexes.map fun e => (t.rebuildPath P e).toOption.getD e,?_,?_⟩
  · have hcols : t.indexedCols.map (t.rebuildCol P) = t.indexedCols := by
      refine (map_congr_left fun idx hidx => h.rebuildCol_eq hidx).trans ?_
      exact map_id' _
    rw [rebuildIndexesFromHeap,mapM_of_forall_ok fun e he => (hok e he).1,hcols]
    rfl
  · rw [List.map_map]
    exact map_congr_left fun e he => (hok e he).2

end Agrees
/-! ### Runs -/

namespace TableCall
open MaintainedTable

/-- Updates come with an honest hint, if with one. -/
def Honest (t : MaintainedTable) : TableCall → Prop
  | .update rid values changed _ _ _ => t.Honest rid values changed
  | _ => True

/-- The call gives no integer for an indexed timestamp and no path key that cannot be told from the
others, and it does not write a row while the heap has an overflow page pinned. -/
def Regular (P : TreeParams) (t : MaintainedTable) : TableCall → Prop
  | .insert values _ _ _ => t.Timestamps values ∧ t.KeysOrdered P values ∧ ∀ p ∈ t.pinned, p ∉ t.overflowPages
  | .update rid values _ _ chain _ => t.Timestamps values ∧ t.KeysOrdered P values ∧
      (t.rowAt rid = none → ridPage rid ∉ chain++t.overflowPages)
  | _ => True

instance (t : MaintainedTable) (values : List Value) : Decidable (t.Timestamps values) :=
  inferInstanceAs (Decidable (∀ _ ∈ _, _))

instance (P : TreeParams) (t : MaintainedTable) (values : List Value) : Decidable (t.KeysOrdered P values) :=
  inferInstanceAs (Decidable (∀ _ ∈ _, _))

instance (t : MaintainedTable) : (c : TableCall) → Decidable (c.Honest t)
  | .update _ _ changed _ _ _ =>
    match changed with
    | none => .isTrue trivial
    | some _ => inferInstanceAs (Decidable (∃ _ ∈ _, _))
  | .insert .. | .delete _ | .deleteMany _ | .scanDeleteMatching .. => .isTrue trivial

instance (P : TreeParams) (t : MaintainedTable) : (c : TableCall) → Decidable (c.Regular P t)
  | .insert .. | .update .. => inferInstanceAs (Decidable (_ ∧ _))
  | .delete _ | .deleteMany _ | .scanDeleteMatching .. => .isTrue trivial

end TableCall

namespace MaintainedTable
variable {P : TreeParams} {t t₀ t' : MaintainedTable}

/-- Only successful calls are taken. -/
def step (P : TreeParams) (t : MaintainedTable) (c : TableCall) : Option MaintainedTable := (t.call P c).toOption

lemma step_keeps [Exact P.pj1Cmp] (h : Agrees P t)
    (hhonest : c.Honest t) (hreg : c.Regular P t) (hrun : t.step P c = some t') : Keeps P t t' := by
  have hrun := toOption_eq_some hrun
  cases c with
  | insert values spills chain rid =>
    obtain ⟨htime,hkeys,hpin⟩ := hreg
    exact h.insert htime hkeys hpin hrun
  | update rid values changed spills chain newRid =>
    obtain ⟨htime,hkeys,hmissing⟩ := hreg
    exact h.update htime hkeys hhonest hmissing hrun
  | delete rid => exact h.delete hrun
  | deleteMany rids => exact h.deleteMany hrun
  | scanDeleteMatching pred lastPage => exact h.scanDeleteMatching hrun

/-- After every run of regular calls a rebuild from the heap changes no index, and no two rows share
a key of a unique one. -/
theorem rebuild_eq_of_regular (hjson : ∀ a b, P.pj1Cmp a b = .eq ↔ a = b) (h₀ : Agrees P t₀) (calls : List TableCall)
    (hok : Meets (step P) (fun t c => c.Honest t ∧ c.Regular P t) t₀ calls) (hrun : runSteps (step P) t₀ calls = some t) :
    (∃ paths, t.rebuildIndexesFromHeap P = .ok {t with expressionIndexes := paths} ∧
      paths.map ExpressionIndexedPath.contents = t.expressionIndexes.map ExpressionIndexedPath.contents) ∧
    (∀ idx ∈ t.indexedCols, idx.unique = true →
      KeysDistinct P (fun row => columnValue idx.colIdx row.values) t.rows) ∧
    ∀ e ∈ t.expressionIndexes, e.unique = true →
      KeysDistinct P (pathKey P e.canonicalText e.rootColIdx) t.rows := by
  have : Exact P.pj1Cmp := ⟨hjson⟩
  have h : Agrees P t := runSteps_inv (fun t c t' h hok hrun => (step_keeps h hok.1 hok.2 hrun).1) h₀ hok hrun
  exact ⟨h.rebuild,fun idx hidx hu => h.cols_distinct hidx hu,fun e he hu => h.paths_distinct he hu⟩

/-- A new table, with any indexes declared. -/
lemma agrees_fresh (hrows : t.rows = [])
    (hints : ∀ idx ∈ t.indexedCols, idx.isInt = true → t.columnType idx.colIdx = .int)
    (hcols : ∀ idx ∈ t.indexedCols, idx.entries = []) (hpaths : ∀ e ∈ t.expressionIndexes, e = e.bare) : Agrees P t where
  increasing := hrows ▸ .nil
  visible := by simp [hrows]
  typed c r hr := by simp [hrows] at hr
  inline := by simp [hrows]
  ints := hints
  cols idx hidx := by
    have he := hcols idx hidx
    exact ⟨by rw [he,hrows]; rfl,fun _ => by rw [he]; exact nofun⟩
  paths e he := by
    rw [hpaths e he,hrows]
    exact ⟨nofun,rfl,fun _ => nofun,nofun,nofun⟩

/-! ### Tables at work -/

/-- Documents by their bytes; a path leads to the first byte. -/
def firstByte : TreeParams where
  pj1Cmp a b := if a = b then .eq else if a < b then .lt else .gt
  scalarAt _ document := .ok ((document.head?.map fun b => .int (.ofNat b.toNat)).getD .empty)
  strayLookup _ _ := none
  strayEntries e _ _ := e.entries

lemma firstByte_eq (a b : Bytes) : firstByte.pj1Cmp a b = .eq ↔ a = b := by
  simp only [firstByte]
  split_ifs with h <;> simp [h]

/-- Notes with a unique number, a text and a document, all indexed. -/
def notes : MaintainedTable where
  columns := [⟨"id",.int,true⟩,⟨"text",.str,false⟩,⟨"doc",.json,false⟩]
  rows := []
  indexedCols := [⟨⟨0,true,[]⟩,"id",true⟩,⟨⟨1,false,[]⟩,"text",false⟩]
  expressionIndexes := [⟨"doc","$.n",true,2,[],[]⟩]
  overflowPages := []
  pinned := none

/-- Two notes, one of them with its text on overflow pages; the other one moves and is deleted. -/
def notesCalls : List TableCall :=
  [.insert [.int 1,.str "a",.json [7]] (fun _ => false) [] 65536,
    .insert [.int 2,.str "long",.json [8]] (· = 1) [2,3] 65537,
    .update 65536 [.int 1,.str "b",.json [9]] (some [1,2]) (fun _ => false) [] 262144,
    .deleteMany [262144],
    .insert [.int 1,.str "long",.json [7]] (fun _ => false) [] 262145]

def notesLeft : MaintainedTable := (runSteps (step firstByte) notes notesCalls).getD notes

lemma notes_fresh : Agrees firstByte notes :=
  agrees_fresh rfl (by decide) (by decide) (by decide)

lemma notes_run : runSteps (step firstByte) notes notesCalls = some notesLeft := by
  have hsome : (runSteps (step firstByte) notes notesCalls).isSome = true := by decide +kernel
  obtain ⟨t,ht⟩ := isSome_iff_exists.mp hsome
  rfl

theorem notes_rebuild_eq : notesLeft.rows.map Prod.snd = [65537,262145] ∧
    ∃ paths, notesLeft.rebuildIndexesFromHeap firstByte = .ok {notesLeft with expressionIndexes := paths} ∧
      paths.map ExpressionIndexedPath.contents = notesLeft.expressionIndexes.map ExpressionIndexedPath.contents :=
  ⟨by decide +kernel,
    (rebuild_eq_of_regular firstByte_eq notes_fresh notesCalls (by decide +kernel) notes_run).1⟩

/-- Logins by time, in an index that is not unique. -/
def logins : MaintainedTable where
  columns := [⟨"at",.dateTime,true⟩,⟨"note",.bytes,false⟩]
  rows := []
  indexedCols := [⟨⟨0,false,[]⟩,"at",false⟩]
  expressionIndexes := []
  overflowPages := []
  pinned := none

/-- A rebuild after these calls gives other column indexes. -/
def rebuildDiffers (calls : List TableCall) : Bool :=
  (runSteps (step firstByte) logins calls).any fun t =>
    (t.rebuildIndexesFromHeap firstByte).toOption.any fun t' => t'.indexedCols ≠ t.indexedCols

/-- An integer given for a timestamp; and two rows with spilled values, deleted by a scan that
leaves the last overflow page pinned, with a row inserted after it. -/
theorem rebuild_differs :
    rebuildDiffers [.insert [.int 5,.empty] (fun _ => false) [] 65536] = true ∧
    rebuildDiffers
      [.insert [.dateTime 5,.bytes (List.replicate 5000 0)] (· = 1) [1,2] 196608,
        .insert [.dateTime 6,.bytes (List.replicate 5000 0)] (· = 1) [4,5] 196609,
        .scanDeleteMatching (fun _ => true) 5,
        .insert [.dateTime 7,.empty] (fun _ => false) [] 327680] = true := by
  decide +kernel

end MaintainedTable
end PowDB.Storage
