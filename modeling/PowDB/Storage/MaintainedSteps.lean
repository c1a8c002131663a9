import PowDB.Storage.KeyedRun
import PowDB.Storage.MaintainedTable

/-! One index through one change of the rows it files: an entry taken out, put in, moved, and
all entries of a set of rows taken out at once. -/
namespace PowDB.Storage
open Lib List Option ColumnIndex
/-- Two keys that a unique index does not keep side by side. -/
def TreeParams.Same (P : TreeParams) (a b : Value) : Prop := a ≠ .empty ∧ P.cmp a b = .eq

lemma TreeParams.cmp_typed {P : TreeParams} [Exact P.pj1Cmp] {type : TypeId}
    (ha : a.typeId = type) (hb : b.typeId = type) : P.cmp a b = .eq ↔ a = b := by
  have h := cmp_eq_iff P.pj1Cmp (.inr (.inl ha)) (.inr (.inl hb))
  rwa [storedValue_of_typeId ha,storedValue_of_typeId hb] at h

lemma TreeParams.cmp_empty {P : TreeParams} (h : P.cmp a .empty = .eq) : a = .empty := by
  cases a <;> first | rfl | exact nomatch h

lemma TreeParams.ne_empty {P : TreeParams} (h : P.cmp a b = .eq) (hb : b ≠ .empty) : a ≠ .empty := by
  rintro rfl
  cases b <;> first | exact hb rfl | exact nomatch h

namespace Ordered
variable {P : TreeParams} {keys keys' : List Value} {a b c : Value}

section
variable (h : Ordered P keys)
include h

lemma subset (hsub : ∀ k ∈ keys', k ∈ keys) : Ordered P keys' := by
  intro a ha b hb
  obtain ⟨hswap,htrans⟩ := h a (hsub a ha) b (hsub b hb)
  exact ⟨hswap,fun c hc => htrans c (hsub c hc)⟩

lemma cons_of_mem (ha : a ∈ keys) : Ordered P (a::keys) := by
  apply h.subset
  intro k hk
  rcases mem_cons.mp hk with rfl | hk
  · exact ha
  · exact hk

lemma symm (ha : a ∈ keys) (hb : b ∈ keys) (hab : P.cmp a b = .eq) : P.cmp b a = .eq := by
  rw [(h a ha b hb).1,hab]
  rfl

lemma eq_trans (ha : a ∈ keys) (hb : b ∈ keys) (hc : c ∈ keys) (hab : P.cmp a b = .eq)
    (hbc : P.cmp b c = .eq) : P.cmp a c = .eq := by
  have hac := (h a ha b hb).2 c hc (by simp [hab]) (by simp [hbc])
  have hca := (h c hc b hb).2 a ha (by simp [h.symm hb hc hbc]) (by simp [h.symm ha hb hab])
  rw [(h a ha c hc).1] at hca
  cases hcmp : P.cmp a c with
  | lt => simp [hcmp] at hca
  | eq => rfl
  | gt => exact absurd hcmp hac

end

end Ordered

/-! ### Column indexes -/

section
variable {α β : Type} {p : β → α → Bool} {bs : List β}

/-- The items that pass a test against each of some others. -/
def passing (p : β → α → Bool) (bs : List β) (xs : List α) : List α := xs.filter fun x => bs.all (p · x)

lemma passing_congr (h : ∀ b, b ∈ bs ↔ b ∈ bs') (xs : List α) : passing p bs xs = passing p bs' xs := by
  refine filter_congr fun x _ => ?_
  rw [Bool.eq_iff_iff]
  simp only [List.all_eq_true,h]

lemma passing_cons (b : β) (bs : List β) (xs : List α) : passing p (b::bs) xs = passing p bs (passing p [b] xs) := by
  simp only [passing,List.filter_filter,all_cons,all_nil,Bool.and_true]
  simp only [Bool.and_comm]

end

namespace IndexedCol
variable {P : TreeParams} (idx : IndexedCol)

/-- The index without the entries of some rows. -/
def dropRows (P : TreeParams) (victims : List (HeapRow × ℕ)) (idx : IndexedCol) : IndexedCol :=
  {idx with
    entries := passing (fun r => kept P.cmp idx.unique (columnValue idx.colIdx r.1.values) r.2) victims idx.entries}

lemma delete_dropRows (r : HeapRow × ℕ) :
    {idx with toColumnIndex := idx.toColumnIndex.delete P.cmp (columnValue idx.colIdx r.1.values) r.2} =
      idx.dropRows P [r] := by
  simp only [ColumnIndex.delete_eq,dropRows,passing,all_cons,all_nil,Bool.and_true]

lemma dropRows_cons (r : HeapRow × ℕ) (victims : List (HeapRow × ℕ)) :
    idx.dropRows P (r::victims) = (idx.dropRows P [r]).dropRows P victims := by
  rw [dropRows,passing_cons]
  rfl

/-- Entries of some rows taken out one after the other. -/
lemma foldl_dropRows (victims : List (HeapRow × ℕ)) :
    {idx with
      toColumnIndex := victims.foldl (fun i r => i.delete P.cmp (columnValue idx.colIdx r.1.values) r.2) idx.toColumnIndex} =
      idx.dropRows P victims := by
  induction victims generalizing idx with
  | nil => simp [dropRows,passing]
  | cons r victims ih =>
    rw [foldl_cons,dropRows_cons,← ih (idx.dropRows P [r]),← delete_dropRows]
    simp only [delete_colIdx]

end IndexedCol

/-- The key of a row in the index of a column. -/
def colKey (c : ℕ) (row : HeapRow) : Option Value := indexed c row.values

/-- A column index has exactly the rows with a value in its column, under that value. -/
structure FilesCol (P : TreeParams) (rows : List (HeapRow × ℕ)) (idx : IndexedCol) : Prop where
  entries : idx.entries = rows.filterMap (keepNumber (colKey idx.colIdx))
  apart : idx.unique = true → Apart P.Same idx.entries

namespace FilesCol
variable {P : TreeParams} {type : TypeId} {rows : List (HeapRow × ℕ)} {idx : IndexedCol} {v : Value}
  {c : ℕ} {row : HeapRow}

lemma filed (h : FilesCol P rows idx) : Filed P.Same (colKey idx.colIdx) idx.unique rows idx.entries :=
  ⟨h.entries,h.apart⟩

lemma mem_entries (h : FilesCol P rows idx) :
    x ∈ idx.entries ↔ ∃ r ∈ rows, (x.1 ≠ .empty ∧ columnValue idx.colIdx r.1.values = x.1) ∧ r.2 = x.2 := by
  simp only [h.filed.mem_iff,colKey,indexed_eq_some]

/-- The values in a column are of its type. -/
def Typed (type : TypeId) (c : ℕ) (rows : List (HeapRow × ℕ)) : Prop :=
  ∀ r ∈ rows, columnValue c r.1.values = .empty ∨ (columnValue c r.1.values).typeId = type

lemma entry_typed (h : FilesCol P rows idx) (ht : Typed type idx.colIdx rows)
    (hx : x ∈ idx.entries) : x.1.typeId = type := by
  obtain ⟨r,hr,⟨hne,hv⟩,-⟩ := h.mem_entries.mp hx
  rw [← hv]
  exact (ht r hr).resolve_left (hv ▸ hne)


/-- An entry goes with its own row and with no other. -/
lemma dropRows [Exact P.pj1Cmp] (h : FilesCol P rows idx) (hinc : Increasing rows)
    (ht : Typed type idx.colIdx rows) {q : HeapRow × ℕ → Bool} (hvict : ∀ r, r ∈ victims ↔ r ∈ rows ∧ q r = false) :
    FilesCol P (rows.filter q) (idx.dropRows P victims) := by
  suffices hfiled : Filed P.Same _ _ _ _ from ⟨hfiled.entries,hfiled.apart⟩
  refine h.filed.filter fun r hr v hkey => ?_
  obtain ⟨hne,hval⟩ := indexed_eq_some.mp hkey
  have hx : (v,r.2) ∈ idx.entries := h.mem_entries.mpr ⟨r,hr,⟨hne,hval⟩,rfl⟩
  have hown : ∀ r' ∈ rows, ColumnIndex.kept P.cmp idx.unique (columnValue idx.colIdx r'.1.values) r'.2 (v,r.2) = false ↔
      r' = r := by
    intro r' hr'
    simp only [ColumnIndex.kept,Bool.or_eq_false_iff,isEmpty_eq_false]
    constructor
    · rintro ⟨hne',hgone⟩
      have hx' : (columnValue idx.colIdx r'.1.values,r'.2) ∈ idx.entries := h.mem_entries.mpr ⟨r',hr',⟨hne',rfl⟩,rfl⟩
      apply hinc.eq_of_number hr' hr
      split_ifs at hgone with hu
      · have hsame : P.Same v (columnValue idx.colIdx r'.1.values) := ⟨hne,by simpa using hgone⟩
        exact (congrArg Prod.snd (h.apart hu _ hx _ hx' hsame)).symm
      · exact (Prod.mk.inj (by simpa using hgone)).2.symm
    · rintro rfl
      rw [hval]
      refine ⟨hne,?_⟩
      split
      · simpa using (P.cmp_typed (h.entry_typed ht hx) (h.entry_typed ht hx)).mpr rfl
      · simp
  rw [Bool.eq_iff_iff,List.all_eq_true]
  constructor
  · intro hall
    by_contra hq
    have hkept := hall r ((hvict r).mpr ⟨hr,by simpa using hq⟩)
    cases hkept.symm.trans ((hown r hr).mpr rfl)
  · intro hq r' hr'
    obtain ⟨hr',hq'⟩ := (hvict r').mp hr'
    refine eq_true_of_ne_false fun hgone => ?_
    obtain rfl := (hown r' hr').mp hgone
    cases hq.symm.trans hq'

lemma delete [Exact P.pj1Cmp] (h : FilesCol P rows idx) (hinc : Increasing rows)
    (ht : Typed type idx.colIdx rows) (hr : r ∈ rows) : FilesCol P (rows.filter (·.2 ≠ r.2))
      {idx with toColumnIndex := idx.toColumnIndex.delete P.cmp (columnValue idx.colIdx r.1.values) r.2} := by
  rw [idx.delete_dropRows]
  refine h.dropRows hinc ht fun r' => ?_
  rw [mem_singleton,decide_eq_false_iff_not,not_not]
  constructor
  · rintro rfl
    exact ⟨hr,rfl⟩
  · exact fun h => hinc.eq_of_number h.1 hr h.2

lemma insert [Exact P.pj1Cmp] (h : FilesCol P rows idx) (hinc : Increasing rows)
    (ht : Typed type idx.colIdx rows) (hv : columnValue idx.colIdx row.values = v)
    (hvt : v = .empty ∨ v.typeId = type)
    (hfresh : idx.unique = true → v ≠ .empty → ∀ x ∈ idx.entries, P.cmp x.1 v ≠ .eq) (rid : ℕ) :
    FilesCol P (insertNumbered (row,rid) rows)
      {idx with toColumnIndex := idx.toColumnIndex.insert P.cmp v rid} := by
  by_cases he : v = .empty
  · have hkeep : idx.toColumnIndex.insert P.cmp v rid = idx.toColumnIndex := by
      simp [ColumnIndex.insert,he]
    rw [hkeep]
    refine ⟨?_,h.apart⟩
    rw [hinc.filterMap_insertNumbered,colKey,indexed_eq_none.mpr (hv.trans he)]
    exact h.entries
  · rw [idx.toColumnIndex.insert_fresh _ he fun hu => hfresh hu he]
    suffices hfiled : Filed P.Same _ _ _ _ from ⟨hfiled.entries,hfiled.apart⟩
    refine h.filed.insert hinc (indexed_eq_some.mpr ⟨he,hv⟩) ?_ rid
    refine fun hu x hx => ⟨fun hsame => hfresh hu he x hx hsame.2,fun hsame => hfresh hu he x hx ?_⟩
    have htx := h.entry_typed ht hx
    have hvt := hvt.resolve_left he
    rw [P.cmp_typed htx hvt]
    exact ((P.cmp_typed hvt htx).mp hsame.2).symm

lemma fresh_of_lookup (hnone : idx.lookup P.cmp v = none) : ∀ x ∈ idx.entries, P.cmp x.1 v ≠ .eq := by
  rw [ColumnIndex.lookup,map_eq_none_iff,find?_eq_none] at hnone
  intro x hx hcmp
  exact hnone x hx (by simp [hcmp])

lemma fresh_of_lookup_own [Exact P.pj1Cmp] (h : FilesCol P rows idx)
    (ht : Typed type idx.colIdx rows) (hu : idx.unique = true) (hvt : v.typeId = type) {rid : ℕ}
    (hown : (idx.lookup P.cmp v).any (· != rid) = false) : ∀ x ∈ idx.entries, x.2 ≠ rid → P.cmp x.1 v ≠ .eq := by
  intro x hx hrid hcmp
  refine h.filed.not_found hu hown ?_ hx hrid (beq_iff_eq.mpr hcmp)
  intro y hy z hz hyv hzv
  have hty := h.entry_typed ht hy
  have htz := h.entry_typed ht hz
  rw [beq_iff_eq,P.cmp_typed hty hvt] at hyv
  rw [beq_iff_eq,P.cmp_typed htz hvt] at hzv
  obtain ⟨-,-,⟨hne,-⟩,-⟩ := h.mem_entries.mp hy
  exact ⟨hne,(P.cmp_typed hty htz).mpr (hyv.trans hzv.symm)⟩

/-- A row written back to its place under the value it had. -/
lemma replace (h : FilesCol P rows idx) (hinc : Increasing rows) (hr : r ∈ rows)
    (hv : columnValue idx.colIdx row.values = columnValue idx.colIdx r.1.values) :
    FilesCol P (insertNumbered (row,r.2) (rows.filter (·.2 ≠ r.2))) idx := by
  have hkey : colKey idx.colIdx row = colKey idx.colIdx r.1 := by
    rw [colKey,indexed,hv]
    rfl
  have hfiled := h.filed.replace hinc hr hkey
  exact ⟨hfiled.entries,hfiled.apart⟩

/-! Many rows at once -/

/-- Values on overflow pages are text, bytes or documents. -/
def Inline (row : HeapRow) : Prop := ∀ v ∈ row, v.spilled = true → MaintainedTable.spillable v.value = true

lemma decodeColumn_of_not_stub (h : rawStub c row = false) : decodeColumn c row = columnValue c row.values := by
  rw [rawStub] at h
  rw [decodeColumn,columnValue,HeapRow.values,getElem?_map]
  cases hc : row[c]? with
  | none => rfl
  | some v =>
    rw [hc] at h
    have hv : v.spilled = false := h
    simp [HeapValue.inline,hv]

lemma decodeColumn_int (h : Inline row)
    (hint : columnValue c row.values = .empty ∨ (columnValue c row.values).typeId = .int) :
    decodeColumn c row = columnValue c row.values := by
  by_cases hstub : rawStub c row = true
  · rw [rawStub] at hstub
    cases hc : row[c]? with
    | none => simp [hc] at hstub
    | some v =>
      rw [hc] at hstub
      have hspill := h v (mem_of_getElem? hc) hstub
      rw [columnValue,HeapRow.values,getElem?_map,hc] at hint
      rcases hint with hint | hint <;> cases hv : v.value <;> simp [hv,MaintainedTable.spillable,Value.typeId] at hint hspill
  · exact decodeColumn_of_not_stub (by simpa using hstub)

lemma exists_int (h : v.typeId = .int) : ∃ i, v = .int i := by
  cases v <;> first | exact ⟨_,rfl⟩ | exact nomatch h

/-- The sweep over an index of integers takes out the entries of the rows it was given. -/
lemma sweepInts_eq (hu : idx.unique = true) (hkeys : ∀ x ∈ idx.entries, x.1.typeId = .int)
    (hinline : ∀ r ∈ victims, Inline r.1) (ht : Typed .int idx.colIdx victims) :
    MaintainedTable.sweepInts victims idx = idx.dropRows P victims := by
  have hfilter : ∀ x ∈ idx.entries, (!(MaintainedTable.intKey x.1).any (victims.filterMap
      fun r => MaintainedTable.intKey (decodeColumn idx.colIdx r.1)).contains) =
      victims.all fun r => kept P.cmp idx.unique (columnValue idx.colIdx r.1.values) r.2 x := by
    rintro ⟨v,rid⟩ hx
    obtain ⟨i,rfl⟩ := exists_int (hkeys _ hx)
    change (!contains _ i) = _
    rw [Bool.eq_iff_iff,List.all_eq_true,Bool.not_eq_true',contains_eq_mem,decide_eq_false_iff_not,mem_filterMap,not_exists]
    refine forall_congr' fun r => ?_
    rw [not_and]
    refine imp_congr_right fun hr => ?_
    rw [decodeColumn_int (hinline r hr) (ht r hr),hu]
    rcases ht r hr with he | hint
    · simp [he,MaintainedTable.intKey,kept]
    · obtain ⟨j,hj⟩ := exists_int hint
      simp [hj,MaintainedTable.intKey,kept,TreeParams.cmp,Value.cmp,Int64.toInt_inj,@eq_comm _ i j]
  rw [MaintainedTable.sweepInts,IndexedCol.dropRows,passing,filter_congr hfilter]

end FilesCol

/-! ### Path indexes -/

/-- The key of a row in the index of a path. -/
def pathKey (P : TreeParams) (text : String) (root : ℕ) (row : HeapRow) : Value :=
  (expressionKey P text (columnValue root row.values)).toOption.getD .empty

lemma pathKey_of_ok
    (h : expressionKey P text (columnValue root row.values) = .ok key) : pathKey P text root row = key := by
  rw [pathKey,h]
  rfl

/-- A path index has every row under its key, and its keys can be told apart. -/
structure FilesPath (P : TreeParams) (rows : List (HeapRow × ℕ)) (e : ExpressionIndexedPath) : Prop where
  keys : ∀ r ∈ rows, ∃ key, expressionKey P e.canonicalText (columnValue e.rootColIdx r.1.values) = .ok key
  entries : e.entries = rows.filterMap (keepNumber fun row => some (pathKey P e.canonicalText e.rootColIdx row))
  apart : e.unique = true → Apart P.Same e.entries
  held : ∀ x ∈ e.entries, x.1 ≠ .empty → x.1 ∈ e.held
  ordered : Ordered P e.held

namespace FilesPath
variable {e : ExpressionIndexedPath} {key : Value}

section
variable (h : FilesPath P rows e)
include h

lemma filed : Filed P.Same (fun row => some (pathKey P e.canonicalText e.rootColIdx row)) e.unique rows e.entries :=
  ⟨h.entries,h.apart⟩

lemma mem_entries :
    x ∈ e.entries ↔ ∃ r ∈ rows, pathKey P e.canonicalText e.rootColIdx r.1 = x.1 ∧ r.2 = x.2 := by
  simp only [h.filed.mem_iff,some.injEq]

lemma remove (hinc : Increasing rows) (hr : r ∈ rows) :
    FilesPath P (rows.filter (·.2 ≠ r.2)) (e.remove P (pathKey P e.canonicalText e.rootColIdx r.1) r.2) := by
  have hmem : (pathKey P e.canonicalText e.rootColIdx r.1,r.2) ∈ e.entries := h.mem_entries.mpr ⟨r,hr,rfl,rfl⟩
  have hsearch : (pathKey P e.canonicalText e.rootColIdx r.1).isEmpty = true ∨
      Ordered P (pathKey P e.canonicalText e.rootColIdx r.1::e.held) := by
    by_cases he : pathKey P e.canonicalText e.rootColIdx r.1 = .empty
    · exact .inl (by simp [he])
    · exact .inr (h.ordered.cons_of_mem (h.held _ hmem he))
  rw [ExpressionIndexedPath.remove,if_pos hsearch]
  have hfiled := h.filed.filter (p := fun x => x ≠ (pathKey P e.canonicalText e.rootColIdx r.1,r.2)) (q := (·.2 ≠ r.2)) ?_
  · exact ⟨fun r' hr' => h.keys r' (mem_filter.mp hr').1,hfiled.entries,hfiled.apart,
      fun x hx => h.held x (mem_filter.mp hx).1,h.ordered⟩
  · rintro r' hr' _ ⟨⟩
    rw [Bool.eq_iff_iff,decide_eq_true_iff,decide_eq_true_iff,not_iff_not]
    constructor
    · intro heq
      exact (Prod.mk.inj heq).2
    · intro heq
      rw [hinc.eq_of_number hr' hr heq]

omit h in
/-- A row filed under its key, if that can be told apart from the other keys. -/
lemma add_eq (hrid : ∀ x ∈ e.entries, x.2 ≠ rid) (hord : key ≠ .empty → Ordered P (key::e.held))
    (hfresh : e.unique = true → key ≠ .empty → ∀ x ∈ e.entries, P.cmp x.1 key ≠ .eq) :
    e.add P key rid = {e with
      entries := insertNumbered (key,rid) e.entries, held := if key = .empty then e.held else key::e.held} := by
  have honce : e.addOnce key rid = insertNumbered (key,rid) e.entries := if_neg fun hmem => hrid _ hmem rfl
  rw [ExpressionIndexedPath.add,honce]
  by_cases he : key = .empty
  · rw [if_pos (by simp [he]),if_pos he]
  · rw [if_neg (by simpa using he),if_neg he,if_pos (hord he)]
    split_ifs with hu
    · have hkeep : e.entries.filter (fun x => P.cmp x.1 key != .eq) = e.entries :=
        filter_eq_self.mpr fun x hx => bne_iff_ne.mpr (hfresh hu he x hx)
      rw [hkeep]
    · rfl

lemma add (hinc : Increasing rows) {row : HeapRow} (hrid : ∀ r ∈ rows, r.2 ≠ rid)
    (hkey : expressionKey P e.canonicalText (columnValue e.rootColIdx row.values) = .ok key)
    (hord : key ≠ .empty → Ordered P (key::e.held))
    (hfresh : e.unique = true → key ≠ .empty → ∀ x ∈ e.entries, P.cmp x.1 key ≠ .eq) :
    FilesPath P (insertNumbered (row,rid) rows) (e.add P key rid) := by
  have hfiled := h.filed.insert hinc (congrArg some (pathKey_of_ok hkey)) ?_ rid
  · rw [add_eq (fun x hx => let ⟨r,hr,_,hnum⟩ := h.mem_entries.mp hx; hnum ▸ hrid r hr) hord hfresh]
    refine ⟨fun r hr => ?_,hfiled.entries,hfiled.apart,fun x hx hne => ?_,?_⟩
    · rcases mem_insertNumbered.mp hr with rfl | hr
      · exact ⟨key,hkey⟩
      · exact h.keys r hr
    · rcases mem_insertNumbered.mp hx with rfl | hx
      · rw [if_neg hne]
        exact mem_cons_self
      · dsimp only
        split
        · exact h.held x hx hne
        · exact mem_cons_of_mem _ (h.held x hx hne)
    · dsimp only
      split_ifs with he
      · exact h.ordered
      · exact hord he
  · refine fun hu x hx => ⟨fun hsame => ?_,fun hsame => ?_⟩
    · by_cases he : key = .empty
      · exact hsame.1 (P.cmp_empty (he ▸ hsame.2))
      · exact hfresh hu he x hx hsame.2
    · have hne : x.1 ≠ .empty := fun hx => hsame.1 (P.cmp_empty (hx ▸ hsame.2))
      have hmem := mem_cons_of_mem key (h.held x hx hne)
      exact hfresh hu hsame.1 x hx ((hord hsame.1).symm mem_cons_self hmem hsame.2)

lemma replace (hinc : Increasing rows) (hr : r ∈ rows)
    (hkey : expressionKey P e.canonicalText (columnValue e.rootColIdx row.values) =
      .ok (pathKey P e.canonicalText e.rootColIdx r.1)) :
    FilesPath P (insertNumbered (row,r.2) (rows.filter (·.2 ≠ r.2))) e := by
  have hfiled := h.filed.replace hinc hr (congrArg some (pathKey_of_ok hkey))
  refine ⟨fun r' hr' => ?_,hfiled.entries,hfiled.apart,h.held,h.ordered⟩
  rcases mem_insertNumbered.mp hr' with rfl | hr'
  · exact ⟨_,hkey⟩
  · exact h.keys r' (mem_filter.mp hr').1

end

/-- No row is found under a key. -/
lemma fresh_of_lookup (hord : Ordered P (key::e.held)) (hnone : e.lookup P key = none) :
    ∀ x ∈ e.entries, P.cmp x.1 key ≠ .eq := by
  rw [ExpressionIndexedPath.lookup,if_pos hord,map_eq_none_iff,find?_eq_none] at hnone
  intro x hx hcmp
  exact hnone x hx (by simp [hcmp])

/-- At most the row itself is found under a key. -/
lemma fresh_of_lookup_own (h : FilesPath P rows e) (hu : e.unique = true) (hne : key ≠ .empty)
    (hord : Ordered P (key::e.held)) {rid : ℕ} (hown : (e.lookup P key).any (· != rid) = false) :
    ∀ x ∈ e.entries, x.2 ≠ rid → P.cmp x.1 key ≠ .eq := by
  rw [ExpressionIndexedPath.lookup,if_pos hord] at hown
  intro x hx hrid hcmp
  refine h.filed.not_found hu hown ?_ hx hrid (beq_iff_eq.mpr hcmp)
  have hheld : ∀ z ∈ e.entries, P.cmp z.1 key = .eq → z.1 ≠ .empty ∧ z.1 ∈ key::e.held := by
    intro z hz hzk
    have hzne := P.ne_empty hzk hne
    exact ⟨hzne,mem_cons_of_mem _ (h.held z hz hzne)⟩
  intro y hy z hz hyk hzk
  rw [beq_iff_eq] at hyk hzk
  obtain ⟨hyne,hyheld⟩ := hheld y hy hyk
  obtain ⟨-,hzheld⟩ := hheld z hz hzk
  exact ⟨hyne,hord.eq_trans hyheld mem_cons_self hzheld hyk (hord.symm hzheld mem_cons_self hzk)⟩

end FilesPath
end PowDB.Storage
