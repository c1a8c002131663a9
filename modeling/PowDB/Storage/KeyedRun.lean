import Mathlib.Data.List.Induction
import PowDB.Lib.Outcome
import PowDB.Storage.KeyedTable

/-! Every step of a table keeps its indexes sound, unless it gives an integer to a
timestamp column with a non-unique index. -/
namespace PowDB.Storage
open Lib List Option
section Sound
variable {C : CoerceOps} {t : KeyedTable}
  {values : List Value} {c : ℕ} {assignments : List (ℕ × Value)} {r : List Value × ℕ}
  {idx : ColumnIndex}

/-- Every index has exactly the rows of the heap under their stored values. -/
structure Sound (t : KeyedTable) : Prop where
  increasing : Increasing t.rows
  width : ∀ r ∈ t.rows, r.1.length = t.columns.length
  typed : ∀ r ∈ t.rows, ∀ c, columnValue c r.1 = .empty ∨ (columnValue c r.1).typeId = t.columnType c
  indexes : ∀ idx ∈ t.indexes, Indexes (t.columnType idx.colIdx) idx (t.image idx.colIdx)
  distinct : ∀ idx ∈ t.indexes, idx.unique = true → ((t.image idx.colIdx).map Prod.fst).Nodup

/-- No integer is given to a timestamp column with a non-unique index. -/
def TableStep.TimestampsGiven (t : KeyedTable) : TableStep → Prop
  | .insert raw _ => ∀ idx ∈ t.indexes, idx.unique = false → t.columnType idx.colIdx = .dateTime →
      (columnValue idx.colIdx raw).typeId ≠ .int
  | .update assignments _ _ => ∀ idx ∈ t.indexes, idx.unique = false → t.columnType idx.colIdx = .dateTime →
      ∀ a ∈ assignments, a.1 = idx.colIdx → a.2.typeId ≠ .int
  | _ => True

instance (t : KeyedTable) : (s : TableStep) → Decidable (s.TimestampsGiven t)
  | .insert _ _ | .update _ _ _ => inferInstanceAs (Decidable (∀ _ ∈ _, _))
  | .delete _ | .createIndex _ _ | .rebuild => .isTrue trivial

lemma columnValue_storeRow (hlen : values.length = t.columns.length) (c : ℕ) :
    columnValue c (KeyedTable.storeRow t.columns values) = storedValue (t.columnType c) (columnValue c values) := by
  simp only [columnValue,KeyedTable.storeRow,KeyedTable.columnType,getElem?_zipWith]
  by_cases hc : c < t.columns.length
  · simp [hc,hlen]
  · rw [getElem?_eq_none (by omega : t.columns.length ≤ c),getElem?_eq_none (by omega : values.length ≤ c)]
    rfl

lemma coerceRow_spec (h : KeyedTable.coerceRow C columns raw = .ok values) :
    values.length = columns.length ∧ ∀ (c : ℕ) (col : ColumnDef), columns[c]? = some col →
      coerceValue C col (columnValue c raw) = .ok (columnValue c values) := by
  induction columns generalizing raw values with
  | nil =>
    cases h
    simp
  | cons col cols ih =>
    simp only [KeyedTable.coerceRow] at h
    split at h
    · cases h
    · rename_i v hv
      obtain ⟨rest,hrest,hvalues⟩ := bind_ok_iff.mp h
      cases hvalues
      obtain ⟨hlen,hcols⟩ := ih hrest
      refine ⟨by simp [hlen],?_⟩
      intro c col' hc
      cases c with
      | zero =>
        cases hc
        cases raw <;> exact hv
      | succ c =>
        have hc' := hcols c col' hc
        cases raw <;> exact hc'

lemma columnType_of (h : t.columns[c]? = some col) : t.columnType c = col.typeId := by
  simp [KeyedTable.columnType,h]

lemma columnValue_of_width (hlen : values.length = t.columns.length) (hc : t.columns[c]? = none) :
    columnValue c values = .empty := by
  rw [columnValue,getElem?_eq_none]
  · rfl
  · rw [hlen]
    exact getElem?_eq_none_iff.mp hc

/-- Rows as a statement gives them. -/
structure Given (t : KeyedTable) (values : List Value) : Prop where
  width : values.length = t.columns.length
  acceptable : ∀ c, Acceptable (t.columnType c) (columnValue c values)
  typed : ∀ idx ∈ t.indexes, idx.unique = false →
    columnValue idx.colIdx values = .empty ∨ (columnValue idx.colIdx values).typeId = t.columnType idx.colIdx

lemma Given.of_coerceRow (h : KeyedTable.coerceRow C t.columns raw = .ok values)
    (hgiven : TableStep.TimestampsGiven t (.insert raw rid)) : Given t values := by
  obtain ⟨hlen,hcols⟩ := coerceRow_spec h
  refine ⟨hlen,?_,?_⟩
  · intro c
    cases hc : t.columns[c]? with
    | none =>
      rw [columnValue_of_width hlen hc]
      exact .inl rfl
    | some col =>
      rw [columnType_of hc]
      exact coerceValue_acceptable (hcols c col hc)
  · intro idx hidx hu
    cases hc : t.columns[idx.colIdx]? with
    | none => exact .inl (columnValue_of_width hlen hc)
    | some col =>
      rw [columnType_of hc]
      apply coerceValue_typed (hcols _ col hc)
      rintro ⟨ht,hint⟩
      exact hgiven idx hidx hu ((columnType_of hc).trans ht) hint

lemma coerceAssignments_spec (h : t.coerceAssignments C assignments = .ok changed) :
    ∀ a ∈ changed, ∃ col v, t.columns[a.1]? = some col ∧ (a.1,v) ∈ assignments ∧ coerceValue C col v = .ok a.2 := by
  induction assignments generalizing changed with
  | nil =>
    cases h
    simp
  | cons a assignments ih =>
    obtain ⟨c,v⟩ := a
    simp only [KeyedTable.coerceAssignments] at h
    split at h
    · cases h
    · rename_i col hc
      split at h
      · cases h
      · rename_i w hw
        obtain ⟨rest,hrest,hchanged⟩ := bind_ok_iff.mp h
        cases hchanged
        intro a ha
        rcases mem_cons.mp ha with rfl | ha
        · exact ⟨col,v,hc,by simp,hw⟩
        · obtain ⟨col',v',hc',hmem,hv'⟩ := ih hrest a ha
          exact ⟨col',v',hc',mem_cons_of_mem _ hmem,hv'⟩

lemma length_assign (row : List Value) (changed : List (ℕ × Value)) :
    (KeyedTable.assign row changed).length = row.length := by
  induction changed generalizing row with
  | nil => rfl
  | cons a changed ih =>
    have h := ih (row.set a.1 a.2)
    simpa [KeyedTable.assign] using h

/-- An updated row has its old value in a column, or one that was assigned to it. -/
lemma columnValue_assign (row : List Value) (changed : List (ℕ × Value)) (c : ℕ) :
    columnValue c (KeyedTable.assign row changed) = columnValue c row ∨
      (c,columnValue c (KeyedTable.assign row changed)) ∈ changed := by
  induction changed generalizing row with
  | nil => exact .inl rfl
  | cons a changed ih =>
    have hstep : KeyedTable.assign row (a::changed) = KeyedTable.assign (row.set a.1 a.2) changed := rfl
    rw [hstep]
    rcases ih (row.set a.1 a.2) with h | h
    · rw [h]
      by_cases hc : a.1 = c ∧ c < row.length
      · right
        have hset : columnValue c (row.set a.1 a.2) = a.2 := by simp [columnValue,hc.1,hc.2]
        rw [hset,← hc.1]
        exact mem_cons_self
      · left
        simp only [columnValue,getElem?_set]
        by_cases ha : a.1 = c
        · have hlen : ¬ c < row.length := fun hlt => hc ⟨ha,hlt⟩
          rw [if_pos ha,if_neg (ha ▸ hlen),getElem?_eq_none (Nat.le_of_not_lt hlen)]
        · rw [if_neg ha]
    · exact .inr (mem_cons_of_mem _ h)

lemma Given.of_assign (hs : Sound t) (hr : r ∈ t.rows)
    (h : t.coerceAssignments C assignments = .ok changed)
    (hgiven : TableStep.TimestampsGiven t (.update assignments rid newRid)) :
    Given t (KeyedTable.assign r.1 changed) := by
  have hold : ∀ c, Acceptable (t.columnType c) (columnValue c r.1) := by
    intro c
    rcases hs.typed r hr c with h | h
    · exact .inl h
    · exact .inr (.inl h)
  refine ⟨by rw [length_assign,hs.width r hr],?_,?_⟩
  · intro c
    rcases columnValue_assign r.1 changed c with h' | h'
    · rw [h']
      exact hold c
    · obtain ⟨col,v,hc,-,hv⟩ := coerceAssignments_spec h _ h'
      rw [columnType_of hc]
      exact coerceValue_acceptable hv
  · intro idx hidx hu
    rcases columnValue_assign r.1 changed idx.colIdx with h' | h'
    · rw [h']
      exact hs.typed r hr idx.colIdx
    · obtain ⟨col,v,hc,hmem,hv⟩ := coerceAssignments_spec h _ h'
      rw [columnType_of hc]
      apply coerceValue_typed hv
      rintro ⟨ht,hint⟩
      exact hgiven idx hidx hu ((columnType_of hc).trans ht) _ hmem rfl hint

lemma indexed_eq_none : indexed c row = none ↔ columnValue c row = .empty := by
  simp [indexed]

lemma indexed_of_ne (h : columnValue c row ≠ .empty) : indexed c row = some (columnValue c row) := by
  simp [indexed,h]

lemma indexed_eq_some : indexed c row = some v ↔ v ≠ .empty ∧ columnValue c row = v := by
  constructor
  · intro h
    have hne : columnValue c row ≠ .empty := fun he => nomatch (indexed_eq_none.mpr he).symm.trans h
    rw [indexed_of_ne hne] at h
    exact ⟨some.inj h ▸ hne,some.inj h⟩
  · rintro ⟨hne,rfl⟩
    exact indexed_of_ne hne

lemma indexed_storeRow (hlen : values.length = t.columns.length) (c : ℕ) :
    indexed c (KeyedTable.storeRow t.columns values) =
      if columnValue c values = .empty then none
      else some (storedValue (t.columnType c) (columnValue c values)) := by
  rw [indexed,columnValue_storeRow hlen]
  by_cases he : columnValue c values = .empty <;> simp [he]

lemma mem_image :
    x ∈ t.image c ↔ ∃ r ∈ t.rows, (x.1 ≠ .empty ∧ columnValue c r.1 = x.1) ∧ r.2 = x.2 := by
  simp only [KeyedTable.image,mem_filterMap,keepNumber_eq_some,indexed_eq_some]

/-- The index without the entry of a row. -/
lemma Sound.removed [Exact pj1Cmp] (hs : Sound t) (hr : r ∈ t.rows)
    (hidx : idx ∈ t.indexes) :
    Indexes (t.columnType idx.colIdx) (idx.delete (Value.cmp pj1Cmp) (columnValue idx.colIdx r.1) r.2)
      ((t.image idx.colIdx).filter (fun x => x.2 ≠ r.2)) := by
  by_cases he : columnValue idx.colIdx r.1 = .empty
  · have hkeep : (t.image idx.colIdx).filter (fun x => decide (x.2 ≠ r.2)) = t.image idx.colIdx := by
      apply filter_eq_self.mpr
      intro x hx
      obtain ⟨r',hr',⟨hne,hv⟩,hnum⟩ := mem_image.mp hx
      simp only [decide_eq_true_eq]
      intro hxr
      rw [hs.increasing.eq_of_number hr' hr (hnum.trans hxr)] at hv
      exact hne (hv.symm.trans he)
    rw [hkeep]
    simpa [ColumnIndex.delete,he] using hs.indexes idx hidx
  · have hv := (hs.typed r hr idx.colIdx).resolve_left he
    exact (hs.indexes idx hidx).delete (hs.increasing.filterMap _) (hs.distinct idx hidx) hv he
      (mem_image.mpr ⟨r,hr,⟨he,rfl⟩,rfl⟩)

/-- The index of rows to which one more is added. -/
lemma Given.added [Exact pj1Cmp] (hv : Given t values)
    (hidx : idx ∈ t.indexes) (huniq : idx'.unique = idx.unique)
    (hrows : Increasing rows)
    (hi : Indexes (t.columnType idx.colIdx) idx' (rows.filterMap (keepNumber (indexed idx.colIdx))))
    (hfresh : idx.unique = true → columnValue idx.colIdx values ≠ .empty →
      ∀ x ∈ rows.filterMap (keepNumber (indexed idx.colIdx)),
        x.1 ≠ storedValue (t.columnType idx.colIdx) (columnValue idx.colIdx values)) (rid : ℕ) :
    Indexes (t.columnType idx.colIdx) (idx'.insert (Value.cmp pj1Cmp) (columnValue idx.colIdx values) rid)
      ((insertNumbered (KeyedTable.storeRow t.columns values,rid) rows).filterMap
        (keepNumber (indexed idx.colIdx))) := by
  rw [hrows.filterMap_insertNumbered]
  simp only [indexed_storeRow hv.width]
  by_cases he : columnValue idx.colIdx values = .empty
  · simpa [ColumnIndex.insert,he] using hi
  · simp only [if_neg he]
    refine hi.insert (hv.acceptable _) he ?_ ?_
    · intro hu
      exact (hv.typed idx hidx (huniq ▸ hu)).resolve_left he
    · intro hu
      exact hfresh (huniq ▸ hu) he

/-- A row that a unique index takes has a value no other row has. -/
lemma fresh_of_preflight [Exact pj1Cmp] (hs : Sound t) (hv : Given t values)
    (hpre : t.preflight (Value.cmp pj1Cmp) values none = none) (hidx : idx ∈ t.indexes) (hu : idx.unique = true)
    (hne : columnValue idx.colIdx values ≠ .empty) :
    ∀ x ∈ t.image idx.colIdx, x.1 ≠ storedValue (t.columnType idx.colIdx) (columnValue idx.colIdx values) := by
  simp only [KeyedTable.preflight,map_eq_none_iff,find?_eq_none] at hpre
  have hlookup := hpre idx hidx
  rw [(hs.indexes idx hidx).lookup (hv.acceptable _)] at hlookup
  intro x hx hxv
  apply hlookup
  simp only [hu,isSome_map,Bool.and_eq_true,find?_isSome]
  exact ⟨by simpa using hne,x,hx,by simpa using hxv⟩

lemma fresh_of_preflight_update [Exact pj1Cmp] (hs : Sound t) (hv : Given t values)
    (hr : r ∈ t.rows) (hpre : t.preflight (Value.cmp pj1Cmp) values (some r) = none) (hidx : idx ∈ t.indexes)
    (hu : idx.unique = true) (hne : columnValue idx.colIdx values ≠ .empty) :
    ∀ x ∈ (t.rows.filter (fun x => x.2 ≠ r.2)).filterMap (keepNumber (indexed idx.colIdx)),
      x.1 ≠ storedValue (t.columnType idx.colIdx) (columnValue idx.colIdx values) := by
  rw [filterMap_filter_number]
  intro x hx hxv
  obtain ⟨hx,hxr⟩ := mem_filter.mp hx
  have hxr : x.2 ≠ r.2 := by simpa using hxr
  have hfiled : Filed Eq (indexed idx.colIdx) true t.rows (t.image idx.colIdx) :=
    ⟨rfl,fun _ _ hy _ hz heq => inj_on_of_nodup_map (hs.distinct idx hidx hu) hy hz heq⟩
  by_cases hold : columnValue idx.colIdx r.1 = columnValue idx.colIdx values
  · have htyped := (hs.typed r hr idx.colIdx).resolve_left (hold ▸ hne)
    rw [← hold,storedValue_of_typeId htyped] at hxv
    have hmem : (columnValue idx.colIdx r.1,r.2) ∈ t.image idx.colIdx := mem_image.mpr ⟨r,hr,⟨hold ▸ hne,rfl⟩,rfl⟩
    exact hfiled.unlike rfl hx hmem hxr hxv
  · simp only [KeyedTable.preflight,map_eq_none_iff,find?_eq_none] at hpre
    have hown := hpre idx hidx
    rw [(hs.indexes idx hidx).lookup (hv.acceptable _)] at hown
    refine hfiled.not_found rfl (by simpa [hu,hne,hold] using hown) ?_ hx hxr (decide_eq_true hxv)
    exact fun y _ z _ hy hz => (of_decide_eq_true hy).trans (of_decide_eq_true hz).symm

/-- A row put into a sound table, with every index given its entry. -/
lemma Sound.place (hs : Sound t) (hv : Given t values)
    (hsub : rows <+ t.rows) (hrid : ∀ r ∈ rows, r.2 ≠ rid)
    (hcol : ∀ idx, (f idx).colIdx = idx.colIdx) (huniq : ∀ idx, (f idx).unique = idx.unique)
    (hindexes : ∀ idx ∈ t.indexes, Indexes (t.columnType idx.colIdx) (f idx)
      ((insertNumbered (KeyedTable.storeRow t.columns values,rid) rows).filterMap (keepNumber (indexed idx.colIdx))))
    (hfresh : ∀ idx ∈ t.indexes, idx.unique = true → columnValue idx.colIdx values ≠ .empty →
      ∀ x ∈ rows.filterMap (keepNumber (indexed idx.colIdx)),
        x.1 ≠ storedValue (t.columnType idx.colIdx) (columnValue idx.colIdx values)) :
    Sound {t with
      rows := insertNumbered (KeyedTable.storeRow t.columns values,rid) rows
      indexes := t.indexes.map f } where
  increasing := Increasing.insertNumbered (hs.increasing.sublist hsub) hrid
  width := by
    intro r hr
    rcases mem_insertNumbered.mp hr with rfl | hr
    · simp [KeyedTable.storeRow,hv.width]
    · exact hs.width r (hsub.subset hr)
  typed := by
    intro r hr
    rcases mem_insertNumbered.mp hr with rfl | hr
    · intro c
      rw [columnValue_storeRow hv.width]
      exact storedValue_typed (hv.acceptable c)
    · exact hs.typed r (hsub.subset hr)
  indexes := by
    intro idx hidx
    obtain ⟨idx,hmem,rfl⟩ := mem_map.mp hidx
    rw [hcol]
    exact hindexes idx hmem
  distinct := by
    intro idx hidx hu
    obtain ⟨idx,hmem,rfl⟩ := mem_map.mp hidx
    rw [huniq] at hu
    have hinc : Increasing rows := hs.increasing.sublist hsub
    rw [hcol,KeyedTable.image,hinc.filterMap_insertNumbered]
    simp only [indexed_storeRow hv.width]
    have hd := (hs.distinct idx hmem hu).sublist ((hsub.filterMap _).map _)
    by_cases he : columnValue idx.colIdx values = .empty
    · simpa only [if_pos he] using hd
    · simp only [if_neg he]
      apply ((insertNumbered_perm _ _).map Prod.fst).nodup_iff.mpr
      rw [map_cons,nodup_cons]
      refine ⟨?_,hd⟩
      intro hmem'
      obtain ⟨x,hx,hxv⟩ := mem_map.mp hmem'
      exact hfresh idx hmem hu he x hx hxv

lemma Sound.insert [Exact pj1Cmp] (hs : Sound t)
    (hgiven : TableStep.TimestampsGiven t (.insert raw rid)) (h : t.insert C (Value.cmp pj1Cmp) raw rid = .ok t') :
    Sound t' := by
  obtain ⟨values,hcoerce,h⟩ := bind_ok_iff.mp h
  have hv := Given.of_coerceRow hcoerce hgiven
  split_ifs at h with hslot
  split at h
  · cases h
  · rename_i hpre
    cases h
    have hrid : ∀ r ∈ t.rows, r.2 ≠ rid := by simpa only [List.any_eq_true,decide_eq_true_eq,not_exists,not_and] using hslot
    have hfresh := fun (idx : ColumnIndex) (hidx : idx ∈ t.indexes) =>
      fresh_of_preflight hs hv hpre hidx
    refine hs.place hv (.refl _) hrid (by simp) (by simp) ?_ hfresh
    intro idx hidx
    exact hv.added hidx rfl hs.increasing (hs.indexes idx hidx) (hfresh idx hidx) rid

lemma Sound.delete [Exact pj1Cmp] (hs : Sound t)
    (h : t.delete (Value.cmp pj1Cmp) rid = .ok t') : Sound t' := by
  simp only [KeyedTable.delete] at h
  split at h
  · cases h
  · rename_i row hrow
    cases h
    have hmem := mem_of_find_number hrow
    have himage : ∀ c, (t.rows.filter (fun r => decide (r.2 ≠ rid))).filterMap (keepNumber (indexed c)) =
        (t.image c).filter (fun x => x.2 ≠ rid) := fun c => filterMap_filter_number (indexed c) t.rows rid
    refine ⟨hs.increasing.filter _,?_,?_,?_,?_⟩
    · exact fun r hr => hs.width r (mem_filter.mp hr).1
    · exact fun r hr => hs.typed r (mem_filter.mp hr).1
    · intro idx hidx
      obtain ⟨idx,hold,rfl⟩ := mem_map.mp hidx
      simp only [ColumnIndex.delete_colIdx,KeyedTable.image,himage]
      exact hs.removed hmem hold
    · intro idx hidx hu
      obtain ⟨idx,hold,rfl⟩ := mem_map.mp hidx
      simp only [ColumnIndex.delete_colIdx,ColumnIndex.delete_unique,KeyedTable.image,himage] at hu ⊢
      exact (hs.distinct idx hold hu).sublist (filter_sublist.map _)

/-- An index that is left alone belongs to a row with its old value in its old
place. -/
lemma moveEntry_cases (cmp : Value → Value → Ordering) (rid newRid : ℕ)
    (htouches : touches = false → columnValue idx.colIdx values = columnValue idx.colIdx old) :
    (KeyedTable.moveEntry cmp touches old values rid newRid idx = idx ∧
      columnValue idx.colIdx values = columnValue idx.colIdx old ∧ newRid = rid) ∨
    KeyedTable.moveEntry cmp touches old values rid newRid idx =
      (idx.delete cmp (columnValue idx.colIdx old) rid).insert cmp (columnValue idx.colIdx values) newRid := by
  simp only [KeyedTable.moveEntry]
  cases touches with
  | true =>
    by_cases hsame : columnValue idx.colIdx old = columnValue idx.colIdx values ∧ newRid = rid
    · exact .inl ⟨by simp [hsame],hsame.1.symm,hsame.2⟩
    · exact .inr (by simp [hsame])
  | false =>
    have hv := htouches rfl
    by_cases hrid : newRid = rid
    · exact .inl ⟨by simp [hrid],hv,hrid⟩
    · exact .inr (by simp [hrid,hv])

/-- A row written back to its place under the values it had. -/
lemma image_unchanged (hs : Sound t) (hr : r ∈ t.rows) (hv : Given t values)
    (hsame : columnValue c r.1 = columnValue c values) :
    (insertNumbered (KeyedTable.storeRow t.columns values,r.2) (t.rows.filter (fun x => x.2 ≠ r.2))).filterMap
      (keepNumber (indexed c)) = t.image c := by
  refine hs.increasing.filterMap_replace hr ?_
  rw [indexed,indexed,columnValue_storeRow hv.width,← hsame]
  rcases hs.typed r hr c with he | htyped
  · rw [he]
    rfl
  · rw [storedValue_of_typeId htyped]

lemma Sound.update [Exact pj1Cmp] (hs : Sound t)
    (hgiven : TableStep.TimestampsGiven t (.update assignments rid newRid))
    (h : t.update C (Value.cmp pj1Cmp) assignments rid newRid = .ok t') : Sound t' := by
  simp only [KeyedTable.update] at h
  split at h
  · cases h
  · rename_i old hrow
    obtain ⟨changed,hcoerce,h⟩ := bind_ok_iff.mp h
    split_ifs at h with hslot
    split at h
    · cases h
    · rename_i hpre
      cases h
      have hmem := mem_of_find_number hrow
      have hv : Given t (KeyedTable.assign old changed) := Given.of_assign hs hmem hcoerce hgiven
      have hrest : ∀ r ∈ t.rows.filter (fun x => decide (x.2 ≠ rid)), r.2 ≠ newRid := by
        intro r hr heq
        obtain ⟨hr,hne⟩ := mem_filter.mp hr
        have hne : r.2 ≠ rid := by simpa using hne
        apply hslot
        refine ⟨fun hnew => hne (heq.trans hnew),?_⟩
        exact any_eq_true.mpr ⟨r,hr,by simpa using heq⟩
      have hfresh := fun (idx : ColumnIndex) (hidx : idx ∈ t.indexes) =>
        fresh_of_preflight_update hs hv hmem hpre hidx
      have hkept : ∀ idx ∈ t.indexes, t.indexes.any (fun idx => changed.any (fun a => decide (a.1 = idx.colIdx))) = false →
          columnValue idx.colIdx (KeyedTable.assign old changed) = columnValue idx.colIdx old := by
        intro idx hidx htouches
        refine (columnValue_assign old changed idx.colIdx).resolve_right fun hassigned => ?_
        exact any_eq_false.mp htouches idx hidx (any_eq_true.mpr ⟨_,hassigned,decide_eq_true rfl⟩)
      refine hs.place hv filter_sublist hrest ?_ ?_ ?_ hfresh
      · intro idx
        simp only [KeyedTable.moveEntry]
        split_ifs <;> simp
      · intro idx
        simp only [KeyedTable.moveEntry]
        split_ifs <;> simp
      · intro idx hidx
        rcases moveEntry_cases (Value.cmp pj1Cmp) rid newRid (hkept idx hidx) with ⟨hkeep,hsame,hnew⟩ | hmove
        · rw [hkeep,hnew,image_unchanged hs hmem hv hsame.symm]
          exact hs.indexes idx hidx
        · rw [hmove]
          refine hv.added hidx (by simp) (hs.increasing.filter _) ?_ (hfresh idx hidx) newRid
          rw [filterMap_filter_number]
          exact hs.removed hmem hidx

variable (pj1Cmp) in
/-- An index built by a scan. -/
lemma built_indexes [Exact pj1Cmp] (hinc : Increasing rows)
    (htyped : ∀ r ∈ rows, columnValue c r.1 = .empty ∨ (columnValue c r.1).typeId = type)
    (hdistinct : unique = true → ((rows.filterMap (keepNumber (indexed c))).map Prod.fst).Nodup) :
    let out := rows.foldl (fun idx r => idx.insert (Value.cmp pj1Cmp) (columnValue c r.1) r.2) ⟨c,unique,[]⟩
    Indexes type out (rows.filterMap (keepNumber (indexed c))) ∧ out.colIdx = c ∧ out.unique = unique := by
  -- The rows come in order, so each goes behind the ones before it.
  induction rows using reverseRecOn with
  | nil => exact ⟨Indexes.empty _ _ _,rfl,rfl⟩
  | append_singleton rows r ih =>
    obtain ⟨hinc',hlast⟩ := hinc.init
    have hr : r ∈ rows++[r] := mem_append_right _ (mem_singleton_self r)
    have hsplit : unique = true → _ := fun hu => nodup_append.mp (map_append ▸ filterMap_append ▸ hdistinct hu)
    obtain ⟨hidx,hcol,hu⟩ := ih hinc' (fun r' hr' => htyped r' (mem_append_left _ hr')) fun hu => (hsplit hu).1
    rw [foldl_append,foldl_cons,foldl_nil,← insertNumbered_last hlast,hinc'.filterMap_insertNumbered]
    refine ⟨?_,by simp [hcol],by simp [hu]⟩
    by_cases he : columnValue c r.1 = .empty
    · rw [indexed_eq_none.mpr he,he]
      exact hidx
    · have ht := (htyped r hr).resolve_left he
      rw [indexed_of_ne he]
      have hadd : Indexes type (ColumnIndex.insert (Value.cmp pj1Cmp) _ _ r.2) _ :=
        hidx.insert (.inr (.inl ht)) he (fun _ => ht) ?_
      · rwa [storedValue_of_typeId ht] at hadd
      · intro huniq x hx hxv
        rw [storedValue_of_typeId ht] at hxv
        refine (hsplit (hu ▸ huniq)).2.2 x.1 (mem_map.mpr ⟨x,hx,rfl⟩) (columnValue c r.1) ?_ hxv
        simp [keepNumber,indexed_of_ne he]

variable (pj1Cmp) in
lemma buildIndex_indexes [Exact pj1Cmp] (hs : Sound t)
    (hdistinct : unique = true → ((t.image c).map Prod.fst).Nodup) :
    Indexes (t.columnType c) (t.buildIndex (Value.cmp pj1Cmp) c unique) (t.image c) ∧
    (t.buildIndex (Value.cmp pj1Cmp) c unique).colIdx = c ∧
    (t.buildIndex (Value.cmp pj1Cmp) c unique).unique = unique :=
  built_indexes pj1Cmp hs.increasing (fun r hr => hs.typed r hr c) hdistinct

lemma Sound.createIndex [Exact pj1Cmp] (hs : Sound t)
    (h : t.createIndex (Value.cmp pj1Cmp) c unique = .ok t') : Sound t' := by
  simp only [KeyedTable.createIndex] at h
  split_ifs at h with _ _ hdup
  cases h
  have hdistinct : unique = true → ((t.image c).map Prod.fst).Nodup := by
    intro hu
    by_contra hnot
    exact hdup ⟨hu,hnot⟩
  obtain ⟨hidx,hcol,hu⟩ := buildIndex_indexes pj1Cmp hs hdistinct
  refine ⟨hs.increasing,hs.width,hs.typed,?_,?_⟩
  · intro idx hmem
    rcases mem_append.mp hmem with hmem | hmem
    · exact hs.indexes idx hmem
    · rw [mem_singleton.mp hmem,hcol]
      exact hidx
  · intro idx hmem huniq
    rcases mem_append.mp hmem with hmem | hmem
    · exact hs.distinct idx hmem huniq
    · rw [mem_singleton.mp hmem] at huniq ⊢
      rw [hcol]
      exact hdistinct (hu ▸ huniq)

lemma Sound.rebuild [Exact pj1Cmp] (hs : Sound t) :
    Sound {t with indexes := t.indexes.map (fun idx => t.buildIndex (Value.cmp pj1Cmp) idx.colIdx idx.unique)} := by
  refine ⟨hs.increasing,hs.width,hs.typed,?_,?_⟩
  · intro idx hmem
    obtain ⟨old,hold,rfl⟩ := mem_map.mp hmem
    obtain ⟨hidx,hcol,-⟩ := buildIndex_indexes pj1Cmp hs (hs.distinct old hold)
    rw [hcol]
    exact hidx
  · intro idx hmem huniq
    obtain ⟨old,hold,rfl⟩ := mem_map.mp hmem
    obtain ⟨-,hcol,hu⟩ := buildIndex_indexes pj1Cmp hs (hs.distinct old hold)
    rw [hcol]
    exact hs.distinct old hold (hu ▸ huniq)

lemma Sound.stepAll [Exact pj1Cmp] (hs : Sound t)
    (hgiven : s.TimestampsGiven t) : Sound (t.stepAll C (Value.cmp pj1Cmp) s) := by
  simp only [KeyedTable.stepAll]
  split
  · rename_i t' h
    cases s with
    | insert raw rid => exact hs.insert hgiven h
    | delete rid => exact hs.delete h
    | update assignments rid newRid => exact hs.update hgiven h
    | createIndex column unique => exact hs.createIndex h
    | rebuild =>
      cases h
      exact hs.rebuild
  · exact hs

/-- The steps of a run, each judged where it is taken. -/
def TimestampsGiven (C : CoerceOps) (cmp : Value → Value → Ordering) : KeyedTable → List TableStep → Prop
  | _,[] => True
  | t,s::steps => s.TimestampsGiven t ∧ TimestampsGiven C cmp (t.stepAll C cmp s) steps

instance decidableTimestampsGiven (C : CoerceOps) (cmp : Value → Value → Ordering) :
    (t : KeyedTable) → (steps : List TableStep) → Decidable (TimestampsGiven C cmp t steps)
  | _,[] => .isTrue trivial
  | t,s::steps =>
    have := decidableTimestampsGiven C cmp (t.stepAll C cmp s) steps
    inferInstanceAs (Decidable (_ ∧ _))

lemma Sound.run [Exact pj1Cmp] (hs : Sound t)
    (hgiven : TimestampsGiven C (Value.cmp pj1Cmp) t steps) : Sound (t.run C (Value.cmp pj1Cmp) steps) := by
  induction steps generalizing t with
  | nil => exact hs
  | cons s steps ih => exact ih (hs.stepAll hgiven.1) hgiven.2

/-- A table as it is created. -/
lemma sound_empty (columns : Schema) : Sound ⟨columns,[],[]⟩ :=
  ⟨.nil,by simp,by simp,by simp,by simp⟩

end Sound
end PowDB.Storage
