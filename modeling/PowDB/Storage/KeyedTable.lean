import PowDB.Lib.NumberedList
import PowDB.Storage.ValueOrder
import PowDB.Storage.Wal

/-! Tables with secondary indexes. The heap keeps the rows as they decode, an
index keeps its rows under the values the statement gave, and a non-unique index
tells values of different types apart while a unique one compares them. -/
namespace PowDB.Storage
open Prod Value
variable {v : Value} {t : TypeId}
open Lib List
inductive CoerceError
  | invalidJson (column : String)
  | datetimeFromString (column text : String)
  | notUuid (column text : String)
  | notBytes (column text : String)
  | notWhole (column : String) (bits : UInt64)
  | typeMismatch (column : String) (expected : TypeId) (got : String)
  deriving DecidableEq

/-- The conversions a column makes. -/
structure CoerceOps where
  parseJsonText : String → Option Bytes
  parseUuidStr : String → Option Bytes
  parseHexBytes : String → Option Bytes
  exactI64 : UInt64 → Option Int64

def gotWord : Value → String
  | .int _ => "int"
  | .float _ => "float"
  | .bool _ => "bool"
  | .str _ => "str"
  | .empty => "null"
  | _ => "other"

/-- The value a column takes in place of a given one. A timestamp given as an
integer stays an integer. -/
def coerceValue (C : CoerceOps) (col : ColumnDef) (val : Value) : Except CoerceError Value :=
  match val,col.typeId with
  | .empty,_ => .ok val
  | .int _,.int | .float _,.float | .bool _,.bool | .str _,.str | .json _,.json => .ok val
  | .str s,.json =>
    match C.parseJsonText s with
    | some doc => .ok (.json doc)
    | none => .error (.invalidJson col.name)
  | .dateTime _,.dateTime | .uuid _,.uuid | .bytes _,.bytes => .ok val
  | .int v,.float => .ok (.float (Binary64.ofInt v.toInt))
  | .int v,.dateTime => .ok (.int v)
  | .str s,.dateTime => .error (.datetimeFromString col.name s)
  | .str s,.uuid =>
    match C.parseUuidStr s with
    | some b => .ok (.uuid b)
    | none => .error (.notUuid col.name s)
  | .str s,.bytes =>
    match C.parseHexBytes s with
    | some b => .ok (.bytes b)
    | none => .error (.notBytes col.name s)
  | .float v,.int =>
    match C.exactI64 v with
    | some i => .ok (.int i)
    | none => .error (.notWhole col.name v)
  | v,t => .error (.typeMismatch col.name t (gotWord v))

@[simp] lemma isEmpty_eq_false : v.isEmpty = false ↔ v ≠ .empty := by
  cases v <;> simp [Value.isEmpty]

/-- A value as the heap gives it back: the bytes of an integer in a timestamp
column are those of a timestamp. -/
def storedValue (t : TypeId) : Value → Value
  | .int v => if t = .dateTime then .dateTime v else .int v
  | v => v

/-- What a column of a type can be given. -/
def Acceptable (t : TypeId) (v : Value) : Prop :=
  v = .empty ∨ v.typeId = t ∨ (t = .dateTime ∧ v.typeId = .int)

lemma coerceValue_acceptable (h : coerceValue C col val = .ok v) :
    Acceptable col.typeId v := by
  cases val <;> cases ht : col.typeId <;> simp only [coerceValue,ht] at h <;>
    first
    | cases h; simp [Acceptable,typeId]
    | cases h
    | (split at h <;> cases h; simp [Acceptable,typeId])

/-- Only an integer for a timestamp keeps its own type. -/
lemma coerceValue_typed (h : coerceValue C col val = .ok v)
    (hval : ¬(col.typeId = .dateTime ∧ val.typeId = .int)) : v = .empty ∨ v.typeId = col.typeId := by
  rcases coerceValue_acceptable h with hv | hv | ⟨ht,hv⟩
  · exact .inl hv
  · exact .inr hv
  · cases val <;> simp [coerceValue,ht,typeId] at h hval <;> subst h <;> simp [typeId] at hv ⊢

@[simp] lemma storedValue_eq_empty : storedValue t v = .empty ↔ v = .empty := by
  cases v <;> simp [storedValue]
  split_ifs <;> simp

lemma storedValue_of_typeId (h : v.typeId = t) : storedValue t v = v := by
  subst h
  cases v <;> rfl

lemma storedValue_typed (h : Acceptable t v) : storedValue t v = .empty ∨ (storedValue t v).typeId = t := by
  rcases h with rfl | h | ⟨rfl,h⟩
  · exact .inl rfl
  · rw [storedValue_of_typeId h]
    exact .inr h
  · cases v <;> simp [typeId] at h
    exact .inr rfl

/-- The order of documents tells different documents apart. -/
class Exact (pj1Cmp : Bytes → Bytes → Ordering) : Prop where
  eq_iff : ∀ a b, pj1Cmp a b = .eq ↔ a = b

/-- The values of a column compare as equal when they are stored alike. -/
lemma cmp_eq_iff (pj1Cmp : Bytes → Bytes → Ordering) [Exact pj1Cmp]
    (ha : Acceptable t a) (hb : Acceptable t b) : a.cmp pj1Cmp b = .eq ↔ storedValue t a = storedValue t b := by
  have htotal : ∀ x y, Binary64.totalCmp x y = .eq ↔ x = y := fun x y =>
    Std.compare_eq_iff_eq.trans Binary64.totalKey_inj
  cases a <;> cases b <;> simp only [Acceptable,typeId] at ha hb <;> cases t <;>
    simp [Value.cmp,storedValue,Int64.toInt_inj,htotal,Exact.eq_iff] at ha hb ⊢

/-- A secondary index: its rows under the values they were given. -/
structure ColumnIndex where
  colIdx : ℕ
  unique : Bool
  entries : List (Value × ℕ)

namespace ColumnIndex
variable (cmp : Value → Value → Ordering)

def lookup (idx : ColumnIndex) (key : Value) : Option ℕ :=
  (idx.entries.find? (fun e => cmp e.1 key == .eq)).map snd

/-- The rows of a non-unique index under exactly this value. -/
def lookupPrefix (idx : ColumnIndex) (key : Value) : List ℕ :=
  (idx.entries.filter (fun e => e.1 = key)).map snd

def lookupAll (idx : ColumnIndex) (key : Value) : List ℕ :=
  if idx.unique then (idx.lookup cmp key).toList else idx.lookupPrefix key

def insert (idx : ColumnIndex) (v : Value) (rid : ℕ) : ColumnIndex :=
  if v.isEmpty then idx
  else if idx.unique then
    {idx with entries := insertNumbered (v,rid) (idx.entries.filter (fun e => cmp e.1 v != .eq))}
  else {idx with entries := insertNumbered (v,rid) idx.entries}

def delete (idx : ColumnIndex) (v : Value) (rid : ℕ) : ColumnIndex :=
  if v.isEmpty then idx
  else if idx.unique then {idx with entries := idx.entries.filter (fun e => cmp e.1 v != .eq)}
  else {idx with entries := idx.entries.filter (fun e => e ≠ (v,rid))}

def totalEntries (idx : ColumnIndex) : ℕ := idx.entries.length

def distinctKeys (idx : ColumnIndex) : ℕ :=
  if idx.unique then idx.entries.length else (idx.entries.map fst).dedup.length

/-- An entry stays when a row leaves the index. -/
def kept (unique : Bool) (v : Value) (rid : ℕ) (x : Value × ℕ) : Bool :=
  v.isEmpty || if unique then cmp x.1 v != .eq else x ≠ (v,rid)

section
variable (idx : ColumnIndex)
include idx

@[simp] lemma insert_colIdx (v : Value) (rid : ℕ) :
    (idx.insert cmp v rid).colIdx = idx.colIdx := by
  simp only [insert]
  split_ifs <;> rfl

@[simp] lemma insert_unique (v : Value) (rid : ℕ) :
    (idx.insert cmp v rid).unique = idx.unique := by
  simp only [insert]
  split_ifs <;> rfl

lemma exists_insert (v : Value) (rid : ℕ) : ∃ es, idx.insert cmp v rid = {idx with entries := es} := by
  rw [insert]
  split_ifs <;> exact ⟨_,rfl⟩

/-- An entry under a value that no other entry of a unique index has. -/
lemma insert_fresh (hne : v ≠ .empty) (hfresh : idx.unique = true → ∀ x ∈ idx.entries, cmp x.1 v ≠ .eq)
    (rid : ℕ) : idx.insert cmp v rid = {idx with entries := insertNumbered (v,rid) idx.entries} := by
  have hempty : ¬v.isEmpty = true := by simpa using hne
  rw [insert,if_neg hempty]
  split_ifs with hu
  · have hkeep : idx.entries.filter (fun x => cmp x.1 v != .eq) = idx.entries :=
      filter_eq_self.mpr fun x hx => bne_iff_ne.mpr (hfresh hu x hx)
    rw [hkeep]
  · rfl

lemma delete_eq (v : Value) (rid : ℕ) :
    idx.delete cmp v rid = {idx with entries := idx.entries.filter (kept cmp idx.unique v rid)} := by
  obtain ⟨c,unique,entries⟩ := idx
  unfold delete kept
  by_cases he : v.isEmpty = true
  · simp [he]
  · cases unique <;> simp [he]

@[simp] lemma delete_colIdx (v : Value) (rid : ℕ) :
    (idx.delete cmp v rid).colIdx = idx.colIdx := by
  rw [delete_eq]

@[simp] lemma delete_unique (v : Value) (rid : ℕ) :
    (idx.delete cmp v rid).unique = idx.unique := by
  rw [delete_eq]

end

end ColumnIndex

/-- An index of the stored values of a column of a type. Only a unique index may
keep a timestamp under the integer it was given as. -/
structure Indexes (t : TypeId) (idx : ColumnIndex) (image : List (Value × ℕ)) : Prop where
  stored : idx.entries.map (fun e => (storedValue t e.1,e.2)) = image
  acceptable : ∀ e ∈ idx.entries, Acceptable t e.1
  typed : idx.unique = false → ∀ e ∈ idx.entries, e.1.typeId = t

namespace Indexes

lemma entries_eq (h : Indexes t idx image) (hu : idx.unique = false) : idx.entries = image := by
  rw [← h.stored]
  conv_lhs => rw [← map_id idx.entries]
  apply map_congr_left
  intro e he
  rw [storedValue_of_typeId (h.typed hu e he)]
  rfl

lemma mem_image (h : Indexes t idx image) (he : e ∈ idx.entries) :
    (storedValue t e.1,e.2) ∈ image := by
  rw [← h.stored]
  exact mem_map.mpr ⟨e,he,rfl⟩

lemma empty (t : TypeId) (c : ℕ) (unique : Bool) : Indexes t ⟨c,unique,[]⟩ [] :=
  ⟨rfl,by simp,by simp⟩

lemma filter (h : Indexes t idx image)
    (hpq : ∀ e ∈ idx.entries, p e = q (storedValue t e.1,e.2)) :
    Indexes t {idx with entries := idx.entries.filter p} (image.filter q) where
  stored := by
    rw [← h.stored,filter_map]
    congr 1
    exact filter_congr hpq
  acceptable e he := h.acceptable e (mem_filter.mp he).1
  typed hu e he := h.typed hu e (mem_filter.mp he).1

/-- Delete the entry of a row under its stored value. -/
lemma delete [Exact pj1Cmp] (h : Indexes t idx image) (hinc : Increasing image)
    (hdistinct : idx.unique = true → (image.map fst).Nodup) (hv : v.typeId = t) (hne : v ≠ .empty)
    (hmem : (v,rid) ∈ image) :
    Indexes t (idx.delete (cmp pj1Cmp) v rid) (image.filter (fun x => x.2 ≠ rid)) := by
  have hrid : ∀ e ∈ idx.entries, e.2 = rid → storedValue t e.1 = v := by
    intro e he hr
    exact congrArg fst (hinc.eq_of_number (h.mem_image he) hmem hr)
  have hempty : ¬ v.isEmpty = true := by simpa using hne
  simp only [ColumnIndex.delete]
  split_ifs with hu
  · apply h.filter
    intro e he
    have hcmp := cmp_eq_iff pj1Cmp (h.acceptable e he) (.inr (.inl hv))
    rw [storedValue_of_typeId hv] at hcmp
    have hiff : e.1.cmp pj1Cmp v = .eq ↔ e.2 = rid := by
      rw [hcmp]
      constructor
      · intro hev
        have hmem' := h.mem_image he
        rw [hev] at hmem'
        exact congrArg snd (inj_on_of_nodup_map (hdistinct hu) hmem' hmem rfl)
      · exact hrid e he
    by_cases hr : e.2 = rid
    · simp [hr,hiff.mpr hr]
    · simp [hr,mt hiff.mp hr]
  · apply h.filter
    intro e he
    have hiff : e = (v,rid) ↔ e.2 = rid := by
      constructor
      · rintro rfl
        rfl
      · intro hr
        have hev := hrid e he hr
        rw [storedValue_of_typeId (h.typed (by simpa using hu) e he)] at hev
        exact Prod.ext hev hr
    simp [hiff]

/-- Insert a row under a value that no other row of a unique index has. -/
lemma insert [Exact pj1Cmp] (h : Indexes t idx image) (hv : Acceptable t v)
    (hne : v ≠ .empty) (htyped : idx.unique = false → v.typeId = t)
    (hfresh : idx.unique = true → ∀ x ∈ image, x.1 ≠ storedValue t v) :
    Indexes t (idx.insert (cmp pj1Cmp) v rid) (insertNumbered (storedValue t v,rid) image) := by
  rw [idx.insert_fresh _ hne fun hu e he => ?_]
  · refine ⟨?_,?_,?_⟩
    · rw [← h.stored]
      exact map_insertNumbered (storedValue t) (v,rid) idx.entries
    · intro e he
      rcases mem_insertNumbered.mp he with rfl | he
      · exact hv
      · exact h.acceptable e he
    · intro hu e he
      rcases mem_insertNumbered.mp he with rfl | he
      · exact htyped hu
      · exact h.typed hu e he
  · rw [Ne,cmp_eq_iff pj1Cmp (h.acceptable e he) hv]
    exact hfresh hu _ (h.mem_image he)

lemma lookup [Exact pj1Cmp] (h : Indexes t idx image) (hkey : Acceptable t key) :
    idx.lookup (cmp pj1Cmp) key = (image.find? (fun x => x.1 = storedValue t key)).map snd := by
  rw [← h.stored,find?_map,Option.map_map]
  have hfind : idx.entries.find? (fun e => e.1.cmp pj1Cmp key == .eq) =
      idx.entries.find? ((fun x : Value × ℕ => decide (x.1 = storedValue t key)) ∘
        fun e => (storedValue t e.1,e.2)) := by
    rw [← head?_filter,← head?_filter]
    refine congrArg head? (filter_congr ?_)
    intro e he
    have hcmp := cmp_eq_iff pj1Cmp (h.acceptable e he) hkey
    by_cases heq : storedValue t e.1 = storedValue t key
    · simp [heq,hcmp.mpr heq]
    · simp [heq,mt hcmp.mp heq]
  rw [ColumnIndex.lookup,hfind]
  rfl

/-- A probe finds the rows whose stored value is the key, in the order of the
rows. -/
lemma lookupAll [Exact pj1Cmp] (h : Indexes t idx image)
    (hdistinct : idx.unique = true → (image.map fst).Nodup) (hkey : key.typeId = t) :
    idx.lookupAll (cmp pj1Cmp) key = (image.filter (fun x => x.1 = key)).map snd := by
  simp only [ColumnIndex.lookupAll]
  split_ifs with hu
  · rw [h.lookup (.inr (.inl hkey)),storedValue_of_typeId hkey]
    have hnodup := hdistinct hu
    clear h hdistinct
    induction image with
    | nil => rfl
    | cons x image ih =>
      rw [map_cons,nodup_cons] at hnodup
      by_cases hx : x.1 = key
      · have hrest : image.filter (fun x => decide (x.1 = key)) = [] := by
          simp only [filter_eq_nil_iff,decide_eq_true_eq]
          intro y hy hyk
          exact hnodup.1 (mem_map.mpr ⟨y,hy,hyk.trans hx.symm⟩)
        simp [hx,hrest]
      · simpa [hx] using ih hnodup.2
  · rw [ColumnIndex.lookupPrefix,h.entries_eq (by simpa using hu)]

end Indexes

structure KeyedTable where
  columns : Schema
  rows : List (List Value × ℕ)
  indexes : List ColumnIndex

def columnValue (c : ℕ) (row : List Value) : Value := row[c]?.getD .empty

/-- The value a row is filed under. -/
def indexed (c : ℕ) (row : List Value) : Option Value :=
  if (columnValue c row).isEmpty then none else some (columnValue c row)

inductive TableError
  | coerce (e : CoerceError)
  | columnNotFound
  | uniqueViolation (column : ℕ)
  | rowNotFound
  | slotUsed
  | alreadyIndexed
  | duplicateValue
  deriving DecidableEq

inductive TableStep
  | insert (raw : List Value) (rid : ℕ)
  | delete (rid : ℕ)
  | update (assignments : List (ℕ × Value)) (rid newRid : ℕ)
  | createIndex (column : ℕ) (unique : Bool)
  | rebuild

namespace KeyedTable
variable (C : CoerceOps) (cmp : Value → Value → Ordering)

def columnType (t : KeyedTable) (c : ℕ) : TypeId := ((t.columns[c]?).map ColumnDef.typeId).getD .empty

/-- The entries an index on a column should have. -/
def image (t : KeyedTable) (c : ℕ) : List (Value × ℕ) := t.rows.filterMap (keepNumber (indexed c))

def storeRow (columns : Schema) (values : List Value) : List Value :=
  List.zipWith (fun col v => storedValue col.typeId v) columns values

def coerceRow : Schema → List Value → Except TableError (List Value)
  | [],_ => .ok []
  | col::cols,vs =>
    match coerceValue C col (vs.headD .empty) with
    | .error e => .error (.coerce e)
    | .ok v => do
      let rest ← coerceRow cols vs.tail
      .ok (v::rest)

/-- The first unique index that has a value already, other than of a given row. -/
def preflight (t : KeyedTable) (values : List Value) (own : Option (List Value × ℕ)) : Option ℕ :=
  (t.indexes.find? (fun idx =>
    let v := columnValue idx.colIdx values
    idx.unique && !v.isEmpty &&
      match own with
      | none => (idx.lookup cmp v).isSome
      | some (old,rid) => columnValue idx.colIdx old != v && (idx.lookup cmp v).any (· != rid))).map ColumnIndex.colIdx

def insert (t : KeyedTable) (raw : List Value) (rid : ℕ) : Except TableError KeyedTable := do
  let values ← coerceRow C t.columns raw
  if t.rows.any (fun r => r.2 = rid) then .error .slotUsed
  else
    match t.preflight cmp values none with
    | some c => .error (.uniqueViolation c)
    | none =>
      .ok {t with
        rows := insertNumbered (storeRow t.columns values,rid) t.rows
        indexes := t.indexes.map (fun idx => idx.insert cmp (columnValue idx.colIdx values) rid) }

def rowAt (t : KeyedTable) (rid : ℕ) : Option (List Value) := (t.rows.find? (fun r => r.2 = rid)).map fst

def delete (t : KeyedTable) (rid : ℕ) : Except TableError KeyedTable :=
  match t.rowAt rid with
  | none => .error .rowNotFound
  | some row =>
    .ok {t with
      rows := t.rows.filter (fun r => r.2 ≠ rid)
      indexes := t.indexes.map (fun idx => idx.delete cmp (columnValue idx.colIdx row) rid) }

def coerceAssignments (t : KeyedTable) : List (ℕ × Value) → Except TableError (List (ℕ × Value))
  | [] => .ok []
  | (c,v)::rest =>
    match t.columns[c]? with
    | none => .error .columnNotFound
    | some col =>
      match coerceValue C col v with
      | .error e => .error (.coerce e)
      | .ok w => do
        let rest ← t.coerceAssignments rest
        .ok ((c,w)::rest)

def assign (row : List Value) (assignments : List (ℕ × Value)) : List Value :=
  assignments.foldl (fun row a => row.set a.1 a.2) row

/-- The entry of an updated row. Indexes are left alone when the row stays in its
place and no indexed column is assigned. -/
def moveEntry (touches : Bool) (old values : List Value) (rid newRid : ℕ) (idx : ColumnIndex) : ColumnIndex :=
  let new := columnValue idx.colIdx values
  if touches then
    if columnValue idx.colIdx old = new ∧ newRid = rid then idx
    else (idx.delete cmp (columnValue idx.colIdx old) rid).insert cmp new newRid
  else if newRid = rid then idx
  else (idx.delete cmp new rid).insert cmp new newRid

def update (t : KeyedTable) (assignments : List (ℕ × Value)) (rid newRid : ℕ) :
    Except TableError KeyedTable :=
  match t.rowAt rid with
  | none => .error .rowNotFound
  | some old => do
    let changed ← t.coerceAssignments C assignments
    let values := assign old changed
    if newRid ≠ rid ∧ t.rows.any (fun r => r.2 = newRid) then .error .slotUsed
    else
      match t.preflight cmp values (some (old,rid)) with
      | some c => .error (.uniqueViolation c)
      | none =>
        let touches := t.indexes.any (fun idx => changed.any (fun a => a.1 = idx.colIdx))
        .ok {t with
          rows := insertNumbered (storeRow t.columns values,newRid) (t.rows.filter (fun r => r.2 ≠ rid))
          indexes := t.indexes.map (moveEntry cmp touches old values rid newRid) }

/-- An index filled from a scan of the heap. -/
def buildIndex (t : KeyedTable) (column : ℕ) (unique : Bool) : ColumnIndex :=
  t.rows.foldl (fun idx r => idx.insert cmp (columnValue column r.1) r.2) ⟨column,unique,[]⟩

def createIndex (t : KeyedTable) (column : ℕ) (unique : Bool) : Except TableError KeyedTable :=
  if t.columns.length ≤ column then .error .columnNotFound
  else if t.indexes.any (fun idx => idx.colIdx = column) then .error .alreadyIndexed
  else if unique ∧ ¬ ((t.image column).map fst).Nodup then .error .duplicateValue
  else .ok {t with indexes := t.indexes++[t.buildIndex cmp column unique]}

def step (t : KeyedTable) : TableStep → Except TableError KeyedTable
  | .insert raw rid => t.insert C cmp raw rid
  | .delete rid => t.delete cmp rid
  | .update assignments rid newRid => t.update C cmp assignments rid newRid
  | .createIndex column unique => t.createIndex cmp column unique
  | .rebuild => .ok {t with indexes := t.indexes.map (fun idx => t.buildIndex cmp idx.colIdx idx.unique)}

/-- A refused step changes nothing. -/
def stepAll (t : KeyedTable) (s : TableStep) : KeyedTable :=
  match t.step C cmp s with
  | .ok t' => t'
  | .error _ => t

def run (t : KeyedTable) (steps : List TableStep) : KeyedTable := steps.foldl (stepAll C cmp) t

end KeyedTable

end PowDB.Storage
