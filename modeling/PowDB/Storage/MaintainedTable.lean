import PowDB.Storage.IndexFiles
import PowDB.Storage.KeyedTable

/-! A table with its column indexes and its JSON-path indexes, and the ways each statement keeps
them: from given values, from the bytes of a row, from values kept on overflow pages, one entry
at a time or in one sweep. A row id is a number, page first. -/
namespace PowDB.Storage
open Lib

/-- A value of a stored row, in the row itself or on overflow pages. -/
structure HeapValue where
  value : Value
  spilled : Bool
  deriving DecidableEq

/-- What the bytes of the row give for a column. -/
def HeapValue.inline (v : HeapValue) : Value := if v.spilled then .empty else v.value

abbrev HeapRow := List HeapValue

def HeapRow.values (row : HeapRow) : List Value := row.map HeapValue.value

def decodeColumn (c : ℕ) (row : HeapRow) : Value := ((row[c]?).map HeapValue.inline).getD .empty
def rawStub (c : ℕ) (row : HeapRow) : Bool := (row[c]?).any HeapValue.spilled

def ridPage (rid : ℕ) : ℕ := rid/65536

deriving instance DecidableEq for ColumnIndex
attribute [ext] ColumnIndex

structure IndexedCol extends ColumnIndex where
  colName : String
  isInt : Bool
  deriving DecidableEq

/-- An index on a path into a JSON column. Rows without a key stand under `empty`. Separators of
the tree may be any keys it has held. -/
structure ExpressionIndexedPath where
  column : String
  canonicalText : String
  unique : Bool
  rootColIdx : ℕ
  entries : List (Value × ℕ)
  held : List Value
  deriving DecidableEq

inductive IndexError
  | badRow
  | slotUsed
  | unique (column : String)
  | uniqueExpression (text : String)
  | rowNotFound
  | rootNotJson
  | notScalar (text : String)
  | invalidJson
  | columnExists
  | columnNotFound
  | requiredOverRows
  | indexRootGone
  deriving DecidableEq

/-- What the table is not concerned with: comparing and reading documents, and what a search in
a tree finds or leaves behind when its keys have no order. -/
structure TreeParams where
  pj1Cmp : Bytes → Bytes → Ordering
  scalarAt : String → Bytes → Except IndexError Value
  strayLookup : ExpressionIndexedPath → Value → Option ℕ
  strayEntries : ExpressionIndexedPath → Value → ℕ → List (Value × ℕ)

def TreeParams.cmp (P : TreeParams) : Value → Value → Ordering := Value.cmp P.pj1Cmp

/-- Keys that a search can tell apart. -/
def Ordered (P : TreeParams) (keys : List Value) : Prop :=
  ∀ a ∈ keys, ∀ b ∈ keys, P.cmp b a = (P.cmp a b).swap ∧
    ∀ c ∈ keys, P.cmp a b ≠ .gt → P.cmp b c ≠ .gt → P.cmp a c ≠ .gt

instance (P : TreeParams) (keys : List Value) : Decidable (Ordered P keys) :=
  inferInstanceAs (Decidable (∀ _ ∈ _, _))

def expressionKey (P : TreeParams) (text : String) : Value → Except IndexError Value
  | .json document => P.scalarAt text document
  | .empty => .ok .empty
  | _ => .error .rootNotJson

namespace ExpressionIndexedPath
variable (P : TreeParams)

def lookup (e : ExpressionIndexedPath) (key : Value) : Option ℕ :=
  if Ordered P (key::e.held) then (e.entries.find? fun x => P.cmp x.1 key == .eq).map Prod.snd
  else P.strayLookup e key

/-- A row listed as one without a key is not listed twice, nor is a row under its key. -/
def addOnce (e : ExpressionIndexedPath) (key : Value) (rid : ℕ) : List (Value × ℕ) :=
  if (key,rid) ∈ e.entries then e.entries else insertNumbered (key,rid) e.entries

def add (e : ExpressionIndexedPath) (key : Value) (rid : ℕ) : ExpressionIndexedPath :=
  if key.isEmpty then {e with entries := e.addOnce key rid}
  else {e with
    held := key::e.held
    entries :=
      if Ordered P (key::e.held) then
        if e.unique then insertNumbered (key,rid) (e.entries.filter fun x => P.cmp x.1 key != .eq)
        else e.addOnce key rid
      else P.strayEntries e key rid}

/-- `delete_empty` and `delete_pair`. -/
def remove (e : ExpressionIndexedPath) (key : Value) (rid : ℕ) : ExpressionIndexedPath :=
  {e with
    entries :=
      if key.isEmpty ∨ Ordered P (key::e.held) then e.entries.filter fun x => x ≠ (key,rid)
      else P.strayEntries e key rid}

end ExpressionIndexedPath

structure MaintainedTable where
  columns : Schema
  rows : List (HeapRow × ℕ)
  indexedCols : List IndexedCol
  expressionIndexes : List ExpressionIndexedPath
  overflowPages : List ℕ
  /-- The hot page. -/
  pinned : Option ℕ

namespace MaintainedTable
variable (P : TreeParams)

def columnType (t : MaintainedTable) (c : ℕ) : TypeId := ((t.columns[c]?).map ColumnDef.typeId).getD .empty

def rowAt (t : MaintainedTable) (rid : ℕ) : Option HeapRow := (t.rows.find? (·.2 = rid)).map Prod.fst

/-- Only text, bytes and documents go to overflow pages. -/
def spillable : Value → Bool
  | .str _ | .bytes _ | .json _ => true
  | _ => false

/-- The row as the heap keeps it, with the columns the encoder chose to spill. -/
def storeRow (columns : Schema) (spills : ℕ → Bool) (values : List Value) : HeapRow :=
  (KeyedTable.storeRow columns values).mapIdx fun c v => ⟨v,spills c && spillable v⟩

instance (type : TypeId) (v : Value) : Decidable (Acceptable type v) := inferInstanceAs (Decidable (_ ∨ _ ∨ _))

/-- Values of the schema's types, one for each column. -/
def accepts (t : MaintainedTable) (values : List Value) : Bool :=
  values.length = t.columns.length ∧ ∀ c < values.length, Acceptable (t.columnType c) (columnValue c values)

/-- Pages the heap may use for spilled values: overflow pages that were given up, and new pages. -/
def mayChain (t : MaintainedTable) (chain : List ℕ) : Bool :=
  chain.all fun p => p ∈ t.overflowPages || (!t.rows.any (ridPage ·.2 = p) && t.pinned ≠ some p)

/-- Where the heap may put a row: not on another one, and on an overflow page only if that is
the page it has pinned. -/
def mayPlace (t : MaintainedTable) (pinned : Option ℕ) (rid : ℕ) : Bool :=
  !t.rows.any (·.2 = rid) && (ridPage rid ∉ t.overflowPages || pinned = some (ridPage rid))

/-- Scans pass over overflow pages. -/
def putRow (t : MaintainedTable) (row : HeapRow) (rid : ℕ) : List (HeapRow × ℕ) :=
  if ridPage rid ∈ t.overflowPages then t.rows else insertNumbered (row,rid) t.rows

def expressionKeys (t : MaintainedTable) (values : List Value) : Except IndexError (List Value) :=
  t.expressionIndexes.mapM fun e => expressionKey P e.canonicalText (columnValue e.rootColIdx values)

def expressionKeysAt (t : MaintainedTable) (rid : ℕ) : Except IndexError (List Value) :=
  if t.expressionIndexes.isEmpty then .ok []
  else match t.rowAt rid with
    | none => .error .rowNotFound
    | some row => t.expressionKeys P row.values

def addKeys (es : List ExpressionIndexedPath) (keys : List Value) (rid : ℕ) : List ExpressionIndexedPath :=
  List.zipWith (fun e key => e.add P key rid) es keys

/-! ### Insert -/

def preflightInsert (t : MaintainedTable) (values : List Value) : Except IndexError (List Value) :=
  match t.indexedCols.find? fun idx => idx.unique && !(columnValue idx.colIdx values).isEmpty &&
      (idx.lookup P.cmp (columnValue idx.colIdx values)).isSome with
  | some idx => .error (.unique idx.colName)
  | none => do
    let keys ← t.expressionKeys P values
    match (t.expressionIndexes.zip keys).find? fun x => x.1.unique && !x.2.isEmpty && (x.1.lookup P x.2).isSome with
    | some x => .error (.uniqueExpression x.1.canonicalText)
    | none => .ok keys

def insertEntry (values : List Value) (rid : ℕ) (idx : IndexedCol) : IndexedCol :=
  {idx with toColumnIndex := idx.toColumnIndex.insert P.cmp (columnValue idx.colIdx values) rid}

/-- `chain` are the pages the spilled values were written to. -/
def insert (t : MaintainedTable) (values : List Value) (spills : ℕ → Bool) (chain : List ℕ) (rid : ℕ) :
    Except IndexError MaintainedTable := do
  if !t.accepts values then .error .badRow
  else
    let keys ← t.preflightInsert P values
    if !t.mayChain chain then .error .slotUsed
    else
      let t := {t with overflowPages := chain++t.overflowPages}
      if !t.mayPlace t.pinned rid then .error .slotUsed
      else .ok {t with
        rows := t.putRow (storeRow t.columns spills values) rid
        indexedCols := t.indexedCols.map (insertEntry P values rid)
        expressionIndexes := addKeys P t.expressionIndexes keys rid
        pinned := some (ridPage rid)}

/-! ### Update -/

def preflightUpdate (t : MaintainedTable) (rid : ℕ) (values : List Value) : Except IndexError Unit :=
  let old := t.rowAt rid
  match t.indexedCols.find? fun idx => idx.unique && !(columnValue idx.colIdx values).isEmpty &&
      !old.any (fun row => columnValue idx.colIdx row.values = columnValue idx.colIdx values) &&
      (idx.lookup P.cmp (columnValue idx.colIdx values)).any (· != rid) with
  | some idx => .error (.unique idx.colName)
  | none => do
    let newKeys ← t.expressionKeys P values
    let oldKeys ← t.expressionKeysAt P rid
    match (t.expressionIndexes.zip (oldKeys.zip newKeys)).find? fun x =>
        x.1.unique && !x.2.2.isEmpty && x.2.1 != x.2.2 && (x.1.lookup P x.2.2).any (· != rid) with
    | some x => .error (.uniqueExpression x.1.canonicalText)
    | none => .ok ()

/-- Without a hint the old row is always looked at. -/
def touchesIndex (t : MaintainedTable) : Option (List ℕ) → Bool
  | none => !t.indexedCols.isEmpty
  | some changed => t.indexedCols.any fun idx => changed.contains idx.colIdx

def moveEntry (touches : Bool) (old : Option HeapRow) (values : List Value) (rid newRid : ℕ) (idx : IndexedCol) :
    IndexedCol :=
  let new := columnValue idx.colIdx values
  {idx with
    toColumnIndex :=
      if touches then
        match old with
        | none => idx.toColumnIndex.insert P.cmp new newRid
        | some row =>
          if columnValue idx.colIdx row.values = new ∧ newRid = rid then idx.toColumnIndex
          else (idx.toColumnIndex.delete P.cmp (columnValue idx.colIdx row.values) rid).insert P.cmp new newRid
      else if newRid = rid then idx.toColumnIndex
      else (idx.toColumnIndex.delete P.cmp new rid).insert P.cmp new newRid}

def moveKey (rid newRid : ℕ) (e : ExpressionIndexedPath) (keys : Value × Value) : ExpressionIndexedPath :=
  if keys.1 = keys.2 ∧ rid = newRid then e else (e.remove P keys.1 rid).add P keys.2 newRid

/-- The heap pins the page of the old row before it looks for room. -/
def update (t : MaintainedTable) (rid : ℕ) (values : List Value) (changed : Option (List ℕ)) (spills : ℕ → Bool)
    (chain : List ℕ) (newRid : ℕ) : Except IndexError MaintainedTable := do
  if !t.accepts values then .error .badRow
  else
    t.preflightUpdate P rid values
    let oldKeys ← t.expressionKeysAt P rid
    let newKeys ← t.expressionKeys P values
    if !t.mayChain chain then .error .slotUsed
    else
      let rest := {t with overflowPages := chain++t.overflowPages, rows := t.rows.filter (·.2 ≠ rid)}
      if !rest.mayPlace (some (ridPage rid)) newRid then .error .slotUsed
      else .ok {rest with
        rows := rest.putRow (storeRow t.columns spills values) newRid
        indexedCols := t.indexedCols.map
          (moveEntry P (t.touchesIndex changed) (t.rowAt rid) values rid newRid)
        expressionIndexes := List.zipWith (moveKey P rid newRid) t.expressionIndexes (oldKeys.zip newKeys)
        pinned := some (ridPage newRid)}

/-! ### Delete -/

def deleteInline (row : HeapRow) (rid : ℕ) (idx : IndexedCol) : IndexedCol :=
  if rawStub idx.colIdx row then idx
  else {idx with toColumnIndex := idx.toColumnIndex.delete P.cmp (decodeColumn idx.colIdx row) rid}

/-- The keys of spilled values, read after the page is let go. -/
def deleteDeferred (row : HeapRow) (rid : ℕ) (idx : IndexedCol) : IndexedCol :=
  if rawStub idx.colIdx row then
    {idx with toColumnIndex := idx.toColumnIndex.delete P.cmp (columnValue idx.colIdx row.values) rid}
  else idx

def deleteEntries (row : HeapRow) (rid : ℕ) (cols : List IndexedCol) : List IndexedCol :=
  (cols.map (deleteInline P row rid)).map (deleteDeferred P row rid)

/-- A row that is not there is deleted without complaint, unless a path has to be read from it. -/
def delete (t : MaintainedTable) (rid : ℕ) : Except IndexError MaintainedTable := do
  let keys ← t.expressionKeysAt P rid
  .ok {t with
    rows := t.rows.filter (·.2 ≠ rid)
    indexedCols := ((t.rowAt rid).map fun row => deleteEntries P row rid t.indexedCols).getD t.indexedCols
    expressionIndexes := List.zipWith (fun e key => e.remove P key rid) t.expressionIndexes keys
    pinned := some (ridPage rid)}

def deleteEach (t : MaintainedTable) (rids : List ℕ) : Except IndexError MaintainedTable :=
  rids.foldlM (fun t rid => t.delete P rid) t

/-- The rows that deletes one by one still find, and the rows left. -/
def takeRows : List (HeapRow × ℕ) → List ℕ → List (HeapRow × ℕ) × List (HeapRow × ℕ)
  | rows,[] => ([],rows)
  | rows,rid::rids =>
    match rows.find? (·.2 = rid) with
    | none => takeRows rows rids
    | some r =>
      let rest := takeRows (rows.filter (·.2 ≠ rid)) rids
      (r::rest.1,rest.2)

def intKey : Value → Option Int64
  | .int v => some v
  | _ => none

/-- One sweep over a tree of integers. -/
def sweepInts (victims : List (HeapRow × ℕ)) (idx : IndexedCol) : IndexedCol :=
  let keys := victims.filterMap fun r => intKey (decodeColumn idx.colIdx r.1)
  {idx with entries := idx.entries.filter fun x => !(intKey x.1).any keys.contains}

def allIntUnique (t : MaintainedTable) : Bool := t.indexedCols.all fun idx => idx.isInt && idx.unique

def deleteMany (t : MaintainedTable) (rids : List ℕ) : Except IndexError MaintainedTable :=
  if !t.expressionIndexes.isEmpty || !t.allIntUnique then t.deleteEach P rids
  else
    let taken := takeRows t.rows rids
    .ok {t with
      rows := taken.2
      indexedCols := t.indexedCols.map (sweepInts taken.1)
      pinned := (rids.getLast?.map ridPage).or t.pinned}

/-- The entries of an index collected in one scan: values read from the rows, then the spilled ones. -/
def collected (victims : List (HeapRow × ℕ)) (idx : IndexedCol) : List (Value × ℕ) :=
  ((victims.filter fun r => !rawStub idx.colIdx r.1).map fun r => (decodeColumn idx.colIdx r.1,r.2)).filter
      (fun x => !x.1.isEmpty)++
    (victims.filter fun r => rawStub idx.colIdx r.1).map fun r => (columnValue idx.colIdx r.1.values,r.2)

def deleteCollected (victims : List (HeapRow × ℕ)) (idx : IndexedCol) : IndexedCol :=
  {idx with
    toColumnIndex := (collected victims idx).foldl (fun i x => i.delete P.cmp x.1 x.2) idx.toColumnIndex}

/-- The scan of the heap pins every page in turn and stays on the last one of the file. -/
def scanDeleteMatching (t : MaintainedTable) (pred : HeapRow → Bool) (lastPage : ℕ) :
    Except IndexError MaintainedTable :=
  let victims := t.rows.filter fun r => pred r.1
  if !t.expressionIndexes.isEmpty then t.deleteEach P (victims.map Prod.snd)
  else .ok {t with
    rows := t.rows.filter fun r => !pred r.1
    indexedCols := t.indexedCols.map (if t.allIntUnique then sweepInts victims else deleteCollected P victims)
    pinned := some lastPage}

/-! ### Rebuild -/

def rebuildCol (t : MaintainedTable) (idx : IndexedCol) : IndexedCol :=
  {idx with
    toColumnIndex := t.rows.foldl (fun i r => i.insert P.cmp (columnValue idx.colIdx r.1.values) r.2)
      ⟨idx.colIdx,idx.unique,[]⟩}

def rebuildRow (e : ExpressionIndexedPath) (r : HeapRow × ℕ) : Except IndexError ExpressionIndexedPath := do
  let key ← expressionKey P e.canonicalText (columnValue e.rootColIdx r.1.values)
  if !key.isEmpty && e.unique && (e.lookup P key).isSome then .error (.uniqueExpression e.canonicalText)
  else .ok (e.add P key r.2)

def rebuildPath (t : MaintainedTable) (e : ExpressionIndexedPath) : Except IndexError ExpressionIndexedPath :=
  t.rows.foldlM (rebuildRow P) {e with entries := [], held := []}

def rebuildIndexesFromHeap (t : MaintainedTable) : Except IndexError MaintainedTable := do
  let paths ← t.expressionIndexes.mapM (t.rebuildPath P)
  .ok {t with indexedCols := t.indexedCols.map (t.rebuildCol P), expressionIndexes := paths}

end MaintainedTable

inductive TableCall
  | insert (values : List Value) (spills : ℕ → Bool) (chain : List ℕ) (rid : ℕ)
  | update (rid : ℕ) (values : List Value) (changed : Option (List ℕ)) (spills : ℕ → Bool) (chain : List ℕ) (newRid : ℕ)
  | delete (rid : ℕ)
  | deleteMany (rids : List ℕ)
  | scanDeleteMatching (pred : HeapRow → Bool) (lastPage : ℕ)

namespace MaintainedTable
variable (P : TreeParams)

def call (t : MaintainedTable) : TableCall → Except IndexError MaintainedTable
  | .insert values spills chain rid => t.insert P values spills chain rid
  | .update rid values changed spills chain newRid => t.update P rid values changed spills chain newRid
  | .delete rid => t.delete P rid
  | .deleteMany rids => t.deleteMany P rids
  | .scanDeleteMatching pred lastPage => t.scanDeleteMatching P pred lastPage

end MaintainedTable
end PowDB.Storage
