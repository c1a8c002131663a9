import PowDB.Lib.Directory
import PowDB.Storage.RowFormat

/-! Tables with their indexes, and the files they own in the data directory.
Heaps, column indexes and JSON-path indexes are told apart by their file names
alone. A statement that the source fails with an error is `none`. -/
namespace PowDB.Storage

/-- What an index takes its keys from. A JSON path carries its catalog-wide id. -/
inductive IndexKeySource
  | column (name : String)
  | expression (id : ℕ) (root text : String)
  deriving DecidableEq

def heapFileName (t : String) : String := t++".heap"
def columnIndexFileName (t col : String) : String := t++"_"++col++".idx"
def expressionIndexFileName (t : String) (id : ℕ) : String := t++"_"++id.repr++".eidx"

namespace IndexKeySource

/-- The column the keys come from. -/
def root : IndexKeySource → String
  | column name => name
  | expression _ root _ => root

def fileName (t : String) : IndexKeySource → String
  | column name => columnIndexFileName t name
  | expression id _ _ => expressionIndexFileName t id

def isColumn : IndexKeySource → Bool
  | column _ => true
  | expression _ _ _ => false

end IndexKeySource

/-- An index tree as its entries. Only JSON-path trees list the rows without a key. -/
structure BTree where
  formatVersion : ℕ
  entries : List (Value × RowId)
  emptyRids : List RowId
  deriving DecidableEq

namespace BTree

/-- In a unique tree a second row under a key takes the first one's place. -/
def insert (unique : Bool) (bt : BTree) (key : Value) (rid : RowId) : BTree :=
  {bt with entries := (key,rid)::if unique then bt.entries.filter (·.1 ≠ key) else bt.entries}

def lookup (bt : BTree) (key : Value) : Bool := bt.entries.any (·.1 = key)

/-- The empty tree of each kind, in its file format. -/
def create : IndexKeySource → Bool → BTree
  | .column _, true => ⟨1,[],[]⟩
  | .column _, false => ⟨3,[],[]⟩
  | .expression _ _ _, _ => ⟨2,[],[]⟩

end BTree

structure Index where
  source : IndexKeySource
  /-- Position of the root column, looked up once and kept. -/
  colIdx : ℕ
  unique : Bool
  btree : BTree
  dirty : Bool
  deriving DecidableEq

def Index.hasId (id : ℕ) (ix : Index) : Bool :=
  match ix.source with
  | .column _ => false
  | .expression id' _ _ => id' = id

structure IndexedTable where
  schema : Schema
  rows : List (RowId × List Value)
  indexes : List Index
  deriving DecidableEq

inductive FileBody
  | heap (rows : List (RowId × List Value))
  | index (btree : BTree)
  deriving DecidableEq

/-- A table's entry in `catalog.bin`: its schema and its indexes. -/
structure TableMeta where
  schema : Schema
  indexes : List (IndexKeySource × Bool)
  deriving DecidableEq

structure Store where
  tables : List (String × IndexedTable)
  nextIndexId : ℕ
  /-- The file `catalog.bin` as last persisted. -/
  file : List (String × TableMeta)
  dir : Lib.Directory String FileBody

def columnIndex (schema : Schema) (name : String) : Option ℕ := schema.findIdx? (·.name = name)

section Keys
/- The value a path selects in a document, `empty` when it selects none. -/
variable (pathKey : String → Value → Value)

def IndexKeySource.key : IndexKeySource → Value → Value
  | column _, v => v
  | expression _ _ text, v => pathKey text v

/-- The key of a row in an index whose root column stands at `colIdx`. -/
def rowKey (source : IndexKeySource) (colIdx : ℕ) (row : List Value) : Value :=
  source.key pathKey (row.getD colIdx .empty)

/-- Add a row to a tree: rows without a key are left out of column trees and
listed apart in JSON-path trees. -/
def maintainOnInsert (source : IndexKeySource) (unique : Bool) (colIdx : ℕ) (bt : BTree)
    (x : RowId × List Value) : BTree :=
  if rowKey pathKey source colIdx x.2 = .empty then
    if source.isColumn then bt else {bt with emptyRids := bt.emptyRids++[x.1]}
  else bt.insert unique (rowKey pathKey source colIdx x.2) x.1

def buildFromHeap (source : IndexKeySource) (unique : Bool) (colIdx : ℕ)
    (rows : List (RowId × List Value)) : BTree :=
  rows.foldl (maintainOnInsert pathKey source unique colIdx) (BTree.create source unique)

/-- Two rows with one key, which a unique JSON-path index refuses to be built over. -/
def repeatsKey (source : IndexKeySource) (colIdx : ℕ) (rows : List (RowId × List Value)) : Bool :=
  !decide ((rows.map (fun x => rowKey pathKey source colIdx x.2)).filter (· ≠ .empty)).Nodup

end Keys

namespace Store
variable (pathKey : String → Value → Value)

def table (s : Store) (t : String) : Option IndexedTable := s.tables.lookup t

def setTable (s : Store) (t : String) (tbl : IndexedTable) : Store :=
  {s with tables := Lib.replaceKey s.tables t tbl}

def metas (tables : List (String × IndexedTable)) : List (String × TableMeta) :=
  tables.map (fun x => (x.1,⟨x.2.schema,x.2.indexes.map (fun ix => (ix.source,ix.unique))⟩))

def persist (s : Store) : Store := {s with file := metas s.tables}

def createTable (s : Store) (t : String) (schema : Schema) : Option Store :=
  if !(validateIdentifier "table" t).isOk ||
      !schema.all (fun col => (validateIdentifier "column" col.name).isOk) then none
  else match s.table t with
  | some _ => none
  | none => some ({s with
      tables := s.tables++[(t,⟨schema,[],[]⟩)]
      dir := s.dir.write (heapFileName t) (.heap [])} : Store).persist

/-- The catalog goes first, then the heap and every index the table had. -/
def dropTable (s : Store) (t : String) : Option Store :=
  if !(validateIdentifier "table" t).isOk then none
  else match s.table t with
  | none => none
  | some tbl => some {({s with tables := Lib.swapRemove s.tables t} : Store).persist with
      dir := (s.dir.remove (heapFileName t)).removeAll
        (tbl.indexes.map (fun ix => ix.source.fileName t))}

/-- Append a saved index to a table. -/
def pushIndex (s : Store) (t : String) (tbl : IndexedTable) (ix : Index) : Store :=
  ({(s.setTable t {tbl with indexes := tbl.indexes++[ix]}) with
    dir := s.dir.write (ix.source.fileName t) (.index ix.btree)} : Store).persist

/-- A column that is indexed already is left as it is. -/
def createIndexUnique (s : Store) (t col : String) (unique : Bool) : Option Store := do
  let tbl ← s.table t
  let colIdx ← columnIndex tbl.schema col
  if tbl.indexes.any (fun ix => ix.source.isColumn && ix.colIdx == colIdx) then some s.persist
  else
    let bt := buildFromHeap pathKey (.column col) unique colIdx tbl.rows
    some (s.pushIndex t tbl ⟨.column col,colIdx,unique,bt,false⟩)

/-- The id comes from a counter that never goes back; a file found under it is an
orphan and is removed. -/
def createExpressionIndexMetadata (s : Store) (t root text : String) (unique : Bool) :
    Option Store := do
  if !(validateIdentifier "table" t).isOk || !(validateIdentifier "column" root).isOk || text = "" then
    none
  else
    let tbl ← s.table t
    let colIdx ← columnIndex tbl.schema root
    let col ← tbl.schema[colIdx]?
    let source := IndexKeySource.expression s.nextIndexId root text
    if col.typeId ≠ .json || tbl.indexes.any (fun ix =>
        match ix.source with
        | .column _ => false
        | .expression _ _ text' => text' = text) || s.nextIndexId+1 ≥ 2^64 ||
        (unique && repeatsKey pathKey source colIdx tbl.rows) then none
    else
      let s := {s with dir := s.dir.remove (source.fileName t)}
      let bt := buildFromHeap pathKey source unique colIdx tbl.rows
      some ({s with nextIndexId := s.nextIndexId+1}.pushIndex t tbl ⟨source,colIdx,unique,bt,false⟩)

def dropExpressionIndex (s : Store) (t : String) (id : ℕ) : Option Store := do
  if !(validateIdentifier "table" t).isOk then none
  else
    let tbl ← s.table t
    if !tbl.indexes.any (Index.hasId id) then none
    else
      let s := (s.setTable t {tbl with indexes := tbl.indexes.eraseP (Index.hasId id)}).persist
      some {s with dir := s.dir.remove (expressionIndexFileName t id)}

/-- A row is refused when a unique index has its key already. -/
def preflightInsert (tbl : IndexedTable) (row : List Value) : Bool :=
  tbl.indexes.all (fun ix => !ix.unique || rowKey pathKey ix.source ix.colIdx row = .empty ||
    !ix.btree.lookup (rowKey pathKey ix.source ix.colIdx row))

def maintainIndex (x : RowId × List Value) (ix : Index) : Index :=
  {ix with
    btree := maintainOnInsert pathKey ix.source ix.unique ix.colIdx ix.btree x
    dirty := ix.dirty || !ix.source.isColumn || rowKey pathKey ix.source ix.colIdx x.2 ≠ .empty}

/-- Insert a row at a slot the heap picked. -/
def insert (s : Store) (t : String) (rid : RowId) (row : List Value) : Option Store := do
  let tbl ← s.table t
  if row.length ≠ tbl.schema.length || tbl.rows.any (·.1 = rid) || !preflightInsert pathKey tbl row then
    none
  else some (s.setTable t {tbl with
    rows := tbl.rows++[(rid,row)]
    indexes := tbl.indexes.map (maintainIndex pathKey (rid,row))})

/-- Build an index anew after its rows moved. -/
def rebuildIndex (schema : Schema) (rows : List (RowId × List Value)) (dirty : Bool) (ix : Index) :
    Option Index := do
  let colIdx ← columnIndex schema ix.source.root
  if !ix.source.isColumn && ix.unique && repeatsKey pathKey ix.source colIdx rows then none
  else some {ix with
    colIdx := colIdx
    btree := buildFromHeap pathKey ix.source ix.unique colIdx rows
    dirty := dirty}

/-- Drop a column with its index and the JSON-path indexes below it. Rows move to
the slots the heap picks. A table without rows keeps its other indexes as they
are, with the positions they had. -/
def alterTableDropColumn (s : Store) (t name : String) (rids : List RowId) : Option Store := do
  let tbl ← s.table t
  if (columnIndex tbl.schema name).isNone then none
  else
    let (gone,kept) := tbl.indexes.partition (fun ix => ix.source.root = name)
    let schema := tbl.schema.eraseP (·.name = name)
    let doomed := gone.map (fun ix => ix.source.fileName t)
    if tbl.rows.isEmpty then
      let s := (s.setTable t {tbl with schema := schema, indexes := kept}).persist
      some {s with dir := s.dir.removeAll doomed}
    else if rids.length ≠ tbl.rows.length || !rids.Nodup then none
    else
      let rows := rids.zip (tbl.rows.map (fun x => Table.reshape inlineCodec tbl.schema schema x.2))
      let paths := kept.any (fun ix => !ix.source.isColumn)
      let known := kept.filter (fun ix => !ix.source.isColumn ||
        (columnIndex schema ix.source.root).isSome)
      let indexes ← known.mapM (rebuildIndex pathKey schema rows paths)
      let saved := (indexes.filter (·.source.isColumn)).map (fun ix =>
        (ix.source.fileName t,FileBody.index ix.btree))
      let s := (s.setTable t ⟨schema,rows,indexes⟩).persist
      some {s with dir := (s.dir.writeAll ((heapFileName t,.heap rows)::saved)).removeAll doomed}

/-- What a checkpoint writes for a table: its rows and the trees that changed. -/
def dirtyFiles (x : String × IndexedTable) : List (String × FileBody) :=
  (heapFileName x.1,.heap x.2.rows)::(x.2.indexes.filter (·.dirty)).map (fun ix =>
    (ix.source.fileName x.1,.index ix.btree))

def checkpoint (s : Store) : Store :=
  {s with
    tables := s.tables.map (fun x => (x.1,{x.2 with
      indexes := x.2.indexes.map (fun ix => {ix with dirty := false})}))
    dir := s.dir.writeAll (s.tables.flatMap dirtyFiles)}

/-- Load an index the catalog lists. A missing file is built from the heap, and so is
a non-unique column index in an old format; any other tree is served as the file has it. -/
def loadIndex (t : String) (schema : Schema) (rows : List (RowId × List Value))
    (m : IndexKeySource × Bool) (dir : Lib.Directory String FileBody) :
    Option (List Index × Lib.Directory String FileBody) :=
  match columnIndex schema m.1.root with
  | none => if m.1.isColumn then some ([],dir) else none
  | some colIdx =>
    let bt := buildFromHeap pathKey m.1 m.2 colIdx rows
    let built := some ([⟨m.1,colIdx,m.2,bt,false⟩],dir.write (m.1.fileName t) (.index bt))
    match dir (m.1.fileName t) with
    | none => if !m.1.isColumn && m.2 && repeatsKey pathKey m.1 colIdx rows then none else built
    | some (.heap _) => none
    | some (.index bt) =>
      if m.1.isColumn && !m.2 && bt.formatVersion < 3 then built
      else if !m.1.isColumn && bt.formatVersion < 2 then none
      else some ([⟨m.1,colIdx,m.2,bt,false⟩],dir)

def loadIndexes (t : String) (schema : Schema) (rows : List (RowId × List Value)) :
    List (IndexKeySource × Bool) → Lib.Directory String FileBody →
    Option (List Index × Lib.Directory String FileBody)
  | [], dir => some ([],dir)
  | m::ms, dir => do
    let (ix,dir) ← loadIndex pathKey t schema rows m dir
    let (ixs,dir) ← loadIndexes t schema rows ms dir
    some (ix++ixs,dir)

def openTables : List (String × TableMeta) → Lib.Directory String FileBody →
    Option (List (String × IndexedTable) × Lib.Directory String FileBody)
  | [], dir => some ([],dir)
  | (t,m)::rest, dir =>
    match dir (heapFileName t) with
    | some (.heap rows) => do
      let (indexes,dir) ← loadIndexes pathKey t m.schema rows m.indexes dir
      let (tables,dir) ← openTables rest dir
      some ((t,⟨m.schema,rows,indexes⟩)::tables,dir)
    | _ => none

/-- Close, which checkpoints, and open again from the files. -/
def reopen (s : Store) : Option Store := do
  let (tables,dir) ← openTables pathKey s.checkpoint.file s.checkpoint.dir
  some {s.checkpoint with tables := tables, dir := dir}

end Store
end PowDB.Storage
