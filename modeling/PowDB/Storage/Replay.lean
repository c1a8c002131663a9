import PowDB.Storage.Catalog

/-! Schema changes and recovery. Recovery opens the files the catalog file
names and applies the log: row records under the per-page LSN guard, schema
records by name, with no guard. -/
namespace PowDB.Storage

/-- How rows of a schema are laid out. `decode` may read out-of-line values and
fails on a corrupt chain. -/
structure RowCodec (α : Type) where
  decode : Schema → Row → (OverflowStub → Option Bytes) → Option (List α)
  encode : Schema → List α → Catalog.Image
  empty : α

namespace HeapFile

/-- Write a chain outside the log, as a schema change does. -/
def writeChunks (h : HeapFile) : List ℕ → List Bytes → HeapFile
  | i::is, b::bs => (h.writeOverflowPage i is.head? b 0).writeChunks is bs
  | _, _ => h

def spillValues (h : HeapFile) : List Bytes → List OverflowStub × HeapFile
  | [] => ([],h)
  | v::vs =>
    let chunks := Catalog.overflowChunks v
    let (pages,h) := allocateOverflowPages chunks.length h
    let (ss,h) := (h.writeChunks pages chunks).spillValues vs
    (⟨pages.headD 0,v.length⟩::ss,h)

/-- Live rows with their row ids, in scan order. -/
def scan (h : HeapFile) : List (RowId × Row) :=
  (List.range h.numPages).flatMap (fun i =>
    if (h.view i).isOverflow then []
    else (List.range (h.view i).slotted.slots.length).filterMap (fun s =>
      ((h.view i).slotted.get s).map (fun r => (⟨i,s⟩,r))))

end HeapFile

namespace Table
variable {α : Type} (codec : RowCodec α)

/-- A row's values carried into the new column list by name; new columns are empty. -/
def reshape (old new : Schema) (vals : List α) : List α :=
  (old.zip vals).foldl (fun row x =>
    match new.findIdx? (·.name = x.1.name) with
    | none => row
    | some j => row.set j x.2) (new.map (fun _ => codec.empty))

/-- Second phase of the rewrite: re-encode, update in the heap, free the old chains. -/
def rewriteAll (new : Schema) : List (RowId × List α × List ℕ) → HeapFile → Option HeapFile
  | [], h => some h
  | (rid,vals,old)::rest, h => do
    let im := codec.encode new vals
    let (stubs,h) := h.spillValues im.spilled
    let (_,h) ← h.update rid ⟨im.body,stubs⟩
    rewriteAll new rest (h.releaseOverflowPages old)

def rewriteRowsForSchemaChange (old new : Schema) (h : HeapFile) : Option HeapFile := do
  let rows ← h.scan.mapM (fun x => do
    let vals ← codec.decode old x.2 h.readOverflowValue
    some (x.1,reshape codec old new vals,x.2.stubs.flatMap h.chainOf))
  rewriteAll codec new rows h

/-- A column change as the statement and its redo share it: the rows are rewritten
only when there are any. -/
def changeSchema (tbl : Table) (new : Schema) : Option Table := do
  if tbl.heap.scan.isEmpty then some {tbl with schema := new}
  else
    let h ← rewriteRowsForSchemaChange codec tbl.schema new tbl.heap
    some ⟨new,h⟩

def hasColumn (tbl : Table) (name : String) : Bool := tbl.schema.any (·.name = name)

end Table

namespace Catalog
variable {α : Type} (codec : RowCodec α)

/-- Write the schemas to `catalog.bin`. -/
def persist (c : Catalog) : Catalog := {c with file := c.tables.map (fun x => (x.1,x.2.schema))}

def createTable (c : Catalog) (t : String) (schema : Schema) : Option Catalog :=
  if c.activeTx.isSome || !(validateIdentifier "table" t).isOk ||
      !schema.all (fun col => (validateIdentifier "column" col.name).isOk) then none
  else match c.table t with
  | some _ => none
  | none =>
    let c := c.append 0 (.ddlCreateTable t schema)
    some ({c with tables := c.tables++[(t,⟨schema,HeapFile.create⟩)]} : Catalog).persist

def dropTable (c : Catalog) (t : String) : Option Catalog :=
  if c.activeTx.isSome || !(validateIdentifier "table" t).isOk then none
  else match c.table t with
  | none => none
  | some _ =>
    let c := c.append 0 (.ddlDropTable t)
    some ({c with tables := Lib.swapRemove c.tables t} : Catalog).persist

/-- The record is logged, the rows are rewritten in memory, every page is stamped
with the record's LSN and written, then the catalog is persisted. -/
def alterTableAddColumn (c : Catalog) (t : String) (col : ColumnDef) : Option Catalog := do
  if c.activeTx.isSome then none
  else
    let tbl ← c.table t
    if tbl.hasColumn col.name then none
    else
      let c := c.append 0 (.ddlAddColumn t col)
      if !tbl.heap.scan.isEmpty && col.required then none
      else
        let tbl ← tbl.changeSchema codec (tbl.schema++[col])
        let h := (tbl.heap.stampAllPagesMinLsn c.lastLsn).flushAllDirty
        some (c.setTable t {tbl with heap := h}).persist

def alterTableDropColumn (c : Catalog) (t name : String) : Option Catalog := do
  if c.activeTx.isSome then none
  else
    let tbl ← c.table t
    if !tbl.hasColumn name then none
    else
      let c := c.append 0 (.ddlDropColumn t name)
      let tbl ← tbl.changeSchema codec (tbl.schema.eraseP (·.name = name))
      let h := (tbl.heap.stampAllPagesMinLsn c.lastLsn).flushAllDirty
      some (c.setTable t {tbl with heap := h}).persist

/-- One record of the second pass. `none` is an error that fails the open. -/
def replayRecord (ceiling : ℕ) (c : Catalog) (rec : WalRecord) : Option Catalog :=
  match rec.type with
  | .insert t rid row =>
    match c.table t with
    | none => some c
    | some tbl =>
      if ceiling < rid.page then none
      else if 0 < rec.lsn ∧ rec.lsn ≤ tbl.heap.pageLsn rid.page then some c
      else do
        let h ← tbl.heap.insertAt rid row
        let h ← h.setPageLsn rid.page rec.lsn
        some (c.setHeap t h)
  | .update t rid row =>
    match c.table t with
    | none => some c
    | some tbl =>
      if ceiling < rid.page then none
      else if 0 < rec.lsn ∧ rec.lsn ≤ tbl.heap.pageLsn rid.page then some c
      else do
        let (newRid,h) ← tbl.heap.update rid row
        let h ← if newRid = rid then some h else h.setPageLsn rid.page rec.lsn
        let h ← h.setPageLsn newRid.page rec.lsn
        some (c.setHeap t h)
  | .delete t rid =>
    match c.table t with
    | none => some c
    | some tbl =>
      if ceiling < rid.page then none
      else if 0 < rec.lsn ∧ rec.lsn ≤ tbl.heap.pageLsn rid.page then some c
      else do
        let h ← ((tbl.heap.delete rid).getD tbl.heap).setPageLsn rid.page rec.lsn
        some (c.setHeap t h)
  | .overflowWrite t i next chunk =>
    match c.table t with
    | none => some c
    | some tbl =>
      if ceiling < i then none
      else
        let h := tbl.heap.reserveOverflowPage i
        if 0 < rec.lsn ∧ rec.lsn ≤ h.overflowPageLsn i then some (c.setHeap t h)
        else some (c.setHeap t (h.writeOverflowPage i next chunk rec.lsn))
  | .overflowFree t pages =>
    match c.table t with
    | none => some c
    | some tbl => some (c.setHeap t (tbl.heap.releaseOverflowPages pages))
  | .begin | .commit | .rollback => some c
  | .ddlCreateTable t schema =>
    match c.table t with
    | some _ => some c
    | none => some {c with tables := c.tables++[(t,⟨schema,HeapFile.create⟩)]}
  | .ddlDropTable t => some {c with tables := Lib.swapRemove c.tables t}
  | .ddlAddColumn t col =>
    match c.table t with
    | none => some c
    | some tbl => do
      let tbl ← if tbl.hasColumn col.name then some tbl
        else tbl.changeSchema codec (tbl.schema++[col])
      some (c.setTable t {tbl with heap := tbl.heap.stampAllPagesMinLsn rec.lsn})
  | .ddlDropColumn t name =>
    match c.table t with
    | none => some c
    | some tbl => do
      let tbl ← if tbl.hasColumn name then
          tbl.changeSchema codec (tbl.schema.eraseP (·.name = name))
        else some tbl
      some (c.setTable t {tbl with heap := tbl.heap.stampAllPagesMinLsn rec.lsn})

/-- The second pass over records numbered from `i`. -/
def replayFrom (records : List WalRecord) (ceiling : ℕ) :
    ℕ → Catalog → List WalRecord → Option Catalog
  | _, c, [] => some c
  | i, c, rec::rest => do
    let c ← if replayed records i rec then c.replayRecord codec ceiling rec else some c
    replayFrom records ceiling (i+1) c rest

def replayPageSlack : ℕ := 64

/-- Highest page id a record may name. -/
def replayPageCeiling (c : Catalog) (records : List WalRecord) : ℕ :=
  (c.tables.map (fun x => x.2.heap.numPages)).foldl max 0+records.length+replayPageSlack

def replayRecords (c : Catalog) (records : List WalRecord) : Option Catalog :=
  c.replayFrom codec records (c.replayPageCeiling records) 0 records

/-- Open every heap the catalog file names. -/
def openTables (c : Catalog) : Option Catalog := do
  let tables ← c.file.mapM (fun x => do
    let tbl ← c.table x.1
    let h ← tbl.heap.openDisk
    some (x.1,(⟨x.2,h⟩ : Table)))
  some {c with tables := tables, nextTxId := 1, activeTx := none, pendingFree := []}

/-- Opening the directory after a crash. -/
def recover (c : Catalog) : Option Catalog := do
  let c ← c.openTables
  c.replayRecords codec c.log

end Catalog
end PowDB.Storage
