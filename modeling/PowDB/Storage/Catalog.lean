import PowDB.Lib.AssocList
import PowDB.Storage.Wal

/-! The catalog: tables, the log, and the logged row statements. A statement
that the source fails with an error is `none`. -/
namespace PowDB.Storage

/-- Names that may stand in file paths: a letter or underscore, then letters,
digits and underscores. -/
def validateIdentifier (kind name : String) : Except String Unit :=
  match name.toList with
  | [] => .error s!"invalid {kind} name: must not be empty"
  | first::rest =>
    if !first.isAlpha && first != '_' then
      .error s!"invalid {kind} name '{name}': must start with a letter or underscore"
    else if rest.any (fun ch => !ch.isAlphanum && ch != '_') then
      .error s!"invalid {kind} name '{name}': must contain only letters, digits, and underscores"
    else .ok ()

structure Table where
  schema : Schema
  heap : HeapFile

structure Catalog where
  tables : List (String × Table)
  /-- The file `catalog.bin` as last persisted. -/
  file : List (String × Schema)
  log : List WalRecord
  lastLsn : ℕ
  nextTxId : ℕ
  activeTx : Option ℕ
  pendingFree : List (String × List ℕ)

namespace Catalog

def table (c : Catalog) (t : String) : Option Table := c.tables.lookup t

def setTable (c : Catalog) (t : String) (tbl : Table) : Catalog :=
  {c with tables := Lib.replaceKey c.tables t tbl}

def setHeap (c : Catalog) (t : String) (h : HeapFile) : Catalog :=
  match c.table t with
  | none => c
  | some tbl => c.setTable t {tbl with heap := h}

def append (c : Catalog) (tx : ℕ) (type : WalRecordType) : Catalog :=
  {c with log := c.log++[⟨c.lastLsn+1,tx,type⟩], lastLsn := c.lastLsn+1}

/-- The id row records are logged under: the open transaction's. -/
def nextTx (c : Catalog) : ℕ × Catalog :=
  match c.activeTx with
  | some id => (id,c)
  | none => (c.nextTxId,{c with nextTxId := c.nextTxId+1})

/-- Freed at once outside a transaction, else held until it commits. -/
def freeOverflowChain (c : Catalog) (t : String) (pages : List ℕ) : Catalog :=
  if pages.isEmpty then c
  else match c.activeTx with
  | some _ => {c with pendingFree := c.pendingFree++[(t,pages)]}
  | none =>
    match c.table t with
    | none => c
    | some tbl => c.setHeap t (tbl.heap.releaseOverflowPages pages)

/-- A value cut into overflow payloads; an empty value still takes one page. -/
def overflowChunks (value : Bytes) : List Bytes :=
  (List.range (max ((value.length+overflowPayloadCap-1)/overflowPayloadCap) 1)).map
    (fun i => (value.drop (i*overflowPayloadCap)).take overflowPayloadCap)

/-- Log and write the chunks of a chain whose pages are already allocated. -/
def writeChunks (c : Catalog) (t : String) (tx : ℕ) : List ℕ → List Bytes → Catalog
  | i::is, b::bs =>
    let c := c.append tx (.overflowWrite t i is.head? b)
    match c.table t with
    | none => c
    | some tbl => writeChunks
        (c.setHeap t (tbl.heap.writeOverflowPage i is.head? b c.lastLsn)) t tx is bs
  | _, _ => c

def writeOverflowChainLogged (c : Catalog) (t : String) (tx : ℕ) (value : Bytes) :
    OverflowStub × Catalog :=
  match c.table t with
  | none => (⟨0,value.length⟩,c)
  | some tbl =>
    let chunks := overflowChunks value
    let (pages,h) := HeapFile.allocateOverflowPages chunks.length tbl.heap
    (⟨pages.headD 0,value.length⟩,(c.setHeap t h).writeChunks t tx pages chunks)

/-- The row image of a statement: its inline encoding and the values it spills. -/
structure Image where
  body : Bytes
  spilled : List Bytes

def spillValues (c : Catalog) (t : String) (tx : ℕ) : List Bytes → List OverflowStub × Catalog
  | [] => ([],c)
  | v::vs =>
    let (s,c) := c.writeOverflowChainLogged t tx v
    let (ss,c) := spillValues c t tx vs
    (s::ss,c)

def encodeRowWithSpillLogged (c : Catalog) (t : String) (tx : ℕ) (im : Image) : Row × Catalog :=
  let (stubs,c) := c.spillValues t tx im.spilled
  (⟨im.body,stubs⟩,c)

/-- Stamp a page of a table with a record's LSN. -/
def setPageLsn (c : Catalog) (t : String) (i lsn : ℕ) : Option Catalog := do
  let tbl ← c.table t
  let h ← tbl.heap.setPageLsn i lsn
  some (c.setHeap t h)

/-- The heap insert comes first, so that the record carries the real row id. -/
def insert (c : Catalog) (t : String) (im : Image) : Option Catalog := do
  let (tx,c) := c.nextTx
  let (row,c) := c.encodeRowWithSpillLogged t tx im
  let tbl ← c.table t
  let (rid,h) ← tbl.heap.insert row
  let c := (c.setHeap t h).append tx (.insert t rid row)
  c.setPageLsn t rid.page c.lastLsn

def delete (c : Catalog) (t : String) (rid : RowId) : Option Catalog := do
  let tbl ← c.table t
  let old := tbl.heap.overflowChainPagesAt rid
  let (tx,c) := c.nextTx
  let c := c.append tx (.delete t rid)
  let h ← tbl.heap.delete rid
  let c ← (c.setHeap t h).setPageLsn t rid.page c.lastLsn
  some (c.freeOverflowChain t old)

def deleteAll (h : HeapFile) : List RowId → Option HeapFile
  | [] => some h
  | rid::rids => do deleteAll (← h.delete rid) rids

/-- Every row id is logged, then every slot is cleared. No page is stamped. -/
def deleteMany (c : Catalog) (t : String) (rids : List RowId) : Option Catalog := do
  let tbl ← c.table t
  let old := rids.flatMap tbl.heap.overflowChainPagesAt
  let (tx,c) := c.nextTx
  let c := rids.foldl (fun c rid => c.append tx (.delete t rid)) c
  let h ← deleteAll tbl.heap rids
  some ((c.setHeap t h).freeOverflowChain t old)

/-- A relocating update is logged as the delete and the insert it is; any other
is one update record. Both halves stamp their pages. -/
def updateLogged (c : Catalog) (t : String) (rid : RowId) (im : Image) : Option Catalog := do
  let (tx,c) := c.nextTx
  let old := ((← c.table t).heap).overflowChainPagesAt rid
  let (row,c) := c.encodeRowWithSpillLogged t tx im
  if maxRowDataSize < row.len then none
  else
    let tbl ← c.table t
    let hp ← tbl.heap.ensureHot rid.page
    if hp.updateFit rid row.len = .relocates then
      let c := c.append tx (.delete t rid)
      let deleteLsn := c.lastLsn
      let (newRid,h) ← hp.update rid row
      let c := (c.setHeap t h).append tx (.insert t newRid row)
      let insertLsn := c.lastLsn
      let c ← c.setPageLsn t rid.page deleteLsn
      let c ← c.setPageLsn t newRid.page insertLsn
      some (c.freeOverflowChain t old)
    else
      let c := c.append tx (.update t rid row)
      let lsn := c.lastLsn
      let (newRid,h) ← hp.update rid row
      let c ← (c.setHeap t h).setPageLsn t newRid.page lsn
      some (c.freeOverflowChain t old)

/-- Byte patch of one row, then an update record with the new bytes. No page is
stamped. Both `update_row_bytes_logged_by_slot` and `patch_var_col_logged`. -/
def patchLogged (c : Catalog) (t : String) (rid : RowId) (f : Bytes → Option Bytes) :
    Option Catalog := do
  let tbl ← c.table t
  match ← tbl.heap.patchRowShrink rid f with
  | (none,h) => some (c.setHeap t h)
  | (some row,h) =>
    let (tx,c) := (c.setHeap t h).nextTx
    some (c.append tx (.update t rid row))

/-- The in-place byte writes of a fixed-width patch; the row keeps its length. -/
def applyWrites (writes : List (ℕ × UInt8)) (b : Bytes) : Bytes :=
  writes.foldl (fun b w => b.set w.1 w.2) b

def updateRowBytesLoggedBySlot (c : Catalog) (t : String) (rid : RowId)
    (writes : List (ℕ × UInt8)) : Option Catalog :=
  c.patchLogged t rid (fun b => some (applyWrites writes b))

def patchVarColLogged (c : Catalog) (t : String) (rid : RowId) (patch : Bytes → Option Bytes) :
    Option Catalog :=
  c.patchLogged t rid patch

/-- One delete record per matched row, in scan order. No page is stamped. -/
def scanDeleteMatchingLogged (c : Catalog) (t : String) (pred : Row → Bool) : Option Catalog := do
  let tbl ← c.table t
  let (tx,c) := c.nextTx
  let (rids,h) := tbl.heap.scanDeleteMatching pred
  some (rids.foldl (fun c rid => c.append tx (.delete t rid)) (c.setHeap t h))

/-- One update record per patched row, in scan order. No page is stamped. -/
def scanPatchMatchingLogged (c : Catalog) (t : String) (pred : Row → Bool)
    (mutate : Bytes → Option Bytes) : Option Catalog := do
  let tbl ← c.table t
  let (tx,c) := c.nextTx
  let (patches,h) := tbl.heap.scanPatchMatching pred mutate
  some (patches.foldl (fun c x => c.append tx (.update t x.1 x.2)) (c.setHeap t h))

def begin (c : Catalog) : Option Catalog :=
  match c.activeTx with
  | some _ => none
  | none =>
    some ({c with nextTxId := c.nextTxId+1, activeTx := some c.nextTxId}.append c.nextTxId .begin)

def releasePending (c : Catalog) : List (String × List ℕ) → Catalog
  | [] => c
  | (t,pages)::rest =>
    match c.table t with
    | none => releasePending c rest
    | some tbl => releasePending (c.setHeap t (tbl.heap.releaseOverflowPages pages)) rest

def commitTransaction (c : Catalog) : Catalog :=
  let d := match c.activeTx with
    | none => c
    | some id => {c with activeTx := none}.append id .commit
  {d with pendingFree := []}.releasePending d.pendingFree

end Catalog

/-- A logged row statement. -/
inductive Stmt
  | insert (t : String) (im : Catalog.Image)
  | update (t : String) (rid : RowId) (im : Catalog.Image)
  | delete (t : String) (rid : RowId)
  | deleteMany (t : String) (rids : List RowId)
  | updateRowBytes (t : String) (rid : RowId) (writes : List (ℕ × UInt8))
  | patchVarCol (t : String) (rid : RowId) (patch : Bytes → Option Bytes)
  | scanDelete (t : String) (pred : Row → Bool)
  | scanPatch (t : String) (pred : Row → Bool) (mutate : Bytes → Option Bytes)

def Catalog.exec (c : Catalog) : Stmt → Option Catalog
  | .insert t im => c.insert t im
  | .update t rid im => c.updateLogged t rid im
  | .delete t rid => c.delete t rid
  | .deleteMany t rids => c.deleteMany t rids
  | .updateRowBytes t rid writes => c.updateRowBytesLoggedBySlot t rid writes
  | .patchVarCol t rid patch => c.patchVarColLogged t rid patch
  | .scanDelete t pred => c.scanDeleteMatchingLogged t pred
  | .scanPatch t pred mutate => c.scanPatchMatchingLogged t pred mutate

def Catalog.execAll (c : Catalog) : List Stmt → Option Catalog
  | [] => some c
  | s::ss => do (← c.exec s).execAll ss

end PowDB.Storage
