import PowDB.Storage.Heap

/-! The remaining heap operations: overflow chains, which are written to disk at
once, the two fused scans, replay's placement at an exact row id, stamping,
flushing, and what opening a heap file does to its blocks. -/
namespace PowDB.Storage
namespace HeapFile

/-- Reuse a freed overflow page, else extend the file. -/
def allocateOverflowPage (h : HeapFile) : ℕ × HeapFile :=
  match h.freeOverflowPages with
  | i::rest => (i,{h with freeOverflowPages := rest})
  | [] => (h.numPages,{h with
      disk := Function.update h.disk h.numPages .zero
      numPages := h.numPages+1})

def allocateOverflowPages : ℕ → HeapFile → List ℕ × HeapFile
  | 0, h => ([],h)
  | n+1, h =>
    let (i,h) := h.allocateOverflowPage
    let (is,h) := allocateOverflowPages n h
    (i::is,h)

/-- Zero blocks up to and including `i`. -/
def extendTo (h : HeapFile) (i : ℕ) : HeapFile :=
  {h with
    disk := fun j => if h.numPages ≤ j ∧ j ≤ i then .zero else h.disk j
    numPages := max h.numPages (i+1)}

/-- One chunk of a chain goes to disk directly, past the hot page and the dirty copies. -/
def writeOverflowPage (h : HeapFile) (i : ℕ) (next : Option ℕ) (chunk : Bytes) (lsn : ℕ) :
    HeapFile :=
  let h := h.extendTo i
  {h with disk := Function.update h.disk i (.overflow ⟨lsn,next,chunk⟩)}

def overflowPageLsn (h : HeapFile) (i : ℕ) : ℕ := if i < h.numPages then (h.disk i).lsn else 0

/-- Walk a chain, bounded by the file's length. -/
def overflowChainPages (h : HeapFile) : ℕ → Option ℕ → List ℕ
  | 0, _ => []
  | _, none => []
  | fuel+1, some i =>
    if i < h.numPages then
      match h.disk i with
      | .overflow o => i::overflowChainPages h fuel o.next
      | _ => [i]
    else []

def chainOf (h : HeapFile) (s : OverflowStub) : List ℕ :=
  h.overflowChainPages (h.numPages+1) (some s.firstPage)

/-- Pages of every chain the row at `rid` owns. -/
def overflowChainPagesAt (h : HeapFile) (rid : RowId) : List ℕ :=
  match (h.view rid.page).slotted.get rid.slot with
  | none => []
  | some r => r.stubs.flatMap h.chainOf

def chunksFrom (h : HeapFile) : ℕ → Option ℕ → Option Bytes
  | _, none => some []
  | 0, some _ => none
  | fuel+1, some i =>
    if i < h.numPages then
      match h.disk i with
      | .overflow o => (h.chunksFrom fuel o.next).map (o.chunk++·)
      | _ => none
    else none

/-- The out-of-line value of a stub; `none` is a corrupt chain. -/
def readOverflowValue (h : HeapFile) (s : OverflowStub) : Option Bytes :=
  match h.chunksFrom (h.numPages+1) (some s.firstPage) with
  | none => none
  | some v => if v.length = s.totalLen then some v else none

def releaseOverflowPages (h : HeapFile) (is : List ℕ) : HeapFile :=
  {h with freeOverflowPages := is.reverse++h.freeOverflowPages}

def reserveOverflowPage (h : HeapFile) (i : ℕ) : HeapFile :=
  {h with freeOverflowPages := h.freeOverflowPages.filter (· ≠ i)}

/-- Slots of a page whose live row satisfies the predicate, in slot order. -/
def matchingSlots (pred : Row → Bool) (p : Page) : List ℕ :=
  (List.range p.slots.length).filter (fun s => ((p.get s).map pred).getD false)

/-- One page of `scan_delete_matching`. -/
def scanDeletePage (pred : Row → Bool) (h : HeapFile) (i : ℕ) : List RowId × HeapFile :=
  let h := {h with hot := some i}
  let c := h.view i
  let slots := if c.isOverflow then [] else matchingSlots pred c.slotted
  match slots with
  | [] => ([],h)
  | s::ss =>
    let released := ((s::ss).map (fun s => Page.slotLen (c.slotted.get s))).sum
    ((s::ss).map (RowId.mk i),
      (h.put i (c.withRows ((s::ss).foldl Page.delete c.slotted))).adjustFreeBytes i released)

def scanPages {α : Type} (f : HeapFile → ℕ → List α × HeapFile) :
    HeapFile → List ℕ → List α × HeapFile
  | h, [] => ([],h)
  | h, i::is =>
    let (xs,h) := f h i
    let (ys,h) := scanPages f h is
    (xs++ys,h)

/-- Delete every matching row in one pass; the row ids come in log order. -/
def scanDeleteMatching (h : HeapFile) (pred : Row → Bool) : List RowId × HeapFile :=
  scanPages (scanDeletePage pred) h (List.range h.numPages)

/-- What a fused patch leaves in a slot; `none` sends the row to the fallback list. -/
def patched (mutate : Bytes → Option Bytes) (r : Row) : Option Row :=
  if r.isV2 then none
  else (mutate r.body).map (fun b => ⟨b.take r.len,[]⟩)

/-- Patches of one page: each matching slot with its new row. -/
def patchesOf (pred : Row → Bool) (mutate : Bytes → Option Bytes) (p : Page) : List (ℕ × Row) :=
  (matchingSlots pred p).filterMap
    (fun s => ((p.get s).bind (patched mutate)).map (fun r => (s,r)))

def scanPatchPage (pred : Row → Bool) (mutate : Bytes → Option Bytes) (h : HeapFile) (i : ℕ) :
    List (RowId × Row) × HeapFile :=
  let h := {h with hot := some i}
  let c := h.view i
  match if c.isOverflow then [] else patchesOf pred mutate c.slotted with
  | [] => ([],h)
  | x::xs => ((x::xs).map (fun x => (⟨i,x.1⟩,x.2)),
      h.put i (c.withRows ((x::xs).foldl (fun p x => p.shrinkTo x.1 x.2) c.slotted)))

/-- Patch every matching row in one pass; the patches come in log order. -/
def scanPatchMatching (h : HeapFile) (pred : Row → Bool) (mutate : Bytes → Option Bytes) :
    List (RowId × Row) × HeapFile :=
  scanPages (scanPatchPage pred mutate) h (List.range h.numPages)

/-- Fresh empty pages on disk up to and including `i`. -/
def growTo (h : HeapFile) (i : ℕ) : HeapFile :=
  {h with
    disk := fun j => if h.numPages ≤ j ∧ j ≤ i then .data Page.new else h.disk j
    numPages := max h.numPages (i+1)}

/-- The page replay places a row on: a blank block is made a fresh page first. -/
def unblank (p : Page) : Page := if p.freeStart < pageHeaderSize then Page.new else p

/-- Placement by `insert_at_slot`, retried once after compaction. -/
def placeAt (p : Page) (slot : ℕ) (r : Row) : Option Page :=
  match p.insertAtSlot slot r with
  | some p => some p
  | none => if 0 < p.deadSpace then p.compact.insertAtSlot slot r else none

/-- Replay of an insert at its logged row id; `none` is the error that fails the open. -/
def insertAt (h : HeapFile) (rid : RowId) (r : Row) : Option HeapFile := do
  let h := h.growTo rid.page
  let c := h.view rid.page
  let p ← placeAt (unblank c.slotted) rid.slot r
  some ({h with hot := some rid.page}.put rid.page (c.withRows p))

def stampAllPagesMinLsn (h : HeapFile) (lsn : ℕ) : HeapFile :=
  {h with
    dirty := fun i =>
      if i < h.numPages ∧ (h.view i).lsn < lsn then some ((h.view i).setLsn lsn) else h.dirty i
    hot := some (h.numPages-1)}

/-- Write one page's dirty copy to disk. -/
def flushPage (h : HeapFile) (i : ℕ) : HeapFile :=
  match h.dirty i with
  | none => h
  | some c => {h with
      disk := Function.update h.disk i c
      dirty := Function.update h.dirty i none}

def flushPages (h : HeapFile) (is : List ℕ) : HeapFile := is.foldl flushPage h
def flushAllDirty (h : HeapFile) : HeapFile := h.flushPages (List.range h.numPages)

/-- Blocks as opening leaves them on disk: every zero block is given a fresh page layout. -/
def openedDisk (h : HeapFile) (i : ℕ) : Cell :=
  if 0 < i ∧ i < h.numPages ∧ h.disk i = .zero then .data Page.new else h.disk i

/-- Opening forgets all memory and files each data page by its free and dead bytes. -/
def opened (h : HeapFile) : HeapFile :=
  (List.range' 1 (h.numPages-1)).foldl (fun g i =>
    if (h.openedDisk i).isOverflow then g
    else g.noteFreeBytes i ((h.openedDisk i).slotted.freeSpace+(h.openedDisk i).slotted.deadSpace))
    {create with disk := h.openedDisk, numPages := h.numPages}

/-- A superblock a row was written over has lost its magic and fails the open. -/
def openDisk (h : HeapFile) : Option HeapFile :=
  match h.disk 0 with
  | .superblock _ => some h.opened
  | _ => none

/-- Rows a scan of the whole file returns, in scan order. -/
def liveRows (h : HeapFile) : List Row :=
  (List.range h.numPages).flatMap (fun i => (h.view i).liveRows)

/-- A row with its out-of-line values read back. -/
def decoded (h : HeapFile) (r : Row) : Bytes × List (Option Bytes) :=
  (r.body,r.stubs.map h.readOverflowValue)

def decodedRows (h : HeapFile) : List (Bytes × List (Option Bytes)) := h.liveRows.map h.decoded

end HeapFile
end PowDB.Storage
