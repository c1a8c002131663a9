import Mathlib.Logic.Function.Basic
import PowDB.Storage.Page

/-! A heap file: its blocks on disk, the dirty copies held in memory, the pinned
hot page, the free-space summary that steers inserts, and the list of freed
overflow pages. Page `0` is the superblock; data and overflow pages share the
remaining page ids. -/
namespace PowDB.Storage
open Function

structure RowId where
  page : ℕ
  slot : ℕ
  deriving DecidableEq

structure OverflowPage where
  lsn : ℕ
  next : Option ℕ
  chunk : Bytes
  deriving DecidableEq

def overflowPayloadCap : ℕ := 4068
def maxSlotCount : ℕ := 1019

/-- One block of a heap file. `zero` is the block a file extension leaves behind.
`clobbered` is a superblock or an overflow page (the flag says which) over whose
own header a row was written. -/
inductive Cell
  | zero
  | superblock (lsn : ℕ)
  | data (p : Page)
  | overflow (o : OverflowPage)
  | clobbered (wasOverflow : Bool) (p : Page)
  deriving DecidableEq

/-- The word at the bottom of an overflow page is payload; the page code reads it
as a slot count. -/
def slotCountWord (chunk : Bytes) : ℕ :=
  min ((chunk.getD 4066 0).toNat+256*(chunk.getD 4067 0).toNat) maxSlotCount

namespace Cell

/-- The block as the slotted-page code reads it, whatever its type byte says. -/
def slotted : Cell → Page
  | .zero => ⟨0,0,[]⟩
  | .superblock lsn => ⟨lsn,pageHeaderSize,[]⟩
  | .data p => p
  | .overflow o => ⟨o.lsn,pageHeaderSize,List.replicate (slotCountWord o.chunk) none⟩
  | .clobbered _ p => p

/-- Write a slotted page back over the block it was read from. -/
def withRows : Cell → Page → Cell
  | .zero, p => .data p
  | .superblock _, p => .clobbered false p
  | .data _, p => .data p
  | .overflow _, p => .clobbered true p
  | .clobbered b _, p => .clobbered b p

def lsn (c : Cell) : ℕ := c.slotted.lsn

def setLsn (c : Cell) (l : ℕ) : Cell :=
  match c with
  | .zero => .zero
  | .superblock l' => .superblock (max l' l)
  | .data p => .data (p.setLsn l)
  | .overflow o => .overflow {o with lsn := max o.lsn l}
  | .clobbered b p => .clobbered b (p.setLsn l)

def isOverflow : Cell → Bool
  | .overflow _ => true
  | .clobbered b _ => b
  | _ => false

/-- Rows a scan reads off the block, with their slots' order. -/
def liveRows (c : Cell) : List Row := if c.isOverflow then [] else c.slotted.liveRows

end Cell

structure HeapFile where
  disk : ℕ → Cell
  dirty : ℕ → Option Cell
  numPages : ℕ
  hot : Option ℕ
  freeBytes : ℕ → ℕ
  bucketOfPage : ℕ → Option ℕ
  freeBuckets : ℕ → List ℕ
  freeOverflowPages : List ℕ

def freeBucketBytes : ℕ := 64
def freeBucketCount : ℕ := pageSize/freeBucketBytes+1
def minUsefulFree : ℕ := 64

namespace HeapFile

def create : HeapFile where
  disk := fun i => if i = 0 then .superblock 0 else .zero
  dirty := fun _ => none
  numPages := 1
  hot := none
  freeBytes := fun _ => 0
  bucketOfPage := fun _ => none
  freeBuckets := fun _ => []
  freeOverflowPages := []

/-- Memory shadows the disk: a dirty copy is read before the block on disk. -/
def view (h : HeapFile) (i : ℕ) : Cell := (h.dirty i).getD (h.disk i)

/-- Leave a changed block in memory. -/
def put (h : HeapFile) (i : ℕ) (c : Cell) : HeapFile :=
  {h with dirty := update h.dirty i (some c)}

/-- Pin a page; reading past the end of the file fails. -/
def ensureHot (h : HeapFile) (i : ℕ) : Option HeapFile :=
  if i < h.numPages then some {h with hot := some i} else none

def freeBucket (free : ℕ) : ℕ := min (free/freeBucketBytes) (freeBucketCount-1)

def noteFreeBytes (h : HeapFile) (i free : ℕ) : HeapFile :=
  let free := min free 65535
  let h := {h with freeBytes := update h.freeBytes i free}
  if free ≤ minUsefulFree then {h with bucketOfPage := update h.bucketOfPage i none}
  else if h.bucketOfPage i = some (freeBucket free) then h
  else {h with
    bucketOfPage := update h.bucketOfPage i (some (freeBucket free))
    freeBuckets := update h.freeBuckets (freeBucket free)
      (i::h.freeBuckets (freeBucket free))}

def adjustFreeBytes (h : HeapFile) (i : ℕ) (delta : ℤ) : HeapFile :=
  h.noteFreeBytes i (min ((h.freeBytes i : ℤ)+delta).toNat 65535)

/-- Drop stale entries from one bucket until a page still filed there surfaces. -/
def popBucket (bucketOf : ℕ → Option ℕ) (b : ℕ) : List ℕ → Option ℕ × List ℕ
  | [] => (none,[])
  | i::rest => if bucketOf i = some b then (some i,rest) else popBucket bucketOf b rest

def takeFreePageIn (h : HeapFile) : List ℕ → Option ℕ × HeapFile
  | [] => (none,h)
  | b::bs =>
    match popBucket h.bucketOfPage b (h.freeBuckets b) with
    | (some i,rest) => (some i,{h with
        freeBuckets := update h.freeBuckets b rest
        bucketOfPage := update h.bucketOfPage i none})
    | (none,_) => takeFreePageIn {h with freeBuckets := update h.freeBuckets b []} bs

def takeFreePage (h : HeapFile) (need : ℕ) : Option ℕ × HeapFile :=
  h.takeFreePageIn
    (List.range' (freeBucket need+1) (freeBucketCount-(freeBucket need+1)))

/-- Entries on the free list, which bounds the pages one search can look at. -/
def freeListSize (h : HeapFile) : ℕ :=
  ((List.range freeBucketCount).map (fun b => (h.freeBuckets b).length)).sum

/-- Compact a candidate page when the row does not fit its free run but dead space exists. -/
def reclaim (p : Page) (needed : ℕ) : Page :=
  if p.freeSpace < needed ∧ 0 < p.deadSpace then p.compact else p

/-- The search over pages the summary offers. A page that was offered and refused
the row keeps whatever `reclaim` did to it. -/
def insertSearch : ℕ → HeapFile → Row → Option RowId × HeapFile
  | 0, h, _ => (none,h)
  | fuel+1, h, r =>
    match h.takeFreePage (r.len+slotEntrySize) with
    | (none,h) => (none,h)
    | (some i,h) =>
      let c := h.view i
      let p := reclaim c.slotted (r.len+slotEntrySize)
      let h := {h with hot := some i}
      let h := if p = c.slotted then h else h.put i (c.withRows p)
      match p.insert r with
      | some (slot,p') => (some ⟨i,slot⟩,(h.put i (c.withRows p')).noteFreeBytes i p'.freeSpace)
      | none => insertSearch fuel
          (h.noteFreeBytes i (min (p.freeSpace+p.deadSpace) (r.len+slotEntrySize-1))) r

def insertHot (h : HeapFile) (r : Row) : Option (RowId × HeapFile) := do
  let i ← h.hot
  let (slot,p) ← (h.view i).slotted.insert r
  some (⟨i,slot⟩,
    (h.put i ((h.view i).withRows p)).adjustFreeBytes i (-((r.len+slotEntrySize : ℕ) : ℤ)))

/-- Grow the file by one page and place the row on it. -/
def insertFresh (h : HeapFile) (r : Row) : Option (RowId × HeapFile) := do
  let i := h.numPages
  let (slot,p) ← Page.new.insert r
  let h := {h with disk := update h.disk i .zero, numPages := i+1}
  some (⟨i,slot⟩,{(h.noteFreeBytes i p.freeSpace).put i (.data p) with hot := some i})

/-- The pinned page if the row fits it, else a page the summary offers, else a new page. -/
def insert (h : HeapFile) (r : Row) : Option (RowId × HeapFile) :=
  if maxRowDataSize < r.len then none
  else match h.insertHot r with
  | some out => some out
  | none =>
    match h.insertSearch h.freeListSize r with
    | (some rid,h) => some (rid,h)
    | (none,h) => h.insertFresh r

def delete (h : HeapFile) (rid : RowId) : Option HeapFile := do
  let h ← h.ensureHot rid.page
  let c := h.view rid.page
  let p := c.slotted
  let released := Page.slotLen (p.get rid.slot)
  let c := if rid.slot < p.slots.length then c.withRows (p.delete rid.slot) else c
  some ((h.put rid.page c).adjustFreeBytes rid.page released)

def updateFit (h : HeapFile) (rid : RowId) (len : ℕ) : UpdateFit :=
  (h.view rid.page).slotted.updateFit rid.slot len

/-- In place if the page takes the row, else delete and insert; a missing row is inserted too. -/
def update (h : HeapFile) (rid : RowId) (r : Row) : Option (RowId × HeapFile) := do
  if maxRowDataSize < r.len then none
  else
    let h ← h.ensureHot rid.page
    let c := h.view rid.page
    match c.slotted.update rid.slot r with
    | some p => some (rid,(h.put rid.page (c.withRows p)).adjustFreeBytes rid.page
        ((Page.slotLen (c.slotted.get rid.slot) : ℤ)-r.len))
    | none => (← h.delete rid).insert r

/-- Byte patch of a live v1 row. `f` yields the row's new bytes, or declines; a
result longer than the row is refused. `none` inside is the source's `Ok(false)`. -/
def patchRowShrink (h : HeapFile) (rid : RowId) (f : Bytes → Option Bytes) :
    Option (Option Row × HeapFile) := do
  let h ← h.ensureHot rid.page
  let c := h.view rid.page
  match c.slotted.get rid.slot with
  | none => some (none,h)
  | some old =>
    if old.isV2 then some (none,h)
    else match f old.body with
    | none => some (none,h)
    | some body =>
      if old.len < body.length then some (none,h)
      else
        let r : Row := ⟨body,[]⟩
        some (some r,h.put rid.page (c.withRows (c.slotted.shrinkTo rid.slot r)))

def pageLsn (h : HeapFile) (i : ℕ) : ℕ := if i < h.numPages then (h.view i).lsn else 0

def setPageLsn (h : HeapFile) (i lsn : ℕ) : Option HeapFile := do
  let h ← h.ensureHot i
  some (if (h.view i).lsn < lsn then h.put i ((h.view i).setLsn lsn) else h)

end HeapFile
end PowDB.Storage
