import PowDB.Lib.Attempt
import PowDB.Storage.RowSteps

/-! The copies a page can have: the pinned hot page, the buffer of changed pages that waits to
be written, the mapping of the file, and the file. Here `dirty` is that buffer alone. A changed
hot page is moved to the buffer before another page is pinned, and that may fail: the budget for
changed pages may be used up, and writing them out may stop at any page. -/
namespace PowDB.Storage
open Lib Function HeapFile List

inductive HeapError
  | rowTooLarge
  | transactionTooLarge
  | writeFailed (page : ℕ)
  | readPastEnd (page : ℕ)
  | unsupportedRow
  deriving DecidableEq

/-- What becomes of a changed hot page that has to make room: the budget takes one more page,
it is used up and a transaction forbids to write, or the changed pages are written in some
order until a write fails. -/
inductive Relief
  | room
  | pinned
  | drain (order failing : List ℕ)
  deriving DecidableEq

structure PageCache extends HeapFile where
  hotCell : Cell
  hotDirty : Bool
  /-- Pages the mapping covers. The mapping is private and never written, so it shows the file. -/
  mapped : Option ℕ
  /-- What the budget and the disk answer, one for each page that makes room. -/
  reliefs : List Relief

/-- A row put on a block. A block that never got a header takes it at offset 0, where the
header belongs and no reader looks for rows. -/
def Cell.putRow (c : Cell) (r : Row) : Option (ℕ × Cell) :=
  match c with
  | .zero => some (0,.clobbered (r.body.getD 4 0 = 3) ⟨0,r.len,[none]⟩)
  | c => (c.slotted.insert r).map fun x => (x.1,c.withRows x.2)

/-- Rows of a block as a scan lists them. -/
def Cell.entries (i : ℕ) (c : Cell) : List (RowId × Row) :=
  if c.isOverflow then []
  else (range c.slotted.slots.length).filterMap fun slot => (c.slotted.get slot).map fun r => (⟨i,slot⟩,r)

def rowMagic : Bytes := [0x50,0x52,0x4f,0x57]
def rowPrefixSize : ℕ := 6
def maxRowFormatVersion : ℕ := 2

/-- A row without the prefix has version 0; a newer version than this build's is refused. -/
def validateRowFormat (r : Row) : Bool :=
  if rowPrefixSize ≤ r.len ∧ r.body.take 4 = rowMagic then
    (r.body.getD 4 0).toNat+256*(r.body.getD 5 0).toNat ≤ maxRowFormatVersion
  else true

namespace PageCache

abbrev Op (α : Type) := Attempt PageCache HeapError α

def create : PageCache where
  toHeapFile := HeapFile.create
  hotCell := .zero
  hotDirty := false
  mapped := none
  reliefs := []

/-- A change of the free-space summary. -/
def note (f : HeapFile → HeapFile) : Op Unit := .modify fun s => {s with toHeapFile := f s.toHeapFile}

def setHotCell (c : Cell) : Op Unit := .modify fun s => {s with hotCell := c, hotDirty := true}

/-! ### Writing out and pinning -/

def flushHot (writes : ℕ → Bool) : Op Unit := do
  let s ← .read
  match s.hot with
  | none => pure ()
  | some i =>
    if !s.hotDirty then pure ()
    else if writes i then .write {s with disk := update s.disk i s.hotCell, hotDirty := false}
    else .fail (.writeFailed i)

/-- A page leaves the buffer once its own write has succeeded. -/
def flushBuffered (writes : ℕ → Bool) : List ℕ → Op Unit
  | [] => pure ()
  | i::is => do
    let s ← .read
    match s.dirty i with
    | none => flushBuffered writes is
    | some c =>
      if writes i then do
        .write {s with disk := update s.disk i c, dirty := update s.dirty i none}
        flushBuffered writes is
      else .fail (.writeFailed i)

/-- The buffered pages come in an order of their own; the ones `order` leaves out come last. -/
def flushAllDirty (order : List ℕ) (writes : ℕ → Bool) : Op Unit := do
  flushHot writes
  let s ← .read
  flushBuffered writes (order++range s.numPages)

def nextRelief : Op Relief := do
  let s ← .read
  .write {s with reliefs := s.reliefs.tail}
  pure (s.reliefs.headD .room)

def unpin : Op Unit := .modify fun s => {s with hot := none}

def parkHotPage : Op Unit := do
  let s ← .read
  match s.hot with
  | none => pure ()
  | some i =>
    if !s.hotDirty then unpin
    else match ← nextRelief with
      | .room => .modify fun s => {s with dirty := update s.dirty i (some s.hotCell), hot := none}
      | .pinned => .fail .transactionTooLarge
      | .drain order failing => do
        flushAllDirty order (· ∉ failing)
        unpin

/-- A page that is not pinned comes back from the buffer, else from the mapping or the file. -/
def ensureHot (i : ℕ) : Op Unit := do
  let s ← .read
  if s.hot = some i then pure ()
  else do
    parkHotPage
    let s ← .read
    match s.dirty i with
    | some c => .write {s with dirty := update s.dirty i none, hot := some i, hotCell := c, hotDirty := true}
    | none =>
      if s.mapped.any (i < ·) || i < s.numPages then
        .write {s with hot := some i, hotCell := s.disk i, hotDirty := false}
      else .fail (.readPastEnd i)

/-! ### Rows -/

def insertHot (r : Row) : Op (Option RowId) := do
  let s ← .read
  match s.hot with
  | none => pure none
  | some i =>
    match s.hotCell.putRow r with
    | none => pure none
    | some (slot,c) => do
      setHotCell c
      note (·.adjustFreeBytes i (-((r.len+slotEntrySize : ℕ) : ℤ)))
      pure (some ⟨i,slot⟩)

/-- A candidate page, compacted if that helps. -/
def reclaimHot (needed : ℕ) : Op Unit := do
  let s ← .read
  let p := reclaim s.hotCell.slotted needed
  if p = s.hotCell.slotted then pure () else setHotCell (s.hotCell.withRows p)

def insertSearch (r : Row) : ℕ → Op (Option RowId)
  | 0 => pure none
  | fuel+1 => do
    let s ← .read
    let taken := s.takeFreePage (r.len+slotEntrySize)
    note fun _ => taken.2
    match taken.1 with
    | none => pure none
    | some i => do
      ensureHot i
      reclaimHot (r.len+slotEntrySize)
      let s ← .read
      match s.hotCell.putRow r with
      | some (slot,c) => do
        setHotCell c
        note (·.noteFreeBytes i c.slotted.freeSpace)
        pure (some ⟨i,slot⟩)
      | none => do
        let p := s.hotCell.slotted
        note (·.noteFreeBytes i (min (p.freeSpace+p.deadSpace) (r.len+slotEntrySize-1)))
        insertSearch r fuel

/-- The file grows by a zero block, unmapped first; the new page is lost when the hot page
cannot make room for it. -/
def insertFresh (r : Row) : Op RowId := do
  let s ← .read
  let i := s.numPages
  match Page.new.insert r with
  | none => .fail .rowTooLarge
  | some (slot,p) => do
    .write {s with mapped := none, disk := update s.disk i .zero, numPages := i+1}
    note (·.noteFreeBytes i p.freeSpace)
    parkHotPage
    .modify fun s => {s with hot := some i, hotCell := .data p, hotDirty := true}
    pure ⟨i,slot⟩

def insert (r : Row) : Op RowId := do
  if maxRowDataSize < r.len then .fail .rowTooLarge
  else match ← insertHot r with
    | some rid => pure rid
    | none => do
      let s ← .read
      match ← insertSearch r s.freeListSize with
      | some rid => pure rid
      | none => insertFresh r

def delete (rid : RowId) : Op Unit := do
  ensureHot rid.page
  let s ← .read
  let p := s.hotCell.slotted
  setHotCell (if rid.slot < p.slots.length then s.hotCell.withRows (p.delete rid.slot) else s.hotCell)
  note (·.adjustFreeBytes rid.page (Page.slotLen (p.get rid.slot)))

def update (rid : RowId) (r : Row) : Op RowId := do
  if maxRowDataSize < r.len then .fail .rowTooLarge
  else do
    ensureHot rid.page
    let s ← .read
    match s.hotCell.slotted.update rid.slot r with
    | some p => do
      setHotCell (s.hotCell.withRows p)
      note (·.adjustFreeBytes rid.page ((Page.slotLen (s.hotCell.slotted.get rid.slot) : ℤ)-r.len))
      pure rid
    | none => do
      delete rid
      insert r

/-- `f` gives the row's new bytes or declines; longer bytes are refused. -/
def patchRowShrink (rid : RowId) (f : Bytes → Option Bytes) : Op Bool := do
  ensureHot rid.page
  let s ← .read
  match s.hotCell.slotted.get rid.slot with
  | none => pure false
  | some old =>
    if old.isV2 then pure false
    else match f old.body with
      | none => pure false
      | some body =>
        if old.len < body.length then pure false
        else do
          setHotCell (s.hotCell.withRows (s.hotCell.slotted.shrinkTo rid.slot ⟨body,[]⟩))
          pure true

/-- One page of a fused scan: its rows rewritten if one of them matches. `marks` is the number
the source takes for a sign of change. -/
def scanPage (slots : Page → List ℕ) (rewrite : Page → Page) (marks released : Page → ℕ) (i : ℕ) : Op Unit := do
  ensureHot i
  let s ← .read
  let p := s.hotCell.slotted
  if s.hotCell.isOverflow || (slots p).isEmpty then pure ()
  else do
    .write {s with hotCell := s.hotCell.withRows (rewrite p), hotDirty := s.hotDirty || 0 < marks p}
    if released p = 0 then pure () else note (·.adjustFreeBytes i (released p))

def scanPages (f : ℕ → Op Unit) : List ℕ → Op Unit
  | [] => pure ()
  | i::is => do
    f i
    scanPages f is

def deleteMatches (pred : Row → Bool) (p : Page) : Page := (matchingSlots pred p).foldl Page.delete p

/-- Bytes of the rows a predicate selects on a page. -/
def matchedBytes (pred : Row → Bool) (p : Page) : ℕ :=
  ((matchingSlots pred p).map fun slot => Page.slotLen (p.get slot)).sum

/-- The page counts as changed when bytes were released. -/
def scanDeleteMatching (pred : Row → Bool) : Op Unit := do
  let s ← .read
  scanPages (scanPage (matchingSlots pred) (deleteMatches pred) (matchedBytes pred) (matchedBytes pred))
    (range s.numPages)

def patchMatches (pred : Row → Bool) (mutate : Bytes → Option Bytes) (p : Page) : Page :=
  (patchesOf pred mutate p).foldl (fun p x => p.shrinkTo x.1 x.2) p

def patchedSlots (pred : Row → Bool) (mutate : Bytes → Option Bytes) (p : Page) : List ℕ :=
  (patchesOf pred mutate p).map Prod.fst

def scanPatchMatching (pred : Row → Bool) (mutate : Bytes → Option Bytes) : Op Unit := do
  let s ← .read
  scanPages (scanPage (patchedSlots pred mutate) (patchMatches pred mutate) (fun _ => 1) fun _ => 0)
    (range s.numPages)

/-- The mapping covers the file as it is; a failed write before it is only logged. -/
def enableMmap (order : List ℕ) (writes : ℕ → Bool) : Op Unit := do
  let s ← .read
  if s.mapped.isSome then pure ()
  else .modify fun s =>
    let s := (flushAllDirty order writes s).2
    {s with mapped := some s.numPages}

def disableMmap : Op Unit := .modify fun s => {s with mapped := none}

/-! ### Readers -/

def get (s : PageCache) (rid : RowId) : Except HeapError (Option Row) :=
  if s.hot = some rid.page then .ok (s.hotCell.slotted.get rid.slot)
  else match s.dirty rid.page with
    | some c => .ok (c.slotted.get rid.slot)
    | none =>
      if s.mapped.any (rid.page < ·) then .ok ((s.disk rid.page).slotted.get rid.slot)
      else if s.numPages ≤ rid.page then .ok none
      else match (s.disk rid.page).slotted.get rid.slot with
        | none => .ok none
        | some r => if validateRowFormat r then .ok (some r) else .error .unsupportedRow

/-- A scan looks into the buffer before it looks at the hot page. -/
def scanCell (s : PageCache) (i : ℕ) : Cell :=
  match s.dirty i with
  | some c => c
  | none => if s.hot = some i then s.hotCell else s.disk i

def scan (s : PageCache) : List (RowId × Row) := (range s.numPages).flatMap fun i => (s.scanCell i).entries i

/-- Hand over rows until one of them stops the visit. -/
def visit (stop : RowId × Row → Bool) : List (RowId × Row) → List (RowId × Row) × Bool
  | [] => ([],false)
  | x::xs => if stop x then ([x],true) else (x::(visit stop xs).1,(visit stop xs).2)

def visitPages (stop : RowId × Row → Bool) (entries : ℕ → List (RowId × Row)) :
    List ℕ → List (RowId × Row) × Bool
  | [] => ([],false)
  | i::is =>
    let here := visit stop (entries i)
    if here.2 then here else (here.1++(visitPages stop entries is).1,(visitPages stop entries is).2)

/-- The rows a callback is handed. Pages beyond the mapping are looked for in memory only, also
after the callback has stopped the visit of the mapped ones. -/
def tryForEachRow (s : PageCache) (stop : RowId × Row → Bool) : List (RowId × Row) :=
  let entries := fun i => (s.scanCell i).entries i
  match s.mapped with
  | none => (visitPages stop entries (range s.numPages)).1
  | some n =>
    let limit := min s.numPages n
    let here := visitPages stop entries (range limit)
    let hot := visitPages stop entries
      (s.hot.toList.filter fun i => decide (limit ≤ i) && decide (i < s.numPages) && (s.dirty i).isNone)
    let beyond := visitPages stop entries
      ((range' limit (s.numPages-limit)).filter fun i => (s.dirty i).isSome)
    here.1++if hot.2 then hot.1 else hot.1++beyond.1

end PageCache
end PowDB.Storage
