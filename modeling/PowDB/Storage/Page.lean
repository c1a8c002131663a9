import Mathlib.Algebra.BigOperators.Group.List.Basic
import Mathlib.Algebra.Order.Ring.Nat
import Mathlib.Tactic.Common

/-! Slotted heap pages. A page is seen through its slot directory: the bytes a
live entry points at, in slot order, together with the header words `free_start`
and `lsn`. Offsets inside the data area are not kept, because every decision of
the page code reads lengths and `free_start` only. -/
namespace PowDB.Storage
open List

abbrev Bytes := List UInt8

/-- The head of an overflow chain, as a spilled row carries it. -/
structure OverflowStub where
  firstPage : ℕ
  totalLen : ℕ
  deriving DecidableEq

/-- An encoded row. `body` has the length of the whole encoding; the stubs of a
v2 row are listed beside it, in column order. -/
structure Row where
  body : Bytes
  stubs : List OverflowStub
  deriving DecidableEq

def Row.len (r : Row) : ℕ := r.body.length
def Row.isV2 (r : Row) : Bool := !r.stubs.isEmpty

def pageSize : ℕ := 4096
def pageHeaderSize : ℕ := 20
def slotCountSize : ℕ := 2
def slotEntrySize : ℕ := 4
def maxRowDataSize : ℕ := pageSize-pageHeaderSize-slotCountSize-slotEntrySize

structure Page where
  lsn : ℕ
  freeStart : ℕ
  slots : List (Option Row)
  deriving DecidableEq

inductive UpdateFit
  | inPlace
  | relocates
  | missing
  deriving DecidableEq

namespace Page

def new : Page := ⟨0,pageHeaderSize,[]⟩

/-- First byte of the slot directory. -/
def dirStart (p : Page) : ℕ := pageSize-slotCountSize-slotEntrySize*p.slots.length
def freeSpace (p : Page) : ℕ := p.dirStart-p.freeStart

def get (p : Page) (slot : ℕ) : Option Row := (p.slots[slot]?).join

def insert (p : Page) (r : Row) : Option (ℕ × Page) :=
  if p.freeSpace < r.len+slotEntrySize then none
  else some (p.slots.length,{p with freeStart := p.freeStart+r.len, slots := p.slots++[some r]})

/-- Replay's placement at an exact slot: an existing slot is left as it is, a gap
is bridged with tombstones. -/
def insertAtSlot (p : Page) (slot : ℕ) (r : Row) : Option Page :=
  if slot < p.slots.length then some p
  else if p.freeSpace < r.len+slotEntrySize*(slot-p.slots.length+1) then none
  else some {p with
    freeStart := p.freeStart+r.len
    slots := p.slots++List.replicate (slot-p.slots.length) none++[some r]}

def slotLen : Option Row → ℕ
  | none => 0
  | some r => r.len

def liveBytes (p : Page) : ℕ := (p.slots.map slotLen).sum
def deadSpace (p : Page) : ℕ := p.freeStart-(pageHeaderSize+p.liveBytes)
def compact (p : Page) : Page := {p with freeStart := pageHeaderSize+p.liveBytes}

def delete (p : Page) (slot : ℕ) : Page := {p with slots := p.slots.set slot none}

def updateFit (p : Page) (slot len : ℕ) : UpdateFit :=
  match p.get slot with
  | none => .missing
  | some old => if len ≤ old.len ∨ len ≤ p.freeSpace then .inPlace else .relocates

/-- In place when the row fits its old bytes, else appended at `free_start`. A
page is never compacted here. -/
def update (p : Page) (slot : ℕ) (r : Row) : Option Page :=
  match p.get slot with
  | none => none
  | some old =>
    if r.len ≤ old.len then some {p with slots := p.slots.set slot (some r)}
    else if r.len ≤ p.freeSpace then
      some {p with freeStart := p.freeStart+r.len, slots := p.slots.set slot (some r)}
    else none

/-- Overwrite a slot's bytes and cut its length down to the new row's, the pair
`slot_bytes_mut` and `shrink_slot`. -/
def shrinkTo (p : Page) (slot : ℕ) (r : Row) : Page := {p with slots := p.slots.set slot (some r)}

def setLsn (p : Page) (lsn : ℕ) : Page := if p.lsn < lsn then {p with lsn := lsn} else p

def liveRows (p : Page) : List Row := p.slots.reduceOption

section
variable (p : Page)
include p

@[simp] lemma delete_lsn (s : ℕ) : (p.delete s).lsn = p.lsn := rfl
@[simp] lemma delete_freeStart (s : ℕ) : (p.delete s).freeStart = p.freeStart := rfl
@[simp] lemma delete_slots (s : ℕ) : (p.delete s).slots = p.slots.set s none := rfl
@[simp] lemma compact_lsn : p.compact.lsn = p.lsn := rfl
@[simp] lemma compact_slots : p.compact.slots = p.slots := rfl
@[simp] lemma setLsn_slots (l : ℕ) : (p.setLsn l).slots = p.slots := by
  unfold setLsn; split <;> rfl
@[simp] lemma setLsn_freeStart (l : ℕ) : (p.setLsn l).freeStart = p.freeStart := by
  unfold setLsn; split <;> rfl
lemma setLsn_lsn (l : ℕ) : (p.setLsn l).lsn = max p.lsn l := by
  by_cases h : p.lsn < l
  · simp [setLsn,h,Nat.max_eq_right h.le]
  · simp [setLsn,h,Nat.max_eq_left (Nat.le_of_not_lt h)]

end

lemma get_some_lt {p : Page} (h : p.get s = some r) : s < p.slots.length := by
  by_contra hs
  simp [get,getElem?_eq_none (Nat.le_of_not_lt hs)] at h

lemma get_eq_some {p : Page} : p.get s = some r ↔ p.slots[s]? = some (some r) := by
  unfold get
  cases p.slots[s]? <;> simp

end Page
end PowDB.Storage
