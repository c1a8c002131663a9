import Mathlib.Data.List.Basic
import Mathlib.Logic.Function.Basic
import Mathlib.Tactic.Common

/-! A directory as a map from names to contents. What one owner of a name
writes or removes is invisible to the owners of other names. -/
namespace PowDB.Lib
open List
variable {ν β : Type} [DecidableEq ν]

abbrev Directory (ν β : Type) := ν → Option β

namespace Directory

def write (dir : Directory ν β) (name : ν) (body : β) : Directory ν β :=
  Function.update dir name (some body)

def remove (dir : Directory ν β) (name : ν) : Directory ν β := Function.update dir name none

def writeAll (dir : Directory ν β) (files : List (ν × β)) : Directory ν β :=
  files.foldl (fun dir x => dir.write x.1 x.2) dir

def removeAll (dir : Directory ν β) (names : List ν) : Directory ν β := names.foldl remove dir

section
variable (dir : Directory ν β)
include dir

@[simp] lemma write_self (name : ν) (body : β) :
    dir.write name body name = some body := by
  simp [write]

lemma write_of_ne (h : other ≠ name) (body : β) :
    dir.write name body other = dir other := by
  simp [write,h]

lemma remove_of_ne (h : other ≠ name) :
    dir.remove name other = dir other := by
  simp [remove,h]

lemma removeAll_of_notMem (h : other ∉ names) :
    dir.removeAll names other = dir other := by
  induction names generalizing dir with
  | nil => rfl
  | cons name names ih =>
    have htail := ih (dir.remove name) (fun hmem => h (mem_cons_of_mem _ hmem))
    apply htail.trans
    apply remove_of_ne
    intro heq
    apply h
    simp [heq]

lemma writeAll_of_notMem
    (h : ∀ body, (other,body) ∉ files) : dir.writeAll files other = dir other := by
  induction files generalizing dir with
  | nil => rfl
  | cons x files ih =>
    have htail := ih (dir.write x.1 x.2) (fun body hmem => h body (mem_cons_of_mem _ hmem))
    apply htail.trans
    apply write_of_ne
    intro heq
    apply h x.2
    simp [heq]

/-- A name that every write of a batch gives one body holds that body afterwards. -/
lemma writeAll_of_mem
    (hmem : (name,body) ∈ files) (hone : ∀ other, (name,other) ∈ files → other = body) :
    dir.writeAll files name = some body := by
  induction files generalizing dir with
  | nil => simp at hmem
  | cons x files ih =>
    by_cases hlater : (name,body) ∈ files
    · exact ih _ hlater (fun other hother => hone other (mem_cons_of_mem _ hother))
    · have hhead : x = (name,body) := by simpa [hlater,eq_comm] using hmem
      have hnone : ∀ other, (name,other) ∉ files := by
        intro other hother
        apply hlater
        rwa [hone other (mem_cons_of_mem _ hother)] at hother
      have hskip := writeAll_of_notMem (dir.write x.1 x.2) hnone
      apply hskip.trans
      simp [hhead]

end

end Directory
end PowDB.Lib
