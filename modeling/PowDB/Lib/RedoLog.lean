import Mathlib.Data.List.Basic

/-! A redo log over arbitrary operations: rows under transaction ids, boundary
markers, and entries that stand outside every transaction. Replay applies the rows of
committed transactions; of a log where every row is committed it applies them all. -/
namespace PowDB.Lib
open List
variable {τ op : Type}

inductive LogEntry (op : Type)
  | begin (tx : ℕ)
  | commit (tx : ℕ)
  | row (tx : ℕ) (o : op)
  | schema (o : op)

namespace LogEntry

/-- The operation an entry carries. -/
def operation : LogEntry op → Option op
  | row _ o | schema o => some o
  | _ => none

def isBoundary : LogEntry op → Bool
  | begin _ | commit _ => true
  | _ => false

def committed : LogEntry op → Option ℕ
  | commit tx => some tx
  | _ => none

/-- What replay makes of an entry. A log without boundaries is replayed whole. -/
def replayed (log : List (LogEntry op)) : LogEntry op → Option op
  | row tx o => if !log.any isBoundary || decide (tx ∈ log.filterMap committed) then some o else none
  | e => e.operation

end LogEntry

def applyAll (apply : τ → op → Option τ) (t : τ) (os : List op) : Option τ := os.foldlM apply t

section
variable (apply : τ → op → Option τ)
include apply

@[simp] lemma applyAll_nil (t : τ) : applyAll apply t [] = some t := rfl

@[simp] lemma applyAll_cons (t : τ) (o : op) (os : List op) :
    applyAll apply t (o::os) = (apply t o).bind (fun t => applyAll apply t os) := rfl

lemma applyAll_append (t : τ) (xs ys : List op) :
    applyAll apply t (xs++ys) = (applyAll apply t xs).bind (fun t => applyAll apply t ys) := by
  simp [applyAll,foldlM_append]

end

open LogEntry

/-- The files, with the log from `flushed` on, give the live tables. Every row's transaction has its
commit marker or is awaited. -/
structure Backed (apply : τ → op → Option τ) (files : τ) (flushed : ℕ) (log : List (LogEntry op)) (live : τ)
    (awaited : List ℕ) : Prop where
  le : flushed ≤ log.length
  replay : applyAll apply files ((log.drop flushed).filterMap operation) = some live
  rows : ∀ tx o, .row tx o ∈ log → tx ∈ log.filterMap committed ∨ tx ∈ awaited

section
variable {apply : τ → op → Option τ} {files live t : τ} {flushed : ℕ}
  {awaited : List ℕ}

/-- One more entry, applied as it is logged. -/
lemma Backed.push (h : Backed apply files flushed log live awaited)
    (he : applyAll apply live e.operation.toList = some t)
    (hkept : ∀ tx ∈ awaited, e.committed = some tx ∨ tx ∈ awaited') (hnew : ∀ tx o, e = .row tx o → tx ∈ awaited') :
    Backed apply files flushed (log++[e]) t awaited' := by
  have hone : [e].filterMap operation = e.operation.toList := by
    cases he : e.operation <;> simp [he]
  refine ⟨by rw [length_append]; exact Nat.le_add_right_of_le h.le,?_,fun tx o hmem => ?_⟩
  · rw [drop_append_of_le_length h.le,filterMap_append,applyAll_append,h.replay,hone]
    exact he
  · rw [filterMap_append,mem_append]
    rcases mem_append.mp hmem with hmem | hmem
    · rcases h.rows tx o hmem with hc | hw
      · exact .inl (.inl hc)
      · exact (hkept tx hw).imp_left fun hc => .inr (mem_filterMap.mpr ⟨e,mem_cons_self,hc⟩)
    · exact .inr (hnew tx o (mem_singleton.mp hmem).symm)

/-- Replay of a log that awaits nothing gives the live tables. -/
lemma Backed.replayed (h : Backed apply files flushed log live []) :
    applyAll apply files ((log.drop flushed).filterMap (replayed log)) = some live := by
  rw [← h.replay]
  refine congrArg _ (filterMap_congr fun e he => ?_)
  cases e with
  | row tx o =>
    have hc := (h.rows tx o (mem_of_mem_drop he)).resolve_right not_mem_nil
    rw [LogEntry.replayed,if_pos (by simp only [hc,decide_true,Bool.or_true])]
    rfl
  | _ => rfl

end

end PowDB.Lib
