import PowDB.Storage.Wal

/-! Logs of finished transactions. In such a log the first pass of recovery
counts every row record as committed, so the second pass applies all of them. -/
namespace PowDB.Storage
open List WalRecordType

/-- Whole transactions, with schema records between them. -/
inductive CommittedLog : List WalRecord → Prop
  | nil : CommittedLog []
  | block {log rows : List WalRecord} {id l l' : ℕ} (hlog : CommittedLog log) (hid : id ≠ 0)
      (hrows : ∀ rec ∈ rows, rec.type.isRow = true ∧ rec.tx = id) :
      CommittedLog (log++(⟨l,id,.begin⟩::(rows++[⟨l',id,.commit⟩])))
  | schema {log : List WalRecord} {rec : WalRecord} (hlog : CommittedLog log)
      (hrow : rec.type.isRow = false) (hbound : rec.type.isBoundary = false) :
      CommittedLog (log++[rec])

namespace TxScan

/-- Rows of one transaction gather in its span. -/
lemma run_rows {id : ℕ} (hid : id ≠ 0) (rows : List WalRecord)
    (hrows : ∀ rec ∈ rows, rec.type.isRow = true ∧ rec.tx = id) (k : ℕ) (is C : List ℕ) :
    ∃ js, run k ⟨[(id,is)],C⟩ rows = ⟨[(id,js)],C⟩ ∧ (∀ i ∈ is, i ∈ js) ∧
      ∀ i < rows.length, k+i ∈ js := by
  induction rows generalizing k is with
  | nil => exact ⟨is,rfl,fun _ h => h,by simp⟩
  | cons rec rows ih =>
    obtain ⟨hrow,htx⟩ := hrows rec mem_cons_self
    have hstep : step ⟨[(id,is)],C⟩ k rec = ⟨[(id,k::is)],C⟩ := by
      simp [step,hrow,htx,hid,addRow]
    obtain ⟨js,hrun,hold,hnew⟩ := ih (fun r hr => hrows r (mem_cons_of_mem _ hr)) (k+1) (k::is)
    refine ⟨js,by rw [run,hstep,hrun],fun i hi => hold i (mem_cons_of_mem _ hi),fun i hi => ?_⟩
    cases i with
    | zero => exact hold k mem_cons_self
    | succ i =>
      have := hnew i (by simpa using hi)
      rwa [Nat.add_right_comm] at this

/-- A whole transaction commits its rows and leaves no span open. -/
lemma run_block {id : ℕ} (hid : id ≠ 0)
    (hrows : ∀ rec ∈ rows, rec.type.isRow = true ∧ rec.tx = id) (l l' k : ℕ) (C : List ℕ) :
    ∃ C', run k ⟨[],C⟩ (⟨l,id,.begin⟩::(rows++[⟨l',id,.commit⟩])) = ⟨[],C'⟩ ∧ (∀ i ∈ C, i ∈ C') ∧
      ∀ i < rows.length, k+1+i ∈ C' := by
  have hbegin : step ⟨[],C⟩ k ⟨l,id,.begin⟩ = ⟨[(id,[])],C⟩ := by
    simp [step,isRow,hid]
  obtain ⟨js,hrun,-,hnew⟩ := run_rows hid rows hrows (k+1) [] C
  refine ⟨js++C,?_,fun i hi => mem_append_right _ hi,fun i hi => mem_append_left _ (hnew i hi)⟩
  rw [run,hbegin,run_append,hrun]
  simp [run,step,isRow,hid,takeSpan]

lemma run_schema {rec : WalRecord} (hrow : rec.type.isRow = false) (hbound : rec.type.isBoundary = false)
    (k : ℕ) (s : TxScan) : run k s [rec] = s := by
  obtain ⟨l,tx,type⟩ := rec
  by_cases htx : tx = 0 <;> cases type <;> simp_all [run,step,isRow,isBoundary]

end TxScan

lemma CommittedLog.run {log : List WalRecord} (h : CommittedLog log) :
    ∃ C, TxScan.run 0 ⟨[],[]⟩ log = ⟨[],C⟩ ∧
      ∀ i rec, log[i]? = some rec → rec.type.isRow = true → i ∈ C := by
  induction h with
  | nil => exact ⟨[],rfl,by simp⟩
  | @block log rows id l l' hlog hid hrows ih =>
    obtain ⟨C,hrun,hC⟩ := ih
    obtain ⟨C',hrun',hold,hnew⟩ := TxScan.run_block hid hrows l l' log.length C
    refine ⟨C',by rw [TxScan.run_append,hrun,Nat.zero_add,hrun'],fun i rec hi hrow => ?_⟩
    rw [getElem?_append] at hi
    split at hi
    · exact hold i (hC i rec hi hrow)
    · rename_i hlt
      obtain ⟨j,rfl⟩ := Nat.exists_eq_add_of_le (Nat.le_of_not_lt hlt)
      rw [Nat.add_sub_cancel_left] at hi
      cases j with
      | zero =>
        simp only [getElem?_cons_zero,Option.some.injEq] at hi
        subst hi
        simp [isRow] at hrow
      | succ j =>
        rw [getElem?_cons_succ,getElem?_append] at hi
        split at hi
        · rename_i hj
          have := hnew j hj
          rwa [Nat.add_right_comm,Nat.add_assoc] at this
        · have hmem := mem_of_getElem? hi
          rw [mem_singleton.mp hmem] at hrow
          simp [isRow] at hrow
  | @schema log rec hlog hrow hbound ih =>
    obtain ⟨C,hrun,hC⟩ := ih
    refine ⟨C,by rw [TxScan.run_append,hrun,TxScan.run_schema hrow hbound],fun i rec' hi hrow' => ?_⟩
    rw [getElem?_append] at hi
    split at hi
    · exact hC i rec' hi hrow'
    · have hmem := mem_of_getElem? hi
      rw [mem_singleton.mp hmem,hrow] at hrow'
      cases hrow'

/-- The second pass applies every record of a log of finished transactions. -/
lemma CommittedLog.replayed {log : List WalRecord} (h : CommittedLog log) {rec : WalRecord}
    (hi : log[i]? = some rec) : replayed log i rec = true := by
  obtain ⟨C,hrun,hC⟩ := h.run
  by_cases hrow : rec.type.isRow = true
  · simp [PowDB.Storage.replayed,hrun,hC i rec hi hrow]
  · simp [PowDB.Storage.replayed,hrow]

end PowDB.Storage
