import PowDB.Lib.Outcome
import PowDB.Storage.MaintainedTable

/-! Deleting a row when the disk fails. Keys kept in the row leave their indexes first, keys on
overflow pages are read and removed after them, and the row goes last. -/
namespace PowDB.Storage
open List

inductive DeleteError
  | index (e : IndexError)
  | page
  | overflowCorrupt
  | transactionTooLarge
  deriving DecidableEq

/-- What succeeds on the row's page and, by column, on its overflow chains. -/
structure Disk where
  get : Bool
  hot : Bool
  chain : ℕ → Bool
  snapshot : Bool

namespace MaintainedTable
variable (P : TreeParams) (d : Disk) {row : HeapRow} {rid : ℕ} {t : MaintainedTable}

def unreadable (row : HeapRow) (c : ℕ) : Bool := rawStub c row && !d.chain c

def readKeys (t : MaintainedTable) (rid : ℕ) : Except DeleteError (List Value) :=
  if t.expressionIndexes.isEmpty then .ok []
  else if !d.get then .error .page
  else match t.rowAt rid with
    | none => .error (.index .rowNotFound)
    | some row =>
      if t.expressionIndexes.any fun e => unreadable d row e.rootColIdx then .error .overflowCorrupt
      else (t.expressionKeys P row.values).mapError .index

/-- The loop over the spilled keys, up to the first that cannot be read. -/
def deleteSpilled (row : HeapRow) (rid : ℕ) : List IndexedCol → Bool × List IndexedCol
  | [] => (true,[])
  | idx::cols =>
    if unreadable d row idx.colIdx then (false,idx::cols)
    else
      let rest := deleteSpilled row rid cols
      (rest.1,deleteDeferred P row rid idx::rest.2)

def removeKeys (rid : ℕ) : List ExpressionIndexedPath → List Value → List ExpressionIndexedPath
  | e::es, key::keys => e.remove P key rid::removeKeys rid es keys
  | es, _ => es

def heapDelete (t : MaintainedTable) (rid : ℕ) : Option DeleteError × MaintainedTable :=
  if !d.hot then (some .page,t)
  else if !d.snapshot then (some .transactionTooLarge,t)
  else (none,{t with rows := t.rows.filter (·.2 ≠ rid),pinned := some (ridPage rid)})

/-- The table a call leaves behind, with its error. -/
def deleteOn (t : MaintainedTable) (rid : ℕ) : Option DeleteError × MaintainedTable :=
  if t.indexedCols.isEmpty && t.expressionIndexes.isEmpty then t.heapDelete d rid
  else match t.readKeys P d rid with
    | .error e => (some e,t)
    | .ok keys =>
      if !d.hot then (some .page,t)
      else match t.rowAt rid with
        | none => t.heapDelete d rid
        | some row =>
          let cols := deleteSpilled P d row rid (t.indexedCols.map (deleteInline P row rid))
          if cols.1 then heapDelete d {t with
            indexedCols := cols.2
            expressionIndexes := removeKeys P rid t.expressionIndexes keys} rid
          else (some .overflowCorrupt,{t with indexedCols := cols.2})

def contents (t : MaintainedTable) := (t.rows,t.indexedCols,t.expressionIndexes)

/-- The indexes whose keys are gone when the first unreadable one is met. -/
def readCols (row : HeapRow) (cols : List IndexedCol) : List IndexedCol :=
  cols.takeWhile fun idx => !unreadable d row idx.colIdx

/-- Nothing fails once the first key is removed, or no index reached until then holds the row. -/
def Harmless (t : MaintainedTable) (rid : ℕ) : Prop :=
  t.indexedCols = [] ∧ t.expressionIndexes = [] ∨
  ∀ row keys, t.rowAt rid = some row → t.readKeys P d rid = .ok keys → d.hot = true →
    readCols d row t.indexedCols ≠ t.indexedCols ∨ d.snapshot = false →
      (∀ idx ∈ t.indexedCols, deleteInline P row rid idx = idx) ∧
      (∀ idx ∈ readCols d row t.indexedCols, deleteDeferred P row rid idx = idx) ∧
      (readCols d row t.indexedCols = t.indexedCols →
        ∀ x ∈ t.expressionIndexes.zip keys, x.1.remove P x.2 rid = x.1)

lemma deleteInline_colIdx (idx : IndexedCol) : (deleteInline P row rid idx).colIdx = idx.colIdx := by
  unfold deleteInline ColumnIndex.delete
  split_ifs <;> rfl

/-- A key is either in the row or on overflow pages. -/
lemma delete_untouched (idx : IndexedCol) : deleteDeferred P row rid (deleteInline P row rid idx) = idx ↔
    deleteInline P row rid idx = idx ∧ deleteDeferred P row rid idx = idx := by
  have hcol := @deleteInline_colIdx P row rid idx
  by_cases hstub : rawStub idx.colIdx row = true
  · simp [deleteInline,hstub]
  · have hid : deleteDeferred P row rid (deleteInline P row rid idx) = deleteInline P row rid idx := by
      rw [deleteDeferred,hcol,if_neg hstub]
    rw [hid,deleteDeferred,if_neg hstub,and_iff_left rfl]

lemma deleteSpilled_spec (cols : List IndexedCol) :
    let left := deleteSpilled P d row rid (cols.map (deleteInline P row rid))
    (left.1 = true ↔ readCols d row cols = cols) ∧
    (left.2 = cols ↔ (∀ idx ∈ cols, deleteInline P row rid idx = idx) ∧
      ∀ idx ∈ readCols d row cols, deleteDeferred P row rid idx = idx) := by
  induction cols with
  | nil => simp [deleteSpilled,readCols]
  | cons idx cols ih =>
    obtain ⟨hok,hcols⟩ := ih
    have hcol := @deleteInline_colIdx P row rid idx
    by_cases hread : unreadable d row idx.colIdx = true
    · have hmap : cols.map (deleteInline P row rid) = cols ↔ ∀ idx ∈ cols, deleteInline P row rid idx = idx := by
        simpa using map_inj_left (f := deleteInline P row rid) (g := id) (l := cols)
      simp [deleteSpilled,readCols,hcol,hread,hmap]
    · have hread : unreadable d row idx.colIdx = false := by simpa using hread
      have htake : readCols d row (idx::cols) = idx::readCols d row cols := by simp [readCols,hread]
      simp only [map_cons,deleteSpilled,hcol,hread,Bool.false_eq_true,if_false,htake,cons.injEq,true_and,hok,hcols,
        delete_untouched,forall_mem_cons]
      tauto

lemma removeKeys_eq (es : List ExpressionIndexedPath) (keys : List Value) :
    removeKeys P rid es keys = es ↔ ∀ x ∈ es.zip keys, x.1.remove P x.2 rid = x.1 := by
  induction es generalizing keys with
  | nil => simp [removeKeys]
  | cons e es ih =>
    cases keys with
    | nil => simp [removeKeys]
    | cons key keys => simp [removeKeys,ih]

lemma heapDelete_kept (h : (t.heapDelete d rid).1 ≠ none) : (t.heapDelete d rid).2 = t := by
  unfold heapDelete at h ⊢
  split_ifs at h ⊢ <;> simp_all

lemma removeKeys_zipWith {keys : List Value} (h : keys.length = es.length) :
    removeKeys P rid es keys = zipWith (fun e key => e.remove P key rid) es keys := by
  induction es generalizing keys with
  | nil => rfl
  | cons e es ih =>
    cases keys with
    | nil => cases h
    | cons key keys => rw [removeKeys,zipWith_cons_cons,ih (Nat.succ.inj h)]

/-- On a disk that never fails this is the table's delete. -/
lemma deleteOn_sound (t : MaintainedTable) (rid : ℕ) :
    t.deleteOn P ⟨true,true,fun _ => true,true⟩ rid =
      match t.delete P rid with
      | .ok t' => (none,t')
      | .error e => (some (.index e),t) := by
  have hread (row : HeapRow) (c : ℕ) : unreadable ⟨true,true,fun _ => true,true⟩ row c = false := by simp [unreadable]
  have hcols (row : HeapRow) (cols : List IndexedCol) :
      deleteSpilled P ⟨true,true,fun _ => true,true⟩ row rid cols = (true,cols.map (deleteDeferred P row rid)) := by
    induction cols with
    | nil => rfl
    | cons idx cols ih => simp [deleteSpilled,hread,ih]
  unfold deleteOn delete readKeys expressionKeysAt heapDelete
  by_cases hes : t.expressionIndexes = []
  · cases hrow : t.rowAt rid with
    | none => cases ht : t.indexedCols <;> simp [hes,Bind.bind,Except.bind]
    | some row => cases ht : t.indexedCols <;> simp [hes,Bind.bind,Except.bind,hcols,deleteEntries,removeKeys]
  · cases hrow : t.rowAt rid with
    | none => simp [hes,Bind.bind,Except.bind]
    | some row =>
      cases hkeys : t.expressionKeys P row.values with
      | error e => simp [hes,hread,hkeys,Except.mapError,Bind.bind,Except.bind]
      | ok keys =>
        have hlen : keys.length = t.expressionIndexes.length := by
          rw [(Lib.mapM_ok .empty hkeys).1,length_map]
        simp [hes,hread,hkeys,Except.mapError,Bind.bind,Except.bind,hcols,deleteEntries,removeKeys_zipWith P hlen]

/-- A number in the row and a text on overflow pages, each with an index. -/
def spilledRow : MaintainedTable where
  columns := [⟨"n",.int,false⟩,⟨"s",.str,false⟩]
  rows := [([⟨.int 5,false⟩,⟨.str "x",true⟩],7)]
  indexedCols := [⟨⟨0,true,[(.int 5,7)]⟩,"n",true⟩,⟨⟨1,true,[(.str "x",7)]⟩,"s",false⟩]
  expressionIndexes := []
  overflowPages := [1]
  pinned := none

end MaintainedTable
end PowDB.Storage
