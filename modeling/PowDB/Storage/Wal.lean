import PowDB.Storage.HeapOps

/-! Log records and the first pass of recovery, which decides from the
transaction markers which row records count as committed. -/
namespace PowDB.Storage
open List

inductive TypeId
  | empty | int | float | bool | str | dateTime | uuid | bytes | json
  deriving DecidableEq

structure ColumnDef where
  name : String
  typeId : TypeId
  required : Bool
  deriving DecidableEq

abbrev Schema := List ColumnDef

inductive WalRecordType
  | insert (table : String) (rid : RowId) (row : Row)
  | update (table : String) (rid : RowId) (row : Row)
  | delete (table : String) (rid : RowId)
  | overflowWrite (table : String) (page : ℕ) (next : Option ℕ) (chunk : Bytes)
  | overflowFree (table : String) (pages : List ℕ)
  | begin
  | commit
  | rollback
  | ddlCreateTable (name : String) (schema : Schema)
  | ddlDropTable (name : String)
  | ddlAddColumn (table : String) (col : ColumnDef)
  | ddlDropColumn (table : String) (col : String)
  deriving DecidableEq

structure WalRecord where
  lsn : ℕ
  tx : ℕ
  type : WalRecordType
  deriving DecidableEq

/-- Records the transaction filter applies to. -/
def WalRecordType.isRow : WalRecordType → Bool
  | .insert .. | .update .. | .delete .. | .overflowWrite .. | .overflowFree .. => true
  | _ => false

def WalRecordType.isBoundary : WalRecordType → Bool
  | .begin | .commit | .rollback => true
  | _ => false

/-- State of the first pass: open spans, the newest first, and the indices of
row records known to be committed. -/
structure TxScan where
  spans : List (ℕ × List ℕ)
  committed : List ℕ

namespace TxScan

/-- Add a row to the newest open span of its transaction. -/
def addRow (tx i : ℕ) : List (ℕ × List ℕ) → Option (List (ℕ × List ℕ))
  | [] => none
  | (t,rows)::rest =>
    if t = tx then some ((t,i::rows)::rest) else (addRow tx i rest).map ((t,rows)::·)

/-- Remove the newest open span of a transaction. -/
def takeSpan (tx : ℕ) : List (ℕ × List ℕ) → Option (List ℕ × List (ℕ × List ℕ))
  | [] => none
  | (t,rows)::rest =>
    if t = tx then some (rows,rest) else (takeSpan tx rest).map (fun x => (x.1,(t,rows)::x.2))

def step (s : TxScan) (i : ℕ) (rec : WalRecord) : TxScan :=
  if rec.type.isRow then
    if rec.tx = 0 then {s with committed := i::s.committed}
    else {s with spans := (addRow rec.tx i s.spans).getD ((rec.tx,[i])::s.spans)}
  else if rec.tx = 0 then s
  else match rec.type with
  | .begin => {s with spans := (rec.tx,[])::s.spans}
  | .commit =>
    match takeSpan rec.tx s.spans with
    | none => s
    | some (rows,rest) => ⟨rest,rows++s.committed⟩
  | .rollback =>
    match takeSpan rec.tx s.spans with
    | none => s
    | some (_,rest) => {s with spans := rest}
  | _ => s

/-- The pass over records numbered from `i`. -/
def run : ℕ → TxScan → List WalRecord → TxScan
  | _, s, [] => s
  | i, s, rec::rest => run (i+1) (s.step i rec) rest

lemma run_append (i : ℕ) (s : TxScan) (xs ys : List WalRecord) :
    run i s (xs++ys) = run (i+xs.length) (run i s xs) ys := by
  induction xs generalizing i s with
  | nil => rfl
  | cons x xs ih =>
    simp only [cons_append,run,ih,length_cons]
    rw [Nat.add_assoc,Nat.add_comm 1]

end TxScan

/-- Whether the second pass applies the record at index `i`. -/
def replayed (records : List WalRecord) (i : ℕ) (rec : WalRecord) : Bool :=
  !(records.any (·.type.isBoundary)) || !rec.type.isRow ||
    decide (i ∈ (TxScan.run 0 ⟨[],[]⟩ records).committed)

end PowDB.Storage
