import PowDB.Query.Join
import PowDB.Storage.ValueOrder

/-! Scalar aggregates over materialized rows. Integers are added exactly and
floats by a compensated sum over an arithmetic the development leaves open; the
result is an integer unless a float took part. -/
namespace PowDB.Query
open Storage (Value TypeId)
open Lib
variable {τ : Type}

/-- The binary64 arithmetic. -/
structure FloatOps where
  add : UInt64 → UInt64 → UInt64
  sub : UInt64 → UInt64 → UInt64
  div : UInt64 → UInt64 → UInt64

inductive AggFunc
  | sum | avg | count | min | max
  deriving DecidableEq

inductive AggregateError
  | columnNotFound (qualifier : Option Qualifier) (column : String)
  | ambiguousColumn (column : String) (candidates : List OutputColumn)
  | argumentRequired (func : AggFunc)
  | nonNumeric (label : AggFunc) (found : TypeId)
  | overflow (label : AggFunc)
  deriving DecidableEq

/-- Neumaier summation: the total and the low-order bits it lost. -/
structure CompensatedSum where
  sum : UInt64
  compensation : UInt64
  deriving DecidableEq

namespace CompensatedSum

/-- Whether one number is at least as large in magnitude as another. -/
def absGe (a b : UInt64) : Bool :=
  !Binary64.isNaN a && !Binary64.isNaN b && decide (Binary64.magnitude b ≤ Binary64.magnitude a)

def add (F : FloatOps) (s : CompensatedSum) (value : UInt64) : CompensatedSum :=
  let total := F.add s.sum value
  if Binary64.isFinite total then
    let correction :=
      if absGe s.sum value then F.add (F.sub s.sum total) value else F.add (F.sub value total) s.sum
    ⟨total,F.add s.compensation correction⟩
  else ⟨total,0⟩

def total (F : FloatOps) (s : CompensatedSum) : UInt64 := F.add s.sum s.compensation

end CompensatedSum

/-- The running total of sums and averages. -/
structure NumericAgg where
  intSum : ℤ
  floatSum : CompensatedSum
  sawFloat : Bool
  count : ℕ
  deriving DecidableEq

namespace NumericAgg

def new : NumericAgg := ⟨0,⟨0,0⟩,false,0⟩

/-- Fold one value in. The integer total is a 128-bit number. -/
def push (F : FloatOps) (label : AggFunc) (a : NumericAgg) : Value → Except AggregateError NumericAgg
  | .int v =>
    let total := a.intSum+v.toInt
    if -2^127 ≤ total ∧ total < 2^127 then .ok {a with intSum := total,count := a.count+1}
    else .error (.overflow label)
  | .float v => .ok {a with floatSum := a.floatSum.add F v,sawFloat := true,count := a.count+1}
  | .empty => .ok a
  | other => .error (.nonNumeric label other.typeId)

def sum (F : FloatOps) (label : AggFunc) (a : NumericAgg) : Except AggregateError Value :=
  if a.count = 0 then .ok .empty
  else if a.sawFloat then .ok (.float (F.add (a.floatSum.total F) (Binary64.ofInt a.intSum)))
  else if -2^63 ≤ a.intSum ∧ a.intSum < 2^63 then .ok (.int (Int64.ofInt a.intSum))
  else .error (.overflow label)

def avg (F : FloatOps) (a : NumericAgg) : Value :=
  if a.count = 0 then .empty
  else .float (F.div (F.add (a.floatSum.total F) (Binary64.ofInt a.intSum)) (Binary64.ofInt a.count))

end NumericAgg

section Rows
variable (P : Prims)

/-- Whether a value takes the place of the extreme so far. -/
def replaces (func : AggFunc) (value current : Value) : Bool :=
  match func with
  | .min => value.cmp P.pj1Cmp current == .lt
  | _ => value.cmp P.pj1Cmp current == .gt

def keepExtreme (func : AggFunc) (current : Option Value) (value : Value) : Option Value :=
  match current with
  | none => some value
  | some c => if replaces P func value c then some value else some c

def countsEveryRow : Option (Expr τ) → Bool
  | none => true
  | some (.field name) => name == "*"
  | _ => false

def aggregateRows (F : FloatOps) (func : AggFunc) (argument : Option (Expr τ))
    (columns : List OutputColumn) (rows : List (List Value)) : Except AggregateError Value :=
  if func = .count ∧ countsEveryRow argument then .ok (.int (Int64.ofNat rows.length))
  else
    match argument with
    | none => .error (.argumentRequired func)
    | some e =>
      let values := rows.map (fun row => evalExpr P e row columns)
      match func with
      | .count => .ok (.int (Int64.ofNat (values.filter (fun v => !v.isEmpty)).length))
      | .avg => do
        let total ← values.foldlM (NumericAgg.push F .avg) .new
        .ok (total.avg F)
      | .sum => do
        let total ← values.foldlM (NumericAgg.push F .sum) .new
        total.sum F .sum
      | .min | .max =>
        .ok (((values.filter (fun v => !v.isEmpty)).foldl (keepExtreme P func) none).getD .empty)

/-- Position of a column for grouping: a column of that very name, or the only
column of a joined table that has it. -/
def resolveGroupColumn (qualifier : Option Qualifier) (name : String) (columns : List OutputColumn) :
    Except AggregateError ℕ :=
  match qualifier with
  | some (.named a) =>
    match columns.findIdx? (· == ⟨some a,name⟩) with
    | some i => .ok i
    | none => .error (.columnNotFound qualifier name)
  | some (.outer _) => .error (.columnNotFound qualifier name)
  | none =>
    match columns.findIdx? (· == ⟨none,name⟩) with
    | some i => .ok i
    | none =>
      let suffix := fun c : OutputColumn => c.table.isSome && c.name == name
      match columns.findIdx? suffix with
      | none => .error (.columnNotFound none name)
      | some i =>
        if (columns.filter suffix).length = 1 then .ok i
        else .error (.ambiguousColumn name (columns.filter suffix))

/-- The column an expression names by itself; other expressions are evaluated. -/
def resolveDirectGroupExpr (e : Expr τ) (columns : List OutputColumn) :
    Except AggregateError (Option ℕ) :=
  match e with
  | .field name => if name = "*" then .ok none else (resolveGroupColumn none name columns).map some
  | .qualifiedField q name => (resolveGroupColumn (some q) name columns).map some
  | _ => .ok none

/-- The value of a key on a row. -/
def directValue (e : Expr τ) (index : Option ℕ) (row : List Value) (columns : List OutputColumn) : Value :=
  match index with
  | some i => row[i]?.getD .empty
  | none => evalExpr P e row columns

lemma resolveColumnIndex_of_group
    (h : resolveGroupColumn none name columns = .ok i) : resolveColumnIndex name columns = some i := by
  simp only [resolveGroupColumn] at h
  split at h
  · rename_i hexact
    cases h
    simp [resolveColumnIndex,hexact]
  · rename_i hexact
    split at h
    · cases h
    · rename_i hsuffix
      split_ifs at h
      cases h
      simp [resolveColumnIndex,hexact,hsuffix]

/-- A column that was found by its position has the value of its name. -/
lemma directValue_eq
    (h : resolveDirectGroupExpr e columns = .ok index) (row : List Value) :
    directValue P e index row columns = evalExpr P e row columns := by
  cases index with
  | none => rfl
  | some i =>
    cases e with
    | field name =>
      simp only [resolveDirectGroupExpr] at h
      split_ifs at h
      · simp at h
      · cases hres : resolveGroupColumn none name columns with
        | error err => simp [hres,Except.map] at h
        | ok j =>
          have hj : j = i := by simpa [hres,Except.map] using h
          have hidx := resolveColumnIndex_of_group hres
          simp [directValue,evalExpr,evalExprMode,eval,rowNames,hidx,hj]
    | qualifiedField q name =>
      simp only [resolveDirectGroupExpr] at h
      cases q with
      | outer a => simp [resolveGroupColumn,Except.map] at h
      | named a =>
        simp only [resolveGroupColumn] at h
        split at h
        · rename_i j hj
          have hji : j = i := by simpa [Except.map] using h
          simp [directValue,evalExpr,evalExprMode,eval,rowNames,hj,hji]
        · simp [Except.map] at h
    | _ => simp [resolveDirectGroupExpr] at h

end Rows
end PowDB.Query
