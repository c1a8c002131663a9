import PowDB.Lib.StableSort
import PowDB.Query.Aggregate
import Mathlib.Data.Finset.Card

/-! Window functions over a materialized result. The rows are visited in the
order of their partition and order keys, a partition ends where a neighbour has
another partition key, and every row gets the value of the running state. -/
namespace PowDB.Query
open Storage (Value)
open Lib
variable {τ : Type}

inductive WindowFunc
  | rowNumber | rank | denseRank
  | agg (f : AggFunc)
  deriving DecidableEq

structure SortKey (τ : Type) where
  expr : Expr τ
  descending : Bool

/-- A window. Only a count may come without an argument. -/
structure WindowDef (τ : Type) where
  function : WindowFunc
  args : List (Expr τ)
  partitionBy : List (Expr τ)
  orderBy : List (SortKey τ)
  outputName : String
  argument_given : ∀ f, function = .agg f → f ≠ .count → args ≠ []

/-- A row with its position in the input. -/
abbrev Numbered := List Value × ℕ

/-- The keys of a row and its argument. -/
structure WindowKeys where
  part : List Value → List Value
  order : List Value → List Value
  arg : List Value → Option Value

/-- The order of one key: nulls come last in both directions. -/
def compareOrderValues (P : Prims) (descending : Bool) (left right : Value) : Ordering :=
  match left,right with
  | .empty,.empty => .eq
  | .empty,_ => .gt
  | _,.empty => .lt
  | l,r => if descending then (l.cmp P.pj1Cmp r).swap else l.cmp P.pj1Cmp r

/-- The running state of a partition. -/
structure Running where
  count : ℕ
  total : NumericAgg
  min : Option Value
  max : Option Value
  rankCounter : ℕ
  denseRankCounter : ℕ
  sameRankCount : ℕ

def Running.init : Running := ⟨0,.new,none,none,0,0,0⟩

@[simp] lemma Running.init_total : Running.init.total = .new := rfl

structure WindowLoop where
  prev : Option Numbered
  sortedPos : ℕ
  partitionStart : ℕ
  prevOrderKey : Option (List Value)
  running : Running
  winValues : ℕ → Value
  partitionRows : List ℕ

def WindowLoop.init : WindowLoop := ⟨none,0,0,none,.init,fun _ => .empty,[]⟩

section Execute
variable (P : Prims) (F : FloatOps)

def resolveArgument (columns : List OutputColumn) : Option (Expr τ) → Except AggregateError (Option ℕ)
  | none => .ok none
  | some e => resolveDirectGroupExpr e columns

def windowKeys (columns : List OutputColumn) (w : WindowDef τ) : Except AggregateError WindowKeys := do
  let part ← w.partitionBy.mapM (fun e => resolveDirectGroupExpr e columns)
  let order ← w.orderBy.mapM (fun k => resolveDirectGroupExpr k.expr columns)
  let arg ← resolveArgument columns w.args.head?
  .ok {
    part := fun row => (w.partitionBy.zip part).map (fun k => directValue P k.1 k.2 row columns)
    order := fun row => (w.orderBy.zip order).map (fun k => directValue P k.1.expr k.2 row columns)
    arg := fun row => w.args.head?.map (fun e => directValue P e arg row columns) }

def partitionCmp (w : WindowDef τ) : List Value → List Value → Ordering :=
  lexCmp (w.partitionBy.map (fun _ => Value.cmp P.pj1Cmp))

def orderCmp (w : WindowDef τ) : List Value → List Value → Ordering :=
  lexCmp (w.orderBy.map (fun k => compareOrderValues P k.descending))

def rowCmp (w : WindowDef τ) (K : WindowKeys) (a b : Numbered) : Ordering :=
  (partitionCmp P w (K.part a.1) (K.part b.1)).then (orderCmp P w (K.order a.1) (K.order b.1))

/-- Without an order the frame of an aggregate is the whole partition. -/
def wholePartitionFrame (w : WindowDef τ) : Bool :=
  match w.function with
  | .agg _ => w.orderBy.isEmpty
  | _ => false

/-- Fold the argument of a row into the running state of an aggregate. -/
def pushAgg (f : AggFunc) (w : WindowDef τ) (K : WindowKeys) (st : Running) (row : List Value) :
    Except AggregateError Running :=
  match f with
  | .sum | .avg =>
    match K.arg row with
    | none => .ok st
    | some v => do
      let total ← st.total.push F f v
      .ok {st with total := total}
  | .count =>
    .ok (if countsEveryRow w.args.head? then {st with count := st.count+1}
      else
        match K.arg row with
        | some v => if v.isEmpty then st else {st with count := st.count+1}
        | none => st)
  | .min =>
    .ok (match K.arg row with
      | some v => if v.isEmpty then st else {st with min := keepExtreme P .min st.min v}
      | none => st)
  | .max =>
    .ok (match K.arg row with
      | some v => if v.isEmpty then st else {st with max := keepExtreme P .max st.max v}
      | none => st)

def emitAgg (f : AggFunc) (st : Running) : Except AggregateError Value :=
  match f with
  | .sum => st.total.sum F .sum
  | .avg => .ok (st.total.avg F)
  | .count => .ok (.int (Int64.ofNat st.count))
  | .min => .ok (st.min.getD .empty)
  | .max => .ok (st.max.getD .empty)

def pushRow (w : WindowDef τ) (K : WindowKeys) (sameAsPrev : Bool) (st : Running) (row : List Value) :
    Except AggregateError Running :=
  match w.function with
  | .rowNumber => .ok st
  | .rank =>
    let next := st.rankCounter+(st.sameRankCount+1)
    .ok (if sameAsPrev then {st with sameRankCount := st.sameRankCount+1}
      else {st with rankCounter := if next = 0 then 1 else next,sameRankCount := 0})
  | .denseRank =>
    .ok (if sameAsPrev then st else {st with denseRankCounter := st.denseRankCounter+1})
  | .agg f => pushAgg P F f w K st row

/-- The value of the current row. The sum of a whole partition is taken when the
partition ends. -/
def emitRow (w : WindowDef τ) (offset : ℕ) (st : Running) : Except AggregateError Value :=
  match w.function with
  | .rowNumber => .ok (.int (Int64.ofNat (offset+1)))
  | .rank => .ok (.int (Int64.ofNat st.rankCounter))
  | .denseRank => .ok (.int (Int64.ofNat st.denseRankCounter))
  | .agg f => if wholePartitionFrame w && f = .sum then .ok .empty else emitAgg F f st

def wholePartitionFinalValue (w : WindowDef τ) (st : Running) (lastRunningValue : Value) :
    Except AggregateError Value :=
  if w.function = .agg .sum then st.total.sum F .sum else .ok lastRunningValue

/-- Write the value of a finished partition to each of its rows. -/
def closePartition (w : WindowDef τ) (l : WindowLoop) : Except AggregateError WindowLoop :=
  match l.prev with
  | none => .ok l
  | some last =>
    if wholePartitionFrame w then do
      let v ← wholePartitionFinalValue F w l.running (l.winValues last.2)
      .ok {l with
        winValues := l.partitionRows.foldl (fun win i => Function.update win i v) l.winValues
        partitionRows := [] }
    else .ok l

def newPartition (K : WindowKeys) (l : WindowLoop) (r : Numbered) : Bool :=
  match l.prev with
  | none => true
  | some p => K.part r.1 != K.part p.1

def enterPartition (w : WindowDef τ) (K : WindowKeys) (l : WindowLoop) (r : Numbered) :
    Except AggregateError WindowLoop :=
  if newPartition K l r then do
    let l ← closePartition F w l
    .ok {l with partitionStart := l.sortedPos,running := .init,prevOrderKey := none}
  else .ok l

def visitRow (w : WindowDef τ) (K : WindowKeys) (l : WindowLoop) (r : Numbered) :
    Except AggregateError WindowLoop := do
  let running ← pushRow P F w K (l.prevOrderKey == some (K.order r.1)) l.running r.1
  let v ← emitRow F w (l.sortedPos-l.partitionStart) running
  .ok {
    prev := some r
    sortedPos := l.sortedPos+1
    partitionStart := l.partitionStart
    prevOrderKey := some (K.order r.1)
    running := running
    winValues := Function.update l.winValues r.2 v
    partitionRows := if wholePartitionFrame w then l.partitionRows++[r.2] else l.partitionRows }

def windowStep (w : WindowDef τ) (K : WindowKeys) (l : WindowLoop) (r : Numbered) :
    Except AggregateError WindowLoop := do
  let l ← enterPartition F w K l r
  visitRow P F w K l r

/-- The rows of a run that is sorted at once. -/
def cancellableSortRun : ℕ := 2048

def sortRows (w : WindowDef τ) (K : WindowKeys) (rows : List (List Value)) : List Numbered :=
  stableSort (rowCmp P w K) cancellableSortRun rows.zipIdx

/-- Append the value of its position to every row. -/
def appendColumn (rel : Relation) (name : String) (values : ℕ → Value) : Relation where
  columns := rel.columns++[⟨none,name⟩]
  rows := rel.rows.zipIdx.map (fun r => r.1++[values r.2])
  width := by
    intro row hrow
    obtain ⟨r,hr,rfl⟩ := List.mem_map.mp hrow
    have hmem : r.1 ∈ rel.rows := List.fst_mem_of_mem_zipIdx hr
    simp [rel.width r.1 hmem]

def executeWindowDef (rel : Relation) (w : WindowDef τ) : Except AggregateError Relation := do
  let K ← windowKeys P rel.columns w
  let l ← (sortRows P w K rel.rows).foldlM (windowStep P F w K) .init
  let l ← closePartition F w l
  .ok (appendColumn rel w.outputName l.winValues)

def executeWindow (rel : Relation) (windows : List (WindowDef τ)) : Except AggregateError Relation :=
  windows.foldlM (executeWindowDef P F) rel

end Execute
end PowDB.Query
