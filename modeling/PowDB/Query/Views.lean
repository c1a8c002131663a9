import Mathlib.Data.Multiset.Basic
import Mathlib.Logic.Function.Basic
import PowDB.Lib.Worklist

/-! Materialized views: a registry of source queries with dirty flags, held in
memory and in `views.bin`, beside the tables that store the views' rows. Rows of a
table are a multiset. The storage layer is taken at its word: a rolled back
transaction leaves the tables as they were at its start. -/
namespace PowDB.Views

/-- A view's source, or any other query: the tables its plan scans, those its nested
blocks and subqueries read, those its scalar link paths pass through, and what it
computes from them. A missing table is an error. -/
structure SourceQuery (σ ρ : Type) where
  scans : List String
  nested : List String
  hops : List String
  eval : (String → Option (σ × Multiset ρ)) → Option (Multiset ρ)
  eval_congr : ∀ {env env'}, (∀ t ∈ scans++nested++hops, env t = env' t) → eval env = eval env'
  needs : ∀ {env rows}, eval env = some rows → ∀ t ∈ scans++nested++hops, (env t).isSome = true

/-- Every table the query names: what `collect_query_deps` finds in its text. -/
def SourceQuery.reads {σ ρ : Type} (q : SourceQuery σ ρ) : List String := q.scans++q.nested++q.hops

/-- A table: its columns, its rows, and whether it has an index or a link names it. -/
structure Stored (σ ρ : Type) where
  schema : σ
  rows : Multiset ρ
  indexed : Bool
  linked : Bool

/-- What views ask of the storage layer: typing rows, checking rows against columns,
and emptying a table and inserting rows into it, which stops at a row an index refuses. -/
structure ViewStorage (σ ρ : Type) where
  derive : Multiset ρ → Option σ
  fits : σ → Multiset ρ → Bool
  fits_zero : ∀ s, fits s 0 = true
  refill : Stored σ ρ → Multiset ρ → Multiset ρ × Bool
  refill_ok : ∀ s rows, (refill s rows).2 = true → (refill s rows).1 = rows
  refill_same : ∀ s, (refill s s.rows).2 = true

structure ViewDef (σ ρ : Type) where
  name : String
  query : SourceQuery σ ρ
  dirty : Bool

/-- The registry of views. The index from a table to the views over it is computed. -/
abbrev Registry (σ ρ : Type) := List (ViewDef σ ρ)

namespace Registry
variable {σ ρ : Type}

def get (reg : Registry σ ρ) (v : String) : Option (ViewDef σ ρ) := reg.find? (·.name = v)

def isView (reg : Registry σ ρ) (v : String) : Bool := reg.any (·.name = v)

def isDirty (reg : Registry σ ρ) (v : String) : Bool := reg.any (fun d => d.name = v && d.dirty)

def isClean (reg : Registry σ ρ) (v : String) : Bool := reg.any (fun d => d.name = v && !d.dirty)

def names (reg : Registry σ ρ) : List String := reg.map (·.name)

def cleanNames (reg : Registry σ ρ) : List String := (reg.filter (fun d => !d.dirty)).map (·.name)

/-- The views over a table. -/
def deps (reg : Registry σ ρ) (t : String) : List String :=
  (reg.filter (fun d => decide (t ∈ d.query.reads))).map (·.name)

def setDirty (reg : Registry σ ρ) (v : String) (b : Bool) : Registry σ ρ :=
  reg.map (fun d => if d.name = v then {d with dirty := b} else d)

/-- Mark every view over a table, directly or through other views. The walk goes on
from the views it marks only. `none` when no view over the table is clean: then the
file is not written. -/
def markDependentsDirty (reg : Registry σ ρ) (t : String) : Option (Registry σ ρ) :=
  if (reg.deps t).any (fun v => decide (v ∈ reg.cleanNames)) then
    some (reg.map (fun d =>
      if d.name ∈ Lib.spread reg.deps (reg.length+1) [t] reg.cleanNames then d else {d with dirty := true}))
  else none

/-- Every view that depends on a table, directly or through another view. -/
def dependentsOf (reg : Registry σ ρ) (t : String) : List String :=
  reg.names.filter (fun v => decide (v ∉ Lib.spread reg.deps (reg.length+1) [t] reg.names))

end Registry

structure Engine (σ ρ : Type) where
  tables : String → Option (Stored σ ρ)
  views : Registry σ ρ
  /-- The file `views.bin`. -/
  viewsFile : Registry σ ρ
  /-- The tables at the start of the open transaction. -/
  snapshot : String → Option (Stored σ ρ)
  inTransaction : Bool
  implicitTransaction : Bool
  transactionAborted : Bool
  poisoned : Bool

namespace Engine
variable {σ ρ : Type} (ops : ViewStorage σ ρ)

def fresh : Engine σ ρ where
  tables := fun _ => none
  views := []
  viewsFile := []
  snapshot := fun _ => none
  inTransaction := false
  implicitTransaction := false
  transactionAborted := false
  poisoned := false

/-- What a query sees of the tables. -/
def seenOf (tables : String → Option (Stored σ ρ)) (t : String) : Option (σ × Multiset ρ) :=
  (tables t).map (fun s => (s.schema,s.rows))

def seen (e : Engine σ ρ) : String → Option (σ × Multiset ρ) := seenOf e.tables

def setTable (e : Engine σ ρ) (t : String) (s : Option (Stored σ ρ)) : Engine σ ρ :=
  {e with tables := Function.update e.tables t s}

/-- Write the registry to its file, every view with the flag it has in memory. -/
def persist (e : Engine σ ρ) : Engine σ ρ := {e with viewsFile := e.views}

def markCleanInMemory (e : Engine σ ρ) (v : String) : Engine σ ρ :=
  {e with views := e.views.setDirty v false}

def markClean (e : Engine σ ρ) (v : String) : Engine σ ρ :=
  if e.views.isDirty v then (e.markCleanInMemory v).persist else e

def markDependentsDirty (e : Engine σ ρ) (t : String) : Engine σ ρ :=
  match e.views.markDependentsDirty t with
  | none => e
  | some views => {e with views := views}.persist

/-- Refresh the listed views in turn; unless forced, only those that are dirty. -/
def refreshAll (refresh : Engine σ ρ → String → Bool × Engine σ ρ) (force : Bool) :
    Engine σ ρ → List String → Bool × Engine σ ρ
  | e, [] => (true,e)
  | e, v::vs =>
    if force || e.views.isDirty v then
      match refresh e v with
      | (false,e) => (false,e)
      | (true,e) => refreshAll refresh force e vs
    else refreshAll refresh force e vs

/-- The dirty views a plan scans are listed first and refreshed one by one; those of
its nested blocks and subqueries when they are reached. Link paths refresh nothing. -/
def refreshRead (refresh : Engine σ ρ → String → Bool × Engine σ ρ) (e : Engine σ ρ)
    (q : SourceQuery σ ρ) : Bool × Engine σ ρ :=
  match refreshAll refresh true e ((q.scans.filter e.views.isDirty).dedup) with
  | (false,e) => (false,e)
  | (true,e) => refreshAll refresh false e q.nested

/-- Replace a view's rows. A table without indexes and links is built anew, and takes
new columns when it held no row for the old ones to describe. -/
def storeView (e : Engine σ ρ) (v : String) (backing : Stored σ ρ) (rows : Multiset ρ) :
    Bool × Engine σ ρ :=
  let rebuildable := !e.inTransaction && !backing.linked && !backing.indexed
  let mismatch := !ops.fits backing.schema rows
  if mismatch && (decide (0 < backing.rows.card) || !rebuildable) then (false,e)
  else
    match if mismatch then ops.derive rows else some backing.schema with
    | none => (false,e)
    | some schema =>
      let target := {backing with schema := schema}
      let e := e.setTable v (some {target with rows := (ops.refill target rows).1})
      if !(ops.refill target rows).2 then (false,e)
      else (true,if e.inTransaction then e.markCleanInMemory v else e.markClean v)

/-- The fuel bounds how deep a chain of views over views may go. -/
def refreshView : ℕ → Engine σ ρ → String → Bool × Engine σ ρ
  | 0, e, _ => (false,e)
  | n+1, e, v =>
    match e.views.get v with
    | none => (false,e)
    | some d =>
      match refreshRead (refreshView n) e d.query with
      | (false,e) => (false,e)
      | (true,e) =>
        match d.query.eval e.seen, e.tables v with
        | some rows, some backing => e.storeView ops v backing rows
        | _, _ => (false,e)

/-- Run a query: refresh, then read. -/
def runQuery (e : Engine σ ρ) (q : SourceQuery σ ρ) : Option (Multiset ρ) × Engine σ ρ :=
  match refreshRead (refreshView ops (e.views.length+1)) e q with
  | (false,e) => (none,e)
  | (true,e) => (q.eval e.seen,e)

def commitTransaction (e : Engine σ ρ) : Engine σ ρ :=
  {e with inTransaction := false, transactionAborted := false}

/-- The tables put back, the registry file read again. -/
def restored (e : Engine σ ρ) : Engine σ ρ :=
  {e with
    tables := e.snapshot
    views := e.viewsFile
    inTransaction := false
    transactionAborted := false}

/-- A view without its table makes the engine unusable. -/
def rollbackTransaction (e : Engine σ ρ) : Bool × Engine σ ρ :=
  if e.viewsFile.all (fun d => (e.snapshot d.name).isSome) then (true,e.restored)
  else (false,{e with tables := e.snapshot, poisoned := true})

end Engine

/-- A statement. A mutation names its table, the tables it reads, and the rows it
leaves there, with whether it succeeds. -/
inductive Statement (σ ρ : Type)
  | read (q : SourceQuery σ ρ)
  | mutate (t : String) (q : SourceQuery σ ρ)
      (apply : (String → Option (σ × Multiset ρ)) → Multiset ρ × Bool)
  | createTable (t : String) (schema : σ)
  | dropTable (t : String)
  | alter (t : String) (f : Stored σ ρ → Option (Stored σ ρ))
  | createView (v : String) (q : SourceQuery σ ρ)
  | refresh (v : String)
  | dropView (v : String)
  | begin
  | commit
  | rollback

def Statement.isRollback {σ ρ : Type} : Statement σ ρ → Bool
  | rollback => true
  | _ => false

namespace Engine
variable {σ ρ : Type} (ops : ViewStorage σ ρ)

/-- A mutation outside a transaction opens one of its own. -/
def beginMutation (e : Engine σ ρ) : Engine σ ρ :=
  if e.inTransaction then e
  else {e with snapshot := e.tables, inTransaction := true, implicitTransaction := true}

/-- The dependents are marked before any row changes. -/
def mutate (e : Engine σ ρ) (t : String) (q : SourceQuery σ ρ)
    (apply : (String → Option (σ × Multiset ρ)) → Multiset ρ × Bool) :
    Option (Multiset ρ) × Engine σ ρ :=
  match e.tables t with
  | none => (none,e)
  | some s =>
    match refreshRead (refreshView ops (e.views.length+1)) (e.beginMutation.markDependentsDirty t) q with
    | (false,e) => (none,e)
    | (true,e) =>
      (if (apply e.seen).2 then some 0 else none,
        e.setTable t (some {s with rows := (apply e.seen).1}))

def createView (e : Engine σ ρ) (v : String) (q : SourceQuery σ ρ) :
    Option (Multiset ρ) × Engine σ ρ :=
  if e.views.isView v then (none,e)
  else
    match e.runQuery ops q with
    | (none,e) => (none,e)
    | (some rows,e) =>
      match ops.derive rows with
      | none => (none,e)
      | some schema =>
        if e.inTransaction || (e.tables v).isSome then (none,e)
        else
          let target : Stored σ ρ := ⟨schema,0,false,false⟩
          let e := e.setTable v (some {target with rows := (ops.refill target rows).1})
          if !(ops.refill target rows).2 then (none,e)
          else (some 0,{e with views := e.views++[(⟨v,q,false⟩ : ViewDef σ ρ)]}.persist)

/-- The backing table goes first, then the registration. -/
def dropView (e : Engine σ ρ) (v : String) : Option (Multiset ρ) × Engine σ ρ :=
  match e.tables v with
  | none => (none,e)
  | some s =>
    if !e.views.isView v || e.inTransaction || s.linked then (none,e)
    else (some 0,{e.setTable v none with views := e.views.filter (·.name ≠ v)}.persist)

def dropTable (e : Engine σ ρ) (t : String) : Option (Multiset ρ) × Engine σ ρ :=
  match e.tables t with
  | none => (none,e)
  | some s =>
    if e.views.isView t || e.inTransaction || s.linked then (none,e)
    else (some 0,(e.setTable t none).markDependentsDirty t)

/-- Schema changes are refused inside a transaction, and mark no view. -/
def alter (e : Engine σ ρ) (t : String) (f : Stored σ ρ → Option (Stored σ ρ)) :
    Option (Multiset ρ) × Engine σ ρ :=
  if e.inTransaction then (none,e)
  else
    match (e.tables t).bind f with
    | none => (none,e)
    | some s => (some 0,e.setTable t (some s))

/-- The result of a statement that returns no rows. -/
def unit (x : Bool × Engine σ ρ) : Option (Multiset ρ) × Engine σ ρ :=
  (if x.1 then some 0 else none,x.2)

def dispatch (e : Engine σ ρ) : Statement σ ρ → Option (Multiset ρ) × Engine σ ρ
  | .read q => e.runQuery ops q
  | .mutate t q apply => e.mutate ops t q apply
  | .createTable t schema =>
    if e.inTransaction || (e.tables t).isSome then (none,e)
    else (some 0,e.setTable t (some ⟨schema,0,false,false⟩))
  | .dropTable t => e.dropTable t
  | .alter t f => e.alter t f
  | .createView v q => e.createView ops v q
  | .refresh v => unit (e.refreshView ops (e.views.length+1) v)
  | .dropView v => e.dropView v
  | .begin =>
    if e.inTransaction then (none,e) else (some 0,{e with snapshot := e.tables, inTransaction := true})
  | .commit => if !e.inTransaction then (none,e) else (some 0,e.commitTransaction)
  | .rollback => if !e.inTransaction then (none,e) else unit e.rollbackTransaction

/-- The statement boundary: a transaction the statement opened for itself is
committed or rolled back, and a failure inside an explicit one aborts it. -/
def runStatement (e : Engine σ ρ) (s : Statement σ ρ) : Option (Multiset ρ) × Engine σ ρ :=
  if e.poisoned then (none,e)
  else if e.transactionAborted && !s.isRollback then (none,e)
  else
    let (result,e) := e.dispatch ops s
    if e.implicitTransaction then
      let e := {e with implicitTransaction := false}
      match result with
      | some rows => (some rows,e.commitTransaction)
      | none => (none,e.rollbackTransaction.2)
    else
      match result with
      | some rows => (some rows,e)
      | none => (none,{e with transactionAborted := e.transactionAborted || e.inTransaction})

/-- Close and open again: an open transaction is lost, and the registry is read from its file. -/
def reopen (e : Engine σ ρ) : Engine σ ρ :=
  let tables := if e.inTransaction then e.snapshot else e.tables
  {fresh with
    tables := tables
    views := e.viewsFile
    viewsFile := e.viewsFile
    poisoned := !e.viewsFile.all (fun d => (tables d.name).isSome)}

end Engine

/-- A statement, or a close and reopen. -/
inductive Step (σ ρ : Type)
  | statement (s : Statement σ ρ)
  | reopen

namespace Engine
variable {σ ρ : Type} (ops : ViewStorage σ ρ)

def step (e : Engine σ ρ) : Step σ ρ → Engine σ ρ
  | .statement s => (e.runStatement ops s).2
  | .reopen => e.reopen

def run (e : Engine σ ρ) (ss : List (Step σ ρ)) : Engine σ ρ := ss.foldl (step ops) e

end Engine
end PowDB.Views
