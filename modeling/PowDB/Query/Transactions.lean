import PowDB.Lib.RedoLog

/-! The statement boundary of the engine over a catalog that logs what it does.
The tables with their rows and indexes are one value of an arbitrary type, changed by
operations that may refuse. A log entry that the files already hold is not applied
twice. -/
namespace PowDB.Transactions
open Lib (LogEntry)

/-- The tables and what can be done to them. Schema changes are refused inside a
transaction. -/
structure Storage (τ op : Type) where
  apply : τ → op → Option τ
  isDdl : op → Bool

structure Catalog (τ op : Type) where
  /-- The tables as statements see them. -/
  live : τ
  /-- The tables as the heap and index files hold them, and how much of the log is in them. -/
  files : τ
  flushed : ℕ
  log : List (LogEntry op)
  nextTxId : ℕ
  activeTx : Option ℕ
  txStartLen : ℕ
  pendingAutocommit : List ℕ
  /-- The before-image kept in place of the log when it is off. -/
  memento : Option τ
  walOff : Bool

namespace Catalog
variable {τ op : Type} (S : Storage τ op)

def append (c : Catalog τ op) (e : LogEntry op) : Catalog τ op :=
  if c.walOff then c else {c with log := c.log++[e]}

/-- The row goes under the open transaction, or under one of its own that the end of
the statement commits. -/
def logRow (c : Catalog τ op) (o : op) : Catalog τ op :=
  match c.activeTx with
  | some tx => c.append (.row tx o)
  | none => {c.append (.row c.nextTxId o) with
      nextTxId := c.nextTxId+1
      pendingAutocommit := c.pendingAutocommit++[c.nextTxId]}

def applyOp (c : Catalog τ op) (o : op) : Option (Catalog τ op) :=
  if S.isDdl o && c.activeTx.isSome then none
  else
    match S.apply c.live o with
    | none => none
    | some t => some (if S.isDdl o then {c with live := t}.append (.schema o) else {c with live := t}.logRow o)

/-- Apply operations up to the first that is refused. -/
def applyOps (c : Catalog τ op) : List op → Bool × Catalog τ op
  | [] => (true,c)
  | o::os =>
    match c.applyOp S o with
    | none => (false,c)
    | some c => applyOps c os

def flushCheckpointState (c : Catalog τ op) : Catalog τ op :=
  {c with files := c.live, flushed := c.log.length}

def checkpoint (c : Catalog τ op) : Catalog τ op := {c.flushCheckpointState with log := [], flushed := 0}

def beginTransaction (c : Catalog τ op) : Catalog τ op :=
  {c with
    nextTxId := c.nextTxId+1
    activeTx := some c.nextTxId
    txStartLen := c.log.length
    pendingAutocommit := []
    memento := if c.walOff then some c.live else none}.append (.begin c.nextTxId)

/-- Under memory pressure the pages of earlier statements are written first. -/
def beginStatementTransaction (c : Catalog τ op) (pressure : Bool) : Catalog τ op :=
  (if pressure then c.flushCheckpointState else c).beginTransaction

def commitTransaction (c : Catalog τ op) : Catalog τ op :=
  let d := match c.activeTx with
    | none => c
    | some tx => {c with activeTx := none}.append (.commit tx)
  {d with memento := none}

def appendCommits (c : Catalog τ op) : List ℕ → Catalog τ op
  | [] => c
  | tx::txs => (c.append (.commit tx)).appendCommits txs

/-- Commit the rows logged outside a transaction; a large log is checkpointed. -/
def commitAutocommit (c : Catalog τ op) (large : Bool) : Catalog τ op :=
  let c := {c.appendCommits c.pendingAutocommit with pendingAutocommit := []}
  if large then c.checkpoint else c

/-- Cut the log back to where the transaction began, open the files again and replay
what is left, then empty the log. With the log off the before-image is put back. -/
def rollbackToLastSync (c : Catalog τ op) : Option (Catalog τ op) :=
  if c.walOff then
    some {c with
      live := c.memento.getD c.live
      memento := none
      activeTx := none
      pendingAutocommit := []}
  else
    let log := c.log.take c.txStartLen
    match Lib.applyAll S.apply c.files ((log.drop c.flushed).filterMap (LogEntry.replayed log)) with
    | none => none
    | some t => some {c with
        live := t
        files := t
        flushed := 0
        log := []
        nextTxId := 1
        activeTx := none
        pendingAutocommit := []}

end Catalog

/-- A statement: what it does to the tables, and whether it raises an error after
that. Row mutations run in a transaction of their own when none is open; schema
changes, view statements and reads, which may refresh views, do not. -/
inductive Statement (op : Type)
  | begin
  | commit
  | rollback
  | mutation (body : List op) (raises : Bool)
  | plain (body : List op) (raises : Bool)

def Statement.isRollback {op : Type} : Statement op → Bool
  | rollback => true
  | _ => false

/-- Where the file system fails a statement, and when pages and log are written. A
failure that leaves the catalog in doubt is told apart by its flag. -/
structure Faults where
  beginning : Option Bool
  committing : Bool
  completing : Bool
  rollingBack : Option Bool
  restoringViews : Bool
  pressure : Bool
  largeLog : Bool

structure Engine (τ op : Type) where
  catalog : Catalog τ op
  inTransaction : Bool
  implicitTransaction : Bool
  transactionAborted : Bool
  poisoned : Bool

namespace Engine
variable {τ op : Type} (S : Storage τ op)

def poisonLiveState (e : Engine τ op) : Engine τ op := {e with poisoned := true}

def markTransactionAborted (e : Engine τ op) : Engine τ op :=
  {e with transactionAborted := e.transactionAborted || (e.inTransaction && !e.implicitTransaction)}

/-- Open a transaction, unless the file system fails it. -/
def openTransaction (f : Faults) (e : Engine τ op) (c : Catalog τ op) (implicit : Bool) :
    Bool × Engine τ op :=
  match f.beginning with
  | some true => (false,e.poisonLiveState)
  | some false => (false,e)
  | none => (true,{e with catalog := c, inTransaction := true, implicitTransaction := implicit})

def beginMutationStatement (f : Faults) (e : Engine τ op) : Bool × Engine τ op :=
  if e.inTransaction then (true,e)
  else e.openTransaction f (e.catalog.beginStatementTransaction f.pressure) true

def applyBody (e : Engine τ op) (body : List op) (raises : Bool) : Bool × Engine τ op :=
  ((e.catalog.applyOps S body).1 && !raises,{e with catalog := (e.catalog.applyOps S body).2})

def commitCatalog (f : Faults) (e : Engine τ op) : Bool × Engine τ op :=
  if f.committing then (false,e.poisonLiveState)
  else (true,{e with catalog := e.catalog.commitTransaction, inTransaction := false})

def rollbackTransaction (f : Faults) (e : Engine τ op) : Bool × Engine τ op :=
  match f.rollingBack with
  | some true => (false,e.poisonLiveState)
  | some false => (false,e.markTransactionAborted)
  | none =>
    match e.catalog.rollbackToLastSync S with
    | none => (false,e.poisonLiveState)
    | some c =>
      if f.restoringViews then (false,{e with catalog := c}.poisonLiveState)
      else (true,{e with catalog := c, inTransaction := false, transactionAborted := false})

def dispatch (f : Faults) (e : Engine τ op) : Statement op → Bool × Engine τ op
  | .begin =>
    if e.inTransaction then (false,e)
    else e.openTransaction f e.catalog.beginTransaction false
  | .commit => if e.inTransaction then e.commitCatalog f else (false,e)
  | .rollback => if e.inTransaction then e.rollbackTransaction S f else (false,e)
  | .mutation body raises =>
    match e.beginMutationStatement f with
    | (false,e) => (false,e)
    | (true,e) => e.applyBody S body raises
  | .plain body raises => e.applyBody S body raises

/-- Nothing to settle inside a transaction; otherwise the rows logged outside one. -/
def commitStatement (f : Faults) (e : Engine τ op) : Bool × Engine τ op :=
  if e.inTransaction then (true,e)
  else if f.completing then (false,e.poisonLiveState)
  else (true,{e with catalog := e.catalog.commitAutocommit f.largeLog})

def runStatement (f : Faults) (e : Engine τ op) (s : Statement op) : Bool × Engine τ op :=
  if e.poisoned then (false,e)
  else if e.transactionAborted && !s.isRollback then (false,e.markTransactionAborted)
  else
    let (ok,e) := e.dispatch S f s
    if e.implicitTransaction then
      let e := {e with implicitTransaction := false}
      if ok then
        match e.commitCatalog f with
        | (false,e) => (false,e)
        | (true,e) => e.commitStatement f
      else
        match e.rollbackTransaction S f with
        | (false,e) => (false,e.poisonLiveState)
        | (true,e) => (false,e)
    else if ok then e.commitStatement f
    else (false,e.markTransactionAborted)

/-- An engine over tables that are on disk, with an empty log. -/
def opened (t : τ) (walOff : Bool) : Engine τ op where
  catalog := ⟨t,t,0,[],1,none,0,[],none,walOff⟩
  inTransaction := false
  implicitTransaction := false
  transactionAborted := false
  poisoned := false

def run (e : Engine τ op) (ss : List (Faults × Statement op)) : Engine τ op :=
  ss.foldl (fun e x => (e.runStatement S x.1 x.2).2) e

end Engine
end PowDB.Transactions
