import PowDB.Lib.AssocList
import PowDB.Storage.IndexFiles

/-! Column changes with every way they can fail. A change appends its log record before its
last checks and changes the schema before it rewrites the rows; replay makes the change a
record names without the check of the statement. -/
namespace PowDB.Storage
open List Option

/-- A stored row: the schema it was encoded under, and its values. -/
structure StoredRow where
  schema : Schema
  values : List Value
  deriving DecidableEq

structure AlteredTable where
  schema : Schema
  rows : List (RowId × StoredRow)
  indexes : List Index
  deriving DecidableEq

inductive AlterError
  | activeTransaction
  | tableNotFound
  | columnExists
  | columnNotFound
  | pinnedByLink
  | requiredOverRows
  | rowTooLarge
  | indexRootGone
  | uniqueViolation
  deriving DecidableEq

/-- What a log holds; records of other kinds are not looked into. -/
inductive AlterRecord (ρ : Type)
  | addColumn (t : String) (col : ColumnDef)
  | dropColumn (t name : String)
  | other (r : ρ)

structure AlterState (ρ : Type) where
  tables : List (String × AlteredTable)
  /-- What recovery starts from. -/
  disk : List (String × AlteredTable)
  log : List (AlterRecord ρ)
  walOn : Bool
  activeTx : Bool
  /-- Columns a link names, with their tables. -/
  pinned : List (String × String)

inductive AlterCall
  | addColumn (t : String) (col : ColumnDef)
  | dropColumn (t name : String)

section Rewrite
/- The value a path selects in a document. -/
variable (pathKey : String → Value → Value)
/- Whether a row has room on a page, its large values moved out. -/
variable (fits : Schema → List Value → Bool)
/- Where the heap puts the rows it rewrites. -/
variable (place : Schema → List (RowId × StoredRow) → List RowId)

/-- Rewrite the rows in order; the first that has no room stops it. -/
def rewriteRows (schema : Schema) : List RowId → List (RowId × StoredRow) → Bool × List (RowId × StoredRow)
  | rid'::rids,(rid,row)::rest =>
    let values := Table.reshape inlineCodec row.schema schema row.values
    if fits schema values then
      ((rewriteRows schema rids rest).1,(rid',⟨schema,values⟩)::(rewriteRows schema rids rest).2)
    else (false,(rid,row)::rest)
  | _,rest => (true,rest)

/-- The JSON-path indexes find their columns again; one that cannot stops it. -/
def relocatePaths (schema : Schema) : List Index → Bool × List Index
  | [] => (true,[])
  | ix::rest =>
    match columnIndex schema ix.source.root with
    | none => (false,ix::rest)
    | some colIdx => ((relocatePaths schema rest).1,{ix with colIdx := colIdx}::(relocatePaths schema rest).2)

/-- They are built anew one after the other; a key twice in a unique one stops it. -/
def rebuildPaths (schema : Schema) (rows : List (RowId × List Value)) : List Index → Bool × List Index
  | [] => (true,[])
  | ix::rest =>
    match Store.rebuildIndex pathKey schema rows true ix with
    | none => (false,ix::rest)
    | some ix' => ((rebuildPaths schema rows rest).1,ix'::(rebuildPaths schema rows rest).2)

/-- The column indexes that still have their column, built anew. -/
def rebuildColumns (schema : Schema) (rows : List (RowId × List Value)) (indexes : List Index) : List Index :=
  indexes.filterMap (Store.rebuildIndex pathKey schema rows false)

/-- Rewrite a table whose schema has changed; also on an error, with what it has become. -/
def rewriteRowsForSchemaChange (tbl : AlteredTable) : Except AlterError Unit × AlteredTable :=
  let rows := rewriteRows fits tbl.schema (place tbl.schema tbl.rows) tbl.rows
  if !rows.1 then (.error .rowTooLarge,{tbl with rows := rows.2})
  else
    let values := rows.2.map fun x => (x.1,x.2.values)
    let columns := rebuildColumns pathKey tbl.schema values (tbl.indexes.filter (·.source.isColumn))
    let moved := relocatePaths tbl.schema (tbl.indexes.filter (!·.source.isColumn))
    if !moved.1 then (.error .indexRootGone,{tbl with rows := rows.2,indexes := columns++moved.2})
    else
      let paths := rebuildPaths pathKey tbl.schema values moved.2
      if !paths.1 then (.error .uniqueViolation,{tbl with rows := rows.2,indexes := columns++paths.2})
      else (.ok (),{tbl with rows := rows.2,indexes := columns++paths.2})

/-- A table without rows is not rewritten. -/
def rewriteIfRows (tbl : AlteredTable) : Except AlterError Unit × AlteredTable :=
  if tbl.rows.isEmpty then (.ok (),tbl) else rewriteRowsForSchemaChange pathKey fits place tbl

def AlteredTable.pushColumn (tbl : AlteredTable) (col : ColumnDef) : AlteredTable :=
  {tbl with schema := tbl.schema++[col]}

def AlteredTable.removeColumn (tbl : AlteredTable) (name : String) : AlteredTable :=
  {tbl with schema := tbl.schema.eraseP (·.name = name)}

def AlteredTable.hasColumn (tbl : AlteredTable) (name : String) : Bool := tbl.schema.any (·.name = name)

namespace AlterState
variable {ρ : Type}

def logRecord (s : AlterState ρ) (r : AlterRecord ρ) : AlterState ρ :=
  if s.walOn then {s with log := s.log++[r]} else s

/-- The end of a change: the table as it has become, and on disk if the change went through. -/
def finish (s : AlterState ρ) (t : String) (r : Except AlterError Unit × AlteredTable) :
    Except AlterError Unit × AlterState ρ :=
  match r.1 with
  | .ok () => (.ok (),{s with tables := Lib.replaceKey s.tables t r.2,disk := Lib.replaceKey s.disk t r.2})
  | .error e => (.error e,{s with tables := Lib.replaceKey s.tables t r.2})

/-- The record is in the log before the rows are looked at. -/
def alterTableAddColumn (s : AlterState ρ) (t : String) (col : ColumnDef) : Except AlterError Unit × AlterState ρ :=
  if s.activeTx then (.error .activeTransaction,s)
  else
    match s.tables.lookup t with
    | none => (.error .tableNotFound,s)
    | some tbl =>
      if tbl.hasColumn col.name then (.error .columnExists,s)
      else
        let s := s.logRecord (.addColumn t col)
        if !tbl.rows.isEmpty && col.required then (.error .requiredOverRows,s)
        else s.finish t (rewriteIfRows pathKey fits place (tbl.pushColumn col))

def alterTableDropColumn (s : AlterState ρ) (t name : String) : Except AlterError Unit × AlterState ρ :=
  if s.activeTx then (.error .activeTransaction,s)
  else
    match s.tables.lookup t with
    | none => (.error .tableNotFound,s)
    | some tbl =>
      if !tbl.hasColumn name then (.error .columnNotFound,s)
      else if (t,name) ∈ s.pinned then (.error .pinnedByLink,s)
      else
        let kept := {tbl with indexes := tbl.indexes.filter (·.source.root ≠ name)}
        (s.logRecord (.dropColumn t name)).finish t (rewriteIfRows pathKey fits place (kept.removeColumn name))

def alter (s : AlterState ρ) : AlterCall → Except AlterError Unit × AlterState ρ
  | .addColumn t col => s.alterTableAddColumn pathKey fits place t col
  | .dropColumn t name => s.alterTableDropColumn pathKey fits place t name

/-! ### Recovery -/
section Recovery
/- The replay of the records of other kinds. -/
variable (replayOther : ρ → List (String × AlteredTable) → Option (List (String × AlteredTable)))

/-- The result of a rewrite during replay, whose failure fails the recovery. -/
def replayRewrite (tables : List (String × AlteredTable)) (t : String) (r : Except AlterError Unit × AlteredTable) :
    Option (List (String × AlteredTable)) :=
  match r.1 with
  | .ok () => some (Lib.replaceKey tables t r.2)
  | .error _ => none

/-- The JSON-path indexes of a dropped column go after the rewrite, its column index with it. -/
def replayRecord (tables : List (String × AlteredTable)) : AlterRecord ρ → Option (List (String × AlteredTable))
  | .addColumn t col =>
    match tables.lookup t with
    | none => some tables
    | some tbl =>
      if tbl.hasColumn col.name then some tables
      else replayRewrite tables t (rewriteIfRows pathKey fits place (tbl.pushColumn col))
  | .dropColumn t name =>
    match tables.lookup t with
    | none => some tables
    | some tbl =>
      let r := if tbl.hasColumn name then rewriteIfRows pathKey fits place (tbl.removeColumn name) else (.ok (),tbl)
      replayRewrite tables t
        (r.1,{r.2 with indexes := r.2.indexes.filter fun ix => ix.source.isColumn || ix.source.root ≠ name})
  | .other r => replayOther r tables

def recover (disk : List (String × AlteredTable)) (log : List (AlterRecord ρ)) : Option (List (String × AlteredTable)) :=
  log.foldlM (replayRecord pathKey fits place replayOther) disk

/-- Nothing is changed now, nor after any crash, whatever the log gets later. -/
def NoTrace (s s' : AlterState ρ) : Prop :=
  s'.tables = s.tables ∧ ∀ later, recover pathKey fits place replayOther s'.disk (s'.log++later) =
    recover pathKey fits place replayOther s.disk (s.log++later)

end Recovery

/-- A call that one of its first checks refuses. -/
def RefusedEarly (s : AlterState ρ) : AlterCall → Prop
  | .addColumn t col => s.activeTx = true ∨
      match s.tables.lookup t with
      | none => True
      | some tbl => tbl.hasColumn col.name = true
  | .dropColumn t name => s.activeTx = true ∨
      match s.tables.lookup t with
      | none => True
      | some tbl => tbl.hasColumn name = false ∨ (t,name) ∈ s.pinned

/-- A required column for a table that has rows. -/
def RequiredOverRows (s : AlterState ρ) : AlterCall → Prop
  | .addColumn t col => col.required = true ∧ ∃ tbl, s.tables.lookup t = some tbl ∧ tbl.rows ≠ []
  | .dropColumn _ _ => False

end AlterState
end Rewrite

/-! ### What an error leaves behind -/
section Proofs
variable {pathKey : String → Value → Value} {fits : Schema → List Value → Bool}
  {place : Schema → List (RowId × StoredRow) → List RowId}

lemma rewriteIfRows_schema (tbl : AlteredTable) : (rewriteIfRows pathKey fits place tbl).2.schema = tbl.schema := by
  simp only [rewriteIfRows,rewriteRowsForSchemaChange]
  split_ifs <;> rfl

namespace AlterState
variable {ρ : Type} {replayOther : ρ → List (String × AlteredTable) → Option (List (String × AlteredTable))}
  {s : AlterState ρ} {t : String} {tbl : AlteredTable}

lemma logRecord_tables (r : AlterRecord ρ) : (s.logRecord r).tables = s.tables := by
  rw [logRecord]
  split <;> rfl

/-- A table whose schema has changed is another one. -/
lemma replaceKey_ne (ht : s.tables.lookup t = some tbl) (hschema : tbl'.schema ≠ tbl.schema) :
    Lib.replaceKey s.tables t tbl' ≠ s.tables := by
  intro heq
  have hlookup := Lib.lookup_replaceKey_self ht tbl'
  rw [heq,ht] at hlookup
  exact hschema (congrArg AlteredTable.schema (some.inj hlookup)).symm

lemma finish_tables (s : AlterState ρ) (t : String) (r : Except AlterError Unit × AlteredTable) :
    (s.finish t r).2.tables = Lib.replaceKey s.tables t r.2 := by
  rw [finish]
  split <;> rfl

/-- A change that failed in its rewrite has changed the schema. -/
lemma finish_trace (ht : s.tables.lookup t = some tbl) (r : AlterRecord ρ)
    (hschema : new.schema ≠ tbl.schema) :
    ¬NoTrace pathKey fits place replayOther s ((s.logRecord r).finish t (rewriteIfRows pathKey fits place new)).2 := by
  rintro ⟨htables,-⟩
  rw [finish_tables,logRecord_tables] at htables
  exact replaceKey_ne ht (by rwa [rewriteIfRows_schema]) htables

lemma pushColumn_schema_ne (tbl : AlteredTable) (col : ColumnDef) : (tbl.pushColumn col).schema ≠ tbl.schema := by
  intro heq
  have hlen := congrArg length heq
  simp [AlteredTable.pushColumn] at hlen

lemma removeColumn_schema_ne (h : tbl.hasColumn name = true) :
    (tbl.removeColumn name).schema ≠ tbl.schema := by
  intro heq
  have hlen := congrArg length heq
  obtain ⟨col,hcol,hname⟩ := any_eq_true.mp h
  have hlt : (tbl.schema.eraseP (·.name = name)).length = tbl.schema.length-1 :=
    length_eraseP_of_mem hcol hname
  have hpos := length_pos_of_mem hcol
  simp only [AlteredTable.removeColumn] at hlen
  omega

/-- A logged column that its statement refused is added by replay. -/
lemma logged_column_trace (hrec : recover pathKey fits place replayOther s.disk s.log = some s.tables)
    (ht : s.tables.lookup t = some tbl) (hnew : tbl.hasColumn col.name = false)
    (hwal : s.walOn = true) :
    ¬NoTrace pathKey fits place replayOther s (s.logRecord (.addColumn t col)) := by
  rintro ⟨-,hlater⟩
  have hnow := hlater []
  rw [append_nil,append_nil,hrec,logRecord,if_pos hwal] at hnow
  rw [recover,foldlM_append] at hnow
  change (recover pathKey fits place replayOther s.disk s.log).bind _ = _ at hnow
  rw [hrec] at hnow
  simp only [bind_some,foldlM_cons,foldlM_nil,replayRecord,ht,hnew,replayRewrite] at hnow
  generalize hr : rewriteIfRows pathKey fits place (tbl.pushColumn col) = r at hnow
  have hschema : r.2.schema ≠ tbl.schema := by
    rw [← hr,rewriteIfRows_schema]
    exact pushColumn_schema_ne tbl col
  obtain ⟨res,tbl'⟩ := r
  cases res with
  | error e => cases hnow
  | ok => exact replaceKey_ne ht hschema (some.inj hnow)

/-- The changes that are refused without a trace: those the first checks refuse, and a
required column over rows when there is no log. -/
theorem refused_without_trace_iff (pathKey : String → Value → Value) (fits : Schema → List Value → Bool)
    (place : Schema → List (RowId × StoredRow) → List RowId)
    (replayOther : ρ → List (String × AlteredTable) → Option (List (String × AlteredTable)))
    (s : AlterState ρ) (hrec : recover pathKey fits place replayOther s.disk s.log = some s.tables)
    (call : AlterCall) :
    (∃ e, (s.alter pathKey fits place call).1 = .error e) ∧
        NoTrace pathKey fits place replayOther s (s.alter pathKey fits place call).2 ↔
      s.RefusedEarly call ∨ s.walOn = false ∧ s.RequiredOverRows call := by
  have hrefl : NoTrace pathKey fits place replayOther s s := ⟨rfl,fun _ => rfl⟩
  cases call with
  | addColumn t col =>
    simp only [alter,alterTableAddColumn,RefusedEarly,RequiredOverRows]
    by_cases hactive : s.activeTx = true
    · simpa [hactive] using hrefl
    rw [if_neg hactive]
    cases ht : s.tables.lookup t with
    | none => simpa using hrefl
    | some tbl =>
      by_cases hcol : tbl.hasColumn col.name = true
      · simpa [hcol] using hrefl
      rw [Bool.not_eq_true] at hcol
      by_cases hreq : (!tbl.rows.isEmpty && col.required) = true
      · obtain ⟨hrows,hrequired⟩ : tbl.rows ≠ [] ∧ col.required = true := by
          simpa [List.isEmpty_iff] using hreq
        cases hwal : s.walOn with
        | true =>
          -- the record is in the log and replay has no check of the rows
          have htrace : ¬NoTrace pathKey fits place replayOther s (s.logRecord (.addColumn t col)) :=
            logged_column_trace hrec ht hcol hwal
          simpa [hactive,hcol,hreq] using htrace
        | false =>
          have hsame : s.logRecord (.addColumn t col) = s := by simp [logRecord,hwal]
          simpa [hcol,hreq,hsame,hrequired,hrows] using hrefl
      · have htrace : ¬NoTrace pathKey fits place replayOther s ((s.logRecord (.addColumn t col)).finish t
            (rewriteIfRows pathKey fits place (tbl.pushColumn col))).2 :=
          finish_trace ht _ (pushColumn_schema_ne tbl col)
        have hnot : col.required = true → tbl.rows = [] := by simpa [imp_not_comm,not_imp_comm] using hreq
        simpa [hactive,hcol,hreq,htrace] using fun _ => hnot
  | dropColumn t name =>
    simp only [alter,alterTableDropColumn,RefusedEarly,RequiredOverRows]
    by_cases hactive : s.activeTx = true
    · simpa [hactive] using hrefl
    rw [if_neg hactive]
    cases ht : s.tables.lookup t with
    | none => simpa using hrefl
    | some tbl =>
      by_cases hcol : tbl.hasColumn name = true
      · by_cases hpin : (t,name) ∈ s.pinned
        · simpa [hcol,hpin] using hrefl
        · have htrace : ¬NoTrace pathKey fits place replayOther s ((s.logRecord (.dropColumn t name)).finish t
              (rewriteIfRows pathKey fits place
                (({tbl with indexes := tbl.indexes.filter (·.source.root ≠ name)} : AlteredTable).removeColumn name))).2 :=
            finish_trace ht _ (removeColumn_schema_ne hcol)
          simp only [ne_eq,decide_not] at htrace
          simp [hactive,hcol,hpin,htrace]
      · simpa [hcol] using hrefl

/-! ### A table with a row -/

def sampleAltered : List (String × AlteredTable) :=
  [("T",⟨[⟨"a",.int,false⟩],[(⟨0,0⟩,⟨[⟨"a",.int,false⟩],[.int 1]⟩)],[]⟩)]

def sampleAlterState : AlterState Empty := ⟨sampleAltered,sampleAltered,[],true,false,[]⟩

def keepPlaces (_ : Schema) (rows : List (RowId × StoredRow)) : List RowId := rows.map Prod.fst

theorem duplicate_column_refused :
    (∃ e, (sampleAlterState.alter (fun _ v => v) (fun _ _ => true) keepPlaces (.addColumn "T" ⟨"a",.str,false⟩)).1 =
        .error e) ∧
      NoTrace (fun _ v => v) (fun _ _ => true) keepPlaces (fun r _ => nomatch r) sampleAlterState
        (sampleAlterState.alter (fun _ v => v) (fun _ _ => true) keepPlaces (.addColumn "T" ⟨"a",.str,false⟩)).2 :=
  (refused_without_trace_iff (fun _ v => v) (fun _ _ => true) keepPlaces (fun r _ => nomatch r) sampleAlterState rfl
    (.addColumn "T" ⟨"a",.str,false⟩)).mpr (.inl (.inr rfl))

/-- A required column over rows is refused, and there after the next crash. -/
theorem refused_column_comes_back :
    (sampleAlterState.alter (fun _ v => v) (fun _ _ => true) keepPlaces (.addColumn "T" ⟨"b",.int,true⟩)).1 =
        .error .requiredOverRows ∧
      (sampleAlterState.alter (fun _ v => v) (fun _ _ => true) keepPlaces (.addColumn "T" ⟨"b",.int,true⟩)).2.tables =
        sampleAltered ∧
      recover (fun _ v => v) (fun _ _ => true) keepPlaces (fun (r : Empty) _ => nomatch r) sampleAltered
        (sampleAlterState.alter (fun _ v => v) (fun _ _ => true) keepPlaces (.addColumn "T" ⟨"b",.int,true⟩)).2.log =
        some [("T",⟨[⟨"a",.int,false⟩,⟨"b",.int,true⟩],
          [(⟨0,0⟩,⟨[⟨"a",.int,false⟩,⟨"b",.int,true⟩],[.int 1,.empty]⟩)],[]⟩)] := by
  decide +kernel

end AlterState
end Proofs
end PowDB.Storage
