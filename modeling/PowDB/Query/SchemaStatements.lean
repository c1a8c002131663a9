import PowDB.Lib.Outcome
import PowDB.Lib.Steps
import PowDB.Storage.Catalog
import PowDB.Storage.ValueOrder

/-! Schema statements. A table is declared with its columns, defaults and automatic columns; each
statement writes its record to the log, changes the tables and stores the catalog file, and
recovery replays the records on that file. Rows are built by column name. -/
namespace PowDB.Query
open Storage (Value TypeId ColumnDef Bytes maxRowDataSize validateIdentifier)
open Lib

structure StoredColumn where
  name : String
  typeId : TypeId
  required : Bool
  position : UInt16
  deriving DecidableEq

def StoredColumn.toColumnDef (c : StoredColumn) : ColumnDef := ⟨c.name,c.typeId,c.required⟩

/-- Defaults and automatic columns are aligned to the columns by position. -/
structure TableDef where
  columns : List StoredColumn
  defaults : List (Option Value)
  autoCols : List Bool
  deriving DecidableEq

inductive DdlRecord
  | createTable (name : String) (table : TableDef)
  | dropTable (name : String)
  | addColumn (table : String) (col : StoredColumn)
  | dropColumn (table name : String)
  deriving DecidableEq

/-- The tables in memory, the catalog file, and the schema records of the log. -/
structure SchemaState where
  walOff : Bool
  tables : List (String × TableDef)
  file : List (String × TableDef)
  log : List DdlRecord
  deriving DecidableEq

def columnIndex (columns : List StoredColumn) (name : String) : Option ℕ := columns.findIdx? (·.name == name)

/-- Give every column the number of its place. -/
def renumber (columns : List StoredColumn) : List StoredColumn :=
  columns.mapIdx fun i c => {c with position := UInt16.ofNat i}

namespace TableDef

def addColumn (d : TableDef) (col : StoredColumn) : TableDef := {d with columns := d.columns++[col]}

/-- Defaults and automatic columns keep their places. -/
def dropColumnAt (d : TableDef) (i : ℕ) : TableDef := {d with columns := renumber (d.columns.eraseIdx i)}

end TableDef

/-- One record of `replay_records`, on the tables alone. -/
def replayRecord (tables : List (String × TableDef)) : DdlRecord → List (String × TableDef)
  | .createTable name d => if (tables.lookup name).isSome then tables else tables++[(name,d)]
  | .dropTable name => swapRemove tables name
  | .addColumn t col =>
    match tables.lookup t with
    | none => tables
    | some d => if d.columns.any (·.name == col.name) then tables else replaceKey tables t (d.addColumn col)
  | .dropColumn t name =>
    match tables.lookup t with
    | none => tables
    | some d =>
      match columnIndex d.columns name with
      | none => tables
      | some i => replaceKey tables t (d.dropColumnAt i)

def typeNameToId (name : String) : Except String TypeId :=
  match name.map Char.toLower with
  | "str" | "string" => .ok .str
  | "int" => .ok .int
  | "float" => .ok .float
  | "bool" | "boolean" => .ok .bool
  | "datetime" => .ok .dateTime
  | "uuid" => .ok .uuid
  | "bytes" => .ok .bytes
  | "json" => .ok .json
  | _ => .error s!"unknown type name: '{name}'"

/-- A field of a type declaration. -/
structure FieldDef where
  name : String
  typeName : String
  required : Bool
  default : Option Value
  auto : Bool

/-- Refuse columns that leave no room for a row with every value missing. -/
def refuseSchemaWithNoRoomForARow (table : String) (columns : List StoredColumn) : Except String Unit :=
  let size := (Storage.RowFormat.encodeRow (columns.map StoredColumn.toColumnDef)
    (List.replicate columns.length .empty)).length
  if size ≤ maxRowDataSize then .ok ()
  else .error (s!"cannot store any row of '{table}': its {columns.length} columns need {size} bytes even with every " ++
    s!"value missing, and a row must fit {maxRowDataSize} bytes; declare fewer columns")

section fields
variable (coerceValue : Value → StoredColumn → Except String Value)

def coerceDefault (default : Option Value) (col : StoredColumn) : Except String (Option Value) :=
  match default with
  | none => .ok none
  | some v => (coerceValue v col).map some

/-- The column of a field, with its default coerced to its type. -/
def columnOfField (f : FieldDef) (i : ℕ) : Except String (StoredColumn × Option Value) := do
  let typeId ← typeNameToId f.typeName
  let col : StoredColumn := ⟨f.name,typeId,f.required,UInt16.ofNat i⟩
  let default ← coerceDefault coerceValue f.default col
  if f.auto && typeId != .int then .error s!"auto column '{f.name}' must be of type int"
  else if f.auto && f.default.isSome then .error s!"auto column '{f.name}' cannot also declare a default"
  else .ok (col,default)

def columnsOfFields (i : ℕ) : List FieldDef → Except String (List (StoredColumn × Option Value))
  | [] => .ok []
  | f::fs => do .ok ((← columnOfField coerceValue f i)::(← columnsOfFields (i+1) fs))

end fields

namespace SchemaState

/-- A state and what the statement answers. -/
abbrev Answer := SchemaState × Except String Unit

def logged (s : SchemaState) (r : DdlRecord) : SchemaState := if s.walOff then s else {s with log := s.log++[r]}

/-- Change the tables and store the catalog file. -/
def store (s : SchemaState) (tables : List (String × TableDef)) : SchemaState := {s with tables := tables, file := tables}

/-- The table and column names are checked for their characters, the columns not against each other. -/
def createTableFull (s : SchemaState) (name : String) (d : TableDef) : Answer :=
  match validateIdentifier "table" name with
  | .error e => (s,.error e)
  | .ok () =>
    match d.columns.forM (fun c => validateIdentifier "column" c.name) with
    | .error e => (s,.error e)
    | .ok () =>
      if (s.tables.lookup name).isSome then (s,.error s!"table '{name}' already exists")
      else ((s.logged (.createTable name d)).store (s.tables++[(name,d)]),.ok ())

section create
variable (coerceValue : Value → StoredColumn → Except String Value)

def createType (s : SchemaState) (name : String) (fields : List FieldDef) (ifNotExists : Bool) : Answer :=
  if (s.tables.lookup name).isSome then
    (s,if ifNotExists then .ok () else .error s!"cannot create type '{name}': it already exists")
  else
    match columnsOfFields coerceValue 0 fields with
    | .error e => (s,.error e)
    | .ok cols =>
      match refuseSchemaWithNoRoomForARow name (cols.map Prod.fst) with
      | .error e => (s,.error e)
      | .ok () => s.createTableFull name ⟨cols.map Prod.fst,cols.map Prod.snd,fields.map (·.auto)⟩

end create

/-- The backing table of a view, from the names and types of the columns of its rows. -/
def deriveViewSchema (columns : List (String × TypeId)) : TableDef :=
  ⟨columns.mapIdx fun i c => ⟨c.1,c.2,false,UInt16.ofNat i⟩,[],[]⟩

def createView (s : SchemaState) (name : String) (columns : List (String × TypeId)) : Answer :=
  s.createTableFull name (deriveViewSchema columns)

def dropTable (s : SchemaState) (name : String) : Answer :=
  match validateIdentifier "table" name with
  | .error e => (s,.error e)
  | .ok () =>
    if (s.tables.lookup name).isNone then (s,.error s!"table '{name}' not found")
    else ((s.logged (.dropTable name)).store (swapRemove s.tables name),.ok ())

/-- A required column is refused by a table with rows only after its record is in the log. -/
def alterTableAddColumn (s : SchemaState) (t : String) (col : StoredColumn) (hasRows : Bool) : Answer :=
  match s.tables.lookup t with
  | none => (s,.error s!"table '{t}' not found")
  | some d =>
    if d.columns.any (·.name == col.name) then (s,.error s!"column '{col.name}' already exists in table '{t}'")
    else
      let s := s.logged (.addColumn t col)
      if hasRows && col.required then
        (s,.error (s!"cannot add required column '{col.name}' to non-empty table '{t}': " ++
          "no default value to backfill existing rows with"))
      else (s.store (replaceKey s.tables t (d.addColumn col)),.ok ())

def addColumn (s : SchemaState) (t name typeName : String) (required hasRows : Bool) : Answer :=
  match s.tables.lookup t with
  | none => (s,.error s!"table '{t}' not found")
  | some d =>
    match typeNameToId typeName with
    | .error e => (s,.error e)
    | .ok typeId =>
      let col : StoredColumn := ⟨name,typeId,required,UInt16.ofNat d.columns.length⟩
      match refuseSchemaWithNoRoomForARow t (d.columns++[col]) with
      | .error e => (s,.error e)
      | .ok () => s.alterTableAddColumn t col hasRows

def alterTableDropColumn (s : SchemaState) (t name : String) : Answer :=
  match s.tables.lookup t with
  | none => (s,.error s!"table '{t}' not found")
  | some d =>
    match columnIndex d.columns name with
    | none => (s,.error s!"column '{name}' not found in table '{t}'")
    | some i => ((s.logged (.dropColumn t name)).store (replaceKey s.tables t (d.dropColumnAt i)),.ok ())

/-- Recovery reads the catalog file, replays the log and stores the file again. It may be cut off
there any number of times before the log is emptied. -/
def recover (s : SchemaState) (cutOff : ℕ) : SchemaState :=
  let tables := (fun ts => s.log.foldl replayRecord ts)^[cutOff+1] s.file
  {s with tables := tables, file := tables, log := []}

end SchemaState

/-- The statements that write a record. A view that is refreshed drops its table and creates it anew. -/
inductive SchemaStmt
  | createType (name : String) (fields : List FieldDef) (ifNotExists : Bool)
  | createView (name : String) (columns : List (String × TypeId))
  | dropTable (name : String)
  | addColumn (table name typeName : String) (required hasRows : Bool)
  | dropColumn (table name : String)

/-- A statement, a checkpoint, a clean close and reopen, or a crash, which may fall between the
record of a statement and the catalog file. -/
inductive SchemaAction
  | exec (stmt : SchemaStmt)
  | checkpoint
  | reopen
  | crash (during : Option SchemaStmt) (cutOff : ℕ)

section step
variable (coerceValue : Value → StoredColumn → Except String Value)

def SchemaState.answer (s : SchemaState) : SchemaStmt → SchemaState.Answer
  | .createType name fields ifNotExists => s.createType coerceValue name fields ifNotExists
  | .createView name columns => s.createView name columns
  | .dropTable name => s.dropTable name
  | .addColumn t name typeName required hasRows => s.addColumn t name typeName required hasRows
  | .dropColumn t name => s.alterTableDropColumn t name

/-- The log of a statement reaches the disk before the catalog file. -/
def SchemaState.cut (s : SchemaState) : Option SchemaStmt → SchemaState
  | none => s
  | some stmt => {s with log := (s.answer coerceValue stmt).1.log}

def SchemaState.step (s : SchemaState) : SchemaAction → Option SchemaState
  | .exec stmt => some (s.answer coerceValue stmt).1
  | .checkpoint => some {s with log := []}
  | .reopen => some {s with tables := s.file, log := []}
  | .crash during cutOff => some ((s.cut coerceValue during).recover cutOff)

end step

/-! Rows by column name. -/

inductive InsertFault
  | columnNotFound (column : String)
  | coercion (message : String)
  | required (column : String)
  | outOfBounds
  deriving DecidableEq

section insert
variable (coerceValue : Value → StoredColumn → Except String Value)

def assign (columns : List StoredColumn) (values : List Value) (field : String) (v : Value) :
    Except InsertFault (List Value) :=
  match columnIndex columns field with
  | none => .error (.columnNotFound field)
  | some i =>
    match columns[i]? with
    | none => .error .outOfBounds
    | some col =>
      match coerceValue v col with
      | .error e => .error (.coercion e)
      | .ok v => .ok (values.set i v)

def assignAll (columns : List StoredColumn) (values : List Value) :
    List (String × Value) → Except InsertFault (List Value)
  | [] => .ok values
  | (field,v)::rest => do assignAll columns (← assign coerceValue columns values field v) rest

def fillDefaults (defaults : List (Option Value)) (values : List Value) : List Value :=
  values.mapIdx fun i v => if v.isEmpty then (defaults[i]?.join).getD v else v

/-- The place to look at is the position stored with the column. -/
def checkRequired (autoCols : List Bool) (values : List Value) : List StoredColumn → Except InsertFault Unit
  | [] => .ok ()
  | col::cols =>
    let pos := col.position.toNat
    if col.required && !(autoCols[pos]?).getD false then
      match values[pos]? with
      | none => .error .outOfBounds
      | some .empty => .error (.required col.name)
      | some _ => checkRequired autoCols values cols
    else checkRequired autoCols values cols

def assignAuto (next : ℕ → Int64) (autoCols : List Bool) (values : List Value) : List Value :=
  values.mapIdx fun i v => if (autoCols[i]?).getD false && v.isEmpty then .int (next i) else v

/-- The row an insert builds from its assignments. -/
def insertRow (d : TableDef) (next : ℕ → Int64) (assignments : List (String × Value)) :
    Except InsertFault (List Value) := do
  let values ← assignAll coerceValue d.columns (List.replicate d.columns.length .empty) assignments
  let values := fillDefaults d.defaults values
  checkRequired d.autoCols values d.columns
  .ok (assignAuto next d.autoCols values)

/-- The value a query reads under a column name. -/
def readColumn (columns : List StoredColumn) (row : List Value) (name : String) : Option Value :=
  (columnIndex columns name).bind (row[·]?)

end insert

end PowDB.Query
