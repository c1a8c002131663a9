import PowDB.Lib.StableSort
import PowDB.Query.Window
import PowDB.Storage.KeyedRun

/-! Nested projections: for every parent row the rows of a child table with its
key, as one JSON array. All parents are served by one gathering of child rows,
through the index on the child key or by a scan, which is cut into buckets. -/
namespace PowDB.Query
open Storage (Value KeyedTable ColumnIndex columnValue)
open Lib
variable {τ : Type}

/-- One level of a nested projection. -/
structure NestedBlock (τ : Type) where
  name : String
  table : String
  childKey : String
  residual : Option (Expr τ)
  order : List (String × Bool)
  limit : Option (Expr τ)
  offset : Option (Expr τ)

mutual
inductive NestedProjection (τ : Type)
  | mk (block : NestedBlock τ) (fields : NestedFields τ)

/-- The fields of the objects of a level, in their order. A deeper level is
correlated by a column of this level's table. -/
inductive NestedFields (τ : Type)
  | nil
  | scalar (key column : String) (rest : NestedFields τ)
  | nested (parentKey : String) (inner : NestedProjection τ) (rest : NestedFields τ)
end

def NestedProjection.block : NestedProjection τ → NestedBlock τ
  | .mk b _ => b

inductive NestedError
  | tableNotFound (table : String)
  | columnNotFound (table column : String)
  | badBound (name what : String)
  | outerColumnNotFound (name : String) (column : OutputColumn)
  | linkKeyNotUnique (name table column : String) (value : Value)
  | invalidJson (name : String)
  deriving DecidableEq

/-- One hop of a scalar link: look the value up by the key column and read the
other column. -/
structure ScalarLinkHop where
  table : String
  keyCol : String
  outCol : String

/-- The text of strings and values in JSON. -/
structure JsonText where
  string : String → String
  value : Value → String

/-- The tables of a database. -/
abbrev Tables := String → Option KeyedTable

section Model
variable (P : Prims) (J : JsonText) (db : Tables)

def columnPos (t : KeyedTable) (name : String) : ℕ := t.columns.findIdx (fun c => c.name == name)

def checkColumn (t : KeyedTable) (table name : String) : Except NestedError Unit :=
  if t.columns.any (fun c => c.name == name) then .ok () else .error (.columnNotFound table name)

def checkFields (t : KeyedTable) (table : String) : NestedFields τ → Except NestedError Unit
  | .nil => .ok ()
  | .scalar _ column rest => do
    checkColumn t table column
    checkFields t table rest
  | .nested parentKey _ rest => do
    checkColumn t table parentKey
    checkFields t table rest

def checkBound (name what : String) : Option (Expr τ) → Except NestedError (Option ℕ)
  | none => .ok none
  | some (.literal (.int v)) => if 0 ≤ v.toInt then .ok (some v.toInt.toNat) else .error (.badBound name what)
  | some _ => .error (.badBound name what)

/-- The table of a level with its limit and offset, when every name exists. -/
def checkLevel (block : NestedBlock τ) (fields : NestedFields τ) :
    Except NestedError (KeyedTable × Option ℕ × Option ℕ) :=
  match db block.table with
  | none => .error (.tableNotFound block.table)
  | some t => do
    checkColumn t block.table block.childKey
    checkFields t block.table fields
    block.order.forM (fun k => checkColumn t block.table k.1)
    let limit ← checkBound block.name "limit" block.limit
    let offset ← checkBound block.name "offset" block.offset
    .ok (t,limit,offset)

def indexOn (t : KeyedTable) (c : ℕ) : Option ColumnIndex := t.indexes.find? (fun idx => idx.colIdx = c)

/-- Whether probing the index for every key beats a scan by a factor of four. -/
def childIndexProbePaysOff (t : KeyedTable) (c nKeys : ℕ) : Bool :=
  match indexOn t c with
  | none => false
  | some idx =>
    idx.distinctKeys == 0 ||
      decide (nKeys*((idx.totalEntries+idx.distinctKeys-1)/idx.distinctKeys)*4 ≤ idx.totalEntries)

def schemaColumns (t : KeyedTable) : List OutputColumn := t.columns.map (fun c => ⟨none,c.name⟩)

def residualHolds (block : NestedBlock τ) (t : KeyedTable) (row : List Value) : Bool :=
  match block.residual with
  | none => true
  | some e => evalPredicate P e row (schemaColumns t)

def scanKeyFilterMaxKeys : ℕ := 1024

/-- The child rows of all parents. -/
def gather (block : NestedBlock τ) (t : KeyedTable) (parentKeys : List Value) : List (List Value) :=
  let key := columnPos t block.childKey
  let useProbes := childIndexProbePaysOff t key parentKeys.length
  let scanFilter := !useProbes && decide (parentKeys.length ≤ scanKeyFilterMaxKeys)
  let narrow := fun row =>
    !(columnValue key row).isEmpty && (!scanFilter || parentKeys.contains (columnValue key row)) &&
      residualHolds P block t row
  if useProbes then
    parentKeys.flatMap (fun k =>
      if k.typeId ≠ t.columnType key then []
      else
        let rids := ((indexOn t key).map (fun idx => idx.lookupAll (Value.cmp P.pj1Cmp) k)).getD []
        (rids.filterMap t.rowAt).filter narrow)
  else (t.rows.map Prod.fst).filter narrow

/-- Where the value of a field comes from. -/
inductive FieldSource
  | column (pos : ℕ)
  | arrays (pos : ℕ) (build : List (Value × String))

def sourceText (row : List Value) : FieldSource → String
  | .column pos => J.value (columnValue pos row)
  | .arrays pos build => (build.lookup (columnValue pos row)).getD "[]"

def objectText (parts : List (String × String)) : String :=
  "\x7b"++String.intercalate "," (parts.map (fun p => J.string p.1++":"++p.2))++"\x7d"

def arrayText (objects : List String) : String := "["++String.intercalate "," objects++"]"

def orderRows (block : NestedBlock τ) (t : KeyedTable) (rows : List (List Value)) : List (List Value) :=
  if block.order.isEmpty then rows
  else
    sortRun (fun a b => lexCmp (block.order.map (fun k => compareOrderValues P k.2))
      (block.order.map (fun k => columnValue (columnPos t k.1) a))
      (block.order.map (fun k => columnValue (columnPos t k.1) b))) rows

/-- One parent's rows in order, without those the offset and the limit leave out. -/
def trim (block : NestedBlock τ) (t : KeyedTable) (limit offset : Option ℕ) (rows : List (List Value)) :
    List (List Value) :=
  let rest := (orderRows P block t rows).drop (offset.getD 0)
  match limit with
  | none => rest
  | some n => rest.take n

def buildArrays (block : NestedBlock τ) (t : KeyedTable) (limit offset : Option ℕ)
    (sources : List (String × FieldSource)) (rows : List (List Value)) : List (Value × String) :=
  (buckets (columnValue (columnPos t block.childKey)) rows).map (fun b =>
    (b.1,arrayText ((trim P block t limit offset b.2).map (fun row =>
      objectText J (sources.map (fun s => (s.1,sourceText J row s.2)))))))

def distinctNonNull (rows : List (List Value)) (pos : ℕ) : List Value :=
  ((rows.map (columnValue pos)).filter (fun v => !v.isEmpty)).dedup

mutual
def assembleNestedArrays (parentKeys : List Value) : NestedProjection τ → Except NestedError (List (Value × String))
  | .mk block fields => do
    let (t,limit,offset) ← checkLevel db block fields
    let rows := if parentKeys.isEmpty then [] else gather P block t parentKeys
    let sources ← assembleSources t rows fields
    .ok (if parentKeys.isEmpty then [] else buildArrays P J block t limit offset sources rows)

def assembleSources (t : KeyedTable) (rows : List (List Value)) :
    NestedFields τ → Except NestedError (List (String × FieldSource))
  | .nil => .ok []
  | .scalar key column rest => do
    let sources ← assembleSources t rows rest
    .ok ((key,.column (columnPos t column))::sources)
  | .nested parentKey inner rest => do
    let pos := columnPos t parentKey
    let build ← assembleNestedArrays (distinctNonNull rows pos) inner
    let sources ← assembleSources t rows rest
    .ok ((inner.block.name,.arrays pos build)::sources)
end

/-- The row of a key, by the index. -/
def indexLookup (t : KeyedTable) (c : ℕ) (key : Value) : Option (List Value) :=
  match indexOn t c with
  | none => none
  | some idx =>
    (if idx.unique then idx.lookup (Value.cmp P.pj1Cmp) key else (idx.lookupPrefix key).head?).bind t.rowAt

/-- A map of pairs whose keys must differ. -/
def insertPairs (name : String) (hop : ScalarLinkHop) (m : List (Value × Value)) :
    List (Value × Value) → Except NestedError (List (Value × Value))
  | [] => .ok m
  | p::ps =>
    if (List.lookup p.1 m).isSome then .error (.linkKeyNotUnique name hop.table hop.keyCol p.1)
    else insertPairs name hop (p::m) ps

/-- Keys and values of the rows that have a key. -/
def hopPairs (hop : ScalarLinkHop) (t : KeyedTable) (rows : List (List Value)) : List (Value × Value) :=
  (rows.filter (fun row => !(columnValue (columnPos t hop.keyCol) row).isEmpty)).map
    (fun row => (columnValue (columnPos t hop.keyCol) row,columnValue (columnPos t hop.outCol) row))

/-- The map of a hop. Only a unique index is probed, so that a scan finds every
key that occurs twice. -/
def linkMap (name : String) (hop : ScalarLinkHop) (t : KeyedTable) (neededKeys : List Value) :
    Except NestedError (List (Value × Value)) :=
  let key := columnPos t hop.keyCol
  let useProbes := ((indexOn t key).map ColumnIndex.unique).getD false && childIndexProbePaysOff t key neededKeys.length
  if useProbes then
    .ok (hopPairs hop t
      ((neededKeys.filter (fun k => k.typeId = t.columnType key)).filterMap (indexLookup P t key))).reverse
  else insertPairs name hop [] (hopPairs hop t (t.rows.map Prod.fst))

def checkHop (hop : ScalarLinkHop) : Except NestedError KeyedTable :=
  match db hop.table with
  | none => .error (.tableNotFound hop.table)
  | some t => do
    checkColumn t hop.table hop.keyCol
    checkColumn t hop.table hop.outCol
    .ok t

/-- One map for every hop, restricted to the keys the hop before can give. -/
def buildScalarLinkMaps (name : String) : List ScalarLinkHop → List Value → Except NestedError (List (List (Value × Value)))
  | [],_ => .ok []
  | hop::hops,neededKeys => do
    let t ← checkHop db hop
    let m ← linkMap P name hop t neededKeys
    let next := ((neededKeys.filterMap (fun k => List.lookup k m)).filter (fun v => !v.isEmpty)).dedup
    let maps ← buildScalarLinkMaps name hops next
    .ok (m::maps)

/-- Walk the hops from a value; a null or a dangling key ends in a null. -/
def walkLinks (value : Value) (maps : List (List (Value × Value))) : Value :=
  maps.foldl (fun v m => if v.isEmpty then v else (List.lookup v m).getD .empty) value

inductive ProjectField (τ : Type)
  | plain (name : String) (e : Expr τ)
  | nested (parentKey : OutputColumn) (n : NestedProjection τ)
  | link (name : String) (firstFk : OutputColumn) (hops : List ScalarLinkHop)

def ProjectField.name : ProjectField τ → String
  | .plain name _ => name
  | .nested _ n => n.block.name
  | .link name _ _ => name

/-- What a field needs besides the parent row. -/
inductive FieldBuild
  | plain
  | nested (pos : ℕ) (build : List (Value × String))
  | link (pos : ℕ) (maps : List (List (Value × Value)))

def buildField (parent : Relation) : ProjectField τ → Except NestedError FieldBuild
  | .plain _ _ => .ok .plain
  | .nested parentKey n =>
    match parent.columns.findIdx? (· == parentKey) with
    | none => .error (.outerColumnNotFound n.block.name parentKey)
    | some pos => do
      let build ← assembleNestedArrays P J db (distinctNonNull parent.rows pos) n
      .ok (.nested pos build)
  | .link name firstFk hops =>
    match parent.columns.findIdx? (· == firstFk) with
    | none => .error (.outerColumnNotFound name firstFk)
    | some pos => do
      let maps ← buildScalarLinkMaps P db name hops (distinctNonNull parent.rows pos)
      .ok (.link pos maps)

def fieldValue (parent : Relation) (row : List Value) (field : ProjectField τ) : FieldBuild → Except NestedError Value
  | .plain =>
    match field with
    | .plain _ e => .ok (evalExpr P e row parent.columns)
    | _ => .ok .empty
  | .nested pos build =>
    match P.parseJsonText ((build.lookup (columnValue pos row)).getD "[]") with
    | none => .error (.invalidJson field.name)
    | some doc => .ok (.json doc)
  | .link pos maps => .ok (walkLinks (columnValue pos row) maps)

/-- The rows of a nested projection, under the names of its fields. -/
def executeNestedProject (parent : Relation) (fields : List (ProjectField τ)) :
    Except NestedError (List String × List (List Value)) := do
  let builds ← fields.mapM (buildField P J db parent)
  let rows ← parent.rows.mapM (fun row => (fields.zip builds).mapM (fun f => fieldValue P parent row f.1 f.2))
  .ok (fields.map ProjectField.name,rows)

end Model
end PowDB.Query
