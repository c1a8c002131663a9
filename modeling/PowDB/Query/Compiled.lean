import PowDB.Query.Eval

/-! Compiled predicates: a filter that is a conjunction of simple comparisons is turned into a
list of leaves that read the stored bytes of a row at offsets computed once. Rows that are not
tested this way are decoded, but only in the columns the filter reads. -/
namespace PowDB.Query
open Storage (Value Bytes TypeId Schema)
open Storage.RowFormat (ofLeBytes rowBody rowMagic slice isNull fixedValue varValue)
open Lib
variable {τ : Type}

/-- Where the columns of a row are: offsets in the fixed region, and places in the offset table. -/
structure FastLayout where
  bitmapSize : ℕ
  fixedOffsets : List (Option ℕ)
  fixedRegionSize : ℕ
  varIndices : List (Option ℕ)
  nVar : ℕ

namespace FastLayout

/-- The loop over the columns, from a position in the fixed region and a place in the table. -/
def offsetsFrom (pos vi : ℕ) : Schema → List (Option ℕ × Option ℕ)
  | [] => []
  | c::cs =>
    match c.typeId.fixedSize with
    | some n => (some pos,none)::offsetsFrom (pos+n) vi cs
    | none => (none,some vi)::offsetsFrom pos (vi+1) cs

def new (schema : Schema) : FastLayout where
  bitmapSize := (schema.length+7)/8
  fixedOffsets := (offsetsFrom 0 0 schema).map Prod.fst
  fixedRegionSize := (schema.map fun c => c.typeId.fixedSize.getD 0).sum
  varIndices := (offsetsFrom 0 0 schema).map Prod.snd
  nVar := (schema.filter fun c => c.typeId.fixedSize.isNone).length

def varOffsetTableStart (l : FastLayout) : ℕ := 2+l.bitmapSize+l.fixedRegionSize

def varDataStart (l : FastLayout) : ℕ := l.varOffsetTableStart+(l.nVar+1)*2

end FastLayout

/-- The null bit of a column, by its byte in the bitmap and its place in the byte. -/
structure NullBit where
  byte : ℕ
  bit : ℕ

def NullBit.of (col : ℕ) : NullBit := ⟨col/8,col%8⟩

def NullBit.isSet (b : NullBit) (data : Bytes) : Bool := (data.getD (2+b.byte) 0).toNat.testBit b.bit

/-- The place of a variable column. -/
structure VarSlot where
  tableStart : ℕ
  dataStart : ℕ
  varIdx : ℕ

def readAt (data : Bytes) (pos n : ℕ) : Bytes := (data.drop pos).take n

/-- The bytes of a variable column; none when the row is too short for them. -/
def VarSlot.bytes (v : VarSlot) (data : Bytes) : Option Bytes :=
  let nextPos := v.tableStart+(v.varIdx+1)*2
  if data.length < nextPos+2 then none
  else
    let start := v.dataStart+ofLeBytes (readAt data (v.tableStart+v.varIdx*2) 2)
    let stop := v.dataStart+ofLeBytes (readAt data nextPos 2)
    if data.length < stop ∨ stop < start then none else some (readAt data start (stop-start))

inductive CompiledLeaf
  | int (dataOffset : ℕ) (null : NullBit) (op : BinOp) (literal : Int64)
  | float (dataOffset : ℕ) (null : NullBit) (op : BinOp) (literal : UInt64)
  | isNull (null : NullBit) (wantNull : Bool)
  | strEq (slot : VarSlot) (null : NullBit) (negate : Bool) (needle : Bytes)
  | json (slot : VarSlot) (null : NullBit) (segments : List PathSeg) (op : BinOp) (literal : Value)

section json
variable (P : Prims)

def jsonLocateNode (data : Bytes) (slot : VarSlot) (null : NullBit) (segments : List PathSeg) : Option Bytes :=
  if data.length < 3+null.byte then none
  else if null.isSet data then none
  else (slot.bytes data).bind (segments.foldlM P.pj1Get)

/-- The text of a JSON string node. -/
def jsonNodeText (n : Bytes) : Option Bytes :=
  let len := ofLeBytes (readAt n 1 4)
  if 5 ≤ n.length ∧ 5+len ≤ n.length then some (readAt n 5 len) else none

def jsonNodeIsEmpty : Option Bytes → Bool
  | none => true
  | some n =>
    match n.head? with
    | some 1 | some 2 | some 6 | some 7 => false
    | some 3 | some 4 => decide (n.length < 9)
    | some 5 => ((jsonNodeText n).bind fromUtf8).isNone
    | _ => true

def nodeInt (n : Bytes) : Int64 := Int64.ofNat (ofLeBytes (readAt n 1 8))
def nodeFloat (n : Bytes) : UInt64 := UInt64.ofNat (ofLeBytes (readAt n 1 8))

/-- A container, a null or a damaged node equals no literal. -/
def jsonScalarEq (node : Option Bytes) (lit : Value) : Bool :=
  match node with
  | none => false
  | some n =>
    match n.head? with
    | some 1 => lit == .bool false
    | some 2 => lit == .bool true
    | some 3 =>
      decide (9 ≤ n.length) &&
        match lit with
        | .int l => nodeInt n == l
        | .float l => intF64Cmp (nodeInt n).toInt l == .eq
        | _ => false
    | some 4 =>
      decide (9 ≤ n.length) &&
        match lit with
        | .float l => Binary64.totalCmp (nodeFloat n) l == .eq
        | .int l => intF64Cmp l.toInt (nodeFloat n) == .eq
        | _ => false
    | some 5 =>
      match lit with
      | .str l => jsonNodeText n == some l.toUTF8.data.toList
      | _ => false
    | _ => false

/-- Texts are compared by their bytes, which is the order of the texts. -/
def jsonScalarCmp (node : Option Bytes) (lit : Value) : Option Ordering :=
  match node with
  | none => none
  | some n =>
    match n.head? with
    | some 1 =>
      match lit with
      | .bool l => some (compare false l)
      | _ => none
    | some 2 =>
      match lit with
      | .bool l => some (compare true l)
      | _ => none
    | some 3 =>
      if 9 ≤ n.length then
        match lit with
        | .int l => some (compare (nodeInt n).toInt l.toInt)
        | .float l => some (intF64Cmp (nodeInt n).toInt l)
        | _ => none
      else none
    | some 4 =>
      if 9 ≤ n.length then
        match lit with
        | .float l => some (Binary64.totalCmp (nodeFloat n) l)
        | .int l => some (intF64Cmp l.toInt (nodeFloat n)).swap
        | _ => none
      else none
    | some 5 =>
      match (jsonNodeText n).bind fromUtf8,lit with
      | some s,.str l => some (compare s l)
      | _,_ => none
    | _ => none

def jsonCompare (node : Option Bytes) (op : BinOp) (lit : Value) : Bool :=
  if jsonNodeIsEmpty node then false
  else if lit.isNaN then op == .neq
  else
    match op with
    | .eq => jsonScalarEq node lit
    | .neq => !jsonScalarEq node lit
    | .lt | .gt | .lte | .gte => ((jsonScalarCmp node lit).map op.holds).getD false
    | _ => false

end json

/-- Test a leaf on the body of a row. -/
def CompiledLeaf.eval (P : Prims) (data : Bytes) : CompiledLeaf → Bool
  | .int off null op literal =>
    if data.length < off+8 ∨ data.length < 3+null.byte then false
    else if null.isSet data then false
    else op.holds (compare (UInt64.ofNat (ofLeBytes (readAt data off 8))).toInt64.toInt literal.toInt)
  | .float off null op literal =>
    if data.length < off+8 ∨ data.length < 3+null.byte then false
    else if null.isSet data then false
    else
      let val := UInt64.ofNat (ofLeBytes (readAt data off 8))
      if Binary64.isNaN val || Binary64.isNaN literal then op == .neq else op.holds (Binary64.totalCmp val literal)
  | .isNull null wantNull => null.isSet data == wantNull
  | .strEq slot null negate needle =>
    if data.length < 3+null.byte then false
    else if null.isSet data then false
    else
      match slot.bytes data with
      | none => false
      | some b => (b == needle) != negate
  | .json slot null segments op literal => jsonCompare (jsonLocateNode P data slot null segments) op literal

/-! The compiler. -/

/-- The operator with its operands exchanged. -/
def BinOp.flipped : BinOp → BinOp
  | .lt => .gt
  | .gt => .lt
  | .lte => .gte
  | .gte => .lte
  | op => op

/-- A literal on one side, with the operator as seen from the other side. -/
def literalSide : Expr τ → BinOp → Expr τ → Option (Expr τ × BinOp × Literal)
  | e,op,.literal l => some (e,op,l)
  | .literal l,op,e => some (e,op.flipped,l)
  | _,_,_ => none

section compile
variable (columns : List OutputColumn) (layout : FastLayout) (schema : Schema)

def columnAt (name : String) : Option ℕ := columns.findIdx? (· == ⟨none,name⟩)

def typeAt (i : ℕ) : Option TypeId := schema[i]?.map (·.typeId)

def fixedAt (i : ℕ) : Option ℕ := (layout.fixedOffsets[i]?.join).map fun off => 2+layout.bitmapSize+off

def slotAt (i : ℕ) : Option VarSlot :=
  (layout.varIndices[i]?.join).map fun vi => ⟨layout.varOffsetTableStart,layout.varDataStart,vi⟩

/-- A timestamp column is read as the integer it is stored as. -/
def buildIntLeaf (l : Expr τ) (op : BinOp) (r : Expr τ) : Option CompiledLeaf :=
  match literalSide l op r with
  | some (.field name,op,.int v) =>
    (columnAt columns name).bind fun i =>
      if typeAt schema i = some .int ∨ typeAt schema i = some .dateTime then
        (fixedAt layout i).map fun off => .int off (.of i) op v
      else none
  | _ => none

/-- An integer literal is widened only where the comparison of floats then says the same. -/
def exactWidened (v : Int64) : Option UInt64 :=
  let w := Binary64.ofInt v.toInt
  if v ≠ 0 ∧ intF64Cmp v.toInt w = .eq then some w else none

def floatLiteral : Literal → Option UInt64
  | .float v => some v
  | .int v => exactWidened v
  | _ => none

def buildFloatLeaf (l : Expr τ) (op : BinOp) (r : Expr τ) : Option CompiledLeaf :=
  match literalSide l op r with
  | some (.field name,op,lit) =>
    (floatLiteral lit).bind fun v =>
      (columnAt columns name).bind fun i =>
        if typeAt schema i = some .float then (fixedAt layout i).map fun off => .float off (.of i) op v else none
  | _ => none

def buildStrEqLeaf (l : Expr τ) (op : BinOp) (r : Expr τ) : Option CompiledLeaf :=
  if op ≠ .eq ∧ op ≠ .neq then none
  else
    match literalSide l op r with
    | some (.field name,_,.string s) =>
      (columnAt columns name).bind fun i =>
        if typeAt schema i = some .str then
          (slotAt layout i).map fun slot => .strEq slot (.of i) (op == .neq) s.toUTF8.data.toList
        else none
    | _ => none

def buildJsonLeaf (l : Expr τ) (op : BinOp) (r : Expr τ) : Option CompiledLeaf :=
  match literalSide l op r with
  | some (.jsonPath (.field name) segments,op,lit) =>
    if op.isComparison then
      (columnAt columns name).bind fun i =>
        if typeAt schema i = some .json then
          (slotAt layout i).map fun slot => .json slot (.of i) segments op lit.toValue
        else none
    else none
  | _ => none

/-- The leaf of one comparison, by the first builder that takes it. -/
def buildLeaf (l : Expr τ) (op : BinOp) (r : Expr τ) : Option CompiledLeaf :=
  (buildIntLeaf columns layout schema l op r).or <|
    (buildFloatLeaf columns layout schema l op r).or <|
      (buildStrEqLeaf columns layout schema l op r).or (buildJsonLeaf columns layout schema l op r)

def flattenAndCompile : Expr τ → Option (List CompiledLeaf)
  | .binaryOp l .and r =>
    (flattenAndCompile l).bind fun ls => (flattenAndCompile r).map (ls++·)
  | .binaryOp l op r => (buildLeaf columns layout schema l op r).map ([·])
  | .unaryOp .isNull (.field name) => (columnAt columns name).map fun i => [.isNull (.of i) true]
  | .unaryOp .isNotNull (.field name) => (columnAt columns name).map fun i => [.isNull (.of i) false]
  | _ => none

inductive MembershipLeaf
  | standard (leaf : CompiledLeaf)
  | intSet (dataOffset : ℕ) (null : NullBit) (keys : List Int64) (negated : Bool)

/-- The keys of a list of integer literals; a null in the list is skipped. -/
def membershipKeys : List (Expr τ) → Option (List Int64)
  | [] => some []
  | .literal (.int v)::es => (membershipKeys es).map (v::·)
  | .null::es => membershipKeys es
  | _ => none

/-- At most 32 leaves, and at most 128 elements in a list. -/
def flattenMembership (out : List MembershipLeaf) (e : Expr τ) : Option (List MembershipLeaf) :=
  if 32 ≤ out.length then none
  else
    match e with
    | .binaryOp l .and r => (flattenMembership out l).bind fun out => flattenMembership out r
    | .inList (.field name) list negated =>
      if 128 < list.length then none
      else
        (columnAt columns name).bind fun i =>
          if typeAt schema i = some .int then
            (membershipKeys list).bind fun keys =>
              (fixedAt layout i).map fun off => out++[.intSet off (.of i) keys negated]
          else none
    | .inList _ _ _ => none
    | e => (flattenAndCompile columns layout schema e).bind fun ls => ls.getLast?.map fun leaf => out++[.standard leaf]

end compile

/-- The integer of a fixed column, none for a null or a row that is too short. -/
def compiledIntValue (data : Bytes) (off : ℕ) (null : NullBit) : Option Int64 :=
  if data.length < 3+null.byte then none
  else if null.isSet data then none
  else if data.length < off+8 then none
  else some (UInt64.ofNat (ofLeBytes (readAt data off 8))).toInt64

def MembershipLeaf.eval (P : Prims) (data : Bytes) : MembershipLeaf → Bool
  | .standard leaf => leaf.eval P data
  | .intSet off null keys negated => (compiledIntValue data off null).any fun v => keys.contains v != negated

def rowIsV2 (data : Bytes) : Bool :=
  decide (6 ≤ data.length) && data.take 4 == rowMagic && ofLeBytes (readAt data 4 2) == 2

section run
variable (P : Prims) (columns : List OutputColumn) (schema : Schema) (fallback : Bytes → Bool)

/-- A row of format 2 is decoded and evaluated; what that gives is left open here. -/
def onInline (test : Bytes → Bool) (data : Bytes) : Bool := if rowIsV2 data then fallback data else test (rowBody data)

/-- A single integer leaf has a loop of its own. -/
def compileStandardPredicate (e : Expr τ) : Option (Bytes → Bool) :=
  (flattenAndCompile columns (.new schema) schema e).bind fun
    | [] => none
    | [.int off null op literal] =>
      if op.isComparison then
        some (onInline fallback fun data =>
          (compiledIntValue data off null).any fun v => op.holds (compare v.toInt literal.toInt))
      else none
    | leaves => some (onInline fallback fun data => leaves.all (·.eval P data))

def compileMembershipPredicate (e : Expr τ) : Option (Bytes → Bool) :=
  (flattenMembership columns (.new schema) schema [] e).bind fun leaves =>
    if leaves.any (fun | .intSet .. => true | _ => false) then
      some (onInline fallback fun data => leaves.all (·.eval P data))
    else none

def compilePredicate (e : Expr τ) : Option (Bytes → Bool) :=
  (compileStandardPredicate P columns schema fallback e).or (compileMembershipPredicate P columns schema fallback e)

end run

/-! Decoding the referenced columns only. -/

mutual
/-- The fields a filter reads outside JSON paths, as `collect_field_indices` walks it. -/
def fieldNames : Expr τ → List String
  | .field name => [name]
  | .binaryOp l _ r | .coalesce l r => fieldNames l++fieldNames r
  | .unaryOp _ e | .functionCall e | .cast e _ | .inSubquery e _ _ => fieldNames e
  | .scalarFunc _ args => fieldNamesList args
  | .caseWhen c r rest => fieldNames c++fieldNames r++fieldNames rest
  | .inList e list _ => fieldNames e++fieldNamesList list
  | _ => []

def fieldNamesList : List (Expr τ) → List String
  | [] => []
  | e::es => fieldNames e++fieldNamesList es
end

mutual
/-- The base columns of its JSON paths, as `collect_json_path_base_indices` walks it. -/
def pathNames : Expr τ → List String
  | .jsonPath (.field name) _ => [name]
  | .jsonPath (.qualifiedField _ _) _ => []
  | .jsonPath base _ => pathNames base
  | .binaryOp l _ r | .coalesce l r => pathNames l++pathNames r
  | .unaryOp _ e | .functionCall e | .cast e _ | .inSubquery e _ _ => pathNames e
  | .scalarFunc _ args => pathNamesList args
  | .caseWhen c r rest => pathNames c++pathNames r++pathNames rest
  | .inList e list _ => pathNames e++pathNamesList list
  | _ => []

def pathNamesList : List (Expr τ) → List String
  | [] => []
  | e::es => pathNames e++pathNamesList es
end

def predicateColumnIndicesJson (columns : List OutputColumn) (e : Expr τ) : List ℕ :=
  (fieldNames e++pathNames e).filterMap (columnAt columns)

/-- One column of a row; reading past the end of the row panics in the source. -/
def decodeColumn (schema : Schema) (data : Bytes) (i : ℕ) : Option Value := do
  let body := rowBody data
  let layout := FastLayout.new schema
  let col ← schema[i]?
  if (NullBit.of i).isSet body then some .empty
  else
    match layout.fixedOffsets[i]?.join,layout.varIndices[i]?.join with
    | some off,_ => (slice body (2+layout.bitmapSize+off) (col.typeId.fixedSize.getD 0)).map (fixedValue col.typeId)
    | none,some vi =>
      ((VarSlot.mk layout.varOffsetTableStart layout.varDataStart vi).bytes body).map (varValue col.typeId)
    | none,none => none

/-- The columns that are not read stay missing. -/
def decodeSelective (schema : Schema) (data : Bytes) (indices : List ℕ) : Option (List Value) :=
  (List.range schema.length).mapM fun i => if i ∈ indices then decodeColumn schema data i else some .empty

end PowDB.Query
