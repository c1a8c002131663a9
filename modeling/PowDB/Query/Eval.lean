import PowDB.Query.Ast
import PowDB.Storage.ValueOrder

/-! Evaluation of filter expressions on a row: the comparison operators with
their rules for missing values, NaN and mixed types, and the truth of a filter. -/
namespace PowDB.Query
open Storage (Value Bytes TypeId)
open Lib
variable {τ : Type}

/-- The functions on values the evaluator calls. -/
structure Prims where
  arith : BinOp → Value → Value → Value
  scalarFunc : ScalarFn → List Value → Value
  evalCast : Value → CastType → Value
  pj1Get : Bytes → PathSeg → Option Bytes
  pj1ToText : Bytes → Option String
  pj1Cmp : Bytes → Bytes → Ordering
  parseJsonText : String → Option Bytes

/-- No function gives a value and no text is a document. -/
def Prims.blank : Prims where
  arith _ _ _ := .empty
  scalarFunc _ _ := .empty
  evalCast _ _ := .empty
  pj1Get _ _ := none
  pj1ToText _ := none
  pj1Cmp _ _ := .eq
  parseJsonText _ := none

namespace BinOp

def isComparison : BinOp → Bool
  | .eq | .neq | .lt | .gt | .lte | .gte => true
  | _ => false

def isOrdering : BinOp → Bool
  | .lt | .gt | .lte | .gte => true
  | _ => false

/-- Whether a comparison operator holds of two values in a given order. -/
def holds : BinOp → Ordering → Bool
  | .eq,o => o == .eq
  | .neq,o => o != .eq
  | .lt,o => o == .lt
  | .gt,o => o == .gt
  | .lte,o => o != .gt
  | .gte,o => o != .lt
  | _,_ => false

end BinOp

/-- Exact comparison of an integer with a float: range, whole part, then the
sign of the fraction. -/
def intF64Cmp (i : ℤ) (f : UInt64) : Ordering :=
  if Binary64.isNaN f then .lt
  else if 2^63*Binary64.one ≤ Binary64.scaled f then .lt
  else if Binary64.scaled f < -2^63*Binary64.one then .gt
  else
    let t := (Binary64.scaled f).tdiv Binary64.one
    match compare i t with
    | .eq => compare 0 (Binary64.scaled f-t*Binary64.one)
    | o => o

/-- Filters compare a missing value with nothing; the condition of a join keeps
the equality and the order of the stored values. -/
inductive CmpMode
  | filter | join
  deriving DecidableEq

/-- Order of two numbers of different types. -/
def crossTypeNumericCmp (mode : CmpMode) : Value → Value → Option Ordering
  | .dateTime a,.int b => some (compare a.toInt b.toInt)
  | .int a,.dateTime b => some (compare a.toInt b.toInt)
  | .int a,.float b => if mode = .filter then some (intF64Cmp a.toInt b) else none
  | .float a,.int b => if mode = .filter then some (intF64Cmp b.toInt a).swap else none
  | _,_ => none

/-- Equality after the numeric rules: a document equals the text of it. -/
def valueEq (P : Prims) : Value → Value → Bool
  | .json doc,.str text | .str text,.json doc => P.parseJsonText text == some doc
  | a,b => decide (a = b)

def evalBinop (P : Prims) (mode : CmpMode) (l : Value) (op : BinOp) (r : Value) : Value :=
  if mode == .filter && op.isComparison && (l.isEmpty || r.isEmpty) then .bool false
  else if mode == .filter && op.isComparison && (l.isNaN || r.isNaN) then .bool (op == .neq)
  else
    match op.isComparison,crossTypeNumericCmp mode l r with
    | true,some o => .bool (op.holds o)
    | _,_ =>
      if mode == .filter && op.isOrdering && l.typeId != r.typeId then .bool false
      else
        match op with
        | .eq => .bool (valueEq P l r)
        | .neq => .bool (!valueEq P l r)
        | .lt | .gt | .lte | .gte => .bool (op.holds (Value.cmp P.pj1Cmp l r))
        | .and =>
          match l,r with
          | .bool a,.bool b => .bool (a && b)
          | _,_ => .bool false
        | .or =>
          match l,r with
          | .bool a,.bool b => .bool (a || b)
          | _,_ => .bool false
        | op => P.arith op l r

def evalUnary : UnaryOp → Value → Value
  | .not,.bool b => .bool !b
  | .not,.empty => .bool true
  | .not,_ => .empty
  | .existsOp,v => .bool !v.isEmpty
  | .notExists,v => .bool v.isEmpty
  | .isNull,v => .bool v.isEmpty
  | .isNotNull,v => .bool !v.isEmpty

/-- Membership of a value in a list of values. In a filter a missing value is in
no list and outside no list. -/
def evalIn (P : Prims) (mode : CmpMode) (v : Value) (list : List Value) (negated : Bool) : Value :=
  if mode == .filter && v.isEmpty then .bool false
  else .bool (negated != list.any (fun item => evalBinop P mode v .eq item == .bool true))

def Literal.toValue : Literal → Value
  | .int v => .int v
  | .float v => .float v
  | .string s => .str s
  | .bool b => .bool b

section Json
open Storage.RowFormat (ofLeBytes)

/-- The text of bytes that are valid UTF-8. -/
def fromUtf8 (b : Bytes) : Option String := String.fromUTF8? ⟨b.toArray⟩

/-- The value of a JSON node, read from its tag and its fixed payload. -/
def pj1Scalarize (node : Bytes) : Value :=
  match node.head? with
  | some 1 => .bool false
  | some 2 => .bool true
  | some 3 => if 9 ≤ node.length then .int (Int64.ofNat (ofLeBytes ((node.drop 1).take 8))) else .empty
  | some 4 => if 9 ≤ node.length then .float (UInt64.ofNat (ofLeBytes ((node.drop 1).take 8))) else .empty
  | some 5 =>
    let len := ofLeBytes ((node.drop 1).take 4)
    if 5 ≤ node.length ∧ 5+len ≤ node.length then
      match fromUtf8 ((node.drop 5).take len) with
      | some s => .str s
      | none => .empty
    else .empty
  | some 6 | some 7 => .json node
  | _ => .empty

def walkJsonPath (P : Prims) (base : Value) (segments : List PathSeg) : Option Bytes :=
  match base with
  | .json doc => segments.foldlM P.pj1Get doc
  | _ => none

def evalJsonType (node : Option Bytes) : Value :=
  match node.bind List.head? with
  | some 0 => .str "null"
  | some 1 | some 2 => .str "bool"
  | some 3 | some 4 => .str "number"
  | some 5 => .str "string"
  | some 6 => .str "array"
  | some 7 => .str "object"
  | _ => .empty

def evalJsonText (P : Prims) (node : Option Bytes) : Value :=
  match node with
  | none => .empty
  | some n =>
    match n.head? with
    | some 5 => pj1Scalarize n
    | some 1 | some 2 | some 3 | some 4 | some 6 | some 7 =>
      match P.pj1ToText n with
      | some s => .str s
      | none => .empty
    | _ => .empty

end Json

/-- What an expression evaluates to: its value, and the JSON node it addresses
for the functions that read the node itself. -/
structure Evaluated where
  value : Value
  node : Option Bytes

def Evaluated.of (v : Value) : Evaluated :=
  ⟨v,match v with | .json b => some b | _ => none⟩

@[simp] lemma Evaluated.of_value (v : Value) : (Evaluated.of v).value = v := rfl

def evalScalarFunc (P : Prims) (f : ScalarFn) (args : List Evaluated) : Value :=
  match f with
  | .jsonType => evalJsonType (args.head?.bind (·.node))
  | .jsonText => evalJsonText P (args.head?.bind (·.node))
  | f => P.scalarFunc f (args.map (·.value))

/-- The functions that read the node of their argument evaluate it as a filter
does. -/
def ScalarFn.argMode : ScalarFn → CmpMode → CmpMode
  | .jsonType,_ | .jsonText,_ => .filter
  | _,mode => mode

/-- The values the names of an expression stand for. -/
structure Names where
  field : String → Value
  qualified : Qualifier → String → Value

def firstColumn (rows : List (List Value)) : List Value := rows.filterMap List.head?

section Eval
variable (P : Prims) (ν : Names) (σ : QueryExpr τ → Option (List (List Value)))

mutual
/-- Value of an expression, given the values of its names and the rows of its
subqueries. A subquery without rows to it evaluates to nothing. -/
def eval (mode : CmpMode) : Expr τ → Evaluated
  | .field name => .of (ν.field name)
  | .qualifiedField q f => .of (ν.qualified q f)
  | .literal l => .of l.toValue
  | .param _ => .of .empty
  | .binaryOp l op r => .of (evalBinop P mode (eval mode l).value op (eval mode r).value)
  | .unaryOp op e => .of (evalUnary op (eval mode e).value)
  | .functionCall _ => .of .empty
  | .scalarFunc f args => .of (evalScalarFunc P f (evalArgs (f.argMode mode) args))
  | .coalesce l r =>
    .of (if (eval mode l).value.isEmpty then (eval mode r).value else (eval mode l).value)
  | .inList e list negated =>
    .of (evalIn P mode (eval mode e).value ((evalArgs mode list).map (·.value)) negated)
  | .inSubquery e q negated =>
    .of (match σ q with
      | none => .empty
      | some rows => evalIn P mode (eval mode e).value (firstColumn rows) negated)
  | .existsSubquery q negated =>
    .of (match σ q with
      | none => .empty
      | some rows => .bool (negated != !rows.isEmpty))
  | .caseWhen c r rest =>
    .of (if (eval mode c).value = .bool true then (eval mode r).value else (eval mode rest).value)
  | .cast e t => .of (P.evalCast (eval mode e).value t)
  | .valueLit v => .of v
  | .null => .of .empty
  | .jsonPath base segments =>
    let node := walkJsonPath P (eval mode base).value segments
    ⟨match node with
      | some n => pj1Scalarize n
      | none => .empty,node⟩

def evalArgs (mode : CmpMode) : List (Expr τ) → List Evaluated
  | [] => []
  | e::es => eval mode e::evalArgs mode es
end

end Eval

/-- A column of an intermediate result. The output of a join names the table of
each column. -/
structure OutputColumn where
  table : Option String
  name : String
  deriving DecidableEq

/-- Position of an unqualified name: a column of that very name, or the first
column of a joined table that has it. -/
def resolveColumnIndex (name : String) (columns : List OutputColumn) : Option ℕ :=
  (columns.findIdx? (· == ⟨none,name⟩)).or
    (columns.findIdx? (fun c => c.table.isSome && c.name == name))

/-- The names of a row. -/
def rowNames (row : List Value) (columns : List OutputColumn) : Names where
  field name := ((resolveColumnIndex name columns).bind (row[·]?)).getD .empty
  qualified q f :=
    match q with
    | .named a => ((columns.findIdx? (· == ⟨some a,f⟩)).bind (row[·]?)).getD .empty
    | .outer _ => .empty

/-- The evaluator of the executor, for which a subquery that was not replaced
before the scan has no value. -/
def evalExprMode (P : Prims) (e : Expr τ) (row : List Value) (columns : List OutputColumn)
    (mode : CmpMode) : Value :=
  (eval P (rowNames row columns) (fun _ => none) mode e).value

def evalExpr (P : Prims) (e : Expr τ) (row : List Value) (columns : List OutputColumn) : Value :=
  evalExprMode P e row columns .filter

def evalPredicateMode (P : Prims) (e : Expr τ) (row : List Value) (columns : List OutputColumn)
    (mode : CmpMode) : Bool :=
  evalExprMode P e row columns mode == .bool true

def evalPredicate (P : Prims) (e : Expr τ) (row : List Value) (columns : List OutputColumn) : Bool :=
  evalPredicateMode P e row columns .filter

/-- Truth of the condition of a join. -/
def evalJoinPredicate (P : Prims) (e : Expr τ) (row : List Value) (columns : List OutputColumn) :
    Bool :=
  evalPredicateMode P e row columns .join

end PowDB.Query
