import PowDB.Storage.RowFormat

/-! The expressions of PowQL filters and the queries they nest. The clauses a
filter does not read, from the projection to the limit, are one value of a type
the development leaves open. -/
namespace PowDB.Query
open Storage (Value Bytes)

inductive Literal
  | int (v : Int64)
  | float (bits : UInt64)
  | string (s : String)
  | bool (b : Bool)
  deriving DecidableEq

inductive BinOp
  | eq | neq | lt | gt | lte | gte | and | or | add | sub | mul | div | like
  deriving DecidableEq

inductive UnaryOp
  | not | existsOp | notExists | isNull | isNotNull
  deriving DecidableEq

inductive ScalarFn
  | upper | lower | length | trim | substring | concat
  | abs | round | ceil | floor | sqrt | pow
  | now | extract | dateAdd | dateDiff
  | jsonType | jsonText
  deriving DecidableEq

inductive CastType
  | int | float | str | bool | dateTime | uuid | bytes
  deriving DecidableEq

/-- One step of a JSON path. -/
inductive PathSeg
  | key (k : String)
  | index (i : UInt32)
  deriving DecidableEq

/-- What stands before the dot of a qualified field. The planner marks the
references a subquery makes to a table of the query around it. -/
inductive Qualifier
  | named (name : String)
  | outer (name : String)
  deriving DecidableEq

mutual
/-- An expression. A case with several branches is a chain of single ones, and a
missing else is the null literal. -/
inductive Expr (τ : Type)
  | field (name : String)
  | qualifiedField (qualifier : Qualifier) (field : String)
  | literal (l : Literal)
  | param (name : String)
  | binaryOp (l : Expr τ) (op : BinOp) (r : Expr τ)
  | unaryOp (op : UnaryOp) (e : Expr τ)
  | functionCall (e : Expr τ)
  | scalarFunc (f : ScalarFn) (args : List (Expr τ))
  | coalesce (l r : Expr τ)
  | inList (e : Expr τ) (list : List (Expr τ)) (negated : Bool)
  | inSubquery (e : Expr τ) (subquery : QueryExpr τ) (negated : Bool)
  | existsSubquery (subquery : QueryExpr τ) (negated : Bool)
  | caseWhen (cond result rest : Expr τ)
  | cast (e : Expr τ) (target : CastType)
  | valueLit (v : Value)
  | null
  | jsonPath (base : Expr τ) (segments : List PathSeg)

/-- A query: its table, whether other tables are joined to it, its filter and
its other clauses. -/
inductive QueryExpr (τ : Type)
  | mk (source : String) (aliasName : Option String) (joined : Bool) (filter : Option (Expr τ))
      (tail : τ)
end

variable {τ : Type}

/-- The literal that stands for a value. -/
def valueToExpr : Value → Expr τ
  | .int v => .literal (.int v)
  | .float v => .literal (.float v)
  | .str v => .literal (.string v)
  | .bool v => .literal (.bool v)
  | .empty => .null
  | v => .valueLit v

end PowDB.Query
