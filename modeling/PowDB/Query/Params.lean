import PowDB.Query.ParseStatement

/-! The literals of PowQL as the parser reads them, and parameters bound in their place
before parsing. -/
namespace PowDB.Syntax
open Query (Literal CastType PathSeg)

/-- An object key or an array index that fits 32 bits. -/
def pathSegmentOf : Literal → Except (ParseError Literal) PathSeg
  | .string s => .ok (.key s)
  | .int v =>
    if 0 ≤ v.toInt ∧ v.toInt < 2^32 then .ok (.index (UInt32.ofNat v.toInt.toNat))
    else .error (.invalid ("invalid JSON path array index "++toString v.toInt
      ++": expected a non-negative integer that fits in 32 bits"))
  | l => .error (.unexpectedToken "a JSON path segment (object key or array index) after '->'" (some (.lit l)))

def castTypeNamed : String → Option CastType
  | "int" | "Int" | "INT" => some .int
  | "float" | "Float" | "FLOAT" => some .float
  | "str" | "Str" | "STR" | "string" | "String" => some .str
  | "bool" | "Bool" | "BOOL" | "boolean" => some .bool
  | "datetime" | "DateTime" | "DATETIME" => some .dateTime
  | "uuid" | "Uuid" | "UUID" => some .uuid
  | "bytes" | "Bytes" | "BYTES" | "bytea" => some .bytes
  | _ => none

def castTypeOf : Literal → Except (ParseError Literal) CastType
  | .string s => match castTypeNamed s with
    | some t => .ok t
    | none => .error (.invalid ("invalid cast type: \""++s++"\""))
  | l => .error (.unexpectedToken "string literal for cast type" (some (.lit l)))

/-- The reader of PowQL, given which tokens have a text that reads back to them. -/
def reader (storable : List (Tok Literal) → Bool) : Reader Literal where
  pathSegment := pathSegmentOf
  castType := castTypeOf
  trueLiteral := .bool true
  storable := storable

inductive ParamValue
  | null
  | int (v : Int64)
  | float (bits : UInt64)
  | bool (b : Bool)
  | str (s : String)
  deriving DecidableEq

/-- The token of a bound value. -/
def ParamValue.token : ParamValue → Tok Literal
  | .null => .kw .null
  | .int v => .lit (.int v)
  | .float bits => .lit (.float bits)
  | .bool b => .lit (.bool b)
  | .str s => .lit (.string s)

/-- The number of a placeholder, if it is one that fits a machine word. -/
def placeholderNumber (name : String) : Option ℕ :=
  let n := name.toList.foldl (fun n c => 10*n+(c.toNat-48)) 0
  if name.toList ≠ [] ∧ name.toList.all Char.isDigit ∧ n < 2^64 then some n else none

variable {ℓ : Type}

/-- Put the token of its parameter in the place of a placeholder. -/
def bindToken (lit : Literal → ℓ) (params : List (Tok ℓ)) : Tok Literal → Except (ParseError ℓ) (Tok ℓ)
  | .param name => match placeholderNumber name with
    | none => .error (.invalid ("positional parameters must be numeric (`$1`, `$2`, …); got `$"++name++"`"))
    | some 0 => .error (.invalid "parameter placeholders are 1-based; `$0` is invalid")
    | some (n+1) => match params[n]? with
      | some t => .ok t
      | none => .error (.invalid ("query references $"++toString (n+1)++" but only "++toString params.length
          ++" parameter(s) were supplied"))
  | t => .ok (t.map lit)

/-- The parameters that placeholders name. -/
def referenced (ts : List (Tok Literal)) : List ℕ := ts.filterMap fun
  | .param name => (placeholderNumber name).map (·-1)
  | _ => none

/-- A parameter that no placeholder names is an error. -/
def checkUnused (supplied : ℕ) (used : List ℕ) : Except (ParseError ℓ) Unit :=
  let values := toString supplied++" parameter"++(if supplied = 1 then "" else "s")
  match (List.range supplied).find? (· ∉ used), (List.range supplied).reverse.find? (· ∈ used) with
  | none, _ => .ok ()
  | some _, none => .error (.invalid (values++" supplied but the query references none"))
  | some unused, some highest =>
    if highest < unused then
      .error (.invalid (values++" supplied but the query references only $"++toString (highest+1)))
    else .error (.invalid (values++" supplied but the query never references $"++toString (unused+1)))

/-- The tokens of a text with its parameters in place. -/
def bindTokens (lit : Literal → ℓ) (params : List (Tok ℓ)) (ts : List (Tok Literal)) :
    Except (ParseError ℓ) (List (Tok ℓ)) := do
  let bound ← ts.mapM (bindToken lit params)
  checkUnused params.length (referenced ts)
  pure bound

/-- The statement of some tokens, if they are one. -/
def statementOf (R : Reader ℓ) (ts : List (Tok ℓ)) : Except (ParseError ℓ) (Statement ℓ) :=
  (parseTokens R ts).out.map Prod.fst

def parseWithParams (storable : List (Tok Literal) → Bool) (ts : List (Tok Literal)) (params : List ParamValue) :
    Except (ParseError Literal) (Statement Literal) := do
  let bound ← bindTokens id (params.map ParamValue.token) ts
  statementOf (reader storable) bound

end PowDB.Syntax
