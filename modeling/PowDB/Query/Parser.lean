import PowDB.Lib.Parsing
import PowDB.Query.Syntax

/-! The parser of PowQL, over any type of literals. The nesting depth left is an argument:
`level b` holds the functions that count against it, as they are with `b` levels left. -/
namespace PowDB.Syntax
open Query (BinOp UnaryOp ScalarFn CastType PathSeg)
open Lib (Parser)
open Lib.Parser (fail call look token taking loop)

/-- An error, with the token where its message names one. `expectedName` is shown as a
hint at quoting when the token is a reserved word. `noProgress` is never raised. -/
inductive ParseError (ℓ : Type)
  | expectedKeyword (k : Keyword) (got : Option (Tok ℓ))
  | unexpectedToken (expected : String) (got : Option (Tok ℓ))
  | unexpectedInExpression (got : Option (Tok ℓ))
  | expectedName (context : String) (got : Option (Tok ℓ))
  | trailingToken (got : Tok ℓ)
  | nestingDepthExceeded
  | unsupported (feature : String)
  | invalid (message : String)
  | noProgress

abbrev P (ℓ α : Type) : Type := Parser (ParseError ℓ) (Tok ℓ) α

/-- How a literal reads where the grammar takes one for something else than a value, the
literal `true`, and which tokens have a text that reads back to them. -/
structure Reader (ℓ : Type) where
  pathSegment : ℓ → Except (ParseError ℓ) PathSeg
  castType : ℓ → Except (ParseError ℓ) CastType
  trueLiteral : ℓ
  storable : List (Tok ℓ) → Bool

variable {ℓ : Type}

/-- A token without its literal, which is all that most of the parser looks at. -/
def Tok.shape : Tok ℓ → Tok Unit := Tok.map fun _ => ()

def peek : P ℓ (Option (Tok Unit)) := look fun ts => ts.head?.map Tok.shape

/-- The next three tokens. -/
def peekAhead : P ℓ (Option (Tok Unit) × Option (Tok Unit) × Option (Tok Unit)) :=
  look fun ts => (ts[0]?.map Tok.shape,ts[1]?.map Tok.shape,ts[2]?.map Tok.shape)

def skip : P ℓ Unit := token fun _ => .ok ()

/-- Fail with the next token. -/
def unexpected {α : Type} (expected : String) : P ℓ α := token fun t => .error (.unexpectedToken expected t)

def expect (k : Keyword) : P ℓ Unit := token fun
  | some (.kw k') => if k' = k then .ok () else .error (.expectedKeyword k (some (.kw k')))
  | t => .error (.expectedKeyword k t)

def expectIdent (expected : String) : P ℓ String := token fun
  | some (.ident n) => .ok n
  | t => .error (.unexpectedToken expected t)

def expectDotIdent (expected : String) : P ℓ String := token fun
  | some (.dotIdent n) => .ok n
  | t => .error (.unexpectedToken expected t)

def expectNamedIdent (context : String) : P ℓ String := token fun
  | some (.ident n) => .ok n
  | t => .error (.expectedName context t)

def expectLiteral (expected : String) : P ℓ ℓ := token fun
  | some (.lit l) => .ok l
  | t => .error (.unexpectedToken expected t)

/-- Take the token if it comes next, and say whether it did. -/
def accept (k : Keyword) : P ℓ Bool := do
  if (← peek) = some (.kw k) then do
    skip
    pure true
  else pure false

/-- Run `p` after the token if it comes next. -/
def optionally {α : Type} (k : Keyword) (p : P ℓ α) (absent : α) : P ℓ α := do
  if ← accept k then p else pure absent

def refuseRepeatedClause {α : Type} (slot : Option α) (what : String) : P ℓ Unit :=
  if slot.isSome then fail (.invalid (what++" appears more than once in one pipeline; each clause is written "
    ++"once, so combine them into one"))
  else pure ()

def parseOptionalIfNotExists : P ℓ Bool := do
  if (← peekAhead) = (some (.ident "if"),some (.kw .not),some (.kw .existsKw)) then do
    skip
    skip
    skip
    pure true
  else pure false

def parseOptionalIfExists : P ℓ Bool := do
  let (t₀,t₁,_) ← peekAhead
  if t₀ = some (.ident "if") ∧ t₁ = some (.kw .existsKw) then do
    skip
    skip
    pure true
  else pure false

/-- An optional `as` with a name; `as` is taken even if no name follows. -/
def tryParseAlias : P ℓ (Option String) := call do
  if ← accept .as then
    match ← peek with
    | some (.ident n) => do
      skip
      pure (some n)
    | _ => pure none
  else pure none

/-! Output names of group keys. -/

def identityEscape (c : Char) : String :=
  if c = '"' then "\\\"" else if c = '\\' then "\\\\" else if c = '\n' then "\\n"
  else if c = '\r' then "\\r" else if c = '\t' then "\\t"
  else if c.toNat ≤ 0x1f then "\\u"++String.ofList ((Nat.toDigits 16 (c.toNat+0x10000)).drop 1)
  else c.toString

def segmentText : PathSeg → String
  | .key k => "->\""++String.join (k.toList.map identityEscape)++"\""
  | .index i => "->"++toString i.toNat

def expressionOutputName : Expr ℓ → String
  | .field n => n
  | .qualifiedField q n => q++"."++n
  | .jsonPath (.field n) ss => "v1:."++n++String.join (ss.map segmentText)
  | .jsonPath (.qualifiedField q n) ss => "v1:"++q++"."++n++String.join (ss.map segmentText)
  | _ => "?"

def groupOutputName (count : ℕ) : Expr ℓ → String
  | .field n => expressionOutputName (.field n : Expr ℓ)
  | .qualifiedField q n => expressionOutputName (.qualifiedField q n : Expr ℓ)
  | .jsonPath b ss => expressionOutputName (.jsonPath b ss)
  | _ => "__group_"++toString count

namespace Expr

mutual
/-- Put the projection's expressions in the place of its aliases. -/
def substituteProjectionAliases (fields : List (ProjectionField (Expr ℓ))) : Expr ℓ → Expr ℓ
  | .field n => match fields.find? (fun k => k.aliasName = some n) with
    | some k => k.expr
    | none => .field n
  | .binaryOp l op r => .binaryOp (l.substituteProjectionAliases fields) op (r.substituteProjectionAliases fields)
  | .unaryOp op e => .unaryOp op (e.substituteProjectionAliases fields)
  | .coalesce l r => .coalesce (l.substituteProjectionAliases fields) (r.substituteProjectionAliases fields)
  | .inList e es b => .inList (e.substituteProjectionAliases fields) (substituteAll fields es) b
  | .scalarFunc f args => .scalarFunc f (substituteAll fields args)
  | e => e

def substituteAll (fields : List (ProjectionField (Expr ℓ))) : List (Expr ℓ) → List (Expr ℓ)
  | [] => []
  | e::es => e.substituteProjectionAliases fields::substituteAll fields es
end

mutual
/-- Qualify the bare fields of a link traversal with the link's name. -/
def qualifyBareFields (name : String) : Expr ℓ → Expr ℓ
  | .field n => .qualifiedField name n
  | .binaryOp l op r => .binaryOp (l.qualifyBareFields name) op (r.qualifyBareFields name)
  | .unaryOp op e => .unaryOp op (e.qualifyBareFields name)
  | .coalesce l r => .coalesce (l.qualifyBareFields name) (r.qualifyBareFields name)
  | .cast e t => .cast (e.qualifyBareFields name) t
  | .scalarFunc f args => .scalarFunc f (qualifyAll name args)
  | .inList e es b => .inList (e.qualifyBareFields name) (qualifyAll name es) b
  | .case ws e => .case (qualifyWhens name ws) (qualifyOption name e)
  | .jsonPath b ss => .jsonPath (b.qualifyBareFields name) ss
  | e => e

def qualifyAll (name : String) : List (Expr ℓ) → List (Expr ℓ)
  | [] => []
  | e::es => e.qualifyBareFields name::qualifyAll name es

def qualifyOption (name : String) : Option (Expr ℓ) → Option (Expr ℓ)
  | none => none
  | some e => some (e.qualifyBareFields name)

def qualifyPair (name : String) : Expr ℓ × Expr ℓ → Expr ℓ × Expr ℓ
  | (c,r) => (c.qualifyBareFields name,r.qualifyBareFields name)

def qualifyWhens (name : String) : List (Expr ℓ × Expr ℓ) → List (Expr ℓ × Expr ℓ)
  | [] => []
  | w::ws => qualifyPair name w::qualifyWhens name ws
end

end Expr

/-- The functions that count against the nesting depth, and how much of it is left. -/
structure Level (ℓ : Type) where
  budget : ℕ
  expr : P ℓ (Expr ℓ)
  primary : P ℓ (Expr ℓ)
  nested : P ℓ (NestedQuery (Expr ℓ))
  link : P ℓ (NestedQuery (Expr ℓ))

section body
variable (R : Reader ℓ) (L : Level ℓ)

/-- Guard for a loop that stacks `chain` levels on the tree. -/
def checkChainDepth (chain : ℕ) : P ℓ Unit :=
  if L.budget < chain then fail .nestingDepthExceeded else pure ()

/-- What an operator of a chain makes of its operands. -/
def combine (op : Option BinOp) (l r : Expr ℓ) : Expr ℓ :=
  match op with
  | some op => .binaryOp l op r
  | none => .coalesce l r

/-- A chain of operators to the left. -/
def parseChain (ops : Tok Unit → Option (Option BinOp)) (operand : P ℓ (Expr ℓ)) : P ℓ (Expr ℓ) := do
  let left ← operand
  loop .noProgress (fun (s : ℕ × Expr ℓ) => do
    match (← peek).bind ops with
    | none => pure (.inr s.2)
    | some op => do
      checkChainDepth L (s.1+1)
      skip
      let right ← operand
      pure (.inl (s.1+1,combine op s.2 right))) (0,left)

def multiplicativeOp : Tok Unit → Option (Option BinOp)
  | .kw .star => some (some .mul)
  | .kw .slash => some (some .div)
  | _ => none

def parseMultiplicative : P ℓ (Expr ℓ) := call (parseChain L multiplicativeOp L.primary)

def additiveOp : Tok Unit → Option (Option BinOp)
  | .kw .plus => some (some .add)
  | .kw .minus => some (some .sub)
  | .kw .coalesce => some none
  | _ => none

def parseAdditive : P ℓ (Expr ℓ) := call (parseChain L additiveOp (parseMultiplicative L))

/-- Expressions up to a closing token, with or without commas between them. -/
def parseExprList (close : Keyword) : P ℓ (List (Expr ℓ)) :=
  loop .noProgress (fun es => do
    match ← peek with
    | none => pure (.inr es)
    | some t =>
      if t = .kw close then pure (.inr es)
      else do
        let e ← L.expr
        let _ ← accept .comma
        pure (.inl (es++[e]))) []

/-- An optional `asc` or `desc`: whether the order is descending. -/
def parseDirection : P ℓ Bool := do
  if ← accept .desc then pure true
  else do
    let _ ← accept .asc
    pure false

/-- Sort keys, separated by commas. -/
def parseOrderKeys : P ℓ (List (OrderKey (Expr ℓ))) :=
  loop .noProgress (fun ks => do
    let e ← L.expr
    let descending ← parseDirection
    if ← accept .comma then pure (.inl (ks++[⟨e,descending⟩]))
    else pure (.inr (ks++[⟨e,descending⟩]))) []

def parseOrder : P ℓ (List (OrderKey (Expr ℓ))) := call (parseOrderKeys L)

/-- Partition keys; a comma before `order` or the closing parenthesis is left alone. -/
def parsePartitionKeys : P ℓ (List (Expr ℓ)) :=
  loop .noProgress (fun es => do
    let e ← L.expr
    let (t₀,t₁,_) ← peekAhead
    if t₀ = some (.kw .comma) ∧ t₁ ≠ some (.kw .order) ∧ t₁ ≠ some (.kw .rParen) then do
      skip
      pure (.inl (es++[e]))
    else pure (.inr (es++[e]))) []

def parseOverClause : P ℓ (List (Expr ℓ) × List (OrderKey (Expr ℓ))) := call do
  expect .overKw
  expect .lParen
  let partitionBy ← optionally .partition (parsePartitionKeys L) []
  let orderBy ← optionally .order (parseOrderKeys L) []
  expect .rParen
  pure (partitionBy,orderBy)

/-- An expression that may be absent. -/
def parseSomeExpr : P ℓ (Option (Expr ℓ)) := do
  let e ← L.expr
  pure (some e)

/-- Group keys with their output names. -/
def parseGroupKeys : P ℓ (List (GroupKey (Expr ℓ))) :=
  loop .noProgress (fun ks => do
    let e ← L.expr
    if ← accept .comma then pure (.inl (ks++[⟨e,groupOutputName ks.length e⟩]))
    else pure (.inr (ks++[⟨e,groupOutputName ks.length e⟩]))) []

def parseGroupBy : P ℓ (GroupByClause (Expr ℓ)) := call do
  let keys ← parseGroupKeys L
  let having ← optionally .having (parseSomeExpr L) none
  pure ⟨keys,having⟩

/-- The words that open a join. -/
def parseJoinKind : P ℓ (Option JoinKind) := do
  match ← peek with
  | some (.kw .join) => do
    skip
    pure (some .inner)
  | some (.kw .inner) => do
    skip
    expect .join
    pure (some .inner)
  | some (.kw .leftKw) => do
    skip
    let _ ← accept .outer
    expect .join
    pure (some .leftOuter)
  | some (.kw .rightKw) => do
    skip
    let _ ← accept .outer
    expect .join
    pure (some .rightOuter)
  | some (.kw .cross) => do
    skip
    expect .join
    pure (some .cross)
  | _ => pure none

def parseJoinTail (kind : JoinKind) : P ℓ (JoinClause (Expr ℓ)) := do
  let source ← expectIdent "type name after join"
  let aliasName ← tryParseAlias
  if kind = .cross then pure ⟨kind,source,aliasName,none⟩
  else if ← accept .on then do
    let e ← L.expr
    pure ⟨kind,source,aliasName,some e⟩
  else fail (.invalid ("expected `on <expr>` after join "++source))

def parseJoins : P ℓ (List (JoinClause (Expr ℓ))) := call
  (loop .noProgress (fun js => do
    match ← parseJoinKind with
    | none => pure (.inr js)
    | some kind => do
      let j ← parseJoinTail L kind
      pure (.inl (js++[j]))) [])

/-- Two dotted parts side by side are refused in a projection. -/
def rejectBareDottedPath : P ℓ Unit := do
  match ← peekAhead with
  | (some (.dotIdent first),some (.dotIdent second),_) =>
    fail (.invalid ("`."++first++"."++second++"` is ambiguous in a projection: for a link path, alias the table "
      ++"and qualify the path; for separate fields, separate them with commas"))
  | _ => pure ()

def isIdent : Option (Tok Unit) → Bool
  | some (.ident _) => true
  | _ => false

def isDotIdent : Option (Tok Unit) → Bool
  | some (.dotIdent _) => true
  | _ => false

def opensLinkBlock : Option (Tok Unit) → Bool
  | some (.kw .lBrace) | some (.kw .filter) | some (.kw .order) | some (.kw .limit) | some (.kw .offset) => true
  | _ => false

/-- Dotted parts, as many as there are. -/
def parseDottedParts : P ℓ (List String) :=
  loop .noProgress (fun ps => do
    match ← peek with
    | some (.dotIdent n) => do
      skip
      pure (.inl (ps++[n]))
    | _ => pure (.inr ps)) []

def parseScalarLinkPath : P ℓ (Expr ℓ) := call do
  let outerAlias ← expectNamedIdent "link path outer alias"
  let parts ← parseDottedParts
  pure (.linkPath outerAlias parts.dropLast (parts.getLastD ""))

/-- The value of a projection slot that has an alias. -/
def parseAliasedSlot : P ℓ (Expr ℓ) := do
  rejectBareDottedPath
  let (t₀,t₁,t₂) ← peekAhead
  if isIdent t₀ ∧ t₁ = some (.kw .as) then do
    let q ← L.nested
    pure (.nestedQuery q)
  else if isIdent t₀ ∧ isDotIdent t₁ ∧ opensLinkBlock t₂ then do
    let q ← L.link
    pure (.nestedQuery q)
  else if isIdent t₀ ∧ isDotIdent t₁ ∧ isDotIdent t₂ then parseScalarLinkPath
  else L.expr

/-- The value of a projection slot without an alias. -/
def parseBareSlot : P ℓ (Expr ℓ) := do
  rejectBareDottedPath
  let (t₀,t₁,t₂) ← peekAhead
  if isIdent t₀ ∧ isDotIdent t₁ ∧ isDotIdent t₂ then parseScalarLinkPath else L.expr

/-- One slot of a block after another, up to the closing brace. -/
def parseSlots {κ : Type} (slot : P ℓ κ) : P ℓ (List κ) := do
  expect .lBrace
  let ks ← loop .noProgress (fun ks => do
    match ← peek with
    | none => pure (.inr ks)
    | some t =>
      if t = .kw .rBrace then pure (.inr ks)
      else do
        let k ← slot
        let _ ← accept .comma
        pure (.inl (ks++[k]))) []
  expect .rBrace
  pure ks

/-- An alias with its colon, if a slot starts with one. -/
def parseSlotAlias : P ℓ (Option String) := do
  let (t₀,t₁,_) ← peekAhead
  if isIdent t₀ ∧ t₁ = some (.kw .colon) then do
    let n ← expectNamedIdent "field alias"
    skip
    pure (some n)
  else pure none

def needsFieldName : ParseError ℓ :=
  .invalid "a nested projection needs a field name: `<name>: <Table> as <alias> filter ... \x7b ... \x7d`"

def parseProjection : P ℓ (List (ProjectionField (Expr ℓ))) := call
  (parseSlots do
    match ← parseSlotAlias with
    | some n => do
      let e ← parseAliasedSlot L
      pure ⟨some n,e⟩
    | none => do
      let (t₀,t₁,_) ← peekAhead
      if isIdent t₀ ∧ t₁ = some (.kw .as) then fail needsFieldName
      else do
        let e ← parseBareSlot L
        pure ⟨none,e⟩)

/-- A read pipeline as far as it has been read, and how many times `having` was repeated. -/
structure Pipeline (ℓ : Type) where
  query : QueryExpr (Expr ℓ)
  havingChain : ℕ

def Pipeline.start (source : String) (aliasName : Option String) (joins : List (JoinClause (Expr ℓ))) :
    Pipeline ℓ :=
  ⟨⟨source,aliasName,joins,none,none,none,none,none,none,false,none⟩,0⟩

def Pipeline.setHaving (p : Pipeline ℓ) (keys : List (GroupKey (Expr ℓ))) (e : Expr ℓ) (chain : ℕ) : Pipeline ℓ :=
  ⟨{p.query with groupBy := some ⟨keys,some e⟩},chain⟩

/-- The expression of a `having`, with the aliases of the projection replaced. -/
def havingExpr (projection : Option (List (ProjectionField (Expr ℓ)))) (e : Expr ℓ) : Expr ℓ :=
  match projection with
  | some fields => e.substituteProjectionAliases fields
  | none => e

/-- A `having` of its own; repeats are joined by `and`. -/
def parseHaving (p : Pipeline ℓ) : P ℓ (Pipeline ℓ) := do
  let e ← L.expr
  match p.query.groupBy with
  | none => fail (.invalid "having without group by")
  | some ⟨keys,none⟩ => pure (p.setHaving keys (havingExpr p.query.projection e) p.havingChain)
  | some ⟨keys,some existing⟩ => do
    checkChainDepth L (p.havingChain+1)
    pure (p.setHaving keys (.binaryOp existing .and (havingExpr p.query.projection e)) (p.havingChain+1))

/-- One clause of a read pipeline, if one comes next. -/
def parseClause (p : Pipeline ℓ) : P ℓ (Option (Pipeline ℓ)) := do
  match ← peek with
  | some (.kw .distinct) => do
    skip
    pure (some {p with query := {p.query with distinct := true}})
  | some (.kw .group) => do
    refuseRepeatedClause p.query.groupBy "'group'"
    skip
    let g ← parseGroupBy L
    pure (some {p with query := {p.query with groupBy := some g}})
  | some (.kw .filter) => do
    refuseRepeatedClause p.query.filter "'filter'"
    skip
    let e ← L.expr
    pure (some {p with query := {p.query with filter := some e}})
  | some (.kw .order) => do
    refuseRepeatedClause p.query.order "'order'"
    skip
    let ks ← parseOrder L
    pure (some {p with query := {p.query with order := some ks}})
  | some (.kw .limit) => do
    refuseRepeatedClause p.query.limit "'limit'"
    skip
    let e ← L.expr
    pure (some {p with query := {p.query with limit := some e}})
  | some (.kw .offset) => do
    refuseRepeatedClause p.query.offset "'offset'"
    skip
    let e ← L.expr
    pure (some {p with query := {p.query with offset := some e}})
  | some (.kw .lBrace) => do
    refuseRepeatedClause p.query.projection "a projection"
    let ks ← parseProjection L
    pure (some {p with query := {p.query with projection := some ks}})
  | some (.kw .having) => do
    skip
    let p ← parseHaving L p
    pure (some p)
  | _ => pure none

/-- The clauses of a read pipeline, in any order. -/
def parseClauses (p : Pipeline ℓ) : P ℓ (QueryExpr (Expr ℓ)) :=
  loop .noProgress (fun p => do
    match ← parseClause L p with
    | some p => pure (.inl p)
    | none => pure (.inr p.query)) p

def parseQueryTail (source : String) : P ℓ (QueryExpr (Expr ℓ)) := call do
  let aliasName ← tryParseAlias
  let joins ← parseJoins L
  parseClauses L (Pipeline.start source aliasName joins)

/-- A subquery in parentheses, its source name read. -/
def parseSubquery : P ℓ (QueryExpr (Expr ℓ)) := do
  let source ← expectIdent "type name"
  let q ← parseQueryTail L source
  expect .rParen
  pure q

def parseInList (e : Expr ℓ) (negated : Bool) : P ℓ (Expr ℓ) := call do
  expect .lParen
  let (t₀,t₁,_) ← peekAhead
  if isIdent t₀ ∧ t₁ ≠ some (.kw .comma) ∧ t₁ ≠ some (.kw .rParen) then do
    let q ← parseSubquery L
    pure (.inSubquery e q negated)
  else do
    let es ← parseExprList L .rParen
    expect .rParen
    pure (.inList e es negated)

def tryParseExistsSubquery : P ℓ (Option (QueryExpr (Expr ℓ))) := call do
  let (t₀,t₁,_) ← peekAhead
  if t₀ = some (.kw .lParen) ∧ isIdent t₁ then do
    expect .lParen
    let q ← parseSubquery L
    pure (some q)
  else pure none

def parseBetween (e : Expr ℓ) (negated : Bool) : P ℓ (Expr ℓ) := call do
  let low ← parseAdditive L
  expect .and
  let high ← parseAdditive L
  if negated then pure (.binaryOp (.binaryOp e .lt low) .or (.binaryOp e .gt high))
  else pure (.binaryOp (.binaryOp e .gte low) .and (.binaryOp e .lte high))

def comparisonOp : Tok Unit → Option BinOp
  | .kw .eq => some .eq
  | .kw .neq => some .neq
  | .kw .lt => some .lt
  | .kw .gt => some .gt
  | .kw .lte => some .lte
  | .kw .gte => some .gte
  | _ => none

/-- The comparison with `null` that stands for a test. -/
def nullTest : BinOp → Option UnaryOp
  | .eq => some .isNull
  | .neq => some .isNotNull
  | _ => none

/-- A comparison after its left side, if there is one. -/
def parseComparisonRest (left : Expr ℓ) : P ℓ (Expr ℓ) := do
  match (← peek).bind comparisonOp with
  | none => pure left
  | some op => do
    skip
    match nullTest op, decide ((← peek) = some (.kw .null)) with
    | some test, true => do
      skip
      pure (.unaryOp test left)
    | _, _ => do
      let right ← parseAdditive L
      pure (.binaryOp left op right)

def parseComparisonBody : P ℓ (Expr ℓ) := call do
  let left ← parseAdditive L
  let (t₀,t₁,_) ← peekAhead
  match t₀, t₁ with
  | some (.kw .is), _ => do
    skip
    let negated ← accept .not
    expect .null
    pure (.unaryOp (if negated then .isNotNull else .isNull) left)
  | some (.kw .inKw), _ => do
    skip
    parseInList L left false
  | some (.kw .like), _ => do
    skip
    let pattern ← parseAdditive L
    pure (.binaryOp left .like pattern)
  | some (.kw .between), _ => do
    skip
    parseBetween L left false
  | some (.kw .not), some (.kw .inKw) => do
    skip
    skip
    parseInList L left true
  | some (.kw .not), some (.kw .like) => do
    skip
    skip
    let pattern ← parseAdditive L
    pure (.unaryOp .not (.binaryOp left .like pattern))
  | some (.kw .not), some (.kw .between) => do
    skip
    skip
    parseBetween L left true
  | _, _ => parseComparisonRest L left

/-- The `not`s in front of a comparison. -/
def parseNegations : P ℓ ℕ :=
  loop .noProgress (fun k => do
    let (t₀,t₁,_) ← peekAhead
    if t₀ = some (.kw .not) ∧ t₁ ≠ some (.kw .existsKw) then do
      skip
      checkChainDepth L (k+1)
      pure (.inl (k+1))
    else pure (.inr k)) 0

/-- So many `not`s around an expression. -/
def negate : ℕ → Expr ℓ → Expr ℓ
  | 0, e => e
  | k+1, e => .unaryOp .not (negate k e)

def parseComparison : P ℓ (Expr ℓ) := call do
  let k ← parseNegations L
  let e ← parseComparisonBody L
  pure (negate k e)

def andOp : Tok Unit → Option (Option BinOp)
  | .kw .and => some (some .and)
  | _ => none

def parseAndExpr : P ℓ (Expr ℓ) := call (parseChain L andOp (parseComparison L))

def orOp : Tok Unit → Option (Option BinOp)
  | .kw .or => some (some .or)
  | _ => none

def parseOrExpr : P ℓ (Expr ℓ) := call (parseChain L orOp (parseAndExpr L))

def parsePathSegment : P ℓ PathSeg := token fun
  | some (.ident n) => .ok (.key n)
  | some (.lit l) => R.pathSegment l
  | t => .error (.unexpectedToken "a JSON path segment (object key or array index) after '->'" t)

def parsePathSegments : P ℓ (List PathSeg) :=
  loop .noProgress (fun ss => do
    if ← accept .arrow then do
      let s ← parsePathSegment R
      pure (.inl (ss++[s]))
    else pure (.inr ss)) []

def isPathBase : Expr ℓ → Bool
  | .field _ => true
  | .qualifiedField _ _ => true
  | .jsonPath _ _ => true
  | _ => false

/-- A path over a base; a path over a path is one path. -/
def extendPath (segments : List PathSeg) : Expr ℓ → Expr ℓ
  | .jsonPath base inner => .jsonPath base (inner++segments)
  | base => .jsonPath base segments

def parseJsonPathPostfix (base : Expr ℓ) : P ℓ (Expr ℓ) := call do
  if (← peek) = some (.kw .arrow) then
    if isPathBase base then do
      let segments ← parsePathSegments R
      pure (extendPath segments base)
    else fail (.invalid "'->' JSON path access requires a field base (e.g. .data->key or posts.data->author)")
  else pure base

def parseCastType : P ℓ CastType := call (token fun
  | some (.lit l) => R.castType l
  | t => .error (.unexpectedToken "string literal for cast type" t))

def linkTraversalOutsideProjection (path : String) : ParseError ℓ :=
  .invalid ("link traversal '"++path++"' is only supported in a projection; `filter`, `order` and `group` cannot "
    ++"traverse a link, so join the target type and use its own columns")

def parseField : P ℓ (Expr ℓ) := do
  let n ← expectDotIdent "field"
  match ← peek with
  | some (.dotIdent next) => fail (linkTraversalOutsideProjection ("."++n++"."++next))
  | _ => pure (.field n)

/-- An expression in parentheses. -/
def parseParenthesized : P ℓ (Expr ℓ) := do
  expect .lParen
  let e ← L.expr
  expect .rParen
  pure e

def castSugar : String → Option CastType
  | "uuid" => some .uuid
  | "bytes" => some .bytes
  | _ => none

/-- A name: a cast, a qualified field or a field. -/
def parseNamed : P ℓ (Expr ℓ) := do
  let n ← expectIdent "identifier"
  match ← peek with
  | some (.kw .lParen) =>
    match castSugar n with
    | some target => do
      let e ← parseParenthesized L
      pure (.cast e target)
    | none => fail (.invalid ("unknown function '"++n++"'"))
  | some (.dotIdent field) => do
    skip
    match ← peek with
    | some (.dotIdent next) => fail (linkTraversalOutsideProjection (n++"."++field++"."++next))
    | _ => pure (.qualifiedField n field)
  | _ => pure (.field n)

def parseWindow (f : WindowFunc) : P ℓ (Expr ℓ) := do
  skip
  expect .lParen
  expect .rParen
  let (partitionBy,orderBy) ← parseOverClause L
  pure (.window f [] .symmetric partitionBy orderBy)

def windowOf : AggFunc → Option WindowFunc
  | .count => some .count
  | .avg => some .avg
  | .sum => some .sum
  | .min => some .min
  | .max => some .max
  | .countDistinct => none

def parseAggregateMode : P ℓ AggregateMode := do
  if ← accept .raw then pure .raw else pure .symmetric

/-- An aggregate over its argument, or a window function if `over` follows. -/
def parseAggregateOver (f : AggFunc) (e : Expr ℓ) (mode : AggregateMode) : P ℓ (Expr ℓ) := do
  if (← peek) = some (.kw .overKw) then
    match windowOf f with
    | some w => do
      let (partitionBy,orderBy) ← parseOverClause L
      pure (.window w [e] mode partitionBy orderBy)
    | none => fail (.unsupported "count(distinct ...) over (...) is not supported")
  else pure (.functionCall f e mode)

/-- Only `count` may be told to count distinct values. -/
def parseDistinct (f : AggFunc) : P ℓ AggFunc := do
  if f = .count then
    if ← accept .distinct then pure .countDistinct else pure f
  else pure f

def parseAggregateCall (f : AggFunc) : P ℓ (Expr ℓ) := do
  skip
  expect .lParen
  let mode ← parseAggregateMode
  let next ← peek
  if f = .count ∧ next = some (.kw .star) then do
    skip
    expect .rParen
    parseAggregateOver L .count (.field "*") mode
  else do
    let f ← parseDistinct f
    let e ← L.expr
    expect .rParen
    parseAggregateOver L f e mode

def parseScalarCall (f : ScalarFn) : P ℓ (Expr ℓ) := do
  skip
  expect .lParen
  let args ← parseExprList L .rParen
  expect .rParen
  pure (.scalarFunc f args)

def parseCast : P ℓ (Expr ℓ) := do
  skip
  expect .lParen
  let e ← L.expr
  expect .comma
  let target ← parseCastType R
  expect .rParen
  pure (.cast e target)

def parseWhens : P ℓ (List (Expr ℓ × Expr ℓ)) :=
  loop .noProgress (fun ws => do
    if ← accept .when then do
      let c ← L.expr
      expect .thenKw
      let r ← L.expr
      pure (.inl (ws++[(c,r)]))
    else pure (.inr ws)) []

def parseCase : P ℓ (Expr ℓ) := do
  skip
  let whens ← parseWhens L
  let elseExpr ← optionally .elseKw (parseSomeExpr L) none
  expect .endKw
  pure (.case whens elseExpr)

/-- `exists` or `not exists` before a subquery, or before a scalar. -/
def parseExists (negated : Bool) : P ℓ (Expr ℓ) := do
  skip
  match ← tryParseExistsSubquery L with
  | some q => pure (.existsSubquery q negated)
  | none => do
    let e ← L.primary
    pure (.unaryOp (if negated then .notExists else .existsOp) e)

def parseNot : P ℓ (Expr ℓ) := do
  skip
  if (← peek) = some (.kw .existsKw) then parseExists L true
  else do
    let e ← L.primary
    pure (.unaryOp .not e)

def rankingOf : Keyword → Option WindowFunc
  | .rowNumber => some .rowNumber
  | .rank => some .rank
  | .denseRank => some .denseRank
  | _ => none

def aggregateOf : Keyword → Option AggFunc
  | .count => some .count
  | .avg => some .avg
  | .sum => some .sum
  | .min => some .min
  | .max => some .max
  | _ => none

def tokenToScalarFn : Keyword → Option ScalarFn
  | .upper => some .upper
  | .lower => some .lower
  | .length => some .length
  | .trim => some .trim
  | .substring => some .substring
  | .concat => some .concat
  | .abs => some .abs
  | .round => some .round
  | .ceil => some .ceil
  | .floor => some .floor
  | .sqrt => some .sqrt
  | .pow => some .pow
  | .now => some .now
  | .extract => some .extract
  | .dateAdd => some .dateAdd
  | .dateDiff => some .dateDiff
  | .jsonType => some .jsonType
  | .jsonText => some .jsonText
  | _ => none

/-- The functions that are called by a keyword. -/
def parseFunctionCall (k : Keyword) : P ℓ (Expr ℓ) :=
  match rankingOf k, aggregateOf k, tokenToScalarFn k with
  | some w, _, _ => parseWindow L w
  | none, some f, _ => parseAggregateCall L f
  | none, none, some f => parseScalarCall L f
  | none, none, none => fail (.unexpectedInExpression (some (.kw k)))

/-- The keywords that open an expression. -/
def parseKeyword (k : Keyword) : P ℓ (Expr ℓ) :=
  match k with
  | .null => do
    skip
    pure .null
  | .not => parseNot L
  | .existsKw => parseExists L false
  | .lParen => parseParenthesized L
  | .cast => parseCast R L
  | .case => parseCase L
  | k => parseFunctionCall L k

def parsePrimaryInner : P ℓ (Expr ℓ) := call do
  match ← peek with
  | some (.dotIdent _) => parseField
  | some (.lit _) => do
    let l ← expectLiteral "literal"
    pure (.literal l)
  | some (.ident _) => parseNamed L
  | some (.kw k) => parseKeyword R L k
  | some (.param n) => fail (.unexpectedInExpression (some (.param n)))
  | none => fail (.unexpectedInExpression none)

/-- The clauses of a nested block that may come before its fields. -/
structure Block (ℓ : Type) where
  order : Option (List (OrderKey (Expr ℓ)))
  limit : Option (Expr ℓ)
  offset : Option (Expr ℓ)
  offsetBeforeLimit : Bool

/-- Those clauses, with the sort keys rewritten by `rewrite`. -/
def parseBlock (rewrite : Expr ℓ → Expr ℓ) : P ℓ (Block ℓ) :=
  loop .noProgress (fun (b : Block ℓ) => do
    match ← peek with
    | some (.kw .order) => do
      refuseRepeatedClause b.order "'order'"
      skip
      let ks ← parseOrder L
      pure (.inl {b with order := some (ks.map (OrderKey.map rewrite))})
    | some (.kw .limit) => do
      refuseRepeatedClause b.limit "'limit'"
      skip
      let e ← L.expr
      pure (.inl {b with limit := some e, offsetBeforeLimit := b.offsetBeforeLimit || b.offset.isSome})
    | some (.kw .offset) => do
      refuseRepeatedClause b.offset "'offset'"
      skip
      let e ← L.expr
      pure (.inl {b with offset := some e})
    | _ => pure (.inr b)) ⟨none,none,none,false⟩

def parseNestedSlot : P ℓ (ProjectionField (Expr ℓ)) := do
  let aliasName ← parseSlotAlias
  let (t₀,t₁,_) ← peekAhead
  if isIdent t₀ ∧ t₁ = some (.kw .as) then
    if aliasName.isNone then fail needsFieldName
    else do
      let q ← L.nested
      pure ⟨aliasName,.nestedQuery q⟩
  else do
    rejectBareDottedPath
    let e ← L.expr
    pure ⟨aliasName,e⟩

def parseNestedQueryInner : P ℓ (NestedQuery (Expr ℓ)) := call do
  let source ← expectNamedIdent "nested source type"
  expect .as
  let aliasName ← expectNamedIdent "nested source alias"
  expect .filter
  let filter ← L.expr
  let b ← parseBlock L id
  let fields ← parseSlots (parseNestedSlot L)
  if fields.isEmpty then fail (.invalid "nested projection requires at least one field")
  else pure ⟨source,aliasName,none,filter,b.order,b.limit,b.offset,b.offsetBeforeLimit,fields⟩

/-- The filter of a link traversal; without one, the literal that is true. -/
def parseResidual (link : String) : P ℓ (Expr ℓ) := do
  if ← accept .filter then do
    let e ← L.expr
    pure (e.qualifyBareFields link)
  else pure (.literal R.trueLiteral)

def parseLinkSlot (link : String) : P ℓ (ProjectionField (Expr ℓ)) := do
  let aliasName ← parseSlotAlias
  rejectBareDottedPath
  let e ← L.expr
  pure ⟨aliasName,e.qualifyBareFields link⟩

def parseLinkTraversalInner : P ℓ (NestedQuery (Expr ℓ)) := call do
  let outerAlias ← expectNamedIdent "link outer alias"
  let link ← expectDotIdent "link name"
  let filter ← parseResidual R L link
  let b ← parseBlock L (Expr.qualifyBareFields link)
  let fields ← parseSlots (parseLinkSlot L link)
  if fields.isEmpty then fail (.invalid "link traversal requires at least one field")
  else pure ⟨"",link,some ⟨outerAlias,link⟩,filter,b.order,b.limit,b.offset,b.offsetBeforeLimit,fields⟩

end body

/-- The functions with so many levels of nesting left. -/
def level (R : Reader ℓ) : ℕ → Level ℓ
  | 0 =>
    { budget := 0
      expr := call (fail .nestingDepthExceeded)
      primary := call (fail .nestingDepthExceeded)
      nested := call (fail .nestingDepthExceeded)
      link := call (fail .nestingDepthExceeded) }
  | b+1 =>
    { budget := b+1
      expr := call (parseOrExpr (level R b))
      primary := call do
        let e ← parsePrimaryInner R (level R b)
        parseJsonPathPostfix R e
      nested := call (parseNestedQueryInner (level R b))
      link := call (parseLinkTraversalInner R (level R b)) }

end PowDB.Syntax
