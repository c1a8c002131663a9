import PowDB.Query.Parser

/-! Statements, and the parser as a whole: a statement with every token taken. -/
namespace PowDB.Syntax
open Query (BinOp PathSeg)
open Lib.Parser (fail call look token taking loop mapError)
variable {ℓ : Type}

/-- The most levels a statement may nest. -/
def maxNestingDepth : ℕ := 64

section body
variable (R : Reader ℓ) (L : Level ℓ)

/-- One assignment of a block; a JSON path has no place on its left. -/
def parseAssignment : P ℓ (Assignment (Expr ℓ)) := do
  match ← peekAhead with
  | (some (.dotIdent n),some (.kw .arrow),_) | (some (.ident n),some (.kw .arrow),_) =>
    fail (.unsupported ("cannot assign to a JSON path target `."++n++"->...`: JSON path assignment targets are not "
      ++"supported; write the whole JSON column instead (path mutation such as json_set is not yet available)"))
  | _ => do
    let field ← expectNamedIdent "field name"
    expect .assign
    let value ← L.expr
    pure ⟨field,value⟩

def parseAssignments : P ℓ (List (Assignment (Expr ℓ))) := call (parseSlots (parseAssignment L))

/-- More rows of an insert, each after a comma. -/
def parseRows (rows : List (List (Assignment (Expr ℓ)))) : P ℓ (List (List (Assignment (Expr ℓ)))) :=
  loop .noProgress (fun rows => do
    if ← accept .comma then do
      let row ← parseAssignments L
      pure (.inl (rows++[row]))
    else pure (.inr rows)) rows

def parseInsert : P ℓ (Statement ℓ) := call do
  expect .insert
  let target ← expectIdent "type name"
  let first ← parseAssignments L
  let rows ← parseRows L [first]
  let returning ← accept .returning
  pure (.insert target rows returning)

def parseConflict : P ℓ (List (Assignment (Expr ℓ))) := do
  expect .conflict
  parseAssignments L

def parseUpsert : P ℓ (Statement ℓ) := call do
  expect .upsert
  let target ← expectIdent "type name"
  expect .on
  let keyColumn ← expectDotIdent ".key_column"
  let assignments ← parseAssignments L
  let onConflict ← optionally .on (parseConflict L) []
  pure (.upsert target keyColumn assignments onConflict)

/-- What may end a pipeline: `update` and `delete` take its source, alias and filter. -/
def parseMutation (q : QueryExpr (Expr ℓ)) : P ℓ (Statement ℓ) := do
  match ← peek with
  | some (.kw .update) =>
    if q.joins.isEmpty then do
      skip
      let assignments ← parseAssignments L
      let returning ← accept .returning
      pure (.updateQuery q.source q.aliasName q.filter assignments returning)
    else fail (.unsupported "update on a joined query is not supported")
  | some (.kw .delete) =>
    if q.joins.isEmpty then do
      skip
      let returning ← accept .returning
      pure (.deleteQuery q.source q.aliasName q.filter returning)
    else fail (.unsupported "delete on a joined query is not supported")
  | _ => pure (.query q)

def parseQueryOrMutation : P ℓ (Statement ℓ) := call do
  let source ← expectIdent "type name"
  let aliasName ← tryParseAlias
  let joins ← parseJoins L
  let q ← parseClauses L (Pipeline.start source aliasName joins)
  parseMutation L q

/-- The argument of an aggregate query: its one field without an alias. -/
def aggregateArgument (q : QueryExpr (Expr ℓ)) : Option (Expr ℓ) :=
  match q.projection with
  | some [⟨none,e⟩] => some e
  | _ => none

def withAggregation (f : AggFunc) (mode : AggregateMode) (q : QueryExpr (Expr ℓ)) : QueryExpr (Expr ℓ) :=
  {q with
    projection := if (aggregateArgument q).isSome then none else q.projection
    aggregation := some ⟨f,aggregateArgument q,mode⟩}

def parseAggregateQuery (f : AggFunc) : P ℓ (Statement ℓ) := call do
  skip
  expect .lParen
  let mode ← parseAggregateMode
  let f ← parseDistinct f
  let source ← expectIdent "type name"
  let q ← parseQueryTail L source
  expect .rParen
  pure (.query (withAggregation f mode q))

def parseLinkColumn (context : String) : P ℓ String := token fun
  | some (.ident n) | some (.dotIdent n) => .ok n
  | t => .error (.expectedName context t)

def parseLinkTail : P ℓ (String × String × String) := call do
  expect .arrow
  let target ← expectNamedIdent "link target type"
  expect .on
  let localKey ← parseLinkColumn "link local key"
  expect .eq
  let targetKey ← parseLinkColumn "link target key"
  pure (target,localKey,targetKey)

def parseCreateLink : P ℓ (Statement ℓ) := call do
  expect .link
  let owner ← expectNamedIdent "link owner type"
  let name ← expectDotIdent "`.<name>` after the owner type (link <Owner>.<name> -> ...)"
  let (target,localKey,targetKey) ← parseLinkTail
  pure (.createLink owner name target localKey targetKey)

/-- Only an unqualified JSON path can be indexed as an expression. -/
def indexTargetOf (action : String) : Expr ℓ → Except (ParseError ℓ) IndexTarget
  | .jsonPath (.field c) ss => .ok (.jsonPath c ss)
  | .jsonPath (.qualifiedField _ _) _ => .error (.invalid ("qualified JSON paths are not valid index targets after "
      ++action++"; use an unqualified table-local path like `(.data->key)`"))
  | .field _ => .error (.invalid ("invalid expression index target after "++action
      ++": parentheses are reserved for a direct JSON path like `(.data->key)`; use `.column` for a stored column"))
  | .qualifiedField _ _ => .error (.invalid ("qualified references are not valid index targets after "++action
      ++"; use a table-local `.column` or `(.data->key)`"))
  | _ => .error (.invalid ("invalid expression index target after "++action
      ++": only a direct JSON path is supported"))

/-- The outcome of a pure check as a parser. -/
def lift {α : Type} : Except (ParseError ℓ) α → P ℓ α
  | .ok a => pure a
  | .error e => fail e

/-- Errors inside an index target are reported as a bad target, save the depth limit. -/
def indexTargetError (action : String) : ParseError ℓ → ParseError ℓ
  | .nestingDepthExceeded => .nestingDepthExceeded
  | _ => .invalid ("invalid expression index target after "++action
      ++": expected an unqualified JSON path like `(.data->key)`")

def parseIndexTarget (action : String) : P ℓ IndexTarget := call do
  let (t₀,t₁,_) ← peekAhead
  match t₀ with
  | some (.dotIdent _) =>
    if t₁ = some (.kw .arrow) then
      fail (.invalid ("JSON path index targets must be parenthesized after "++action++"; use `(.data->key)`"))
    else do
      let c ← expectDotIdent "column"
      pure (.column c)
  | some (.kw .lParen) => do
    skip
    let e ← mapError (indexTargetError action) L.expr
    if (← peek) = some (.kw .rParen) then do
      skip
      lift (indexTargetOf action e)
    else fail (.invalid ("invalid expression index target after "++action++": only a direct JSON path is supported"))
  | _ => unexpected (".<column> or parenthesized JSON path after "++action)

def parseAddColumn (table : String) : P ℓ (Statement ℓ) := do
  let _ ← accept .column
  let required ← accept .required
  let name ← expectNamedIdent "column name"
  expect .colon
  let typeName ← expectIdent "type name"
  pure (.alterTable table (.addColumn name typeName required))

def parseAlterAdd (table : String) : P ℓ (Statement ℓ) := do
  match ← peek with
  | some (.kw .index) => do
    skip
    let ifNotExists ← parseOptionalIfNotExists
    let target ← parseIndexTarget L "add index"
    pure (.alterTable table (.addIndex target ifNotExists))
  | some (.kw .unique) => do
    skip
    let ifNotExists ← parseOptionalIfNotExists
    let target ← parseIndexTarget L "add unique"
    pure (.alterTable table (.addUnique target ifNotExists))
  | some (.kw .link) => do
    skip
    let name ← expectNamedIdent "link name"
    let (target,localKey,targetKey) ← parseLinkTail
    pure (.alterTable table (.addLink name target localKey targetKey))
  | _ => parseAddColumn table

def parseAlterDrop (table : String) : P ℓ (Statement ℓ) := do
  match ← peek with
  | some (.kw .index) => do
    skip
    let ifExists ← parseOptionalIfExists
    let target ← parseIndexTarget L "drop index"
    pure (.alterTable table (.dropIndex target ifExists))
  | some (.kw .link) => do
    skip
    let ifExists ← parseOptionalIfExists
    let name ← expectNamedIdent "link name"
    pure (.dropLink table name ifExists)
  | _ => do
    let _ ← accept .column
    let ifExists ← parseOptionalIfExists
    let name ← expectNamedIdent "column name"
    pure (.alterTable table (.dropColumn name ifExists))

def parseAlterTable : P ℓ (Statement ℓ) := call do
  expect .alter
  let table ← expectIdent "table name after alter"
  if ← accept .add then parseAlterAdd L table
  else if ← accept .drop then parseAlterDrop L table
  else unexpected "add or drop after alter <table>"

def parseDropOrDropView : P ℓ (Statement ℓ) := call do
  expect .drop
  if ← accept .link then do
    let ifExists ← parseOptionalIfExists
    let owner ← expectNamedIdent "link owner type"
    let name ← expectDotIdent "`.<name>` after the owner type (drop link <Owner>.<name>)"
    pure (.dropLink owner name ifExists)
  else if ← accept .view then do
    let ifExists ← parseOptionalIfExists
    let name ← expectIdent "view name after drop view"
    pure (.dropView name ifExists)
  else do
    let ifExists ← parseOptionalIfExists
    let table ← expectIdent "table name after drop"
    pure (.dropTable table ifExists)

/-- The text of the query is written back from its tokens, and must read back to them. -/
def parseCreateView : P ℓ (Statement ℓ) := call do
  expect .materialized
  let name ← expectIdent "view name after materialize"
  expect .as
  let (q,text) ← taking do
    let source ← expectIdent "source table name"
    parseQueryTail L source
  if R.storable text then pure (.createView name q text)
  else fail (.unsupported "cannot store view source: query text does not read back unchanged")

def parseRefreshView : P ℓ (Statement ℓ) := call do
  expect .refresh
  let name ← expectIdent "view name after refresh"
  pure (.refreshView name)

/-- The modifiers of a column, in any order; one before a colon is the column's name. -/
def parseModifiers : P ℓ (Bool × Bool × Bool) :=
  loop .noProgress (fun (m : Bool × Bool × Bool) => do
    let (t₀,t₁,_) ← peekAhead
    if t₁ = some (.kw .colon) then pure (.inr m)
    else match t₀ with
      | some (.kw .required) => do
        skip
        pure (.inl (true,m.2.1,m.2.2))
      | some (.kw .unique) => do
        skip
        pure (.inl (m.1,true,m.2.2))
      | some (.kw .auto) => do
        skip
        pure (.inl (m.1,m.2.1,true))
      | _ => pure (.inr m)) (false,false,false)

def parseDefaultLiteral : P ℓ (Option ℓ) := do
  let l ← expectLiteral "literal default value"
  pure (some l)

def parseFieldDef : P ℓ (FieldDef ℓ) := do
  let (required,unique,auto) ← parseModifiers
  let name ← expectNamedIdent "field name"
  expect .colon
  let typeName ← expectIdent "type name"
  let default ← optionally .default parseDefaultLiteral none
  pure ⟨name,typeName,required,unique,default,auto⟩

def parseCreateType : P ℓ (Statement ℓ) := call do
  expect .type
  let name ← expectNamedIdent "type name"
  let ifNotExists ← parseOptionalIfNotExists
  let fields ← parseSlots parseFieldDef
  pure (.createType name fields ifNotExists)

def parseSchema : P ℓ (Statement ℓ) := call do
  expect .schema
  match ← peek with
  | some (.ident n) => do
    skip
    if n = "links" then pure .listLinks else pure (.describe n)
  | _ => pure .listTypes

def parseDescribe : P ℓ (Statement ℓ) := call do
  expect .describe
  let table ← expectNamedIdent "type name"
  pure (.describe table)

/-- The right side of a union. -/
def parseSingleQuery : P ℓ (Statement ℓ) := call do
  match ← peek with
  | some (.ident _) => parseQueryOrMutation L
  | some (.kw k) =>
    match aggregateOf k with
    | some f => parseAggregateQuery L f
    | none => fail (.invalid "expected query after UNION")
  | _ => fail (.invalid "expected query after UNION")

def isUnionSide : Statement ℓ → Bool
  | .query _ => true
  | .union _ _ _ => true
  | _ => false

def parseUnionAll : P ℓ Bool := do
  if (← peek) = some (.ident "all") then do
    skip
    pure true
  else pure false

/-- The unions after a statement, each one a call inside the last. There are no more of
them than tokens. -/
def maybeParseUnion : ℕ → Statement ℓ → P ℓ (Statement ℓ)
  | 0, left => call do
    if (← peek) = some (.kw .union) then fail .noProgress else pure left
  | n+1, left => call do
    if (← peek) = some (.kw .union) then
      if isUnionSide left then do
        skip
        let all ← parseUnionAll
        let right ← parseSingleQuery L
        maybeParseUnion n (.union left right all)
      else fail (.invalid "UNION requires a query on the left side")
    else pure left

def maybeParseUnions (left : Statement ℓ) : P ℓ (Statement ℓ) := fun ts =>
  maybeParseUnion L ts.length left ts

/-- A statement other than the transaction statements and `explain`. -/
def parseBareStatement (t : Option (Tok Unit)) : P ℓ (Statement ℓ) :=
  match t with
  | some (.kw .insert) => parseInsert L
  | some (.kw .upsert) => parseUpsert L
  | some (.kw .type) => parseCreateType
  | some (.kw .link) => parseCreateLink
  | some (.kw .alter) => parseAlterTable L
  | some (.kw .drop) => parseDropOrDropView
  | some (.kw .materialized) => parseCreateView R L
  | some (.kw .refresh) => parseRefreshView
  | some (.kw .schema) => parseSchema
  | some (.kw .describe) => parseDescribe
  | some (.kw .update) => fail (.invalid ("'update' cannot start a statement — in PowQL, use "
      ++"pipeline syntax: TableName filter ... update \x7b ... \x7d"))
  | some (.kw .delete) => fail (.invalid ("'delete' cannot start a statement — in PowQL, use "
      ++"pipeline syntax: TableName filter ... delete"))
  | some (.ident _) => parseQueryOrMutation L
  | some (.kw k) =>
    match aggregateOf k with
    | some f => parseAggregateQuery L f
    | none => unexpected "statement"
  | _ => unexpected "statement"

end body

/-- A statement with so many levels of nesting left. -/
def parseStatement (R : Reader ℓ) : ℕ → P ℓ (Statement ℓ)
  | 0 => call (fail .nestingDepthExceeded)
  | b+1 => call do
    match ← peek with
    | some (.kw .explain) => do
      skip
      let s ← parseStatement R b
      pure (.explain s)
    | some (.kw .begin) => do
      skip
      let _ ← accept .transaction
      pure .begin
    | some (.kw .commit) => do
      skip
      pure .commit
    | some (.kw .rollback) => do
      skip
      pure .rollback
    | t => do
      let s ← parseBareStatement R (level R b) t
      maybeParseUnions (level R b) s

/-- A statement with no token left over. -/
def parseTokens (R : Reader ℓ) : P ℓ (Statement ℓ) := call do
  let s ← parseStatement R maxNestingDepth
  match ← look List.head? with
  | none => pure s
  | some t => fail (.trailingToken t)

end PowDB.Syntax
