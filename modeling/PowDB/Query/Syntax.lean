import PowDB.Query.Ast

/-! Tokens and syntax trees of PowQL, over any type of literals. Changing the literals of
a tree is a map; how deep a tree is, is how long a path of expressions in it can be. -/
namespace PowDB.Syntax
open Query (BinOp UnaryOp ScalarFn CastType PathSeg)

/-- The tokens that carry no data: words, operators and delimiters. -/
inductive Keyword
  | type | filter | order | limit | offset | insert | update | delete | upsert | returning | select
  | required | default | auto | multi | link | index | unique | on | conflict | asc | desc
  | and | or | not | existsKw | letKw | as | matchKw | group | join | inner | leftKw | rightKw | outer | cross
  | transaction | begin | commit | rollback | view | materialized | refresh | union | having | distinct
  | inKw | between | like | count | avg | sum | min | max | raw | is | null
  | upper | lower | length | trim | substring | concat
  | abs | round | ceil | floor | sqrt | pow
  | now | extract | dateAdd | dateDiff
  | jsonType | jsonText
  | cast
  | case | when | thenKw | elseKw | endKw
  | overKw | partition | rowNumber | rank | denseRank
  | alter | drop | add | column | explain | schema | describe
  | eq | neq | lt | gt | lte | gte | assign | arrow | pipe | coalesce | plus | minus | star | slash
  | lBrace | rBrace | lParen | rParen | comma | colon | dot
  deriving DecidableEq

/-- A token; the end of input is the end of the list. -/
inductive Tok (ℓ : Type)
  | ident (name : String)
  | dotIdent (name : String)
  | lit (l : ℓ)
  | param (name : String)
  | kw (k : Keyword)
  deriving DecidableEq

inductive JoinKind
  | inner | leftOuter | rightOuter | cross
  deriving DecidableEq

inductive AggregateMode
  | symmetric | raw
  deriving DecidableEq

inductive AggFunc
  | count | countDistinct | avg | sum | min | max
  deriving DecidableEq

inductive WindowFunc
  | rowNumber | rank | denseRank | sum | avg | count | min | max
  deriving DecidableEq

/-! The records between one expression and the next, over any type of expressions. -/

structure OrderKey (ε : Type) where
  expr : ε
  descending : Bool

structure ProjectionField (ε : Type) where
  aliasName : Option String
  expr : ε

structure JoinClause (ε : Type) where
  kind : JoinKind
  source : String
  aliasName : Option String
  on : Option ε

structure GroupKey (ε : Type) where
  expr : ε
  outputName : String

structure GroupByClause (ε : Type) where
  keys : List (GroupKey ε)
  having : Option ε

structure AggregateExpr (ε : Type) where
  function : AggFunc
  argument : Option ε
  mode : AggregateMode

structure QueryExpr (ε : Type) where
  source : String
  aliasName : Option String
  joins : List (JoinClause ε)
  filter : Option ε
  order : Option (List (OrderKey ε))
  limit : Option ε
  offset : Option ε
  projection : Option (List (ProjectionField ε))
  aggregation : Option (AggregateExpr ε)
  distinct : Bool
  groupBy : Option (GroupByClause ε)

/-- A link traversal: the child table is found from the catalog. -/
structure ViaLink where
  outerAlias : String
  linkName : String

structure NestedQuery (ε : Type) where
  source : String
  aliasName : String
  viaLink : Option ViaLink
  filter : ε
  order : Option (List (OrderKey ε))
  limit : Option ε
  offset : Option ε
  offsetBeforeLimit : Bool
  fields : List (ProjectionField ε)

structure Assignment (ε : Type) where
  field : String
  value : ε

inductive Expr (ℓ : Type)
  | field (name : String)
  | qualifiedField (qualifier field : String)
  | literal (l : ℓ)
  | binaryOp (l : Expr ℓ) (op : BinOp) (r : Expr ℓ)
  | unaryOp (op : UnaryOp) (e : Expr ℓ)
  | functionCall (f : AggFunc) (e : Expr ℓ) (mode : AggregateMode)
  | scalarFunc (f : ScalarFn) (args : List (Expr ℓ))
  | coalesce (l r : Expr ℓ)
  | inList (e : Expr ℓ) (list : List (Expr ℓ)) (negated : Bool)
  | inSubquery (e : Expr ℓ) (subquery : QueryExpr (Expr ℓ)) (negated : Bool)
  | existsSubquery (subquery : QueryExpr (Expr ℓ)) (negated : Bool)
  | case (whens : List (Expr ℓ × Expr ℓ)) (elseExpr : Option (Expr ℓ))
  | window (f : WindowFunc) (args : List (Expr ℓ)) (mode : AggregateMode) (partitionBy : List (Expr ℓ))
      (orderBy : List (OrderKey (Expr ℓ)))
  | cast (e : Expr ℓ) (target : CastType)
  | null
  | nestedQuery (q : NestedQuery (Expr ℓ))
  | linkPath (outerAlias : String) (links : List String) (column : String)
  | jsonPath (base : Expr ℓ) (segments : List PathSeg)

inductive IndexTarget
  | column (name : String)
  | jsonPath (column : String) (segments : List PathSeg)

inductive AlterAction
  | addColumn (name typeName : String) (required : Bool)
  | dropColumn (name : String) (ifExists : Bool)
  | addIndex (target : IndexTarget) (ifNotExists : Bool)
  | addUnique (target : IndexTarget) (ifNotExists : Bool)
  | dropIndex (target : IndexTarget) (ifExists : Bool)
  | addLink (name target localKey targetKey : String)

structure FieldDef (ℓ : Type) where
  name : String
  typeName : String
  required : Bool
  unique : Bool
  default : Option ℓ
  auto : Bool

/-- A statement. The text a view stores for its query is kept as the tokens it reads
back to. -/
inductive Statement (ℓ : Type)
  | query (q : QueryExpr (Expr ℓ))
  | insert (target : String) (rows : List (List (Assignment (Expr ℓ)))) (returning : Bool)
  | updateQuery (source : String) (aliasName : Option String) (filter : Option (Expr ℓ))
      (assignments : List (Assignment (Expr ℓ))) (returning : Bool)
  | deleteQuery (source : String) (aliasName : Option String) (filter : Option (Expr ℓ)) (returning : Bool)
  | createType (name : String) (fields : List (FieldDef ℓ)) (ifNotExists : Bool)
  | createLink (owner name target localKey targetKey : String)
  | dropLink (owner name : String) (ifExists : Bool)
  | alterTable (table : String) (action : AlterAction)
  | dropTable (table : String) (ifExists : Bool)
  | createView (name : String) (query : QueryExpr (Expr ℓ)) (text : List (Tok ℓ))
  | refreshView (name : String)
  | dropView (name : String) (ifExists : Bool)
  | union (left right : Statement ℓ) (all : Bool)
  | upsert (target keyColumn : String) (assignments onConflict : List (Assignment (Expr ℓ)))
  | explain (s : Statement ℓ)
  | begin
  | commit
  | rollback
  | listTypes
  | describe (table : String)
  | listLinks

section containers
variable {ε ε' : Type} (g : ε → ε')

def OrderKey.map (k : OrderKey ε) : OrderKey ε' := ⟨g k.expr,k.descending⟩

def ProjectionField.map (k : ProjectionField ε) : ProjectionField ε' := ⟨k.aliasName,g k.expr⟩

def JoinClause.map (j : JoinClause ε) : JoinClause ε' := ⟨j.kind,j.source,j.aliasName,j.on.map g⟩

def GroupKey.map (k : GroupKey ε) : GroupKey ε' := ⟨g k.expr,k.outputName⟩

def GroupByClause.map (c : GroupByClause ε) : GroupByClause ε' :=
  ⟨c.keys.map (GroupKey.map g),c.having.map g⟩

def AggregateExpr.map (a : AggregateExpr ε) : AggregateExpr ε' := ⟨a.function,a.argument.map g,a.mode⟩

def QueryExpr.map (q : QueryExpr ε) : QueryExpr ε' where
  source := q.source
  aliasName := q.aliasName
  joins := q.joins.map (JoinClause.map g)
  filter := q.filter.map g
  order := q.order.map (List.map (OrderKey.map g))
  limit := q.limit.map g
  offset := q.offset.map g
  projection := q.projection.map (List.map (ProjectionField.map g))
  aggregation := q.aggregation.map (AggregateExpr.map g)
  distinct := q.distinct
  groupBy := q.groupBy.map (GroupByClause.map g)

def NestedQuery.map (q : NestedQuery ε) : NestedQuery ε' where
  source := q.source
  aliasName := q.aliasName
  viaLink := q.viaLink
  filter := g q.filter
  order := q.order.map (List.map (OrderKey.map g))
  limit := q.limit.map g
  offset := q.offset.map g
  offsetBeforeLimit := q.offsetBeforeLimit
  fields := q.fields.map (ProjectionField.map g)

def Assignment.map (a : Assignment ε) : Assignment ε' := ⟨a.field,g a.value⟩

def GroupByClause.exprs (c : GroupByClause ε) : List ε := c.keys.map GroupKey.expr++c.having.toList

/-- The expressions of a query. -/
def QueryExpr.exprs (q : QueryExpr ε) : List ε :=
  q.joins.flatMap (fun j => j.on.toList)++q.filter.toList++(q.order.getD []).map OrderKey.expr
    ++q.limit.toList++q.offset.toList++(q.projection.getD []).map ProjectionField.expr
    ++q.aggregation.elim [] (fun a => a.argument.toList)++q.groupBy.elim [] GroupByClause.exprs

def NestedQuery.exprs (q : NestedQuery ε) : List ε :=
  q.filter::(q.order.getD []).map OrderKey.expr++q.limit.toList++q.offset.toList
    ++q.fields.map ProjectionField.expr

end containers

variable {ℓ ℓ' : Type}

def Tok.map (f : ℓ → ℓ') : Tok ℓ → Tok ℓ'
  | .ident n => .ident n
  | .dotIdent n => .dotIdent n
  | .lit l => .lit (f l)
  | .param n => .param n
  | .kw k => .kw k

namespace Expr

/-! The map by structural recursion, one function for each type of part; the equations
below give it through the maps of the records. -/
mutual
def map (f : ℓ → ℓ') : Expr ℓ → Expr ℓ'
  | .field n => .field n
  | .qualifiedField q n => .qualifiedField q n
  | .literal l => .literal (f l)
  | .binaryOp l op r => .binaryOp (l.map f) op (r.map f)
  | .unaryOp op e => .unaryOp op (e.map f)
  | .functionCall g e m => .functionCall g (e.map f) m
  | .scalarFunc g args => .scalarFunc g (mapList f args)
  | .coalesce l r => .coalesce (l.map f) (r.map f)
  | .inList e es b => .inList (e.map f) (mapList f es) b
  | .inSubquery e q b => .inSubquery (e.map f) (mapQuery f q) b
  | .existsSubquery q b => .existsSubquery (mapQuery f q) b
  | .case ws e => .case (mapWhens f ws) (mapOption f e)
  | .window g args m ps os => .window g (mapList f args) m (mapList f ps) (mapOrder f os)
  | .cast e t => .cast (e.map f) t
  | .null => .null
  | .nestedQuery q => .nestedQuery (mapNested f q)
  | .linkPath a ls c => .linkPath a ls c
  | .jsonPath b ss => .jsonPath (b.map f) ss

def mapList (f : ℓ → ℓ') : List (Expr ℓ) → List (Expr ℓ')
  | [] => []
  | e::es => e.map f::mapList f es

def mapOption (f : ℓ → ℓ') : Option (Expr ℓ) → Option (Expr ℓ')
  | none => none
  | some e => some (e.map f)

def mapPair (f : ℓ → ℓ') : Expr ℓ × Expr ℓ → Expr ℓ' × Expr ℓ'
  | (a,b) => (a.map f,b.map f)

def mapWhens (f : ℓ → ℓ') : List (Expr ℓ × Expr ℓ) → List (Expr ℓ' × Expr ℓ')
  | [] => []
  | w::ws => mapPair f w::mapWhens f ws

def mapKey (f : ℓ → ℓ') : OrderKey (Expr ℓ) → OrderKey (Expr ℓ')
  | ⟨e,d⟩ => ⟨e.map f,d⟩

def mapOrder (f : ℓ → ℓ') : List (OrderKey (Expr ℓ)) → List (OrderKey (Expr ℓ'))
  | [] => []
  | k::ks => mapKey f k::mapOrder f ks

def mapOrders (f : ℓ → ℓ') : Option (List (OrderKey (Expr ℓ))) → Option (List (OrderKey (Expr ℓ')))
  | none => none
  | some ks => some (mapOrder f ks)

def mapField (f : ℓ → ℓ') : ProjectionField (Expr ℓ) → ProjectionField (Expr ℓ')
  | ⟨a,e⟩ => ⟨a,e.map f⟩

def mapFields (f : ℓ → ℓ') : List (ProjectionField (Expr ℓ)) → List (ProjectionField (Expr ℓ'))
  | [] => []
  | k::ks => mapField f k::mapFields f ks

def mapProjection (f : ℓ → ℓ') :
    Option (List (ProjectionField (Expr ℓ))) → Option (List (ProjectionField (Expr ℓ')))
  | none => none
  | some ks => some (mapFields f ks)

def mapJoin (f : ℓ → ℓ') : JoinClause (Expr ℓ) → JoinClause (Expr ℓ')
  | ⟨k,s,a,e⟩ => ⟨k,s,a,mapOption f e⟩

def mapJoins (f : ℓ → ℓ') : List (JoinClause (Expr ℓ)) → List (JoinClause (Expr ℓ'))
  | [] => []
  | j::js => mapJoin f j::mapJoins f js

def mapGroupKey (f : ℓ → ℓ') : GroupKey (Expr ℓ) → GroupKey (Expr ℓ')
  | ⟨e,n⟩ => ⟨e.map f,n⟩

def mapGroupKeys (f : ℓ → ℓ') : List (GroupKey (Expr ℓ)) → List (GroupKey (Expr ℓ'))
  | [] => []
  | k::ks => mapGroupKey f k::mapGroupKeys f ks

def mapGroupBy (f : ℓ → ℓ') : GroupByClause (Expr ℓ) → GroupByClause (Expr ℓ')
  | ⟨ks,h⟩ => ⟨mapGroupKeys f ks,mapOption f h⟩

def mapGroup (f : ℓ → ℓ') : Option (GroupByClause (Expr ℓ)) → Option (GroupByClause (Expr ℓ'))
  | none => none
  | some g => some (mapGroupBy f g)

def mapAggregate (f : ℓ → ℓ') : AggregateExpr (Expr ℓ) → AggregateExpr (Expr ℓ')
  | ⟨g,a,m⟩ => ⟨g,mapOption f a,m⟩

def mapAggregation (f : ℓ → ℓ') : Option (AggregateExpr (Expr ℓ)) → Option (AggregateExpr (Expr ℓ'))
  | none => none
  | some a => some (mapAggregate f a)

def mapQuery (f : ℓ → ℓ') : QueryExpr (Expr ℓ) → QueryExpr (Expr ℓ')
  | ⟨s,a,js,w,o,l,off,p,ag,d,g⟩ =>
    ⟨s,a,mapJoins f js,mapOption f w,mapOrders f o,mapOption f l,mapOption f off,mapProjection f p,
      mapAggregation f ag,d,mapGroup f g⟩

def mapNested (f : ℓ → ℓ') : NestedQuery (Expr ℓ) → NestedQuery (Expr ℓ')
  | ⟨s,a,v,w,o,l,off,b,fs⟩ =>
    ⟨s,a,v,w.map f,mapOrders f o,mapOption f l,mapOption f off,b,mapFields f fs⟩
end

section equations
variable (f : ℓ → ℓ')

lemma mapList_eq (es : List (Expr ℓ)) : mapList f es = es.map (map f) := by
  induction es with
  | nil => rfl
  | cons e es ih => exact congrArg (e.map f::·) ih

lemma mapOption_eq (e : Option (Expr ℓ)) : mapOption f e = Option.map (map f) e := by
  cases e <;> rfl

lemma mapWhens_eq (ws : List (Expr ℓ × Expr ℓ)) : mapWhens f ws = ws.map (Prod.map (map f) (map f)) := by
  induction ws with
  | nil => rfl
  | cons w ws ih =>
    obtain ⟨c,r⟩ := w
    exact congrArg ((c.map f,r.map f)::·) ih

lemma mapOrder_eq (ks : List (OrderKey (Expr ℓ))) : mapOrder f ks = ks.map (OrderKey.map (map f)) := by
  induction ks with
  | nil => rfl
  | cons k ks ih =>
    obtain ⟨e,d⟩ := k
    exact congrArg (OrderKey.map (map f) ⟨e,d⟩::·) ih

lemma mapFields_eq (ks : List (ProjectionField (Expr ℓ))) :
    mapFields f ks = ks.map (ProjectionField.map (map f)) := by
  induction ks with
  | nil => rfl
  | cons k ks ih =>
    obtain ⟨a,e⟩ := k
    exact congrArg (ProjectionField.map (map f) ⟨a,e⟩::·) ih

lemma mapOrders_eq (o : Option (List (OrderKey (Expr ℓ)))) :
    mapOrders f o = Option.map (List.map (OrderKey.map (map f))) o := by
  rcases o with _ | ks
  · rfl
  · exact congrArg some (mapOrder_eq f ks)

lemma mapProjection_eq (o : Option (List (ProjectionField (Expr ℓ)))) :
    mapProjection f o = Option.map (List.map (ProjectionField.map (map f))) o := by
  rcases o with _ | ks
  · rfl
  · exact congrArg some (mapFields_eq f ks)

lemma mapJoins_eq (js : List (JoinClause (Expr ℓ))) : mapJoins f js = js.map (JoinClause.map (map f)) := by
  induction js with
  | nil => rfl
  | cons j js ih =>
    obtain ⟨k,s,a,e⟩ := j
    exact congrArg₂ List.cons (congrArg (JoinClause.mk k s a) (mapOption_eq f e)) ih

lemma mapGroupKeys_eq (ks : List (GroupKey (Expr ℓ))) :
    mapGroupKeys f ks = ks.map (GroupKey.map (map f)) := by
  induction ks with
  | nil => rfl
  | cons k ks ih =>
    obtain ⟨e,n⟩ := k
    exact congrArg (GroupKey.map (map f) ⟨e,n⟩::·) ih

lemma mapGroup_eq (o : Option (GroupByClause (Expr ℓ))) :
    mapGroup f o = Option.map (GroupByClause.map (map f)) o := by
  rcases o with _ | ⟨ks,h⟩
  · rfl
  · exact congrArg some (congrArg₂ GroupByClause.mk (mapGroupKeys_eq f ks) (mapOption_eq f h))

lemma mapAggregation_eq (o : Option (AggregateExpr (Expr ℓ))) :
    mapAggregation f o = Option.map (AggregateExpr.map (map f)) o := by
  rcases o with _ | ⟨g,a,m⟩
  · rfl
  · exact congrArg some (congrArg (AggregateExpr.mk g · m) (mapOption_eq f a))

lemma mapQuery_eq (q : QueryExpr (Expr ℓ)) : mapQuery f q = q.map (map f) := by
  obtain ⟨s,a,js,w,o,l,off,p,ag,d,g⟩ := q
  show QueryExpr.mk s a (mapJoins f js) (mapOption f w) (mapOrders f o) (mapOption f l) (mapOption f off)
    (mapProjection f p) (mapAggregation f ag) d (mapGroup f g) = _
  rw [mapJoins_eq,mapOption_eq,mapOption_eq,mapOption_eq,mapOrders_eq,mapProjection_eq,mapAggregation_eq,
    mapGroup_eq]
  rfl

lemma mapNested_eq (q : NestedQuery (Expr ℓ)) : mapNested f q = q.map (map f) := by
  obtain ⟨s,a,v,w,o,l,off,b,fs⟩ := q
  show NestedQuery.mk s a v (w.map f) (mapOrders f o) (mapOption f l) (mapOption f off) b (mapFields f fs) = _
  rw [mapOption_eq,mapOption_eq,mapOrders_eq,mapFields_eq]
  rfl

@[simp] lemma map_field (n : String) : (.field n : Expr ℓ).map f = .field n := rfl

@[simp] lemma map_qualifiedField (q n : String) : (.qualifiedField q n : Expr ℓ).map f = .qualifiedField q n := rfl

@[simp] lemma map_literal (l : ℓ) : (.literal l : Expr ℓ).map f = .literal (f l) := rfl

@[simp] lemma map_binaryOp (l r : Expr ℓ) (op : BinOp) :
    (Expr.binaryOp l op r).map f = .binaryOp (l.map f) op (r.map f) := rfl

@[simp] lemma map_unaryOp (op : UnaryOp) (e : Expr ℓ) : (Expr.unaryOp op e).map f = .unaryOp op (e.map f) := rfl

@[simp] lemma map_functionCall (g : AggFunc) (e : Expr ℓ) (m : AggregateMode) :
    (Expr.functionCall g e m).map f = .functionCall g (e.map f) m := rfl

@[simp] lemma map_scalarFunc (g : ScalarFn) (args : List (Expr ℓ)) :
    (Expr.scalarFunc g args).map f = .scalarFunc g (args.map (map f)) :=
  congrArg (Expr.scalarFunc g) (mapList_eq f args)

@[simp] lemma map_coalesce (l r : Expr ℓ) : (Expr.coalesce l r).map f = .coalesce (l.map f) (r.map f) := rfl

@[simp] lemma map_inList (e : Expr ℓ) (es : List (Expr ℓ)) (b : Bool) :
    (Expr.inList e es b).map f = .inList (e.map f) (es.map (map f)) b :=
  congrArg (Expr.inList (e.map f) · b) (mapList_eq f es)

@[simp] lemma map_inSubquery (e : Expr ℓ) (q : QueryExpr (Expr ℓ)) (b : Bool) :
    (Expr.inSubquery e q b).map f = .inSubquery (e.map f) (q.map (map f)) b :=
  congrArg (Expr.inSubquery (e.map f) · b) (mapQuery_eq f q)

@[simp] lemma map_existsSubquery (q : QueryExpr (Expr ℓ)) (b : Bool) :
    (Expr.existsSubquery q b).map f = .existsSubquery (q.map (map f)) b :=
  congrArg (Expr.existsSubquery · b) (mapQuery_eq f q)

@[simp] lemma map_case (ws : List (Expr ℓ × Expr ℓ)) (e : Option (Expr ℓ)) :
    (Expr.case ws e).map f = .case (ws.map (Prod.map (map f) (map f))) (Option.map (map f) e) :=
  congrArg₂ Expr.case (mapWhens_eq f ws) (mapOption_eq f e)

@[simp] lemma map_window (g : WindowFunc) (args ps : List (Expr ℓ)) (m : AggregateMode)
    (os : List (OrderKey (Expr ℓ))) : (Expr.window g args m ps os).map f =
      .window g (args.map (map f)) m (ps.map (map f)) (os.map (OrderKey.map (map f))) := by
  rw [← mapList_eq,← mapList_eq,← mapOrder_eq]
  rfl

@[simp] lemma map_cast (e : Expr ℓ) (t : CastType) : (Expr.cast e t).map f = .cast (e.map f) t := rfl

@[simp] lemma map_null : (.null : Expr ℓ).map f = .null := rfl

@[simp] lemma map_nestedQuery (q : NestedQuery (Expr ℓ)) :
    (Expr.nestedQuery q).map f = .nestedQuery (q.map (map f)) :=
  congrArg Expr.nestedQuery (mapNested_eq f q)

@[simp] lemma map_linkPath (a c : String) (ls : List String) :
    (.linkPath a ls c : Expr ℓ).map f = .linkPath a ls c := rfl

@[simp] lemma map_jsonPath (b : Expr ℓ) (ss : List PathSeg) :
    (Expr.jsonPath b ss).map f = .jsonPath (b.map f) ss := rfl

end equations

/-- The expressions directly below one. -/
def children : Expr ℓ → List (Expr ℓ)
  | .binaryOp l _ r => [l,r]
  | .unaryOp _ e => [e]
  | .functionCall _ e _ => [e]
  | .scalarFunc _ args => args
  | .coalesce l r => [l,r]
  | .inList e es _ => e::es
  | .inSubquery e q _ => e::q.exprs
  | .existsSubquery q _ => q.exprs
  | .case ws e => ws.flatMap (fun w => [w.1,w.2])++e.toList
  | .window _ args _ ps os => args++ps++os.map OrderKey.expr
  | .cast e _ => [e]
  | .nestedQuery q => q.exprs
  | .jsonPath b _ => [b]
  | _ => []

/-- The expressions below one in which a projection's alias is replaced. -/
def aliasChildren : Expr ℓ → List (Expr ℓ)
  | .binaryOp l _ r => [l,r]
  | .unaryOp _ e => [e]
  | .scalarFunc _ args => args
  | .coalesce l r => [l,r]
  | .inList e es _ => e::es
  | _ => []

/-- No path down through `kids` has more than so many expressions. -/
inductive Within (kids : Expr ℓ → List (Expr ℓ)) : ℕ → Expr ℓ → Prop
  | node {n : ℕ} {e : Expr ℓ} (h : ∀ e' ∈ kids e, Within kids n e') : Within kids (n+1) e

lemma Within.mono (h : Within kids n e)
    (hnm : n ≤ m) : Within kids m e := by
  induction h generalizing m with
  | node _ ih =>
    obtain ⟨m,rfl⟩ : ∃ m', m = m'+1 := ⟨m-1,by omega⟩
    exact .node fun e' he' => ih e' he' (by omega)

end Expr

def FieldDef.map (f : ℓ → ℓ') (d : FieldDef ℓ) : FieldDef ℓ' :=
  ⟨d.name,d.typeName,d.required,d.unique,d.default.map f,d.auto⟩

namespace Statement

def map (f : ℓ → ℓ') : Statement ℓ → Statement ℓ'
  | .query q => .query (q.map (Expr.map f))
  | .insert t rows r => .insert t (rows.map (List.map (Assignment.map (Expr.map f)))) r
  | .updateQuery s a w xs r => .updateQuery s a (w.map (Expr.map f)) (xs.map (Assignment.map (Expr.map f))) r
  | .deleteQuery s a w r => .deleteQuery s a (w.map (Expr.map f)) r
  | .createType n fs b => .createType n (fs.map (FieldDef.map f)) b
  | .createLink o n t l k => .createLink o n t l k
  | .dropLink o n b => .dropLink o n b
  | .alterTable t a => .alterTable t a
  | .dropTable t b => .dropTable t b
  | .createView n q text => .createView n (q.map (Expr.map f)) (text.map (Tok.map f))
  | .refreshView n => .refreshView n
  | .dropView n b => .dropView n b
  | .union l r b => .union (l.map f) (r.map f) b
  | .upsert t k xs ys => .upsert t k (xs.map (Assignment.map (Expr.map f))) (ys.map (Assignment.map (Expr.map f)))
  | .explain s => .explain (s.map f)
  | .begin => .begin
  | .commit => .commit
  | .rollback => .rollback
  | .listTypes => .listTypes
  | .describe t => .describe t
  | .listLinks => .listLinks

/-- The expressions directly in a statement. -/
def exprs : Statement ℓ → List (Expr ℓ)
  | .query q => q.exprs
  | .insert _ rows _ => rows.flatMap (List.map Assignment.value)
  | .updateQuery _ _ w xs _ => w.toList++xs.map Assignment.value
  | .deleteQuery _ _ w _ => w.toList
  | .createView _ q _ => q.exprs
  | .upsert _ _ xs ys => xs.map Assignment.value++ys.map Assignment.value
  | _ => []

/-- The statements directly in a statement. -/
def parts : Statement ℓ → List (Statement ℓ)
  | .union l r _ => [l,r]
  | .explain s => [s]
  | _ => []

/-- No path through a statement and its expressions is longer. -/
inductive Within : ℕ → Statement ℓ → Prop
  | node {n : ℕ} {s : Statement ℓ} (h : ∀ s' ∈ s.parts, Within n s')
      (he : ∀ e ∈ s.exprs, e.Within Expr.children n) : Within (n+1) s

lemma Within.mono {s : Statement ℓ} (h : s.Within n) (hnm : n ≤ m) : s.Within m := by
  induction h generalizing m with
  | node _ he ih =>
    obtain ⟨m,rfl⟩ : ∃ m', m = m'+1 := ⟨m-1,by omega⟩
    exact .node (fun s' hs' => ih s' hs' (by omega)) fun e hmem => (he e hmem).mono (by omega)

end Statement
end PowDB.Syntax
