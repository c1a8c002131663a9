import PowDB.Query.ParserLevel
import Mathlib

/-! Statements. They stand outside all brackets but may hold commas, so they are read one
bracket level up. -/
namespace PowDB.Syntax
open List Option
open Lib (Setting)
open Lib.Setting (SpecAt)
open Lib.Parser (fail call loop token taking look)
variable {ℓ ℓ' : Type} {f : ℓ → ℓ'} {holes : Holes ℓ} {b D A c₀ : ℕ} {L : Level ℓ} {L' : Level ℓ'}
  {c n : ℕ} {ts : List (Tok ℓ)}
  {B : ℕ}

/-- The tokens kept as the text of a view, if the statement makes one. -/
def Statement.viewText : Statement ℓ → Option (List (Tok ℓ))
  | .createView _ _ text => some text
  | .explain s => s.viewText
  | _ => none

/-- A statement of one part that makes no view, whose expressions are at most so deep. -/
structure Statement.Single (B : ℕ) (s : Statement ℓ) : Prop where
  parts : s.parts = []
  exprs : Below B s.exprs
  view : s.viewText = none

/-- A statement of one part that makes a view only if it starts with the word for it. -/
structure Statement.Bare (t : Option (Tok Unit)) (B : ℕ) (s : Statement ℓ) : Prop where
  parts : s.parts = []
  exprs : Below B s.exprs
  view : t ≠ some (.kw .materialized) → s.viewText = none

/-- A parser of statements of one part. -/
abbrev SingleSpec (f : ℓ → ℓ') (holes : Holes ℓ) (ts : List (Tok ℓ)) (c n B : ℕ) (p : P ℓ (Statement ℓ))
    (p' : P ℓ' (Statement ℓ')) : Prop :=
  Spec f holes ts c n n (Statement.map f) (fun s _ => s.Single B) p p'

variable {s : Statement ℓ}

lemma Statement.Single.bare (h : s.Single B) : s.Bare t B :=
  ⟨h.parts,h.exprs,fun _ => h.view⟩

lemma Statement.Bare.within (h : s.Bare t B) : s.Within (B+1) :=
  .node (by simp [h.parts]) h.exprs

lemma Statement.Single.within (h : s.Single B) : s.Within (B+1) :=
  (h.bare (t := none)).within

/-- The values of the rows of an insert. -/
def rowValues (rows : List (List (Assignment (Expr ℓ)))) : List (Expr ℓ) := rows.flatMap (List.map Assignment.value)

lemma aggregateArgument_map (q : QueryExpr (Expr ℓ)) :
    aggregateArgument (q.map (Expr.map f)) = (aggregateArgument q).map (Expr.map f) := by
  obtain ⟨s,a,js,w,o,l,off,p,ag,d,g⟩ := q
  rcases p with _ | _ | ⟨⟨_ | n,e⟩,_ | _⟩ <;> rfl

lemma withAggregation_map (g : AggFunc) (mode : AggregateMode) (q : QueryExpr (Expr ℓ)) :
    (withAggregation g mode q).map (Expr.map f) = withAggregation g mode (q.map (Expr.map f)) := by
  simp only [withAggregation,aggregateArgument_map]
  cases aggregateArgument q <;> rfl

lemma aggregateArgument_below (h : Below B q.exprs) :
    Below B (aggregateArgument q).toList := by
  rw [aggregateArgument]
  split
  · rename_i e hq
    simp only [QueryExpr.exprs,below_append,hq] at h
    simpa using h.1.1.2
  · exact below_nil

lemma withAggregation_below (h : Below B q.exprs) (g : AggFunc) (mode : AggregateMode) :
    Below B (withAggregation g mode q).exprs := by
  have harg := aggregateArgument_below h
  simp only [QueryExpr.exprs,below_append] at h
  obtain ⟨⟨⟨hrest,hprojection⟩,-⟩,hgroup⟩ := h
  simp only [QueryExpr.exprs,withAggregation,below_append]
  refine ⟨⟨⟨hrest,?_⟩,harg⟩,hgroup⟩
  split
  · exact below_nil
  · exact hprojection

/-! Statements without expressions. -/

lemma single_plain (hparts : s.parts = []) (hexprs : s.exprs = []) (hview : s.viewText = none) :
    s.Single B :=
  ⟨hparts,by rw [hexprs]; exact below_nil,hview⟩

lemma parseLinkColumn_spec (s : String) :
    Spec f holes ts c n n id (fun _ i => 1 ≤ i) (parseLinkColumn s) (parseLinkColumn s) := by
  apply spec_token
  rcases ts.head? with _ | t
  · exact ⟨trivial,_,rfl⟩
  cases t with
  | ident name | dotIdent name => exact ⟨rfl,Nat.le_refl 1,_,rfl,rfl⟩
  | _ => exact ⟨trivial,_,rfl⟩

lemma parseLinkTail_spec (hc : 1 ≤ c) :
    Spec f holes ts c n n id (fun _ _ => True) parseLinkTail parseLinkTail := by
  refine spec_call hc (spec_word rfl ?_)
  refine spec_bind (spec_expectNamedIdent _) fun target _ _ => ?_
  refine spec_word rfl ?_
  refine spec_bind (parseLinkColumn_spec _) fun localKey _ _ => ?_
  refine spec_word rfl ?_
  refine spec_bind (parseLinkColumn_spec _) fun targetKey _ _ => ?_
  exact spec_return trivial

lemma parseCreateLink_spec (hc : 2 ≤ c) :
    SingleSpec f holes ts c n B parseCreateLink parseCreateLink := by
  refine spec_call (by omega) (spec_word rfl ?_)
  refine spec_bind (spec_expectNamedIdent _) fun owner _ _ => ?_
  refine spec_bind (spec_expectDotIdent _) fun name _ _ => ?_
  refine spec_bind (parseLinkTail_spec (by omega)) fun r _ _ => ?_
  exact spec_pure (single_plain rfl rfl rfl) rfl

lemma indexTargetOf_map (action : String) (e : Expr ℓ) :
    SameOutcome (indexTargetOf action e) (indexTargetOf action (e.map f)) := by
  cases e with
  | jsonPath base ss =>
    cases base with
    | field name => exact rfl
    | _ => simp [indexTargetOf,SameOutcome,ParseError.Raised]
  | _ => simp [indexTargetOf,SameOutcome,ParseError.Raised]

lemma spec_lift {α : Type} {x : Except (ParseError ℓ) α} {y : Except (ParseError ℓ') α} (h : SameOutcome x y) :
    Spec f holes ts c n n id (fun _ _ => True) (lift x) (lift y) := by
  cases x with
  | ok a =>
    obtain rfl : y = .ok a := h
    exact spec_return trivial
  | error e =>
    obtain ⟨he,e',rfl⟩ := h
    exact spec_fail he

lemma parseAddColumn_spec (table : String) :
    SingleSpec f holes ts c n B (parseAddColumn table) (parseAddColumn table) := by
  refine spec_bind (spec_accept rfl) fun _ _ _ => ?_
  refine spec_bind (spec_accept rfl) fun required _ _ => ?_
  refine spec_bind (spec_expectNamedIdent _) fun name _ _ => ?_
  refine spec_word rfl ?_
  refine spec_bind (spec_expectIdent _) fun typeName _ _ => ?_
  exact spec_pure (single_plain rfl rfl rfl) rfl

lemma spec_parseOptionalIfNotExists :
    Spec f holes ts c n n id (fun _ _ => True) parseOptionalIfNotExists parseOptionalIfNotExists := by
  refine spec_peekAhead (spec_ite (fun h => ?_) fun _ => spec_return trivial)
  simp only [Prod.mk.injEq] at h
  obtain ⟨h₀,h₁,h₂⟩ := h
  rcases ts with _ | ⟨t₀,ts⟩
  · cases h₀
  obtain ⟨ts,rfl⟩ := at_kw (show ts[0]?.map Tok.shape = some (.kw .not) from h₁)
  obtain ⟨ts,rfl⟩ := at_kw (show ts[0]?.map Tok.shape = some (.kw .existsKw) from h₂)
  cases t₀ with
  | ident _ => exact spec_skip rfl (spec_skip rfl (spec_skip rfl (spec_return trivial)))
  | _ => cases h₀

lemma parseDropOrDropView_spec (hc : 1 ≤ c) :
    SingleSpec f holes ts c n B parseDropOrDropView parseDropOrDropView := by
  refine spec_call hc (spec_word rfl ?_)
  refine spec_bind (spec_accept rfl) fun link _ _ => ?_
  cases link with
  | true =>
    refine spec_bind spec_parseOptionalIfExists fun ifExists _ _ => ?_
    refine spec_bind (spec_expectNamedIdent _) fun owner _ _ => ?_
    refine spec_bind (spec_expectDotIdent _) fun name _ _ => ?_
    exact spec_pure (single_plain rfl rfl rfl) rfl
  | false =>
    refine spec_bind (spec_accept rfl) fun view _ _ => ?_
    cases view with
    | true =>
      refine spec_bind spec_parseOptionalIfExists fun ifExists _ _ => ?_
      refine spec_bind (spec_expectIdent _) fun name _ _ => ?_
      exact spec_pure (single_plain rfl rfl rfl) rfl
    | false =>
      refine spec_bind spec_parseOptionalIfExists fun ifExists _ _ => ?_
      refine spec_bind (spec_expectIdent _) fun table _ _ => ?_
      exact spec_pure (single_plain rfl rfl rfl) rfl

lemma parseRefreshView_spec (hc : 1 ≤ c) :
    SingleSpec f holes ts c n B parseRefreshView parseRefreshView := by
  refine spec_call hc (spec_word rfl ?_)
  refine spec_bind (spec_expectIdent _) fun name _ _ => ?_
  exact spec_pure (single_plain rfl rfl rfl) rfl

lemma parseModifiers_spec :
    Spec f holes ts c n n id (fun _ _ => True) parseModifiers parseModifiers := by
  refine spec_collect id (fun _ => True) ?_ trivial
  intro m ts _
  refine spec_peekAhead (spec_ite (fun _ => spec_return trivial) fun _ => ?_)
  rcases ts with _ | ⟨t,ts⟩
  · exact spec_return trivial
  cases t with
  | kw k =>
    cases k with
    | required | unique | auto => exact spec_skip rfl (spec_return ⟨trivial,by omega⟩)
    | _ => exact spec_return trivial
  | _ => exact spec_return trivial

lemma parseDefaultLiteral_spec :
    Spec f holes ts c n n (Option.map f) (fun _ _ => True) parseDefaultLiteral parseDefaultLiteral :=
  spec_bind (spec_expectLiteral _) fun _ _ _ => spec_pure trivial rfl

lemma parseFieldDef_spec :
    Spec f holes ts c n n (FieldDef.map f) (fun _ i => True ∧ 1 ≤ i) parseFieldDef parseFieldDef := by
  refine spec_bind (parseModifiers_spec) fun m _ _ => ?_
  refine spec_bind (spec_expectNamedIdent _) fun name i hi => ?_
  refine spec_word rfl ?_
  refine spec_bind (spec_expectIdent _) fun typeName _ _ => ?_
  refine spec_bind (spec_optionally (fun _ => True) rfl parseDefaultLiteral_spec trivial rfl)
    fun default _ _ => ?_
  exact spec_pure ⟨trivial,by omega⟩ rfl

lemma parseCreateType_spec (hc : 1 ≤ c) :
    SingleSpec f holes ts c n B parseCreateType parseCreateType := by
  refine spec_call hc (spec_word rfl ?_)
  refine spec_bind (spec_expectNamedIdent _) fun name _ _ => ?_
  refine spec_bind spec_parseOptionalIfNotExists fun ifNotExists _ _ => ?_
  refine spec_bind (parseSlots_spec (fun _ => True) parseFieldDef_spec) fun fields _ _ => ?_
  exact spec_pure (single_plain rfl rfl rfl) rfl

lemma parseSchema_spec (hc : 1 ≤ c) :
    SingleSpec f holes ts c n B parseSchema parseSchema := by
  refine spec_call hc (spec_bind (spec_expect rfl) fun {ts} _ _ _ => spec_peek ?_)
  rcases ts with _ | ⟨t,ts⟩
  · exact spec_pure (single_plain rfl rfl rfl) rfl
  cases t with
  | ident name =>
    exact spec_skip rfl (spec_ite (fun _ => spec_pure (single_plain rfl rfl rfl) rfl)
      fun _ => spec_pure (single_plain rfl rfl rfl) rfl)
  | _ => exact spec_pure (single_plain rfl rfl rfl) rfl

lemma parseDescribe_spec (hc : 1 ≤ c) :
    SingleSpec f holes ts c n B parseDescribe parseDescribe := by
  refine spec_call hc (spec_word rfl ?_)
  refine spec_bind (spec_expectNamedIdent _) fun table _ _ => ?_
  exact spec_pure (single_plain rfl rfl rfl) rfl

/-! Unions. -/

/-- The unions among some tokens. -/
def unions (ts : List (Tok ℓ)) : ℕ := ts.countP fun t => t.shape = .kw .union

lemma unions_append (xs ys : List (Tok ℓ)) : unions (xs++ys) = unions xs+unions ys := countP_append

lemma parseUnionAll_spec :
    Spec f holes ts c n n id (fun _ _ => True) parseUnionAll parseUnionAll := by
  refine spec_peek (spec_ite (fun h => ?_) fun _ => spec_return trivial)
  rcases ts with _ | ⟨t,ts⟩
  · cases h
  cases t with
  | ident _ => exact spec_skip rfl (spec_return trivial)
  | _ => cases h

lemma isUnionSide_map (s : Statement ℓ) : isUnionSide (s.map f) = isUnionSide s := by cases s <;> rfl

/-- Whole statements are not held to brackets. -/
def statementSetting (f : ℓ → ℓ') (holes : Holes ℓ) : Setting (ParseError ℓ) (Tok ℓ) (Tok ℓ') :=
  {tokenSetting f holes with level := fun n _ => some n}

lemma statementSetting_walk (n : ℕ) (seg : List (Tok ℓ)) : (statementSetting f holes).walk n seg = some n := by
  induction seg with
  | nil => rfl
  | cons t seg ih => exact ih

abbrev StatementSpec (f : ℓ → ℓ') (holes : Holes ℓ) (ts : List (Tok ℓ)) (c : ℕ) (Q : Statement ℓ → Prop)
    (p : P ℓ (Statement ℓ)) (p' : P ℓ' (Statement ℓ')) : Prop :=
  (statementSetting f holes).SpecAt ts c 0 0 (Statement.map f) (fun s _ => Q s) p p'

/-- What a part of a statement does, whatever its brackets. -/
lemma spec_whole {α α' : Type} {g : α → α'} {Q : α → ℕ → Prop} {p : P ℓ α} {p' : P ℓ' α'}
    (h : Spec f holes ts c n m g Q p p') (hts : (tokenSetting f holes).ok ts) :
    (statementSetting f holes).SpecAt ts c 0 0 g Q p p' :=
  SpecAt.change (h hts) rfl rfl fun seg _ => statementSetting_walk 0 seg

section
variable (hL : LevelOk f holes b D A c₀ L L')
include hL

lemma parseAssignment_spec (hc : c₀ ≤ c) :
    Spec f holes ts c n n (Assignment.map (Expr.map f)) (fun x i => x.value.Within Expr.children D ∧ 1 ≤ i)
      (parseAssignment L) (parseAssignment L') := by
  apply spec_peekAhead
  split
  · exact spec_fail trivial
  · exact spec_fail trivial
  · refine spec_bind (spec_expectNamedIdent _) fun field i hi => ?_
    refine spec_word rfl ?_
    refine spec_bind (hL.expr hc) fun e _ he => ?_
    exact spec_pure ⟨he.1.1,by omega⟩ rfl

lemma parseAssignments_spec (hc : c₀+1 ≤ c) :
    Spec f holes ts c n n (List.map (Assignment.map (Expr.map f))) (fun xs _ => Below D (xs.map Assignment.value))
      (parseAssignments L) (parseAssignments L') := by
  refine spec_call (by omega) (spec_mono (parseSlots_spec
    (fun x : Assignment (Expr ℓ) => x.value.Within Expr.children D) (parseAssignment_spec hL (by omega))) ?_)
  intro xs _ hxs
  simpa [Below] using hxs.1

lemma parseRows_spec (hc : c₀+1 ≤ c) (hrows : Below D (rowValues rows)) :
    Spec f holes ts c (n+1) (n+1) (List.map (List.map (Assignment.map (Expr.map f))))
      (fun rows _ => Below D (rowValues rows)) (parseRows L rows)
      (parseRows L' (rows.map (List.map (Assignment.map (Expr.map f))))) := by
  refine spec_collect (map (map (Assignment.map (Expr.map f)))) (fun rows => Below D (rowValues rows)) ?_ hrows
  intro rows ts hrows
  refine spec_bind (spec_accept rfl) fun more i hi => ?_
  cases more with
  | false => exact spec_pure hrows rfl
  | true =>
    have hi := hi rfl
    refine spec_bind (parseAssignments_spec hL hc) fun row _ hrow => ?_
    exact spec_pure ⟨by simpa [rowValues] using ⟨hrows,hrow⟩,by omega⟩ (by simp)

lemma parseInsert_spec (hc : c₀+2 ≤ c) :
    SingleSpec f holes ts c (n+1) D (parseInsert L) (parseInsert L') := by
  refine spec_call (by omega) (spec_word rfl ?_)
  refine spec_bind (spec_expectIdent _) fun target _ _ => ?_
  refine spec_bind (parseAssignments_spec hL (by omega)) fun first _ hfirst => ?_
  refine spec_bind (parseRows_spec hL (by omega)
    (show Below D (rowValues [first]) by simpa [rowValues] using hfirst))
    fun rows _ hrows => ?_
  refine spec_bind (spec_accept rfl) fun returning _ _ => ?_
  exact spec_pure ⟨rfl,hrows,rfl⟩ rfl

lemma parseUpsert_spec (hc : c₀+2 ≤ c) :
    SingleSpec f holes ts c (n+1) D (parseUpsert L) (parseUpsert L') := by
  refine spec_call (by omega) (spec_word rfl ?_)
  refine spec_bind (spec_expectIdent _) fun target _ _ => ?_
  refine spec_word rfl ?_
  refine spec_bind (spec_expectDotIdent _) fun key _ _ => ?_
  refine spec_bind (parseAssignments_spec hL (by omega)) fun xs _ hxs => ?_
  refine spec_bind (spec_optionally (fun ys => Below D (ys.map Assignment.value)) rfl
    (spec_bind (spec_expect rfl) fun _ _ _ => parseAssignments_spec hL (by omega)) below_nil rfl) fun ys _ hys => ?_
  exact spec_pure ⟨rfl,below_append.mpr ⟨hxs,hys⟩,rfl⟩ rfl

lemma parseMutation_spec (hc : c₀+1 ≤ c) {p : Pipeline ℓ} (hp : p.Ok b D A) :
    SingleSpec f holes ts c n (D+A+b+1) (parseMutation L p.query)
      (parseMutation L' (p.query.map (Expr.map f))) := by
  have hquery : SingleSpec f holes ts c n (D+A+b+1) (pure (.query p.query))
      (pure (.query (p.query.map (Expr.map f)))) := spec_pure ⟨rfl,hp.exprs,rfl⟩ rfl
  have hjoins : (p.query.map (Expr.map f)).joins.isEmpty = p.query.joins.isEmpty := isEmpty_map _ _
  have hfilter : Below (D+A+b+1) p.query.filter.toList := hp.filter.mono (by omega)
  apply spec_peek
  rcases ts with _ | ⟨t,ts⟩
  · exact hquery
  cases t with
  | kw k =>
    cases k with
    | update =>
      rw [hjoins]
      refine spec_ite (fun _ => spec_skip rfl ?_) fun _ => spec_fail trivial
      refine spec_bind (parseAssignments_spec hL hc) fun xs _ hxs => ?_
      refine spec_bind (spec_accept rfl) fun returning _ _ => ?_
      exact spec_pure ⟨rfl,below_append.mpr ⟨hfilter,hxs.mono (by omega)⟩,rfl⟩ rfl
    | delete =>
      rw [hjoins]
      refine spec_ite (fun _ => spec_skip rfl ?_) fun _ => spec_fail trivial
      refine spec_bind (spec_accept rfl) fun returning _ _ => ?_
      exact spec_pure ⟨rfl,hfilter,rfl⟩ rfl
    | _ => exact hquery
  | _ => exact hquery

lemma parseQueryOrMutation_spec (hc₀ : 1 ≤ c₀) (hc : c₀+2 ≤ c) :
    SingleSpec f holes ts c (n+1) (D+A+b+1) (parseQueryOrMutation L)
      (parseQueryOrMutation L') := by
  refine spec_call (by omega) (spec_bind (spec_expectIdent _) fun source _ _ => ?_)
  refine spec_bind (tryParseAlias_spec (by omega)) fun aliasName _ _ => ?_
  refine spec_bind (parseJoins_spec hL hc₀ (by omega)) fun joins _ hjoins => ?_
  refine spec_bind (parseClauses_spec hL hc₀ (by omega) (Pipeline.start_ok hjoins)) fun q _ hq => ?_
  obtain ⟨p,hp,rfl⟩ := hq
  exact parseMutation_spec hL (by omega) hp

lemma parseAggregateQuery_spec (hc₀ : 1 ≤ c₀) (hc : c₀+3 ≤ c)
    (hlevel : bracketLevel (n+1) (.kw k : Tok ℓ) = some (n+1)) (g : AggFunc) :
    Spec f holes (.kw k::ts) c (n+1) (n+1) (Statement.map f) (fun s _ => s.Single (D+A+b+1)) (parseAggregateQuery L g)
      (parseAggregateQuery L' g) := by
  refine spec_call (by omega) (spec_skip hlevel (spec_word rfl ?_))
  refine spec_bind (parseAggregateMode_spec) fun mode _ _ => ?_
  refine spec_bind (parseDistinct_spec g) fun g _ _ => ?_
  refine spec_bind (spec_expectIdent _) fun source _ _ => ?_
  refine spec_bind (parseQueryTail_spec hL hc₀ (by omega) source) fun q _ hq => ?_
  refine spec_word rfl ?_
  exact spec_pure ⟨rfl,withAggregation_below hq g mode,rfl⟩ (congrArg Statement.query (withAggregation_map g mode q))

lemma parseIndexTarget_spec (hc : c₀+1 ≤ c) (action : String) :
    Spec f holes ts c n n id (fun _ _ => True) (parseIndexTarget L action) (parseIndexTarget L' action) := by
  refine spec_call (by omega) (spec_peekAhead ?_)
  rcases ts with _ | ⟨t,ts⟩
  · exact spec_unexpected _
  cases t with
  | dotIdent name =>
    refine spec_ite (fun _ => spec_fail trivial) fun _ => ?_
    exact spec_bind (spec_expectDotIdent _) fun column _ _ => spec_pure trivial rfl
  | kw k =>
    cases k with
    | lParen =>
      refine spec_skip (j := n+1) rfl (spec_bind (fun hts => SpecAt.mapError (fun e _ => by cases e <;> trivial)
        (hL.expr (by omega) hts)) fun {ts} e _ _ => spec_peek ?_)
      refine spec_ite (fun hclose => ?_) fun _ => spec_fail trivial
      obtain ⟨ts,rfl⟩ := head_kw hclose
      exact spec_skip rfl (spec_lift (indexTargetOf_map action e))
    | _ => exact spec_unexpected _
  | _ => exact spec_unexpected _

lemma parseAlterAdd_spec (hc : c₀+1 ≤ c) (table : String) :
    SingleSpec f holes ts c n B (parseAlterAdd L table) (parseAlterAdd L' table) := by
  apply spec_peek
  rcases ts with _ | ⟨t,ts⟩
  · exact parseAddColumn_spec table
  cases t with
  | kw k =>
    cases k with
    | index | unique =>
      refine spec_skip rfl (spec_bind spec_parseOptionalIfNotExists fun ifNotExists _ _ => ?_)
      refine spec_bind (parseIndexTarget_spec hL hc _) fun target _ _ => ?_
      exact spec_pure (single_plain rfl rfl rfl) rfl
    | link =>
      refine spec_skip rfl (spec_bind (spec_expectNamedIdent _) fun name _ _ => ?_)
      refine spec_bind (parseLinkTail_spec (by omega)) fun r _ _ => ?_
      exact spec_pure (single_plain rfl rfl rfl) rfl
    | _ => exact parseAddColumn_spec table
  | _ => exact parseAddColumn_spec table

lemma parseAlterDrop_spec (hc : c₀+1 ≤ c) (table : String) :
    SingleSpec f holes ts c n B (parseAlterDrop L table)
      (parseAlterDrop L' table) := by
  apply spec_peek
  have hcolumn : SingleSpec f holes ts c n B
      (do
        let _ ← accept .column
        let ifExists ← parseOptionalIfExists
        let name ← expectNamedIdent "column name"
        pure (.alterTable table (.dropColumn name ifExists)))
      (do
        let _ ← accept .column
        let ifExists ← parseOptionalIfExists
        let name ← expectNamedIdent "column name"
        pure (.alterTable table (.dropColumn name ifExists))) := by
    refine spec_bind (spec_accept rfl) fun _ _ _ => ?_
    refine spec_bind spec_parseOptionalIfExists fun ifExists _ _ => ?_
    refine spec_bind (spec_expectNamedIdent _) fun name _ _ => ?_
    exact spec_pure (single_plain rfl rfl rfl) rfl
  rcases ts with _ | ⟨t,ts⟩
  · exact hcolumn
  cases t with
  | kw k =>
    cases k with
    | index =>
      refine spec_skip rfl (spec_bind spec_parseOptionalIfExists fun ifExists _ _ => ?_)
      refine spec_bind (parseIndexTarget_spec hL hc _) fun target _ _ => ?_
      exact spec_pure (single_plain rfl rfl rfl) rfl
    | link =>
      refine spec_skip rfl (spec_bind spec_parseOptionalIfExists fun ifExists _ _ => ?_)
      refine spec_bind (spec_expectNamedIdent _) fun name _ _ => ?_
      exact spec_pure (single_plain rfl rfl rfl) rfl
    | _ => exact hcolumn
  | _ => exact hcolumn

lemma parseAlterTable_spec (hc : c₀+2 ≤ c) :
    SingleSpec f holes ts c n B (parseAlterTable L) (parseAlterTable L') := by
  refine spec_call (by omega) (spec_word rfl ?_)
  refine spec_bind (spec_expectIdent _) fun table _ _ => ?_
  refine spec_bind (spec_accept rfl) fun add _ _ => ?_
  cases add with
  | true => exact parseAlterAdd_spec hL (by omega) table
  | false =>
    refine spec_bind (spec_accept rfl) fun drop _ _ => ?_
    cases drop with
    | true => exact parseAlterDrop_spec hL (by omega) table
    | false => exact spec_unexpected _

lemma parseCreateView_spec (hR : Agrees f holes R R') (hc₀ : 1 ≤ c₀) (hc : c₀+3 ≤ c) :
    Spec f holes ts c (n+1) (n+1) (Statement.map f) (fun s _ => s.Bare (some (.kw .materialized)) (D+A+b+1)) (parseCreateView R L)
      (parseCreateView R' L') := by
  refine spec_call (by omega) (spec_word rfl ?_)
  refine spec_bind (spec_expectIdent _) fun name _ _ => ?_
  refine spec_bind (spec_expect rfl) fun {ts} _ _ _ => ?_
  have hquery : Spec f holes ts (c-1) (n+1) (n+1) (QueryExpr.map (Expr.map f)) (fun q _ => Below (D+A+b+1) q.exprs)
      (expectIdent "source table name" >>= parseQueryTail L) (expectIdent "source table name" >>= parseQueryTail L') :=
    spec_bind (spec_expectIdent _) fun source _ _ => parseQueryTail_spec hL hc₀ (by omega) source
  refine spec_bind (fun hts => SpecAt.taking (hquery hts)) fun r _ hr => ?_
  dsimp only [Prod.map]
  rw [show (tokenSetting f holes).map = Tok.map f from rfl,hR.storable]
  exact spec_ite (fun _ => spec_pure ⟨rfl,hr,fun h => absurd rfl h⟩ rfl) fun _ => spec_fail trivial

lemma parseSingleQuery_spec (hc₀ : 1 ≤ c₀) (hc : c₀+4 ≤ c) :
    SingleSpec f holes ts c (n+1) (D+A+b+1) (parseSingleQuery L)
      (parseSingleQuery L') := by
  refine spec_call (by omega) (spec_peek ?_)
  rcases ts with _ | ⟨t,ts⟩
  · exact spec_fail trivial
  cases t with
  | ident name => exact parseQueryOrMutation_spec hL hc₀ (by omega)
  | kw k =>
    dsimp only [head?_cons,map_some,Tok.shape,Tok.map]
    cases hg : aggregateOf k with
    | none => exact spec_fail trivial
    | some g => exact parseAggregateQuery_spec hL hc₀ (by omega) (function_level (by simp [hg]) _) g
  | _ => exact spec_fail trivial

lemma parseBareStatement_spec (hR : Agrees f holes R R') (hc₀ : 1 ≤ c₀) (hc : c₀+3 ≤ c) :
    Spec f holes ts c (n+1) (n+1) (Statement.map f)
      (fun s _ => s.Bare (ts.head?.map Tok.shape) (D+A+b+1))
      (parseBareStatement R L (ts.head?.map Tok.shape)) (parseBareStatement R' L' (ts.head?.map Tok.shape)) := by
  have hwide : ∀ {t : Option (Tok Unit)} (s : Statement ℓ) (_ : ℕ), s.Single D → s.Bare t (D+A+b+1) :=
    fun s _ h => ⟨h.parts,h.exprs.mono (by omega),fun _ => h.view⟩
  have hbare : ∀ {t : Option (Tok Unit)} (s : Statement ℓ) (_ : ℕ), s.Single (D+A+b+1) → s.Bare t (D+A+b+1) :=
    fun s _ h => h.bare
  rcases ts with _ | ⟨t,ts⟩
  · exact spec_unexpected _
  cases t with
  | ident name => exact spec_mono (parseQueryOrMutation_spec hL hc₀ (by omega)) hbare
  | kw k =>
    have hother : Spec f holes (.kw k::ts) c (n+1) (n+1) (Statement.map f) (fun s _ => s.Bare (some (.kw k)) (D+A+b+1))
        ((aggregateOf k).elim (unexpected "statement") (parseAggregateQuery L))
        ((aggregateOf k).elim (unexpected "statement") (parseAggregateQuery L')) := by
      cases hg : aggregateOf k with
      | none => exact spec_unexpected _
      | some g => exact spec_mono (parseAggregateQuery_spec hL hc₀ hc (function_level (by simp [hg]) _) g) hbare
    cases k with
    | insert => exact spec_mono (parseInsert_spec hL (by omega)) hwide
    | upsert => exact spec_mono (parseUpsert_spec hL (by omega)) hwide
    | type => exact spec_mono (parseCreateType_spec (by omega)) hbare
    | link => exact spec_mono (parseCreateLink_spec (by omega)) hbare
    | alter => exact spec_mono (parseAlterTable_spec hL (by omega)) hbare
    | drop => exact spec_mono (parseDropOrDropView_spec (by omega)) hbare
    | materialized => exact parseCreateView_spec hL hR hc₀ hc
    | refresh => exact spec_mono (parseRefreshView_spec (by omega)) hbare
    | schema => exact spec_mono (parseSchema_spec (by omega)) hbare
    | describe => exact spec_mono (parseDescribe_spec (by omega)) hbare
    | update | delete => exact spec_fail trivial
    | _ => exact hother
  | _ => exact spec_unexpected _

/-- Each union is one call and one level of the tree more. -/
lemma maybeParseUnion_spec (hc₀ : 1 ≤ c₀) (fuel : ℕ)
    (hts : (tokenSetting f holes).ok ts) (hfuel : ts.length ≤ fuel) (hu : unions ts ≤ u) (hleft : left.Within (d+1))
    (hd : D+A+b+1 ≤ d) (hc : c₀+5+u ≤ c) :
    StatementSpec f holes ts c (fun s => s.Within (d+1+u)) (maybeParseUnion L fuel left)
      (maybeParseUnion L' fuel (left.map f)) := by
  induction fuel generalizing ts u d left c with
  | zero =>
    obtain rfl : ts = [] := eq_nil_of_length_eq_zero (by omega)
    obtain ⟨c,rfl⟩ : ∃ c', c = c'+1 := ⟨c-1,by omega⟩
    exact SpecAt.call (specAt_peek rfl (SpecAt.pure (hleft.mono (by omega))))
  | succ fuel ih =>
    obtain ⟨c,rfl⟩ : ∃ c', c = c'+1 := ⟨c-1,by omega⟩
    rw [maybeParseUnion,maybeParseUnion,isUnionSide_map]
    refine SpecAt.call (specAt_peek rfl ?_)
    by_cases hunion : ts.head?.map Tok.shape = some (.kw .union)
    · obtain ⟨ts,rfl⟩ := head_kw hunion
      cases isUnionSide left with
      | false => exact SpecAt.fail trivial
      | true =>
        have htail := (tokenSetting f holes).ok_tail hts
        have hall : (statementSetting f holes).SpecAt ts c 0 0 id (fun _ _ => True) parseUnionAll parseUnionAll :=
          spec_whole (n := 1) parseUnionAll_spec htail
        refine SpecAt.token_bind rfl rfl rfl (SpecAt.bind_walk hall hall fun all seg rest hseg _ _ => ?_)
        subst hseg
        have hrest := (tokenSetting f holes).ok_append htail
        have hsingle := spec_whole (c := c) (parseSingleQuery_spec (n := 0) hL hc₀ (by omega)) hrest
        refine SpecAt.bind_walk hsingle hsingle fun right seg₂ rest hseg _ hright => ?_
        subst hseg
        have hcount : unions (Tok.kw .union::(seg++(seg₂++rest)) : List (Tok ℓ)) = unions seg+unions seg₂+unions rest+1 := by
          simp only [unions,Tok.shape,Tok.map]
          simp
          omega
        have hlength : rest.length ≤ fuel := by
          simp only [length_cons,length_append] at hfuel
          omega
        have hboth : (Statement.union left right all).Within (d+1+1) := by
          refine .node ?_ (by simp [Statement.exprs])
          simpa [Statement.parts] using ⟨hleft,hright.within.mono (by omega)⟩
        refine SpecAt.mono (ih (u := u-1) ((tokenSetting f holes).ok_append hrest) hlength (by omega) hboth (by omega)
          (by omega)) (Nat.le_refl c) fun s _ hs => hs.mono (by omega)
    · rw [if_neg hunion,if_neg hunion]
      exact SpecAt.pure (hleft.mono (by omega))

lemma maybeParseUnions_spec (hc₀ : 1 ≤ c₀) (hts : (tokenSetting f holes).ok ts)
    (hu : unions ts ≤ u) (hleft : left.Within (d+1)) (hd : D+A+b+1 ≤ d) (hc : c₀+5+u ≤ c) :
    StatementSpec f holes ts c (fun s => s.Within (d+1+u)) (maybeParseUnions L left)
      (maybeParseUnions L' (left.map f)) := by
  have h := maybeParseUnion_spec hL hc₀ ts.length hts le_rfl hu hleft hd hc
  simp only [SpecAt,maybeParseUnions,length_map] at h ⊢
  exact h

end

/-- How deep a statement can be with so many levels of nesting and no union. -/
def statementDepth (b : ℕ) : ℕ := treeDepth b+aliasDepth b+b+3

/-- How high its calls rise. -/
def statementHeight (b : ℕ) : ℕ := callHeight b+6

lemma statement_plain (hparts : s.parts = []) (hexprs : s.exprs = []) (hview : s.viewText = none) :
    s.Within (B+1) :=
  (single_plain hparts hexprs hview).within

lemma parseStatement_spec (hR : Agrees f holes R R') (b : ℕ) (hts : (tokenSetting f holes).ok ts)
    (hu : unions ts ≤ u) (hc : statementHeight b+u ≤ c) :
    StatementSpec f holes ts c (fun s => s.Within (statementDepth b+u)) (parseStatement R b)
      (parseStatement R' b) := by
  induction b generalizing ts c with
  | zero =>
    obtain ⟨c,rfl⟩ : ∃ c', c = c'+1 := ⟨c-1,by simp only [statementHeight] at hc; omega⟩
    exact SpecAt.call (SpecAt.fail trivial)
  | succ b ih =>
    obtain ⟨c,rfl⟩ : ∃ c', c = c'+1 := ⟨c-1,by simp only [statementHeight] at hc; omega⟩
    refine SpecAt.call (specAt_peek rfl ?_)
    have hheight : callHeight b+5+u ≤ c := by
      simp only [statementHeight,callHeight] at hc ⊢
      omega
    have hdepth : ∀ j, statementDepth (b+1)+j = (statementDepth (b+1)+j-1)+1 := fun j => by
      simp only [statementDepth]
      omega
    have hother : StatementSpec f holes ts c (fun s => s.Within (statementDepth (b+1)+u))
        (parseBareStatement R (level R b) (ts.head?.map Tok.shape) >>= maybeParseUnions (level R b))
        (parseBareStatement R' (level R' b) (ts.head?.map Tok.shape) >>= maybeParseUnions (level R' b)) := by
      have hL := level_ok hR b
      have hone : 1 ≤ callHeight b := Nat.le_add_left 1 (8*b)
      have hbare := spec_whole (c := c) (parseBareStatement_spec (n := 0) hL hR hone (by omega)) hts
      refine SpecAt.bind_walk hbare hbare fun left seg rest hseg _ hleft => ?_
      subst hseg
      have hunions := unions_append seg rest
      refine SpecAt.mono (maybeParseUnions_spec hL hone ((tokenSetting f holes).ok_append hts) (u := u) (by omega)
        hleft.within le_rfl hheight) (Nat.le_refl c) fun s _ hs => Statement.Within.mono hs ?_
      simp only [statementDepth,treeDepth]
      omega
    rcases ts with _ | ⟨t,ts⟩
    · exact hother
    have htail := (tokenSetting f holes).ok_tail hts
    have hunions : unions ts ≤ u := Nat.le_trans (by simp [unions,countP_cons]) hu
    cases t with
    | kw k =>
      cases k with
      | explain =>
        have hrec := ih (c := c) htail hunions (by
          simp only [statementHeight,callHeight] at hc ⊢
          omega)
        refine SpecAt.token_bind rfl rfl rfl (SpecAt.bind_walk hrec hrec fun s seg rest hseg _ hs => ?_)
        apply SpecAt.pure
        rw [hdepth]
        refine .node ?_ (by simp [Statement.exprs])
        simp only [Statement.parts,mem_singleton,forall_eq]
        exact hs.mono (by simp only [statementDepth,treeDepth]; omega)
      | begin =>
        have haccept : (statementSetting f holes).SpecAt ts c 0 0 id (fun b i => b = true → 1 ≤ i)
            (accept .transaction) (accept .transaction) := spec_whole (n := 1) (spec_accept rfl) htail
        refine SpecAt.token_bind rfl rfl rfl (SpecAt.bind_walk haccept haccept fun _ seg rest hseg _ _ => ?_)
        apply SpecAt.pure
        rw [hdepth]
        exact statement_plain rfl rfl rfl
      | commit | rollback =>
        refine SpecAt.token_bind rfl rfl rfl (SpecAt.pure ?_)
        rw [hdepth]
        exact statement_plain rfl rfl rfl
      | _ => exact hother
    | _ => exact hother

/-- A whole text: the statement takes every token. -/
lemma parseTokens_spec (hR : Agrees f holes R R') (hts : (tokenSetting f holes).ok ts) (hu : unions ts ≤ u)
    (hc : statementHeight maxNestingDepth+1+u ≤ c) :
    StatementSpec f holes ts c (fun s => s.Within (statementDepth maxNestingDepth+u)) (parseTokens R)
      (parseTokens R') := by
  obtain ⟨c,rfl⟩ : ∃ c', c = c'+1 := ⟨c-1,by omega⟩
  have hstatement := parseStatement_spec hR maxNestingDepth (c := c) hts hu (by omega)
  refine SpecAt.call (SpecAt.bind_walk hstatement hstatement fun s seg rest _ _ hs => SpecAt.look ?_)
  rcases rest with _ | ⟨t,rest⟩
  · exact SpecAt.pure hs
  · exact SpecAt.fail trivial

end PowDB.Syntax
