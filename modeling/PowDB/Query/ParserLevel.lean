import PowDB.Query.PipelineSpec

/-! Expressions, and the levels of nesting: if the functions of one level do what they
should, so do those of the next. -/
namespace PowDB.Syntax
open List Option
open Query (BinOp UnaryOp ScalarFn CastType PathSeg)
open Lib (Setting)
open Lib.Setting (SpecAt)
open Lib.Parser (fail call loop token)
open PowDB.Syntax.Expr (fits_node fits_closed)

section comparisons
variable {ℓ ℓ' : Type} {f : ℓ → ℓ'} {holes : Holes ℓ} {b D A c₀ : ℕ} {L : Level ℓ} {L' : Level ℓ'}
  {R : Reader ℓ} {R' : Reader ℓ'} {c n : ℕ} {ts : List (Tok ℓ)}
  {e : Expr ℓ}

lemma comparisonOp_level (h : comparisonOp t.shape = some op) (n : ℕ) :
    bracketLevel n t = some n := by
  rcases t with _ | _ | _ | _ | k
  all_goals try cases h
  cases k <;> first | rfl | cases h

lemma negate_fits (he : e.Fits D A) (k : ℕ) : (negate k e).Fits (D+k) (A+k) := by
  induction k with
  | zero => exact he
  | succ k ih => exact ih.unaryOp .not

lemma negate_map (k : ℕ) (e : Expr ℓ) : (negate k e).map f = negate k (e.map f) := by
  induction k with
  | zero => rfl
  | succ k ih => simp [negate,ih]

section
variable (hL : LevelOk f holes b D A c₀ L L')
include hL

lemma parseInList_spec (hc₀ : 1 ≤ c₀) (hc : c₀+3 ≤ c) (he : e.Fits (D+2*b) (A+2*b)) (negated : Bool) :
    Spec f holes ts c n n (Expr.map f) (fun e _ => e.Fits (D+A+2*b+2) (A+2*b+2)) (parseInList L e negated)
      (parseInList L' (e.map f) negated) := by
  refine spec_call (by omega) (spec_word rfl ?_)
  refine spec_peekAhead (spec_ite (fun _ => ?_) fun _ => ?_)
  · refine spec_bind (parseSubquery_spec hL hc₀ (by omega)) fun q _ hq => ?_
    refine spec_pure (fits_closed ?_ rfl) (by simp)
    exact below_cons.mpr ⟨he.1.mono (by omega),hq.mono (by omega)⟩
  · refine spec_bind (parseExprList_spec hL .rParen (by omega)) fun es _ hes => ?_
    refine spec_bind (spec_expect rfl) fun _ _ _ => ?_
    have hlist := he.inList negated fun e' he' => (hes e' he').mono (by omega) (by omega)
    exact spec_pure (hlist.mono (by omega) (by omega)) (by simp)

lemma tryParseExistsSubquery_spec (hc₀ : 1 ≤ c₀) (hc : c₀+3 ≤ c)
    : Spec f holes ts c n n (Option.map (QueryExpr.map (Expr.map f)))
      (fun r _ => ∀ q, r = some q → Below (D+A+b+1) q.exprs) (tryParseExistsSubquery L)
      (tryParseExistsSubquery L') := by
  refine spec_call (by omega) (spec_peekAhead (spec_ite (fun _ => ?_) fun _ => spec_return (by simp)))
  refine spec_word rfl ?_
  refine spec_bind (parseSubquery_spec hL hc₀ (by omega)) fun q _ hq => ?_
  exact spec_pure (by simpa using hq) rfl

lemma parseBetween_spec (hc : c₀+3 ≤ c) (he : e.Fits (D+2*b) (A+2*b)) (negated : Bool) :
    Spec f holes ts c n n (Expr.map f) (fun e _ => e.Fits (D+A+2*b+2) (A+2*b+2)) (parseBetween L e negated)
      (parseBetween L' (e.map f) negated) := by
  refine spec_call (by omega) (spec_bind (parseAdditive_spec hL (by omega)) fun low _ hlow => ?_)
  refine spec_word rfl ?_
  refine spec_bind (parseAdditive_spec hL (by omega)) fun high _ hhigh => ?_
  have hboth : ∀ op₁ op op₂ : BinOp, (Expr.binaryOp (.binaryOp e op₁ low) op (.binaryOp e op₂ high)).Fits
      (D+A+2*b+2) (A+2*b+2) := fun op₁ op op₂ =>
    ((he.binaryOp op₁ hlow.1).binaryOp op (he.binaryOp op₂ hhigh.1)).mono (by omega) (by omega)
  exact spec_ite (fun _ => spec_pure (hboth _ _ _) rfl) fun _ => spec_pure (hboth _ _ _) rfl

lemma parseComparisonRest_spec (hc : c₀+2 ≤ c) (hleft : left.Fits (D+2*b) (A+2*b)) :
    Spec f holes ts c n n (Expr.map f) (fun e _ => e.Fits (D+A+2*b+2) (A+2*b+2)) (parseComparisonRest L left)
      (parseComparisonRest L' (left.map f)) := by
  apply spec_peek
  cases hop : (ts.head?.map Tok.shape).bind comparisonOp with
  | none => exact spec_pure (hleft.mono (by omega) (by omega)) rfl
  | some op =>
    rcases ts with _ | ⟨t,ts⟩
    · cases hop
    refine spec_skip (comparisonOp_level hop n) (spec_peek ?_)
    have hcompare : ∀ op : BinOp, Spec f holes ts c n n (Expr.map f) (fun e _ => e.Fits (D+A+2*b+2) (A+2*b+2))
        (do
          let right ← parseAdditive L
          pure (.binaryOp left op right))
        (do
          let right ← parseAdditive L'
          pure (.binaryOp (left.map f) op right)) := by
      intro op
      refine spec_bind (parseAdditive_spec hL (by omega)) fun right _ hright => ?_
      exact spec_pure ((hleft.binaryOp op hright.1).mono (by omega) (by omega)) rfl
    by_cases hnull : ts.head?.map Tok.shape = some (.kw .null)
    · obtain ⟨ts,rfl⟩ := head_kw hnull
      cases nullTest op with
      | none => exact hcompare op
      | some test => exact spec_skip rfl (spec_pure ((hleft.unaryOp test).mono (by omega) (by omega)) rfl)
    · simp only [hnull]
      cases nullTest op with
      | none | some test => exact hcompare op

lemma parseComparisonBody_spec (hc₀ : 1 ≤ c₀) (hc : c₀+4 ≤ c) :
    ExprSpec f holes ts c n (D+A+2*b+2) (A+2*b+2) (parseComparisonBody L)
      (parseComparisonBody L') := by
  apply spec_call (by omega)
  refine spec_bind (parseAdditive_spec hL (by omega)) fun {ts} left i hleft => ?_
  obtain ⟨hleft,hi⟩ := hleft
  refine spec_mono (Q := fun e _ => e.Fits (D+A+2*b+2) (A+2*b+2)) ?_ fun e _ he => ⟨he,by omega⟩
  apply spec_peekAhead
  have hrest : ∀ ts, Spec f holes ts (c-1) n n _ _ _ _ := fun _ => parseComparisonRest_spec hL (by omega) hleft
  rcases ts with _ | ⟨t,ts⟩
  · exact hrest _
  cases t with
  | kw k =>
    cases k with
    | is =>
      refine spec_skip rfl (spec_bind (spec_accept rfl) fun negated _ _ => ?_)
      refine spec_word rfl ?_
      exact spec_pure ((hleft.unaryOp _).mono (by omega) (by omega)) rfl
    | inKw => exact spec_skip rfl (parseInList_spec hL hc₀ (by omega) hleft false)
    | like =>
      refine spec_skip rfl (spec_bind (parseAdditive_spec hL (by omega)) fun r _ hr => ?_)
      exact spec_pure ((hleft.binaryOp .like hr.1).mono (by omega) (by omega)) rfl
    | between => exact spec_skip rfl (parseBetween_spec hL (by omega) hleft false)
    | not =>
      rcases ts with _ | ⟨t,ts⟩
      · exact hrest _
      cases t with
      | kw k =>
        cases k with
        | inKw => exact spec_skip rfl (spec_skip rfl (parseInList_spec hL hc₀ (by omega) hleft true))
        | like =>
          refine spec_skip rfl (spec_skip rfl ?_)
          refine spec_bind (parseAdditive_spec hL (by omega)) fun r _ hr => ?_
          exact spec_pure (((hleft.binaryOp .like hr.1).unaryOp .not).mono (by omega) (by omega)) rfl
        | between => exact spec_skip rfl (spec_skip rfl (parseBetween_spec hL (by omega) hleft true))
        | _ => exact hrest _
      | _ => exact hrest _
    | _ => exact hrest _
  | _ => exact hrest _

lemma parseNegations_spec :
    Spec f holes ts c n n id (fun k _ => k ≤ b) (parseNegations L) (parseNegations L') := by
  refine spec_collect id (fun k => k ≤ b) ?_ (Nat.zero_le b)
  intro k ts hk
  refine spec_peekAhead (spec_ite (fun hnot => ?_) fun _ => spec_return hk)
  obtain ⟨ts,rfl⟩ := at_kw hnot.1
  exact spec_skip rfl (checkChainDepth_bind hL fun hkb => spec_return ⟨hkb,by omega⟩)

lemma parseComparison_spec (hc₀ : 1 ≤ c₀) (hc : c₀+5 ≤ c) :
    ExprSpec f holes ts c n (D+A+3*b+2) (A+3*b+2) (parseComparison L)
      (parseComparison L') := by
  refine spec_call (by omega) (spec_bind (parseNegations_spec hL) fun k _ hk => ?_)
  refine spec_bind (parseComparisonBody_spec hL hc₀ (by omega)) fun e i he => ?_
  exact spec_pure ⟨(negate_fits he.1 k).mono (by omega) (by omega),by omega⟩ (negate_map k e)

lemma parseAndExpr_spec (hc₀ : 1 ≤ c₀) (hc : c₀+6 ≤ c) :
    ExprSpec f holes ts c n (D+A+4*b+2) (A+4*b+2) (parseAndExpr L)
      (parseAndExpr L') := by
  refine spec_call (by omega) (spec_mono (parseChain_spec hL ?_ (parseComparison_spec hL hc₀ (by omega)))
    fun e i he => ⟨he.1.mono (by omega) (by omega),he.2⟩)
  intro t n ht
  rcases t with _ | _ | _ | _ | k
  all_goals try cases ht
  cases k <;> first | rfl | cases ht

lemma parseOrExpr_spec (hc₀ : 1 ≤ c₀) (hc : c₀+7 ≤ c) :
    ExprSpec f holes ts c n (D+A+5*b+2) (A+5*b+2) (parseOrExpr L)
      (parseOrExpr L') := by
  refine spec_call (by omega) (spec_mono (parseChain_spec hL ?_ (parseAndExpr_spec hL hc₀ (by omega)))
    fun e i he => ⟨he.1.mono (by omega) (by omega),he.2⟩)
  intro t n ht
  rcases t with _ | _ | _ | _ | k
  all_goals try cases ht
  cases k <;> first | rfl | cases ht

end

end comparisons

section primaries
variable {ℓ ℓ' : Type} {f : ℓ → ℓ'} {holes : Holes ℓ} {b D A c₀ : ℕ} {L : Level ℓ} {L' : Level ℓ'}
  {R : Reader ℓ} {R' : Reader ℓ'} {c n : ℕ}
  {e : Expr ℓ} {k : Keyword}

/-- A literal read for something else than a value. -/
lemma reads_literal {α : Type} {x : Except (ParseError ℓ) α} {y : Except (ParseError ℓ') α} (h : SameOutcome x y)
    {r : Option (Tok ℓ) → Except (ParseError ℓ) α} {r' : Option (Tok ℓ') → Except (ParseError ℓ') α}
    (hr : r (some (.lit l)) = x) (hr' : r' (some (.lit (f l))) = y) :
    (tokenSetting f holes).Reads n n id (fun _ i => 1 ≤ i) r r' (some (.lit l)) := by
  subst hr hr'
  simp only [Setting.Reads]
  cases hx : r (some (.lit l)) with
  | error e =>
    rw [hx] at h
    exact h
  | ok a =>
    rw [hx] at h
    exact ⟨h,Nat.le_refl 1,_,rfl,rfl⟩

lemma parsePathSegment_spec (hR : Agrees f holes R R') (hts : (tokenSetting f holes).ok (.kw .arrow::ts)) :
    Spec f holes ts c n n id (fun _ i => 1 ≤ i) (parsePathSegment R) (parsePathSegment R') := by
  apply spec_token
  rcases ts with _ | ⟨t,ts⟩
  · exact ⟨trivial,_,rfl⟩
  cases t with
  | ident name => exact ⟨rfl,Nat.le_refl 1,_,rfl,rfl⟩
  | lit l => exact reads_literal (hR.pathSegment l fun hl => hts.1 ⟨[],l,_,rfl,hl⟩) rfl rfl
  | _ => exact ⟨trivial,_,rfl⟩

lemma parsePathSegments_spec (hR : Agrees f holes R R') :
    Spec f holes ts c n n id (fun _ _ => True) (parsePathSegments R) (parsePathSegments R') := by
  refine spec_collect id (fun _ => True) ?_ trivial
  intro ss ts _ hts
  refine spec_accept_bind rfl (fun rest hrest => ?_) (spec_return trivial) hts
  subst hrest
  exact spec_bind (parsePathSegment_spec hR hts) fun s i _ => spec_return ⟨trivial,by omega⟩

lemma isPathBase_map (e : Expr ℓ) : isPathBase (e.map f) = isPathBase e := by
  cases e <;> simp [isPathBase]

lemma extendPath_fits (he : e.Fits (D+2) (A+1)) (hbase : isPathBase e = true) (ss : List PathSeg) :
    (extendPath ss e).Fits (D+2) (A+1) := by
  have hleaf : ∀ e' : Expr ℓ, e'.children = [] → (Expr.jsonPath e' ss).Fits (D+2) (A+1) := fun e' he' =>
    fits_closed (below_cons.mpr ⟨.node (by simp [he']),below_nil⟩) rfl
  cases e with
  | field name | qualifiedField q name => exact hleaf _ rfl
  | jsonPath base inner =>
    cases he.1 with
    | node hbase => exact fits_closed hbase rfl
  | _ => cases hbase

lemma parseJsonPathPostfix_spec (hR : Agrees f holes R R') (hc : 1 ≤ c) (he : e.Fits (D+2) (A+1)) :
    Spec f holes ts c n n (Expr.map f) (fun e _ => e.Fits (D+2) (A+1)) (parseJsonPathPostfix R e)
      (parseJsonPathPostfix R' (e.map f)) := by
  refine spec_call hc (spec_peek (spec_ite (fun _ => ?_) fun _ => spec_return he))
  rw [isPathBase_map]
  refine spec_ite (fun hbase => ?_) fun _ => spec_fail trivial
  refine spec_bind (parsePathSegments_spec hR) fun ss _ _ => ?_
  exact spec_pure (extendPath_fits he hbase ss) (by cases e <;> simp [extendPath])

lemma parseCastType_spec (hR : Agrees f holes R R') (hc : 1 ≤ c)
    (hlit : ∀ l rest, ts = .lit l::rest → ¬holes.cast l) :
    Spec f holes ts c n n id (fun _ i => 1 ≤ i) (parseCastType R) (parseCastType R') := by
  refine spec_call hc (spec_token ?_)
  rcases ts with _ | ⟨t,ts⟩
  · exact ⟨trivial,_,rfl⟩
  cases t with
  | lit l => exact reads_literal (hR.castType l (hlit l ts rfl)) rfl rfl
  | _ => exact ⟨trivial,_,rfl⟩

/-- A node without expressions below it. -/
lemma fits_leaf (h : e.children = []) (hA : e.aliasChildren = []) : e.Fits (D+1) (A+1) :=
  fits_closed (by simp [h]) hA

lemma parseField_spec :
    ExprSpec f holes ts c n (D+1) (A+1) parseField parseField := by
  refine spec_bind (spec_expectDotIdent _) fun {ts} name i hi => spec_peek ?_
  have hfield : Spec f holes ts c n n (Expr.map f) (fun e l => e.Fits (D+1) (A+1) ∧ 1 ≤ i+l) (pure (.field name))
      (pure (.field name)) := spec_pure ⟨fits_leaf rfl rfl,by omega⟩ rfl
  rcases ts with _ | ⟨t,ts⟩
  · exact hfield
  cases t with
  | dotIdent next => exact spec_fail trivial
  | _ => exact hfield

/-- A window over its partitions and order. -/
lemma fits_window (w : WindowFunc) (mode : AggregateMode)
    (hargs : Below D args) (hps : Below D ps) (hks : Below D (ks.map OrderKey.expr)) :
    (Expr.window w args mode ps ks).Fits (D+1) (A+1) :=
  fits_closed (below_append.mpr ⟨below_append.mpr ⟨hargs,hps⟩,hks⟩) rfl

lemma parseAggregateMode_spec :
    Spec f holes ts c n n id (fun _ _ => True) parseAggregateMode parseAggregateMode := by
  refine spec_bind (spec_accept rfl) fun raw _ _ => ?_
  cases raw with
  | true | false => exact spec_return trivial

lemma parseDistinct_spec (g : AggFunc) :
    Spec f holes ts c n n id (fun _ _ => True) (parseDistinct g) (parseDistinct g) := by
  refine spec_ite (fun _ => ?_) fun _ => spec_return trivial
  refine spec_bind (spec_accept rfl) fun distinct _ _ => ?_
  cases distinct with
  | true | false => exact spec_return trivial

/-- The expressions of the branches of a case. -/
def whenExprs (ws : List (Expr ℓ × Expr ℓ)) : List (Expr ℓ) := ws.flatMap fun w => [w.1,w.2]

/-- The keywords that call a function are no brackets. -/
lemma function_level (h : (rankingOf k).isSome ∨ (aggregateOf k).isSome ∨ (tokenToScalarFn k).isSome) (n : ℕ) :
    bracketLevel n (.kw k : Tok ℓ) = some n := by
  cases k <;> first | rfl | simp [rankingOf,aggregateOf,tokenToScalarFn] at h

section
variable (hL : LevelOk f holes b D A c₀ L L')
include hL

/-- The type of a cast stands after the comma that ends the expression. -/
lemma parseCast_spec (hR : Agrees f holes R R') (hc₀ : 1 ≤ c₀) (hc : c₀ ≤ c) :
    ExprSpec f holes (.kw .cast::ts) c n (D+A+b+2) (A+1) (parseCast R L)
      (parseCast R' L') := by
  intro hts
  refine spec_skip rfl (spec_expect_bind rfl fun rest hrest => ?_) hts
  subst hrest
  intro hrest
  refine SpecAt.bind_walk (hL.expr hc hrest) (hL.expr (n := 0) hc hrest) fun e seg rest hseg hwalk he => ?_
  subst hseg
  refine spec_expect_bind rfl (fun rest hcomma => ?_) ((tokenSetting f holes).ok_append hrest)
  subst hcomma
  have hlit : ∀ l rest', rest = .lit l::rest' → ¬holes.cast l := by
    rintro l rest' rfl
    exact fun hl => hts.2 ⟨[],_,l,_,rfl,hwalk,hl⟩
  refine spec_bind (parseCastType_spec hR (by omega) hlit) fun target _ _ => ?_
  refine spec_word rfl ?_
  exact spec_pure ⟨fits_closed (below_cons.mpr ⟨he.1.1.mono (by omega),below_nil⟩) rfl,by omega⟩ rfl

lemma parseParenthesized_spec (hc : c₀ ≤ c) :
    ExprSpec f holes ts c n D A (parseParenthesized L)
      (parseParenthesized L') := by
  refine spec_bind (spec_expect rfl) fun _ i hi => ?_
  refine spec_bind (hL.expr hc) fun e _ he => ?_
  refine spec_word rfl ?_
  exact spec_return ⟨he.1,by omega⟩

lemma parseNamed_spec (hc : c₀ ≤ c) :
    ExprSpec f holes ts c n (D+1) (A+1) (parseNamed L) (parseNamed L') := by
  refine spec_bind (spec_expectIdent _) fun {ts} name i hi => spec_peek ?_
  have hfield : Spec f holes ts c n n (Expr.map f) (fun e l => e.Fits (D+1) (A+1) ∧ 1 ≤ i+l) (pure (.field name))
      (pure (.field name)) := spec_pure ⟨fits_leaf rfl rfl,by omega⟩ rfl
  rcases ts with _ | ⟨t,ts⟩
  · exact hfield
  cases t with
  | dotIdent field =>
    refine spec_skip rfl (spec_peek ?_)
    have hqualified : Spec f holes ts c n n (Expr.map f) (fun e l => e.Fits (D+1) (A+1) ∧ 1 ≤ i+(1+l))
        (pure (.qualifiedField name field)) (pure (.qualifiedField name field)) :=
      spec_pure ⟨fits_leaf rfl rfl,by omega⟩ rfl
    rcases ts with _ | ⟨t,ts⟩
    · exact hqualified
    cases t with
    | dotIdent next => exact spec_fail trivial
    | _ => exact hqualified
  | kw k =>
    cases k with
    | lParen =>
      dsimp only [id_eq,Tok.map]
      cases castSugar name with
      | none => exact spec_fail trivial
      | some target =>
        refine spec_bind (parseParenthesized_spec hL hc) fun e _ he => ?_
        exact spec_pure ⟨fits_closed (below_cons.mpr ⟨he.1.1,below_nil⟩) rfl,by omega⟩ rfl
    | _ => exact hfield
  | _ => exact hfield

lemma parseWindow_spec (hc : c₀+1 ≤ c) (hlevel : bracketLevel n (.kw k : Tok ℓ) = some n) (w : WindowFunc) :
    ExprSpec f holes (.kw k::ts) c n (D+1) (A+1) (parseWindow L w)
      (parseWindow L' w) := by
  refine spec_skip hlevel (spec_word rfl ?_)
  refine spec_word rfl ?_
  refine spec_bind (parseOverClause_spec hL hc) fun r _ hr => ?_
  exact spec_pure ⟨fits_window w _ below_nil hr.1 hr.2,by omega⟩ (by simp)

lemma parseAggregateOver_spec (hc : c₀+1 ≤ c) (g : AggFunc) (he : e.Within Expr.children (D+1))
    (mode : AggregateMode) :
    Spec f holes ts c n n (Expr.map f) (fun e _ => e.Fits (D+2) (A+1)) (parseAggregateOver L g e mode)
      (parseAggregateOver L' g (e.map f) mode) := by
  have harg : Below (D+1) [e] := below_cons.mpr ⟨he,below_nil⟩
  refine spec_peek (spec_ite (fun _ => ?_) fun _ => spec_pure (fits_closed harg rfl) rfl)
  cases windowOf g with
  | none => exact spec_fail trivial
  | some w =>
    refine spec_bind (parseOverClause_spec hL hc) fun r _ hr => ?_
    exact spec_pure (fits_window w mode harg (hr.1.mono (Nat.le_succ D)) (hr.2.mono (Nat.le_succ D))) (by simp)

lemma parseAggregateCall_spec (hc : c₀+1 ≤ c) (hlevel : bracketLevel n (.kw k : Tok ℓ) = some n) (g : AggFunc) :
    ExprSpec f holes (.kw k::ts) c n (D+2) (A+1) (parseAggregateCall L g)
      (parseAggregateCall L' g) := by
  refine spec_skip hlevel (spec_word rfl ?_)
  refine spec_bind (parseAggregateMode_spec) fun mode _ _ => spec_peek ?_
  refine spec_ite (fun hstar => ?_) fun _ => ?_
  · obtain ⟨ts,rfl⟩ := head_kw hstar.2
    refine spec_skip rfl (spec_word rfl ?_)
    exact spec_mono (parseAggregateOver_spec hL hc .count (.node (by simp [Expr.children])) mode)
      fun e _ he => ⟨he,by omega⟩
  · refine spec_bind (parseDistinct_spec g) fun g _ _ => ?_
    refine spec_bind (hL.expr (by omega)) fun e _ he => ?_
    refine spec_word rfl ?_
    exact spec_mono (parseAggregateOver_spec hL hc g (he.1.1.mono (Nat.le_succ D)) mode) fun e _ he => ⟨he,by omega⟩

lemma parseScalarCall_spec (hc : c₀ ≤ c) (hlevel : bracketLevel n (.kw k : Tok ℓ) = some n) (g : ScalarFn) :
    ExprSpec f holes (.kw k::ts) c n (D+1) (A+1) (parseScalarCall L g)
      (parseScalarCall L' g) := by
  refine spec_skip hlevel (spec_word rfl ?_)
  refine spec_bind (parseExprList_spec hL .rParen hc) fun es _ hes => ?_
  refine spec_word rfl ?_
  exact spec_pure ⟨Expr.fits_node (fun e' he' => (hes e' he').1) fun e' he' => (hes e' he').2,by omega⟩ (by simp)

lemma parseWhens_spec (hc : c₀ ≤ c) :
    Spec f holes ts c n n (List.map (Prod.map (Expr.map f) (Expr.map f))) (fun ws _ => Below D (whenExprs ws))
      (parseWhens L) (parseWhens L') := by
  refine spec_collect (map (Prod.map (Expr.map f) (Expr.map f))) (fun ws => Below D (whenExprs ws)) ?_ below_nil
  intro ws ts hws
  refine spec_bind (spec_accept rfl) fun more i hi => ?_
  cases more with
  | false => exact spec_pure hws rfl
  | true =>
    refine spec_bind (hL.expr hc) fun e _ he => ?_
    refine spec_word rfl ?_
    refine spec_bind (hL.expr hc) fun r _ hr => ?_
    exact spec_pure ⟨by simpa [whenExprs] using ⟨hws,he.1.1,hr.1.1⟩,by omega⟩ (by simp)

lemma parseCase_spec (hc : c₀ ≤ c) :
    ExprSpec f holes (.kw .case::ts) c n (D+1) (A+1) (parseCase L)
      (parseCase L') := by
  refine spec_skip rfl (spec_bind (parseWhens_spec hL hc) fun ws _ hws => ?_)
  refine spec_bind (spec_optionally (fun e => Below D e.toList) rfl (parseSomeExpr_spec hL hc) below_nil
    rfl) fun e _ he => ?_
  refine spec_word rfl ?_
  exact spec_pure ⟨fits_closed (below_append.mpr ⟨hws,he⟩) rfl,by omega⟩ (by simp)

lemma parseExists_spec (hc₀ : 1 ≤ c₀) (hc : c₀+3 ≤ c) (negated : Bool) :
    ExprSpec f holes (.kw .existsKw::ts) c n (D+A+b+2) (A+1)
      (parseExists L negated) (parseExists L' negated) := by
  refine spec_skip rfl (spec_bind (tryParseExistsSubquery_spec hL hc₀ hc) fun q _ hq => ?_)
  cases q with
  | some q => exact spec_pure ⟨fits_closed (hq q rfl) rfl,by omega⟩ (by simp)
  | none =>
    refine spec_bind (hL.primary (by omega)) fun e _ he => ?_
    exact spec_pure ⟨(he.1.unaryOp _).mono (by omega) (by omega),by omega⟩ rfl

lemma parseNot_spec (hc₀ : 1 ≤ c₀) (hc : c₀+3 ≤ c) :
    ExprSpec f holes (.kw .not::ts) c n (D+A+b+2) (A+1)
      (parseNot L) (parseNot L') := by
  refine spec_skip rfl (spec_peek (spec_ite (fun hexists => ?_) fun _ => ?_))
  · obtain ⟨ts,rfl⟩ := head_kw hexists
    exact spec_mono (parseExists_spec hL hc₀ hc true) fun e i he => ⟨he.1,by omega⟩
  · refine spec_bind (hL.primary (by omega)) fun e _ he => ?_
    exact spec_pure ⟨(he.1.unaryOp _).mono (by omega) (by omega),by omega⟩ rfl

lemma parseFunctionCall_spec (hc : c₀+1 ≤ c) :
    ExprSpec f holes (.kw k::ts) c n (D+A+b+2) (A+1)
      (parseFunctionCall L k) (parseFunctionCall L' k) := by
  rw [parseFunctionCall,parseFunctionCall]
  have hlevel := fun h => function_level (ℓ := ℓ) (k := k) h n
  cases hw : rankingOf k with
  | some w =>
    exact spec_mono (parseWindow_spec hL hc (hlevel (by simp [hw])) w)
      fun e i he => ⟨he.1.mono (by omega) le_rfl,he.2⟩
  | none =>
    cases hg : aggregateOf k with
    | some g =>
      exact spec_mono (parseAggregateCall_spec hL hc (hlevel (by simp [hg])) g)
        fun e i he => ⟨he.1.mono (by omega) le_rfl,he.2⟩
    | none =>
      cases hs : tokenToScalarFn k with
      | some g =>
        exact spec_mono (parseScalarCall_spec hL (by omega) (hlevel (by simp [hs])) g)
          fun e i he => ⟨he.1.mono (by omega) le_rfl,he.2⟩
      | none => exact spec_fail trivial

lemma parseKeyword_spec (hR : Agrees f holes R R') (hc₀ : 1 ≤ c₀) (hc : c₀+3 ≤ c) :
    ExprSpec f holes (.kw k::ts) c n (D+A+b+2) (A+1)
      (parseKeyword R L k) (parseKeyword R' L' k) := by
  cases k with
  | null => exact spec_skip rfl (spec_pure ⟨fits_leaf rfl rfl,by omega⟩ rfl)
  | not => exact parseNot_spec hL hc₀ hc
  | existsKw => exact parseExists_spec hL hc₀ hc false
  | lParen =>
    exact spec_mono (parseParenthesized_spec hL (by omega))
      fun e i he => ⟨he.1.mono (by omega) (by omega),he.2⟩
  | cast => exact parseCast_spec hL hR hc₀ (by omega)
  | case =>
    exact spec_mono (parseCase_spec hL (by omega))
      fun e i he => ⟨he.1.mono (by omega) le_rfl,he.2⟩
  | _ => exact parseFunctionCall_spec hL (by omega)

lemma parsePrimaryInner_spec (hR : Agrees f holes R R') (hc₀ : 1 ≤ c₀) (hc : c₀+4 ≤ c) :
    ExprSpec f holes ts c n (D+A+b+2) (A+1)
      (parsePrimaryInner R L) (parsePrimaryInner R' L') := by
  refine spec_call (by omega) (spec_peek ?_)
  rcases ts with _ | ⟨t,ts⟩
  · exact spec_fail trivial
  cases t with
  | dotIdent name =>
    exact spec_mono (parseField_spec (D := D+A+b+1) (A := A)) fun e i he => he
  | lit l =>
    refine spec_bind (spec_expectLiteral _) fun l i hi => ?_
    exact spec_pure ⟨fits_leaf rfl rfl,by omega⟩ rfl
  | ident name =>
    exact spec_mono (parseNamed_spec hL (by omega)) fun e i he => ⟨he.1.mono (by omega) le_rfl,he.2⟩
  | kw k => exact parseKeyword_spec hL hR hc₀ (by omega)
  | param name => exact spec_fail trivial

end

end primaries

section blocks
variable {ℓ ℓ' : Type} {f : ℓ → ℓ'} {holes : Holes ℓ} {b D A c₀ : ℕ} {L : Level ℓ} {L' : Level ℓ'}
  {R : Reader ℓ} {R' : Reader ℓ'} {c n : ℕ}
  {g : Expr ℓ → Expr ℓ} {g' : Expr ℓ' → Expr ℓ'}

/-- A rewriting of expressions that looks at no literal and does not deepen a tree. -/
structure Rewrites (f : ℓ → ℓ') (D : ℕ) (g : Expr ℓ → Expr ℓ) (g' : Expr ℓ' → Expr ℓ') : Prop where
  map : ∀ e, e.Within Expr.children D → (g e).map f = g' (e.map f)
  within : ∀ e, e.Within Expr.children D → (g e).Within Expr.children D

lemma Rewrites.order (hg : Rewrites f D g g') {ks : List (OrderKey (Expr ℓ))}
    (hks : Below D (ks.map OrderKey.expr)) : (ks.map (OrderKey.map g)).map (OrderKey.map (Expr.map f)) =
      (ks.map (OrderKey.map (Expr.map f))).map (OrderKey.map g') := by
  rw [List.map_map,List.map_map]
  refine List.map_congr_left fun k hk => ?_
  exact congrArg (OrderKey.mk · k.descending) (hg.map k.expr (hks _ (List.mem_map_of_mem hk)))

lemma Rewrites.order_below (hg : Rewrites f D g g') {ks : List (OrderKey (Expr ℓ))}
    (hks : Below D (ks.map OrderKey.expr)) : Below D ((ks.map (OrderKey.map g)).map OrderKey.expr) := by
  intro e he
  simp only [List.map_map,List.mem_map] at he
  obtain ⟨k,hk,rfl⟩ := he
  exact hg.within k.expr (hks _ (mem_map_of_mem hk))

def Block.map (f : ℓ → ℓ') (b : Block ℓ) : Block ℓ' :=
  ⟨b.order.map (List.map (OrderKey.map (Expr.map f))),b.limit.map (Expr.map f),b.offset.map (Expr.map f),
    b.offsetBeforeLimit⟩

structure Block.Ok (D : ℕ) (b : Block ℓ) : Prop where
  order : Below D ((b.order.getD []).map OrderKey.expr)
  limit : Below D b.limit.toList
  offset : Below D b.offset.toList

/-- The expressions of a nested query are those of its filter, its block and its fields. -/
lemma nested_below {blk : Block ℓ} (hblk : blk.Ok D) {filter : Expr ℓ}
    (hfilter : filter.Within Expr.children (D+1))
    (hfields : ∀ k ∈ fields, k.expr.Within Expr.children (D+1)) (source aliasName : String) (via : Option ViaLink) :
    Below (D+1) (NestedQuery.exprs
      ⟨source,aliasName,via,filter,blk.order,blk.limit,blk.offset,blk.offsetBeforeLimit,fields⟩) := by
  have hfields : Below (D+1) (fields.map ProjectionField.expr) := by simpa [Below] using hfields
  simp only [NestedQuery.exprs,cons_append,below_cons,below_append]
  exact ⟨hfilter,⟨⟨hblk.order.mono (Nat.le_succ D),hblk.limit.mono (Nat.le_succ D)⟩,
    hblk.offset.mono (Nat.le_succ D)⟩,hfields⟩

lemma isEmpty_map {α β : Type} (g : α → β) (xs : List α) : (xs.map g).isEmpty = xs.isEmpty := by
  cases xs <;> rfl

section
variable (hL : LevelOk f holes b D A c₀ L L')
include hL

lemma parseBlock_spec (hc : c₀+1 ≤ c) (hg : Rewrites f D g g') :
    Spec f holes ts c (n+1) (n+1) (Block.map f) (fun blk _ => blk.Ok D) (parseBlock L g) (parseBlock L' g') := by
  refine spec_collect (Block.map f) (Block.Ok D) ?_ ⟨below_nil,below_nil,below_nil⟩
  intro blk ts hblk
  apply spec_peek
  rcases ts with _ | ⟨t,ts⟩
  · exact spec_return hblk
  cases t with
  | kw k =>
    cases k with
    | order =>
      refine spec_refuse _ (by simp [Block.map]) fun _ => ?_
      refine spec_skip rfl (spec_bind (parseOrder_spec hL hc) fun ks i hks => ?_)
      refine spec_pure ⟨{hblk with order := hg.order_below hks},by omega⟩ ?_
      simp only [Sum.map_inl,Block.map,map_some,hg.order hks]
    | limit =>
      refine spec_refuse _ (by simp [Block.map]) fun _ => ?_
      refine spec_skip rfl (spec_bind (hL.expr (by omega)) fun e i he => ?_)
      refine spec_pure ⟨{hblk with limit := below_cons.mpr ⟨he.1.1,below_nil⟩},by omega⟩ ?_
      simp [Block.map]
    | offset =>
      refine spec_refuse _ (by simp [Block.map]) fun _ => ?_
      refine spec_skip rfl (spec_bind (hL.expr (by omega)) fun e i he => ?_)
      exact spec_pure ⟨{hblk with offset := below_cons.mpr ⟨he.1.1,below_nil⟩},by omega⟩ rfl
    | _ => exact spec_return hblk
  | _ => exact spec_return hblk

lemma parseNestedSlot_spec (hc : c₀ ≤ c) : Spec f holes ts c (n+1) (n+1) (ProjectionField.map (Expr.map f))
      (fun k i => k.expr.Within Expr.children (D+1) ∧ 1 ≤ i) (parseNestedSlot L) (parseNestedSlot L') := by
  refine spec_bind (parseSlotAlias_spec) fun aliasName _ _ => ?_
  refine spec_peekAhead (spec_ite (fun _ => spec_ite (fun _ => spec_fail trivial) fun _ => ?_) fun _ => ?_)
  · refine spec_bind (hL.nested hc) fun q i hq => ?_
    exact spec_pure ⟨nestedQuery_within hq.1,by omega⟩ (by simp [ProjectionField.map])
  · refine spec_bind rejectBareDottedPath_spec fun _ _ _ => ?_
    refine spec_bind (hL.expr hc) fun e i he => ?_
    exact spec_pure ⟨he.1.1.mono (Nat.le_succ D),by omega⟩ rfl

lemma parseNestedQueryInner_spec (hc : c₀+2 ≤ c) :
    Spec f holes ts c (n+1) (n+1) (NestedQuery.map (Expr.map f)) (fun q i => Below (D+1) q.exprs ∧ 1 ≤ i)
      (parseNestedQueryInner L) (parseNestedQueryInner L') := by
  refine spec_call (by omega) (spec_bind (spec_expectNamedIdent _) fun source i hi => ?_)
  refine spec_word rfl ?_
  refine spec_bind (spec_expectNamedIdent _) fun aliasName _ _ => ?_
  refine spec_word rfl ?_
  refine spec_bind (hL.expr (by omega)) fun filter _ hfilter => ?_
  refine spec_bind (parseBlock_spec hL (by omega) ⟨fun _ _ => rfl,fun _ h => h⟩) fun blk _ hblk => ?_
  refine spec_bind (parseSlots_spec (fun k : ProjectionField (Expr ℓ) => k.expr.Within Expr.children (D+1))
    (parseNestedSlot_spec hL (by omega))) fun fields _ hfields => ?_
  rw [isEmpty_map]
  exact spec_ite (fun _ => spec_fail trivial) fun _ =>
    spec_pure ⟨nested_below hblk (hfilter.1.1.mono (Nat.le_succ D)) hfields.1 _ _ _,by omega⟩ rfl

lemma parseResidual_spec (hR : Agrees f holes R R') (hc : c₀ ≤ c) (link : String) :
    Spec f holes ts c n n (Expr.map f) (fun e _ => e.Within Expr.children (D+1)) (parseResidual R L link)
      (parseResidual R' L' link) := by
  refine spec_bind (spec_accept rfl) fun filtered _ _ => ?_
  cases filtered with
  | true =>
    refine spec_bind (hL.expr hc) fun e _ he => ?_
    exact spec_pure ((he.1.1.qualify link).mono (Nat.le_succ D)) (he.1.1.qualify_map f link).symm
  | false => exact spec_pure (.node (by simp [Expr.children])) (congrArg Expr.literal hR.trueLiteral)

lemma parseLinkSlot_spec (hc : c₀ ≤ c) (link : String) : Spec f holes ts c n n (ProjectionField.map (Expr.map f))
      (fun k i => k.expr.Within Expr.children D ∧ 1 ≤ i) (parseLinkSlot L link) (parseLinkSlot L' link) := by
  refine spec_bind (parseSlotAlias_spec) fun aliasName _ _ => ?_
  refine spec_bind rejectBareDottedPath_spec fun _ _ _ => ?_
  refine spec_bind (hL.expr hc) fun e i he => ?_
  exact spec_pure ⟨he.1.1.qualify link,by omega⟩
    (congrArg (ProjectionField.mk aliasName) (he.1.1.qualify_map f link).symm)

lemma parseLinkTraversalInner_spec (hR : Agrees f holes R R') (hc : c₀+2 ≤ c) :
    Spec f holes ts c (n+1) (n+1) (NestedQuery.map (Expr.map f)) (fun q i => Below (D+1) q.exprs ∧ 1 ≤ i)
      (parseLinkTraversalInner R L) (parseLinkTraversalInner R' L') := by
  refine spec_call (by omega) (spec_bind (spec_expectNamedIdent _) fun outerAlias i hi => ?_)
  refine spec_bind (spec_expectDotIdent _) fun link _ _ => ?_
  refine spec_bind (parseResidual_spec hL hR (by omega) link) fun filter _ hfilter => ?_
  refine spec_bind (parseBlock_spec hL (by omega) ⟨fun _ h => (h.qualify_map f link).symm,fun _ h => h.qualify link⟩) fun blk _ hblk => ?_
  refine spec_bind (parseSlots_spec (fun k : ProjectionField (Expr ℓ) => k.expr.Within Expr.children D)
    (parseLinkSlot_spec hL (by omega) link)) fun fields _ hfields => ?_
  rw [isEmpty_map]
  exact spec_ite (fun _ => spec_fail trivial) fun _ => spec_pure ⟨nested_below hblk hfilter
    (fun k hk => (hfields.1 k hk).mono (Nat.le_succ D)) _ _ _,by omega⟩ rfl

end

end blocks

section levels
variable {ℓ ℓ' : Type} {f : ℓ → ℓ'} {holes : Holes ℓ} {R : Reader ℓ} {R' : Reader ℓ'}

/-- How deep aliases can stand in an expression with so many levels of nesting. -/
def aliasDepth : ℕ → ℕ
  | 0 => 0
  | b+1 => aliasDepth b+5*b+2

/-- How deep an expression can be with so many levels of nesting. -/
def treeDepth : ℕ → ℕ
  | 0 => 0
  | b+1 => treeDepth b+aliasDepth b+5*b+2

/-- How high the calls of an expression rise with so many levels of nesting. -/
def callHeight (b : ℕ) : ℕ := 8*b+1

lemma level_ok (hR : Agrees f holes R R') (b : ℕ) :
    LevelOk f holes b (treeDepth b) (aliasDepth b) (callHeight b) (level R b) (level R' b) := by
  induction b with
  | zero =>
    have hfail : ∀ {α α' : Type} {c n : ℕ} {ts : List (Tok ℓ)} {g : α → α'} {Q : α → ℕ → Prop}, 1 ≤ c →
        Spec f holes ts c n n g Q (call (fail .nestingDepthExceeded)) (call (fail .nestingDepthExceeded)) :=
      fun hc => spec_call hc (spec_fail trivial)
    exact ⟨rfl,rfl,hfail,hfail,hfail,hfail⟩
  | succ b ih =>
    have hheight : 1 ≤ callHeight b := Nat.le_add_left 1 (8*b)
    have hstep : callHeight (b+1) = callHeight b+8 := by simp only [callHeight]; omega
    refine ⟨rfl,rfl,?_,?_,?_,?_⟩
    · intro c n ts hc
      exact spec_call (by omega) (parseOrExpr_spec ih hheight (by omega))
    · intro c n ts hc
      apply spec_call (by omega)
      refine spec_bind (parsePrimaryInner_spec ih hR hheight (by omega)) fun e i he => ?_
      refine spec_mono (parseJsonPathPostfix_spec hR (by omega) he.1) fun e _ h => ⟨h.mono ?_ ?_,by omega⟩
      · simp only [treeDepth]; omega
      · simp only [aliasDepth]; omega
    · intro c n ts hc
      refine spec_call (by omega) (spec_mono (parseNestedQueryInner_spec ih (by omega)) fun q i hq => ⟨?_,hq.2⟩)
      exact hq.1.mono (by simp only [treeDepth]; omega)
    · intro c n ts hc
      refine spec_call (by omega) (spec_mono (parseLinkTraversalInner_spec ih hR (by omega))
        fun q i hq => ⟨?_,hq.2⟩)
      exact hq.1.mono (by simp only [treeDepth]; omega)

end levels
end PowDB.Syntax
