import PowDB.Query.ParserSpec

/-! Projections and read pipelines. A `having` after the projection is the one place where
a tree is put into another; how deep it then gets is counted apart. -/
namespace PowDB.Syntax
open Query (BinOp)
open Lib.Setting (SpecAt)
open Lib.Parser (fail call loop)
variable {ℓ ℓ' κ κ' : Type} {f : ℓ → ℓ'} {holes : Holes ℓ} {b D A c₀ : ℕ} {L : Level ℓ} {L' : Level ℓ'}
  {c n : ℕ} {ts : List (Tok ℓ)}
  {e : Expr ℓ}

lemma rejectBareDottedPath_spec :
    Spec f holes ts c n n id (fun _ _ => True) rejectBareDottedPath rejectBareDottedPath := by
  apply spec_peekAhead
  split
  · exact spec_fail trivial
  · exact spec_return trivial

/-- The stream starts with an identifier that was seen. -/
lemma at_ident (h : isIdent (ts[0]?.map Tok.shape) = true) : ∃ name ts', ts = .ident name::ts' := by
  rcases ts with _ | ⟨t,ts⟩
  · cases h
  cases t with
  | ident name => exact ⟨name,ts,rfl⟩
  | _ => cases h

lemma parseDottedParts_spec :
    Spec f holes ts c n n id (fun _ _ => True) parseDottedParts parseDottedParts := by
  refine spec_collect id (fun _ => True) ?_ trivial
  intro ps ts _
  apply spec_peek
  rcases ts with _ | ⟨t,ts⟩
  · exact spec_return trivial
  cases t with
  | dotIdent _ => exact spec_skip rfl (spec_return ⟨trivial,by omega⟩)
  | _ => exact spec_return trivial

lemma parseScalarLinkPath_spec (hc : 1 ≤ c) :
    Spec f holes ts c n n (Expr.map f) (fun e i => e.Within Expr.children (D+1) ∧ 1 ≤ i) parseScalarLinkPath
      parseScalarLinkPath := by
  refine spec_call hc (spec_bind (spec_expectNamedIdent _) fun outerAlias i hi => ?_)
  refine spec_bind (parseDottedParts_spec) fun parts _ _ => ?_
  exact spec_pure ⟨.node (by simp [Expr.children]),by omega⟩ rfl

/-- A nested block as an expression. -/
lemma nestedQuery_within (h : Below D q.exprs) :
    (Expr.nestedQuery q).Within Expr.children (D+1) := .node h

/-- A block of slots is a pair of braces around them. -/
lemma parseSlots_spec (S : κ → Prop)
    (hslot : ∀ {ts}, Spec f holes ts c (n+1) (n+1) g (fun k i => S k ∧ 1 ≤ i) slot slot') :
    Spec f holes ts c n n (List.map g) (fun ks i => (∀ k ∈ ks, S k) ∧ 1 ≤ i) (parseSlots slot)
      (parseSlots slot') := by
  refine spec_bind (spec_expect rfl) fun _ i hi => ?_
  refine spec_bind (g := List.map g) (spec_collect (List.map g) (fun ks => ∀ k ∈ ks, S k) ?_ (by simp)) fun ks _ hks => ?_
  · intro ks ts hks
    apply spec_peek
    cases hhead : ts.head?.map Tok.shape with
    | none => exact spec_return hks
    | some t =>
      refine spec_ite (fun _ => spec_return hks) fun _ => ?_
      refine spec_bind (hslot) fun k i hk => ?_
      refine spec_bind (spec_accept rfl) fun _ j _ => ?_
      exact spec_pure ⟨by simpa [or_imp,forall_and] using ⟨hks,hk.1⟩,by omega⟩ (by simp)
  · refine spec_word rfl ?_
    exact spec_return ⟨hks,by omega⟩

lemma parseSlotAlias_spec :
    Spec f holes ts c n n id (fun _ _ => True) parseSlotAlias parseSlotAlias := by
  refine spec_peekAhead (spec_ite (fun h => ?_) fun _ => spec_return trivial)
  obtain ⟨name,ts,rfl⟩ := at_ident h.1
  obtain ⟨ts,rfl⟩ := at_kw (show ts[0]?.map Tok.shape = some (.kw .colon) from h.2)
  exact spec_token_bind rfl rfl rfl (spec_skip rfl (spec_return trivial))

def Pipeline.map (f : ℓ → ℓ') (p : Pipeline ℓ) : Pipeline ℓ' := ⟨p.query.map (Expr.map f),p.havingChain⟩

/-- What holds of a pipeline as it is read. Only the `having` grows with the chain. -/
structure Pipeline.Ok (b D A : ℕ) (p : Pipeline ℓ) : Prop where
  joins : Below D (p.query.joins.flatMap fun j => j.on.toList)
  filter : Below D p.query.filter.toList
  order : Below D ((p.query.order.getD []).map OrderKey.expr)
  limit : Below D p.query.limit.toList
  offset : Below D p.query.offset.toList
  projection : ∀ k ∈ p.query.projection.getD [], k.expr.Within Expr.children (D+1)
  aggregation : p.query.aggregation = none
  keys : ∀ g, p.query.groupBy = some g → Below D (g.keys.map GroupKey.expr)
  having : ∀ g, p.query.groupBy = some g → Below (A+D+1+p.havingChain) g.having.toList
  chain : p.havingChain ≤ b

variable {p : Pipeline ℓ}

lemma Pipeline.Ok.exprs (h : p.Ok b D A) : Below (D+A+b+1) p.query.exprs := by
  have hchain := h.chain
  have hgroup : Below (D+A+b+1) (p.query.groupBy.elim [] GroupByClause.exprs) := by
    cases hg : p.query.groupBy with
    | none => exact below_nil
    | some g => exact below_append.mpr ⟨(h.keys g hg).mono (by omega),(h.having g hg).mono (by omega)⟩
  have hprojection : Below (D+1) ((p.query.projection.getD []).map ProjectionField.expr) := by
    simpa [Below] using h.projection
  simp only [QueryExpr.exprs,below_append,h.aggregation]
  exact ⟨⟨⟨⟨⟨⟨⟨h.joins.mono (by omega),h.filter.mono (by omega)⟩,h.order.mono (by omega)⟩,h.limit.mono (by omega)⟩,
    h.offset.mono (by omega)⟩,hprojection.mono (by omega)⟩,below_nil⟩,hgroup⟩

lemma Pipeline.start_ok {aliasName : Option String} {joins : List (JoinClause (Expr ℓ))}
    (h : Below D (joins.flatMap fun j => j.on.toList)) : (Pipeline.start source aliasName joins).Ok b D A where
  joins := h
  filter := below_nil
  order := below_nil
  limit := below_nil
  offset := below_nil
  projection := by simp [Pipeline.start]
  aggregation := rfl
  keys g hg := by cases hg
  having g hg := by cases hg
  chain := Nat.zero_le _

lemma havingExpr_map (he : e.Fits D A) (projection : Option (List (ProjectionField (Expr ℓ)))) :
    havingExpr (projection.map (List.map (ProjectionField.map (Expr.map f)))) (e.map f) =
      (havingExpr projection e).map f := by
  cases projection with
  | none => rfl
  | some fields => exact he.2.substitute_map f fields

lemma havingExpr_within (he : e.Fits D A)
    (h : ∀ k ∈ projection.getD [], k.expr.Within Expr.children (D+1)) :
    (havingExpr projection e).Within Expr.children (A+D+1) := by
  cases projection with
  | none => exact he.1.mono (by omega)
  | some fields =>
    rw [Nat.add_assoc]
    exact Expr.Within.substitute he.2 (he.1.mono (Nat.le_succ D)) h

lemma Pipeline.Ok.setHaving (h : p.Ok b D A)
    (hg : p.query.groupBy = some g) {chain : ℕ} (he : e.Within Expr.children (A+D+1+chain)) (hchain : chain ≤ b) :
    (p.setHaving g.keys e chain).Ok b D A :=
  {h with
    keys := by
      rintro _ ⟨⟩
      exact h.keys g hg
    having := by
      rintro _ ⟨⟩
      exact below_cons.mpr ⟨he,below_nil⟩
    chain := hchain}

section
variable (hL : LevelOk f holes b D A c₀ L L')
include hL

lemma parseAliasedSlot_spec (hc₀ : 1 ≤ c₀) (hc : c₀ ≤ c) :
    Spec f holes ts c (n+1) (n+1) (Expr.map f) (fun e i => e.Within Expr.children (D+1) ∧ 1 ≤ i)
      (parseAliasedSlot L) (parseAliasedSlot L') := by
  refine spec_bind rejectBareDottedPath_spec fun _ _ _ => ?_
  refine spec_peekAhead (spec_ite (fun _ => ?_) fun _ => spec_ite (fun _ => ?_) fun _ => spec_ite (fun _ => ?_)
    fun _ => ?_)
  · refine spec_bind (hL.nested hc) fun q i hq => ?_
    exact spec_pure ⟨nestedQuery_within hq.1,by omega⟩ (by simp)
  · refine spec_bind (hL.link hc) fun q i hq => ?_
    exact spec_pure ⟨nestedQuery_within hq.1,by omega⟩ (by simp)
  · exact spec_mono (parseScalarLinkPath_spec (by omega)) fun e i he => ⟨he.1,by omega⟩
  · exact spec_mono (hL.expr hc) fun e i he => ⟨he.1.1.mono (by omega),by omega⟩

lemma parseBareSlot_spec (hc₀ : 1 ≤ c₀) (hc : c₀ ≤ c) :
    Spec f holes ts c n n (Expr.map f) (fun e i => e.Within Expr.children (D+1) ∧ 1 ≤ i)
      (parseBareSlot L) (parseBareSlot L') := by
  refine spec_bind rejectBareDottedPath_spec fun _ _ _ => ?_
  refine spec_peekAhead (spec_ite (fun _ => ?_) fun _ => ?_)
  · exact spec_mono (parseScalarLinkPath_spec (by omega)) fun e i he => ⟨he.1,by omega⟩
  · exact spec_mono (hL.expr hc) fun e i he => ⟨he.1.1.mono (by omega),by omega⟩

lemma parseProjection_spec (hc₀ : 1 ≤ c₀) (hc : c₀+1 ≤ c)
    : Spec f holes ts c n n (List.map (ProjectionField.map (Expr.map f)))
      (fun ks i => (∀ k ∈ ks, k.expr.Within Expr.children (D+1)) ∧ 1 ≤ i)
      (parseProjection L) (parseProjection L') := by
  refine spec_call (by omega) (parseSlots_spec (fun k : ProjectionField (Expr ℓ) => k.expr.Within Expr.children (D+1)) ?_
   )
  intro ts
  refine spec_bind (parseSlotAlias_spec) fun aliasName _ _ => ?_
  cases aliasName with
  | some name =>
    refine spec_bind (parseAliasedSlot_spec hL hc₀ (by omega)) fun e i he => ?_
    exact spec_pure ⟨he.1,by omega⟩ rfl
  | none =>
    refine spec_peekAhead (spec_ite (fun _ => spec_fail trivial) fun _ => ?_)
    refine spec_bind (parseBareSlot_spec hL hc₀ (by omega)) fun e i he => ?_
    exact spec_pure ⟨he.1,by omega⟩ rfl

lemma parseHaving_spec (hc : c₀ ≤ c) (hp : p.Ok b D A) :
    Spec f holes ts c n n (Pipeline.map f) (fun p _ => p.Ok b D A) (parseHaving L p)
      (parseHaving L' (p.map f)) := by
  refine spec_bind (hL.expr hc) fun e i he => ?_
  have hwithin := havingExpr_within he.1 hp.projection
  have hmap := havingExpr_map (f := f) he.1 p.query.projection
  have hchain := hp.chain
  obtain ⟨⟨s,a,js,w,o,l,off,pr,ag,d,g⟩,k⟩ := p
  rcases g with _ | ⟨keys,_ | existing⟩
  · exact spec_fail trivial
  · apply spec_pure (hp.setHaving rfl (hwithin.mono (by omega)) hchain)
    exact congrArg (fun e => (Pipeline.map f ⟨⟨s,a,js,w,o,l,off,pr,ag,d,some ⟨keys,none⟩⟩,k⟩).setHaving
      (keys.map (GroupKey.map (Expr.map f))) e k) hmap.symm
  · have hexisting : existing.Within Expr.children (A+D+1+k) := by simpa using hp.having _ rfl
    refine checkChainDepth_bind hL fun hkb => spec_pure (hp.setHaving rfl ?_ hkb) ?_
    · exact .node (by simpa [Expr.children] using ⟨hexisting,hwithin.mono (by omega)⟩)
    · exact congrArg (fun e => (Pipeline.map f ⟨⟨s,a,js,w,o,l,off,pr,ag,d,some ⟨keys,some existing⟩⟩,k⟩).setHaving
        (keys.map (GroupKey.map (Expr.map f))) (.binaryOp (existing.map f) .and e) (k+1)) hmap.symm

section
variable (hc₀ : 1 ≤ c₀)
include hc₀

lemma parseClause_spec (hc : c₀+1 ≤ c) (hp : p.Ok b D A) :
    Spec f holes ts c (n+1) (n+1) (Option.map (Pipeline.map f)) (fun r i => ∀ p, r = some p → p.Ok b D A ∧ 1 ≤ i)
      (parseClause L p) (parseClause L' (p.map f)) := by
  have hstop : Spec f holes ts c (n+1) (n+1) (Option.map (Pipeline.map f))
      (fun r i => ∀ p, r = some p → p.Ok b D A ∧ 1 ≤ i) (pure none) (pure none) :=
    spec_return (by simp)
  apply spec_peek
  rcases ts with _ | ⟨t,ts⟩
  · exact hstop
  cases t with
  | kw k =>
    cases k with
    | distinct =>
      refine spec_skip rfl (spec_pure ?_ rfl)
      rintro _ ⟨⟩
      exact ⟨{hp with},by omega⟩
    | group =>
      refine spec_refuse _ (by simp [Pipeline.map,QueryExpr.map]) fun _ => ?_
      refine spec_skip rfl (spec_bind (parseGroupBy_spec hL (by omega)) fun g i hg => ?_)
      obtain ⟨hkeys,hhaving⟩ := below_append.mp hg
      refine spec_pure ?_ rfl
      rintro _ ⟨⟩
      refine ⟨{hp with keys := ?_, having := ?_},by omega⟩
      · rintro _ ⟨⟩
        exact hkeys
      · rintro _ ⟨⟩
        exact hhaving.mono (by omega)
    | filter =>
      refine spec_refuse _ (by simp [Pipeline.map,QueryExpr.map]) fun _ => ?_
      refine spec_skip rfl (spec_bind (hL.expr (by omega)) fun e i he => ?_)
      refine spec_pure ?_ rfl
      rintro _ ⟨⟩
      exact ⟨{hp with filter := by simpa using he.1.1},by omega⟩
    | order =>
      refine spec_refuse _ (by simp [Pipeline.map,QueryExpr.map]) fun _ => ?_
      refine spec_skip rfl (spec_bind (parseOrder_spec hL (by omega)) fun ks i hks => ?_)
      refine spec_pure ?_ rfl
      rintro _ ⟨⟩
      exact ⟨{hp with order := hks},by omega⟩
    | limit =>
      refine spec_refuse _ (by simp [Pipeline.map,QueryExpr.map]) fun _ => ?_
      refine spec_skip rfl (spec_bind (hL.expr (by omega)) fun e i he => ?_)
      refine spec_pure ?_ rfl
      rintro _ ⟨⟩
      exact ⟨{hp with limit := by simpa using he.1.1},by omega⟩
    | offset =>
      refine spec_refuse _ (by simp [Pipeline.map,QueryExpr.map]) fun _ => ?_
      refine spec_skip rfl (spec_bind (hL.expr (by omega)) fun e i he => ?_)
      refine spec_pure ?_ rfl
      rintro _ ⟨⟩
      exact ⟨{hp with offset := by simpa using he.1.1},by omega⟩
    | lBrace =>
      refine spec_refuse _ (by simp [Pipeline.map,QueryExpr.map]) fun _ => ?_
      refine spec_bind (parseProjection_spec hL hc₀ hc) fun ks i hks => ?_
      refine spec_pure ?_ rfl
      rintro _ ⟨⟩
      exact ⟨{hp with projection := hks.1},by omega⟩
    | having =>
      refine spec_skip rfl (spec_bind (parseHaving_spec hL (by omega) hp) fun p i hp => ?_)
      refine spec_pure ?_ rfl
      rintro _ ⟨⟩
      exact ⟨hp,by omega⟩
    | _ => exact hstop
  | _ => exact hstop

lemma parseClauses_spec (hc : c₀+1 ≤ c) (hp : p.Ok b D A) :
    Spec f holes ts c (n+1) (n+1) (QueryExpr.map (Expr.map f))
      (fun q _ => ∃ p : Pipeline ℓ, p.Ok b D A ∧ q = p.query) (parseClauses L p) (parseClauses L' (p.map f)) := by
  refine spec_loop (Pipeline.map f) (Pipeline.Ok b D A) (fun q => ∃ p : Pipeline ℓ, p.Ok b D A ∧ q = p.query) ?_
    hp
  intro p ts hp
  refine spec_bind (parseClause_spec hL hc₀ hc hp) fun r i hr => ?_
  cases r with
  | none => exact spec_pure ⟨p,hp,rfl⟩ rfl
  | some p => exact spec_pure ⟨(hr p rfl).1,by have := (hr p rfl).2; omega⟩ rfl

/-- A pipeline after its source. -/
lemma parseQueryTail_spec (hc : c₀+2 ≤ c) (source : String) :
    Spec f holes ts c (n+1) (n+1) (QueryExpr.map (Expr.map f)) (fun q _ => Below (D+A+b+1) q.exprs)
      (parseQueryTail L source) (parseQueryTail L' source) := by
  apply spec_call (by omega)
  refine spec_bind (tryParseAlias_spec (by omega)) fun aliasName _ _ => ?_
  refine spec_bind (parseJoins_spec hL hc₀ (by omega)) fun joins _ hjoins => ?_
  apply spec_mono (parseClauses_spec hL hc₀ (by omega) (Pipeline.start_ok hjoins))
  rintro _ _ ⟨p,hp,rfl⟩
  exact hp.exprs

lemma parseSubquery_spec (hc : c₀+2 ≤ c) :
    Spec f holes ts c (n+1) n (QueryExpr.map (Expr.map f)) (fun q _ => Below (D+A+b+1) q.exprs)
      (parseSubquery L) (parseSubquery L') := by
  refine spec_bind (spec_expectIdent _) fun source _ _ => ?_
  refine spec_bind (parseQueryTail_spec hL hc₀ hc source) fun q _ hq => ?_
  exact spec_bind (spec_expect rfl) fun _ _ _ => spec_return hq

end

end

end PowDB.Syntax
