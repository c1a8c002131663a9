import PowDB.Query.ParseStatement
import PowDB.Query.ParserTrees

/-! What every function of the parser does: how many calls it makes, how deep a tree it
builds, which brackets it takes, and that literals pass through it unread. -/
namespace PowDB.Syntax
open List Option
open Query (BinOp UnaryOp ScalarFn CastType PathSeg)
open Lib (Setting Parser)
open Lib.Setting (SpecAt)
open Lib.Parser (fail call look token taking loop mapError)
variable {ℓ ℓ' α α' β β' : Type}

/-- The bracket level after a token. A comma outside all brackets, a bracket that closes
none, and a union, which stands in no expression, lead nowhere. -/
def bracketLevel (n : ℕ) : Tok ℓ → Option ℕ
  | .kw .lParen => some (n+1)
  | .kw .lBrace => some (n+1)
  | .kw .rParen => if n = 0 then none else some (n-1)
  | .kw .rBrace => if n = 0 then none else some (n-1)
  | .kw .comma => if n = 0 then none else some n
  | .kw .union => none
  | _ => some n

/-- The literals that must not be read for something else than a value: where a JSON path
takes a segment, and where a cast takes its type. -/
structure Holes (ℓ : Type) where
  path : ℓ → Prop
  cast : ℓ → Prop

/-- A hole stands where a JSON path takes a segment. -/
def PathHole (hole : ℓ → Prop) (ts : List (Tok ℓ)) : Prop :=
  ∃ pre l post, ts = pre++.kw .arrow::.lit l::post ∧ hole l

/-- A hole stands where a cast takes its type: after the comma that follows `cast (` and
an expression, which has no comma outside brackets. -/
def CastHole (hole : ℓ → Prop) (ts : List (Tok ℓ)) : Prop :=
  ∃ pre seg l post, ts = pre++.kw .cast::.kw .lParen::(seg++.kw .comma::.lit l::post) ∧
    seg.foldlM bracketLevel 0 = some 0 ∧ hole l

def ParseError.Raised : ParseError ℓ → Prop
  | .noProgress => False
  | _ => True

/-- Tokens with their literals changed by `f`, where no hole is read. -/
def tokenSetting (f : ℓ → ℓ') (holes : Holes ℓ) : Setting (ParseError ℓ) (Tok ℓ) (Tok ℓ') where
  map := Tok.map f
  ok ts := ¬PathHole holes.path ts ∧ ¬CastHole holes.cast ts
  ok_tail := by
    rintro t ts ⟨hpath,hcast⟩
    refine ⟨?_,?_⟩
    · rintro ⟨pre,l,post,rfl,hl⟩
      exact hpath ⟨t::pre,l,post,rfl,hl⟩
    · rintro ⟨pre,seg,l,post,rfl,hseg,hl⟩
      exact hcast ⟨t::pre,seg,l,post,rfl,hseg,hl⟩
  level := bracketLevel
  raised := ParseError.Raised

/-- What a parser does on a stream in which no hole is read. -/
def Spec (f : ℓ → ℓ') (holes : Holes ℓ) (ts : List (Tok ℓ)) (c n m : ℕ) (g : α → α') (Q : α → ℕ → Prop)
    (p : P ℓ α) (p' : P ℓ' α') : Prop :=
  (tokenSetting f holes).ok ts → (tokenSetting f holes).SpecAt ts c n m g Q p p'

section tokens
variable {f : ℓ → ℓ'} {holes : Holes ℓ} {ts : List (Tok ℓ)} {c n m j : ℕ} {g : α → α'} {Q : α → ℕ → Prop}
  {k : Keyword} {p : P ℓ α} {p' : P ℓ' α'}

@[simp] lemma shape_map (t : Tok ℓ) : (t.map f).shape = t.shape := by cases t <;> rfl

lemma spec_mono (h : Spec f holes ts c n m g Q p p') (hQ : ∀ a i, Q a i → Q' a i) :
    Spec f holes ts c n m g Q' p p' :=
  fun hts => SpecAt.mono (h hts) (Nat.le_refl c) hQ

lemma spec_call (hc : 1 ≤ c) (h : Spec f holes ts (c-1) n m g Q p p') :
    Spec f holes ts c n m g Q (call p) (call p') := by
  obtain ⟨c,rfl⟩ : ∃ c', c = c'+1 := ⟨c-1,by omega⟩
  exact fun hts => SpecAt.call (h hts)

lemma spec_return (ha : Q a 0) : Spec f holes ts c n n g Q (pure a) (pure (g a)) := fun _ => SpecAt.pure ha

lemma spec_pure (ha : Q a 0) (hg : g a = a') : Spec f holes ts c n n g Q (pure a) (pure a') := by
  subst hg
  exact spec_return ha

variable {e : ParseError ℓ}

lemma spec_fail (he : e.Raised) :
    Spec f holes ts c n m g Q (fail e) (fail e') :=
  fun _ => SpecAt.fail he

lemma spec_bind {h : β → β'} {S : β → ℕ → Prop} {k : α → P ℓ β}
    (hp : Spec f holes ts c n j g Q p p')
    (hk : ∀ {ts} a i, Q a i → Spec f holes ts c j m h (fun b l => S b (i+l)) (k a) (k' (g a))) :
    Spec f holes ts c n m h S (p >>= k) (p' >>= k') :=
  fun hts => SpecAt.bind hts (hp hts) fun a i _ hrest ha => hk a i ha hrest

lemma spec_token
    (h : (tokenSetting f holes).Reads n m g Q r r' ts.head?) : Spec f holes ts c n m g Q (token r) (token r') :=
  fun _ => SpecAt.token h

lemma spec_loop {σ σ' : Type} (gσ : σ → σ') (Inv : σ → Prop) (S : α → Prop)
    {step : σ → P ℓ (σ ⊕ α)} {step' : σ' → P ℓ' (σ' ⊕ α')}
    (hstep : ∀ s ts, Inv s → Spec f holes ts c n n (Sum.map gσ g)
      (fun r i => match r with
        | .inl s => Inv s ∧ 1 ≤ i
        | .inr a => S a) (step s) (step' (gσ s)))
    {s : σ} (hs : Inv s) : Spec f holes ts c n n g (fun a _ => S a) (loop e step s) (loop e' step' (gσ s)) :=
  fun hts => SpecAt.loop gσ Inv S (fun s ts hts hs => hstep s ts hs hts) hts hs

/-- A loop that gives what it has collected. -/
lemma spec_collect (g : α → α') (S : α → Prop) {step : α → P ℓ (α ⊕ α)}
    {step' : α' → P ℓ' (α' ⊕ α')}
    (hstep : ∀ a ts, S a → Spec f holes ts c n n (Sum.map g g)
      (fun r i => match r with
        | .inl a => S a ∧ 1 ≤ i
        | .inr a => S a) (step a) (step' (g a)))
    {a : α} (ha : S a) : Spec f holes ts c n n g (fun a _ => S a) (loop e step a) (loop e' step' (g a)) := by
  refine spec_loop g S S (fun a ts ha => spec_mono (hstep a ts ha) ?_) ha
  rintro (a | a) i h <;> exact h

/-- Looking at the next token gives the same shape on both sides. -/
lemma specAt_peek {X : Setting (ParseError ℓ) (Tok ℓ) (Tok ℓ')} (hX : X.map = Tok.map f)
    {k : Option (Tok Unit) → P ℓ α} {k' : Option (Tok Unit) → P ℓ' α'}
    (h : X.SpecAt ts c n m g Q (k (ts.head?.map Tok.shape)) (k' (ts.head?.map Tok.shape))) :
    X.SpecAt ts c n m g Q (peek >>= k) (peek >>= k') := by
  have hhead : (ts.map X.map).head?.map Tok.shape = ts.head?.map Tok.shape := by
    rw [hX]
    cases ts <;> simp
  show X.SpecAt ts c n m g Q _ (k' ((ts.map X.map).head?.map Tok.shape))
  rw [hhead]
  exact h

lemma spec_peek {k : Option (Tok Unit) → P ℓ α} {k' : Option (Tok Unit) → P ℓ' α'}
    (h : Spec f holes ts c n m g Q (k (ts.head?.map Tok.shape)) (k' (ts.head?.map Tok.shape))) :
    Spec f holes ts c n m g Q (peek >>= k) (peek >>= k') :=
  fun hts => specAt_peek rfl (h hts)

lemma spec_peekAhead {k : _ → P ℓ α} {k' : _ → P ℓ' α'}
    (h : Spec f holes ts c n m g Q
      (k (ts[0]?.map Tok.shape,ts[1]?.map Tok.shape,ts[2]?.map Tok.shape))
      (k' (ts[0]?.map Tok.shape,ts[1]?.map Tok.shape,ts[2]?.map Tok.shape))) :
    Spec f holes ts c n m g Q (peekAhead >>= k) (peekAhead >>= k') := by
  have hat : ∀ i : ℕ, (ts.map (Tok.map f))[i]?.map Tok.shape = ts[i]?.map Tok.shape := by
    intro i
    rw [List.getElem?_map,Option.map_map]
    congr 1
    funext t
    exact shape_map t
  refine fun hts => SpecAt.look ?_
  show (tokenSetting f holes).SpecAt ts c n m g Q _ (k' ((ts.map (Tok.map f))[0]?.map Tok.shape,
    (ts.map (Tok.map f))[1]?.map Tok.shape,(ts.map (Tok.map f))[2]?.map Tok.shape))
  rw [hat 0,hat 1,hat 2]
  exact h hts

lemma spec_token_bind {t : Tok ℓ} {r : Option (Tok ℓ) → Except (ParseError ℓ) β}
    {r' : Option (Tok ℓ') → Except (ParseError ℓ') β'} {k : β → P ℓ α}
    (hr : r (some t) = .ok b) (hr' : r' (some (t.map f)) = .ok b') (hlevel : bracketLevel n t = some j)
    (h : Spec f holes ts c j m g (fun a l => Q a (1+l)) (k b) (k' b')) :
    Spec f holes (t::ts) c n m g Q (token r >>= k) (token r' >>= k') :=
  fun hts => SpecAt.token_bind hr hr' hlevel (h ((tokenSetting f holes).ok_tail hts))

/-- Taking the token in front, whatever it is. -/
lemma spec_skip {t : Tok ℓ} {k : Unit → P ℓ α} {k' : Unit → P ℓ' α'} (hlevel : bracketLevel n t = some j)
    (h : Spec f holes ts c j m g (fun a l => Q a (1+l)) (k ()) (k' ())) :
    Spec f holes (t::ts) c n m g Q (skip >>= k) (skip >>= k') :=
  spec_token_bind rfl rfl hlevel h

lemma spec_expect (hlevel : bracketLevel n (.kw k : Tok ℓ) = some m) :
    Spec f holes ts c n m (id : Unit → Unit) (fun _ i => 1 ≤ i) (expect k) (expect k) := by
  apply spec_token
  rcases ts.head? with _ | t
  · exact ⟨trivial,_,rfl⟩
  cases t with
  | kw k' =>
    by_cases hk : k' = k
    · subst hk
      simp only [Setting.Reads,map_some,tokenSetting,Tok.map,if_true]
      exact ⟨trivial,Nat.le_refl 1,_,rfl,hlevel⟩
    · simp only [Setting.Reads,map_some,tokenSetting,Tok.map,hk]
      exact ⟨trivial,_,rfl⟩
  | _ => exact ⟨trivial,_,rfl⟩

lemma spec_expectIdent (s : String) :
    Spec f holes ts c n n id (fun _ i => 1 ≤ i) (expectIdent s) (expectIdent s) := by
  apply spec_token
  rcases ts.head? with _ | t
  · exact ⟨trivial,_,rfl⟩
  cases t with
  | ident name => exact ⟨rfl,Nat.le_refl 1,_,rfl,rfl⟩
  | _ => exact ⟨trivial,_,rfl⟩

lemma spec_expectDotIdent (s : String) :
    Spec f holes ts c n n id (fun _ i => 1 ≤ i) (expectDotIdent s) (expectDotIdent s) := by
  apply spec_token
  rcases ts.head? with _ | t
  · exact ⟨trivial,_,rfl⟩
  cases t with
  | dotIdent name => exact ⟨rfl,Nat.le_refl 1,_,rfl,rfl⟩
  | _ => exact ⟨trivial,_,rfl⟩

lemma spec_expectNamedIdent (s : String) :
    Spec f holes ts c n n id (fun _ i => 1 ≤ i) (expectNamedIdent s) (expectNamedIdent s) := by
  apply spec_token
  rcases ts.head? with _ | t
  · exact ⟨trivial,_,rfl⟩
  cases t with
  | ident name => exact ⟨rfl,Nat.le_refl 1,_,rfl,rfl⟩
  | _ => exact ⟨trivial,_,rfl⟩

lemma spec_expectLiteral (s : String) :
    Spec f holes ts c n n f (fun _ i => 1 ≤ i) (expectLiteral s) (expectLiteral s) := by
  apply spec_token
  rcases ts.head? with _ | t
  · exact ⟨trivial,_,rfl⟩
  cases t with
  | lit l => exact ⟨rfl,Nat.le_refl 1,_,rfl,rfl⟩
  | _ => exact ⟨trivial,_,rfl⟩

lemma spec_unexpected (s : String) : Spec f holes ts c n m g Q (unexpected s) (unexpected s) := by
  apply spec_token
  exact ⟨trivial,_,rfl⟩

/-- The stream starts with the keyword that was seen. -/
lemma head_kw (h : ts.head?.map Tok.shape = some (.kw k)) : ∃ ts', ts = .kw k::ts' := by
  rcases ts with _ | ⟨t,ts⟩
  · cases h
  cases t with
  | kw k' =>
    cases h
    exact ⟨ts,rfl⟩
  | _ => cases h

lemma at_kw (h : ts[0]?.map Tok.shape = some (.kw k)) : ∃ ts', ts = .kw k::ts' := by
  rw [← head?_eq_getElem?] at h
  exact head_kw h

/-- A branch both sides take alike. -/
lemma spec_ite [Decidable q]
    (h₁ : q → Spec f holes ts c n m g Q p₁ p₁') (h₂ : ¬q → Spec f holes ts c n m g Q p₂ p₂') :
    Spec f holes ts c n m g Q (if q then p₁ else p₂) (if q then p₁' else p₂') := by
  by_cases hq : q
  · rw [if_pos hq,if_pos hq]
    exact h₁ hq
  · rw [if_neg hq,if_neg hq]
    exact h₂ hq

lemma spec_accept (hlevel : bracketLevel n (.kw k : Tok ℓ) = some n) :
    Spec f holes ts c n n id (fun b i => b = true → 1 ≤ i) (accept k) (accept k) := by
  apply spec_peek
  by_cases hk : ts.head?.map Tok.shape = some (.kw k)
  · obtain ⟨ts,rfl⟩ := head_kw hk
    rw [if_pos hk,if_pos hk]
    exact spec_skip hlevel (spec_return fun _ => Nat.le_add_right 1 0)
  · rw [if_neg hk,if_neg hk]
    exact spec_return (by simp)

variable {p' : Unit → P ℓ' α'} {p : Unit → P ℓ α}

/-- A keyword that has to come next, and the stream after it. -/
lemma spec_expect_bind (hlevel : bracketLevel n (.kw k : Tok ℓ) = some j)
    (h : ∀ rest, ts = .kw k::rest → Spec f holes rest c j m g (fun a l => Q a (1+l)) (p ()) (p' ())) :
    Spec f holes ts c n m g Q (expect k >>= p) (expect k >>= p') := by
  rcases ts with _ | ⟨t,ts⟩
  · exact fun _ => SpecAt.token_error rfl rfl trivial
  cases t with
  | kw k' =>
    by_cases hk : k' = k
    · subst hk
      exact spec_token_bind (if_pos rfl) (if_pos rfl) hlevel (h ts rfl)
    · exact fun _ => SpecAt.token_error (if_neg hk) (if_neg hk) trivial
  | _ => exact fun _ => SpecAt.token_error rfl rfl trivial

lemma spec_word (hlevel : bracketLevel n (.kw k : Tok ℓ) = some j)
    (h : ∀ {ts}, Spec f holes ts c j m g (fun a l => Q a (1+l)) (p ()) (p' ())) :
    Spec f holes ts c n m g Q (expect k >>= p) (expect k >>= p') :=
  spec_expect_bind hlevel fun _ _ => h

/-- A keyword that may come next, and the stream after it. -/
lemma spec_accept_bind {p : Bool → P ℓ α} {p' : Bool → P ℓ' α'} (hlevel : bracketLevel n (.kw k : Tok ℓ) = some j)
    (h₁ : ∀ rest, ts = .kw k::rest → Spec f holes rest c j m g (fun a l => Q a (1+l)) (p true) (p' true))
    (h₂ : Spec f holes ts c n m g Q (p false) (p' false)) :
    Spec f holes ts c n m g Q (accept k >>= p) (accept k >>= p') := by
  rw [accept,accept,Parser.bind_assoc,Parser.bind_assoc]
  apply spec_peek
  by_cases hk : ts.head?.map Tok.shape = some (.kw k)
  · obtain ⟨ts,rfl⟩ := head_kw hk
    rw [if_pos hk,if_pos hk,Parser.bind_assoc,Parser.bind_assoc]
    apply spec_skip hlevel
    exact h₁ ts rfl
  · rw [if_neg hk,if_neg hk,Parser.pure_bind,Parser.pure_bind]
    exact h₂

lemma spec_optionally (S : α → Prop) {p : P ℓ α} {p' : P ℓ' α'} {a : α}
    (hlevel : bracketLevel n (.kw k : Tok ℓ) = some n) (hp : ∀ {ts}, Spec f holes ts c n n g (fun a _ => S a) p p')
    (ha : S a) (hg : g a = a') : Spec f holes ts c n n g (fun a _ => S a) (optionally k p a) (optionally k p' a') := by
  refine spec_bind (spec_accept hlevel) fun taken _ _ => ?_
  cases taken with
  | true => exact hp
  | false => exact spec_pure ha hg

lemma spec_refuse {γ γ' : Type} {slot : Option γ} {slot' : Option γ'} (what : String)
    (hslot : slot'.isSome = slot.isSome)
    (h : slot = none → Spec f holes ts c n m g Q (p ()) (p' ())) :
    Spec f holes ts c n m g Q (refuseRepeatedClause slot what >>= p) (refuseRepeatedClause slot' what >>= p') := by
  rw [refuseRepeatedClause,refuseRepeatedClause,hslot]
  cases slot with
  | some _ => exact spec_fail trivial
  | none => exact h rfl

lemma spec_parseOptionalIfExists :
    Spec f holes ts c n n id (fun _ _ => True) parseOptionalIfExists parseOptionalIfExists := by
  refine spec_peekAhead (spec_ite (fun h => ?_) fun _ => spec_return trivial)
  obtain ⟨h₀,h₁⟩ := h
  rcases ts with _ | ⟨t₀,ts⟩
  · cases h₀
  obtain ⟨ts,rfl⟩ := at_kw (show ts[0]?.map Tok.shape = some (.kw .existsKw) from h₁)
  cases t₀ with
  | ident _ => exact spec_skip rfl (spec_skip rfl (spec_return trivial))
  | _ => cases h₀

end tokens

/-- The same outcome on both sides, and an error the parser may raise. -/
def SameOutcome (x : Except (ParseError ℓ) α) (y : Except (ParseError ℓ') α) : Prop :=
  match x with
  | .ok a => y = .ok a
  | .error e => e.Raised ∧ ∃ e', y = .error e'

/-- Readers that agree up to `f` on the literals that are no holes. -/
structure Agrees (f : ℓ → ℓ') (holes : Holes ℓ) (R : Reader ℓ) (R' : Reader ℓ') : Prop where
  pathSegment : ∀ l, ¬holes.path l → SameOutcome (R.pathSegment l) (R'.pathSegment (f l))
  castType : ∀ l, ¬holes.cast l → SameOutcome (R.castType l) (R'.castType (f l))
  trueLiteral : f R.trueLiteral = R'.trueLiteral
  storable : ∀ ts, R'.storable (ts.map (Tok.map f)) = R.storable ts

/-- A parser of expressions that fit. -/
abbrev ExprSpec (f : ℓ → ℓ') (holes : Holes ℓ) (ts : List (Tok ℓ)) (c n D A : ℕ) (p : P ℓ (Expr ℓ)) (p' : P ℓ' (Expr ℓ')) :
    Prop :=
  Spec f holes ts c n n (Expr.map f) (fun e i => e.Fits D A ∧ 1 ≤ i) p p'

/-- What the functions of a level do: at most `c` calls, trees that fit, balanced brackets. -/
structure LevelOk (f : ℓ → ℓ') (holes : Holes ℓ) (b D A c₀ : ℕ) (L : Level ℓ) (L' : Level ℓ') : Prop where
  budget : L.budget = b
  budget' : L'.budget = b
  expr : ∀ {c n : ℕ} {ts : List (Tok ℓ)}, c₀ ≤ c →
    ExprSpec f holes ts c n D A L.expr L'.expr
  primary : ∀ {c n : ℕ} {ts : List (Tok ℓ)}, c₀ ≤ c →
    ExprSpec f holes ts c n D A L.primary L'.primary
  nested : ∀ {c n : ℕ} {ts : List (Tok ℓ)}, c₀ ≤ c →
    Spec f holes ts c (n+1) (n+1) (NestedQuery.map (Expr.map f))
      (fun q i => (∀ e ∈ q.exprs, e.Within Expr.children D) ∧ 1 ≤ i) L.nested L'.nested
  link : ∀ {c n : ℕ} {ts : List (Tok ℓ)}, c₀ ≤ c →
    Spec f holes ts c (n+1) (n+1) (NestedQuery.map (Expr.map f))
      (fun q i => (∀ e ∈ q.exprs, e.Within Expr.children D) ∧ 1 ≤ i) L.link L'.link

section functions
variable {f : ℓ → ℓ'} {holes : Holes ℓ} {b D A c₀ : ℕ} {L : Level ℓ} {L' : Level ℓ'}
  {c n : ℕ} {ts : List (Tok ℓ)}
  {es : List (Expr ℓ)}

lemma combine_fits (op : Option BinOp) (hl : l.Fits D A) (hr : r.Fits D A) :
    (combine op l r).Fits (D+1) (A+1) := by
  cases op with
  | none => exact hl.coalesce hr
  | some op => exact hl.binaryOp op hr

/-- Every tree of a list fits. -/
def AllFit (D A : ℕ) (es : List (Expr ℓ)) : Prop := ∀ e ∈ es, e.Fits D A

/-- Every tree of a list is at most so deep. -/
def Below (D : ℕ) (es : List (Expr ℓ)) : Prop := ∀ e ∈ es, e.Within Expr.children D

@[simp] lemma below_nil : Below D ([] : List (Expr ℓ)) := by simp [Below]

@[simp] lemma below_cons : Below D (e::es) ↔ e.Within Expr.children D ∧ Below D es := by simp [Below]

@[simp] lemma below_append :
    Below D (xs++ys) ↔ Below D xs ∧ Below D ys := by simp [Below,or_imp,forall_and]

lemma Below.mono (h : Below D es) (hD : D ≤ D') : Below D' es :=
  fun e he => (h e he).mono hD

lemma AllFit.below (h : AllFit D A es) : Below D es := fun e he => (h e he).1

lemma parseDirection_spec :
    Spec f holes ts c n n id (fun _ _ => True) parseDirection parseDirection := by
  refine spec_bind (spec_accept rfl) fun descending i _ => ?_
  cases descending with
  | true => exact spec_return trivial
  | false => exact spec_bind (spec_accept rfl) fun _ _ _ => spec_return trivial

lemma tryParseAlias_spec (hc : 1 ≤ c) :
    Spec f holes ts c n n id (fun _ _ => True) tryParseAlias tryParseAlias := by
  refine spec_call hc (spec_bind (spec_accept rfl) fun {ts} taken _ _ => ?_)
  cases taken with
  | false => exact spec_return trivial
  | true =>
    apply spec_peek
    rcases ts with _ | ⟨t,ts⟩
    · exact spec_return trivial
    cases t with
    | ident _ => exact spec_skip rfl (spec_return trivial)
    | _ => exact spec_return trivial

lemma parseJoinKind_spec :
    Spec f holes ts c n n id (fun r i => r.isSome → 1 ≤ i) parseJoinKind parseJoinKind := by
  apply spec_peek
  rcases ts with _ | ⟨t,ts⟩
  · exact spec_return (by simp)
  have hwords : ∀ kind : JoinKind, Spec f holes ts c n n id (fun r i => r.isSome → 1 ≤ 1+i)
      (expect .join >>= fun _ => pure (some kind)) (expect .join >>= fun _ => pure (some kind)) :=
    fun kind => spec_bind (spec_expect rfl) fun _ _ _ => spec_return fun _ => by omega
  have houter : ∀ kind : JoinKind, Spec f holes ts c n n id (fun r i => r.isSome → 1 ≤ 1+i)
      (do
        let _ ← accept .outer
        expect .join
        pure (some kind))
      (do
        let _ ← accept .outer
        expect .join
        pure (some kind)) :=
    fun kind => spec_bind (spec_accept rfl) fun _ _ _ =>
      spec_bind (spec_expect rfl) fun _ _ _ => spec_return fun _ => by omega
  cases t with
  | kw k =>
    cases k with
    | join => exact spec_skip rfl (spec_return fun _ => by omega)
    | inner => exact spec_skip rfl (hwords .inner)
    | leftKw => exact spec_skip rfl (houter .leftOuter)
    | rightKw => exact spec_skip rfl (houter .rightOuter)
    | cross => exact spec_skip rfl (hwords .cross)
    | _ => exact spec_return (by simp)
  | _ => exact spec_return (by simp)

section
variable (hL : LevelOk f holes b D A c₀ L L')
include hL

/-- The depth guard, and what follows it when it lets the parser go on. -/
lemma checkChainDepth_bind
    (h : k ≤ b → Spec f holes ts c n m g Q (p ()) (p' ())) :
    Spec f holes ts c n m g Q (checkChainDepth L k >>= p) (checkChainDepth L' k >>= p') := by
  rw [checkChainDepth,checkChainDepth,hL.budget,hL.budget']
  by_cases hk : b < k
  · rw [if_pos hk,if_pos hk]
    exact spec_fail trivial
  · rw [if_neg hk,if_neg hk,Parser.pure_bind,Parser.pure_bind]
    exact h (by omega)

/-- A chain adds at most one level of tree for each level of nesting left. -/
lemma parseChain_spec
    (hops : ∀ (t : Tok ℓ) (n : ℕ), (ops t.shape).isSome → bracketLevel n t = some n)
    (hoperand : ∀ {ts}, ExprSpec f holes ts c n D₁ A₁ operand operand') :
    ExprSpec f holes ts c n (D₁+b) (A₁+b) (parseChain L ops operand)
      (parseChain L' ops operand') := by
  refine spec_bind (hoperand) fun left i hleft => ?_
  refine spec_mono (spec_loop (Prod.map id (Expr.map f)) (fun s => s.1 ≤ b ∧ s.2.Fits (D₁+s.1) (A₁+s.1))
    (fun e => e.Fits (D₁+b) (A₁+b)) ?_ ⟨Nat.zero_le _,hleft.1⟩) fun e _ he => ⟨he,by omega⟩
  rintro ⟨k,left⟩ ts ⟨hk,hfits⟩
  apply spec_peek
  cases hop : (ts.head?.map Tok.shape).bind ops with
  | none => exact spec_return (hfits.mono (by omega) (by omega))
  | some op =>
    refine checkChainDepth_bind hL fun hkb => ?_
    rcases ts with _ | ⟨t,ts⟩
    · cases hop
    have hlevel : bracketLevel n t = some n := hops t n (by simpa using congrArg isSome hop)
    refine spec_skip hlevel (spec_bind (hoperand) fun right i hright => ?_)
    have hright := hright.1.mono (Nat.le_add_right _ k) (Nat.le_add_right _ k)
    exact spec_pure ⟨⟨hkb,combine_fits op hfits hright⟩,by omega⟩
      (congrArg (fun e => Sum.inl (k+1,e)) (by cases op <;> simp [combine]))

lemma parseMultiplicative_spec (hc : c₀+1 ≤ c) :
    ExprSpec f holes ts c n (D+b) (A+b) (parseMultiplicative L)
      (parseMultiplicative L') := by
  refine spec_call (by omega) (parseChain_spec hL ?_ (hL.primary (by omega)))
  intro t n ht
  rcases t with _ | _ | _ | _ | k
  all_goals try cases ht
  cases k <;> first | rfl | cases ht

lemma parseAdditive_spec (hc : c₀+2 ≤ c) :
    ExprSpec f holes ts c n (D+2*b) (A+2*b) (parseAdditive L)
      (parseAdditive L') := by
  refine spec_call (by omega) (spec_mono (parseChain_spec hL ?_ (parseMultiplicative_spec hL (by omega)))
    fun e i he => ⟨he.1.mono (by omega) (by omega),he.2⟩)
  intro t n ht
  rcases t with _ | _ | _ | _ | k
  all_goals try cases ht
  cases k <;> first | rfl | cases ht

/-- Expressions inside brackets. -/
lemma parseExprList_spec (close : Keyword) (hc : c₀ ≤ c) :
    Spec f holes ts c (n+1) (n+1) (List.map (Expr.map f)) (fun es _ => AllFit D A es)
      (parseExprList L close) (parseExprList L' close) := by
  refine spec_collect (map (Expr.map f)) (AllFit D A) ?_ (by simp [AllFit])
  intro es ts hes
  apply spec_peek
  cases hhead : ts.head?.map Tok.shape with
  | none => exact spec_return hes
  | some t =>
    by_cases ht : t = .kw close
    · simp only [ht]
      exact spec_return hes
    · simp only [ht]
      refine spec_bind (hL.expr hc) fun e i he => ?_
      refine spec_bind (spec_accept rfl) fun _ j _ => ?_
      refine spec_pure ⟨?_,by omega⟩ (by simp)
      simpa [AllFit,or_imp,forall_and] using ⟨hes,he.1⟩

lemma parseOrderKeys_spec (hc : c₀ ≤ c) : Spec f holes ts c (n+1) (n+1) (List.map (OrderKey.map (Expr.map f)))
      (fun ks _ => Below D (ks.map OrderKey.expr)) (parseOrderKeys L) (parseOrderKeys L') := by
  refine spec_collect (map (OrderKey.map (Expr.map f)))
    (fun ks : List (OrderKey (Expr ℓ)) => Below D (ks.map OrderKey.expr)) ?_ (by simp)
  intro ks ts hks
  refine spec_bind (hL.expr hc) fun e i he => ?_
  refine spec_bind (parseDirection_spec) fun descending j _ => ?_
  refine spec_bind (spec_accept rfl) fun more l _ => ?_
  have hnext : Below D ((ks++[OrderKey.mk e descending]).map OrderKey.expr) := by simpa using ⟨hks,he.1.1⟩
  cases more with
  | true => exact spec_pure ⟨hnext,by omega⟩ (by simp [OrderKey.map])
  | false => exact spec_pure hnext (by simp [OrderKey.map])

lemma parseOrder_spec (hc : c₀+1 ≤ c) : Spec f holes ts c (n+1) (n+1) (List.map (OrderKey.map (Expr.map f)))
      (fun ks _ => Below D (ks.map OrderKey.expr)) (parseOrder L) (parseOrder L') :=
  spec_call (by omega) (parseOrderKeys_spec hL (by omega))

lemma parsePartitionKeys_spec (hc : c₀ ≤ c) :
    Spec f holes ts c (n+1) (n+1) (List.map (Expr.map f)) (fun es _ => Below D es)
      (parsePartitionKeys L) (parsePartitionKeys L') := by
  refine spec_collect (map (Expr.map f)) (Below D) ?_ (by simp)
  intro es ts hes
  refine spec_bind (hL.expr hc) fun e i he => ?_
  have hnext : Below D (es++[e]) := by simpa using ⟨hes,he.1.1⟩
  refine spec_peekAhead (spec_ite (fun hcomma => ?_) fun _ => spec_pure hnext (by simp))
  obtain ⟨ts,rfl⟩ := at_kw hcomma.1
  exact spec_skip rfl (spec_pure ⟨hnext,by omega⟩ (by simp))

/-- Expressions inside the brackets of a window. -/
lemma parseOverClause_spec (hc : c₀+1 ≤ c) :
    Spec f holes ts c n n (Prod.map (List.map (Expr.map f)) (List.map (OrderKey.map (Expr.map f))))
      (fun r _ => Below D r.1 ∧ Below D (r.2.map OrderKey.expr)) (parseOverClause L) (parseOverClause L') := by
  apply spec_call (by omega)
  refine spec_word rfl ?_
  refine spec_word rfl ?_
  refine spec_bind (spec_optionally (Below D) rfl (parsePartitionKeys_spec hL (by omega)) below_nil rfl)
    fun partitionBy _ hpartition => ?_
  refine spec_bind (spec_optionally (fun ks => Below D (ks.map OrderKey.expr)) rfl
    (parseOrderKeys_spec hL (by omega)) below_nil rfl) fun orderBy _ horder => ?_
  refine spec_word rfl ?_
  exact spec_return ⟨hpartition,horder⟩

lemma parseSomeExpr_spec (hc : c₀ ≤ c) :
    Spec f holes ts c n n (Option.map (Expr.map f)) (fun e _ => Below D e.toList) (parseSomeExpr L)
      (parseSomeExpr L') := by
  refine spec_bind (hL.expr hc) fun e _ he => ?_
  exact spec_pure (by simpa using he.1.1) rfl

lemma parseGroupKeys_spec (hc : c₀ ≤ c) : Spec f holes ts c (n+1) (n+1) (List.map (GroupKey.map (Expr.map f)))
      (fun ks _ => Below D (ks.map GroupKey.expr)) (parseGroupKeys L) (parseGroupKeys L') := by
  refine spec_collect (map (GroupKey.map (Expr.map f)))
    (fun ks : List (GroupKey (Expr ℓ)) => Below D (ks.map GroupKey.expr)) ?_ (by simp)
  intro ks ts hks
  refine spec_bind (hL.expr hc) fun e i he => ?_
  refine spec_bind (spec_accept rfl) fun more l _ => ?_
  have hnext : Below D ((ks++[GroupKey.mk e (groupOutputName ks.length e)]).map GroupKey.expr) := by
    simpa using ⟨hks,he.1.1⟩
  cases more with
  | true => exact spec_pure ⟨hnext,by omega⟩ (by simp [GroupKey.map,groupOutputName_map])
  | false => exact spec_pure hnext (by simp [GroupKey.map,groupOutputName_map])

lemma parseGroupBy_spec (hc : c₀+1 ≤ c) :
    Spec f holes ts c (n+1) (n+1) (GroupByClause.map (Expr.map f)) (fun r _ => Below D r.exprs)
      (parseGroupBy L) (parseGroupBy L') := by
  apply spec_call (by omega)
  refine spec_bind (parseGroupKeys_spec hL (by omega)) fun keys i hkeys => ?_
  refine spec_bind (spec_optionally (fun e => Below D e.toList) rfl (parseSomeExpr_spec hL (by omega))
    below_nil rfl) fun having _ hhaving => ?_
  exact spec_pure (below_append.mpr ⟨hkeys,hhaving⟩) rfl

lemma parseJoinTail_spec (hc₀ : 1 ≤ c₀) (hc : c₀ ≤ c) (kind : JoinKind) :
    Spec f holes ts c n n (JoinClause.map (Expr.map f)) (fun j _ => Below D j.on.toList)
      (parseJoinTail L kind) (parseJoinTail L' kind) := by
  refine spec_bind (spec_expectIdent _) fun source _ _ => ?_
  refine spec_bind (tryParseAlias_spec (by omega)) fun aliasName _ _ => ?_
  refine spec_ite (fun _ => spec_pure below_nil rfl) fun _ => ?_
  refine spec_bind (spec_accept rfl) fun on _ _ => ?_
  cases on with
  | true =>
    refine spec_bind (hL.expr hc) fun e _ he => ?_
    exact spec_pure (by simpa using he.1.1) rfl
  | false => exact spec_fail trivial

lemma parseJoins_spec (hc₀ : 1 ≤ c₀) (hc : c₀+1 ≤ c)
    : Spec f holes ts c n n (List.map (JoinClause.map (Expr.map f)))
      (fun js _ => Below D (js.flatMap fun j => j.on.toList)) (parseJoins L) (parseJoins L') := by
  refine spec_call (by omega) (spec_collect (map (JoinClause.map (Expr.map f)))
    (fun js : List (JoinClause (Expr ℓ)) => Below D (js.flatMap fun j => j.on.toList)) ?_ (by simp))
  intro js ts hjs
  refine spec_bind (parseJoinKind_spec) fun kind i hi => ?_
  cases kind with
  | none => exact spec_pure hjs rfl
  | some kind =>
    have hi := hi rfl
    refine spec_bind (parseJoinTail_spec hL hc₀ (by omega) kind) fun j _ hj => ?_
    exact spec_pure ⟨by simpa using ⟨hjs,hj⟩,by omega⟩ (by simp)

end

end functions
end PowDB.Syntax
