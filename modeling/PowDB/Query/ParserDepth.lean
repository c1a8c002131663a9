import PowDB.Query.StatementSpec
import PowDB.Query.Params

/-! How deep the parser goes. Nesting is counted by the depth guard, but a union is a call
inside the last one and a level of the tree, and nothing counts them. -/
namespace PowDB.Syntax
open List Option
open Query (Literal)
open Lib (Parser)
open Lib.Setting (SpecAt)
open Lib.Parser (call look)

section unions
variable {ℓ ℓ' : Type}
  {m : ℕ}

/-- The unions down the left side of a statement. -/
def Statement.spine : Statement ℓ → ℕ
  | .union l _ _ => l.spine+1
  | .explain s => s.spine
  | _ => 0

variable {s : Statement ℓ}

lemma Statement.Within.spine_lt (h : s.Within k) : s.spine < k := by
  induction h with
  | @node k s hparts _ ih =>
    cases s with
    | union l r all => exact Nat.succ_lt_succ (ih l (by simp [Statement.parts]))
    | explain s => exact Nat.lt_succ_of_lt (ih s (by simp [Statement.parts]))
    | _ => exact Nat.succ_pos k

lemma walk_unions (h : (tokenSetting f holes).walk n seg = some m) : unions seg = 0 := by
  induction seg generalizing n with
  | nil => rfl
  | cons t seg ih =>
    rw [Lib.Setting.walk_cons] at h
    obtain ⟨j,hj,hwalk⟩ := bind_eq_some_iff.mp h
    have ht : t.shape ≠ .kw .union := by
      intro hshape
      obtain ⟨_,ht⟩ := head_kw (show [t].head?.map Tok.shape = some (.kw .union) from congrArg some hshape)
      obtain rfl : t = .kw .union := (cons.inj ht).1
      cases hj
    simpa [unions,countP_cons,ht] using ih hwalk

/-- A part of a statement takes no union. -/
lemma spec_taken {α α' : Type} {g : α → α'} {Q : α → ℕ → Prop} {p : P ℓ α} {p' : P ℓ' α'} {a : α}
    (h : Spec f holes ts c n m g Q p p') (hts : (tokenSetting f holes).ok ts) (hp : (p ts).out = .ok (a,rest)) :
    ∃ seg, ts = seg++rest ∧ unions seg = 0 ∧ ∃ i, Q a i := by
  obtain ⟨-,hout⟩ := h hts
  rw [hp] at hout
  obtain ⟨-,seg,hts,hwalk,hQ⟩ := hout
  exact ⟨seg,hts,walk_unions hwalk,_,hQ⟩

lemma unions_cons_union (ts : List (Tok ℓ)) : unions (.kw .union::ts) = unions ts+1 := by
  simp [unions,Tok.shape,Tok.map]

/-- Either no union is taken, or a query, a union and the rest. -/
lemma maybeParseUnion_out (h : (maybeParseUnion L fuel left ts).out = .ok (s,rest)) :
    s = left ∧ rest = ts ∨ isUnionSide left = true ∧ ∃ n ts' all ts₁ right ts₂, fuel = n+1 ∧ ts = .kw .union::ts' ∧
      (parseUnionAll ts').out = .ok (all,ts₁) ∧ (parseSingleQuery L ts₁).out = .ok (right,ts₂) ∧
      (maybeParseUnion L n (.union left right all) ts₂).out = .ok (s,rest) := by
  cases fuel with
  | zero =>
    obtain ⟨t,_,hpeek,h⟩ := Parser.bind_out h
    cases hpeek
    split at h
    · cases h
    · cases h
      exact .inl ⟨rfl,rfl⟩
  | succ n =>
    obtain ⟨t,_,hpeek,h⟩ := Parser.bind_out h
    cases hpeek
    split at h
    · rename_i hunion
      obtain ⟨ts,rfl⟩ := head_kw hunion
      split at h
      · rename_i hside
        obtain ⟨_,_,hskip,h⟩ := Parser.bind_out h
        cases hskip
        obtain ⟨all,ts₁,hall,h⟩ := Parser.bind_out h
        obtain ⟨right,ts₂,hright,h⟩ := Parser.bind_out h
        exact .inr ⟨hside,n,ts,all,ts₁,right,ts₂,rfl,rfl,hall,hright,h⟩
      · cases h
    · cases h
      exact .inl ⟨rfl,rfl⟩

/-- Every union the parser takes is one more on the left side of the statement. -/
lemma maybeParseUnion_spine (hL : LevelOk f holes b D A c₀ L L') (hc₀ : 1 ≤ c₀)
    (hts : (tokenSetting f holes).ok ts) (h : (maybeParseUnion L fuel left ts).out = .ok (s,rest)) :
    ∃ seg, ts = seg++rest ∧ s.spine = left.spine+unions seg := by
  induction fuel generalizing ts left with
  | zero =>
    obtain ⟨rfl,rfl⟩ | ⟨-,_,_,_,_,_,_,hfuel,-⟩ := maybeParseUnion_out h
    · exact ⟨[],rfl,rfl⟩
    · cases hfuel
  | succ fuel ih =>
    obtain ⟨rfl,rfl⟩ | ⟨-,_,ts,all,_,right,_,⟨⟩,rfl,hall,hright,hrest⟩ := maybeParseUnion_out h
    · exact ⟨[],rfl,rfl⟩
    · have htail := (tokenSetting f holes).ok_tail hts
      have hspec : Spec f holes ts 0 0 0 id (fun _ _ => True) parseUnionAll parseUnionAll := parseUnionAll_spec
      obtain ⟨seg₁,rfl,hseg₁,-⟩ := spec_taken hspec htail hall
      have htail₁ := (tokenSetting f holes).ok_append htail
      obtain ⟨seg₂,rfl,hseg₂,-⟩ := spec_taken (parseSingleQuery_spec (n := 0) hL hc₀ le_rfl) htail₁ hright
      obtain ⟨seg,rfl,hspine⟩ := ih ((tokenSetting f holes).ok_append htail₁) hrest
      refine ⟨.kw .union::(seg₁++(seg₂++seg)),by simp,?_⟩
      rw [unions_cons_union,unions_append,unions_append,hseg₁,hseg₂,hspine,Statement.spine]
      omega

lemma unions_cons (ht : t.shape ≠ .kw .union) (ts : List (Tok ℓ)) : unions (t::ts) = unions ts := by
  simp [unions,ht]

lemma accept_out (h : (accept k ts).out = .ok (taken,rest)) :
    ts = rest ∨ ts = .kw k::rest := by
  obtain ⟨t,_,hpeek,h⟩ := Parser.bind_out h
  cases hpeek
  split at h
  · rename_i hk
    obtain ⟨ts,rfl⟩ := head_kw hk
    cases h
    exact .inr rfl
  · cases h
    exact .inl rfl

/-- What a statement is parsed from: an explained statement, words that hold nothing, or a bare
statement and its unions. -/
lemma parseStatement_out (h : (parseStatement R (b+1) ts).out = .ok (s,rest)) :
    (∃ ts' s', ts = .kw .explain::ts' ∧ s = .explain s' ∧ (parseStatement R b ts').out = .ok (s',rest)) ∨
    (s.spine = 0 ∧ s.viewText = none ∧ (∃ seg, ts = seg++rest ∧ unions seg = 0) ∧
      ∀ R', (parseStatement R' (b+1) ts).out = .ok (s,rest)) ∨
    (∃ left ts', (parseBareStatement R (level R b) (ts.head?.map Tok.shape) ts).out = .ok (left,ts') ∧
      (maybeParseUnion (level R b) ts'.length left ts').out = .ok (s,rest)) ∧
      ∀ R', ((parseBareStatement R' (level R' b) (ts.head?.map Tok.shape) >>= maybeParseUnions (level R' b)) ts).out =
        .ok (s,rest) → (parseStatement R' (b+1) ts).out = .ok (s,rest) := by
  obtain ⟨t,_,hpeek,h⟩ := Parser.bind_out h
  cases hpeek
  rcases ts with _ | ⟨t,ts⟩
  · exact .inr (.inr ⟨Parser.bind_out h,fun _ hbare => Parser.bind_out_iff.mpr ⟨none,[],rfl,hbare⟩⟩)
  cases t with
  | kw k =>
    cases k with
    | explain =>
      obtain ⟨_,_,hskip,hbody⟩ := Parser.bind_out h
      cases hskip
      obtain ⟨s',_,hrec,hpure⟩ := Parser.bind_out hbody
      cases hpure
      exact .inl ⟨ts,s',rfl,rfl,hrec⟩
    | begin =>
      obtain ⟨_,_,hskip,hbody⟩ := Parser.bind_out h
      cases hskip
      obtain ⟨_,_,haccept,hpure⟩ := Parser.bind_out hbody
      cases hpure
      have hsame : ∀ R', (parseStatement R' (b+1) (.kw .begin::ts)).out = .ok (.begin,rest) := fun _ =>
        Parser.bind_out_iff.mpr ⟨_,_,rfl,Parser.bind_out_iff.mpr ⟨(),ts,rfl,Parser.bind_out_iff.mpr ⟨_,_,haccept,rfl⟩⟩⟩
      obtain rfl | rfl := accept_out haccept
      · exact .inr (.inl ⟨rfl,rfl,⟨[.kw .begin],rfl,rfl⟩,hsame⟩)
      · exact .inr (.inl ⟨rfl,rfl,⟨[.kw .begin,.kw .transaction],rfl,rfl⟩,hsame⟩)
    | commit | rollback =>
      cases h
      exact .inr (.inl ⟨rfl,rfl,⟨[_],rfl,rfl⟩,fun _ => rfl⟩)
    | _ => exact .inr (.inr ⟨Parser.bind_out h,fun _ hbare => Parser.bind_out_iff.mpr ⟨_,_,rfl,hbare⟩⟩)
  | _ => exact .inr (.inr ⟨Parser.bind_out h,fun _ hbare => Parser.bind_out_iff.mpr ⟨_,_,rfl,hbare⟩⟩)

lemma parseStatement_spine (hR : Agrees f holes R R')
    (hts : (tokenSetting f holes).ok ts) (h : (parseStatement R b ts).out = .ok (s,rest)) :
    ∃ seg, ts = seg++rest ∧ s.spine = unions seg := by
  induction b generalizing ts s with
  | zero => cases h
  | succ b ih =>
    obtain ⟨ts,s,rfl,rfl,hrec⟩ | ⟨hs,-,⟨seg,hseg,hnone⟩,-⟩ | ⟨⟨left,ts₁,hbare,hrest⟩,-⟩ := parseStatement_out h
    · obtain ⟨seg,rfl,hspine⟩ := ih ((tokenSetting f holes).ok_tail hts) hrec
      exact ⟨.kw .explain::seg,rfl,hspine.trans (unions_cons (t := .kw .explain) nofun seg).symm⟩
    · exact ⟨seg,hseg,hs.trans hnone.symm⟩
    · have hL := level_ok hR b
      have hone : 1 ≤ callHeight b := Nat.le_add_left 1 (8*b)
      obtain ⟨seg₁,rfl,hseg₁,_,hleft⟩ := spec_taken (parseBareStatement_spec (n := 0) hL hR hone le_rfl) hts hbare
      obtain ⟨seg,rfl,hspine⟩ := maybeParseUnion_spine hL hone ((tokenSetting f holes).ok_append hts) hrest
      refine ⟨seg₁++seg,by simp,?_⟩
      rw [unions_append,hseg₁,hspine,show left.spine = 0 by cases left <;> first | rfl | cases hleft.1]

lemma parseTokens_spine (hR : Agrees f holes R R') (hts : (tokenSetting f holes).ok ts)
    (h : (parseTokens R ts).out = .ok (s,rest)) : s.spine = unions ts := by
  obtain ⟨s',ts₁,hstatement,hend⟩ := Parser.bind_out h
  obtain ⟨t,ts₂,hlook,hend⟩ := Parser.bind_out hend
  cases hlook
  obtain ⟨seg,rfl,hspine⟩ := parseStatement_spine hR hts hstatement
  rcases ts₁ with _ | ⟨t,ts₁⟩
  · cases hend
    rw [append_nil]
    exact hspine
  · cases hend

end unions

/-- No literal is a hole. -/
def noHoles : Holes Literal := ⟨fun _ => False,fun _ => False⟩

lemma noHoles_ok (ts : List (Tok Literal)) : (tokenSetting id noHoles).ok ts :=
  ⟨fun ⟨_,_,_,_,h⟩ => h,fun ⟨_,_,_,_,_,_,h⟩ => h⟩

lemma tok_map_id (ts : List (Tok Literal)) : ts.map (Tok.map id) = ts := by
  have hid : (Tok.map id : Tok Literal → Tok Literal) = id := by
    funext t
    cases t <;> rfl
  rw [hid,List.map_id]

lemma reader_agrees (storable : List (Tok Literal) → Bool) : Agrees id noHoles (reader storable) (reader storable) where
  pathSegment l _ := by
    cases l with
    | int v =>
      simp only [reader,pathSegmentOf,id_eq]
      split
      · exact rfl
      · exact ⟨trivial,_,rfl⟩
    | string s => exact rfl
    | _ => exact ⟨trivial,_,rfl⟩
  castType l _ := by
    cases l with
    | string s =>
      simp only [reader,castTypeOf,id_eq]
      cases castTypeNamed s with
      | some t => exact rfl
      | none => exact ⟨trivial,_,rfl⟩
    | _ => exact ⟨trivial,_,rfl⟩
  trueLiteral := rfl
  storable ts := by rw [tok_map_id]

/-- The constant of the bounds, without unions. -/
def depthFactor : ℕ := 3639

/-- The loops of the parser end by themselves. With at most `m` times 64 unions in the text
its calls and the trees it builds stay below a fixed multiple of 64, and a tree below `m`
times 64 comes from a text with no more unions than that. -/
theorem parser_depth_bounded (storable : List (Tok Literal) → Bool) (ts : List (Tok Literal)) (m : ℕ) :
    (∀ e, (parseTokens (reader storable) ts).out = .error e → e ≠ .noProgress) ∧
    (unions ts ≤ m*maxNestingDepth →
      (parseTokens (reader storable) ts).calls ≤ (depthFactor+m)*maxNestingDepth) ∧
    ∀ s rest, (parseTokens (reader storable) ts).out = .ok (s,rest) →
      (unions ts ≤ m*maxNestingDepth → s.Within ((depthFactor+m)*maxNestingDepth)) ∧
      (s.Within (m*maxNestingDepth) → unions ts ≤ m*maxNestingDepth) := by
  have hdepth : statementDepth maxNestingDepth ≤ depthFactor*maxNestingDepth := by decide +kernel
  have hheight : statementHeight maxNestingDepth+1 ≤ depthFactor*maxNestingDepth := by decide +kernel
  have hmul : (depthFactor+m)*maxNestingDepth = depthFactor*maxNestingDepth+m*maxNestingDepth := Nat.add_mul _ _ _
  have hspec := parseTokens_spec (reader_agrees storable) (noHoles_ok ts) le_rfl le_rfl
  obtain ⟨hcalls,hout⟩ := hspec
  refine ⟨fun e he hstuck => ?_,fun hunions => by omega,fun s rest hs => ⟨fun hunions => ?_,fun hwithin => ?_⟩⟩
  · rw [he] at hout
    subst hstuck
    exact hout.1
  · rw [hs] at hout
    obtain ⟨-,-,-,-,hwithin⟩ := hout
    exact hwithin.mono (by omega)
  · have hspine := parseTokens_spine (reader_agrees storable) (noHoles_ok ts) hs
    have := hwithin.spine_lt
    omega

theorem parser_depth_bounded_plain : unions [(.ident "T" : Tok Literal)] ≤ 0*maxNestingDepth ∧
    (parseTokens (reader fun _ => true) [.ident "T"]).calls ≤ (depthFactor+0)*maxNestingDepth :=
  ⟨by decide,(parser_depth_bounded (fun _ => true) [.ident "T"] 0).2.1 (by decide)⟩

/-- A table, and so many unions with it after it. -/
def unionChain : ℕ → List (Tok Literal)
  | 0 => []
  | k+1 => .kw .union::.ident "T"::unionChain k

lemma maybeParseUnion_unionChain (L : Level Literal) (hfuel : k ≤ fuel)
    (hleft : isUnionSide left = true) : k < (maybeParseUnion L fuel left (unionChain k)).calls ∧
      ∃ s, (maybeParseUnion L fuel left (unionChain k)).out = .ok (s,[]) ∧ s.spine = left.spine+k := by
  induction k generalizing fuel left with
  | zero =>
    cases fuel with
    | zero | succ fuel => exact ⟨Nat.succ_pos _,left,rfl,rfl⟩
  | succ k ih =>
    obtain ⟨fuel,rfl⟩ : ∃ fuel', fuel = fuel'+1 := ⟨fuel-1,by omega⟩
    obtain ⟨q,hq⟩ : ∃ q, (parseSingleQuery L (.ident "T"::unionChain k)).out = .ok (.query q,unionChain k) := by
      cases k <;> exact ⟨_,rfl⟩
    obtain ⟨hcalls,s,hs,hspine⟩ := ih (Nat.le_of_succ_le_succ hfuel)
      (show isUnionSide (.union left (.query q) false) = true from rfl)
    have hall : parseUnionAll (.ident "T"::unionChain k) = ⟨.ok (false,.ident "T"::unionChain k),0⟩ := rfl
    rcases hsingle : parseSingleQuery L (.ident "T"::unionChain k) with ⟨out,c⟩
    obtain rfl : out = .ok (.query q,unionChain k) := by rw [← hq,hsingle]
    have hstep : maybeParseUnion L (fuel+1) left (unionChain (k+1)) =
        ⟨(maybeParseUnion L fuel (.union left (.query q) false) (unionChain k)).out,
          max 0 (max 0 (max 0 (max c (maybeParseUnion L fuel (.union left (.query q) false) (unionChain k)).calls)))+1⟩ := by
      rw [maybeParseUnion,hleft]
      show call (peek >>= fun _ => skip >>= fun _ => parseUnionAll >>= fun all => parseSingleQuery L >>= fun right =>
        maybeParseUnion L fuel (.union left right all)) (.kw .union::.ident "T"::unionChain k) = _
      simp only [call,Bind.bind,peek,look,skip,Lib.Parser.token,tail_cons,Except.map,hall,hsingle]
    rw [hstep]
    refine ⟨by simp only; omega,s,hs,?_⟩
    rw [hspine,Statement.spine]
    omega

lemma unionChain_length (k : ℕ) : k ≤ (unionChain k).length := by
  induction k with
  | zero => exact Nat.zero_le _
  | succ k ih =>
    simp only [unionChain,length_cons]
    omega

/-- A chain of `k` unions is accepted, and rises above `k` both in calls and in the tree. -/
lemma unionChain_rises (storable : List (Tok Literal) → Bool) (k : ℕ) :
    ∃ s, (parseTokens (reader storable) (.ident "T"::unionChain k)).out = .ok (s,[]) ∧ ¬s.Within k ∧
      k < (parseTokens (reader storable) (.ident "T"::unionChain k)).calls := by
  obtain ⟨q,hq⟩ : ∃ q, (parseQueryOrMutation (level (reader storable) 63) (.ident "T"::unionChain k)).out =
      .ok (.query q,unionChain k) := by cases k <;> exact ⟨_,rfl⟩
  obtain ⟨hcalls,s,hs,hspine⟩ := maybeParseUnion_unionChain (level (reader storable) 63) (unionChain_length k)
    (show isUnionSide (.query q) = true from rfl)
  rcases hquery : parseQueryOrMutation (level (reader storable) 63) (.ident "T"::unionChain k) with ⟨out,c⟩
  obtain rfl : out = .ok (.query q,unionChain k) := by rw [← hq,hquery]
  rcases hunion : maybeParseUnion (level (reader storable) 63) (unionChain k).length (.query q) (unionChain k) with ⟨out,c'⟩
  obtain rfl : out = .ok (s,[]) := by rw [← hs,hunion]
  rw [hunion] at hcalls
  have hstatement : parseStatement (reader storable) 64 (.ident "T"::unionChain k) =
      ⟨.ok (s,[]),max 0 (max c c')+1⟩ := by
    show call (peek >>= fun _ => parseQueryOrMutation (level (reader storable) 63) >>=
      maybeParseUnions (level (reader storable) 63)) (.ident "T"::unionChain k) = _
    simp only [call,Bind.bind,peek,look,hquery,maybeParseUnions,hunion]
  have htokens : parseTokens (reader storable) (.ident "T"::unionChain k) =
      ⟨.ok (s,[]),max (max 0 (max c c')+1) (max 0 0)+1⟩ := by
    simp only [parseTokens,call,Bind.bind,maxNestingDepth,hstatement]
    rfl
  refine ⟨s,by rw [htokens],fun hwithin => ?_,?_⟩
  · have := hwithin.spine_lt
    omega
  · rw [htokens]
    simp only at hcalls ⊢
    omega

/-- No multiple of 64 bounds the parser, neither its calls nor its trees. -/
theorem unions_exhaust_the_depth :
    (¬∃ factor : ℕ, ∀ ts, (parseTokens (reader fun _ => true) ts).calls ≤ factor*maxNestingDepth) ∧
    ¬∃ factor : ℕ, ∀ ts s, (parseTokens (reader fun _ => true) ts).out = .ok (s,[]) →
      s.Within (factor*maxNestingDepth) := by
  constructor
  · rintro ⟨factor,hbound⟩
    obtain ⟨_,_,_,hcalls⟩ := unionChain_rises (fun _ => true) (factor*maxNestingDepth)
    exact absurd (hbound _) (Nat.not_le_of_lt hcalls)
  · rintro ⟨factor,hbound⟩
    obtain ⟨s,hs,hdeep,_⟩ := unionChain_rises (fun _ => true) (factor*maxNestingDepth)
    exact hdeep (hbound _ s hs)

end PowDB.Syntax
