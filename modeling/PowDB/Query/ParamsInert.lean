import PowDB.Lib.Outcome
import PowDB.Query.ParserDepth

/-! Parameters as holes. A text with its placeholders left open is parsed once; filling
the holes afterwards is parsing the text with the values in place, unless a hole is read
as a path segment or as the type of a cast. -/
namespace PowDB.Syntax
open List Option Tok
open Query (Literal CastType PathSeg)
open Lib (Parser Mirrors)
open Lib.Setting (SpecAt)
open Lib.Parser (call look fail)

inductive ParamType
  | null | int | float | bool | str
  deriving DecidableEq

def ParamValue.type : ParamValue → ParamType
  | .null => .null
  | .int _ => .int
  | .float _ => .float
  | .bool _ => .bool
  | .str _ => .str

/-- A literal of the text, or the place of a parameter. -/
inductive Slot
  | fixed (l : Literal)
  | hole (i : ℕ) (t : ParamType)
  deriving DecidableEq

/-- The literal of a value; `null` is none. -/
def ParamValue.literal : ParamValue → Literal
  | .null => .bool false
  | .int v => .int v
  | .float bits => .float bits
  | .bool b => .bool b
  | .str s => .string s

/-- The values of the parameters in their places. -/
def fill (params : List ParamValue) : Slot → Literal
  | .fixed l => l
  | .hole i t => match params[i]? with
    | some p => if p.type = t then p.literal else .bool false
    | none => .bool false

def slotToken (t : ParamType) (i : ℕ) : Tok Slot := if t = .null then .kw .null else .lit (.hole i t)

/-- The tokens of the parameters, as far as their types tell. -/
def slotTokens (types : List ParamType) : List (Tok Slot) := types.mapIdx fun i t => slotToken t i

open ParamValue

lemma slotTokens_fill (params : List ParamValue) :
    (slotTokens (params.map ParamValue.type)).map (Tok.map (fill params)) = params.map ParamValue.token := by
  refine ext_getElem? fun i => ?_
  simp only [slotTokens,getElem?_map,getElem?_mapIdx]
  cases hp : params[i]? with
  | none => rfl
  | some p => cases p <;> simp [ParamValue.type,slotToken,Tok.map,ParamValue.token,fill,hp,ParamValue.literal]

/-- The holes that are read when they stand for a path segment or the type of a cast. -/
def slotHoles : Holes Slot where
  path s := ∃ i t, s = .hole i t ∧ (t = .int ∨ t = .str)
  cast s := ∃ i, s = .hole i .str

/-- The errors of a fixed literal, in a text with holes. -/
def slotError : ParseError Literal → ParseError Slot
  | .invalid m => .invalid m
  | _ => .invalid ""

def slotReader : Reader Slot where
  pathSegment
    | .fixed l => (pathSegmentOf l).mapError slotError
    | .hole _ _ => .error (.invalid "")
  castType
    | .fixed l => (castTypeOf l).mapError slotError
    | .hole _ _ => .error (.invalid "")
  trueLiteral := .fixed (.bool true)
  storable _ := true

/-- A literal of the text is read as it is filled in; a hole is refused, as its value is. -/
lemma slot_outcome {α : Type} (read : Literal → Except (ParseError Literal) α) (params : List ParamValue) (s : Slot)
    (hfalse : ∃ e, read (.bool false) = .error e)
    (hrefused : ∀ i p, s = .hole i (type p) → ∃ e, read p.literal = .error e) :
    SameOutcome (match s with
      | .fixed l => (read l).mapError slotError
      | .hole _ _ => .error (.invalid "")) (read (fill params s)) := by
  cases s with
  | fixed l =>
    show SameOutcome ((read l).mapError slotError) (read l)
    cases read l with
    | ok a => exact rfl
    | error e => exact ⟨by cases e <;> trivial,e,rfl⟩
  | hole i t =>
    refine ⟨trivial,?_⟩
    simp only [fill]
    cases params[i]? with
    | none => exact hfalse
    | some p =>
      dsimp only
      split
      · rename_i htype
        exact hrefused i p (by rw [htype])
      · exact hfalse

lemma slot_agrees (params : List ParamValue) :
    Agrees (fill params) slotHoles slotReader (reader fun _ => true) where
  pathSegment s hs := by
    refine slot_outcome pathSegmentOf params s ⟨_,rfl⟩ ?_
    rintro i p rfl
    cases p with
    | int v => exact absurd ⟨i,_,rfl,.inl rfl⟩ hs
    | str v => exact absurd ⟨i,_,rfl,.inr rfl⟩ hs
    | _ => exact ⟨_,rfl⟩
  castType s hs := by
    refine slot_outcome castTypeOf params s ⟨_,rfl⟩ ?_
    rintro i p rfl
    cases p with
    | str v => exact absurd ⟨i,rfl⟩ hs
    | _ => exact ⟨_,rfl⟩
  trueLiteral := rfl
  storable _ := rfl

/-! Binding. -/

/-- Binding the values is binding the holes and filling them. -/
lemma bindToken_fill (params : List ParamValue) (t : Tok Literal) :
    Mirrors (Tok.map (fill params)) (bindToken Slot.fixed (slotTokens (params.map ParamValue.type)) t)
      (bindToken id (params.map token) t) := by
  rw [← slotTokens_fill]
  cases t with
  | param name =>
    simp only [bindToken]
    rcases placeholderNumber name with _ | _ | n
    · exact ⟨_,rfl⟩
    · exact ⟨_,rfl⟩
    · simp only [getElem?_map]
      cases (slotTokens (params.map type))[n]? with
      | some t => exact rfl
      | none => exact ⟨_,rfl⟩
  | _ => exact rfl

lemma checkUnused_mirrors (ℓ ℓ' : Type) (supplied : ℕ) (used : List ℕ) :
    Mirrors id (checkUnused supplied used : Except (ParseError ℓ) Unit)
      (checkUnused supplied used : Except (ParseError ℓ') Unit) := by
  simp only [checkUnused]
  rcases (range supplied).find? (· ∉ used) with _ | unused
  · exact rfl
  rcases (range supplied).reverse.find? (· ∈ used) with _ | highest
  · exact ⟨_,rfl⟩
  · dsimp only
    split <;> exact ⟨_,rfl⟩

/-- A text with its placeholders left open. -/
def slotText (types : List ParamType) (ts : List (Tok Literal)) : Except (ParseError Slot) (List (Tok Slot)) :=
  bindTokens Slot.fixed (slotTokens types) ts

lemma bindTokens_fill (params : List ParamValue) (ts : List (Tok Literal)) :
    Mirrors (List.map (Tok.map (fill params))) (slotText (params.map ParamValue.type) ts)
      (bindTokens id (params.map token) ts) := by
  have hlength : (slotTokens (params.map type)).length = (params.map token).length := by
    simp [slotTokens]
  simp only [slotText,bindTokens,hlength]
  refine (Mirrors.mapM (bindToken_fill params) ts).bind fun bound => ?_
  exact (checkUnused_mirrors Slot Literal _ _).bind fun _ => rfl

/-! The text of a view. -/

section views
variable {ℓ ℓ' : Type} {L : Level ℓ}
  {ts : List (Tok ℓ)}

/-- The tokens `explain`, as often as it likes, and `materialize` with a name, before `text`. -/
def ViewText (ts text : List (Tok ℓ)) : Prop :=
  ∃ k name, ts = List.replicate k (.kw .explain)++.kw .materialized::.ident name::.kw .as::text

lemma expect_out (h : (expect k ts).out = .ok (u,rest)) : ts = .kw k::rest := by
  rcases ts with _ | ⟨t,ts⟩
  · cases h
  cases t with
  | kw k' =>
    by_cases hk : k' = k
    · subst hk
      simp only [expect,Lib.Parser.token,head?_cons,if_true,Except.map,Except.ok.injEq,Prod.mk.injEq] at h
      rw [← h.2]
      rfl
    · simp [expect,Lib.Parser.token,hk,Except.map] at h
  | _ => cases h

lemma expectIdent_out (h : (expectIdent what ts).out = .ok (name,rest)) :
    ts = .ident name::rest := by
  rcases ts with _ | ⟨t,ts⟩
  · cases h
  cases t with
  | ident n =>
    cases h
    rfl
  | _ => cases h

/-- The query of a view, its source name first. -/
def viewQuery (L : Level ℓ) : P ℓ (QueryExpr (Expr ℓ)) := expectIdent "source table name" >>= parseQueryTail L

lemma parseCreateView_out : (parseCreateView R L ts).out = .ok (s,rest) ↔
    ∃ name q text ts', ts = .kw .materialized::.ident name::.kw .as::ts' ∧
      ((viewQuery L).taking ts').out = .ok ((q,text),rest) ∧ R.storable text = true ∧ s = .createView name q text := by
  constructor
  · intro h
    obtain ⟨_,ts₁,h₁,hname⟩ := Parser.bind_out h
    obtain ⟨name,ts₂,h₂,has⟩ := Parser.bind_out hname
    obtain ⟨_,ts₃,h₃,hbody⟩ := Parser.bind_out has
    obtain ⟨⟨q,text⟩,ts₄,h₄,hend⟩ := Parser.bind_out hbody
    obtain rfl := expect_out h₁
    obtain rfl := expectIdent_out h₂
    obtain rfl := expect_out h₃
    change ((if R.storable text = true then (pure (.createView name q text) : P ℓ (Statement ℓ))
      else fail _) ts₄).out = _ at hend
    by_cases hstorable : R.storable text = true
    · rw [if_pos hstorable] at hend
      cases hend
      exact ⟨name,q,text,ts₃,rfl,h₄,hstorable,rfl⟩
    · rw [if_neg hstorable] at hend
      cases hend
  · rintro ⟨name,q,text,ts',rfl,hquery,hstorable,rfl⟩
    refine Parser.bind_out_iff.mpr ⟨(),_,rfl,Parser.bind_out_iff.mpr ⟨name,_,rfl,Parser.bind_out_iff.mpr ⟨(),_,rfl,
      Parser.bind_out_iff.mpr ⟨(q,text),rest,hquery,?_⟩⟩⟩⟩
    show ((if R.storable text = true then (pure (.createView name q text) : P ℓ (Statement ℓ))
      else fail _) rest).out = _
    rw [if_pos hstorable]
    rfl

lemma maybeParseUnion_view (h : (maybeParseUnion L fuel left ts).out = .ok (s,rest)) :
    s = left ∧ rest = ts ∨ isUnionSide left = true ∧ s.viewText = none := by
  induction fuel generalizing ts left with
  | zero =>
    obtain hsame | ⟨-,_,_,_,_,_,_,hfuel,-⟩ := maybeParseUnion_out h
    · exact .inl hsame
    · cases hfuel
  | succ fuel ih =>
    obtain hsame | ⟨hside,_,_,_,_,_,_,⟨⟩,-,-,-,h⟩ := maybeParseUnion_out h
    · exact .inl hsame
    · rcases ih h with ⟨rfl,-⟩ | ⟨-,hnone⟩
      · exact .inr ⟨hside,rfl⟩
      · exact .inr ⟨hside,hnone⟩

/-- The text of a view is what stands after its name. -/
lemma parseStatement_viewText (hR : Agrees f holes R R') (hts : (tokenSetting f holes).ok ts)
    (h : (parseStatement R b ts).out = .ok (s,rest)) (hs : s.viewText = some text) :
    ViewText ts (text++rest) ∧ R.storable text = true := by
  induction b generalizing ts s with
  | zero => cases h
  | succ b ih =>
    obtain ⟨ts,s,rfl,rfl,hrec⟩ | ⟨-,hnone,-⟩ | ⟨⟨left,ts₁,hbare,hunion⟩,-⟩ := parseStatement_out h
    · obtain ⟨⟨k,name,htext⟩,hstorable⟩ := ih ((tokenSetting f holes).ok_tail hts) hrec hs
      exact ⟨⟨k+1,name,congrArg (kw Keyword.explain::·) htext⟩,hstorable⟩
    · rw [hnone] at hs
      cases hs
    · have hone : 1 ≤ callHeight b := Nat.le_add_left 1 (8*b)
      have hL := level_ok hR b
      obtain ⟨rfl,rfl⟩ | ⟨-,hnone⟩ := maybeParseUnion_view hunion
      · obtain ⟨_,-,-,_,hleft⟩ := spec_taken (parseBareStatement_spec (n := 0) hL hR hone le_rfl) hts hbare
        by_cases hhead : ts.head?.map shape = some (.kw .materialized)
        · rw [hhead] at hbare
          obtain ⟨name,q,text',ts',rfl,hquery,hstorable,rfl⟩ := parseCreateView_out.mp hbare
          cases hs
          have htail : (tokenSetting f holes).ok ts' := (tokenSetting f holes).ok_tail
            ((tokenSetting f holes).ok_tail ((tokenSetting f holes).ok_tail hts))
          have hspec : Spec f holes ts' (callHeight b+3) 1 1 (QueryExpr.map (Expr.map f))
              (fun q _ => Below (treeDepth b+aliasDepth b+b+1) q.exprs) (viewQuery (level R b)) (viewQuery (level R' b)) :=
            spec_bind (spec_expectIdent _) fun source _ _ => parseQueryTail_spec (n := 0) hL hone (by omega) source
          obtain ⟨-,hout⟩ := hspec htail
          simp only [Parser.taking] at hquery
          rcases hq : viewQuery (level R b) ts' with ⟨_ | ⟨q',rest'⟩,c⟩
          · rw [hq] at hquery
            cases hquery
          · rw [hq] at hquery hout
            obtain ⟨-,seg,rfl,-,-⟩ := hout
            obtain ⟨⟨rfl,rfl⟩,rfl⟩ := hquery
            exact ⟨⟨0,name,by simp⟩,hstorable⟩
        · rw [hleft.view hhead] at hs
          cases hs
      · rw [hnone] at hs
        cases hs

end views
lemma level_storable (storable storable' : List (Tok Literal) → Bool) (b : ℕ) :
    level (reader storable) b = level (reader storable') b := by
  induction b with
  | zero => rfl
  | succ b ih =>
    rw [level,level,ih]
    rfl

lemma parseBareStatement_storable (storable storable' : List (Tok Literal) → Bool) (L : Level Literal)
    (ht : t ≠ some (.kw .materialized)) :
    parseBareStatement (reader storable) L t = parseBareStatement (reader storable') L t := by
  rcases t with _ | _ | _ | _ | _ | k
  all_goals try rfl
  cases k with
  | materialized => exact absurd rfl ht
  | _ => rfl

variable {ts : List (Tok Literal)} {slots : List (Tok Slot)}

/-- Which texts a view can have decides only whether the statement is refused. -/
lemma parseStatement_storable
    (h : (parseStatement (reader storable) b ts).out = .ok (s,rest))
    (hview : ∀ text, s.viewText = some text → storable text = true → storable' text = true) :
    (parseStatement (reader storable') b ts).out = .ok (s,rest) := by
  induction b generalizing ts s with
  | zero => cases h
  | succ b ih =>
    obtain ⟨ts,s,rfl,rfl,hrec⟩ | ⟨-,-,-,hsame⟩ | ⟨⟨left,ts₁,hbare,hunion⟩,hother⟩ := parseStatement_out h
    · exact Parser.bind_out_iff.mpr ⟨_,_,rfl,Parser.bind_out_iff.mpr ⟨(),ts,rfl,Parser.bind_out_iff.mpr ⟨s,_,ih hrec hview,rfl⟩⟩⟩
    · exact hsame _
    · apply hother
      rw [Parser.bind_out_iff,level_storable storable' storable]
      refine ⟨left,ts₁,?_,hunion⟩
      by_cases hhead : ts.head?.map shape = some (.kw .materialized)
      · rw [hhead] at hbare ⊢
        obtain ⟨name,q,text,ts',hts,hquery,hstorable,rfl⟩ := parseCreateView_out.mp hbare
        have hstorable' : storable' text = true := by
          obtain ⟨rfl,-⟩ | ⟨hside,-⟩ := maybeParseUnion_view hunion
          · exact hview text rfl hstorable
          · cases hside
        exact parseCreateView_out.mpr ⟨name,q,text,ts',hts,hquery,hstorable',rfl⟩
      · rw [parseBareStatement_storable storable' storable _ hhead]
        exact hbare

/-! Whole texts. -/

lemma statementOf_ok {ℓ : Type} {R : Reader ℓ} {ts : List (Tok ℓ)} {s : Statement ℓ} :
    statementOf R ts = .ok s ↔ (parseStatement R maxNestingDepth ts).out = .ok (s,[]) := by
  have hout : ∀ rest, (parseTokens R ts).out = .ok (s,rest) ↔
      (parseStatement R maxNestingDepth ts).out = .ok (s,[]) ∧ rest = [] := by
    intro rest
    constructor
    · intro h
      obtain ⟨s',ts₁,hstatement,hend⟩ := Parser.bind_out h
      obtain ⟨t,ts₂,hlook,hend⟩ := Parser.bind_out hend
      rcases ts₁ with _ | ⟨t,ts₁⟩
      · cases hend
        exact ⟨hstatement,rfl⟩
      · cases hend
    · rintro ⟨hstatement,rfl⟩
      exact Parser.bind_out_iff.mpr ⟨s,[],hstatement,Parser.bind_out_iff.mpr ⟨none,[],rfl,rfl⟩⟩
  rw [statementOf]
  constructor
  · intro h
    cases hres : (parseTokens R ts).out with
    | error e =>
      rw [hres] at h
      cases h
    | ok r =>
      rw [hres] at h
      obtain ⟨s',rest⟩ := r
      cases h
      exact ((hout rest).mp hres).1
  · intro h
    rw [(hout []).mpr ⟨h,rfl⟩]
    rfl

lemma viewText_map {ℓ ℓ' : Type} (f : ℓ → ℓ') (s : Statement ℓ) :
    (s.map f).viewText = s.viewText.map (List.map (Tok.map f)) := by
  induction s with
  | explain s ih => exact ih
  | _ => rfl

/-- Parsing a text with its values in place is parsing it with holes and filling them. -/
lemma statementOf_fill (params : List ParamValue) (hpath : ¬PathHole slotHoles.path slots)
    (hcast : ¬CastHole slotHoles.cast slots) :
    Mirrors (Statement.map (fill params)) (statementOf slotReader slots)
      (statementOf (reader fun _ => true) (slots.map (map (fill params)))) := by
  have hok : (tokenSetting (fill params) slotHoles).ok slots := ⟨hpath,hcast⟩
  obtain ⟨-,hout⟩ := parseTokens_spec (slot_agrees params) hok le_rfl le_rfl
  simp only [statementOf]
  cases hres : (parseTokens slotReader slots).out with
  | error e =>
    rw [hres] at hout
    obtain ⟨-,e',hout⟩ := hout
    rw [show (parseTokens (reader fun _ => true) (slots.map (map (fill params)))).out = _ from hout]
    exact ⟨e',rfl⟩
  | ok r =>
    rw [hres] at hout
    obtain ⟨hout,-⟩ := hout
    rw [show (parseTokens (reader fun _ => true) (slots.map (map (fill params)))).out = _ from hout]
    exact rfl

lemma not_ok {ε α : Type} {x : Except ε α} (h : ∀ a, x ≠ .ok a) : ∃ e, x = .error e := by
  cases x with
  | ok a => exact absurd rfl (h a)
  | error e => exact ⟨e,rfl⟩

lemma parseWithParams_eq (storable : List (Tok Literal) → Bool) (params : List ParamValue)
    (hslots : slotText (params.map ParamValue.type) ts = .ok slots) :
    parseWithParams storable ts params = statementOf (reader storable) (slots.map (Tok.map (fill params))) := by
  have h := bindTokens_fill params ts
  rw [hslots] at h
  rw [parseWithParams,show bindTokens id (params.map ParamValue.token) ts = _ from h]
  rfl

/-- With holes only where values belong, the statement is that of the text with holes, and
it is accepted if the text of its view, should it have one, reads back. -/
lemma parseWithParams_ok (storable : List (Tok Literal) → Bool) (params : List ParamValue)
    (hslots : slotText (params.map type) ts = .ok slots)
    (hpath : ¬PathHole slotHoles.path slots) (hcast : ¬CastHole slotHoles.cast slots) (s : Statement Literal) :
    parseWithParams storable ts params = .ok s ↔ ∃ s', statementOf slotReader slots = .ok s' ∧ s = s'.map (fill params) ∧
      ∀ text, s'.viewText = some text → storable (text.map (map (fill params))) = true := by
  have hfill := statementOf_fill params hpath hcast
  rw [parseWithParams_eq storable params hslots,statementOf_ok]
  constructor
  · intro h
    have hany : (parseStatement (reader fun _ => true) maxNestingDepth (slots.map (map (fill params)))).out =
        .ok (s,[]) := parseStatement_storable h fun _ _ _ => rfl
    cases hres : statementOf slotReader slots with
    | error e =>
      rw [hres] at hfill
      obtain ⟨e',hfill⟩ := hfill
      rw [statementOf_ok.mpr hany] at hfill
      cases hfill
    | ok s' =>
      rw [hres] at hfill
      obtain rfl : s = s'.map (fill params) := Except.ok.inj ((statementOf_ok.mpr hany).symm.trans hfill)
      refine ⟨s',rfl,rfl,fun text hs => ?_⟩
      have hview : (s'.map (fill params)).viewText = some (text.map (Tok.map (fill params))) := by
        rw [viewText_map,hs]
        rfl
      exact (parseStatement_viewText (reader_agrees storable) (noHoles_ok _) h hview).2
  · rintro ⟨s',hs',rfl,htext⟩
    rw [hs'] at hfill
    refine parseStatement_storable (statementOf_ok.mp hfill) fun text hview _ => ?_
    rw [viewText_map] at hview
    obtain ⟨text',htext',rfl⟩ := map_eq_some_iff.mp hview
    exact htext text' htext'

/-- Parameters of the same types are inert: no value of them stands for a path segment or
the type of a cast, and the text of a view reads back with the one values if it does with
the others. -/
theorem parameters_inert (storable : List (Tok Literal) → Bool) (ts : List (Tok Literal)) (p₁ p₂ : List ParamValue)
    (htypes : p₁.map ParamValue.type = p₂.map ParamValue.type)
    (hplaces : ∀ slots, slotText (p₁.map ParamValue.type) ts = .ok slots →
      ¬PathHole slotHoles.path slots ∧ ¬CastHole slotHoles.cast slots ∧
      ∀ text, ViewText slots text →
        storable (text.map (Tok.map (fill p₁))) = storable (text.map (Tok.map (fill p₂)))) :
    (∃ s : Statement Slot, parseWithParams storable ts p₁ = .ok (s.map (fill p₁)) ∧
      parseWithParams storable ts p₂ = .ok (s.map (fill p₂))) ∨
    (∃ e, parseWithParams storable ts p₁ = .error e) ∧ ∃ e, parseWithParams storable ts p₂ = .error e := by
  cases hslots : slotText (p₁.map ParamValue.type) ts with
  | error e =>
    have h₁ := bindTokens_fill p₁ ts
    have h₂ := bindTokens_fill p₂ ts
    rw [hslots] at h₁
    rw [← htypes,hslots] at h₂
    obtain ⟨e₁,h₁⟩ := h₁
    obtain ⟨e₂,h₂⟩ := h₂
    exact .inr ⟨⟨e₁,by rw [parseWithParams,h₁]; rfl⟩,⟨e₂,by rw [parseWithParams,h₂]; rfl⟩⟩
  | ok slots =>
    obtain ⟨hpath,hcast,htext⟩ := hplaces slots hslots
    have hok₁ := parseWithParams_ok storable p₁ hslots hpath hcast
    have hok₂ := parseWithParams_ok storable p₂ (htypes ▸ hslots) hpath hcast
    cases hres : statementOf slotReader slots with
    | error e =>
      refine .inr ⟨not_ok fun s hs => ?_,not_ok fun s hs => ?_⟩
      · obtain ⟨s',hs',-⟩ := (hok₁ s).mp hs
        rw [hres] at hs'
        cases hs'
      · obtain ⟨s',hs',-⟩ := (hok₂ s).mp hs
        rw [hres] at hs'
        cases hs'
    | ok s =>
      have hsame : ∀ text, s.viewText = some text →
          storable (text.map (Tok.map (fill p₁))) = storable (text.map (Tok.map (fill p₂))) := by
        intro text hs
        have hok : (tokenSetting (fill p₁) slotHoles).ok slots := ⟨hpath,hcast⟩
        have hview := parseStatement_viewText (slot_agrees p₁) hok (statementOf_ok.mp hres) hs
        rw [append_nil] at hview
        exact htext text hview.1
      by_cases hstored : ∀ text, s.viewText = some text → storable (text.map (Tok.map (fill p₁))) = true
      · exact .inl ⟨s,(hok₁ _).mpr ⟨s,hres,rfl,hstored⟩,(hok₂ _).mpr ⟨s,hres,rfl,fun text hs =>
          hsame text hs ▸ hstored text hs⟩⟩
      · refine .inr ⟨not_ok fun s' hs' => hstored ?_,not_ok fun s' hs' => hstored ?_⟩
        · obtain ⟨s₁,hs₁,-,h⟩ := (hok₁ s').mp hs'
          obtain rfl : s = s₁ := Except.ok.inj (hres.symm.trans hs₁)
          exact h
        · obtain ⟨s₁,hs₁,-,h⟩ := (hok₂ s').mp hs'
          obtain rfl : s = s₁ := Except.ok.inj (hres.symm.trans hs₁)
          exact fun text hs => (hsame text hs).trans (h text hs)

/-- `T filter .a = $1` -/
def filterText : List (Tok Literal) :=
  [.ident "T",.kw .filter,.dotIdent "a",.kw .eq,.param "1"]

theorem filter_parameter_inert :
    (∃ s : Statement Slot, parseWithParams (fun _ => true) filterText [.int 1] = .ok (s.map (fill [.int 1])) ∧
      parseWithParams (fun _ => true) filterText [.int 2] = .ok (s.map (fill [.int 2]))) ∨
    (∃ e, parseWithParams (fun _ => true) filterText [.int 1] = .error e) ∧
      ∃ e, parseWithParams (fun _ => true) filterText [.int 2] = .error e := by
  refine parameters_inert (fun _ => true) filterText [.int 1] [.int 2] rfl fun slots hslots => ?_
  obtain rfl : [.ident "T",.kw .filter,.dotIdent "a",.kw .eq,.lit (.hole 0 .int)] = slots :=
    Except.ok.inj (Eq.trans rfl hslots)
  refine ⟨?_,?_,fun _ _ => rfl⟩
  · rintro ⟨pre,l,post,h,-⟩
    have harrow : kw .arrow ∈ [ident "T",.kw .filter,.dotIdent "a",.kw .eq,.lit (Slot.hole 0 .int)] := by
      rw [h]
      simp
    exact absurd harrow (by decide)
  · rintro ⟨pre,seg,l,post,h,-⟩
    have hcast : kw .cast ∈ [ident "T",.kw .filter,.dotIdent "a",.kw .eq,.lit (Slot.hole 0 .int)] := by
      rw [h]
      simp
    exact absurd hcast (by decide)

/-- `T filter .j->$1 = 1` -/
def pathText : List (Tok Literal) :=
  [.ident "T",.kw .filter,.dotIdent "j",.kw .arrow,.param "1",.kw .eq,.lit (.int 1)]

/-- `T filter cast(.a, $1) = 1` -/
def castText : List (Tok Literal) :=
  [.ident "T",.kw .filter,.kw .cast,.kw .lParen,.dotIdent "a",.kw .comma,.param "1",.kw .rParen,.kw .eq,.lit (.int 1)]

/-- The path that a statement's filter compares. -/
def filterPath : Except (ParseError Literal) (Statement Literal) → Option (List PathSeg)
  | .ok (.query ⟨_,_,_,some (.binaryOp (.jsonPath _ ss) _ _),_,_,_,_,_,_,_⟩) => some ss
  | _ => none

/-- The value of a parameter chooses the path a filter reads, and whether a text is a
statement at all: as an index below zero, or as a type that there is not. -/
theorem parameter_chooses_path :
    filterPath (parseWithParams (fun _ => true) pathText [.str "a"]) = some [.key "a"] ∧
    filterPath (parseWithParams (fun _ => true) pathText [.str "b"]) = some [.key "b"] ∧
    (parseWithParams (fun _ => true) pathText [.int 0]).isOk = true ∧
    (parseWithParams (fun _ => true) pathText [.int (-1)]).isOk = false ∧
    (parseWithParams (fun _ => true) castText [.str "int"]).isOk = true ∧
    (parseWithParams (fun _ => true) castText [.str "hello"]).isOk = false := by
  decide +kernel

end PowDB.Syntax
