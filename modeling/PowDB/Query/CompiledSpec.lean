import PowDB.Query.CompiledLeaves

/-! Compiled predicates against the evaluator: on a stored row a filter that compiles is as true
as the filter evaluated on the decoded row, and on the row decoded in its own columns only. -/
namespace PowDB.Query
open Storage (Value Bytes TypeId Schema ColumnDef)
open Storage.RowFormat (ofLeBytes rowBody slice isNull fixedValue varValue decodeColumns decodeRow)
open Lib List Option
variable {τ : Type}

section compiled
variable {P : Prims} {schema : Schema} {data : Bytes} {vals : List Value} {l r : Expr τ} {op : BinOp}
  {columns : List OutputColumn} {e : Expr τ}

/-- Every conjunct is clear. -/
def Clear (P : Prims) (row : List Value) (columns : List OutputColumn) : Expr τ → Prop
  | .binaryOp l .and r => Clear P row columns l ∧ Clear P row columns r
  | .binaryOp l op r => ClearOf P row columns l op r
  | _ => True

lemma evalBinop_and (P : Prims) (a b : Value) :
    (evalBinop P .filter a .and b == .bool true) = (a == .bool true && b == .bool true) := by
  cases a <;> cases b <;> simp [evalBinop,BinOp.isComparison,BinOp.isOrdering]

lemma evalPredicate_and :
    evalPredicate P (.binaryOp l .and r) vals columns = (evalPredicate P l vals columns && evalPredicate P r vals columns) :=
  evalBinop_and P _ _

variable {list : List (Expr τ)}

/-- The leaves of a filter, which reads its own columns only, hold where it does. -/
lemma flatten_eval (hP : P.LikeOnly) (h : Stored P schema data vals)
    (hf : flattenAndCompile (scanColumns schema) (.new schema) schema e = some leaves) :
    PathBased e ∧ (Clear P vals (scanColumns schema) e →
      leaves.all (·.eval P (rowBody data)) = evalPredicate P e vals (scanColumns schema)) := by
  fun_induction flattenAndCompile (scanColumns schema) (.new schema) schema e generalizing leaves with
  | case1 l r ihl ihr =>
    obtain ⟨ls,hls,hf⟩ := bind_eq_some_iff.mp hf
    obtain ⟨rs,hrs,rfl⟩ := map_eq_some_iff.mp hf
    refine ⟨⟨(ihl hls).1,(ihr hrs).1⟩,fun hc => ?_⟩
    rw [all_append,(ihl hls).2 hc.1,(ihr hrs).2 hc.2,evalPredicate_and]
  | case2 l op r hne =>
    obtain ⟨leaf,hleaf,rfl⟩ := map_eq_some_iff.mp hf
    obtain ⟨hiff,hbased⟩ := buildLeaf_iff hP h hleaf
    refine ⟨hbased,fun hc => ?_⟩
    rw [all_cons,all_nil,Bool.and_true]
    apply hiff.mpr
    rw [Clear] at hc
    · exact hc
    · exact hne
  | case3 name =>
    obtain ⟨i,hi,rfl⟩ := map_eq_some_iff.mp hf
    refine ⟨trivial,fun _ => ?_⟩
    rw [all_cons,all_nil,Bool.and_true,CompiledLeaf.eval,isNull_leaf (τ := τ) h hi,beq_true]
    exact (bool_beq_true _).symm
  | case4 name =>
    obtain ⟨i,hi,rfl⟩ := map_eq_some_iff.mp hf
    refine ⟨trivial,fun _ => ?_⟩
    rw [all_cons,all_nil,Bool.and_true,CompiledLeaf.eval,isNull_leaf (τ := τ) h hi,beq_false]
    exact (bool_beq_true _).symm
  | case5 e => cases hf

/-- The loop for one integer leaf tests that leaf. -/
lemma compiledIntValue_any (P : Prims) (body : Bytes) (off : ℕ) (null : NullBit) (op : BinOp) (literal : Int64) :
    ((compiledIntValue body off null).any fun v => op.holds (compare v.toInt literal.toInt)) =
      (CompiledLeaf.int off null op literal).eval P body := by
  unfold compiledIntValue CompiledLeaf.eval
  by_cases hbyte : body.length < 3+null.byte
  · simp [hbyte]
  · by_cases hnull : null.isSet body = true
    · simp [hnull]
    · by_cases hoff : body.length < off+8 <;> simp [hbyte,hnull,hoff]

lemma onInline_eq (h : Stored P schema data vals) : onInline fallback test data = test (rowBody data) := by
  rw [onInline,h.inline]
  rfl

/-- A standard predicate tests its leaves. -/
lemma standard_test (h : Stored P schema data vals)
    (hp : compileStandardPredicate P (scanColumns schema) schema fallback e = some test) :
    ∃ leaves, flattenAndCompile (scanColumns schema) (.new schema) schema e = some leaves ∧
      test data = leaves.all (·.eval P (rowBody data)) := by
  obtain ⟨leaves,hf,hp⟩ := bind_eq_some_iff.mp hp
  refine ⟨leaves,hf,?_⟩
  split at hp
  · cases hp
  · split_ifs at hp
    cases hp
    rw [onInline_eq h,all_cons,all_nil,Bool.and_true]
    exact compiledIntValue_any P _ _ _ _ _
  · cases hp
    exact onInline_eq h

/-! Lists of integers. -/

/-- An integer is in a list of literals when it is one of its keys. -/
lemma membershipKeys_any {keys : List Int64} {row : List Value}
    (h : membershipKeys list = some keys) : PathBasedList list ∧ ∀ n : Int64,
    ((evalArgs P (rowNames row columns) (fun _ => none) .filter list).map (·.value)).any
      (fun item => evalBinop P .filter (.int n) .eq item == .bool true) = keys.contains n := by
  fun_induction membershipKeys list generalizing keys with
  | case1 =>
    cases h
    exact ⟨trivial,fun _ => rfl⟩
  | case2 v es ih =>
    obtain ⟨ks,hks,rfl⟩ := map_eq_some_iff.mp h
    refine ⟨⟨trivial,(ih hks).1⟩,fun n => ?_⟩
    rw [evalArgs,map_cons,any_cons,(ih hks).2,contains_cons]
    congr 1
    show (evalBinop P .filter (.int n) .eq (.int v) == .bool true) = _
    rw [evalBinop_number P rfl rfl rfl,bool_beq_true,Bool.eq_iff_iff,beq_iff_eq]
    simp [numberCmp,BinOp.holds,Int64.toInt_inj]
  | case3 es ih =>
    refine ⟨⟨trivial,(ih h).1⟩,fun n => ?_⟩
    rw [evalArgs,map_cons,any_cons,(ih h).2]
    rfl
  | case4 => cases h

lemma intSet_leaf (h : Stored P schema data vals) {keys : List Int64}
    (hi : columnAt (scanColumns schema) name = some i) (ht : typeAt schema i = some .int)
    (hoff : fixedAt (.new schema) i = some off) (hkeys : membershipKeys list = some keys) :
    (MembershipLeaf.intSet off (.of i) keys negated).eval P (rowBody data) =
      evalPredicate P (.inList (.field name) list negated) vals (scanColumns schema) := by
  show _ = (evalIn P .filter (evalExpr P (.field name : Expr τ) vals (scanColumns schema)) _ negated == .bool true)
  obtain ⟨hbyte,v,hv,-,⟨hnull,rfl⟩ | ⟨hnull,hheld⟩⟩ := h.namedColumn (τ := τ) hi ht
  · rw [hv]
    simp [MembershipLeaf.eval,compiledIntValue,hnull,evalIn]
  · obtain ⟨hlen,rfl⟩ := hheld.fixed_read rfl hoff
    rw [hv]
    simp only [MembershipLeaf.eval,compiledIntValue,hbyte,hnull,hlen,if_false,Bool.false_eq_true,
      any_some,fixedValue,evalIn,Value.isEmpty,Bool.and_false]
    rw [(membershipKeys_any hkeys).2,bool_beq_true,bne_comm]

/-- A filter that is no conjunction compiles to one leaf. -/
lemma flatten_single
    (hf : flattenAndCompile columns layout schema e = some leaves) (hne : ∀ l r, e = .binaryOp l .and r → False) :
    ∃ leaf, leaves = [leaf] := by
  revert hf
  fun_cases flattenAndCompile columns layout schema e with
  | case1 l r => exact absurd rfl (hne l r)
  | case2 l op r =>
    intro hf
    obtain ⟨leaf,-,rfl⟩ := map_eq_some_iff.mp hf
    exact ⟨leaf,rfl⟩
  | case3 name | case4 name =>
    intro hf
    obtain ⟨i,-,rfl⟩ := map_eq_some_iff.mp hf
    exact ⟨_,rfl⟩
  | case5 => exact nofun

/-- The leaves of a filter are added to those before it. -/
lemma flattenMembership_eval (hP : P.LikeOnly) (h : Stored P schema data vals) {out out' : List MembershipLeaf}
    (hf : flattenMembership (scanColumns schema) (.new schema) schema out e = some out') :
    PathBased e ∧ (Clear P vals (scanColumns schema) e → out'.all (·.eval P (rowBody data)) =
      (out.all (·.eval P (rowBody data)) && evalPredicate P e vals (scanColumns schema))) := by
  fun_induction flattenMembership (scanColumns schema) (.new schema) schema out e generalizing out' with
  | case1 => cases hf
  | case2 out hlen l r ihl ihr =>
    obtain ⟨mid,hmid,hf⟩ := bind_eq_some_iff.mp hf
    refine ⟨⟨(ihl hmid).1,(ihr mid hf).1⟩,fun hc => ?_⟩
    rw [(ihr mid hf).2 hc.2,(ihl hmid).2 hc.1,evalPredicate_and,Bool.and_assoc]
  | case3 => cases hf
  | case4 out hlen name list negated hlist =>
    obtain ⟨i,hi,hf⟩ := bind_eq_some_iff.mp hf
    split_ifs at hf with ht
    obtain ⟨keys,hkeys,hf⟩ := bind_eq_some_iff.mp hf
    obtain ⟨off,hoff,rfl⟩ := map_eq_some_iff.mp hf
    refine ⟨⟨trivial,(@membershipKeys_any _ P (scanColumns schema) _ _ vals hkeys).1⟩,fun _ => ?_⟩
    rw [all_append,all_cons,all_nil,Bool.and_true,intSet_leaf h hi ht hoff hkeys]
  | case5 => cases hf
  | case6 out hlen e hand _ _ =>
    obtain ⟨leaves,hleaves,hf⟩ := bind_eq_some_iff.mp hf
    obtain ⟨leaf,rfl⟩ := flatten_single hleaves hand
    cases hf
    obtain ⟨hbased,heval⟩ := flatten_eval hP h hleaves
    refine ⟨hbased,fun hc => ?_⟩
    rw [all_append,← heval hc]
    rfl

/-- On a stored row a clear filter that compiles is as true as its evaluation on the whole row. -/
lemma compilePredicate_eval (hP : P.LikeOnly) (h : Stored P schema data vals)
    (hp : compilePredicate P (scanColumns schema) schema fallback e = some test) :
    PathBased e ∧ (Clear P vals (scanColumns schema) e → test data = evalPredicate P e vals (scanColumns schema)) := by
  rcases or_eq_some_iff.mp hp with hp | ⟨-,hp⟩
  · obtain ⟨leaves,hf,htest⟩ := standard_test h hp
    rw [htest]
    exact flatten_eval hP h hf
  · obtain ⟨leaves,hf,hp⟩ := bind_eq_some_iff.mp hp
    split_ifs at hp
    cases hp
    rw [onInline_eq h]
    exact flattenMembership_eval hP h hf

end compiled

/-! Decoding the referenced columns only. -/

lemma jsonPath_names {base : Expr τ} (segments : List PathSeg) (h : ∀ name, base ≠ .field name) :
    (PathBased (.jsonPath base segments) ↔ fieldNames base = [] ∧ PathBased base) ∧
    pathNames (.jsonPath base segments) = pathNames base := by
  cases base with
  | field name => exact absurd rfl (h name)
  | _ => simp [PathBased,pathNames]

section congr
variable (P : Prims) (σ : QueryExpr τ → Option (List (List Value)))

mutual
/-- The value of an expression depends on the names it reads. -/
lemma eval_congr (hq : ν.qualified = ν'.qualified) (mode : CmpMode) : (e : Expr τ) → PathBased e →
    (∀ n ∈ fieldNames e, ν.field n = ν'.field n) → (∀ n ∈ pathNames e, ν.field n = ν'.field n) →
      eval P ν σ mode e = eval P ν' σ mode e
  | .field name,_,hf,_ => by
    rw [eval,eval,hf name (by simp [fieldNames])]
  | .qualifiedField q f,_,_,_ => by rw [eval,eval,hq]
  | .literal l,_,_,_ => by rw [eval,eval]
  | .param n,_,_,_ => by rw [eval,eval]
  | .binaryOp l op r,hb,hf,hp => by
    simp only [fieldNames,pathNames,forall_mem_append] at hf hp
    rw [eval,eval,eval_congr hq mode l hb.1 hf.1 hp.1,eval_congr hq mode r hb.2 hf.2 hp.2]
  | .unaryOp op e,hb,hf,hp => by rw [eval,eval,eval_congr hq mode e hb hf hp]
  | .functionCall e,_,_,_ => by rw [eval,eval]
  | .scalarFunc f args,hb,hf,hp => by
    rw [eval,eval,evalArgs_congr hq _ args hb hf hp]
  | .coalesce l r,hb,hf,hp => by
    simp only [fieldNames,pathNames,forall_mem_append] at hf hp
    rw [eval,eval,eval_congr hq mode l hb.1 hf.1 hp.1,eval_congr hq mode r hb.2 hf.2 hp.2]
  | .inList e list negated,hb,hf,hp => by
    simp only [fieldNames,pathNames,forall_mem_append] at hf hp
    rw [eval,eval,eval_congr hq mode e hb.1 hf.1 hp.1,evalArgs_congr hq mode list hb.2 hf.2 hp.2]
  | .inSubquery e q negated,hb,hf,hp => by rw [eval,eval,eval_congr hq mode e hb hf hp]
  | .existsSubquery q negated,_,_,_ => by rw [eval,eval]
  | .caseWhen c r rest,hb,hf,hp => by
    simp only [fieldNames,pathNames,forall_mem_append] at hf hp
    rw [eval,eval,eval_congr hq mode c hb.1 hf.1.1 hp.1.1,eval_congr hq mode r hb.2.1 hf.1.2 hp.1.2,
      eval_congr hq mode rest hb.2.2 hf.2 hp.2]
  | .cast e t,hb,hf,hp => by rw [eval,eval,eval_congr hq mode e hb hf hp]
  | .valueLit v,_,_,_ => by rw [eval,eval]
  | .null,_,_,_ => by rw [eval,eval]
  | .jsonPath base segments,hb,hf,hp => by
    have hbase : eval P ν σ mode base = eval P ν' σ mode base := by
      by_cases hfield : ∃ name, base = .field name
      · obtain ⟨name,rfl⟩ := hfield
        rw [eval,eval,hp name (by simp [pathNames])]
      · obtain ⟨hbased,hnames⟩ := jsonPath_names segments (not_exists.mp hfield)
        rw [hbased] at hb
        rw [hnames] at hp
        refine eval_congr hq mode base hb.2 ?_ hp
        simp [hb.1]
    rw [eval,eval,hbase]

lemma evalArgs_congr (hq : ν.qualified = ν'.qualified) (mode : CmpMode) : (es : List (Expr τ)) → PathBasedList es →
    (∀ n ∈ fieldNamesList es, ν.field n = ν'.field n) → (∀ n ∈ pathNamesList es, ν.field n = ν'.field n) →
      evalArgs P ν σ mode es = evalArgs P ν' σ mode es
  | [],_,_,_ => by rw [evalArgs,evalArgs]
  | e::es,hb,hf,hp => by
    simp only [fieldNamesList,pathNamesList,forall_mem_append] at hf hp
    rw [evalArgs,evalArgs,eval_congr hq mode e hb.1 hf.1 hp.1,evalArgs_congr hq mode es hb.2 hf.2 hp.2]
end

end congr

section selective
variable {P : Prims} {schema : Schema} {data : Bytes} {vals : List Value} {i : ℕ}

/-- Reading one column gives the value of the whole row. -/
lemma decodeColumn_eq (h : Stored P schema data vals) (hi : schema[i]? = some c) :
    decodeColumn schema data i = vals[i]? := by
  obtain ⟨v,hv,-,hread⟩ := h.column hi
  rw [hv]
  unfold decodeColumn
  rw [hi]
  dsimp only [bind_eq_bind,bind_some]
  rcases hread with ⟨hnull,rfl⟩ | ⟨hnull,hheld⟩
  · rw [if_pos hnull]
  rw [hnull,if_neg Bool.false_ne_true]
  cases hheld with
  | fixed hoff hn hlen =>
    obtain ⟨o,ho,rfl⟩ := map_eq_some_iff.mp hoff
    simp only [ho,hn,getD_some]
    rw [slice_eq_some.mpr ⟨hlen,rfl⟩,map_some]
  | var hnone hslot hn hb =>
    obtain ⟨w,hw,rfl⟩ := map_eq_some_iff.mp hslot
    simp only [map_eq_none_iff.mp hnone,hw]
    rw [hb,map_some]

/-- The selected columns of a row. -/
def selectColumns (vals : List Value) (n : ℕ) (indices : List ℕ) : List Value :=
  (List.range n).map fun i => if i ∈ indices then vals[i]?.getD .empty else .empty

lemma decodeSelective_eq (h : Stored P schema data vals) (indices : List ℕ) :
    decodeSelective schema data indices = some (selectColumns vals schema.length indices) := by
  refine mapM_eq_map fun i hi => ?_
  split_ifs
  · have hi := getElem?_eq_getElem (mem_range.mp hi)
    obtain ⟨v,hv,-⟩ := h.column hi
    rw [decodeColumn_eq h hi,hv,getD_some]
  · rfl

lemma selectColumns_get (hi : i ∈ indices) (hn : i < n) :
    (selectColumns vals n indices)[i]?.getD .empty = vals[i]?.getD .empty := by
  simp [selectColumns,hn,hi]

lemma rowNames_field :
    (rowNames row (scanColumns schema)).field name = ((columnAt (scanColumns schema) name).bind (row[·]?)).getD .empty := by
  rw [← resolve_scanColumns]
  rfl

lemma rowNames_qualified :
    (rowNames row (scanColumns schema)).qualified = (rowNames row' (scanColumns schema)).qualified := by
  funext q f
  cases q with
  | outer a => rfl
  | named a =>
    have hnone : (scanColumns schema).findIdx? (· == ⟨some a,f⟩) = none := by simp [scanColumns]
    simp only [rowNames,hnone,bind_none]

/-- A filter has the same value on the row decoded in its own columns only. -/
lemma evalExpr_select (hb : PathBased e) :
    evalExpr P e (selectColumns vals schema.length (predicateColumnIndicesJson (scanColumns schema) e))
      (scanColumns schema) = evalExpr P e vals (scanColumns schema) := by
  have hname : ∀ name ∈ fieldNames e++pathNames e,
      (rowNames (selectColumns vals schema.length (predicateColumnIndicesJson (scanColumns schema) e))
        (scanColumns schema)).field name = (rowNames vals (scanColumns schema)).field name := by
    intro name hname
    rw [rowNames_field,rowNames_field]
    cases hi : columnAt (scanColumns schema) name with
    | none => rfl
    | some i =>
      obtain ⟨c,hc⟩ := columnAt_scanColumns hi
      refine selectColumns_get ?_ (List.getElem?_eq_some_iff.mp hc).1
      exact mem_filterMap.mpr ⟨name,hname,hi⟩
  rw [forall_mem_append] at hname
  exact congrArg Evaluated.value (eval_congr P _ rowNames_qualified .filter e hb hname.1 hname.2)

end selective

/-! The filters that compile. -/

section accepted
variable {P : Prims} {schema : Schema} {data : Bytes}
  {e : Expr τ}

/-- A single comparison is tested by its leaf. -/
lemma compilePredicate_single (hop : op ≠ .and) (h : Stored P schema data vals)
    (hp : compilePredicate P (scanColumns schema) schema fallback (.binaryOp l op r) = some test) :
    ∃ leaf, buildLeaf (scanColumns schema) (.new schema) schema l op r = some leaf ∧
      test data = leaf.eval P (rowBody data) := by
  have hflat : flattenAndCompile (scanColumns schema) (.new schema) schema (.binaryOp l op r) =
      (buildLeaf (scanColumns schema) (.new schema) schema l op r).map ([·]) := by
    rw [flattenAndCompile]
    exact hop
  rcases or_eq_some_iff.mp hp with hp | ⟨-,hp⟩
  · obtain ⟨leaves,hf,htest⟩ := standard_test h hp
    rw [hflat] at hf
    obtain ⟨leaf,hleaf,rfl⟩ := map_eq_some_iff.mp hf
    exact ⟨leaf,hleaf,by rw [htest,all_cons,all_nil,Bool.and_true]⟩
  -- a membership predicate has a list among its leaves
  · obtain ⟨leaves,hf,hp⟩ := bind_eq_some_iff.mp hp
    rw [flattenMembership,if_neg (by decide)] at hf
    · rw [hflat] at hf
      obtain ⟨ls,hls,hf⟩ := bind_eq_some_iff.mp hf
      obtain ⟨leaf,-,rfl⟩ := map_eq_some_iff.mp hls
      cases hf
      cases hp
    all_goals simp [hop]

end accepted

section rows
open Storage.RowFormat (encodeRow)

def itemSchema : Schema := [⟨"n",.int,false⟩,⟨"s",.str,false⟩]
def itemRow : Bytes := encodeRow itemSchema [.int 5,.str "a"]

/-- The filter `.n > 3 and .s = "a"`. -/
def itemFilter : Expr Unit :=
  .binaryOp (.binaryOp (.field "n") .gt (.literal (.int 3))) .and (.binaryOp (.field "s") .eq (.literal (.string "a")))

/-- The documents `[]` and `[[]]`, and the functions on documents at them. -/
def emptyArray : Bytes := [6,0,0,0,0,9,0,0,0]
def nestedArray : Bytes := [6,1,0,0,0,13,0,0,0,22,0,0,0]++emptyArray

def arrayPrims : Prims :=
  { Prims.blank with
    pj1Get := fun doc seg => if doc = nestedArray ∧ seg = .index 0 then some emptyArray else none
    parseJsonText := fun text => if text = "[]" then some emptyArray else none }

def docSchema : Schema := [⟨"j",.json,false⟩]
def docRow : Bytes := encodeRow docSchema [.json nestedArray]

/-- The filter `.j->0 = "[]"`. -/
def docFilter : Expr Unit := .binaryOp (.jsonPath (.field "j") [.index 0]) .eq (.literal (.string "[]"))

end rows

end PowDB.Query
