import PowDB.Query.CompiledSpec
import Mathlib

/-! The connectives of filters: on which operands `not`, `and` and `or` act on truth values alone,
for the evaluator and for the scan that runs compiled predicates. -/
namespace PowDB.Query
open Option
open Storage (Value Bytes Schema)
variable {τ : Type}

/-- The connectives on `p` and `q` are those of the truth values. -/
structure TwoValued (T : Expr τ → Bool) (p q : Expr τ) : Prop where
  not : T (.unaryOp .not p) = !T p
  and : T (.binaryOp p .and q) = (T p && T q)
  or : T (.binaryOp p .or q) = (T p || T q)

def isBool : Value → Bool
  | .bool _ => true
  | _ => false

/-- The first operand is a truth value or missing, and next to an operand that is true there
stands a truth value. -/
def Definite (a b : Value) : Prop :=
  (isBool a = true ∨ a = .empty) ∧ (a = .bool true → isBool b = true) ∧ (b = .bool true → isBool a = true)

section truth
variable (P : Prims)

lemma evalUnary_not_iff (a : Value) :
    (evalUnary .not a == .bool true) = !(a == .bool true) ↔ isBool a = true ∨ a = .empty := by
  cases a with
  | bool b => cases b <;> simp [evalUnary,isBool]
  | _ => simp [evalUnary,isBool]

lemma evalBinop_or_iff (a b : Value) :
    (evalBinop P .filter a .or b == .bool true) = (a == .bool true || b == .bool true) ↔
      (a = .bool true → isBool b = true) ∧ (b = .bool true → isBool a = true) := by
  cases a with
  | bool a => cases b with
    | bool b => cases a <;> cases b <;> simp [evalBinop,BinOp.isComparison,BinOp.isOrdering,isBool]
    | _ => cases a <;> simp [evalBinop,BinOp.isComparison,isBool]
  | _ => cases b with
    | bool b => cases b <;> simp [evalBinop,BinOp.isComparison,isBool]
    | _ => simp [evalBinop,BinOp.isComparison,isBool]

/-- The evaluator is two-valued on definite operands, and on no others. -/
lemma evalPredicate_twoValued_iff (row : List Value) (columns : List OutputColumn) (p q : Expr τ) :
    TwoValued (evalPredicate P · row columns) p q ↔ Definite (evalExpr P p row columns) (evalExpr P q row columns) := by
  have hnot := evalUnary_not_iff (evalExpr P p row columns)
  have hor := evalBinop_or_iff P (evalExpr P p row columns) (evalExpr P q row columns)
  constructor
  · intro h
    exact ⟨hnot.mp h.not,hor.mp h.or⟩
  · intro h
    exact ⟨hnot.mpr h.1,evalPredicate_and,hor.mpr h.2⟩

end truth

/-- The test of a filtered scan on one row: the compiled predicate, or the evaluator on the
columns the filter reads. -/
def scanTest (P : Prims) (schema : Schema) (fallback : Expr τ → Bytes → Bool) (data : Bytes) (e : Expr τ) : Bool :=
  match compilePredicate P (scanColumns schema) schema (fallback e) e with
  | some test => test data
  | none =>
    ((decodeSelective schema data (predicateColumnIndicesJson (scanColumns schema) e)).map fun row =>
      evalPredicate P e row (scanColumns schema)).getD false

section scan

/-- The scan tests a clear filter as the evaluator does on the whole row. -/
lemma scanTest_eq (hP : P.LikeOnly) (h : Stored P schema data vals) (hb : PathBased e)
    (hc : Clear P vals (scanColumns schema) e) :
    scanTest P schema fallback data e = evalPredicate P e vals (scanColumns schema) := by
  unfold scanTest
  split
  case h_1 test htest => exact (compilePredicate_eval hP h htest).2 hc
  case h_2 =>
    rw [decodeSelective_eq h,map_some,getD_some]
    exact congrArg (· == Value.bool true) (evalExpr_select hb)

/-- A disjunction compares no text with a document. -/
lemma clear_or (p q : Expr τ) :
    Clear P row columns (.binaryOp p .or q) := by
  intro base segments op lit hside hclash
  have hop : op = .or := by
    rcases literalSide_cases hside with ⟨-,-,h⟩ | ⟨-,-,h⟩ <;> exact h
  subst hop
  exact hclash.1.elim nofun nofun

end scan

/-- Filters are two-valued exactly on definite operands, evaluated on any row, and on a stored row
where they run through the compiled path and are clear. -/
theorem filter_logic_iff_definite (P : Prims) (hP : P.LikeOnly) (p q : Expr τ) :
    (∀ row columns, TwoValued (evalPredicate P · row columns) p q ↔
      Definite (evalExpr P p row columns) (evalExpr P q row columns)) ∧
    ∀ schema data vals fallback, Stored P schema data vals → PathBased p → PathBased q →
      Clear P vals (scanColumns schema) p → Clear P vals (scanColumns schema) q →
      (TwoValued (scanTest P schema fallback data) p q ↔
        Definite (evalExpr P p vals (scanColumns schema)) (evalExpr P q vals (scanColumns schema))) := by
  refine ⟨fun row columns => evalPredicate_twoValued_iff P row columns p q,?_⟩
  intro schema data vals fallback h hbp hbq hcp hcq
  rw [← evalPredicate_twoValued_iff P vals (scanColumns schema) p q]
  have hp : scanTest P schema fallback data p = _ := scanTest_eq hP h hbp hcp
  have hq : scanTest P schema fallback data q = _ := scanTest_eq hP h hbq hcq
  have hnot : scanTest P schema fallback data (.unaryOp .not p) = _ := scanTest_eq hP h hbp trivial
  have hand : scanTest P schema fallback data (.binaryOp p .and q) = _ := scanTest_eq hP h ⟨hbp,hbq⟩ ⟨hcp,hcq⟩
  have hor : scanTest P schema fallback data (.binaryOp p .or q) = _ := scanTest_eq hP h ⟨hbp,hbq⟩ (clear_or p q)
  constructor
  · intro ht
    exact ⟨by rw [← hnot,← hp,ht.not],by rw [← hand,← hp,← hq,ht.and],by rw [← hor,← hp,← hq,ht.or]⟩
  · intro ht
    exact ⟨by rw [hnot,hp,ht.not],by rw [hand,hp,hq,ht.and],by rw [hor,hp,hq,ht.or]⟩

/-- The filters `.n > 3` and `.s = "a"`. -/
theorem item_filters_two_valued :
    TwoValued (evalPredicate Prims.blank · [.int 5,.str "a"] (scanColumns itemSchema))
      (.binaryOp (.field "n") .gt (.literal (.int 3)) : Expr Unit)
      (.binaryOp (.field "s") .eq (.literal (.string "a"))) := by
  apply ((filter_logic_iff_definite .blank nofun _ _).1 _ _).mpr
  exact ⟨.inl rfl,fun _ => rfl,fun _ => rfl⟩

/-- An integer column is neither true nor is its negation, and a true disjunct beside a missing
one is lost. -/
theorem connectives_lose_truth :
    evalPredicate Prims.blank (.unaryOp .not (.field "n") : Expr Unit) [.int 5,.empty] (scanColumns itemSchema) = false ∧
    evalPredicate Prims.blank (.field "n" : Expr Unit) [.int 5,.empty] (scanColumns itemSchema) = false ∧
    evalPredicate Prims.blank (.binaryOp (.literal (.bool true)) .or (.field "s") : Expr Unit) [.int 5,.empty]
      (scanColumns itemSchema) = false ∧
    evalPredicate Prims.blank (.literal (.bool true) : Expr Unit) [.int 5,.empty] (scanColumns itemSchema) = true := by
  decide +kernel

end PowDB.Query
