import PowDB.Query.Eval
import Mathlib

/-! The comparison operators on numbers. Integers, floats and mixed pairs are compared by three
rules; on which numbers the rules fit together to an order is said by a rank. -/
namespace PowDB.Query
open Storage (Value)
open Lib
variable {τ α : Type}

/-- The operators are an order on `S`: `=` is an equivalence, `<` a strict total order on its
classes, and the other operators are derived from these two. -/
structure OrderLaws (S : Set α) (rel : BinOp → α → α → Prop) : Prop where
  refl : ∀ a ∈ S, rel .eq a a
  symm : ∀ a ∈ S, ∀ b ∈ S, rel .eq a b → rel .eq b a
  trans : ∀ a ∈ S, ∀ b ∈ S, ∀ c ∈ S, rel .eq a b → rel .eq b c → rel .eq a c
  irrefl : ∀ a ∈ S, ¬rel .lt a a
  lt_trans : ∀ a ∈ S, ∀ b ∈ S, ∀ c ∈ S, rel .lt a b → rel .lt b c → rel .lt a c
  total : ∀ a ∈ S, ∀ b ∈ S, rel .lt a b ∨ rel .eq a b ∨ rel .lt b a
  lt_congr : ∀ a ∈ S, ∀ b ∈ S, ∀ c ∈ S, rel .eq a b → (rel .lt a c ↔ rel .lt b c) ∧ (rel .lt c a ↔ rel .lt c b)
  lte_iff : ∀ a ∈ S, ∀ b ∈ S, rel .lte a b ↔ rel .lt a b ∨ rel .eq a b
  gte_iff : ∀ a ∈ S, ∀ b ∈ S, rel .gte a b ↔ rel .lt b a ∨ rel .eq a b
  gt_iff : ∀ a ∈ S, ∀ b ∈ S, rel .gt a b ↔ rel .lt b a
  neq_iff : ∀ a ∈ S, ∀ b ∈ S, rel .neq a b ↔ ¬rel .eq a b

/-- Operators that compare ranks are an order. -/
lemma OrderLaws.of_rank (r : α → ℤ)
    (h : ∀ a ∈ S, ∀ b ∈ S, ∀ op, op.isComparison = true → (rel op a b ↔ op.holds (compare (r a) (r b)) = true)) :
    OrderLaws S rel := by
  have heq : ∀ a ∈ S, ∀ b ∈ S, rel .eq a b ↔ r a = r b := by
    intro a ha b hb
    simp [h a ha b hb .eq rfl,BinOp.holds]
  have hlt : ∀ a ∈ S, ∀ b ∈ S, rel .lt a b ↔ r a < r b := by
    intro a ha b hb
    simp [h a ha b hb .lt rfl,BinOp.holds,compare_lt_iff_lt]
  constructor
  case refl => exact fun a ha => (heq a ha a ha).mpr rfl
  case symm => exact fun a ha b hb hab => (heq b hb a ha).mpr ((heq a ha b hb).mp hab).symm
  case trans =>
    intro a ha b hb c hc hab hbc
    exact (heq a ha c hc).mpr (((heq a ha b hb).mp hab).trans ((heq b hb c hc).mp hbc))
  case irrefl => exact fun a ha hab => lt_irrefl _ ((hlt a ha a ha).mp hab)
  case lt_trans =>
    intro a ha b hb c hc hab hbc
    exact (hlt a ha c hc).mpr (Int.lt_trans ((hlt a ha b hb).mp hab) ((hlt b hb c hc).mp hbc))
  case total =>
    intro a ha b hb
    rw [hlt a ha b hb,heq a ha b hb,hlt b hb a ha]
    exact lt_trichotomy _ _
  case lt_congr =>
    intro a ha b hb c hc hab
    rw [hlt a ha c hc,hlt b hb c hc,hlt c hc a ha,hlt c hc b hb,(heq a ha b hb).mp hab]
    exact ⟨Iff.rfl,Iff.rfl⟩
  case lte_iff =>
    intro a ha b hb
    rw [h a ha b hb .lte rfl,hlt a ha b hb,heq a ha b hb,← le_iff_lt_or_eq]
    simp [BinOp.holds,compare_gt_iff_gt]
  case gte_iff =>
    intro a ha b hb
    rw [h a ha b hb .gte rfl,hlt b hb a ha,heq a ha b hb,eq_comm (a := r a),← le_iff_lt_or_eq]
    simp [BinOp.holds,compare_lt_iff_lt]
  case gt_iff =>
    intro a ha b hb
    rw [h a ha b hb .gt rfl,hlt b hb a ha]
    simp [BinOp.holds,compare_gt_iff_gt]
  case neq_iff =>
    intro a ha b hb
    rw [h a ha b hb .neq rfl,heq a ha b hb]
    simp [BinOp.holds]

/-- An integer or a float that is a number. -/
def isNumber : Value → Bool
  | .int _ => true
  | .float f => !Binary64.isNaN f
  | _ => false

/-- The number of a value, in units of 2^-1074. -/
def exact : Value → ℤ
  | .int i => i.toInt*Binary64.one
  | .float f => Binary64.scaled f
  | _ => 0

lemma one_pos : 0 < Binary64.one := by
  unfold Binary64.one
  positivity

/-- The comparison of an integer with a float is exact at every magnitude. -/
lemma intF64Cmp_eq (hlow : -2^63 ≤ i) (hhigh : i < 2^63) (hf : Binary64.isNaN f = false) :
    intF64Cmp i f = compare (i*Binary64.one) (Binary64.scaled f) := by
  have hone := one_pos
  unfold intF64Cmp
  rw [hf]
  generalize Binary64.scaled f = s
  generalize Binary64.one = o at *
  simp only [Bool.false_eq_true,if_false]
  split_ifs with htop hbottom
  · refine (compare_lt_iff_lt.mpr (lt_of_lt_of_le ?_ htop)).symm
    exact mul_lt_mul_of_pos_right hhigh hone
  · refine (compare_gt_iff_gt.mpr (lt_of_lt_of_le hbottom ?_)).symm
    exact mul_le_mul_of_nonneg_right hlow hone.le
  have hdiv := Int.tmod_add_mul_tdiv s o
  have hhi : s.tmod o < o := Int.tmod_lt_of_pos s hone
  have hlo : -o < s.tmod o := by
    have := Int.lt_tmod_of_pos s hone
    omega
  generalize s.tdiv o = t at *
  rcases lt_trichotomy i t with hit | rfl | hit
  · rw [compare_lt_iff_lt.mpr hit,eq_comm,compare_lt_iff_lt]
    have := mul_le_mul_of_nonneg_right (Int.add_one_le_of_lt hit) hone.le
    nlinarith
  · rw [compare_eq_iff_eq.mpr rfl]
    rcases lt_trichotomy (i*o) s with h | h | h
    · rw [compare_lt_iff_lt.mpr h]
      exact compare_lt_iff_lt.mpr (by omega)
    · rw [compare_eq_iff_eq.mpr h]
      exact compare_eq_iff_eq.mpr (by omega)
    · rw [compare_gt_iff_gt.mpr h]
      exact compare_gt_iff_gt.mpr (by omega)
  · rw [compare_gt_iff_gt.mpr hit,eq_comm,compare_gt_iff_gt]
    have := mul_le_mul_of_nonneg_right (Int.add_one_le_of_lt hit) hone.le
    nlinarith

/-- The order of two numbers by the three rules. -/
def numberCmp : Value → Value → Ordering
  | .int a,.int b => compare a.toInt b.toInt
  | .float a,.float b => Binary64.totalCmp a b
  | .int a,.float b => intF64Cmp a.toInt b
  | .float a,.int b => (intF64Cmp b.toInt a).swap
  | _,_ => .eq

section evalBinop
variable (P : Prims)

/-- Numbers of different types go by the exact rule. -/
lemma evalBinop_cross (ha : a.isEmpty = false) (hb : b.isEmpty = false) (ha' : a.isNaN = false)
    (hb' : b.isNaN = false) (hop : op.isComparison = true) (h : crossTypeNumericCmp .filter a b = some o) :
    evalBinop P .filter a op b = .bool (op.holds o) := by
  simp [evalBinop,ha,hb,ha',hb',hop,h]

/-- Values of one type go by the storage order, where it agrees with equality. -/
lemma evalBinop_same (ha : a.isEmpty = false) (hb : b.isEmpty = false) (ha' : a.isNaN = false)
    (hb' : b.isNaN = false) (hop : op.isComparison = true) (h : crossTypeNumericCmp .filter a b = none)
    (ht : a.typeId = b.typeId) (heq : valueEq P a b = (Value.cmp P.pj1Cmp a b == .eq)) :
    evalBinop P .filter a op b = .bool (op.holds (Value.cmp P.pj1Cmp a b)) := by
  simp only [evalBinop,ha,hb,ha',hb',h,ht,hop,Bool.or_self,Bool.and_false,Bool.false_eq_true,if_false,bne_self_eq_false]
  cases op with
  | eq | neq => simp [heq,BinOp.holds,bne]
  | lt | gt | lte | gte => rfl
  | _ => exact absurd hop (by decide)

lemma valueEq_int (i j : Int64) : valueEq P (.int i) (.int j) = (compare i.toInt j.toInt == .eq) := by
  rw [valueEq,Bool.eq_iff_iff,decide_eq_true_eq,beq_iff_eq,compare_eq_iff_eq,Int64.toInt_inj,Value.int.injEq]
  all_goals simp

lemma valueEq_float (f g : UInt64) : valueEq P (.float f) (.float g) = (Binary64.totalCmp f g == .eq) := by
  rw [valueEq,Bool.eq_iff_iff,decide_eq_true_eq,beq_iff_eq,Binary64.totalCmp,compare_eq_iff_eq,Binary64.totalKey_inj,
    Value.float.injEq]
  all_goals simp

lemma isNaN_of_isNumber (h : isNumber a = true) : a.isNaN = false := by
  cases a with
  | float f =>
    simp only [isNumber,Bool.not_eq_true'] at h
    exact h
  | _ => rfl

lemma evalBinop_number (ha : isNumber a = true) (hb : isNumber b = true) (hop : op.isComparison = true) :
    evalBinop P .filter a op b = .bool (op.holds (numberCmp a b)) := by
  have hna := isNaN_of_isNumber ha
  have hnb := isNaN_of_isNumber hb
  cases a with
  | int i =>
    cases b with
    | int j => exact evalBinop_same P rfl rfl hna hnb hop rfl rfl (valueEq_int P i j)
    | float g => exact evalBinop_cross P rfl rfl hna hnb hop rfl
    | _ => cases hb
  | float f =>
    cases b with
    | int j => exact evalBinop_cross P rfl rfl hna hnb hop rfl
    | float g => exact evalBinop_same P rfl rfl hna hnb hop rfl rfl (valueEq_float P f g)
    | _ => cases hb
  | _ => cases ha

end evalBinop

/-- The two zeros among the floats. -/
def negZero : Value := .float (UInt64.ofNat (2^63))
def posZero : Value := .float 0

lemma isZero_iff : Binary64.isZero f = true ↔ Value.float f = posZero ∨ Value.float f = negZero := by
  have hlt := f.toNat_lt
  have htop : (UInt64.ofNat (2^63)).toNat = 2^63 := UInt64.toNat_ofNat_of_lt (by decide)
  rw [Binary64.isZero,decide_eq_true_eq,Binary64.magnitude,posZero,negZero,Value.float.injEq,Value.float.injEq,
    ← UInt64.toNat_inj,← UInt64.toNat_inj,htop,UInt64.toNat_zero]
  omega

/-- The two zeros are one number and two values. -/
def Unlike (a b : Value) : Prop := a = negZero ∧ b = posZero ∨ a = posZero ∧ b = negZero

lemma compare_mul_one (i j : ℤ) : compare (i*Binary64.one) (j*Binary64.one) = compare i j := by
  rcases lt_trichotomy i j with h | h | h
  · rw [compare_lt_iff_lt.mpr h,compare_lt_iff_lt.mpr (mul_lt_mul_of_pos_right h one_pos)]
  · rw [h,compare_eq_iff_eq.mpr rfl,compare_eq_iff_eq.mpr rfl]
  · rw [compare_gt_iff_gt.mpr h,compare_gt_iff_gt.mpr (mul_lt_mul_of_pos_right h one_pos)]

lemma compare_swap (x y : ℤ) : (compare x y).swap = compare y x := by
  rcases lt_trichotomy x y with h | h | h
  · rw [compare_lt_iff_lt.mpr h,compare_gt_iff_gt.mpr h]
    rfl
  · rw [h,compare_eq_iff_eq.mpr rfl]
    rfl
  · rw [compare_gt_iff_gt.mpr h,compare_lt_iff_lt.mpr h]
    rfl

/-- Away from the unlike zeros the rules compare the numbers themselves. -/
lemma numberCmp_eq (ha : isNumber a = true) (hb : isNumber b = true) (hz : ¬Unlike a b) :
    numberCmp a b = compare (exact a) (exact b) := by
  have hna := isNaN_of_isNumber ha
  have hnb := isNaN_of_isNumber hb
  cases a with
  | int i =>
    cases b with
    | int j => exact (compare_mul_one _ _).symm
    | float g => exact intF64Cmp_eq i.le_toInt i.toInt_lt hnb
    | _ => cases hb
  | float f =>
    cases b with
    | int j =>
      rw [numberCmp,intF64Cmp_eq j.le_toInt j.toInt_lt hna,compare_swap]
      rfl
    | float g =>
      by_cases hfg : f = g
      · subst hfg
        rw [numberCmp,Binary64.totalCmp,compare_eq_iff_eq.mpr rfl,compare_eq_iff_eq.mpr rfl]
      · apply Binary64.totalCmp_eq_compare_scaled
        rintro ⟨hzf,hzg⟩
        rw [isZero_iff] at hzf hzg
        rcases hzf with hzf | hzf <;> rcases hzg with hzg | hzg
        · exact hfg (Value.float.inj (hzf.trans hzg.symm))
        · exact hz (.inr ⟨hzf,hzg⟩)
        · exact hz (.inl ⟨hzf,hzg⟩)
        · exact hfg (Value.float.inj (hzf.trans hzg.symm))
    | _ => cases hb
  | _ => cases ha

/-- A rank that puts the negative zero just below the positive one. -/
def zeroRank (v : Value) : ℤ := 2*exact v-if v = negZero then 1 else 0

lemma eq_zero_of_exact (hv : isNumber v = true) (h0 : v ≠ .int 0) (h : exact v = 0) :
    v = posZero ∨ v = negZero := by
  cases v with
  | int i =>
    rcases Int.mul_eq_zero.mp h with hi | hone
    · exact absurd (congrArg Value.int (Int64.toInt_inj.mp hi)) h0
    · exact absurd hone one_pos.ne'
  | float f => exact isZero_iff.mp (Binary64.scaled_eq_zero.mp h)
  | _ => cases hv

lemma exact_negZero : exact negZero = 0 := by decide +kernel

/-- Where the integer zero is missing, the two float zeros are two numbers. -/
lemma numberCmp_eq_zeroRank (ha : isNumber a = true) (hb : isNumber b = true)
    (ha0 : a ≠ .int 0) (hb0 : b ≠ .int 0) : numberCmp a b = compare (zeroRank a) (zeroRank b) := by
  by_cases hz : Unlike a b
  · rcases hz with ⟨rfl,rfl⟩ | ⟨rfl,rfl⟩ <;> decide +kernel
  rw [numberCmp_eq ha hb hz]
  rcases lt_trichotomy (exact a) (exact b) with h | h | h
  · rw [compare_lt_iff_lt.mpr h,eq_comm,compare_lt_iff_lt]
    simp only [zeroRank]
    split_ifs <;> omega
  · have hsame : a = negZero ↔ b = negZero := by
      constructor
      · rintro rfl
        rcases eq_zero_of_exact hb hb0 (h ▸ exact_negZero) with hb | hb
        · exact absurd (.inl ⟨rfl,hb⟩) hz
        · exact hb
      · rintro rfl
        rcases eq_zero_of_exact ha ha0 (h ▸ exact_negZero) with ha | ha
        · exact absurd (.inr ⟨ha,rfl⟩) hz
        · exact ha
    rw [compare_eq_iff_eq.mpr h,eq_comm,compare_eq_iff_eq]
    simp only [zeroRank,h,hsame]
  · rw [compare_gt_iff_gt.mpr h,eq_comm,compare_gt_iff_gt]
    simp only [zeroRank]
    split_ifs <;> omega

/-- On the operands of a row that are numbers, as columns, JSON scalars or otherwise computed,
the filter operators are an order exactly when the two float zeros and the integer zero are
not all three among them. -/
theorem comparisons_order_iff (P : Prims) (row : List Value) (columns : List OutputColumn) (S : Set (Expr τ))
    (hS : ∀ e ∈ S, isNumber (evalExpr P e row columns) = true) :
    OrderLaws S (fun op a b => evalPredicate P (.binaryOp a op b) row columns = true) ↔
      ¬((∃ e ∈ S, evalExpr P e row columns = negZero) ∧ (∃ e ∈ S, evalExpr P e row columns = posZero) ∧
        ∃ e ∈ S, evalExpr P e row columns = .int 0) := by
  have hrel : ∀ a ∈ S, ∀ b ∈ S, ∀ op : BinOp, op.isComparison = true →
      (evalPredicate P (.binaryOp a op b) row columns = true ↔
        op.holds (numberCmp (evalExpr P a row columns) (evalExpr P b row columns)) = true) := by
    intro a ha b hb op hop
    have hvalue : evalExpr P (.binaryOp a op b) row columns =
        evalBinop P .filter (evalExpr P a row columns) op (evalExpr P b row columns) := rfl
    rw [show evalPredicate P (.binaryOp a op b) row columns =
        (evalExpr P (.binaryOp a op b) row columns == .bool true) from rfl,
      hvalue,evalBinop_number P (hS a ha) (hS b hb) hop,beq_iff_eq,Value.bool.injEq]
  constructor
  · rintro hlaws ⟨⟨a,ha,hva⟩,⟨b,hb,hvb⟩,c,hc,hvc⟩
    have hac := (hrel a ha c hc .eq rfl).mpr (by rw [hva,hvc]; decide +kernel)
    have hcb := (hrel c hc b hb .eq rfl).mpr (by rw [hvb,hvc]; decide +kernel)
    have hab := (hrel a ha b hb .eq rfl).mp (hlaws.trans a ha c hc b hb hac hcb)
    rw [hva,hvb] at hab
    exact absurd hab (by decide +kernel)
  · intro hnot
    by_cases h0 : ∃ e ∈ S, evalExpr P e row columns = .int 0
    · refine .of_rank (fun e => exact (evalExpr P e row columns)) fun a ha b hb op hop => ?_
      rw [hrel a ha b hb op hop,numberCmp_eq (hS a ha) (hS b hb)]
      rintro (⟨hva,hvb⟩ | ⟨hva,hvb⟩)
      · exact hnot ⟨⟨a,ha,hva⟩,⟨b,hb,hvb⟩,h0⟩
      · exact hnot ⟨⟨b,hb,hvb⟩,⟨a,ha,hva⟩,h0⟩
    · refine .of_rank (fun e => zeroRank (evalExpr P e row columns)) fun a ha b hb op hop => ?_
      rw [hrel a ha b hb op hop,numberCmp_eq_zeroRank (hS a ha) (hS b hb)]
      · exact fun hva => h0 ⟨a,ha,hva⟩
      · exact fun hvb => h0 ⟨b,hb,hvb⟩

/-- A row with the three zeros, and its columns. -/
def zeroRow : List Value := [negZero,.int 0,posZero]
def zeroColumns : List OutputColumn := [⟨none,"a"⟩,⟨none,"b"⟩,⟨none,"c"⟩]

/-- The columns `b` and `c` of that row are ordered like numbers. -/
theorem integer_and_float_zero_ordered :
    OrderLaws ({.field "b",.field "c"} : Set (Expr Unit))
      (fun op a b => evalPredicate .blank (.binaryOp a op b) zeroRow zeroColumns = true) := by
  refine (comparisons_order_iff Prims.blank zeroRow zeroColumns _ ?_).mpr ?_
  · rintro e (rfl | rfl) <;> decide +kernel
  · rintro ⟨⟨e,rfl | rfl,he⟩,-⟩ <;> exact absurd he (by decide +kernel)

/-- Equality is not transitive: `a = b` and `b = c`, but not `a = c`. -/
theorem equality_not_transitive :
    evalPredicate .blank (.binaryOp (.field "a") .eq (.field "b") : Expr Unit) zeroRow zeroColumns = true ∧
    evalPredicate .blank (.binaryOp (.field "b") .eq (.field "c") : Expr Unit) zeroRow zeroColumns = true ∧
    evalPredicate .blank (.binaryOp (.field "a") .eq (.field "c") : Expr Unit) zeroRow zeroColumns = false := by
  decide +kernel

end PowDB.Query
