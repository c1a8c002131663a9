import PowDB.Query.Compiled
import PowDB.Query.Comparison
import Mathlib

/-! The leaves of compiled predicates against the evaluator: on a stored row, what a leaf reads at
its offsets is the value the decoder gives for its column, so that a leaf is as true as the
comparison it was built from. -/
namespace PowDB.Query
open Storage (Value Bytes TypeId Schema ColumnDef)
open Storage.RowFormat (ofLeBytes rowBody slice isNull fixedValue varValue decodeColumns decodeRow)
open Lib List Option
variable {τ : Type}
  {vals : List Value}

/-! Where a decoded value was read. -/

lemma slice_eq_some :
    slice data pos n = some b ↔ pos+n ≤ data.length ∧ readAt data pos n = b := by
  unfold slice readAt
  split_ifs with h
  · simp [h]
  · simp [h]

/-- A value of a column at its place: an offset, or an entry of the offset table. -/
inductive ColumnRead (data : Bytes) (tableStart dataStart : ℕ) (t : TypeId) : Option ℕ × Option ℕ → Value → Prop
  | fixed {off n : ℕ} (hn : t.fixedSize = some n) (hlen : off+n ≤ data.length) :
    ColumnRead data tableStart dataStart t (some off,none) (fixedValue t (readAt data off n))
  | var {vi : ℕ} {b : Bytes} (hn : t.fixedSize = none)
    (hb : (VarSlot.mk tableStart dataStart vi).bytes data = some b) :
    ColumnRead data tableStart dataStart t (none,some vi) (varValue t b)

lemma varSlot_bytes
    (hstart : slice data (tableStart+2*vi) 2 = some start) (hstop : slice data (tableStart+2*(vi+1)) 2 = some stop)
    (hle : ¬ofLeBytes stop < ofLeBytes start)
    (hb : slice data (dataStart+ofLeBytes start) (ofLeBytes stop-ofLeBytes start) = some b) :
    (VarSlot.mk tableStart dataStart vi).bytes data = some b := by
  obtain ⟨-,rfl⟩ := slice_eq_some.mp hstart
  obtain ⟨hlen,rfl⟩ := slice_eq_some.mp hstop
  obtain ⟨hend,rfl⟩ := slice_eq_some.mp hb
  rw [Nat.mul_comm 2 vi,Nat.mul_comm 2 (vi+1)] at *
  simp only [VarSlot.bytes]
  rw [if_neg (by omega),if_neg (by omega)]
  congr 2
  omega

/-- One column of the decoder, at its place. -/
def columnPlace (pos vi : ℕ) (t : TypeId) : Option ℕ × Option ℕ :=
  if t.fixedSize.isSome then (some pos,none) else (none,some vi)

lemma offsetsFrom_cons (pos vi : ℕ) (c : ColumnDef) (cs : Schema) :
    FastLayout.offsetsFrom pos vi (c::cs) = columnPlace pos vi c.typeId::
      FastLayout.offsetsFrom (pos+c.typeId.fixedSize.getD 0) (if c.typeId.fixedSize.isSome then vi else vi+1) cs := by
  rw [FastLayout.offsetsFrom]
  cases hsize : c.typeId.fixedSize <;> simp [columnPlace,hsize]

/-- The decoder reads the first column and goes on behind it. -/
lemma decodeColumns_cons
    (h : decodeColumns data bitmap tableStart dataStart i pos vi (c::cs) = some vals) : ∃ v vs, vals = v::vs ∧
      decodeColumns data bitmap tableStart dataStart (i+1) (pos+c.typeId.fixedSize.getD 0)
        (if c.typeId.fixedSize.isSome then vi else vi+1) cs = some vs ∧
      (isNull bitmap i = true ∧ v = .empty ∨
        isNull bitmap i = false ∧ ColumnRead data tableStart dataStart c.typeId (columnPlace pos vi c.typeId) v) := by
  rw [decodeColumns] at h
  cases hnull : isNull bitmap i with
  | true =>
    cases hsize : c.typeId.fixedSize with
    | some _ | none =>
      simp only [hsize,hnull,if_true] at h
      obtain ⟨v,hv,h⟩ := bind_eq_some_iff.mp h
      obtain ⟨vs,hvs,h⟩ := bind_eq_some_iff.mp h
      exact ⟨v,vs,(some.inj h).symm,by simpa using hvs,.inl ⟨rfl,(some.inj hv).symm⟩⟩
  | false =>
    cases hsize : c.typeId.fixedSize with
    | some n =>
      simp only [hsize,hnull] at h
      obtain ⟨v,hv,h⟩ := bind_eq_some_iff.mp h
      obtain ⟨vs,hvs,h⟩ := bind_eq_some_iff.mp h
      obtain ⟨b,hb,rfl⟩ := map_eq_some_iff.mp hv
      obtain ⟨hlen,rfl⟩ := slice_eq_some.mp hb
      refine ⟨_,vs,(some.inj h).symm,by simpa using hvs,.inr ⟨rfl,?_⟩⟩
      rw [columnPlace,hsize]
      exact .fixed hsize hlen
    | none =>
      simp only [hsize,hnull] at h
      obtain ⟨start,hstart,h⟩ := bind_eq_some_iff.mp h
      obtain ⟨stop,hstop,h⟩ := bind_eq_some_iff.mp h
      by_cases hle : ofLeBytes stop < ofLeBytes start
      · rw [if_pos hle] at h
        cases h
      rw [if_neg hle] at h
      obtain ⟨v,hv,h⟩ := bind_eq_some_iff.mp h
      obtain ⟨vs,hvs,h⟩ := bind_eq_some_iff.mp h
      obtain ⟨b,hb,rfl⟩ := map_eq_some_iff.mp hv
      refine ⟨_,vs,(some.inj h).symm,by simpa using hvs,.inr ⟨rfl,?_⟩⟩
      rw [columnPlace,hsize]
      exact .var hsize (varSlot_bytes hstart hstop hle hb)

/-- The decoder walks the columns as the layout does. -/
lemma decodeColumns_get
    (h : decodeColumns data bitmap tableStart dataStart i pos vi cols = some vals) (hk : cols[k]? = some c) :
    ∃ v place, vals[k]? = some v ∧ (FastLayout.offsetsFrom pos vi cols)[k]? = some place ∧
      (isNull bitmap (i+k) = true ∧ v = .empty ∨
        isNull bitmap (i+k) = false ∧ ColumnRead data tableStart dataStart c.typeId place v) := by
  induction cols generalizing i pos vi k vals with
  | nil => cases hk
  | cons d cols ih =>
    obtain ⟨v,vs,rfl,hvs,hv⟩ := decodeColumns_cons h
    rw [offsetsFrom_cons]
    cases k with
    | zero =>
      cases hk
      exact ⟨v,_,rfl,rfl,hv⟩
    | succ k =>
      obtain ⟨v',place,hv',hplace,hread⟩ := ih hvs hk
      rw [Nat.add_right_comm] at hread
      exact ⟨v',place,hv',hplace,hread⟩

/-- The layout counts from the start of the fixed region. -/
lemma offsetsFrom_shift (base pos vi : ℕ) (cols : Schema) : FastLayout.offsetsFrom (base+pos) vi cols =
      (FastLayout.offsetsFrom pos vi cols).map fun x => (x.1.map (base+·),x.2) := by
  induction cols generalizing pos vi with
  | nil => rfl
  | cons c cols ih =>
    rw [offsetsFrom_cons,offsetsFrom_cons,map_cons,Nat.add_assoc,ih]
    unfold columnPlace
    split_ifs <;> rfl

/-- A row of the schema as it is stored inline, and the values it decodes to. Text columns hold
the UTF-8 of a text, and no number inside a document is a NaN. -/
structure Stored (P : Prims) (schema : Schema) (data : Bytes) (vals : List Value) : Prop where
  inline : rowIsV2 data = false
  typed : ∀ c ∈ schema, c.typeId ≠ .empty
  decoded : decodeRow schema data = some vals
  texts : ∀ (i : ℕ) slot b s, slotAt (.new schema) i = some slot → slot.bytes (rowBody data) = some b →
    vals[i]? = some (.str s) → s.toUTF8.data.toList = b
  numbers : ∀ (i : ℕ) (doc : Bytes) (segments : List PathSeg) node, vals[i]? = some (.json doc) → segments.foldlM P.pj1Get doc = some node →
    (pj1Scalarize node).isNaN = false

lemma isNull_readAt (hi : i/8 < n) :
    isNull (readAt body 2 n) i = (NullBit.of i).isSet body := by
  simp [isNull,NullBit.isSet,NullBit.of,readAt,hi]

/-- What is stored for a column that is not null. -/
inductive HeldAt (schema : Schema) (body : Bytes) (i : ℕ) (t : TypeId) : Value → Prop
  | fixed {off n : ℕ} (hoff : fixedAt (.new schema) i = some off) (hn : t.fixedSize = some n)
    (hlen : off+n ≤ body.length) : HeldAt schema body i t (fixedValue t (readAt body off n))
  | var {slot : VarSlot} {b : Bytes} (hnone : fixedAt (.new schema) i = none) (hslot : slotAt (.new schema) i = some slot)
    (hn : t.fixedSize = none) (hb : slot.bytes body = some b) : HeldAt schema body i t (varValue t b)

section Stored
variable {P : Prims} {schema : Schema} {data : Bytes}

/-- The value of a column is missing when its bit is set, and else what is stored for it. -/
lemma Stored.column (h : Stored P schema data vals) (hi : schema[i]? = some c) :
    ∃ v, vals[i]? = some v ∧ 3+i/8 ≤ (rowBody data).length ∧
      ((NullBit.of i).isSet (rowBody data) = true ∧ v = .empty ∨
        (NullBit.of i).isSet (rowBody data) = false ∧ HeldAt schema (rowBody data) i c.typeId v) := by
  have hdec := h.decoded
  obtain ⟨bitmap,hbitmap,hdec⟩ := bind_eq_some_iff.mp hdec
  obtain ⟨-,-,hdec⟩ := bind_eq_some_iff.mp hdec
  obtain ⟨hlen,rfl⟩ := slice_eq_some.mp hbitmap
  have hlt : i < schema.length := (List.getElem?_eq_some_iff.mp hi).1
  have hbyte : i/8 < (schema.length+7)/8 := by omega
  obtain ⟨v,place,hv,hplace,hread⟩ := decodeColumns_get hdec hi
  rw [Nat.zero_add,isNull_readAt hbyte] at hread
  refine ⟨v,hv,by omega,hread.imp_right fun hread => ⟨hread.1,?_⟩⟩
  rw [show 2+(schema.length+7)/8 = 2+(schema.length+7)/8+0 from rfl,offsetsFrom_shift,getElem?_map] at hplace
  obtain ⟨⟨o,w⟩,hat,hpair⟩ := map_eq_some_iff.mp hplace
  have hfixed : fixedAt (.new schema) i = o.map (2+(schema.length+7)/8+·) := by
    simp [fixedAt,FastLayout.new,hat]
  have hslot : slotAt (.new schema) i = w.map fun vi =>
      ⟨(FastLayout.new schema).varOffsetTableStart,(FastLayout.new schema).varDataStart,vi⟩ := by
    simp [slotAt,FastLayout.new,hat,FastLayout.varDataStart]
  obtain ⟨-,hread⟩ := hread
  cases hread with
  | fixed hn hlen => exact .fixed (hfixed.trans (congrArg Prod.fst hpair)) hn hlen
  | var hn hb =>
    obtain rfl : w = some _ := congrArg Prod.snd hpair
    refine .var (hfixed.trans (congrArg Prod.fst hpair)) hslot hn ?_
    simpa only [FastLayout.varDataStart,FastLayout.varOffsetTableStart,FastLayout.new,Nat.mul_comm 2] using hb

end Stored

/-! A literal on either side of an operator. -/

/-- Of the operators that are neither comparisons nor connectives only `like` gives a truth
value, and it compares two texts. -/
def Prims.LikeOnly (P : Prims) : Prop := ∀ op a b, P.arith op a b = .bool true → a.typeId = .str ∧ b.typeId = .str

lemma holds_flipped (op : BinOp) (o : Ordering) : op.flipped.holds o.swap = op.holds o := by
  cases op <;> cases o <;> rfl

@[simp] lemma isComparison_flipped (op : BinOp) : op.flipped.isComparison = op.isComparison := by cases op <;> rfl

@[simp] lemma isOrdering_flipped (op : BinOp) : op.flipped.isOrdering = op.isOrdering := by cases op <;> rfl

lemma crossTypeNumericCmp_swap (mode : CmpMode) (a b : Value) :
    crossTypeNumericCmp mode b a = (crossTypeNumericCmp mode a b).map Ordering.swap := by
  cases a <;> cases b <;> simp [crossTypeNumericCmp,compare_swap]

lemma valueEq_comm (P : Prims) (a b : Value) : valueEq P a b = valueEq P b a := by
  cases a <;> cases b <;> simp [valueEq,eq_comm]

/-- The storage order of a literal and a value of its type. -/
lemma cmp_literal_swap {pj1Cmp : Bytes → Bytes → Ordering} {lit : Literal}
    (h : v.typeId = lit.toValue.typeId) :
    Value.cmp pj1Cmp lit.toValue v = (Value.cmp pj1Cmp v lit.toValue).swap := by
  cases lit <;> cases v <;> first | exact Std.OrientedOrd.eq_swap | exact nomatch h

/-- A comparison in a filter, rule by rule. -/
lemma evalBinop_comparison (P : Prims) (hop : op.isComparison = true) (a b : Value) :
    evalBinop P .filter a op b =
      if a.isEmpty || b.isEmpty then .bool false
      else if a.isNaN || b.isNaN then .bool (op == .neq)
      else
        match crossTypeNumericCmp .filter a b with
        | some o => .bool (op.holds o)
        | none =>
          if op.isOrdering then .bool (a.typeId == b.typeId && op.holds (Value.cmp P.pj1Cmp a b))
          else .bool (op.holds (if valueEq P a b then .eq else .lt)) := by
  simp only [evalBinop,hop]
  congr 2
  cases crossTypeNumericCmp .filter a b with
  | some o => rfl
  | none =>
    cases op with
    | eq | neq => cases h : valueEq P a b <;> simp [BinOp.isOrdering,BinOp.holds]
    | lt | gt | lte | gte => by_cases ht : a.typeId = b.typeId <;> simp [BinOp.isOrdering,ht]
    | _ => cases hop

/-- Exchanging the sides and the direction of a comparison with a literal changes nothing. -/
lemma evalBinop_flipped (P : Prims) {op : BinOp} (hop : op.isComparison = true) (v : Value) (lit : Literal) :
    evalBinop P .filter lit.toValue op v = evalBinop P .filter v op.flipped lit.toValue := by
  have hneq : (op.flipped == .neq) = (op == .neq) := by cases op <;> rfl
  rw [evalBinop_comparison P hop,evalBinop_comparison P ((isComparison_flipped op).trans hop),Bool.or_comm v.isEmpty,
    Bool.or_comm v.isNaN,crossTypeNumericCmp_swap .filter lit.toValue v,hneq,isOrdering_flipped,valueEq_comm P v]
  congr 2
  cases crossTypeNumericCmp .filter lit.toValue v with
  | some o => simp [holds_flipped]
  | none =>
    cases hord : op.isOrdering with
    | true =>
      by_cases ht : v.typeId = lit.toValue.typeId
      · simp [ht,cmp_literal_swap ht,← holds_flipped op]
      · simp [beq_eq_false_iff_ne.mpr ht,beq_eq_false_iff_ne.mpr (Ne.symm ht)]
    | false =>
      cases op with
      | eq | neq => rfl
      | lt | gt | lte | gte => cases hord
      | _ => cases hop

section literalSide
variable {P : Prims} {l r e : Expr τ} {op op' : BinOp} {lit : Literal} {row : List Value}

lemma evalPredicate_binaryOp :
    evalPredicate P (.binaryOp l op r) row columns =
      (evalBinop P .filter (evalExpr P l row columns) op (evalExpr P r row columns) == .bool true) := rfl

section
variable (h : literalSide l op r = some (e,op',lit))
include h

lemma literalSide_cases :
    (r = .literal lit ∧ e = l ∧ op' = op) ∨ (l = .literal lit ∧ e = r ∧ op' = op.flipped) := by
  unfold literalSide at h
  split at h
  · cases h
    exact .inl ⟨rfl,rfl,rfl⟩
  · cases h
    exact .inr ⟨rfl,rfl,rfl⟩
  · cases h

lemma isComparison_literalSide : op'.isComparison = op.isComparison := by
  rcases literalSide_cases h with ⟨-,-,rfl⟩ | ⟨-,-,rfl⟩
  · rfl
  · exact isComparison_flipped op

/-- A comparison with a literal, seen from the other side. -/
lemma evalPredicate_literalSide (hop : op.isComparison = true) :
    evalPredicate P (.binaryOp l op r) row columns =
      (evalBinop P .filter (evalExpr P e row columns) op' lit.toValue == .bool true) := by
  rcases literalSide_cases h with ⟨rfl,rfl,rfl⟩ | ⟨rfl,rfl,rfl⟩
  · rfl
  · rw [evalPredicate_binaryOp,← evalBinop_flipped P hop]
    rfl

end

lemma evalBinop_not_comparison (hP : P.LikeOnly) (hop : op.isComparison = false)
    (ha : a.typeId ≠ .bool ∧ a.typeId ≠ .str ∨ b.typeId ≠ .bool ∧ b.typeId ≠ .str) :
    (evalBinop P .filter a op b == .bool true) = false := by
  have harith : ∀ op, P.arith op a b ≠ .bool true := by
    intro op h
    obtain ⟨ha',hb'⟩ := hP op a b h
    rcases ha with ha | hb
    · exact ha.2 ha'
    · exact hb.2 hb'
  have hbool : ∀ x y, a = .bool x → b ≠ .bool y := by
    rintro x y rfl rfl
    rcases ha with ha | hb
    · exact ha.1 rfl
    · exact hb.1 rfl
  rw [beq_eq_false_iff_ne]
  cases op with
  | eq | neq | lt | gt | lte | gte => cases hop
  | and | or =>
    simp only [evalBinop]
    rintro ⟨⟩
  | add | sub | mul | div | like => exact harith _

/-- With a number on one side only the comparisons can hold. -/
lemma evalPredicate_number (hP : P.LikeOnly) (h : literalSide l op r = some (e,op',lit))
    (hlit : isNumber lit.toValue = true ∨ lit.toValue.isNaN = true) :
    evalPredicate P (.binaryOp l op r) row columns =
      (op'.isComparison && (evalBinop P .filter (evalExpr P e row columns) op' lit.toValue == .bool true)) := by
  rw [isComparison_literalSide h]
  have hkind : lit.toValue.typeId ≠ .bool ∧ lit.toValue.typeId ≠ .str := by
    cases lit with
    | int i | float f => exact ⟨nofun,nofun⟩
    | string s | bool b => exact hlit.elim nofun nofun
  cases hop : op.isComparison with
  | true => exact evalPredicate_literalSide h hop
  | false =>
    rcases literalSide_cases h with ⟨rfl,rfl,rfl⟩ | ⟨rfl,rfl,rfl⟩
    · exact evalBinop_not_comparison hP hop (.inr hkind)
    · exact evalBinop_not_comparison hP hop (.inl hkind)

end literalSide

/-- The columns of a table scan. -/
def scanColumns (schema : Schema) : List OutputColumn := schema.map fun c => ⟨none,c.name⟩

lemma columnAt_scanColumns
    (h : columnAt (scanColumns schema) name = some i) : ∃ c, schema[i]? = some c := by
  obtain ⟨hlt,-⟩ := findIdx?_eq_some_iff_getElem.mp h
  rw [scanColumns,length_map] at hlt
  exact ⟨schema[i],getElem?_eq_getElem hlt⟩

/-- A scan has no columns with the name of a table. -/
lemma resolve_scanColumns (schema : Schema) (name : String) :
    resolveColumnIndex name (scanColumns schema) = columnAt (scanColumns schema) name := by
  have hnone : (scanColumns schema).findIdx? (fun c => c.table.isSome && c.name == name) = none := by
    simp [scanColumns]
  rw [resolveColumnIndex,hnone,or_none]
  rfl

lemma evalExpr_field
    (hi : columnAt (scanColumns schema) name = some i) (hv : vals[i]? = some v) :
    evalExpr P (.field name : Expr τ) vals (scanColumns schema) = v := by
  show ((resolveColumnIndex name (scanColumns schema)).bind (vals[·]?)).getD .empty = v
  rw [resolve_scanColumns,hi,bind_some,hv,getD_some]

section leaves
variable {P : Prims} {schema : Schema} {data : Bytes} {vals : List Value} {l r : Expr τ} {op : BinOp}
  {leaf : CompiledLeaf}
  {n : Bytes} {v : Value} {lit : Literal} {node : Option Bytes} {columns : List OutputColumn}

section
variable (h : Stored P schema data vals)
include h

/-- A named column: missing, or what is stored for it. -/
lemma Stored.namedColumn (hi : columnAt (scanColumns schema) name = some i)
    (ht : typeAt schema i = some t) : ¬(rowBody data).length < 3+(NullBit.of i).byte ∧
      ∃ v, evalExpr P (.field name : Expr τ) vals (scanColumns schema) = v ∧ vals[i]? = some v ∧
        ((NullBit.of i).isSet (rowBody data) = true ∧ v = .empty ∨
          (NullBit.of i).isSet (rowBody data) = false ∧ HeldAt schema (rowBody data) i t v) := by
  obtain ⟨c,hc,rfl⟩ := map_eq_some_iff.mp ht
  obtain ⟨v,hv,hlen,hread⟩ := h.column hc
  exact ⟨Nat.not_lt.mpr hlen,v,evalExpr_field hi hv,hv,hread⟩

end

section
variable (h : HeldAt schema body i t v)
include h

lemma HeldAt.fixed_read {off n : ℕ} (hn : t.fixedSize = some n) (hoff : fixedAt (.new schema) i = some off) :
    ¬body.length < off+n ∧ v = fixedValue t (readAt body off n) := by
  cases h with
  | fixed hoff' hn' hlen =>
    obtain rfl := some.inj (hoff'.symm.trans hoff)
    obtain rfl := some.inj (hn'.symm.trans hn)
    exact ⟨Nat.not_lt.mpr hlen,rfl⟩
  | var hnone => exact absurd (hnone.symm.trans hoff) nofun

lemma HeldAt.var_read (hn : t.fixedSize = none) (hslot : slotAt (.new schema) i = some slot) :
    ∃ b, slot.bytes body = some b ∧ v = varValue t b := by
  cases h with
  | fixed _ hn' => exact absurd (hn.symm.trans hn') nofun
  | var _ hslot' _ hb =>
    obtain rfl := some.inj (hslot'.symm.trans hslot)
    exact ⟨_,hb,rfl⟩

end

/-- A document is compared with its own text, which the evaluator reads as a document. -/
def Clash (P : Prims) (v : Value) (op : BinOp) (lit : Literal) : Prop :=
  (op = .eq ∨ op = .neq) ∧ ∃ doc text, v = .json doc ∧ lit = .string text ∧ P.parseJsonText text = some doc

/-- The text of a document is not compared with the document at a path. -/
def ClearOf (P : Prims) (row : List Value) (columns : List OutputColumn) (l : Expr τ) (op : BinOp) (r : Expr τ) : Prop :=
  ∀ base segments op' lit, literalSide l op r = some (.jsonPath base segments,op',lit) →
    ¬Clash P (evalExpr P (.jsonPath base segments) row columns) op' lit

mutual
/-- The base of a JSON path is a field, or reads no field of its own: the parser builds no other. -/
def PathBased : Expr τ → Prop
  | .jsonPath (.field _) _ => True
  | .jsonPath base _ => fieldNames base = [] ∧ PathBased base
  | .binaryOp l _ r | .coalesce l r => PathBased l ∧ PathBased r
  | .unaryOp _ e | .functionCall e | .cast e _ | .inSubquery e _ _ => PathBased e
  | .scalarFunc _ args => PathBasedList args
  | .caseWhen c r rest => PathBased c ∧ PathBased r ∧ PathBased rest
  | .inList e list _ => PathBased e ∧ PathBasedList list
  | _ => True

def PathBasedList : List (Expr τ) → Prop
  | [] => True
  | e::es => PathBased e ∧ PathBasedList es
end

lemma pathBased_side (hside : literalSide l op r = some (e,op',lit)) (hb : PathBased e) :
    PathBased (.binaryOp l op r) := by
  rcases literalSide_cases hside with ⟨rfl,rfl,-⟩ | ⟨rfl,rfl,-⟩
  · exact ⟨hb,trivial⟩
  · exact ⟨trivial,hb⟩

/-- The leaf is as true as the comparison exactly when the comparison is clear. -/
def CompiledLeaf.Matches (P : Prims) (schema : Schema) (data : Bytes) (vals : List Value) (l : Expr τ) (op : BinOp)
    (r : Expr τ) (leaf : CompiledLeaf) : Prop :=
  (leaf.eval P (rowBody data) = evalPredicate P (.binaryOp l op r) vals (scanColumns schema) ↔
    ClearOf P vals (scanColumns schema) l op r) ∧ PathBased (.binaryOp l op r)

lemma matches_field (hside : literalSide l op r = some (.field name,op',lit))
    (heq : leaf.eval P (rowBody data) = evalPredicate P (.binaryOp l op r) vals (scanColumns schema)) :
    leaf.Matches P schema data vals l op r := by
  refine ⟨iff_of_true heq fun base segments op₂ lit₂ h' => ?_,pathBased_side hside trivial⟩
  cases hside.symm.trans h'

@[simp] lemma bool_beq_true (b : Bool) : (Value.bool b == .bool true) = b := by cases b <;> rfl

lemma evalBinop_empty (hop : op.isComparison = true) (v : Value) : evalBinop P .filter .empty op v = .bool false := by
  simp [evalBinop_comparison P hop]

/-- No comparison holds of a missing value. -/
lemma evalBinop_empty_and (v : Value) :
    (op.isComparison && (evalBinop P .filter .empty op v == .bool true)) = false := by
  cases hop : op.isComparison with
  | true => simp [evalBinop_empty hop]
  | false => rfl

lemma holds_not_comparison (hop : op.isComparison = false) (o : Ordering) : op.holds o = false := by
  cases op with
  | eq | neq | lt | gt | lte | gte => cases hop
  | _ => rfl

/-- An integer column, or a timestamp, against an integer. -/
lemma evalBinop_int (n m : Int64) :
    (op.isComparison && (evalBinop P .filter (.int n) op (.int m) == .bool true)) = op.holds (compare n.toInt m.toInt) ∧
    (op.isComparison && (evalBinop P .filter (.dateTime n) op (.int m) == .bool true)) =
      op.holds (compare n.toInt m.toInt) := by
  cases hop : op.isComparison with
  | true =>
    rw [evalBinop_number P (a := .int n) (b := .int m) rfl rfl hop,
      evalBinop_cross P (a := .dateTime n) (b := .int m) rfl rfl rfl rfl hop rfl]
    simp [numberCmp]
  | false => simp [holds_not_comparison hop]

lemma int_leaf (hP : P.LikeOnly) (h : Stored P schema data vals)
    (hb : buildIntLeaf (scanColumns schema) (.new schema) schema l op r = some leaf) :
    leaf.Matches P schema data vals l op r := by
  unfold buildIntLeaf at hb
  split at hb
  case h_2 => exact nomatch hb
  case h_1 name op' lit hside =>
    obtain ⟨i,hi,hb⟩ := bind_eq_some_iff.mp hb
    split_ifs at hb with ht
    obtain ⟨off,hoff,rfl⟩ := map_eq_some_iff.mp hb
    refine matches_field hside ?_
    rw [evalPredicate_number hP hside (.inl rfl)]
    have hcol : ∀ t, typeAt schema i = some t → t = .int ∨ t = .dateTime →
        (CompiledLeaf.int off (.of i) op' lit).eval P (rowBody data) =
          (op'.isComparison && (evalBinop P .filter (evalExpr P (.field name : Expr τ) vals (scanColumns schema)) op'
            (.int lit) == .bool true)) := by
      intro t ht hkind
      have hn : t.fixedSize = some 8 := by rcases hkind with rfl | rfl <;> rfl
      obtain ⟨hbyte,v,hv,-,⟨hnull,rfl⟩ | ⟨hnull,hheld⟩⟩ := h.namedColumn (τ := τ) hi ht
      · rw [hv,evalBinop_empty_and]
        simp [CompiledLeaf.eval,hnull]
      · obtain ⟨hlen,rfl⟩ := hheld.fixed_read hn hoff
        simp only [CompiledLeaf.eval,hnull,hlen,hbyte,hv]
        rcases hkind with rfl | rfl
        · exact (evalBinop_int _ _).1.symm
        · exact (evalBinop_int _ _).2.symm
    rcases ht with ht | ht
    · exact hcol _ ht (.inl rfl)
    · exact hcol _ ht (.inr rfl)

/-- A widened integer literal is the same number. -/
lemma exactWidened_spec {v : Int64} (h : exactWidened v = some w) :
    Binary64.isNaN w = false ∧ Binary64.isZero w = false ∧ Binary64.scaled w = v.toInt*Binary64.one := by
  unfold exactWidened at h
  dsimp only at h
  split_ifs at h with hv
  cases h
  obtain ⟨hv0,hcmp⟩ := hv
  have hnan : Binary64.isNaN (Binary64.ofInt v.toInt) = false := by
    cases hnan : Binary64.isNaN (Binary64.ofInt v.toInt) with
    | false => rfl
    | true => exact absurd hcmp (by simp [intF64Cmp,hnan])
  rw [intF64Cmp_eq v.le_toInt v.toInt_lt hnan,compare_eq_iff_eq] at hcmp
  refine ⟨hnan,?_,hcmp.symm⟩
  rw [← Bool.not_eq_true,← Binary64.scaled_eq_zero,← hcmp]
  intro hzero
  rcases Int.mul_eq_zero.mp hzero with hz | hz
  · exact hv0 (Int64.toInt_inj.mp hz)
  · exact one_pos.ne' hz

/-- A float column against a literal that compiles. -/
lemma evalBinop_float {f w : UInt64} (hlit : floatLiteral lit = some w) :
    (op.isComparison && (evalBinop P .filter (.float f) op lit.toValue == .bool true)) =
      if Binary64.isNaN f || Binary64.isNaN w then op == .neq else op.holds (Binary64.totalCmp f w) := by
  cases hop : op.isComparison with
  | false =>
    have hneq : (op == .neq) = false := by
      cases op with
      | eq | neq | lt | gt | lte | gte => cases hop
      | _ => rfl
    simp [hneq,holds_not_comparison hop]
  | true =>
    cases lit with
    | string s | bool b => cases hlit
    | float g =>
      obtain rfl := some.inj hlit
      split_ifs with hnan
      · have hnan' : ((Value.float f).isNaN || (Value.float g).isNaN) = true := hnan
        simp [evalBinop_comparison P hop,Literal.toValue,hnan']
      · rw [Bool.or_eq_true,not_or,Bool.not_eq_true,Bool.not_eq_true] at hnan
        rw [Literal.toValue,evalBinop_number P (by simp [isNumber,hnan.1]) (by simp [isNumber,hnan.2]) hop,bool_beq_true]
        rfl
    | int v =>
      obtain ⟨hnanw,hzw,hw⟩ := exactWidened_spec hlit
      rw [Bool.true_and,hnanw,Bool.or_false]
      split_ifs with hnan
      · have hnan' : (Value.float f).isNaN = true := hnan
        simp [evalBinop_comparison P hop,Literal.toValue,hnan']
      · rw [Bool.not_eq_true] at hnan
        rw [Literal.toValue,evalBinop_number P (by simp [isNumber,hnan]) rfl hop,bool_beq_true,numberCmp,
          intF64Cmp_eq v.le_toInt v.toInt_lt hnan,compare_swap,Binary64.totalCmp_eq_compare_scaled,hw]
        rintro ⟨-,hz⟩
        exact absurd (hz.symm.trans hzw) (by decide)

lemma float_leaf (hP : P.LikeOnly) (h : Stored P schema data vals)
    (hb : buildFloatLeaf (scanColumns schema) (.new schema) schema l op r = some leaf) :
    leaf.Matches P schema data vals l op r := by
  unfold buildFloatLeaf at hb
  split at hb
  case h_2 => exact nomatch hb
  case h_1 name op' lit hside =>
    obtain ⟨w,hw,hb⟩ := bind_eq_some_iff.mp hb
    obtain ⟨i,hi,hb⟩ := bind_eq_some_iff.mp hb
    split_ifs at hb with ht
    obtain ⟨off,hoff,rfl⟩ := map_eq_some_iff.mp hb
    have hnum : isNumber lit.toValue = true ∨ lit.toValue.isNaN = true := by
      cases lit with
      | int v => exact .inl rfl
      | float g => cases hg : Binary64.isNaN g <;> simp [Literal.toValue,isNumber,Value.isNaN]
      | _ => cases hw
    refine matches_field hside ?_
    rw [evalPredicate_number hP hside hnum]
    obtain ⟨hbyte,v,hv,-,⟨hnull,rfl⟩ | ⟨hnull,hheld⟩⟩ := h.namedColumn (τ := τ) hi ht
    · rw [hv,evalBinop_empty_and]
      simp [CompiledLeaf.eval,hnull]
    · obtain ⟨hlen,rfl⟩ := hheld.fixed_read rfl hoff
      simp only [CompiledLeaf.eval,hnull,hlen,hbyte,hv]
      exact (evalBinop_float hw).symm

lemma toUTF8_inj {s t : String} : s.toUTF8.data.toList = t.toUTF8.data.toList ↔ s = t := by
  constructor
  · intro h
    exact String.toByteArray_inj.mp (ByteArray.ext (Array.toList_inj.mp h))
  · rintro rfl
    rfl

lemma fromUtf8_eq_some : fromUtf8 b = some s ↔ s.toUTF8.data.toList = b := by
  constructor
  · intro h
    unfold fromUtf8 String.fromUTF8? at h
    split_ifs at h with hvalid
    cases h
    rfl
  · rintro rfl
    exact dif_pos s.isValidUTF8

lemma evalBinop_str (hop : op = .eq ∨ op = .neq) :
    (evalBinop P .filter (.str a) op (.str b) == .bool true) = ((a == b) != (op == .neq)) := by
  rw [beq_eq_decide a b]
  rcases hop with rfl | rfl
  · simp [evalBinop,Value.isNaN,crossTypeNumericCmp,valueEq,BinOp.isOrdering,
      show (BinOp.eq == .neq) = false from rfl]
  · simp [evalBinop,Value.isNaN,crossTypeNumericCmp,valueEq,BinOp.isOrdering]

lemma str_leaf (h : Stored P schema data vals)
    (hb : buildStrEqLeaf (scanColumns schema) (.new schema) schema l op r = some leaf) :
    leaf.Matches P schema data vals l op r := by
  unfold buildStrEqLeaf at hb
  split_ifs at hb with hop
  have hop : op = .eq ∨ op = .neq := by
    by_contra hnot
    exact hop (not_or.mp hnot)
  split at hb
  case h_2 => exact nomatch hb
  case h_1 name op' text hside =>
    obtain ⟨i,hi,hb⟩ := bind_eq_some_iff.mp hb
    split_ifs at hb with ht
    obtain ⟨slot,hslot,rfl⟩ := map_eq_some_iff.mp hb
    have hcmp : op.isComparison = true := by rcases hop with rfl | rfl <;> rfl
    have hop' : op' = op := by
      rcases literalSide_cases hside with ⟨-,-,h⟩ | ⟨-,-,h⟩
      · exact h
      · rw [h]
        rcases hop with rfl | rfl <;> rfl
    refine matches_field hside ?_
    rw [evalPredicate_literalSide hside hcmp,hop']
    obtain ⟨hbyte,v,hv,hget,⟨hnull,rfl⟩ | ⟨hnull,hheld⟩⟩ := h.namedColumn (τ := τ) hi ht
    · rw [hv,evalBinop_empty hcmp]
      simp [CompiledLeaf.eval,hnull]
    · obtain ⟨b,hbytes,rfl⟩ := hheld.var_read rfl hslot
      obtain ⟨s,hs⟩ : ∃ s, varValue .str b = .str s := ⟨_,rfl⟩
      rw [hs] at hget hv
      have htext := h.texts i slot b s hslot hbytes hget
      simp only [CompiledLeaf.eval,hnull,Bool.false_eq_true,if_false,hbyte,hbytes,hv]
      rw [Literal.toValue,evalBinop_str hop]
      congr 1
      rw [Bool.eq_iff_iff,beq_iff_eq,beq_iff_eq,← htext,toUTF8_inj]

/-! JSON paths. -/

/-- The value of the node a path leads to. -/
def nodeValue (node : Option Bytes) : Value := node.elim .empty pj1Scalarize

/-- Order of a scalar and a literal. -/
def scalarCmp : Value → Value → Option Ordering
  | .bool a,.bool b => some (compare a b)
  | .int a,.int b => some (compare a.toInt b.toInt)
  | .int a,.float b => some (intF64Cmp a.toInt b)
  | .float a,.float b => some (Binary64.totalCmp a b)
  | .float a,.int b => some (intF64Cmp b.toInt a).swap
  | .str a,.str b => some (compare a b)
  | _,_ => none

/-- The nodes that have a value, by their tags. -/
inductive NodeHolds (n : Bytes) : Value → Prop
  | no (h : n.head? = some 1) : NodeHolds n (.bool false)
  | yes (h : n.head? = some 2) : NodeHolds n (.bool true)
  | int (h : n.head? = some 3) (hlen : 9 ≤ n.length) : NodeHolds n (.int (nodeInt n))
  | float (h : n.head? = some 4) (hlen : 9 ≤ n.length) : NodeHolds n (.float (nodeFloat n))
  | text {s : String} (h : n.head? = some 5) (hs : jsonNodeText n = some s.toUTF8.data.toList) : NodeHolds n (.str s)
  | array (h : n.head? = some 6) : NodeHolds n (.json n)
  | object (h : n.head? = some 7) : NodeHolds n (.json n)

lemma pj1Scalarize_text (h : n.head? = some 5) :
    pj1Scalarize n = (((jsonNodeText n).bind fromUtf8).map Value.str).getD .empty := by
  unfold pj1Scalarize jsonNodeText readAt
  simp only [h]
  split_ifs with hlen
  · rw [bind_some]
    cases fromUtf8 ((n.drop 5).take (ofLeBytes ((n.drop 1).take 4))) <;> rfl
  · rfl

lemma nodeHolds (h : pj1Scalarize n ≠ .empty) : NodeHolds n (pj1Scalarize n) := by
  by_cases htext : n.head? = some 5
  · rw [pj1Scalarize_text htext] at h ⊢
    cases hs : (jsonNodeText n).bind fromUtf8 with
    | none => exact absurd (by rw [hs]; rfl) h
    | some s =>
      obtain ⟨b,hb,hs⟩ := bind_eq_some_iff.mp hs
      exact .text htext (by rw [hb,fromUtf8_eq_some.mp hs])
  revert h
  unfold pj1Scalarize
  split <;> rename_i hhead
  case h_1 => exact fun _ => .no hhead
  case h_2 => exact fun _ => .yes hhead
  case h_3 =>
    split_ifs with hlen
    · exact fun _ => .int hhead hlen
    · exact fun h => absurd rfl h
  case h_4 =>
    split_ifs with hlen
    · exact fun _ => .float hhead hlen
    · exact fun h => absurd rfl h
  case h_5 => exact absurd hhead htext
  case h_6 => exact fun _ => .array hhead
  case h_7 => exact fun _ => .object hhead
  case h_8 => exact fun h => absurd rfl h

lemma jsonNodeIsEmpty_eq (node : Option Bytes) : jsonNodeIsEmpty node = (nodeValue node).isEmpty := by
  cases node with
  | none => rfl
  | some n =>
    show jsonNodeIsEmpty (some n) = (pj1Scalarize n).isEmpty
    unfold jsonNodeIsEmpty
    dsimp only
    split <;> rename_i hhead
    case h_5 | h_6 => by_cases hlen : n.length < 9 <;> simp [pj1Scalarize,hhead,← Nat.not_lt,hlen,Value.isEmpty]
    case h_7 =>
      rw [pj1Scalarize_text hhead]
      cases (jsonNodeText n).bind fromUtf8 <;> rfl
    all_goals simp [pj1Scalarize,Value.isEmpty, *]

/-- On a node with a value the two comparisons of a leaf are one order. -/
lemma jsonScalar_eq (h : NodeHolds n v) (lit : Value) :
    jsonScalarCmp (some n) lit = scalarCmp v lit ∧ jsonScalarEq (some n) lit = (scalarCmp v lit == some .eq) := by
  cases h with
  | no h | yes h =>
    cases lit with
    | bool b => cases b <;> simp [jsonScalarCmp,jsonScalarEq,scalarCmp,h]
    | _ => simp [jsonScalarCmp,jsonScalarEq,scalarCmp,h]
  | int h hlen =>
    cases lit with
    | int i =>
      refine ⟨by simp [jsonScalarCmp,scalarCmp,h,hlen],?_⟩
      simp [jsonScalarEq,scalarCmp,h,hlen,Int64.toInt_inj]
    | _ => simp [jsonScalarCmp,jsonScalarEq,scalarCmp,h,hlen]
  | float h hlen => cases lit <;> simp [jsonScalarCmp,jsonScalarEq,scalarCmp,h,hlen]
  | text h hs =>
    cases lit with
    | str t =>
      simp only [jsonScalarCmp,jsonScalarEq,scalarCmp,h,hs,bind_some,fromUtf8_eq_some.mpr rfl]
      refine ⟨trivial,?_⟩
      rw [Bool.eq_iff_iff,beq_iff_eq,beq_iff_eq,some.injEq,some.injEq,toUTF8_inj,compare_eq_iff_eq]
    | _ => simp [jsonScalarCmp,jsonScalarEq,scalarCmp,h]
  | array h | object h => cases lit <;> simp [jsonScalarCmp,jsonScalarEq,scalarCmp,h]

/-- What a leaf says of a scalar and a literal. -/
def scalarHolds (v : Value) (op : BinOp) (lit : Value) : Bool := (scalarCmp v lit).elim (op == .neq) op.holds

lemma evalBinop_scalar_some (hop : op.isComparison = true) (hnan : v.isNaN = false)
    (hlit : lit.toValue.isNaN = false) (ho : scalarCmp v lit.toValue = some o) :
    evalBinop P .filter v op lit.toValue = .bool (op.holds o) := by
  cases lit with
  | int j =>
    cases v with
    | int i =>
      cases ho
      exact evalBinop_number P rfl rfl hop
    | float f =>
      cases ho
      exact evalBinop_cross P rfl rfl hnan rfl hop rfl
    | _ => cases ho
  | float g =>
    cases v with
    | int i =>
      cases ho
      exact evalBinop_cross P rfl rfl rfl hlit hop rfl
    | float f =>
      cases ho
      exact evalBinop_same P rfl rfl hnan hlit hop rfl rfl (valueEq_float P f g)
    | _ => cases ho
  | string t =>
    cases v with
    | str s =>
      cases ho
      refine evalBinop_same P rfl rfl rfl rfl hop rfl rfl ?_
      rw [Literal.toValue,valueEq,Bool.eq_iff_iff,decide_eq_true_eq,beq_iff_eq,Value.cmp,compare_eq_iff_eq,Value.str.injEq]
      all_goals simp
    | _ => cases ho
  | bool b =>
    cases v with
    | bool a =>
      cases ho
      exact evalBinop_same P rfl rfl rfl rfl hop rfl rfl (by cases a <;> cases b <;> rfl)
    | _ => cases ho

/-- A literal equals a value of another type only as the text of a document. -/
lemma valueEq_literal (ht : v.typeId ≠ lit.toValue.typeId) :
    valueEq P v lit.toValue = true ↔ ∃ doc text, v = .json doc ∧ lit = .string text ∧ P.parseJsonText text = some doc := by
  cases lit <;> cases v <;> first | exact absurd rfl ht | simp [valueEq,Literal.toValue]

lemma evalBinop_scalar_none (hv : NodeHolds n v) (hop : op.isComparison = true) (hnan : v.isNaN = false)
    (hlit : lit.toValue.isNaN = false) (ho : scalarCmp v lit.toValue = none) :
    (op == .neq) = (evalBinop P .filter v op lit.toValue == .bool true) ↔ ¬Clash P v op lit := by
  have hfacts : v.isEmpty = false ∧ lit.toValue.isEmpty = false ∧ crossTypeNumericCmp .filter v lit.toValue = none ∧
      v.typeId ≠ lit.toValue.typeId := by
    cases hv <;> cases lit <;>
      simp [Literal.toValue,scalarCmp,Value.isEmpty,crossTypeNumericCmp,Value.typeId] at ho ⊢
  obtain ⟨hv0,hl0,hcross,ht⟩ := hfacts
  have hve := valueEq_literal (P := P) ht
  simp only [evalBinop_comparison P hop,hv0,hl0,hnan,hlit,hcross,Bool.or_self,Bool.false_eq_true,if_false]
  cases op with
  | eq =>
    rw [show BinOp.isOrdering .eq = false from rfl,if_neg Bool.false_ne_true,bool_beq_true,Clash,← hve]
    cases valueEq P v lit.toValue <;> simp [BinOp.holds]
  | neq =>
    rw [show BinOp.isOrdering .neq = false from rfl,if_neg Bool.false_ne_true,bool_beq_true,Clash,← hve]
    cases valueEq P v lit.toValue <;> simp [BinOp.holds]
  | lt | gt | lte | gte =>
    rw [beq_eq_false_iff_ne.mpr ht]
    refine ⟨fun _ hclash => ?_,fun _ => rfl⟩
    rcases hclash.1 with h | h <;> cases h
  | _ => cases hop

/-- The comparison of a leaf, once the node has a value and the literal is not a NaN. -/
lemma jsonCompare_eq {lit : Value} (hv : NodeHolds n v) (hop : op.isComparison = true)
    (hempty : jsonNodeIsEmpty (some n) = false) (hlit : lit.isNaN = false) :
    jsonCompare (some n) op lit = scalarHolds v op lit := by
  obtain ⟨hcmp,heq⟩ := jsonScalar_eq hv lit
  unfold jsonCompare scalarHolds
  rw [hempty,hlit,hcmp,heq,if_neg Bool.false_ne_true,if_neg Bool.false_ne_true]
  cases op with
  | eq | neq => cases scalarCmp v lit <;> rfl
  | lt | gt | lte | gte => cases scalarCmp v lit <;> rfl
  | _ => cases hop

lemma jsonCompare_empty (h : jsonNodeIsEmpty node = true) (lit : Value) :
    jsonCompare node op lit = false := if_pos h

lemma jsonCompare_nan {lit : Value} (h : jsonNodeIsEmpty node = false) (hlit : lit.isNaN = true) :
    jsonCompare node op lit = (op == .neq) :=
  (if_neg (by rw [h]; exact Bool.false_ne_true)).trans (if_pos hlit)

lemma jsonCompare_iff (hop : op.isComparison = true) (hnan : (nodeValue node).isNaN = false) :
    jsonCompare node op lit.toValue = (evalBinop P .filter (nodeValue node) op lit.toValue == .bool true) ↔
      ¬Clash P (nodeValue node) op lit := by
  have hempty := jsonNodeIsEmpty_eq node
  cases hv : (nodeValue node).isEmpty with
  | true =>
    rw [hv] at hempty
    rw [Value.isEmpty_iff] at hv
    rw [hv,evalBinop_empty hop,jsonCompare_empty hempty]
    refine ⟨fun _ => ?_,fun _ => rfl⟩
    rintro ⟨-,_,_,hdoc,-⟩
    cases hdoc
  | false =>
    rw [hv] at hempty
    cases node with
    | none => cases hv
    | some n =>
      have hne : pj1Scalarize n ≠ .empty := by
        intro h
        rw [nodeValue,elim_some,h] at hv
        cases hv
      have hholds := nodeHolds hne
      rw [nodeValue,elim_some] at *
      cases hlit : lit.toValue.isNaN with
      | true =>
        have hl0 : lit.toValue.isEmpty = false := by cases lit <;> rfl
        rw [jsonCompare_nan hempty hlit,evalBinop_comparison P hop,hv,hl0,hlit,Bool.or_true]
        refine ⟨fun _ => ?_,fun _ => (bool_beq_true _).symm⟩
        rintro ⟨-,_,_,-,rfl,-⟩
        cases hlit
      | false =>
        rw [jsonCompare_eq hholds hop hempty hlit,scalarHolds]
        cases ho : scalarCmp (pj1Scalarize n) lit.toValue with
        | none => exact evalBinop_scalar_none hholds hop hnan hlit ho
        | some o =>
          rw [evalBinop_scalar_some hop hnan hlit ho]
          refine ⟨fun _ => ?_,fun _ => (bool_beq_true _).symm⟩
          rintro ⟨-,_,_,hdoc,rfl,-⟩
          rw [hdoc] at ho
          cases ho

lemma evalExpr_jsonPath :
    evalExpr P (.jsonPath e segments) vals columns = nodeValue (walkJsonPath P (evalExpr P e vals columns) segments) := by
  simp only [evalExpr,evalExprMode,eval]
  cases walkJsonPath P (eval P (rowNames vals columns) (fun _ => none) .filter e).value segments <;> rfl

lemma json_leaf (h : Stored P schema data vals)
    (hb : buildJsonLeaf (scanColumns schema) (.new schema) schema l op r = some leaf) :
    leaf.Matches P schema data vals l op r := by
  unfold buildJsonLeaf at hb
  split at hb
  case h_2 => exact nomatch hb
  case h_1 name segments op' lit hside =>
    split_ifs at hb with hop
    obtain ⟨i,hi,hb⟩ := bind_eq_some_iff.mp hb
    split_ifs at hb with ht
    obtain ⟨slot,hslot,rfl⟩ := map_eq_some_iff.mp hb
    have hclear : ClearOf P vals (scanColumns schema) l op r ↔
        ¬Clash P (evalExpr P (.jsonPath (.field name : Expr τ) segments) vals (scanColumns schema)) op' lit := by
      refine ⟨fun hclear => hclear _ _ _ _ hside,fun hclash base' segments' op₂ lit₂ hside' => ?_⟩
      cases hside.symm.trans hside'
      exact hclash
    refine ⟨?_,pathBased_side hside trivial⟩
    rw [hclear,evalPredicate_literalSide hside ((isComparison_literalSide hside).symm.trans hop)]
    have hnode : jsonLocateNode P (rowBody data) slot (.of i) segments =
          walkJsonPath P (evalExpr P (.field name : Expr τ) vals (scanColumns schema)) segments ∧
        (nodeValue (walkJsonPath P (evalExpr P (.field name : Expr τ) vals (scanColumns schema)) segments)).isNaN = false := by
      obtain ⟨hbyte,v,hv,hget,⟨hnull,rfl⟩ | ⟨hnull,hheld⟩⟩ := h.namedColumn (τ := τ) hi ht
      · rw [hv]
        exact ⟨by simp [jsonLocateNode,hnull,walkJsonPath],rfl⟩
      · obtain ⟨b,hbytes,rfl⟩ := hheld.var_read rfl hslot
        rw [hv]
        refine ⟨by simp [jsonLocateNode,hnull,hbyte,hbytes,walkJsonPath,varValue],?_⟩
        cases hwalk : walkJsonPath P (varValue .json b) segments with
        | none => rfl
        | some node => exact h.numbers i b segments node hget hwalk
    rw [evalExpr_jsonPath,← jsonCompare_iff hop hnode.2,CompiledLeaf.eval,hnode.1]

lemma HeldAt.isEmpty (h : HeldAt schema body i t v) (ht : t ≠ .empty) : v.isEmpty = false := by
  cases h with
  | fixed _ hn =>
    cases t with
    | int | float | bool | dateTime | uuid => rfl
    | _ => cases hn
  | var _ _ hn =>
    cases t with
    | str | bytes | json => rfl
    | empty => exact absurd rfl ht
    | _ => cases hn

/-- The null bit of a column says whether its value is missing. -/
lemma isNull_leaf (h : Stored P schema data vals) (hi : columnAt (scanColumns schema) name = some i) :
    (NullBit.of i).isSet (rowBody data) = (evalExpr P (.field name : Expr τ) vals (scanColumns schema)).isEmpty := by
  obtain ⟨c,hc⟩ := columnAt_scanColumns hi
  obtain ⟨v,hv,-,⟨hnull,rfl⟩ | ⟨hnull,hheld⟩⟩ := h.column hc
  · rw [evalExpr_field hi hv,hnull]
    rfl
  · rw [evalExpr_field hi hv,hnull,hheld.isEmpty (h.typed c (mem_of_getElem? hc))]

/-- A comparison that compiles is as true as its leaf exactly when it is clear. -/
lemma buildLeaf_iff (hP : P.LikeOnly) (h : Stored P schema data vals)
    (hb : buildLeaf (scanColumns schema) (.new schema) schema l op r = some leaf) :
    leaf.Matches P schema data vals l op r := by
  rw [buildLeaf,or_eq_some_iff,or_eq_some_iff,or_eq_some_iff] at hb
  rcases hb with hb | ⟨-,hb | ⟨-,hb | ⟨-,hb⟩⟩⟩
  · exact int_leaf hP h hb
  · exact float_leaf hP h hb
  · exact str_leaf h hb
  · exact json_leaf h hb

end leaves

end PowDB.Query
