import PowDB.Lib.Buckets
import PowDB.Query.Eval

/-! Joins of two materialized inputs: the nested loop over every pair of rows,
the hash join on an equality of the condition, and the join that carries the
row ids of its sources along. -/
namespace PowDB.Query
open Storage (Value)
open Lib List Option
variable {τ : Type}

/-- Rows under named columns. -/
structure Relation where
  columns : List OutputColumn
  rows : List (List Value)
  width : ∀ row ∈ rows, row.length = columns.length

/-- The joins of a plan; the planner turns a right outer join round. -/
inductive JoinKind
  | inner | leftOuter | cross
  deriving DecidableEq

inductive JoinError
  | joinLimitExceeded
  | nestedLoopPairLimitExceeded (left right limit : ℕ)
  deriving DecidableEq

def maxJoinRows : ℕ := 1000000

section Loop
variable {α β γ : Type} (limit : ℕ)
  {rows : List γ}

/-- Append an output row and check the number of rows. -/
def pushJoined (rows : List γ) (row : γ) : Except JoinError (List γ) :=
  if limit < rows.length+1 then .error .joinLimitExceeded else .ok (rows++[row])

/-- The candidates of one left row: the rows so far and whether one was kept. -/
def joinCandidates (combine : β → γ) (keep : γ → Bool) :
    List γ × Bool → List β → Except JoinError (List γ × Bool)
  | acc,[] => .ok acc
  | acc,r::rs =>
    if keep (combine r) then do
      let rows ← pushJoined limit acc.1 (combine r)
      joinCandidates combine keep (rows,true) rs
    else joinCandidates combine keep acc rs

/-- The loop over the left rows. A left join pads a row that nothing matched. -/
def joinLoop (kind : JoinKind) (combine : α → β → γ) (pad : α → γ) (keep : γ → Bool)
    (candidates : α → List β) (left : List α) : Except JoinError (List γ) :=
  left.foldlM (fun rows l => do
    let (rows,matched) ← joinCandidates limit (combine l) keep (rows,false) (candidates l)
    if !matched && kind == .leftOuter then pushJoined limit rows (pad l) else .ok rows) []

/-- The rows a loop adds for one left row. -/
def joinedRows (kind : JoinKind) (combine : α → β → γ) (pad : α → γ) (keep : γ → Bool)
    (candidates : α → List β) (l : α) : List γ :=
  let kept := ((candidates l).map (combine l)).filter keep
  if kept.isEmpty && kind == .leftOuter then [pad l] else kept

/-- Rows that passed every check of their number. -/
def limited (rows : List γ) : Except JoinError (List γ) :=
  if rows.length ≤ limit then .ok rows else .error .joinLimitExceeded

variable {limit} in
lemma limited_ok (h : rows.length ≤ limit) : limited limit rows = .ok rows :=
  if_pos h

variable {limit} in
lemma limited_over (h : ¬ rows.length ≤ limit) : limited limit rows = .error .joinLimitExceeded :=
  if_neg h

lemma append_over (h : ¬ rows.length ≤ limit) (more : List γ) : ¬ (rows++more).length ≤ limit := by
  rw [length_append]
  omega

lemma pushJoined_eq (rows : List γ) (row : γ) : pushJoined limit rows row = limited limit (rows++[row]) := by
  by_cases h : limit < rows.length+1
  · simp [pushJoined,limited,h,Nat.not_le.mpr h]
  · simp [pushJoined,limited,h,Nat.not_lt.mp h]

lemma joinCandidates_eq (combine : β → γ) (keep : γ → Bool) (rs : List β) :
    ∀ (rows : List γ) (matched : Bool), rows.length ≤ limit →
    joinCandidates limit combine keep (rows,matched) rs =
      (limited limit (rows++(rs.map combine).filter keep)).bind
        (fun out => .ok (out,matched || !((rs.map combine).filter keep).isEmpty)) := by
  induction rs with
  | nil =>
    intro rows matched hrows
    simp [joinCandidates,limited_ok hrows,Except.bind]
  | cons r rs ih =>
    intro rows matched hrows
    simp only [joinCandidates,map_cons,filter_cons]
    by_cases hk : keep (combine r)
    · rw [if_pos hk,if_pos hk,pushJoined_eq,append_cons _ _ (filter _ _)]
      by_cases hl : (rows++[combine r]).length ≤ limit
      · rw [limited_ok hl]
        simpa [bind,Except.bind] using ih _ true hl
      · rw [limited_over hl,limited_over (append_over limit hl _)]
        rfl
    · rw [if_neg hk,if_neg hk]
      exact ih rows matched hrows

/-- One left row adds exactly its joined rows. -/
lemma joinRow_eq (kind : JoinKind) (combine : α → β → γ) (pad : α → γ) (keep : γ → Bool) (candidates : α → List β)
    (hrows : rows.length ≤ limit) (l : α) : (do
      let (rows,matched) ← joinCandidates limit (combine l) keep (rows,false) (candidates l)
      if !matched && kind == .leftOuter then pushJoined limit rows (pad l) else .ok rows) =
    limited limit (rows++joinedRows kind combine pad keep candidates l) := by
  rw [joinCandidates_eq limit _ _ _ _ _ hrows]
  simp only [joinedRows]
  cases ((candidates l).map (combine l)).filter keep with
  | nil =>
    rw [append_nil,limited_ok hrows]
    cases kind with
    | leftOuter => exact pushJoined_eq limit rows (pad l)
    | inner | cross => simp [limited_ok hrows,bind,Except.bind]
  | cons k kept =>
    simp only [isEmpty_cons,Bool.false_and,Bool.false_eq_true,if_false]
    cases limited limit (rows++k::kept) <;> simp [bind,Except.bind]

lemma joinLoop_eq (kind : JoinKind) (combine : α → β → γ) (pad : α → γ) (keep : γ → Bool) (candidates : α → List β)
    (left : List α) : joinLoop limit kind combine pad keep candidates left =
      limited limit (left.flatMap (joinedRows kind combine pad keep candidates)) := by
  suffices h : ∀ rows : List γ, rows.length ≤ limit →
      left.foldlM (fun rows l => do
        let (rows,matched) ← joinCandidates limit (combine l) keep (rows,false) (candidates l)
        if !matched && kind == .leftOuter then pushJoined limit rows (pad l) else .ok rows) rows =
      limited limit (rows++left.flatMap (joinedRows kind combine pad keep candidates)) by
    simpa [joinLoop] using h [] (Nat.zero_le _)
  induction left with
  | nil =>
    intro rows hrows
    simp [limited_ok hrows,pure,Except.pure]
  | cons l left ih =>
    intro rows hrows
    rw [foldlM_cons,joinRow_eq limit kind combine pad keep candidates hrows,flatMap_cons,
      ← append_assoc]
    by_cases hl : (rows++joinedRows kind combine pad keep candidates l).length ≤ limit
    · rw [limited_ok hl]
      exact ih _ hl
    · rw [limited_over hl,limited_over (append_over limit hl _)]
      rfl


lemma mem_joinedRows_of_keep (kind : JoinKind)
    (hr : r ∈ candidates l) (hkeep : keep (combine l r)) :
    combine l r ∈ joinedRows kind combine pad keep candidates l := by
  have hmem : combine l r ∈ ((candidates l).map (combine l)).filter keep :=
    mem_filter.mpr ⟨mem_map_of_mem hr,hkeep⟩
  simp only [joinedRows]
  rw [if_neg]
  · exact hmem
  · rw [isEmpty_eq_false_iff.mpr (ne_nil_of_mem hmem)]
    simp

lemma mem_joinedRows
    (h : row ∈ joinedRows kind combine pad keep candidates l) :
    row = pad l ∨ ∃ r ∈ candidates l, row = combine l r := by
  simp only [joinedRows] at h
  split_ifs at h
  · exact .inl (mem_singleton.mp h)
  · obtain ⟨r,hr,rfl⟩ := mem_map.mp (mem_filter.mp h).1
    exact .inr ⟨r,hr,rfl⟩

end Loop

section Keys

/-- The conjuncts of a condition, left to right. -/
def flattenConjunctions : Expr τ → List (Expr τ)
  | .binaryOp l .and r => flattenConjunctions l++flattenConjunctions r
  | e => [e]

/-- Column of one side that an operand names. -/
def resolveSideColumn (e : Expr τ) (columns : List OutputColumn) : Option ℕ :=
  match e with
  | .qualifiedField (.named a) f => columns.findIdx? (· == ⟨some a,f⟩)
  | .field name => resolveColumnIndex name columns
  | _ => none

/-- The key columns of an equality between the two sides, either way round. -/
def tryExtractEquiJoinKeys (pred : Expr τ) (left right : List OutputColumn) : Option (ℕ × ℕ) :=
  match pred with
  | .binaryOp lhs .eq rhs =>
    match resolveSideColumn lhs left,resolveSideColumn rhs right with
    | some li,some ri => some (li,ri)
    | _,_ =>
      match resolveSideColumn rhs left,resolveSideColumn lhs right with
      | some li,some ri => some (li,ri)
      | _,_ => none
  | _ => none

structure HashJoinSpec (τ : Type) where
  leftKeyIdx : ℕ
  rightKeyIdx : ℕ
  residuals : List (Expr τ)

/-- The first conjunct that gives keys, with the others as residuals. -/
def extractFrom (left right : List OutputColumn) :
    List (Expr τ) → List (Expr τ) → Option (HashJoinSpec τ)
  | _,[] => none
  | before,c::cs =>
    match tryExtractEquiJoinKeys c left right with
    | some (li,ri) => some ⟨li,ri,before++cs⟩
    | none => extractFrom left right (before++[c]) cs

def tryExtractHashJoin (pred : Expr τ) (left right : List OutputColumn) : Option (HashJoinSpec τ) :=
  extractFrom left right [] (flattenConjunctions pred)

end Keys

section Joins
variable (P : Prims)

def padRow (width : ℕ) (row : List Value) : List Value :=
  row++List.replicate (width-row.length) .empty

def residualsHold (residuals : List (Expr τ)) (columns : List OutputColumn) (row : List Value) : Bool :=
  residuals.all (fun e => evalJoinPredicate P e row columns)

/-- Rows matched by their key values, then by the residuals. -/
def hashJoin (left right : Relation) (spec : HashJoinSpec τ) (kind : JoinKind) :
    Except JoinError (List (List Value)) :=
  let columns := left.columns++right.columns
  let build := buckets (fun row : List Value => row[spec.rightKeyIdx]?) right.rows
  joinLoop maxJoinRows kind (·++·) (padRow columns.length)
    (residualsHold P spec.residuals columns) (fun l => bucket build l[spec.leftKeyIdx]?) left.rows

def checkNestedLoopPairLimit (left right pairLimit : ℕ) : Except JoinError Unit :=
  if pairLimit < left*right then .error (.nestedLoopPairLimitExceeded left right pairLimit) else .ok ()

/-- Whether a nested loop keeps a pair. -/
def keepPair (kind : JoinKind) (on : Option (Expr τ)) (columns : List OutputColumn)
    (row : List Value) : Bool :=
  match kind,on with
  | .cross,_ | _,none => true
  | _,some pred => evalJoinPredicate P pred row columns

def nestedLoopJoin (left right : Relation) (on : Option (Expr τ)) (kind : JoinKind) (pairLimit : ℕ) :
    Except JoinError (List (List Value)) := do
  checkNestedLoopPairLimit left.rows.length right.rows.length pairLimit
  let columns := left.columns++right.columns
  joinLoop maxJoinRows kind (·++·) (padRow columns.length) (keepPair P kind on columns)
    (fun _ => right.rows) left.rows

/-- The hash join a plan can use, if any. -/
def hashSpec (left right : List OutputColumn) (on : Option (Expr τ)) (kind : JoinKind) :
    Option (HashJoinSpec τ) :=
  if kind = .cross then none else on.bind (tryExtractHashJoin · left right)

def executeMaterializedJoin (left right : Relation) (on : Option (Expr τ)) (kind : JoinKind)
    (pairLimit : ℕ) : Except JoinError (List (List Value)) :=
  match hashSpec left.columns right.columns on kind with
  | some spec => hashJoin P left right spec kind
  | none => nestedLoopJoin P left right on kind pairLimit

/-- Rows with the row id each source contributed. -/
structure ProvenanceRows where
  columns : List OutputColumn
  sourceAliases : List String
  rows : List (List Value × List (Option Storage.RowId))
  width : ∀ row ∈ rows, row.1.length = columns.length

def ProvenanceRows.relation (p : ProvenanceRows) : Relation where
  columns := p.columns
  rows := p.rows.map Prod.fst
  width := by
    intro row hrow
    obtain ⟨r,hr,rfl⟩ := List.mem_map.mp hrow
    exact p.width r hr

def executeProvenanceJoin (left right : ProvenanceRows) (on : Option (Expr τ)) (kind : JoinKind)
    (pairLimit : ℕ) : Except JoinError (List (List Value × List (Option Storage.RowId))) := do
  let columns := left.columns++right.columns
  let combine := fun l r : List Value × List (Option Storage.RowId) => (l.1++r.1,l.2++r.2)
  let pad := fun l : List Value × List (Option Storage.RowId) =>
    (padRow columns.length l.1,l.2++List.replicate right.sourceAliases.length none)
  match hashSpec left.columns right.columns on kind with
  | some spec =>
    let build := buckets (fun row : List Value × List (Option Storage.RowId) =>
      row.1[spec.rightKeyIdx]?) right.rows
    joinLoop maxJoinRows kind combine pad
      (fun row => residualsHold P spec.residuals columns row.1)
      (fun l => bucket build l.1[spec.leftKeyIdx]?) left.rows
  | none =>
    checkNestedLoopPairLimit left.rows.length right.rows.length pairLimit
    joinLoop maxJoinRows kind combine pad (fun row => keepPair P kind on columns row.1)
      (fun _ => right.rows) left.rows

end Joins

section Provenance
variable {α α' β β' γ γ' : Type}

/-- Forgetting a part of the rows commutes with a loop that does not read it. -/
lemma map_joinLoop (limit : ℕ) (kind : JoinKind)
    (f : α' → α) (g : β' → β) (h : γ' → γ)
    (hcombine : ∀ l r, h (combine' l r) = combine (f l) (g r)) (hpad : ∀ l, h (pad' l) = pad (f l))
    (hkeep : ∀ row, keep' row = keep (h row)) (hcand : ∀ l, (candidates' l).map g = candidates (f l))
    (left : List α') : (joinLoop limit kind combine' pad' keep' candidates' left).map (List.map h) =
      joinLoop limit kind combine pad keep candidates (left.map f) := by
  have hrow : ∀ l, (joinedRows kind combine' pad' keep' candidates' l).map h =
      joinedRows kind combine pad keep candidates (f l) := by
    intro l
    have hkept : (((candidates' l).map (combine' l)).filter keep').map h =
        ((candidates (f l)).map (combine (f l))).filter keep := by
      have hfilter : keep' = keep ∘ h := funext hkeep
      rw [hfilter,← hcand,← List.filter_map,List.map_map,List.map_map]
      simp [Function.comp_def,hcombine]
    simp only [joinedRows,← hkept]
    cases ((candidates' l).map (combine' l)).filter keep' with
    | nil => cases kind <;> simp [hpad]
    | cons k kept => simp
  rw [joinLoop_eq,joinLoop_eq,flatMap_map]
  simp only [← hrow,← map_flatMap]
  simp only [limited,length_map]
  split_ifs <;> rfl

lemma executeProvenanceJoin_rows (P : Prims) (left right : ProvenanceRows) (on : Option (Expr τ)) (kind : JoinKind)
    (pairLimit : ℕ) : (executeProvenanceJoin P left right on kind pairLimit).map (List.map Prod.fst) =
      executeMaterializedJoin P left.relation right.relation on kind pairLimit := by
  simp only [executeProvenanceJoin,executeMaterializedJoin,ProvenanceRows.relation]
  cases hashSpec left.columns right.columns on kind with
  | some spec =>
    refine map_joinLoop _ _ Prod.fst Prod.fst Prod.fst ?_ ?_ ?_ ?_ _
    · intros; rfl
    · intros; rfl
    · intros; rfl
    · intro l
      rw [bucket_buckets,bucket_buckets,List.filter_map]
      rfl
  | none =>
    simp only [nestedLoopJoin,checkNestedLoopPairLimit,length_map]
    split_ifs
    · rfl
    · refine map_joinLoop _ _ Prod.fst Prod.fst Prod.fst ?_ ?_ ?_ ?_ _ <;> intros <;> rfl

end Provenance

section Condition
variable (P : Prims)

lemma evalBinop_join_and (a b : Value) :
    evalBinop P .join a .and b = .bool (a == .bool true && b == .bool true) := by
  have hbool : ∀ x y : Bool, (Value.bool x == Value.bool y) = (x == y) := by decide
  cases a with
  | bool x =>
    cases b with
    | bool y => simp [evalBinop,BinOp.isComparison,hbool]
    | _ => simp [evalBinop,BinOp.isComparison]
  | _ => simp [evalBinop,BinOp.isComparison]

lemma evalJoinPredicate_and (l r : Expr τ) (row : List Value) (columns : List OutputColumn) :
    evalJoinPredicate P (.binaryOp l .and r) row columns =
      (evalJoinPredicate P l row columns && evalJoinPredicate P r row columns) := by
  have hbool : ∀ x : Bool, (Value.bool x == Value.bool true) = x := by decide
  simp only [evalJoinPredicate,evalPredicateMode,evalExprMode,eval,Evaluated.of_value,
    evalBinop_join_and,hbool]

lemma evalJoinPredicate_flatten (e : Expr τ) (row : List Value) (columns : List OutputColumn) :
    evalJoinPredicate P e row columns =
      (flattenConjunctions e).all (fun c => evalJoinPredicate P c row columns) := by
  fun_induction flattenConjunctions e with
  | case1 l r ihl ihr => rw [evalJoinPredicate_and,all_append,ihl,ihr]
  | case2 e => simp

/-- Values of different types that the condition of a join takes for equal. -/
def looseMatch : Value → Value → Bool
  | .dateTime a,.int b => a == b
  | .int a,.dateTime b => a == b
  | .json doc,.str text => P.parseJsonText text == some doc
  | .str text,.json doc => P.parseJsonText text == some doc
  | _,_ => false

lemma evalBinop_join_eq (a b : Value) :
    evalBinop P .join a .eq b = .bool (decide (a = b) || looseMatch P a b) := by
  cases a <;> cases b <;>
    simp [evalBinop,BinOp.isComparison,BinOp.holds,crossTypeNumericCmp,valueEq,looseMatch,
      Int64.toInt_inj]

lemma looseMatch_comm (a b : Value) : looseMatch P a b = looseMatch P b a := by
  cases a <;> cases b <;> simp [looseMatch,eq_comm]

lemma looseMatch_ne (h : looseMatch P a b = true) : a ≠ b ∧ b ≠ .empty := by
  cases a <;> cases b <;> simp_all [looseMatch]

/-- A value of a row, by position. -/
def keyOf (row : List Value) (i : ℕ) : Value := row[i]?.getD .empty

/-- A name that at most one side of a join has. -/
def OneSided (e : Expr τ) (left right : List OutputColumn) : Prop :=
  resolveSideColumn e left = none ∨ resolveSideColumn e right = none

lemma resolveSideColumn_append (e : Expr τ) (left right : List OutputColumn) (hone : OneSided e left right) :
    resolveSideColumn e (left++right) =
      (resolveSideColumn e left).or ((resolveSideColumn e right).map (·+left.length)) := by
  cases e with
  | field name =>
    simp only [OneSided,resolveSideColumn,resolveColumnIndex,or_eq_none_iff] at hone
    simp only [resolveSideColumn,resolveColumnIndex,findIdx?_append]
    rcases hone with ⟨hexact,hsuffix⟩ | ⟨hexact,hsuffix⟩
    · rw [hexact,hsuffix]
      cases right.findIdx? (· == ⟨none,name⟩) <;> simp
    · rw [hexact,hsuffix]
      simp
  | qualifiedField q f =>
    cases q with
    | named a => simp [resolveSideColumn]
    | outer a => rfl
  | _ => rfl

lemma resolveSideColumn_lt
    (h : resolveSideColumn e columns = some i) : i < columns.length := by
  cases e with
  | field name =>
    simp only [resolveSideColumn,resolveColumnIndex,or_eq_some_iff] at h
    rcases h with h | ⟨-,h⟩
    · exact (findIdx?_eq_some_iff_getElem.mp h).1
    · exact (findIdx?_eq_some_iff_getElem.mp h).1
  | qualifiedField q f =>
    cases q with
    | named a => exact (findIdx?_eq_some_iff_getElem.mp h).1
    | outer a => simp [resolveSideColumn] at h
  | _ => simp [resolveSideColumn] at h

lemma evalExprMode_operand
    (h : resolveSideColumn e columns = some i) (row : List Value) (mode : CmpMode) :
    evalExprMode P e row columns mode = keyOf row i := by
  cases e with
  | field name => simp [evalExprMode,eval,rowNames,keyOf,show resolveColumnIndex name columns = some i from h]
  | qualifiedField q f =>
    cases q with
    | named a =>
      have hidx : columns.findIdx? (· == ⟨some a,f⟩) = some i := h
      simp [evalExprMode,eval,rowNames,keyOf,hidx]
    | outer a => simp [resolveSideColumn] at h
  | _ => simp [resolveSideColumn] at h

section Pair

lemma operand_left (hone : OneSided e left right) (h : resolveSideColumn e left = some i)
    (hl : l.length = left.length) : evalExprMode P e (l++r) (left++right) .join = keyOf l i := by
  have hres : resolveSideColumn e (left++right) = some i := by
    rw [resolveSideColumn_append e left right hone,h]
    rfl
  rw [evalExprMode_operand P hres,keyOf,keyOf,getElem?_append_left]
  rw [hl]
  exact resolveSideColumn_lt h

lemma operand_right (hone : OneSided e left right) (h : resolveSideColumn e right = some i)
    (hl : l.length = left.length) : evalExprMode P e (l++r) (left++right) .join = keyOf r i := by
  have hleft : resolveSideColumn e left = none := by
    rcases hone with hnone | hnone
    · exact hnone
    · simp [hnone] at h
  have hres : resolveSideColumn e (left++right) = some (i+left.length) := by
    rw [resolveSideColumn_append e left right hone,h,hleft]
    rfl
  rw [evalExprMode_operand P hres,keyOf,keyOf,getElem?_append_right (by omega)]
  simp [hl]

/-- On a pair of rows the key equality holds of equal keys and of loose matches. -/
lemma evalJoinPredicate_key
    (hkeys : tryExtractEquiJoinKeys (.binaryOp lhs .eq rhs) left right = some (li,ri))
    (hlhs : OneSided lhs left right) (hrhs : OneSided rhs left right) (hl : l.length = left.length) :
    evalJoinPredicate P (.binaryOp lhs .eq rhs) (l++r) (left++right) =
      (decide (keyOf l li = keyOf r ri) || looseMatch P (keyOf l li) (keyOf r ri)) := by
  have hbool : ∀ x : Bool, (Value.bool x == Value.bool true) = x := by decide
  have heval : evalJoinPredicate P (.binaryOp lhs .eq rhs) (l++r) (left++right) =
      (decide (evalExprMode P lhs (l++r) (left++right) .join = evalExprMode P rhs (l++r) (left++right) .join) ||
        looseMatch P (evalExprMode P lhs (l++r) (left++right) .join)
          (evalExprMode P rhs (l++r) (left++right) .join)) := by
    simp only [evalJoinPredicate,evalPredicateMode,evalExprMode,eval,Evaluated.of_value,
      evalBinop_join_eq,hbool]
    rfl
  rw [heval]
  simp only [tryExtractEquiJoinKeys] at hkeys
  split at hkeys
  · rename_i hli hri
    cases hkeys
    rw [operand_left P hlhs hli hl,operand_right P hrhs hri hl]
  · split at hkeys
    · rename_i hli hri
      cases hkeys
      rw [operand_left P hrhs hli hl,operand_right P hlhs hri hl,looseMatch_comm,
        decide_eq_decide.mpr eq_comm]
    · cases hkeys

end Pair

/-- The conjunct whose operands are the hash keys. -/
def hashConjunct (on : Expr τ) (left right : List OutputColumn) : Option (Expr τ) :=
  (flattenConjunctions on).find? (fun c => (tryExtractEquiJoinKeys c left right).isSome)

lemma extractFrom_spec :
    ∀ {before : List (Expr τ)} {spec : HashJoinSpec τ}, extractFrom left right before cs = some spec →
    ∃ c, cs.find? (fun c => (tryExtractEquiJoinKeys c left right).isSome) = some c ∧
      tryExtractEquiJoinKeys c left right = some (spec.leftKeyIdx,spec.rightKeyIdx) ∧
      ∀ p : Expr τ → Bool, (before++cs).all p = (p c && spec.residuals.all p) := by
  induction cs with
  | nil =>
    intro before spec h
    simp [extractFrom] at h
  | cons c cs ih =>
    intro before spec h
    simp only [extractFrom] at h
    cases hc : tryExtractEquiJoinKeys c left right with
    | some keys =>
      rw [hc] at h
      cases h
      refine ⟨c,by simp [hc],hc,?_⟩
      intro p
      simp only [all_append,all_cons]
      cases before.all p <;> cases p c <;> simp
    | none =>
      rw [hc] at h
      obtain ⟨d,hfind,hkeys,hall⟩ := ih h
      refine ⟨d,by simp [hc,hfind],hkeys,?_⟩
      intro p
      rw [← hall,append_assoc,singleton_append]

end Condition

section Equivalence
variable (P : Prims)

/-- The operands of the hash key name columns of one side each. -/
def KeyOneSided (on : Expr τ) (left right : List OutputColumn) : Prop :=
  ∀ lhs rhs, hashConjunct on left right = some (.binaryOp lhs .eq rhs) →
    OneSided lhs left right ∧ OneSided rhs left right

/-- No pair of rows that meets the residuals has keys that match loosely. -/
def StrictKeys (left right : Relation) (spec : HashJoinSpec τ) : Prop :=
  ∀ l ∈ left.rows, ∀ r ∈ right.rows,
    looseMatch P (keyOf l spec.leftKeyIdx) (keyOf r spec.rightKeyIdx) = true →
    residualsHold P spec.residuals (left.columns++right.columns) (l++r) = false

variable {P} {left right : Relation} {on : Expr τ} {spec : HashJoinSpec τ}

section
variable (hspec : tryExtractHashJoin on left.columns right.columns = some spec)
include hspec

/-- The condition on a pair: keys equal or loosely matching, and the residuals. -/
lemma evalJoinPredicate_pair
    (hone : KeyOneSided on left.columns right.columns) (hl : l ∈ left.rows) (r : List Value) :
    evalJoinPredicate P on (l++r) (left.columns++right.columns) =
      ((decide (keyOf l spec.leftKeyIdx = keyOf r spec.rightKeyIdx) ||
          looseMatch P (keyOf l spec.leftKeyIdx) (keyOf r spec.rightKeyIdx)) &&
        residualsHold P spec.residuals (left.columns++right.columns) (l++r)) := by
  obtain ⟨c,hfind,hkeys,hall⟩ := extractFrom_spec hspec
  have hsplit := hall (fun e => evalJoinPredicate P e (l++r) (left.columns++right.columns))
  rw [nil_append] at hsplit
  rw [evalJoinPredicate_flatten,hsplit]
  cases c with
  | binaryOp lhs op rhs =>
    cases op with
    | eq =>
      obtain ⟨hlhs,hrhs⟩ := hone lhs rhs hfind
      rw [evalJoinPredicate_key P hkeys hlhs hrhs (left.width l hl),residualsHold]
    | _ => simp [tryExtractEquiJoinKeys] at hkeys
  | _ => simp [tryExtractEquiJoinKeys] at hkeys

lemma keys_lt :
    spec.leftKeyIdx < left.columns.length ∧ spec.rightKeyIdx < right.columns.length := by
  obtain ⟨c,-,hkeys,-⟩ := extractFrom_spec hspec
  simp only [tryExtractEquiJoinKeys] at hkeys
  split at hkeys
  · split at hkeys
    · rename_i hli hri
      cases hkeys
      exact ⟨resolveSideColumn_lt hli,resolveSideColumn_lt hri⟩
    · split at hkeys
      · rename_i hli hri
        cases hkeys
        exact ⟨resolveSideColumn_lt hli,resolveSideColumn_lt hri⟩
      · cases hkeys
  · cases hkeys

lemma getElem?_eq_iff_keyOf
    (hl : l ∈ left.rows) (hr : r ∈ right.rows) :
    r[spec.rightKeyIdx]? = l[spec.leftKeyIdx]? ↔ keyOf l spec.leftKeyIdx = keyOf r spec.rightKeyIdx := by
  obtain ⟨hli,hri⟩ := keys_lt hspec
  rw [← left.width l hl] at hli
  rw [← right.width r hr] at hri
  simp [keyOf,getElem?_eq_getElem hli,getElem?_eq_getElem hri,eq_comm]

end

/-- The rows each join adds for one left row. -/
lemma hashJoin_eq (kind : JoinKind) :
    hashJoin P left right spec kind = limited maxJoinRows (left.rows.flatMap (joinedRows kind (·++·)
      (padRow (left.columns++right.columns).length)
      (residualsHold P spec.residuals (left.columns++right.columns))
      (fun l => right.rows.filter (fun r => decide (r[spec.rightKeyIdx]? = l[spec.leftKeyIdx]?))))) := by
  simp only [hashJoin,bucket_buckets]
  apply joinLoop_eq

lemma nestedLoopJoin_ok (hkind : kind ≠ .cross)
    (h : nestedLoopJoin P left right (some on) kind pairLimit = .ok rows) :
    limited maxJoinRows (left.rows.flatMap (joinedRows kind (·++·)
      (padRow (left.columns++right.columns).length)
      (fun row => evalJoinPredicate P on row (left.columns++right.columns)) (fun _ => right.rows))) =
      .ok rows := by
  have hkeep : keepPair P kind (some on) (left.columns++right.columns) =
      fun row => evalJoinPredicate P on row (left.columns++right.columns) := by
    cases kind with
    | cross => exact absurd rfl hkind
    | _ => rfl
  simp only [nestedLoopJoin,checkNestedLoopPairLimit,hkeep] at h
  split_ifs at h
  · cases h
  · rw [← joinLoop_eq]
    exact h

/-- Without loose matches the bucket of a row, cut down by the residuals, is what
the whole condition keeps. -/
lemma joinedRows_strict (hspec : tryExtractHashJoin on left.columns right.columns = some spec)
    (hone : KeyOneSided on left.columns right.columns) (hstrict : StrictKeys P left right spec) (kind : JoinKind)
    (pad : List Value → List Value) (hl : l ∈ left.rows) :
    joinedRows kind (·++·) pad (residualsHold P spec.residuals (left.columns++right.columns))
      (fun l => right.rows.filter (fun r => decide (r[spec.rightKeyIdx]? = l[spec.leftKeyIdx]?))) l =
    joinedRows kind (·++·) pad
      (fun row => evalJoinPredicate P on row (left.columns++right.columns)) (fun _ => right.rows) l := by
  have hfilter : ∀ r ∈ right.rows,
      (residualsHold P spec.residuals (left.columns++right.columns) (l++r) &&
        decide (r[spec.rightKeyIdx]? = l[spec.leftKeyIdx]?)) =
      evalJoinPredicate P on (l++r) (left.columns++right.columns) := by
    intro r hr
    rw [evalJoinPredicate_pair hspec hone hl r,decide_eq_decide.mpr (getElem?_eq_iff_keyOf hspec hl hr)]
    cases hloose : looseMatch P (keyOf l spec.leftKeyIdx) (keyOf r spec.rightKeyIdx) with
    | false => rw [Bool.or_false,Bool.and_comm]
    | true =>
      rw [hstrict l hl r hr hloose]
      simp
  simp only [joinedRows,List.filter_map,List.filter_filter,Function.comp_def]
  rw [List.filter_congr hfilter]

/-- A hash join that gives the rows of the nested loop has no loose match: its
rows have equal keys, or are padded and miss the right key. -/
lemma strictKeys_of_same_rows (hspec : tryExtractHashJoin on left.columns right.columns = some spec)
    (hone : KeyOneSided on left.columns right.columns) (hkind : kind ≠ .cross)
    (hloop : nestedLoopJoin P left right (some on) kind pairLimit = .ok rows)
    (hhash : hashJoin P left right spec kind = .ok rows) : StrictKeys P left right spec := by
  intro l hl r hr hloose
  by_contra hres
  rw [Bool.not_eq_false] at hres
  have hpair : evalJoinPredicate P on (l++r) (left.columns++right.columns) = true := by
    rw [evalJoinPredicate_pair hspec hone hl r,hloose,hres]
    simp
  have hok : ∀ {xs : List (List Value)}, limited maxJoinRows xs = .ok rows → xs = rows := by
    intro xs h
    simp only [limited] at h
    split_ifs at h
    exact Except.ok.inj h
  have hmem : l++r ∈ rows := by
    rw [← hok (nestedLoopJoin_ok hkind hloop)]
    exact mem_flatMap.mpr ⟨l,hl,mem_joinedRows_of_keep kind hr hpair⟩
  rw [hashJoin_eq] at hhash
  rw [← hok hhash] at hmem
  obtain ⟨l',hl',hrow⟩ := mem_flatMap.mp hmem
  have hlen : l.length = l'.length := by rw [left.width l hl,left.width l' hl']
  obtain ⟨hne,hempty⟩ := looseMatch_ne P hloose
  rcases mem_joinedRows hrow with hpad | ⟨r',hr',heq⟩
  · obtain ⟨-,rfl⟩ := append_inj hpad hlen
    apply hempty
    simp only [keyOf,getElem?_replicate]
    split_ifs <;> rfl
  · obtain ⟨rfl,rfl⟩ := append_inj heq hlen
    obtain ⟨hr',hkey⟩ := mem_filter.mp hr'
    exact hne ((getElem?_eq_iff_keyOf hspec hl hr').mp (of_decide_eq_true hkey))

/-- The hash join and the join with row ids give the rows of the nested loop, in
its order, exactly when no pair of rows with loosely matching keys meets the
residuals. -/
theorem hashJoin_same_rows_iff (P : Prims) (left right : Relation) (on : Expr τ) (kind : JoinKind)
    (pairLimit : ℕ) (hkind : kind ≠ .cross) {spec : HashJoinSpec τ}
    (hspec : tryExtractHashJoin on left.columns right.columns = some spec)
    (hone : KeyOneSided on left.columns right.columns) {rows : List (List Value)}
    (hloop : nestedLoopJoin P left right (some on) kind pairLimit = .ok rows) :
    (executeMaterializedJoin P left right (some on) kind pairLimit = .ok rows ∧
      ∀ l r : ProvenanceRows, l.relation = left → r.relation = right →
        (executeProvenanceJoin P l r (some on) kind pairLimit).map (List.map Prod.fst) = .ok rows) ↔
    StrictKeys P left right spec := by
  have hplan : hashSpec left.columns right.columns (some on) kind = some spec := by
    simp [hashSpec,hkind,hspec]
  have hexec : executeMaterializedJoin P left right (some on) kind pairLimit =
      hashJoin P left right spec kind := by
    simp [executeMaterializedJoin,hplan]
  constructor
  · rintro ⟨hhash,-⟩
    rw [hexec] at hhash
    exact strictKeys_of_same_rows hspec hone hkind hloop hhash
  · intro hstrict
    have hhash : executeMaterializedJoin P left right (some on) kind pairLimit = .ok rows := by
      rw [hexec,hashJoin_eq,← nestedLoopJoin_ok hkind hloop]
      apply congrArg
      apply flatMap_congr
      intro l hl
      exact joinedRows_strict hspec hone hstrict kind _ hl
    refine ⟨hhash,?_⟩
    rintro l r rfl rfl
    rw [executeProvenanceJoin_rows,hhash]

end Equivalence

section Instances

def oneColumn (table name : String) (values : List Value) : Relation where
  columns := [⟨some table,name⟩]
  rows := values.map ([·])
  width := by
    intro row hrow
    obtain ⟨v,-,rfl⟩ := List.mem_map.mp hrow
    rfl

def onKeys : Expr Unit :=
  .binaryOp (.qualifiedField (.named "a") "k") .eq (.qualifiedField (.named "b") "k")

/-- A left join with a missing key on both sides and one row without a match. -/
theorem leftJoin_on_missing_keys :
    executeMaterializedJoin Prims.blank (oneColumn "a" "k" [.int 1,.empty,.int 3])
      (oneColumn "b" "k" [.empty,.int 1]) (some onKeys) .leftOuter 10 =
    .ok [[.int 1,.int 1],[.empty,.empty],[.int 3,.empty]] := by
  have hone : KeyOneSided onKeys [⟨some "a","k"⟩] [⟨some "b","k"⟩] := by
    intro lhs rhs h
    cases h
    exact ⟨.inr rfl,.inl rfl⟩
  have hstrict : StrictKeys Prims.blank (oneColumn "a" "k" [.int 1,.empty,.int 3])
      (oneColumn "b" "k" [.empty,.int 1]) (⟨0,0,[]⟩ : HashJoinSpec Unit) := by
    unfold StrictKeys
    decide
  exact ((hashJoin_same_rows_iff Prims.blank (oneColumn "a" "k" [.int 1,.empty,.int 3])
    (oneColumn "b" "k" [.empty,.int 1]) onKeys .leftOuter 10 (by decide) rfl hone rfl).mpr hstrict).1

/-- The keys are the timestamp 5 and the integer 5: the nested loop joins the two
rows, the hash join does not. -/
theorem hashJoin_misses_timestamp :
    (tryExtractHashJoin onKeys [⟨some "a","k"⟩] [⟨some "b","k"⟩]).isSome = true ∧
    nestedLoopJoin Prims.blank (oneColumn "a" "k" [.dateTime 5]) (oneColumn "b" "k" [.int 5])
      (some onKeys) .inner 10 = .ok [[.dateTime 5,.int 5]] ∧
    executeMaterializedJoin Prims.blank (oneColumn "a" "k" [.dateTime 5]) (oneColumn "b" "k" [.int 5])
      (some onKeys) .inner 10 = .ok [] := by
  refine ⟨?_,?_,?_⟩ <;> decide +kernel

end Instances

end PowDB.Query
