import PowDB.Lib.Outcome
import PowDB.Query.Window

/-! What a window function means, row by row, and what the running state of a
partition holds after some of its rows: an aggregate of rows is a fold of the
state, and the counters of sorted rows are their ranks. -/
namespace PowDB.Query
open Storage (Value)
open Lib List Option
variable {τ : Type}

section Keys
variable (P : Prims)

/-- The keys of a row by evaluation. -/
def evalKeys (columns : List OutputColumn) (w : WindowDef τ) : WindowKeys where
  part row := w.partitionBy.map (fun e => evalExpr P e row columns)
  order row := w.orderBy.map (fun k => evalExpr P k.expr row columns)
  arg row := w.args.head?.map (fun e => evalExpr P e row columns)

lemma zip_map_of_mapM {ε α β γ : Type} {f : α → Except ε β} {g : α → β → γ} {h : α → γ}
    (hfg : ∀ a b, f a = .ok b → g a b = h a) {xs : List α} {ys : List β} (hys : xs.mapM f = .ok ys) :
    (xs.zip ys).map (fun p => g p.1 p.2) = xs.map h := by
  induction xs generalizing ys with
  | nil => simp
  | cons x xs ih =>
    rw [mapM_cons] at hys
    obtain ⟨y,hy,hys⟩ := bind_ok_iff.mp hys
    obtain ⟨zs,hzs,hys⟩ := bind_ok_iff.mp hys
    cases hys
    simp [hfg x y hy,ih hzs]

lemma windowKeys_eq
    (h : windowKeys P columns w = .ok K) : K = evalKeys P columns w := by
  obtain ⟨part,hpart,h⟩ := bind_ok_iff.mp h
  obtain ⟨order,horder,h⟩ := bind_ok_iff.mp h
  obtain ⟨arg,harg,h⟩ := bind_ok_iff.mp h
  cases h
  simp only [evalKeys,WindowKeys.mk.injEq]
  refine ⟨?_,?_,?_⟩ <;> funext row
  · exact zip_map_of_mapM (fun e i he => directValue_eq P he row) hpart
  · exact zip_map_of_mapM (fun k i hk => directValue_eq P hk row) horder
  · cases hargs : w.args.head? with
    | none => rfl
    | some e =>
      rw [hargs] at harg
      simp [directValue_eq P harg row]

end Keys

section Meaning
variable (P : Prims) (F : FloatOps)

/-- The rows of a list in the partition of a row. -/
def peers (K : WindowKeys) (x : Numbered) (rows : List Numbered) : List Numbered :=
  rows.filter (fun y => K.part y.1 = K.part x.1)

/-- The rows strictly before a row in the order of the window. -/
def strictlyBefore (w : WindowDef τ) (K : WindowKeys) (x : Numbered) (rows : List Numbered) : List Numbered :=
  rows.filter (fun y => orderCmp P w (K.order y.1) (K.order x.1) = .lt)

/-- The value of a row, given the rows visited before and after it. -/
def windowValue (columns : List OutputColumn) (w : WindowDef τ) (K : WindowKeys) (before : List Numbered)
    (x : Numbered) (after : List Numbered) : Except AggregateError Value :=
  let partition := peers K x (before++x::after)
  match w.function with
  | .rowNumber => .ok (.int (Int64.ofNat ((peers K x before).length+1)))
  | .rank => .ok (.int (Int64.ofNat (1+(strictlyBefore P w K x partition).length)))
  | .denseRank =>
    .ok (.int (Int64.ofNat (1+((strictlyBefore P w K x partition).map (fun y => K.order y.1)).toFinset.card)))
  | .agg f =>
    let frame := if w.orderBy.isEmpty then partition else peers K x before++[x]
    aggregateRows P F f w.args.head? columns (frame.map Prod.fst)

end Meaning

section Fold
variable (P : Prims) (F : FloatOps)
  {columns : List OutputColumn} {w : WindowDef τ}

lemma foldlM_total (hf : f = .sum ∨ f = .avg) (he : w.args.head? = some e)
    (rows : List (List Value)) : ∀ st : Running, rows.foldlM (pushAgg P F f w (evalKeys P columns w)) st =
      ((rows.map (fun row => evalExpr P e row columns)).foldlM (NumericAgg.push F f) st.total).map
        (fun t => {st with total := t}) := by
  induction rows with
  | nil => intro st; rfl
  | cons row rows ih =>
    intro st
    have hpush : pushAgg P F f w (evalKeys P columns w) st row =
        (st.total.push F f (evalExpr P e row columns)).map (fun t => {st with total := t}) := by
      rcases hf with rfl | rfl <;> simp only [pushAgg,evalKeys,he,map_some] <;>
        cases NumericAgg.push F _ st.total (evalExpr P e row columns) <;> rfl
    rw [foldlM_cons,hpush,map_cons,foldlM_cons]
    cases st.total.push F f (evalExpr P e row columns) with
    | error err => rfl
    | ok t => exact ih _

/-- The arguments of rows that are not null. -/
def givenArgs (columns : List OutputColumn) (w : WindowDef τ) (rows : List (List Value)) : List Value :=
  (rows.filterMap (evalKeys P columns w).arg).filter (fun v => !v.isEmpty)

lemma foldlM_count (rows : List (List Value)) :
    ∀ st : Running, rows.foldlM (pushAgg P F .count w (evalKeys P columns w)) st =
      .ok {st with count := st.count+
        if countsEveryRow w.args.head? then rows.length
        else (givenArgs P columns w rows).length} := by
  induction rows with
  | nil => intro st; simp [givenArgs]; rfl
  | cons row rows ih =>
    intro st
    rw [foldlM_cons]
    simp only [pushAgg,bind,Except.bind]
    rw [ih]
    by_cases hall : countsEveryRow w.args.head?
    · simp [hall]
      omega
    · cases harg : (evalKeys P columns w).arg row with
      | none => simp [givenArgs,hall,harg]
      | some v =>
        cases hv : v.isEmpty <;> simp [givenArgs,hall,harg,hv]
        omega

lemma foldlM_min (rows : List (List Value)) :
    ∀ st : Running, rows.foldlM (pushAgg P F .min w (evalKeys P columns w)) st =
      .ok {st with min := (givenArgs P columns w rows).foldl (keepExtreme P .min) st.min} := by
  induction rows with
  | nil => intro st; rfl
  | cons row rows ih =>
    intro st
    rw [foldlM_cons]
    simp only [pushAgg,bind,Except.bind]
    rw [ih]
    cases harg : (evalKeys P columns w).arg row with
    | none => simp [givenArgs,harg]
    | some v => cases hv : v.isEmpty <;> simp [givenArgs,harg,hv]

lemma foldlM_max (rows : List (List Value)) :
    ∀ st : Running, rows.foldlM (pushAgg P F .max w (evalKeys P columns w)) st =
      .ok {st with max := (givenArgs P columns w rows).foldl (keepExtreme P .max) st.max} := by
  induction rows with
  | nil => intro st; rfl
  | cons row rows ih =>
    intro st
    rw [foldlM_cons]
    simp only [pushAgg,bind,Except.bind]
    rw [ih]
    cases harg : (evalKeys P columns w).arg row with
    | none => simp [givenArgs,harg]
    | some v => cases hv : v.isEmpty <;> simp [givenArgs,harg,hv]

/-- An aggregate of rows is what the running state emits after them. -/
lemma aggregateRows_eq_fold (hw : w.function = .agg f) (columns : List OutputColumn)
    (rows : List (List Value)) : aggregateRows P F f w.args.head? columns rows =
      (rows.foldlM (pushAgg P F f w (evalKeys P columns w)) .init).bind (emitAgg F f) := by
  have hgiven : f ≠ .count → ∃ e, w.args.head? = some e := by
    intro hf
    exact ne_none_iff_exists'.mp (by simpa using w.argument_given f hw hf)
  have hvalues : ∀ e, w.args.head? = some e →
      rows.filterMap (evalKeys P columns w).arg = rows.map (fun row => evalExpr P e row columns) := by
    intro e he
    simp [evalKeys,he]
  cases f with
  | sum | avg =>
    obtain ⟨e,he⟩ := hgiven (by decide)
    rw [foldlM_total P F (by simp) he,Running.init_total]
    simp only [aggregateRows,he,reduceCtorEq,false_and,if_false]
    cases (rows.map (fun row => evalExpr P e row columns)).foldlM (NumericAgg.push F _) .new with
    | error err | ok total => rfl
  | count =>
    rw [foldlM_count]
    cases he : w.args.head? with
    | none => simp [aggregateRows,countsEveryRow,Except.bind,emitAgg,Running.init]
    | some e =>
      by_cases hall : countsEveryRow (some e)
      · simp [aggregateRows,hall,Except.bind,emitAgg,Running.init]
      · simp [aggregateRows,hall,Except.bind,emitAgg,Running.init,givenArgs,hvalues e he]
  | min =>
    obtain ⟨e,he⟩ := hgiven (by decide)
    rw [foldlM_min,givenArgs,hvalues e he]
    simp [aggregateRows,he,Except.bind,emitAgg,Running.init]
  | max =>
    obtain ⟨e,he⟩ := hgiven (by decide)
    rw [foldlM_max,givenArgs,hvalues e he]
    simp [aggregateRows,he,Except.bind,emitAgg,Running.init]

end Fold

section Ranks
variable (P : Prims)

/-- The counters of a partition of which some rows have been visited. -/
def RankOf (w : WindowDef τ) (K : WindowKeys) (cur : List Numbered) (st : Running) : Prop :=
  st.rankCounter+st.sameRankCount = cur.length ∧
    ∀ d, cur.getLast? = some d → st.rankCounter = 1+(strictlyBefore P w K d cur).length

def DenseOf (w : WindowDef τ) (K : WindowKeys) (cur : List Numbered) (st : Running) : Prop :=
  (cur = [] → st.denseRankCounter = 0) ∧
    ∀ d, cur.getLast? = some d →
      st.denseRankCounter = 1+((strictlyBefore P w K d cur).map (fun y => K.order y.1)).toFinset.card

/-- Rows of one partition in the order of the window. -/
structure InOrder (w : WindowDef τ) (K : WindowKeys) (cur : List Numbered) : Prop where
  linear : LinearOn (orderCmp P w) (cur.map (fun y => K.order y.1))
  sorted : cur.Pairwise (fun x y => orderCmp P w (K.order x.1) (K.order y.1) ≠ .gt)

variable {P} {w : WindowDef τ} {K : WindowKeys} {cur : List Numbered} {st : Running}

lemma strictlyBefore_congr (h : K.order d.1 = K.order r.1) :
    strictlyBefore P w K d cur = strictlyBefore P w K r cur := by
  simp [strictlyBefore,h]

namespace InOrder

lemma mem_order (K : WindowKeys) (hx : x ∈ cur) : K.order x.1 ∈ cur.map (fun y => K.order y.1) :=
  mem_map.mpr ⟨x,hx,rfl⟩

lemma left (h : InOrder P w K (cur++[r])) : InOrder P w K cur := by
  refine ⟨h.linear.subset ?_,(pairwise_append.mp h.sorted).1⟩
  rw [map_append]
  exact subset_append_left _ _

lemma le_last (h : InOrder P w K cur) (hd : cur.getLast? = some d) (hx : x ∈ cur) :
    orderCmp P w (K.order x.1) (K.order d.1) ≠ .gt := by
  obtain ⟨ds,rfl⟩ := getLast?_eq_some_iff.mp hd
  rcases mem_append.mp hx with hxs | hxd
  · exact (pairwise_append.mp h.sorted).2.2 x hxs d (by simp)
  · rw [mem_singleton.mp hxd,h.linear.cmp_self (mem_order K (by simp))]
    decide

lemma strictlyBefore_snoc (h : InOrder P w K (cur++[r])) :
    strictlyBefore P w K r (cur++[r]) = strictlyBefore P w K r cur := by
  have hself := h.linear.cmp_self (mem_order K (x := r) (by simp))
  simp [strictlyBefore,hself]

/-- A row with a new key comes after every row so far. -/
lemma strictlyBefore_all (h : InOrder P w K (cur++[r]))
    (hnew : ∀ d, cur.getLast? = some d → K.order d.1 ≠ K.order r.1) : strictlyBefore P w K r cur = cur := by
  have hr : r ∈ cur++[r] := by simp
  apply filter_eq_self.mpr
  intro x hx
  have hxr : x ∈ cur++[r] := mem_append_left _ hx
  have hle := (pairwise_append.mp h.sorted).2.2 x hx r (by simp)
  obtain ⟨d,hd⟩ : ∃ d, cur.getLast? = some d := by
    cases hlast : cur.getLast? with
    | none => simp [getLast?_eq_none_iff.mp hlast] at hx
    | some d => exact ⟨d,rfl⟩
  have hdmem : d ∈ cur++[r] := mem_append_left _ (mem_of_getLast? hd)
  cases hcmp : orderCmp P w (K.order x.1) (K.order r.1) with
  | lt => simp
  | gt => exact absurd hcmp hle
  | eq =>
    have hxr' := h.linear.eq_of_cmp _ (mem_order K hxr) _ (mem_order K hr) hcmp
    have hxd := h.left.le_last hd hx
    rw [hxr'] at hxd
    have hdr := h.le_last (d := r) (by simp) hdmem
    exact absurd (h.linear.antisymm (mem_order K hdmem) (mem_order K hr) hdr hxd) (hnew d hd)

/-- Up to a row there is one key more than strictly before it. -/
lemma card_orders (h : InOrder P w K cur) (hd : cur.getLast? = some d) :
    (cur.map (fun y => K.order y.1)).toFinset.card =
      1+((strictlyBefore P w K d cur).map (fun y => K.order y.1)).toFinset.card := by
  have hdmem := List.mem_of_getLast? hd
  have hself := h.linear.cmp_self (mem_order K hdmem)
  have hinsert : (cur.map (fun y => K.order y.1)).toFinset =
      insert (K.order d.1) ((strictlyBefore P w K d cur).map (fun y => K.order y.1)).toFinset := by
    ext v
    simp only [List.mem_toFinset,List.mem_map,Finset.mem_insert,strictlyBefore,List.mem_filter,decide_eq_true_eq]
    constructor
    · rintro ⟨x,hx,rfl⟩
      cases hcmp : orderCmp P w (K.order x.1) (K.order d.1) with
      | lt => exact .inr ⟨x,⟨hx,hcmp⟩,rfl⟩
      | gt => exact absurd hcmp (h.le_last hd hx)
      | eq => exact .inl (h.linear.eq_of_cmp _ (mem_order K hx) _ (mem_order K hdmem) hcmp)
    · rintro (rfl | ⟨x,⟨hx,-⟩,rfl⟩)
      · exact ⟨d,hdmem,rfl⟩
      · exact ⟨x,hx,rfl⟩
  have hnot : K.order d.1 ∉ ((strictlyBefore P w K d cur).map (fun y => K.order y.1)).toFinset := by
    simp only [List.mem_toFinset,List.mem_map,strictlyBefore,List.mem_filter,decide_eq_true_eq]
    rintro ⟨x,⟨-,hlt⟩,hx⟩
    rw [hx,hself] at hlt
    cases hlt
  rw [hinsert,Finset.card_insert_of_notMem hnot,Nat.add_comm]

end InOrder
variable {F : FloatOps}

/-- The running state after some rows of a partition. -/
def RunningOf (P : Prims) (F : FloatOps) (w : WindowDef τ) (K : WindowKeys) (cur : List Numbered)
    (st : Running) : Prop :=
  match w.function with
  | .rowNumber => True
  | .rank => RankOf P w K cur st
  | .denseRank => DenseOf P w K cur st
  | .agg f => (cur.map Prod.fst).foldlM (pushAgg P F f w K) .init = .ok st

lemma runningOf_init : RunningOf P F w K [] .init := by
  simp only [RunningOf]
  split
  · trivial
  · exact ⟨rfl,by simp⟩
  · exact ⟨fun _ => rfl,by simp⟩
  · rfl

lemma foldlM_snoc (h : (cur.map Prod.fst).foldlM (pushAgg P F f w K) .init = .ok e) :
    ((cur++[r]).map Prod.fst).foldlM (pushAgg P F f w K) .init = pushAgg P F f w K e r.1 := by
  rw [map_append,foldlM_append,h]
  simp [bind,Except.bind,pure,Except.pure]
  cases pushAgg P F f w K e r.1 <;> rfl

/-- One more row of the partition. -/
lemma RunningOf.push (ho : InOrder P w K (cur++[r])) (hst : RunningOf P F w K cur st)
    (hpush : pushRow P F w K (cur.getLast?.map (fun y => K.order y.1) == some (K.order r.1)) st r.1 = .ok st') :
    RunningOf P F w K (cur++[r]) st' := by
  have hlast : ∀ d, (cur++[r]).getLast? = some d → d = r := by
    intro d hd
    simpa using hd.symm
  simp only [RunningOf] at hst ⊢
  simp only [pushRow] at hpush
  cases hw : w.function with
  | rowNumber => trivial
  | rank =>
    simp only [hw] at hst hpush ⊢
    obtain ⟨hsum,hrank⟩ := hst
    by_cases hsame : (cur.getLast?.map (fun y => K.order y.1) == some (K.order r.1)) = true
    · rw [if_pos hsame] at hpush
      cases hpush
      obtain ⟨d,hd,hkey⟩ := map_eq_some_iff.mp (beq_iff_eq.mp hsame)
      refine ⟨?_,?_⟩
      · simp only [length_append,length_singleton]
        omega
      · intro d' hd'
        rw [hlast d' hd',ho.strictlyBefore_snoc,← strictlyBefore_congr hkey]
        exact hrank d hd
    · rw [if_neg hsame,if_neg (by omega)] at hpush
      cases hpush
      have hall := ho.strictlyBefore_all (by
        intro d hd hkey
        simp [hd,hkey] at hsame)
      refine ⟨?_,?_⟩
      · simp only [length_append,length_singleton]
        omega
      · intro d' hd'
        rw [hlast d' hd',ho.strictlyBefore_snoc,hall]
        show st.rankCounter+(st.sameRankCount+1) = 1+cur.length
        omega
  | denseRank =>
    simp only [hw] at hst hpush ⊢
    obtain ⟨hnil,hdense⟩ := hst
    refine ⟨by simp,?_⟩
    intro d' hd'
    rw [hlast d' hd',ho.strictlyBefore_snoc]
    by_cases hsame : (cur.getLast?.map (fun y => K.order y.1) == some (K.order r.1)) = true
    · rw [if_pos hsame] at hpush
      cases hpush
      obtain ⟨d,hd,hkey⟩ := map_eq_some_iff.mp (beq_iff_eq.mp hsame)
      rw [← strictlyBefore_congr hkey]
      exact hdense d hd
    · rw [if_neg hsame] at hpush
      cases hpush
      rw [ho.strictlyBefore_all (by
        intro d hd hkey
        simp [hd,hkey] at hsame)]
      cases hcur : cur.getLast? with
      | none =>
        have hempty := getLast?_eq_none_iff.mp hcur
        simp [hempty,hnil hempty]
      | some d =>
        rw [ho.left.card_orders hcur,← hdense d hcur,Nat.add_comm]
  | agg f =>
    simp only [hw] at hst hpush ⊢
    rw [foldlM_snoc hst,hpush]

end Ranks

end PowDB.Query
