import PowDB.Lib.Outcome
import PowDB.Query.WindowSpec

/-! The visit of the sorted rows gives every row the value its partition gives
it, when the keys of the window are linearly ordered on the rows. -/
namespace PowDB.Query
open Storage (Value)
open Lib List
variable {τ : Type}

section Visit
variable (P : Prims)

/-- The rows in visiting order: partitions are contiguous and in order. -/
structure SortedRows (w : WindowDef τ) (K : WindowKeys) (rows : List Numbered) : Prop where
  nodup : (rows.map Prod.snd).Nodup
  part_linear : LinearOn (partitionCmp P w) (rows.map (fun y => K.part y.1))
  order_linear : LinearOn (orderCmp P w) (rows.map (fun y => K.order y.1))
  sorted : rows.Pairwise (fun x y => partitionCmp P w (K.part x.1) (K.part y.1) ≠ .gt ∧
    (K.part x.1 = K.part y.1 → orderCmp P w (K.order x.1) (K.order y.1) ≠ .gt))

variable {P} {F : FloatOps} {columns : List OutputColumn} {w : WindowDef τ} {K : WindowKeys}
  {done rest ds : List Numbered} {x y r d : Numbered} {l : WindowLoop}

lemma peers_append (x : Numbered) (a b : List Numbered) : peers K x (a++b) = peers K x a++peers K x b :=
  filter_append a b

lemma peers_congr (h : K.part x.1 = K.part y.1) (a : List Numbered) : peers K x a = peers K y a := by
  simp [peers,h]

lemma peers_eq_nil (h : ∀ y ∈ rest, K.part y.1 ≠ K.part x.1) : peers K x rest = [] := by
  simpa [peers] using h

@[simp] lemma mem_peers : y ∈ peers K x L ↔ y ∈ L ∧ K.part y.1 = K.part x.1 := by
  simp [peers]

lemma peers_self (a : List Numbered) : peers K x (x::a) = x::peers K x a := by
  simp [peers]

namespace SortedRows

/-- What stands between two rows of a partition belongs to it. -/
lemma between (h : SortedRows P w K L) (hsub : [x,z,y].Sublist L) (hxy : K.part x.1 = K.part y.1) :
    K.part z.1 = K.part x.1 := by
  have hsorted := h.sorted.sublist hsub
  simp only [pairwise_cons,mem_cons,forall_eq_or_imp] at hsorted
  have hmem : ∀ v ∈ [x,z,y], K.part v.1 ∈ L.map (fun y => K.part y.1) := fun v hv =>
    mem_map.mpr ⟨v,hsub.subset hv,rfl⟩
  have hzy := hsorted.2.1.1.1
  rw [← hxy] at hzy
  exact (h.part_linear.antisymm (hmem x (by simp)) (hmem z (by simp)) hsorted.1.1.1 hzy).symm

/-- A partition that ends does not come back. -/
lemma closed (h : SortedRows P w K (ds++d::r::rest)) (hne : K.part d.1 ≠ K.part r.1) :
    ∀ y ∈ r::rest, K.part y.1 ≠ K.part d.1 := by
  intro y hy hpart
  rcases mem_cons.mp hy with rfl | hy
  · exact hne hpart.symm
  · have hsub : [d,r,y].Sublist (ds++d::r::rest) := by
      apply List.Sublist.trans _ (sublist_append_right ds _)
      exact ((singleton_sublist.mpr hy).cons_cons r).cons_cons d
    exact hne (h.between hsub hpart.symm).symm

/-- A partition that starts has not been visited. -/
lemma fresh (h : SortedRows P w K (ds++d::r::rest)) (hne : K.part d.1 ≠ K.part r.1) :
    peers K r (ds++[d]) = [] := by
  apply peers_eq_nil
  intro y hy hpart
  rcases mem_append.mp hy with hy | hy
  · have hsub : [y,d,r].Sublist (ds++d::r::rest) := by
      apply List.Sublist.append (singleton_sublist.mpr hy)
      exact ((nil_sublist rest).cons_cons r).cons_cons d
    exact hne ((h.between hsub hpart).trans hpart)
  · rw [mem_singleton.mp hy] at hpart
    exact hne hpart

lemma inOrder (h : SortedRows P w K L) (hsub : done.Sublist L) (x : Numbered) : InOrder P w K (peers K x done) := by
  have hpeers : (peers K x done).Sublist L := (filter_sublist).trans hsub
  refine ⟨h.order_linear.subset (hpeers.map _).subset,?_⟩
  apply (h.sorted.sublist hpeers).imp_of_mem
  intro a b ha hb hab
  exact hab.2 ((mem_peers.mp ha).2.trans (mem_peers.mp hb).2.symm)

/-- No later row of the partition is strictly before the current one. -/
lemma strictlyBefore_later (h : SortedRows P w K (done++r::rest)) :
    strictlyBefore P w K r (peers K r rest) = [] := by
  simp only [strictlyBefore,filter_eq_nil_iff,mem_peers,decide_eq_true_eq]
  rintro y ⟨hy,hpart⟩ hlt
  have hmem : ∀ v ∈ r::rest, K.order v.1 ∈ (done++r::rest).map (fun y => K.order y.1) := fun v hv =>
    mem_map.mpr ⟨v,mem_append_right _ hv,rfl⟩
  have hry := (pairwise_cons.mp (pairwise_append.mp h.sorted).2.1).1 y hy
  have hle := hry.2 hpart.symm
  rw [h.order_linear.swap _ (hmem y (by simp [hy])) _ (hmem r (by simp)),hlt] at hle
  exact hle rfl

end SortedRows

/-- Every row of a list has its value, when some rows are still to come. -/
def Settled (P : Prims) (F : FloatOps) (columns : List OutputColumn) (w : WindowDef τ) (K : WindowKeys)
    (done rest : List Numbered) (pending : Numbered → Prop) (win : ℕ → Value) : Prop :=
  ∀ a x b, done = a++x::b → ¬ pending x → windowValue P F columns w K a x (b++rest) = .ok (win x.2)

/-- Between two rows: the last visited row and its partition. -/
structure Visited (P : Prims) (F : FloatOps) (columns : List OutputColumn) (w : WindowDef τ) (K : WindowKeys)
    (ds : List Numbered) (d : Numbered) (rest : List Numbered) (l : WindowLoop) : Prop where
  prev : l.prev = some d
  pos : l.sortedPos = ds.length+1
  start : l.partitionStart+(peers K d (ds++[d])).length = l.sortedPos
  key : l.prevOrderKey = some (K.order d.1)
  running : RunningOf P F w K (peers K d (ds++[d])) l.running
  rows : l.partitionRows = if wholePartitionFrame w then (peers K d (ds++[d])).map Prod.snd else []
  settled : Settled P F columns w K (ds++[d]) rest
    (fun x => wholePartitionFrame w = true ∧ K.part x.1 = K.part d.1) l.winValues
  last : ∀ f, w.function = .agg f → f ≠ .sum → wholePartitionFrame w → emitAgg F f l.running = .ok (l.winValues d.2)

/-- Inside the partition of the row to visit. -/
structure Ready (P : Prims) (F : FloatOps) (columns : List OutputColumn) (w : WindowDef τ) (K : WindowKeys)
    (done : List Numbered) (r : Numbered) (rest : List Numbered) (l : WindowLoop) : Prop where
  pos : l.sortedPos = done.length
  start : l.partitionStart+(peers K r done).length = l.sortedPos
  key : l.prevOrderKey = (peers K r done).getLast?.map (fun y => K.order y.1)
  running : RunningOf P F w K (peers K r done) l.running
  rows : l.partitionRows = if wholePartitionFrame w then (peers K r done).map Prod.snd else []
  settled : Settled P F columns w K done (r::rest)
    (fun x => wholePartitionFrame w = true ∧ K.part x.1 = K.part r.1) l.winValues

lemma wholePartitionFrame_iff : wholePartitionFrame w = true ↔ (∃ f, w.function = .agg f) ∧ w.orderBy.isEmpty := by
  unfold wholePartitionFrame
  cases w.function <;> simp

lemma foldl_update (is : List ℕ) (v : Value) : ∀ (win : ℕ → Value) (j : ℕ),
    is.foldl (fun win i => Function.update win i v) win j = if j ∈ is then v else win j := by
  induction is with
  | nil => simp
  | cons i is ih =>
    intro win j
    rw [foldl_cons,ih]
    by_cases hj : j ∈ is
    · simp [hj]
    · by_cases hij : j = i <;> simp [hij]

/-- The value of a whole partition is what its running state emits. -/
lemma windowValue_whole (hK : K = evalKeys P columns w) (hf : w.function = .agg f)
    (hwhole : wholePartitionFrame w = true) (hst : RunningOf P F w K (peers K x (a++x::b)) st) :
    windowValue P F columns w K a x b = emitAgg F f st := by
  have hempty := (wholePartitionFrame_iff.mp hwhole).2
  simp only [RunningOf,hf] at hst
  subst hK
  simp only [windowValue,hf,hempty,if_true]
  rw [aggregateRows_eq_fold P F hf,hst]
  rfl

lemma wholePartitionFinalValue_eq (hf : w.function = .agg f) (hwhole : wholePartitionFrame w = true)
    (h : Visited P F columns w K ds d rest l) :
    wholePartitionFinalValue F w l.running (l.winValues d.2) = emitAgg F f l.running := by
  by_cases hsum : f = .sum
  · subst hsum
    simp [wholePartitionFinalValue,hf,emitAgg]
  · rw [h.last f hf hsum hwhole]
    simp [wholePartitionFinalValue,hf,hsum]

/-- A finished partition: its rows have the value of the whole partition. -/
lemma Visited.close (hK : K = evalKeys P columns w) (hL : SortedRows P w K (ds++d::rest))
    (h : Visited P F columns w K ds d rest l) (hrest : ∀ y ∈ rest, K.part y.1 ≠ K.part d.1) :
    Yields (closePartition F w l) (fun l' => l'.sortedPos = l.sortedPos ∧ l'.partitionRows = [] ∧
      Settled P F columns w K (ds++[d]) rest (fun _ => False) l'.winValues)
      fun e => windowValue P F columns w K ds d rest = .error e := by
  simp only [closePartition,h.prev]
  by_cases hwhole : wholePartitionFrame w = true
  · obtain ⟨⟨f,hf⟩,-⟩ := wholePartitionFrame_iff.mp hwhole
    have hvalue : ∀ a x b, ds++[d] = a++x::b → K.part x.1 = K.part d.1 →
        windowValue P F columns w K a x (b++rest) = emitAgg F f l.running := by
      intro a x b hsplit hpart
      have hpeers : peers K x (a++x::(b++rest)) = peers K d (ds++[d]) := by
        rw [← cons_append,← append_assoc,← hsplit,peers_congr hpart,peers_append,peers_eq_nil hrest,
          append_nil]
      apply windowValue_whole hK hf hwhole
      rw [hpeers]
      exact h.running
    rw [if_pos hwhole,wholePartitionFinalValue_eq hf hwhole h]
    cases hemit : emitAgg F f l.running with
    | error e => exact (hvalue ds d [] rfl rfl).trans hemit
    | ok v =>
      refine ⟨rfl,rfl,?_⟩
      intro a x b hsplit _
      have hx : x ∈ ds++[d] := by simp [hsplit]
      simp only [foldl_update,h.rows,if_pos hwhole]
      by_cases hpart : K.part x.1 = K.part d.1
      · rw [hvalue a x b hsplit hpart,hemit,if_pos]
        exact mem_map.mpr ⟨x,mem_peers.mpr ⟨hx,hpart⟩,rfl⟩
      · rw [if_neg]
        · exact h.settled a x b hsplit (fun hp => hpart hp.2)
        · rintro hmem
          obtain ⟨y,hy,hyx⟩ := mem_map.mp hmem
          obtain ⟨hy,hypart⟩ := mem_peers.mp hy
          have hL' : ∀ v ∈ ds++[d], v ∈ ds++d::rest := by
            intro v hv
            simp only [mem_append,mem_cons] at hv ⊢
            tauto
          rw [inj_on_of_nodup_map hL.nodup (hL' y hy) (hL' x hx) hyx] at hypart
          exact hpart hypart
  · rw [if_neg hwhole]
    refine ⟨rfl,by rw [h.rows,if_neg hwhole],?_⟩
    intro a x b hsplit _
    exact h.settled a x b hsplit (fun hp => hwhole hp.1)

lemma peers_snoc (r : Numbered) (done : List Numbered) : peers K r (done++[r]) = peers K r done++[r] := by
  rw [peers_append,peers_self]
  rfl

lemma peers_around (r : Numbered) (done rest : List Numbered) :
    peers K r (done++r::rest) = (peers K r done++[r])++peers K r rest := by
  rw [peers_append,peers_self,append_assoc]
  rfl

section
variable (hK : K = evalKeys P columns w)
include hK

lemma Visited.enter (hL : SortedRows P w K (ds++d::r::rest))
    (h : Visited P F columns w K ds d (r::rest) l) :
    Yields (enterPartition F w K l r) (Ready P F columns w K (ds++[d]) r rest)
      fun e => windowValue P F columns w K ds d (r::rest) = .error e := by
  have hlen : (ds++[d]).length = ds.length+1 := by simp
  simp only [enterPartition,newPartition,h.prev]
  by_cases hpart : K.part d.1 = K.part r.1
  · rw [if_neg (by simp [hpart])]
    have hpeers := peers_congr hpart (ds++[d])
    refine ⟨by rw [hlen,h.pos],?_,?_,?_,?_,?_⟩
    · rw [← hpeers]
      exact h.start
    · rw [← hpeers,peers_snoc,h.key]
      simp
    · rw [← hpeers]
      exact h.running
    · rw [← hpeers]
      exact h.rows
    · rw [← hpart]
      exact h.settled
  · rw [if_pos (by simpa using fun he => hpart he.symm)]
    have hnil := hL.fresh hpart
    refine (h.close hK hL (hL.closed hpart)).then (fun _ he => he) ?_
    rintro l₁ ⟨hpos,hrows,hsettled⟩
    refine ⟨by simp [hpos,h.pos],by simp [hnil],by simp [hnil],?_,by simp [hnil,hrows],?_⟩
    · rw [hnil]
      exact runningOf_init
    · exact fun a x b hsplit _ => hsettled a x b hsplit id

/-- Outside whole partitions the running state emits the value of the row. -/
lemma emitRow_eq (hL : SortedRows P w K (done++r::rest))
    (hst : RunningOf P F w K (peers K r done++[r]) st) (hwhole : ¬ wholePartitionFrame w = true) :
    emitRow F w (peers K r done).length st = windowValue P F columns w K done r rest := by
  have hbefore : strictlyBefore P w K r (peers K r (done++r::rest)) =
      strictlyBefore P w K r (peers K r done++[r]) := by
    rw [peers_around]
    show filter _ _ = _
    rw [filter_append]
    exact (congrArg _ hL.strictlyBefore_later).trans (append_nil _)
  have hlast : (peers K r done++[r]).getLast? = some r := by simp
  simp only [RunningOf] at hst
  simp only [emitRow,windowValue]
  cases hf : w.function with
  | rowNumber => rfl
  | rank | denseRank =>
    simp only [hf] at hst
    simp only [hbefore,hst.2 r hlast]
  | agg f =>
    simp only [hf] at hst
    have hrunning : w.orderBy.isEmpty = false := by
      simpa [wholePartitionFrame,hf] using hwhole
    subst hK
    simp only [hrunning,Bool.false_eq_true,if_false]
    rw [aggregateRows_eq_fold P F hf,hst]
    simp [wholePartitionFrame,hf,hrunning,Except.bind]

/-- A row that cannot be added makes its frame fail. -/
lemma pushRow_error
    (hst : RunningOf P F w K (peers K r done) st) (hpush : pushRow P F w K same st r.1 = .error e) :
    windowValue P F columns w K done r rest = .error e := by
  simp only [RunningOf] at hst
  simp only [pushRow] at hpush
  simp only [windowValue]
  cases hf : w.function with
  | rowNumber | rank | denseRank => simp [hf] at hpush
  | agg f =>
    simp only [hf] at hst hpush
    have hfold := foldlM_snoc (r := r) hst
    rw [hpush] at hfold
    have hmore : ((peers K r (done++r::rest)).map Prod.fst).foldlM (pushAgg P F f w K) .init = .error e := by
      rw [peers_around,map_append,foldlM_append,hfold]
      rfl
    subst hK
    simp only [aggregateRows_eq_fold P F hf]
    split_ifs
    · rw [hmore]
      rfl
    · rw [hfold]
      rfl

lemma Ready.visit (hL : SortedRows P w K (done++r::rest))
    (h : Ready P F columns w K done r rest l) :
    Yields (visitRow P F w K l r) (Visited P F columns w K done r rest)
      fun e => windowValue P F columns w K done r rest = .error e := by
  have hsub : (done++[r]).Sublist (done++r::rest) :=
    (List.Sublist.refl done).append ((nil_sublist rest).cons_cons r)
  have ho := hL.inOrder hsub r
  rw [peers_snoc] at ho
  have hoffset : l.sortedPos-l.partitionStart = (peers K r done).length := by
    have := h.start
    omega
  simp only [visitRow,h.key,hoffset]
  cases hpush : pushRow P F w K ((peers K r done).getLast?.map (fun y => K.order y.1) == some (K.order r.1))
      l.running r.1 with
  | error e => exact pushRow_error hK h.running hpush
  | ok st =>
    have hst := h.running.push ho hpush
    cases hemit : emitRow F w (peers K r done).length st with
    | error e =>
      have hwhole : ¬ wholePartitionFrame w = true := by
        intro hwhole
        obtain ⟨⟨f,hf⟩,-⟩ := wholePartitionFrame_iff.mp hwhole
        cases f <;> simp [emitRow,hf,hwhole,emitAgg] at hemit
      simp only [bind,Except.bind,hemit]
      exact (emitRow_eq hK hL hst hwhole).symm.trans hemit
    | ok v =>
      simp only [bind,Except.bind,hemit]
      refine ⟨rfl,by simp [h.pos],?_,rfl,?_,?_,?_,?_⟩
      · have := h.start
        rw [peers_snoc,length_append,length_singleton]
        simp only
        omega
      · rw [peers_snoc]
        exact hst
      · rw [peers_snoc,h.rows]
        split_ifs <;> simp
      · intro a x b hsplit hpending
        rcases eq_nil_or_concat b with rfl | ⟨b',y,rfl⟩
        · obtain ⟨rfl,hr⟩ := append_inj' hsplit rfl
          cases hr
          have hwhole : ¬ wholePartitionFrame w = true := fun hwhole => hpending ⟨hwhole,rfl⟩
          rw [nil_append,← emitRow_eq hK hL hst hwhole,hemit]
          simp
        · rw [concat_eq_append,← cons_append,← append_assoc] at hsplit
          obtain ⟨rfl,hr⟩ := append_inj' hsplit rfl
          cases hr
          have hne : x.2 ≠ r.2 := by
            have hnodup := hL.nodup
            rw [map_append,nodup_append] at hnodup
            exact hnodup.2.2 x.2 (by simp) r.2 (by simp)
          simp only [Function.update_of_ne hne]
          simpa using h.settled a x b' rfl hpending
      · intro f hf hsum hwhole
        simpa [emitRow,hf,hsum] using hemit

end

/-- The visit of every row and the end of the last partition. -/
def visitAll (P : Prims) (F : FloatOps) (w : WindowDef τ) (K : WindowKeys) (rows : List Numbered)
    (l : WindowLoop) : Except AggregateError WindowLoop := do
  let l ← rows.foldlM (windowStep P F w K) l
  closePartition F w l

lemma visitAll_cons (r : Numbered) (rest : List Numbered) (l : WindowLoop) : visitAll P F w K (r::rest) l =
      (enterPartition F w K l r >>= fun l => visitRow P F w K l r >>= visitAll P F w K rest) := by
  simp only [visitAll,foldlM_cons,windowStep,bind_assoc]
  rfl

/-- A visit settles every row, or fails with the frame of a row. -/
def Outcome (P : Prims) (F : FloatOps) (columns : List OutputColumn) (w : WindowDef τ) (K : WindowKeys)
    (rows : List Numbered) (result : Except AggregateError WindowLoop) : Prop :=
  Yields result (fun l => Settled P F columns w K rows [] (fun _ => False) l.winValues)
    fun e => ∃ a x b, rows = a++x::b ∧ windowValue P F columns w K a x b = .error e

section
variable (hK : K = evalKeys P columns w)
include hK

lemma Visited.outcome (hL : SortedRows P w K (ds++d::rest))
    (h : Visited P F columns w K ds d rest l) : Outcome P F columns w K (ds++d::rest) (visitAll P F w K rest l) := by
  induction rest generalizing ds d l with
  | nil => exact (h.close hK hL (by simp)).mono (fun e he => ⟨ds,d,[],rfl,he⟩) fun l' hl' => hl'.2.2
  | cons r rest ih =>
    have hL' : SortedRows P w K ((ds++[d])++r::rest) := append_cons ds d _ ▸ hL
    rw [visitAll_cons]
    refine (h.enter hK hL).then (fun e he => ⟨ds,d,r::rest,rfl,he⟩) fun l₁ hl₁ => ?_
    refine (hl₁.visit hK hL').then (fun e he => ⟨ds++[d],r,rest,by simp,he⟩) fun l₂ hl₂ => ?_
    rw [append_cons]
    exact ih hL' hl₂

lemma visitAll_outcome (hL : SortedRows P w K L) :
    Outcome P F columns w K L (visitAll P F w K L .init) := by
  cases L with
  | nil =>
    intro a x b hsplit
    simp at hsplit
  | cons r rest =>
    rw [visitAll_cons]
    have hinit : enterPartition F w K .init r = .ok .init := rfl
    have hready : Ready P F columns w K [] r rest .init := by
      refine ⟨rfl,rfl,rfl,runningOf_init,?_,?_⟩
      · simp [WindowLoop.init,peers]
      · intro a x b hsplit
        simp at hsplit
    exact (hready.visit hK hL).then (fun e he => ⟨[],r,rest,rfl,he⟩) fun l' hl' => hl'.outcome hK hL

end

end Visit

section Condition
variable (P : Prims)

/-- On the values of every key the comparison is a linear order: distinct values
never compare as equal. -/
structure KeysOrdered (rel : Relation) (w : WindowDef τ) : Prop where
  part : ∀ e ∈ w.partitionBy,
    LinearOn (Value.cmp P.pj1Cmp) (rel.rows.map (fun row => evalExpr P e row rel.columns))
  order : ∀ k ∈ w.orderBy,
    LinearOn (Value.cmp P.pj1Cmp) (rel.rows.map (fun row => evalExpr P k.expr row rel.columns))

/-- Nulls last, in either direction. -/
lemma compareOrderValues_eq (descending : Bool) (a b : Value) : compareOrderValues P descending a b =
    (compare a.isEmpty b.isEmpty).then (if descending then (a.cmp P.pj1Cmp b).swap else a.cmp P.pj1Cmp b) := by
  cases a <;> cases b <;> cases descending <;> rfl

/-- Either direction with the nulls last is a linear order too. -/
lemma compareOrderValues_linearOn (h : LinearOn (Value.cmp P.pj1Cmp) vs) (descending : Bool) :
    LinearOn (compareOrderValues P descending) vs := by
  have hnulls : LinearOn (compare : Bool → Bool → Ordering) (vs.map Value.isEmpty) :=
    ⟨⟨fun _ _ _ _ => Std.OrientedOrd.eq_swap,fun a _ b _ c _ => by cases a <;> cases b <;> cases c <;> decide⟩,fun _ _ _ _ => compare_eq_iff_eq.mp⟩
  have hvalues : OrderedOn (fun a b => if descending then (a.cmp P.pj1Cmp b).swap else a.cmp P.pj1Cmp b) (vs.map id) := by
    rw [map_id]
    cases descending with
    | false => exact h.toOrderedOn
    | true =>
      refine ⟨fun a ha b hb => congrArg Ordering.swap (h.swap a ha b hb),fun a ha b hb c hc hab hbc => ?_⟩
      simp only [if_true,← h.swap a ha b hb,← h.swap b hb c hc,← h.swap a ha c hc] at hab hbc ⊢
      exact h.trans c hc b hb a ha hbc hab
  rw [funext₂ (compareOrderValues_eq P descending)]
  refine ⟨OrderedOn.then hnulls hvalues,fun a ha b hb hab => h.eq_of_cmp a ha b hb ?_⟩
  cases descending <;> simpa using (Ordering.then_eq_eq.mp hab).2

variable {P} {rel : Relation} {w : WindowDef τ}

lemma KeysOrdered.part_linear (h : KeysOrdered P rel w) :
    LinearOn (partitionCmp P w) (rel.rows.map (evalKeys P rel.columns w).part) := by
  have hkeys : ∀ k ∈ w.partitionBy.map (fun e => (Value.cmp P.pj1Cmp,fun row => evalExpr P e row rel.columns)),
      LinearOn k.1 (rel.rows.map k.2) := by
    intro k hk
    obtain ⟨e,he,rfl⟩ := mem_map.mp hk
    exact h.part e he
  simpa [partitionCmp,evalKeys,Function.comp_def] using lexCmp_linearOn hkeys

lemma KeysOrdered.order_linear (h : KeysOrdered P rel w) :
    LinearOn (orderCmp P w) (rel.rows.map (evalKeys P rel.columns w).order) := by
  have hkeys : ∀ k ∈ w.orderBy.map (fun s => (compareOrderValues P s.descending,
      fun row => evalExpr P s.expr row rel.columns)), LinearOn k.1 (rel.rows.map k.2) := by
    intro k hk
    obtain ⟨s,hs,rfl⟩ := mem_map.mp hk
    exact compareOrderValues_linearOn P (h.order s hs) s.descending
  simpa [orderCmp,evalKeys,Function.comp_def] using lexCmp_linearOn hkeys

/-- A visiting order of the rows: by partition, by order key, by position. -/
def VisitingOrder (P : Prims) (rel : Relation) (w : WindowDef τ) (rows : List Numbered) : Prop :=
  rows.Perm rel.rows.zipIdx ∧ rows.Pairwise (Before (rowCmp P w (evalKeys P rel.columns w)) Prod.snd)

lemma map_zipIdx_fst {β : Type} (rows : List (List Value)) (f : List Value → β) :
    rows.zipIdx.map (fun y => f y.1) = rows.map f := by
  have h : rows.zipIdx.map Prod.fst = rows := zipIdx_map_fst 0 rows
  conv_rhs => rw [← h]
  rw [map_map]
  rfl

lemma sortRows_visitingOrder (h : KeysOrdered P rel w) :
    VisitingOrder P rel w (sortRows P w (evalKeys P rel.columns w) rel.rows) := by
  have hordered : OrderedOn (rowCmp P w (evalKeys P rel.columns w)) rel.rows.zipIdx := by
    apply OrderedOn.then
    · rw [map_zipIdx_fst]
      exact h.part_linear
    · rw [map_zipIdx_fst]
      exact h.order_linear.toOrderedOn
  have hpos : rel.rows.zipIdx.Pairwise (fun a b => a.2 < b.2) := by
    have hrange : (rel.rows.zipIdx.map Prod.snd).Pairwise (· < ·) := by
      rw [zipIdx_map_snd]
      exact pairwise_lt_range'
    exact pairwise_map.mp hrange
  exact stableSort_spec (by decide) hordered hpos

lemma VisitingOrder.sortedRows (hv : VisitingOrder P rel w rows) (h : KeysOrdered P rel w) :
    SortedRows P w (evalKeys P rel.columns w) rows := by
  obtain ⟨hperm,hbefore⟩ := hv
  have hpart : LinearOn (partitionCmp P w) (rows.map (fun y => (evalKeys P rel.columns w).part y.1)) := by
    apply h.part_linear.subset
    rw [← map_zipIdx_fst]
    exact (hperm.map _).subset
  have horder : LinearOn (orderCmp P w) (rows.map (fun y => (evalKeys P rel.columns w).order y.1)) := by
    apply h.order_linear.subset
    rw [← map_zipIdx_fst]
    exact (hperm.map _).subset
  refine ⟨?_,hpart,horder,?_⟩
  · apply (hperm.map Prod.snd).nodup_iff.mpr
    rw [zipIdx_map_snd]
    exact nodup_range'
  · apply hbefore.imp_of_mem
    intro x y hx hy hxy
    have hle := hxy.ne_gt
    simp only [rowCmp] at hle
    refine ⟨?_,?_⟩
    · intro hgt
      simp [hgt] at hle
    · intro heq hgt
      have hself := hpart.cmp_self (mem_map.mpr ⟨y,hy,rfl⟩)
      rw [heq,hself] at hle
      exact hle hgt

end Condition

section Result
variable (P : Prims) (F : FloatOps)

/-- A result with the column of a window: every row keeps its values and gets
the value its partition gives it. -/
def WindowOutput (rel : Relation) (w : WindowDef τ) (out : Relation) : Prop :=
  out.columns = rel.columns++[⟨none,w.outputName⟩] ∧
  ∃ (rows : List Numbered) (win : ℕ → Value), VisitingOrder P rel w rows ∧ out.rows = rel.rows.zipIdx.map (fun r => r.1++[win r.2]) ∧
    ∀ a x b, rows = a++x::b →
      windowValue P F rel.columns w (evalKeys P rel.columns w) a x b = .ok (win x.2)

/-- A window fails on a name without a column, or on the frame of a row. -/
def WindowFailure (rel : Relation) (w : WindowDef τ) (e : AggregateError) : Prop :=
  windowKeys P rel.columns w = .error e ∨
  ∃ a x b, VisitingOrder P rel w (a++x::b) ∧
    windowValue P F rel.columns w (evalKeys P rel.columns w) a x b = .error e

/-- The windows of a query, one after the other. -/
def Windowed : Relation → List (WindowDef τ) → Except AggregateError Relation → Prop
  | rel,[],result => result = .ok rel
  | rel,w::ws,result =>
    (∃ e, result = .error e ∧ WindowFailure P F rel w e) ∨
    ∃ out, WindowOutput P F rel w out ∧ Windowed out ws result

/-- The keys of every window are ordered on the rows it is given. -/
def EachOrdered : Relation → List (WindowDef τ) → Prop
  | _,[] => True
  | rel,w::ws => KeysOrdered P rel w ∧ ∀ out, WindowOutput P F rel w out → EachOrdered out ws

variable {P F}

lemma executeWindowDef_spec (h : KeysOrdered P rel w) :
    Yields (executeWindowDef P F rel w) (WindowOutput P F rel w) (WindowFailure P F rel w) := by
  cases hkeys : windowKeys P rel.columns w with
  | error e =>
    rw [executeWindowDef,hkeys]
    exact .inl hkeys
  | ok K =>
    obtain rfl := windowKeys_eq P hkeys
    have horder := sortRows_visitingOrder h
    have hexec : executeWindowDef P F rel w =
        (visitAll P F w (evalKeys P rel.columns w) (sortRows P w (evalKeys P rel.columns w) rel.rows) .init >>=
          fun l => .ok (appendColumn rel w.outputName l.winValues)) := by
      simp only [executeWindowDef,hkeys,visitAll,bind_assoc]
      rfl
    rw [hexec]
    refine (visitAll_outcome rfl (horder.sortedRows h)).then ?_ fun l hl => ?_
    · rintro e ⟨a,x,b,hsplit,hvalue⟩
      exact .inr ⟨a,x,b,hsplit ▸ horder,hvalue⟩
    · refine ⟨rfl,_,l.winValues,horder,rfl,fun a x b hsplit => ?_⟩
      simpa using hl a x b hsplit id

end Result

section Runs

/-- Any arithmetic. -/
def FloatOps.blank : FloatOps := ⟨fun a _ => a,fun a _ => a,fun a _ => a⟩

/-- Rows of two columns. -/
def pairs (a b : String) (rows : List (Value × Value)) : Relation where
  columns := [⟨none,a⟩,⟨none,b⟩]
  rows := rows.map (fun r => [r.1,r.2])
  width := by
    intro row hrow
    obtain ⟨r,-,rfl⟩ := List.mem_map.mp hrow
    rfl

def rankByAmount : WindowDef Unit where
  function := .rank
  args := []
  partitionBy := [.field "region"]
  orderBy := [⟨.field "amount",true⟩]
  outputName := "place"
  argument_given := by simp

def sales : Relation := pairs "region" "amount" [(.int 1,.int 5),(.int 2,.int 7),(.int 1,.int 9),(.int 1,.int 5)]

/-- Numbers the rows of equal price. -/
def rowNumberByPrice : WindowDef Unit where
  function := .rowNumber
  args := []
  partitionBy := [.coalesce (.field "whole") (.field "exact")]
  orderBy := []
  outputName := "n"
  argument_given := by simp

/-- The prices 1, 1.0 and 1. -/
def prices : Relation :=
  pairs "whole" "exact" [(.int 1,.empty),(.empty,.float 0x3FF0000000000000),(.int 1,.empty)]

end Runs
end PowDB.Query
