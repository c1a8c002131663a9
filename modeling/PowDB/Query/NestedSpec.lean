import PowDB.Lib.Outcome
import PowDB.Query.Nested

/-! Nested projections against the evaluation of each parent by itself: a scan of
the child table for the parent's own key, and so on for every child row. -/
namespace PowDB.Query
open Storage (Value KeyedTable ColumnIndex columnValue Sound Exact)
open Lib List Option
variable {τ : Type}

section Spec
variable (P : Prims) (J : JsonText) (db : Tables)

mutual
/-- The names and bounds of all levels. -/
def validate : NestedProjection τ → Except NestedError Unit
  | .mk block fields => do
    let _ ← checkLevel db block fields
    validateFields fields

def validateFields : NestedFields τ → Except NestedError Unit
  | .nil => .ok ()
  | .scalar _ _ rest => validateFields rest
  | .nested _ inner rest => do
    validate inner
    validateFields rest
end

/-- A child row of a parent: it has the parent's key and passes the residual. -/
def childMatches (block : NestedBlock τ) (t : KeyedTable) (key : Value) (row : List Value) : Bool :=
  decide (columnValue (columnPos t block.childKey) row = key) && !key.isEmpty && residualHolds P block t row

mutual
/-- The array of one parent. -/
def perParent (key : Value) : NestedProjection τ → String
  | .mk block fields =>
    match checkLevel db block fields with
    | .error _ => "[]"
    | .ok (t,limit,offset) =>
      let rows := (t.rows.map Prod.fst).filter (childMatches P block t key)
      arrayText ((trim P block t limit offset rows).map (fun row => objectText J (perParentParts t row fields)))

def perParentParts (t : KeyedTable) (row : List Value) : NestedFields τ → List (String × String)
  | .nil => []
  | .scalar key column rest =>
    (key,J.value (columnValue (columnPos t column) row))::perParentParts t row rest
  | .nested parentKey inner rest =>
    (inner.block.name,perParent (columnValue (columnPos t parentKey) row) inner)::perParentParts t row rest
end

def rowWithKey (t : KeyedTable) (c : ℕ) (key : Value) : Option (List Value) :=
  (t.rows.map Prod.fst).find? (fun row => columnValue c row = key)

/-- A scalar link from one value. -/
def followLinks : List ScalarLinkHop → Value → Value
  | [],v => v
  | hop::hops,v =>
    if v.isEmpty then .empty
    else
      match db hop.table with
      | none => .empty
      | some t =>
        followLinks hops (((rowWithKey t (columnPos t hop.keyCol) v).map
          (columnValue (columnPos t hop.outCol))).getD .empty)

/-- The names of all hops, and that their keys are unique. -/
def validateLinks (name : String) : List ScalarLinkHop → Except NestedError Unit
  | [] => .ok ()
  | hop::hops => do
    let t ← checkHop db hop
    let _ ← insertPairs name hop [] (hopPairs hop t (t.rows.map Prod.fst))
    validateLinks name hops

/-- The value of a field for one parent row. -/
def perParentValue (parent : Relation) (row : List Value) : ProjectField τ → Except NestedError Value
  | .plain _ e => .ok (evalExpr P e row parent.columns)
  | .nested parentKey n =>
    let key := columnValue (parent.columns.findIdx (· == parentKey)) row
    match P.parseJsonText (perParent P J db key n) with
    | none => .error (.invalidJson n.block.name)
    | some doc => .ok (.json doc)
  | .link _ firstFk hops =>
    .ok (followLinks db hops (columnValue (parent.columns.findIdx (· == firstFk)) row))

def validateField (parent : Relation) : ProjectField τ → Except NestedError Unit
  | .plain _ _ => .ok ()
  | .nested parentKey n =>
    if parent.columns.any (· == parentKey) then validate db n
    else .error (.outerColumnNotFound n.block.name parentKey)
  | .link name firstFk hops =>
    if parent.columns.any (· == firstFk) then validateLinks db name hops
    else .error (.outerColumnNotFound name firstFk)

/-- Every parent row by itself. -/
def perParentProject (parent : Relation) (fields : List (ProjectField τ)) :
    Except NestedError (List String × List (List Value)) := do
  fields.forM (validateField db parent)
  let rows ← parent.rows.mapM (fun row => fields.mapM (perParentValue P J db parent row))
  .ok (fields.map ProjectField.name,rows)

end Spec

section Gather
variable {P : Prims}
  {key : Value}

lemma flatMap_single {α β : Type} [DecidableEq α] {xs : List α} {g : α → List β} {x : α} (hnodup : xs.Nodup)
    (hx : x ∈ xs) (hother : ∀ y ∈ xs, y ≠ x → g y = []) : xs.flatMap g = g x := by
  induction xs with
  | nil => simp at hx
  | cons y ys ih =>
    obtain ⟨hy,hys⟩ := nodup_cons.mp hnodup
    rw [flatMap_cons]
    by_cases hyx : y = x
    · subst hyx
      have hrest : ys.flatMap g = [] := by
        rw [flatMap_eq_nil_iff]
        intro z hz
        exact hother z (mem_cons_of_mem _ hz) (fun h => hy (h ▸ hz))
      rw [hrest,append_nil]
    · have hmem : x ∈ ys := (mem_cons.mp hx).resolve_left (Ne.symm hyx)
      rw [hother y mem_cons_self hyx,nil_append]
      exact ih hys hmem (fun z hz => hother z (mem_cons_of_mem _ hz))

lemma rowAt_eq (hs : Sound t) (hr : r ∈ t.rows) : t.rowAt r.2 = some r.1 := by
  cases hfind : t.rows.find? (fun x => x.2 = r.2) with
  | none =>
    have hnone := find?_eq_none.mp hfind r hr
    simp at hnone
  | some x =>
    have hx : x.2 = r.2 := by simpa using find?_some hfind
    have heq := hs.increasing.eq_of_number (mem_of_find?_eq_some hfind) hr hx
    simp [KeyedTable.rowAt,hfind,heq]

/-- The rows an index finds are those a scan finds. -/
lemma rows_of_image (hs : Sound t) (c : ℕ) (hkey : key ≠ .empty) :
    (((t.image c).filter (fun x => x.1 = key)).map Prod.snd).filterMap t.rowAt =
      (t.rows.map Prod.fst).filter (fun row => columnValue c row = key) := by
  simp only [KeyedTable.image,← List.filterMap_eq_filter,← List.filterMap_eq_map,List.filterMap_filterMap]
  refine filterMap_congr fun r hr => ?_
  by_cases he : columnValue c r.1 = .empty
  · have hne : ¬ columnValue c r.1 = key := fun h => hkey (h.symm.trans he)
    simp [keepNumber,Storage.indexed_eq_none.mpr he,Option.guard,hne]
  · by_cases hk : columnValue c r.1 = key <;> simp [keepNumber,Storage.indexed_of_ne he,Option.guard,hk,rowAt_eq hs hr]

lemma indexOn_spec (h : indexOn t c = some idx) : idx ∈ t.indexes ∧ idx.colIdx = c := by
  refine ⟨mem_of_find?_eq_some h,?_⟩
  simpa using find?_some h

/-- A probe finds the rows with its key. -/
lemma probe_rows [Exact P.pj1Cmp] (hs : Sound t)
    (hidx : indexOn t c = some idx) (hkey : key ≠ .empty) (ht : key.typeId = t.columnType c) :
    (idx.lookupAll (Value.cmp P.pj1Cmp) key).filterMap t.rowAt =
      (t.rows.map Prod.fst).filter (fun row => columnValue c row = key) := by
  obtain ⟨hmem,hcol⟩ := indexOn_spec hidx
  subst hcol
  rw [(hs.indexes idx hmem).lookupAll (hs.distinct idx hmem) ht]
  exact rows_of_image hs idx.colIdx hkey

/-- Whatever the strategy, the gathered rows of a parent are its child rows. -/
lemma gather_filter [Exact P.pj1Cmp] (hs : Sound t) (block : NestedBlock τ)
    {keys : List Value} (hnodup : keys.Nodup) (hkeys : ∀ k ∈ keys, k ≠ .empty) (hkey : key ∈ keys) :
    (gather P block t keys).filter (fun row => columnValue (columnPos t block.childKey) row = key) =
      (t.rows.map Prod.fst).filter (childMatches P block t key) := by
  have hne := hkeys key hkey
  simp only [gather]
  split_ifs with hprobe
  · obtain ⟨idx,hidx⟩ : ∃ idx, indexOn t (columnPos t block.childKey) = some idx := by
      cases hidx : indexOn t (columnPos t block.childKey) with
      | none => simp [childIndexProbePaysOff,hidx] at hprobe
      | some idx => exact ⟨idx,rfl⟩
    simp only [hprobe,Bool.not_true,Bool.false_and,Bool.not_false,Bool.true_or,Bool.and_true,hidx,map_some,
      getD_some]
    rw [filter_flatMap]
    have hother : ∀ k ∈ keys, k ≠ key →
        (if k.typeId ≠ t.columnType (columnPos t block.childKey) then []
          else ((idx.lookupAll (Value.cmp P.pj1Cmp) k).filterMap t.rowAt).filter (fun row =>
            !(columnValue (columnPos t block.childKey) row).isEmpty && residualHolds P block t row)).filter
          (fun row => decide (columnValue (columnPos t block.childKey) row = key)) = [] := by
      intro k hk hkk
      split_ifs with ht
      · rfl
      · rw [probe_rows hs hidx (hkeys k hk) (not_not.mp ht)]
        simp only [List.filter_filter,List.filter_eq_nil_iff]
        intro row _ hrow
        simp only [Bool.and_eq_true,decide_eq_true_eq] at hrow
        exact hkk (hrow.2.2.symm.trans hrow.1)
    rw [flatMap_single hnodup hkey hother]
    split_ifs with ht
    · symm
      simp only [List.filter_nil,List.filter_eq_nil_iff,List.mem_map]
      rintro row ⟨r,hr,rfl⟩ hmatch
      simp only [childMatches,Bool.and_eq_true,decide_eq_true_eq] at hmatch
      rcases hs.typed r hr (columnPos t block.childKey) with he | hty
      · exact hne (hmatch.1.1.symm.trans he)
      · rw [hmatch.1.1] at hty
        exact ht hty
    · rw [probe_rows hs hidx hne (not_not.mp ht),List.filter_filter,List.filter_filter]
      refine filter_congr ?_
      intro row _
      by_cases hrow : columnValue (columnPos t block.childKey) row = key <;>
        simp [childMatches,hrow]
  · rw [List.filter_filter]
    refine filter_congr ?_
    intro row _
    by_cases hrow : columnValue (columnPos t block.childKey) row = key <;>
      simp [childMatches,hrow,hkey]

lemma gather_empty (block : NestedBlock τ) (keys : List Value) :
    (gather P block t keys).filter (fun row => columnValue (columnPos t block.childKey) row = .empty) = [] := by
  simp only [filter_eq_nil_iff,decide_eq_true_eq]
  intro row hrow he
  simp only [gather] at hrow
  split_ifs at hrow with hprobe
  · obtain ⟨k,-,hrow⟩ := mem_flatMap.mp hrow
    split_ifs at hrow
    · simp at hrow
    · have hkept := (mem_filter.mp hrow).2
      simp [he] at hkept
  · have hkept := (mem_filter.mp hrow).2
    simp [he] at hkept

end Gather

section Assemble

lemma checkLevel_table
    (h : checkLevel db block fields = .ok (t,limit,offset)) : db block.table = some t := by
  simp only [checkLevel] at h
  split at h
  · cases h
  · rename_i t' ht
    simp only [bind,Except.bind] at h
    repeat' split at h
    all_goals cases h
    exact ht


lemma mem_trim
    (h : row ∈ trim P block t limit offset rows) : row ∈ rows := by
  have hdrop : row ∈ (orderRows P block t rows).drop (offset.getD 0) := by
    cases limit with
    | none => exact h
    | some n => exact mem_of_mem_take h
  have horder := mem_of_mem_drop hdrop
  simp only [orderRows] at horder
  split_ifs at horder
  · exact horder
  · exact (sortRun_perm _).mem_iff.mp horder

lemma trim_nil (block : NestedBlock τ) (t : KeyedTable) (limit offset : Option ℕ) :
    trim P block t limit offset [] = [] := by
  apply eq_nil_iff_forall_not_mem.mpr
  intro row hrow
  exact absurd (mem_trim hrow) List.not_mem_nil

lemma arrayText_nil : arrayText [] = "[]" := rfl

/-- The text a bucket map gives for a key, whether or not the key has a bucket. -/
lemma lookup_buckets (pos : ℕ) (f : List (List Value) → String) (hf : f [] = "[]") (rows : List (List Value))
    (k : Value) : (((buckets (columnValue pos) rows).map (fun b => (b.1,f b.2))).lookup k).getD "[]" =
      f (rows.filter (fun row => columnValue pos row = k)) := by
  rw [← bucket_buckets,lookup_map_value]
  cases hl : (buckets (columnValue pos) rows).lookup k <;> simp [bucket,hl,hf]

lemma distinctNonNull_nodup (rows : List (List Value)) (pos : ℕ) : (distinctNonNull rows pos).Nodup :=
  nodup_dedup _

lemma mem_distinctNonNull :
    k ∈ distinctNonNull rows pos ↔ k ≠ .empty ∧ ∃ row ∈ rows, columnValue pos row = k := by
  simp only [distinctNonNull,List.mem_dedup,List.mem_filter,List.mem_map]
  constructor
  · rintro ⟨⟨row,hrow,rfl⟩,hne⟩
    exact ⟨by simpa using hne,row,hrow,rfl⟩
  · rintro ⟨hne,row,hrow,rfl⟩
    exact ⟨⟨row,hrow,rfl⟩,by simpa using hne⟩

lemma key_given (hrow : row ∈ rows) :
    columnValue pos row ∈ distinctNonNull rows pos ∨ columnValue pos row = .empty := by
  by_cases he : columnValue pos row = .empty
  · exact .inr he
  · exact .inl (mem_distinctNonNull.mpr ⟨he,row,hrow,rfl⟩)

mutual
/-- The arrays of all parents are the arrays of each parent by itself. -/
lemma assemble_spec [Exact P.pj1Cmp] (hdb : ∀ name t, db name = some t → Sound t) :
    ∀ (n : NestedProjection τ) (keys : List Value), keys.Nodup → (∀ k ∈ keys, k ≠ .empty) →
    FailsAs (validate db n) (assembleNestedArrays P J db keys n) fun m =>
      ∀ k, k ∈ keys ∨ k = .empty → (m.lookup k).getD "[]" = perParent P J db k n
  | .mk block fields,keys,hnodup,hne => by
    rw [validate,assembleNestedArrays]
    refine FailsAs.after ?_
    rintro ⟨t,limit,offset⟩ hlevel
    have hs := hdb _ _ (checkLevel_table hlevel)
    refine (sources_spec hdb fields t (if keys.isEmpty then [] else gather P block t keys)).map ?_
    intro sources hparts k hk
    simp only [perParent,hlevel]
    by_cases hkeys : keys.isEmpty = true
    · have hnone : keys = [] := by simpa using hkeys
      subst hnone
      have hempty : k = .empty := by simpa using hk
      subst hempty
      have hrows : (t.rows.map Prod.fst).filter (childMatches P block t .empty) = [] := by
        simp [childMatches,Value.isEmpty]
      simp [hrows,trim_nil,arrayText_nil]
    · simp only [if_neg hkeys] at hparts ⊢
      simp only [buildArrays]
      rw [lookup_buckets _ (fun rows => arrayText ((trim P block t limit offset rows).map (fun row =>
        objectText J (sources.map (fun s => (s.1,sourceText J row s.2)))))) (by simp [trim_nil,arrayText_nil])]
      have hrows : (gather P block t keys).filter (fun row => columnValue (columnPos t block.childKey) row = k) =
          (t.rows.map Prod.fst).filter (childMatches P block t k) := by
        rcases hk with hk | rfl
        · exact gather_filter hs block hnodup hne hk
        · rw [gather_empty]
          simp [childMatches,Value.isEmpty]
      have hgathered : ∀ row ∈ (gather P block t keys).filter
          (fun row => columnValue (columnPos t block.childKey) row = k), row ∈ gather P block t keys :=
        fun row hrow => (mem_filter.mp hrow).1
      rw [hrows] at hgathered ⊢
      refine congrArg arrayText (map_congr_left ?_)
      intro row hrow
      rw [hparts row (hgathered row (mem_trim hrow))]

lemma sources_spec [Exact P.pj1Cmp] (hdb : ∀ name t, db name = some t → Sound t) :
    ∀ (fields : NestedFields τ) (t : KeyedTable) (rows : List (List Value)),
    FailsAs (validateFields db fields) (assembleSources P J db t rows fields) fun sources =>
      ∀ row ∈ rows, sources.map (fun s => (s.1,sourceText J row s.2)) = perParentParts P J db t row fields
  | .nil,t,rows => by
    rw [validateFields,assembleSources]
    exact ⟨[],rfl,by simp [perParentParts]⟩
  | .scalar key column rest,t,rows => by
    rw [validateFields,assembleSources]
    refine (sources_spec hdb rest t rows).map ?_
    intro sources hparts row hrow
    rw [map_cons,hparts row hrow,perParentParts]
    rfl
  | .nested parentKey inner rest,t,rows => by
    rw [validateFields,assembleSources]
    refine (assemble_spec hdb inner (distinctNonNull rows (columnPos t parentKey))
      (distinctNonNull_nodup _ _) (fun k hk => (mem_distinctNonNull.mp hk).1)).bind ?_
    intro _ build harrays
    refine (sources_spec hdb rest t rows).map ?_
    intro sources hparts row hrow
    rw [map_cons,hparts row hrow,perParentParts]
    simp only [sourceText,harrays _ (key_given hrow)]
end

end Assemble

section Links
variable {P : Prims} {t : KeyedTable}
  {hop : ScalarLinkHop}

lemma insertPairs_ok_iff : insertPairs name hop m ps = .ok m' ↔
    m' = ps.reverse++m ∧ (ps.map Prod.fst).Nodup ∧ ∀ p ∈ ps, List.lookup p.1 m = none := by
  induction ps generalizing m with
  | nil =>
    rw [insertPairs,Except.ok.injEq,eq_comm]
    simp
  | cons p ps ih =>
    have hcons : ∀ q ∈ ps, List.lookup q.1 (p::m) = none ↔ q.1 ≠ p.1 ∧ List.lookup q.1 m = none := by
      intro q _
      by_cases hq : q.1 = p.1
      · simp [hq]
      · simp [lookup_cons_of_ne m hq,hq]
    rw [insertPairs,reverse_cons,append_assoc,map_cons,nodup_cons,forall_mem_cons]
    split_ifs with hdup
    · simp only [isSome_iff_ne_none.mp hdup,false_and,and_false]
    · rw [ih,forall₂_congr hcons,not_isSome_iff_eq_none.mp hdup,List.mem_map]
      simp only [singleton_append,forall_and,not_exists,not_and,true_and]
      tauto

lemma lookup_of_graph {f : Value → Option Value} (hm : ∀ p ∈ m, f p.1 = some p.2)
    {k : Value} (hk : ∀ v, f k = some v → ∃ p ∈ m, p.1 = k) : List.lookup k m = f k := by
  cases hl : lookup k m with
  | some v => exact (hm (k,v) (mem_of_lookup hl)).symm
  | none =>
    cases hf : f k with
    | none => rfl
    | some v =>
      obtain ⟨p,hp,rfl⟩ := hk v hf
      have hnone := lookup_eq_none_iff.mp hl p hp
      simp at hnone

lemma rowWithKey_spec (h : rowWithKey t c key = some row) :
    row ∈ t.rows.map Prod.fst ∧ columnValue c row = key := by
  refine ⟨mem_of_find?_eq_some h,?_⟩
  simpa using find?_some h

lemma indexLookup_eq [Exact P.pj1Cmp] (hs : Sound t)
    (hidx : indexOn t c = some idx) (hu : idx.unique = true) (hkey : key ≠ .empty)
    (ht : key.typeId = t.columnType c) : indexLookup P t c key = rowWithKey t c key := by
  have hrows := congrArg List.head? (probe_rows (P := P) hs hidx hkey ht)
  rw [head?_filter] at hrows
  simp only [indexLookup,hidx,hu,rowWithKey]
  rw [← hrows,ColumnIndex.lookupAll,if_pos hu]
  cases idx.lookup (Value.cmp P.pj1Cmp) key with
  | none => rfl
  | some rid => cases hr : t.rowAt rid <;> simp [hr]

lemma mem_hopPairs :
    p ∈ hopPairs hop t rows ↔ p.1 ≠ .empty ∧ ∃ row ∈ rows, columnValue (columnPos t hop.keyCol) row = p.1 ∧
      columnValue (columnPos t hop.outCol) row = p.2 := by
  simp only [hopPairs,List.mem_map,List.mem_filter]
  constructor
  · rintro ⟨row,⟨hrow,hne⟩,rfl⟩
    exact ⟨by simpa using hne,row,hrow,rfl,rfl⟩
  · rintro ⟨hne,row,hrow,hk,hv⟩
    exact ⟨row,⟨hrow,by simpa [hk] using hne⟩,by simp [hk,hv]⟩

/-- The keys of a hop are those of an index on its column. -/
lemma keys_hopPairs (hop : ScalarLinkHop) :
    (hopPairs hop t (t.rows.map Prod.fst)).map Prod.fst = (t.image (columnPos t hop.keyCol)).map Prod.fst := by
  simp only [hopPairs,KeyedTable.image]
  induction t.rows with
  | nil => rfl
  | cons r rows ih =>
    by_cases he : columnValue (columnPos t hop.keyCol) r.1 = .empty
    · simpa [keepNumber,Storage.indexed_eq_none.mpr he,he] using ih
    · simpa [keepNumber,Storage.indexed_of_ne he,he] using ih

/-- The value of a key, by a scan. -/
def hopValue (hop : ScalarLinkHop) (t : KeyedTable) (key : Value) : Option Value :=
  (rowWithKey t (columnPos t hop.keyCol) key).map (columnValue (columnPos t hop.outCol))

/-- Rows of the table, among them the one of the key, give its value. -/
lemma lookup_hopPairs (hnodup : ((hopPairs hop t (t.rows.map Prod.fst)).map Prod.fst).Nodup)
    (hsub : ∀ row ∈ rows, row ∈ t.rows.map Prod.fst) {k : Value} (hk : k ≠ .empty)
    (hfind : ∀ row, rowWithKey t (columnPos t hop.keyCol) k = some row → row ∈ rows) :
    List.lookup k (hopPairs hop t rows).reverse = hopValue hop t k := by
  apply lookup_of_graph
  · intro p hp
    obtain ⟨hne,row,hrow,hkey,hval⟩ := mem_hopPairs.mp (mem_reverse.mp hp)
    cases hfind : rowWithKey t (columnPos t hop.keyCol) p.1 with
    | none =>
      have hnone := find?_eq_none.mp hfind row (hsub row hrow)
      simp [hkey] at hnone
    | some row' =>
      obtain ⟨hrow',hkey'⟩ := rowWithKey_spec hfind
      have hmem : p ∈ hopPairs hop t (t.rows.map Prod.fst) := mem_hopPairs.mpr ⟨hne,row,hsub row hrow,hkey,hval⟩
      have hmem' : (p.1,columnValue (columnPos t hop.outCol) row') ∈ hopPairs hop t (t.rows.map Prod.fst) :=
        mem_hopPairs.mpr ⟨hne,row',hrow',hkey',rfl⟩
      rw [hopValue,hfind,← inj_on_of_nodup_map hnodup hmem' hmem rfl]
      rfl
  · intro v hv
    obtain ⟨row,hrow,rfl⟩ := map_eq_some_iff.mp hv
    exact ⟨(k,columnValue (columnPos t hop.outCol) row),
      mem_reverse.mpr (mem_hopPairs.mpr ⟨hk,row,hfind row hrow,(rowWithKey_spec hrow).2,rfl⟩),rfl⟩

/-- Whatever the strategy, a map has the value of every key it is asked for. -/
lemma linkMap_spec [Exact P.pj1Cmp] (hs : Sound t) (name : String) (hop : ScalarLinkHop)
    {keys : List Value} (hkeys : ∀ k ∈ keys, k ≠ .empty) :
    FailsAs (insertPairs name hop [] (hopPairs hop t (t.rows.map Prod.fst))) (linkMap P name hop t keys) fun m =>
      ∀ k ∈ keys, List.lookup k m = hopValue hop t k := by
  simp only [linkMap]
  split_ifs with hprobe
  · obtain ⟨idx,hidx,hu⟩ : ∃ idx, indexOn t (columnPos t hop.keyCol) = some idx ∧ idx.unique = true := by
      cases hidx : indexOn t (columnPos t hop.keyCol) with
      | none => simp [hidx] at hprobe
      | some idx =>
        refine ⟨idx,rfl,?_⟩
        simp only [hidx,Bool.and_eq_true] at hprobe
        exact hprobe.1
    obtain ⟨hmem,hcol⟩ := indexOn_spec hidx
    have hnodup : ((hopPairs hop t (t.rows.map Prod.fst)).map Prod.fst).Nodup := by
      rw [keys_hopPairs,← hcol]
      exact hs.distinct idx hmem hu
    rw [insertPairs_ok_iff.mpr ⟨rfl,hnodup,fun _ _ => rfl⟩]
    refine ⟨_,rfl,fun k hk => lookup_hopPairs hnodup ?_ (hkeys k hk) ?_⟩
    · intro row hrow
      obtain ⟨k',hk',hlook⟩ := mem_filterMap.mp hrow
      obtain ⟨hk',ht⟩ := mem_filter.mp hk'
      rw [indexLookup_eq hs hidx hu (hkeys k' hk') (by simpa using ht)] at hlook
      exact (rowWithKey_spec hlook).1
    · intro row hrow
      obtain ⟨hmemrow,hkey⟩ := rowWithKey_spec hrow
      obtain ⟨r,hr,rfl⟩ := mem_map.mp hmemrow
      have ht : k.typeId = t.columnType (columnPos t hop.keyCol) := by
        rcases hs.typed r hr (columnPos t hop.keyCol) with he | hty
        · exact absurd (hkey.symm.trans he) (hkeys k hk)
        · rw [← hkey]
          exact hty
      refine mem_filterMap.mpr ⟨k,mem_filter.mpr ⟨hk,by simpa using ht⟩,?_⟩
      rw [indexLookup_eq hs hidx hu (hkeys k hk) ht]
      exact hrow
  · cases hm : insertPairs name hop [] (hopPairs hop t (t.rows.map Prod.fst)) with
    | error e => rfl
    | ok m =>
      obtain ⟨rfl,hnodup,-⟩ := insertPairs_ok_iff.mp hm
      rw [append_nil]
      exact ⟨_,rfl,fun k hk => lookup_hopPairs hnodup (fun _ h => h) (hkeys k hk) fun row h => (rowWithKey_spec h).1⟩

lemma walkLinks_empty (maps : List (List (Value × Value))) : walkLinks .empty maps = .empty := by
  induction maps with
  | nil => rfl
  | cons m maps ih => exact ih

lemma checkHop_table (h : checkHop db hop = .ok t) : db hop.table = some t := by
  simp only [checkHop] at h
  split at h
  · cases h
  · rename_i t' ht
    simp only [bind,Except.bind] at h
    repeat' split at h
    all_goals cases h
    exact ht

/-- The maps of a link walk every value as the link is followed from it. -/
lemma buildScalarLinkMaps_spec [Exact P.pj1Cmp]
    (hdb : ∀ name t, db name = some t → Sound t) (name : String) (hops : List ScalarLinkHop) :
    ∀ keys : List Value, (∀ k ∈ keys, k ≠ .empty) →
    FailsAs (validateLinks db name hops) (buildScalarLinkMaps P db name hops keys) fun maps =>
      ∀ v, v ∈ keys ∨ v = .empty → walkLinks v maps = followLinks db hops v := by
  induction hops with
  | nil =>
    intro keys _
    exact ⟨[],rfl,fun v _ => rfl⟩
  | cons hop hops ih =>
    intro keys hkeys
    rw [validateLinks,buildScalarLinkMaps]
    refine FailsAs.after ?_
    intro t hhop
    have ht := checkHop_table hhop
    refine (linkMap_spec (P := P) (hdb _ _ ht) name hop hkeys).bind ?_
    intro _ m hlookup
    refine (ih (((keys.filterMap (fun k => lookup k m)).filter (fun v => !v.isEmpty)).dedup) (by simp)).map ?_
    intro maps hwalk v hv
    by_cases he : v = .empty
    · subst he
      rw [walkLinks_empty]
      simp [followLinks]
    · have hv' := hv.resolve_right he
      have hstep : walkLinks v (m::maps) = walkLinks ((hopValue hop t v).getD .empty) maps := by
        simp [walkLinks,he,hlookup v hv']
      have hfollow : followLinks db (hop::hops) v = followLinks db hops ((hopValue hop t v).getD .empty) := by
        simp [followLinks,he,ht,hopValue]
      rw [hstep,hfollow]
      apply hwalk
      by_cases hnext : (hopValue hop t v).getD .empty = .empty
      · exact .inr hnext
      · left
        simp only [mem_dedup,mem_filter,mem_filterMap]
        refine ⟨⟨v,hv',?_⟩,by simpa using hnext⟩
        rw [hlookup v hv']
        cases hval : hopValue hop t v with
        | none => simp [hval] at hnext
        | some u => rfl

end Links

section Project
variable {P : Prims}

lemma findIdx_cases (columns : List OutputColumn) (column : OutputColumn) :
    (columns.findIdx? (· == column) = none ∧ columns.any (· == column) = false) ∨
    ∃ pos, columns.findIdx? (· == column) = some pos ∧ columns.any (· == column) = true ∧
      columns.findIdx (· == column) = pos := by
  cases hpos : columns.findIdx? (· == column) with
  | none =>
    left
    refine ⟨rfl,?_⟩
    rw [← findIdx?_isSome,hpos]
    rfl
  | some pos =>
    right
    refine ⟨pos,rfl,?_,(findIdx?_eq_some_iff_findIdx_eq.mp hpos).2⟩
    rw [← findIdx?_isSome,hpos]
    rfl

/-- One field: what is built for all parents gives the value of each. -/
lemma buildField_spec [Exact P.pj1Cmp] (hdb : ∀ name t, db name = some t → Sound t)
    (parent : Relation) (field : ProjectField τ) :
    FailsAs (validateField db parent field) (buildField P J db parent field) fun build =>
      ∀ row ∈ parent.rows, fieldValue P parent row field build = perParentValue P J db parent row field := by
  cases field with
  | plain name e => exact ⟨.plain,rfl,fun row _ => rfl⟩
  | nested parentKey n =>
    simp only [validateField,buildField]
    rcases findIdx_cases parent.columns parentKey with ⟨hpos,hany⟩ | ⟨pos,hpos,hany,hidx⟩
    · simp [hpos,hany,FailsAs]
    · simp only [hpos,hany,if_true]
      refine (assemble_spec hdb n (distinctNonNull parent.rows pos) (distinctNonNull_nodup _ _)
        (fun k hk => (mem_distinctNonNull.mp hk).1)).map ?_
      intro build harrays row hrow
      simp only [fieldValue,perParentValue,hidx,harrays _ (key_given hrow)]
      rfl
  | link name firstFk hops =>
    simp only [validateField,buildField]
    rcases findIdx_cases parent.columns firstFk with ⟨hpos,hany⟩ | ⟨pos,hpos,hany,hidx⟩
    · simp [hpos,hany,FailsAs]
    · simp only [hpos,hany,if_true]
      refine (buildScalarLinkMaps_spec hdb name hops (distinctNonNull parent.rows pos)
        (fun k hk => (mem_distinctNonNull.mp hk).1)).map ?_
      intro maps hwalk row hrow
      simp only [fieldValue,perParentValue,hidx,hwalk _ (key_given hrow)]

lemma mapM_congr_mem {ε α β : Type} {f g : α → Except ε β} {xs : List α} (h : ∀ x ∈ xs, f x = g x) :
    xs.mapM f = xs.mapM g := by
  induction xs with
  | nil => rfl
  | cons x xs ih =>
    rw [mapM_cons,mapM_cons,h x mem_cons_self,ih (fun y hy => h y (mem_cons_of_mem _ hy))]

lemma buildFields_spec [Exact P.pj1Cmp] (hdb : ∀ name t, db name = some t → Sound t)
    (parent : Relation) (fields : List (ProjectField τ)) :
    FailsAs (fields.forM (validateField db parent)) (fields.mapM (buildField P J db parent)) fun builds =>
      ∀ row ∈ parent.rows, (fields.zip builds).mapM (fun f => fieldValue P parent row f.1 f.2) =
        fields.mapM (perParentValue P J db parent row) := by
  induction fields with
  | nil => exact ⟨[],rfl,fun row _ => rfl⟩
  | cons field fields ih =>
    rw [mapM_cons]
    refine (buildField_spec hdb parent field).bind (w := fun _ => fields.forM (validateField db parent)) ?_
    intro _ build hvalue
    refine ih.map ?_
    intro builds hvalues row hrow
    rw [zip_cons_cons,mapM_cons,mapM_cons,hvalue row hrow,hvalues row hrow]

/-- A nested projection over tables with sound indexes. -/
lemma executeNestedProject_eq [Exact P.pj1Cmp]
    (hdb : ∀ name t, db name = some t → Sound t) (parent : Relation) (fields : List (ProjectField τ)) :
    executeNestedProject P J db parent fields = perParentProject P J db parent fields := by
  have hspec := buildFields_spec (P := P) (J := J) hdb parent fields
  simp only [executeNestedProject,perParentProject,bind,Except.bind]
  cases hvalid : fields.forM (validateField db parent) with
  | error e =>
    rw [hvalid] at hspec
    rw [show fields.mapM (buildField P J db parent) = .error e from hspec]
  | ok u =>
    rw [hvalid] at hspec
    obtain ⟨builds,hbuilds,hvalues⟩ := hspec
    rw [hbuilds]
    simp only
    rw [mapM_congr_mem hvalues]

end Project

section Histories
open Storage (CoerceOps Schema TableStep TimestampsGiven sound_empty ColumnDef)

/-- A table from its creation on. -/
structure TableHistory where
  columns : Schema
  steps : List TableStep

def TableHistory.created (h : TableHistory) : KeyedTable := ⟨h.columns,[],[]⟩

/-- The tables after everything that was done to them. -/
def builtTables (P : Prims) (C : CoerceOps) (histories : List (String × TableHistory)) : Tables := fun name =>
  (histories.lookup name).map (fun h => h.created.run C (Value.cmp P.pj1Cmp) h.steps)

/-- In every run that gives no integer to a timestamp column with a non-unique
index, nested projections are those of each parent row by itself. -/
theorem nestedProject_per_parent (P : Prims) (J : JsonText) (C : CoerceOps)
    (hjson : ∀ a b, P.pj1Cmp a b = .eq ↔ a = b) (histories : List (String × TableHistory))
    (hgiven : ∀ h ∈ histories, TimestampsGiven C (Value.cmp P.pj1Cmp) h.2.created h.2.steps)
    (parent : Relation) (fields : List (ProjectField τ)) :
    executeNestedProject P J (builtTables P C histories) parent fields =
      perParentProject P J (builtTables P C histories) parent fields := by
  have : Exact P.pj1Cmp := ⟨hjson⟩
  refine executeNestedProject_eq ?_ parent fields
  intro name t ht
  obtain ⟨h,hlookup,rfl⟩ := map_eq_some_iff.mp ht
  exact (sound_empty h.columns).run (hgiven (name,h) (mem_of_lookup hlookup))

/-- Documents as the bytes of their text. -/
def textPrims : Prims :=
  {Prims.blank with pj1Cmp := compare,parseJsonText := fun s => some (s.toList.map (fun c => UInt8.ofNat c.toNat))}

def plainText : JsonText := ⟨id,fun _ => "v"⟩

def noCoercions : CoerceOps := ⟨fun _ => none,fun _ => none,fun _ => none,fun _ => none⟩

/-- Four visits at different times, under a non-unique index on the time. -/
def visits (keyType : Storage.TypeId) (key : Int64 → Value) : TableHistory where
  columns := [⟨"at",keyType,false⟩]
  steps := [.createIndex 0 false,.insert [key 1] 1,.insert [key 2] 2,.insert [key 3] 3,.insert [key 4] 4]

def oneParent (key : Value) : Relation where
  columns := [⟨some "u","at"⟩]
  rows := [[key]]
  width := by simp

def visitsOfParent : List (ProjectField Unit) :=
  [.nested ⟨some "u","at"⟩ (.mk ⟨"visits","Visit","at",none,[],none,none⟩ (.scalar "at" "at" .nil))]

theorem visits_by_int_key :
    childIndexProbePaysOff ((visits .int .int).created.run noCoercions (Value.cmp compare) (visits .int .int).steps) 0 1 = true ∧
    executeNestedProject textPrims plainText (builtTables textPrims noCoercions [("Visit",visits .int .int)])
      (oneParent (.int 1)) visitsOfParent =
    perParentProject textPrims plainText (builtTables textPrims noCoercions [("Visit",visits .int .int)])
      (oneParent (.int 1)) visitsOfParent := by
  refine ⟨by decide +kernel,nestedProject_per_parent textPrims plainText noCoercions ?_ _ ?_ _ _⟩
  · intro a b
    exact Std.compare_eq_iff_eq
  · intro h hh
    rw [mem_singleton.mp hh]
    decide +kernel

theorem visits_by_timestamp_missed :
    (executeNestedProject textPrims plainText
      (builtTables textPrims noCoercions [("Visit",visits .dateTime .int)]) (oneParent (.dateTime 1)) visitsOfParent).map
        Prod.snd = .ok [[.json [91,93]]] ∧
    (perParentProject textPrims plainText
      (builtTables textPrims noCoercions [("Visit",visits .dateTime .int)]) (oneParent (.dateTime 1)) visitsOfParent).map
        Prod.snd = .ok [[.json [91,123,97,116,58,118,125,93]]] := by
  decide +kernel

end Histories
end PowDB.Query
