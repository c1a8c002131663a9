import PowDB.Storage.DeleteFaults
import PowDB.Storage.MaintainedRun

/-! Deletes of many rows. Each way of deleting them leaves the rows that were not chosen and, in
every index, the entries of no chosen row, so that their order does not matter. -/
namespace PowDB.Storage
open Lib List Option
namespace ExpressionIndexedPath

def dropRows (P : TreeParams) (victims : List (HeapRow × ℕ)) (e : ExpressionIndexedPath) : ExpressionIndexedPath :=
  {e with entries := passing (fun r x => x ≠ (pathKey P e.canonicalText e.rootColIdx r.1,r.2)) victims e.entries}

end ExpressionIndexedPath

namespace MaintainedTable
variable {P : TreeParams} {t : MaintainedTable} {row : HeapRow} {rid : ℕ} {rids : List ℕ} {q : HeapRow × ℕ → Bool}

/-- What is left without the chosen rows, if all their keys can be read. -/
def removed (P : TreeParams) (t : MaintainedTable) (q : HeapRow × ℕ → Bool) :
    Option (List (HeapRow × ℕ) × List IndexedCol × List ExpressionIndexedPath) :=
  let victims := t.rows.filter q
  if victims.all fun r => (t.expressionKeys P r.1.values).isOk then
    some (t.rows.filter (!q ·),t.indexedCols.map (·.dropRows P victims),t.expressionIndexes.map (·.dropRows P victims))
  else none

lemma removed_congr (h : ∀ r ∈ t.rows, q r = q' r) : t.removed P q = t.removed P q' := by
  have hnot : t.rows.filter (!q ·) = t.rows.filter (!q' ·) := filter_congr fun r hr => congrArg _ (h r hr)
  rw [removed,removed,filter_congr h,hnot]

/-- The table after the delete of a row it has. -/
def without (P : TreeParams) (t : MaintainedTable) (r : HeapRow × ℕ) : MaintainedTable :=
  {t with
    rows := t.rows.filter (·.2 ≠ r.2)
    indexedCols := t.indexedCols.map (·.dropRows P [r])
    expressionIndexes := t.expressionIndexes.map (·.dropRows P [r])
    pinned := some (ridPage r.2)}

lemma delete_live (hinc : Increasing t.rows) (hr : (row,rid) ∈ t.rows) (hord : t.KeysOrdered P row.values) :
    t.delete P rid = (t.expressionKeys P row.values).map fun _ => t.without P (row,rid) := by
  have hrow : t.rowAt rid = some row := by
    cases hrow : t.rowAt rid with
    | none => exact absurd rfl (rowAt_none hrow _ hr)
    | some row' => rw [(Prod.mk.inj (hinc.eq_of_number (rowAt_some hrow) hr rfl)).1]
  have hkeys : t.expressionKeysAt P rid = t.expressionKeys P row.values := by
    rw [expressionKeysAt,hrow]
    split
    · rename_i hnil
      rw [expressionKeys,isEmpty_iff.mp hnil]
      rfl
    · rfl
  rw [delete,hkeys]
  cases hread : t.expressionKeys P row.values with
  | error e => rfl
  | ok keys =>
    obtain ⟨rfl,hok⟩ := expressionKeys_ok hread
    have hcols : deleteEntries P row rid t.indexedCols = t.indexedCols.map (·.dropRows P [(row,rid)]) := by
      rw [Agrees.deleteEntries_eq]
      exact map_congr_left fun idx _ => idx.delete_dropRows (row,rid)
    have hpaths : zipWith (fun e key => e.remove P key rid) t.expressionIndexes (t.expressionIndexes.map (givenKey P row.values)) =
        t.expressionIndexes.map (·.dropRows P [(row,rid)]) := by
      rw [zipWith_map_right,zipWith_self]
      refine map_congr_left fun e he => ?_
      rw [ExpressionIndexedPath.remove,if_pos]
      · simp only [ExpressionIndexedPath.dropRows,passing,all_cons,all_nil,Bool.and_true]
        rfl
      · by_cases hne : givenKey P row.values e = .empty
        · exact .inl (by simp [hne])
        · exact .inr (hord.givenKey he (hok e he) hne)
    rw [hrow,Option.map_some,getD_some,hcols]
    exact congrArg (fun paths => Except.ok {t.without P (row,rid) with expressionIndexes := paths}) hpaths

lemma removed_without (hinc : Increasing t.rows) (hr : (row,rid) ∈ t.rows)
    (hread : (t.expressionKeys P row.values).isOk = true) :
    (t.without P (row,rid)).removed P (·.2 ∈ rids) = t.removed P (·.2 ∈ rid::rids) := by
  set rest := (t.rows.filter (·.2 ≠ rid)).filter (·.2 ∈ rids)
  have hkeys : ∀ values, (t.without P (row,rid)).expressionKeys P values = t.expressionKeys P values := fun _ => mapM_map
  have hvict : ∀ r, r ∈ (row,rid)::rest ↔ r ∈ t.rows.filter (·.2 ∈ rid::rids) := by
    intro r
    simp only [rest,mem_cons,mem_filter,decide_eq_true_iff]
    constructor
    · rintro (rfl | ⟨⟨hrow,-⟩,hmem⟩)
      · exact ⟨hr,.inl rfl⟩
      · exact ⟨hrow,.inr hmem⟩
    · rintro ⟨hrow,heq | hmem⟩
      · exact .inl (hinc.eq_of_number hrow hr heq)
      · by_cases heq : r.2 = rid
        · exact .inl (hinc.eq_of_number hrow hr heq)
        · exact .inr ⟨⟨hrow,heq⟩,hmem⟩
  have hall : (rest.all fun r => (t.expressionKeys P r.1.values).isOk) =
      (t.rows.filter (·.2 ∈ rid::rids)).all fun r => (t.expressionKeys P r.1.values).isOk := by
    rw [Bool.eq_iff_iff,List.all_eq_true,List.all_eq_true]
    simp only [← hvict,forall_mem_cons,hread,true_and]
  have hrows : (t.rows.filter (·.2 ≠ rid)).filter (fun r => !decide (r.2 ∈ rids)) =
      t.rows.filter fun r => !decide (r.2 ∈ rid::rids) := by
    simpa only [decide_not] using (filter_not_mem_cons t.rows rid rids).symm
  have hcols : (t.indexedCols.map (·.dropRows P [(row,rid)])).map (·.dropRows P rest) =
      t.indexedCols.map (·.dropRows P (t.rows.filter (·.2 ∈ rid::rids))) := by
    rw [List.map_map]
    refine map_congr_left fun idx _ => (idx.dropRows_cons (row,rid) rest).symm.trans ?_
    rw [IndexedCol.dropRows,passing_congr hvict]
    rfl
  have hpaths : (t.expressionIndexes.map (·.dropRows P [(row,rid)])).map (·.dropRows P rest) =
      t.expressionIndexes.map (·.dropRows P (t.rows.filter (·.2 ∈ rid::rids))) := by
    rw [List.map_map]
    refine map_congr_left fun e _ => ?_
    rw [ExpressionIndexedPath.dropRows,← passing_congr hvict,passing_cons]
    rfl
  simp only [removed,hkeys]
  rw [← hall,← hrows,← hcols,← hpaths]
  rfl

/-- Deletes of rows the table has, one by one. -/
lemma deleteEach_removed (hinc : Increasing t.rows) (hnodup : rids.Nodup) (hlive : ∀ rid ∈ rids, ∃ row, (row,rid) ∈ t.rows)
    (hord : ∀ r ∈ t.rows, r.2 ∈ rids → t.KeysOrdered P r.1.values) :
    (t.deleteEach P rids).toOption.map contents = t.removed P (·.2 ∈ rids) := by
  induction rids generalizing t with
  | nil =>
    change some t.contents = _
    simp [removed,contents,IndexedCol.dropRows,ExpressionIndexedPath.dropRows,passing]
  | cons rid rids ih =>
    obtain ⟨row,hr⟩ := hlive rid mem_cons_self
    obtain ⟨hnot,hnodup⟩ := nodup_cons.mp hnodup
    have hstep := delete_live hinc hr (hord _ hr mem_cons_self)
    rw [deleteEach,foldlM_cons,hstep]
    cases hread : t.expressionKeys P row.values with
    | error e =>
      have hmem : (row,rid) ∈ t.rows.filter (·.2 ∈ rid::rids) := mem_filter.mpr ⟨hr,by simp⟩
      rw [removed,if_neg]
      · rfl
      · intro hall
        have hok := List.all_eq_true.mp hall _ hmem
        rw [hread] at hok
        cases hok
    | ok keys =>
      refine (ih (t := t.without P (row,rid)) (hinc.filter _) hnodup ?_ ?_).trans (removed_without hinc hr (by rw [hread]; rfl))
      · intro rid' hrid'
        obtain ⟨row',hr'⟩ := hlive rid' (mem_cons_of_mem _ hrid')
        refine ⟨row',mem_filter.mpr ⟨hr',decide_eq_true ?_⟩⟩
        rintro rfl
        exact hnot hrid'
      · intro r hmem hrid e he
        obtain ⟨e,he',rfl⟩ := mem_map.mp he
        exact hord r (mem_filter.mp hmem).1 (mem_cons_of_mem _ hrid) e he'

lemma deleteEach_chosen (hinc : Increasing t.rows) (hperm : rids.Perm ((t.rows.filter q).map Prod.snd))
    (hord : ∀ r ∈ t.rows, q r = true → t.KeysOrdered P r.1.values) :
    (t.deleteEach P rids).toOption.map contents = t.removed P q := by
  have hmem : ∀ r ∈ t.rows, r.2 ∈ rids ↔ q r = true := by
    intro r hr
    rw [hperm.mem_iff,List.mem_map]
    constructor
    · rintro ⟨r',hr',heq⟩
      rw [← hinc.eq_of_number (mem_filter.mp hr').1 hr heq]
      exact (mem_filter.mp hr').2
    · exact fun hq => ⟨r,mem_filter.mpr ⟨hr,hq⟩,rfl⟩
  have hnodup : ((t.rows.filter q).map Prod.snd).Nodup := pairwise_map.mpr ((hinc.filter q).imp Nat.ne_of_lt)
  rw [deleteEach_removed hinc (hperm.nodup_iff.mpr hnodup) ?_ fun r hr hrid => hord r hr ((hmem r hr).mp hrid)]
  · exact removed_congr fun r hr => by rw [Bool.eq_iff_iff,decide_eq_true_iff,hmem r hr]
  · intro rid hrid
    obtain ⟨r,hr,rfl⟩ := mem_map.mp (hperm.mem_iff.mp hrid)
    exact ⟨r.1,(mem_filter.mp hr).1⟩

lemma removed_plain (hnil : t.expressionIndexes = []) (q : HeapRow × ℕ → Bool) :
    t.removed P q = some (t.rows.filter (!q ·),t.indexedCols.map (·.dropRows P (t.rows.filter q)),t.expressionIndexes) := by
  rw [removed,if_pos,hnil]
  · rfl
  · refine List.all_eq_true.mpr fun r _ => ?_
    rw [expressionKeys,hnil]
    rfl

variable (hinc : Increasing t.rows) (hints : IntKeys t)
include hinc hints

lemma deleteMany_removed (hnodup : rids.Nodup) (hlive : ∀ rid ∈ rids, ∃ row, (row,rid) ∈ t.rows)
    (hord : ∀ r ∈ t.rows, r.2 ∈ rids → t.KeysOrdered P r.1.values) :
    (t.deleteMany P rids).toOption.map contents = t.removed P (·.2 ∈ rids) := by
  rw [deleteMany]
  split_ifs with hslow
  · exact deleteEach_removed hinc hnodup hlive hord
  · simp only [Bool.or_eq_true,Bool.not_eq_true',not_or,Bool.not_eq_false,List.isEmpty_iff] at hslow
    obtain ⟨hrest,htaken⟩ := Agrees.takeRows_spec hinc rids
    have hvict : ∀ r, r ∈ (takeRows t.rows rids).1 ↔ r ∈ t.rows.filter (·.2 ∈ rids) := by
      intro r
      rw [htaken,mem_filter,decide_eq_false_iff_not,not_not,decide_eq_true_iff]
    have hcols : t.indexedCols.map (sweepInts (takeRows t.rows rids).1) =
        t.indexedCols.map (·.dropRows P (t.rows.filter (·.2 ∈ rids))) := by
      rw [hints.sweepInts_map hslow.2 fun r hr => ((htaken r).mp hr).1]
      refine map_congr_left fun idx _ => ?_
      rw [IndexedCol.dropRows,passing_congr hvict]
      rfl
    rw [removed_plain hslow.1,← hcols]
    simp only [← decide_not,← hrest]
    rfl

lemma scan_removed (pred : HeapRow → Bool) (lastPage : ℕ) (hord : ∀ r ∈ t.rows, pred r.1 = true → t.KeysOrdered P r.1.values) :
    (t.scanDeleteMatching P pred lastPage).toOption.map contents = t.removed P fun r => pred r.1 := by
  rw [scanDeleteMatching]
  split
  · exact deleteEach_chosen hinc (.refl _) hord
  · rename_i hslow
    rw [hints.scanned,removed_plain (by simpa using hslow)]
    rfl

omit hinc hints

/-- Keys from documents, and a path index whose left leaf has the keys 2^53+1: a search for a smaller
key ends there. -/
def twoLeaves : TreeParams where
  pj1Cmp := compare
  scalarAt _ document := .ok (match document with
    | [0] => .int 9007199254740993
    | [1] => .float 0x4340000000000000
    | [2] => .int 9007199254740992
    | _ => .empty)
  strayLookup _ _ := none
  strayEntries e key rid :=
    if e.entries.any fun x => x.1 = .int 9007199254740993 && Value.cmp compare x.1 key = .gt then e.entries
    else e.entries.filter fun x => x ≠ (key,rid)

/-- A number with a unique index, and a document with a path index. -/
def documents (docs : List (Bytes × Value × ℕ)) : MaintainedTable where
  columns := [⟨"n",.int,false⟩,⟨"d",.json,false⟩]
  rows := docs.map fun d => ([⟨.int (.ofNat d.2.2),false⟩,⟨.json d.1,true⟩],d.2.2)
  indexedCols := [⟨⟨0,true,docs.map fun d => (.int (.ofNat d.2.2),d.2.2)⟩,"n",true⟩]
  expressionIndexes := [⟨"d","d.k",false,1,docs.map Prod.snd,docs.map fun d => d.2.1⟩]
  overflowPages := []
  pinned := none

end MaintainedTable
end PowDB.Storage
