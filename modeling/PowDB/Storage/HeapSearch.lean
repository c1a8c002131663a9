import PowDB.Storage.Heap
import Mathlib

/-! The search for a page with room ends: a page that the summary offers and the row does not fit
is filed below what the row asks for, so no entry of the free list is looked at twice. -/
namespace PowDB.Storage.HeapFile
open List
variable {h h' : HeapFile} {need : ℕ}

/-- How many entries of the free list a search for that much space can come to. -/
def offered (h : HeapFile) (need : ℕ) : ℕ :=
  ((range' (freeBucket need+1) (freeBucketCount-(freeBucket need+1))).map fun b => (h.freeBuckets b).length).sum

lemma offered_le (h : HeapFile) (need : ℕ) : h.offered need ≤ h.freeListSize := by
  have hcount : freeBucketCount = freeBucket need+1+(freeBucketCount-(freeBucket need+1)) := by
    simp only [freeBucket,freeBucketCount,pageSize,freeBucketBytes]
    omega
  rw [freeListSize,range_eq_range',hcount,← range'_append_1,zero_add,map_append,sum_append]
  exact Nat.le_add_left _ _

lemma popBucket_shrinks (hp : popBucket f b l = (some i,rest)) : rest.length < l.length := by
  induction l with
  | nil => cases hp
  | cons j l ih =>
    rw [popBucket] at hp
    split at hp
    · cases hp
      exact Nat.lt_succ_self _
    · exact (ih hp).trans (Nat.lt_succ_self _)

lemma takeFreePageIn_shrinks (ht : h.takeFreePageIn bs = (some i,h')) :
    (∀ b, (h'.freeBuckets b).length ≤ (h.freeBuckets b).length) ∧
      ∃ b ∈ bs, (h'.freeBuckets b).length < (h.freeBuckets b).length := by
  induction bs generalizing h with
  | nil => cases ht
  | cons b bs ih =>
    rw [takeFreePageIn] at ht
    rcases hpop : popBucket h.bucketOfPage b (h.freeBuckets b) with ⟨_ | j,rest⟩ <;> simp only [hpop] at ht
    · obtain ⟨hle,c,hc,hlt⟩ := ih ht
      have hdrop : ∀ c, (Function.update h.freeBuckets b [] c).length ≤ (h.freeBuckets c).length := by
        intro c
        by_cases hc : c = b <;> simp [hc]
      exact ⟨fun c => (hle c).trans (hdrop c),c,mem_cons_of_mem b hc,hlt.trans_le (hdrop c)⟩
    · cases ht
      have hlt := popBucket_shrinks hpop
      refine ⟨fun c => ?_,b,mem_cons_self,by simpa using hlt⟩
      by_cases hc : c = b <;> simp [hc,hlt.le]

lemma takeFreePageIn_empty (he : ∀ b ∈ bs, h.freeBuckets b = []) : h.takeFreePageIn bs = (none,h) := by
  induction bs with
  | nil => rfl
  | cons b bs ih =>
    obtain ⟨hb,he⟩ := forall_mem_cons.mp he
    have hsame : Function.update h.freeBuckets b [] = h.freeBuckets := hb ▸ Function.update_eq_self ..
    simp only [takeFreePageIn,hb,popBucket,hsame]
    exact ih he

/-- A page is filed above what a row asks for only with more space than that. -/
lemma noteFreeBytes_offered (i : ℕ) (hfree : free ≤ need) : (h.noteFreeBytes i free).offered need = h.offered need := by
  refine congrArg sum (map_congr_left fun b hb => ?_)
  have hdiv : min free 65535/freeBucketBytes ≤ need/freeBucketBytes :=
    Nat.div_le_div_right ((min_le_left _ _).trans hfree)
  have hne : b ≠ freeBucket (min free 65535) := by
    have := (mem_range'_1.mp hb).1
    simp only [freeBucket] at this ⊢
    omega
  unfold noteFreeBytes
  dsimp only
  split_ifs <;> simp [hne]

lemma insertSearch_succ (r : Row) (fuel : ℕ) (hfuel : h.offered (r.len+slotEntrySize) ≤ fuel) :
    insertSearch (fuel+1) h r = insertSearch fuel h r := by
  induction fuel generalizing h with
  | zero =>
    have hnone : h.takeFreePage (r.len+slotEntrySize) = (none,h) := by
      refine takeFreePageIn_empty fun b hb => length_eq_zero_iff.mp ?_
      exact sum_eq_zero_iff.mp (Nat.le_zero.mp hfuel) _ (mem_map_of_mem hb)
    simp only [insertSearch,hnone]
  | succ fuel ih =>
    rw [insertSearch,insertSearch.eq_def (fuel+1)]
    dsimp only
    rcases ht : h.takeFreePage (r.len+slotEntrySize) with ⟨_ | i,h₁⟩
    · rfl
    have hlt : h₁.offered (r.len+slotEntrySize) < h.offered (r.len+slotEntrySize) := by
      obtain ⟨hle,hlt⟩ := takeFreePageIn_shrinks ht
      exact sum_lt_sum _ _ (fun b _ => hle b) hlt
    dsimp only
    split
    · rfl
    · apply ih
      rw [noteFreeBytes_offered i (by omega)]
      refine Nat.le_of_lt_succ (lt_of_lt_of_le ?_ hfuel)
      split <;> exact hlt

/-- An insert looks at no more candidate pages than the free list has entries, however far the
summary overstates their space: a longer search would end with the same page or the same refusal. -/
theorem insert_search_ends (h : HeapFile) (r : Row) (extra : ℕ) :
    insertSearch (h.freeListSize+extra) h r = insertSearch h.freeListSize h r := by
  induction extra with
  | zero => rw [Nat.add_zero]
  | succ extra ih => rw [← Nat.add_assoc,insertSearch_succ r _ ((offered_le h _).trans (Nat.le_add_right _ _)),ih]

end PowDB.Storage.HeapFile
