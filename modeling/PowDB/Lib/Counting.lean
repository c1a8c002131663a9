import Mathlib.Algebra.BigOperators.Fin
import Mathlib.Algebra.Order.BigOperators.Group.Finset
import Mathlib.Data.List.Sort
import Mathlib.Data.Fintype.Card

/-! Counting: how many members of a finite type have a property when one of them changes, and
how many entries of a sorted list lie below one of its first. -/
namespace PowDB.Lib
open List Finset

lemma card_filter_change {ι : Type} [Fintype ι] [DecidableEq ι] (p q : ι → Prop) [DecidablePred p] [DecidablePred q]
    (i : ι) (h : ∀ j, j ≠ i → (q j ↔ p j)) :
    (univ.filter q).card+(if p i then 1 else 0) = (univ.filter p).card+(if q i then 1 else 0) := by
  have hrest : ∑ j ∈ univ.erase i, (if q j then 1 else 0) = ∑ j ∈ univ.erase i, if p j then 1 else 0 := by
    apply sum_congr rfl
    intro j hj
    simp only [h j (ne_of_mem_erase hj)]
  rw [card_filter,card_filter,← add_sum_erase _ _ (mem_univ i),
    ← add_sum_erase _ (fun j => if p j then 1 else 0) (mem_univ i),hrest]
  omega

/-- An entry among the first `n` of a strictly sorted list has fewer than `n` below it. -/
lemma countP_lt_of_mem_take {α : Type} [LinearOrder α] {l : List α} (hl : l.Pairwise (· < ·)) {x : α}
    (hx : x ∈ l.take n) : l.countP (· < x) < n := by
  induction l generalizing n with
  | nil => simp at hx
  | cons y l ih =>
    obtain ⟨hy,hl⟩ := pairwise_cons.mp hl
    cases n with
    | zero => simp at hx
    | succ n =>
      rw [take_succ_cons] at hx
      rcases mem_cons.mp hx with rfl | hx
      · have hnone : l.countP (· < x) = 0 := by
          rw [countP_eq_zero]
          intro z hz
          simpa using (hy z hz).le
        simp [hnone]
      · have := ih hl hx
        rw [countP_cons]
        split <;> omega

end PowDB.Lib
