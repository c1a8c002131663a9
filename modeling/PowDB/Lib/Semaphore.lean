import Mathlib.Algebra.BigOperators.Fin
import Mathlib.Algebra.Order.BigOperators.Group.Finset
import Mathlib.Data.List.Nodup
import Mathlib.Data.Fintype.Card

/-! A counting semaphore with a fair queue, and the account of its permits: what is free, what
each party holds and what each party queues for. -/
namespace PowDB.Lib
open List Function
variable {ι : Type}

structure Semaphore (ι : Type) where
  free : ℕ
  queue : List (ι × ℕ)
  deriving DecidableEq

namespace Semaphore
variable [DecidableEq ι]

/-- Take permits at once, or not at all; nobody overtakes the queue. -/
def tryAcquire (sem : Semaphore ι) (n : ℕ) : Option (Semaphore ι) :=
  if sem.queue = [] ∧ n ≤ sem.free then some { sem with free := sem.free-n } else none

def enqueue (sem : Semaphore ι) (i : ι) (n : ℕ) : Semaphore ι := { sem with queue := sem.queue++[(i,n)] }

/-- The head of the queue gets its permits once they are free. -/
def grant (sem : Semaphore ι) (i : ι) : Option (Semaphore ι) :=
  match sem.queue with
  | [] => none
  | (j,n)::rest => if j = i ∧ n ≤ sem.free then some ⟨sem.free-n,rest⟩ else none

/-- Leave the queue. -/
def withdraw (sem : Semaphore ι) (i : ι) : Semaphore ι := { sem with queue := sem.queue.filter (·.1 ≠ i) }

def release (sem : Semaphore ι) (n : ℕ) : Semaphore ι := { sem with free := sem.free+n }

end Semaphore

/-- What one party's step does to a semaphore, with the permits it holds and queues for before
and after. -/
inductive SemMove [DecidableEq ι] (i : ι) (sem : Semaphore ι) : ℕ → Option ℕ → Semaphore ι → ℕ → Option ℕ → Prop
  | same (held : ℕ) (need : Option ℕ) : SemMove i sem held need sem held need
  | take {n held : ℕ} {sem' : Semaphore ι} (h : sem.tryAcquire n = some sem') :
    SemMove i sem held none sem' (n+held) none
  | enqueue (n held : ℕ) : SemMove i sem held none (sem.enqueue i n) held (some n)
  | grant {n held : ℕ} {sem' : Semaphore ι} (h : sem.grant i = some sem') : SemMove i sem held (some n) sem' (n+held) none
  | withdraw (n held : ℕ) : SemMove i sem held (some n) (sem.withdraw i) held none
  | release (n held : ℕ) : SemMove i sem (n+held) none (sem.release n) held none

/-- The permits add up to `total` and the queue is the parties that wait. -/
structure Account [Fintype ι] (total : ℕ) (sem : Semaphore ι) (held : ι → ℕ) (need : ι → Option ℕ) : Prop where
  balanced : sem.free+∑ i, held i = total
  queued : ∀ i n, (i,n) ∈ sem.queue ↔ need i = some n
  nodup : (sem.queue.map Prod.fst).Nodup

lemma sum_update_add [DecidableEq ι] [Fintype ι] (f : ι → ℕ) (i : ι) (n : ℕ) :
    ∑ j, Function.update f i n j+f i = ∑ j, f j+n := by
  rw [Finset.sum_update_of_mem (Finset.mem_univ i),← Finset.add_sum_erase _ f (Finset.mem_univ i),
    Finset.sdiff_singleton_eq_erase]
  omega

namespace Account
variable [Fintype ι] {total : ℕ} {sem : Semaphore ι} {held : ι → ℕ} {need : ι → Option ℕ} {i : ι}

lemma not_mem_queue (h : Account total sem held need) (hi : need i = none) : i ∉ sem.queue.map Prod.fst := by
  intro hmem
  obtain ⟨⟨j,n⟩,hj,rfl⟩ := mem_map.mp hmem
  rw [(h.queued j n).mp hj] at hi
  cases hi

/-- Who still waits when the queue changes for one party only. -/
lemma queued_update [DecidableEq ι] (h : Account total sem held need) {queue : List (ι × ℕ)}
    (hself : ∀ n, (i,n) ∈ queue ↔ need' = some n) (hother : ∀ j n, j ≠ i → ((j,n) ∈ queue ↔ (j,n) ∈ sem.queue)) :
    ∀ j n, (j,n) ∈ queue ↔ Function.update need i need' j = some n := by
  intro j n
  by_cases hj : j = i
  · subst hj
    rw [update_self]
    exact hself n
  · rw [update_of_ne hj,hother j n hj]
    exact h.queued j n

/-- Every step of a party keeps the account. -/
lemma move [DecidableEq ι] (h : Account total sem held need) {held' : ℕ}
    (hmove : SemMove i sem (held i) (need i) sem' held' need') :
    Account total sem' (Function.update held i held') (Function.update need i need') := by
  have hsum := sum_update_add held i held'
  have hbal := h.balanced
  generalize hheld : held i = a at hmove hsum
  generalize hneed : need i = b at hmove
  cases hmove with
  | same =>
    rw [← hheld,← hneed,update_eq_self,update_eq_self]
    exact h
  | @take n _ sem' htake =>
    unfold Semaphore.tryAcquire at htake
    split_ifs at htake with hfree
    cases htake
    rw [← hneed,update_eq_self]
    exact ⟨by simp only; omega,h.queued,h.nodup⟩
  | enqueue n =>
    have hnew := h.not_mem_queue hneed
    have hout : ∀ m, (i,m) ∉ sem.queue := fun m hm => hnew (mem_map_of_mem hm)
    refine ⟨by simp only [Semaphore.enqueue]; omega,h.queued_update ?_ ?_,?_⟩
    · intro m
      simp [Semaphore.enqueue,hout m,eq_comm]
    · intro j m hj
      simp [Semaphore.enqueue,hj]
    · rw [Semaphore.enqueue,map_append]
      exact h.nodup.append (by simp) (by simpa using hout)
  | @grant n _ sem' hgrant =>
    unfold Semaphore.grant at hgrant
    split at hgrant
    case h_1 => cases hgrant
    case h_2 j m rest hqueue =>
      split_ifs at hgrant with hhead
      cases hgrant
      obtain ⟨rfl,hfree⟩ := hhead
      have hm : need j = some m := (h.queued j m).mp (hqueue ▸ mem_cons_self)
      cases hneed.symm.trans hm
      have hnodup := h.nodup
      rw [hqueue,map_cons,nodup_cons] at hnodup
      have hout : ∀ k, (j,k) ∉ rest := by
        intro k hk
        exact hnodup.1 (mem_map.mpr ⟨(j,k),hk,rfl⟩)
      refine ⟨by simp only; omega,h.queued_update ?_ ?_,hnodup.2⟩
      · intro k
        simp [hout k]
      · intro k l hk
        rw [hqueue]
        simp [hk]
  | withdraw n =>
    refine ⟨by simp only [Semaphore.withdraw]; omega,h.queued_update ?_ ?_,?_⟩
    · intro m
      simp [Semaphore.withdraw]
    · intro j m hj
      simp [Semaphore.withdraw,hj]
    · exact h.nodup.sublist (filter_sublist.map _)
  | release n =>
    rw [← hneed,update_eq_self]
    exact ⟨by simp only [Semaphore.release]; omega,h.queued,h.nodup⟩

section
variable (h : Account total sem held need)
include h

/-- Two parties hold no more than there is. -/
lemma held_add_le (hij : i ≠ j) : held i+held j ≤ total := by
  classical
  have hpair : ∑ k ∈ {i,j}, held k ≤ ∑ k, held k := Finset.sum_le_sum_of_subset (Finset.subset_univ _)
  rw [Finset.sum_pair hij] at hpair
  have := h.balanced
  omega

/-- Who holds everything leaves nothing to the others. -/
lemma eq_zero_of_all (hi : held i = total) (hij : i ≠ j) : held j = 0 := by
  have := h.held_add_le hij
  omega

/-- When the others hold nothing, everything a party does not hold is free. -/
lemma free_of_alone (hi : ∀ j, j ≠ i → held j = 0) :
    sem.free+held i = total := by
  have hsum : ∑ j, held j = held i := Finset.sum_eq_single i (fun j _ hj => hi j hj) (fun hi => absurd (Finset.mem_univ i) hi)
  have := h.balanced
  omega

/-- Nobody holds or waits: the semaphore is as it was made. -/
lemma eq_initial (hheld : ∀ i, held i = 0) (hneed : ∀ i, need i = none) :
    sem = ⟨total,[]⟩ := by
  obtain ⟨free,queue⟩ := sem
  have hfree : free = total := by simpa [hheld] using h.balanced
  have hqueue : queue = [] := by
    apply eq_nil_iff_forall_not_mem.mpr
    rintro ⟨i,n⟩ hmem
    have := (h.queued i n).mp hmem
    rw [hneed i] at this
    cases this
  rw [hfree,hqueue]

end

end Account
end PowDB.Lib
