import Mathlib.Data.List.Basic

/-! A walk along the edges of a finite graph that takes every node it meets off a
list of unmarked nodes, each node once. What stays on the list has no edge coming
from the start or from a node that was taken off. -/
namespace PowDB.Lib
open List
variable {α : Type} [DecidableEq α]

/-- Meet the successors of one node: those still unmarked are marked and queued. -/
def visit : List α → List α → List α → List α × List α
  | [], queue, clean => (queue,clean)
  | x::xs, queue, clean =>
    if x ∈ clean then visit xs (x::queue) (clean.filter (· ≠ x)) else visit xs queue clean

/-- The nodes left unmarked. -/
def spread (succ : α → List α) : ℕ → List α → List α → List α
  | 0, _, clean => clean
  | _+1, [], clean => clean
  | n+1, x::queue, clean =>
    spread succ n (visit (succ x) queue clean).1 (visit (succ x) queue clean).2

lemma filter_ne_length_lt {xs : List α} (hx : x ∈ xs) :
    (xs.filter (· ≠ x)).length < xs.length := by
  apply length_filter_lt_length_iff_exists.mpr
  exact ⟨x,hx,by simp⟩

/-- Whatever is taken off the list is on the queue, and no successor stays on the list. -/
lemma visit_spec (xs queue clean : List α) :
    (visit xs queue clean).2 ⊆ clean ∧ (∀ x ∈ xs, x ∉ (visit xs queue clean).2) ∧
      (∀ x ∈ queue, x ∈ (visit xs queue clean).1) ∧
      (∀ x ∈ clean, x ∉ (visit xs queue clean).2 → x ∈ (visit xs queue clean).1) ∧
      (visit xs queue clean).1.length+(visit xs queue clean).2.length ≤ queue.length+clean.length := by
  induction xs generalizing queue clean with
  | nil => exact ⟨fun _ h => h,by simp,fun _ h => h,fun x hx hn => absurd hx hn,Nat.le_refl _⟩
  | cons y ys ih =>
    rw [visit]
    split
    · rename_i hy
      obtain ⟨hsub,hsucc,hqueue,hnew,hlen⟩ := ih (y::queue) (clean.filter (· ≠ y))
      refine ⟨fun x hx => (mem_filter.mp (hsub hx)).1,?_,
        fun x hx => hqueue x (mem_cons_of_mem _ hx),fun x hx hn => ?_,?_⟩
      · intro x hx hmem
        rcases mem_cons.mp hx with rfl | hx
        · exact absurd (mem_filter.mp (hsub hmem)).2 (by simp)
        · exact hsucc x hx hmem
      · by_cases hxy : x = y
        · subst hxy
          exact hqueue x mem_cons_self
        · exact hnew x (mem_filter.mpr ⟨hx,by simpa using hxy⟩) hn
      · have := filter_ne_length_lt hy
        simp only [length_cons] at hlen
        omega
    · rename_i hy
      obtain ⟨hsub,hsucc,hqueue,hnew,hlen⟩ := ih queue clean
      refine ⟨hsub,fun x hx hmem => ?_,hqueue,hnew,hlen⟩
      rcases mem_cons.mp hx with rfl | hx
      · exact hy (hsub hmem)
      · exact hsucc x hx hmem

lemma spread_subset (succ : α → List α) (fuel : ℕ) (queue clean : List α) :
    spread succ fuel queue clean ⊆ clean := by
  induction fuel generalizing queue clean with
  | zero => exact fun _ h => h
  | succ n ih =>
    cases queue with
    | nil => exact fun _ h => h
    | cons x queue => exact fun _ h => (visit_spec (succ x) queue clean).1 (ih _ _ h)

/-- With fuel for every node, the nodes left have no edge from the queue or from a marked node. -/
lemma spread_closed (succ : α → List α)
    (hfuel : queue.length+clean.length ≤ fuel) (x : α)
    (hx : x ∈ queue ∨ (x ∈ clean ∧ x ∉ spread succ fuel queue clean)) :
    ∀ y ∈ succ x, y ∉ spread succ fuel queue clean := by
  induction fuel generalizing queue clean with
  | zero =>
    have hq : queue = [] := length_eq_zero_iff.mp (by omega)
    rcases hx with hx | ⟨hx,hn⟩
    · simp [hq] at hx
    · exact absurd hx hn
  | succ n ih =>
    cases queue with
    | nil =>
      rcases hx with hx | ⟨hx,hn⟩
      · cases hx
      · exact absurd hx hn
    | cons z queue =>
      obtain ⟨hsub,hsucc,hqueue,hnew,hlen⟩ := visit_spec (succ z) queue clean
      simp only [length_cons] at hfuel
      have hlen' : (visit (succ z) queue clean).1.length+(visit (succ z) queue clean).2.length ≤ n := by
        omega
      simp only [spread] at hx ⊢
      rcases hx with hx | ⟨hx,hn⟩
      · rcases mem_cons.mp hx with rfl | hx
        · exact fun y hy hmem => hsucc y hy (spread_subset _ _ _ _ hmem)
        · exact ih hlen' (.inl (hqueue x hx))
      · by_cases hc : x ∈ (visit (succ z) queue clean).2
        · exact ih hlen' (.inr ⟨hc,hn⟩)
        · exact ih hlen' (.inl (hnew x hx hc))

end PowDB.Lib
