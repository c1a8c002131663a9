import Mathlib.Data.List.Basic
import Mathlib.Tactic.Common

/-! Lists whose items carry consecutive numbers, cut at a number or put together from blocks. -/
namespace PowDB.Lib
open List
variable {α β : Type} {num : α → ℕ}

/-- The items are numbered `a`, `a+1` and so on. -/
def Consecutive (num : α → ℕ) : ℕ → List α → Prop
  | _, [] => True
  | a, x::xs => num x = a ∧ Consecutive num (a+1) xs

instance decidableConsecutive (num : α → ℕ) : (a : ℕ) → (xs : List α) → Decidable (Consecutive num a xs)
  | _, [] => .isTrue trivial
  | a, _::xs =>
    have := decidableConsecutive num (a+1) xs
    inferInstanceAs (Decidable (_ ∧ _))

namespace Consecutive

lemma append_iff : Consecutive num a (xs++ys) ↔ Consecutive num a xs ∧ Consecutive num (a+xs.length) ys := by
  induction xs generalizing a with
  | nil => simp [Consecutive]
  | cons x xs ih =>
    simp only [cons_append,Consecutive,ih,length_cons,and_assoc]
    rw [show a+1+xs.length = a+(xs.length+1) by omega]

lemma bounds (h : Consecutive num a xs) (hx : x ∈ xs) : a ≤ num x ∧ num x < a+xs.length := by
  induction xs generalizing a with
  | nil => simp at hx
  | cons y xs ih =>
    obtain ⟨hy,h⟩ := h
    rw [length_cons]
    rcases mem_cons.mp hx with rfl | hx
    · omega
    · have := ih h hx
      omega

/-- The items from a number on are a tail of the list. -/
lemma filter_le (h : Consecutive num a xs) (n : ℕ) : xs.filter (n ≤ num ·) = xs.drop (n-a) := by
  induction xs generalizing a with
  | nil => simp
  | cons x xs ih =>
    obtain ⟨rfl,h⟩ := h
    rw [filter_cons]
    by_cases hn : n ≤ num x
    · rw [if_pos (by simpa using hn),ih h,show n-num x = 0 by omega,show n-(num x+1) = 0 by omega]
      rfl
    · rw [if_neg (by simpa using hn),ih h,show n-num x = n-(num x+1)+1 by omega]
      rfl

lemma getElem?_of_mem (h : Consecutive num a xs) (hx : x ∈ xs) : xs[num x-a]? = some x := by
  induction xs generalizing a with
  | nil => simp at hx
  | cons y xs ih =>
    obtain ⟨rfl,h⟩ := h
    rcases mem_cons.mp hx with rfl | hx
    · simp
    · have := h.bounds hx
      rw [show num x-num y = num x-(num y+1)+1 by omega]
      exact ih h hx

/-- Consecutive items among other consecutive ones are a block of them. -/
lemma eq_take_drop (h : Consecutive num a xs) (h' : Consecutive num b ys) (hsub : ys ⊆ xs) :
    ys = (xs.drop (b-a)).take ys.length := by
  induction ys generalizing b with
  | nil => simp
  | cons y ys ih =>
    obtain ⟨rfl,h'⟩ := h'
    obtain ⟨hy,hsub⟩ := cons_subset.mp hsub
    have := h.bounds hy
    rw [drop_eq_getElem?_toList_append,h.getElem?_of_mem hy,show num y-a+1 = num y+1-a by omega]
    exact congrArg (y::·) (ih h' hsub)

/-- A loop over items numbered up to `last` that passes over those before its position while it has
not started, and then moves on by one with each item, ends after them or returns at the one numbered
`stop`. -/
lemma scan {σ τ ε : Type} (loop : σ → List α → Except ε (σ ⊕ τ)) (pos : σ → ℕ) (started : σ → Bool) (P : σ → Prop)
    (R : τ → Prop) {Q : α → Prop} {r : σ} (hnil : ∀ r, loop r [] = .ok (.inl r))
    (hskip : ∀ r x xs, started r = false → num x < pos r → loop r (x::xs) = loop r xs)
    (hstep : ∀ r x xs, P r → Q x → num x = pos r → pos r < stop →
      ∃ r', loop r (x::xs) = loop r' xs ∧ P r' ∧ pos r' = pos r+1 ∧ started r' = true)
    (hstop : ∀ r x xs, P r → Q x → num x = pos r → pos r = stop → ∃ t, loop r (x::xs) = .ok (.inr t) ∧ R t)
    (h : Consecutive num a xs) (hlast : last+1 = a+xs.length) (hQ : ∀ x ∈ xs, Q x) (hP : P r) (ha : a ≤ pos r)
    (hsync : started r = true → a = pos r) (hr : started r = true ∨ pos r ≤ last) (hle : pos r ≤ stop) :
    (last < stop ∧ ∃ r', loop r xs = .ok (.inl r') ∧ P r' ∧ pos r' = last+1 ∧ started r' = true) ∨
      stop ≤ last ∧ ∃ t, loop r xs = .ok (.inr t) ∧ R t := by
  induction xs generalizing a r with
  | nil =>
    rw [length_nil] at hlast
    have hst := hr.resolve_right (by omega)
    have := hsync hst
    exact .inl ⟨by omega,r,hnil r,hP,by omega,hst⟩
  | cons x xs ih =>
    obtain ⟨rfl,h⟩ := h
    obtain ⟨hx,hxs⟩ := forall_mem_cons.mp hQ
    rw [length_cons] at hlast
    by_cases hlt : num x < pos r
    · have hnot : started r = false := Bool.eq_false_iff.mpr fun h => Nat.ne_of_lt hlt (hsync h)
      rw [hskip r x xs hnot hlt]
      exact ih h (by omega) hxs hP hlt (by simp [hnot]) hr hle
    · have hpos : num x = pos r := by omega
      by_cases hat : pos r = stop
      · exact .inr ⟨by omega,hstop r x xs hP hx hpos hat⟩
      · obtain ⟨r',heq,hP,hnext,hst⟩ := hstep r x xs hP hx hpos (by omega)
        rw [heq]
        exact ih h (by omega) hxs hP (by omega) (fun _ => by omega) (.inl hst) (by omega)

end Consecutive
end PowDB.Lib
