import Mathlib.Data.List.Basic
import Mathlib.Tactic.Common

/-! Sequences of assignments to positions of a list. Running a sequence over a
list that already holds its outcome changes nothing; this is what makes redo of
whole-value writes idempotent. -/
namespace PowDB.Lib
open List
variable {α : Type}

/-- Assign in order; positions past the end are ignored. -/
def assignAll (xs : List α) : List (ℕ × α) → List α
  | [] => xs
  | (i,v)::ops => assignAll (xs.set i v) ops

@[simp] lemma assignAll_nil (xs : List α) : assignAll xs [] = xs := rfl
@[simp] lemma assignAll_cons (xs : List α) (x : ℕ × α) (ops : List (ℕ × α)) :
    assignAll xs (x::ops) = assignAll (xs.set x.1 x.2) ops := rfl

lemma assignAll_append (xs : List α) (ops ops' : List (ℕ × α)) :
    assignAll xs (ops++ops') = assignAll (assignAll xs ops) ops' := by
  induction ops generalizing xs with
  | nil => rfl
  | cons x ops ih => exact ih _

/-- A final assignment hides an earlier one to the same position. -/
lemma assignAll_set_set (xs : List α) (ops : List (ℕ × α)) (i : ℕ) (v : α) :
    (assignAll (xs.set i v) ops).set i v = (assignAll xs ops).set i v := by
  induction ops generalizing xs with
  | nil => simp
  | cons x ops ih =>
    obtain ⟨j,w⟩ := x
    simp only [assignAll_cons]
    by_cases hj : j = i
    · subst hj; rw [set_set]
    · rw [set_comm _ _ (Ne.symm hj),ih]

/-- Extending a sequence by one more assignment keeps it idempotent on its own outcome. -/
lemma assignAll_snoc_self (h : assignAll xs ops = xs)
    (i : ℕ) (v : α) : assignAll (xs.set i v) (ops++[(i,v)]) = xs.set i v := by
  rw [assignAll_append]
  simp only [assignAll_cons,assignAll_nil]
  rw [assignAll_set_set,h]

end PowDB.Lib
