import Mathlib.Tactic.Common

/-! Computations on a state that may fail, and that keep the state they had reached when they
do. `Ends` is their weakest precondition, with one postcondition for a value and one for a
failure; its rules rewrite a computation step by step. -/
namespace PowDB.Lib

def Attempt (σ ε α : Type) := σ → Except ε α × σ

namespace Attempt
variable {σ ε α β : Type}
  {x : Attempt σ ε α}

instance : Monad (Attempt σ ε) where
  pure a := fun s => (.ok a,s)
  bind x f := fun s =>
    match x s with
    | (.ok a,s') => f a s'
    | (.error e,s') => (.error e,s')

def fail (e : ε) : Attempt σ ε α := fun s => (.error e,s)
def read : Attempt σ ε σ := fun s => (.ok s,s)
def write (s : σ) : Attempt σ ε Unit := fun _ => (.ok (),s)
def modify (f : σ → σ) : Attempt σ ε Unit := fun s => (.ok (),f s)

/-- Started in `s` the computation returns with `Q`, or fails with `E`. -/
def Ends (x : Attempt σ ε α) (s : σ) (Q : α → σ → Prop) (E : σ → Prop) : Prop :=
  match x s with
  | (.ok a,s') => Q a s'
  | (.error _,s') => E s'


@[simp] lemma ends_pure : (pure a : Attempt σ ε α).Ends s Q E ↔ Q a s := Iff.rfl
@[simp] lemma ends_fail : (fail e : Attempt σ ε α).Ends s Q E ↔ E s := Iff.rfl
@[simp] lemma ends_read {Q : σ → σ → Prop} : (read : Attempt σ ε σ).Ends s Q E ↔ Q s s := Iff.rfl
@[simp] lemma ends_write {Q : Unit → σ → Prop} : (write t : Attempt σ ε Unit).Ends s Q E ↔ Q () t := Iff.rfl
@[simp] lemma ends_modify {Q : Unit → σ → Prop} :
    (modify f : Attempt σ ε Unit).Ends s Q E ↔ Q () (f s) := Iff.rfl

@[simp] lemma ends_bind {f : α → Attempt σ ε β} {Q : β → σ → Prop} :
    (x >>= f).Ends s Q E ↔ x.Ends s (fun a s' => (f a).Ends s' Q E) E := by
  simp only [Ends,bind]
  rcases x s with ⟨_ | _,_⟩ <;> rfl

@[simp] lemma ends_ite [Decidable p] :
    (if p then x else y).Ends s Q E ↔ if p then x.Ends s Q E else y.Ends s Q E := by
  split <;> rfl

lemma Ends.mono {Q' : α → σ → Prop} (h : x.Ends s Q E) (hQ : ∀ a t, Q a t → Q' a t) (hE : ∀ t, E t → E' t) :
    x.Ends s Q' E' := by
  rw [Ends] at h ⊢
  split at h
  · exact hQ _ _ h
  · exact hE _ h

/-- The state a computation leaves, whichever way it ends. -/
lemma Ends.state (h : x.Ends s (fun _ => P) P) : P (x s).2 := by
  rw [Ends] at h
  rcases hx : x s with ⟨_ | _,_⟩ <;> simpa [hx] using h

/-- The rule for a sequence, from what its first part is known to do. -/
lemma Ends.then {R : β → σ → Prop} (h : x.Ends s Q E)
    (hf : ∀ a t, Q a t → (f a).Ends t R E') (hE : ∀ t, E t → E' t) : (x >>= f).Ends s R E' :=
  ends_bind.mpr (h.mono hf hE)

end Attempt
end PowDB.Lib
