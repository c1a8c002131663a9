import Mathlib.Logic.Basic
import Mathlib.Tactic.Common

/-! A loop as a step function on its state. `Turn.run` counts the turns and gives up when its
fuel does; a rank that grows at every turn and stays bounded says how much fuel is enough. -/
namespace PowDB.Lib
open Option
variable {σ β : Type}

/-- What one turn of a loop does: go round again, or leave with a result. -/
inductive Turn (σ β : Type)
  | again (s : σ)
  | done (b : β)
  deriving DecidableEq

/-- The result of the loop and the number of turns taken. -/
def Turn.run (step : σ → Turn σ β) : ℕ → σ → Option (β × ℕ)
  | 0, _ => none
  | fuel+1, s =>
    match step s with
    | .again s' => (run step fuel s').map fun r => (r.1,r.2+1)
    | .done b => some (b,1)

/-- More fuel changes nothing. -/
lemma Turn.run_mono (h : run step fuel s = some r)
    (hle : fuel ≤ fuel') : run step fuel' s = some r := by
  induction fuel generalizing fuel' s r with
  | zero => cases h
  | succ fuel ih =>
    obtain ⟨fuel',rfl⟩ := Nat.exists_eq_add_of_le' (Nat.le_trans (Nat.succ_pos fuel) hle)
    rw [run] at h ⊢
    cases hstep : step s with
    | done b =>
      rw [hstep] at h
      exact h
    | again s' =>
      rw [hstep] at h
      obtain ⟨r',hr',rfl⟩ := map_eq_some_iff.mp h
      simp only [ih hr' (Nat.le_of_succ_le_succ hle),map_some]

/-- An invariant with a rank that every turn raises, up to `bound`: the loop leaves with a
result that meets the postcondition, in as many turns as the rank has room. -/
lemma Turn.run_spec {inv : σ → Prop} {post : β → Prop} {rank : σ → ℕ}
    (hagain : ∀ s s', inv s → step s = .again s' → inv s' ∧ rank s < rank s')
    (hdone : ∀ s b, inv s → step s = .done b → post b) (hbound : ∀ s, inv s → rank s ≤ bound)
    (hs : inv s) (hfuel : bound-rank s < fuel) :
    ∃ b n, run step fuel s = some (b,n) ∧ post b ∧ n ≤ bound-rank s+1 := by
  induction fuel generalizing s with
  | zero => omega
  | succ fuel ih =>
    rw [run]
    cases hstep : step s with
    | done b => exact ⟨b,1,rfl,hdone s b hs hstep,by omega⟩
    | again s' =>
      have ⟨hs',hrank⟩ := hagain s s' hs hstep
      have hroom := hbound s' hs'
      obtain ⟨b,n,hrun,hpost,hn⟩ := ih hs' (by omega)
      exact ⟨b,n+1,by simp [hrun],hpost,by omega⟩

end PowDB.Lib
