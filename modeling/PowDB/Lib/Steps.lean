import Mathlib.Logic.Basic
import Mathlib.Tactic.Common

/-! Runs of a step function whose actions may be disabled, and the rule that carries an
invariant along those runs all of whose steps meet a condition. -/
namespace PowDB.Lib
variable {σ α : Type} {step : σ → α → Option σ} {ok : σ → α → Prop}

/-- Take the actions in turn; `none` when one of them is disabled. -/
def runSteps (step : σ → α → Option σ) (s : σ) : List α → Option σ
  | [] => some s
  | a::as => (step s a).bind fun s' => runSteps step s' as

/-- Every action of the run is taken in a state where it meets the condition. -/
def Meets (step : σ → α → Option σ) (ok : σ → α → Prop) (s : σ) : List α → Prop
  | [] => True
  | a::as => ok s a ∧
    match step s a with
    | none => True
    | some s' => Meets step ok s' as

instance decidableMeets [∀ s a, Decidable (ok s a)] : ∀ (s : σ) (as : List α), Decidable (Meets step ok s as)
  | _, [] => .isTrue trivial
  | s, a::as =>
    have : Decidable (match step s a with
        | none => True
        | some s' => Meets step ok s' as) :=
      match step s a with
      | none => .isTrue trivial
      | some s' => decidableMeets s' as
    inferInstanceAs (Decidable (_ ∧ _))

theorem meets_of_forall (h : ∀ s a, ok s a) (s : σ) (as : List α) : Meets step ok s as := by
  induction as generalizing s with
  | nil => trivial
  | cons a as ih =>
    refine ⟨h s a,?_⟩
    cases step s a with
    | none => trivial
    | some s' => exact ih s'

/-- What every step that meets the condition keeps, such a run keeps. -/
theorem runSteps_inv {inv : σ → Prop} (hstep : ∀ s a s', inv s → ok s a → step s a = some s' → inv s')
    {s t : σ} {as : List α} (hs : inv s) (hok : Meets step ok s as) (hrun : runSteps step s as = some t) : inv t := by
  induction as generalizing s with
  | nil => exact Option.some.inj hrun ▸ hs
  | cons a as ih =>
    obtain ⟨s',hs',hrun⟩ := Option.bind_eq_some_iff.mp hrun
    obtain ⟨hnow,hlater⟩ := hok
    rw [hs'] at hlater
    exact ih (hstep s a s' hs hnow hs') hlater hrun

/-- Where every state that is not yet done has a permitted step down, permitted steps lead to one that is done. -/
theorem exists_run_done {inv done : σ → Prop} {permitted : α → Prop} (measure : σ → ℕ)
    (hstep : ∀ s, inv s → ¬done s → ∃ a s', permitted a ∧ step s a = some s' ∧ inv s' ∧ measure s' < measure s)
    (s : σ) (hs : inv s) : ∃ as t, (∀ a ∈ as, permitted a) ∧ runSteps step s as = some t ∧ inv t ∧ done t := by
  induction hm : measure s using Nat.strongRecOn generalizing s with
  | ind m ih =>
    by_cases hd : done s
    · exact ⟨[],s,by simp,rfl,hs,hd⟩
    · obtain ⟨a,s',ha,hs',hinv,hlt⟩ := hstep s hs hd
      obtain ⟨as,t,has,hrun,ht⟩ := ih _ (hm ▸ hlt) s' hinv rfl
      exact ⟨a::as,t,List.forall_mem_cons.mpr ⟨ha,has⟩,by rw [runSteps,hs']; exact hrun,ht⟩

end PowDB.Lib
