import Mathlib.Data.List.Basic

/-! Computations that may fail, taken apart when they succeed. -/
namespace PowDB.Lib
open List
variable {ε α β : Type}
  {x : Except ε α} {f : α → Except ε β} {xs : List α}

lemma bind_ok_iff : (x >>= k) = .ok b ↔ ∃ a, x = .ok a ∧ k a = .ok b := by
  cases x with
  | error e | ok a => simp [Bind.bind,Except.bind]

lemma check_ok_iff {x : Except ε Unit} :
    (x >>= k) = .ok b ↔ x = .ok () ∧ k () = .ok b := by
  cases x with
  | error e | ok a => simp [Bind.bind,Except.bind]

lemma map_ok_iff {f : α → β} {b : β} : x.map f = .ok b ↔ ∃ a, x = .ok a ∧ f a = b := by
  cases x with
  | error e | ok a => simp [Except.map]

lemma pure_ok_iff : (pure a : Except ε α) = .ok b ↔ a = b := by simp [Pure.pure,Except.pure]

lemma toOption_eq_some (h : x.toOption = some a) : x = .ok a := by
  cases x with
  | error e => cases h
  | ok b => exact congrArg Except.ok (Option.some.inj h)

/-- The results of a list of computations that all succeed; `d` is never used. -/
lemma mapM_ok (d : β) (h : xs.mapM f = .ok ys) :
    ys = xs.map (fun x => (f x).toOption.getD d) ∧ ∀ x ∈ xs, f x = .ok ((f x).toOption.getD d) := by
  induction xs generalizing ys with
  | nil =>
    rw [mapM_nil,pure_ok_iff] at h
    subst h
    simp
  | cons x xs ih =>
    rw [mapM_cons] at h
    obtain ⟨y,hy,h⟩ := bind_ok_iff.mp h
    obtain ⟨zs,hzs,h⟩ := bind_ok_iff.mp h
    obtain rfl := pure_ok_iff.mp h
    obtain ⟨rfl,hall⟩ := ih hzs
    have hd : (f x).toOption.getD d = y := by simp [hy,Except.toOption]
    refine ⟨by rw [map_cons,hd],?_⟩
    intro x' hx'
    rcases mem_cons.mp hx' with rfl | hx'
    · rw [hd,hy]
    · exact hall x' hx'

/-- Each result is the result of one of the computations. -/
lemma mem_of_mapM_ok (h : xs.mapM f = .ok ys) (hy : y ∈ ys) : ∃ x ∈ xs, f x = .ok y := by
  obtain ⟨rfl,hall⟩ := mapM_ok y h
  obtain ⟨x,hx,hxy⟩ := mem_map.mp hy
  exact ⟨x,hx,(hall x hx).trans (congrArg Except.ok hxy)⟩

lemma mapM_of_forall_ok (h : ∀ x ∈ xs, f x = .ok (g x)) : xs.mapM f = .ok (xs.map g) := by
  induction xs with
  | nil => rfl
  | cons x xs ih =>
    rw [mapM_cons,h x mem_cons_self,ih fun y hy => h y (mem_cons_of_mem _ hy)]
    rfl

/-- What every successful step keeps, a successful fold keeps. -/
lemma foldlM_inv {f : β → α → Except ε β} {inv : β → Prop} (hstep : ∀ b a b', inv b → f b a = .ok b' → inv b')
    (h : inv b) (hrun : xs.foldlM f b = .ok b') : inv b' := by
  induction xs generalizing b with
  | nil =>
    rw [foldlM_nil,pure_ok_iff] at hrun
    exact hrun ▸ h
  | cons x xs ih =>
    rw [foldlM_cons] at hrun
    obtain ⟨c,hc,hrun⟩ := bind_ok_iff.mp hrun
    exact ih (hstep b x c h hc) hrun

/-- `x` gives a result with `Q`, or fails with an error with `E`. -/
def Yields (x : Except ε α) (Q : α → Prop) (E : ε → Prop) : Prop :=
  match x with
  | .ok a => Q a
  | .error e => E e

lemma Yields.mono (h : Yields x Q E) (hE : ∀ e, E e → E' e) (hQ : ∀ a, Q a → Q' a) :
    Yields x Q' E' := by
  cases x with
  | error e => exact hE e h
  | ok a => exact hQ a h

lemma Yields.then (h : Yields x Q E) (hE : ∀ e, E e → E' e)
    (hf : ∀ a, Q a → Yields (f a) R E') : Yields (x >>= f) R E' := by
  cases x with
  | error e => exact hE e h
  | ok a => exact hf a h

/-- `x` fails as `v` does, and else gives a result with `Q`. -/
def FailsAs {γ : Type} (v : Except ε γ) (x : Except ε α) (Q : α → Prop) : Prop :=
  match v with
  | .error e => x = .error e
  | .ok _ => ∃ a, x = .ok a ∧ Q a

namespace FailsAs
variable {γ δ : Type}

lemma after {w : α → Except ε γ} (hf : ∀ a, x = .ok a → FailsAs (w a) (f a) R) : FailsAs (x >>= w) (x >>= f) R := by
  cases x with
  | error e => rfl
  | ok a => exact hf a rfl

lemma bind (h : FailsAs v x Q) (hf : ∀ c a, Q a → FailsAs (w c) (f a) R) : FailsAs (v >>= w) (x >>= f) R := by
  cases v with
  | error e =>
    rw [show x = .error e from h]
    rfl
  | ok c =>
    obtain ⟨a,rfl,ha⟩ := h
    exact hf c a ha

lemma map {g : α → β} (h : FailsAs v x Q) (hg : ∀ a, Q a → R (g a)) : FailsAs v (x >>= fun a => .ok (g a)) R := by
  cases v with
  | error e =>
    rw [show x = .error e from h]
    rfl
  | ok c =>
    obtain ⟨a,rfl,ha⟩ := h
    exact ⟨g a,rfl,hg a ha⟩

end FailsAs

/-- `y` gives the image of what `x` gives, and fails where `x` does. -/
def Mirrors {ε' : Type} (g : α → β) (x : Except ε α) (y : Except ε' β) : Prop :=
  match x with
  | .ok a => y = .ok (g a)
  | .error _ => ∃ e, y = .error e

namespace Mirrors
variable {ε' γ δ : Type} {g : α → β}

lemma bind (hx : Mirrors g x y)
    (hk : ∀ a, Mirrors h (k a) (k' (g a))) : Mirrors h (x >>= k) (y >>= k') := by
  cases x with
  | error e =>
    obtain ⟨e',rfl⟩ := hx
    exact ⟨e',rfl⟩
  | ok a =>
    rw [show y = .ok (g a) from hx]
    exact hk a

lemma mapM (h : ∀ c, Mirrors g (k c) (k' c)) (cs : List γ) :
    Mirrors (List.map g) (cs.mapM k) (cs.mapM k') := by
  induction cs with
  | nil => exact rfl
  | cons c cs ih =>
    simp only [mapM_cons]
    exact (h c).bind fun _ => ih.bind fun _ => rfl

end Mirrors
end PowDB.Lib
