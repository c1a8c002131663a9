import PowDB.Lib.Attempt
import PowDB.Query.Window
import Mathlib.Data.List.FinRange
import Mathlib.Data.List.NodupEquivFin
import Mathlib.GroupTheory.Perm.Support

/-! The sort that can be cancelled. It sorts positions and then moves the values along the cycles of
the permutation it found; every poll may stop it, and the slice keeps what was moved so far. -/
namespace PowDB.Query.CancellableSort
open Lib List Equiv.Perm

/-- The slice, and what the coming polls answer; past the end of the script they all pass. -/
structure Slice (n : ℕ) (ε α : Type) where
  values : Fin n → α
  polls : List (Option ε)

variable {n : ℕ} {ε α β γ : Type}

abbrev Sorting (n : ℕ) (ε α : Type) := Attempt (Slice n ε α) ε

/-- `cancel::check` and `CancelCheck::tick`. -/
def poll : Sorting n ε α Unit := fun s =>
  match s.polls with
  | [] => (.ok (),s)
  | none::rest => (.ok (),{s with polls := rest})
  | some e::rest => (.error e,{s with polls := rest})

section order
variable (cmp : Fin n → Fin n → Ordering)

/-- Each bounded run is sorted between two polls. -/
def sortRuns : List (List (Fin n)) → Sorting n ε α (List (List (Fin n)))
  | [] => pure []
  | run::runs => do
    poll
    poll
    return sortRun cmp run::(← sortRuns runs)

/-- What is left of one run when the other has ended. -/
def copyRun : List (Fin n) → Sorting n ε α (List (Fin n))
  | [] => pure []
  | x::xs => do
    poll
    return x::(← copyRun xs)

def mergeRun : List (Fin n) → List (Fin n) → Sorting n ε α (List (Fin n))
  | [],right => copyRun right
  | left,[] => copyRun left
  | x::left,y::right => do
    poll
    if cmp x y ≠ .gt then return x::(← mergeRun left (y::right))
    else return y::(← mergeRun (x::left) right)
  termination_by left right => left.length+right.length

def mergePass : List (List (Fin n)) → Sorting n ε α (List (List (Fin n)))
  | x::y::rest => do
    let merged ← mergeRun cmp x y
    return merged::(← mergePass rest)
  | [x] => return [← copyRun x]
  | [] => pure []

/-- Passes as long as there is more than one run. -/
def mergePasses : ℕ → List (List (Fin n)) → Sorting n ε α (List (Fin n))
  | 0,runs => pure runs.flatten
  | k+1,runs => do
    if runs.length ≤ 1 then return runs.flatten
    else mergePasses k (← mergePass cmp runs)

end order

/-- `scratch[old_position] = new_position`. -/
def invert (scratch : Fin n → Fin n) : List (Fin n × Fin n) → Sorting n ε α (Fin n → Fin n)
  | [] => pure scratch
  | (new,old)::rest => do
    poll
    invert (Function.update scratch old new) rest

/-- The turns at one position, each of which brings one value to its destination. -/
def followCycle (position : Fin n) : ℕ → (Fin n → Fin n) → Sorting n ε α (Fin n → Fin n)
  | 0,scratch => pure scratch
  | fuel+1,scratch =>
    if scratch position = position then pure scratch
    else do
      poll
      Attempt.modify fun s => {s with values := s.values ∘ Equiv.swap position (scratch position)}
      followCycle position fuel (scratch ∘ Equiv.swap position (scratch position))

def followCycles : List (Fin n) → (Fin n → Fin n) → Sorting n ε α Unit
  | [],_ => pure ()
  | position::rest,scratch => do followCycles rest (← followCycle position n scratch)

/-- The positions are sorted, and the values brought to their places. -/
def sortPositions (compare : Fin n → Fin n → Ordering) (scratch : Fin n → Fin n) : Sorting n ε α Unit := do
  let runs ← sortRuns compare (runsOf cancellableSortRun n (finRange n))
  let order ← mergePasses compare runs.length runs
  followCycles (finRange n) (← invert scratch ((finRange n).zip order))

/-- `charge` is what the memory budget answers to the scratch space. -/
def cooperativeStableSortBy (charge : ℕ → Except ε Unit) (cmp : α → α → Ordering) (n : ℕ) : Sorting n ε α Unit := do
  poll
  if h : n < 2 then return
  else match charge (n*8*2) with
    | .error e => Attempt.fail e
    | .ok () =>
      let s ← Attempt.read
      sortPositions (fun a b => cmp (s.values a) (s.values b)) fun _ => ⟨0,by omega⟩

/-- The same values in another order. -/
def Moved (v w : Fin n → α) : Prop := ∃ σ : Equiv.Perm (Fin n), w = v ∘ σ

/-- Started on the values `w` the computation leaves others with `P`, unless a poll stops it; then the slice
still has the values of `v`. -/
def Gives (v : Fin n → α) (x : Sorting n ε α β) (w : Fin n → α) (P : β → (Fin n → α) → Prop) : Prop :=
  ∀ polls, x.Ends ⟨w,polls⟩ (fun b t => P b t.values ∧ t.polls <:+ polls)
    (fun t => Moved v t.values ∧ ∃ e, some e ∈ polls)

/-- The computation gives `a` and leaves the values. -/
def Returns (v : Fin n → α) (x : Sorting n ε α β) (w : Fin n → α) (a : β) : Prop :=
  Gives v x w fun b w' => b = a ∧ w' = w

section gives
variable {v w : Fin n → α} {a : β}
  {cmp : Fin n → Fin n → Ordering}

lemma gives_pure (h : P a w) : Gives v (pure a : Sorting n ε α β) w P := fun _ => ⟨h,suffix_refl _⟩

lemma Gives.bind (hx : Gives v x w P) (hf : ∀ b w', P b w' → Gives v (f b) w' Q) : Gives v (x >>= f) w Q := by
  intro polls
  refine (hx polls).then ?_ fun t ht => ht
  rintro b ⟨w',polls'⟩ ⟨hb,hsub⟩
  refine (hf b w' hb polls').mono ?_ ?_
  · rintro c t ⟨hc,ht⟩
    exact ⟨hc,ht.trans hsub⟩
  · rintro t ⟨ht,e,he⟩
    exact ⟨ht,e,hsub.subset he⟩

lemma Gives.mono {P' : β → (Fin n → α) → Prop} (hx : Gives v x w P) (h : ∀ b w', P b w' → P' b w') : Gives v x w P' :=
  fun polls => (hx polls).mono (fun b t ht => ⟨h b t.values ht.1,ht.2⟩) fun _ ht => ht

lemma Returns.then (hx : Returns v x w a) (hf : Gives v (f a) w Q) : Gives v (x >>= f) w Q := by
  refine Gives.bind hx ?_
  rintro _ _ ⟨rfl,rfl⟩
  exact hf

lemma Returns.map (g : β → γ) (hx : Returns v x w a) : Returns v (x >>= fun b => pure (g b)) w (g a) :=
  hx.then (gives_pure ⟨rfl,rfl⟩)

lemma poll_returns (hw : Moved v w) : Returns v (poll : Sorting n ε α Unit) w () := by
  rintro (_ | ⟨_ | e,polls⟩)
  · exact ⟨⟨rfl,rfl⟩,suffix_refl _⟩
  · exact ⟨⟨rfl,rfl⟩,suffix_cons _ _⟩
  · exact ⟨hw,e,mem_cons_self⟩

section
variable (hw : Moved v w)
include hw

lemma copyRun_returns (xs : List (Fin n)) : Returns v (copyRun xs : Sorting n ε α _) w xs := by
  induction xs with
  | nil => exact gives_pure ⟨rfl,rfl⟩
  | cons x xs ih => exact (poll_returns hw).then (ih.map (x::·))

lemma mergeRun_returns (xs ys : List (Fin n)) :
    Returns v (mergeRun cmp xs ys : Sorting n ε α _) w (xs.merge ys (fun a b => cmp a b != .gt)) := by
  induction xs generalizing ys with
  | nil =>
    rw [mergeRun,nil_merge]
    exact copyRun_returns hw ys
  | cons x xs ihx =>
    induction ys with
    | nil =>
      rw [mergeRun,merge_right]
      · exact copyRun_returns hw _
      · simp
    | cons y ys ihy =>
      rw [mergeRun,cons_merge_cons]
      refine (poll_returns hw).then ?_
      by_cases hgt : cmp x y = .gt
      · simp only [hgt,ne_eq,not_true_eq_false,if_false,bne_self_eq_false,Bool.false_eq_true]
        exact ihy.map (y::·)
      · simp only [hgt,ne_eq,not_false_eq_true,if_true,bne_iff_ne]
        exact (ihx _).map (x::·)

lemma mergePass_returns (runs : List (List (Fin n))) :
    Returns v (mergePass cmp runs : Sorting n ε α _) w (mergePairs cmp runs) := by
  fun_induction mergePairs cmp runs with
  | case1 x y rest ih => exact (mergeRun_returns hw x y).then (ih.map (_::·))
  | case2 runs hne =>
    rcases runs with _ | ⟨x,_ | ⟨y,rest⟩⟩
    · exact gives_pure ⟨rfl,rfl⟩
    · exact (copyRun_returns hw x).map ([·])
    · exact absurd rfl (hne x y rest)

lemma mergePasses_returns (k : ℕ) (runs : List (List (Fin n))) :
    Returns v (mergePasses cmp k runs : Sorting n ε α _) w (mergeRuns cmp k runs) := by
  induction k generalizing runs with
  | zero => exact gives_pure ⟨rfl,rfl⟩
  | succ k ih =>
    rw [mergePasses,mergeRuns]
    split
    · exact gives_pure ⟨rfl,rfl⟩
    · exact (mergePass_returns hw runs).then (ih _)

lemma sortRuns_returns (runs : List (List (Fin n))) :
    Returns v (sortRuns cmp runs : Sorting n ε α _) w (runs.map (sortRun cmp)) := by
  induction runs with
  | nil => exact gives_pure ⟨rfl,rfl⟩
  | cons run runs ih => exact (poll_returns hw).then ((poll_returns hw).then (ih.map (_::·)))

/-- Positions that are all different get the new ones. -/
lemma invert_gives (hnodup : (moves.map Prod.snd).Nodup) :
    Gives v (invert scratch moves : Sorting n ε α _) w fun out w' =>
      w' = w ∧ (∀ m ∈ moves, out m.2 = m.1) ∧ ∀ p ∉ moves.map Prod.snd, out p = scratch p := by
  induction moves generalizing scratch with
  | nil => exact gives_pure ⟨rfl,nofun,fun _ _ => rfl⟩
  | cons m moves ih =>
    obtain ⟨hm,hnodup⟩ := nodup_cons.mp hnodup
    refine (poll_returns hw).then ((ih hnodup).mono ?_)
    rintro out w' ⟨hw',hmoves,hrest⟩
    refine ⟨hw',?_,?_⟩
    · intro m' hm'
      rcases mem_cons.mp hm' with rfl | hm'
      · exact (hrest _ hm).trans (Function.update_self ..)
      · exact hmoves m' hm'
    · intro p hp
      obtain ⟨hne,hp⟩ := not_or.mp (mem_cons.not.mp hp)
      exact (hrest p hp).trans (Function.update_of_ne hne ..)

end

end gives

section cycles
variable {v : Fin n → α} {σ τ : Equiv.Perm (Fin n)} {p : Fin n}

/-- A turn brings one value home and moves no other that is. -/
lemma support_turn (hp : τ p ≠ p) : (τ*Equiv.swap p (τ p)).support ⊂ τ.support := by
  have hne : τ (τ p) ≠ τ p := τ.injective.ne hp
  rw [Equiv.mul_swap_eq_swap_mul]
  refine ⟨fun _ hz => (mem_support_swap_mul_imp_mem_support_ne hz).1,fun hall => ?_⟩
  exact absurd (hall (mem_support.mpr hne)) (by simp)

lemma followCycle_gives (hfuel : τ.support.card ≤ fuel) :
    Gives v (followCycle p fuel τ : Sorting n ε α _) (v ∘ ⇑(σ*τ)) fun out w =>
      ∃ τ' : Equiv.Perm (Fin n), out = τ' ∧ w = v ∘ ⇑(σ*τ') ∧ τ'.support ⊆ τ.support.erase p := by
  induction fuel generalizing τ with
  | zero =>
    have hnone := Finset.card_eq_zero.mp (Nat.le_zero.mp hfuel)
    exact gives_pure ⟨τ,rfl,rfl,by simp [hnone]⟩
  | succ fuel ih =>
    rw [followCycle]
    split_ifs with hp
    · exact gives_pure ⟨τ,rfl,rfl,(Finset.erase_eq_of_notMem (notMem_support.mpr hp)).ge⟩
    · have hturn := support_turn hp
      have hrest := ih (Nat.le_of_lt_succ ((Finset.card_lt_card hturn).trans_le hfuel))
      refine (poll_returns ⟨_,rfl⟩).then fun polls => Attempt.ends_bind.mpr ((hrest polls).mono ?_ fun _ ht => ht)
      rintro out t ⟨⟨τ',hout,ht,hsub⟩,hpolls⟩
      exact ⟨⟨τ',hout,ht,hsub.trans (Finset.erase_subset_erase _ hturn.subset)⟩,hpolls⟩

lemma followCycles_gives {positions : List (Fin n)} (hloose : ∀ p ∈ τ.support, p ∈ positions) :
    Gives v (followCycles positions τ : Sorting n ε α _) (v ∘ ⇑(σ*τ)) fun _ w => w = v ∘ σ := by
  induction positions generalizing τ with
  | nil =>
    have hone : τ = 1 := support_eq_empty_iff.mp (Finset.eq_empty_of_forall_notMem fun p hp => nomatch hloose p hp)
    exact gives_pure (by rw [hone,mul_one])
  | cons p positions ih =>
    have hcard : τ.support.card ≤ n := (Finset.card_le_univ _).trans_eq (Fintype.card_fin n)
    refine (followCycle_gives hcard).bind ?_
    rintro _ _ ⟨τ',rfl,rfl,hsub⟩
    refine ih fun q hq => ?_
    obtain ⟨hne,hq⟩ := Finset.mem_erase.mp (hsub hq)
    exact mem_of_ne_of_mem hne (hloose q hq)

end cycles

/-- The positions in another order. -/
lemma order_eq_map (h : order ~ finRange n) : ∃ σ : Equiv.Perm (Fin n), order = (finRange n).map σ := by
  have hlen : n = order.length := by simpa using h.length_eq.symm
  have hall : ∀ p, p ∈ order := fun p => h.mem_iff.mpr (mem_finRange p)
  refine ⟨(finCongr hlen).trans (Nodup.getEquivOfForallMemList order (h.nodup_iff.mpr (nodup_finRange n)) hall),?_⟩
  exact ext_getElem (by simp [← hlen]) (by simp)

lemma sortPositions_gives {compare : Fin n → Fin n → Ordering} (h : OrderedOn compare (finRange n)) (v : Fin n → α)
    (scratch : Fin n → Fin n) :
    Gives v (sortPositions compare scratch : Sorting n ε α Unit) v fun _ w =>
      ∃ σ : Equiv.Perm (Fin n), w = v ∘ σ ∧ ∀ i j, i < j → Before compare Fin.val (σ i) (σ j) := by
  have hself : Moved v v := ⟨1,rfl⟩
  have hinc : (finRange n).Pairwise fun a b => a.val < b.val := pairwise_lt_finRange n
  obtain ⟨hperm,hsorted⟩ := stableSort_spec (by decide : 0 < cancellableSortRun) h hinc
  rw [stableSort,length_finRange] at hperm hsorted
  obtain ⟨σ,hσ⟩ := order_eq_map hperm
  refine (sortRuns_returns hself _).then ((mergePasses_returns hself _ _).then ?_)
  have hmoves : (finRange n).zip ((finRange n).map σ) = (finRange n).map fun i => (i,σ i) := by
    rw [zip_map_right,zip,zipWith_self,map_map]
    rfl
  rw [hσ,← ofFn_eq_map,pairwise_ofFn] at hsorted
  rw [hσ,hmoves]
  refine (invert_gives hself ?_).bind ?_
  · rw [map_map]
    exact (nodup_finRange n).map σ.injective
  · rintro out w ⟨rfl,hback,-⟩
    obtain rfl : out = ⇑σ⁻¹ := by
      funext p
      obtain ⟨i,rfl⟩ := σ.surjective p
      simpa using hback _ (mem_map_of_mem (mem_finRange i))
    have hcycles := @followCycles_gives n ε α w σ σ⁻¹ (finRange n) fun p _ => mem_finRange p
    rw [mul_inv_cancel] at hcycles
    exact hcycles.mono fun _ w' hw' => ⟨σ,hw',hsorted⟩

/-- The sort leaves the values in order, equal ones as they stood, unless a poll or the memory budget
stops it; then the slice still has its values. -/
theorem cooperativeStableSortBy_is_stable (charge : ℕ → Except ε Unit) {cmp : α → α → Ordering} {v : Fin n → α}
    (polls : List (Option ε)) (h : OrderedOn cmp (ofFn v)) :
    (cooperativeStableSortBy charge cmp n).Ends ⟨v,polls⟩
      (fun _ t => ∃ σ : Equiv.Perm (Fin n), t.values = v ∘ σ ∧
        ∀ i j, i < j → Before (fun a b => cmp (v a) (v b)) Fin.val (σ i) (σ j))
      (fun t => Moved v t.values ∧ ((∃ e, some e ∈ polls) ∨ ∃ e, charge (n*8*2) = .error e)) := by
  have hself : Moved v v := ⟨1,rfl⟩
  refine (poll_returns hself polls).then ?_ fun t ht => ⟨ht.1,.inl ht.2⟩
  rintro _ ⟨_,polls'⟩ ⟨⟨-,rfl⟩,hsub⟩
  split
  · exact ⟨1,rfl,fun i j hij => by omega⟩
  · cases charge (n*8*2) with
    | error e => exact ⟨hself,.inr ⟨e,rfl⟩⟩
    | ok _ =>
      rw [ofFn_eq_map,orderedOn_map] at h
      refine (sortPositions_gives h _ (fun _ => ⟨0,by omega⟩) polls').mono (fun _ t ht => ht.1) ?_
      rintro t ⟨ht,e,he⟩
      exact ⟨ht,.inl ⟨e,hsub.subset he⟩⟩

theorem cancelled_sort_keeps_values :
    Moved Fin.rev (cooperativeStableSortBy (fun _ => .ok ()) compare 2 ⟨Fin.rev,[none,some ()]⟩).2.values := by
  have hsort := cooperativeStableSortBy_is_stable (fun _ => .ok ()) [none,some ()]
    (⟨by decide,by decide⟩ : OrderedOn compare (ofFn (Fin.rev : Fin 2 → Fin 2)))
  refine (hsort.mono ?_ fun t ht => ht.1).state
  rintro _ t ⟨σ,ht,-⟩
  exact ⟨σ,ht⟩

end PowDB.Query.CancellableSort
