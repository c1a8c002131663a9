import Mathlib.Data.List.Basic
import Mathlib.Data.List.Perm.Basic
import Mathlib.Order.Compare
import Mathlib.Tactic.Common

/-! A stable sort in bounded runs: every run is sorted by itself, then adjacent
runs are merged, the left one first on ties, until one run is left. -/
namespace PowDB.Lib
open List
variable {α : Type}

section Runs
variable (cmp : α → α → Ordering)

/-- Insert behind every element that is not greater. -/
def insertStable (x : α) : List α → List α
  | [] => [x]
  | y::ys => if cmp y x = .gt then x::y::ys else y::insertStable x ys

def sortRun (xs : List α) : List α := xs.foldl (fun acc x => insertStable cmp x acc) []

/-- One pass over adjacent runs. -/
def mergePairs : List (List α) → List (List α)
  | x::y::rest => x.merge y (fun a b => cmp a b != .gt)::mergePairs rest
  | rest => rest

def mergeRuns : ℕ → List (List α) → List α
  | 0,runs => runs.flatten
  | n+1,runs => if runs.length ≤ 1 then runs.flatten else mergeRuns n (mergePairs cmp runs)

/-- The runs of a list: pieces of a given length, the last possibly shorter. -/
def runsOf (width : ℕ) : ℕ → List α → List (List α)
  | 0,_ => []
  | _,[] => []
  | n+1,xs => xs.take width::runsOf width n (xs.drop width)

def stableSort (width : ℕ) (xs : List α) : List α :=
  let runs := (runsOf width xs.length xs).map (sortRun cmp)
  mergeRuns cmp runs.length runs

end Runs

/-- A comparison that orders the elements of a list. -/
structure OrderedOn (cmp : α → α → Ordering) (s : List α) : Prop where
  swap : ∀ a ∈ s, ∀ b ∈ s, cmp b a = (cmp a b).swap
  trans : ∀ a ∈ s, ∀ b ∈ s, ∀ c ∈ s, cmp a b ≠ .gt → cmp b c ≠ .gt → cmp a c ≠ .gt

namespace OrderedOn
variable {cmp : α → α → Ordering} {s : List α} {a b c : α}

lemma lt_of_gt (h : OrderedOn cmp s) (ha : a ∈ s) (hb : b ∈ s) (hab : cmp a b = .gt) : cmp b a = .lt := by
  rw [h.swap a ha b hb,hab]
  rfl

lemma lt_of_lt_of_le (h : OrderedOn cmp s) (ha : a ∈ s) (hb : b ∈ s) (hc : c ∈ s) (hab : cmp a b = .lt)
    (hbc : cmp b c ≠ .gt) : cmp a c = .lt := by
  have hac := h.trans a ha b hb c hc (by simp [hab]) hbc
  cases hcmp : cmp a c with
  | lt => rfl
  | gt => exact absurd hcmp hac
  | eq =>
    have hca : cmp c a ≠ .gt := by simp [h.swap a ha c hc,hcmp]
    have hba := h.trans b hb c hc a ha hbc hca
    simp [h.swap a ha b hb,hab] at hba

end OrderedOn

/-- A comparison that orders the elements of a list and takes no two of them for
equal. -/
structure LinearOn (cmp : α → α → Ordering) (s : List α) : Prop extends OrderedOn cmp s where
  eq_of_cmp : ∀ a ∈ s, ∀ b ∈ s, cmp a b = .eq → a = b

namespace LinearOn
variable {cmp : α → α → Ordering} {s : List α} {a b : α}

lemma subset (h : LinearOn cmp s) (hts : t ⊆ s) : LinearOn cmp t where
  swap a ha b hb := h.swap a (hts ha) b (hts hb)
  trans a ha b hb c hc := h.trans a (hts ha) b (hts hb) c (hts hc)
  eq_of_cmp a ha b hb := h.eq_of_cmp a (hts ha) b (hts hb)

lemma cmp_self (h : LinearOn cmp s) (ha : a ∈ s) : cmp a a = .eq := by
  have hswap := h.swap a ha a ha
  cases hcmp : cmp a a <;> simp [hcmp] at hswap ⊢

lemma antisymm (h : LinearOn cmp s) (ha : a ∈ s) (hb : b ∈ s) (hab : cmp a b ≠ .gt) (hba : cmp b a ≠ .gt) :
    a = b := by
  apply h.eq_of_cmp a ha b hb
  rw [h.swap a ha b hb] at hba
  cases hcmp : cmp a b <;> simp [hcmp] at hab hba ⊢

end LinearOn

section Lexicographic
variable {β γ : Type}
  {s : List β}

lemma orderedOn_map {cmp : α → α → Ordering} :
    OrderedOn cmp (s.map f) ↔ OrderedOn (fun a b => cmp (f a) (f b)) s := by
  constructor
  · intro h
    exact ⟨fun a ha b hb => h.swap _ (mem_map_of_mem ha) _ (mem_map_of_mem hb),
      fun a ha b hb c hc => h.trans _ (mem_map_of_mem ha) _ (mem_map_of_mem hb) _ (mem_map_of_mem hc)⟩
  · intro h
    constructor
    · simpa [forall_mem_map] using h.swap
    · simpa [forall_mem_map] using h.trans

/-- Compare by one key, then by another. -/
lemma OrderedOn.then
    (hc : LinearOn c (s.map f)) (hd : OrderedOn d (s.map g)) :
    OrderedOn (fun a b => (c (f a) (f b)).then (d (g a) (g b))) s := by
  have hf : ∀ a ∈ s, f a ∈ s.map f := fun a ha => mem_map_of_mem ha
  have hg : ∀ a ∈ s, g a ∈ s.map g := fun a ha => mem_map_of_mem ha
  refine ⟨?_,?_⟩
  · intro a ha b hb
    rw [hc.swap _ (hf a ha) _ (hf b hb),hd.swap _ (hg a ha) _ (hg b hb),Ordering.swap_then]
  · intro a ha b hb e he hab hbe
    have hle : ∀ {o p : Ordering}, o.then p ≠ .gt → o = .lt ∨ o = .eq ∧ p ≠ .gt := by
      intro o p
      cases o <;> simp [Ordering.then]
    have hlt : c (f a) (f e) = .lt → (c (f a) (f e)).then (d (g a) (g e)) ≠ .gt := by
      intro h
      simp [h]
    rcases hle hab with hab | ⟨hab,hab'⟩
    · apply hlt
      apply hc.lt_of_lt_of_le (hf a ha) (hf b hb) (hf e he) hab
      rcases hle hbe with hbe | ⟨hbe,-⟩ <;> simp [hbe]
    · have hfab := hc.eq_of_cmp _ (hf a ha) _ (hf b hb) hab
      rw [hfab]
      rcases hle hbe with hbe | ⟨hbe,hbe'⟩
      · simp [hbe]
      · rw [hbe]
        exact hd.trans _ (hg a ha) _ (hg b hb) _ (hg e he) hab' hbe'

/-- Lexicographic comparison, each position by its own comparison. -/
def lexCmp : List (α → α → Ordering) → List α → List α → Ordering
  | c::cs,a::as,b::bs => (c a b).then (lexCmp cs as bs)
  | _,_,_ => .eq

lemma lexCmp_linearOn {keys : List ((α → α → Ordering) × (β → α))} (h : ∀ k ∈ keys, LinearOn k.1 (s.map k.2)) :
    LinearOn (lexCmp (keys.map Prod.fst)) (s.map (fun b => keys.map (fun k => k.2 b))) := by
  induction keys with
  | nil =>
    refine ⟨orderedOn_map.mpr ⟨?_,?_⟩,?_⟩
    · intros; rfl
    · intros; simp [lexCmp]
    · simp
  | cons k keys ih =>
    have ih := ih (fun k hk => h k (mem_cons_of_mem _ hk))
    have hk := h k mem_cons_self
    refine ⟨orderedOn_map.mpr (OrderedOn.then hk ih.toOrderedOn),?_⟩
    simp only [forall_mem_map,map_cons,lexCmp,cons.injEq]
    intro a ha b hb hab
    have heq : k.1 (k.2 a) (k.2 b) = .eq ∧
        lexCmp (keys.map Prod.fst) (keys.map (fun k => k.2 a)) (keys.map (fun k => k.2 b)) = .eq := by
      simpa [Ordering.then_eq_eq] using hab
    exact ⟨hk.eq_of_cmp _ (mem_map_of_mem ha) _ (mem_map_of_mem hb) heq.1,
      ih.eq_of_cmp _ (mem_map_of_mem ha) _ (mem_map_of_mem hb) heq.2⟩

end Lexicographic

section Correct
variable {cmp : α → α → Ordering} {s : List α} {pos : α → ℕ}
  {xs : List α}

/-- Strictly before: smaller, or equal and earlier in the input. -/
def Before (cmp : α → α → Ordering) (pos : α → ℕ) (a b : α) : Prop :=
  cmp a b = .lt ∨ cmp a b = .eq ∧ pos a < pos b

lemma Before.ne_gt (h : Before cmp pos a b) : cmp a b ≠ .gt := by
  rcases h with h | ⟨h,-⟩ <;> simp [h]

lemma before_of_ne_gt (h : cmp a b ≠ .gt) (hpos : pos a < pos b) : Before cmp pos a b := by
  cases hcmp : cmp a b with
  | lt => exact .inl hcmp
  | eq => exact .inr ⟨hcmp,hpos⟩
  | gt => exact absurd hcmp h

lemma insertStable_eq_merge (x : α) (xs : List α) :
    insertStable cmp x xs = xs.merge [x] (fun a b => cmp a b != .gt) := by
  induction xs with
  | nil => simp [insertStable]
  | cons y ys ih =>
    rw [insertStable,cons_merge_cons,ih]
    by_cases hgt : cmp y x = .gt <;> simp [hgt]

lemma insertStable_perm (x : α) (xs : List α) : (insertStable cmp x xs).Perm (x::xs) := by
  rw [insertStable_eq_merge]
  exact (merge_perm_append _).trans perm_append_comm

lemma foldl_insertStable_perm (xs acc : List α) :
    (xs.foldl (fun acc x => insertStable cmp x acc) acc).Perm (acc++xs) := by
  induction xs generalizing acc with
  | nil => simp
  | cons x xs ih => exact ((ih _).trans ((insertStable_perm x acc).append_right xs)).trans perm_middle.symm

lemma sortRun_perm (xs : List α) : (sortRun cmp xs).Perm xs := foldl_insertStable_perm xs []

lemma merge_before (ho : OrderedOn cmp s) (hxs : xs ⊆ s) (hys : ys ⊆ s)
    (hpos : ∀ x ∈ xs, ∀ y ∈ ys, pos x < pos y) (hx : xs.Pairwise (Before cmp pos))
    (hy : ys.Pairwise (Before cmp pos)) : (xs.merge ys (fun a b => cmp a b != .gt)).Pairwise (Before cmp pos) := by
  induction xs generalizing ys with
  | nil => simpa using hy
  | cons x xs ihx =>
    induction ys with
    | nil => simpa using hx
    | cons y ys ihy =>
      obtain ⟨hx1,hx2⟩ := pairwise_cons.mp hx
      obtain ⟨hy1,hy2⟩ := pairwise_cons.mp hy
      have hxmem := hxs mem_cons_self
      have hymem := hys mem_cons_self
      rw [cons_merge_cons]
      split_ifs with hle
      · have hle : cmp x y ≠ .gt := by simpa using hle
        refine pairwise_cons.mpr ⟨?_,ihx (subset_of_cons_subset hxs) hys
          (fun a ha b hb => hpos a (mem_cons_of_mem _ ha) b hb) hx2 hy⟩
        intro z hz
        rcases mem_merge.mp hz with hz | hz
        · exact hx1 z hz
        · refine before_of_ne_gt ?_ (hpos x mem_cons_self z hz)
          rcases mem_cons.mp hz with rfl | hz
          · exact hle
          · exact ho.trans x hxmem y hymem z (hys (mem_cons_of_mem _ hz)) hle (hy1 z hz).ne_gt
      · have hgt : cmp x y = .gt := by simpa using hle
        have hlt := ho.lt_of_gt hxmem hymem hgt
        refine pairwise_cons.mpr ⟨?_,ihy (subset_of_cons_subset hys)
          (fun a ha b hb => hpos a ha b (mem_cons_of_mem _ hb)) hy2⟩
        intro z hz
        rcases mem_merge.mp hz with hz | hz
        · rcases mem_cons.mp hz with rfl | hz
          · exact .inl hlt
          · exact .inl (ho.lt_of_lt_of_le hymem hxmem (hxs (mem_cons_of_mem _ hz)) hlt (hx1 z hz).ne_gt)
        · exact hy1 z hz

lemma sortRun_before (ho : OrderedOn cmp s) (hxs : xs ⊆ s) (hpos : xs.Pairwise (fun a b => pos a < pos b)) :
    (sortRun cmp xs).Pairwise (Before cmp pos) := by
  suffices h : ∀ acc : List α, acc ⊆ s → acc.Pairwise (Before cmp pos) →
      (∀ y ∈ acc, ∀ x ∈ xs, pos y < pos x) →
      (xs.foldl (fun acc x => insertStable cmp x acc) acc).Pairwise (Before cmp pos) from
    h [] (by simp) .nil (by simp)
  induction xs with
  | nil => exact fun acc _ hacc _ => hacc
  | cons x xs ih =>
    intro acc hsub hacc hlt
    obtain ⟨hx,hxs'⟩ := pairwise_cons.mp hpos
    have hmem : ∀ z, z ∈ insertStable cmp x acc ↔ z = x ∨ z ∈ acc := fun z => by
      rw [(insertStable_perm x acc).mem_iff,mem_cons]
    have hxmem := hxs mem_cons_self
    refine ih (subset_of_cons_subset hxs) hxs' _ (fun z hz => ?_) ?_ (fun y hy z hz => ?_)
    · rcases (hmem z).mp hz with rfl | hz
      · exact hxmem
      · exact hsub hz
    · dsimp only
      rw [insertStable_eq_merge]
      exact merge_before ho hsub (by simpa using hxmem) (fun y hy z hz => hlt y hy z (by simp_all)) hacc
        (pairwise_singleton _ _)
    · rcases (hmem y).mp hy with rfl | hy
      · exact hx z hz
      · exact hlt y hy z (mem_cons_of_mem _ hz)

/-- Sorted runs in the order of the input. -/
structure SortedRuns (cmp : α → α → Ordering) (pos : α → ℕ) (s : List α) (runs : List (List α)) : Prop where
  subset : ∀ r ∈ runs, r ⊆ s
  sorted : ∀ r ∈ runs, r.Pairwise (Before cmp pos)
  apart : runs.Pairwise (fun r r' => ∀ x ∈ r, ∀ y ∈ r', pos x < pos y)

lemma mergePairs_flatten_perm (runs : List (List α)) : (mergePairs cmp runs).flatten.Perm runs.flatten := by
  fun_induction mergePairs cmp runs with
  | case1 x y rest ih =>
    simp only [flatten_cons,← append_assoc]
    exact (merge_perm_append _).append ih
  | case2 => exact .refl _

lemma mem_mergePairs (h : r ∈ mergePairs cmp runs) (hx : x ∈ r) :
    ∃ r' ∈ runs, x ∈ r' := by
  have hmem : x ∈ (mergePairs cmp runs).flatten := mem_flatten.mpr ⟨r,h,hx⟩
  exact mem_flatten.mp ((mergePairs_flatten_perm runs).mem_iff.mp hmem)

lemma SortedRuns.mergePairs (ho : OrderedOn cmp s) (h : SortedRuns cmp pos s runs) :
    SortedRuns cmp pos s (mergePairs cmp runs) := by
  fun_induction Lib.mergePairs cmp runs with
  | case1 x y rest ih =>
    obtain ⟨hx,hrest⟩ := pairwise_cons.mp h.apart
    obtain ⟨hy,hrest⟩ := pairwise_cons.mp hrest
    have hxs := h.subset x (by simp)
    have hys := h.subset y (by simp)
    have ih := ih ⟨fun r hr => h.subset r (by simp [hr]),fun r hr => h.sorted r (by simp [hr]),hrest⟩
    refine ⟨?_,?_,?_⟩
    · intro r hr
      rcases mem_cons.mp hr with rfl | hr
      · intro z hz
        rcases mem_merge.mp hz with hz | hz
        · exact hxs hz
        · exact hys hz
      · exact ih.subset r hr
    · intro r hr
      rcases mem_cons.mp hr with rfl | hr
      · exact merge_before ho hxs hys (hx y (by simp)) (h.sorted x (by simp)) (h.sorted y (by simp))
      · exact ih.sorted r hr
    · refine pairwise_cons.mpr ⟨?_,ih.apart⟩
      intro r hr a ha b hb
      obtain ⟨r',hr',hb'⟩ := mem_mergePairs hr hb
      rcases mem_merge.mp ha with ha | ha
      · exact hx r' (by simp [hr']) a ha b hb'
      · exact hy r' hr' a ha b hb'
  | case2 => exact h

lemma length_mergePairs (runs : List (List α)) : (mergePairs cmp runs).length = (runs.length+1)/2 := by
  fun_induction mergePairs cmp runs with
  | case1 x y rest ih =>
    simp only [length_cons,ih]
    omega
  | case2 rest hne =>
    rcases rest with _ | ⟨x,_ | ⟨y,rest⟩⟩
    · simp
    · simp
    · exact absurd rfl (hne x y rest)

lemma mergeRuns_spec (ho : OrderedOn cmp s) : ∀ (n : ℕ) {runs : List (List α)}, runs.length ≤ n →
    SortedRuns cmp pos s runs →
    (mergeRuns cmp n runs).Perm runs.flatten ∧ (mergeRuns cmp n runs).Pairwise (Before cmp pos)
  | 0,runs,hlen,h => by
    have hnil : runs = [] := length_eq_zero_iff.mp (Nat.le_zero.mp hlen)
    subst hnil
    simp [mergeRuns]
  | n+1,runs,hlen,h => by
    simp only [mergeRuns]
    split_ifs with hone
    · refine ⟨.refl _,?_⟩
      rcases runs with _ | ⟨r,_ | ⟨r',rest⟩⟩
      · simp
      · simpa using h.sorted r (by simp)
      · simp at hone
    · have hlen' : (mergePairs cmp runs).length ≤ n := by
        rw [length_mergePairs]
        omega
      obtain ⟨hp,hb⟩ := mergeRuns_spec ho n hlen' (h.mergePairs ho)
      exact ⟨hp.trans (mergePairs_flatten_perm runs),hb⟩

lemma runsOf_flatten (hw : 0 < width) : ∀ (n : ℕ) {xs : List α}, xs.length ≤ n →
    (runsOf width n xs).flatten = xs
  | 0,xs,h => by
    rw [length_eq_zero_iff.mp (Nat.le_zero.mp h)]
    rfl
  | n+1,[],_ => rfl
  | n+1,x::xs,h => by
    have hdrop : ((x::xs).drop width).length ≤ n := by
      rw [length_drop,length_cons] at *
      omega
    rw [runsOf,flatten_cons,runsOf_flatten hw n hdrop,take_append_drop]
    simp

/-- The sort permutes its input and keeps equal elements in their order. -/
lemma stableSort_spec (hw : 0 < width) (ho : OrderedOn cmp xs)
    (hpos : xs.Pairwise (fun a b => pos a < pos b)) :
    (stableSort cmp width xs).Perm xs ∧ (stableSort cmp width xs).Pairwise (Before cmp pos) := by
  have hflat := runsOf_flatten hw xs.length (Nat.le_refl xs.length)
  have hsub : ∀ r ∈ runsOf width xs.length xs, r.Sublist xs := by
    intro r hr
    conv_rhs => rw [← hflat]
    exact sublist_flatten_of_mem hr
  have hapart : (runsOf width xs.length xs).Pairwise (fun r r' => ∀ x ∈ r, ∀ y ∈ r', pos x < pos y) := by
    have h := hpos
    rw [← hflat,pairwise_flatten] at h
    exact h.2
  have hsorted : SortedRuns cmp pos xs ((runsOf width xs.length xs).map (sortRun cmp)) := by
    refine ⟨?_,?_,?_⟩
    · intro r hr
      obtain ⟨run,hmem,rfl⟩ := mem_map.mp hr
      intro x hx
      exact (hsub run hmem).subset ((sortRun_perm run).mem_iff.mp hx)
    · intro r hr
      obtain ⟨run,hmem,rfl⟩ := mem_map.mp hr
      exact sortRun_before ho (hsub run hmem).subset (hpos.sublist (hsub run hmem))
    · rw [pairwise_map]
      refine hapart.imp ?_
      intro r r' h x hx y hy
      exact h x ((sortRun_perm r).mem_iff.mp hx) y ((sortRun_perm r').mem_iff.mp hy)
  obtain ⟨hp,hb⟩ := mergeRuns_spec ho _ (Nat.le_refl _) hsorted
  refine ⟨hp.trans ?_,hb⟩
  have hperm : ((runsOf width xs.length xs).flatMap (sortRun cmp)).Perm ((runsOf width xs.length xs).flatMap id) :=
    .flatMap_left _ fun r _ => sortRun_perm r
  rwa [flatMap_id,hflat] at hperm

end Correct
end PowDB.Lib
