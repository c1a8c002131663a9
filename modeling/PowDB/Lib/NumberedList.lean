import Mathlib.Data.List.Nodup
import Mathlib.Data.List.Perm.Basic
import Mathlib.Tactic.Common

/-! Lists of items with increasing numbers, and the lists derived from them that
keep the numbers. -/
namespace PowDB.Lib
open List Option
variable {α β : Type}
  {x : α × ℕ} {xs : List (α × ℕ)}

def Increasing (xs : List (α × ℕ)) : Prop := xs.Pairwise (fun a b => a.2 < b.2)

/-- Insert an item at the place of its number. -/
def insertNumbered (x : α × ℕ) : List (α × ℕ) → List (α × ℕ)
  | [] => [x]
  | y::ys => if x.2 < y.2 then x::y::ys else y::insertNumbered x ys

/-- Derive an item, or leave it out, and keep its number. -/
def keepNumber (f : α → Option β) (x : α × ℕ) : Option (β × ℕ) := (f x.1).map (fun b => (b,x.2))

variable {f : α → Option β}

@[simp] lemma keepNumber_eq_some :
    keepNumber f x = some y ↔ f x.1 = some y.1 ∧ x.2 = y.2 := by
  obtain ⟨b,n⟩ := y
  simp only [keepNumber,map_eq_some_iff,Prod.mk.injEq]
  constructor
  · rintro ⟨b',hb,rfl,rfl⟩
    exact ⟨hb,rfl⟩
  · rintro ⟨hb,rfl⟩
    exact ⟨b,hb,rfl,rfl⟩

lemma map_insertNumbered (g : α → β) (x : α × ℕ) (xs : List (α × ℕ)) :
    (insertNumbered x xs).map (fun y => (g y.1,y.2)) = insertNumbered (g x.1,x.2) (xs.map (fun y => (g y.1,y.2))) := by
  induction xs with
  | nil => rfl
  | cons y ys ih =>
    simp only [insertNumbered,map_cons]
    split_ifs <;> simp [ih]

lemma insertNumbered_perm (x : α × ℕ) (xs : List (α × ℕ)) : (insertNumbered x xs).Perm (x::xs) := by
  induction xs with
  | nil => exact .refl _
  | cons y ys ih =>
    simp only [insertNumbered]
    split_ifs
    · exact .refl _
    · exact (ih.cons y).trans (.swap x y ys)

@[simp] lemma mem_insertNumbered : y ∈ insertNumbered x xs ↔ y = x ∨ y ∈ xs :=
  (insertNumbered_perm x xs).mem_iff.trans mem_cons

lemma insertNumbered_last (h : ∀ y ∈ xs, y.2 < x.2) : insertNumbered x xs = xs++[x] := by
  induction xs with
  | nil => rfl
  | cons y ys ih =>
    have hy := h y mem_cons_self
    rw [insertNumbered,if_neg (by omega),ih (fun z hz => h z (mem_cons_of_mem _ hz))]
    rfl

/-- Items are taken out before or after the derivation, if the tests agree on what is derived. -/
lemma filterMap_filter_keepNumber
    (hpq : ∀ x ∈ xs, ∀ b, f x.1 = some b → p (b,x.2) = q x) :
    (xs.filter q).filterMap (keepNumber f) = (xs.filterMap (keepNumber f)).filter p := by
  induction xs with
  | nil => rfl
  | cons x xs ih =>
    have ih := ih fun y hy => hpq y (mem_cons_of_mem _ hy)
    cases hf : f x.1 with
    | none => by_cases hq : q x = true <;> simpa [filter_cons,filterMap_cons,keepNumber,hf,hq] using ih
    | some b =>
      have hp := hpq x mem_cons_self b hf
      by_cases hq : q x = true <;> simpa [filter_cons,filterMap_cons,keepNumber,hf,hq,hp] using ih

lemma filterMap_filter_number (f : α → Option β) (xs : List (α × ℕ)) (n : ℕ) :
    (xs.filter (fun x => x.2 ≠ n)).filterMap (keepNumber f) =
      (xs.filterMap (keepNumber f)).filter (fun x => x.2 ≠ n) :=
  filterMap_filter_keepNumber fun _ _ _ _ => rfl

lemma filter_not_mem_cons (xs : List (α × ℕ)) (n : ℕ) (ns : List ℕ) : xs.filter (fun x => decide (x.2 ∉ n::ns)) =
      (xs.filter (fun x => x.2 ≠ n)).filter (fun x => decide (x.2 ∉ ns)) := by
  rw [List.filter_filter]
  refine List.filter_congr ?_
  intro x _
  rw [Bool.eq_iff_iff,Bool.and_eq_true,decide_eq_true_iff,decide_eq_true_iff,decide_eq_true_iff,mem_cons,not_or,
    and_comm]

namespace Increasing
variable {x : α × ℕ} {xs : List (α × ℕ)}

lemma init (h : Increasing (xs++[x])) : Increasing xs ∧ ∀ y ∈ xs, y.2 < x.2 := by
  obtain ⟨hxs,-,hlast⟩ := pairwise_append.mp h
  exact ⟨hxs,fun y hy => hlast y hy x (mem_singleton_self x)⟩

section
variable (h : Increasing xs)
include h

lemma insertNumbered (hx : ∀ y ∈ xs, y.2 ≠ x.2) : Increasing (insertNumbered x xs) := by
  induction xs with
  | nil => simp [Lib.insertNumbered,Increasing]
  | cons y ys ih =>
    obtain ⟨hy,hys⟩ := pairwise_cons.mp h
    simp only [Lib.insertNumbered]
    split_ifs with hlt
    · refine pairwise_cons.mpr ⟨?_,h⟩
      intro z hz
      rcases mem_cons.mp hz with rfl | hz
      · exact hlt
      · exact Nat.lt_trans hlt (hy z hz)
    · refine pairwise_cons.mpr ⟨?_,ih hys (fun z hz => hx z (mem_cons_of_mem _ hz))⟩
      intro z hz
      rcases mem_insertNumbered.mp hz with rfl | hz
      · have := hx y mem_cons_self
        omega
      · exact hy z hz

lemma filter (p : α × ℕ → Bool) : Increasing (xs.filter p) :=
  List.Pairwise.filter p h

lemma filterMap (f : α → Option β) : Increasing (xs.filterMap (keepNumber f)) := by
  refine List.Pairwise.filterMap _ ?_ h
  intro a b hab c hc d hd
  rw [← (keepNumber_eq_some.mp hc).2,← (keepNumber_eq_some.mp hd).2]
  exact hab

lemma eq_of_number (hx : x ∈ xs) (hy : y ∈ xs) (hxy : x.2 = y.2) : x = y := by
  have hnodup : (xs.map Prod.snd).Nodup := by
    refine pairwise_map.mpr (h.imp ?_)
    intro a b hab
    omega
  exact inj_on_of_nodup_map hnodup hx hy hxy

/-- Put an item back where it was. -/
lemma insertNumbered_filter (hx : x ∈ xs) :
    Lib.insertNumbered x (xs.filter (fun y => y.2 ≠ x.2)) = xs := by
  induction xs with
  | nil => simp at hx
  | cons y ys ih =>
    obtain ⟨hy,hys⟩ := pairwise_cons.mp h
    rcases mem_cons.mp hx with rfl | hx
    · have hrest : ys.filter (fun z => decide (z.2 ≠ x.2)) = ys := by
        apply filter_eq_self.mpr
        intro z hz
        have := hy z hz
        simp only [decide_eq_true_eq]
        omega
      rw [filter_cons_of_neg (by simp),hrest]
      cases ys with
      | nil => rfl
      | cons z zs => rw [Lib.insertNumbered,if_pos (hy z mem_cons_self)]
    · have hlt := hy x hx
      have hne : y.2 ≠ x.2 := by omega
      rw [filter_cons_of_pos (by simpa using hne),Lib.insertNumbered,if_neg (by omega),ih hys hx]

lemma filterMap_insertNumbered (f : α → Option β) (x : α × ℕ) :
    (Lib.insertNumbered x xs).filterMap (keepNumber f) =
      match f x.1 with
      | some b => Lib.insertNumbered (b,x.2) (xs.filterMap (keepNumber f))
      | none => xs.filterMap (keepNumber f) := by
  induction xs with
  | nil => cases hf : f x.1 <;> simp [Lib.insertNumbered,keepNumber,hf]
  | cons y ys ih =>
    obtain ⟨hy,hys⟩ := pairwise_cons.mp h
    have ih := ih hys
    simp only [Lib.insertNumbered]
    split_ifs with hlt
    · cases hf : f x.1 with
      | none => simp [keepNumber,hf]
      | some b =>
        have hfront : ∀ zs : List (β × ℕ), (∀ z ∈ zs, x.2 < z.2) → Lib.insertNumbered (b,x.2) zs = (b,x.2)::zs := by
          intro zs hzs
          cases zs with
          | nil => rfl
          | cons z zs => simp [Lib.insertNumbered,hzs z mem_cons_self]
        simp only [filterMap_cons,keepNumber,hf,map_some]
        rw [hfront]
        intro z hz
        have hmem : z ∈ (y::ys).filterMap (keepNumber f) := by simpa [filterMap_cons,keepNumber] using hz
        obtain ⟨a,ha,haz⟩ := mem_filterMap.mp hmem
        rw [← (keepNumber_eq_some.mp haz).2]
        rcases mem_cons.mp ha with rfl | ha
        · exact hlt
        · exact Nat.lt_trans hlt (hy a ha)
    · cases hfy : f y.1 with
      | none => simpa [filterMap_cons,keepNumber,hfy] using ih
      | some b =>
        cases hf : f x.1 with
        | none => simpa [filterMap_cons,keepNumber,hfy,hf] using ih
        | some c => simpa [filterMap_cons,keepNumber,hfy,hf,Lib.insertNumbered,hlt] using ih

/-- An item replaced by one that leaves the same. -/
lemma filterMap_replace (hx : x ∈ xs) (ha : f a = f x.1) :
    (Lib.insertNumbered (a,x.2) (xs.filter (fun y => y.2 ≠ x.2))).filterMap (keepNumber f) =
      xs.filterMap (keepNumber f) := by
  have hback := congrArg (List.filterMap (keepNumber f)) (h.insertNumbered_filter hx)
  rw [(h.filter _).filterMap_insertNumbered] at hback ⊢
  simpa only [ha] using hback

end

end Increasing

/-- No two items have keys that count as the same. -/
def Apart (same : β → β → Prop) (xs : List (β × ℕ)) : Prop := ∀ x ∈ xs, ∀ y ∈ xs, same x.1 y.1 → x = y

namespace Apart
variable {xs : List (β × ℕ)}

lemma subset (h : Apart same xs) (hsub : ∀ y ∈ ys, y ∈ xs) : Apart same ys :=
  fun x hx y hy => h x (hsub x hx) y (hsub y hy)

lemma insertNumbered {x : β × ℕ} (h : Apart same xs) (hleft : ∀ y ∈ xs, ¬same y.1 x.1)
    (hright : ∀ y ∈ xs, ¬same x.1 y.1) : Apart same (Lib.insertNumbered x xs) := by
  intro y hy z hz hyz
  rw [mem_insertNumbered] at hy hz
  rcases hy with rfl | hy
  · rcases hz with rfl | hz
    · rfl
    · exact absurd hyz (hright z hz)
  · rcases hz with rfl | hz
    · exact absurd hyz (hleft y hy)
    · exact h y hy z hz hyz

end Apart

/-- The entries of numbered items under their keys. No two entries count as the same if they have to
be unique. -/
structure Filed (same : β → β → Prop) (key : α → Option β) (unique : Bool) (xs : List (α × ℕ)) (es : List (β × ℕ)) :
    Prop where
  entries : es = xs.filterMap (keepNumber key)
  apart : unique = true → Apart same es

namespace Filed
variable {same : β → β → Prop} {key : α → Option β} {unique : Bool} {es : List (β × ℕ)} {y : β × ℕ} {n : ℕ}
  (h : Filed same key unique xs es)
include h

lemma mem_iff : y ∈ es ↔ ∃ x ∈ xs, key x.1 = some y.1 ∧ x.2 = y.2 := by
  rw [h.entries]
  simp only [mem_filterMap,keepNumber_eq_some]

/-- Entries taken out by a test that agrees with one on the items. -/
lemma filter (hpq : ∀ x ∈ xs, ∀ b, key x.1 = some b → p (b,x.2) = q x) :
    Filed same key unique (xs.filter q) (es.filter p) where
  entries := by rw [h.entries,filterMap_filter_keepNumber hpq]
  apart hu := (h.apart hu).subset fun _ hy => (mem_filter.mp hy).1

lemma insert (hinc : Increasing xs) (hkey : key a = some b)
    (hfresh : unique = true → ∀ y ∈ es, ¬same y.1 b ∧ ¬same b y.1) (n : ℕ) :
    Filed same key unique (insertNumbered (a,n) xs) (insertNumbered (b,n) es) where
  entries := by rw [hinc.filterMap_insertNumbered,hkey,h.entries]
  apart hu := (h.apart hu).insertNumbered (fun y hy => (hfresh hu y hy).1) fun y hy => (hfresh hu y hy).2

/-- An item replaced by one with its key. -/
lemma replace (hinc : Increasing xs) (hx : x ∈ xs) (hkey : key a = key x.1) :
    Filed same key unique (insertNumbered (a,x.2) (xs.filter fun y => y.2 ≠ x.2)) es :=
  ⟨h.entries.trans (hinc.filterMap_replace hx hkey).symm,h.apart⟩

/-- Another item has another key. -/
lemma unlike (hu : unique = true) (hy : y ∈ es) (hz : z ∈ es) (hne : y.2 ≠ z.2) : ¬same y.1 z.1 :=
  fun hsame => hne (congrArg Prod.snd (h.apart hu y hy z hz hsame))

lemma mem_rest (h' : Filed same key unique (xs.filter fun x => x.2 ≠ n) es') (hy : y ∈ es') : y ∈ es ∧ y.2 ≠ n := by
  obtain ⟨x,hx,hkey,hnum⟩ := h'.mem_iff.mp hy
  obtain ⟨hx,hne⟩ := mem_filter.mp hx
  exact ⟨h.mem_iff.mpr ⟨x,hx,hkey,hnum⟩,hnum ▸ of_decide_eq_true hne⟩

/-- A search that finds no other item than one shows that no other is to be found. -/
lemma not_found (hu : unique = true) (hown : ((es.find? p).map Prod.snd).any (· != n) = false)
    (hsame : ∀ y ∈ es, ∀ z ∈ es, p y = true → p z = true → same y.1 z.1) (hy : y ∈ es) (hne : y.2 ≠ n) : ¬p y = true := by
  intro hp
  cases hfind : es.find? p with
  | none => exact find?_eq_none.mp hfind y hy hp
  | some z =>
    rw [hfind,h.apart hu z (mem_of_find?_eq_some hfind) y hy
      (hsame z (mem_of_find?_eq_some hfind) y hy (find?_some hfind) hp)] at hown
    simp [hne] at hown

end Filed

lemma mem_of_find_number (h : (xs.find? fun x => x.2 = n).map Prod.fst = some a) : (a,n) ∈ xs := by
  obtain ⟨x,hfind,rfl⟩ := map_eq_some_iff.mp h
  have hnum : x.2 = n := by simpa using find?_some hfind
  rw [← hnum]
  exact mem_of_find?_eq_some hfind

end PowDB.Lib
