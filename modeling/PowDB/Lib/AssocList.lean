import Mathlib.Data.List.Basic
import Mathlib.Data.List.Nodup
import Mathlib.Data.List.Perm.Basic
import Mathlib.Tactic.Common

/-! Association lists with distinct keys, as finite maps in a fixed order. -/
namespace PowDB.Lib
open List Option Prod
variable {α β γ : Type} [DecidableEq α]
  {k : α} {xs : List (α × β)} {v : β}

/-- Replace the value under a key; a key that is absent stays absent. -/
def replaceKey (xs : List (α × β)) (k : α) (v : β) : List (α × β) :=
  xs.map (fun x => if x.1 = k then (k,v) else x)

lemma lookup_cons_self (xs : List (α × β)) (k : α) (v : β) : ((k,v)::xs).lookup k = some v := by
  simp

lemma lookup_cons_of_ne (xs : List (α × β)) (h : k' ≠ k) (v : β) :
    ((k,v)::xs).lookup k' = xs.lookup k' := by
  simp [lookup_cons,beq_eq_false_iff_ne.mpr h]

lemma lookup_replaceKey_self (h : xs.lookup k = some v) (w : β) : (replaceKey xs k w).lookup k = some w := by
  induction xs with
  | nil => simp at h
  | cons x xs ih =>
    obtain ⟨n,b⟩ := x
    by_cases hn : n = k
    · simp [replaceKey,hn]
    · rw [lookup_cons_of_ne xs (Ne.symm hn)] at h
      simp only [replaceKey,map_cons,hn,if_false]
      rw [lookup_cons_of_ne _ (Ne.symm hn)]
      exact ih h

lemma lookup_replaceKey_of_ne (xs : List (α × β)) (h : k' ≠ k) (w : β) :
    (replaceKey xs k w).lookup k' = xs.lookup k' := by
  induction xs with
  | nil => rfl
  | cons x xs ih =>
    obtain ⟨n,b⟩ := x
    simp only [replaceKey,map_cons]
    by_cases hn : n = k
    · subst hn
      rw [if_pos rfl,lookup_cons_of_ne _ h,lookup_cons_of_ne _ h]
      exact ih
    · rw [if_neg hn]
      by_cases hk : k' = n
      · subst hk
        rw [lookup_cons_self,lookup_cons_self]
      · rw [lookup_cons_of_ne _ hk,lookup_cons_of_ne _ hk]
        exact ih

lemma replaceKey_replaceKey (xs : List (α × β)) (k : α) (v w : β) :
    replaceKey (replaceKey xs k v) k w = replaceKey xs k w := by
  simp only [replaceKey,List.map_map]
  refine List.map_congr_left (fun x _ => ?_)
  by_cases hx : x.1 = k <;> simp [hx]

lemma keys_replaceKey (xs : List (α × β)) (k : α) (v : β) :
    (replaceKey xs k v).map fst = xs.map fst := by
  simp only [replaceKey,List.map_map]
  refine List.map_congr_left (fun x _ => ?_)
  by_cases hx : x.1 = k <;> simp [hx]

lemma mem_of_lookup (h : xs.lookup k = some v) : (k,v) ∈ xs := by
  obtain ⟨pre,post,rfl,-⟩ := lookup_eq_some_iff.mp h
  simp

lemma lookup_of_mem (hnodup : (xs.map fst).Nodup) (h : (k,v) ∈ xs) : xs.lookup k = some v := by
  induction xs with
  | nil => simp at h
  | cons x xs ih =>
    obtain ⟨n,b⟩ := x
    rw [map_cons,nodup_cons] at hnodup
    rcases mem_cons.mp h with heq | hmem
    · cases heq
      exact lookup_cons_self _ _ _
    · have hne : k ≠ n := by
        rintro rfl
        exact hnodup.1 (mem_map.mpr ⟨_,hmem,rfl⟩)
      rw [lookup_cons_of_ne _ hne]
      exact ih hnodup.2 hmem

lemma lookup_map_value (xs : List (α × β)) (f : β → γ) (k : α) :
    (xs.map (fun x => (x.1,f x.2))).lookup k = (xs.lookup k).map f := by
  induction xs with
  | nil => rfl
  | cons x xs ih =>
    obtain ⟨n,b⟩ := x
    by_cases hn : k = n
    · subst hn
      simp
    · rw [map_cons,lookup_cons_of_ne _ hn,lookup_cons_of_ne _ hn]
      exact ih

lemma lookup_eq_none_iff : xs.lookup k = none ↔ k ∉ xs.map fst := by
  simp only [List.lookup_eq_none_iff,bne_iff_ne,List.mem_map,not_exists,not_and]
  exact forall₂_congr fun _ _ => ne_comm

lemma lookup_filter (hnodup : (xs.map fst).Nodup) (p : α × β → Bool) (k : α) :
    (xs.filter p).lookup k = (xs.lookup k).filter fun v => p (k,v) := by
  induction xs with
  | nil => rfl
  | cons x xs ih =>
    obtain ⟨n,b⟩ := x
    rw [map_cons,nodup_cons] at hnodup
    by_cases hn : k = n
    · subst hn
      cases hp : p (k,b) with
      | true => simp [hp,filter_some]
      | false =>
        have hnone : xs.lookup k = none := lookup_eq_none_iff.mpr hnodup.1
        rw [filter_cons_of_neg (by simp [hp]),ih hnodup.2,hnone]
        simp [hp,filter_some]
    · rw [lookup_cons_of_ne _ hn,filter_cons]
      split
      · rw [lookup_cons_of_ne _ hn,ih hnodup.2]
      · exact ih hnodup.2

/-- Replacing a value by one with the same image leaves the image list alone. -/
lemma map_replaceKey (hnodup : (xs.map fst).Nodup) (h : xs.lookup k = some v) (f : β → γ)
    (hf : f w = f v) : (replaceKey xs k w).map (fun x => (x.1,f x.2)) = xs.map (fun x => (x.1,f x.2)) := by
  simp only [replaceKey,List.map_map]
  refine List.map_congr_left (fun x hx => ?_)
  by_cases hk : x.1 = k
  · obtain ⟨n,b⟩ := x
    simp only at hk
    subst hk
    have hb : some b = some v := (lookup_of_mem hnodup hx).symm.trans h
    cases hb
    simp [hf]
  · simp [hk]

/-- Replacing a value changes one stretch of what the entries are mapped to. -/
lemma flatMap_replaceKey (hnodup : (xs.map fst).Nodup) (h : xs.lookup k = some v) (f : α × β → List γ) :
    ∃ pre post, xs.flatMap f = pre++f (k,v)++post ∧ ∀ w, (replaceKey xs k w).flatMap f = pre++f (k,w)++post := by
  obtain ⟨pre,post,rfl⟩ := append_of_mem (mem_of_lookup h)
  rw [map_append,map_cons,nodup_middle,nodup_cons,← map_append] at hnodup
  refine ⟨pre.flatMap f,post.flatMap f,by simp,fun w => ?_⟩
  have hkeep : ∀ ys ⊆ pre++post, replaceKey ys k w = ys := by
    intro ys hys
    refine (List.map_congr_left fun x hx => if_neg fun heq => ?_).trans (List.map_id ys)
    exact hnodup.1 (List.mem_map.mpr ⟨x,hys hx,heq⟩)
  have hpre := hkeep pre (subset_append_left _ _)
  have hpost := hkeep post (subset_append_right _ _)
  rw [replaceKey] at hpre hpost ⊢
  simp [hpre,hpost]

lemma mapM_eq_map {δ ε : Type} {f : δ → Option ε} {g : δ → ε} {xs : List δ} (h : ∀ x ∈ xs, f x = some (g x)) :
    xs.mapM f = some (xs.map g) := by
  induction xs with
  | nil => rfl
  | cons x xs ih =>
    rw [mapM_cons,h x mem_cons_self,ih fun y hy => h y (mem_cons_of_mem _ hy)]
    rfl

lemma mem_mapM_some {δ ε : Type} {f : δ → Option ε} {xs : List δ} {ys : List ε} (h : xs.mapM f = some ys) {y : ε}
    (hy : y ∈ ys) : ∃ x ∈ xs, f x = some y := by
  induction xs generalizing ys with
  | nil =>
    cases h
    simp at hy
  | cons x xs ih =>
    simp only [mapM_cons,bind_eq_bind,bind_eq_some_iff] at h
    obtain ⟨z,hz,zs,hzs,heq⟩ := h
    cases heq
    rcases mem_cons.mp hy with rfl | hy
    · exact ⟨x,mem_cons_self,hz⟩
    · obtain ⟨x',hx',hf⟩ := ih hzs hy
      exact ⟨x',mem_cons_of_mem _ hx',hf⟩

/-- Remove a key, moving the last entry into its place. -/
def swapRemove (xs : List (α × β)) (k : α) : List (α × β) :=
  match xs.findIdx? (fun x => x.1 = k), xs.getLast? with
  | some i, some last => (xs.set i last).dropLast
  | _, _ => xs

lemma set_last_dropLast_perm {δ : Type} {xs : List δ} {i : ℕ} {last : δ} (hi : i < xs.length)
    (hlast : xs.getLast? = some last) : ((xs.set i last).dropLast).Perm (xs.eraseIdx i) := by
  obtain ⟨ys,rfl⟩ := getLast?_eq_some_iff.mp hlast
  rw [length_append,length_singleton] at hi
  by_cases hlt : i < ys.length
  · rw [set_append_left _ _ hlt,dropLast_concat,eraseIdx_append_of_lt_length hlt]
    exact (set_perm_cons_eraseIdx hlt last).trans (perm_append_singleton last _).symm
  · have hi' : i = ys.length := by omega
    subst hi'
    simp [eraseIdx_append_of_length_le]

lemma swapRemove_perm (hnodup : (xs.map fst).Nodup) (h : xs.lookup k = some v) :
    xs.Perm ((k,v)::swapRemove xs k) := by
  have hmem := mem_of_lookup h
  cases hidx : xs.findIdx? (fun x => decide (x.1 = k)) with
  | none =>
    rw [findIdx?_eq_none_iff] at hidx
    simpa using hidx _ hmem
  | some i =>
    obtain ⟨hi,hkey,-⟩ := findIdx?_eq_some_iff_getElem.mp hidx
    have hne : xs ≠ [] := by rintro rfl; simp at hmem
    have hlast := getLast?_eq_some_getLast hne
    have hget : xs[i] = (k,v) := by
      have hk : xs[i].1 = k := by simpa using hkey
      have hm : (xs[i].1,xs[i].2) ∈ xs := getElem_mem hi
      rw [hk] at hm
      have := (lookup_of_mem hnodup hm).symm.trans h
      rw [← hk,← some.inj this]
    have hperm := getElem_cons_eraseIdx_perm hi
    rw [hget] at hperm
    simp only [swapRemove,hidx,hlast]
    exact hperm.symm.trans ((set_last_dropLast_perm hi hlast).symm.cons _)

lemma swapRemove_of_lookup_none (h : xs.lookup k = none) : swapRemove xs k = xs := by
  have hidx : xs.findIdx? (fun x => decide (x.1 = k)) = none := by
    rw [findIdx?_eq_none_iff]
    intro x hx
    have hnot := lookup_eq_none_iff.mp h
    simpa using fun he : x.1 = k => hnot (he ▸ mem_map_of_mem hx)
  simp only [swapRemove,hidx]

lemma swapRemove_keys_nodup (hnodup : (xs.map fst).Nodup) (h : xs.lookup k = some v) :
    k ∉ (swapRemove xs k).map fst ∧ ((swapRemove xs k).map fst).Nodup := by
  have hp := (swapRemove_perm hnodup h).map fst
  exact nodup_cons.mp (hp.nodup_iff.mp hnodup)

lemma lookup_swapRemove_of_ne (hnodup : (xs.map fst).Nodup) (h : xs.lookup k = some v) (hne : k' ≠ k) :
    (swapRemove xs k).lookup k' = xs.lookup k' := by
  have hp := swapRemove_perm hnodup h
  have hnodup' := (swapRemove_keys_nodup hnodup h).2
  cases hl : xs.lookup k' with
  | none =>
    rw [lookup_eq_none_iff] at hl ⊢
    intro hmem
    exact hl ((hp.map fst).mem_iff.mpr (mem_cons_of_mem _ hmem))
  | some w =>
    apply lookup_of_mem hnodup'
    rcases mem_cons.mp (hp.mem_iff.mp (mem_of_lookup hl)) with heq | hmem
    · exact absurd (congrArg fst heq) hne
    · exact hmem

end PowDB.Lib
