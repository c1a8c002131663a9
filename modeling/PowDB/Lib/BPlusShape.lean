import PowDB.Lib.BPlusTree
import Mathlib.Data.List.Perm.Subperm
import Mathlib.Data.List.Nodup
import Mathlib.Data.Option.Basic
import Mathlib.Order.Basic
import Mathlib.Tactic.Order

/-! The shape a B+tree keeps: separators bound their subtrees, leaves are sorted and not
overfull, every node is used once, and the leaf links run through the leaves in order.
With it the tree is a sorted list of entries, and every operation is one on that list. -/
namespace PowDB.Lib.BPlus
open List Option Function Prod
variable {K K' R D : Type}

/-- A leaf's position with its entries. -/
abbrev Leaf (K R : Type) := ℕ × List (K × R)

def entries (L : List (Leaf K R)) : List (K × R) := (L.map snd).flatten

@[simp] lemma entries_nil : entries ([] : List (Leaf K R)) = [] := rfl

@[simp] lemma entries_cons (l : Leaf K R) (L : List (Leaf K R)) : entries (l::L) = l.2++entries L := rfl

@[simp] lemma entries_append (L₁ L₂ : List (Leaf K R)) : entries (L₁++L₂) = entries L₁++entries L₂ := by
  simp [entries]

/-- Where a leaf points; `none` for an internal node. -/
def Node.link : Node K R → Option (Option ℕ)
  | .leaf _ _ next => some next
  | .internal _ _ => none

def nextOf (nodes : List (Node K R)) (id : ℕ) : Option (Option ℕ) := nodes[id]?.bind Node.link

/-- The links run through the leaves in order and end behind the last. -/
def Chained (next : ℕ → Option (Option ℕ)) : List ℕ → Prop
  | [] => True
  | id::rest => next id = some rest.head? ∧ Chained next rest

section Shape
variable (lt : K → K → Prop)

/-- A key between the bounds of a subtree, the lower one included. -/
def Within (lo hi : Option K) (k : K) : Prop := (∀ l ∈ lo, ¬lt k l) ∧ ∀ u ∈ hi, lt k u

/-- A separator strictly between the bounds. -/
def Between (lo hi : Option K) (s : K) : Prop := (∀ l ∈ lo, lt l s) ∧ ∀ u ∈ hi, lt s u

/-- Subtrees from `lo` to `hi` with the separators between them. -/
inductive Children (P : Option K → Option K → ℕ → List (Leaf K R) → List ℕ → Prop) (hi : Option K) :
    Option K → List K → List ℕ → List (Leaf K R) → List ℕ → Prop
  | last {lo c L U} (h : P lo hi c L U) : Children P hi lo [] [c] L U
  | cons {lo s ss c cs L₁ L₂ U₁ U₂} (hs : Between lt lo hi s) (hc : P lo (some s) c L₁ U₁)
      (hrest : Children P hi (some s) ss cs L₂ U₂) : Children P hi lo (s::ss) (c::cs) (L₁++L₂) (U₁++U₂)

/-- The subtree of a given height at a position, with its leaves in order and the positions it uses. -/
def Sub (order : ℕ) (nodes : List (Node K R)) :
    ℕ → Option K → Option K → ℕ → List (Leaf K R) → List ℕ → Prop
  | 0,lo,hi,id,L,U => ∃ es next, nodes[id]? = some (.leaf (es.map fst) (es.map snd) next) ∧
      es.length ≤ order ∧ es.Pairwise (fun a b => lt a.1 b.1) ∧ (∀ e ∈ es, Within lt lo hi e.1) ∧
      L = [(id,es)] ∧ U = [id]
  | h+1,lo,hi,id,L,U => ∃ keys children V, nodes[id]? = some (.internal keys children) ∧ keys.length ≤ order ∧
      Children lt (Sub order nodes h) hi lo keys children L V ∧ U = id::V

/-- The structural invariant of a tree with the given leaves. -/
def Shape (order : ℕ) (t : Tree K R) (L : List (Leaf K R)) : Prop :=
  ∃ h U, Sub lt order t.nodes h none none t.root L U ∧ U.Nodup ∧ Chained (nextOf t.nodes) (L.map fst)

end Shape

/-! ### Facts about any order -/
section General
variable {lt : K → K → Prop} {P : Option K → Option K → ℕ → List (Leaf K R) → List ℕ → Prop}
  {order h id : ℕ} {nodes : List (Node K R)} {lo hi : Option K} {keys : List K} {cs : List ℕ}
  {L : List (Leaf K R)} {U : List ℕ}
  {next : Option ℕ} {node : Node K R}

section
variable (hc : Children lt P hi lo keys cs L U)
include hc

lemma Children.mono (h : ∀ x y c M V, V ⊆ U → P x y c M V → P' x y c M V) :
    Children lt P' hi lo keys cs L U := by
  induction hc with
  | last hc => exact .last (h _ _ _ _ _ (List.Subset.refl _) hc)
  | cons hs hc _ ih =>
    apply Children.cons hs
    · exact h _ _ _ _ _ (subset_append_left _ _) hc
    · exact ih fun x y c M V hV => h x y c M V (subset_append_of_subset_right _ hV)

lemma Children.exists_child :
    ∃ x y c M V, P x y c M V ∧ V.length ≤ U.length := by
  induction hc with
  | last hc => exact ⟨_,_,_,_,_,hc,le_rfl⟩
  | cons hs hc _ _ => exact ⟨_,_,_,_,_,hc,by simp⟩

lemma Children.forall_used {Q : ℕ → Prop}
    (h : ∀ x y c M V, P x y c M V → ∀ j ∈ V, Q j) : ∀ j ∈ U, Q j := by
  induction hc with
  | last hc => exact h _ _ _ _ _ hc
  | cons hs hc _ ih =>
    intro j hj
    obtain hj | hj := mem_append.mp hj
    · exact h _ _ _ _ _ hc j hj
    · exact ih j hj

/-- A property of leaves and used positions that holds of nothing and of two parts together. -/
lemma Children.parts {Q : List (Leaf K R) → List ℕ → Prop}
    (h : ∀ x y c M V, P x y c M V → Q M V) (happ : ∀ M V M' V', Q M V → Q M' V' → Q (M++M') (V++V')) : Q L U := by
  induction hc with
  | last hc => exact h _ _ _ _ _ hc
  | cons hs hc _ ih => exact happ _ _ _ _ (h _ _ _ _ _ hc) ih

end

section
variable (hsub : Sub lt order nodes h lo hi id L U)
include hsub

lemma Sub.frame (hsame : ∀ j ∈ U, nodes'[j]? = nodes[j]?) :
    Sub lt order nodes' h lo hi id L U := by
  induction h generalizing lo hi id L U with
  | zero =>
    obtain ⟨es,next,hnode,hrest⟩ := hsub
    have hid : id ∈ U := by simp [hrest.2.2.2.2]
    exact ⟨es,next,(hsame id hid).trans hnode,hrest⟩
  | succ h ih =>
    obtain ⟨keys,cs,V,hnode,hlen,hc,rfl⟩ := hsub
    refine ⟨keys,cs,V,(hsame id (by simp)).trans hnode,hlen,?_,rfl⟩
    apply hc.mono
    intro x y c M W hW hsub
    exact ih hsub fun j hj => hsame j (mem_cons_of_mem _ (hW hj))

lemma Sub.used_lt : ∀ j ∈ U, j < nodes.length := by
  induction h generalizing lo hi id L U with
  | zero =>
    obtain ⟨es,next,hnode,-,-,-,-,rfl⟩ := hsub
    intro j hj
    rw [mem_singleton.mp hj]
    exact (List.getElem?_eq_some_iff.mp hnode).1
  | succ h ih =>
    obtain ⟨keys,cs,V,hnode,-,hc,rfl⟩ := hsub
    intro j hj
    obtain rfl | hj := mem_cons.mp hj
    · exact (List.getElem?_eq_some_iff.mp hnode).1
    · exact hc.forall_used (fun _ _ _ _ _ hsub => ih hsub) j hj

lemma Sub.mem_used : id ∈ U := by
  cases h with
  | zero => simp [hsub.choose_spec.choose_spec.2.2.2.2.2]
  | succ h =>
    obtain ⟨keys,cs,V,-,-,-,rfl⟩ := hsub
    simp

lemma Sub.height_lt : h < U.length := by
  induction h generalizing lo hi id L U with
  | zero => exact length_pos_of_mem hsub.mem_used
  | succ h ih =>
    obtain ⟨keys,cs,V,-,-,hc,rfl⟩ := hsub
    obtain ⟨x,y,c,M,W,hsub,hle⟩ := hc.exists_child
    have := ih hsub
    simp only [length_cons]
    omega

/-- No more positions are used than there are nodes, so the arena's size is fuel enough. -/
lemma Sub.used_length_le (hU : U.Nodup) : U.length ≤ nodes.length := by
  have hsubset : U ⊆ range nodes.length := fun j hj => mem_range.mpr (hsub.used_lt j hj)
  simpa using (subperm_of_subset hU hsubset).length_le

lemma Sub.leaves_sublist : (L.map fst).Sublist U := by
  induction h generalizing lo hi id L U with
  | zero =>
    obtain ⟨es,next,-,-,-,-,rfl,rfl⟩ := hsub
    exact List.Sublist.refl _
  | succ h ih =>
    obtain ⟨keys,cs,V,-,-,hc,rfl⟩ := hsub
    apply List.Sublist.cons
    apply hc.parts (Q := fun M V => (M.map fst).Sublist V) (fun x y c M V hsub => ih hsub)
    intro M V M' V' hM hM'
    rw [map_append]
    exact hM.append hM'

lemma Sub.leaf_nodes : ∀ l ∈ L, ∃ next,
    nodes[l.1]? = some (.leaf (l.2.map fst) (l.2.map snd) next) := by
  induction h generalizing lo hi id L U with
  | zero =>
    obtain ⟨es,next,hnode,-,-,-,rfl,-⟩ := hsub
    intro l hl
    rw [mem_singleton.mp hl]
    exact ⟨next,hnode⟩
  | succ h ih =>
    obtain ⟨keys,cs,V,-,-,hc,-⟩ := hsub
    apply hc.parts (Q := fun M _ => ∀ l ∈ M, ∃ next,
      nodes[l.1]? = some (.leaf (l.2.map fst) (l.2.map snd) next)) (fun x y c M V hsub => ih hsub)
    intro M V M' V' hM hM' l hl
    obtain hl | hl := mem_append.mp hl
    · exact hM l hl
    · exact hM' l hl

end

lemma nextOf_eq (hnode : nodes[id]? = some (.leaf keys values next)) :
    nextOf nodes id = some next := by
  rw [nextOf,hnode]
  rfl

lemma nextOf_set (hid : id < nodes.length) : nextOf (nodes.set id node) =
    Function.update (nextOf nodes) id node.link := by
  funext j
  by_cases hj : j = id
  · subst hj
    rw [update_self,nextOf,getElem?_set_self hid]
    rfl
  · rw [update_of_ne hj,nextOf,getElem?_set_ne (Ne.symm hj),nextOf]

lemma nextOf_append (nodes : List (Node K R)) (node : Node K R) : nextOf (nodes++[node]) =
    Function.update (nextOf nodes) nodes.length node.link := by
  funext j
  obtain hj | rfl | hj := Nat.lt_trichotomy j nodes.length
  · rw [update_of_ne (by omega),nextOf,getElem?_append_left hj,nextOf]
  · rw [update_self,nextOf,getElem?_concat_length]
    rfl
  · rw [update_of_ne (by omega),nextOf,nextOf,getElem?_eq_none (Nat.le_of_lt hj),
      getElem?_eq_none (by simp; omega)]

lemma getElem?_set_append_of_ne (hj : j < nodes.length) (hne : j ≠ id) :
    (nodes.set id node++[right])[j]? = nodes[j]? := by
  rw [getElem?_append_left (by simpa using hj),getElem?_set_ne (Ne.symm hne)]

lemma getElem?_set_append_self (hid : id < nodes.length) :
    (nodes.set id node++[right])[id]? = some node := by
  rw [getElem?_append_left (by simpa using hid),getElem?_set_self hid]

lemma getElem?_set_append_length :
    (nodes.set id node++[right])[nodes.length]? = some right := by
  rw [getElem?_append_right (by simp)]
  simp

variable {es es' : List (K × R)}

lemma head?_map_append_cons :
    ((A++(l,es)::B).map fst).head? = ((A++(l,es')::B').map fst).head? := by
  cases A <;> rfl

lemma Chained.congr {next next' : ℕ → Option (Option ℕ)} (hc : Chained next ids)
    (h : ∀ id ∈ ids, next' id = next id) : Chained next' ids := by
  induction ids with
  | nil => trivial
  | cons id rest ih =>
    exact ⟨(h id (by simp)).trans hc.1,ih hc.2 fun j hj => h j (mem_cons_of_mem _ hj)⟩

lemma Chained.of_append {next : ℕ → Option (Option ℕ)} (hc : Chained next (as++bs)) :
    Chained next bs := by
  induction as with
  | nil => exact hc
  | cons a as ih => exact ih hc.2

lemma zip_unzip (es : List (K × R)) : (es.map fst).zip (es.map snd) = es := by
  rw [← List.unzip_fst,← List.unzip_snd,List.zip_unzip]

/-- A leaf with some of its entries taken out; nothing else about the subtree changes. -/
lemma Sub.setLeaf (hsub : Sub lt order nodes h lo hi id L U)
    (hnode : nodes[l]? = some (.leaf (es.map fst) (es.map snd) next)) (hes : es'.Sublist es) :
    Sub lt order (nodes.set l (.leaf (es'.map fst) (es'.map snd) next)) h lo hi id
      (L.map fun x => if x.1 = l then (l,es') else x) U := by
  have hl : l < nodes.length := (List.getElem?_eq_some_iff.mp hnode).1
  induction h generalizing lo hi id L U with
  | zero =>
    obtain ⟨fs,next',hnode',hlen,hsorted,hwithin,rfl,rfl⟩ := hsub
    by_cases hid : id = l
    · subst hid
      have hfs : fs = es := by
        have heq := hnode'.symm.trans hnode
        simp only [some.injEq,Node.leaf.injEq] at heq
        rw [← zip_unzip fs,← zip_unzip es,heq.1,heq.2.1]
      subst hfs
      exact ⟨es',next,getElem?_set_self hl,Nat.le_trans hes.length_le hlen,hsorted.sublist hes,
        fun e he => hwithin e (hes.subset he),by simp,rfl⟩
    · exact ⟨fs,next',by rw [getElem?_set_ne (Ne.symm hid),hnode'],hlen,hsorted,hwithin,by simp [hid],rfl⟩
  | succ h ih =>
    obtain ⟨keys,cs,V,hnode',hlen,hc,rfl⟩ := hsub
    have hid : id ≠ l := by
      rintro rfl
      rw [hnode] at hnode'
      exact nomatch hnode'
    refine ⟨keys,cs,V,by rw [getElem?_set_ne (Ne.symm hid),hnode'],hlen,?_,rfl⟩
    clear hnode' hlen
    induction hc with
    | last hc => exact .last (ih hc)
    | cons hs hc _ ihc =>
      rw [map_append]
      exact .cons hs (ih hc) ihc

lemma Shape.setLeaf
    (hshape : Shape lt order t (pre++(l,es)::post))
    (hnode : t.nodes[l]? = some (.leaf (es.map fst) (es.map snd) next)) (hes : es'.Sublist es) :
    Shape lt order ⟨t.nodes.set l (.leaf (es'.map fst) (es'.map snd) next),t.root⟩ (pre++(l,es')::post) := by
  obtain ⟨h,U,hsub,hU,hchain⟩ := hshape
  have hnodup : ((pre++(l,es)::post).map fst).Nodup := hU.sublist hsub.leaves_sublist
  have hmap : (pre++(l,es)::post).map (fun x => if x.1 = l then (l,es') else x) = pre++(l,es')::post := by
    rw [map_append,map_cons] at hnodup
    obtain ⟨-,hpost,hpre⟩ := nodup_append.mp hnodup
    have hkeep : ∀ xs : List (Leaf K R), (∀ x ∈ xs, x.1 ≠ l) → xs.map (fun x => if x.1 = l then (l,es') else x) = xs := by
      intro xs hxs
      exact (map_congr_left fun x hx => if_neg (hxs x hx)).trans (map_id _)
    rw [map_append,map_cons,if_pos rfl,hkeep pre,hkeep post]
    · intro x hx heq
      have hmem : x.1 ∈ post.map fst := mem_map_of_mem hx
      exact (nodup_cons.mp hpost).1 (heq ▸ hmem)
    · rintro x hx heq
      exact hpre x.1 (mem_map_of_mem hx) l (by simp) heq
  have hl : l < t.nodes.length := (List.getElem?_eq_some_iff.mp hnode).1
  refine ⟨h,U,hmap ▸ hsub.setLeaf hnode hes,hU,?_⟩
  rw [nextOf_set hl,Node.link,← nextOf_eq hnode,update_eq_self]
  simpa using hchain

end General

/-! ### Maps of the keys -/
section Map
variable {lt : K' → K' → Prop} {f : K → K'} {order h id : ℕ} {nodes : List (Node K R)} {lo hi : Option K}
  {L : List (Leaf K R)} {U : List ℕ}

def mapLeaves (f : K → K') (L : List (Leaf K R)) : List (Leaf K' R) := L.map fun l => (l.1,mapEntries f l.2)

lemma entries_mapLeaves (L : List (Leaf K R)) : entries (mapLeaves f L) = mapEntries f (entries L) := by
  induction L with
  | nil => rfl
  | cons l L ih =>
    rw [entries_cons,mapEntries,map_append,← mapEntries,← mapEntries,← ih]
    rfl

lemma Within.map (h : Within (fun a b => lt (f a) (f b)) lo hi k) : Within lt (lo.map f) (hi.map f) (f k) :=
  ⟨forall_mem_map.mpr h.1,forall_mem_map.mpr h.2⟩

lemma Between.map (h : Between (fun a b => lt (f a) (f b)) lo hi k) :
    Between lt (lo.map f) (hi.map f) (f k) :=
  ⟨forall_mem_map.mpr h.1,forall_mem_map.mpr h.2⟩

lemma Sub.map (hsub : Sub (fun a b => lt (f a) (f b)) order nodes h lo hi id L U) :
    Sub lt order (nodes.map (Node.map f)) h (lo.map f) (hi.map f) id (mapLeaves f L) U := by
  induction h generalizing lo hi id L U with
  | zero =>
    obtain ⟨es,next,hnode,hlen,hsorted,hwithin,rfl,rfl⟩ := hsub
    refine ⟨mapEntries f es,next,?_,by simpa [mapEntries] using hlen,?_,?_,rfl,rfl⟩
    · simp [hnode,Node.map,mapEntries,comp_def]
    · rw [mapEntries,pairwise_map]
      exact hsorted
    · intro e' he'
      obtain ⟨e,he,rfl⟩ := mem_map.mp he'
      exact (hwithin e he).map
  | succ h ih =>
    obtain ⟨keys,cs,V,hnode,hlen,hc,rfl⟩ := hsub
    refine ⟨keys.map f,cs,V,by simp [hnode,Node.map],by simpa using hlen,?_,rfl⟩
    clear hnode hlen
    induction hc with
    | last hc => exact .last (ih hc)
    | cons hs hc _ ihc =>
      rw [mapLeaves,map_append]
      exact .cons hs.map (ih hc) ihc

lemma nextOf_map (nodes : List (Node K R)) : nextOf (nodes.map (Node.map f)) = nextOf nodes := by
  funext id
  simp only [nextOf,getElem?_map]
  cases nodes[id]? with
  | none => rfl
  | some node => cases node <;> rfl

lemma Shape.map (hshape : Shape (fun a b => lt (f a) (f b)) order t L) :
    Shape lt order (t.map f) (mapLeaves f L) := by
  obtain ⟨h,U,hsub,hU,hchain⟩ := hshape
  refine ⟨h,U,hsub.map,hU,?_⟩
  rw [Tree.map,nextOf_map]
  simpa [mapLeaves,comp_def] using hchain

end Map
end PowDB.Lib.BPlus
