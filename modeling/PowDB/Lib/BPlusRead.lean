import PowDB.Lib.BPlusInsert

/-! Lookups, scans and deletions in a B+tree of a linear order, each as the operation on
the sorted list of all entries. Deletion only takes entries out of leaves. -/
namespace PowDB.Lib.BPlus
open List Option Prod
variable {K R D : Type} [LinearOrder K]

def find (key : K) (es : List (K × R)) : Option R := (es.find? fun e => decide (e.1 = key)).map snd

def without (key : K) (es : List (K × R)) : List (K × R) := es.filter fun e => decide (e.1 ≠ key)

section Lists
variable {key : K} {es : List (K × R)}

lemma find_eq_none (h : ∀ e ∈ es, e.1 ≠ key) : find key es = none := by
  rw [find,find?_eq_none.mpr (by simpa using h)]
  rfl

lemma find_middle {r : R} (hA : ∀ e ∈ A, e.1 ≠ key) : find key (A++(key,r)::B) = some r := by
  rw [find,find?_append,find?_eq_none.mpr (by simpa using hA)]
  simp

lemma without_eq_self (h : ∀ e ∈ es, e.1 ≠ key) : without key es = es :=
  filter_eq_self.mpr (by simpa using h)

lemma without_append (A B : List (K × R)) : without key (A++B) = without key A++without key B :=
  filter_append A B

lemma binarySearch_cons (k : K) (ks : List K) : binarySearch (probe key) (k::ks) =
    if k < key then (binarySearch (probe key) ks).map (·+1) else if k = key then some 0 else none := by
  by_cases hlt : k < key
  · have hpos : partitionPoint (probe key).below (k::ks) = partitionPoint (probe key).below ks+1 := by
      simp [partitionPoint,probe,hlt]
    simp only [binarySearch,hpos,getElem?_cons_succ]
    split <;> rfl
  · have hpos : partitionPoint (probe key).below (k::ks) = 0 := by
      simp [partitionPoint,probe,hlt]
    simp only [binarySearch,hpos,if_neg hlt]
    simp [probe]

/-- Binary search in a sorted leaf. -/
lemma binarySearch_spec (key : K) (hes : es.Pairwise (fun a b => a.1 < b.1)) :
    (∃ A r B, es = A++(key,r)::B ∧ binarySearch (probe key) (es.map fst) = some A.length ∧
      (∀ e ∈ A, e.1 < key) ∧ ∀ e ∈ B, key < e.1) ∨
    binarySearch (probe key) (es.map fst) = none ∧ ∀ e ∈ es, e.1 ≠ key := by
  induction es with
  | nil => exact .inr ⟨rfl,by simp⟩
  | cons a es ih =>
    obtain ⟨ha,hes'⟩ := pairwise_cons.mp hes
    rw [map_cons,binarySearch_cons]
    by_cases hlt : a.1 < key
    · rw [if_pos hlt]
      obtain ⟨A,r,B,rfl,hsearch,hA,hB⟩ | ⟨hsearch,hne⟩ := ih hes'
      · refine .inl ⟨a::A,r,B,rfl,by rw [hsearch]; rfl,fun e he => ?_,hB⟩
        obtain rfl | he := mem_cons.mp he
        · exact hlt
        · exact hA e he
      · refine .inr ⟨by rw [hsearch]; rfl,fun e he => ?_⟩
        obtain rfl | he := mem_cons.mp he
        · exact ne_of_lt hlt
        · exact hne e he
    · rw [if_neg hlt]
      by_cases heq : a.1 = key
      · refine .inl ⟨[],a.2,es,?_,if_pos heq,by simp,fun e he => heq ▸ ha e he⟩
        rw [← heq]
        rfl
      · refine .inr ⟨if_neg heq,fun e he => ?_⟩
        obtain rfl | he := mem_cons.mp he
        · exact heq
        · have hkey : key < a.1 := lt_of_le_of_ne (not_lt.mp hlt) (Ne.symm heq)
          exact ne_of_gt (hkey.trans (ha e he))

/-- A walk that ends at the first key above a bound sees every key up to the bound. -/
lemma takeWhile_filter (hes : es.Pairwise (fun a b => a.1 < b.1)) (bound : K) (p : K → Bool) :
    (es.takeWhile fun e => !decide (bound < e.1)).filter (fun e => p e.1) =
      es.filter fun e => p e.1 && decide (e.1 ≤ bound) := by
  induction es with
  | nil => rfl
  | cons a es ih =>
    obtain ⟨ha,hes'⟩ := pairwise_cons.mp hes
    by_cases hle : a.1 ≤ bound
    · simp only [takeWhile_cons,not_lt.mpr hle,decide_false,Bool.not_false,if_true,filter_cons,ih hes',
        hle,decide_true,Bool.and_true]
    · have hrest : es.filter (fun e => p e.1 && decide (e.1 ≤ bound)) = [] := by
        apply filter_eq_nil_iff.mpr
        intro e he
        simp [not_le.mpr ((not_le.mp hle).trans (ha e he))]
      simp [hle,hrest]

end Lists

/-! ### Sorted entries and the way to a leaf -/
section Descent
variable {order h id fuel : ℕ} {nodes : List (Node K R)} {lo hi : Option K} {U : List ℕ}

lemma Sub.sorted (hsub : Sub (· < ·) order nodes h lo hi id L U) : (entries L).Pairwise (fun a b => a.1 < b.1) := by
  induction h generalizing lo hi id L U with
  | zero =>
    obtain ⟨es,next,-,-,hsorted,-,rfl,-⟩ := hsub
    simpa using hsorted
  | succ h ih =>
    obtain ⟨keys,cs,V,-,-,hc,-⟩ := hsub
    induction hc with
    | last hc => exact ih hc
    | cons hs hc hrest ihc =>
      rw [entries_append]
      refine pairwise_append.mpr ⟨ih hc,ihc,fun a ha b hb => ?_⟩
      have hlt := (hc.entries_within a ha).2 _ rfl
      have hge := (hrest.entries_within (fun _ _ _ _ _ hsub => hsub.entries_within) b hb).1 _ rfl
      exact lt_of_lt_of_le hlt (not_lt.mp hge)

variable {t : Tree K R}

lemma Shape.sorted (hshape : Shape (· < ·) order t L) : (entries L).Pairwise (fun a b => a.1 < b.1) := by
  obtain ⟨h,U,hsub,-,-⟩ := hshape
  exact hsub.sorted

lemma descend_spec (key : K) (hsub : Sub (· < ·) order nodes h lo hi id L U) (hkey : Within (· < ·) lo hi key)
    (hfuel : h < fuel) : ∃ pre l es post, descend (probe key) fuel nodes id = some l ∧ L = pre++(l,es)::post ∧
      (∀ e ∈ entries pre, e.1 < key) ∧ ∀ e ∈ entries post, key < e.1 := by
  induction fuel generalizing h id lo hi L U with
  | zero => omega
  | succ fuel ih =>
    cases h with
    | zero =>
      obtain ⟨es,next,hnode,-,-,-,rfl,-⟩ := hsub
      exact ⟨[],id,es,[],by simp [descend,hnode],rfl,by simp,by simp⟩
    | succ h =>
      obtain ⟨keys,cs,V,hnode,-,hc,-⟩ := hsub
      obtain ⟨f,hf⟩ := hc.route (fun _ _ _ _ _ hsub => hsub.entries_within) hkey
      obtain ⟨pre,l,es,post,hdescend,hleaves,hpre,hpost⟩ := ih hf.holds hf.within (by omega)
      refine ⟨f.leavesLeft++pre,l,es,post++f.leavesRight,?_,by simp [hf.leaves_eq,hleaves],?_,?_⟩
      · have hget : cs[partitionPoint (probe key).upTo keys]? = some f.child := by
          rw [hf.pos,hf.children_eq,← hf.left_length]
          simp
        simp only [descend,hnode,hget,bind_some,hdescend]
      · intro e he
        rw [entries_append] at he
        exact (mem_append.mp he).elim (hf.before e) (hpre e)
      · intro e he
        rw [entries_append] at he
        exact (mem_append.mp he).elim (hpost e) (hf.after e)

lemma leftmost_spec (hsub : Sub (· < ·) order nodes h lo hi id L U) (hfuel : h < fuel) :
    ∃ l L', leftmost fuel nodes id = some l.1 ∧ L = l::L' := by
  induction fuel generalizing h id lo hi L U with
  | zero => omega
  | succ fuel ih =>
    cases h with
    | zero =>
      obtain ⟨es,next,hnode,-,-,-,rfl,-⟩ := hsub
      exact ⟨(id,es),[],by simp [leftmost,hnode],rfl⟩
    | succ h =>
      obtain ⟨keys,cs,V,hnode,-,hc,-⟩ := hsub
      cases hc with
      | last hsub =>
        obtain ⟨l,L',hleft,hL⟩ := ih hsub (by omega)
        exact ⟨l,L',by simp [leftmost,hnode,hleft],hL⟩
      | cons hs hsub hrest =>
        obtain ⟨l,L',hleft,rfl⟩ := ih hsub (by omega)
        exact ⟨l,L'++_,by simp [leftmost,hnode,hleft],rfl⟩

/-- The shape with what a walk needs: the fuel, and the leaves as nodes. -/
lemma Shape.unfold (hshape : Shape (· < ·) order t L) :
    ∃ h U, Sub (· < ·) order t.nodes h none none t.root L U ∧ h < t.nodes.length ∧ L.length ≤ t.nodes.length ∧
      Chained (nextOf t.nodes) (L.map fst) := by
  obtain ⟨h,U,hsub,hU,hchain⟩ := hshape
  have hle := hsub.used_length_le hU
  refine ⟨h,U,hsub,Nat.lt_of_lt_of_le hsub.height_lt hle,?_,hchain⟩
  simpa using Nat.le_trans hsub.leaves_sublist.length_le hle

end Descent

/-! ### Walks along the leaves -/
section Walk
variable {nodes : List (Node K R)} {Ls : List (Leaf K R)} {fuel : ℕ}

/-- Leaves that stand in the arena and are linked in order. -/
structure Row (nodes : List (Node K R)) (Ls : List (Leaf K R)) : Prop where
  node : ∀ l ∈ Ls, ∃ next, nodes[l.1]? = some (.leaf (l.2.map fst) (l.2.map snd) next)
  chained : Chained (nextOf nodes) (Ls.map fst)

omit [LinearOrder K] in
lemma Row.cons_iff : Row nodes (l::Ls) ↔
    nodes[l.1]? = some (.leaf (l.2.map fst) (l.2.map snd) (Ls.map fst).head?) ∧ Row nodes Ls := by
  constructor
  · intro hrow
    obtain ⟨next,hnode⟩ := hrow.node l (by simp)
    have hnext : next = (Ls.map fst).head? := by
      have hchain := hrow.chained.1
      rw [nextOf_eq hnode] at hchain
      exact some.inj hchain
    exact ⟨hnext ▸ hnode,fun x hx => hrow.node x (mem_cons_of_mem _ hx),hrow.chained.2⟩
  · rintro ⟨hnode,hrow⟩
    refine ⟨fun x hx => ?_,nextOf_eq hnode,hrow.chained⟩
    obtain rfl | hx := mem_cons.mp hx
    · exact ⟨_,hnode⟩
    · exact hrow.node x hx

omit [LinearOrder K] in
lemma scanChain_spec (stop take : K → Bool) (hrow : Row nodes Ls) (hfuel : Ls.length ≤ fuel) :
    scanChain stop take fuel nodes (Ls.map fst).head? =
      some (((entries Ls).takeWhile fun e => !stop e.1).filter fun e => take e.1) := by
  induction Ls generalizing fuel with
  | nil => cases fuel <;> rfl
  | cons l Ls ih =>
    obtain ⟨hnode,hrow'⟩ := Row.cons_iff.mp hrow
    obtain ⟨fuel,rfl⟩ := Nat.exists_eq_add_of_le' (Nat.le_trans (Nat.succ_pos _) hfuel)
    simp only [map_cons,head?_cons,scanChain,hnode,zip_unzip,entries_cons]
    rw [ih hrow' (Nat.le_of_succ_le_succ hfuel)]
    by_cases hany : l.2.any (fun e => stop e.1) = true
    · obtain ⟨e,he,hstop⟩ := any_eq_true.mp hany
      have hcut : (l.2++entries Ls).takeWhile (fun e => !stop e.1) = l.2.takeWhile fun e => !stop e.1 := by
        rw [takeWhile_append,if_neg]
        intro hlen
        have hall := takeWhile_eq_self_iff.mp
          (List.IsPrefix.eq_of_length (List.takeWhile_prefix fun e : K × R => !stop e.1) hlen)
        simpa [hstop] using hall e he
      rw [if_pos hany,hcut]
    · have hall : ∀ e ∈ l.2, (!stop e.1) = true := by
        simpa using hany
      rw [if_neg hany,takeWhile_append_of_pos hall,takeWhile_eq_self_iff.mpr hall]
      simp

omit [LinearOrder K] in
lemma countChain_spec (hrow : Row nodes Ls) (hfuel : Ls.length ≤ fuel) :
    countChain fuel nodes (Ls.map fst).head? = some (entries Ls).length := by
  induction Ls generalizing fuel with
  | nil => cases fuel <;> rfl
  | cons l Ls ih =>
    obtain ⟨hnode,hrow'⟩ := Row.cons_iff.mp hrow
    obtain ⟨fuel,rfl⟩ := Nat.exists_eq_add_of_le' (Nat.le_trans (Nat.succ_pos _) hfuel)
    simp only [map_cons,head?_cons,countChain,hnode,ih hrow' (Nat.le_of_succ_le_succ hfuel)]
    simp

end Walk

/-! ### The operations -/
namespace Tree
variable {order : ℕ} {t : Tree K R} {L : List (Leaf K R)}

omit [LinearOrder K] in
lemma row_of_suffix {h id : ℕ} {nodes : List (Node K R)}
    (hsub : Sub lt order nodes h lo hi id (pre++suf) U)
    (hchain : Chained (nextOf nodes) ((pre++suf).map fst)) : Row nodes suf := by
  refine ⟨fun l hl => hsub.leaf_nodes l (mem_append_right _ hl),?_⟩
  rw [map_append] at hchain
  exact hchain.of_append

section
variable (hshape : Shape (· < ·) order t L)
include hshape

/-- The leaf a key belongs to, as a node of the tree. -/
lemma descend_leaf (key : K) :
    ∃ pre l es post next, descend (probe key) t.nodes.length t.nodes t.root = some l ∧ L = pre++(l,es)::post ∧
      t.nodes[l]? = some (.leaf (es.map fst) (es.map snd) next) ∧
      es.Pairwise (fun a b => a.1 < b.1) ∧ (∀ e ∈ entries pre, e.1 < key) ∧ ∀ e ∈ entries post, key < e.1 := by
  obtain ⟨h,U,hsub,hfuel,-,-⟩ := hshape.unfold
  obtain ⟨pre,l,es,post,hdescend,rfl,hpre,hpost⟩ := descend_spec key hsub ⟨by simp,by simp⟩ hfuel
  obtain ⟨next,hnode⟩ := hsub.leaf_nodes (l,es) (by simp)
  have hsorted := hsub.sorted
  simp only [entries_append] at hsorted
  exact ⟨pre,l,es,post,next,hdescend,rfl,hnode,
    (pairwise_append.mp (pairwise_append.mp hsorted).2.1).1,hpre,hpost⟩

lemma lookup_spec (key : K) :
    t.lookup (probe key) = some (find key (entries L)) := by
  obtain ⟨pre,l,es,post,next,hdescend,rfl,hnode,hes,hpre,hpost⟩ := descend_leaf hshape key
  simp only [lookup,hdescend,bind_some,hnode,entries_append,entries_cons]
  have hpre' : ∀ e ∈ entries pre, e.1 ≠ key := fun e he => ne_of_lt (hpre e he)
  have hpost' : ∀ e ∈ entries post, e.1 ≠ key := fun e he => ne_of_gt (hpost e he)
  obtain ⟨A,r,B,rfl,hsearch,hA,-⟩ | ⟨hsearch,hne⟩ := binarySearch_spec key hes
  · rw [hsearch]
    have happ : entries pre++(A++(key,r)::B++entries post) = (entries pre++A)++(key,r)::(B++entries post) := by simp
    rw [happ,find_middle]
    · simp
    · intro e he
      exact (mem_append.mp he).elim (hpre' e) (fun he => ne_of_lt (hA e he))
  · rw [hsearch,find_eq_none]
    · rfl
    · intro e he
      obtain he | he := mem_append.mp he
      · exact hpre' e he
      · exact (mem_append.mp he).elim (hne e) (hpost' e)

lemma delete_spec (key : K) :
    ∃ t' L', t.delete (probe key) = some (t',(find key (entries L)).isSome) ∧ Shape (· < ·) order t' L' ∧
      entries L' = without key (entries L) := by
  obtain ⟨pre,l,es,post,next,hdescend,rfl,hnode,hes,hpre,hpost⟩ := descend_leaf hshape key
  have hpre' : ∀ e ∈ entries pre, e.1 ≠ key := fun e he => ne_of_lt (hpre e he)
  have hpost' : ∀ e ∈ entries post, e.1 ≠ key := fun e he => ne_of_gt (hpost e he)
  simp only [delete,hdescend,bind_some,hnode]
  obtain ⟨A,r,B,rfl,hsearch,hA,hB⟩ | ⟨hsearch,hne⟩ := binarySearch_spec key hes
  · have hA' : ∀ e ∈ A, e.1 ≠ key := fun e he => ne_of_lt (hA e he)
    have hB' : ∀ e ∈ B, e.1 ≠ key := fun e he => ne_of_gt (hB e he)
    have herase : ∀ {α : Type} (g : K × R → α), ((A++(key,r)::B).map g).eraseIdx A.length = (A++B).map g := by
      intro α g
      rw [eraseIdx_map,eraseIdx_append_of_length_le le_rfl]
      simp
    have hsublist : (A++B).Sublist (A++(key,r)::B) := by simp
    refine ⟨_,pre++(l,A++B)::post,?_,hshape.setLeaf hnode hsublist,?_⟩
    · have happ : entries (pre++(l,A++(key,r)::B)::post) = (entries pre++A)++(key,r)::(B++entries post) := by simp
      rw [happ,find_middle]
      · simp only [hsearch,herase]
        rfl
      · intro e he
        exact (mem_append.mp he).elim (hpre' e) (hA' e)
    · simp only [entries_append,entries_cons,without_append,without_eq_self hpre',without_eq_self hpost',
        without_eq_self hA']
      have hmid : without key ((key,r)::B) = B := by
        rw [without,filter_cons_of_neg (by simp)]
        exact without_eq_self hB'
      rw [hmid]
  · have hall : ∀ e ∈ entries (pre++(l,es)::post), e.1 ≠ key := by
      intro e he
      simp only [entries_append,entries_cons,mem_append] at he
      obtain he | he | he := he
      · exact hpre' e he
      · exact hne e he
      · exact hpost' e he
    refine ⟨t,pre++(l,es)::post,?_,hshape,(without_eq_self hall).symm⟩
    rw [find_eq_none hall]
    simp only [hsearch]
    rfl

lemma scanFrom_spec (start : K) (stop take : K → Bool) :
    ∃ pre suf, entries L = pre++suf ∧ (∀ e ∈ pre, e.1 < start) ∧ t.scanFrom (probe start) stop take =
      some ((suf.takeWhile fun e => !stop e.1).filter fun e => take e.1) := by
  obtain ⟨h,U,hsub,hfuel,hlen,hchain⟩ := hshape.unfold
  obtain ⟨pre,l,es,post,hdescend,rfl,hpre,-⟩ := descend_spec start hsub ⟨by simp,by simp⟩ hfuel
  refine ⟨entries pre,entries ((l,es)::post),by simp,hpre,?_⟩
  rw [scanFrom,hdescend,bind_some]
  have hlen' : ((l,es)::post).length ≤ t.nodes.length := by
    rw [length_append] at hlen
    omega
  exact scanChain_spec stop take (row_of_suffix hsub hchain) hlen'

lemma range_spec (start bound : K) :
    t.scanFrom (probe start) (fun k => decide (bound < k)) (fun k => decide (start ≤ k)) =
      some ((entries L).filter fun e => decide (start ≤ e.1) && decide (e.1 ≤ bound)) := by
  obtain ⟨pre,suf,hL,hpre,hscan⟩ := scanFrom_spec hshape start (fun k => decide (bound < k)) (fun k => decide (start ≤ k))
  have hsorted := hL ▸ hshape.sorted
  have hnone : pre.filter (fun e => decide (start ≤ e.1) && decide (e.1 ≤ bound)) = [] := by
    apply filter_eq_nil_iff.mpr
    intro e he
    simp [not_le.mpr (hpre e he)]
  rw [hscan,takeWhile_filter (pairwise_append.mp hsorted).2.1 bound (fun k => decide (start ≤ k)),hL,
    filter_append,hnone,nil_append]

lemma range_from_spec (start : K) :
    t.scanFrom (probe start) (fun _ => false) (fun k => decide (start ≤ k)) =
      some ((entries L).filter fun e => decide (start ≤ e.1)) := by
  obtain ⟨pre,suf,hL,hpre,hscan⟩ := scanFrom_spec hshape start (fun _ => false) (fun k => decide (start ≤ k))
  have hnone : pre.filter (fun e => decide (start ≤ e.1)) = [] := by
    apply filter_eq_nil_iff.mpr
    intro e he
    simp [not_le.mpr (hpre e he)]
  have hall : suf.takeWhile (fun _ => true) = suf := takeWhile_eq_self_iff.mpr fun _ _ => rfl
  rw [hscan,hL,filter_append,hnone,nil_append]
  simp only [Bool.not_false,hall]

/-- The walk over all leaves. -/
lemma leftmost_row :
    leftmost t.nodes.length t.nodes t.root = (L.map fst).head? ∧ (∃ l, (L.map fst).head? = some l) ∧
      Row t.nodes L ∧ L.length ≤ t.nodes.length := by
  obtain ⟨h,U,hsub,hfuel,hlen,hchain⟩ := hshape.unfold
  obtain ⟨l,L',hleft,rfl⟩ := leftmost_spec hsub hfuel
  exact ⟨hleft,⟨l.1,rfl⟩,⟨hsub.leaf_nodes,hchain⟩,hlen⟩

lemma range_to_spec (bound : K) :
    t.scanAll (fun k => decide (bound < k)) (fun _ => true) =
      some ((entries L).filter fun e => decide (e.1 ≤ bound)) := by
  obtain ⟨hleft,⟨l,hl⟩,hrow,hlen⟩ := leftmost_row hshape
  have hscan := scanChain_spec (fun k => decide (bound < k)) (fun _ => true) hrow hlen
  rw [scanAll,hleft,hl,bind_some,← hl,hscan,takeWhile_filter hshape.sorted bound (fun _ => true)]
  simp only [Bool.true_and]

lemma len_spec : t.len = some (entries L).length := by
  obtain ⟨hleft,⟨l,hl⟩,hrow,hlen⟩ := leftmost_row hshape
  rw [len,hleft,hl,bind_some,← hl,countChain_spec hrow hlen]

end

end Tree

lemma Tree.create_shape {order : ℕ} : Shape (· < ·) order (create : Tree K R) [(0,[])] :=
  ⟨0,[0],⟨[],none,rfl,by simp,by simp,by simp,rfl,rfl⟩,by simp,rfl,trivial⟩

/-! ### Deleting a batch -/
section Batch
variable {g : D → K} {ds : List D} {es : List (K × R)}

/-- Entries whose key is not among the given ones. -/
def withoutAll (g : D → K) (ds : List D) (es : List (K × R)) : List (K × R) :=
  es.filter fun e => decide (e.1 ∉ ds.map g)

lemma withoutAll_append (A B : List (K × R)) : withoutAll g ds (A++B) = withoutAll g ds A++withoutAll g ds B :=
  filter_append A B

lemma withoutAll_congr (h : ∀ e ∈ es, (e.1 ∈ ds'.map g ↔ e.1 ∈ ds.map g)) :
    withoutAll g ds' es = withoutAll g ds es := by
  apply filter_congr
  intro e he
  simp only [h e he]

lemma withoutAll_nil : withoutAll g [] es = es := by
  simp [withoutAll]

omit [LinearOrder K] in
lemma dropKeys_nil (before hit : D → K → Bool) (es : List (K × R)) : dropKeys before hit [] es = ([],es) := by
  induction es with
  | nil => rfl
  | cons e es ih => simp [dropKeys,ih]

section
variable (hds : ds.Pairwise (fun a b => g a ≤ g b))
include hds

/-- The cursor over the keys to delete: it drops what it meets and keeps what is still ahead. -/
lemma dropKeys_spec (hes : es.Pairwise (fun a b => a.1 < b.1)) :
    (dropKeys (fun d k => decide (g d < k)) (fun d k => decide (g d = k)) ds es).2 = withoutAll g ds es ∧
    (dropKeys (fun d k => decide (g d < k)) (fun d k => decide (g d = k)) ds es).1.Pairwise (fun a b => g a ≤ g b) ∧
    ∀ k, (∀ e ∈ es, e.1 < k) →
      (k ∈ (dropKeys (fun d k => decide (g d < k)) (fun d k => decide (g d = k)) ds es).1.map g ↔ k ∈ ds.map g) := by
  induction es generalizing ds with
  | nil => exact ⟨rfl,hds,fun _ _ => Iff.rfl⟩
  | cons e es ih =>
    obtain ⟨he,hes'⟩ := pairwise_cons.mp hes
    have hsplit := takeWhile_append_dropWhile (p := fun d => decide (g d < e.1)) (l := ds)
    have hahead : ∀ k, e.1 ≤ k → (k ∈ (ds.dropWhile fun d => decide (g d < e.1)).map g ↔ k ∈ ds.map g) := by
      intro k hk
      conv_rhs => rw [← hsplit,map_append,mem_append]
      refine ⟨.inr,fun h => h.resolve_left fun hmem => ?_⟩
      obtain ⟨c,hc,rfl⟩ := mem_map.mp hmem
      have hlt : g c < e.1 := by simpa using mem_takeWhile_imp hc
      exact absurd hlt (not_lt.mpr hk)
    rw [dropKeys]
    cases hdrop : ds.dropWhile (fun d => decide (g d < e.1)) with
    | nil =>
      rw [hdrop] at hahead
      simp only [dropKeys_nil]
      refine ⟨(filter_eq_self.mpr fun x hx => ?_).symm,.nil,fun k hk => hahead k (le_of_lt (hk e (by simp)))⟩
      have hge : e.1 ≤ x.1 := (mem_cons.mp hx).elim (fun heq => heq ▸ le_rfl) fun hx => le_of_lt (he x hx)
      simpa using hahead x.1 hge
    | cons d rest =>
      rw [hdrop] at hsplit hahead
      have hd : e.1 ≤ g d := by
        have hhead := head_dropWhile_not (fun d => decide (g d < e.1)) (l := ds) (by rw [hdrop]; simp)
        simpa [hdrop] using hhead
      have hds' : (d::rest).Pairwise (fun a b => g a ≤ g b) := (pairwise_append.mp (hsplit ▸ hds)).2.1
      by_cases hhit : g d = e.1
      · -- the key is found and its entry dropped; later keys are larger
        simp only [hhit,decide_true,if_true]
        obtain ⟨hkept,hsorted,hrest⟩ := ih (pairwise_cons.mp hds').2 hes'
        have hlater : ∀ k, e.1 < k → (k ∈ rest.map g ↔ k ∈ ds.map g) := by
          intro k hk
          rw [← hahead k (le_of_lt hk),map_cons,mem_cons]
          simp [hhit,ne_of_gt hk]
        refine ⟨?_,hsorted,fun k hk => ?_⟩
        · rw [hkept,withoutAll_congr fun x hx => hlater x.1 (he x hx)]
          have hmem : e.1 ∈ ds.map g := (hahead e.1 (le_refl _)).mp (by simp [hhit])
          rw [withoutAll,withoutAll,filter_cons_of_neg (by simpa using hmem)]
        · rw [hrest k fun x hx => hk x (mem_cons_of_mem _ hx),hlater k (hk e (by simp))]
      · simp only [hhit]
        obtain ⟨hkept,hsorted,hrest⟩ := ih hds' hes'
        refine ⟨?_,hsorted,fun k hk => ?_⟩
        · have hlt : e.1 < g d := lt_of_le_of_ne hd (Ne.symm hhit)
          have hmem : e.1 ∉ ds.map g := by
            rw [← hahead e.1 (le_refl _)]
            intro hmem
            obtain ⟨c,hc,heq⟩ := mem_map.mp hmem
            obtain rfl | hc := mem_cons.mp hc
            · exact hhit heq
            · exact absurd ((pairwise_cons.mp hds').1 c hc) (not_le.mpr (heq ▸ hlt))
          have hcons : withoutAll g ds (e::es) = e::withoutAll g ds es := by
            rw [withoutAll,withoutAll,filter_cons_of_pos (by simpa using hmem)]
          rw [hcons,← withoutAll_congr fun x hx => hahead x.1 (le_of_lt (he x hx)),← hkept]
          rfl
        · exact (hrest k fun x hx => hk x (mem_cons_of_mem _ hx)).trans (hahead k (le_of_lt (hk e (by simp))))

lemma deleteChain_spec {pre Ls : List (Leaf K R)}
    (hshape : Shape (· < ·) order t (pre++Ls)) (hfuel : Ls.length ≤ fuel) :
    ∃ nodes' n Ls', deleteChain (fun d k => decide (g d < k)) (fun d k => decide (g d = k)) fuel t.nodes
        (Ls.map fst).head? ds = some (nodes',n) ∧ Shape (· < ·) order ⟨nodes',t.root⟩ (pre++Ls') ∧
      entries Ls' = withoutAll g ds (entries Ls) ∧ n+(entries Ls').length = (entries Ls).length := by
  induction Ls generalizing t pre fuel ds with
  | nil => exact ⟨t.nodes,0,[],by cases fuel <;> cases ds <;> rfl,hshape,rfl,by simp⟩
  | cons l Ls ih =>
    cases ds with
    | nil => exact ⟨t.nodes,0,l::Ls,by cases fuel <;> rfl,hshape,withoutAll_nil.symm,by simp⟩
    | cons d ds =>
      obtain ⟨fuel,rfl⟩ := Nat.exists_eq_add_of_le' (Nat.le_trans (Nat.succ_pos _) hfuel)
      obtain ⟨h,U,hsub,-,hlen,hchain⟩ := hshape.unfold
      obtain ⟨hnode,-⟩ := Row.cons_iff.mp (Tree.row_of_suffix hsub hchain)
      have hsorted := hsub.sorted
      simp only [entries_append] at hsorted
      have hsuf := (pairwise_append.mp hsorted).2.1
      obtain ⟨hl,hrest,hacross⟩ := pairwise_append.mp hsuf
      obtain ⟨hkept,hds',hahead⟩ := dropKeys_spec hds hl
      have hsublist : (withoutAll g (d::ds) l.2).Sublist l.2 := filter_sublist
      have hshape' := hshape.setLeaf hnode hsublist
      rw [show pre++(l.1,withoutAll g (d::ds) l.2)::Ls = (pre++[(l.1,withoutAll g (d::ds) l.2)])++Ls by simp] at hshape'
      obtain ⟨nodes',n,Ls',hrun,hshape'',hentries,hcount⟩ := ih hds' hshape' (Nat.le_of_succ_le_succ hfuel)
      refine ⟨nodes',l.2.length-(withoutAll g (d::ds) l.2).length+n,(l.1,withoutAll g (d::ds) l.2)::Ls',?_,?_,?_,?_⟩
      · simp only [map_cons,head?_cons,deleteChain,hnode,zip_unzip,hkept,length_map]
        rw [hrun]
        rfl
      · simpa using hshape''
      · rw [entries_cons,entries_cons,withoutAll_append,hentries]
        congr 1
        apply withoutAll_congr
        intro x hx
        exact hahead x.1 fun e he => hacross e he x hx
      · have hle := hsublist.length_le
        simp only [entries_cons,length_append]
        omega

lemma Tree.deleteMany_spec
    (hshape : Shape (· < ·) order t L) :
    ∃ t' n L', t.deleteMany (fun d k => decide (g d < k)) (fun d k => decide (g d = k)) ds = some (t',n) ∧
      Shape (· < ·) order t' L' ∧ entries L' = withoutAll g ds (entries L) ∧
      n+(entries L').length = (entries L).length := by
  cases ds with
  | nil => exact ⟨t,0,L,rfl,hshape,withoutAll_nil.symm,by simp⟩
  | cons d ds =>
    obtain ⟨hleft,⟨l,hl⟩,-,hlen⟩ := leftmost_row hshape
    rw [← nil_append L] at hshape
    obtain ⟨nodes',n,L',hrun,hshape',hentries,hcount⟩ := deleteChain_spec hds hshape hlen
    refine ⟨⟨nodes',t.root⟩,n,L',?_,hshape',hentries,hcount⟩
    rw [hl] at hrun
    simp [deleteMany,hleft,hl,hrun]

end

end Batch
end PowDB.Lib.BPlus
