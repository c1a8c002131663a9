import PowDB.Lib.BPlusShape

/-! Insertion into a B+tree of a linear order keeps its shape and puts the entry into the
sorted list of all entries. The step that carries it is the route to the child a key
belongs to: the child can be exchanged for one or two subtrees between the same bounds. -/
namespace PowDB.Lib.BPlus
open List Option Function Nat Prod
variable {K R : Type} [LinearOrder K]
  {L : List (Leaf K R)} {U : List ℕ}

/-- The probe of a key in a linear order. -/
def probe (key : K) : Probe K := ⟨fun k => decide (k < key),fun k => decide (k ≤ key),fun k => decide (k = key)⟩

/-- A sorted list with one more entry; an equal key gets the new value. -/
def put (key : K) (rid : R) : List (K × R) → List (K × R)
  | [] => [(key,rid)]
  | e::es => if e.1 < key then e::put key rid es else if e.1 = key then (key,rid)::es else (key,rid)::e::es

section Put
variable {key : K} {rid : R} {es : List (K × R)}

/-- What is below the key, the entry, and what is above. -/
lemma put_eq_filter (hes : es.Pairwise (fun a b => a.1 < b.1)) : put key rid es =
    es.filter (fun e => decide (e.1 < key))++(key,rid)::es.filter (fun e => decide (key < e.1)) := by
  induction es with
  | nil => rfl
  | cons a es ih =>
    obtain ⟨ha,hes'⟩ := pairwise_cons.mp hes
    rw [put]
    by_cases hlt : a.1 < key
    · rw [if_pos hlt,ih hes']
      simp [hlt,not_lt_of_gt hlt]
    · have hbelow : es.filter (fun e => decide (e.1 < key)) = [] :=
        filter_eq_nil_iff.mpr fun e he => by simpa using le_of_lt (lt_of_le_of_lt (not_lt.mp hlt) (ha e he))
      have habove : es.filter (fun e => decide (key < e.1)) = es :=
        filter_eq_self.mpr fun e he => by simpa using lt_of_le_of_lt (not_lt.mp hlt) (ha e he)
      by_cases heq : a.1 = key
      · simp [heq,hbelow,habove]
      · have hkey : key < a.1 := lt_of_le_of_ne (not_lt.mp hlt) (Ne.symm heq)
        simp [heq,hlt,hkey,hbelow,habove]

lemma mem_put (hes : es.Pairwise (fun a b => a.1 < b.1)) (he : e ∈ put key rid es) :
    e = (key,rid) ∨ e ∈ es := by
  rw [put_eq_filter hes] at he
  simp only [mem_append,mem_cons,mem_filter] at he
  tauto

lemma put_sorted (hes : es.Pairwise (fun a b => a.1 < b.1)) : (put key rid es).Pairwise (fun a b => a.1 < b.1) := by
  rw [put_eq_filter hes]
  refine pairwise_append.mpr ⟨hes.filter _,pairwise_cons.mpr ⟨?_,hes.filter _⟩,?_⟩
  · intro b hb
    exact of_decide_eq_true (mem_filter.mp hb).2
  · intro a ha b hb
    have hlt : a.1 < key := of_decide_eq_true (mem_filter.mp ha).2
    obtain rfl | hb := mem_cons.mp hb
    · exact hlt
    · exact hlt.trans (of_decide_eq_true (mem_filter.mp hb).2)

lemma put_length_le : (put key rid es).length ≤ es.length+1 := by
  induction es with
  | nil => simp [put]
  | cons a es ih =>
    rw [put]
    split
    · simpa using ih
    · split <;> simp

/-- Entries on either side of the key are left alone. -/
lemma put_append (hpre : ∀ e ∈ pre, e.1 < key) (hpost : ∀ e ∈ post, key < e.1) :
    put key rid (pre++es++post) = pre++put key rid es++post := by
  induction pre with
  | cons a pre ih =>
    simp only [cons_append]
    rw [put,if_pos (hpre a (by simp)),ih fun e he => hpre e (mem_cons_of_mem _ he)]
  | nil =>
    simp only [nil_append]
    induction es with
    | nil =>
      cases post with
      | nil => rfl
      | cons b post =>
        have hb := hpost b (by simp)
        simp [put,not_lt_of_gt hb,ne_of_gt hb]
    | cons a es ih =>
      simp only [cons_append,put,ih]
      split
      · rfl
      · split <;> rfl

/-- The leaf's two lists after an insertion, of a key it has and of a new one. -/
lemma put_lists (key : K) (rid : R) (es : List (K × R)) :
    ((put key rid es).map fst,(put key rid es).map snd) =
      let pos := partitionPoint (probe key).below (es.map fst)
      if (es.map fst)[pos]?.any (probe key).equal then (es.map fst,(es.map snd).set pos rid)
      else ((es.map fst).insertIdx pos key,(es.map snd).insertIdx pos rid) := by
  induction es with
  | nil => simp [put,partitionPoint]
  | cons a es ih =>
    simp only [map_cons,partitionPoint,takeWhile_cons,probe] at ih ⊢
    by_cases hlt : a.1 < key
    · simp only [Prod.ext_iff,put,hlt] at ih ⊢
      split_ifs at ih ⊢ <;> simp_all
    · by_cases heq : a.1 = key <;> simp [put,hlt,heq]

variable {order : ℕ}

/-- Insertion into a leaf that is not overfull puts the entry in and splits if it has to. -/
lemma insertLeaf_put (hes : es.length ≤ order) (next : Option ℕ) (rightId : ℕ) :
    insertLeaf (probe key) order key rid (es.map fst) (es.map snd) next rightId =
      splitLeaf order ((put key rid es).map fst) ((put key rid es).map snd) next rightId := by
  have hlists := put_lists key rid es
  simp only [insertLeaf] at hlists ⊢
  split_ifs at hlists ⊢ with hfound
  · obtain ⟨hkeys,hvalues⟩ := Prod.mk.inj hlists
    rw [hkeys,hvalues,splitLeaf,if_pos (by simpa using hes)]
  · obtain ⟨hkeys,hvalues⟩ := Prod.mk.inj hlists
    rw [hkeys,hvalues]

end Put

/-! ### Separators -/
section Separators
variable {lo hi : Option K} {m : K}
  {A B keys : List K} {cs cs₁ cs₂ : List ℕ} {L L₁ L₂ : List (Leaf K R)} {U U₁ U₂ : List ℕ}

omit [LinearOrder K] in
lemma forall_mem_some {p : K → Prop} (h : p a) : ∀ x ∈ some a, p x := by
  intro x hx
  cases hx
  exact h

lemma Between.left (hm : Between (· < ·) lo hi m) (hs : Between (· < ·) lo (some m) s) :
    Between (· < ·) lo hi s :=
  ⟨hs.1,fun u hu => (hs.2 m rfl).trans (hm.2 u hu)⟩

lemma Between.right (hs : Between (· < ·) lo hi s) (hm : Between (· < ·) (some s) hi m) :
    Between (· < ·) lo hi m :=
  ⟨fun l hl => (hs.1 l hl).trans (hm.1 s rfl),hm.2⟩

/-- Two rows of children with a separator between them. -/
lemma Children.join (h₁ : Children (· < ·) P (some m) lo A cs₁ L₁ U₁) (hm : Between (· < ·) lo hi m)
    (h₂ : Children (· < ·) P hi (some m) B cs₂ L₂ U₂) :
    Children (· < ·) P hi lo (A++m::B) (cs₁++cs₂) (L₁++L₂) (U₁++U₂) := by
  induction h₁ with
  | last hc => exact .cons hm hc h₂
  | cons hs hc _ ih =>
    rw [append_assoc,append_assoc]
    exact .cons (hm.left hs) hc (ih ⟨forall_mem_some (hs.2 m rfl),hm.2⟩)

/-- Cutting at a separator. -/
lemma Children.cut (hc : Children (· < ·) P hi lo (A++m::B) cs L U) :
    ∃ cs₁ cs₂ L₁ L₂ U₁ U₂, cs = cs₁++cs₂ ∧ cs₁.length = A.length+1 ∧ L = L₁++L₂ ∧ U = U₁++U₂ ∧
      Between (· < ·) lo hi m ∧ Children (· < ·) P (some m) lo A cs₁ L₁ U₁ ∧
      Children (· < ·) P hi (some m) B cs₂ L₂ U₂ := by
  induction A generalizing lo cs L U with
  | nil =>
    cases hc with
    | cons hs hc hrest => exact ⟨_,_,_,_,_,_,rfl,rfl,rfl,rfl,hs,.last hc,hrest⟩
  | cons a A ih =>
    cases hc with
    | @cons _ _ _ c cs M _ V _ hs hc hrest =>
      obtain ⟨cs₁,cs₂,L₁,L₂,U₁,U₂,rfl,hlen,rfl,rfl,hm,h₁,h₂⟩ := ih hrest
      refine ⟨c::cs₁,cs₂,M++L₁,L₂,V++U₁,U₂,rfl,by simp [hlen],by simp,by simp,hs.right hm,?_,h₂⟩
      exact .cons ⟨hs.1,forall_mem_some (hm.1 a rfl)⟩ hc h₁

lemma Children.entries_within (hc : Children (· < ·) P hi lo keys cs L U)
    (hP : ∀ x y c M V, P x y c M V → ∀ e ∈ entries M, Within (· < ·) x y e.1) :
    ∀ e ∈ entries L, Within (· < ·) lo hi e.1 := by
  induction hc with
  | last hc => exact hP _ _ _ _ _ hc
  | cons hs hc _ ih =>
    intro e he
    rw [entries_append] at he
    obtain he | he := mem_append.mp he
    · have hw := hP _ _ _ _ _ hc e he
      exact ⟨hw.1,fun u hu => (hw.2 _ rfl).trans (hs.2 u hu)⟩
    · have hw := ih e he
      exact ⟨fun l hl hlt => hw.1 _ rfl (hlt.trans (hs.1 l hl)),hw.2⟩

end Separators

lemma Sub.entries_within {h id : ℕ}
    (hsub : Sub (· < ·) order nodes h lo hi id L U) : ∀ e ∈ entries L, Within (· < ·) lo hi e.1 := by
  induction h generalizing lo hi id L U with
  | zero =>
    obtain ⟨es,next,-,-,-,hwithin,rfl,-⟩ := hsub
    simpa using hwithin
  | succ h ih =>
    obtain ⟨keys,cs,V,-,-,hc,-⟩ := hsub
    exact hc.entries_within fun x y c M V hsub => ih hsub

/-! ### The route to a child -/

/-- The child a key belongs to, with what stands to its left and to its right. -/
structure Focus (K R : Type) where
  keysLeft : List K
  keysRight : List K
  left : List ℕ
  child : ℕ
  right : List ℕ
  lower : Option K
  upper : Option K
  leavesLeft : List (Leaf K R)
  leaves : List (Leaf K R)
  leavesRight : List (Leaf K R)
  usedLeft : List ℕ
  used : List ℕ
  usedRight : List ℕ

/-- The focus of a key in a row of children; `refill` puts other subtrees in the child's place. -/
structure Focus.On (f : Focus K R) (P : Option K → Option K → ℕ → List (Leaf K R) → List ℕ → Prop) (hi lo : Option K)
    (keys : List K) (cs : List ℕ) (L : List (Leaf K R)) (U : List ℕ) (key : K) : Prop where
  keys_eq : keys = f.keysLeft++f.keysRight
  children_eq : cs = f.left++f.child::f.right
  leaves_eq : L = f.leavesLeft++f.leaves++f.leavesRight
  used_eq : U = f.usedLeft++f.used++f.usedRight
  pos : partitionPoint (probe key).upTo keys = f.keysLeft.length
  left_length : f.left.length = f.keysLeft.length
  holds : P f.lower f.upper f.child f.leaves f.used
  within : Within (· < ·) f.lower f.upper key
  before : ∀ e ∈ entries f.leavesLeft, e.1 < key
  after : ∀ e ∈ entries f.leavesRight, key < e.1
  refill : ∀ {P' : Option K → Option K → ℕ → List (Leaf K R) → List ℕ → Prop},
    (∀ x y d N W, W ⊆ f.usedLeft++f.usedRight → P x y d N W → P' x y d N W) →
    ∀ {ts ms M V}, Children (· < ·) P' f.upper f.lower ts ms M V →
      Children (· < ·) P' hi lo (f.keysLeft++ts++f.keysRight) (f.left++ms++f.right)
        (f.leavesLeft++M++f.leavesRight) (f.usedLeft++V++f.usedRight)

lemma Children.route {P : Option K → Option K → ℕ → List (Leaf K R) → List ℕ → Prop}
    {keys : List K} {cs : List ℕ} (hP : ∀ x y c M V, P x y c M V → ∀ e ∈ entries M, Within (· < ·) x y e.1)
    (hc : Children (· < ·) P hi lo keys cs L U) (hkey : Within (· < ·) lo hi key) :
    ∃ f : Focus K R, f.On P hi lo keys cs L U key := by
  induction hc with
  | @last lo c L U hc =>
    refine ⟨⟨[],[],[],c,[],lo,hi,[],L,[],[],U,[]⟩,rfl,rfl,by simp,by simp,rfl,rfl,hc,hkey,by simp,by simp,?_⟩
    intro P' _ ts ms M V hnew
    simpa using hnew
  | @cons lo s ss c cs L₁ L₂ U₁ U₂ hs hc hrest ih =>
    by_cases hle : s ≤ key
    · -- the key belongs behind this separator
      obtain ⟨f,hf⟩ := ih ⟨forall_mem_some (not_lt.mpr hle),hkey.2⟩
      refine ⟨⟨s::f.keysLeft,f.keysRight,c::f.left,f.child,f.right,f.lower,f.upper,L₁++f.leavesLeft,f.leaves,
        f.leavesRight,U₁++f.usedLeft,f.used,f.usedRight⟩,?_,?_,?_,?_,?_,?_,hf.holds,hf.within,?_,hf.after,?_⟩
      · rw [hf.keys_eq]
        rfl
      · rw [hf.children_eq]
        rfl
      · simp [hf.leaves_eq]
      · simp [hf.used_eq]
      · have hpos := hf.pos
        simp only [partitionPoint,probe,takeWhile_cons,hle,decide_true,if_true,length_cons] at hpos ⊢
        rw [hpos]
      · simp [hf.left_length]
      · intro e he
        simp only [entries_append,mem_append] at he
        obtain he | he := he
        · exact lt_of_lt_of_le ((hP _ _ _ _ _ hc e he).2 s rfl) hle
        · exact hf.before e he
      · intro P' hkeep ts ms M V hnew
        have hold := hkeep _ _ _ _ _ (fun j hj => by simp [hj]) hc
        have hrest' := hf.refill (fun x y d N W hW => hkeep x y d N W fun j hj => by
          have := hW hj
          simp only [mem_append] at this ⊢
          tauto) hnew
        simpa using Children.cons hs hold hrest'
    · -- the key belongs before it, into the first child
      have hlt : key < s := not_le.mp hle
      refine ⟨⟨[],s::ss,[],c,cs,lo,some s,[],L₁,L₂,[],U₁,U₂⟩,rfl,rfl,rfl,rfl,?_,rfl,hc,?_,by simp,?_,?_⟩
      · simp [partitionPoint,probe,hle]
      · exact ⟨hkey.1,forall_mem_some hlt⟩
      · intro e he
        exact lt_of_lt_of_le hlt (not_lt.mp ((hrest.entries_within hP e he).1 s rfl))
      · intro P' hkeep ts ms M V hnew
        have hrest' := hrest.mono fun x y d N W hW => hkeep x y d N W (by simpa using hW)
        simpa using hnew.join hs hrest'

/-! ### One insertion -/

/-- The nodes outside the used ones stay, and positions come into use only behind the old arena. -/
structure Grows (nodes nodes' : List (Node K R)) (U U' : List ℕ) : Prop where
  length_le : nodes.length ≤ nodes'.length
  frame : ∀ j, j < nodes.length → j ∉ U → nodes'[j]? = nodes[j]?
  nodup : U'.Nodup
  mem : ∀ j ∈ U', j ∈ U ∨ nodes.length ≤ j

/-- What an insertion does to the leaves: one gets the entry, and may be cut in two. -/
inductive LeafStep (key : K) (rid : R) (n : ℕ) (next next' : ℕ → Option (Option ℕ)) :
    List (Leaf K R) → List (Leaf K R) → Prop
  | fit {pre l es post} (hbefore : ∀ e ∈ entries pre, e.1 < key) (hafter : ∀ e ∈ entries post, key < e.1)
      (hnext : next' = next) : LeafStep key rid n next next' (pre++(l,es)::post) (pre++(l,put key rid es)::post)
  | split {pre l r es es₁ es₂ post} (hbefore : ∀ e ∈ entries pre, e.1 < key) (hafter : ∀ e ∈ entries post, key < e.1)
      (hput : put key rid es = es₁++es₂) (hr : n ≤ r)
      (hnext : next' = Function.update (Function.update next r (next l)) l (some (some r))) :
      LeafStep key rid n next next' (pre++(l,es)::post) (pre++(l,es₁)::(r,es₂)::post)

section LeafStep
variable {key : K} {rid : R} {n : ℕ} {next next' : ℕ → Option (Option ℕ)} {L L' : List (Leaf K R)}

section
variable (h : LeafStep key rid n next next' L L')
include h

lemma LeafStep.within
    (hA : ∀ e ∈ entries A, e.1 < key) (hB : ∀ e ∈ entries B, key < e.1) :
    LeafStep key rid n next next' (A++L++B) (A++L'++B) := by
  have hpre : ∀ {pre : List (Leaf K R)}, (∀ e ∈ entries pre, e.1 < key) → ∀ e ∈ entries (A++pre), e.1 < key := by
    intro pre hbefore
    simpa [or_imp,forall_and] using ⟨fun a b => hA (a,b),fun a b => hbefore (a,b)⟩
  have hpost : ∀ {post : List (Leaf K R)}, (∀ e ∈ entries post, key < e.1) → ∀ e ∈ entries (post++B), key < e.1 := by
    intro post hafter
    simpa [or_imp,forall_and] using ⟨fun a b => hafter (a,b),fun a b => hB (a,b)⟩
  cases h with
  | @fit pre l es post hbefore hafter hnext =>
    have hfit : LeafStep key rid n next next' ((A++pre)++(l,es)::(post++B)) ((A++pre)++(l,put key rid es)::(post++B)) :=
      .fit (hpre hbefore) (hpost hafter) hnext
    simpa using hfit
  | split hbefore hafter hput hr hnext =>
    simpa using LeafStep.split (hpre hbefore) (hpost hafter) hput hr hnext

lemma LeafStep.entries : entries L' = put key rid (entries L) := by
  cases h with
  | fit hbefore hafter => simpa using (put_append hbefore hafter).symm
  | @split pre l r es es₁ es₂ post hbefore hafter hput =>
    have happ : put key rid (entries pre++es++entries post) = entries pre++put key rid es++entries post :=
      put_append hbefore hafter
    rw [hput] at happ
    simpa using happ.symm

lemma LeafStep.chained (hL : (L.map fst).Nodup)
    (hn : ∀ j ∈ L.map fst, j < n) (hc : Chained next (L.map fst)) : Chained next' (L'.map fst) := by
  cases h with
  | fit _ _ hnext =>
    subst hnext
    simpa using hc
  | @split pre l r es es₁ es₂ post hbefore hafter _ hr hnext =>
    subst hnext
    clear hbefore hafter
    have hlr : l ≠ r := by
      have := hn l (by simp)
      omega
    induction pre with
    | nil =>
      obtain ⟨hl,-⟩ := nodup_cons.mp hL
      refine ⟨by simp,by simp [hlr.symm,hc.1],hc.2.congr fun j hj => ?_⟩
      have hjr : j < n := hn j (mem_cons_of_mem _ hj)
      have hjl : j ≠ l := by
        rintro rfl
        exact hl hj
      simp [hjl,show j ≠ r by omega]
    | cons a pre ih =>
      obtain ⟨ha,hL'⟩ := nodup_cons.mp hL
      refine ⟨?_,ih hL' (fun j hj => hn j (mem_cons_of_mem _ hj)) hc.2⟩
      have hal : a.1 ≠ l := by
        rintro rfl
        exact ha (by simp)
      have har : a.1 < n := hn a.1 (by simp)
      rw [update_of_ne hal,update_of_ne (by omega)]
      exact hc.1.trans (congrArg some head?_map_append_cons)

end

end LeafStep

/-- The separator and the node an insertion hands up, as lists. -/
def newKeys (up : Option (K × ℕ)) : List K := up.toList.map fst

def newIds (up : Option (K × ℕ)) : List ℕ := up.toList.map snd

section Cut
variable {nodes : List (Node K R)} {id : ℕ} {node right : Node K R} {W U : List ℕ}

/-- A list cut before the item in its middle. -/
lemma cut_middle {α : Type} {xs : List α} (h : 0 < xs.length) : ∃ A m B, xs = A++m::B ∧
    xs.take (xs.length/2) = A ∧ xs.drop (xs.length/2) = m::B ∧ A.length = xs.length/2 := by
  cases hdrop : xs.drop (xs.length/2) with
  | nil => simp at hdrop; omega
  | cons m B =>
    refine ⟨_,m,B,?_,rfl,rfl,?_⟩
    · rw [← hdrop,take_append_drop]
    · rw [length_take]
      omega

omit [LinearOrder K] in
lemma grows_set (hW : (id::W).Nodup) : Grows nodes (nodes.set id node) (id::W) (id::W) := by
  refine ⟨by simp,fun j _ hj => ?_,hW,fun j hj => .inl hj⟩
  exact getElem?_set_ne (by rintro rfl; simp at hj)

omit [LinearOrder K] in
/-- A node cut in two, with the new one at the end of the arena. -/
lemma grows_split (hW : (id::W).Nodup) (hlt : ∀ j ∈ id::W, j < nodes.length) (hU : U.Perm (nodes.length::id::W)) :
    Grows nodes (nodes.set id node++[right]) (id::W) U where
  length_le := by simp
  frame j hj hne := getElem?_set_append_of_ne hj (by rintro rfl; simp at hne)
  nodup := hU.nodup_iff.mpr (nodup_cons.mpr ⟨fun hmem => lt_irrefl _ (hlt _ hmem),hW⟩)
  mem j hj := by
    obtain rfl | hj := mem_cons.mp (hU.mem_iff.mp hj)
    · exact .inr le_rfl
    · exact .inl hj

end Cut

section Store
variable {order h id : ℕ} {nodes : List (Node K R)} {lo hi : Option K}

/-- Writing back a leaf that may be one entry too long. -/
lemma store_leaf {es : List (K × R)} {keys : List K} {next : Option ℕ} (horder : 0 < order)
    (hnode : nodes[id]? = some (.leaf keys values next)) (hlen : es.length ≤ order+1)
    (hsorted : es.Pairwise (fun a b => a.1 < b.1)) (hwithin : ∀ e ∈ es, Within (· < ·) lo hi e.1) :
    ∃ nodes' up L' U', store nodes id (splitLeaf order (es.map fst) (es.map snd) next nodes.length) = (nodes',up) ∧
      Children (· < ·) (Sub (· < ·) order nodes' 0) hi lo (newKeys up) (id::newIds up) L' U' ∧
      Grows nodes nodes' [id] U' ∧ (L' = [(id,es)] ∧ nextOf nodes' = nextOf nodes ∨
        ∃ es₁ es₂, es = es₁++es₂ ∧ L' = [(id,es₁),(nodes.length,es₂)] ∧ nextOf nodes' =
          Function.update (Function.update (nextOf nodes) nodes.length (nextOf nodes id)) id (some (some nodes.length))) := by
  have hid : id < nodes.length := (List.getElem?_eq_some_iff.mp hnode).1
  by_cases hfit : es.length ≤ order
  · have hstore : store nodes id (splitLeaf order (es.map fst) (es.map snd) next nodes.length) =
        (nodes.set id (.leaf (es.map fst) (es.map snd) next),none) := by
      rw [splitLeaf,if_pos (by simpa using hfit)]
      rfl
    refine ⟨_,none,[(id,es)],[id],hstore,?_,grows_set (nodup_singleton id),.inl ⟨rfl,?_⟩⟩
    · exact .last ⟨es,next,getElem?_set_self hid,hfit,hsorted,hwithin,rfl,rfl⟩
    · rw [nextOf_set hid,Node.link,← nextOf_eq hnode,update_eq_self]
  · obtain ⟨es₁,e,rest,hcut,htake,hdrop,hlen₁⟩ := @cut_middle _ es (by omega)
    have hlen₂ : es₁.length+(rest.length+1) = es.length := by rw [hcut]; simp
    have hpair := hcut ▸ hsorted
    obtain ⟨hsorted₁,hsorted₂,hacross⟩ := pairwise_append.mp hpair
    obtain ⟨a,ha⟩ := exists_mem_of_length_pos (show 0 < es₁.length by omega)
    have hmem : ∀ x ∈ es₁, x ∈ es := fun x hx => by rw [hcut]; simp [hx]
    have hmem₂ : ∀ x ∈ e::rest, x ∈ es := fun x hx => by rw [hcut]; exact mem_append_right _ hx
    have hstore : store nodes id (splitLeaf order (es.map fst) (es.map snd) next nodes.length) =
        (nodes.set id (.leaf (es₁.map fst) (es₁.map snd) (some nodes.length))++
          [.leaf ((e::rest).map fst) ((e::rest).map snd) next],some (e.1,nodes.length)) := by
      simp only [splitLeaf,length_map,if_neg hfit,← map_drop,← map_take,hdrop,htake]
      rfl
    refine ⟨_,_,[(id,es₁)]++[(nodes.length,e::rest)],[id]++[nodes.length],hstore,?_,
      grows_split (nodup_singleton id) (by simpa using hid) (.swap _ _ _),.inr ⟨es₁,e::rest,hcut,rfl,?_⟩⟩
    · have hwithin₁ : ∀ x ∈ es₁, Within (· < ·) lo (some e.1) x.1 := fun x hx =>
        ⟨(hwithin x (hmem x hx)).1,forall_mem_some (hacross x hx e (by simp))⟩
      have hwithin₂ : ∀ x ∈ e::rest, Within (· < ·) (some e.1) hi x.1 := fun x hx => by
        refine ⟨forall_mem_some ?_,(hwithin x (hmem₂ x hx)).2⟩
        obtain rfl | hx := mem_cons.mp hx
        · exact lt_irrefl _
        · exact lt_asymm ((pairwise_cons.mp hsorted₂).1 x hx)
      refine .cons ⟨fun l hl => ?_,(hwithin e (hmem₂ e (by simp))).2⟩
        ⟨es₁,some nodes.length,getElem?_set_append_self hid,by omega,hsorted₁,hwithin₁,rfl,rfl⟩
        (.last ⟨e::rest,next,getElem?_set_append_length,by simp only [length_cons]; omega,hsorted₂,hwithin₂,rfl,rfl⟩)
      exact lt_of_le_of_lt (not_lt.mp ((hwithin a (hmem a ha)).1 l hl)) (hacross a ha e (by simp))
    · rw [nextOf_append,nextOf_set hid,nextOf_eq hnode,length_set]
      exact update_comm (by omega) _ _ _

/-- Writing back an internal node that may be one separator too long. -/
lemma store_internal {keys ks : List K} {W : List ℕ} (horder : 0 < order)
    (hnode : nodes[id]? = some (.internal ks cs₀)) (hlen : keys.length ≤ order+1)
    (hc : Children (· < ·) (Sub (· < ·) order nodes h) hi lo keys cs L W) (hW : (id::W).Nodup) :
    ∃ nodes' up U', store nodes id (splitInternal order keys cs) = (nodes',up) ∧
      Children (· < ·) (Sub (· < ·) order nodes' (h+1)) hi lo (newKeys up) (id::newIds up) L U' ∧
      Grows nodes nodes' (id::W) U' ∧ nextOf nodes' = nextOf nodes := by
  have hid : id < nodes.length := (List.getElem?_eq_some_iff.mp hnode).1
  have hlt : ∀ j ∈ W, j < nodes.length := hc.forall_used fun _ _ _ _ _ hsub => hsub.used_lt
  have hne : ∀ j ∈ W, j ≠ id := by
    rintro j hj rfl
    exact (nodup_cons.mp hW).1 hj
  have hnone : nextOf nodes id = none := by
    rw [nextOf,hnode]
    rfl
  by_cases hfit : keys.length ≤ order
  · have hstore : store (R := R) nodes id (splitInternal order keys cs) = (nodes.set id (.internal keys cs),none) := by
      rw [splitInternal,if_pos hfit]
      rfl
    have hc' : Children (· < ·) (Sub (· < ·) order (nodes.set id (.internal keys cs)) h) hi lo keys cs L W :=
      hc.mono fun x y c M V hV hsub =>
        hsub.frame fun j hj => getElem?_set_ne (Ne.symm (hne j (hV hj)))
    refine ⟨_,none,id::W,hstore,.last ⟨keys,cs,W,getElem?_set_self hid,hfit,hc',rfl⟩,
      grows_set hW,?_⟩
    rw [nextOf_set hid,Node.link,← hnone,update_eq_self]
  · obtain ⟨A,m,B,hcut,htake,hdrop,hlenA⟩ := @cut_middle _ keys (by omega)
    have hlenB : A.length+(B.length+1) = keys.length := by rw [hcut]; simp
    obtain ⟨cs₁,cs₂,L₁,L₂,U₁,U₂,rfl,hcs,rfl,rfl,hm,h₁,h₂⟩ := (hcut ▸ hc).cut
    have hstore : store (R := R) nodes id (splitInternal order keys (cs₁++cs₂)) =
        (nodes.set id (.internal A cs₁)++[.internal B cs₂],some (m,nodes.length)) := by
      have hleft : (cs₁++cs₂).take (keys.length/2+1) = cs₁ := by rw [← hlenA,← hcs,take_left]
      have hright : (cs₁++cs₂).drop (keys.length/2+1) = cs₂ := by rw [← hlenA,← hcs,drop_left]
      simp only [splitInternal,if_neg hfit,hdrop,htake,hleft,hright]
      rfl
    have hkeep : ∀ x y c M V, V ⊆ U₁++U₂ → Sub (· < ·) order nodes h x y c M V →
        Sub (· < ·) order (nodes.set id (.internal A cs₁)++[.internal B cs₂]) h x y c M V := by
      intro x y c M V hV hsub
      exact hsub.frame fun j hj => getElem?_set_append_of_ne (hlt j (hV hj)) (hne j (hV hj))
    have h₁' := h₁.mono fun x y c M V hV =>
      hkeep x y c M V (List.Subset.trans hV (subset_append_left _ _))
    have h₂' := h₂.mono fun x y c M V hV =>
      hkeep x y c M V (List.Subset.trans hV (subset_append_right _ _))
    refine ⟨_,_,(id::U₁)++(nodes.length::U₂),hstore,?_,grows_split hW ?_ perm_middle,?_⟩
    · exact .cons hm ⟨A,cs₁,U₁,getElem?_set_append_self hid,by omega,h₁',rfl⟩
        (.last ⟨B,cs₂,U₂,getElem?_set_append_length,by omega,h₂',rfl⟩)
    · exact forall_mem_cons.mpr ⟨hid,hlt⟩
    · rw [nextOf_append,nextOf_set hid,length_set,Node.link,Node.link,← hnone,update_eq_self]
      have hout : nextOf nodes nodes.length = nextOf nodes id := by
        rw [hnone,nextOf,getElem?_eq_none (le_refl _)]
        rfl
      rw [← hout,update_eq_self]

end Store

lemma insertIdx_length_append {α : Type} (xs ys : List α) (a : α) : (xs++ys).insertIdx xs.length a = xs++a::ys := by
  induction xs with
  | nil => rfl
  | cons x xs ih => simp [ih]

section Refill
variable {nodes nodes' nodes'' : List (Node K R)} {id : ℕ} {A V V' B U'' : List ℕ}

omit [LinearOrder K] in
/-- A child's positions exchanged for the ones it has grown to. -/
lemma Grows.refill_nodup (hg : Grows nodes nodes' V V') (hU : (id::(A++V++B)).Nodup)
    (hlt : ∀ j ∈ id::(A++V++B), j < nodes.length) : (id::(A++V'++B)).Nodup := by
  have hperm : ∀ W : List ℕ, (id::(A++W++B)).Perm (W++id::(A++B)) := by
    intro W
    rw [append_assoc]
    exact (perm_append_comm_assoc A W B).cons id |>.trans perm_middle.symm
  obtain ⟨-,hrest,hapart⟩ := nodup_append.mp ((hperm V).nodup_iff.mp hU)
  refine (hperm V').nodup_iff.mpr (nodup_append.mpr ⟨hg.nodup,hrest,?_⟩)
  rintro j hj _ hj' rfl
  obtain h | h := hg.mem j hj
  · exact hapart j h j hj' rfl
  · have := hlt j ((hperm V).mem_iff.mpr (mem_append_right _ hj'))
    omega

omit [LinearOrder K] in
lemma Grows.refill_mem (hg : Grows nodes nodes' V V') (hj : j ∈ id::(A++V'++B)) :
    j ∈ id::(A++V++B) ∨ nodes.length ≤ j := by
  have hmem := hg.mem j
  simp only [mem_cons,mem_append] at hj ⊢
  tauto

omit [LinearOrder K] in
/-- The child's growth followed by the parent's. -/
lemma Grows.refill (hg : Grows nodes nodes' V V') (hg' : Grows nodes' nodes'' (id::(A++V'++B)) U'') :
    Grows nodes nodes'' (id::(A++V++B)) U'' where
  length_le := le_trans hg.length_le hg'.length_le
  frame j hj hmem := by
    have hold := hg'.frame j (lt_of_lt_of_le hj hg.length_le) fun h =>
      (hg.refill_mem h).elim hmem (Nat.not_le_of_lt hj)
    exact hold.trans (hg.frame j hj fun h => hmem (by simp [h]))
  nodup := hg'.nodup
  mem j hj := (hg'.mem j hj).elim hg.refill_mem fun h => .inr (le_trans hg.length_le h)

omit [LinearOrder K] in
lemma Grows.refl (hU : U.Nodup) : Grows nodes nodes U U :=
  ⟨le_rfl,fun _ _ _ => rfl,hU,fun _ h => .inl h⟩

end Refill

/-- Insertion below a node: the node or the two it has become stand between the same bounds. -/
lemma insertRecursive_spec (horder : 0 < order) (key : K) (rid : R) {fuel h id : ℕ}
    {nodes : List (Node K R)} {lo hi : Option K} (hsub : Sub (· < ·) order nodes h lo hi id L U) (hU : U.Nodup)
    (hkey : Within (· < ·) lo hi key) (hfuel : h < fuel) :
    ∃ nodes' up L' U', insertRecursive (probe key) order key rid fuel nodes id = some (nodes',up) ∧
      Children (· < ·) (Sub (· < ·) order nodes' h) hi lo (newKeys up) (id::newIds up) L' U' ∧
      Grows nodes nodes' U U' ∧ LeafStep key rid nodes.length (nextOf nodes) (nextOf nodes') L L' := by
  induction fuel generalizing h id lo hi L U with
  | zero => omega
  | succ fuel ih =>
    cases h with
    | zero =>
      obtain ⟨es,next,hnode,hlen,hsorted,hwithin,rfl,rfl⟩ := hsub
      have hwithin' : ∀ e ∈ put key rid es, Within (· < ·) lo hi e.1 := by
        intro e he
        obtain rfl | he := mem_put hsorted he
        · exact hkey
        · exact hwithin e he
      have hlen' : (put key rid es).length ≤ order+1 := le_trans put_length_le (by omega)
      obtain ⟨nodes',up,L',U',hstore,hc,hgrows,hstep⟩ :=
        store_leaf horder hnode hlen' (put_sorted hsorted) hwithin'
      refine ⟨nodes',up,L',U',?_,hc,hgrows,?_⟩
      · simp only [insertRecursive,hnode,insertLeaf_put hlen,hstore]
      · obtain ⟨rfl,hnext⟩ | ⟨es₁,es₂,hput,rfl,hnext⟩ := hstep
        · exact (.fit (by simp) (by simp) hnext : LeafStep key rid _ _ _ ([]++(id,es)::[]) _)
        · exact (.split (by simp) (by simp) hput le_rfl hnext : LeafStep key rid _ _ _ ([]++(id,es)::[]) _)
    | succ h =>
      have hlt := hsub.used_lt
      obtain ⟨keys,cs,W,hnode,hlen,hc,rfl⟩ := hsub
      obtain ⟨f,hf⟩ := hc.route (fun _ _ _ _ _ hsub => hsub.entries_within) hkey
      obtain rfl := hf.used_eq
      have hused : f.used.Nodup := by
        have hmid := (nodup_append.mp (nodup_cons.mp hU).2).1
        exact (nodup_append.mp hmid).2.1
      have hidused : id ∉ f.used := fun hmem => (nodup_cons.mp hU).1 (by simp [hmem])
      obtain ⟨nodes₁,up,M,V,hins,hchild,hgrows,hstep⟩ := ih hf.holds hused hf.within (by omega)
      have hid : id < nodes.length := hlt id (by simp)
      have hnode₁ : nodes₁[id]? = some (.internal keys cs) := (hgrows.frame id hid hidused).trans hnode
      have hnodup : (id::(f.usedLeft++V++f.usedRight)).Nodup := hgrows.refill_nodup hU hlt
      -- the siblings do not use the child's positions, so they are as before
      have hsiblings : ∀ x y d N W, W ⊆ f.usedLeft++f.usedRight → Sub (· < ·) order nodes h x y d N W →
          Sub (· < ·) order nodes₁ h x y d N W := by
        intro x y d N W hW hsub
        refine hsub.frame fun j hj => hgrows.frame j (hsub.used_lt j hj) fun hmem => ?_
        have hU' := (nodup_cons.mp hU).2
        simp only [nodup_append,mem_append] at hU'
        obtain hj | hj := mem_append.mp (hW hj)
        · exact hU'.1.2.2 j hj j hmem rfl
        · exact hU'.2.2 j (.inr hmem) j hj rfl
      have hrow := hf.refill hsiblings hchild
      have hstep' := hstep.within hf.before hf.after
      rw [← hf.leaves_eq] at hstep'
      have hget : cs[partitionPoint (probe key).upTo keys]? = some f.child := by
        rw [hf.pos,hf.children_eq,← hf.left_length]
        simp
      cases up with
      | none =>
        have hkeys : f.keysLeft++newKeys none++f.keysRight = keys := by rw [hf.keys_eq]; simp [newKeys]
        have hcs : f.left++(f.child::newIds (K := K) none)++f.right = cs := by rw [hf.children_eq]; simp [newIds]
        rw [hkeys,hcs] at hrow
        refine ⟨nodes₁,none,_,_,?_,.last ⟨keys,cs,_,hnode₁,hlen,hrow,rfl⟩,
          hgrows.refill (Grows.refl hnodup),hstep'⟩
        simp only [insertRecursive,hnode,hget,hins,bind_some,promote]
      | some up =>
        obtain ⟨m,new⟩ := up
        have hkeys : f.keysLeft++newKeys (some (m,new))++f.keysRight =
            keys.insertIdx (partitionPoint (probe key).upTo keys) m := by
          rw [hf.pos,hf.keys_eq,insertIdx_length_append]
          simp [newKeys]
        have hcs : f.left++(f.child::newIds (some (m,new)))++f.right =
            cs.insertIdx (partitionPoint (probe key).upTo keys+1) new := by
          have happ : cs = (f.left++[f.child])++f.right := by simp [hf.children_eq]
          have hlast : f.keysLeft.length+1 = (f.left++[f.child]).length := by simp [hf.left_length]
          rw [hf.pos,happ,hlast,insertIdx_length_append]
          simp [newIds]
        rw [hkeys,hcs] at hrow
        have hlen' : (keys.insertIdx (partitionPoint (probe key).upTo keys) m).length ≤ order+1 := by
          rw [← hkeys]
          have := hf.keys_eq ▸ hlen
          simp only [newKeys,toList_some,map_cons,map_nil,length_append,length_cons,
            length_nil] at this ⊢
          omega
        obtain ⟨nodes₂,up',U',hstore,hc',hgrows',hnext⟩ := store_internal horder hnode₁ hlen' hrow hnodup
        refine ⟨nodes₂,up',_,U',?_,hc',hgrows.refill hgrows',?_⟩
        · simp only [insertRecursive,hnode,hget,hins,bind_some,promote,hnode₁,insertInternal,hstore]
        · rw [hnext]
          exact hstep'

/-- Insertion keeps the shape and puts the entry into the list of all entries. -/
lemma Tree.insert_spec (horder : 0 < order) (key : K) (rid : R) {t : Tree K R}
    (hshape : Shape (· < ·) order t L) :
    ∃ t' L', t.insert (probe key) order key rid = some t' ∧ Shape (· < ·) order t' L' ∧
      entries L' = put key rid (entries L) := by
  obtain ⟨h,U,hsub,hU,hchain⟩ := hshape
  have hfuel : h < t.nodes.length := lt_of_lt_of_le hsub.height_lt (hsub.used_length_le hU)
  obtain ⟨nodes,up,L',U',hins,hc,hgrows,hstep⟩ :=
    insertRecursive_spec horder key rid hsub hU ⟨by simp,by simp⟩ hfuel
  have hleaves : ∀ j ∈ L.map fst, j < t.nodes.length := fun j hj => hsub.used_lt j (hsub.leaves_sublist.subset hj)
  have hchain' := hstep.chained (hU.sublist hsub.leaves_sublist) hleaves hchain
  cases up with
  | none =>
    cases hc with
    | last hsub' =>
      exact ⟨⟨nodes,t.root⟩,L',by simp [insert,hins],⟨h,U',hsub',hgrows.nodup,hchain'⟩,hstep.entries⟩
  | some up =>
    obtain ⟨m,new⟩ := up
    have hlt : ∀ j ∈ U', j < nodes.length := hc.forall_used fun _ _ _ _ _ hsub => hsub.used_lt
    have hc' : Children (· < ·) (Sub (· < ·) order (nodes++[.internal [m] [t.root,new]]) h) none none
        [m] [t.root,new] L' U' := hc.mono fun x y c M V hV hsub =>
      hsub.frame fun j hj => getElem?_append_left (hlt j (hV hj))
    have hnew : nodes.length ∉ U' := fun hmem => lt_irrefl _ (hlt _ hmem)
    refine ⟨⟨nodes++[.internal [m] [t.root,new]],nodes.length⟩,L',by simp [insert,hins],
      ⟨h+1,nodes.length::U',⟨[m],[t.root,new],U',by simp,horder,hc',rfl⟩,nodup_cons.mpr ⟨hnew,hgrows.nodup⟩,?_⟩,
      hstep.entries⟩
    have hout : nextOf nodes nodes.length = none := by
      rw [nextOf,getElem?_eq_none le_rfl]
      rfl
    rw [nextOf_append,Node.link,← hout,update_eq_self]
    exact hchain'

end PowDB.Lib.BPlus
