import PowDB.Storage.RowSteps

/-! Statements that log several records before or after they touch the heap:
batch deletes, byte patches and the two fused scans. None of them stamps a page. -/
namespace PowDB.Storage
open List Option

/-- Records of one transaction, numbered on from `last`. -/
def numbered (last tx : ℕ) : List WalRecordType → List WalRecord
  | [] => []
  | type::types => ⟨last+1,tx,type⟩::numbered (last+1) tx types

lemma numbered_append (last tx : ℕ) (types types' : List WalRecordType) :
    numbered last tx (types++types') =
      numbered last tx types++numbered (last+types.length) tx types' := by
  induction types generalizing last with
  | nil => rfl
  | cons type types ih =>
    simp only [cons_append,numbered,ih,length_cons]
    rw [Nat.add_assoc,Nat.add_comm 1]

lemma mem_numbered {rec : WalRecord}
    (h : rec ∈ numbered last tx types) : rec.type ∈ types ∧ rec.tx = tx := by
  induction types generalizing last with
  | nil => simp [numbered] at h
  | cons type types ih =>
    rcases mem_cons.mp h with rfl | h
    · exact ⟨mem_cons_self,rfl⟩
    · exact ⟨mem_cons_of_mem _ (ih h).1,(ih h).2⟩

lemma LogOk.append_numbered (hl : LogOk log last) (tx : ℕ)
    (types : List WalRecordType) : LogOk (log++numbered last tx types) (last+types.length) := by
  induction types generalizing log last with
  | nil => simpa [numbered] using hl
  | cons type types ih =>
    have h := ih (hl.snoc tx type)
    rw [append_assoc] at h
    simpa [numbered,Nat.add_assoc,Nat.add_comm 1] using h

/-- No longer than some row of the page, and without chains of its own. -/
def Page.Shrinks (p : Page) (r : Row) : Prop := r.stubs = [] ∧ ∃ s old, p.get s = some old ∧ r.len ≤ old.len

/-- A sequence of unstamped operations on one page. Each step keeps `PageInv`
under its record and brings in rows only by shrinking. -/
inductive PageRun (t : String) (i : ℕ) : Page → List WalRecordType → Page → Prop
  | nil (p : Page) : PageRun t i p [] p
  | cons {p p' q : Page} {type : WalRecordType} {types : List WalRecordType} {op : PageOp}
      (hop : type.pageOp = some (t,i,op))
      (hstep : ∀ {last d ops}, PageInv last d p ops → PageInv (last+1) d p' (ops++[(last+1,op)]))
      (hrows : ∀ s r, p'.get s = some r → p.get s = some r ∨ p.Shrinks r)
      (hlen : ∀ rid r, type = .update t rid r → p.Shrinks r)
      (hrest : PageRun t i p' types q) : PageRun t i p (type::types) q

namespace HeapInv

lemma pageRun (tx : ℕ) (hrun : PageRun t i p types q)
    (hi : HeapInv t log last h) (hd : h.DataAt i d p) (hp : h.Placed h' i q) :
    HeapInv t (log++numbered last tx types) (last+types.length) h' := by
  induction hrun generalizing log last h with
  | nil p =>
    simp only [numbered,append_nil,length_nil,Nat.add_zero]
    exact hi.placed le_rfl hd hp (hi.pageInv hd) (fun _ _ => rfl) (fun _ hrec => .inl hrec)
      (fun s r hr => hi.rows i d p s r hd hr)
  | @cons p p' q type types op hop hstep hrows hlen hrest ih =>
    have hshrink : ∀ r, p.Shrinks r → h.RowOk r := by
      rintro r ⟨hnil,s,old,hold,hle⟩
      exact ⟨hle.trans (hi.rows i d p s old hd hold).len,by simp [hnil]⟩
    have hput := HeapFile.put_placed h i p'
    have hi' : HeapInv t (log++[⟨last+1,tx,type⟩]) (last+1) (h.put i (.data p')) := by
      refine hi.record hop hd hput (hstep (hi.pageInv hd)) (fun s r hr => ?_)
        (fun rid r he => (hshrink r (hlen rid r he)).len)
      rcases hrows s r hr with hold | hnew
      · exact hi.rows i d p s r hd hold
      · exact hshrink r hnew
    have hd' : (h.put i (.data p')).DataAt i d p' := (hput.dataAt_iff hd).mpr (by simp)
    have hp' : (h.put i (.data p')).Placed h' i q :=
      ⟨hp.disk,hp.dirty.trans (by simp [HeapFile.put]),hp.numPages,hp.free,hp.filed⟩
    have := ih hi' hd' hp'
    simpa [numbered,Nat.add_assoc,Nat.add_comm 1] using this

end HeapInv

namespace PageRun

lemma deletes (slots : List ℕ) (p : Page) :
    PageRun t i p (slots.map (fun s => .delete t ⟨i,s⟩)) (slots.foldl Page.delete p) := by
  induction slots generalizing p with
  | nil => exact .nil p
  | cons s slots ih =>
    have hop : (WalRecordType.delete t ⟨i,s⟩).pageOp = some (t,i,.delete s) := rfl
    exact .cons hop (fun hp => hp.unstamped_delete s)
      (fun s' r hr => .inl (Page.delete_get hr)) (by simp) (ih _)

/-- Patches of distinct live slots, none longer than the row it replaces. -/
lemma patches (xs : List (ℕ × Row)) (p : Page) (hnodup : (xs.map Prod.fst).Nodup)
    (hfit : ∀ x ∈ xs, x.2.stubs = [] ∧ ∃ old, p.get x.1 = some old ∧ x.2.len ≤ old.len) :
    PageRun t i p (xs.map (fun x => .update t ⟨i,x.1⟩ x.2))
      (xs.foldl (fun p x => p.shrinkTo x.1 x.2) p) := by
  induction xs generalizing p with
  | nil => exact .nil p
  | cons x xs ih =>
    obtain ⟨hstubs,old,hold,hlen⟩ := hfit x mem_cons_self
    rw [map_cons,nodup_cons] at hnodup
    have hop : (WalRecordType.update t ⟨i,x.1⟩ x.2).pageOp = some (t,i,.update x.1 x.2) := rfl
    refine .cons hop (fun hp => hp.unstamped_shrink hold hlen)
      (fun s r hr => ?_) (fun rid r he => ?_) (ih _ hnodup.2 (fun y hy => ?_))
    · rcases Page.get_set_some hr with hr | hr
      · exact .inl hr
      · cases hr; exact .inr ⟨hstubs,x.1,old,hold,hlen⟩
    · cases he
      exact ⟨hstubs,x.1,old,hold,hlen⟩
    · have hne : x.1 ≠ y.1 := fun e => hnodup.1 (e ▸ mem_map_of_mem hy)
      rw [Page.get_set_live (Page.get_some_lt hold),if_neg (Ne.symm hne)]
      exact hfit y (mem_cons_of_mem _ hy)

end PageRun

namespace HeapFile

/-- The batch delete of `delete_many`, under the records it logged first. -/
lemma deleteAll_inv (tx : ℕ) (rids : List RowId) (hi : HeapInv t log last h)
    (hdata : ∀ rid ∈ rids, h.isDataPage rid.page = true) :
    ∃ h', Catalog.deleteAll h rids = some h' ∧
      HeapInv t (log++numbered last tx (rids.map (.delete t))) (last+rids.length) h' ∧
      ∀ {j}, h.Spare j → h'.Spare j := by
  induction rids generalizing log last h with
  | nil => exact ⟨h,rfl,by simpa [numbered] using hi,id⟩
  | cons rid rids ih =>
    obtain ⟨d,V,hd⟩ := dataAt_of_isDataPage hi.toHeapShape (hdata rid mem_cons_self)
    obtain ⟨h₁,hdel,hp,hi₁⟩ := delete_unstamped hi hd tx
    have hkeep : ∀ j, h.isDataPage j = true → h₁.isDataPage j = true := by
      intro j hj
      obtain ⟨_,_,hW⟩ := dataAt_of_isDataPage hi.toHeapShape hj
      obtain ⟨_,_,hW'⟩ := hp.dataAt_kept hd hW
      exact hW'.isDataPage
    obtain ⟨h₂,hall,hi₂,hs₂⟩ := ih hi₁ (fun x hx => hkeep _ (hdata x (mem_cons_of_mem _ hx)))
    refine ⟨h₂,?_,?_,fun hs => hs₂ ((hp.spare_iff hd).mpr hs)⟩
    · simp only [Catalog.deleteAll,hdel,bind_eq_bind,bind_some,hall]
    · simpa [numbered,Nat.add_assoc,Nat.add_comm 1] using hi₂

/-- A byte patch of one row, and the update record it logs if it changed anything. -/
lemma patchRowShrink_inv (tx : ℕ)
    (hi : HeapInv t log last h) (hdata : h.isDataPage rid.page = true)
    (hpatch : h.patchRowShrink rid f = some (out,h')) :
    (∀ {j}, h.Spare j → h'.Spare j) ∧
      HeapInv t (log++numbered last tx (out.toList.map (.update t rid))) (last+out.toList.length) h' := by
  obtain ⟨d,V,hd⟩ := dataAt_of_isDataPage hi.toHeapShape hdata
  have ht := Tuned.hot h (some rid.page)
  simp only [patchRowShrink,ensureHot,hd.lt,if_true,bind_eq_bind,bind_some,hot_view,hd.view,Cell.slotted,
    Cell.withRows] at hpatch
  have hkeep : some ((none : Option Row),({h with hot := some rid.page} : HeapFile)) = some (out,h') →
      (∀ {j}, h.Spare j → h'.Spare j) ∧
        HeapInv t (log++numbered last tx (out.toList.map (.update t rid))) (last+out.toList.length) h' := by
    intro hg
    cases hg
    exact ⟨ht.spare_iff.mpr,by simpa [numbered] using ht.inv hi⟩
  cases hget : V.get rid.slot with
  | none => rw [hget] at hpatch; exact hkeep hpatch
  | some old =>
    simp only [hget] at hpatch
    split at hpatch
    · exact hkeep hpatch
    · cases hf : f old.body with
      | none => rw [hf] at hpatch; exact hkeep hpatch
      | some body =>
        simp only [hf] at hpatch
        split at hpatch
        · exact hkeep hpatch
        · rename_i hlen
          cases hpatch
          have hp : h.Placed _ rid.page (V.shrinkTo rid.slot ⟨body,[]⟩) :=
            ht.placed (put_placed _ rid.page _)
          refine ⟨(hp.spare_iff hd).mpr,hi.record rfl hd hp
            ((hi.pageInv hd).unstamped_shrink hget (Nat.le_of_not_lt hlen)) (fun s r hr => ?_)
            (fun rid' r he => ?_)⟩
          · rcases Page.get_set_some hr with hr | hr
            · exact hi.rows _ d V s r hd hr
            · cases hr
              exact ⟨(Nat.le_of_not_lt hlen).trans (hi.rows _ d V _ old hd hget).len,by simp⟩
          · cases he
            exact (Nat.le_of_not_lt hlen).trans (hi.rows _ d V _ old hd hget).len

/-- What a page of a fused scan does, and by it the whole scan. -/
lemma scanPages_inv {α : Type} (tx : ℕ) {f : HeapFile → ℕ → List α × HeapFile}
    {type : α → WalRecordType}
    (hf : ∀ {log last h i xs h'}, HeapInv t log last h → i < h.numPages → f h i = (xs,h') →
      HeapInv t (log++numbered last tx (xs.map type)) (last+xs.length) h' ∧
        h'.numPages = h.numPages ∧ ∀ {j}, h.Spare j → h'.Spare j)
    (is : List ℕ) (hi : HeapInv t log last h) (his : ∀ i ∈ is, i < h.numPages) {xs : List α}
    (hs : scanPages f h is = (xs,h')) :
    HeapInv t (log++numbered last tx (xs.map type)) (last+xs.length) h' ∧
      ∀ {j}, h.Spare j → h'.Spare j := by
  induction is generalizing log last h xs with
  | nil =>
    cases hs
    exact ⟨by simpa [numbered] using hi,id⟩
  | cons i is ih =>
    rcases hone : f h i with ⟨ys,h₁⟩
    rcases hrest : scanPages f h₁ is with ⟨zs,h₂⟩
    simp only [scanPages,hone,hrest] at hs
    cases hs
    obtain ⟨hi₁,hn,hs₁⟩ := hf hi (his i mem_cons_self) hone
    obtain ⟨hi₂,hs₂⟩ := ih hi₁ (fun j hj => hn ▸ his j (mem_cons_of_mem _ hj)) hrest
    refine ⟨?_,fun x => hs₂ (hs₁ x)⟩
    rw [map_append,numbered_append,length_append,length_map,← append_assoc,
      ← Nat.add_assoc]
    exact hi₂

/-- A page with a row to offer, other than an overflow page, is a data page. -/
lemma dataAt_of_row (hi : HeapShape last h) (hlt : i < h.numPages)
    (hov : (h.view i).isOverflow = false) (hget : (h.view i).slotted.get s = some r) :
    ∃ d m, h.DataAt i d m := by
  rcases Nat.eq_zero_or_pos i with rfl | hpos
  · obtain ⟨l,hl⟩ := hi.superView
    rw [hl] at hget
    cases hget
  · rcases hi.kinds i hpos hlt with hs | hd
    · rw [hs.view] at hov hget
      rcases hs.cell with hz | ⟨o,ho⟩
      · rw [hz] at hget
        cases hget
      · simp [ho,Cell.isOverflow] at hov
    · exact hd

/-- A page a fused scan finds something on. -/
lemma dataAt_of_found {α : Type} {choose : Page → List α} {x : α} {xs : List α} (hi : HeapShape last h)
    (hlt : i < h.numPages) (hm : (if (h.view i).isOverflow then [] else choose (h.view i).slotted) = x::xs)
    (hget : ∀ p, x ∈ choose p → ∃ s r, p.get s = some r) : ∃ d V, h.DataAt i d V ∧ choose V = x::xs := by
  split_ifs at hm with hov
  obtain ⟨s,r,hr⟩ := hget _ (hm ▸ mem_cons_self)
  obtain ⟨d,V,hd⟩ := dataAt_of_row hi hlt (by simpa using hov) hr
  rw [hd.view] at hm
  exact ⟨d,V,hd,hm⟩

lemma scanDeletePage_inv (tx : ℕ) (pred : Row → Bool)
    (hi : HeapInv t log last h) (hlt : i < h.numPages) (hs : scanDeletePage pred h i = (rids,h')) :
    HeapInv t (log++numbered last tx (rids.map (.delete t))) (last+rids.length) h' ∧
      h'.numPages = h.numPages ∧ ∀ {j}, h.Spare j → h'.Spare j := by
  have ht := Tuned.hot h (some i)
  simp only [scanDeletePage,hot_view] at hs
  cases hm : (if (h.view i).isOverflow then [] else matchingSlots pred (h.view i).slotted) with
  | nil =>
    rw [hm] at hs
    obtain ⟨rfl,rfl⟩ := Prod.mk.inj hs
    exact ⟨by simpa [numbered] using ht.inv hi,rfl,ht.spare_iff.mpr⟩
  | cons s ss =>
    simp only [hm] at hs
    obtain ⟨rfl,rfl⟩ := Prod.mk.inj hs
    obtain ⟨d,V,hd,-⟩ := dataAt_of_found hi.toHeapShape hlt hm fun p hp =>
      let ⟨r,hr,_⟩ := mem_matchingSlots.mp hp; ⟨s,r,hr⟩
    rw [hd.view]
    simp only [Cell.slotted,Cell.withRows]
    have hp : h.Placed _ i ((s::ss).foldl Page.delete V) := (ht.placed (put_placed _ i _)).adjust
      ((((s::ss).map (fun s => Page.slotLen (V.get s))).sum : ℕ) : ℤ)
    refine ⟨?_,hp.numPages,(hp.spare_iff hd).mpr⟩
    have hrun := hi.pageRun tx (PageRun.deletes (t := t) (i := i) (s::ss) V) hd hp
    simpa only [List.map_map,List.length_map,Function.comp_def] using hrun

lemma patchesOf_slots (pred : Row → Bool) (mutate : Bytes → Option Bytes) (p : Page) :
    ((patchesOf pred mutate p).map Prod.fst).Sublist (matchingSlots pred p) := by
  unfold patchesOf
  induction matchingSlots pred p with
  | nil => simp
  | cons s ss ih =>
    rw [filterMap_cons]
    cases hs : ((p.get s).bind (patched mutate)) with
    | none => simpa [hs] using ih.cons s
    | some r => simpa [hs] using ih

lemma mem_patchesOf
    (hx : x ∈ patchesOf pred mutate p) :
    x.2.stubs = [] ∧ ∃ old, p.get x.1 = some old ∧ x.2.len ≤ old.len := by
  obtain ⟨s,-,hs⟩ := mem_filterMap.mp hx
  obtain ⟨r,hr,rfl⟩ := map_eq_some_iff.mp hs
  obtain ⟨old,hold,hpat⟩ := bind_eq_some_iff.mp hr
  unfold patched at hpat
  split at hpat
  · cases hpat
  · obtain ⟨b,-,rfl⟩ := map_eq_some_iff.mp hpat
    exact ⟨rfl,old,hold,by simp [Row.len]⟩

lemma scanPatchPage_inv (tx : ℕ) (pred : Row → Bool) (mutate : Bytes → Option Bytes)
    (hi : HeapInv t log last h) (hlt : i < h.numPages)
    (hs : scanPatchPage pred mutate h i = (xs,h')) :
    HeapInv t (log++numbered last tx (xs.map (fun x => .update t x.1 x.2))) (last+xs.length) h' ∧
      h'.numPages = h.numPages ∧ ∀ {j}, h.Spare j → h'.Spare j := by
  have ht := Tuned.hot h (some i)
  simp only [scanPatchPage,hot_view] at hs
  cases hm : (if (h.view i).isOverflow then [] else patchesOf pred mutate (h.view i).slotted) with
  | nil =>
    rw [hm] at hs
    obtain ⟨rfl,rfl⟩ := Prod.mk.inj hs
    exact ⟨by simpa [numbered] using ht.inv hi,rfl,ht.spare_iff.mpr⟩
  | cons y ys =>
    simp only [hm] at hs
    obtain ⟨rfl,rfl⟩ := Prod.mk.inj hs
    obtain ⟨d,V,hd,hm⟩ := dataAt_of_found hi.toHeapShape hlt hm fun p hp =>
      let ⟨_,old,hold,_⟩ := mem_patchesOf hp; ⟨y.1,old,hold⟩
    rw [hd.view]
    simp only [Cell.slotted,Cell.withRows]
    have hp : h.Placed _ i ((y::ys).foldl (fun p x => p.shrinkTo x.1 x.2) V) :=
      ht.placed (put_placed _ i _)
    have hrun := hi.pageRun tx (PageRun.patches (t := t) (i := i) (y::ys) V
      (hm ▸ (nodup_range.filter _).sublist (patchesOf_slots pred mutate V))
      (fun x hx => mem_patchesOf (hm ▸ hx))) hd hp
    refine ⟨?_,hp.numPages,(hp.spare_iff hd).mpr⟩
    simpa only [List.map_map,List.length_map,Function.comp_def] using hrun

lemma scanDeleteMatching_inv (tx : ℕ) (pred : Row → Bool)
    (hi : HeapInv t log last h) (hs : h.scanDeleteMatching pred = (rids,h')) :
    HeapInv t (log++numbered last tx (rids.map (.delete t))) (last+rids.length) h' ∧
      ∀ {j}, h.Spare j → h'.Spare j :=
  scanPages_inv tx (scanDeletePage_inv tx pred) _ hi (fun _ hj => mem_range.mp hj) hs

lemma scanPatchMatching_inv (tx : ℕ) (pred : Row → Bool) (mutate : Bytes → Option Bytes)
    (hi : HeapInv t log last h)
    (hs : h.scanPatchMatching pred mutate = (xs,h')) :
    HeapInv t (log++numbered last tx (xs.map (fun x => .update t x.1 x.2))) (last+xs.length) h' ∧
      ∀ {j}, h.Spare j → h'.Spare j :=
  scanPages_inv tx (scanPatchPage_inv tx pred mutate) _ hi (fun _ hj => mem_range.mp hj) hs

end HeapFile
end PowDB.Storage
