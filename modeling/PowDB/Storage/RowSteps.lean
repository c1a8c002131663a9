import PowDB.Storage.HeapSteps

/-! What the row operations do to pages. Each one either retunes the summary or
places one page, and the page it places is the logged operation applied to the
page before. -/
namespace PowDB.Storage
open List Option Function Page Cell
namespace HeapFile
variable {h h' : HeapFile} {i : ℕ} {p : Page}

/-- The file `h'` differs from `h` in the hot page and the summary, and files no new page. -/
structure Tuned (h h' : HeapFile) : Prop extends SamePages h h' where
  free : h'.freeOverflowPages = h.freeOverflowPages
  filed : ∀ j b, h'.bucketOfPage j = some b → ∃ b', h.bucketOfPage j = some b'

lemma Tuned.refl (h : HeapFile) : h.Tuned h := ⟨SamePages.refl h,rfl,fun _ b hb => ⟨b,hb⟩⟩

lemma Tuned.trans (h₁ : h.Tuned h') (h₂ : h'.Tuned h'') : h.Tuned h'' where
  toSamePages := h₁.toSamePages.trans h₂.toSamePages
  free := h₂.free.trans h₁.free
  filed j b hb := let ⟨b',hb'⟩ := h₂.filed j b hb; h₁.filed j b' hb'

lemma Tuned.hot (h : HeapFile) (i : Option ℕ) : h.Tuned {h with hot := i} :=
  ⟨⟨rfl,rfl,rfl⟩,rfl,fun _ b hb => ⟨b,hb⟩⟩

lemma Tuned.shape (ht : h.Tuned h') (hi : HeapShape last h) : HeapShape last h' := by
  refine hi.congr ht.toSamePages (fun j hj => hi.free j (ht.free ▸ hj)) (fun j b hb => ?_)
  obtain ⟨b',hb'⟩ := ht.filed j b hb
  exact hi.filed j b' hb'

lemma Tuned.inv (ht : h.Tuned h') (hi : HeapInv t log last h) :
    HeapInv t log last h' :=
  hi.congr ht.toSamePages (ht.shape hi.toHeapShape)

lemma Tuned.placed (ht : h.Tuned h') (hp : h'.Placed h'' i p) : h.Placed h'' i p where
  disk := hp.disk.trans ht.disk
  dirty := by rw [hp.dirty,ht.dirty]
  numPages := hp.numPages.trans ht.numPages
  free := hp.free.trans ht.free
  filed j b hb := by
    rcases hp.filed j b hb with hj | ⟨b',hb'⟩
    · exact .inl hj
    · exact .inr (ht.filed j b' hb')

/-- Pages of `h'` that were pages of `h` are still of the same kind. -/
structure Grown (h h' : HeapFile) : Prop where
  numPages : h.numPages ≤ h'.numPages
  spare : ∀ {j}, h.Spare j → h'.Spare j
  data : ∀ {j}, (∃ d m, h.DataAt j d m) → ∃ d m, h'.DataAt j d m
  chain : ∀ j o, j < h.numPages → h.disk j = .overflow o → ∃ o', h'.disk j = .overflow o'

namespace Grown

lemma refl (h : HeapFile) : h.Grown h := ⟨le_rfl,id,id,fun _ o _ ho => ⟨o,ho⟩⟩

lemma trans (h₁ : h.Grown h') (h₂ : h'.Grown h'') : h.Grown h'' where
  numPages := h₁.numPages.trans h₂.numPages
  spare hs := h₂.spare (h₁.spare hs)
  data hd := h₂.data (h₁.data hd)
  chain j o hj ho := by
    obtain ⟨o₁,ho₁⟩ := h₁.chain j o hj ho
    exact h₂.chain j o₁ (hj.trans_le h₁.numPages) ho₁

lemma of_samePages (hs : h.SamePages h') : h.Grown h' where
  numPages := hs.numPages.ge
  spare := hs.spare_iff.mpr
  data := fun ⟨d,m,hd⟩ => ⟨d,m,hs.dataAt_iff.mpr hd⟩
  chain _ o _ ho := ⟨o,hs.disk ▸ ho⟩

lemma of_placed (hd : h.DataAt i d m) (hp : h.Placed h' i p) : h.Grown h' where
  numPages := hp.numPages.ge
  spare := (hp.spare_iff hd).mpr
  data := fun ⟨_,_,hd'⟩ => hp.dataAt_kept hd hd'
  chain _ o _ ho := ⟨o,hp.disk ▸ ho⟩

lemma of_extends (he : h.Extends h')
    (hdisk : ∀ j o, j < h.numPages → h.disk j = .overflow o → ∃ o', h'.disk j = .overflow o') : h.Grown h' :=
  ⟨he.grow,he.spare,fun ⟨d,m,hd⟩ => ⟨d,m,he.data.mpr hd⟩,hdisk⟩

lemma growBlank (h : HeapFile) : h.Grown h.growBlank where
  numPages := Nat.le_succ _
  spare := h.growBlank_spare.mpr
  data := fun ⟨d,m,hd⟩ => ⟨d,m,hd.growBlank⟩
  chain j o hj ho := ⟨o,by simpa [HeapFile.growBlank,Nat.ne_of_lt hj] using ho⟩

end Grown

/-- Replace a data page by one with no new rows but those that are fine. -/
lemma replaced_shape (hi : HeapShape last h) (hd : h.DataAt i d V) (hp : h.Placed h' i p)
    (hhead : pageHeaderSize ≤ p.freeStart) (hlsn : p.lsn = V.lsn)
    (hrows : ∀ s x, p.get s = some x → V.get s = some x ∨ h.RowOk x) : HeapShape last h' ∧ h.Grown h' := by
  refine ⟨hi.placed le_rfl hd hp ⟨hhead,hlsn ▸ (hi.sound hd).2⟩ (fun s x hx => ?_),.of_placed hd hp⟩
  rcases hrows s x hx with hold | hok
  · exact hi.rows i d V s x hd hold
  · exact hok

lemma put_placed (h : HeapFile) (i : ℕ) (p : Page) : h.Placed (h.put i (.data p)) i p :=
  ⟨rfl,rfl,rfl,rfl,fun _ b hb => .inr ⟨b,hb⟩⟩

section summary

/-- A change of the summary that files at most the page `i`. -/
structure Notes (h h' : HeapFile) (i : ℕ) : Prop extends SamePages h h' where
  free : h'.freeOverflowPages = h.freeOverflowPages
  hot : h'.hot = h.hot
  filed : ∀ j b, h'.bucketOfPage j = some b → j = i ∨ ∃ b', h.bucketOfPage j = some b'

lemma Notes.refl (h : HeapFile) (i : ℕ) : Notes h h i := ⟨SamePages.refl h,rfl,rfl,fun _ b hb => .inr ⟨b,hb⟩⟩

lemma noteFreeBytes_notes (h : HeapFile) (i f : ℕ) : Notes h (h.noteFreeBytes i f) i := by
  have hset (v : Option ℕ) (j b : ℕ) (hb : Function.update h.bucketOfPage i v j = some b) :
      j = i ∨ ∃ b', h.bucketOfPage j = some b' := by
    by_cases hj : j = i
    · exact .inl hj
    · exact .inr ⟨b,by rwa [update_of_ne hj] at hb⟩
  unfold noteFreeBytes
  dsimp only
  split
  · exact ⟨⟨rfl,rfl,rfl⟩,rfl,rfl,hset none⟩
  · split
    · exact ⟨⟨rfl,rfl,rfl⟩,rfl,rfl,fun _ b hb => .inr ⟨b,hb⟩⟩
    · exact ⟨⟨rfl,rfl,rfl⟩,rfl,rfl,hset _⟩

lemma Placed.note (hp : h.Placed h' i p) (f : ℕ) : h.Placed (h'.noteFreeBytes i f) i p := by
  have hn := noteFreeBytes_notes h' i f
  refine ⟨hn.disk.trans hp.disk,hn.dirty.trans hp.dirty,hn.numPages.trans hp.numPages,hn.free.trans hp.free,
    fun j b hb => ?_⟩
  rcases hn.filed j b hb with hj | ⟨b',hb'⟩
  · exact .inl hj
  · exact hp.filed j b' hb'

lemma Placed.adjust (hp : h.Placed h' i p) (delta : ℤ) : h.Placed (h'.adjustFreeBytes i delta) i p :=
  hp.note _

lemma Placed.setHot (hp : h.Placed h' i p) (x : Option ℕ) : h.Placed {h' with hot := x} i p :=
  ⟨hp.disk,hp.dirty,hp.numPages,hp.free,hp.filed⟩

lemma popBucket_filed
    (hp : popBucket bucketOf b is = (some i,rest)) : bucketOf i = some b := by
  induction is with
  | nil => simp [popBucket] at hp
  | cons j is ih =>
    rw [popBucket] at hp
    split at hp
    · rename_i hj
      cases hp
      exact hj
    · exact ih hp

/-- The page offered was filed, and it is taken off the summary. -/
lemma takeFreePageIn_spec (bs : List ℕ) (ht : h.takeFreePageIn bs = (res,h')) :
    h.Tuned h' ∧ ∀ i, res = some i → ∃ b, h.bucketOfPage i = some b := by
  induction bs generalizing h with
  | nil =>
    obtain ⟨rfl,rfl⟩ := Prod.mk.inj ht
    exact ⟨Tuned.refl h,by simp⟩
  | cons b bs ih =>
    rw [takeFreePageIn] at ht
    rcases hpop : popBucket h.bucketOfPage b (h.freeBuckets b) with ⟨_ | i,rest⟩
    · simp only [hpop] at ht
      obtain ⟨htuned,hres⟩ := ih ht
      have hdrop : h.Tuned {h with freeBuckets := Function.update h.freeBuckets b []} :=
        ⟨⟨rfl,rfl,rfl⟩,rfl,fun _ c hc => ⟨c,hc⟩⟩
      exact ⟨hdrop.trans htuned,hres⟩
    · simp only [hpop] at ht
      cases ht
      refine ⟨⟨⟨rfl,rfl,rfl⟩,rfl,fun j c hc => ?_⟩,fun j hj => ?_⟩
      · by_cases hj : j = i
        · simp [hj] at hc
        · exact ⟨c,by simpa [hj] using hc⟩
      · cases hj
        exact ⟨b,popBucket_filed hpop⟩

end summary

/-- The search never compacts a page that then refuses the row. -/
def searchOk : ℕ → HeapFile → Row → Bool
  | 0, _, _ => true
  | fuel+1, h, r =>
    match h.takeFreePage (r.len+slotEntrySize) with
    | (none,_) => true
    | (some i,h) =>
      let c := h.view i
      let p := reclaim c.slotted (r.len+slotEntrySize)
      match p.insert r with
      | some _ => true
      | none => decide (p = c.slotted) && searchOk fuel
          ({h with hot := some i}.noteFreeBytes i (min (p.freeSpace+p.deadSpace) (r.len+slotEntrySize-1))) r

def isDataPage (h : HeapFile) (i : ℕ) : Bool :=
  decide (0 < i) && decide (i < h.numPages) &&
    match h.view i with
    | .data _ => true
    | _ => false

lemma mem_matchingSlots :
    s ∈ matchingSlots pred p ↔ ∃ r, p.get s = some r ∧ pred r = true := by
  rw [matchingSlots,mem_filter,mem_range]
  cases hget : p.get s with
  | none => simp
  | some r => simp [get_some_lt hget]

/-- An insert keeps to data pages and compacts none in vain. -/
def insertOk (h : HeapFile) (r : Row) : Bool :=
  (match h.hot with
    | none => true
    | some i => h.isDataPage i) &&
  ((h.insertHot r).isSome || searchOk h.freeListSize h r)

section rows

lemma dataAt_of_isDataPage (hi : HeapShape last h) (hd : h.isDataPage i = true) : ∃ d m, h.DataAt i d m := by
  simp only [isDataPage,Bool.and_eq_true,decide_eq_true_eq] at hd
  obtain ⟨⟨hpos,hlt⟩,hv⟩ := hd
  rcases hi.kinds i hpos hlt with hs | hdm
  · cases hc : h.view i with
    | data p => exact absurd hc hs.not_data
    | _ => simp [hc] at hv
  · exact hdm

lemma DataAt.isDataPage (hd : h.DataAt i d m) : h.isDataPage i = true := by
  simp [HeapFile.isDataPage,hd.pos,hd.lt,hd.view]

lemma Notes.shape (hn : Notes h h' i) (hi : HeapShape last h) (hd : ∃ d m, h.DataAt i d m) : HeapShape last h' := by
  refine hi.congr hn.toSamePages (fun j hj => hi.free j (hn.free ▸ hj)) (fun j b hb => ?_)
  rcases hn.filed j b hb with rfl | ⟨b',hb'⟩
  · exact hd
  · exact hi.filed j b' hb'

lemma reclaim_spec (V : Page) (need : ℕ) (hV : pageHeaderSize ≤ V.freeStart) :
    pageHeaderSize ≤ (reclaim V need).freeStart ∧ (reclaim V need).lsn = V.lsn ∧
      ∀ s, (reclaim V need).get s = V.get s := by
  unfold reclaim
  split
  · exact ⟨compact_header V,rfl,fun _ => rfl⟩
  · exact ⟨hV,rfl,fun _ => rfl⟩

/-- A search compacts pages in vain, which keeps the shape, and then places the row or gives up. -/
lemma insertSearch_run (fuel : ℕ) (hi : HeapShape last h) (hs : insertSearch fuel h r = (res,h')) :
    ∃ g, HeapShape last g ∧ h.Grown g ∧ (searchOk fuel h r = true → h.Tuned g) ∧ (res = none → g.Tuned h') ∧
      ∀ rid, res = some rid → ∃ d V V', g.DataAt rid.page d V ∧ V.applyOp (.insert rid.slot r) = some V' ∧
        g.Placed h' rid.page V' := by
  induction fuel generalizing h with
  | zero =>
    obtain ⟨rfl,rfl⟩ := Prod.mk.inj hs
    exact ⟨h,hi,.refl h,fun _ => .refl h,fun _ => .refl h,by simp⟩
  | succ fuel ih =>
    rw [insertSearch] at hs
    rcases htake : h.takeFreePage (r.len+slotEntrySize) with ⟨_ | i,h₁⟩
    · simp only [htake] at hs
      obtain ⟨rfl,rfl⟩ := Prod.mk.inj hs
      exact ⟨h,hi,.refl h,fun _ => .refl h,fun _ => (takeFreePageIn_spec _ htake).1,by simp⟩
    · obtain ⟨htuned,hfiled⟩ := takeFreePageIn_spec _ htake
      obtain ⟨b,hb⟩ := hfiled i rfl
      obtain ⟨d,V,hd⟩ := hi.filed i b hb
      have hview : h₁.view i = .data V := (htuned.view i).trans hd.view
      have hhot := htuned.trans (Tuned.hot h₁ (some i))
      simp only [htake,hview,slotted,withRows] at hs
      cases hins : (reclaim V (r.len+slotEntrySize)).insert r with
      | some x =>
        obtain ⟨slot,p'⟩ := x
        simp only [hins] at hs
        obtain ⟨rfl,rfl⟩ := Prod.mk.inj hs
        refine ⟨h,hi,.refl h,fun _ => .refl h,by simp,fun rid hrid => ?_⟩
        cases hrid
        refine ⟨d,V,p',hd,by rw [Page.applyOp,unblank_eq (hi.sound hd).1]; exact placeAt_of_insert hins,?_⟩
        refine hhot.placed (Placed.note ?_ _)
        split
        · exact put_placed _ i p'
        · exact (put_placed _ i _).trans (put_placed _ i p')
      | none =>
        simp only [hins] at hs
        obtain ⟨hhead,hlsn,hget⟩ := reclaim_spec V (r.len+slotEntrySize) (hi.sound hd).1
        -- the page as `reclaim` left it, whether or not that changed anything
        obtain ⟨g,hg,hgi,hgr,hgd⟩ : ∃ g, g = (if reclaim V (r.len+slotEntrySize) = V then {h₁ with hot := some i}
            else ({h₁ with hot := some i} : HeapFile).put i (.data (reclaim V (r.len+slotEntrySize)))) ∧
            HeapShape last g ∧ h.Grown g ∧ ∃ m, g.DataAt i d m := by
          refine ⟨_,rfl,?_⟩
          split
          · exact ⟨hhot.shape hi,.of_samePages hhot.toSamePages,V,hhot.dataAt_iff.mpr hd⟩
          · have hp := hhot.placed (put_placed _ i (reclaim V (r.len+slotEntrySize)))
            obtain ⟨hs₁,hg₁⟩ := replaced_shape hi hd hp hhead hlsn (fun s x hx => .inl (hget s ▸ hx))
            exact ⟨hs₁,hg₁,reclaim V (r.len+slotEntrySize),hp.dataAt_self hd⟩
        rw [← hg] at hs
        have hn := noteFreeBytes_notes g i (min ((reclaim V (r.len+slotEntrySize)).freeSpace+
          (reclaim V (r.len+slotEntrySize)).deadSpace) (r.len+slotEntrySize-1))
        obtain ⟨g',hg',hgr',htuned',hnone,hsome⟩ := ih (hn.shape hgi ⟨d,hgd⟩) hs
        refine ⟨g',hg',(hgr.trans (.of_samePages hn.toSamePages)).trans hgr',fun hok => ?_,hnone,hsome⟩
        rw [searchOk] at hok
        simp only [htake,hview,slotted,hins,Bool.and_eq_true,decide_eq_true_eq] at hok
        obtain ⟨hkept,hok⟩ := hok
        rw [if_pos hkept] at hg
        subst hg
        refine Tuned.trans ⟨hhot.toSamePages.trans hn.toSamePages,hn.free.trans hhot.free,fun j c hc => ?_⟩ (htuned' hok)
        rcases hn.filed j c hc with rfl | ⟨c',hc'⟩
        · exact ⟨b,hb⟩
        · exact htuned.filed j c' hc'

variable {V : Page}

lemma applyOp_of_insert_here (hv : pageHeaderSize ≤ V.freeStart)
    (hins : V.insert r = some (s,p')) : V.applyOp (.insert s r) = some p' := by
  rw [Page.applyOp,unblank_eq hv,insert_slot hins,placeAt,insertAtSlot_length,hins]
  rfl

lemma insertHot_spec (hi : HeapShape last h) (hhot : ∀ i, h.hot = some i → h.isDataPage i = true)
    (hins : h.insertHot r = some (rid,h')) :
    ∃ d V V', h.DataAt rid.page d V ∧ V.applyOp (.insert rid.slot r) = some V' ∧
      h.Placed h' rid.page V' := by
  simp only [insertHot,bind_eq_bind,bind_eq_some_iff] at hins
  obtain ⟨i,hhi,⟨s,p'⟩,hp',heq⟩ := hins
  cases heq
  obtain ⟨d,V,hd⟩ := dataAt_of_isDataPage hi (hhot i hhi)
  simp only [hd.view,withRows] at hp' ⊢
  exact ⟨d,V,p',hd,applyOp_of_insert_here (hi.sound hd).1 hp',(put_placed h i p').adjust _⟩

lemma insertFresh_spec (hpos : 0 < h.numPages) (hins : h.insertFresh r = some (rid,h')) :
    ∃ V', h.growBlank.DataAt rid.page Page.new Page.new ∧
      Page.new.applyOp (.insert rid.slot r) = some V' ∧ h.growBlank.Placed h' rid.page V' := by
  simp only [insertFresh,bind_eq_bind,bind_eq_some_iff] at hins
  obtain ⟨⟨s,p'⟩,hp',heq⟩ := hins
  cases heq
  refine ⟨p',h.growBlank_dataAt_new hpos,applyOp_of_insert_here le_rfl hp',?_⟩
  have hn := noteFreeBytes_notes {h with
    disk := Function.update h.disk h.numPages .zero, numPages := h.numPages+1} h.numPages p'.freeSpace
  refine Placed.setHot ⟨?_,?_,?_,?_,?_⟩ _
  · exact hn.disk
  · simp only [put,hn.dirty,growBlank,update_idem]
  · exact hn.numPages
  · exact hn.free
  · exact hn.filed

lemma Tuned.growBlank (ht : h.Tuned h') : h.growBlank.Tuned h'.growBlank where
  disk := by simp [HeapFile.growBlank,ht.disk,ht.numPages]
  dirty := by simp [HeapFile.growBlank,ht.dirty,ht.numPages]
  numPages := by simp [HeapFile.growBlank,ht.numPages]
  free := ht.free
  filed := ht.filed

/-- An insert applies the logged operation to a data page, behind compactions in vain or on a blank
page the file was grown by. -/
lemma insert_run (hi : HeapShape last h) (hhot : ∀ i, h.hot = some i → h.isDataPage i = true)
    (hins : h.insert r = some (rid,h')) :
    ∃ g d V V', HeapShape last g ∧ h.Grown g ∧ (h.insertOk r = true → h.Tuned g ∨ h.growBlank.Tuned g) ∧
      g.DataAt rid.page d V ∧ V.applyOp (.insert rid.slot r) = some V' ∧ g.Placed h' rid.page V' := by
  rw [HeapFile.insert] at hins
  split at hins
  · cases hins
  · cases hone : h.insertHot r with
    | some out =>
      simp only [hone] at hins
      cases hins
      obtain ⟨d,V,V',hd,happ,hp⟩ := insertHot_spec hi hhot hone
      exact ⟨h,d,V,V',hi,.refl h,fun _ => .inl (.refl h),hd,happ,hp⟩
    | none =>
      simp only [hone] at hins
      have hsearch : h.insertOk r = true → searchOk h.freeListSize h r = true := by
        intro hok
        simpa [hone] using (Bool.and_eq_true_iff.mp hok).2
      rcases hs : h.insertSearch h.freeListSize r with ⟨_ | rid₁,h₁⟩
      · simp only [hs] at hins
        obtain ⟨g,hg,hgrown,htuned,hnone,-⟩ := insertSearch_run _ hi hs
        have ht := hnone rfl
        have hg₁ := ht.shape hg
        obtain ⟨V',hd,happ,hp⟩ := insertFresh_spec hg₁.pos hins
        exact ⟨h₁.growBlank,_,_,V',hg₁.growBlank,(hgrown.trans (.of_samePages ht.toSamePages)).trans (.growBlank h₁),
          fun hok => .inr ((htuned (hsearch hok)).trans ht).growBlank,hd,happ,hp⟩
      · simp only [hs] at hins
        cases hins
        obtain ⟨g,hg,hgrown,htuned,-,hsome⟩ := insertSearch_run _ hi hs
        obtain ⟨d,V,V',hd,happ,hp⟩ := hsome _ rfl
        exact ⟨g,d,V,V',hg,hgrown,fun hok => .inl (htuned (hsearch hok)),hd,happ,hp⟩

lemma insert_len (hins : h.insert r = some (rid,h')) : r.len ≤ maxRowDataSize := by
  rw [HeapFile.insert] at hins
  split at hins
  · cases hins
  · omega

@[simp] lemma hot_view (x : Option ℕ) (i : ℕ) : ({h with hot := x} : HeapFile).view i = h.view i := (rfl)

/-- Stamping a page placed in memory with a higher LSN. -/
lemma setPageLsn_spec (hlt : i < h.numPages) (hview : h.view i = .data p) (hl : p.lsn < l) :
    ∃ h', h.setPageLsn i l = some h' ∧ h.Placed h' i (p.withLsn l) ∧
      h'.bucketOfPage = h.bucketOfPage := by
  have hpl : (Cell.data p).lsn < l := hl
  refine ⟨_,?_,(Tuned.hot h (some i)).placed (put_placed _ i _),rfl⟩
  simp only [setPageLsn,ensureHot,hlt,if_true,bind_eq_bind,bind_some,hot_view,hview,hpl,Cell.setLsn,setLsn_of_lt hl]

lemma delete_spec (hd : h.DataAt rid.page d V) :
    ∃ h', h.delete rid = some h' ∧ h.Placed h' rid.page (V.delete rid.slot) := by
  refine ⟨_,?_,((Tuned.hot h (some rid.page)).placed (put_placed _ _ _)).adjust
    (Page.slotLen (V.get rid.slot))⟩
  simp only [delete,ensureHot,hd.lt,if_true,bind_eq_bind,bind_some,hot_view,hd.view,Cell.slotted,Cell.withRows]
  by_cases hs : rid.slot < V.slots.length
  · simp [hs]
  · simp [delete_of_length_le (Nat.le_of_not_lt hs)]

/-- The row fits its page. -/
lemma update_inPlace_spec (hd : h.DataAt rid.page d V) (hfit : ¬ maxRowDataSize < r.len)
    (hup : V.update rid.slot r = some V') : ∃ h', h.update rid r = some (rid,h') ∧ h.Placed h' rid.page V' := by
  refine ⟨_,?_,((Tuned.hot h (some rid.page)).placed (put_placed _ _ _)).adjust
    ((Page.slotLen (V.get rid.slot) : ℤ)-r.len)⟩
  simp only [update,hfit,if_false,ensureHot,hd.lt,if_true,bind_eq_bind,bind_some,hot_view,hd.view,Cell.slotted,
    Cell.withRows,hup]

/-- A row that does not fit its page is deleted and inserted. -/
lemma update_relocates_spec (hd : h.DataAt rid.page d V) (hfit : ¬ maxRowDataSize < r.len)
    (hup : V.update rid.slot r = none) : h.update rid r = (h.delete rid).bind (fun h₀ => h₀.insert r) := by
  simp only [update,hfit,if_false,ensureHot,hd.lt,if_true,bind_eq_bind,bind_some,hot_view,hd.view,slotted,hup]
  simp only [delete,ensureHot]

lemma update_hot (h : HeapFile) (rid : RowId) (r : Row) :
    ({h with hot := some rid.page} : HeapFile).update rid r = h.update rid r := rfl

end rows
end HeapFile

namespace Page
variable {p : Page} {s : ℕ}

/-- On a live slot `update_fit` foretells whether the page takes the row. -/
lemma updateFit_relocates_iff (hold : p.get s = some old) (r : Row) :
    p.updateFit s r.len = .relocates ↔ p.update s r = none := by
  simp only [updateFit,update,hold]
  by_cases h₁ : r.len ≤ old.len
  · simp [h₁]
  · by_cases h₂ : r.len ≤ p.freeSpace <;> simp [h₁]

end Page

namespace HeapFile

/-- The rows of a page that took a row. -/
lemma taken_rows (hi : HeapShape last h) (hd : h.DataAt i d V) (htakes : V.Takes V' r) (hrow : h.RowOk r) :
    ∀ s x, V'.get s = some x → h.RowOk x := by
  intro s x hx
  rcases htakes.rows s x hx with hold | rfl
  · exact hi.rows i d V s x hd hold
  · exact hrow

section
variable (hi : HeapInv t log last h)
include hi

/-- A logged operation on a page, which is then stamped. -/
lemma logged (hd : h.DataAt i d V) (type : WalRecordType)
    (hop : type.pageOp = some (t,i,op)) (happ : V.applyOp op = some V') (hlsn : V'.lsn = V.lsn) (hp : h.Placed h₁ i V')
    (hrows : ∀ s x, V'.get s = some x → h.RowOk x) (hlen : ∀ rid r, type = .update t rid r → r.len ≤ maxRowDataSize)
    (tx : ℕ) : ∃ h₂, h₁.setPageLsn i (last+1) = some h₂ ∧
      HeapInv t (log++[⟨last+1,tx,type⟩]) (last+1) h₂ ∧ ∀ {j}, h.Spare j → h₂.Spare j := by
  have hpage := hi.pageInv hd
  have hlt : V'.lsn < last+1 := hlsn ▸ Nat.lt_succ_of_le hpage.lsn_le
  obtain ⟨h₂,hset,hp₂,-⟩ := setPageLsn_spec (hp.numPages ▸ hd.lt) hp.view_self hlt
  have hp := hp.trans hp₂
  exact ⟨h₂,hset,hi.record hop hd hp (hpage.stamped _ happ) hrows hlen,(hp.spare_iff hd).mpr⟩

/-- Where an insert that compacts nothing puts its row. -/
lemma insert_placed (hlog : LogOk log last) (hok : h.insertOk r = true) (hrow : h.RowOk r)
    (hins : h.insert r = some (rid,h₁)) :
    ∃ g d V V', HeapInv t log last g ∧ (∀ {j}, h.Spare j → g.Spare j) ∧
      (∀ {j d m}, h.DataAt j d m → g.DataAt j d m) ∧ g.DataAt rid.page d V ∧
      V.applyOp (.insert rid.slot r) = some V' ∧ g.Placed h₁ rid.page V' ∧ V'.lsn = V.lsn ∧
      ∀ s x, V'.get s = some x → g.RowOk x := by
  have hhot : ∀ i, h.hot = some i → h.isDataPage i = true := by
    intro i hhi
    simpa [hhi] using (Bool.and_eq_true_iff.mp hok).1
  obtain ⟨g₁,d,V,V',-,-,htuned,hd,happ,hp⟩ := insert_run hi.toHeapShape hhot hins
  obtain ⟨g,hg,hsp,hdata,ht⟩ : ∃ g, HeapInv t log last g ∧ (∀ {j}, h.Spare j → g.Spare j) ∧
      (∀ {j d m}, h.DataAt j d m → g.DataAt j d m) ∧ g.Tuned g₁ := by
    rcases htuned hok with ht | ht
    · exact ⟨h,hi,id,id,ht⟩
    · exact ⟨h.growBlank,hi.growBlank hlog,h.growBlank_spare.mpr,
        HeapFile.DataAt.growBlank,ht⟩
  have hd := ht.dataAt_iff.mp hd
  have happ' := happ
  rw [Page.applyOp,unblank_eq (hg.pageInv hd).header] at happ'
  have htakes := placeAt_takes happ'
  exact ⟨g,d,V,V',hg,hsp,hdata,hd,happ,ht.placed hp,htakes.lsn,taken_rows hg.toHeapShape hd htakes (hrow.mono hsp)⟩

/-- A logged insert: the row is placed, the record carries its row id, the page is stamped. -/
lemma insert_logged (hlog : LogOk log last) (hok : h.insertOk r = true)
    (hrow : h.RowOk r) (hins : h.insert r = some (rid,h₁)) (tx : ℕ) :
    ∃ h₂, h₁.setPageLsn rid.page (last+1) = some h₂ ∧
      HeapInv t (log++[⟨last+1,tx,.insert t rid r⟩]) (last+1) h₂ ∧ ∀ {j}, h.Spare j → h₂.Spare j := by
  obtain ⟨g,d,V,V',hg,hsp,-,hd,happ,hp,hlsn,hrows⟩ := insert_placed hi hlog hok hrow hins
  obtain ⟨h₂,hset,hi₂,hsp₂⟩ := logged hg hd (.insert t rid r) rfl happ hlsn hp hrows (by simp) tx
  exact ⟨h₂,hset,hi₂,fun hs => hsp₂ (hsp hs)⟩

/-- A logged delete that stamps its page. -/
lemma delete_logged (hd : h.DataAt rid.page d V) (tx : ℕ) :
    ∃ h₁ h₂, h.delete rid = some h₁ ∧ h₁.setPageLsn rid.page (last+1) = some h₂ ∧
      HeapInv t (log++[⟨last+1,tx,.delete t rid⟩]) (last+1) h₂ ∧ ∀ {j}, h.Spare j → h₂.Spare j := by
  obtain ⟨h₁,hdel,hp⟩ := delete_spec hd
  have hrows : ∀ s x, (V.delete rid.slot).get s = some x → h.RowOk x :=
    fun s x hx => hi.rows _ d V s x hd (delete_get hx)
  obtain ⟨h₂,hstamped⟩ := logged hi hd (.delete t rid) rfl rfl rfl hp hrows (by simp) tx
  exact ⟨h₁,h₂,hdel,hstamped⟩

/-- A logged update within the page, which stamps it. -/
lemma update_logged (hd : h.DataAt rid.page d V)
    (hfit : ¬ maxRowDataSize < r.len) (hup : V.update rid.slot r = some V') (hrow : h.RowOk r) (tx : ℕ) :
    ∃ h₁ h₂, h.update rid r = some (rid,h₁) ∧ h₁.setPageLsn rid.page (last+1) = some h₂ ∧
      HeapInv t (log++[⟨last+1,tx,.update t rid r⟩]) (last+1) h₂ ∧ ∀ {j}, h.Spare j → h₂.Spare j := by
  have htakes := update_takes hup
  obtain ⟨h₁,hupd,hp⟩ := update_inPlace_spec hd hfit hup
  have hlen : ∀ rid' r', WalRecordType.update t rid r = .update t rid' r' → r'.len ≤ maxRowDataSize := by
    intro rid' r' he
    cases he
    exact hrow.len
  obtain ⟨h₂,hstamped⟩ := logged hi hd (.update t rid r) rfl hup htakes.lsn hp
    (taken_rows hi.toHeapShape hd htakes hrow) hlen tx
  exact ⟨h₁,h₂,hupd,hstamped⟩

/-- A delete that leaves the page's LSN alone. -/
lemma delete_unstamped (hd : h.DataAt rid.page d V) (tx : ℕ) :
    ∃ h₁, h.delete rid = some h₁ ∧ h.Placed h₁ rid.page (V.delete rid.slot) ∧
      HeapInv t (log++[⟨last+1,tx,.delete t rid⟩]) (last+1) h₁ := by
  obtain ⟨h₁,hdel,hp⟩ := delete_spec hd
  refine ⟨h₁,hdel,hp,hi.record rfl hd hp ((hi.pageInv hd).unstamped_delete rid.slot) ?_ (by simp)⟩
  exact fun s x hx => hi.rows _ d V s x hd (delete_get hx)

end

/-- The two stamps of a relocating update: the page the row left takes the LSN
of the delete, the page it went to that of the insert. -/
lemma relocate_logged (hi : HeapInv t log last h) (hlog : LogOk log last) (hd : h.DataAt rid.page d V)
    (hdel : h.delete rid = some h₀) (hok : h₀.insertOk r = true) (hrow : h.RowOk r)
    (hins : h₀.insert r = some (newRid,h₁)) (tx : ℕ) : ∃ h₂ h₃, h₁.setPageLsn rid.page (last+1) = some h₂ ∧
      h₂.setPageLsn newRid.page (last+1+1) = some h₃ ∧
      HeapInv t (log++[⟨last+1,tx,.delete t rid⟩]++[⟨last+1+1,tx,.insert t newRid r⟩]) (last+1+1) h₃ ∧
      ∀ {j}, h.Spare j → h₃.Spare j := by
  obtain ⟨h₀',hdel',hp₀,hi₀⟩ := delete_unstamped hi hd tx
  cases hdel.symm.trans hdel'
  have hlog₀ := hlog.snoc tx (.delete t rid)
  have hpage := hi.pageInv hd
  have hsp₀ : ∀ {j}, h.Spare j → h₀.Spare j := (hp₀.spare_iff hd).mpr
  obtain ⟨g,d',W,W',hgi,hsp₁,hdata,hdW,happ,hp,hlsn,hrows⟩ := insert_placed hi₀ hlog₀ hok (hrow.mono hsp₀) hins
  have hsp : ∀ {j}, h.Spare j → g.Spare j := fun hs => hsp₁ (hsp₀ hs)
  have hdg : g.DataAt rid.page d (V.delete rid.slot) := hdata (hp₀.dataAt_self hd)
  have hW := hgi.pageInv hdW
  have hVlsn : V.lsn < last+1 := Nat.lt_succ_of_le hpage.lsn_le
  by_cases hpg : newRid.page = rid.page
  · -- the row came back to its old page, whose LSN is raised twice
    obtain ⟨rfl,rfl⟩ := hdW.unique (hpg ▸ hdg)
    rw [hpg] at hp hdW hW ⊢
    have hW' : W'.lsn < last+1 := hlsn ▸ hVlsn
    obtain ⟨h₂,hset₂,hp₂,-⟩ := setPageLsn_spec (hp.numPages ▸ hdW.lt) hp.view_self hW'
    obtain ⟨h₃,hset₃,hp₃,-⟩ := setPageLsn_spec (l := last+1+1) (hp₂.numPages ▸ hp.numPages ▸ hdW.lt)
      hp₂.view_self (Nat.lt_succ_self _)
    have hp' : g.Placed h₃ rid.page (W'.withLsn (last+1+1)) := (hp.trans hp₂).trans hp₃
    refine ⟨h₂,h₃,hset₂,hset₃,hgi.record (by rw [← hpg]; rfl) hdW hp' (hW.stamped _ happ) hrows
      (by simp),fun hs => (hp'.spare_iff hdW).mpr (hsp hs)⟩
  · -- two pages: the old one could have been stamped before the insert
    have hview : h₁.view rid.page = .data (V.delete rid.slot) :=
      (hp.view_other (Ne.symm hpg)).trans hdg.view
    obtain ⟨h₂,hset₂,hp₂,hb₂⟩ := setPageLsn_spec (hp.numPages ▸ hdg.lt) hview hVlsn
    have hW' : W'.lsn < last+1+1 := hlsn ▸ Nat.lt_succ_of_le hW.lsn_le
    have hview₂ : h₂.view newRid.page = .data W' := (hp₂.view_other hpg).trans hp.view_self
    obtain ⟨h₃,hset₃,hp₃,hb₃⟩ := setPageLsn_spec (hp₂.numPages ▸ hp.numPages ▸ hdW.lt) hview₂ hW'
    have hfirst : g.Placed (g.put rid.page (.data ((V.delete rid.slot).withLsn (last+1)))) rid.page
      ((V.delete rid.slot).withLsn (last+1)) := put_placed g _ _
    have hsecond : (g.put rid.page (.data ((V.delete rid.slot).withLsn (last+1)))).Placed h₃
        newRid.page (W'.withLsn (last+1+1)) := by
      refine ⟨hp₃.disk.trans (hp₂.disk.trans hp.disk),?_,
        hp₃.numPages.trans (hp₂.numPages.trans hp.numPages),hp₃.free.trans (hp₂.free.trans hp.free),
        fun j b hb => hp.filed j b (by rw [← hb₂,← hb₃]; exact hb)⟩
      rw [hp₃.dirty,hp₂.dirty,hp.dirty,update_comm hpg,update_idem]
      rfl
    have hdg' : (g.put rid.page (.data ((V.delete rid.slot).withLsn (last+1)))).DataAt newRid.page d' W :=
      (hfirst.dataAt_iff hdg).mpr (by simpa [hpg] using hdW)
    have hrestamp : HeapInv t (log++[⟨last+1,tx,.delete t rid⟩]) (last+1)
        (g.put rid.page (.data ((V.delete rid.slot).withLsn (last+1)))) := by
      refine hgi.placed le_rfl hdg hfirst ?_ (fun _ _ => rfl) (fun _ hrec => .inl hrec)
        (fun s x hx => hgi.rows _ d _ s x hdg hx)
      rw [← setLsn_of_lt (p := V.delete rid.slot) hVlsn]
      exact (hgi.pageInv hdg).restamp le_rfl (fun x hx => (hlog₀.mem_pageOps hx).2)
    refine ⟨h₂,h₃,hset₂,hset₃,hrestamp.record rfl hdg' hsecond (hW.stamped _ happ) ?_ (by simp),?_⟩
    · exact fun s x hx => (hrows s x hx).mono (hfirst.spare_iff hdg).mpr
    · exact fun hs => (hsecond.spare_iff hdg').mpr ((hfirst.spare_iff hdg).mpr (hsp hs))

end HeapFile
end PowDB.Storage
