import PowDB.Storage.HeapInv
import Mathlib

/-! The heap operations keep the invariant: chains are allocated, written and
released among spare pages, and a flush moves the disk image up to memory. -/
namespace PowDB.Storage
open List Function
/-- Blocks on disk change, the view does not. -/
structure HeapFile.Reimaged (h h' : HeapFile) : Prop where
  view : ∀ j, h'.view j = h.view j
  numPages : h'.numPages = h.numPages
  free : h'.freeOverflowPages = h.freeOverflowPages
  bucket : h'.bucketOfPage = h.bucketOfPage
  spare : ∀ {j}, h.Spare j → h'.Spare j

namespace HeapShape

lemma spare_of_overflow (hi : HeapShape last h) (hlt : i < h.numPages)
    (ho : h.disk i = .overflow o) : h.Spare i := by
  have hpos : 0 < i := by
    rcases Nat.eq_zero_or_pos i with rfl | hpos
    · obtain ⟨l,hl⟩ := hi.super
      exact absurd (hl.symm.trans ho) (by simp)
    · exact hpos
  rcases hi.kinds i hpos hlt with hs | ⟨d,m,hd⟩
  · exact hs
  · have := hd.image
    simp [ho,Cell.image] at this

lemma reimaged (hi : HeapShape last h) (hr : h.Reimaged h') (hsuper : ∃ l, h'.disk 0 = .superblock l)
    (hclean : ∀ j, h.numPages ≤ j → h'.dirty j = none) (hpages : ∀ j d m, h.DataAt j d m → ∃ d', h'.DataAt j d' m) :
    HeapShape last h' ∧ (∀ {j d m}, h'.DataAt j d m → ∃ d', h.DataAt j d' m) ∧
      ∀ {j}, h.Spare j → h'.disk j = h.disk j := by
  have hback : ∀ {j d m}, h'.DataAt j d m → ∃ d', h.DataAt j d' m := by
    intro j d m hd
    have hv : h.view j = .data m := (hr.view j).symm.trans hd.view
    rcases hi.kinds j hd.pos (hr.numPages ▸ hd.lt) with hs | ⟨d',m',hd'⟩
    · exact absurd hv hs.not_data
    · have := hd'.view.symm.trans hv
      cases this
      exact ⟨d',hd'⟩
  have hback' : ∀ {j}, h'.Spare j → h.Spare j := by
    intro j hs
    rcases hi.kinds j hs.pos (hr.numPages ▸ hs.lt) with hs' | ⟨d,m,hd⟩
    · exact hs'
    · exact absurd ((hr.view j).trans hd.view) hs.not_data
  have hdisk : ∀ {j}, h.Spare j → h'.disk j = h.disk j := by
    intro j hs
    rw [← (hr.spare hs).view,hr.view,hs.view]
  refine ⟨hi.change le_rfl hr.numPages.ge hr.spare (fun hd => ?_) (fun j hj hlt => absurd hlt (by rw [hr.numPages]; omega))
    hsuper (hr.view 0 ▸ hi.superView) (by rw [hr.numPages]; exact hclean) (fun hd => .inl (hback hd))
    (by rw [hr.free]; exact fun j hj => hr.spare (hi.free j hj)) (fun j b hb => .inl ⟨b,hr.bucket ▸ hb⟩)
    (fun j o hs ho => .inl ⟨hback' hs,hdisk (hback' hs) ▸ ho⟩),hback,hdisk⟩
  obtain ⟨d',hd'⟩ := hpages _ _ _ hd
  exact ⟨d',_,hd'⟩

end HeapShape

namespace HeapInv

lemma offRow (hi : HeapInv t log last h) (hl : last ≤ last') (hshape : HeapShape last h')
    (hops : ∀ i, pageOps log' t i = pageOps log t i)
    (hdata : ∀ {j d m}, h'.DataAt j d m ↔ h.DataAt j d m)
    (hwritten : ∀ rec ∈ log', ∀ i next chunk, rec.type = .overflowWrite t i next chunk →
      i < h'.numPages ∧ ∃ o, h'.disk i = .overflow o ∧ rec.lsn ≤ o.lsn)
    (hupdates : ∀ rec ∈ log', ∀ rid r, rec.type = .update t rid r → rec ∈ log) :
    HeapInv t log' last' h' where
  toHeapShape := hshape.mono hl
  pageInv hd := by rw [hops]; exact (hi.pageInv (hdata.mp hd)).mono hl
  stamps j hj := by
    rw [hops]
    exact hi.stamps j (fun d m hd => hj d m (hdata.mpr hd))
  written := hwritten
  updates rec hrec rid r ht := hi.updates rec (hupdates rec hrec rid r ht) rid r ht

lemma reimaged (hi : HeapInv t log last h) (hr : h.Reimaged h') (hsuper : ∃ l, h'.disk 0 = .superblock l)
    (hclean : ∀ j, h.numPages ≤ j → h'.dirty j = none)
    (hpages : ∀ j d m, h.DataAt j d m → ∃ d', h'.DataAt j d' m ∧ PageInv last d' m (pageOps log' t j))
    (hstamps : ∀ j, (∀ d m, ¬ h.DataAt j d m) → ∀ x ∈ pageOps log' t j, x.2 = .stamp)
    (hlog : ∀ rec ∈ log', rec ∈ log) : HeapInv t log' last h' := by
  obtain ⟨hshape,hback,hdisk⟩ := hi.toHeapShape.reimaged hr hsuper hclean
    (fun j d m hd => let ⟨d',hd',_⟩ := hpages j d m hd; ⟨d',hd'⟩)
  refine ⟨hshape,fun {j d m} hd => ?_,fun j hno => ?_,?_,fun rec hrec => hi.updates rec (hlog rec hrec)⟩
  · obtain ⟨d₀,hd₀⟩ := hback hd
    obtain ⟨d',hd',hp⟩ := hpages j d₀ m hd₀
    cases hd'.image.symm.trans hd.image
    exact hp
  · refine hstamps j (fun d m hd => ?_)
    obtain ⟨d',hd',-⟩ := hpages j d m hd
    exact hno d' m hd'
  · intro rec hrec j next chunk ht
    obtain ⟨hj,o,ho,hle⟩ := hi.written rec (hlog rec hrec) j next chunk ht
    exact ⟨hr.numPages ▸ hj,o,(hdisk (hi.spare_of_overflow hj ho)).trans ho,hle⟩

end HeapInv

namespace HeapFile
variable {t : String} {log : List WalRecord} {h h' : HeapFile}
  {i j : ℕ}

lemma fill_of_lt (hi : i < n) (c : Cell) (disk : ℕ → Cell) :
    (fun j => if n ≤ j ∧ j ≤ i then c else disk j) = disk := funext fun j => if_neg (by omega)

lemma extendTo_of_lt (hi : i < h.numPages) : h.extendTo i = h := by
  simp [extendTo,fill_of_lt hi,Nat.max_eq_left hi]

lemma releaseOverflowPages_samePages (h : HeapFile) (is : List ℕ) :
    h.SamePages (h.releaseOverflowPages is) := ⟨rfl,rfl,rfl⟩

lemma releaseOverflowPages_free (hi : HeapShape last h) (his : ∀ i ∈ is, h.Spare i) :
    ∀ j ∈ (h.releaseOverflowPages is).freeOverflowPages, h.Spare j := by
  rw [releaseOverflowPages,forall_mem_append]
  exact ⟨fun j hj => his j (mem_reverse.mp hj),hi.free⟩

lemma releaseOverflowPages_shape (hi : HeapShape last h) (his : ∀ i ∈ is, h.Spare i) :
    HeapShape last (h.releaseOverflowPages is) :=
  hi.congr (h.releaseOverflowPages_samePages is) (releaseOverflowPages_free hi his) hi.filed

lemma releaseOverflowPages_inv (hi : HeapInv t log last h) (his : ∀ i ∈ is, h.Spare i) :
    HeapInv t log last (h.releaseOverflowPages is) :=
  hi.congr (h.releaseOverflowPages_samePages is) (releaseOverflowPages_shape hi.toHeapShape his)

/-- The file with one more block, all zero. -/
def growZero (h : HeapFile) : HeapFile :=
  {h with disk := Function.update h.disk h.numPages .zero, numPages := h.numPages+1}

lemma growZero_sameAt (hj : j ≠ h.numPages) : h.SameAt h.growZero j :=
  ⟨by change j < h.numPages+1 ↔ _; omega,update_of_ne hj _ _,rfl⟩

lemma growZero_spare (hi : HeapShape last h) : h.growZero.Spare j ↔ h.Spare j ∨ j = h.numPages := by
  by_cases hj : j = h.numPages
  · subst hj
    refine ⟨fun _ => .inr rfl,fun _ => ⟨hi.pos,Nat.lt_succ_self _,hi.clean _ le_rfl,.inl ?_⟩⟩
    simp [growZero]
  · simpa [hj] using (growZero_sameAt hj).spare_iff

lemma growZero_dataAt (hi : HeapShape last h) : h.growZero.DataAt j d m ↔ h.DataAt j d m := by
  by_cases hj : j = h.numPages
  · subst hj
    constructor
    · intro hd
      exact absurd hd.view ((growZero_spare hi).mpr (.inr rfl)).not_data
    · intro hd
      exact absurd hd.lt (Nat.lt_irrefl _)
  · exact (growZero_sameAt hj).dataAt_iff

lemma growZero_disk_of_lt (hj : j < h.numPages) : h.growZero.disk j = h.disk j :=
  (growZero_sameAt (Nat.ne_of_lt hj)).disk

lemma growZero_shape (hi : HeapShape last h) : HeapShape last h.growZero := by
  have hspare : ∀ {j}, h.Spare j → h.growZero.Spare j := fun hs => (growZero_spare hi).mpr (.inl hs)
  refine hi.change le_rfl (Nat.le_succ _) hspare (fun hd => ⟨_,_,(growZero_dataAt hi).mpr hd⟩) (fun j hj hj' => ?_)
    (growZero_disk_of_lt hi.pos ▸ hi.super) ((growZero_sameAt (Nat.ne_of_lt hi.pos)).view ▸ hi.superView)
    (fun j hj => hi.clean j (Nat.le_of_succ_le hj)) (fun hd => .inl ⟨_,(growZero_dataAt hi).mp hd⟩)
    (fun j hj => hspare (hi.free j hj)) (fun j b hb => .inl ⟨b,hb⟩) (fun j o hs ho => ?_)
  · have hj'' : j < h.numPages+1 := hj'
    exact .inl ((growZero_spare hi).mpr (.inr (by omega)))
  · rcases (growZero_spare hi).mp hs with hs | rfl
    · exact .inl ⟨hs,growZero_disk_of_lt hs.lt ▸ ho⟩
    · simp [growZero] at ho

/-- The file `h'` has every spare page of `h`, and the same data pages. -/
structure Extends (h h' : HeapFile) : Prop where
  spare : ∀ {j}, h.Spare j → h'.Spare j
  data : ∀ {j d m}, h'.DataAt j d m ↔ h.DataAt j d m
  grow : h.numPages ≤ h'.numPages

lemma Extends.refl (h : HeapFile) : h.Extends h := ⟨id,Iff.rfl,le_rfl⟩

lemma Extends.trans (h₁ : h.Extends h') (h₂ : h'.Extends h'') : h.Extends h'' :=
  ⟨fun hs => h₂.spare (h₁.spare hs),h₂.data.trans h₁.data,h₁.grow.trans h₂.grow⟩

/-- The page handed out is spare, and no block of the file changes. -/
lemma allocateOverflowPage_shape (hi : HeapShape last h) (ha : h.allocateOverflowPage = (i,h')) :
    HeapShape last h' ∧ h'.Spare i ∧ h.Extends h' ∧ ∀ j, j < h.numPages → h'.disk j = h.disk j := by
  cases hf : h.freeOverflowPages with
  | cons k rest =>
    rw [allocateOverflowPage,hf] at ha
    obtain ⟨rfl,rfl⟩ := Prod.mk.inj ha
    have hs : h.SamePages {h with freeOverflowPages := rest} := ⟨rfl,rfl,rfl⟩
    have hrest : ∀ j ∈ rest, h.Spare j :=
      fun j hj => hi.free j (by rw [hf]; exact mem_cons_of_mem _ hj)
    exact ⟨hi.congr hs hrest hi.filed,hs.spare_iff.mpr (hi.free k (by simp [hf])),
      ⟨hs.spare_iff.mpr,hs.dataAt_iff,le_rfl⟩,fun _ _ => rfl⟩
  | nil =>
    have hgrow : h.allocateOverflowPage = (h.numPages,h.growZero) := by
      simp [allocateOverflowPage,hf,growZero]
    obtain ⟨rfl,rfl⟩ := Prod.mk.inj (hgrow.symm.trans ha)
    exact ⟨growZero_shape hi,(growZero_spare hi).mpr (.inr rfl),
      ⟨fun hs => (growZero_spare hi).mpr (.inl hs),growZero_dataAt hi,Nat.le_succ _⟩,
      fun _ hj => growZero_disk_of_lt hj⟩

lemma allocateOverflowPages_shape (n : ℕ) (hi : HeapShape last h) (ha : allocateOverflowPages n h = (is,h')) :
    HeapShape last h' ∧ (∀ i ∈ is, h'.Spare i) ∧ is.length = n ∧ h.Extends h' ∧
      ∀ j, j < h.numPages → h'.disk j = h.disk j := by
  induction n generalizing h is with
  | zero =>
    obtain ⟨rfl,rfl⟩ := Prod.mk.inj ha
    exact ⟨hi,by simp,rfl,Extends.refl h,fun _ _ => rfl⟩
  | succ n ih =>
    unfold allocateOverflowPages at ha
    rcases hone : h.allocateOverflowPage with ⟨i,h₁⟩
    rcases hrest : allocateOverflowPages n h₁ with ⟨is',h₂⟩
    simp only [hone,hrest] at ha
    obtain ⟨rfl,rfl⟩ := Prod.mk.inj ha
    obtain ⟨hi₁,hs₁,hm₁,hd₁⟩ := allocateOverflowPage_shape hi hone
    obtain ⟨hi₂,hs₂,hn,hm₂,hd₂⟩ := ih hi₁ hrest
    refine ⟨hi₂,fun j hj => ?_,by simp [hn],hm₁.trans hm₂,fun j hj => ?_⟩
    · rcases mem_cons.mp hj with rfl | hj
      · exact hm₂.spare hs₁
      · exact hs₂ j hj
    · exact (hd₂ j (hj.trans_le hm₁.grow)).trans (hd₁ j hj)

lemma allocateOverflowPages_inv (n : ℕ) (hi : HeapInv t log last h) (ha : allocateOverflowPages n h = (is,h')) :
    HeapInv t log last h' ∧ (∀ i ∈ is, h'.Spare i) ∧ is.length = n ∧ h.Extends h' := by
  obtain ⟨hs,hspare,hn,hext,hdisk⟩ := allocateOverflowPages_shape n hi.toHeapShape ha
  refine ⟨hi.offRow le_rfl hs (fun _ => rfl) hext.data ?_ (fun _ hrec _ _ _ => hrec),hspare,hn,hext⟩
  intro rec hrec j next chunk ht
  obtain ⟨hj,o,ho,hle⟩ := hi.written rec hrec j next chunk ht
  exact ⟨hj.trans_le hext.grow,o,(hdisk j hj).trans ho,hle⟩

section
variable (hsp : h.Spare i) {next : Option ℕ} {chunk : Bytes} {lsn : ℕ}
include hsp

/-- Put one chunk on a spare page. -/
lemma writeOverflowPage_eq :
    h.writeOverflowPage i next chunk lsn =
      {h with disk := Function.update h.disk i (.overflow ⟨lsn,next,chunk⟩)} := by
  simp only [writeOverflowPage,extendTo_of_lt hsp.lt]

lemma writeOverflowPage_sameAt (hj : j ≠ i) :
    h.SameAt (h.writeOverflowPage i next chunk lsn) j := by
  rw [writeOverflowPage_eq hsp]
  exact ⟨Iff.rfl,update_of_ne hj _ _,rfl⟩

lemma writeOverflowPage_spare :
    (h.writeOverflowPage i next chunk lsn).Spare j ↔ h.Spare j := by
  by_cases hj : j = i
  · subst hj
    rw [writeOverflowPage_eq hsp]
    exact ⟨fun _ => hsp,fun _ => ⟨hsp.pos,hsp.lt,hsp.clean,.inr ⟨_,update_self _ _ _⟩⟩⟩
  · exact (writeOverflowPage_sameAt hsp hj).spare_iff

lemma writeOverflowPage_dataAt :
    (h.writeOverflowPage i next chunk lsn).DataAt j d m ↔ h.DataAt j d m := by
  by_cases hj : j = i
  · subst hj
    constructor
    · intro hd
      exact absurd hd.view ((writeOverflowPage_spare hsp).mpr hsp).not_data
    · intro hd
      exact absurd hd.view hsp.not_data
  · exact (writeOverflowPage_sameAt hsp hj).dataAt_iff

omit hsp in
lemma writeOverflowPage_disk_self :
    (h.writeOverflowPage i next chunk lsn).disk i = .overflow ⟨lsn,next,chunk⟩ := by
  exact update_self _ _ _

lemma writeOverflowPage_disk_of_ne (hj : j ≠ i) :
    (h.writeOverflowPage i next chunk lsn).disk j = h.disk j := by
  exact (writeOverflowPage_sameAt hsp hj).disk

lemma writeOverflowPage_extends : h.Extends (h.writeOverflowPage i next chunk lsn) :=
  ⟨(writeOverflowPage_spare hsp).mpr,writeOverflowPage_dataAt hsp,by rw [writeOverflowPage_eq hsp]⟩

end

lemma writeOverflowPage_shape (hi : HeapShape last h) (hsp : h.Spare i) {next : Option ℕ}
    (hnext : ∀ j, next = some j → h.Spare j) (chunk : Bytes) (lsn : ℕ) :
    HeapShape last (h.writeOverflowPage i next chunk lsn) := by
  have hspare {j : ℕ} : (h.writeOverflowPage i next chunk lsn).Spare j ↔ h.Spare j := writeOverflowPage_spare hsp
  have heq := @writeOverflowPage_eq h i hsp next chunk lsn
  have hzero := @writeOverflowPage_sameAt h i 0 hsp next chunk lsn (Nat.ne_of_lt hsp.pos)
  refine hi.change le_rfl (by rw [heq]) hspare.mpr
    (fun hd => ⟨_,_,(writeOverflowPage_dataAt hsp).mpr hd⟩)
    (fun j hj hlt => absurd hlt (by rw [heq]; exact Nat.not_lt.mpr hj)) (hzero.disk ▸ hi.super) (hzero.view ▸ hi.superView)
    (by rw [heq]; exact hi.clean) (fun hd => .inl ⟨_,(writeOverflowPage_dataAt hsp).mp hd⟩)
    (fun j hj => hspare.mpr (hi.free j hj)) (by rw [heq]; exact fun j b hb => .inl ⟨b,hb⟩) (fun j o hs ho => ?_)
  by_cases hji : j = i
  · subst hji
    rw [writeOverflowPage_disk_self] at ho
    cases ho
    exact .inr (fun k hk => hspare.mpr (hnext k hk))
  · exact .inl ⟨hspare.mp hs,(writeOverflowPage_disk_of_ne hsp hji).symm.trans ho⟩

/-- A logged chunk goes to a spare page under its own LSN. -/
lemma writeOverflowPage_inv (hi : HeapInv t log last h) (hlog : LogOk log last) (hsp : h.Spare i) (tx : ℕ)
    {next : Option ℕ} (hnext : ∀ j, next = some j → h.Spare j) (chunk : Bytes) :
    HeapInv t (log++[⟨last+1,tx,.overflowWrite t i next chunk⟩]) (last+1)
      (h.writeOverflowPage i next chunk (last+1)) := by
  refine hi.offRow (Nat.le_succ _) (writeOverflowPage_shape hi.toHeapShape hsp hnext chunk (last+1))
    (fun j => ?_) (writeOverflowPage_dataAt hsp) ?_ ?_
  · simp [HeapInv.pageOps_snoc,WalRecord.opOn]
  · have hnum : (h.writeOverflowPage i next chunk (last+1)).numPages = h.numPages := by
      rw [writeOverflowPage_eq hsp]
    rw [hnum,forall_mem_append,forall_mem_singleton]
    constructor
    · intro rec hold j next' chunk' ht
      obtain ⟨hj,o,ho,hle⟩ := hi.written rec hold j next' chunk' ht
      by_cases hji : j = i
      · subst hji
        exact ⟨hj,_,writeOverflowPage_disk_self,(hlog.le rec hold).trans (Nat.le_succ _)⟩
      · exact ⟨hj,o,(writeOverflowPage_disk_of_ne hsp hji).trans ho,hle⟩
    · rintro j next' chunk' ⟨⟩
      exact ⟨hsp.lt,_,writeOverflowPage_disk_self,le_rfl⟩
  · exact forall_mem_append.mpr ⟨fun _ hold _ _ _ => hold,forall_mem_singleton.mpr (by simp)⟩

/-- The updates a flushed page has not covered name live rows that are not
shorter than the logged ones. -/
def FlushOk (h : HeapFile) (t : String) (log : List WalRecord) (i : ℕ) : Prop :=
  ∀ p, h.dirty i = some (.data p) → ∀ x ∈ p.stale (pageOps log t i), ∀ s r,
    x.2 = .update s r → ∃ old, p.get s = some old ∧ r.len ≤ old.len

lemma flushPage_disk (h : HeapFile) (i j : ℕ) : (h.flushPage i).disk j = if j = i then h.view j else h.disk j := by
  cases hd : h.dirty i <;> by_cases hj : j = i <;> simp [flushPage,hd,hj,HeapFile.view]

lemma flushPage_dirty (h : HeapFile) (i j : ℕ) : (h.flushPage i).dirty j = if j = i then none else h.dirty j := by
  cases hd : h.dirty i <;> by_cases hj : j = i <;> simp [flushPage,hd,hj]

lemma flushPage_reimaged (h : HeapFile) (i : ℕ) : h.Reimaged (h.flushPage i) := by
  have hframe : (h.flushPage i).numPages = h.numPages ∧ (h.flushPage i).freeOverflowPages = h.freeOverflowPages ∧
      (h.flushPage i).bucketOfPage = h.bucketOfPage := by
    unfold flushPage
    split <;> exact ⟨rfl,rfl,rfl⟩
  refine ⟨fun j => ?_,hframe.1,hframe.2.1,hframe.2.2,fun {j} hs => ⟨hs.pos,hframe.1 ▸ hs.lt,?_,?_⟩⟩
  · unfold HeapFile.view
    rw [flushPage_dirty,flushPage_disk]
    by_cases hj : j = i
    · simp [hj,HeapFile.view]
    · simp [hj]
  · rw [flushPage_dirty,hs.clean]; simp
  · rw [flushPage_disk,hs.view]; simpa using hs.cell

lemma flushPage_dataAt (h : HeapFile) (i : ℕ) (hd : h.DataAt j d m) :
    (h.flushPage i).DataAt j (if j = i then m else d) m := by
  have hr := h.flushPage_reimaged i
  refine ⟨hd.pos,hr.numPages ▸ hd.lt,?_,(hr.view j).trans hd.view⟩
  rw [flushPage_disk]
  split
  · rw [hd.view]; rfl
  · exact hd.image

lemma flushed_pageInv (hd : h.DataAt i d m) (hp : PageInv last d m (pageOps log t i))
    (hok : h.FlushOk t log i) : PageInv last m m (pageOps log t i) := by
  cases hdirty : h.dirty i with
  | none =>
    have hv : h.disk i = .data m := by simpa [HeapFile.view,hdirty] using hd.view
    have himg := hd.image
    rw [hv] at himg
    cases himg
    exact hp
  | some c =>
    have hc : c = .data m := by simpa [HeapFile.view,hdirty] using hd.view
    exact hp.flushed (hok m (hc ▸ hdirty))

lemma flushPage_inv (hi : HeapInv t log last h) (hok : h.FlushOk t log i) :
    HeapInv t log last (h.flushPage i) := by
  refine hi.reimaged (h.flushPage_reimaged i) ?_ ?_ ?_ hi.stamps (fun rec hrec => hrec)
  · rw [flushPage_disk]
    split
    · exact hi.superView
    · exact hi.super
  · intro j hj
    rw [flushPage_dirty,hi.clean j hj]
    simp
  · intro j d m hd
    refine ⟨_,h.flushPage_dataAt i hd,?_⟩
    split
    · rename_i hji
      subst hji
      exact flushed_pageInv hd (hi.pageInv hd) hok
    · exact hi.pageInv hd

lemma flushPages_inv (is : List ℕ) (hi : HeapInv t log last h) (hok : ∀ i ∈ is, h.FlushOk t log i) :
    HeapInv t log last (h.flushPages is) := by
  induction is generalizing h with
  | nil => exact hi
  | cons i is ih =>
    refine ih (flushPage_inv hi (hok i mem_cons_self)) (fun j hj p hp => ?_)
    rw [flushPage_dirty] at hp
    split at hp
    · cases hp
    · exact hok j (mem_cons_of_mem _ hj) p hp

lemma flushPages_reimaged (h : HeapFile) (is : List ℕ) : h.Reimaged (h.flushPages is) := by
  induction is generalizing h with
  | nil => exact ⟨fun _ => rfl,rfl,rfl,rfl,id⟩
  | cons i is ih =>
    have hr := h.flushPage_reimaged i
    have hrest := ih (h.flushPage i)
    exact ⟨fun j => (hrest.view j).trans (hr.view j),hrest.numPages.trans hr.numPages,hrest.free.trans hr.free,
      hrest.bucket.trans hr.bucket,fun hs => hrest.spare (hr.spare hs)⟩

lemma flushPages_clean (h : HeapFile) (is : List ℕ) (hj : j ∈ is ∨ h.dirty j = none) :
    (h.flushPages is).dirty j = none := by
  induction is generalizing h with
  | nil => exact hj.resolve_left not_mem_nil
  | cons i is ih =>
    apply ih
    rw [flushPage_dirty]
    by_cases hji : j = i
    · simp [hji]
    · simpa [hji] using hj

/-- After a full flush every block on disk is what memory had. -/
lemma flushAllDirty_disk (hclean : ∀ i, h.numPages ≤ i → h.dirty i = none) (j : ℕ) :
    h.flushAllDirty.dirty j = none ∧ h.flushAllDirty.disk j = h.view j := by
  have hd : h.flushAllDirty.dirty j = none := by
    apply h.flushPages_clean _
    by_cases hj : j < h.numPages
    · exact .inl (mem_range.mpr hj)
    · exact .inr (hclean j (Nat.le_of_not_lt hj))
  refine ⟨hd,?_⟩
  have hv : h.flushAllDirty.view j = h.view j := (h.flushPages_reimaged _).view j
  rw [← hv,HeapFile.view,hd]
  rfl

/-- A checkpoint: everything is flushed and the log is cut. -/
lemma flushAllDirty_inv (hi : HeapInv t log last h) : HeapInv t [] last h.flushAllDirty := by
  have hr : h.Reimaged h.flushAllDirty := h.flushPages_reimaged _
  refine hi.reimaged hr ?_ ?_ ?_ (by simp [pageOps]) (by simp)
  · rw [(flushAllDirty_disk hi.clean 0).2]; exact hi.superView
  · exact fun j _ => (flushAllDirty_disk hi.clean j).1
  · intro j d m hd
    refine ⟨m,⟨hd.pos,hr.numPages ▸ hd.lt,?_,(hr.view j).trans hd.view⟩,
      PageInv.refl (hi.pageInv hd).header (hi.pageInv hd).lsn_le⟩
    rw [(flushAllDirty_disk hi.clean j).2,hd.view]
    rfl

end HeapFile
end PowDB.Storage
