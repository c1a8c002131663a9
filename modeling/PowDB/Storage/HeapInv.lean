import PowDB.Storage.Redo

/-! The invariant of one heap file against the log: page `0` is the superblock,
every other page is spare (it carries a chunk of a chain, or nothing yet) or a
data page in `PageInv`, and whatever may be handed to an overflow write is spare. -/
namespace PowDB.Storage
open List Option Function WalRecord Page
/-- The page opening makes of a block on disk. -/
def Cell.image : Cell → Option Page
  | .zero => some new
  | .data p => some p
  | _ => none

namespace HeapFile

/-- A page of a chain, or one allocated for a chain and not written yet. -/
structure Spare (h : HeapFile) (i : ℕ) : Prop where
  pos : 0 < i
  lt : i < h.numPages
  clean : h.dirty i = none
  cell : h.disk i = .zero ∨ ∃ o, h.disk i = .overflow o

/-- A data page, by its image on disk and its contents in memory. -/
structure DataAt (h : HeapFile) (i : ℕ) (disk mem : Page) : Prop where
  pos : 0 < i
  lt : i < h.numPages
  image : (h.disk i).image = some disk
  view : h.view i = .data mem

variable {i : ℕ}

lemma Spare.view {h : HeapFile} (hs : h.Spare i) : h.view i = h.disk i := by
  simp [HeapFile.view,hs.clean]

lemma Spare.not_data {h : HeapFile} (hs : h.Spare i) : h.view i ≠ .data p := by
  rw [hs.view]
  rcases hs.cell with hz | ⟨o,ho⟩ <;> simp [*]

lemma DataAt.unique {h : HeapFile} (h₁ : h.DataAt i d m) (h₂ : h.DataAt i d' m') :
    d = d' ∧ m = m' :=
  ⟨some.inj (h₁.image.symm.trans h₂.image),Cell.data.inj (h₁.view.symm.trans h₂.view)⟩

/-- What is kept of page `i` is the same in both files. -/
structure SameAt (h h' : HeapFile) (i : ℕ) : Prop where
  lt : i < h'.numPages ↔ i < h.numPages
  disk : h'.disk i = h.disk i
  dirty : h'.dirty i = h.dirty i

namespace SameAt
variable {h h' : HeapFile} {i : ℕ} (hs : h.SameAt h' i)
include hs

lemma view : h'.view i = h.view i := by
  simp [HeapFile.view,hs.disk,hs.dirty]

lemma dataAt_iff {disk mem : Page} : h'.DataAt i disk mem ↔ h.DataAt i disk mem := by
  constructor
  · exact fun x => ⟨x.pos,hs.lt.mp x.lt,hs.disk ▸ x.image,hs.view ▸ x.view⟩
  · exact fun x => ⟨x.pos,hs.lt.mpr x.lt,hs.disk ▸ x.image,hs.view.trans x.view⟩

lemma spare_iff : h'.Spare i ↔ h.Spare i := by
  constructor
  · exact fun x => ⟨x.pos,hs.lt.mp x.lt,hs.dirty ▸ x.clean,hs.disk ▸ x.cell⟩
  · exact fun x => ⟨x.pos,hs.lt.mpr x.lt,hs.dirty ▸ x.clean,hs.disk ▸ x.cell⟩

end SameAt
end HeapFile

/-- A row that fits a page and whose chains start on spare pages. -/
structure HeapFile.RowOk (h : HeapFile) (r : Row) : Prop where
  len : r.len ≤ maxRowDataSize
  stubs : ∀ x ∈ r.stubs, h.Spare x.firstPage

lemma HeapFile.RowOk.mono {h h' : HeapFile} (hr : h.RowOk r) (hs : ∀ {j}, h.Spare j → h'.Spare j) :
    h'.RowOk r := ⟨hr.len,fun x hx => hs (hr.stubs x hx)⟩

/-- What a record does to one page of one table. -/
def WalRecordType.pageOp : WalRecordType → Option (String × ℕ × PageOp)
  | .insert t rid row => some (t,rid.page,.insert rid.slot row)
  | .update t rid row => some (t,rid.page,.update rid.slot row)
  | .delete t rid => some (t,rid.page,.delete rid.slot)
  | _ => none

lemma WalRecord.opOn_of_pageOp {rec : WalRecord}
    (h : rec.type.pageOp = some (t,i,op)) (t' : String) (j : ℕ) :
    rec.opOn t' j = if t = t' ∧ i = j then some (rec.lsn,op) else none := by
  obtain ⟨l,tx,type⟩ := rec
  cases type <;> simp_all [WalRecordType.pageOp,WalRecord.opOn]

/-- What holds of a heap file whatever the log says. -/
structure HeapShape (last : ℕ) (h : HeapFile) : Prop where
  pos : 0 < h.numPages
  super : ∃ l, h.disk 0 = .superblock l
  superView : ∃ l, h.view 0 = .superblock l
  clean : ∀ i, h.numPages ≤ i → h.dirty i = none
  kinds : ∀ i, 0 < i → i < h.numPages → h.Spare i ∨ ∃ disk mem, h.DataAt i disk mem
  sound : ∀ {i disk mem}, h.DataAt i disk mem → pageHeaderSize ≤ mem.freeStart ∧ mem.lsn ≤ last
  free : ∀ i ∈ h.freeOverflowPages, h.Spare i
  filed : ∀ i b, h.bucketOfPage i = some b → ∃ disk mem, h.DataAt i disk mem
  nexts : ∀ i o, h.Spare i → h.disk i = .overflow o → ∀ j, o.next = some j → h.Spare j
  rows : ∀ i disk mem s r, h.DataAt i disk mem → mem.get s = some r → h.RowOk r

/-- The heap of table `t` against the log. -/
structure HeapInv (t : String) (log : List WalRecord) (last : ℕ) (h : HeapFile) : Prop
    extends HeapShape last h where
  pageInv : ∀ {i disk mem}, h.DataAt i disk mem → PageInv last disk mem (pageOps log t i)
  stamps : ∀ i, (∀ disk mem, ¬ h.DataAt i disk mem) → ∀ x ∈ pageOps log t i, x.2 = .stamp
  written : ∀ rec ∈ log, ∀ i next chunk, rec.type = .overflowWrite t i next chunk →
    i < h.numPages ∧ ∃ o, h.disk i = .overflow o ∧ rec.lsn ≤ o.lsn
  updates : ∀ rec ∈ log, ∀ rid r, rec.type = .update t rid r → r.len ≤ maxRowDataSize

namespace HeapFile

/-- The file `h'` is `h` with page `i` replaced in memory; only the summary may differ otherwise. -/
structure Placed (h h' : HeapFile) (i : ℕ) (p : Page) : Prop where
  disk : h'.disk = h.disk
  dirty : h'.dirty = Function.update h.dirty i (some (.data p))
  numPages : h'.numPages = h.numPages
  free : h'.freeOverflowPages = h.freeOverflowPages
  filed : ∀ j b, h'.bucketOfPage j = some b → j = i ∨ ∃ b', h.bucketOfPage j = some b'

/-- The file `h'` differs from `h` in the hot page, the summary and the free list only. -/
structure SamePages (h h' : HeapFile) : Prop where
  disk : h'.disk = h.disk
  dirty : h'.dirty = h.dirty
  numPages : h'.numPages = h.numPages

namespace SamePages
variable {h h' : HeapFile}

lemma refl (h : HeapFile) : h.SamePages h := ⟨rfl,rfl,rfl⟩
lemma trans (h₁ : h.SamePages h') (h₂ : h'.SamePages h'') : h.SamePages h'' :=
  ⟨h₂.disk.trans h₁.disk,h₂.dirty.trans h₁.dirty,h₂.numPages.trans h₁.numPages⟩

lemma sameAt (hs : h.SamePages h') (i : ℕ) : h.SameAt h' i :=
  ⟨by rw [hs.numPages],congrFun hs.disk i,congrFun hs.dirty i⟩

lemma view (hs : h.SamePages h') (i : ℕ) : h'.view i = h.view i := (hs.sameAt i).view
lemma dataAt_iff (hs : h.SamePages h') {disk mem : Page} : h'.DataAt i disk mem ↔ h.DataAt i disk mem :=
  (hs.sameAt i).dataAt_iff
lemma spare_iff (hs : h.SamePages h') : h'.Spare i ↔ h.Spare i := (hs.sameAt i).spare_iff

end SamePages

namespace Placed

section
variable (hp : Placed h h' i p)
include hp

lemma view_self : h'.view i = .data p := by
  simp [HeapFile.view,hp.dirty]

lemma sameAt (hj : j ≠ i) : h.SameAt h' j :=
  ⟨by rw [hp.numPages],congrFun hp.disk j,by rw [hp.dirty,update_of_ne hj]⟩

lemma view_other (hj : j ≠ i) : h'.view j = h.view j := (hp.sameAt hj).view

lemma trans (hq : Placed h' h'' i q) : Placed h h'' i q where
  disk := hq.disk.trans hp.disk
  dirty := by rw [hq.dirty,hp.dirty,update_idem]
  numPages := hq.numPages.trans hp.numPages
  free := hq.free.trans hp.free
  filed j b hb := by
    rcases hq.filed j b hb with hj | ⟨b',hb'⟩
    · exact .inl hj
    · exact hp.filed j b' hb'

lemma dataAt_self (hd : h.DataAt i disk₀ mem₀) : h'.DataAt i disk₀ p :=
  ⟨hd.pos,hp.numPages ▸ hd.lt,hp.disk ▸ hd.image,hp.view_self⟩

/-- A data page stays one, and every other page stays what it was. -/
lemma dataAt_iff {disk₀ mem₀ : Page} (hd : h.DataAt i disk₀ mem₀) {disk mem : Page} :
    h'.DataAt j disk mem ↔
      if j = i then disk = disk₀ ∧ mem = p else h.DataAt j disk mem := by
  split_ifs with hj
  · subst hj
    refine ⟨fun hd' => hd'.unique (hp.dataAt_self hd),?_⟩
    rintro ⟨rfl,rfl⟩
    exact hp.dataAt_self hd
  · exact (hp.sameAt hj).dataAt_iff

lemma dataAt_kept {disk₀ mem₀ : Page} (hd : h.DataAt i disk₀ mem₀) {disk mem : Page}
    (hd' : h.DataAt j disk mem) : ∃ d m, h'.DataAt j d m := by
  by_cases hj : j = i
  · exact ⟨disk₀,p,hj ▸ hp.dataAt_self hd⟩
  · exact ⟨disk,mem,(hp.sameAt hj).dataAt_iff.mpr hd'⟩

lemma spare_iff {disk₀ mem₀ : Page} (hd : h.DataAt i disk₀ mem₀) :
    h'.Spare j ↔ h.Spare j := by
  by_cases hj : j = i
  · subst hj
    constructor
    · intro hs
      exact absurd hp.view_self hs.not_data
    · intro hs
      exact absurd hd.view hs.not_data
  · exact (hp.sameAt hj).spare_iff

end

end Placed
end HeapFile

namespace HeapShape

/-- A change after which the old pages are still spare or data pages. -/
lemma change (hi : HeapShape last h) (hl : last ≤ last') (hgrow : h.numPages ≤ h'.numPages)
    (hspare : ∀ {j}, h.Spare j → h'.Spare j) (hdata : ∀ {j d m}, h.DataAt j d m → ∃ d' m', h'.DataAt j d' m')
    (hnew : ∀ j, h.numPages ≤ j → j < h'.numPages → h'.Spare j ∨ ∃ d m, h'.DataAt j d m)
    (hsuper : ∃ l, h'.disk 0 = .superblock l) (hview : ∃ l, h'.view 0 = .superblock l)
    (hclean : ∀ j, h'.numPages ≤ j → h'.dirty j = none)
    (hback : ∀ {j d m}, h'.DataAt j d m → (∃ d', h.DataAt j d' m) ∨
      (pageHeaderSize ≤ m.freeStart ∧ m.lsn ≤ last') ∧ ∀ s r, m.get s = some r → h.RowOk r)
    (hfree : ∀ j ∈ h'.freeOverflowPages, h'.Spare j)
    (hfiled : ∀ j b, h'.bucketOfPage j = some b → (∃ b', h.bucketOfPage j = some b') ∨ ∃ d m, h'.DataAt j d m)
    (hnexts : ∀ j o, h'.Spare j → h'.disk j = .overflow o →
      h.Spare j ∧ h.disk j = .overflow o ∨ ∀ k, o.next = some k → h'.Spare k) : HeapShape last' h' where
  pos := hi.pos.trans_le hgrow
  super := hsuper
  superView := hview
  clean := hclean
  kinds j hj hlt := by
    rcases Nat.lt_or_ge j h.numPages with hjn | hjn
    · exact (hi.kinds j hj hjn).imp hspare (fun ⟨_,_,hd⟩ => hdata hd)
    · exact hnew j hjn hlt
  sound hd := by
    rcases hback hd with ⟨d',hd'⟩ | hm
    · exact ⟨(hi.sound hd').1,(hi.sound hd').2.trans hl⟩
    · exact hm.1
  free := hfree
  filed j b hb := by
    rcases hfiled j b hb with ⟨b',hb'⟩ | hd
    · obtain ⟨d,m,hd⟩ := hi.filed j b' hb'
      exact hdata hd
    · exact hd
  nexts j o hs ho k hk := by
    rcases hnexts j o hs ho with ⟨hs',ho'⟩ | hnext
    · exact hspare (hi.nexts j o hs' ho' k hk)
    · exact hnext k hk
  rows j d m s r hd hget := by
    rcases hback hd with ⟨d',hd'⟩ | hm
    · exact (hi.rows j d' m s r hd' hget).mono hspare
    · exact (hm.2 s r hget).mono hspare

/-- Replace one data page in memory. -/
lemma placed (hi : HeapShape last h) (hl : last ≤ last') (hd : h.DataAt i disk mem)
    (hp : h.Placed h' i mem') (hsound : pageHeaderSize ≤ mem'.freeStart ∧ mem'.lsn ≤ last')
    (hrows : ∀ s r, mem'.get s = some r → h.RowOk r) : HeapShape last' h' := by
  have hspare {j : ℕ} : h'.Spare j ↔ h.Spare j := hp.spare_iff hd
  refine hi.change hl hp.numPages.ge hspare.mpr (hp.dataAt_kept hd)
    (fun j hj hlt => absurd hlt (by rw [hp.numPages]; omega)) (hp.disk ▸ hi.super)
    (hp.view_other (Nat.ne_of_lt hd.pos) ▸ hi.superView) (fun j hj => ?_) (fun {j d m} hdm => ?_)
    (by rw [hp.free]; exact fun j hj => hspare.mpr (hi.free j hj)) (fun j b hb => ?_)
    (fun j o hs ho => .inl ⟨hspare.mp hs,hp.disk ▸ ho⟩)
  · rw [hp.numPages] at hj
    rw [(hp.sameAt (fun e => absurd hd.lt (by omega))).dirty]
    exact hi.clean j hj
  · have hdm' := (hp.dataAt_iff hd).mp hdm
    split at hdm'
    · obtain ⟨-,rfl⟩ := hdm'
      exact .inr ⟨hsound,hrows⟩
    · exact .inl ⟨d,hdm'⟩
  · rcases hp.filed j b hb with rfl | hb'
    · exact .inr ⟨disk,mem',hp.dataAt_self hd⟩
    · exact .inl hb'

lemma mono (hi : HeapShape last h) (hl : last ≤ last') : HeapShape last' h :=
  {hi with sound := fun hd => ⟨(hi.sound hd).1,(hi.sound hd).2.trans hl⟩}

/-- The shape does not read the hot page, and of the summary only which pages are filed. -/
lemma congr (hi : HeapShape last h) (hs : h.SamePages h') (hfree : ∀ i ∈ h'.freeOverflowPages, h.Spare i)
    (hfiled : ∀ i b, h'.bucketOfPage i = some b → ∃ disk mem, h.DataAt i disk mem) : HeapShape last h' := by
  refine hi.change le_rfl hs.numPages.ge hs.spare_iff.mpr (fun hd => ⟨_,_,hs.dataAt_iff.mpr hd⟩)
    (fun j hj hlt => absurd hlt (by rw [hs.numPages]; omega)) (hs.disk ▸ hi.super) (hs.view 0 ▸ hi.superView)
    (by rw [hs.numPages,hs.dirty]; exact hi.clean) (fun hd => .inl ⟨_,hs.dataAt_iff.mp hd⟩)
    (fun j hj => hs.spare_iff.mpr (hfree j hj)) (fun j b hb => ?_) (fun j o hsp ho => .inl ⟨hs.spare_iff.mp hsp,hs.disk ▸ ho⟩)
  obtain ⟨d,m,hd⟩ := hfiled j b hb
  exact .inr ⟨d,m,hs.dataAt_iff.mpr hd⟩

end HeapShape

namespace HeapInv
variable {t : String}

/-- Replace one data page in memory, with or without new log records for it. -/
lemma placed (hi : HeapInv t log last h) (hl : last ≤ last')
    (hd : h.DataAt i disk mem) (hp : h.Placed h' i mem')
    (hpage : PageInv last' disk mem' (pageOps log' t i))
    (hother : ∀ j, j ≠ i → pageOps log' t j = pageOps log t j)
    (hlog : ∀ rec ∈ log', rec ∈ log ∨ (∀ j next chunk, rec.type ≠ .overflowWrite t j next chunk) ∧
      ∀ rid r, rec.type = .update t rid r → r.len ≤ maxRowDataSize)
    (hrows : ∀ s r, mem'.get s = some r → h.RowOk r) :
    HeapInv t log' last' h' := by
  have hdata : ∀ {j disk' mem''}, h'.DataAt j disk' mem'' ↔
      if j = i then disk' = disk ∧ mem'' = mem' else h.DataAt j disk' mem'' := hp.dataAt_iff hd
  refine ⟨hi.toHeapShape.placed hl hd hp ⟨hpage.header,hpage.lsn_le⟩ hrows,?_,?_,?_,?_⟩
  · intro j d m hdm
    have hdm' := hdata.mp hdm
    split at hdm'
    · rename_i hji
      obtain ⟨rfl,rfl⟩ := hdm'
      exact hji ▸ hpage
    · rename_i hji
      rw [hother j hji]
      exact (hi.pageInv hdm').mono hl
  · intro j hj
    have hji : j ≠ i := by
      rintro rfl
      exact hj disk mem' (hp.dataAt_self hd)
    rw [hother j hji]
    exact hi.stamps j (fun d m hdm => hj d m (hdata.mpr (by simpa [hji] using hdm)))
  · intro rec hrec j next chunk htype
    rw [hp.numPages,hp.disk]
    rcases hlog rec hrec with hold | hnew
    · exact hi.written rec hold j next chunk htype
    · exact absurd htype (hnew.1 j next chunk)
  · intro rec hrec rid r htype
    rcases hlog rec hrec with hold | hnew
    · exact hi.updates rec hold rid r htype
    · exact hnew.2 rid r htype

lemma pageOps_snoc (log : List WalRecord) (rec : WalRecord) (t : String) (i : ℕ) :
    pageOps (log++[rec]) t i = pageOps log t i++(rec.opOn t i).toList := by
  simp only [pageOps]
  cases h : rec.opOn t i <;> simp [h]

/-- One logged operation on one data page. -/
lemma record (hi : HeapInv t log last h) {tx : ℕ} {type : WalRecordType}
    (hop : type.pageOp = some (t,i,op)) (hd : h.DataAt i disk mem) (hp : h.Placed h' i mem')
    (hpage : PageInv (last+1) disk mem' (pageOps log t i++[(last+1,op)]))
    (hrows : ∀ s r, mem'.get s = some r → h.RowOk r)
    (hlen : ∀ rid r, type = .update t rid r → r.len ≤ maxRowDataSize) :
    HeapInv t (log++[⟨last+1,tx,type⟩]) (last+1) h' := by
  have hon : ∀ j, (⟨last+1,tx,type⟩ : WalRecord).opOn t j = if t = t ∧ i = j then some (last+1,op) else none :=
    opOn_of_pageOp hop t
  refine hi.placed (Nat.le_succ _) hd hp ?_ (fun j hj => ?_) (forall_mem_append.mpr ⟨fun _ => .inl,?_⟩) hrows
  · rw [pageOps_snoc,hon]
    simpa using hpage
  · rw [pageOps_snoc,hon]
    simp [Ne.symm hj]
  · refine forall_mem_singleton.mpr (.inr ⟨fun j next chunk ht => ?_,hlen⟩)
    rw [show type = .overflowWrite t j next chunk from ht] at hop
    simp [WalRecordType.pageOp] at hop

/-- Records that say nothing about the table. -/
def Silent (t : String) (rec : WalRecord) : Prop :=
  (∀ i, rec.opOn t i = none) ∧ (∀ i next chunk, rec.type ≠ .overflowWrite t i next chunk) ∧
    ∀ rid r, rec.type ≠ .update t rid r

lemma silent_append (hi : HeapInv t log last h) (hl : last ≤ last')
    (hs : ∀ rec ∈ recs, Silent t rec) : HeapInv t (log++recs) last' h := by
  have hops : ∀ i, pageOps (log++recs) t i = pageOps log t i := by
    intro i
    simp only [pageOps,filterMap_append,append_right_eq_self,filterMap_eq_nil_iff]
    exact fun rec hrec => (hs rec hrec).1 i
  refine ⟨hi.toHeapShape.mono hl,fun hd => ?_,fun i hno => ?_,forall_mem_append.mpr ⟨hi.written,?_⟩,
    forall_mem_append.mpr ⟨hi.updates,?_⟩⟩
  · rw [hops]; exact (hi.pageInv hd).mono hl
  · rw [hops]; exact hi.stamps i hno
  · exact fun rec hrec i next chunk ht => absurd ht ((hs rec hrec).2.1 i next chunk)
  · exact fun rec hrec rid r ht => absurd ht ((hs rec hrec).2.2 rid r)

lemma congr (hi : HeapInv t log last h) (hs : h.SamePages h') (hshape : HeapShape last h') : HeapInv t log last h' where
  toHeapShape := hshape
  pageInv hd := hi.pageInv (hs.dataAt_iff.mp hd)
  stamps := by simp only [hs.dataAt_iff]; exact hi.stamps
  written := by simp only [hs.numPages,hs.disk]; exact hi.written
  updates := hi.updates

end HeapInv

/-- LSNs grow along the log, from one up to the last one handed out. -/
structure LogOk (log : List WalRecord) (last : ℕ) : Prop where
  sorted : log.Pairwise (·.lsn < ·.lsn)
  pos : ∀ rec ∈ log, 0 < rec.lsn
  le : ∀ rec ∈ log, rec.lsn ≤ last

lemma WalRecord.opOn_lsn {rec : WalRecord} (h : rec.opOn t i = some x) :
    x.1 = rec.lsn := by
  unfold WalRecord.opOn at h
  split at h <;> first | (split at h <;> cases h; rfl) | cases h

namespace LogOk

lemma mem_pageOps (hl : LogOk log last) {t : String} (hx : x ∈ pageOps log t i) :
    0 < x.1 ∧ x.1 ≤ last := by
  obtain ⟨rec,hrec,hon⟩ := mem_filterMap.mp hx
  rw [opOn_lsn hon]
  exact ⟨hl.pos rec hrec,hl.le rec hrec⟩

lemma pageOps_sorted (hl : LogOk log last) (t : String) (i : ℕ) : (pageOps log t i).Pairwise (·.1 < ·.1) := by
  refine hl.sorted.filterMap _ (fun a a' haa x hx y hy => ?_)
  rw [opOn_lsn hx,opOn_lsn hy]
  exact haa

lemma snoc (hl : LogOk log last) (tx : ℕ) (type : WalRecordType) : LogOk (log++[⟨last+1,tx,type⟩]) (last+1) := by
  refine ⟨?_,forall_mem_append.mpr ⟨hl.pos,by simp⟩,forall_mem_append.mpr ⟨?_,by simp⟩⟩
  · rw [pairwise_append]
    refine ⟨hl.sorted,pairwise_singleton _ _,fun a ha b hb => ?_⟩
    rw [mem_singleton.mp hb]
    exact Nat.lt_succ_of_le (hl.le a ha)
  · exact fun rec hrec => (hl.le rec hrec).trans (Nat.le_succ _)

end LogOk

namespace HeapFile

/-- The file with one more data page, still empty. -/
def growBlank (h : HeapFile) : HeapFile :=
  {h with
    disk := Function.update h.disk h.numPages .zero
    dirty := Function.update h.dirty h.numPages (some (.data new))
    numPages := h.numPages+1}

lemma growBlank_sameAt (h : HeapFile) (hj : j ≠ h.numPages) : h.SameAt h.growBlank j :=
  ⟨by change j < h.numPages+1 ↔ _; omega,update_of_ne hj _ _,update_of_ne hj _ _⟩

lemma growBlank_dataAt_new (h : HeapFile) (hpos : 0 < h.numPages) :
    h.growBlank.DataAt h.numPages new new :=
  ⟨hpos,Nat.lt_succ_self _,by simp [growBlank,Cell.image],by simp [growBlank,HeapFile.view]⟩

lemma DataAt.growBlank {h : HeapFile} {disk mem : Page} (hd : h.DataAt j disk mem) :
    h.growBlank.DataAt j disk mem := (h.growBlank_sameAt (Nat.ne_of_lt hd.lt)).dataAt_iff.mpr hd

lemma dataAt_of_growBlank {h : HeapFile} (hpos : 0 < h.numPages) {disk mem : Page}
    (hd : h.growBlank.DataAt j disk mem) :
    (j = h.numPages ∧ disk = new ∧ mem = new) ∨ h.DataAt j disk mem := by
  by_cases hj : j = h.numPages
  · subst hj
    exact .inl ⟨rfl,hd.unique (h.growBlank_dataAt_new hpos)⟩
  · exact .inr ((h.growBlank_sameAt hj).dataAt_iff.mp hd)

lemma growBlank_spare (h : HeapFile) {j : ℕ} : h.growBlank.Spare j ↔ h.Spare j := by
  by_cases hj : j = h.numPages
  · subst hj
    constructor
    · intro hs
      exact absurd (show h.growBlank.view h.numPages = .data new by
        simp [growBlank,HeapFile.view]) hs.not_data
    · intro hs
      exact absurd hs.lt (Nat.lt_irrefl _)
  · exact (h.growBlank_sameAt hj).spare_iff

end HeapFile

lemma HeapShape.growBlank {last : ℕ} (hi : HeapShape last h) : HeapShape last h.growBlank := by
  have hspare := @HeapFile.growBlank_spare h
  have hzero := h.growBlank_sameAt (Nat.ne_of_lt hi.pos)
  refine hi.change le_rfl (Nat.le_succ _) hspare.mpr (fun hd => ⟨_,_,hd.growBlank⟩) (fun j hj hlt => ?_)
    (hzero.disk ▸ hi.super) (hzero.view ▸ hi.superView) (fun j hj => ?_) (fun {j d m} hd => ?_)
    (fun j hj => hspare.mpr (hi.free j hj)) (fun j b hb => .inl ⟨b,hb⟩) (fun j o hs ho => ?_)
  · obtain rfl : j = h.numPages := Nat.le_antisymm (Nat.le_of_lt_succ hlt) hj
    exact .inr ⟨_,_,h.growBlank_dataAt_new hi.pos⟩
  · have hj' : h.numPages+1 ≤ j := hj
    rw [(h.growBlank_sameAt (by omega)).dirty]
    exact hi.clean j (by omega)
  · rcases HeapFile.dataAt_of_growBlank hi.pos hd with ⟨-,-,rfl⟩ | hd'
    · exact .inr ⟨⟨le_rfl,Nat.zero_le _⟩,fun s r hget => by simp [Page.new,Page.get] at hget⟩
    · exact .inl ⟨d,hd'⟩
  · have hs' := hspare.mp hs
    exact .inl ⟨hs',(h.growBlank_sameAt (Nat.ne_of_lt hs'.lt)).disk ▸ ho⟩

lemma HeapInv.growBlank {t : String} (hi : HeapInv t log last h)
    (hlog : LogOk log last) : HeapInv t log last h.growBlank := by
  refine ⟨hi.toHeapShape.growBlank,fun hd => ?_,fun j hj => hi.stamps j fun d m hd => hj d m hd.growBlank,?_,hi.updates⟩
  · rcases HeapFile.dataAt_of_growBlank hi.pos hd with ⟨rfl,rfl,rfl⟩ | hd'
    · exact PageInv.blank (hlog.pageOps_sorted t _) (fun x hx => (hlog.mem_pageOps hx).2)
        (hi.stamps _ fun d m hd => Nat.lt_irrefl _ hd.lt)
    · exact hi.pageInv hd'
  · intro rec hrec j next chunk ht
    obtain ⟨hlt,o,ho,hle⟩ := hi.written rec hrec j next chunk ht
    refine ⟨Nat.lt_succ_of_lt hlt,o,?_,hle⟩
    simpa [HeapFile.growBlank,Nat.ne_of_lt hlt] using ho

end PowDB.Storage
