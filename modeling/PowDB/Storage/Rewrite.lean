import PowDB.Storage.CrashRun

/-! The row rewrite of a schema change. It is not logged, so nothing is said about
the log: the heap keeps its shape, data pages stay data pages and chains stay chains. -/
namespace PowDB.Storage
open List Option HeapFile Page
namespace HeapFile
variable {h : HeapFile}

lemma taken_shape (hi : HeapShape last h) (hd : h.DataAt i d V) (hp : h.Placed h' i V')
    (htakes : V.Takes V' r) (hrow : h.RowOk r) : HeapShape last h' ∧ h.Grown h' := by
  refine replaced_shape hi hd hp (htakes.header (hi.sound hd).1) htakes.lsn fun s x hx => ?_
  exact .inr (taken_rows hi hd htakes hrow s x hx)

lemma insertOp_shape (hi : HeapShape last h) (hd : h.DataAt i d V)
    (happ : V.applyOp (.insert slot r) = some V') (hp : h.Placed h' i V') (hrow : h.RowOk r) :
    HeapShape last h' ∧ h.Grown h' := by
  have hhead := (hi.sound hd).1
  have happ' := happ
  rw [Page.applyOp,unblank_eq hhead] at happ'
  exact taken_shape hi hd hp (placeAt_takes happ') hrow

/-- An insert keeps the shape when the pinned page, if any, is a data page. -/
lemma insert_shape (hi : HeapShape last h) (hhot : ∀ i, h.hot = some i → h.isDataPage i = true) (hrow : h.RowOk r)
    (hins : h.insert r = some (rid,h')) : HeapShape last h' ∧ h.Grown h' := by
  obtain ⟨g,d,V,V',hg,hgrown,-,hd,happ,hp⟩ := insert_run hi hhot hins
  obtain ⟨hs,hg'⟩ := insertOp_shape hg hd happ hp (hrow.mono hgrown.spare)
  exact ⟨hs,hgrown.trans hg'⟩

lemma delete_hot (hdel : h.delete rid = some h') : h'.hot = some rid.page := by
  simp only [delete,ensureHot] at hdel
  split at hdel
  · cases hdel
    simp only [adjustFreeBytes,noteFreeBytes]
    split_ifs <;> rfl
  · cases hdel

/-- An update keeps the shape: it pins the page it starts from, so a row that has
to move is inserted with a data page pinned. -/
lemma update_shape (hi : HeapShape last h) (hd : h.DataAt rid.page d V)
    (hstubs : ∀ x ∈ r.stubs, h.Spare x.firstPage) (hup : h.update rid r = some (rid',h')) :
    HeapShape last h' ∧ h.Grown h' := by
  have hfit : ¬ maxRowDataSize < r.len := by
    intro hbig
    simp [update,hbig] at hup
  have hrow : h.RowOk r := ⟨Nat.le_of_not_lt hfit,hstubs⟩
  cases hV : V.update rid.slot r with
  | some V' =>
    obtain ⟨h₁,hup₁,hp⟩ := update_inPlace_spec hd hfit hV
    cases hup.symm.trans hup₁
    exact taken_shape hi hd hp (update_takes hV) hrow
  | none =>
    rw [update_relocates_spec hd hfit hV] at hup
    obtain ⟨h₀,hdel,hp⟩ := delete_spec hd
    rw [hdel,bind_some] at hup
    obtain ⟨hi₀,hg₀⟩ := replaced_shape hi hd hp (hi.sound hd).1 rfl
      (fun s x hx => .inl (delete_get hx))
    have hhot : ∀ i, h₀.hot = some i → h₀.isDataPage i = true := by
      intro i hhi
      cases (delete_hot hdel).symm.trans hhi
      exact (hp.dataAt_self hd).isDataPage
    obtain ⟨hi₁,hg₁⟩ := insert_shape hi₀ hhot (hrow.mono hg₀.spare) hup
    exact ⟨hi₁,hg₀.trans hg₁⟩

lemma writeChunks_shape (is : List ℕ) (bs : List Bytes) (hi : HeapShape last h) (his : ∀ i ∈ is, h.Spare i) :
    HeapShape last (h.writeChunks is bs) ∧ h.Grown (h.writeChunks is bs) := by
  induction is generalizing h bs with
  | nil => exact ⟨hi,.refl h⟩
  | cons i is ih =>
    cases bs with
    | nil => exact ⟨hi,.refl h⟩
    | cons b bs =>
      have hsp := his i mem_cons_self
      have hone := writeOverflowPage_shape hi hsp
        (fun j hj => his j (mem_cons_of_mem _ (mem_of_head? hj))) b 0
      have hg : h.Grown (h.writeOverflowPage i is.head? b 0) := by
        refine .of_extends (writeOverflowPage_extends hsp) (fun j o _ ho => ?_)
        by_cases hj : j = i
        · subst hj
          exact ⟨_,writeOverflowPage_disk_self⟩
        · exact ⟨o,(writeOverflowPage_disk_of_ne hsp hj).trans ho⟩
      obtain ⟨hi₂,hg₂⟩ := ih bs hone (fun j hj => hg.spare (his j (mem_cons_of_mem _ hj)))
      exact ⟨hi₂,hg.trans hg₂⟩

/-- Fresh chains start on spare pages. -/
lemma spillValues_shape (vs : List Bytes) (hi : HeapShape last h)
    (hs : h.spillValues vs = (stubs,h')) : HeapShape last h' ∧ h.Grown h' ∧ ∀ x ∈ stubs, h'.Spare x.firstPage := by
  induction vs generalizing h stubs with
  | nil =>
    obtain ⟨rfl,rfl⟩ := Prod.mk.inj hs
    exact ⟨hi,.refl h,by simp⟩
  | cons v vs ih =>
    rw [spillValues] at hs
    rcases ha : allocateOverflowPages (Catalog.overflowChunks v).length h with ⟨pages,h₁⟩
    rcases hrest : (h₁.writeChunks pages (Catalog.overflowChunks v)).spillValues vs with ⟨ss,h₂⟩
    simp only [ha,hrest] at hs
    obtain ⟨rfl,rfl⟩ := Prod.mk.inj hs
    obtain ⟨hi₁,hpages,hlen,hext,hdisk⟩ := allocateOverflowPages_shape _ hi ha
    have hg₁ : h.Grown h₁ := .of_extends hext (fun j o hj ho => ⟨o,(hdisk j hj).trans ho⟩)
    obtain ⟨hi₂,hg₂⟩ := writeChunks_shape pages (Catalog.overflowChunks v) hi₁ hpages
    obtain ⟨hi₃,hg₃,hss⟩ := ih hi₂ hrest
    refine ⟨hi₃,(hg₁.trans hg₂).trans hg₃,fun x hx => ?_⟩
    rcases mem_cons.mp hx with rfl | hx
    · refine hg₃.spare (hg₂.spare (hpages _ ?_))
      have hne : pages ≠ [] := by
        rintro rfl
        exact Catalog.overflowChunks_ne_nil v (length_eq_zero_iff.mp hlen.symm)
      obtain ⟨p,ps,rfl⟩ := exists_cons_of_ne_nil hne
      exact mem_cons_self
    · exact hss x hx

lemma mem_scan (hm : (rid,r) ∈ h.scan) : rid.page < h.numPages ∧
    (h.view rid.page).isOverflow = false ∧ (h.view rid.page).slotted.get rid.slot = some r := by
  obtain ⟨i,hi,hm⟩ := mem_flatMap.mp hm
  split at hm
  · simp at hm
  · rename_i hov
    obtain ⟨s,-,hs⟩ := mem_filterMap.mp hm
    obtain ⟨r',hr',heq⟩ := map_eq_some_iff.mp hs
    cases heq
    exact ⟨mem_range.mp hi,by simpa using hov,hr'⟩

/-- What a schema change leaves on disk: every page stamped and written. -/
def barrier (h : HeapFile) (l : ℕ) : HeapFile := (h.stampAllPagesMinLsn l).flushAllDirty

/-- A block raised to an LSN. -/
def raised (c : Cell) (l : ℕ) : Cell := if c.lsn < l then c.setLsn l else c

lemma barrier_dirty (hi : HeapShape last h) (l j : ℕ) : (h.barrier l).dirty j = none ∧
    (h.barrier l).disk j = if j < h.numPages then raised (h.view j) l else h.disk j := by
  have hclean : ∀ i, h.numPages ≤ i → (h.stampAllPagesMinLsn l).dirty i = none := by
    intro i hle
    simp only [stampAllPagesMinLsn,Nat.not_lt.mpr hle]
    exact hi.clean i hle
  obtain ⟨hd,hv⟩ := flushAllDirty_disk (h := h.stampAllPagesMinLsn l) hclean j
  refine ⟨hd,hv.trans ?_⟩
  rw [stampAllPagesMinLsn_view]
  by_cases hj : j < h.numPages
  · simp [raised,hj]
  · simp [HeapFile.view,hj,hi.clean j (Nat.le_of_not_lt hj)]

lemma barrier_view (hi : HeapShape last h) (l j : ℕ) : (h.barrier l).view j = (h.barrier l).disk j := by
  simp [HeapFile.view,(barrier_dirty hi l j).1]

@[simp] lemma barrier_numPages (h : HeapFile) (l : ℕ) : (h.barrier l).numPages = h.numPages :=
  (flushPages_reimaged _ _).numPages

section
variable (hi : HeapShape last h)
include hi

lemma barrier_spare (l : ℕ) (hs : h.Spare j) : (h.barrier l).Spare j := by
  obtain ⟨hdirty,hdisk⟩ := barrier_dirty hi l j
  refine ⟨hs.pos,by simpa using hs.lt,hdirty,?_⟩
  rw [hdisk,if_pos hs.lt,hs.view]
  rcases hs.cell with hz | ⟨o,ho⟩
  · simp [hz,raised,Cell.setLsn]
  · right
    rw [ho,raised]
    split
    · exact ⟨_,rfl⟩
    · exact ⟨o,rfl⟩

lemma barrier_overflow (l : ℕ) (hs : h.Spare j)
    (ho : h.disk j = .overflow o) : ∃ o', (h.barrier l).disk j = .overflow o' ∧ l ≤ o'.lsn ∧ o'.next = o.next := by
  rw [(barrier_dirty hi l j).2,if_pos hs.lt,hs.view,ho,raised]
  split
  · exact ⟨_,rfl,Nat.le_max_right _ _,rfl⟩
  · rename_i hl
    exact ⟨o,rfl,Nat.le_of_not_lt hl,rfl⟩

lemma barrier_dataAt (hl : last < l) (hd : h.DataAt j d V) :
    (h.barrier l).DataAt j (V.withLsn l) (V.withLsn l) := by
  have hlt : V.lsn < l := (hi.sound hd).2.trans_lt hl
  have hcell : (h.barrier l).disk j = .data (V.withLsn l) := by
    rw [(barrier_dirty hi l j).2,if_pos hd.lt,hd.view,raised,if_pos (show (Cell.data V).lsn < l from hlt)]
    simp only [Cell.setLsn,setLsn_of_lt hlt]
  exact ⟨hd.pos,by simpa using hd.lt,by rw [hcell]; rfl,(barrier_view hi l j).trans hcell⟩

/-- Every data page was one before, and is on disk as it is in memory. -/
lemma dataAt_of_barrier (hl : last < l)
    (hd : (h.barrier l).DataAt j d m) : ∃ d₀ V, h.DataAt j d₀ V ∧ d = V.withLsn l ∧ m = V.withLsn l := by
  have hlt : j < h.numPages := by simpa using hd.lt
  rcases hi.kinds j hd.pos hlt with hs | ⟨d₀,V,hd₀⟩
  · exact absurd hd.view (barrier_spare hi l hs).not_data
  · obtain ⟨rfl,rfl⟩ := hd.unique (barrier_dataAt hi hl hd₀)
    exact ⟨d₀,V,hd₀,rfl,rfl⟩

lemma spare_of_barrier (hl : last < l) (hs : (h.barrier l).Spare j) :
    h.Spare j := by
  rcases hi.kinds j hs.pos (by simpa using hs.lt) with hs' | ⟨d,V,hd⟩
  · exact hs'
  · exact absurd (barrier_dataAt hi hl hd).view hs.not_data

end

lemma raised_superblock (l : ℕ) (hc : ∃ l', c = .superblock l') :
    ∃ l', raised c l = .superblock l' := by
  obtain ⟨l',rfl⟩ := hc
  unfold raised
  split
  · exact ⟨_,rfl⟩
  · exact ⟨l',rfl⟩

lemma barrier_shape (hi : HeapShape last h) (hl : last < l) : HeapShape l (h.barrier l) := by
  have hsuper : ∃ l', (h.barrier l).disk 0 = .superblock l' := by
    rw [(barrier_dirty hi l 0).2,if_pos hi.pos]
    exact raised_superblock l hi.superView
  refine hi.change hl.le (barrier_numPages h l).ge (barrier_spare hi l) (fun hd => ⟨_,_,barrier_dataAt hi hl hd⟩)
    (fun j hj hlt => absurd hlt (by simpa using hj)) hsuper (barrier_view hi l 0 ▸ hsuper)
    (fun j _ => (barrier_dirty hi l j).1) (fun {j d m} hd => ?_) (fun j hj => ?_) (fun j b hb => ?_) (fun j o hs ho => ?_)
  · obtain ⟨d₀,V,hd₀,-,rfl⟩ := dataAt_of_barrier hi hl hd
    exact .inr ⟨⟨(hi.sound hd₀).1,le_rfl⟩,fun s r => hi.rows j d₀ V s r hd₀⟩
  · rw [barrier,flushAllDirty,(flushPages_reimaged _ _).free] at hj
    exact barrier_spare hi l (hi.free j hj)
  · rw [barrier,flushAllDirty,(flushPages_reimaged _ _).bucket] at hb
    exact .inl ⟨b,hb⟩
  · have hs' := spare_of_barrier hi hl hs
    rcases hs'.cell with hz | ⟨o₀,ho₀⟩
    · rw [(barrier_dirty hi l j).2,if_pos hs'.lt,hs'.view,hz] at ho
      simp [raised,Cell.setLsn] at ho
    · obtain ⟨o',ho',-,hnext⟩ := barrier_overflow hi l hs' ho₀
      cases ho.symm.trans ho'
      exact .inr fun k hk => barrier_spare hi l (hi.nexts j o₀ hs' ho₀ k (hnext ▸ hk))

/-- Once every page is stamped with the record of the schema change and written,
the heap is in order against the log with that record. -/
lemma barrier_inv (hi : HeapInv t log last h)
    (hlog : LogOk log last) (hs : HeapShape last h') (hg : h.Grown h')
    (hop : ∀ i, (⟨last+1,0,type⟩ : WalRecord).opOn t i = some (last+1,.stamp)) (hschema : type.isRow = false) :
    HeapInv t (log++[⟨last+1,0,type⟩]) (last+1) (h'.barrier (last+1)) := by
  have hl : last < last+1 := Nat.lt_succ_self last
  have hlog' := hlog.snoc 0 type
  refine ⟨barrier_shape hs hl,fun {j d m} hd => ?_,fun j hno => ?_,
    forall_mem_append.mpr ⟨fun rec hrec j next chunk ht => ?_,forall_mem_singleton.mpr ?_⟩,
    forall_mem_append.mpr ⟨hi.updates,forall_mem_singleton.mpr ?_⟩⟩
  · obtain ⟨d₀,V,hd₀,rfl,rfl⟩ := dataAt_of_barrier hs hl hd
    exact PageInv.covered (hs.sound hd₀).1 le_rfl (hlog'.pageOps_sorted t j)
      (fun x hx => (hlog'.mem_pageOps hx).2)
  · intro x hx
    rw [HeapInv.pageOps_snoc,hop] at hx
    rcases mem_append.mp hx with hx | hx
    · refine hi.stamps j (fun d m hd => ?_) x hx
      obtain ⟨d',m',hd'⟩ := hg.data ⟨d,m,hd⟩
      exact hno _ _ (barrier_dataAt hs hl hd')
    · simp only [toList_some,mem_singleton] at hx
      rw [hx]
  · obtain ⟨hj,o,ho,-⟩ := hi.written rec hrec j next chunk ht
    obtain ⟨o₁,ho₁⟩ := hg.chain j o hj ho
    obtain ⟨o₂,ho₂,hle,-⟩ := barrier_overflow hs (last+1) (hg.spare (hi.spare_of_overflow hj ho)) ho₁
    exact ⟨by simpa using hj.trans_le hg.numPages,o₂,ho₂,((hlog.le rec hrec).trans (Nat.le_succ _)).trans hle⟩
  · rintro j next chunk rfl
    cases hschema
  · rintro rid r rfl
    cases hschema

end HeapFile

namespace Table
variable {α : Type} (codec : RowCodec α)

lemma rewriteAll_shape (new : Schema) (rows : List (RowId × List α × List ℕ)) (hi : HeapShape last h)
    (hrows : ∀ x ∈ rows, (∃ d m, h.DataAt x.1.page d m) ∧ ∀ i ∈ x.2.2, h.Spare i)
    (hr : rewriteAll codec new rows h = some h') : HeapShape last h' ∧ h.Grown h' := by
  induction rows generalizing h with
  | nil =>
    cases hr
    exact ⟨hi,.refl _⟩
  | cons x rows ih =>
    obtain ⟨rid,vals,old⟩ := x
    rcases hspill : h.spillValues (codec.encode new vals).spilled with ⟨stubs,h₁⟩
    simp only [rewriteAll,hspill,bind_eq_bind,bind_eq_some_iff] at hr
    obtain ⟨⟨rid',h₂⟩,hup,hrest⟩ := hr
    obtain ⟨hdata,hold⟩ := hrows _ mem_cons_self
    obtain ⟨hi₁,hg₁,hstubs⟩ := spillValues_shape _ hi hspill
    obtain ⟨d,V,hd⟩ := hg₁.data hdata
    obtain ⟨hi₂,hg₂⟩ := update_shape hi₁ hd hstubs hup
    have hg := hg₁.trans hg₂
    have hi₃ := releaseOverflowPages_shape hi₂ (fun i hmem => hg.spare (hold i hmem))
    have hg₃ := hg.trans (.of_samePages (h₂.releaseOverflowPages_samePages old))
    obtain ⟨hi₄,hg₄⟩ := ih hi₃ (fun x hx => ⟨hg₃.data (hrows x (mem_cons_of_mem _ hx)).1,
      fun i hmem => hg₃.spare ((hrows x (mem_cons_of_mem _ hx)).2 i hmem)⟩) hrest
    exact ⟨hi₄,hg₃.trans hg₄⟩

/-- A column change keeps the shape of the heap. -/
lemma changeSchema_shape {tbl tbl' : Table} {new : Schema} (hi : HeapShape last tbl.heap)
    (hc : tbl.changeSchema codec new = some tbl') :
    tbl'.schema = new ∧ HeapShape last tbl'.heap ∧ tbl.heap.Grown tbl'.heap := by
  unfold changeSchema at hc
  split at hc
  · cases hc
    exact ⟨rfl,hi,.refl _⟩
  · simp only [rewriteRowsForSchemaChange,bind_eq_bind,bind_eq_some_iff] at hc
    obtain ⟨h',⟨rows,hrows,hrw⟩,heq⟩ := hc
    cases heq
    refine ⟨rfl,rewriteAll_shape codec new rows hi (fun x hx => ?_) hrw⟩
    obtain ⟨⟨rid,r⟩,hm,hfx⟩ := Lib.mem_mapM_some hrows hx
    obtain ⟨hlt,hov,hget⟩ := mem_scan hm
    obtain ⟨d,V,hd⟩ := dataAt_of_row hi hlt hov hget
    simp only [bind_eq_some_iff] at hfx
    obtain ⟨vals,-,heq⟩ := hfx
    cases heq
    refine ⟨⟨d,V,hd⟩,fun i hi' => ?_⟩
    obtain ⟨x,hx,hi'⟩ := mem_flatMap.mp hi'
    refine overflowChainPages_spare hi _ _ (fun k hk => ?_) i hi'
    cases hk
    rw [hd.view] at hget
    exact (hi.rows _ d V _ r hd hget).stubs x hx

end Table
end PowDB.Storage
