import PowDB.Storage.CatalogInv

/-! Every logged row statement advances the catalog, under the conditions
`stmtOk` puts on the state it meets. -/
namespace PowDB.Storage
open List Option HeapFile WalRecordType
namespace HeapFile
variable {h : HeapFile}

/-- A chain that starts on a spare page stays on spare pages. -/
lemma overflowChainPages_spare (hi : HeapShape last h) (fuel : ℕ) (p : Option ℕ) (hp : ∀ i, p = some i → h.Spare i) :
    ∀ k ∈ h.overflowChainPages fuel p, h.Spare k := by
  induction fuel generalizing p with
  | zero => simp [overflowChainPages]
  | succ fuel ih =>
    cases p with
    | none => simp [overflowChainPages]
    | some i =>
      have hs := hp i rfl
      simp only [overflowChainPages,hs.lt,if_true]
      intro k hk
      rcases hs.cell with hz | ⟨o,ho⟩
      · simp only [hz,mem_singleton] at hk
        exact hk ▸ hs
      · simp only [ho,mem_cons] at hk
        rcases hk with rfl | hk
        · exact hs
        · exact ih o.next (hi.nexts i o hs ho) k hk

lemma overflowChainPagesAt_spare (hi : HeapShape last h) (hd : h.isDataPage rid.page = true) :
    ∀ k ∈ h.overflowChainPagesAt rid, h.Spare k := by
  obtain ⟨d,V,hd⟩ := dataAt_of_isDataPage hi hd
  unfold overflowChainPagesAt
  rw [hd.view,Cell.slotted]
  cases hg : V.get rid.slot with
  | none => simp
  | some r =>
    intro k hk
    obtain ⟨x,hx,hk⟩ := mem_flatMap.mp hk
    refine overflowChainPages_spare hi _ _ (fun i he => ?_) k hk
    cases he
    exact (hi.rows _ d V _ r hd hg).stubs x hx

/-- A row that has to leave its page is inserted under the same condition as a new one. -/
def relocateOk (h : HeapFile) (rid : RowId) (row : Row) : Bool :=
  match h.updateFit rid row.len with
  | .relocates => ((h.delete rid).map (fun h => h.insertOk row)).getD true
  | _ => true

end HeapFile

namespace Catalog
variable {c c' : Catalog} {t : String} {tbl : Table} {tx : ℕ}

/-- A step of the spill: the catalog advances and the table's data pages stay as they are. -/
structure SpillStep (tx : ℕ) (t : String) (c c' : Catalog) : Prop extends Advance tx c c' where
  extended : ∀ tbl, c.table t = some tbl → ∃ tbl', c'.table t = some tbl' ∧ tbl.heap.Extends tbl'.heap

lemma SpillStep.refl (hc : CatInv c) : SpillStep tx t c c :=
  ⟨Advance.refl hc,fun tbl ht => ⟨tbl,ht,HeapFile.Extends.refl _⟩⟩

lemma SpillStep.trans (h₁ : SpillStep tx t c c') (h₂ : SpillStep tx t c' c'') :
    SpillStep tx t c c'' where
  toAdvance := h₁.toAdvance.trans h₂.toAdvance
  extended tbl ht := by
    obtain ⟨tbl',ht',he⟩ := h₁.extended tbl ht
    obtain ⟨tbl'',ht'',he'⟩ := h₂.extended tbl' ht'
    exact ⟨tbl'',ht'',he.trans he'⟩

/-- One move of the heap that leaves the data pages alone. -/
lemma spillStep (types : List WalRecordType) (hc : CatInv c) (ht : c.table t = some tbl)
    (htypes : ∀ type ∈ types, type.rowTable = some t)
    (hh : HeapInv t (c.log++numbered c.lastLsn tx types) (c.lastLsn+types.length) h') (hext : tbl.heap.Extends h') :
    SpillStep tx t c ((c.setHeap t h').appendAll tx types) := by
  refine ⟨hc.advance types ht htypes hh hext.spare,fun tbl' ht' => ?_⟩
  cases ht.symm.trans ht'
  exact ⟨_,table_setHeap_self ht h',hext⟩

lemma writeChunks_advance (is : List ℕ) (bs : List Bytes) (hc : CatInv c) (ht : c.table t = some tbl)
    (his : ∀ i ∈ is, tbl.heap.Spare i) : SpillStep tx t c (c.writeChunks t tx is bs) := by
  induction is generalizing c tbl bs with
  | nil => cases bs <;> exact SpillStep.refl hc
  | cons i is ih =>
    cases bs with
    | nil => exact SpillStep.refl hc
    | cons b bs =>
      have hnext : ∀ j, is.head? = some j → tbl.heap.Spare j := by
        intro j hj
        exact his j (mem_cons_of_mem _ (mem_of_mem_head? hj))
      have hsp := his i mem_cons_self
      have hw := writeOverflowPage_inv (hc.heaps t tbl ht) hc.log hsp tx hnext b
      have hstep := spillStep [.overflowWrite t i is.head? b] hc ht (by simp [rowTable])
        hw (writeOverflowPage_extends hsp)
      rw [← append_eq_appendAll,← append_setHeap] at hstep
      obtain ⟨tbl',ht',hs'⟩ := hstep.extended tbl ht
      have hrest := ih bs hstep.inv ht' (fun j hj => hs'.spare (his j (mem_cons_of_mem _ hj)))
      simp only [writeChunks,show (c.append tx (.overflowWrite t i is.head? b)).table t = some tbl from ht]
      exact hstep.trans hrest

/-- Spare pages of the named table in a given state. -/
def SpareIn (c : Catalog) (t : String) (i : ℕ) : Prop := ∃ tbl, c.table t = some tbl ∧ tbl.heap.Spare i

lemma SpareIn.advance (hs : c.SpareIn t i) (h : Advance tx c c') : c'.SpareIn t i := by
  obtain ⟨tbl,ht,hi⟩ := hs
  obtain ⟨h',ht',hmono⟩ := h.tables t tbl ht
  exact ⟨_,ht',hmono hi⟩

lemma overflowChunks_ne_nil (v : Bytes) : overflowChunks v ≠ [] := by
  simp only [overflowChunks,ne_eq,map_eq_nil_iff,range_eq_nil]
  omega

lemma writeOverflowChainLogged_advance (v : Bytes) (hc : CatInv c)
    (ht : c.table t = some tbl) (hw : c.writeOverflowChainLogged t tx v = (stub,c')) :
    SpillStep tx t c c' ∧ c'.SpareIn t stub.firstPage := by
  rcases ha : HeapFile.allocateOverflowPages (overflowChunks v).length tbl.heap with ⟨pages,h⟩
  simp only [writeOverflowChainLogged,ht,ha] at hw
  cases hw
  obtain ⟨hi,hpages,hlen,hext⟩ := allocateOverflowPages_inv _ (hc.heaps t tbl ht) ha
  have htab := table_setHeap_self ht h
  have halloc : SpillStep tx t c (c.setHeap t h) := by
    refine ⟨(hc.advance_heap tx ht hi hext.spare).1,fun tbl' ht' => ?_⟩
    cases ht.symm.trans ht'
    exact ⟨_,htab,hext⟩
  have hwrite : SpillStep tx t (c.setHeap t h) ((c.setHeap t h).writeChunks t tx pages (overflowChunks v)) :=
    writeChunks_advance pages (overflowChunks v) halloc.inv htab hpages
  refine ⟨halloc.trans hwrite,SpareIn.advance ⟨_,htab,hpages _ ?_⟩ hwrite.toAdvance⟩
  cases pages with
  | nil => exact absurd (eq_nil_of_length_eq_zero hlen.symm) (overflowChunks_ne_nil v)
  | cons i is => exact mem_cons_self

lemma spillValues_advance (vs : List Bytes) (hc : CatInv c) (ht : c.table t = some tbl)
    (hw : c.spillValues t tx vs = (stubs,c')) : SpillStep tx t c c' ∧ ∀ x ∈ stubs, c'.SpareIn t x.firstPage := by
  induction vs generalizing c tbl stubs with
  | nil =>
    cases hw
    exact ⟨SpillStep.refl hc,by simp⟩
  | cons v vs ih =>
    rcases hone : c.writeOverflowChainLogged t tx v with ⟨x,c₁⟩
    rcases hrest : c₁.spillValues t tx vs with ⟨xs,c₂⟩
    simp only [spillValues,hone,hrest] at hw
    cases hw
    obtain ⟨h₁,hx⟩ := writeOverflowChainLogged_advance v hc ht hone
    obtain ⟨tbl',ht',-⟩ := h₁.extended tbl ht
    obtain ⟨h₂,hxs⟩ := ih h₁.inv ht' hrest
    refine ⟨h₁.trans h₂,fun y hy => ?_⟩
    rcases mem_cons.mp hy with rfl | hy
    · exact hx.advance h₂.toAdvance
    · exact hxs y hy

lemma encodeRowWithSpillLogged_advance (hc : CatInv c) (ht : c.table t = some tbl)
    (he : c.encodeRowWithSpillLogged t tx im = (row,c')) :
    SpillStep tx t c c' ∧ ∀ x ∈ row.stubs, c'.SpareIn t x.firstPage := by
  rcases hs : c.spillValues t tx im.spilled with ⟨stubs,c₁⟩
  simp only [encodeRowWithSpillLogged,hs] at he
  cases he
  exact spillValues_advance _ hc ht hs

/-- Inside a transaction freed pages are only noted. -/
lemma freeOverflowChain_advance {id : ℕ} (hc : CatInv c) (hact : c.activeTx = some id)
    (hpages : ∀ i ∈ pages, c.SpareIn t i) : Advance tx c (c.freeOverflowChain t pages) := by
  unfold freeOverflowChain
  split
  · exact Advance.refl hc
  · simp only [hact]
    refine {Advance.refl hc with
      inv := {hc with pending := forall_mem_append.mpr ⟨hc.pending,forall_mem_singleton.mpr fun tbl ht i hi => ?_⟩}
      activeTx := hact.symm ▸ rfl}
    obtain ⟨tbl',ht',hs⟩ := hpages i hi
    cases ht.symm.trans ht'
    exact hs

/-- What a statement asks of the state it meets: row ids name data pages, an
update names a live row, an insert finds a data page hot and compacts no page in vain. -/
def stmtOk (c : Catalog) : Stmt → Bool
  | .insert t im =>
    let (tx,c) := c.nextTx
    let (row,c) := c.encodeRowWithSpillLogged t tx im
    ((c.table t).map (fun tbl => tbl.heap.insertOk row)).getD true
  | .update t rid im =>
    ((c.table t).map (fun tbl => tbl.heap.isDataPage rid.page &&
      ((tbl.heap.view rid.page).slotted.get rid.slot).isSome)).getD true &&
    (let (tx,c) := c.nextTx
     let (row,c) := c.encodeRowWithSpillLogged t tx im
     ((c.table t).map (fun tbl => tbl.heap.relocateOk rid row)).getD true)
  | .delete t rid => ((c.table t).map (fun tbl => tbl.heap.isDataPage rid.page)).getD true
  | .deleteMany t rids =>
    ((c.table t).map (fun tbl => rids.all (fun rid => tbl.heap.isDataPage rid.page))).getD true
  | .updateRowBytes t rid _ => ((c.table t).map (fun tbl => tbl.heap.isDataPage rid.page)).getD true
  | .patchVarCol t rid _ => ((c.table t).map (fun tbl => tbl.heap.isDataPage rid.page)).getD true
  | .scanDelete _ _ => true
  | .scanPatch _ _ _ => true

lemma spillValues_none (tx : ℕ) (vs : List Bytes) (ht : c.table t = none) : (c.spillValues t tx vs).2 = c := by
  induction vs with
  | nil => rfl
  | cons v vs ih =>
    simp only [spillValues,writeOverflowChainLogged,ht]
    exact ih

/-- A table that is there after the spill was there before. -/
lemma table_of_encode (he : c.encodeRowWithSpillLogged t tx im = (row,c'))
    (ht' : c'.table t = some tbl') : ∃ tbl, c.table t = some tbl := by
  cases ht : c.table t with
  | some tbl => exact ⟨tbl,rfl⟩
  | none =>
    have hsame := spillValues_none tx im.spilled ht
    rw [(Prod.mk.inj he).2] at hsame
    rw [hsame,ht] at ht'
    cases ht'

/-- Logged after the heap moved, and stamped: one move of the heap under the record. -/
lemma setPageLsn_append (ht : c.table t = some tbl)
    (hset : h₁.setPageLsn i (c.lastLsn+1) = some h₂) :
    ((c.setHeap t h₁).append tx type).setPageLsn t i (c.lastLsn+1) =
      some ((c.setHeap t h₂).appendAll tx [type]) := by
  have htab : ((c.setHeap t h₁).append tx type).table t = some {tbl with heap := h₁} :=
    table_setHeap_self ht h₁
  simp only [setPageLsn,htab,hset,bind_eq_bind,bind_some]
  rw [append_setHeap,setHeap_setHeap ht,append_eq_appendAll]

section statements
variable {id : ℕ}

section
variable (hact : c.activeTx = some id)
include hact

lemma nextTx_eq : c.nextTx = (id,c) := by simp [nextTx,hact]

lemma insert_advance (hc : CatInv c)
    (hok : c.stmtOk (.insert t im) = true) (he : c.insert t im = some c') : Advance id c c' := by
  rcases henc : c.encodeRowWithSpillLogged t id im with ⟨row,c₁⟩
  simp only [stmtOk,nextTx_eq hact,henc] at hok
  simp only [insert,nextTx_eq hact,henc,bind_eq_bind,bind_eq_some_iff] at he
  obtain ⟨tbl₁,ht₁,⟨rid,h₁⟩,hins,hset⟩ := he
  obtain ⟨tbl,ht⟩ := table_of_encode henc ht₁
  obtain ⟨hadv,hstubs⟩ := encodeRowWithSpillLogged_advance hc ht henc
  have hrow : tbl₁.heap.RowOk row := by
    refine ⟨insert_len hins,fun x hx => ?_⟩
    obtain ⟨tbl',ht',hs⟩ := hstubs x hx
    cases ht₁.symm.trans ht'
    exact hs
  obtain ⟨h₂,hset₂,hi₂,hmono⟩ := insert_logged (hadv.inv.heaps t tbl₁ ht₁) hadv.inv.log
    (by simpa [ht₁] using hok) hrow hins id
  have hstep : Advance id c₁ ((c₁.setHeap t h₂).appendAll id [.insert t rid row]) :=
    hadv.inv.advance [.insert t rid row] ht₁ (by simp [rowTable]) hi₂ hmono
  rw [append_lastLsn,setHeap_lastLsn,setPageLsn_append ht₁ hset₂] at hset
  cases hset
  exact hadv.toAdvance.trans hstep

lemma delete_advance (hc : CatInv c) (hok : c.stmtOk (.delete t rid) = true)
    (he : c.delete t rid = some c') : Advance id c c' := by
  simp only [delete,nextTx_eq hact,bind_eq_bind,bind_eq_some_iff] at he
  obtain ⟨tbl,ht,h₁,hdel,c₂,hset,heq⟩ := he
  cases heq
  have hi := hc.heaps t tbl ht
  have hdata : tbl.heap.isDataPage rid.page = true := by simpa [stmtOk,ht] using hok
  obtain ⟨d,V,hd⟩ := dataAt_of_isDataPage hi.toHeapShape hdata
  obtain ⟨h₁',h₂,hdel',hset₂,hi₂,hmono⟩ := delete_logged hi hd id
  cases hdel.symm.trans hdel'
  have hstep : Advance id c ((c.setHeap t h₂).appendAll id [.delete t rid]) :=
    hc.advance [.delete t rid] ht (by simp [rowTable]) hi₂ hmono
  rw [append_setHeap,append_lastLsn,setPageLsn_append ht hset₂] at hset
  cases hset
  refine hstep.trans (freeOverflowChain_advance hstep.inv (hstep.activeTx.trans hact) (fun i hi' => ?_))
  exact SpareIn.advance ⟨tbl,ht,overflowChainPagesAt_spare hi.toHeapShape hdata i hi'⟩ hstep

lemma deleteMany_advance (hc : CatInv c)
    (hok : c.stmtOk (.deleteMany t rids) = true) (he : c.deleteMany t rids = some c') : Advance id c c' := by
  simp only [deleteMany,nextTx_eq hact,bind_eq_bind,bind_eq_some_iff] at he
  obtain ⟨tbl,ht,h₁,hdel,heq⟩ := he
  cases heq
  have hi := hc.heaps t tbl ht
  have hdata : ∀ rid ∈ rids, tbl.heap.isDataPage rid.page = true := by
    simpa [stmtOk,ht] using hok
  obtain ⟨h₁',hdel',hi₁,hmono⟩ := deleteAll_inv id rids hi hdata
  cases hdel.symm.trans hdel'
  rw [foldl_append,appendAll_setHeap]
  have hstep : Advance id c ((c.setHeap t h₁).appendAll id (rids.map (.delete t))) :=
    hc.advance _ ht (by simp [rowTable]) (by simpa using hi₁) hmono
  refine hstep.trans (freeOverflowChain_advance hstep.inv (hstep.activeTx.trans hact) (fun i hi' => ?_))
  obtain ⟨rid,hrid,hmem⟩ := mem_flatMap.mp hi'
  exact SpareIn.advance ⟨tbl,ht,overflowChainPagesAt_spare hi.toHeapShape (hdata rid hrid) i hmem⟩ hstep

/-- A patch that changes nothing moves the hot page only. -/
lemma patchLogged_advance (hc : CatInv c)
    (hdata : ∀ tbl, c.table t = some tbl → tbl.heap.isDataPage rid.page = true)
    (he : c.patchLogged t rid f = some c') : Advance id c c' := by
  simp only [patchLogged,bind_eq_bind,bind_eq_some_iff] at he
  obtain ⟨tbl,ht,⟨out,h₁⟩,hpatch,heq⟩ := he
  obtain ⟨hmono,hi₁⟩ := patchRowShrink_inv id (hc.heaps t tbl ht) (hdata tbl ht) hpatch
  have hstep : Advance id c ((c.setHeap t h₁).appendAll id (out.toList.map (.update t rid))) :=
    hc.advance _ ht (by simp [rowTable]) (by simpa using hi₁) hmono
  cases out with
  | none =>
    cases heq
    simpa [appendAll_nil] using hstep
  | some row =>
    simp only [nextTx_eq (show (c.setHeap t h₁).activeTx = some id by simpa using hact)] at heq
    cases heq
    exact hstep

lemma scanDeleteMatchingLogged_advance (hc : CatInv c)
    (he : c.scanDeleteMatchingLogged t pred = some c') : Advance id c c' := by
  simp only [scanDeleteMatchingLogged,nextTx_eq hact,bind_eq_bind,bind_eq_some_iff] at he
  obtain ⟨tbl,ht,heq⟩ := he
  rcases hs : tbl.heap.scanDeleteMatching pred with ⟨rids,h₁⟩
  simp only [hs,foldl_append] at heq
  cases heq
  obtain ⟨hi₁,hmono⟩ := scanDeleteMatching_inv id pred (hc.heaps t tbl ht) hs
  exact hc.advance _ ht (by simp [rowTable]) (by simpa using hi₁) hmono

lemma scanPatchMatchingLogged_advance
    (hc : CatInv c) (he : c.scanPatchMatchingLogged t pred mutate = some c') :
    Advance id c c' := by
  simp only [scanPatchMatchingLogged,nextTx_eq hact,bind_eq_bind,bind_eq_some_iff] at he
  obtain ⟨tbl,ht,heq⟩ := he
  rcases hs : tbl.heap.scanPatchMatching pred mutate with ⟨xs,h₁⟩
  simp only [hs,foldl_append] at heq
  cases heq
  obtain ⟨hi₁,hmono⟩ := scanPatchMatching_inv id pred mutate (hc.heaps t tbl ht) hs
  refine hc.advance _ ht (fun type htype => ?_) (by simpa using hi₁) hmono
  obtain ⟨x,-,rfl⟩ := mem_map.mp htype
  rfl

end

/-- The two halves of a relocating update, after the spill. -/
lemma relocate_advance (id : ℕ) (hc : CatInv c) (ht : c.table t = some tbl)
    (hd : tbl.heap.DataAt rid.page d V) (hlong : ¬ maxRowDataSize < row.len) (hup : V.update rid.slot row = none)
    (hok : ((tbl.heap.delete rid).map (·.insertOk row)).getD true = true) (hrow : tbl.heap.RowOk row)
    (he : tbl.heap.update rid row = some (newRid,h₁)) :
    ∃ c₂ c₃, ((((c.append id (.delete t rid)).setHeap t h₁).append id (.insert t newRid row)).setPageLsn
        t rid.page (c.lastLsn+1) = some c₂) ∧ c₂.setPageLsn t newRid.page (c.lastLsn+1+1) = some c₃ ∧
      Advance id c c₃ := by
  rw [update_relocates_spec hd hlong hup] at he
  obtain ⟨h₀,hdel,hins⟩ := bind_eq_some_iff.mp he
  obtain ⟨h₂,h₃,hset₂,hset₃,hi₃,hmono⟩ := relocate_logged (hc.heaps t tbl ht) hc.log hd hdel
    (by simpa [hdel] using hok) hrow hins id
  have hstep : Advance id c ((c.setHeap t h₃).appendAll id [.delete t rid,.insert t newRid row]) := by
    refine hc.advance _ ht (by simp [rowTable]) ?_ hmono
    simpa [numbered] using hi₃
  have hcat : ∀ g, (((c.append id (.delete t rid)).setHeap t g).append id (.insert t newRid row)) =
      (c.setHeap t g).appendAll id [.delete t rid,.insert t newRid row] := by
    intro g
    rw [append_setHeap]
    simp [append,appendAll,numbered]
  have htab : ∀ g, ((c.setHeap t g).appendAll id [.delete t rid,.insert t newRid row]).table t =
      some {tbl with heap := g} := fun g => table_setHeap_self ht g
  refine ⟨(c.setHeap t h₂).appendAll id [.delete t rid,.insert t newRid row],_,?_,?_,hstep⟩
  · rw [hcat]
    simp only [setPageLsn,htab,hset₂,bind_eq_bind,bind_some]
    rw [appendAll_setHeap,setHeap_setHeap ht]
  · simp only [setPageLsn,htab,hset₃,bind_eq_bind,bind_some]
    rw [appendAll_setHeap,setHeap_setHeap ht]

lemma updateLogged_advance (hact : c.activeTx = some id) (hc : CatInv c)
    (hok : c.stmtOk (.update t rid im) = true) (he : c.updateLogged t rid im = some c') : Advance id c c' := by
  rcases henc : c.encodeRowWithSpillLogged t id im with ⟨row,c₁⟩
  simp only [updateLogged,nextTx_eq hact,henc,bind_eq_bind,bind_eq_some_iff] at he
  obtain ⟨tbl,ht,he⟩ := he
  simp only [stmtOk,nextTx_eq hact,henc,ht,map_some,getD_some,Bool.and_eq_true] at hok
  obtain ⟨⟨hdata,hlive⟩,hrel⟩ := hok
  obtain ⟨hspill,hstubs⟩ := encodeRowWithSpillLogged_advance hc ht henc
  obtain ⟨tbl₁,ht₁,hext⟩ := hspill.extended tbl ht
  obtain ⟨d,V,hd₀⟩ := dataAt_of_isDataPage (hc.heaps t tbl ht).toHeapShape hdata
  obtain ⟨old,hold⟩ := isSome_iff_exists.mp (by simpa [hd₀.view] using hlive)
  have hd := hext.data.mpr hd₀
  have holdPages : ∀ i ∈ tbl.heap.overflowChainPagesAt rid, c.SpareIn t i :=
    fun i hi => ⟨tbl,ht,overflowChainPagesAt_spare (hc.heaps t tbl ht).toHeapShape hdata i hi⟩
  split at he
  · cases he
  rename_i hlong
  have hrow : tbl₁.heap.RowOk row := by
    refine ⟨Nat.le_of_not_lt hlong,fun x hx => ?_⟩
    obtain ⟨tbl',ht',hs⟩ := hstubs x hx
    cases ht₁.symm.trans ht'
    exact hs
  simp only [ht₁,HeapFile.ensureHot,hd.lt,if_true,bind_some] at he hrel
  have hfit : ∀ o, ({tbl₁.heap with hot := o} : HeapFile).updateFit rid row.len =
      V.updateFit rid.slot row.len := by
    intro o
    simp only [HeapFile.updateFit,hot_view,hd.view]
    rfl
  have hgetV : V.get rid.slot = some old := hold
  rw [hfit] at he
  split at he
  · rename_i hreloc
    have hnone := (Page.updateFit_relocates_iff hgetV row).mp hreloc
    obtain ⟨⟨newRid,h₁⟩,hup,c₂,hset₂,c₃,hset₃,heq⟩ : ∃ x, tbl₁.heap.update rid row = some x ∧ ∃ c₂,
        (((c₁.append id (.delete t rid)).setHeap t x.2).append id (.insert t x.1 row)).setPageLsn
          t rid.page (c₁.lastLsn+1) = some c₂ ∧ ∃ c₃, c₂.setPageLsn t x.1.page (c₁.lastLsn+1+1) = some c₃ ∧
        some (c₃.freeOverflowChain t (tbl.heap.overflowChainPagesAt rid)) = some c' := by
      simpa [bind_eq_some_iff,update_hot] using he
    cases heq
    have hok : ((tbl₁.heap.delete rid).map (·.insertOk row)).getD true = true := by
      have : tbl₁.heap.updateFit rid row.len = .relocates := (hfit tbl₁.heap.hot).trans hreloc
      simpa [HeapFile.relocateOk,this] using hrel
    obtain ⟨c₂',c₃',hset₂',hset₃',hadv⟩ := relocate_advance id hspill.inv ht₁ hd hlong hnone
      hok hrow hup
    cases hset₂.symm.trans hset₂'
    cases hset₃.symm.trans hset₃'
    have hall := hspill.toAdvance.trans hadv
    exact hall.trans (freeOverflowChain_advance hall.inv (hall.activeTx.trans hact)
      (fun i hi => (holdPages i hi).advance hall))
  · rename_i hreloc
    obtain ⟨V',hV'⟩ := ne_none_iff_exists'.mp
      (fun hnone => hreloc ((Page.updateFit_relocates_iff hgetV row).mpr hnone))
    obtain ⟨h₁,h₂,hup,hset₂,hi₂,hmono⟩ := update_logged (hspill.inv.heaps t tbl₁ ht₁) hd hlong
      hV' hrow id
    have hstep : Advance id c₁ ((c₁.setHeap t h₂).appendAll id [.update t rid row]) :=
      hspill.inv.advance [.update t rid row] ht₁ (by simp [rowTable]) hi₂ hmono
    rw [update_hot,hup] at he
    simp only [bind_some,append_setHeap,append_lastLsn,setPageLsn_append ht₁ hset₂] at he
    cases he
    have hall := hspill.toAdvance.trans hstep
    exact hall.trans (freeOverflowChain_advance hall.inv (hall.activeTx.trans hact)
      (fun i hi => (holdPages i hi).advance hall))

/-- Every statement of a transaction advances the catalog. -/
lemma exec_advance (hact : c.activeTx = some id) (hc : CatInv c) (hok : c.stmtOk s = true)
    (he : c.exec s = some c') : Advance id c c' := by
  cases s with
  | insert t im => exact insert_advance hact hc hok he
  | update t rid im => exact updateLogged_advance hact hc hok he
  | delete t rid => exact delete_advance hact hc hok he
  | deleteMany t rids => exact deleteMany_advance hact hc hok he
  | updateRowBytes t rid writes | patchVarCol t rid patch =>
    exact patchLogged_advance hact hc (fun tbl ht => by simpa [stmtOk,ht] using hok) he
  | scanDelete t pred => exact scanDeleteMatchingLogged_advance hact hc he
  | scanPatch t pred mutate => exact scanPatchMatchingLogged_advance hact hc he

/-- The condition at each statement of a transaction, on the state the statement meets. -/
def stmtsOk (c : Catalog) : List Stmt → Bool
  | [] => true
  | s::ss => c.stmtOk s && ((c.exec s).map (fun c => c.stmtsOk ss)).getD true

lemma execAll_advance (ss : List Stmt) (hact : c.activeTx = some id) (hc : CatInv c) (hok : c.stmtsOk ss = true)
    (he : c.execAll ss = some c') : Advance id c c' := by
  induction ss generalizing c with
  | nil =>
    cases he
    exact Advance.refl hc
  | cons s ss ih =>
    simp only [execAll,bind_eq_bind,bind_eq_some_iff] at he
    obtain ⟨c₁,hone,hrest⟩ := he
    simp only [stmtsOk,hone,Bool.and_eq_true] at hok
    have hadv := exec_advance hact hc hok.1 hone
    exact hadv.trans (ih (hadv.activeTx.trans hact) hadv.inv hok.2 hrest)

end statements
end Catalog
end PowDB.Storage
