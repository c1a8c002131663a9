import PowDB.Storage.Committed
import PowDB.Storage.Statements

/-! Recovery: opening the directory and replaying the log brings every data page
to its contents in memory, up to its LSN, and leaves the chains alone. -/
namespace PowDB.Storage
open List Option Cell Lib

/-- The heap `g` of a recovery that has applied the records `done`, against the live heap `h`. -/
structure Redone (t : String) (done : List WalRecord) (h g : HeapFile) : Prop where
  disk : g.disk = h.openedDisk
  numPages : g.numPages = h.numPages
  super : ∃ l, g.view 0 = .superblock l
  data : ∀ i d m, h.DataAt i d m → ∃ r, g.view i = .data r ∧ d.redo (pageOps done t i) = some r
  chain : ∀ i o, h.Spare i → h.disk i = .overflow o → ∃ o', g.view i = .overflow o'
  blank : ∀ i, h.Spare i → h.disk i = .zero → ∃ r, g.view i = .data r ∧ r.slots = []

namespace HeapFile
variable {h g : HeapFile}

lemma foldl_note_samePages (f : ℕ → Bool) (n : ℕ → ℕ) (is : List ℕ) (g : HeapFile) :
    g.SamePages (is.foldl (fun g i => if f i then g else g.noteFreeBytes i (n i)) g) := by
  induction is generalizing g with
  | nil => exact SamePages.refl g
  | cons i is ih =>
    refine SamePages.trans ?_ (ih _)
    dsimp only
    split
    · exact SamePages.refl g
    · exact (noteFreeBytes_notes g i _).toSamePages

lemma opened_samePages (h : HeapFile) :
    ({create with disk := h.openedDisk, numPages := h.numPages} : HeapFile).SamePages h.opened :=
  foldl_note_samePages _ _ _ _

lemma opened_view (h : HeapFile) (i : ℕ) : h.opened.view i = h.openedDisk i := by
  rw [h.opened_samePages.view]
  rfl

variable {d : Page} {i : ℕ}

lemma openedDisk_image (hpos : 0 < i) (hlt : i < h.numPages) (hd : (h.disk i).image = some d) :
    h.openedDisk i = .data d := by
  unfold openedDisk
  cases hc : h.disk i with
  | zero =>
    simp only [hc,image,some.injEq] at hd
    simp [hpos,hlt,hd]
  | data p =>
    simp only [hc,image,some.injEq] at hd
    simp [hd]
  | superblock l | overflow o | clobbered b p => simp [hc,image] at hd

lemma openedDisk_overflow_iff :
    h.openedDisk i = .overflow o ↔ h.disk i = .overflow o := by
  unfold openedDisk
  split
  · rename_i hz
    simp [hz.2.2]
  · exact Iff.rfl

end HeapFile

namespace Redone
variable {t : String} {done : List WalRecord} {last : ℕ} {h g : HeapFile}
  {rec : WalRecord}

/-- Opening alone. -/
lemma opened (hi : HeapInv t log last h) : Redone t [] h h.opened where
  disk := h.opened_samePages.disk
  numPages := h.opened_samePages.numPages
  super := by
    obtain ⟨l,hl⟩ := hi.super
    refine ⟨l,?_⟩
    rw [h.opened_view]
    simpa [HeapFile.openedDisk] using hl
  data i d m hd := ⟨d,by rw [h.opened_view,HeapFile.openedDisk_image hd.pos hd.lt hd.image],rfl⟩
  chain i o hs ho := ⟨o,by rw [h.opened_view,HeapFile.openedDisk_overflow_iff]; exact ho⟩
  blank i hs hz := ⟨Page.new,by rw [h.opened_view]; simp [HeapFile.openedDisk,hs.pos,hs.lt,hz],rfl⟩

section
variable (hr : Redone t done h g)
include hr

lemma dataAt (hd : h.DataAt i d m) :
    ∃ r, g.DataAt i d r ∧ d.redo (pageOps done t i) = some r := by
  obtain ⟨r,hv,hredo⟩ := hr.data i d m hd
  refine ⟨r,⟨hd.pos,hr.numPages ▸ hd.lt,?_,hv⟩,hredo⟩
  rw [hr.disk,HeapFile.openedDisk_image hd.pos hd.lt hd.image]
  rfl

/-- A page placed by redo, with the record it was redone for. -/
lemma placed (hd : h.DataAt i d m)
    (hp : g.Placed g' i r) (hredo : d.redo (pageOps (done++[rec]) t i) = some r)
    (hother : ∀ j, j ≠ i → rec.opOn t j = none) : Redone t (done++[rec]) h g' := by
  have hne : ∀ j, h.Spare j → j ≠ i := by
    rintro j hs rfl
    exact hs.not_data hd.view
  refine ⟨hp.disk.trans hr.disk,hp.numPages.trans hr.numPages,?_,fun j d' m' hd' => ?_,
    fun j o hs ho => ?_,fun j hs hz => ?_⟩
  · rw [hp.view_other (Nat.ne_of_lt hd.pos)]; exact hr.super
  · by_cases hj : j = i
    · subst hj
      obtain ⟨rfl,rfl⟩ := hd'.unique hd
      exact ⟨r,hp.view_self,hredo⟩
    · obtain ⟨r',hv,hr'⟩ := hr.data j d' m' hd'
      refine ⟨r',(hp.view_other hj).trans hv,?_⟩
      rw [HeapInv.pageOps_snoc,hother j hj]
      simpa using hr'
  · rw [hp.view_other (hne j hs)]; exact hr.chain j o hs ho
  · rw [hp.view_other (hne j hs)]; exact hr.blank j hs hz

/-- A record that leaves the pages as they are. -/
lemma kept (hs : g.SamePages g')
    (hops : ∀ i d m r, h.DataAt i d m → d.redo (pageOps done t i) = some r →
      d.redo (pageOps (done++[rec]) t i) = some r) : Redone t (done++[rec]) h g' := by
  refine ⟨hs.disk.trans hr.disk,hs.numPages.trans hr.numPages,?_,fun j d m hd => ?_,?_,?_⟩
  · rw [hs.view]; exact hr.super
  · obtain ⟨r,hv,hredo⟩ := hr.data j d m hd
    exact ⟨r,(hs.view j).trans hv,hops j d m r hd hredo⟩
  · simp only [hs.view]; exact hr.chain
  · simp only [hs.view]; exact hr.blank

/-- A record that says nothing about the table. -/
lemma silent (hs : g.SamePages g') (hon : ∀ i, rec.opOn t i = none) : Redone t (done++[rec]) h g' := by
  refine hr.kept hs fun i d m p _ hp => ?_
  rw [HeapInv.pageOps_snoc,hon]
  simpa using hp

/-- The next record on a page: redo takes it, because redo takes the whole log. -/
lemma next (hi : HeapInv t log last h)
    (hlog : log = done++rec::rest) (hop : rec.type.pageOp = some (t,i,op)) :
    ∃ d m r r', h.DataAt i d m ∧ g.DataAt i d r ∧ d.redo (pageOps done t i) = some r ∧
      r.redoOp (rec.lsn,op) = some r' ∧ d.redo (pageOps (done++[rec]) t i) = some r' := by
  have hon := WalRecord.opOn_of_pageOp hop t i
  have hmem : (rec.lsn,op) ∈ pageOps log t i :=
    mem_filterMap.mpr ⟨rec,by simp [hlog],by simp [hon]⟩
  have hnostamp : op ≠ .stamp := by
    rintro rfl
    cases htype : rec.type <;> simp [htype,WalRecordType.pageOp] at hop
  obtain ⟨d,m,hd⟩ : ∃ d m, h.DataAt i d m := by
    by_contra hno
    exact hnostamp (hi.stamps i (fun d m hd => hno ⟨d,m,hd⟩) _ hmem)
  obtain ⟨r,hdr,hredo⟩ := hr.dataAt hd
  obtain ⟨l,-,hcover⟩ := (hi.pageInv hd).cover
  have hsplit : pageOps log t i = pageOps (done++[rec]) t i++pageOps rest t i := by
    rw [hlog,pageOps,pageOps,pageOps,← filterMap_append]
    simp
  rw [hsplit,Page.redo_append] at hcover
  obtain ⟨r',hr',-⟩ := bind_eq_some_iff.mp hcover
  refine ⟨d,m,r,r',hd,hdr,hredo,?_,hr'⟩
  rw [HeapInv.pageOps_snoc,Page.redo_append,hredo,hon] at hr'
  simpa [Page.redo] using hr'

end

end Redone

namespace HeapFile
variable {h g g₁ : HeapFile} {i : ℕ} {p : Page}

/-- Replay's stamp of the page it just wrote. -/
lemma Placed.stamped (hp : g.Placed g₁ i p) (hlt : i < g.numPages) (l : ℕ) :
    ∃ g₂, g₁.setPageLsn i l = some g₂ ∧ g.Placed g₂ i (p.setLsn l) := by
  by_cases hl : p.lsn < l
  · obtain ⟨g₂,hset,hp₂,-⟩ := setPageLsn_spec (hp.numPages ▸ hlt) hp.view_self hl
    rw [Page.setLsn_of_lt hl]
    exact ⟨g₂,hset,hp.trans hp₂⟩
  · have hl' : ¬ (data p).lsn < l := hl
    refine ⟨{g₁ with hot := some i},?_,?_⟩
    · simp [setPageLsn,ensureHot,hp.numPages.symm ▸ hlt,hp.view_self,hl']
    · rw [show p.setLsn l = p by simp [Page.setLsn,hl]]
      exact hp.setHot _

lemma growTo_of_lt (hlt : i < g.numPages) : g.growTo i = g := by
  simp [growTo,fill_of_lt hlt,Nat.max_eq_left hlt]

lemma insertAt_spec (hd : g.DataAt rid.page d r)
    (happ : r.applyOp (.insert rid.slot row) = some p) :
    ∃ g₁, g.insertAt rid row = some g₁ ∧ g.Placed g₁ rid.page p := by
  refine ⟨_,?_,(Tuned.hot g (some rid.page)).placed (put_placed _ _ _)⟩
  simp only [insertAt,growTo_of_lt hd.lt,hd.view,slotted,withRows]
  rw [Page.applyOp] at happ
  simp [happ]

end HeapFile

lemma HeapFile.stampAllPagesMinLsn_view (g : HeapFile) (l i : ℕ) : (g.stampAllPagesMinLsn l).view i =
      if i < g.numPages ∧ (g.view i).lsn < l then (g.view i).setLsn l else g.view i := by
  by_cases hl : i < g.numPages ∧ (g.view i).lsn < l
  · simp [HeapFile.view,HeapFile.stampAllPagesMinLsn] at hl ⊢
    simp [hl]
  · simp only [HeapFile.view,HeapFile.stampAllPagesMinLsn] at hl ⊢
    simp [hl]

/-- Replay of a column change that the schema already has stamps every page. -/
lemma Redone.stampAll {t : String} {rec : WalRecord}
    (hr : Redone t done h g) (hon : ∀ i, rec.opOn t i = some (rec.lsn,.stamp)) :
    Redone t (done++[rec]) h (g.stampAllPagesMinLsn rec.lsn) where
  disk := hr.disk
  numPages := hr.numPages
  super := by
    obtain ⟨l,hl⟩ := hr.super
    rw [g.stampAllPagesMinLsn_view,hl]
    split
    · exact ⟨_,rfl⟩
    · exact ⟨l,rfl⟩
  data i d m hd := by
    obtain ⟨r,hdr,hredo⟩ := hr.dataAt hd
    have hstep : d.redo (pageOps (done++[rec]) t i) = r.redoOp (rec.lsn,.stamp) := by
      rw [HeapInv.pageOps_snoc,Page.redo_append,hredo,hon]
      simp [Page.redo]
    rw [g.stampAllPagesMinLsn_view,hdr.view,hstep]
    simp only [hdr.lt,true_and,Page.redoOp,Page.applyOp,map_some]
    by_cases hl : r.lsn < rec.lsn
    · exact ⟨r.setLsn rec.lsn,by rw [if_pos (show (Cell.data r).lsn < rec.lsn from hl)]; rfl,
        by rw [if_neg (Nat.not_le.mpr hl)]⟩
    · exact ⟨r,by rw [if_neg (show ¬ (Cell.data r).lsn < rec.lsn from hl)],
        by rw [if_pos (Nat.le_of_not_lt hl)]⟩
  chain i o hs ho := by
    obtain ⟨o',ho'⟩ := hr.chain i o hs ho
    rw [g.stampAllPagesMinLsn_view,ho']
    split
    · exact ⟨_,rfl⟩
    · exact ⟨o',rfl⟩
  blank i hs hz := by
    obtain ⟨r,hv,hnil⟩ := hr.blank i hs hz
    rw [g.stampAllPagesMinLsn_view,hv]
    split
    · exact ⟨r.setLsn rec.lsn,rfl,by simpa using hnil⟩
    · exact ⟨r,rfl,hnil⟩

/-- A recovery that has applied the records `done`, against the live catalog. -/
structure Replayed (done : List WalRecord) (c r : Catalog) : Prop where
  names : r.tables.map (fun x => (x.1,x.2.schema)) = c.tables.map (fun x => (x.1,x.2.schema))
  heaps : ∀ t tbl, c.table t = some tbl →
    ∃ g, r.table t = some {tbl with heap := g} ∧ Redone t done tbl.heap g

namespace Replayed
variable {done : List WalRecord} {c r : Catalog} {rec : WalRecord} {t : String} {tbl : Table}

section
variable (hr : Replayed done c r)
include hr

lemma keys : r.tables.map Prod.fst = c.tables.map Prod.fst := by
  have := congrArg (map Prod.fst) hr.names
  simpa [Function.comp_def] using this

lemma table_none (ht : c.table t = none) : r.table t = none :=
  lookup_eq_none_iff.mpr (hr.keys ▸ lookup_eq_none_iff.mp ht)

/-- A record that concerns no page of a live table. -/
lemma same (hops : ∀ t tbl, c.table t = some tbl → ∀ i, rec.opOn t i = none) :
    Replayed (done++[rec]) c r where
  names := hr.names
  heaps t tbl ht := by
    obtain ⟨g,hg,hd⟩ := hr.heaps t tbl ht
    exact ⟨g,hg,hd.silent (.refl g) (hops t tbl ht)⟩

/-- A record that moves the heap of one table. -/
lemma setHeap (hnodup : (c.tables.map Prod.fst).Nodup)
    (ht : c.table t = some tbl) (hg : r.table t = some {tbl with heap := g})
    (hg' : Redone t (done++[rec]) tbl.heap g') (hother : ∀ t', t' ≠ t → ∀ i, rec.opOn t' i = none) :
    Replayed (done++[rec]) c (r.setHeap t g') where
  names := by
    rw [Catalog.setHeap_eq hg]
    have hsame := map_replaceKey (w := {tbl with heap := g'}) (hr.keys ▸ hnodup) hg Table.schema rfl
    exact hsame.trans hr.names
  heaps t' tbl' ht' := by
    by_cases hne : t' = t
    · subst hne
      cases ht.symm.trans ht'
      exact ⟨g',Catalog.table_setHeap_self hg g',hg'⟩
    · obtain ⟨g'',hg'',hd⟩ := hr.heaps t' tbl' ht'
      refine ⟨g'',?_,hd.silent (.refl g'') (hother t' hne)⟩
      rw [Catalog.setHeap_eq hg,Catalog.table_setTable_other r hne]
      exact hg''

/-- Replay of a record that concerns one table. -/
lemma onTable (hnodup : (c.tables.map Prod.fst).Nodup) (hother : ∀ t', t' ≠ t → ∀ i, rec.opOn t' i = none)
    (hnone : r.table t = none → run = some r)
    (hsome : ∀ tbl g, c.table t = some tbl → r.table t = some {tbl with heap := g} → Redone t done tbl.heap g →
      ∃ g', run = some (r.setHeap t g') ∧ Redone t (done++[rec]) tbl.heap g') :
    ∃ r', run = some r' ∧ Replayed (done++[rec]) c r' := by
  cases ht : c.table t with
  | none =>
    refine ⟨r,hnone (hr.table_none ht),hr.same fun t' tbl' ht' => hother t' ?_⟩
    rintro rfl
    cases ht.symm.trans ht'
  | some tbl =>
    obtain ⟨g,hg,hd⟩ := hr.heaps t tbl ht
    obtain ⟨g',hrun,hd'⟩ := hsome tbl g ht hg hd
    exact ⟨_,hrun,hr.setHeap hnodup ht hg hd' hother⟩

end

end Replayed

/-- The table a schema record names. -/
def WalRecordType.schemaTable : WalRecordType → Option String
  | .ddlCreateTable t _ | .ddlDropTable t | .ddlAddColumn t _ | .ddlDropColumn t _ => some t
  | _ => none

/-- A schema record whose effect the catalog already has. -/
def Catalog.schemaSettled (c : Catalog) : WalRecordType → Bool
  | .ddlCreateTable t _ => (c.table t).isSome
  | .ddlDropTable t => (c.table t).isNone
  | .ddlAddColumn t col => ((c.table t).map (fun tbl => tbl.hasColumn col.name)).getD true
  | .ddlDropColumn t name => ((c.table t).map (fun tbl => !tbl.hasColumn name)).getD true
  | _ => true

namespace Catalog
variable {α : Type} (codec : RowCodec α) {c r : Catalog} {done : List WalRecord} {rec : WalRecord}
  {t : String} {ceiling : ℕ}
  {i : ℕ} {op : PageOp}

/-- A row record outside the guard, on the heap of its table. -/
def redoRow (g : HeapFile) (l : ℕ) : WalRecordType → Option HeapFile
  | .insert _ rid row => do (← g.insertAt rid row).setPageLsn rid.page l
  | .update _ rid row => do
    let (newRid,h) ← g.update rid row
    let h ← if newRid = rid then some h else h.setPageLsn rid.page l
    h.setPageLsn newRid.page l
  | .delete _ rid => ((g.delete rid).getD g).setPageLsn rid.page l
  | _ => some g

/-- The three guarded arms of replay, in one. -/
lemma replayRecord_row (hop : rec.type.pageOp = some (t,i,op)) : r.replayRecord codec ceiling rec =
      match r.table t with
      | none => some r
      | some tbl =>
        if ceiling < i then none
        else if 0 < rec.lsn ∧ rec.lsn ≤ tbl.heap.pageLsn i then some r
        else (redoRow tbl.heap rec.lsn rec.type).map (r.setHeap t) := by
  obtain ⟨l,tx,type⟩ := rec
  cases type with
  | insert t' rid row =>
    cases hop
    simp only [redoRow,bind_eq_bind,map_eq_bind,bind_assoc]
    rfl
  | update t' rid row =>
    cases hop
    simp only [replayRecord,redoRow,bind_eq_bind,map_eq_bind]
    cases r.table t with
    | none => rfl
    | some tbl =>
      dsimp only
      rw [bind_assoc]
      congr 3
      funext x
      by_cases hx : x.1 = rid <;> simp [hx,bind_assoc]
  | delete t' rid =>
    cases hop
    simp only [map_eq_bind]
    rfl
  | _ => simp [WalRecordType.pageOp] at hop

/-- Redo of a row record does to the page what `redoOp` does. -/
lemma redoRow_spec
    (hop : type.pageOp = some (t,i,op)) (hd : g.DataAt i d p) (hl : ¬ l ≤ p.lsn)
    (hlen : ∀ rid row, type = .update t rid row → row.len ≤ maxRowDataSize) (hredo : p.redoOp (l,op) = some p') :
    ∃ g', redoRow g l type = some g' ∧ g.Placed g' i p' := by
  simp only [Page.redoOp,hl] at hredo
  obtain ⟨q,happ,rfl⟩ := map_eq_some_iff.mp hredo
  cases type with
  | insert t' rid row =>
    cases hop
    obtain ⟨g₁,hins,hp⟩ := HeapFile.insertAt_spec hd happ
    obtain ⟨g₂,hset,hp₂⟩ := hp.stamped hd.lt l
    exact ⟨g₂,by simp [redoRow,hins,hset],hp₂⟩
  | update t' rid row =>
    cases hop
    obtain ⟨g₁,hup,hp⟩ := HeapFile.update_inPlace_spec hd (Nat.not_lt.mpr (hlen rid row rfl)) happ
    obtain ⟨g₂,hset,hp₂⟩ := hp.stamped hd.lt l
    exact ⟨g₂,by simp [redoRow,hup,hset],hp₂⟩
  | delete t' rid =>
    cases hop
    obtain ⟨g₁,hdel,hp⟩ := HeapFile.delete_spec hd
    cases happ
    obtain ⟨g₂,hset,hp₂⟩ := hp.stamped hd.lt l
    exact ⟨g₂,by simp [redoRow,hdel,hset],hp₂⟩
  | _ => simp [WalRecordType.pageOp] at hop

lemma setHeap_self (hnodup : (r.tables.map Prod.fst).Nodup) (ht : r.table t = some tbl) :
    r.setHeap t tbl.heap = r := by
  have hsame := map_replaceKey (w := tbl) hnodup ht id rfl
  simp only [id,Prod.mk.eta,List.map_id'] at hsame
  rw [setHeap_eq ht,setTable,hsame]

lemma replayRecord_rowOp (hop : rec.type.pageOp = some (t,i,op)) (hc : CatInv c)
    (hceil : ∀ t tbl, c.table t = some tbl → tbl.heap.numPages ≤ ceiling) (hlog : c.log = done++rec::rest)
    (hr : Replayed done c r) : ∃ r', r.replayRecord codec ceiling rec = some r' ∧ Replayed (done++[rec]) c r' := by
  have hon := WalRecord.opOn_of_pageOp hop
  rw [replayRecord_row codec hop]
  refine hr.onTable (t := t) hc.nodup (fun t' hne j => by simp [hon,Ne.symm hne]) (fun hnone => by rw [hnone])
    fun tbl g ht hg hd => ?_
  have hi := hc.heaps t tbl ht
  obtain ⟨d,m,p,p',hdm,hdp,hbefore,hredo,hall⟩ := hd.next hi hlog hop
  have hrec : rec ∈ c.log := by simp [hlog]
  have hceil' : ¬ ceiling < i := Nat.not_lt.mpr (hdm.lt.le.trans (hceil t tbl ht))
  have hlsn : g.pageLsn i = p.lsn := by
    simp [HeapFile.pageLsn,hdp.lt,hdp.view,Cell.lsn,Cell.slotted]
  simp only [hg,hceil',hlsn,hc.log.pos rec hrec]
  by_cases hl : rec.lsn ≤ p.lsn
  · -- skipped: the page on disk was already past this record
    simp only [Page.redoOp,hl,if_true,some.injEq] at hredo
    subst hredo
    refine ⟨g,by simp [hl,setHeap_self (hr.keys ▸ hc.nodup) hg],hd.kept (.refl g) fun j d' m' q hd' hq => ?_⟩
    by_cases hj : j = i
    · subst hj
      obtain ⟨rfl,-⟩ := hd'.unique hdm
      cases hbefore.symm.trans hq
      exact hall
    · rw [HeapInv.pageOps_snoc,hon]
      simpa [Ne.symm hj] using hq
  · obtain ⟨g',hg',hp⟩ := redoRow_spec hop hdp hl (fun rid row he => hi.updates rec hrec rid row he) hredo
    exact ⟨g',by simp [hl,hg'],hd.placed hdm hp hall (fun j hj => by simp [hon,Ne.symm hj])⟩

lemma replayRecord_overflowWrite {next : Option ℕ}
    (htype : rec.type = .overflowWrite t i next chunk) (hc : CatInv c)
    (hceil : ∀ t tbl, c.table t = some tbl → tbl.heap.numPages ≤ ceiling) (hrec : rec ∈ c.log)
    (hr : Replayed done c r) : ∃ r', r.replayRecord codec ceiling rec = some r' ∧ Replayed (done++[rec]) c r' := by
  have hon : ∀ t' j, rec.opOn t' j = none := fun t' j => by simp [WalRecord.opOn,htype]
  simp only [replayRecord,htype]
  refine hr.onTable hc.nodup (fun t' _ => hon t') (fun hnone => by rw [hnone]) fun tbl g ht hg hd => ?_
  obtain ⟨hlt,o,ho,hle⟩ := (hc.heaps t tbl ht).written rec hrec i next chunk htype
  have hceil' : ¬ ceiling < i := Nat.not_lt.mpr (hlt.le.trans (hceil t tbl ht))
  have hskip : rec.lsn ≤ (g.reserveOverflowPage i).overflowPageLsn i := by
    have hdisk : g.disk i = .overflow o := by
      rw [hd.disk,HeapFile.openedDisk_overflow_iff]; exact ho
    have hlt' : i < (g.reserveOverflowPage i).numPages := hd.numPages ▸ hlt
    rw [HeapFile.overflowPageLsn,if_pos hlt']
    rw [show (g.reserveOverflowPage i).disk i = .overflow o from hdisk]
    exact hle
  simp only [hg,hceil',hc.log.pos rec hrec,hskip]
  exact ⟨_,rfl,hd.silent ⟨rfl,rfl,rfl⟩ (hon t)⟩

/-- A column change whose outcome the catalog file has. -/
lemma replayRecord_stamp (hc : CatInv c) (hr : Replayed done c r)
    (hon : ∀ t' i, rec.opOn t' i = if t = t' then some (rec.lsn,.stamp) else none)
    (hnone : r.table t = none → r.replayRecord codec ceiling rec = some r)
    (hsome : ∀ tbl g, c.table t = some tbl → r.table t = some {tbl with heap := g} →
      r.replayRecord codec ceiling rec = some (r.setTable t {tbl with heap := g.stampAllPagesMinLsn rec.lsn})) :
    ∃ r', r.replayRecord codec ceiling rec = some r' ∧ Replayed (done++[rec]) c r' := by
  refine hr.onTable (t := t) hc.nodup (fun t' hne i => by simp [hon,Ne.symm hne]) hnone fun tbl g ht hg hd => ?_
  exact ⟨_,(hsome tbl g ht hg).trans (by rw [setHeap_eq hg]),hd.stampAll fun i => by simp [hon]⟩

/-- Every record of the log is taken, and brings the recovery one record further. -/
lemma replayRecord_replayed (hc : CatInv c) (hsettled : c.schemaSettled rec.type = true)
    (hceil : ∀ t tbl, c.table t = some tbl → tbl.heap.numPages ≤ ceiling) (hlog : c.log = done++rec::rest)
    (hr : Replayed done c r) : ∃ r', r.replayRecord codec ceiling rec = some r' ∧ Replayed (done++[rec]) c r' := by
  have hrec : rec ∈ c.log := by simp [hlog]
  cases htype : rec.type with
  | insert t rid row | update t rid row | delete t rid =>
    exact replayRecord_rowOp codec (by rw [htype]; rfl) hc hceil hlog hr
  | overflowWrite t i next chunk => exact replayRecord_overflowWrite codec htype hc hceil hrec hr
  | overflowFree t pages =>
    have hon : ∀ t' j, rec.opOn t' j = none := fun t' j => by simp [WalRecord.opOn,htype]
    simp only [replayRecord,htype]
    refine hr.onTable hc.nodup (fun t' _ => hon t') (fun hnone => by rw [hnone]) fun tbl g ht hg hd => ?_
    exact ⟨_,by rw [hg],hd.silent (g.releaseOverflowPages_samePages pages) (hon t)⟩
  | begin | commit | rollback => exact ⟨r,by simp [replayRecord,htype],hr.same (by simp [WalRecord.opOn,htype])⟩
  | ddlCreateTable t schema =>
    obtain ⟨tbl,ht⟩ := isSome_iff_exists.mp (by simpa [schemaSettled,htype] using hsettled)
    obtain ⟨g,hg,-⟩ := hr.heaps t tbl ht
    exact ⟨r,by simp [replayRecord,htype,hg],hr.same (by simp [WalRecord.opOn,htype])⟩
  | ddlDropTable t =>
    have ht : c.table t = none := by simpa [schemaSettled,htype] using hsettled
    have hsame : swapRemove r.tables t = r.tables := swapRemove_of_lookup_none (hr.table_none ht)
    exact ⟨r,by simp only [replayRecord,htype,hsame],hr.same (by simp [WalRecord.opOn,htype])⟩
  | ddlAddColumn t col =>
    refine replayRecord_stamp codec hc hr (t := t) (fun t' i => by simp [WalRecord.opOn,htype])
      (fun hnone => by simp [replayRecord,htype,hnone]) (fun tbl g ht hg => ?_)
    have hcol : ({tbl with heap := g} : Table).hasColumn col.name = true := by
      simpa [schemaSettled,htype,ht,Table.hasColumn] using hsettled
    simp [replayRecord,htype,hg,hcol]
  | ddlDropColumn t name =>
    refine replayRecord_stamp codec hc hr (t := t) (fun t' i => by simp [WalRecord.opOn,htype])
      (fun hnone => by simp [replayRecord,htype,hnone]) (fun tbl g ht hg => ?_)
    have hcol : ({tbl with heap := g} : Table).hasColumn name = false := by
      simpa [schemaSettled,htype,ht,Table.hasColumn] using hsettled
    simp [replayRecord,htype,hg,hcol]

/-- The second pass over what is left of the log. -/
lemma replayFrom_replayed (hc : CatInv c) (hcommitted : CommittedLog c.log)
    (hsettled : ∀ rec ∈ c.log, c.schemaSettled rec.type = true)
    (hceil : ∀ t tbl, c.table t = some tbl → tbl.heap.numPages ≤ ceiling) (hlog : c.log = done++rest)
    (hr : Replayed done c r) :
    ∃ r', r.replayFrom codec c.log ceiling done.length rest = some r' ∧ Replayed c.log c r' := by
  induction rest generalizing done r with
  | nil =>
    rw [append_nil] at hlog
    exact ⟨r,rfl,hlog ▸ hr⟩
  | cons rec rest ih =>
    have hget : c.log[done.length]? = some rec := by simp [hlog]
    obtain ⟨r₁,hone,hr₁⟩ := replayRecord_replayed codec hc (hsettled rec (by simp [hlog])) hceil hlog hr
    obtain ⟨r₂,hrest,hr₂⟩ := ih (by simp [hlog] : c.log = done++[rec]++rest) hr₁
    refine ⟨r₂,?_,hr₂⟩
    rw [replayFrom,hcommitted.replayed hget]
    simpa [hone] using hrest

/-- Opening the files the catalog file names. -/
def openedTables (c : Catalog) : Catalog :=
  {c with
    tables := c.tables.map (fun x => (x.1,⟨x.2.schema,x.2.heap.opened⟩))
    nextTxId := 1
    activeTx := none
    pendingFree := []}

lemma openTables_eq (hc : CatInv c) : c.openTables = some c.openedTables := by
  have hopen : c.file.mapM (fun x => do
      let tbl ← c.table x.1
      let h ← tbl.heap.openDisk
      some (x.1,(⟨x.2,h⟩ : Table))) = some (c.tables.map fun x => (x.1,⟨x.2.schema,x.2.heap.opened⟩)) := by
    rw [hc.file,mapM_map]
    refine Lib.mapM_eq_map fun x hx => ?_
    have ht : c.table x.1 = some x.2 := Lib.lookup_of_mem hc.nodup hx
    obtain ⟨l,hl⟩ := (hc.heaps x.1 x.2 ht).super
    simp [ht,HeapFile.openDisk,hl]
  rw [openTables,hopen]
  rfl

lemma table_openedTables (ht : c.table t = some tbl) :
    c.openedTables.table t = some {tbl with heap := tbl.heap.opened} := by
  have hmap := lookup_map_value c.tables (fun x => (⟨x.schema,x.heap.opened⟩ : Table)) t
  rw [show c.tables.lookup t = some tbl from ht] at hmap
  exact hmap

lemma opened_replayed (hc : CatInv c) : Replayed [] c c.openedTables where
  names := by simp [openedTables,Function.comp_def]
  heaps t tbl ht := ⟨_,table_openedTables ht,Redone.opened (hc.heaps t tbl ht)⟩

/-- Recovery succeeds and ends in a state that has redone the whole log. -/
lemma recover_replayed (hc : CatInv c) (hcommitted : CommittedLog c.log)
    (hsettled : ∀ rec ∈ c.log, c.schemaSettled rec.type = true) :
    ∃ r, c.recover codec = some r ∧ Replayed c.log c r := by
  have hceil : ∀ t tbl, c.table t = some tbl →
      tbl.heap.numPages ≤ c.openedTables.replayPageCeiling c.log := by
    intro t tbl ht
    have hmem := mem_of_lookup (table_openedTables ht)
    have hpages : tbl.heap.numPages ∈ c.openedTables.tables.map (fun x => x.2.heap.numPages) :=
      mem_map.mpr ⟨_,hmem,tbl.heap.opened_samePages.numPages⟩
    have := le_max?_getD_of_mem (k := 0) hpages
    rw [replayPageCeiling,foldl_max]
    omega
  obtain ⟨r,hrun,hr⟩ := replayFrom_replayed codec hc hcommitted hsettled hceil
    (nil_append c.log).symm (opened_replayed hc)
  refine ⟨r,?_,hr⟩
  simp only [recover,openTables_eq hc]
  exact hrun

end Catalog

namespace HeapFile
variable {t : String} {last : ℕ} {h g : HeapFile}

/-- Chains are read off the disk, where recovery changed no overflow page. -/
lemma chunksFrom_eq (hr : Redone t log h g) (fuel : ℕ) (p : Option ℕ) :
    g.chunksFrom fuel p = h.chunksFrom fuel p := by
  induction fuel generalizing p with
  | zero => cases p <;> rfl
  | succ fuel ih =>
    cases p with
    | none => rfl
    | some i =>
      simp only [chunksFrom,hr.numPages]
      split
      · cases hc : h.disk i with
        | overflow o =>
          have hg : g.disk i = .overflow o := by rw [hr.disk,openedDisk_overflow_iff]; exact hc
          simp only [hg,ih]
        | _ =>
          cases hg : g.disk i with
          | overflow o =>
            rw [hr.disk,openedDisk_overflow_iff,hc] at hg
            cases hg
          | _ => rfl
      · rfl

/-- Page by page, recovery has the rows memory had. -/
lemma liveRows_view_eq (hi : HeapInv t log last h) (hr : Redone t log h g) (hlt : i < h.numPages) :
    (g.view i).liveRows = (h.view i).liveRows := by
  rcases Nat.eq_zero_or_pos i with rfl | hpos
  · obtain ⟨l,hl⟩ := hi.superView
    obtain ⟨l',hl'⟩ := hr.super
    rw [hl,hl']
    rfl
  · rcases hi.kinds i hpos hlt with hs | ⟨d,m,hd⟩
    · rcases hs.cell with hz | ⟨o,ho⟩
      · obtain ⟨r,hv,hnil⟩ := hr.blank i hs hz
        rw [hv,hs.view,hz]
        simp [Cell.liveRows,Cell.isOverflow,Cell.slotted,Page.liveRows,hnil]
      · obtain ⟨o',hv⟩ := hr.chain i o hs ho
        rw [hv,hs.view,ho]
        rfl
    · obtain ⟨r,hv,hredo⟩ := hr.data i d m hd
      obtain ⟨l,-,hcover⟩ := (hi.pageInv hd).cover
      cases hredo.symm.trans hcover
      rw [hv,hd.view]
      rfl

lemma liveRows_eq (hi : HeapInv t log last h) (hr : Redone t log h g) : g.liveRows = h.liveRows := by
  simp only [liveRows,hr.numPages,flatMap]
  congr 1
  exact map_congr_left (fun i hi' => liveRows_view_eq hi hr (mem_range.mp hi'))

end HeapFile

namespace Catalog
variable {α : Type} (codec : RowCodec α) {c r : Catalog}

/-- What a table is read from: its schema, its live rows and its out-of-line values. -/
def reads (c : Catalog) (t : String) : Option (Schema × List Row × (OverflowStub → Option Bytes)) :=
  (c.table t).map (fun tbl => (tbl.schema,tbl.heap.liveRows,tbl.heap.readOverflowValue))

/-- A table as stored: its schema and its decoded rows, in scan order. -/
def contents (c : Catalog) (t : String) : Option (Schema × List (Bytes × List (Option Bytes))) :=
  (c.table t).map (fun tbl => (tbl.schema,tbl.heap.decodedRows))

/-- A table as a client sees it: its schema and the column values of its rows. -/
def rowValues (c : Catalog) (t : String) : Option (Schema × List (Option (List α))) :=
  (c.table t).map (fun tbl => (tbl.schema,tbl.heap.liveRows.map
    (fun row => codec.decode tbl.schema row tbl.heap.readOverflowValue)))

lemma contents_of_reads (h : r.reads t = c.reads t) : r.contents t = c.contents t := by
  have := congrArg (Option.map (fun x : Schema × List Row × (OverflowStub → Option Bytes) =>
    (x.1,x.2.1.map (fun row => (row.body,row.stubs.map x.2.2))))) h
  rwa [reads,reads,Option.map_map,Option.map_map] at this

lemma rowValues_of_reads (h : r.reads t = c.reads t) : r.rowValues codec t = c.rowValues codec t := by
  have := congrArg (Option.map (fun x : Schema × List Row × (OverflowStub → Option Bytes) =>
    (x.1,x.2.1.map (fun row => codec.decode x.1 row x.2.2)))) h
  rwa [reads,reads,Option.map_map,Option.map_map] at this

/-- Opening a crashed directory gives back every table with its schema and rows. -/
lemma recover_reads (hc : CatInv c) (hcommitted : CommittedLog c.log)
    (hsettled : ∀ rec ∈ c.log, c.schemaSettled rec.type = true) :
    ∃ r, c.recover codec = some r ∧ ∀ t, r.reads t = c.reads t := by
  obtain ⟨r,hrec,hr⟩ := recover_replayed codec hc hcommitted hsettled
  refine ⟨r,hrec,fun t => ?_⟩
  unfold reads
  cases ht : c.table t with
  | none => rw [hr.table_none ht]
  | some tbl =>
    obtain ⟨g,hg,hd⟩ := hr.heaps t tbl ht
    rw [hg,map_some,map_some,HeapFile.liveRows_eq (hc.heaps t tbl ht) hd,
      show g.readOverflowValue = tbl.heap.readOverflowValue by
        funext s; simp only [HeapFile.readOverflowValue,hd.numPages,HeapFile.chunksFrom_eq hd]]

end Catalog
end PowDB.Storage
