import Mathlib.Data.List.Pairwise
import PowDB.Storage.IndexFiles

/-! What keeps the files of a data directory apart. Heap names and JSON-path
index names never coincide; two column indexes share a file when the separator
in the name can be read at two places. -/
namespace PowDB.Storage
open List Option Lib Lib.Directory Store Bool IndexKeySource String
variable {t : String} {dir : Lib.Directory String FileBody} {schema : Schema} {rows : List (RowId × List Value)}
  {tbl : IndexedTable}

/-- A file of the data directory by what it belongs to. -/
inductive Owner
  | heap (t : String)
  | index (t : String) (source : IndexKeySource)
  deriving DecidableEq

def Owner.fileName : Owner → String
  | heap t => heapFileName t
  | index t source => source.fileName t

lemma heapFileName_inj (h : heapFileName t = heapFileName t') : t = t' := by
  have hl := congrArg String.toList h
  simp only [heapFileName,toList_append] at hl
  apply toList_inj.mp
  apply append_cancel_right hl

lemma heapFileName_ne_fileName (t t' : String) (source : IndexKeySource) :
    heapFileName t ≠ source.fileName t' := by
  intro h
  have hl := congrArg (fun s : String => s.toList.reverse.head?) h
  cases source <;>
    simp [heapFileName,fileName,columnIndexFileName,expressionIndexFileName] at hl

lemma columnIndexFileName_ne_expression (t t' col : String) (id : ℕ) :
    columnIndexFileName t col ≠ expressionIndexFileName t' id := by
  intro h
  have hl := congrArg (fun s : String => (s.toList.reverse.take 4)) h
  simp [columnIndexFileName,expressionIndexFileName] at hl

/-- A list is cut in one way only at its first separator. -/
lemma split_at_first {α : Type} [DecidableEq α] {sep : α} {xs xs' ys ys' : List α} (h : sep ∉ xs) (h' : sep ∉ xs')
    (heq : xs++sep::ys = xs'++sep::ys') : xs = xs' ∧ ys = ys' := by
  have hcut : ∀ {zs : List α} (ws : List α), sep ∉ zs →
      (zs++sep::ws).takeWhile (· ≠ sep) = zs := by
    intro zs ws hz
    rw [takeWhile_append_of_pos]
    · simp
    · intro a ha
      simpa using fun he : a = sep => hz (he ▸ ha)
  have hxs : xs = xs' := by
    rw [← hcut ys h,heq,hcut ys' h']
  subst hxs
  simpa using heq

/-- The last underscore of the name stands right before the id. -/
lemma expressionIndexFileName_inj {t' : String} {id id' : ℕ}
    (h : expressionIndexFileName t id = expressionIndexFileName t' id') : t = t' ∧ id = id' := by
  have hl := congrArg String.toList h
  simp only [expressionIndexFileName,toList_append] at hl
  have hbody := congrArg reverse (append_cancel_right hl)
  have hu : "_".toList = ['_'] := rfl
  simp only [Nat.toList_repr,reverse_append] at hbody
  have hfree : ∀ n : ℕ, '_' ∉ (Nat.toDigits 10 n).reverse := by
    intro n hmem
    apply Nat.underscore_not_in_toDigits (mem_reverse.mp hmem)
  have hsplit := split_at_first (hfree id) (hfree id') hbody
  have hdigits := reverse_injective hsplit.1
  constructor
  · apply toList_inj.mp
    apply reverse_injective hsplit.2
  · rw [← Nat.ofDigitChars_ten_toDigits (n := id),hdigits,Nat.ofDigitChars_ten_toDigits]

namespace Store

/-- No index on another column has the file name this one would get. -/
def fileNameFree (s : Store) (t col : String) : Bool :=
  s.tables.all (fun x => x.2.indexes.all (fun ix =>
    match ix.source with
    | .column other => (x.1 = t && other = col) || columnIndexFileName x.1 other ≠ columnIndexFileName t col
    | .expression _ _ _ => true))

/-- The indexes that survive the drop of a column do not stand after it, or there are
rows, in which case their positions are looked up again. -/
def positionsKept (tbl : IndexedTable) (name : String) : Bool :=
  !tbl.rows.isEmpty || tbl.indexes.all (fun ix => ix.source.root = name ||
    ix.colIdx < (columnIndex tbl.schema name).getD 0)

/-- The heaps and indexes of the tables. -/
def owns (s : Store) : Owner → Prop
  | .heap t => ∃ tbl, s.table t = some tbl
  | .index t source => ∃ tbl, s.table t = some tbl ∧ source ∈ tbl.indexes.map Index.source

end Store

namespace Store

def tableFiles (t : String) (tbl : IndexedTable) : List String := tbl.indexes.map fun ix => ix.source.fileName t

/-- The files of all indexes. -/
def indexFiles (s : Store) : List String := s.tables.flatMap fun x => tableFiles x.1 x.2

lemma mem_indexFiles {s : Store} :
    name ∈ s.indexFiles ↔ ∃ x ∈ s.tables, ∃ ix ∈ x.2.indexes, ix.source.fileName x.1 = name := by
  simp only [indexFiles,tableFiles,mem_flatMap,List.mem_map]

end Store

/-- An index with the right position and the entries of its own table and column,
whose file is current unless it is marked dirty, and whose id was handed out. -/
structure Index.Good (pathKey : String → Value → Value) (n : ℕ) (dir : Lib.Directory String FileBody)
    (t : String) (schema : Schema) (rows : List (RowId × List Value)) (ix : Index) : Prop where
  pos : columnIndex schema ix.source.root = some ix.colIdx
  tree : ix.btree = buildFromHeap pathKey ix.source ix.unique ix.colIdx rows
  saved : ix.dirty = false → dir (ix.source.fileName t) = some (.index ix.btree)
  id_lt : ∀ id root text, ix.source = .expression id root text → id < n

structure FilesInv (pathKey : String → Value → Value) (s : Store) : Prop where
  keys : (s.tables.map Prod.fst).Nodup
  apart : s.indexFiles.Nodup
  good : ∀ x ∈ s.tables, ∀ ix ∈ x.2.indexes, ix.Good pathKey s.nextIndexId s.dir x.1 x.2.schema x.2.rows
  file : s.file = Store.metas s.tables


lemma Index.Good.frame {n' : ℕ} {ix : Index}
    (h : ix.Good pathKey n dir t schema rows) (hn : n ≤ n')
    (hdir : dir' (ix.source.fileName t) = dir (ix.source.fileName t)) : ix.Good pathKey n' dir' t schema rows :=
  ⟨h.pos,h.tree,fun hclean => hdir.trans (h.saved hclean),fun id root text he => (h.id_lt id root text he).trans_le hn⟩

section
variable (h : FilesInv pathKey s)
include h

/-- A file belongs to one index. -/
lemma FilesInv.same {x y : String × IndexedTable} (hx : x ∈ s.tables) (hy : y ∈ s.tables) {ix ix' : Index}
    (hix : ix ∈ x.2.indexes) (hix' : ix' ∈ y.2.indexes)
    (hname : ix.source.fileName x.1 = ix'.source.fileName y.1) : x = y ∧ ix = ix' := by
  obtain ⟨hin,hacross⟩ := nodup_flatMap.mp h.apart
  have : Std.Symm (Function.onFun Disjoint fun x : String × IndexedTable => tableFiles x.1 x.2) := 
    ⟨fun _ _ hd _ ha hb => hd hb ha⟩
  obtain rfl : x = y := by
    by_contra hne
    have hmem : ix.source.fileName x.1 ∈ tableFiles y.1 y.2 := hname ▸ mem_map_of_mem hix'
    exact hacross.forall hx hy hne (mem_map_of_mem hix) hmem
  exact ⟨rfl,inj_on_of_nodup_map (hin x hx) hix hix' hname⟩

/-- What a statement on one table owes: its own indexes are in order and keep clear of
the files of the others. -/
lemma FilesInv.replace
    (ht : s.table t = some tbl) (tbl' : IndexedTable) (hn : s.nextIndexId ≤ n) {file : List (String × TableMeta)}
    (hfile : file = Store.metas (Lib.replaceKey s.tables t tbl'))
    (hapart : ∀ pre post, s.indexFiles = pre++tableFiles t tbl++post → (pre++tableFiles t tbl'++post).Nodup)
    (hgood : ∀ ix ∈ tbl'.indexes, ix.Good pathKey n dir t tbl'.schema tbl'.rows)
    (hframe : ∀ x ∈ s.tables, x.1 ≠ t → ∀ ix ∈ x.2.indexes,
      dir (ix.source.fileName x.1) = s.dir (ix.source.fileName x.1)) :
    FilesInv pathKey ⟨Lib.replaceKey s.tables t tbl',n,file,dir⟩ := by
  obtain ⟨pre,post,hold,hnew⟩ := flatMap_replaceKey h.keys ht fun x => tableFiles x.1 x.2
  refine ⟨by rw [keys_replaceKey]; exact h.keys,?_,fun x hx ix hix => ?_,hfile⟩
  · rw [Store.indexFiles,hnew]
    exact hapart pre post hold
  · obtain ⟨y,hy,rfl⟩ := mem_map.mp hx
    by_cases hyt : y.1 = t
    · simp only [if_pos hyt] at hix ⊢
      exact hgood ix hix
    · simp only [if_neg hyt] at hix ⊢
      exact (h.good y hy ix hix).frame hn (hframe y hy hyt ix hix)

/-- A statement that gives the table no new index. -/
lemma FilesInv.within
    (ht : s.table t = some tbl) (tbl' : IndexedTable) {file : List (String × TableMeta)}
    (hfile : file = Store.metas (Lib.replaceKey s.tables t tbl'))
    (hsub : (tbl'.indexes.map Index.source).Sublist (tbl.indexes.map Index.source))
    (hgood : ∀ ix ∈ tbl'.indexes, ix.Good pathKey s.nextIndexId dir t tbl'.schema tbl'.rows)
    (hframe : ∀ x ∈ s.tables, x.1 ≠ t → ∀ ix ∈ x.2.indexes,
      dir (ix.source.fileName x.1) = s.dir (ix.source.fileName x.1)) :
    FilesInv pathKey ⟨Lib.replaceKey s.tables t tbl',s.nextIndexId,file,dir⟩ := by
  refine h.replace ht tbl' le_rfl hfile (fun pre post heq => ?_) hgood hframe
  have hfiles := hsub.map (fileName t)
  rw [List.map_map,List.map_map] at hfiles
  exact (heq ▸ h.apart).sublist (((Sublist.refl pre).append hfiles).append (.refl post))

lemma FilesInv.pushIndex (ht : s.table t = some tbl) (hn : s.nextIndexId ≤ n)
    (ix : Index) (hfree : ix.source.fileName t ∉ s.indexFiles)
    (hid : ∀ id root text, ix.source = .expression id root text → id < n)
    (hpos : columnIndex tbl.schema ix.source.root = some ix.colIdx)
    (htree : ix.btree = buildFromHeap pathKey ix.source ix.unique ix.colIdx tbl.rows) :
    FilesInv pathKey ({s with nextIndexId := n}.pushIndex t tbl ix) := by
  have hframe : ∀ x ∈ s.tables, ∀ ix' ∈ x.2.indexes,
      s.dir.write (ix.source.fileName t) (.index ix.btree) (ix'.source.fileName x.1) =
        s.dir (ix'.source.fileName x.1) := by
    intro x hx ix' hix'
    refine write_of_ne _ (fun heq => hfree ?_) _
    exact mem_indexFiles.mpr ⟨x,hx,ix',hix',heq⟩
  refine h.replace ht {tbl with indexes := tbl.indexes++[ix]} hn rfl (fun pre post heq => ?_) (fun ix' hix' => ?_)
    (fun x hx _ => hframe x hx)
  · have hfiles : pre++tableFiles t {tbl with indexes := tbl.indexes++[ix]}++post =
        (pre++tableFiles t tbl)++ix.source.fileName t::post := by simp [tableFiles]
    rw [hfiles,nodup_middle,nodup_cons,← heq]
    exact ⟨hfree,h.apart⟩
  · rcases mem_append.mp hix' with hix' | hix'
    · have hmem := mem_of_lookup ht
      exact (h.good _ hmem ix' hix').frame hn (hframe _ hmem ix' hix')
    · rw [mem_singleton.mp hix']
      exact ⟨hpos,htree,fun _ => write_self _ _ _,hid⟩

lemma createIndexUnique_inv {col : String} (hok : s.fileNameFree t col)
    (hstep : s.createIndexUnique pathKey t col unique = some s') : FilesInv pathKey s' := by
  simp only [Store.createIndexUnique,bind_eq_bind,bind_eq_some_iff] at hstep
  obtain ⟨tbl,ht,colIdx,hcol,hstep⟩ := hstep
  split at hstep
  · cases hstep
    exact ⟨h.keys,h.apart,h.good,rfl⟩
  · rename_i hnone
    cases hstep
    apply h.pushIndex ht le_rfl ⟨.column col,colIdx,unique,_,false⟩ ?_ (by simp) hcol rfl
    intro hmem
    obtain ⟨⟨t',tbl'⟩,hx,ix,hix,hname⟩ := mem_indexFiles.mp hmem
    cases hs : ix.source with
    | expression id root text =>
      rw [hs] at hname
      exact columnIndexFileName_ne_expression t t' col id hname.symm
    | column other =>
      rw [hs] at hname
      have hfree := all_eq_true.mp (all_eq_true.mp hok (t',tbl') hx) ix hix
      simp only [hs,Bool.or_eq_true,Bool.and_eq_true,decide_eq_true_eq] at hfree
      rcases hfree with ⟨rfl,rfl⟩ | hne
      · -- the column is indexed already, at the position it has now
        cases ht.symm.trans (lookup_of_mem h.keys hx)
        have hpos := (h.good _ hx ix hix).pos
        rw [hs] at hpos
        apply hnone
        rw [List.any_eq_true]
        refine ⟨ix,hix,?_⟩
        rw [hs,some.inj (hpos.symm.trans hcol)]
        simp [IndexKeySource.isColumn]
      · exact hne hname

lemma createExpressionIndexMetadata_inv {root text : String} {unique : Bool}
    (hstep : s.createExpressionIndexMetadata pathKey t root text unique = some s') : FilesInv pathKey s' := by
  simp only [Store.createExpressionIndexMetadata,bind_eq_bind] at hstep
  split at hstep
  · cases hstep
  · simp only [bind_eq_some_iff] at hstep
    obtain ⟨tbl,ht,colIdx,hcol,col,-,hstep⟩ := hstep
    split at hstep
    · cases hstep
    · cases hstep
      have hfree : (expression s.nextIndexId root text).fileName t ∉ s.indexFiles := by
        intro hmem
        obtain ⟨x,hx,ix,hix,hname⟩ := mem_indexFiles.mp hmem
        cases hs : ix.source with
        | column other => exact columnIndexFileName_ne_expression x.1 t other _ (hs ▸ hname)
        | expression id root' text' =>
          have hlt := (h.good x hx ix hix).id_lt id root' text' hs
          rw [hs] at hname
          have hid := (expressionIndexFileName_inj hname).2
          omega
      have hpush := h.pushIndex ht (Nat.le_succ _)
        ⟨.expression s.nextIndexId root text,colIdx,unique,
          buildFromHeap pathKey (.expression s.nextIndexId root text) unique colIdx tbl.rows,false⟩
        hfree (by simp) hcol rfl
      simpa [Store.pushIndex,Lib.Directory.write,Lib.Directory.remove,Store.setTable] using hpush

lemma dropExpressionIndex_inv {id : ℕ} (hstep : s.dropExpressionIndex t id = some s') :
    FilesInv pathKey s' := by
  simp only [Store.dropExpressionIndex,bind_eq_bind] at hstep
  split at hstep
  · cases hstep
  · simp only [bind_eq_some_iff] at hstep
    obtain ⟨tbl,ht,hstep⟩ := hstep
    split at hstep
    · cases hstep
    · rename_i hany
      cases hstep
      obtain ⟨ix,hix,hhas⟩ := any_eq_true.mp (by simpa using hany)
      obtain ⟨gone,pre,post,-,hgone,hsplit,herase⟩ := exists_of_eraseP hix hhas
      have hname : gone.source.fileName t = expressionIndexFileName t id := by
        simp only [Index.hasId] at hgone
        split at hgone
        · cases hgone
        · rename_i hs
          rw [hs,fileName,of_decide_eq_true hgone]
      have hmem := mem_of_lookup ht
      have hmine : gone ∈ tbl.indexes := by simp [hsplit]
      apply h.within ht {tbl with indexes := tbl.indexes.eraseP (Index.hasId id)} rfl
      · exact (eraseP_sublist).map _
      · intro ix' hix'
        refine (h.good _ hmem ix' (mem_of_mem_eraseP hix')).frame le_rfl (remove_of_ne _ fun heq => ?_)
        have hnodup := (nodup_flatMap.mp h.apart).1 _ hmem
        rw [tableFiles,hsplit,map_append,map_cons,nodup_middle,← map_append,← herase] at hnodup
        apply (nodup_cons.mp hnodup).1
        rw [hname,← heq]
        exact mem_map_of_mem hix'
      · intro x hx hne ix' hix'
        refine remove_of_ne _ fun heq => hne ?_
        rw [(h.same hx hmem hix' hmine (heq.trans hname.symm)).1]

end

lemma maintainIndex_good (h : ix.Good pathKey n dir t schema rows) (x : RowId × List Value) :
    (Store.maintainIndex pathKey x ix).Good pathKey n dir t schema (rows++[x]) := by
  refine ⟨h.pos,?_,fun hclean => ?_,h.id_lt⟩
  · simp only [Store.maintainIndex,buildFromHeap,foldl_append]
    rw [h.tree]
    rfl
  · simp only [Store.maintainIndex,or_eq_false_iff,not_eq_false',decide_eq_false_iff_not] at hclean
    obtain ⟨⟨hclean,hcolumn⟩,hempty⟩ := hclean
    have hsame : maintainOnInsert pathKey ix.source ix.unique ix.colIdx ix.btree x = ix.btree := by
      simp [maintainOnInsert,hempty,hcolumn]
    simp only [Store.maintainIndex,hsame]
    exact h.saved hclean

section
variable (h : FilesInv pathKey s)
include h

lemma insert_inv
    (hstep : s.insert pathKey t rid row = some s') : FilesInv pathKey s' := by
  simp only [Store.insert,bind_eq_bind,bind_eq_some_iff] at hstep
  obtain ⟨tbl,ht,hstep⟩ := hstep
  split at hstep
  · cases hstep
  · cases hstep
    apply h.within ht ⟨tbl.schema,tbl.rows++[(rid,row)],
      tbl.indexes.map (Store.maintainIndex pathKey (rid,row))⟩
    · rw [h.file]
      symm
      apply map_replaceKey h.keys ht (fun tbl : IndexedTable =>
        (⟨tbl.schema,tbl.indexes.map (fun ix => (ix.source,ix.unique))⟩ : TableMeta))
      simp [Store.maintainIndex]
    · rw [List.map_map]
      exact List.Sublist.refl _
    · intro ix hix
      obtain ⟨old,hold,rfl⟩ := mem_map.mp hix
      exact maintainIndex_good (h.good _ (mem_of_lookup ht) old hold) (rid,row)
    · exact fun _ _ _ _ _ => rfl

/-- A statement that adds or removes tables: those that stay keep their index files. -/
lemma FilesInv.retable {tables : List (String × IndexedTable)} (hkeys : (tables.map Prod.fst).Nodup)
    (hapart : (tables.flatMap fun x => tableFiles x.1 x.2).Nodup)
    (hold : ∀ x ∈ tables, x ∈ s.tables ∨ x.2.indexes = [])
    (hframe : ∀ x ∈ tables, ∀ ix ∈ x.2.indexes, dir (ix.source.fileName x.1) = s.dir (ix.source.fileName x.1)) :
    FilesInv pathKey ⟨tables,s.nextIndexId,Store.metas tables,dir⟩ := by
  refine ⟨hkeys,hapart,fun x hx ix hix => ?_,rfl⟩
  rcases hold x hx with hold | hnil
  · exact (h.good x hold ix hix).frame le_rfl (hframe x hx ix hix)
  · rw [hnil] at hix
    cases hix

lemma createTable_inv (hstep : s.createTable t schema = some s') : FilesInv pathKey s' := by
  simp only [Store.createTable] at hstep
  split at hstep
  · cases hstep
  · cases ht : s.table t with
    | some _ => simp [ht] at hstep
    | none =>
      simp only [ht,some.injEq] at hstep
      subst hstep
      apply h.retable
      · rw [map_append,map_cons,map_nil,← concat_eq_append]
        exact h.keys.concat (lookup_eq_none_iff.mp ht)
      · simpa [tableFiles,Store.indexFiles] using h.apart
      · intro x hx
        refine (mem_append.mp hx).imp_right fun hx => ?_
        rw [mem_singleton.mp hx]
      · intro x hx ix hix
        apply write_of_ne
        exact (heapFileName_ne_fileName t x.1 ix.source).symm

lemma dropTable_inv (hstep : s.dropTable t = some s') : FilesInv pathKey s' := by
  simp only [Store.dropTable] at hstep
  split at hstep
  · cases hstep
  · cases ht : s.table t with
    | none => simp [ht] at hstep
    | some tbl =>
      simp only [ht,some.injEq] at hstep
      subst hstep
      have hgone := swapRemove_keys_nodup h.keys ht
      have hperm := swapRemove_perm h.keys ht
      have hold : ∀ x ∈ Lib.swapRemove s.tables t, x ∈ s.tables :=
        fun x hx => hperm.mem_iff.mpr (mem_cons_of_mem _ hx)
      have hfiles := hperm.flatMap_right fun x => tableFiles x.1 x.2
      rw [flatMap_cons] at hfiles
      apply h.retable hgone.2 (nodup_append.mp (hfiles.nodup h.apart)).2.1 (fun x hx => .inl (hold x hx))
      intro x hx ix hix
      have hkept : ix.source.fileName x.1 ∉ tbl.indexes.map (fun ix => ix.source.fileName t) := by
        intro hmem
        obtain ⟨old,hix',hname⟩ := mem_map.mp hmem
        obtain ⟨rfl,-⟩ := h.same (hold x hx) (mem_of_lookup ht) hix hix' hname.symm
        exact hgone.1 (mem_map_of_mem hx)
      apply (removeAll_of_notMem _ hkept).trans
      apply remove_of_ne
      exact (heapFileName_ne_fileName t x.1 ix.source).symm

end


/-- Columns before a dropped one keep their positions. -/
lemma columnIndex_eraseP {root : String} {i j : ℕ} (hroot : columnIndex schema root = some i)
    (hname : columnIndex schema name = some j) (hlt : i < j) :
    columnIndex (schema.eraseP (·.name = name)) root = some i := by
  induction schema generalizing i j with
  | nil => simp [columnIndex] at hroot
  | cons col schema ih =>
    simp only [columnIndex,findIdx?_cons] at hroot hname ih
    by_cases hn : col.name = name
    · simp only [hn,decide_true,if_true,some.injEq] at hname
      omega
    · simp only [hn,decide_false,false_eq_true,if_false,map_eq_some_iff] at hname
      obtain ⟨j',hj',rfl⟩ := hname
      rw [eraseP_cons_of_neg (by simpa using hn)]
      simp only [columnIndex,findIdx?_cons]
      by_cases hr : col.name = root
      · simpa [hr] using hroot
      · simp only [hr,decide_false,false_eq_true,if_false,map_eq_some_iff] at hroot ⊢
        obtain ⟨i',hi',rfl⟩ := hroot
        exact ⟨i',ih hi' hj' (by omega),rfl⟩

/-- The files removed with a column belong to the indexes on it. -/
lemma kept_notMem_doomed (h : FilesInv pathKey s) (ht : (t,tbl) ∈ s.tables) {x : String × IndexedTable}
    (hx : x ∈ s.tables) {ix : Index} (hix : ix ∈ x.2.indexes) (hkept : x.1 ≠ t ∨ ix.source.root ≠ name) :
    ix.source.fileName x.1 ∉ (tbl.indexes.filter (fun ix => ix.source.root = name)).map
      (fun ix => ix.source.fileName t) := by
  intro hmem
  obtain ⟨old,hold,hname⟩ := mem_map.mp hmem
  rw [mem_filter,decide_eq_true_eq] at hold
  obtain ⟨rfl,rfl⟩ := h.same hx ht hix hold.1 hname.symm
  rcases hkept with hne | hne
  · exact hne rfl
  · exact hne hold.2

/-- What rebuilding makes of an index: the same source over the new rows. -/
lemma rebuildIndex_spec {ix ix' : Index} (h : Store.rebuildIndex pathKey schema rows dirty ix = some ix') :
    ix'.source = ix.source ∧ ix'.dirty = dirty ∧ columnIndex schema ix'.source.root = some ix'.colIdx ∧
      ix'.btree = buildFromHeap pathKey ix'.source ix'.unique ix'.colIdx rows := by
  simp only [Store.rebuildIndex,bind_eq_bind,bind_eq_some_iff] at h
  obtain ⟨colIdx,hcol,h⟩ := h
  split at h
  · cases h
  · cases h
    exact ⟨rfl,rfl,hcol,rfl⟩

lemma rebuildIndex_sources {ixs ixs' : List Index}
    (h : ixs.mapM (Store.rebuildIndex pathKey schema rows dirty) = some ixs') :
    ixs'.map Index.source = ixs.map Index.source := by
  induction ixs generalizing ixs' with
  | nil =>
    cases h
    rfl
  | cons ix ixs ih =>
    simp only [mapM_cons,Option.pure_def,bind_eq_bind,bind_eq_some_iff,
      Option.some.injEq] at h
    obtain ⟨ix',hix,rest,hrest,rfl⟩ := h
    rw [map_cons,map_cons,ih hrest,(rebuildIndex_spec hix).1]

/-- After the rewrite the surviving indexes are built over the new rows; column trees
are saved at once, and all trees are left dirty when there are JSON-path indexes. -/
lemma FilesInv.rebuilt (h : FilesInv pathKey s) (ht : s.table t = some tbl)
    {known indexes : List Index}
    (hknown : known.Sublist (tbl.indexes.filter (not ∘ fun ix => decide (ix.source.root = name))))
    (hcolumns : dirty = false → ∀ ix ∈ known, ix.source.isColumn = true)
    (hmapM : known.mapM (Store.rebuildIndex pathKey schema rows dirty) = some indexes) :
    FilesInv pathKey ⟨Lib.replaceKey s.tables t ⟨schema,rows,indexes⟩,s.nextIndexId,
      Store.metas (Lib.replaceKey s.tables t ⟨schema,rows,indexes⟩),
      (s.dir.writeAll ((heapFileName t,.heap rows)::(indexes.filter (·.source.isColumn)).map
        (fun ix => (ix.source.fileName t,.index ix.btree)))).removeAll
          ((tbl.indexes.filter (fun ix => ix.source.root = name)).map (fun ix => ix.source.fileName t))⟩ := by
  have hsub : (indexes.map Index.source).Sublist (tbl.indexes.map Index.source) := by
    rw [rebuildIndex_sources hmapM]
    exact (hknown.trans filter_sublist).map _
  have hmem := mem_of_lookup ht
  have hnodup : (indexes.map fun ix => ix.source.fileName t).Nodup := by
    have hfiles := hsub.map (IndexKeySource.fileName t)
    rw [List.map_map,List.map_map] at hfiles
    exact ((nodup_flatMap.mp h.apart).1 _ hmem).sublist hfiles
  apply h.within ht ⟨schema,rows,indexes⟩ rfl hsub
  · intro ix hix
    obtain ⟨old,hold,hre⟩ := mem_mapM_some hmapM hix
    obtain ⟨hsource,hdirty,hpos,htree⟩ := rebuildIndex_spec hre
    obtain ⟨hmine,hkept⟩ := mem_filter.mp (hknown.subset hold)
    simp only [Function.comp_apply,Bool.not_eq_true',decide_eq_false_iff_not] at hkept
    refine ⟨hpos,htree,fun hclean => ?_,hsource ▸ (h.good _ hmem old hmine).id_lt⟩
    rw [removeAll_of_notMem _ (hsource ▸ kept_notMem_doomed h hmem hmem hmine (.inr hkept))]
    have hcolumn : ix.source.isColumn = true := by
      rw [hsource]
      exact hcolumns (hdirty.symm.trans hclean) old hold
    apply writeAll_of_mem
    · apply mem_cons_of_mem
      exact mem_map.mpr ⟨ix,mem_filter.mpr ⟨hix,hcolumn⟩,rfl⟩
    · intro body hbody
      rcases mem_cons.mp hbody with heq | hbody
      · exact absurd (congrArg Prod.fst heq).symm (heapFileName_ne_fileName t t ix.source)
      · obtain ⟨ix',hix',heq⟩ := mem_map.mp hbody
        obtain ⟨hname,rfl⟩ := Prod.mk.inj heq
        rw [inj_on_of_nodup_map hnodup (mem_filter.mp hix').1 hix hname]
  · intro x hx hne ix' hix'
    rw [removeAll_of_notMem _ (kept_notMem_doomed h hmem hx hix' (.inl hne))]
    apply writeAll_of_notMem
    intro body hbody
    rcases mem_cons.mp hbody with heq | hbody
    · exact heapFileName_ne_fileName t x.1 ix'.source (congrArg Prod.fst heq).symm
    · obtain ⟨ix,hix,heq⟩ := mem_map.mp hbody
      obtain ⟨old,hold,hsource⟩ := mem_map.mp (hsub.subset (mem_map_of_mem (mem_filter.mp hix).1))
      rw [← hsource] at heq
      obtain ⟨rfl,-⟩ := h.same hx hmem hix' hold (congrArg Prod.fst heq).symm
      exact hne rfl

lemma alterTableDropColumn_inv (h : FilesInv pathKey s) {rids : List RowId}
    (hok : ((s.table t).map (Store.positionsKept · name)).getD true = true)
    (hstep : s.alterTableDropColumn pathKey t name rids = some s') : FilesInv pathKey s' := by
  simp only [Store.alterTableDropColumn,Option.bind_eq_bind,Option.bind_eq_some_iff] at hstep
  obtain ⟨tbl,ht,hstep⟩ := hstep
  rw [ht] at hok
  simp only [Option.map_some,Option.getD_some,Store.positionsKept,or_eq_true,
    List.all_eq_true,decide_eq_true_eq] at hok
  split at hstep
  · cases hstep
  · rename_i hsome
    obtain ⟨j,hj⟩ := Option.ne_none_iff_exists'.mp (by simpa using hsome)
    simp only [List.partition_eq_filter_filter] at hstep
    split at hstep
    · rename_i hempty
      cases hstep
      apply h.within ht ⟨tbl.schema.eraseP (·.name = name),tbl.rows,
        tbl.indexes.filter (not ∘ fun ix => decide (ix.source.root = name))⟩ rfl
      · exact List.filter_sublist.map _
      · intro ix hix
        simp only [List.mem_filter,Function.comp_apply,not_eq_true',decide_eq_false_iff_not] at hix
        have hmem := mem_of_lookup ht
        have hgood := h.good _ hmem ix hix.1
        have hlt : ix.colIdx < j := by
          rcases hok with hrows | hall
          · simp [hempty] at hrows
          · rcases hall ix hix.1 with hroot | hlt
            · exact absurd hroot hix.2
            · simpa [hj] using hlt
        have hframe := removeAll_of_notMem s.dir (kept_notMem_doomed h hmem hmem hix.1 (.inr hix.2))
        exact ⟨columnIndex_eraseP hgood.pos hj hlt,hgood.tree,
          fun hclean => hframe.trans (hgood.saved hclean),hgood.id_lt⟩
      · intro x hx hne ix hix
        exact removeAll_of_notMem s.dir (kept_notMem_doomed h (mem_of_lookup ht) hx hix (.inl hne))
    · split at hstep
      · cases hstep
      · simp only [Option.bind_eq_some_iff] at hstep
        obtain ⟨indexes,hmapM,hstep⟩ := hstep
        cases hstep
        apply h.rebuilt ht List.filter_sublist ?_ hmapM
        intro hpaths ix hix
        have hnot := List.any_eq_false.mp hpaths ix (List.mem_filter.mp hix).1
        simpa using hnot

end PowDB.Storage
