import PowDB.Storage.FileInv

/-! Runs of schema and index statements, checkpoints and reopenings, and what
the files of the data directory hold along them. -/
namespace PowDB.Storage
open List Lib.Directory Store BTree
variable {t : String} {dir : Lib.Directory String FileBody}

inductive FileStep
  | createTable (t : String) (schema : Schema)
  | dropTable (t : String)
  | createIndexUnique (t col : String) (unique : Bool)
  | createExpressionIndex (t root text : String) (unique : Bool)
  | dropExpressionIndex (t : String) (id : ℕ)
  | alterTableDropColumn (t name : String) (rids : List RowId)
  | insert (t : String) (rid : RowId) (row : List Value)
  | checkpoint
  | reopen
  deriving DecidableEq

namespace Store
variable (pathKey : String → Value → Value)

def step (s : Store) : FileStep → Option Store
  | .createTable t schema => s.createTable t schema
  | .dropTable t => s.dropTable t
  | .createIndexUnique t col unique => s.createIndexUnique pathKey t col unique
  | .createExpressionIndex t root text unique =>
    s.createExpressionIndexMetadata pathKey t root text unique
  | .dropExpressionIndex t id => s.dropExpressionIndex t id
  | .alterTableDropColumn t name rids => s.alterTableDropColumn pathKey t name rids
  | .insert t rid row => s.insert pathKey t rid row
  | .checkpoint => some s.checkpoint
  | .reopen => s.reopen pathKey

def run (s : Store) : List FileStep → Option Store
  | [] => some s
  | x::xs => do (← s.step pathKey x).run xs

/-- An empty data directory. -/
def fresh : Store := ⟨[],1,[],fun _ => none⟩

def stepOk (s : Store) : FileStep → Bool
  | .createIndexUnique t col _ => s.fileNameFree t col
  | .alterTableDropColumn t name _ => ((s.table t).map (positionsKept · name)).getD true
  | _ => true

def runOk (s : Store) : List FileStep → Bool
  | [] => true
  | x::xs => s.stepOk x && ((s.step pathKey x).map (fun s => s.runOk xs)).getD true

end Store

variable {pathKey : String → Value → Value} {s : Store}

namespace Store

/-- A table with all its indexes marked clean. -/
def clean (tbl : IndexedTable) : IndexedTable :=
  {tbl with indexes := tbl.indexes.map (fun ix => {ix with dirty := false})}

lemma checkpoint_table (t : String) : s.checkpoint.table t = (s.table t).map clean :=
  Lib.lookup_map_value s.tables clean t

lemma mem_checkpoint (hx : x ∈ s.checkpoint.tables) :
    ∃ tbl, (x.1,tbl) ∈ s.tables ∧ x.2 = clean tbl := by
  obtain ⟨y,hy,rfl⟩ := mem_map.mp hx
  exact ⟨y.2,hy,rfl⟩

lemma checkpoint_metas : metas s.checkpoint.tables = metas s.tables := by
  simp [metas,checkpoint,Function.comp_def]

lemma mem_dirtyFiles :
    (name,body) ∈ dirtyFiles x ↔ (name = heapFileName x.1 ∧ body = .heap x.2.rows) ∨
      ∃ ix ∈ x.2.indexes, ix.dirty = true ∧ name = ix.source.fileName x.1 ∧ body = .index ix.btree := by
  simp only [dirtyFiles,mem_cons,mem_map,mem_filter,Prod.mk.injEq,and_assoc]
  apply or_congr Iff.rfl
  apply exists_congr
  intro ix
  rw [eq_comm (a := name),eq_comm (a := body)]

end Store

/-- A checkpoint writes every heap as it is in memory. -/
lemma checkpoint_heap (h : FilesInv pathKey s) (ht : (t,tbl) ∈ s.tables) :
    s.checkpoint.dir (heapFileName t) = some (.heap tbl.rows) := by
  apply writeAll_of_mem
  · apply mem_flatMap.mpr
    exact ⟨(t,tbl),ht,mem_dirtyFiles.mpr (.inl ⟨rfl,rfl⟩)⟩
  · intro body hbody
    obtain ⟨⟨t',tbl'⟩,hx,hfile⟩ := mem_flatMap.mp hbody
    rcases mem_dirtyFiles.mp hfile with ⟨hname,rfl⟩ | ⟨ix,-,-,hname,-⟩
    · cases heapFileName_inj hname
      cases inj_on_of_nodup_map h.keys ht hx rfl
      rfl
    · exact absurd hname (heapFileName_ne_fileName t t' ix.source)

/-- After a checkpoint the file of every index holds its tree. -/
lemma checkpoint_index (h : FilesInv pathKey s) (ht : (t,tbl) ∈ s.tables)
    (hix : ix ∈ tbl.indexes) : s.checkpoint.dir (ix.source.fileName t) = some (.index ix.btree) := by
  -- every dirty file of that name is this index's
  have hone : ∀ body, (ix.source.fileName t,body) ∈ s.tables.flatMap Store.dirtyFiles →
      ix.dirty = true ∧ body = .index ix.btree := by
    intro body hbody
    obtain ⟨⟨t',tbl'⟩,hx,hfile⟩ := mem_flatMap.mp hbody
    rcases mem_dirtyFiles.mp hfile with ⟨hname,-⟩ | ⟨ix',hix',hdirty,hname,rfl⟩
    · exact absurd hname.symm (heapFileName_ne_fileName t' t ix.source)
    · obtain ⟨-,rfl⟩ := h.same ht hx hix hix' hname
      exact ⟨hdirty,rfl⟩
  cases hd : ix.dirty with
  | true =>
    apply writeAll_of_mem _ _ (fun body hbody => (hone body hbody).2)
    apply mem_flatMap.mpr
    exact ⟨(t,tbl),ht,mem_dirtyFiles.mpr (.inr ⟨ix,hix,hd,rfl,rfl⟩)⟩
  | false =>
    have hskip := writeAll_of_notMem s.dir (fun body hbody =>
      Bool.false_ne_true (hd.symm.trans (hone body hbody).1))
    exact hskip.trans ((h.good _ ht ix hix).saved hd)

lemma checkpoint_inv (h : FilesInv pathKey s) : FilesInv pathKey s.checkpoint := by
  refine ⟨?_,?_,fun x hx ix' hix' => ?_,?_⟩
  · simpa [Store.checkpoint,Function.comp_def] using h.keys
  · simpa [Store.indexFiles,tableFiles,Store.checkpoint,flatMap_map,Function.comp_def] using h.apart
  · obtain ⟨tbl,ht,heq⟩ := mem_checkpoint hx
    rw [heq] at hix' ⊢
    obtain ⟨ix,hix,rfl⟩ := mem_map.mp hix'
    have hgood := h.good _ ht ix hix
    have hsaved := checkpoint_index h ht hix
    exact ⟨hgood.pos,hgood.tree,fun _ => hsaved,hgood.id_lt⟩
  · rw [checkpoint_metas]
    exact h.file

lemma buildFromHeap_formatVersion (source : IndexKeySource) (unique : Bool) (colIdx : ℕ)
    (rows : List (RowId × List Value)) : (buildFromHeap pathKey source unique colIdx rows).formatVersion =
      (create source unique).formatVersion := by
  have hstep : ∀ (bt : BTree) x,
      (maintainOnInsert pathKey source unique colIdx bt x).formatVersion = bt.formatVersion := by
    intro bt x
    simp only [maintainOnInsert]
    split
    · split <;> rfl
    · rfl
  unfold buildFromHeap
  generalize create source unique = bt
  induction rows generalizing bt with
  | nil => rfl
  | cons x rows ih => exact (ih _).trans (hstep bt x)

lemma loadIndex_good (h : ix.Good pathKey n dir t schema rows)
    (hclean : ix.dirty = false) :
    Store.loadIndex pathKey t schema rows (ix.source,ix.unique) dir = some ([ix],dir) := by
  have hversion : ix.btree.formatVersion = (create ix.source ix.unique).formatVersion := by
    rw [h.tree]
    exact buildFromHeap_formatVersion _ _ _ _
  have hcurrent : ¬(ix.source.isColumn && !ix.unique && decide (ix.btree.formatVersion < 3)) = true := by
    rw [hversion]
    cases ix.source <;> cases ix.unique <;> simp [IndexKeySource.isColumn,create]
  have hreadable : ¬(!ix.source.isColumn && decide (ix.btree.formatVersion < 2)) = true := by
    rw [hversion]
    cases ix.source <;> cases ix.unique <;> simp [IndexKeySource.isColumn,create]
  simp only [Store.loadIndex,h.pos,h.saved hclean,if_neg hcurrent,if_neg hreadable]
  rw [← hclean]

lemma loadIndexes_good
    (h : ∀ ix ∈ ixs, ix.Good pathKey n dir t schema rows ∧ ix.dirty = false) :
    Store.loadIndexes pathKey t schema rows (ixs.map (fun ix => (ix.source,ix.unique))) dir =
      some (ixs,dir) := by
  induction ixs with
  | nil => rfl
  | cons ix ixs ih =>
    have hhead := h ix mem_cons_self
    have htail := ih (fun ix' hix' => h ix' (mem_cons_of_mem _ hix'))
    simp only [map_cons,Store.loadIndexes,loadIndex_good hhead.1 hhead.2,Option.bind_eq_bind,
      Option.bind_some,htail,singleton_append]

lemma openTables_good {tables : List (String × IndexedTable)}
    (h : ∀ x ∈ tables, dir (heapFileName x.1) = some (.heap x.2.rows) ∧
      ∀ ix ∈ x.2.indexes, ix.Good pathKey n dir x.1 x.2.schema x.2.rows ∧ ix.dirty = false) :
    Store.openTables pathKey (Store.metas tables) dir = some (tables,dir) := by
  induction tables with
  | nil => rfl
  | cons x tables ih =>
    obtain ⟨hheap,hixs⟩ := h x mem_cons_self
    have htail := ih (fun y hy => h y (mem_cons_of_mem _ hy))
    simp only [Store.metas] at htail
    simp only [Store.metas,map_cons,Store.openTables,hheap,loadIndexes_good hixs,
      Option.bind_eq_bind,Option.bind_some,htail]

/-- Closing and opening gives back the tables and indexes as they were. -/
lemma reopen_eq (h : FilesInv pathKey s) : s.reopen pathKey = some s.checkpoint := by
  have hinv := checkpoint_inv h
  have hopen : Store.openTables pathKey s.checkpoint.file s.checkpoint.dir =
      some (s.checkpoint.tables,s.checkpoint.dir) := by
    rw [hinv.file]
    apply openTables_good
    intro x hx
    obtain ⟨tbl,ht,heq⟩ := mem_checkpoint hx
    have hheap := checkpoint_heap h ht
    refine ⟨by rw [heq]; exact hheap,fun ix hix => ⟨hinv.good x hx ix hix,?_⟩⟩
    rw [heq] at hix
    obtain ⟨old,-,rfl⟩ := mem_map.mp hix
    rfl
  simp only [Store.reopen,hopen]
  rfl

lemma step_inv (h : FilesInv pathKey s) (hok : s.stepOk x = true)
    (hstep : s.step pathKey x = some s') : FilesInv pathKey s' := by
  cases x with
  | createTable t schema => exact createTable_inv h hstep
  | dropTable t => exact dropTable_inv h hstep
  | createIndexUnique t col unique => exact createIndexUnique_inv h hok hstep
  | createExpressionIndex t root text unique => exact createExpressionIndexMetadata_inv h hstep
  | dropExpressionIndex t id => exact dropExpressionIndex_inv h hstep
  | alterTableDropColumn t name rids => exact alterTableDropColumn_inv h hok hstep
  | insert t rid row => exact insert_inv h hstep
  | checkpoint =>
    cases hstep
    exact checkpoint_inv h
  | reopen =>
    cases (reopen_eq h).symm.trans hstep
    exact checkpoint_inv h

lemma run_inv (h : FilesInv pathKey s) (hok : s.runOk pathKey xs = true)
    (hrun : s.run pathKey xs = some s') : FilesInv pathKey s' := by
  induction xs generalizing s with
  | nil =>
    cases hrun
    exact h
  | cons x xs ih =>
    simp only [Store.run,Option.bind_eq_bind,Option.bind_eq_some_iff] at hrun
    obtain ⟨mid,hstep,hrun⟩ := hrun
    simp only [Store.runOk,hstep,Option.map_some,Option.getD_some,Bool.and_eq_true] at hok
    exact ih (step_inv h hok.1 hstep) hok.2 hrun

lemma fresh_inv : FilesInv pathKey Store.fresh := ⟨nodup_nil,nodup_nil,nofun,rfl⟩

/-- Two owners do not share a file name. -/
lemma FilesInv.owner_eq (h : FilesInv pathKey s) (ho : s.owns o) (ho' : s.owns o')
    (hname : o.fileName = o'.fileName) : o = o' := by
  cases o with
  | heap t =>
    cases o' with
    | heap t' => rw [heapFileName_inj hname]
    | index t' source => exact absurd hname (heapFileName_ne_fileName t t' source)
  | index t source =>
    cases o' with
    | heap t' => exact absurd hname.symm (heapFileName_ne_fileName t' t source)
    | index t' source' =>
      obtain ⟨tbl,ht,hsrc⟩ := ho
      obtain ⟨tbl',ht',hsrc'⟩ := ho'
      obtain ⟨ix,hix,rfl⟩ := mem_map.mp hsrc
      obtain ⟨ix',hix',rfl⟩ := mem_map.mp hsrc'
      obtain ⟨heq,rfl⟩ := h.same (Lib.mem_of_lookup ht) (Lib.mem_of_lookup ht') hix hix' hname
      cases heq
      rfl

lemma mem_maintainOnInsert
    : (key,rid) ∈ (maintainOnInsert pathKey source false colIdx bt x).entries ↔
      (key,rid) ∈ bt.entries ∨ key ≠ .empty ∧ rid = x.1 ∧ rowKey pathKey source colIdx x.2 = key := by
  have hkey : ∀ k, rowKey pathKey source colIdx x.2 = k → k = .empty →
      ¬(key ≠ .empty ∧ rid = x.1 ∧ rowKey pathKey source colIdx x.2 = key) := by
    rintro k hk rfl ⟨hne,-,heq⟩
    exact hne (heq.symm.trans hk)
  rw [maintainOnInsert]
  split
  · rename_i hempty
    have hnot := hkey _ rfl hempty
    split <;> simp [hnot]
  · rename_i hsome
    simp only [BTree.insert,Bool.false_eq_true,if_false,mem_cons,Prod.mk.injEq]
    constructor
    · rintro (⟨rfl,rfl⟩ | hmem)
      · exact .inr ⟨hsome,rfl,rfl⟩
      · exact .inl hmem
    · rintro (hmem | ⟨-,rfl,rfl⟩)
      · exact .inr hmem
      · exact .inl ⟨rfl,rfl⟩

/-- A tree that admits repeated keys holds every row that has a key, and nothing else. -/
lemma mem_buildFromHeap :
    (key,rid) ∈ (buildFromHeap pathKey source false colIdx rows).entries ↔
      key ≠ .empty ∧ ∃ row, (rid,row) ∈ rows ∧ rowKey pathKey source colIdx row = key := by
  have hfold : ∀ bt : BTree,
      (key,rid) ∈ (rows.foldl (maintainOnInsert pathKey source false colIdx) bt).entries ↔
        (key,rid) ∈ bt.entries ∨
          key ≠ .empty ∧ ∃ row, (rid,row) ∈ rows ∧ rowKey pathKey source colIdx row = key := by
    induction rows with
    | nil => simp
    | cons x rows ih =>
      intro bt
      rw [foldl_cons,ih,mem_maintainOnInsert,or_assoc,← and_or_left]
      apply or_congr Iff.rfl
      apply and_congr Iff.rfl
      obtain ⟨rid',row'⟩ := x
      constructor
      · rintro (⟨rfl,heq⟩ | ⟨row,hmem,heq⟩)
        · exact ⟨row',mem_cons_self,heq⟩
        · exact ⟨row,mem_cons_of_mem _ hmem,heq⟩
      · rintro ⟨row,hmem,heq⟩
        rcases mem_cons.mp hmem with hhead | hmem
        · cases hhead
          exact .inl ⟨rfl,heq⟩
        · exact .inr ⟨row,hmem,heq⟩
  have hnil : (BTree.create source false).entries = [] := by
    cases source <;> rfl
  rw [buildFromHeap,hfold,hnil]
  simp

def indexedRun : List FileStep :=
  [.createTable "item" [⟨"id",.int,false⟩,⟨"doc",.json,false⟩],.createTable "item_log" [⟨"at",.int,false⟩],
   .createIndexUnique "item" "id" true,.createExpressionIndex "item" "doc" ".doc->k" false,
   .createIndexUnique "item_log" "at" false,.insert "item" ⟨1,0⟩ [.int 7,.json [1]],
   .insert "item_log" ⟨1,0⟩ [.int 7],.reopen,.createExpressionIndex "item" "doc" ".doc->j" false,
   .dropExpressionIndex "item" 1,.dropTable "item_log",.insert "item" ⟨1,1⟩ [.int 8,.empty],
   .alterTableDropColumn "item" "doc" [⟨1,0⟩,⟨1,1⟩]]

/-- Column `b_c` of table `a` and column `c` of table `a_b`. -/
def collidingRun : List FileStep :=
  [.createTable "a" [⟨"b_c",.int,false⟩],.createTable "a_b" [⟨"c",.int,false⟩],
   .insert "a" ⟨1,0⟩ [.int 7],.createIndexUnique "a" "b_c" false,.createIndexUnique "a_b" "c" false,.reopen]

end PowDB.Storage
