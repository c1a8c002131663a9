import PowDB.Storage.Recovery

/-! Runs of committed transactions, page flushes and checkpoints. Whatever such a
run has let reach the disk, recovery over the log gives back the live rows. -/
namespace PowDB.Storage
open List Option HeapFile Prod Table WalRecordType
/-- What may happen between two crashes: a transaction that commits, some pages of
a table reaching the disk, or a checkpoint. -/
inductive Step
  | txn (ss : List Stmt)
  | flush (t : String) (pages : List ℕ)
  | checkpoint

namespace Catalog

def txn (c : Catalog) (ss : List Stmt) : Option Catalog := do
  let c ← c.begin
  let c ← c.execAll ss
  some c.commitTransaction

def flush (c : Catalog) (t : String) (pages : List ℕ) : Catalog :=
  match c.table t with
  | none => c
  | some tbl => c.setHeap t (tbl.heap.flushPages pages)

/-- Every table is flushed, then the log is cut. -/
def checkpoint (c : Catalog) : Catalog :=
  {c with
    tables := c.tables.map (fun x => (x.1,{x.2 with heap := x.2.heap.flushAllDirty}))
    log := []}

def step (c : Catalog) : Step → Option Catalog
  | .txn ss => c.txn ss
  | .flush t pages => some (c.flush t pages)
  | .checkpoint => some c.checkpoint

def run (c : Catalog) : List Step → Option Catalog
  | [] => some c
  | s::ss => do (← c.step s).run ss

end Catalog

/-- Every logged update above the LSN of a page about to be flushed names a live
row of the page that is not shorter than the logged one. -/
def HeapFile.flushOk (h : HeapFile) (t : String) (log : List WalRecord) (i : ℕ) : Bool :=
  match h.dirty i with
  | some (.data p) => (p.stale (pageOps log t i)).all (fun x =>
      match x.2 with
      | .update s r => ((p.get s).map (fun old => decide (r.len ≤ old.len))).getD false
      | _ => true)
  | _ => true

lemma HeapFile.flushOk_spec {h : HeapFile}
    (hok : h.flushOk t log i = true) : h.FlushOk t log i := by
  intro p hp x hx s r hup
  simp only [flushOk,hp,List.all_eq_true] at hok
  have hone := hok x hx
  simp only [hup] at hone
  cases hg : p.get s with
  | none => simp [hg] at hone
  | some old => exact ⟨old,rfl,by simpa [hg] using hone⟩

namespace Catalog

/-- What a step asks of the state it meets. -/
def stepOk (c : Catalog) : Step → Bool
  | .txn ss => (c.begin.map (fun c => c.stmtsOk ss)).getD true
  | .flush t pages =>
    ((c.table t).map (fun tbl => pages.all (tbl.heap.flushOk t c.log))).getD true
  | .checkpoint => true

def runOk (c : Catalog) : List Step → Bool
  | [] => true
  | s::ss => c.stepOk s && ((c.step s).map (fun c => c.runOk ss)).getD true

/-- A database whose log is empty and whose dirty pages, if any, hold what the disk holds. -/
structure AtRest (c : Catalog) : Prop where
  nodup : (c.tables.map fst).Nodup
  file : c.file = c.tables.map (fun x => (x.1,x.2.schema))
  log : c.log = []
  heaps : ∀ t tbl, c.table t = some tbl → HeapInv t [] c.lastLsn tbl.heap
  pending : c.pendingFree = []
  idle : c.activeTx = none
  ids : 0 < c.nextTxId

/-- The invariant between transactions. -/
structure Quiet (c : Catalog) : Prop extends CatInv c where
  drained : c.pendingFree = []
  committed : CommittedLog c.log
  idle : c.activeTx = none
  ids : 0 < c.nextTxId
  settled : ∀ rec ∈ c.log, c.schemaSettled rec.type = true
  known : ∀ rec ∈ c.log, ∀ t, rec.type.subject = some t → c.table t = none →
    ∃ rec' ∈ c.log, rec'.type = .ddlDropTable t

section steps
variable {c c' : Catalog} {tx : ℕ}

/-- A schema record reads one table, and of it the schema. -/
lemma schemaSettled_congr
    (h : ∀ t, type.schemaTable = some t → (c'.table t).map schema = (c.table t).map schema) :
    c'.schemaSettled type = c.schemaSettled type := by
  cases type with
  | ddlCreateTable t _ =>
    have := congrArg isSome (h t rfl)
    simpa only [schemaSettled,isSome_map] using this
  | ddlDropTable t =>
    have := congrArg isNone (h t rfl)
    simpa only [schemaSettled,isNone_map] using this
  | ddlAddColumn t col =>
    have := congrArg (fun s => (s.map (fun s : Schema => s.any (·.name = col.name))).getD true) (h t rfl)
    rwa [Option.map_map,Option.map_map] at this
  | ddlDropColumn t name =>
    have := congrArg (fun s => (s.map (fun s : Schema => !s.any (·.name = name))).getD true) (h t rfl)
    rwa [Option.map_map,Option.map_map] at this
  | _ => rfl

lemma table_none_of_keys (h : c'.tables.map fst = c.tables.map fst) :
    c'.table t = none ↔ c.table t = none := by
  simp only [table,Lib.lookup_eq_none_iff,h]

/-- Statements keep every schema. -/
lemma schemas_of_advance (h : Advance tx c c') (t : String) :
    (c'.table t).map schema = (c.table t).map schema := by
  cases ht : c.table t with
  | none => rw [(table_none_of_keys h.keys).mpr ht]
  | some tbl =>
    obtain ⟨h',ht',-⟩ := h.tables t tbl ht
    rw [ht']
    rfl

/-- A marker appended to the log concerns no page. -/
lemma append_boundary (hc : CatInv c) (tx : ℕ) (hb : type.isBoundary = true) :
    CatInv (c.append tx type) where
  nodup := hc.nodup
  file := hc.file
  log := hc.log.snoc tx type
  heaps t tbl ht := by
    refine (hc.heaps t tbl ht).silent_append (Nat.le_succ _) (fun rec hrec => ?_)
    rw [mem_singleton.mp hrec]
    cases type <;> simp_all [isBoundary,HeapInv.Silent,WalRecord.opOn]
  pending := hc.pending

lemma releasePending_advance (tx : ℕ) (ps : List (String × List ℕ)) (hc : CatInv c)
    (hps : ∀ x ∈ ps, ∀ tbl, c.table x.1 = some tbl → ∀ i ∈ x.2, tbl.heap.Spare i) :
    Advance tx c (c.releasePending ps) ∧ (c.releasePending ps).log = c.log ∧
      (c.releasePending ps).pendingFree = c.pendingFree := by
  induction ps generalizing c with
  | nil => exact ⟨Advance.refl hc,rfl,rfl⟩
  | cons x ps ih =>
    obtain ⟨t,pages⟩ := x
    rw [releasePending]
    cases ht : c.table t with
    | none => exact ih hc (fun x hx => hps x (mem_cons_of_mem _ hx))
    | some tbl =>
      have hrel : HeapInv t c.log c.lastLsn (tbl.heap.releaseOverflowPages pages) :=
        releaseOverflowPages_inv (hc.heaps t tbl ht) (hps _ mem_cons_self tbl ht)
      obtain ⟨hone,hlog,hpend⟩ := hc.advance_heap tx ht hrel
        (tbl.heap.releaseOverflowPages_samePages pages).spare_iff.mpr
      have hps' : ∀ x ∈ ps, ∀ tbl', (c.setHeap t (tbl.heap.releaseOverflowPages pages)).table x.1 = some tbl' →
          ∀ i ∈ x.2, tbl'.heap.Spare i := by
        intro x hx tbl' ht' i hi
        cases hx' : c.table x.1 with
        | none => rw [(table_none_of_keys hone.keys).mpr hx'] at ht'; cases ht'
        | some tbl₀ =>
          obtain ⟨h',ht₀,hsp⟩ := hone.tables x.1 tbl₀ hx'
          cases ht'.symm.trans ht₀
          exact hsp (hps x (mem_cons_of_mem _ hx) tbl₀ hx' i hi)
      obtain ⟨hadv,hl,hp⟩ := ih hone.inv hps'
      exact ⟨hone.trans hadv,hl.trans hlog,hp.trans hpend⟩

/-- What one committed transaction does to the catalog. -/
lemma txn_advance (hc : Quiet c) (hok : c.stepOk (.txn ss) = true)
    (ht : c.txn ss = some c') :
    ∃ types l, (∀ type ∈ types, ∃ t ∈ c.tables.map fst, type.rowTable = some t) ∧
      c'.log = c.log++(⟨c.lastLsn+1,c.nextTxId,.begin⟩::
        (numbered (c.lastLsn+1) c.nextTxId types++[⟨l,c.nextTxId,.commit⟩])) ∧
      CatInv c' ∧ c'.pendingFree = [] ∧ c'.activeTx = none ∧ c'.nextTxId = c.nextTxId+1 ∧
      c'.tables.map fst = c.tables.map fst ∧
      ∀ t, (c'.table t).map schema = (c.table t).map schema := by
  have hbegin : c.begin = some ({c with nextTxId := c.nextTxId+1, activeTx := some c.nextTxId}.append
      c.nextTxId .begin) := by simp [begin,hc.idle]
  simp only [txn,hbegin,bind_eq_bind,bind_some,bind_eq_some_iff] at ht
  simp only [stepOk,hbegin,map_some,getD_some] at hok
  obtain ⟨c₁,hexec,hcommit⟩ := ht
  have hinv : CatInv ({c with nextTxId := c.nextTxId+1, activeTx := some c.nextTxId}.append
      c.nextTxId .begin) := append_boundary (c := {c with nextTxId := c.nextTxId+1, activeTx := some c.nextTxId})
        ⟨hc.nodup,hc.file,hc.log,hc.heaps,hc.pending⟩ _ rfl
  have hadv := execAll_advance ss rfl hinv hok hexec
  obtain ⟨types,htypes,hlog,hlast⟩ := hadv.log
  have hact : c₁.activeTx = some c.nextTxId := hadv.activeTx
  have hinv₁ : CatInv ({c₁ with activeTx := none, pendingFree := []}.append c.nextTxId .commit) :=
    append_boundary (c := {c₁ with activeTx := none, pendingFree := []})
      ⟨hadv.inv.nodup,hadv.inv.file,hadv.inv.log,hadv.inv.heaps,by simp⟩ _ rfl
  obtain ⟨hrel,hrlog,hrpend⟩ := releasePending_advance c.nextTxId c₁.pendingFree hinv₁ hadv.inv.pending
  have heq : c' = ({c₁ with activeTx := none, pendingFree := []}.append c.nextTxId .commit).releasePending
      c₁.pendingFree := by
    rw [← some.inj hcommit,commitTransaction,hact]
    rfl
  rw [← heq] at hrel hrlog hrpend
  refine ⟨types,c₁.lastLsn+1,htypes,?_,hrel.inv,hrpend,hrel.activeTx,hrel.nextTxId.trans hadv.nextTxId,
    hrel.keys.trans hadv.keys,fun t => (schemas_of_advance hrel t).trans (schemas_of_advance hadv t)⟩
  rw [hrlog]
  show c₁.log++[_] = _
  rw [hlog]
  simp [append]

lemma txn_quiet (hc : Quiet c) (hok : c.stepOk (.txn ss) = true)
    (ht : c.txn ss = some c') : Quiet c' := by
  obtain ⟨types,l,htypes,hlog,hinv,hpend,hidle,hnext,hkeys,hschemas⟩ := txn_advance hc hok ht
  -- the records of the transaction are its own rows between its two markers
  have hrow : ∀ rec ∈ c'.log, rec ∈ c.log ∨ rec.type.isBoundary = true ∨
      ∃ t ∈ c.tables.map fst, rec.type.rowTable = some t := by
    intro rec hrec
    simp only [hlog,mem_append,mem_cons,not_mem_nil,or_false] at hrec
    rcases hrec with hrec | rfl | hrec | rfl
    · exact .inl hrec
    · exact .inr (.inl rfl)
    · exact .inr (.inr (htypes _ (mem_numbered hrec).1))
    · exact .inr (.inl rfl)
  refine ⟨hinv,hpend,?_,hidle,hnext ▸ Nat.succ_pos _,fun rec hrec => ?_,fun rec hrec t hrt hnone => ?_⟩
  · rw [hlog]
    refine .block hc.committed hc.ids.ne' (fun rec hrec => ?_)
    obtain ⟨hmem,htx⟩ := mem_numbered hrec
    obtain ⟨t,-,hrt⟩ := htypes _ hmem
    exact ⟨isRow_of_rowTable hrt,htx⟩
  · rw [schemaSettled_congr (fun t _ => hschemas t)]
    rcases hrow rec hrec with hold | hb | ⟨t,-,hrt⟩
    · exact hc.settled rec hold
    · cases htype : rec.type <;> simp_all [isBoundary,schemaSettled]
    · cases htype : rec.type <;> simp_all [rowTable,schemaSettled]
  · have hnone' := (table_none_of_keys hkeys).mp hnone
    rcases hrow rec hrec with hold | hb | ⟨t',ht',hrt'⟩
    · obtain ⟨rec',hrec',hd⟩ := hc.known rec hold t hrt hnone'
      exact ⟨rec',by rw [hlog]; exact mem_append_left _ hrec',hd⟩
    · rw [subject_of_boundary hb] at hrt
      cases hrt
    · cases hrt.symm.trans (subject_of_rowTable hrt')
      exact absurd ht' (Lib.lookup_eq_none_iff.mp hnone')

lemma flush_quiet (hc : Quiet c) (hok : c.stepOk (.flush t pages) = true) :
    Quiet (c.flush t pages) := by
  rw [flush]
  cases ht : c.table t with
  | none => exact hc
  | some tbl =>
    simp only [stepOk,ht,Option.map_some,Option.getD_some,List.all_eq_true] at hok
    have hheap : HeapInv t c.log c.lastLsn (tbl.heap.flushPages pages) :=
      flushPages_inv pages (hc.heaps t tbl ht) (fun i hi => flushOk_spec (hok i hi))
    obtain ⟨hadv,hlog,hpend⟩ := hc.advance_heap 0 ht hheap (tbl.heap.flushPages_reimaged pages).spare
    refine ⟨hadv.inv,hpend.trans hc.drained,hlog ▸ hc.committed,hadv.activeTx.trans hc.idle,hadv.nextTxId ▸ hc.ids,?_,?_⟩
    · rw [hlog]
      exact fun rec hrec => (schemaSettled_congr (fun t' _ => schemas_of_advance hadv t')).trans (hc.settled rec hrec)
    · rw [hlog]
      exact fun rec hrec t' hrt hnone => hc.known rec hrec t' hrt ((table_none_of_keys hadv.keys).mp hnone)

lemma table_checkpoint (c : Catalog) (t : String) : c.checkpoint.table t =
    (c.table t).map (fun tbl => {tbl with heap := tbl.heap.flushAllDirty}) :=
  Lib.lookup_map_value c.tables (fun tbl => (⟨tbl.schema,tbl.heap.flushAllDirty⟩ : Table)) t

lemma checkpoint_quiet (hc : Quiet c) : Quiet c.checkpoint where
  nodup := by simpa [checkpoint,List.map_map,Function.comp_def] using hc.nodup
  file := by simpa [checkpoint,List.map_map,Function.comp_def] using hc.file
  log := ⟨List.Pairwise.nil,by simp [checkpoint],by simp [checkpoint]⟩
  heaps t tbl' ht' := by
    rw [table_checkpoint] at ht'
    obtain ⟨tbl,ht,rfl⟩ := map_eq_some_iff.mp ht'
    exact flushAllDirty_inv (hc.heaps t tbl ht)
  pending := by simp [checkpoint,hc.drained]
  drained := hc.drained
  committed := .nil
  idle := hc.idle
  ids := hc.ids
  settled := by simp [checkpoint]
  known := by simp [checkpoint]

/-- One step keeps the invariant. -/
lemma step_quiet (hc : Quiet c) (hok : c.stepOk s = true) (hs : c.step s = some c') :
    Quiet c' := by
  cases s with
  | txn ss => exact txn_quiet hc hok hs
  | flush t pages =>
    cases hs
    exact flush_quiet hc hok
  | checkpoint =>
    cases hs
    exact checkpoint_quiet hc

lemma run_quiet (ss : List Step) (hc : Quiet c) (hok : c.runOk ss = true) (hrun : c.run ss = some c') :
    Quiet c' := by
  induction ss generalizing c with
  | nil =>
    cases hrun
    exact hc
  | cons s ss ih =>
    simp only [run,bind_eq_bind,bind_eq_some_iff] at hrun
    obtain ⟨c₁,hone,hrest⟩ := hrun
    simp only [runOk,hone,map_some,getD_some,Bool.and_eq_true] at hok
    exact ih (step_quiet hc hok.1 hone) hok.2 hrest

lemma AtRest.quiet (hc : AtRest c) : Quiet c where
  nodup := hc.nodup
  file := hc.file
  log := by rw [hc.log]; exact ⟨List.Pairwise.nil,by simp,by simp⟩
  heaps := by rw [hc.log]; exact hc.heaps
  pending := by simp [hc.pending]
  drained := hc.pending
  committed := hc.log ▸ .nil
  idle := hc.idle
  ids := hc.ids
  settled := by simp [hc.log]
  known := by simp [hc.log]

lemma Quiet.recovers {α : Type} (codec : RowCodec α) (hc : Quiet c) :
    ∃ r, c.recover codec = some r ∧ ∀ t, r.reads t = c.reads t :=
  recover_reads codec hc.toCatInv hc.committed hc.settled

end steps

/-- A new database with the given tables, all empty. -/
def fresh (file : List (String × Schema)) : Catalog where
  tables := file.map (fun x => (x.1,⟨x.2,HeapFile.create⟩))
  file := file
  log := []
  lastLsn := 0
  nextTxId := 1
  activeTx := none
  pendingFree := []

end Catalog

lemma HeapFile.create_inv (t : String) (last : ℕ) : HeapInv t [] last HeapFile.create := by
  have hno : ∀ i d m, ¬ HeapFile.create.DataAt i d m := by
    intro i d m hd
    have hlt : i < 1 := hd.lt
    exact absurd hd.pos (by omega)
  refine ⟨⟨Nat.one_pos,⟨0,rfl⟩,⟨0,rfl⟩,fun _ _ => rfl,fun i hpos hlt => ?_,fun hd => absurd hd (hno _ _ _),
    by simp [HeapFile.create],by simp [HeapFile.create],fun i o hs => ?_,
    fun i d m s r hd => absurd hd (hno i d m)⟩,fun hd => absurd hd (hno _ _ _),by simp [pageOps],by simp,by simp⟩
  · have : i < 1 := hlt
    omega
  · have h₁ : i < 1 := hs.lt
    exact absurd hs.pos (by omega)

namespace Catalog

lemma fresh_atRest {file : List (String × Schema)} (h : (file.map fst).Nodup) :
    AtRest (fresh file) where
  nodup := by simpa [fresh,List.map_map,Function.comp_def] using h
  file := by simp [fresh,List.map_map,Function.comp_def]
  log := rfl
  heaps t tbl ht := by
    have hl : (fresh file).table t = (file.lookup t).map (fun s => ⟨s,HeapFile.create⟩) :=
      Lib.lookup_map_value file (fun s => (⟨s,HeapFile.create⟩ : Table)) t
    rw [hl] at ht
    obtain ⟨s,-,rfl⟩ := map_eq_some_iff.mp ht
    exact create_inv t _
  pending := rfl
  idle := rfl
  ids := Nat.one_pos

/-- Crash recovery of row data: after any run whose steps meet `stepOk`, recovery
over the log gives every table its committed rows, no matter which pages were flushed. -/
theorem run_recovers_committed_rows {α : Type} (codec : RowCodec α) {c c' : Catalog} {ss : List Step}
    (hc : AtRest c) (hok : c.runOk ss = true) (hrun : c.run ss = some c') :
    ∃ r, c'.recover codec = some r ∧ ∀ t, r.contents t = c'.contents t := by
  obtain ⟨r,hrec,hr⟩ := (run_quiet ss hc.quiet hok hrun).recovers codec
  exact ⟨r,hrec,fun t => contents_of_reads (hr t)⟩

/-- Rows kept as raw bytes. -/
def rawCodec : RowCodec UInt8 := ⟨fun _ r _ => some r.body,fun _ vs => ⟨vs,[]⟩,0⟩

/-- A spilling insert, an update in place, a flush, a byte patch, a delete and a checkpoint. -/
def mixedRun : List Step :=
  [.txn [.insert "T" ⟨[1,2,3],[[4]]⟩,.insert "T" ⟨[5,6,7],[]⟩],.txn [.update "T" ⟨2,0⟩ ⟨[8,9],[]⟩],
   .flush "T" [2],.txn [.updateRowBytes "T" ⟨2,1⟩ [(0,9)]],.flush "T" [2],.txn [.delete "T" ⟨2,0⟩]]

theorem mixedRun_recovers_committed_rows : ∃ c', (fresh [("T",[])]).run mixedRun = some c' ∧
    ∃ r, c'.recover rawCodec = some r ∧ ∀ t, r.contents t = c'.contents t := by
  have hsome : ((fresh [("T",[])]).run mixedRun).isSome = true := by decide +kernel
  obtain ⟨c',hrun⟩ := isSome_iff_exists.mp hsome
  exact ⟨c',hrun,run_recovers_committed_rows rawCodec (fresh_atRest (by simp)) (by decide +kernel) hrun⟩

/-- A row is inserted, patched and deleted, each in a committed transaction, and
its page is flushed. The patch and the delete left the page's LSN alone. -/
def patchedThenDeleted : List Step :=
  [.txn [.insert "T" ⟨[1,2,3],[]⟩],.txn [.updateRowBytes "T" ⟨1,0⟩ [(0,9)]],
   .txn [.deleteMany "T" [⟨1,0⟩]],.flush "T" [1]]

/-- Replay meets the dead slot with the stale update record, which inserts the row again. -/
theorem recovery_resurrects_deleted_row : AtRest (fresh [("T",[])]) ∧
    ((fresh [("T",[])]).run patchedThenDeleted).bind (fun c => c.contents "T") = some ([],[]) ∧
    (((fresh [("T",[])]).run patchedThenDeleted).bind (fun c => c.recover rawCodec)).bind
      (fun c => c.contents "T") = some ([],[([9,2,3],[])]) :=
  ⟨fresh_atRest (by simp),by decide +kernel,by decide +kernel⟩

end Catalog
end PowDB.Storage
