import PowDB.Storage.Rewrite
import PowDB.Storage.RowFormat

/-! Runs that mix row transactions with schema changes. A schema record is redone by
name with no LSN guard, so recovery agrees with the live catalog as long as no schema
change undoes one whose record is still in the log. -/
namespace PowDB.Storage
open List Option Table WalRecordType

inductive DbStep
  | rows (s : Step)
  | createTable (t : String) (schema : Schema)
  | dropTable (t : String)
  | addColumn (t : String) (col : ColumnDef)
  | dropColumn (t name : String)

namespace Catalog
variable {α : Type} (codec : RowCodec α)

def dbStep (c : Catalog) : DbStep → Option Catalog
  | .rows s => c.step s
  | .createTable t schema => c.createTable t schema
  | .dropTable t => c.dropTable t
  | .addColumn t col => c.alterTableAddColumn codec t col
  | .dropColumn t name => c.alterTableDropColumn codec t name

def dbRun (c : Catalog) : List DbStep → Option Catalog
  | [] => some c
  | s::ss => do (← c.dbStep codec s).dbRun ss

/-- What a step asks of the state it meets: of a schema change, that the log has no
record of the change it undoes. -/
def dbStepOk (c : Catalog) : DbStep → Bool
  | .rows s => c.stepOk s
  | .createTable t _ => c.log.all (fun rec => rec.type ≠ .ddlDropTable t)
  | .dropTable t => c.log.all (fun rec =>
      match rec.type with
      | .ddlCreateTable t' _ => t' ≠ t
      | _ => true)
  | .addColumn t col => c.log.all (fun rec => rec.type ≠ .ddlDropColumn t col.name)
  | .dropColumn t name => c.log.all (fun rec =>
      match rec.type with
      | .ddlAddColumn t' col => ¬ (t' = t ∧ col.name = name)
      | _ => true) &&
    ((c.table t).map (fun tbl => !(tbl.schema.eraseP (·.name = name)).any (·.name = name))).getD true

def dbRunOk (c : Catalog) : List DbStep → Bool
  | [] => true
  | s::ss => c.dbStepOk s && ((c.dbStep codec s).map (fun c => c.dbRunOk ss)).getD true

section changes

section
variable (hc : Quiet c)
include hc

/-- No record of the log is about an absent table that was not dropped since. -/
lemma Quiet.silent_of_absent (ht : c.table t = none)
    (hdrop : ∀ rec ∈ c.log, rec.type ≠ .ddlDropTable t) {rec : WalRecord} (hrec : rec ∈ c.log) :
    rec.type.subject ≠ some t := by
  intro hs
  obtain ⟨rec',hrec',hd⟩ := hc.known rec hrec t hs ht
  exact hdrop rec' hrec' hd

/-- A schema change of one table, logged as one record, with what is left to show of its effect. -/
lemma Quiet.schemaChange {tables : List (String × Table)} (hrow : type.isRow = false)
    (hbound : type.isBoundary = false) (hschema : type.schemaTable = some t) (hsub : ∀ t' ≠ t, type.subject ≠ some t')
    (he : c' = ({c.append 0 type with tables := tables} : Catalog).persist) (hnodup : (tables.map Prod.fst).Nodup)
    (hother : ∀ t' ≠ t, c'.table t' = c.table t')
    (hheap : ∀ tbl, c'.table t = some tbl → HeapInv t (c.log++[⟨c.lastLsn+1,0,type⟩]) (c.lastLsn+1) tbl.heap)
    (hsettled : ∀ rec ∈ c.log, rec.type.schemaTable = some t → c'.schemaSettled rec.type = true)
    (hnew : c'.schemaSettled type = true) (hknown : c'.table t = none → type = .ddlDropTable t) : Quiet c' := by
  have hlog : c'.log = c.log++[⟨c.lastLsn+1,0,type⟩] := by rw [he]; rfl
  have hlast : c'.lastLsn = c.lastLsn+1 := by rw [he]; rfl
  have hpend : c'.pendingFree = [] := by rw [he]; exact hc.drained
  exact {
    nodup := by rw [he]; exact hnodup
    file := by rw [he]; rfl
    log := by rw [hlog,hlast]; exact hc.log.snoc 0 type
    heaps t' tbl ht' := by
      rw [hlog,hlast]
      by_cases hne : t' = t
      · subst hne
        exact hheap tbl ht'
      · refine (hc.heaps t' tbl (hother t' hne ▸ ht')).silent_append (Nat.le_succ _) (fun rec hrec => ?_)
        rw [mem_singleton.mp hrec]
        exact HeapInv.silent_of_subject (hsub t' hne)
    pending := by simp [hpend]
    drained := hpend
    committed := by rw [hlog]; exact .schema hc.committed hrow hbound
    idle := by rw [he]; exact hc.idle
    ids := by rw [he]; exact hc.ids
    settled := by
      rw [hlog,forall_mem_append,forall_mem_singleton]
      refine ⟨fun rec hrec => ?_,hnew⟩
      by_cases hs : rec.type.schemaTable = some t
      · exact hsettled rec hrec hs
      · have hsame : ∀ t', rec.type.schemaTable = some t' → (c'.table t').map schema =
            (c.table t').map schema := by
          intro t' ht'
          rw [hother t' fun heq => hs (heq ▸ ht')]
        rw [schemaSettled_congr hsame]
        exact hc.settled rec hrec
    known rec hrec t' hs hnone := by
      rw [hlog] at hrec ⊢
      by_cases hne : t' = t
      · subst hne
        exact ⟨_,mem_append_right _ (mem_singleton.mpr rfl),hknown hnone⟩
      · rcases mem_append.mp hrec with hrec | hrec
        · obtain ⟨rec',hrec',hd⟩ := hc.known rec hrec t' hs (hother t' hne ▸ hnone)
          exact ⟨rec',mem_append_left _ hrec',hd⟩
        · rw [mem_singleton.mp hrec] at hs
          exact absurd hs (hsub t' hne) }

lemma createTable_quiet {schema : Schema} (hok : c.dbStepOk (.createTable t schema) = true)
    (he : c.createTable t schema = some c') : Quiet c' := by
  have hdrop : ∀ rec ∈ c.log, rec.type ≠ .ddlDropTable t := by
    simpa [dbStepOk] using hok
  unfold createTable at he
  split at he
  · cases he
  cases ht : c.table t with
  | some tbl => simp [ht] at he
  | none =>
    simp only [ht,some.injEq] at he
    have hself : c'.table t = some ⟨schema,HeapFile.create⟩ := by
      rw [← he]
      exact lookup_append.trans (by simp [append,show c.tables.lookup t = none from ht])
    have habsent : ∀ {rec}, rec ∈ c.log → rec.type.subject ≠ some t :=
      fun hrec => hc.silent_of_absent ht hdrop hrec
    refine hc.schemaChange rfl rfl rfl (fun _ _ => by simp [subject,rowTable]) he.symm ?_
      (fun t' hne => ?_) (fun tbl' ht' => ?_) (fun rec hrec hs => ?_) (by simp [schemaSettled,hself])
      (by simp [hself])
    · rw [map_append]
      refine nodup_append.mpr ⟨hc.nodup,nodup_singleton t,fun a ha b hb => ?_⟩
      rw [mem_singleton.mp hb]
      rintro rfl
      exact Lib.lookup_eq_none_iff.mp ht ha
    · rw [← he]
      exact lookup_append.trans (by simp [append,table,lookup_cons,beq_eq_false_iff_ne.mpr hne])
    · cases ht'.symm.trans hself
      refine (HeapFile.create_inv t c.lastLsn).silent_append (Nat.le_succ _) (forall_mem_append.mpr
        ⟨fun rec hrec => HeapInv.silent_of_subject (habsent hrec),forall_mem_singleton.mpr ?_⟩)
      exact HeapInv.silent_of_subject (by simp [subject,rowTable])
    · have hsub := habsent hrec
      cases htype : rec.type <;> simp_all [schemaTable,schemaSettled,subject]

lemma dropTable_quiet (hok : c.dbStepOk (.dropTable t) = true)
    (he : c.dropTable t = some c') : Quiet c' := by
  unfold dropTable at he
  split at he
  · cases he
  cases ht : c.table t with
  | none => simp [ht] at he
  | some tbl =>
    simp only [ht,some.injEq] at he
    have hself : c'.table t = none := by
      rw [← he]
      exact Lib.lookup_eq_none_iff.mpr (Lib.swapRemove_keys_nodup hc.nodup ht).1
    refine hc.schemaChange rfl rfl rfl (fun _ _ => by simp [subject,rowTable]) he.symm
      (Lib.swapRemove_keys_nodup hc.nodup ht).2 (fun t' hne => ?_) (by simp [hself]) (fun rec hrec hs => ?_)
      (by simp [schemaSettled,hself]) (fun _ => rfl)
    · rw [← he]
      exact Lib.lookup_swapRemove_of_ne hc.nodup ht hne
    · have hcreate : ∀ rec ∈ c.log, ∀ s, rec.type ≠ .ddlCreateTable t s := by
        intro rec hrec s htype
        have := all_eq_true.mp hok rec hrec
        simp [htype] at this
      cases htype : rec.type <;> simp_all [schemaTable,schemaSettled]

/-- A column change: the table under its new schema, its heap behind the barrier. -/
lemma Quiet.alter (type : WalRecordType) {tbl' : Table} (ht : c.table t = some tbl)
    (hrow : type.isRow = false) (hbound : type.isBoundary = false) (hschema : type.schemaTable = some t)
    (hsub : type.subject = some t)
    (hop : ∀ i, (⟨c.lastLsn+1,0,type⟩ : WalRecord).opOn t i = some (c.lastLsn+1,.stamp))
    (hs : HeapShape c.lastLsn tbl'.heap) (hg : tbl.heap.Grown tbl'.heap)
    (he : c' = ((c.append 0 type).setTable t
      {tbl' with heap := (tbl'.heap.stampAllPagesMinLsn (c.lastLsn+1)).flushAllDirty}).persist)
    (hadd : ∀ rec ∈ c.log, ∀ col, rec.type = .ddlAddColumn t col → tbl.hasColumn col.name = true →
      tbl'.hasColumn col.name = true)
    (hdrop : ∀ rec ∈ c.log, ∀ name, rec.type = .ddlDropColumn t name → tbl.hasColumn name = false →
      tbl'.hasColumn name = false)
    (hnew : c'.table t = some {tbl' with heap := tbl'.heap.barrier (c.lastLsn+1)} → c'.schemaSettled type = true) :
    Quiet c' := by
  have hself : c'.table t = some {tbl' with heap := tbl'.heap.barrier (c.lastLsn+1)} := by
    rw [he]
    exact table_setTable_self (c := c.append 0 type) ht _
  refine hc.schemaChange hrow hbound hschema (fun t' hne heq => hne (some.inj (heq.symm.trans hsub))) he ?_
    (fun t' hne => ?_) (fun tbl'' ht' => ?_) (fun rec hrec hst => ?_) (hnew hself) (by simp [hself])
  · rw [Lib.keys_replaceKey]
    exact hc.nodup
  · rw [he]
    exact table_setTable_other (c.append 0 type) hne _
  · cases ht'.symm.trans hself
    exact HeapFile.barrier_inv (hc.heaps t tbl ht) hc.log hs hg hop hrow
  · have hset := hc.settled rec hrec
    cases htype : rec.type with
    | ddlCreateTable t' s =>
      cases hst.symm.trans (congrArg _ htype)
      simp [schemaSettled,hself]
    | ddlDropTable t' =>
      cases hst.symm.trans (congrArg _ htype)
      simp [htype,schemaSettled,ht] at hset
    | ddlAddColumn t' col =>
      cases hst.symm.trans (congrArg _ htype)
      have hcol := hadd rec hrec col htype (by simpa [htype,schemaSettled,ht] using hset)
      simpa [schemaSettled,hself,hasColumn] using hcol
    | ddlDropColumn t' name =>
      cases hst.symm.trans (congrArg _ htype)
      have hcol := hdrop rec hrec name htype (by simpa [htype,schemaSettled,ht] using hset)
      simpa [schemaSettled,hself,hasColumn] using hcol
    | _ => simp [htype,schemaTable] at hst

lemma addColumn_quiet {col : ColumnDef} (hok : c.dbStepOk (.addColumn t col) = true)
    (he : c.alterTableAddColumn codec t col = some c') : Quiet c' := by
  have hdrop : ∀ rec ∈ c.log, rec.type ≠ .ddlDropColumn t col.name := by
    simpa [dbStepOk] using hok
  unfold alterTableAddColumn at he
  split at he
  · cases he
  simp only [bind_eq_bind,bind_eq_some_iff] at he
  obtain ⟨tbl,ht,he⟩ := he
  split at he
  · cases he
  split at he
  · cases he
  simp only [bind_eq_some_iff,some.injEq] at he
  obtain ⟨tbl',hchange,he⟩ := he
  obtain ⟨hschema,hs,hg⟩ := changeSchema_shape codec (hc.heaps t tbl ht).toHeapShape hchange
  refine hc.alter (.ddlAddColumn t col) ht rfl rfl rfl rfl (fun i => by simp [WalRecord.opOn]) hs hg he.symm ?_ ?_
    (fun hself => by simp [schemaSettled,hself,hasColumn,hschema])
  · intro rec hrec col' htype hcol
    simpa [hasColumn,hschema] using .inl (by simpa [hasColumn] using hcol)
  · -- no record of the log drops the new column
    intro rec hrec name htype hcol
    have hne : col.name ≠ name := fun heq => hdrop rec hrec (by rw [htype,heq])
    simpa [hasColumn,hschema,hne] using hcol

lemma dropColumn_quiet {name : String} (hok : c.dbStepOk (.dropColumn t name) = true)
    (he : c.alterTableDropColumn codec t name = some c') : Quiet c' := by
  unfold alterTableDropColumn at he
  split at he
  · cases he
  simp only [bind_eq_bind,bind_eq_some_iff] at he
  obtain ⟨tbl,ht,he⟩ := he
  split at he
  · cases he
  simp only [bind_eq_some_iff,some.injEq] at he
  obtain ⟨tbl',hchange,he⟩ := he
  obtain ⟨hschema,hs,hg⟩ := changeSchema_shape codec (hc.heaps t tbl ht).toHeapShape hchange
  simp only [dbStepOk,ht,Bool.and_eq_true,List.all_eq_true] at hok
  obtain ⟨hadd,honce⟩ := hok
  refine hc.alter (.ddlDropColumn t name) ht rfl rfl rfl rfl (fun i => by simp [WalRecord.opOn]) hs hg he.symm ?_ ?_
    (fun hself => by simpa [schemaSettled,hself,hasColumn,hschema] using honce)
  · -- no record of the log adds the column dropped
    intro rec hrec col htype hcol
    have hne : col.name ≠ name := by simpa [htype] using hadd rec hrec
    obtain ⟨x,hx,hxn⟩ := List.any_eq_true.mp hcol
    have hxn' : x.name = col.name := by simpa using hxn
    have hmem : x ∈ tbl.schema.eraseP (fun y => decide (y.name = name)) :=
      (mem_eraseP_of_neg (by simpa [hxn'] using hne)).mpr hx
    simpa [hasColumn,hschema] using ⟨x,hmem,hxn'⟩
  · intro rec hrec name' htype hcol
    simp only [hasColumn,List.any_eq_false] at hcol
    simpa [hasColumn,hschema] using fun x hx => hcol x (List.mem_of_mem_eraseP hx)

lemma dbStep_quiet (hok : c.dbStepOk s = true)
    (hs : c.dbStep codec s = some c') : Quiet c' := by
  cases s with
  | rows s => exact step_quiet hc hok hs
  | createTable t schema => exact createTable_quiet hc hok hs
  | dropTable t => exact dropTable_quiet hc hok hs
  | addColumn t col => exact addColumn_quiet codec hc hok hs
  | dropColumn t name => exact dropColumn_quiet codec hc hok hs

end

lemma dbRun_quiet (ss : List DbStep) (hc : Quiet c) (hok : c.dbRunOk codec ss = true)
    (hrun : c.dbRun codec ss = some c') : Quiet c' := by
  induction ss generalizing c with
  | nil =>
    cases hrun
    exact hc
  | cons s ss ih =>
    simp only [dbRun,bind_eq_bind,bind_eq_some_iff] at hrun
    obtain ⟨c₁,hone,hrest⟩ := hrun
    simp only [dbRunOk,hone,Bool.and_eq_true] at hok
    exact ih (dbStep_quiet codec hc hok.1 hone) hok.2 hrest

end changes

/-- Crash recovery across schema changes: after any run whose steps meet `dbStepOk`,
opening the directory gives every table the schema and the rows it had. -/
theorem dbRun_recovers_schema_and_rows {c c' : Catalog} {ss : List DbStep} (hc : AtRest c)
    (hok : c.dbRunOk codec ss = true) (hrun : c.dbRun codec ss = some c') :
    ∃ r, c'.recover codec = some r ∧ ∀ t, r.rowValues codec t = c'.rowValues codec t := by
  obtain ⟨r,hrec,hr⟩ := (dbRun_quiet codec ss hc.quiet hok hrun).recovers codec
  exact ⟨r,hrec,fun t => rowValues_of_reads codec (hr t)⟩

def intColumn (name : String) : ColumnDef := ⟨name,.int,false⟩

/-- The encoding of a row of integers. -/
def intRow (vs : List Int64) : Image :=
  inlineCodec.encode (vs.map (fun _ => intColumn "x")) (vs.map Value.int)

/-- A column is added to a table with rows, and another one dropped. -/
def widenAndNarrow : List DbStep :=
  [.createTable "T" [intColumn "a",intColumn "b"],.rows (.txn [.insert "T" (intRow [1,2])]),
   .addColumn "T" (intColumn "d"),.rows (.txn [.insert "T" (intRow [3,4,5])]),.rows (.flush "T" [1]),
   .dropColumn "T" "b",.createTable "U" [],.rows (.txn [.delete "T" ⟨1,1⟩])]

theorem widenAndNarrow_recovers : ∃ c', (fresh []).dbRun inlineCodec widenAndNarrow = some c' ∧
    ∃ r, c'.recover inlineCodec = some r ∧ ∀ t, r.rowValues inlineCodec t = c'.rowValues inlineCodec t := by
  have hsome : ((fresh []).dbRun inlineCodec widenAndNarrow).isSome = true := by decide +kernel
  obtain ⟨c',hrun⟩ := isSome_iff_exists.mp hsome
  exact ⟨c',hrun,dbRun_recovers_schema_and_rows inlineCodec (fresh_atRest (by simp)) (by decide +kernel) hrun⟩

/-- A column is dropped and added again, then written, and the page is flushed. -/
def dropAndAddAgain : List DbStep :=
  [.createTable "T" [intColumn "a",intColumn "b"],.rows (.txn [.insert "T" (intRow [1,2])]),
   .dropColumn "T" "b",.addColumn "T" (intColumn "b"),.rows (.txn [.update "T" ⟨1,0⟩ (intRow [1,7])]),
   .rows (.flush "T" [1])]

/-- Replay drops the new column by its name and adds it back empty; the page already
carries the LSN of the update, which is therefore not redone. -/
theorem recovery_empties_readded_column : AtRest (fresh []) ∧
    ((fresh []).dbRun inlineCodec dropAndAddAgain).bind (fun c => c.rowValues inlineCodec "T") =
      some ([intColumn "a",intColumn "b"],[some [.int 1,.int 7]]) ∧
    (((fresh []).dbRun inlineCodec dropAndAddAgain).bind (fun c => c.recover inlineCodec)).bind
      (fun c => c.rowValues inlineCodec "T") =
      some ([intColumn "a",intColumn "b"],[some [.int 1,.empty]]) :=
  ⟨fresh_atRest (by simp),by decide +kernel,by decide +kernel⟩

end Catalog
end PowDB.Storage
