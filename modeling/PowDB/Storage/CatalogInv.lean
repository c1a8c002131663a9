import PowDB.Storage.ScanSteps

/-! The invariant of the catalog and the statements that keep it. A statement
inside a transaction moves the heap of one table and appends row records for it
under the transaction's id. -/
namespace PowDB.Storage
open List WalRecordType
variable {t : String}

/-- The table a row record is about. -/
def WalRecordType.rowTable : WalRecordType → Option String
  | .insert t _ _ | .update t _ _ | .delete t _ | .overflowWrite t _ _ _ | .overflowFree t _ => some t
  | _ => none

/-- The table whose pages a record is about. -/
def WalRecordType.subject : WalRecordType → Option String
  | .ddlAddColumn t _ | .ddlDropColumn t _ => some t
  | type => type.rowTable

variable {type : WalRecordType}

lemma WalRecordType.subject_of_rowTable (h : type.rowTable = some t) :
    type.subject = some t := by
  cases type <;> simp_all [rowTable,subject]

lemma WalRecordType.subject_of_boundary (h : type.isBoundary = true) :
    type.subject = none := by
  cases type <;> simp_all [isBoundary,subject,rowTable]

lemma WalRecordType.isRow_of_rowTable (h : type.rowTable = some t) : type.isRow = true := by
  cases type <;> simp_all [rowTable,isRow]

lemma HeapInv.silent_of_subject {rec : WalRecord} (h : rec.type.subject ≠ some t) : HeapInv.Silent t rec := by
  obtain ⟨l,tx,type⟩ := rec
  cases type <;> simp_all [WalRecordType.subject,WalRecordType.rowTable,HeapInv.Silent,WalRecord.opOn]

namespace Catalog
variable {c : Catalog}

lemma table_setTable_self (h : c.table t = some tbl) (tbl' : Table) :
    (c.setTable t tbl').table t = some tbl' := Lib.lookup_replaceKey_self h tbl'

lemma table_setTable_other (c : Catalog) (hne : t' ≠ t) (tbl' : Table) :
    (c.setTable t tbl').table t' = c.table t' := Lib.lookup_replaceKey_of_ne _ hne tbl'

lemma setHeap_eq (h : c.table t = some tbl) (hp : HeapFile) :
    c.setHeap t hp = c.setTable t {tbl with heap := hp} := by
  simp [setHeap,h]

lemma table_setHeap_self (h : c.table t = some tbl) (hp : HeapFile) :
    (c.setHeap t hp).table t = some {tbl with heap := hp} := by
  rw [setHeap_eq h]
  exact table_setTable_self h _

lemma setHeap_setHeap (h : c.table t = some tbl) (h₁ h₂ : HeapFile) :
    (c.setHeap t h₁).setHeap t h₂ = c.setHeap t h₂ := by
  rw [setHeap_eq (table_setHeap_self h h₁) h₂,setHeap_eq h h₁,setHeap_eq h h₂]
  simp only [setTable,Lib.replaceKey_replaceKey]

@[simp] lemma setHeap_lastLsn (c : Catalog) (t : String) (hp : HeapFile) :
    (c.setHeap t hp).lastLsn = c.lastLsn := by
  unfold setHeap; split <;> rfl
@[simp] lemma setHeap_activeTx (c : Catalog) (t : String) (hp : HeapFile) :
    (c.setHeap t hp).activeTx = c.activeTx := by
  unfold setHeap; split <;> rfl
@[simp] lemma append_lastLsn (c : Catalog) (tx : ℕ) (type : WalRecordType) :
    (c.append tx type).lastLsn = c.lastLsn+1 := rfl

lemma append_setHeap (c : Catalog) (tx : ℕ) (type : WalRecordType) (t : String) (hp : HeapFile) :
    (c.append tx type).setHeap t hp = (c.setHeap t hp).append tx type := by
  unfold setHeap
  rw [show (c.append tx type).table t = c.table t from rfl]
  cases c.table t <;> rfl

/-- Append records in order. -/
def appendAll (c : Catalog) (tx : ℕ) (types : List WalRecordType) : Catalog :=
  {c with log := c.log++numbered c.lastLsn tx types, lastLsn := c.lastLsn+types.length}

lemma append_eq_appendAll (c : Catalog) (tx : ℕ) (type : WalRecordType) :
    c.append tx type = c.appendAll tx [type] := rfl

lemma appendAll_nil (c : Catalog) (tx : ℕ) : c.appendAll tx [] = c := by
  simp [appendAll,numbered]

lemma foldl_append (c : Catalog) (tx : ℕ) {β : Type} (f : β → WalRecordType) (xs : List β) :
    xs.foldl (fun c x => c.append tx (f x)) c = c.appendAll tx (xs.map f) := by
  induction xs generalizing c with
  | nil => simp [appendAll,numbered]
  | cons x xs ih =>
    rw [foldl_cons,ih]
    simp [appendAll,append,numbered,Nat.add_assoc,Nat.add_comm 1]

lemma appendAll_setHeap (c : Catalog) (tx : ℕ) (types : List WalRecordType) (t : String) (hp : HeapFile) :
    (c.appendAll tx types).setHeap t hp = (c.setHeap t hp).appendAll tx types := by
  unfold setHeap
  rw [show (c.appendAll tx types).table t = c.table t from rfl]
  cases c.table t <;> rfl

end Catalog

/-- What holds of the catalog between two statements. -/
structure CatInv (c : Catalog) : Prop where
  nodup : (c.tables.map Prod.fst).Nodup
  file : c.file = c.tables.map (fun x => (x.1,x.2.schema))
  log : LogOk c.log c.lastLsn
  heaps : ∀ t tbl, c.table t = some tbl → HeapInv t c.log c.lastLsn tbl.heap
  pending : ∀ x ∈ c.pendingFree, ∀ tbl, c.table x.1 = some tbl → ∀ i ∈ x.2, tbl.heap.Spare i

/-- The catalog `c'` is a later state of `c` in transaction `tx`: row records for
its tables were appended under its id, no table came or went, and spare pages stayed spare. -/
structure Advance (tx : ℕ) (c c' : Catalog) : Prop where
  inv : CatInv c'
  log : ∃ types, (∀ type ∈ types, ∃ t ∈ c.tables.map Prod.fst, type.rowTable = some t) ∧
    c'.log = c.log++numbered c.lastLsn tx types ∧ c'.lastLsn = c.lastLsn+types.length
  keys : c'.tables.map Prod.fst = c.tables.map Prod.fst
  activeTx : c'.activeTx = c.activeTx
  nextTxId : c'.nextTxId = c.nextTxId
  tables : ∀ t tbl, c.table t = some tbl → ∃ h', c'.table t = some {tbl with heap := h'} ∧
    ∀ {j}, tbl.heap.Spare j → h'.Spare j
  file : c'.file = c.file

namespace Advance

lemma refl (hc : CatInv c) : Advance tx c c where
  inv := hc
  log := ⟨[],by simp,by simp [numbered],rfl⟩
  keys := rfl
  activeTx := rfl
  nextTxId := rfl
  tables t tbl h := ⟨tbl.heap,h,id⟩
  file := rfl

lemma trans (h₁ : Advance tx c c') (h₂ : Advance tx c' c'') : Advance tx c c'' where
  inv := h₂.inv
  log := by
    obtain ⟨xs,hx,hl,hn⟩ := h₁.log
    obtain ⟨ys,hy,hl',hn'⟩ := h₂.log
    refine ⟨xs++ys,forall_mem_append.mpr ⟨hx,h₁.keys ▸ hy⟩,?_,?_⟩
    · rw [hl',hl,hn,numbered_append,append_assoc]
    · rw [hn',hn,length_append,Nat.add_assoc]
  keys := h₂.keys.trans h₁.keys
  activeTx := h₂.activeTx.trans h₁.activeTx
  nextTxId := h₂.nextTxId.trans h₁.nextTxId
  tables t tbl h := by
    obtain ⟨h',ht',hs⟩ := h₁.tables t tbl h
    obtain ⟨h'',ht'',hs'⟩ := h₂.tables t _ ht'
    exact ⟨h'',ht'',fun x => hs' (hs x)⟩
  file := h₂.file.trans h₁.file

end Advance

open Catalog

/-- The one way a statement changes the catalog: the heap of a table moves under
records for that table. -/
lemma CatInv.advance (types : List WalRecordType)
    (hc : CatInv c) (ht : c.table t = some tbl) (htypes : ∀ type ∈ types, type.rowTable = some t)
    (hh : HeapInv t (c.log++numbered c.lastLsn tx types) (c.lastLsn+types.length) h')
    (hspare : ∀ {j}, tbl.heap.Spare j → h'.Spare j) : Advance tx c ((c.setHeap t h').appendAll tx types) := by
  have hself : (c.setTable t {tbl with heap := h'}).table t = some {tbl with heap := h'} :=
    table_setTable_self ht _
  have hother {t' : String} (hne : t' ≠ t) : (c.setTable t {tbl with heap := h'}).table t' = c.table t' :=
    table_setTable_other c hne _
  have hmem : t ∈ c.tables.map Prod.fst := mem_map_of_mem (Lib.mem_of_lookup ht)
  have hkeys := Lib.keys_replaceKey c.tables t {tbl with heap := h'}
  rw [setHeap_eq ht]
  refine ⟨⟨hkeys.symm ▸ hc.nodup,?_,hc.log.append_numbered tx types,fun t' tbl' h => ?_,fun x hx tbl' h i hi => ?_⟩,
    ⟨types,fun type h => ⟨t,hmem,htypes type h⟩,rfl,rfl⟩,hkeys,rfl,rfl,fun t' tbl' h => ?_,rfl⟩
  · have hsame := Lib.map_replaceKey (w := {tbl with heap := h'}) hc.nodup ht Table.schema rfl
    exact hc.file.trans hsame.symm
  · by_cases hne : t' = t
    · subst hne
      cases h.symm.trans hself
      exact hh
    · refine (hc.heaps t' tbl' ((hother hne).symm.trans h)).silent_append (Nat.le_add_right _ _) (fun rec hrec =>
        HeapInv.silent_of_subject ?_)
      rw [subject_of_rowTable (htypes _ (mem_numbered hrec).1)]
      exact fun he => hne (Option.some.inj he).symm
  · by_cases hne : x.1 = t
    · cases (hne ▸ h).symm.trans hself
      exact hspare (hc.pending x hx tbl (hne ▸ ht) i hi)
    · exact hc.pending x hx tbl' ((hother hne).symm.trans h) i hi
  · by_cases hne : t' = t
    · subst hne
      cases h.symm.trans ht
      exact ⟨h',hself,hspare⟩
    · exact ⟨tbl'.heap,(hother hne).trans h,id⟩

/-- The heap of a table moves without a record. -/
lemma CatInv.advance_heap (tx : ℕ) (hc : CatInv c)
    (ht : c.table t = some tbl) (hh : HeapInv t c.log c.lastLsn h') (hspare : ∀ {j}, tbl.heap.Spare j → h'.Spare j) :
    Advance tx c (c.setHeap t h') ∧ (c.setHeap t h').log = c.log ∧ (c.setHeap t h').pendingFree = c.pendingFree := by
  refine ⟨?_,by rw [setHeap_eq ht]; rfl,by rw [setHeap_eq ht]; rfl⟩
  rw [← appendAll_nil (c.setHeap t h') tx]
  exact hc.advance [] ht (by simp) (by simpa [numbered] using hh) hspare

end PowDB.Storage
