import PowDB.Lib.AssocList
import PowDB.Storage.FileRun

/-! Which indexes the tables have, before a crash and after recovery. The catalog file holds
the indexes of every table; the log holds creations and drops of tables, and recovery
plays them over the file. -/
namespace PowDB.Storage
open List Option Lib Prod
/-- What a log holds about the declarations. -/
inductive DeclRecord
  | createTable (t : String) (schema : Schema)
  | dropTable (t : String)
  | row (t : String)
  deriving DecidableEq

/-- A store with its log since the last checkpoint. -/
structure LoggedStore where
  store : Store
  walOn : Bool
  log : List DeclRecord

/-- A row statement is any change of a table's rows and trees; it may end in a checkpoint. -/
inductive DeclStatement
  | createTable (t : String) (schema : Schema)
  | dropTable (t : String)
  | createIndex (t col : String) (unique : Bool)
  | rows (t : String) (tbl : IndexedTable) (records : ℕ)
  | checkpoint

/-- What no row statement changes about an index. -/
def Index.declared (ix : Index) : IndexKeySource × ℕ × Bool := (ix.source,ix.colIdx,ix.unique)

namespace LoggedStore
variable (pathKey : String → Value → Value)

/-- A statement goes into the log, if there is one, when the store accepted it. -/
def logged (s : LoggedStore) (records : List DeclRecord) (store : Option Store) : LoggedStore :=
  match store with
  | none => s
  | some store => {s with store := store,log := if s.walOn then s.log++records else s.log}

def runRows (s : Store) (t : String) (tbl : IndexedTable) : Option Store :=
  match s.table t with
  | none => none
  | some old =>
    if tbl.schema = old.schema ∧ tbl.indexes.map Index.declared = old.indexes.map Index.declared then
      some (s.setTable t tbl)
    else none

def step (s : LoggedStore) : DeclStatement → LoggedStore
  | .createTable t schema => s.logged [.createTable t schema] (s.store.createTable t schema)
  | .dropTable t => s.logged [.dropTable t] (s.store.dropTable t)
  | .createIndex t col unique => s.logged [] (s.store.createIndexUnique pathKey t col unique)
  | .rows t tbl records => s.logged (List.replicate records (.row t)) (runRows s.store t tbl)
  | .checkpoint => {s with store := s.store.checkpoint,log := []}

def run (s : LoggedStore) (xs : List DeclStatement) : LoggedStore := xs.foldl (step pathKey) s

/-- Opening a table leaves out the column indexes whose column is gone. -/
def openMeta (m : TableMeta) : TableMeta :=
  {m with indexes := m.indexes.filter fun i => !i.1.isColumn || (columnIndex m.schema i.1.root).isSome}

def replay (ms : List (String × TableMeta)) : DeclRecord → List (String × TableMeta)
  | .createTable t schema => if (ms.lookup t).isSome then ms else ms++[(t,⟨schema,[]⟩)]
  | .dropTable t => if (ms.lookup t).isSome then Lib.swapRemove ms t else ms
  | .row _ => ms

/-- The tables recovery finds, when the crash left the given part of the log. -/
def recover (s : LoggedStore) (kept : List DeclRecord) : List (String × TableMeta) :=
  kept.foldl replay (s.store.file.map fun x => (x.1,openMeta x.2))

end LoggedStore

/-- An index of a table, with its uniqueness. -/
def Declares (ms : List (String × TableMeta)) (t : String) (i : IndexKeySource × Bool) : Prop :=
  ∃ m, ms.lookup t = some m ∧ i ∈ m.indexes

/-- The catalog file is the live catalog's, names are not repeated, and indexes stand on columns. -/
structure Store.Persisted (s : Store) : Prop where
  file : s.file = Store.metas s.tables
  keys : (s.tables.map fst).Nodup
  roots : ∀ x ∈ s.tables, ∀ ix ∈ x.2.indexes, (columnIndex x.2.schema ix.source.root).isSome

namespace LoggedStore
variable {pathKey : String → Value → Value} {s : Store}
  {t : String} {tbl : IndexedTable}

open Store

lemma metas_keys (tables : List (String × IndexedTable)) :
    (metas tables).map fst = tables.map fst := by
  simp [metas]

lemma lookup_metas (tables : List (String × IndexedTable)) (t : String) : (metas tables).lookup t =
    (tables.lookup t).map fun tbl => ⟨tbl.schema,tbl.indexes.map fun ix => (ix.source,ix.unique)⟩ :=
  lookup_map_value tables
    (fun tbl : IndexedTable => (⟨tbl.schema,tbl.indexes.map fun ix : Index => (ix.source,ix.unique)⟩ : TableMeta)) t

/-! ### What a statement keeps -/

lemma persisted_createTable (h : s.Persisted) (hs' : s.createTable t schema = some s') :
    s'.Persisted := by
  rw [createTable] at hs'
  split at hs'
  · cases hs'
  split at hs'
  · cases hs'
  rename_i hnone
  cases hs'
  refine ⟨rfl,?_,?_⟩
  · have hnew : t ∉ s.tables.map fst := lookup_eq_none_iff.mp hnone
    simpa [persist,nodup_append] using ⟨h.keys,fun a x hx => by
      rintro rfl
      exact hnew (mem_map_of_mem hx)⟩
  · intro x hx
    obtain hx | rfl := mem_append.mp hx |>.imp_right mem_singleton.mp
    · exact h.roots x hx
    · simp

lemma persisted_dropTable (h : s.Persisted) (hs' : s.dropTable t = some s') : s'.Persisted := by
  rw [dropTable] at hs'
  split at hs'
  · cases hs'
  split at hs'
  · cases hs'
  rename_i tbl hsome
  cases hs'
  refine ⟨rfl,(swapRemove_keys_nodup h.keys hsome).2,fun x hx => ?_⟩
  exact h.roots x ((swapRemove_perm h.keys hsome).mem_iff.mpr (mem_cons_of_mem _ hx))

/-- A table is exchanged for one whose indexes stand on its columns. -/
lemma roots_replaceKey (h : s.Persisted)
    (htbl : ∀ ix ∈ tbl.indexes, (columnIndex tbl.schema ix.source.root).isSome) :
    ∀ x ∈ Lib.replaceKey s.tables t tbl, ∀ ix ∈ x.2.indexes, (columnIndex x.2.schema ix.source.root).isSome := by
  intro x hx
  obtain ⟨y,hy,rfl⟩ := mem_map.mp hx
  split
  · exact htbl
  · exact h.roots y hy

lemma persisted_createIndex (h : s.Persisted)
    (hs' : s.createIndexUnique pathKey t col unique = some s') : s'.Persisted := by
  obtain ⟨tbl,htbl,hs'⟩ := bind_eq_some_iff.mp hs'
  obtain ⟨colIdx,hcol,hs'⟩ := bind_eq_some_iff.mp hs'
  split at hs'
  · cases hs'
    exact ⟨rfl,h.keys,h.roots⟩
  · cases hs'
    refine ⟨rfl,?_,?_⟩
    · rw [pushIndex,persist,setTable]
      simpa [keys_replaceKey] using h.keys
    · apply roots_replaceKey h
      intro ix hix
      obtain hix | rfl := mem_append.mp hix |>.imp_right mem_singleton.mp
      · exact h.roots (t,tbl) (mem_of_lookup htbl) ix hix
      · simp [IndexKeySource.root,hcol]

lemma metas_replaceKey (hkeys : (s.tables.map Prod.fst).Nodup) (hold : s.table t = some old)
    (hschema : tbl.schema = old.schema) (hindexes : tbl.indexes.map Index.declared = old.indexes.map Index.declared) :
    Store.metas (Lib.replaceKey s.tables t tbl) = Store.metas s.tables := by
  have hpairs : tbl.indexes.map (fun ix => (ix.source,ix.unique)) = old.indexes.map (fun ix => (ix.source,ix.unique)) := by
    have := congrArg (List.map fun d : IndexKeySource × ℕ × Bool => (d.1,d.2.2)) hindexes
    simpa [Index.declared,Function.comp_def] using this
  rw [Store.metas,Store.metas,Lib.replaceKey,List.map_map]
  apply map_congr_left
  intro x hx
  by_cases hxt : x.1 = t
  · have hxold : x.2 = old := by
      have hlookup := lookup_of_mem hkeys (k := x.1) (v := x.2) hx
      rw [hxt] at hlookup
      exact some.inj (hlookup.symm.trans hold)
    simp [hxt,hxold,hschema,hpairs]
  · simp [hxt]

lemma persisted_runRows (h : s.Persisted) (hs' : runRows s t tbl = some s') : s'.Persisted := by
  rw [runRows] at hs'
  split at hs'
  · cases hs'
  rename_i old hold
  split at hs'
  · rename_i hsame
    cases hs'
    refine ⟨?_,?_,roots_replaceKey h fun ix hix => ?_⟩
    · exact h.file.trans (metas_replaceKey h.keys hold hsame.1 hsame.2).symm
    · simpa [setTable,keys_replaceKey] using h.keys
    · have hmem : ix.declared ∈ old.indexes.map Index.declared := hsame.2 ▸ mem_map_of_mem hix
      obtain ⟨ix',hix',heq⟩ := mem_map.mp hmem
      have hroot := h.roots (t,old) (mem_of_lookup hold) ix' hix'
      have hsource : ix'.source = ix.source := congrArg fst heq
      rw [hsame.1,← hsource]
      exact hroot
  · cases hs'

lemma persisted_checkpoint (h : s.Persisted) : s.checkpoint.Persisted := by
  refine ⟨?_,?_,?_⟩
  · rw [checkpoint,h.file]
    simp [metas]
  · simpa [checkpoint,Function.comp_def] using h.keys
  · intro x hx ix hix
    obtain ⟨y,hy,rfl⟩ := mem_map.mp hx
    obtain ⟨ix',hix',rfl⟩ := mem_map.mp hix
    exact h.roots y hy ix' hix'

lemma persisted_logged {s : LoggedStore} {store : Option Store} (h : s.store.Persisted)
    (hstore : ∀ s', store = some s' → s'.Persisted) : (s.logged records store).store.Persisted := by
  cases store with
  | none => exact h
  | some s' => exact hstore s' rfl

lemma persisted_step {s : LoggedStore} (h : s.store.Persisted) (x : DeclStatement) :
    (s.step pathKey x).store.Persisted := by
  cases x with
  | createTable t schema => exact persisted_logged h fun _ hs' => persisted_createTable h hs'
  | dropTable t => exact persisted_logged h fun _ hs' => persisted_dropTable h hs'
  | createIndex t col unique => exact persisted_logged h fun _ hs' => persisted_createIndex h hs'
  | rows t tbl records => exact persisted_logged h fun _ hs' => persisted_runRows h hs'
  | checkpoint => exact persisted_checkpoint h

lemma persisted_run (pathKey : String → Value → Value) {s : LoggedStore} (h : s.store.Persisted)
    (xs : List DeclStatement) : (s.run pathKey xs).store.Persisted := by
  induction xs generalizing s with
  | nil => exact h
  | cons x xs ih => exact ih (persisted_step h x)

/-! ### What replay does to a table -/
section Replay
variable {ms : List (String × TableMeta)}

section
variable (h : (ms.map fst).Nodup)
include h

lemma replay_keys (r : DeclRecord) : ((replay ms r).map fst).Nodup := by
  cases r with
  | row t => exact h
  | createTable t schema =>
    rw [replay]
    split
    · exact h
    · rename_i hnone
      have hnew : t ∉ ms.map fst := lookup_eq_none_iff.mp (not_isSome_iff_eq_none.mp hnone)
      rw [map_append,nodup_append]
      refine ⟨h,by simp,fun a ha b hb => ?_⟩
      rintro rfl
      obtain rfl : a = t := by simpa using hb
      exact hnew ha
  | dropTable t =>
    rw [replay]
    split
    · rename_i hsome
      obtain ⟨m,hm⟩ := isSome_iff_exists.mp hsome
      exact (swapRemove_keys_nodup h hm).2
    · exact h

lemma lookup_replay_of_kept (hm : ms.lookup t = some m)
    (hr : r ≠ .dropTable t) : (replay ms r).lookup t = some m := by
  cases r with
  | row t' => exact hm
  | createTable t' schema =>
    rw [replay]
    split
    · exact hm
    · rw [lookup_append,hm]
      rfl
  | dropTable t' =>
    have hne : t ≠ t' := by
      rintro rfl
      exact hr rfl
    rw [replay]
    split
    · rename_i hsome
      obtain ⟨m',hm'⟩ := isSome_iff_exists.mp hsome
      rw [lookup_swapRemove_of_ne h hm' hne,hm]
    · exact hm

lemma lookup_replay_dropTable (t : String) :
    (replay ms (.dropTable t)).lookup t = none := by
  rw [replay]
  split
  · rename_i hsome
    obtain ⟨m,hm⟩ := isSome_iff_exists.mp hsome
    exact lookup_eq_none_iff.mpr (swapRemove_keys_nodup h hm).1
  · rename_i hnone
    exact not_isSome_iff_eq_none.mp hnone

/-- A table replay makes has no indexes, so one without stays without. -/
lemma bare_replay (hbare : ∀ m, ms.lookup t = some m → m.indexes = [])
    (r : DeclRecord) : ∀ m, (replay ms r).lookup t = some m → m.indexes = [] := by
  intro m hm
  cases r with
  | row t' => exact hbare m hm
  | createTable t' schema =>
    rw [replay] at hm
    split at hm
    · exact hbare m hm
    · rw [lookup_append] at hm
      cases hold : ms.lookup t with
      | some m' =>
        rw [hold] at hm
        exact hbare m (hold.trans hm)
      | none =>
        rw [hold,none_or] at hm
        have hmem := mem_singleton.mp (mem_of_lookup hm)
        rw [show m = ⟨schema,[]⟩ from congrArg snd hmem]
  | dropTable t' =>
    by_cases hne : t = t'
    · subst hne
      rw [lookup_replay_dropTable h] at hm
      cases hm
    · rw [replay] at hm
      split at hm
      · rename_i hsome
        obtain ⟨m',hm'⟩ := isSome_iff_exists.mp hsome
        rw [lookup_swapRemove_of_ne h hm' hne] at hm
        exact hbare m hm
      · exact hbare m hm

lemma lookup_replayAll_of_kept {kept : List DeclRecord}
    (hm : ms.lookup t = some m) (hkept : DeclRecord.dropTable t ∉ kept) : (kept.foldl replay ms).lookup t = some m := by
  induction kept generalizing ms with
  | nil => exact hm
  | cons r kept ih =>
    obtain ⟨hr,hrest⟩ : r ≠ .dropTable t ∧ DeclRecord.dropTable t ∉ kept := by
      simpa [eq_comm] using hkept
    exact ih (replay_keys h r) (lookup_replay_of_kept h hm hr) hrest

end

lemma bare_replayAll (kept : List DeclRecord) (h : (ms.map fst).Nodup)
    (hbare : ∀ m, ms.lookup t = some m → m.indexes = []) :
    ∀ m, (kept.foldl replay ms).lookup t = some m → m.indexes = [] := by
  induction kept generalizing ms with
  | nil => exact hbare
  | cons r kept ih => exact ih (replay_keys h r) (bare_replay h hbare r)

lemma bare_of_dropped {kept : List DeclRecord} (h : (ms.map Prod.fst).Nodup)
    (hdrop : DeclRecord.dropTable t ∈ kept) : ∀ m, (kept.foldl replay ms).lookup t = some m → m.indexes = [] := by
  induction kept generalizing ms with
  | nil => simp at hdrop
  | cons r kept ih =>
    obtain rfl | hdrop := mem_cons.mp hdrop
    · apply bare_replayAll kept (replay_keys h _)
      intro m hm
      rw [lookup_replay_dropTable h] at hm
      cases hm
    · exact ih (replay_keys h r) hdrop

end Replay

/-- Every table of the live catalog is read back as it is. -/
lemma openMeta_metas (h : s.Persisted) : (s.file.map fun x => (x.1,openMeta x.2)) = metas s.tables := by
  rw [h.file,metas,List.map_map]
  apply List.map_congr_left
  intro x hx
  have hall : ∀ i ∈ x.2.indexes.map (fun ix => (ix.source,ix.unique)),
      (!i.1.isColumn || (columnIndex x.2.schema i.1.root).isSome) = true := by
    intro i hi
    obtain ⟨ix,hix,rfl⟩ := mem_map.mp hi
    simp [h.roots x hx ix hix]
  simp [openMeta,filter_eq_self.mpr hall]

/-- After any run and any crash, recovery has exactly the live indexes unless what is left of
the log holds a drop of a table that has an index now. -/
theorem declarations_survive_iff (pathKey : String → Value → Value) (s₀ : LoggedStore) (h₀ : s₀.store.Persisted) (xs : List DeclStatement)
    (kept : List DeclRecord) :
    (∀ t i, Declares ((s₀.run pathKey xs).recover kept) t i ↔
        Declares (metas (s₀.run pathKey xs).store.tables) t i) ↔
      ∀ t tbl, (s₀.run pathKey xs).store.table t = some tbl → tbl.indexes ≠ [] → DeclRecord.dropTable t ∉ kept := by
  have h := persisted_run pathKey h₀ xs
  generalize s₀.run pathKey xs = s at h ⊢
  have hkeys : ((metas s.store.tables).map fst).Nodup := by
    rw [metas_keys]
    exact h.keys
  rw [recover,openMeta_metas h]
  constructor
  · -- a dropped table comes back without its indexes
    intro hsame t tbl htbl hne hdrop
    obtain ⟨ix,hix⟩ := exists_mem_of_ne_nil _ hne
    have hmeta : (metas s.store.tables).lookup t =
        some ⟨tbl.schema,tbl.indexes.map (fun ix => (ix.source,ix.unique))⟩ := by
      rw [lookup_metas,show s.store.tables.lookup t = some tbl from htbl]
      rfl
    have hlive : Declares (metas s.store.tables) t (ix.source,ix.unique) :=
      ⟨_,hmeta,mem_map_of_mem hix⟩
    obtain ⟨m,hm,hi⟩ := (hsame t _).mpr hlive
    rw [bare_of_dropped hkeys hdrop m hm] at hi
    cases hi
  · intro hnodrop t i
    cases htbl : s.store.table t with
    | none =>
      have hnone : (metas s.store.tables).lookup t = none := by
        rw [lookup_metas,show s.store.tables.lookup t = none from htbl]
        rfl
      have hbare := bare_replayAll (t := t) kept hkeys fun m hm => by
        rw [hnone] at hm
        cases hm
      constructor
      · rintro ⟨m,hm,hi⟩
        rw [hbare m hm] at hi
        cases hi
      · rintro ⟨m,hm,-⟩
        rw [hnone] at hm
        cases hm
    | some tbl =>
      have hmeta : (metas s.store.tables).lookup t =
          some ⟨tbl.schema,tbl.indexes.map (fun ix => (ix.source,ix.unique))⟩ := by
        rw [lookup_metas,show s.store.tables.lookup t = some tbl from htbl]
        rfl
      by_cases hne : tbl.indexes = []
      · have hbare := bare_replayAll (t := t) kept hkeys fun m hm => by
          rw [← some.inj (hmeta.symm.trans hm),hne]
          rfl
        constructor
        · rintro ⟨m,hm,hi⟩
          rw [hbare m hm] at hi
          cases hi
        · rintro ⟨m,hm,hi⟩
          rw [← some.inj (hmeta.symm.trans hm),hne] at hi
          cases hi
      · have hkept' := lookup_replayAll_of_kept hkeys hmeta (hnodrop t tbl htbl hne)
        simp only [Declares,hkept',hmeta]

/-- An empty data directory with its log on. -/
def fresh : LoggedStore := ⟨Store.fresh,true,[]⟩

lemma fresh_persisted : fresh.store.Persisted := ⟨rfl,nodup_nil,by simp [fresh,Store.fresh]⟩

def keySchema : Schema := [⟨"a",.int,true⟩]

/-- A table with a unique index, beside one that is dropped and made again. -/
def calmStatements : List DeclStatement :=
  [.createTable "t" keySchema,.createIndex "t" "a" true,.createTable "u" keySchema,.dropTable "u",
    .createTable "u" keySchema]

theorem calmStatements_keep_index :
    Declares ((fresh.run (fun _ v => v) calmStatements).recover (fresh.run (fun _ v => v) calmStatements).log) "t"
      (.column "a",true) := by
  have hnodrop : ∀ t tbl, (fresh.run (fun _ v => v) calmStatements).store.table t = some tbl → tbl.indexes ≠ [] →
      DeclRecord.dropTable t ∉ (fresh.run (fun _ v => v) calmStatements).log := by
    have htables : ∀ x ∈ (fresh.run (fun _ v => v) calmStatements).store.tables, x.2.indexes ≠ [] →
        DeclRecord.dropTable x.1 ∉ (fresh.run (fun _ v => v) calmStatements).log := by decide +kernel
    exact fun t tbl htbl => htables (t,tbl) (mem_of_lookup htbl)
  have hsame := (declarations_survive_iff (fun _ v => v) fresh fresh_persisted calmStatements
    (fresh.run (fun _ v => v) calmStatements).log).mpr hnodrop
  apply (hsame "t" (.column "a",true)).mpr
  exact ⟨⟨keySchema,[(.column "a",true)]⟩,by decide +kernel,by decide⟩

/-- A table dropped and made again, then indexed. -/
def recreated : List DeclStatement :=
  [.createTable "t" keySchema,.dropTable "t",.createTable "t" keySchema,.createIndex "t" "a" true]

/-- The drop in the log is played over the catalog file and takes the new index with it. -/
theorem recreated_loses_index :
    (Store.metas (fresh.run (fun _ v => v) recreated).store.tables).lookup "t" =
      some ⟨keySchema,[(.column "a",true)]⟩ ∧
    ((fresh.run (fun _ v => v) recreated).recover (fresh.run (fun _ v => v) recreated).log).lookup "t" =
      some ⟨keySchema,[]⟩ := by
  decide +kernel

end LoggedStore
end PowDB.Storage
