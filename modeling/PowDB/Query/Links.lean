import PowDB.Query.SchemaNames

/-! Links between tables. A link is checked against the tables when it is declared; dropping a table
or a column that a link names is refused, adding a column is not looked at. -/
namespace PowDB.Query
open Storage (validateIdentifier)
open Lib List

structure LinkDef where
  ownerType : String
  name : String
  targetType : String
  localKey : String
  targetKey : String
  deriving DecidableEq

structure LinkedSchema where
  schema : SchemaState
  links : List LinkDef

namespace LinkedSchema

abbrev Answer := LinkedSchema × Except String Unit

def byName (s : LinkedSchema) (t : String) : Except String TableDef :=
  match s.schema.tables.lookup t with
  | none => .error s!"table '{t}' not found"
  | some d => .ok d

def checkLink (s : LinkedSchema) (l : LinkDef) : Except String Unit := do
  validateIdentifier "table" l.ownerType
  validateIdentifier "table" l.targetType
  validateIdentifier "column" l.name
  validateIdentifier "column" l.localKey
  validateIdentifier "column" l.targetKey
  let owner ← s.byName l.ownerType
  if (columnIndex owner.columns l.localKey).isNone then
    .error s!"link local key '{l.localKey}' is not a column on owner type '{l.ownerType}'"
  else if (columnIndex owner.columns l.name).isSome then
    .error s!"link name '{l.name}' collides with a column on owner type '{l.ownerType}'"
  else if s.links.any (fun l' => l'.ownerType == l.ownerType && l'.name == l.name) then
    .error s!"link '{l.name}' already exists on owner type '{l.ownerType}'"
  else do
    let target ← s.byName l.targetType
    if (columnIndex target.columns l.targetKey).isNone then
      .error s!"link target key '{l.targetKey}' is not a column on target type '{l.targetType}'"
    else .ok ()

def createLink (s : LinkedSchema) (l : LinkDef) : Answer :=
  match s.checkLink l with
  | .error e => (s,.error e)
  | .ok () => ({s with links := s.links++[l]},.ok ())

def dropLink (s : LinkedSchema) (owner name : String) : Answer :=
  match s.links.findIdx? (fun l => l.ownerType == owner && l.name == name) with
  | none => (s,.error s!"link '{name}' not found on owner type '{owner}'")
  | some i => ({s with links := s.links.eraseIdx i},.ok ())

def linkReferencingTable (s : LinkedSchema) (t : String) : Option LinkDef :=
  s.links.find? fun l => l.ownerType == t || l.targetType == t

def linkReferencingColumn (s : LinkedSchema) (t column : String) : Option LinkDef :=
  s.links.find? fun l => (l.ownerType == t && l.localKey == column) || (l.targetType == t && l.targetKey == column)

/-- What a drop that a link stands in the way of answers. -/
def pinned (what : String) (l : LinkDef) : String :=
  s!"{what}: link '{l.name}' on '{l.ownerType}' references it. Remove the link first with the embedded API " ++
    s!"`Catalog::drop_link(\"{l.ownerType}\", \"{l.name}\")`; PowQL has no statement that removes a link"

/-- A drop, which looks at the links once the table and the column were found. -/
def unlessPinned (s : LinkedSchema) (answer : SchemaState.Answer) (link : Option LinkDef) (what : String) : Answer :=
  match answer,link with
  | (_,.error e),_ => (s,.error e)
  | (_,.ok ()),some l => (s,.error (pinned what l))
  | (schema,.ok ()),none => ({s with schema := schema},.ok ())

def createTable (s : LinkedSchema) (name : String) (d : TableDef) : Answer :=
  let (schema,answer) := s.schema.createTableFull name d
  ({s with schema := schema},answer)

def dropTable (s : LinkedSchema) (name : String) : Answer :=
  s.unlessPinned (s.schema.dropTable name) (s.linkReferencingTable name) s!"cannot drop table '{name}'"

def alterTableAddColumn (s : LinkedSchema) (t : String) (col : StoredColumn) (hasRows : Bool) : Answer :=
  let (schema,answer) := s.schema.alterTableAddColumn t col hasRows
  ({s with schema := schema},answer)

def alterTableDropColumn (s : LinkedSchema) (t name : String) : Answer :=
  s.unlessPinned (s.schema.alterTableDropColumn t name) (s.linkReferencingColumn t name)
    s!"cannot drop column '{name}' from '{t}'"

end LinkedSchema

inductive LinkStep
  | createTable (name : String) (d : TableDef)
  | dropTable (name : String)
  | addColumn (table : String) (col : StoredColumn) (hasRows : Bool)
  | dropColumn (table name : String)
  | createLink (link : LinkDef)
  | dropLink (owner name : String)

namespace LinkedSchema

def step (s : LinkedSchema) : LinkStep → Option LinkedSchema
  | .createTable name d => some (s.createTable name d).1
  | .dropTable name => some (s.dropTable name).1
  | .addColumn t col hasRows => some (s.alterTableAddColumn t col hasRows).1
  | .dropColumn t name => some (s.alterTableDropColumn t name).1
  | .createLink l => some (s.createLink l).1
  | .dropLink owner name => some (s.dropLink owner name).1

def fresh (walOff : Bool) : LinkedSchema := ⟨⟨walOff,[],[],[]⟩,[]⟩

/-- A column that is added has the name of no link of its table. -/
def NamesNoLink (s : LinkedSchema) : LinkStep → Prop
  | .addColumn t col hasRows => (hasRows && col.required) = false → ∀ l ∈ s.links, l.ownerType = t → l.name ≠ col.name
  | _ => True

def HasColumn (d : TableDef) (name : String) : Prop := name ∈ d.columns.map (·.name)

/-- The tables and key columns a link names exist, and no column of its owner has its name. -/
structure LinkOk (tables : List (String × TableDef)) (l : LinkDef) : Prop where
  owner : ∃ d, tables.lookup l.ownerType = some d ∧ HasColumn d l.localKey ∧ ¬HasColumn d l.name
  target : ∃ d, tables.lookup l.targetType = some d ∧ HasColumn d l.targetKey

structure Linked (s : LinkedSchema) : Prop where
  sound : ∀ l ∈ s.links, LinkOk s.schema.tables l
  distinct : s.links.Pairwise fun l l' => ¬(l.ownerType = l'.ownerType ∧ l.name = l'.name)

variable {s : LinkedSchema} {l : LinkDef} {d d' : TableDef} {t name : String}

lemma columnIndex_isSome : (columnIndex d.columns name).isSome ↔ HasColumn d name := by
  simp [columnIndex,HasColumn]

lemma columnIndex_isNone : (columnIndex d.columns name).isNone ↔ ¬HasColumn d name := by
  simp [columnIndex,HasColumn]

/-- What a link asks of a table that changes. -/
def Follows (l : LinkDef) (t : String) (d d' : TableDef) : Prop :=
  (l.ownerType = t → (HasColumn d l.localKey → HasColumn d' l.localKey) ∧ (HasColumn d' l.name → HasColumn d l.name)) ∧
  (l.targetType = t → HasColumn d l.targetKey → HasColumn d' l.targetKey)

lemma LinkOk.change (h : LinkOk tables l) (hkept : ∀ t d, l.ownerType = t ∨ l.targetType = t →
    tables.lookup t = some d → ∃ d', tables'.lookup t = some d' ∧ Follows l t d d') : LinkOk tables' l where
  owner := by
    obtain ⟨d,hd,hkey,hname⟩ := h.owner
    obtain ⟨d',hd',hf⟩ := hkept _ d (.inl rfl) hd
    exact ⟨d',hd',(hf.1 rfl).1 hkey,hname ∘ (hf.1 rfl).2⟩
  target := by
    obtain ⟨d,hd,hkey⟩ := h.target
    obtain ⟨d',hd',hf⟩ := hkept _ d (.inr rfl) hd
    exact ⟨d',hd',hf.2 rfl hkey⟩

lemma LinkOk.keep (h : LinkOk tables l) (hkept : ∀ t d, l.ownerType = t ∨ l.targetType = t →
    tables.lookup t = some d → tables'.lookup t = some d) : LinkOk tables' l :=
  h.change fun t d ht hd => ⟨d,hkept t d ht hd,fun _ => ⟨id,id⟩,fun _ => id⟩

lemma LinkOk.replace (h : LinkOk tables l) (hd : tables.lookup t = some d) (hf : Follows l t d d') :
    LinkOk (replaceKey tables t d') l := by
  refine h.change fun t' d₀ ht' hd₀ => ?_
  by_cases he : t' = t
  · subst he
    cases hd.symm.trans hd₀
    exact ⟨d',lookup_replaceKey_self hd _,hf⟩
  · exact ⟨d₀,(lookup_replaceKey_of_ne _ he _).trans hd₀,fun _ => ⟨id,id⟩,fun _ => id⟩

/-- With table names that are all different. -/
structure Inv (s : LinkedSchema) : Prop extends Linked s where
  keys : (s.schema.tables.map Prod.fst).Nodup

lemma Inv.createTable (h : Inv s) : Inv (s.createTable name d).1 := by
  simp only [LinkedSchema.createTable,SchemaState.createTableFull]
  split
  · exact h
  · split
    · exact h
    · split
      · exact h
      · rename_i hnone
        have hnone := Option.not_isSome_iff_eq_none.mp hnone
        refine ⟨⟨fun l hl => (h.sound l hl).keep fun t d' _ hd' => ?_,h.distinct⟩,?_⟩
        · rw [SchemaState.store,lookup_append,hd']
          rfl
        · simp only [SchemaState.store,map_append,nodup_append,h.keys]
          simpa using fun x y hxy => ne_of_mem_of_not_mem (mem_map_of_mem hxy) (lookup_eq_none_iff.mp hnone)

lemma Inv.dropTable (h : Inv s) : Inv (s.dropTable name).1 := by
  simp only [LinkedSchema.dropTable,SchemaState.dropTable]
  split
  · exact h
  · split_ifs with hnone
    · exact h
    · obtain ⟨d,hd⟩ := Option.ne_none_iff_exists'.mp (mt Option.isNone_iff_eq_none.mpr hnone)
      unfold unlessPinned
      cases hpin : s.linkReferencingTable name with
      | some l => exact h
      | none =>
        refine ⟨⟨fun l hl => (h.sound l hl).keep fun t d' ht hd' => ?_,h.distinct⟩,(swapRemove_keys_nodup h.keys hd).2⟩
        have hfree := find?_eq_none.mp hpin l hl
        refine (lookup_swapRemove_of_ne h.keys hd fun he => hfree ?_).trans hd'
        rcases ht with ht | ht <;> simp [ht,he]

lemma Inv.addColumn (h : Inv s)
    (hname : NamesNoLink s (.addColumn t col hasRows)) : Inv (s.alterTableAddColumn t col hasRows).1 := by
  simp only [LinkedSchema.alterTableAddColumn,SchemaState.alterTableAddColumn]
  split
  · exact h
  · rename_i d hd
    have hadd : ∀ {n}, HasColumn (d.addColumn col) n ↔ HasColumn d n ∨ n = col.name := by
      simp [HasColumn,TableDef.addColumn]
    split
    · exact h
    · have hlogged := @logged_tables s.schema (.addColumn t col)
      split
      · exact ⟨⟨hlogged ▸ h.sound,h.distinct⟩,hlogged ▸ h.keys⟩
      · rename_i hfine
        rw [hlogged]
        refine ⟨⟨fun l hl => (h.sound l hl).replace hd ⟨?_,?_⟩,h.distinct⟩,?_⟩
        · refine fun ho => ⟨fun hn => hadd.mpr (.inl hn),fun hn => (hadd.mp hn).resolve_right ?_⟩
          exact hname (by simpa using hfine) l hl ho
        · exact fun _ hn => hadd.mpr (.inl hn)
        · simpa only [SchemaState.store,keys_replaceKey] using h.keys

lemma hasColumn_dropColumnAt (hi : columnIndex d.columns name = some i) :
    (HasColumn (d.dropColumnAt i) n → HasColumn d n) ∧ (n ≠ name → HasColumn d n → HasColumn (d.dropColumnAt i) n) := by
  obtain ⟨c,hc,hcn⟩ := columnIndex_some hi
  simp only [HasColumn,TableDef.dropColumnAt,WellFormed.renumber_names,← eraseIdx_map]
  refine ⟨mem_of_mem_eraseIdx,fun hne hn => ?_⟩
  obtain ⟨j,hj⟩ := getElem?_of_mem hn
  refine mem_eraseIdx_iff_getElem?.mpr ⟨j,?_,hj⟩
  rintro rfl
  rw [getElem?_map,hc] at hj
  exact hne ((Option.some.inj hj).symm.trans hcn)

lemma Inv.dropColumn (h : Inv s) : Inv (s.alterTableDropColumn t name).1 := by
  simp only [LinkedSchema.alterTableDropColumn,SchemaState.alterTableDropColumn]
  split
  · exact h
  · rename_i d hd
    split
    · exact h
    · rename_i i hi
      unfold unlessPinned
      cases hpin : s.linkReferencingColumn t name with
      | some l => exact h
      | none =>
        refine ⟨⟨fun l hl => (h.sound l hl).replace hd ?_,h.distinct⟩,
          by simpa only [SchemaState.store,keys_replaceKey] using h.keys⟩
        have hfree := find?_eq_none.mp hpin l hl
        simp only [Bool.or_eq_true,Bool.and_eq_true,beq_iff_eq,not_or,not_and] at hfree
        exact ⟨fun ho => ⟨(hasColumn_dropColumnAt hi).2 (hfree.1 ho),(hasColumn_dropColumnAt hi).1⟩,
          fun ht => (hasColumn_dropColumnAt hi).2 (hfree.2 ht)⟩

lemma byName_ok (h : s.byName t = .ok d) : s.schema.tables.lookup t = some d := by
  unfold byName at h
  split at h <;> cases h
  assumption

lemma Inv.createLink (h : Inv s) : Inv (s.createLink l).1 := by
  unfold LinkedSchema.createLink
  cases hcheck : s.checkLink l with
  | error e => exact h
  | ok _ =>
    simp only [checkLink,bind_ok_iff] at hcheck
    obtain ⟨-,-,-,-,-,-,-,-,-,-,owner,howner,hcheck⟩ := hcheck
    split_ifs at hcheck with hlocal hname hany
    obtain ⟨target,htarget,hcheck⟩ := bind_ok_iff.mp hcheck
    split_ifs at hcheck with hkey
    have howner := byName_ok howner
    have htarget := byName_ok htarget
    refine ⟨⟨?_,?_⟩,h.keys⟩
    · intro l' hl'
      rcases mem_append.mp hl' with hl' | hl'
      · exact h.sound l' hl'
      · cases mem_singleton.mp hl'
        exact ⟨⟨owner,howner,of_not_not (mt columnIndex_isNone.mpr hlocal),mt columnIndex_isSome.mpr hname⟩,
          ⟨target,htarget,of_not_not (mt columnIndex_isNone.mpr hkey)⟩⟩
    · rw [pairwise_append]
      refine ⟨h.distinct,pairwise_singleton _ _,?_⟩
      rintro l₁ hl₁ l₂ hl₂ ⟨ho,hn⟩
      cases mem_singleton.mp hl₂
      exact hany (any_eq_true.mpr ⟨l₁,hl₁,by simp [ho,hn]⟩)

lemma Inv.dropLink (h : Inv s) : Inv (s.dropLink owner name).1 := by
  unfold LinkedSchema.dropLink
  split
  · exact h
  · have hsub := eraseIdx_sublist s.links
    exact ⟨⟨fun l hl => h.sound l ((hsub _).subset hl),h.distinct.sublist (hsub _)⟩,h.keys⟩

lemma Inv.step (h : Inv s) (hok : NamesNoLink s a) (hs : s.step a = some s') :
    Inv s' := by
  cases a <;> cases hs
  case createTable => exact h.createTable
  case dropTable => exact h.dropTable
  case addColumn => exact h.addColumn hok
  case dropColumn => exact h.dropColumn
  case createLink => exact h.createLink
  case dropLink => exact h.dropLink

/-- In a run that gives no table a column with the name of one of its links, the links are well formed. -/
theorem links_stay_well_formed {walOff : Bool} {steps : List LinkStep} (hok : Meets step NamesNoLink (fresh walOff) steps)
    (hrun : runSteps step (fresh walOff) steps = some s) : Linked s := by
  have hfresh : Inv (fresh walOff) := ⟨⟨nofun,.nil⟩,.nil⟩
  exact (runSteps_inv (fun _ _ _ h hok hs => h.step hok hs) hfresh hok hrun).toLinked

/-- A table with a link to itself. -/
def linkedToItself : List LinkStep :=
  [.createTable "Person" ⟨[⟨"id",.int,true,0⟩],[],[]⟩,.createLink ⟨"Person","friend","Person","id","id"⟩]

theorem link_to_itself_well_formed :
    ∃ s, runSteps step (fresh false) linkedToItself = some s ∧ s.links.length = 1 ∧ Linked s := by
  refine ⟨_,rfl,by decide +kernel,@links_stay_well_formed _ false linkedToItself ?_ rfl⟩
  exact ⟨trivial,trivial,trivial⟩

/-- A column may take the name of a link. -/
theorem added_column_takes_link_name :
    ∃ s, runSteps step (fresh false) (linkedToItself++[.addColumn "Person" ⟨"friend",.str,false,1⟩ false]) = some s ∧
      ∃ l ∈ s.links, ∃ d, s.schema.tables.lookup l.ownerType = some d ∧ l.name ∈ d.columns.map (·.name) := by
  refine ⟨_,rfl,?_⟩
  decide +kernel

end LinkedSchema
end PowDB.Query
