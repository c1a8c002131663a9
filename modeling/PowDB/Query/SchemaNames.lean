import PowDB.Query.SchemaStatements

/-! The names and positions of columns along runs of schema statements, and what rows built by
name read back. -/
namespace PowDB.Query
open Storage (Value TypeId maxRowDataSize validateIdentifier)
open Lib List
/-- The names are distinct, and each column is numbered by its place. -/
structure WellFormed (columns : List StoredColumn) : Prop where
  names : (columns.map (·.name)).Nodup
  positions : ∀ (i : ℕ) (c : StoredColumn), columns[i]? = some c → c.position.toNat = i

namespace WellFormed

lemma length_le (h : WellFormed columns) : columns.length ≤ 2^16 := by
  by_contra hlt
  have hlast : 2^16 < columns.length := by omega
  have hpos := h.positions _ _ (getElem?_eq_getElem hlast)
  have hbound := (columns[2^16]).position.toNat_lt
  omega

lemma append (h : WellFormed columns) (hname : ∀ c ∈ columns, c.name ≠ col.name)
    (hpos : col.position.toNat = columns.length) : WellFormed (columns++[col]) := by
  constructor
  · rw [map_append,nodup_append]
    refine ⟨h.names,by simp,?_⟩
    intro a ha b hb hab
    obtain ⟨c,hc,rfl⟩ := mem_map.mp ha
    exact hname c hc (by simpa [hab] using hb)
  · intro i c hi
    rcases lt_trichotomy i columns.length with hlt | rfl | hgt
    · exact h.positions i c (by rwa [getElem?_append_left hlt] at hi)
    · rw [getElem?_concat_length] at hi
      rwa [← Option.some.inj hi]
    · rw [getElem?_eq_none (by simp; omega)] at hi
      cases hi

lemma renumber_names (columns : List StoredColumn) : (renumber columns).map (·.name) = columns.map (·.name) := by
  apply ext_getElem?
  intro i
  rw [renumber,getElem?_map,getElem?_mapIdx,getElem?_map,Option.map_map]
  rfl

/-- Renumbering a list of columns with distinct names makes it well formed. -/
lemma renumber (hnames : (columns.map (·.name)).Nodup) (hlen : columns.length ≤ 2^16) :
    WellFormed (renumber columns) := by
  constructor
  · rwa [renumber_names]
  · intro i c hi
    rw [Query.renumber,getElem?_mapIdx] at hi
    obtain ⟨c',hc',rfl⟩ := Option.map_eq_some_iff.mp hi
    have hlt := (List.getElem?_eq_some_iff.mp hc').1
    exact UInt16.toNat_ofNat_of_lt (show i < 2^16 by omega)

lemma dropColumnAt {d : TableDef} (h : WellFormed d.columns) (i : ℕ) : WellFormed (d.dropColumnAt i).columns := by
  refine renumber ?_ ?_
  · rw [← eraseIdx_map]
    exact h.names.sublist (eraseIdx_sublist _ _)
  · exact (length_eraseIdx_le _ _).trans h.length_le

/-- Every column is found at its place by its name. -/
lemma columnIndex_eq (h : WellFormed columns) (hi : columns[i]? = some c) :
    columnIndex columns c.name = some i := by
  obtain ⟨hlt,rfl⟩ := List.getElem?_eq_some_iff.mp hi
  rw [columnIndex,findIdx?_eq_some_iff_getElem]
  refine ⟨hlt,by simp,?_⟩
  intro j hj
  have hne := pairwise_iff_getElem.mp h.names j i (by simp; omega) (by simpa using hlt) hj
  simpa using hne

end WellFormed

/-- Every table of the list is well formed. -/
def AllWellFormed (tables : List (String × TableDef)) : Prop := ∀ x ∈ tables, WellFormed x.2.columns

namespace AllWellFormed

section
variable (h : AllWellFormed tables)
include h

lemma lookup (ht : tables.lookup t = some d) : WellFormed d.columns :=
  h _ (mem_of_lookup ht)

lemma append (hd : WellFormed d.columns) : AllWellFormed (tables++[(t,d)]) := by
  intro x hx
  rcases mem_append.mp hx with hx | hx
  · exact h x hx
  · rw [mem_singleton.mp hx]
    exact hd

lemma replaceKey (hd : WellFormed d.columns) :
    AllWellFormed (Lib.replaceKey tables t d) := by
  intro x hx
  obtain ⟨y,hy,rfl⟩ := mem_map.mp hx
  split_ifs
  · exact hd
  · exact h y hy

lemma swapRemove : AllWellFormed (Lib.swapRemove tables t) := by
  unfold Lib.swapRemove
  split
  case h_1 i last hi hlast =>
    intro x hx
    rcases mem_or_eq_of_mem_set ((dropLast_sublist _).subset hx) with hx | rfl
    · exact h x hx
    · exact h x (mem_of_getLast? hlast)
  case h_2 => exact h

end

end AllWellFormed

/-- A column that replay adds comes to the place it was numbered for. -/
def Fits (tables : List (String × TableDef)) : DdlRecord → Prop
  | .addColumn t col => ∀ d ∈ tables.lookup t, (∀ c ∈ d.columns, c.name ≠ col.name) →
    col.position.toNat = d.columns.length
  | _ => True

instance (tables : List (String × TableDef)) : (r : DdlRecord) → Decidable (Fits tables r)
  | .addColumn _ _ => inferInstanceAs (Decidable (∀ _ ∈ _, _))
  | .createTable _ _ | .dropTable _ | .dropColumn _ _ => .isTrue trivial

def FitsReplay (tables : List (String × TableDef)) : List DdlRecord → Prop
  | [] => True
  | r::rs => Fits tables r ∧ FitsReplay (replayRecord tables r) rs

instance decidableFitsReplay (tables : List (String × TableDef)) : (log : List DdlRecord) → Decidable (FitsReplay tables log)
  | [] => .isTrue trivial
  | r::rs =>
    have := decidableFitsReplay (replayRecord tables r) rs
    inferInstanceAs (Decidable (_ ∧ _))

/-- The tables that the log creates are well formed. -/
def LogWellFormed (log : List DdlRecord) : Prop := ∀ name d, .createTable name d ∈ log → WellFormed d.columns

variable {tables : List (String × TableDef)} {fields : List FieldDef}

lemma replayRecord_wellFormed (h : AllWellFormed tables)
    (hfit : Fits tables r) (hr : ∀ name d, r = .createTable name d → WellFormed d.columns) :
    AllWellFormed (replayRecord tables r) := by
  cases r with
  | createTable name d =>
    rw [replayRecord]
    split_ifs
    · exact h
    · exact h.append (hr name d rfl)
  | dropTable name => exact h.swapRemove
  | addColumn t col =>
    rw [replayRecord]
    cases ht : tables.lookup t with
    | none => exact h
    | some d =>
      dsimp only
      split_ifs with hany
      · exact h
      · have hname : ∀ c ∈ d.columns, c.name ≠ col.name := by simpa using hany
        exact h.replaceKey ((h.lookup ht).append hname (hfit d ht hname))
  | dropColumn t name =>
    rw [replayRecord]
    cases ht : tables.lookup t with
    | none => exact h
    | some d =>
      dsimp only
      cases columnIndex d.columns name with
      | none => exact h
      | some i => exact h.replaceKey ((h.lookup ht).dropColumnAt i)

lemma replay_wellFormed (h : AllWellFormed tables)
    (hlog : LogWellFormed log) (hfit : FitsReplay tables log) : AllWellFormed (log.foldl replayRecord tables) := by
  induction log generalizing tables with
  | nil => exact h
  | cons r rs ih =>
    have hr : ∀ name d, r = .createTable name d → WellFormed d.columns := by
      rintro name d rfl
      exact hlog name d mem_cons_self
    exact ih (replayRecord_wellFormed h hfit.1 hr) (fun name d hd => hlog name d (mem_cons_of_mem _ hd)) hfit.2

/-! Declared columns. -/

section fields

lemma columnOfField_eq
    (h : columnOfField coerceValue f i = .ok x) : x.1.name = f.name ∧ x.1.position = UInt16.ofNat i := by
  obtain ⟨typeId,-,h⟩ := bind_ok_iff.mp h
  obtain ⟨default,-,h⟩ := bind_ok_iff.mp h
  split_ifs at h
  cases h
  exact ⟨rfl,rfl⟩

lemma columnsOfFields_eq
    (h : columnsOfFields coerceValue i fields = .ok cols) : (cols.map Prod.fst).map (·.name) = fields.map (·.name) ∧
    ∀ (k : ℕ) (c : StoredColumn), (cols.map Prod.fst)[k]? = some c → c.position = UInt16.ofNat (i+k) := by
  induction fields generalizing i cols with
  | nil =>
    cases h
    exact ⟨rfl,nofun⟩
  | cons f fs ih =>
    obtain ⟨x,hx,h⟩ := bind_ok_iff.mp h
    obtain ⟨xs,hxs,h⟩ := bind_ok_iff.mp h
    cases h
    obtain ⟨hname,hpos⟩ := columnOfField_eq hx
    obtain ⟨hnames,hposs⟩ := ih hxs
    refine ⟨by rw [map_cons,map_cons,hname,hnames,map_cons],?_⟩
    rintro (_ | k) c hc
    · cases hc
      exact hpos
    · have := hposs k c hc
      rwa [Nat.add_right_comm] at this

end fields

/-- A row takes at least one bit for each column. -/
lemma length_of_room
    (h : refuseSchemaWithNoRoomForARow table columns = .ok ()) : columns.length < 2^16 := by
  unfold refuseSchemaWithNoRoomForARow at h
  dsimp only at h
  split_ifs at h with hsize
  have hbitmap : (columns.length+7)/8 ≤ (Storage.RowFormat.encodeRow (columns.map StoredColumn.toColumnDef)
      (List.replicate columns.length .empty)).length := by
    simp only [Storage.RowFormat.encodeRow,length_append,Storage.RowFormat.nullBitmap,length_map,
      length_range,length_replicate]
    omega
  have hmax : maxRowDataSize = 4070 := rfl
  omega

lemma wellFormed_of_fields
    (h : columnsOfFields coerceValue 0 fields = .ok cols)
    (hnames : (fields.map (·.name)).Nodup) (hlen : (cols.map Prod.fst).length < 2^16) :
    WellFormed (cols.map Prod.fst) := by
  obtain ⟨hmap,hpos⟩ := columnsOfFields_eq h
  refine ⟨by rwa [hmap],?_⟩
  intro i c hc
  have hi := (List.getElem?_eq_some_iff.mp hc).1
  rw [hpos i c hc,Nat.zero_add]
  exact UInt16.toNat_ofNat_of_lt (show i < 2^16 by omega)

lemma wellFormed_deriveViewSchema (hnames : (columns.map Prod.fst).Nodup)
    (hlen : columns.length < 2^16) : WellFormed (SchemaState.deriveViewSchema columns).columns := by
  constructor
  · have hmap : (SchemaState.deriveViewSchema columns).columns.map (·.name) = columns.map Prod.fst := by
      apply List.ext_getElem?
      intro i
      rw [SchemaState.deriveViewSchema,List.getElem?_map,List.getElem?_mapIdx,List.getElem?_map,Option.map_map]
      rfl
    rwa [hmap]
  · intro i c hi
    rw [SchemaState.deriveViewSchema,List.getElem?_mapIdx] at hi
    obtain ⟨c',hc',rfl⟩ := Option.map_eq_some_iff.mp hi
    have hlt := (List.getElem?_eq_some_iff.mp hc').1
    exact UInt16.toNat_ofNat_of_lt (show i < 2^16 by omega)

/-! The statements. -/

/-- The tables in memory and in the file, and those the log creates, are well formed. -/
structure SchemaInv (s : SchemaState) : Prop where
  tables : AllWellFormed s.tables
  file : AllWellFormed s.file
  log : LogWellFormed s.log

/-- The names that are declared together differ, where a table is created. -/
def Declared (s : SchemaState) : SchemaStmt → Prop
  | .createType name fields _ => s.tables.lookup name = none → (fields.map (·.name)).Nodup
  | .createView name columns => s.tables.lookup name = none → (columns.map Prod.fst).Nodup ∧ columns.length < 2^16
  | _ => True

section statements
variable {coerceValue : Value → StoredColumn → Except String Value} {s : SchemaState}

section
variable (h : SchemaInv s)
include h

lemma SchemaInv.logged (r : DdlRecord)
    (hr : ∀ name d, r = .createTable name d → WellFormed d.columns) : SchemaInv (s.logged r) := by
  unfold SchemaState.logged
  split_ifs
  · exact h
  · refine ⟨h.tables,h.file,?_⟩
    intro name d hd
    rcases mem_append.mp hd with hd | hd
    · exact h.log name d hd
    · exact hr name d (mem_singleton.mp hd).symm

lemma SchemaInv.store (ht : AllWellFormed tables) :
    SchemaInv (s.store tables) := ⟨ht,ht,h.log⟩

lemma SchemaInv.createTableFull
    (hd : s.tables.lookup name = none → WellFormed d.columns) : SchemaInv (s.createTableFull name d).1 := by
  unfold SchemaState.createTableFull
  split
  · exact h
  · split
    · exact h
    · split_ifs with hsome
      · exact h
      · have hd := hd (Option.not_isSome_iff_eq_none.mp hsome)
        refine (h.logged (.createTable name d) ?_).store (h.tables.append hd)
        rintro _ _ ⟨⟩
        exact hd

lemma SchemaInv.createType
    (hok : s.tables.lookup name = none → (fields.map (·.name)).Nodup) :
    SchemaInv (s.createType coerceValue name fields ifNotExists).1 := by
  unfold SchemaState.createType
  by_cases hsome : (s.tables.lookup name).isSome = true
  · rw [if_pos hsome]
    exact h
  · rw [if_neg hsome]
    split
    case h_1 => exact h
    case h_2 cols hcols =>
      split
      case h_1 => exact h
      case h_2 hroom =>
        exact h.createTableFull fun hnone => wellFormed_of_fields hcols (hok hnone) (length_of_room hroom)

lemma SchemaInv.dropTable : SchemaInv (s.dropTable name).1 := by
  unfold SchemaState.dropTable
  split
  · exact h
  · split_ifs
    · exact h
    · exact (h.logged (.dropTable name) fun _ _ hr => nomatch hr).store h.tables.swapRemove

end

@[simp] lemma logged_tables (r : DdlRecord) : (s.logged r).tables = s.tables := by
  unfold SchemaState.logged
  split_ifs <;> rfl

section
variable (h : SchemaInv s)
include h

lemma SchemaInv.addColumn :
    SchemaInv (s.addColumn t name typeName required hasRows).1 := by
  unfold SchemaState.addColumn
  split
  case h_1 => exact h
  case h_2 d ht =>
    split
    case h_1 => exact h
    case h_2 typeId _ =>
      dsimp only
      split
      case h_1 => exact h
      case h_2 hroom =>
        have hlen := length_of_room hroom
        rw [length_append,length_singleton] at hlen
        unfold SchemaState.alterTableAddColumn
        rw [ht]
        dsimp only
        split_ifs with hany hreq
        · exact h
        · exact h.logged (.addColumn t _) fun _ _ hr => nomatch hr
        · rw [logged_tables]
          refine (h.logged (.addColumn t _) fun _ _ hr => nomatch hr).store (h.tables.replaceKey ?_)
          apply (h.tables.lookup ht).append (by simpa using hany)
          exact UInt16.toNat_ofNat_of_lt (show d.columns.length < 2^16 by omega)

lemma SchemaInv.dropColumn : SchemaInv (s.alterTableDropColumn t name).1 := by
  unfold SchemaState.alterTableDropColumn
  split
  case h_1 => exact h
  case h_2 d ht =>
    split
    case h_1 => exact h
    case h_2 i _ =>
      exact (h.logged (.dropColumn t name) fun _ _ hr => nomatch hr).store
        (h.tables.replaceKey ((h.tables.lookup ht).dropColumnAt i))

/-- A statement that declares distinct names keeps every table well formed. -/
lemma SchemaInv.answer (hok : Declared s stmt) :
    SchemaInv (s.answer coerceValue stmt).1 := by
  cases stmt with
  | createType name fields ifNotExists => exact h.createType hok
  | createView name columns =>
    exact h.createTableFull fun hnone => wellFormed_deriveViewSchema (hok hnone).1 (hok hnone).2
  | dropTable name => exact h.dropTable
  | addColumn t name typeName required hasRows => exact h.addColumn
  | dropColumn t name => exact h.dropColumn

lemma SchemaInv.cut (hok : ∀ stmt ∈ during, Declared s stmt) :
    SchemaInv (s.cut coerceValue during) := by
  cases during with
  | none => exact h
  | some stmt => exact ⟨h.tables,h.file,(h.answer (hok stmt rfl)).log⟩

/-- Recovery keeps every table well formed where each replay fits. -/
lemma SchemaInv.recover
    (hfit : ∀ n ≤ cutOff, FitsReplay ((fun ts => s.log.foldl replayRecord ts)^[n] s.file) s.log) :
    SchemaInv (s.recover cutOff) := by
  have htables : ∀ n ≤ cutOff+1, AllWellFormed ((fun ts => s.log.foldl replayRecord ts)^[n] s.file) := by
    intro n
    induction n with
    | zero => exact fun _ => h.file
    | succ n ih =>
      intro hn
      rw [Function.iterate_succ_apply']
      exact replay_wellFormed (ih (by omega)) h.log (hfit n (by omega))
  exact ⟨htables _ le_rfl,htables _ le_rfl,nofun⟩

end

variable (coerceValue) in
/-- Declarations are of distinct names, and recovery adds columns where they were numbered for. -/
def SchemaOk (s : SchemaState) : SchemaAction → Prop
  | .exec stmt => Declared s stmt
  | .crash during cutOff => (∀ stmt ∈ during, Declared s stmt) ∧ ∀ n ≤ cutOff,
    FitsReplay ((fun ts => (s.cut coerceValue during).log.foldl replayRecord ts)^[n] s.file) (s.cut coerceValue during).log
  | _ => True

lemma cut_file (during : Option SchemaStmt) : (s.cut coerceValue during).file = s.file := by
  cases during <;> rfl

lemma SchemaInv.step (h : SchemaInv s) (hok : SchemaOk coerceValue s a)
    (hs : s.step coerceValue a = some s') : SchemaInv s' := by
  cases a with
  | exec stmt =>
    cases hs
    exact h.answer hok
  | checkpoint =>
    cases hs
    exact ⟨h.tables,h.file,nofun⟩
  | reopen =>
    cases hs
    exact ⟨h.file,h.file,nofun⟩
  | crash during cutOff =>
    cases hs
    apply (h.cut hok.1).recover
    rw [cut_file]
    exact hok.2

end statements

/-! Rows. -/

section rows

lemma columnIndex_inj (hf : columnIndex columns f = some i) (hg : columnIndex columns g = some i) : f = g := by
  obtain ⟨hi,hf,-⟩ := findIdx?_eq_some_iff_getElem.mp hf
  obtain ⟨_,hg,-⟩ := findIdx?_eq_some_iff_getElem.mp hg
  exact (beq_iff_eq.mp hf).symm.trans (beq_iff_eq.mp hg)

lemma columnIndex_some (h : columnIndex columns f = some i) : ∃ c, columns[i]? = some c ∧ c.name = f := by
  obtain ⟨hi,hf,-⟩ := findIdx?_eq_some_iff_getElem.mp h
  exact ⟨columns[i],getElem?_eq_getElem hi,beq_iff_eq.mp hf⟩

/-- An assignment sets one value, at the place of its name. -/
lemma assign_ok (h : assign coerceValue columns values f v = .ok values') :
    ∃ i c v', columnIndex columns f = some i ∧ columns[i]? = some c ∧ coerceValue v c = .ok v' ∧ values' = values.set i v' := by
  unfold assign at h
  split at h
  case h_1 => exact nomatch h
  case h_2 i hi =>
    split at h
    case h_1 => exact nomatch h
    case h_2 c hc =>
      split at h
      case h_1 => exact nomatch h
      case h_2 v' hv => exact ⟨i,c,v',hi,hc,hv,(Except.ok.inj h).symm⟩

lemma assign_bounds : assign coerceValue columns values f v ≠ .error .outOfBounds := by
  unfold assign
  split
  case h_1 => exact nofun
  case h_2 i hi =>
    obtain ⟨c,hc,-⟩ := columnIndex_some hi
    rw [hc]
    dsimp only
    split <;> exact nofun

lemma assignAll_length (h : assignAll coerceValue columns values assignments = .ok values') :
    values'.length = values.length := by
  induction assignments generalizing values with
  | nil => rw [Except.ok.inj h]
  | cons x rest ih =>
    obtain ⟨mid,hmid,h⟩ := bind_ok_iff.mp h
    obtain ⟨i,c,v',-,-,-,rfl⟩ := assign_ok hmid
    rw [ih h,length_set]

/-- Assignments to other names leave a value. -/
lemma assignAll_other (hi : columnIndex columns f = some i) (hf : f ∉ assignments.map Prod.fst)
    (h : assignAll coerceValue columns values assignments = .ok values') : values'[i]? = values[i]? := by
  induction assignments generalizing values with
  | nil => rw [Except.ok.inj h]
  | cons x rest ih =>
    rw [map_cons,mem_cons,not_or] at hf
    obtain ⟨mid,hmid,h⟩ := bind_ok_iff.mp h
    obtain ⟨j,c,v',hj,-,-,rfl⟩ := assign_ok hmid
    have hne : j ≠ i := by
      rintro rfl
      exact hf.1 (columnIndex_inj hi hj)
    rw [ih hf.2 h,getElem?_set_ne hne]

/-- The last assignment to a name decides its value. -/
lemma assignAll_last (hpost : f ∉ post.map Prod.fst)
    (h : assignAll coerceValue columns values (pre++(f,v)::post) = .ok values')
    (hlen : values.length = columns.length) :
    ∃ i c v', columnIndex columns f = some i ∧ columns[i]? = some c ∧ coerceValue v c = .ok v' ∧ values'[i]? = some v' := by
  induction pre generalizing values with
  | nil =>
    obtain ⟨mid,hmid,h⟩ := bind_ok_iff.mp h
    obtain ⟨i,c,v',hi,hc,hv,rfl⟩ := assign_ok hmid
    refine ⟨i,c,v',hi,hc,hv,?_⟩
    rw [assignAll_other hi hpost h]
    exact List.getElem?_set_self (hlen ▸ (List.getElem?_eq_some_iff.mp hc).1)
  | cons x pre ih =>
    obtain ⟨mid,hmid,h⟩ := bind_ok_iff.mp h
    obtain ⟨j,c,w,-,-,-,rfl⟩ := assign_ok hmid
    exact ih h (by rwa [length_set])

lemma assignAll_bounds :
    assignAll coerceValue columns values assignments ≠ .error .outOfBounds := by
  induction assignments generalizing values with
  | nil => exact nofun
  | cons x rest ih =>
    rw [assignAll]
    cases hmid : assign coerceValue columns values x.1 x.2 with
    | error e =>
      intro h
      exact assign_bounds (hmid.trans h)
    | ok mid => exact ih

lemma checkRequired_bounds (h : ∀ c ∈ columns, c.position.toNat < values.length) :
    checkRequired autoCols values columns ≠ .error .outOfBounds := by
  induction columns with
  | nil => exact nofun
  | cons c cs ih =>
    have hcs := ih fun d hd => h d (mem_cons_of_mem _ hd)
    rw [checkRequired]
    split_ifs
    · rw [getElem?_eq_getElem (h c mem_cons_self)]
      split
      case h_1 hnone => exact nomatch hnone
      case h_2 => exact nofun
      case h_3 => exact hcs
    · exact hcs

end rows

/-- What the names of a table are for: every column is found at its own place, a row is built from
assignments by name without reading outside it, and reads back under a name what was last
assigned to it. -/
structure NamesWork (coerceValue : Value → StoredColumn → Except String Value) (d : TableDef) : Prop where
  found : ∀ (i : ℕ) (c : StoredColumn), d.columns[i]? = some c → columnIndex d.columns c.name = some i
  bounds : ∀ next assignments, insertRow coerceValue d next assignments ≠ .error .outOfBounds
  reads : ∀ next pre f v post row, insertRow coerceValue d next (pre++(f,v)::post) = .ok row → f ∉ post.map Prod.fst →
    ∃ c ∈ d.columns, c.name = f ∧ ∃ v', coerceValue v c = .ok v' ∧ (v' ≠ .empty → readColumn d.columns row f = some v')

lemma WellFormed.namesWork
    (h : WellFormed d.columns) : NamesWork coerceValue d := by
  constructor
  case found => exact fun i c hi => h.columnIndex_eq hi
  case bounds =>
    intro next assignments
    unfold insertRow
    cases hvalues : assignAll coerceValue d.columns (replicate d.columns.length .empty) assignments with
    | error e =>
      intro herr
      exact assignAll_bounds (hvalues.trans herr)
    | ok values =>
      have hlen : (fillDefaults d.defaults values).length = d.columns.length := by
        rw [fillDefaults,length_mapIdx,assignAll_length hvalues,length_replicate]
      have hpos : ∀ c ∈ d.columns, c.position.toNat < (fillDefaults d.defaults values).length := by
        intro c hc
        obtain ⟨i,hi⟩ := mem_iff_getElem?.mp hc
        rw [hlen,h.positions i c hi]
        exact (List.getElem?_eq_some_iff.mp hi).1
      intro herr
      cases hreq : checkRequired d.autoCols (fillDefaults d.defaults values) d.columns with
      | error e =>
        refine checkRequired_bounds hpos (hreq.trans ?_)
        simpa [Bind.bind,Except.bind,hreq] using herr
      | ok u => simp [Bind.bind,Except.bind,hreq] at herr
  case reads =>
    intro next pre f v post row hrow hpost
    obtain ⟨values,hvalues,hrow⟩ := bind_ok_iff.mp hrow
    obtain ⟨_,-,hrow⟩ := bind_ok_iff.mp hrow
    cases hrow
    obtain ⟨i,c,v',hi,hc,hv,hget⟩ := assignAll_last hpost hvalues (by simp)
    obtain ⟨c',hc',hname⟩ := columnIndex_some hi
    obtain rfl := Option.some.inj (hc'.symm.trans hc)
    refine ⟨c',mem_of_getElem? hc,hname,v',hv,fun hne => ?_⟩
    rw [readColumn,hi,Option.bind_some]
    simp [assignAuto,fillDefaults,hget,hne]

def SchemaState.empty (walOff : Bool) : SchemaState := ⟨walOff,[],[],[]⟩

lemma SchemaInv.empty (walOff : Bool) : SchemaInv (.empty walOff) :=
  ⟨fun _ hx => absurd hx not_mem_nil,fun _ hx => absurd hx not_mem_nil,fun _ _ hx => absurd hx not_mem_nil⟩

open SchemaState

def plainField (name : String) : FieldDef := ⟨name,"int",false,none,false⟩

def keepValue (v : Value) (_ : StoredColumn) : Except String Value := .ok v

/-- A table is declared, widened, narrowed and recovered. -/
def widened : List SchemaAction :=
  [.exec (.createType "T" [plainField "a",plainField "b"] false),.exec (.addColumn "T" "c" "str" false true),
    .exec (.dropColumn "T" "a"),.crash none 0]

end PowDB.Query
