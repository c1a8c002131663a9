import PowDB.Lib.Steps
import PowDB.Storage.ValueOrder

/-! Column defaults and auto-increment flags. They stand beside the schema in lists of
their own, by position; adding and dropping columns changes the schema alone, and the
catalog file keeps the positions it finds. -/
namespace PowDB.Storage
open List Option

/-! ### Sparse sections -/
section Sparse
variable {β : Type}

/-- The places that hold something, with what they hold. -/
def encodeSparse (xs : List (Option β)) (k : ℕ) : List (ℕ × β) := (xs.zipIdx k).filterMap fun x => x.1.map (x.2,·)

/-- A list of `n` places; an entry beyond the last place is dropped. -/
def decodeSparse (n : ℕ) (entries : List (ℕ × β)) : List (Option β) :=
  entries.foldl (fun out e => out.set e.1 (some e.2)) (List.replicate n none)

lemma encodeSparse_cons (x : Option β) (xs : List (Option β)) (k : ℕ) :
    encodeSparse (x::xs) k = (x.map (k,·)).toList++encodeSparse xs (k+1) := by
  cases x <;> rfl

lemma foldl_set_getElem? (xs : List (Option β)) (k : ℕ) (out : List (Option β)) (i : ℕ) (hi : i < out.length) :
    ((encodeSparse xs k).foldl (fun out e => out.set e.1 (some e.2)) out)[i]? =
      if k ≤ i then some ((xs[i-k]?.getD none).or (out[i]?.getD none)) else out[i]? := by
  induction xs generalizing k out with
  | nil => simp [encodeSparse,hi]
  | cons x xs ih =>
    rw [encodeSparse_cons,foldl_append]
    cases x with
    | none =>
      simp only [map_none,toList_none,foldl_nil]
      rw [ih (k+1) out hi]
      by_cases hk : k ≤ i
      · rw [if_pos hk]
        obtain rfl | hlt := Nat.eq_or_lt_of_le hk
        · simp [hi]
        · rw [if_pos (show k+1 ≤ i from hlt),show i-k = i-(k+1)+1 by omega,getElem?_cons_succ]
      · rw [if_neg hk,if_neg (by omega)]
    | some v =>
      simp only [map_some,toList_some,foldl_cons,foldl_nil]
      rw [ih (k+1) (out.set k (some v)) (by simpa using hi)]
      by_cases hk : k ≤ i
      · rw [if_pos hk]
        obtain rfl | hlt := Nat.eq_or_lt_of_le hk
        · simp [hi]
        · rw [if_pos (show k+1 ≤ i from hlt),show i-k = i-(k+1)+1 by omega,getElem?_cons_succ,
            getElem?_set_ne (by omega)]
      · rw [if_neg hk,if_neg (by omega),getElem?_set_ne (by omega)]

/-- Written and read back, every place up to the number of columns is as before. -/
lemma decodeSparse_encodeSparse (xs : List (Option β)) (hi : i < n) :
    (decodeSparse n (encodeSparse xs 0))[i]? = some (xs[i]?.getD none) := by
  rw [decodeSparse,foldl_set_getElem? _ _ _ _ (by simpa using hi)]
  simp [hi]

end Sparse

/-- The columns of a table and, by position, what was declared for them. -/
structure TableColumns where
  names : List String
  defaults : List (Option Value)
  autoCols : List Bool
  deriving DecidableEq

/-- A column with its default and its auto flag. -/
structure DeclaredColumn where
  name : String
  default : Option Value
  auto : Bool
  deriving DecidableEq

inductive ColumnChange
  | addColumn (name : String) (required hasRows : Bool)
  | dropColumn (name : String)
  | reopen
  deriving DecidableEq

namespace TableColumns

def encodeDefaultsSection (defaults : List (Option Value)) : List (ℕ × Value) := encodeSparse defaults 0

def decodeDefaultsSection (n : ℕ) (entries : List (ℕ × Value)) : List (Option Value) := decodeSparse n entries

def encodeAutoSection (autoCols : List Bool) : List (ℕ × Unit) :=
  encodeSparse (autoCols.map fun a => if a then some () else none) 0

def decodeAutoSection (n : ℕ) (entries : List (ℕ × Unit)) : List Bool := (decodeSparse n entries).map Option.isSome

/-- Refused: a name in use, or a required column over rows that have no value for it. -/
def refusesAdd (s : TableColumns) (name : String) (required hasRows : Bool) : Bool :=
  decide (name ∈ s.names) || hasRows && required

/-- Only the schema changes; a reopened table takes its lists from the catalog file. -/
def step (s : TableColumns) : ColumnChange → TableColumns
  | .addColumn name required hasRows =>
    if s.refusesAdd name required hasRows then s else {s with names := s.names++[name]}
  | .dropColumn name =>
    match s.names.findIdx? (· = name) with
    | none => s
    | some p => {s with names := s.names.eraseIdx p}
  | .reopen => {s with
      defaults := decodeDefaultsSection s.names.length (encodeDefaultsSection s.defaults)
      autoCols := decodeAutoSection s.names.length (encodeAutoSection s.autoCols)}

def run (s : TableColumns) (xs : List ColumnChange) : TableColumns := xs.foldl step s

def defaultAt (s : TableColumns) (i : ℕ) : Option Value := s.defaults[i]?.getD none
def autoAt (s : TableColumns) (i : ℕ) : Bool := s.autoCols[i]?.getD false

/-- Every column with what is reported for it. -/
def reported (s : TableColumns) : List DeclaredColumn :=
  s.names.mapIdx fun i name => ⟨name,s.defaultAt i,s.autoAt i⟩

/-- An insert fills what it was not given: first from the defaults, then from the sequences. -/
def fillRow (s : TableColumns) (next : ℕ → Int64) (values : List Value) : List Value :=
  (values.mapIdx fun i v => if v.isEmpty then (s.defaultAt i).getD v else v).mapIdx fun i v =>
    if s.autoAt i && v.isEmpty then .int (next i) else v

end TableColumns

/-! ### Columns that carry their own declarations -/
namespace DeclaredColumn

def fill (col : DeclaredColumn) (next : Int64) (v : Value) : Value :=
  let v := if v.isEmpty then col.default.getD v else v
  if col.auto && v.isEmpty then .int next else v

def fillRow (cols : List DeclaredColumn) (next : ℕ → Int64) (values : List Value) : List Value :=
  (cols.zip values).mapIdx fun i x => x.1.fill (next i) x.2

/-- A new column has no default and is not auto; a dropped one takes its declaration with it. -/
def step (cols : List DeclaredColumn) : ColumnChange → List DeclaredColumn
  | .addColumn name required hasRows =>
    if decide (name ∈ cols.map DeclaredColumn.name) || hasRows && required then cols else cols++[⟨name,none,false⟩]
  | .dropColumn name =>
    match cols.findIdx? (·.name = name) with
    | none => cols
    | some p => cols.eraseIdx p
  | .reopen => cols

def run (cols : List DeclaredColumn) (xs : List ColumnChange) : List DeclaredColumn := xs.foldl step cols

end DeclaredColumn

namespace TableColumns
variable {s : TableColumns}

lemma reported_names (s : TableColumns) : s.reported.map DeclaredColumn.name = s.names := by
  apply ext_getElem?
  intro i
  simp [reported,Function.comp_def]

lemma reported_getElem? (s : TableColumns) (i : ℕ) :
    s.reported[i]? = s.names[i]?.map fun name => ⟨name,s.defaultAt i,s.autoAt i⟩ := by
  simp [reported]

lemma fillRow_eq (s : TableColumns) (next : ℕ → Int64) (h : values.length = s.names.length) :
    s.fillRow next values = DeclaredColumn.fillRow s.reported next values := by
  apply ext_getElem?
  intro i
  by_cases hi : i < values.length
  · have hi' : i < s.names.length := h ▸ hi
    simp [fillRow,DeclaredColumn.fillRow,DeclaredColumn.fill,reported,hi,hi',zip]
  · have hi' : ¬i < s.names.length := h ▸ hi
    simp [fillRow,DeclaredColumn.fillRow,reported,hi,hi',zip]

/-- From the place of a dropped column on, every column has what its right neighbour has. -/
def DropKeeps (s : TableColumns) : Option ℕ → Prop
  | none => True
  | some p => ∀ i < s.names.length-1, p ≤ i → s.defaultAt i = s.defaultAt (i+1) ∧ s.autoAt i = s.autoAt (i+1)

/-- The condition under which a change keeps the declarations with their columns: a new column
must not find anything left over at its place. -/
def Aligned (s : TableColumns) : ColumnChange → Prop
  | .addColumn name required hasRows => s.refusesAdd name required hasRows = true ∨
      s.defaultAt s.names.length = none ∧ s.autoAt s.names.length = false
  | .dropColumn name => s.DropKeeps (s.names.findIdx? (· = name))
  | .reopen => True

instance decidableDropKeeps (s : TableColumns) : ∀ p, Decidable (s.DropKeeps p)
  | none => .isTrue trivial
  | some _ => inferInstanceAs (Decidable (∀ _ < _, _))

instance decidableAligned (s : TableColumns) : ∀ x, Decidable (s.Aligned x)
  | .addColumn _ _ _ => inferInstanceAs (Decidable (_ ∨ _))
  | .dropColumn _ => decidableDropKeeps s _
  | .reopen => .isTrue trivial

lemma reported_reopen (s : TableColumns) : (s.step .reopen).reported = s.reported := by
  apply ext_getElem?
  intro i
  rw [reported_getElem?,reported_getElem?]
  by_cases hi : i < s.names.length
  · have hdefault : (s.step .reopen).defaultAt i = s.defaultAt i := by
      simp only [step,defaultAt,decodeDefaultsSection,encodeDefaultsSection,decodeSparse_encodeSparse _ hi,
        getD_some]
    have hauto : (s.step .reopen).autoAt i = s.autoAt i := by
      simp only [step,autoAt,decodeAutoSection,encodeAutoSection,getElem?_map,decodeSparse_encodeSparse _ hi]
      cases s.autoCols[i]? with
      | none => rfl
      | some a => cases a <;> rfl
    rw [hdefault,hauto]
    rfl
  · have hnone : s.names[i]? = none := getElem?_eq_none (Nat.le_of_not_lt hi)
    simp [step,hnone]

lemma reported_add_iff (h : s.refusesAdd name required hasRows = false) :
    (s.step (.addColumn name required hasRows)).reported = s.reported++[⟨name,none,false⟩] ↔
      s.defaultAt s.names.length = none ∧ s.autoAt s.names.length = false := by
  have hstep : s.step (.addColumn name required hasRows) = {s with names := s.names++[name]} := by
    simp [step,h]
  have happ : (s.step (.addColumn name required hasRows)).reported =
      s.reported++[⟨name,s.defaultAt s.names.length,s.autoAt s.names.length⟩] := by
    rw [hstep]
    simp [reported,mapIdx_append,defaultAt,autoAt]
  rw [happ,append_cancel_left_eq]
  simp

lemma reported_drop_iff (h : s.names.findIdx? (· = name) = some p) :
    (s.step (.dropColumn name)).reported = s.reported.eraseIdx p ↔ s.DropKeeps (some p) := by
  have hp : p < s.names.length := (findIdx?_eq_some_iff_getElem.mp h).1
  have hstep : s.step (.dropColumn name) = {s with names := s.names.eraseIdx p} := by
    simp [step,h]
  have hget : ∀ i, (s.step (.dropColumn name)).reported[i]? =
      (s.names.eraseIdx p)[i]?.map fun name => (⟨name,s.defaultAt i,s.autoAt i⟩ : DeclaredColumn) := by
    intro i
    rw [reported_getElem?,hstep]
    rfl
  constructor
  · intro heq i hi hpi
    have hi' := congrArg (fun cols => cols[i]?) heq
    simp only [hget,getElem?_eraseIdx,reported_getElem?,if_neg (Nat.not_lt.mpr hpi)] at hi'
    obtain ⟨name',hname⟩ : ∃ name', s.names[i+1]? = some name' := ⟨_,getElem?_eq_getElem (by omega)⟩
    rw [hname] at hi'
    simp only [map_some,some.injEq,DeclaredColumn.mk.injEq,true_and] at hi'
    exact hi'
  · intro hall
    apply ext_getElem?
    intro i
    simp only [hget,getElem?_eraseIdx,reported_getElem?]
    by_cases hi : i < p
    · simp [hi]
    · rw [if_neg hi,if_neg hi]
      by_cases hlast : i < s.names.length-1
      · obtain ⟨hd,ha⟩ := hall i hlast (Nat.le_of_not_lt hi)
        rw [hd,ha]
      · have hnone : s.names[i+1]? = none := getElem?_eq_none (by omega)
        simp [hnone]

/-- One change takes the declarations along exactly when it meets the condition. -/
lemma reported_step_iff (x : ColumnChange) : (s.step x).reported = DeclaredColumn.step s.reported x ↔ s.Aligned x := by
  cases x with
  | reopen => simp [reported_reopen,DeclaredColumn.step,Aligned]
  | addColumn name required hasRows =>
    rw [DeclaredColumn.step,reported_names]
    cases h : s.refusesAdd name required hasRows with
    | true =>
      rw [refusesAdd] at h
      simp [Aligned,step,refusesAdd,h]
    | false =>
      have hif : (decide (name ∈ s.names) || hasRows && required) = false := h
      simp only [hif,Aligned,h]
      simpa using reported_add_iff h
  | dropColumn name =>
    have hidx : s.reported.findIdx? (·.name = name) = s.names.findIdx? (· = name) := by
      rw [← reported_names s,findIdx?_map]
      rfl
    rw [DeclaredColumn.step,hidx,Aligned]
    cases h : s.names.findIdx? (· = name) with
    | none => simp [step,h,DropKeeps]
    | some p => exact reported_drop_iff h

/-- Along every run, what is reported and applied for each column is what was declared for it,
up to the first change that does not meet the condition. -/
theorem declarations_follow_iff (s : TableColumns) (xs : List ColumnChange) :
    (∀ k, (s.run (xs.take k)).reported = DeclaredColumn.run s.reported (xs.take k) ∧
      ∀ next values, values.length = (s.run (xs.take k)).names.length →
        (s.run (xs.take k)).fillRow next values =
          DeclaredColumn.fillRow (DeclaredColumn.run s.reported (xs.take k)) next values) ↔
      Lib.Meets (fun s x => some (step s x)) Aligned s xs := by
  induction xs generalizing s with
  | nil =>
    refine ⟨fun _ => trivial,fun _ k => ?_⟩
    simp only [take_nil]
    exact ⟨rfl,fun next values h => fillRow_eq s next h⟩
  | cons x xs ih =>
    constructor
    · intro hall
      have hstep : (s.step x).reported = DeclaredColumn.step s.reported x := (hall 1).1
      refine ⟨reported_step_iff x |>.mp hstep,(ih (s.step x)).mp fun k => ?_⟩
      rw [hstep]
      exact hall (k+1)
    · rintro ⟨hx,hrest⟩ k
      have hstep := (reported_step_iff x).mpr hx
      cases k with
      | zero => exact ⟨rfl,fun next values h => fillRow_eq s next h⟩
      | succ k =>
        have hk := (ih (s.step x)).mpr hrest k
        rw [hstep] at hk
        exact hk

/-- Two columns, the first with a default and the second numbered. -/
def sampleTable : TableColumns := ⟨["a","b"],[some (.int 7),none],[false,true]⟩

/-- Without the first column the second gets its default and is numbered no more; a column
added next is numbered in its place. -/
theorem sampleTable_declarations_shift :
    (sampleTable.run [.dropColumn "a",.addColumn "c" false false]).reported =
      [⟨"b",some (.int 7),false⟩,⟨"c",none,true⟩] ∧
    DeclaredColumn.run sampleTable.reported [.dropColumn "a",.addColumn "c" false false] =
      [⟨"b",none,true⟩,⟨"c",none,false⟩] ∧
    (sampleTable.run [.dropColumn "a"]).fillRow (fun _ => 1) [.empty] = [.int 7] ∧
    DeclaredColumn.fillRow (DeclaredColumn.run sampleTable.reported [.dropColumn "a"]) (fun _ => 1) [.empty] =
      [.int 1] := by
  decide +kernel

example : Lib.Meets (fun s x => some (step s x)) Aligned ⟨["a","b"],[some (.int 7),none],[]⟩
    [.dropColumn "b",.reopen,.addColumn "c" false true] := by decide +kernel

end TableColumns
end PowDB.Storage
