import PowDB.Lib.Outcome
import PowDB.Query.Params

/-! The clauses in front of a mutation. The parser collects them like those of a read, but
the mutation keeps only the source, the alias and the filter of what it collected. -/
namespace PowDB.Syntax
open List
open Query (Literal)
open Lib (Parser bind_ok_iff map_ok_iff pure_ok_iff)
variable {ρ κ ε ℓ : Type}

/-- What the clauses of a pipeline mean on rows `ρ` that project to values `κ`; each may be
refused. The name is the one the source is visible under. -/
structure Clauses (ρ κ ε ℓ : Type) where
  filter : String → Expr ℓ → Except ε (ρ → Bool)
  sort : String → List (OrderKey (Expr ℓ)) → Except ε (List ρ → List ρ)
  sort_perm : ∀ {v ks s}, sort v ks = .ok s → ∀ rows, (s rows).Perm rows
  project : String → Option (List (ProjectionField (Expr ℓ))) → Except ε (ρ → κ)
  count : Expr ℓ → Except ε ℕ

/-- The first row of every projected value. -/
def distinctOn [DecidableEq κ] (f : ρ → κ) : List ρ → List ρ
  | [] => []
  | x::xs => x::(distinctOn f xs).filter fun y => f y ≠ f x

lemma distinctOn_sublist [DecidableEq κ] (f : ρ → κ) (xs : List ρ) : (distinctOn f xs).Sublist xs := by
  induction xs with
  | nil => exact .slnil
  | cons x xs ih => exact (filter_sublist.trans ih).cons_cons x

/-- Nothing is left out exactly when all rows project differently. -/
lemma distinctOn_length [DecidableEq κ] (f : ρ → κ) (xs : List ρ) :
    (distinctOn f xs).length = xs.length ↔ (xs.map f).Nodup := by
  induction xs with
  | nil => simp [distinctOn]
  | cons x xs ih =>
    have hsub := distinctOn_sublist f xs
    have hle := hsub.length_le
    have hfilter := (distinctOn f xs).length_filter_le fun y => f y ≠ f x
    simp only [distinctOn,length_cons,map_cons,nodup_cons,Nat.add_right_cancel_iff]
    constructor
    · intro h
      have hall : (distinctOn f xs).length = xs.length := by omega
      have heq : distinctOn f xs = xs := hsub.eq_of_length hall
      rw [heq] at h
      refine ⟨fun hmem => ?_,ih.mp hall⟩
      obtain ⟨y,hy,hyx⟩ := mem_map.mp hmem
      have hkeep := length_filter_eq_length_iff.mp h y hy
      simp [hyx] at hkeep
    · rintro ⟨hmem,hnodup⟩
      have hall := ih.mpr hnodup
      have heq : distinctOn f xs = xs := hsub.eq_of_length hall
      rw [heq]
      refine length_filter_eq_length_iff.mpr fun y hy => ?_
      have hne : f y ≠ f x := fun hyx => hmem (hyx ▸ mem_map_of_mem hy)
      simpa using hne

section
variable (C : Clauses ρ κ ε ℓ)
  {q : QueryExpr (Expr ℓ)} {rows : List ρ}

def visibleName (source : String) (aliasName : Option String) : String := aliasName.getD source

def keepRows (source : String) (aliasName : Option String) (filter : Option (Expr ℓ)) (rows : List ρ) :
    Except ε (List ρ) :=
  match filter with
  | some e => (C.filter (visibleName source aliasName) e).map fun keep => rows.filter keep
  | none => .ok rows

def sortRows (q : QueryExpr (Expr ℓ)) (rows : List ρ) : Except ε (List ρ) :=
  match q.order with
  | some ks => (C.sort (visibleName q.source q.aliasName) ks).map fun s => s rows
  | none => .ok rows

def offsetRows (q : QueryExpr (Expr ℓ)) (rows : List ρ) : Except ε (List ρ) :=
  match q.offset with
  | some e => (C.count e).map fun k => rows.drop k
  | none => .ok rows

def limitRows (q : QueryExpr (Expr ℓ)) (rows : List ρ) : Except ε (List ρ) :=
  match q.limit with
  | some e => (C.count e).map fun k => rows.take k
  | none => .ok rows

/-- The rows of the table that a pipeline without joins returns, if it returns rows of it:
filter, order, distinct, offset and limit in the order of the plan. Groups are no rows. -/
def planRows [DecidableEq κ] (q : QueryExpr (Expr ℓ)) (rows : List ρ) : Except ε (Option (List ρ)) := do
  let found ← keepRows C q.source q.aliasName q.filter rows
  let project ← C.project (visibleName q.source q.aliasName) q.projection
  let sorted ← sortRows C q found
  let rest ← offsetRows C q (if q.distinct then distinctOn project sorted else sorted)
  let taken ← limitRows C q rest
  pure (if q.groupBy.isSome then none else some taken)

/-- The rows that the plan of a mutation finds. -/
def mutationRows (s : Statement ℓ) (rows : List ρ) : Except ε (Option (List ρ)) :=
  match s with
  | .updateQuery source aliasName filter _ _ => (keepRows C source aliasName filter rows).map some
  | .deleteQuery source aliasName filter _ => (keepRows C source aliasName filter rows).map some
  | _ => pure none

/-- The clauses a mutation leaves out do nothing to the rows its filter finds. -/
structure Harmless (q : QueryExpr (Expr ℓ)) (found : List ρ) : Prop where
  group : q.groupBy = none
  order : ∀ ks, q.order = some ks → ∃ s, C.sort (visibleName q.source q.aliasName) ks = .ok s
  project : ∃ f, C.project (visibleName q.source q.aliasName) q.projection = .ok f ∧
    (q.distinct = true → (found.map f).Nodup)
  offset : ∀ e, q.offset = some e → ∃ k, C.count e = .ok k ∧ (k = 0 ∨ found = [])
  limit : ∀ e, q.limit = some e → ∃ k, C.count e = .ok k ∧ found.length ≤ k

/-- A mutation finds the rows of its filter, whatever other clauses come before it. -/
lemma parseMutation_rows {L : Level ℓ} {ts rest : List (Tok ℓ)} {s : Statement ℓ}
    (h : (parseMutation L q ts).out = .ok (s,rest)) (rows : List ρ) :
    s = .query q ∨ q.joins = [] ∧ mutationRows C s rows = (keepRows C q.source q.aliasName q.filter rows).map some := by
  obtain ⟨t,ts₁,hpeek,h⟩ := Parser.bind_out h
  cases hpeek
  have hquery : ((pure (.query q) : P ℓ (Statement ℓ)) ts).out = .ok (s,rest) → s = .query q := by
    intro h
    cases h
    rfl
  rcases ts with _ | ⟨t,ts⟩
  · exact .inl (hquery h)
  cases t with
  | kw k =>
    cases k with
    | update =>
      right
      change ((if q.joins.isEmpty = true then _ else Lib.Parser.fail _ : P ℓ (Statement ℓ)) _).out = _ at h
      split at h
      · rename_i hjoins
        obtain ⟨_,_,-,h⟩ := Parser.bind_out h
        obtain ⟨xs,_,-,h⟩ := Parser.bind_out h
        obtain ⟨returning,_,-,h⟩ := Parser.bind_out h
        cases h
        exact ⟨isEmpty_iff.mp hjoins,rfl⟩
      · cases h
    | delete =>
      right
      change ((if q.joins.isEmpty = true then _ else Lib.Parser.fail _ : P ℓ (Statement ℓ)) _).out = _ at h
      split at h
      · rename_i hjoins
        obtain ⟨_,_,-,h⟩ := Parser.bind_out h
        obtain ⟨returning,_,-,h⟩ := Parser.bind_out h
        cases h
        exact ⟨isEmpty_iff.mp hjoins,rfl⟩
      · cases h
    | _ => exact .inl (hquery h)
  | _ => exact .inl (hquery h)

lemma sortRows_perm {sorted : List ρ} (h : sortRows C q rows = .ok sorted) :
    sorted.Perm rows ∧ ∀ ks, q.order = some ks → ∃ s, C.sort (visibleName q.source q.aliasName) ks = .ok s := by
  rw [sortRows] at h
  cases hq : q.order with
  | none =>
    rw [hq] at h
    cases h
    exact ⟨.refl _,nofun⟩
  | some ks =>
    rw [hq] at h
    obtain ⟨s,hs,rfl⟩ := map_ok_iff.mp h
    refine ⟨C.sort_perm hs rows,fun ks' hks => ?_⟩
    cases hks
    exact ⟨s,hs⟩

lemma offsetRows_length {rest : List ρ} (h : offsetRows C q rows = .ok rest) : rest.length ≤ rows.length ∧
      (rest.length = rows.length → ∀ e, q.offset = some e → ∃ k, C.count e = .ok k ∧ (k = 0 ∨ rows.length = 0)) := by
  rw [offsetRows] at h
  cases hq : q.offset with
  | none =>
    rw [hq] at h
    cases h
    exact ⟨le_rfl,nofun⟩
  | some e =>
    rw [hq] at h
    obtain ⟨k,hk,rfl⟩ := map_ok_iff.mp h
    refine ⟨by simp,fun hlength e' he => ?_⟩
    cases he
    rw [length_drop] at hlength
    exact ⟨k,hk,by omega⟩

lemma limitRows_length {taken : List ρ} (h : limitRows C q rows = .ok taken) : taken.length ≤ rows.length ∧
      (taken.length = rows.length → ∀ e, q.limit = some e → ∃ k, C.count e = .ok k ∧ rows.length ≤ k) := by
  rw [limitRows] at h
  cases hq : q.limit with
  | none =>
    rw [hq] at h
    cases h
    exact ⟨le_rfl,nofun⟩
  | some e =>
    rw [hq] at h
    obtain ⟨k,hk,rfl⟩ := map_ok_iff.mp h
    refine ⟨by simp,fun hlength e' he => ?_⟩
    cases he
    rw [length_take] at hlength
    exact ⟨k,hk,by omega⟩

/-- The rows that `distinct` leaves. -/
lemma distinct_length [DecidableEq κ] (b : Bool) (f : ρ → κ) (rows : List ρ) :
    (if b then distinctOn f rows else rows).length ≤ rows.length ∧
      ((if b then distinctOn f rows else rows).length = rows.length ↔ (b = true → (rows.map f).Nodup)) := by
  cases b with
  | false => simp
  | true => simpa using ⟨(distinctOn_sublist f rows).length_le,distinctOn_length f rows⟩

lemma Harmless.of_planRows [DecidableEq κ] {found taken : List ρ}
    (hfound : keepRows C q.source q.aliasName q.filter rows = .ok found)
    (hplan : planRows C q rows = .ok (some taken)) (hperm : taken.Perm found) : Harmless C q found := by
  obtain ⟨found',hfound',hplan⟩ := bind_ok_iff.mp hplan
  obtain rfl : found = found' := Except.ok.inj (hfound.symm.trans hfound')
  obtain ⟨f,hproject,hplan⟩ := bind_ok_iff.mp hplan
  obtain ⟨sorted,hsort,hplan⟩ := bind_ok_iff.mp hplan
  obtain ⟨rest,hoffset,hplan⟩ := bind_ok_iff.mp hplan
  obtain ⟨taken',hlimit,hplan⟩ := bind_ok_iff.mp hplan
  have hgroup : q.groupBy = none ∧ taken' = taken := by
    rw [pure_ok_iff] at hplan
    split at hplan
    · cases hplan
    · rename_i hnone
      exact ⟨Option.not_isSome_iff_eq_none.mp hnone,Option.some.inj hplan⟩
  obtain ⟨hgroup,rfl⟩ := hgroup
  obtain ⟨hsorted,horder⟩ := sortRows_perm C hsort
  obtain ⟨hdle,hdistinct⟩ := distinct_length q.distinct f sorted
  obtain ⟨hole,hoffset⟩ := offsetRows_length C hoffset
  obtain ⟨hlle,hlimit⟩ := limitRows_length C hlimit
  -- no stage adds rows, so none may take any away
  have hlength := hperm.length_eq
  have hsame := hsorted.length_eq
  refine ⟨hgroup,horder,⟨f,hproject,fun hd => ?_⟩,fun e he => ?_,fun e he => ?_⟩
  · exact ((hsorted.map f).nodup_iff).mp (hdistinct.mp (by omega) hd)
  · obtain ⟨k,hk,hzero⟩ := hoffset (by omega) e he
    exact ⟨k,hk,hzero.imp_right fun h => eq_nil_of_length_eq_zero (by omega)⟩
  · obtain ⟨k,hk,hle⟩ := hlimit (by omega) e he
    exact ⟨k,hk,by omega⟩

lemma Harmless.planRows [DecidableEq κ] {found : List ρ}
    (hfound : keepRows C q.source q.aliasName q.filter rows = .ok found) (h : Harmless C q found) :
    ∃ taken, Syntax.planRows C q rows = .ok (some taken) ∧ taken.Perm found := by
  obtain ⟨f,hproject,hdistinct⟩ := h.project
  obtain ⟨sorted,hsort⟩ : ∃ sorted, sortRows C q found = .ok sorted := by
    rw [sortRows]
    cases hq : q.order with
    | none => exact ⟨found,rfl⟩
    | some ks =>
      obtain ⟨s,hs⟩ := h.order ks hq
      exact ⟨s found,by simp [hs,Except.map]⟩
  have hperm := (sortRows_perm C hsort).1
  have hkeep : (if q.distinct then distinctOn f sorted else sorted) = sorted := by
    split
    · rename_i hd
      have hnodup := ((hperm.map f).nodup_iff).mpr (hdistinct hd)
      exact (distinctOn_sublist f sorted).eq_of_length ((distinctOn_length f sorted).mpr hnodup)
    · rfl
  have hoffset : offsetRows C q sorted = .ok sorted := by
    rw [offsetRows]
    cases hq : q.offset with
    | none => rfl
    | some e =>
      obtain ⟨k,hk,hzero⟩ := h.offset e hq
      have hdrop : sorted.drop k = sorted := by
        rcases hzero with rfl | rfl
        · rfl
        · rw [hperm.eq_nil,drop_nil]
      simp [hk,Except.map,hdrop]
  have hlimit : limitRows C q sorted = .ok sorted := by
    rw [limitRows]
    cases hq : q.limit with
    | none => rfl
    | some e =>
      obtain ⟨k,hk,hle⟩ := h.limit e hq
      have htake : sorted.take k = sorted := take_of_length_le (hperm.length_eq ▸ hle)
      simp [hk,Except.map,htake]
  refine ⟨sorted,?_,hperm⟩
  refine bind_ok_iff.mpr ⟨found,hfound,bind_ok_iff.mpr ⟨f,hproject,bind_ok_iff.mpr ⟨sorted,hsort,
    bind_ok_iff.mpr ⟨sorted,?_,bind_ok_iff.mpr ⟨sorted,hlimit,?_⟩⟩⟩⟩⟩
  · rw [hkeep]
    exact hoffset
  · rw [h.group]
    rfl

end

/-- Rows that are numbers, with limits and offsets that are literals. -/
def numberClauses : Clauses ℕ ℕ Unit Literal where
  filter _ _ := .ok fun _ => true
  sort _ _ := .ok id
  sort_perm h rows := by
    cases h
    exact .refl rows
  project _ _ := .ok id
  count
    | .literal (.int v) => .ok v.toInt.toNat
    | _ => .error ()

/-- `T limit 1` -/
def limitText : List (Tok Literal) := [.ident "T",.kw .limit,.lit (.int 1)]

def limitQuery : QueryExpr (Expr Literal) :=
  ⟨"T",none,[],none,none,some (.literal (.int 1)),none,none,none,false,none⟩

end PowDB.Syntax
