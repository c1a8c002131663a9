import Mathlib.Algebra.Order.BigOperators.Group.List
import Mathlib.Algebra.Order.Ring.Nat
import Mathlib.Data.List.Dedup
import Mathlib.Data.List.Nodup
import PowDB.Query.Views

/-! The invariant behind fresh views: the views called clean are closed under the
views they read, can be ranked along their sources, and store what their source
query gives on the tables. Refreshing a view keeps it. -/
namespace PowDB.Views
open List Function Registry Prod
variable {σ ρ : Type}

namespace Registry
variable {reg : Registry σ ρ} {v t : String}

/-- A registry without its flags. -/
def defs (reg : Registry σ ρ) : List (String × SourceQuery σ ρ) := reg.map (fun d => (d.name,d.query))

lemma names_eq (reg : Registry σ ρ) : reg.names = reg.defs.map fst := by
  simp [names,defs]

lemma names_of_defs {reg' : Registry σ ρ} (h : reg'.defs = reg.defs) : reg'.names = reg.names := by
  rw [names_eq,names_eq,h]

lemma isView_iff : reg.isView v = true ↔ v ∈ reg.names := by
  simp [isView,names]

lemma mem_names_of_clean (h : reg.isClean v = true) : v ∈ reg.names := by
  simp only [isClean,any_eq_true,Bool.and_eq_true,decide_eq_true_eq] at h
  obtain ⟨d,hd,rfl,-⟩ := h
  exact mem_map_of_mem hd

/-- A view that is not dirty is clean. -/
lemma clean_of_not_dirty (hv : v ∈ reg.names) (h : reg.isDirty v = false) : reg.isClean v = true := by
  obtain ⟨d,hd,rfl⟩ := mem_map.mp hv
  simp only [isDirty,any_eq_false,Bool.and_eq_true,decide_eq_true_eq,not_and] at h
  exact any_eq_true.mpr ⟨d,hd,by simp [h d hd rfl]⟩

lemma get_spec (h : reg.get v = some d) : (v,d.query) ∈ reg.defs := by
  have hname : d.name = v := by simpa using find?_some h
  exact mem_map.mpr ⟨d,mem_of_find?_eq_some h,by rw [hname]⟩

lemma mem_cleanNames : v ∈ reg.cleanNames ↔ reg.isClean v = true := by
  simp only [cleanNames,isClean,mem_map,mem_filter,any_eq_true,Bool.and_eq_true,
    decide_eq_true_eq]
  constructor
  · rintro ⟨d,⟨hd,hclean⟩,rfl⟩
    exact ⟨d,hd,rfl,hclean⟩
  · rintro ⟨d,hd,rfl,hclean⟩
    exact ⟨d,⟨hd,hclean⟩,rfl⟩

lemma mem_deps :
    v ∈ reg.deps t ↔ ∃ d ∈ reg.defs, d.1 = v ∧ t ∈ d.2.reads := by
  simp only [deps,defs,mem_map,mem_filter,decide_eq_true_eq]
  constructor
  · rintro ⟨d,⟨hd,ht⟩,rfl⟩
    exact ⟨_,⟨d,hd,rfl⟩,rfl,ht⟩
  · rintro ⟨_,⟨d,hd,rfl⟩,rfl,ht⟩
    exact ⟨d,⟨hd,ht⟩,rfl⟩

lemma defs_map (reg : Registry σ ρ) (h : ∀ d, (f d).name = d.name ∧ (f d).query = d.query) :
    defs (reg.map f) = reg.defs := by
  simp [defs,h]

@[simp] lemma defs_setDirty (reg : Registry σ ρ) (v : String) (b : Bool) : (reg.setDirty v b).defs = reg.defs :=
  defs_map reg fun d => by split <;> exact ⟨rfl,rfl⟩

lemma isClean_setDirty (reg : Registry σ ρ) (v t : String) :
    (reg.setDirty v false).isClean t = (reg.isClean t || (decide (t = v) && reg.isView v)) := by
  induction reg with
  | nil => simp [setDirty,isView]
  | cons d reg ih =>
    simp only [setDirty,isClean,isView,map_cons,any_cons] at ih ⊢
    rw [ih]
    by_cases hd : d.name = v <;> by_cases ht : t = v <;> simp_all [eq_comm]

/-- Flags raised on every view off a list. -/
def keepClean (reg : Registry σ ρ) (kept : List String) : Registry σ ρ :=
  reg.map (fun d => if d.name ∈ kept then d else {d with dirty := true})

@[simp] lemma defs_keepClean (reg : Registry σ ρ) (kept : List String) : (reg.keepClean kept).defs = reg.defs :=
  defs_map reg fun d => by split <;> exact ⟨rfl,rfl⟩

lemma isClean_keepClean (reg : Registry σ ρ) (kept : List String) (t : String) :
    (reg.keepClean kept).isClean t = (reg.isClean t && decide (t ∈ kept)) := by
  induction reg with
  | nil => simp [keepClean,isClean]
  | cons d reg ih =>
    simp only [keepClean,isClean,map_cons,any_cons] at ih ⊢
    by_cases hd : d.name ∈ kept <;> by_cases ht : d.name = t <;> simp_all

/-- Marking leaves clean no view over the table, and none over a view it marked. -/
lemma markDependentsDirty_spec (h : reg.markDependentsDirty t = some reg') :
    reg'.defs = reg.defs ∧ (∀ v, reg'.isClean v = true → reg.isClean v = true) ∧
      (∀ d ∈ reg.defs, reg'.isClean d.1 = true → t ∉ d.2.reads) ∧
      ∀ d ∈ reg.defs, reg'.isClean d.1 = true → ∀ v ∈ d.2.reads, reg.isClean v = true →
        reg'.isClean v = true := by
  simp only [markDependentsDirty,Option.ite_none_right_eq_some,Option.some.injEq] at h
  obtain ⟨-,rfl⟩ := h
  have hfuel : [t].length+reg.cleanNames.length ≤ reg.length+1 := by
    have := length_filter_le (fun d : ViewDef σ ρ => !d.dirty) reg
    simp only [cleanNames,length_map,length_singleton]
    omega
  have hclosed := fun x hx => Lib.spread_closed reg.deps hfuel x hx
  refine ⟨defs_keepClean _ _,fun v hv => ?_,fun d hd hclean hread => ?_,fun d hd hclean v hv hold => ?_⟩
  · exact (Bool.and_eq_true _ _ ▸ isClean_keepClean reg _ v ▸ hv).1
  · have hkept := (Bool.and_eq_true _ _ ▸ isClean_keepClean reg _ d.1 ▸ hclean).2
    exact hclosed t (.inl mem_cons_self) d.1 (mem_deps.mpr ⟨d,hd,rfl,hread⟩)
      (of_decide_eq_true hkept)
  · have hkept := (Bool.and_eq_true _ _ ▸ isClean_keepClean reg _ d.1 ▸ hclean).2
    by_contra hgone
    have hv' : v ∉ Lib.spread reg.deps (reg.length+1) [t] reg.cleanNames := by
      intro hmem
      exact hgone ((isClean_keepClean reg _ v).trans (by simp [hold,hmem]))
    exact hclosed v (.inr ⟨mem_cleanNames.mpr hold,hv'⟩) d.1 (mem_deps.mpr ⟨d,hd,rfl,hv⟩)
      (of_decide_eq_true hkept)

/-- Without a clean view over the table there is nothing to mark. -/
lemma markDependentsDirty_none (h : reg.markDependentsDirty t = none) :
    ∀ d ∈ reg.defs, reg.isClean d.1 = true → t ∉ d.2.reads := by
  intro d hd hclean hread
  have hany : (reg.deps t).any (fun v => decide (v ∈ reg.cleanNames)) = true :=
    any_eq_true.mpr ⟨d.1,mem_deps.mpr ⟨d,hd,rfl,hread⟩,by simpa [mem_cleanNames] using hclean⟩
  rw [markDependentsDirty,if_pos hany] at h
  cases h

/-- A view that reads the table, itself or through other views. -/
inductive Depends (defs : List (String × SourceQuery σ ρ)) (t : String) : String → Prop
  | direct {d : String × SourceQuery σ ρ} (hd : d ∈ defs) (ht : t ∈ d.2.reads) : Depends defs t d.1
  | through {d : String × SourceQuery σ ρ} {v : String} (hd : d ∈ defs) (hv : v ∈ d.2.reads)
      (h : Depends defs t v) : Depends defs t d.1

lemma Depends.mem_names (h : Depends reg.defs t v) : v ∈ reg.names := by
  rw [names_eq]
  cases h with
  | direct hd _ | through hd _ _ => exact mem_map_of_mem hd

/-- The walk of `dependents_of` misses none. -/
lemma mem_dependentsOf (h : Depends reg.defs t v) : v ∈ reg.dependentsOf t := by
  have hfuel : [t].length+reg.names.length ≤ reg.length+1 := by
    simp only [names,length_map,length_singleton]
    omega
  have hclosed := fun x hx => Lib.spread_closed reg.deps hfuel x hx
  refine mem_filter.mpr ⟨h.mem_names,decide_eq_true ?_⟩
  induction h with
  | direct hd ht => exact hclosed t (.inl mem_cons_self) _ (mem_deps.mpr ⟨_,hd,rfl,ht⟩)
  | through hd hv hdep ih => exact hclosed _ (.inr ⟨hdep.mem_names,ih⟩) _ (mem_deps.mpr ⟨_,hd,rfl,hv⟩)

end Registry

open Engine (seenOf)

/-- The views of a registry, and which of them it calls clean, against the tables. -/
structure Good (tables : String → Option (Stored σ ρ)) (defs : List (String × SourceQuery σ ρ))
    (clean : String → Bool) : Prop where
  nodup : (defs.map fst).Nodup
  hops : ∀ d ∈ defs, ∀ t ∈ d.2.hops, t ∉ defs.map fst
  backed : ∀ v ∈ defs.map fst, (tables v).isSome = true
  closed : ∀ d ∈ defs, clean d.1 = true → ∀ t ∈ d.2.reads, t ∈ defs.map fst → clean t = true
  ranked : ∃ rank : String → ℕ, ∀ d ∈ defs, clean d.1 = true → ∀ t ∈ d.2.reads, clean t = true →
    rank t < rank d.1
  fresh : ∀ d ∈ defs, clean d.1 = true → ∃ s, tables d.1 = some s ∧ d.2.eval (seenOf tables) = some s.rows

namespace Good
variable {tables : String → Option (Stored σ ρ)} {defs : List (String × SourceQuery σ ρ)}
  {clean clean' : String → Bool}

section
variable (h : Good tables defs clean)
include h

/-- Fewer clean views, as long as they stay closed. -/
lemma restrict (hle : ∀ v, clean' v = true → clean v = true)
    (hclosed : ∀ d ∈ defs, clean' d.1 = true → ∀ t ∈ d.2.reads, clean t = true → clean' t = true) :
    Good tables defs clean' :=
  {h with
    closed := fun d hd hc t ht hv => hclosed d hd hc t ht (h.closed d hd (hle _ hc) t ht hv)
    ranked := by
      obtain ⟨rank,hrank⟩ := h.ranked
      exact ⟨rank,fun d hd hc t ht hct => hrank d hd (hle _ hc) t ht (hle _ hct)⟩
    fresh := fun d hd hc => h.fresh d hd (hle _ hc)}

/-- Flags that hold of other tables hold of these when fewer views are called clean. -/
lemma part (h' : Good tables' defs clean') (hsub : ∀ v, clean' v = true → clean v = true) : Good tables defs clean' :=
  {h' with backed := h.backed, fresh := fun d hd hc => h.fresh d hd (hsub _ hc)}

/-- The tables may change where no clean view looks. -/
lemma set_unread (hv : clean v = false)
    (hunread : ∀ d ∈ defs, clean d.1 = true → v ∉ d.2.reads)
    (hs : v ∈ defs.map fst → s.isSome = true) : Good (Function.update tables v s) defs clean := by
  refine {h with backed := fun w hw => ?_, fresh := fun d hd hc => ?_}
  · by_cases hwv : w = v
    · subst hwv
      simpa using hs hw
    · simpa [hwv] using h.backed w hw
  · obtain ⟨s',hs',heval⟩ := h.fresh d hd hc
    have hne : d.1 ≠ v := by
      rintro rfl
      rw [hv] at hc
      cases hc
    refine ⟨s',by rw [update_of_ne hne,hs'],?_⟩
    rw [← heval]
    apply d.2.eval_congr
    intro t ht
    have htv : t ≠ v := by
      rintro rfl
      exact hunread d hd hc ht
    simp only [seenOf,update_of_ne htv]

/-- A view that is not clean is read by no clean view. -/
lemma unread_of_dirty (hv : clean v = false)
    (hmem : v ∈ defs.map fst) : ∀ d ∈ defs, clean d.1 = true → v ∉ d.2.reads := by
  intro d hd hc hread
  rw [h.closed d hd hc v hread hmem] at hv
  cases hv

/-- One more clean view. -/
lemma add
    (hd : (v,q) ∈ defs) (hv : clean v = false) (hsrc : ∀ t ∈ q.reads, t ∈ defs.map fst → clean t = true)
    (hs : tables v = some s) (heval : q.eval (seenOf tables) = some s.rows)
    (hclean : ∀ t, clean' t = true ↔ clean t = true ∨ t = v) : Good tables defs clean' := by
  have hmem : v ∈ defs.map fst := mem_map_of_mem hd
  have honly : ∀ d ∈ defs, d.1 = v → d.2 = q := by
    intro d hd' hname
    exact congrArg snd (inj_on_of_nodup_map h.nodup hd' hd hname)
  have hunread := h.unread_of_dirty hv hmem
  refine {h with closed := ?closed, ranked := ?ranked, fresh := ?fresh}
  case closed =>
    intro d hd' hc t ht htv
    rcases (hclean _).mp hc with hc | hname
    · exact (hclean _).mpr (.inl (h.closed d hd' hc t ht htv))
    · exact (hclean _).mpr (.inl (hsrc t (honly d hd' hname ▸ ht) htv))
  case ranked =>
    obtain ⟨rank,hrank⟩ := h.ranked
    -- the new view goes above everything it reads, and nothing clean reads it
    refine ⟨update rank v ((q.reads.map rank).sum+1),fun d hd' hc t ht hct => ?_⟩
    rcases (hclean _).mp hc with hc | hname
    · have htv : t ≠ v := fun e => hunread d hd' hc (e ▸ ht)
      have hdv : d.1 ≠ v := fun e => by rw [e,hv] at hc; cases hc
      rcases (hclean _).mp hct with hct | hct
      · rw [update_of_ne htv,update_of_ne hdv]
        exact hrank d hd' hc t ht hct
      · exact absurd hct htv
    · have hread : t ∈ q.reads := honly d hd' hname ▸ ht
      have htv : t ≠ v := by
        rintro rfl
        rw [hsrc t hread hmem] at hv
        cases hv
      rw [hname,update_self,update_of_ne htv]
      exact Nat.lt_succ_of_le (single_le_sum (by simp) _ (mem_map_of_mem hread))
  case fresh =>
    intro d hd' hc
    rcases (hclean _).mp hc with hc | hname
    · exact h.fresh d hd' hc
    · rw [hname,honly d hd' hname]
      exact ⟨s,hs,heval⟩

end

end Good

namespace Engine

/-- The tables a rollback or a reopening would find. -/
def committed (e : Engine σ ρ) : String → Option (Stored σ ρ) :=
  if e.inTransaction then e.snapshot else e.tables

variable {e : Engine σ ρ}

lemma committed_open (h : e.inTransaction = true) : e.committed = e.snapshot := if_pos h

lemma committed_idle (h : e.inTransaction = false) : e.committed = e.tables :=
  if_neg (by simp [h])

/-- The invariant between two steps. -/
structure Inv (e : Engine σ ρ) : Prop where
  defs : e.viewsFile.defs = e.views.defs
  sub : ∀ v, e.viewsFile.isClean v = true → e.views.isClean v = true
  mem : Good e.tables e.views.defs e.views.isClean
  file : Good e.committed e.views.defs e.viewsFile.isClean

/-- The registry is written outside a transaction. -/
lemma Inv.persist (htx : e.inTransaction = false) (h : Good e.tables e.views.defs e.views.isClean) : Inv e.persist :=
  ⟨rfl,fun _ hv => hv,h,(committed_idle htx : e.persist.committed = e.tables).symm ▸ h⟩

/-- What refreshing may do: only views in `A` become clean, and the tables that are
not views stay. -/
structure Refreshes (A : String → Prop) (e e' : Engine σ ρ) : Prop where
  inv : Inv e'
  defs : e'.views.defs = e.views.defs
  snapshot : e'.snapshot = e.snapshot
  inTransaction : e'.inTransaction = e.inTransaction
  implicitTransaction : e'.implicitTransaction = e.implicitTransaction
  transactionAborted : e'.transactionAborted = e.transactionAborted
  poisoned : e'.poisoned = e.poisoned
  clean : ∀ v, e.views.isClean v = true → e'.views.isClean v = true
  new : ∀ v, e'.views.isClean v = true → e.views.isClean v = true ∨ A v
  base : ∀ t, t ∉ e.views.names → e'.tables t = e.tables t

namespace Refreshes
variable {A : String → Prop} {e : Engine σ ρ}

lemma refl (h : Inv e) : Refreshes A e e :=
  ⟨h,rfl,rfl,rfl,rfl,rfl,rfl,fun _ h => h,fun _ h => .inl h,fun _ _ => rfl⟩

lemma names (h : Refreshes A e e') : e'.views.names = e.views.names := names_of_defs h.defs

lemma trans (h : Refreshes A e e') (h' : Refreshes A e' e'') : Refreshes A e e'' where
  inv := h'.inv
  defs := h'.defs.trans h.defs
  snapshot := h'.snapshot.trans h.snapshot
  inTransaction := h'.inTransaction.trans h.inTransaction
  implicitTransaction := h'.implicitTransaction.trans h.implicitTransaction
  transactionAborted := h'.transactionAborted.trans h.transactionAborted
  poisoned := h'.poisoned.trans h.poisoned
  clean v hv := h'.clean v (h.clean v hv)
  new v hv := by
    rcases h'.new v hv with hv | hv
    · exact h.new v hv
    · exact .inr hv
  base t ht := (h'.base t (h.names ▸ ht)).trans (h.base t ht)

end Refreshes

/-- A set of views that holds, with a view, the views it reads. -/
def SourceClosed (defs : List (String × SourceQuery σ ρ)) (A : String → Prop) : Prop :=
  ∀ d ∈ defs, A d.1 → ∀ t ∈ d.2.reads, t ∈ defs.map fst → A t

/-- A refresh function that does its work on views in `A`. -/
def RefreshSpec (A : String → Prop) (refresh : Engine σ ρ → String → Bool × Engine σ ρ) : Prop :=
  ∀ e v, Inv e → SourceClosed e.views.defs A → (v ∈ e.views.names → A v) →
    Refreshes A e (refresh e v).2 ∧ ((refresh e v).1 = true → (refresh e v).2.views.isClean v = true)

section refresh
variable {A : String → Prop}

lemma refreshAll_spec (hspec : RefreshSpec A refresh) (force : Bool) (vs : List String)
    (hinv : Inv e) (hA : SourceClosed e.views.defs A) (hvs : ∀ v ∈ vs, v ∈ e.views.names → A v) :
    Refreshes A e (refreshAll refresh force e vs).2 ∧ ((refreshAll refresh force e vs).1 = true →
      ∀ v ∈ vs, v ∈ e.views.names → (refreshAll refresh force e vs).2.views.isClean v = true) := by
  induction vs generalizing e with
  | nil => exact ⟨Refreshes.refl hinv,by simp⟩
  | cons v vs ih =>
    rw [refreshAll]
    split
    · obtain ⟨hone,hclean⟩ := hspec e v hinv hA (hvs v mem_cons_self)
      rcases hres : refresh e v with ⟨ok,e₁⟩
      rw [hres] at hone hclean
      cases ok with
      | false => exact ⟨hone,by simp⟩
      | true =>
        have hA₁ : SourceClosed e₁.views.defs A := hone.defs ▸ hA
        obtain ⟨hrest,hok⟩ := ih hone.inv hA₁
          (fun w hw hname => hvs w (mem_cons_of_mem _ hw) (hone.names ▸ hname))
        refine ⟨hone.trans hrest,fun hdone w hw hname => ?_⟩
        rcases mem_cons.mp hw with rfl | hw
        · exact hrest.clean w (hclean rfl)
        · exact hok hdone w hw (hone.names ▸ hname)
    · rename_i hskip
      simp only [Bool.or_eq_true,not_or,Bool.not_eq_true] at hskip
      obtain ⟨hrest,hok⟩ := ih hinv hA (fun w hw => hvs w (mem_cons_of_mem _ hw))
      refine ⟨hrest,fun hdone w hw hname => ?_⟩
      rcases mem_cons.mp hw with rfl | hw
      · exact hrest.clean w (clean_of_not_dirty hname hskip.2)
      · exact hok hdone w hw hname

/-- After it every view the query reads, other than through links, is clean. -/
lemma refreshRead_spec (hspec : RefreshSpec A refresh) (hinv : Inv e)
    (hA : SourceClosed e.views.defs A) (hq : ∀ v ∈ q.scans++q.nested, v ∈ e.views.names → A v) :
    Refreshes A e (refreshRead refresh e q).2 ∧ ((refreshRead refresh e q).1 = true →
      ∀ v ∈ q.scans++q.nested, v ∈ e.views.names → (refreshRead refresh e q).2.views.isClean v = true) := by
  have hstale : ∀ v ∈ (q.scans.filter e.views.isDirty).dedup, v ∈ e.views.names → A v := by
    intro v hv
    exact hq v (mem_append_left _ (mem_filter.mp (mem_dedup.mp hv)).1)
  obtain ⟨hfirst,hclean⟩ := refreshAll_spec hspec true _ hinv hA hstale
  rw [refreshRead]
  rcases hres : refreshAll refresh true e ((q.scans.filter e.views.isDirty).dedup) with ⟨ok,e₁⟩
  rw [hres] at hfirst hclean
  cases ok with
  | false => exact ⟨hfirst,by simp⟩
  | true =>
    obtain ⟨hsecond,hnested⟩ := refreshAll_spec hspec false q.nested hfirst.inv (hfirst.defs ▸ hA)
      (fun v hv hname => hq v (mem_append_right _ hv) (hfirst.names ▸ hname))
    refine ⟨hfirst.trans hsecond,fun hdone v hv hname => ?_⟩
    rcases mem_append.mp hv with hv | hv
    · apply hsecond.clean
      by_cases hdirty : e.views.isDirty v = true
      · exact hclean rfl v (mem_dedup.mpr (mem_filter.mpr ⟨hv,hdirty⟩)) hname
      · exact hfirst.clean v (clean_of_not_dirty hname (by simpa using hdirty))
    · exact hnested hdone v hv (hfirst.names ▸ hname)

end refresh

@[simp] lemma setTable_self (e : Engine σ ρ) (v : String) (s : Option (Stored σ ρ)) :
    (e.setTable v s).tables v = s := by simp [setTable]

/-- A query sees no change in a table it does not read. -/
lemma eval_setTable {q : SourceQuery σ ρ} (h : v ∉ q.reads) (e : Engine σ ρ) (s : Option (Stored σ ρ)) :
    q.eval (e.setTable v s).seen = q.eval e.seen := by
  apply q.eval_congr
  intro t ht
  have hne : t ≠ v := fun heq => h (heq ▸ ht)
  simp [seen,seenOf,setTable,hne]

section store
variable {A : String → Prop} {e : Engine σ ρ} {v : String}

/-- A table may change that is not clean and that no clean view reads. -/
lemma Inv.set_unread (h : Inv e) (hdirty : e.views.isClean v = false)
    (hunread : ∀ d ∈ e.views.defs, e.views.isClean d.1 = true → v ∉ d.2.reads)
    (hs : v ∈ e.views.names → s.isSome = true) : Inv (e.setTable v s) := by
  have hmem := h.mem.set_unread hdirty hunread (names_eq e.views ▸ hs)
  refine ⟨h.defs,h.sub,hmem,?_⟩
  cases htx : e.inTransaction with
  | true =>
    have hc : (e.setTable v s).committed = e.committed := by
      rw [committed_open htx]
      exact if_pos htx
    exact hc.symm ▸ h.file
  | false =>
    have hc : (e.setTable v s).committed = update e.tables v s := if_neg (by simp [setTable,htx])
    exact hc.symm ▸ hmem.part h.file h.sub

/-- Rows may be written under a view that is not clean. -/
lemma Inv.set_dirty (h : Inv e) (hv : v ∈ e.views.names) (hdirty : e.views.isClean v = false) (s : Stored σ ρ) :
    Inv (e.setTable v (some s)) :=
  h.set_unread hdirty (h.mem.unread_of_dirty hdirty (names_eq e.views ▸ hv)) (fun _ => rfl)

/-- A view whose table holds what its source gives may be called clean, in the file
too when no transaction is open. -/
lemma Inv.mark_clean (h : Inv e) (hv : v ∈ e.views.names) (hA : A v)
    (hgood : Good e.tables e.views.defs (e.views.setDirty v false).isClean) :
    Refreshes A e (if e.inTransaction then e.markCleanInMemory v else e.markClean v) ∧
      (if e.inTransaction then e.markCleanInMemory v else e.markClean v).views.isClean v = true := by
  have hclean : ∀ t, (e.views.setDirty v false).isClean t = true ↔ e.views.isClean t = true ∨ t = v := by
    simp [isClean_setDirty,isView_iff.mpr hv]
  have hdefs : (e.views.setDirty v false).defs = e.views.defs := defs_setDirty _ _ _
  have hnew : ∀ t, (e.views.setDirty v false).isClean t = true → e.views.isClean t = true ∨ A t := by
    intro t ht
    rcases (hclean t).mp ht with ht | rfl
    · exact .inl ht
    · exact .inr hA
  split
  · exact ⟨⟨⟨h.defs.trans hdefs.symm,fun t ht => (hclean t).mpr (.inl (h.sub t ht)),hdefs.symm ▸ hgood,
      hdefs.symm ▸ h.file⟩,hdefs,rfl,rfl,rfl,rfl,rfl,fun t ht => (hclean t).mpr (.inl ht),hnew,fun _ _ => rfl⟩,
      (hclean v).mpr (.inr rfl)⟩
  · rename_i htx
    rw [markClean]
    split
    · exact ⟨⟨@Inv.persist _ _ (e.markCleanInMemory v) (Bool.eq_false_iff.mpr htx) (hdefs.symm ▸ hgood),hdefs,rfl,rfl,rfl,rfl,
        rfl,fun t ht => (hclean t).mpr (.inl ht),hnew,fun _ _ => rfl⟩,(hclean v).mpr (.inr rfl)⟩
    · rename_i hflag
      exact ⟨.refl h,clean_of_not_dirty hv (by simpa using hflag)⟩

/-- Storing what the source gives: a clean view has it already, any other becomes clean. -/
lemma storeView_spec (ops : ViewStorage σ ρ) (h : Inv e) {q : SourceQuery σ ρ} (hd : (v,q) ∈ e.views.defs)
    (hA : A v) (hsrc : ∀ t ∈ q.reads, t ∈ e.views.names → e.views.isClean t = true)
    (hs : e.tables v = some backing) (heval : q.eval e.seen = some rows) :
    Refreshes A e (e.storeView ops v backing rows).2 ∧ ((e.storeView ops v backing rows).1 = true →
      (e.storeView ops v backing rows).2.views.isClean v = true) := by
  have hv : v ∈ e.views.names := names_eq e.views ▸ mem_map_of_mem hd
  simp only [storeView]
  split
  · exact ⟨Refreshes.refl h,by simp⟩
  rename_i hfit
  cases hclean : e.views.isClean v with
  | true =>
    obtain ⟨s,hs',hrows⟩ := h.mem.fresh _ hd hclean
    cases hs.symm.trans hs'
    have hrows : rows = backing.rows := Option.some.inj (heval.symm.trans hrows)
    have hfits : ops.fits backing.schema rows = true := by
      by_contra hne
      rcases Multiset.empty_or_exists_mem backing.rows with hz | ⟨x,hx⟩
      · rw [hrows,hz,ops.fits_zero] at hne
        exact hne rfl
      · simp [hne,Multiset.card_pos_iff_exists_mem.mpr ⟨x,hx⟩] at hfit
    have hfull := ops.refill_same backing
    have hkept := ops.refill_ok backing backing.rows hfull
    have hset : e.setTable v (some backing) = e := by simp [setTable,← hs]
    simp only [hfits,Bool.not_true,Bool.false_eq_true,if_false]
    subst hrows
    rw [hfull,hkept,hset]
    have hsame : (e.views.setDirty v false).isClean = e.views.isClean := by
      funext t
      rw [isClean_setDirty]
      by_cases ht : t = v <;> simp [ht,hclean]
    obtain ⟨hmark,hdone⟩ := h.mark_clean hv hA (hsame ▸ h.mem)
    exact ⟨hmark,fun _ => hdone⟩
  | false =>
    split
    · exact ⟨Refreshes.refl h,by simp⟩
    rename_i schema _
    have hset : ∀ s, Refreshes A e (e.setTable v (some s)) := by
      intro s
      refine ⟨h.set_dirty hv hclean s,rfl,rfl,rfl,rfl,rfl,rfl,fun _ h => h,fun _ h => .inl h,fun t ht => ?_⟩
      have hne : t ≠ v := fun heq => ht (heq ▸ hv)
      exact update_of_ne hne _ _
    split
    · exact ⟨hset _,by simp⟩
    rename_i hfull
    simp only [Bool.not_eq_true',Bool.not_eq_false] at hfull
    rw [ops.refill_ok _ _ hfull]
    have hself : v ∉ q.reads := by
      intro hread
      rw [hsrc v hread hv] at hclean
      cases hclean
    let stored : Stored σ ρ := ⟨schema,rows,backing.indexed,backing.linked⟩
    have hinv := h.set_dirty hv hclean stored
    obtain ⟨hmark,hdone⟩ := hinv.mark_clean hv hA (hinv.mem.add hd hclean
      (fun t ht hm => hsrc t ht (names_eq e.views ▸ hm)) (setTable_self e v (some stored))
      ((eval_setTable hself e _).trans heval) (by simp [setTable,isClean_setDirty,isView_iff.mpr hv]))
    exact ⟨(hset _).trans hmark,fun _ => hdone⟩

/-- Refreshing keeps the invariant, and a view it reports done is clean. -/
lemma refreshView_spec (ops : ViewStorage σ ρ) (n : ℕ) : RefreshSpec A (refreshView ops n) := by
  induction n with
  | zero => exact fun e v h _ _ => ⟨Refreshes.refl h,by simp [refreshView]⟩
  | succ n ih =>
    intro e v h hA hv
    rw [refreshView]
    cases hget : e.views.get v with
    | none => exact ⟨Refreshes.refl h,by simp⟩
    | some d =>
      have hd := get_spec hget
      have hname : v ∈ e.views.names := names_eq e.views ▸ mem_map_of_mem hd
      have hreads : ∀ t ∈ d.query.scans++d.query.nested, t ∈ e.views.names → A t := by
        intro t ht hview
        exact hA _ hd (hv hname) t (mem_append_left _ ht) (names_eq e.views ▸ hview)
      obtain ⟨hread,hclean⟩ := refreshRead_spec ih h hA hreads
      dsimp only
      rcases hres : refreshRead (refreshView ops n) e d.query with ⟨ok,e₁⟩
      rw [hres] at hread hclean
      cases ok with
      | false => exact ⟨hread,by simp⟩
      | true =>
        dsimp only
        split
        · rename_i rows backing heval hs
          -- link paths of a registered source lead through no view
          have hsrc : ∀ t ∈ d.query.reads, t ∈ e₁.views.names → e₁.views.isClean t = true := by
            intro t ht hview
            rcases mem_append.mp ht with ht | ht
            · exact hclean rfl t ht (hread.names ▸ hview)
            · exact absurd (names_eq e.views ▸ hread.names ▸ hview) (h.mem.hops _ hd t ht)
          obtain ⟨hstore,hdone⟩ := storeView_spec ops hread.inv (hread.defs.symm ▸ hd) (hv hname)
            hsrc hs heval
          exact ⟨hread.trans hstore,hdone⟩
        · exact ⟨hread,by simp⟩

end store
end Engine
end PowDB.Views
