import PowDB.Query.ViewsInv

/-! Runs of statements and reopenings. In a run that stays off the paths on which a
flag is left wrong, every read of a materialized view gives the rows its source
query gives on the current base tables. -/
namespace PowDB.Views
open List Option Registry Prod
variable {σ ρ : Type}

namespace Engine

/-- The tables with other rows in the views. -/
def withViewRows (e : Engine σ ρ) (rowsOf : String → Multiset ρ) (t : String) : Option (σ × Multiset ρ) :=
  if e.views.isView t then (e.seen t).map (fun x => (x.1,rowsOf t)) else e.seen t

/-- The rows a view stands for: what its source query gives when the views it reads
have the rows they stand for. -/
inductive Current (e : Engine σ ρ) : String → Multiset ρ → Prop
  | view {v : String} {q : SourceQuery σ ρ} {rowsOf : String → Multiset ρ} {rows : Multiset ρ}
      (hd : (v,q) ∈ e.views.defs)
      (hsrc : ∀ t ∈ q.reads, e.views.isView t = true → Current e t (rowsOf t))
      (heval : q.eval (e.withViewRows rowsOf) = some rows) : Current e v rows

/-- A view stands for one multiset of rows. -/
lemma Current.unique (hnodup : (e.views.defs.map fst).Nodup)
    (h : Current e v r) (h' : Current e v r') : r = r' := by
  induction h generalizing r' with
  | view hd _ heval ih =>
    cases h' with
    | view hd' hsrc' heval' =>
      cases congrArg snd (inj_on_of_nodup_map hnodup hd hd' rfl)
      refine some.inj (heval.symm.trans (Eq.trans ?_ heval'))
      refine SourceQuery.eval_congr _ (fun t ht => ?_)
      simp only [withViewRows]
      split
      · rename_i hv
        rw [ih t ht hv (hsrc' t ht hv)]
      · rfl

lemma withViewRows_stored {e : Engine σ ρ}
    (h : ∀ s, e.tables t = some s → rowsOf t = s.rows) : e.withViewRows rowsOf t = e.seen t := by
  simp only [withViewRows,seen,seenOf]
  cases hs : e.tables t with
  | none => simp
  | some s => simp [h s hs]

/-- A clean view stores the rows it stands for. -/
lemma Inv.current {e : Engine σ ρ} (h : Inv e) (hv : e.views.isClean v = true) :
    ∃ s, e.tables v = some s ∧ Current e v s.rows := by
  obtain ⟨rank,hrank⟩ := h.mem.ranked
  generalize hn : rank v = n
  induction n using Nat.strong_induction_on generalizing v with
  | _ n ih =>
    have hname := mem_names_of_clean hv
    rw [names_eq] at hname
    obtain ⟨⟨v,q⟩,hd,rfl⟩ := mem_map.mp hname
    obtain ⟨s,hs,heval⟩ := h.mem.fresh _ hd hv
    let rowsOf := fun t => ((e.tables t).map Stored.rows).getD 0
    refine ⟨s,hs,@Current.view σ ρ e v q rowsOf s.rows hd (fun t ht hview => ?_) ?_⟩
    · have hclean := h.mem.closed _ hd hv t ht (names_eq e.views ▸ isView_iff.mp hview)
      obtain ⟨s',hs',hcur⟩ := ih (rank t) (hn ▸ hrank _ hd hv t ht hclean) hclean rfl
      have hrows : rowsOf t = s'.rows := by simp [rowsOf,hs']
      exact hrows ▸ hcur
    · rw [← heval]
      apply q.eval_congr
      intro t _
      exact withViewRows_stored (fun s' hs' => by simp [rowsOf,hs'])

/-- A schema change under which clean views keep their rows and their sources' results. -/
def alterOk (e : Engine σ ρ) (t : String) (f : Stored σ ρ → Option (Stored σ ρ)) : Prop :=
  ∀ s ∈ e.tables t, ∀ s' ∈ f s, ∀ d ∈ e.views.defs, e.views.isClean d.1 = true →
    (d.1 = t → s'.rows = s.rows) ∧ d.2.eval (e.setTable t (some s')).seen = d.2.eval e.seen

/-- What a statement must stay off for the flags to be right after it. -/
def statementOk (e : Engine σ ρ) : Statement σ ρ → Prop
  -- no link path into a dirty view
  | .read q => ∀ t ∈ q.hops, e.views.isDirty t = false
  -- the table is no clean view, no view over it is read meanwhile, and an open
  -- transaction has refreshed no view when the registry is written
  | .mutate t q _ => e.views.isClean t = false ∧
      (∀ v ∈ q.scans++q.nested, e.views.isView v = true → v ≠ t ∧ v ∉ e.views.dependentsOf t) ∧
      (e.inTransaction = true → (e.views.markDependentsDirty t).isSome = true →
        ∀ v ∈ e.views.cleanNames, e.viewsFile.isClean v = true)
  | .alter t f => e.alterOk t f
  -- no link path of a source leads through a view
  | .createView v q => (∀ t ∈ q.hops, e.views.isView t = false) ∧ ∀ d ∈ e.views.defs, v ∉ d.2.hops
  | .dropView v => ∀ d ∈ e.views.defs, e.views.isClean d.1 = true → v ∉ d.2.reads
  | _ => True

def stepOk (e : Engine σ ρ) : Step σ ρ → Prop
  | .statement s => e.statementOk s
  | .reopen => True

def runOk (ops : ViewStorage σ ρ) (e : Engine σ ρ) : List (Step σ ρ) → Prop
  | [] => True
  | s::ss => e.stepOk s ∧ (e.step ops s).runOk ops ss

section
variable [DecidableEq ρ]

instance (e : Engine σ ρ) : (s : Statement σ ρ) → Decidable (e.statementOk s)
  | .read _ | .dropView _ => inferInstanceAs (Decidable (∀ _ ∈ _, _))
  | .mutate _ _ _ => inferInstanceAs (Decidable (_ ∧ (∀ _ ∈ _, _) ∧ (_ → _ → ∀ _ ∈ _, _)))
  | .alter t f => inferInstanceAs (Decidable (∀ s ∈ e.tables t, ∀ _ ∈ f s, ∀ _ ∈ _, _))
  | .createView _ _ => inferInstanceAs (Decidable ((∀ _ ∈ _, _) ∧ ∀ _ ∈ _, _))
  | .createTable _ _ | .dropTable _ | .refresh _ | .begin | .commit | .rollback => .isTrue trivial

instance (e : Engine σ ρ) : (s : Step σ ρ) → Decidable (e.stepOk s)
  | .statement s => inferInstanceAs (Decidable (e.statementOk s))
  | .reopen => .isTrue trivial

instance decidableRunOk (ops : ViewStorage σ ρ) (e : Engine σ ρ) : (ss : List (Step σ ρ)) → Decidable (e.runOk ops ss)
  | [] => .isTrue trivial
  | s::ss =>
    have := decidableRunOk ops (e.step ops s) ss
    inferInstanceAs (Decidable (_ ∧ _))

end

section boundaries
variable {e : Engine σ ρ}

section
variable (h : Inv e)
include h

lemma Inv.flags (implicit aborted poisoned : Bool) :
    Inv {e with implicitTransaction := implicit, transactionAborted := aborted, poisoned := poisoned} :=
  ⟨h.defs,h.sub,h.mem,h.file⟩

/-- Opening a transaction makes the tables the committed ones. -/
lemma Inv.begin (htx : e.inTransaction = false) (implicit : Bool) :
    Inv {e with snapshot := e.tables, inTransaction := true, implicitTransaction := implicit} := by
  have hfile := h.file
  rw [committed_idle htx] at hfile
  exact ⟨h.defs,h.sub,h.mem,hfile⟩

/-- What the file calls clean is clean in memory, so it is fresh on the tables. -/
lemma Inv.commit : Inv e.commitTransaction := ⟨h.defs,h.sub,h.mem,h.mem.part h.file h.sub⟩

lemma Inv.all_backed : e.viewsFile.all (fun d => (e.committed d.name).isSome) = true := by
  rw [List.all_eq_true]
  intro d hd
  have hname : d.name ∈ e.viewsFile.names := List.mem_map_of_mem hd
  exact h.file.backed d.name (h.defs ▸ names_eq e.viewsFile ▸ hname)

/-- The registry file goes with the committed tables. -/
lemma Inv.reload (htables : e'.tables = e.committed)
    (hviews : e'.views = e.viewsFile) (hfile : e'.viewsFile = e.viewsFile) (hidle : e'.inTransaction = false) :
    Inv e' := by
  have hgood := h.file
  have hcommitted := committed_idle hidle
  rw [htables] at hcommitted
  rw [← h.defs] at hgood
  refine ⟨by rw [hviews,hfile],by rw [hviews,hfile]; exact fun _ hv => hv,?_,?_⟩
  · rwa [hviews,htables]
  · rwa [hviews,hfile,hcommitted]

lemma Inv.rollback (htx : e.inTransaction = true) :
    e.rollbackTransaction = (true,e.restored) ∧ Inv e.restored := by
  have hback := h.all_backed
  rw [committed_open htx] at hback
  exact ⟨if_pos hback,h.reload (committed_open htx).symm rfl rfl rfl⟩

lemma Inv.reopen : Inv e.reopen ∧ e.reopen.poisoned = false := by
  refine ⟨h.reload rfl rfl rfl rfl,?_⟩
  show (!_) = false
  rw [Bool.not_eq_false']
  exact h.all_backed

end

end boundaries

section statements
variable {e : Engine σ ρ}
  {v : String} {q : SourceQuery σ ρ}

/-- Marking keeps the invariant, and leaves no clean view over the table. Inside a
transaction the file must have called clean whatever memory does. -/
lemma Inv.markDependents (h : Inv e) (hfile : e.committed = e.tables ∨
    ((e.views.markDependentsDirty t).isSome = true → ∀ v ∈ e.views.cleanNames, e.viewsFile.isClean v = true)) :
    Inv (e.markDependentsDirty t) ∧ (e.markDependentsDirty t).views.defs = e.views.defs ∧
      (∀ v, (e.markDependentsDirty t).views.isClean v = true → e.views.isClean v = true) ∧
      ∀ d ∈ e.views.defs, (e.markDependentsDirty t).views.isClean d.1 = true → t ∉ d.2.reads := by
  simp only [Engine.markDependentsDirty]
  cases hmark : e.views.markDependentsDirty t with
  | none => exact ⟨h,rfl,fun _ hv => hv,markDependentsDirty_none hmark⟩
  | some reg =>
    obtain ⟨hdefs,hle,hunread,hclosed⟩ := markDependentsDirty_spec hmark
    have hmem : Good e.tables reg.defs reg.isClean := hdefs.symm ▸ h.mem.restrict hle hclosed
    have hgood : Good e.committed reg.defs reg.isClean := by
      rcases hfile with heq | hfile
      · rw [heq]
        exact hmem
      · have hin : ∀ v, reg.isClean v = true → e.viewsFile.isClean v = true := fun v hv =>
          hfile (by rw [hmark]; rfl) v (mem_cleanNames.mpr (hle v hv))
        exact hdefs.symm ▸ h.file.restrict hin (fun d hd hc v hv hcv => hclosed d hd hc v hv (h.sub v hcv))
    exact ⟨⟨rfl,fun _ hv => hv,hmem,hgood⟩,hdefs,hle,hunread⟩

/-- The views that do not depend on a table, and are not the table, are closed under sources. -/
lemma independent_closed (defs : List (String × SourceQuery σ ρ)) (t : String) :
    SourceClosed defs (fun v => v ≠ t ∧ ¬ Registry.Depends defs t v) := by
  intro d hd hA v hv _
  refine ⟨fun heq => ?_,fun hdep => hA.2 (.through hd hv hdep)⟩
  exact hA.2 (.direct hd (heq ▸ hv))

lemma anyView_closed (defs : List (String × SourceQuery σ ρ)) : SourceClosed defs (fun _ => True) :=
  fun _ _ _ _ _ _ => trivial

/-- Running a query refreshes; when it succeeds, the views it reads other than through
links are clean. -/
lemma runQuery_spec (ops : ViewStorage σ ρ) (h : Inv e) (q : SourceQuery σ ρ) :
    Refreshes (fun _ => True) e (e.runQuery ops q).2 ∧ ∀ rows, (e.runQuery ops q).1 = some rows →
      q.eval (e.runQuery ops q).2.seen = some rows ∧ ∀ v ∈ q.scans++q.nested, v ∈ e.views.names →
        (e.runQuery ops q).2.views.isClean v = true := by
  obtain ⟨hread,hclean⟩ := refreshRead_spec (q := q) (refreshView_spec ops (e.views.length+1)) h
    (anyView_closed _) (fun _ _ _ => trivial)
  simp only [runQuery]
  rcases hres : refreshRead (refreshView ops (e.views.length+1)) e q with ⟨ok,e₁⟩
  rw [hres] at hread hclean
  cases ok with
  | false => exact ⟨hread,by simp⟩
  | true => exact ⟨hread,fun rows hrows => ⟨hrows,hclean rfl⟩⟩

/-- What `dispatch` may leave behind. -/
structure Left (e : Engine σ ρ) : Prop extends Inv e where
  opened : e.implicitTransaction = true → e.inTransaction = true
  usable : e.poisoned = false

lemma Refreshes.left (h : Refreshes A e e')
    (himp : e.implicitTransaction = true → e.inTransaction = true) (hp : e.poisoned = false) : Left e' :=
  ⟨h.inv,fun hi => h.inTransaction.trans (himp (h.implicitTransaction.symm.trans hi)),h.poisoned.trans hp⟩

lemma Left.set (h : Left e) (hinv : Inv (e.setTable v s)) :
    Left (e.setTable v s) := ⟨hinv,h.opened,h.usable⟩

/-- A table that is missing is no view and is read by no clean view. -/
lemma Inv.unread_of_missing (h : Inv e) (ht : e.tables t = none) : t ∉ e.views.names ∧ e.views.isClean t = false ∧
      ∀ d ∈ e.views.defs, e.views.isClean d.1 = true → t ∉ d.2.reads := by
  have hname : t ∉ e.views.names := by
    intro hv
    have := h.mem.backed t (names_eq e.views ▸ hv)
    simp [ht] at this
  refine ⟨hname,?_,fun d hd hc hread => ?_⟩
  · by_contra hc
    exact hname (mem_names_of_clean (by simpa using hc))
  · obtain ⟨s,-,heval⟩ := h.mem.fresh d hd hc
    have := d.2.needs heval t hread
    simp [seenOf,ht] at this

lemma beginMutation_left (h : Left e) : Left e.beginMutation ∧ e.beginMutation.views = e.views ∧
    e.beginMutation.viewsFile = e.viewsFile ∧ e.beginMutation.tables = e.tables ∧
    (e.beginMutation.committed = e.tables ∨ e.inTransaction = true) := by
  rw [beginMutation]
  split
  · rename_i htx
    exact ⟨h,rfl,rfl,rfl,.inr htx⟩
  · rename_i htx
    exact ⟨⟨h.toInv.begin (by simpa using htx) true,fun _ => rfl,h.usable⟩,rfl,rfl,rfl,.inl rfl⟩

lemma Left.markDependents (h : Left e) (hfile : e.committed = e.tables ∨
    ((e.views.markDependentsDirty t).isSome = true → ∀ v ∈ e.views.cleanNames, e.viewsFile.isClean v = true)) :
    Left (e.markDependentsDirty t) := by
  refine ⟨(h.toInv.markDependents hfile).1,?_,?_⟩ <;> rw [Engine.markDependentsDirty] <;> split
  · exact h.opened
  · exact h.opened
  · exact h.usable
  · exact h.usable

lemma mutate_left (h : Left e)
    (hok : e.statementOk (.mutate t q apply)) : Left (e.mutate ops t q apply).2 := by
  obtain ⟨hclean,hreads,hpersist⟩ := hok
  rw [mutate]
  cases ht : e.tables t with
  | none => exact h
  | some s =>
    obtain ⟨hbegin,hviews,hfile,htables,hcommitted⟩ := beginMutation_left h
    have hwrite : e.beginMutation.committed = e.beginMutation.tables ∨
        ((e.beginMutation.views.markDependentsDirty t).isSome = true →
          ∀ v ∈ e.beginMutation.views.cleanNames, e.beginMutation.viewsFile.isClean v = true) := by
      rw [hviews,hfile,htables]
      exact hcommitted.imp_right hpersist
    have hmark := hbegin.markDependents hwrite
    obtain ⟨-,hdefs,hle,hunread⟩ := hbegin.toInv.markDependents hwrite
    rw [hviews] at hdefs hle hunread
    have hA := independent_closed e.views.defs t
    have hq : ∀ v ∈ q.scans++q.nested, v ∈ (e.beginMutation.markDependentsDirty t).views.names →
        v ≠ t ∧ ¬ Registry.Depends e.views.defs t v := by
      intro v hv hname
      obtain ⟨hne,hdep⟩ := hreads v hv (isView_iff.mpr (names_of_defs hdefs ▸ hname))
      exact ⟨hne,fun hd => hdep (mem_dependentsOf hd)⟩
    obtain ⟨hread,-⟩ := refreshRead_spec (refreshView_spec ops (e.views.length+1)) hmark.toInv
      (hdefs.symm ▸ hA) hq
    have hleft := hread.left hmark.opened hmark.usable
    rcases hres : refreshRead (refreshView ops (e.views.length+1)) (e.beginMutation.markDependentsDirty t) q
      with ⟨ok,e₁⟩
    rw [hres] at hread hleft
    cases ok with
    | false => exact hleft
    | true =>
      refine hleft.set (hread.inv.set_unread ?_ (fun d hd hc => ?_) (fun _ => rfl))
      · by_contra hc
        rcases hread.new t (by simpa using hc) with hc | hc
        · rw [hle t hc] at hclean
          cases hclean
        · exact hc.1 rfl
      · have hd' : d ∈ e.views.defs := hdefs ▸ hread.defs ▸ hd
        rcases hread.new _ hc with hc | hc
        · exact hunread d hd' hc
        · exact fun hr => hc.2 (.direct hd' hr)

section
variable {tables : String → Option (Stored σ ρ)} {defs : List (String × SourceQuery σ ρ)} {clean clean' : String → Bool}
  (h : Good tables defs clean) (hunread : ∀ d ∈ defs, clean d.1 = true → v ∉ d.2.reads)
include h hunread

/-- A new view, not called clean yet. -/
lemma Good.register (hv : v ∉ defs.map fst) (hclean : clean v = false) (hself : v ∉ q.hops)
    (hhops : ∀ w ∈ q.hops, w ∉ defs.map fst) (hothers : ∀ d ∈ defs, v ∉ d.2.hops)
    (hs : (tables v).isSome = true) : Good tables (defs++[(v,q)]) clean := by
  have hold : ∀ d ∈ defs++[(v,q)], clean d.1 = true → d ∈ defs := by
    intro d hd hc
    rcases mem_append.mp hd with hd | hd
    · exact hd
    · rw [mem_singleton.mp hd,hclean] at hc
      cases hc
  obtain ⟨rank,hrank⟩ := h.ranked
  refine ⟨?_,fun d hd w hw => ?_,fun w hw => ?_,fun d hd hc w hw hname => ?_,
    ⟨rank,fun d hd hc => hrank d (hold d hd hc) hc⟩,fun d hd hc => h.fresh d (hold d hd hc) hc⟩
  all_goals simp only [map_append,mem_append,map_cons,map_nil,mem_singleton] at *
  · exact nodup_append.mpr ⟨h.nodup,nodup_singleton v,fun a ha b hb hab => hv (mem_singleton.mp hb ▸ hab ▸ ha)⟩
  · rintro (hn | rfl) <;> rcases hd with hd | rfl
    · exact h.hops d hd w hw hn
    · exact hhops w hw hn
    · exact hothers d hd hw
    · exact hself hw
  · rcases hw with hw | rfl
    · exact h.backed w hw
    · exact hs
  · rcases hname with hname | rfl
    · exact h.closed d (hold d hd hc) hc w hw hname
    · exact absurd hw (hunread d (hold d hd hc) hc)

lemma Good.unregister (hclean : ∀ w, clean' w = true ↔ clean w = true ∧ w ≠ v) :
    Good (Function.update tables v none) (defs.filter (·.1 ≠ v)) clean' := by
  have hmem {d : String × SourceQuery σ ρ} : d ∈ defs.filter (·.1 ≠ v) ↔ d ∈ defs ∧ d.1 ≠ v := by simp
  have hname {w : String} (hw : w ∈ (defs.filter (·.1 ≠ v)).map fst) : w ∈ defs.map fst ∧ w ≠ v := by
    obtain ⟨d,hd,rfl⟩ := mem_map.mp hw
    exact ⟨mem_map_of_mem (hmem.mp hd).1,(hmem.mp hd).2⟩
  obtain ⟨rank,hrank⟩ := h.ranked
  refine ⟨h.nodup.sublist (List.filter_sublist.map _),fun d hd w hw hn => h.hops d (hmem.mp hd).1 w hw (hname hn).1,
    fun w hw => ?_,fun d hd hc w hw hn => ?_,⟨rank,fun d hd hc w hw hcw => ?_⟩,fun d hd hc => ?_⟩
  · rw [Function.update_of_ne (hname hw).2]
    exact h.backed w (hname hw).1
  all_goals
    obtain ⟨hd,hne⟩ := hmem.mp hd
    obtain ⟨hc,-⟩ := (hclean _).mp hc
  · exact (hclean _).mpr ⟨h.closed d hd hc _ hw (hname hn).1,(hname hn).2⟩
  · exact hrank d hd hc w hw ((hclean w).mp hcw).1
  · obtain ⟨s,hs,heval⟩ := h.fresh d hd hc
    refine ⟨s,by rw [Function.update_of_ne hne,hs],heval ▸ d.2.eval_congr (fun w hw => ?_)⟩
    have hwv : w ≠ v := fun heq => hunread d hd hc (heq ▸ hw)
    simp [seenOf,hwv]

end

lemma Registry.isClean_append (reg : Registry σ ρ) (v : String) (q : SourceQuery σ ρ) (w : String) :
    Registry.isClean (reg++[⟨v,q,false⟩]) w = true ↔ reg.isClean w = true ∨ w = v := by
  simp only [Registry.isClean,any_append,any_cons,any_nil,Bool.or_false,Bool.not_false,
    Bool.and_true,Bool.or_eq_true,decide_eq_true_eq]
  exact or_congr_right ⟨Eq.symm,Eq.symm⟩

/-- A new view over clean sources, written to the file outside a transaction. -/
lemma Inv.registerView (h : Inv e) (htx : e.inTransaction = false) (hv : v ∉ e.views.names)
    (hunread : ∀ d ∈ e.views.defs, e.views.isClean d.1 = true → v ∉ d.2.reads)
    (hsrc : ∀ w ∈ q.reads, w ∈ e.views.names → e.views.isClean w = true) (hself : v ∉ q.reads)
    (hhops : ∀ w ∈ q.hops, w ∉ e.views.names) (hothers : ∀ d ∈ e.views.defs, v ∉ d.2.hops)
    (hs : e.tables v = some s) (heval : q.eval e.seen = some s.rows) :
    Inv ({e with views := e.views++[(⟨v,q,false⟩ : ViewDef σ ρ)]} : Engine σ ρ).persist := by
  have hclean : e.views.isClean v = false := by
    by_contra hc
    exact hv (mem_names_of_clean (by simpa using hc))
  have hdefs : Registry.defs (e.views++[(⟨v,q,false⟩ : ViewDef σ ρ)]) = e.views.defs++[(v,q)] := by
    simp [Registry.defs]
  rw [names_eq] at hv hsrc hhops
  have hnew := Good.register h.mem hunread hv hclean (fun hw => hself (mem_append_right _ hw)) hhops hothers
    (by rw [hs]; rfl)
  refine Inv.persist htx (hdefs.symm ▸ hnew.add (by simp) hclean (fun w hw hn => ?_) hs heval
    (Registry.isClean_append _ v q))
  rw [map_append,mem_append] at hn
  refine hsrc w hw (hn.resolve_right fun heq => hself ?_)
  obtain rfl : w = v := mem_singleton.mp heq
  exact hw

lemma createView_left (h : Left e) (hok : e.statementOk (.createView v q)) : Left (e.createView ops v q).2 := by
  obtain ⟨hhops,hothers⟩ := hok
  obtain ⟨hread,hdone⟩ := runQuery_spec ops h.toInv q
  have hleft := hread.left h.opened h.usable
  rw [createView]
  split
  · exact h
  rename_i hview
  rcases hres : e.runQuery ops q with ⟨_ | rows,e₁⟩
  · rw [hres] at hleft
    exact hleft
  rw [hres] at hread hdone hleft
  obtain ⟨heval,hclean⟩ := hdone rows rfl
  dsimp only
  split
  · exact hleft
  rename_i schema hschema
  split
  · exact hleft
  rename_i hfree
  simp only [Bool.or_eq_true,not_or,Bool.not_eq_true,isSome_eq_false_iff,isNone_iff_eq_none]
    at hfree
  obtain ⟨hname₁,hnot,hunread⟩ := hread.inv.unread_of_missing hfree.2
  have hset : ∀ s, Left (e₁.setTable v s) := fun s =>
    hleft.set (hread.inv.set_unread hnot hunread (fun hn => absurd hn hname₁))
  split
  · exact hset _
  rename_i hfull
  simp only [Bool.not_eq_true',Bool.not_eq_false] at hfull
  rw [ops.refill_ok _ _ hfull]
  have hself : v ∉ q.reads := by
    intro hr
    have := q.needs heval v hr
    simp [seen,seenOf,hfree.2] at this
  have hpaths : ∀ w ∈ q.hops, w ∉ e₁.views.names := by
    intro w hw hn
    have := hhops w hw
    rw [isView_iff.mpr (hread.names ▸ hn)] at this
    cases this
  have hsrc : ∀ w ∈ q.reads, w ∈ e₁.views.names → e₁.views.isClean w = true := by
    intro w hw hn
    rcases mem_append.mp hw with hw | hw
    · exact hclean w hw (hread.names ▸ hn)
    · exact absurd hn (hpaths w hw)
  let stored : Stored σ ρ := ⟨schema,rows,false,false⟩
  have hinv := (hset (some stored)).toInv.registerView hfree.1 hname₁ hunread hsrc hself hpaths
    (fun d hd => hothers d (hread.defs ▸ hd)) (setTable_self e₁ v (some stored))
    ((eval_setTable hself e₁ _).trans heval)
  exact ⟨hinv,hleft.opened,hleft.usable⟩

lemma dropView_left (h : Left e) (hok : e.statementOk (.dropView v)) : Left (e.dropView v).2 := by
  rw [dropView]
  cases hs : e.tables v with
  | none => exact h
  | some s =>
    dsimp only
    split
    · exact h
    rename_i hfree
    simp only [Bool.or_eq_true,not_or,Bool.not_eq_true] at hfree
    let reg : Registry σ ρ := e.views.filter (·.name ≠ v)
    have hdefs : reg.defs = e.views.defs.filter (·.1 ≠ v) := by
      simp only [reg,Registry.defs,List.filter_map]
      rfl
    have hclean : ∀ w, reg.isClean w = true ↔ e.views.isClean w = true ∧ w ≠ v := by
      intro w
      simp only [reg,Registry.isClean,List.any_eq_true,List.mem_filter,Bool.and_eq_true,decide_eq_true_eq]
      constructor
      · rintro ⟨d,⟨hd,hne⟩,rfl,hc⟩
        exact ⟨⟨d,hd,rfl,hc⟩,hne⟩
      · rintro ⟨⟨d,hd,rfl,hc⟩,hne⟩
        exact ⟨d,⟨hd,hne⟩,rfl,hc⟩
    exact ⟨.persist hfree.1.2 (hdefs.symm ▸ Good.unregister h.mem hok hclean),h.opened,h.usable⟩

lemma setTable_markDependentsDirty (e : Engine σ ρ) (t : String) (s : Option (Stored σ ρ)) :
    (e.setTable t s).markDependentsDirty t = (e.markDependentsDirty t).setTable t s := by
  have hviews : (e.setTable t s).views = e.views := rfl
  simp only [Engine.markDependentsDirty,hviews]
  cases e.views.markDependentsDirty t <;> rfl

lemma dropTable_left (h : Left e) : Left (e.dropTable t).2 := by
  rw [dropTable]
  cases hs : e.tables t with
  | none => exact h
  | some s =>
    dsimp only
    split
    · exact h
    rename_i hfree
    simp only [Bool.or_eq_true,not_or,Bool.not_eq_true] at hfree
    have hname : t ∉ e.views.names := by
      intro hn
      rw [isView_iff.mpr hn] at hfree
      cases hfree.1.1
    have hmark := h.markDependents (t := t) (.inl (committed_idle hfree.1.2))
    obtain ⟨-,hdefs,hle,hunread⟩ := h.toInv.markDependents (t := t) (.inl (committed_idle hfree.1.2))
    rw [setTable_markDependentsDirty]
    refine hmark.set (hmark.toInv.set_unread ?_ (fun d hd hc => hunread d (hdefs ▸ hd) hc) (fun hn => ?_))
    · by_contra hc
      exact hname (mem_names_of_clean (hle t (by simpa using hc)))
    · exact absurd (names_of_defs hdefs ▸ hn) hname

lemma alter_left (h : Left e) (hok : e.alterOk t f) :
    Left (e.alter t f).2 := by
  rw [alter]
  split
  · exact h
  rename_i htx
  cases hs : e.tables t with
  | none => exact h
  | some s =>
    cases hf : f s with
    | none => simpa [hf] using h
    | some s' =>
      simp only [bind_some,hf]
      have hkeep := hok s hs s' hf
      have hfresh : ∀ d ∈ e.views.defs, e.views.isClean d.1 = true → ∃ x,
          (e.setTable t (some s')).tables d.1 = some x ∧
            d.2.eval (e.setTable t (some s')).seen = some x.rows := by
        intro d hd hc
        obtain ⟨x,hx,heval⟩ := h.mem.fresh d hd hc
        obtain ⟨hrows,hsame⟩ := hkeep d hd hc
        by_cases hdt : d.1 = t
        · refine ⟨s',by rw [hdt,setTable_self],?_⟩
          rw [hdt,hs] at hx
          cases hx
          rw [hsame,hrows hdt]
          exact heval
        · exact ⟨x,by simpa [setTable,hdt] using hx,hsame.trans heval⟩
      have hmem : Good (e.setTable t (some s')).tables e.views.defs e.views.isClean := by
        refine {h.mem with backed := fun w hw => ?_, fresh := hfresh}
        by_cases hwt : w = t
        · rw [hwt,setTable_self]
          rfl
        · simpa [setTable,hwt] using h.mem.backed w hw
      have hcommitted : (e.setTable t (some s')).committed = (e.setTable t (some s')).tables := if_neg htx
      exact h.set ⟨h.defs,h.sub,hmem,hcommitted.symm ▸ hmem.part h.file h.sub⟩

/-- Every statement keeps the invariant on its way. -/
lemma dispatch_left (ops : ViewStorage σ ρ) (h : Left e) (himp : e.implicitTransaction = false)
    (hok : e.statementOk s) : Left (e.dispatch ops s).2 := by
  cases s with
  | read q => exact (runQuery_spec ops h.toInv q).1.left h.opened h.usable
  | mutate t q apply => exact mutate_left h hok
  | createTable t schema =>
    simp only [dispatch]
    split
    · exact h
    rename_i hfree
    simp only [Bool.or_eq_true,not_or,Bool.not_eq_true,isSome_eq_false_iff,
      isNone_iff_eq_none] at hfree
    obtain ⟨hname,hclean,hunread⟩ := h.toInv.unread_of_missing hfree.2
    exact h.set (h.toInv.set_unread hclean hunread (fun _ => rfl))
  | dropTable t => exact dropTable_left h
  | alter t f => exact alter_left h hok
  | createView v q => exact createView_left h hok
  | refresh v =>
    exact (refreshView_spec (A := fun _ => True) ops (e.views.length+1) e v h.toInv (anyView_closed _)
      (fun _ => trivial)).1.left h.opened h.usable
  | dropView v => exact dropView_left h hok
  | begin =>
    simp only [dispatch]
    split
    · exact h
    · rename_i htx
      exact ⟨h.toInv.begin (by simpa using htx) e.implicitTransaction,fun _ => rfl,h.usable⟩
  | commit =>
    simp only [dispatch]
    split
    · exact h
    · exact ⟨h.toInv.commit,fun hi => absurd (himp.symm.trans hi) (by simp),h.usable⟩
  | rollback =>
    simp only [dispatch]
    split
    · exact h
    · rename_i htx
      obtain ⟨hres,hinv⟩ := h.toInv.rollback (by simpa using htx)
      rw [unit,hres]
      exact ⟨hinv,fun hi => absurd (himp.symm.trans hi) (by simp),h.usable⟩

end statements

/-- The invariant between two steps of an engine that can be used. -/
structure Ready (e : Engine σ ρ) : Prop extends Inv e where
  explicit : e.implicitTransaction = false
  usable : e.poisoned = false

variable {ops : ViewStorage σ ρ} {e : Engine σ ρ}

lemma Ready.left (h : Ready e) : Left e :=
  ⟨h.toInv,fun hi => absurd (h.explicit.symm.trans hi) (by simp),h.usable⟩

lemma runStatement_ready (h : Ready e) (hok : e.statementOk s) :
    Ready (e.runStatement ops s).2 := by
  rw [runStatement,if_neg (by simp [h.usable])]
  split
  · exact h
  have hleft := dispatch_left ops h.left h.explicit hok
  rcases hres : e.dispatch ops s with ⟨result,e₁⟩
  rw [hres] at hleft
  dsimp only
  split
  · rename_i himp
    have hinv : Inv {e₁ with implicitTransaction := false} :=
      hleft.toInv.flags false e₁.transactionAborted e₁.poisoned
    cases result with
    | some rows => exact ⟨hinv.commit,rfl,hleft.usable⟩
    | none =>
      obtain ⟨hroll,hrestored⟩ := hinv.rollback (hleft.opened himp)
      rw [hroll]
      exact ⟨hrestored,rfl,hleft.usable⟩
  · rename_i himp
    have himp : e₁.implicitTransaction = false := by simpa using himp
    cases result with
    | some rows => exact ⟨hleft.toInv,himp,hleft.usable⟩
    | none => exact ⟨hleft.toInv.flags _ _ _,himp,hleft.usable⟩

lemma step_ready (h : Ready e) (hok : e.stepOk s) : Ready (e.step ops s) := by
  cases s with
  | statement s => exact runStatement_ready h hok
  | reopen => exact ⟨h.toInv.reopen.1,rfl,h.toInv.reopen.2⟩

lemma run_ready (ss : List (Step σ ρ)) (h : Ready e) (hok : e.runOk ops ss) : Ready (e.run ops ss) := by
  induction ss generalizing e with
  | nil => exact h
  | cons s ss ih => exact ih (step_ready h hok.1) hok.2

lemma fresh_ready : Ready (fresh : Engine σ ρ) := by
  have hgood : Good (fun _ => none) ([] : List (String × SourceQuery σ ρ)) (fun _ => false) :=
    ⟨nodup_nil,by simp,by simp,by simp,⟨fun _ => 0,by simp⟩,by simp⟩
  exact ⟨⟨rfl,fun _ h => h,hgood,hgood⟩,rfl,rfl⟩

/-- A read that succeeds gives what its query gives when every view stands for the rows
its own source gives on the current tables. -/
lemma read_current {q : SourceQuery σ ρ} (h : Ready e)
    (hok : e.statementOk (.read q)) (hread : e.runStatement ops (.read q) = (some rows,e')) :
    (∀ t, e'.views.isView t = false → e'.tables t = e.tables t) ∧
      ∃ rowsOf : String → Multiset ρ, q.eval (e'.withViewRows rowsOf) = some rows ∧
        ∀ v ∈ q.reads, e'.views.isView v = true → ∀ r, Current e' v r ↔ r = rowsOf v := by
  obtain ⟨href,hdone⟩ := runQuery_spec ops h.toInv q
  rw [runStatement,if_neg (by simp [h.usable])] at hread
  split at hread
  · cases hread
  simp only [dispatch,href.implicitTransaction,h.explicit] at hread
  rcases hres : e.runQuery ops q with ⟨result,e₁⟩
  rw [hres] at hread href hdone
  cases result with
  | none => simp at hread
  | some rows' =>
    simp only [Bool.false_eq_true,if_false,Prod.mk.injEq,some.injEq] at hread
    obtain ⟨rfl,rfl⟩ := hread
    obtain ⟨heval,hclean⟩ := hdone _ rfl
    have hall : ∀ v ∈ q.reads, e₁.views.isView v = true → e₁.views.isClean v = true := by
      intro v hv hview
      have hname := isView_iff.mp hview
      rcases mem_append.mp hv with hv | hv
      · exact hclean v hv (href.names ▸ hname)
      · exact href.clean v (clean_of_not_dirty (href.names ▸ hname) (hok v hv))
    refine ⟨fun t ht => href.base t (fun hn => ?_),fun t => ((e₁.tables t).map Stored.rows).getD 0,?_,
      fun v hv hview r => ?_⟩
    · rw [isView_iff.mpr (href.names.symm ▸ hn)] at ht
      cases ht
    · rw [← heval]
      exact q.eval_congr (fun t _ => withViewRows_stored (fun s hs => by simp [hs]))
    · obtain ⟨s,hs,hcur⟩ := href.inv.current (hall v hv hview)
      have hrows : ((e₁.tables v).map Stored.rows).getD 0 = s.rows := by
        rw [show e₁.tables v = some s from hs]
        rfl
      dsimp only
      rw [hrows]
      exact ⟨fun hr => hr.unique href.inv.mem.nodup hcur,fun hr => hr ▸ hcur⟩

/-- The query that reads a whole table. -/
def wholeTable (t : String) : SourceQuery σ ρ where
  scans := [t]
  nested := []
  hops := []
  eval env := (env t).map snd
  eval_congr h := by rw [h t (by simp)]
  needs h := by
    obtain ⟨x,hx,-⟩ := Option.map_eq_some_iff.mp h
    simp [hx]

/-- Storage that takes every row. -/
def anyRows : ViewStorage Unit ℕ where
  derive _ := some ()
  fits _ _ := true
  fits_zero _ := rfl
  refill _ rows := (rows,true)
  refill_ok _ _ _ := rfl
  refill_same _ := rfl

def sourceless : SourceQuery Unit ℕ := ⟨[],[],[],fun _ => some 0,fun _ => rfl,by simp⟩

/-- Give a table new rows, reading nothing else. -/
def setRows (t : String) (rows : Multiset ℕ) : Step Unit ℕ :=
  .statement (.mutate t sourceless (fun _ => (rows,true)))

/-- Two tables, a view over each, and a view over a view; a transaction that refreshes
and commits, one that is rolled back, a reopening. -/
def viewsRun : List (Step Unit ℕ) :=
  [.statement (.createTable "T" ()),.statement (.createTable "S" ()),setRows "T" {1},
   .statement (.createView "V" (wholeTable "T")),.statement (.createView "W" (wholeTable "S")),
   .statement (.createView "X" (wholeTable "V")),setRows "T" {1,2},.statement .begin,
   .statement (.read (wholeTable "X")),.statement .commit,setRows "S" {7},.statement .begin,
   setRows "T" {3},.statement .rollback,.reopen]

/-- A transaction refreshes one view in memory, then dirties another; that writes the
first one's flag to the file, and the rollback reads it back. -/
def refreshedThenRolledBack : List (Step Unit ℕ) :=
  [.statement (.createTable "T" ()),.statement (.createTable "S" ()),setRows "T" {1},
   .statement (.createView "V" (wholeTable "T")),.statement (.createView "W" (wholeTable "S")),
   setRows "T" {1,2},.statement .begin,.statement (.read (wholeTable "V")),setRows "S" {7},
   .statement .rollback]

/-- A schema change that empties the column a view was built from. -/
def altered : List (Step Unit ℕ) :=
  [.statement (.createTable "T" ()),setRows "T" {1},.statement (.createView "V" (wholeTable "T")),
   .statement (.alter "T" (fun s => some {s with rows := {0}}))]

end Engine
end PowDB.Views
