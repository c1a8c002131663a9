import PowDB.Query.Transactions

/-! Runs of statements with file system failures anywhere in them. A failed statement
inside a transaction leaves only ROLLBACK, a successful COMMIT shows what the statements
since BEGIN did, and a failed statement outside one changes nothing or poisons the engine. -/
namespace PowDB.Transactions
open List Option Catalog Bool
open Lib (LogEntry applyAll Backed)
variable {τ op : Type} {S : Storage τ op}
  {c : Catalog τ op}

namespace Catalog
variable {c : Catalog τ op} {t₀ : τ}

/-- With the log on, it accounts for the live tables. -/
def Logged (S : Storage τ op) (c : Catalog τ op) (awaited : List ℕ) : Prop :=
  c.walOff = false → Backed S.apply c.files c.flushed c.log c.live awaited

/-- No transaction is open. Rows are committed or about to be. -/
structure Autocommit (S : Storage τ op) (c : Catalog τ op) : Prop where
  active : c.activeTx = none
  logged : c.Logged S c.pendingAutocommit

/-- Between statements nothing is pending. -/
structure Idle (S : Storage τ op) (c : Catalog τ op) : Prop extends Autocommit S c where
  pending : c.pendingAutocommit = []

/-- A transaction is open over the tables `t₀`: the log up to its start gives them, and
what follows is its own rows. -/
structure Open (S : Storage τ op) (c : Catalog τ op) (t₀ : τ) : Prop where
  pending : c.pendingAutocommit = []
  active : ∃ id, c.activeTx = some id ∧ c.Logged S [id]
  start : c.walOff = false → c.txStartLen ≤ c.log.length ∧
    Backed S.apply c.files c.flushed (c.log.take c.txStartLen) t₀ []
  saved : c.walOff = true → c.memento = some t₀

lemma append_eq (c : Catalog τ op) (e : LogEntry op) :
    c.append e = {c with log := if c.walOff then c.log else c.log++[e]} := by
  unfold append; split <;> rfl

lemma Logged.push (h : c.Logged S awaited)
    (he : applyAll S.apply c.live e.operation.toList = some t)
    (hkept : ∀ tx ∈ awaited, e.committed = some tx ∨ tx ∈ awaited') (hnew : ∀ tx o, e = .row tx o → tx ∈ awaited') :
    Logged S {c with live := t, log := if c.walOff then c.log else c.log++[e]} awaited' := by
  intro hon
  simp only [show c.walOff = false from hon]
  exact (h hon).push he hkept hnew

lemma flush_idle (h : Idle S c) : Idle S c.flushCheckpointState :=
  ⟨⟨h.active,fun hon => ⟨Nat.le_refl _,by simp [flushCheckpointState],(h.logged hon).rows⟩⟩,h.pending⟩

lemma beginTransaction_open (h : Idle S c) : Open S c.beginTransaction c.live ∧
    c.beginTransaction.live = c.live := by
  have hlog : c.Logged S [] := h.pending ▸ h.logged
  rw [beginTransaction,append_eq]
  refine ⟨⟨rfl,⟨c.nextTxId,rfl,hlog.push (e := .begin c.nextTxId) rfl nofun nofun⟩,fun hon => ?_,fun hoff => if_pos hoff⟩,rfl⟩
  simpa [show c.walOff = false from hon] using hlog hon

lemma beginStatementTransaction_open (h : Idle S c) (pressure : Bool) :
    Open S (c.beginStatementTransaction pressure) c.live ∧
      (c.beginStatementTransaction pressure).live = c.live := by
  cases pressure with
  | true => exact beginTransaction_open (flush_idle h)
  | false => exact beginTransaction_open h

/-- An operation inside a transaction goes on its part of the log. -/
lemma applyOp_open (h : Open S c t₀) (ho : c.applyOp S o = some c') :
    Open S c' t₀ ∧ S.apply c.live o = some c'.live := by
  obtain ⟨id,hid,hlog⟩ := h.active
  simp only [applyOp,hid,isSome_some,Bool.and_true] at ho
  split at ho
  · cases ho
  cases hres : S.apply c.live o with
  | none => simp [hres] at ho
  | some t =>
    simp only [hres,some.injEq] at ho
    subst ho
    simp only [logRow]
    rw [append_eq]
    refine ⟨⟨h.pending,⟨id,rfl,hlog.push (e := .row id o) (by simp [LogEntry.operation,hres]) (fun _ => .inr) ?_⟩,
      fun hon => ?_,h.saved⟩,rfl⟩
    · rintro _ _ ⟨⟩
      exact mem_cons_self
    · obtain ⟨hle,hback⟩ := h.start hon
      simp only [show c.walOff = false from hon,Bool.false_eq_true,if_false,take_append_of_le_length hle]
      exact ⟨by rw [length_append]; exact Nat.le_add_right_of_le hle,hback⟩

/-- An operation outside a transaction goes on the log, and its row waits for a commit marker. -/
lemma applyOp_autocommit (h : Autocommit S c) (ho : c.applyOp S o = some c') :
    Autocommit S c' ∧ S.apply c.live o = some c'.live := by
  simp only [applyOp,h.active,isSome_none,Bool.and_false,Bool.false_eq_true,if_false] at ho
  cases hres : S.apply c.live o with
  | none => simp [hres] at ho
  | some t =>
    simp only [hres,some.injEq,logRow] at ho
    subst ho
    split <;> rw [append_eq]
    · exact ⟨⟨rfl,h.logged.push (e := .schema o) (by simp [LogEntry.operation,hres]) (fun _ => .inr) nofun⟩,rfl⟩
    · refine ⟨⟨rfl,h.logged.push (e := .row c.nextTxId o) (by simp [LogEntry.operation,hres])
        (fun _ hp => .inr (mem_append_left _ hp)) ?_⟩,rfl⟩
      rintro _ _ ⟨⟩
      exact mem_append_right _ mem_cons_self

/-- What one operation keeps, all of them keep. -/
lemma applyOps_keeps {P : Catalog τ op → Prop}
    (hone : ∀ {c c' o}, P c → c.applyOp S o = some c' → P c' ∧ S.apply c.live o = some c'.live) (body : List op)
    (h : P c) : P (c.applyOps S body).2 ∧ ((c.applyOps S body).1 = true →
      applyAll S.apply c.live body = some (c.applyOps S body).2.live) := by
  induction body generalizing c with
  | nil => exact ⟨h,fun _ => rfl⟩
  | cons o os ih =>
    rw [applyOps]
    cases ho : c.applyOp S o with
    | none => exact ⟨h,by simp⟩
    | some c₁ =>
      obtain ⟨h₁,hlive⟩ := hone h ho
      obtain ⟨hrest,hdone⟩ := ih h₁
      refine ⟨hrest,fun hok => ?_⟩
      rw [Lib.applyAll_cons,hlive]
      exact hdone hok

lemma commitTransaction_idle (h : Open S c t₀) : Idle S c.commitTransaction ∧
    c.commitTransaction.live = c.live := by
  obtain ⟨id,hid,hlog⟩ := h.active
  simp only [commitTransaction,hid]
  rw [append_eq]
  refine ⟨⟨⟨rfl,hlog.push (e := .commit id) rfl (fun tx htx => .inl ?_) nofun⟩,h.pending⟩,rfl⟩
  rw [mem_singleton.mp htx]
  rfl

/-- Cutting the log back and replaying it gives the tables of the start. -/
lemma rollbackToLastSync_idle (h : Open S c t₀) :
    ∃ c', c.rollbackToLastSync S = some c' ∧ Idle S c' ∧ c'.live = t₀ := by
  rw [rollbackToLastSync]
  cases hoff : c.walOff with
  | true =>
    refine ⟨_,rfl,⟨⟨rfl,fun hon => Bool.noConfusion hon⟩,rfl⟩,?_⟩
    rw [h.saved hoff]
    rfl
  | false =>
    simp only [(h.start hoff).2.replayed]
    exact ⟨_,rfl,⟨⟨rfl,fun _ => ⟨Nat.le_refl _,rfl,nofun⟩⟩,rfl⟩,rfl⟩

/-- Commit markers for all that is awaited. -/
lemma appendCommits_spec (h : c.Logged S txs) :
    ∃ log, c.appendCommits txs = {c with log := log} ∧ Logged S {c with log := log} [] := by
  induction txs generalizing c with
  | nil => exact ⟨c.log,rfl,h⟩
  | cons tx txs ih =>
    rw [appendCommits,append_eq]
    refine ih (h.push (e := .commit tx) rfl (fun tx' htx => ?_) nofun)
    exact (mem_cons.mp htx).imp_left fun heq => congrArg some heq.symm

lemma commitAutocommit_idle (h : Autocommit S c) (large : Bool) : Idle S (c.commitAutocommit large) ∧
    (c.commitAutocommit large).live = c.live := by
  obtain ⟨log,heq,hlog⟩ := appendCommits_spec h.logged
  rw [commitAutocommit,heq]
  cases large with
  | true => exact ⟨⟨⟨h.active,fun _ => ⟨Nat.le_refl _,rfl,nofun⟩⟩,rfl⟩,rfl⟩
  | false => exact ⟨⟨⟨h.active,hlog⟩,rfl⟩,rfl⟩

end Catalog

/-- What a statement does to the tables. -/
def Statement.body : Statement op → List op
  | .mutation body _ => body
  | .plain body _ => body
  | _ => []

/-- A statement inside a transaction, as opposed to one that ends it. -/
def Statement.isInner : Statement op → Bool
  | .commit => false
  | .rollback => false
  | _ => true

lemma Statement.not_rollback {s : Statement op} (h : s.isInner = true) : s.isRollback = false := by
  cases s with
  | rollback => cases h
  | _ => rfl

namespace Engine
variable {e : Engine τ op} {t₀ : τ} {f : Faults}

/-- An explicit transaction over the tables `t₀`. -/
structure Within (S : Storage τ op) (t₀ : τ) (e : Engine τ op) : Prop where
  explicit : e.implicitTransaction = false
  inTransaction : e.inTransaction = true
  opened : e.catalog.Open S t₀

/-- No transaction is open; `P` holds of the catalog. -/
structure Outside (P : Catalog τ op → Prop) (e : Engine τ op) : Prop where
  explicit : e.implicitTransaction = false
  closed : e.inTransaction = false
  clean : e.transactionAborted = false
  catalog : P e.catalog

/-- Between statements: no transaction and nothing pending, or an explicit one over the
tables of its BEGIN. -/
def Ready (S : Storage τ op) (e : Engine τ op) : Prop := Outside (Catalog.Idle S) e ∨ ∃ t₀, Within S t₀ e

lemma Ready.outside (h : Ready S e) (hout : e.inTransaction = false) : Outside (Catalog.Idle S) e := by
  refine h.resolve_right ?_
  rintro ⟨t₀,hin⟩
  cases hin.inTransaction.symm.trans hout

lemma Ready.within (h : Ready S e) (hin : e.inTransaction = true) : ∃ t₀, Within S t₀ e :=
  h.resolve_left fun hout => nomatch hout.closed.symm.trans hin

lemma markTransactionAborted_aborted (h : e.transactionAborted = true) : e.markTransactionAborted = e := by
  rw [markTransactionAborted,h,Bool.true_or,← h]

lemma markTransactionAborted_idle (h : e.inTransaction = false) : e.markTransactionAborted = e := by
  rw [markTransactionAborted,h,Bool.false_and,Bool.or_false,← h]

/-- A poisoned engine answers nothing. -/
lemma runStatement_poisoned (h : e.poisoned = true) : e.runStatement S f s = (false,e) := by
  rw [runStatement,if_pos h]

/-- An aborted transaction answers nothing but ROLLBACK. -/
lemma runStatement_aborted (h : e.transactionAborted = true) (hs : s.isRollback = false) :
    e.runStatement S f s = (false,e) := by
  rw [runStatement]
  split
  · rfl
  · rw [if_pos (by rw [h,hs]; rfl),markTransactionAborted_aborted h]

/-- What is left of a statement once the executor is done with it. -/
def settle (S : Storage τ op) (f : Faults) : Bool × Engine τ op → Bool × Engine τ op
  | (ok,e) =>
    if e.implicitTransaction then
      let e := {e with implicitTransaction := false}
      if ok then
        match e.commitCatalog f with
        | (false,e) => (false,e)
        | (true,e) => e.commitStatement f
      else
        match e.rollbackTransaction S f with
        | (false,e) => (false,e.poisonLiveState)
        | (true,e) => (false,e)
    else if ok then e.commitStatement f
    else (false,e.markTransactionAborted)

lemma runStatement_settle (hp : e.poisoned = false) (ha : e.transactionAborted = false ∨ s.isRollback = true) :
    e.runStatement S f s = settle S f (e.dispatch S f s) := by
  have hgate : ¬(e.transactionAborted && !s.isRollback) = true := by
    rcases ha with ha | ha <;> rw [ha] <;> simp
  rw [runStatement,if_neg (by rw [hp]; simp),if_neg hgate]
  rfl

lemma settle_ok (h : e.implicitTransaction = false) : settle S f (true,e) = e.commitStatement f := by
  rw [settle,if_neg (by rw [h]; simp),if_pos rfl]

lemma settle_failed (h : e.implicitTransaction = false) :
    settle S f (false,e) = (false,e.markTransactionAborted) := by
  rw [settle,if_neg (by rw [h]; simp),if_neg (by simp)]

/-- A statement is over with the engine poisoned, or with it ready and, where the statement
failed, the tables as they were. -/
def Keeps (S : Storage τ op) (t : τ) (r : Bool × Engine τ op) : Prop :=
  r.2.poisoned = true ∨ Ready S r.2 ∧ (r.1 = false → r.2.catalog.live = t)

/-- A step that either succeeds outside a transaction, over the tables `t`, or poisons
the engine. -/
def Closes (S : Storage τ op) (t : τ) (r : Bool × Engine τ op) : Prop :=
  r.1 = true ∧ Outside (Catalog.Idle S) r.2 ∧ r.2.catalog.live = t ∨
    r.1 = false ∧ r.2.poisoned = true ∧ r.2.implicitTransaction = false

lemma Closes.keeps (h : Closes S t r) : Keeps S u r := by
  rcases h with ⟨hok,hout,-⟩ | ⟨-,hpoison,-⟩
  · exact .inr ⟨.inl hout,fun hfail => absurd (hok.symm.trans hfail) (by simp)⟩
  · exact .inl hpoison

lemma commitStatement_closes (h : Outside (Catalog.Autocommit S) e) :
    Closes S e.catalog.live (e.commitStatement f) := by
  rw [commitStatement,if_neg (by rw [h.closed]; simp)]
  split
  · exact .inr ⟨rfl,rfl,h.explicit⟩
  · obtain ⟨hidle,hlive⟩ := commitAutocommit_idle h.catalog f.largeLog
    exact .inl ⟨rfl,⟨h.explicit,h.closed,h.clean,hidle⟩,hlive⟩

lemma Outside.autocommit (h : Outside (Catalog.Idle S) e) : Outside (Catalog.Autocommit S) e :=
  ⟨h.explicit,h.closed,h.clean,h.catalog.toAutocommit⟩

/-- The end of a statement that closed a transaction itself. -/
lemma Closes.settle (h : Closes S t r) : Closes S t (settle S f r) := by
  obtain ⟨ok,e⟩ := r
  rcases h with ⟨rfl,hout,rfl⟩ | ⟨rfl,hpoison,hexp⟩
  · rw [settle_ok hout.explicit]
    exact commitStatement_closes hout.autocommit
  · rw [settle_failed hexp]
    exact .inr ⟨rfl,hpoison,hexp⟩

lemma commitCatalog_closes (h : Within S t₀ e) (ha : e.transactionAborted = false) :
    Closes S e.catalog.live (e.commitCatalog f) := by
  rw [commitCatalog]
  split
  · exact .inr ⟨rfl,rfl,h.explicit⟩
  · obtain ⟨hidle,hlive⟩ := commitTransaction_idle h.opened
    exact .inl ⟨rfl,⟨h.explicit,rfl,ha,hidle⟩,hlive⟩

/-- ROLLBACK gives the tables of BEGIN, or is refused with the transaction as it was,
or poisons the engine. -/
lemma rollbackTransaction_closes (h : Within S t₀ e) :
    Closes S t₀ (e.rollbackTransaction S f) ∨ e.rollbackTransaction S f = (false,e.markTransactionAborted) := by
  obtain ⟨c,hc,hidle,hlive⟩ := rollbackToLastSync_idle h.opened
  rw [rollbackTransaction]
  cases f.rollingBack with
  | some doubt =>
    cases doubt with
    | true => exact .inl (.inr ⟨rfl,rfl,h.explicit⟩)
    | false => exact .inr rfl
  | none =>
    simp only [hc]
    split
    · exact .inl (.inr ⟨rfl,rfl,h.explicit⟩)
    · exact .inl (.inl ⟨rfl,⟨h.explicit,rfl,rfl,hidle⟩,hlive⟩)

/-- The end of a statement that ran in a transaction of its own. -/
lemma settle_implicit (h : e.implicitTransaction = true) (hin : e.inTransaction = true)
    (ha : e.transactionAborted = false) (hopen : e.catalog.Open S t₀) : Keeps S t₀ (settle S f (ok,e)) := by
  have hwithin : Within S t₀ {e with implicitTransaction := false} := ⟨rfl,hin,hopen⟩
  rw [settle,if_pos h]
  cases ok with
  | true =>
    have hcommit := commitCatalog_closes (f := f) hwithin ha
    rw [if_pos rfl]
    rcases hres : commitCatalog f {e with implicitTransaction := false} with ⟨ok,e₁⟩
    rw [hres] at hcommit
    rcases hcommit with ⟨rfl,hout,-⟩ | ⟨rfl,hpoison,-⟩
    · exact (commitStatement_closes hout.autocommit).keeps
    · exact .inl hpoison
  | false =>
    have hroll := rollbackTransaction_closes (f := f) hwithin
    rw [if_neg (by simp)]
    rcases hres : rollbackTransaction S f {e with implicitTransaction := false} with ⟨ok,e₁⟩
    rw [hres] at hroll
    rcases hroll with (⟨rfl,hout,hlive⟩ | ⟨rfl,-⟩) | hrefused
    · exact .inr ⟨.inl hout,fun _ => hlive⟩
    · exact .inl rfl
    · cases hrefused
      exact .inl rfl

lemma markTransactionAborted_within (h : Within S t₀ e) : Within S t₀ e.markTransactionAborted ∧
    e.markTransactionAborted.transactionAborted = true :=
  ⟨⟨h.explicit,h.inTransaction,h.opened⟩,by simp [markTransactionAborted,h.explicit,h.inTransaction]⟩

lemma dispatch_inner (h : Within S t₀ e) (hs : s.isInner = true) :
    ∃ c, (e.dispatch S f s).2 = {e with catalog := c} ∧ c.Open S t₀ ∧
      ((e.dispatch S f s).1 = true → applyAll S.apply e.catalog.live s.body = some c.live) := by
  have hbody : ∀ body raises, ∃ c, (e.applyBody S body raises).2 = {e with catalog := c} ∧ c.Open S t₀ ∧
      ((e.applyBody S body raises).1 = true → applyAll S.apply e.catalog.live body = some c.live) := by
    intro body raises
    obtain ⟨hopen,hlive⟩ := applyOps_keeps (P := fun c => c.Open S t₀) applyOp_open body h.opened
    refine ⟨_,rfl,hopen,fun hok => hlive ?_⟩
    exact (and_eq_true _ _ ▸ hok : _ ∧ _).1
  cases s with
  | begin =>
    refine ⟨e.catalog,?_,h.opened,fun hok => ?_⟩
    · rw [dispatch,if_pos h.inTransaction]
    · rw [dispatch,if_pos h.inTransaction] at hok
      cases hok
  | commit | rollback => cases hs
  | mutation body raises =>
    rw [dispatch,beginMutationStatement,if_pos h.inTransaction]
    exact hbody body raises
  | plain body raises => exact hbody body raises

/-- A statement inside a transaction does what it says, or aborts the transaction. -/
lemma runStatement_inner (h : Within S t₀ e) (hp : e.poisoned = false) (ha : e.transactionAborted = false)
    (hs : s.isInner = true) : Within S t₀ (e.runStatement S f s).2 ∧
      (e.runStatement S f s).2.poisoned = false ∧
      ((e.runStatement S f s).1 = true → (e.runStatement S f s).2.transactionAborted = false ∧
        applyAll S.apply e.catalog.live s.body = some (e.runStatement S f s).2.catalog.live) ∧
      ((e.runStatement S f s).1 = false → (e.runStatement S f s).2.transactionAborted = true) := by
  rw [runStatement_settle hp (.inl ha)]
  obtain ⟨c,heq,hopen,hlive⟩ := dispatch_inner (f := f) h hs
  rcases hres : e.dispatch S f s with ⟨ok,e₁⟩
  simp only [hres] at heq hlive
  subst heq
  have hwithin : Within S t₀ {e with catalog := c} := ⟨h.explicit,h.inTransaction,hopen⟩
  cases ok with
  | true =>
    rw [settle_ok hwithin.explicit,commitStatement,if_pos hwithin.inTransaction]
    exact ⟨hwithin,hp,fun _ => ⟨ha,hlive rfl⟩,by simp⟩
  | false =>
    rw [settle_failed hwithin.explicit]
    obtain ⟨hin,habort⟩ := markTransactionAborted_within hwithin
    exact ⟨hin,hp,by simp,fun _ => habort⟩

lemma runStatement_commit (h : Within S t₀ e) (hp : e.poisoned = false) (ha : e.transactionAborted = false) :
    Closes S e.catalog.live (e.runStatement S f .commit) := by
  rw [runStatement_settle hp (.inl ha),dispatch,if_pos h.inTransaction]
  exact (commitCatalog_closes h ha).settle

lemma runStatement_rollback (h : Within S t₀ e) (hp : e.poisoned = false) :
    Closes S t₀ (e.runStatement S f .rollback) ∨ e.runStatement S f .rollback = (false,e.markTransactionAborted) := by
  rw [runStatement_settle hp (.inr rfl),dispatch,if_pos h.inTransaction]
  refine (rollbackTransaction_closes (f := f) h).imp Closes.settle fun hrefused => ?_
  obtain ⟨hin,habort⟩ := markTransactionAborted_within h
  rw [hrefused,settle_failed hin.explicit,markTransactionAborted_aborted habort]

/-- ROLLBACK on a working file system gives the tables of BEGIN. -/
lemma runStatement_rollback_ok (h : Within S t₀ e) (hp : e.poisoned = false) (hroll : f.rollingBack = none)
    (hviews : f.restoringViews = false) (hdone : f.completing = false) :
    (e.runStatement S f .rollback).1 = true ∧ (e.runStatement S f .rollback).2.catalog.live = t₀ := by
  obtain ⟨c,hc,hidle,hlive⟩ := rollbackToLastSync_idle h.opened
  rw [runStatement_settle hp (.inr rfl),dispatch,if_pos h.inTransaction]
  simp only [rollbackTransaction,hroll,hc,hviews,settle,h.explicit,commitStatement,hdone,
    false_eq_true,if_false,if_true]
  exact ⟨trivial,(commitAutocommit_idle hidle.toAutocommit f.largeLog).2.trans hlive⟩

/-- BEGIN opens a transaction over the tables as they are. -/
lemma runStatement_begin (h : Outside (Catalog.Idle S) e) (hp : e.poisoned = false) :
    (e.runStatement S f .begin).1 = true ∧ Within S e.catalog.live (e.runStatement S f .begin).2 ∧
        (e.runStatement S f .begin).2.poisoned = false ∧
        (e.runStatement S f .begin).2.transactionAborted = false ∧
        (e.runStatement S f .begin).2.catalog.live = e.catalog.live ∨
      (e.runStatement S f .begin).1 = false ∧ ((e.runStatement S f .begin).2.poisoned = true ∨
        (e.runStatement S f .begin).2 = e) := by
  rw [runStatement_settle hp (.inl h.clean),dispatch,if_neg (by rw [h.closed]; simp),openTransaction]
  cases f.beginning with
  | some doubt =>
    cases doubt with
    | true =>
      rw [settle_failed (e := e.poisonLiveState) h.explicit]
      exact .inr ⟨rfl,.inl rfl⟩
    | false =>
      rw [settle_failed h.explicit,markTransactionAborted_idle h.closed]
      exact .inr ⟨rfl,.inr rfl⟩
  | none =>
    obtain ⟨hopen,hlive⟩ := beginTransaction_open h.catalog
    exact .inl ⟨rfl,⟨rfl,rfl,hopen⟩,hp,h.clean,hlive⟩

lemma keeps_failed (h : Outside (Catalog.Idle S) e) : Keeps S e.catalog.live (settle S f (false,e)) := by
  rw [settle_failed h.explicit,markTransactionAborted_idle h.closed]
  exact .inr ⟨.inl h,fun _ => rfl⟩

lemma keeps_mutation (h : Outside (Catalog.Idle S) e) (body : List op) (raises : Bool) :
    Keeps S e.catalog.live (settle S f (e.dispatch S f (.mutation body raises))) := by
  rw [dispatch,beginMutationStatement,if_neg (by rw [h.closed]; simp),openTransaction]
  cases f.beginning with
  | some doubt =>
    cases doubt with
    | true => exact settle_failed (e := e.poisonLiveState) h.explicit ▸ .inl rfl
    | false => exact keeps_failed h
  | none =>
    have hopen := (beginStatementTransaction_open h.catalog f.pressure).1
    have hrest := (applyOps_keeps (P := fun c => c.Open S e.catalog.live) applyOp_open body hopen).1
    exact settle_implicit rfl rfl h.clean hrest

/-- A statement with no transaction of its own goes through whole, or fails before its
first effect. -/
def plainOk (S : Storage τ op) (t : τ) (body : List op) (raises : Bool) : Bool :=
  (!raises && (applyAll S.apply t body).isSome) || match body with
    | [] => true
    | o::_ => (S.apply t o).isNone

/-- The condition on a statement and the engine it is given to. -/
def stepOk (S : Storage τ op) (e : Engine τ op) : Statement op → Bool
  | .plain body raises => e.poisoned || e.inTransaction || plainOk S e.catalog.live body raises
  | _ => true

def runOk (S : Storage τ op) (e : Engine τ op) : List (Faults × Statement op) → Bool
  | [] => true
  | x::xs => stepOk S e x.2 && runOk S (e.runStatement S x.1 x.2).2 xs

end Engine

lemma Catalog.applyOp_idle (h : c.activeTx = none) :
    (c.applyOp S o).map Catalog.live = S.apply c.live o := by
  simp only [Catalog.applyOp,h,isSome_none,Bool.and_false,Bool.false_eq_true,if_false]
  cases S.apply c.live o with
  | none => rfl
  | some t =>
    simp only [map_some,logRow]
    split <;> rw [append_eq]

/-- Outside a transaction a statement is refused exactly where its operations are. -/
lemma Catalog.applyOps_ok (h : Autocommit S c) (body : List op) :
    (c.applyOps S body).1 = (applyAll S.apply c.live body).isSome := by
  induction body generalizing c with
  | nil => rfl
  | cons o os ih =>
    have hone := applyOp_idle (S := S) (o := o) h.active
    rw [applyOps,Lib.applyAll_cons,← hone]
    cases ho : c.applyOp S o with
    | none => rfl
    | some c₁ => exact ih (applyOp_autocommit h ho).1

lemma Catalog.applyOps_refused (h : c.activeTx = none) (os : List op)
    (ho : (S.apply c.live o).isNone = true) : c.applyOps S (o::os) = (false,c) := by
  have hone := applyOp_idle (S := S) (o := o) h
  rw [isNone_iff_eq_none.mp ho,map_eq_none_iff] at hone
  rw [applyOps,hone]

namespace Engine
variable {e : Engine τ op} {t₀ : τ} {f : Faults} {s : Statement op}

lemma keeps_plain (h : Outside (Catalog.Idle S) e)
    (hok : plainOk S e.catalog.live body raises = true) :
    Keeps S e.catalog.live (settle S f (e.dispatch S f (.plain body raises))) := by
  rw [dispatch,applyBody]
  unfold plainOk at hok
  rw [or_eq_true] at hok
  rcases hok with hwhole | hfirst
  · obtain ⟨hraises,hsome⟩ := and_eq_true_iff.mp hwhole
    have hauto := h.autocommit.catalog
    have hdone := (applyOps_keeps applyOp_autocommit body hauto).1
    have hout : Outside (Catalog.Autocommit S) {e with catalog := (e.catalog.applyOps S body).2} :=
      ⟨h.explicit,h.closed,h.clean,hdone⟩
    rw [hraises,applyOps_ok hauto,hsome,Bool.and_true,settle_ok hout.explicit]
    exact (commitStatement_closes hout).keeps
  · cases body with
    | nil =>
      cases raises with
      | true => exact keeps_failed h
      | false =>
        rw [Catalog.applyOps,Bool.not_false,Bool.and_true,settle_ok h.explicit]
        exact (commitStatement_closes h.autocommit).keeps
    | cons o os =>
      rw [applyOps_refused h.catalog.active os hfirst,Bool.false_and]
      exact keeps_failed h

lemma runStatement_outside (h : Outside (Catalog.Idle S) e) (hok : stepOk S e s = true) :
    Keeps S e.catalog.live (e.runStatement S f s) := by
  by_cases hp : e.poisoned = true
  · rw [runStatement_poisoned hp]
    exact .inl hp
  rw [not_eq_true] at hp
  cases s with
  | begin =>
    rcases runStatement_begin (f := f) h hp with ⟨hok,hin,-,-,-⟩ | ⟨-,hpoison | hsame⟩
    · exact .inr ⟨.inr ⟨_,hin⟩,fun hfail => absurd (hok.symm.trans hfail) (by simp)⟩
    · exact .inl hpoison
    · refine .inr ⟨?_,fun _ => ?_⟩ <;> rw [hsame]
      exact .inl h
  | commit | rollback =>
    rw [runStatement_settle hp (.inl h.clean),dispatch,if_neg (by rw [h.closed]; simp)]
    exact keeps_failed h
  | mutation body raises =>
    rw [runStatement_settle hp (.inl h.clean)]
    exact keeps_mutation h body raises
  | plain body raises =>
    rw [runStatement_settle hp (.inl h.clean)]
    rw [stepOk,hp,h.closed] at hok
    exact keeps_plain h hok

open Statement

/-- A statement that fails inside a transaction leaves it aborted. -/
lemma runStatement_within (h : Within S t₀ e) : (((e.runStatement S f s).2.poisoned = true ∨
      Ready S (e.runStatement S f s).2)) ∧ (s.isRollback = false → (e.runStatement S f s).1 = false →
        (e.runStatement S f s).2.poisoned = true ∨ (e.runStatement S f s).2.transactionAborted = true) := by
  by_cases hp : e.poisoned = true
  · rw [runStatement_poisoned hp]
    exact ⟨.inl hp,fun _ _ => .inl hp⟩
  rw [not_eq_true] at hp
  by_cases ha : e.transactionAborted = true ∧ s.isRollback = false
  · rw [runStatement_aborted ha.1 ha.2]
    exact ⟨.inr (.inr ⟨t₀,h⟩),fun _ _ => .inr ha.1⟩
  have hinner := fun ha => runStatement_inner (f := f) (s := s) h hp ha
  cases s with
  | rollback =>
    refine ⟨?_,nofun⟩
    rcases runStatement_rollback (f := f) h hp with hclose | hrefused
    · exact (hclose.keeps (u := t₀)).imp_right And.left
    · rw [hrefused]
      exact .inr (.inr ⟨t₀,(markTransactionAborted_within h).1⟩)
  | commit =>
    have hclose := runStatement_commit (f := f) h hp (by simpa [isRollback] using ha)
    refine ⟨(hclose.keeps (u := t₀)).imp_right And.left,fun _ hfail => .inl ?_⟩
    rcases hclose with ⟨hok,-⟩ | ⟨-,hpoison,-⟩
    · cases hok.symm.trans hfail
    · exact hpoison
  | _ =>
    obtain ⟨hin,-,-,habort⟩ := hinner (by simpa [isRollback] using ha) rfl
    exact ⟨.inr (.inr ⟨t₀,hin⟩),fun _ hfail => .inr (habort hfail)⟩

/-- Every engine reached is poisoned or ready. -/
lemma run_ready (ss : List (Faults × Statement op)) (h : e.poisoned = true ∨ Ready S e) (hok : runOk S e ss = true) :
    (e.run S ss).poisoned = true ∨ Ready S (e.run S ss) := by
  induction ss generalizing e with
  | nil => exact h
  | cons x xs ih =>
    obtain ⟨hstep,hrest⟩ := and_eq_true_iff.mp hok
    rcases h with hp | hout | ⟨t₀,hin⟩
    · have hstill : (e.runStatement S x.1 x.2).2.poisoned = true := by rw [runStatement_poisoned hp,hp]
      exact ih (.inl hstill) hrest
    · exact ih ((runStatement_outside hout hstep).imp_right And.left) hrest
    · exact ih (runStatement_within hin).1 hrest

lemma opened_ready (t : τ) (walOff : Bool) : Ready S (opened t walOff) :=
  .inl ⟨rfl,rfl,rfl,⟨⟨rfl,fun _ => ⟨Nat.le_refl _,rfl,nofun⟩⟩,rfl⟩⟩

/-- The answers to a list of statements, and the engine after them. -/
def runAll (S : Storage τ op) (e : Engine τ op) : List (Faults × Statement op) → List Bool × Engine τ op
  | [] => ([],e)
  | x::xs =>
    let r := e.runStatement S x.1 x.2
    let rest := r.2.runAll S xs
    (r.1::rest.1,rest.2)

/-- A list of statements that are all refused, with the engine as it was. -/
lemma runAll_refused (ss : List (Faults × Statement op)) (h : ∀ x ∈ ss, e.runStatement S x.1 x.2 = (false,e)) :
    e.runAll S ss = (ss.map fun _ => false,e) := by
  induction ss with
  | nil => rfl
  | cons x xs ih =>
    obtain ⟨hx,hxs⟩ := forall_mem_cons.mp h
    rw [runAll,hx]
    simp only [ih hxs,map_cons]

/-- The statements of a transaction all went through, or it is aborted. -/
lemma runAll_inner (block : List (Faults × Statement op)) (h : Within S t₀ e) (hp : e.poisoned = false)
    (hs : ∀ x ∈ block, x.2.isInner = true) : Within S t₀ (e.runAll S block).2 ∧
      (e.runAll S block).2.poisoned = false ∧ ((e.runAll S block).2.transactionAborted = false →
        (∀ ok ∈ (e.runAll S block).1, ok = true) ∧ applyAll S.apply e.catalog.live
          (block.flatMap fun x => x.2.body) = some (e.runAll S block).2.catalog.live) := by
  induction block generalizing e with
  | nil => exact ⟨h,hp,fun _ => ⟨by simp [runAll],rfl⟩⟩
  | cons x xs ih =>
    obtain ⟨hx,hxs⟩ := forall_mem_cons.mp hs
    by_cases ha : e.transactionAborted = true
    · have hall : e.runAll S (x::xs) = ((x::xs).map fun _ => false,e) := by
        exact runAll_refused _ fun y hy => runStatement_aborted ha (not_rollback (hs y hy))
      rw [hall]
      exact ⟨h,hp,fun hclean => absurd (ha.symm.trans hclean) (by simp)⟩
    · rw [not_eq_true] at ha
      obtain ⟨hin,hp₁,hgood,hbad⟩ := runStatement_inner (f := x.1) h hp ha hx
      obtain ⟨hrest,hp₂,hlive⟩ := ih hin hp₁ hxs
      refine ⟨hrest,hp₂,fun hclean => ?_⟩
      obtain ⟨hoks,hbody⟩ := hlive hclean
      cases hok : (e.runStatement S x.1 x.2).1 with
      | true =>
        refine ⟨forall_mem_cons.mpr ⟨hok,hoks⟩,?_⟩
        rw [flatMap_cons,Lib.applyAll_append,(hgood hok).2]
        exact hbody
      | false =>
        have hstuck : ((e.runStatement S x.1 x.2).2.runAll S xs).2.transactionAborted = true := by
          rw [runAll_refused _ fun y hy => runStatement_aborted (hbad hok) (not_rollback (hxs y hy))]
          exact hbad hok
        exact absurd (hstuck.symm.trans hclean) (by simp)

/-- Nothing but a ROLLBACK is accepted, and that only if the engine is not poisoned. -/
def Refuses (S : Storage τ op) (e : Engine τ op) : Prop :=
  ∀ ss : List (Faults × Statement op), (∀ x ∈ ss, x.2.isRollback = true → e.poisoned = true) →
    e.runAll S ss = (ss.map fun _ => false,e)

lemma refuses (h : e.poisoned = true ∨ e.transactionAborted = true) : Refuses S e := by
  intro ss hss
  apply runAll_refused
  intro x hx
  rcases h with hp | ha
  · exact runStatement_poisoned hp
  · cases hroll : x.2.isRollback with
    | true => exact runStatement_poisoned (hss x hx hroll)
    | false => exact runStatement_aborted ha hroll

/-- One view's rows under a unique index: emptying it, and inserting a key it does not hold. -/
def uniqueRows : Storage (List ℕ) (Option ℕ) where
  apply
    | _, none => some []
    | rows, some n => if n ∈ rows then none else some (rows++[n])
  isDdl _ := false

def noFaults : Faults := ⟨none,false,false,none,false,false,false⟩

end Engine
end PowDB.Transactions
