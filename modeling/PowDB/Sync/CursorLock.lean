import PowDB.Lib.Steps
import Mathlib

/-! The lock file in front of the cursor metadata. A thread creates it exclusively, writes its
owner record into it and removes it by name when done; a thread that finds the file reads it,
judges it and, when it looks stale, removes it by name. Threads of any number of processes
take these steps in any order. -/
namespace PowDB.Sync
open Lib Option Function
/-- The owner record of a lock file. -/
structure CursorLockFile where
  formatVersion : ℕ
  ownerPid : ℕ
  createdUnixSecs : ℕ
  deriving DecidableEq

def syncMetadataFormatVersion : ℕ := 1

/-- In seconds, as the clock of the model. -/
def cursorLockStaleAfter : ℕ := 30

/-- The file at the lock's path. The inode tells apart the files that stand there one after the
other; the content is `none` until the owner record is whole. -/
structure LockFile where
  inode : ℕ
  content : Option CursorLockFile
  modified : ℕ
  deriving DecidableEq

/-- A thread in `acquire_cursor_lock`, in the critical section or outside. -/
inductive Phase
  | idle
  /-- about to create the file exclusively -/
  | attempting
  /-- the file is made, the owner record not yet written -/
  | created (inode : ℕ)
  | written (inode : ℕ)
  | inside (inode : ℕ)
  /-- writing failed: about to remove the file by name -/
  | failing (inode : ℕ)
  /-- the file was there: about to read it -/
  | checking
  /-- read, with the owner record if it parsed -/
  | judging (content : Option CursorLockFile)
  /-- judged stale: about to remove the file by name -/
  | removing
  | waiting
  deriving DecidableEq

/-- The file a thread has made and not yet removed. -/
def Phase.owned : Phase → Option ℕ
  | .created n | .written n | .inside n | .failing n => some n
  | _ => none

structure LockState (τ : Type) where
  file : Option LockFile
  nextInode : ℕ
  clock : ℕ
  alive : ℕ → Bool
  phase : τ → Phase

/-- What a thread, a process or the clock does next. -/
inductive LockAction (τ : Type)
  | start (i : τ)
  | create (i : τ)
  | writePart (i : τ)
  | write (i : τ) (createdUnixSecs : ℕ)
  | sync (i : τ)
  | writeFails (i : τ)
  | cleanUp (i : τ)
  | release (i : τ)
  | read (i : τ)
  | judge (i : τ)
  | remove (i : τ)
  | retry (i : τ)
  | giveUp (i : τ)
  | crash (pid : ℕ)
  | spawn (pid : ℕ)
  | tick

/-- An age that cannot be computed, the stamp lying ahead of the clock, is not stale. -/
def ageReached (now stamp : ℕ) : Bool := decide (stamp ≤ now) && decide (cursorLockStaleAfter ≤ now-stamp)

/-- The probe of the process; where there is none every process counts as alive. -/
def ownerProcessAlive (unix : Bool) (alive : ℕ → Bool) (pid : ℕ) : Bool :=
  !unix || decide (pid ≤ 2^31-1) && alive pid

def lockOwnerStaleWithoutProcessProbe (unix : Bool) (now : ℕ) (owner : CursorLockFile) : Bool :=
  !unix && ageReached now owner.createdUnixSecs

def cursorLockOwnerStale (unix : Bool) (alive : ℕ → Bool) (now : ℕ) (owner : CursorLockFile) : Bool :=
  if owner.formatVersion ≠ syncMetadataFormatVersion then ageReached now owner.createdUnixSecs
  else if owner.ownerPid = 0 then true
  else if ownerProcessAlive unix alive owner.ownerPid = false then true
  else lockOwnerStaleWithoutProcessProbe unix now owner

section step
variable {τ : Type} [DecidableEq τ] (unix : Bool) (pid : τ → ℕ)

def LockState.goto (s : LockState τ) (i : τ) (p : Phase) : LockState τ :=
  { s with phase := Function.update s.phase i p }

/-- The write goes to the inode the thread made, wherever the path leads now. -/
def LockFile.rewrite (n : ℕ) (content : Option CursorLockFile) (now : ℕ) (f : LockFile) : LockFile :=
  if f.inode = n then { f with content := content, modified := now } else f

/-- A record that does not parse is judged by the age of the file that is at the path now. -/
def LockState.stale (s : LockState τ) : Option CursorLockFile → Option Bool
  | some owner => some (cursorLockOwnerStale unix s.alive s.clock owner)
  | none => s.file.map fun f => ageReached s.clock f.modified

/-- A step of thread `i`, which is in the given phase. -/
def LockState.threadStep (s : LockState τ) (i : τ) : LockAction τ → Phase → Option (LockState τ)
  | .start _, .idle => some (s.goto i .attempting)
  | .create _, .attempting =>
    match s.file with
    | some _ => some (s.goto i .checking)
    | none => some { s.goto i (.created s.nextInode) with
        file := some ⟨s.nextInode,none,s.clock⟩, nextInode := s.nextInode+1 }
  | .writePart _, .created n => some { s with file := s.file.map (LockFile.rewrite n none s.clock) }
  | .write _ created, .created n =>
    if created ≤ s.clock then
      some { s.goto i (.written n) with
        file := s.file.map (LockFile.rewrite n (some ⟨syncMetadataFormatVersion,pid i,created⟩) s.clock) }
    else none
  | .sync _, .written n => some (s.goto i (.inside n))
  | .writeFails _, .created n => some (s.goto i (.failing n))
  | .writeFails _, .written n => some (s.goto i (.failing n))
  | .cleanUp _, .failing _ => some { s.goto i .idle with file := none }
  | .release _, .inside _ => some { s.goto i .idle with file := none }
  | .read _, .checking =>
    match s.file with
    | none => some (s.goto i .attempting)
    | some f => some (s.goto i (.judging f.content))
  | .judge _, .judging content =>
    match s.stale unix content with
    | none => some (s.goto i .idle)
    | some stale => some (s.goto i (if stale then .removing else .waiting))
  | .remove _, .removing => some { s.goto i .attempting with file := none }
  | .retry _, .waiting => some (s.goto i .attempting)
  -- an I/O error or the timeout ends the attempt
  | .giveUp _, .attempting | .giveUp _, .checking | .giveUp _, .judging _ | .giveUp _, .removing
  | .giveUp _, .waiting => some (s.goto i .idle)
  | _, _ => none

def LockAction.thread : LockAction τ → Option τ
  | .start i | .create i | .writePart i | .write i _ | .sync i | .writeFails i | .cleanUp i | .release i
  | .read i | .judge i | .remove i | .retry i | .giveUp i => some i
  | .crash _ | .spawn _ | .tick => none

/-- Only threads of live processes act; a crash takes all threads of a process with it and
leaves the file. -/
def LockState.step (s : LockState τ) (a : LockAction τ) : Option (LockState τ) :=
  match a.thread with
  | some i => if s.alive (pid i) then s.threadStep unix pid i a (s.phase i) else none
  | none =>
    match a with
    | .crash p => some { s with
        alive := Function.update s.alive p false, phase := fun i => if pid i = p then .idle else s.phase i }
    | .spawn p => some { s with alive := Function.update s.alive p true }
    | _ => some { s with clock := s.clock+1 }

/-- The thread is inside the critical section. -/
def LockState.Inside (s : LockState τ) (i : τ) : Prop := ∃ n, s.phase i = .inside n

/-- At most one holder. -/
def LockState.Exclusive (s : LockState τ) : Prop := ∀ i j, s.Inside i → s.Inside j → i = j

/-- Before any thread starts there may be a lock file of an earlier process. -/
def LockState.Initial (s : LockState τ) : Prop :=
  (∀ i, s.phase i = .idle) ∧ ∀ f, s.file = some f → f.inode < s.nextInode

/-- A reclaiming thread removes no file that a live thread has made for itself. -/
def Spares (s : LockState τ) : LockAction τ → Prop
  | .remove _ => ∀ f, s.file = some f → ∀ j, (s.phase j).owned ≠ some f.inode
  | _ => True

end step

section effects
variable {τ : Type} [DecidableEq τ] {s s' : LockState τ} {a : LockAction τ}
  {i : τ}

def LockState.current (s : LockState τ) : Option ℕ := s.file.map LockFile.inode

def LockState.owned (s : LockState τ) (i : τ) : Option ℕ := (s.phase i).owned

@[simp] lemma current_goto (s : LockState τ) (i : τ) (p : Phase) : (s.goto i p).current = s.current := rfl

@[simp] lemma nextInode_goto (s : LockState τ) (i : τ) (p : Phase) : (s.goto i p).nextInode = s.nextInode := rfl

open LockState

lemma owned_goto (s : LockState τ) (i j : τ) (p : Phase) :
    (s.goto i p).owned j = if j = i then p.owned else s.owned j := by
  simp only [owned,goto,update_apply]
  split <;> rfl

/-- What a step does to the file at the path and to who owns which file. -/
inductive LockEffect (s s' : LockState τ) (a : LockAction τ) : Prop
  | quiet (hfile : s'.current = s.current) (hnext : s'.nextInode = s.nextInode)
    (howned : ∀ j, s'.owned j = none ∨ s'.owned j = s.owned j)
  | take (i : τ) (hfree : s.current = none) (hfile : s'.current = some s.nextInode)
    (hnext : s'.nextInode = s.nextInode+1)
    (howned : ∀ j, s'.owned j = if j = i then some s.nextInode else s.owned j)
  | putBack (i : τ) (n : ℕ) (hi : s.owned i = some n) (hfile : s'.current = none) (hnext : s'.nextInode = s.nextInode)
    (howned : ∀ j, s'.owned j = if j = i then none else s.owned j)
  | reclaim (i : τ) (ha : a = .remove i) (hfile : s'.current = none) (hnext : s'.nextInode = s.nextInode)
    (howned : ∀ j, s'.owned j = none ∨ s'.owned j = s.owned j)

lemma owned_goto_or (hp : p.owned = none ∨ p.owned = s.owned i) (j : τ) :
    (s.goto i p).owned j = none ∨ (s.goto i p).owned j = s.owned j := by
  rw [owned_goto]
  split
  · rename_i hj
    rwa [hj]
  · exact .inr rfl

lemma LockEffect.goto (hp : p.owned = none ∨ p.owned = s.owned i) : LockEffect s (s.goto i p) a :=
  .quiet rfl rfl (owned_goto_or hp)

omit [DecidableEq τ] in
/-- Writing into a file moves no file. -/
lemma current_rewrite (s : LockState τ) (n : ℕ) (content : Option CursorLockFile) (now : ℕ) :
    (s.file.map (LockFile.rewrite n content now)).map LockFile.inode = s.current := by
  simp [LockState.current,comp_def,LockFile.rewrite,apply_ite LockFile.inode]

/-- Removing the file one owns. -/
lemma LockEffect.drop (hi : s.owned i = some n) : LockEffect s { s.goto i .idle with file := none } a :=
  .putBack i n hi rfl rfl (owned_goto s i · .idle)

lemma threadStep_effect (ha : a.thread = some i) (h : s.threadStep unix pid i a (s.phase i) = some s') :
    LockEffect s s' a := by
  have howned : s.owned i = (s.phase i).owned := rfl
  generalize s.phase i = p at h howned
  cases a with
  | start | retry =>
    cases p <;> cases h
    exact .goto (.inl rfl)
  | create =>
    cases p with
    | attempting =>
      simp only [threadStep] at h
      cases hfile : s.file with
      | some f =>
        rw [hfile] at h
        cases h
        exact .goto (.inl rfl)
      | none =>
        rw [hfile] at h
        cases h
        exact .take i (congrArg (Option.map LockFile.inode) hfile) rfl rfl (owned_goto s i · _)
    | _ => cases h
  | writePart =>
    cases p <;> cases h
    exact .quiet (current_rewrite s _ _ _) rfl fun j => .inr rfl
  | write _ created =>
    cases p with
    | created n =>
      simp only [threadStep] at h
      split_ifs at h
      cases h
      exact .quiet (current_rewrite s _ _ _) rfl (owned_goto_or (.inr howned.symm))
    | _ => cases h
  | sync | writeFails =>
    cases p <;> cases h
    all_goals exact .goto (.inr howned.symm)
  | cleanUp | release =>
    cases p <;> cases h
    exact .drop howned
  | read =>
    cases p with
    | checking =>
      simp only [threadStep] at h
      cases hfile : s.file with
      | none | some f =>
        rw [hfile] at h
        cases h
        exact .goto (.inl rfl)
    | _ => cases h
  | judge =>
    cases p with
    | judging content =>
      simp only [threadStep] at h
      cases hstale : s.stale unix content with
      | none =>
        rw [hstale] at h
        cases h
        exact .goto (.inl rfl)
      | some stale =>
        rw [hstale] at h
        cases h
        exact .goto (.inl (by cases stale <;> rfl))
    | _ => cases h
  | remove =>
    cases p <;> cases h
    exact .reclaim i (congrArg _ (some.inj ha)) rfl rfl (owned_goto_or (.inl rfl))
  | giveUp =>
    cases p <;> cases h
    all_goals exact .goto (.inl rfl)
  | crash | spawn | tick => cases ha

lemma step_effect (h : s.step unix pid a = some s') : LockEffect s s' a := by
  unfold step at h
  cases ha : a.thread with
  | some i =>
    rw [ha] at h
    simp only at h
    split_ifs at h
    exact threadStep_effect ha h
  | none =>
    rw [ha] at h
    simp only at h
    cases a with
    | crash p =>
      cases h
      refine .quiet rfl rfl fun j => ?_
      by_cases hj : pid j = p
      · exact .inl (by simp [owned,hj,Phase.owned])
      · exact .inr (by simp [owned,hj])
    | spawn | tick =>
      cases h
      exact .quiet rfl rfl fun j => .inr rfl
    | start | create | writePart | write | sync | writeFails | cleanUp | release | read | judge | remove | retry
    | giveUp => cases ha

end effects

section invariant
variable {τ : Type} {s s' : LockState τ}

/-- Whoever owns a file owns the one at the path, alone. -/
structure LockInv (s : LockState τ) : Prop where
  fresh : ∀ n, s.current = some n → n < s.nextInode
  current : ∀ i n, s.owned i = some n → s.current = some n
  alone : ∀ i j n, s.owned i = some n → s.owned j = some n → i = j

lemma LockInv.initial (h : s.Initial) : LockInv s where
  fresh n hn := by
    obtain ⟨f,hf,rfl⟩ := map_eq_some_iff.mp hn
    exact h.2 f hf
  current i n hi := by
    rw [LockState.owned,h.1 i] at hi
    cases hi
  alone i j n hi := by
    rw [LockState.owned,h.1 i] at hi
    cases hi

/-- Owners may only become fewer while the file stays. -/
lemma LockInv.fewer (h : LockInv s) (hfile : s'.current = s.current) (hnext : s'.nextInode = s.nextInode)
    (howned : ∀ j, s'.owned j = none ∨ s'.owned j = s.owned j) : LockInv s' := by
  have hold : ∀ {i n}, s'.owned i = some n → s.owned i = some n := fun {i n} hi => by
    rcases howned i with hj | hj
    · exact nomatch hj.symm.trans hi
    · exact hj.symm.trans hi
  refine ⟨fun n hn => ?_,fun i n hi => ?_,fun i j n hi hj => h.alone i j n (hold hi) (hold hj)⟩
  · rw [hnext]
    exact h.fresh n (hfile ▸ hn)
  · rw [hfile]
    exact h.current i n (hold hi)

/-- With no owner left the path may be empty. -/
lemma LockInv.cleared (hfile : s'.current = none) (hnone : ∀ j, s'.owned j = none) : LockInv s' where
  fresh _ hn := nomatch hfile.symm.trans hn
  current i _ hi := nomatch (hnone i).symm.trans hi
  alone i _ _ hi := nomatch (hnone i).symm.trans hi

lemma LockInv.exclusive (h : LockInv s) : s.Exclusive := by
  rintro i j ⟨n,hi⟩ ⟨m,hj⟩
  have howni : s.owned i = some n := congrArg Phase.owned hi
  have hownj : s.owned j = some m := congrArg Phase.owned hj
  have hsame : m = n := some.inj ((h.current j m hownj).symm.trans (h.current i n howni))
  exact h.alone i j n howni (hsame ▸ hownj)

/-- What one step keeps. -/
lemma LockInv.step [DecidableEq τ] (h : LockInv s)
    (hok : Spares s a) (hs' : s.step unix pid a = some s') : LockInv s' := by
  cases step_effect hs' with
  | quiet hfile hnext howned => exact h.fewer hfile hnext howned
  | take i hfree hfile hnext howned =>
    have hnone : ∀ j, s.owned j = none := fun j =>
      eq_none_iff_forall_ne_some.mpr fun n hj => nomatch hfree.symm.trans (h.current j n hj)
    have honly : ∀ {j n}, s'.owned j = some n → j = i ∧ n = s.nextInode := fun {j n} hj => by
      rw [howned,hnone j] at hj
      split_ifs at hj with hji
      exact ⟨hji,(some.inj hj).symm⟩
    refine ⟨fun n hn => ?_,fun j n hj => ?_,fun j k n hj hk => (honly hj).1.trans (honly hk).1.symm⟩
    · obtain rfl := some.inj (hfile.symm.trans hn)
      rw [hnext]
      exact Nat.lt_succ_self _
    · rw [(honly hj).2]
      exact hfile
  | putBack i n hi hfile hnext howned =>
    refine .cleared hfile fun j => ?_
    rw [howned]
    split
    · rfl
    · rename_i hji
      refine eq_none_iff_forall_ne_some.mpr fun m hj => hji ?_
      have hsame : m = n := some.inj ((h.current j m hj).symm.trans (h.current i n hi))
      exact h.alone j i n (hsame ▸ hj) hi
  | reclaim i ha hfile hnext howned =>
    subst ha
    refine .cleared hfile fun j => ?_
    rcases howned j with hj | hj
    · exact hj
    rw [hj]
    refine eq_none_iff_forall_ne_some.mpr fun n hn => ?_
    obtain ⟨f,hf,rfl⟩ := map_eq_some_iff.mp (h.current j n hn)
    exact hok f hf j hn

end invariant

/-- Two processes, 1 and 2, find the lock of process 9, which is gone. -/
def staleLock : LockState Bool where
  file := some ⟨0,some ⟨1,9,0⟩,0⟩
  nextInode := 1
  clock := 100
  alive := fun p => p == 1 || p == 2
  phase := fun _ => .idle

def twoPids (i : Bool) : ℕ := if i then 2 else 1

def reclaimOnce (i : Bool) : List (LockAction Bool) := [.start i,.create i,.read i,.judge i]

def takeAfresh (i : Bool) : List (LockAction Bool) := [.remove i,.create i,.write i 100,.sync i]

end PowDB.Sync
