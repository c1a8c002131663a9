import PowDB.Lib.Semaphore
import PowDB.Lib.Steps
import Mathlib.Logic.Relation

/-! The transaction gate: a pool of permits that writers and explicit transactions take whole and
readers one by one, a second pool for readers beside a transaction that has not written yet, and
the flag that lets them in. Connections take their atomic steps in any order. -/
namespace PowDB.Server
open Lib List Option Function Prod
variable {ι : Type} [DecidableEq ι]

inductive AdmissionMode
  | reader
  | writer
  deriving DecidableEq

/-- Where a connection is in admission, in a statement or in its explicit transaction. -/
inductive Phase
  | idle
  /-- `begin` waits for the whole pool -/
  | beginQueued
  /-- the pool is held, reader admission not yet open -/
  | beginGranted
  /-- reader admission is open, the engine's `begin` runs -/
  | beginning
  /-- in a transaction that has not written -/
  | openTx
  /-- `upgrade_to_exclusive` has closed reader admission -/
  | closed
  | upgradeQueued
  /-- the upgrade gave up, reader admission not yet open again -/
  | upgradeTimedOut
  /-- holds both pools; `wrote` from its first write to its end -/
  | exclusive (wrote : Bool)
  /-- the engine has committed or rolled back, the hold is about to drop -/
  | ended (readers : Bool)
  /-- dropping: reader admission is closed -/
  | shut (readers : Bool)
  /-- dropping: only the pool is left -/
  | poolLeft
  /-- a read is about to look at the flag -/
  | readStart
  /-- the flag was up: about to try the reader pool -/
  | besideTry
  /-- a permit of the reader pool is in hand, the flag is about to be read again -/
  | besideCheck
  /-- reading beside an open transaction -/
  | beside
  | tryPool (mode : AdmissionMode)
  /-- the attempt failed, about to queue -/
  | tryFailed (mode : AdmissionMode)
  | queued (mode : AdmissionMode)
  | admitted (mode : AdmissionMode)
  deriving DecidableEq

/-- The permits of a bare statement. -/
def AdmissionMode.permits (total : ℕ) : AdmissionMode → ℕ
  | .reader => 1
  | .writer => total

namespace Phase

/-- The connection owns the gate inside an explicit transaction. -/
def inTx : Phase → Bool
  | .beginGranted | .beginning | .openTx | .closed | .upgradeQueued | .upgradeTimedOut
  | .exclusive _ | .ended _ | .shut _ | .poolLeft => true
  | _ => false

def mainHeld (total : ℕ) : Phase → ℕ
  | .admitted mode => mode.permits total
  | p => if p.inTx then total else 0

def mainNeed (total : ℕ) : Phase → Option ℕ
  | .beginQueued => some total
  | .queued mode => some (mode.permits total)
  | _ => none

def readersHeld (total : ℕ) : Phase → ℕ
  | .exclusive _ | .ended true | .shut true => total
  | .besideCheck | .beside => 1
  | _ => 0

def readersNeed (total : ℕ) : Phase → Option ℕ
  | .upgradeQueued => some total
  | _ => none

/-- Reader admission may be open on this connection's behalf. -/
def door : Phase → Bool
  | .beginning | .openTx | .ended false => true
  | _ => false

/-- An explicit transaction, or an autocommit writer. -/
def mayWrite (p : Phase) : Bool := p.inTx || p == .admitted .writer

end Phase

structure GateState (ι : Type) where
  main : Semaphore ι
  readers : Semaphore ι
  readerBypass : Bool
  phase : ι → Phase

def GateState.initial (total : ℕ) : GateState ι := ⟨⟨total,[]⟩,⟨total,[]⟩,false,fun _ => .idle⟩

def GateState.at (s : GateState ι) (i : ι) (p : Phase) : GateState ι := { s with phase := update s.phase i p }

inductive GateAction
  | begin
  | granted
  | timeout
  | openDoor
  /-- the engine's `begin` returned -/
  | begun (success : Bool)
  /-- a statement of the transaction is about to write for the first time -/
  | closeDoor
  | queueUpgrade
  | reopenDoor
  /-- the connection goes away while it waits for the readers -/
  | abandon
  | write
  /-- commit or rollback, by the client, a cancellation, the reaper or the end of the connection -/
  | endTx
  | shutDoor
  | dropReaders
  | dropPool
  | read
  | loadFlag
  | tryReaders
  | recheckFlag
  | bareWrite
  | tryPool
  | queue
  | finish
  /-- a read turned out to need the writer -/
  | escalate
  deriving DecidableEq

/-- One atomic step of connection `i`; `none` when the connection is not there. -/
def gateStep (total : ℕ) (s : GateState ι) (ia : ι × GateAction) : Option (GateState ι) :=
  let (i,a) := ia
  match s.phase i, a with
  -- an explicit transaction
  | .idle, .begin => some { s.at i .beginQueued with main := s.main.enqueue i total }
  | .beginQueued, .granted => (s.main.grant i).map fun main => { s.at i .beginGranted with main := main }
  | .beginQueued, .timeout => some { s.at i .idle with main := s.main.withdraw i }
  | .beginGranted, .openDoor => some { s.at i .beginning with readerBypass := true }
  | .beginning, .begun success => some (s.at i (if success then .openTx else .ended false))
  | .openTx, .closeDoor => some { s.at i .closed with readerBypass := false }
  | .closed, .queueUpgrade => some { s.at i .upgradeQueued with readers := s.readers.enqueue i total }
  | .upgradeQueued, .granted => (s.readers.grant i).map fun readers => { s.at i (.exclusive false) with readers := readers }
  | .upgradeQueued, .timeout => some { s.at i .upgradeTimedOut with readers := s.readers.withdraw i }
  | .upgradeQueued, .abandon => some { s.at i (.ended false) with readers := s.readers.withdraw i }
  | .upgradeTimedOut, .reopenDoor => some { s.at i .openTx with readerBypass := true }
  | .exclusive _, .write => some (s.at i (.exclusive true))
  | .openTx, .endTx => some (s.at i (.ended false))
  | .exclusive _, .endTx => some (s.at i (.ended true))
  -- the hold drops: flag, reader pool, pool
  | .ended readers, .shutDoor => some { s.at i (.shut readers) with readerBypass := false }
  | .shut true, .dropReaders => some { s.at i .poolLeft with readers := s.readers.release total }
  | .shut false, .dropReaders => some (s.at i .poolLeft)
  | .poolLeft, .dropPool => some { s.at i .idle with main := s.main.release total }
  -- a bare read
  | .idle, .read => some (s.at i .readStart)
  | .readStart, .loadFlag => some (s.at i (if s.readerBypass then .besideTry else .tryPool .reader))
  | .besideTry, .tryReaders =>
    match s.readers.tryAcquire 1 with
    | some readers => some { s.at i .besideCheck with readers := readers }
    | none => some (s.at i (.tryPool .reader))
  | .besideCheck, .recheckFlag =>
    if s.readerBypass then some (s.at i .beside)
    else some { s.at i (.tryPool .reader) with readers := s.readers.release 1 }
  | .beside, .finish => some { s.at i .idle with readers := s.readers.release 1 }
  | .beside, .escalate => some { s.at i (.tryPool .writer) with readers := s.readers.release 1 }
  -- the pool, for a bare statement
  | .idle, .bareWrite => some (s.at i (.tryPool .writer))
  | .tryPool mode, .tryPool =>
    match s.main.tryAcquire (mode.permits total) with
    | some main => some { s.at i (.admitted mode) with main := main }
    | none => some (s.at i (.tryFailed mode))
  | .tryFailed mode, .queue => some { s.at i (.queued mode) with main := s.main.enqueue i (mode.permits total) }
  | .queued mode, .granted => (s.main.grant i).map fun main => { s.at i (.admitted mode) with main := main }
  | .queued _, .timeout => some { s.at i .idle with main := s.main.withdraw i }
  | .admitted mode, .finish => some { s.at i .idle with main := s.main.release (mode.permits total) }
  | .admitted .reader, .escalate => some { s.at i (.tryPool .writer) with main := s.main.release 1 }
  | _, _ => none

/-- What a step does: the connection moves to another phase, and both pools keep their books. -/
structure Moves (total : ℕ) (s t : GateState ι) (i : ι) (p : Phase) : Prop where
  phase : t.phase = update s.phase i p
  main : SemMove i s.main ((s.phase i).mainHeld total) ((s.phase i).mainNeed total) t.main
    (p.mainHeld total) (p.mainNeed total)
  readers : SemMove i s.readers ((s.phase i).readersHeld total) ((s.phase i).readersNeed total) t.readers
    (p.readersHeld total) (p.readersNeed total)
  door : t.readerBypass = true → p.door = true ∨ s.readerBypass = true ∧ (s.phase i).door = false

section moves
variable {total : ℕ} {t : GateState ι} {i : ι} {p q : Phase}

/-- The books are kept by the phases alone, so a step is described by the phases it joins. -/
lemma moves_between (hq : s.phase i = q)
    (h : some ⟨m,r,flag,(s.at i p).phase⟩ = some t)
    (hmain : SemMove i s.main (q.mainHeld total) (q.mainNeed total) m (p.mainHeld total) (p.mainNeed total))
    (hreaders : SemMove i s.readers (q.readersHeld total) (q.readersNeed total) r
      (p.readersHeld total) (p.readersNeed total))
    (hdoor : flag = true → p.door = true ∨ s.readerBypass = true ∧ q.door = false) : ∃ p, Moves total s t i p := by
  subst hq
  cases h
  exact ⟨p,rfl,hmain,hreaders,hdoor⟩

/-- A step of a connection that does not hold the door open, on one pool or both. -/
lemma moves_pools (hq : s.phase i = q)
    (h : some ⟨m,r,s.readerBypass,(s.at i p).phase⟩ = some t) (hdoor : q.door = false)
    (hmain : SemMove i s.main (q.mainHeld total) (q.mainNeed total) m (p.mainHeld total) (p.mainNeed total))
    (hreaders : SemMove i s.readers (q.readersHeld total) (q.readersNeed total) r
      (p.readersHeld total) (p.readersNeed total)) : ∃ p, Moves total s t i p :=
  moves_between hq h hmain hreaders fun hopen => .inr ⟨hopen,hdoor⟩

end moves

lemma gateStep_moves {i : ι} (h : gateStep total s (i,a) = some t) :
    ∃ p, Moves total s t i p := by
  unfold gateStep at h
  simp only at h
  split at h
  case h_1 hp | h_27 _ hp => exact moves_pools hp h rfl (.enqueue _ _) (.same _ _)
  case h_2 hp | h_28 _ hp =>
    obtain ⟨main,hm,h⟩ := map_eq_some_iff.mp h
    exact moves_pools hp (congrArg some h) rfl (.grant hm) (.same _ _)
  case h_3 hp | h_29 _ hp => exact moves_pools hp h rfl (.withdraw _ _) (.same _ _)
  case h_4 hp | h_11 hp | h_13 hp => exact moves_between hp h (.same _ _) (.same _ _) fun _ => .inl rfl
  case h_5 success hp => cases success <;> exact moves_between hp h (.same _ _) (.same _ _) fun _ => .inl rfl
  case h_6 hp => exact moves_between hp h (.same _ _) (.same _ _) nofun
  case h_7 hp => exact moves_pools hp h rfl (.same _ _) (.enqueue _ _)
  case h_8 hp =>
    obtain ⟨readers,hr,h⟩ := map_eq_some_iff.mp h
    exact moves_pools hp (congrArg some h) rfl (.same _ _) (.grant hr)
  case h_9 hp | h_10 hp => exact moves_pools hp h rfl (.same _ _) (.withdraw _ _)
  case h_12 hp | h_14 hp | h_17 hp | h_19 hp | h_25 hp => exact moves_pools hp h rfl (.same _ _) (.same _ _)
  case h_15 readers hp => cases readers <;> exact moves_between hp h (.same _ _) (.same _ _) nofun
  case h_16 hp => exact moves_pools hp h rfl (.same _ _) (.release _ 0)
  case h_18 hp | h_30 _ hp => exact moves_pools hp h rfl (.release _ 0) (.same _ _)
  case h_20 hp => split_ifs at h <;> exact moves_pools hp h rfl (.same _ _) (.same _ _)
  case h_21 hp =>
    split at h
    case h_1 readers hr => exact moves_pools hp h rfl (.same _ _) (.take hr)
    case h_2 => exact moves_pools hp h rfl (.same _ _) (.same _ _)
  case h_22 hp =>
    split_ifs at h
    · exact moves_pools hp h rfl (.same _ _) (.same _ _)
    · exact moves_pools hp h rfl (.same _ _) (.release 1 0)
  case h_23 hp | h_24 hp => exact moves_pools hp h rfl (.same _ _) (.release 1 0)
  case h_26 mode hp =>
    split at h
    case h_1 main hm => exact moves_pools hp h rfl (.take hm) (.same _ _)
    case h_2 => exact moves_pools hp h rfl (.same _ _) (.same _ _)
  case h_31 hp => exact moves_pools hp h rfl (.release 1 0) (.same _ _)
  case h_32 => cases h

/-- Both pools keep their books, and reader admission is open only for a transaction that has
not written. -/
structure GateInv [Fintype ι] (total : ℕ) (s : GateState ι) : Prop where
  main : Account total s.main (fun i => (s.phase i).mainHeld total) (fun i => (s.phase i).mainNeed total)
  readers : Account total s.readers (fun i => (s.phase i).readersHeld total) (fun i => (s.phase i).readersNeed total)
  door : s.readerBypass = true → ∃ i, (s.phase i).door = true

section run
variable [Fintype ι] {total : ℕ} {s : GateState ι} {i j : ι}
  {p : Phase}

open GateState

open Phase

omit [DecidableEq ι] in
lemma gateInv_initial (total : ℕ) : GateInv total (initial total : GateState ι) where
  main := ⟨by simp [initial,mainHeld,inTx],by simp [initial,mainNeed],
    by simp [initial]⟩
  readers := ⟨by simp [initial,readersHeld],by simp [initial,readersNeed],
    by simp [initial]⟩
  door := nofun

lemma GateInv.step (h : GateInv total s) {a : GateAction} (hstep : gateStep total s (i,a) = some t) :
    GateInv total t := by
  obtain ⟨p,hmove⟩ := gateStep_moves hstep
  have happly : ∀ {β : Type} (f : Phase → β), (fun k => f (t.phase k)) = update (fun k => f (s.phase k)) i (f p) := by
    intro β f
    rw [hmove.phase]
    exact comp_update f s.phase i p
  constructor
  · rw [happly,happly]
    exact h.main.move hmove.main
  · rw [happly,happly]
    exact h.readers.move hmove.readers
  · intro hopen
    rcases hmove.door hopen with hp | ⟨hbefore,hi⟩
    · exact ⟨i,by rw [hmove.phase,update_self]; exact hp⟩
    · obtain ⟨k,hk⟩ := h.door hbefore
      have hki : k ≠ i := by
        rintro rfl
        rw [hi] at hk
        cases hk
      exact ⟨k,by rw [hmove.phase,update_of_ne hki]; exact hk⟩

lemma GateInv.run (h : GateInv total s)
    (hrun : runSteps (gateStep total) s as = some t) : GateInv total t := by
  have hmeets : Meets (gateStep total) (fun _ _ => True) s as := meets_of_forall (fun _ _ => trivial) s as
  exact runSteps_inv (fun _ _ _ hs _ hstep => hs.step hstep) h hmeets hrun

lemma Phase.mainHeld_of_inTx (h : p.inTx = true) : p.mainHeld total = total := by
  cases p with
  | admitted => cases h
  | _ => simp_all [mainHeld]

lemma Phase.mainHeld_of_mayWrite (h : p.mayWrite = true) : p.mainHeld total = total := by
  rcases Bool.or_eq_true _ _ ▸ h with h | h
  · exact mainHeld_of_inTx h
  · rw [beq_iff_eq.mp h]
    rfl

/-- At most one connection is admitted to write. -/
lemma GateInv.writer_unique (h : GateInv total s) (htotal : 0 < total) (hi : (s.phase i).mayWrite = true)
    (hj : (s.phase j).mayWrite = true) : i = j := by
  by_contra hij
  have hle := h.main.held_add_le hij
  rw [mainHeld_of_mayWrite hi,mainHeld_of_mayWrite hj] at hle
  omega

lemma Phase.mayWrite_of_door (h : p.door = true) : p.mayWrite = true := by
  unfold door at h
  split at h <;> first | rfl | cases h

section
variable (h : GateInv total s)
include h

/-- Nobody opens reader admission while a transaction waits for the readers to leave. -/
lemma GateInv.door_shut (htotal : 0 < total) (hi : s.phase i = .upgradeQueued) :
    s.readerBypass = false := by
  cases hflag : s.readerBypass with
  | false => rfl
  | true =>
    obtain ⟨k,hk⟩ := h.door hflag
    have hik := h.writer_unique htotal (by rw [hi]; rfl) (mayWrite_of_door hk)
    rw [← hik,hi] at hk
    cases hk

/-- Only the transaction that upgrades ever waits for the reader pool. -/
lemma GateInv.readers_waiter (htotal : 0 < total) (hi : s.phase i = .upgradeQueued)
    (hj : (s.phase j).readersNeed total = some n) : j = i ∧ n = total := by
  unfold readersNeed at hj
  split at hj
  case h_1 hphase =>
    cases hj
    exact ⟨h.writer_unique htotal (by rw [hphase]; rfl) (by rw [hi]; rfl),rfl⟩
  case h_2 => cases hj

/-- While an upgrade waits, the other connections only leave the reader pool. -/
lemma GateInv.upgrade_step (htotal : 0 < total) (hi : s.phase i = .upgradeQueued)
    (hji : j ≠ i) {a : GateAction} (hstep : gateStep total s (j,a) = some t) :
    t.phase i = .upgradeQueued ∧ ∀ k, (t.phase k).readersHeld total ≤ (s.phase k).readersHeld total := by
  obtain ⟨p,hmove⟩ := gateStep_moves hstep
  refine ⟨by rw [hmove.phase,update_of_ne hji.symm]; exact hi,?_⟩
  have hqueue : (i,total) ∈ s.readers.queue := (h.readers.queued i total).mpr (by rw [hi]; rfl)
  have hp : p.readersHeld total ≤ (s.phase j).readersHeld total := by
    have hr := hmove.readers
    generalize hheld : (s.phase j).readersHeld total = held at hr
    generalize hneed : (s.phase j).readersNeed total = need at hr
    generalize p.readersHeld total = held' at hr ⊢
    generalize p.readersNeed total = need' at hr
    generalize t.readers = sem' at hr
    cases hr with
    | same | enqueue | withdraw => exact le_rfl
    | take htake =>
      unfold Semaphore.tryAcquire at htake
      split_ifs at htake with hempty
      rw [hempty.1] at hqueue
      cases hqueue
    | grant => exact absurd (h.readers_waiter htotal hi hneed).1 hji
    | release => exact Nat.le_add_left _ _
  intro k
  rw [hmove.phase]
  by_cases hk : k = j
  · subst hk
    rw [update_self]
    exact hp
  · rw [update_of_ne hk]

/-- Each reader in the way of an upgrade can leave on its own. -/
lemma GateInv.reader_leaves (htotal : 0 < total) (hi : s.phase i = .upgradeQueued)
    (hji : j ≠ i) (hj : 0 < (s.phase j).readersHeld total) :
    ∃ a t, gateStep total s (j,a) = some t ∧ (t.phase j).readersHeld total = 0 := by
  have hout : (s.phase j).inTx ≠ true := by
    intro hin
    exact hji (h.writer_unique htotal (by simp [mayWrite,hin]) (by rw [hi]; rfl))
  cases hphase : s.phase j with
  | beside =>
    refine ⟨.finish,{ s.at j .idle with readers := s.readers.release 1 },by simp [gateStep,hphase],?_⟩
    simp [GateState.at,readersHeld]
  | besideCheck =>
    have hshut := h.door_shut htotal hi
    refine ⟨.recheckFlag,{ s.at j (.tryPool .reader) with readers := s.readers.release 1 },
      by simp [gateStep,hphase,hshut],?_⟩
    simp [GateState.at,readersHeld]
  | exclusive | ended | shut => simp [hphase,inTx] at hout
  | _ => simp [hphase,readersHeld] at hj

/-- When the readers are gone, the upgrade gets its permits. -/
lemma GateInv.upgrade_granted (htotal : 0 < total) (hi : s.phase i = .upgradeQueued)
    (hgone : ∀ j, j ≠ i → (s.phase j).readersHeld total = 0) :
    ∃ t, gateStep total s (i,.granted) = some t ∧ t.phase i = .exclusive false := by
  have hfree := h.readers.free_of_alone hgone
  have hheld : (s.phase i).readersHeld total = 0 := by rw [hi]; rfl
  have hqueue : (i,total) ∈ s.readers.queue := (h.readers.queued i total).mpr (by rw [hi]; rfl)
  have hhead : ∃ rest, s.readers.queue = (i,total)::rest := by
    cases hq : s.readers.queue with
    | nil =>
      rw [hq] at hqueue
      cases hqueue
    | cons head rest =>
      obtain ⟨k,n⟩ := head
      have hk := (h.readers.queued k n).mp (hq ▸ mem_cons_self)
      obtain ⟨rfl,rfl⟩ := h.readers_waiter htotal hi hk
      exact ⟨rest,rfl⟩
  obtain ⟨rest,hrest⟩ := hhead
  have hgrant : s.readers.grant i = some ⟨s.readers.free-total,rest⟩ := by
    unfold Semaphore.grant
    rw [hrest]
    exact if_pos ⟨rfl,by omega⟩
  refine ⟨{ s.at i (.exclusive false) with readers := ⟨s.readers.free-total,rest⟩ },?_,?_⟩
  · simp [gateStep,hi,hgrant]
  · simp [GateState.at]

end

/-- `i` waits for a permit that `j` holds, or for one that `j` gets before it. -/
def Waits (total : ℕ) (s : GateState ι) (i j : ι) : Prop :=
  (s.phase i).mainNeed total ≠ none ∧ (0 < (s.phase j).mainHeld total ∨
    j ∈ s.main.queue.map fst ∧ (s.main.queue.map fst).idxOf j < (s.main.queue.map fst).idxOf i) ∨
  (s.phase i).readersNeed total ≠ none ∧ (0 < (s.phase j).readersHeld total ∧ j ≠ i ∨
    j ∈ s.readers.queue.map fst ∧ j ≠ i)

/-- Who waits for the pool, by its place; an upgrade; everybody else. -/
def waitRank (total : ℕ) (s : GateState ι) (i : ι) : ℕ :=
  if (s.phase i).mainNeed total ≠ none then 2+(s.main.queue.map fst).idxOf i
  else if (s.phase i).readersNeed total ≠ none then 1
  else 0

lemma Phase.not_waiting_of_mainHeld (h : 0 < p.mainHeld total) : p.mainNeed total = none := by
  cases p with
  | beginQueued | queued => simp [mainHeld,inTx] at h
  | _ => rfl

lemma Phase.not_waiting_of_readersHeld (h : 0 < p.readersHeld total) :
    p.mainNeed total = none ∧ p.readersNeed total = none := by
  cases p with
  | beginQueued | queued | upgradeQueued => simp [readersHeld] at h
  | _ => exact ⟨rfl,rfl⟩

lemma GateInv.waitRank_lt (h : GateInv total s) (htotal : 0 < total) (hwait : Waits total s i j) :
    waitRank total s j < waitRank total s i := by
  rcases hwait with ⟨hi,hj⟩ | ⟨hi,hj⟩
  · have hrank : waitRank total s i = 2+(s.main.queue.map fst).idxOf i := if_pos hi
    rw [hrank]
    rcases hj with hheld | ⟨hmem,hlt⟩
    · unfold waitRank
      rw [if_neg (not_not.mpr (not_waiting_of_mainHeld hheld))]
      split_ifs <;> omega
    · obtain ⟨⟨k,n⟩,hk,rfl⟩ := mem_map.mp hmem
      have hneed := (h.main.queued k n).mp hk
      have hrank : waitRank total s k = 2+(s.main.queue.map fst).idxOf k := if_pos (by rw [hneed]; simp)
      rw [hrank]
      exact Nat.add_lt_add_left hlt 2
  · have hup : s.phase i = .upgradeQueued := by
      cases hp : s.phase i <;> first | rfl | exact absurd (by rw [hp]; rfl) hi
    have hrank : waitRank total s i = 1 := by
      unfold waitRank
      rw [hup]
      rfl
    rw [hrank]
    rcases hj with ⟨hheld,-⟩ | ⟨hmem,hji⟩
    · obtain ⟨hmain,hreaders⟩ := not_waiting_of_readersHeld hheld
      unfold waitRank
      rw [if_neg (not_not.mpr hmain),if_neg (not_not.mpr hreaders)]
      exact Nat.one_pos
    · obtain ⟨⟨k,n⟩,hk,rfl⟩ := mem_map.mp hmem
      exact absurd (h.readers_waiter htotal hup ((h.readers.queued k n).mp hk)).1 hji

/-- No connections wait for each other in a circle. -/
lemma GateInv.no_cycle (h : GateInv total s) (htotal : 0 < total) (i : ι) : ¬Relation.TransGen (Waits total s) i i := by
  have hlt : ∀ j, Relation.TransGen (Waits total s) i j → waitRank total s j < waitRank total s i := by
    intro j hj
    induction hj with
    | single hw => exact h.waitRank_lt htotal hw
    | tail _ hw ih => exact (h.waitRank_lt htotal hw).trans ih
  exact fun hcycle => (hlt i hcycle).false

/-- The run of the other connections while an upgrade waits. -/
lemma GateInv.upgrade_run (h : GateInv total s) (htotal : 0 < total) (hi : s.phase i = .upgradeQueued)
    (hbs : ∀ b ∈ bs, b.1 ≠ i) (hrun : runSteps (gateStep total) s bs = some t) :
    t.phase i = .upgradeQueued ∧ ∀ k, (t.phase k).readersHeld total ≤ (s.phase k).readersHeld total := by
  induction bs generalizing s with
  | nil =>
    cases hrun
    exact ⟨hi,fun _ => le_rfl⟩
  | cons b bs ih =>
    obtain ⟨u,hu,hrun⟩ := bind_eq_some_iff.mp hrun
    obtain ⟨hphase,hle⟩ := h.upgrade_step htotal hi (hbs b mem_cons_self) hu
    obtain ⟨hend,hle'⟩ := ih (h.step hu) hphase (fun c hc => hbs c (mem_cons_of_mem b hc)) hrun
    exact ⟨hend,fun k => (hle' k).trans (hle k)⟩

end run

/-- In every state that connections reach by their steps in any order: a transaction that has
written is alone with its permits, at most one connection is admitted to write, idle connections
leave the gate as it was made, a waiting upgrade completes once the readers beside it are done,
and nobody waits in a circle. -/
theorem transaction_gate_safe [Fintype ι] {total : ℕ} (htotal : 0 < total) {as : List (ι × GateAction)} {s : GateState ι}
    (hrun : runSteps (gateStep total) (GateState.initial total) as = some s) :
    (∀ i, s.phase i = .exclusive true → ∀ j, j ≠ i →
      (s.phase j).mainHeld total = 0 ∧ (s.phase j).readersHeld total = 0) ∧
    (∀ i j, (s.phase i).mayWrite = true → (s.phase j).mayWrite = true → i = j) ∧
    ((∀ i, s.phase i = .idle) → s.main = ⟨total,[]⟩ ∧ s.readers = ⟨total,[]⟩ ∧ s.readerBypass = false) ∧
    (∀ i, s.phase i = .upgradeQueued →
      (∀ j, j ≠ i → 0 < (s.phase j).readersHeld total →
        ∃ a t, gateStep total s (j,a) = some t ∧ (t.phase j).readersHeld total = 0) ∧
      ∀ bs t, (∀ b ∈ bs, b.1 ≠ i) → runSteps (gateStep total) s bs = some t →
        t.phase i = .upgradeQueued ∧ (∀ j, (t.phase j).readersHeld total ≤ (s.phase j).readersHeld total) ∧
        ((∀ j, j ≠ i → (t.phase j).readersHeld total = 0) →
          ∃ u, gateStep total t (i,.granted) = some u ∧ u.phase i = .exclusive false)) ∧
    ∀ i, ¬Relation.TransGen (Waits total s) i i := by
  have h : GateInv total s := (gateInv_initial total).run hrun
  refine ⟨?_,fun i j => h.writer_unique htotal,?_,?_,h.no_cycle htotal⟩
  · intro i hi j hji
    have hmain : (s.phase i).mainHeld total = total := by rw [hi]; rfl
    have hreaders : (s.phase i).readersHeld total = total := by rw [hi]; rfl
    exact ⟨h.main.eq_zero_of_all hmain hji.symm,h.readers.eq_zero_of_all hreaders hji.symm⟩
  · intro hidle
    refine ⟨h.main.eq_initial ?_ ?_,h.readers.eq_initial ?_ ?_,?_⟩
    · simp [hidle,Phase.mainHeld,Phase.inTx]
    · simp [hidle,Phase.mainNeed]
    · simp [hidle,Phase.readersHeld]
    · simp [hidle,Phase.readersNeed]
    · cases hflag : s.readerBypass with
      | false => rfl
      | true =>
        obtain ⟨i,hi⟩ := h.door hflag
        rw [hidle i] at hi
        cases hi
  · intro i hi
    refine ⟨fun j hji hj => h.reader_leaves htotal hi hji hj,?_⟩
    intro bs t hbs hbrun
    obtain ⟨hphase,hle⟩ := h.upgrade_run htotal hi hbs hbrun
    exact ⟨hphase,hle,(h.run hbrun).upgrade_granted htotal hphase⟩

/-- A transaction opens, another connection reads beside it, the upgrade waits for that read and
the transaction writes. -/
def sampleSchedule : List (Fin 2 × GateAction) :=
  [(0,.begin),(0,.granted),(0,.openDoor),(0,.begun true),(1,.read),(1,.loadFlag),(1,.tryReaders),(1,.recheckFlag),
    (0,.closeDoor),(0,.queueUpgrade),(1,.finish),(0,.granted),(0,.write),(1,.read),(1,.loadFlag)]

theorem sample_writer_alone :
    ∃ s : GateState (Fin 2), runSteps (gateStep 4) (GateState.initial 4) sampleSchedule = some s ∧
      s.phase 0 = .exclusive true ∧ (s.phase 1).mainHeld 4 = 0 ∧ (s.phase 1).readersHeld 4 = 0 := by
  have hphase : (runSteps (gateStep 4) (GateState.initial 4) sampleSchedule).map (fun s => s.phase 0) =
      some (.exclusive true) := by
    decide +kernel
  obtain ⟨s,hs,hwrote⟩ := map_eq_some_iff.mp hphase
  obtain ⟨hmain,hreaders⟩ := (transaction_gate_safe (by decide) hs).1 0 hwrote 1 (by decide)
  exact ⟨s,hs,hwrote,hmain,hreaders⟩

end PowDB.Server
