import PowDB.Server.TransactionGate
import Mathlib

/-! The transaction gate runs empty: whatever state its connections have reached, they can all
finish, and none of them has to give up waiting for that. -/
namespace PowDB.Server
open Lib List Option
variable {ι : Type} [DecidableEq ι] {total : ℕ} {s : GateState ι} {i : ι}

/-- Steps that bring no new statement to the gate and give up no wait. -/
@[simp] def GateAction.drains : GateAction → Bool
  | .begin | .read | .bareWrite | .escalate | .timeout | .abandon => false
  | _ => true

namespace Phase

/-- What a connection does next on its way out. -/
@[simp] def exit : Phase → GateAction
  | .idle => .read
  | .beginQueued | .upgradeQueued | .queued _ => .granted
  | .beginGranted => .openDoor
  | .beginning => .begun true
  | .openTx | .exclusive _ => .endTx
  | .closed => .queueUpgrade
  | .upgradeTimedOut => .reopenDoor
  | .ended _ => .shutDoor
  | .shut _ => .dropReaders
  | .poolLeft => .dropPool
  | .readStart => .loadFlag
  | .besideTry => .tryReaders
  | .besideCheck => .recheckFlag
  | .beside | .admitted _ => .finish
  | .tryPool _ => .tryPool
  | .tryFailed _ => .queue

/-- At most so many steps of its own are left. -/
@[simp] def toIdle : Phase → ℕ
  | .idle => 0
  | .poolLeft | .beside | .admitted _ => 1
  | .shut _ | .queued _ => 2
  | .ended _ | .tryFailed _ => 3
  | .openTx | .exclusive _ | .tryPool _ => 4
  | .beginning | .upgradeQueued | .upgradeTimedOut | .besideCheck => 5
  | .beginGranted | .closed | .besideTry => 6
  | .beginQueued | .readStart => 7

end Phase
open Phase

/-- One step out of the gate. -/
@[simp] def Drains (total : ℕ) (s : GateState ι) (b : ι × GateAction) (t : GateState ι) : Prop :=
  b.2.drains = true ∧ gateStep total s b = some t ∧ (t.phase b.1).toIdle < (s.phase b.1).toIdle

/-- Nothing keeps back a connection that is in no queue. -/
lemma drains_exit (hi : s.phase i ≠ .idle) (hq : (s.phase i).exit ≠ .granted) :
    ∃ t, Drains total s (i,(s.phase i).exit) t := by
  cases hp : s.phase i with
  | idle => exact absurd hp hi
  | beginQueued | upgradeQueued | queued => simp [hp] at hq
  | shut readers => cases readers <;> simp [gateStep,hp,GateState.at]
  | readStart | besideCheck => cases hb : s.readerBypass <;> simp [gateStep,hp,hb,GateState.at]
  | besideTry => cases ht : s.readers.tryAcquire 1 <;> simp [gateStep,hp,ht,GateState.at]
  | tryPool mode => cases ht : s.main.tryAcquire (mode.permits total) <;> simp [gateStep,hp,ht,GateState.at]
  | _ => simp [gateStep,hp,GateState.at]

section
variable [Fintype ι] (h : GateInv total s) (htotal : 0 < total)
include h htotal

/-- Where the pool is free, the first in its queue gets its permits. -/
lemma GateInv.drains_head (hfree : ∀ j, (s.phase j).mainHeld total = 0)
    (hi : (s.phase i).mainNeed total = some n) : ∃ j t, Drains total s (j,.granted) t := by
  have hall : s.main.free = total := by simpa [hfree] using h.main.balanced
  cases hq : s.main.queue with
  | nil => simpa [hq] using (h.main.queued i n).mpr hi
  | cons head rest =>
    obtain ⟨j,n⟩ := head
    have hneed := (h.main.queued j n).mp (hq ▸ mem_cons_self)
    have hgrant : n ≤ total → s.main.grant j = some ⟨s.main.free-n,rest⟩ := by
      intro hn
      rw [Semaphore.grant,hq]
      exact if_pos ⟨rfl,hall ▸ hn⟩
    refine ⟨j,?_⟩
    cases hp : s.phase j with
    | beginQueued =>
      rw [hp] at hneed
      cases hneed
      simp [gateStep,hp,hgrant,GateState.at]
    | queued mode =>
      rw [hp] at hneed
      cases hneed
      have hn : mode.permits total ≤ total := by cases mode <;> first | exact htotal | exact le_rfl
      simp [gateStep,hp,hgrant hn,GateState.at]
    | _ => simp [hp,mainNeed] at hneed

lemma GateInv.drains (hi : s.phase i ≠ .idle) : ∃ b t, Drains total s b t := by
  by_cases hmove : ∃ j, s.phase j ≠ .idle ∧ (s.phase j).exit ≠ .granted
  · obtain ⟨j,hj,hq⟩ := hmove
    exact ⟨_,drains_exit hj hq⟩
  have hwait : ∀ j, s.phase j = .idle ∨ (s.phase j).exit = .granted := by
    intro j
    by_contra hj
    exact hmove ⟨j,not_or.mp hj⟩
  by_cases hup : ∃ j, s.phase j = .upgradeQueued
  · obtain ⟨j,hj⟩ := hup
    have hgone : ∀ k, k ≠ j → (s.phase k).readersHeld total = 0 := by
      intro k _
      cases hp : s.phase k with
      | exclusive | ended | shut | besideCheck | beside => simpa [hp] using hwait k
      | _ => rfl
    obtain ⟨t,ht,hend⟩ := h.upgrade_granted htotal hj hgone
    exact ⟨(j,.granted),t,rfl,ht,by rw [hend,hj]; decide⟩
  · have hfree : ∀ j, (s.phase j).mainHeld total = 0 := by
      intro j
      cases hp : s.phase j with
      | upgradeQueued => exact absurd ⟨j,hp⟩ hup
      | idle | beginQueued | queued => rfl
      | _ => simpa [hp] using hwait j
    have hneed : ∃ n, (s.phase i).mainNeed total = some n := by
      cases hp : s.phase i with
      | idle => exact absurd hp hi
      | upgradeQueued => exact absurd ⟨i,hp⟩ hup
      | beginQueued | queued => exact ⟨_,rfl⟩
      | _ => simpa [hp] using hwait i
    obtain ⟨n,hn⟩ := hneed
    obtain ⟨j,hj⟩ := h.drains_head htotal hfree hn
    exact ⟨_,hj⟩

end

/-- From every state that connections reach by their steps in any order, steps of the connections
already at the gate bring it back to the state it was made in, without a timeout, an abandoned
upgrade or a new statement: no deadlock, and no permit is lost. -/
theorem gate_drains [Fintype ι] (htotal : 0 < total) {as : List (ι × GateAction)}
    (hrun : runSteps (gateStep total) (.initial total) as = some s) :
    ∃ bs : List (ι × GateAction), (∀ b ∈ bs, b.2.drains = true) ∧
      runSteps (gateStep total) s bs = some (.initial total) := by
  have hstep : ∀ s : GateState ι, GateInv total s → ¬(∀ i, s.phase i = .idle) → ∃ b t, b.2.drains = true ∧
      gateStep total s b = some t ∧ GateInv total t ∧ ∑ i, (t.phase i).toIdle < ∑ i, (s.phase i).toIdle := by
    intro s hs hbusy
    obtain ⟨i,hi⟩ := not_forall.mp hbusy
    obtain ⟨⟨j,a⟩,t,ha,ht,hlt⟩ := hs.drains htotal hi
    obtain ⟨p,hmove⟩ := gateStep_moves ht
    refine ⟨(j,a),t,ha,ht,hs.step ht,Finset.sum_lt_sum (fun k _ => ?_) ⟨j,Finset.mem_univ j,hlt⟩⟩
    by_cases hk : k = j
    · exact hk ▸ hlt.le
    · rw [hmove.phase,Function.update_of_ne hk]
  obtain ⟨bs,t,hbs,hend,hinv,hidle⟩ := exists_run_done (fun t : GateState ι => ∑ i, (t.phase i).toIdle) hstep s
    ((gateInv_initial total).run hrun)
  have ht : t = .initial total := by
    obtain ⟨main,readers,flag,phase⟩ := t
    obtain rfl : phase = fun _ => .idle := funext hidle
    have hflag : flag = false := by
      cases flag with
      | false => rfl
      | true => simpa [door] using hinv.door rfl
    rw [hflag,show main = _ from hinv.main.eq_initial (by simp [mainHeld,inTx]) (by simp [mainNeed]),
      show readers = _ from hinv.readers.eq_initial (by simp [readersHeld]) (by simp [readersNeed]),GateState.initial]
  exact ⟨bs,hbs,ht ▸ hend⟩

theorem sample_gate_drains : ∃ (s : GateState (Fin 2)) (bs : _), runSteps (gateStep 4) (.initial 4) sampleSchedule = some s ∧
    runSteps (gateStep 4) s bs = some (.initial 4) := by
  have hsome : (runSteps (gateStep 4) (.initial 4) sampleSchedule).isSome = true := by decide +kernel
  obtain ⟨s,hs⟩ := isSome_iff_exists.mp hsome
  obtain ⟨bs,-,hend⟩ := gate_drains (by decide) hs
  exact ⟨s,bs,hs,hend⟩

end PowDB.Server
