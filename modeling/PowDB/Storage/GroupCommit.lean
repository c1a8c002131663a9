import PowDB.Lib.Steps
import Mathlib.Order.Nat

/-! Group commit: generations of written bytes, the fsyncs that cover them and the poison latch.
Bytes are named by the order in which they reach the operating system, so a byte that left the
file never comes back. Calls of `sync_until`, the background flusher and the owner of the log
move one atomic step at a time. -/
namespace PowDB.Storage.GroupCommit
open Nat
variable {g i : ℕ} {ok : Bool}
open Lib List Option
/-- Where a caller of `fsync` stands. The flusher rests in `entered`. -/
inductive Phase
  | entered
  | queued
  | leading
  | unsettled
  | cleared
  | covering (cover : ℕ)
  | fsyncing (cover begun : ℕ)
  | synced (cover : ℕ)
  | failed
  | returned (ok : Bool)
  deriving DecidableEq

/-- Between the look at the poison latch and the outcome of the fsync. -/
def Phase.critical : Phase → Bool
  | cleared | covering _ | fsyncing .. => true
  | _ => false

def Phase.holdsLock : Phase → Bool
  | leading | unsettled | cleared | covering _ | fsyncing .. | synced _ | failed => true
  | _ => false

inductive How
  | inline | deferred | background
  deriving DecidableEq

inductive Owner
  | idle
  /-- The poison latch was clear, the buffer goes to the file next. -/
  | flushing (how : How)
  | registering (how : How)
  | waiting (call : ℕ) (thenTruncate : Bool)
  | discarding (syncedLen : ℕ)
  | replacing (syncedLen : ℕ)
  deriving DecidableEq

structure State where
  file : List ℕ
  written : ℕ
  buffered : ℕ
  pending : Bool
  syncedLen : ℕ
  hasWriter : Bool
  deferredGen : Option ℕ
  /-- How much had been written when each generation was registered; `dirty_gen` is their number. -/
  marks : List ℕ
  syncedGen : ℕ
  poisoned : Bool
  lock : Option ℕ
  calls : List (ℕ × Phase)
  flusher : Phase
  owner : Owner
  /-- How much had been written when the last fsync began that succeeded before any failure. -/
  covered : ℕ
  /-- Some fsync of this log has failed. -/
  failed : Bool
  deriving DecidableEq

namespace State

def dirtyGen (s : State) : ℕ := s.marks.length

/-- The bytes a generation stands for are those numbered below its mark. -/
def mark (s : State) (gen : ℕ) : ℕ := (0::s.marks).getD gen 0

/-- A log just opened with `n` bytes of records in it. -/
def opened (n : ℕ) : State where
  file := List.range n
  written := n
  buffered := 0
  pending := false
  syncedLen := n
  hasWriter := true
  deferredGen := none
  marks := []
  syncedGen := 0
  poisoned := false
  lock := none
  calls := []
  flusher := .returned false
  owner := .idle
  covered := 0
  failed := false

/-- Bytes of the buffer reach the file. -/
def spill (s : State) (n : ℕ) : State :=
  {s with file := s.file++List.range' s.written n, written := s.written+n, buffered := s.buffered-n}

def enter (s : State) (gen : ℕ) : State := {s with calls := s.calls++[(gen,.entered)]}

def endFsync (s : State) (ok : Bool) (begun : ℕ) : State :=
  if ok then {s with covered := if s.failed then s.covered else max s.covered begun}
  else {s with failed := true}

def move (s : State) (i gen : ℕ) (p : Phase) : State := {s with calls := s.calls.set i (gen,p)}

/-- The rest of `truncate`: the file is emptied and the old buffer written as it is dropped. -/
def cutAll (s : State) : State :=
  {({s with file := []} : State).spill s.buffered with hasWriter := true, owner := .replacing 0}

end State

inductive Action
  | append (bytes spilled : ℕ)
  | flush (how : How)
  | syncBeforeHeapFlush
  | write
  | register
  | takeTicket
  | truncate
  | discardAndTruncateTo (len : ℕ)
  | discardPending
  | discardSync (ok : Bool)
  | replaceFile
  | resume
  | call (i : ℕ) (fsyncOk : Bool)
  | flusher (fsyncOk : Bool)
  | startFlusher
  | stopFlusher
  deriving DecidableEq

open State

/-- One atomic step of `sync_until`. -/
def callStep (s : State) (i : ℕ) (fsyncOk : Bool) : ℕ × Phase → Option State
  | (gen,.entered) => some (s.move i gen (if gen ≤ s.syncedGen then .returned true else .queued))
  | (gen,.queued) => if s.lock = none then some {s.move i gen .leading with lock := some i} else none
  | (gen,.leading) =>
    if gen ≤ s.syncedGen then some {s.move i gen (.returned true) with lock := none}
    else some (s.move i gen .unsettled)
  | (gen,.unsettled) =>
    if s.poisoned then some {s.move i gen (.returned false) with lock := none}
    else some (s.move i gen .cleared)
  | (gen,.cleared) => some (s.move i gen (.covering s.dirtyGen))
  | (gen,.covering cover) => some (s.move i gen (.fsyncing cover s.written))
  | (gen,.fsyncing cover begun) =>
    some ((s.endFsync fsyncOk begun).move i gen (if fsyncOk then .synced cover else .failed))
  | (gen,.synced cover) =>
    some {s.move i gen (.returned true) with syncedGen := max s.syncedGen cover, lock := none}
  | (gen,.failed) => some {s.move i gen (.returned false) with poisoned := true, lock := none}
  | (_,.returned _) => none

/-- One atomic step of the background flusher, which takes no lock. -/
def flusherStep (s : State) (fsyncOk : Bool) : Option State :=
  match s.flusher with
  | .entered => some {s with flusher := if s.poisoned then .returned false else .cleared}
  | .cleared => some {s with flusher := .covering s.dirtyGen}
  | .covering cover =>
    some {s with flusher := if s.syncedGen < cover then .fsyncing cover s.written else .entered}
  | .fsyncing cover begun =>
    some {s.endFsync fsyncOk begun with flusher := if fsyncOk then .synced cover else .failed}
  | .synced cover => some {s with syncedGen := max s.syncedGen cover, flusher := .entered}
  | .failed => some {s with poisoned := true, flusher := .returned false}
  | _ => none

/-- Bytes written are registered as a generation, and its fsync is arranged. -/
def registerStep (s : State) (how : How) : State :=
  let s : State := {s with marks := s.marks++[s.written], owner := .idle}
  match how with
  | .inline => {s.enter s.dirtyGen with owner := .waiting s.calls.length false}
  | .deferred => {s with deferredGen := some s.dirtyGen}
  | .background => s

def step (s : State) : Action → Option State
  | .append bytes spilled =>
    if s.owner = .idle ∧ s.hasWriter ∧ spilled ≤ s.buffered+bytes then
      some (({s with buffered := s.buffered+bytes, pending := true} : State).spill spilled)
    else none
  | .flush how =>
    if s.owner = .idle ∧ s.pending ∧ s.poisoned = false ∧ s.hasWriter then some {s with owner := .flushing how}
    else none
  | .syncBeforeHeapFlush =>
    if s.owner = .idle ∧ s.pending = false then
      some {s.enter s.dirtyGen with owner := .waiting s.calls.length false}
    else none
  | .write =>
    match s.owner with
    | .flushing how =>
      let s := s.spill s.buffered
      some {s with syncedLen := s.file.length, pending := false, owner := .registering how}
    | _ => none
  | .register =>
    match s.owner with
    | .registering how => some (registerStep s how)
    | _ => none
  | .takeTicket =>
    if s.owner = .idle then s.deferredGen.map (fun gen => {s.enter gen with deferredGen := none}) else none
  | .truncate =>
    if s.owner = .idle then
      match s.deferredGen with
      | some gen => some {s.enter gen with deferredGen := none, owner := .waiting s.calls.length true}
      | none => some s.cutAll
    else none
  | .discardAndTruncateTo len =>
    if s.owner = .idle then
      some {s with file := s.file.take len, buffered := 0, hasWriter := false, owner := .discarding len}
    else none
  | .discardPending =>
    if s.owner = .idle then
      some {s with file := s.file.take s.syncedLen, buffered := 0, hasWriter := false, owner := .discarding 0}
    else none
  | .discardSync ok =>
    match s.owner with
    | .discarding n =>
      if ok then some {s.endFsync true s.written with deferredGen := none, hasWriter := true, owner := .replacing n}
      else some {s.endFsync false s.written with owner := .idle}
    | _ => none
  | .replaceFile =>
    match s.owner with
    | .replacing n =>
      if s.lock = none then
        some {s with syncedGen := max s.syncedGen s.dirtyGen, pending := false, syncedLen := n, owner := .idle}
      else none
    | _ => none
  | .resume =>
    match s.owner with
    | .waiting i thenTruncate =>
      match s.calls[i]? with
      | some (_,.returned ok) => some (if ok && thenTruncate then s.cutAll else {s with owner := .idle})
      | _ => none
    | _ => none
  | .call i fsyncOk => s.calls[i]?.bind (callStep s i fsyncOk)
  | .flusher fsyncOk => flusherStep s fsyncOk
  | .startFlusher => match s.flusher with
    | .returned _ => some {s with flusher := .entered}
    | _ => none
  | .stopFlusher => if s.flusher = .entered then some {s with flusher := .returned false} else none

/-- A call looks at the latch only while no failure of the flusher waits to set it, and its fsync
fails only while the flusher has none under way. -/
def CallCalm (s : State) (fsyncOk : Bool) : Phase → Prop
  | .unsettled => s.flusher ≠ .failed
  | .fsyncing .. => fsyncOk = false → s.flusher.critical = false
  | _ => True

def FlusherCalm (s : State) (fsyncOk : Bool) : Phase → Prop
  | .entered => ∀ x ∈ s.calls, x.2 ≠ .failed
  | .fsyncing .. => fsyncOk = false → ∀ x ∈ s.calls, x.2.critical = false
  | _ => True

/-- The fsync of a discard does not fail, and after a failure it finds nothing uncovered; an
fsync of the flusher and one of a leader overlap only if both succeed. -/
def Calm (s : State) : Action → Prop
  | .discardSync ok => ok = true ∧ (s.failed = true → ∀ b ∈ s.file, b < s.mark s.dirtyGen → b < s.covered)
  | .call i fsyncOk => ∀ x ∈ s.calls[i]?, CallCalm s fsyncOk x.2
  | .flusher fsyncOk => FlusherCalm s fsyncOk s.flusher
  | _ => True

/-- Every byte of the generation is covered by an fsync or no longer in the log. -/
def Settled (s : State) (gen : ℕ) : Prop := ∀ b < s.mark gen, b < s.covered ∨ b ∉ s.file

structure Ordered (s : State) : Prop where
  mono : ∀ g g', g ≤ g' → g' ≤ s.dirtyGen → s.mark g ≤ s.mark g'
  mark_le : s.mark s.dirtyGen ≤ s.written
  file_lt : ∀ b ∈ s.file, b < s.written

variable {s t : State}

lemma Ordered.le (h : Ordered s) (hg : g ≤ s.dirtyGen) : s.mark g ≤ s.written :=
  (h.mono g _ hg le_rfl).trans h.mark_le

lemma Settled.anti (h : Ordered s) {g g' : ℕ} (hg : g ≤ g') (hg' : g' ≤ s.dirtyGen)
    (hs : Settled s g') : Settled s g := by
  intro b hb
  exact hs b (hb.trans_le (h.mono g g' hg hg'))

/-- More may become covered, but nothing after a failure. -/
def Covers (s t : State) : Prop := s.covered ≤ t.covered ∧ (s.failed = true → t.failed = true ∧ t.covered = s.covered)

lemma Covers.refl (s : State) : Covers s s := ⟨le_rfl,fun hf => ⟨hf,rfl⟩⟩

/-- What no step takes back. -/
structure Grows (s t : State) : Prop where
  dirty : s.dirtyGen ≤ t.dirtyGen
  mark : ∀ g ≤ s.dirtyGen, t.mark g = s.mark g
  covered : Covers s t
  written : s.written ≤ t.written
  file : ∀ b < s.written, b ∈ t.file → b ∈ s.file

lemma Settled.grows (h : Ordered s) (hg : Grows s t) (hle : g ≤ s.dirtyGen) (hs : Settled s g) :
    Settled t g := by
  intro b hb
  rw [hg.mark g hle] at hb
  refine (hs b hb).imp (fun hc => hc.trans_le hg.covered.1) (fun hf hmem => hf ?_)
  exact hg.file b (hb.trans_le (h.le hle)) hmem

def PhaseOk (s : State) : Phase → Prop
  | .covering cover => cover ≤ s.dirtyGen
  | .fsyncing cover begun => cover ≤ s.dirtyGen ∧ s.mark cover ≤ begun
  | .synced cover => cover ≤ s.dirtyGen ∧ Settled s cover
  | _ => True

lemma PhaseOk.grows (h : Ordered s) (hg : Grows s t) (hp : PhaseOk s p) :
    PhaseOk t p := by
  cases p with
  | covering c => exact hp.trans hg.dirty
  | fsyncing c b =>
    obtain ⟨hc,hb⟩ := hp
    refine ⟨hc.trans hg.dirty,?_⟩
    rwa [hg.mark c hc]
  | synced c => exact ⟨hp.1.trans hg.dirty,hp.2.grows h hg hp.1⟩
  | _ => trivial

/-- The snapshot a call has taken reaches its own generation. -/
def Reaches (gen : ℕ) : Phase → Prop
  | .covering cover | .fsyncing cover _ | .synced cover => gen ≤ cover
  | _ => True

structure CallOk (s : State) (i : ℕ) (x : ℕ × Phase) : Prop where
  gen_le : x.1 ≤ s.dirtyGen
  phase : PhaseOk s x.2
  settled : x.2 = .returned true → Settled s x.1
  lock : x.2.holdsLock = true → s.lock = some i
  calm : x.2.critical = true → s.failed = false
  reaches : Reaches x.1 x.2

/-- A call that did not move. -/
lemma CallOk.grows (h : Ordered s) (hg : Grows s t) (hx : CallOk s i x)
    (hlock : s.lock = some i → x.2.holdsLock = true → t.lock = some i)
    (hcalm : s.failed = false → x.2.critical = true → t.failed = false) : CallOk t i x where
  gen_le := hx.gen_le.trans hg.dirty
  phase := hx.phase.grows h hg
  settled := fun hr => (hx.settled hr).grows h hg hx.gen_le
  lock := fun hl => hlock (hx.lock hl) hl
  calm := fun hc => hcalm (hx.calm hc) hc
  reaches := hx.reaches

structure Inv (s : State) : Prop where
  ordered : Ordered s
  synced_le : s.syncedGen ≤ s.dirtyGen
  synced : Settled s s.syncedGen
  deferred_le : ∀ g, s.deferredGen = some g → g ≤ s.dirtyGen
  replacing : ∀ n, s.owner = .replacing n → Settled s s.dirtyGen
  calls : ∀ i x, s.calls[i]? = some x → CallOk s i x
  flusher : PhaseOk s s.flusher
  flusher_calm : s.flusher.critical = true → s.failed = false
  latched : s.failed = true → s.poisoned = true ∨ s.flusher = .failed ∨ ∃ x ∈ s.calls, x.2 = .failed

def Next (s t : State) : Prop := Inv t ∧ Grows s t

lemma Grows.of_marks (hmarks : t.marks = s.marks) (hcovered : Covers s t)
    (hwritten : s.written ≤ t.written) (hfile : ∀ b < s.written, b ∈ t.file → b ∈ s.file) : Grows s t where
  dirty := le_of_eq (by rw [dirtyGen,dirtyGen,hmarks])
  mark := fun g _ => by rw [State.mark,State.mark,hmarks]
  covered := hcovered
  written := hwritten
  file := hfile

lemma Ordered.of_marks (h : Ordered s) (hmarks : t.marks = s.marks) (hwritten : s.written ≤ t.written)
    (hfile : ∀ b ∈ t.file, b < t.written) : Ordered t := by
  have hmark : ∀ g, t.mark g = s.mark g := fun g => by rw [mark,hmarks,mark]
  have hdirty : t.dirtyGen = s.dirtyGen := congrArg length hmarks
  refine ⟨?_,?_,hfile⟩
  · simp only [hmark,hdirty]
    exact h.mono
  · rw [hmark,hdirty]
    exact h.mark_le.trans hwritten

/-- Calls and the flusher leave the log and its owner as they are. -/
def Framed (s t : State) : Prop :=
  t = {s with
    calls := t.calls, lock := t.lock, flusher := t.flusher, syncedGen := t.syncedGen, poisoned := t.poisoned
    covered := t.covered, failed := t.failed}

lemma Framed.grows (ht : Framed s t) (hcovered : Covers s t) : Grows s t :=
  .of_marks (by rw [ht]) hcovered (le_of_eq (congrArg State.written ht).symm) (by rw [ht]; exact fun _ _ hb => hb)

lemma Inv.framed (h : Inv s) (ht : Framed s t) (hg : Grows s t)
    (hsynced : t.syncedGen ≤ s.dirtyGen ∧ Settled s t.syncedGen) (hcalls : ∀ i x, t.calls[i]? = some x → CallOk t i x)
    (hflusher : PhaseOk t t.flusher) (hcalm : t.flusher.critical = true → t.failed = false)
    (hlatched : t.failed = true → t.poisoned = true ∨ t.flusher = .failed ∨ ∃ x ∈ t.calls, x.2 = .failed) : Inv t where
  ordered := h.ordered.of_marks (by rw [ht]) hg.written (by rw [ht]; exact h.ordered.file_lt)
  synced_le := hsynced.1.trans hg.dirty
  synced := hsynced.2.grows h.ordered hg hsynced.1
  deferred_le g hgen := le_trans (h.deferred_le g (by rw [ht] at hgen; exact hgen)) hg.dirty
  replacing n hn := by
    have hset := (h.replacing n (by rw [ht] at hn; exact hn)).grows h.ordered hg le_rfl
    rwa [show t.dirtyGen = s.dirtyGen by rw [ht]; rfl]
  calls := hcalls
  flusher := hflusher
  flusher_calm := hcalm
  latched := hlatched

/-- Steps of the owner: calls are only added, nothing happens to the fsyncs under way. -/
lemma Inv.ownerStep (h : Inv s) (hg : Grows s t) (ho : Ordered t)
    (hcalls : t.calls = s.calls ∨ ∃ g ≤ t.dirtyGen, t.calls = s.calls++[(g,.entered)])
    (hsame : t = {t with flusher := s.flusher, lock := s.lock, failed := s.failed, poisoned := s.poisoned})
    (hsynced : t.syncedGen ≤ t.dirtyGen ∧ Settled t t.syncedGen)
    (hdeferred : ∀ g, t.deferredGen = some g → g ≤ t.dirtyGen)
    (hreplacing : ∀ n, t.owner = .replacing n → Settled t t.dirtyGen) : Next s t := by
  have hflusher := congrArg State.flusher hsame
  have hfailed := congrArg State.failed hsame
  have hold : ∀ i x, s.calls[i]? = some x → CallOk t i x := fun i x hx =>
    (h.calls i x hx).grows h.ordered hg (fun hl _ => (congrArg State.lock hsame).trans hl) (fun hf _ => hfailed.trans hf)
  refine ⟨⟨ho,hsynced.1,hsynced.2,hdeferred,hreplacing,fun i x hx => ?_,?_,?_,fun hf => ?_⟩,hg⟩
  · rcases hcalls with hcalls | ⟨g,hle,hcalls⟩
    · exact hold i x (hcalls ▸ hx)
    · rw [hcalls] at hx
      rcases lt_or_ge i s.calls.length with hlt | hge
      · exact hold i x (by rwa [getElem?_append_left hlt] at hx)
      · obtain rfl : x = (g,.entered) := by
          rw [getElem?_append_right hge] at hx
          exact mem_singleton.mp (mem_of_getElem? hx)
        exact ⟨hle,trivial,nofun,nofun,nofun,trivial⟩
  · exact hflusher ▸ h.flusher.grows h.ordered hg
  · rw [hflusher,hfailed]
    exact h.flusher_calm
  · rw [congrArg State.poisoned hsame,hflusher]
    refine (h.latched (hfailed ▸ hf)).imp id (Or.imp id ?_)
    rintro ⟨x,hx,hp⟩
    rcases hcalls with hcalls | ⟨g,-,hcalls⟩
    · exact ⟨x,hcalls ▸ hx,hp⟩
    · exact ⟨x,by rw [hcalls]; exact mem_append_left _ hx,hp⟩

/-- A step of call `i` from phase `p` to phase `q`. -/
lemma Inv.callMove (h : Inv s) {gen : ℕ} {p q : Phase} (hi : s.calls[i]? = some (gen,p))
    (ht : t = {s with
      calls := s.calls.set i (gen,q), lock := t.lock, syncedGen := t.syncedGen, poisoned := t.poisoned
      covered := t.covered, failed := t.failed})
    (hcovered : Covers s t) (hq : CallOk t i (gen,q))
    (hsynced : t.syncedGen ≤ s.dirtyGen ∧ Settled s t.syncedGen) (hlock : ∀ j, j ≠ i → s.lock = some j → t.lock = some j)
    (hcalm : s.failed = false → t.failed = false ∨ s.flusher.critical = false ∧
      ∀ j x, j ≠ i → s.calls[j]? = some x → x.2.critical = false)
    (hlatched : t.failed = true → t.poisoned = true ∨ q = .failed ∨ s.failed = true ∧ p ≠ .failed ∧ t.poisoned = s.poisoned) :
    Next s t := by
  have hframed : Framed s t := by rw [Framed,ht]
  have hg := hframed.grows hcovered
  have hcalls : t.calls = s.calls.set i (gen,q) := by rw [ht]
  have hflusher : t.flusher = s.flusher := by rw [ht]
  have hlen : i < s.calls.length := (List.getElem?_eq_some_iff.mp hi).1
  refine ⟨h.framed hframed hg hsynced (fun j x hx => ?_) (hflusher ▸ h.flusher.grows h.ordered hg) ?_ (fun hf => ?_),hg⟩
  · by_cases hj : j = i
    · subst hj
      rw [hcalls,getElem?_set_self hlen] at hx
      exact some.inj hx ▸ hq
    · rw [hcalls,getElem?_set_ne (Ne.symm hj)] at hx
      refine (h.calls j x hx).grows h.ordered hg (fun hl _ => hlock j hj hl) (fun hf hc => ?_)
      refine (hcalm hf).resolve_right ?_
      rintro ⟨-,hno⟩
      rw [hno j x hj hx] at hc
      cases hc
  · rw [hflusher]
    intro hc
    refine (hcalm (h.flusher_calm hc)).resolve_right ?_
    rintro ⟨hno,-⟩
    rw [hno] at hc
    cases hc
  · rcases hlatched hf with hp | rfl | ⟨hs,hp,hpois⟩
    · exact .inl hp
    · refine .inr (.inr ⟨(gen,.failed),?_,rfl⟩)
      rw [hcalls]
      exact mem_set hlen _
    · rw [hpois,hflusher]
      refine (h.latched hs).imp id (Or.imp id ?_)
      rintro ⟨x,hx,hxp⟩
      obtain ⟨j,hj⟩ := mem_iff_getElem?.mp hx
      have hne : j ≠ i := by
        rintro rfl
        obtain rfl := some.inj (hj.symm.trans hi)
        exact hp hxp
      refine ⟨x,mem_of_getElem? (i := j) ?_,hxp⟩
      rw [hcalls,getElem?_set_ne hne.symm,hj]

lemma covers_endFsync (s : State) (ok : Bool) (b : ℕ) : Covers s (s.endFsync ok b) := by
  cases ok with
  | true =>
    refine ⟨?_,fun hf => ⟨hf,if_pos hf⟩⟩
    change _ ≤ ite _ _ _
    split
    · exact le_rfl
    · exact le_max_left _ _
  | false => exact ⟨le_rfl,fun _ => ⟨rfl,rfl⟩⟩

/-- An fsync that succeeds before any failure covers what was written when it began. -/
lemma begun_le_endFsync (hf : s.failed = false) (b : ℕ) : b ≤ (s.endFsync true b).covered := by
  simp only [endFsync,hf]
  exact le_max_right _ _

lemma Inv.synced_max (h : Inv s) (hg : g ≤ s.dirtyGen) (hs : Settled s g) :
    max s.syncedGen g ≤ s.dirtyGen ∧ Settled s (max s.syncedGen g) := by
  rcases le_total s.syncedGen g with hle | hle
  · rw [max_eq_right hle]
    exact ⟨hg,hs⟩
  · rw [max_eq_left hle]
    exact ⟨h.synced_le,h.synced⟩

/-- Nobody but the holder holds the lock. -/
lemma lock_other {j : ℕ} (h : s.lock = some i) (hj : j ≠ i) : s.lock ≠ some j := by
  rw [h]
  exact fun heq => hj (some.inj heq).symm

lemma Inv.advance (h : Inv s) {gen : ℕ} {p q : Phase} (hi : s.calls[i]? = some (gen,p)) (hp : p ≠ .failed)
    (hq : CallOk (s.move i gen q) i (gen,q)) : Next s (s.move i gen q) :=
  h.callMove hi rfl (.refl s) hq ⟨h.synced_le,h.synced⟩ (fun _ _ hl => hl) .inl fun hf => .inr (.inr ⟨hf,hp,rfl⟩)

/-- A call that returns gives the lock back. -/
lemma Inv.leave (h : Inv s) {poisoned : Bool} (hi : s.calls[i]? = some (gen,p))
    (hlock : s.lock = some i) (hset : ok = true → Settled s gen) (hsynced : n ≤ s.dirtyGen ∧ Settled s n)
    (hpoisoned : poisoned = true ∨ p ≠ .failed ∧ poisoned = s.poisoned) :
    Next s {s.move i gen (.returned ok) with syncedGen := n, poisoned, lock := none} :=
  h.callMove hi rfl (.refl s)
    ⟨(h.calls i _ hi).gen_le,trivial,fun hr => hset (Phase.returned.inj hr),nofun,nofun,trivial⟩ hsynced
    (fun _ hj hl => absurd hl (lock_other hlock hj)) .inl fun hf => hpoisoned.imp id fun hp => .inr ⟨hf,hp⟩

lemma callStep_next (h : Inv s) (hcalm : Calm s (.call i ok))
    (hi : s.calls[i]? = some (gen,p)) (hstep : callStep s i ok (gen,p) = some t) : Next s t := by
  have hx := h.calls i _ hi
  have hsync := And.intro h.synced_le h.synced
  have hcalm : CallCalm s ok p := hcalm _ hi
  cases p with
  | entered =>
    cases hstep
    refine h.advance hi nofun ?_
    split_ifs with hle
    · exact ⟨hx.gen_le,trivial,fun _ => h.synced.anti h.ordered hle h.synced_le,nofun,nofun,trivial⟩
    · exact ⟨hx.gen_le,trivial,nofun,nofun,nofun,trivial⟩
  | queued =>
    rw [callStep] at hstep
    split_ifs at hstep with hfree
    cases hstep
    exact h.callMove hi rfl (.refl s) ⟨hx.gen_le,trivial,nofun,fun _ => rfl,nofun,trivial⟩ hsync
      (fun _ _ hl => nomatch hfree.symm.trans hl) .inl fun hf => .inr (.inr ⟨hf,nofun,rfl⟩)
  | leading =>
    have hmine := hx.lock rfl
    rw [callStep] at hstep
    split_ifs at hstep with hle <;> cases hstep
    · exact h.leave hi hmine (fun _ => h.synced.anti h.ordered hle h.synced_le) hsync (.inr ⟨nofun,rfl⟩)
    · exact h.advance hi nofun ⟨hx.gen_le,trivial,nofun,fun _ => hmine,nofun,trivial⟩
  | unsettled =>
    have hmine := hx.lock rfl
    rw [callStep] at hstep
    split_ifs at hstep with hp <;> cases hstep
    · exact h.leave hi hmine nofun hsync (.inr ⟨nofun,rfl⟩)
    · refine h.advance hi nofun ⟨hx.gen_le,trivial,nofun,fun _ => hmine,fun _ => ?_,trivial⟩
      -- the latch is clear, and whoever failed without setting it would be the flusher or hold the lock
      by_contra hf
      rcases h.latched (Bool.not_eq_false _ ▸ hf) with hp' | hfl | ⟨x,hxm,hxf⟩
      · exact hp hp'
      · exact hcalm hfl
      · obtain ⟨j,hj⟩ := mem_iff_getElem?.mp hxm
        have hjl := (h.calls j x hj).lock (by rw [hxf]; rfl)
        obtain rfl : i = j := some.inj (hmine.symm.trans hjl)
        obtain rfl := some.inj (hi.symm.trans hj)
        cases hxf
  | cleared =>
    cases hstep
    exact h.advance hi nofun ⟨hx.gen_le,le_rfl,nofun,fun _ => hx.lock rfl,fun _ => hx.calm rfl,hx.gen_le⟩
  | covering c =>
    cases hstep
    exact h.advance hi nofun
      ⟨hx.gen_le,⟨hx.phase,h.ordered.le hx.phase⟩,nofun,fun _ => hx.lock rfl,fun _ => hx.calm rfl,hx.reaches⟩
  | fsyncing c b =>
    have hmine := hx.lock rfl
    have hf := hx.calm rfl
    cases hstep
    cases ok with
    | true =>
      have hcov : s.mark c ≤ (s.endFsync true b).covered := hx.phase.2.trans (begun_le_endFsync hf b)
      refine h.callMove hi rfl (covers_endFsync s true b) ⟨hx.gen_le,⟨hx.phase.1,?_⟩,nofun,fun _ => hmine,nofun,hx.reaches⟩
        hsync (fun _ _ hl => hl) .inl fun (hft : s.failed = true) => nomatch hf.symm.trans hft
      exact fun y hy => .inl (hy.trans_le hcov)
    | false =>
      refine h.callMove hi rfl (covers_endFsync s false b) ⟨hx.gen_le,trivial,nofun,fun _ => hmine,nofun,trivial⟩ hsync
        (fun _ _ hl => hl) (fun _ => .inr ⟨hcalm rfl,?_⟩) (fun _ => .inr (.inl rfl))
      -- another call past its look at the latch would hold the lock too
      intro j y hj hy
      by_contra hc
      have hcrit : y.2.critical = true := by simpa using hc
      have hheld : y.2.holdsLock = true := by
        revert hcrit
        cases y.2 <;> simp [Phase.critical,Phase.holdsLock]
      exact lock_other hmine hj ((h.calls j y hy).lock hheld)
  | synced c =>
    obtain ⟨hc,hset⟩ := hx.phase
    cases hstep
    exact h.leave hi (hx.lock rfl) (fun _ => hset.anti h.ordered hx.reaches hc) (h.synced_max hc hset) (.inr ⟨nofun,rfl⟩)
  | failed =>
    cases hstep
    exact h.leave hi (hx.lock rfl) nofun hsync (.inl rfl)
  | returned b => cases hstep

lemma Inv.flusherMove (h : Inv s)
    (ht : t = {s with
      flusher := t.flusher, syncedGen := t.syncedGen, poisoned := t.poisoned, covered := t.covered, failed := t.failed})
    (hcovered : Covers s t) (hq : PhaseOk t t.flusher) (hqcalm : t.flusher.critical = true → t.failed = false)
    (hsynced : t.syncedGen ≤ s.dirtyGen ∧ Settled s t.syncedGen)
    (hcalm : s.failed = false → t.failed = false ∨ ∀ x ∈ s.calls, x.2.critical = false)
    (hlatched : t.failed = true → t.poisoned = true ∨ t.flusher = .failed ∨
      s.failed = true ∧ s.flusher ≠ .failed ∧ t.poisoned = s.poisoned) : Next s t := by
  have hframed : Framed s t := by rw [Framed,ht]
  have hg := hframed.grows hcovered
  have hcalls : t.calls = s.calls := by rw [ht]
  refine ⟨h.framed hframed hg hsynced (fun j x hx => ?_) hq hqcalm (fun hf => ?_),hg⟩
  · rw [hcalls] at hx
    refine (h.calls j x hx).grows h.ordered hg (fun hl _ => (by rw [ht] : t.lock = s.lock).trans hl) (fun hf hc => ?_)
    refine (hcalm hf).resolve_right (fun hno => ?_)
    rw [hno x (mem_of_getElem? hx)] at hc
    cases hc
  · rcases hlatched hf with hp | hfl | ⟨hs,hnf,hpois⟩
    · exact .inl hp
    · exact .inr (.inl hfl)
    · rw [hpois,hcalls]
      exact (h.latched hs).imp id (fun hor => .inr (hor.resolve_left hnf))

lemma flusherStep_next (h : Inv s) (hcalm : Calm s (.flusher ok)) (hstep : flusherStep s ok = some t) : Next s t := by
  have hsync := And.intro h.synced_le h.synced
  have hphase := h.flusher
  have hflcalm := h.flusher_calm
  have hcalm : FlusherCalm s ok s.flusher := hcalm
  rw [flusherStep] at hstep
  cases hfl : s.flusher with
  | entered =>
    simp only [hfl] at hstep hcalm
    cases hstep
    by_cases hp : s.poisoned = true
    · simp only [hp]
      exact h.flusherMove rfl (.refl s) trivial nofun hsync .inl (fun _ => .inl rfl)
    · simp only [hp]
      have hf : s.failed = false := by
        by_contra hf
        rcases h.latched (Bool.not_eq_false _ ▸ hf) with hp' | hfl' | ⟨x,hx,hxf⟩
        · exact hp hp'
        · rw [hfl] at hfl'
          cases hfl'
        · exact hcalm x hx hxf
      exact h.flusherMove rfl (.refl s) trivial (fun _ => hf) hsync .inl
        fun (hft : s.failed = true) => nomatch hf.symm.trans hft
  | cleared =>
    simp only [hfl] at hstep hflcalm
    cases hstep
    exact h.flusherMove rfl (.refl s) le_rfl (fun _ => hflcalm rfl) hsync .inl
      (fun hf => .inr (.inr ⟨hf,by rw [hfl]; nofun,rfl⟩))
  | covering c =>
    simp only [hfl] at hstep hphase hflcalm
    cases hstep
    refine h.flusherMove rfl (.refl s) ?_ (fun _ => hflcalm rfl) hsync .inl
      (fun hf => .inr (.inr ⟨hf,by rw [hfl]; nofun,rfl⟩))
    split
    · exact ⟨hphase,h.ordered.le hphase⟩
    · trivial
  | fsyncing c b =>
    simp only [hfl] at hstep hphase hflcalm hcalm
    have hf := hflcalm rfl
    cases hstep
    cases ok with
    | true =>
      refine h.flusherMove rfl (covers_endFsync s true b) ⟨hphase.1,?_⟩ nofun hsync .inl
        fun (hft : s.failed = true) => nomatch hf.symm.trans hft
      exact fun y hy => .inl (hy.trans_le (hphase.2.trans (begun_le_endFsync hf b)))
    | false =>
      exact h.flusherMove rfl (covers_endFsync s false b) trivial nofun hsync (fun _ => .inr (hcalm rfl))
        (fun _ => .inr (.inl rfl))
  | synced c =>
    simp only [hfl] at hstep hphase
    cases hstep
    exact h.flusherMove rfl (.refl s) trivial nofun (h.synced_max hphase.1 hphase.2) .inl
      (fun hf => .inr (.inr ⟨hf,by rw [hfl]; nofun,rfl⟩))
  | failed =>
    simp only [hfl] at hstep
    cases hstep
    exact h.flusherMove rfl (.refl s) trivial nofun hsync .inl (fun _ => .inl rfl)
  | _ =>
    simp only [hfl] at hstep
    cases hstep

/-- Owner steps that register nothing: bytes leave the file or come in with new numbers. -/
lemma Inv.ownerQuiet (h : Inv s) (hwritten : s.written ≤ t.written) (hcovered : Covers s t)
    (hfile : ∀ b ∈ t.file, b ∈ s.file ∨ s.written ≤ b ∧ b < t.written)
    (hcalls : t.calls = s.calls ∨ ∃ g ≤ s.dirtyGen, t.calls = s.calls++[(g,.entered)])
    (hsame : t = {t with
      marks := s.marks, syncedGen := s.syncedGen, flusher := s.flusher, lock := s.lock, failed := s.failed
      poisoned := s.poisoned})
    (hdeferred : ∀ g, t.deferredGen = some g → s.deferredGen = some g)
    (hreplacing : ∀ n, t.owner = .replacing n → Settled t t.dirtyGen) : Next s t := by
  have hmarks := congrArg State.marks hsame
  have hdirty : t.dirtyGen = s.dirtyGen := congrArg length hmarks
  have hg : Grows s t := by
    refine .of_marks hmarks hcovered hwritten fun b hb hmem => (hfile b hmem).resolve_right ?_
    omega
  refine h.ownerStep hg (h.ordered.of_marks hmarks hwritten fun b hb => ?_) (by rwa [hdirty]) (hsame.trans (by rw [hsame])) ?_ (fun g hgen => ?_)
    hreplacing
  · rcases hfile b hb with hold | ⟨-,hlt⟩
    · exact LT.lt.trans_le (h.ordered.file_lt b hold) hwritten
    · exact hlt
  · rw [congrArg State.syncedGen hsame,hdirty]
    exact ⟨h.synced_le,h.synced.grows h.ordered hg h.synced_le⟩
  · rw [hdirty]
    exact h.deferred_le g (hdeferred g hgen)

lemma mem_spill (hb : b ∈ (s.spill n).file) :
    b ∈ s.file ∨ s.written ≤ b ∧ b < s.written+n := by
  rcases mem_append.mp hb with hold | hnew
  · exact .inl hold
  · obtain ⟨hge,hlt⟩ := mem_range'_1.mp hnew
    exact .inr ⟨hge,hlt⟩

lemma cutAll_next (h : Inv s) : Next s s.cutAll := by
  have hnew : ∀ b ∈ s.cutAll.file, s.written ≤ b ∧ b < s.written+s.buffered := by
    intro b hb
    exact (mem_spill (show b ∈ (State.spill {s with file := []} s.buffered).file from hb)).resolve_left nofun
  refine h.ownerQuiet (le_add_right _ _) (.refl s) (fun b hb => .inr (hnew b hb)) (.inl rfl)
    rfl (fun _ hg => hg) (fun _ _ b hb => .inr (fun hmem => ?_))
  -- every registered byte has left the file
  have hle : s.mark s.dirtyGen ≤ s.written := h.ordered.mark_le
  have hge := (hnew b hmem).1
  have hlt : b < s.mark s.dirtyGen := hb
  omega

lemma mark_register (s : State) (ht : t.marks = s.marks++[s.written]) :
    (∀ g ≤ s.dirtyGen, t.mark g = s.mark g) ∧ t.mark (s.dirtyGen+1) = s.written := by
  refine ⟨fun g hg => ?_,?_⟩
  · have hlt : g < (0::s.marks).length := lt_succ_of_le hg
    rw [mark,mark,ht,← cons_append,getD_eq_getElem?_getD,getElem?_append_left hlt,
      getD_eq_getElem?_getD]
  · simp [mark,ht,dirtyGen]

lemma registerStep_next (h : Inv s) (how : How) : Next s (registerStep s how) := by
  have hmarks : (registerStep s how).marks = s.marks++[s.written] := by cases how <;> rfl
  have hwritten : (registerStep s how).written = s.written := by cases how <;> rfl
  have hfile : (registerStep s how).file = s.file := by cases how <;> rfl
  have hcovered : Covers s (registerStep s how) := by cases how <;> exact .refl s
  obtain ⟨hold,hnew⟩ := mark_register s hmarks
  have hdirty : (registerStep s how).dirtyGen = s.dirtyGen+1 := by
    rw [dirtyGen,hmarks,length_append,length_singleton,dirtyGen]
  have hg : Grows s (registerStep s how) :=
    ⟨by omega,hold,hcovered,hwritten.ge,fun b _ hb => hfile ▸ hb⟩
  have hordered : Ordered (registerStep s how) := by
    refine ⟨fun g g' hle hg' => ?_,?_,?_⟩
    · rcases lt_or_ge s.dirtyGen g' with hlt | hge
      · obtain rfl : g' = s.dirtyGen+1 := by omega
        rw [hnew]
        rcases lt_or_ge s.dirtyGen g with hgt | hge
        · obtain rfl : g = s.dirtyGen+1 := by omega
          exact hnew.le
        · rw [hold g hge]
          exact h.ordered.le hge
      · rw [hold g' hge,hold g (by omega)]
        exact h.ordered.mono g g' hle hge
    · exact le_of_eq (by rw [hdirty,hnew,hwritten])
    · rw [hfile,hwritten]
      exact h.ordered.file_lt
  have hsynced : (registerStep s how).syncedGen = s.syncedGen := by cases how <;> rfl
  refine h.ownerStep hg hordered ?_ (by cases how <;> rfl) ?_ ?_ ?_
  · cases how with
    | inline => exact .inr ⟨s.dirtyGen+1,hdirty.ge,by simp [registerStep,enter,dirtyGen]⟩
    | _ => exact .inl rfl
  · rw [hsynced]
    exact ⟨h.synced_le.trans hg.dirty,h.synced.grows h.ordered hg h.synced_le⟩
  · intro g hgen
    cases how with
    | deferred =>
      cases hgen
      exact le_rfl
    | _ => exact le_trans (h.deferred_le g hgen) hg.dirty
  · intro n hn
    cases how <;> cases hn

lemma inv_opened (n : ℕ) : Inv (opened n) where
  ordered := by
    refine ⟨fun g g' hle hg' => ?_,zero_le _,fun b hb => mem_range.mp hb⟩
    obtain rfl : g' = 0 := le_zero.mp hg'
    obtain rfl : g = 0 := le_zero.mp hle
    exact le_rfl
  synced_le := le_rfl
  synced := fun b hb => absurd hb (not_lt_zero b)
  deferred_le := nofun
  replacing := nofun
  calls := fun i x hx => by simp [opened] at hx
  flusher := trivial
  flusher_calm := nofun
  latched := nofun

lemma step_next (h : Inv s) (hcalm : Calm s a) (hstep : step s a = some t) : Next s t := by
  cases a with
  | append bytes spilled =>
    obtain ⟨hok,⟨⟩⟩ := ite_none_right_eq_some.mp hstep
    refine h.ownerQuiet (le_add_right _ _) (.refl s) (fun b hb => mem_spill hb) (.inl rfl)
      rfl (fun _ hg => hg) (fun n (hn : s.owner = .replacing n) => ?_)
    rw [hok.1] at hn
    cases hn
  | flush how =>
    obtain ⟨hok,⟨⟩⟩ := ite_none_right_eq_some.mp hstep
    exact h.ownerQuiet le_rfl (.refl s) (fun b hb => .inl hb) (.inl rfl) rfl
      (fun _ hg => hg) nofun
  | syncBeforeHeapFlush =>
    obtain ⟨hok,⟨⟩⟩ := ite_none_right_eq_some.mp hstep
    exact h.ownerQuiet le_rfl (.refl s) (fun b hb => .inl hb) (.inr ⟨_,le_rfl,rfl⟩)
      rfl (fun _ hg => hg) nofun
  | write =>
    simp only [step] at hstep
    split at hstep
    · cases hstep
      exact h.ownerQuiet (le_add_right _ _) (.refl s) (fun b hb => mem_spill hb) (.inl rfl)
        rfl (fun _ hg => hg) nofun
    · cases hstep
  | register =>
    simp only [step] at hstep
    split at hstep
    · cases hstep
      exact registerStep_next h _
    · cases hstep
  | takeTicket =>
    simp only [step] at hstep
    split_ifs at hstep with hidle
    obtain ⟨gen,hgen,rfl⟩ := map_eq_some_iff.mp hstep
    refine h.ownerQuiet le_rfl (.refl s) (fun b hb => .inl hb) (.inr ⟨_,h.deferred_le gen hgen,rfl⟩)
      rfl nofun (fun n (hn : s.owner = .replacing n) => ?_)
    rw [hidle] at hn
    cases hn
  | truncate =>
    simp only [step] at hstep
    split_ifs at hstep with hidle
    cases hdef : s.deferredGen with
    | none =>
      simp only [hdef] at hstep
      exact some.inj hstep ▸ cutAll_next h
    | some gen =>
      simp only [hdef] at hstep
      cases hstep
      exact h.ownerQuiet le_rfl (.refl s) (fun b hb => .inl hb) (.inr ⟨_,h.deferred_le gen hdef,rfl⟩)
        rfl nofun nofun
  | discardAndTruncateTo len | discardPending =>
    obtain ⟨hidle,⟨⟩⟩ := ite_none_right_eq_some.mp hstep
    exact h.ownerQuiet le_rfl (.refl s) (fun b hb => .inl (mem_of_mem_take hb)) (.inl rfl)
      rfl (fun _ hg => hg) nofun
  | discardSync ok =>
    obtain ⟨rfl,hsettled⟩ := hcalm
    simp only [step] at hstep
    split at hstep
    · cases hstep
      refine h.ownerQuiet le_rfl (covers_endFsync s true _) (fun b hb => .inl hb) (.inl rfl)
        rfl nofun (fun _ _ b hb => ?_)
      cases hf : s.failed with
      | false =>
        exact .inl (LT.lt.trans_le (lt_of_lt_of_le hb h.ordered.mark_le) (begun_le_endFsync hf _))
      | true =>
        by_cases hmem : b ∈ s.file
        · exact .inl (LT.lt.trans_le (hsettled hf b hmem hb) (covers_endFsync s true _).1)
        · exact .inr hmem
    · cases hstep
  | replaceFile =>
    simp only [step] at hstep
    split at hstep
    · rename_i n howner
      split_ifs at hstep with hfree
      cases hstep
      exact h.ownerStep (.of_marks rfl (.refl s) le_rfl fun _ _ hb => hb)
        ⟨h.ordered.mono,h.ordered.mark_le,h.ordered.file_lt⟩
        (.inl rfl) rfl
        (h.synced_max le_rfl (h.replacing n howner)) h.deferred_le nofun
    · cases hstep
  | resume =>
    simp only [step] at hstep
    split at hstep
    · split at hstep
      · cases hstep
        split
        · exact cutAll_next h
        · exact h.ownerQuiet le_rfl (.refl s) (fun b hb => .inl hb) (.inl rfl)
            rfl (fun _ hg => hg) nofun
      · cases hstep
    · cases hstep
  | call i ok =>
    obtain ⟨⟨gen,p⟩,hi,hstep⟩ := bind_eq_some_iff.mp hstep
    exact callStep_next h hcalm hi hstep
  | flusher ok => exact flusherStep_next h hcalm hstep
  | startFlusher =>
    simp only [step] at hstep
    split at hstep
    · rename_i ok hfl
      cases hstep
      exact h.flusherMove rfl (.refl s) trivial nofun ⟨h.synced_le,h.synced⟩ .inl
        (fun hf => .inr (.inr ⟨hf,by rw [hfl]; nofun,rfl⟩))
    · cases hstep
  | stopFlusher =>
    obtain ⟨hfl,⟨⟩⟩ := ite_none_right_eq_some.mp hstep
    exact h.flusherMove rfl (.refl s) trivial nofun ⟨h.synced_le,h.synced⟩ .inl
      (fun hf => .inr (.inr ⟨hf,by rw [hfl]; nofun,rfl⟩))

/-- In a run whose steps are all calm, a wait that has returned Ok is about bytes that an fsync
begun after they were written has covered before any failure, or that left the log; and what is
reported after a failure was covered before it, or left the log. -/
theorem group_commit_durable (n : ℕ) {as : List Action} {s : State} (hcalm : Meets step Calm (opened n) as)
    (hrun : runSteps step (opened n) as = some s) :
    (∀ i : ℕ, ∀ gen, s.calls[i]? = some (gen,.returned true) → Settled s gen) ∧
    (s.failed = true → ∀ later t, Meets step Calm s later → runSteps step s later = some t →
      ∀ i : ℕ, ∀ gen, t.calls[i]? = some (gen,.returned true) → ∀ b < t.mark gen, b < s.covered ∨ b ∉ t.file) := by
  have h : Inv s := runSteps_inv (fun _ _ _ h hc hs => (step_next h hc hs).1) (inv_opened n) hcalm hrun
  refine ⟨fun i gen hi => (h.calls i _ hi).settled rfl,fun hf later t hlater hrun i gen hi => ?_⟩
  obtain ⟨ht,-,hcov⟩ : Inv t ∧ t.failed = true ∧ t.covered = s.covered := by
    refine @runSteps_inv State Action step Calm (fun u => Inv u ∧ u.failed = true ∧ u.covered = s.covered) ?_
      s t later ⟨h,hf,rfl⟩ hlater hrun
    intro u a u' hu hc hstep
    obtain ⟨hu',hg⟩ := step_next hu.1 hc hstep
    obtain ⟨hf',hc'⟩ := hg.covered.2 hu.2.1
    exact ⟨hu',hf',hc'.trans hu.2.2⟩
  rw [← hcov]
  exact (ht.calls i _ hi).settled rfl

section examples

instance (s : State) (ok : Bool) (p : Phase) : Decidable (CallCalm s ok p) := by
  cases p <;> unfold CallCalm <;> infer_instance

instance (s : State) (ok : Bool) (p : Phase) : Decidable (FlusherCalm s ok p) := by
  cases p <;> unfold FlusherCalm <;> infer_instance

instance (s : State) (a : Action) : Decidable (Calm s a) := by
  cases a <;> unfold Calm <;> infer_instance

/-- One commit of three bytes whose ticket is taken. -/
def deferredCommit : List Action := [.append 3 0,.flush .deferred,.write,.register,.takeTicket]

/-- A call that finds itself uncovered takes the lock and fsyncs. -/
def lead (i : ℕ) (ok : Bool) : List Action := List.replicate 8 (.call i ok)

theorem deferredCommit_durable : ∃ s, runSteps step (opened 2) (deferredCommit++lead 0 true) = some s ∧
    s.calls = [(1,.returned true)] ∧ Settled s 1 := by
  have hcalls : (runSteps step (opened 2) (deferredCommit++lead 0 true)).map (·.calls) =
      some [(1,.returned true)] := by
    decide +kernel
  obtain ⟨s,hrun,hs⟩ := map_eq_some_iff.mp hcalls
  refine ⟨s,hrun,hs,(group_commit_durable 2 (by decide +kernel) hrun).1 0 1 ?_⟩
  rw [hs]
  rfl

/-- Two commits wait; the fsync of the first fails and poisons the log; a rollback that keeps both
settles them, and the second reports its bytes durable. -/
def rollbackAfterFailure : List Action :=
  deferredCommit++deferredCommit++lead 0 false++[.discardAndTruncateTo 6,.discardSync true,.replaceFile,.call 1 true]

/-- The fsync of a rollback fails without poisoning the log, and the next fsync is believed. -/
def failedRollback : List Action := deferredCommit++[.discardAndTruncateTo 3,.discardSync false]++lead 0 true

/-- The fsync of the flusher fails, and a leader gets through before the flusher sets the latch. -/
def overtakenFlusher : List Action :=
  .startFlusher::deferredCommit++List.replicate 4 (.flusher false)++lead 0 true

theorem undurable_commit_acknowledged :
    (runSteps step (opened 0) rollbackAfterFailure).map (fun s => (s.calls,s.file,s.mark 2,s.covered)) =
      some ([(1,.returned false),(2,.returned true)],[0,1,2,3,4,5],6,0) ∧
    (runSteps step (opened 0) failedRollback).map (fun s => (s.calls,s.file,s.mark 1,s.covered)) =
      some ([(1,.returned true)],[0,1,2],3,0) ∧
    (runSteps step (opened 0) overtakenFlusher).map (fun s => (s.calls,s.file,s.mark 1,s.covered)) =
      some ([(1,.returned true)],[0,1,2],3,0) :=
  ⟨by decide +kernel,by decide +kernel,by decide +kernel⟩

end examples

end PowDB.Storage.GroupCommit
