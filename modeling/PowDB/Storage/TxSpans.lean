import PowDB.Storage.RowFormat
import Mathlib

/-! The transaction filter of recovery against the spans of the log. A row record belongs
to the innermost open span of its transaction; the span ends at the first later marker
that closes more spans of that transaction than have been opened since. -/
namespace PowDB.Storage
open List WalRecordType
variable {i : ℕ}

/-- A marker of `tx` that closes a span. -/
def WalRecord.closes (tx : ℕ) (rec : WalRecord) : Bool :=
  rec.tx = tx && (rec.type = .commit || rec.type = .rollback)

def WalRecord.opens (tx : ℕ) (rec : WalRecord) : Bool := rec.tx = tx && rec.type = .begin

/-- The span of `tx` that is innermost before `rest` is closed in `rest` by a marker of this type:
before the marker every span opened in `rest` was closed, and none of the closings was of the span itself. -/
def SpanClosedBy (tx : ℕ) (marker : WalRecordType) (rest : List WalRecord) : Prop :=
  ∃ mid m post, rest = mid++m::post ∧ m.tx = tx ∧ m.type = marker ∧
    mid.countP (·.closes tx) = mid.countP (·.opens tx) ∧
    ∀ part, part <+: mid → part.countP (·.closes tx) ≤ part.countP (·.opens tx)

/-- Where a span stands after part of the log: open with `depth` spans inside it, or closed. -/
inductive SpanState
  | running (depth : ℕ)
  | closed (marker : WalRecordType)
  deriving DecidableEq

namespace SpanState
variable {tx : ℕ} {marker : WalRecordType} {rec : WalRecord}

def step (tx : ℕ) (s : SpanState) (rec : WalRecord) : SpanState :=
  match s with
  | closed m => closed m
  | running d =>
    if rec.opens tx then running (d+1)
    else if rec.closes tx then if d = 0 then closed rec.type else running (d-1)
    else running d

/-- The span of `tx` that is innermost before `rest`. -/
def after (tx : ℕ) (rest : List WalRecord) : SpanState := rest.foldl (step tx) (running 0)

lemma foldl_closed (tx : ℕ) (m : WalRecordType) (rest : List WalRecord) :
    rest.foldl (step tx) (closed m) = closed m := by
  induction rest with
  | nil => rfl
  | cons rec rest ih => exact ih

/-- `SpanClosedBy` with `d` spans already open inside the span. -/
def ClosedAt (tx d : ℕ) (marker : WalRecordType) (rest : List WalRecord) : Prop :=
  ∃ mid m post, rest = mid++m::post ∧ m.tx = tx ∧ m.type = marker ∧
    mid.countP (·.closes tx) = mid.countP (·.opens tx)+d ∧
    ∀ part, part <+: mid → part.countP (·.closes tx) ≤ part.countP (·.opens tx)+d

/-- A record that is not the closing one moves the depth from `d` to `d'`. -/
lemma closedAt_cons (hnot : rec.tx = tx → rec.type = marker → d ≠ 0)
    (hd : [rec].countP (·.closes tx)+d' = [rec].countP (·.opens tx)+d) :
    ClosedAt tx d marker (rec::rest) ↔ ClosedAt tx d' marker rest := by
  have hcons : ∀ part : List WalRecord,
      (rec::part).countP (·.closes tx)+d' = part.countP (·.closes tx)+[rec].countP (·.opens tx)+d ∧
      (rec::part).countP (·.opens tx) = part.countP (·.opens tx)+[rec].countP (·.opens tx) := by
    simp only [countP_cons,countP_nil] at hd ⊢
    omega
  constructor
  · rintro ⟨mid,m,post,hrest,htx,htype,hcount,hpre⟩
    cases mid with
    | nil =>
      obtain ⟨rfl,rfl⟩ := cons.inj hrest
      simp only [countP_nil] at hcount
      exact absurd (by omega) (hnot htx htype)
    | cons r mid =>
      obtain ⟨rfl,rfl⟩ := cons.inj hrest
      refine ⟨mid,m,post,rfl,htx,htype,?_,fun part hpart => ?_⟩
      · have := hcons mid
        omega
      · have := hpre (rec::part) (cons_prefix_cons.mpr ⟨rfl,hpart⟩)
        have := hcons part
        omega
  · rintro ⟨mid,m,post,rfl,htx,htype,hcount,hpre⟩
    refine ⟨rec::mid,m,post,rfl,htx,htype,?_,fun part hpart => ?_⟩
    · have := hcons mid
      omega
    · cases part with
      | nil => simp
      | cons r part =>
        obtain ⟨rfl,hmid⟩ := cons_prefix_cons.mp hpart
        have := hpre part hmid
        have := hcons part
        omega

open WalRecord

lemma foldl_eq_closed (hm : marker = .commit ∨ marker = .rollback) (rest : List WalRecord) (d : ℕ) :
    rest.foldl (step tx) (running d) = closed marker ↔ ClosedAt tx d marker rest := by
  induction rest generalizing d with
  | nil => simp [ClosedAt]
  | cons rec rest ih =>
    simp only [foldl_cons,step]
    by_cases hopen : rec.opens tx = true
    · have htype : rec.tx = tx ∧ rec.type = .begin := by simpa [opens] using hopen
      have hclose : rec.closes tx = false := by simp [closes,htype.2]
      rw [if_pos hopen,ih]
      refine (closedAt_cons (fun _ h => ?_) (by simp [hopen,hclose]; omega)).symm
      rw [htype.2] at h
      rcases hm with hm | hm <;> simp [hm] at h
    rw [if_neg hopen]
    by_cases hclose : rec.closes tx = true
    · rw [if_pos hclose]
      cases d with
      | zero =>
        rw [if_pos rfl,foldl_closed]
        constructor
        · intro h
          have htx : rec.tx = tx := by
            simp only [closes,Bool.and_eq_true,decide_eq_true_eq] at hclose
            exact hclose.1
          exact ⟨[],rec,rest,rfl,htx,closed.inj h,rfl,by simp⟩
        · rintro ⟨mid,m,post,hrest,-,htype,-,hpre⟩
          cases mid with
          | nil =>
            obtain ⟨rfl,-⟩ := cons.inj hrest
            rw [htype]
          | cons r mid =>
            obtain ⟨rfl,-⟩ := cons.inj hrest
            have := hpre [rec] (cons_prefix_cons.mpr ⟨rfl, nil_prefix⟩)
            simp [hopen,hclose] at this
      | succ d =>
        rw [if_neg (Nat.succ_ne_zero d),Nat.add_sub_cancel,ih]
        exact (closedAt_cons (fun _ _ => by omega) (by simp [hopen,hclose]; omega)).symm
    · rw [if_neg hclose,ih]
      refine (closedAt_cons (fun htx h => ?_) (by simp [hopen,hclose])).symm
      rcases hm with rfl | rfl <;> simp [closes,htx,h] at hclose

lemma after_eq_closed (hm : marker = .commit ∨ marker = .rollback) (rest : List WalRecord) :
    after tx rest = closed marker ↔ SpanClosedBy tx marker rest :=
  foldl_eq_closed hm rest 0

/-- Records that are no marker of the transaction leave its spans alone. -/
lemma step_other (s : SpanState) (h : rec.tx = tx → rec.type.isBoundary = false) : step tx s rec = s := by
  obtain ⟨l,t,type⟩ := rec
  cases s with
  | closed m => rfl
  | running d =>
    by_cases ht : t = tx
    · cases type <;> simp_all [step,opens,closes,isBoundary]
    · simp [step,opens,closes,ht]

/-- Where a span came from that is open after a record of its transaction. -/
lemma step_eq_running (h : rec.tx = tx) : step tx st rec = running d ↔
      match rec.type with
      | .begin => ∃ d₀, d = d₀+1 ∧ st = running d₀
      | .commit | .rollback => st = running (d+1)
      | _ => st = running d := by
  obtain ⟨l,t,type⟩ := rec
  subst h
  cases st with
  | closed m => cases type <;> simp [step]
  | running d₀ =>
    cases type <;> simp [step,opens,closes]
    · omega
    all_goals
      split_ifs
      · simp; omega
      · simp; omega

lemma step_eq_commit : step tx st rec = closed .commit ↔
      st = closed .commit ∨ st = running 0 ∧ rec.tx = tx ∧ rec.type = .commit := by
  obtain ⟨l,t,type⟩ := rec
  cases st with
  | closed m => simp [step]
  | running d =>
    by_cases ht : t = tx
    · subst ht
      cases type <;> simp [step,opens,closes]
      all_goals by_cases hd : d = 0 <;> simp [hd]
    · simp [step,opens,closes,ht]

end SpanState

lemma isBoundary_of_isRow {type : WalRecordType} (h : type.isRow = true) : type.isBoundary = false := by
  cases type <;> first | rfl | cases h

variable {log : List WalRecord} {rec : WalRecord}

namespace TxScan
variable {tx : ℕ} {spans : List (ℕ × List ℕ)} {s : TxScan}

/-- The open spans of one transaction, the newest first. -/
def own (tx : ℕ) (spans : List (ℕ × List ℕ)) : List (List ℕ) := (spans.filter (·.1 = tx)).map (·.2)

@[simp] lemma own_nil (tx : ℕ) : own tx [] = [] := rfl

@[simp] lemma own_cons (tx t : ℕ) (rows : List ℕ) (spans : List (ℕ × List ℕ)) :
    own tx ((t,rows)::spans) = if t = tx then rows::own tx spans else own tx spans := by
  by_cases h : t = tx <;> simp [own,h]

/-- A row put with its transaction. -/
def putRow (i : ℕ) : List (List ℕ) → List (List ℕ)
  | [] => [[i]]
  | rows::rest => (i::rows)::rest

lemma own_addRow (tx i : ℕ) (spans : List (ℕ × List ℕ)) :
    match addRow tx i spans with
    | none => own tx spans = []
    | some new => own tx new = putRow i (own tx spans) ∧ ∀ t, t ≠ tx → own t new = own t spans := by
  induction spans with
  | nil => rfl
  | cons span spans ih =>
    obtain ⟨t,rows⟩ := span
    rw [addRow]
    by_cases ht : t = tx
    · rw [if_pos ht]
      exact ⟨by simp [ht,putRow],fun t' ht' => by simp [ht,ht'.symm]⟩
    · rw [if_neg ht]
      cases hadd : addRow tx i spans with
      | none =>
        rw [hadd] at ih
        simpa [ht] using ih
      | some new =>
        rw [hadd] at ih
        exact ⟨by simpa [ht] using ih.1,fun t' ht' => by simp [ih.2 t' ht']⟩

lemma own_takeSpan (tx : ℕ) (spans : List (ℕ × List ℕ)) :
    match takeSpan tx spans with
    | none => own tx spans = []
    | some (rows,rest) => own tx spans = rows::own tx rest ∧ ∀ t, t ≠ tx → own t rest = own t spans := by
  induction spans with
  | nil => rfl
  | cons span spans ih =>
    obtain ⟨t,rows⟩ := span
    rw [takeSpan]
    by_cases ht : t = tx
    · rw [if_pos ht]
      exact ⟨by simp [ht],fun t' ht' => by simp [ht,ht'.symm]⟩
    · rw [if_neg ht]
      cases htake : takeSpan tx spans with
      | none =>
        rw [htake] at ih
        simpa [ht] using ih
      | some taken =>
        rw [htake] at ih
        exact ⟨by simpa [ht] using ih.1,fun t' ht' => by simp [ih.2 t' ht']⟩

/-- What a record does to the open spans of its transaction. -/
def advance (n : ℕ) (type : WalRecordType) (spans : List (List ℕ)) : List (List ℕ) :=
  match type with
  | .begin => []::spans
  | .commit | .rollback => spans.tail
  | type => if type.isRow then putRow n spans else spans

lemma advance_row (h : type.isRow = true) (n : ℕ) (spans : List (List ℕ)) :
    advance n type spans = putRow n spans := by
  cases type <;> first | rfl | cases h

lemma own_step (n : ℕ) (ht : t ≠ 0) :
    own t (s.step n rec).spans = if rec.tx = t then advance n rec.type (own t s.spans) else own t s.spans := by
  obtain ⟨l,tx,type⟩ := rec
  by_cases htx : tx = 0
  · subst htx
    rw [if_neg ht.symm]
    simp only [step]
    split_ifs <;> rfl
  have hadd := own_addRow tx n s.spans
  have htake := own_takeSpan tx s.spans
  cases type
  case begin => simp [step,isRow,htx,advance]
  case commit | rollback =>
    simp only [step,isRow,Bool.false_eq_true,if_false,htx,advance]
    revert htake
    cases takeSpan tx s.spans <;> intro htake <;> dsimp only at htake <;> split_ifs with h
    · simp [← h,htake]
    · rfl
    · simp [← h,htake.1]
    · exact htake.2 t (Ne.symm h)
  case insert | update | delete | overflowWrite | overflowFree =>
    simp only [step,isRow,if_true,htx,if_false,advance]
    revert hadd
    cases addRow tx n s.spans <;> intro hadd <;> dsimp only at hadd <;> split_ifs with h
    · simp [← h,hadd,putRow]
    · simp [h]
    · exact h ▸ hadd.1
    · exact hadd.2 t (Ne.symm h)
  all_goals simp [step,isRow,htx,advance]

/-- A row joins the innermost span of its transaction. -/
lemma mem_putRow {spans : List (List ℕ)} : (∃ rows, (putRow i spans)[d]? = some rows ∧ j ∈ rows) ↔
      (∃ rows, spans[d]? = some rows ∧ j ∈ rows) ∨ j = i ∧ d = 0 := by
  cases spans with
  | nil => cases d <;> simp [putRow]
  | cons rows spans =>
    cases d with
    | zero => simp [putRow,or_comm]
    | succ d => simp [putRow]

/-- Record `i` is in the open span of `t` with `d` spans inside it. -/
def Waits (s : TxScan) (i t d : ℕ) : Prop := ∃ rows, (own t s.spans)[d]? = some rows ∧ i ∈ rows

lemma mem_committed_step (hne : i ≠ n) : i ∈ (s.step n rec).committed ↔
    i ∈ s.committed ∨ rec.tx ≠ 0 ∧ rec.type = .commit ∧ Waits s i rec.tx 0 := by
  obtain ⟨l,tx,type⟩ := rec
  have htake := own_takeSpan tx s.spans
  by_cases htx : tx = 0
  · simp only [step,htx]
    split_ifs <;> simp [hne]
  cases type
  case commit =>
    simp only [step,WalRecordType.isRow,Bool.false_eq_true,if_false,htx,Waits]
    revert htake
    cases takeSpan tx s.spans <;> intro htake <;> dsimp only at htake
    · simp [htake]
    · simp [htake.1,htx,or_comm]
  case rollback =>
    simp only [step,WalRecordType.isRow,Bool.false_eq_true,if_false,htx]
    split <;> simp
  all_goals simp [step,WalRecordType.isRow,htx]

/-- Record `i` is where a row of `tx` belongs whose span stands so; one that is closed by no Commit is nowhere. -/
structure Fate (tx i : ℕ) (s : TxScan) (st : SpanState) : Prop where
  committed : i ∈ s.committed ↔ st = .closed .commit
  waits : ∀ t, t ≠ 0 → ∀ d, Waits s i t d ↔ t = tx ∧ st = .running d


lemma Fate.step {n : ℕ} (h : Fate tx i s st) (hne : i ≠ n) (htx : tx ≠ 0) : Fate tx i (s.step n rec) (st.step tx rec) := by
  refine ⟨?_,fun t ht d => ?_⟩
  · rw [mem_committed_step hne,SpanState.step_eq_commit,h.committed]
    refine or_congr_right ⟨?_,?_⟩
    · rintro ⟨hne,htype,hw⟩
      obtain ⟨heq,hst⟩ := (h.waits _ hne 0).mp hw
      exact ⟨hst,heq,htype⟩
    · rintro ⟨hst,heq,htype⟩
      exact ⟨heq ▸ htx,htype,(h.waits _ (heq ▸ htx) 0).mpr ⟨heq,hst⟩⟩
  · rw [Waits,own_step n ht]
    by_cases hrt : rec.tx = t
    · rw [if_pos hrt,and_congr_right fun htt => SpanState.step_eq_running (hrt.trans htt)]
      have hwaits := h.waits t ht
      cases rec.type
      case begin =>
        cases d with
        | zero => simp [advance]
        | succ d => simpa [advance,Waits] using hwaits d
      case commit | rollback => simpa [advance,Waits] using hwaits (d+1)
      case insert | update | delete | overflowWrite | overflowFree =>
        simp only [advance,WalRecordType.isRow,if_true,mem_putRow,hne,false_and,or_false]
        exact hwaits d
      all_goals exact hwaits d
    · rw [if_neg hrt]
      refine (h.waits t ht d).trans (and_congr_right fun htt => ?_)
      rw [SpanState.step_other _ fun heq => absurd (heq.trans htt.symm) hrt]

lemma Fate.run (h : Fate tx i s st) (htx : tx ≠ 0) (rest : List WalRecord) (hne : i < n ∨ n+rest.length ≤ i) :
    Fate tx i (run n s rest) (rest.foldl (SpanState.step tx) st) := by
  induction rest generalizing n s st with
  | nil => exact h
  | cons rec rest ih =>
    rw [length_cons] at hne
    exact ih (h.step (by omega) htx) (by omega)

/-- The first pass commits the rows of transaction 0 and those whose span a Commit closes. -/
lemma mem_committed_run (hi : log[i]? = some rec) (hrow : rec.type.isRow = true) :
    i ∈ (run 0 ⟨[],[]⟩ log).committed ↔ rec.tx = 0 ∨ SpanClosedBy rec.tx .commit (log.drop (i+1)) := by
  obtain ⟨hlt,hrec⟩ := List.getElem?_eq_some_iff.mp hi
  have hrun : run 0 ⟨[],[]⟩ log = run (i+1) ((run 0 ⟨[],[]⟩ (log.take i)).step i rec) (log.drop (i+1)) := by
    conv_lhs => rw [← List.take_append_drop i log,List.drop_eq_getElem_cons hlt,hrec,run_append]
    simp [run,Nat.min_eq_left (Nat.le_of_lt hlt)]
  have hfresh : ∀ tx, tx ≠ 0 → Fate tx i (run 0 ⟨[],[]⟩ (log.take i)) (.closed .rollback) := by
    intro tx htx
    have hnil : Fate tx i ⟨[],[]⟩ (.closed .rollback) := ⟨by simp,fun t _ d => by simp [Waits]⟩
    simpa [SpanState.foldl_closed] using hnil.run htx (log.take i) (.inr (by simp))
  rw [hrun]
  by_cases htx : rec.tx = 0
  · have h := hfresh 1 one_ne_zero
    have hnew : Fate 1 i ((run 0 ⟨[],[]⟩ (log.take i)).step i rec) (.closed .commit) := by
      simp only [step,hrow,htx,if_true]
      exact ⟨by simp,fun t ht d => by simpa [Waits] using h.waits t ht d⟩
    simpa [htx,SpanState.foldl_closed] using (hnew.run one_ne_zero _ (.inl (Nat.lt_succ_self i))).committed
  · have h := hfresh rec.tx htx
    have hnew : Fate rec.tx i ((run 0 ⟨[],[]⟩ (log.take i)).step i rec) (.running 0) := by
      refine ⟨by simpa [step,hrow,htx] using h.committed,fun t ht d => ?_⟩
      have hw : ¬Waits (run 0 ⟨[],[]⟩ (log.take i)) i t d := fun hw => by cases ((h.waits t ht d).mp hw).2
      rw [Waits,own_step i ht]
      by_cases hrt : rec.tx = t
      · rw [if_pos hrt,advance_row hrow,mem_putRow]
        refine (or_iff_right hw).trans ?_
        simp [hrt,eq_comm]
      · rw [if_neg hrt]
        exact iff_of_false hw fun heq => hrt heq.1.symm
    rw [(hnew.run htx _ (.inl (Nat.lt_succ_self i))).committed,← SpanState.after_eq_closed (.inl rfl)]
    simp [htx,SpanState.after]

end TxScan

instance (tx : ℕ) (rest : List WalRecord) : Decidable (SpanClosedBy tx .commit rest) :=
  decidable_of_iff _ (SpanState.after_eq_closed (.inl rfl) rest)

/-- A row record followed by `rest` whose span no Commit closes. -/
def Lost (rec : WalRecord) (rest : List WalRecord) : Prop :=
  rec.type.isRow = true ∧ rec.tx ≠ 0 ∧ ¬SpanClosedBy rec.tx .commit rest

instance (rec : WalRecord) (rest : List WalRecord) : Decidable (Lost rec rest) :=
  inferInstanceAs (Decidable (_ ∧ _ ∧ _))

/-- The log without the rows of transactions that were rolled back or never finished. -/
def withoutLost : List WalRecord → List WalRecord
  | [] => []
  | rec::rest => if Lost rec rest then withoutLost rest else rec::withoutLost rest

/-- The decision of the first pass. -/
lemma replayed_iff (hmark : log.any (·.type.isBoundary) = true)
    (hi : log[i]? = some rec) : replayed log i rec = true ↔ ¬Lost rec (log.drop (i+1)) := by
  by_cases hrow : rec.type.isRow = true
  · have h := TxScan.mem_committed_run hi hrow
    simp only [replayed,hmark,hrow,Bool.not_true,Bool.false_or,decide_eq_true_eq,Lost]
    tauto
  · simp [replayed,Lost,hrow]

lemma after_withoutLost (tx : ℕ) (rest : List WalRecord) (s : SpanState) :
    (withoutLost rest).foldl (SpanState.step tx) s = rest.foldl (SpanState.step tx) s := by
  induction rest generalizing s with
  | nil => rfl
  | cons rec rest ih =>
    rw [withoutLost]
    by_cases h : Lost rec rest
    · rw [if_pos h,ih,List.foldl_cons,SpanState.step_other]
      exact fun _ => isBoundary_of_isRow h.1
    · rw [if_neg h,foldl_cons,foldl_cons,ih]

lemma lost_withoutLost (rec : WalRecord) (rest : List WalRecord) :
    Lost rec (withoutLost rest) ↔ Lost rec rest := by
  have h : SpanClosedBy rec.tx .commit (withoutLost rest) ↔ SpanClosedBy rec.tx .commit rest := by
    rw [← SpanState.after_eq_closed (.inl rfl),← SpanState.after_eq_closed (.inl rfl),
      SpanState.after,after_withoutLost,SpanState.after]
  rw [Lost,h,Lost]

lemma withoutLost_idem (log : List WalRecord) : withoutLost (withoutLost log) = withoutLost log := by
  induction log with
  | nil => rfl
  | cons rec rest ih =>
    rw [withoutLost]
    by_cases h : Lost rec rest
    · rw [if_pos h,ih]
    · rw [if_neg h,withoutLost,if_neg (mt (lost_withoutLost rec rest).mp h),ih]

lemma withoutLost_marked (hmark : log.any (·.type.isBoundary) = true) :
    (withoutLost log).any (·.type.isBoundary) = true := by
  induction log with
  | nil => exact hmark
  | cons rec rest ih =>
    rw [any_cons,Bool.or_eq_true] at hmark
    rw [withoutLost]
    by_cases h : Lost rec rest
    · rw [if_pos h]
      exact ih (hmark.resolve_left (by simp [isBoundary_of_isRow h.1]))
    · rw [if_neg h,any_cons,Bool.or_eq_true]
      exact hmark.imp id ih

lemma withoutLost_length_le (log : List WalRecord) : (withoutLost log).length ≤ log.length := by
  induction log with
  | nil => exact le_rfl
  | cons rec rest ih =>
    rw [withoutLost]
    split
    · exact Nat.le_succ_of_le ih
    · exact Nat.succ_le_succ ih

namespace Catalog
variable {α : Type} (codec : RowCodec α)

/-- A higher ceiling lets the same records through. -/
lemma replayRecord_mono (hle : ceiling ≤ ceiling') {c c' : Catalog}
    (h : c.replayRecord codec ceiling rec = some c') : c.replayRecord codec ceiling' rec = some c' := by
  obtain ⟨l,tx,type⟩ := rec
  have hpage : ∀ (page : ℕ) (x : Option Catalog),
      (if ceiling < page then none else x) = some c' → (if ceiling' < page then none else x) = some c' := by
    intro page x hx
    by_cases hp : ceiling < page
    · simp [hp] at hx
    · rw [if_neg hp] at hx
      rw [if_neg (by omega),hx]
  cases type with
  | insert t rid row | update t rid row | delete t rid | overflowWrite t i next chunk =>
    simp only [replayRecord] at h ⊢
    cases htbl : c.table t with
    | none => simpa [htbl] using h
    | some tbl =>
      simp only [htbl] at h ⊢
      exact hpage _ _ h
  | _ => exact h

/-- The second pass goes through the log without the lost rows. -/
lemma replayFrom_eq (hmark : log.any (·.type.isBoundary) = true) (ceiling : ℕ)
    (rest : List WalRecord) (i : ℕ) (hrest : log.drop i = rest) (c : Catalog) :
    c.replayFrom codec log ceiling i rest = (withoutLost rest).foldlM (replayRecord codec ceiling) c := by
  induction rest generalizing i c with
  | nil => rfl
  | cons rec rest ih =>
    have hi : log[i]? = some rec := by
      rw [← head?_drop,hrest,head?_cons]
    have hdrop : log.drop (i+1) = rest := by
      rw [← tail_drop,hrest,tail_cons]
    have hiff := replayed_iff hmark hi
    rw [hdrop] at hiff
    rw [replayFrom,withoutLost]
    by_cases hlost : Lost rec rest
    · rw [if_neg (mt hiff.mp (not_not_intro hlost)),if_pos hlost,← ih (i+1) hdrop]
      rfl
    · rw [if_pos (hiff.mpr hlost),if_neg hlost,foldlM_cons]
      congr 1
      funext c'
      exact ih (i+1) hdrop c'

lemma foldlM_mono (hle : ceiling ≤ ceiling') (log : List WalRecord) {c c' : Catalog}
    (h : log.foldlM (replayRecord codec ceiling) c = some c') :
    log.foldlM (replayRecord codec ceiling') c = some c' := by
  induction log generalizing c with
  | nil => exact h
  | cons rec rest ih =>
    obtain ⟨c₁,hc₁,h⟩ := Option.bind_eq_some_iff.mp h
    exact Option.bind_eq_some_iff.mpr ⟨c₁,replayRecord_mono codec hle hc₁,ih h⟩

/-- In a log with a transaction marker a row record under a transaction id is applied exactly when a
Commit closes its span; replay is replay of the other records, and gives what it would give had the
lost ones never been written. -/
theorem replay_filters_transactions (c : Catalog) (log : List WalRecord)
    (hmark : log.any (·.type.isBoundary) = true) :
    (∀ i rec, log[i]? = some rec → rec.type.isRow = true → rec.tx ≠ 0 →
      (replayed log i rec = true ↔ SpanClosedBy rec.tx .commit (log.drop (i+1)))) ∧
    c.replayRecords codec log =
      (withoutLost log).foldlM (replayRecord codec (c.replayPageCeiling log)) c ∧
    ∀ c', c.replayRecords codec (withoutLost log) = some c' → c.replayRecords codec log = some c' := by
  have hlog : c.replayRecords codec log =
      (withoutLost log).foldlM (replayRecord codec (c.replayPageCeiling log)) c :=
    replayFrom_eq codec hmark _ log 0 rfl c
  refine ⟨fun i rec hi hrow htx => ?_,hlog,fun c' h => ?_⟩
  · rw [replayed_iff hmark hi,Lost]
    simp only [hrow,htx,ne_eq,not_false_eq_true,true_and,not_not]
  · have hlost := replayFrom_eq codec (withoutLost_marked hmark) (c.replayPageCeiling (withoutLost log))
      (withoutLost log) 0 rfl c
    rw [replayRecords,hlost,withoutLost_idem] at h
    rw [hlog]
    refine foldlM_mono codec ?_ _ h
    have := withoutLost_length_le log
    simp only [replayPageCeiling]
    omega

section examples

def emptyTable : Catalog := ⟨[("T",⟨[],HeapFile.create⟩)],[("T",[])],[],0,1,none,[]⟩

def insertAs (lsn tx : ℕ) : WalRecord := ⟨lsn,tx,.insert "T" ⟨1,lsn⟩ ⟨[7],[]⟩⟩

/-- Id 1 is rolled back and used again while 2 never finishes. -/
def reusedId : List WalRecord :=
  [⟨1,1,.begin⟩,insertAs 2 1,⟨3,2,.begin⟩,insertAs 4 2,⟨5,1,.rollback⟩,⟨6,1,.begin⟩,insertAs 7 1,insertAs 8 2,
    ⟨9,1,.commit⟩]

theorem reusedId_keeps_second_span :
    replayed reusedId 1 (insertAs 2 1) = false ∧
    emptyTable.replayRecords inlineCodec reusedId =
      [⟨1,1,.begin⟩,⟨3,2,.begin⟩,⟨5,1,.rollback⟩,⟨6,1,.begin⟩,insertAs 7 1,⟨9,1,.commit⟩].foldlM
        (replayRecord inlineCodec (emptyTable.replayPageCeiling reusedId)) emptyTable := by
  obtain ⟨hrow,hreplay,-⟩ := replay_filters_transactions inlineCodec emptyTable reusedId (by decide)
  have hkept : withoutLost reusedId =
      [⟨1,1,.begin⟩,⟨3,2,.begin⟩,⟨5,1,.rollback⟩,⟨6,1,.begin⟩,insertAs 7 1,⟨9,1,.commit⟩] := by
    decide +kernel
  refine ⟨?_,by rw [hreplay,hkept]⟩
  rw [← Bool.not_eq_true,hrow 1 (insertAs 2 1) rfl rfl (by decide)]
  decide

end examples

end Catalog
end PowDB.Storage
