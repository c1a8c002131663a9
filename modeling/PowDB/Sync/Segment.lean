import PowDB.Lib.Consecutive
import PowDB.Lib.Outcome
import Mathlib

/-! Retained segments: immutable runs of replication units in LSN order, and the readers that
walk the files of the segment directory. LSNs are naturals with the overflow checks of `u64`. -/
namespace PowDB.Sync
open Lib List
def u64Max : ℕ := 2^64-1

/-- The newest catalog format this binary reads. -/
def catalogVersionMax : ℕ := 7

def walFormatVersion : ℕ := 1

structure SegmentIdentity where
  databaseId : List UInt8
  primaryGeneration : ℕ
  walFormat : ℕ
  catalogVersion : ℕ
  deriving DecidableEq

/-- The catalog version is an annotation that may grow along a chain, not lineage. -/
def SegmentIdentity.lineageMatches (a b : SegmentIdentity) : Bool :=
  a.databaseId == b.databaseId && a.primaryGeneration == b.primaryGeneration && a.walFormat == b.walFormat

structure RetainedUnit where
  txId : ℕ
  recordType : ℕ
  lsn : ℕ
  data : List UInt8
  deriving DecidableEq

/-- The errors of segments and their readers, with the numbers their texts carry. -/
inductive SyncError
  | zeroGeneration
  | zeroDatabaseId
  | unsupportedWalFormat
  | unsupportedCatalogVersion (version : ℕ)
  | emptySegment
  | tooManyUnits
  | zeroLsn
  | notContiguous
  | unknownRecordType
  | unitTooLarge
  | lsnOverflow
  | identityMismatch
  | catalogDecreased (before after : ℕ)
  | gap (expected found : ℕ)
  | overlap (expected found : ℕ)
  | unitGap (expected found : ℕ)
  | unitOverlap (expected found : ℕ)
  | missing (expected through : ℕ)
  | rebootstrapRequired
  | invalidReplicaId
  | duplicateReplicaId
  | remoteBehindSnapshot (remote snapshot : ℕ)
  | aheadOfRemote (applied remote : ℕ)
  | behindCursor (applied cursor : ℕ)
  | statusUnavailable
  | notFound
  | inactive
  | alreadyActive
  | zeroBoundary
  deriving DecidableEq

def validateIdentity (identity : SegmentIdentity) : Except SyncError Unit :=
  if identity.primaryGeneration = 0 then .error .zeroGeneration
  else if identity.databaseId = List.replicate 16 0 then .error .zeroDatabaseId
  else if identity.walFormat ≠ walFormatVersion then .error .unsupportedWalFormat
  else if identity.catalogVersion = 0 ∨ identity.catalogVersion > catalogVersionMax then
    .error (.unsupportedCatalogVersion identity.catalogVersion)
  else .ok ()

def isKnownRecordType (recordType : ℕ) : Bool := 1 ≤ recordType && recordType ≤ 10

def maxRetainedUnitDataSize : ℕ := 256*1024*1024

/-- The loop of `validate_units` at the LSN it expects next. -/
def validateUnitsFrom : ℕ → List RetainedUnit → Except SyncError Unit
  | _, [] => .ok ()
  | expected, unit::units =>
    if unit.lsn ≠ expected then .error .notContiguous
    else if !isKnownRecordType unit.recordType then .error .unknownRecordType
    else if unit.data.length > maxRetainedUnitDataSize then .error .unitTooLarge
    else if u64Max ≤ expected then .error .lsnOverflow
    else validateUnitsFrom (expected+1) units

def validateUnits : List RetainedUnit → Except SyncError Unit
  | [] => .error .emptySegment
  | unit::units =>
    if (unit::units).length > 2^32-1 then .error .tooManyUnits
    else if unit.lsn = 0 then .error .zeroLsn
    else validateUnitsFrom unit.lsn (unit::units)

/-- A segment that was built by `RetainedSegment::new` or read back from its file; both check it. -/
structure RetainedSegment where
  identity : SegmentIdentity
  units : List RetainedUnit
  identity_ok : validateIdentity identity = .ok ()
  units_ok : validateUnits units = .ok ()
  deriving DecidableEq

namespace RetainedSegment

/-- `RetainedSegment::new`. -/
def new (identity : SegmentIdentity) (units : List RetainedUnit) : Except SyncError RetainedSegment :=
  match hid : validateIdentity identity, hunits : validateUnits units with
  | .error e, _ => .error e
  | .ok _, .error e => .error e
  | .ok _, .ok _ => .ok ⟨identity,units,hid,hunits⟩

def startLsn (segment : RetainedSegment) : ℕ := (segment.units.head?.map RetainedUnit.lsn).getD 0

def endLsn (segment : RetainedSegment) : ℕ := (segment.units.getLast?.map RetainedUnit.lsn).getD 0

end RetainedSegment

variable {segments : List RetainedSegment} {units : List RetainedUnit}

lemma validateUnitsFrom_ok (h : validateUnitsFrom a units = .ok ()) :
    Consecutive RetainedUnit.lsn a units ∧ ∀ u ∈ units, u.lsn < u64Max := by
  induction units generalizing a with
  | nil => exact ⟨trivial,by simp⟩
  | cons u us ih =>
    unfold validateUnitsFrom at h
    split_ifs at h with hlsn _ _ hmax
    obtain ⟨hc,hb⟩ := ih h
    have hu : u.lsn = a := not_not.mp hlsn
    refine ⟨⟨hu,hc⟩,?_⟩
    intro v hv
    rcases mem_cons.mp hv with rfl | hv
    · omega
    · exact hb v hv

/-- What the checks of `RetainedSegment::new` establish. -/
lemma validateUnits_ok (h : validateUnits units = .ok ()) :
    units ≠ [] ∧ Consecutive RetainedUnit.lsn ((units.head?.map RetainedUnit.lsn).getD 0) units ∧
      ∀ u ∈ units, u.lsn < u64Max := by
  cases units with
  | nil => cases h
  | cons u us =>
    rw [validateUnits] at h
    split_ifs at h
    exact ⟨by simp,validateUnitsFrom_ok h⟩

namespace RetainedSegment
variable (segment : RetainedSegment)

lemma units_ne_nil : segment.units ≠ [] := (validateUnits_ok segment.units_ok).1

lemma units_length_pos : 0 < segment.units.length := length_pos_of_ne_nil segment.units_ne_nil

lemma consecutive : Consecutive RetainedUnit.lsn segment.startLsn segment.units :=
  (validateUnits_ok segment.units_ok).2.1

lemma lsn_lt (hu : u ∈ segment.units) : u.lsn < u64Max :=
  (validateUnits_ok segment.units_ok).2.2 u hu

lemma endLsn_eq : segment.endLsn+1 = segment.startLsn+segment.units.length := by
  have hlast := getLast?_eq_some_getLast segment.units_ne_nil
  have hsplit := dropLast_concat_getLast segment.units_ne_nil
  have hc := segment.consecutive
  rw [← hsplit,Consecutive.append_iff] at hc
  have hend : segment.endLsn = (segment.units.getLast segment.units_ne_nil).lsn := by
    rw [endLsn,hlast]
    rfl
  have hpos := segment.units_length_pos
  rw [hend,hc.2.1,length_dropLast]
  omega

lemma startLsn_le_endLsn : segment.startLsn ≤ segment.endLsn := by
  have := segment.endLsn_eq
  have := segment.units_length_pos
  omega

lemma lsn_le_endLsn (hu : u ∈ segment.units) : u.lsn ≤ segment.endLsn := by
  have := segment.consecutive.bounds hu
  have := segment.endLsn_eq
  omega

lemma endLsn_lt : segment.endLsn < u64Max := by
  rw [endLsn,getLast?_eq_some_getLast segment.units_ne_nil]
  exact segment.lsn_lt (getLast_mem _)

lemma startLsn_lt : segment.startLsn < u64Max := Nat.lt_of_le_of_lt segment.startLsn_le_endLsn segment.endLsn_lt

end RetainedSegment

/-! The readers. -/

/-- Lineage and catalog annotation of the next segment, checked by every reader. -/
def checkSegment (identity : SegmentIdentity) (version : ℕ) (segment : RetainedSegment) : Except SyncError Unit :=
  if !segment.identity.lineageMatches identity then .error .identityMismatch
  else if segment.identity.catalogVersion < version then
    .error (.catalogDecreased version segment.identity.catalogVersion)
  else .ok ()

/-- The first segment with units after the start may begin early, every later one begins where
the walk stands. -/
def checkStart (expected : ℕ) (started : Bool) (segment : RetainedSegment) : Except SyncError Unit :=
  if !started then
    if expected < segment.startLsn then .error (.gap expected segment.startLsn) else .ok ()
  else if segment.startLsn < expected then .error (.overlap expected segment.startLsn)
  else if expected < segment.startLsn then .error (.gap expected segment.startLsn)
  else .ok ()

/-- What `read_units_through` carries from unit to unit. -/
structure TailRead where
  expected : ℕ
  started : Bool
  out : List RetainedUnit

/-- The loop over the units of one segment; `inr` is its early return. -/
def takeUnits (through max : ℕ) (r : TailRead) : List RetainedUnit → Except SyncError (TailRead ⊕ List RetainedUnit)
  | [] => .ok (.inl r)
  | unit::units =>
    if unit.lsn < r.expected then
      if r.started then .error (.unitOverlap r.expected unit.lsn) else takeUnits through max r units
    else if r.expected < unit.lsn then .error (.unitGap r.expected unit.lsn)
    else if through < unit.lsn then .ok (.inr r.out)
    else if u64Max ≤ r.expected then .error .lsnOverflow
    else if (r.out++[unit]).length = max then .ok (.inr (r.out++[unit]))
    else takeUnits through max ⟨r.expected+1,true,r.out++[unit]⟩ units

/-- The loop over the segment files. -/
def readSegments (identity : SegmentIdentity) (since through max : ℕ) (version : ℕ) (r : TailRead) :
    List RetainedSegment → Except SyncError (List RetainedUnit)
  | [] => .ok r.out
  | segment::segments =>
    if through < segment.startLsn then
      if r.expected ≤ through then .error (.gap r.expected segment.startLsn) else .ok r.out
    else do
      checkSegment identity version segment
      if segment.endLsn ≤ since then
        readSegments identity since through max segment.identity.catalogVersion r segments
      else
        checkStart r.expected r.started segment
        match ← takeUnits through max r segment.units with
        | .inl r => readSegments identity since through max segment.identity.catalogVersion r segments
        | .inr out => .ok out

def readUnitsThrough (segments : List RetainedSegment) (identity : SegmentIdentity) (since through max : ℕ) :
    Except SyncError (List RetainedUnit) := do
  validateIdentity identity
  if max = 0 ∨ through ≤ since then .ok []
  else if u64Max ≤ since then .ok []
  else readSegments identity since through max 0 ⟨since+1,false,[]⟩ segments

def readUnitsSince (segments : List RetainedSegment) (identity : SegmentIdentity) (since max : ℕ) :
    Except SyncError (List RetainedUnit) :=
  readUnitsThrough segments identity since u64Max max

structure RetainedTailAvailability where
  sinceLsn : ℕ
  throughLsn : ℕ
  unitsAvailable : ℕ
  firstLsn : Option ℕ
  lastLsn : Option ℕ
  deriving DecidableEq

/-- What `validate_retained_tail_available` carries from unit to unit. -/
structure TailCount where
  expected : ℕ
  started : Bool
  available : ℕ
  first : Option ℕ

/-- The loop over the units of one segment; `inr` is its early return. -/
def countUnits (since through : ℕ) (r : TailCount) :
    List RetainedUnit → Except SyncError (TailCount ⊕ RetainedTailAvailability)
  | [] => .ok (.inl r)
  | unit::units =>
    if unit.lsn < r.expected then countUnits since through r units
    else if r.expected < unit.lsn then .error (.unitGap r.expected unit.lsn)
    else
      let first := some (r.first.getD unit.lsn)
      if through ≤ unit.lsn then .ok (.inr ⟨since,through,r.available+1,first,some unit.lsn⟩)
      else if u64Max ≤ r.expected then .error .lsnOverflow
      else countUnits since through ⟨r.expected+1,true,r.available+1,first⟩ units

/-- The loop over the segment files. -/
def countSegments (identity : SegmentIdentity) (since through version : ℕ) (r : TailCount) :
    List RetainedSegment → Except SyncError RetainedTailAvailability
  | [] => .error (.missing r.expected through)
  | segment::segments => do
    checkSegment identity version segment
    if segment.endLsn < r.expected then
      countSegments identity since through segment.identity.catalogVersion r segments
    else
      checkStart r.expected r.started segment
      match ← countUnits since through r segment.units with
      | .inl r => countSegments identity since through segment.identity.catalogVersion r segments
      | .inr available => .ok available

/-- An empty range is available whatever the segments hold. -/
def validateRetainedTailAvailable (segments : List RetainedSegment) (identity : SegmentIdentity)
    (since through : ℕ) : Except SyncError RetainedTailAvailability := do
  validateIdentity identity
  if through ≤ since then .ok ⟨since,through,0,none,none⟩
  else if u64Max ≤ since then .error .lsnOverflow
  else countSegments identity since through 0 ⟨since+1,false,0,none⟩ segments

/-! What a reader needs in order to go well, told by the ranges of the segments alone. -/

def chainUnits (segments : List RetainedSegment) : List RetainedUnit := segments.flatMap RetainedSegment.units

@[simp] lemma chainUnits_nil : chainUnits [] = [] := rfl
@[simp] lemma chainUnits_cons (s : RetainedSegment) (ss : List RetainedSegment) :
    chainUnits (s::ss) = s.units++chainUnits ss := rfl

/-- `out` is the retained units after `since` and before `next`, each once and in order. -/
structure Tail (segments : List RetainedSegment) (since next : ℕ) (out : List RetainedUnit) : Prop where
  consecutive : Consecutive RetainedUnit.lsn (since+1) out
  length : since+1+out.length = next
  retained : out ⊆ chainUnits segments

/-- The read ends before `next`: after the segments it visits, at its limit or at `through`. -/
def Reads (identity : SegmentIdentity) (since through max next : ℕ) : ℕ → ℕ → Bool → List RetainedSegment → Prop
  | _, e, _, [] => e = next
  | version, e, started, s::ss =>
    if through < s.startLsn then through < e ∧ e = next
    else checkSegment identity version s = .ok () ∧
      if s.endLsn ≤ since then Reads identity since through max next s.identity.catalogVersion e started ss
      else checkStart e started s = .ok () ∧
        if min (through+1) (since+max) ≤ s.endLsn then next = min through (since+max)+1
        else Reads identity since through max next s.identity.catalogVersion (s.endLsn+1) true ss

section
variable {identity : SegmentIdentity} {since through version max next e : ℕ}
  {out : List RetainedUnit}

lemma checkSegment_ok_iff : checkSegment identity version s = .ok () ↔
    s.identity.lineageMatches identity = true ∧ version ≤ s.identity.catalogVersion := by
  unfold checkSegment
  split_ifs with hlineage hversion
  · simp_all
  · simp [hversion]
  · simp_all

lemma checkStart_ok_iff : checkStart e started s = .ok () ↔ s.startLsn ≤ e ∧ (started = true → s.startLsn = e) := by
  unfold checkStart
  split_ifs <;> simp_all <;> omega

lemma Tail.push (h : Tail segments since u.lsn out) (hu : u ∈ chainUnits segments) :
    Tail segments since (u.lsn+1) (out++[u]) where
  consecutive := Consecutive.append_iff.mpr ⟨h.consecutive,h.length.symm,trivial⟩
  length := by
    rw [length_append,← h.length]
    rfl
  retained := append_subset.mpr ⟨h.retained,by simpa using hu⟩

lemma Tail.next_iff (h : Tail segments since e out) : Tail segments since next out ↔ e = next :=
  ⟨fun h' => h.length.symm.trans h'.length,fun h' => h' ▸ h⟩

lemma readSegments_ok_iff (hsub : ss ⊆ segments) (hr : r.expected ≤ min (through+1) (since+max))
    (hfresh : r.started = false → r.expected = since+1) (hout : Tail segments since r.expected r.out) :
    (∃ out, readSegments identity since through max version r ss = .ok out ∧ Tail segments since next out) ↔
      Reads identity since through max next version r.expected r.started ss := by
  induction ss generalizing version r with
  | nil => simpa [readSegments,Reads] using hout.next_iff
  | cons s ss ih =>
    obtain ⟨hs,hss⟩ := cons_subset.mp hsub
    rw [readSegments,Reads]
    by_cases hfar : through < s.startLsn
    · by_cases hmore : r.expected ≤ through
      · simp [hfar,hmore,Nat.not_lt.mpr hmore]
      · simpa [hfar,hmore,Nat.lt_of_not_le hmore] using hout.next_iff
    · simp only [if_neg hfar,check_ok_iff,and_assoc,exists_and_left]
      refine and_congr_right fun _ => ?_
      by_cases hold : s.endLsn ≤ since
      · simpa only [if_pos hold] using ih hss hr hfresh hout
      · simp only [if_neg hold,check_ok_iff,and_assoc,exists_and_left]
        refine and_congr_right fun hbegin => ?_
        obtain ⟨hstart,hsync⟩ := checkStart_ok_iff.mp hbegin
        have hopen : r.started = true ∨ r.expected ≤ s.endLsn := by
          cases hst : r.started with
          | false => exact .inr (hfresh hst ▸ Nat.lt_of_not_le hold)
          | true => exact .inl rfl
        rcases s.consecutive.scan (takeUnits through max) (·.expected) (·.started)
          (fun q => Tail segments since q.expected q.out) (Tail segments since (min through (since+max)+1))
          (Q := fun x => x.lsn < u64Max ∧ x ∈ chainUnits segments)
          (fun _ => rfl) (fun q x xs hst hlt => by rw [takeUnits,if_pos hlt,hst,if_neg (by simp)])
          (fun q x xs hq hx hpos hlt => by
            have := hq.length
            refine ⟨⟨q.expected+1,true,q.out++[x]⟩,?_,hpos ▸ Tail.push (hpos ▸ hq) hx.2,rfl,rfl⟩
            rw [takeUnits,if_neg (by omega),if_neg (by omega),if_neg (by omega),if_neg (by omega),
              if_neg (by rw [length_append,length_singleton]; omega)])
          (fun q x xs hq hx hpos heq => by
            have := hq.length
            rw [takeUnits,if_neg (by omega),if_neg (by omega)]
            split_ifs with hbeyond _ hfull
            · exact ⟨_,rfl,(show q.expected = min through (since+max)+1 by omega) ▸ hq⟩
            · omega
            · exact ⟨_,rfl,(show x.lsn = min through (since+max) by omega) ▸ Tail.push (hpos ▸ hq) hx.2⟩
            · exact absurd (show (q.out++[x]).length = max by rw [length_append,length_singleton]; omega) hfull)
          s.endLsn_eq (fun x hx => ⟨s.lsn_lt hx,mem_flatMap.mpr ⟨s,hs,hx⟩⟩) hout hstart hsync hopen hr with
          ⟨hlt,r',heq,hout',hr',hst⟩ | ⟨hge,out,heq,hout'⟩
        · rw [heq,if_neg (Nat.not_le.mpr hlt),← hr',← hst]
          exact ih hss (hr' ▸ hlt) (by simp [hst]) hout'
        · rw [heq,if_pos hge]
          simpa [Bind.bind,Except.bind,eq_comm] using hout'.next_iff

end

/-! Chains without a gap, and what the readers give on them. -/

/-- The files in the order the readers list them: one lineage, catalog annotations that never
decrease, and units without gap or overlap from `a` on. -/
structure ChainFrom (identity : SegmentIdentity) (a : ℕ) (segments : List RetainedSegment) : Prop where
  lineage : ∀ s ∈ segments, s.identity.lineageMatches identity = true
  versions : segments.Pairwise (fun s t => s.identity.catalogVersion ≤ t.identity.catalogVersion)
  contiguous : Consecutive RetainedUnit.lsn a (chainUnits segments)

namespace ChainFrom
variable {identity : SegmentIdentity} {a : ℕ}

section
variable (h : ChainFrom identity a (s::ss))
include h

lemma startLsn_eq : s.startLsn = a := by
  have hc := (Consecutive.append_iff.mp h.contiguous).1
  have hs := s.consecutive
  cases hunits : s.units with
  | nil => exact absurd hunits s.units_ne_nil
  | cons u us =>
    rw [hunits] at hc hs
    exact hs.1.symm.trans hc.1

lemma tail : ChainFrom identity (s.endLsn+1) ss where
  lineage := fun t ht => h.lineage t (mem_cons_of_mem s ht)
  versions := (pairwise_cons.mp h.versions).2
  contiguous := by
    rw [s.endLsn_eq,h.startLsn_eq]
    exact (Consecutive.append_iff.mp h.contiguous).2

end

end ChainFrom

lemma ChainFrom.reads {since limit a e version : ℕ} {started : Bool}
    (h : ChainFrom identity a segments) (hv : ∀ s ∈ segments, version ≤ s.identity.catalogVersion) (ha : a ≤ e)
    (hstarted : started = true → a = e) (hfresh : started = false → e = since+1) (hsince : since < e)
    (he : e ≤ since+limit) :
    Reads identity since u64Max limit (min (since+limit+1) (max e (a+(chainUnits segments).length))) version e started
      segments := by
  induction segments generalizing a e version started with
  | nil =>
    rw [Reads,chainUnits_nil,length_nil]
    omega
  | cons s ss ih =>
    have hstart := h.startLsn_eq
    have hend := s.endLsn_eq
    have hmax := s.startLsn_lt
    have hmax' := s.endLsn_lt
    have hv' := (pairwise_cons.mp h.versions).1
    have hpos := s.units_length_pos
    rw [Reads,if_neg (by omega),chainUnits_cons,length_append,← Nat.add_assoc,← hstart,← hend]
    refine ⟨checkSegment_ok_iff.mpr ⟨h.lineage s mem_cons_self,hv s mem_cons_self⟩,?_⟩
    by_cases hskip : s.endLsn ≤ since
    · -- the whole segment lies before the position, so the walk has not started
      rw [if_pos hskip]
      exact ih h.tail hv' (by omega) (fun hs => absurd (hstarted hs) (by omega)) hfresh hsince he
    · have hopen : e ≤ s.endLsn := by
        cases hs : started with
        | false =>
          have := hfresh hs
          omega
        | true =>
          have := hstarted hs
          omega
      rw [if_neg hskip]
      refine ⟨checkStart_ok_iff.mpr ⟨by omega,fun hs => hstart.trans (hstarted hs)⟩,?_⟩
      split_ifs with hlast
      · omega
      · have := @ih _ (s.endLsn+1) _ true h.tail hv' (Nat.le_refl _) (fun _ => rfl) (by simp) (by omega) (by omega)
        convert this using 1
        omega

/-- The first segment begins at or before the LSN after `since`. -/
def Reaches (segments : List RetainedSegment) (since : ℕ) : Prop := ∀ s ∈ segments.head?, s.startLsn ≤ since+1

instance (segments : List RetainedSegment) (since : ℕ) : Decidable (Reaches segments since) :=
  inferInstanceAs (Decidable (∀ _ ∈ _, _))

/-- A reader at a position the chain reaches gets every unit after it, up to the number asked for. -/
lemma readUnitsSince_eq
    (hid : validateIdentity identity = .ok ()) (h : ChainFrom identity a segments) (hreach : Reaches segments since)
    (max : ℕ) :
    readUnitsSince segments identity since max =
      .ok (((chainUnits segments).filter (since+1 ≤ ·.lsn)).take max) := by
  unfold readUnitsSince readUnitsThrough
  rw [hid]
  show (if _ then _ else _) = _
  by_cases hnone : max = 0 ∨ u64Max ≤ since
  · rw [if_pos hnone]
    rcases hnone with rfl | hsince
    · rfl
    · have hempty : (chainUnits segments).filter (since+1 ≤ ·.lsn) = [] := by
        rw [filter_eq_nil_iff]
        intro u hu
        obtain ⟨s,-,hus⟩ := mem_flatMap.mp hu
        have := s.lsn_lt hus
        simp only [decide_eq_true_eq]
        omega
      rw [hempty,take_nil]
  · rw [if_neg (by omega),if_neg (by omega),h.contiguous.filter_le]
    cases segments with
    | nil => simp [readSegments]
    | cons s ss =>
      have hstart := h.startLsn_eq
      have hle : s.startLsn ≤ since+1 := hreach s rfl
      obtain ⟨out,hread,htail⟩ := (readSegments_ok_iff (r := ⟨since+1,false,[]⟩) (fun _ h => h) (by simp only; omega)
        (fun _ => rfl) ⟨trivial,rfl,nil_subset _⟩).mpr (h.reads (fun _ _ => Nat.zero_le _) (by simp only; omega) (by simp)
          (fun _ => rfl) (Nat.lt_succ_self _) (show since+1 ≤ since+max by omega))
      have := htail.length
      rw [hread,h.contiguous.eq_take_drop htail.consecutive htail.retained]
      refine congrArg Except.ok (take_eq_take_iff.mpr ?_)
      rw [length_drop]
      omega

section behind
variable {identity : SegmentIdentity} {since version : ℕ}

/-- A walk that has not started stops at a first segment beyond the expected LSN. -/
lemma checks_fail {β : Type} {k : Unit → Except SyncError β} {out : β} (hbehind : since+1 < s.startLsn) :
    (do checkSegment identity version s; checkStart (since+1) false s >>= k) ≠ .ok out := by
  intro h
  obtain ⟨-,-,h⟩ := bind_ok_iff.mp h
  rw [checkStart,if_pos (by simp),if_pos hbehind] at h
  cases h

lemma reaches_of_readUnitsSince {max : ℕ}
    (h : readUnitsSince segments identity since max = .ok out) (hmax : max ≠ 0) (hsince : since < u64Max) :
    Reaches segments since := by
  intro s hs
  obtain ⟨ss,rfl⟩ : ∃ ss, segments = s::ss := ⟨_,eq_cons_of_mem_head? hs⟩
  by_contra hbehind
  have hend := s.startLsn_le_endLsn
  have hstart := s.startLsn_lt
  obtain ⟨-,-,h⟩ := bind_ok_iff.mp h
  rw [if_neg (by omega),if_neg (by omega),readSegments,if_neg (by omega)] at h
  simp only [show ¬s.endLsn ≤ since by omega] at h
  exact checks_fail (by omega) h

lemma reaches_of_available
    (h : validateRetainedTailAvailable segments identity since through = .ok available) (hlt : since < through) :
    Reaches segments since := by
  intro s hs
  obtain ⟨ss,rfl⟩ : ∃ ss, segments = s::ss := ⟨_,eq_cons_of_mem_head? hs⟩
  by_contra hbehind
  have hend := s.startLsn_le_endLsn
  obtain ⟨-,-,h⟩ := bind_ok_iff.mp h
  rw [if_neg (by omega)] at h
  split_ifs at h
  rw [countSegments] at h
  simp only [show ¬s.endLsn < since+1 by omega] at h
  exact checks_fail (by omega) h

end behind

end PowDB.Sync
