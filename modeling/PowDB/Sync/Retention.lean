import PowDB.Lib.Steps
import PowDB.Sync.Segment
import Mathlib.Data.List.Sort

/-! Replica cursors and the pruning of retained segments. The operations run one at a time under
the cursor lock; a refused one leaves the metadata and the segment directory as they were. -/
namespace PowDB.Sync
open Lib

structure DatabaseIdentity where
  databaseId : List UInt8
  primaryGeneration : ℕ
  deriving DecidableEq

/-- Stamped with the newest catalog version this binary reads. -/
def DatabaseIdentity.segmentIdentity (identity : DatabaseIdentity) : SegmentIdentity :=
  ⟨identity.databaseId,identity.primaryGeneration,walFormatVersion,catalogVersionMax⟩

structure ReplicaCursor where
  replicaId : String
  appliedLsn : ℕ
  updatedUnixSecs : ℕ
  active : Bool
  deriving DecidableEq

def ReplicaCursor.nextRequiredLsn (cursor : ReplicaCursor) : Except SyncError ℕ :=
  if u64Max ≤ cursor.appliedLsn then .error .lsnOverflow else .ok (cursor.appliedLsn+1)

/-- The sync state directory: the identity file if there is one, the cursor file and the segment
files in the order they are listed. -/
structure RetentionState where
  identity : Option DatabaseIdentity
  cursors : List ReplicaCursor
  segments : List RetainedSegment
  deriving DecidableEq

def validateReplicaId (replicaId : String) : Except SyncError Unit :=
  if replicaId.isEmpty then .error .invalidReplicaId
  else if replicaId.utf8ByteSize > 128 then .error .invalidReplicaId
  else if !replicaId.toList.all (fun c => c.isAlphanum || ['-', '_', '.', ':'].contains c) then
    .error .invalidReplicaId
  else .ok ()

def validateCursorForWrite (cursor : ReplicaCursor) : Except SyncError Unit := do
  validateReplicaId cursor.replicaId
  let _ ← cursor.nextRequiredLsn
  .ok ()

/-- The loop of `validate_cursors` with the ids it has seen. -/
def validateCursors (seen : List String) : List ReplicaCursor → Except SyncError Unit
  | [] => .ok ()
  | cursor::cursors => do
    validateCursorForWrite cursor
    if seen.contains cursor.replicaId then .error .duplicateReplicaId
    else validateCursors (cursor.replicaId::seen) cursors

def readIdentity (s : RetentionState) : Except SyncError DatabaseIdentity :=
  match s.identity with
  | none => .error .notFound
  | some identity => .ok identity

def readReplicaCursors (s : RetentionState) : Except SyncError (List ReplicaCursor) := do
  validateCursors [] s.cursors
  .ok s.cursors

/-- `replace_replica_cursors_unlocked`: checked and sorted by id. -/
def replaceReplicaCursors (s : RetentionState) (cursors : List ReplicaCursor) : Except SyncError RetentionState := do
  validateCursors [] cursors
  .ok { s with cursors := cursors.insertionSort (·.replicaId ≤ ·.replicaId) }

/-- Put a cursor in the place of the first one with its id, or at the end. -/
def putCursor (cursor : ReplicaCursor) : List ReplicaCursor → List ReplicaCursor
  | [] => [cursor]
  | c::cs => if c.replicaId = cursor.replicaId then cursor::cs else c::putCursor cursor cs

/-- A gap, or history that ends early, means that the replica has to start over. -/
def SyncError.rebootstrap : SyncError → SyncError
  | .gap _ _ | .unitGap _ _ | .missing _ _ => .rebootstrapRequired
  | e => e

/-- Without an identity file or without segments there is nothing to check against. -/
def validateActiveCursorAgainstRetainedTail (s : RetentionState) (cursor : ReplicaCursor) : Except SyncError Unit :=
  if !cursor.active then .ok ()
  else match s.identity with
    | none => .ok ()
    | some identity =>
      if s.segments.isEmpty then .ok ()
      else match readUnitsSince s.segments identity.segmentIdentity cursor.appliedLsn 1 with
        | .ok _ => .ok ()
        | .error e => .error e.rebootstrap

def upsertReplicaCursor (s : RetentionState) (cursor : ReplicaCursor) : Except SyncError RetentionState := do
  validateCursorForWrite cursor
  validateActiveCursorAgainstRetainedTail s cursor
  let cursors ← readReplicaCursors s
  replaceReplicaCursors s (putCursor cursor cursors)

def registerBootstrapCursor (s : RetentionState) (replicaId : String) (snapshotLsn requiredThroughLsn now : ℕ) :
    Except SyncError RetentionState :=
  if requiredThroughLsn < snapshotLsn then .error (.remoteBehindSnapshot requiredThroughLsn snapshotLsn)
  else do
    let cursor : ReplicaCursor := ⟨replicaId,snapshotLsn,now,true⟩
    validateCursorForWrite cursor
    let identity ← readIdentity s
    let _ ← (validateRetainedTailAvailable s.segments identity.segmentIdentity snapshotLsn requiredThroughLsn).mapError
      SyncError.rebootstrap
    let cursors ← readReplicaCursors s
    if cursors.any (fun c => c.replicaId == replicaId && c.active) then .error .alreadyActive
    else replaceReplicaCursors s (putCursor cursor cursors)

/-- `statusOk` says whether the status of the new position, part of the answer, could be made. -/
def acknowledgeReplicaApply (s : RetentionState) (replicaId : String) (appliedLsn remoteLsn now : ℕ)
    (statusOk : Bool) : Except SyncError RetentionState :=
  if remoteLsn < appliedLsn then .error (.aheadOfRemote appliedLsn remoteLsn)
  else do
    let cursors ← readReplicaCursors s
    match cursors.find? (·.replicaId == replicaId) with
    | none => .error .notFound
    | some cursor =>
      if !cursor.active then .error .inactive
      else if appliedLsn < cursor.appliedLsn then .error (.behindCursor appliedLsn cursor.appliedLsn)
      else if !statusOk then .error .statusUnavailable
      else
        let acknowledged := { cursor with appliedLsn := appliedLsn, updatedUnixSecs := now }
        replaceReplicaCursors s (putCursor acknowledged cursors)

def retireReplicaCursor (s : RetentionState) (replicaId : String) (updatedUnixSecs : ℕ) :
    Except SyncError RetentionState := do
  validateReplicaId replicaId
  let cursors ← readReplicaCursors s
  match cursors.find? (·.replicaId == replicaId) with
  | none => .error .notFound
  | some cursor =>
    .ok { s with cursors := putCursor { cursor with active := false, updatedUnixSecs := updatedUnixSecs } cursors }

/-! Pruning. -/

structure RetentionPressurePolicy where
  inactiveCursorExpirySecs : Option ℕ
  operatorRetainFromLsn : Option ℕ
  nowUnixSecs : ℕ
  deriving DecidableEq

def minimumRetainedLsn : List ReplicaCursor → Except SyncError (Option ℕ)
  | [] => .ok none
  | cursor::cursors =>
    if !cursor.active then minimumRetainedLsn cursors
    else do
      let next ← cursor.nextRequiredLsn
      match ← minimumRetainedLsn cursors with
      | none => .ok (some next)
      | some current => .ok (some (min current next))

def ReplicaCursor.retire (policy : RetentionPressurePolicy) (cursor : ReplicaCursor) : ReplicaCursor :=
  { cursor with active := false, updatedUnixSecs := policy.nowUnixSecs }

def retireInactiveCursors (policy : RetentionPressurePolicy) (cursors : List ReplicaCursor) : List ReplicaCursor :=
  match policy.inactiveCursorExpirySecs with
  | none => cursors
  | some expiry => cursors.map fun cursor =>
    if cursor.active && expiry ≤ policy.nowUnixSecs-cursor.updatedUnixSecs then cursor.retire policy else cursor

def retireCursorsBehindOverride (policy : RetentionPressurePolicy) (cursors : List ReplicaCursor) :
    Except SyncError (List ReplicaCursor) :=
  match policy.operatorRetainFromLsn with
  | none => .ok cursors
  | some boundary => cursors.mapM fun cursor =>
    if !cursor.active then .ok cursor
    else do
      let next ← cursor.nextRequiredLsn
      .ok (if boundary ≤ next then cursor else cursor.retire policy)

/-- The rest of the loop of `validate_retained_tail`, after the first retained segment. -/
def validateTailFrom : ℕ → List RetainedSegment → Except SyncError Unit
  | _, [] => .ok ()
  | expected, segment::segments =>
    if segment.startLsn < expected then .error (.overlap expected segment.startLsn)
    else if expected < segment.startLsn then .error (.gap expected segment.startLsn)
    else if u64Max ≤ segment.endLsn then .error .lsnOverflow
    else validateTailFrom (segment.endLsn+1) segments

def validateRetainedTail (retainFromLsn : Option ℕ) (segments : List RetainedSegment) : Except SyncError Unit :=
  match retainFromLsn with
  | none => .ok ()
  | some boundary =>
    match segments.filter (boundary ≤ ·.endLsn) with
    | [] => .ok ()
    | first::rest =>
      if boundary < first.startLsn then .error (.gap boundary first.startLsn)
      else if u64Max ≤ first.endLsn then .error .lsnOverflow
      else validateTailFrom (first.endLsn+1) rest

/-- The checks of `retention_candidates`; nothing is deleted unless all pass. -/
def retentionCandidates (identity : SegmentIdentity) (retainFromLsn : Option ℕ) (segments : List RetainedSegment) :
    Except SyncError Unit := do
  validateIdentity identity
  if segments.all (·.identity.lineageMatches identity) then validateRetainedTail retainFromLsn segments
  else .error .identityMismatch

def deletable (retainFromLsn : Option ℕ) (segment : RetainedSegment) : Bool :=
  match retainFromLsn with
  | none => false
  | some boundary => segment.endLsn < boundary

/-- Delete the candidates in the order they are listed. `removals` of them succeed; the first
`remove_file` that fails ends the loop. -/
def deleteRetentionCandidates (retainFromLsn : Option ℕ) : ℕ → List RetainedSegment → List RetainedSegment
  | 0, segments => segments
  | _+1, [] => []
  | removals+1, segment::segments =>
    if deletable retainFromLsn segment then deleteRetentionCandidates retainFromLsn removals segments
    else segment::deleteRetentionCandidates retainFromLsn (removals+1) segments

def pruneRetainedSegmentsForCursors (s : RetentionState) (identity : DatabaseIdentity) (removals : ℕ) :
    Except SyncError RetentionState := do
  let cursors ← readReplicaCursors s
  let retainFromLsn ← minimumRetainedLsn cursors
  retentionCandidates identity.segmentIdentity retainFromLsn s.segments
  .ok { s with segments := deleteRetentionCandidates retainFromLsn removals s.segments }

/-- The operator's boundary and that of the cursors still active. -/
def policyBoundary : Option ℕ → Option ℕ → Option ℕ
  | some overrideLsn, some cursorLsn => some (max overrideLsn cursorLsn)
  | some overrideLsn, none => some overrideLsn
  | none, cursorLsn => cursorLsn

/-- The cursor file is rewritten only when a cursor was retired. -/
def recordRetired (s : RetentionState) (retired : List ReplicaCursor) : Except SyncError RetentionState :=
  if retired = s.cursors then .ok s else replaceReplicaCursors s retired

/-- The retired cursors are on disk before the first segment goes. -/
def pruneRetainedSegmentsWithPolicy (s : RetentionState) (identity : DatabaseIdentity)
    (policy : RetentionPressurePolicy) (removals : ℕ) : Except SyncError RetentionState :=
  if policy.operatorRetainFromLsn = some 0 then .error .zeroBoundary
  else do
    let cursors ← readReplicaCursors s
    let retired ← retireCursorsBehindOverride policy (retireInactiveCursors policy cursors)
    let cursorBoundary ← minimumRetainedLsn retired
    let retainFromLsn := policyBoundary policy.operatorRetainFromLsn cursorBoundary
    retentionCandidates identity.segmentIdentity retainFromLsn s.segments
    let s ← recordRetired s retired
    .ok { s with segments := deleteRetentionCandidates retainFromLsn removals s.segments }

inductive RetentionAction
  | register (replicaId : String) (snapshotLsn requiredThroughLsn now : ℕ)
  | upsert (cursor : ReplicaCursor)
  | acknowledge (replicaId : String) (appliedLsn remoteLsn now : ℕ) (statusOk : Bool)
  | retire (replicaId : String) (updatedUnixSecs : ℕ)
  | prune (identity : DatabaseIdentity) (policy : Option RetentionPressurePolicy) (removals : ℕ)

def RetentionAction.perform (s : RetentionState) : RetentionAction → Except SyncError RetentionState
  | .register replicaId snapshotLsn requiredThroughLsn now =>
    registerBootstrapCursor s replicaId snapshotLsn requiredThroughLsn now
  | .upsert cursor => upsertReplicaCursor s cursor
  | .acknowledge replicaId appliedLsn remoteLsn now statusOk =>
    acknowledgeReplicaApply s replicaId appliedLsn remoteLsn now statusOk
  | .retire replicaId updatedUnixSecs => retireReplicaCursor s replicaId updatedUnixSecs
  | .prune identity none removals => pruneRetainedSegmentsForCursors s identity removals
  | .prune identity (some policy) removals => pruneRetainedSegmentsWithPolicy s identity policy removals

/-- One operation; a refused one changes nothing. -/
def RetentionState.step (s : RetentionState) (a : RetentionAction) : RetentionState :=
  match a.perform s with
  | .ok t => t
  | .error _ => s

end PowDB.Sync
