import PowDB.Sync.Retention

/-! What pruning keeps. Every operation either leaves the segments alone or deletes a run of the
oldest that ends before the next LSN of each cursor still active, so a cursor that the chain
reaches reads the same units afterwards. Only a cursor that is put behind the chain is stranded. -/
namespace PowDB.Sync
open Lib List Option
variable {s t : RetentionState}
  {c : ReplicaCursor} {cs : List ReplicaCursor} {segments : List RetainedSegment}
  {identity : SegmentIdentity}

lemma mem_putCursor (h : c ∈ putCursor new cs) : c = new ∨ c ∈ cs := by
  induction cs with
  | nil => exact .inl (mem_singleton.mp h)
  | cons d ds ih =>
    rw [putCursor] at h
    split_ifs at h
    · exact (mem_cons.mp h).imp id (mem_cons_of_mem d)
    · rcases mem_cons.mp h with rfl | h
      · exact .inr mem_cons_self
      · exact (ih h).imp id (mem_cons_of_mem d)

/-- A cursor is kept, or it has the id of the one put and is the first that has it. -/
lemma putCursor_keeps {new : ReplicaCursor} (hc : c ∈ cs) :
    c ∈ putCursor new cs ∨ c.replicaId = new.replicaId ∧ cs.find? (·.replicaId == new.replicaId) = some c ∧
      new ∈ putCursor new cs := by
  induction cs with
  | nil => simp at hc
  | cons d ds ih =>
    rw [putCursor]
    by_cases hd : d.replicaId = new.replicaId
    · rw [if_pos hd]
      rcases mem_cons.mp hc with rfl | hc
      · exact .inr ⟨hd,by simp [hd],mem_cons_self⟩
      · exact .inl (mem_cons_of_mem _ hc)
    · rw [if_neg hd]
      rcases mem_cons.mp hc with rfl | hc
      · exact .inl mem_cons_self
      · apply (ih hc).imp (mem_cons_of_mem d)
        rintro ⟨hid,hfind,hnew⟩
        exact ⟨hid,by rw [find?_cons_of_neg (by simpa using hd)]; exact hfind,mem_cons_of_mem d hnew⟩

lemma readReplicaCursors_ok (h : readReplicaCursors s = .ok cs) : cs = s.cursors := by
  obtain ⟨-,-,h⟩ := bind_ok_iff.mp h
  exact (Except.ok.inj h).symm

lemma replaceReplicaCursors_ok (h : replaceReplicaCursors s cs = .ok t) :
    t.segments = s.segments ∧ ∀ c, c ∈ t.cursors ↔ c ∈ cs := by
  obtain ⟨-,-,h⟩ := bind_ok_iff.mp h
  cases h
  exact ⟨rfl,fun c => mem_insertionSort _⟩

lemma nextRequiredLsn_ok {next : ℕ} (h : c.nextRequiredLsn = .ok next) : next = c.appliedLsn+1 := by
  unfold ReplicaCursor.nextRequiredLsn at h
  split_ifs at h
  exact (Except.ok.inj h).symm

lemma validateCursorForWrite_ok (h : validateCursorForWrite c = .ok ()) : c.appliedLsn < u64Max := by
  obtain ⟨-,-,h⟩ := bind_ok_iff.mp h
  obtain ⟨next,h,-⟩ := bind_ok_iff.mp h
  unfold ReplicaCursor.nextRequiredLsn at h
  split_ifs at h
  omega

section operations

lemma register_ok
    (h : registerBootstrapCursor s replicaId snapshotLsn requiredThroughLsn now = .ok t) :
    t.segments = s.segments ∧ (snapshotLsn < requiredThroughLsn → Reaches s.segments snapshotLsn) ∧
      ∀ c ∈ t.cursors, c = ⟨replicaId,snapshotLsn,now,true⟩ ∨ c ∈ s.cursors := by
  unfold registerBootstrapCursor at h
  split_ifs at h
  obtain ⟨-,-,h⟩ := bind_ok_iff.mp h
  obtain ⟨identity,-,h⟩ := bind_ok_iff.mp h
  obtain ⟨available,hav,h⟩ := bind_ok_iff.mp h
  obtain ⟨cursors,hcs,h⟩ := bind_ok_iff.mp h
  split_ifs at h
  obtain ⟨hsegs,hmem⟩ := replaceReplicaCursors_ok h
  refine ⟨hsegs,?_,?_⟩
  · intro hlt
    cases hv : validateRetainedTailAvailable s.segments identity.segmentIdentity snapshotLsn requiredThroughLsn with
    | error e =>
      rw [hv] at hav
      cases hav
    | ok a => exact reaches_of_available hv hlt
  · intro c hc
    rw [← readReplicaCursors_ok hcs]
    exact mem_putCursor ((hmem c).mp hc)

lemma validateActive_ok (h : validateActiveCursorAgainstRetainedTail s c = .ok ())
    (hactive : c.active = true) (hid : s.identity.isSome) (hlsn : c.appliedLsn < u64Max) :
    Reaches s.segments c.appliedLsn := by
  obtain ⟨identity,hid⟩ := isSome_iff_exists.mp hid
  unfold validateActiveCursorAgainstRetainedTail at h
  rw [hactive,hid,if_neg (by simp)] at h
  simp only at h
  by_cases hempty : s.segments = []
  · rw [hempty]
    nofun
  · rw [if_neg (by simpa using hempty)] at h
    split at h
    case h_1 hread => exact reaches_of_readUnitsSince hread (by simp) hlsn
    case h_2 => cases h

lemma upsert_ok (h : upsertReplicaCursor s cursor = .ok t) : t.segments = s.segments ∧
      (cursor.active = true → s.identity.isSome → Reaches s.segments cursor.appliedLsn) ∧
      ∀ c ∈ t.cursors, c = cursor ∨ c ∈ s.cursors := by
  obtain ⟨_,hwrite,h⟩ := bind_ok_iff.mp h
  obtain ⟨_,hactive,h⟩ := bind_ok_iff.mp h
  obtain ⟨cursors,hcs,h⟩ := bind_ok_iff.mp h
  obtain ⟨hsegs,hmem⟩ := replaceReplicaCursors_ok h
  refine ⟨hsegs,fun hact hid => validateActive_ok hactive hact hid (validateCursorForWrite_ok hwrite),?_⟩
  intro c hc
  rw [← readReplicaCursors_ok hcs]
  exact mem_putCursor ((hmem c).mp hc)

lemma acknowledge_ok
    (h : acknowledgeReplicaApply s replicaId appliedLsn remoteLsn now statusOk = .ok t) :
    t.segments = s.segments ∧ ∃ c₀, s.cursors.find? (·.replicaId == replicaId) = some c₀ ∧ c₀.active = true ∧
      c₀.appliedLsn ≤ appliedLsn ∧
      ∀ c, c ∈ t.cursors ↔ c ∈ putCursor { c₀ with appliedLsn := appliedLsn, updatedUnixSecs := now } s.cursors := by
  unfold acknowledgeReplicaApply at h
  by_cases hremote : remoteLsn < appliedLsn
  · rw [if_pos hremote] at h
    cases h
  rw [if_neg hremote] at h
  obtain ⟨cursors,hcs,h⟩ := bind_ok_iff.mp h
  obtain rfl := readReplicaCursors_ok hcs
  split at h
  case h_1 => cases h
  case h_2 c₀ hfind =>
    split_ifs at h with hactive hbehind
    obtain ⟨hsegs,hmem⟩ := replaceReplicaCursors_ok h
    exact ⟨hsegs,c₀,hfind,by simpa using hactive,Nat.le_of_not_lt hbehind,hmem⟩

lemma retire_ok (h : retireReplicaCursor s replicaId updatedUnixSecs = .ok t) :
    t.segments = s.segments ∧ ∀ c ∈ t.cursors, c.active = true → c ∈ s.cursors := by
  obtain ⟨-,-,h⟩ := bind_ok_iff.mp h
  obtain ⟨cursors,hcs,h⟩ := bind_ok_iff.mp h
  obtain rfl := readReplicaCursors_ok hcs
  split at h
  case h_1 => cases h
  case h_2 c₀ _ =>
    cases h
    refine ⟨rfl,?_⟩
    intro c hc hactive
    rcases mem_putCursor hc with rfl | hc
    · cases hactive
    · exact hc

lemma minimumRetainedLsn_le {r : Option ℕ} (h : minimumRetainedLsn cs = .ok r) :
    ∀ c ∈ cs, c.active = true → ∃ b, r = some b ∧ b ≤ c.appliedLsn+1 := by
  induction cs generalizing r with
  | nil => simp
  | cons d ds ih =>
    rw [minimumRetainedLsn] at h
    intro c hc hactive
    cases hd : d.active with
    | false =>
      rw [hd,if_pos (by simp)] at h
      rcases mem_cons.mp hc with rfl | hc
      · exact absurd (hd.symm.trans hactive) nofun
      · exact ih h c hc hactive
    | true =>
      rw [hd,if_neg (by simp)] at h
      obtain ⟨next,hnext,h⟩ := bind_ok_iff.mp h
      obtain ⟨rest,hrest,h⟩ := bind_ok_iff.mp h
      obtain rfl := nextRequiredLsn_ok hnext
      rcases mem_cons.mp hc with rfl | hc
      · cases rest <;> cases h
        · exact ⟨_,rfl,le_rfl⟩
        · exact ⟨_,rfl,min_le_right _ _⟩
      · obtain ⟨b,rfl,hb⟩ := ih hrest c hc hactive
        cases h
        exact ⟨_,rfl,(min_le_left _ _).trans hb⟩

/-- The operator's boundary is no further than the cursors it leaves active. -/
lemma retireCursorsBehindOverride_ok
    (h : retireCursorsBehindOverride policy cs = .ok out) :
    ∀ c ∈ out, c.active = true → c ∈ cs ∧ ∀ b, policy.operatorRetainFromLsn = some b → b ≤ c.appliedLsn+1 := by
  unfold retireCursorsBehindOverride at h
  split at h
  case h_1 hnone =>
    cases h
    intro c hc _
    exact ⟨hc,by simp [hnone]⟩
  case h_2 boundary hb =>
    intro c hc hactive
    obtain ⟨d,hd,hc⟩ := mem_of_mapM_ok h hc
    -- kept as it was, or retired and so not active
    split_ifs at hc with hactive'
    · cases hc
      simp [hactive] at hactive'
    obtain ⟨next,hnext,hc⟩ := bind_ok_iff.mp hc
    obtain rfl := nextRequiredLsn_ok hnext
    split_ifs at hc with hle
    · cases hc
      refine ⟨hd,?_⟩
      intro b hb'
      rw [hb] at hb'
      cases hb'
      exact hle
    · cases hc
      cases hactive

lemma retireInactiveCursors_mem
    (hc : c ∈ retireInactiveCursors policy cs) (hactive : c.active = true) : c ∈ cs := by
  unfold retireInactiveCursors at hc
  split at hc
  case h_1 => exact hc
  case h_2 expiry _ =>
    obtain ⟨d,hd,rfl⟩ := mem_map.mp hc
    split_ifs at hactive ⊢
    · cases hactive
    · exact hd

/-- What a prune can do: it deletes below a boundary that no cursor active afterwards is behind. -/
lemma prune_ok {identity : DatabaseIdentity}
    (h : (RetentionAction.prune identity policy removals).perform s = .ok t) :
    ∃ retainFromLsn, t.segments = deleteRetentionCandidates retainFromLsn removals s.segments ∧
      (∀ c ∈ t.cursors, c.active = true → c ∈ s.cursors ∧ ∀ b, retainFromLsn = some b → b ≤ c.appliedLsn+1) ∧
      (policy = none → t.cursors = s.cursors) := by
  cases policy with
  | none =>
    obtain ⟨cursors,hcs,h⟩ := bind_ok_iff.mp h
    obtain rfl := readReplicaCursors_ok hcs
    obtain ⟨retainFromLsn,hmin,h⟩ := bind_ok_iff.mp h
    obtain ⟨-,-,h⟩ := bind_ok_iff.mp h
    cases h
    refine ⟨retainFromLsn,rfl,?_,fun _ => rfl⟩
    intro c hc hactive
    obtain ⟨b,rfl,hle⟩ := minimumRetainedLsn_le hmin c hc hactive
    exact ⟨hc,fun _ h => some.inj h ▸ hle⟩
  | some policy =>
    rw [RetentionAction.perform] at h
    unfold pruneRetainedSegmentsWithPolicy at h
    by_cases hzero : policy.operatorRetainFromLsn = some 0
    · rw [if_pos hzero] at h
      cases h
    rw [if_neg hzero] at h
    obtain ⟨cursors,hcs,h⟩ := bind_ok_iff.mp h
    obtain rfl := readReplicaCursors_ok hcs
    obtain ⟨retired,hretired,h⟩ := bind_ok_iff.mp h
    obtain ⟨boundary,hmin,h⟩ := bind_ok_iff.mp h
    obtain ⟨-,-,h⟩ := bind_ok_iff.mp h
    obtain ⟨s',hs',h⟩ := bind_ok_iff.mp h
    have hkept : s'.segments = s.segments ∧ ∀ c ∈ s'.cursors, c ∈ retired := by
      unfold recordRetired at hs'
      split_ifs at hs' with hsame
      · cases hs'
        exact ⟨rfl,fun c hc => hsame ▸ hc⟩
      · obtain ⟨hsegs,hmem⟩ := replaceReplicaCursors_ok hs'
        exact ⟨hsegs,fun c hc => (hmem c).mp hc⟩
    cases h
    refine ⟨_,by rw [hkept.1],?_,nofun⟩
    intro c hc hactive
    obtain ⟨hmem,hover⟩ := retireCursorsBehindOverride_ok hretired c (hkept.2 c hc) hactive
    obtain ⟨cursorLsn,rfl,hle⟩ := minimumRetainedLsn_le hmin c (hkept.2 c hc) hactive
    refine ⟨retireInactiveCursors_mem hmem hactive,?_⟩
    intro b hb
    cases hop : policy.operatorRetainFromLsn with
    | none =>
      rw [hop] at hb
      exact some.inj hb ▸ hle
    | some overrideLsn =>
      rw [hop] at hb
      cases hb
      exact max_le (hover _ hop) hle

end operations

lemma endLsn_lt_of_deletable {segment : RetainedSegment} (h : deletable retainFromLsn segment = true)
    (hn : ∀ b, retainFromLsn = some b → b ≤ n) : segment.endLsn < n := by
  cases retainFromLsn with
  | none => cases h
  | some b => exact (of_decide_eq_true h).trans_le (hn b rfl)

@[simp] lemma deleteRetentionCandidates_zero (retainFromLsn : Option ℕ) (segments : List RetainedSegment) :
    deleteRetentionCandidates retainFromLsn 0 segments = segments := by
  cases segments <;> rfl

lemma deleteRetentionCandidates_of_none (h : ∀ s ∈ segments, deletable retainFromLsn s = false) (removals : ℕ) :
    deleteRetentionCandidates retainFromLsn removals segments = segments := by
  cases removals with
  | zero => simp
  | succ n =>
    induction segments with
    | nil => rfl
    | cons s ss ih =>
      rw [deleteRetentionCandidates,h s mem_cons_self,if_neg (by simp),
        ih (fun t ht => h t (mem_cons_of_mem s ht))]

/-- Only segments below the boundary go, whatever the directory holds. -/
lemma mem_of_deletable {s : RetainedSegment} (hs : s ∈ segments)
    (hgone : s ∉ deleteRetentionCandidates retainFromLsn removals segments) : deletable retainFromLsn s = true := by
  induction segments generalizing removals with
  | nil => simp at hs
  | cons t ts ih =>
    cases removals with
    | zero => exact absurd hs hgone
    | succ n =>
      rw [deleteRetentionCandidates] at hgone
      split_ifs at hgone with ht
      · rcases mem_cons.mp hs with rfl | hs
        · exact ht
        · exact ih hs hgone
      · rcases mem_cons.mp hs with rfl | hs
        · exact absurd mem_cons_self hgone
        · exact ih hs fun h => hgone (mem_cons_of_mem t h)

lemma ChainFrom.endLsn_lt {s : RetainedSegment}
    (h : ChainFrom identity a (s::ss)) {t : RetainedSegment} (ht : t ∈ ss) : s.endLsn < t.endLsn := by
  obtain ⟨u,hu⟩ := exists_mem_of_ne_nil _ t.units_ne_nil
  have hge := (h.tail.contiguous.bounds (mem_flatMap.mpr ⟨t,ht,hu⟩)).1
  have hle := t.lsn_le_endLsn hu
  omega

/-- On a chain the oldest segments go, all of them applied, so a reader stands where it stood. -/
lemma deleteRetentionCandidates_chain {a : ℕ} (h : ChainFrom identity a segments) (removals : ℕ) :
    (∃ b, ChainFrom identity b (deleteRetentionCandidates retainFromLsn removals segments)) ∧
      ∀ n, (∀ b, retainFromLsn = some b → b ≤ n+1) → Reaches segments n →
        Reaches (deleteRetentionCandidates retainFromLsn removals segments) n ∧
        (chainUnits (deleteRetentionCandidates retainFromLsn removals segments)).filter (n+1 ≤ ·.lsn) =
          (chainUnits segments).filter (n+1 ≤ ·.lsn) := by
  induction segments generalizing a removals with
  | nil => cases removals <;> exact ⟨⟨a,h⟩,fun _ _ hreach => ⟨hreach,rfl⟩⟩
  | cons s ss ih =>
    cases removals with
    | zero => exact ⟨⟨a,h⟩,fun _ _ hreach => ⟨hreach,rfl⟩⟩
    | succ k =>
      cases hs : deletable retainFromLsn s with
      | false =>
        rw [deleteRetentionCandidates_of_none]
        · exact ⟨⟨a,h⟩,fun _ _ hreach => ⟨hreach,rfl⟩⟩
        intro t ht
        rcases mem_cons.mp ht with rfl | ht
        · exact hs
        have hlt := h.endLsn_lt ht
        cases retainFromLsn with
        | none => rfl
        | some b =>
          simp only [deletable,decide_eq_false_iff_not] at hs ⊢
          omega
      | true =>
        obtain ⟨hchain,hkept⟩ := ih h.tail k
        rw [deleteRetentionCandidates,if_pos hs]
        refine ⟨hchain,fun n hn hreach => ?_⟩
        have hend := endLsn_lt_of_deletable hs hn
        have hreach' : Reaches ss n := by
          intro t ht
          obtain ⟨ts,rfl⟩ : ∃ ts, ss = t::ts := ⟨_,eq_cons_of_mem_head? ht⟩
          rw [h.tail.startLsn_eq]
          omega
        have hnone : s.units.filter (n+1 ≤ ·.lsn) = [] := by
          rw [filter_eq_nil_iff]
          intro u hu
          have := s.lsn_le_endLsn hu
          simp only [decide_eq_true_eq]
          omega
        rw [chainUnits_cons,filter_append,hnone,nil_append]
        exact hkept n hn hreach'

/-- The retained chain has no gap and reaches every active cursor. -/
structure RetentionState.Sound (identity : SegmentIdentity) (s : RetentionState) : Prop where
  identity_ok : validateIdentity identity = .ok ()
  chain : ∃ a, ChainFrom identity a s.segments
  placed : ∀ c ∈ s.cursors, c.active = true → Reaches s.segments c.appliedLsn

/-- The operation does not put an active cursor behind the chain where the code looks at no
segment: a registration for an empty range, an upsert without an identity file. -/
def Checked (s : RetentionState) : RetentionAction → Prop
  | .register _ snapshotLsn requiredThroughLsn _ => snapshotLsn < requiredThroughLsn ∨ Reaches s.segments snapshotLsn
  | .upsert cursor => cursor.active = true → s.identity.isSome ∨ Reaches s.segments cursor.appliedLsn
  | _ => True

variable {a : RetentionAction}

/-- An accepted operation leaves the segments alone or deletes some below every cursor active
afterwards, and the chain reached those cursors before. -/
lemma perform_ok (h : a.perform s = .ok t) :
    ∃ retainFromLsn removals, t.segments = deleteRetentionCandidates retainFromLsn removals s.segments ∧
      ∀ c ∈ t.cursors, c.active = true → (∀ b, retainFromLsn = some b → b ≤ c.appliedLsn+1) ∧
        (∀ identity, s.Sound identity → Checked s a → Reaches s.segments c.appliedLsn) := by
  cases a with
  | register replicaId snapshotLsn requiredThroughLsn now =>
    obtain ⟨hsegs,hreach,hmem⟩ := register_ok h
    refine ⟨none,0,by simp [hsegs],fun c hc hactive => ⟨nofun,fun _ hs hok => ?_⟩⟩
    rcases hmem c hc with rfl | hc
    · exact hok.elim hreach id
    · exact hs.placed c hc hactive
  | upsert cursor =>
    obtain ⟨hsegs,hreach,hmem⟩ := upsert_ok h
    refine ⟨none,0,by simp [hsegs],fun c hc hactive => ⟨nofun,fun _ hs hok => ?_⟩⟩
    rcases hmem c hc with rfl | hc
    · exact (hok hactive).elim (hreach hactive) id
    · exact hs.placed c hc hactive
  | acknowledge replicaId appliedLsn remoteLsn now statusOk =>
    obtain ⟨hsegs,c₀,hfind,hact₀,hle,hmem⟩ := acknowledge_ok h
    refine ⟨none,0,by simp [hsegs],fun c hc hactive => ⟨nofun,fun _ hs _ => ?_⟩⟩
    rcases mem_putCursor ((hmem c).mp hc) with rfl | hc
    · intro first hfirst
      exact (hs.placed c₀ (mem_of_find?_eq_some hfind) hact₀ first hfirst).trans (Nat.succ_le_succ hle)
    · exact hs.placed c hc hactive
  | retire replicaId updatedUnixSecs =>
    obtain ⟨hsegs,hmem⟩ := retire_ok h
    exact ⟨none,0,by simp [hsegs],fun c hc hactive => ⟨nofun,fun _ hs _ => hs.placed c (hmem c hc hactive) hactive⟩⟩
  | prune db policy removals =>
    obtain ⟨retainFromLsn,hsegs,hmem,-⟩ := prune_ok h
    refine ⟨retainFromLsn,removals,hsegs,fun c hc hactive => ?_⟩
    obtain ⟨hmem,hle⟩ := hmem c hc hactive
    exact ⟨hle,fun _ hs _ => hs.placed c hmem hactive⟩

/-- No operation removes a segment with a unit that a cursor active afterwards still needs. -/
lemma step_keeps_needed (s : RetentionState) (a : RetentionAction) {segment : RetainedSegment}
    (hseg : segment ∈ s.segments) (hgone : segment ∉ (s.step a).segments) :
    ∀ c ∈ (s.step a).cursors, c.active = true → segment.endLsn < c.appliedLsn+1 := by
  unfold RetentionState.step at hgone ⊢
  split at hgone
  case h_2 => exact absurd hseg hgone
  case h_1 t h =>
    obtain ⟨retainFromLsn,removals,hsegs,hbound⟩ := perform_ok h
    rw [hsegs] at hgone
    intro c hc hactive
    exact endLsn_lt_of_deletable (mem_of_deletable hseg hgone) (hbound c hc hactive).1

/-- One operation: the chain stays without a gap and every active cursor has the same units in
front of it as before. -/
lemma sound_step (hs : s.Sound identity) (hok : Checked s a) :
    (s.step a).Sound identity ∧ ∀ c ∈ (s.step a).cursors, c.active = true →
      (chainUnits (s.step a).segments).filter (c.appliedLsn+1 ≤ ·.lsn) =
        (chainUnits s.segments).filter (c.appliedLsn+1 ≤ ·.lsn) := by
  unfold RetentionState.step
  split
  case h_2 => exact ⟨hs,fun _ _ _ => rfl⟩
  case h_1 t h =>
    obtain ⟨retainFromLsn,removals,hsegs,hbound⟩ := perform_ok h
    obtain ⟨first,hchain⟩ := hs.chain
    obtain ⟨hdeleted,hkept⟩ := deleteRetentionCandidates_chain hchain removals
    rw [← hsegs] at hdeleted hkept
    have hcursor := fun c hc hactive => hkept c.appliedLsn (hbound c hc hactive).1 ((hbound c hc hactive).2 _ hs hok)
    exact ⟨⟨hs.identity_ok,hdeleted,fun c hc hactive => (hcursor c hc hactive).1⟩,
      fun c hc hactive => (hcursor c hc hactive).2⟩

lemma acknowledge_never_lowers (s : RetentionState) (replicaId : String) (appliedLsn remoteLsn now : ℕ)
    (statusOk : Bool) :
    ∀ c ∈ s.cursors, ∃ c' ∈ (s.step (.acknowledge replicaId appliedLsn remoteLsn now statusOk)).cursors,
      c'.replicaId = c.replicaId ∧ c.appliedLsn ≤ c'.appliedLsn ∧ c'.active = c.active := by
  intro c hc
  unfold RetentionState.step
  split
  case h_2 => exact ⟨c,hc,rfl,le_rfl,rfl⟩
  case h_1 t h =>
    obtain ⟨-,c₀,hfind,hactive,hle,hmem⟩ := acknowledge_ok h
    rcases @putCursor_keeps c s.cursors { c₀ with appliedLsn := appliedLsn, updatedUnixSecs := now } hc with
      hkept | ⟨-,hfirst,hnew⟩
    · exact ⟨c,(hmem c).mpr hkept,rfl,le_rfl,rfl⟩
    · have hid₀ : c₀.replicaId = replicaId := by simpa using find?_some hfind
      rw [hid₀,hfind] at hfirst
      cases hfirst
      exact ⟨_,(hmem _).mpr hnew,rfl,hle,rfl⟩

/-- A plain prune retires no cursor. -/
lemma prune_keeps_cursors (s : RetentionState) (identity : DatabaseIdentity) (removals : ℕ) :
    (s.step (.prune identity none removals)).cursors = s.cursors := by
  unfold RetentionState.step
  split
  case h_2 => rfl
  case h_1 t h =>
    obtain ⟨_,-,-,hcursors⟩ := prune_ok h
    exact hcursors rfl

def retentionStep (s : RetentionState) (a : RetentionAction) : Option RetentionState := some (s.step a)

/-- In every run whose operations put no active cursor behind the chain unchecked, each active
cursor reads, after every operation, exactly the units that were in front of it before. In any
state whatever, no operation removes a unit that a cursor active afterwards still needs, an
acknowledgement lowers no cursor and a prune without a policy retires none. -/
theorem retention_never_strands {identity : SegmentIdentity} {s t : RetentionState} (hs : s.Sound identity)
    {as : List RetentionAction} (hok : Meets retentionStep Checked s as) (hrun : runSteps retentionStep s as = some t)
    (a : RetentionAction) (ha : Checked t a) :
    (∀ c ∈ (t.step a).cursors, c.active = true → ∀ max,
      readUnitsSince (t.step a).segments identity c.appliedLsn max =
        .ok (((chainUnits t.segments).filter (c.appliedLsn+1 ≤ ·.lsn)).take max)) ∧
    (∀ (x : RetentionState) (b : RetentionAction),
      (∀ segment ∈ x.segments, segment ∉ (x.step b).segments → ∀ c ∈ (x.step b).cursors, c.active = true →
        ∀ u ∈ segment.units, u.lsn < c.appliedLsn+1) ∧
      (∀ replicaId appliedLsn remoteLsn now statusOk, b = .acknowledge replicaId appliedLsn remoteLsn now statusOk →
        ∀ c ∈ x.cursors, ∃ c' ∈ (x.step b).cursors,
          c'.replicaId = c.replicaId ∧ c.appliedLsn ≤ c'.appliedLsn ∧ c'.active = c.active) ∧
      ∀ db removals, b = .prune db none removals → (x.step b).cursors = x.cursors) := by
  have ht : t.Sound identity := by
    refine runSteps_inv ?_ hs hok hrun
    intro x b y hx hb hy
    cases hy
    exact (sound_step hx hb).1
  constructor
  · intro c hc hactive max
    obtain ⟨hsound,hsame⟩ := sound_step ht ha
    obtain ⟨first,hchain⟩ := hsound.chain
    rw [readUnitsSince_eq hsound.identity_ok hchain (hsound.placed c hc hactive),hsame c hc hactive]
  · intro x b
    refine ⟨?_,?_,?_⟩
    · intro segment hseg hgone c hc hactive u hu
      exact (segment.lsn_le_endLsn hu).trans_lt (step_keeps_needed x b hseg hgone c hc hactive)
    · rintro replicaId appliedLsn remoteLsn now statusOk rfl
      exact acknowledge_never_lowers x replicaId appliedLsn remoteLsn now statusOk
    · rintro db removals rfl
      exact prune_keeps_cursors x db removals

section examples

def sampleDatabase : DatabaseIdentity := ⟨List.replicate 16 7,1⟩

def sampleUnit (lsn : ℕ) : RetainedUnit := ⟨1,4,lsn,[]⟩

def sampleSegment (units : List RetainedUnit) (h : validateUnits units = .ok ()) : RetainedSegment :=
  ⟨sampleDatabase.segmentIdentity,units,by decide,h⟩

/-- Units 10 to 13 in two segments, and a replica that has applied unit 11. -/
def sampleState : RetentionState :=
  ⟨some sampleDatabase,[⟨"a",11,0,true⟩],
    [sampleSegment [sampleUnit 10,sampleUnit 11] (by decide),sampleSegment [sampleUnit 12,sampleUnit 13] (by decide)]⟩

/-- A second replica registers, and the first segment is pruned: both replicas are past it. -/
theorem sample_replicas_keep_reading :
    ⟨"b",11,0,true⟩ ∈ ((sampleState.step (.register "b" 11 13 0)).step (.prune sampleDatabase none 5)).cursors ∧
    readUnitsSince ((sampleState.step (.register "b" 11 13 0)).step (.prune sampleDatabase none 5)).segments
      sampleDatabase.segmentIdentity 11 9 = .ok [sampleUnit 12,sampleUnit 13] := by
  have hmem : ⟨"b",11,0,true⟩ ∈
      ((sampleState.step (.register "b" 11 13 0)).step (.prune sampleDatabase none 5)).cursors := by
    decide +kernel
  have hsound : sampleState.Sound sampleDatabase.segmentIdentity :=
    ⟨by decide,⟨10,by decide,by decide,by decide⟩,by decide⟩
  have hok : Meets retentionStep Checked sampleState [.register "b" 11 13 0] := ⟨.inl (by decide),trivial⟩
  refine ⟨hmem,?_⟩
  rw [(retention_never_strands hsound hok rfl (.prune sampleDatabase none 5) trivial).1 _ hmem rfl 9]
  decide +kernel

/-- A replica that registers for the empty range after unit 3 is accepted as active although the
chain begins at unit 10; without the identity file the same position is accepted by an upsert.
Reading from there fails. -/
theorem registered_behind_chain :
    (sampleState.step (.register "b" 3 3 0)).cursors = [⟨"a",11,0,true⟩,⟨"b",3,0,true⟩] ∧
    readUnitsSince (sampleState.step (.register "b" 3 3 0)).segments sampleDatabase.segmentIdentity 3 4 =
      .error (.gap 4 10) ∧
    ({ sampleState with identity := none }.step (.upsert ⟨"b",3,0,true⟩)).cursors =
      [⟨"a",11,0,true⟩,⟨"b",3,0,true⟩] := by
  decide +kernel

end examples

end PowDB.Sync
