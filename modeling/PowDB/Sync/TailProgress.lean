import PowDB.Sync.Segment

/-! How far the retained history reaches without a gap, and when the three walks over the segment
files tell the same. -/
namespace PowDB.Sync
open Lib List

structure RetainedTailProgress where
  sinceLsn : ℕ
  requestedThroughLsn : ℕ
  contiguousThroughLsn : ℕ
  unitsAvailable : ℕ
  firstLsn : Option ℕ
  lastLsn : Option ℕ
  deriving DecidableEq

/-- What `retained_tail_progress` carries from unit to unit. -/
structure TailProgress where
  expected : ℕ
  started : Bool
  available : ℕ
  first : Option ℕ
  last : Option ℕ

def TailProgress.report (since requested : ℕ) (r : TailProgress) : RetainedTailProgress :=
  ⟨since,requested,r.last.getD since,r.available,r.first,r.last⟩

/-- The loop over the units of one segment; `inr` is its early return. -/
def progressUnits (since requested : ℕ) (r : TailProgress) :
    List RetainedUnit → Except SyncError (TailProgress ⊕ RetainedTailProgress)
  | [] => .ok (.inl r)
  | unit::units =>
    if unit.lsn < r.expected then progressUnits since requested r units
    else if r.expected < unit.lsn then .error (.unitGap r.expected unit.lsn)
    else if requested < unit.lsn then .ok (.inr (r.report since requested))
    else
      let first := some (r.first.getD unit.lsn)
      if u64Max ≤ r.expected then .error .lsnOverflow
      else if requested ≤ unit.lsn then .ok (.inr ⟨since,requested,unit.lsn,r.available+1,first,some unit.lsn⟩)
      else progressUnits since requested ⟨r.expected+1,true,r.available+1,first,some unit.lsn⟩ units

/-- The loop over the segment files; those that end at the start or before are not opened. -/
def progressSegments (identity : SegmentIdentity) (since requested version : ℕ) (r : TailProgress) :
    List RetainedSegment → Except SyncError RetainedTailProgress
  | [] => .ok (r.report since requested)
  | segment::segments =>
    if segment.endLsn ≤ since then progressSegments identity since requested version r segments
    else if requested < segment.startLsn then .ok (r.report since requested)
    else do
      checkSegment identity version segment
      if segment.endLsn < r.expected then
        progressSegments identity since requested segment.identity.catalogVersion r segments
      else
        checkStart r.expected r.started segment
        match ← progressUnits since requested r segment.units with
        | .inl r => progressSegments identity since requested segment.identity.catalogVersion r segments
        | .inr progress => .ok progress

def retainedTailProgress (segments : List RetainedSegment) (identity : SegmentIdentity)
    (since requested : ℕ) : Except SyncError RetainedTailProgress := do
  validateIdentity identity
  if requested ≤ since then .ok ⟨since,requested,since,0,none,none⟩
  else if u64Max ≤ since then .error .lsnOverflow
  else progressSegments identity since requested 0 ⟨since+1,false,0,none,none⟩ segments

/-- The segments a reader through an LSN comes to. -/
def visited (through : ℕ) : List RetainedSegment → List RetainedSegment
  | [] => []
  | s::ss =>
    if through < s.startLsn then []
    else if through < s.endLsn then [s]
    else s::visited through ss

/-- One lineage, catalog versions that do not decrease, and no overlap among the segments that end
after `since`. -/
def Orderly (identity : SegmentIdentity) (since : ℕ) (segments : List RetainedSegment) : Prop :=
  (∀ s ∈ segments, s.identity.lineageMatches identity = true) ∧
    segments.Pairwise fun s t => s.identity.catalogVersion ≤ t.identity.catalogVersion ∧
      (since < s.endLsn → since < t.endLsn → s.endLsn < t.startLsn)

variable {segments ss : List RetainedSegment} {identity : SegmentIdentity}
  {since through requested version e : ℕ} {started : Bool} {s : RetainedSegment}

/-! What the other two walks need in order to go well, told by the ranges of the segments. -/

def Counts (identity : SegmentIdentity) (through : ℕ) : ℕ → ℕ → Bool → List RetainedSegment → Prop
  | _, _, _, [] => False
  | version, e, started, s::ss => checkSegment identity version s = .ok () ∧
    if s.endLsn < e then Counts identity through s.identity.catalogVersion e started ss
    else checkStart e started s = .ok () ∧
      (through ≤ s.endLsn ∨ Counts identity through s.identity.catalogVersion (s.endLsn+1) true ss)

def Progresses (identity : SegmentIdentity) (since requested through : ℕ) : ℕ → ℕ → Bool → List RetainedSegment → Prop
  | _, e, _, [] => e = through+1
  | version, e, started, s::ss =>
    if s.endLsn ≤ since then Progresses identity since requested through version e started ss
    else if requested < s.startLsn then e = through+1
    else checkSegment identity version s = .ok () ∧
      if s.endLsn < e then Progresses identity since requested through s.identity.catalogVersion e started ss
      else checkStart e started s = .ok () ∧
        if requested ≤ s.endLsn then requested = through
        else Progresses identity since requested through s.identity.catalogVersion (s.endLsn+1) true ss

lemma countSegments_ok_iff (hc : c.expected ≤ through) :
    (∃ a, countSegments identity since through version c ss = .ok a) ↔
      Counts identity through version c.expected c.started ss := by
  induction ss generalizing version c with
  | nil => simp [countSegments,Counts]
  | cons s ss ih =>
    simp only [countSegments,Counts,check_ok_iff,exists_and_left]
    refine and_congr_right fun _ => ?_
    by_cases hskip : s.endLsn < c.expected
    · simpa only [if_pos hskip] using ih hc
    · simp only [if_neg hskip,check_ok_iff,exists_and_left]
      refine and_congr_right fun hbegin => ?_
      obtain ⟨hstart,hsync⟩ := checkStart_ok_iff.mp hbegin
      rcases s.consecutive.scan (countUnits since through) (·.expected) (·.started) (fun _ => True) (fun _ => True)
        (fun _ => rfl) (fun q x xs _ hlt => by rw [countUnits,if_pos hlt])
        (fun q x xs _ hmax hx hlt => ⟨⟨q.expected+1,true,q.available+1,some (q.first.getD x.lsn)⟩,by
          simp [countUnits,hx,Nat.not_le.mpr hlt,Nat.not_le.mpr (hx ▸ hmax)],trivial,rfl,rfl⟩)
        (fun q x xs _ _ hx heq => by simp [countUnits,hx,heq])
        s.endLsn_eq (fun _ => s.lsn_lt) trivial hstart hsync (.inr (Nat.le_of_not_lt hskip)) hc with
        ⟨hlt,c',heq,-,hc',hst⟩ | ⟨hge,a,heq,-⟩
      · rw [heq,or_iff_right (Nat.not_le.mpr hlt),← hc',← hst]
        exact ih (hc' ▸ hlt)
      · simp [heq,hge,Bind.bind,Except.bind]

lemma progressSegments_ok_iff (hr : r.expected ≤ requested) (hlast : r.last.getD since+1 = r.expected) :
    (∃ p, progressSegments identity since requested version r ss = .ok p ∧ p.contiguousThroughLsn = through) ↔
      Progresses identity since requested through version r.expected r.started ss := by
  have hreport : (∃ p, Except.ok (ε := SyncError) (r.report since requested) = .ok p ∧ p.contiguousThroughLsn = through) ↔
      r.expected = through+1 := by
    rw [← hlast]
    simp [TailProgress.report]
  induction ss generalizing version r with
  | nil => exact hreport
  | cons s ss ih =>
    rw [progressSegments,Progresses]
    by_cases hold : s.endLsn ≤ since
    · simpa only [if_pos hold] using ih hr hlast hreport
    · by_cases hfar : requested < s.startLsn
      · simpa only [if_neg hold,if_pos hfar] using hreport
      · simp only [if_neg hold,if_neg hfar,check_ok_iff,and_assoc,exists_and_left]
        refine and_congr_right fun _ => ?_
        by_cases hskip : s.endLsn < r.expected
        · simpa only [if_pos hskip] using ih hr hlast hreport
        · simp only [if_neg hskip,check_ok_iff,and_assoc,exists_and_left]
          refine and_congr_right fun hbegin => ?_
          obtain ⟨hstart,hsync⟩ := checkStart_ok_iff.mp hbegin
          rcases s.consecutive.scan (progressUnits since requested) (·.expected) (·.started)
            (fun q => q.last.getD since+1 = q.expected) (fun p => p.contiguousThroughLsn = requested)
            (fun _ => rfl) (fun q x xs _ hlt => by rw [progressUnits,if_pos hlt])
            (fun q x xs _ hmax hx hlt =>
              ⟨⟨q.expected+1,true,q.available+1,some (q.first.getD x.lsn),some x.lsn⟩,by
                simp [progressUnits,hx,Nat.not_le.mpr hlt,Nat.lt_asymm hlt,Nat.not_le.mpr (hx ▸ hmax)],by simp [hx],rfl,rfl⟩)
            (fun q x xs _ hmax hx heq => by simp [progressUnits,hx,heq,Nat.not_le.mpr (heq ▸ hx ▸ hmax)])
            s.endLsn_eq (fun _ => s.lsn_lt) hlast hstart hsync (.inr (Nat.le_of_not_lt hskip)) hr with
            ⟨hlt,r',heq,hlast',hr',hst⟩ | ⟨hge,p,heq,hp⟩
          · rw [heq,if_neg (Nat.not_le.mpr hlt),← hr',← hst]
            exact ih (hr' ▸ hlt) hlast' (by rw [← hlast']; simp [TailProgress.report])
          · simp [heq,hge,hp,Bind.bind,Except.bind]

/-! The walks compared. -/

/-- The segments left are orderly and follow those a walk at `e` has been through. -/
def Fits (identity : SegmentIdentity) (since version e : ℕ) (started : Bool) (ss : List RetainedSegment) : Prop :=
  Orderly identity since ss ∧
    ∀ t ∈ ss, version ≤ t.identity.catalogVersion ∧ (started = true → since < t.endLsn → e ≤ t.startLsn)

lemma fits_nil : Fits identity since version e started [] := by simp [Fits,Orderly]

lemma fits_cons : Fits identity since version e started (s::ss) ↔
    checkSegment identity version s = .ok () ∧ (started = true → since < s.endLsn → e ≤ s.startLsn) ∧
      Fits identity since s.identity.catalogVersion (if s.endLsn ≤ since then e else s.endLsn+1)
        (started || decide (since < s.endLsn)) ss := by
  have hle := s.startLsn_le_endLsn
  simp only [Fits,Orderly,forall_mem_cons,pairwise_cons,checkSegment_ok_iff]
  grind

lemma visited_cons : visited through (s::ss) = if through < s.startLsn then [] else
    if through < s.endLsn then [s] else s::visited through ss := rfl

lemma Progresses.le (h : Progresses identity since requested through version e started ss) (he : e ≤ requested) :
    e ≤ through+1 := by
  induction ss generalizing version e started with
  | nil => grind [Progresses]
  | cons s ss ih => grind [Progresses]

lemma Progresses.counts (h : Progresses identity since requested through version' e started ss) (hsince : since < e)
    (hfresh : started = false → e = since+1) (he : e ≤ requested) (hle : e ≤ through)
    (hfits : Fits identity since version e started (visited through ss)) :
      Counts identity through version e started ss := by
  induction ss generalizing version version' e started with
  | nil => grind [Progresses]
  | cons s ss ih =>
    have := s.startLsn_le_endLsn
    rw [Progresses] at h
    rw [visited] at hfits
    grind [Counts,fits_cons,checkStart_ok_iff,Progresses.le]

lemma Counts.progresses (h : Counts identity through version e started ss) (hsince : since < e) (he : e ≤ through)
    (hv : version' ≤ version) : Progresses identity since through through version' e started ss := by
  induction ss generalizing version version' e started with
  | nil => exact h.elim
  | cons s ss ih =>
    obtain ⟨hcheck,h⟩ := h
    rw [checkSegment_ok_iff] at hcheck
    have hle := s.startLsn_le_endLsn
    have hv' := Nat.le_trans hv hcheck.2
    rw [Progresses,checkSegment_ok_iff]
    by_cases hskip : s.endLsn < e
    · rw [if_pos hskip] at h ⊢
      rw [if_neg (show ¬through < s.startLsn by omega)]
      split_ifs
      · exact ih h hsince he hv'
      · exact ⟨⟨hcheck.1,hv'⟩,ih h hsince he (Nat.le_refl _)⟩
    · rw [if_neg hskip] at h ⊢
      obtain ⟨hbegin,h⟩ := h
      have := (checkStart_ok_iff.mp hbegin).1
      rw [if_neg (by omega),if_neg (by omega)]
      refine ⟨⟨hcheck.1,hv'⟩,hbegin,?_⟩
      split_ifs with hlast
      · rfl
      · exact ih (h.resolve_left hlast) (by omega) (by omega) (Nat.le_refl _)

lemma Counts.reads (h : e ≤ through → Counts identity through version e started ss) (hsince : since < e)
    (hthrough : since < through) (hfresh : started = false → e = since+1) (he : e ≤ through+1) (hmax : through ≤ since+limit)
    (hfits : Fits identity since version e started (visited through ss)) :
    Reads identity since through limit (through+1) version e started ss := by
  induction ss generalizing version e started with
  | nil => grind [Counts,Reads]
  | cons s ss ih =>
    have := s.startLsn_le_endLsn
    rw [Counts] at h
    rw [visited] at hfits
    rw [Reads]
    grind [fits_cons,checkStart_ok_iff]

lemma Reads.fits (h : Reads identity since through limit (through+1) version e started ss) (hmax : through < since+limit)
    (hfresh : started = false → e = since+1) (hthrough : since < through) :
    Fits identity since version e started (visited through ss) := by
  induction ss generalizing version e started with
  | nil => exact fits_nil
  | cons s ss ih =>
    have := s.startLsn_le_endLsn
    rw [Reads,Nat.min_eq_left hmax] at h
    rw [visited]
    grind [fits_cons,fits_nil,checkStart_ok_iff]

/-- History reported through an LSN above the start validates and reads, each unit once and in
order, exactly if the segments the reader visits are orderly. What validates is always reported. -/
theorem tail_walks_agree (segments : List RetainedSegment) (identity : SegmentIdentity) (since requested : ℕ) :
    (∀ p, retainedTailProgress segments identity since requested = .ok p → since < p.contiguousThroughLsn →
      (((∃ a, validateRetainedTailAvailable segments identity since p.contiguousThroughLsn = .ok a) ∧
          ∀ max, p.contiguousThroughLsn ≤ since+max → ∃ out,
            readUnitsThrough segments identity since p.contiguousThroughLsn max = .ok out ∧
            Tail segments since (p.contiguousThroughLsn+1) out) ↔
        Orderly identity since (visited p.contiguousThroughLsn segments))) ∧
    ∀ through a, validateRetainedTailAvailable segments identity since through = .ok a →
      ∃ p, retainedTailProgress segments identity since through = .ok p ∧ p.contiguousThroughLsn = max since through := by
  constructor
  · intro p hp hlt
    obtain ⟨hid,hp⟩ := check_ok_iff.mp hp
    split_ifs at hp with hnone hmax
    · cases hp
      simp at hlt
    have hread : ∀ max, p.contiguousThroughLsn ≤ since+max →
        ((∃ out, readUnitsThrough segments identity since p.contiguousThroughLsn max = .ok out ∧
            Tail segments since (p.contiguousThroughLsn+1) out) ↔
          Reads identity since p.contiguousThroughLsn max (p.contiguousThroughLsn+1) 0 (since+1) false segments) := by
      intro max hm
      have hask : ¬(max = 0 ∨ p.contiguousThroughLsn ≤ since) := by omega
      simp only [readUnitsThrough,check_ok_iff,hid,if_neg hmax,if_neg hask,true_and]
      exact readSegments_ok_iff (r := ⟨since+1,false,[]⟩) (fun _ h => h) (by simp only; omega) (fun _ => rfl)
        ⟨trivial,rfl,nil_subset _⟩
    constructor
    · rintro ⟨-,hall⟩
      have hm : p.contiguousThroughLsn ≤ since+(p.contiguousThroughLsn+1) := by omega
      exact (((hread _ hm).mp (hall _ hm)).fits (by omega) (fun _ => rfl) hlt).1
    · intro horderly
      have hfits : Fits identity since 0 (since+1) false (visited p.contiguousThroughLsn segments) :=
        ⟨horderly,fun t _ => ⟨Nat.zero_le _,by simp⟩⟩
      have hcounts := ((progressSegments_ok_iff (Nat.lt_of_not_le hnone) rfl).mp ⟨p,hp,rfl⟩).counts
        (Nat.lt_succ_self _) (fun _ => rfl) (Nat.lt_of_not_le hnone) hlt hfits
      refine ⟨?_,fun max hm => (hread max hm).mpr ?_⟩
      · simp only [validateRetainedTailAvailable,check_ok_iff,hid,if_neg hmax,if_neg (Nat.not_le.mpr hlt),true_and]
        exact (countSegments_ok_iff hlt).mpr hcounts
      · exact Counts.reads (fun _ => hcounts) (Nat.lt_succ_self _) hlt (fun _ => rfl) (by omega) hm hfits
  · intro through a hv
    obtain ⟨hid,hv⟩ := check_ok_iff.mp hv
    simp only [retainedTailProgress,check_ok_iff,hid,true_and]
    split_ifs at hv ⊢ with hle
    · exact ⟨_,rfl,(Nat.max_eq_left hle).symm⟩
    · rw [Nat.max_eq_right (Nat.le_of_not_le hle)]
      refine (progressSegments_ok_iff (Nat.lt_of_not_le hle) rfl).mpr ?_
      exact ((countSegments_ok_iff (Nat.lt_of_not_le hle)).mp ⟨a,hv⟩).progresses (Nat.lt_succ_self _)
        (Nat.lt_of_not_le hle) (Nat.le_refl 0)

section examples

def tailUnit (lsn : ℕ) : RetainedUnit := ⟨1,2,lsn,[]⟩

def tailIdentity : SegmentIdentity := ⟨replicate 16 7,1,walFormatVersion,1⟩

/-- LSNs 1 to 2, 2 alone again, and 3. -/
def repeatedTail : List RetainedSegment :=
  [⟨tailIdentity,[tailUnit 1,tailUnit 2],by decide,by decide⟩,⟨tailIdentity,[tailUnit 2],by decide,by decide⟩,
    ⟨tailIdentity,[tailUnit 3],by decide,by decide⟩]

/-- Past the repeated segment the history is reported and the same history cannot be read. -/
theorem repeated_tail_unreadable :
    (retainedTailProgress repeatedTail tailIdentity 0 3).map (·.contiguousThroughLsn) = .ok 3 ∧
      readUnitsThrough repeatedTail tailIdentity 0 3 10 = .error (.overlap 3 2) := by decide

theorem first_unit_agrees :
    (∃ a, validateRetainedTailAvailable repeatedTail tailIdentity 0 1 = .ok a) ∧
      ∀ max, 1 ≤ 0+max → ∃ out, readUnitsThrough repeatedTail tailIdentity 0 1 max = .ok out ∧ Tail repeatedTail 0 2 out :=
  ((tail_walks_agree repeatedTail tailIdentity 0 1).1 ⟨0,1,1,1,some 1,some 1⟩ rfl (by decide)).mpr ⟨by decide,by decide⟩

end examples

end PowDB.Sync
