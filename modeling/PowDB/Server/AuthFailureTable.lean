import PowDB.Lib.AssocList
import PowDB.Lib.Counting
import Mathlib

/-! The table of authentication failures: one bucket for each key, with a count and the start of
the window it is counted in. Times are in nanoseconds. The table has at most `maxAuthBuckets`
entries; a new key may push out the lowest ranked ones. -/
namespace PowDB.Server
open Lib List Option
def maxAuthFailures : ℕ := 5
def maxPeerAuthFailures : ℕ := 50
def authFailureWindow : ℕ := 60*10^9
def maxAuthBuckets : ℕ := 4096
def authBucketsAfterEviction : ℕ := maxAuthBuckets*3/4
def authSweepInterval : ℕ := 10^9

structure FailureWindow where
  count : ℕ
  started : ℕ
  deriving DecidableEq

/-- The counter is a saturating 32-bit number. -/
def FailureWindow.again (w : FailureWindow) (now : ℕ) : FailureWindow :=
  if authFailureWindow ≤ now-w.started then ⟨1,now⟩ else ⟨min (w.count+1) (2^32-1),w.started⟩

/-- The window of a key after one more failure, and what is open of a window now. -/
def nextWindow : Option FailureWindow → ℕ → FailureWindow
  | some w, now => if authFailureWindow ≤ now-w.started then ⟨1,now⟩ else ⟨w.count+1,w.started⟩
  | none, now => ⟨1,now⟩

def openCount : Option FailureWindow → ℕ → ℕ
  | some w, now => if now-w.started < authFailureWindow then w.count else 0
  | none, _ => 0

/-- A hash map has each key once. -/
structure AuthFailureTable (κ : Type) where
  buckets : List (κ × FailureWindow)
  lastSweep : ℕ
  distinct : (buckets.map Prod.fst).Nodup

namespace AuthFailureTable
variable {κ : Type} [LinearOrder κ]
  {t : AuthFailureTable κ}

/-- Keep some of the buckets. -/
def retain (t : AuthFailureTable κ) (p : κ × FailureWindow → Bool) : AuthFailureTable κ where
  buckets := t.buckets.filter p
  lastSweep := t.lastSweep
  distinct := t.distinct.sublist (List.filter_sublist.map _)

def sweep (t : AuthFailureTable κ) (now : ℕ) : AuthFailureTable κ :=
  { t.retain fun e => decide (now-e.2.started < authFailureWindow) with lastSweep := now }

def sweepIfDue (t : AuthFailureTable κ) (now : ℕ) : AuthFailureTable κ :=
  if authSweepInterval ≤ now-t.lastSweep then t.sweep now else t

/-- An elapsed window reads as zero, swept or not. -/
def count (t : AuthFailureTable κ) (key : κ) (now : ℕ) : ℕ :=
  match t.buckets.lookup key with
  | some w => if now-w.started < authFailureWindow then w.count else 0
  | none => 0

/-- Lowest count first, then the oldest window, then the key. -/
def rank (e : κ × FailureWindow) : ℕ ×ₗ ℕ ×ₗ κ := toLex (e.2.count,toLex (e.2.started,e.1))

def rankKey (r : ℕ ×ₗ ℕ ×ₗ κ) : κ := (ofLex (ofLex r).2).2

def ranked (t : AuthFailureTable κ) : List (ℕ ×ₗ ℕ ×ₗ κ) := (t.buckets.map rank).insertionSort (· ≤ ·)

/-- The keys an eviction takes. -/
def evicted (t : AuthFailureTable κ) : List κ :=
  (t.ranked.take (t.buckets.length-authBucketsAfterEviction)).map rankKey

local instance lawfulKeys : LawfulBEq κ := inferInstance

def makeRoom (t : AuthFailureTable κ) (now : ℕ) : AuthFailureTable κ :=
  if t.buckets.length < maxAuthBuckets then t
  else if (t.sweep now).buckets.length < maxAuthBuckets then t.sweep now
  else (t.sweep now).retain fun e => decide (e.1 ∉ (t.sweep now).evicted)

lemma lookup_retain (t : AuthFailureTable κ) (p : κ × FailureWindow → Bool) (key : κ) :
    (t.retain p).buckets.lookup key = (t.buckets.lookup key).filter fun w => p (key,w) :=
  lookup_filter t.distinct p key

lemma lookup_makeRoom_of_none (h : t.buckets.lookup key = none) (now : ℕ) :
    (t.makeRoom now).buckets.lookup key = none := by
  have hsweep : (t.sweep now).buckets.lookup key = none := by
    rw [show (t.sweep now).buckets.lookup key = _ from lookup_retain t _ key,h]
    rfl
  unfold makeRoom
  split_ifs
  · exact h
  · exact hsweep
  · rw [lookup_retain,hsweep]
    rfl

/-- The buckets after one more failure of a key. -/
def counted (t : AuthFailureTable κ) (key : κ) (now : ℕ) : List (κ × FailureWindow) :=
  match t.buckets.lookup key with
  | some w => replaceKey t.buckets key (w.again now)
  | none => (key,⟨1,now⟩)::(t.makeRoom now).buckets

lemma counted_distinct (t : AuthFailureTable κ) (key : κ) (now : ℕ) :
    ((t.counted key now).map Prod.fst).Nodup := by
  unfold counted
  cases h : t.buckets.lookup key with
  | some w =>
    simp only [keys_replaceKey]
    exact t.distinct
  | none =>
    exact nodup_cons.mpr ⟨lookup_eq_none_iff.mp (lookup_makeRoom_of_none h now),(t.makeRoom now).distinct⟩

def record (t : AuthFailureTable κ) (key : κ) (now : ℕ) : AuthFailureTable κ where
  buckets := t.counted key now
  lastSweep := if (t.buckets.lookup key).isSome then t.lastSweep else (t.makeRoom now).lastSweep
  distinct := t.counted_distinct key now

def forget (t : AuthFailureTable κ) (key : κ) : AuthFailureTable κ := t.retain fun e => decide (e.1 ≠ key)

/-! The number of buckets. -/

omit [LinearOrder κ] in
lemma length_retain_le (t : AuthFailureTable κ) (p : κ × FailureWindow → Bool) :
    (t.retain p).buckets.length ≤ t.buckets.length :=
  length_filter_le _ _

lemma ranked_perm (t : AuthFailureTable κ) : t.ranked.Perm (t.buckets.map rank) := perm_insertionSort _ _

lemma ranked_keys_perm (t : AuthFailureTable κ) : (t.ranked.map rankKey).Perm (t.buckets.map Prod.fst) := by
  have := t.ranked_perm.map rankKey
  rwa [List.map_map,show rankKey ∘ rank = (Prod.fst : κ × FailureWindow → κ) from rfl] at this

/-- An eviction leaves three quarters of a full table. -/
lemma length_evict (t : AuthFailureTable κ) : (t.retain fun e => decide (e.1 ∉ t.evicted)).buckets.length =
      t.buckets.length-(t.buckets.length-authBucketsAfterEviction) := by
  have hperm := t.ranked_keys_perm
  have hnodup : (t.ranked.map rankKey).Nodup := hperm.nodup_iff.mpr t.distinct
  set n := t.buckets.length-authBucketsAfterEviction with hn
  have hsplit : t.ranked.map rankKey = t.evicted++(t.ranked.drop n).map rankKey := by
    rw [evicted,← map_append,take_append_drop]
  have hkeep : (t.ranked.map rankKey).filter (fun k => decide (k ∉ t.evicted)) = (t.ranked.drop n).map rankKey := by
    rw [hsplit,nodup_append] at hnodup
    rw [hsplit,filter_append,filter_eq_nil_iff.mpr (by simp),nil_append,filter_eq_self]
    intro k hk
    exact decide_eq_true fun hmem => hnodup.2.2 k hmem k hk rfl
  calc (t.retain fun e => decide (e.1 ∉ t.evicted)).buckets.length
      = ((t.buckets.map Prod.fst).filter fun k => decide (k ∉ t.evicted)).length := by
        simp only [retain,List.filter_map,List.length_map,Function.comp_def]
    _ = ((t.ranked.map rankKey).filter fun k => decide (k ∉ t.evicted)).length := (hperm.filter _).length_eq.symm
    _ = t.buckets.length-n := by
        rw [hkeep,length_map,length_drop,t.ranked_perm.length_eq,length_map]

lemma length_makeRoom (t : AuthFailureTable κ) (now : ℕ) : (t.makeRoom now).buckets.length < maxAuthBuckets := by
  unfold makeRoom
  split_ifs with hroom hswept
  · exact hroom
  · exact hswept
  · rw [length_evict]
    simp only [maxAuthBuckets,authBucketsAfterEviction] at hswept ⊢
    omega

/-- One more failure never takes the table over its bound. -/
lemma length_record (h : t.buckets.length ≤ maxAuthBuckets) (key : κ) (now : ℕ) :
    (t.record key now).buckets.length ≤ maxAuthBuckets := by
  simp only [record,counted]
  cases t.buckets.lookup key with
  | some w => simpa [replaceKey] using h
  | none => exact t.length_makeRoom now

omit [LinearOrder κ] in
lemma length_sweepIfDue (h : t.buckets.length ≤ maxAuthBuckets) (now : ℕ) :
    (t.sweepIfDue now).buckets.length ≤ maxAuthBuckets := by
  unfold sweepIfDue
  split_ifs
  · exact (t.length_retain_le _).trans h
  · exact h

/-! What the operations do to one bucket. -/

/-- The bucket of the key has this window, unless it has elapsed and was dropped. -/
def Tracks (t : AuthFailureTable κ) (key : κ) (now : ℕ) : Option FailureWindow → Prop
  | none => t.buckets.lookup key = none
  | some w => t.buckets.lookup key = some w ∨ t.buckets.lookup key = none ∧ authFailureWindow ≤ now-w.started

/-- A full table has fewer buckets ranked below the key's than it evicts. -/
def Displaces (t : AuthFailureTable κ) (key : κ) (now : ℕ) : Prop :=
  maxAuthBuckets ≤ (t.sweep now).buckets.length ∧ ∃ w, (t.sweep now).buckets.lookup key = some w ∧
    ((t.sweep now).buckets.map rank).countP (· < rank (key,w)) <
      (t.sweep now).buckets.length-authBucketsAfterEviction

omit [LinearOrder κ] in
lemma rank_injective : Function.Injective (rank : κ × FailureWindow → ℕ ×ₗ ℕ ×ₗ κ) := by
  rintro ⟨k,c,s⟩ ⟨k',c',s'⟩ h
  simp only [rank,EmbeddingLike.apply_eq_iff_eq,Prod.mk.injEq] at h
  obtain ⟨rfl,rfl,rfl⟩ := h
  rfl

lemma ranked_pairwise (t : AuthFailureTable κ) : t.ranked.Pairwise (· < ·) := by
  have hsorted : t.ranked.Pairwise (· ≤ ·) := pairwise_insertionSort _ _
  have hnodup : t.ranked.Nodup := t.ranked_perm.nodup_iff.mpr ((t.distinct.of_map _).map rank_injective)
  exact (hsorted.and hnodup).imp fun h => lt_of_le_of_ne h.1 h.2

lemma countP_lt_of_mem_evicted (hw : t.buckets.lookup key = some w)
    (h : key ∈ t.evicted) :
    (t.buckets.map rank).countP (· < rank (key,w)) < t.buckets.length-authBucketsAfterEviction := by
  obtain ⟨r,hr,hkey⟩ := List.mem_map.mp h
  obtain ⟨e,he,rfl⟩ := mem_map.mp (t.ranked_perm.mem_iff.mp (mem_of_mem_take hr))
  obtain ⟨k,w'⟩ := e
  obtain rfl : k = key := hkey
  obtain rfl : w = w' := some.inj (hw.symm.trans (lookup_of_mem t.distinct he))
  rw [← t.ranked_perm.countP_eq]
  exact countP_lt_of_mem_take t.ranked_pairwise hr

section tracks
variable {key : κ} {now : ℕ}

section
variable (h : t.Tracks key now w)
include h

lemma Tracks.later (hle : now ≤ now') : t.Tracks key now' w := by
  cases w with
  | none => exact h
  | some w =>
    rcases h with h | ⟨h,hold⟩
    · exact .inl h
    · exact .inr ⟨h,by omega⟩

/-- Dropping buckets, of this key only when its window has elapsed. -/
lemma Tracks.retain
    (hp : ∀ w, t.buckets.lookup key = some w → p (key,w) = false → authFailureWindow ≤ now-w.started) :
    (t.retain p).Tracks key now w := by
  cases w with
  | none =>
    rw [Tracks,lookup_retain,h]
    rfl
  | some w =>
    rw [Tracks,lookup_retain]
    rcases h with h | ⟨h,hold⟩
    · cases hpw : p (key,w) with
      | true => exact .inl (by simp [h,hpw,filter_some])
      | false => exact .inr ⟨by simp [h,hpw,filter_some],hp w h hpw⟩
    · exact .inr ⟨by simp [h],hold⟩

lemma Tracks.sweep : (t.sweep now).Tracks key now w := by
  have := h.retain (p := fun e => decide (now-e.2.started < authFailureWindow)) fun _ _ hw => by simpa using hw
  cases w <;> exact this

open AuthFailureTable

lemma Tracks.sweepIfDue : (t.sweepIfDue now).Tracks key now w := by
  unfold AuthFailureTable.sweepIfDue
  split_ifs
  · exact h.sweep
  · exact h

lemma Tracks.makeRoom (hkeep : ¬t.Displaces key now) :
    (t.makeRoom now).Tracks key now w := by
  unfold AuthFailureTable.makeRoom
  split_ifs with hroom hswept
  · exact h
  · exact h.sweep
  · refine h.sweep.retain fun w hw hout => ?_
    simp only [decide_not,Bool.not_eq_false',decide_eq_true_eq] at hout
    exact absurd ⟨Nat.le_of_not_lt hswept,w,hw,countP_lt_of_mem_evicted hw hout⟩ hkeep

lemma Tracks.of_lookup {t' : AuthFailureTable κ}
    (ht' : t'.buckets.lookup key = t.buckets.lookup key) : t'.Tracks key now w := by
  cases w <;> simpa only [Tracks,ht'] using h

/-- Counting a failure of another key. -/
lemma Tracks.record_of_ne (hne : key ≠ key')
    (hkeep : t.buckets.lookup key' = none → ¬t.Displaces key now) : (t.record key' now).Tracks key now w := by
  cases hkey' : t.buckets.lookup key' with
  | some w' =>
    apply h.of_lookup
    simp only [record,counted,hkey']
    exact lookup_replaceKey_of_ne _ hne _
  | none =>
    apply (h.makeRoom (hkeep hkey')).of_lookup
    simp only [record,counted,hkey']
    exact lookup_cons_of_ne _ hne _

lemma Tracks.record_self (hsmall : ∀ w', w = some w' → w'.count < 2^32-1) :
    (t.record key now).Tracks key now (some (nextWindow w now)) := by
  refine .inl ?_
  simp only [record,counted]
  cases w with
  | none =>
    rw [show t.buckets.lookup key = none from h]
    exact lookup_cons_self _ _ _
  | some w =>
    rcases h with h | ⟨h,hold⟩
    · have hcount := hsmall w rfl
      have hnext : w.again now = nextWindow (some w) now := by
        simp only [FailureWindow.again,nextWindow,Nat.min_eq_left (Nat.succ_le_of_lt hcount)]
      simp only [h,hnext]
      exact lookup_replaceKey_self h _
    · simp only [h,nextWindow,hold,if_true]
      exact lookup_cons_self _ _ _

lemma Tracks.count_eq : t.count key now = openCount w now := by
  unfold count
  cases w with
  | none =>
    rw [show t.buckets.lookup key = none from h]
    rfl
  | some w =>
    rcases h with h | ⟨h,hold⟩
    · rw [h]
      rfl
    · rw [h]
      exact (if_neg (Nat.not_lt_of_le hold)).symm

lemma Tracks.forget (hne : key ≠ key') : (t.forget key').Tracks key now w :=
  h.retain fun _ _ hout => absurd hne (by simpa using hout)

end

lemma tracks_forget_self (t : AuthFailureTable κ) (key : κ) (now : ℕ) : (t.forget key).Tracks key now none := by
  rw [Tracks,forget,lookup_retain]
  cases t.buckets.lookup key <;> simp [filter_some]

end tracks

end AuthFailureTable
end PowDB.Server
