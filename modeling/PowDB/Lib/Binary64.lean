import Mathlib.Order.Monotone.Basic
import Mathlib.Order.Compare
import Mathlib.Tactic.Ring
import Mathlib.Tactic.Linarith

/-! Binary64 words with their two orders: the total order of all words, and the
order of the numbers they denote. A word denotes an integer number of units of
2^-1074, so the second order is the order of the integers. -/
namespace PowDB.Lib.Binary64

def negative (w : UInt64) : Bool := decide (2^63 ≤ w.toNat)

/-- Exponent and fraction of a word, without its sign. -/
def magnitude (w : UInt64) : ℕ := w.toNat%2^63

/-- Magnitude of the two infinities. The magnitudes above it are those of NaNs. -/
def infinity : ℕ := 2047*2^52

def isNaN (w : UInt64) : Bool := decide (infinity < magnitude w)
def isFinite (w : UInt64) : Bool := decide (magnitude w < infinity)
def isZero (w : UInt64) : Bool := decide (magnitude w = 0)

/-- Position of a word in the total order: the negative words come first, and
the negative zero comes before the positive one. -/
def totalKey (w : UInt64) : ℤ :=
  if negative w then -(magnitude w : ℤ)-1 else magnitude w

def totalCmp (a b : UInt64) : Ordering := compare (totalKey a) (totalKey b)

/-- The number of a magnitude in units of 2^-1074. -/
def units (m : ℕ) : ℕ :=
  if m < 2^52 then m else (2^52+m%2^52)*2^(m/2^52-1)

/-- The number a word denotes, in units of 2^-1074. -/
def scaled (w : UInt64) : ℤ := if negative w then -(units (magnitude w) : ℤ) else units (magnitude w)

/-- One, in units of 2^-1074. -/
def one : ℤ := 2^1074

/-- Magnitude of the word nearest to a natural number, ties to the even word. -/
def nearestMagnitude (n : ℕ) : ℕ :=
  if n = 0 then 0
  else
    let b := Nat.log2 n
    if b ≤ 52 then (b+1022)*2^52+n*2^(52-b)
    else
      let s := b-52
      let q := n/2^s
      let r := n%2^s
      (b+1022)*2^52+if 2^(s-1) < r ∨ (r = 2^(s-1) ∧ q%2 = 1) then q+1 else q

/-- The word nearest to an integer. -/
def ofInt (i : ℤ) : UInt64 :=
  UInt64.ofNat (if i < 0 then 2^63+nearestMagnitude i.natAbs else nearestMagnitude i.natAbs)

lemma units_lt_succ (m : ℕ) : units m < units (m+1) := by
  by_cases hsub : m+1 < 2^52
  · simp only [units]
    rw [if_pos hsub,if_pos (by omega)]
    omega
  by_cases hfirst : m+1 = 2^52
  · have hm : m < 2^52 := by omega
    simp only [units]
    rw [if_pos hm,if_neg hsub,hfirst]
    norm_num
    omega
  have hm : ¬ m < 2^52 := by omega
  simp only [units,if_neg hm,if_neg hsub]
  by_cases hcarry : m%2^52+1 < 2^52
  · have hdiv : (m+1)/2^52 = m/2^52 := by omega
    have hmod : (m+1)%2^52 = m%2^52+1 := by omega
    rw [hdiv,hmod]
    apply Nat.mul_lt_mul_of_pos_right
    · omega
    · positivity
  · have hdiv : (m+1)/2^52 = m/2^52+1 := by omega
    have hmod : (m+1)%2^52 = 0 := by omega
    obtain ⟨e,he⟩ : ∃ e, m/2^52 = e+1 := ⟨m/2^52-1,by omega⟩
    rw [hdiv,hmod,he]
    simp only [Nat.add_sub_cancel]
    calc (2^52+m%2^52)*2^e < (2^52*2)*2^e := by
          apply Nat.mul_lt_mul_of_pos_right
          · omega
          · positivity
      _ = (2^52+0)*2^(e+1) := by ring

lemma units_strictMono : StrictMono units := strictMono_nat_of_lt_succ units_lt_succ

@[simp] lemma units_zero : units 0 = 0 := by
  decide

lemma units_pos : 0 < units m ↔ 0 < m := by
  constructor
  · intro h
    rcases Nat.eq_zero_or_pos m with rfl | hm
    · simp at h
    · exact hm
  · intro h
    have := units_strictMono h
    omega

lemma scaled_eq_zero : scaled w = 0 ↔ isZero w = true := by
  have h := units_pos (m := magnitude w)
  simp only [scaled,isZero,decide_eq_true_eq]
  split <;> omega


/-- The total order refines the order of the numbers. -/
lemma scaled_le_of_totalKey_le (h : totalKey a ≤ totalKey b) :
    scaled a ≤ scaled b := by
  simp only [totalKey,scaled] at *
  split at h <;> split at h
  · have := units_strictMono.monotone (show magnitude b ≤ magnitude a by omega)
    simp_all
  · simp_all
  · omega
  · have := units_strictMono.monotone (show magnitude a ≤ magnitude b by omega)
    simp_all

lemma totalKey_lt_of_scaled_lt (h : scaled a < scaled b) :
    totalKey a < totalKey b := by
  by_contra hn
  have := scaled_le_of_totalKey_le (not_lt.mp hn)
  omega

lemma totalKey_inj : totalKey a = totalKey b ↔ a = b := by
  refine ⟨fun h => ?_,fun h => by rw [h]⟩
  have ha := a.toNat_lt
  have hb := b.toNat_lt
  apply UInt64.toNat_inj.mp
  simp only [totalKey,negative,magnitude,decide_eq_true_eq] at h
  split at h <;> split at h <;> omega

/-- Two words of one number are one word, or the two zeros. -/
lemma eq_of_scaled_eq (h : scaled a = scaled b) (hz : isZero a = false) :
    a = b := by
  have hne : scaled a ≠ 0 := by
    rw [Ne,scaled_eq_zero,hz]
    simp
  apply totalKey_inj.mp
  have hunits : units (magnitude a) = units (magnitude b) := by
    simp only [scaled] at h
    split at h <;> split at h <;> omega
  have hmag : magnitude a = magnitude b := units_strictMono.injective hunits
  have hsign : negative a = negative b := by
    simp only [scaled] at h hne
    rcases ha : negative a with _ | _ <;> rcases hb : negative b with _ | _ <;>
      simp only [ha,hb] at h hne <;> first | rfl | (simp at h hne; omega)
  rw [totalKey,totalKey,hmag,hsign]

/-- Away from the zeros the two orders are one. -/
lemma totalCmp_eq_compare_scaled (hz : ¬(isZero a = true ∧ isZero b = true)) :
    totalCmp a b = compare (scaled a) (scaled b) := by
  rcases lt_trichotomy (scaled a) (scaled b) with h | h | h
  · rw [totalCmp,compare_lt_iff_lt.mpr h,compare_lt_iff_lt.mpr (totalKey_lt_of_scaled_lt h)]
  · have hab : a = b := by
      rcases hza : isZero a with _ | _
      · exact eq_of_scaled_eq h hza
      · have hzb : isZero b = true := by
          rw [← scaled_eq_zero,← h,scaled_eq_zero]
          exact hza
        exact absurd ⟨hza,hzb⟩ hz
    subst hab
    rw [totalCmp,compare_eq_iff_eq.mpr rfl,compare_eq_iff_eq.mpr rfl]
  · rw [totalCmp,compare_gt_iff_gt.mpr h,compare_gt_iff_gt.mpr (totalKey_lt_of_scaled_lt h)]

end PowDB.Lib.Binary64
