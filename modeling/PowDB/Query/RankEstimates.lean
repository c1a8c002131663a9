import Mathlib

/-! The ranking of the equality candidates of a conjunction. Each index is counted up to a cap,
and the cap grows until the least estimate is settled. -/
namespace PowDB.Query.Ranking
open List

def usizeMax : ℕ := 2^64-1

def fullProbeCap : ℕ := usizeMax

def initialRankCap : ℕ := 16

def saturatingMul (a b : ℕ) : ℕ := min (a*b) usizeMax

structure EqEstimate where
  rows : ℕ
  settled : Bool
  fullCap : ℕ

def EqEstimate.counted (count cap fullCap : ℕ) : EqEstimate := ⟨count,decide (count < cap ∨ fullCap ≤ cap),fullCap⟩

/-- An index with `count` entries under the literal. -/
structure Candidate where
  count : ℕ
  fullCap : ℕ
  probed : 1 ≤ fullCap
  fits : fullCap ≤ usizeMax

namespace Candidate

/-- The entries a count with a cap walks. -/
def walk (c : Candidate) (cap : ℕ) : ℕ := min c.count (min cap c.fullCap)

def countAt (c : Candidate) (cap : ℕ) : EqEstimate := .counted (c.walk cap) (min cap c.fullCap) c.fullCap

/-- What the full probe counts. -/
def full (c : Candidate) : ℕ := min c.count c.fullCap

end Candidate

/-- A candidate with its estimate and the entries walked for it so far. -/
structure Slot where
  candidate : Candidate
  estimate : EqEstimate
  walked : ℕ

def Slot.new (c : Candidate) : Slot := ⟨c,⟨0,false,0⟩,0⟩

def Slot.round (cap : ℕ) (s : Slot) : Slot :=
  if s.estimate.settled then s
  else ⟨s.candidate,s.candidate.countAt cap,s.walked+s.candidate.walk cap⟩

/-- The position of the least number, the first of them in a tie. -/
def leastAt (rows : List ℕ) : Option ℕ := (range rows.length).argmin fun i => toLex (rows.getD i 0,i)

def nextRankCap (cap largestFullCap : ℕ) : ℕ :=
  if largestFullCap ≤ saturatingMul (saturatingMul cap 2) 4 then fullProbeCap else saturatingMul cap 2

def largestFullCap (slots : List Slot) : ℕ :=
  ((slots.filter (!·.estimate.settled)).map (·.estimate.fullCap)).foldl max 0

open Slot

/-- The rounds, as long as there is fuel. -/
def settleRounds : ℕ → ℕ → List Slot → Option (List Slot)
  | 0,_,_ => none
  | fuel+1,cap,slots =>
    let slots := slots.map (round cap)
    match leastAt (slots.map (·.estimate.rows)) with
    | none => some []
    | some best =>
      if slots[best]?.any (·.estimate.settled) then some slots
      else settleRounds fuel (nextRankCap cap (largestFullCap slots)) slots

def settleEstimates (fuel : ℕ) (cs : List Candidate) : Option (List Slot) :=
  settleRounds fuel initialRankCap (cs.map .new)

lemma leastAt_eq_some :
    leastAt rows = some b ↔
      b < rows.length ∧ ∀ i < rows.length, toLex (rows.getD b 0,b) ≤ toLex (rows.getD i 0,i) := by
  simp only [leastAt,argmin_eq_some_iff,mem_range]
  refine and_congr_right fun _ => and_iff_left_of_imp fun hmin i hi hle => ?_
  have hkey := toLex.injective (le_antisymm hle (hmin i hi))
  rw [show i = b from congrArg Prod.snd hkey]

/-- Numbers that are no less, and the same at the least position, leave it the least. -/
lemma leastAt_of_le {α : Type} {f g : α → ℕ} {l : List α} {a : α} (h : leastAt (l.map f) = some b)
    (hle : ∀ a ∈ l, f a ≤ g a) (ha : l[b]? = some a) (heq : g a = f a) : leastAt (l.map g) = some b := by
  obtain ⟨hb,hmin⟩ := leastAt_eq_some.mp h
  refine leastAt_eq_some.mpr ⟨by simpa using hb,?_⟩
  intro i hi
  rw [length_map] at hi
  have hkey := hmin i (by simpa using hi)
  have hi' := hle l[i] (getElem_mem hi)
  simp only [getD_eq_getElem?_getD,getElem?_map,ha,getElem?_eq_getElem hi,Option.map_some,Option.getD_some,
    Prod.Lex.toLex_le_toLex,heq] at hkey ⊢
  omega

/-- A slot about to be counted with a cap. -/
structure Ready (cap : ℕ) (s : Slot) : Prop where
  settled : s.estimate.settled = true →
    s.estimate.rows = s.candidate.full ∧ s.walked < 3*s.candidate.full+3*initialRankCap
  cheap : s.estimate.settled = false → s.walked < 2*s.candidate.full+3*initialRankCap
  doubling : s.estimate.settled = false → cap < s.candidate.fullCap → s.walked < cap

/-- A slot that was counted with a cap: it is settled, or its count has reached the cap. -/
structure Counted (cap : ℕ) (s : Slot) : Prop where
  settled : s.estimate.settled = true →
    s.estimate.rows = s.candidate.full ∧ s.walked < 3*s.candidate.full+3*initialRankCap
  saturated : s.estimate.settled = false →
    s.estimate.rows = cap ∧ cap ≤ s.candidate.count ∧ cap < s.candidate.fullCap ∧ s.walked < 2*cap

variable {cap n : ℕ} {s : Slot} {slots : List Slot}

@[simp] lemma Slot.round_candidate : (s.round cap).candidate = s.candidate := by
  unfold round
  split <;> rfl

open Candidate

lemma Candidate.countAt_settled (c : Candidate) (cap : ℕ) :
    (c.countAt cap).settled = true ↔ c.count < cap ∨ c.fullCap ≤ cap := by
  refine decide_eq_true_iff.trans ?_
  rw [walk]
  omega

lemma Ready.round (h : Ready cap s) : Counted cap (s.round cap) := by
  unfold Slot.round
  split
  · rename_i hs
    exact ⟨fun _ => h.settled hs,fun hn => absurd (hs.symm.trans hn) nofun⟩
  · rename_i hs
    have hcheap := h.cheap (by simpa using hs)
    have hdoubling := h.doubling (by simpa using hs)
    have hwalk : (s.candidate.countAt cap).rows = min s.candidate.count (min cap s.candidate.fullCap) := rfl
    have hwalk' : s.candidate.walk cap = min s.candidate.count (min cap s.candidate.fullCap) := rfl
    rw [full] at hcheap
    constructor <;> simp only [← Bool.not_eq_true,countAt_settled,hwalk,hwalk',full] <;> omega

lemma Counted.rows_le (h : Counted cap s) : s.estimate.rows ≤ s.candidate.full := by
  cases hs : s.estimate.settled with
  | true => exact (h.settled hs).1.le
  | false =>
    obtain ⟨hrows,hcount,hcap,-⟩ := h.saturated hs
    exact hrows.trans_le (le_min hcount hcap.le)

lemma Counted.walked_lt (h : Counted cap s) : s.walked < 3*s.candidate.full+3*initialRankCap := by
  cases hs : s.estimate.settled with
  | true => exact (h.settled hs).2
  | false =>
    obtain ⟨-,hcount,hcap,hwalked⟩ := h.saturated hs
    have hfull : cap ≤ s.candidate.full := le_min hcount hcap.le
    omega

lemma nextRankCap_eq (cap largest : ℕ) : nextRankCap cap largest = usizeMax ∨
    nextRankCap cap largest = 2*cap ∧ 2*cap ≤ usizeMax := by
  unfold nextRankCap
  split
  · exact .inl rfl
  · rw [saturatingMul]
    omega

lemma Counted.next (h : Counted cap s) (largest : ℕ) : Ready (nextRankCap cap largest) s := by
  refine ⟨h.settled,?_,?_⟩ <;> intro hs <;> obtain ⟨-,hcount,hcap,hwalked⟩ := h.saturated hs
  · have hfull : cap ≤ s.candidate.full := le_min hcount hcap.le
    omega
  · intro hnext
    have hfits := s.candidate.fits
    rcases nextRankCap_eq cap largest with he | he <;> omega

/-- What the rounds end with. -/
structure Ends (cs : List Candidate) (cap : ℕ) (out : List Slot) : Prop where
  candidates : out.map candidate = cs
  counted : ∀ s ∈ out, Counted cap s
  least : ∀ b, leastAt (out.map (·.estimate.rows)) = some b → ∃ s, out[b]? = some s ∧ s.estimate.settled = true

/-- The cap doubles until it holds every full probe. -/
lemma settleRounds_ends (hcap : cap ≤ usizeMax) (hn : 2*usizeMax ≤ cap*2^n) (hready : ∀ s ∈ slots, Ready cap s)
    (fuel : ℕ) :
    ∃ cap' out, settleRounds (fuel+n) cap slots = some out ∧ Ends (slots.map candidate) cap' out := by
  induction n generalizing cap slots with
  | zero =>
    rw [usizeMax] at hcap hn
    omega
  | succ n ih =>
    have hcounted : ∀ s ∈ slots.map (round cap), Counted cap s := by
      intro s hs
      obtain ⟨s₀,hs₀,rfl⟩ := mem_map.mp hs
      exact (hready s₀ hs₀).round
    have hcandidates : (slots.map (round cap)).map candidate = slots.map candidate := by simp
    rw [← Nat.add_assoc,settleRounds]
    cases hb : leastAt ((slots.map (round cap)).map (·.estimate.rows)) with
    | none =>
      have hnil : slots = [] := by simpa [leastAt] using hb
      subst hnil
      exact ⟨cap,[],rfl,rfl,by simp,by simp [leastAt]⟩
    | some b =>
      obtain ⟨hlt,-⟩ := leastAt_eq_some.mp hb
      rw [length_map] at hlt
      have hget := getElem?_eq_getElem hlt
      have hs := hcounted _ (getElem_mem hlt)
      generalize (slots.map (round cap))[b] = s at hget hs
      simp only [hget,Option.any_some]
      split
      · rename_i hsettled
        refine ⟨cap,_,rfl,hcandidates,hcounted,fun b' hb' => ?_⟩
        cases hb.symm.trans hb'
        exact ⟨s,hget,hsettled⟩
      · rename_i hsettled
        rw [← hcandidates]
        have hfull := (hs.saturated (by simpa using hsettled)).2.2.1
        have hfits := s.candidate.fits
        refine ih ?_ ?_ fun s hs => (hcounted s hs).next _
        · rcases nextRankCap_eq cap (largestFullCap (slots.map (round cap))) with he | ⟨he,hle⟩ <;> omega
        · rcases nextRankCap_eq cap (largestFullCap (slots.map (round cap))) with he | ⟨he,-⟩ <;> rw [he]
          · cases n with
            | zero => omega
            | succ n =>
              rw [Nat.mul_comm]
              exact Nat.mul_le_mul_left _ (Nat.le_self_pow n.succ_ne_zero 2)
          · rwa [Nat.pow_succ',← Nat.mul_assoc,Nat.mul_comm cap] at hn

/-- The rounds end, with the candidate the full probes would pick, and each candidate is walked less
than three times its full probe and three initial caps. -/
theorem settleEstimates_picks_the_full_winner (cs : List Candidate) (fuel : ℕ) :
    ∃ slots, settleEstimates (fuel+61) cs = some slots ∧ slots.map candidate = cs ∧
      leastAt (slots.map (·.estimate.rows)) = leastAt (cs.map fun c => min c.count c.fullCap) ∧
      ∀ s ∈ slots, s.walked < 3*min s.candidate.count s.candidate.fullCap+3*initialRankCap := by
  have hready : ∀ s ∈ cs.map new, Ready initialRankCap s := by
    intro s hs
    obtain ⟨c,-,rfl⟩ := mem_map.mp hs
    exact ⟨nofun,fun _ => by simp [new,initialRankCap],fun _ _ => by simp [new,initialRankCap]⟩
  obtain ⟨cap,slots,hrun,hends⟩ := settleRounds_ends (n := 61) (by decide) (by decide) hready fuel
  have hcs : slots.map candidate = cs := by
    rw [hends.candidates,map_map]
    exact map_id cs
  refine ⟨slots,hrun,hcs,?_,fun s hs => (hends.counted s hs).walked_lt⟩
  rw [← hcs,map_map]
  cases hb : leastAt (slots.map (·.estimate.rows)) with
  | none =>
    have hnil : slots = [] := by simpa [leastAt] using hb
    rw [hnil]
    rfl
  | some b =>
    obtain ⟨s,hs,hsettled⟩ := hends.least b hb
    exact (leastAt_of_le hb (fun s hs => (hends.counted s hs).rows_le) hs
      ((hends.counted s (mem_of_getElem? hs)).settled hsettled).1.symm).symm

end PowDB.Query.Ranking
