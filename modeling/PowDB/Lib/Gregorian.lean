import Mathlib.Tactic.Common
import Mathlib.Tactic.IntervalCases

/-! The proleptic Gregorian calendar. Days are numbered from 1970-01-01; years are also taken
to begin in March, so that the leap day is the last of its year. -/
namespace PowDB.Lib.Gregorian

def isLeap (y : ℤ) : Bool := y%4 == 0 && (y%100 != 0 || y%400 == 0)

def yearLength (y : ℤ) : ℤ := if isLeap y then 366 else 365

def monthLength (y m : ℤ) : ℤ :=
  if m = 2 then if isLeap y then 29 else 28
  else if m = 4 ∨ m = 6 ∨ m = 9 ∨ m = 11 then 30 else 31

/-- The number of the first of January. -/
def yearStart (y : ℤ) : ℤ := 365*(y-1970)+((y-1)/4-(y-1)/100+(y-1)/400)-477

def dayNumber (y m d : ℤ) : ℤ :=
  yearStart y+((List.range (m-1).toNat).map (fun i : ℕ => monthLength y (i+1))).sum+(d-1)

structure IsDate (y m d n : ℤ) : Prop where
  month : 1 ≤ m ∧ m ≤ 12
  day : 1 ≤ d ∧ d ≤ monthLength y m
  number : dayNumber y m d = n

lemma isLeap_iff {y : ℤ} : isLeap y = true ↔ y%4 = 0 ∧ (y%100 ≠ 0 ∨ y%400 = 0) := by simp [isLeap]

lemma yearStart_succ (y : ℤ) : yearStart (y+1) = yearStart y+yearLength y := by
  have h4 : y/4 = (y-1)/4+if y%4 = 0 then 1 else 0 := by split <;> omega
  have h100 : y/100 = (y-1)/100+if y%100 = 0 then 1 else 0 := by split <;> omega
  have h400 : y/400 = (y-1)/400+if y%400 = 0 then 1 else 0 := by split <;> omega
  simp only [yearStart,yearLength,add_sub_cancel_right,h4,h100,h400,isLeap_iff]
  split_ifs <;> omega

/-- Day `r` of the year that begins in March of `y`. -/
lemma isDate_march (h0 : 0 ≤ r) (hr : r < yearLength (y+1)) :
    let mp := (5*r+2)/153
    let m := if mp < 10 then mp+3 else mp-9
    IsDate (if m ≤ 2 then y+1 else y) m (r-(153*mp+2)/5+1) (yearStart (y+1)-306+r) := by
  have hyear := yearStart_succ y
  unfold yearLength at hr hyear
  obtain ⟨mp,hmp⟩ : ∃ mp, mp = (5*r+2)/153 := ⟨_,rfl⟩
  have hmonth : 0 ≤ mp ∧ mp < 12 := by split_ifs at hr <;> omega
  obtain ⟨hlow,hhigh⟩ := hmonth
  simp only [← hmp]
  interval_cases mp <;> refine ⟨by simp,?_,?_⟩ <;>
    simp [dayNumber,monthLength,List.range_succ] <;> split_ifs at * <;> omega

/-- A day of an era of 400 years by centuries, groups of four years and years, all from March. -/
lemma era_split {doe : ℤ} (h0 : 0 ≤ doe) (h1 : doe < 146097) :
    ∃ c q k r, doe = 36524*c+1461*q+365*k+r ∧ (0 ≤ c ∧ c < 4) ∧ (0 ≤ q ∧ q < 25) ∧ (0 ≤ k ∧ k < 4) ∧
      0 ≤ r ∧ (r < 365 ∨ r = 365 ∧ k = 3 ∧ (q < 24 ∨ c = 3)) := by
  obtain ⟨c,hc⟩ : ∃ c, c = min (doe/36524) 3 := ⟨_,rfl⟩
  obtain ⟨q,hq⟩ : ∃ q, q = (doe-36524*c)/1461 := ⟨_,rfl⟩
  obtain ⟨k,hk⟩ : ∃ k, k = min ((doe-36524*c-1461*q)/365) 3 := ⟨_,rfl⟩
  exact ⟨c,q,k,doe-36524*c-1461*q-365*k,by omega,by omega,by omega,by omega,by omega,by omega⟩

lemma era_year {c q k r doe : ℤ} (hdoe : doe = 36524*c+1461*q+365*k+r) (hc : 0 ≤ c ∧ c < 4) (hq : 0 ≤ q ∧ q < 25)
    (hk : 0 ≤ k ∧ k < 4) (h0 : 0 ≤ r) (hr : r < 365 ∨ r = 365 ∧ k = 3 ∧ (q < 24 ∨ c = 3)) :
    (doe-doe/1460+doe/36524-doe/146096)/365 = 100*c+4*q+k := by
  have hcentury : doe/36524-doe/146096 = c := by
    have : doe = 146096 ∧ c = 3 ∨ doe < 36524*(c+1) := by omega
    omega
  obtain ⟨t,ht⟩ : ∃ t, t = (24*c+q+365*k+r)/1460 := ⟨_,rfl⟩
  have hleap : doe/1460 = 25*c+q+t := by omega
  have hrest : 0 ≤ r-t ∧ r-t < 365 := by omega
  omega

/-- The year of an era and the day of that year, both from March. -/
lemma era_day {doe : ℤ} (h0 : 0 ≤ doe) (h1 : doe < 146097) (era : ℤ) :
    let yoe := (doe-doe/1460+doe/36524-doe/146096)/365
    let doy := doe-(365*yoe+yoe/4-yoe/100)
    0 ≤ yoe ∧ yoe < 400 ∧ 0 ≤ doy ∧ doy < yearLength (yoe+era*400+1) ∧
      yearStart (yoe+era*400+1)-306+doy = era*146097+doe-719468 := by
  obtain ⟨c,q,k,r,hdoe,hc,hq,hk,hlow,hr⟩ := era_split h0 h1
  obtain ⟨y,hy⟩ : ∃ y, y = 100*c+4*q+k := ⟨_,rfl⟩
  have hfour : y/4 = 25*c+q := by omega
  have hhundred : y/100 = c := by omega
  have hday : doe-(365*y+y/4-y/100) = r := by omega
  have hleap : isLeap (y+era*400+1) = true ↔ k = 3 ∧ (q < 24 ∨ c = 3) := by
    rw [isLeap_iff]
    omega
  simp only [era_year hdoe hc hq hk hlow hr,← hy,hday]
  refine ⟨by omega,by omega,hlow,?_,?_⟩
  · simp only [yearLength,hleap]
    split_ifs <;> omega
  · unfold yearStart
    omega

end PowDB.Lib.Gregorian
