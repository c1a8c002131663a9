import PowDB.Lib.Gregorian
import Mathlib.Data.Option.Basic

/-! Parts of a timestamp. `datetime_extract` splits it with truncating divisions; a value that
leaves its machine type on the way is an overflow. -/
namespace PowDB.Query.DateParts
open Lib.Gregorian Option Int

/-- The names of parts; any other name gives the empty value. -/
inductive Part
  | hour | minute | second | millisecond | microsecond | epoch | year | month | day | other

def i64 (x : ℤ) : Option ℤ := if -2^63 ≤ x ∧ x < 2^63 then some x else none
def u32 (x : ℤ) : Option ℤ := if 0 ≤ x ∧ x < 2^32 then some x else none

/-- Truncating division moved down for a negative dividend. -/
def floorDiv (x b : ℤ) : Option ℤ := if 0 ≤ x then some (x.tdiv b) else (i64 (x-(b-1))).map (tdiv · b)

/-- Year of a day of an era of 400 years, and the day of that year; both years begin in March. -/
def yearOfEra (doe : ℤ) : Option (ℤ × ℤ) := do
  let yoe := (← u32 ((← u32 ((← u32 (doe-doe/1460))+doe/36524))-doe/146096))/365
  let doy ← u32 (doe-(← u32 ((← u32 ((← u32 (365*yoe))+yoe/4))-yoe/100)))
  some (yoe,doy)

/-- Month and day of a day of a year that begins in March. -/
def monthOfYear (doy : ℤ) : Option (ℤ × ℤ) := do
  let mp := (← u32 ((← u32 (5*doy))+2))/153
  let d ← u32 ((← u32 (doy-(← u32 ((← u32 (153*mp))+2))/5))+1)
  let m ← if mp < 10 then u32 (mp+3) else u32 (mp-9)
  some (m,d)

/-- Year, month and day of a day counted from 1970-01-01. -/
def civil (days : ℤ) : Option (ℤ × ℤ × ℤ) := do
  let z ← i64 (days+719468)
  let era ← floorDiv z 146097
  let doe := (← i64 (z-(← i64 (era*146097))))%2^32
  let (yoe,doy) ← yearOfEra doe
  let y ← i64 (yoe+(← i64 (era*400)))
  let (m,d) ← monthOfYear doy
  let y ← if m ≤ 2 then i64 (y+1) else some y
  some (y,m,d)

/-- The outer `none` is an overflow, the inner one the empty value. -/
def datetimeExtract (part : Part) (micros : Int64) : Option (Option ℤ) := do
  let totalSecs := micros.toInt.tdiv 1000000
  let microRem := micros.toInt.tmod 1000000
  let days ← floorDiv totalSecs 86400
  let secsOfDay ← i64 (totalSecs-(← i64 (days*86400)))
  match part with
  | .hour => some (some (secsOfDay.tdiv 3600))
  | .minute => some (some ((secsOfDay.tmod 3600).tdiv 60))
  | .second => some (some (secsOfDay.tmod 60))
  | .millisecond => some (some (microRem.tdiv 1000))
  | .microsecond => some (some microRem)
  | .epoch => some (some totalSecs)
  | .year => (civil days).map (fun date => some date.1)
  | .month => (civil days).map (fun date => some date.2.1)
  | .day => (civil days).map (fun date => some date.2.2)
  | .other => some none

structure Parts where
  year : ℤ
  month : ℤ
  day : ℤ
  hour : ℤ
  minute : ℤ
  second : ℤ
  millisecond : ℤ
  microsecond : ℤ
  deriving DecidableEq

/-- The parts the engine answers for one timestamp. -/
def extracted (micros : Int64) : Option Parts := do
  let part (p : Part) := (datetimeExtract p micros).join
  return ⟨← part .year,← part .month,← part .day,← part .hour,← part .minute,← part .second,← part .millisecond,
    ← part .microsecond⟩

/-- The parts of the instant of a number of microseconds since 1970, in UTC. -/
structure Parts.Of (p : Parts) (micros : ℤ) : Prop where
  date : IsDate p.year p.month p.day (micros/86400000000)
  hour : p.hour = micros/3600000000%24
  minute : p.minute = micros/60000000%60
  second : p.second = micros/1000000%60
  millisecond : p.millisecond = micros/1000%1000
  microsecond : p.microsecond = micros%1000000

/-- The timestamp the parts spell. -/
def Parts.instant (p : Parts) : ℤ :=
  (((dayNumber p.year p.month p.day*24+p.hour)*60+p.minute)*60+p.second)*1000000+p.microsecond

lemma i64_eq (h : -2^63 ≤ x ∧ x < 2^63) : i64 x = some x := if_pos h

lemma u32_eq (h : 0 ≤ x ∧ x < 2^32) : u32 x = some x := if_pos h

lemma floorDiv_eq (hb : b = 86400 ∨ b = 146097) (hx : -2^62 ≤ x) : floorDiv x b = some (x/b) := by
  unfold floorDiv
  split_ifs with h
  · rw [tdiv_eq_ediv_of_nonneg h]
  · rw [i64_eq (by omega),map_some,tdiv_eq_ediv]
    rcases hb with rfl | rfl <;> simp only [sign] <;> split_ifs <;> congr <;> omega

lemma yearOfEra_ok (doe era : ℤ) (h0 : 0 ≤ doe) (h1 : doe < 146097) :
    ∃ yoe doy, yearOfEra doe = some (yoe,doy) ∧ 0 ≤ yoe ∧ yoe < 400 ∧ 0 ≤ doy ∧
      doy < yearLength (yoe+era*400+1) ∧ yearStart (yoe+era*400+1)-306+doy = era*146097+doe-719468 := by
  have hday := era_day h0 h1 era
  refine ⟨_,_,?_,hday⟩
  unfold yearOfEra
  simp only [bind_eq_bind]
  rw [u32_eq (by omega),bind_some,u32_eq (by omega),bind_some,u32_eq (by omega),bind_some]
  generalize (doe-doe/1460+doe/36524-doe/146096)/365 = yoe at *
  simp (disch := omega) only [u32_eq,bind_some]

lemma monthOfYear_ok (h0 : 0 ≤ doy) (h1 : doy < yearLength (y+1)) :
    ∃ m d, monthOfYear doy = some (m,d) ∧ IsDate (if m ≤ 2 then y+1 else y) m d (yearStart (y+1)-306+doy) := by
  refine ⟨_,_,?_,isDate_march h0 h1⟩
  have hbound : doy < 366 := by unfold yearLength at h1; split_ifs at h1 <;> omega
  unfold monthOfYear
  simp only [bind_eq_bind]
  rw [u32_eq (by omega),bind_some,u32_eq (by omega),bind_some]
  generalize hmp : (5*doy+2)/153 = mp
  simp (disch := omega) only [u32_eq,bind_some]
  split_ifs <;> rfl

lemma civil_ok (days : ℤ) (hlow : -2^60 ≤ days) (hhigh : days < 2^60) :
    ∃ y m d, civil days = some (y,m,d) ∧ IsDate y m d days := by
  obtain ⟨z,hz⟩ : ∃ z, z = days+719468 := ⟨_,rfl⟩
  obtain ⟨yoe,doy,hyoe,h0,h1,hdoy,hlen,hstart⟩ := yearOfEra_ok (z%146097) (z/146097) (by omega) (by omega)
  obtain ⟨m,d,hmonth,hdate⟩ := monthOfYear_ok hdoy hlen
  rw [show yearStart (yoe+z/146097*400+1)-306+doy = days by omega] at hdate
  refine ⟨_,m,d,?_,hdate⟩
  have hdoe : (z-z/146097*146097)%2^32 = z%146097 := by omega
  unfold civil
  simp only [bind_eq_bind]
  rw [← hz,i64_eq (by omega),bind_some,floorDiv_eq (by simp) (by omega),bind_some,i64_eq (by omega),bind_some,
    i64_eq (by omega),bind_some,hdoe,hyoe,bind_some,i64_eq (by omega),bind_some,i64_eq (by omega),bind_some,
    hmonth,bind_some]
  split_ifs
  · rw [i64_eq (by omega),bind_some]
  · rfl

/-- What the engine answers: every part is right but for the sign of the remainder below a second. -/
lemma extracted_ok (micros : Int64) : ∃ y m d, IsDate y m d (micros.toInt.tdiv 1000000/86400) ∧
    extracted micros = some ⟨y,m,d,micros.toInt.tdiv 1000000%86400/3600,micros.toInt.tdiv 1000000%86400%3600/60,
      micros.toInt.tdiv 1000000%86400%60,(micros.toInt.tmod 1000000).tdiv 1000,micros.toInt.tmod 1000000⟩ := by
  have hlow := micros.le_toInt
  have hhigh := micros.toInt_lt
  have hrange : -2^62 ≤ micros.toInt.tdiv 1000000 ∧ micros.toInt.tdiv 1000000 < 2^62 := by
    rw [tdiv_eq_ediv]
    simp only [sign]
    split_ifs <;> omega
  unfold extracted datetimeExtract
  generalize micros.toInt.tdiv 1000000 = secs at *
  obtain ⟨y,m,d,hcivil,hdate⟩ := civil_ok (secs/86400) (by omega) (by omega)
  refine ⟨y,m,d,hdate,?_⟩
  have hrest : secs-secs/86400*86400 = secs%86400 := by omega
  simp only [bind_eq_bind,floorDiv_eq (.inl rfl) hrange.1,bind_some,i64_eq (show -2^63 ≤ secs/86400*86400 ∧ _ by omega),hrest,
    i64_eq (show -2^63 ≤ secs%86400 ∧ _ by omega),hcivil,map_some,join_some,pure_def]
  have hday : 0 ≤ secs%86400 := by omega
  have hhour : 0 ≤ secs%86400%3600 := by omega
  rw [tmod_eq_emod_of_nonneg hday,tmod_eq_emod_of_nonneg hday,tdiv_eq_ediv_of_nonneg hday,
    tdiv_eq_ediv_of_nonneg hhour]

/-- The parts are those of the instant unless it lies before 1970 inside a second. -/
theorem extracted_is_gregorian (micros : Int64) :
    (∃ p, extracted micros = some p ∧ p.Of micros.toInt ∧ p.instant = micros.toInt) ↔
      0 ≤ micros.toInt ∨ 1000000 ∣ micros.toInt := by
  obtain ⟨y,m,d,hdate,hparts⟩ := extracted_ok micros
  rw [tdiv_eq_ediv,tmod_eq_emod] at hparts
  rw [tdiv_eq_ediv] at hdate
  constructor
  · rintro ⟨p,hp,hof,-⟩
    by_contra hbad
    rw [hparts,if_neg hbad,if_neg hbad] at hp
    cases hp
    have := hof.microsecond
    simp only at this
    omega
  · intro hgood
    rw [if_pos hgood,add_zero] at hdate
    rw [if_pos hgood,if_pos hgood,add_zero,Nat.cast_zero,sub_zero] at hparts
    have hmicro : 0 ≤ micros.toInt%1000000 := by omega
    rw [tdiv_eq_ediv_of_nonneg hmicro] at hparts
    refine ⟨_,hparts,⟨?_,?_,?_,?_,?_,rfl⟩,?_⟩
    · rwa [show micros.toInt/86400000000 = micros.toInt/1000000/86400 by omega]
    all_goals simp only [Parts.instant,hdate.number]
    all_goals omega

/-- One microsecond before 1970. -/
theorem last_microsecond_negative :
    extracted (-1) = some ⟨1970,1,1,0,0,0,0,-1⟩ ∧ ¬Parts.Of ⟨1970,1,1,0,0,0,0,-1⟩ (-1) :=
  ⟨by decide,fun h => by cases h.microsecond⟩

end PowDB.Query.DateParts
