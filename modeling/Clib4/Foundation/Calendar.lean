import Mathlib.Order.SuccPred.Basic
import Mathlib.Algebra.Order.SuccPred
import Mathlib.Data.Int.SuccPred
import Mathlib.Data.Nat.SuccPred
import Mathlib.Tactic.IntervalCases
import Mathlib.Tactic.Linarith

namespace Foundation
namespace Calendar

/-!
# The Gregorian calendar

The calendar is taken back to year 1 and beyond, so that years are integers.
`dayNumber` counts days from 1 January of year 1, and `Civil.seconds` counts
seconds from its midnight.  Programs like to count from a March, where the day
that is added every fourth year comes last; `dayNumber_of_le_two` and
`dayNumber_of_two_lt` relate the two counts.  A `Civil` carries the proof that its fields are a
date and a time of day; what such a value counts to determines it, which is the
fact that lets two ways of computing a date be compared.
-/

/-! ## Years -/

def isLeap (year : Int) : Bool :=
  decide (year % 4 = 0 /\ (year % 100 ≠ 0 \/ year % 400 = 0))

def yearLength (year : Int) : Int := if isLeap year then 366 else 365

/-- Days from the first day of year 1 to the first day of `year`. -/
def daysBeforeYear (year : Int) : Int :=
  365 * (year - 1) + (year - 1) / 4 - (year - 1) / 100 + (year - 1) / 400

theorem isLeap_iff (year : Int) :
    isLeap year <-> year % 4 = 0 /\ (year % 100 ≠ 0 \/ year % 400 = 0) :=
  decide_eq_true_iff

theorem isLeap_eq_false_iff (year : Int) :
    isLeap year = false <-> year % 4 ≠ 0 \/ (year % 100 = 0 /\ year % 400 ≠ 0) := by
  rw [isLeap, decide_eq_false_iff_not]
  omega

theorem daysBeforeYear_succ (year : Int) :
    daysBeforeYear (year + 1) = daysBeforeYear year + yearLength year := by
  unfold daysBeforeYear yearLength
  cases leap : isLeap year with
  | false =>
    rw [isLeap_eq_false_iff] at leap
    simp only [Bool.false_eq_true, if_false]
    omega
  | true =>
    rw [isLeap_iff] at leap
    simp only [if_true]
    omega

theorem daysBeforeYear_mono {first second : Int} (le : first <= second) :
    daysBeforeYear first <= daysBeforeYear second := by
  unfold daysBeforeYear
  omega

/-! ## Months -/

def monthLength (leap : Bool) (month : Nat) : Int :=
  if month = 2 then if leap then 29 else 28
  else if month = 4 \/ month = 6 \/ month = 9 \/ month = 11 then 30 else 31

/-- Days of a year before its month `month`; months count from one. -/
def daysBeforeMonth (leap : Bool) : Nat -> Int
  | 0 => 0
  | 1 => 0
  | month + 2 => daysBeforeMonth leap (month + 1) + monthLength leap (month + 1)

variable (leap : Bool) {month : Nat}

theorem daysBeforeMonth_succ (pos : 1 <= month) :
    daysBeforeMonth leap (month + 1) = daysBeforeMonth leap month + monthLength leap month := by
  obtain ⟨before, rfl⟩ : ∃ before, month = before + 1 := ⟨month - 1, by omega⟩
  rfl

theorem monthLength_pos (month : Nat) : 0 < monthLength leap month := by
  unfold monthLength
  split_ifs <;> decide

theorem daysBeforeMonth_mono {first second : Nat} (le : first <= second) :
    daysBeforeMonth leap first <= daysBeforeMonth leap second := by
  apply monotone_nat_of_le_succ _ le
  intro month
  cases month with
  | zero => exact le_refl _
  | succ before =>
    exact le_add_of_nonneg_right (monthLength_pos leap (before + 1)).le

theorem daysBeforeMonth_thirteen (year : Int) :
    daysBeforeMonth (isLeap year) 13 = yearLength year := by
  unfold yearLength
  cases isLeap year <;> rfl

/-! ## Dates -/

def dayNumber (year : Int) (month : Nat) (day : Int) : Int :=
  daysBeforeYear year + daysBeforeMonth (isLeap year) month + (day - 1)

/-- Days from March to the first of the month that comes `months` months later. -/
def daysFromMarch (months : Nat) : Int := ((months * 306 + 5) / 10 : Nat)

/-- Days from 1 March of year 0 to 1 March of `year`. -/
def marchDays (year : Int) : Int := 365 * year + year / 4 - year / 100 + year / 400

theorem daysBeforeMonth_eq_march (pos : 1 <= month) (le : month <= 12) :
    daysBeforeMonth leap month = daysFromMarch ((month + 9) % 12) +
      (if month <= 2 then -306 else if leap then 60 else 59) := by
  interval_cases month <;> cases leap <;> rfl

theorem dayNumber_of_le_two (year : Int) (day : Int) (pos : 1 <= month) (le : month <= 2) :
    dayNumber year month day =
      marchDays (year - 1) + daysFromMarch ((month + 9) % 12) + day - 307 := by
  unfold dayNumber
  rw [daysBeforeMonth_eq_march _ pos (le.trans (by decide))]
  unfold daysBeforeYear marchDays
  omega

theorem dayNumber_of_two_lt (year : Int) (day : Int) (lt : 2 < month) (le : month <= 12) :
    dayNumber year month day = marchDays year + daysFromMarch ((month + 9) % 12) + day - 307 := by
  unfold dayNumber
  rw [daysBeforeMonth_eq_march _ (by omega) le]
  unfold daysBeforeYear marchDays
  cases leap : isLeap year with
  | false =>
    rw [isLeap_eq_false_iff] at leap
    simp only [Bool.false_eq_true, if_false]
    omega
  | true =>
    rw [isLeap_iff] at leap
    simp only [if_true]
    omega

/-- The step of a monotone function in which a value lies is determined by the value. -/
theorem eq_of_between {ι : Type} [LinearOrder ι] [SuccOrder ι] [NoMaxOrder ι] {count : ι -> Int}
    (mono : ∀ {first second}, first <= second -> count first <= count second) (value : Int)
    {first second : ι} (firstLe : count first <= value)
    (firstLt : value < count (Order.succ first)) (secondLe : count second <= value)
    (secondLt : value < count (Order.succ second)) : first = second := by
  rcases lt_trichotomy first second with less | same | greater
  · have := mono (Order.succ_le_of_lt less)
    omega
  · exact same
  · have := mono (Order.succ_le_of_lt greater)
    omega

/-! ## Dates with a time of day -/

/-- A date and a time of day. -/
@[ext]
structure Civil where
  year : Int
  month : Nat
  day : Int
  hour : Int
  minute : Int
  second : Int
  month_pos : 1 <= month
  month_le : month <= 12
  day_pos : 1 <= day
  day_le : day <= monthLength (isLeap year) month
  hour_nonneg : 0 <= hour
  hour_lt : hour < 24
  minute_nonneg : 0 <= minute
  minute_lt : minute < 60
  second_nonneg : 0 <= second
  second_lt : second < 60

theorem zero_lt_sixty : (0 : Int) < 60 := by
  decide

namespace Civil

def days (civil : Civil) : Int := dayNumber civil.year civil.month civil.day

def seconds (civil : Civil) : Int :=
  86400 * civil.days + 3600 * civil.hour + 60 * civil.minute + civil.second

def weekday (civil : Civil) : Int := (civil.days + 1) % 7

def dayOfYear (civil : Civil) : Int :=
  daysBeforeMonth (isLeap civil.year) civil.month + (civil.day - 1)

variable (civil : Civil)

theorem dayOfYear_nonneg : 0 <= civil.dayOfYear := by
  have before := daysBeforeMonth_mono (isLeap civil.year) (Nat.zero_le civil.month)
  have pos := civil.day_pos
  unfold dayOfYear
  change 0 <= daysBeforeMonth _ _ at before
  omega

theorem dayOfYear_lt_next :
    civil.dayOfYear < daysBeforeMonth (isLeap civil.year) (civil.month + 1) := by
  rw [daysBeforeMonth_succ _ civil.month_pos]
  have le := civil.day_le
  unfold dayOfYear
  omega

theorem dayOfYear_lt : civil.dayOfYear < yearLength civil.year := by
  have next := dayOfYear_lt_next civil
  have last := daysBeforeMonth_mono (isLeap civil.year) (Nat.add_le_add_right civil.month_le 1)
  rw [daysBeforeMonth_thirteen] at last
  omega

theorem days_eq : civil.days = daysBeforeYear civil.year + civil.dayOfYear := by
  unfold days dayNumber dayOfYear
  omega

theorem date_eq_of_days_eq {first second : Civil} (same : first.days = second.days) :
    first.year = second.year /\ first.month = second.month /\ first.day = second.day := by
  have firstLower := dayOfYear_nonneg first
  have secondLower := dayOfYear_nonneg second
  have firstUpper := dayOfYear_lt first
  have secondUpper := dayOfYear_lt second
  rw [days_eq, days_eq] at same
  have year : first.year = second.year := by
    apply eq_of_between daysBeforeYear_mono (daysBeforeYear first.year + first.dayOfYear)
    · omega
    · rw [Order.succ_eq_add_one, daysBeforeYear_succ]
      omega
    · omega
    · rw [Order.succ_eq_add_one, daysBeforeYear_succ]
      omega
  have ofYear : first.dayOfYear = second.dayOfYear := by
    rw [year] at same
    omega
  have month : first.month = second.month := by
    have firstPos := first.day_pos
    have secondPos := second.day_pos
    apply eq_of_between (daysBeforeMonth_mono (isLeap second.year)) second.dayOfYear
    · rw [<- ofYear, <- year]
      unfold dayOfYear
      omega
    · rw [<- ofYear, <- year]
      exact dayOfYear_lt_next first
    · unfold dayOfYear
      omega
    · exact dayOfYear_lt_next second
  refine ⟨year, month, ?_⟩
  unfold dayOfYear at ofYear
  rw [year, month] at ofYear
  omega

theorem day_eq_of_seconds_eq {first second : Civil} (same : first.seconds = second.seconds) :
    first.days = second.days /\ first.hour = second.hour /\ first.minute = second.minute /\
      first.second = second.second := by
  have bounds := And.intro first.hour_nonneg first.hour_lt
  have bounds' := And.intro second.hour_nonneg second.hour_lt
  have minutes := And.intro first.minute_nonneg first.minute_lt
  have minutes' := And.intro second.minute_nonneg second.minute_lt
  have rest := And.intro first.second_nonneg first.second_lt
  have rest' := And.intro second.second_nonneg second.second_lt
  unfold seconds at same
  omega

theorem seconds_injective : Function.Injective seconds := by
  intro first second same
  obtain ⟨days, hour, minute, rest⟩ := day_eq_of_seconds_eq same
  obtain ⟨year, month, day⟩ := date_eq_of_days_eq days
  exact Civil.ext year month day hour minute rest

end Civil

end Calendar
end Foundation
