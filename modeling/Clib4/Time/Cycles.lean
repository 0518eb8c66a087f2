import Clib4.Foundation.MachineInt
import Clib4.Time.BrokenDown

namespace Clib4.Time

open Foundation Foundation.Calendar

/-!
# Calendar arithmetic by cycles of years

`convert_time.c` computes dates without the operating system: `__secs_to_tm` takes
the days since March 2000 apart into cycles of 400, 100, 4 and 1 years, and
`__tm_to_secs` adds years and months up again.  Both are shown to follow the
calendar, and `timegm` therefore undoes what shows an instant.

The C division truncates, and the source corrects its quotient and remainder by
hand wherever the dividend may be negative; `floored` is that correction.  The
remainders after it are not negative, and `capped` is what the source does with
the longer last part of a cycle.
-/

def leapoch : Int := 946684800 + 86400 * (31 + 29)
def daysPer400Y : Int := 365 * 400 + 97
def daysPer100Y : Int := 365 * 100 + 24
def daysPer4Y : Int := 365 * 4 + 1
def intMax : Int := 2147483647
def intMin : Int := -2147483648

/-- Quotient and remainder with the correction for a negative remainder. -/
def floored (number divisor : Int) : Int × Int :=
  let quotient := number.tdiv divisor
  let rest := number.tmod divisor
  if rest < 0 then (quotient - 1, rest + divisor) else (quotient, rest)

/--
The part of a cycle a day lies in, and the days after its beginning.  A cycle of
`count` parts may be a day longer than the parts; that day belongs to the last.
-/
def capped (number period count : Int) : Int × Int :=
  let part := number.tdiv period
  let part := if part = count then part - 1 else part
  (part, number - part * period)

/-! ## `__tm_to_secs` -/

def secsThroughMonth : List Int :=
  [0, 31 * 86400, 59 * 86400, 90 * 86400, 120 * 86400, 151 * 86400, 181 * 86400, 212 * 86400,
    243 * 86400, 273 * 86400, 304 * 86400, 334 * 86400]

/-- `__month_to_secs`; its callers pass months from 0 to 11. -/
def monthToSecs (month : Nat) (isLeap : Bool) : Int :=
  let t := secsThroughMonth.getD month 0
  if isLeap /\ 2 <= month then t + 86400 else t

/-- The centuries of a cycle of 400 years that `rem` years make, and the years left. -/
def centuriesOf (rem : Int) : Int × Int :=
  if 200 <= rem then
    if 300 <= rem then (3, rem - 300) else (2, rem - 200)
  else
    if 100 <= rem then (1, rem - 100) else (0, rem)

/-- Centuries, leap years after the last of them and the leap flag for year `rem` of a cycle. -/
def leapsOf (rem : Int) : Int × Int × Bool :=
  if rem = 0 then (0, 0, true)
  else
    let ⟨centuries, rem⟩ := centuriesOf rem
    if rem = 0 then (centuries, 0, false) else (centuries, rem / 4, decide (rem % 4 = 0))

/-- `__year_to_secs`, with the flag it stores. -/
def yearToSecs (year : Int) : Int × Bool :=
  -- the comparison is one of unsigned numbers, and excludes the years before 1902
  if unsigned 64 (year - 2) <= 136 then
    let leaps := (year - 68) / 4
    if (year - 68) % 4 = 0 then
      (31536000 * (year - 70) + 86400 * (leaps - 1), true)
    else
      (31536000 * (year - 70) + 86400 * leaps, false)
  else
    let ⟨cycles, rem⟩ := floored (year - 100) 400
    let ⟨centuries, leaps, isLeap⟩ := leapsOf rem
    let leaps := leaps + 97 * cycles + 24 * centuries - (if isLeap then 1 else 0)
    ((year - 100) * 31536000 + leaps * 86400 + 946684800 + 86400, isLeap)

def tmToSecs (tm : DateTime) : Int :=
  let ⟨year, month⟩ : Int × Int :=
    if 12 <= tm.tmMon \/ tm.tmMon < 0 then
      let ⟨adj, month⟩ := floored tm.tmMon 12
      (tm.tmYear + adj, month)
    else (tm.tmYear, tm.tmMon)
  let ⟨t, isLeap⟩ := yearToSecs year
  t + monthToSecs month.toNat isLeap + 86400 * (tm.tmMday - 1) + 3600 * tm.tmHour +
    60 * tm.tmMin + tm.tmSec

/-! ## `__secs_to_tm` -/

/-- Lengths of the months from March on; the last is that of a leap year. -/
def daysInMonth : List Int := [31, 30, 31, 30, 31, 31, 30, 31, 30, 31, 31, 29]

/-- The loop over the months: the months that have passed and the days left. -/
def passMonths : List Int -> Int -> Nat × Int
  | [], remdays => (0, remdays)
  | length :: lengths, remdays =>
    if length <= remdays then
      let ⟨months, remdays⟩ := passMonths lengths (remdays - length)
      (months + 1, remdays)
    else (0, remdays)

/-- The years since March 2000, the days after them and whether the year began in a leap year. -/
def passYears (days : Int) : Int × Int × Bool :=
  let ⟨qcCycles, remdays⟩ := floored days daysPer400Y
  let ⟨cCycles, remdays⟩ := capped remdays daysPer100Y 4
  let ⟨qCycles, remdays⟩ := capped remdays daysPer4Y 25
  let ⟨remyears, remdays⟩ := capped remdays 365 4
  (remyears + 4 * qCycles + 100 * cCycles + 400 * qcCycles, remdays,
    decide (remyears = 0 /\ (qCycles ≠ 0 \/ cCycles = 0)))

/-- `__secs_to_tm`: the fields it stores, or failure. -/
def secsToTm (t : Int) : Option DateTime :=
  if t < intMin * 31622400 \/ intMax * 31622400 < t then none
  else
    let ⟨days, remsecs⟩ := floored (t - leapoch) 86400
    let wday := (floored (3 + days) 7).2
    let ⟨years, remdays, leap⟩ := passYears days
    let leap : Int := if leap then 1 else 0
    let yday := remdays + 31 + 28 + leap
    let yday := if 365 + leap <= yday then yday - (365 + leap) else yday
    let ⟨passed, remdays⟩ := passMonths daysInMonth remdays
    let ⟨months, years⟩ : Int × Int :=
      if 10 <= passed then ((passed : Int) - 12, years + 1) else ((passed : Int), years)
    if intMax < years + 100 \/ years + 100 < intMin then none
    else
      some
        { tmYear := years + 100
          tmMon := months + 2
          tmMday := remdays + 1
          tmWday := wday
          tmYday := yday
          tmHour := remsecs.tdiv 3600
          tmMin := (remsecs.tdiv 60).tmod 60
          tmSec := remsecs.tmod 60 }

/-- `timegm`: the instant, and the structure as the call leaves it. -/
def timegm (tm : Tm) : Int × Tm :=
  let t := tmToSecs tm.toDateTime
  match secsToTm t with
  | none => (-1, tm)
  | some new =>
    (signed 32 t, { toDateTime := new, tmIsdst := 0, tmGmtoff := 0, tmZone := "UTC".toList })

/-! ## The corrections of the division -/

theorem floored_eq (number : Int) {divisor : Int} (pos : 0 < divisor) :
    floored number divisor = (number / divisor, number % divisor) := by
  have whole := Int.mul_tdiv_add_tmod number divisor
  have lower := Int.lt_tmod_of_pos number pos
  have upper := Int.tmod_lt_of_pos number pos
  unfold floored
  dsimp only
  split_ifs with negative
  · obtain ⟨quotient, rest⟩ := (Int.ediv_emod_unique pos
      (r := number.tmod divisor + divisor) (q := number.tdiv divisor - 1) (a := number)).mpr
      ⟨by rw [mul_sub]; omega, by omega, by omega⟩
    rw [quotient, rest]
  · obtain ⟨quotient, rest⟩ := (Int.ediv_emod_unique pos
      (r := number.tmod divisor) (q := number.tdiv divisor) (a := number)).mpr
      ⟨by omega, by omega, by omega⟩
    rw [quotient, rest]

/-- The part lies in the cycle, and only the last is left a day too many. -/
theorem capped_spec {number period count : Int} (periodPos : 0 < period)
    (nonneg : 0 <= number) (le : number <= period * count) (countPos : 0 < count) :
    ∃ part rest, capped number period count = (part, rest) /\
      number = part * period + rest /\ 0 <= part /\ part < count /\ 0 <= rest /\ rest <= period /\
      (rest = period -> number = period * count) := by
  have whole := Int.mul_ediv_add_emod number period
  have lower := Int.emod_nonneg number periodPos.ne'
  have upper := Int.emod_lt_of_pos number periodPos
  have atMost : number / period <= count := Int.ediv_le_of_le_mul periodPos (by rwa [mul_comm])
  have atLeast := Int.ediv_nonneg nonneg periodPos.le
  unfold capped
  rw [Int.tdiv_eq_ediv_of_nonneg nonneg]
  refine ⟨_, _, rfl, by ring, ?_⟩
  by_cases last : number / period = count
  · rw [if_pos last, last]
    have full : number = period * count := by
      rw [last] at whole
      omega
    have rest : number - (count - 1) * period = period := by
      rw [full]
      ring
    rw [rest]
    exact ⟨by omega, by omega, by omega, le_refl _, fun _ => full⟩
  · rw [if_neg last]
    have rest : number - number / period * period = number % period := by
      rw [mul_comm]
      omega
    rw [rest]
    exact ⟨atLeast, lt_of_le_of_ne atMost last, lower, upper.le, fun same => absurd same upper.ne⟩

/-! ## Years and months in seconds -/

theorem centuriesOf_spec {rem : Int} (nonneg : 0 <= rem) (lt : rem < 400) :
    ∃ centuries rest, centuriesOf rem = (centuries, rest) /\ rem = 100 * centuries + rest /\
      0 <= rest /\ rest < 100 := by
  unfold centuriesOf
  split_ifs <;> exact ⟨_, _, rfl, by omega, by omega, by omega⟩

theorem leapsOf_spec {rem : Int} (nonneg : 0 <= rem) (lt : rem < 400) :
    ∃ centuries leaps, leapsOf rem = (centuries, leaps, isLeap rem) /\
      leaps + 24 * centuries - (if isLeap rem then 1 else 0) =
        (rem - 1) / 4 - (rem - 1) / 100 + (rem - 1) / 400 := by
  obtain ⟨centuries, rest, eq, whole, restNonneg, restLt⟩ := centuriesOf_spec nonneg lt
  unfold leapsOf
  rw [eq]
  dsimp only
  split_ifs with first leap century leap leap
  · -- the first year of a cycle
    rw [first] at leap ⊢
    exact ⟨0, 0, rfl, by decide⟩
  · rw [first] at leap
    exact absurd (show isLeap 0 from rfl) leap
  · rw [isLeap_iff] at leap
    omega
  · rw [Bool.not_eq_true] at leap
    refine ⟨centuries, 0, by rw [leap], ?_⟩
    omega
  · refine ⟨centuries, rest / 4, ?_, ?_⟩
    · rw [leap, decide_eq_true]
      rw [isLeap_iff] at leap
      omega
    · rw [isLeap_iff] at leap
      omega
  · rw [Bool.not_eq_true] at leap
    refine ⟨centuries, rest / 4, ?_, ?_⟩
    · rw [leap, decide_eq_false]
      rw [isLeap_eq_false_iff] at leap
      omega
    · rw [isLeap_eq_false_iff] at leap
      omega

theorem isLeap_add_cycles (year cycles : Int) : isLeap (year + 400 * cycles) = isLeap year := by
  rw [Bool.eq_iff_iff, isLeap_iff, isLeap_iff]
  omega

theorem yearToSecs_eq {year : Int} (lower : -2 ^ 63 <= year) (upper : year < 2 ^ 63) :
    yearToSecs year = (86400 * (daysBeforeYear (year + 1900) - 719162), isLeap (year + 1900)) := by
  unfold yearToSecs
  rw [unsigned_eq_emod, floored_eq _ (by decide)]
  dsimp only
  by_cases near : (year - 2) % 2 ^ 64 <= 136
  · -- every fourth year from 1902 to 2038 is a leap year
    rw [if_pos near]
    replace near : 2 <= year /\ year <= 138 := by omega
    clear lower upper
    split_ifs with fourth
    · rw [show isLeap (year + 1900) = true by rw [isLeap_iff]; omega, Prod.mk.injEq]
      unfold daysBeforeYear
      exact ⟨by omega, rfl⟩
    · rw [show isLeap (year + 1900) = false by rw [isLeap_eq_false_iff]; omega, Prod.mk.injEq]
      unfold daysBeforeYear
      exact ⟨by omega, rfl⟩
  · rw [if_neg near]
    clear near lower upper
    obtain ⟨centuries, leaps, counted, total⟩ := leapsOf_spec
      (show 0 <= (year - 100) % 400 from Int.emod_nonneg _ (by decide))
      (Int.emod_lt_of_pos _ (by decide))
    have leap : isLeap ((year - 100) % 400) = isLeap (year + 1900) := by
      rw [<- isLeap_add_cycles _ ((year - 100) / 400 + 5)]
      congr 1
      omega
    rw [counted, leap, Prod.mk.injEq]
    rw [leap] at total
    refine ⟨?_, rfl⟩
    dsimp only
    generalize (if isLeap (year + 1900) then (1 : Int) else 0) = extra at total ⊢
    unfold daysBeforeYear
    omega

theorem monthToSecs_eq {month : Nat} (lt : month < 12) {leap : Bool} :
    monthToSecs month leap = 86400 * daysBeforeMonth leap (month + 1) := by
  interval_cases month <;> cases leap <;> rfl

theorem tmToSecs_ofCivil {civil : Civil} (lower : -2 ^ 62 <= civil.year)
    (upper : civil.year < 2 ^ 62) : tmToSecs (.ofCivil civil) = civil.seconds - unixEpoch := by
  have pos := civil.month_pos
  have le := civil.month_le
  unfold tmToSecs
  rw [if_neg (by simp only [DateTime.ofCivil]; omega)]
  simp only [DateTime.ofCivil]
  rw [yearToSecs_eq (by omega) (by omega)]
  have idx : ((civil.month : Int) - 1).toNat = civil.month - 1 := by omega
  simp only [idx]
  rw [monthToSecs_eq (by omega), Nat.sub_add_cancel pos, sub_add_cancel, unixEpoch_eq]
  unfold Civil.seconds Civil.days dayNumber
  omega

/-! ## The loops over years and months -/

/-- The years since March 2000 that have passed, and the days of the last. -/
theorem passYears_spec {days : Int} :
    ∃ years remdays, passYears days = (years, remdays, isLeap (years + 2000)) /\
      days + marchDays 2000 = marchDays (years + 2000) + remdays /\ 0 <= remdays /\
      remdays <= 365 /\ (remdays = 365 -> isLeap (years + 2001)) := by
  unfold passYears
  rw [show daysPer400Y = 146097 from rfl, show daysPer100Y = 36524 from rfl,
    show daysPer4Y = 1461 from rfl, floored_eq _ (by decide)]
  have split := Int.mul_ediv_add_emod days 146097
  have lower := Int.emod_nonneg days (show (146097 : Int) ≠ 0 by decide)
  have upper := Int.emod_lt_of_pos days (show (0 : Int) < 146097 by decide)
  generalize days / 146097 = cycle at split ⊢
  generalize days % 146097 = rest at split lower upper ⊢
  dsimp only
  obtain ⟨century, rest', eq, whole, nonneg, lt, restNonneg, restLe, restLast⟩ :=
    capped_spec (show (0 : Int) < 36524 by decide) lower
      (show rest <= 36524 * 4 by omega) (by decide)
  rw [eq]
  dsimp only
  obtain ⟨fourth, rest'', eq', whole', nonneg', lt', restNonneg', restLe', restLast'⟩ :=
    capped_spec (show (0 : Int) < 1461 by decide) restNonneg
      (show rest' <= 1461 * 25 by omega) (by decide)
  rw [eq']
  dsimp only
  obtain ⟨year, last, eq'', whole'', nonneg'', lt'', restNonneg'', restLe'', restLast''⟩ :=
    capped_spec (show (0 : Int) < 365 by decide) restNonneg'
      (show rest'' <= 365 * 4 by omega) (by decide)
  rw [eq'']
  dsimp only
  refine ⟨_, _, Prod.ext rfl (Prod.ext rfl ?_), ?_, restNonneg'', restLe'', ?_⟩
  · rw [Bool.eq_iff_iff, decide_eq_true_eq, isLeap_iff]
    omega
  · have centuries : (year + 4 * fourth + 100 * century + 400 * cycle + 2000) / 100 =
        century + 4 * cycle + 20 := by omega
    have cycles : (year + 4 * fourth + 100 * century + 400 * cycle + 2000) / 400 =
        cycle + 5 := by omega
    unfold marchDays
    omega
  · intro full
    rw [isLeap_iff]
    omega

theorem passMonths_split {lengths : List Int} {remdays : Int} (nonneg : 0 <= remdays) :
    ∃ months day, passMonths lengths remdays = (months, day) /\ 0 <= day /\
      remdays = (lengths.take months).sum + day /\
      (day < lengths.getD months 0 \/ months = lengths.length) := by
  induction lengths generalizing remdays with
  | nil => exact ⟨0, remdays, rfl, nonneg, by simp, Or.inr rfl⟩
  | cons length lengths ih =>
    unfold passMonths
    split_ifs with le
    · obtain ⟨months, day, eq, day_nonneg, whole, place⟩ := ih (sub_nonneg.mpr le)
      rw [eq]
      refine ⟨months + 1, day, rfl, day_nonneg, ?_, ?_⟩
      · rw [List.take_succ_cons, List.sum_cons]
        omega
      · exact place.imp id (congrArg (· + 1))
    · exact ⟨0, remdays, rfl, nonneg, by simp, Or.inl (not_le.mp le)⟩

/-- The months since March that have passed, and the days of the last. -/
theorem passMonths_spec {remdays : Int} (nonneg : 0 <= remdays) (le : remdays <= 365) :
    ∃ months day, passMonths daysInMonth remdays = (months, day) /\ months < 12 /\
      0 <= day /\ day < monthLength true ((months + 2) % 12 + 1) /\
      remdays = daysFromMarch months + day := by
  obtain ⟨months, day, eq, day_nonneg, whole, place⟩ := passMonths_split nonneg
  have table : ∀ month < 12, (daysInMonth.take month).sum = daysFromMarch month /\
      daysInMonth.getD month 0 = monthLength true ((month + 2) % 12 + 1) := by
    decide
  rcases Nat.lt_or_ge months 12 with lt | ge
  · obtain ⟨before, length⟩ := table months lt
    rcases place with inside | last
    · exact ⟨months, day, eq, lt, day_nonneg, length ▸ inside, before ▸ whole⟩
    · exact absurd last lt.ne
  · -- the lengths add up to 366 days
    have total : (daysInMonth.take months).sum = 366 := by
      rw [List.take_of_length_le ge]
      rfl
    omega

/-! ## Dates from seconds and back -/

/--
A day in the terms `__secs_to_tm` finds it in: the years since March 2000, the
months since March and the days of the month before it.
-/
structure Located (days years : Int) (months : Nat) (day : Int) : Prop where
  months_lt : months < 12
  day_nonneg : 0 <= day
  day_lt : day < monthLength true ((months + 2) % 12 + 1)
  days_eq : days + 730485 = marchDays (years + 2000) + daysFromMarch months + day
  inYear_le : daysFromMarch months + day <= 365
  last : daysFromMarch months + day = 365 -> isLeap (years + 2001)

theorem exists_located (days : Int) :
    ∃ years remdays months day, passYears days = (years, remdays, isLeap (years + 2000)) /\
      passMonths daysInMonth remdays = (months, day) /\ remdays = daysFromMarch months + day /\
      Located days years months day := by
  obtain ⟨years, remdays, yearsEq, whole, nonneg, le, last⟩ := passYears_spec
  obtain ⟨months, day, monthsEq, lt, dayNonneg, inside, inYear⟩ := passMonths_spec nonneg le
  rw [show marchDays 2000 = 730485 from rfl] at whole
  refine ⟨years, remdays, months, day, yearsEq, monthsEq, inYear, lt, dayNonneg, inside, ?_, ?_, ?_⟩
  · omega
  all_goals rwa [<- inYear]

namespace Located

variable {days years day : Int} {months : Nat}

/-- The year of the calendar; January and February belong to the next one. -/
def year (years : Int) (months : Nat) : Int := years + 2000 + (if 10 <= months then 1 else 0)

def month (months : Nat) : Nat := (months + 2) % 12 + 1

theorem month_pos (months : Nat) : 1 <= month months := Nat.le_add_left 1 _

theorem month_le (months : Nat) : month months <= 12 := by
  unfold month
  omega

theorem month_add_nine (lt : months < 12) : (month months + 9) % 12 = months := by
  unfold month
  omega

theorem month_le_two_iff (lt : months < 12) : month months <= 2 <-> 10 <= months := by
  unfold month
  omega

theorem day_le (located : Located days years months day) :
    day + 1 <= monthLength (isLeap (year years months)) (month months) := by
  have lt := located.months_lt
  have inside := located.day_lt
  have last := located.last
  rcases eq_or_ne months 11 with rfl | other
  · -- February, and its last day only in a leap year
    change day < 29 at inside
    have same : year years 11 = years + 2001 := by
      unfold year
      rw [if_pos (by decide), add_assoc]
      rfl
    rw [same]
    cases leap : isLeap (years + 2001) with
    | true => exact inside
    | false =>
      rw [leap] at last
      have notLast : 337 + day ≠ 365 := fun full => Bool.false_ne_true (last full)
      change day + 1 <= 28
      omega
  · have notTwo : month months ≠ 2 := by
      unfold month
      omega
    change day < monthLength true (month months) at inside
    unfold monthLength at inside ⊢
    rw [if_neg notTwo] at inside ⊢
    exact inside

theorem dayNumber_eq (located : Located days years months day) :
    dayNumber (year years months) (month months) (day + 1) = days + 730179 := by
  have lt := located.months_lt
  have whole := located.days_eq
  have back := month_add_nine lt
  have early := month_le_two_iff lt
  by_cases late : 10 <= months
  · rw [dayNumber_of_le_two _ _ (month_pos months) (early.mpr late), back]
    unfold year
    rw [if_pos late, add_sub_cancel_right]
    omega
  · rw [dayNumber_of_two_lt _ _ (by omega) (month_le months), back]
    unfold year
    rw [if_neg late, add_zero]
    omega

theorem dayOfYear_eq (located : Located days years months day) :
    daysBeforeMonth (isLeap (year years months)) (month months) + day =
      (let leap : Int := if isLeap (years + 2000) then 1 else 0
       let yday := daysFromMarch months + day + 31 + 28 + leap
       if 365 + leap <= yday then yday - (365 + leap) else yday) := by
  have lt := located.months_lt
  have nonneg := located.day_nonneg
  have inside := located.day_lt
  have early := month_le_two_iff lt
  rw [daysBeforeMonth_eq_march _ (month_pos months) (month_le months), month_add_nine lt]
  dsimp only
  by_cases late : 10 <= months
  · have before : 306 <= daysFromMarch months := by
      interval_cases months <;> decide
    omega
  · have before : daysFromMarch months + monthLength true ((months + 2) % 12 + 1) <= 306 := by
      interval_cases months <;> decide
    rw [if_neg (fun le => late (early.mp le))]
    unfold year
    rw [if_neg late, add_zero]
    cases isLeap (years + 2000) with
    | false =>
      simp only [Bool.false_eq_true, if_false]
      rw [if_neg (by omega)]
      omega
    | true =>
      simp only [if_true]
      rw [if_neg (by omega)]
      omega

def civil (located : Located days years months day) (secs : Int) (nonneg : 0 <= secs)
    (lt : secs < 86400) : Civil where
  year := year years months
  month := month months
  day := day + 1
  hour := secs / 3600
  minute := secs / 60 % 60
  second := secs % 60
  month_pos := month_pos months
  month_le := month_le months
  day_pos := by have := located.day_nonneg; omega
  day_le := located.day_le
  hour_nonneg := by omega
  hour_lt := by omega
  minute_nonneg := by omega
  minute_lt := by omega
  second_nonneg := by omega
  second_lt := by omega

end Located

variable {t : Int}

/-- `__secs_to_tm` shows the instant it is given if the year of the instant can be
stored. -/
theorem secsToTm_eq (inRange : ¬ (t < intMin * 31622400 \/ intMax * 31622400 < t)) :
    ∃ civil : Civil, civil.seconds = unixEpoch + t /\ secsToTm t =
        if intMax < civil.year - 1900 \/ civil.year - 1900 < intMin then none
        else some (.ofCivil civil) := by
  have split := Int.mul_ediv_add_emod (t - leapoch) 86400
  have secsLower := Int.emod_nonneg (t - leapoch) (show (86400 : Int) ≠ 0 by decide)
  have secsUpper := Int.emod_lt_of_pos (t - leapoch) (show (0 : Int) < 86400 by decide)
  unfold secsToTm
  rw [if_neg inRange, floored_eq _ (by decide)]
  dsimp only
  rw [floored_eq _ (by decide)]
  generalize (t - leapoch) / 86400 = days at split ⊢
  generalize (t - leapoch) % 86400 = secs at split secsLower secsUpper ⊢
  obtain ⟨years, remdays, months, day, yearsEq, monthsEq, inYear, located⟩ := exists_located days
  have number := located.dayNumber_eq
  have stored :
      (if 10 <= months then ((months : Int) - 12, years + 1) else ((months : Int), years)) =
        ((Located.month months : Int) - 3, Located.year years months - 2000) := by
    have lt := located.months_lt
    unfold Located.month Located.year
    split_ifs <;> rw [Prod.mk.injEq] <;> omega
  rw [yearsEq]
  rw [monthsEq, stored]
  refine ⟨located.civil secs secsLower secsUpper, ?_, if_congr ?_ rfl (congrArg some ?_)⟩
  · simp only [Civil.seconds, Civil.days, Located.civil]
    rw [unixEpoch_eq, number]
    unfold leapoch at split
    omega
  · simp only [Located.civil]
    omega
  · rw [Int.tdiv_eq_ediv_of_nonneg secsLower, Int.tdiv_eq_ediv_of_nonneg secsLower,
      Int.tmod_eq_emod_of_nonneg secsLower, Int.tmod_eq_emod_of_nonneg (by omega), inYear]
    apply DateTime.ext
    case tmMon =>
        simp only [DateTime.ofCivil, Located.civil]
        omega
    case tmYear =>
        simp only [DateTime.ofCivil, Located.civil]
        omega
    case tmWday =>
        simp only [DateTime.ofCivil, Civil.weekday, Civil.days, Located.civil, number]
        omega
    case tmYday =>
        simp only [DateTime.ofCivil, Civil.dayOfYear, Located.civil, add_sub_cancel_right]
        exact located.dayOfYear_eq.symm
    all_goals rfl

theorem year_between {civil : Civil} (counts : civil.seconds = unixEpoch + t)
    (lower : -2 ^ 54 <= t) (upper : t < 2 ^ 54) : -2 ^ 30 <= civil.year /\ civil.year < 2 ^ 30 := by
  have nonneg := civil.dayOfYear_nonneg
  have lt := civil.dayOfYear_lt
  have day := civil.days_eq
  have hours := And.intro civil.hour_nonneg civil.hour_lt
  have minutes := And.intro civil.minute_nonneg civil.minute_lt
  have seconds := And.intro civil.second_nonneg civil.second_lt
  unfold Civil.seconds at counts
  rw [unixEpoch_eq] at counts
  unfold yearLength at lt
  unfold daysBeforeYear at day
  split_ifs at lt <;> omega

theorem secsToTm_shows (lower : -2 ^ 54 <= t) (upper : t < 2 ^ 54) :
    ∃ fields, secsToTm t = some fields /\ fields.Shows t := by
  obtain ⟨civil, counts, stored⟩ := secsToTm_eq (t := t) (by unfold intMin intMax; omega)
  have bounded := year_between counts lower upper
  rw [if_neg (by unfold intMin intMax; omega)] at stored
  exact ⟨_, stored, civil, counts, rfl⟩

theorem tmToSecs_of_shows {fields : DateTime} (shown : fields.Shows t) (lower : -2 ^ 54 <= t)
    (upper : t < 2 ^ 54) : tmToSecs fields = t := by
  obtain ⟨civil, counts, rfl⟩ := shown
  have bounded := year_between counts lower upper
  rw [tmToSecs_ofCivil (by omega) (by omega), counts]
  omega

theorem secsToTm_exact {fields : DateTime} (stored : secsToTm t = some fields) :
    fields.Shows t /\ tmToSecs fields = t := by
  have inRange : ¬ (t < intMin * 31622400 \/ intMax * 31622400 < t) := by
    intro outside
    rw [secsToTm, if_pos outside] at stored
    cases stored
  obtain ⟨civil, counts, same⟩ := secsToTm_eq inRange
  rw [same] at stored
  split_ifs at stored with fits
  cases stored
  refine ⟨⟨civil, counts, rfl⟩, ?_⟩
  unfold intMin intMax at fits
  rw [tmToSecs_ofCivil (by omega) (by omega), counts]
  omega

theorem timegm_of_none {tm : Tm} (found : secsToTm (tmToSecs tm.toDateTime) = none) :
    timegm tm = (-1, tm) := by
  unfold timegm
  dsimp only
  rw [found]

theorem timegm_of_some {tm : Tm} {new : DateTime}
    (found : secsToTm (tmToSecs tm.toDateTime) = some new) :
    timegm tm = (signed 32 (tmToSecs tm.toDateTime),
        { toDateTime := new, tmIsdst := 0, tmGmtoff := 0, tmZone := "UTC".toList }) := by
  unfold timegm
  dsimp only
  rw [found]

/-- The two conversions are inverse where the first succeeds, and `timegm`, which
normalises through both, leaves what it has normalised as it is. -/
theorem secsToTm_tmToSecs_inverse :
    (∀ t fields, secsToTm t = some fields -> fields.Shows t /\ tmToSecs fields = t) /\
      ∀ tm, (timegm (timegm tm).2).2 = (timegm tm).2 := by
  refine ⟨fun _ _ => secsToTm_exact, fun tm => ?_⟩
  cases found : secsToTm (tmToSecs tm.toDateTime) with
  | none => rw [timegm_of_none found, timegm_of_none found]
  | some new =>
    rw [timegm_of_some found, timegm_of_some]
    rw [(secsToTm_exact found).2, found]

theorem timegm_of_shows {tm : Tm} (shown : tm.toDateTime.Shows t) (lower : -2 ^ 31 <= t)
    (upper : t < 2 ^ 31) : (timegm tm).1 = t := by
  obtain ⟨fields, found, _⟩ := secsToTm_shows (t := t) (by omega) (by omega)
  have same := tmToSecs_of_shows shown (by omega) (by omega)
  rw [timegm_of_some (by rw [same, found]), same]
  exact signed_of_fits lower upper

end Clib4.Time
