import Clib4.Time.Cycles

namespace Clib4.Time

open Foundation Foundation.Calendar

/-!
# Conversion through the operating system

`localtime_r`, `gmtime_r` and `mktime` leave the calendar to `utility.library`,
which counts seconds from 1978.  `Utility` is that library with its promise to be
exact.  The conversions add an offset before they ask for a date, and `mktime`
adds one after it has asked for a number of seconds; what a call of one makes of
the result of the other is decided by these offsets alone.
-/

def unixTimeOffset : Int := 252460800

def amigaEpoch : Int := unixEpoch + unixTimeOffset

theorem amigaEpoch_eq : amigaEpoch = 86400 * dayNumber 1978 1 1 := by
  decide

/-- `struct ClockData`. -/
structure ClockData where
  sec : Nat
  min : Nat
  hour : Nat
  mday : Nat
  month : Nat
  year : Nat
  wday : Nat
deriving DecidableEq, Repr

/-- A date and time as `struct ClockData` holds it. -/
def ClockData.ofCivil (civil : Civil) : ClockData where
  sec := civil.second.toNat
  min := civil.minute.toNat
  hour := civil.hour.toNat
  mday := civil.day.toNat
  month := civil.month
  year := civil.year.toNat
  wday := civil.weekday.toNat

/--
The conversions of `utility.library`, exact on what 32 bits of seconds can hold.
`Date2Amiga` does not look at the day of the week.
-/
structure Utility where
  amiga2Date : Nat -> ClockData
  date2Amiga : ClockData -> Nat
  amiga2Date_exact : ∀ seconds : Nat, seconds < 2 ^ 32 ->
    ∃ civil : Civil, civil.seconds = amigaEpoch + seconds /\
      amiga2Date seconds = .ofCivil civil
  date2Amiga_exact : ∀ (civil : Civil) (wday : Nat), amigaEpoch <= civil.seconds ->
    civil.seconds < amigaEpoch + 2 ^ 32 ->
      (date2Amiga { ClockData.ofCivil civil with wday := wday } : Int) = civil.seconds - amigaEpoch

/-- What `timezone.library` tells of the time in force. -/
inductive TimeFlag
  | unknown
  | standard
  | daylight
deriving DecidableEq, Repr

/-- What the conversions read of the state of the process and of the system. -/
structure Process where
  isTZSet : Bool
  /-- Minutes west of Greenwich, if there is a default locale. -/
  defaultLocale : Option Int
  timezone : Int
  daylight : Int
  tzname : List Char × List Char
  timeFlag : TimeFlag
deriving DecidableEq, Repr

def calculateDaysPerDate (year month day : Int) : Int :=
  let month := month + 9
  let year := year - 1 + month.tdiv 12
  let month := month.tmod 12 * 306 + 5
  year * 365 + year.tdiv 4 - year.tdiv 100 + year.tdiv 400 + month.tdiv 10 + day - 1

/-- `__convert_time`; both numbers of seconds are 32 bits wide. -/
def convertTime (utility : Utility) (clib4 : Process) (seconds gmtOffset : Int) : Tm :=
  let seconds := if seconds < unixTimeOffset then 0 else seconds - unixTimeOffset
  let seconds := unsigned 32 (seconds - gmtOffset)
  let seconds := if clib4.timeFlag = .daylight then unsigned 32 (seconds + 60 * 60) else seconds
  let clockData := utility.amiga2Date seconds.toNat
  { tmSec := clockData.sec
    tmMin := clockData.min
    tmHour := clockData.hour
    tmMday := clockData.mday
    tmMon := (clockData.month : Int) - 1
    tmYear := (clockData.year : Int) - 1900
    tmWday := clockData.wday
    tmIsdst := clib4.daylight
    tmZone := clib4.tzname.1
    tmGmtoff := clib4.timezone.tdiv 60
    tmYday := calculateDaysPerDate clockData.year clockData.month clockData.mday -
      calculateDaysPerDate clockData.year 1 1 }

/-- The offset `localtime_r` takes off. -/
def gmtOffset (clib4 : Process) : Int :=
  if !clib4.isTZSet then
    match clib4.defaultLocale with
    | some offset => signed 32 (60 * offset)
    | none => 0
  else clib4.timezone

def localtimeR (utility : Utility) (clib4 : Process) (t : Int) : Tm :=
  convertTime utility clib4 (unsigned 32 t) (gmtOffset clib4)

def gmtimeR (utility : Utility) (clib4 : Process) (t : Int) : Tm :=
  convertTime utility clib4 (unsigned 32 t) 0

/-- The year and the month with the month brought between 1 and 12. -/
def normalizeMonth (year month : Int) : Int × Int :=
  let ⟨year, month⟩ :=
    if month < 0 \/ 12 < month then (year + month.tdiv 12, month - month.tdiv 12 * 12)
    else (year, month)
  if month < 1 then (year - 1, month + 12) else (year, month)

def toUtc (clib4 : Process) (seconds : Int) : Int :=
  match clib4.defaultLocale with
  | some offset => unsigned 32 (seconds + 60 * offset)
  | none => seconds

/-- `mktime`: the instant, and the structure as the call leaves it. -/
def mktime (utility : Utility) (clib4 : Process) (tm : Tm) : Int × Tm :=
  let ⟨year, month⟩ := normalizeMonth (tm.tmYear + 1900) (tm.tmMon + 1)
  if year < 1978 then (-1, tm)
  else
    let clockData : ClockData :=
      { sec := 0, min := 0, hour := 0, mday := 1, month := (unsigned 16 month).toNat
        year := (unsigned 16 year).toNat, wday := 0 }
    let seconds : Int := utility.date2Amiga clockData
    let combined :=
      signed 32 (tm.tmSec + 60 * (tm.tmMin + 60 * (tm.tmHour + 24 * (tm.tmMday - 1))))
    if combined < 0 /\ seconds < unsigned 32 (-combined) then (-1, tm)
    else
      let seconds := toUtc clib4 (unsigned 32 (seconds + combined))
      let result := signed 32 (seconds + unixTimeOffset)
      (result, localtimeR utility clib4 result)

/-! ## The calendar of the conversions -/

theorem calculateDaysPerDate_eq {year : Int} {month : Nat} (day : Int) (yearPos : 1 <= year)
    (pos : 1 <= month) (le : month <= 12) :
    calculateDaysPerDate year month day = dayNumber year month day + 306 := by
  have months : (0 : Int) <= month + 9 := by omega
  have rest : ((month : Int) + 9) % 12 = ((month + 9) % 12 : Nat) := by
    push_cast
    rfl
  unfold calculateDaysPerDate
  dsimp only
  rw [Int.tdiv_eq_ediv_of_nonneg months, Int.tmod_eq_emod_of_nonneg months, rest]
  rcases Nat.lt_or_ge 2 month with late | early
  · have next : ((month : Int) + 9) / 12 = 1 := by omega
    rw [dayNumber_of_two_lt _ _ late le, next, sub_add_cancel]
    repeat rw [Int.tdiv_eq_ediv_of_nonneg (by omega)]
    unfold marchDays daysFromMarch
    omega
  · have same : ((month : Int) + 9) / 12 = 0 := by omega
    rw [dayNumber_of_le_two _ _ pos early, same, add_zero]
    repeat rw [Int.tdiv_eq_ediv_of_nonneg (by omega)]
    unfold marchDays daysFromMarch
    omega

/-- `__calculate_days_per_date` as an `int`; only the sum in it may not fit. -/
def daysPerDate (year month day : Int) : Int := signed 32 (calculateDaysPerDate year month day)

theorem signed_daysPerDate_sub (offset : Int) (civil : Civil) (late : 1 <= civil.year) {year : Int}
    {month : Nat} (day : Int) (early : 1 <= year) (pos : 1 <= month) (le : month <= 12) :
    signed 32 (offset + daysPerDate civil.year civil.month civil.day - daysPerDate year month day) =
      signed 32 (offset + civil.days - dayNumber year month day) := by
  apply signed_congr
  apply (((signed_modEq 32 _).add_left offset).sub (signed_modEq 32 _)).trans
  rw [calculateDaysPerDate_eq _ late civil.month_pos civil.month_le,
    calculateDaysPerDate_eq _ early pos le, <- add_assoc, add_sub_add_right_eq_sub]
  rfl

/-- The difference is that of the dates where it fits; `tm_yday` and `%j` always do. -/
theorem days_per_date_exact_iff {first second : Civil} (early : 1 <= first.year)
    (late : 1 <= second.year) :
    (signed 32 (daysPerDate second.year second.month second.day -
        daysPerDate first.year first.month first.day) = second.days - first.days <->
      -2 ^ 31 <= second.days - first.days /\ second.days - first.days < 2 ^ 31) /\
    ∀ offset ∈ [0, 1], signed 32 (offset + daysPerDate first.year first.month first.day -
      daysPerDate first.year 1 1) = offset + first.dayOfYear := by
  have whole := signed_daysPerDate_sub 0 second late first.day early first.month_pos first.month_le
  rw [zero_add, zero_add] at whole
  constructor
  · rw [whole]
    constructor
    · intro same
      have least := le_signed 31 (second.days - first.days)
      have most := signed_lt 31 (second.days - first.days)
      exact ⟨same ▸ least, same ▸ most⟩
    · intro fits
      exact signed_of_fits fits.1 fits.2
  · intro offset mem
    have year := signed_daysPerDate_sub offset first early 1 early (le_refl 1) (by decide)
    have least := first.dayOfYear_nonneg
    have most := first.dayOfYear_lt
    have january : dayNumber first.year 1 1 = daysBeforeYear first.year := by
      simp [dayNumber, daysBeforeMonth]
    have small : offset = 0 \/ offset = 1 := by simpa using mem
    unfold yearLength at most
    rw [Nat.cast_one] at year
    rw [year, january, first.days_eq, add_sub_assoc, add_sub_cancel_left]
    exact signed_of_fits (by omega) (by split_ifs at most <;> omega)

/-- The last day of a leap year is its 366th, and 20088 days behind the first of 1970. -/
theorem days_per_date_exact_leap :
    signed 32 (daysPerDate 1970 1 1 - daysPerDate 2024 12 31) = -20088 /\
      signed 32 (1 + daysPerDate 2024 12 31 - daysPerDate 2024 1 1) = 366 := by
  let eve : Civil := ⟨2024, 12, 31, 0, 0, 0, by decide, by decide, by decide, by decide, by decide,
    by decide, by decide, by decide, by decide, by decide⟩
  let epoch : Civil := ⟨1970, 1, 1, 0, 0, 0, by decide, by decide, by decide, by decide, by decide,
    by decide, by decide, by decide, by decide, by decide⟩
  obtain ⟨apart, inYear⟩ := @days_per_date_exact_iff eve epoch (by decide) (by decide)
  exact ⟨apart.mpr (by decide), inYear 1 (by decide)⟩

/-- Six million years have more days than an `int` can count. -/
theorem days_per_date_wraps :
    signed 32 (daysPerDate 6000001 1 1 - daysPerDate 1 1 1) = -2103512296 /\
      dayNumber 6000001 1 1 - dayNumber 1 1 1 = 2191455000 := by
  decide

/-- The hour of daylight saving time, as the system has it in force. -/
def daylightSeconds (clib4 : Process) : Int := if clib4.timeFlag = .daylight then 3600 else 0

theorem year_of_amigaEpoch_le {civil : Civil} (le : amigaEpoch <= civil.seconds) :
    1978 <= civil.year := by
  by_contra before
  have next := daysBeforeYear_mono (show civil.year + 1 <= 1978 by omega)
  rw [daysBeforeYear_succ] at next
  have lt := civil.dayOfYear_lt
  have hours := civil.hour_lt
  have minutes := civil.minute_lt
  have seconds := civil.second_lt
  have days := civil.days_eq
  rw [amigaEpoch_eq] at le
  rw [show daysBeforeYear 1978 = dayNumber 1978 1 1 from rfl] at next
  unfold Civil.seconds at le
  omega

/-- `__convert_time` shows the instant less the offset, and the hour of daylight saving. -/
theorem convertTime_shows (utility : Utility) (clib4 : Process) {seconds : Int} (offset : Int)
    (le : unixTimeOffset <= seconds) :
    (convertTime utility clib4 seconds offset).toDateTime.Shows (unixTimeOffset +
      unsigned 32 (seconds - unixTimeOffset - offset + daylightSeconds clib4)) := by
  have count : (if clib4.timeFlag = .daylight then
        unsigned 32 (unsigned 32 (seconds - unixTimeOffset - offset) + 60 * 60)
      else unsigned 32 (seconds - unixTimeOffset - offset)) =
      unsigned 32 (seconds - unixTimeOffset - offset + daylightSeconds clib4) := by
    unfold daylightSeconds
    split_ifs
    · exact unsigned_congr ((unsigned_modEq 32 _).add_right _)
    · rw [add_zero]
  unfold convertTime
  rw [if_neg (not_lt.mpr le)]
  dsimp only
  rw [count]
  have nonneg := unsigned_nonneg 32 (seconds - unixTimeOffset - offset + daylightSeconds clib4)
  have lt := unsigned_lt 32 (seconds - unixTimeOffset - offset + daylightSeconds clib4)
  generalize unsigned 32 (seconds - unixTimeOffset - offset + daylightSeconds clib4) = amiga
    at nonneg lt ⊢
  obtain ⟨civil, counts, eq⟩ := utility.amiga2Date_exact amiga.toNat (by omega)
  rw [eq]
  have year := year_of_amigaEpoch_le (show amigaEpoch <= civil.seconds by rw [counts]; omega)
  refine ⟨civil, ?_, ?_⟩
  · rw [counts, amigaEpoch]
    omega
  · have hours := civil.hour_nonneg
    have minutes := civil.minute_nonneg
    have rest := civil.second_nonneg
    have day := civil.day_pos
    apply DateTime.ext <;> simp only [ClockData.ofCivil, DateTime.ofCivil]
    case tmYday =>
      rw [show (1 : Int) = ((1 : Nat) : Int) from rfl,
        calculateDaysPerDate_eq _ (by omega) civil.month_pos civil.month_le,
        calculateDaysPerDate_eq _ (by omega) (le_refl 1) (by decide)]
      rw [Int.toNat_of_nonneg (by omega), Int.toNat_of_nonneg (by omega)]
      unfold dayNumber Civil.dayOfYear
      rw [show daysBeforeMonth (isLeap civil.year) 1 = 0 from rfl]
      omega
    case tmWday =>
      apply Int.toNat_of_nonneg
      exact Int.emod_nonneg _ (by decide)
    all_goals omega

/-! ## `mktime` -/

def firstOfMonth (civil : Civil) : Civil :=
  { civil with
    day := 1, hour := 0, minute := 0, second := 0
    day_pos := le_refl 1
    day_le := Int.add_one_le_of_lt (monthLength_pos _ _)
    hour_nonneg := le_refl 0
    hour_lt := by decide
    minute_nonneg := le_refl 0
    minute_lt := zero_lt_sixty
    second_nonneg := le_refl 0
    second_lt := zero_lt_sixty }

theorem firstOfMonth_seconds (civil : Civil) : civil.seconds = (firstOfMonth civil).seconds +
      (civil.second + 60 * (civil.minute + 60 * (civil.hour + 24 * (civil.day - 1)))) := by
  unfold Civil.seconds Civil.days dayNumber firstOfMonth
  dsimp only
  omega

theorem monthLength_le (leap : Bool) (month : Nat) : monthLength leap month <= 31 := by
  unfold monthLength
  split_ifs <;> decide

theorem amigaEpoch_le_firstOfMonth {civil : Civil} (year : 1978 <= civil.year) :
    amigaEpoch <= (firstOfMonth civil).seconds := by
  have years := daysBeforeYear_mono year
  have months := daysBeforeMonth_mono (isLeap civil.year) (Nat.zero_le civil.month)
  rw [show daysBeforeMonth (isLeap civil.year) 0 = 0 from rfl] at months
  rw [amigaEpoch_eq, <- show daysBeforeYear 1978 = dayNumber 1978 1 1 from rfl]
  unfold Civil.seconds Civil.days dayNumber firstOfMonth
  dsimp only
  omega

def localeMinutes (clib4 : Process) : Int := clib4.defaultLocale.getD 0

theorem toUtc_modEq (clib4 : Process) (seconds : Int) :
    toUtc clib4 seconds ≡ seconds + 60 * localeMinutes clib4 [ZMOD 2 ^ 32] := by
  unfold toUtc localeMinutes
  cases clib4.defaultLocale with
  | none =>
    rw [Option.getD_none, mul_zero, add_zero]
  | some offset => exact unsigned_modEq 32 _

theorem normalizeMonth_of_month {year : Int} {month : Nat} (pos : 1 <= month) (le : month <= 12) :
    normalizeMonth year month = (year, (month : Int)) := by
  unfold normalizeMonth
  rw [if_neg (by omega)]
  dsimp only
  rw [if_neg (by omega)]

theorem mktime_of_shows (utility : Utility) (clib4 : Process) {tm : Tm} {t : Int}
    (shown : tm.toDateTime.Shows t) (lower : unixTimeOffset <= t)
    (upper : t < unixTimeOffset + 2 ^ 32) :
    (mktime utility clib4 tm).1 = signed 32 (t + 60 * localeMinutes clib4) := by
  obtain ⟨civil, counts, fields⟩ := shown
  have year := year_of_amigaEpoch_le (by rw [counts, amigaEpoch]; omega)
  have year_lt : civil.year < 2 ^ 16 := by
    have days := civil.days_eq
    have nonneg := civil.dayOfYear_nonneg
    have hours := civil.hour_nonneg
    have minutes := civil.minute_nonneg
    have seconds := civil.second_nonneg
    rw [unixEpoch_eq] at counts
    unfold unixTimeOffset at upper
    unfold daysBeforeYear at days
    unfold Civil.seconds at counts
    omega
  have month := And.intro civil.month_pos civil.month_le
  have first := amigaEpoch_le_firstOfMonth year
  have sum := firstOfMonth_seconds civil
  have inMonth : 0 <= civil.second + 60 * (civil.minute + 60 * (civil.hour + 24 * (civil.day - 1))) /\
      civil.second + 60 * (civil.minute + 60 * (civil.hour + 24 * (civil.day - 1))) < 2 ^ 31 := by
    have days := And.intro civil.day_pos (civil.day_le.trans (monthLength_le _ _))
    have hours := And.intro civil.hour_nonneg civil.hour_lt
    have minutes := And.intro civil.minute_nonneg civil.minute_lt
    have seconds := And.intro civil.second_nonneg civil.second_lt
    omega
  -- the date asked for is the first of the month
  have asked : ClockData.mk 0 0 0 1 (unsigned 16 civil.month).toNat (unsigned 16 civil.year).toNat 0 =
      { ClockData.ofCivil (firstOfMonth civil) with wday := 0 } := by
    rw [unsigned_of_fits (by omega) (by omega), unsigned_of_fits (by omega) year_lt]
    rfl
  have begun := utility.date2Amiga_exact (firstOfMonth civil) 0 first (by
    unfold amigaEpoch
    omega)
  unfold mktime
  rw [fields]
  simp only [DateTime.ofCivil, sub_add_cancel, normalizeMonth_of_month civil.month_pos civil.month_le]
  rw [if_neg (not_lt.mpr year), asked, begun, signed_of_fits (by omega) inMonth.2,
    if_neg (fun negative => absurd negative.1 (not_lt.mpr inMonth.1))]
  apply signed_congr
  calc toUtc clib4 (unsigned 32 _) + unixTimeOffset
      ≡ (firstOfMonth civil).seconds - amigaEpoch +
          (civil.second + 60 * (civil.minute + 60 * (civil.hour + 24 * (civil.day - 1)))) +
          60 * localeMinutes clib4 + unixTimeOffset [ZMOD 2 ^ 32] :=
        ((toUtc_modEq clib4 _).trans ((unsigned_modEq 32 _).add_right _)).add_right _
    _ = t + 60 * localeMinutes clib4 := by
        unfold amigaEpoch
        omega

/-! ## Date stamps -/

/-- `struct DateStamp`. -/
structure DateStamp where
  days : Int
  minute : Int
  tick : Int
deriving DecidableEq, Repr

namespace DateStamp

def ofSeconds (timeValue : Int) : DateStamp where
  days := timeValue.tdiv (24 * 60 * 60)
  minute := (timeValue.tmod (24 * 60 * 60)).tdiv 60
  tick := timeValue.tmod 60 * 50

def seconds (ds : DateStamp) : Int := ds.days * (24 * 60 * 60) + ds.minute * 60 + ds.tick.tdiv 50

def Valid (ds : DateStamp) : Prop :=
  (0 <= ds.minute /\ ds.minute < 1440) /\ 0 <= ds.tick /\ ds.tick < 3000

theorem seconds_ofSeconds (timeValue : Int) : (ofSeconds timeValue).seconds = timeValue := by
  have days := Int.tdiv_mul_add_tmod timeValue (24 * 60 * 60)
  have minutes := Int.tdiv_mul_add_tmod (timeValue.tmod (24 * 60 * 60)) 60
  rw [Int.tmod_tmod_of_dvd timeValue (by decide)] at minutes
  unfold seconds ofSeconds
  dsimp only
  rw [Int.mul_tdiv_cancel _ (by decide)]
  omega

theorem valid_ofSeconds_iff (timeValue : Int) :
    (ofSeconds timeValue).Valid <-> 0 <= timeValue \/ 24 * 60 * 60 ∣ timeValue := by
  unfold Valid ofSeconds
  dsimp only
  rcases le_or_gt 0 timeValue with after | before
  · rw [Int.tmod_eq_emod_of_nonneg after, Int.tmod_eq_emod_of_nonneg after,
      Int.tdiv_eq_ediv_of_nonneg (Int.emod_nonneg _ (by decide))]
    exact iff_of_true (by omega) (Or.inl after)
  · obtain ⟨past, rfl⟩ : ∃ past, timeValue = -past := ⟨-timeValue, (neg_neg _).symm⟩
    have pos : 0 <= past := by omega
    rw [Int.neg_tmod, Int.neg_tmod, Int.neg_tdiv, Int.tmod_eq_emod_of_nonneg pos,
      Int.tmod_eq_emod_of_nonneg pos,
      Int.tdiv_eq_ediv_of_nonneg (Int.emod_nonneg _ (by decide))]
    omega

end DateStamp

/-- `__convert_time_to_datestamp`; a `time_t` has 32 bits. -/
def convertTimeToDatestamp (clib4 : Process) (timeValue : Int) : DateStamp :=
  let timeValue := signed 32 (timeValue - unixTimeOffset)
  .ofSeconds <|
    match clib4.defaultLocale with
    | some offset => signed 32 (timeValue - signed 32 (60 * offset))
    | none => timeValue

def convertDatestampToTime (clib4 : Process) (ds : DateStamp) : Int :=
  let result := signed 32 (unixTimeOffset + ds.seconds)
  match clib4.defaultLocale with
  | some offset => signed 32 (result + signed 32 (60 * offset))
  | none => result

def localSeconds (clib4 : Process) (t : Int) : Int :=
  t - unixTimeOffset - 60 * localeMinutes clib4

theorem convertTimeToDatestamp_eq (clib4 : Process) (t : Int) :
    convertTimeToDatestamp clib4 t = .ofSeconds (signed 32 (localSeconds clib4 t)) := by
  unfold convertTimeToDatestamp localSeconds localeMinutes
  cases clib4.defaultLocale with
  | none =>
    rw [Option.getD_none, mul_zero, sub_zero]
  | some offset =>
    exact congrArg DateStamp.ofSeconds
      (signed_congr ((signed_modEq 32 _).sub (signed_modEq 32 _)))

theorem convertDatestampToTime_eq (clib4 : Process) (ds : DateStamp) :
    convertDatestampToTime clib4 ds =
      signed 32 (unixTimeOffset + ds.seconds + 60 * localeMinutes clib4) := by
  unfold convertDatestampToTime localeMinutes
  cases clib4.defaultLocale with
  | none =>
    rw [Option.getD_none, mul_zero, add_zero]
  | some offset => exact signed_congr ((signed_modEq 32 _).add (signed_modEq 32 _))

/-- For every time and locale: the date stamp is valid, and its time is the one it was made
of, exactly if the seconds of local time are, in 32 bits, not negative or those of whole days. -/
theorem datestamp_round_trip_iff (clib4 : Process) {t : Int} (lower : -2 ^ 31 <= t)
    (upper : t < 2 ^ 31) :
    ((convertTimeToDatestamp clib4 t).Valid /\
        convertDatestampToTime clib4 (convertTimeToDatestamp clib4 t) = t) <->
      0 <= signed 32 (localSeconds clib4 t) \/ 24 * 60 * 60 ∣ signed 32 (localSeconds clib4 t) := by
  rw [convertDatestampToTime_eq, convertTimeToDatestamp_eq, DateStamp.seconds_ofSeconds,
    DateStamp.valid_ofSeconds_iff]
  refine and_iff_left ?_
  calc signed 32 (unixTimeOffset + signed 32 (localSeconds clib4 t) + 60 * localeMinutes clib4)
      = signed 32 (unixTimeOffset + localSeconds clib4 t + 60 * localeMinutes clib4) :=
        signed_congr (((signed_modEq 32 _).add_left _).add_right _)
    _ = signed 32 t := congrArg (signed 32) (by unfold localSeconds; omega)
    _ = t := signed_of_fits lower upper

/-- The last second of a `time_t`, one hour west of Greenwich. -/
theorem datestamp_of_last_second :
    let clib4 : Process := ⟨false, some 60, 0, 0, ([], []), .unknown⟩
    let stamp := convertTimeToDatestamp clib4 (2 ^ 31 - 1)
    stamp.Valid /\ convertDatestampToTime clib4 stamp = 2 ^ 31 - 1 :=
  (datestamp_round_trip_iff _ (by decide) (by decide)).mpr (Or.inl (by decide))

/-- With an offset of eight years to the east the seconds of local time are too many. -/
theorem datestamp_wraps :
    0 <= localSeconds ⟨false, some (-4207681), 0, 0, ([], []), .unknown⟩ (2 ^ 31 - 1) /\
    convertTimeToDatestamp ⟨false, some (-4207681), 0, 0, ([], []), .unknown⟩ (2 ^ 31 - 1) =
      ⟨-24855, -193, -450⟩ := by
  decide

end Clib4.Time
