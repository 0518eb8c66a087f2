import Clib4.Time.Conversion

namespace Clib4.Time

open Foundation Foundation.Calendar

/-!
# Instants to dates and back

The two directions of the conversion apply offsets of their own.  `localtime_r`
follows `TZ` where it is set and adds the hour of daylight saving time; `mktime`
knows the offset of the locale only.  `gmtime_r` adds the hour of daylight saving
time as well, although UTC has none.
-/

/-! ## A `utility.library` -/

def ClockData.ofFields (fields : DateTime) : ClockData where
  sec := fields.tmSec.toNat
  min := fields.tmMin.toNat
  hour := fields.tmHour.toNat
  mday := fields.tmMday.toNat
  month := (fields.tmMon + 1).toNat
  year := (fields.tmYear + 1900).toNat
  wday := fields.tmWday.toNat

def ClockData.fields (clock : ClockData) : DateTime where
  tmSec := clock.sec
  tmMin := clock.min
  tmHour := clock.hour
  tmMday := clock.mday
  tmMon := (clock.month : Int) - 1
  tmYear := (clock.year : Int) - 1900
  tmWday := clock.wday
  tmYday := 0

variable (civil : Civil)

theorem tmToSecs_fields_ofCivil (wday : Nat) (pos : 0 <= civil.year) :
    tmToSecs ({ ClockData.ofCivil civil with wday := wday } : ClockData).fields =
      tmToSecs (.ofCivil civil) := by
  have fields : ({ ClockData.ofCivil civil with wday := wday } : ClockData).fields =
      { DateTime.ofCivil civil with tmWday := wday, tmYday := 0 } := by
    have day := civil.day_pos
    have hour := civil.hour_nonneg
    have minute := civil.minute_nonneg
    have second := civil.second_nonneg
    apply DateTime.ext <;> simp only [ClockData.fields, ClockData.ofCivil, DateTime.ofCivil] <;> omega
  rw [fields]
  rfl

/-- `Amiga2Date` by the cycles of `convert_time.c`. -/
def amiga2DateByCycles (seconds : Nat) : ClockData :=
  ((secsToTm (unixTimeOffset + seconds)).map ClockData.ofFields).getD ⟨0, 0, 0, 1, 1, 1978, 0⟩

/-- `Date2Amiga` by the cycles of `convert_time.c`. -/
def date2AmigaByCycles (clock : ClockData) : Nat :=
  (tmToSecs clock.fields - unixTimeOffset).toNat

theorem amiga2DateByCycles_exact (seconds : Nat) (lt : seconds < 2 ^ 32) :
    ∃ civil : Civil, civil.seconds = amigaEpoch + seconds /\
      amiga2DateByCycles seconds = .ofCivil civil := by
  have offset : unixTimeOffset = 252460800 := rfl
  obtain ⟨_, eq, civil, counts, rfl⟩ :=
    secsToTm_shows (t := unixTimeOffset + seconds) (by omega) (by omega)
  refine ⟨civil, ?_, ?_⟩
  · rw [counts, amigaEpoch]
    omega
  · unfold amiga2DateByCycles
    rw [eq, Option.map_some, Option.getD_some]
    simp [ClockData.ofFields, ClockData.ofCivil, DateTime.ofCivil]

theorem date2AmigaByCycles_exact (wday : Nat) (lower : amigaEpoch <= civil.seconds)
    (upper : civil.seconds < amigaEpoch + 2 ^ 32) :
    (date2AmigaByCycles { ClockData.ofCivil civil with wday := wday } : Int) =
      civil.seconds - amigaEpoch := by
  have year := year_of_amigaEpoch_le lower
  have offset : unixTimeOffset = 252460800 := rfl
  unfold amigaEpoch at lower upper ⊢
  unfold date2AmigaByCycles
  rw [tmToSecs_fields_ofCivil civil wday (by omega),
    tmToSecs_of_shows ⟨civil, (add_sub_cancel _ _).symm, rfl⟩ (by omega) (by omega)]
  omega

/-- The cycles of `convert_time.c` could serve as `utility.library`. -/
def Utility.standard : Utility where
  amiga2Date := amiga2DateByCycles
  date2Amiga := date2AmigaByCycles
  amiga2Date_exact := amiga2DateByCycles_exact
  date2Amiga_exact := date2AmigaByCycles_exact

/-! ## `mktime` after `localtime_r` -/

theorem mktime_localtimeR (utility : Utility) (clib4 : Process) {t : Int}
    (lower : unixTimeOffset <= t) (upper : t < 2 ^ 31) :
    (mktime utility clib4 (localtimeR utility clib4 t)).1 =
      signed 32 (t - gmtOffset clib4 + daylightSeconds clib4 + 60 * localeMinutes clib4) := by
  have offset : unixTimeOffset = 252460800 := rfl
  have shown := convertTime_shows utility clib4 (gmtOffset clib4) lower
  have nonneg := unsigned_nonneg 32
    (t - unixTimeOffset - gmtOffset clib4 + daylightSeconds clib4)
  have lt := unsigned_lt 32 (t - unixTimeOffset - gmtOffset clib4 + daylightSeconds clib4)
  unfold localtimeR
  rw [unsigned_of_fits (by omega) (by omega),
    mktime_of_shows utility clib4 shown (by omega) (by omega)]
  apply signed_congr
  calc unixTimeOffset + unsigned 32 (t - unixTimeOffset - gmtOffset clib4 + daylightSeconds clib4) +
        60 * localeMinutes clib4
      ≡ unixTimeOffset + (t - unixTimeOffset - gmtOffset clib4 + daylightSeconds clib4) +
        60 * localeMinutes clib4 [ZMOD 2 ^ 32] :=
        ((unsigned_modEq 32 _).add_left _).add_right _
    _ = t - gmtOffset clib4 + daylightSeconds clib4 + 60 * localeMinutes clib4 := by ring

theorem gmtOffset_of_unset {clib4 : Process} (unset : clib4.isTZSet = false) :
    gmtOffset clib4 ≡ 60 * localeMinutes clib4 [ZMOD 2 ^ 32] := by
  unfold gmtOffset localeMinutes
  rw [unset]
  cases clib4.defaultLocale with
  | none => rfl
  | some offset => exact signed_modEq 32 _

theorem daylightSeconds_modEq_zero_iff (clib4 : Process) :
    daylightSeconds clib4 ≡ 0 [ZMOD 2 ^ 32] <-> clib4.timeFlag ≠ .daylight := by
  unfold daylightSeconds
  split_ifs with inForce
  · exact iff_of_false (by decide) (not_not_intro inForce)
  · exact iff_of_true rfl inForce

/--
`mktime` undoes `localtime_r` exactly when the offsets agree: without `TZ` that is
outside daylight saving time, and with it when its offset happens to be that of the
locale, an hour more in daylight saving time.
-/
theorem mktime_localtime_r_iff (utility : Utility) (clib4 : Process) (t : Int)
    (lower : unixTimeOffset <= t) (upper : t < 2 ^ 31) :
    (mktime utility clib4 (localtimeR utility clib4 t)).1 = t <->
      if clib4.isTZSet then
        clib4.timezone ≡ 60 * localeMinutes clib4 + daylightSeconds clib4 [ZMOD 2 ^ 32]
      else clib4.timeFlag ≠ .daylight := by
  have offset : unixTimeOffset = 252460800 := rfl
  have fits := (signed_of_fits (by omega) upper).symm
  rw [mktime_localtimeR utility clib4 lower upper]
  nth_rewrite 2 [fits]
  rw [signed_eq_signed_iff]
  have difference : (t - gmtOffset clib4 + daylightSeconds clib4 + 60 * localeMinutes clib4 ≡
      t [ZMOD 2 ^ 32]) <->
      gmtOffset clib4 ≡ 60 * localeMinutes clib4 + daylightSeconds clib4 [ZMOD 2 ^ 32] := by
    rw [Int.modEq_iff_dvd, Int.modEq_comm, Int.modEq_iff_dvd]
    ring_nf
  rw [difference]
  cases setting : clib4.isTZSet with
  | true =>
    rw [gmtOffset, setting]
    rfl
  | false =>
    have back := gmtOffset_of_unset setting
    rw [<- daylightSeconds_modEq_zero_iff]
    constructor
    · intro same
      have cancelled := back.symm.trans same
      nth_rewrite 1 [<- add_zero (60 * localeMinutes clib4)] at cancelled
      exact (Int.ModEq.add_left_cancel' _ cancelled).symm
    · intro zero
      have added := zero.symm.add_left (60 * localeMinutes clib4)
      rw [add_zero] at added
      exact back.trans added

def eastern (timeFlag : TimeFlag) : Process where
  isTZSet := false
  defaultLocale := some (-60)
  timezone := 0
  daylight := 0
  tzname := ("GMT".toList, "GMT".toList)
  timeFlag := timeFlag

theorem mktime_localtime_r_in_winter :
    (mktime .standard (eastern .standard) (localtimeR .standard (eastern .standard) 1000000000)).1 =
      1000000000 :=
  (mktime_localtime_r_iff .standard (eastern .standard) 1000000000 (by decide) (by decide)).mpr
    (by decide)

/-- In daylight saving time an hour is gained, and under a `TZ` of its own offset that offset. -/
theorem mktime_localtime_r_gains_time :
    (mktime .standard (eastern .daylight) (localtimeR .standard (eastern .daylight) 1000000000)).1 =
        1000003600 /\
      (mktime .standard { eastern .standard with isTZSet := true, timezone := 7200 }
        (localtimeR .standard { eastern .standard with isTZSet := true, timezone := 7200 }
          1000000000)).1 = 999989200 := by
  constructor
  all_goals
    decide

/-! ## `gmtime_r` -/

theorem gmtimeR_shows (utility : Utility) (clib4 : Process) {t : Int}
    (lower : unixTimeOffset <= t) (upper : t < 2 ^ 31) :
    (gmtimeR utility clib4 t).toDateTime.Shows (t + daylightSeconds clib4) := by
  have offset : unixTimeOffset = 252460800 := rfl
  have hour : 0 <= daylightSeconds clib4 /\ daylightSeconds clib4 <= 3600 := by
    unfold daylightSeconds
    split_ifs <;> decide
  have shown := convertTime_shows utility clib4 0 lower
  rw [unsigned_of_fits (by omega) (by omega)] at shown
  unfold gmtimeR
  rw [unsigned_of_fits (by omega) (by omega)]
  convert shown using 1
  ring

/--
`gmtime_r` agrees with the arithmetic of `__secs_to_tm`, and `timegm` undoes it,
exactly outside daylight saving time.
-/
theorem gmtime_r_agrees_iff (utility : Utility) (clib4 : Process) (t : Int)
    (lower : unixTimeOffset <= t) (upper : t < 2 ^ 31) :
    secsToTm t = some (gmtimeR utility clib4 t).toDateTime /\
        (timegm (gmtimeR utility clib4 t)).1 = t <->
      clib4.timeFlag ≠ .daylight := by
  have offset : unixTimeOffset = 252460800 := rfl
  have shown := gmtimeR_shows utility clib4 lower upper
  obtain ⟨fields, found, shown'⟩ := secsToTm_shows (t := t) (by omega) (by omega)
  unfold daylightSeconds at shown
  constructor
  · rintro ⟨same, _⟩ inForce
    rw [if_pos inForce] at shown
    rw [found, Option.some.injEq] at same
    rw [same] at shown'
    have := shown.instant_eq shown'
    omega
  · intro notInForce
    rw [if_neg notInForce, add_zero] at shown
    rw [found, shown'.unique shown]
    exact ⟨rfl, timegm_of_shows shown (by omega) upper⟩

theorem gmtime_r_agrees_in_winter :
    secsToTm 1000000000 = some (gmtimeR .standard (eastern .standard) 1000000000).toDateTime /\
      (timegm (gmtimeR .standard (eastern .standard) 1000000000)).1 = 1000000000 :=
  (gmtime_r_agrees_iff .standard (eastern .standard) 1000000000 (by decide) (by decide)).mpr
    (by decide)

/-- In daylight saving time `gmtime_r` shows 02:46:40 for 01:46:40. -/
theorem gmtime_r_an_hour_late : (secsToTm 1000000000).map (·.tmHour) = some 1 /\
      (gmtimeR .standard (eastern .daylight) 1000000000).tmHour = 2 /\
      (timegm (gmtimeR .standard (eastern .daylight) 1000000000)).1 = 1000003600 := by
  decide +kernel

end Clib4.Time
