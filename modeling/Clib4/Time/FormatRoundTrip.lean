import Clib4.Time.FormatAgreement

namespace Clib4.Time

open Foundation Foundation.Calendar List
open Stdlib (byteOf)

/-!
# Which formats `strptime` reads back

`strptime` after `strftime` does to the fields what the conversions of the format do
one after the other.  A field comes out right if the last conversion that may
change it is one that always restores it.  The others go wrong for some date:
`%e` writes the month, `%C` the century since 1900, `%y` leaves the century out,
`%u` counts from another day, `%I` leaves out the half of the day, which `%p` takes
for the afternoon from one o'clock on, and the weeks of `%U`, `%V` and `%W` are
counted from a fixed day.
-/

/-! ## Fields -/

/-- The fields of a date and time. -/
inductive Field
  | sec | min | hour | mday | mon | year | wday | yday
deriving DecidableEq, Repr

namespace Field

def get : Field -> DateTime -> Int
  | .sec, tm => tm.tmSec
  | .min, tm => tm.tmMin
  | .hour, tm => tm.tmHour
  | .mday, tm => tm.tmMday
  | .mon, tm => tm.tmMon
  | .year, tm => tm.tmYear
  | .wday, tm => tm.tmWday
  | .yday, tm => tm.tmYday

def writers : Field -> List Directive
  | .sec => [.S]
  | .min => [.M]
  | .hour => [.H, .I, .p]
  | .mday => [.d, .e]
  | .mon => [.b, .B, .h, .m]
  | .year => [.C, .y, .Y]
  | .wday => [.a, .A, .u, .w, .U, .W]
  | .yday => [.j, .U, .V, .W]

def restorers : Field -> List Directive
  | .sec => [.S]
  | .min => [.M]
  | .hour => [.H]
  | .mday => [.d]
  | .mon => [.b, .B, .h, .m]
  | .year => [.Y]
  | .wday => [.a, .A, .w]
  | .yday => [.j]

/-- The conversions that stand for a field, as the language standard describes
them; the hour is also given by its half and its hour on the clock, and the year
by its century and the year in it. -/
def determinedBy (field : Field) (directives : List Directive) : Bool :=
  match field with
  | .sec => directives.contains .S
  | .min => directives.contains .M
  | .hour => directives.contains .H || directives.contains .I && directives.contains .p
  | .mday => directives.contains .d || directives.contains .e
  | .mon => directives.any fun spec => [Directive.b, .B, .h, .m].contains spec
  | .year => directives.contains .Y || directives.contains .C && directives.contains .y
  | .wday => directives.any fun spec => [Directive.a, .A, .u, .w].contains spec
  | .yday => directives.contains .j

end Field

def lastWriter (field : Field) (directives : List Directive) : Option Directive :=
  (directives.filter field.writers.contains).getLast?

/-- `strptime` applied to the text that `strftime` wrote for `tm` succeeds, consumes
the text and restores every field that the conversions determine; `fields` is what
the structure held before. -/
def RoundTrips (locale : Option Int) (format : List UInt8) (tm fields : DateTime) : Prop :=
  ∀ maxsize, (formatDate locale (withWeekday tm) 3 format).length < maxsize ->
    ∃ text after, strftime locale maxsize format tm = (text.length, some text) /\
      strptime text format fields = some ([], after) /\
      ∀ field : Field, field.determinedBy (leaves format) ->
        field.get after = field.get tm

/-- `strptime` gets to the end of the text, and the last conversion that may change a
field restores it. -/
structure Faithful (format : List UInt8) : Prop where
  readable : readable false (tokens format)
  restores : ∀ field : Field, field.determinedBy (leaves format) ->
    ∀ spec ∈ lastWriter field (leaves format), spec ∈ field.restorers

/-! ## What a conversion does to a field -/

section Changes

variable {tm : DateTime}

variable {spec : Directive}

section

variable (range : tm.InRange) {written : Numeral} (writes : spec.written tm = some written)
  (notCentury : spec ≠ .C)
include range writes notCentury

theorem numeral_written : (numeral written.digits : Int) = written.number := by
  obtain ⟨sec, min, hour, mday, mon, year, wday, yday, date⟩ := id range
  have week := range.week
  unfold lastYear at year
  cases spec <;> first | exact absurd rfl notCentury | cases writes
  case d | e | H | m | M | S | V => exact Numeral.numeral_two (by omega) (by omega)
  case I =>
    have half : tm.tmHour.tmod 12 = tm.tmHour % 12 := Int.tmod_eq_emod_of_nonneg hour.1
    exact Numeral.numeral_two (by split_ifs <;> omega) (by split_ifs <;> omega)
  case U =>
    have weeks : (tm.tmYday + 7 - tm.tmWday).tdiv 7 = (tm.tmYday + 7 - tm.tmWday) / 7 :=
      Int.tdiv_eq_ediv_of_nonneg (by omega)
    exact Numeral.numeral_two (by omega) (by omega)
  case W =>
    have day : (tm.tmWday + 6).tmod 7 = (tm.tmWday + 6) % 7 :=
      Int.tmod_eq_emod_of_nonneg (by omega)
    have weeks : (tm.tmYday + 7 - (tm.tmWday + 6).tmod 7).tdiv 7 =
        (tm.tmYday + 7 - (tm.tmWday + 6).tmod 7) / 7 := Int.tdiv_eq_ediv_of_nonneg (by omega)
    exact Numeral.numeral_two (by omega) (by omega)
  case y =>
    have same : unsigned 32 tm.tmYear = tm.tmYear := unsigned_of_fits year.1 (by omega)
    exact Numeral.numeral_two (by omega) (by omega)
  case u => exact Numeral.numeral_one (by split_ifs <;> omega) (by split_ifs <;> omega)
  case w => exact Numeral.numeral_one (by omega) (by omega)
  case j => exact Numeral.numeral_all _ 3 (by omega) (by omega)
  case Y => exact Numeral.numeral_all _ 0 (by omega) (by omega)

theorem change_eq_storeNumber (fields : DateTime) :
    spec.change tm fields = storeNumber spec written.number fields := by
  rw [Directive.change_of_written writes, numeral_written range writes notCentury]

end

variable {field : Field}

theorem get_change_of_restorers (range : tm.InRange)
    (restores : spec ∈ field.restorers) (fields : DateTime) :
    field.get (spec.change tm fields) = field.get tm := by
  have stored := fun {spec : Directive} {written : Numeral}
    (writes : spec.written tm = some written) (notCentury : spec ≠ .C) =>
      change_eq_storeNumber range writes notCentury fields
  have year := range.year
  unfold lastYear at year
  have date := range.date
  cases field <;> simp only [Field.restorers, mem_cons, not_mem_nil, or_false] at restores
  case sec | min | hour | mday =>
    subst restores
    rw [stored rfl (by decide)]
    rfl
  case mon =>
    rcases restores with rfl | rfl | rfl | rfl
    · rfl
    · rfl
    · rfl
    · rw [stored rfl (by decide)]
      exact Int.add_sub_cancel tm.tmMon 1
  case year =>
    subst restores
    rw [stored rfl (by decide)]
    have back : (1900 + tm.tmYear) - 1900 = tm.tmYear := by omega
    have fits : signed 32 tm.tmYear = tm.tmYear := signed_of_fits (by omega) (by omega)
    simp only [storeNumber, Field.get, back, fits]
  case wday =>
    rcases restores with rfl | rfl | rfl
    · rfl
    · rfl
    · rw [stored rfl (by decide)]
      rfl
  case yday =>
    subst restores
    rw [stored rfl (by decide)]
    simp only [storeNumber, Field.get]
    omega

theorem firstDayLoop_succ (turns : Nat) (year : Int) {ret : Int} (nonneg : 0 <= ret) :
    firstDayLoop (turns + 1) year ret = 1 := by
  induction turns generalizing year ret with
  | zero =>
    rw [firstDayLoop, if_pos (by split_ifs <;> omega)]
    rfl
  | succ turns ih =>
    rw [firstDayLoop, if_pos (by split_ifs <;> omega)]
    exact ih (year - 1) (by decide)

theorem firstDay_eq (year : Int) : firstDay year = if 1970 < year then 1 else 4 := by
  unfold firstDay
  split_ifs with late
  · obtain ⟨turns, count⟩ : ∃ turns, (year - 1970).toNat = turns + 1 :=
      ⟨(year - 1970).toNat - 1, by omega⟩
    rw [count]
    exact firstDayLoop_succ turns year (by decide)
  · have count : (year - 1970).toNat = 0 := by omega
    rw [count]
    rfl

theorem firstDay_cases (year : Int) : firstDay year = 1 /\ (firstDay year + 6).tmod 7 = 0 \/
      firstDay year = 4 /\ (firstDay year + 6).tmod 7 = 3 := by
  rw [firstDay_eq]
  split_ifs
  · exact Or.inl ⟨rfl, rfl⟩
  · exact Or.inr ⟨rfl, rfl⟩

variable {fields : DateTime}

theorem setWeekNumberMon4_wday {week : Int} (pos : 1 <= week)
    (nonneg : 0 <= fields.tmWday) : (setWeekNumberMon4 week fields).tmWday = fields.tmWday := by
  unfold setWeekNumberMon4
  have day := firstDay_cases (fields.tmYear + 1900)
  dsimp only
  generalize (firstDay (fields.tmYear + 1900) + 6).tmod 7 = fday at day ⊢
  have small : fday < 4 := by omega
  simp only [if_pos small]
  rw [if_neg (by omega)]

theorem get_change_of_not_writers (range : tm.InRange)
    (other : spec ∉ field.writers) (nonneg : field = .wday -> 0 <= fields.tmWday) :
    field.get (spec.change tm fields) = field.get fields := by
  cases spec
  case U =>
    rw [change_eq_storeNumber range rfl (by decide)]
    unfold storeNumber setWeekNumberSun
    dsimp only
    cases field <;> first | exact absurd (by decide) other | split_ifs <;> rfl
  case W =>
    rw [change_eq_storeNumber range rfl (by decide)]
    unfold storeNumber setWeekNumberMon
    dsimp only
    cases field <;> first | exact absurd (by decide) other | split_ifs <;> rfl
  case V =>
    rw [change_eq_storeNumber range rfl (by decide)]
    cases field
    case wday => exact setWeekNumberMon4_wday range.week.1 (nonneg rfl)
    all_goals
      unfold storeNumber setWeekNumberMon4
      dsimp only
      first | exact absurd (by decide) other | split_ifs <;> rfl
  case p =>
    unfold Directive.change storeHalf
    dsimp only
    cases field <;> first | exact absurd (by decide) other | split_ifs <;> rfl
  case C | d | e | H | I | j | m | M | S | u | w | y | Y =>
    rw [Directive.change_of_written rfl]
    generalize numeral _ = number
    cases field <;> first | exact absurd (by decide) other | rfl
  all_goals cases field <;> first | exact absurd (by decide) other | rfl

/-! ## The last conversion decides -/

theorem changeAll_concat (directives : List Directive) (spec : Directive)
    (fields : DateTime) :
    changeAll tm (directives ++ [spec]) fields =
      spec.change tm (changeAll tm directives fields) :=
  foldl_concat ..

theorem lastWriter_concat (field : Field) (directives : List Directive) (spec : Directive) :
    lastWriter field (directives ++ [spec]) =
      if spec ∈ field.writers then some spec else lastWriter field directives := by
  unfold lastWriter
  rw [filter_append]
  split_ifs with writes
  · rw [filter_cons_of_pos (contains_iff_mem.mpr writes), filter_nil,
      List.getLast?_concat]
  · rw [filter_cons_of_neg (fun found => writes (contains_iff_mem.mp found)),
      filter_nil, append_nil]

variable {directives : List Directive}

theorem get_changeAll_of_restores (range : tm.InRange)
    (last : lastWriter field directives = some spec) (restores : spec ∈ field.restorers)
    (fields : DateTime) : field.get (changeAll tm directives fields) = field.get tm := by
  induction directives using List.reverseRecOn with
  | nil => cases last
  | append_singleton directives next ih =>
    rw [lastWriter_concat] at last
    rw [changeAll_concat]
    split_ifs at last with writes
    · obtain rfl : next = spec := Option.some.inj last
      exact get_change_of_restorers range restores _
    · have right := ih last
      rw [get_change_of_not_writers range writes, right]
      rintro rfl
      have wday := range.wday.1
      exact wday.trans_eq right.symm

theorem lastWriter_of_determined (determined : field.determinedBy directives) :
    ∃ spec, lastWriter field directives = some spec := by
  obtain ⟨spec, listed, writes⟩ : ∃ spec, spec ∈ directives /\
      spec ∈ field.writers := by
    cases field <;> simp only [Field.determinedBy, Bool.or_eq_true, Bool.and_eq_true,
      contains_iff_mem, any_eq_true] at determined
    case sec => exact ⟨_, determined, by decide⟩
    case min => exact ⟨_, determined, by decide⟩
    case hour =>
      rcases determined with whole | ⟨_, half⟩
      · exact ⟨_, whole, by decide⟩
      · exact ⟨_, half, by decide⟩
    case mday =>
      rcases determined with day | day <;> exact ⟨_, day, by decide⟩
    case mon => exact determined
    case year =>
      rcases determined with whole | ⟨_, short⟩
      · exact ⟨_, whole, by decide⟩
      · exact ⟨_, short, by decide⟩
    case wday =>
      have all : ∀ spec ∈ [Directive.a, .A, .u, .w], spec ∈ Field.writers .wday := by
        decide
      obtain ⟨spec, listed, writes⟩ := determined
      exact ⟨spec, listed, all spec writes⟩
    case yday => exact ⟨_, determined, by decide⟩
  cases last : lastWriter field directives with
  | some spec => exact ⟨spec, rfl⟩
  | none =>
    have nobody := List.getLast?_eq_none_iff.mp last
    have found : spec ∈ directives.filter field.writers.contains :=
      mem_filter.mpr ⟨listed, contains_iff_mem.mpr writes⟩
    rw [nobody] at found
    exact absurd found not_mem_nil

/-! ## The conversions that do not restore a field -/

/-- Values that the conversions keep to. -/
structure Tame (fields : DateTime) : Prop where
  hour : 0 <= fields.tmHour
  wday : 0 <= fields.tmWday /\ fields.tmWday <= 6

theorem Tame.change (range : tm.InRange) (tame : Tame fields)
    (spec : Directive) : Tame (spec.change tm fields) := by
  have hour := range.hour
  have wday := range.wday
  have day := firstDay_cases (fields.tmYear + 1900)
  obtain ⟨tameHour, tameWday⟩ := id tame
  cases spec
  case H =>
    rw [change_eq_storeNumber range rfl (by decide)]
    exact ⟨hour.1, tameWday⟩
  case I =>
    have half : tm.tmHour.tmod 12 = tm.tmHour % 12 := Int.tmod_eq_emod_of_nonneg hour.1
    rw [change_eq_storeNumber range rfl (by decide)]
    refine ⟨?_, tameWday⟩
    simp only [storeNumber, Numeral.two]
    split_ifs <;> omega
  case p =>
    have change : Directive.change tm .p fields = storeHalf (if tm.tmHour < 12 then 0 else 1) fields :=
      rfl
    rw [change, storeHalf]
    generalize (if tm.tmHour < 12 then 0 else 1 : Int) = ret
    split_ifs
    · exact ⟨(by decide : (0 : Int) <= 12), tameWday⟩
    · exact tame
    · exact ⟨Int.add_nonneg tameHour (by decide), tameWday⟩
  case a => exact ⟨tameHour, wday⟩
  case A => exact ⟨tameHour, wday⟩
  case w =>
    rw [change_eq_storeNumber range rfl (by decide)]
    exact ⟨tameHour, wday⟩
  case u =>
    rw [change_eq_storeNumber range rfl (by decide)]
    refine ⟨tameHour, ?_⟩
    simp only [storeNumber, Numeral.one]
    split_ifs <;> omega
  case U =>
    rw [change_eq_storeNumber range rfl (by decide)]
    simp only [storeNumber, setWeekNumberSun]
    split_ifs
    · exact ⟨tameHour, by dsimp only; omega⟩
    · exact ⟨tameHour, tameWday⟩
  case V =>
    rw [change_eq_storeNumber range rfl (by decide)]
    simp only [storeNumber, setWeekNumberMon4]
    split_ifs
    · exact ⟨tameHour, by dsimp only; omega⟩
    · exact ⟨tameHour, tameWday⟩
    · exact ⟨tameHour, by dsimp only; omega⟩
    · exact ⟨tameHour, tameWday⟩
  case W =>
    rw [change_eq_storeNumber range rfl (by decide)]
    simp only [storeNumber, setWeekNumberMon]
    split_ifs
    · refine ⟨tameHour, ?_⟩
      dsimp only
      rcases day with ⟨-, zero⟩ | ⟨-, three⟩
      · rw [zero]
        decide
      · rw [three]
        decide
    · exact ⟨tameHour, tameWday⟩
  case C | d | e | j | m | M | S | y | Y =>
    rw [Directive.change_of_written rfl]
    exact ⟨tameHour, tameWday⟩
  all_goals exact ⟨tameHour, tameWday⟩

theorem Tame.changeAll (range : tm.InRange) (tame : Tame fields)
    (directives : List Directive) : Tame (changeAll tm directives fields) := by
  induction directives generalizing fields with
  | nil => exact tame
  | cons spec directives ih => exact ih (tame.change range spec)

end Changes

def january (year : Int) (day hour : Nat) (days : 1 <= day /\ day <= 31) (hours : hour < 24) :
    Civil where
  year := year
  month := 1
  day := day
  hour := hour
  minute := 0
  second := 0
  month_pos := Nat.le_refl 1
  month_le := by decide
  day_pos := by omega
  day_le := by
    have length : monthLength (isLeap year) 1 = 31 := rfl
    omega
  hour_nonneg := by omega
  hour_lt := by omega
  minute_nonneg := Int.le_refl 0
  minute_lt := zero_lt_sixty
  second_nonneg := Int.le_refl 0
  second_lt := zero_lt_sixty

/-- One o'clock in the night of a Sunday that is the second day of its month. -/
def nightOfSunday : DateTime := .ofCivil (january 2000 2 1 (by decide) (by decide))

def afternoonOfSunday : DateTime := .ofCivil (january 2000 2 13 (by decide) (by decide))

def inAHundredYears : DateTime := .ofCivil (january 2100 2 1 (by decide) (by decide))

def secondSunday : DateTime := .ofCivil (january 2006 8 0 (by decide) (by decide))

def secondMonday : DateTime := .ofCivil (january 2007 8 0 (by decide) (by decide))

def earlyWednesday : DateTime := .ofCivil (january 1969 1 0 (by decide) (by decide))

/-- The first day of a year of which `%y` leaves the year 1970, a Wednesday. -/
def lateWednesday : DateTime := .ofCivil (january 2070 1 0 (by decide) (by decide))

/-- What the structure holds before in the cases that go wrong. -/
def zeros : DateTime := ⟨0, 0, 0, 0, 0, 0, 0, 0⟩

theorem zeros_tame : Tame zeros := ⟨by decide, by decide⟩

theorem january_valid {year : Int} (early : 1900 <= year) (late : year <= lastYear) {day hour : Nat}
    (days : 1 <= day /\ day <= 31) (hours : hour < 24) :
    (DateTime.ofCivil (january year day hour days hours)).Valid :=
  ⟨_, rfl, early, late⟩

theorem nightOfSunday_valid : nightOfSunday.Valid := january_valid (by decide) (by decide) _ _

theorem afternoonOfSunday_valid : afternoonOfSunday.Valid :=
  january_valid (by decide) (by decide) _ _

theorem inAHundredYears_valid : inAHundredYears.Valid := january_valid (by decide) (by decide) _ _

theorem secondSunday_valid : secondSunday.Valid := january_valid (by decide) (by decide) _ _

theorem secondMonday_valid : secondMonday.Valid := january_valid (by decide) (by decide) _ _

theorem earlyWednesday_valid : earlyWednesday.Valid := january_valid (by decide) (by decide) _ _

theorem lateWednesday_valid : lateWednesday.Valid := january_valid (by decide) (by decide) _ _

variable {fields : DateTime}

/-- `%p` takes the night for the afternoon. -/
theorem half_spoils (tame : Tame fields) :
    (Directive.change nightOfSunday .p fields).tmHour ≠ nightOfSunday.tmHour := by
  have change : Directive.change nightOfSunday .p fields = storeHalf 0 fields := rfl
  have hour : nightOfSunday.tmHour = 1 := rfl
  have nonneg := tame.hour
  rw [change, hour, storeHalf]
  by_cases zero : fields.tmHour = 0
  · rw [if_pos zero, if_neg (by decide), zero]
    decide
  · rw [if_neg zero]
    dsimp only
    omega

/-- `%C` writes the century since 1900. -/
theorem century_spoils {tm : DateTime} {centuries : Int}
    (century : tm.tmYear.tdiv 100 = centuries) (nonneg : 0 <= centuries) (lt : centuries < 100)
    (fields : DateTime) :
    (Directive.change tm .C fields).tmYear = signed 32 (centuries * 100 - 1900) := by
  have writes : Directive.written tm .C = some (.two centuries) := by
    rw [<- century]
    rfl
  rw [Directive.change_of_written writes, Numeral.numeral_two nonneg lt]
  rfl

theorem sundays_spoil (tame : Tame fields) :
    (Directive.change secondSunday .U fields).tmYday ≠ secondSunday.tmYday := by
  have writes : Directive.written secondSunday .U = some (.two 2) := rfl
  have change : Directive.change secondSunday .U fields = setWeekNumberSun 2 fields :=
    change_eq_storeNumber secondSunday_valid.inRange writes (by decide) fields
  have yday : secondSunday.tmYday = 7 := rfl
  have wday := tame.wday
  have day := firstDay_cases (fields.tmYear + 1900)
  rw [change, yday, setWeekNumberSun]
  rw [if_neg (by omega)]
  dsimp only
  omega

theorem mondays_spoil (tame : Tame fields) :
    (Directive.change secondMonday .W fields).tmYday ≠ secondMonday.tmYday := by
  have writes : Directive.written secondMonday .W = some (.two 2) := rfl
  have change : Directive.change secondMonday .W fields = setWeekNumberMon 2 fields :=
    change_eq_storeNumber secondMonday_valid.inRange writes (by decide) fields
  have yday : secondMonday.tmYday = 7 := rfl
  have wday := tame.wday
  have day := firstDay_cases (fields.tmYear + 1900)
  have fromMonday : (fields.tmWday + 6).tmod 7 = (fields.tmWday + 6) % 7 :=
    Int.tmod_eq_emod_of_nonneg (by omega)
  rw [change, yday, setWeekNumberMon]
  rw [if_neg (by omega)]
  dsimp only
  omega

theorem isoWeeks_spoil (tame : Tame fields) :
    (Directive.change secondMonday .V fields).tmYday ≠ secondMonday.tmYday := by
  have writes : Directive.written secondMonday .V = some (.two 2) := rfl
  have change : Directive.change secondMonday .V fields = setWeekNumberMon4 2 fields :=
    change_eq_storeNumber secondMonday_valid.inRange writes (by decide) fields
  have yday : secondMonday.tmYday = 7 := rfl
  have wday := tame.wday
  have day := firstDay_cases (fields.tmYear + 1900)
  rw [change, yday, setWeekNumberMon4]
  have small : (firstDay (fields.tmYear + 1900) + 6).tmod 7 < 4 := by omega
  rw [if_pos small, if_neg (by omega)]
  dsimp only
  omega

section

variable {tm fields : DateTime} (range : tm.InRange) (wday : tm.tmWday = 3) (yday : tm.tmYday = 0)
  (early : fields.tmYear <= 70)
include range wday yday early

/-- Before 1971, `%U` turns a Wednesday of the first days into a Thursday. -/
theorem sundays_spoil_weekday : (Directive.change tm .U fields).tmWday ≠ tm.tmWday := by
  have week : (tm.tmYday + 7 - tm.tmWday).tdiv 7 = 0 := by
    rw [wday, yday]
    rfl
  have writes : Directive.written tm .U = some (.two 0) := by
    rw [<- week]
    rfl
  have change : Directive.change tm .U fields = setWeekNumberSun 0 fields :=
    change_eq_storeNumber range writes (by decide) fields
  have day : firstDay (fields.tmYear + 1900) = 4 := by rw [firstDay_eq, if_neg (by omega)]
  rw [change, wday, setWeekNumberSun, day]
  split_ifs
  · exact (by decide : (4 : Int) ≠ 3)
  · dsimp only
    omega

theorem mondays_spoil_weekday : (Directive.change tm .W fields).tmWday ≠ tm.tmWday := by
  have week : (tm.tmYday + 7 - (tm.tmWday + 6).tmod 7).tdiv 7 = 0 := by
    rw [wday, yday]
    rfl
  have writes : Directive.written tm .W = some (.two 0) := by
    rw [<- week]
    rfl
  have change : Directive.change tm .W fields = setWeekNumberMon 0 fields :=
    change_eq_storeNumber range writes (by decide) fields
  have day : firstDay (fields.tmYear + 1900) = 4 := by rw [firstDay_eq, if_neg (by omega)]
  have fday : ((4 : Int) + 6).tmod 7 = 3 := rfl
  rw [change, wday, setWeekNumberMon, day, fday]
  split_ifs with negative
  · exact (by decide : ((3 : Int) + 1).tmod 7 ≠ 3)
  · dsimp only
    rintro same
    rw [same] at negative
    exact negative (by decide)

end

variable {directives : List Directive}

theorem year_le_seventy (notWhole : lastWriter .year directives ≠ some .Y) :
    (changeAll lateWednesday directives zeros).tmYear <= 70 := by
  have range := lateWednesday_valid.inRange
  induction directives using List.reverseRecOn with
  | nil => decide
  | append_singleton directives next ih =>
    rw [lastWriter_concat] at notWhole
    rw [changeAll_concat]
    split_ifs at notWhole with writes
    · simp only [Field.writers, mem_cons, not_mem_nil, or_false] at writes
      rcases writes with rfl | rfl | rfl
      · have year := century_spoils (rfl : lateWednesday.tmYear.tdiv 100 = 1) (by decide)
          (by decide) (changeAll lateWednesday directives zeros)
        exact year.trans_le (by decide)
      · rw [change_eq_storeNumber range rfl (by decide)]
        exact (by decide : (70 : Int) <= 70)
      · exact absurd rfl notWhole
    · have kept : Field.get .year (next.change lateWednesday
          (changeAll lateWednesday directives zeros)) = _ := get_change_of_not_writers range writes
        (fun wday => nomatch wday)
      exact kept.trans_le (ih notWhole)

theorem spoils {field : Field} {spec : Directive} (writes : spec ∈ field.writers)
    (spoiling : spec ∉ field.restorers) (before : List Directive) :
    ∃ tm : DateTime, tm.Valid /\
      field.get (spec.change tm (changeAll tm before zeros)) ≠ field.get tm := by
  have tame := fun {tm : DateTime} (valid : tm.Valid) =>
    zeros_tame.changeAll valid.inRange before
  have sunday := nightOfSunday_valid
  have early := earlyWednesday_valid
  have late := lateWednesday_valid
  cases field <;> simp only [Field.writers, Field.restorers, mem_cons, not_mem_nil,
    or_false] at writes spoiling
  case sec | min | mon => exact absurd writes spoiling
  case hour =>
    rcases writes with rfl | rfl | rfl
    · exact absurd rfl spoiling
    · refine ⟨afternoonOfSunday, afternoonOfSunday_valid, ?_⟩
      rw [change_eq_storeNumber afternoonOfSunday_valid.inRange rfl (by decide)]
      exact (by decide : (1 : Int) ≠ 13)
    · exact ⟨nightOfSunday, sunday, half_spoils (tame sunday)⟩
  case mday =>
    rcases writes with rfl | rfl
    · exact absurd rfl spoiling
    · refine ⟨nightOfSunday, sunday, ?_⟩
      rw [change_eq_storeNumber sunday.inRange rfl (by decide)]
      exact (by decide : (1 : Int) ≠ 2)
  case year =>
    rcases writes with rfl | rfl | rfl
    · refine ⟨nightOfSunday, sunday, ?_⟩
      have year := century_spoils (rfl : nightOfSunday.tmYear.tdiv 100 = 1) (by decide)
        (by decide)
        (changeAll nightOfSunday before zeros)
      exact year.trans_ne (by decide)
    · refine ⟨inAHundredYears, inAHundredYears_valid, ?_⟩
      rw [change_eq_storeNumber inAHundredYears_valid.inRange rfl (by decide)]
      exact (by decide : (100 : Int) ≠ 200)
    · exact absurd rfl spoiling
  case wday =>
    rcases writes with rfl | rfl | rfl | rfl | rfl | rfl
    · exact absurd (Or.inl rfl) spoiling
    · exact absurd (Or.inr (Or.inl rfl)) spoiling
    · refine ⟨nightOfSunday, sunday, ?_⟩
      rw [change_eq_storeNumber sunday.inRange rfl (by decide)]
      exact (by decide : (6 : Int) ≠ 0)
    · exact absurd (Or.inr (Or.inr rfl)) spoiling
    · by_cases whole : lastWriter .year before = some .Y
      · have year := get_changeAll_of_restores early.inRange whole (by decide) zeros
        exact ⟨earlyWednesday, early,
          sundays_spoil_weekday early.inRange rfl rfl (year.trans_le (by decide))⟩
      · exact ⟨lateWednesday, late,
          sundays_spoil_weekday late.inRange rfl rfl (year_le_seventy whole)⟩
    · by_cases whole : lastWriter .year before = some .Y
      · have year := get_changeAll_of_restores early.inRange whole (by decide) zeros
        exact ⟨earlyWednesday, early,
          mondays_spoil_weekday early.inRange rfl rfl (year.trans_le (by decide))⟩
      · exact ⟨lateWednesday, late,
          mondays_spoil_weekday late.inRange rfl rfl (year_le_seventy whole)⟩
  case yday =>
    rcases writes with rfl | rfl | rfl | rfl
    · exact absurd rfl spoiling
    · exact ⟨secondSunday, secondSunday_valid, sundays_spoil (tame secondSunday_valid)⟩
    · exact ⟨secondMonday, secondMonday_valid, isoWeeks_spoil (tame secondMonday_valid)⟩
    · exact ⟨secondMonday, secondMonday_valid, mondays_spoil (tame secondMonday_valid)⟩

/-! ## Formats -/

/-- Where the last conversion that may change a field does not restore it, the field
comes out wrong for some date. -/
theorem changeAll_spoiled {field : Field} {spec : Directive}
    (last : lastWriter field directives = some spec) (spoiling : spec ∉ field.restorers) :
    ∃ tm : DateTime, tm.Valid /\ field.get (changeAll tm directives zeros) ≠ field.get tm := by
  obtain ⟨before, after, split, writes, silent⟩ : ∃ before after,
      directives = before ++ spec :: after /\ spec ∈ field.writers /\
        ∀ other ∈ after, other ∉ field.writers := by
    induction directives using List.reverseRecOn with
    | nil => cases last
    | append_singleton directives next ih =>
      rw [lastWriter_concat] at last
      split_ifs at last with writes
      · obtain rfl : next = spec := Option.some.inj last
        exact ⟨directives, [], rfl, writes, forall_mem_nil _⟩
      · obtain ⟨before, after, rfl, writes', silent⟩ := ih last
        refine ⟨before, after ++ [next], by simp, writes', ?_⟩
        intro other mem
        rcases mem_append.mp mem with earlier | same
        · exact silent other earlier
        · rw [mem_singleton.mp same]
          exact writes
  obtain ⟨tm, valid, wrong⟩ := spoils writes spoiling before
  refine ⟨tm, valid, ?_⟩
  have tame := (zeros_tame.changeAll valid.inRange before).change valid.inRange spec
  have whole : changeAll tm directives zeros =
      changeAll tm after (spec.change tm (changeAll tm before zeros)) := by
    rw [split]
    exact foldl_append ..
  have kept : field.get (changeAll tm after (spec.change tm (changeAll tm before zeros))) =
      field.get (spec.change tm (changeAll tm before zeros)) := by
    generalize spec.change tm (changeAll tm before zeros) = fields at tame
    clear split whole wrong
    induction after generalizing fields with
    | nil => rfl
    | cons next after ih =>
      obtain ⟨here, later⟩ := forall_mem_cons.mp silent
      have step := get_change_of_not_writers valid.inRange here (fun _ => tame.wday.1)
      exact (ih later (next.change tm fields) (tame.change valid.inRange next)).trans step
  rw [whole, kept]
  exact wrong

theorem withWeekday_of_valid {tm : DateTime} (valid : tm.Valid) : withWeekday tm = tm := by
  have wday := valid.inRange.wday
  exact if_neg (by omega)

theorem roundTrips_iff {locale : Option Int} {format : List UInt8} {tm : DateTime}
    (separated : Separated Directive.shared (tokens format)) (valid : tm.Valid)
    {fields : DateTime} :
    RoundTrips locale format tm fields <-> readable false (tokens format) /\
      ∀ field : Field, field.determinedBy (leaves format) ->
        field.get (changeAll tm (leaves format) fields) = field.get tm := by
  have noNul := formatDate_noNul locale tm 3 format separated.noNul
  have read := strptime_formatDate valid.inRange locale separated fields
  have same := withWeekday_of_valid valid
  rw [<- same] at noNul
  constructor
  · intro always
    obtain ⟨text, after, written, parsed, restored⟩ := always _ (Nat.lt_succ_self _)
    rw [strftime_of_room locale noNul (Nat.lt_succ_self _), same] at written
    obtain rfl : formatDate locale tm 3 format = text := Option.some.inj (Prod.mk.inj written).2
    rw [read] at parsed
    split_ifs at parsed with readable
    obtain rfl : changeAll tm (leaves format) fields = after :=
      (Prod.mk.inj (Option.some.inj parsed)).2
    exact ⟨readable, restored⟩
  · rintro ⟨readable, restored⟩ maxsize room
    refine ⟨formatDate locale tm 3 format, changeAll tm (leaves format) fields, ?_, ?_, restored⟩
    · rw [strftime_of_room locale noNul room, same]
    · rw [read, if_pos readable]

instance (format : List UInt8) : Decidable (Faithful format) :=
  decidable_of_iff
    (readable false (tokens format) /\
      ∀ field ∈ [Field.sec, .min, .hour, .mday, .mon, .year, .wday, .yday],
        field.determinedBy (leaves format) ->
          ∀ spec ∈ lastWriter field (leaves format), spec ∈ field.restorers)
    ⟨fun both => ⟨both.1, fun field => both.2 field (by cases field <;> decide)⟩,
      fun faithful => ⟨faithful.readable, fun field _ => faithful.restores field⟩⟩

end Clib4.Time
