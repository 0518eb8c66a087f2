import Clib4.Time.FormatReading

namespace Clib4.Time

open Foundation Foundation.Calendar List
open Stdlib (byteOf leadingDigits)

/-!
# The conversions of `strftime` and of `strptime`

For a date and time of the calendar, every conversion that both functions know
agrees in the sense of `Agrees`; `Directive.change` says what `strptime` then does
to the fields.  A conversion that stands for a format does what the conversions of
that format do one after the other.
-/

/-! ## Dates and times -/

/-- The last year up to which the days that `%V` counts stay within an `int`. -/
def lastYear : Int := 5874600

def DateTime.Valid (tm : DateTime) : Prop :=
  ∃ civil : Civil, tm = DateTime.ofCivil civil /\ 1900 <= civil.year /\ civil.year <= lastYear

/-- What the conversions need to know of the fields. -/
structure DateTime.InRange (tm : DateTime) : Prop where
  sec : 0 <= tm.tmSec /\ tm.tmSec < 60
  min : 0 <= tm.tmMin /\ tm.tmMin < 60
  hour : 0 <= tm.tmHour /\ tm.tmHour < 24
  mday : 1 <= tm.tmMday /\ tm.tmMday <= 31
  mon : 0 <= tm.tmMon /\ tm.tmMon <= 11
  year : 0 <= tm.tmYear /\ tm.tmYear + 1900 <= lastYear
  wday : 0 <= tm.tmWday /\ tm.tmWday <= 6
  yday : 0 <= tm.tmYday /\ tm.tmYday <= 365
  date : calculateDaysPerDate (tm.tmYear + 1900) (tm.tmMon + 1) tm.tmMday -
    calculateDaysPerDate (tm.tmYear + 1900) 1 1 = tm.tmYday

variable {tm : DateTime}

theorem DateTime.Valid.inRange (valid : tm.Valid) : tm.InRange := by
  obtain ⟨civil, rfl, early, late⟩ := valid
  have monthPos := civil.month_pos
  have monthLe := civil.month_le
  have dayLe := civil.day_le.trans (monthLength_le (isLeap civil.year) civil.month)
  have yearLength : yearLength civil.year <= 366 := by
    unfold Calendar.yearLength
    split_ifs <;> decide
  have dayOfYear := civil.dayOfYear_lt
  have date : calculateDaysPerDate (civil.year - 1900 + 1900) (civil.month - 1 + 1) civil.day -
      calculateDaysPerDate (civil.year - 1900 + 1900) 1 1 = civil.dayOfYear := by
    have whole : civil.year - 1900 + 1900 = civil.year := by omega
    have month : (civil.month : Int) - 1 + 1 = civil.month := by omega
    have first : calculateDaysPerDate civil.year ((1 : Nat) : Int) 1 = _ :=
      calculateDaysPerDate_eq 1 (by omega) (le_refl 1) (by decide)
    rw [Nat.cast_one] at first
    rw [whole, month, calculateDaysPerDate_eq civil.day (by omega) monthPos monthLe, first]
    unfold dayNumber Civil.dayOfYear
    have january : daysBeforeMonth (isLeap civil.year) 1 = 0 := rfl
    omega
  constructor
  all_goals dsimp only [DateTime.ofCivil]
  · exact ⟨civil.second_nonneg, civil.second_lt⟩
  · exact ⟨civil.minute_nonneg, civil.minute_lt⟩
  · exact ⟨civil.hour_nonneg, civil.hour_lt⟩
  · exact ⟨civil.day_pos, dayLe⟩
  · omega
  · omega
  · unfold Civil.weekday
    omega
  · exact ⟨civil.dayOfYear_nonneg, by omega⟩
  · exact date

theorem DateTime.InRange.julianDay_fits (range : tm.InRange) :
    0 <= julianDay tm.tmMday (tm.tmMon + 1) (tm.tmYear + 1900) /\
      julianDay tm.tmMday (tm.tmMon + 1) (tm.tmYear + 1900) + 31741 < 2 ^ 31 := by
  obtain ⟨-, -, -, mday, mon, year, -, -, -⟩ := range
  unfold lastYear at year
  unfold julianDay
  have a : (14 - (tm.tmMon + 1)).tdiv 12 = if tm.tmMon <= 1 then 1 else 0 := by
    rw [Int.tdiv_eq_ediv_of_nonneg (by omega)]
    split_ifs <;> omega
  dsimp only
  rw [a]
  split_ifs with early
  all_goals
    rw [Int.tdiv_eq_ediv_of_nonneg (by omega), Int.tdiv_eq_ediv_of_nonneg (by omega),
      Int.tdiv_eq_ediv_of_nonneg (by omega), Int.tdiv_eq_ediv_of_nonneg (by omega)]
    omega

theorem DateTime.InRange.week (range : tm.InRange) :
    let week := (iso8601CalendarWeekAndYear tm.tmMday (tm.tmMon + 1) (tm.tmYear + 1900)).1
    1 <= week /\ week <= 53 := by
  have day := range.julianDay_fits.1
  unfold iso8601CalendarWeekAndYear
  dsimp only
  generalize julianDay tm.tmMday (tm.tmMon + 1) (tm.tmYear + 1900) = J at day ⊢
  have weekday : J.tmod 7 = J % 7 := Int.tmod_eq_emod_of_nonneg day
  have days : 0 <= J + 31741 - J.tmod 7 := by omega
  have d4 : (((J + 31741 - J.tmod 7).tmod 146097).tmod 36524).tmod 1461 =
      (J + 31741 - J.tmod 7) % 146097 % 36524 % 1461 := by
    have cycles : 0 <= (J + 31741 - J.tmod 7) % 146097 := by omega
    have centuries : 0 <= (J + 31741 - J.tmod 7) % 146097 % 36524 := by omega
    rw [Int.tmod_eq_emod_of_nonneg days, Int.tmod_eq_emod_of_nonneg cycles,
      Int.tmod_eq_emod_of_nonneg centuries]
  rw [d4]
  generalize (J + 31741 - J.tmod 7) % 146097 % 36524 = rest
  have L : (rest % 1461).tdiv 1460 = rest % 1461 / 1460 :=
    Int.tdiv_eq_ediv_of_nonneg (by omega)
  have d1 : (rest % 1461 - rest % 1461 / 1460).tmod 365 =
      (rest % 1461 - rest % 1461 / 1460) % 365 := Int.tmod_eq_emod_of_nonneg (by omega)
  rw [L, Int.tdiv_eq_ediv_of_nonneg (by omega)]
  omega

/-! ## The conversions that are not expanded -/

def Directive.shared : Directive -> Bool
  | .F | .g | .G | .k | .l | .z | .Z => false
  | _ => true

/-- The conversions that stand for a format in `strptime`. -/
def Directive.isFormat : Directive -> Bool
  | .c | .D | .r | .R | .T | .x | .X => true
  | _ => false

/-- What `strftime` writes for a conversion. -/
def Directive.text (locale : Option Int) (tm : DateTime) (spec : Directive) : List UInt8 :=
  formatDirective (formatDate locale tm 2) locale tm spec

theorem Directive.written_fits (range : tm.InRange) {spec : Directive}
    {written : Numeral} (writes : spec.written tm = some written) :
    written.digits ≠ [] /\ numeral written.digits < 2 ^ 31 := by
  have two : ∀ number, (Numeral.two number).digits ≠ [] /\
      numeral (Numeral.two number).digits < 2 ^ 31 := fun number =>
    ⟨Numeral.digits_two_ne_nil number, (Numeral.numeral_two_lt number).trans (by decide)⟩
  have one : ∀ number, (Numeral.one number).digits ≠ [] /\
      numeral (Numeral.one number).digits < 2 ^ 31 := fun number =>
    ⟨Numeral.digits_one_ne_nil number, (Numeral.numeral_one_lt number).trans (by decide)⟩
  have year := range.year
  have yday := range.yday
  have date := range.date
  unfold lastYear at year
  cases spec <;> simp only [Directive.written, Option.some.injEq, reduceCtorEq] at writes
  case j =>
    subst writes
    refine ⟨decimalDigits_ne_nil _ _, ?_⟩
    have value := Numeral.numeral_all (1 + calculateDaysPerDate (tm.tmYear + 1900)
      (tm.tmMon + 1) tm.tmMday - calculateDaysPerDate (tm.tmYear + 1900) 1 1) 3 (by omega) (by omega)
    omega
  case Y =>
    subst writes
    refine ⟨decimalDigits_ne_nil _ _, ?_⟩
    have value := Numeral.numeral_all (1900 + tm.tmYear) 0 (by omega) (by omega)
    omega
  all_goals
    subst writes
    first | exact two _ | exact one _

section Texts

variable (locale : Option Int) (tm : DateTime)

variable (depth : Nat)

theorem formatDate_succ (format : List UInt8) : formatDate locale tm (depth + 1) format =
      (tokens format).flatMap (Token.text (formatDirective (formatDate locale tm depth) locale tm)) := by
  apply flatMap_congr
  intro token _
  cases token <;> rfl

theorem Directive.text_of_leaf (expand : List UInt8 -> List UInt8) {spec : Directive}
    (leaf : spec.expansion = none) :
    formatDirective expand locale tm spec = spec.text locale tm := by
  apply formatDirective_congr
  rw [leaf]
  exact fun _ none => nomatch none

theorem formatDate_of_leaves {format : List UInt8}
    (leaves : ∀ spec ∈ directives (tokens format), spec.expansion = none) :
    formatDate locale tm (depth + 1) format =
      (tokens format).flatMap (Token.text (Directive.text locale tm)) := by
  rw [formatDate_succ]
  apply flatMap_congr
  intro token mem
  cases token with
  | literal c => rw [Token.text_literal, Token.text_literal]
  | bare => rw [Token.text_bare, Token.text_bare]
  | conversion c =>
    cases found : Directive.ofByte c with
    | none => simp only [Token.text, found]
    | some spec =>
      have listed : spec ∈ directives (tokens format) :=
        mem_filterMap.mpr ⟨_, mem, found⟩
      rw [Token.text_conversion _ found, Token.text_conversion _ found]
      exact spec.text_of_leaf locale tm _ (leaves spec listed)

theorem Directive.text_of_expansion {spec : Directive} {format : List UInt8}
    (expands : spec.expansion = some format) :
    spec.text locale tm = formatDate locale tm 2 format := by
  cases spec <;> cases expands <;> rfl

/-- The format that a conversion stands for in `strptime`. -/
def Directive.pattern : Directive -> List UInt8
  | .c => bytesOf "%a %b %e %H:%M:%S %Y"
  | .D => bytesOf "%m/%d/%y"
  | .r => bytesOf "%I:%M:%S %p"
  | .R => bytesOf "%H:%M"
  | .T | .X => bytesOf "%H:%M:%S"
  | .x => bytesOf "%Y:%m:%d"
  | _ => []

theorem formats_known : (∀ format ∈ ["%b", "%H:%M:%S", "%m/%d/%y", "%I:%M:%S %p", "%H:%M"],
      ∀ spec ∈ directives (tokens (bytesOf format)), spec.expansion = none) /\
    tokens (bytesOf "%b") = [.conversion (Directive.byte .b)] /\
    tokens (bytesOf "%T") = [.conversion (Directive.byte .T)] /\
    tokens (bytesOf "%a %b %e %T %Y") =
      [.conversion (Directive.byte .a), .literal (byteOf ' '), .conversion (Directive.byte .b),
        .literal (byteOf ' '), .conversion (Directive.byte .e), .literal (byteOf ' '),
        .conversion (Directive.byte .T), .literal (byteOf ' '),
        .conversion (Directive.byte .Y)] /\
    tokens (Directive.pattern .c) =
      [.conversion (Directive.byte .a), .literal (byteOf ' '), .conversion (Directive.byte .b),
        .literal (byteOf ' '), .conversion (Directive.byte .e), .literal (byteOf ' ')] ++
      tokens (bytesOf "%H:%M:%S") ++
      [.literal (byteOf ' '), .conversion (Directive.byte .Y)] /\
    tokens (Directive.pattern .x) = [.conversion (Directive.byte .Y),
      .literal (byteOf ':'), .conversion (Directive.byte .m), .literal (byteOf ':'),
      .conversion (Directive.byte .d)] /\
    tokens (bytesOf "%m/%d/%y") = .conversion (Directive.byte .m) ::
      .literal (byteOf '/') :: tokens (bytesOf "%d/%y") := by
  decide +kernel

theorem formatDate_of_known (format : String)
    (known : format ∈ ["%b", "%H:%M:%S", "%m/%d/%y", "%I:%M:%S %p", "%H:%M"]) :
    formatDate locale tm (depth + 1) (bytesOf format) =
      (tokens (bytesOf format)).flatMap (Token.text (Directive.text locale tm)) :=
  formatDate_of_leaves locale tm depth (formats_known.1 format known)

theorem Directive.text_h : Directive.text locale tm .h = Directive.text locale tm .b := by
  have pieces := formats_known.2.1
  have text : Directive.text locale tm .h = formatDate locale tm 2 (bytesOf "%b") :=
    Directive.text_of_expansion locale tm rfl
  rw [text, formatDate_of_known locale tm 1 "%b" (by simp), pieces]
  simp [Token.text]

theorem formatDirective_clock : formatDirective (formatDate locale tm 1) locale tm .T =
    (tokens (bytesOf "%H:%M:%S")).flatMap (Token.text (Directive.text locale tm)) :=
  formatDate_of_known locale tm 0 "%H:%M:%S" (by simp)

theorem Directive.text_c : Directive.text locale tm .c =
    (tokens (Directive.pattern .c)).flatMap (Token.text (Directive.text locale tm)) := by
  have text : Directive.text locale tm .c = formatDate locale tm 2 (bytesOf "%a %b %e %T %Y") :=
    Directive.text_of_expansion locale tm rfl
  obtain ⟨-, -, -, pieces, pieces', -⟩ := formats_known
  rw [text, formatDate_succ, pieces, pieces', flatMap_append, flatMap_append,
    <- formatDirective_clock]
  have leaf := fun (spec : Directive) (isLeaf : spec.expansion = none) =>
    spec.text_of_leaf locale tm (formatDate locale tm 1) isLeaf
  simp only [flatMap_cons, flatMap_nil, Token.text, Directive.ofByte_byte,
    append_nil, append_assoc, leaf .a rfl, leaf .b rfl, leaf .e rfl, leaf .Y rfl]

/-- A conversion that stands for a format is written as `strptime` expects it, but
for `%x`. -/
theorem Directive.text_of_pattern {spec : Directive} (isFormat : spec.isFormat)
    (notDate : spec ≠ .x) :
    spec.text locale tm =
      (tokens spec.pattern).flatMap (Token.text (Directive.text locale tm)) := by
  cases spec <;> first | exact absurd rfl notDate | cases isFormat
  case c => exact Directive.text_c locale tm
  case D =>
    exact formatDate_of_known locale tm 1 "%m/%d/%y" (by simp)
  case r =>
    exact formatDate_of_known locale tm 1 "%I:%M:%S %p" (by simp)
  case R =>
    exact formatDate_of_known locale tm 1 "%H:%M" (by simp)
  case T =>
    exact formatDate_of_known locale tm 1 "%H:%M:%S" (by simp)
  case X =>
    have text : Directive.text locale tm .X = formatDate locale tm 2 (bytesOf "%T") :=
      Directive.text_of_expansion locale tm rfl
    have pieces := formats_known.2.2.1
    rw [text, formatDate_succ, pieces, flatMap_singleton]
    exact formatDirective_clock locale tm

end Texts

section Leaves

variable {expand : List UInt8 -> List UInt8 -> DateTime -> Option (List UInt8 × DateTime)}
  {tm : DateTime}

variable {spec : Directive} {written : Numeral}

theorem Directive.text_of_written (locale : Option Int)
    (writes : spec.written tm = some written) (noBlank : spec ≠ .e) :
    spec.text locale tm = written.text := by
  cases spec <;> first | exact absurd rfl noBlank | cases writes
  all_goals rfl

theorem parseDirective_of_written
    (expand : List UInt8 -> List UInt8 -> DateTime -> Option (List UInt8 × DateTime))
    (writes : spec.written tm = some written) :
    parseDirective expand spec = readNumber (storeNumber spec) := by
  cases spec <;> first | rfl | cases writes

theorem Directive.change_of_written (writes : spec.written tm = some written) :
    spec.change tm = storeNumber spec (Time.numeral written.digits) := by
  funext fields
  cases spec <;> cases writes <;> rfl

theorem Directive.plain_of_written (writes : spec.written tm = some written) :
    spec.isCharacter = false /\ ∀ skipped, spec.accepts skipped := by
  cases spec <;> first | exact ⟨rfl, fun _ => rfl⟩ | cases writes

theorem agrees_written (range : tm.InRange) {locale : Option Int}
    (writes : spec.written tm = some written) (noBlank : spec ≠ .e) :
    Agrees expand (spec.text locale tm) (spec.change tm) spec := by
  obtain ⟨some_digit, fits⟩ := spec.written_fits range writes
  obtain ⟨noCharacter, plain⟩ := spec.plain_of_written writes
  have text : written.text = [] ++ written.digits.map digitByte := rfl
  rw [spec.text_of_written locale writes noBlank, spec.change_of_written writes, text]
  exact agrees_number (parseDirective_of_written expand writes) plain noCharacter
    (forall_mem_nil _) some_digit
    written.digits_lt_ten fits

theorem agrees_blank_written (range : tm.InRange) {locale : Option Int} :
    Agrees expand (Directive.text locale tm .e) (Directive.change tm .e) .e := by
  have writes : Directive.written tm .e = some (.two (tm.tmMon + 1)) := rfl
  obtain ⟨_, fits⟩ := Directive.written_fits range writes
  have small := (Numeral.two (tm.tmMon + 1)).digits_lt_ten
  have length : (Numeral.two (tm.tmMon + 1)).digits.length = 2 := by
    have mon := range.mon
    have same : unsigned 32 (tm.tmMon + 1) = tm.tmMon + 1 := unsigned_of_fits (by omega) (by omega)
    have lt : (tm.tmMon + 1).toNat < 100 := by omega
    simp only [Numeral.digits, Numeral.two, same]
    rw [length_take, length_decimalDigits_two lt]
    rfl
  obtain ⟨first, second, digits⟩ := length_eq_two.mp length
  rw [digits] at fits small
  have firstSmall := small first (mem_cons_self ..)
  have secondSmall := small second (mem_cons_of_mem _ (mem_cons_self ..))
  have text : Directive.text locale tm .e =
      [if digitByte first = byteOf '0' then byteOf ' ' else digitByte first, digitByte second] := by
    simp only [Directive.text, formatDirective, Numeral.text, digits, map_cons, map_nil]
  have change : Directive.change tm .e = storeNumber .e (numeral [first, second]) := by
    rw [<- digits]
    exact Directive.change_of_written writes
  have parse := parseDirective_of_written expand writes
  obtain ⟨noCharacter, plain⟩ := Directive.plain_of_written writes
  rw [text, change]
  by_cases zero : first = 0
  · have blank : ∀ c ∈ [byteOf ' '], Stdlib.isspace c :=
      forall_mem_singleton.mpr (by decide)
    have value : numeral [first, second] = numeral [second] := by
      rw [zero]
      rfl
    have shown : [byteOf ' ', digitByte second] = [byteOf ' '] ++ [second].map digitByte := rfl
    rw [value] at fits
    rw [if_pos (by rw [zero]; rfl), value, shown]
    exact agrees_number parse plain noCharacter blank (cons_ne_nil second [])
      (forall_mem_singleton.mpr secondSmall) fits
  · have notZero : digitByte first ≠ byteOf '0' := by
      intro same
      have bytes := congrArg UInt8.toNat same
      rw [toNat_digitByte firstSmall] at bytes
      have code : (byteOf '0').toNat = 48 := rfl
      omega
    have shown : [digitByte first, digitByte second] = [] ++ [first, second].map digitByte := rfl
    rw [if_neg notZero, shown]
    exact agrees_number parse plain noCharacter (forall_mem_nil _)
      (cons_ne_nil first [second]) small
      fits

theorem agrees_half {locale : Option Int} :
    Agrees expand (Directive.text locale tm .p) (Directive.change tm .p) .p := by
  intro skipped rest fields _
  have text : Directive.text locale tm .p =
      if tm.tmHour < 12 then bytesOf "AM" else bytesOf "PM" := rfl
  have morning : readName ampm storeHalf (bytesOf "AM" ++ rest) fields =
      some (rest, storeHalf 0 fields) := rfl
  have evening : readName ampm storeHalf (bytesOf "PM" ++ rest) fields =
      some (rest, storeHalf 1 fields) := rfl
  have parse : parseDirective expand .p = readName ampm storeHalf := rfl
  have accepted : Directive.accepts skipped .p := rfl
  rw [text, parse, Directive.change, if_pos accepted]
  by_cases early : tm.tmHour < 12
  · have unstripped : strip skipped (bytesOf "AM" ++ rest) = bytesOf "AM" ++ rest :=
      strip_of_not_isspace skipped (c := byteOf 'A') rfl _
    rw [if_pos early, if_pos early, unstripped, morning]
  · have unstripped : strip skipped (bytesOf "PM" ++ rest) = bytesOf "PM" ++ rest :=
      strip_of_not_isspace skipped (c := byteOf 'P') rfl _
    rw [if_neg early, if_neg early, unstripped, evening]

theorem agrees_leaf (range : tm.InRange) (locale : Option Int)
    (leaf : (spec.shared && !spec.isFormat)) :
    Agrees expand (spec.text locale tm) (spec.change tm) spec := by
  have weekday := range.wday.2.trans_lt (by decide : (6 : Int) < 7)
  have month := range.mon.2.trans_lt (by decide : (11 : Int) < 12)
  cases spec
  case a =>
    exact agrees_name (fun ret tm => { tm with tmWday := ret }) rfl (fun _ => rfl)
      (names_legible abbWeekdays (by simp)) "-" range.wday.1 weekday
  case A =>
    exact agrees_name (fun ret tm => { tm with tmWday := ret }) rfl (fun _ => rfl)
      (names_legible fullWeekdays (by simp)) "-" range.wday.1 weekday
  case b =>
    exact agrees_name (fun ret tm => { tm with tmMon := ret }) rfl (fun _ => rfl)
      (names_legible abbMonth (by simp)) "-" range.mon.1 month
  case B =>
    exact agrees_name (fun ret tm => { tm with tmMon := ret }) rfl (fun _ => rfl)
      (names_legible fullMonth (by simp)) "" range.mon.1 month
  case h =>
    rw [Directive.text_h]
    exact agrees_name (fun ret tm => { tm with tmMon := ret }) rfl (fun _ => rfl)
      (names_legible abbMonth (by simp)) "-" range.mon.1 month
  case e => exact agrees_blank_written range
  case p => exact agrees_half
  case n => exact agrees_char rfl (by decide) (by decide)
  case t => exact agrees_char rfl (by decide) (by decide)
  case percent => exact agrees_char rfl (by decide) (by decide)
  case C | d | H | I | j | m | M | S | u | U | V | w | W | y | Y =>
    exact agrees_written range rfl (by decide)
  all_goals cases leaf

end Leaves

/-! ## All conversions -/

/-- The conversions whose fields a conversion changes, in order. -/
def Directive.parts : Directive -> List Directive
  | .c => [.a, .b, .e, .H, .M, .S, .Y]
  | .D => [.m, .d, .y]
  | .r => [.I, .M, .S, .p]
  | .R => [.H, .M]
  | .T | .X => [.H, .M, .S]
  | spec => [spec]

def changeAll (tm : DateTime) (directives : List Directive) (fields : DateTime) : DateTime :=
  directives.foldl (fun fields spec => spec.change tm fields) fields

section Formats

variable {tm : DateTime}

theorem leadingDigits_character (locale : Option Int) (spec : Directive) (rest : List UInt8)
    (character : spec.isCharacter) :
    leadingDigits 10 (spec.text locale tm ++ rest) = [] := by
  cases spec <;> cases character <;> rfl

variable {spec : Directive}

theorem parseDirective_of_isFormat
    (expand : List UInt8 -> List UInt8 -> DateTime -> Option (List UInt8 × DateTime))
    (isFormat : spec.isFormat) :
    parseDirective expand spec = expand spec.pattern := by
  cases spec <;> cases isFormat <;> rfl

theorem Directive.pattern_known (spec : Directive) :
    Separated (fun leaf => leaf.shared && !leaf.isFormat) (tokens spec.pattern) /\
    (spec.isFormat ->
      (spec ≠ .x -> directives (tokens spec.pattern) = spec.parts) /\
      ∀ skipped, readable skipped (tokens spec.pattern) /\
        skippedAfter skipped (tokens spec.pattern) = false) := by
  cases spec <;> decide +kernel

theorem parseDate_succ (depth : Nat) (fmt : List UInt8) :
    parseDate (depth + 1) fmt = parseTokens (parseDate depth) (tokens fmt) := rfl

section

variable (range : tm.InRange) (locale : Option Int)
include range

theorem agrees_format (isFormat : spec.isFormat) (notDate : spec ≠ .x) :
    Agrees (parseDate 1) (spec.text locale tm) (changeAll tm spec.parts) spec := by
  obtain ⟨separated, known⟩ := spec.pattern_known
  obtain ⟨parts, read⟩ := known isFormat
  have noCharacter : spec.isCharacter = false := by
    cases spec <;> cases isFormat <;> rfl
  have accepted : ∀ skipped, spec.accepts skipped := by
    cases spec <;> first | exact absurd rfl notDate | cases isFormat <;> exact fun _ => rfl
  intro skipped rest fields ends
  have ends : leadingDigits 10 rest = [] := ends.resolve_left (by rw [noCharacter]; decide)
  rw [parseDirective_of_isFormat _ isFormat, parseDate_succ,
    spec.text_of_pattern locale tm isFormat notDate,
    parseTokens_format separated (fun leaf isLeaf => agrees_leaf range locale isLeaf)
      (leadingDigits_character locale) skipped ends,
    if_pos (read skipped).1, if_pos (accepted skipped), (read skipped).2, parts notDate]
  rfl

/-- The two functions disagree about the separators of `%x`. -/
theorem agrees_date :
    Agrees (parseDate 1) (Directive.text locale tm .x) (changeAll tm (Directive.parts .x)) .x := by
  intro skipped rest fields _
  obtain ⟨-, -, -, -, -, pieces, written⟩ := formats_known
  have text : Directive.text locale tm .x = formatDate locale tm 2 (bytesOf "%m/%d/%y") :=
    Directive.text_of_expansion locale tm rfl
  have month : Directive.text locale tm .m = (Numeral.two (tm.tmMon + 1)).text :=
    Directive.text_of_written locale rfl (by decide)
  obtain ⟨after, shown⟩ : ∃ after, Directive.text locale tm .x ++ rest =
      [] ++ ((Numeral.two (tm.tmMon + 1)).digits.map digitByte ++ byteOf '/' :: after) := by
    rw [text, formatDate_of_known locale tm 1 _ (by simp), written, flatMap_cons,
      flatMap_cons, Token.text_conversion _ (Directive.ofByte_byte .m), Token.text_literal,
      month, Numeral.text]
    refine ⟨(tokens (bytesOf "%d/%y")).flatMap (Token.text (Directive.text locale tm)) ++ rest, ?_⟩
    simp only [nil_append, append_assoc, cons_append]
  have writes : Directive.written tm .m = some (.two (tm.tmMon + 1)) := rfl
  obtain ⟨some_digit, fits⟩ := Directive.written_fits range writes
  have year := readNumber_digits (storeNumber .Y) (forall_mem_nil _) some_digit
    (Numeral.two (tm.tmMon + 1)).digits_lt_ten fits
    (leadingDigits_of_not_alnum (c := byteOf '/') (by decide) after) skipped fields
  have first : ∀ buf, parseToken (parseDate 0) (.conversion (Directive.byte .Y)) buf fields =
      readNumber (storeNumber .Y) buf fields := by
    intro buf
    rfl
  have accepted : Directive.accepts skipped .x = false := rfl
  rw [parseDirective_of_isFormat (parseDate 1) rfl, parseDate_succ, shown, pieces, parseTokens,
    first, year, accepted]
  rfl

theorem agrees_shared (shared : spec.shared) :
    Agrees (parseDate 1) (spec.text locale tm) (changeAll tm spec.parts) spec := by
  cases isFormat : spec.isFormat with
  | false =>
    have parts : changeAll tm spec.parts = spec.change tm := by
      cases spec <;> first | rfl | cases isFormat
    rw [parts]
    exact agrees_leaf range locale (by rw [shared, isFormat]; rfl)
  | true =>
    by_cases date : spec = .x
    · subst date
      exact agrees_date range locale
    · exact agrees_format range locale isFormat date

end

/-! ## No `NUL` -/

theorem digits_noNul {digits : List Nat} (small : ∀ digit ∈ digits, digit < 10) :
    ∀ c ∈ digits.map digitByte, c ≠ 0 :=
  forall_mem_map.mpr fun digit listed => (digitByte_ne (small digit listed)).1

theorem numberToString_noNul {number : Int} {minLen : Nat} :
    ∀ c ∈ numberToString number minLen, c ≠ 0 :=
  digits_noNul (decimalDigits_lt_ten _ _)

theorem Numeral.noNul (written : Numeral) : ∀ c ∈ written.text, c ≠ 0 :=
  digits_noNul written.digits_lt_ten

theorem nameAt_noNul {names : List String} {fallback : String}
    (noNul : ∀ name ∈ fallback :: names, ∀ c ∈ bytesOf name, c ≠ 0) {number : Int} :
    ∀ c ∈ nameAt names fallback number, c ≠ 0 := by
  unfold nameAt
  split_ifs with inside
  · have lt : number.toNat < names.length := by omega
    rw [getD_eq_getElem?_getD, List.getElem?_eq_getElem lt, Option.getD_some]
    exact noNul _ (mem_cons_of_mem _ (getElem_mem lt))
  · exact noNul _ (mem_cons_self ..)

/-- A conversion writes no `NUL` if the formats it stands for are written without one. -/
theorem formatDirective_noNul {expand : List UInt8 -> List UInt8}
    (expands : ∀ text, (∀ token ∈ tokens text, token ≠ .literal 0 /\ token ≠ .conversion 0) ->
      ∀ c ∈ expand text, c ≠ 0) {locale : Option Int} {tm : DateTime} {spec : Directive} :
    ∀ c ∈ formatDirective expand locale tm spec, c ≠ 0 := by
  have none : ∀ c ∈ ([] : List UInt8), c ≠ 0 := forall_mem_nil _
  cases spec <;> dsimp only [formatDirective]
  case a | A | b | B => exact nameAt_noNul (by decide +kernel)
  case c | D | F | h | r | R | T | x | X => exact expands _ (by decide +kernel)
  case n | t | k | l | percent => decide +kernel
  case p => split_ifs <;> decide +kernel
  case e =>
    have noNul := (Numeral.two (tm.tmMon + 1)).noNul
    split
    · exact none
    next first rest shown =>
      rw [shown] at noNul
      obtain ⟨head, tail⟩ := forall_mem_cons.mp noNul
      refine forall_mem_cons.mpr ⟨?_, tail⟩
      split_ifs
      · decide
      · exact head
  case z =>
    refine forall_mem_append.mpr ⟨?_, numberToString_noNul⟩
    split_ifs
    · decide +kernel
    · exact none
  case Z =>
    refine forall_mem_append.mpr ⟨by decide +kernel, ?_⟩
    split_ifs
    · exact forall_mem_append.mpr ⟨by decide +kernel, numberToString_noNul⟩
    · exact forall_mem_append.mpr ⟨by decide +kernel, numberToString_noNul⟩
    · exact none
  all_goals exact Numeral.noNul _

theorem formatDate_noNul (locale : Option Int) (tm : DateTime) (depth : Nat) :
    ∀ format, (∀ token ∈ tokens format, token ≠ .literal 0 /\ token ≠ .conversion 0) ->
      ∀ c ∈ formatDate locale tm depth format, c ≠ 0 := by
  induction depth with
  | zero => exact fun _ _ => forall_mem_nil _
  | succ depth ih =>
    intro format noNul c mem
    obtain ⟨token, listed, written⟩ := mem_flatMap.mp mem
    have plain := noNul token listed
    cases token with
    | bare => cases written
    | literal d =>
      rintro rfl
      exact plain.1 (by rw [mem_singleton.mp written])
    | conversion d =>
      cases found : Directive.ofByte d with
      | none =>
        simp only [formatToken, found, mem_singleton] at written
        rintro rfl
        exact plain.2 (by rw [written])
      | some spec =>
        rw [formatToken_conversion _ _ _ found] at written
        exact formatDirective_noNul ih c written

/-! ## The end of the buffer -/

/-- All of the text is stored and its length returned if the text and its `NUL` fit, and
otherwise 0 is returned; and nothing is stored behind the buffer. -/
def Bounded (locale : Option Int) (maxsize : Nat) (format : List UInt8) (tm : DateTime) : Prop :=
  let text := formatDate locale (withWeekday tm) 3 format
  (if text.length < maxsize then strftimeAny locale maxsize format tm = (text.length, some text)
    else (strftimeAny locale maxsize format tm).1 = 0) /\
  ∀ stored ∈ (strftimeAny locale maxsize format tm).2, stored.length < maxsize

/-- For every format, structure and size of the buffer: `strftime` keeps to the buffer and
stores what fits exactly when `maxsize - 1` is an `int`, or there is nothing to store or no
room for it. -/
theorem strftime_bounded_iff (locale : Option Int) {format : List UInt8}
    (noNul : ∀ c ∈ format, c ≠ 0) (tm : DateTime) {maxsize : Nat} (some : 1 <= maxsize)
    (isSize : maxsize < 2 ^ 32) :
    Bounded locale maxsize format tm <->
      maxsize <= 2 ^ 31 \/ formatDate locale (withWeekday tm) 3 format = [] \/
        maxsize <= (formatDate locale (withWeekday tm) 3 format).length := by
  have written := foldl_formatHookFunction
    (formatDate_noNul locale (withWeekday tm) 3 format 
      (by fun_induction tokens format <;> simp_all))
  unfold Bounded strftimeAny strftime
  rw [if_neg (by omega), if_neg (by omega), written]
  generalize formatDate locale (withWeekday tm) 3 format = text
  rcases le_or_gt maxsize (2 ^ 31) with small | large
  · have room : (signed 32 ((maxsize : Int) - 1)).toNat = maxsize - 1 := by
      rw [signed_of_fits (by omega) (by omega)]
      omega
    rw [room, Nat.add_sub_cancel]
    refine iff_of_true ⟨?_, ?_⟩ (Or.inl small)
    · by_cases fits : text.length < maxsize
      · have le : text.length <= maxsize - 1 := by omega
        simp [fits, le]
      · have more : ¬ text.length <= maxsize - 1 := by omega
        simp [fits, more]
    · rintro _ ⟨⟩
      simp
      omega
  · have room : (signed 32 ((maxsize : Int) - 1)).toNat = 0 := by
      simp only [signed_eq_bmod, Int.bmod_def]
      omega
    rw [room, or_iff_right (by omega)]
    cases text with
    | nil | cons c text => simp [show 0 < maxsize from some]

/-- The two digits of `%d` in a buffer of ten bytes. -/
theorem strftime_bounded_by_ten : Bounded none 10 (bytesOf "%d") ⟨0, 0, 0, 5, 0, 100, 0, 4⟩ :=
  (strftime_bounded_iff none (by decide +kernel) _ (by decide) (by decide)).mpr
    (Or.inl (by decide))

/-- With `(size_t) -1` for the size nothing is stored, and 0 is returned. -/
theorem strftime_of_largest_size :
    strftimeAny none 4294967295 (bytesOf "%d") ⟨0, 0, 0, 5, 0, 100, 0, 4⟩ = (0, some []) /\
      formatDate none ⟨0, 0, 0, 5, 0, 100, 0, 4⟩ 3 (bytesOf "%d") = bytesOf "05" := by
  decide +kernel

/-! ## `strptime` after `strftime` -/

/-- The conversions that act on the fields one after the other when a format is
read. -/
def leaves (format : List UInt8) : List Directive :=
  (directives (tokens format)).flatMap Directive.parts

theorem strptime_formatDate (range : tm.InRange) (locale : Option Int) {format : List UInt8}
    (separated : Separated Directive.shared (tokens format)) (fields : DateTime) :
    strptime (formatDate locale tm 3 format) format fields =
      if readable false (tokens format) then some ([], changeAll tm (leaves format) fields)
      else none := by
  have leadingDigits_nil : leadingDigits 10 [] = [] := rfl
  have all := parseTokens_format separated (fun spec shared => agrees_shared range locale shared)
    (leadingDigits_character locale) false leadingDigits_nil fields
  have folded : ∀ listed fields, (listed : List Directive).foldl
      (fun fields spec => changeAll tm spec.parts fields) fields =
        changeAll tm (listed.flatMap Directive.parts) fields := by
    intro listed fields
    unfold changeAll
    rw [foldl_flatMap]
  have nothing : ∀ skipped, strip skipped [] = [] := by decide
  rw [append_nil, folded, nothing] at all
  exact all

end Formats

end Clib4.Time
