import Clib4.Stdlib.Strtol
import Clib4.Time.Conversion

namespace Clib4.Time

open Foundation List
open Stdlib (byteOf)

/-!
# `strftime`

`strftime.c` without a locale, with `numbertostring.c`, `weekday.c` and the names
of `data.c`.  Strings are given without their `NUL`.  A format is first cut into
the pieces that both `strftime` and `strptime` go by: characters that stand for
themselves, and conversion characters with their modifier dropped.  Conversions
that are written in terms of others are expanded by a call that the depth bounds;
`formatDate_deep` shows that three levels are enough.
-/

def bytesOf (text : String) : List UInt8 := text.toList.map byteOf

/-! ## Formats -/

/-- The case labels of `format_date` and of `strptime`. -/
inductive Directive
  | a | A | b | B | c | C | d | D | e | F | g | G | h | H | I | j | k | l | m | M | n | p | r | R
  | S | t | T | u | U | V | w | W | x | X | y | Y | z | Z | percent
deriving DecidableEq, Repr

namespace Directive

def char : Directive -> Char
  | .a => 'a' | .A => 'A' | .b => 'b' | .B => 'B' | .c => 'c' | .C => 'C' | .d => 'd' | .D => 'D'
  | .e => 'e' | .F => 'F' | .g => 'g' | .G => 'G' | .h => 'h' | .H => 'H' | .I => 'I' | .j => 'j'
  | .k => 'k' | .l => 'l' | .m => 'm' | .M => 'M' | .n => 'n' | .p => 'p' | .r => 'r' | .R => 'R'
  | .S => 'S' | .t => 't' | .T => 'T' | .u => 'u' | .U => 'U' | .V => 'V' | .w => 'w' | .W => 'W'
  | .x => 'x' | .X => 'X' | .y => 'y' | .Y => 'Y' | .z => 'z' | .Z => 'Z' | .percent => '%'

def byte (spec : Directive) : UInt8 := byteOf spec.char

def all : List Directive :=
  [.a, .A, .b, .B, .c, .C, .d, .D, .e, .F, .g, .G, .h, .H, .I, .j, .k, .l, .m, .M, .n, .p, .r, .R,
    .S, .t, .T, .u, .U, .V, .w, .W, .x, .X, .y, .Y, .z, .Z, .percent]

def ofByte (c : UInt8) : Option Directive := all.find? fun spec => spec.byte == c

@[simp]
theorem ofByte_byte (spec : Directive) : ofByte spec.byte = some spec := by
  cases spec <;> rfl

end Directive

/-- A piece of a format; `bare` is a `%` with nothing to convert after it. -/
inductive Token
  | literal (c : UInt8)
  | conversion (c : UInt8)
  | bare
deriving DecidableEq, Repr

/-- The modifiers `E` and `O` are skipped. -/
def isModifier (c : UInt8) : Bool := c == byteOf 'E' || c == byteOf 'O'

def tokens : List UInt8 -> List Token
  | [] => []
  | [c] => if c = byteOf '%' then [.bare] else [.literal c]
  | c :: d :: format =>
    if c = byteOf '%' then
      if isModifier d then
        match format with
        | [] => [.bare]
        | e :: format => .conversion e :: tokens format
      else .conversion d :: tokens format
    else .literal c :: tokens (d :: format)

/-! ## Numbers and names -/

/-- The digits of a number, the last one first, as long as there is room. -/
def reversedDigits : Nat -> Nat -> List Nat
  | 0, _ => []
  | room + 1, number =>
    number % 10 :: if number / 10 > 0 then reversedDigits room (number / 10) else []

/-- The digits that `__number_to_string` writes into its 40 characters. -/
def decimalDigits (number minLen : Nat) : List Nat :=
  let digits := reversedDigits 39 number
  (digits ++ List.replicate (min (39 - digits.length) (minLen - digits.length)) 0).reverse

def digitByte (digit : Nat) : UInt8 := UInt8.ofNat (48 + digit)

/-- `__number_to_string`; the number is passed as an `unsigned int`. -/
def numberToString (number : Int) (minLen : Nat) : List UInt8 :=
  (decimalDigits (unsigned 32 number).toNat minLen).map digitByte

def abbreviatedWeekDayNames : List String := ["Sun", "Mon", "Tue", "Wed", "Thu", "Fri", "Sat"]

def weekDayNames : List String :=
  ["Sunday", "Monday", "Tuesday", "Wednesday", "Thursday", "Friday", "Saturday"]

def abbreviatedMonthNames : List String :=
  ["Jan", "Feb", "Mar", "Apr", "May", "Jun", "Jul", "Aug", "Sep", "Oct", "Nov", "Dec"]

def monthNames : List String :=
  ["January", "February", "March", "April", "May", "June", "July", "August", "September",
    "October", "November", "December"]

/-- The name with a number; `fallback` where the number is out of range. -/
def nameAt (names : List String) (fallback : String) (number : Int) : List UInt8 :=
  if 0 <= number /\ number <= names.length - 1 then bytesOf (names.getD number.toNat fallback)
  else bytesOf fallback

/-! ## Weeks and days -/

def julianDay (day month year : Int) : Int :=
  let a := (14 - month).tdiv 12
  let y := year + 4800 - a
  let m := month + 12 * a - 3
  day + (153 * m + 2).tdiv 5 + 365 * y + y.tdiv 4 - y.tdiv 100 + y.tdiv 400 - 32045

def iso8601CalendarWeekAndYear (day month year : Int) : Int × Int :=
  let J := julianDay day month year
  let d4 := (((J + 31741 - J.tmod 7).tmod 146097).tmod 36524).tmod 1461
  let L := d4.tdiv 1460
  let d1 := (d4 - L).tmod 365 + L
  let week := d1.tdiv 7 + 1
  (week,
    if month = 1 /\ week > 51 then year - 1
    else if month = 12 /\ week = 1 then year + 1
    else year)

def monthSkew : List Int := [0, 3, 3, 6, 1, 4, 6, 2, 5, 0, 3, 5]

/-- `__calculate_weekday`, which adds up in an `int`. -/
def calculateWeekday (year month day : Int) : Int :=
  let sum := signed 32 (year - 1900)
  let sum := signed 32 (sum + sum.tdiv 4)
  let leapYearAdjust : Int :=
    if year.tmod 4 ≠ 0 then 0
    else if year.tmod 400 = 0 then 1
    else if year.tmod 100 = 0 then 0
    else 1
  let sum := if month = 1 \/ month = 2 then signed 32 (sum - leapYearAdjust) else sum
  (signed 32 (sum + (day + monthSkew.getD (month - 1).toNat 0))).tmod 7

/-! ## The conversions -/

/-- The numbers of the conversions that write one, with the least number of digits
and the number of characters taken of them. -/
structure Numeral where
  number : Int
  minLen : Nat
  length : Option Nat

namespace Numeral

def two (number : Int) : Numeral := ⟨number, 2, some 2⟩

def one (number : Int) : Numeral := ⟨number, 0, some 1⟩

def digits (numeral : Numeral) : List Nat :=
  let all := decimalDigits (unsigned 32 numeral.number).toNat numeral.minLen
  match numeral.length with
  | none => all
  | some length => all.take length

def text (numeral : Numeral) : List UInt8 := numeral.digits.map digitByte

end Numeral

/-- What `%z` writes for the minutes west of Greenwich. -/
def zoneOffsetText (minutes : Int) : List UInt8 :=
  let offset := if minutes < 0 then -minutes else minutes
  (if minutes > 0 then bytesOf "-" else []) ++
    numberToString (100 * offset.tdiv 60 + offset.tmod 60) 0

/-- What `%Z` writes for the minutes west of Greenwich. -/
def zoneNameText (minutes : Int) : List UInt8 :=
  let hours := minutes.tdiv 60
  bytesOf "GMT" ++
    if hours < 0 then bytesOf "+" ++ numberToString (-hours) 2
    else if hours > 0 then bytesOf "-" ++ numberToString hours 2
    else []

/-- The switch of `format_date`.  `expand` is its call of itself, and `locale` the
`loc_GMTOffset` of the default locale. -/
def formatDirective (expand : List UInt8 -> List UInt8) (locale : Option Int) (tm : DateTime) :
    Directive -> List UInt8
  | .a => nameAt abbreviatedWeekDayNames "-" tm.tmWday
  | .A => nameAt weekDayNames "-" tm.tmWday
  | .b => nameAt abbreviatedMonthNames "-" tm.tmMon
  | .B => nameAt monthNames "" tm.tmMon
  | .c => expand (bytesOf "%a %b %e %T %Y")
  | .C => (Numeral.two (tm.tmYear.tdiv 100)).text
  | .d => (Numeral.two tm.tmMday).text
  | .D => expand (bytesOf "%m/%d/%y")
  | .e =>
    -- the number written is that of the month
    match (Numeral.two (tm.tmMon + 1)).text with
    | [] => []
    | c :: text => (if c = byteOf '0' then byteOf ' ' else c) :: text
  | .F => expand (bytesOf "%Y-%m-%d")
  | .g =>
    let year := (iso8601CalendarWeekAndYear tm.tmMday (tm.tmMon + 1) (tm.tmYear + 1900)).2
    (Numeral.two (year.tmod 100)).text
  | .G =>
    let year := (iso8601CalendarWeekAndYear tm.tmMday (tm.tmMon + 1) (tm.tmYear + 1900)).2
    (Numeral.mk year 0 none).text
  | .h => expand (bytesOf "%b")
  | .H => (Numeral.two tm.tmHour).text
  | .I =>
    let hour := tm.tmHour.tmod 12
    (Numeral.two (if hour = 0 then 12 else hour)).text
  | .j =>
    (Numeral.mk (1 + calculateDaysPerDate (tm.tmYear + 1900) (tm.tmMon + 1) tm.tmMday -
      calculateDaysPerDate (tm.tmYear + 1900) 1 1) 3 none).text
  | .m => (Numeral.two (tm.tmMon + 1)).text
  | .M => (Numeral.two tm.tmMin).text
  | .n => bytesOf "\n"
  | .p => if tm.tmHour < 12 then bytesOf "AM" else bytesOf "PM"
  | .r => expand (bytesOf "%I:%M:%S %p")
  | .R => expand (bytesOf "%H:%M")
  | .S => (Numeral.two tm.tmSec).text
  | .t => bytesOf "\t"
  | .T => expand (bytesOf "%H:%M:%S")
  | .u => (Numeral.one (if tm.tmWday > 0 then tm.tmWday else 7)).text
  | .U => (Numeral.two ((tm.tmYday + 7 - tm.tmWday).tdiv 7)).text
  | .V =>
    let week := (iso8601CalendarWeekAndYear tm.tmMday (tm.tmMon + 1) (tm.tmYear + 1900)).1
    (Numeral.two week).text
  | .w => (Numeral.one tm.tmWday).text
  | .W => (Numeral.two ((tm.tmYday + 7 - (tm.tmWday + 6).tmod 7).tdiv 7)).text
  | .x => expand (bytesOf "%m/%d/%y")
  | .X => expand (bytesOf "%T")
  | .y => (Numeral.two (unsigned 32 tm.tmYear % 100)).text
  | .Y => (Numeral.mk (1900 + tm.tmYear) 0 none).text
  | .z => zoneOffsetText (locale.getD 0)
  | .Z => zoneNameText (locale.getD 0)
  | .k => [Directive.byte .k]
  | .l => [Directive.byte .l]
  | .percent => [Directive.byte .percent]

/-- One turn of the loop of `format_date`. -/
def formatToken (expand : List UInt8 -> List UInt8) (locale : Option Int) (tm : DateTime) :
    Token -> List UInt8
  | .literal c => [c]
  | .conversion c =>
    match Directive.ofByte c with
    | some spec => formatDirective expand locale tm spec
    | none => [c]
  | .bare => []

/-- `format_date`, with the depth to which it may call itself. -/
def formatDate (locale : Option Int) (tm : DateTime) : Nat -> List UInt8 -> List UInt8
  | 0, _ => []
  | depth + 1, format =>
    (tokens format).flatMap (formatToken (formatDate locale tm depth) locale tm)

def Directive.expansion : Directive -> Option (List UInt8)
  | .c => some (bytesOf "%a %b %e %T %Y")
  | .D => some (bytesOf "%m/%d/%y")
  | .F => some (bytesOf "%Y-%m-%d")
  | .h => some (bytesOf "%b")
  | .r => some (bytesOf "%I:%M:%S %p")
  | .R => some (bytesOf "%H:%M")
  | .T => some (bytesOf "%H:%M:%S")
  | .x => some (bytesOf "%m/%d/%y")
  | .X => some (bytesOf "%T")
  | _ => none

def Token.expansion : Token -> Option (List UInt8)
  | .conversion c => (Directive.ofByte c).bind Directive.expansion
  | _ => none

def expansions (format : List UInt8) : List (List UInt8) :=
  (tokens format).filterMap Token.expansion

theorem formatDirective_congr {expand expand' : List UInt8 -> List UInt8} (locale : Option Int)
    (tm : DateTime) (spec : Directive)
    (same : ∀ text ∈ spec.expansion, expand text = expand' text) :
    formatDirective expand locale tm spec = formatDirective expand' locale tm spec := by
  cases spec <;> first | rfl | exact same _ rfl

theorem formatToken_conversion (expand : List UInt8 -> List UInt8) (locale : Option Int)
    (tm : DateTime) {c : UInt8} {spec : Directive}
    (found : Directive.ofByte c = some spec) :
    formatToken expand locale tm (.conversion c) = formatDirective expand locale tm spec := by
  simp only [formatToken, found]

variable (locale : Option Int) {format : List UInt8}

theorem formatDate_congr (tm : DateTime) {depth depth' : Nat}
    (same : ∀ text ∈ expansions format, formatDate locale tm depth text = formatDate locale tm
      depth' text) :
    formatDate locale tm (depth + 1) format = formatDate locale tm (depth' + 1) format := by
  apply flatMap_congr
  intro token mem
  cases token with
  | literal c | bare => rfl
  | conversion c =>
    cases found : Directive.ofByte c with
    | none => simp only [formatToken, found]
    | some spec =>
      rw [formatToken_conversion _ _ _ found, formatToken_conversion _ _ _ found]
      apply formatDirective_congr
      intro text expands
      apply same
      exact mem_filterMap.mpr ⟨_, mem, by rw [Token.expansion, found]; exact expands⟩

theorem expansions_expansion (spec : Directive) :
    ∀ text ∈ spec.expansion, ∀ inner ∈ expansions text, expansions inner = [] := by
  cases spec <;> rintro _ ⟨⟩ <;> decide +kernel

theorem expansions_twice {text inner : List UInt8} (once : text ∈ expansions format)
    (twice : inner ∈ expansions text) : expansions inner = [] := by
  obtain ⟨token, -, expands⟩ := mem_filterMap.mp once
  cases token with
  | literal c | bare => cases expands
  | conversion c =>
    obtain ⟨spec, -, expands⟩ := Option.bind_eq_some_iff.mp expands
    exact expansions_expansion spec text expands inner twice

/-- Three levels are as good as any greater number. -/
theorem formatDate_deep (tm : DateTime) (depth : Nat) (format : List UInt8) :
    formatDate locale tm (depth + 3) format = formatDate locale tm 3 format := by
  apply formatDate_congr
  intro text once
  apply formatDate_congr
  intro inner twice
  apply formatDate_congr
  rw [expansions_twice once twice]
  exact forall_mem_nil _

/-! ## The function -/

/-- `struct format_hook_data`, and what has been written. -/
structure FormatHookData where
  buffer : List UInt8
  maxSize : Nat
  len : Nat

def formatHookFunction (data : FormatHookData) (c : UInt8) : FormatHookData :=
  if c = 0 then data
  else if 0 < data.maxSize then
    { buffer := data.buffer ++ [c], maxSize := data.maxSize - 1, len := data.len + 1 }
  else { data with len := 0 }

def withWeekday (tm : DateTime) : DateTime :=
  if tm.tmWday < 0 \/ tm.tmWday > 6 then
    { tm with tmWday := calculateWeekday (tm.tmYear + 1900) (tm.tmMon + 1) tm.tmMday }
  else tm

/-- `strftime`: the length it returns and the text before the `NUL`, if it writes
one. -/
def strftime (locale : Option Int) (maxsize : Nat) (format : List UInt8) (tm : DateTime) :
    Nat × Option (List UInt8) :=
  if maxsize = 0 then (0, none)
  else
    let data := (formatDate locale (withWeekday tm) 3 format).foldl formatHookFunction
      ⟨[], maxsize - 1, 0⟩
    (data.len, some data.buffer)

/-- `strftime` with any `size_t`: `max_size` is an `int`, and below zero it is no room. -/
def strftimeAny (locale : Option Int) (maxsize : Nat) (format : List UInt8) (tm : DateTime) :
    Nat × Option (List UInt8) :=
  if maxsize = 0 then (0, none)
  else strftime locale ((signed 32 (maxsize - 1)).toNat + 1) format tm

theorem foldl_formatHookFunction {text : List UInt8} (noNul : ∀ c ∈ text, c ≠ 0)
    (data : FormatHookData) :
    text.foldl formatHookFunction data =
      ⟨data.buffer ++ text.take data.maxSize, data.maxSize - text.length,
        if text.length <= data.maxSize then data.len + text.length else 0⟩ := by
  induction text generalizing data with
  | nil => simp
  | cons c text ih =>
    obtain ⟨some, noNul⟩ := forall_mem_cons.mp noNul
    obtain ⟨buffer, room, len⟩ := data
    rw [foldl_cons, formatHookFunction, if_neg some, ih noNul]
    cases room with
    | zero => cases text <;> simp
    | succ room => simp [Nat.add_right_comm, Nat.add_assoc]

theorem strftime_of_room {maxsize : Nat} {tm : DateTime}
    (noNul : ∀ c ∈ formatDate locale (withWeekday tm) 3 format, c ≠ 0)
    (room : (formatDate locale (withWeekday tm) 3 format).length < maxsize) :
    strftime locale maxsize format tm = ((formatDate locale (withWeekday tm) 3 format).length,
        some (formatDate locale (withWeekday tm) 3 format)) := by
  unfold strftime
  rw [if_neg (by omega), foldl_formatHookFunction noNul]
  dsimp only
  rw [if_pos (by omega), take_of_length_le (by omega)]
  simp

/-! ## Days of the week -/

open Calendar

/-- The days after a Sunday that `__calculate_weekday` adds up for a date. -/
def weekdaySum (civil : Civil) : Int :=
  civil.year - 1900 + (civil.year - 1900).tdiv 4 + civil.day + monthSkew.getD (civil.month - 1) 0 -
    (if civil.month <= 2 /\ isLeap civil.year then 1 else 0)

/-- The leap days the sum has too many: it knows no century, and before 1900 the
division by four rounds up. -/
def weekdayDrift (year : Int) : Int :=
  year / 100 - year / 400 - 15 + (if year < 1900 /\ year % 4 ≠ 0 then 1 else 0)

theorem monthSkew_eq {month : Nat} (pos : 1 <= month) (le : month <= 12) :
    monthSkew.getD (month - 1) 0 = daysBeforeMonth false month % 7 := by
  interval_cases month <;> decide

/-- Within 1700 million years no addition leaves the range of an `int`. -/
theorem calculateWeekday_eq (civil : Civil)
    (range : -1700000000 <= civil.year /\ civil.year <= 1700000000) :
    calculateWeekday civil.year civil.month civil.day = (weekdaySum civil).tmod 7 := by
  have pos := civil.month_pos
  have day := civil.day_pos
  have days := civil.day_le.trans (monthLength_le _ _)
  have leap := isLeap_iff civil.year
  have skew := monthSkew_eq pos civil.month_le
  have quarter : -425000500 <= (civil.year - 1900).tdiv 4 /\
      (civil.year - 1900).tdiv 4 <= 425000000 := by
    rw [Int.tdiv_eq_ediv, show Int.sign 4 = 1 from rfl]
    split_ifs <;> omega
  have fits {value : Int} (lower : -2 ^ 31 <= value) (upper : value < 2 ^ 31) :
      signed 32 value = value := signed_of_fits lower upper
  unfold calculateWeekday weekdaySum
  dsimp only
  rw [show ((civil.month : Int) - 1).toNat = civil.month - 1 by omega, skew]
  simp only [ne_eq, <- Int.dvd_iff_tmod_eq_zero, leap]
  rw [@fits (civil.year - 1900) (by omega) (by omega)]
  generalize (civil.year - 1900).tdiv 4 = quarters at quarter ⊢
  rw [@fits (civil.year - 1900 + quarters) (by omega) (by omega)]
  have one : signed 32 (civil.year - 1900 + quarters - 1) = _ := fits (by omega) (by omega)
  have zero : signed 32 (civil.year - 1900 + quarters - 0) = _ := fits (by omega) (by omega)
  congr 1
  split_ifs <;> (try simp only [one, zero]) <;> rw [fits] <;> omega

theorem weekdaySum_eq (civil : Civil) :
    7 ∣ weekdaySum civil - civil.weekday - weekdayDrift civil.year := by
  have pos := civil.month_pos
  have le := civil.month_le
  have months : 7 ∣ daysBeforeMonth (isLeap civil.year) civil.month -
      (monthSkew.getD (civil.month - 1) 0 +
        (if 2 < civil.month /\ isLeap civil.year then 1 else 0)) := by
    generalize civil.month = month at pos le ⊢
    interval_cases month <;> cases isLeap civil.year <;> decide
  have year := daysBeforeYear_succ civil.year
  rw [daysBeforeYear, add_sub_cancel_right, yearLength] at year
  have week := Int.mul_ediv_add_emod (civil.days + 1) 7
  have quarter : (civil.year - 1900) / 4 = civil.year / 4 - 475 := by omega
  unfold weekdaySum weekdayDrift Civil.weekday
  rw [Int.tdiv_eq_ediv, quarter, show Int.sign 4 = 1 from rfl]
  generalize (civil.days + 1) % 7 = weekday at week ⊢
  rw [Civil.days, dayNumber] at week
  generalize isLeap civil.year = leap at months year week ⊢
  cases leap <;> simp only [and_true, and_false, if_true, if_false, Bool.false_eq_true]
    at months year week ⊢ <;> split_ifs at months ⊢ <;> omega

end Clib4.Time
