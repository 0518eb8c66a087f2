import Clib4.Time.RoundTrip

namespace Clib4.Time

open Foundation List

/-!
# The text of `TZ`

`tzset.c` reads a zone from the environment.  Its parser takes the name, the
offset, the name and the offset of daylight saving time and the two rules; a
pointer and the length left are one list of characters here.  Offsets count west
of Greenwich in the text, and the parser is asked to turn them around.

The result is stored by `tzset` and taken off by `localtime_r`, which wants seconds
west of Greenwich.
-/

/-! ## `tzset.c` -/

def isspace (c : Char) : Bool := decide (9 <= c.toNat /\ c.toNat <= 13 \/ c.toNat = 32)

def isdigit (c : Char) : Bool := decide (48 <= c.toNat /\ c.toNat <= 57)

def isalpha (c : Char) : Bool :=
  decide (65 <= c.toNat /\ c.toNat <= 90 \/ 97 <= c.toNat /\ c.toNat <= 122)

/-- `struct os_tzrule_t`. -/
structure TzRule where
  jday : Int
  yday : Int
  month : Int
  week : Int
  day : Int
  time : Int
deriving DecidableEq, Repr

def TzRule.cleared : TzRule := ⟨0, 0, 0, 0, 0, 0⟩

/-- `struct os_tzinfo_t`; the abbreviations are given without their end. -/
structure TzInfo where
  stdOfs : Int
  dstOfs : Int
  stdAbbr : List Char
  dstAbbr : List Char
  dstStart : TzRule
  dstEnd : TzRule
deriving DecidableEq, Repr

/-- `sizeof(info->std_abbr)`. -/
def abbrSize : Nat := 16

/-- `parse_digits`; the value is an `int`. -/
def parseDigits (val : Int) : List Char -> Int × List Char
  | [] => (val, [])
  | c :: p =>
    if isdigit c then parseDigits (signed 32 (val * 10 + (c.toNat - 48 : Nat))) p
    else (val, c :: p)

/-- The sign of an offset, which must be followed by a digit. -/
def parseSign : List Char -> Int × List Char
  | c :: d :: p =>
    if c = '+' /\ isdigit d then (1, d :: p)
    else if c = '-' /\ isdigit d then (-1, d :: p)
    else (1, c :: d :: p)
  | p => (1, p)

/-- Minutes or seconds: a colon with two digits and perhaps more behind it. -/
def parseColon : List Char -> Option (Int × List Char)
  | c :: d :: e :: p =>
    if c = ':' /\ isdigit d /\ isdigit e then some (parseDigits 0 (d :: e :: p)) else none
  | _ => none

def parseParts (p : List Char) : Int × Int × List Char :=
  match parseColon p with
  | none => (0, 0, p)
  | some (mm, p) =>
    match parseColon p with
    | none => (mm, 0, p)
    | some (ss, p) => (mm, ss, p)

/-- `parse_offset`; without a digit `secs` stays as it is. -/
def parseOffset (secs : Int) (p : List Char) : Int × List Char :=
  let ⟨sign, p⟩ := parseSign p
  if p.head?.any isdigit then
    let ⟨hh, p⟩ := parseDigits 0 p
    let ⟨mm, ss, p⟩ := parseParts p
    (signed 32 (sign * (hh * 60 * 60 + mm * 60 + ss)), p)
  else (secs, p)

def parseDotted : List Char -> Option (Int × List Char)
  | c :: d :: p => if c = '.' /\ isdigit d then some (parseDigits 0 (d :: p)) else none
  | _ => none

def parseMonthRule (p : List Char) : Option (TzRule × List Char) := do
  let ⟨month, p⟩ := parseDigits 0 p
  if month < 1 \/ 12 < month then none
  else
    let ⟨week, p⟩ <- parseDotted p
    if week < 1 \/ 5 < week then none
    else
      let ⟨day, p⟩ <- parseDotted p
      let day := day + 1
      if day < 1 \/ 7 < day then none
      else some ({ TzRule.cleared with month := month, week := week, day := day }, p)

def parseRuleDate : List Char -> Option (TzRule × List Char)
  | [] => none
  | c :: p =>
    if (c = 'J' \/ c = 'j') /\ p.head?.any isdigit then
      let ⟨jday, p⟩ := parseDigits 0 p
      some ({ TzRule.cleared with jday := jday }, p)
    else if isdigit c then
      let ⟨yday, p⟩ := parseDigits 0 (c :: p)
      some ({ TzRule.cleared with yday := yday + 1 }, p)
    else if c = 'M' /\ p.head?.any isdigit then parseMonthRule p
    else none

/-- `parse_dst_rule`; `none` is the return of the starting point. -/
def parseDstRule (p : List Char) : Option (TzRule × List Char) := do
  let ⟨rule, p⟩ <- parseRuleDate p
  if p.head? = some '/' /\ p.tail.head?.any isdigit then
    let ⟨time, p⟩ := parseOffset rule.time p.tail
    some ({ rule with time := time }, p)
  else some ({ rule with time := 2 * 60 * 60 }, p)

/-- The rules, if there are any; the second is required after the first. -/
def parseRules (p : List Char) : Option (TzRule × TzRule × List Char) :=
  if p.head? = some ',' then do
    let ⟨dstStart, p⟩ <- parseDstRule p.tail
    if p.head? = some ',' then
      let ⟨dstEnd, p⟩ <- parseDstRule p.tail
      some (dstStart, dstEnd, p)
    else none
  else some (.cleared, .cleared, p)

def parseDstOffset (stdOfs : Int) (westIsPositive : Bool) (p : List Char) : Int × List Char :=
  let ⟨dstOfs, rest⟩ := parseOffset 0 p
  if rest = p then (signed 32 (stdOfs + 60 * 60), rest)
  else if westIsPositive then (signed 32 (-dstOfs), rest)
  else (dstOfs, rest)

/-- What comes of a text: `overrun` is a name that does not fit in its array. -/
inductive ZoneResult
  | rejected
  | overrun
  | accepted (info : TzInfo)
deriving DecidableEq, Repr

def ossParsePosixTz (tz : List Char) (westIsPositive : Bool) : ZoneResult :=
  let tz := tz.dropWhile isspace
  let stdName := tz.takeWhile isalpha
  let tz := tz.dropWhile isalpha
  if stdName = [] then .rejected
  else
    let ⟨stdOfs, p⟩ := parseOffset 0 tz
    if p = tz then .rejected
    else
      let stdOfs := if westIsPositive then signed 32 (-stdOfs) else stdOfs
      let dstName := p.takeWhile isalpha
      let ⟨dstOfs, p⟩ :=
        if dstName = [] then (stdOfs, p)
        else parseDstOffset stdOfs westIsPositive (p.dropWhile isalpha)
      match parseRules p with
      | none => .rejected
      | some (dstStart, dstEnd, p) =>
        -- blanks at the end are passed over without being taken off the length
        if p ≠ [] then .rejected
        else if abbrSize <= stdName.length \/ abbrSize <= dstName.length then .overrun
        else
          .accepted
            { stdOfs := stdOfs, dstOfs := dstOfs, stdAbbr := stdName, dstAbbr := dstName
              dstStart := dstStart, dstEnd := dstEnd }

/-- `_tzset_unlocked`, given the value of `TZ`; nothing is known after an overrun. -/
def tzset (tzenv : Option (List Char)) (clib4 : Process) : Option Process :=
  let unset := { clib4 with
    isTZSet := false, timezone := 0, daylight := 0, tzname := ("GMT".toList, "GMT".toList) }
  match tzenv with
  | none => some unset
  | some text =>
    match ossParsePosixTz text true with
    | .rejected => some unset
    | .overrun => none
    | .accepted info =>
      some
        { unset with
          tzname := (info.stdAbbr, info.dstAbbr)
          timezone := info.stdOfs
          daylight := if info.stdOfs ≠ info.dstOfs then 1 else 0
          isTZSet := true }

/-! ## Zones without daylight saving time -/

/-- The sign that may precede the hours. -/
inductive Sign
  | absent
  | plus
  | minus
deriving DecidableEq, Repr

/--
A zone of the form `name[+|-]hh[:mm[:ss]]`.  Hours below ten have one digit or two.
-/
structure PosixZone where
  name : List Char
  sign : Sign
  hours : Fin 25
  padded : Bool
  parts : Option (Fin 60 × Option (Fin 60))
  name_ne : name ≠ []
  name_alpha : ∀ c ∈ name, isalpha c

namespace PosixZone

def digitChar (number : Nat) : Char := Char.ofNat (48 + number)

def twoDigits (number : Nat) : List Char := [digitChar (number / 10), digitChar (number % 10)]

def signText : Sign -> List Char
  | .absent => []
  | .plus => ['+']
  | .minus => ['-']

def hoursText (zone : PosixZone) : List Char :=
  if zone.padded \/ 10 <= zone.hours.val then twoDigits zone.hours else [digitChar zone.hours]

def partsText : Option (Fin 60 × Option (Fin 60)) -> List Char
  | none => []
  | some (minutes, none) => ':' :: twoDigits minutes
  | some (minutes, some seconds) => ':' :: twoDigits minutes ++ ':' :: twoDigits seconds

def text (zone : PosixZone) : List Char :=
  zone.name ++ (signText zone.sign ++ (zone.hoursText ++ partsText zone.parts))

def signFactor : Sign -> Int
  | .absent => 1
  | .plus => 1
  | .minus => -1

def partsSeconds : Option (Fin 60 × Option (Fin 60)) -> Int
  | none => 0
  | some (minutes, none) => minutes.val * 60
  | some (minutes, some seconds) => minutes.val * 60 + seconds.val

def offset (zone : PosixZone) : Int :=
  signFactor zone.sign * (zone.hours.val * 3600 + partsSeconds zone.parts)

theorem offset_bounds (zone : PosixZone) : -90000 < zone.offset /\ zone.offset < 90000 := by
  have parts : 0 <= partsSeconds zone.parts /\ partsSeconds zone.parts < 3600 := by
    rcases zone.parts with _ | ⟨minutes, _ | seconds⟩
    · decide
    · simp only [partsSeconds]
      omega
    · simp only [partsSeconds]
      omega
  unfold offset
  cases zone.sign <;> simp only [signFactor] <;> omega

/-! ### Digits -/

theorem toNat_digitChar : ∀ number < 10, (digitChar number).toNat = 48 + number := by
  decide

theorem isdigit_digitChar : ∀ number < 10, isdigit (digitChar number) := by
  decide

theorem parseDigits_digit {val : Int} {number : Nat} (lt : number < 10) (nonneg : 0 <= val)
    (small : val <= 1000) (p : List Char) :
    parseDigits val (digitChar number :: p) = parseDigits (val * 10 + number) p := by
  rw [parseDigits, if_pos (isdigit_digitChar number lt), toNat_digitChar number lt,
    Nat.add_sub_cancel_left, signed_of_fits (by omega) (by omega)]

variable {p : List Char}

theorem parseDigits_stop (val : Int) (stop : p.head?.any isdigit = false) :
    parseDigits val p = (val, p) := by
  cases p with
  | nil => rfl
  | cons c p =>
    rw [parseDigits, if_neg]
    rw [List.head?_cons, Option.any_some] at stop
    rw [stop]
    exact Bool.false_ne_true

theorem parseDigits_twoDigits {number : Nat} (lt : number < 100)
    (stop : p.head?.any isdigit = false) :
    parseDigits 0 (twoDigits number ++ p) = ((number : Int), p) := by
  change parseDigits 0 (digitChar (number / 10) :: digitChar (number % 10) :: p) = _
  rw [parseDigits_digit (by omega) (le_refl 0) (by decide),
    parseDigits_digit (by omega) (by omega) (by omega), parseDigits_stop _ stop, Prod.mk.injEq]
  exact ⟨by omega, rfl⟩

/-! ### The parts of an offset -/

theorem parseColon_twoDigits {number : Nat} (lt : number < 100)
    (stop : p.head?.any isdigit = false) :
    parseColon (':' :: twoDigits number ++ p) = some ((number : Int), p) := by
  rw [<- parseDigits_twoDigits lt stop]
  change parseColon (':' :: digitChar (number / 10) :: digitChar (number % 10) :: p) = _
  rw [parseColon, if_pos
    ⟨rfl, isdigit_digitChar _ (by omega), isdigit_digitChar _ (by omega)⟩]
  rfl

variable (parts : Option (Fin 60 × Option (Fin 60)))

theorem partsText_stop : (partsText parts).head?.any isdigit = false := by
  rcases parts with _ | ⟨minutes, _ | seconds⟩ <;> rfl

theorem parseParts_partsText : ∃ mm ss, parseParts (partsText parts) = (mm, ss, []) /\
      mm * 60 + ss = partsSeconds parts := by
  unfold parseParts
  rcases parts with _ | ⟨minutes, _ | seconds⟩
  · exact ⟨0, 0, rfl, rfl⟩
  · have first := parseColon_twoDigits (show minutes.val < 100 by omega)
      (show ([] : List Char).head?.any isdigit = false from rfl)
    rw [append_nil] at first
    simp only [partsText]
    rw [first]
    exact ⟨minutes.val, 0, rfl, add_zero _⟩
  · have first := parseColon_twoDigits (show minutes.val < 100 by omega)
      (show (':' :: twoDigits seconds.val).head?.any isdigit = false from rfl)
    have second := parseColon_twoDigits (show seconds.val < 100 by omega)
      (show ([] : List Char).head?.any isdigit = false from rfl)
    rw [append_nil] at second
    simp only [partsText]
    rw [first]
    dsimp only
    rw [second]
    exact ⟨minutes.val, seconds.val, rfl, rfl⟩

variable (zone : PosixZone)

theorem hoursText_head (p : List Char) :
    ∃ d rest, zone.hoursText ++ p = d :: rest /\ isdigit d := by
  unfold hoursText
  split_ifs with two
  · exact ⟨_, _, rfl, isdigit_digitChar _ (by omega)⟩
  · rw [not_or, not_le] at two
    exact ⟨_, _, rfl, isdigit_digitChar _ two.2⟩

theorem parseDigits_hoursText (stop : p.head?.any isdigit = false) :
    parseDigits 0 (zone.hoursText ++ p) = ((zone.hours.val : Int), p) := by
  unfold hoursText
  split_ifs with two
  · exact parseDigits_twoDigits (by omega) stop
  · rw [not_or, not_le] at two
    change parseDigits 0 (digitChar zone.hours :: p) = _
    rw [parseDigits_digit two.2 (le_refl 0) (by decide), parseDigits_stop _ stop, zero_mul,
      zero_add]

theorem parseSign_signText (sign : Sign) {d : Char} (digit : isdigit d) (rest : List Char) :
    parseSign (signText sign ++ d :: rest) = (signFactor sign, d :: rest) := by
  cases sign with
  | plus =>
    change parseSign ('+' :: d :: rest) = _
    rw [parseSign, if_pos ⟨rfl, digit⟩]
    rfl
  | minus =>
    change parseSign ('-' :: d :: rest) = _
    rw [parseSign, if_neg (by simp), if_pos ⟨rfl, digit⟩]
    rfl
  | absent =>
    change parseSign (d :: rest) = (1, d :: rest)
    have notPlus : d ≠ '+' := by
      rintro rfl
      cases digit
    have notMinus : d ≠ '-' := by
      rintro rfl
      cases digit
    cases rest with
    | nil => rfl
    | cons e rest =>
      rw [parseSign, if_neg (fun both => notPlus both.1), if_neg (fun both => notMinus both.1)]

theorem parseOffset_text :
    parseOffset 0 (signText zone.sign ++ (zone.hoursText ++ partsText zone.parts)) =
      (zone.offset, []) := by
  obtain ⟨d, rest, eq, digit⟩ := hoursText_head zone (partsText zone.parts)
  obtain ⟨mm, ss, parts, seconds⟩ := parseParts_partsText zone.parts
  have bounds := zone.offset_bounds
  have hours := parseDigits_hoursText zone (partsText_stop zone.parts)
  rw [eq] at hours ⊢
  unfold parseOffset
  rw [parseSign_signText zone.sign digit rest]
  dsimp only
  rw [if_pos (by rwa [List.head?_cons, Option.any_some]), hours]
  rw [parts]
  have same : signFactor zone.sign * (zone.hours.val * 60 * 60 + mm * 60 + ss) = zone.offset := by
    unfold offset
    rw [<- seconds]
    ring
  rw [same, signed_of_fits (by omega) (by omega)]

/-! ### The whole text -/

theorem not_isalpha_of_isdigit {c : Char} (digit : isdigit c) : isalpha c = false := by
  unfold isdigit at digit
  unfold isalpha
  rw [decide_eq_true_eq] at digit
  rw [decide_eq_false_iff_not]
  omega

theorem not_isspace_of_isalpha {c : Char} (alpha : isalpha c) : isspace c = false := by
  unfold isalpha at alpha
  unfold isspace
  rw [decide_eq_true_eq] at alpha
  rw [decide_eq_false_iff_not]
  omega

theorem after_name :
    ∃ c rest, signText zone.sign ++ (zone.hoursText ++ partsText zone.parts) = c :: rest /\
      isalpha c = false := by
  obtain ⟨d, rest, eq, digit⟩ := hoursText_head zone (partsText zone.parts)
  rw [eq]
  cases zone.sign with
  | absent => exact ⟨d, rest, rfl, not_isalpha_of_isdigit digit⟩
  | plus => exact ⟨'+', d :: rest, rfl, rfl⟩
  | minus => exact ⟨'-', d :: rest, rfl, rfl⟩

theorem ossParsePosixTz_text : ossParsePosixTz zone.text true =
      if abbrSize <= zone.name.length then .overrun
      else
        .accepted
          { stdOfs := -zone.offset, dstOfs := -zone.offset, stdAbbr := zone.name, dstAbbr := []
            dstStart := .cleared, dstEnd := .cleared } := by
  have offset := parseOffset_text zone
  have bounds := zone.offset_bounds
  obtain ⟨c, rest, eq, notAlpha⟩ := after_name zone
  have noBlank : zone.text.dropWhile isspace = zone.text := by
    unfold text
    cases split : zone.name with
    | nil => exact absurd split zone.name_ne
    | cons first name =>
      have alpha := zone.name_alpha first (by rw [split]; exact mem_cons_self)
      rw [cons_append, dropWhile_cons_of_neg]
      rw [not_isspace_of_isalpha alpha]
      exact Bool.false_ne_true
  have stops : isalpha c ≠ true := by
    rw [notAlpha]
    exact Bool.false_ne_true
  have name : zone.text.takeWhile isalpha = zone.name := by
    unfold text
    rw [eq, takeWhile_append_of_pos zone.name_alpha, takeWhile_cons_of_neg stops,
      append_nil]
  have after : zone.text.dropWhile isalpha = c :: rest := by
    unfold text
    rw [eq, dropWhile_append_of_pos zone.name_alpha, dropWhile_cons_of_neg stops]
  unfold ossParsePosixTz
  dsimp only
  rw [noBlank, name, after, if_neg zone.name_ne, <- eq, offset]
  rw [if_neg (by rw [eq]; exact (cons_ne_nil c rest).symm)]
  simp only [takeWhile_nil, if_true]
  rw [signed_of_fits (by omega) (by omega)]
  have short : ¬ abbrSize <= ([] : List Char).length := by decide
  simp only [parseRules, List.head?_nil, reduceCtorEq, if_false, ne_eq, not_true_eq_false, short,
    or_false]

theorem tzset_text (clib4 : Process) : tzset (some zone.text) clib4 =
      if abbrSize <= zone.name.length then none
      else
        some
          { clib4 with
            isTZSet := true, timezone := -zone.offset, daylight := 0
            tzname := (zone.name, []) } := by
  unfold tzset
  dsimp only
  rw [ossParsePosixTz_text]
  split_ifs with long
  · rfl
  · simp

/-! ### What `localtime_r` makes of it -/

theorem localtimeR_shows (utility : Utility) (zone : PosixZone) (clib4 : Process) {t : Int}
    (set : clib4.isTZSet) (timezone : clib4.timezone = -zone.offset)
    (lower : unixTimeOffset <= t) (upper : t < 2 ^ 31) :
    (localtimeR utility clib4 t).toDateTime.Shows (unixTimeOffset +
      unsigned 32 (t - unixTimeOffset + zone.offset + daylightSeconds clib4)) := by
  have offset : unixTimeOffset = 252460800 := rfl
  have shown := convertTime_shows utility clib4 (-zone.offset) lower
  rw [sub_neg_eq_add] at shown
  unfold localtimeR gmtOffset
  rw [set, timezone, unsigned_of_fits (by omega) (by omega)]
  exact shown

/--
After `tzset` has read a zone without daylight saving time, `localtime_r` shows UTC
less the offset exactly when the name fits and twice the offset is undone by the
hour of daylight saving time, that is for offset zero outside of it and for half an
hour east within.
-/
theorem localtime_r_posix_zone_iff (utility : Utility) (zone : PosixZone) (clib4 : Process)
    (t : Int) (lower : unixTimeOffset <= t) (upper : t < 2 ^ 31)
    (inRange : unixTimeOffset <= t - zone.offset) :
    (∃ clib4', tzset (some zone.text) clib4 = some clib4' /\
        (localtimeR utility clib4' t).toDateTime.Shows (t - zone.offset)) <->
      zone.name.length < abbrSize /\ 2 * zone.offset + daylightSeconds clib4 = 0 := by
  have offset : unixTimeOffset = 252460800 := rfl
  have bounds := zone.offset_bounds
  have hour : 0 <= daylightSeconds clib4 /\ daylightSeconds clib4 <= 3600 := by
    unfold daylightSeconds
    split_ifs <;> decide
  rw [tzset_text]
  by_cases long : abbrSize <= zone.name.length
  · rw [if_pos long]
    exact iff_of_false (by rintro ⟨_, stored, _⟩; cases stored) (fun both => not_lt.mpr long both.1)
  · rw [if_neg long]
    simp only [Option.some.injEq, exists_eq_left', not_le.mp long, true_and]
    have shown := localtimeR_shows utility zone
      { clib4 with
        isTZSet := true, timezone := -zone.offset, daylight := 0, tzname := (zone.name, []) }
      rfl rfl lower upper
    constructor
    · intro claimed
      have same := claimed.instant_eq shown
      rw [unsigned_eq_emod] at same
      change _ = unixTimeOffset + (t - unixTimeOffset + zone.offset + daylightSeconds clib4) % 2 ^ 32
        at same
      omega
    · intro undone
      have same : t - unixTimeOffset + zone.offset + daylightSeconds clib4 =
          t - zone.offset - unixTimeOffset := by omega
      change (localtimeR utility _ t).toDateTime.Shows (unixTimeOffset +
        unsigned 32 (t - unixTimeOffset + zone.offset + daylightSeconds clib4)) at shown
      rw [same, unsigned_of_fits (by omega) (by omega)] at shown
      convert shown using 1
      ring

def greenwich : PosixZone where
  name := ['U', 'T', 'C']
  sign := .absent
  hours := 0
  padded := false
  parts := none
  name_ne := by decide
  name_alpha := all_eq_true.mp rfl

theorem localtime_r_at_greenwich :
    ∃ clib4', tzset (some greenwich.text) (eastern .standard) = some clib4' /\
      (localtimeR .standard clib4' 1000000000).toDateTime.Shows (1000000000 - greenwich.offset) :=
  (localtime_r_posix_zone_iff .standard greenwich (eastern .standard) 1000000000 (by decide)
    (by decide) (by decide)).mpr (by decide)

/--
Five hours west of Greenwich `localtime_r` shows 06:46:40 where 20:46:40 of the day
before is due, and a name of sixteen letters overruns its array.
-/
theorem localtime_r_turns_west_to_east : (tzset (some "EST5".toList) (eastern .standard)).map
        (fun clib4 => (localtimeR .standard clib4 1000000000).tmHour) = some 6 /\
      (secsToTm (1000000000 - 5 * 3600)).map (·.tmHour) = some 20 /\
      tzset (some "ABCDEFGHIJKLMNOP0".toList) (eastern .standard) = none := by
  decide +kernel

end PosixZone

end Clib4.Time
