import Clib4.Time.Strftime

namespace Clib4.Time

open Foundation
open Stdlib (byteOf)

/-!
# `strptime`

`strptime.c` over the pieces of a format that `tokens` yields.  What it returns is
the place it stopped at and the broken-down time, or `none` where it returns `NULL`
(the fields it has changed by then are of no use to anyone).  `strtol` is the one
of the library; `errno` plays no part.
-/

/-! ## Names and numbers -/

def abbWeekdays : List String := ["Sun", "Mon", "Tue", "Wed", "Thu", "Fri", "Sat"]

def fullWeekdays : List String :=
  ["Sunday", "Monday", "Tuesday", "Wednesday", "Thursday", "Friday", "Saturday"]

def abbMonth : List String :=
  ["Jan", "Feb", "Mar", "Apr", "May", "Jun", "Jul", "Aug", "Sep", "Oct", "Nov", "Dec"]

def fullMonth : List String :=
  ["January", "February", "March", "April", "May", "June", "July", "August", "September",
    "October", "November", "December"]

def ampm : List String := ["am", "pm"]

def tolower (c : UInt8) : UInt8 :=
  if byteOf 'A' <= c /\ c <= byteOf 'Z' then c + 32 else c

/-- `strncasecmp` over the length of the second string finds no difference. -/
def matchesIgnoringCase (buf str : List UInt8) : Bool :=
  (buf.take str.length).map tolower == str.map tolower

/-- `match_string`: the number of the first string that the text begins with, and
what follows it. -/
def matchString : List String -> Nat -> List UInt8 -> Option (Nat × List UInt8)
  | [], _, _ => none
  | str :: strs, i, buf =>
    if matchesIgnoringCase buf (bytesOf str) then some (i, buf.drop (bytesOf str).length)
    else matchString strs (i + 1) buf

/-- A call of `strtol` whose result is stored, unless it stopped where it began. -/
def readNumber (store : Int -> DateTime -> DateTime) (buf : List UInt8) (tm : DateTime) :
    Option (List UInt8 × DateTime) :=
  let read := Stdlib.strtol (some buf) 10 0
  if read.stop = buf then none else some (read.stop, store read.result tm)

/-- A call of `match_string` whose result is stored. -/
def readName (names : List String) (store : Int -> DateTime -> DateTime) (buf : List UInt8)
    (tm : DateTime) : Option (List UInt8 × DateTime) :=
  (matchString names 0 buf).map fun (number, buf) => (buf, store number tm)

def readChar (c : UInt8) (buf : List UInt8) (tm : DateTime) : Option (List UInt8 × DateTime) :=
  if Stdlib.current buf = c then some (buf.tail, tm) else none

/-! ## Weeks -/

def isLeapYear (year : Int) : Bool :=
  year.tmod 4 = 0 && (year.tmod 100 ≠ 0 || year.tmod 400 = 0)

/-- The loop of `first_day`.  The condition of the choice is the whole sum, so that
what is added to the day before is of no account. -/
def firstDayLoop : Nat -> Int -> Int -> Int
  | 0, _, ret => ret
  | turns + 1, year, ret =>
    firstDayLoop turns (year - 1)
      ((if ret + 365 + (if isLeapYear year then 1 else 0) ≠ 0 then 1 else 0 : Int).tmod 7)

def firstDay (year : Int) : Int := firstDayLoop (year - 1970).toNat year 4

def setWeekNumberSun (wnum : Int) (tm : DateTime) : DateTime :=
  let fday := firstDay (tm.tmYear + 1900)
  let yday := wnum * 7 + tm.tmWday - fday
  if yday < 0 then { tm with tmWday := fday, tmYday := 0 } else { tm with tmYday := yday }

def setWeekNumberMon (wnum : Int) (tm : DateTime) : DateTime :=
  let fday := (firstDay (tm.tmYear + 1900) + 6).tmod 7
  let yday := wnum * 7 + (tm.tmWday + 6).tmod 7 - fday
  if yday < 0 then { tm with tmWday := (fday + 1).tmod 7, tmYday := 0 }
  else { tm with tmYday := yday }

def setWeekNumberMon4 (wnum : Int) (tm : DateTime) : DateTime :=
  let fday := (firstDay (tm.tmYear + 1900) + 6).tmod 7
  let offset := if fday < 4 then 7 else 0
  let yday := offset + (wnum - 1) * 7 + tm.tmWday - fday
  if yday < 0 then { tm with tmWday := fday, tmYday := 0 } else { tm with tmYday := yday }

/-! ## The conversions -/

/-- What is done with the number that a conversion reads; the arithmetic with
`TM_YEAR_BASE` is unsigned. -/
def storeNumber : Directive -> Int -> DateTime -> DateTime
  | .C, ret, tm => { tm with tmYear := signed 32 (ret * 100 - 1900) }
  | .d, ret, tm | .e, ret, tm => { tm with tmMday := ret }
  | .H, ret, tm | .k, ret, tm => { tm with tmHour := ret }
  | .I, ret, tm | .l, ret, tm => { tm with tmHour := if ret = 12 then 0 else ret }
  | .j, ret, tm => { tm with tmYday := ret - 1 }
  | .m, ret, tm => { tm with tmMon := ret - 1 }
  | .M, ret, tm => { tm with tmMin := ret }
  | .S, ret, tm => { tm with tmSec := ret }
  | .u, ret, tm => { tm with tmWday := ret - 1 }
  | .w, ret, tm => { tm with tmWday := ret }
  | .U, ret, tm => setWeekNumberSun ret tm
  | .V, ret, tm => setWeekNumberMon4 ret tm
  | .W, ret, tm => setWeekNumberMon ret tm
  | .y, ret, tm => { tm with tmYear := if ret < 70 then 100 + ret else ret }
  | .Y, ret, tm => { tm with tmYear := signed 32 (ret - 1900) }
  | _, _, tm => tm

/-- What `%p` does with the half of the day: the noon is added to any hour but the
first. -/
def storeHalf (ret : Int) (tm : DateTime) : DateTime :=
  if tm.tmHour = 0 then if ret = 1 then { tm with tmHour := 12 } else tm
  else { tm with tmHour := tm.tmHour + 12 }

/-- The `default` of the switch; behind the end of the text there is nothing to
compare. -/
def readDefault (c : UInt8) (buf : List UInt8) (tm : DateTime) :
    Option (List UInt8 × DateTime) :=
  match buf with
  | [] => none
  | b :: buf =>
    if b = byteOf '%' then some (buf, tm)
    else if Stdlib.current buf = c then some (buf.tail, tm)
    else none

/-- The switch of `strptime`.  `expand` is its call of itself. -/
def parseDirective (expand : List UInt8 -> List UInt8 -> DateTime -> Option (List UInt8 × DateTime))
    (spec : Directive) (buf : List UInt8) (tm : DateTime) : Option (List UInt8 × DateTime) :=
  match spec with
  | .A => readName fullWeekdays (fun ret tm => { tm with tmWday := ret }) buf tm
  | .a => readName abbWeekdays (fun ret tm => { tm with tmWday := ret }) buf tm
  | .B => readName fullMonth (fun ret tm => { tm with tmMon := ret }) buf tm
  | .b | .h => readName abbMonth (fun ret tm => { tm with tmMon := ret }) buf tm
  | .c => expand (bytesOf "%a %b %e %H:%M:%S %Y") buf tm
  | .D => expand (bytesOf "%m/%d/%y") buf tm
  | .C | .d | .e | .H | .k | .I | .l | .j | .m | .M | .S | .u | .w | .U | .V | .W | .y | .Y =>
    readNumber (storeNumber spec) buf tm
  | .n => readChar (byteOf '\n') buf tm
  | .p => readName ampm storeHalf buf tm
  | .r => expand (bytesOf "%I:%M:%S %p") buf tm
  | .R => expand (bytesOf "%H:%M") buf tm
  | .t => readChar (byteOf '\t') buf tm
  | .T | .X => expand (bytesOf "%H:%M:%S") buf tm
  | .x => expand (bytesOf "%Y:%m:%d") buf tm
  | .Z => some (buf, tm)
  | .percent => readChar (byteOf '%') buf tm
  | .F | .g | .G | .z => readDefault spec.byte buf tm

/-- One turn of the loop of `strptime`. -/
def parseToken (expand : List UInt8 -> List UInt8 -> DateTime -> Option (List UInt8 × DateTime))
    (token : Token) (buf : List UInt8) (tm : DateTime) : Option (List UInt8 × DateTime) :=
  match token with
  | .literal c => if Stdlib.isspace c then some (buf.dropWhile Stdlib.isspace, tm) else readChar c buf tm
  | .conversion c =>
    match Directive.ofByte c with
    | some spec => parseDirective expand spec buf tm
    | none => readDefault c buf tm
  | .bare => readChar (byteOf '%') buf tm

/-- The loop of `strptime`. -/
def parseTokens (expand : List UInt8 -> List UInt8 -> DateTime -> Option (List UInt8 × DateTime)) :
    List Token -> List UInt8 -> DateTime -> Option (List UInt8 × DateTime)
  | [], buf, tm => some (buf, tm)
  | token :: tokens, buf, tm =>
    (parseToken expand token buf tm).bind fun (buf, tm) => parseTokens expand tokens buf tm

/-- `strptime`, with the depth to which it may call itself. -/
def parseDate : Nat -> List UInt8 -> List UInt8 -> DateTime -> Option (List UInt8 × DateTime)
  | 0, _, _, _ => none
  | depth + 1, fmt, buf, tm => parseTokens (parseDate depth) (tokens fmt) buf tm

/-- `strptime`; what it expands has no conversions that are expanded. -/
def strptime (buf fmt : List UInt8) (tm : DateTime) : Option (List UInt8 × DateTime) :=
  parseDate 2 fmt buf tm

end Clib4.Time
