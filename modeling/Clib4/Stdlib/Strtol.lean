import Clib4.Foundation.MachineInt

namespace Clib4.Stdlib

open Foundation

/-!
# `strtol` and its siblings

`strtol.c`, `strtoul.c`, `strtoll.c` and `strtoull.c` differ in the type they
compute in and in what they return on overflow; `Kind` holds the two.  A string
is given without its `NUL`; reading past its end yields 0, and characters are
unsigned.  The sum wraps in its type: that is what the machine computes, also
where the language leaves a signed overflow undefined.
-/

def byteOf (c : Char) : UInt8 := UInt8.ofNat c.toNat

def efault : Nat := 14

def erange : Nat := 34

/-- `LONG_MIN`. -/
def minLong : Int := -2 ^ 31

/-- `LONG_MAX`. -/
def maxLong : Int := 2 ^ 31 - 1

/-- `ULONG_MAX`. -/
def maxUnsignedLong : Int := 2 ^ 32 - 1

def isspace (c : UInt8) : Bool := (9 <= c && c <= 13) || c == 32

/-- The type of the result, and the result after an overflow. -/
structure Kind where
  wrap : Int -> Int
  overflow : Bool -> Int

/-- What a call returns, the `errno` it leaves and the place it stopped at. -/
structure Conversion where
  result : Int
  errno : Nat
  stop : List UInt8

/-- `*str`. -/
def current (str : List UInt8) : UInt8 := str.headD 0

def skipBlanks : List UInt8 -> List UInt8
  | [] => []
  | c :: str => if c ≠ 0 /\ isspace c then skipBlanks str else c :: str

def readSign (str : List UInt8) : Bool × List UInt8 :=
  if current str = byteOf '-' then (true, str.tail)
  else if current str = byteOf '+' then (false, str.tail)
  else (false, str)

def readBase (base : Int) (str : List UInt8) : Int × List UInt8 :=
  let hex := (base = 0 \/ base = 16) /\ current str = byteOf '0' /\
    (current str.tail = byteOf 'x' \/ current str.tail = byteOf 'X')
  let (base, str) := if hex then (16, str.tail.tail) else (base, str)
  if base = 0 then
    if current str = byteOf '0' then (8, str) else (10, str)
  else (base, str)

def digit (c : UInt8) : Option Int :=
  if byteOf '0' <= c /\ c <= byteOf '9' then some (c.toNat - 48)
  else if byteOf 'a' <= c then some (c.toNat - (97 - 10))
  else if byteOf 'A' <= c then some (c.toNat - (65 - 10))
  else none

/-- The digit loop; `none` is the way out on overflow. -/
def convertDigits (kind : Kind) (base : Int) :
    List UInt8 -> Int -> Nat -> Option (Int × Nat × List UInt8)
  | [], sum, converted => some (sum, converted, [])
  | c :: str, sum, converted =>
    if c = 0 then some (sum, converted, c :: str)
    else
      match digit c with
      | none => some (sum, converted, c :: str)
      | some value =>
        if value >= base then some (sum, converted, c :: str)
        else
          let newSum := kind.wrap (base * sum + value)
          if newSum < sum then none
          else convertDigits kind base str newSum (converted + 1)

def finish (kind : Kind) (str : List UInt8) (negative : Bool) (errno : Nat) :
    Option (Int × Nat × List UInt8) -> Conversion
  | none => ⟨kind.overflow negative, erange, str⟩
  | some (sum, converted, stop) =>
    if converted = 0 then ⟨0, errno, str⟩
    else if negative then ⟨kind.wrap (-sum), errno, stop⟩
    else ⟨sum, errno, stop⟩

/-- The common text of the four functions; `none` is the null pointer. -/
def convert (kind : Kind) (str : Option (List UInt8)) (base : Int) (errno : Nat) : Conversion :=
  match str with
  | none => ⟨0, efault, []⟩
  | some str =>
    if base < 0 then ⟨0, erange, str⟩
    else
      let (negative, digits) := readSign (skipBlanks str)
      let (base, digits) := readBase base digits
      finish kind str negative errno
        (if 1 <= base /\ base <= 36 then convertDigits kind base digits 0 0
        else some (0, 0, digits))

def Kind.long : Kind :=
  ⟨signed 32, fun negative => if negative then minLong else maxLong⟩

def Kind.unsignedLong : Kind := ⟨unsigned 32, fun _ => maxUnsignedLong⟩

/-- The overflow values are those of `long`, although the result is not one. -/
def Kind.longLong : Kind :=
  ⟨signed 64, fun negative => if negative then minLong else maxLong⟩

/-- The overflow value is that of `unsigned long`, although the result is not one. -/
def Kind.unsignedLongLong : Kind := ⟨unsigned 64, fun _ => maxUnsignedLong⟩

def strtol (str : Option (List UInt8)) (base : Int) (errno : Nat) : Conversion :=
  convert .long str base errno

def strtoul (str : Option (List UInt8)) (base : Int) (errno : Nat) : Conversion :=
  convert .unsignedLong str base errno

def strtoll (str : Option (List UInt8)) (base : Int) (errno : Nat) : Conversion :=
  convert .longLong str base errno

def strtoull (str : Option (List UInt8)) (base : Int) (errno : Nat) : Conversion :=
  convert .unsignedLongLong str base errno

end Clib4.Stdlib
