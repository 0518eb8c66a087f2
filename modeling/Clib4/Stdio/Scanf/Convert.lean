import Clib4.Foundation.CharStream
import Clib4.Stdio.Scanf.Format

namespace Clib4.Stdio.Scanf

open Foundation Stdlib

/-!
# The conversions of `scanf`

`vfscanf.c`, the branches of its loop, over any stream.  A branch that goes on
with the next directive returns the scan; `break` and `goto out` end it.  What is
stored through the parameters is recorded in order, each parameter by its number.
The arithmetic of `long double` and `double` is given, and so is the decimal
point of the locale.
-/

/-- The arithmetic the floating point branch computes with. -/
structure Platform where
  LongDouble : Type
  Double : Type
  zero : LongDouble
  infinity : LongDouble
  nan : LongDouble
  hugeVal : LongDouble
  /-- `(radix * sum) + digit`. -/
  shiftIn : Nat -> LongDouble -> Nat -> LongDouble
  less : LongDouble -> LongDouble -> Bool
  atLeast : LongDouble -> LongDouble -> Bool
  negate : LongDouble -> LongDouble
  /-- `1.0 / radix`. -/
  reciprocal : Nat -> Double
  isZero : Double -> Bool
  /-- `sum + digit * multiplier`. -/
  addFraction : LongDouble -> Nat -> Double -> LongDouble
  /-- `multiplier / radix`. -/
  nextPlace : Double -> Nat -> Double
  pow : Nat -> Int -> Double
  divide : LongDouble -> Double -> LongDouble
  multiply : LongDouble -> Double -> LongDouble
  /-- The first character of `loc_DecimalPoint`, where a locale is set. -/
  decimalPoint : Option UInt8

/-- What is stored: a character, an integer of so many bits, or a number. -/
inductive Stored (ρ : Type)
  | byte (c : UInt8)
  | integer (bits : Nat) (value : Int)
  | real (size : ParameterSize) (value : ρ)

/-- A store through a parameter. -/
structure Store (ρ : Type) where
  param : Nat
  offset : Nat
  stored : Stored ρ

/-- The variables of `vfscanf` that live across directives.  The counter of
characters is an `int`; where it is stored, it is taken modulo its size. -/
structure Scan (σ ρ : Type) where
  stream : σ
  totalNumCharsRead : Int
  numConversions : Nat
  numAssignments : Nat
  params : Nat
  stores : List (Store ρ)

/-- The end of a scan: `break`, after which the number of assignments is returned,
`goto out`, after which `EOF` is, or none within the steps given. -/
inductive Halt (σ ρ : Type)
  | stop (scan : Scan σ ρ)
  | out (scan : Scan σ ρ)
  | unfinished

/-- The variables of one directive. -/
structure Field (σ ρ : Type) where
  scan : Scan σ ρ
  width : Int
  processed : Nat

section Fields

variable {σ ρ α : Type} [CharStream σ UInt8]

/-- The end of the stream before the first conversion is an input failure. -/
def Scan.endOfFile (scan : Scan σ ρ) : Halt σ ρ :=
  if scan.numConversions = 0 then .out scan else .stop scan

def Scan.takeParameter (scan : Scan σ ρ) (suppressed : Bool) : Scan σ ρ :=
  if suppressed then scan else { scan with params := scan.params + 1 }

def Scan.store (scan : Scan σ ρ) (suppressed : Bool) (stores : List (Store ρ)) : Scan σ ρ :=
  if suppressed then scan else { scan with stores := scan.stores ++ stores }

def Scan.succeed (scan : Scan σ ρ) (suppressed : Bool) : Scan σ ρ :=
  { scan with
    numAssignments := if suppressed then scan.numAssignments else scan.numAssignments + 1
    numConversions := scan.numConversions + 1 }

def Field.behind (field : Field σ ρ) (got : Reading σ UInt8 α) : Field σ ρ :=
  { field with
    scan := { field.scan with
      stream := got.stream
      totalNumCharsRead := field.scan.totalNumCharsRead + got.count }
    width := got.width }

def Field.process (field : Field σ ρ) (count : Nat) : Field σ ρ :=
  { field with processed := field.processed + count }

def Field.settle (field : Field σ ρ) (got : Reading σ UInt8 α) :
    Except (Halt σ ρ) (Reading σ UInt8 α × Field σ ρ) :=
  match got.ending with
  | .lost => .error (.out field.scan)
  | .unfinished => .error .unfinished
  | _ => .ok (got, field)

def Field.look (field : Field σ ρ) (test : α -> UInt8 -> Verdict α) (value : α) :
    Except (Halt σ ρ) (Reading σ UInt8 α × Field σ ρ) :=
  let got := readOne test field.width value field.scan.stream
  (field.behind got).settle got

def Field.read (field : Field σ ρ) (fuel : Nat) (test : α -> UInt8 -> Verdict α) (value : α) :
    Except (Halt σ ρ) (Reading σ UInt8 α × Field σ ρ) :=
  let got := readWhile test fuel field.width value field.scan.stream
  (field.behind got).settle got

def Field.collect (field : Field σ ρ) (fuel : Nat) (test : UInt8 -> Bool) (suppressed : Bool)
    (stores : List UInt8 -> List (Store ρ)) :
    Except (Halt σ ρ) (Reading σ UInt8 (List UInt8) × Field σ ρ) :=
  let got := readWhile (collecting test) fuel field.width [] field.scan.stream
  let field := (field.behind got).process got.count
  { field with scan := field.scan.store suppressed (stores got.value) }.settle got

def Field.inputFailure (field : Field σ ρ) (got : Reading σ UInt8 α) : Prop :=
  got.ending = .ended /\ field.processed = 0 /\ field.scan.numConversions = 0

instance (field : Field σ ρ) (got : Reading σ UInt8 α) :
    Decidable (field.inputFailure got) := inferInstanceAs (Decidable (_ /\ _ /\ _))

def Scan.field (scan : Scan σ ρ) (width : Int) : Field σ ρ := ⟨scan, width, 0⟩

/-! ## White space and ordinary characters -/

/-- Skip white space; the character behind it, or none at the end of the stream. -/
def skipSpace (fuel : Nat) (scan : Scan σ ρ) :
    Except (Halt σ ρ) (Option UInt8 × Scan σ ρ) := do
  let (got, field) <- (scan.field (-1)).read fuel (having isspace) ()
  return (got.refused, field.scan)

def matchSpace (fuel : Nat) (scan : Scan σ ρ) : Except (Halt σ ρ) (Scan σ ρ) := do
  let (c, scan) <- skipSpace fuel scan
  if c = none then throw scan.endOfFile
  return scan

def matchCharacter (c : UInt8) (scan : Scan σ ρ) : Except (Halt σ ρ) (Scan σ ρ) := do
  let (got, field) <- (scan.field (-1)).look (having fun d => c == d) ()
  match got.ending with
  | .ended => throw field.scan.endOfFile
  | .refused => throw (.stop field.scan)
  | _ => return field.scan

/-! ## Characters and strings -/

def byteStores (param : Nat) (text : List UInt8) : List (Store ρ) :=
  text.mapIdx fun offset c => ⟨param, offset, .byte c⟩

def stringStores (param : Nat) (text : List UInt8) : List (Store ρ) :=
  ⟨param, 0, .byte 0⟩ ::
    (text.mapIdx fun offset c =>
      [⟨param, offset, .byte c⟩, ⟨param, offset + 1, .byte 0⟩]).flatten

/-- `%c`. -/
def convertCharacters (fuel : Nat) (spec : Directive) (scan : Scan σ ρ) :
    Except (Halt σ ρ) (Scan σ ρ) := do
  let width := if spec.width < 0 then 1 else spec.width
  let field := (scan.takeParameter spec.suppressed).field width
  let (got, field) <- field.collect fuel (fun _ => true) spec.suppressed
    (byteStores scan.params)
  if got.ending = .ended then throw field.scan.endOfFile
  return field.scan.succeed spec.suppressed

/-- `%s`. -/
def convertString (fuel : Nat) (spec : Directive) (scan : Scan σ ρ) :
    Except (Halt σ ρ) (Scan σ ρ) := do
  let field := (scan.takeParameter spec.suppressed).field spec.width
  let (got, field) <- field.collect fuel (fun c => !isspace c) spec.suppressed
    (stringStores scan.params)
  if field.inputFailure got then throw (.out field.scan)
  return field.scan.succeed spec.suppressed

/-- `%[`, with the set that the format goes on with. -/
def convertScanset (fuel : Nat) (spec : Directive) (format : List UInt8) (scan : Scan σ ρ) :
    Except (Halt σ ρ) (List UInt8 × Scan σ ρ) := do
  let field := (scan.takeParameter spec.suppressed).field spec.width
  let (set, format) := parseScanset format
  let (got, field) <- field.collect fuel set spec.suppressed
    (stringStores scan.params)
  if field.inputFailure got then throw (.out field.scan)
  if field.processed > 0 then return (format, field.scan.succeed spec.suppressed)
  return (format, field.scan)

/-! ## Integers -/

def ParameterSize.bits : ParameterSize -> Nat
  | .short => 16
  | .byte => 8
  | .longLong | .intmaxT => 64
  | _ => 32

def integerStores (param : Nat) (size : ParameterSize) (value : Int) : List (Store ρ) :=
  [⟨param, 0, .integer size.bits (signed size.bits value)⟩]

/-- `%n`. -/
def storeCount (spec : Directive) (scan : Scan σ ρ) : Scan σ ρ :=
  let param := scan.params
  (scan.takeParameter spec.suppressed).store spec.suppressed
    (integerStores param spec.size (signed 32 scan.totalNumCharsRead))

/-- What an integer begins with. -/
inductive Opening
  | nothing | plus | minus | zero
  deriving DecidableEq, Repr

def openingOf (_ : Opening) (c : UInt8) : Verdict Opening :=
  if c = byteOf '-' then .take .minus
  else if c = byteOf '+' then .take .plus
  else if c = byteOf '0' then .take .zero
  else .refuse

/-- The base of the conversion; that of `%i` and `%x` is not known yet. -/
def radixOf : ConversionType -> Nat
  | .d | .u => 10
  | .o => 8
  | _ => 0

def isHexMark (c : UInt8) : Bool := c == byteOf 'x' || c == byteOf 'X'

/-- The sign, or a leading zero, which may begin the prefix `0x` or an octal
number; then it does not count as a digit. -/
def readOpening (conversion : ConversionType) (field : Field σ ρ) :
    Except (Halt σ ρ) (Bool × Nat × Field σ ρ) := do
  let radix := radixOf conversion
  let (first, field) <- field.look openingOf .nothing
  if first.value = .zero then
    if radix = 0 /\ field.width ≠ 0 then
      let (second, field) <- field.look (having isHexMark) ()
      if second.ending = .taken then return (false, 16, field)
      if conversion = .i /\ second.refused.any isDecimal then return (false, 8, field)
      return (false, radix, field.process 1)
    return (false, radix, field.process 1)
  return (first.value = .minus, radix, field)

/-- The number a character stands for; other characters stand for the base. -/
def digitIn (radix : Nat) (c : UInt8) : Nat :=
  if byteOf '0' <= c /\ c <= byteOf '9' then c.toNat - 48
  else if byteOf 'a' <= c /\ c <= byteOf 'f' then c.toNat - 97 + 10
  else if byteOf 'A' <= c /\ c <= byteOf 'F' then c.toNat - 65 + 10
  else radix

def ParameterSize.overflowBits : ParameterSize -> Nat
  | .longLong | .intmaxT => 64
  | _ => 32

/-- The next digit.  The sum is a `long long`. -/
def nextDigit (radix : Nat) (size : ParameterSize) (sum : Int) (c : UInt8) : Verdict Int :=
  if digitIn radix c >= radix then .refuse
  else
    let nextSum := signed 64 (radix * sum + digitIn radix c)
    if unsigned size.overflowBits nextSum < unsigned size.overflowBits sum then .refuse
    else .take nextSum

/-- `%d`, `%i`, `%o`, `%u`, `%x` and `%p`.  The parameter is set to zero first. -/
def convertInteger (fuel : Nat) (spec : Directive) (scan : Scan σ ρ) :
    Except (Halt σ ρ) (Scan σ ρ) := do
  let param := scan.params
  let scan := (scan.takeParameter spec.suppressed).store spec.suppressed
    (integerStores param spec.size 0)
  let (negative, radix, field) <- readOpening spec.conversion (scan.field spec.width)
  let radix := if radix = 0 then (if spec.conversion = .x then 16 else 10) else radix
  let (got, field) <- field.read fuel (nextDigit radix spec.size) 0
  let field := field.process got.count
  if field.inputFailure got then throw (.out field.scan)
  if field.processed > 0 then
    let sum := if negative then signed 64 (-got.value) else got.value
    return (field.scan.store spec.suppressed
      (integerStores param spec.size sum)).succeed spec.suppressed
  return field.scan

end Fields

/-! ## Numbers -/

section Reals

variable (host : Platform) {σ : Type} [CharStream σ UInt8]

/-- A sign; a minus is `true`. -/
def signOf (_ : Bool) (c : UInt8) : Verdict Bool :=
  if c = byteOf '-' then .take true
  else if c = byteOf '+' then .take false
  else .refuse

def tolower (c : UInt8) : UInt8 :=
  if byteOf 'A' <= c /\ c <= byteOf 'Z' then c + 32 else c

def infinityString : List UInt8 := "infinity".toList.map byteOf
def nanString : List UInt8 := "nan".toList.map byteOf

/-- `sizeof(chars_read_so_far)`. -/
def keywordRoom : Nat := 80

/-- What a character means to the search for a keyword: the next one of
`infinity`, one behind `inf`, the next one of `nan`, or none of them. -/
inductive KeywordStep
  | infinity | inf | nan | mismatch
  deriving DecidableEq, Repr

def keywordStep (infinityMatch nanMatch : Nat) (c : UInt8) : KeywordStep :=
  if infinityString[infinityMatch]? = some (tolower c) then .infinity
  else if infinityMatch = 3 then .inf
  else if nanString[nanMatch]? = some (tolower c) then .nan
  else .mismatch

/-- The characters read in search of a keyword, the last one first, and how many
of them match. -/
structure Keyword (σ ρ : Type) where
  field : Field σ ρ
  characters : List UInt8
  infinityMatch : Nat
  nanMatch : Nat

def Field.onto {σ ρ : Type} (field : Field σ ρ) (width : Int) (stream : σ) : Field σ ρ :=
  { field with scan := { field.scan with stream := stream }, width := width }

def untilParenthesis (_ : Unit) (c : UInt8) : Verdict Unit :=
  if c = byteOf ')' then .last () else .take ()

variable {ρ : Type}

/-- What follows `nan`: characters in parentheses count as a part of it. -/
def readParenthesis (fuel : Nat) (state : Keyword σ ρ) : Except (Halt σ ρ) (Keyword σ ρ) :=
  let field := state.field
  let first := readOne (having fun c => c == byteOf '(') field.width () field.scan.stream
  match first.ending with
  | .lost => .error (.out (field.onto first.width first.stream).scan)
  | .taken =>
    let rest := readWhile untilParenthesis fuel first.width () first.stream
    if rest.ending = .unfinished then .error .unfinished
    else .ok { state with
      field := field.onto rest.width rest.stream
      nanMatch := state.nanMatch + 1 + rest.count }
  | _ => .ok { state with field := field.onto first.width first.stream }

/-- The search for `inf`, `infinity` or `nan`.  Where it fails the characters read
so far are put back as far as the stream takes them, and the width is made larger
by their number, also where it is no limit. -/
def searchKeyword (fuel : Nat) : Nat -> Keyword σ ρ -> Except (Halt σ ρ) (Keyword σ ρ)
  | 0, state => .ok state
  | room + 1, state =>
    let field := state.field
    if field.width = 0 then .ok state
    else
      match CharStream.getc field.scan.stream with
      | (none, stream) => .ok { state with field := field.onto field.width stream }
      | (some c, stream) =>
        match keywordStep state.infinityMatch state.nanMatch c with
        | .infinity =>
          let next : Keyword σ ρ := ⟨field.onto (narrow field.width) stream,
            c :: state.characters, state.infinityMatch + 1, 0⟩
          if next.infinityMatch = infinityString.length then .ok next
          else searchKeyword fuel room next
        | .inf =>
          match CharStream.ungetc c stream with
          | (true, stream) => .ok { state with
              field := field.onto field.width stream
              nanMatch := 0 }
          | (false, stream) => .error (.out (field.onto field.width stream).scan)
        | .nan =>
          let next : Keyword σ ρ := ⟨field.onto (narrow field.width) stream,
            c :: state.characters, 0, state.nanMatch + 1⟩
          if next.nanMatch = nanString.length then
            if room = 0 then .ok next else readParenthesis fuel next
          else searchKeyword fuel room next
        | .mismatch =>
          match CharStream.ungetc c stream with
          | (true, stream) => .ok ⟨field.onto (field.width + state.characters.length)
              (putBack state.characters stream).2, [], 0, 0⟩
          | (false, stream) => .error (.out (field.onto field.width stream).scan)

/-- A keyword sets the counters to the number of its characters. -/
def Field.keyword (field : Field σ ρ) (count : Nat) : Field σ ρ :=
  { field with
    scan := { field.scan with totalNumCharsRead := count }
    processed := count }

def readKeyword (fuel : Nat) (field : Field σ host.LongDouble) :
    Except (Halt σ host.LongDouble)
      (host.LongDouble × Field σ host.LongDouble) := do
  let state <- searchKeyword fuel keywordRoom ⟨field, [], 0, 0⟩
  if state.infinityMatch >= 3 then
    return (host.infinity, state.field.keyword state.infinityMatch)
  if state.nanMatch >= 3 then return (host.nan, state.field.keyword state.nanMatch)
  return (host.zero, state.field)

/-- The prefix `0x`; the zero alone is a digit. -/
def readRadix (field : Field σ ρ) : Except (Halt σ ρ) (Nat × Field σ ρ) := do
  let (zero, field) <- field.look (having fun c => c == byteOf '0') ()
  if zero.ending = .taken then
    let (mark, field) <- (field.process 1).look (having fun c => tolower c == byteOf 'x') ()
    if mark.ending = .taken then return (16, field.process 1)
    return (10, field)
  return (10, field)

def wholeDigit (radix : Nat) (sum : host.LongDouble) (c : UInt8) :
    Verdict host.LongDouble :=
  if digitIn radix c < radix then
    let newSum := host.shiftIn radix sum (digitIn radix c)
    if host.less newSum sum then .refuse else .take newSum
  else .refuse

def isExponentMark (radix : Nat) (c : UInt8) : Bool :=
  (radix == 10 && (c == byteOf 'e' || c == byteOf 'E')) ||
    (radix == 16 && (c == byteOf 'p' || c == byteOf 'P'))

/-- What follows the digits in front of the decimal point. -/
inductive Mark
  | none | point | exponent
  deriving DecidableEq, Repr

def markOf (radix : Nat) (_ : Mark) (c : UInt8) : Verdict Mark :=
  if host.decimalPoint = some c \/ c = byteOf '.' then .take .point
  else if isExponentMark radix c then .take .exponent
  else .refuse

/-- The sum, the value of the next place and whether an exponent follows. -/
structure Fraction where
  sum : host.LongDouble
  multiplier : host.Double
  haveExponent : Bool

def fractionDigit (radix : Nat) (fraction : Fraction host) (c : UInt8) :
    Verdict (Fraction host) :=
  if digitIn radix c < radix then
    if host.isZero fraction.multiplier then .take fraction
    else
      let newSum := host.addFraction fraction.sum (digitIn radix c) fraction.multiplier
      if host.less newSum fraction.sum then .refuse
      else .take { fraction with
        sum := newSum
        multiplier := host.nextPlace fraction.multiplier radix }
  else if isExponentMark radix c then .last { fraction with haveExponent := true }
  else .refuse

/-- A digit of the exponent, an `int`. -/
def exponentDigit (radix : Nat) (exponent : Int) (c : UInt8) : Verdict Int :=
  let digit := if isDecimal c then c.toNat - 48 else radix
  if digit < radix then
    let newExponent := signed 32 (radix * exponent + digit)
    if newExponent < exponent then .refuse else .take newExponent
  else .refuse

def scale (sum : host.LongDouble) (radix : Nat) (negative : Bool) (exponent : Int) :
    host.LongDouble :=
  if exponent = 0 then sum
  else if negative then
    if host.isZero (host.pow radix exponent) then sum
    else host.divide sum (host.pow radix exponent)
  else
    let newSum := host.multiply sum (host.pow radix exponent)
    if host.atLeast newSum sum then newSum else host.hugeVal

def readFraction (fuel : Nat) (radix : Nat) (sum : host.LongDouble)
    (field : Field σ ρ) : Except (Halt σ ρ) (Fraction host × Field σ ρ) := do
  let (got, field) <- (field.process 1).read fuel (fractionDigit host radix)
    ⟨sum, host.reciprocal radix, false⟩
  return (got.value, field.process got.count)

def readExponent (fuel : Nat) (radix : Nat) (sum : host.LongDouble) (field : Field σ ρ) :
    Except (Halt σ ρ) (host.LongDouble × Field σ ρ) := do
  let (sign, field) <- field.look signOf false
  if sign.ending = .full \/ sign.ending = .ended then return (sum, field)
  let (got, field) <- (field.process sign.count).read fuel
    (exponentDigit (if radix = 16 then 2 else 10)) 0
  return (scale host sum radix sign.value got.value, field.process got.count)

def readNumber (fuel : Nat) (field : Field σ ρ) (sum : host.LongDouble) :
    Except (Halt σ ρ) (host.LongDouble × Field σ ρ) := do
  let (radix, field) <- readRadix field
  let (whole, field) <- field.read fuel (wholeDigit host radix) sum
  let field := field.process whole.count
  if field.inputFailure whole then throw (.out field.scan)
  let (mark, field) <- field.look (markOf host radix) .none
  match mark.value with
  | .none => return (whole.value, field)
  | .point =>
    let (fraction, field) <- readFraction host fuel radix whole.value field
    if fraction.haveExponent then readExponent host fuel radix fraction.sum field
    else return (fraction.sum, field)
  | .exponent => readExponent host fuel radix whole.value field

def realStores (param : Nat) (size : ParameterSize) (value : ρ) : List (Store ρ) :=
  [⟨param, 0, .real size value⟩]

def readReal (fuel : Nat) (field : Field σ host.LongDouble) :
    Except (Halt σ host.LongDouble)
      (host.LongDouble × Field σ host.LongDouble) := do
  let (sum, field) <- readKeyword host fuel field
  if field.processed = 0 then readNumber host fuel field sum else return (sum, field)

def storeReal (spec : Directive) (param : Nat) (negative : Bool)
    (sum : host.LongDouble) (field : Field σ host.LongDouble) :
    Scan σ host.LongDouble :=
  if field.processed > 0 then
    (field.scan.store spec.suppressed (realStores param spec.size
      (if negative then host.negate sum else sum))).succeed spec.suppressed
  else field.scan

/-- `%f` and its siblings.  The parameter is set to zero first. -/
def convertReal (fuel : Nat) (spec : Directive) (scan : Scan σ host.LongDouble) :
    Except (Halt σ host.LongDouble) (Scan σ host.LongDouble) := do
  let param := scan.params
  let scan := (scan.takeParameter spec.suppressed).store spec.suppressed
    (realStores param spec.size host.zero)
  let (sign, field) <- (scan.field spec.width).look signOf false
  let (sum, field) <- readReal host fuel field
  return storeReal host spec param sign.value sum field

end Reals

end Clib4.Stdio.Scanf
