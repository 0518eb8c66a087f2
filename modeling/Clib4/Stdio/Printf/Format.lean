import Clib4.Stdio.Position

namespace Clib4.Stdio.Printf

/-!
# Reading a format

The part of `printf_core` that reads one conversion: position, flags, width,
precision and the state machine over length modifiers (the table comes from
`wchar_wprintf_core.h`).  A format is given without its `NUL`; reading past
its end yields 0, as the `NUL` does.

Every caller passes an output to `printf_core`, so the pass without one, in
which it would collect the types of positional arguments, is never made and
is not modelled: `nlArg` is what the arrays of the caller hold.
-/

def ch (c : Char) : UInt8 :=
  UInt8.ofNat c.toNat

/-- `s[index]` of a string. -/
def byteAt (s : List UInt8) (idx : Nat) : UInt8 :=
  s.getD idx 0

def isDigit (c : UInt8) : Bool :=
  ch '0' <= c && c <= ch '9'

/-- `INT_MAX`; an `int` is as wide as a `long`. -/
def intMax : Int := longMax

/-- The ways out of `printf_core`: the end of the format, its labels `inval`
and `overflow`, a wide character that cannot be converted, and what the
language leaves undefined (an argument that is missing or of another kind, a
write through `NULL` or behind the end of `buf`). -/
inductive Stop
  | returned (count : Int)
  | inval
  | overflow
  | unconvertible
  | undefined
  deriving DecidableEq, Repr

/-- The modifier flags `#`, `0`, `-`, blank, `+` and the apostrophe. -/
structure Flags where
  altForm : Bool := false
  zeroPad : Bool := false
  leftAdj : Bool := false
  padPos : Bool := false
  markPos : Bool := false
  grouped : Bool := false
  deriving DecidableEq, Repr

/-- Set the flag `c` stands for, if it stands for one. -/
def flagOf (c : UInt8) (fl : Flags) : Option Flags :=
  if c = ch '#' then some { fl with altForm := true }
  else if c = ch '0' then some { fl with zeroPad := true }
  else if c = ch '-' then some { fl with leftAdj := true }
  else if c = ch ' ' then some { fl with padPos := true }
  else if c = ch '+' then some { fl with markPos := true }
  else if c = 39 then some { fl with grouped := true }
  else none

def readFlags : List UInt8 -> Flags -> Flags × List UInt8
  | [], fl => (fl, [])
  | c :: rest, fl =>
    match flagOf c fl with
    | some fl => readFlags rest fl
    | none => (fl, c :: rest)

/-- The loop of `getint`. -/
def getintFrom (i : Int) : List UInt8 -> Int × List UInt8
  | [] => (i, [])
  | c :: rest =>
    if isDigit c then
      let digit : Int := c.toNat - 48
      if intMax / 10 < i % 2 ^ 32 \/ intMax - 10 * i < digit then getintFrom (-1) rest
      else getintFrom (10 * i + digit) rest
    else (i, c :: rest)

/-- `getint`: -1 for a number that is not an `int`. -/
def getint (s : List UInt8) : Int × List UInt8 :=
  getintFrom 0 s

/-! ## Arguments -/

/-- What an argument may point to. -/
inductive Pointer
  | null
  | text (addr : Nat) (s : List UInt8)
  | wide (addr : Nat) (ws : List Nat)
  | cell (addr : Nat)
  deriving DecidableEq, Repr

/-- The address as a `uintptr_t`. -/
def Pointer.addr : Pointer -> Nat
  | .null => 0
  | .text addr _ | .wide addr _ | .cell addr => addr % 2 ^ 32

/-- An argument as the caller passes it: 32 bits, 64 bits, a floating point
number or a pointer. -/
inductive VaArg (φ : Type)
  | word (value : Int)
  | wide (value : Int)
  | real (value : φ)
  | pointer (p : Pointer)

/-- `union arg`.  Each member is read only after it was the one written, or
while the union is still all zero. -/
structure Arg (φ : Type) where
  i : Nat
  f : φ
  p : Pointer

/-- The argument types of the state machine. -/
inductive ArgType
  | ptr | int | uint | ullong | long | ulong | short | ushort | char | uchar
  | llong | sizet | imax | umax | pdiff | uiptr | dbl | ldbl | noarg
  deriving DecidableEq, Repr

/-- The states that stand for a length modifier read so far. -/
inductive LengthState
  | bare | lpre | llpre | hpre | hhpre | biglpre | ztpre | jpre
  deriving DecidableEq, Repr

/-- Types of the integer conversions `d i` and `o u x X` in a state. -/
def LengthState.integerTypes : LengthState -> Option (ArgType × ArgType)
  | .bare => some (.int, .uint)
  | .lpre => some (.long, .ulong)
  | .llpre => some (.llong, .ullong)
  | .hpre => some (.short, .ushort)
  | .hhpre => some (.char, .uchar)
  | .biglpre => none
  | .ztpre => some (.pdiff, .sizet)
  | .jpre => some (.imax, .umax)

def LengthState.realType : LengthState -> Option ArgType
  | .bare | .lpre => some .dbl
  | .biglpre => some .ldbl
  | _ => none

/-- The table `states`; no entry is its 0. -/
def states (st : LengthState) (c : UInt8) : Option (LengthState ⊕ ArgType) :=
  match Char.ofNat c.toNat with
  | 'd' | 'i' => st.integerTypes.map fun types => .inr types.1
  | 'o' | 'u' | 'x' | 'X' => st.integerTypes.map fun types => .inr types.2
  | 'e' | 'f' | 'g' | 'a' | 'E' | 'F' | 'G' | 'A' => st.realType.map .inr
  | 'n' => some (.inr .ptr)
  | 'c' =>
    match st with
    | .bare => some (.inr .char)
    | .lpre => some (.inr .int)
    | _ => none
  | 's' => if st = .bare \/ st = .lpre then some (.inr .ptr) else none
  | 'C' | 'b' => if st = .bare then some (.inr .int) else none
  | 'S' => if st = .bare then some (.inr .ptr) else none
  | 'p' => if st = .bare then some (.inr .uiptr) else none
  | 'm' => if st = .bare then some (.inr .noarg) else none
  | 'l' =>
    match st with
    | .bare => some (.inl .lpre)
    | .lpre => some (.inl .llpre)
    | _ => none
  | 'h' =>
    match st with
    | .bare => some (.inl .hpre)
    | .hpre => some (.inl .hhpre)
    | _ => none
  | 'L' => if st = .bare then some (.inl .biglpre) else none
  | 'z' | 't' => if st = .bare then some (.inl .ztpre) else none
  | 'j' => if st = .bare then some (.inl .jpre) else none
  | _ => none

/-- The format specifier state machine: the type, the state it was found in,
the conversion character, and the rest of the format. -/
def readType : LengthState -> List UInt8 ->
    Except Stop (ArgType × LengthState × UInt8 × List UInt8)
  | _, [] => .error .inval
  | st, c :: rest =>
    if c < ch 'A' \/ ch 'z' < c then .error .inval
    else
      match states st c with
      | none => .error .inval
      | some (.inl st) => readType st rest
      | some (.inr type) => .ok (type, st, c, rest)

section Arguments

variable {φ : Type} (zero : φ)

/-- `arg->i = value`, converted to `uintmax_t`. -/
def Arg.ofInt (value : Int) : Arg φ :=
  { i := (value % 2 ^ 64).toNat, f := zero, p := .null }

/-- `va_arg(*ap, int)`. -/
def popInt : List (VaArg φ) -> Option (Int × List (VaArg φ))
  | .word value :: ap => some (toLong value, ap)
  | _ => none

def popArg (type : ArgType) : List (VaArg φ) -> Option (Arg φ × List (VaArg φ))
  | .word value :: ap =>
    match type with
    | .int | .long | .pdiff => some (Arg.ofInt zero (toLong value), ap)
    | .uint | .ulong | .sizet => some (Arg.ofInt zero (value % 2 ^ 32), ap)
    | .short => some (Arg.ofInt zero (value.bmod (2 ^ 16)), ap)
    | .ushort => some (Arg.ofInt zero (value % 2 ^ 16), ap)
    | .char => some (Arg.ofInt zero (value.bmod (2 ^ 8)), ap)
    | .uchar => some (Arg.ofInt zero (value % 2 ^ 8), ap)
    | _ => none
  | .wide value :: ap =>
    match type with
    | .llong | .ullong | .imax | .umax => some (Arg.ofInt zero value, ap)
    | _ => none
  | .real value :: ap =>
    match type with
    | .dbl | .ldbl => some ({ i := 0, f := value, p := .null }, ap)
    | _ => none
  | .pointer p :: ap =>
    match type with
    | .ptr => some ({ i := 0, f := zero, p := p }, ap)
    | .uiptr => some (Arg.ofInt zero p.addr, ap)
    | _ => none
  | [] => none

end Arguments

/-! ## Width and precision -/

/-- Where `printf_core` stands: the rest of the format, whether a position was
given so far, and the arguments not taken yet. -/
structure Reader (φ : Type) where
  s : List UInt8
  l10n : Bool
  ap : List (VaArg φ)

section Fields

variable {φ : Type}

/-- Whether a digit and `$` stand at `index`. -/
def positionAt (s : List UInt8) (idx : Nat) : Bool :=
  isDigit (byteAt s idx) && byteAt s (idx + 1) = ch '$'

def digitAt (s : List UInt8) (idx : Nat) : Nat :=
  (byteAt s idx).toNat - 48

/-- A negative width is the flag `-` and its negation. -/
def adjustWidth (w : Int) (fl : Flags) : Int × Flags :=
  if w < 0 then (toLong (-w), { fl with leftAdj := true }) else (w, fl)

def readWidth (nlArg : Nat -> Arg φ) (fl : Flags) (reader : Reader φ) :
    Except Stop ((Int × Flags) × Reader φ) :=
  if byteAt reader.s 0 = ch '*' then
    if positionAt reader.s 1 then
      .ok (adjustWidth (toLong (nlArg (digitAt reader.s 1)).i) fl,
        { reader with s := reader.s.drop 3, l10n := true })
    else if !reader.l10n then
      match popInt reader.ap with
      | none => .error .undefined
      | some (w, ap) => .ok (adjustWidth w fl, { reader with s := reader.s.drop 1, ap := ap })
    else .error .inval
  else
    let (w, s) := getint reader.s
    if w < 0 then .error .overflow else .ok ((w, fl), { reader with s := s })

/-- Read precision: `p`, `xp` and what is left. -/
def readPrecision (nlArg : Nat -> Arg φ) (reader : Reader φ) :
    Except Stop ((Int × Bool) × Reader φ) :=
  if byteAt reader.s 0 = ch '.' /\ byteAt reader.s 1 = ch '*' then
    if positionAt reader.s 2 then
      let p := toLong (nlArg (digitAt reader.s 2)).i
      .ok ((p, decide (0 <= p)), { reader with s := reader.s.drop 4 })
    else if !reader.l10n then
      match popInt reader.ap with
      | none => .error .undefined
      | some (p, ap) => .ok ((p, decide (0 <= p)), { reader with s := reader.s.drop 2, ap := ap })
    else .error .inval
  else if byteAt reader.s 0 = ch '.' then
    let (p, s) := getint (reader.s.drop 1)
    .ok ((p, true), { reader with s := s })
  else .ok ((-1, false), reader)

/-- A conversion that was read, with its argument. -/
structure Conversion (φ : Type) where
  fl : Flags
  w : Int
  p : Int
  xp : Bool
  ps : LengthState
  t : UInt8
  arg : Arg φ

def fetchArg (zero : φ) (nlArg : Nat -> Arg φ) (argpos : Option Nat) (type : ArgType)
    (ap : List (VaArg φ)) : Except Stop (Arg φ × List (VaArg φ)) :=
  if type = .noarg then
    if argpos.isSome then .error .inval else .ok (Arg.ofInt zero 0, ap)
  else
    match argpos with
    | some argpos => .ok (nlArg argpos, ap)
    | none =>
      match popArg zero type ap with
      | none => .error .undefined
      | some (arg, ap) => .ok (arg, ap)

/-- From the `%` of a conversion to its last character. -/
def readConversion (zero : φ) (nlArg : Nat -> Arg φ) (reader : Reader φ) :
    Except Stop (Conversion φ × Reader φ) := do
  let positional := positionAt reader.s 1
  let argpos := if positional then some (digitAt reader.s 1) else none
  let reader := { reader with
    s := reader.s.drop (if positional then 3 else 1), l10n := reader.l10n || positional }
  let (fl, s) := readFlags reader.s {}
  let ((w, fl), reader) <- readWidth nlArg fl { reader with s := s }
  let ((p, xp), reader) <- readPrecision nlArg reader
  let (type, ps, t, s) <- readType .bare reader.s
  let (arg, ap) <- fetchArg zero nlArg argpos type reader.ap
  return ({ fl := fl, w := w, p := p, xp := xp, ps := ps, t := t, arg := arg },
    { reader with s := s, ap := ap })

end Fields

end Clib4.Stdio.Printf
