import Clib4.Stdio.Printf.Format

namespace Clib4.Stdio.Printf

/-!
# Carrying out a conversion

The `switch` of `printf_core` and the assembly of a field behind it.  The
text of a conversion does not depend on where it goes, so it is computed as
a list of bytes here and written out by the loop.  `fmt_fp`, `wctomb` and
`strerror` are what the caller brings along.
-/

/-- Functions of the library that are not modelled themselves.  `fmtFp` gives
the text of a floating point conversion, or nothing where it returns -1;
what it returns otherwise is the length of that text. -/
structure Library (φ : Type) where
  zero : φ
  fmtFp : φ -> Int -> Int -> Flags -> UInt8 -> Option (List UInt8)
  wctomb : Nat -> Option (List UInt8)
  strerror : Option Errno -> List UInt8

/-- A store made by `%n`. -/
structure Store where
  target : Pointer
  bytes : Nat
  value : Int
  deriving DecidableEq, Repr

/-- What `pad` writes, in pieces of at most 256 bytes. -/
def pad (c : Char) (w l : Int) (fl : Flags) : List UInt8 :=
  if fl.leftAdj \/ fl.zeroPad \/ w <= l then []
  else List.replicate (w - l).toNat (ch c)

/-- `fl ^ ZERO_PAD`. -/
def Flags.flipZero (fl : Flags) : Flags :=
  { fl with zeroPad := !fl.zeroPad }

/-- `fl ^ LEFT_ADJ`. -/
def Flags.flipLeft (fl : Flags) : Flags :=
  { fl with leftAdj := !fl.leftAdj }

/-! ## Numbers -/

/-- The digits of a number, most significant first, and none for 0.  A
`uintmax_t` has at most 64 of them. -/
def digits (base : Nat) : Nat -> Nat -> List Nat
  | 0, _ => []
  | fuel + 1, x => if x = 0 then [] else digits base fuel (x / base) ++ [x % base]

/-- `fmt_x`; a digit above 9 is a letter, in the case of the conversion. -/
def fmtX (x : Nat) (lower : Bool) : List UInt8 :=
  (digits 16 64 x).map fun digit =>
    if digit < 10 then UInt8.ofNat (48 + digit)
    else UInt8.ofNat ((if lower then 87 else 55) + digit)

/-- `fmt_b`, `fmt_o` and `fmt_u`. -/
def fmtDecimal (base x : Nat) : List UInt8 :=
  (digits base 64 x).map fun digit => UInt8.ofNat (48 + digit)

/-- `sizeof(buf)`, at whose end the digits are built. -/
def bufSize : Nat := 8 * 3 + 3 + 53 / 4

def leads : List UInt8 :=
  "-+   0X0x".toList.map ch

/-- `pl` bytes from `offset` on. -/
def lead (offset pl : Nat) : List UInt8 :=
  (leads.drop offset).take pl

/-- A field before it is padded: `fl`, `p`, the bytes taken from `leads`, and
the bytes from `a` to `z`. -/
structure Body where
  fl : Flags
  p : Int
  sign : List UInt8
  text : List UInt8

def integerBody (fl : Flags) (p : Int) (xp : Bool) (i : Nat) (sign text : List UInt8) :
    Except Stop Body :=
  if bufSize < text.length then .error .undefined
  else if xp /\ p < 0 then .error .overflow
  else
    let fl := if xp then { fl with zeroPad := false } else fl
    if i = 0 /\ p = 0 then .ok { fl := fl, p := p, sign := sign, text := [] }
    else
      .ok { fl := fl, p := max p (text.length + if i = 0 then 1 else 0)
            sign := sign, text := text }

/-- `x`, `X` and `b`: with the flag `#`, a number other than 0 is preceded by
two bytes of `leads`, picked by the high half of the conversion character. -/
def markedBody (t : UInt8) (fl : Flags) (p : Int) (xp : Bool) (i : Nat) (text : List UInt8) :
    Except Stop Body :=
  let sign := if i ≠ 0 /\ fl.altForm then lead (t.toNat / 16) 2 else []
  integerBody fl p xp i sign text

/-- `o`. -/
def octalBody (fl : Flags) (p : Int) (xp : Bool) (i : Nat) : Except Stop Body :=
  let text := fmtDecimal 8 i
  let p := if fl.altForm then max p (text.length + 1) else p
  integerBody fl p xp i [] text

/-- `d` and `i`. -/
def signedBody (fl : Flags) (p : Int) (xp : Bool) (i : Nat) : Except Stop Body :=
  if 2 ^ 63 <= i then
    let i := 2 ^ 64 - i
    integerBody fl p xp i (lead 0 1) (fmtDecimal 10 i)
  else
    let sign := if fl.markPos then lead 1 1 else if fl.padPos then lead 2 1 else []
    integerBody fl p xp i sign (fmtDecimal 10 i)

/-- `p`: the precision is compared as an unsigned number, so that it stays -1
where none was given. -/
def pointerBody (fl : Flags) (p : Int) (xp : Bool) (i : Nat) : Except Stop Body :=
  let p := toLong (max (p % 2 ^ 32) 8)
  markedBody (ch 'x') { fl with altForm := true } p xp i (fmtX i true)

/-- The text `s` and `m` print: `text` up to its `NUL`, at most `p` bytes. -/
def stringBody (fl : Flags) (p : Int) (text : List UInt8) : Except Stop Body :=
  let text := text.takeWhile (· ≠ 0)
  let limit := if p < 0 then intMax.toNat else p.toNat
  if p < 0 /\ limit < text.length then .error .overflow
  else
    let text := text.take limit
    .ok { fl := { fl with zeroPad := false }, p := text.length, sign := [], text := text }

/-- `"(null)"`. -/
def nullText : List UInt8 :=
  "(null)".toList.map ch

/-- `s`. -/
def pointedBody (fl : Flags) (p : Int) : Pointer -> Except Stop Body
  | .null => stringBody fl p nullText
  | .text _ s => stringBody fl p s
  | _ => .error .undefined

/-- Write a field: pad it to its width, with blanks or with zeros. -/
def Body.assemble (body : Body) (w cnt : Int) : Except Stop (List UInt8 × Int) :=
  let size : Int := body.text.length
  let pl : Int := body.sign.length
  let p := max body.p size
  if intMax - pl < p then .error .overflow
  else
    let w := max w (pl + p)
    if intMax - cnt < w then .error .overflow
    else
      .ok (pad ' ' w (pl + p) body.fl ++ body.sign ++ pad '0' w (pl + p) body.fl.flipZero ++
          pad '0' p size {} ++ body.text ++ pad ' ' w (pl + p) body.fl.flipLeft, w)

/-! ## Wide characters -/

/-- The loops of `S`: the multibyte form of as many characters as fit into
`p` bytes. -/
def wideText (wctomb : Nat -> Option (List UInt8)) (p : Int) : List Nat -> List UInt8 ->
    Except Stop (List UInt8)
  | [], done => .ok done
  | c :: rest, done =>
    if (done.length : Int) < p /\ c ≠ 0 then
      match wctomb c with
      | none => .error .unconvertible
      | some mb =>
        if (mb.length : Int) <= p - done.length then wideText wctomb p rest (done ++ mb)
        else .ok done
    else .ok done

/-- `S`, and `C` with a precision of -1.  An index that is compared as an
`int` stops the loop at once where no precision was given. -/
def wideField (wctomb : Nat -> Option (List UInt8)) (fl : Flags) (w p : Int) (ws : List Nat) :
    Except Stop (List UInt8 × Int) := do
  let text <- wideText wctomb p ws []
  let p : Int := text.length
  return (pad ' ' w p fl ++ text ++ pad ' ' w p fl.flipLeft, max w p)

/-! ## All conversions -/

/-- How many bytes `%n` stores, by length modifier. -/
def LengthState.storeSize : LengthState -> Option Nat
  | .bare | .lpre | .ztpre => some 4
  | .llpre | .jpre => some 8
  | .hpre => some 2
  | .hhpre => some 1
  | .biglpre => none

/-- `%n`. -/
def storeCount (ps : LengthState) (p : Pointer) (cnt : Int) : Except Stop (List Store) :=
  match ps.storeSize with
  | none => .ok []
  | some bytes =>
    match p with
    | .cell addr => .ok [{ target := .cell addr, bytes := bytes, value := cnt }]
    | _ => .error .undefined

/-- What a conversion does: the bytes it writes, what it adds to the count,
and what it stores. -/
structure Effect where
  text : List UInt8
  l : Int
  stores : List Store

def Effect.ofField (field : List UInt8 × Int) : Effect :=
  { text := field.1, l := field.2, stores := [] }

/-- The conversion character behind the transformation of `ls` and `lc`. -/
def letter (ps : LengthState) (t : UInt8) : Char :=
  let t := if ps ≠ .bare /\ t.toNat % 16 = 3 then t &&& 223 else t
  Char.ofNat t.toNat

/-- The `switch` of `printf_core`; `message` is the text of `strerror(errno)`. -/
def convert {φ : Type} (lib : Library φ) (msg : List UInt8) (cnt : Int)
    (conversion : Conversion φ) : Except Stop Effect :=
  let fl := if conversion.fl.leftAdj then { conversion.fl with zeroPad := false }
    else conversion.fl
  let w := conversion.w
  let p := conversion.p
  let xp := conversion.xp
  let i := conversion.arg.i
  let field (body : Except Stop Body) : Except Stop Effect := do
    let body <- body
    let text <- body.assemble w cnt
    return Effect.ofField text
  match letter conversion.ps conversion.t with
  | 'b' => field (markedBody (ch 'b') fl p xp i (fmtDecimal 2 i))
  | 'n' => do
      let stores <- storeCount conversion.ps conversion.arg.p cnt
      return { text := [], l := 0, stores := stores }
  | 'p' => field (pointerBody fl p xp i)
  | 'x' => field (markedBody (ch 'x') fl p xp i (fmtX i true))
  | 'X' => field (markedBody (ch 'X') fl p xp i (fmtX i false))
  | 'o' => field (octalBody fl p xp i)
  | 'd' | 'i' => field (signedBody fl p xp i)
  | 'u' => field (integerBody fl p xp i [] (fmtDecimal 10 i))
  | 'c' =>
    field (.ok { fl := { fl with zeroPad := false }, p := 1, sign := []
                 text := [UInt8.ofNat i] })
  | 'm' => field (stringBody fl p msg)
  | 's' => field (pointedBody fl p conversion.arg.p)
  | 'C' => do
      let text <- wideField lib.wctomb fl w (-1) [i]
      return Effect.ofField text
  | 'S' =>
    match conversion.arg.p with
    | .wide _ ws => do
        let text <- wideField lib.wctomb fl w p ws
        return Effect.ofField text
    | _ =>
      -- The pointer is not followed where the loop does not start.
      if p <= 0 then do
        let text <- wideField lib.wctomb fl w p []
        return Effect.ofField text
      else .error .undefined
  | _ =>
    if xp /\ p < 0 then .error .overflow
    else
      match lib.fmtFp conversion.arg.f w p fl conversion.t with
      | none => .error .overflow
      | some text => .ok { text := text, l := text.length, stores := [] }

end Clib4.Stdio.Printf
