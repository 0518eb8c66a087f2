import Clib4.Stdio.Printf.Convert

namespace Clib4.Stdio
namespace Printf

/-!
# The format interpreter

`printf_core` and `__vfprintf_r` of `vfprintf.c`.  Whether a byte could be
written is never looked at, so the output of a format is a list of bytes; all
it depends on besides its arguments is `errno`, which `%m` reads.  What
`errno` is by then follows from the bytes put before, and `message` is given
these.
-/

section Core

variable {φ : Type}

/-- Where the interpreter stands between two rounds of its loop. -/
structure State (φ : Type) where
  reader : Reader φ
  cnt : Int
  l : Int
  output : List UInt8
  stores : List Store

/-- Number of bytes before the next `%`, or the end of the string. -/
def plainLength : List UInt8 -> Nat
  | [] => 0
  | c :: rest => if c = 0 \/ c = ch '%' then 0 else plainLength rest + 1

/-- Number of `%%` pairs at the head of a string. -/
def pairCount : List UInt8 -> Nat
  | c :: d :: rest => if c = ch '%' /\ d = ch '%' then pairCount rest + 1 else 0
  | _ => 0

/-- Literal text and `%%` at the head of a format: the bytes from `a` to `z`,
and where the format goes on. -/
def literal (s : List UInt8) : List UInt8 × List UInt8 :=
  let plain := plainLength s
  let pairs := pairCount (s.drop plain)
  (s.take (plain + pairs), s.drop (plain + 2 * pairs))

/-- One round of the loop of `printf_core`. -/
def round (lib : Library φ) (msg : List UInt8 -> List UInt8) (nlArg : Nat -> Arg φ)
    (state : State φ) : Except Stop (State φ) :=
  if intMax - state.cnt < state.l then .error .overflow
  else
    let cnt := state.cnt + state.l
    if byteAt state.reader.s 0 = 0 then .error (.returned cnt)
    else
      let (text, s) := literal state.reader.s
      if intMax - cnt < text.length then .error .overflow
      else if text ≠ [] then
        .ok { reader := { state.reader with s := s }, cnt := cnt, l := text.length
              output := state.output ++ text, stores := state.stores }
      else do
        let (conversion, reader) <- readConversion lib.zero nlArg state.reader
        let effect <- convert lib (msg state.output) cnt conversion
        return { reader := reader, cnt := cnt, l := effect.l
                 output := state.output ++ effect.text
                 stores := state.stores ++ effect.stores }

/-- The loop.  A round takes at least one byte of the format, so that its
length and one more bound the rounds. -/
def rounds (lib : Library φ) (msg : List UInt8 -> List UInt8) (nlArg : Nat -> Arg φ) :
    Nat -> State φ -> Stop × State φ
  | 0, state => (.undefined, state)
  | fuel + 1, state =>
    match round lib msg nlArg state with
    | .error stop => (stop, state)
    | .ok state => rounds lib msg nlArg fuel state

def printfCore (lib : Library φ) (msg : List UInt8 -> List UInt8)
    (nlArg : Nat -> Arg φ) (format : List UInt8) (ap : List (VaArg φ)) : Stop × State φ :=
  rounds lib msg nlArg (format.length + 1)
    { reader := { s := format, l10n := false, ap := ap }
      cnt := 0, l := 0, output := [], stores := [] }

/-- `union arg nl_arg[NL_ARGMAX] = {0}`. -/
def noArgs (lib : Library φ) : Nat -> Arg φ :=
  fun _ => Arg.ofInt lib.zero 0

end Core

end Printf

namespace Iob

open Printf

variable {δ φ : Type} [Action δ]

/-- `out` for a file: one `__fputc` for each byte, whatever it returns. -/
def out (text : List UInt8) (file : Iob δ) : Iob δ :=
  text.foldl (fun file c => (file.fputcCore c.toNat file.bufferMode).2) file

/-- `__vfprintf_r`: the number of bytes, or `EOF`.  The behaviour is undefined
where the result is `none`. -/
def vfprintf (lib : Library φ) (format : List UInt8) (ap : List (VaArg φ))
    (file : Iob δ) : Option Int × Iob δ :=
  let msg := fun written => lib.strerror (file.out written).errno
  let (stop, state) := printfCore lib msg (noArgs lib) format ap
  let file := file.out state.output
  match stop with
  | .returned count =>
    let file := if file.noNul then file else (file.putc 0 file.bufferMode).2
    (some count, file.fflush.2)
  | .inval => (some (-1), { file with errno := some .EINVAL })
  | .overflow => (some (-1), { file with errno := some .EOVERFLOW })
  | .unconvertible => (some (-1), file)
  | .undefined => (none, file)

end Iob

end Clib4.Stdio
