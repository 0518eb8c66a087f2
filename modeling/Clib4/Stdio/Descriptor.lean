import Clib4.Stdio.Position
import Clib4.Foundation.ByteFile

namespace Clib4.Stdio

open Foundation

/-!
# Streams over a file that never fails

A disk file behind a descriptor, when every read, write and seek succeeds in
full, is a byte array with one position (`fdhookentry.c`; growing the file on
a seek past its end is what `__unix_path_semantics` asks for).  `Plain` gives
the stream functions their meaning on the bare array, without a buffer.
-/

/-- The seek mode a `file_action_seek` message carries. -/
def Whence.origin : Whence -> Origin
  | .set => .start
  | .cur => .current
  | .fromEnd => .ending

instance descriptorAction : Action ByteFile where
  read := fun fd size => (.ok (fd.read size).1, (fd.read size).2)
  write := fun fd data => (.ok data.length, fd.write data)
  seek := fun fd offset whence =>
    (.ok (fd.seek offset whence.origin).position, fd.seek offset whence.origin)
  flushOthers := fun fd => (true, fd)
  read_length := by
    intro fd size bytes next answer
    simp only [Prod.mk.injEq, Except.ok.injEq] at answer
    rw [<- answer.1]
    simp [ByteFile.read]

namespace Plain

/-- `fgetc` on the array. -/
def fgetc (array : ByteFile) : Option UInt8 × ByteFile :=
  match array.rest with
  | [] => (none, array)
  | c :: _ => (some c, array.advance 1)

theorem fgetc_of_nil {array : ByteFile} (nothing : array.rest = []) :
    fgetc array = (none, array) := by
  rw [fgetc, nothing]

theorem fgetc_of_cons {array : ByteFile} {c : UInt8} {rest : List UInt8}
    (next : array.rest = c :: rest) : fgetc array = (some c, array.advance 1) := by
  rw [fgetc, next]

/-- The bytes up to and including the first line feed, at most `limit`. -/
def line (bytes : List UInt8) (limit : Nat) : List UInt8 :=
  match Iob.lineEnd (bytes.take limit) with
  | some count => bytes.take count
  | none => bytes.take limit

/-- `fgets` on the array: `NULL` when there was room for a byte and no byte. -/
def fgets (n : Int) (array : ByteFile) : Iob.FgetsResult × ByteFile :=
  if n <= 0 then (⟨true, []⟩, array)
  else
    let taken := line array.rest (n - 1).toNat
    (⟨decide (1 < n) && taken.isEmpty, taken ++ [0]⟩, array.advance taken.length)

/-- `fread` on the array. -/
def fread (ptr : Block) (elementSize count : Nat) (array : ByteFile) :
    (Nat × Block) × ByteFile :=
  let taken := array.rest.take (elementSize * count)
  ((taken.length / elementSize, ptr.store 0 taken), array.advance taken.length)

/-- `fputc` on the array. -/
def fputc (c : Int) (array : ByteFile) : Option UInt8 × ByteFile :=
  (some (clip c), array.write [clip c])

/-- `fputs` on the array. -/
def fputs (s : List UInt8) (array : ByteFile) : Bool × ByteFile :=
  (true, array.write s)

/-- `fseek` on the array. -/
def fseek (offset : Int) (wherefrom : Whence) (array : ByteFile) : Bool × ByteFile :=
  (true, array.seek offset wherefrom.origin)

end Plain

/-- The calls of a sequence. -/
inductive Call
  | fgetc
  | fgets (n : Int)
  | fread (ptr : Block) (elementSize count : Nat)
  | fputc (c : Int)
  | fputs (s : List UInt8)
  | fseek (offset : Int) (wherefrom : Whence)
  | ftell
  | fflush

/-- What a call hands back to its caller. -/
inductive Answer
  | char (c : Option UInt8)
  | string (result : Iob.FgetsResult)
  | elements (count : Nat) (memory : Block)
  | status (ok : Bool)
  | position (value : Int)

namespace Whence

def toInt : Whence -> Int
  | .set => 0
  | .cur => 1
  | .fromEnd => 2

@[simp] theorem ofInt_toInt (wherefrom : Whence) : ofInt wherefrom.toInt = some wherefrom := by
  cases wherefrom <;> rfl

end Whence

def Iob.call {δ : Type} [Action δ] (file : Iob δ) : Call -> Answer × Iob δ
  | .fgetc => (.char file.fgetc.1, file.fgetc.2)
  | .fgets n => (.string (file.fgets n).1, (file.fgets n).2)
  | .fread ptr elementSize count =>
    (.elements (file.fread ptr elementSize count).1.1 (file.fread ptr elementSize count).1.2,
      (file.fread ptr elementSize count).2)
  | .fputc c => (.char (file.fputc c).1, (file.fputc c).2)
  | .fputs s => (.status (file.fputs s).1, (file.fputs s).2)
  | .fseek offset wherefrom =>
    (.status (file.fseek offset wherefrom.toInt).1, (file.fseek offset wherefrom.toInt).2)
  | .ftell => (.position file.ftell.1, file.ftell.2)
  | .fflush => (.status file.fflush.1, file.fflush.2)

def Plain.call (array : ByteFile) : Call -> Answer × ByteFile
  | .fgetc => (.char (Plain.fgetc array).1, (Plain.fgetc array).2)
  | .fgets n => (.string (Plain.fgets n array).1, (Plain.fgets n array).2)
  | .fread ptr elementSize count =>
    (.elements (Plain.fread ptr elementSize count array).1.1
      (Plain.fread ptr elementSize count array).1.2,
      (Plain.fread ptr elementSize count array).2)
  | .fputc c => (.char (Plain.fputc c array).1, (Plain.fputc c array).2)
  | .fputs s => (.status (Plain.fputs s array).1, (Plain.fputs s array).2)
  | .fseek offset wherefrom =>
    (.status (Plain.fseek offset wherefrom array).1, (Plain.fseek offset wherefrom array).2)
  | .ftell => (.position array.position, array)
  | .fflush => (.status true, array)

def Iob.run {δ : Type} [Action δ] (file : Iob δ) : List Call -> List Answer × Iob δ
  | [] => ([], file)
  | call :: rest =>
    (((file.call call).1 :: (Iob.run (file.call call).2 rest).1),
      (Iob.run (file.call call).2 rest).2)

def Plain.run (array : ByteFile) : List Call -> List Answer × ByteFile
  | [] => ([], array)
  | call :: rest =>
    (((Plain.call array call).1 :: (Plain.run (Plain.call array call).2 rest).1),
      (Plain.run (Plain.call array call).2 rest).2)

/-- A stream as `__open_iob` and `setvbuf` leave it, on a file positioned at
its start. -/
def openStream (mode : BufferMode) (bufferSize : Nat) (buffer : Block) (device : ByteFile) :
    Iob ByteFile where
  bufferMode := mode
  eofReached := false
  canRead := true
  canWrite := true
  inUse := true
  error := false
  noNul := true
  littleEndian := false
  buffer := buffer
  bufferSize := bufferSize
  bufferPosition := 0
  bufferReadBytes := 0
  bufferWriteBytes := 0
  interactive := false
  descriptorLittleEndian := false
  errno := none
  device := device

end Clib4.Stdio
