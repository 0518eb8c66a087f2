import Clib4.Foundation.Block
import Clib4.Foundation.Splice

namespace Clib4.Stdio

open Foundation

/-!
# Buffered file handles

The data model of `stdio_headers.h`: the part of `struct iob` the stream
functions read and write, the messages they send to the file action function
behind it, and the three functions that move a buffer as a whole
(`filliobreadbuffer.c`, `flushiobwritebuffer.c`, `dropiobreadbuffer.c`).

Thread locks, abort checks, debug output and assertions have no counterpart.
The counters are `off_t` in the source and integers here, so that nothing
keeps them from becoming negative.
-/

/-- Error numbers, with `io` for whatever the system below reports. -/
inductive Errno
  | EBADF | EFAULT | EINVAL | EACCES | ENOBUFS | ENOMEM | ERANGE | EOVERFLOW
  | io (code : Nat)
  deriving DecidableEq, Repr

/-- `IOBF_BUFFER_MODE_FULL`, `IOBF_BUFFER_MODE_LINE`, `IOBF_BUFFER_MODE_NONE`. -/
inductive BufferMode
  | full | line | none
  deriving DecidableEq, Repr

/-- `SEEK_SET`, `SEEK_CUR`, `SEEK_END`. -/
inductive Whence
  | set | cur | fromEnd
  deriving DecidableEq, Repr

/--
What stands behind an `iob_Action` function.  Every call may fail, and a read
may deliver fewer bytes than it was asked for, but never more.
`flushOthers` is the part of `__flush_all_files` that concerns the other line
buffered streams of the process; `false` means that one of them failed.
`mayRead` and `mayWrite` are `FDF_READ` and `FDF_WRITE` of the descriptor, which
`read` and `write` look at and the action does not.
-/
class Action (δ : Type) where
  read : δ -> Nat -> Except Errno (List UInt8) × δ
  write : δ -> List UInt8 -> Except Errno Nat × δ
  seek : δ -> Int -> Whence -> Except Errno Int × δ
  flushOthers : δ -> Bool × δ
  mayRead : δ -> Bool := fun _ => true
  mayWrite : δ -> Bool := fun _ => true
  read_length : ∀ device size bytes next,
    read device size = (.ok bytes, next) -> bytes.length <= size

/-- `struct iob`, together with `errno` and the device it refers to. -/
structure Iob (δ : Type) where
  bufferMode : BufferMode
  eofReached : Bool
  canRead : Bool
  canWrite : Bool
  inUse : Bool
  error : Bool
  noNul : Bool
  littleEndian : Bool
  buffer : Block
  bufferSize : Int
  bufferPosition : Int
  bufferReadBytes : Int
  bufferWriteBytes : Int
  /-- `FDF_IS_INTERACTIVE` of the descriptor. -/
  interactive : Bool
  /-- `FDF_LITTLE_ENDIAN` of the descriptor. -/
  descriptorLittleEndian : Bool
  errno : Option Errno
  device : δ

/-- `'\n'`. -/
def lineFeed : UInt8 := 10

/-- What is left of an `int` stored in an `unsigned char`; also `c & 255`. -/
def clip (c : Int) : UInt8 :=
  UInt8.ofNat (c % 256).toNat

namespace Iob

section Macros

variable {δ : Type} (file : Iob δ)

def writeBufferIsFull : Bool :=
  decide (0 < file.bufferSize) && decide (file.bufferWriteBytes = file.bufferSize)

def writeBufferIsValid : Bool :=
  decide (0 < file.bufferWriteBytes)

def readBufferIsEmpty : Bool :=
  decide (file.bufferReadBytes = 0) || decide (file.bufferPosition = file.bufferReadBytes)

def numUnreadBytes : Int :=
  if 0 < file.bufferReadBytes /\ file.bufferPosition < file.bufferReadBytes then
    file.bufferReadBytes - file.bufferPosition
  else 0

def readBufferIsValid : Bool :=
  decide (0 < file.bufferReadBytes)

/-- Set `IOBF_ERROR` and `errno`. -/
def fail (code : Errno) : Iob δ :=
  { file with error := true, errno := some code }

end Macros

variable {δ : Type} [Action δ]

/-- `__flush_iob_write_buffer`.  The number of bytes the device took is not
looked at: only a failed call leaves the buffer as it was. -/
def flushIobWriteBuffer (file : Iob δ) : Bool × Iob δ :=
  if file.inUse && file.writeBufferIsValid then
    match Action.write file.device (file.buffer.load 0 file.bufferWriteBytes.toNat) with
    | (.error code, device) => (false, { file with device := device }.fail code)
    | (.ok _, device) => (true, { file with device := device, bufferWriteBytes := 0 })
  else (true, file)

/-- `__flush_all_files(IOBF_BUFFER_MODE_LINE)`, called for a line buffered
stream.  That stream is itself among those flushed. -/
def flushAllFiles (file : Iob δ) : Bool × Iob δ :=
  match Action.flushOthers file.device with
  | (false, device) => (false, { file with device := device })
  | (true, device) =>
    let file := { file with device := device }
    if file.inUse && file.canWrite && file.writeBufferIsValid then
      file.flushIobWriteBuffer
    else (true, file)

/-- The hook call of `__fill_iob_read_buffer`. -/
def fillFromDevice (file : Iob δ) : Bool × Iob δ :=
  match Action.read file.device file.bufferSize.toNat with
  | (.error code, device) => (false, { file with device := device }.fail code)
  | (.ok bytes, device) =>
    (true, { file with
      device := device
      buffer := file.buffer.store 0 bytes
      bufferReadBytes := bytes.length
      bufferPosition := 0 })

def fillIobReadBuffer (file : Iob δ) : Bool × Iob δ :=
  if file.bufferMode = .line then
    match file.flushAllFiles with
    | (false, file) => (false, file)
    | (true, file) => file.fillFromDevice
  else file.fillFromDevice

/-- `__drop_iob_read_buffer`: move the device back over the bytes that were
read ahead, then forget them. -/
def dropIobReadBuffer (file : Iob δ) : Bool × Iob δ :=
  if file.inUse then
    let file := { file with eofReached := false }
    if file.readBufferIsValid then
      if 0 < file.numUnreadBytes then
        match Action.seek file.device (-file.numUnreadBytes) .cur with
        | (.error code, device) => (false, { file with device := device }.fail code)
        | (.ok _, device) =>
          (true, { file with device := device, bufferReadBytes := 0, bufferPosition := 0 })
      else (true, { file with bufferReadBytes := 0, bufferPosition := 0 })
    else (true, file)
  else (true, file)

theorem dropIobReadBuffer_of_back {file : Iob δ} (inUse : file.inUse)
    (window : 0 < file.bufferReadBytes) (ordered : file.bufferPosition <= file.bufferReadBytes)
    {position : Int} {device : δ}
    (back : Action.seek file.device (-(file.bufferReadBytes - file.bufferPosition)) .cur =
      (.ok position, device))
    (still : file.bufferPosition = file.bufferReadBytes -> device = file.device) :
    file.dropIobReadBuffer = (true, { file with
      eofReached := false, device := device, bufferReadBytes := 0, bufferPosition := 0 }) := by
  have valid : readBufferIsValid { file with eofReached := false } := by
    simpa [readBufferIsValid] using window
  have count : numUnreadBytes { file with eofReached := false } =
      file.bufferReadBytes - file.bufferPosition := by
    simp only [numUnreadBytes]
    split <;> omega
  unfold dropIobReadBuffer
  rw [if_pos inUse]
  rw [if_pos valid, count]
  split
  · rw [back]
  · rw [still (by omega)]

end Iob

end Clib4.Stdio
