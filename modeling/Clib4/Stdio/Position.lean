import Clib4.Stdio.Output

namespace Clib4.Stdio

open Foundation

/-!
# Positions, flushing and buffers

`ftell.c`, `fseek.c`, `ftello64.c`, `fseeko64.c`, `fflush.c` (for one stream)
and `setvbuf.c`.  A `long`
has 32 bits on the target, while file positions and the counters of a stream
have 64: `toLong` is the conversion between them, and the value a `long`
computation wraps to.
-/

/-- Conversion to `long`. -/
def toLong (value : Int) : Int :=
  (BitVec.ofInt 32 value).toInt

variable (value : Int)

theorem toLong_eq_bmod : toLong value = value.bmod (2 ^ 32) :=
  BitVec.toInt_ofInt value

def longMin : Int := -2 ^ 31

def longMax : Int := 2 ^ 31 - 1

theorem toLong_of_fits {value : Int} (lower : longMin <= value) (upper : value <= longMax) :
    toLong value = value := by
  rw [toLong_eq_bmod]
  apply Int.bmod_eq_of_le
  · simpa [longMin] using lower
  · have strict : value < 2147483648 := by
      unfold longMax at upper
      omega
    simpa using strict

theorem longMin_le_toLong : longMin <= toLong value := by
  have := Int.le_bmod (x := value) (m := 2 ^ 32) (by norm_num)
  rw [toLong_eq_bmod]
  norm_num at this ⊢
  exact this

theorem toLong_le_longMax : toLong value <= longMax := by
  have := Int.bmod_lt (x := value) (m := 2 ^ 32) (by norm_num)
  rw [toLong_eq_bmod]
  unfold longMax
  norm_num at this ⊢
  omega

/-- Conversion to `_off64_t`. -/
def toOff64 (value : Int) : Int :=
  (BitVec.ofInt 64 value).toInt

theorem toOff64_eq_bmod : toOff64 value = value.bmod (2 ^ 64) :=
  BitVec.toInt_ofInt value

/-- `wherefrom` as the caller passes it. -/
def Whence.ofInt (wherefrom : Int) : Option Whence :=
  if wherefrom = 0 then some .set
  else if wherefrom = 1 then some .cur
  else if wherefrom = 2 then some .fromEnd
  else none

def bufsiz : Nat := 8192 * 10

namespace Iob

variable {δ : Type} [Action δ]

/-- `CHANGE_FILE_ERROR`, against which `fseek` compares the result of `ftell`
(which reports its own failure as -1). -/
def changeFileError : Int := 0

def streamPosition (position : Int) (file : Iob δ) : Int :=
  if file.readBufferIsValid then position - file.numUnreadBytes
  else if file.writeBufferIsValid then position + file.bufferWriteBytes
  else position

def ftell (file : Iob δ) : Int × Iob δ :=
  if !file.inUse then (-1, file.fail .EBADF)
  else
    match Action.seek file.device 0 .cur with
    | (.error code, device) => (-1, { file with device := device }.fail code)
    | (.ok position, device) =>
      (toLong (file.streamPosition position),
        { file with
          device := device
          errno := if position < 0 then none else file.errno })

/-- The head of `fseek`: try to turn the absolute position into a relative
seek within the buffer. -/
def relativeSeek (offset : Int) (wherefrom : Whence) (file : Iob δ) :
    Int × Whence × Iob δ :=
  if wherefrom = .set /\ file.readBufferIsValid then
    let (currentPosition, file) := file.ftell
    if currentPosition ≠ changeFileError then
      (toLong (offset - currentPosition), .cur, file)
    else (offset, .set, file)
  else (offset, wherefrom, file)

/-- Whether `fseek` may adjust the buffer position only. -/
def staysInBuffer (offset : Int) (wherefrom : Whence) (file : Iob δ) : Prop :=
  wherefrom = .cur /\ file.readBufferIsValid /\
    ((offset < 0 /\ toLong (-offset) <= file.bufferPosition) \/
      (0 < offset /\ offset <= file.numUnreadBytes))

instance (offset : Int) (wherefrom : Whence) (file : Iob δ) :
    Decidable (file.staysInBuffer offset wherefrom) :=
  inferInstanceAs (Decidable (_ /\ _ /\ _))

def emptyBuffer (file : Iob δ) : Bool × Iob δ :=
  match (if file.writeBufferIsValid then file.flushIobWriteBuffer else (true, file)) with
  | (false, file) => (false, file)
  | (true, file) =>
    if file.readBufferIsValid then file.dropIobReadBuffer else (true, file)

/-- The part of `fseek` that starts with a clean slate and calls the hook. -/
def seekDevice (offset : Int) (wherefrom : Whence) (file : Iob δ) : Bool × Iob δ :=
  match file.emptyBuffer with
  | (false, file) => (false, file)
  | (true, file) =>
    match Action.seek file.device offset wherefrom with
    | (.error code, device) => (false, { file with device := device }.fail code)
    | (.ok position, device) =>
      (true, { file with
        device := device
        errno := if toLong position < 0 then none else file.errno })

/-- `fseek` behind its head: stay within the buffer if that will do. -/
def seekBuffered (offset : Int) (wherefrom : Whence) (file : Iob δ) : Bool × Iob δ :=
  let file := { file with eofReached := false }
  if wherefrom ≠ .cur \/ offset ≠ 0 then
    if file.staysInBuffer offset wherefrom then
      (true, { file with bufferPosition := file.bufferPosition + offset })
    else file.seekDevice offset wherefrom
  else (true, file)

/-- `fseek`, once `wherefrom` is known to be one of the three. -/
def fseekWhence (offset : Int) (wherefrom : Whence) (file : Iob δ) : Bool × Iob δ :=
  let (offset, wherefrom, file) := file.relativeSeek offset wherefrom
  file.seekBuffered offset wherefrom

/-- `fseek`; `true` is `OK`. -/
def fseek (offset wherefrom : Int) (file : Iob δ) : Bool × Iob δ :=
  if !file.inUse then (false, file.fail .EBADF)
  else
    match Whence.ofInt wherefrom with
    | none => (false, file.fail .EBADF)
    | some wherefrom => file.fseekWhence offset wherefrom

/-! ## Positions of 64 bits -/

def ftello64 (file : Iob δ) : Int × Iob δ :=
  if !file.inUse then (-1, file.fail .EBADF)
  else
    match Action.seek file.device 0 .cur with
    | (.error code, device) => (-1, { file with device := device }.fail code)
    | (.ok position, device) =>
      (toOff64 (file.streamPosition position), { file with device := device })

/-- The head of `fseeko64`. -/
def relativeSeek64 (offset : Int) (wherefrom : Whence) (file : Iob δ) :
    Int × Whence × Iob δ :=
  if wherefrom = .set /\ file.readBufferIsValid then
    let (currentPosition, file) := file.ftello64
    if currentPosition ≠ changeFileError \/ file.errno = none then
      (toOff64 (offset - currentPosition), .cur, file)
    else (offset, .set, file)
  else (offset, wherefrom, file)

/-- Whether `fseeko64` may adjust the buffer position only. -/
def staysInBuffer64 (offset : Int) (wherefrom : Whence) (file : Iob δ) : Prop :=
  wherefrom = .cur /\ file.readBufferIsValid /\
    ((offset < 0 /\ toOff64 (-offset) <= file.bufferPosition) \/
      (0 < offset /\ offset <= file.numUnreadBytes))

instance (offset : Int) (wherefrom : Whence) (file : Iob δ) :
    Decidable (file.staysInBuffer64 offset wherefrom) :=
  inferInstanceAs (Decidable (_ /\ _ /\ _))

/-- The part of `fseeko64` that starts with a clean slate and calls the hook. -/
def seekDevice64 (offset : Int) (wherefrom : Whence) (file : Iob δ) : Bool × Iob δ :=
  match file.emptyBuffer with
  | (false, file) => (false, file)
  | (true, file) =>
    match Action.seek file.device offset wherefrom with
    | (.error code, device) => (false, { file with device := device }.fail code)
    | (.ok position, device) =>
      (true, { file with
        device := device
        errno := if position < 0 then none else file.errno })

/-- `fseeko64` behind its head. -/
def seekBuffered64 (offset : Int) (wherefrom : Whence) (file : Iob δ) : Bool × Iob δ :=
  let file := { file with eofReached := false }
  if wherefrom ≠ .cur \/ offset ≠ 0 then
    if file.staysInBuffer64 offset wherefrom then
      (true, { file with bufferPosition := file.bufferPosition + offset })
    else file.seekDevice64 offset wherefrom
  else (true, file)

/-- `fseeko64`; `true` is the way through its end, although the caller gets a
zero on every way. -/
def fseeko64 (offset wherefrom : Int) (file : Iob δ) : Bool × Iob δ :=
  match Whence.ofInt wherefrom with
  | none => (false, file.fail .EBADF)
  | some wherefrom =>
    if !file.inUse then (false, file.fail .EBADF)
    else
      let (offset, wherefrom, file) := file.relativeSeek64 offset wherefrom
      file.seekBuffered64 offset wherefrom

/-! ## Flushing and buffers -/

/-- `fflush` of one stream. -/
def fflush (file : Iob δ) : Bool × Iob δ :=
  if file.writeBufferIsValid then file.flushIobWriteBuffer else (true, file)

/-- `bufmode` as the caller passes it. -/
def bufferModeOf (bufmode : Int) : Option BufferMode :=
  if bufmode = 0 then some .full
  else if bufmode = 1 then some .line
  else if bufmode = 2 then some .none
  else none

/-- The end of `setvbuf`: flush or drop, then install the new buffer. -/
def replaceBuffer (buffer : Block) (size : Nat) (mode : BufferMode) (file : Iob δ) :
    Bool × Iob δ :=
  match file.emptyBuffer with
  | (false, file) => (false, file)
  | (true, file) =>
    (true, { file with buffer := buffer, bufferSize := size, bufferMode := mode })

/-- `setvbuf`; `allocated` is what `AllocVecTags` answers if it is asked.
Whose memory a buffer is, and when it is freed, has no counterpart. -/
def setvbuf (buf : Option Block) (bufmode : Int) (size : Nat) (allocated : Option Block)
    (file : Iob δ) : Bool × Iob δ :=
  match bufferModeOf bufmode with
  | none => (false, file)
  | some mode =>
    if 2 ^ 31 <= size then (false, { file with errno := some .EINVAL })
    else if !file.inUse then (false, file.fail .EBADF)
    else
      let buf := if size = 0 then none else buf
      let size := if size = 0 then bufsiz else size
      match mode, buf, allocated with
      | .none, _, _ => file.replaceBuffer (fun _ => 0) 1 .none
      | mode, some buf, _ => file.replaceBuffer buf size mode
      | mode, none, some buffer => file.replaceBuffer buffer size mode
      | _, none, none => (false, { file with errno := some .ENOBUFS })

end Iob

end Clib4.Stdio
