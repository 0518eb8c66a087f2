import Clib4.Stdio.Input

namespace Clib4.Stdio

open Foundation

/-!
# Writing to a stream

`fputc.c`, `fputs.c`, `fwrite.c`, `flush.c` and the `__putc` macros.  A
successful `fputc` returns the byte it stored, `EOF` is `none`.
-/

namespace Iob

variable {δ : Type} [Action δ]

def fputcCheck (file : Iob δ) : Bool × Iob δ :=
  if !file.inUse then (false, file.fail .EBADF)
  else if !file.canWrite then (false, file.fail .EBADF)
  else if file.readBufferIsValid then file.dropIobReadBuffer
  else (true, file)

/-- `iob_Buffer[iob_BufferWriteBytes++] = c`. -/
def putByte (c : UInt8) (file : Iob δ) : Iob δ :=
  { file with
    buffer := file.buffer.store file.bufferWriteBytes [c]
    bufferWriteBytes := file.bufferWriteBytes + 1 }

def flushIfFull (file : Iob δ) : Bool × Iob δ :=
  if file.writeBufferIsFull then file.flushIobWriteBuffer else (true, file)

def takeBack (file : Iob δ) : Iob δ :=
  { file with bufferWriteBytes := file.bufferWriteBytes - 1 }

/-- `__fputc`. -/
def fputcCore (c : Int) (mode : BufferMode) (file : Iob δ) : Option UInt8 × Iob δ :=
  match file.flushIfFull with
  | (false, file) => (none, file)
  | (true, file) =>
    let file := file.putByte (clip c)
    if mode = .none \/ (mode = .line /\ c = 10) then
      match file.flushIobWriteBuffer with
      | (false, file) => (none, file.takeBack)
      | (true, file) => (some (clip c), file)
    else (some (clip c), file)

def fputc (c : Int) (file : Iob δ) : Option UInt8 × Iob δ :=
  match file.fputcCheck with
  | (false, file) => (none, file)
  | (true, file) => file.fputcCore c file.bufferMode

/-- `__flush_r`: flush, and return the last character of the buffer. -/
def flushR (file : Iob δ) : Option UInt8 × Iob δ :=
  if file.bufferWriteBytes <= 0 \/ file.bufferSize <= 0 then (none, file)
  else
    let last := file.buffer (file.bufferWriteBytes - 1)
    match file.flushIobWriteBuffer with
    | (false, file) => (none, file.takeBack)
    | (true, file) => (some last, file)

/-- The `__putc` macro: unlike `__fputc`, it does not flush an unbuffered
stream. -/
def putc (c : UInt8) (mode : BufferMode) (file : Iob δ) : Option UInt8 × Iob δ :=
  if file.bufferWriteBytes < file.bufferSize then
    let file := file.putByte c
    if mode = .line /\ c = lineFeed then file.flushR else (some c, file)
  else file.fputcCore c.toNat mode

/-- Buffer mode in effect for block output: an unbuffered interactive stream
is treated as a line buffered one. -/
def outputMode (file : Iob δ) : BufferMode :=
  if file.bufferMode = .none /\ file.interactive then .line else file.bufferMode

/-- Copy `bytes` behind the pending bytes. -/
def putBytes (bytes : List UInt8) (file : Iob δ) : Iob δ :=
  { file with
    buffer := file.buffer.store file.bufferWriteBytes bytes
    bufferWriteBytes := file.bufferWriteBytes + bytes.length }

/-- `write` on the descriptor of the stream. -/
def writeDescriptor (bytes : List UInt8) (file : Iob δ) : Option Nat × Iob δ :=
  if Action.mayWrite file.device = false then (none, { file with errno := some .EBADF })
  else if bytes = [] then (some 0, file)
  else
    match Action.write file.device bytes with
    | (.error code, device) => (none, { file with device := device, errno := some code })
    | (.ok count, device) => (some count, { file with device := device })

theorem writeDescriptor_eq {file : Iob δ} (may : Action.mayWrite file.device)
    (bytes : List UInt8) : file.writeDescriptor bytes =
      if bytes = [] then (some 0, file)
      else
        match Action.write file.device bytes with
        | (.error code, device) => (none, { file with device := device, errno := some code })
        | (.ok count, device) => (some count, { file with device := device }) := by
  rw [writeDescriptor, if_neg (by rw [may]; simp)]

/-! ## Strings -/

/-- The copy at the head of a round in the line buffered loops of `fputs` and
`fwrite`: how many bytes to store, and whether a line feed ends them. -/
def lineChunk (s : List UInt8) (file : Iob δ) : Nat × Bool :=
  let room := min (file.bufferSize - file.bufferWriteBytes).toNat s.length
  match lineEnd (s.take room) with
  | some line => (line, true)
  | none => (room, false)

/-- The line buffered loop of `__fputs_r`; `false` is the jump to `out`. -/
def fputsLine : Nat -> List UInt8 -> Iob δ -> Bool × Iob δ
  | 0, _, file => (true, file)
  | fuel + 1, s, file =>
    match s with
    | [] => (true, file)
    | c :: rest =>
      if file.bufferWriteBytes < file.bufferSize then
        let (count, lf) := file.lineChunk s
        let file := file.putBytes (s.take count)
        match (if lf \/ file.writeBufferIsFull then file.flushIobWriteBuffer
          else (true, file)) with
        | (false, file) => (false, file)
        | (true, file) =>
          match s.drop count with
          | [] => (true, file)
          | c :: rest =>
            if file.bufferWriteBytes < file.bufferSize then
              fputsLine fuel (c :: rest) file
            else
              match file.putc c .line with
              | (none, file) => (false, file)
              | (some _, file) => fputsLine fuel rest file
      else
        match file.putc c .line with
        | (none, file) => (false, file)
        | (some _, file) => fputsLine fuel rest file

/-- The fully buffered loop of `__fputs_r`; `false` is the jump to `out`. -/
def fputsFull : Nat -> List UInt8 -> Iob δ -> Bool × Iob δ
  | 0, _, file => (true, file)
  | fuel + 1, s, file =>
    match s with
    | [] => (true, file)
    | c :: rest =>
      if file.bufferWriteBytes = 0 /\ file.bufferSize <= s.length then
        match file.writeDescriptor s with
        | (none, file) => (false, { file with error := true })
        | (some _, file) => (true, file)
      else if file.bufferWriteBytes < file.bufferSize then
        let count := min (file.bufferSize - file.bufferWriteBytes).toNat s.length
        let file := file.putBytes (s.take count)
        match file.flushIfFull with
        | (false, file) => (false, file)
        | (true, file) =>
          match s.drop count with
          | [] => (true, file)
          | c :: rest =>
            if file.bufferWriteBytes < file.bufferSize then
              fputsFull fuel (c :: rest) file
            else
              match file.putc c .full with
              | (none, file) => (false, file)
              | (some _, file) => fputsFull fuel rest file
      else
        match file.putc c .full with
        | (none, file) => (false, file)
        | (some _, file) => fputsFull fuel rest file

/-- What `__fputs_r` does with a string that is not empty. -/
def fputsBytes (s : List UInt8) (file : Iob δ) : Bool × Iob δ :=
  match file.outputMode with
  | .line => fputsLine s.length s file
  | .full => fputsFull s.length s file
  | .none =>
    match file.writeDescriptor s with
    | (none, file) => (false, { file with error := true })
    | (some _, file) => (true, file)

/-- `fputs`; `true` is `OK`.  The string is given without its `NUL`. -/
def fputs (s : List UInt8) (file : Iob δ) : Bool × Iob δ :=
  match file.fputcCheck with
  | (false, file) => (false, file)
  | (true, file) =>
    match file.fputsBytes s with
    | (false, file) => (false, file)
    | (true, file) =>
      -- With buffering disabled there may still be data around.
      if file.bufferMode = .none /\ file.writeBufferIsValid then
        file.flushIobWriteBuffer
      else (true, file)

/-! ## Blocks -/

/-- How a loop of `fwrite` was left: through its end with a byte count, by the
jump to `out`, or not within the rounds it was given. -/
inductive FwriteEnd
  | counted (bytes : Nat)
  | abandoned
  | running
  deriving DecidableEq, Repr

/-- The line buffered loop of `fwrite`.  `s` is the place read from, `total`
the number of bytes still to write and `written` the number counted. -/
def fwriteLine (ptr : Block) : Nat -> Nat -> Nat -> Nat -> Iob δ -> FwriteEnd × Iob δ
  | 0, _, _, _, file => (.running, file)
  | fuel + 1, s, total, written, file =>
    if total = 0 then (.counted written, file)
    else if file.bufferWriteBytes < file.bufferSize then
      let (count, lf) := file.lineChunk (ptr.load s total)
      let file := file.putBytes (ptr.load s count)
      match (if lf \/ file.writeBufferIsFull then file.flushIobWriteBuffer
        else (true, file)) with
      | (false, file) => (.counted written, file)
      | (true, file) =>
        if total - count = 0 then (.counted (written + count), file)
        else if file.bufferWriteBytes < file.bufferSize then
          fwriteLine ptr fuel (s + count) (total - count) (written + count) file
        else
          match file.putc (ptr (s + count : Nat)) .line with
          | (none, file) => (.counted (written + count), file)
          | (some _, file) =>
            fwriteLine ptr fuel (s + count + 1) (total - count - 1)
              (written + count + 1) file
    else
      match file.putc (ptr s) .line with
      | (none, file) => (.counted written, file)
      | (some _, file) => fwriteLine ptr fuel (s + 1) (total - 1) (written + 1) file

/-- The fully buffered loop of `fwrite`.  A byte that goes through
`__putc_fully_buffered` is counted, but `total_size` stays as it was. -/
def fwriteFull (ptr : Block) : Nat -> Nat -> Nat -> Nat -> Iob δ -> FwriteEnd × Iob δ
  | 0, _, _, _, file => (.running, file)
  | fuel + 1, s, total, written, file =>
    if total = 0 then (.counted written, file)
    else if file.bufferWriteBytes = 0 /\ file.bufferSize <= total then
      match file.writeDescriptor (ptr.load s total) with
      | (none, file) => (.abandoned, { file with error := true })
      | (some count, file) => (.counted (written + count), file)
    else if file.bufferWriteBytes < file.bufferSize then
      let count := min (file.bufferSize - file.bufferWriteBytes).toNat total
      let file := file.putBytes (ptr.load s count)
      match file.flushIfFull with
      | (false, file) => (.counted written, file)
      | (true, file) =>
        if total - count = 0 then (.counted (written + count), file)
        else if file.bufferWriteBytes < file.bufferSize then
          fwriteFull ptr fuel (s + count) (total - count) (written + count) file
        else
          match file.putc (ptr (s + count : Nat)) .full with
          | (none, file) => (.abandoned, file)
          | (some _, file) =>
            fwriteFull ptr fuel (s + count + 1) (total - count) (written + count + 1) file
    else
      match file.putc (ptr s) .full with
      | (none, file) => (.abandoned, file)
      | (some _, file) => fwriteFull ptr fuel (s + 1) total (written + 1) file

/-- The unbuffered branch of `fwrite`. -/
def fwriteNone (ptr : Block) (total : Nat) (file : Iob δ) : FwriteEnd × Iob δ :=
  match file.writeDescriptor (ptr.load 0 (min total file.bufferSize.toNat)) with
  | (none, file) => (.abandoned, { file with error := true })
  | (some count, file) =>
    (.counted count,
      if file.writeBufferIsValid then file.flushIobWriteBuffer.2 else file)

/-- The `switch (buffer_mode)` of `fwrite`.  `rounds` bounds the loops; one
round more than twice the byte count is enough whenever they end at all. -/
def fwriteBytes (ptr : Block) (rounds total : Nat) (file : Iob δ) : FwriteEnd × Iob δ :=
  match file.outputMode with
  | .line => fwriteLine ptr rounds 0 total 0 file
  | .none => fwriteNone ptr total file
  | .full => fwriteFull ptr rounds 0 total 0 file

/-- `fwrite`.  The result is `none` when the call is still looping after
`2 * total + 2` rounds. -/
def fwrite (ptr : Block) (elementSize count : Nat) (file : Iob δ) : Option Nat × Iob δ :=
  if !file.inUse || !file.canWrite then (some 0, file.fail .EBADF)
  else if 0 < elementSize /\ 0 < count then
    let total := sizeT (elementSize * count)
    if elementSize ≠ total / count then (some 0, file)
    else
      match file.fwriteBytes ptr (2 * total + 2) total with
      | (.counted bytes, file) => (some (bytes / elementSize), file)
      | (.abandoned, file) => (some 0, file)
      | (.running, file) => (none, file)
  else (some 0, file)

end Iob

theorem clip_toNat (c : UInt8) : clip (c.toNat : Int) = c := by
  unfold clip
  have small := c.toNat_lt
  have exact : ((c.toNat : Int) % 256).toNat = c.toNat := by omega
  rw [exact]
  simp

theorem lineChunk_bounds {δ : Type} (s : List UInt8) (file : Iob δ) (some : s ≠ [])
    (room : file.bufferWriteBytes < file.bufferSize) :
    0 < (file.lineChunk s).1 /\ (file.lineChunk s).1 <= s.length /\
      ((file.lineChunk s).1 : Int) <= file.bufferSize - file.bufferWriteBytes := by
  have length := List.length_pos_iff.mpr some
  unfold Iob.lineChunk
  generalize roomEq : min (file.bufferSize - file.bufferWriteBytes).toNat s.length = limit
  dsimp only
  cases found : Iob.lineEnd (s.take limit) with
  | none =>
    simp only
    omega
  | some count =>
    have pos := lineEnd_pos found
    have within := lineEnd_le found
    rw [List.length_take] at within
    simp only
    omega

end Clib4.Stdio
