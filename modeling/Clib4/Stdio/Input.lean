import Clib4.Stdio.Iob

namespace Clib4.Stdio

open Foundation

/-!
# Reading from a stream

`fgetc.c`, `fgets.c`, `fread.c`, `ungetc.c` and the `__getc` macro.  A
character that was read is `some`, `EOF` is `none`.  Destination memory is
what the caller passed; loops carry the number of bytes still wanted as fuel,
which is enough because every round delivers a byte or ends the loop.
-/

namespace Iob

variable {δ : Type} [Action δ]

def takeByte (file : Iob δ) : Option UInt8 × Iob δ :=
  (some (file.buffer file.bufferPosition),
    { file with bufferPosition := file.bufferPosition + 1 })

/-- `__fgetc`. -/
def fgetcCore (file : Iob δ) : Option UInt8 × Iob δ :=
  if file.readBufferIsEmpty then
    match file.fillIobReadBuffer with
    | (false, file) => (none, file)
    | (true, file) =>
      if file.readBufferIsEmpty then (none, { file with eofReached := true })
      else file.takeByte
  else file.takeByte

/-- The `__getc` macro. -/
def getc (file : Iob δ) : Option UInt8 × Iob δ :=
  if file.bufferPosition < file.bufferReadBytes then file.takeByte
  else file.fgetcCore

def fgetcCheck (file : Iob δ) : Bool × Iob δ :=
  if !file.inUse then (false, file.fail .EBADF)
  else if !file.canRead then (false, file.fail .EBADF)
  else if file.writeBufferIsValid then file.flushIobWriteBuffer
  else (true, file)

def fgetc (file : Iob δ) : Option UInt8 × Iob δ :=
  match file.fgetcCheck with
  | (false, file) => (none, file)
  | (true, file) => file.getc

def clearerr (file : Iob δ) : Iob δ :=
  { file with error := false, eofReached := false }

/-! ## Lines -/

/-- What `fgets` did: whether it returned `NULL`, and the bytes it stored. -/
structure FgetsResult where
  isNull : Bool
  stored : List UInt8
  deriving DecidableEq, Repr

/-- Number of bytes up to and including the first line feed, found by
`memchr`. -/
def lineEnd (bytes : List UInt8) : Option Nat :=
  (bytes.idxOf? lineFeed).map (· + 1)

/-- The buffer copy at the head of the `fgets` loop.  On the left, the read
operation is concluded; on the right, `n`, the string and the stream for the
rest of the round. -/
def fgetsCopy (n : Nat) (s : List UInt8) (file : Iob δ) :
    (FgetsResult × Iob δ) ⊕ (Nat × List UInt8 × Iob δ) :=
  if file.bufferPosition < file.bufferReadBytes then
    let count := min (file.bufferReadBytes - file.bufferPosition).toNat n
    let bytes := file.buffer.load file.bufferPosition count
    match lineEnd bytes with
    | some line =>
      .inl (⟨false, s ++ bytes.take line ++ [0]⟩,
        { file with bufferPosition := file.bufferPosition + line })
    | none =>
      let file := { file with bufferPosition := file.bufferPosition + count }
      if n - count = 0 then .inl (⟨false, s ++ bytes ++ [0]⟩, file)
      else .inr (n - count, s ++ bytes, file)
  else .inr (n, s, file)

/-- The `while (n > 0)` loop of `fgets`. -/
def fgetsLoop : Nat -> Nat -> List UInt8 -> Iob δ -> FgetsResult × Iob δ
  | 0, _, s, file => (⟨false, s ++ [0]⟩, file)
  | fuel + 1, n, s, file =>
    if n = 0 then (⟨false, s ++ [0]⟩, file)
    else
      match fgetsCopy n s file with
      | .inl finished => finished
      | .inr (n, s, file) =>
        match file.getc with
        | (none, file) => (⟨file.error || s.isEmpty, s ++ [0]⟩, file)
        | (some c, file) =>
          if c = lineFeed then (⟨false, s ++ [c] ++ [0]⟩, file)
          else fgetsLoop fuel (n - 1) (s ++ [c]) file

def fgets (n : Int) (file : Iob δ) : FgetsResult × Iob δ :=
  if n <= 0 then (⟨true, []⟩, file)
  else
    match file.fgetcCheck with
    | (false, file) => (⟨true, []⟩, file)
    | (true, file) => fgetsLoop (n - 1).toNat (n - 1).toNat [] file.clearerr

/-! ## Blocks -/

/-- `byteswap16`, `byteswap32` and `byteswap64`, picked by the size given. -/
def byteswap (bytes : List UInt8) : List UInt8 :=
  if bytes.length = 2 \/ bytes.length = 4 \/ bytes.length = 8 then bytes.reverse else bytes

/-- `read` on the descriptor of the stream. -/
def readDescriptor (size : Nat) (file : Iob δ) : Option (List UInt8) × Iob δ :=
  if Action.mayRead file.device = false then (none, { file with errno := some .EBADF })
  else if size = 0 then (some [], { file with errno := none })
  else
    match Action.read file.device size with
    | (.error code, device) => (none, { file with device := device, errno := some code })
    | (.ok bytes, device) =>
      (some (if file.descriptorLittleEndian /\ bytes.length = size then byteswap bytes
        else bytes),
        { file with device := device, errno := none })

theorem readDescriptor_eq {file : Iob δ} (may : Action.mayRead file.device) (size : Nat) :
    file.readDescriptor size =
      if size = 0 then (some [], { file with errno := none })
      else
        match Action.read file.device size with
        | (.error code, device) => (none, { file with device := device, errno := some code })
        | (.ok bytes, device) =>
          (some (if file.descriptorLittleEndian /\ bytes.length = size then byteswap bytes
            else bytes),
            { file with device := device, errno := none }) := by
  rw [readDescriptor, if_neg (by rw [may]; simp)]

/-- A read that bypasses the buffer.  `none` is the jump to `out` with nothing
counted. -/
def freadDirect (total : Nat) (file : Iob δ) : Option (List UInt8) × Iob δ :=
  match file.readDescriptor total with
  | (none, file) => (none, { file with error := true })
  | (some bytes, file) =>
    (some bytes, if bytes = [] then { file with eofReached := true } else file)

/-- What `__fread_internal` did: the bytes it stored, and whether it jumped to
`out` without counting them. -/
structure FreadResult where
  stored : List UInt8
  failed : Bool
  deriving DecidableEq, Repr

/-- The `while (total_size > 0)` loop of `__fread_internal`. -/
def freadLoop : Nat -> Nat -> List UInt8 -> Iob δ -> FreadResult × Iob δ
  | 0, _, data, file => (⟨data, false⟩, file)
  | fuel + 1, total, data, file =>
    if total = 0 then (⟨data, false⟩, file)
    else if file.bufferReadBytes = 0 /\ file.bufferSize <= total then
      match file.freadDirect total with
      | (none, file) => (⟨data, true⟩, file)
      | (some bytes, file) => (⟨data ++ bytes, false⟩, file)
    else
      -- Copy what the buffer still holds; an empty buffer copies nothing.
      let count :=
        if file.bufferPosition < file.bufferReadBytes then
          min (file.bufferReadBytes - file.bufferPosition).toNat total
        else 0
      let data := data ++ file.buffer.load file.bufferPosition count
      let file := { file with bufferPosition := file.bufferPosition + count }
      if total - count = 0 then (⟨data, false⟩, file)
      else
        match file.getc with
        | (none, file) => (⟨data, false⟩, file)
        | (some c, file) => freadLoop fuel (total - count - 1) (data ++ [c]) file

/-- `size_t` arithmetic. -/
def sizeT (n : Nat) : Nat := n % 2 ^ 32

/-- The part of `__fread_internal` behind the checks. -/
def freadBytes (total : Nat) (file : Iob δ) : FreadResult × Iob δ :=
  if file.bufferMode = .none then
    match file.freadDirect total with
    | (none, file) => (⟨[], true⟩, file)
    | (some bytes, file) => (⟨bytes, false⟩, file)
  else freadLoop total total [] file

/-- `__fread_internal`: the number of elements, and the bytes stored. -/
def freadInternal (elementSize count : Nat) (file : Iob δ) : (Nat × List UInt8) × Iob δ :=
  if !file.inUse then ((0, []), file.fail .EBADF)
  else if !file.canRead then ((0, []), file.fail .EBADF)
  else
    let file := file.clearerr
    if 0 < elementSize /\ 0 < count then
      match file.fgetcCheck with
      | (false, file) => ((0, []), file)
      | (true, file) =>
        let total := sizeT (elementSize * count)
        if elementSize ≠ total / count then ((0, []), file)
        else
          match file.freadBytes total with
          | (⟨stored, true⟩, file) => ((0, stored), file)
          | (⟨stored, false⟩, file) => ((stored.length / elementSize, stored), file)
    else ((0, []), file)

/-- `fread`: the number of elements, and the memory behind `ptr` afterwards. -/
def fread (ptr : Block) (elementSize count : Nat) (file : Iob δ) : (Nat × Block) × Iob δ :=
  match file.freadInternal elementSize count with
  | ((elements, stored), file) =>
    let memory := ptr.store 0 stored
    let total := sizeT (elementSize * count)
    if file.littleEndian /\ (total = 2 \/ total = 4 \/ total = 8) then
      ((elements, memory.store 0 (byteswap (memory.load 0 elementSize))), file)
    else ((elements, memory), file)

/-! ## Pushing a character back -/

def ungetc (c : Int) (file : Iob δ) : Option UInt8 × Iob δ :=
  if !file.inUse then (none, file.fail .EBADF)
  else if !file.canRead then (none, file.fail .EACCES)
  else if c = -1 then (none, file.fail .EINVAL)
  else
    match (if file.writeBufferIsValid then file.flushIobWriteBuffer else (true, file)) with
    | (false, file) => (none, file)
    | (true, file) =>
      if file.bufferPosition = 0 then (none, file.fail .ENOBUFS)
      else
        (some (clip c),
          { file with
            eofReached := false
            bufferPosition := file.bufferPosition - 1
            buffer := file.buffer.store (file.bufferPosition - 1) [clip c] })

end Iob

/-! ## Ends of lines -/

theorem lineEnd_nil : Iob.lineEnd [] = none := rfl

theorem lineEnd_cons (c : UInt8) (rest : List UInt8) : Iob.lineEnd (c :: rest) =
      if c = lineFeed then some 1 else (Iob.lineEnd rest).map (· + 1) := by
  unfold Iob.lineEnd
  rw [List.idxOf?_cons]
  by_cases found : c = lineFeed
  · simp [found]
  · simp [found, Option.map_map]

theorem lineEnd_pos {bytes : List UInt8} {stop : Nat} (found : Iob.lineEnd bytes = some stop) :
    0 < stop := by
  rcases Option.map_eq_some_iff.mp found with ⟨idx, -, rfl⟩
  exact Nat.succ_pos idx

theorem lineEnd_le {bytes : List UInt8} {stop : Nat} (found : Iob.lineEnd bytes = some stop) :
    stop <= bytes.length := by
  induction bytes generalizing stop with
  | nil => simp [lineEnd_nil] at found
  | cons c rest ih =>
    rw [lineEnd_cons] at found
    split at found
    · cases found
      simp
    · rcases Option.map_eq_some_iff.mp found with ⟨inner, innerFound, rfl⟩
      simpa using ih innerFound

end Clib4.Stdio
