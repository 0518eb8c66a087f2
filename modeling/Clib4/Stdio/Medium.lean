import Clib4.Stdio.Output

namespace Clib4.Stdio

open Foundation

/-!
# Output to a medium that may refuse

Behind a stream that only writes stands a medium: the bytes it took so far, in
order, and the outcomes of the writes to come.  A write that fails leaves what
was taken as it is.  What a stream holds is what the medium took, followed by
what is pending in the buffer.
-/

/-- Bytes taken, and the outcomes of the next writes.  Behind the last outcome
every write succeeds. -/
structure Medium where
  taken : List UInt8
  outcomes : List Bool
  deriving DecidableEq, Repr

namespace Medium

def accepts (outcomes : List Bool) : Bool :=
  outcomes.headD true

def write (medium : Medium) (data : List UInt8) : Except Errno Nat × Medium :=
  if accepts medium.outcomes then
    (.ok data.length, ⟨medium.taken ++ data, medium.outcomes.tail⟩)
  else (.error (.io 0), ⟨medium.taken, medium.outcomes.tail⟩)

end Medium

/-- Nothing is ever read from a medium, and there is nowhere to seek. -/
instance mediumAction : Action Medium where
  read := fun medium _ => (.error .EBADF, medium)
  write := Medium.write
  seek := fun medium _ _ => (.error .EINVAL, medium)
  flushOthers := fun medium => (true, medium)
  read_length := by
    intro medium size bytes next answer
    cases answer

namespace Iob

def pending (file : Iob Medium) : List UInt8 :=
  file.buffer.load 0 file.bufferWriteBytes.toNat

def held (file : Iob Medium) : List UInt8 :=
  file.device.taken ++ file.pending

def flushed (file : Iob Medium) : Iob Medium :=
  { file with
    device := ⟨file.held, file.device.outcomes.tail⟩
    bufferWriteBytes := 0 }

def refused (file : Iob Medium) : Iob Medium :=
  { file with
    device := ⟨file.device.taken, file.device.outcomes.tail⟩
    error := true
    errno := some (.io 0) }

@[simp] theorem held_flushed (file : Iob Medium) : file.flushed.held = file.held := by
  simp [held, flushed, pending]

@[simp] theorem held_refused (file : Iob Medium) : file.refused.held = file.held := rfl

@[simp] theorem device_putBytes (file : Iob Medium) (bytes : List UInt8) :
    (file.putBytes bytes).device = file.device := rfl

@[simp] theorem outcomes_flushed (file : Iob Medium) :
    file.flushed.device.outcomes = file.device.outcomes.tail := rfl

theorem held_takeBack_putByte (file : Iob Medium) (c : UInt8)
    (nonneg : 0 <= file.bufferWriteBytes) :
    (file.putByte c).refused.takeBack.held = file.held := by
  have same : file.bufferWriteBytes + 1 - 1 = file.bufferWriteBytes := by omega
  simp only [held, pending, takeBack, refused, putByte, same]
  rw [Block.load_store_disjoint]
  omega

theorem held_putBytes (file : Iob Medium) (bytes : List UInt8)
    (nonneg : 0 <= file.bufferWriteBytes) :
    (file.putBytes bytes).held = file.held ++ bytes := by
  obtain ⟨count, waiting⟩ := Int.eq_ofNat_of_zero_le nonneg
  have total : (file.bufferWriteBytes + (bytes.length : Int)).toNat = count + bytes.length := by
    omega
  have start : file.bufferWriteBytes = 0 + count := by omega
  have before : file.bufferWriteBytes.toNat = count := by omega
  simp only [held, pending, putBytes, total, before, List.append_assoc]
  rw [start, Block.load_store_append]

theorem held_putByte (file : Iob Medium) (c : UInt8) (nonneg : 0 <= file.bufferWriteBytes) :
    (file.putByte c).held = file.held ++ [c] :=
  file.held_putBytes [c] nonneg

end Iob

/-- A stream open for writing alone, with a buffer. -/
structure WriteStream (file : Iob Medium) : Prop where
  inUse : file.inUse
  canWrite : file.canWrite
  buffered : file.bufferMode ≠ .none
  noWindow : file.bufferReadBytes = 0
  sizePos : 0 < file.bufferSize
  pendingNonneg : 0 <= file.bufferWriteBytes
  pendingLe : file.bufferWriteBytes <= file.bufferSize

namespace WriteStream

variable {file : Iob Medium}

section

variable (stream : WriteStream file)
include stream

theorem flushed : WriteStream file.flushed :=
  { stream with pendingNonneg := le_refl _, pendingLe := le_of_lt stream.sizePos }

theorem room_flushed : file.flushed.bufferWriteBytes < file.flushed.bufferSize :=
  stream.sizePos

theorem refused : WriteStream file.refused :=
  { stream with }

theorem putBytes (bytes : List UInt8)
    (fits : file.bufferWriteBytes + (bytes.length : Int) <= file.bufferSize) :
    WriteStream (file.putBytes bytes) :=
  { stream with
    pendingNonneg := add_nonneg stream.pendingNonneg (Int.natCast_nonneg _)
    pendingLe := fits }

theorem putByte (c : UInt8) (room : file.bufferWriteBytes < file.bufferSize) :
    WriteStream (file.putByte c) :=
  stream.putBytes [c] room

/-! ## Flushing -/

theorem flush_of_pending (some : 0 < file.bufferWriteBytes) : file.flushIobWriteBuffer =
      if Medium.accepts file.device.outcomes then (true, file.flushed)
      else (false, file.refused) := by
  unfold Iob.flushIobWriteBuffer
  rw [if_pos (by simp [stream.inUse, Iob.writeBufferIsValid, some])]
  simp only [Action.write, Medium.write]
  split_ifs <;> rfl

theorem writeBufferIsFull_iff :
    file.writeBufferIsFull <-> file.bufferWriteBytes = file.bufferSize := by
  simp [Iob.writeBufferIsFull, stream.sizePos]

end

theorem flushIfFull_of_room (room : file.bufferWriteBytes < file.bufferSize) :
    file.flushIfFull = (true, file) := by
  unfold Iob.flushIfFull
  rw [if_neg (by simp [Iob.writeBufferIsFull]; omega)]

section

variable (stream : WriteStream file)
include stream

theorem flushIfFull_of_full (full : file.bufferWriteBytes = file.bufferSize) : file.flushIfFull =
      if Medium.accepts file.device.outcomes then (true, file.flushed)
      else (false, file.refused) := by
  have size := stream.sizePos
  unfold Iob.flushIfFull
  rw [if_pos (stream.writeBufferIsFull_iff.mpr full), stream.flush_of_pending (by omega)]

/-! ## Single bytes -/

theorem put_flush (c : UInt8) (room : file.bufferWriteBytes < file.bufferSize) :
    (file.putByte c).flushIobWriteBuffer =
      if Medium.accepts file.device.outcomes then (true, (file.putByte c).flushed)
      else (false, (file.putByte c).refused) :=
  (stream.putByte c room).flush_of_pending (by
    have := stream.pendingNonneg
    simp only [Iob.putByte]
    omega)

theorem takeBack_put (c : UInt8) : WriteStream (file.putByte c).refused.takeBack := by
  have same : (file.putByte c).refused.takeBack.bufferWriteBytes = file.bufferWriteBytes :=
    Int.add_sub_cancel ..
  exact
    { stream with
      pendingNonneg := same ▸ stream.pendingNonneg
      pendingLe := same ▸ stream.pendingLe }

variable (c : Int)

theorem fputcCore_of_room (mode : BufferMode) (room : file.bufferWriteBytes < file.bufferSize) :
    ∃ result next, file.fputcCore c mode = (result, next) /\ WriteStream next /\
      next.held = file.held ++ result.toList := by
  have put := file.held_putByte (clip c) stream.pendingNonneg
  unfold Iob.fputcCore
  rw [flushIfFull_of_room room]
  dsimp only
  split
  · rw [stream.put_flush (clip c) room]
    by_cases accepted : Medium.accepts file.device.outcomes
    · rw [if_pos accepted]
      exact ⟨_, _, rfl, (stream.putByte (clip c) room).flushed, by simpa using put⟩
    · rw [if_neg accepted]
      refine ⟨_, _, rfl, stream.takeBack_put (clip c), ?_⟩
      simpa using file.held_takeBack_putByte (clip c) stream.pendingNonneg
  · exact ⟨_, _, rfl, stream.putByte (clip c) room, by simpa using put⟩

theorem fputcCore_of_full (mode : BufferMode) (full : file.bufferWriteBytes = file.bufferSize) :
    file.fputcCore c mode =
      if Medium.accepts file.device.outcomes then file.flushed.fputcCore c mode
      else (none, file.refused) := by
  unfold Iob.fputcCore
  rw [stream.flushIfFull_of_full full, flushIfFull_of_room stream.room_flushed]
  split_ifs <;> rfl

theorem fputcCore (mode : BufferMode) :
    ∃ result next, file.fputcCore c mode = (result, next) /\ WriteStream next /\
      next.held = file.held ++ result.toList := by
  by_cases room : file.bufferWriteBytes < file.bufferSize
  · exact stream.fputcCore_of_room c mode room
  · have full := le_antisymm stream.pendingLe (not_lt.mp room)
    rw [stream.fputcCore_of_full c mode full]
    by_cases accepted : Medium.accepts file.device.outcomes
    · rw [if_pos accepted, <- file.held_flushed]
      exact stream.flushed.fputcCore_of_room c mode stream.sizePos
    · rw [if_neg accepted]
      exact ⟨none, file.refused, rfl, stream.refused, by simp⟩

theorem fputc : ∃ result next, file.fputc c = (result, next) /\ WriteStream next /\
      next.held = file.held ++ result.toList := by
  have checked : file.fputcCheck = (true, file) := by
    simp [Iob.fputcCheck, stream.inUse, stream.canWrite, Iob.readBufferIsValid, stream.noWindow]
  unfold Iob.fputc
  rw [checked]
  exact stream.fputcCore c file.bufferMode

end

end WriteStream

end Clib4.Stdio
