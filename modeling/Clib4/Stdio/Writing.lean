import Clib4.Stdio.Reading

namespace Clib4.Stdio

open Foundation List

/-!
# Pending output against the plain array

A stream with output pending is behind the array by the bytes in its buffer:
writing them at the descriptor's position gives the array.  Every way of
putting a byte, through the buffer or past it, extends both sides alike.
-/

/-- The pending bytes complete the array, and the counters of the read window
are `readBytes` and `position`.  Only a stream that was not told to change
from input to output has a window here. -/
structure Pending (array : ByteFile) (readBytes position : Int) (file : Iob ByteFile) :
    Prop where
  healthy : Healthy file
  readBytes_eq : file.bufferReadBytes = readBytes
  position_eq : file.bufferPosition = position
  pendingNonneg : 0 <= file.bufferWriteBytes
  pendingLe : file.bufferWriteBytes <= file.bufferSize
  array_eq : array = file.device.write (file.buffer.load 0 file.bufferWriteBytes.toNat)

/-- The stream has no read window, and its pending bytes complete the array. -/
def Writes (array : ByteFile) (file : Iob ByteFile) : Prop :=
  Pending array 0 0 file

def Iob.settled (file : Iob ByteFile) (array : ByteFile) : Iob ByteFile :=
  { file with device := array, bufferWriteBytes := 0 }

namespace Pending

variable {array : ByteFile} {readBytes position : Int} {file : Iob ByteFile}

theorem device_of_no_pending (pending : Pending array readBytes position file)
    (empty : file.bufferWriteBytes = 0) : file.device = array := by
  rw [pending.array_eq, empty]
  simp

theorem of_device (healthy : Healthy file) (readBytes_eq : file.bufferReadBytes = readBytes)
    (position_eq : file.bufferPosition = position) (empty : file.bufferWriteBytes = 0)
    (device : file.device = array) : Pending array readBytes position file where
  healthy := healthy
  readBytes_eq := readBytes_eq
  position_eq := position_eq
  pendingNonneg := by rw [empty]
  pendingLe := by rw [empty]; exact le_of_lt healthy.sizePos
  array_eq := by rw [empty, device]; simp

section

variable (pending : Pending array readBytes position file)
include pending

theorem flags (error eofReached : Bool) (errno : Option Errno) : Pending array readBytes position
      { file with error := error, eofReached := eofReached, errno := errno } :=
  ⟨pending.healthy, pending.readBytes_eq, pending.position_eq, pending.pendingNonneg,
    pending.pendingLe, pending.array_eq⟩

theorem settled : Pending array readBytes position (file.settled array) where
  healthy := pending.healthy
  readBytes_eq := pending.readBytes_eq
  position_eq := pending.position_eq
  pendingNonneg := le_refl _
  pendingLe := le_of_lt pending.healthy.sizePos
  array_eq := by simp [Iob.settled]

theorem flushIobWriteBuffer : file.flushIobWriteBuffer = (true, file.settled array) := by
  unfold Iob.flushIobWriteBuffer
  by_cases valid : 0 < file.bufferWriteBytes
  · rw [if_pos (by simp [pending.healthy.inUse, Iob.writeBufferIsValid, valid])]
    simp [Action.write, Iob.settled, <- pending.array_eq]
  · have empty : file.bufferWriteBytes = 0 := by
      have := pending.pendingNonneg
      omega
    rw [if_neg (by simp [Iob.writeBufferIsValid, empty])]
    have device := pending.device_of_no_pending empty
    simp only [Iob.settled, <- device, <- empty]

/-! ## Putting bytes -/

theorem putBytes (bytes : List UInt8)
    (fits : (bytes.length : Int) <= file.bufferSize - file.bufferWriteBytes) :
    Pending (array.write bytes) readBytes position (file.putBytes bytes) where
  healthy := pending.healthy
  readBytes_eq := pending.readBytes_eq
  position_eq := pending.position_eq
  pendingNonneg := by
    have := pending.pendingNonneg
    simp only [Iob.putBytes]
    omega
  pendingLe := by
    simp only [Iob.putBytes]
    omega
  array_eq := by
    have nonneg := pending.pendingNonneg
    have total : (file.bufferWriteBytes + (bytes.length : Int)).toNat =
        file.bufferWriteBytes.toNat + bytes.length := by omega
    have start : file.bufferWriteBytes = 0 + (file.bufferWriteBytes.toNat : Int) := by omega
    simp only [Iob.putBytes, total]
    conv_rhs => rw [start, Int.toNat_add (by omega) (by omega), Int.toNat_natCast,
      Int.toNat_zero, Nat.zero_add]
    rw [Block.load_store_append, <- ByteFile.write_write, <- pending.array_eq]

theorem putByte (c : UInt8) (room : file.bufferWriteBytes < file.bufferSize) :
    Pending (array.write [c]) readBytes position (file.putByte c) :=
  pending.putBytes [c] (by simp; omega)

theorem flushWhen (condition : Prop) [Decidable condition]
    (whenFull : file.writeBufferIsFull -> condition) :
    ∃ next, (if condition then file.flushIobWriteBuffer else (true, file)) = (true, next) /\
      Pending array readBytes position next /\ next.bufferWriteBytes < next.bufferSize := by
  by_cases flushes : condition
  · rw [if_pos flushes, pending.flushIobWriteBuffer]
    exact ⟨_, rfl, pending.settled, pending.healthy.sizePos⟩
  · rw [if_neg flushes]
    refine ⟨file, rfl, pending, ?_⟩
    have size := pending.healthy.sizePos
    have le := pending.pendingLe
    have notFull := mt whenFull flushes
    simp only [Iob.writeBufferIsFull, Bool.and_eq_true, decide_eq_true_eq, not_and] at notFull
    have := notFull size
    omega

theorem flushIfFull :
    ∃ next, file.flushIfFull = (true, next) /\ Pending array readBytes position next /\
      next.bufferWriteBytes < next.bufferSize :=
  pending.flushWhen _ id

theorem fputcCore (c : Int) (mode : BufferMode) :
    ∃ next, file.fputcCore c mode = (some (clip c), next) /\
      Pending (array.write [clip c]) readBytes position next := by
  rcases pending.flushIfFull with ⟨flushed, flush, flushedPending, room⟩
  have put := flushedPending.putByte (clip c) room
  unfold Iob.fputcCore
  rw [flush]
  simp only
  split
  · rw [put.flushIobWriteBuffer]
    exact ⟨_, rfl, put.settled⟩
  · exact ⟨_, rfl, put⟩

theorem putc_of_full (c : UInt8) (mode : BufferMode)
    (full : ¬file.bufferWriteBytes < file.bufferSize) :
    ∃ next, file.putc c mode = (some c, next) /\
      Pending (array.write [c]) readBytes position next := by
  unfold Iob.putc
  rw [if_neg full]
  rcases pending.fputcCore c.toNat mode with ⟨next, put, after⟩
  rw [clip_toNat] at put after
  exact ⟨next, put, after⟩

theorem writeDescriptor (bytes : List UInt8) (empty : file.bufferWriteBytes = 0) :
    ∃ next, file.writeDescriptor bytes = (some bytes.length, next) /\
      Pending (array.write bytes) readBytes position next := by
  have device := pending.device_of_no_pending empty
  rw [Iob.writeDescriptor_eq rfl]
  by_cases nothing : bytes = []
  · subst bytes
    exact ⟨file, by simp, by simpa using pending⟩
  · rw [if_neg nothing]
    refine ⟨_, rfl, ?_⟩
    exact
      { healthy := pending.healthy
        readBytes_eq := pending.readBytes_eq
        position_eq := pending.position_eq
        pendingNonneg := pending.pendingNonneg
        pendingLe := pending.pendingLe
        array_eq := by simp [empty, device] }

end

end Pending

/-! ## One round of the block loops -/

theorem write_take_drop (array : ByteFile) (s : List UInt8) (count : Nat) :
    (array.write (s.take count)).write (s.drop count) = array.write s := by
  rw [ByteFile.write_write, take_append_drop]

theorem write_head_tail (array : ByteFile) (c : UInt8) (rest : List UInt8) :
    (array.write [c]).write rest = array.write (c :: rest) := by
  rw [ByteFile.write_write]
  rfl

variable {readBytes position : Int}

theorem Pending.fputsLine (fuel : Nat) :
    ∀ (s : List UInt8) (array : ByteFile) (file : Iob ByteFile), s.length <= fuel ->
      Pending array readBytes position file ->
      ∃ next, Iob.fputsLine fuel s file = (true, next) /\
        Pending (array.write s) readBytes position next := by
  induction fuel with
  | zero =>
    intro s array file short pending
    have nothing : s = [] := length_eq_zero_iff.mp (by omega)
    subst s
    exact ⟨file, rfl, by simpa using pending⟩
  | succ fuel ih =>
    intro s array file short pending
    cases s with
    | nil => exact ⟨file, rfl, by simpa using pending⟩
    | cons c rest =>
      unfold Iob.fputsLine
      dsimp only
      by_cases room : file.bufferWriteBytes < file.bufferSize
      · rcases lineChunk_bounds (c :: rest) file (by simp) room with
          ⟨pos, within, fits⟩
        rw [if_pos room]
        generalize Iob.lineChunk (c :: rest) file = chunk at pos within fits ⊢
        rcases chunk with ⟨count, lf⟩
        dsimp only at pos within fits ⊢
        have put := pending.putBytes ((c :: rest).take count)
          (by rw [length_take, Nat.min_eq_left within]; exact fits)
        rcases put.flushWhen _ (@Or.inr (lf) _) with ⟨flushed, flush, after, room⟩
        rw [flush]
        obtain ⟨next, done, whole⟩ := ih ((c :: rest).drop count) _ flushed
          (by rw [length_drop]; omega) after
        rw [write_take_drop] at whole
        refine ⟨next, ?_, whole⟩
        rw [<- done]
        cases (c :: rest).drop count with
        | nil => cases fuel <;> rfl
        | cons d tail => exact if_pos room
      · rw [if_neg room]
        rcases pending.putc_of_full c .line room with ⟨next, put, after⟩
        rw [put, <- write_head_tail]
        exact ih rest _ next (by simpa using short) after

theorem Pending.fputsFull (fuel : Nat) :
    ∀ (s : List UInt8) (array : ByteFile) (file : Iob ByteFile), s.length <= fuel ->
      Pending array readBytes position file ->
      ∃ next, Iob.fputsFull fuel s file = (true, next) /\
        Pending (array.write s) readBytes position next := by
  induction fuel with
  | zero =>
    intro s array file short pending
    have nothing : s = [] := length_eq_zero_iff.mp (by omega)
    subst s
    exact ⟨file, rfl, by simpa using pending⟩
  | succ fuel ih =>
    intro s array file short pending
    cases s with
    | nil => exact ⟨file, rfl, by simpa using pending⟩
    | cons c rest =>
      unfold Iob.fputsFull
      dsimp only
      by_cases direct : file.bufferWriteBytes = 0 /\ file.bufferSize <= ((c :: rest).length : Int)
      · -- Nothing pending and at least a bufferful to write: past the buffer.
        rw [if_pos direct]
        rcases pending.writeDescriptor (c :: rest) direct.1 with ⟨next, written, after⟩
        rw [written]
        exact ⟨next, rfl, after⟩
      · rw [if_neg direct]
        by_cases room : file.bufferWriteBytes < file.bufferSize
        · rw [if_pos room]
          generalize countEq : min (file.bufferSize - file.bufferWriteBytes).toNat
            (c :: rest).length = count
          have within : count <= (c :: rest).length := by omega
          have pos : 0 < count := by
            simp only [length_cons] at countEq
            omega
          have put := pending.putBytes ((c :: rest).take count)
            (by rw [length_take, Nat.min_eq_left within]; omega)
          rcases put.flushIfFull with ⟨flushed, flush, after, room⟩
          rw [flush]
          obtain ⟨next, done, whole⟩ := ih ((c :: rest).drop count) _ flushed
            (by rw [length_drop]; omega) after
          rw [write_take_drop] at whole
          refine ⟨next, ?_, whole⟩
          rw [<- done]
          cases (c :: rest).drop count with
          | nil => cases fuel <;> rfl
          | cons d tail => exact if_pos room
        · rw [if_neg room]
          rcases pending.putc_of_full c .full room with ⟨next, put, after⟩
          rw [put, <- write_head_tail]
          exact ih rest _ next (by simpa using short) after

theorem write_load_split (array : ByteFile) (ptr : Block) (s count total : Nat)
    (within : count <= total) :
    (array.write (ptr.load s count)).write (ptr.load (s + count : Nat) (total - count)) =
      array.write (ptr.load s total) := by
  rw [ByteFile.write_write]
  have whole : total = count + (total - count) := by omega
  conv_rhs => rw [whole, Block.load_add]
  simp

theorem Pending.fwriteLine (ptr : Block) (fuel : Nat) :
    ∀ (s total written : Nat) (array : ByteFile) (file : Iob ByteFile), total < fuel ->
      Pending array readBytes position file -> file.bufferWriteBytes < file.bufferSize ->
      ∃ next, Iob.fwriteLine ptr fuel s total written file =
          (.counted (written + total), next) /\
        Pending (array.write (ptr.load s total)) readBytes position next := by
  induction fuel with
  | zero =>
    intro s total written array file short
    omega
  | succ fuel ih =>
    intro s total written array file short pending room
    unfold Iob.fwriteLine
    by_cases finished : total = 0
    · subst total
      exact ⟨file, rfl, by simpa using pending⟩
    · rw [if_neg finished, if_pos room]
      have some : ptr.load s total ≠ [] := by
        intro empty
        have := congrArg List.length empty
        simp at this
        omega
      rcases lineChunk_bounds (ptr.load s total) file some room with ⟨pos, within, fits⟩
      generalize Iob.lineChunk (ptr.load s total) file = chunk at pos within fits ⊢
      rcases chunk with ⟨count, lf⟩
      rw [Block.length_load] at within
      dsimp only at pos within fits ⊢
      have put := pending.putBytes (ptr.load s count) (by rw [Block.length_load]; exact fits)
      rcases put.flushWhen _ (@Or.inr (lf) _) with ⟨flushed, flush, after, room⟩
      rw [flush]
      dsimp only
      have split := write_load_split array ptr s count total within
      by_cases last : total - count = 0
      · rw [if_pos last]
        have same : count = total := by omega
        subst count
        exact ⟨flushed, rfl, after⟩
      · rw [if_neg last, if_pos room]
        rcases ih (s + count) (total - count) (written + count) _ flushed (by omega) after room
          with ⟨next, result, nextPending⟩
        rw [split] at nextPending
        have counted : written + count + (total - count) = written + total := by omega
        exact ⟨next, by rw [result, counted], nextPending⟩

theorem Pending.fwriteFull (ptr : Block) (fuel : Nat) :
    ∀ (s total written : Nat) (array : ByteFile) (file : Iob ByteFile), total < fuel ->
      Pending array readBytes position file -> file.bufferWriteBytes < file.bufferSize ->
      ∃ next, Iob.fwriteFull ptr fuel s total written file =
          (.counted (written + total), next) /\
        Pending (array.write (ptr.load s total)) readBytes position next := by
  induction fuel with
  | zero =>
    intro s total written array file short
    omega
  | succ fuel ih =>
    intro s total written array file short pending room
    unfold Iob.fwriteFull
    by_cases finished : total = 0
    · subst total
      exact ⟨file, rfl, by simpa using pending⟩
    · rw [if_neg finished]
      by_cases direct : file.bufferWriteBytes = 0 /\ file.bufferSize <= (total : Int)
      · rw [if_pos direct]
        rcases pending.writeDescriptor (ptr.load s total) direct.1 with ⟨next, done, after⟩
        rw [done, Block.length_load]
        exact ⟨next, rfl, after⟩
      · rw [if_neg direct, if_pos room]
        dsimp only
        generalize countEq : min (file.bufferSize - file.bufferWriteBytes).toNat total = count
        have put := pending.putBytes (ptr.load s count) (by rw [Block.length_load]; omega)
        rcases put.flushIfFull with ⟨flushed, flush, after, room⟩
        rw [flush]
        dsimp only
        have split := write_load_split array ptr s count total (by omega)
        by_cases last : total - count = 0
        · rw [if_pos last]
          have same : count = total := by omega
          subst same
          exact ⟨flushed, rfl, after⟩
        · rw [if_neg last, if_pos room]
          rcases ih (s + count) (total - count) (written + count) _ flushed (by omega) after
            room with ⟨next, result, nextPending⟩
          rw [split] at nextPending
          have counted : written + count + (total - count) = written + total := by omega
          exact ⟨next, by rw [result, counted], nextPending⟩

section

variable {array : ByteFile} {file : Iob ByteFile} (pending : Pending array readBytes position file)
include pending

theorem Pending.fputsBytes (s : List UInt8) : ∃ next, file.fputsBytes s = (true, next) /\
      Pending (array.write s) readBytes position next := by
  have mode : file.outputMode = file.bufferMode := by
    simp [Iob.outputMode, pending.healthy.buffered]
  unfold Iob.fputsBytes
  rw [mode]
  cases kind : file.bufferMode with
  | full => exact Pending.fputsFull _ s array file (le_refl _) pending
  | line => exact Pending.fputsLine _ s array file (le_refl _) pending
  | none => exact absurd kind pending.healthy.buffered

theorem Pending.fwriteBytes (empty : file.bufferWriteBytes = 0) (ptr : Block) (rounds total : Nat)
    (enough : total < rounds) :
    ∃ next, file.fwriteBytes ptr rounds total = (.counted total, next) /\
      Pending (array.write (ptr.load 0 total)) readBytes position next := by
  have mode : file.outputMode = file.bufferMode := by
    simp [Iob.outputMode, pending.healthy.buffered]
  have room : file.bufferWriteBytes < file.bufferSize := by
    rw [empty]
    exact pending.healthy.sizePos
  unfold Iob.fwriteBytes
  rw [mode]
  cases kind : file.bufferMode with
  | full => simpa using Pending.fwriteFull ptr rounds 0 total 0 array file enough pending room
  | line => simpa using Pending.fwriteLine ptr rounds 0 total 0 array file enough pending room
  | none => exact absurd kind pending.healthy.buffered

end

end Clib4.Stdio
