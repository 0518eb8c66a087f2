import Clib4.Stdio.Writing

namespace Clib4.Stdio

open Foundation

/-!
# A stream simulates the plain array

Between two calls a stream is either reading ahead or behind with its output.
Each call takes such a stream to such a stream and answers as the array does,
whichever state it starts in: the checks at the head of the calls change from
one state to the other.
-/

def Simulates (array : ByteFile) (file : Iob ByteFile) : Prop :=
  Reads array file \/ Writes array file

/-- A call that does not write leaves no output pending where there was none. -/
def Quiet (file next : Iob ByteFile) : Prop :=
  file.bufferWriteBytes = 0 -> next.bufferWriteBytes = 0

/-! ## Changing direction -/

theorem Writes.reads {array : ByteFile} {file : Iob ByteFile} (writes : Writes array file)
    (empty : file.bufferWriteBytes = 0) : Reads array file where
  healthy := writes.healthy
  noWrites := empty
  positionNonneg := by rw [writes.position_eq]
  positionLe := by rw [writes.position_eq, writes.readBytes_eq]
  readLe := by rw [writes.readBytes_eq]; exact le_of_lt writes.healthy.sizePos
  device := by
    rw [writes.device_of_no_pending empty, writes.position_eq, writes.readBytes_eq]
    simp
  started := by simp [writes.position_eq]
  window := by simp [writes.readBytes_eq]

namespace Reads

variable {array : ByteFile} {file : Iob ByteFile}

theorem quiet {before : Iob ByteFile} (reads : Reads array file) : Quiet before file :=
  fun _ => reads.noWrites

theorem writes (reads : Reads array file) (empty : file.bufferReadBytes = 0) :
    Writes array file := by
  have nonneg := reads.positionNonneg
  have ordered := reads.positionLe
  have start : file.bufferPosition = 0 := by omega
  have device : file.device = array := by
    rw [reads.device, empty, start]
    rfl
  exact Pending.of_device reads.healthy empty start reads.noWrites device

theorem numUnreadBytes (reads : Reads array file) :
    file.numUnreadBytes = file.bufferReadBytes - file.bufferPosition := by
  have nonneg := reads.positionNonneg
  have ordered := reads.positionLe
  unfold Iob.numUnreadBytes
  split <;> omega

theorem seek_back (reads : Reads array file) :
    file.device.seek (-(file.bufferReadBytes - file.bufferPosition)) .current = array := by
  have ordered := reads.positionLe
  have unread : -(file.bufferReadBytes - file.bufferPosition) =
      -((file.bufferReadBytes - file.bufferPosition).toNat : Int) := by omega
  rw [unread, reads.device]
  exact ByteFile.seek_back_advance array _ reads.unread_le_rest

theorem dropIobReadBuffer (reads : Reads array file) :
    ∃ next, file.dropIobReadBuffer = (true, next) /\ Writes array next /\
      next.bufferWriteBytes = 0 := by
  have ordered := reads.positionLe
  by_cases valid : 0 < file.bufferReadBytes
  · have still : file.bufferPosition = file.bufferReadBytes -> array = file.device := by
      intro usedUp
      rw [reads.device, usedUp, Int.sub_self]
      rfl
    refine ⟨_, Iob.dropIobReadBuffer_of_back reads.healthy.inUse valid ordered
      (congrArg (fun next : ByteFile => (Except.ok (next.position : Int), next)) reads.seek_back)
      still, ?_, reads.noWrites⟩
    exact Pending.of_device reads.healthy rfl rfl reads.noWrites rfl
  · have nonneg := reads.positionNonneg
    unfold Iob.dropIobReadBuffer
    rw [if_pos reads.healthy.inUse]
    rw [if_neg (by simpa [Iob.readBufferIsValid] using valid)]
    exact ⟨_, rfl, (reads.eofReached false).writes (show file.bufferReadBytes = 0 by omega),
      reads.noWrites⟩

end Reads

namespace Simulates

variable {array : ByteFile} {file : Iob ByteFile}

section

variable (sim : Simulates array file)
include sim

theorem healthy : Healthy file := by
  rcases sim with reads | writes
  · exact reads.healthy
  · exact writes.healthy

theorem reads (empty : file.bufferWriteBytes = 0) : Reads array file := by
  rcases sim with reads | writes
  · exact reads
  · exact Writes.reads writes empty

theorem flags (error eofReached : Bool) (errno : Option Errno) : Simulates array
      { file with error := error, eofReached := eofReached, errno := errno } := by
  rcases sim with reads | writes
  · exact .inl (reads.congr reads.healthy rfl rfl rfl rfl rfl rfl)
  · exact .inr (Pending.flags writes error eofReached errno)

theorem clearerr : Simulates array file.clearerr :=
  sim.flags false false file.errno

theorem fgetcCheck : ∃ next, file.fgetcCheck = (true, next) /\ Reads array next := by
  rcases sim with reads | writes
  · exact ⟨file, reads.fgetcCheck, reads⟩
  · unfold Iob.fgetcCheck
    rw [writes.healthy.inUse, writes.healthy.canRead]
    by_cases pending : file.writeBufferIsValid
    · rw [if_pos pending, writes.flushIobWriteBuffer]
      exact ⟨_, rfl, Writes.reads writes.settled rfl⟩
    · rw [if_neg pending]
      refine ⟨file, rfl, Writes.reads writes ?_⟩
      have := writes.pendingNonneg
      simp only [Iob.writeBufferIsValid, decide_eq_true_eq] at pending
      omega

theorem fputcCheck : ∃ next, file.fputcCheck = (true, next) /\ Writes array next := by
  unfold Iob.fputcCheck
  rw [sim.healthy.inUse, sim.healthy.canWrite]
  simp only [Bool.not_true, Bool.false_eq_true, if_false]
  rcases sim with reads | writes
  · by_cases valid : 0 < file.bufferReadBytes
    · rw [if_pos (by simpa [Iob.readBufferIsValid] using valid)]
      rcases reads.dropIobReadBuffer with ⟨next, dropped, after, -⟩
      exact ⟨next, dropped, after⟩
    · rw [if_neg (by simpa [Iob.readBufferIsValid] using valid)]
      have := reads.positionNonneg
      have := reads.positionLe
      exact ⟨file, rfl, reads.writes (by omega)⟩
  · rw [if_neg (by simp [Iob.readBufferIsValid, writes.readBytes_eq])]
    exact ⟨file, rfl, writes⟩

/-! ## Input and output -/

theorem fgetc : ∃ next, file.fgetc = ((Plain.fgetc array).1, next) /\
      Simulates (Plain.fgetc array).2 next /\ Quiet file next := by
  rcases sim.fgetcCheck with ⟨checked, check, reads⟩
  rcases reads.getc with ⟨next, got, nextReads, -⟩
  refine ⟨next, ?_, .inl nextReads, nextReads.quiet⟩
  unfold Iob.fgetc
  rw [check]
  exact got

theorem fgets (n : Int) : ∃ next, file.fgets n = ((Plain.fgets n array).1, next) /\
      Simulates (Plain.fgets n array).2 next /\ Quiet file next := by
  unfold Iob.fgets Plain.fgets
  by_cases small : n <= 0
  · rw [if_pos small, if_pos small]
    exact ⟨file, rfl, sim, id⟩
  rcases sim.fgetcCheck with ⟨checked, check, reads⟩
  rw [if_neg small, if_neg small, check]
  rcases reads.clearerr.fgetsLoop (Nat.le_refl (n - 1).toNat) [] rfl with
    ⟨next, looped, nextReads⟩
  refine ⟨next, ?_, .inl nextReads, nextReads.quiet⟩
  dsimp only
  rw [looped]
  simp

theorem freadInternal (elementSize count : Nat) (fits : elementSize * count < 2 ^ 32) :
    ∃ next, file.freadInternal elementSize count =
        (((array.rest.take (elementSize * count)).length / elementSize,
          array.rest.take (elementSize * count)), next) /\
      Simulates (array.advance (array.rest.take (elementSize * count)).length) next /\
      Quiet file next := by
  unfold Iob.freadInternal
  rw [sim.healthy.inUse, sim.healthy.canRead]
  simp only [Bool.not_true, Bool.false_eq_true, if_false]
  by_cases some : 0 < elementSize /\ 0 < count
  · rcases sim.clearerr.fgetcCheck with ⟨checked, check, reads⟩
    have exact : Iob.sizeT (elementSize * count) = elementSize * count :=
      Nat.mod_eq_of_lt fits
    rw [if_pos some, check]
    simp only [exact]
    rw [if_neg (by rw [Nat.mul_div_cancel _ some.2]; simp)]
    rcases reads.freadLoop (elementSize * count) with ⟨next, looped, nextReads⟩
    refine ⟨next, ?_, .inl nextReads, nextReads.quiet⟩
    unfold Iob.freadBytes
    rw [if_neg reads.healthy.buffered, looped]
  · rw [if_neg some]
    have zero : elementSize * count = 0 := by
      rcases Nat.eq_zero_or_pos elementSize with noSize | size
      · simp [noSize]
      · have : count = 0 := by omega
        simp [this]
    exact ⟨file.clearerr, by simp [zero], by simpa [zero] using sim.clearerr, id⟩

theorem fread (ptr : Block) (elementSize count : Nat) (fits : elementSize * count < 2 ^ 32) :
    ∃ next, file.fread ptr elementSize count =
        ((Plain.fread ptr elementSize count array).1, next) /\
      Simulates (Plain.fread ptr elementSize count array).2 next /\ Quiet file next := by
  rcases sim.freadInternal elementSize count fits with
    ⟨next, done, nextSimulates, quiet⟩
  refine ⟨next, ?_, nextSimulates, quiet⟩
  unfold Iob.fread Plain.fread
  rw [done]
  simp [nextSimulates.healthy.hostOrder]

theorem fputc (c : Int) : ∃ next, file.fputc c = ((Plain.fputc c array).1, next) /\
      Simulates (Plain.fputc c array).2 next := by
  rcases sim.fputcCheck with ⟨checked, check, writes⟩
  rcases Pending.fputcCore writes c checked.bufferMode with ⟨next, put, after⟩
  refine ⟨next, ?_, .inr after⟩
  unfold Iob.fputc
  rw [check]
  exact put

theorem fputs (s : List UInt8) : ∃ next, file.fputs s = ((Plain.fputs s array).1, next) /\
      Simulates (Plain.fputs s array).2 next := by
  rcases sim.fputcCheck with ⟨checked, check, writes⟩
  rcases Pending.fputsBytes writes s with ⟨next, put, after⟩
  refine ⟨next, ?_, .inr after⟩
  unfold Iob.fputs
  rw [check]
  simp [put, after.healthy.buffered, Plain.fputs]

theorem fflush : ∃ next, file.fflush = (true, next) /\ Simulates array next /\
      next.device.content = array.content := by
  unfold Iob.fflush
  rcases sim with reads | writes
  · rw [if_neg (by simp [Iob.writeBufferIsValid, reads.noWrites])]
    exact ⟨file, rfl, .inl reads, by rw [reads.device, ByteFile.advance_content]⟩
  · by_cases pending : file.writeBufferIsValid
    · rw [if_pos pending, Pending.flushIobWriteBuffer writes]
      exact ⟨_, rfl, .inr (Pending.settled writes), rfl⟩
    · rw [if_neg pending]
      have := writes.pendingNonneg
      simp only [Iob.writeBufferIsValid, decide_eq_true_eq] at pending
      refine ⟨file, rfl, .inr writes, ?_⟩
      rw [Pending.device_of_no_pending writes (by omega)]

/-! ## Positions -/

theorem streamPosition : file.streamPosition file.device.position = array.position := by
  unfold Iob.streamPosition
  rcases sim with reads | writes
  · have ordered := reads.positionLe
    have nonneg := reads.positionNonneg
    have notPending : file.writeBufferIsValid = false := by
      simp [Iob.writeBufferIsValid, reads.noWrites]
    rw [notPending, reads.numUnreadBytes, reads.device, ByteFile.advance_position]
    split
    · omega
    · rename_i valid
      simp only [Iob.readBufferIsValid, decide_eq_true_eq] at valid
      simp only [Bool.false_eq_true, if_false]
      omega
  · have noWindow : file.readBufferIsValid = false := by
      simp [Iob.readBufferIsValid, writes.readBytes_eq]
    have position := congrArg ByteFile.position writes.array_eq
    rw [ByteFile.write_position, Block.length_load] at position
    rw [noWindow]
    simp only [Bool.false_eq_true, if_false, Iob.writeBufferIsValid, decide_eq_true_eq]
    split <;> omega

theorem ftell : file.ftell = (toLong array.position, file) := by
  have here : file.device.seek 0 Whence.cur.origin = file.device := by
    simp [ByteFile.seek, ByteFile.target, Whence.origin]
  have position := sim.streamPosition
  have unsigned : ¬(file.device.position : Int) < 0 := by omega
  unfold Iob.ftell
  rw [if_neg (by simp [sim.healthy.inUse])]
  simp only [Action.seek, here, position, if_neg unsigned]

theorem emptyBuffer : ∃ next, file.emptyBuffer = (true, next) /\ Writes array next /\
      next.bufferWriteBytes = 0 := by
  unfold Iob.emptyBuffer
  rcases sim with reads | writes
  · rw [if_neg (by simp [Iob.writeBufferIsValid, reads.noWrites])]
    dsimp only
    by_cases valid : 0 < file.bufferReadBytes
    · rw [if_pos (by simpa [Iob.readBufferIsValid] using valid)]
      exact reads.dropIobReadBuffer
    · rw [if_neg (by simpa [Iob.readBufferIsValid] using valid)]
      have := reads.positionNonneg
      have := reads.positionLe
      exact ⟨file, rfl, reads.writes (by omega), reads.noWrites⟩
  · by_cases pending : file.writeBufferIsValid
    · rw [if_pos pending, Pending.flushIobWriteBuffer writes]
      have noWindow : (file.settled array).readBufferIsValid = false := by
        simp [Iob.readBufferIsValid, Iob.settled, writes.readBytes_eq]
      dsimp only
      rw [noWindow]
      exact ⟨_, rfl, Pending.settled writes, rfl⟩
    · rw [if_neg pending]
      have noWindow : file.readBufferIsValid = false := by
        simp [Iob.readBufferIsValid, writes.readBytes_eq]
      have := writes.pendingNonneg
      simp only [Iob.writeBufferIsValid, decide_eq_true_eq] at pending
      dsimp only
      rw [noWindow]
      exact ⟨file, rfl, writes, by omega⟩

theorem seekDevice (offset : Int) (wherefrom : Whence) :
    ∃ next, file.seekDevice offset wherefrom = (true, next) /\
      Writes (array.seek offset wherefrom.origin) next /\ next.bufferWriteBytes = 0 := by
  rcases sim.emptyBuffer with ⟨emptied, empty, writes, nothing⟩
  have device := Pending.device_of_no_pending writes nothing
  have answer : Action.seek emptied.device offset wherefrom =
      (.ok ((array.seek offset wherefrom.origin).position : Int),
        array.seek offset wherefrom.origin) := by
    rw [device]
    rfl
  unfold Iob.seekDevice
  rw [empty]
  simp only [answer]
  have moved : Writes (array.seek offset wherefrom.origin)
      { emptied with device := array.seek offset wherefrom.origin } :=
    Pending.of_device writes.healthy writes.readBytes_eq writes.position_eq nothing rfl
  exact ⟨_, rfl, Pending.flags moved _ _ _, nothing⟩

end

end Simulates

theorem Reads.seek_in_buffer {array : ByteFile} {file : Iob ByteFile}
    (reads : Reads array file) {offset : Int} (inRange : longMin < offset)
    (fits : offset <= longMax) (stays : file.staysInBuffer offset .cur) :
    Reads (array.seek offset .current)
      { file with bufferPosition := file.bufferPosition + offset } := by
  rcases stays with ⟨-, valid, either⟩
  rw [reads.numUnreadBytes] at either
  have nonneg := reads.positionNonneg
  have ordered := reads.positionLe
  have started := reads.started
  have covered := reads.window_length
  have bounds : 0 <= file.bufferPosition + offset /\
      file.bufferPosition + offset <= file.bufferReadBytes := by
    rcases either with ⟨negative, back⟩ | ⟨pos, ahead⟩
    · rw [toLong_of_fits (by unfold longMin longMax at *; omega)
        (by unfold longMin longMax at *; omega)] at back
      omega
    · omega
  have moved : array.seek offset .current =
      { array with position := (array.position + offset).toNat } :=
    ByteFile.moveTo_of_le _ _ (by simp only [ByteFile.target]; omega)
  rw [moved]
  exact
    { healthy := reads.healthy
      noWrites := reads.noWrites
      positionNonneg := bounds.1
      positionLe := bounds.2
      readLe := reads.readLe
      device := by
        rw [reads.device]
        simp only [ByteFile.advance, ByteFile.mk.injEq, and_true, true_and]
        omega
      started := by
        dsimp only
        omega
      window := by
        dsimp only
        rw [reads.window]
        congr 2
        omega }

end Clib4.Stdio
