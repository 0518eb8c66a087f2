import Clib4.Stdio.Descriptor
import Clib4.Stdio.Counters.Run
import Clib4.Foundation.Run

namespace Clib4.Stdio

open Foundation

/-!
# Unbuffered output

What `fputc`, `fputs` and `fwrite` do to a stream that `setvbuf` made
unbuffered, when every write to the file succeeds.  Such a stream has a buffer
of a single byte, which only `fputc` uses.
-/

/-- A stream as `setvbuf` leaves it, if it may write. -/
structure Unbuffered (file : Iob ByteFile) : Prop where
  inUse : file.inUse
  canWrite : file.canWrite
  mode : file.bufferMode = .none
  quiet : file.interactive = false
  size : file.bufferSize = 1
  noWindow : file.bufferReadBytes = 0
  noPending : file.bufferWriteBytes = 0

theorem emptyBuffer_succeeds (file : Iob ByteFile) :
    ∃ next, file.emptyBuffer = (true, next) /\ next.canWrite = file.canWrite /\
      next.interactive = file.interactive := by
  have dropped : ∀ flushed : Iob ByteFile,
      ∃ next, flushed.dropIobReadBuffer = (true, next) /\
        next.canWrite = flushed.canWrite /\ next.interactive = flushed.interactive := by
    intro flushed
    unfold Iob.dropIobReadBuffer
    simp only [Action.seek]
    split_ifs <;> exact ⟨_, rfl, rfl, rfl⟩
  have flushed : ∃ next,
      (if file.writeBufferIsValid then file.flushIobWriteBuffer else (true, file)) =
        (true, next) /\ next.canWrite = file.canWrite /\ next.interactive = file.interactive := by
    unfold Iob.flushIobWriteBuffer
    split_ifs <;> exact ⟨_, rfl, rfl, rfl⟩
  obtain ⟨emptied, flush, writes, quiet⟩ := flushed
  unfold Iob.emptyBuffer
  rw [flush]
  dsimp only
  split_ifs
  · obtain ⟨next, drop, sameWrites, sameQuiet⟩ := dropped emptied
    exact ⟨next, drop, sameWrites.trans writes, sameQuiet.trans quiet⟩
  · exact ⟨emptied, rfl, writes, quiet⟩

theorem setvbuf_unbuffered {file : Iob ByteFile} (counters : Counters file)
    (canWrite : file.canWrite) (quiet : file.interactive = false) (buf : Option Block)
    (size : Nat) (small : size < 2 ^ 31) (allocated : Option Block) :
    ∃ next, file.setvbuf buf 2 size allocated = (true, next) /\ Unbuffered next := by
  obtain ⟨emptied, empty, writes, interactive⟩ := emptyBuffer_succeeds file
  obtain ⟨after, nothing⟩ := counters.emptyBuffer empty
  obtain ⟨noReads, noWrites⟩ := nothing rfl
  have mode : Iob.bufferModeOf 2 = some .none := rfl
  unfold Iob.setvbuf
  rw [mode]
  dsimp only
  rw [if_neg (not_le.mpr small), if_neg (by simp [counters.inUse])]
  unfold Iob.replaceBuffer
  rw [empty]
  exact ⟨_, rfl, after.inUse, writes.trans canWrite, rfl, interactive.trans quiet, rfl, noReads,
    noWrites⟩

namespace Unbuffered

variable {file : Iob ByteFile}

section

variable (unbuffered : Unbuffered file)
include unbuffered

theorem fputcCheck : file.fputcCheck = (true, file) := by
  simp [Iob.fputcCheck, unbuffered.inUse, unbuffered.canWrite, Iob.readBufferIsValid,
    unbuffered.noWindow]

theorem outputMode : file.outputMode = .none := by
  simp [Iob.outputMode, unbuffered.mode, unbuffered.quiet]

theorem written (device : ByteFile) : Unbuffered { file with device := device } :=
  { unbuffered with }

theorem fputc (c : Int) : ∃ next, file.fputc c = (some (clip c), next) /\ Unbuffered next /\
      next.device = file.device.write [clip c] := by
  have notFull : file.flushIfFull = (true, file) := by
    simp [Iob.flushIfFull, Iob.writeBufferIsFull, unbuffered.size, unbuffered.noPending]
  have one : (file.putByte (clip c)).bufferWriteBytes = 1 := by
    simp [Iob.putByte, unbuffered.noPending]
  have byte : (file.putByte (clip c)).buffer.load 0 1 = [clip c] := by
    have stored := Block.load_store_same file.buffer 0 [clip c]
    simpa [Iob.putByte, unbuffered.noPending] using stored
  have flush : (file.putByte (clip c)).flushIobWriteBuffer = (true, { file.putByte (clip c) with
        device := file.device.write [clip c], bufferWriteBytes := 0 }) := by
    unfold Iob.flushIobWriteBuffer
    rw [if_pos (by simp [Iob.writeBufferIsValid, Iob.putByte, unbuffered.inUse, unbuffered.noPending]), one,
      Int.toNat_one, byte]
    rfl
  refine ⟨{ file.putByte (clip c) with
    device := file.device.write [clip c], bufferWriteBytes := 0 }, ?_, ?_, rfl⟩
  · unfold Iob.fputc
    rw [unbuffered.fputcCheck]
    dsimp only
    unfold Iob.fputcCore
    rw [notFull]
    dsimp only
    rw [if_pos (Or.inl unbuffered.mode), flush]
  · exact { unbuffered with noPending := rfl }

theorem writeDescriptor (bytes : List UInt8) :
    ∃ next, file.writeDescriptor bytes = (some bytes.length, next) /\ Unbuffered next /\
      next.device = file.device.write bytes := by
  rw [Iob.writeDescriptor_eq rfl]
  by_cases nothing : bytes = []
  · subst nothing
    exact ⟨file, rfl, unbuffered, by simp⟩
  · rw [if_neg nothing]
    exact ⟨_, rfl, unbuffered.written _, rfl⟩

theorem not_writeBufferIsValid : file.writeBufferIsValid = false := by
  simp [Iob.writeBufferIsValid, unbuffered.noPending]

theorem fputs (s : List UInt8) : ∃ next, file.fputs s = (true, next) /\ Unbuffered next /\
      next.device = file.device.write s := by
  obtain ⟨next, wrote, after, device⟩ := unbuffered.writeDescriptor s
  refine ⟨next, ?_, after, device⟩
  unfold Iob.fputs
  rw [unbuffered.fputcCheck]
  dsimp only
  unfold Iob.fputsBytes
  rw [unbuffered.outputMode]
  rw [wrote]
  dsimp only
  rw [if_neg (by simp [after.not_writeBufferIsValid])]

theorem fwrite (ptr : Block) {elementSize count : Nat} (fits : elementSize * count < 2 ^ 32) :
    ∃ next, file.fwrite ptr elementSize count =
        (some (min (elementSize * count) 1 / elementSize), next) /\ Unbuffered next /\
      next.device = file.device.write (ptr.load 0 (min (elementSize * count) 1)) := by
  unfold Iob.fwrite
  rw [if_neg (by simp [unbuffered.inUse, unbuffered.canWrite])]
  by_cases some : 0 < elementSize /\ 0 < count
  · have total : Iob.sizeT (elementSize * count) = elementSize * count := Nat.mod_eq_of_lt fits
    obtain ⟨next, wrote, after, device⟩ :=
      unbuffered.writeDescriptor (ptr.load 0 (min (elementSize * count) 1))
    refine ⟨next, ?_, after, device⟩
    rw [if_pos some, total]
    rw [if_neg (by rw [Nat.mul_div_cancel _ some.2]; simp)]
    unfold Iob.fwriteBytes
    rw [unbuffered.outputMode]
    unfold Iob.fwriteNone
    rw [unbuffered.size, Int.toNat_one, wrote, Block.length_load]
    dsimp only
    rw [after.not_writeBufferIsValid]
    rfl
  · have nothing : elementSize * count = 0 := by
      rw [Nat.mul_eq_zero]
      omega
    rw [if_neg some, nothing]
    exact ⟨file, by simp, unbuffered, by simp⟩

end

end Unbuffered

/-! ## Sequences of calls -/

/-- A call that writes to an unbuffered stream.  The block of `fwrite` is an
object, so its size is a `size_t`. -/
inductive DirectCall
  | fputc (c : Int)
  | fputs (s : List UInt8)
  | fwrite (ptr : Block) (elementSize count : Nat) (fits : elementSize * count < 2 ^ 32)

namespace DirectCall

def bytes : DirectCall -> List UInt8
  | .fputc c => [clip c]
  | .fputs s => s
  | .fwrite ptr elementSize count _ => ptr.load 0 (elementSize * count)

/-- The stream after a call, and whether it reports success: the byte, `OK`, or
the full count (which is zero for elements without bytes). -/
def perform (file : Iob ByteFile) : DirectCall -> Bool × Iob ByteFile
  | .fputc c => ((file.fputc c).1 == some (clip c), (file.fputc c).2)
  | .fputs s => file.fputs s
  | .fwrite ptr elementSize count _ =>
    ((file.fwrite ptr elementSize count).1 ==
      some (if elementSize = 0 then 0 else count), (file.fwrite ptr elementSize count).2)

/-- The calls that write everything: a block has at most one byte. -/
def Whole : DirectCall -> Prop
  | .fwrite _ elementSize count _ => elementSize * count <= 1
  | _ => True

instance (call : DirectCall) : Decidable call.Whole :=
  match call with
  | .fputc _ => inferInstanceAs (Decidable True)
  | .fputs _ => inferInstanceAs (Decidable True)
  | .fwrite _ elementSize count _ => inferInstanceAs (Decidable (elementSize * count <= 1))

def step (file : Iob ByteFile) (call : DirectCall) : Option (Iob ByteFile) :=
  some (call.perform file).2

def Arrives (file : Iob ByteFile) (call : DirectCall) : Prop :=
  (call.perform file).1 /\ (call.perform file).2.device = file.device.write call.bytes

variable {file : Iob ByteFile}

theorem unbuffered_perform (unbuffered : Unbuffered file) (call : DirectCall) :
    Unbuffered (call.perform file).2 := by
  cases call with
  | fputc c =>
    obtain ⟨next, put, after, -⟩ := unbuffered.fputc c
    rw [perform, put]
    exact after
  | fputs s =>
    obtain ⟨next, put, after, -⟩ := unbuffered.fputs s
    rw [perform, put]
    exact after
  | fwrite ptr elementSize count fits =>
    obtain ⟨next, put, after, -⟩ := unbuffered.fwrite ptr fits
    rw [perform, put]
    exact after

theorem length_eq_of_write_eq {array : ByteFile} {first second : List UInt8}
    (same : array.write first = array.write second) : first.length = second.length := by
  have positions := congrArg ByteFile.position same
  rw [ByteFile.write_position, ByteFile.write_position] at positions
  omega

theorem arrives_iff (unbuffered : Unbuffered file) (call : DirectCall) :
    Arrives file call <-> call.Whole := by
  cases call with
  | fputc c =>
    obtain ⟨next, put, -, device⟩ := unbuffered.fputc c
    refine iff_of_true ⟨?_, ?_⟩ trivial
    · simp [perform, put]
    · simpa only [perform, put, bytes] using device
  | fputs s =>
    obtain ⟨next, put, -, device⟩ := unbuffered.fputs s
    refine iff_of_true ⟨?_, ?_⟩ trivial
    · simp [perform, put]
    · simpa only [perform, put, bytes] using device
  | fwrite ptr elementSize count fits =>
    obtain ⟨next, put, -, device⟩ := unbuffered.fwrite ptr fits
    unfold Arrives
    rw [perform, put]
    constructor
    · rintro ⟨-, all⟩
      rw [device] at all
      have lengths := length_eq_of_write_eq all
      rw [bytes, Block.length_load, Block.length_load] at lengths
      exact min_eq_left_iff.mp lengths
    · intro whole
      have all := Nat.min_eq_left whole
      rw [all] at device
      refine ⟨?_, device⟩
      rw [all, beq_iff_eq]
      by_cases none : elementSize = 0
      · simp [none]
      · rw [if_neg none, Nat.mul_div_cancel_left _ (Nat.pos_of_ne_zero none)]

end DirectCall

def callBytes (calls : List DirectCall) : List UInt8 :=
  calls.flatMap DirectCall.bytes

theorem run_unbuffered {file : Iob ByteFile} {calls : List DirectCall}
    (unbuffered : Unbuffered file)
    (whole : AllowedRun DirectCall.step (fun _ call => call.Whole) file calls) :
    ∃ reached, run DirectCall.step file calls = some reached /\ Unbuffered reached /\
      reached.device = file.device.write (callBytes calls) := by
  induction calls generalizing file with
  | nil => exact ⟨file, rfl, unbuffered, by simp [callBytes]⟩
  | cons call calls ih =>
    have after := DirectCall.unbuffered_perform unbuffered call
    have arrived := (DirectCall.arrives_iff unbuffered call).mpr whole.1
    obtain ⟨reached, ran, final, device⟩ := ih after (whole.2 _ rfl)
    refine ⟨reached, ran, final, ?_⟩
    rw [device, arrived.2, ByteFile.write_write]
    rfl

/--
A stream that `setvbuf` made unbuffered, over every run of calls whose blocks
have at most one byte: the bytes reach the file in call order, all of them, and
in each state reached a call arrives in full exactly if its block, if it writes
one, has at most one byte.
-/
theorem unbuffered_output_arrives {file : Iob ByteFile} (counters : Counters file)
    (canWrite : file.canWrite) (quiet : file.interactive = false) (buf : Option Block)
    (size : Nat) (small : size < 2 ^ 31) (allocated : Option Block) (calls : List DirectCall)
    (whole : AllowedRun DirectCall.step (fun _ call => call.Whole)
      (file.setvbuf buf 2 size allocated).2 calls) (count : Nat) :
    ∃ start reached, file.setvbuf buf 2 size allocated = (true, start) /\
      run DirectCall.step start (calls.take count) = some reached /\
      reached.device = start.device.write (callBytes (calls.take count)) /\
      ∀ call, DirectCall.Arrives reached call <-> call.Whole := by
  obtain ⟨start, set, unbuffered⟩ :=
    setvbuf_unbuffered counters canWrite quiet buf size small allocated
  rw [set] at whole
  obtain ⟨reached, ran, final, device⟩ := run_unbuffered unbuffered (whole.take count)
  exact ⟨start, reached, set, ran, device, DirectCall.arrives_iff final⟩

def freshStream : Iob ByteFile :=
  openStream .full 4 (fun _ => 0) ⟨[], 0, false⟩

theorem freshStream_counters : Counters freshStream where
  inUse := rfl
  sizePos := by decide
  positionNonneg := by decide
  positionLe := by decide
  readLe := by decide
  writeNonneg := by decide
  writeLe := by decide
  excl := Or.inl rfl

theorem unbuffered_output_arrives_bytewise :
    ∃ start reached, freshStream.setvbuf none 2 0 none = (true, start) /\
      run DirectCall.step start ([DirectCall.fputc 65, .fputs [66, 67]].take 2) = some reached /\
      reached.device =
        start.device.write (callBytes ([DirectCall.fputc 65, .fputs [66, 67]].take 2)) /\
      ∀ call, DirectCall.Arrives reached call <-> call.Whole :=
  unbuffered_output_arrives freshStream_counters rfl rfl none 0 (by decide) none
    [.fputc 65, .fputs [66, 67]] ⟨trivial, fun _ _ => ⟨trivial, fun _ _ => trivial⟩⟩ 2

/-- Of a block of two bytes only the first is written. -/
theorem unbuffered_fwrite_truncates :
    ((freshStream.setvbuf none 2 0 none).2.fwrite (fun _ => 65) 1 2).1 = some 1 /\
      ((freshStream.setvbuf none 2 0 none).2.fwrite (fun _ => 65) 1 2).2.device.content = [65] := by
  decide

end Clib4.Stdio
