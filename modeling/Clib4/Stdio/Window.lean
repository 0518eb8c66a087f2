import Clib4.Stdio.Bytewise
import Clib4.Stdio.Counters.Run

namespace Clib4.Stdio

open Foundation Printf

/-!
# The read window along any run

Some calls leave a stream with a read window and pending output at once, and
a seek can lead to a place before the buffer.  What no call breaks, over any
device, is that the read position is not behind the window and is the start
of the buffer where there is no window.  Output leaves the window alone, but
for `__fputc_check`, which drops it.
-/

namespace Iob

section Frames

variable {δ : Type}

def window (file : Iob δ) : Int × Int :=
  (file.bufferReadBytes, file.bufferPosition)

theorem Windowed.of_window {file next : Iob δ} (windowed : file.Windowed)
    (same : next.window = file.window) : next.Windowed := by
  have reads : next.bufferReadBytes = file.bufferReadBytes := congrArg Prod.fst same
  have position : next.bufferPosition = file.bufferPosition := congrArg Prod.snd same
  constructor
  · rw [reads]
    exact windowed.readNonneg
  · rw [reads, position]
    exact windowed.positionLe
  · rw [reads, position]
    exact windowed.position_of_empty

variable [Action δ] {file next : Iob δ}

@[simp] theorem window_flushIobWriteBuffer (file : Iob δ) :
    file.flushIobWriteBuffer.2.window = file.window := by
  unfold flushIobWriteBuffer
  split
  · rcases Action.write file.device (file.buffer.load 0 file.bufferWriteBytes.toNat) with
      ⟨code | count, device⟩
    · rfl
    · rfl
  · rfl

theorem window_flushWhen (condition : Prop) [Decidable condition] (file : Iob δ) :
    (if condition then file.flushIobWriteBuffer else (true, file)).2.window = file.window := by
  split
  · exact window_flushIobWriteBuffer file
  · rfl

@[simp] theorem window_flushIfFull (file : Iob δ) : file.flushIfFull.2.window = file.window :=
  window_flushWhen _ file

@[simp] theorem window_fflush (file : Iob δ) : file.fflush.2.window = file.window :=
  window_flushWhen _ file

@[simp] theorem window_fputcCore (c : Int) (mode : BufferMode) (file : Iob δ) :
    (file.fputcCore c mode).2.window = file.window := by
  have flushed := window_flushIfFull file
  unfold fputcCore
  generalize file.flushIfFull = first at flushed ⊢
  rcases first with ⟨_ | _, stream⟩
  · exact flushed
  · have again := window_flushIobWriteBuffer (stream.putByte (clip c))
    dsimp only
    split
    · generalize (stream.putByte (clip c)).flushIobWriteBuffer = second at again ⊢
      rcases second with ⟨_ | _, final⟩ <;> exact again.trans flushed
    · exact flushed

@[simp] theorem window_flushR (file : Iob δ) : file.flushR.2.window = file.window := by
  have flushed := window_flushIobWriteBuffer file
  unfold flushR
  split
  · rfl
  · dsimp only
    generalize file.flushIobWriteBuffer = flush at flushed ⊢
    rcases flush with ⟨_ | _, stream⟩ <;> exact flushed

@[simp] theorem window_putc (c : UInt8) (mode : BufferMode) (file : Iob δ) :
    (file.putc c mode).2.window = file.window := by
  unfold putc
  split
  · dsimp only
    split
    · exact window_flushR (file.putByte c)
    · rfl
  · exact window_fputcCore _ _ file

@[simp] theorem window_writeDescriptor (bytes : List UInt8) (file : Iob δ) :
    (file.writeDescriptor bytes).2.window = file.window := by
  unfold writeDescriptor
  split
  · rfl
  · split
    · rfl
    · split <;> rfl

/-! ## Strings and blocks -/

/-- The output loops leave the window alone. -/
theorem window_invariant {window : Int × Int} :
    OutputInvariant fun file : Iob δ => file.window = window where
  putBytes _ same _ := same
  flush same := (window_flushIobWriteBuffer _).trans same
  putc _ _ same := (window_putc _ _ _).trans same
  writeDescriptor _ same := (window_writeDescriptor _ _).trans same
  error same := same

theorem window_fwriteNone {ptr : Block} {total : Nat} {file : Iob δ} :
    (file.fwriteNone ptr total).2.window = file.window := by
  have kept := window_writeDescriptor (ptr.load 0 (min total file.bufferSize.toNat)) file
  unfold fwriteNone
  generalize file.writeDescriptor (ptr.load 0 (min total file.bufferSize.toNat)) = answer
    at kept ⊢
  rcases answer with ⟨_ | _, final⟩
  · exact kept
  · dsimp only
    split
    · exact (window_flushIobWriteBuffer final).trans kept
    · exact kept

theorem window_fwrite {ptr : Block} {elementSize count : Nat} {file : Iob δ} :
    (file.fwrite ptr elementSize count).2.window = file.window := by
  have bytes : ∀ rounds total, (file.fwriteBytes ptr rounds total).2.window = file.window := by
    intro rounds total
    unfold fwriteBytes
    cases file.outputMode with
    | line => exact (window_invariant).fwriteLine _ _ _ _ _ rfl
    | none => exact window_fwriteNone
    | full => exact (window_invariant).fwriteFull _ _ _ _ _ rfl
  unfold fwrite
  split
  · rfl
  · split
    · dsimp only
      split
      · rfl
      · have kept := bytes (2 * sizeT (elementSize * count) + 2) (sizeT (elementSize * count))
        generalize file.fwriteBytes ptr (2 * sizeT (elementSize * count) + 2)
          (sizeT (elementSize * count)) = answer at kept ⊢
        rcases answer with ⟨_ | _ | _, final⟩ <;> exact kept
    · rfl

theorem window_out (text : List UInt8) (file : Iob δ) : (file.out text).window = file.window := by
  induction text generalizing file with
  | nil => rfl
  | cons c rest ih => exact (ih _).trans (window_fputcCore c.toNat file.bufferMode file)

theorem window_vfprintf {φ : Type} (lib : Library φ) (format : List UInt8)
    (ap : List (VaArg φ)) (file : Iob δ) :
    (file.vfprintf lib format ap).2.window = file.window := by
  unfold vfprintf
  dsimp only
  generalize printfCore lib (fun written => lib.strerror (file.out written).errno)
    (noArgs lib) format ap = result
  rcases result with ⟨stop, state⟩
  have written := window_out state.output file
  cases stop with
  | returned count =>
    dsimp only
    split
    · exact (window_fflush _).trans written
    · exact ((window_fflush _).trans (window_putc _ _ _)).trans written
  | inval | overflow | unconvertible | undefined => exact written

@[simp] theorem window_ftell (file : Iob δ) : file.ftell.2.window = file.window := by
  unfold ftell
  split
  · rfl
  · rcases Action.seek file.device 0 .cur with ⟨code | position, device⟩
    · rfl
    · rfl

end Frames

/-! ## Calls that change the window -/

namespace Windowed

variable {δ : Type} [Action δ] {file : Iob δ}

section

variable (windowed : file.Windowed)
include windowed

theorem dropIobReadBuffer : file.dropIobReadBuffer.2.Windowed := by
  have dropped : ∀ next : Iob δ, next.bufferReadBytes = 0 -> next.bufferPosition = 0 ->
      next.Windowed := by
    intro next reads position
    refine ⟨?_, ?_, fun _ => position⟩
    · rw [reads]
    · rw [reads, position]
  unfold Iob.dropIobReadBuffer
  dsimp only
  split
  · split
    · split
      · generalize Action.seek file.device _ .cur = answer
        rcases answer with ⟨code | position, device⟩
        · exact windowed.of_window rfl
        · exact dropped _ rfl rfl
      · exact dropped _ rfl rfl
    · exact windowed.of_window rfl
  · exact windowed

theorem fputcCheck : file.fputcCheck.2.Windowed := by
  unfold Iob.fputcCheck
  split
  · exact windowed.of_window rfl
  · split
    · exact windowed.of_window rfl
    · split
      · exact windowed.dropIobReadBuffer
      · exact windowed

theorem emptyBuffer : file.emptyBuffer.2.Windowed := by
  have flushed := windowed.of_window (window_flushWhen file.writeBufferIsValid file)
  unfold Iob.emptyBuffer
  generalize (if file.writeBufferIsValid then file.flushIobWriteBuffer else (true, file)) = answer
    at flushed ⊢
  rcases answer with ⟨_ | _, stream⟩
  · exact flushed
  · dsimp only
    split
    · exact flushed.dropIobReadBuffer
    · exact flushed

theorem fputc (c : Int) : (file.fputc c).2.Windowed := by
  have checked := windowed.fputcCheck
  unfold Iob.fputc
  generalize file.fputcCheck = answer at checked ⊢
  rcases answer with ⟨_ | _, stream⟩
  · exact checked
  · exact checked.of_window (window_fputcCore _ _ stream)

theorem fputs (s : List UInt8) : (file.fputs s).2.Windowed := by
  have checked := windowed.fputcCheck
  unfold Iob.fputs
  generalize file.fputcCheck = answer at checked ⊢
  rcases answer with ⟨_ | _, stream⟩
  · exact checked
  · have written := checked.of_window ((window_invariant).fputsBytes s rfl)
    dsimp only
    generalize stream.fputsBytes s = answer at written ⊢
    rcases answer with ⟨_ | _, final⟩
    · exact written
    · exact written.of_window (window_flushWhen _ final)

end

/-! ## Reading -/

theorem input : InputInvariant (Windowed : Iob δ -> Prop) where
  marks _ _ _ _ _ windowed := windowed.of_window rfl
  settles windowed _ := windowed.of_window rfl
  take windowed here := by
    have unread := unread_of_ordered windowed.positionLe here
    exact windowed.skip (show ((1 : Nat) : Int) <= _ by omega)
  fill device _ _ _ := windowed_filled device _ _
  back _ windowed moved := by
    have ordered := windowed.positionLe
    exact ⟨windowed.readNonneg, by dsimp only; omega,
      fun none => (moved (windowed.position_of_empty none)).elim⟩

theorem getc (windowed : file.Windowed) (settled : file.writeBufferIsValid = false) :
    file.getc.2.Windowed :=
  (input.getc windowed settled).1

/-! ## Seeking and buffers -/

theorem seekBuffered (windowed : file.Windowed) (offset : Int) (wherefrom : Whence) :
    (file.seekBuffered offset wherefrom).2.Windowed := by
  have cleared : ({ file with eofReached := false } : Iob δ).Windowed := windowed.of_window rfl
  unfold Iob.seekBuffered
  dsimp only
  split
  · split
    · rename_i stays
      obtain ⟨-, valid, either⟩ := stays
      have ordered := windowed.positionLe
      simp only [readBufferIsValid, decide_eq_true_eq] at valid
      refine ⟨windowed.readNonneg, ?_, ?_⟩
      · dsimp only
        rcases either with ⟨negative, -⟩ | ⟨-, ahead⟩
        · omega
        · unfold numUnreadBytes at ahead
          dsimp only at ahead
          split at ahead <;> omega
      · intro none
        dsimp only at none
        omega
    · have emptied := cleared.emptyBuffer
      unfold Iob.seekDevice
      generalize ({ file with eofReached := false } : Iob δ).emptyBuffer = answer at emptied ⊢
      rcases answer with ⟨_ | _, stream⟩
      · exact emptied
      · dsimp only
        rcases Action.seek stream.device offset wherefrom with ⟨code | position, device⟩
        all_goals exact emptied.of_window rfl
  · exact cleared

theorem fseek (windowed : file.Windowed) (offset wherefrom : Int) :
    (file.fseek offset wherefrom).2.Windowed := by
  unfold Iob.fseek
  split
  · exact windowed.of_window rfl
  · cases Whence.ofInt wherefrom with
    | none => exact windowed.of_window rfl
    | some whence =>
      have relative : (file.relativeSeek offset whence).2.2.window = file.window := by
        unfold relativeSeek
        split
        · dsimp only
          split <;> exact window_ftell file
        · rfl
      exact (windowed.of_window relative).seekBuffered _ _

theorem setvbuf (windowed : file.Windowed) (buf : Option Block) (bufmode : Int) (size : Nat)
    (allocated : Option Block) : (file.setvbuf buf bufmode size allocated).2.Windowed := by
  have replaced : ∀ buffer size mode, (file.replaceBuffer buffer size mode).2.Windowed := by
    intro buffer size mode
    have emptied := windowed.emptyBuffer
    unfold Iob.replaceBuffer
    generalize file.emptyBuffer = answer at emptied ⊢
    rcases answer with ⟨_ | _, stream⟩
    · exact emptied
    · exact emptied.of_window rfl
  unfold Iob.setvbuf
  split
  · exact windowed
  · split
    · exact windowed.of_window rfl
    · split
      · exact windowed.of_window rfl
      · dsimp only
        split
        · exact replaced _ _ _
        · exact replaced _ _ _
        · exact replaced _ _ _
        · exact windowed.of_window rfl

/-! ## Runs -/

variable {φ : Type}

theorem perform (windowed : file.Windowed) (lib : Library φ) (operation : Operation φ) :
    (file.perform lib operation).Windowed := by
  cases operation with
  | fgetc => exact input.fgetc windowed
  | ungetc c => exact input.ungetc windowed c
  | fgets n => exact input.fgets windowed n
  | fread ptr elementSize count => exact input.fread windowed ptr elementSize count
  | fputc c => exact windowed.fputc c
  | fputs s => exact windowed.fputs s
  | fwrite ptr elementSize count =>
    exact windowed.of_window (window_fwrite)
  | fprintf format ap => exact windowed.of_window (window_vfprintf lib format ap file)
  | fseek offset wherefrom => exact windowed.fseek offset wherefrom
  | fflush => exact windowed.of_window (window_fflush file)
  | setvbuf buf bufmode size allocated => exact windowed.setvbuf buf bufmode size allocated

theorem performAll (windowed : file.Windowed) (lib : Library φ)
    (operations : List (Operation φ)) : (file.performAll lib operations).Windowed := by
  induction operations generalizing file with
  | nil => exact windowed
  | cons operation rest ih => exact ih (windowed.perform lib operation)

end Windowed

theorem windowed_of_opened {δ : Type} {file : Iob δ} (opened : Opened file) : file.Windowed := by
  refine ⟨?_, ?_, fun _ => opened.position⟩
  · rw [opened.readBytes]
  · rw [opened.readBytes, opened.position]

end Iob

end Clib4.Stdio
