import Clib4.Stdio.Counters.Output
import Clib4.Stdio.Descriptor

namespace Clib4.Stdio

open Foundation Printf

/-!
# The buffer counters along a run

The remaining calls, and sequences of all of them on one stream over a device
that may fail or do less than it was asked for at any step.
-/

section

variable {δ : Type} [Action δ] {file next : Iob δ} {ok : Bool}

/-! ## Seeking and buffers -/

section

variable (counters : Counters file)
include counters

theorem Counters.ftell :
    Counters file.ftell.2 /\ file.ftell.2.bufferReadBytes = file.bufferReadBytes := by
  unfold Iob.ftell
  split
  · exact ⟨counters, rfl⟩
  · rcases Action.seek file.device 0 .cur with ⟨code | position, device⟩
    all_goals exact ⟨counters, rfl⟩

variable (offset : Int)

theorem Counters.relativeSeek (wherefrom : Whence) :
    Counters (file.relativeSeek offset wherefrom).2.2 /\
      (file.relativeSeek offset wherefrom).2.2.bufferReadBytes = file.bufferReadBytes := by
  unfold Iob.relativeSeek
  split
  · dsimp only
    split <;> exact counters.ftell
  · exact ⟨counters, rfl⟩

theorem Counters.emptyBuffer (result : file.emptyBuffer = (ok, next)) : Counters next /\
      (ok -> next.bufferReadBytes = 0 /\ next.bufferWriteBytes = 0) := by
  have dropped : ∀ flushed : Iob δ, Counters flushed -> flushed.bufferWriteBytes = 0 ->
      (if flushed.readBufferIsValid then flushed.dropIobReadBuffer else (true, flushed)) =
        (ok, next) ->
      Counters next /\ (ok -> next.bufferReadBytes = 0 /\ next.bufferWriteBytes = 0) := by
    intro flushed after empty result
    by_cases valid : flushed.readBufferIsValid
    · rw [if_pos valid] at result
      rcases after.dropIobReadBuffer result with ⟨final, writes, reads⟩
      exact ⟨final, fun succeeded => ⟨reads succeeded, writes.trans empty⟩⟩
    · rw [if_neg valid] at result
      cases result
      have nonneg := after.positionNonneg
      have le := after.positionLe
      simp only [Iob.readBufferIsValid, decide_eq_true_eq] at valid
      exact ⟨after, fun _ => ⟨by omega, empty⟩⟩
  unfold Iob.emptyBuffer at result
  by_cases pending : file.writeBufferIsValid
  · rw [if_pos pending] at result
    rcases flush : file.flushIobWriteBuffer with ⟨_ | _, flushed⟩
    · rw [flush] at result
      cases result
      exact ⟨(counters.flushIobWriteBuffer flush).1, by simp⟩
    · rw [flush] at result
      rcases counters.flushIobWriteBuffer flush with ⟨after, -, empty⟩
      exact dropped flushed after empty result
  · rw [if_neg pending] at result
    have nonneg := counters.writeNonneg
    simp only [Iob.writeBufferIsValid, decide_eq_true_eq] at pending
    exact dropped file counters (by omega) result

theorem Counters.seekDevice (wherefrom : Whence) :
    Counters (file.seekDevice offset wherefrom).2 := by
  unfold Iob.seekDevice
  rcases empty : file.emptyBuffer with ⟨_ | _, emptied⟩
  · exact (counters.emptyBuffer empty).1
  · have after := (counters.emptyBuffer empty).1
    dsimp only
    rcases Action.seek emptied.device offset wherefrom with ⟨code | position, device⟩
    all_goals exact after

/-- A seek within the buffer stays within the window, unless it goes back by
`LONG_MIN`, which has no negation. -/
theorem Counters.seekBuffered (wherefrom : Whence) (lower : longMin <= offset)
    (upper : offset <= longMax)
    (negatable : wherefrom = .cur -> file.readBufferIsValid -> offset ≠ longMin) :
    Counters (file.seekBuffered offset wherefrom).2 := by
  have cleared : Counters { file with eofReached := false } := counters
  unfold Iob.seekBuffered
  split
  · by_cases stays : Iob.staysInBuffer offset wherefrom { file with eofReached := false }
    · rw [if_pos stays]
      obtain ⟨relative, valid, either⟩ := stays
      have nonneg := counters.positionNonneg
      have le := counters.positionLe
      have strict := lt_of_le_of_ne lower (negatable relative valid).symm
      have bounds : 0 <= file.bufferPosition + offset /\
          file.bufferPosition + offset <= file.bufferReadBytes := by
        rcases either with ⟨negative, back⟩ | ⟨pos, ahead⟩
        · rw [toLong_of_fits (by unfold longMin longMax at *; omega)
            (by unfold longMin longMax at *; omega)] at back
          dsimp only at back
          omega
        · unfold Iob.numUnreadBytes at ahead
          split at ahead
          · dsimp only at ahead
            omega
          · omega
      exact { counters with positionNonneg := bounds.1, positionLe := bounds.2 }
    · rw [if_neg stays]
      exact cleared.seekDevice offset wherefrom
  · exact cleared

end

/-- Where `fseek` keeps the counters in order: the offset is a `long`, and the
relative offset it works with is not `LONG_MIN`. -/
def FseekAllowed (file : Iob δ) (offset wherefrom : Int) : Prop :=
  longMin <= offset /\ offset <= longMax /\ ∀ whence, Whence.ofInt wherefrom = some whence ->
      (file.relativeSeek offset whence).2.1 = .cur -> file.readBufferIsValid ->
      (file.relativeSeek offset whence).1 ≠ longMin

theorem Counters.fseek (counters : Counters file) {offset wherefrom : Int}
    (allowed : FseekAllowed file offset wherefrom) :
    Counters (file.fseek offset wherefrom).2 := by
  rcases allowed with ⟨lower, upper, negatable⟩
  unfold Iob.fseek
  rw [if_neg (by simp [counters.inUse])]
  cases known : Whence.ofInt wherefrom with
  | none => exact counters
  | some whence =>
    have relative := counters.relativeSeek offset whence
    have range : longMin <= (file.relativeSeek offset whence).1 /\
        (file.relativeSeek offset whence).1 <= longMax := by
      unfold Iob.relativeSeek
      split
      · dsimp only
        split
        · exact ⟨longMin_le_toLong _, toLong_le_longMax _⟩
        · exact ⟨lower, upper⟩
      · exact ⟨lower, upper⟩
    refine relative.1.seekBuffered _ _ range.1 range.2 ?_
    intro current valid
    refine negatable whence known current ?_
    simpa only [Iob.readBufferIsValid, relative.2] using valid

theorem Counters.replaceBuffer (counters : Counters file) (buffer : Block) {size : Nat}
    (pos : 0 < size) (mode : BufferMode) :
    Counters (file.replaceBuffer buffer size mode).2 := by
  unfold Iob.replaceBuffer
  rcases empty : file.emptyBuffer with ⟨_ | _, emptied⟩
  · exact (counters.emptyBuffer empty).1
  · rcases counters.emptyBuffer empty with ⟨after, nothing⟩
    rcases nothing rfl with ⟨reads, writes⟩
    have nonneg := after.positionNonneg
    have le := after.positionLe
    have position : emptied.bufferPosition = 0 := by omega
    exact Counters.empty after.inUse (by simpa using pos) position reads writes

theorem Counters.setvbuf (counters : Counters file) (buf : Option Block) (bufmode : Int)
    (size : Nat) (allocated : Option Block) :
    Counters (file.setvbuf buf bufmode size allocated).2 := by
  have pos : 0 < (if size = 0 then bufsiz else size) := by
    split
    · decide
    · omega
  unfold Iob.setvbuf
  split
  · exact counters
  · split
    · exact counters
    · split
      · exact counters
      · dsimp only
        split
        · exact counters.replaceBuffer _ Nat.one_pos _
        · exact counters.replaceBuffer _ pos _
        · exact counters.replaceBuffer _ pos _
        · exact counters

end

/-! ## Sequences -/

/-- The calls on one stream. -/
inductive Operation (φ : Type)
  | fgetc
  | ungetc (c : Int)
  | fgets (n : Int)
  | fread (ptr : Block) (elementSize count : Nat)
  | fputc (c : Int)
  | fputs (s : List UInt8)
  | fwrite (ptr : Block) (elementSize count : Nat)
  | fprintf (format : List UInt8) (ap : List (VaArg φ))
  | fseek (offset wherefrom : Int)
  | fflush
  | setvbuf (buf : Option Block) (bufmode : Int) (size : Nat) (allocated : Option Block)

section

variable {δ φ : Type} [Action δ]

def Iob.perform (lib : Library φ) (file : Iob δ) : Operation φ -> Iob δ
  | .fgetc => file.fgetc.2
  | .ungetc c => (file.ungetc c).2
  | .fgets n => (file.fgets n).2
  | .fread ptr elementSize count => (file.fread ptr elementSize count).2
  | .fputc c => (file.fputc c).2
  | .fputs s => (file.fputs s).2
  | .fwrite ptr elementSize count => (file.fwrite ptr elementSize count).2
  | .fprintf format ap => (file.vfprintf lib format ap).2
  | .fseek offset wherefrom => (file.fseek offset wherefrom).2
  | .fflush => file.fflush.2
  | .setvbuf buf bufmode size allocated => (file.setvbuf buf bufmode size allocated).2

def Iob.performAll (lib : Library φ) (file : Iob δ) (operations : List (Operation φ)) :
    Iob δ :=
  operations.foldl (Iob.perform lib) file

/-- The condition under which a call keeps the counters in order.  Calls that
check the direction of the stream have none. -/
def Operation.Allowed (file : Iob δ) : Operation φ -> Prop
  | .fwrite _ elementSize count => FwriteAllowed file elementSize count
  | .fprintf _ _ => FprintfAllowed file
  | .fseek offset wherefrom => FseekAllowed file offset wherefrom
  | _ => True

def AllAllowed (lib : Library φ) (file : Iob δ) : List (Operation φ) -> Prop
  | [] => True
  | operation :: rest =>
    operation.Allowed file /\ AllAllowed lib (file.perform lib operation) rest

theorem Counters.perform {file : Iob δ} (counters : Counters file) (lib : Library φ)
    (operation : Operation φ) (allowed : operation.Allowed file) :
    Counters (file.perform lib operation) := by
  cases operation with
  | fgetc => exact Counters.input.fgetc counters
  | ungetc c => exact Counters.input.ungetc counters c
  | fgets n => exact Counters.input.fgets counters n
  | fread ptr elementSize count => exact Counters.input.fread counters ptr elementSize count
  | fputc c => exact counters.fputc c
  | fputs s => exact counters.fputs s
  | fwrite ptr elementSize count => exact counters.fwrite ptr allowed
  | fprintf format ap => exact counters.vfprintf lib format ap allowed
  | fseek offset wherefrom => exact counters.fseek allowed
  | fflush => exact counters.fflush
  | setvbuf buf bufmode size allocated => exact counters.setvbuf buf bufmode size allocated

theorem Counters.performAll (lib : Library φ) (operations : List (Operation φ)) :
    ∀ file : Iob δ, Counters file -> AllAllowed lib file operations ->
      Counters (file.performAll lib operations) := by
  induction operations with
  | nil =>
    intro file counters _
    exact counters
  | cons operation rest ih =>
    intro file counters allowed
    exact ih _ (counters.perform lib operation allowed.1) allowed.2

/-- A stream as it was opened: nothing was read or written yet. -/
structure Opened (file : Iob δ) : Prop where
  inUse : file.inUse
  size : 0 < file.bufferSize
  position : file.bufferPosition = 0
  readBytes : file.bufferReadBytes = 0
  writeBytes : file.bufferWriteBytes = 0

/--
Over any device, and in every run whose calls are all allowed, the counters
stay within the buffer and never both count something.
-/
theorem counters_in_order (lib : Library φ) {file : Iob δ} (opened : Opened file)
    (operations : List (Operation φ)) (allowed : AllAllowed lib file operations) :
    let final := file.performAll lib operations
    (0 <= final.bufferPosition /\ final.bufferPosition <= final.bufferReadBytes /\
      final.bufferReadBytes <= final.bufferSize) /\
    (0 <= final.bufferWriteBytes /\ final.bufferWriteBytes <= final.bufferSize) /\
    ¬(0 < final.bufferReadBytes /\ 0 < final.bufferWriteBytes) := by
  intro final
  have start := Counters.empty opened.inUse opened.size opened.position opened.readBytes
    opened.writeBytes
  have counters : Counters final := Counters.performAll lib operations file start allowed
  refine ⟨⟨counters.positionNonneg, counters.positionLe, counters.readLe⟩,
    ⟨counters.writeNonneg, counters.writeLe⟩, ?_⟩
  rintro ⟨reads, writes⟩
  rcases counters.excl with none | none <;> omega

end

/-- A library in which nothing but integers and strings can be printed. -/
def plainLibrary : Library Unit where
  zero := ()
  fmtFp := fun _ _ _ _ _ => none
  wctomb := fun _ => none
  strerror := fun _ => []

theorem counters_in_order_when_drained :
    let final := (openStream .full 4 (fun _ => 0) ⟨[1, 2, 3, 4], 0, false⟩).performAll plainLibrary
      [.fgetc, .fseek 0 0, .fputc 7, .fwrite (fun _ => 9) 1 1]
    ¬(0 < final.bufferReadBytes /\ 0 < final.bufferWriteBytes) := by
  refine (@counters_in_order ByteFile Unit _ plainLibrary
    (openStream .full 4 (fun _ => 0) ⟨[1, 2, 3, 4], 0, false⟩) ⟨rfl, by decide, rfl, rfl, rfl⟩
    [.fgetc, .fseek 0 0, .fputc 7, .fwrite (fun _ => 9) 1 1]
    ⟨trivial, ⟨by decide, by decide, ?_⟩, trivial, .inl (by decide), trivial⟩).2.2
  intro whence known _ _
  cases known
  decide

/-- Reading and then writing a block leaves a window and pending output. -/
theorem fwrite_after_fgetc_counts_both :
    let final := (openStream .full 4 (fun _ => 0) ⟨[1, 2, 3, 4], 0, false⟩).performAll plainLibrary
      [.fgetc, .fwrite (fun _ => 9) 1 1]
    0 < final.bufferReadBytes /\ 0 < final.bufferWriteBytes := by
  decide

end Clib4.Stdio
