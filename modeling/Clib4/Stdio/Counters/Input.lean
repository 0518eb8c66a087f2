import Clib4.Stdio.Bytewise
import Clib4.Stdio.Position

namespace Clib4.Stdio

open Foundation

/-!
# The buffer counters

Whatever the device does, each call leaves the three counters of a stream
within the buffer, and at most one of the read window and the pending output
is not empty.  The calls that read work on a stream without pending output,
and the calls that write on one without a window; the checks at their head
see to that.  `fwrite` and `fprintf` have no such check.
-/

/-- The relation between the counters, in terms of the fields alone, so that
it is literally the same after an update of any other field. -/
structure Balanced (inUse : Bool) (size position readBytes writeBytes : Int) : Prop where
  inUse : inUse
  sizePos : 0 < size
  positionNonneg : 0 <= position
  positionLe : position <= readBytes
  readLe : readBytes <= size
  writeNonneg : 0 <= writeBytes
  writeLe : writeBytes <= size
  excl : readBytes = 0 \/ writeBytes = 0

section

variable {δ : Type} {file next : Iob δ}

def Counters (file : Iob δ) : Prop :=
  Balanced file.inUse file.bufferSize file.bufferPosition file.bufferReadBytes
    file.bufferWriteBytes

/-- Ready for input: nothing is pending. -/
structure Reader (file : Iob δ) : Prop where
  counters : Counters file
  noWrites : file.bufferWriteBytes = 0

/-- Ready for output: there is no window. -/
structure Writer (file : Iob δ) : Prop where
  counters : Counters file
  noReads : file.bufferReadBytes = 0

theorem Writer.resize (writer : Writer file) {pending : Int} (buffer : Block)
    (nonneg : 0 <= pending) (within : pending <= file.bufferSize) :
    Writer { file with buffer := buffer, bufferWriteBytes := pending } :=
  ⟨{ writer.counters with
      writeNonneg := nonneg, writeLe := within, excl := .inl writer.noReads },
    writer.noReads⟩

theorem Counters.empty (inUse : file.inUse) (size : 0 < file.bufferSize)
    (position : file.bufferPosition = 0) (readBytes : file.bufferReadBytes = 0)
    (writeBytes : file.bufferWriteBytes = 0) : Counters file where
  inUse := inUse
  sizePos := size
  positionNonneg := by rw [position]
  positionLe := by rw [position, readBytes]
  readLe := by rw [readBytes]; exact le_of_lt size
  writeNonneg := by rw [writeBytes]
  writeLe := by rw [writeBytes]; exact le_of_lt size
  excl := .inl readBytes

end

section

variable {δ : Type} [Action δ] {file next : Iob δ} {ok : Bool}

/-! ## Whole buffers -/

theorem Counters.flushIobWriteBuffer (counters : Counters file)
    (result : file.flushIobWriteBuffer = (ok, next)) :
    Counters next /\ next.bufferReadBytes = file.bufferReadBytes /\
      next.bufferWriteBytes = (if ok then 0 else file.bufferWriteBytes) := by
  unfold Iob.flushIobWriteBuffer at result
  by_cases pending : file.inUse && file.writeBufferIsValid
  · rw [if_pos pending] at result
    rcases answer : Action.write file.device
      (file.buffer.load 0 file.bufferWriteBytes.toNat) with ⟨code | count, device⟩
    · rw [answer] at result
      cases result
      exact ⟨counters, rfl, rfl⟩
    · rw [answer] at result
      cases result
      exact ⟨{ counters with
          writeNonneg := le_refl _, writeLe := le_of_lt counters.sizePos
          excl := .inr rfl },
        rfl, rfl⟩
  · rw [if_neg pending] at result
    cases result
    refine ⟨counters, rfl, ?_⟩
    have nonneg := counters.writeNonneg
    simp only [counters.inUse, Iob.writeBufferIsValid, Bool.true_and, decide_eq_true_eq]
      at pending
    omega

theorem Writer.flushIobWriteBuffer (writer : Writer file)
    (result : file.flushIobWriteBuffer = (ok, next)) : Writer next := by
  rcases writer.counters.flushIobWriteBuffer result with ⟨counters, reads, -⟩
  exact ⟨counters, reads.trans writer.noReads⟩

theorem Counters.dropIobReadBuffer (counters : Counters file)
    (result : file.dropIobReadBuffer = (ok, next)) :
    Counters next /\ next.bufferWriteBytes = file.bufferWriteBytes /\
      (ok -> next.bufferReadBytes = 0) := by
  have dropped : ∀ (eof : Bool) (device : δ), Counters { file with
      eofReached := eof, device := device, bufferReadBytes := 0, bufferPosition := 0 } := by
    intro eof device
    exact { counters with
      positionNonneg := le_refl _
      positionLe := le_refl _
      readLe := le_of_lt counters.sizePos
      excl := .inl rfl }
  unfold Iob.dropIobReadBuffer at result
  rw [if_pos counters.inUse] at result
  by_cases valid : Iob.readBufferIsValid { file with eofReached := false }
  · rw [if_pos valid] at result
    split at result
    · split at result
      · cases result
        exact ⟨counters, rfl, by simp⟩
      · cases result
        exact ⟨dropped _ _, rfl, fun _ => rfl⟩
    · cases result
      exact ⟨dropped _ _, rfl, fun _ => rfl⟩
  · rw [if_neg valid] at result
    cases result
    refine ⟨counters, rfl, fun _ => ?_⟩
    have nonneg := counters.positionNonneg
    have le := counters.positionLe
    simp only [Iob.readBufferIsValid, decide_eq_true_eq] at valid
    dsimp only
    omega

/-! ## Input -/

theorem Counters.input : Iob.InputInvariant (Counters : Iob δ -> Prop) where
  marks _ _ _ _ _ counters := counters
  settles {file device pending} counters settled := by
    unfold Iob.settlement at settled
    split at settled
    · split at settled
      · cases settled
      · cases settled
        exact { counters with
          writeNonneg := le_refl _, writeLe := le_of_lt counters.sizePos, excl := .inr rfl }
    · cases settled
      exact counters
  take {file} counters here := by
    have nonneg := counters.positionNonneg
    have unread := Iob.unread_of_ordered counters.positionLe here
    exact { counters with
      positionNonneg := by simp only [Iob.skip]; omega
      positionLe := by simp only [Iob.skip]; omega }
  fill {file bytes} device counters settled fits := by
    have size := counters.sizePos
    have nonneg := counters.writeNonneg
    simp only [Iob.writeBufferIsValid, decide_eq_false_iff_not] at settled
    exact { counters with
      positionNonneg := le_refl _
      positionLe := Int.natCast_nonneg _
      readLe := by simp only [Iob.filled]; omega
      excl := .inr (by simp only [Iob.filled]; omega) }
  back {file} _ counters moved := by
    have nonneg := counters.positionNonneg
    have le := counters.positionLe
    exact { counters with
      positionNonneg := by dsimp only; omega
      positionLe := by dsimp only; omega }

end

end Clib4.Stdio
