import Clib4.Stdio.Counters.Input
import Clib4.Stdio.Printf.Core

namespace Clib4.Stdio

open Foundation

/-!
# The buffer counters under output

`__fputc_check` makes a stream a `Writer` or fails, and everything that puts
bytes keeps it one: a loop may be left at any point where the device fails.
-/

section

variable {δ : Type} {file next : Iob δ}

theorem Writer.putBytes (writer : Writer file) (bytes : List UInt8)
    (fits : (bytes.length : Int) <= file.bufferSize - file.bufferWriteBytes) :
    Writer (file.putBytes bytes) := by
  have nonneg := writer.counters.writeNonneg
  exact writer.resize _ (by omega) (by omega)

theorem Writer.putByte (writer : Writer file) (c : UInt8)
    (room : file.bufferWriteBytes < file.bufferSize) : Writer (file.putByte c) :=
  writer.putBytes [c] (by simp; omega)

theorem Writer.error (writer : Writer file) : Writer { file with error := true } :=
  ⟨writer.counters, writer.noReads⟩

theorem Writer.lineChunk_le (s : List UInt8) (room : file.bufferWriteBytes < file.bufferSize) :
    ((file.lineChunk s).1 : Int) <= file.bufferSize - file.bufferWriteBytes := by
  unfold Iob.lineChunk
  dsimp only
  generalize limitEq : min (file.bufferSize - file.bufferWriteBytes).toNat s.length = limit
  cases found : Iob.lineEnd (s.take limit) with
  | none =>
    dsimp only
    omega
  | some line =>
    have bound := lineEnd_le found
    rw [List.length_take] at bound
    dsimp only
    omega

end

section

variable {δ : Type} [Action δ] {file next : Iob δ} {ok : Bool}

theorem Counters.fputcCheck (counters : Counters file)
    (result : file.fputcCheck = (ok, next)) : Counters next /\ (ok -> Writer next) := by
  unfold Iob.fputcCheck at result
  rw [if_neg (by simp [counters.inUse])] at result
  by_cases canWrite : file.canWrite
  · rw [if_neg (by simp [canWrite])] at result
    by_cases valid : file.readBufferIsValid
    · rw [if_pos valid] at result
      rcases counters.dropIobReadBuffer result with ⟨after, -, empty⟩
      exact ⟨after, fun succeeded => ⟨after, empty succeeded⟩⟩
    · rw [if_neg valid] at result
      cases result
      have nonneg := counters.positionNonneg
      have le := counters.positionLe
      simp only [Iob.readBufferIsValid, decide_eq_true_eq] at valid
      exact ⟨counters, fun _ => ⟨counters, by omega⟩⟩
  · rw [if_pos (by simpa using canWrite)] at result
    cases result
    exact ⟨counters, by simp⟩

section

variable (writer : Writer file)
include writer

theorem Writer.flushIfFull (result : file.flushIfFull = (ok, next)) :
    Writer next /\ (ok -> next.bufferWriteBytes < next.bufferSize) := by
  unfold Iob.flushIfFull at result
  by_cases full : file.writeBufferIsFull
  · rw [if_pos full] at result
    have after := writer.flushIobWriteBuffer result
    refine ⟨after, fun succeeded => ?_⟩
    rw [(writer.counters.flushIobWriteBuffer result).2.2, if_pos succeeded]
    exact after.counters.sizePos
  · rw [if_neg full] at result
    cases result
    refine ⟨writer, fun _ => ?_⟩
    have size := writer.counters.sizePos
    have le := writer.counters.writeLe
    simp only [Iob.writeBufferIsFull, Bool.and_eq_true, decide_eq_true_eq, not_and] at full
    omega

theorem Writer.takeBack_flush (pending : 0 < file.bufferWriteBytes)
    (failed : file.flushIobWriteBuffer = (false, next)) : Writer next.takeBack := by
  have after := writer.flushIobWriteBuffer failed
  have le := after.counters.writeLe
  have unchanged : next.bufferWriteBytes = file.bufferWriteBytes :=
    (writer.counters.flushIobWriteBuffer failed).2.2
  exact after.resize next.buffer (by omega) (by omega)

theorem Writer.fputcCore (c : Int) (mode : BufferMode) : Writer (file.fputcCore c mode).2 := by
  unfold Iob.fputcCore
  rcases flush : file.flushIfFull with ⟨_ | _, flushed⟩
  · exact (writer.flushIfFull flush).1
  · have after := (writer.flushIfFull flush).1
    have room := (writer.flushIfFull flush).2 rfl
    have put := after.putByte (clip c) room
    have nonneg := after.counters.writeNonneg
    dsimp only
    split
    · rcases again : (flushed.putByte (clip c)).flushIobWriteBuffer with ⟨_ | _, next⟩
      · exact put.takeBack_flush (by simp only [Iob.putByte]; omega) again
      · exact put.flushIobWriteBuffer again
    · exact put

theorem Writer.flushR : Writer file.flushR.2 := by
  unfold Iob.flushR
  split
  · exact writer
  · rename_i pos
    rcases flush : file.flushIobWriteBuffer with ⟨_ | _, flushed⟩
    · exact writer.takeBack_flush (by omega) flush
    · exact writer.flushIobWriteBuffer flush

theorem Writer.putc {c : UInt8} {mode : BufferMode} {answer : Option UInt8}
    (result : file.putc c mode = (answer, next)) : Writer next := by
  unfold Iob.putc at result
  by_cases room : file.bufferWriteBytes < file.bufferSize
  · rw [if_pos room] at result
    split at result
    · have flushed := (writer.putByte c room).flushR
      rwa [result] at flushed
    · cases result
      exact writer.putByte c room
  · rw [if_neg room] at result
    have core := writer.fputcCore c.toNat mode
    rwa [result] at core

end

theorem Counters.writeDescriptor (counters : Counters file) {bytes : List UInt8}
    {count : Option Nat} (result : file.writeDescriptor bytes = (count, next)) :
    Counters next /\ next.bufferReadBytes = file.bufferReadBytes := by
  unfold Iob.writeDescriptor at result
  repeat' split at result
  all_goals
    cases result
    exact ⟨counters, rfl⟩

theorem Writer.writeDescriptor (writer : Writer file) {bytes : List UInt8}
    {count : Option Nat} (result : file.writeDescriptor bytes = (count, next)) : Writer next :=
  ⟨(writer.counters.writeDescriptor result).1,
    (writer.counters.writeDescriptor result).2.trans writer.noReads⟩

/-! ## The output loops

What the steps of the loops keep, the loops keep, wherever they are left. -/

/-- A property that no step of an output loop breaks. -/
structure OutputInvariant (P : Iob δ -> Prop) : Prop where
  putBytes : ∀ {file : Iob δ} (bytes : List UInt8), P file ->
    (bytes.length : Int) <= file.bufferSize - file.bufferWriteBytes -> P (file.putBytes bytes)
  flush : ∀ {file : Iob δ}, P file -> P file.flushIobWriteBuffer.2
  putc : ∀ {file : Iob δ} (c : UInt8) (mode : BufferMode), P file -> P (file.putc c mode).2
  writeDescriptor : ∀ {file : Iob δ} (bytes : List UInt8), P file ->
    P (file.writeDescriptor bytes).2
  error : ∀ {file : Iob δ}, P file -> P { file with error := true }

namespace OutputInvariant

variable {P : Iob δ -> Prop} {ε : Type}

theorem flushWhen (kept : OutputInvariant P) (condition : Prop) [Decidable condition]
    (holds : P file) : P (if condition then file.flushIobWriteBuffer else (true, file)).2 := by
  split
  · exact kept.flush holds
  · exact holds

omit [Action δ] in
theorem afterFlush {result : Bool × Iob δ} (holds : P result.2) {failed : ε}
    {rest : Iob δ -> ε × Iob δ} (goesOn : ∀ file, P file -> P (rest file).2) :
    P (match result with
      | (false, file) => (failed, file)
      | (true, file) => rest file).2 := by
  rcases result with ⟨_ | _, next⟩
  · exact holds
  · exact goesOn next holds

section

variable (kept : OutputInvariant P)
include kept

theorem afterPutc (holds : P file) (c : UInt8) (mode : BufferMode) {failed : ε}
    {rest : Iob δ -> ε × Iob δ} (goesOn : ∀ file, P file -> P (rest file).2) :
    P (match file.putc c mode with
      | (none, file) => (failed, file)
      | (some _, file) => rest file).2 := by
  have put := kept.putc c mode holds
  generalize file.putc c mode = answer at put ⊢
  rcases answer with ⟨_ | _, next⟩
  · exact put
  · exact goesOn next put

theorem afterWrite (holds : P file) (bytes : List UInt8) {failed : ε} {done : Nat -> ε} :
    P (match file.writeDescriptor bytes with
      | (none, file) => (failed, { file with error := true })
      | (some count, file) => (done count, file)).2 := by
  have written := kept.writeDescriptor bytes holds
  generalize file.writeDescriptor bytes = answer at written ⊢
  rcases answer with ⟨_ | _, next⟩
  · exact kept.error written
  · exact written

theorem fputsLine (fuel : Nat) (s : List UInt8) (holds : P file) :
    P (Iob.fputsLine fuel s file).2 := by
  induction fuel generalizing s file with
  | zero => exact holds
  | succ fuel ih =>
    cases s with
    | nil => exact holds
    | cons c rest =>
      unfold Iob.fputsLine
      dsimp only
      by_cases room : file.bufferWriteBytes < file.bufferSize
      · rw [if_pos room]
        have bound := Writer.lineChunk_le (c :: rest) room
        generalize file.lineChunk (c :: rest) = chunk at bound ⊢
        have put := kept.putBytes ((c :: rest).take chunk.1) holds
          (le_trans (by rw [List.length_take]; omega) bound)
        refine afterFlush (kept.flushWhen _ put) fun next after => ?_
        cases (c :: rest).drop chunk.1 with
        | nil => exact after
        | cons d tail =>
          dsimp only
          split
          · exact ih _ after
          · exact kept.afterPutc after d .line fun _ => ih tail
      · rw [if_neg room]
        exact kept.afterPutc holds c .line fun _ => ih rest

theorem fputsFull (fuel : Nat) (s : List UInt8) (holds : P file) :
    P (Iob.fputsFull fuel s file).2 := by
  induction fuel generalizing s file with
  | zero => exact holds
  | succ fuel ih =>
    cases s with
    | nil => exact holds
    | cons c rest =>
      unfold Iob.fputsFull
      dsimp only
      split
      · exact kept.afterWrite holds (c :: rest)
      · split
        · generalize countEq : min (file.bufferSize - file.bufferWriteBytes).toNat
            (c :: rest).length = count
          have put := kept.putBytes ((c :: rest).take count) holds
            (by rw [List.length_take]; omega)
          refine afterFlush (kept.flushWhen _ put) fun next after => ?_
          cases (c :: rest).drop count with
          | nil => exact after
          | cons d tail =>
            dsimp only
            split
            · exact ih _ after
            · exact kept.afterPutc after d .full fun _ => ih tail
        · exact kept.afterPutc holds c .full fun _ => ih rest

theorem fputsBytes (s : List UInt8) (holds : P file) : P (file.fputsBytes s).2 := by
  unfold Iob.fputsBytes
  cases file.outputMode with
  | line => exact kept.fputsLine _ _ holds
  | full => exact kept.fputsFull _ _ holds
  | none => exact kept.afterWrite holds s

theorem fwriteLine (ptr : Block) (fuel s total written : Nat) (holds : P file) :
    P (Iob.fwriteLine ptr fuel s total written file).2 := by
  induction fuel generalizing s total written file with
  | zero => exact holds
  | succ fuel ih =>
    unfold Iob.fwriteLine
    split
    · exact holds
    · by_cases room : file.bufferWriteBytes < file.bufferSize
      · rw [if_pos room]
        have bound := Writer.lineChunk_le (ptr.load s total) room
        generalize file.lineChunk (ptr.load s total) = chunk at bound ⊢
        have put := kept.putBytes (ptr.load s chunk.1) holds
          (by rw [Block.length_load]; exact bound)
        refine afterFlush (kept.flushWhen _ put) fun next after => ?_
        split
        · exact after
        · split
          · exact ih _ _ _ after
          · exact kept.afterPutc after _ .line fun _ => ih _ _ _
      · rw [if_neg room]
        exact kept.afterPutc holds (ptr s) .line fun _ => ih _ _ _

theorem fwriteFull (ptr : Block) (fuel s total written : Nat) (holds : P file) :
    P (Iob.fwriteFull ptr fuel s total written file).2 := by
  induction fuel generalizing s total written file with
  | zero => exact holds
  | succ fuel ih =>
    unfold Iob.fwriteFull
    split
    · exact holds
    · split
      · exact kept.afterWrite holds (ptr.load s total)
      · split
        · generalize countEq : min (file.bufferSize - file.bufferWriteBytes).toNat total = count
          have put := kept.putBytes (ptr.load s count) holds (by rw [Block.length_load]; omega)
          refine afterFlush (kept.flushWhen _ put) fun next after => ?_
          split
          · exact after
          · split
            · exact ih _ _ _ after
            · exact kept.afterPutc after _ .full fun _ => ih _ _ _
        · exact kept.afterPutc holds (ptr s) .full fun _ => ih _ _ _

end

end OutputInvariant

/-- The loops keep a stream a `Writer`. -/
theorem writer_invariant : @OutputInvariant δ _ Writer where
  putBytes bytes writer fits := writer.putBytes bytes fits
  flush writer := writer.flushIobWriteBuffer rfl
  putc _ _ writer := writer.putc rfl
  writeDescriptor _ writer := writer.writeDescriptor rfl
  error writer := writer.error

theorem Writer.fputsBytes (writer : Writer file) (s : List UInt8) : Writer (file.fputsBytes s).2 :=
  writer_invariant.fputsBytes s writer

theorem Counters.fputc (counters : Counters file) (c : Int) : Counters (file.fputc c).2 := by
  unfold Iob.fputc
  rcases check : file.fputcCheck with ⟨_ | _, checked⟩
  · exact (counters.fputcCheck check).1
  · exact (((counters.fputcCheck check).2 rfl).fputcCore _ _).counters

theorem Counters.fputs (counters : Counters file) (s : List UInt8) : Counters (file.fputs s).2 := by
  unfold Iob.fputs
  rcases check : file.fputcCheck with ⟨_ | _, checked⟩
  · exact (counters.fputcCheck check).1
  · have put := ((counters.fputcCheck check).2 rfl).fputsBytes s
    dsimp only
    rcases answer : checked.fputsBytes s with ⟨_ | _, next⟩
    · rw [answer] at put
      exact put.counters
    · rw [answer] at put
      dsimp only
      split
      · exact (put.flushIobWriteBuffer rfl).counters
      · exact put.counters

/-! ## Blocks -/

theorem Counters.fwriteNone (counters : Counters file) (ptr : Block) (total : Nat) :
    Counters (file.fwriteNone ptr total).2 := by
  unfold Iob.fwriteNone
  rcases answer : file.writeDescriptor (ptr.load 0 (min total file.bufferSize.toNat)) with
    ⟨_ | _, next⟩
  · exact (counters.writeDescriptor answer).1
  · have after := (counters.writeDescriptor answer).1
    dsimp only
    split
    · exact (after.flushIobWriteBuffer rfl).1
    · exact after

/--
Where `fwrite` keeps the counters in order although it does not check: there
is no read window, or nothing goes through the buffer.
-/
def FwriteAllowed (file : Iob δ) (elementSize count : Nat) : Prop :=
  file.bufferReadBytes = 0 \/ file.outputMode = .none \/ (file.outputMode = .full /\
      file.bufferSize <= (Iob.sizeT (elementSize * count) : Int))

section

variable (counters : Counters file) (ptr : Block) {elementSize count : Nat}
  (allowed : FwriteAllowed file elementSize count)
include counters allowed

theorem Counters.fwriteBytes :
    Counters (file.fwriteBytes ptr (2 * Iob.sizeT (elementSize * count) + 2)
      (Iob.sizeT (elementSize * count))).2 := by
  by_cases noReads : file.bufferReadBytes = 0
  · have writer : Writer file := ⟨counters, noReads⟩
    unfold Iob.fwriteBytes
    cases file.outputMode with
    | line => exact (writer_invariant.fwriteLine _ _ _ _ _ writer).counters
    | none => exact counters.fwriteNone _ _
    | full => exact (writer_invariant.fwriteFull _ _ _ _ _ writer).counters
  · have empty := counters.excl.resolve_left noReads
    unfold Iob.fwriteBytes
    rcases allowed with none | mode | ⟨mode, large⟩
    · exact absurd none noReads
    · rw [mode]
      exact counters.fwriteNone _ _
    · rw [mode]
      dsimp only
      unfold Iob.fwriteFull
      split
      · exact counters
      · rw [if_pos ⟨empty, large⟩]
        rcases answer : file.writeDescriptor (ptr.load (0 : Nat) _) with ⟨_ | _, next⟩
        all_goals exact (counters.writeDescriptor answer).1

theorem Counters.fwrite : Counters (file.fwrite ptr elementSize count).2 := by
  have bytes := counters.fwriteBytes ptr allowed
  unfold Iob.fwrite
  split
  · exact counters
  · split
    · dsimp only
      split
      · exact counters
      · rcases answer : file.fwriteBytes ptr (2 * Iob.sizeT (elementSize * count) + 2)
          (Iob.sizeT (elementSize * count)) with ⟨_ | _ | _, next⟩ <;>
        · rw [answer] at bytes
          exact bytes
    · exact counters

end

/-! ## Formatted output -/

open Printf

theorem Writer.out (text : List UInt8) : ∀ file : Iob δ, Writer file ->
    Writer (file.out text) := by
  induction text with
  | nil =>
    intro file writer
    exact writer
  | cons c rest ih =>
    intro file writer
    exact ih _ (writer.fputcCore c.toNat file.bufferMode)

theorem Reader.fputcCore_none (reader : Reader file) (c : Int) :
    Reader (file.fputcCore c .none).2 /\ (file.fputcCore c .none).2.bufferMode = file.bufferMode /\
      (file.fputcCore c .none).2.noNul = file.noNul := by
  have size := reader.counters.sizePos
  have notFull : file.flushIfFull = (true, file) := by
    unfold Iob.flushIfFull
    rw [if_neg (by simp [Iob.writeBufferIsFull, reader.noWrites]; omega)]
  unfold Iob.fputcCore
  rw [notFull]
  dsimp only
  rw [if_pos (.inl rfl)]
  unfold Iob.flushIobWriteBuffer
  rw [if_pos (by simp [Iob.putByte, Iob.writeBufferIsValid, reader.counters.inUse,
    reader.noWrites])]
  have restored : ∀ (buffer : Block) (pending : Int) (error : Bool)
      (errno : Option Errno) (device : δ), pending = 0 ->
      Reader { file with
        buffer := buffer, bufferWriteBytes := pending, error := error, errno := errno
        device := device } := by
    intro buffer pending error errno device empty
    exact ⟨{ reader.counters with
      writeNonneg := by rw [empty]
      writeLe := by rw [empty]; exact le_of_lt size
      excl := .inr empty }, empty⟩
  rcases Action.write (file.putByte (clip c)).device ((file.putByte (clip c)).buffer.load 0
    (file.putByte (clip c)).bufferWriteBytes.toNat) with ⟨code | count, device⟩
  · refine ⟨restored _ _ _ _ _ ?_, rfl, rfl⟩
    simp [Iob.putByte, Iob.fail, reader.noWrites]
  · exact ⟨restored _ _ _ _ _ rfl, rfl, rfl⟩

theorem Reader.out_none (text : List UInt8) : ∀ file : Iob δ, Reader file ->
    file.bufferMode = .none ->
    Reader (file.out text) /\ (file.out text).noNul = file.noNul := by
  induction text with
  | nil =>
    intro file reader _
    exact ⟨reader, rfl⟩
  | cons c rest ih =>
    intro file reader mode
    rcases reader.fputcCore_none c.toNat with ⟨after, afterMode, afterNul⟩
    have step : Iob.out (c :: rest) file = Iob.out rest (file.fputcCore c.toNat .none).2 := by
      simp only [Iob.out, List.foldl_cons, mode]
    rcases ih _ after (afterMode.trans mode) with ⟨final, finalNul⟩
    rw [step]
    exact ⟨final, finalNul.trans afterNul⟩

theorem Counters.fflush (counters : Counters file) : Counters file.fflush.2 := by
  unfold Iob.fflush
  split
  · exact (counters.flushIobWriteBuffer rfl).1
  · exact counters

/-- Where `fprintf` keeps the counters in order although it does not check. -/
def FprintfAllowed (file : Iob δ) : Prop :=
  file.bufferReadBytes = 0 \/ (file.bufferMode = .none /\ file.noNul)

theorem Counters.vfprintf {φ : Type} (counters : Counters file) (lib : Library φ)
    (format : List UInt8) (ap : List (VaArg φ)) (allowed : FprintfAllowed file) :
    Counters (file.vfprintf lib format ap).2 := by
  unfold Iob.vfprintf
  dsimp only
  generalize printfCore lib (fun written => lib.strerror (file.out written).errno)
    (noArgs lib) format ap = result
  rcases result with ⟨stop, state⟩
  have written : Counters (file.out state.output) /\
      ((file.out state.output).noNul \/ Writer (file.out state.output)) := by
    by_cases noReads : file.bufferReadBytes = 0
    · have writer := Writer.out state.output file ⟨counters, noReads⟩
      exact ⟨writer.counters, .inr writer⟩
    · rcases allowed.resolve_left noReads with ⟨mode, noNul⟩
      have empty := counters.excl.resolve_left noReads
      rcases Reader.out_none state.output file ⟨counters, empty⟩ mode with ⟨reader, same⟩
      exact ⟨reader.counters, .inl (same.trans noNul)⟩
  rcases written with ⟨after, terminated⟩
  cases stop with
  | returned count =>
    dsimp only
    rcases terminated with noNul | writer
    · rw [if_pos noNul]
      exact after.fflush
    · split
      · exact after.fflush
      · exact (writer.putc rfl).counters.fflush
  | inval | overflow | unconvertible | undefined => exact after

end

end Clib4.Stdio
