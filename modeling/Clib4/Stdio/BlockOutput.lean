import Clib4.Stdio.Medium

namespace Clib4.Stdio

open Foundation List

/-!
# Block output and what it reports

The loops of `fwrite` over a medium that may refuse a write.  Both loops may
copy bytes into the buffer, fail to flush them and leave without counting
them, so for each loop a predicate of the buffer, the data and the outcomes
says when what is reported is what was stored.
-/

/-- What `fwrite` returns for elements of one byte. -/
def Iob.FwriteEnd.reported : Iob.FwriteEnd -> Option Nat
  | .counted bytes => some bytes
  | .abandoned => some 0
  | .running => none

/-! ## The line buffered loop -/

/--
A line buffered block is reported as it is stored: every flush behind a copy
succeeds.  With a full buffer, where bytes go through `__putc_line_buffered`,
a failing flush ends the call without harm.
-/
def lineSafe (size : Int) : Int -> List UInt8 -> List Bool -> Bool
  | _, [], _ => true
  | pending, c :: rest, outcomes =>
    if pending < size then
      if c = lineFeed \/ pending + 1 = size then
        Medium.accepts outcomes && lineSafe size 0 rest outcomes.tail
      else lineSafe size (pending + 1) rest outcomes
    else if Medium.accepts outcomes then
      if c = lineFeed then
        !Medium.accepts outcomes.tail || lineSafe size 0 rest outcomes.tail.tail
      else lineSafe size 1 rest outcomes.tail
    else true

theorem lineSafe_of_no_failure (size pending : Int) (data : List UInt8) :
    lineSafe size pending data [] := by
  induction data generalizing pending with
  | nil => rfl
  | cons c rest ih =>
    unfold lineSafe
    simp [Medium.accepts, ih]

theorem lineChunk_cons (file : Iob Medium) (c : UInt8) (rest : List UInt8)
    (room : file.bufferWriteBytes < file.bufferSize) :
    file.lineChunk (c :: rest) =
      if c = lineFeed then (1, true)
      else (((file.putByte c).lineChunk rest).1 + 1, ((file.putByte c).lineChunk rest).2) := by
  have limit : min (file.bufferSize - file.bufferWriteBytes).toNat (c :: rest).length =
      min ((file.putByte c).bufferSize - (file.putByte c).bufferWriteBytes).toNat
        rest.length + 1 := by
    simp only [Iob.putByte, length_cons]
    omega
  unfold Iob.lineChunk
  rw [limit]
  generalize min ((file.putByte c).bufferSize - (file.putByte c).bufferWriteBytes).toNat
    rest.length = count
  dsimp only
  rw [take_succ_cons, lineEnd_cons]
  by_cases feed : c = lineFeed
  · rw [if_pos feed, if_pos feed]
  · rw [if_neg feed, if_neg feed]
    cases Iob.lineEnd (rest.take count) <;> rfl

theorem lineSafe_chunk (data : List UInt8) (file : Iob Medium) (outcomes : List Bool)
    (room : file.bufferWriteBytes < file.bufferSize) :
    lineSafe file.bufferSize file.bufferWriteBytes data outcomes =
      if (file.lineChunk data).2 \/
          file.bufferWriteBytes + ((file.lineChunk data).1 : Int) = file.bufferSize then
        Medium.accepts outcomes &&
          lineSafe file.bufferSize 0 (data.drop (file.lineChunk data).1) outcomes.tail
      else
        lineSafe file.bufferSize (file.bufferWriteBytes + ((file.lineChunk data).1 : Int))
          (data.drop (file.lineChunk data).1) outcomes := by
  induction data generalizing file with
  | nil =>
    have notFull := ne_of_lt room
    simp [Iob.lineChunk, lineEnd_nil, lineSafe, notFull]
  | cons c rest ih =>
    rw [lineChunk_cons file c rest room, lineSafe, if_pos room]
    by_cases feed : c = lineFeed
    · simp [feed]
    · rw [if_neg feed]
      have stored : (file.putByte c).bufferWriteBytes = file.bufferWriteBytes + 1 := rfl
      have size : (file.putByte c).bufferSize = file.bufferSize := rfl
      by_cases last : file.bufferWriteBytes + 1 = file.bufferSize
      · have noRoom : (file.putByte c).lineChunk rest = (0, false) := by
          simp [Iob.lineChunk, stored, size, last, lineEnd_nil]
        simp [feed, last, noRoom]
      · have smaller : (file.putByte c).bufferWriteBytes < (file.putByte c).bufferSize := by
          rw [size]
          omega
        have whole := ih (file.putByte c) smaller
        rw [stored, size] at whole
        generalize (file.putByte c).lineChunk rest = chunk at whole ⊢
        have shift : file.bufferWriteBytes + ((chunk.1 + 1 : Nat) : Int) =
            file.bufferWriteBytes + 1 + (chunk.1 : Int) := by
          push_cast
          ring
        rw [if_neg (by simp [feed, last]), whole]
        simp only [shift, drop_succ_cons]

namespace WriteStream

variable {file : Iob Medium}

theorem toNat_eq_lineFeed {c : UInt8} : (c.toNat : Int) = 10 <-> c = lineFeed := by
  rw [<- UInt8.toNat_inj]
  change _ <-> c.toNat = 10
  omega

theorem fputcCore_byte (stream : WriteStream file) (c : UInt8) (mode : BufferMode)
    (room : file.bufferWriteBytes < file.bufferSize) :
    file.fputcCore c.toNat mode =
      if mode = .none \/ (mode = .line /\ c = lineFeed) then
        if Medium.accepts file.device.outcomes then (some c, (file.putByte c).flushed)
        else (none, (file.putByte c).refused.takeBack)
      else (some c, file.putByte c) := by
  unfold Iob.fputcCore
  rw [flushIfFull_of_room room]
  simp only [clip_toNat, toNat_eq_lineFeed, stream.put_flush c room]
  split_ifs <;> rfl

theorem putc_of_full (stream : WriteStream file) (c : UInt8) (mode : BufferMode)
    (full : file.bufferWriteBytes = file.bufferSize) :
    file.putc c mode =
      if Medium.accepts file.device.outcomes then file.flushed.fputcCore c.toNat mode
      else (none, file.refused) := by
  unfold Iob.putc
  rw [if_neg (by omega), stream.fputcCore_of_full _ _ full]

/--
How a call ends that has counted `written` bytes and reads on at `s`: by what it
stored, by whether it reports as much, and by where it ends when no write
fails.
-/
def BlockEnds (ptr : Block) (s written : Nat) (file : Iob Medium) (safe : Bool)
    (final : Iob.FwriteEnd) (result : Iob.FwriteEnd × Iob Medium) : Prop :=
  ∃ stored, WriteStream result.2 /\ result.2.held = file.held ++ ptr.load s stored /\
    (result.1.reported = some (written + stored) <-> safe) /\
    (file.device.outcomes = [] -> result.1 = final)

variable {ptr : Block} {next : Iob Medium} {final : Iob.FwriteEnd}

theorem BlockEnds.after {s written count : Nat} {safe : Bool} {result : Iob.FwriteEnd × Iob Medium}
    (held : next.held = file.held ++ ptr.load s count)
    (outcomes : file.device.outcomes = [] -> next.device.outcomes = [])
    (ends : BlockEnds ptr (s + count) (written + count) next safe final result) :
    BlockEnds ptr s written file safe final result := by
  obtain ⟨stored, stream, finalHeld, exact, complete⟩ := ends
  refine ⟨count + stored, stream, ?_, ?_, fun none => complete (outcomes none)⟩
  · rw [finalHeld, held, append_assoc, Block.load_add]
    push_cast
    rfl
  · rw [<- exact, Nat.add_assoc]

theorem BlockEnds.stop {s written : Nat} (stream : WriteStream next) (held : next.held = file.held)
    (reason : file.device.outcomes = [] -> .counted written = final) :
    BlockEnds ptr s written file true final (.counted written, next) :=
  ⟨0, stream, by simpa using held, by simp [Iob.FwriteEnd.reported], reason⟩

variable {outcomes : List Bool}

theorem tail_of_nil (none : outcomes = []) : outcomes.tail = [] := by
  rw [none, tail_nil]

theorem accepts_of_nil (none : outcomes = []) : Medium.accepts outcomes := by
  rw [none]
  rfl

theorem BlockEnds.uncounted {s written count : Nat} (stream : WriteStream next)
    (held : next.held = file.held ++ ptr.load s count)
    (pos : 0 < count) (failed : Medium.accepts file.device.outcomes ≠ true) :
    BlockEnds ptr s written file false final (.counted written, next) := by
  refine ⟨count, stream, held, ?_, fun none => absurd (accepts_of_nil none) failed⟩
  simp only [Iob.FwriteEnd.reported, Option.some.injEq, Bool.false_eq_true, iff_false]
  omega

theorem load_ne_nil (ptr : Block) (s : Int) {total : Nat} (some : total ≠ 0) :
    ptr.load s total ≠ [] := by
  intro empty
  have length := congrArg List.length empty
  rw [Block.length_load] at length
  exact some length

/-- With this many rounds, the line buffered loop reports what it stores
exactly if it is safe. -/
def LineLoop (ptr : Block) (fuel : Nat) : Prop :=
  ∀ (s total written : Nat) (file : Iob Medium), total < fuel -> WriteStream file ->
    BlockEnds ptr s written file
      (lineSafe file.bufferSize file.bufferWriteBytes (ptr.load s total) file.device.outcomes)
      (.counted (written + total))
      (Iob.fwriteLine ptr fuel s total written file)

section

variable {fuel s total written : Nat} (loop : LineLoop ptr fuel) (short : total < fuel + 1)
  (finished : ¬total = 0) (stream : WriteStream file)
include loop short finished stream

/-- A round that copies into the buffer. -/
theorem LineLoop.round_of_room (room : file.bufferWriteBytes < file.bufferSize) :
    BlockEnds ptr s written file
      (lineSafe file.bufferSize file.bufferWriteBytes (ptr.load s total) file.device.outcomes)
      (.counted (written + total))
      (Iob.fwriteLine ptr (fuel + 1) s total written file) := by
  rcases lineChunk_bounds (ptr.load s total) file (load_ne_nil ptr s finished) room with
    ⟨pos, within, fits⟩
  rw [Iob.fwriteLine, if_neg finished, if_pos room, lineSafe_chunk _ _ _ room]
  generalize file.lineChunk (ptr.load s total) = chunk at pos within fits ⊢
  rcases chunk with ⟨count, feed⟩
  rw [Block.length_load] at within
  dsimp only at pos within fits ⊢
  have behind : (ptr.load s total).drop count = ptr.load (s + count : Nat) (total - count) := by
    rw [Block.drop_load ptr s within]
    push_cast
    rfl
  have put := stream.putBytes (ptr.load s count) (by rw [Block.length_load]; omega)
  have held := file.held_putBytes (ptr.load s count) stream.pendingNonneg
  have waiting : (file.putBytes (ptr.load s count)).bufferWriteBytes =
      file.bufferWriteBytes + count := by
    simp [Iob.putBytes]
  have nonneg := stream.pendingNonneg
  have isFull : (file.putBytes (ptr.load s count)).writeBufferIsFull <->
      file.bufferWriteBytes + count = file.bufferSize := by
    rw [put.writeBufferIsFull_iff, waiting]
    rfl
  rw [put.flush_of_pending (by rw [waiting]; omega), behind]
  -- What is left to do once the copied bytes are counted.
  have continues : ∀ (next : Iob Medium) (other : Iob.FwriteEnd × Iob Medium),
      WriteStream next -> next.held = file.held ++ ptr.load s count ->
      (file.device.outcomes = [] -> next.device.outcomes = []) ->
      next.bufferWriteBytes < next.bufferSize ->
      BlockEnds ptr s written file
        (lineSafe next.bufferSize next.bufferWriteBytes
          (ptr.load (s + count : Nat) (total - count)) next.device.outcomes)
        (.counted (written + total))
        (if total - count = 0 then (.counted (written + count), next)
        else if next.bufferWriteBytes < next.bufferSize then
          Iob.fwriteLine ptr fuel (s + count) (total - count) (written + count) next
        else other) := by
    intro next other nextStream nextHeld nextOutcomes nextRoom
    have rest : written + total = written + count + (total - count) := by omega
    rw [rest]
    refine BlockEnds.after nextHeld nextOutcomes ?_
    by_cases last : total - count = 0
    · rw [last]
      exact BlockEnds.stop nextStream rfl (fun _ => rfl)
    · rw [if_neg last, if_pos nextRoom]
      exact loop _ _ _ next (by omega) nextStream
  by_cases flushes : feed \/ file.bufferWriteBytes + count = file.bufferSize
  · rw [if_pos flushes, if_pos (flushes.imp_right isFull.mpr)]
    by_cases accepted : Medium.accepts file.device.outcomes
    · rw [Iob.device_putBytes, accepted, Bool.true_and]
      exact continues _ _ put.flushed (by rw [Iob.held_flushed, held])
        tail_of_nil stream.sizePos
    · rw [Iob.device_putBytes, Bool.eq_false_iff.mpr accepted, Bool.false_and]
      exact BlockEnds.uncounted put.refused held pos accepted
  · rw [if_neg flushes, if_neg (mt (Or.imp_right isFull.mp) flushes), <- waiting]
    refine continues _ _ put held id ?_
    rw [waiting]
    have notFull := fun same => flushes (Or.inr same)
    change _ < file.bufferSize
    omega

/-- A round that puts a single byte. -/
theorem LineLoop.round_of_full (room : ¬file.bufferWriteBytes < file.bufferSize) :
    BlockEnds ptr s written file
      (lineSafe file.bufferSize file.bufferWriteBytes (ptr.load s total) file.device.outcomes)
      (.counted (written + total))
      (Iob.fwriteLine ptr (fuel + 1) s total written file) := by
  have full := le_antisymm stream.pendingLe (not_lt.mp room)
  obtain ⟨left, rfl⟩ := Nat.exists_eq_succ_of_ne_zero finished
  rw [Iob.fwriteLine, if_neg finished, if_neg room, stream.putc_of_full _ _ full,
    Block.load_succ, lineSafe, if_neg room]
  by_cases accepted : Medium.accepts file.device.outcomes
  · have empty := stream.room_flushed
    have put := stream.flushed.putByte (ptr s) empty
    have held := file.flushed.held_putByte (ptr s) (le_refl _)
    rw [Iob.held_flushed] at held
    rw [if_pos accepted, if_pos accepted, stream.flushed.fputcCore_byte _ _ empty,
      Iob.outcomes_flushed]
    -- What is left to do once the byte is counted.
    have continues : ∀ next : Iob Medium, WriteStream next ->
        next.held = file.held ++ [ptr s] ->
        (file.device.outcomes = [] -> next.device.outcomes = []) ->
        BlockEnds ptr s written file
          (lineSafe next.bufferSize next.bufferWriteBytes (ptr.load (s + 1) left)
            next.device.outcomes)
          (.counted (written + (left + 1)))
          (Iob.fwriteLine ptr fuel (s + 1) left (written + 1) next) := by
      intro next nextStream nextHeld nextOutcomes
      rw [Nat.add_comm left 1, <- Nat.add_assoc]
      exact BlockEnds.after (by rw [nextHeld, Block.load_succ, Block.load_zero]) nextOutcomes
        (loop (s + 1) left (written + 1) next (by omega) nextStream)
    by_cases feed : ptr s = lineFeed
    · rw [if_pos feed, if_pos (Or.inr ⟨rfl, feed⟩)]
      by_cases second : Medium.accepts file.device.outcomes.tail
      · rw [second, Bool.not_true, Bool.false_or]
        exact continues _ put.flushed (by rw [Iob.held_flushed, held])
          (fun none => tail_of_nil (tail_of_nil none))
      · rw [Bool.eq_false_iff.mpr second, Bool.not_false, Bool.true_or]
        refine BlockEnds.stop (stream.flushed.takeBack_put (ptr s)) ?_
          (fun none => absurd (accepts_of_nil (tail_of_nil none)) second)
        rw [Iob.held_takeBack_putByte _ _ (le_refl _), Iob.held_flushed]
    · rw [if_neg feed, if_neg (by simp [feed])]
      exact continues _ put held tail_of_nil
  · rw [if_neg accepted, if_neg accepted]
    exact BlockEnds.stop stream.refused rfl (fun none => absurd (accepts_of_nil none) accepted)

end

theorem lineLoop (ptr : Block) (fuel : Nat) : LineLoop ptr fuel := by
  induction fuel with
  | zero =>
    intro s total written file short
    omega
  | succ fuel ih =>
    intro s total written file short stream
    by_cases finished : total = 0
    · subst finished
      exact BlockEnds.stop stream rfl (fun _ => rfl)
    · by_cases room : file.bufferWriteBytes < file.bufferSize
      · exact ih.round_of_room short finished stream room
      · exact ih.round_of_full short finished stream room

/-! ## The fully buffered loop -/

theorem held_of_empty (empty : file.bufferWriteBytes = 0) : file.held = file.device.taken := by
  simp [Iob.held, Iob.pending, empty]

theorem writeDescriptor_of_empty (stream : WriteStream file) {bytes : List UInt8}
    (some : bytes ≠ []) (empty : file.bufferWriteBytes = 0) :
    if Medium.accepts file.device.outcomes then
      ∃ next, file.writeDescriptor bytes = (Option.some bytes.length, next) /\
        WriteStream next /\ next.held = file.held ++ bytes
    else
      ∃ next, file.writeDescriptor bytes = (none, next) /\
        WriteStream next /\ next.held = file.held := by
  rw [Iob.writeDescriptor_eq rfl, if_neg some]
  simp only [Action.write, Medium.write, held_of_empty empty]
  split_ifs <;> exact ⟨_, rfl, { stream with }, held_of_empty empty⟩

/-- A round on an empty buffer is the last one.  The write past the buffer may
fail only if nothing was counted, because then nothing is returned. -/
theorem fwriteFull_of_empty (stream : WriteStream file) (empty : file.bufferWriteBytes = 0)
    (ptr : Block) (fuel s total written : Nat) :
    BlockEnds ptr s written file
      (decide (written = 0) || decide ((total : Int) < file.bufferSize) ||
        Medium.accepts file.device.outcomes)
      (.counted (written + total))
      (Iob.fwriteFull ptr (fuel + 1) s total written file) := by
  have size := stream.sizePos
  unfold Iob.fwriteFull
  by_cases finished : total = 0
  · subst finished
    rw [if_pos rfl]
    simp only [Nat.cast_zero, size, decide_true, Bool.or_true, Bool.true_or]
    exact BlockEnds.stop stream rfl (fun _ => rfl)
  rw [if_neg finished]
  by_cases direct : file.bufferSize <= total
  · have written_ := stream.writeDescriptor_of_empty (load_ne_nil ptr s finished) empty
    rw [if_pos ⟨empty, direct⟩]
    simp only [not_lt.mpr direct, decide_false, Bool.or_false]
    by_cases accepted : Medium.accepts file.device.outcomes
    · rw [if_pos accepted] at written_
      obtain ⟨next, wrote, nextStream, held⟩ := written_
      rw [wrote, accepted, Block.length_load]
      exact ⟨total, nextStream, held, by simp [Iob.FwriteEnd.reported], fun _ => rfl⟩
    · rw [if_neg accepted] at written_
      obtain ⟨next, wrote, nextStream, held⟩ := written_
      rw [wrote, Bool.eq_false_iff.mpr accepted, Bool.or_false]
      refine ⟨0, { nextStream with }, ?_, ?_, fun none => absurd (accepts_of_nil none) accepted⟩
      · rw [Block.load_zero, append_nil]
        exact held
      · simp only [Iob.FwriteEnd.reported, Option.some.injEq, decide_eq_true_eq]
        omega
  · have count : min (file.bufferSize - file.bufferWriteBytes).toNat total = total := by omega
    have put := stream.putBytes (ptr.load s total) (by rw [Block.length_load]; omega)
    have held := file.held_putBytes (ptr.load s total) stream.pendingNonneg
    have room : (file.putBytes (ptr.load s total)).bufferWriteBytes <
        (file.putBytes (ptr.load s total)).bufferSize := by
      simp only [Iob.putBytes, Block.length_load]
      omega
    rw [if_neg (fun both => direct both.2), if_pos (by omega)]
    simp only [count, flushIfFull_of_room room, Nat.sub_self, if_true]
    refine ⟨total, put, held, ?_, fun _ => rfl⟩
    simp [Iob.FwriteEnd.reported, not_le.mp direct]

/--
A block that begins behind pending bytes, with room left, is reported as it is
stored: the flush of the filled buffer succeeds, and so does the write past
the buffer that follows if a bufferful is left.
-/
def roomSafe (size pending : Int) (total : Nat) (outcomes : List Bool) : Bool :=
  decide (pending + total < size) ||
    (Medium.accepts outcomes &&
      (decide (pending + total < 2 * size) || Medium.accepts outcomes.tail))

theorem fwriteFull_of_room (stream : WriteStream file) (some : 0 < file.bufferWriteBytes)
    (room : file.bufferWriteBytes < file.bufferSize) (ptr : Block)
    (fuel s total written : Nat) :
    BlockEnds ptr s written file
      (roomSafe file.bufferSize file.bufferWriteBytes total file.device.outcomes)
      (.counted (written + total))
      (Iob.fwriteFull ptr (fuel + 2) s total written file) := by
  rw [Iob.fwriteFull]
  by_cases finished : total = 0
  · subst finished
    rw [if_pos rfl]
    simp only [roomSafe, Nat.cast_zero, add_zero, room, decide_true, Bool.true_or]
    exact BlockEnds.stop stream rfl (fun _ => rfl)
  rw [if_neg finished, if_neg (fun both => absurd both.1 (by omega)), if_pos room]
  dsimp only
  generalize countEq : min (file.bufferSize - file.bufferWriteBytes).toNat total = count
  have put := stream.putBytes (ptr.load s count) (by rw [Block.length_load]; omega)
  have held := file.held_putBytes (ptr.load s count) stream.pendingNonneg
  have waiting : (file.putBytes (ptr.load s count)).bufferWriteBytes =
      file.bufferWriteBytes + count := by
    simp [Iob.putBytes]
  by_cases fills : file.bufferWriteBytes + total < file.bufferSize
  · have all : count = total := by omega
    subst all
    rw [flushIfFull_of_room (by rw [waiting]; exact fills)]
    simp only [Nat.sub_self, if_true]
    refine ⟨count, put, held, ?_, fun _ => rfl⟩
    simp [Iob.FwriteEnd.reported, roomSafe, fills]
  · have full : (file.putBytes (ptr.load s count)).bufferWriteBytes =
        (file.putBytes (ptr.load s count)).bufferSize := by
      rw [waiting]
      change _ = file.bufferSize
      omega
    rw [put.flushIfFull_of_full full, Iob.device_putBytes]
    simp only [roomSafe, fills, decide_false, Bool.false_or]
    by_cases accepted : Medium.accepts file.device.outcomes
    · rw [if_pos accepted, accepted]
      have rest : written + total = written + count + (total - count) := by omega
      rw [rest]
      have flushedHeld : (file.putBytes (ptr.load s count)).flushed.held =
          file.held ++ ptr.load s count := by
        rw [Iob.held_flushed, held]
      have last := put.flushed.fwriteFull_of_empty rfl ptr fuel (s + count) (total - count)
        (written + count)
      have counted : decide (written + count = 0) = false := decide_eq_false (by omega)
      have enough : (((total - count : Nat) : Int) < file.bufferSize) =
          (file.bufferWriteBytes + total < 2 * file.bufferSize) := by
        apply propext
        omega
      simp only [counted, Bool.false_or] at last
      refine BlockEnds.after flushedHeld tail_of_nil ?_
      change BlockEnds ptr _ _ _ (decide (((total - count : Nat) : Int) < file.bufferSize) || _)
        _ _ at last
      simp only [enough] at last
      dsimp only
      by_cases finished : total - count = 0
      · rw [finished, Iob.fwriteFull, if_pos rfl] at last
        rw [finished]
        exact last
      · rw [if_neg finished, if_pos put.room_flushed]
        exact last
    · rw [Bool.eq_false_iff.mpr accepted, Bool.false_and]
      exact BlockEnds.uncounted put.refused held (by omega) accepted

/-- On a full buffer, the fully buffered loop puts one byte that it does not
take off the bytes left to write. -/
theorem fwriteFull_of_full (stream : WriteStream file)
    (full : file.bufferWriteBytes = file.bufferSize) (ptr : Block)
    (fuel s total written : Nat) (some : total ≠ 0) :
    Iob.fwriteFull ptr (fuel + 1) s total written file =
      if Medium.accepts file.device.outcomes then
        Iob.fwriteFull ptr fuel (s + 1) total (written + 1) (file.flushed.putByte (ptr s))
      else (.abandoned, file.refused) := by
  have size := stream.sizePos
  rw [Iob.fwriteFull, if_neg some, if_neg (fun both => absurd both.1 (by omega)),
    if_neg (by omega), stream.putc_of_full _ _ full,
    stream.flushed.fputcCore_byte _ _ stream.room_flushed]
  by_cases accepted : Medium.accepts file.device.outcomes
  · rw [if_pos accepted, if_pos accepted]
    rfl
  · rw [if_neg accepted, if_neg accepted]

/-- A full buffer of one byte: the loop stores bytes until a write fails, and
then gives them up. -/
theorem fwriteFull_of_single {ptr : Block} {fuel : Nat} :
    ∀ (s total written : Nat) (file : Iob Medium), WriteStream file ->
      file.bufferSize = 1 -> file.bufferWriteBytes = 1 -> total ≠ 0 ->
      ∃ stored, WriteStream (Iob.fwriteFull ptr fuel s total written file).2 /\
        (Iob.fwriteFull ptr fuel s total written file).2.held = file.held ++ ptr.load s stored /\
        ((Iob.fwriteFull ptr fuel s total written file).1 = .abandoned \/
          (Iob.fwriteFull ptr fuel s total written file).1 = .running) /\
        (file.device.outcomes = [] ->
          (Iob.fwriteFull ptr fuel s total written file).1 = .running) := by
  induction fuel with
  | zero =>
    intro s total written file stream size one some
    exact ⟨0, stream, by simp [Iob.fwriteFull], Or.inr rfl, fun _ => rfl⟩
  | succ fuel ih =>
    intro s total written file stream size one some
    rw [stream.fwriteFull_of_full (by omega) ptr fuel s total written some]
    by_cases accepted : Medium.accepts file.device.outcomes
    · rw [if_pos accepted]
      have held := file.flushed.held_putByte (ptr s) (le_refl _)
      obtain ⟨stored, after, afterHeld, ends, complete⟩ := ih (s + 1) total (written + 1)
        (file.flushed.putByte (ptr s)) (stream.flushed.putByte (ptr s) stream.room_flushed)
        size rfl some
      refine ⟨stored + 1, after, ?_, ends, fun none => complete (tail_of_nil none)⟩
      rw [afterHeld, held, Iob.held_flushed, Block.load_succ, append_assoc]
      push_cast
      rfl
    · rw [if_neg accepted]
      exact ⟨0, stream.refused, by simp, Or.inl rfl,
        fun none => absurd (accepts_of_nil none) accepted⟩

/--
A fully buffered block is reported as it is stored.  On a full buffer either
nothing is stored, or the byte put first is followed by as many as there were
to write.
-/
def fullSafe (size pending : Int) (total : Nat) (outcomes : List Bool) : Bool :=
  if pending = 0 \/ total = 0 then true
  else if pending < size then roomSafe size pending total outcomes
  else !Medium.accepts outcomes || (decide (1 < size) && roomSafe size 1 total outcomes.tail)

def fullEnd (size pending : Int) (total : Nat) : Iob.FwriteEnd :=
  if pending < size \/ total = 0 then .counted total
  else if 1 < size then .counted (total + 1)
  else .running

theorem fullLoop (stream : WriteStream file) (ptr : Block) (fuel total : Nat) :
    BlockEnds ptr 0 0 file
      (fullSafe file.bufferSize file.bufferWriteBytes total file.device.outcomes)
      (fullEnd file.bufferSize file.bufferWriteBytes total)
      (Iob.fwriteFull ptr (fuel + 3) 0 total 0 file) := by
  have nonneg := stream.pendingNonneg
  have le := stream.pendingLe
  by_cases finished : total = 0
  · subst finished
    rw [fullSafe, if_pos (Or.inr rfl), fullEnd, if_pos (Or.inr rfl)]
    exact BlockEnds.stop stream rfl (fun _ => rfl)
  by_cases empty : file.bufferWriteBytes = 0
  · have size := stream.sizePos
    have ends := stream.fwriteFull_of_empty empty ptr (fuel + 2) 0 total 0
    rw [decide_eq_true rfl, Bool.true_or, Nat.zero_add] at ends
    rw [fullSafe, if_pos (Or.inl empty), fullEnd, if_pos (Or.inl (by omega))]
    exact ends
  rw [fullSafe, if_neg (by simp [finished, empty])]
  by_cases room : file.bufferWriteBytes < file.bufferSize
  · have ends := stream.fwriteFull_of_room (by omega) room ptr (fuel + 1) 0 total 0
    rw [Nat.zero_add] at ends
    rw [if_pos room, fullEnd, if_pos (Or.inl room)]
    exact ends
  have full := le_antisymm le (not_lt.mp room)
  rw [if_neg room, fullEnd, if_neg (by simp [room, finished]),
    stream.fwriteFull_of_full full ptr (fuel + 2) 0 total 0 finished]
  by_cases accepted : Medium.accepts file.device.outcomes
  · rw [if_pos accepted, accepted, Bool.not_true, Bool.false_or]
    have put := stream.flushed.putByte (ptr (0 : Nat)) stream.room_flushed
    have held : (file.flushed.putByte (ptr (0 : Nat))).held =
        file.held ++ ptr.load (0 : Nat) 1 := by
      rw [Iob.held_putByte _ _ (le_refl _), Iob.held_flushed, Block.load_succ, Block.load_zero]
    by_cases large : 1 < file.bufferSize
    · rw [decide_eq_true large, if_pos large]
      have ends := put.fwriteFull_of_room Int.zero_lt_one large ptr fuel 1 total 1
      rw [Nat.add_comm 1 total] at ends
      refine BlockEnds.after held tail_of_nil ?_
      exact ends
    · obtain ⟨stored, after, afterHeld, ends, complete⟩ := fwriteFull_of_single
        (0 + 1) total (0 + 1) _ put (by change file.bufferSize = 1; omega) rfl finished
      rw [decide_eq_false large, Bool.false_and, if_neg large]
      refine ⟨1 + stored, after, ?_, ?_, fun none => complete (tail_of_nil none)⟩
      · rw [afterHeld, held, append_assoc, Block.load_add]
        rfl
      · rcases ends with abandoned | running
        · rw [abandoned, Iob.FwriteEnd.reported]
          simp only [Option.some.injEq, Bool.false_eq_true, iff_false]
          omega
        · rw [running, Iob.FwriteEnd.reported]
          simp
  · rw [Bool.eq_false_iff.mpr accepted, Bool.not_false, Bool.true_or]
    refine ⟨0, stream.refused, ?_, ?_, fun none => absurd (accepts_of_nil none) accepted⟩
    · simp
    · simp [Iob.FwriteEnd.reported]

end WriteStream

end Clib4.Stdio
