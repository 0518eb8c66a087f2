import Clib4.Stdio.Bytewise
import Clib4.Stdio.Reading

namespace Clib4.Stdio

open Foundation List

/-!
# Files that are read in pieces

A descriptor may deliver fewer bytes than it is asked for, or fail, whenever
it is asked.  `Source` is a file with a list of what becomes of its next
reads; behind the end of the list they are answered in full.  A stream over
such a file is ahead of it by the unread bytes of its window, and hands out
the bytes of the file whatever the pattern is.

A line buffered stream flushes the others of its kind before it reads.  If that
fails nothing is read, and the caller sees neither an error nor the end of the
file: `served` is how far the bytes reach until then.
-/

/-- A file; what becomes of its next reads (`none` is a failure, and `some limit`
delivers at most `limit + 1` bytes) and of the next flushes of the other line
buffered streams; and whether its descriptor is open for reading. -/
structure Source where
  file : ByteFile
  answers : List (Option Nat)
  flushes : List Bool
  readable : Bool
  deriving DecidableEq, Repr

namespace Source

/-- The number of bytes the next read may deliver, or a failure. -/
def allowance (source : Source) (size : Nat) : Option Nat :=
  match source.answers with
  | [] => some size
  | none :: _ => none
  | some limit :: _ => some (min size (limit + 1))

/-- The same for a read that asks the descriptor whether it is open for reading. -/
def descriptorAllowance (source : Source) (size : Nat) : Option Nat :=
  if source.readable then source.allowance size else none

def Reliable (source : Source) : Prop :=
  source.readable /\ none ∉ source.answers

def read (source : Source) (size : Nat) : Except Errno (List UInt8) × Source :=
  match source.allowance size with
  | none => (.error (.io 5), { source with answers := source.answers.tail })
  | some count =>
    (.ok (source.file.read count).1,
      { source with file := (source.file.read count).2, answers := source.answers.tail })

/-- The bytes that reads deliver, each behind one of the flushes, until a flush fails;
`none` if none fails before a read delivers nothing. -/
def before (size : Nat) : List Bool -> Source -> Option Nat
  | [], _ => none
  | false :: _, _ => some 0
  | true :: flushes, source =>
    match Source.read { source with flushes := flushes } size with
    | (.ok (c :: bytes), next) => (before size flushes next).map (· + (c :: bytes).length)
    | _ => none

variable {source : Source} {size : Nat}

theorem read_of_failure (failure : source.allowance size = none) : source.read size =
      (.error (.io 5), { source with answers := source.answers.tail }) := by
  rw [read, failure]

theorem read_of_allowance {count : Nat} (allowed : source.allowance size = some count) :
    source.read size = (.ok (source.file.read count).1,
        { source with
          file := (source.file.read count).2, answers := source.answers.tail }) := by
  rw [read, allowed]

theorem allowance_le {count : Nat} (allowed : source.allowance size = some count) :
    count <= size := by
  unfold allowance at allowed
  split at allowed
  · cases allowed
    exact le_refl _
  · cases allowed
  · cases allowed
    exact Nat.min_le_left _ _

theorem allowance_pos {count : Nat} (pos : 0 < size)
    (allowed : source.allowance size = some count) : 0 < count := by
  unfold allowance at allowed
  split at allowed
  · cases allowed
    exact pos
  · cases allowed
  · cases allowed
    exact lt_min pos (Nat.succ_pos _)

theorem allowance_isSome (reliable : source.Reliable) (size : Nat) :
    ∃ count, source.allowance size = some count := by
  unfold allowance
  split
  · exact ⟨_, rfl⟩
  · rename_i answers
    exact (reliable.2 (by rw [answers]; exact mem_cons_self)).elim
  · exact ⟨_, rfl⟩

theorem allowance_of_descriptor {count : Nat}
    (allowed : source.descriptorAllowance size = some count) :
    source.readable /\ source.allowance size = some count := by
  unfold descriptorAllowance at allowed
  split at allowed
  · rename_i readable
    exact ⟨readable, allowed⟩
  · cases allowed

theorem flushes_read (source : Source) (size : Nat) :
    (source.read size).2.flushes = source.flushes := by
  unfold read
  split <;> rfl

end Source

instance sourceAction : Action Source where
  read := Source.read
  write := fun source data => (.ok data.length, { source with file := source.file.write data })
  seek := fun source offset whence =>
    (.ok (source.file.seek offset whence.origin).position,
      { source with file := source.file.seek offset whence.origin })
  flushOthers := fun source =>
    (source.flushes.headD true, { source with flushes := source.flushes.tail })
  mayRead := Source.readable
  read_length := by
    intro source size bytes next answer
    unfold Source.read at answer
    split at answer
    · cases answer
    · rename_i count allowed
      cases answer
      have bound := Source.allowance_le allowed
      simp only [ByteFile.read, length_take]
      omega

/-- The stream has nothing pending, and stands behind its device by the bytes
of the window, which are the next ones of the file. -/
structure Ahead (array : ByteFile) (file : Iob Source) : Prop where
  ready : file.Ready
  sizePos : 0 < file.bufferSize
  windowed : file.Windowed
  device : file.device.file = array.advance (file.bufferReadBytes - file.bufferPosition).toNat
  window : file.buffer.load file.bufferPosition
      (file.bufferReadBytes - file.bufferPosition).toNat =
    array.rest.take (file.bufferReadBytes - file.bufferPosition).toNat

def Iob.place (file : Iob Source) : Int :=
  file.streamPosition file.device.file.position

/-! ## Flushes that fail -/

namespace Iob

/-- The bytes that a stream hands out before a flush of the others fails; `none` if it is
not line buffered, or none fails before a read fails or delivers nothing. -/
def served (file : Iob Source) : Option Nat :=
  if file.bufferMode = .line then
    (Source.before file.bufferSize.toNat file.device.flushes file.device).map
      (· + (file.bufferReadBytes - file.bufferPosition).toNat)
  else none

def FlushFails (file : Iob Source) : Prop :=
  file.bufferMode = .line /\ file.device.flushes.head? = some false

instance (file : Iob Source) : Decidable file.FlushFails :=
  inferInstanceAs (Decidable (_ /\ _))

def behindFlush (file : Iob Source) : Source :=
  if file.bufferMode = .line then { file.device with flushes := file.device.flushes.tail }
  else file.device

theorem headD_flushes {file : Iob Source} (line : file.bufferMode = .line) :
    file.device.flushes.headD true = !decide file.FlushFails := by
  by_cases fails : file.FlushFails
  · rw [decide_eq_true fails, List.headD_eq_head?_getD, fails.2]
    rfl
  · rw [decide_eq_false fails]
    cases flushesEq : file.device.flushes with
    | nil => rfl
    | cons first flushes =>
      cases first with
      | false => exact (fails ⟨line, by rw [flushesEq]; rfl⟩).elim
      | true => rfl

theorem fetch_eq (file : Iob Source) : file.fetch =
    if file.FlushFails then (none, file.behindFlush)
    else (some (file.behindFlush.read file.bufferSize.toNat).1,
      (file.behindFlush.read file.bufferSize.toNat).2) := by
  unfold fetch behindFlush
  by_cases line : file.bufferMode = .line
  · rw [if_pos line, if_pos line]
    simp only [Action.flushOthers, headD_flushes line]
    by_cases fails : file.FlushFails
    · simp [fails]
    · simp [fails, Action.read]
  · have succeeds : ¬ file.FlushFails := fun fails => line fails.1
    rw [if_neg line, if_neg line, if_neg succeeds]
    rfl

variable {file next : Iob Source}

/-- Flushes that all succeed disturb no stream. -/
theorem served_of_flushes (succeed : false ∉ file.device.flushes) : file.served = none := by
  have undisturbed : ∀ (flushes : List Bool) (source : Source), false ∉ flushes ->
      Source.before file.bufferSize.toNat flushes source = none := by
    intro flushes
    induction flushes with
    | nil => exact fun _ _ => rfl
    | cons first flushes ih =>
      intro source succeed
      cases first with
      | false => exact (succeed mem_cons_self).elim
      | true =>
        rw [Source.before]
        split
        · rw [ih _ fun mem => succeed (mem_cons_of_mem _ mem)]
          rfl
        · rfl
  unfold served
  rw [undisturbed _ _ succeed]
  split <;> rfl

theorem served_skip (unread : file.bufferPosition < file.bufferReadBytes) :
    file.served = (file.skip 1).served.map (· + 1) := by
  unfold served
  split
  · rename_i line
    have fewer : (file.bufferReadBytes - file.bufferPosition).toNat =
        (file.bufferReadBytes - (file.bufferPosition + 1)).toNat + 1 := by omega
    rw [if_pos (show (file.skip 1).bufferMode = .line from line), Option.map_map, fewer]
    rfl
  · rename_i other
    rw [if_neg (show ¬ (file.skip 1).bufferMode = .line from other)]
    rfl

/-- With the window used up, what is served is told by the flush and the read that come
next. -/
theorem served_of_used_up (usedUp : file.bufferPosition = file.bufferReadBytes) :
    file.served =
      if file.FlushFails then some 0
      else
        match file.behindFlush.read file.bufferSize.toNat with
        | (.ok (c :: bytes), device) => ((file.filled device (c :: bytes)).skip 1).served.map (· + 1)
        | _ => none := by
  have unread : (file.bufferReadBytes - file.bufferPosition).toNat = 0 := by omega
  have kept := file.behindFlush.flushes_read file.bufferSize.toNat
  by_cases line : file.bufferMode = .line
  · have rest (device : Source) (c : UInt8) (bytes : List UInt8) :
        ((file.filled device (c :: bytes)).skip 1).served =
          (Source.before file.bufferSize.toNat device.flushes device).map (· + bytes.length) := by
      unfold served
      rw [if_pos (show ((file.filled device (c :: bytes)).skip 1).bufferMode = .line from line)]
      simp [skip, filled]
    have told : file.served =
        Source.before file.bufferSize.toNat file.device.flushes file.device := by
      unfold served
      rw [if_pos line, unread]
      exact Option.map_id'
    have behind : file.behindFlush = { file.device with flushes := file.device.flushes.tail } :=
      if_pos line
    rw [told]
    by_cases fails : file.FlushFails
    · obtain ⟨flushes, flushesEq⟩ : ∃ flushes, file.device.flushes = false :: flushes :=
        List.head?_eq_some_iff.mp fails.2
      rw [if_pos fails, flushesEq]
      rfl
    · rw [if_neg fails]
      cases flushesEq : file.device.flushes with
      | nil =>
        rw [behind, flushesEq] at kept
        split
        · rename_i answer
          rw [behind, flushesEq] at answer
          rw [answer] at kept
          rw [rest, show _ = [] from kept]
          rfl
        · rfl
      | cons first flushes =>
        cases first with
        | false => exact (fails ⟨line, by rw [flushesEq]; rfl⟩).elim
        | true =>
          rw [behind, flushesEq] at kept ⊢
          rw [Source.before]
          split
          · rename_i answer
            rw [show List.tail (true :: flushes) = flushes from rfl] at kept ⊢
            rw [answer] at kept ⊢
            dsimp only at kept ⊢
            rw [rest, kept]
            simp [Function.comp_def, Nat.add_assoc]
          · rename_i answer
            split
            · rename_i other
              exact (answer _ _ _ other).elim
            · rfl
  · have succeeds : ¬ file.FlushFails := fun fails => line fails.1
    rw [if_neg succeeds]
    unfold served
    rw [if_neg line]
    split
    · rename_i c bytes device _
      rw [if_neg (show ¬ ((file.filled device (c :: bytes)).skip 1).bufferMode = .line from line)]
      rfl
    · rfl

theorem getc_of_used_up (settled : file.writeBufferIsValid = false)
    (usedUp : file.bufferPosition = file.bufferReadBytes) : file.getc = file.receive file.fetch := by
  rw [getc_eq settled, if_neg (by simp [readBufferIsEmpty, usedUp])]

theorem getc_of_flushFails (settled : file.writeBufferIsValid = false)
    (usedUp : file.bufferPosition = file.bufferReadBytes) (fails : file.FlushFails) :
    file.getc = (none, { file with device := file.behindFlush }) := by
  rw [getc_of_used_up settled usedUp, fetch_eq, if_pos fails]
  rfl

theorem getc_of_read (settled : file.writeBufferIsValid = false)
    (usedUp : file.bufferPosition = file.bufferReadBytes) (succeeds : ¬ file.FlushFails) :
    file.getc = file.receive (some (file.behindFlush.read file.bufferSize.toNat).1,
      (file.behindFlush.read file.bufferSize.toNat).2) := by
  rw [getc_of_used_up settled usedUp, fetch_eq, if_neg succeeds]

/-- A byte that is handed out is one of those served, and the flags stay. -/
theorem served_of_some (ready : file.Ready) (windowed : file.Windowed) {c : UInt8}
    (got : file.getc = (some c, next)) : file.served = next.served.map (· + 1) /\
      next.error = file.error /\ next.eofReached = file.eofReached := by
  rcases Int.lt_or_eq_of_le windowed.positionLe with unread | usedUp
  · rw [getc_unread unread] at got
    cases got
    exact ⟨served_skip unread, rfl, rfl⟩
  · by_cases fails : file.FlushFails
    · rw [getc_of_flushFails ready.settled usedUp fails] at got
      cases got
    · rw [getc_of_read ready.settled usedUp fails] at got
      rw [served_of_used_up usedUp, if_neg fails]
      generalize file.behindFlush.read file.bufferSize.toNat = answer at got ⊢
      rcases answer with ⟨code | _ | ⟨d, bytes⟩, device⟩
      all_goals cases got
      exact ⟨rfl, rfl, rfl⟩

/-- No byte comes where the flush fails, which leaves no mark, or where the read fails or
delivers nothing, which does. -/
theorem served_of_none (ready : file.Ready) (windowed : file.Windowed)
    (got : file.getc = (none, next)) :
    (file.served = some 0 /\ next.error = file.error /\ next.eofReached = file.eofReached) \/
      (file.served = none /\ (next.eofReached \/ next.error)) := by
  rcases Int.lt_or_eq_of_le windowed.positionLe with unread | usedUp
  · rw [getc_unread unread] at got
    cases got
  · rw [served_of_used_up usedUp]
    by_cases fails : file.FlushFails
    · rw [getc_of_flushFails ready.settled usedUp fails] at got
      cases got
      exact Or.inl ⟨if_pos fails, rfl, rfl⟩
    · rw [getc_of_read ready.settled usedUp fails] at got
      rw [if_neg fails]
      right
      generalize file.behindFlush.read file.bufferSize.toNat = answer at got ⊢
      rcases answer with ⟨code | _ | ⟨d, bytes⟩, device⟩
      all_goals cases got
      · exact ⟨rfl, Or.inr rfl⟩
      · exact ⟨rfl, Or.inl rfl⟩

end Iob

namespace Ahead

variable {array : ByteFile} {file : Iob Source}

section

variable (ahead : Ahead array file)
include ahead

theorem flags (error eofReached : Bool) (errno : Option Errno) :
    Ahead array { file with error := error, eofReached := eofReached, errno := errno } :=
  ⟨⟨ahead.ready.inUse, ahead.ready.canRead, ahead.ready.settled⟩, ahead.sizePos,
    ⟨ahead.windowed.readNonneg, ahead.windowed.positionLe, ahead.windowed.position_of_empty⟩,
    ahead.device, ahead.window⟩

theorem clearerr : Ahead array file.clearerr :=
  ahead.flags false false file.errno

theorem place_eq : file.place = array.position := by
  have nonneg := ahead.windowed.readNonneg
  unfold Iob.place Iob.streamPosition
  rw [ahead.ready.settled, ahead.device, ByteFile.advance_position]
  unfold Iob.numUnreadBytes Iob.readBufferIsValid
  simp only [decide_eq_true_eq, Bool.false_eq_true, if_false]
  by_cases window : 0 < file.bufferReadBytes
  · split <;> omega
  · have start := ahead.windowed.position_of_empty (by omega)
    omega

theorem device_of_used_up (usedUp : file.bufferPosition = file.bufferReadBytes) :
    file.device.file = array := by
  rw [ahead.device, usedUp]
  simp

theorem skip {count : Nat} (inside : (count : Int) <= file.bufferReadBytes - file.bufferPosition) :
    Ahead (array.advance count) (file.skip count) where
  ready := ahead.ready.skip count
  sizePos := ahead.sizePos
  windowed := ahead.windowed.skip inside
  device := by
    change file.device.file = _
    rw [ahead.device, ByteFile.advance_advance]
    congr 1
    simp only [Iob.skip]
    omega
  window := by
    have later := congrArg (List.drop count) ahead.window
    rw [Block.drop_load _ _ (by omega), drop_take, <- ByteFile.rest_advance] at later
    have left : (file.bufferReadBytes - (file.bufferPosition + count)).toNat =
        (file.bufferReadBytes - file.bufferPosition).toNat - count := by omega
    change file.buffer.load (file.bufferPosition + count)
      (file.bufferReadBytes - (file.bufferPosition + count)).toNat = _
    rw [left, later]
    simp only [Iob.skip, left]

theorem filled (count : Nat) {device : Source} (moved : device.file = (array.read count).2) :
    Ahead array (file.filled device (array.rest.take count)) := by
  have unread : (((array.rest.take count).length : Int) - 0).toNat =
      (array.rest.take count).length := by omega
  refine ⟨⟨ahead.ready.inUse, ahead.ready.canRead, ahead.ready.settled⟩, ahead.sizePos,
    Iob.windowed_filled _ _ _, ?_, ?_⟩
  · simp only [Iob.filled, unread]
    exact moved
  · simp only [Iob.filled, unread]
    rw [Block.load_store_same]
    simp

/-! ## One byte -/

theorem getc_from_window (unread : file.bufferPosition < file.bufferReadBytes) :
    file.getc = ((Plain.fgetc array).1, file.skip 1) /\ Ahead (Plain.fgetc array).2 (file.skip 1) := by
  have first := congrArg List.head? ahead.window
  obtain ⟨more, moreEq⟩ : ∃ more,
      (file.bufferReadBytes - file.bufferPosition).toNat = more + 1 :=
    ⟨(file.bufferReadBytes - file.bufferPosition).toNat - 1, by omega⟩
  have moved := ahead.skip (show ((1 : Nat) : Int) <= _ by omega)
  rw [moreEq, Block.load_succ] at first
  rw [Iob.getc_unread unread]
  cases restEq : array.rest with
  | nil =>
    rw [restEq] at first
    cases first
  | cons c rest =>
    rw [restEq] at first
    rw [Plain.fgetc_of_cons restEq, Option.some.inj first]
    exact ⟨rfl, moved⟩

theorem getc_from_read (usedUp : file.bufferPosition = file.bufferReadBytes)
    (succeeds : ¬ file.FlushFails) {count : Nat}
    (allowed : file.behindFlush.allowance file.bufferSize.toNat = some count) :
    ∃ next, file.getc = ((Plain.fgetc array).1, next) /\ Ahead (Plain.fgetc array).2 next /\
      next.error = file.error /\ next.device.answers = file.behindFlush.answers.tail /\
      next.device.readable = file.behindFlush.readable := by
  have sizePos := ahead.sizePos
  have pos := Source.allowance_pos (by omega) allowed
  have same : file.behindFlush.file = array := by
    rw [<- ahead.device_of_used_up usedUp]
    unfold Iob.behindFlush
    split <;> rfl
  have window := ahead.filled count (show Source.file { file.behindFlush with
    file := (array.read count).2, answers := file.behindFlush.answers.tail } = _ from rfl)
  rw [Iob.getc_of_read ahead.ready.settled usedUp succeeds, Source.read_of_allowance allowed, same]
  obtain ⟨more, rfl⟩ := Nat.exists_eq_succ_of_ne_zero (Nat.ne_of_gt pos)
  simp only [ByteFile.read] at window ⊢
  cases restEq : array.rest with
  | nil =>
    rw [Plain.fgetc_of_nil restEq]
    rw [restEq] at window
    exact ⟨_, rfl, window.flags file.error true file.errno, rfl, rfl, rfl⟩
  | cons c rest =>
    rw [Plain.fgetc_of_cons restEq]
    rw [restEq, take_succ_cons] at window
    have moved := window.skip (show ((1 : Nat) : Int) <= _ by
      simp only [Iob.filled, length_cons]
      omega)
    exact ⟨_, rfl, moved, rfl, rfl, rfl⟩

/-- A byte of the stream is one of the file, or a read failed, or a flush did. -/
theorem getc : (∃ next, file.getc = ((Plain.fgetc array).1, next) /\
      Ahead (Plain.fgetc array).2 next /\ next.error = file.error /\
      (file.device.Reliable -> next.device.Reliable)) \/
    (∃ next, file.getc = (none, next) /\ Ahead array next /\
      (file.served = none /\ next.error /\ ¬ file.device.Reliable \/
        file.served = some 0 /\ next.error = file.error)) := by
  rcases Int.lt_or_eq_of_le ahead.windowed.positionLe with unread | usedUp
  · obtain ⟨got, after⟩ := ahead.getc_from_window unread
    exact Or.inl ⟨_, got, after, rfl, id⟩
  have answers : file.behindFlush.answers = file.device.answers /\
      file.behindFlush.readable = file.device.readable /\ file.behindFlush.file = file.device.file := by
    unfold Iob.behindFlush
    split <;> exact ⟨rfl, rfl, rfl⟩
  -- a failure leaves the stream where it was
  have stays (error : Bool) (errno : Option Errno) {device : Source}
      (same : device.file = file.device.file) :
      Ahead array { file with device := device, error := error, errno := errno } :=
    ⟨⟨ahead.ready.inUse, ahead.ready.canRead, ahead.ready.settled⟩, ahead.sizePos,
      ⟨ahead.windowed.readNonneg, ahead.windowed.positionLe, ahead.windowed.position_of_empty⟩,
      same.trans ahead.device, ahead.window⟩
  by_cases fails : file.FlushFails
  · right
    have zero : file.served = some 0 := (Iob.served_of_used_up usedUp).trans (if_pos fails)
    exact ⟨_, Iob.getc_of_flushFails ahead.ready.settled usedUp fails,
      stays file.error file.errno answers.2.2, Or.inr ⟨zero, rfl⟩⟩
  cases allowed : file.behindFlush.allowance file.bufferSize.toNat with
  | none =>
    right
    have got := Iob.getc_of_read ahead.ready.settled usedUp fails
    have none := Iob.served_of_used_up usedUp
    rw [Source.read_of_failure allowed] at got none
    refine ⟨_, got, stays true _ answers.2.2, Or.inl ⟨none.trans (if_neg fails), rfl, ?_⟩⟩
    rintro ⟨readable, all⟩
    rw [<- answers.1] at all
    obtain ⟨count, some⟩ := Source.allowance_isSome ⟨answers.2.1.trans readable, all⟩
      file.bufferSize.toNat
    rw [allowed] at some
    cases some
  | some count =>
    obtain ⟨next, got, after, error, later, readable⟩ := ahead.getc_from_read usedUp fails allowed
    refine Or.inl ⟨next, got, after, error, fun reliable => ⟨?_, fun mem => reliable.2 ?_⟩⟩
    · rw [readable, answers.2.1]
      exact reliable.1
    · rw [later, answers.1] at mem
      exact mem_of_mem_tail mem

end

/-- What follows the file: a stream whose reads do not fail, for as many bytes as come
before a flush fails. -/
theorem follows : Follows Ahead fun n file =>
    file.device.Reliable /\ ∀ k, file.served = some k -> n <= k := by
  intro array file n ahead reliable
  rcases ahead.getc with ⟨next, got, after, error, still⟩ | ⟨next, got, -, failed | flush⟩
  · refine ⟨next, got, after, error, fun byte => ⟨still reliable.1, fun k some => ?_⟩⟩
    obtain ⟨c, first⟩ := Option.ne_none_iff_exists'.mp byte
    rw [first] at got
    have served := (Iob.served_of_some ahead.ready ahead.windowed got).1
    rw [some] at served
    exact Nat.le_of_succ_le_succ (reliable.2 (k + 1) served)
  · exact (failed.2.2 reliable.1).elim
  · exact (Nat.not_succ_le_zero n (reliable.2 0 flush.1)).elim

/-- A line is read to its end, or a read fails, or a flush fails within it. -/
theorem fgetsBytes (ahead : Ahead array file) (n : Nat) (s : List UInt8)
    (noError : file.error = false) :
    let line := Plain.line array.rest n
    (∃ next, file.fgetsBytes n s =
        (⟨decide (0 < n) && (s ++ line).isEmpty, s ++ line ++ [0]⟩, next) /\
      Ahead (array.advance line.length) next /\ next.error = false /\
      ∀ k, file.served = some k -> line.length <= k) \/
    (∃ stored next, file.fgetsBytes n s = (⟨true, stored⟩, next) /\ next.error /\
      file.served = none) \/
    (∃ k next, file.served = some k /\ k < line.length /\
      (file.fgetsBytes n s).1.stored = s ++ line.take k ++ [0] /\
      (file.fgetsBytes n s).2 = next /\ next.error = false) := by
  induction n generalizing array file s with
  | zero =>
    exact Or.inl ⟨file, by simp [Iob.fgetsBytes], by simpa using ahead, noError, fun k _ => by simp⟩
  | succ n ih =>
    rw [Iob.fgetsBytes]
    rcases ahead.getc with ⟨next, got, after, error, -⟩ | ⟨next, got, stays, failed | flush⟩
    · have clean := error.trans noError
      cases restEq : array.rest with
      | nil =>
        rw [Plain.fgetc_of_nil restEq] at got after
        rw [got]
        exact Or.inl ⟨next, by simp [clean], by simpa using after, clean, fun k _ => by simp⟩
      | cons c rest =>
        rw [Plain.fgetc_of_cons restEq] at got after
        obtain ⟨served, -, -⟩ := Iob.served_of_some ahead.ready ahead.windowed got
        have behind := ByteFile.rest_advance_one restEq
        rw [got]
        dsimp only
        rw [Plain.line_cons]
        by_cases ends : c = lineFeed
        · rw [if_pos ends, if_pos ends]
          refine Or.inl ⟨next, by simp, after, clean, fun k some => ?_⟩
          rw [some] at served
          obtain ⟨_, -, rfl⟩ := Option.map_eq_some_iff.mp served.symm
          simp
        · rw [if_neg ends, if_neg ends]
          have later := ih after (s ++ [c]) clean
          rw [behind] at later
          rcases later with ⟨final, read, final', clean', reach⟩ | ⟨stored, final, read, failed, none⟩ |
            ⟨k, final, some, less, stored, read, clean'⟩
          · refine Or.inl ⟨final, by rw [read]; simp, ?_, clean', fun k some => ?_⟩
            · rw [length_cons, Nat.add_comm, <- ByteFile.advance_advance]
              exact final'
            · rw [some] at served
              obtain ⟨fewer, some', rfl⟩ := Option.map_eq_some_iff.mp served.symm
              have enough := reach fewer some'
              rw [length_cons]
              omega
          · rw [none] at served
            exact Or.inr (Or.inl ⟨stored, final, read, failed, served⟩)
          · rw [some] at served
            refine Or.inr (Or.inr ⟨k + 1, final, served, Nat.succ_lt_succ less, ?_, read, clean'⟩)
            rw [stored]
            simp
    · rw [got]
      exact Or.inr (Or.inl ⟨s ++ [0], next, by simp [failed.2.1], failed.2.1, failed.1⟩)
    · have clean := flush.2.trans noError
      rw [got]
      cases restEq : array.rest with
      | nil =>
        exact Or.inl ⟨next, by simp [clean], by simpa using stays, clean, fun k _ => by simp⟩
      | cons c rest =>
        refine Or.inr (Or.inr ⟨0, next, flush.1, ?_, by simp, rfl, clean⟩)
        rw [Plain.line_cons]
        split <;> simp

end Ahead

/-- A stream as it was opened, on a file that is read in pieces. -/
def openSource (mode : BufferMode) (bufferSize : Nat) (buffer : Block) (source : Source) :
    Iob Source :=
  { openStream mode bufferSize buffer source.file with device := source }

theorem ahead_openSource (mode : BufferMode) {bufferSize : Nat} (pos : 0 < bufferSize)
    (buffer : Block) (source : Source) :
    Ahead source.file (openSource mode bufferSize buffer source) :=
  ⟨⟨rfl, rfl, rfl⟩, Int.natCast_pos.mpr pos, ⟨le_refl _, le_refl _, fun _ => rfl⟩, rfl, rfl⟩

theorem Plain.line_eq_nil_iff {bytes : List UInt8} {limit : Nat} (pos : 0 < limit) :
    Plain.line bytes limit = [] <-> bytes = [] := by
  obtain ⟨limit, rfl⟩ := Nat.exists_eq_succ_of_ne_zero (Nat.ne_of_gt pos)
  cases bytes with
  | nil => simp
  | cons c rest => simp [Plain.line_cons]

/--
Wherever a readable stream stands in its file, and whatever the sizes of its
buffer and of the pieces it is read in: `fgets` stores the next bytes up to a
line feed, at most `n - 1`, and a `NUL`, and stands behind them, and it returns
`NULL` just where there is no byte left or a read failed; this holds exactly if
no flush of the other line buffered streams fails before the line is served.
-/
theorem fgets_reads_line_iff {array : ByteFile} {file : Iob Source} (ahead : Ahead array file)
    {n : Int} (large : 2 <= n) :
    let line := Plain.line array.rest (n - 1).toNat
    let result := file.fgets n
    ((result.1.isNull <-> array.rest = [] \/ result.2.error) /\
      (result.2.error = false ->
        result.1.stored = line ++ [0] /\ Ahead (array.advance line.length) result.2)) <->
    ∀ k, file.served = some k -> line.length <= k := by
  have pos : 0 < (n - 1).toNat := by omega
  rw [ahead.ready.fgets_eq (show 0 < n by omega)]
  rcases ahead.clearerr.fgetsBytes (n - 1).toNat [] rfl with
    ⟨next, read, after, noError, reach⟩ | ⟨stored, next, read, failed, none⟩ |
    ⟨k, next, some, less, stored, read, noError⟩
  · rw [read]
    refine iff_of_true ⟨?_, fun _ => ⟨by simp, after⟩⟩ reach
    simp only [pos, decide_true, Bool.true_and, nil_append, List.isEmpty_iff, noError,
      Bool.false_eq_true, or_false]
    exact Plain.line_eq_nil_iff pos
  · rw [read]
    refine iff_of_true ⟨by simp [failed], fun noError => ?_⟩ fun k some => ?_
    · rw [failed] at noError
      cases noError
    · cases none.symm.trans some
  · refine iff_of_false (fun right => ?_) fun reach => ?_
    · have whole := (right.2 (by rw [read]; exact noError)).1
      have lengths := congrArg List.length (stored.symm.trans whole)
      simp only [nil_append, length_append, length_take] at lengths
      omega
    · exact Nat.not_le_of_lt less (reach k some)

/-- Two bytes at a time and then one, each behind a flush that succeeds; the next flush
fails. -/
theorem fgets_reads_line_in_pieces :
    let file := openSource .line 3 (fun _ => 0)
      ⟨⟨[65, 66, 10, 67], 0, false⟩, [some 1, some 0, none], [true, true, false], true⟩
    (file.fgets 9).1 = ⟨false, [65, 66, 10, 0]⟩ /\ (((file.fgets 9).1.isNull <->
        [65, 66, 10, 67] = ([] : List UInt8) \/ (file.fgets 9).2.error)) := by
  intro file
  have served : file.served = some 3 := by decide
  refine ⟨by decide, ((fgets_reads_line_iff (ahead_openSource .line (show 0 < 3 by decide)
    (fun _ => 0) ⟨⟨[65, 66, 10, 67], 0, false⟩, [some 1, some 0, none], [true, true, false], true⟩)
    (show (2 : Int) <= 9 by decide)).mpr ?_).1⟩
  intro k some
  cases served.symm.trans some
  decide

/-- The second of two flushes fails, and half of the line is returned as if it were
complete. -/
theorem fgets_truncates :
    let file := openSource .line 2 (fun _ => 0)
      ⟨⟨[65, 66, 67, 10], 0, false⟩, [], [true, false], true⟩
    (file.fgets 9).1 = ⟨false, [65, 66, 0]⟩ /\ (file.fgets 9).2.error = false /\
      (file.fgets 9).2.eofReached = false /\ Plain.line [65, 66, 67, 10] 8 = [65, 66, 67, 10] := by
  decide

end Clib4.Stdio
