import Clib4.Stdio.ShortReads
import Clib4.Stdio.PushBack

namespace Clib4.Stdio

open Foundation Printf List

/-!
# Seeking over characters that were pushed back

A seek that ends within the read window only moves the read position, and one
that ends where the stream stands does nothing.  The window may hold characters
of `ungetc` in place of bytes of the file, and they are read after the seek.
Every other seek drops the window.
-/

/-! ## Streams on a file that is read in full -/

/-- Every read is answered in full, and every flush of other streams succeeds. -/
structure Source.Steady (source : Source) : Prop where
  answers : source.answers = []
  flushes : source.flushes = []
  readable : source.readable

/-- The window of the stream was read from the file, whatever was pushed back
into it since. -/
structure Over (content : List UInt8) (file : Iob Source) : Prop where
  ready : file.Ready
  sizePos : 0 < file.bufferSize
  windowed : file.Windowed
  positionNonneg : 0 <= file.bufferPosition
  steady : file.device.Steady
  content_eq : file.device.file.content = content
  order : file.descriptorLittleEndian = false
  fromFile : file.bufferReadBytes <= file.device.file.position
  inFile : 0 < file.bufferReadBytes -> file.device.file.position <= content.length

theorem Iob.Ready.settlement_eq {file : Iob Source} (ready : file.Ready) :
    file.settlement = (none, file.device, file.bufferWriteBytes) := by
  unfold Iob.settlement
  rw [if_neg (by rw [ready.settled]; simp)]

theorem Iob.Ready.flushed {file : Iob Source} (ready : file.Ready) :
    (if file.writeBufferIsValid then file.flushIobWriteBuffer else (true, file)) = (true, file) := by
  rw [ready.settled]
  rfl

namespace Source.Steady

theorem eq {source : Source} (steady : source.Steady) : source = ⟨source.file, [], [], true⟩ := by
  obtain ⟨answers, flushes, readable⟩ := steady
  rcases source with ⟨file, _, _, _⟩
  cases answers
  cases flushes
  cases readable
  rfl

/-- A stream over such a source can be read to any length. -/
theorem reliable {file : Iob Source} (steady : file.device.Steady) (n : Nat) :
    file.device.Reliable /\ ∀ k, file.served = some k -> n <= k := by
  refine ⟨⟨steady.readable, by rw [steady.answers]; exact not_mem_nil⟩, fun k some => ?_⟩
  have none := Iob.served_of_flushes (by rw [steady.flushes]; exact not_mem_nil)
  cases none.symm.trans some

theorem allowance {source : Source} (steady : source.Steady) (n : Nat) :
    source.allowance n = some n := by
  rw [Source.allowance, steady.answers]

theorem fetch_eq {file : Iob Source} (steady : file.device.Steady) :
    file.fetch = (some (file.device.read file.bufferSize.toNat).1,
      (file.device.read file.bufferSize.toNat).2) := by
  have succeeds : ¬ file.FlushFails := fun fails => by
    rw [Iob.FlushFails, steady.flushes] at fails
    cases fails.2
  have behind : file.behindFlush = file.device := by
    unfold Iob.behindFlush
    rw [steady.eq]
    split <;> rfl
  rw [Iob.fetch_eq, if_neg succeeds, behind]

end Source.Steady

def Operation.IsByte {φ : Type} : Operation φ -> Prop
  | .fgetc => True
  | .ungetc _ => True
  | _ => False

def Iob.standing (file : Iob Source) : ByteFile :=
  { file.device.file with position := file.place.toNat }

namespace Over

variable {content : List UInt8} {file : Iob Source}

section

variable (atop : Over content file)
include atop

theorem read_eq (size : Nat) : file.device.read size =
      (.ok (file.device.file.read size).1, ⟨(file.device.file.read size).2, [], [], true⟩) := by
  rw [Source.read_of_allowance (atop.steady.allowance size), atop.steady.answers,
    atop.steady.flushes, atop.steady.readable]
  rfl

theorem flags (error eofReached : Bool) (errno : Option Errno) :
    Over content { file with error := error, eofReached := eofReached, errno := errno } :=
  ⟨⟨atop.ready.inUse, atop.ready.canRead, atop.ready.settled⟩, atop.sizePos,
    atop.windowed.of_window rfl, atop.positionNonneg, atop.steady, atop.content_eq, atop.order,
    atop.fromFile, atop.inFile⟩

theorem filled (size : Nat) : Over content (file.filled ⟨(file.device.file.read size).2, [], [], true⟩
      (file.device.file.read size).1) := by
  refine ⟨⟨atop.ready.inUse, atop.ready.canRead, atop.ready.settled⟩, atop.sizePos,
    Iob.windowed_filled _ _ _, le_refl _, ⟨rfl, rfl, rfl⟩, atop.content_eq, atop.order, ?_, ?_⟩
  · simp only [Iob.filled, ByteFile.read, ByteFile.advance_position]
    omega
  · intro some
    have length := atop.content_eq
    simp only [Iob.filled, ByteFile.read, ByteFile.advance_position, length_take,
      ByteFile.length_rest, length] at some ⊢
    omega

theorem getc : Over content file.getc.2 := by
  have windowed := atop.windowed.getc atop.ready.settled
  have ready := atop.ready.getc
  have nonneg := atop.positionNonneg
  rw [Iob.getc_eq atop.ready.settled] at windowed ready ⊢
  split at windowed
  · rename_i here
    rw [if_pos here] at ready ⊢
    refine ⟨ready, atop.sizePos, windowed, ?_, atop.steady, atop.content_eq, atop.order,
      atop.fromFile, atop.inFile⟩
    change 0 <= file.bufferPosition + ((1 : Nat) : Int)
    omega
  · rename_i here
    rw [if_neg here] at ready ⊢
    have fetched := atop.steady.fetch_eq
    rw [atop.read_eq] at fetched
    have full := atop.filled file.bufferSize.toNat
    rw [fetched] at windowed ready ⊢
    generalize (file.device.file.read file.bufferSize.toNat).1 = bytes at *
    cases bytes with
    | nil => exact full.flags file.error true file.errno
    | cons c rest =>
      refine ⟨ready, atop.sizePos, windowed, ?_, full.steady, full.content_eq, full.order,
        full.fromFile, full.inFile⟩
      exact Int.le_of_lt Int.one_pos

theorem fgetc : Over content file.fgetc.2 := by
  rw [Iob.fgetc, atop.ready.fgetcCheck]
  exact atop.getc

theorem ungetc (c : Int) : Over content (file.ungetc c).2 := by
  have windowed := Iob.Windowed.input.ungetc atop.windowed c
  have nonneg := atop.positionNonneg
  unfold Iob.ungetc at windowed ⊢
  rw [atop.ready.flushed] at windowed ⊢
  rw [if_neg (by simp [atop.ready.inUse]), if_neg (by simp [atop.ready.canRead])] at windowed ⊢
  by_cases eof : c = -1
  · rw [if_pos eof]
    exact atop.flags true file.eofReached _
  · rw [if_neg eof] at windowed ⊢
    dsimp only at windowed ⊢
    by_cases start : file.bufferPosition = 0
    · rw [if_pos start]
      exact atop.flags true file.eofReached _
    · rw [if_neg start] at windowed ⊢
      refine ⟨⟨atop.ready.inUse, atop.ready.canRead, atop.ready.settled⟩, atop.sizePos, windowed,
        ?_, atop.steady, atop.content_eq, atop.order, atop.fromFile, atop.inFile⟩
      change 0 <= file.bufferPosition - 1
      omega

end

theorem performAll {φ : Type} (atop : Over content file) (lib : Library φ)
    (operations : List (Operation φ)) (bytes : ∀ operation ∈ operations, operation.IsByte) :
    Over content (file.performAll lib operations) := by
  induction operations generalizing file with
  | nil => exact atop
  | cons operation rest ih =>
    have rest' : ∀ operation ∈ rest, operation.IsByte :=
      fun other mem => bytes other (mem_cons_of_mem _ mem)
    have first := bytes operation mem_cons_self
    cases operation with
    | fgetc => exact ih atop.fgetc rest'
    | ungetc c => exact ih (atop.ungetc c) rest'
    | fgets | fread | fputc | fputs | fwrite | fprintf | fseek | fflush | setvbuf =>
      exact first.elim

/-! ## Places -/

theorem place_eq (atop : Over content file) :
    file.place = file.device.file.position - (file.bufferReadBytes - file.bufferPosition) := by
  have ordered := atop.windowed.positionLe
  have nonneg := atop.windowed.readNonneg
  unfold Iob.place
  rcases Int.lt_or_eq_of_le nonneg with window | none
  · exact Iob.streamPosition_of_window window ordered _
  · have start := atop.windowed.position_of_empty none.symm
    have invalid : ¬ file.readBufferIsValid := by
      simp only [Iob.readBufferIsValid, decide_eq_true_eq]
      omega
    unfold Iob.streamPosition
    rw [if_neg invalid, if_neg (by rw [atop.ready.settled]; simp)]
    omega

theorem place_nonneg (atop : Over content file) : 0 <= file.place := by
  have from' := atop.fromFile
  have nonneg := atop.positionNonneg
  rw [atop.place_eq]
  omega

end Over

/-! ## What a stream delivers -/

def Iob.upcoming (file : Iob Source) : List UInt8 :=
  file.buffer.load file.bufferPosition (file.bufferReadBytes - file.bufferPosition).toNat ++
    file.device.file.rest

variable {file : Iob Source}

theorem ahead_of_used_up (ready : file.Ready) (sizePos : 0 < file.bufferSize)
    (windowed : file.Windowed) (usedUp : file.bufferPosition = file.bufferReadBytes) :
    Ahead file.device.file file := by
  refine ⟨ready, sizePos, windowed, ?_, ?_⟩
  all_goals
    rw [usedUp, Int.sub_self]
    rfl

theorem getcs_upcoming (ready : file.Ready) (sizePos : 0 < file.bufferSize)
    (windowed : file.Windowed) (steady : file.device.Steady) (n : Nat) :
    (file.getcs n).1 = file.upcoming.take n := by
  have ordered := windowed.positionLe
  generalize countEq : (file.bufferReadBytes - file.bufferPosition).toNat = count
  unfold Iob.upcoming
  rw [countEq]
  by_cases inside : n <= count
  · have window := Iob.getcs_window n 0 file (by omega)
    rw [Nat.add_zero] at window
    rw [window, take_append_of_le_length (by rw [Block.length_load]; exact inside),
      Block.take_load _ _ inside]
    simp [Iob.getcs]
  · obtain ⟨more, rfl⟩ := Nat.exists_eq_add_of_le (Nat.le_of_not_le inside)
    have window := Iob.getcs_window count more file (by omega)
    have after : Ahead file.device.file (file.skip count) :=
      ahead_of_used_up (ready.skip count) sizePos (windowed.skip (by omega))
        (by simp only [Iob.skip]; omega)
    obtain ⟨next, rest, -⟩ := Ahead.follows.getcs after
      (Source.Steady.reliable (show (file.skip count).device.Steady from steady) more)
    have whole : (file.buffer.load file.bufferPosition count).take (count + more) =
        file.buffer.load file.bufferPosition count :=
      take_of_length_le (by rw [Block.length_load]; omega)
    rw [window, rest, take_append, Block.length_load, Nat.add_sub_cancel_left, whole]

/-- Later reads return these bytes. -/
structure Returns (bytes : List UInt8) (file : Iob Source) : Prop where
  fgetcs : ∀ n, (file.fgetcs n).1 = bytes.take n
  fgets : ∀ n, 2 <= n -> (file.fgets n).1.stored = Plain.line bytes (n - 1).toNat ++ [0]
  fread : ∀ elementSize count, 0 < elementSize -> 0 < count -> elementSize * count < 2 ^ 32 ->
    (file.freadInternal elementSize count).1.2 = bytes.take (elementSize * count)

section

variable {file : Iob Source} (steady : file.device.Steady)
  (order : file.descriptorLittleEndian = false)

include steady order

theorem descriptorBytes_eq (ready : file.Ready) (n : Nat) :
    file.descriptorBytes n = file.device.file.rest.take n := by
  have answer : Action.read file.device n = _ := Source.read_of_allowance (steady.allowance n)
  unfold Iob.descriptorBytes
  rw [ready.settlement_eq, Iob.readDescriptor_eq
    (show Action.mayRead (file.settledOn file.device 0).device from steady.readable)]
  rcases Nat.eq_zero_or_pos n with rfl | pos
  · simp
  · have same : (file.settledOn file.device 0).device = file.device := rfl
    rw [if_neg (Nat.ne_of_gt pos), same, answer]
    simp [Iob.settledOn, order, ByteFile.read]

theorem Ahead.freadInternal {array : ByteFile} (ahead : Ahead array file)
    (either : file.bufferMode ≠ .none \/ file.bufferPosition = file.bufferReadBytes)
    {elementSize count : Nat} (posSize : 0 < elementSize) (posCount : 0 < count)
    (fits : elementSize * count < 2 ^ 32) :
    (file.freadInternal elementSize count).1.2 = array.rest.take (elementSize * count) := by
  have inUse := ahead.ready.inUse
  have canRead := ahead.ready.canRead
  have settled := ahead.ready.settlement_eq
  have described := descriptorBytes_eq steady order ahead.ready (elementSize * count)
  by_cases unbuffered : file.bufferMode = .none
  · have usedUp := either.resolve_left (fun buffered => buffered unbuffered)
    rw [Iob.freadInternal_direct inUse canRead (by rw [settled]) posSize posCount fits
      (Or.inl unbuffered), described, ahead.device_of_used_up usedUp]
  · by_cases bypass : file.Bypasses (elementSize * count)
    · have usedUp : file.bufferPosition = file.bufferReadBytes := by
        rw [ahead.windowed.position_of_empty bypass.1, bypass.1]
      rw [Iob.freadInternal_direct inUse canRead (by rw [settled]) posSize posCount fits
        (Or.inr bypass), described, ahead.device_of_used_up usedUp]
    · obtain ⟨next, read, -⟩ := Ahead.follows.getcs ahead.clearerr
        (Source.Steady.reliable (show file.clearerr.device.Steady from steady) (elementSize * count))
      rw [Iob.freadInternal_getcs inUse canRead unbuffered posSize posCount fits settled
        bypass]
      exact congrArg Prod.fst read

end

/-! ## The two seeks -/

/-- `fseek` or `fseeko64`. -/
inductive Seeker
  | fseek
  | fseeko64
  deriving DecidableEq, Repr

namespace Seeker

variable {content : List UInt8} {file : Iob Source}

def call (seeker : Seeker) (offset : Int) (wherefrom : Whence) (file : Iob Source) :
    Bool × Iob Source :=
  match seeker with
  | .fseek => file.fseek offset wherefrom.toInt
  | .fseeko64 => file.fseeko64 offset wherefrom.toInt

def relative (seeker : Seeker) (offset : Int) (wherefrom : Whence) (file : Iob Source) :
    Int × Whence × Iob Source :=
  match seeker with
  | .fseek => file.relativeSeek offset wherefrom
  | .fseeko64 => file.relativeSeek64 offset wherefrom

def buffered (seeker : Seeker) (offset : Int) (wherefrom : Whence) (file : Iob Source) :
    Bool × Iob Source :=
  match seeker with
  | .fseek => file.seekBuffered offset wherefrom
  | .fseeko64 => file.seekBuffered64 offset wherefrom

def Stays (seeker : Seeker) (offset : Int) (wherefrom : Whence) (file : Iob Source) : Prop :=
  match seeker with
  | .fseek => file.staysInBuffer offset wherefrom
  | .fseeko64 => file.staysInBuffer64 offset wherefrom

def narrow : Seeker -> Int -> Int
  | .fseek => toLong
  | .fseeko64 => toOff64

def InRange : Seeker -> Int -> Prop
  | .fseek, offset => longMin <= offset /\ offset <= longMax
  | .fseeko64, offset => -2 ^ 63 <= offset /\ offset < 2 ^ 63

/-- The seek leaves the window as it is, and moves within it at most. -/
def KeepsWindow (seeker : Seeker) (offset : Int) (wherefrom : Whence) (file : Iob Source) : Prop :=
  (seeker.relative offset wherefrom file).2.1 = .cur /\
    ((seeker.relative offset wherefrom file).1 = 0 \/
      seeker.Stays (seeker.relative offset wherefrom file).1 .cur file)

def target (offset : Int) (wherefrom : Whence) (file : Iob Source) : Int :=
  file.standing.target offset wherefrom.origin

def landing (seeker : Seeker) (offset : Int) (wherefrom : Whence) (file : Iob Source) : Int :=
  target (seeker.relative offset wherefrom file).1 (seeker.relative offset wherefrom file).2.1 file

/-! ## Heads -/

theorem seek_here (file : Iob Source) :
    Action.seek file.device 0 .cur = (.ok (file.device.file.position : Int), file.device) := by
  have same : file.device.file.seek 0 .current = file.device.file := by
    unfold ByteFile.seek ByteFile.target
    exact ByteFile.moveTo_self _
  change (Except.ok (((file.device.file.seek 0 .current).position : Nat) : Int),
    ({ file.device with file := file.device.file.seek 0 .current } : Source)) = _
  rw [same]

theorem relative_cases (seeker : Seeker) (inUse : file.inUse) (offset : Int)
    (wherefrom : Whence) :
    ∃ errno,
      seeker.relative offset wherefrom file = (offset, wherefrom, { file with errno := errno }) \/
      (wherefrom = .set /\ seeker.relative offset wherefrom file =
        (seeker.narrow (offset - seeker.narrow file.place), .cur, { file with errno := errno })) := by
  obtain ⟨errno, told⟩ : ∃ errno,
      file.ftell = (toLong file.place, { file with errno := errno }) := by
    unfold Iob.ftell
    rw [seek_here, if_neg (by simp [inUse])]
    exact ⟨_, rfl⟩
  have told64 : file.ftello64 = (toOff64 file.place, file) := by
    unfold Iob.ftello64
    rw [seek_here, if_neg (by simp [inUse])]
    rfl
  cases seeker with
  | fseek | fseeko64 =>
    simp only [relative, Iob.relativeSeek, Iob.relativeSeek64, told, told64]
    split
    · rename_i absolute
      split
      · exact ⟨_, Or.inr ⟨absolute.1, rfl⟩⟩
      · exact ⟨_, Or.inl (by rw [absolute.1])⟩
    · exact ⟨file.errno, Or.inl rfl⟩

theorem relative_file (seeker : Seeker) (inUse : file.inUse) (offset : Int)
    (wherefrom : Whence) :
    ∃ errno, (seeker.relative offset wherefrom file).2.2 = { file with errno := errno } := by
  obtain ⟨errno, same | ⟨-, same⟩⟩ := seeker.relative_cases inUse offset wherefrom
  all_goals exact ⟨errno, by rw [same]⟩

theorem landing_nonneg (seeker : Seeker) (atop : Over content file) {offset : Int}
    (range : seeker.InRange offset) {wherefrom : Whence}
    (valid : 0 <= target offset wherefrom file) : 0 <= seeker.landing offset wherefrom file := by
  have nonneg := atop.place_nonneg
  obtain ⟨errno, same | ⟨absolute, same⟩⟩ :=
    seeker.relative_cases atop.ready.inUse offset wherefrom
  · unfold landing
    rw [same]
    exact valid
  · unfold landing
    rw [same]
    subst absolute
    have valid' : 0 <= offset := valid
    have here : ((file.standing.position : Nat) : Int) = file.place := Int.toNat_of_nonneg nonneg
    change 0 <= ((file.standing.position : Nat) : Int) +
      seeker.narrow (offset - seeker.narrow file.place)
    rw [here]
    generalize file.place = place at nonneg ⊢
    cases seeker with
    | fseek =>
      have range' : offset <= 2 ^ 31 - 1 := range.2
      simp only [narrow, toLong_eq_bmod, Int.bmod_def]
      omega
    | fseeko64 =>
      have range' := range.2
      simp only [narrow, toOff64_eq_bmod, Int.bmod_def]
      omega

theorem call_eq (seeker : Seeker) (inUse : file.inUse) (offset : Int)
    (wherefrom : Whence) :
    seeker.call offset wherefrom file = seeker.buffered (seeker.relative offset wherefrom file).1
        (seeker.relative offset wherefrom file).2.1
        (seeker.relative offset wherefrom file).2.2 := by
  cases seeker with
  | fseek =>
    unfold call relative buffered
    rw [Iob.fseek, if_neg (by simp [inUse]), Whence.ofInt_toInt]
    rfl
  | fseeko64 =>
    unfold call relative buffered
    rw [Iob.fseeko64, Whence.ofInt_toInt]
    dsimp only
    rw [if_neg (by simp [inUse])]

end Seeker

/-! ## Seeks that keep the window -/

def Iob.shifted (offset : Int) (errno : Option Errno) (file : Iob Source) : Iob Source :=
  { file with
    eofReached := false
    errno := errno
    bufferPosition := file.bufferPosition + offset }

namespace Seeker

variable {content : List UInt8} {file : Iob Source}

theorem buffered_of_stays (seeker : Seeker) (offset : Int) (errno : Option Errno)
    (keeps : offset = 0 \/ seeker.Stays offset .cur file) :
    seeker.buffered offset .cur { file with errno := errno } =
      (true, file.shifted offset errno) := by
  by_cases zero : offset = 0
  · subst zero
    cases seeker with
    | fseek | fseeko64 => simp [buffered, Iob.seekBuffered, Iob.seekBuffered64, Iob.shifted]
  · have stays := keeps.resolve_left zero
    cases seeker with
    | fseek | fseeko64 => exact (if_pos (Or.inr zero)).trans (if_pos stays)

theorem Stays.bounds {seeker : Seeker} {offset : Int} (stays : seeker.Stays offset .cur file) :
    0 < file.bufferReadBytes /\ (offset < 0 \/ (0 < offset /\ offset <= file.numUnreadBytes)) := by
  cases seeker with
  | fseek | fseeko64 =>
    obtain ⟨-, valid, ⟨negative, -⟩ | ahead⟩ := stays
    · exact ⟨by simpa [Iob.readBufferIsValid] using valid, Or.inl negative⟩
    · exact ⟨by simpa [Iob.readBufferIsValid] using valid, Or.inr ahead⟩

theorem windowed_shifted {seeker : Seeker} (windowed : file.Windowed) {offset : Int}
    (keeps : offset = 0 \/ seeker.Stays offset .cur file) (errno : Option Errno) :
    (file.shifted offset errno).Windowed := by
  rcases keeps with rfl | stays
  · refine windowed.of_window ?_
    simp [Iob.window, Iob.shifted]
  · obtain ⟨window, either⟩ := stays.bounds
    have ordered := windowed.positionLe
    refine ⟨windowed.readNonneg, ?_, ?_⟩
    · change file.bufferPosition + offset <= file.bufferReadBytes
      rcases either with negative | ⟨-, ahead⟩
      · omega
      · unfold Iob.numUnreadBytes at ahead
        split at ahead <;> omega
    · intro none
      have none' : file.bufferReadBytes = 0 := none
      omega

end Seeker

/-! ## Seeks that drop the window -/

theorem Over.emptyBuffer {content : List UInt8} (atop : Over content file) :
    ∃ next, file.emptyBuffer = (true, next) /\ Over content next /\
      next.bufferReadBytes = 0 /\ next.device.file = file.standing /\
      next.bufferMode = file.bufferMode := by
  have place := atop.place_eq
  have ordered := atop.windowed.positionLe
  -- a stream without a window, over a file of the same content
  have emptied {device : Source} (steady : device.Steady) (same : device.file.content = content) :
      Over content { file with
        eofReached := false, device := device, bufferReadBytes := 0, bufferPosition := 0 } := by
    exact ⟨⟨atop.ready.inUse, atop.ready.canRead, atop.ready.settled⟩, atop.sizePos,
      ⟨le_refl _, le_refl _, fun _ => rfl⟩, le_refl _, steady, same, atop.order,
      Int.natCast_nonneg _, fun pos => (Int.lt_irrefl _ pos).elim⟩
  have still : file.bufferPosition = file.bufferReadBytes -> file.device.file = file.standing := by
    intro usedUp
    have here : file.place.toNat = file.device.file.position := by omega
    unfold Iob.standing
    rw [here]
  unfold Iob.emptyBuffer
  rw [atop.ready.flushed]
  dsimp only
  by_cases window : 0 < file.bufferReadBytes
  · rw [if_pos (by simpa [Iob.readBufferIsValid] using window)]
    have back : file.device.file.seek (-(file.bufferReadBytes - file.bufferPosition)) .current =
        file.standing := by
      have inFile := atop.inFile window
      have target : file.device.file.target (-(file.bufferReadBytes - file.bufferPosition))
          .current = file.place := by
        unfold ByteFile.target
        dsimp only
        omega
      unfold ByteFile.seek
      rw [target, ByteFile.moveTo_of_le _ _ (by rw [atop.content_eq]; omega)]
      rfl
    have dropped := Iob.dropIobReadBuffer_of_back atop.ready.inUse window ordered
      (show Action.seek file.device _ .cur = (.ok _, { file.device with file := file.standing }) from
        congrArg (fun next : ByteFile => (Except.ok (next.position : Int),
          ({ file.device with file := next } : Source))) back)
      (fun usedUp => by rw [<- still usedUp])
    rw [dropped]
    exact ⟨_, rfl, emptied { atop.steady with } atop.content_eq, rfl, rfl, rfl⟩
  · rw [if_neg (by simpa [Iob.readBufferIsValid] using window)]
    have none : file.bufferReadBytes = 0 := by
      have atLeast := atop.windowed.readNonneg
      omega
    have usedUp : file.bufferPosition = file.bufferReadBytes := by
      rw [atop.windowed.position_of_empty none, none]
    exact ⟨file, rfl, atop, none, still usedUp, rfl⟩

theorem Seeker.buffered_of_moves {content : List UInt8} (seeker : Seeker)
    (atop : Over content file) (offset : Int) (wherefrom : Whence) (errno : Option Errno)
    (moves : ¬ (wherefrom = .cur /\ (offset = 0 \/ seeker.Stays offset .cur file))) :
    ∃ next, seeker.buffered offset wherefrom { file with errno := errno } = (true, next) /\
      Ahead (file.standing.seek offset wherefrom.origin) next /\ next.device.Steady /\
      next.descriptorLittleEndian = false /\ next.bufferPosition = next.bufferReadBytes := by
  have either : wherefrom ≠ .cur \/ offset ≠ 0 := by
    by_cases current : wherefrom = .cur
    · exact Or.inr fun zero => moves ⟨current, Or.inl zero⟩
    · exact Or.inl current
  have atop' := atop.flags file.error false errno
  obtain ⟨emptied, result, after, noWindow, device, -⟩ := atop'.emptyBuffer
  have start := after.windowed.position_of_empty noWindow
  have ended : ∀ errno' : Option Errno, Ahead (file.standing.seek offset wherefrom.origin)
        { emptied with
          device := { emptied.device with
            file := emptied.device.file.seek offset wherefrom.origin }
          errno := errno' } := by
    intro errno'
    have same : emptied.device.file = file.standing := device
    have ahead := ahead_of_used_up
      (show ({ emptied with
        device := { emptied.device with file := emptied.device.file.seek offset wherefrom.origin }
        errno := errno' } : Iob Source).Ready from
          ⟨after.ready.inUse, after.ready.canRead, after.ready.settled⟩)
      after.sizePos (after.windowed.of_window rfl) (start.trans noWindow.symm)
    rw [<- same]
    exact ahead
  have stays (stays : seeker.Stays offset wherefrom file) : False := by
    have current : wherefrom = .cur := by
      cases seeker with
      | fseek | fseeko64 => exact stays.1
    subst current
    exact moves ⟨rfl, Or.inr stays⟩
  have used := start.trans noWindow.symm
  cases seeker with
  | fseek =>
    have device : Seeker.fseek.buffered offset wherefrom { file with errno := errno } =
      Iob.seekDevice offset wherefrom { file with eofReached := false, errno := errno } :=
        (if_pos either).trans (if_neg stays)
    rw [device, Iob.seekDevice, result]
    exact ⟨_, rfl, ended _, { after.steady with }, after.order, used⟩
  | fseeko64 =>
    have device : Seeker.fseeko64.buffered offset wherefrom { file with errno := errno } =
      Iob.seekDevice64 offset wherefrom { file with eofReached := false, errno := errno } :=
        (if_pos either).trans (if_neg stays)
    rw [device, Iob.seekDevice64, result]
    exact ⟨_, rfl, ended _, { after.steady with }, after.order, used⟩

/-! ## What is read afterwards -/

theorem drop_eq_drop_iff (content : List UInt8) (first second : Nat) :
    content.drop first = content.drop second <->
      first = second \/ (content.length <= first /\ content.length <= second) := by
  constructor
  · intro same
    have lengths := congrArg List.length same
    rw [length_drop, length_drop] at lengths
    omega
  · rintro (rfl | ⟨behind, behind'⟩)
    · rfl
    · rw [drop_eq_nil_of_le behind, drop_eq_nil_of_le behind']

theorem eq_of_take_eq {first second : List UInt8}
    (same : ∀ n, first.take n = second.take n) : first = second := by
  have whole := same (first.length + second.length)
  rwa [take_of_length_le (by omega), take_of_length_le (by omega)] at whole

theorem Returns.unique {first second : List UInt8}
    (returns : Returns first file) (returns' : Returns second file) : first = second :=
  eq_of_take_eq fun n => (returns.fgetcs n).symm.trans (returns'.fgetcs n)

/-- A stream that is ahead of its file returns the bytes of the file, but for
blocks of an unbuffered stream with a window. -/
theorem Ahead.returns {array : ByteFile} (ahead : Ahead array file)
    (steady : file.device.Steady) (order : file.descriptorLittleEndian = false)
    (blocks : file.bufferMode ≠ .none \/ file.bufferPosition = file.bufferReadBytes \/
      file.device.file.rest.take (2 ^ 32 - 1) = array.rest.take (2 ^ 32 - 1)) :
    Returns array.rest file := by
  refine ⟨?_, ?_, ?_⟩
  · intro n
    obtain ⟨next, read, -⟩ := Ahead.follows.getcs ahead (steady.reliable n)
    rw [ahead.ready.fgetcs, read]
  · intro n large
    rw [ahead.ready.fgets_eq (by omega)]
    obtain ⟨next, read, -, -⟩ := Ahead.follows.fgetsBytes ahead.clearerr
      (Source.Steady.reliable (show file.clearerr.device.Steady from steady) (n - 1).toNat) [] rfl
    rw [read]
    simp
  · intro elementSize count posSize posCount fits
    rcases or_assoc.mpr blocks with either | same
    · exact ahead.freadInternal steady order either posSize posCount fits
    · by_cases unbuffered : file.bufferMode = .none
      · have settled := congrArg Prod.fst ahead.ready.settlement_eq
        have less : min (elementSize * count) (2 ^ 32 - 1) = elementSize * count := by omega
        have shorter := congrArg (List.take (elementSize * count)) same
        rw [take_take, take_take, less] at shorter
        rw [Iob.freadInternal_direct ahead.ready.inUse ahead.ready.canRead settled posSize
          posCount fits (Or.inl unbuffered), descriptorBytes_eq steady order ahead.ready, shorter]
      · exact ahead.freadInternal steady order (Or.inl unbuffered) posSize posCount fits

/--
When a seek leads to the bytes of the file: it lands where it was meant to (or
both places are behind the end), and if it keeps the window, the buffer holds
the file's own bytes from there on; `fread` of an unbuffered stream, which
goes on where the descriptor stands, must find the same bytes there.
-/
def SeeksOwnBytes (seeker : Seeker) (offset : Int) (wherefrom : Whence) (file : Iob Source) :
    Prop :=
  let content := file.device.file.content
  let here : Int := file.device.file.position
  let landing := seeker.landing offset wherefrom file
  let target := Seeker.target offset wherefrom file
  (landing = target \/ ((content.length : Int) <= landing /\ (content.length : Int) <= target)) /\
    (seeker.KeepsWindow offset wherefrom file ->
      file.buffer.load (landing - (here - file.bufferReadBytes)) (here - landing).toNat =
          (content.drop landing.toNat).take (here - landing).toNat /\
        (file.bufferMode = .none -> (content.drop here.toNat).take (2 ^ 32 - 1) =
            (content.drop target.toNat).take (2 ^ 32 - 1)))

namespace Over

variable {content : List UInt8} {file : Iob Source}

section

variable (atop : Over content file) (seeker : Seeker)
include atop

theorem returns_of_moves (offset : Int) (wherefrom : Whence)
    (moves : ¬ seeker.KeepsWindow offset wherefrom file) :
    Returns (content.drop (seeker.landing offset wherefrom file).toNat)
      (seeker.call offset wherefrom file).2 := by
  obtain ⟨errno, place⟩ := seeker.relative_file atop.ready.inUse offset wherefrom
  obtain ⟨next, result, ahead, steady, order, usedUp⟩ :=
    seeker.buffered_of_moves atop (seeker.relative offset wherefrom file).1
      (seeker.relative offset wherefrom file).2.1 errno moves
  rw [seeker.call_eq atop.ready.inUse, place, result]
  have returns := ahead.returns steady order (Or.inr (Or.inl usedUp))
  have rest : (file.standing.seek (seeker.relative offset wherefrom file).1
      (seeker.relative offset wherefrom file).2.1.origin).rest =
      content.drop (seeker.landing offset wherefrom file).toNat := by
    unfold ByteFile.seek
    rw [ByteFile.rest_moveTo, <- atop.content_eq]
    rfl
  rwa [rest] at returns

theorem call_of_keeps (offset : Int) (wherefrom : Whence)
    (keeps : seeker.KeepsWindow offset wherefrom file) :
    ∃ (moved : Int) (errno : Option Errno), (moved = 0 \/ seeker.Stays moved .cur file) /\
      (seeker.call offset wherefrom file).2 = file.shifted moved errno /\
      seeker.landing offset wherefrom file = file.place + moved := by
  obtain ⟨current, stays⟩ := keeps
  have here := Int.toNat_of_nonneg atop.place_nonneg
  obtain ⟨errno, place⟩ := seeker.relative_file atop.ready.inUse offset wherefrom
  refine ⟨(seeker.relative offset wherefrom file).1, errno, stays, ?_, ?_⟩
  · rw [seeker.call_eq atop.ready.inUse, place, current, seeker.buffered_of_stays _ _ stays]
  · unfold Seeker.landing Seeker.target
    rw [current, <- here]
    rfl

theorem seek_iff {offset : Int} (range : seeker.InRange offset) {wherefrom : Whence}
    (valid : 0 <= Seeker.target offset wherefrom file) :
    Returns (content.drop (Seeker.target offset wherefrom file).toNat)
        (seeker.call offset wherefrom file).2 <->
      SeeksOwnBytes seeker offset wherefrom file := by
  have nonneg := seeker.landing_nonneg atop range valid
  have places : content.drop (seeker.landing offset wherefrom file).toNat =
        content.drop (Seeker.target offset wherefrom file).toNat <->
      (seeker.landing offset wherefrom file = Seeker.target offset wherefrom file \/
        ((content.length : Int) <= seeker.landing offset wherefrom file /\
          (content.length : Int) <= Seeker.target offset wherefrom file)) := by
    rw [drop_eq_drop_iff]
    omega
  unfold SeeksOwnBytes
  dsimp only
  rw [atop.content_eq, <- places]
  by_cases keeps : seeker.KeepsWindow offset wherefrom file
  · obtain ⟨moved, errno, stays, result, landing⟩ := atop.call_of_keeps seeker offset wherefrom keeps
    have place := atop.place_eq
    have windowed := Seeker.windowed_shifted atop.windowed stays errno
    have ready : (file.shifted moved errno).Ready :=
      ⟨atop.ready.inUse, atop.ready.canRead, atop.ready.settled⟩
    have unread : ((file.shifted moved errno).bufferReadBytes -
        (file.shifted moved errno).bufferPosition).toNat =
        ((file.device.file.position : Int) - seeker.landing offset wherefrom file).toNat := by
      change (file.bufferReadBytes - (file.bufferPosition + moved)).toNat = _
      congr 1
      omega
    have start : (file.shifted moved errno).bufferPosition = seeker.landing offset wherefrom file -
          ((file.device.file.position : Int) - file.bufferReadBytes) := by
      change file.bufferPosition + moved = _
      omega
    -- without a window the stream does not move
    have atEnd : file.bufferReadBytes = 0 ->
        seeker.landing offset wherefrom file = file.device.file.position := by
      intro none
      have zero := atop.windowed.position_of_empty none
      rcases stays with rfl | inside
      · omega
      · have window := inside.bounds.1
        omega
    have within : seeker.landing offset wherefrom file <= file.device.file.position := by
      have ordered : file.bufferPosition + moved <= file.bufferReadBytes := windowed.positionLe
      omega
    generalize seeker.landing offset wherefrom file = q at *
    generalize Seeker.target offset wherefrom file = p at *
    have upcoming : (file.shifted moved errno).upcoming =
        file.buffer.load (q - ((file.device.file.position : Int) - file.bufferReadBytes))
          ((file.device.file.position : Int) - q).toNat ++
        content.drop file.device.file.position := by
      unfold Iob.upcoming
      rw [unread, start, <- atop.content_eq]
      rfl
    rw [result]
    constructor
    · intro returns
      have same : (file.shifted moved errno).upcoming = content.drop p.toNat := by
        refine eq_of_take_eq fun n => ?_
        rw [<- getcs_upcoming ready atop.sizePos windowed atop.steady, <- ready.fgetcs]
        exact returns.fgetcs n
      rw [upcoming] at same
      have lengths := congrArg List.length same
      rw [length_append, Block.length_load, length_drop, length_drop] at lengths
      have inFile := atop.inFile
      have atLeast := atop.windowed.readNonneg
      have placesEq : content.drop q.toNat = content.drop p.toNat := by
        rw [drop_eq_drop_iff]
        rcases Int.lt_or_eq_of_le atLeast with window | none
        · omega
        · omega
      refine ⟨placesEq, fun _ => ⟨?_, ?_⟩⟩
      · have front := congrArg (List.take ((file.device.file.position : Int) - q).toNat) same
        rw [take_append_of_le_length (by rw [Block.length_load]),
          take_of_length_le (by rw [Block.length_load])] at front
        rw [front, placesEq]
      · intro unbuffered
        have block := returns.fread 1 (2 ^ 32 - 1) (by decide) (by decide) (by decide)
        have settled := congrArg Prod.fst ready.settlement_eq
        have steady : (file.shifted moved errno).device.Steady := atop.steady
        have order := atop.order
        rw [Iob.freadInternal_direct ready.inUse ready.canRead settled (by decide) (by decide) (by
          decide) (Or.inl unbuffered), descriptorBytes_eq steady order ready] at block
        rw [<- atop.content_eq] at block ⊢
        exact block
    · rintro ⟨placesEq, window⟩
      obtain ⟨own, desc⟩ := window keeps
      rw [<- placesEq]
      have ahead : Ahead { file.device.file with position := q.toNat }
          (file.shifted moved errno) := by
        refine ⟨ready, atop.sizePos, windowed, ?_, ?_⟩
        · rw [unread]
          change file.device.file = ByteFile.advance { file.device.file with position := q.toNat } _
          unfold ByteFile.advance
          have back : q.toNat + ((file.device.file.position : Int) - q).toNat =
              file.device.file.position := by omega
          rw [back]
        · rw [unread, start]
          change file.buffer.load _ _ = (file.device.file.content.drop q.toNat).take _
          rw [atop.content_eq]
          exact own
      have rest : ({ file.device.file with position := q.toNat } : ByteFile).rest =
          content.drop q.toNat := by
        rw [<- atop.content_eq]
        rfl
      have returns := ahead.returns atop.steady atop.order (by
        by_cases unbuffered : file.bufferMode = .none
        · right
          right
          rw [rest, placesEq]
          change (file.device.file.content.drop file.device.file.position).take _ = _
          rw [atop.content_eq]
          exact desc unbuffered
        · exact Or.inl unbuffered)
      rwa [rest] at returns
  · have returns := atop.returns_of_moves seeker offset wherefrom keeps
    constructor
    · intro returns'
      exact ⟨returns.unique returns', fun keeps' => (keeps keeps').elim⟩
    · intro condition
      rw [<- condition.1]
      exact returns

end

end Over

theorem over_openSource (mode : BufferMode) {bufferSize : Nat} (pos : 0 < bufferSize)
    (buffer : Block) (array : ByteFile) :
    Over array.content (openSource mode bufferSize buffer ⟨array, [], [], true⟩) :=
  ⟨⟨rfl, rfl, rfl⟩, Int.natCast_pos.mpr pos, ⟨le_refl _, le_refl _, fun _ => rfl⟩,
    le_refl _, ⟨rfl, rfl, rfl⟩, rfl, rfl, Int.natCast_nonneg _,
    fun some => (Int.lt_irrefl _ some).elim⟩

/--
After any sequence of `fgetc` and `ungetc` on a file, and a `fseek` or
`fseeko64` to a place of it, reads return the bytes of the file from there on
exactly if the seek leads to its own bytes.
-/
theorem seek_after_ungetc_iff {φ : Type} (lib : Library φ) (mode : BufferMode)
    {bufferSize : Nat} (pos : 0 < bufferSize) (buffer : Block) (array : ByteFile)
    (operations : List (Operation φ)) (bytes : ∀ operation ∈ operations, operation.IsByte)
    (seeker : Seeker) {offset : Int} (range : seeker.InRange offset) (wherefrom : Whence) :
    let file := (openSource mode bufferSize buffer ⟨array, [], [], true⟩).performAll lib operations
    let target := Seeker.target offset wherefrom file
    0 <= target ->
      (Returns (array.content.drop target.toNat) (seeker.call offset wherefrom file).2 <->
        SeeksOwnBytes seeker offset wherefrom file) := by
  intro file target valid
  have atop := (over_openSource mode pos buffer array).performAll lib operations bytes
  exact atop.seek_iff seeker range valid

/-- Behind the character that was pushed back. -/
theorem seek_after_ungetc_behind :
    let file := (openSource .full 4 (fun _ => 0) ⟨⟨[1, 2, 3], 0, false⟩, [], [], true⟩).performAll
      plainLibrary [.fgetc, .fgetc, .ungetc 120]
    Returns [3] (Seeker.fseek.call 2 .set file).2 := by
  intro file
  refine (seek_after_ungetc_iff plainLibrary .full (show 0 < 4 by decide) (fun _ => 0)
    ⟨[1, 2, 3], 0, false⟩ [.fgetc, .fgetc, .ungetc 120] ?_ .fseek
    (show Seeker.fseek.InRange 2 from ⟨by decide, by decide⟩) .set (by decide)).mpr ⟨Or.inl (by decide), fun _ => ⟨by decide, ?_⟩⟩
  · simp [Operation.IsByte]
  · intro none
    exact absurd none (by decide)

/-- The character is read after a seek to where it stands, or before it. -/
theorem seek_finds_pushed_back :
    let file := (openSource .full 4 (fun _ => 0) ⟨⟨[1, 2, 3], 0, false⟩, [], [], true⟩).performAll
      plainLibrary [.fgetc, .fgetc, .ungetc 120]
    (Seeker.fseek.call 0 .set file).1 /\
      ((Seeker.fseek.call 0 .set file).2.fgetcs 3).1 = [1, 120, 3] /\
      (Seeker.fseeko64.call 1 .set file).1 /\
      ((Seeker.fseeko64.call 1 .set file).2.fgetcs 2).1 = [120, 3] := by
  decide

end Clib4.Stdio
