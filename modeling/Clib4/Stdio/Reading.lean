import Clib4.Stdio.Bytewise
import Clib4.Stdio.Descriptor

namespace Clib4.Stdio

open Foundation List

/-!
# The read window against the plain array

A stream that reads ahead stands behind its descriptor by the bytes it has
not handed out yet.  `Reads` says so: the descriptor is ahead of the array by
the unread bytes, and the whole buffer, bytes already taken included, is the
stretch of the file that ends at the descriptor.  The bytes already taken
matter because a seek may step back onto them.
-/

/-- A read/write stream with a buffer, in host order. -/
structure Setup (inUse canRead canWrite : Bool) (mode : BufferMode) (size : Int)
    (littleEndian descriptorLittleEndian : Bool) : Prop where
  inUse : inUse
  canRead : canRead
  canWrite : canWrite
  buffered : mode ≠ .none
  sizePos : 0 < size
  hostOrder : littleEndian = false
  descriptorOrder : descriptorLittleEndian = false

/-- What no call changes.  It speaks of a few fields only, so that it is
literally the same statement after an update of the others. -/
def Healthy (file : Iob ByteFile) : Prop :=
  Setup file.inUse file.canRead file.canWrite file.bufferMode file.bufferSize
    file.littleEndian file.descriptorLittleEndian

/-- The stream has nothing pending and its window lies in the file. -/
structure Reads (array : ByteFile) (file : Iob ByteFile) : Prop where
  healthy : Healthy file
  noWrites : file.bufferWriteBytes = 0
  positionNonneg : 0 <= file.bufferPosition
  positionLe : file.bufferPosition <= file.bufferReadBytes
  readLe : file.bufferReadBytes <= file.bufferSize
  device : file.device = array.advance (file.bufferReadBytes - file.bufferPosition).toNat
  started : file.bufferPosition.toNat <= array.position
  window : file.buffer.load 0 file.bufferReadBytes.toNat =
    (array.content.drop (array.position - file.bufferPosition.toNat)).take
      file.bufferReadBytes.toNat

namespace Reads

variable {array : ByteFile} {file : Iob ByteFile}

theorem congr {other : Iob ByteFile} (reads : Reads array file)
    (healthy : Healthy other) (device : other.device = file.device)
    (buffer : other.buffer = file.buffer) (size : other.bufferSize = file.bufferSize)
    (position : other.bufferPosition = file.bufferPosition)
    (readBytes : other.bufferReadBytes = file.bufferReadBytes)
    (writeBytes : other.bufferWriteBytes = file.bufferWriteBytes) : Reads array other where
  healthy := healthy
  noWrites := writeBytes.trans reads.noWrites
  positionNonneg := by rw [position]; exact reads.positionNonneg
  positionLe := by rw [position, readBytes]; exact reads.positionLe
  readLe := by rw [readBytes, size]; exact reads.readLe
  device := by rw [device, readBytes, position]; exact reads.device
  started := by rw [position]; exact reads.started
  window := by rw [buffer, readBytes, position]; exact reads.window

section

variable (reads : Reads array file)
include reads

theorem clearerr : Reads array file.clearerr :=
  reads.congr reads.healthy rfl rfl rfl rfl rfl rfl

theorem eofReached (flag : Bool) : Reads array { file with eofReached := flag } :=
  reads.congr reads.healthy rfl rfl rfl rfl rfl rfl

theorem load_unread {count : Nat}
    (bound : (count : Int) <= file.bufferReadBytes - file.bufferPosition) :
    file.buffer.load file.bufferPosition count = array.rest.take count := by
  have nonneg := reads.positionNonneg
  have start : (0 : Int) + (file.bufferPosition.toNat : Int) = file.bufferPosition := by omega
  have whole := congrArg (fun bytes => (bytes.drop file.bufferPosition.toNat).take count)
    reads.window
  rw [Block.drop_load _ _ (by omega), start, Block.take_load _ _ (by omega),
    drop_take, take_take, drop_drop] at whole
  have place : array.position - file.bufferPosition.toNat + file.bufferPosition.toNat =
      array.position := by
    have := reads.started
    omega
  rw [place, Nat.min_eq_left (by omega)] at whole
  exact whole

theorem window_length : file.bufferReadBytes.toNat <=
      array.content.length - (array.position - file.bufferPosition.toNat) := by
  have lengths := congrArg List.length reads.window
  rw [Block.length_load, length_take, length_drop] at lengths
  omega

theorem unread_le_rest :
    (file.bufferReadBytes - file.bufferPosition).toNat <= array.rest.length := by
  have bound := reads.window_length
  have nonneg := reads.positionNonneg
  rw [ByteFile.length_rest]
  omega

theorem advance {count : Nat} (bound : (count : Int) <= file.bufferReadBytes - file.bufferPosition) :
    Reads (array.advance count)
      { file with bufferPosition := file.bufferPosition + count } where
  healthy := reads.healthy
  noWrites := reads.noWrites
  positionNonneg := by
    have := reads.positionNonneg
    simp only
    omega
  positionLe := by
    simp only
    omega
  readLe := reads.readLe
  device := by
    simp only
    rw [reads.device, ByteFile.advance_advance]
    congr 1
    omega
  started := by
    have := reads.started
    simp only [ByteFile.advance_position]
    omega
  window := by
    have := reads.positionNonneg
    simp only [ByteFile.advance_position, ByteFile.advance_content]
    rw [reads.window]
    congr 2
    omega

/-! ## One byte -/

theorem settled : file.writeBufferIsValid = false := by
  simp [Iob.writeBufferIsValid, reads.noWrites]

end

theorem fetch_eq (file : Iob ByteFile) :
    file.fetch = (some (.ok (file.device.rest.take file.bufferSize.toNat)),
      file.device.advance (file.device.rest.take file.bufferSize.toNat).length) := by
  unfold Iob.fetch
  split <;> rfl

theorem filled (reads : Reads array file) :
    Reads array (file.filled (array.advance (array.rest.take file.bufferSize.toNat).length)
      (array.rest.take file.bufferSize.toNat)) := by
  have sizePos := reads.healthy.sizePos
  refine ⟨reads.healthy, reads.noWrites, le_refl _, Int.natCast_nonneg _, ?_, ?_, Nat.zero_le _, ?_⟩
  · simp only [Iob.filled, length_take]
    omega
  · simp only [Iob.filled, Int.sub_zero, Int.toNat_natCast]
  · simp only [Iob.filled]
    rw [Int.toNat_natCast, Block.load_store_same]
    simp [ByteFile.rest, length_take]

theorem getc (reads : Reads array file) : ∃ next, file.getc = ((Plain.fgetc array).1, next) /\
      Reads (Plain.fgetc array).2 next /\ next.error = file.error := by
  have ordered := reads.positionLe
  rw [Iob.getc_eq reads.settled]
  split
  · rename_i here
    have unread := Iob.unread_of_ordered ordered here
    have loaded := @load_unread array file reads 1 (by omega)
    have moved := @advance array file reads 1 (by omega)
    rw [Block.load_succ] at loaded
    cases split : array.rest with
    | nil => simp [split] at loaded
    | cons c rest =>
      rw [split] at loaded
      rw [Plain.fgetc_of_cons split]
      exact ⟨file.skip 1, by rw [(List.cons.inj loaded).1], moved, rfl⟩
  · rename_i nothing
    have exhausted : file.bufferPosition = file.bufferReadBytes := by
      omega
    have same : file.device = array := by
      rw [reads.device, exhausted]
      simp
    have sizePos := reads.healthy.sizePos
    have window := reads.filled
    rw [fetch_eq, same]
    cases split : array.rest with
    | nil =>
      rw [split, take_nil] at window
      rw [take_nil, Plain.fgetc_of_nil split]
      exact ⟨_, rfl, window.eofReached true, rfl⟩
    | cons c rest =>
      obtain ⟨more, size⟩ : ∃ more, file.bufferSize.toNat = more + 1 :=
        ⟨file.bufferSize.toNat - 1, by omega⟩
      rw [split, size, take_succ_cons] at window
      rw [size, Plain.fgetc_of_cons split]
      refine ⟨_, rfl, @advance _ _ window 1 ?_, rfl⟩
      simp only [Iob.filled, length_cons]
      omega

theorem fgetcCheck (reads : Reads array file) : file.fgetcCheck = (true, file) := by
  simp [Iob.fgetcCheck, Iob.writeBufferIsValid, reads.healthy.inUse, reads.healthy.canRead,
    reads.noWrites]

end Reads

/-! ## Lines -/

namespace Plain

@[simp] theorem line_zero (bytes : List UInt8) : line bytes 0 = [] := by
  simp [line, lineEnd_nil]

@[simp] theorem line_nil (limit : Nat) : line [] limit = [] := by
  simp [line, lineEnd_nil]

theorem line_cons (c : UInt8) (rest : List UInt8) (limit : Nat) :
    line (c :: rest) (limit + 1) = c :: (if c = lineFeed then [] else line rest limit) := by
  unfold line
  rw [take_succ_cons, lineEnd_cons]
  by_cases found : c = lineFeed
  · simp [found]
  · rw [if_neg found, if_neg found]
    cases Iob.lineEnd (rest.take limit) with
    | none | some count => rfl

end Plain

/-! ## Streams that follow an array -/

section Follows

variable {δ : Type} [Action δ] {R : ByteFile -> Iob δ -> Prop} {Reliable : Nat -> Iob δ -> Prop}
  {array : ByteFile} {file : Iob δ}

/-- Reading a byte of a stream that is reliable for another one reads one of the array, and
leaves the stream reliable for one less. -/
def Follows (R : ByteFile -> Iob δ -> Prop) (Reliable : Nat -> Iob δ -> Prop) : Prop :=
  ∀ {array : ByteFile} {file : Iob δ} {n : Nat}, R array file -> Reliable (n + 1) file ->
    ∃ next, file.getc = ((Plain.fgetc array).1, next) /\ R (Plain.fgetc array).2 next /\
      next.error = file.error /\ ((Plain.fgetc array).1 ≠ none -> Reliable n next)

theorem Follows.getcs (follows : Follows R Reliable) (related : R array file) {n : Nat}
    (reliable : Reliable n file) :
    ∃ next, file.getcs n = (array.rest.take n, next) /\
      R (array.advance (array.rest.take n).length) next := by
  induction n generalizing array file with
  | zero => exact ⟨file, by simp [Iob.getcs], by simpa using related⟩
  | succ n ih =>
    obtain ⟨next, got, after, -, still⟩ := follows related reliable
    rw [Iob.getcs, got]
    cases restEq : array.rest with
    | nil =>
      have plain := Plain.fgetc_of_nil restEq
      rw [plain] at after ⊢
      exact ⟨next, rfl, after⟩
    | cons c rest =>
      have plain := Plain.fgetc_of_cons restEq
      rw [plain] at after still ⊢
      obtain ⟨final, gotten, final'⟩ := ih after (still (Option.some_ne_none c))
      rw [ByteFile.rest_advance_one restEq] at gotten final'
      refine ⟨final, by simp [gotten], ?_⟩
      rw [take_succ_cons, length_cons, Nat.add_comm, <- ByteFile.advance_advance]
      exact final'

theorem Follows.fgetsBytes (follows : Follows R Reliable) (related : R array file)
    {n : Nat} (reliable : Reliable n file) (s : List UInt8) (noError : file.error = false) :
    ∃ next, file.fgetsBytes n s = (⟨decide (0 < n) && (s ++ Plain.line array.rest n).isEmpty,
          s ++ Plain.line array.rest n ++ [0]⟩, next) /\
      R (array.advance (Plain.line array.rest n).length) next /\ next.error = false := by
  induction n generalizing array file s with
  | zero => exact ⟨file, by simp [Iob.fgetsBytes], by simpa using related, noError⟩
  | succ n ih =>
    obtain ⟨next, got, after, sameError, still⟩ := follows related reliable
    have clean := sameError.trans noError
    rw [Iob.fgetsBytes, got]
    cases restEq : array.rest with
    | nil =>
      have plain := Plain.fgetc_of_nil restEq
      rw [plain] at after ⊢
      exact ⟨next, by simp [clean], by simpa using after, clean⟩
    | cons c rest =>
      have plain := Plain.fgetc_of_cons restEq
      rw [plain] at after still ⊢
      dsimp only
      rw [Plain.line_cons]
      by_cases ends : c = lineFeed
      · rw [if_pos ends, if_pos ends]
        exact ⟨next, by simp, after, clean⟩
      · rw [if_neg ends, if_neg ends]
        obtain ⟨final, read, final', noError'⟩ :=
          ih after (still (Option.some_ne_none c)) (s ++ [c]) clean
        rw [ByteFile.rest_advance_one restEq] at read final'
        refine ⟨final, ?_, ?_, noError'⟩
        · rw [read]
          simp
        · rw [length_cons, Nat.add_comm, <- ByteFile.advance_advance]
          exact final'

end Follows

namespace Reads

variable {array : ByteFile} {file : Iob ByteFile}

theorem follows : Follows Reads fun _ _ => True := by
  intro array file n reads _
  obtain ⟨next, got, after, error⟩ := reads.getc
  exact ⟨next, got, after, error, fun _ => trivial⟩

theorem fgetsLoop (reads : Reads array file) {fuel n : Nat} (enough : n <= fuel) (s : List UInt8)
    (noError : file.error = false) :
    ∃ next, Iob.fgetsLoop fuel n s file =
        (⟨decide (0 < n) && (s ++ Plain.line array.rest n).isEmpty,
          s ++ Plain.line array.rest n ++ [0]⟩, next) /\
      Reads (array.advance (Plain.line array.rest n).length) next := by
  rw [Iob.fgetsLoop_eq fuel n s file enough]
  obtain ⟨next, read, after, -⟩ := follows.fgetsBytes reads trivial s noError
  exact ⟨next, read, after⟩

/-! ## Blocks -/

theorem freadDirect (reads : Reads array file)
    (empty : file.bufferReadBytes = 0) (total : Nat) :
    ∃ next, file.freadDirect total = (some (array.rest.take total), next) /\
      Reads (array.advance (array.rest.take total).length) next := by
  have position : file.bufferPosition = 0 := by
    have := reads.positionNonneg
    have := reads.positionLe
    omega
  have same : file.device = array := by
    rw [reads.device, empty, position]
    simp
  -- Whatever the flags, the window stays empty behind the moved descriptor.
  let moved (eof : Bool) : Iob ByteFile :=
    { file with
      device := array.advance (array.rest.take total).length
      errno := none
      eofReached := eof }
  have movedReads : ∀ eof,
      Reads (array.advance (array.rest.take total).length) (moved eof) := by
    intro eof
    exact
      { healthy := reads.healthy
        noWrites := reads.noWrites
        positionNonneg := reads.positionNonneg
        positionLe := reads.positionLe
        readLe := reads.readLe
        device := by simp [moved, empty, position]
        started := by simp [moved, position]
        window := by simp [moved, empty] }
  have described : file.readDescriptor total =
      (some (array.rest.take total), moved file.eofReached) := by
    rw [Iob.readDescriptor_eq rfl]
    by_cases zero : total = 0
    · simp [moved, zero, same]
    · simp [moved, zero, Action.read, ByteFile.read, same, reads.healthy.descriptorOrder]
  unfold Iob.freadDirect
  rw [described]
  by_cases ended : array.rest.take total = []
  · exact ⟨moved true, by simp [moved, ended], movedReads true⟩
  · exact ⟨moved file.eofReached, by simp [ended], movedReads file.eofReached⟩

theorem freadLoop (reads : Reads array file) (total : Nat) :
    ∃ next, Iob.freadLoop total total [] file = (⟨array.rest.take total, false⟩, next) /\
      Reads (array.advance (array.rest.take total).length) next := by
  by_cases bypass : file.Bypasses total
  · have pos : 0 < total := by
      have sizePos := reads.healthy.sizePos
      have room := bypass.2
      omega
    rw [Iob.freadLoop_bypass pos bypass]
    obtain ⟨next, direct, after⟩ := reads.freadDirect bypass.1 total
    exact ⟨next, by rw [direct], after⟩
  · obtain ⟨next, read, after⟩ := follows.getcs reads trivial
    refine ⟨next, ?_, after⟩
    rw [Iob.freadLoop_eq total total [] file (Nat.le_refl _) reads.settled bypass, read]
    rfl

end Reads

end Clib4.Stdio
