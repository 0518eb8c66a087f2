import Clib4.Stdio.BlockOutput
import Clib4.Foundation.Run

namespace Clib4.Stdio

open Foundation

/-!
# What output calls report and what they store

`fwrite` with elements of one byte, on a stream that only writes: which bytes
it stores, how many it reports, and which bytes it looks at.
-/

/-- A block reported as it is stored, by the loop the mode selects. -/
def Iob.blockSafe (file : Iob Medium) (data : List UInt8) : Bool :=
  match file.bufferMode with
  | .line => lineSafe file.bufferSize file.bufferWriteBytes data file.device.outcomes
  | .full =>
    WriteStream.fullSafe file.bufferSize file.bufferWriteBytes data.length
      file.device.outcomes
  | .none => true

def Iob.blockEnd (file : Iob Medium) (total : Nat) : Iob.FwriteEnd :=
  match file.bufferMode with
  | .full => WriteStream.fullEnd file.bufferSize file.bufferWriteBytes total
  | _ => .counted total

namespace WriteStream

variable {file : Iob Medium}

theorem outputMode (stream : WriteStream file) : file.outputMode = file.bufferMode := by
  simp [Iob.outputMode, stream.buffered]

theorem of_flushIfFull (stream : WriteStream file) {next : Iob Medium}
    (flushed : file.flushIfFull = (true, next)) :
    WriteStream next /\ next.bufferWriteBytes < next.bufferSize := by
  by_cases room : file.bufferWriteBytes < file.bufferSize
  · rw [flushIfFull_of_room room] at flushed
    cases flushed
    exact ⟨stream, room⟩
  · rw [stream.flushIfFull_of_full (le_antisymm stream.pendingLe (not_lt.mp room))] at flushed
    split at flushed
    · cases flushed
      exact ⟨stream.flushed, stream.room_flushed⟩
    · cases flushed

theorem fwriteBytes (stream : WriteStream file) (ptr : Block) (total : Nat) :
    BlockEnds ptr 0 0 file (file.blockSafe (ptr.load 0 total)) (file.blockEnd total)
      (file.fwriteBytes ptr (2 * total + 2) total) := by
  unfold Iob.fwriteBytes Iob.blockSafe Iob.blockEnd
  rw [stream.outputMode]
  cases mode : file.bufferMode with
  | line =>
    have ends := lineLoop ptr (2 * total + 2) 0 total 0 file (by omega) stream
    rw [Nat.zero_add] at ends
    exact ends
  | full =>
    rw [Block.length_load]
    cases total with
    | zero =>
      rw [fullSafe, if_pos (Or.inr rfl), fullEnd, if_pos (Or.inr rfl)]
      exact BlockEnds.stop stream rfl (fun _ => rfl)
    | succ less => exact stream.fullLoop ptr (2 * less + 1) (less + 1)
  | none => exact absurd mode stream.buffered

theorem fwrite_single (stream : WriteStream file) (ptr : Block) {n : Nat} (fits : n < 2 ^ 32) :
    file.fwrite ptr 1 n = ((file.fwriteBytes ptr (2 * n + 2) n).1.reported,
        (file.fwriteBytes ptr (2 * n + 2) n).2) := by
  have total : Iob.sizeT (1 * n) = n := by
    rw [Nat.one_mul]
    exact Nat.mod_eq_of_lt fits
  unfold Iob.fwrite
  rw [if_neg (by simp [stream.inUse, stream.canWrite])]
  by_cases some : 0 < n
  · rw [if_pos ⟨Nat.one_pos, some⟩, total]
    rw [if_neg (by simp [Nat.div_self some])]
    generalize file.fwriteBytes ptr (2 * n + 2) n = result
    rcases result with ⟨bytes | _ | _, next⟩
    · simp only [Nat.div_one, Iob.FwriteEnd.reported]
    · rfl
    · rfl
  · have nothing : n = 0 := by omega
    subst nothing
    unfold Iob.fwriteBytes
    rw [stream.outputMode]
    cases mode : file.bufferMode with
    | line | full => rfl
    | none => exact absurd mode stream.buffered

end WriteStream

/-! ## Bytes that are looked at -/

theorem load_congr {ptr other : Block} {s : Int} {count : Nat}
    (same : ∀ idx : Nat, idx < count -> other (s + idx) = ptr (s + idx)) :
    other.load s count = ptr.load s count := by
  apply List.ext_getElem?
  intro idx
  rw [Block.getElem?_load, Block.getElem?_load]
  by_cases inside : idx < count
  · rw [if_pos inside, if_pos inside, same idx inside]
  · rw [if_neg inside, if_neg inside]

/-- Two blocks that hold the same bytes from `s` on. -/
def SameBytes (ptr other : Block) (s total : Nat) : Prop :=
  ∀ idx : Nat, s <= idx -> idx < s + total -> other idx = ptr idx

namespace SameBytes

variable {ptr other : Block} {s total : Nat}

theorem load (same : SameBytes ptr other s total) {count : Nat} (within : count <= total) :
    other.load s count = ptr.load s count := by
  apply load_congr
  intro idx inside
  have at_ := same (s + idx) (by omega) (by omega)
  push_cast at at_
  exact at_

theorem drop (same : SameBytes ptr other s total) (count : Nat) :
    SameBytes ptr other (s + count) (total - count) :=
  fun idx lower upper => same idx (by omega) (by omega)

theorem head (same : SameBytes ptr other s total) (some : total ≠ 0) : other s = ptr s :=
  same s (le_refl s) (by omega)

theorem fwriteLine {δ : Type} [Action δ] (fuel : Nat) :
    ∀ (s total written : Nat) (file : Iob δ), SameBytes ptr other s total ->
      Iob.fwriteLine other fuel s total written file =
        Iob.fwriteLine ptr fuel s total written file := by
  induction fuel with
  | zero =>
    intro s total written file same
    rfl
  | succ fuel ih =>
    intro s total written file same
    unfold Iob.fwriteLine
    by_cases finished : total = 0
    · rw [if_pos finished, if_pos finished]
    rw [if_neg finished, if_neg finished]
    by_cases room : file.bufferWriteBytes < file.bufferSize
    · rw [if_pos room, if_pos room, same.load (le_refl total)]
      have bounds := lineChunk_bounds (ptr.load s total) file
        (WriteStream.load_ne_nil ptr s finished) room
      rw [Block.length_load] at bounds
      generalize file.lineChunk (ptr.load s total) = chunk at bounds ⊢
      rcases chunk with ⟨count, feed⟩
      dsimp only at bounds ⊢
      rw [same.load bounds.2.1]
      split
      · rfl
      · rename_i next _
        by_cases last : total - count = 0
        · rw [if_pos last, if_pos last]
        rw [if_neg last, if_neg last, ih _ _ _ next (same.drop count), (same.drop count).head last]
        by_cases again : next.bufferWriteBytes < next.bufferSize
        · rw [if_pos again, if_pos again]
        rw [if_neg again, if_neg again]
        split
        · rfl
        · exact ih _ _ _ _ ((same.drop count).drop 1)
    · rw [if_neg room, if_neg room, same.head finished]
      split
      · rfl
      · exact ih _ _ _ _ (same.drop 1)

/-- Nor does the fully buffered loop, as long as there is room: behind a flush
there is room again. -/
theorem fwriteFull (fuel : Nat) :
    ∀ (s total written : Nat) (file : Iob Medium), SameBytes ptr other s total ->
      WriteStream file -> file.bufferWriteBytes < file.bufferSize ->
      Iob.fwriteFull other fuel s total written file =
        Iob.fwriteFull ptr fuel s total written file := by
  induction fuel with
  | zero =>
    intro s total written file same stream room
    rfl
  | succ fuel ih =>
    intro s total written file same stream room
    unfold Iob.fwriteFull
    by_cases finished : total = 0
    · rw [if_pos finished, if_pos finished]
    rw [if_neg finished, if_neg finished, same.load (le_refl total), if_pos room, if_pos room]
    congr 1
    dsimp only
    generalize countEq : min (file.bufferSize - file.bufferWriteBytes).toNat total = count
    rw [same.load (by omega : count <= total)]
    have put := stream.putBytes (ptr.load s count) (by rw [Block.length_load]; omega)
    split
    · rfl
    · rename_i next flushed
      have ready := put.of_flushIfFull flushed
      by_cases last : total - count = 0
      · rw [if_pos last, if_pos last]
      rw [if_neg last, if_neg last, if_pos ready.2, if_pos ready.2]
      exact ih _ _ _ next (same.drop count) ready.1 ready.2

end SameBytes

/-! ## Blocks when no write fails -/

/--
A call to `fwrite` appends a block: it returns its length, what the stream
holds grows by it, and the same happens for any memory that has the same bytes
in the block, so that no other byte is looked at.
-/
def Iob.AppendsBlock (file : Iob Medium) (ptr : Block) (n : Nat) : Prop :=
  ∃ next, next.held = file.held ++ ptr.load 0 n /\
    ∀ other, SameBytes ptr other 0 n -> file.fwrite other 1 n = (some n, next)

namespace WriteStream

variable {file : Iob Medium}

theorem fwrite_congr (stream : WriteStream file) {ptr other : Block} {n : Nat}
    (fits : n < 2 ^ 32) (same : SameBytes ptr other 0 n)
    (ready : file.bufferMode = .line \/ file.bufferWriteBytes < file.bufferSize) :
    file.fwrite other 1 n = file.fwrite ptr 1 n := by
  have bytes : file.fwriteBytes other (2 * n + 2) n = file.fwriteBytes ptr (2 * n + 2) n := by
    unfold Iob.fwriteBytes
    rw [stream.outputMode]
    cases mode : file.bufferMode with
    | line => exact SameBytes.fwriteLine _ _ _ _ file same
    | full =>
      rw [mode] at ready
      exact SameBytes.fwriteFull _ _ _ _ file same stream (ready.resolve_left (by decide))
    | none => exact absurd mode stream.buffered
  rw [stream.fwrite_single other fits, stream.fwrite_single ptr fits, bytes]

theorem blockEnd_iff (stream : WriteStream file) (n : Nat) : (file.blockEnd n).reported = some n <->
      n = 0 \/ file.bufferMode = .line \/ file.bufferWriteBytes < file.bufferSize := by
  unfold Iob.blockEnd
  cases mode : file.bufferMode with
  | line => simp [Iob.FwriteEnd.reported]
  | none => exact absurd mode stream.buffered
  | full =>
    simp only [fullEnd, reduceCtorEq, false_or]
    split_ifs with ready large
    · simp only [Iob.FwriteEnd.reported, true_iff]
      exact ready.symm
    · simp only [Iob.FwriteEnd.reported, Option.some.injEq, Nat.add_eq_left, one_ne_zero, false_iff]
      exact fun either => ready either.symm
    · simp only [Iob.FwriteEnd.reported, reduceCtorEq, false_iff]
      exact fun either => ready either.symm

theorem blockSafe_of_reliable (reliable : file.device.outcomes = []) {data : List UInt8}
    (ready : file.bufferMode = .line \/ file.bufferWriteBytes < file.bufferSize) :
    file.blockSafe data := by
  unfold Iob.blockSafe
  rw [reliable]
  cases mode : file.bufferMode with
  | line => exact lineSafe_of_no_failure _ _ _
  | none => rfl
  | full =>
    rw [mode] at ready
    have room := ready.resolve_left (by decide)
    unfold fullSafe
    rw [if_pos room]
    simp [roomSafe, Medium.accepts]

theorem appendsBlock (stream : WriteStream file) (reliable : file.device.outcomes = [])
    (ptr : Block) {n : Nat} (fits : n < 2 ^ 32)
    (ready : file.bufferMode = .line \/ file.bufferWriteBytes < file.bufferSize) :
    file.AppendsBlock ptr n := by
  obtain ⟨stored, -, held, exact, complete⟩ := stream.fwriteBytes ptr n
  have reported := (stream.blockEnd_iff n).mpr (Or.inr ready)
  have same := exact.mpr (blockSafe_of_reliable reliable ready)
  rw [complete reliable, reported, Nat.zero_add, Option.some.injEq] at same
  subst same
  refine ⟨_, held, fun other sameBytes => ?_⟩
  rw [stream.fwrite_congr fits sameBytes ready, stream.fwrite_single ptr fits,
    complete reliable, reported]

end WriteStream

/--
Appending a block of any length, at any fill of the buffer, on a stream whose
writes all succeed: it fails exactly for a fully buffered stream whose buffer
is completely full.
-/
theorem fwrite_appends_block_iff {file : Iob Medium} (stream : WriteStream file)
    (reliable : file.device.outcomes = []) (ptr : Block) (n : Nat) (fits : n < 2 ^ 32) :
    file.AppendsBlock ptr n <->
      n = 0 \/ file.bufferMode = .line \/ file.bufferWriteBytes < file.bufferSize := by
  constructor
  · intro appends
    obtain ⟨next, -, call⟩ := appends
    have returned := congrArg Prod.fst (call ptr (fun _ _ _ => rfl))
    obtain ⟨stored, -, -, -, complete⟩ := stream.fwriteBytes ptr n
    rw [stream.fwrite_single ptr fits] at returned
    rw [complete reliable] at returned
    exact (stream.blockEnd_iff n).mp returned
  · rintro (nothing | ready)
    · subst nothing
      refine ⟨file, by simp, fun other _ => ?_⟩
      unfold Iob.fwrite
      rw [if_neg (by simp [stream.inUse, stream.canWrite]), if_neg (by simp)]
    · exact stream.appendsBlock reliable ptr fits ready

/-- A stream open for writing, with `pending` bytes in its buffer. -/
def writeStream (mode : BufferMode) (bufferSize : Nat) (pending : List UInt8)
    (device : Medium) : Iob Medium where
  bufferMode := mode
  eofReached := false
  canRead := false
  canWrite := true
  inUse := true
  error := false
  noNul := true
  littleEndian := false
  buffer := Block.store (fun _ => 0) 0 pending
  bufferSize := bufferSize
  bufferPosition := 0
  bufferReadBytes := 0
  bufferWriteBytes := pending.length
  interactive := false
  descriptorLittleEndian := false
  errno := none
  device := device

theorem writeStream_ready {mode : BufferMode} {bufferSize : Nat} {pending : List UInt8}
    {device : Medium} (buffered : mode ≠ .none) (sizePos : 0 < bufferSize)
    (fits : pending.length <= bufferSize) :
    WriteStream (writeStream mode bufferSize pending device) where
  inUse := rfl
  canWrite := rfl
  buffered := buffered
  noWindow := rfl
  sizePos := Int.natCast_pos.mpr sizePos
  pendingNonneg := Int.natCast_nonneg _
  pendingLe := Int.ofNat_le.mpr fits

def memory (bytes : List UInt8) : Block :=
  Block.store (fun _ => 0) 0 bytes

theorem fwrite_appends_block_with_room :
    (writeStream .full 4 [1, 2] ⟨[], []⟩).AppendsBlock (memory [3, 4, 5]) 3 :=
  (fwrite_appends_block_iff (writeStream_ready (by decide) (by decide) (by decide)) rfl _ 3
    (by decide)).mpr (.inr (.inr (by decide)))

/-- Behind two pending bytes that fill the buffer, one byte to write becomes
two, and the second is read behind the block. -/
theorem fwrite_full_buffer_reads_behind_block :
    ((writeStream .full 2 [1, 2] ⟨[], []⟩).fwrite (memory [3, 4]) 1 1).1 = some 2 /\
      ((writeStream .full 2 [1, 2] ⟨[], []⟩).fwrite (memory [3, 4]) 1 1).2.held = [1, 2, 3, 4] := by
  decide

/-! ## Calls and what they accepted -/

/-- A call that puts bytes into the stream. -/
inductive OutputCall
  | fputc (c : Int)
  | fwrite (ptr : Block) (n : UInt32)

/-- A stream, and the bytes its calls reported as accepted. -/
structure Ledger where
  file : Iob Medium
  accepted : List UInt8

namespace Ledger

/-- One call.  A call to `fwrite` that does not return has no successor. -/
def step (ledger : Ledger) : OutputCall -> Option Ledger
  | .fputc c =>
    some ⟨(ledger.file.fputc c).2, ledger.accepted ++ (ledger.file.fputc c).1.toList⟩
  | .fwrite ptr n =>
    (ledger.file.fwrite ptr 1 n.toNat).1.map fun count =>
      ⟨(ledger.file.fwrite ptr 1 n.toNat).2, ledger.accepted ++ ptr.load 0 count⟩

/-- The file content followed by the pending bytes is what was accepted. -/
def Balanced (ledger : Ledger) : Prop :=
  ledger.file.device.taken ++ ledger.file.pending = ledger.accepted

/-- A call whose failing flush, if there is one, does no harm. -/
def Harmless (ledger : Ledger) : OutputCall -> Prop
  | .fputc _ => True
  | .fwrite ptr n => ledger.file.blockSafe (ptr.load 0 n.toNat)

instance (ledger : Ledger) (call : OutputCall) : Decidable (ledger.Harmless call) :=
  match call with
  | .fputc _ => inferInstanceAs (Decidable True)
  | .fwrite ptr n =>
    inferInstanceAs (Decidable (ledger.file.blockSafe (ptr.load 0 n.toNat)))

variable {ledger : Ledger}

section

variable (stream : WriteStream ledger.file)
include stream

/-- The stream stays a stream that only writes. -/
theorem writeStream_step {call : OutputCall} {next : Ledger}
    (stepped : ledger.step call = some next) : WriteStream next.file := by
  cases call with
  | fputc c =>
    obtain ⟨result, file, put, after, -⟩ := stream.fputc c
    cases stepped
    rw [put]
    exact after
  | fwrite ptr n =>
    obtain ⟨stored, after, -, -, -⟩ := stream.fwriteBytes ptr n.toNat
    obtain ⟨count, -, rfl⟩ := Option.map_eq_some_iff.mp stepped
    rw [stream.fwrite_single ptr n.toNat_lt]
    exact after

theorem balanced_fwrite_iff (balanced : ledger.Balanced) (ptr : Block) (n : UInt32) :
    (∃ next, ledger.step (.fwrite ptr n) = some next /\ next.Balanced) <->
      ledger.file.blockSafe (ptr.load 0 n.toNat) := by
  obtain ⟨stored, -, held, exact, -⟩ := stream.fwriteBytes ptr n.toNat
  have call := stream.fwrite_single ptr n.toNat_lt
  generalize ledger.file.fwriteBytes ptr (2 * n.toNat + 2) n.toNat = result at held exact call
  rw [Nat.zero_add] at exact
  rw [<- exact]
  constructor
  · rintro ⟨next, stepped, nextBalanced⟩
    simp only [step, call, Option.map_eq_some_iff] at stepped
    obtain ⟨count, reported, rfl⟩ := stepped
    -- Both sides extend what was held before, so the two loads are of one length.
    have both : ledger.accepted ++ ptr.load 0 stored = ledger.accepted ++ ptr.load 0 count :=
      calc
        _ = ledger.file.held ++ ptr.load 0 stored := by rw [<- balanced]; rfl
        _ = result.2.held := held.symm
        _ = _ := nextBalanced
    have lengths := congrArg List.length (List.append_cancel_left both)
    rw [Block.length_load, Block.length_load] at lengths
    rw [reported, lengths]
  · intro reported
    refine ⟨⟨result.2, ledger.accepted ++ ptr.load 0 stored⟩, ?_, ?_⟩
    · simp only [step, call, reported, Option.map_some]
    · rw [<- balanced]
      exact held

theorem balanced_step_iff (balanced : ledger.Balanced) (call : OutputCall) :
    (∃ next, ledger.step call = some next /\ next.Balanced) <-> ledger.Harmless call := by
  cases call with
  | fputc c =>
    obtain ⟨result, file, put, -, held⟩ := stream.fputc c
    refine iff_of_true ⟨_, rfl, ?_⟩ trivial
    rw [put, <- balanced]
    exact held
  | fwrite ptr n => exact balanced_fwrite_iff stream balanced ptr n

end

end Ledger

/--
Over every run of harmless calls the file content followed by the pending bytes
is what the calls reported as accepted, and in each state reached a call keeps
it so exactly if it is harmless.
-/
theorem output_accounts_for_accepted_bytes {start : Ledger} (stream : WriteStream start.file)
    (balanced : start.Balanced) (calls : List OutputCall)
    (harmless : AllowedRun Ledger.step Ledger.Harmless start calls) (count : Nat) :
    ∃ reached, run Ledger.step start (calls.take count) = some reached /\ reached.Balanced /\
      ∀ call, (∃ next, reached.step call = some next /\ next.Balanced) <->
        reached.Harmless call := by
  have keeps : ∀ (ledger : Ledger) (call : OutputCall),
      WriteStream ledger.file /\ ledger.Balanced -> ledger.Harmless call ->
      ∃ next, ledger.step call = some next /\ (WriteStream next.file /\ next.Balanced) := by
    rintro ledger call ⟨before, even⟩ harmless
    obtain ⟨next, stepped, after⟩ := (Ledger.balanced_step_iff before even call).mpr harmless
    exact ⟨next, stepped, Ledger.writeStream_step before stepped, after⟩
  obtain ⟨reached, ran, after, even⟩ := run_invariant keeps ⟨stream, balanced⟩
    (harmless.take count)
  exact ⟨reached, ran, even, fun call => Ledger.balanced_step_iff after even call⟩

/-- A line buffered stream with a buffer of two bytes, whose first write fails. -/
def Ledger.fresh : Ledger :=
  ⟨writeStream .line 2 [] ⟨[], [false]⟩, []⟩

/-- The flush behind a line feed fails, and the next block is written. -/
theorem output_accounts_behind_failing_flush : ∃ reached, run Ledger.step Ledger.fresh
        ([OutputCall.fputc 10, .fwrite (memory [66, 10]) 2].take 2) = some reached /\
      reached.Balanced /\ reached.accepted = [66, 10] /\
      ∀ call, (∃ next, reached.step call = some next /\ next.Balanced) <->
        reached.Harmless call := by
  obtain ⟨reached, ran, balanced, further⟩ := output_accounts_for_accepted_bytes
    (writeStream_ready (by decide) (by decide) (by decide)) (show Ledger.fresh.Balanced from rfl)
    [.fputc 10, .fwrite (memory [66, 10]) 2]
    ⟨trivial, fun _ stepped => by
      cases stepped
      exact ⟨by decide, fun _ _ => trivial⟩⟩ 2
  have accepted := congrArg (Option.map Ledger.accepted) ran
  exact ⟨reached, ran, balanced, Option.some.inj (accepted.symm.trans (by decide)), further⟩

/-- The flush of the filled buffer fails: both bytes stay pending and none is
reported. -/
theorem fwrite_stores_unreported_bytes :
    ((writeStream .line 2 [] ⟨[], [false]⟩).fwrite (memory [66, 67]) 1 2).1 = some 0 /\
      ((writeStream .line 2 [] ⟨[], [false]⟩).fwrite (memory [66, 67]) 1 2).2.held = [66, 67] := by
  decide

end Clib4.Stdio
