import Clib4.Stdio.ShortReads
import Clib4.Stdio.Window

namespace Clib4.Stdio

open Foundation List

/-!
# Blocks against single bytes

`fread` of single bytes is compared with as many calls of `fgetc`.  On a
stream whose buffer holds nothing, a request at least as large as the buffer
is passed on to `read`, once: what that call does not deliver is not asked
for again, and the end of the file is noticed only if it delivers nothing.
Every other request ends as the calls of `fgetc` do, and a flush of the other
line buffered streams that fails ends both without a mark.
-/

namespace Iob

section

variable {δ : Type} [Action δ]

/-! ## Any device -/

theorem fread_one (ptr : Block) (n : Nat) (file : Iob δ) : file.fread ptr 1 n =
      (((file.freadInternal 1 n).1.1, ptr.store 0 (file.freadInternal 1 n).1.2),
        (file.freadInternal 1 n).2) := by
  have single : ∀ memory : Block, memory.store 0 (byteswap (memory.load 0 1)) = memory := by
    intro memory
    funext addr
    rw [byteswap, if_neg (by simp), Block.store_apply]
    split
    · rename_i nonneg
      by_cases start : addr = 0
      · subst start
        rfl
      · have behind : (memory.load 0 1)[(addr - 0).toNat]? = none := by
          rw [Block.getElem?_load, if_neg (by omega)]
        rw [behind]
        rfl
    · rfl
  unfold fread
  rcases file.freadInternal 1 n with ⟨⟨elements, stored⟩, next⟩
  dsimp only
  rw [single]
  split <;> rfl

theorem freadInternal_one {file : Iob δ} (inUse : file.inUse)
    (canRead : file.canRead) (buffered : file.bufferMode ≠ .none) {n : Nat}
    (pos : 0 < n) (fits : n < 2 ^ 32) :
    file.freadInternal 1 n =
      match file.settlement with
      | (none, device, pending) =>
        match freadLoop n n [] (file.clearerr.settledOn device pending) with
        | (⟨stored, true⟩, next) => ((0, stored), next)
        | (⟨stored, false⟩, next) => ((stored.length, stored), next)
      | (some code, device, _) => ((0, []), { file.clearerr with device := device }.fail code) := by
  rw [freadInternal_eq inUse canRead Nat.one_pos pos (by rw [Nat.one_mul]; exact fits)]
  rcases file.settlement with ⟨_ | code, device, pending⟩
  · have mode : (file.clearerr.settledOn device pending).bufferMode ≠ .none := buffered
    dsimp only
    rw [Nat.one_mul, freadBytes, if_neg mode]
    rcases freadLoop n n [] (file.clearerr.settledOn device pending) with ⟨⟨stored, _ | _⟩, next⟩
    · simp
    · rfl
  · rfl

end

/-! ## Files read in pieces -/

def written (file : Iob Source) : Source :=
  if file.writeBufferIsValid then
    { file.device with
      file := file.device.file.write (file.buffer.load 0 file.bufferWriteBytes.toNat) }
  else file.device

theorem settlement_eq (file : Iob Source) :
    ∃ pending, file.settlement = (none, file.written, pending) := by
  unfold settlement written
  by_cases valid : file.writeBufferIsValid
  · rw [if_pos valid, if_pos valid]
    exact ⟨0, rfl⟩
  · rw [if_neg valid, if_neg valid]
    exact ⟨file.bufferWriteBytes, rfl⟩

def handedOver (bytes : List UInt8) (n : Nat) (file : Iob Source) : List UInt8 :=
  if file.descriptorLittleEndian /\ bytes.length = n then byteswap bytes else bytes

theorem length_byteswap (bytes : List UInt8) : (byteswap bytes).length = bytes.length := by
  unfold byteswap
  split
  · exact length_reverse
  · rfl

theorem length_handedOver (bytes : List UInt8) (n : Nat) (file : Iob Source) :
    (file.handedOver bytes n).length = bytes.length := by
  unfold handedOver
  split
  · exact length_byteswap bytes
  · rfl

variable {file : Iob Source}

theorem freadDirect_failure {n : Nat} (pos : 0 < n)
    (failure : file.device.descriptorAllowance n = none) :
    ∃ next, file.freadDirect n = (none, next) /\ next.error := by
  unfold freadDirect
  by_cases readable : file.device.readable
  · rw [Source.descriptorAllowance, if_pos readable] at failure
    have answer : Action.read file.device n = _ := Source.read_of_failure failure
    rw [readDescriptor_eq readable, if_neg (Nat.ne_of_gt pos), answer]
    exact ⟨_, rfl, rfl⟩
  · have closed : Action.mayRead file.device = false := Bool.eq_false_iff.mpr readable
    rw [readDescriptor, if_pos closed]
    exact ⟨_, rfl, rfl⟩

theorem freadDirect_success {n count : Nat} (pos : 0 < n)
    (allowed : file.device.descriptorAllowance n = some count) :
    ∃ next, file.freadDirect n =
        (some (file.handedOver (file.device.file.rest.take count) n), next) /\
      next.device.file = (file.device.file.read count).2 /\
      next.bufferReadBytes = file.bufferReadBytes /\
      next.writeBufferIsValid = file.writeBufferIsValid /\ next.error = file.error /\
      next.eofReached = (file.eofReached || (file.device.file.rest.take count).isEmpty) := by
  obtain ⟨readable, allowed⟩ := Source.allowance_of_descriptor allowed
  have answer : Action.read file.device n = _ := Source.read_of_allowance allowed
  have described : file.readDescriptor n =
      (some (file.handedOver (file.device.file.rest.take count) n),
        { file with
          device := { file.device with
            file := (file.device.file.read count).2, answers := file.device.answers.tail }
          errno := none }) := by
    rw [readDescriptor_eq readable, if_neg (Nat.ne_of_gt pos), answer]
    rfl
  unfold freadDirect
  rw [described]
  dsimp only
  by_cases ended : file.device.file.rest.take count = []
  · have nothing : file.handedOver (file.device.file.rest.take count) n = [] := by
      rw [<- length_eq_zero_iff, length_handedOver, ended]
      rfl
    rw [if_pos nothing, ended]
    exact ⟨_, rfl, rfl, rfl, rfl, rfl, by simp⟩
  · have something : file.handedOver (file.device.file.rest.take count) n ≠ [] := by
      intro nothing
      rw [<- length_eq_zero_iff, length_handedOver, length_eq_zero_iff] at nothing
      exact ended nothing
    rw [if_neg something]
    exact ⟨_, rfl, rfl, rfl, rfl, rfl, by simp [ended]⟩

/-! ## The comparison -/

/-- `fread` of `n` bytes does what `n` calls of `fgetc` do. -/
def AsFgetc (file : Iob Source) (ptr : Block) (n : Nat) : Prop :=
  let block := file.fread ptr 1 n
  let bytes := file.fgetcs n
  block.1.1 = bytes.1.length /\ block.1.2 = ptr.store 0 bytes.1 /\ block.2.place = bytes.2.place

/-- Bytes that are missing without an error set the flag for the end of the
file. -/
def EndFlagged (file : Iob Source) (ptr : Block) (n : Nat) : Prop :=
  let block := file.fread ptr 1 n
  block.1.1 < n -> block.2.error = false -> block.2.eofReached

/-- A stream that can be read from passes the request on to the descriptor. -/
def PassesOn (file : Iob Source) (n : Nat) : Prop :=
  file.inUse /\ file.canRead /\ file.Bypasses n

/-- The descriptor delivers `n` bytes at once. -/
def DeliversAll (file : Iob Source) (n : Nat) : Prop :=
  file.written.descriptorAllowance n = some n /\ n <= file.written.file.rest.length

/-- A flush of the other line buffered streams fails before `n` bytes are handed out. -/
def Interrupted (file : Iob Source) (n : Nat) : Prop :=
  file.inUse /\ file.canRead /\
    ∃ k < n, served { file with device := file.written } = some k

def Unswapped (file : Iob Source) (n : Nat) : Prop :=
  file.descriptorLittleEndian ->
    byteswap (file.written.file.rest.take n) = file.written.file.rest.take n

/-- Reading byte by byte ends early at a flush that fails, without a mark, or with one. -/
theorem getcs_served (ready : file.Ready) (windowed : file.Windowed) (n : Nat) :
    (∃ k < n, file.served = some k /\ (file.getcs n).1.length = k /\
      (file.getcs n).2.error = file.error /\ (file.getcs n).2.eofReached = file.eofReached) \/
    ((∀ k, file.served = some k -> n <= k) /\ ((file.getcs n).1.length < n ->
      (file.getcs n).2.eofReached \/ (file.getcs n).2.error)) := by
  induction n generalizing file with
  | zero => exact Or.inr ⟨fun k _ => Nat.zero_le k, fun less => (Nat.not_lt_zero _ less).elim⟩
  | succ n ih =>
    rw [getcs]
    rcases got : file.getc with ⟨_ | c, next⟩
    · rcases served_of_none ready windowed got with ⟨zero, flags⟩ | ⟨none, marked⟩
      · exact Or.inl ⟨0, Nat.succ_pos n, zero, rfl, flags⟩
      · exact Or.inr ⟨fun k some => (by cases none.symm.trans some), fun _ => marked⟩
    · obtain ⟨served, error, eofReached⟩ := served_of_some ready windowed got
      have ready' := ready.getc
      have windowed' := windowed.getc ready.settled
      rw [got] at ready' windowed'
      rcases ih ready' windowed' with ⟨k, less, some, length, flags⟩ | ⟨reach, marked⟩
      · rw [some] at served
        refine Or.inl ⟨k + 1, Nat.succ_lt_succ less, served, congrArg (· + 1) length, ?_⟩
        exact ⟨flags.1.trans error, flags.2.trans eofReached⟩
      · refine Or.inr ⟨fun k some => ?_, fun less => marked (Nat.lt_of_succ_lt_succ less)⟩
        rw [some] at served
        obtain ⟨fewer, some', rfl⟩ := Option.map_eq_some_iff.mp served.symm
        exact Nat.succ_le_succ (reach fewer some')

section

variable {file : Iob Source} (inUse : file.inUse) (canRead : file.canRead)
  (buffered : file.bufferMode ≠ .none) {n : Nat} (pos : 0 < n) (fits : n < 2 ^ 32)

include inUse canRead buffered pos fits

theorem freadInternal_through (through : ¬ file.Bypasses n) :
    ∃ stream : Iob Source, stream.Ready /\ stream.window = file.window /\
      stream.error = false /\ stream.eofReached = false /\
      stream.served = served { file with device := file.written } /\ file.freadInternal 1 n =
        (((stream.getcs n).1.length, (stream.getcs n).1), (stream.getcs n).2) /\
      (file.fgetcs n).1 = (stream.getcs n).1 /\
      (file.fgetcs n).2.place = (stream.getcs n).2.place := by
  obtain ⟨pending, settled⟩ := file.settlement_eq
  have ready := @ready_of_settlement _ _ file.clearerr inUse canRead _ _ settled
  have flags := getcs_unflagged ready
    (show _ = (file.settledOn file.written pending).unflagged from rfl) n
  refine ⟨file.clearerr.settledOn file.written pending, ready, rfl, rfl, rfl, rfl, ?_, ?_⟩
  · have read := freadInternal_getcs inUse canRead buffered Nat.one_pos pos
      (by rw [Nat.one_mul]; exact fits) settled (by rw [Nat.one_mul]; exact through)
    simpa only [Nat.one_mul, Nat.div_one] using read
  · obtain ⟨m, rfl⟩ := Nat.exists_eq_succ_of_ne_zero (Nat.ne_of_gt pos)
    rw [fgetcs_succ inUse canRead, settled]
    exact ⟨flags.1.symm, (congrArg Iob.place flags.2).symm⟩

theorem freadInternal_past (bypass : file.Bypasses n) :
    (file.written.descriptorAllowance n = none /\ (file.freadInternal 1 n).1 = (0, []) /\
      (file.freadInternal 1 n).2.error) \/
    (∃ count, file.written.descriptorAllowance n = some count /\ (file.freadInternal 1 n).1 =
        ((file.written.file.rest.take count).length,
          file.handedOver (file.written.file.rest.take count) n) /\
      (file.freadInternal 1 n).2.place =
        file.written.file.position + (file.written.file.rest.take count).length /\
      (file.freadInternal 1 n).2.error = false /\
      (file.freadInternal 1 n).2.eofReached = (file.written.file.rest.take count).isEmpty) := by
  obtain ⟨pending, settled⟩ := file.settlement_eq
  have ready := @ready_of_settlement _ _ file.clearerr inUse canRead _ _ settled
  have bypass' : (file.clearerr.settledOn file.written pending).Bypasses n := bypass
  rw [freadInternal_one inUse canRead buffered pos fits, settled]
  dsimp only
  rw [freadLoop_bypass pos bypass']
  cases allowed : file.written.descriptorAllowance n with
  | none =>
    obtain ⟨next, direct, failed⟩ := @freadDirect_failure
      (file.clearerr.settledOn file.written pending) n pos allowed
    rw [direct]
    exact Or.inl ⟨rfl, rfl, failed⟩
  | some count =>
    obtain ⟨next, direct, device, readBytes, writes, error, eof⟩ := @freadDirect_success
      (file.clearerr.settledOn file.written pending) n count pos allowed
    rw [direct]
    refine Or.inr ⟨count, rfl, ?_, ?_, error, ?_⟩
    · dsimp only
      rw [length_handedOver]
      rfl
    · have noWindow : next.readBufferIsValid = false := by
        have none := readBytes.trans bypass.1
        simp [readBufferIsValid, none]
      have noOutput := writes.trans ready.settled
      simp only [place, streamPosition, noWindow, noOutput, Bool.false_eq_true, if_false]
      rw [device]
      simp [ByteFile.read, settledOn]
    · simpa [settledOn, clearerr] using eof

end

theorem written_reliable (reliable : file.device.Reliable) : file.written.Reliable := by
  unfold written
  split <;> exact reliable

/-- At the end of the file no byte comes, whatever becomes of the flush. -/
theorem getcs_of_end {array : ByteFile} (ahead : Ahead array file) (ended : array.rest = [])
    (n : Nat) : ∃ next, file.getcs n = ([], next) /\ Ahead array next := by
  cases n with
  | zero => exact ⟨file, rfl, ahead⟩
  | succ n =>
    rw [getcs]
    rcases ahead.getc with ⟨next, got, after, -⟩ | ⟨next, got, after, -⟩
    · rw [Plain.fgetc_of_nil ended] at got after
      rw [got]
      exact ⟨next, rfl, after⟩
    · rw [got]
      exact ⟨next, rfl, after⟩

/-- The calls of `fgetc` on a stream without a window, whose reads do not fail: they deliver
`n` bytes or all there are, but for a flush that fails. -/
theorem fgetcs_reliable (inUse : file.inUse)
    (canRead : file.canRead) {n : Nat} (pos : 0 < n) (sizePos : 0 < file.bufferSize)
    (windowed : file.Windowed) (bypass : file.Bypasses n) (reliable : file.device.Reliable) :
    (file.Interrupted n /\ (file.fgetcs n).1.length < n /\
      (file.written.file.rest = [] -> (file.fgetcs n).1 = [] /\
        (file.fgetcs n).2.place = file.written.file.position)) \/
    (¬ file.Interrupted n /\ (file.fgetcs n).1 = file.written.file.rest.take n /\
      (file.fgetcs n).2.place =
        file.written.file.position + (file.written.file.rest.take n).length) := by
  obtain ⟨pending, settled⟩ := file.settlement_eq
  have ready := ready_of_settlement inUse canRead settled
  have none := bypass.1
  have start := windowed.position_of_empty none
  have windowed' : (file.settledOn file.written pending).Windowed := windowed.of_window rfl
  have ahead : Ahead file.written.file (file.settledOn file.written pending) := by
    refine ⟨ready, sizePos, windowed', ?_, ?_⟩
    all_goals simp [settledOn, none, start]
  obtain ⟨m, rfl⟩ := Nat.exists_eq_succ_of_ne_zero (Nat.ne_of_gt pos)
  rw [fgetcs_succ inUse canRead, settled]
  dsimp only
  rcases getcs_served ready windowed' (m + 1) with ⟨k, less, some, length, -⟩ | ⟨reach, -⟩
  · refine Or.inl ⟨⟨inUse, canRead, k, less, some⟩, by rw [length]; exact less, fun nothing => ?_⟩
    obtain ⟨next, read, after⟩ := getcs_of_end ahead nothing (m + 1)
    rw [read]
    exact ⟨rfl, after.place_eq⟩
  · have free : ¬ file.Interrupted (m + 1) := by
      rintro ⟨-, -, k, less, some⟩
      exact Nat.not_le_of_lt less (reach k some)
    obtain ⟨next, read, after⟩ := Ahead.follows.getcs ahead ⟨written_reliable reliable, reach⟩
    rw [read]
    refine Or.inr ⟨free, rfl, ?_⟩
    rw [after.place_eq]
    simp

theorem freadInternal_unusable
    (unusable : ¬ (file.inUse /\ file.canRead)) (elementSize count : Nat) :
    file.freadInternal elementSize count = ((0, []), file.fail .EBADF) := by
  unfold freadInternal
  by_cases inUse : file.inUse
  · have canRead := Bool.eq_false_iff.mpr fun canRead => unusable ⟨inUse, canRead⟩
    simp [inUse, canRead]
  · simp [inUse]

/-- A request that goes through the buffer does what the calls of `fgetc` do, and its end is
flagged but for a flush that fails. -/
theorem asFgetc_of_not_passesOn (buffered : file.bufferMode ≠ .none) (windowed : file.Windowed)
    (ptr : Block) {n : Nat} (fits : n < 2 ^ 32) (kept : ¬ file.PassesOn n) :
    file.AsFgetc ptr n /\ (file.EndFlagged ptr n <-> ¬ file.Interrupted n) := by
  unfold AsFgetc EndFlagged
  rw [fread_one]
  dsimp only
  by_cases usable : file.inUse /\ file.canRead
  · rcases Nat.eq_zero_or_pos n with rfl | pos
    · have nothing : file.freadInternal 1 0 = ((0, []), file.clearerr) := by
        simp [freadInternal, usable]
      rw [nothing]
      refine ⟨⟨rfl, rfl, rfl⟩, iff_of_true (fun less => (Nat.not_lt_zero _ less).elim) ?_⟩
      rintro ⟨-, -, k, less, -⟩
      exact Nat.not_lt_zero _ less
    · have through : ¬ file.Bypasses n := fun bypass => kept ⟨usable.1, usable.2, bypass⟩
      obtain ⟨stream, ready, window, noError, noEnd, served, block, bytes, place⟩ :=
        freadInternal_through usable.1 usable.2 buffered pos fits through
      rw [block, bytes, place]
      refine ⟨⟨rfl, rfl, rfl⟩, ?_⟩
      rcases getcs_served ready (windowed.of_window window) n with
        ⟨k, less, some, length, error, eofReached⟩ | ⟨reach, marked⟩
      · refine iff_of_false (fun flagged => ?_) fun free => ?_
        · have ended := flagged (by rw [length]; exact less) (error.trans noError)
          rw [eofReached, noEnd] at ended
          cases ended
        · exact free ⟨usable.1, usable.2, k, less, served.symm.trans some⟩
      · refine iff_of_true (fun less clean => ?_) ?_
        · rcases marked less with ended | failed
          · exact ended
          · rw [failed] at clean
            cases clean
        · rintro ⟨-, -, k, less, some⟩
          exact Nat.not_le_of_lt less (reach k (served.trans some))
  · rw [freadInternal_unusable usable]
    refine ⟨?_, iff_of_true (fun _ noError => by cases noError) fun interrupted =>
      usable ⟨interrupted.1, interrupted.2.1⟩⟩
    cases n with
    | zero => exact ⟨rfl, rfl, rfl⟩
    | succ n =>
      rw [fgetcs_unusable usable]
      exact ⟨rfl, rfl, rfl⟩

theorem endFlagged_iff (buffered : file.bufferMode ≠ .none) (windowed : file.Windowed)
    (sizePos : 0 < file.bufferSize) (ptr : Block) {n : Nat} (fits : n < 2 ^ 32) :
    file.EndFlagged ptr n <->
      (file.PassesOn n -> file.written.descriptorAllowance n = none \/
        file.written.file.rest = [] \/ file.DeliversAll n) /\
      (¬ file.PassesOn n -> ¬ file.Interrupted n) := by
  by_cases passes : file.PassesOn n
  · obtain ⟨inUse, canRead, bypass⟩ := id passes
    have room := bypass.2
    have pos : 0 < n := by omega
    rw [and_iff_left (fun kept => (kept passes).elim), imp_iff_right passes]
    unfold EndFlagged DeliversAll
    rw [fread_one]
    dsimp only
    rcases freadInternal_past inUse canRead buffered pos fits bypass with
      ⟨failure, -, failed⟩ | ⟨count, allowed, block, -, noError, ended⟩
    · rw [failed, failure]
      exact ⟨fun _ => Or.inl rfl, fun _ _ noError => by cases noError⟩
    · have bound := Source.allowance_le (Source.allowance_of_descriptor allowed).2
      have some := Source.allowance_pos pos (Source.allowance_of_descriptor allowed).2
      rw [block, noError, ended, allowed, List.isEmpty_iff, length_take]
      constructor
      · intro flagged
        by_cases all : n <= min count file.written.file.rest.length
        · have same : count = n := by omega
          exact Or.inr (Or.inr ⟨by rw [same], by omega⟩)
        · have nothing := flagged (by omega) rfl
          have zero : (file.written.file.rest.take count).length = 0 := by rw [nothing]; rfl
          rw [length_take] at zero
          exact Or.inr (Or.inl (length_eq_zero_iff.mp (by omega)))
      · intro cases less _
        rcases cases with failure | nothing | ⟨all, enough⟩
        · cases failure
        · rw [nothing, take_nil]
        · cases all
          omega
  · rw [(asFgetc_of_not_passesOn buffered windowed ptr fits passes).2,
      and_iff_right (fun passes' => (passes passes').elim), imp_iff_right passes]

/-- The memory tells which bytes were stored. -/
theorem store_eq_iff {ptr : Block} {first second : List UInt8} (same : first.length = second.length) :
    ptr.store 0 first = ptr.store 0 second <-> first = second := by
  refine ⟨fun memory => ?_, fun equal => by rw [equal]⟩
  have loaded := congrArg (fun block : Block => block.load 0 first.length) memory
  have left := Block.load_store_same ptr 0 first
  have right := Block.load_store_same ptr 0 second
  rw [<- same] at right
  exact left.symm.trans (loaded.trans right)

/--
On a fully or line buffered stream in any state, and for any pattern of short
reads: `fread` of `n` bytes does what `n` calls of `fgetc` do, and flags the
end of the file, exactly if it goes through the buffer and no flush of the
other line buffered streams fails meanwhile, or nothing is left to read, or the
descriptor delivers all of it at once and in order, where `fgetc` would meet no
flush that fails.  If reads may fail, too, the flag is right exactly if it goes
through the buffer and no flush fails, or the read fails, or nothing is left,
or all of it is delivered at once.
-/
theorem fread_as_fgetc_iff {file : Iob Source} (buffered : file.bufferMode ≠ .none)
    (sizePos : 0 < file.bufferSize) (windowed : file.Windowed) (ptr : Block) {n : Nat}
    (fits : n < 2 ^ 32) :
    (file.device.Reliable -> (file.AsFgetc ptr n /\ file.EndFlagged ptr n <->
        (file.PassesOn n -> file.written.file.rest = [] \/
          (file.DeliversAll n /\ file.Unswapped n /\ ¬ file.Interrupted n)) /\
        (¬ file.PassesOn n -> ¬ file.Interrupted n))) /\
    (file.EndFlagged ptr n <->
      (file.PassesOn n -> file.written.descriptorAllowance n = none \/
        file.written.file.rest = [] \/ file.DeliversAll n) /\
      (¬ file.PassesOn n -> ¬ file.Interrupted n)) := by
  refine ⟨fun reliable => ?_, endFlagged_iff buffered windowed sizePos ptr fits⟩
  by_cases passes : file.PassesOn n
  · obtain ⟨inUse, canRead, bypass⟩ := id passes
    have room := bypass.2
    have pos : 0 < n := by omega
    have reliable' := written_reliable reliable
    obtain ⟨count, allowed⟩ := Source.allowance_isSome reliable' n
    have allowed' : file.written.descriptorAllowance n = some count :=
      (if_pos reliable'.1).trans allowed
    have through : (¬ file.PassesOn n -> ¬ file.Interrupted n) = True :=
      eq_true fun kept => (kept passes).elim
    rw [endFlagged_iff buffered windowed sizePos ptr fits, through, and_true, and_true,
      imp_iff_right passes, imp_iff_right passes]
    unfold AsFgetc
    dsimp only
    rw [fread_one]
    rcases freadInternal_past inUse canRead buffered pos fits bypass with
      ⟨failure, -, -⟩ | ⟨count', again, block, place, -, -⟩
    · cases failure.symm.trans allowed'
    cases again.symm.trans allowed'
    rw [block, place, allowed']
    have empty := length_eq_zero_iff.mp (length_handedOver [] n file)
    rcases fgetcs_reliable inUse canRead pos sizePos windowed bypass reliable with
      ⟨interrupted, less, atEnd⟩ | ⟨free, bytes, place'⟩
    · constructor
      · rintro ⟨⟨lengths, -, -⟩, failure | nothing | ⟨same, enough⟩⟩
        · cases failure
        · exact Or.inl nothing
        · cases allowed'.symm.trans same
          rw [length_take] at lengths
          dsimp only at lengths
          omega
      · rintro (nothing | ⟨-, -, free⟩)
        · obtain ⟨none, here⟩ := atEnd nothing
          rw [nothing, take_nil, empty, none, here]
          exact ⟨⟨rfl, rfl, by simp⟩, Or.inr (Or.inl rfl)⟩
        · exact (free interrupted).elim
    · rw [bytes, place']
      constructor
      · rintro ⟨⟨-, memory, -⟩, failure | nothing | ⟨same, enough⟩⟩
        · cases failure
        · exact Or.inl nothing
        · cases allowed'.symm.trans same
          refine Or.inr ⟨⟨allowed', enough⟩, fun swapped => ?_, free⟩
          have whole : (file.written.file.rest.take n).length = n := by
            rw [length_take]
            omega
          rw [store_eq_iff (length_handedOver _ _ _)] at memory
          exact (if_pos ⟨swapped, whole⟩).symm.trans memory
      · rintro (nothing | ⟨⟨same, enough⟩, unswapped, -⟩)
        · rw [nothing, take_nil, take_nil, empty]
          exact ⟨⟨rfl, rfl, rfl⟩, Or.inr (Or.inl rfl)⟩
        · cases allowed'.symm.trans same
          have ordered : file.handedOver (file.written.file.rest.take n) n =
              file.written.file.rest.take n := by
            unfold handedOver
            split
            · rename_i swapped
              exact unswapped swapped.1
            · rfl
          rw [ordered]
          exact ⟨⟨rfl, rfl, rfl⟩, Or.inr (Or.inr ⟨same, enough⟩)⟩
  · obtain ⟨same, flagged⟩ := asFgetc_of_not_passesOn buffered windowed ptr fits passes
    rw [and_iff_right same, flagged, and_iff_right (fun passes' => (passes passes').elim),
      imp_iff_right passes]

end Iob

/-- Three bytes through a buffer of four, in pieces, each behind a flush of the other
streams. -/
theorem fread_as_fgetc_in_pieces :
    let file := openSource .line 4 (fun _ => 0)
      ⟨⟨[1, 2, 3, 4, 5], 0, false⟩, [some 0, some 0], [true, true, true, false], true⟩
    file.AsFgetc (fun _ => 0) 3 /\ file.EndFlagged (fun _ => 0) 3 := by
  intro file
  refine ((@Iob.fread_as_fgetc_iff file (by decide) (by decide)
    ⟨by decide, by decide, fun _ => rfl⟩ (fun _ => 0) 3 (by decide)).1
    ⟨rfl, by decide⟩).mpr ⟨?_, fun _ => ?_⟩
  · rintro ⟨-, -, bypass⟩
    exact absurd bypass (by decide)
  · rintro ⟨-, -, k, less, some⟩
    have served : Iob.served { file with device := file.written } = Option.some 5 := by decide
    cases served.symm.trans some
    exact absurd less (by decide)

/-- Past a buffer of two bytes: three bytes are asked for, one comes, and that
is all; nor is the end of a file of two bytes noticed.  Through a buffer of four
bytes: the flush in front of the second read fails, and two bytes are returned
with neither flag set. -/
theorem fread_stops_at_short_read :
    let short := openSource .full 2 (fun _ => 0) ⟨⟨[1, 2, 3, 4], 0, false⟩, [some 0], [], true⟩
    let ending := openSource .full 2 (fun _ => 0) ⟨⟨[1, 2], 0, false⟩, [], [], true⟩
    let flushing := openSource .line 4 (fun _ => 0)
      ⟨⟨[1, 2, 3, 4], 0, false⟩, [some 1], [true, false], true⟩
    (short.fread (fun _ => 0) 1 3).1.1 = 1 /\ (short.fgetcs 3).1 = [1, 2, 3] /\
      (short.fread (fun _ => 0) 1 3).2.eofReached = false /\
      (ending.fread (fun _ => 0) 1 3).1.1 = 2 /\
      (ending.fread (fun _ => 0) 1 3).2.error = false /\
      (ending.fread (fun _ => 0) 1 3).2.eofReached = false /\
      (flushing.fread (fun _ => 0) 1 3).1.1 = 2 /\
      (flushing.fread (fun _ => 0) 1 3).2.error = false /\
      (flushing.fread (fun _ => 0) 1 3).2.eofReached = false := by
  decide

end Clib4.Stdio
