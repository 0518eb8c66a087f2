import Clib4.Stdio.Refinement

namespace Clib4.Stdio

open Foundation

/-!
# Blocks written after a seek

`fwrite` does not call `__fputc_check`: it starts writing where the
descriptor stands.  After input and a seek that stayed within the read
buffer, that is the end of the window and not the position of the stream.
What follows says exactly when the two coincide, and that the calls which do
check (`fputc` here) always write at the position of the stream.
-/

def Call.isRead : Call -> Bool
  | .fgetc | .fgets _ | .fread _ _ _ => true
  | _ => false

namespace Reads

theorem call {array : ByteFile} {file : Iob ByteFile} (reads : Reads array file) (call : Call)
    (isRead : call.isRead) (possible : Possible array call) :
    Reads (Plain.call array call).2 (file.call call).2 := by
  have sim : Simulates array file := .inl reads
  cases call with
  | fgetc =>
    rcases sim.fgetc with ⟨next, got, after, quiet⟩
    simp only [Iob.call, Plain.call, got]
    exact after.reads (quiet reads.noWrites)
  | fgets n =>
    rcases sim.fgets n with ⟨next, got, after, quiet⟩
    simp only [Iob.call, Plain.call, got]
    exact after.reads (quiet reads.noWrites)
  | fread ptr elementSize count =>
    rcases sim.fread ptr elementSize count possible with ⟨next, got, after, quiet⟩
    simp only [Iob.call, Plain.call, got]
    exact after.reads (quiet reads.noWrites)
  | fputc c | fputs s | fseek offset wherefrom | ftell | fflush => simp [Call.isRead] at isRead

theorem run : ∀ (calls : List Call) (array : ByteFile) (file : Iob ByteFile),
    Reads array file -> (∀ call, call ∈ calls -> call.isRead) ->
    AllPossible array calls -> Reads (Plain.run array calls).2 (file.run calls).2 := by
  intro calls
  induction calls with
  | nil =>
    intro array file reads _ _
    exact reads
  | cons head rest ih =>
    intro array file reads areReads possible
    have after := reads.call head (areReads head List.mem_cons_self) possible.1
    exact ih _ _ after (fun call mem => areReads call (List.mem_cons_of_mem _ mem))
      possible.2

theorem device_position {array : ByteFile} {file : Iob ByteFile} (reads : Reads array file) :
    (file.device.position : Int) = array.position + file.numUnreadBytes := by
  have ordered := reads.positionLe
  rw [reads.numUnreadBytes, reads.device, ByteFile.advance_position]
  omega

end Reads

/-! ## Where `fwrite` writes -/

namespace Pending

variable {array : ByteFile} {readBytes position : Int} {file : Iob ByteFile}

theorem fwrite (pending : Pending array readBytes position file)
    (empty : file.bufferWriteBytes = 0) (ptr : Block) {elementSize count : Nat}
    (size : 0 < elementSize) (pos : 0 < count) (fits : elementSize * count < 2 ^ 32) :
    ∃ next, file.fwrite ptr elementSize count = (some count, next) /\
      Pending (array.write (ptr.load 0 (elementSize * count))) readBytes position next := by
  have exact : Iob.sizeT (elementSize * count) = elementSize * count := Nat.mod_eq_of_lt fits
  rcases pending.fwriteBytes empty ptr (2 * (elementSize * count) + 2) (elementSize * count)
    (by omega) with ⟨next, written, after⟩
  refine ⟨next, ?_, after⟩
  unfold Iob.fwrite
  rw [if_neg (by simp [pending.healthy.inUse, pending.healthy.canWrite]), if_pos ⟨size, pos⟩]
  simp only [exact]
  rw [if_neg (by rw [Nat.mul_div_cancel _ pos]; simp), written]
  simp only [Nat.mul_div_cancel_left _ size]

theorem fflush_device (pending : Pending array readBytes position file) :
    file.fflush.2.device = array := by
  unfold Iob.fflush
  by_cases valid : file.writeBufferIsValid
  · rw [if_pos valid, pending.flushIobWriteBuffer]
    rfl
  · rw [if_neg valid]
    have := pending.pendingNonneg
    simp only [Iob.writeBufferIsValid, decide_eq_true_eq] at valid
    exact pending.device_of_no_pending (by omega)

end Pending

variable {file : Iob ByteFile}

theorem fwrite_at_descriptor (healthy : Healthy file)
    (empty : file.bufferWriteBytes = 0) (ptr : Block) {elementSize count : Nat}
    (size : 0 < elementSize) (pos : 0 < count) (fits : elementSize * count < 2 ^ 32) :
    (file.fwrite ptr elementSize count).1 = some count /\
      (file.fwrite ptr elementSize count).2.fflush.2.device.content =
        overwrite file.device.content file.device.position
          (ptr.load 0 (elementSize * count)) := by
  have pending := Pending.of_device healthy rfl rfl empty rfl
  rcases pending.fwrite empty ptr size pos fits with ⟨next, written, after⟩
  rw [written]
  refine ⟨rfl, ?_⟩
  rw [after.fflush_device]
  rfl

/-! ## Where a seek leaves the descriptor -/

namespace Reads

variable {array : ByteFile} {file : Iob ByteFile} {wherefrom : Whence} {offset : Int}

theorem fseek (reads : Reads array file) (upper : offset <= longMax)
    (inRange : SeekInRange array file offset wherefrom) :
    ∃ next, file.fseek offset wherefrom.toInt = (true, next) /\
      Reads (array.seek offset wherefrom.origin) next := by
  have sim : Simulates array file := .inl reads
  rcases sim.fseekWhence wherefrom upper inRange with ⟨next, moved, after, quiet⟩
  refine ⟨next, ?_, after.reads (quiet reads.noWrites)⟩
  unfold Iob.fseek
  rw [if_neg (by simp [reads.healthy.inUse]), Whence.ofInt_toInt]
  exact moved

/-- A relative seek by `LONG_MIN` passes for one within the buffer, because
its negation is `LONG_MIN` again. -/
theorem seekBuffered_longMin (reads : Reads array file)
    (valid : file.readBufferIsValid) :
    file.seekBuffered longMin .cur = (true, { file with
      eofReached := false, bufferPosition := file.bufferPosition + longMin }) := by
  have negated : toLong (-longMin) = longMin := by decide
  have nonneg := reads.positionNonneg
  have stays : Iob.staysInBuffer longMin .cur { file with eofReached := false } := by
    refine ⟨rfl, valid, .inl ⟨by decide, ?_⟩⟩
    rw [negated]
    unfold longMin
    dsimp only
    omega
  unfold Iob.seekBuffered
  rw [if_pos (.inr (by decide)), if_pos stays]

theorem fseek_out_of_range (reads : Reads array file) (lower : longMin <= offset)
    (outOfRange : ¬SeekInRange array file offset wherefrom) :
    ∃ next, file.fseek offset wherefrom.toInt = (true, next) /\ Healthy next /\
      next.bufferWriteBytes = 0 /\
      array.target offset wherefrom.origin < next.device.position := by
  have sim : Simulates array file := .inl reads
  have ahead : (array.position : Int) <= file.device.position := by
    rw [reads.device, ByteFile.advance_position]
    omega
  have below : longMin < 0 := by decide
  unfold Iob.fseek
  rw [if_neg (by simp [reads.healthy.inUse]), Whence.ofInt_toInt]
  dsimp only
  unfold SeekInRange at outOfRange
  rw [Classical.not_imp] at outOfRange
  rcases outOfRange with ⟨valid, far⟩
  cases wherefrom with
  | set =>
    rw [not_or] at far
    rw [sim.fseekWhence_set_of_valid offset valid far.1]
    by_cases extreme : relativeOffset array offset = longMin
    · rw [extreme, reads.seekBuffered_longMin valid]
      refine ⟨_, rfl, reads.healthy, reads.noWrites, ?_⟩
      simp only [ByteFile.target, Whence.origin]
      omega
    · have wrapped : longMin < relativeOffset array offset :=
        lt_of_le_of_ne (longMin_le_toLong _) (Ne.symm extreme)
      have upper : relativeOffset array offset <= longMax := toLong_le_longMax _
      rcases sim.seekBuffered .cur upper (fun _ _ => wrapped) with
        ⟨next, moved, after, quiet⟩
      have nextReads := after.reads (quiet reads.noWrites)
      refine ⟨next, moved, nextReads.healthy, nextReads.noWrites, ?_⟩
      rw [nextReads.device, ByteFile.advance_position]
      simp only [ByteFile.seek, ByteFile.moveTo_position, ByteFile.target, Whence.origin]
      omega
  | cur =>
    have extreme := le_antisymm (not_lt.mp far) lower
    rw [sim.fseekWhence_other offset .cur (by simp), extreme,
      reads.seekBuffered_longMin valid]
    refine ⟨_, rfl, reads.healthy, reads.noWrites, ?_⟩
    simp only [ByteFile.target, Whence.origin]
    omega
  | fromEnd => exact absurd trivial far

end Reads

/-! ## Blocks at the position of the stream -/

/-- `fwrite` and a flush put every block at the position of `array`, and
change nothing else of it. -/
def WritesBlocksAt (array : ByteFile) (file : Iob ByteFile) : Prop :=
  ∀ (ptr : Block) (elementSize count : Nat), 0 < elementSize -> 0 < count ->
    elementSize * count < 2 ^ 32 ->
    (file.fwrite ptr elementSize count).1 = some count /\
      (file.fwrite ptr elementSize count).2.fflush.2.device.content =
        overwrite array.content array.position (ptr.load 0 (elementSize * count))

variable {array : ByteFile}

theorem WritesBlocksAt.position_eq (blocks : WritesBlocksAt array file) (healthy : Healthy file)
    (empty : file.bufferWriteBytes = 0) : file.device.position = array.position := by
  apply @position_eq_of_overwrite file.device.content array.content
  intro c
  have one : Block.load (fun _ => c) 0 (1 * 1) = [c] := rfl
  have written := (fwrite_at_descriptor healthy empty (fun _ => c) Nat.one_pos Nat.one_pos
    (by norm_num)).2
  have expected := (blocks (fun _ => c) 1 1 Nat.one_pos Nat.one_pos (by norm_num)).2
  exact written.symm.trans expected

/-- After a seek, blocks are written at its target exactly if it stayed in
range and left no unread bytes. -/
theorem Reads.writesBlocksAt_iff {offset : Int} {wherefrom : Whence} (reads : Reads array file)
    (possible : Possible array (.fseek offset wherefrom)) :
    WritesBlocksAt (array.seek offset wherefrom.origin)
        (file.fseek offset wherefrom.toInt).2 <->
      SeekInRange array file offset wherefrom /\
        (file.fseek offset wherefrom.toInt).2.numUnreadBytes = 0 := by
  rcases possible with ⟨lower, upper, target⟩
  by_cases inRange : SeekInRange array file offset wherefrom
  · rcases reads.fseek upper inRange with ⟨next, moved, nextReads⟩
    have ahead := nextReads.device_position
    rw [moved]
    constructor
    · intro blocks
      have same := blocks.position_eq nextReads.healthy nextReads.noWrites
      dsimp only at same ⊢
      exact ⟨inRange, by omega⟩
    · rintro ⟨-, noUnread⟩ ptr elementSize count size pos fits
      have device : next.device = array.seek offset wherefrom.origin := by
        have none := nextReads.numUnreadBytes.symm.trans noUnread
        rw [nextReads.device, none]
        rfl
      rw [<- device]
      exact fwrite_at_descriptor nextReads.healthy nextReads.noWrites ptr size pos fits
  · rcases reads.fseek_out_of_range lower inRange with ⟨next, moved, healthy, empty, behind⟩
    rw [moved]
    constructor
    · intro blocks
      have same := blocks.position_eq healthy empty
      simp only [ByteFile.seek, ByteFile.moveTo_position] at same
      omega
    · rintro ⟨within, -⟩
      exact absurd within inRange

/-- Bytes put one by one go to the position of the stream. -/
theorem Simulates.fputc_run (sim : Simulates array file) (data : List UInt8) :
    (file.run (data.map fun c => .fputc c.toNat)).2.fflush.2.device.content =
      overwrite array.content array.position data := by
  have written : ∀ (data : List UInt8) (array : ByteFile),
      (Plain.run array (data.map fun c => .fputc c.toNat)).2 = array.write data /\
      AllPossible array (data.map fun c => .fputc c.toNat) := by
    intro data
    induction data with
    | nil =>
      intro array
      exact ⟨by simp [Plain.run], trivial⟩
    | cons c rest ih =>
      intro array
      have step : (Plain.call array (.fputc c.toNat)).2 = array.write [c] := by
        simp [Plain.call, Plain.fputc, clip_toNat]
      rcases ih (array.write [c]) with ⟨after, possible⟩
      simp only [List.map_cons, Plain.run, AllPossible, step]
      exact ⟨by rw [after, write_head_tail], trivial, possible⟩
  have inRange : ∀ (data : List UInt8) (array : ByteFile) (file : Iob ByteFile),
      AllInRange array file (data.map fun c => .fputc c.toNat) := by
    intro data
    induction data with
    | nil => intro array file; trivial
    | cons c rest ih => intro array file; exact ⟨trivial, ih _ _⟩
  rcases written data array with ⟨result, possible⟩
  have final := (Simulates.run _ array file sim possible (inRange data array file)).2
  rw [result] at final
  rcases final.fflush with ⟨flushed, flush, -, same⟩
  rw [flush]
  exact same

/--
After any reads and a seek, `fwrite` puts its block at the target of the seek
exactly if the seek was in range and the read buffer has no unread bytes
left; otherwise it writes at the end of the window.  Bytes written by `fputc`
go to the target whenever the seek was in range.
-/
theorem fwrite_after_seek_iff {mode : BufferMode} (buffered : mode ≠ .none) {bufferSize : Nat}
    (pos : 0 < bufferSize) (buffer : Block) (start : ByteFile) (calls : List Call)
    (areReads : ∀ call, call ∈ calls -> call.isRead)
    (possible : AllPossible start calls) (offset : Int) (wherefrom : Whence)
    (seekPossible : Possible (Plain.run start calls).2 (.fseek offset wherefrom)) :
    let array := (Plain.run start calls).2
    let file := ((openStream mode bufferSize buffer start).run calls).2
    let target := array.seek offset wherefrom.origin
    let sought := (file.fseek offset wherefrom.toInt).2
    (WritesBlocksAt target sought <->
      SeekInRange array file offset wherefrom /\ sought.numUnreadBytes = 0) /\
    (SeekInRange array file offset wherefrom -> ∀ data : List UInt8,
      (sought.run (data.map fun c => .fputc c.toNat)).2.fflush.2.device.content =
        overwrite target.content target.position data) := by
  intro array file target sought
  have opened := simulates_openStream buffered pos buffer start
  have reads := Reads.run calls _ _ (opened.reads rfl) areReads possible
  refine ⟨reads.writesBlocksAt_iff seekPossible, ?_⟩
  intro inRange data
  rcases reads.fseek seekPossible.2.1 inRange with ⟨next, moved, nextReads⟩
  have soughtEq : sought = next := congrArg Prod.snd moved
  rw [soughtEq]
  exact Simulates.fputc_run (.inl nextReads) data

/-- A seek to the end of the window leaves nothing unread. -/
theorem fwrite_after_seek_to_end : WritesBlocksAt ⟨[1, 2, 3, 4], 2, false⟩
      (((openStream .full 2 (fun _ => 0) ⟨[1, 2, 3, 4], 0, false⟩).run [.fgetc]).2.fseek 2
        Whence.set.toInt).2 := by
  refine ((@fwrite_after_seek_iff .full (by decide) 2 (by decide) (fun _ => 0)
    ⟨[1, 2, 3, 4], 0, false⟩ [.fgetc] ?_ ⟨trivial, trivial⟩ 2 .set
    ⟨by decide, by decide, by decide⟩).1).mpr ⟨fun _ => .inr (by decide), by decide⟩
  intro call mem
  rw [List.mem_singleton.mp mem]
  rfl

/-- After one byte is read and the stream is rewound, a block of one byte
lands behind the four bytes of the file. -/
theorem fwrite_after_rewind_lands_behind :
    let sought := (((openStream .full 4 (fun _ => 0) ⟨[1, 2, 3, 4], 0, false⟩).run
      [.fgetc]).2.fseek 0 Whence.set.toInt).2
    (sought.fwrite (fun _ => 9) 1 1).2.fflush.2.device.content = [1, 2, 3, 4, 9] /\
      (sought.fputc 9).2.fflush.2.device.content = [9, 2, 3, 4] := by
  decide

end Clib4.Stdio
