import Clib4.Stdio.Simulation

namespace Clib4.Stdio

open Foundation

/-!
# Sequences of calls refine the plain array

A stream computes positions as `long`s in two places: `ftell` returns one,
and `fseek` turns an absolute position into a relative one when there is a
read window.  As long as no such value leaves the range of a `long`, a
sequence of calls answers as the plain array does, and the file is the array
after a flush.
-/

/-- What `SEEK_SET` makes of an offset on a stream with a read window. -/
def relativeOffset (array : ByteFile) (offset : Int) : Int :=
  toLong (offset - toLong array.position)

variable {array : ByteFile}

theorem relativeOffset_eq {offset : Int} (upper : offset <= longMax)
    (inRange : longMin < offset - array.position) :
    relativeOffset array offset = offset - array.position := by
  have congruent : relativeOffset array offset = toLong (offset - array.position) := by
    unfold relativeOffset
    simp only [toLong_eq_bmod]
    exact Int.sub_bmod_bmod
  rw [congruent]
  exact toLong_of_fits (by omega) (by omega)

/--
A seek that `fseek` computes in `long`s stays in their range.  Without a read
window it computes nothing, and if the position is 0 as a `long`, it takes the
answer of `ftell` for a failure and leaves the offset as it is.
-/
def SeekInRange (array : ByteFile) (file : Iob ByteFile) (offset : Int) (wherefrom : Whence) :
    Prop :=
  file.readBufferIsValid ->
    match wherefrom with
    | .set => toLong array.position = 0 \/ longMin < offset - array.position
    | .cur => longMin < offset
    | .fromEnd => True

namespace Simulates

variable {array : ByteFile} {file : Iob ByteFile}

section

variable (sim : Simulates array file)
include sim

theorem seekBuffered {offset : Int} (wherefrom : Whence) (upper : offset <= longMax)
    (inRange : wherefrom = .cur -> file.readBufferIsValid -> longMin < offset) :
    ∃ next, file.seekBuffered offset wherefrom = (true, next) /\
      Simulates (array.seek offset wherefrom.origin) next /\ Quiet file next := by
  have cleared := sim.flags file.error false file.errno
  unfold Iob.seekBuffered
  by_cases moves : wherefrom ≠ .cur \/ offset ≠ 0
  · rw [if_pos moves]
    by_cases stays : Iob.staysInBuffer offset wherefrom { file with eofReached := false }
    · rw [if_pos stays]
      obtain ⟨rfl, valid, -⟩ := id stays
      rcases cleared with reads | writes
      · have moved := reads.seek_in_buffer (inRange rfl valid) upper stays
        exact ⟨_, rfl, .inl moved, moved.quiet⟩
      · have empty : file.bufferReadBytes = 0 := writes.readBytes_eq
        simp [Iob.readBufferIsValid, empty] at valid
    · rw [if_neg stays]
      rcases cleared.seekDevice offset wherefrom with ⟨next, moved, after, nothing⟩
      exact ⟨next, moved, .inr after, fun _ => nothing⟩
  · have here : wherefrom = .cur /\ offset = 0 := by
      simpa only [not_or, ne_eq, not_not] using moves
    rcases here with ⟨rfl, rfl⟩
    refine ⟨_, rfl, ?_, id⟩
    have same : array.seek 0 Whence.cur.origin = array := by
      simp [ByteFile.seek, ByteFile.target, Whence.origin]
    rw [same]
    exact cleared

theorem fseekWhence_set_of_valid (offset : Int) (valid : file.readBufferIsValid)
    (nonzero : toLong array.position ≠ 0) :
    file.fseekWhence offset .set = file.seekBuffered (relativeOffset array offset) .cur := by
  unfold Iob.fseekWhence Iob.relativeSeek
  rw [if_pos ⟨rfl, valid⟩, sim.ftell]
  dsimp only
  rw [if_pos (by simpa [Iob.changeFileError] using nonzero)]
  rfl

theorem fseekWhence_other (offset : Int) (wherefrom : Whence)
    (other : wherefrom = .set -> file.readBufferIsValid -> toLong array.position = 0) :
    file.fseekWhence offset wherefrom = file.seekBuffered offset wherefrom := by
  unfold Iob.fseekWhence Iob.relativeSeek
  by_cases relative : wherefrom = .set /\ file.readBufferIsValid
  · rw [if_pos relative, sim.ftell]
    dsimp only
    rw [if_neg (by simpa [Iob.changeFileError] using other relative.1 relative.2), relative.1]
  · rw [if_neg relative]

theorem fseekWhence {offset : Int} (wherefrom : Whence) (upper : offset <= longMax)
    (inRange : SeekInRange array file offset wherefrom) :
    ∃ next, file.fseekWhence offset wherefrom = (true, next) /\
      Simulates (array.seek offset wherefrom.origin) next /\ Quiet file next := by
  by_cases relative : wherefrom = .set /\ file.readBufferIsValid /\ toLong array.position ≠ 0
  · rcases relative with ⟨rfl, valid, nonzero⟩
    have near := (inRange valid).resolve_left nonzero
    have offsetEq := relativeOffset_eq upper near
    have same : array.seek (offset - array.position) Whence.cur.origin =
        array.seek offset Whence.set.origin := by
      simp [ByteFile.seek, ByteFile.target, Whence.origin]
    rw [sim.fseekWhence_set_of_valid offset valid nonzero, offsetEq, <- same]
    exact sim.seekBuffered .cur (by omega) (fun _ _ => near)
  · rw [sim.fseekWhence_other offset wherefrom (by
      intro fromStart valid
      by_contra nonzero
      exact relative ⟨fromStart, valid, nonzero⟩)]
    refine sim.seekBuffered wherefrom upper ?_
    rintro rfl valid
    exact inRange valid

end

end Simulates

/-! ## Sequences -/

/-- A call that can be made and can succeed: what is read fits the address
space, an offset is a `long`, and no seek leads before the start. -/
def Possible (array : ByteFile) : Call -> Prop
  | .fread _ elementSize count => elementSize * count < 2 ^ 32
  | .fseek offset wherefrom =>
    longMin <= offset /\ offset <= longMax /\ 0 <= array.target offset wherefrom.origin
  | _ => True

/-- A call that does not need a position a `long` cannot hold. -/
def InRange (array : ByteFile) (file : Iob ByteFile) : Call -> Prop
  | .fseek offset wherefrom => SeekInRange array file offset wherefrom
  | .ftell => array.position <= longMax
  | _ => True

def AllPossible (array : ByteFile) : List Call -> Prop
  | [] => True
  | call :: rest => Possible array call /\ AllPossible (Plain.call array call).2 rest

def AllInRange (array : ByteFile) (file : Iob ByteFile) : List Call -> Prop
  | [] => True
  | call :: rest =>
    InRange array file call /\ AllInRange (Plain.call array call).2 (file.call call).2 rest

namespace Simulates

theorem call {array : ByteFile} {file : Iob ByteFile} (sim : Simulates array file)
    (call : Call) (possible : Possible array call) (inRange : InRange array file call) :
    (file.call call).1 = (Plain.call array call).1 /\
      Simulates (Plain.call array call).2 (file.call call).2 := by
  cases call with
  | fgetc =>
    rcases sim.fgetc with ⟨next, got, after, -⟩
    simp only [Iob.call, Plain.call, got, true_and]
    exact after
  | fgets n =>
    rcases sim.fgets n with ⟨next, got, after, -⟩
    simp only [Iob.call, Plain.call, got, true_and]
    exact after
  | fread ptr elementSize count =>
    rcases sim.fread ptr elementSize count possible with ⟨next, got, after, -⟩
    simp only [Iob.call, Plain.call, got, true_and]
    exact after
  | fputc c =>
    rcases sim.fputc c with ⟨next, put, after⟩
    simp only [Iob.call, Plain.call, put, true_and]
    exact after
  | fputs s =>
    rcases sim.fputs s with ⟨next, put, after⟩
    simp only [Iob.call, Plain.call, put, true_and]
    exact after
  | fseek offset wherefrom =>
    rcases sim.fseekWhence wherefrom possible.2.1 inRange with ⟨next, moved, after, -⟩
    have result : file.fseek offset wherefrom.toInt = (true, next) := by
      unfold Iob.fseek
      rw [if_neg (by simp [sim.healthy.inUse]), Whence.ofInt_toInt]
      exact moved
    simp only [Iob.call, Plain.call, Plain.fseek, result, true_and]
    exact after
  | ftell =>
    have nonneg : longMin <= array.position := by
      unfold longMin
      omega
    have exact : toLong array.position = array.position := toLong_of_fits nonneg inRange
    simp only [Iob.call, Plain.call, sim.ftell, exact, true_and]
    exact sim
  | fflush =>
    rcases sim.fflush with ⟨next, flushed, after, -⟩
    simp only [Iob.call, Plain.call, flushed, true_and]
    exact after

/-- A whole sequence: one call keeps the relation, so all of them do. -/
theorem run : ∀ (calls : List Call) (array : ByteFile) (file : Iob ByteFile),
    Simulates array file -> AllPossible array calls -> AllInRange array file calls ->
    (file.run calls).1 = (Plain.run array calls).1 /\
      Simulates (Plain.run array calls).2 (file.run calls).2 := by
  intro calls
  induction calls with
  | nil =>
    intro array file sim _ _
    exact ⟨rfl, sim⟩
  | cons head rest ih =>
    intro array file sim possible inRange
    rcases sim.call head possible.1 inRange.1 with ⟨answer, after⟩
    rcases ih _ _ after possible.2 inRange.2 with ⟨answers, final⟩
    refine ⟨?_, final⟩
    simp only [Iob.run, Plain.run, answer, answers]

end Simulates

theorem simulates_openStream {mode : BufferMode} (buffered : mode ≠ .none) {bufferSize : Nat}
    (pos : 0 < bufferSize) (buffer : Block) (array : ByteFile) :
    Simulates array (openStream mode bufferSize buffer array) := by
  refine .inr (Pending.of_device ?_ rfl rfl rfl rfl)
  exact
    { inUse := rfl
      canRead := rfl
      canWrite := rfl
      buffered := buffered
      sizePos := by simpa [openStream] using pos
      hostOrder := rfl
      descriptorOrder := rfl }

/--
Fully and line buffered streams are the plain array: each call of a sequence
answers what the array answers, and flushing makes the file the array.  The
calls need not be separated by seeks.
-/
theorem stream_refines_array {mode : BufferMode} (buffered : mode ≠ .none) {bufferSize : Nat}
    (pos : 0 < bufferSize) (buffer : Block) (content : List UInt8) (growOnSeek : Bool)
    (calls : List Call) (possible : AllPossible ⟨content, 0, growOnSeek⟩ calls)
    (inRange : AllInRange ⟨content, 0, growOnSeek⟩
      (openStream mode bufferSize buffer ⟨content, 0, growOnSeek⟩) calls) :
    let stream := (openStream mode bufferSize buffer ⟨content, 0, growOnSeek⟩).run calls
    let array := Plain.run ⟨content, 0, growOnSeek⟩ calls
    stream.1 = array.1 /\ stream.2.fflush.1 /\
      stream.2.fflush.2.device.content = array.2.content := by
  intro stream array
  have start := simulates_openStream buffered pos buffer ⟨content, 0, growOnSeek⟩
  rcases Simulates.run calls _ _ start possible inRange with ⟨answers, final⟩
  rcases final.fflush with ⟨flushed, flush, -, same⟩
  refine ⟨answers, ?_, ?_⟩
  · rw [flush]
  · rw [flush]
    exact same

theorem stream_refines_array_line :
    ((openStream .line 3 (fun _ => 0) ⟨[104, 105, 10, 33], 0, false⟩).run
        [.fgetc, .fseek 0 .set, .fputs [72, 10], .fseek (-1) .fromEnd, .ftell, .fgetc]).2.fflush.2.device.content =
      [72, 10, 10, 33] := by
  have refined := @stream_refines_array .line (by decide) 3 (by decide) (fun _ => 0)
    [104, 105, 10, 33] false
    [.fgetc, .fseek 0 .set, .fputs [72, 10], .fseek (-1) .fromEnd, .ftell, .fgetc]
    ⟨trivial, ⟨by decide, by decide, by decide⟩, trivial, ⟨by decide, by decide, by decide⟩,
      trivial, trivial, trivial⟩
    ⟨trivial, fun _ => .inr (by decide), trivial, fun _ => trivial,
      by simp only [InRange]; decide, trivial, trivial⟩
  exact refined.2.2

/-! ## A seek that leaves the range -/

variable {file : Iob ByteFile}

section

variable (sim : Simulates array file)
include sim

theorem fgetc_bufferPosition_pos {c : UInt8} {next : Iob ByteFile}
    (got : file.fgetc = (some c, next)) : 0 < next.bufferPosition := by
  rcases sim.fgetcCheck with ⟨checked, check, reads⟩
  have nonneg := reads.positionNonneg
  unfold Iob.fgetc at got
  rw [check] at got
  dsimp only at got
  rcases Iob.getc_cases reads.settled with same | ⟨-, same⟩
  · rw [same] at got
    cases got
    simp only [Iob.skip]
    omega
  · rw [same, Reads.fetch_eq] at got
    generalize checked.device.rest.take checked.bufferSize.toNat = bytes at got
    cases bytes with
    | nil => cases got
    | cons d rest =>
      cases got
      exact Int.one_pos

/-- Out of range, `SEEK_SET` acts as a seek from the current position by the
wrapped offset. -/
theorem Simulates.fseek_set_out_of_range {offset : Int} (valid : file.readBufferIsValid)
    (nonzero : toLong array.position ≠ 0) (wrapped : longMin < relativeOffset array offset) :
    ∃ next, file.fseek offset Whence.set.toInt = (true, next) /\
      Simulates (array.seek (relativeOffset array offset) .current) next /\
      Quiet file next := by
  have upper : relativeOffset array offset <= longMax := toLong_le_longMax _
  rcases sim.seekBuffered .cur upper (fun _ _ => wrapped) with ⟨next, moved, after, quiet⟩
  refine ⟨next, ?_, after, quiet⟩
  unfold Iob.fseek
  rw [if_neg (by simp [sim.healthy.inUse]), Whence.ofInt_toInt]
  dsimp only
  rw [sim.fseekWhence_set_of_valid offset valid nonzero, moved]

theorem Simulates.fgetc_at_end (nothing : array.rest = []) : file.fgetc.1 = none := by
  rcases sim.fgetc with ⟨next, answer, -, -⟩
  rw [answer]
  simp [Plain.fgetc, nothing]

/-- Past the last byte of a file of `2 ^ 31 + 2` bytes, a seek to the start
leads to `2 ^ 32`, where there is nothing to read. -/
theorem fgetc_after_far_seek (place : array.position = 2 ^ 31 + 1)
    (length : array.content.length = 2 ^ 31 + 2) (fixed : array.growOnSeek = false) :
    ((file.fgetc.2.fseek 0 Whence.set.toInt).2.fgetc).1 = none := by
  have rest : ∃ c, array.rest = [c] := by
    rw [<- List.length_eq_one_iff, ByteFile.length_rest]
    omega
  rcases rest with ⟨c, rest⟩
  rcases sim.fgetc with ⟨read, got, after, -⟩
  have taken : Plain.fgetc array = (some c, array.advance 1) := by
    simp [Plain.fgetc, rest]
  rw [taken] at got after
  have window := fgetc_bufferPosition_pos sim got
  have valid : read.readBufferIsValid := by
    rcases after with reads | writes
    · have := reads.positionLe
      simp only [Iob.readBufferIsValid, decide_eq_true_eq]
      omega
    · have := writes.position_eq
      omega
  have wrapped : relativeOffset (array.advance 1) 0 = 2 ^ 31 - 2 := by
    simp only [relativeOffset, ByteFile.advance_position, place]
    decide
  have nonzero : toLong (array.advance 1).position ≠ 0 := by
    simp only [ByteFile.advance_position, place]
    decide
  rcases after.fseek_set_out_of_range valid nonzero (by rw [wrapped]; decide) with
    ⟨moved, seek, landed, -⟩
  have nothing : ByteFile.rest ((array.advance 1).seek (2 ^ 31 - 2) .current) = [] := by
    rw [<- List.length_eq_zero_iff, ByteFile.length_rest]
    simp only [ByteFile.seek, ByteFile.target, ByteFile.moveTo_position]
    simp [ByteFile.moveTo, fixed, place, length]
  rw [wrapped] at landed
  have readEq : file.fgetc.2 = read := by rw [got]
  have movedEq : (read.fseek 0 Whence.set.toInt).2 = moved := by rw [seek]
  rw [readEq, movedEq]
  exact landed.fgetc_at_end nothing

end

theorem Plain.fgetc_after_rewind (array : ByteFile) :
    (Plain.fgetc ((Plain.fgetc array).2.seek 0 Whence.set.origin)).1 = array.content.head? := by
  have answer : ∀ file, (Plain.fgetc file).1 = file.rest.head? := by
    intro file
    unfold Plain.fgetc
    cases file.rest <;> rfl
  have content : (Plain.fgetc array).2.content = array.content := by
    unfold Plain.fgetc
    split <;> rfl
  have rewound : (Plain.fgetc array).2.seek 0 Whence.set.origin =
      { (Plain.fgetc array).2 with position := 0 } :=
    ByteFile.moveTo_of_le _ _ (Nat.zero_le _)
  rw [answer, rewound]
  simp [ByteFile.rest, content]

theorem run_differs_of_length (content : List UInt8) (length : content.length = 2 ^ 31 + 2) :
    ((openStream .full 1 (fun _ => 0) ⟨content, 0, false⟩).run
        [.fseek (-1) .fromEnd, .fgetc, .fseek 0 .set, .fgetc]).1 ≠
      (Plain.run ⟨content, 0, false⟩
        [.fseek (-1) .fromEnd, .fgetc, .fseek 0 .set, .fgetc]).1 := by
  have start := @simulates_openStream .full (by decide) 1 Nat.one_pos (fun _ => 0)
    ⟨content, 0, false⟩
  have placed : (Plain.call ⟨content, 0, false⟩ (.fseek (-1) .fromEnd)).2 =
      ⟨content, 2 ^ 31 + 1, false⟩ := by
    simp [Plain.call, Plain.fseek, ByteFile.seek, ByteFile.target, ByteFile.moveTo,
      Whence.origin, length]
  have first := (start.call (.fseek (-1) .fromEnd)
    ⟨by decide, by decide, by simp [ByteFile.target, Whence.origin, length]⟩
    (fun _ => trivial)).2
  rw [placed] at first
  have last := fgetc_after_far_seek first rfl length rfl
  intro same
  simp only [Iob.run, Plain.run, List.cons.injEq] at same
  have answers := same.2.2.2.1
  simp only [Iob.call] at last answers
  rw [last] at answers
  rw [placed] at answers
  simp only [Plain.call, Plain.fseek] at answers
  rw [Plain.fgetc_after_rewind] at answers
  cases content with
  | nil => simp at length
  | cons c rest => simp at answers

theorem stream_differs_after_far_seek :
    ((openStream .full 1 (fun _ => 0) ⟨List.replicate (2 ^ 31 + 2) 0, 0, false⟩).run
        [.fseek (-1) .fromEnd, .fgetc, .fseek 0 .set, .fgetc]).1 ≠
      (Plain.run ⟨List.replicate (2 ^ 31 + 2) 0, 0, false⟩
        [.fseek (-1) .fromEnd, .fgetc, .fseek 0 .set, .fgetc]).1 :=
  run_differs_of_length _ List.length_replicate

end Clib4.Stdio
