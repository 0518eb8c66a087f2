import Clib4.Stdio.Input

namespace Clib4.Stdio

open Foundation

/-!
# Reading byte by byte

The loops of `fgets` and `fread` copy stretches of the buffer; here they are
compared with the loops that take one byte after the other.  Nothing is
assumed about the device.  As long as `fread` does not bypass the buffer, the
two leave the very same stream.
-/

namespace Iob

section

variable {δ : Type}

def skip (count : Nat) (file : Iob δ) : Iob δ :=
  { file with bufferPosition := file.bufferPosition + count }

@[simp] theorem skip_zero (file : Iob δ) : file.skip 0 = file := by
  simp [skip]

theorem skip_skip (first second : Nat) (file : Iob δ) :
    (file.skip first).skip second = file.skip (first + second) := by
  simp [skip, Int.add_assoc]

/-- The read position is not behind the window, and is the start of the buffer
where there is none. -/
structure Windowed (file : Iob δ) : Prop where
  readNonneg : 0 <= file.bufferReadBytes
  positionLe : file.bufferPosition <= file.bufferReadBytes
  position_of_empty : file.bufferReadBytes = 0 -> file.bufferPosition = 0

theorem Windowed.skip {file : Iob δ} (windowed : file.Windowed) {count : Nat}
    (inside : (count : Int) <= file.bufferReadBytes - file.bufferPosition) :
    (file.skip count).Windowed := by
  refine ⟨windowed.readNonneg, ?_, ?_⟩
  · simp only [Iob.skip]
    omega
  · intro none
    have start := windowed.position_of_empty none
    have none' : file.bufferReadBytes = 0 := none
    simp only [Iob.skip]
    omega

theorem unread_of_ordered {file : Iob δ} (ordered : file.bufferPosition <= file.bufferReadBytes)
    (here : file.bufferPosition < file.bufferReadBytes \/ file.readBufferIsEmpty = false) :
    file.bufferPosition < file.bufferReadBytes := by
  rcases here with unread | notEmpty
  · exact unread
  · simp only [readBufferIsEmpty, Bool.or_eq_false_iff, decide_eq_false_iff_not] at notEmpty
    omega

theorem Windowed.unread_of_not_empty {file : Iob δ} (windowed : file.Windowed)
    (notEmpty : file.readBufferIsEmpty = false) : file.bufferPosition < file.bufferReadBytes :=
  unread_of_ordered windowed.positionLe (Or.inr notEmpty)

def filled (device : δ) (bytes : List UInt8) (file : Iob δ) : Iob δ :=
  { file with
    device := device
    buffer := file.buffer.store 0 bytes
    bufferReadBytes := bytes.length
    bufferPosition := 0 }

theorem windowed_filled (device : δ) (bytes : List UInt8) (file : Iob δ) :
    (file.filled device bytes).Windowed :=
  ⟨Int.natCast_nonneg _, Int.natCast_nonneg _, fun _ => rfl⟩

end

variable {δ : Type} [Action δ]

/-- `__getc` up to `n` times, stopping at the first `EOF`. -/
def getcs : Nat -> Iob δ -> List UInt8 × Iob δ
  | 0, file => ([], file)
  | n + 1, file =>
    match file.getc with
    | (none, file) => ([], file)
    | (some c, file) => (c :: (getcs n file).1, (getcs n file).2)

/-- `fgetc` up to `n` times, stopping at the first `EOF`. -/
def fgetcs : Nat -> Iob δ -> List UInt8 × Iob δ
  | 0, file => ([], file)
  | n + 1, file =>
    match file.fgetc with
    | (none, file) => ([], file)
    | (some c, file) => (c :: (fgetcs n file).1, (fgetcs n file).2)

/-- The loop of `fgets` without the copy at its head. -/
def fgetsBytes : Nat -> List UInt8 -> Iob δ -> FgetsResult × Iob δ
  | 0, s, file => (⟨false, s ++ [0]⟩, file)
  | n + 1, s, file =>
    match file.getc with
    | (none, file) => (⟨file.error || s.isEmpty, s ++ [0]⟩, file)
    | (some c, file) =>
      if c = lineFeed then (⟨false, s ++ [c] ++ [0]⟩, file)
      else fgetsBytes n (s ++ [c]) file

/-! ## Refilling -/

/-- What `__fill_iob_read_buffer` asks the device for; nothing is read where
the other line buffered streams could not be flushed. -/
def fetch (file : Iob δ) : Option (Except Errno (List UInt8)) × δ :=
  if file.bufferMode = .line then
    match Action.flushOthers file.device with
    | (false, device) => (none, device)
    | (true, device) =>
      (some (Action.read device file.bufferSize.toNat).1,
        (Action.read device file.bufferSize.toNat).2)
  else
    (some (Action.read file.device file.bufferSize.toNat).1,
      (Action.read file.device file.bufferSize.toNat).2)

variable {file : Iob δ}

theorem fillIobReadBuffer_eq (settled : file.writeBufferIsValid = false) : file.fillIobReadBuffer =
      match file.fetch with
      | (none, device) => (false, { file with device := device })
      | (some (.error code), device) => (false, { file with device := device }.fail code)
      | (some (.ok bytes), device) => (true, file.filled device bytes) := by
  unfold fillIobReadBuffer fetch
  by_cases line : file.bufferMode = .line
  · rw [if_pos line, if_pos line]
    unfold flushAllFiles
    rcases Action.flushOthers file.device with ⟨_ | _, device⟩
    · rfl
    · have nothing : ({ file with device := device } : Iob δ).writeBufferIsValid = false := settled
      simp only [nothing, Bool.and_false, Bool.false_eq_true, if_false, fillFromDevice]
      rcases Action.read device file.bufferSize.toNat with ⟨code | bytes, after⟩ <;> rfl
  · rw [if_neg line, if_neg line]
    unfold fillFromDevice
    rcases Action.read file.device file.bufferSize.toNat with ⟨code | bytes, after⟩ <;> rfl

def receive (file : Iob δ) : Option (Except Errno (List UInt8)) × δ -> Option UInt8 × Iob δ
  | (none, device) => (none, { file with device := device })
  | (some (.error code), device) => (none, { file with device := device }.fail code)
  | (some (.ok []), device) => (none, { file.filled device [] with eofReached := true })
  | (some (.ok (c :: rest)), device) => (some c, (file.filled device (c :: rest)).skip 1)

theorem getc_eq (settled : file.writeBufferIsValid = false) : file.getc =
      if file.bufferPosition < file.bufferReadBytes \/ file.readBufferIsEmpty = false then
        (some (file.buffer file.bufferPosition), file.skip 1)
      else file.receive file.fetch := by
  unfold getc
  by_cases unread : file.bufferPosition < file.bufferReadBytes
  · rw [if_pos unread, if_pos (Or.inl unread)]
    rfl
  rw [if_neg unread]
  unfold fgetcCore
  by_cases empty : file.readBufferIsEmpty
  · rw [if_pos empty, fillIobReadBuffer_eq settled, if_neg (by simp [unread, empty])]
    rcases file.fetch with ⟨_ | code | bytes, device⟩
    · rfl
    · rfl
    · cases bytes with
      | nil => rfl
      | cons c rest =>
        have notEmpty : ¬ (file.filled device (c :: rest)).readBufferIsEmpty := by
          intro none
          simp [readBufferIsEmpty, filled] at none
          omega
        rfl
  · rw [if_neg empty, if_pos (Or.inr (Bool.eq_false_iff.mpr empty))]
    rfl

theorem getc_cases (settled : file.writeBufferIsValid = false) :
    file.getc = (some (file.buffer file.bufferPosition), file.skip 1) \/
      (file.readBufferIsEmpty /\ file.getc = file.receive file.fetch) := by
  rw [getc_eq settled]
  split_ifs with none
  · exact Or.inl rfl
  · rw [not_or, Bool.not_eq_false] at none
    exact Or.inr ⟨none.2, rfl⟩

/-! ## Bytes of the window -/

theorem getc_unread (unread : file.bufferPosition < file.bufferReadBytes) :
    file.getc = (some (file.buffer file.bufferPosition), file.skip 1) := by
  rw [getc, if_pos unread]
  rfl

theorem getcs_window (count n : Nat) (file : Iob δ)
    (inside : (count : Int) <= file.bufferReadBytes - file.bufferPosition) :
    getcs (count + n) file =
      (file.buffer.load file.bufferPosition count ++ (getcs n (file.skip count)).1,
        (getcs n (file.skip count)).2) := by
  induction count generalizing file with
  | zero => simp
  | succ count ih =>
    have unread : file.bufferPosition < file.bufferReadBytes := by omega
    have rest := ih (file.skip 1) (by simp only [skip]; omega)
    rw [skip_skip, Nat.add_comm 1 count] at rest
    rw [Nat.add_right_comm, getcs, getc_unread unread]
    dsimp only
    rw [rest, Block.load_succ]
    rfl

theorem fgetsBytes_window (count n : Nat) (s : List UInt8) (file : Iob δ)
    (inside : (count : Int) <= file.bufferReadBytes - file.bufferPosition)
    (noEnd : lineEnd (file.buffer.load file.bufferPosition count) = none) :
    fgetsBytes (count + n) s file =
      fgetsBytes n (s ++ file.buffer.load file.bufferPosition count) (file.skip count) := by
  induction count generalizing file s with
  | zero => simp
  | succ count ih =>
    have unread : file.bufferPosition < file.bufferReadBytes := by omega
    rw [Block.load_succ, lineEnd_cons] at noEnd
    split_ifs at noEnd with other
    rw [Option.map_eq_none_iff] at noEnd
    have rest := ih (s ++ [file.buffer file.bufferPosition]) (file.skip 1)
      (by simp only [skip]; omega) noEnd
    rw [skip_skip, Nat.add_comm 1 count] at rest
    rw [Nat.add_right_comm, fgetsBytes, getc_unread unread]
    dsimp only
    rw [if_neg other, rest, Block.load_succ]
    simp [skip]

theorem fgetsBytes_lineEnd (count n stop : Nat) (s : List UInt8) (file : Iob δ)
    (inside : (count : Int) <= file.bufferReadBytes - file.bufferPosition)
    (found : lineEnd (file.buffer.load file.bufferPosition count) = some stop) :
    fgetsBytes (count + n) s file =
      (⟨false, s ++ (file.buffer.load file.bufferPosition count).take stop ++ [0]⟩,
        file.skip stop) := by
  induction count generalizing file s stop with
  | zero => simp [lineEnd_nil] at found
  | succ count ih =>
    have unread : file.bufferPosition < file.bufferReadBytes := by omega
    rw [Block.load_succ, lineEnd_cons] at found
    rw [Nat.add_right_comm, fgetsBytes, getc_unread unread, Block.load_succ]
    dsimp only
    by_cases same : file.buffer file.bufferPosition = lineFeed
    · rw [if_pos same] at found ⊢
      cases found
      rfl
    · rw [if_neg same] at found ⊢
      obtain ⟨inner, innerFound, rfl⟩ := Option.map_eq_some_iff.mp found
      rw [ih inner (s ++ [file.buffer file.bufferPosition]) (file.skip 1)
        (by simp only [skip]; omega) innerFound, skip_skip, Nat.add_comm 1 inner]
      simp [skip]

/-! ## Lines -/

theorem fgetsBytes_copy {n : Nat} (pos : 0 < n) (s : List UInt8) (file : Iob δ) :
    (∃ result, fgetsCopy n s file = .inl result /\ fgetsBytes n s file = result) \/
    (∃ m s' file', fgetsCopy n s file = .inr (m, s', file') /\ 0 < m /\ m <= n /\
      fgetsBytes n s file = fgetsBytes m s' file') := by
  unfold fgetsCopy
  by_cases unread : file.bufferPosition < file.bufferReadBytes
  · rw [if_pos unread]
    dsimp only
    generalize countEq : min (file.bufferReadBytes - file.bufferPosition).toNat n = count
    have inside : (count : Int) <= file.bufferReadBytes - file.bufferPosition := by omega
    obtain ⟨rest, rfl⟩ := Nat.exists_eq_add_of_le (show count <= n by omega)
    cases found : lineEnd (file.buffer.load file.bufferPosition count) with
    | some stop => exact Or.inl ⟨_, rfl, fgetsBytes_lineEnd count rest stop s file inside found⟩
    | none =>
      have copied := fgetsBytes_window count rest s file inside found
      rw [Nat.add_sub_cancel_left]
      split_ifs with finished
      · refine Or.inl ⟨_, rfl, ?_⟩
        rw [copied, finished]
        rfl
      · exact Or.inr ⟨_, _, _, rfl, Nat.pos_of_ne_zero finished, by omega, copied⟩
  · rw [if_neg unread]
    exact Or.inr ⟨n, s, file, rfl, pos, le_refl n, rfl⟩

theorem fgetsLoop_eq (fuel n : Nat) (s : List UInt8) (file : Iob δ) (enough : n <= fuel) :
    fgetsLoop fuel n s file = fgetsBytes n s file := by
  induction fuel generalizing n s file with
  | zero =>
    have zero : n = 0 := by omega
    subst zero
    rfl
  | succ fuel ih =>
    rw [fgetsLoop]
    by_cases zero : n = 0
    · subst zero
      rfl
    rw [if_neg zero]
    rcases fgetsBytes_copy (Nat.pos_of_ne_zero zero) s file with
      ⟨result, copied, same⟩ | ⟨m, s', file', copied, pos, le, same⟩
    · rw [copied, same]
    · rw [copied, same]
      obtain ⟨m, rfl⟩ := Nat.exists_eq_succ_of_ne_zero (Nat.ne_of_gt pos)
      rw [fgetsBytes]
      dsimp only
      rcases file'.getc with ⟨_ | c, next⟩
      · rfl
      · dsimp only
        rw [Nat.succ_sub_one, ih m _ next (by omega)]

/-! ## Blocks -/

/-- `fread` reads straight into the memory of the caller. -/
def Bypasses (total : Nat) (file : Iob δ) : Prop :=
  file.bufferReadBytes = 0 /\ file.bufferSize <= total

instance (total : Nat) (file : Iob δ) : Decidable (file.Bypasses total) :=
  inferInstanceAs (Decidable (_ /\ _))

theorem getc_keeps {file next : Iob δ} {c : UInt8} (settled : file.writeBufferIsValid = false)
    (got : file.getc = (some c, next)) :
    next.bufferSize = file.bufferSize /\ next.writeBufferIsValid = false /\
      (next.bufferReadBytes = file.bufferReadBytes \/ next.bufferReadBytes ≠ 0) := by
  rcases getc_cases settled with same | ⟨-, same⟩
  · rw [same] at got
    cases got
    exact ⟨rfl, settled, Or.inl rfl⟩
  · rw [same] at got
    generalize file.fetch = fetched at got
    rcases fetched with ⟨_ | code | _ | ⟨d, rest⟩, device⟩ <;> cases got
    refine ⟨rfl, settled, Or.inr ?_⟩
    simp only [skip, filled, List.length_cons]
    omega

theorem freadLoop_bypass {n : Nat} (pos : 0 < n) (bypass : file.Bypasses n) :
    freadLoop n n [] file =
      match file.freadDirect n with
      | (none, next) => (⟨[], true⟩, next)
      | (some bytes, next) => (⟨bytes, false⟩, next) := by
  obtain ⟨fuel, fuelEq⟩ := Nat.exists_eq_succ_of_ne_zero (Nat.ne_of_gt pos)
  have direct : file.bufferReadBytes = 0 /\ file.bufferSize <= n := bypass
  have opened : freadLoop (fuel + 1) n [] file = freadLoop n n [] file := by
    rw [<- Nat.succ_eq_add_one, <- fuelEq]
  rw [<- opened, freadLoop, if_neg (Nat.ne_of_gt pos), if_pos direct]
  rcases file.freadDirect n with ⟨_ | bytes, next⟩ <;> rfl

theorem freadLoop_eq (fuel total : Nat) (data : List UInt8) (file : Iob δ)
    (enough : total <= fuel) (settled : file.writeBufferIsValid = false)
    (buffered : ¬ file.Bypasses total) :
    freadLoop fuel total data file =
      (⟨data ++ (getcs total file).1, false⟩, (getcs total file).2) := by
  induction fuel generalizing total data file with
  | zero =>
    have zero : total = 0 := by omega
    subst zero
    simp [freadLoop, getcs]
  | succ fuel ih =>
    rw [freadLoop]
    by_cases zero : total = 0
    · subst zero
      simp [getcs]
    have through : ¬ (file.bufferReadBytes = 0 /\ file.bufferSize <= total) := buffered
    rw [if_neg zero, if_neg through]
    generalize countEq : (if file.bufferPosition < file.bufferReadBytes then
      min (file.bufferReadBytes - file.bufferPosition).toNat total else 0) = count
    have window : getcs total file = (file.buffer.load file.bufferPosition count ++
            (getcs (total - count) (file.skip count)).1,
          (getcs (total - count) (file.skip count)).2) := by
      have le : count <= total := by
        rw [<- countEq]
        split <;> omega
      have split : total = count + (total - count) := by omega
      by_cases unread : file.bufferPosition < file.bufferReadBytes
      · rw [if_pos unread] at countEq
        have same := getcs_window count (total - count) file (by omega)
        rw [<- split] at same
        exact same
      · rw [if_neg unread] at countEq
        subst countEq
        simp
    dsimp only
    rw [window]
    by_cases finished : total - count = 0
    · rw [finished]
      simp [getcs, skip]
    obtain ⟨rest, restEq⟩ := Nat.exists_eq_succ_of_ne_zero finished
    rw [restEq, getcs, Nat.succ_sub_one]
    have skipped : (file.skip count).writeBufferIsValid = false := settled
    change (match (file.skip count).getc with | (none, file) => _ | (some c, file) => _) = _
    rcases got : (file.skip count).getc with ⟨_ | c, next⟩
    · simp
    · dsimp only
      have still : ¬ next.Bypasses rest := by
        rintro ⟨none, room⟩
        obtain ⟨size, -, either⟩ := getc_keeps skipped got
        rw [size] at room
        rcases either with same | some
        · exact buffered ⟨same.symm.trans none, room.trans (by omega)⟩
        · exact some none
      rw [ih rest _ next (by omega) (getc_keeps skipped got).2.1 still]
      simp

/-! ## Checks -/

/-- A stream on which `__fgetc_check` has nothing to do. -/
structure Ready (file : Iob δ) : Prop where
  inUse : file.inUse
  canRead : file.canRead
  settled : file.writeBufferIsValid = false

omit [Action δ] in
theorem Ready.skip (ready : file.Ready) (count : Nat) : (file.skip count).Ready :=
  ⟨ready.inUse, ready.canRead, ready.settled⟩

theorem Ready.fgetcCheck (ready : file.Ready) : file.fgetcCheck = (true, file) := by
  simp [Iob.fgetcCheck, ready.inUse, ready.canRead, ready.settled]

theorem Ready.getc (ready : file.Ready) : file.getc.2.Ready := by
  rcases getc_cases ready.settled with same | ⟨-, same⟩
  · rw [same]
    exact ready.skip 1
  · rw [same]
    rcases file.fetch with ⟨_ | code | _ | ⟨d, rest⟩, device⟩ <;>
      exact ⟨ready.inUse, ready.canRead, ready.settled⟩

theorem Ready.fgetcs (ready : file.Ready) (n : Nat) : file.fgetcs n = file.getcs n := by
  induction n generalizing file with
  | zero => rfl
  | succ n ih =>
    have after := ready.getc
    rw [Iob.fgetcs, Iob.getcs, Iob.fgetc, ready.fgetcCheck]
    dsimp only
    rcases got : file.getc with ⟨_ | c, next⟩
    · rfl
    · rw [got] at after
      dsimp only
      rw [ih after]

theorem Ready.fgets_eq (ready : file.Ready) {n : Int} (pos : 0 < n) :
    file.fgets n = file.clearerr.fgetsBytes (n - 1).toNat [] := by
  rw [fgets, if_neg (by omega), ready.fgetcCheck]
  dsimp only
  rw [fgetsLoop_eq _ _ _ _ (le_refl _)]

/-- The stream over another device, with other output pending. -/
def settledOn (device : δ) (pending : Int) (file : Iob δ) : Iob δ :=
  { file with device := device, bufferWriteBytes := pending }

/-- What becomes of pending output: an error, the device and what is pending
afterwards. -/
def settlement (file : Iob δ) : Option Errno × δ × Int :=
  if file.writeBufferIsValid then
    match Action.write file.device (file.buffer.load 0 file.bufferWriteBytes.toNat) with
    | (.error code, device) => (some code, device, file.bufferWriteBytes)
    | (.ok _, device) => (none, device, 0)
  else (none, file.device, file.bufferWriteBytes)

section

variable (inUse : file.inUse) (canRead : file.canRead)
include inUse canRead

theorem fgetcCheck_eq : file.fgetcCheck =
      match file.settlement with
      | (none, device, pending) => (true, file.settledOn device pending)
      | (some code, device, _) => (false, { file with device := device }.fail code) := by
  unfold fgetcCheck settlement
  rw [if_neg (by simp [inUse]), if_neg (by simp [canRead])]
  by_cases pending : file.writeBufferIsValid
  · rw [if_pos pending, if_pos pending, flushIobWriteBuffer, if_pos (by simp [inUse, pending])]
    rcases Action.write file.device (file.buffer.load 0 file.bufferWriteBytes.toNat) with
      ⟨code | written, device⟩ <;> rfl
  · rw [if_neg pending, if_neg pending]
    rfl

theorem freadInternal_eq {elementSize count : Nat} (posSize : 0 < elementSize)
    (posCount : 0 < count) (fits : elementSize * count < 2 ^ 32) :
    file.freadInternal elementSize count =
      match file.settlement with
      | (none, device, pending) =>
        match (file.clearerr.settledOn device pending).freadBytes (elementSize * count) with
        | (⟨stored, true⟩, next) => ((0, stored), next)
        | (⟨stored, false⟩, next) => ((stored.length / elementSize, stored), next)
      | (some code, device, _) => ((0, []), { file.clearerr with device := device }.fail code) := by
  have size : sizeT (elementSize * count) = elementSize * count := Nat.mod_eq_of_lt fits
  have settled : file.clearerr.settlement = file.settlement := rfl
  have checked := @fgetcCheck_eq δ _ file.clearerr inUse canRead
  unfold freadInternal
  rw [if_neg (by simp [inUse]), if_neg (by simp [canRead])]
  rw [if_pos ⟨posSize, posCount⟩, checked, settled]
  rcases file.settlement with ⟨_ | code, device, pending⟩
  · dsimp only
    rw [size]
    rcases (file.clearerr.settledOn device pending).freadBytes (elementSize * count) with
      ⟨⟨stored, _ | _⟩, next⟩ <;> rw [Nat.mul_div_cancel _ posCount, if_neg (by simp)]
  · rfl

theorem ready_of_settlement {device : δ} {pending : Int}
    (settled : file.settlement = (none, device, pending)) :
    (file.settledOn device pending).Ready := by
  refine ⟨inUse, canRead, ?_⟩
  unfold settlement at settled
  split_ifs at settled with valid
  · generalize Action.write file.device _ = answer at settled
    rcases answer with ⟨code | written, after⟩ <;> cases settled
    simp [writeBufferIsValid, settledOn]
  · cases settled
    exact Bool.eq_false_iff.mpr valid

theorem freadInternal_getcs (buffered : file.bufferMode ≠ .none) {elementSize count : Nat}
    (posSize : 0 < elementSize) (posCount : 0 < count)
    (fits : elementSize * count < 2 ^ 32) {device : δ} {pending : Int}
    (settled : file.settlement = (none, device, pending))
    (through : ¬ file.Bypasses (elementSize * count)) :
    let read := (file.clearerr.settledOn device pending).getcs (elementSize * count)
    file.freadInternal elementSize count = ((read.1.length / elementSize, read.1), read.2) := by
  intro read
  have ready := @ready_of_settlement _ _ file.clearerr inUse canRead _ _ settled
  have mode : (file.clearerr.settledOn device pending).bufferMode ≠ .none := buffered
  rw [freadInternal_eq inUse canRead posSize posCount fits, settled]
  dsimp only
  rw [freadBytes, if_neg mode, freadLoop_eq _ _ _ _ (le_refl _) ready.settled through]
  rfl

theorem fgetcs_succ (n : Nat) : file.fgetcs (n + 1) =
      match file.settlement with
      | (none, device, pending) => (file.settledOn device pending).getcs (n + 1)
      | (some code, device, _) => ([], { file with device := device }.fail code) := by
  rw [fgetcs, fgetc, fgetcCheck_eq inUse canRead]
  rcases settled : file.settlement with ⟨_ | code, device, pending⟩
  · have ready := (ready_of_settlement inUse canRead settled).getc
    dsimp only
    rw [getcs]
    generalize (file.settledOn device pending).getc = got at ready ⊢
    rcases got with ⟨_ | c, final⟩
    · rfl
    · dsimp only
      rw [ready.fgetcs]
  · rfl

end

theorem fgetcs_unusable (unusable : ¬ (file.inUse /\ file.canRead))
    (n : Nat) : file.fgetcs (n + 1) = ([], file.fail .EBADF) := by
  rw [fgetcs, fgetc, fgetcCheck]
  by_cases inUse : file.inUse
  · have canRead := Bool.eq_false_iff.mpr fun canRead => unusable ⟨inUse, canRead⟩
    simp [inUse, canRead]
  · simp [inUse]

/-! ## Flags -/

/-- A stream apart from its flags for errors and the end of the file. -/
def unflagged (file : Iob δ) : Iob δ :=
  { file with error := false, eofReached := false, errno := none }

theorem getc_unflagged {file other : Iob δ} (settled : file.writeBufferIsValid = false)
    (same : file.unflagged = other.unflagged) :
    file.getc.1 = other.getc.1 /\ file.getc.2.unflagged = other.getc.2.unflagged := by
  have plain : ∀ stream : Iob δ, stream.writeBufferIsValid = false ->
      stream.getc.1 = stream.unflagged.getc.1 /\
        stream.getc.2.unflagged = stream.unflagged.getc.2.unflagged := by
    intro stream nothing
    have nothing' : stream.unflagged.writeBufferIsValid = false := nothing
    have fetched : stream.unflagged.fetch = stream.fetch := rfl
    rw [getc_eq nothing, getc_eq nothing', fetched]
    by_cases here : stream.bufferPosition < stream.bufferReadBytes \/
        stream.readBufferIsEmpty = false
    · have here' : stream.unflagged.bufferPosition < stream.unflagged.bufferReadBytes \/
          stream.unflagged.readBufferIsEmpty = false := here
      rw [if_pos here, if_pos here']
      exact ⟨rfl, rfl⟩
    · have here' : ¬ (stream.unflagged.bufferPosition < stream.unflagged.bufferReadBytes \/
          stream.unflagged.readBufferIsEmpty = false) := here
      rw [if_neg here, if_neg here']
      rcases stream.fetch with ⟨_ | code | _ | ⟨d, rest⟩, device⟩ <;> exact ⟨rfl, rfl⟩
  have settled' : other.writeBufferIsValid = false := by
    have writes : file.unflagged.bufferWriteBytes = other.unflagged.bufferWriteBytes := by
      rw [same]
    change file.bufferWriteBytes = other.bufferWriteBytes at writes
    simpa only [writeBufferIsValid, writes] using settled
  have left := plain file settled
  have right := plain other settled'
  rw [left.1, left.2, right.1, right.2, same]
  exact ⟨rfl, rfl⟩

theorem getcs_unflagged {file other : Iob δ} (ready : file.Ready)
    (same : file.unflagged = other.unflagged) (n : Nat) :
    (file.getcs n).1 = (other.getcs n).1 /\
      (file.getcs n).2.unflagged = (other.getcs n).2.unflagged := by
  induction n generalizing file other with
  | zero => exact ⟨rfl, same⟩
  | succ n ih =>
    have step := getc_unflagged ready.settled same
    have after := ready.getc
    rw [getcs, getcs]
    generalize file.getc = got at step after ⊢
    generalize other.getc = got' at step ⊢
    obtain ⟨first, next⟩ := got
    obtain ⟨_, next'⟩ := got'
    obtain ⟨rfl, left⟩ := step
    cases first with
    | none => exact ⟨rfl, left⟩
    | some c =>
      obtain ⟨bytes, left⟩ := ih after left
      exact ⟨congrArg (List.cons c) bytes, left⟩

/-! ## Invariants of input -/

def marked (eof error : Bool) (errno : Option Errno) (device : δ) (file : Iob δ) : Iob δ :=
  { file with eofReached := eof, error := error, errno := errno, device := device }

/-- What a property must allow for, so that all input keeps it. -/
structure InputInvariant (holds : Iob δ -> Prop) : Prop where
  marks (file : Iob δ) (eof error : Bool) (errno : Option Errno) (device : δ) :
    holds file -> holds (file.marked eof error errno device)
  settles {file : Iob δ} {device pending} : holds file -> file.settlement = (none, device, pending) ->
    holds (file.settledOn device pending)
  take {file : Iob δ} : holds file -> file.bufferPosition < file.bufferReadBytes \/
    file.readBufferIsEmpty = false -> holds (file.skip 1)
  fill {file : Iob δ} {bytes : List UInt8} (device : δ) : holds file -> file.writeBufferIsValid = false ->
    bytes.length <= file.bufferSize.toNat -> holds (file.filled device bytes)
  back {file : Iob δ} (buffer : Block) : holds file -> file.bufferPosition ≠ 0 -> holds { file with
    eofReached := false, bufferPosition := file.bufferPosition - 1, buffer := buffer }

namespace InputInvariant

variable {holds : Iob δ -> Prop}

theorem fetch_length {bytes : List UInt8} {device : δ}
    (fetched : file.fetch = (some (.ok bytes), device)) : bytes.length <= file.bufferSize.toNat := by
  have bound (before : δ) (answer : (Action.read before file.bufferSize.toNat).1 = .ok bytes) :
      bytes.length <= file.bufferSize.toNat :=
    Action.read_length _ _ _ _ (Prod.ext answer rfl)
  unfold fetch at fetched
  split at fetched
  · generalize Action.flushOthers file.device = answer at fetched
    rcases answer with ⟨_ | _, flushed⟩
    · cases fetched
    · exact bound flushed (Option.some.inj (congrArg Prod.fst fetched))
  · exact bound file.device (Option.some.inj (congrArg Prod.fst fetched))

section

variable (kept : InputInvariant holds) (now : holds file)
include kept now

section

variable (settled : file.writeBufferIsValid = false)
include settled

theorem getc : holds file.getc.2 /\ file.getc.2.writeBufferIsValid = false := by
  rw [getc_eq settled]
  split
  · rename_i here
    exact ⟨kept.take now here, settled⟩
  · rcases fetched : file.fetch with ⟨_ | code | bytes, device⟩
    · exact ⟨kept.marks file file.eofReached file.error file.errno device now, settled⟩
    · exact ⟨kept.marks file file.eofReached true (some code) device now, settled⟩
    · have full := kept.fill device now settled (fetch_length fetched)
      cases bytes with
      | nil => exact ⟨kept.marks _ true file.error file.errno device full, settled⟩
      | cons c rest => exact ⟨kept.take full (Or.inl (by simp [filled])), settled⟩

theorem getcs (n : Nat) : holds (file.getcs n).2 := by
  induction n generalizing file with
  | zero => exact now
  | succ n ih =>
    have next := kept.getc now settled
    rw [Iob.getcs]
    generalize file.getc = got at next ⊢
    rcases got with ⟨_ | c, stream⟩
    · exact next.1
    · exact ih next.1 next.2

theorem fgetsBytes (n : Nat) (s : List UInt8) : holds (file.fgetsBytes n s).2 := by
  induction n generalizing file s with
  | zero => exact now
  | succ n ih =>
    have next := kept.getc now settled
    rw [Iob.fgetsBytes]
    generalize file.getc = got at next ⊢
    rcases got with ⟨_ | c, stream⟩
    · exact next.1
    · dsimp only
      split
      · exact next.1
      · exact ih next.1 next.2 (s ++ [c])

omit settled in
theorem freadDirect (total : Nat) : holds (file.freadDirect total).2 := by
  have described : ∃ errno device, (file.readDescriptor total).2 =
      file.marked file.eofReached file.error errno device := by
    unfold readDescriptor
    split
    · exact ⟨_, file.device, rfl⟩
    · split
      · exact ⟨none, file.device, rfl⟩
      · split <;> exact ⟨_, _, rfl⟩
  obtain ⟨errno, device, same⟩ := described
  unfold Iob.freadDirect
  generalize file.readDescriptor total = answer at same ⊢
  rcases answer with ⟨_ | bytes, final⟩
  · cases same
    exact kept.marks file file.eofReached true errno device now
  · cases same
    dsimp only
    split
    · exact kept.marks file true file.error errno device now
    · exact kept.marks file file.eofReached file.error errno device now

theorem freadBytes (total : Nat) : holds (file.freadBytes total).2 := by
  have passed : holds (match file.freadDirect total with
      | (none, file) => ((⟨[], true⟩ : FreadResult), file)
      | (some bytes, file) => (⟨bytes, false⟩, file)).2 := by
    have direct := kept.freadDirect now total
    generalize file.freadDirect total = answer at direct ⊢
    rcases answer with ⟨_ | bytes, final⟩ <;> exact direct
  unfold Iob.freadBytes
  split
  · exact passed
  · rcases Nat.eq_zero_or_pos total with rfl | pos
    · exact now
    · by_cases bypass : file.Bypasses total
      · rw [freadLoop_bypass pos bypass]
        exact passed
      · rw [freadLoop_eq _ _ _ _ (le_refl _) settled bypass]
        exact kept.getcs now settled total

end

theorem fgetcCheck : holds file.fgetcCheck.2 /\
      (file.fgetcCheck.1 -> file.fgetcCheck.2.writeBufferIsValid = false) := by
  have failed := kept.marks file file.eofReached true (some .EBADF) file.device now
  by_cases usable : file.inUse /\ file.canRead
  · rw [fgetcCheck_eq usable.1 usable.2]
    rcases settled : file.settlement with ⟨_ | code, device, pending⟩
    · exact ⟨kept.settles now settled,
        fun _ => (ready_of_settlement usable.1 usable.2 settled).settled⟩
    · exact ⟨kept.marks file file.eofReached true (some code) device now, nofun⟩
  · rw [Iob.fgetcCheck]
    split_ifs
    · exact ⟨failed, nofun⟩
    · exact ⟨failed, nofun⟩
    all_goals simp_all

theorem fgetc : holds file.fgetc.2 := by
  have checked := kept.fgetcCheck now
  unfold Iob.fgetc
  generalize file.fgetcCheck = answer at checked ⊢
  rcases answer with ⟨_ | _, stream⟩
  · exact checked.1
  · exact (kept.getc checked.1 (checked.2 rfl)).1

theorem fgets (n : Int) : holds (file.fgets n).2 := by
  have checked := kept.fgetcCheck now
  unfold Iob.fgets
  split
  · exact now
  · generalize file.fgetcCheck = answer at checked ⊢
    rcases answer with ⟨_ | _, stream⟩
    · exact checked.1
    · dsimp only
      rw [fgetsLoop_eq _ _ _ _ (le_refl _)]
      exact kept.fgetsBytes (kept.marks stream false false stream.errno stream.device checked.1)
        (checked.2 rfl) _ _

theorem freadInternal (elementSize count : Nat) :
    holds (file.freadInternal elementSize count).2 := by
  have failed := kept.marks file file.eofReached true (some .EBADF) file.device now
  have cleared : holds file.clearerr := kept.marks file false false file.errno file.device now
  have checked := kept.fgetcCheck cleared
  unfold Iob.freadInternal
  split
  · exact failed
  · split
    · exact failed
    · dsimp only
      split
      · generalize file.clearerr.fgetcCheck = answer at checked ⊢
        rcases answer with ⟨_ | _, stream⟩
        · exact checked.1
        · dsimp only
          split
          · exact checked.1
          · have bytes := kept.freadBytes checked.1 (checked.2 rfl) (sizeT (elementSize * count))
            generalize stream.freadBytes (sizeT (elementSize * count)) = answer at bytes ⊢
            rcases answer with ⟨⟨stored, _ | _⟩, final⟩ <;> exact bytes
      · exact cleared

theorem fread (ptr : Block) (elementSize count : Nat) :
    holds (file.fread ptr elementSize count).2 := by
  have read := kept.freadInternal now elementSize count
  unfold Iob.fread
  generalize file.freadInternal elementSize count = answer at read ⊢
  rcases answer with ⟨⟨elements, stored⟩, final⟩
  dsimp only
  split <;> exact read

theorem ungetc (c : Int) : holds (file.ungetc c).2 := by
  have failed (code : Errno) := kept.marks file file.eofReached true (some code) file.device now
  have checked := kept.fgetcCheck now
  unfold Iob.ungetc
  unfold Iob.fgetcCheck at checked
  split
  · exact failed .EBADF
  · rename_i inUse
    rw [if_neg inUse] at checked
    split
    · exact failed .EACCES
    · rename_i canRead
      rw [if_neg canRead] at checked
      split
      · exact failed .EINVAL
      · generalize (if file.writeBufferIsValid then file.flushIobWriteBuffer
          else (true, file)) = answer at checked ⊢
        rcases answer with ⟨_ | _, stream⟩
        · exact checked.1
        · dsimp only
          split
          · exact kept.marks stream stream.eofReached true (some .ENOBUFS) stream.device checked.1
          · rename_i moved
            exact kept.back _ checked.1 moved

end

end InputInvariant

end Iob

end Clib4.Stdio
