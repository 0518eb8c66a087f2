import Clib4.Stdio.Counters.Run
import Clib4.Stdio.ShortReads

namespace Clib4.Stdio

open Foundation Printf

/-!
# Opening a stream

`__open_iob` (`openiob.c`) with the flag macros of `macros.h`, the open mode
bits of `fcntl.h`, the flag bits of `stdio_headers.h` and `__initialize_iob`.
A mode string becomes a set of open mode bits, these become flag bits of the
stream, and the per-call checks look at the flags.

`O_RDONLY` is zero in `fcntl.h`.  A test with `FLAG_IS_SET` asks whether all
bits of a mask are set, so it always finds `O_RDONLY`.

Reading goes through two checks: that of the stream, and for blocks that bypass
the buffer that of the descriptor, whose rights `__open_r` takes from the open
mode.  The same holds for writing.
-/

/-! ## FlagBits -/

/-- A `ULONG` or `int` used as a set of bits. -/
abbrev FlagBits := BitVec 32

def flagIsSet (value flag : FlagBits) : Bool := value &&& flag == flag

def setFlag (value flag : FlagBits) : FlagBits := value ||| flag

def clearFlag (value flag : FlagBits) : FlagBits := value &&& ~~~flag

def oRdonly : FlagBits := 0

def oWronly : FlagBits := 1

def oRdwr : FlagBits := 2

def oAppend : FlagBits := 1 <<< 2

def oCreat : FlagBits := 1 <<< 3

def oTrunc : FlagBits := 1 <<< 5

def oLittleEndian : FlagBits := 1 <<< 13

def iobfBufferMode : FlagBits := 3

def iobfEofReached : FlagBits := 1 <<< 2

def iobfRead : FlagBits := 1 <<< 3

def iobfWrite : FlagBits := 1 <<< 4

def iobfInUse : FlagBits := 1 <<< 5

def iobfError : FlagBits := 1 <<< 6

def iobfNoNul : FlagBits := 1 <<< 8

def iobfLittleEndian : FlagBits := 1 <<< 12

/-- `__SORD`, which is the bit of `IOBF_LOCKED`. -/
def sord : FlagBits := 1 <<< 10

/-- `_IOFBF`, `_IOLBF` and everything else, as `IOBF_BUFFER_MODE` covers it. -/
def bufferModeOf (flags : FlagBits) : BufferMode :=
  if flags &&& iobfBufferMode = 0 then .full
  else if flags &&& iobfBufferMode = 1 then .line
  else .none

/-! ## Mode strings -/

/-- The characters of a mode string, up to its terminating NUL. -/
structure Mode where
  chars : List UInt8
  terminated : 0 ∉ chars

namespace Mode

/-- `'+'`. -/
def plus : UInt8 := 43

/-- `'a'`. -/
def letterA : UInt8 := 97

/-- `'b'`. -/
def letterB : UInt8 := 98

/-- `'l'`. -/
def letterL : UInt8 := 108

/-- `'r'`. -/
def letterR : UInt8 := 114

/-- `'w'`. -/
def letterW : UInt8 := 119

/-- `mode[index]`; the NUL stands behind the last character. -/
def char (mode : Mode) (idx : Nat) : UInt8 := mode.chars.getD idx 0

/-- The `switch` over the first character. -/
def access (mode : Mode) : Option FlagBits :=
  if mode.char 0 = letterR then some oRdonly
  else if mode.char 0 = letterW then some (oWronly ||| oCreat ||| oTrunc)
  else if mode.char 0 = letterA then some (oWronly ||| oCreat ||| oAppend)
  else none

/-- The second or third character is a `'+'`. -/
def Updates (mode : Mode) : Prop :=
  mode.char 1 = plus \/ (mode.char 1 ≠ 0 /\ mode.char 2 = plus)

instance (mode : Mode) : Decidable mode.Updates := by
  unfold Updates
  infer_instance

/-- A binary stream in little endian mode, which excludes an update. -/
def Swaps (mode : Mode) : Prop :=
  ¬ mode.Updates /\ mode.char 1 ≠ 0 /\ mode.char 1 = letterB /\ mode.char 2 = letterL

instance (mode : Mode) : Decidable mode.Swaps := by
  unfold Swaps
  infer_instance

/-- `open_mode` once the whole string was looked at. -/
def openMode (mode : Mode) (access : FlagBits) : FlagBits :=
  if mode.Updates then setFlag (clearFlag (clearFlag access oRdonly) oWronly) oRdwr
  else if mode.Swaps then setFlag access oLittleEndian
  else access

/-- `file_flags` once the whole string was looked at. -/
def fileFlags (mode : Mode) : FlagBits :=
  if mode.Swaps then setFlag 0 iobfLittleEndian else 0

/-- The flags added when everything the stream needs is there. -/
def streamFlags (openMode fileFlags : FlagBits) : FlagBits :=
  let flags := fileFlags ||| (iobfInUse ||| iobfNoNul)
  let flags :=
    if flagIsSet openMode oRdonly || flagIsSet openMode oRdwr then setFlag flags iobfRead else flags
  if flagIsSet openMode oWronly || flagIsSet openMode oRdwr then setFlag flags iobfWrite else flags

end Mode

/-! ## The call -/

/-- `access_mode` of `__open_r`. -/
def accessMode (openFlag : FlagBits) : FlagBits := openFlag &&& 3

/-- Where `__open_r` sets `FDF_READ`. -/
def opensForReading (openFlag : FlagBits) : Bool :=
  accessMode openFlag == oRdonly || accessMode openFlag == oRdwr

/-- Where `__open_r` sets `FDF_WRITE`. -/
def opensForWriting (openFlag : FlagBits) : Bool :=
  accessMode openFlag == oWronly || accessMode openFlag == oRdwr

/-- An open descriptor: what the stream needs to know of its flags, and the
file behind it. -/
structure OpenDescriptor (δ : Type) where
  interactive : Bool
  littleEndian : Bool
  device : δ

/-- What `__open_iob` is to open: a file by its name, given by what `__open_r`
answers to the open mode, with the rights of that mode; or a descriptor, `none` if
there is no such one. -/
inductive OpenTarget (δ : Type) [Action δ]
  | named (openR : FlagBits -> Except Errno (OpenDescriptor δ))
      (rights : ∀ openFlag fd, openR openFlag = .ok fd ->
        Action.mayRead fd.device = opensForReading openFlag /\
          Action.mayWrite fd.device = opensForWriting openFlag)
  | desc (fd : Option (OpenDescriptor δ))

/-- The process around the call: the memory `__malloc_r` hands out, if any,
whether a semaphore could be created, and how `FDF_APPEND` is set, which is no right. -/
structure OpenContext (δ : Type) [Action δ] where
  cacheLineSize : Nat
  memory : Option Block
  semaphore : Bool
  setAppend : Bool -> δ -> δ
  setAppend_rights : ∀ append device,
    Action.mayRead (setAppend append device) = Action.mayRead device /\
      Action.mayWrite (setAppend append device) = Action.mayWrite device
  errno : Option Errno

def initializeIob {δ : Type} (buffer : Block) (bufferSize : Int) (fd : OpenDescriptor δ)
    (flags : FlagBits) (errno : Option Errno) : Iob δ :=
  let flags := clearFlag flags sord
  { bufferMode := bufferModeOf flags
    eofReached := flagIsSet flags iobfEofReached
    canRead := flagIsSet flags iobfRead
    canWrite := flagIsSet flags iobfWrite
    inUse := flagIsSet flags iobfInUse
    error := flagIsSet flags iobfError
    noNul := flagIsSet flags iobfNoNul
    littleEndian := flagIsSet flags iobfLittleEndian
    buffer := buffer
    bufferSize := bufferSize
    bufferPosition := 0
    bufferReadBytes := 0
    bufferWriteBytes := 0
    interactive := fd.interactive
    descriptorLittleEndian := fd.littleEndian
    errno := errno
    device := fd.device }

/-- The descriptor of the new stream: opened by its name, or updated. -/
def OpenTarget.obtain {δ : Type} [Action δ] (context : OpenContext δ) (openMode : FlagBits) :
    OpenTarget δ -> Except Errno (OpenDescriptor δ)
  | .named openR _ => openR openMode
  | .desc none => .error .EBADF
  | .desc (some fd) =>
    .ok { fd with device := context.setAppend (flagIsSet openMode oAppend) fd.device }

/-- The first thing `__open_iob` looks at: a descriptor that is no use. -/
def OpenTarget.Missing {δ : Type} [Action δ] : OpenTarget δ -> Prop
  | .desc none => True
  | _ => False

instance {δ : Type} [Action δ] (target : OpenTarget δ) : Decidable target.Missing := by
  unfold OpenTarget.Missing
  split
  · exact instDecidableTrue
  · exact instDecidableFalse

/-- `__open_iob`: the stream, or the error number if the call set one.  No
error number is set for a semaphore that could not be created. -/
def openIob {δ : Type} [Action δ] (context : OpenContext δ) (target : OpenTarget δ) (mode : Mode) :
    Except (Option Errno) (Iob δ) :=
  if target.Missing then .error (some .EBADF)
  else
    match mode.access with
    | none => .error (some .EINVAL)
    | some access =>
      match context.memory with
      | none => .error (some .ENOBUFS)
      | some buffer =>
        match target.obtain context (mode.openMode access) with
        | .error code => .error (some code)
        | .ok fd =>
          if context.semaphore then
            .ok (initializeIob buffer (bufsiz + (context.cacheLineSize - 1 : Int)) fd
              (Mode.streamFlags (mode.openMode access) mode.fileFlags) context.errno)
          else .error none

/-! ## The rights a mode gives -/

namespace Mode

def StartsWith (mode : Mode) (letter : UInt8) : Prop := mode.chars.head? = some letter

instance (mode : Mode) (letter : UInt8) : Decidable (mode.StartsWith letter) := by
  unfold StartsWith
  infer_instance

def AsksToRead (mode : Mode) : Prop := mode.StartsWith letterR \/ plus ∈ mode.chars

instance (mode : Mode) : Decidable mode.AsksToRead := by
  unfold AsksToRead
  infer_instance

def AsksToWrite (mode : Mode) : Prop :=
  mode.StartsWith letterW \/ mode.StartsWith letterA \/ plus ∈ mode.chars

instance (mode : Mode) : Decidable mode.AsksToWrite := by
  unfold AsksToWrite
  infer_instance

def Accepted (mode : Mode) : Prop :=
  mode.StartsWith letterR \/ mode.StartsWith letterW \/ mode.StartsWith letterA

/-- A `+` where `__open_iob` looks for one. -/
def EarlyPlus (mode : Mode) : Prop :=
  mode.chars[1]? = some plus \/ mode.chars[2]? = some plus

variable (mode : Mode) {letter : UInt8}

theorem char_eq_iff (idx : Nat) (visible : letter ≠ 0) :
    mode.char idx = letter <-> mode.chars[idx]? = some letter := by
  rw [char, List.getD_eq_getElem?_getD]
  cases mode.chars[idx]? with
  | none => simpa using visible.symm
  | some found => simp

theorem startsWith_iff (visible : letter ≠ 0) :
    mode.StartsWith letter <-> mode.char 0 = letter := by
  rw [mode.char_eq_iff 0 visible, StartsWith, List.head?_eq_getElem?]

theorem char_one_ne_zero (third : mode.chars[2]? = some letter) : mode.char 1 ≠ 0 := by
  obtain ⟨long, -⟩ := List.getElem?_eq_some_iff.mp third
  intro ends
  apply mode.terminated
  rw [<- ends, char, List.getD_eq_getElem?_getD, List.getElem?_eq_getElem (by omega)]
  exact List.getElem_mem _

theorem updates_iff : mode.Updates <-> mode.EarlyPlus := by
  have visible : plus ≠ 0 := by decide
  rw [Updates, EarlyPlus, mode.char_eq_iff 1 visible, mode.char_eq_iff 2 visible]
  constructor
  · rintro (second | ⟨-, third⟩)
    · exact .inl second
    · exact .inr third
  · rintro (second | third)
    · exact .inl second
    · exact .inr ⟨mode.char_one_ne_zero third, third⟩

theorem EarlyPlus.mem {mode : Mode} (early : mode.EarlyPlus) : plus ∈ mode.chars := by
  rcases early with second | third
  · exact List.mem_of_getElem? second
  · exact List.mem_of_getElem? third

theorem access_cases {mode : Mode} {access : FlagBits} (accepted : mode.access = some access) :
    (mode.StartsWith letterR /\ access = oRdonly) \/
    (mode.StartsWith letterW /\ access = oWronly ||| oCreat ||| oTrunc) \/
    (mode.StartsWith letterA /\ access = oWronly ||| oCreat ||| oAppend) := by
  have visibleR : letterR ≠ 0 := by decide
  have visibleW : letterW ≠ 0 := by decide
  have visibleA : letterA ≠ 0 := by decide
  rw [startsWith_iff mode visibleR, startsWith_iff mode visibleW, startsWith_iff mode visibleA]
  unfold Mode.access at accepted
  split_ifs at accepted with first second third
  · exact .inl ⟨first, (Option.some.inj accepted).symm⟩
  · exact .inr (.inl ⟨second, (Option.some.inj accepted).symm⟩)
  · exact .inr (.inr ⟨third, (Option.some.inj accepted).symm⟩)

theorem StartsWith.unique {mode : Mode} {one other : UInt8} (first : mode.StartsWith one)
    (second : mode.StartsWith other) : one = other :=
  Option.some.inj (first.symm.trans second)

end Mode

namespace OpenTarget

variable {δ : Type} [Action δ]

def Reads (mode : Mode) : OpenTarget δ -> Prop
  | .named _ _ => mode.StartsWith Mode.letterR \/ mode.EarlyPlus
  | .desc fd => ∃ found ∈ fd, Action.mayRead found.device

def Writes (mode : Mode) : OpenTarget δ -> Prop
  | .named _ _ =>
    mode.StartsWith Mode.letterW \/ mode.StartsWith Mode.letterA \/ mode.EarlyPlus
  | .desc fd => ∃ found ∈ fd, Action.mayWrite found.device

end OpenTarget

/-- The modes that a target gives their rights: the mode starts with `r` or has a `+`, the
descriptor can be read, and if there is a `+` it can be written, too, and the `+` stands
where it is looked for unless the mode starts with `w` or `a`. -/
def Mode.Plain {δ : Type} [Action δ] (target : OpenTarget δ) (mode : Mode) : Prop :=
  (mode.StartsWith Mode.letterR \/ Mode.plus ∈ mode.chars) /\ target.Reads mode /\
    (Mode.plus ∈ mode.chars ->
      target.Writes mode /\ (mode.StartsWith Mode.letterR -> mode.EarlyPlus))

/-! ## The rights the stream gets -/

section

variable {δ : Type} [Action δ]

/-- The flags every mode ends up with: the two tests of `O_RDONLY` and
`O_WRONLY` are all that depends on the mode; and the rights of a file opened with it. -/
theorem streamFlags_rights {mode : Mode} {access : FlagBits} (accepted : mode.access = some access) :
    let flags := clearFlag (Mode.streamFlags (mode.openMode access) mode.fileFlags) sord
    flagIsSet flags iobfInUse /\ flagIsSet flags iobfRead /\
      (flagIsSet flags iobfWrite <->
        mode.StartsWith Mode.letterW \/ mode.StartsWith Mode.letterA \/ mode.Updates) /\
      (opensForReading (mode.openMode access) <->
        mode.StartsWith Mode.letterR \/ mode.Updates) /\
      (opensForWriting (mode.openMode access) <->
        mode.StartsWith Mode.letterW \/ mode.StartsWith Mode.letterA \/ mode.Updates) := by
  intro flags
  have other : ∀ {one letter : UInt8}, one ≠ letter -> mode.StartsWith one ->
      (mode.StartsWith letter <-> False) :=
    fun differ first => iff_of_false (fun second => differ (first.unique second)) id
  by_cases updates : mode.Updates
  · have shown : mode.openMode access =
        setFlag (clearFlag (clearFlag access oRdonly) oWronly) oRdwr := if_pos updates
    have plain : mode.fileFlags = 0 := if_neg fun swaps => swaps.1 updates
    simp only [updates, or_true, iff_true, flags, shown, plain]
    rcases Mode.access_cases accepted with ⟨-, rfl⟩ | ⟨-, rfl⟩ | ⟨-, rfl⟩ <;> decide
  · -- Little endian mode adds a bit to both sets, and changes no right.
    obtain ⟨little, shown, inFlags⟩ : ∃ little : Bool,
        mode.openMode access = (if little then setFlag access oLittleEndian else access) /\
        mode.fileFlags = (if little then setFlag 0 iobfLittleEndian else 0) :=
      ⟨decide mode.Swaps, by simp [Mode.openMode, updates], by simp [Mode.fileFlags]⟩
    simp only [updates, or_false, flags, shown, inFlags]
    rcases Mode.access_cases accepted with ⟨first, rfl⟩ | ⟨first, rfl⟩ | ⟨first, rfl⟩
    · have others : (mode.StartsWith Mode.letterW \/ mode.StartsWith Mode.letterA) = False :=
        eq_false fun either => either.elim (other (by decide) first).mp (other (by decide) first).mp
      simp only [first, others, iff_true, iff_false]
      cases little <;> decide
    · simp only [first, true_or, iff_true, other (show Mode.letterW ≠ Mode.letterR by decide) first,
        iff_false]
      cases little <;> decide
    · simp only [first, or_true, iff_true, other (show Mode.letterA ≠ Mode.letterR by decide) first,
        iff_false]
      cases little <;> decide

/-- A stream that was opened: its mode was accepted, its flags are those of
the mode, and its buffer holds nothing. -/
theorem openIob_rights {context : OpenContext δ} {target : OpenTarget δ} {mode : Mode}
    {file : Iob δ} (opened : openIob context target mode = .ok file) :
    mode.Accepted /\ file.inUse /\ file.canRead /\ (file.canWrite <->
        mode.StartsWith Mode.letterW \/ mode.StartsWith Mode.letterA \/ mode.EarlyPlus) /\
      file.bufferReadBytes = 0 /\ file.bufferWriteBytes = 0 /\
      (Action.mayRead file.device <-> target.Reads mode) /\
      (Action.mayWrite file.device <-> target.Writes mode) := by
  unfold openIob at opened
  by_cases missing : target.Missing
  · rw [if_pos missing] at opened
    cases opened
  rw [if_neg missing] at opened
  split at opened
  · cases opened
  · rename_i access accepted
    split at opened
    · cases opened
    · split at opened
      · cases opened
      · rename_i fd obtained
        split at opened
        rotate_left
        · cases opened
        cases opened
        obtain ⟨inUse, canRead, canWrite, reads, writes⟩ := streamFlags_rights accepted
        rw [mode.updates_iff] at canWrite reads writes
        have rights : (Action.mayRead fd.device <-> target.Reads mode) /\
            (Action.mayWrite fd.device <-> target.Writes mode) := by
          cases target with
          | named openR rights =>
            obtain ⟨read, write⟩ := rights _ _ obtained
            rw [read, write]
            exact ⟨reads, writes⟩
          | desc given =>
            cases given with
            | none => exact (missing trivial).elim
            | some given =>
              cases obtained
              obtain ⟨read, write⟩ := context.setAppend_rights
                (flagIsSet (mode.openMode access) oAppend) given.device
              dsimp only
              rw [read, write]
              exact ⟨⟨fun may => ⟨given, rfl, may⟩, fun ⟨_, same, may⟩ => by cases same; exact may⟩,
                fun may => ⟨given, rfl, may⟩, fun ⟨_, same, may⟩ => by cases same; exact may⟩
        refine ⟨?_, inUse, canRead, canWrite, rfl, rfl, rights⟩
        rcases Mode.access_cases accepted with ⟨first, -⟩ | ⟨first, -⟩ | ⟨first, -⟩
        · exact .inl first
        · exact .inr (.inl first)
        · exact .inr (.inr first)

namespace Iob

/-- The stream passes the check in front of every read, and its descriptor that of `read`,
which blocks come to. -/
def Readable (file : Iob δ) : Prop :=
  file.fgetcCheck.1 /\ Action.mayRead file.device

instance (file : Iob δ) : Decidable file.Readable := by
  unfold Readable
  infer_instance

/-- The stream passes the check in front of every write, and its descriptor that of `write`. -/
def Writable (file : Iob δ) : Prop :=
  file.fputcCheck.1 /\ Action.mayWrite file.device

instance (file : Iob δ) : Decidable file.Writable := by
  unfold Writable
  infer_instance

/-- Every reading function fails with `EBADF`, and touches neither the buffer
nor the file. -/
def RefusesReads (file : Iob δ) : Prop :=
  file.fgetc = (none, file.fail .EBADF) /\
  (∀ n : Int, 0 < n -> file.fgets n = (⟨true, []⟩, file.fail .EBADF)) /\
  (∀ ptr elementSize count, (file.fread ptr elementSize count).1.1 = 0 /\
    (file.fread ptr elementSize count).2 = file.fail .EBADF)

/-- The stream gives the rights its mode asks for; and if the mode asks for
writing only, reads are refused after any calls. -/
def KeepsToMode {φ : Type} (lib : Library φ) (mode : Mode) (file : Iob δ) : Prop :=
  (file.Readable <-> mode.AsksToRead) /\
  (file.Writable <-> mode.AsksToWrite) /\
  (mode.AsksToWrite -> ¬ mode.AsksToRead -> ∀ operations : List (Operation φ),
    (file.performAll lib operations).RefusesReads)

theorem readable_iff {file : Iob δ} (inUse : file.inUse) (canRead : file.canRead)
    (settled : file.bufferWriteBytes = 0) :
    file.Readable <-> Action.mayRead file.device := by
  simp [Readable, fgetcCheck, inUse, canRead, writeBufferIsValid, settled]

theorem writable_iff {file : Iob δ} (inUse : file.inUse)
    (settled : file.bufferReadBytes = 0) :
    file.Writable <-> file.canWrite /\ Action.mayWrite file.device := by
  cases canWrite : file.canWrite <;>
    simp [Writable, fputcCheck, inUse, canWrite, readBufferIsValid, settled]

/-- A request for nothing is not refused where the flags allow reading. -/
theorem not_refusesReads {file : Iob δ} (inUse : file.inUse)
    (canRead : file.canRead) : ¬ file.RefusesReads := by
  intro refuses
  have error := congrArg Iob.error (refuses.2.2 (fun _ => 0) 0 0).2
  simp [fread, freadInternal, inUse, canRead, clearerr, fail] at error
  split at error <;> cases error

end Iob

/-- What a stream over the descriptor of a one-byte file is opened with. -/
def sampleContext : OpenContext Source where
  cacheLineSize := 32
  memory := some fun _ => 0
  semaphore := true
  setAppend := fun _ fd => fd
  setAppend_rights := fun _ _ => ⟨rfl, rfl⟩
  errno := none

/-- A file that holds the letter `A` and may be opened for writing, by its name. -/
def sampleFile : OpenTarget Source :=
  .named (fun openFlag => if opensForWriting openFlag then
      .ok ⟨false, false, ⟨⟨[65], 0, false⟩, [], [], opensForReading openFlag⟩⟩
    else .error (.io 223)) fun openFlag fd opened => by
      split at opened
      · rename_i writes
        cases opened
        exact ⟨rfl, writes.symm⟩
      · cases opened

end

end Clib4.Stdio
